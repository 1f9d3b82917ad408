import Akabbo.MoneyTokens

/-!
# The clause of an utterance

In a text with single blanks the parser takes the first verb that stands between two blanks, after
a leading command if that leaves a name.
-/
namespace Akabbo.SpokenClauses
open RegularExpressions TextPatterns Tier1Parser

structure Clause where
  name : List Char
  verb : List Char
  rest : List Char
  deriving DecidableEq, Repr

def IsVerb (word : List Char) : Prop :=
  word.map Char.toLower ∈ (paymentVerbs ++ pledgeVerbs).map String.toList

theorem lawful_text : LawfulBEq (List Char) := inferInstance

attribute [local instance] lawful_text

instance (word : List Char) : Decidable (IsVerb word) :=
  inferInstanceAs (Decidable (_ ∈ _))

/-- A verb between two blanks, and what follows it. -/
def verbAt : List Char → Option (List Char × List Char)
  | ' ' :: text =>
    let verb := text.takeWhile (· != ' ')
    let rest := (text.dropWhile (· != ' ')).drop 1
    if IsVerb verb ∧ rest ≠ [] then some (verb, rest) else none
  | _ => none

/-- The first verb after a name. -/
def splitAfter (name : List Char) : List Char → Option Clause
  | [] => none
  | a :: text =>
    match verbAt (a :: text) with
    | some (verb, rest) => some ⟨name, verb, rest⟩
    | none => splitAfter (name ++ [a]) text

def splitVerb : List Char → Option Clause
  | [] => none
  | a :: text => splitAfter [a] text

def commands : List (List Char) := ["record", "note", "log"].map String.toList

/-- What follows a leading command. -/
def commandRest (text : List Char) : Option (List Char) :=
  match text.dropWhile (· != ' ') with
  | [] => none
  | _ :: rest =>
    if (text.takeWhile (· != ' ')).map Char.toLower ∈ commands then some rest else none

def clauseOf (text : List Char) : Option Clause :=
  ((commandRest text).bind splitVerb).or (splitVerb text)

structure Spaced (text : List Char) : Prop where
  blank : ∀ a ∈ text, isSpace a = true → a = ' '
  single : text.IsChain fun a b => a ≠ ' ' ∨ b ≠ ' '

section spaced
variable {text x y : List Char}

theorem Spaced.suffix (h : Spaced (x ++ y)) : Spaced y where
  blank a ha := h.blank a (List.mem_append_right x ha)
  single := h.single.right_of_append

theorem Spaced.lineEnd (h : Spaced text) : ∀ a ∈ text, isLineEnd a = false := by
  intro a ha
  rw [Bool.eq_false_iff]
  intro hend
  have hspace : isSpace a = true := by
    unfold isLineEnd at hend
    unfold isSpace
    simp only [Bool.or_eq_true, beq_iff_eq, Bool.and_eq_true, decide_eq_true_eq] at hend ⊢
    omega
  rw [h.blank a ha hspace] at hend
  exact absurd hend (by decide)

/-- A run of white space is one blank. -/
theorem Spaced.run (h : Spaced (x ++ y)) (hne : x ≠ []) (hx : ∀ a ∈ x, isSpace a = true) :
    x = [' '] := by
  have hblank : ∀ a ∈ x, a = ' ' := fun a ha => h.blank a (List.mem_append_left y ha) (hx a ha)
  match x, hne with
  | [a], _ => rw [hblank a List.mem_cons_self]
  | a :: b :: rest, _ =>
    have hsingle := h.single
    rw [hblank a List.mem_cons_self, hblank b (List.mem_cons_of_mem _ List.mem_cons_self)] at hsingle
    have hpair := hsingle.rel
    simp at hpair

end spaced

section clauses
variable {c d : Cursor Char}

theorem mem_verbs : d ∈ verbs.paths c ↔ ∃ x, IsVerb x ∧ Reads x c d := by
  unfold verbs IsVerb
  rw [mem_any]
  simp only [List.mem_map]
  constructor
  · rintro ⟨_, ⟨word, hword, rfl⟩, h⟩
    obtain ⟨x, hx, hreads⟩ := mem_literal.mp h
    exact ⟨x, ⟨word, hword, hx.symm⟩, hreads⟩
  · rintro ⟨x, ⟨word, hword, hx⟩, hreads⟩
    exact ⟨_, ⟨word, hword, rfl⟩, mem_literal.mpr ⟨x, hx.symm, hreads⟩⟩

theorem IsVerb.noBlank {verb : List Char} (h : IsVerb verb) : ∀ a ∈ verb, (a != ' ') = true := by
  have hall : ∀ word ∈ (paymentVerbs ++ pledgeVerbs).map String.toList, ' ' ∉ word := by decide
  intro a ha
  rw [bne_iff_ne]
  rintro rfl
  exact hall _ h (List.mem_map_of_mem ha)

theorem verbAt_eq_some {text verb rest : List Char} : verbAt text = some (verb, rest) ↔
    IsVerb verb ∧ rest ≠ [] ∧ text = ' ' :: (verb ++ ' ' :: rest) := by
  constructor
  · intro h
    unfold verbAt at h
    split at h
    · next text =>
      simp only [Option.ite_none_right_eq_some, Option.some.injEq, Prod.mk.injEq] at h
      obtain ⟨⟨hverb, hrest⟩, rfl, rfl⟩ := h
      refine ⟨hverb, hrest, congrArg (' ' :: ·) ?_⟩
      cases hdrop : text.dropWhile (· != ' ') with
      | nil =>
        rw [hdrop] at hrest
        exact absurd rfl hrest
      | cons a more =>
        have ha : a = ' ' := by
          have hhead := List.head?_dropWhile_not (· != ' ') text
          rw [hdrop] at hhead
          simpa using hhead
        nth_rewrite 1 [← List.takeWhile_append_dropWhile (p := (· != ' ')) (l := text)]
        rw [hdrop, ha]
        rfl
    · cases h
  · rintro ⟨hverb, hrest, rfl⟩
    obtain ⟨htake, hdrop⟩ := Amounts.run_ends hverb.noBlank (y := ' ' :: rest) (by simp)
    simp only [verbAt, htake, hdrop, List.drop_succ_cons, List.drop_zero]
    rw [if_pos ⟨hverb, hrest⟩]

/-- What stands behind the name: `\s+(paid|sent|...)\s+(.+)$`. -/
def tailPattern : Regex Char :=
  Regex.all [space.plus, .group 2 verbs, space.plus, .group 3 dot.plus, .finish]

def tailGroups (groups : ℕ → Option (List Char)) (verb rest : List Char) : ℕ → Option (List Char) :=
  Function.update (Function.update groups 2 (some verb)) 3 (some rest)

theorem mem_tailPattern (h : Spaced c.after) : d ∈ tailPattern.paths c ↔
    ∃ verb rest, verbAt c.after = some (verb, rest) ∧
      d = ⟨c.after.reverse ++ c.before, [], tailGroups c.groups verb rest⟩ := by
  have htakes (i : ℕ) (c d : Cursor Char) := mem_group_takes (c := c) (d := d) (i := i)
    (r := dot.plus) (P := fun x => x ≠ [] ∧ ∀ a ∈ x, (!isLineEnd a) = true) fun e => by
      rw [dot, mem_plus_one]
      exact exists_congr fun x => and_assoc.symm
  have hverbs (c d : Cursor Char) := mem_group_takes (c := c) (d := d) (i := 2) fun e =>
    mem_verbs (c := c) (d := e)
  change d ∈ (Regex.seq space.plus (.seq (.group 2 verbs) (.seq space.plus
    (.seq (.group 3 dot.plus) .finish)))).paths c ↔ _
  simp only [mem_seq, hverbs, htakes, mem_finish]
  constructor
  · rintro ⟨e, he, f, ⟨verb, hverb, hf⟩, g, hg, _, ⟨rest, ⟨hrest, -⟩, hk⟩, hfinish, rfl⟩
    obtain ⟨x, hxne, hx, hreads⟩ := mem_plus_one.mp he
    obtain ⟨y, hyne, hy, hreads'⟩ := mem_plus_one.mp hg
    rw [hreads.after] at h
    have hxblank := h.run hxne hx
    have hspaced := h.suffix
    rw [hf.after] at hspaced
    have hspaced' := hspaced.suffix
    rw [hreads'.after] at hspaced'
    have hyblank := hspaced'.run hyne hy
    subst hxblank hyblank
    have hafter : c.after = ' ' :: (verb ++ ' ' :: rest) := by
      rw [hreads.after, hf.after, hreads'.after, hk.after, hfinish]
      simp
    refine ⟨verb, rest, verbAt_eq_some.mpr ⟨hverb, hrest, hafter⟩, ?_⟩
    have hbefore : d.before = c.after.reverse ++ c.before := by
      rw [hk.before, hreads'.before, hf.before, hreads.before, hafter]
      simp
    have hgroups : d.groups = tailGroups c.groups verb rest := by
      rw [hk.groups, hreads'.groups, hf.groups, hreads.groups]
      rfl
    rw [← hbefore, ← hgroups, ← hfinish]
  · rintro ⟨verb, rest, hat, rfl⟩
    obtain ⟨hverb, hrest, hafter⟩ := verbAt_eq_some.mp hat
    refine ⟨⟨' ' :: c.before, verb ++ ' ' :: rest, c.groups⟩,
      mem_plus_one.mpr ⟨[' '], List.cons_ne_nil _ _, by simp; decide, hafter, rfl, rfl⟩,
      ⟨verb.reverse ++ ' ' :: c.before, ' ' :: rest, Function.update c.groups 2 (some verb)⟩,
      ⟨verb, hverb, rfl, rfl, rfl⟩,
      ⟨' ' :: (verb.reverse ++ ' ' :: c.before), rest, Function.update c.groups 2 (some verb)⟩,
      mem_plus_one.mpr ⟨[' '], List.cons_ne_nil _ _, by simp; decide, rfl, rfl, rfl⟩,
      _, ⟨rest, ⟨hrest, ?_⟩, ?_, ?_, rfl⟩, rfl, rfl⟩
    · intro a ha
      rw [h.lineEnd a (by rw [hafter]; simp [ha])]
      rfl
    · simp
    · rw [hafter]
      simp

theorem head?_tailPattern (h : Spaced c.after) : (tailPattern.paths c).head? =
    (verbAt c.after).map fun p =>
      ⟨c.after.reverse ++ c.before, [], tailGroups c.groups p.1 p.2⟩ := by
  cases hat : verbAt c.after with
  | none =>
    rw [Option.map_none, List.head?_eq_none_iff, List.eq_nil_iff_forall_not_mem]
    intro d hd
    obtain ⟨verb, rest, hsome, -⟩ := (mem_tailPattern h).mp hd
    rw [hat] at hsome
    cases hsome
  | some p =>
    refine head?_of_unique ((mem_tailPattern h).mpr ⟨p.1, p.2, hat, rfl⟩) ?_
    intro e he
    obtain ⟨verb, rest, hsome, rfl⟩ := (mem_tailPattern h).mp he
    rw [hat] at hsome
    cases hsome
    rfl

def clauseGroups (groups : ℕ → Option (List Char)) (clause : Clause) : ℕ → Option (List Char) :=
  tailGroups (Function.update groups 1 (some clause.name)) clause.verb clause.rest

/-- The first group takes what was read since `c`. -/
def named (c d : Cursor Char) : Cursor Char :=
  { d with groups := Function.update d.groups 1 (some (between c d)) }

/-- The name grows until a verb follows. -/
theorem findSome?_along (groups : ℕ → Option (List Char)) (before name text : List Char)
    (h : Spaced text) :
    ((along (fun a => !isLineEnd a) groups (name.reverse ++ before) text).findSome? fun d =>
      (tailPattern.paths (named ⟨before, name ++ text, groups⟩ d)).head?) =
      (splitAfter name text).map fun clause =>
        ⟨(name ++ text).reverse ++ before, [], clauseGroups groups clause⟩ := by
  have htail (name text : List Char) (h : Spaced text) :
      (tailPattern.paths (named ⟨before, name ++ text, groups⟩
        ⟨name.reverse ++ before, text, groups⟩)).head? = (verbAt text).map fun p =>
          ⟨(name ++ text).reverse ++ before, [], clauseGroups groups ⟨name, p.1, p.2⟩⟩ := by
    have hbetween : between ⟨before, name ++ text, groups⟩
        ⟨name.reverse ++ before, text, groups⟩ = name := (reads_append before name text groups).between
    have hhead := head?_tailPattern (c := named ⟨before, name ++ text, groups⟩
      ⟨name.reverse ++ before, text, groups⟩) h
    simp only [named, hbetween] at hhead ⊢
    rw [hhead, List.reverse_append, List.append_assoc]
    rfl
  induction text generalizing name with
  | nil =>
    rw [along, List.findSome?_cons, htail name [] h]
    rfl
  | cons a text ih =>
    have hdot : (!isLineEnd a) = true := by
      rw [h.lineEnd a List.mem_cons_self]
      rfl
    have hrest := ih (name ++ [a]) (h.suffix (x := [a]))
    rw [along, if_pos hdot, List.findSome?_cons, htail name (a :: text) h, splitAfter]
    cases verbAt (a :: text) with
    | some p => rfl
    | none =>
      rw [List.append_assoc, List.reverse_append] at hrest
      exact hrest

theorem head?_clausePattern (h : Spaced c.after) : (clausePattern.paths c).head? =
    (splitVerb c.after).map fun clause =>
      ⟨c.after.reverse ++ c.before, [], clauseGroups c.groups clause⟩ := by
  obtain ⟨before, after, groups⟩ := c
  change ((Regex.seq (.group 1 (dot.plus true)) tailPattern).paths ⟨before, after, groups⟩).head? = _
  rw [head?_seq_eq]
  change ((((readOne (fun a => !isLineEnd a) ⟨before, after, groups⟩).flatMap
    (Regex.star true (.one fun a => !isLineEnd a)).paths).map _).findSome? _) = _
  cases after with
  | nil => rfl
  | cons a text =>
    have hdot : (!isLineEnd a) = true := by
      rw [h.lineEnd a List.mem_cons_self]
      rfl
    have hone : readOne (fun a => !isLineEnd a) ⟨before, a :: text, groups⟩ =
        [⟨a :: before, text, groups⟩] := if_pos hdot
    rw [hone, List.flatMap_singleton, paths_star_one, if_pos rfl, List.findSome?_map]
    exact findSome?_along groups before [a] text (h.suffix (x := [a]))

theorem mem_command {word : String} : d ∈ (command word).paths c ↔
    ∃ x y, x.map Char.toLower = word.toList ∧ y ≠ [] ∧ (∀ a ∈ y, isSpace a = true) ∧
      Reads (x ++ y) c d := by
  change d ∈ (Regex.seq (literal word) space.plus).paths c ↔ _
  rw [mem_seq]
  constructor
  · rintro ⟨e, he, hd⟩
    obtain ⟨x, hx, hreads⟩ := mem_literal.mp he
    obtain ⟨y, hyne, hy, hreads'⟩ := mem_plus_one.mp hd
    exact ⟨x, y, hx, hyne, hy, hreads.trans hreads'⟩
  · rintro ⟨x, y, hx, hyne, hy, hreads⟩
    obtain ⟨e, he, hd⟩ := hreads.split
    exact ⟨e, mem_literal.mpr ⟨x, hx, he⟩, mem_plus_one.mpr ⟨y, hyne, hy, hd⟩⟩

theorem commandRest_eq_some {text rest : List Char} : commandRest text = some rest ↔
    ∃ word, word.map Char.toLower ∈ commands ∧ text = word ++ ' ' :: rest := by
  have hall : ∀ word ∈ commands, ' ' ∉ word := by decide
  constructor
  · intro h
    unfold commandRest at h
    split at h
    · cases h
    · next a more hdrop =>
      simp only [Option.ite_none_right_eq_some, Option.some.injEq] at h
      obtain ⟨hword, rfl⟩ := h
      have ha : a = ' ' := by
        have hhead := List.head?_dropWhile_not (· != ' ') text
        rw [hdrop] at hhead
        simpa using hhead
      refine ⟨_, hword, ?_⟩
      nth_rewrite 1 [← List.takeWhile_append_dropWhile (p := (· != ' ')) (l := text)]
      rw [hdrop, ha]
  · rintro ⟨word, hword, rfl⟩
    have hblank : ∀ a ∈ word, (a != ' ') = true := by
      intro a ha
      rw [bne_iff_ne]
      rintro rfl
      exact hall _ hword (List.mem_map_of_mem ha)
    obtain ⟨htake, hdrop⟩ := Amounts.run_ends hblank (y := ' ' :: rest) (by simp)
    unfold commandRest
    rw [hdrop, htake]
    exact if_pos hword

theorem mem_commandPattern (h : Spaced c.after) : d ∈ commandPattern.paths c ↔
    ∃ rest, commandRest c.after = some rest ∧ ∃ x, c.after = x ++ rest ∧
      d = ⟨x.reverse ++ c.before, rest, c.groups⟩ := by
  have hcommands : d ∈ commandPattern.paths c ↔ ∃ x y, x.map Char.toLower ∈ commands ∧ y ≠ [] ∧
      (∀ a ∈ y, isSpace a = true) ∧ Reads (x ++ y) c d := by
    have hany : d ∈ commandPattern.paths c ↔
        ∃ word ∈ ["record", "note", "log"], d ∈ (command word).paths c := by
      change d ∈ (Regex.any (["record", "note", "log"].map command)).paths c ↔ _
      rw [mem_any]
      simp only [List.mem_map, exists_exists_and_eq_and]
    rw [hany]
    simp only [mem_command, commands, List.mem_map]
    constructor
    · rintro ⟨word, hword, x, y, hx, hy⟩
      exact ⟨x, y, ⟨word, hword, hx.symm⟩, hy⟩
    · rintro ⟨x, y, ⟨word, hword, hx⟩, hy⟩
      exact ⟨word, hword, x, y, hx.symm, hy⟩
  rw [hcommands]
  simp only [commandRest_eq_some]
  constructor
  · rintro ⟨x, y, hx, hyne, hy, hreads⟩
    have hafter : c.after = x ++ (y ++ d.after) := by
      rw [hreads.after, List.append_assoc]
    rw [hafter] at h
    obtain rfl := h.suffix.run hyne hy
    refine ⟨d.after, ⟨x, hx, hafter⟩, x ++ [' '], hreads.after, ?_⟩
    rw [← hreads.before, ← hreads.groups]
  · rintro ⟨rest, ⟨word, hword, hafter⟩, x, hx, rfl⟩
    have hxword : x = word ++ [' '] := by
      have hsame : x ++ rest = (word ++ [' ']) ++ rest := by
        rw [← hx, hafter]
        simp
      exact List.append_cancel_right hsame
    subst hxword
    exact ⟨word, [' '], hword, List.cons_ne_nil _ _, by simp; decide, hx, rfl, rfl⟩

end clauses

theorem exec_verbPattern {text : List Char} (h : Spaced text) :
    verbPattern.exec text = (clauseOf text).map (clauseGroups fun _ => none) := by
  have hcommand : ((Regex.seq commandPattern clausePattern).paths
      ⟨[], text, fun _ => none⟩).head?.map Cursor.groups =
        ((commandRest text).bind splitVerb).map (clauseGroups fun _ => none) := by
    cases hrest : commandRest text with
    | none =>
      have hnone : commandPattern.paths ⟨[], text, fun _ => none⟩ = [] := by
        rw [List.eq_nil_iff_forall_not_mem]
        intro d hd
        obtain ⟨rest, hsome, -⟩ := (mem_commandPattern h).mp hd
        rw [hrest] at hsome
        cases hsome
      rw [head?_seq_eq, hnone]
      rfl
    | some rest =>
      obtain ⟨word, hword, htext⟩ := commandRest_eq_some.mp hrest
      have hread : text = (word ++ [' ']) ++ rest := by
        rw [htext]
        simp
      have hmem := (mem_commandPattern (c := ⟨[], text, fun _ => none⟩) h).mpr
        ⟨rest, hrest, _, hread, rfl⟩
      have hunique : ∀ e ∈ commandPattern.paths ⟨[], text, fun _ => none⟩,
          e = ⟨(word ++ [' ']).reverse ++ [], rest, fun _ => none⟩ := by
        intro e he
        obtain ⟨rest', hrest', x, hx, rfl⟩ := (mem_commandPattern h).mp he
        rw [hrest] at hrest'
        cases hrest'
        rw [List.append_cancel_right (hx.symm.trans hread)]
      rw [hread] at h
      rw [head?_seq_of_unique hmem hunique, head?_clausePattern h.suffix, Option.map_map]
      rfl
  unfold Regex.exec
  change ((Regex.seq .start (.seq commandPattern.optional clausePattern)).searchFrom [] text).map _ = _
  rw [searchFrom_start, head?_optional_seq, head?_clausePattern h, Option.map_or, hcommand,
    Option.map_map, clauseOf, Option.map_or]
  rfl

section texts
variable {text name x z : List Char} {clause : Clause}

theorem splitAfter_eq_some (h : splitAfter name text = some clause) :
    IsVerb clause.verb ∧ clause.rest ≠ [] ∧ ∃ p, clause.name = name ++ p ∧
      text = p ++ ' ' :: (clause.verb ++ ' ' :: clause.rest) := by
  induction text generalizing name with
  | nil => cases h
  | cons a text ih =>
    rw [splitAfter] at h
    split at h
    · next verb rest hat =>
      cases h
      obtain ⟨hverb, hrest, htext⟩ := verbAt_eq_some.mp hat
      exact ⟨hverb, hrest, [], by simp, htext⟩
    · obtain ⟨hverb, hrest, p, hp, htext⟩ := ih h
      exact ⟨hverb, hrest, a :: p, by rw [hp]; simp, by rw [htext]; rfl⟩

theorem splitVerb_eq_some (h : splitVerb text = some clause) :
    IsVerb clause.verb ∧ clause.rest ≠ [] ∧ clause.name ≠ [] ∧
      text = clause.name ++ ' ' :: (clause.verb ++ ' ' :: clause.rest) := by
  cases text with
  | nil => cases h
  | cons a text =>
    obtain ⟨hverb, hrest, p, hp, htext⟩ := splitAfter_eq_some h
    exact ⟨hverb, hrest, by rw [hp]; simp, by rw [hp, htext]; rfl⟩

theorem splitAfter_isSome {verb rest : List Char} (hverb : IsVerb verb) (hrest : rest ≠ []) :
    (splitAfter name (x ++ ' ' :: (verb ++ ' ' :: rest))).isSome = true := by
  induction x generalizing name with
  | nil =>
    have hat : verbAt (' ' :: (verb ++ ' ' :: rest)) = some (verb, rest) :=
      verbAt_eq_some.mpr ⟨hverb, hrest, rfl⟩
    rw [List.nil_append, splitAfter, hat]
    rfl
  | cons a x ih =>
    rw [List.cons_append, splitAfter]
    cases verbAt (a :: (x ++ ' ' :: (verb ++ ' ' :: rest))) with
    | some p => rfl
    | none => exact ih

/-- The first verb is the one that no other stands before. -/
theorem splitAfter_first {verb rest : List Char} (hverb : IsVerb verb) (hrest : rest ≠ [])
    (h : ∀ u v, x = u ++ v → v ≠ [] → verbAt (v ++ ' ' :: (verb ++ ' ' :: rest)) = none) :
    splitAfter name (x ++ ' ' :: (verb ++ ' ' :: rest)) = some ⟨name ++ x, verb, rest⟩ := by
  induction x generalizing name with
  | nil =>
    have hat : verbAt (' ' :: (verb ++ ' ' :: rest)) = some (verb, rest) :=
      verbAt_eq_some.mpr ⟨hverb, hrest, rfl⟩
    rw [List.nil_append, splitAfter, hat, List.append_nil]
  | cons a x ih =>
    have hnone : verbAt (a :: (x ++ ' ' :: (verb ++ ' ' :: rest))) = none :=
      h [] (a :: x) rfl (List.cons_ne_nil _ _)
    rw [List.cons_append, splitAfter, hnone]
    dsimp only
    rw [ih fun u v hx hv => h (a :: u) v (by rw [hx]; rfl) hv, List.append_assoc]
    rfl

/-- A verb between two blanks is found, or one before it. -/
theorem splitVerb_isSome {verb rest : List Char} (hne : x ≠ []) (hverb : IsVerb verb)
    (hrest : rest ≠ []) : (splitVerb (x ++ ' ' :: (verb ++ ' ' :: rest))).isSome = true := by
  obtain ⟨a, x, rfl⟩ := List.exists_cons_of_ne_nil hne
  exact splitAfter_isSome hverb hrest

theorem IsVerb.count_blank {verb : List Char} (h : IsVerb verb) : verb.count ' ' = 0 :=
  List.count_eq_zero.mpr fun hmem => bne_iff_ne.mp (h.noBlank ' ' hmem) rfl

/-- What is said after a clause does not move its verb. -/
theorem splitAfter_append (h : splitAfter name text = some clause) (z : List Char) :
    splitAfter name (text ++ z) = some { clause with rest := clause.rest ++ z } := by
  induction text generalizing name with
  | nil => cases h
  | cons a text ih =>
    rw [splitAfter] at h
    rw [List.cons_append, splitAfter]
    cases hat : verbAt (a :: text) with
    | some p =>
      rw [hat] at h
      cases h
      obtain ⟨hverb, hrest, htext⟩ := verbAt_eq_some.mp hat
      have hlong : verbAt (a :: (text ++ z)) = some (p.1, p.2 ++ z) := by
        refine verbAt_eq_some.mpr ⟨hverb, List.append_ne_nil_of_left_ne_nil hrest z, ?_⟩
        rw [← List.cons_append, htext]
        simp
      rw [hlong]
    | none =>
      rw [hat] at h
      have hlong : verbAt (a :: (text ++ z)) = none := by
        rw [Option.eq_none_iff_forall_ne_some]
        rintro ⟨verb, rest⟩ hsome
        obtain ⟨hverb, -, hlonger⟩ := verbAt_eq_some.mp hsome
        obtain ⟨-, hrest, p, -, hsplit⟩ := splitAfter_eq_some h
        obtain ⟨rfl, htext⟩ := List.cons.inj hlonger
        -- the first blank of the longer text is one of the shorter
        obtain ⟨w, hw, hwne⟩ : ∃ w, text = verb ++ ' ' :: w ∧ w ≠ [] := by
          have htwo : 2 ≤ text.count ' ' := by
            rw [hsplit]
            simp only [List.count_append, List.count_cons_self]
            omega
          have hnone := hverb.count_blank
          rcases List.append_eq_append_iff.mp htext with ⟨w, rfl, -⟩ | ⟨w, rfl, hw⟩
          · rw [List.count_append] at hnone
            omega
          · rw [List.count_append, hnone] at htwo
            cases w with
            | nil =>
              rw [List.count_nil] at htwo
              omega
            | cons b w =>
              obtain ⟨rfl, -⟩ := List.cons.inj hw
              refine ⟨w, rfl, ?_⟩
              rintro rfl
              simp at htwo
        have hshort : verbAt (' ' :: text) = some (verb, w) :=
          verbAt_eq_some.mpr ⟨hverb, hwne, by rw [hw]⟩
        rw [hat] at hshort
        cases hshort
      rw [hlong]
      exact ih h

theorem splitVerb_append (h : splitVerb text = some clause) (z : List Char) :
    splitVerb (text ++ z) = some { clause with rest := clause.rest ++ z } := by
  cases text with
  | nil => cases h
  | cons a text => exact splitAfter_append h z

theorem commandRest_append (hblank : ' ' ∈ text) (z : List Char) :
    commandRest (text ++ z) = (commandRest text).map (· ++ z) := by
  have hdrop : text.dropWhile (· != ' ') ≠ [] := by
    rw [Ne, List.dropWhile_eq_nil_iff]
    push Not
    exact ⟨' ', hblank, by simp⟩
  obtain ⟨a, rest, hrest⟩ := List.exists_cons_of_ne_nil hdrop
  have hboth : (text ++ z).takeWhile (· != ' ') = text.takeWhile (· != ' ') ∧
      (text ++ z).dropWhile (· != ' ') = a :: (rest ++ z) := by
    have hnone : (a != ' ') = false := by
      have hhead := List.head?_dropWhile_not (· != ' ') text
      rw [hrest] at hhead
      simpa using hhead
    have hends := Amounts.run_ends (p := (· != ' ')) (x := text.takeWhile (· != ' '))
      (y := a :: (rest ++ z))
      (fun b hb => List.mem_takeWhile_imp (p := (· != ' ')) hb) fun b hb => by
        cases hb
        exact hnone
    have htext : text.takeWhile (· != ' ') ++ a :: (rest ++ z) = text ++ z := by
      rw [← List.cons_append, ← hrest, ← List.append_assoc, List.takeWhile_append_dropWhile]
    rwa [htext] at hends
  unfold commandRest
  rw [hboth.1, hboth.2, hrest]
  dsimp only
  split_ifs
  · rfl
  · rfl

end texts
end Akabbo.SpokenClauses
