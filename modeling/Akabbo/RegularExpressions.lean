import Mathlib.Data.List.Basic
import Mathlib.Data.List.Forall2
import Mathlib.Logic.Function.Basic
import Mathlib.Tactic.Common

/-!
# Regular expressions that backtrack

A pattern leads from a position in a text to the positions it may stop at, the preferred one first.
Searching takes the first position of the text with a way through.
-/
namespace Akabbo.RegularExpressions

variable {α : Type}

inductive Regex (α : Type)
  | empty
  | one (p : α → Bool)
  | seq (r s : Regex α)
  | alt (r s : Regex α)
  | star (isLazy : Bool) (r : Regex α)
  | group (i : ℕ) (r : Regex α)
  | notAhead (r : Regex α)
  | boundary (word : α → Bool)
  | start
  | finish

/-- What is read, last first, what is still to read, and what the groups took. -/
structure Cursor (α : Type) where
  before : List α
  after : List α
  groups : ℕ → Option (List α)

/-- A round that reads nothing is not taken. -/
def repeated (next : Cursor α → List (Cursor α)) (isLazy : Bool) : ℕ → Cursor α → List (Cursor α)
  | 0, c => [c]
  | n + 1, c =>
    let more := ((next c).filter fun d => d.after.length < c.after.length).flatMap
      (repeated next isLazy n)
    if isLazy then c :: more else more ++ [c]

def readOne (p : α → Bool) (c : Cursor α) : List (Cursor α) :=
  match c.after with
  | [] => []
  | a :: rest => if p a then [⟨a :: c.before, rest, c.groups⟩] else []

/-- What was read between two positions. -/
def between (c d : Cursor α) : List α := c.after.take (c.after.length - d.after.length)

def Regex.paths : Regex α → Cursor α → List (Cursor α)
  | .empty, c => [c]
  | .one p, c => readOne p c
  | .seq r s, c => (r.paths c).flatMap s.paths
  | .alt r s, c => r.paths c ++ s.paths c
  | .star isLazy r, c => repeated r.paths isLazy c.after.length c
  | .group i r, c =>
      (r.paths c).map fun d => { d with groups := Function.update d.groups i (some (between c d)) }
  | .notAhead r, c => if (r.paths c).isEmpty then [c] else []
  | .boundary word, c => if c.before.head?.any word != c.after.head?.any word then [c] else []
  | .start, c => if c.before.isEmpty then [c] else []
  | .finish, c => if c.after.isEmpty then [c] else []

/-- `r?`, and `r+`. -/
def Regex.optional (r : Regex α) : Regex α := .alt r .empty

def Regex.plus (r : Regex α) (isLazy : Bool := false) : Regex α := .seq r (.star isLazy r)

/-- One after the other, and one of several, the first preferred. -/
def Regex.all : List (Regex α) → Regex α
  | [] => .empty
  | [r] => r
  | r :: rest => .seq r (Regex.all rest)

def Regex.any : List (Regex α) → Regex α
  | [] => .notAhead .empty
  | [r] => r
  | r :: rest => .alt r (Regex.any rest)

def Regex.searchFrom (r : Regex α) (before : List α) : List α → Option (Cursor α)
  | [] => (r.paths ⟨before, [], fun _ => none⟩).head?
  | a :: rest => (r.paths ⟨before, a :: rest, fun _ => none⟩).head? <|>
      r.searchFrom (a :: before) rest

/-- `text.match(r)`, of which only the groups are used. -/
def Regex.exec (r : Regex α) (text : List α) : Option (ℕ → Option (List α)) :=
  (r.searchFrom [] text).map Cursor.groups

/-- `r.test(text)`. -/
def Regex.test (r : Regex α) (text : List α) : Bool := (r.exec text).isSome

/-- The second position is the first after reading `x`. -/
structure Reads (x : List α) (c d : Cursor α) : Prop where
  after : c.after = x ++ d.after
  before : d.before = x.reverse ++ c.before
  groups : d.groups = c.groups

section paths
variable {r s : Regex α} {c d e : Cursor α} {x y : List α}

theorem reads_nil : Reads [] c d ↔ d = c := by
  constructor
  · rintro ⟨hafter, hbefore, hgroups⟩
    obtain ⟨before, after, groups⟩ := d
    dsimp only [List.nil_append, List.reverse_nil] at hafter hbefore hgroups
    rw [← hafter, hbefore, hgroups]
  · rintro rfl
    exact ⟨rfl, rfl, rfl⟩

theorem Reads.trans (h : Reads x c d) (h' : Reads y d e) : Reads (x ++ y) c e where
  after := by rw [h.after, h'.after, List.append_assoc]
  before := by rw [h'.before, h.before, List.reverse_append, List.append_assoc]
  groups := h'.groups.trans h.groups

/-- Reading in two steps passes through the position between. -/
theorem Reads.split (h : Reads (x ++ y) c d) : ∃ e, Reads x c e ∧ Reads y e d := by
  refine ⟨⟨x.reverse ++ c.before, y ++ d.after, c.groups⟩, ⟨?_, rfl, rfl⟩, rfl, ?_, h.groups⟩
  · rw [h.after, List.append_assoc]
  · rw [h.before, List.reverse_append, List.append_assoc]

theorem Reads.between (h : Reads x c d) : between c d = x := by
  unfold RegularExpressions.between
  rw [h.after, List.length_append, Nat.add_sub_cancel]
  exact List.take_left

theorem reads_append (before x after : List α) (groups : ℕ → Option (List α)) :
    Reads x ⟨before, x ++ after, groups⟩ ⟨x.reverse ++ before, after, groups⟩ := ⟨rfl, rfl, rfl⟩

/-- The second position is the first after reading `x` into a group. -/
structure Takes (i : ℕ) (x : List α) (c d : Cursor α) : Prop where
  after : c.after = x ++ d.after
  before : d.before = x.reverse ++ c.before
  groups : d.groups = Function.update c.groups i (some x)

theorem mem_group_takes {i : ℕ} {P : List α → Prop}
    (h : ∀ e, e ∈ r.paths c ↔ ∃ x, P x ∧ Reads x c e) :
    d ∈ (Regex.group i r).paths c ↔ ∃ x, P x ∧ Takes i x c d := by
  have hmem : d ∈ (Regex.group i r).paths c ↔ ∃ e ∈ r.paths c,
      ⟨e.before, e.after, Function.update e.groups i (some (RegularExpressions.between c e))⟩ = d :=
    List.mem_map
  rw [hmem]
  constructor
  · rintro ⟨e, he, rfl⟩
    obtain ⟨x, hx, hreads⟩ := (h e).mp he
    refine ⟨x, hx, hreads.after, hreads.before, ?_⟩
    rw [hreads.between, hreads.groups]
  · rintro ⟨x, hx, htakes⟩
    have hreads : Reads x c ⟨d.before, d.after, c.groups⟩ := ⟨htakes.after, htakes.before, rfl⟩
    refine ⟨_, (h _).mpr ⟨x, hx, hreads⟩, ?_⟩
    rw [hreads.between, ← htakes.groups]

/-- Where reading leads is determined. -/
theorem Reads.eq (h : Reads x c d) (h' : Reads x c e) : d = e := by
  obtain ⟨before, after, groups⟩ := d
  obtain ⟨before', after', groups'⟩ := e
  have hafter : after = after' := List.append_cancel_left (h.after.symm.trans h'.after)
  have hbefore : before = before' := h.before.trans h'.before.symm
  have hgroups : groups = groups' := h.groups.trans h'.groups.symm
  rw [hafter, hbefore, hgroups]

theorem mem_empty : d ∈ (Regex.empty : Regex α).paths c ↔ d = c := List.mem_singleton

theorem mem_seq : d ∈ (Regex.seq r s).paths c ↔ ∃ e ∈ r.paths c, d ∈ s.paths e := List.mem_flatMap

theorem mem_alt : d ∈ (Regex.alt r s).paths c ↔ d ∈ r.paths c ∨ d ∈ s.paths c := List.mem_append

theorem mem_optional : d ∈ r.optional.paths c ↔ d ∈ r.paths c ∨ d = c :=
  mem_alt.trans (or_congr_right mem_empty)

theorem mem_one {p : α → Bool} :
    d ∈ (Regex.one p).paths c ↔ ∃ a, p a = true ∧ Reads [a] c d := by
  change d ∈ readOne p c ↔ _
  obtain ⟨before, after, groups⟩ := c
  unfold readOne
  constructor
  · intro h
    cases after with
    | nil => exact absurd h List.not_mem_nil
    | cons a rest =>
      by_cases hp : p a = true
      · simp only [hp, if_true, List.mem_singleton] at h
        subst h
        exact ⟨a, hp, rfl, rfl, rfl⟩
      · simp [hp] at h
  · rintro ⟨a, hp, hreads⟩
    have hd := hreads.eq (e := ⟨a :: before, d.after, groups⟩) ⟨hreads.after, rfl, rfl⟩
    have hafter : after = a :: d.after := hreads.after
    subst hafter
    simp only [hp, if_true, List.mem_singleton]
    exact hd

theorem mem_start : d ∈ (Regex.start : Regex α).paths c ↔ c.before = [] ∧ d = c := by
  unfold Regex.paths
  cases hb : c.before with
  | nil => simp
  | cons a rest => simp

theorem mem_finish : d ∈ (Regex.finish : Regex α).paths c ↔ c.after = [] ∧ d = c := by
  unfold Regex.paths
  cases hb : c.after with
  | nil => simp
  | cons a rest => simp

theorem mem_notAhead : d ∈ (Regex.notAhead r).paths c ↔ r.paths c = [] ∧ d = c := by
  change d ∈ (if (r.paths c).isEmpty then [c] else []) ↔ _
  cases r.paths c with
  | nil => simp
  | cons a rest => simp

theorem mem_boundary {word : α → Bool} : d ∈ (Regex.boundary word).paths c ↔
    c.before.head?.any word ≠ c.after.head?.any word ∧ d = c := by
  change d ∈ (if c.before.head?.any word != c.after.head?.any word then [c] else []) ↔ _
  split_ifs with h
  · rw [bne_iff_ne] at h
    simp [h]
  · rw [bne_iff_ne, not_not] at h
    simp [h]

theorem mem_any {rs : List (Regex α)} : d ∈ (Regex.any rs).paths c ↔ ∃ r ∈ rs, d ∈ r.paths c := by
  induction rs with
  | nil =>
    have hnone : (Regex.any ([] : List (Regex α))).paths c = [] := rfl
    rw [hnone]
    simp
  | cons r rest ih =>
    cases rest with
    | nil => simp [Regex.any]
    | cons s rest =>
      change d ∈ (Regex.alt r (Regex.any (s :: rest))).paths c ↔ _
      rw [mem_alt, ih]
      simp

end paths

theorem repeated_suffix {next : Cursor α → List (Cursor α)}
    (h : ∀ c, ∀ d ∈ next c, d.after <:+ c.after) (isLazy : Bool) (n : ℕ) (c : Cursor α) :
    ∀ d ∈ repeated next isLazy n c, d.after <:+ c.after := by
  induction n generalizing c with
  | zero =>
    intro d hd
    obtain rfl := List.mem_singleton.mp hd
    exact List.suffix_rfl
  | succ n ih =>
    intro d hd
    have hcases : d = c ∨ ∃ e ∈ next c, d ∈ repeated next isLazy n e := by
      cases isLazy
      · rcases List.mem_append.mp hd with hmore | hstop
        · obtain ⟨e, he, hd⟩ := List.mem_flatMap.mp hmore
          exact .inr ⟨e, (List.mem_filter.mp he).1, hd⟩
        · exact .inl (List.mem_singleton.mp hstop)
      · rcases List.mem_cons.mp hd with rfl | hmore
        · exact .inl rfl
        · obtain ⟨e, he, hd⟩ := List.mem_flatMap.mp hmore
          exact .inr ⟨e, (List.mem_filter.mp he).1, hd⟩
    rcases hcases with rfl | ⟨e, he, hd⟩
    · exact List.suffix_rfl
    · exact (ih e d hd).trans (h c e he)

/-- A pattern leaves an end of what was still to read. -/
theorem paths_suffix {r : Regex α} {c d : Cursor α} (h : d ∈ r.paths c) : d.after <:+ c.after := by
  induction r generalizing c d with
  | empty => exact mem_empty.mp h ▸ List.suffix_rfl
  | one p =>
    obtain ⟨a, -, hreads⟩ := mem_one.mp h
    exact ⟨[a], hreads.after.symm⟩
  | seq r s hr hs =>
    obtain ⟨e, he, hd⟩ := mem_seq.mp h
    exact (hs hd).trans (hr he)
  | alt r s hr hs => exact (mem_alt.mp h).elim hr hs
  | star isLazy r ih => exact repeated_suffix (fun c d hd => ih hd) isLazy _ c d h
  | group i r ih =>
    obtain ⟨e, he, rfl⟩ := List.mem_map.mp h
    exact ih (d := e) he
  | notAhead r ih => exact (mem_notAhead.mp h).2 ▸ List.suffix_rfl
  | boundary word => exact (mem_boundary.mp h).2 ▸ List.suffix_rfl
  | start => exact (mem_start.mp h).2 ▸ List.suffix_rfl
  | finish => exact (mem_finish.mp h).2 ▸ List.suffix_rfl

/-- The positions along a run, shortest first. -/
def along (p : α → Bool) (groups : ℕ → Option (List α)) : List α → List α → List (Cursor α)
  | before, [] => [⟨before, [], groups⟩]
  | before, a :: rest =>
      ⟨before, a :: rest, groups⟩ :: if p a then along p groups (a :: before) rest else []

section runs
variable {p : α → Bool} {groups : ℕ → Option (List α)}

theorem repeated_one (isLazy : Bool) : ∀ (n : ℕ) (before after : List α), after.length ≤ n →
    repeated (readOne p) isLazy n ⟨before, after, groups⟩ =
      if isLazy then along p groups before after else (along p groups before after).reverse := by
  intro n
  induction n with
  | zero =>
    intro before after h
    obtain rfl := List.length_eq_zero_iff.mp (Nat.le_zero.mp h)
    cases isLazy <;> rfl
  | succ n ih =>
    intro before after h
    cases after with
    | nil => cases isLazy <;> rfl
    | cons a rest =>
      have hrest := ih (a :: before) rest (Nat.le_of_succ_le_succ h)
      by_cases hp : p a = true
      · have hnext : ((readOne p ⟨before, a :: rest, groups⟩).filter fun d =>
            d.after.length < (a :: rest).length) = [⟨a :: before, rest, groups⟩] := by
          simp [readOne, hp]
        simp only [repeated, hnext, List.flatMap_singleton, hrest, along, hp, if_true]
        cases isLazy
        · simp
        · rfl
      · have hnext : readOne p ⟨before, a :: rest, groups⟩ = [] := by simp [readOne, hp]
        simp only [repeated, hnext, along, hp]
        cases isLazy <;> rfl

theorem paths_star_one (isLazy : Bool) (c : Cursor α) : (Regex.star isLazy (.one p)).paths c =
    if isLazy then along p c.groups c.before c.after
    else (along p c.groups c.before c.after).reverse :=
  repeated_one isLazy c.after.length c.before c.after (Nat.le_refl _)

theorem mem_along {d : Cursor α} {before after : List α} : d ∈ along p groups before after ↔
    ∃ x, (∀ a ∈ x, p a = true) ∧ Reads x ⟨before, after, groups⟩ d := by
  induction after generalizing before with
  | nil =>
    simp only [along, List.mem_singleton]
    constructor
    · rintro rfl
      exact ⟨[], by simp, reads_nil.mpr rfl⟩
    · rintro ⟨x, -, hreads⟩
      obtain ⟨rfl, -⟩ := List.append_eq_nil_iff.mp hreads.after.symm
      exact reads_nil.mp hreads
  | cons a rest ih =>
    have hstep : Reads [a] ⟨before, a :: rest, groups⟩ ⟨a :: before, rest, groups⟩ :=
      ⟨rfl, rfl, rfl⟩
    simp only [along, List.mem_cons]
    constructor
    · rintro (rfl | h)
      · exact ⟨[], by simp, reads_nil.mpr rfl⟩
      · by_cases hp : p a = true
        · rw [if_pos hp] at h
          obtain ⟨x, hx, hreads⟩ := ih.mp h
          exact ⟨a :: x, List.forall_mem_cons.mpr ⟨hp, hx⟩, hstep.trans hreads⟩
        · rw [if_neg hp] at h
          exact absurd h List.not_mem_nil
    · rintro ⟨x, hx, hreads⟩
      cases x with
      | nil => exact .inl (reads_nil.mp hreads)
      | cons b x =>
        have hafter : a :: rest = b :: (x ++ d.after) := hreads.after
        obtain ⟨rfl, hrest⟩ := List.cons.inj hafter
        right
        rw [if_pos (hx a List.mem_cons_self)]
        refine ih.mpr ⟨x, fun y hy => hx y (List.mem_cons_of_mem _ hy), hrest, ?_, hreads.groups⟩
        simpa using hreads.before

theorem mem_star_one {isLazy : Bool} {c d : Cursor α} : d ∈ (Regex.star isLazy (.one p)).paths c ↔
    ∃ x, (∀ a ∈ x, p a = true) ∧ Reads x c d := by
  rw [paths_star_one]
  cases isLazy
  · simp only [Bool.false_eq_true, if_false, List.mem_reverse]
    exact mem_along
  · exact mem_along

theorem mem_plus_one {isLazy : Bool} {c d : Cursor α} :
    d ∈ ((Regex.one p).plus isLazy).paths c ↔ ∃ x, x ≠ [] ∧ (∀ a ∈ x, p a = true) ∧ Reads x c d := by
  rw [Regex.plus, mem_seq]
  constructor
  · rintro ⟨e, he, hd⟩
    obtain ⟨a, hp, hfirst⟩ := mem_one.mp he
    obtain ⟨x, hx, hrest⟩ := mem_star_one.mp hd
    exact ⟨a :: x, List.cons_ne_nil _ _, List.forall_mem_cons.mpr ⟨hp, hx⟩, hfirst.trans hrest⟩
  · rintro ⟨x, hne, hx, hreads⟩
    obtain ⟨a, x, rfl⟩ := List.exists_cons_of_ne_nil hne
    obtain ⟨hp, hx⟩ := List.forall_mem_cons.mp hx
    refine ⟨⟨a :: c.before, x ++ d.after, c.groups⟩, mem_one.mpr ⟨a, hp, hreads.after, rfl, rfl⟩,
      mem_star_one.mpr ⟨x, hx, rfl, ?_, hreads.groups⟩⟩
    simpa using hreads.before

/-- The longest run comes first. -/
theorem getLast?_along (before after : List α) : (along p groups before after).getLast? =
    some ⟨(after.takeWhile p).reverse ++ before, after.dropWhile p, groups⟩ := by
  induction after generalizing before with
  | nil => rfl
  | cons a rest ih =>
    by_cases hp : p a = true
    · have hne : along p groups (a :: before) rest ≠ [] := by
        cases rest <;> simp [along]
      simp only [along, hp, if_true, List.takeWhile_cons_of_pos, List.dropWhile_cons_of_pos]
      rw [List.getLast?_cons, ih]
      simp
    · simp [along, hp]

theorem head?_star_one (c : Cursor α) : ((Regex.star false (.one p)).paths c).head? =
    some ⟨(c.after.takeWhile p).reverse ++ c.before, c.after.dropWhile p, c.groups⟩ := by
  rw [paths_star_one, if_neg Bool.false_ne_true, List.head?_reverse]
  exact getLast?_along c.before c.after

theorem head?_plus_one (c : Cursor α) : ((Regex.one p).plus.paths c).head? =
    if c.after.takeWhile p = [] then none
    else some ⟨(c.after.takeWhile p).reverse ++ c.before, c.after.dropWhile p, c.groups⟩ := by
  obtain ⟨before, after, groups⟩ := c
  change ((readOne p ⟨before, after, groups⟩).flatMap
    (Regex.star false (.one p)).paths).head? = _
  cases after with
  | nil => rfl
  | cons a rest =>
    by_cases hp : p a = true
    · have hone : readOne p ⟨before, a :: rest, groups⟩ = [⟨a :: before, rest, groups⟩] := by
        simp [readOne, hp]
      rw [hone, List.flatMap_singleton, head?_star_one, List.takeWhile_cons_of_pos hp,
        List.dropWhile_cons_of_pos hp, if_neg (List.cons_ne_nil _ _)]
      simp
    · have hnone : readOne p ⟨before, a :: rest, groups⟩ = [] := by simp [readOne, hp]
      rw [hnone, List.takeWhile_cons_of_neg hp, if_pos rfl]
      rfl

end runs

section preferred
variable {r s : Regex α} {c d e : Cursor α}

theorem head?_seq (hr : (r.paths c).head? = some d) (hs : (s.paths d).head? = some e) :
    ((Regex.seq r s).paths c).head? = some e := by
  obtain ⟨rest, hrest⟩ := List.head?_eq_some_iff.mp hr
  change ((r.paths c).flatMap s.paths).head? = some e
  rw [hrest, List.flatMap_cons, List.head?_append, hs]
  rfl

theorem head?_optional : (r.optional.paths c).head? = (r.paths c).head?.or (some c) :=
  List.head?_append

/-- The first way through both parts goes through the first stop that has a way on. -/
theorem head?_seq_eq :
    ((Regex.seq r s).paths c).head? = (r.paths c).findSome? fun e => (s.paths e).head? :=
  List.head?_flatMap

theorem head?_group {i : ℕ} : ((Regex.group i r).paths c).head? = (r.paths c).head?.map fun d =>
    { d with groups := Function.update d.groups i (some (between c d)) } :=
  List.head?_map

theorem head?_seq_eq_some (h : ((Regex.seq r s).paths c).head? = some d) :
    ∃ e ∈ r.paths c, (s.paths e).head? = some d :=
  List.exists_of_findSome?_eq_some (head?_seq_eq.symm.trans h)

/-- Where all ways lead to one position, the order of the ways does not matter. -/
theorem head?_of_unique (hmem : d ∈ r.paths c) (h : ∀ e ∈ r.paths c, e = d) :
    (r.paths c).head? = some d := by
  cases hpaths : r.paths c with
  | nil =>
    rw [hpaths] at hmem
    cases hmem
  | cons e rest =>
    rw [h e (by rw [hpaths]; exact List.mem_cons_self)]
    rfl

theorem head?_seq_of_unique (hmem : d ∈ r.paths c) (h : ∀ e ∈ r.paths c, e = d) :
    ((Regex.seq r s).paths c).head? = (s.paths d).head? := by
  rw [head?_seq_eq]
  cases hd : (s.paths d).head? with
  | none =>
    refine List.findSome?_eq_none_iff.mpr fun e he => ?_
    rw [h e he, hd]
  | some k =>
    cases hpaths : r.paths c with
    | nil =>
      rw [hpaths] at hmem
      cases hmem
    | cons e rest =>
      rw [List.findSome?_cons, h e (by rw [hpaths]; exact List.mem_cons_self), hd]

/-- With the optional part, or else without it. -/
theorem head?_optional_seq : ((Regex.seq r.optional s).paths c).head? =
    (((Regex.seq r s).paths c).head?).or (s.paths c).head? := by
  rw [head?_seq_eq, head?_seq_eq]
  change ((r.paths c ++ [c]).findSome? _) = _
  rw [List.findSome?_append, List.findSome?_singleton]

end preferred

/-- It reads single characters only, one after the other or by choice. -/
def Regex.plain : Regex α → Bool
  | .empty => true
  | .one _ => true
  | .seq r s => r.plain && s.plain
  | .alt r s => r.plain && s.plain
  | _ => false

/-- The words of a plain pattern, each character by its test. -/
def Regex.words : Regex α → List (List (α → Bool))
  | .empty => [[]]
  | .one p => [[p]]
  | .seq r s => r.words.flatMap fun x => s.words.map (x ++ ·)
  | .alt r s => r.words ++ s.words
  | _ => []

/-- Each character passes its test. -/
def Fits (tests : List (α → Bool)) (x : List α) : Prop :=
  List.Forall₂ (fun p a => p a = true) tests x

section plain
variable {r : Regex α} {c d : Cursor α}

theorem Fits.append {tests tests' : List (α → Bool)} {x y : List α} (h : Fits tests x)
    (h' : Fits tests' y) : Fits (tests ++ tests') (x ++ y) := List.rel_append h h'

theorem Fits.split {tests tests' : List (α → Bool)} {x : List α} (h : Fits (tests ++ tests') x) :
    ∃ y z, x = y ++ z ∧ Fits tests y ∧ Fits tests' z :=
  ⟨x.take tests.length, x.drop tests.length, (List.take_append_drop _ _).symm,
    (List.forall₂_take_append _ _ _ h.flip).flip, (List.forall₂_drop_append _ _ _ h.flip).flip⟩

theorem mem_plain (h : r.plain = true) :
    d ∈ r.paths c ↔ ∃ tests ∈ r.words, ∃ x, Fits tests x ∧ Reads x c d := by
  induction r generalizing c d with
  | empty =>
    rw [mem_empty]
    constructor
    · intro hd
      exact ⟨[], List.mem_singleton_self _, [], .nil, reads_nil.mpr hd⟩
    · rintro ⟨tests, htests, x, hfits, hreads⟩
      rw [List.mem_singleton.mp htests] at hfits
      cases hfits
      exact reads_nil.mp hreads
  | one p =>
    rw [mem_one]
    constructor
    · rintro ⟨a, hp, hreads⟩
      exact ⟨[p], List.mem_singleton_self _, [a], .cons hp .nil, hreads⟩
    · rintro ⟨tests, htests, x, hfits, hreads⟩
      rw [List.mem_singleton.mp htests] at hfits
      obtain _ | ⟨hp, hrest⟩ := hfits
      cases hrest
      exact ⟨_, hp, hreads⟩
  | seq r s hr hs =>
    obtain ⟨hplain, hplain'⟩ := Bool.and_eq_true_iff.mp h
    have hwords : (Regex.seq r s).words = r.words.flatMap fun x => s.words.map (x ++ ·) := rfl
    rw [mem_seq, hwords]
    simp only [List.mem_flatMap, List.mem_map]
    constructor
    · rintro ⟨e, he, hd⟩
      obtain ⟨tests, htests, x, hfits, hreads⟩ := (hr hplain).mp he
      obtain ⟨tests', htests', y, hfits', hreads'⟩ := (hs hplain').mp hd
      exact ⟨tests ++ tests', ⟨tests, htests, tests', htests', rfl⟩, x ++ y, hfits.append hfits',
        hreads.trans hreads'⟩
    · rintro ⟨_, ⟨tests, htests, tests', htests', rfl⟩, x, hfits, hreads⟩
      obtain ⟨y, z, rfl, hy, hz⟩ := hfits.split
      obtain ⟨e, he, hd⟩ := hreads.split
      exact ⟨e, (hr hplain).mpr ⟨tests, htests, y, hy, he⟩,
        (hs hplain').mpr ⟨tests', htests', z, hz, hd⟩⟩
  | alt r s hr hs =>
    obtain ⟨hplain, hplain'⟩ := Bool.and_eq_true_iff.mp h
    have hwords : (Regex.alt r s).words = r.words ++ s.words := rfl
    rw [mem_alt, hr hplain, hs hplain', hwords]
    simp only [List.mem_append, or_and_right, exists_or]
  | star isLazy r ih => cases h
  | group i r ih => cases h
  | notAhead r ih => cases h
  | boundary word => cases h
  | start => cases h
  | finish => cases h

end plain

section search
variable {r : Regex α} {before : List α}

theorem searchFrom_cons (a : α) (rest : List α) : r.searchFrom before (a :: rest) =
    ((r.paths ⟨before, a :: rest, fun _ => none⟩).head? <|> r.searchFrom (a :: before) rest) := rfl

/-- Some position of the text has a way through. -/
theorem searchFrom_eq_some {text : List α} {d : Cursor α} (h : r.searchFrom before text = some d) :
    ∃ x y, text = x ++ y ∧ (r.paths ⟨x.reverse ++ before, y, fun _ => none⟩).head? = some d := by
  induction text generalizing before with
  | nil => exact ⟨[], [], rfl, h⟩
  | cons a rest ih =>
    rw [searchFrom_cons] at h
    cases hhead : (r.paths ⟨before, a :: rest, fun _ => none⟩).head? with
    | some e =>
      rw [hhead] at h
      cases h
      exact ⟨[], a :: rest, rfl, hhead⟩
    | none =>
      rw [hhead] at h
      obtain ⟨x, y, rfl, hd⟩ := ih h
      exact ⟨a :: x, y, rfl, by simpa using hd⟩

/-- What is found is found nowhere earlier. -/
theorem searchFrom_first {text : List α} {d : Cursor α} (h : r.searchFrom before text = some d) :
    ∃ x y, text = x ++ y ∧ (r.paths ⟨x.reverse ++ before, y, fun _ => none⟩).head? = some d ∧
      ∀ u v, x = u ++ v → v ≠ [] → r.paths ⟨u.reverse ++ before, v ++ y, fun _ => none⟩ = [] := by
  induction text generalizing before with
  | nil =>
    refine ⟨[], [], rfl, h, ?_⟩
    intro u v huv hv
    exact absurd (List.append_eq_nil_iff.mp huv.symm).2 hv
  | cons a rest ih =>
    rw [searchFrom_cons] at h
    cases hhead : (r.paths ⟨before, a :: rest, fun _ => none⟩).head? with
    | some e =>
      rw [hhead] at h
      cases h
      refine ⟨[], a :: rest, rfl, hhead, ?_⟩
      intro u v huv hv
      exact absurd (List.append_eq_nil_iff.mp huv.symm).2 hv
    | none =>
      rw [hhead] at h
      obtain ⟨x, y, rfl, hd, hfirst⟩ := ih h
      refine ⟨a :: x, y, rfl, by simpa using hd, ?_⟩
      intro u v huv hv
      cases u with
      | nil =>
        rw [List.nil_append] at huv
        rw [← huv]
        exact List.head?_eq_none_iff.mp hhead
      | cons b u =>
        obtain ⟨hab, hx⟩ := List.cons.inj huv
        rw [← hab]
        simpa using hfirst u v hx hv

/-- A pattern that starts the text is tried at its start only. -/
theorem searchFrom_start (text : List α) :
    (Regex.seq .start r).searchFrom [] text = (r.paths ⟨[], text, fun _ => none⟩).head? := by
  have hstart (rest : List α) : ((Regex.seq .start r).paths ⟨[], rest, fun _ => none⟩) =
      r.paths ⟨[], rest, fun _ => none⟩ := List.flatMap_singleton ..
  have hlater (a : α) (before rest : List α) :
      (Regex.seq .start r).searchFrom (a :: before) rest = none := by
    induction rest generalizing a before with
    | nil => rfl
    | cons b rest ih =>
      rw [searchFrom_cons, ih]
      rfl
  cases text with
  | nil =>
    unfold Regex.searchFrom
    rw [hstart]
  | cons a rest =>
    rw [searchFrom_cons, hlater, hstart]
    cases (r.paths ⟨[], a :: rest, fun _ => none⟩).head? with
    | none => rfl
    | some d => rfl

theorem searchFrom_isSome {x y : List α}
    (h : r.paths ⟨x.reverse ++ before, y, fun _ => none⟩ ≠ []) :
    (r.searchFrom before (x ++ y)).isSome = true := by
  induction x generalizing before with
  | nil =>
    have hhead : (r.paths ⟨before, y, fun _ => none⟩).head?.isSome = true := by
      simpa [List.isSome_head?] using h
    cases y with
    | nil => exact hhead
    | cons a rest =>
      obtain ⟨d, hd⟩ := Option.isSome_iff_exists.mp hhead
      rw [List.nil_append, searchFrom_cons, hd]
      rfl
  | cons a x ih =>
    have hrest : (r.searchFrom (a :: before) (x ++ y)).isSome = true := ih (by simpa using h)
    rw [List.cons_append, searchFrom_cons]
    cases (r.paths ⟨before, a :: (x ++ y), fun _ => none⟩).head? with
    | some d => rfl
    | none => exact hrest

theorem test_iff {text : List α} : r.test text = true ↔
    ∃ x y, text = x ++ y ∧ ∃ d, d ∈ r.paths ⟨x.reverse, y, fun _ => none⟩ := by
  unfold Regex.test Regex.exec
  rw [Option.isSome_map]
  constructor
  · intro h
    obtain ⟨d, hd⟩ := Option.isSome_iff_exists.mp h
    obtain ⟨x, y, htext, hhead⟩ := searchFrom_eq_some hd
    rw [List.append_nil] at hhead
    exact ⟨x, y, htext, d, List.mem_of_mem_head? hhead⟩
  · rintro ⟨x, y, rfl, d, hd⟩
    refine searchFrom_isSome ?_
    rw [List.append_nil]
    exact List.ne_nil_of_mem hd

end search
end Akabbo.RegularExpressions
