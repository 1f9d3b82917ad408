import Akabbo.RecordedUtterances

/-!
# Names that ask something

The parser looks for questions in the whole sentence. Where the sentence is a name, a verb and a
figure, it finds one exactly where the name holds one.
-/
namespace Akabbo.AskedNames
open RegularExpressions TextPatterns Tier1Parser SpokenClauses RecordedUtterances

/-- What stands behind the name, but for the blank: a verb, a blank and digits. -/
structure IsTail (tail : List Char) : Prop where
  head : tail.head? = some 'p'
  chars : ∀ a ∈ tail, a ∈ "paidleg 0123456789".toList

/-- No part of the word fits the tail: one character does not occur there, and a blank is followed by
what does not follow the blank before it. -/
def Stays (tests : List (Char → Bool)) : Bool :=
  (tests.any fun p => "paidleg 0123456789".toList.all fun a => !p a) &&
    tests.tails.all fun
      | p :: q :: _ => !p ' ' || !q 'p'
      | [p] => !p ' '
      | [] => true

section stays
variable {name tail x y w text : List Char} {tests : List (Char → Bool)} {r : Regex Char}

theorem stays_no_blank {u q : List Char} (h : Stays tests = true) (hfits : Fits tests (u ++ ' ' :: q))
    (hq : ∀ a ∈ q.head?, a = 'p') : False := by
  obtain ⟨-, htails⟩ := Bool.and_eq_true_iff.mp h
  obtain ⟨hu, hq'⟩ : Fits (tests.take u.length) u ∧ Fits (tests.drop u.length) (' ' :: q) :=
    ⟨List.forall₂_take_append _ _ _ hfits, List.forall₂_drop_append _ _ _ hfits⟩
  have hsuffix := List.all_eq_true.mp htails _
    (List.mem_tails _ _ |>.mpr (List.drop_suffix u.length tests))
  generalize tests.drop u.length = rest at hq' hsuffix
  obtain _ | ⟨hp, hrest⟩ := hq'
  cases hrest with
  | nil =>
    dsimp only at hsuffix
    rw [hp] at hsuffix
    cases hsuffix
  | cons hb hmore =>
    rw [hq _ rfl] at hb
    dsimp only at hsuffix
    rw [hp, hb] at hsuffix
    cases hsuffix

theorem stays_foreign (h : Stays tests = true) (hfits : Fits tests w) :
    ∃ a ∈ w, a ∉ "paidleg 0123456789".toList := by
  obtain ⟨hany, -⟩ := Bool.and_eq_true_iff.mp h
  obtain ⟨p, hp, hall⟩ := List.any_eq_true.mp hany
  obtain ⟨a, ha, hpa⟩ : ∃ a ∈ w, p a = true := by
    clear h hany
    induction hfits with
    | nil => cases hp
    | cons hb hmore ih =>
      rcases List.mem_cons.mp hp with rfl | hp
      · exact ⟨_, List.mem_cons_self, hb⟩
      · obtain ⟨a, ha, hpa⟩ := ih hp
        exact ⟨a, List.mem_cons_of_mem _ ha, hpa⟩
  refine ⟨a, ha, fun hmem => ?_⟩
  have hnone := List.all_eq_true.mp hall a hmem
  rw [hpa] at hnone
  cases hnone

/-- Such a word of the sentence is one of the name. -/
theorem stays_in_name (hstays : Stays tests = true) (hfits : Fits tests w) (htail : IsTail tail)
    (h : name ++ ' ' :: tail = x ++ (w ++ y)) :
    ∃ y', name = x ++ (w ++ y') ∧ y = y' ++ ' ' :: tail := by
  rw [← List.append_assoc] at h
  rcases List.append_eq_append_iff.mp h with ⟨q, hq, hrest⟩ | ⟨q, hq, hrest⟩
  · cases q with
    | nil =>
      rw [List.append_nil] at hq
      exact ⟨[], by rw [List.append_nil, hq], hrest.symm⟩
    | cons b q =>
      exfalso
      obtain ⟨rfl, htext⟩ := List.cons.inj hrest
      have hhead : ∀ a ∈ q.head?, a = 'p' := by
        intro a ha
        have hp := htail.head
        cases q with
        | nil => cases ha
        | cons c q =>
          cases ha
          rw [htext] at hp
          exact Option.some.inj hp
      rcases List.append_eq_append_iff.mp hq with ⟨u, -, hw⟩ | ⟨u, -, hw⟩
      · rw [hw] at hfits
        exact stays_no_blank hstays hfits hhead
      · obtain ⟨a, ha, hforeign⟩ := stays_foreign hstays hfits
        have hmem : a ∈ ' ' :: q := by
          rw [hw]
          exact List.mem_append_right u ha
        rcases List.mem_cons.mp hmem with rfl | hmem
        · exact hforeign (by decide)
        · exact hforeign (htail.chars a (by rw [htext]; exact List.mem_append_left y hmem))
  · exact ⟨q, by rw [hq, List.append_assoc], hrest⟩

theorem test_bounded_iff (hplain : r.plain = true) :
    (Regex.all [bound, r, bound]).test text = true ↔ ∃ x w y tests, text = x ++ (w ++ y) ∧
      tests ∈ r.words ∧ Fits tests w ∧
      (x.reverse.head?.any isWord ≠ (w ++ y).head?.any isWord) ∧
      ((w.reverse ++ x.reverse).head?.any isWord ≠ y.head?.any isWord) := by
  rw [test_iff]
  change (∃ x y, text = x ++ y ∧ ∃ d, d ∈ (Regex.seq bound (.seq r bound)).paths _) ↔ _
  simp only [mem_seq, bound, mem_boundary, mem_plain hplain]
  constructor
  · rintro ⟨x, z, rfl, d, e, ⟨hfirst, rfl⟩, e, ⟨tests, htests, w, hfits, hreads⟩, hlast, rfl⟩
    refine ⟨x, w, d.after, tests, by rw [← hreads.after], htests, hfits, ?_, ?_⟩
    · rw [← hreads.after]
      exact hfirst
    · rw [hreads.before] at hlast
      exact hlast
  · rintro ⟨x, w, y, tests, rfl, htests, hfits, hfirst, hlast⟩
    exact ⟨x, w ++ y, rfl, _, _, ⟨hfirst, rfl⟩, _,
      ⟨tests, htests, w, hfits, reads_append _ _ _ _⟩, hlast, rfl⟩

theorem test_bounded_append (hplain : r.plain = true) (hstays : r.words.all Stays = true)
    (htail : IsTail tail) : (Regex.all [bound, r, bound]).test (name ++ ' ' :: tail) =
      (Regex.all [bound, r, bound]).test name := by
  rw [Bool.eq_iff_iff, test_bounded_iff hplain, test_bounded_iff hplain]
  have hend (y : List Char) : (y ++ ' ' :: tail).head?.any isWord = y.head?.any isWord := by
    cases y with
    | nil => rfl
    | cons a y => rfl
  have hstart {w : List Char} (hw : w ≠ []) (y : List Char) :
      (w ++ (y ++ ' ' :: tail)).head?.any isWord = (w ++ y).head?.any isWord := by
    rw [List.head?_append_of_ne_nil _ hw, List.head?_append_of_ne_nil _ hw]
  have hne {tests : List (Char → Bool)} {w : List Char} (htests : tests ∈ r.words)
      (hfits : Fits tests w) : w ≠ [] := by
    obtain ⟨a, ha, -⟩ := stays_foreign (List.all_eq_true.mp hstays _ htests) hfits
    exact List.ne_nil_of_mem ha
  constructor
  · rintro ⟨x, w, y, tests, htext, htests, hfits, hfirst, hlast⟩
    obtain ⟨y, rfl, rfl⟩ := stays_in_name (List.all_eq_true.mp hstays _ htests) hfits htail htext
    rw [hstart (hne htests hfits)] at hfirst
    rw [hend] at hlast
    exact ⟨x, w, y, tests, rfl, htests, hfits, hfirst, hlast⟩
  · rintro ⟨x, w, y, tests, rfl, htests, hfits, hfirst, hlast⟩
    refine ⟨x, w, y ++ ' ' :: tail, tests, by simp, htests, hfits, ?_, ?_⟩
    · rw [hstart (hne htests hfits)]
      exact hfirst
    · rw [hend]
      exact hlast

end stays

def owe : Regex Char := literal " owe"

def possessive : Regex Char :=
  Regex.all [.one isApostrophe, literal "s ", Regex.any [literal "balance", literal "outstanding"]]

/-- What `.+?` may take. -/
def Line (g : List Char) : Prop := g ≠ [] ∧ ∀ a ∈ g, (!isLineEnd a) = true

def IsQuestion (h : List Char) : Prop := h.map Char.toLower = "how much does ".toList

/-- The pattern `r` reads all of `w`. -/
def Reading (r : Regex Char) (w : List Char) : Prop := ∃ tests ∈ r.words, Fits tests w

section owes
variable {name tail text : List Char} {c d : Cursor Char}

theorem mem_reading {r : Regex Char} (h : r.plain = true) :
    d ∈ r.paths c ↔ ∃ w, Reading r w ∧ Reads w c d := by
  rw [mem_plain h]
  constructor
  · rintro ⟨tests, htests, w, hfits, hreads⟩
    exact ⟨w, ⟨tests, htests, hfits⟩, hreads⟩
  · rintro ⟨w, ⟨tests, htests, hfits⟩, hreads⟩
    exact ⟨tests, htests, w, hfits, hreads⟩

theorem mem_line {i : ℕ} :
    d ∈ (Regex.group i (dot.plus true)).paths c ↔ ∃ g, Line g ∧ Takes i g c d :=
  mem_group_takes fun e => by
    rw [dot, mem_plus_one]
    exact exists_congr fun g => and_assoc.symm

theorem mem_owes : d ∈ owesPattern.paths c ↔
    (∃ h e g f w, IsQuestion h ∧ Reads h c e ∧ Line g ∧ Takes 1 g e f ∧ Reading owe w ∧ Reads w f d) ∨
      ∃ g f w, Line g ∧ Takes 2 g c f ∧ Reading possessive w ∧ Reads w f d := by
  change d ∈ (Regex.alt (.seq (literal "how much does ") (.seq (.group 1 (dot.plus true)) owe))
    (.seq (.group 2 (dot.plus true)) possessive)).paths c ↔ _
  rw [mem_alt]
  simp only [mem_seq, mem_literal, mem_line, mem_reading (r := owe) (by decide),
    mem_reading (r := possessive) (by decide)]
  refine or_congr ?_ ?_
  · constructor
    · rintro ⟨e, ⟨h, hquestion, he⟩, f, ⟨g, hline, hf⟩, w, hw, hd⟩
      exact ⟨h, e, g, f, w, hquestion, he, hline, hf, hw, hd⟩
    · rintro ⟨h, e, g, f, w, hquestion, he, hline, hf, hw, hd⟩
      exact ⟨e, ⟨h, hquestion, he⟩, f, ⟨g, hline, hf⟩, w, hw, hd⟩
  · constructor
    · rintro ⟨f, ⟨g, hline, hf⟩, w, hw, hd⟩
      exact ⟨g, f, w, hline, hf, hw, hd⟩
    · rintro ⟨g, f, w, hline, hf, hw, hd⟩
      exact ⟨f, ⟨g, hline, hf⟩, w, hw, hd⟩

theorem takes_append (i : ℕ) (before g after : List Char) (groups : ℕ → Option (List Char)) :
    Takes i g ⟨before, g ++ after, groups⟩
      ⟨g.reverse ++ before, after, Function.update groups i (some g)⟩ := ⟨rfl, rfl, rfl⟩

/-- A question, or a balance that is somebody's. -/
def Owes (text : List Char) : Prop :=
  (∃ x h g w y, IsQuestion h ∧ Line g ∧ Reading owe w ∧ text = x ++ (h ++ (g ++ (w ++ y)))) ∨
    ∃ x g w y, Line g ∧ Reading possessive w ∧ text = x ++ (g ++ (w ++ y))

theorem owes_test_iff : owesPattern.test text = true ↔ Owes text := by
  rw [test_iff]
  simp only [mem_owes]
  constructor
  · rintro ⟨x, z, rfl, d, ⟨h, e, g, f, w, hquestion, he, hline, hf, hw, hd⟩ |
      ⟨g, f, w, hline, hf, hw, hd⟩⟩
    · exact .inl ⟨x, h, g, w, d.after, hquestion, hline, hw, by
        rw [← hd.after, ← hf.after, ← he.after]⟩
    · exact .inr ⟨x, g, w, d.after, hline, hw, by rw [← hd.after, ← hf.after]⟩
  · rintro (⟨x, h, g, w, y, hquestion, hline, hw, rfl⟩ | ⟨x, g, w, y, hline, hw, rfl⟩)
    · exact ⟨x, _, rfl, _, .inl ⟨h, _, g, _, w, hquestion, reads_append _ _ _ _, hline,
        takes_append _ _ _ _ _, hw, reads_append _ _ _ _⟩⟩
    · exact ⟨x, _, rfl, _, .inr ⟨g, _, w, hline, takes_append _ _ _ _ _, hw,
        reads_append _ _ _ _⟩⟩

theorem owes_append (htail : IsTail tail) : Owes (name ++ ' ' :: tail) ↔ Owes name := by
  have howe : owe.words.all Stays = true := by decide
  have hpossessive : possessive.words.all Stays = true := by decide
  constructor
  · rintro (⟨x, h, g, w, y, hquestion, hline, ⟨tests, htests, hfits⟩, htext⟩ |
      ⟨x, g, w, y, hline, ⟨tests, htests, hfits⟩, htext⟩)
    · have hsplit : name ++ ' ' :: tail = (x ++ (h ++ g)) ++ (w ++ y) := by
        rw [htext]
        simp
      obtain ⟨y, rfl, -⟩ := stays_in_name (List.all_eq_true.mp howe _ htests) hfits htail hsplit
      exact .inl ⟨x, h, g, w, y, hquestion, hline, ⟨tests, htests, hfits⟩, by simp⟩
    · have hsplit : name ++ ' ' :: tail = (x ++ g) ++ (w ++ y) := by
        rw [htext]
        simp
      obtain ⟨y, rfl, -⟩ :=
        stays_in_name (List.all_eq_true.mp hpossessive _ htests) hfits htail hsplit
      exact .inr ⟨x, g, w, y, hline, ⟨tests, htests, hfits⟩, by simp⟩
  · rintro (⟨x, h, g, w, y, hquestion, hline, hw, rfl⟩ | ⟨x, g, w, y, hline, hw, rfl⟩)
    · exact .inl ⟨x, h, g, w, y ++ ' ' :: tail, hquestion, hline, hw, by simp⟩
    · exact .inr ⟨x, g, w, y ++ ' ' :: tail, hline, hw, by simp⟩

theorem trim_ne_nil {g : List Char} (h : ∃ a ∈ g, isSpace a = false) : trim g ≠ [] := by
  obtain ⟨a, ha, hink⟩ := h
  obtain ⟨lead, trail, hlead, htrail, hsplit⟩ := exists_trim g
  intro hnil
  rw [hsplit, hnil, List.append_nil] at ha
  rcases List.mem_append.mp ha with hmem | hmem
  · rw [hlead a hmem] at hink
    cases hink
  · rw [htrail a hmem] at hink
    cases hink

theorem question_eq {u : List Char} (h : IsQuestion u) : ∃ v, u = v ++ [' '] := by
  have hlast : (u.map Char.toLower).getLast? = some ' ' := by
    rw [h]
    decide
  rw [List.getLast?_map, Option.map_eq_some_iff] at hlast
  obtain ⟨a, ha, hblank⟩ := hlast
  have hlower : a.toLower.toNat = 32 := by rw [hblank]; rfl
  have hsame : a = ' ' := by
    rcases toNat_toLower a with hself | hupper
    · exact Char.toNat_inj.mp (hself.symm.trans hlower)
    · omega
  rw [hsame] at ha
  exact List.getLast?_eq_some_iff.mp ha

/-- In a text with single blanks whoever owes has a name. -/
theorem owesName_isSome (h : Spaced text) (hfirst : ∀ a ∈ text.head?, isSpace a = false) :
    (owesName text).isSome = owesPattern.test text := by
  unfold owesName Regex.test Regex.exec
  cases hsearch : owesPattern.searchFrom [] text with
  | none => rfl
  | some d =>
    obtain ⟨x, z, rfl, hhead, hearlier⟩ := searchFrom_first hsearch
    rw [List.append_nil] at hhead
    have hnamed : trim ((d.groups 1 <|> d.groups 2).getD []) ≠ [] := by
      rcases mem_owes.mp (List.mem_of_mem_head? hhead) with
        ⟨u, e, g, f, w, hquestion, he, hline, hf, -, hd⟩ | ⟨g, f, w, hline, hf, hw, hd⟩
      · have hgroups : (d.groups 1 <|> d.groups 2).getD [] = g := by
          rw [hd.groups, hf.groups]
          simp
        rw [hgroups]
        obtain ⟨b, g, rfl⟩ := List.exists_cons_of_ne_nil hline.1
        have hafter : z = u ++ (b :: g ++ f.after) := by
          rw [← hf.after, ← he.after]
        obtain ⟨v, hv⟩ := question_eq hquestion
        refine trim_ne_nil ⟨b, List.mem_cons_self, ?_⟩
        rw [Bool.eq_false_iff]
        intro hspace
        have hb : b = ' ' := h.blank b (by rw [hafter]; simp) hspace
        have hpair : Spaced (' ' :: ' ' :: (g ++ f.after)) := by
          refine Spaced.suffix (x := x ++ v) ?_
          rw [hafter, hv, hb] at h
          simpa using h
        have hrel := hpair.single.rel
        simp at hrel
      · have hgroups : (d.groups 1 <|> d.groups 2).getD [] = g := by
          rw [hd.groups, hf.groups]
          simp
        rw [hgroups]
        have hafter : z = g ++ (w ++ d.after) := by rw [← hd.after, ← hf.after]
        -- from the start of the text the name would have been longer
        have hx : x = [] := by
          by_contra hne
          have hnone := hearlier [] x rfl hne
          have hlong : Line (x ++ g) := by
            refine ⟨List.append_ne_nil_of_right_ne_nil x hline.1, ?_⟩
            intro a ha
            rcases List.mem_append.mp ha with hmem | hmem
            · rw [h.lineEnd a (List.mem_append_left z hmem)]
              rfl
            · exact hline.2 a hmem
          have hmem := mem_owes.mpr (.inr ⟨x ++ g, _, w, hlong,
            takes_append 2 [] (x ++ g) (w ++ d.after) fun _ => none, hw, reads_append _ _ _ _⟩)
          rw [hafter] at hnone
          rw [List.append_assoc] at hmem
          exact List.ne_nil_of_mem hmem hnone
        obtain ⟨b, g, rfl⟩ := List.exists_cons_of_ne_nil hline.1
        refine trim_ne_nil ⟨b, List.mem_cons_self, hfirst b ?_⟩
        rw [hx, hafter]
        rfl
    rw [Option.map_some]
    dsimp only [Option.bind_eq_bind, Option.bind_some]
    rw [if_neg (by rwa [List.isEmpty_iff])]
    rfl

end owes

/-- The sentence asks something exactly where the name does. -/
theorem asks_append {name tail : List Char} (hspaced : Spaced (name ++ ' ' :: tail))
    (hspaced' : Spaced name) (hne : name ≠ []) (hfirst : ∀ a ∈ name.head?, isSpace a = false)
    (htail : IsTail tail) : asks (name ++ ' ' :: tail) = asks name := by
  have hsummary : summaryPattern.test (name ++ ' ' :: tail) = summaryPattern.test name :=
    test_bounded_append (by decide) (by decide) htail
  have houtstanding : outstandingPattern.test (name ++ ' ' :: tail) = outstandingPattern.test name :=
    test_bounded_append (by decide) (by decide) htail
  have howes : (owesName (name ++ ' ' :: tail)).isSome = (owesName name).isSome := by
    have hhead : ∀ a ∈ (name ++ ' ' :: tail).head?, isSpace a = false := by
      rw [List.head?_append_of_ne_nil _ hne]
      exact hfirst
    rw [owesName_isSome hspaced hhead, owesName_isSome hspaced' hfirst, Bool.eq_iff_iff,
      owes_test_iff, owes_test_iff]
    exact owes_append htail
  unfold asks
  rw [hsummary, houtstanding, howes]

end Akabbo.AskedNames
