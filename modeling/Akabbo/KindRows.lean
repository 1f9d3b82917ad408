import Akabbo.ScannedRows
import Akabbo.SpokenWords

/-!
# Rows in kind of a scanned list

What a row of goods or of a service says after its verb counts as money, unless it has the shape of
a quantity of something, or its first figure comes to no whole shillings.
-/
namespace Akabbo.KindRows
open RegularExpressions TextPatterns LedgerState PledgeStatus CaptureRouting CaptureStaging Extraction
open ExtractionContracts Binary64 Amounts ExactAmounts Tier1Parser MoneyTokens SpokenClauses
open RecordedUtterances JoinedUtterances MatchedAmounts ScannedRows SpokenWords

/-- Digits and commas after a digit, with or without a fraction. -/
def IsNumber (x : List Char) : Prop := ∃ a figures fraction, x = a :: (figures ++ pointed fraction) ∧
  a.isDigit = true ∧ (∀ b ∈ figures, isFigure b = true) ∧ ∀ b ∈ fraction, b.isDigit = true

def IsOf (word : List Char) : Prop := word.map Char.toLower = ['o', 'f']

/-- A quantity of something: a word that begins with a digit, or a number and a unit of one word,
then "of" and something after it. -/
inductive IsQuantity : Words → Prop
  | bare {quantity preposition next : List Char} {rest : Words}
      (hquantity : quantity.head?.any Char.isDigit = true) (hof : IsOf preposition) :
      IsQuantity (quantity :: preposition :: next :: rest)
  | measured {quantity unit preposition next : List Char} {rest : Words}
      (hquantity : IsNumber quantity) (hof : IsOf preposition) :
      IsQuantity (quantity :: unit :: preposition :: next :: rest)

/-- The figure comes to nothing, to a fraction or out of range when it is rounded, multiplied and
rounded again. -/
def IsWorthless (t : Token) : Prop := ∃ p v, RoundsTo (numeral t).number p ∧
  RoundsTo (p * (numeral t).multiplier) v ∧ (v = 0 ∨ v.den ≠ 1 ∨ 2 ^ 1024 ≤ v)

section quantity
variable {ws : Words} {c d : Cursor Char} {x : List Char}

theorem mem_figurePattern : d ∈ figurePattern.paths c ↔ ∃ x, IsNumber x ∧ Reads x c d := by
  change d ∈ (Regex.seq digit (.seq (.star false (.one isFigure))
    (Regex.all [sign '.', digit.plus]).optional)).paths c ↔ _
  have hfraction (e d : Cursor Char) : d ∈ (Regex.all [sign '.', digit.plus]).optional.paths e ↔
      ∃ fraction, (∀ b ∈ fraction, b.isDigit = true) ∧ Reads (pointed fraction) e d := by
    simp only [Regex.all, mem_optional, mem_seq, mem_sign, mem_digits]
    constructor
    · rintro (⟨f, hpoint, fraction, hne, hfraction, hread⟩ | rfl)
      · refine ⟨fraction, hfraction, ?_⟩
        rw [pointed, if_neg hne]
        exact hpoint.trans hread
      · exact ⟨[], by simp, by rw [pointed, if_pos rfl]; exact reads_nil.mpr rfl⟩
    · rintro ⟨fraction, hfraction, hread⟩
      by_cases hne : fraction = []
      · rw [pointed, if_pos hne] at hread
        exact .inr (reads_nil.mp hread)
      · rw [pointed, if_neg hne] at hread
        obtain ⟨f, hpoint, hdigits⟩ := hread.split (x := ['.'])
        exact .inl ⟨f, hpoint, fraction, hne, hfraction, hdigits⟩
  simp only [mem_seq, mem_star_one, hfraction]
  constructor
  · rintro ⟨e, he, f, ⟨figures, hfigures, hread⟩, fraction, hdigits, hread'⟩
    obtain ⟨a, ha, hread''⟩ := mem_one.mp he
    exact ⟨a :: (figures ++ pointed fraction), ⟨a, figures, fraction, rfl, ha, hfigures, hdigits⟩,
      hread''.trans (hread.trans hread')⟩
  · rintro ⟨x, ⟨a, figures, fraction, rfl, ha, hfigures, hdigits⟩, hread⟩
    obtain ⟨e, he, hrest⟩ := hread.split (x := [a])
    obtain ⟨f, hf, hd⟩ := hrest.split
    exact ⟨e, mem_one.mpr ⟨a, ha, he⟩, f, ⟨figures, hfigures, hf⟩, fraction, hdigits, hd⟩

theorem isSpelled_of_isNumber (h : IsNumber x) : IsSpelled x := by
  obtain ⟨a, figures, fraction, rfl, ha, hfigures, hdigits⟩ := h
  have hcomma : isSpace ',' = false := by decide
  have hpoint : isSpace '.' = false := by decide
  refine ⟨List.cons_ne_nil _ _, fun b hb => ?_⟩
  rcases List.mem_cons.mp hb with rfl | hb
  · exact isSpace_of_isDigit ha
  rcases List.mem_append.mp hb with hb | hb
  · have hfigure := hfigures b hb
    rw [isFigure, Bool.or_eq_true, beq_iff_eq] at hfigure
    rcases hfigure with hdigit | rfl
    · exact isSpace_of_isDigit hdigit
    · exact hcomma
  · unfold pointed at hb
    split_ifs at hb
    · cases hb
    · rcases List.mem_cons.mp hb with rfl | hb
      · exact hpoint
      · exact isSpace_of_isDigit (hdigits b hb)

theorem isSpelled_of_isOf (h : IsOf x) : IsSpelled x := by
  have hlength : x.length = 2 := by
    have hmap := congrArg List.length h
    simpa using hmap
  refine ⟨?_, fun a ha => ?_⟩
  · rintro rfl
    cases hlength
  · have hmem : a.toLower ∈ ['o', 'f'] := h ▸ List.mem_map_of_mem ha
    have hletter : a.toLower.toNat = 111 ∨ a.toLower.toNat = 102 := by
      simp only [List.mem_cons, List.not_mem_nil, or_false] at hmem
      rcases hmem with hmem | hmem
      · exact .inl (by rw [hmem]; rfl)
      · exact .inr (by rw [hmem]; rfl)
    have hrange : 65 ≤ a.toNat ∧ a.toNat ≤ 122 := by
      rcases toNat_toLower a with hsame | ⟨hlow, hhigh, -⟩ <;> omega
    unfold isSpace
    simp only [Bool.or_eq_false_iff, Bool.and_eq_false_iff, decide_eq_false_iff_not, beq_eq_false_iff_ne]
    omega

/-- What the in-kind pattern asks of a text. -/
theorem inKindPattern_iff {text : List Char} : inKindPattern.test text = true ↔
    ∃ lead number gap unit gap' preposition gap'' a rest, text =
      lead ++ (number ++ (gap ++ (unit ++ (gap' ++ (preposition ++ (gap'' ++ a :: rest)))))) ∧
      (∀ b ∈ lead, isSpace b = true) ∧ IsNumber number ∧ (∀ b ∈ gap, isSpace b = true) ∧
      (∀ b ∈ unit, isSpace b = false) ∧ (gap' ≠ [] ∧ ∀ b ∈ gap', isSpace b = true) ∧
      IsOf preposition ∧ (gap'' ≠ [] ∧ ∀ b ∈ gap'', isSpace b = true) ∧ isSpace a = false := by
  rw [test_iff]
  constructor
  · rintro ⟨x, y, rfl, d, hd⟩
    change d ∈ (Regex.seq .start (.seq (.star false space) (.seq figurePattern
      (.seq (.star false space) (.seq (.star false nonSpace) (.seq space.plus
        (.seq (literal "of") (.seq space.plus nonSpace)))))))).paths _ at hd
    obtain ⟨c0, h0, hd⟩ := mem_seq.mp hd
    obtain ⟨hstart, rfl⟩ := mem_start.mp h0
    obtain ⟨c1, h1, hd⟩ := mem_seq.mp hd
    obtain ⟨c2, h2, hd⟩ := mem_seq.mp hd
    obtain ⟨c3, h3, hd⟩ := mem_seq.mp hd
    obtain ⟨c4, h4, hd⟩ := mem_seq.mp hd
    obtain ⟨c5, h5, hd⟩ := mem_seq.mp hd
    obtain ⟨c6, h6, hd⟩ := mem_seq.mp hd
    obtain ⟨c7, h7, hd⟩ := mem_seq.mp hd
    obtain ⟨lead, hlead, r1⟩ := mem_star_one.mp h1
    obtain ⟨number, hnumber, r2⟩ := mem_figurePattern.mp h2
    obtain ⟨gap, hgap, r3⟩ := mem_star_one.mp h3
    obtain ⟨unit, hunit, r4⟩ := mem_star_one.mp h4
    obtain ⟨gap', hne', hgap', r5⟩ := mem_plus_one.mp h5
    obtain ⟨preposition, hof, r6⟩ := mem_literal.mp h6
    obtain ⟨gap'', hne'', hgap'', r7⟩ := mem_plus_one.mp h7
    obtain ⟨a, ha, r8⟩ := mem_one.mp hd
    have hx : x = [] := List.reverse_eq_nil_iff.mp hstart
    subst hx
    refine ⟨lead, number, gap, unit, gap', preposition, gap'', a, d.after, ?_, hlead, hnumber, hgap,
      fun b hb => by simpa using hunit b hb, ⟨hne', hgap'⟩, hof, ⟨hne'', hgap''⟩, by simpa using ha⟩
    rw [List.nil_append]
    have hafter := r1.after
    rw [r2.after, r3.after, r4.after, r5.after, r6.after, r7.after, r8.after] at hafter
    exact hafter
  · rintro ⟨lead, number, gap, unit, gap', preposition, gap'', a, rest, rfl, hlead, hnumber, hgap,
      hunit, ⟨hne', hgap'⟩, hof, ⟨hne'', hgap''⟩, ha⟩
    have hreads := reads_append [] (lead ++ (number ++ (gap ++ (unit ++ (gap' ++ (preposition ++
      (gap'' ++ [a]))))))) rest fun _ => none
    obtain ⟨c1, h1, hreads⟩ := hreads.split
    obtain ⟨c2, h2, hreads⟩ := hreads.split
    obtain ⟨c3, h3, hreads⟩ := hreads.split
    obtain ⟨c4, h4, hreads⟩ := hreads.split
    obtain ⟨c5, h5, hreads⟩ := hreads.split
    obtain ⟨c6, h6, hreads⟩ := hreads.split
    obtain ⟨c7, h7, h8⟩ := hreads.split
    refine ⟨[], _, by simp, _, mem_seq.mpr ⟨_, mem_start.mpr ⟨rfl, rfl⟩, mem_seq.mpr ⟨c1,
      mem_star_one.mpr ⟨lead, hlead, h1⟩, mem_seq.mpr ⟨c2, mem_figurePattern.mpr ⟨number, hnumber, h2⟩,
      mem_seq.mpr ⟨c3, mem_star_one.mpr ⟨gap, hgap, h3⟩, mem_seq.mpr ⟨c4,
        mem_star_one.mpr ⟨unit, fun b hb => by simp [hunit b hb], h4⟩, mem_seq.mpr ⟨c5,
          mem_plus_one.mpr ⟨gap', hne', hgap', h5⟩, mem_seq.mpr ⟨c6,
            mem_literal.mpr ⟨preposition, hof, h6⟩, mem_seq.mpr ⟨c7,
              mem_plus_one.mpr ⟨gap'', hne'', hgap'', h7⟩,
                mem_one.mpr ⟨a, by simp [ha], h8⟩⟩⟩⟩⟩⟩⟩⟩⟩⟩

theorem exists_ink {w : List Char} (h : ∀ word ∈ w :: ws, IsSpelled word) :
    ∃ a more, joined (w :: ws) = a :: more ∧ isSpace a = false := by
  obtain ⟨a, more, htext⟩ := List.exists_cons_of_ne_nil (joined_ne_nil h (List.cons_ne_nil _ _))
  exact ⟨a, more, htext, head?_joined h a (by rw [htext]; rfl)⟩

/-- A text in kind is a quantity of something. -/
theorem inKindPattern_joined (hws : ∀ word ∈ ws, IsSpelled word) :
    inKindPattern.test (joined ws) = true ↔ IsQuantity ws := by
  rw [inKindPattern_iff]
  have hblank : ∀ b ∈ [' '], isSpace b = true := by simp [isSpace]
  constructor
  · rintro ⟨lead, number, gap, unit, gap', preposition, gap'', a, rest, htext, hlead, hnumber, hgap,
      hunit, ⟨hne', hgap'⟩, hof, ⟨hne'', hgap''⟩, ha⟩
    have hwords := words_joined hws
    rw [htext, words_spaces_append hlead] at hwords
    obtain ⟨next, more, hnext⟩ := List.exists_cons_of_ne_nil
      (words_ne_nil (show a ∈ a :: rest from List.mem_cons_self) ha)
    have hend : words (gap' ++ (preposition ++ (gap'' ++ a :: rest))) = preposition :: next :: more := by
      rw [words_spaces_append hgap', words_append_run (isSpelled_of_isOf hof) hne'' hgap'', hnext]
    have hspelled := isSpelled_of_isNumber hnumber
    have hdigit (z : List Char) : (number ++ z).head?.any Char.isDigit = true := by
      obtain ⟨b, figures, fraction, rfl, hb, -⟩ := hnumber
      simpa using hb
    by_cases hgapne : gap = []
    · rw [hgapne, List.nil_append, ← List.append_assoc, words_append_run ⟨by simp [hspelled.ne],
        fun b hb => (List.mem_append.mp hb).elim (hspelled.ink b) (hunit b)⟩ hne' hgap',
        words_append_run (isSpelled_of_isOf hof) hne'' hgap'', hnext] at hwords
      exact hwords ▸ .bare (hdigit unit) hof
    · rw [words_append_run hspelled hgapne hgap] at hwords
      by_cases hunitne : unit = []
      · rw [hunitne, List.nil_append, hend] at hwords
        have hnone := hdigit []
        rw [List.append_nil] at hnone
        exact hwords ▸ .bare hnone hof
      · rw [words_append_run ⟨hunitne, hunit⟩ hne' hgap',
          words_append_run (isSpelled_of_isOf hof) hne'' hgap'', hnext] at hwords
        exact hwords ▸ .measured hnumber hof
  · intro h
    cases h with
    | @bare quantity preposition next rest hquantity hof =>
      obtain ⟨b, more, hnext, hb⟩ := exists_ink fun (w : List Char) (hw : w ∈ next :: rest) =>
        hws w (by simp_all)
      have hspelled := hws quantity List.mem_cons_self
      obtain ⟨a, unit, rfl⟩ := List.exists_cons_of_ne_nil hspelled.ne
      refine ⟨[], [a], [], unit, [' '], preposition, [' '], b, more, ?_, nofun, ?_, nofun,
        fun c hc => hspelled.ink c (List.mem_cons_of_mem _ hc), ⟨by simp, hblank⟩, hof,
        ⟨by simp, hblank⟩, hb⟩
      · rw [joined_cons (by simp), joined_cons (by simp), hnext]
        simp
      · exact ⟨a, [], [], rfl, by simpa using hquantity, nofun, nofun⟩
    | @measured quantity unit preposition next rest hquantity hof =>
      obtain ⟨b, more, hnext, hb⟩ := exists_ink fun (w : List Char) (hw : w ∈ next :: rest) =>
        hws w (by simp_all)
      refine ⟨[], quantity, [' '], unit, [' '], preposition, [' '], b, more, ?_, nofun, hquantity,
        hblank, (hws unit (by simp)).ink, ⟨by simp, hblank⟩, hof, ⟨by simp, hblank⟩, hb⟩
      rw [joined_cons (by simp), joined_cons (by simp), joined_cons (by simp), hnext]
      simp

end quantity

/-- The amount that is read of a text is never positive exactly where its first figure is worthless. -/
theorem extractAmount_zero_iff (text : List Char) :
    (∀ amount, extractAmount text = some amount → amount = 0) ↔
      ∀ t, moneyAt text = some t → IsWorthless t := by
  rw [extractAmount_eq]
  cases hmoney : moneyAt text with
  | none => simp
  | some t =>
    have hscanned := scanned_of_moneyAt hmoney
    have hnonneg := rounded_nonneg
      (mul_nonneg (rounded_nonneg (number_nonneg (numeral t))) (Nat.cast_nonneg (numeral t).multiplier))
    have hworthless : IsWorthless t ↔
        rounded (rounded (numeral t).number * (numeral t).multiplier) = 0 ∨
          (rounded (rounded (numeral t).number * (numeral t).multiplier)).den ≠ 1 ∨
            2 ^ 1024 ≤ rounded (rounded (numeral t).number * (numeral t).multiplier) := by
      unfold IsWorthless
      simp only [roundsTo_iff, exists_and_left, exists_eq_left']
    simp only [Option.bind_some, Option.some.injEq, forall_eq']
    rw [parseAmountToMinorUnits_eq, numeralOf_text hscanned, Option.bind_some, scaled_eq, toBinary64,
      hworthless]
    generalize rounded (rounded (numeral t).number * (numeral t).multiplier) = v at hnonneg ⊢
    by_cases hfinite : v < 2 ^ 1024
    · rw [if_pos hfinite, Option.bind_some]
      by_cases hwhole : v.den = 1
      · have hnat : wholeNumber v = some v.num.toNat := if_pos hwhole
        have hv : v = (v.num.toNat : ℕ) := (wholeNumber_eq_some hnonneg).mp hnat
        rw [hnat]
        simp only [Option.some.injEq, forall_eq', hwhole, ne_eq, not_true_eq_false,
          not_le.mpr hfinite, or_false]
        constructor
        · intro hzero
          rw [hv, hzero, Nat.cast_zero]
        · rintro rfl
          rfl
      · rw [wholeNumber_eq_none.mpr hwhole]
        exact iff_of_true (by simp) (.inr (.inl hwhole))
    · rw [if_neg hfinite, Option.bind_none]
      exact iff_of_true (by simp) (.inr (.inr (not_lt.mp hfinite)))

/-- What keeps a sentence from being recorded, in the words that are said. -/
theorem not_recorded_said {ws name what : Words} (hsaid : Said ws name what)
    (hws : ∀ word ∈ ws, IsSpelled word) :
    (¬ ∃ clause amount, clauseOf (joined ws) = some clause ∧ Recorded clause amount) ↔
      looksLikeAmount (joined name) = true ∨ IsQuantity what ∨
        ∀ t, moneyAt (joined what) = some t → IsWorthless t := by
  obtain ⟨verb, hclause⟩ := clauseOf_joined hsaid hws
  obtain ⟨rest, verb', hat, hrest⟩ := hsaid.atVerb hws
  rw [hat.words] at hrest
  have hnames : ∀ word ∈ name, IsSpelled word := fun w hw => hrest w (List.mem_append_left _ hw)
  have hwhats : ∀ word ∈ what, IsSpelled word := fun w hw =>
    hrest w (List.mem_append_right _ (List.mem_cons_of_mem _ hw))
  have hne := joined_ne_nil hnames hat.named
  have htrim : trim (joined name) = joined name :=
    trim_inked hne ⟨head?_joined hnames, getLast?_joined hnames⟩
  rw [← inKindPattern_joined hwhats, ← extractAmount_zero_iff, hclause]
  have hone : (∃ clause amount, some (⟨joined name, verb, joined what⟩ : Clause) = some clause ∧
      Recorded clause amount) ↔ ∃ amount, Recorded ⟨joined name, verb, joined what⟩ amount := by
    simp
  rw [hone]
  by_cases hperson : looksLikeAmount (joined name) = true
  · refine iff_of_true ?_ (.inl hperson)
    rintro ⟨amount, hrecorded⟩
    have hno := hrecorded.person
    rw [htrim, hperson] at hno
    cases hno
  · rw [not_recorded_iff (by rw [htrim]; exact hne) (by rw [htrim]; exact Bool.eq_false_iff.mpr hperson)]
    simp [hperson]

section rows
variable {entry : ExtractedContributionEntry} {description : String}

def kindVerb (entry : ExtractedContributionEntry) : String :=
  match entry.status with
  | .paid => "paid"
  | .pledged => "pledged"
  | .unknown => "gave"

/-- The words that the row says after its verb: those of the description, after those of the
quantity and the unit and "of" where there is a quantity. -/
def rowWords (entry : ExtractedContributionEntry) (description : String) : Words :=
  match truthy entry.quantity with
  | none => words description.toList
  | some quantity => words quantity.toList ++ (words ((truthy entry.unit).getD "").toList ++
      ['o', 'f'] :: words description.toList)

def sentenceWords (entry : ExtractedContributionEntry) (description : String) : Words :=
  words entry.name.toList ++ (kindVerb entry).toList :: rowWords entry description

/-- The sentence asks something; or what is said in it is a quantity of something or holds no figure
of any worth, or an amount stands for the name. -/
def KeptInKind (entry : ExtractedContributionEntry) (description : String) : Prop :=
  asks (joined (sentenceWords entry description)) = true ∨
    ∃ name what, Said (sentenceWords entry description) name what ∧
      (looksLikeAmount (joined name) = true ∨ IsQuantity what ∨
        ∀ t, moneyAt (joined what) = some t → IsWorthless t)

theorem isVerb_kind : IsVerb (kindVerb entry).toList := by
  unfold kindVerb
  cases entry.status
  · decide
  · decide
  · decide

theorem truthy_eq_some {text : Option String} {value : String} :
    truthy text = some value ↔ text = some value ∧ value ≠ "" := by
  unfold truthy
  rw [Option.filter_eq_some_iff]
  simp

/-- What the sentence says after its verb. -/
def rowWhat (entry : ExtractedContributionEntry) (description : String) : String :=
  match truthy entry.quantity with
  | none => description
  | some quantity =>
    let unit := ((truthy entry.unit).map fun unit => s!" {unit}").getD ""
    s!"{quantity}{unit} of {description}"

def rowSentence (entry : ExtractedContributionEntry) (description : String) : String :=
  s!"{entry.name} {kindVerb entry} {rowWhat entry description}"

theorem words_rowWhat : words (rowWhat entry description).toList = rowWords entry description := by
  have hblank : isSpace ' ' = true := by decide
  unfold rowWhat rowWords
  cases truthy entry.quantity with
  | none => rfl
  | some quantity =>
    have hof : words (" of ".toList ++ description.toList) = ['o', 'f'] :: words description.toList := by
      change words (' ' :: (['o', 'f'] ++ ' ' :: description.toList)) = _
      rw [words_cons_space hblank, words_append_space hblank,
        words_of_ink ⟨List.cons_ne_nil _ _, by simp [isSpace]⟩]
      rfl
    have hlead (x : List Char) : words (x ++ (" of ".toList ++ description.toList)) =
        words x ++ ['o', 'f'] :: words description.toList := by
      have hfirst : words (x ++ (" of ".toList ++ description.toList)) =
          words x ++ words (['o', 'f'] ++ ' ' :: description.toList) :=
        words_append_space hblank x _
      rw [hfirst, ← hof]
      exact congrArg (words x ++ ·) (words_cons_space hblank).symm
    cases hunit : truthy entry.unit with
    | none =>
      simp only [Option.map_none, Option.getD_none, String.toList_append, List.append_assoc]
      exact hlead quantity.toList
    | some unit =>
      simp only [Option.map_some, Option.getD_some, String.toList_append, List.append_assoc]
      have hunits := (words_append_space hblank quantity.toList
        (unit.toList ++ (" of ".toList ++ description.toList))).trans
          (congrArg (words quantity.toList ++ ·) (hlead unit.toList))
      refine Eq.trans (congrArg words ?_) hunits
      change quantity.toList ++ ((" " ++ unit).toList ++ (" of ".toList ++ description.toList)) = _
      rw [String.toList_append, List.append_assoc]
      rfl

theorem spelled_sentence : ∀ word ∈ sentenceWords entry description, IsSpelled word := by
  intro word hword
  rcases List.mem_append.mp hword with hname | hword
  · exact isSpelled_of_mem hname
  · rcases List.mem_cons.mp hword with rfl | hword
    · refine ⟨?_, fun a ha => (ink_of_isVerb isVerb_kind a ha).1⟩
      unfold kindVerb
      cases entry.status <;> decide
    · rw [← words_rowWhat] at hword
      exact isSpelled_of_mem hword

/-- A description in kind always makes a sentence. -/
theorem buildUtterance_kind (hpassed : Admitted entry) (hkind : entry.type ≠ .cash)
    (hdescription : entry.description = some description) :
    ∃ utterance, buildUtterance entry = some utterance ∧
      normalText utterance = joined (sentenceWords entry description) := by
  obtain ⟨hne, -⟩ := hpassed.description description hdescription
  have htruthy : truthy (some description) = some description :=
    truthy_eq_some.mpr ⟨rfl, fun hempty => hne (by rw [hempty]; rfl)⟩
  have hsentence : words (rowSentence entry description).toList = sentenceWords entry description := by
    have hblank : isSpace ' ' = true := by decide
    have htext : (rowSentence entry description).toList = entry.name.toList ++
        ' ' :: ((kindVerb entry).toList ++ ' ' :: (rowWhat entry description).toList) := by
      simp only [rowSentence, String.toList_append, List.append_assoc]
      rfl
    have hverb : IsSpelled (kindVerb entry).toList := spelled_sentence _
      (show _ ∈ sentenceWords entry description from List.mem_append_right _ List.mem_cons_self)
    rw [htext, words_append_space hblank, words_append_space hblank, words_of_ink hverb, words_rowWhat]
    rfl
  refine ⟨rowSentence entry description, ?_, by rw [normalText_eq, hsentence]⟩
  obtain ⟨name, type, amount, text, quantity, unit, status⟩ := entry
  dsimp only at hdescription hkind
  subst hdescription
  cases type
  · exact absurd rfl hkind
  · simp only [buildUtterance, htruthy, rowSentence, rowWhat]
    cases status <;> rfl
  · simp only [buildUtterance, htruthy, rowSentence, rowWhat]
    cases status <;> rfl

theorem rowWords_ne_nil (hpassed : Admitted entry) (hdescription : entry.description = some description) :
    rowWords entry description ≠ [] := by
  obtain ⟨hne, hink⟩ := hpassed.description description hdescription
  unfold rowWords
  cases truthy entry.quantity with
  | none =>
    obtain ⟨a, text, htext⟩ := List.exists_cons_of_ne_nil hne
    exact words_ne_nil (by rw [htext]; exact List.mem_cons_self) (hink.first a (by rw [htext]; rfl))
  | some quantity => simp

/-- A row in kind stays one, or is left alone, exactly where nothing that it says counts as money. -/
theorem row_kept_in_kind_iff (numberText : ℚ → String) (raw : RawRow)
    (entry : ExtractedContributionEntry) (description : String)
    (hadmitted : entryRow numberText raw = some entry) (hkind : entry.type ≠ .cash)
    (hdescription : entry.description = some description) :
    (∀ call, (buildUtterance entry).bind parseTier1 = some call → isRecord call = false) ↔
      KeptInKind entry description := by
  have hpassed := entryRow_admitted hadmitted
  obtain ⟨hne, hink⟩ := hpassed.name
  obtain ⟨utterance, hutterance, hnormal⟩ := buildUtterance_kind hpassed hkind hdescription
  have hname : words entry.name.toList ≠ [] := by
    obtain ⟨a, text, htext⟩ := List.exists_cons_of_ne_nil hne
    exact words_ne_nil (by rw [htext]; exact List.mem_cons_self) (hink.first a (by rw [htext]; rfl))
  have hrecorded : (∀ call, parseTier1 utterance = some call → isRecord call = false) ↔
      ¬ IsRecorded utterance := by
    unfold IsRecorded
    simp
  rw [hutterance, Option.bind_some, hrecorded, isRecorded_iff, hnormal]
  rw [not_and_or, Bool.not_eq_false]
  unfold KeptInKind
  refine or_congr_right ⟨fun h => ?_, ?_⟩
  · obtain ⟨name, what, hsaid⟩ := exists_said hname (@isVerb_kind entry)
      (rowWords_ne_nil hpassed hdescription)
    exact ⟨name, what, hsaid, (not_recorded_said hsaid spelled_sentence).mp h⟩
  · rintro ⟨name, what, hsaid, hkept⟩
    exact (not_recorded_said hsaid spelled_sentence).mpr hkept

end rows

def kindRow (fields : List (String × ArgValue)) : RawRow :=
  .object ([("name", .text "Grace"), ("type", .text "item"), ("status", .text "pledged")] ++ fields)

def kindEntry (quantity unit : Option String) (description : String) :
    ExtractedContributionEntry :=
  { name := "Grace"
    type := .item
    description := some description
    quantity
    unit
    status := .pledged }

/-- Two bags of rice stay rice: a number, a unit of one word and "of". -/
theorem row_kept_in_kind_bags :
    buildUtterance (kindEntry (some "2") (some "bags") "rice") =
        some "Grace pledged 2 bags of rice" ∧
      ∀ call, (buildUtterance (kindEntry (some "2") (some "bags") "rice")).bind parseTier1 =
        some call → isRecord call = false := by
  have hsaid : Said ([['G', 'r', 'a', 'c', 'e']] ++ "pledged".toList :: [['2'], ['b', 'a', 'g', 's'],
      ['o', 'f'], ['r', 'i', 'c', 'e']]) [['G', 'r', 'a', 'c', 'e']]
      [['2'], ['b', 'a', 'g', 's'], ['o', 'f'], ['r', 'i', 'c', 'e']] :=
    said_of_plain (by decide) (by unfold IsCommand; decide) (by decide) (by decide) (by decide)
  have hquantity : IsQuantity [['2'], ['b', 'a', 'g', 's'], ['o', 'f'], ['r', 'i', 'c', 'e']] :=
    .measured ⟨'2', [], [], rfl, by decide, nofun, nofun⟩ rfl
  have hkept : KeptInKind (kindEntry (some "2") (some "bags") "rice") "rice" :=
    .inr ⟨_, _, hsaid, .inr (.inl hquantity)⟩
  refine ⟨by decide +kernel, (row_kept_in_kind_iff (fun _ => "")
    (kindRow [("quantity", .text "2"), ("unit", .text "bags"), ("description", .text "rice")])
    (kindEntry (some "2") (some "bags") "rice") "rice" (by decide +kernel) (by decide) rfl).mpr hkept⟩

/-- A unit of two words, and a number in the description itself, are read as shillings. -/
theorem quantities_staged_as_cash :
    entryRow (fun _ => "") (kindRow [("quantity", .text "2"), ("unit", .text "big bags"),
      ("description", .text "rice")]) = some (kindEntry (some "2") (some "big bags") "rice") ∧
    (buildUtterance (kindEntry (some "2") (some "big bags") "rice")).bind parseTier1 =
      some (.recordPledge "Grace" "2" none none none none) ∧
    entryRow (fun _ => "") (kindRow [("description", .text "2 goats")]) =
      some (kindEntry none none "2 goats") ∧
    (buildUtterance (kindEntry none none "2 goats")).bind parseTier1 =
      some (.recordPledge "Grace" "2" none none none none) := by
  decide +kernel

end Akabbo.KindRows
