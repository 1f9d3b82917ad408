import Akabbo.Binary64
import Akabbo.TextPatterns
import Akabbo.ToolExecutor

/-!
# Amounts of money as people type them

`parseAmountToMinorUnits` reads a numeral through binary64 numbers. What the text denotes exactly is
read beside it.
-/
namespace Akabbo.Amounts
open RegularExpressions TextPatterns Binary64

/-- `input.trim().toLowerCase().replace(/,/g, '').replace(/\s+/g, '')`. -/
def cleaned (input : List Char) : List Char :=
  ((toLowerCase (trim input)).filter (· != ',')).filter fun c => !isSpace c

/-- `ugx|usd|shs?|\$`. -/
def currency : Regex Char :=
  Regex.any [literal "ugx", literal "usd", Regex.all [letter 's', letter 'h', (letter 's').optional],
    literal "$"]

/-- `\d+(?:\.\d+)?`. -/
def numeralPattern : Regex Char :=
  Regex.all [digit.plus, (Regex.all [sign '.', digit.plus]).optional]

/-- `k|m`. -/
def suffixPattern : Regex Char := Regex.any [letter 'k', letter 'm']

/-- `/^(?:ugx|usd|shs?|\$)?(\d+(?:\.\d+)?)(k|m)?$/i`. -/
def amountPattern : Regex Char :=
  Regex.all [.start, currency.optional, .group 1 numeralPattern,
    (Regex.group 2 suffixPattern).optional, .finish]

/-- The rational that a numeral with or without a fraction denotes. -/
def numeralValue (numStr : List Char) : ℚ :=
  let whole := numStr.takeWhile Char.isDigit
  let fraction := (numStr.dropWhile Char.isDigit).drop 1
  Nat.ofDigitChars 10 (whole ++ fraction) 0 / 10 ^ fraction.length

def multiplier (suffix : Option (List Char)) : ℕ :=
  if suffix = some ['k'] then 1000 else if suffix = some ['m'] then 1000000 else 1

/-- `Number(numStr) * multiplier`; none stands for infinity. -/
def scaled (value : ℚ) (multiplier : ℕ) : Option ℚ := do
  let number ← toBinary64 value
  toBinary64 (number * multiplier)

/-- `Number.isInteger`, and the `BigInt` of it. -/
def wholeNumber (value : ℚ) : Option ℕ := if value.den = 1 then some value.num.toNat else none

def parseAmountToMinorUnits (input : List Char) : Option ℕ := do
  let groups ← amountPattern.exec (cleaned input)
  let numStr ← groups 1
  let value ← scaled (numeralValue numStr) (multiplier (groups 2))
  wholeNumber value

/-- What does not count in an amount: white space and commas. -/
def isSeparator (c : Char) : Bool := isSpace c || c == ','

theorem filter_dropWhile {p : Char → Bool} (text : List Char) :
    (text.dropWhile p).filter (fun c => !p c) = text.filter fun c => !p c := by
  induction text with
  | nil => rfl
  | cons a text ih =>
    by_cases ha : p a = true
    · rw [List.dropWhile_cons_of_pos ha, ih, List.filter_cons_of_neg (by simp [ha])]
    · rw [List.dropWhile_cons_of_neg ha]

/-- Cleaning goes character by character. -/
theorem cleaned_eq (input : List Char) :
    cleaned input = (input.filter fun c => !isSeparator c).map lowerChar := by
  have htrim : (trim input).filter (fun c => !isSpace c) = input.filter fun c => !isSpace c := by
    unfold trim
    rw [List.filter_reverse, filter_dropWhile, List.filter_reverse, List.reverse_reverse,
      filter_dropWhile]
  have hcomma (c : Char) : (lowerChar c != ',') = (c != ',') := by
    rw [Bool.eq_iff_iff, bne_iff_ne, bne_iff_ne]
    exact not_congr (lowerChar_eq_iff (by decide))
  have hsplit : input.filter (fun c => !isSeparator c) =
      (input.filter fun c => !isSpace c).filter (· != ',') := by
    rw [List.filter_filter]
    refine List.filter_congr fun c _ => ?_
    unfold isSeparator
    rw [Bool.not_or, Bool.and_comm]
    rfl
  unfold cleaned toLowerCase
  rw [List.filter_comm, List.filter_map, List.filter_map, hsplit, ← htrim]
  congr 1
  simp only [List.filter_filter, Function.comp_def, isSpace_lowerChar, hcomma]

theorem cleaned_append (x y : List Char) : cleaned (x ++ y) = cleaned x ++ cleaned y := by
  simp only [cleaned_eq, List.filter_append, List.map_append]

/-- A numeral with its fraction, if it has one, and its multiplier. -/
structure Numeral where
  whole : List Char
  fraction : List Char
  suffix : List Char
  deriving DecidableEq, Repr

def Numeral.multiplier (n : Numeral) : ℕ :=
  if n.suffix = ['k'] then 1000 else if n.suffix = ['m'] then 1000000 else 1

/-- All digits of it as one number. -/
def Numeral.digits (n : Numeral) : ℕ := Nat.ofDigitChars 10 (n.whole ++ n.fraction) 0

def Numeral.number (n : Numeral) : ℚ := n.digits / 10 ^ n.fraction.length

/-- What the numeral denotes. -/
def Numeral.value (n : Numeral) : ℚ := n.number * n.multiplier

def suffixes : List (List Char) := [[], ['k'], ['m']]

def currencies : List (List Char) :=
  [[], ['u', 'g', 'x'], ['u', 's', 'd'], ['s', 'h'], ['s', 'h', 's'], ['$']]

/-- A fraction is a point and at least one digit. -/
def splitFraction (rest : List Char) : List Char × List Char :=
  match rest with
  | '.' :: more =>
    if more.takeWhile Char.isDigit = [] then ([], rest)
    else (more.takeWhile Char.isDigit, more.dropWhile Char.isDigit)
  | _ => ([], rest)

/-- The numeral that a cleaned text is, apart from its currency. -/
def numeralOf (text : List Char) : Option Numeral :=
  let body := text.dropWhile fun c => !c.isDigit
  let (fraction, suffix) := splitFraction (body.dropWhile Char.isDigit)
  if (text.takeWhile fun c => !c.isDigit).map Char.toLower ∈ currencies ∧ body ≠ [] ∧
      suffix.map Char.toLower ∈ suffixes then
    some ⟨body.takeWhile Char.isDigit, fraction, suffix⟩
  else none

def Numeral.numStr (n : Numeral) : List Char :=
  n.whole ++ if n.fraction = [] then [] else '.' :: n.fraction

structure Spells (text : List Char) (n : Numeral) : Prop where
  whole : n.whole ≠ []
  wholeDigits : ∀ a ∈ n.whole, a.isDigit = true
  fractionDigits : ∀ a ∈ n.fraction, a.isDigit = true
  suffix : n.suffix.map Char.toLower ∈ suffixes
  text : ∃ cur, cur.map Char.toLower ∈ currencies ∧ text = cur ++ (n.numStr ++ n.suffix)

section spelled
variable {c d e : Cursor Char}

theorem mem_digits : d ∈ digit.plus.paths c ↔
    ∃ x, x ≠ [] ∧ (∀ a ∈ x, a.isDigit = true) ∧ Reads x c d := mem_plus_one

theorem mem_shs : d ∈ (Regex.all [letter 's', letter 'h', (letter 's').optional]).paths c ↔
    ∃ x, (x.map Char.toLower = ['s', 'h'] ∨ x.map Char.toLower = ['s', 'h', 's']) ∧ Reads x c d := by
  have hsh : d ∈ (Regex.all [letter 's', letter 'h', (letter 's').optional]).paths c ↔
      d ∈ (Regex.all (['s', 'h'].map letter)).paths c ∨
        d ∈ (Regex.all (['s', 'h', 's'].map letter)).paths c := by
    simp only [Regex.all, List.map_cons, List.map_nil, mem_seq, mem_optional]
    constructor
    · rintro ⟨e, he, f, hf, hd | rfl⟩
      · exact .inr ⟨e, he, f, hf, hd⟩
      · exact .inl ⟨e, he, hf⟩
    · rintro (⟨e, he, hd⟩ | ⟨e, he, f, hf, hd⟩)
      · exact ⟨e, he, d, hd, .inr rfl⟩
      · exact ⟨e, he, f, hf, .inl hd⟩
  rw [hsh, mem_letters, mem_letters, ← exists_or]
  exact exists_congr fun x => or_and_right.symm

theorem mem_currency : d ∈ currency.optional.paths c ↔
    ∃ x, x.map Char.toLower ∈ currencies ∧ Reads x c d := by
  simp only [currency, Regex.any, mem_optional, mem_alt, mem_literal, mem_shs]
  constructor
  · rintro ((⟨x, hx, h⟩ | ⟨x, hx, h⟩ | ⟨x, hx, h⟩ | ⟨x, hx, h⟩) | rfl)
    · exact ⟨x, by rw [hx]; decide, h⟩
    · exact ⟨x, by rw [hx]; decide, h⟩
    · refine ⟨x, ?_, h⟩
      rcases hx with hx | hx
      · rw [hx]
        decide
      · rw [hx]
        decide
    · exact ⟨x, by rw [hx]; decide, h⟩
    · exact ⟨[], by decide, reads_nil.mpr rfl⟩
  · rintro ⟨x, hx, h⟩
    simp only [currencies, List.mem_cons, List.not_mem_nil, or_false] at hx
    rcases hx with hx | hx | hx | hx | hx | hx
    · rw [List.map_eq_nil_iff.mp hx] at h
      exact .inr (reads_nil.mp h)
    · exact .inl (.inl ⟨x, hx, h⟩)
    · exact .inl (.inr (.inl ⟨x, hx, h⟩))
    · exact .inl (.inr (.inr (.inl ⟨x, .inl hx, h⟩)))
    · exact .inl (.inr (.inr (.inl ⟨x, .inr hx, h⟩)))
    · exact .inl (.inr (.inr (.inr ⟨x, hx, h⟩)))

/-- What the first group may take. -/
theorem mem_numeral : d ∈ numeralPattern.paths c ↔
    ∃ whole fraction, whole ≠ [] ∧ (∀ a ∈ whole, a.isDigit = true) ∧
      (∀ a ∈ fraction, a.isDigit = true) ∧
      Reads (whole ++ if fraction = [] then [] else '.' :: fraction) c d := by
  simp only [numeralPattern, Regex.all, mem_seq, mem_optional, mem_digits, mem_sign]
  constructor
  · rintro ⟨e, ⟨whole, hne, hwhole, hread⟩, ⟨f, hpoint, fraction, hfne, hfraction, hread'⟩ | rfl⟩
    · refine ⟨whole, fraction, hne, hwhole, hfraction, ?_⟩
      rw [if_neg hfne]
      exact hread.trans (hpoint.trans hread')
    · exact ⟨whole, [], hne, hwhole, by simp, by simpa using hread⟩
  · rintro ⟨whole, fraction, hne, hwhole, hfraction, hread⟩
    by_cases hf : fraction = []
    · rw [if_pos hf, List.append_nil] at hread
      exact ⟨d, ⟨whole, hne, hwhole, hread⟩, .inr rfl⟩
    · rw [if_neg hf] at hread
      obtain ⟨e, he, hrest⟩ := hread.split
      obtain ⟨f, hpoint, hdigits⟩ := hrest.split (x := ['.'])
      exact ⟨e, ⟨whole, hne, hwhole, he⟩, .inl ⟨f, hpoint, fraction, hf, hfraction, hdigits⟩⟩

theorem mem_suffix : d ∈ suffixPattern.paths c ↔
    ∃ x, x ≠ [] ∧ x.map Char.toLower ∈ suffixes ∧ Reads x c d := by
  simp only [suffixPattern, Regex.any, mem_alt, mem_letter]
  constructor
  · rintro (⟨a, ha, h⟩ | ⟨a, ha, h⟩)
    · exact ⟨[a], List.cons_ne_nil _ _, by rw [List.map_singleton, ha]; decide, h⟩
    · exact ⟨[a], List.cons_ne_nil _ _, by rw [List.map_singleton, ha]; decide, h⟩
  · rintro ⟨x, hne, hx, h⟩
    obtain ⟨a, x, rfl⟩ := List.exists_cons_of_ne_nil hne
    simp only [suffixes, List.map_cons, List.mem_cons, List.cons.injEq, List.map_eq_nil_iff,
      List.not_mem_nil, or_false, reduceCtorEq, false_or] at hx
    rcases hx with ⟨ha, rfl⟩ | ⟨ha, rfl⟩
    · exact .inl ⟨a, ha, h⟩
    · exact .inr ⟨a, ha, h⟩

theorem mem_suffixGroup : d ∈ (Regex.group 2 suffixPattern).optional.paths c ↔
    ∃ x, x.map Char.toLower ∈ suffixes ∧ c.after = x ++ d.after ∧ d.before = x.reverse ++ c.before ∧
      d.groups = if x = [] then c.groups else Function.update c.groups 2 (some x) := by
  have htakes := mem_group_takes (c := c) (d := d) (i := 2) (r := suffixPattern)
    (P := fun x => x ≠ [] ∧ x.map Char.toLower ∈ suffixes) fun e => by
      rw [mem_suffix]
      exact exists_congr fun x => and_assoc.symm
  rw [mem_optional, htakes]
  constructor
  · rintro (⟨x, ⟨hne, hx⟩, h⟩ | rfl)
    · exact ⟨x, hx, h.after, h.before, by rw [if_neg hne, h.groups]⟩
    · exact ⟨[], by decide, rfl, rfl, rfl⟩
  · rintro ⟨x, hx, hafter, hbefore, hgroups⟩
    by_cases hne : x = []
    · rw [if_pos hne] at hgroups
      subst hne
      exact .inr (reads_nil.mp ⟨hafter, hbefore, hgroups⟩)
    · rw [if_neg hne] at hgroups
      exact .inl ⟨x, ⟨hne, hx⟩, hafter, hbefore, hgroups⟩

/-- What the groups hold after reading a numeral. -/
def numeralGroups (groups : ℕ → Option (List Char)) (n : Numeral) : ℕ → Option (List Char) :=
  if n.suffix = [] then Function.update groups 1 (some n.numStr)
  else Function.update (Function.update groups 1 (some n.numStr)) 2 (some n.suffix)

/-- The pattern reads what spells a numeral, from the start of a text to its end. -/
theorem mem_amountPattern : d ∈ amountPattern.paths c ↔ c.before = [] ∧ d.after = [] ∧
    d.before = c.after.reverse ∧ ∃ n, Spells c.after n ∧ d.groups = numeralGroups c.groups n := by
  change d ∈ (Regex.seq .start (.seq currency.optional (.seq (.group 1 numeralPattern)
    (.seq (Regex.group 2 suffixPattern).optional .finish)))).paths c ↔ _
  have htakes (c d : Cursor Char) := mem_group_takes (c := c) (d := d) (i := 1)
    (r := numeralPattern) (P := fun x => ∃ n : Numeral, n.whole ≠ [] ∧
      (∀ a ∈ n.whole, a.isDigit = true) ∧ (∀ a ∈ n.fraction, a.isDigit = true) ∧
      n.suffix = [] ∧ x = n.numStr) fun e => by
        rw [mem_numeral]
        constructor
        · rintro ⟨whole, fraction, hne, hwhole, hfraction, h⟩
          exact ⟨_, ⟨⟨whole, fraction, []⟩, hne, hwhole, hfraction, rfl, rfl⟩, h⟩
        · rintro ⟨_, ⟨n, hne, hwhole, hfraction, -, rfl⟩, h⟩
          exact ⟨n.whole, n.fraction, hne, hwhole, hfraction, h⟩
  simp only [mem_seq, mem_start, mem_currency, htakes, mem_suffixGroup, mem_finish]
  constructor
  · rintro ⟨c', ⟨hstart, hc⟩, e, ⟨cur, hcur, hreads⟩, f, ⟨_, ⟨n, hne, hwhole, hfraction, -, rfl⟩,
      htaken⟩, _, ⟨x, hx, hafter, hbefore, hgroups⟩, hfinish, rfl⟩
    rw [hc] at hreads
    rw [hfinish, List.append_nil] at hafter
    have htext : c.after = cur ++ (n.numStr ++ x) := by
      rw [hreads.after, htaken.after, hafter]
    refine ⟨hstart, hfinish, ?_, ⟨n.whole, n.fraction, x⟩,
      ⟨hne, hwhole, hfraction, hx, cur, hcur, htext⟩, ?_⟩
    · rw [hbefore, htaken.before, hreads.before, hstart, htext]
      simp
    · rw [hgroups, htaken.groups, hreads.groups]
      rfl
  · rintro ⟨hstart, hfinish, hbefore, n, hspells, hgroups⟩
    obtain ⟨cur, hcur, htext⟩ := hspells.text
    refine ⟨c, ⟨hstart, rfl⟩, ⟨cur.reverse ++ c.before, n.numStr ++ n.suffix, c.groups⟩,
      ⟨cur, hcur, htext, rfl, rfl⟩,
      ⟨n.numStr.reverse ++ (cur.reverse ++ c.before), n.suffix,
        Function.update c.groups 1 (some n.numStr)⟩,
      ⟨n.numStr, ⟨⟨n.whole, n.fraction, []⟩, hspells.whole, hspells.wholeDigits,
        hspells.fractionDigits, rfl, rfl⟩, rfl, rfl, rfl⟩,
      d, ⟨n.suffix, hspells.suffix, ?_, ?_, ?_⟩, hfinish, rfl⟩
    · rw [hfinish, List.append_nil]
    · rw [hbefore, htext, hstart]
      simp
    · rw [hgroups]
      rfl

end spelled

section numeral
variable {text : List Char} {n : Numeral}

/-- A run ends where the rest begins with something else. -/
theorem run_ends {p : Char → Bool} {x y : List Char} (hx : ∀ a ∈ x, p a = true)
    (hy : ∀ a ∈ y.head?, p a = false) :
    (x ++ y).takeWhile p = x ∧ (x ++ y).dropWhile p = y := by
  rw [List.takeWhile_append_of_pos hx, List.dropWhile_append_of_pos hx]
  cases y with
  | nil => simp
  | cons a y =>
    have ha : p a = false := hy a rfl
    simp [ha]

theorem not_digit_of_lower {x word : List Char} (hx : x.map Char.toLower = word)
    (hword : ∀ b ∈ word, b.isDigit = false) {a : Char} (ha : a ∈ x) : a.isDigit = false := by
  rw [Bool.eq_false_iff]
  intro hdigit
  have hmem : a.toLower ∈ word := hx ▸ List.mem_map_of_mem ha
  rw [toLower_of_isDigit hdigit] at hmem
  rw [hword a hmem] at hdigit
  exact Bool.false_ne_true hdigit

theorem not_digit_of_currency {cur : List Char} (hcur : cur.map Char.toLower ∈ currencies) :
    ∀ a ∈ cur, a.isDigit = false := by
  have hall : ∀ word ∈ currencies, ∀ b ∈ word, b.isDigit = false :=
    forall_mem_words_of_all (by decide)
  exact fun a ha => not_digit_of_lower rfl (hall _ hcur) ha

theorem not_digit_of_suffix {suffix : List Char} (h : suffix.map Char.toLower ∈ suffixes) :
    ∀ a ∈ suffix.head?, a.isDigit = false := by
  have hall : ∀ word ∈ suffixes, ∀ b ∈ word, b.isDigit = false :=
    forall_mem_words_of_all (by decide)
  exact fun a ha => not_digit_of_lower rfl (hall _ h) (List.mem_of_mem_head? ha)

theorem no_point_of_suffix {suffix : List Char} (h : suffix.map Char.toLower ∈ suffixes) :
    splitFraction suffix = ([], suffix) := by
  unfold splitFraction
  split
  · next more =>
    have hpoint : '.' ∈ (('.' :: more).map Char.toLower) := List.mem_cons_self
    have hall : ∀ word ∈ suffixes, '.' ∉ word := by decide
    exact absurd hpoint (hall _ h)
  · rfl

theorem splitFraction_append (hfraction : ∀ a ∈ n.fraction, a.isDigit = true)
    (hsuffix : n.suffix.map Char.toLower ∈ suffixes) :
    splitFraction ((if n.fraction = [] then [] else '.' :: n.fraction) ++ n.suffix) =
      (n.fraction, n.suffix) := by
  by_cases hf : n.fraction = []
  · rw [if_pos hf, List.nil_append, hf]
    exact no_point_of_suffix hsuffix
  · rw [if_neg hf, List.cons_append]
    obtain ⟨htake, hdrop⟩ := run_ends hfraction (not_digit_of_suffix hsuffix)
    simp only [splitFraction]
    rw [htake, hdrop, if_neg hf]

theorem splitFraction_eq (rest : List Char) : rest =
    (if (splitFraction rest).1 = [] then [] else '.' :: (splitFraction rest).1) ++
      (splitFraction rest).2 ∧ ∀ a ∈ (splitFraction rest).1, a.isDigit = true := by
  unfold splitFraction
  split
  · next more =>
    by_cases h : more.takeWhile Char.isDigit = []
    · rw [if_pos h]
      exact ⟨rfl, by simp⟩
    · rw [if_neg h]
      refine ⟨?_, fun a ha => List.mem_takeWhile_imp ha⟩
      rw [if_neg h, List.cons_append, List.takeWhile_append_dropWhile]
  · exact ⟨by simp, by simp⟩

theorem numeralOf_eq_some : numeralOf text = some n ↔ Spells text n := by
  unfold numeralOf
  constructor
  · intro h
    simp only [Option.ite_none_right_eq_some, Option.some.injEq] at h
    obtain ⟨⟨hcur, hbody, hsuffix⟩, rfl⟩ := h
    obtain ⟨hrest, hfraction⟩ :=
      splitFraction_eq ((text.dropWhile fun c => !c.isDigit).dropWhile Char.isDigit)
    refine ⟨?_, fun a ha => List.mem_takeWhile_imp ha, hfraction, hsuffix, _, hcur, ?_⟩
    · obtain ⟨a, body, hcons⟩ := List.exists_cons_of_ne_nil hbody
      have ha : a.isDigit = true := by
        have hhead := List.head?_dropWhile_not (fun c : Char => !c.isDigit) text
        rw [hcons] at hhead
        simpa using hhead
      dsimp only
      rw [hcons, List.takeWhile_cons_of_pos ha]
      exact List.cons_ne_nil _ _
    · unfold Numeral.numStr
      dsimp only
      rw [List.append_assoc, ← hrest, List.takeWhile_append_dropWhile,
        List.takeWhile_append_dropWhile]
  · intro h
    obtain ⟨cur, hcur, htext⟩ := h.text
    have hnondigit : ∀ a ∈ cur, (!a.isDigit) = true := fun a ha => by
      rw [not_digit_of_currency hcur a ha]
      rfl
    obtain ⟨a, whole, hwhole⟩ := List.exists_cons_of_ne_nil h.whole
    have ha : a.isDigit = true := h.wholeDigits a (by rw [hwhole]; exact List.mem_cons_self)
    have hbody : (n.numStr ++ n.suffix).head? = some a := by
      unfold Numeral.numStr
      rw [hwhole]
      rfl
    obtain ⟨htake, hdrop⟩ := run_ends hnondigit (y := n.numStr ++ n.suffix) fun b hb => by
      rw [hbody] at hb
      rw [← Option.some.inj hb, ha]
      rfl
    have hne : n.numStr ++ n.suffix ≠ [] := by
      intro hnil
      rw [hnil] at hbody
      cases hbody
    have hafter : ∀ b ∈ ((if n.fraction = [] then [] else '.' :: n.fraction) ++ n.suffix).head?,
        b.isDigit = false := by
      by_cases hf : n.fraction = []
      · rw [if_pos hf]
        exact not_digit_of_suffix h.suffix
      · rw [if_neg hf]
        intro b hb
        cases hb
        decide
    have hsplit : n.numStr ++ n.suffix = n.whole ++
        ((if n.fraction = [] then [] else '.' :: n.fraction) ++ n.suffix) :=
      List.append_assoc _ _ _
    obtain ⟨htake', hdrop'⟩ := run_ends h.wholeDigits hafter
    rw [← hsplit] at htake' hdrop'
    rw [htext]
    simp only [htake, hdrop, htake', hdrop', splitFraction_append h.fractionDigits h.suffix]
    rw [if_pos ⟨hcur, hne, h.suffix⟩]

theorem exec_amountPattern (text : List Char) : amountPattern.exec text =
    (numeralOf text).map (numeralGroups fun _ => none) := by
  have hfound {d : Cursor Char} (h : amountPattern.searchFrom [] text = some d) :
      ∃ n, numeralOf text = some n ∧ d.groups = numeralGroups (fun _ => none) n := by
    obtain ⟨x, y, hxy, hhead⟩ := searchFrom_eq_some h
    obtain ⟨hstart, -, -, n, hspells, hgroups⟩ := mem_amountPattern.mp (List.mem_of_mem_head? hhead)
    have hx : x = [] := by simpa using hstart
    subst hx hxy
    exact ⟨n, numeralOf_eq_some.mpr hspells, hgroups⟩
  unfold Regex.exec
  cases hn : numeralOf text with
  | none =>
    cases hsearch : amountPattern.searchFrom [] text with
    | none => rfl
    | some d =>
      obtain ⟨n, hsome, -⟩ := hfound hsearch
      rw [hn] at hsome
      cases hsome
  | some n =>
    have hmem : (⟨text.reverse, [], numeralGroups (fun _ => none) n⟩ : Cursor Char) ∈
        amountPattern.paths ⟨([] : List Char).reverse ++ [], text, fun _ => none⟩ :=
      mem_amountPattern.mpr ⟨rfl, rfl, rfl, n, numeralOf_eq_some.mp hn, rfl⟩
    obtain ⟨d, hd⟩ := Option.isSome_iff_exists.mp
      (searchFrom_isSome (x := []) (List.ne_nil_of_mem hmem))
    rw [List.nil_append] at hd
    obtain ⟨n', hsome, hgroups⟩ := hfound hd
    rw [hn] at hsome
    cases hsome
    rw [hd, Option.map_some, Option.map_some, hgroups]

theorem numeralValue_numStr (hwhole : ∀ a ∈ n.whole, a.isDigit = true) :
    numeralValue n.numStr = n.number := by
  have hhead : ∀ a ∈ (if n.fraction = [] then [] else '.' :: n.fraction).head?, a.isDigit = false := by
    by_cases hf : n.fraction = []
    · rw [if_pos hf]
      intro a ha
      cases ha
    · rw [if_neg hf]
      intro a ha
      cases ha
      decide
  obtain ⟨htake, hdrop⟩ := run_ends hwhole hhead
  have hfraction : (if n.fraction = [] then [] else '.' :: n.fraction).drop 1 = n.fraction := by
    by_cases hf : n.fraction = []
    · rw [if_pos hf, hf]
      rfl
    · rw [if_neg hf]
      rfl
  unfold numeralValue Numeral.numStr
  simp only [htake, hdrop, hfraction]
  rfl

/-- The parser scales the numeral that a text spells and keeps it where it comes out whole. -/
theorem parseAmountToMinorUnits_eq (input : List Char) : parseAmountToMinorUnits input =
    (numeralOf (cleaned input)).bind fun n => (scaled n.number n.multiplier).bind wholeNumber := by
  unfold parseAmountToMinorUnits
  rw [exec_amountPattern]
  cases hn : numeralOf (cleaned input) with
  | none => rfl
  | some n =>
    have hspells := numeralOf_eq_some.mp hn
    have hgroup : numeralGroups (fun _ => none) n 1 = some n.numStr := by
      unfold numeralGroups
      split_ifs
      · rfl
      · rfl
    have hsuffix : multiplier (numeralGroups (fun _ => none) n 2) = n.multiplier := by
      unfold numeralGroups multiplier Numeral.multiplier
      by_cases hs : n.suffix = []
      · rw [if_pos hs, hs]
        rfl
      · rw [if_neg hs]
        simp
    simp only [Option.map_some, Option.bind_eq_bind, Option.bind_some, hgroup, hsuffix,
      numeralValue_numStr hspells.wholeDigits]

theorem parse_eq_of_cleaned {x y : List Char} (h : cleaned x = cleaned y) :
    parseAmountToMinorUnits x = parseAmountToMinorUnits y := by
  rw [parseAmountToMinorUnits_eq, parseAmountToMinorUnits_eq, h]

end numeral
end Akabbo.Amounts
