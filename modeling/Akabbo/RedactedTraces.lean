import Akabbo.RedactionPatterns

/-!
# What is taken out of a trace

`redactPii` replaces phone numbers, amounts and codes, one pattern after the other.
-/
namespace Akabbo.RedactedTraces
open RegularExpressions GlobalReplacement TextPatterns RedactionPatterns

def phoneRedacted : List Char := "[PHONE_REDACTED]".toList

def amountRedacted : List Char := "[AMOUNT_REDACTED]".toList

def otpRedacted : List Char := "[OTP_REDACTED]".toList

/-- The text when its phone numbers are out of it. -/
def withoutPhones (text : List Char) : List Char := replaceAll phonePattern phoneRedacted text

def redacted (text : List Char) : List Char :=
  replaceAll otpPattern otpRedacted (replaceAll amountPattern amountRedacted (withoutPhones text))

def redactPii (text : Option String) : String :=
  match text with
  | none => ""
  | some text => if text = "" then "" else String.ofList (redacted text.toList)

section passes
variable {x text : List Char}

/-- A replacement is a text without digits in square brackets. -/
theorem apart_of_digit {new mid : List Char} (hnew : new = '[' :: (mid ++ [']']))
    (hnone : ∀ c ∈ new, c.isDigit = false) (hdigit : ∃ c ∈ x, c.isDigit = true)
    (hopen : '[' ∉ x) (hclose : ']' ∉ x) : Apart new x := by
  obtain ⟨c, hc, hdigit⟩ := hdigit
  refine ⟨⟨'[', mid, ']', hnew, hopen, hclose⟩, c, hc, fun hmem => ?_⟩
  rw [hnone c hmem] at hdigit
  cases hdigit

theorem apart_amountRedacted (hdigit : ∃ c ∈ x, c.isDigit = true) (hopen : '[' ∉ x)
    (hclose : ']' ∉ x) : Apart amountRedacted x :=
  @apart_of_digit x _ "AMOUNT_REDACTED".toList rfl (forall_mem_of_all (by decide)) hdigit hopen
    hclose

theorem apart_phoneRedacted (hdigit : ∃ c ∈ x, c.isDigit = true) (hopen : '[' ∉ x)
    (hclose : ']' ∉ x) : Apart phoneRedacted x :=
  @apart_of_digit x _ "PHONE_REDACTED".toList rfl (forall_mem_of_all (by decide)) hdigit hopen
    hclose

theorem apart_amount (h : IsAmount x) : Apart amountRedacted x := by
  refine apart_amountRedacted h.exists_digit (fun hmem => ?_) fun hmem => ?_
  · exact absurd (h.plainly _ hmem) (by unfold Plainly; decide)
  · exact absurd (h.plainly _ hmem) (by unfold Plainly; decide)

/-- The text when its amounts are out of it as well. -/
def withoutAmounts (text : List Char) : List Char :=
  replaceAll amountPattern amountRedacted (withoutPhones text)

theorem no_phone (text a b : List Char) (h : withoutAmounts text = a ++ b) :
    phonePattern.paths (position a.reverse b) = [] := by
  by_contra hsome
  obtain ⟨x, rest, rfl, hmatch⟩ := exists_matches hsome
  have hx := matches_phone.mp hmatch
  have hopen : '[' ∉ x := fun hmem => absurd (hx.mem _ hmem) (by decide)
  have hclose : ']' ∉ x := fun hmem => absurd (hx.mem _ hmem) (by decide)
  obtain ⟨a', b', h', -⟩ := free_of_replaceAll proper_amount
    (apart_amountRedacted hx.exists_digit hopen hclose) h
  obtain ⟨a'', b'', -, hnone⟩ := free_of_replaceAll proper_phone
    (apart_phoneRedacted hx.exists_digit hopen hclose) h'
  have hne : x ≠ [] := by
    obtain ⟨c, hc, -⟩ := hx.exists_digit
    exact List.ne_nil_of_mem hc
  exact (matches_phone.mpr hx).ne_nil (hnone [] x rfl hne)

/-- What the replacements leave has no amount that was not there before. -/
theorem no_amount (text a b : List Char) (h : withoutAmounts text = a ++ b) :
    amountPattern.paths (position a.reverse b) = [] := by
  by_contra hsome
  obtain ⟨x, rest, rfl, hmatch⟩ := exists_matches hsome
  obtain ⟨hx, hstart, hfinish⟩ := matches_amount.mp hmatch
  obtain ⟨a', b', A, C, -, ha, hkept, hb, rfl, rfl⟩ := exists_origin proper_amount (apart_amount hx) h
  have hhead (b : List Char) : (x ++ b).head?.any isWord = true := by
    rw [List.head?_append_of_ne_nil _ hx.ne_nil]
    exact hx.head?
  have hlast (a : List Char) : (x.reverse ++ a).head?.any isWord = true := by
    rw [List.head?_append_of_ne_nil _ (mt List.reverse_eq_nil_iff.mp hx.ne_nil), List.head?_reverse]
    exact hx.getLast?
  have hleft := @Scan.getLast?_written _ _ _ amountRedacted _ _ _ _ wordEdged_amount ha (hhead b')
  have hright := @Scan.head?_written _ _ _ amountRedacted _ _ _ _ wordEdged_amount hb (hlast _)
  have hmatch' : Matches amountPattern a'.reverse x b' := by
    refine matches_amount.mpr ⟨hx, ?_, ?_⟩
    · unfold Edge at hstart ⊢
      rw [hhead, List.head?_reverse, hleft] at hstart
      rwa [hhead, List.head?_reverse]
    · unfold Edge at hfinish ⊢
      rw [hlast, hright] at hfinish
      rwa [hlast]
  exact hmatch'.ne_nil (hkept.kept.2 [] x rfl hx.ne_nil)

theorem no_otp (text a b : List Char) (h : withoutAmounts text = a ++ b) :
    otpPattern.paths (position a.reverse b) = [] := by
  by_contra hsome
  obtain ⟨x, rest, rfl, hmatch⟩ := exists_matches hsome
  obtain ⟨⟨hlength, hdigits⟩, hstart, hfinish⟩ := matches_otp.mp hmatch
  have hx : IsAmount x := ⟨[], x, .inl rfl, .inr (.inr ⟨by omega, hdigits⟩), rfl⟩
  exact (matches_amount.mpr ⟨hx, hstart, hfinish⟩).ne_nil (no_amount text a (x ++ rest) h)

/-- There is never a code left for the third replacement. -/
theorem redacted_eq (text : List Char) : redacted text = withoutAmounts text :=
  replaceAll_of_none otpRedacted (no_otp text)

theorem redacted_redacted (text : List Char) : redacted (redacted text) = redacted text := by
  have hphones : withoutPhones (withoutAmounts text) = withoutAmounts text :=
    replaceAll_of_none phoneRedacted (no_phone text)
  rw [redacted_eq, redacted_eq, withoutAmounts, hphones]
  exact replaceAll_of_none amountRedacted (no_amount text)

end passes

/-- Five or more digits in a row. -/
def LongRun (x : List Char) : Prop := 5 ≤ x.length ∧ Digits x

/-- An amount of a thousand or more in groups of three. -/
def GroupedAmount (x : List Char) : Prop :=
  IsGrouped x ∧ 1000 ≤ Nat.ofDigitChars 10 (x.filter Char.isDigit) 0

def NoDigitAt (before after : Option Char) : Prop :=
  before.any Char.isDigit = false ∧ after.any Char.isDigit = false

structure Discreet (text : List Char) : Prop where
  runs : ∀ a x b, text = a ++ (x ++ b) → ¬ LongRun x
  amounts : ∀ a x b, text = a ++ (x ++ b) → NoDigitAt a.getLast? b.head? → ¬ GroupedAmount x

/-- The part `x` shares a character with an amount that goes from one edge of a word to another. -/
def Recognised (a x b : List Char) : Prop :=
  ∃ before y after, a ++ (x ++ b) = before ++ (y ++ after) ∧
    (IsAmount y ∧ Edge before.reverse (y ++ after) ∧ Edge (y.reverse ++ before.reverse) after) ∧
    a.length < before.length + y.length ∧ before.length < a.length + x.length

section discretion
variable {x a b text : List Char}

theorem touched_iff : Touched amountPattern a x b ↔ Recognised a x b := by
  unfold Touched Recognised
  simp only [matches_amount]

/-- A part of digits and commas with digits at its ends is left exactly where it is not
recognised. -/
theorem left_iff_recognised (hhead : x.head?.any Char.isDigit = true)
    (hlast : x.getLast?.any Char.isDigit = true) (hx : ∀ c ∈ x, c.isDigit = true ∨ c = ',')
    (P : Option Char → Option Char → Prop) :
    (∃ a b, redacted text = a ++ (x ++ b) ∧ P a.getLast? b.head?) ↔
      ∃ a b, withoutPhones text = a ++ (x ++ b) ∧ P a.getLast? b.head? ∧ ¬ Recognised a x b := by
  have hdigit : ∃ c ∈ x, c.isDigit = true := by
    cases x with
    | nil => cases hhead
    | cons c x => exact ⟨c, List.mem_cons_self, hhead⟩
  have hapart : Apart amountRedacted x := apart_amountRedacted hdigit
    (fun hmem => absurd (hx _ hmem) (by decide)) fun hmem => absurd (hx _ hmem) (by decide)
  rw [redacted_eq]
  refine (left_iff proper_amount covering_amount wordEdged_amount hapart
    (any_isWord_of_isDigit hhead) (any_isWord_of_isDigit hlast) P).trans ?_
  simp only [touched_iff]

theorem LongRun.ends (h : LongRun x) :
    x.head?.any Char.isDigit = true ∧ x.getLast?.any Char.isDigit = true := by
  have hne : x ≠ [] := by
    rintro rfl
    exact absurd h.1 (by decide)
  refine ⟨?_, digits_getLast? hne h.2⟩
  obtain ⟨c, x, rfl⟩ := List.exists_cons_of_ne_nil hne
  exact h.2 c List.mem_cons_self

theorem discreet_redacted_iff : Discreet (redacted text) ↔
    (∀ a x b, withoutPhones text = a ++ (x ++ b) → LongRun x → Recognised a x b) ∧
      ∀ a x b, withoutPhones text = a ++ (x ++ b) → NoDigitAt a.getLast? b.head? →
        GroupedAmount x → Recognised a x b := by
  constructor
  · intro h
    constructor
    · intro a x b htext hx
      by_contra hnot
      obtain ⟨a', b', hleft, -⟩ := (left_iff_recognised hx.ends.1 hx.ends.2
        (fun c hc => .inl (hx.2 c hc)) fun _ _ => True).mpr ⟨a, b, htext, trivial, hnot⟩
      exact h.runs a' x b' hleft hx
    · intro a x b htext hbare hx
      by_contra hnot
      obtain ⟨a', b', hleft, hbare'⟩ := (left_iff_recognised hx.1.head? hx.1.getLast? hx.1.mem
        NoDigitAt).mpr ⟨a, b, htext, hbare, hnot⟩
      exact h.amounts a' x b' hleft hbare' hx
  · intro ⟨hruns, hamounts⟩
    constructor
    · intro a' x b' hleft hx
      obtain ⟨a, b, htext, -, hnot⟩ := (left_iff_recognised hx.ends.1 hx.ends.2
        (fun c hc => .inl (hx.2 c hc)) fun _ _ => True).mp ⟨a', b', hleft, trivial⟩
      exact hnot (hruns a x b htext hx)
    · intro a' x b' hleft hbare hx
      obtain ⟨a, b, htext, hbare', hnot⟩ := (left_iff_recognised hx.1.head? hx.1.getLast? hx.1.mem
        NoDigitAt).mp ⟨a', b', hleft, hbare⟩
      exact hnot (hamounts a x b htext hbare' hx)

end discretion

theorem redactPii_some (text : String) :
    redactPii (some text) = String.ofList (redacted text.toList) := by
  unfold redactPii
  by_cases hempty : text = ""
  · subst hempty
    rfl
  · simp only [if_neg hempty]

/-- A trace is discreet, and stays as it is when it is redacted again, exactly if each long run of
digits and each grouped amount that is left without the phone numbers is recognised. -/
theorem redactPii_discreet_iff (text : String) :
    (Discreet (redactPii (some text)).toList ∧
      redactPii (some (redactPii (some text))) = redactPii (some text)) ↔
    (∀ a x b, withoutPhones text.toList = a ++ (x ++ b) → LongRun x → Recognised a x b) ∧
      ∀ a x b, withoutPhones text.toList = a ++ (x ++ b) → NoDigitAt a.getLast? b.head? →
        GroupedAmount x → Recognised a x b := by
  have hagain : redactPii (some (redactPii (some text))) = redactPii (some text) := by
    rw [redactPii_some, redactPii_some, String.toList_ofList, redacted_redacted]
  rw [and_iff_left hagain, redactPii_some, String.toList_ofList]
  exact discreet_redacted_iff

/-- Digits after a letter are no amount for the pattern, which asks for the edge of a word. -/
theorem letter_hides_digits :
    ¬ (Discreet (redactPii (some "a12345")).toList ∧
      redactPii (some (redactPii (some "a12345"))) = redactPii (some "a12345")) := by
  intro h
  have hsame : (redactPii (some "a12345")).toList = ['a'] ++ (['1', '2', '3', '4', '5'] ++ []) := by
    rw [redactPii_some, String.toList_ofList]
    decide +kernel
  exact h.1.runs ['a'] ['1', '2', '3', '4', '5'] [] hsame
    ⟨by decide, forall_mem_of_all (by decide)⟩

end Akabbo.RedactedTraces
