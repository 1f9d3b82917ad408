import Akabbo.GlobalReplacement
import Akabbo.TextPatterns

/-!
# Phone numbers, amounts and codes in a text

The patterns that a trace is redacted by, what they read, and which match of an amount they prefer.
-/
namespace Akabbo.RedactionPatterns
open RegularExpressions GlobalReplacement TextPatterns

/-- `/(\+?256|0)[7-9]\d{8}/g`. -/
def phonePattern : Regex Char :=
  Regex.all [Regex.any [Regex.all [(sign '+').optional, sign '2', sign '5', sign '6'], sign '0'],
    .one fun c => c == '7' || c == '8' || c == '9', times digit 8]

/-- `\d{1,3}(,\d{3})+`. -/
def groupedPattern : Regex Char :=
  .seq (counted digit 1 3) (Regex.seq (sign ',') (times digit 3)).plus

def currencyPattern : Regex Char := (Regex.seq (literal "ugx") (.star false space)).optional

def numberPattern : Regex Char :=
  Regex.any [groupedPattern, .seq digit.plus (letter 'k'), .seq digit.plus (letter 'm'),
    counted digit 5 9]

/-- `/\b(UGX\s*)?(\d{1,3}(,\d{3})+|\d+k|\d+m|\d{5,9})\b/gi`. -/
def amountPattern : Regex Char := Regex.all [bound, currencyPattern, numberPattern, bound]

/-- `/\b\d{6}\b/g`. -/
def otpPattern : Regex Char := Regex.all [bound, times digit 6, bound]

def Digits (x : List Char) : Prop := ∀ c ∈ x, c.isDigit = true

/-- A comma and three digits. -/
def IsGroup (x : List Char) : Prop := ∃ h, h.length = 3 ∧ Digits h ∧ x = ',' :: h

/-- One to three digits and groups of three behind commas. -/
def IsGrouped (x : List Char) : Prop :=
  ∃ g groups, (1 ≤ g.length ∧ g.length ≤ 3) ∧ Digits g ∧ groups ≠ [] ∧
    (∀ h ∈ groups, IsGroup h) ∧ x = g ++ groups.flatten

/-- Digits with a k or an m. -/
def IsSuffixed (x : List Char) : Prop :=
  ∃ g c, g ≠ [] ∧ Digits g ∧ (c.toLower = 'k' ∨ c.toLower = 'm') ∧ x = g ++ [c]

def IsPlain (x : List Char) : Prop := (5 ≤ x.length ∧ x.length ≤ 9) ∧ Digits x

def IsNumber (x : List Char) : Prop := IsGrouped x ∨ IsSuffixed x ∨ IsPlain x

/-- The name of the currency, with white space after it. -/
def IsCurrency (x : List Char) : Prop :=
  ∃ w s, w.map Char.toLower = ['u', 'g', 'x'] ∧ (∀ c ∈ s, isSpace c = true) ∧ x = w ++ s

def IsAmount (x : List Char) : Prop := ∃ u n, (u = [] ∨ IsCurrency u) ∧ IsNumber n ∧ x = u ++ n

/-- A word ends or starts here, or none goes on. -/
def Edge (before after : List Char) : Prop := before.head?.any isWord ≠ after.head?.any isWord

section paths
variable {c d : Cursor Char} {before x after : List Char}

theorem mem_digits {n : ℕ} : d ∈ (times digit n).paths c ↔
    ∃ x, x.length = n ∧ Digits x ∧ Reads x c d := mem_times

theorem mem_group : d ∈ (Regex.seq (sign ',') (times digit 3)).paths c ↔
    ∃ x, IsGroup x ∧ Reads x c d := by
  rw [mem_seq]
  constructor
  · rintro ⟨e, he, hd⟩
    obtain ⟨h, hlength, hdigits, hrest⟩ := mem_digits.mp hd
    exact ⟨',' :: h, ⟨h, hlength, hdigits, rfl⟩, (mem_sign.mp he).trans hrest⟩
  · rintro ⟨x, ⟨h, hlength, hdigits, rfl⟩, hreads⟩
    obtain ⟨e, hfirst, hrest⟩ := Reads.split (x := [',']) (y := h) hreads
    exact ⟨e, mem_sign.mpr hfirst, mem_digits.mpr ⟨h, hlength, hdigits, hrest⟩⟩

theorem IsGroup.ne_nil (h : IsGroup x) : x ≠ [] := by
  obtain ⟨h, -, -, rfl⟩ := h
  exact List.cons_ne_nil _ _

theorem mem_groups : d ∈ (Regex.seq (sign ',') (times digit 3)).plus.paths c ↔
    ∃ groups, groups ≠ [] ∧ (∀ h ∈ groups, IsGroup h) ∧ Reads groups.flatten c d := by
  rw [Regex.plus, mem_seq]
  constructor
  · rintro ⟨e, he, hd⟩
    obtain ⟨h, hh, hfirst⟩ := mem_group.mp he
    obtain ⟨groups, hgroups, hrest⟩ :=
      (mem_star (fun _ _ => mem_group) fun _ => IsGroup.ne_nil).mp hd
    exact ⟨h :: groups, List.cons_ne_nil _ _, List.forall_mem_cons.mpr ⟨hh, hgroups⟩,
      hfirst.trans hrest⟩
  · rintro ⟨groups, hne, hgroups, hreads⟩
    obtain ⟨h, groups, rfl⟩ := List.exists_cons_of_ne_nil hne
    obtain ⟨hh, hgroups⟩ := List.forall_mem_cons.mp hgroups
    obtain ⟨e, hfirst, hrest⟩ := Reads.split (x := h) (y := groups.flatten) hreads
    exact ⟨e, mem_group.mpr ⟨h, hh, hfirst⟩,
      (mem_star (fun _ _ => mem_group) fun _ => IsGroup.ne_nil).mpr ⟨groups, hgroups, hrest⟩⟩

theorem mem_grouped : d ∈ groupedPattern.paths c ↔ ∃ x, IsGrouped x ∧ Reads x c d := by
  rw [groupedPattern, mem_seq]
  constructor
  · rintro ⟨e, he, hd⟩
    obtain ⟨g, hlength, hdigits, hfirst⟩ := (mem_counted (by decide)).mp he
    obtain ⟨groups, hne, hgroups, hrest⟩ := mem_groups.mp hd
    exact ⟨_, ⟨g, groups, hlength, hdigits, hne, hgroups, rfl⟩, hfirst.trans hrest⟩
  · rintro ⟨x, ⟨g, groups, hlength, hdigits, hne, hgroups, rfl⟩, hreads⟩
    obtain ⟨e, hfirst, hrest⟩ := hreads.split
    exact ⟨e, (mem_counted (by decide)).mpr ⟨g, hlength, hdigits, hfirst⟩,
      mem_groups.mpr ⟨groups, hne, hgroups, hrest⟩⟩

theorem mem_suffixed {a : Char} : d ∈ (Regex.seq digit.plus (letter a)).paths c ↔
    ∃ g b, g ≠ [] ∧ Digits g ∧ b.toLower = a ∧ Reads (g ++ [b]) c d := by
  rw [mem_seq]
  constructor
  · rintro ⟨e, he, hd⟩
    obtain ⟨g, hne, hdigits, hfirst⟩ := mem_plus_one.mp he
    obtain ⟨b, hb, hrest⟩ := mem_letter.mp hd
    exact ⟨g, b, hne, hdigits, hb, hfirst.trans hrest⟩
  · rintro ⟨g, b, hne, hdigits, hb, hreads⟩
    obtain ⟨e, hfirst, hrest⟩ := hreads.split
    exact ⟨e, mem_plus_one.mpr ⟨g, hne, hdigits, hfirst⟩, mem_letter.mpr ⟨b, hb, hrest⟩⟩

theorem mem_plain : d ∈ (counted digit 5 9).paths c ↔ ∃ x, IsPlain x ∧ Reads x c d := by
  refine (mem_counted (by decide)).trans ?_
  exact exists_congr fun x => and_assoc.symm

theorem mem_number : d ∈ numberPattern.paths c ↔ ∃ x, IsNumber x ∧ Reads x c d := by
  simp only [numberPattern, Regex.any, mem_alt, mem_grouped, mem_suffixed, mem_plain]
  constructor
  · rintro (⟨x, hx, hreads⟩ | ⟨g, b, hne, hdigits, hb, hreads⟩ |
      ⟨g, b, hne, hdigits, hb, hreads⟩ | ⟨x, hx, hreads⟩)
    · exact ⟨x, .inl hx, hreads⟩
    · exact ⟨_, .inr (.inl ⟨g, b, hne, hdigits, .inl hb, rfl⟩), hreads⟩
    · exact ⟨_, .inr (.inl ⟨g, b, hne, hdigits, .inr hb, rfl⟩), hreads⟩
    · exact ⟨x, .inr (.inr hx), hreads⟩
  · rintro ⟨x, hx | ⟨g, b, hne, hdigits, hb | hb, rfl⟩ | hx, hreads⟩
    · exact .inl ⟨x, hx, hreads⟩
    · exact .inr (.inl ⟨g, b, hne, hdigits, hb, hreads⟩)
    · exact .inr (.inr (.inl ⟨g, b, hne, hdigits, hb, hreads⟩))
    · exact .inr (.inr (.inr ⟨x, hx, hreads⟩))

theorem mem_currency : d ∈ currencyPattern.paths c ↔
    ∃ x, (x = [] ∨ IsCurrency x) ∧ Reads x c d := by
  simp only [currencyPattern, mem_optional, mem_seq, mem_literal]
  constructor
  · rintro (⟨e, ⟨w, hw, hfirst⟩, hd⟩ | rfl)
    · obtain ⟨s, hs, hrest⟩ := mem_star_one.mp hd
      exact ⟨w ++ s, .inr ⟨w, s, hw, hs, rfl⟩, hfirst.trans hrest⟩
    · exact ⟨[], .inl rfl, reads_nil.mpr rfl⟩
  · rintro ⟨x, rfl | ⟨w, s, hw, hs, rfl⟩, hreads⟩
    · exact .inr (reads_nil.mp hreads)
    · obtain ⟨e, hfirst, hrest⟩ := hreads.split
      exact .inl ⟨e, ⟨w, hw, hfirst⟩, mem_star_one.mpr ⟨s, hs, hrest⟩⟩

theorem mem_bound : d ∈ bound.paths c ↔ Edge c.before c.after ∧ d = c := mem_boundary

/-- The pattern for amounts reads an amount from one edge of a word to another. -/
theorem mem_amount : d ∈ amountPattern.paths c ↔
    ∃ x, IsAmount x ∧ Reads x c d ∧ Edge c.before c.after ∧ Edge d.before d.after := by
  change d ∈ (Regex.seq bound (.seq currencyPattern (.seq numberPattern bound))).paths c ↔ _
  simp only [mem_seq, mem_bound, mem_currency, mem_number]
  constructor
  · rintro ⟨e, ⟨hstart, rfl⟩, f, ⟨u, hu, hfirst⟩, g, ⟨n, hn, hrest⟩, hfinish, rfl⟩
    exact ⟨u ++ n, ⟨u, n, hu, hn, rfl⟩, hfirst.trans hrest, hstart, hfinish⟩
  · rintro ⟨x, ⟨u, n, hu, hn, rfl⟩, hreads, hstart, hfinish⟩
    obtain ⟨e, hfirst, hrest⟩ := hreads.split
    exact ⟨c, ⟨hstart, rfl⟩, e, ⟨u, hu, hfirst⟩, d, ⟨n, hn, hrest⟩, hfinish, rfl⟩

theorem mem_otp : d ∈ otpPattern.paths c ↔ ∃ x, x.length = 6 ∧ Digits x ∧ Reads x c d ∧
    Edge c.before c.after ∧ Edge d.before d.after := by
  change d ∈ (Regex.seq bound (.seq (times digit 6) bound)).paths c ↔ _
  simp only [mem_seq, mem_bound, mem_digits]
  constructor
  · rintro ⟨e, ⟨hstart, rfl⟩, f, ⟨x, hlength, hx, hreads⟩, hfinish, rfl⟩
    exact ⟨x, hlength, hx, hreads, hstart, hfinish⟩
  · rintro ⟨x, hlength, hx, hreads, hstart, hfinish⟩
    exact ⟨c, ⟨hstart, rfl⟩, d, ⟨x, hlength, hx, hreads⟩, hfinish, rfl⟩

theorem matches_amount : Matches amountPattern before x after ↔
    IsAmount x ∧ Edge before (x ++ after) ∧ Edge (x.reverse ++ before) after := by
  constructor
  · rintro ⟨d, hd, rfl⟩
    obtain ⟨y, hy, hreads, hstart, hfinish⟩ := mem_amount.mp hd
    have hsame : y = x := (List.append_cancel_right hreads.after).symm
    subst hsame
    rw [hreads.before] at hfinish
    exact ⟨hy, hstart, hfinish⟩
  · rintro ⟨hx, hstart, hfinish⟩
    exact ⟨_, mem_amount.mpr ⟨x, hx, reads_append before x after _, hstart, hfinish⟩, rfl⟩

theorem matches_otp : Matches otpPattern before x after ↔
    (x.length = 6 ∧ Digits x) ∧ Edge before (x ++ after) ∧ Edge (x.reverse ++ before) after := by
  constructor
  · rintro ⟨d, hd, rfl⟩
    obtain ⟨y, hlength, hy, hreads, hstart, hfinish⟩ := mem_otp.mp hd
    have hsame : y = x := (List.append_cancel_right hreads.after).symm
    subst hsame
    rw [hreads.before] at hfinish
    exact ⟨⟨hlength, hy⟩, hstart, hfinish⟩
  · rintro ⟨⟨hlength, hx⟩, hstart, hfinish⟩
    exact ⟨_, mem_otp.mpr ⟨x, hlength, hx, reads_append before x after _, hstart, hfinish⟩, rfl⟩

end paths

section characters
variable {c : Char} {x : List Char}

theorem toNat_of_toLower {a : Char} (ha : 97 ≤ a.toNat ∧ a.toNat ≤ 122) (h : c.toLower = a) :
    65 ≤ c.toNat ∧ c.toNat ≤ 90 ∨ 97 ≤ c.toNat ∧ c.toNat ≤ 122 := by
  rcases toNat_toLower c with hsame | hupper
  · rw [h] at hsame
    omega
  · omega

theorem isWord_of_toLower {a : Char} (ha : 97 ≤ a.toNat ∧ a.toNat ≤ 122) (h : c.toLower = a) :
    isWord c = true := by
  have hrange := toNat_of_toLower ha h
  rw [isWord_iff]
  omega

theorem isDigit_of_toLower {a : Char} (ha : 97 ≤ a.toNat ∧ a.toNat ≤ 122) (h : c.toLower = a) :
    c.isDigit = false := by
  have hrange := toNat_of_toLower ha h
  rw [Bool.eq_false_iff]
  intro hdigit
  have := toNat_of_isDigit hdigit
  omega

theorem isWord_of_suffix (h : c.toLower = 'k' ∨ c.toLower = 'm') : isWord c = true := by
  rcases h with h | h
  · exact isWord_of_toLower (by decide) h
  · exact isWord_of_toLower (by decide) h

theorem isDigit_of_suffix (h : c.toLower = 'k' ∨ c.toLower = 'm') : c.isDigit = false := by
  rcases h with h | h
  · exact isDigit_of_toLower (by decide) h
  · exact isDigit_of_toLower (by decide) h

/-- What may stand in an amount. -/
def Plainly (c : Char) : Prop := isWord c = true ∨ isSpace c = true ∨ c = ','

theorem IsGroup.mem (h : IsGroup x) : ∀ c ∈ x, c.isDigit = true ∨ c = ',' := by
  obtain ⟨h, -, hdigits, rfl⟩ := h
  intro c hc
  rcases List.mem_cons.mp hc with rfl | hc
  · exact .inr rfl
  · exact .inl (hdigits c hc)

theorem IsGrouped.mem (h : IsGrouped x) : ∀ c ∈ x, c.isDigit = true ∨ c = ',' := by
  obtain ⟨g, groups, -, hdigits, -, hgroups, rfl⟩ := h
  intro c hc
  rcases List.mem_append.mp hc with hc | hc
  · exact .inl (hdigits c hc)
  · obtain ⟨h, hh, hc⟩ := List.mem_flatten.mp hc
    exact (hgroups h hh).mem c hc

theorem IsNumber.plainly (h : IsNumber x) : ∀ c ∈ x, isWord c = true ∨ c = ',' := by
  intro c hc
  rcases h with h | ⟨g, a, -, hdigits, ha, rfl⟩ | ⟨-, hdigits⟩
  · exact (h.mem c hc).imp isWord_of_isDigit id
  · rcases List.mem_append.mp hc with hc | hc
    · exact .inl (isWord_of_isDigit (hdigits c hc))
    · rw [List.mem_singleton.mp hc]
      exact .inl (isWord_of_suffix ha)
  · exact .inl (isWord_of_isDigit (hdigits c hc))

theorem range_of_ugx (hx : x.map Char.toLower = ['u', 'g', 'x']) (hc : c ∈ x) :
    97 ≤ c.toLower.toNat ∧ c.toLower.toNat ≤ 122 := by
  have hlower : c.toLower ∈ ['u', 'g', 'x'] := hx ▸ List.mem_map_of_mem hc
  exact forall_mem_of_all (p := fun a => 97 ≤ a.toNat ∧ a.toNat ≤ 122) (by decide) _ hlower

theorem IsCurrency.isWord_or_isSpace (h : IsCurrency x) :
    ∀ c ∈ x, isWord c = true ∨ isSpace c = true := by
  obtain ⟨w, s, hw, hs, rfl⟩ := h
  intro c hc
  rcases List.mem_append.mp hc with hc | hc
  · exact .inl (isWord_of_toLower (range_of_ugx hw hc) rfl)
  · exact .inr (hs c hc)

theorem IsAmount.plainly (h : IsAmount x) : ∀ c ∈ x, Plainly c := by
  obtain ⟨u, n, hu, hn, rfl⟩ := h
  intro c hc
  rcases List.mem_append.mp hc with hc | hc
  · rcases hu with rfl | hu
    · cases hc
    · rcases hu.isWord_or_isSpace c hc with h | h
      · exact .inl h
      · exact .inr (.inl h)
  · rcases hn.plainly c hc with h | h
    · exact .inl h
    · exact .inr (.inr h)

/-- A number starts with a digit. -/
theorem IsNumber.exists_digit (h : IsNumber x) : ∃ d rest, x = d :: rest ∧ d.isDigit = true := by
  rcases h with ⟨g, groups, hlength, hdigits, -, -, rfl⟩ | ⟨g, a, hne, hdigits, -, rfl⟩ |
    ⟨hlength, hdigits⟩
  · obtain ⟨d, g, rfl⟩ := List.exists_cons_of_ne_nil (l := g) (by rintro rfl; simp at hlength)
    exact ⟨d, _, rfl, hdigits d List.mem_cons_self⟩
  · obtain ⟨d, g, rfl⟩ := List.exists_cons_of_ne_nil hne
    exact ⟨d, _, rfl, hdigits d List.mem_cons_self⟩
  · obtain ⟨d, x, rfl⟩ := List.exists_cons_of_ne_nil (l := x) (by rintro rfl; simp at hlength)
    exact ⟨d, _, rfl, hdigits d List.mem_cons_self⟩

theorem IsGroup.getLast? (h : IsGroup x) : x.getLast?.any Char.isDigit = true := by
  obtain ⟨h, hlength, hdigits, rfl⟩ := h
  have hne : h ≠ [] := by
    rintro rfl
    cases hlength
  rw [List.getLast?_cons, Option.any_some, List.getLast?_eq_some_getLast hne]
  exact hdigits _ (List.getLast_mem hne)

theorem digits_getLast? (hne : x ≠ []) (h : Digits x) : x.getLast?.any Char.isDigit = true := by
  rw [List.getLast?_eq_some_getLast hne, Option.any_some]
  exact h _ (List.getLast_mem hne)

theorem any_isWord_of_isDigit {a : Option Char} (h : a.any Char.isDigit = true) :
    a.any isWord = true := by
  cases a with
  | none => cases h
  | some a => exact isWord_of_isDigit h

theorem IsGrouped.getLast? (h : IsGrouped x) : x.getLast?.any Char.isDigit = true := by
  obtain ⟨g, groups, -, -, hne, hgroups, rfl⟩ := h
  rcases List.eq_nil_or_concat groups with hnil | ⟨groups, h, rfl⟩
  · exact absurd hnil hne
  · rw [List.concat_eq_append] at hgroups ⊢
    have hh := hgroups h (by simp)
    rw [List.flatten_append, List.flatten_singleton, ← List.append_assoc,
      List.getLast?_append_of_ne_nil _ hh.ne_nil]
    exact hh.getLast?

/-- A number ends within a word. -/
theorem IsNumber.getLast? (h : IsNumber x) : x.getLast?.any isWord = true := by
  rcases h with h | ⟨g, a, -, -, ha, rfl⟩ | ⟨hlength, hdigits⟩
  · exact any_isWord_of_isDigit h.getLast?
  · rw [List.getLast?_concat]
    exact isWord_of_suffix ha
  · exact any_isWord_of_isDigit (digits_getLast? (by rintro rfl; simp at hlength) hdigits)

theorem IsGrouped.head? (h : IsGrouped x) : x.head?.any Char.isDigit = true := by
  obtain ⟨d, rest, rfl, hd⟩ := IsNumber.exists_digit (.inl h)
  exact hd

theorem IsAmount.head? (h : IsAmount x) : x.head?.any isWord = true := by
  obtain ⟨u, n, rfl | ⟨w, s, hw, hs, rfl⟩, hn, rfl⟩ := h
  · obtain ⟨d, rest, rfl, hd⟩ := hn.exists_digit
    exact isWord_of_isDigit hd
  · obtain ⟨a, w, rfl⟩ := List.exists_cons_of_ne_nil (l := w) (by rintro rfl; cases hw)
    exact isWord_of_toLower (a := 'u') (by decide) (List.cons.inj hw).1

theorem IsAmount.getLast? (h : IsAmount x) : x.getLast?.any isWord = true := by
  obtain ⟨u, n, -, hn, rfl⟩ := h
  have hne : n ≠ [] := by
    obtain ⟨d, rest, rfl, -⟩ := hn.exists_digit
    exact List.cons_ne_nil _ _
  rw [List.getLast?_append_of_ne_nil _ hne]
  exact hn.getLast?

theorem IsAmount.exists_digit (h : IsAmount x) : ∃ d ∈ x, d.isDigit = true := by
  obtain ⟨u, n, -, hn, rfl⟩ := h
  obtain ⟨d, rest, rfl, hd⟩ := hn.exists_digit
  exact ⟨d, by simp, hd⟩

theorem IsAmount.ne_nil (h : IsAmount x) : x ≠ [] := by
  obtain ⟨d, hd, -⟩ := h.exists_digit
  exact List.ne_nil_of_mem hd

end characters

theorem proper_amount : Proper amountPattern := by
  intro before after h
  exact (matches_amount.mp h).1.ne_nil rfl

theorem wordEdged_amount : WordEdged amountPattern isWord where
  first h := (matches_amount.mp h).1.head?
  last h := (matches_amount.mp h).1.getLast?
  start := by
    intro before x after h
    obtain ⟨hx, hstart, -⟩ := matches_amount.mp h
    unfold Edge at hstart
    rw [List.head?_append_of_ne_nil _ hx.ne_nil, hx.head?] at hstart
    simpa using hstart
  finish := by
    intro before x after h
    obtain ⟨hx, -, hfinish⟩ := matches_amount.mp h
    unfold Edge at hfinish
    rw [List.head?_append_of_ne_nil _ (by simpa using hx.ne_nil), List.head?_reverse,
      hx.getLast?] at hfinish
    simpa using hfinish.symm

section longest
variable {c d e : Cursor Char} {x y g rest : List Char} {b : Char}

/-- Where a shorter reading stops within a run, the run goes on. -/
theorem head?_of_longer {p : Char → Prop} (hx : ∀ a ∈ x, p a) (hd : Reads x c d) (he : Reads y c e)
    (hlt : d.after.length < e.after.length) : ∃ a, e.after.head? = some a ∧ p a := by
  have hsame : x ++ d.after = y ++ e.after := hd.after.symm.trans he.after
  rcases List.append_eq_append_iff.mp hsame with ⟨w, -, hw⟩ | ⟨w, rfl, hw⟩
  · rw [hw, List.length_append] at hlt
    omega
  · cases w with
    | nil =>
      rw [List.nil_append] at hw
      rw [hw] at hlt
      omega
    | cons a w =>
      rw [hw]
      exact ⟨a, rfl, hx a (by simp)⟩

theorem takeWhile_digits (hg : Digits g) (hb : b.isDigit = false) :
    (g ++ b :: rest).takeWhile Char.isDigit = g := by
  rw [List.takeWhile_append_of_pos hg, List.takeWhile_cons_of_neg (by simp [hb]), List.append_nil]

theorem dropWhile_digits (hg : Digits g) (hb : b.isDigit = false) :
    (g ++ b :: rest).dropWhile Char.isDigit = b :: rest := by
  rw [List.dropWhile_append_of_pos hg, List.dropWhile_cons_of_neg (by simp [hb])]

theorem length_le_takeWhile (hx : Digits x) :
    x.length ≤ ((x ++ rest).takeWhile Char.isDigit).length := by
  rw [List.takeWhile_append_of_pos hx, List.length_append]
  omega

/-- The groups of a number start with a comma. -/
theorem exists_comma {groups : List (List Char)} (hne : groups ≠ [])
    (hgroups : ∀ h ∈ groups, IsGroup h) : ∃ tail, groups.flatten = ',' :: tail := by
  obtain ⟨h, groups, rfl⟩ := List.exists_cons_of_ne_nil hne
  obtain ⟨h, -, -, rfl⟩ := hgroups h List.mem_cons_self
  exact ⟨_, rfl⟩

theorem longestFirst_digits (c : Cursor Char) : LongestFirst (digit.plus.paths c) :=
  longestFirst_seq_of_le_one (length_paths_one _ c)
    fun d _ => longestFirst_star (length_paths_one _) d

theorem longestFirst_grouped (c : Cursor Char) : LongestFirst (groupedPattern.paths c) := by
  have hgroup (c : Cursor Char) : ((Regex.seq (sign ',') (times digit 3)).paths c).length ≤ 1 :=
    length_paths_seq (length_paths_one _) (length_paths_times (length_paths_one _) 3) c
  refine longestFirst_seq (longestFirst_counted _ 1 3 c) (fun d _ => ?_) ?_
  · exact longestFirst_seq_of_le_one (hgroup d) fun e _ => longestFirst_star hgroup e
  · intro d hd e he hlt _ _ y hy
    obtain ⟨g, -, hg, hread⟩ := (mem_counted (by decide)).mp hd
    obtain ⟨g', -, -, hread'⟩ := (mem_counted (by decide)).mp he
    obtain ⟨a, ha, hdigit⟩ := head?_of_longer hg hread hread' hlt
    obtain ⟨groups, hne, hgroups, hrest⟩ := mem_groups.mp hy
    obtain ⟨tail, htail⟩ := exists_comma hne hgroups
    rw [hrest.after, htail] at ha
    obtain rfl : ',' = a := Option.some.inj ha
    exact absurd hdigit (by decide)

theorem longestFirst_suffixed {a : Char} (ha : 97 ≤ a.toNat ∧ a.toNat ≤ 122) (c : Cursor Char) :
    LongestFirst ((Regex.seq digit.plus (letter a)).paths c) := by
  refine longestFirst_seq (longestFirst_digits c)
    (fun d _ => longestFirst_of_le_one (length_paths_one _ d)) ?_
  intro d hd e he hlt _ _ y hy
  obtain ⟨g, -, hg, hread⟩ := mem_plus_one.mp hd
  obtain ⟨g', -, -, hread'⟩ := mem_plus_one.mp he
  obtain ⟨b, hb, hdigit⟩ := head?_of_longer hg hread hread' hlt
  obtain ⟨b', hlower, hrest⟩ := mem_letter.mp hy
  rw [hrest.after] at hb
  obtain rfl : b' = b := Option.some.inj hb
  rw [isDigit_of_toLower ha hlower] at hdigit
  cases hdigit

/-- A number with a suffix ends the run of digits that it starts with. -/
theorem suffixed_run (hg : Digits g) (hb : b.isDigit = false) (h : Reads (g ++ [b]) c d) :
    c.after.takeWhile Char.isDigit = g ∧ c.after.dropWhile Char.isDigit = b :: d.after := by
  rw [h.after, List.append_assoc]
  exact ⟨takeWhile_digits hg hb, dropWhile_digits hg hb⟩

theorem grouped_run (hx : IsGrouped x) (h : Reads x c d) : ∃ tail,
    (c.after.takeWhile Char.isDigit).length ≤ 3 ∧ c.after.dropWhile Char.isDigit = ',' :: tail := by
  obtain ⟨g, groups, hlength, hdigits, hne, hgroups, rfl⟩ := hx
  obtain ⟨tail, htail⟩ := exists_comma hne hgroups
  have hafter : c.after = g ++ ',' :: (tail ++ d.after) := by
    rw [h.after, htail, List.append_assoc]
    rfl
  rw [hafter, takeWhile_digits hdigits (by decide), dropWhile_digits hdigits (by decide)]
  exact ⟨_, hlength.2, rfl⟩

theorem plain_run (hx : IsPlain x) (h : Reads x c d) :
    x.length ≤ (c.after.takeWhile Char.isDigit).length := by
  rw [h.after]
  exact length_le_takeWhile hx.2

theorem longestFirst_number (c : Cursor Char) : LongestFirst (numberPattern.paths c) := by
  have hsuffixed {a : Char} (ha : 97 ≤ a.toNat ∧ a.toNat ≤ 122) {d : Cursor Char}
      (hd : d ∈ (Regex.seq digit.plus (letter a)).paths c) : ∃ g b, Digits g ∧ b.toLower = a ∧
        Reads (g ++ [b]) c d ∧ c.after.takeWhile Char.isDigit = g ∧
          c.after.dropWhile Char.isDigit = b :: d.after := by
    obtain ⟨g, b, -, hg, hb, hread⟩ := mem_suffixed.mp hd
    exact ⟨g, b, hg, hb, hread, suffixed_run hg (isDigit_of_toLower ha hb) hread⟩
  have hplain {a : Char} (ha : 97 ≤ a.toNat ∧ a.toNat ≤ 122) {d e : Cursor Char}
      (hd : d ∈ (Regex.seq digit.plus (letter a)).paths c) (he : e ∈ (counted digit 5 9).paths c) :
      d.after.length < e.after.length := by
    obtain ⟨g, b, hg, hb, hread, hrun, -⟩ := hsuffixed ha hd
    obtain ⟨x, hx, hread'⟩ := mem_plain.mp he
    have hle := plain_run hx hread'
    have hlength := congrArg List.length (hread.after.symm.trans hread'.after)
    rw [hrun] at hle
    simp only [List.length_append, List.length_singleton] at hlength
    omega
  refine longestFirst_alt (longestFirst_grouped c) (longestFirst_alt
    (longestFirst_suffixed (by decide) c) (longestFirst_alt (longestFirst_suffixed (by decide) c)
      (longestFirst_counted _ 5 9 c) fun d hd e he => hplain (by decide) hd he) ?_) ?_
  · intro d hd e he
    rcases mem_alt.mp he with he | he
    · obtain ⟨g, b, -, hb, -, -, hdrop⟩ := hsuffixed (by decide) hd
      obtain ⟨g', b', -, hb', -, -, hdrop'⟩ := hsuffixed (by decide) he
      rw [hdrop] at hdrop'
      rw [(List.cons.inj hdrop').1, hb'] at hb
      exact absurd hb (by decide)
    · exact hplain (by decide) hd he
  · intro d hd e he
    obtain ⟨x, hx, hread⟩ := mem_grouped.mp hd
    obtain ⟨tail, hrun, hdrop⟩ := grouped_run hx hread
    have hcomma {a : Char} (ha : 97 ≤ a.toNat ∧ a.toNat ≤ 122)
        (he : e ∈ (Regex.seq digit.plus (letter a)).paths c) : False := by
      obtain ⟨g, b, -, hb, -, -, hdrop'⟩ := hsuffixed ha he
      rw [hdrop] at hdrop'
      rw [← (List.cons.inj hdrop').1] at hb
      rw [← hb] at ha
      exact absurd ha (by decide)
    rcases mem_alt.mp he with he | he
    · exact (hcomma (by decide) he).elim
    · rcases mem_alt.mp he with he | he
      · exact (hcomma (by decide) he).elim
      · obtain ⟨y, hy, hread'⟩ := mem_plain.mp he
        have hle := plain_run hy hread'
        have hfive := hy.1.1
        omega

theorem IsCurrency.isDigit (h : IsCurrency x) : ∀ c ∈ x, c.isDigit = false := by
  obtain ⟨w, s, hw, hs, rfl⟩ := h
  intro c hc
  rcases List.mem_append.mp hc with hc | hc
  · exact isDigit_of_toLower (range_of_ugx hw hc) rfl
  · rw [Bool.eq_false_iff]
    intro hdigit
    have hspace := isSpace_of_isDigit hdigit
    rw [hs c hc] at hspace
    cases hspace

theorem longestFirst_currency (c : Cursor Char) : LongestFirst (currencyPattern.paths c) := by
  have hliteral (c : Cursor Char) : ((literal "ugx").paths c).length ≤ 1 :=
    length_paths_seq (length_paths_one _)
      (length_paths_seq (length_paths_one _) (length_paths_one _)) c
  refine longestFirst_alt (longestFirst_seq_of_le_one (hliteral c) fun d _ =>
    longestFirst_star (length_paths_one _) d) (longestFirst_of_le_one le_rfl) ?_
  intro d hd e he
  obtain rfl := mem_empty.mp he
  obtain ⟨f, hf, hd⟩ := mem_seq.mp hd
  obtain ⟨w, hw, hread⟩ := mem_literal.mp hf
  obtain ⟨s, hafter, -⟩ := paths_reads hd
  have hpos : 0 < w.length := by
    rw [List.length_pos_iff]
    rintro rfl
    cases hw
  rw [hread.after, hafter, List.length_append, List.length_append]
  omega

theorem longestFirst_amount (c : Cursor Char) : LongestFirst (amountPattern.paths c) := by
  refine longestFirst_seq_of_le_one (length_paths_boundary _ c) fun c _ => ?_
  refine longestFirst_seq (longestFirst_currency c) (fun d _ => ?_) ?_
  · refine longestFirst_seq (longestFirst_number d)
      (fun e _ => longestFirst_of_le_one (length_paths_boundary _ e)) ?_
    intro e _ f _ hlt x hx y hy
    rw [(mem_bound.mp hx).2, (mem_bound.mp hy).2]
    exact hlt
  · intro d hd e he hlt _ _ y hy
    obtain ⟨u, hu, hread⟩ := mem_currency.mp hd
    obtain ⟨u', -, hread'⟩ := mem_currency.mp he
    have hnone : ∀ a ∈ u, a.isDigit = false := by
      rcases hu with rfl | hu
      · simp
      · exact hu.isDigit
    obtain ⟨a, ha, hdigit⟩ := head?_of_longer hnone hread hread' hlt
    obtain ⟨f, hf, -⟩ := mem_seq.mp hy
    obtain ⟨n, hn, hrest⟩ := mem_number.mp hf
    obtain ⟨b, n, rfl, hb⟩ := hn.exists_digit
    rw [hrest.after] at ha
    rw [← Option.some.inj ha, hb] at hdigit
    cases hdigit

end longest

section within
variable {x y w : List Char}

/-- A part of the groups that ends with a comma ends before the digits of a group. -/
theorem groups_split {groups : List (List Char)} (hgroups : ∀ h ∈ groups, IsGroup h)
    (hsame : groups.flatten = x ++ y) (hlast : x.getLast? = some ',') :
    ∃ before h after, groups = before ++ (',' :: h) :: after ∧ (h.length = 3 ∧ Digits h) ∧
      x = before.flatten ++ [','] ∧ y = h ++ after.flatten := by
  induction groups generalizing x with
  | nil =>
    obtain ⟨rfl, -⟩ := List.append_eq_nil_iff.mp hsame.symm
    cases hlast
  | cons group groups ih =>
    obtain ⟨⟨h, hlength, hdigits, rfl⟩, hmore⟩ := List.forall_mem_cons.mp hgroups
    have hdigit (hmem : ',' ∈ h) : False := absurd (hdigits ',' hmem) (by decide)
    cases x with
    | nil => cases hlast
    | cons a x =>
      obtain ⟨rfl, hrest⟩ := List.cons.inj hsame
      change h ++ groups.flatten = x ++ y at hrest
      by_cases hx : x = []
      · subst hx
        exact ⟨[], h, groups, rfl, ⟨hlength, hdigits⟩, rfl, hrest.symm⟩
      · have hlast' : x.getLast? = some ',' := by
          rwa [List.getLast?_cons_of_ne_nil hx] at hlast
        rcases List.append_eq_append_iff.mp hrest with ⟨v, rfl, hv⟩ | ⟨v, rfl, -⟩
        · have hne : v ≠ [] := by
            rintro rfl
            rw [List.append_nil] at hlast'
            exact hdigit (List.mem_of_getLast? hlast')
          rw [List.getLast?_append_of_ne_nil _ hne] at hlast'
          obtain ⟨before, h', after, rfl, hh', rfl, rfl⟩ := ih hmore hv hlast'
          exact ⟨(',' :: h) :: before, h', after, rfl, hh', by simp, rfl⟩
        · exact (hdigit (List.mem_append_left _ (List.mem_of_getLast? hlast'))).elim

/-- What ends with a comma within a number ends before the digits of a group. -/
theorem number_split (h : IsNumber (x ++ y)) (hlast : x.getLast? = some ',') :
    ∃ (g : List Char) (before : List (List Char)) (k : List Char) (after : List (List Char)),
      ((1 ≤ g.length ∧ g.length ≤ 3) ∧ Digits g) ∧
      (∀ h ∈ before, IsGroup h) ∧ (∀ h ∈ after, IsGroup h) ∧ (k.length = 3 ∧ Digits k) ∧
      x = g ++ (before.flatten ++ [',']) ∧ y = k ++ after.flatten := by
  have hmem : ',' ∈ x ++ y := List.mem_append_left _ (List.mem_of_getLast? hlast)
  rcases h with ⟨g, groups, hlength, hdigits, hne, hgroups, hsame⟩ | ⟨g, a, -, hdigits, ha, hsame⟩ |
    ⟨-, hdigits⟩
  · have hcomma (hmem : ',' ∈ g) : False := absurd (hdigits ',' hmem) (by decide)
    rcases List.append_eq_append_iff.mp hsame with ⟨v, rfl, -⟩ | ⟨v, rfl, hv⟩
    · exact (hcomma (List.mem_append_left _ (List.mem_of_getLast? hlast))).elim
    · have hvne : v ≠ [] := by
        rintro rfl
        rw [List.append_nil] at hlast
        exact hcomma (List.mem_of_getLast? hlast)
      rw [List.getLast?_append_of_ne_nil _ hvne] at hlast
      obtain ⟨before, k, after, rfl, hk, rfl, rfl⟩ := groups_split hgroups hv hlast
      exact ⟨g, before, k, after, ⟨hlength, hdigits⟩, fun h hh => hgroups h (by simp [hh]),
        fun h hh => hgroups h (by simp [hh]), hk, rfl, rfl⟩
  · rw [hsame] at hmem
    rcases List.mem_append.mp hmem with hmem | hmem
    · exact absurd (hdigits ',' hmem) (by decide)
    · rw [← List.mem_singleton.mp hmem] at ha
      exact absurd ha (by decide)
  · exact absurd (hdigits ',' hmem) (by decide)

theorem IsAmount.isNumber {a : Char} (h : IsAmount (a :: x)) (ha : a.isDigit = true) :
    IsNumber (a :: x) := by
  obtain ⟨u, n, rfl | hu, hn, hsame⟩ := h
  · rw [hsame]
    exact hn
  · have hmem : ∃ u', u = a :: u' := by
      obtain ⟨v, s, hv, -, rfl⟩ := hu
      obtain ⟨b, v, rfl⟩ := List.exists_cons_of_ne_nil (l := v) (by rintro rfl; cases hv)
      exact ⟨v ++ s, by rw [(List.cons.inj hsame).1]; rfl⟩
    obtain ⟨u', rfl⟩ := hmem
    rw [hu.isDigit a List.mem_cons_self] at ha
    cases ha

/-- A number goes on over the groups of a number that starts at one of its groups. -/
theorem number_extend (h : IsNumber (x ++ y)) (hlast : x.getLast? = some ',')
    (h' : IsAmount (y ++ w)) (hw : w.head?.any isWord = false) : IsNumber (x ++ (y ++ w)) := by
  obtain ⟨g, before, k, after, hg, hbefore, hafter, ⟨hlength, hdigits⟩, rfl, rfl⟩ :=
    number_split h hlast
  obtain ⟨d, k', hk⟩ := List.exists_cons_of_ne_nil (l := k) (by rintro rfl; cases hlength)
  have hnumber : IsNumber (k ++ (after.flatten ++ w)) := by
    rw [List.append_assoc, hk] at h'
    rw [hk]
    exact h'.isNumber (hdigits d (by rw [hk]; exact List.mem_cons_self))
  have hstop : (after.flatten ++ w).head?.any isWord = false := by
    by_cases hne : after = []
    · rw [hne]
      exact hw
    · obtain ⟨tail, htail⟩ := exists_comma hne hafter
      rw [htail]
      exact (by decide : isWord ',' = false)
  have hrun (t : List Char) (ht : t.head?.any isWord = false) :
      (k ++ t).takeWhile Char.isDigit = k ∧ (k ++ t).dropWhile Char.isDigit = t := by
    cases t with
    | nil =>
      rw [List.append_nil, List.takeWhile_eq_self_iff.mpr hdigits,
        List.dropWhile_eq_nil_iff.mpr hdigits]
      exact ⟨rfl, rfl⟩
    | cons b t =>
      have hb : b.isDigit = false := by
        rw [Bool.eq_false_iff]
        intro hdigit
        rw [List.head?_cons, Option.any_some, isWord_of_isDigit hdigit] at ht
        cases ht
      exact ⟨takeWhile_digits hdigits hb, dropWhile_digits hdigits hb⟩
  obtain ⟨htake, hdrop⟩ := hrun _ hstop
  rw [List.append_assoc]
  rcases hnumber with ⟨g', groups, hlength', hdigits', hne, hgroups, hsame⟩ |
    ⟨g', a, -, hdigits', ha, hsame⟩ | ⟨hfive, hall⟩
  · obtain ⟨tail, htail⟩ := exists_comma hne hgroups
    rw [hsame, htail, takeWhile_digits hdigits' (by decide)] at htake
    subst htake
    rw [List.append_assoc g', List.append_cancel_left hsame]
    refine .inl ⟨g, before ++ (',' :: g') :: groups, hg.1, hg.2, by simp, ?_, by simp⟩
    intro h hh
    rcases List.mem_append.mp hh with hh | hh
    · exact hbefore h hh
    · rcases List.mem_cons.mp hh with rfl | hh
      · exact ⟨g', hlength, hdigits, rfl⟩
      · exact hgroups h hh
  · rw [hsame, dropWhile_digits hdigits' (isDigit_of_suffix ha)] at hdrop
    rw [← hdrop, List.head?_cons, Option.any_some, isWord_of_suffix ha] at hstop
    cases hstop
  · rw [List.takeWhile_eq_self_iff.mpr hall] at htake
    rw [htake] at hfive
    omega

/-- An amount goes on over an amount that starts within it. -/
theorem IsAmount.extend (h : IsAmount (x ++ y)) (h' : IsAmount (y ++ w)) (hx : x ≠ []) (hy : y ≠ [])
    (hlast : x.getLast?.any isWord = false) (hw : w.head?.any isWord = false) :
    IsAmount (x ++ (y ++ w)) := by
  have hhead : y.head?.any isWord = true := by
    have hfirst := h'.head?
    rwa [List.head?_append_of_ne_nil _ hy] at hfirst
  obtain ⟨u, n, hu, hn, hsame⟩ := h
  have hwhole (hxu : x = u) (hyn : y = n) : IsAmount (x ++ (y ++ w)) := by
    subst hxu
    subst hyn
    obtain ⟨d, n, rfl, hd⟩ := hn.exists_digit
    exact ⟨x, _, hu, h'.isNumber hd, rfl⟩
  rcases List.append_eq_append_iff.mp hsame with ⟨v, rfl, rfl⟩ | ⟨v, rfl, rfl⟩
  · by_cases hv : v = []
    · subst hv
      exact hwhole (List.append_nil x).symm rfl
    · rw [List.head?_append_of_ne_nil _ hv] at hhead
      rcases hu with hnil | ⟨c, s, hc, hs, hsplit⟩
      · exact absurd (List.append_eq_nil_iff.mp hnil).1 hx
      · rcases List.append_eq_append_iff.mp hsplit with ⟨t, rfl, rfl⟩ | ⟨t, rfl, rfl⟩
        · have hmem := List.mem_append_left t (List.getLast_mem hx)
          rw [List.getLast?_eq_some_getLast hx, Option.any_some,
            isWord_of_toLower (range_of_ugx hc hmem) rfl] at hlast
          cases hlast
        · obtain ⟨a, v, rfl⟩ := List.exists_cons_of_ne_nil hv
          rw [List.head?_cons, Option.any_some, isWord_of_isSpace (hs a (by simp))] at hhead
          cases hhead
  · by_cases hv : v = []
    · subst hv
      exact hwhole (List.append_nil u) rfl
    · rw [List.getLast?_append_of_ne_nil _ hv] at hlast
      have hcomma : v.getLast? = some ',' := by
        rw [List.getLast?_eq_some_getLast hv] at hlast ⊢
        rcases hn.plainly _ (List.mem_append_left _ (List.getLast_mem hv)) with hword | hcomma
        · rw [Option.any_some, hword] at hlast
          cases hlast
        · rw [hcomma]
      rw [List.append_assoc]
      exact ⟨u, _, hu, number_extend hn hcomma h' hw, rfl⟩

end within

theorem covering_amount : Covering amountPattern := by
  intro before x y after z rest hprefers hy hsame hmatch
  obtain ⟨hxy, hstart, hmiddle⟩ := matches_amount.mp hprefers.matches
  obtain ⟨hz, hinner, hfinish⟩ := matches_amount.mp hmatch
  have hall : x ++ y ++ after = x ++ z ++ rest := by
    rw [List.append_assoc, hsame, List.append_assoc]
  have hlonger (hmatch : Matches amountPattern before (x ++ z) rest) : z.length ≤ y.length := by
    have hle := hprefers.longest (longestFirst_amount _) hall hmatch
    rw [List.length_append, List.length_append] at hle
    omega
  by_cases hx : x = []
  · subst hx
    exact hlonger hmatch
  · by_contra hlt
    obtain ⟨w, rfl⟩ : y <+: z :=
      List.prefix_of_prefix_length_le (List.prefix_append y after)
        (hsame ▸ List.prefix_append z rest) (by omega)
    rw [List.append_assoc] at hsame
    obtain rfl := List.append_cancel_left hsame
    have hlast : x.getLast?.any isWord = false := by
      unfold Edge at hinner
      rw [List.head?_append_of_ne_nil _ hz.ne_nil, hz.head?,
        List.head?_append_of_ne_nil _ (by simpa using hx), List.head?_reverse] at hinner
      simpa using hinner
    have hw : w.head?.any isWord = false := by
      unfold Edge at hmiddle
      rw [List.head?_append_of_ne_nil _ (mt List.reverse_eq_nil_iff.mp hxy.ne_nil),
        List.head?_reverse, hxy.getLast?] at hmiddle
      cases w with
      | nil => rfl
      | cons a w => simpa using hmiddle.symm
    refine hlt (hlonger (matches_amount.mpr ⟨hxy.extend hz hx hy hlast hw, ?_, ?_⟩))
    · rw [← hall]
      exact hstart
    · rw [List.reverse_append, List.append_assoc]
      exact hfinish

/-- A zero or the code of the country, a digit from seven to nine, and eight more. -/
def IsPhone (x : List Char) : Prop :=
  ∃ lead c rest, (lead = ['0'] ∨ lead = ['2', '5', '6'] ∨ lead = ['+', '2', '5', '6']) ∧
    (c = '7' ∨ c = '8' ∨ c = '9') ∧ (rest.length = 8 ∧ Digits rest) ∧ x = lead ++ c :: rest

section phones
variable {c d : Cursor Char} {x before after : List Char}

theorem mem_lead : d ∈ (Regex.any [Regex.all [(sign '+').optional, sign '2', sign '5', sign '6'],
    sign '0']).paths c ↔ ∃ lead, (lead = ['0'] ∨ lead = ['2', '5', '6'] ∨
      lead = ['+', '2', '5', '6']) ∧ Reads lead c d := by
  simp only [Regex.any, Regex.all, mem_alt, mem_seq, mem_optional, mem_sign]
  constructor
  · rintro (⟨e, he, f, hf, g, hg, hd⟩ | h)
    · have hrest := hf.trans (hg.trans hd)
      rcases he with he | rfl
      · exact ⟨_, .inr (.inr rfl), he.trans hrest⟩
      · exact ⟨_, .inr (.inl rfl), hrest⟩
    · exact ⟨_, .inl rfl, h⟩
  · have hcode {e : Cursor Char} (h : Reads ['2', '5', '6'] e d) : ∃ f, Reads ['2'] e f ∧
        ∃ g, Reads ['5'] f g ∧ Reads ['6'] g d := by
      obtain ⟨f, hf, hrest⟩ := Reads.split (x := ['2']) (y := ['5', '6']) h
      obtain ⟨g, hg, hd⟩ := Reads.split (x := ['5']) (y := ['6']) hrest
      exact ⟨f, hf, g, hg, hd⟩
    rintro ⟨lead, rfl | rfl | rfl, h⟩
    · exact .inr h
    · exact .inl ⟨c, .inr rfl, hcode h⟩
    · obtain ⟨e, he, hrest⟩ := Reads.split (x := ['+']) (y := ['2', '5', '6']) h
      exact .inl ⟨e, .inl he, hcode hrest⟩

theorem mem_phone : d ∈ phonePattern.paths c ↔ ∃ x, IsPhone x ∧ Reads x c d := by
  change d ∈ (Regex.seq _ (.seq (.one fun c => c == '7' || c == '8' || c == '9')
    (times digit 8))).paths c ↔ _
  simp only [mem_seq, mem_lead, mem_one, mem_digits, Bool.or_eq_true, beq_iff_eq, or_assoc]
  constructor
  · rintro ⟨e, ⟨lead, hlead, hfirst⟩, f, ⟨a, ha, hmiddle⟩, rest, hlength, hdigits, hrest⟩
    exact ⟨_, ⟨lead, a, rest, hlead, ha, ⟨hlength, hdigits⟩, rfl⟩,
      hfirst.trans (hmiddle.trans hrest)⟩
  · rintro ⟨x, ⟨lead, a, rest, hlead, ha, ⟨hlength, hdigits⟩, rfl⟩, hreads⟩
    obtain ⟨e, hfirst, hmore⟩ := hreads.split
    obtain ⟨f, hmiddle, hrest⟩ := Reads.split (x := [a]) (y := rest) hmore
    exact ⟨e, ⟨lead, hlead, hfirst⟩, f, ⟨a, ha, hmiddle⟩, rest, hlength, hdigits, hrest⟩

theorem matches_phone : Matches phonePattern before x after ↔ IsPhone x := by
  constructor
  · rintro ⟨d, hd, rfl⟩
    obtain ⟨y, hy, hreads⟩ := mem_phone.mp hd
    rwa [List.append_cancel_right hreads.after]
  · intro hx
    exact ⟨_, mem_phone.mpr ⟨x, hx, reads_append before x after _⟩, rfl⟩

theorem IsPhone.exists_digit (h : IsPhone x) : ∃ c ∈ x, c.isDigit = true := by
  obtain ⟨lead, c, rest, -, hc, -, rfl⟩ := h
  refine ⟨c, by simp, ?_⟩
  rcases hc with rfl | rfl | rfl
  · decide
  · decide
  · decide

theorem IsPhone.mem (h : IsPhone x) : ∀ c ∈ x, c.isDigit = true ∨ c = '+' := by
  obtain ⟨lead, a, rest, hlead, ha, ⟨-, hdigits⟩, rfl⟩ := h
  have hlead' : ∀ c ∈ lead, c.isDigit = true ∨ c = '+' := by
    rcases hlead with rfl | rfl | rfl
    · exact forall_mem_of_all (by decide)
    · exact forall_mem_of_all (by decide)
    · exact forall_mem_of_all (by decide)
  have ha' : a.isDigit = true := by
    rcases ha with rfl | rfl | rfl
    · decide
    · decide
    · decide
  intro c hc
  rcases List.mem_append.mp hc with hc | hc
  · exact hlead' c hc
  · rcases List.mem_cons.mp hc with rfl | hc
    · exact .inl ha'
    · exact .inl (hdigits c hc)

theorem proper_phone : Proper phonePattern := by
  intro before after h
  obtain ⟨c, hc, -⟩ := (matches_phone.mp h).exists_digit
  cases hc

end phones

end Akabbo.RedactionPatterns
