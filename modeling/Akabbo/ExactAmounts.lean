import Akabbo.Amounts

/-!
# Amounts read exactly

Rounding to binary64 twice may lose the number that a text denotes, or make a whole number of it.
-/
namespace Akabbo.ExactAmounts
open TextPatterns Binary64 Amounts ToolExecutor PledgeStatus

/-- The whole number that a text denotes. -/
def exactAmount (input : List Char) : Option ℕ :=
  (numeralOf (cleaned input)).bind fun n => wholeNumber n.value

/-- The binary64 number about `q`, had the exponent no upper end, is `v`. -/
def RoundsTo (q v : ℚ) : Prop := ∃ m : ℤ, Nearest (q / spacing q) m ∧ v = m * spacing q

/-- The number, then multiplied, is brought back to its value by rounding; where that is not whole,
nothing whole is near. -/
def Survives (n : Numeral) : Prop := ∃ p, RoundsTo n.number p ∧
  if n.value.den = 1 then RoundsTo (p * n.multiplier) n.value ∧ n.value < 2 ^ 1024
  else ∀ v, RoundsTo (p * n.multiplier) v → v < 2 ^ 1024 → v.den ≠ 1

theorem roundsTo_iff {q v : ℚ} : RoundsTo q v ↔ rounded q = v := rounded_eq_iff.symm

section numeral
variable (n : Numeral)

theorem multiplier_pos : 0 < n.multiplier := by
  unfold Numeral.multiplier
  split_ifs <;> norm_num

theorem number_nonneg : 0 ≤ n.number := by
  unfold Numeral.number
  positivity

theorem value_nonneg : 0 ≤ n.value := mul_nonneg (number_nonneg n) (Nat.cast_nonneg _)

/-- Infinity stays infinity when it is multiplied, so the second rounding decides. -/
theorem scaled_eq : scaled n.number n.multiplier = toBinary64 (rounded n.number * n.multiplier) := by
  unfold scaled
  by_cases hfinite : rounded n.number < 2 ^ 1024
  · have hsome : toBinary64 n.number = some (rounded n.number) := if_pos hfinite
    rw [hsome, Option.bind_eq_bind, Option.bind_some]
  · have hnone : toBinary64 n.number = none := if_neg hfinite
    rw [hnone, Option.bind_eq_bind, Option.bind_none]
    have hone : (1 : ℚ) ≤ n.multiplier := by exact_mod_cast multiplier_pos n
    have hnonneg := rounded_nonneg (number_nonneg n)
    have hge : (2 : ℚ) ^ (1024 : ℤ) ≤ rounded n.number * n.multiplier :=
      (not_lt.mp hfinite).trans (le_mul_of_one_le_right hnonneg hone)
    have hrounded := zpow_le_rounded (by norm_num) hge
    exact (if_neg (not_lt.mpr hrounded)).symm

theorem wholeNumber_eq_some {v : ℚ} {k : ℕ} (hv : 0 ≤ v) : wholeNumber v = some k ↔ v = k := by
  unfold wholeNumber
  constructor
  · intro h
    simp only [Option.ite_none_right_eq_some, Option.some.injEq] at h
    obtain ⟨hden, hnum⟩ := h
    have hself := Rat.num_div_den v
    rw [hden, Nat.cast_one, div_one] at hself
    rw [← hself, ← hnum]
    exact_mod_cast (Int.toNat_of_nonneg (Rat.num_nonneg.mpr hv)).symm
  · rintro rfl
    simp

theorem wholeNumber_eq_none {v : ℚ} : wholeNumber v = none ↔ v.den ≠ 1 := by
  unfold wholeNumber
  simp

theorem scaled_eq_wholeNumber_iff :
    (scaled n.number n.multiplier).bind wholeNumber = wholeNumber n.value ↔ Survives n := by
  have hvalue := value_nonneg n
  have hp : 0 ≤ rounded n.number * n.multiplier :=
    mul_nonneg (rounded_nonneg (number_nonneg n)) (Nat.cast_nonneg _)
  have hsurvives : Survives n ↔
      if n.value.den = 1 then rounded (rounded n.number * n.multiplier) = n.value ∧
        n.value < 2 ^ 1024
      else rounded (rounded n.number * n.multiplier) < 2 ^ 1024 →
        (rounded (rounded n.number * n.multiplier)).den ≠ 1 := by
    unfold Survives
    simp only [roundsTo_iff, exists_eq_left', forall_eq']
  rw [hsurvives, scaled_eq, toBinary64]
  by_cases hwhole : n.value.den = 1
  · rw [if_pos hwhole]
    obtain ⟨k, hk⟩ : ∃ k, wholeNumber n.value = some k := ⟨_, if_pos hwhole⟩
    have hvk := (wholeNumber_eq_some hvalue).mp hk
    rw [hk]
    by_cases hfinite : rounded (rounded n.number * n.multiplier) < 2 ^ 1024
    · rw [if_pos hfinite, Option.bind_some, wholeNumber_eq_some (rounded_nonneg hp), hvk]
      exact ⟨fun h => ⟨h, h ▸ hfinite⟩, And.left⟩
    · rw [if_neg hfinite, Option.bind_none]
      refine ⟨nofun, fun h => absurd ?_ hfinite⟩
      rw [h.1]
      exact h.2
  · rw [if_neg hwhole, wholeNumber_eq_none.mpr hwhole]
    by_cases hfinite : rounded (rounded n.number * n.multiplier) < 2 ^ 1024
    · rw [if_pos hfinite, Option.bind_some, wholeNumber_eq_none]
      exact ⟨fun h _ => h, fun h => h hfinite⟩
    · rw [if_neg hfinite]
      exact ⟨fun _ h => absurd h hfinite, fun _ => rfl⟩

/-- Without a fraction only the value itself matters. -/
theorem survives_whole (h : n.fraction = []) :
    Survives n ↔ IsBinary64 n.value ∧ n.value < 2 ^ 1024 := by
  have hnumber : n.number = n.digits := by
    unfold Numeral.number
    rw [h]
    simp
  have hvalue : n.value = (n.digits * n.multiplier : ℕ) := by
    unfold Numeral.value
    rw [hnumber]
    push_cast
    rfl
  have hwhole : n.value.den = 1 := by
    rw [hvalue]
    exact Rat.den_natCast _
  unfold Survives
  simp only [roundsTo_iff, exists_eq_left', hwhole, if_true]
  refine and_congr_left fun _ => ?_
  constructor
  · intro hrounded
    rw [← hrounded]
    exact isBinary64_rounded
      (mul_nonneg (rounded_nonneg (number_nonneg n)) (Nat.cast_nonneg _))
  · intro hbinary
    have hdigits : IsBinary64 n.digits := isBinary64_of_mul (multiplier_pos n) (hvalue ▸ hbinary)
    rw [hnumber, rounded_of_isBinary64 hdigits, ← hnumber]
    exact rounded_of_isBinary64 hbinary

end numeral

section magnitude
variable {n : Numeral} {v : ℕ}

theorem multiplier_le : n.multiplier ≤ 1000000 := by
  unfold Numeral.multiplier
  split_ifs <;> norm_num

theorem rounded_natCast_le (v : ℕ) : rounded v ≤ 2 * v := rounded_le_two_mul (Nat.cast_nonneg v)

theorem half_le_rounded_of_le {q : ℚ} (h : 1 / 100000 ≤ q) : q / 2 ≤ rounded q := by
  refine half_le_rounded (le_trans ?_ h)
  calc (2 : ℚ) ^ (-1074 : ℤ) ≤ 2 ^ (-17 : ℤ) := zpow_le_zpow_right₀ (by norm_num) (by norm_num)
    _ ≤ 1 / 100000 := by norm_num

/-- Rounding does not make up for a factor of ten. -/
theorem lt_of_ten_mul_le (hv : 0 < v) (h : 10 * (v : ℚ) ≤ n.value) :
    2 * (v : ℚ) < rounded (rounded n.number * n.multiplier) := by
  have hone : (1 : ℚ) ≤ v := by exact_mod_cast hv
  have hmultiplier : (n.multiplier : ℚ) ≤ 1000000 := by exact_mod_cast multiplier_le
  have hpos : (0 : ℚ) ≤ n.multiplier := Nat.cast_nonneg _
  have hvalue : 10 * (v : ℚ) ≤ n.number * n.multiplier := h
  have hlarge : n.number * n.multiplier ≤ n.number * 1000000 :=
    mul_le_mul_of_nonneg_left hmultiplier (number_nonneg n)
  have hnumber : n.number / 2 ≤ rounded n.number := half_le_rounded_of_le (by linarith)
  have hproduct : n.number / 2 * n.multiplier ≤ rounded n.number * n.multiplier :=
    mul_le_mul_of_nonneg_right hnumber hpos
  have hsecond : rounded n.number * n.multiplier / 2 ≤ rounded (rounded n.number * n.multiplier) :=
    half_le_rounded_of_le (by linarith)
  linarith

end magnitude

/-- What is read is the numeral rounded, multiplied and rounded again. -/
theorem parseAmountToMinorUnits_eq_some {input : List Char} {amount : ℕ}
    (h : parseAmountToMinorUnits input = some amount) : ∃ n, numeralOf (cleaned input) = some n ∧
      (amount : ℚ) = rounded (rounded n.number * n.multiplier) := by
  rw [parseAmountToMinorUnits_eq] at h
  obtain ⟨n, hn, hscaled⟩ := Option.bind_eq_some_iff.mp h
  obtain ⟨v, hv, hwhole⟩ := Option.bind_eq_some_iff.mp hscaled
  rw [scaled_eq, toBinary64, Option.ite_none_right_eq_some, Option.some.injEq] at hv
  obtain ⟨-, rfl⟩ := hv
  have hnonneg := rounded_nonneg
    (mul_nonneg (rounded_nonneg (number_nonneg n)) (Nat.cast_nonneg n.multiplier))
  exact ⟨n, hn, ((wholeNumber_eq_some hnonneg).mp hwhole).symm⟩

theorem cleaned_of_plain {text : List Char} (h : ∀ a ∈ text, a.isDigit = true ∨ a = ',') :
    cleaned text = text.filter (· != ',') := by
  have hink : text.filter (fun a => !isSeparator a) = text.filter (· != ',') := by
    refine List.filter_congr fun a ha => ?_
    rcases h a ha with hdigit | rfl
    · unfold isSeparator
      rw [isSpace_of_isDigit hdigit]
      rfl
    · rfl
  have hlower : ∀ a ∈ text.filter (· != ','), lowerChar a = id a := fun a ha => by
    rcases h a (List.mem_of_mem_filter ha) with hdigit | rfl
    · exact lowerChar_of_isDigit hdigit
    · rfl
  rw [cleaned_eq, hink]
  exact (List.map_congr_left hlower).trans (List.map_id _)

theorem mem_withCommas {digits : List Char} {a : Char} (h : a ∈ withCommas digits) :
    a ∈ digits ∨ a = ',' := by
  induction digits using withCommas.induct with
  | case1 => exact .inl h
  | case2 c => exact .inl h
  | case3 c d rest hmod ih =>
    rw [withCommas, if_pos hmod] at h
    rcases List.mem_cons.mp h with rfl | h
    · exact .inl List.mem_cons_self
    · rcases List.mem_cons.mp h with rfl | h
      · exact .inr rfl
      · exact (ih h).imp_left (List.mem_cons_of_mem c)
  | case4 c d rest hmod ih =>
    rw [withCommas, if_neg hmod] at h
    rcases List.mem_cons.mp h with rfl | h
    · exact .inl List.mem_cons_self
    · exact (ih h).imp_left (List.mem_cons_of_mem c)

theorem filter_withCommas (digits : List Char) :
    (withCommas digits).filter (· != ',') = digits.filter (· != ',') := by
  induction digits using withCommas.induct with
  | case1 => rfl
  | case2 c => rfl
  | case3 c d rest hmod ih =>
    rw [withCommas, if_pos hmod, List.filter_cons, List.filter_cons_of_neg (by decide), ih]
    exact (List.filter_cons (p := (· != ',')) (x := c)).symm
  | case4 c d rest hmod ih =>
    rw [withCommas, if_neg hmod, List.filter_cons, ih]
    exact (List.filter_cons (p := (· != ',')) (x := c)).symm

theorem formatMoney_toList (v : ℕ) : (formatMoney v).toList = withCommas (Nat.toDigits 10 v) := by
  have hdigits : (moneyToString v).toList = Nat.toDigits 10 v := by
    unfold moneyToString
    rw [Nat.toString_eq_ofList_toDigits, String.toList_ofList]
  unfold formatMoney formatAmount
  rw [hdigits]
  split
  · next rest hrest =>
    have hdash : '-' ∈ Nat.toDigits 10 v := by
      rw [hrest]
      exact List.mem_cons_self
    have hdigit := Nat.isDigit_of_mem_toDigits (by norm_num) (by norm_num) hdash
    exact absurd hdigit (by decide)
  · rw [String.toList_ofList]

/-- A formatted amount spells its number. -/
theorem cleaned_formatMoney (v : ℕ) : cleaned (formatMoney v).toList = Nat.toDigits 10 v := by
  have hdigit : ∀ a ∈ Nat.toDigits 10 v, a.isDigit = true := fun a ha =>
    Nat.isDigit_of_mem_toDigits (by norm_num) (by norm_num) ha
  rw [formatMoney_toList, cleaned_of_plain fun a ha => (mem_withCommas ha).imp_left (hdigit a),
    filter_withCommas]
  refine List.filter_eq_self.mpr fun a ha => ?_
  rw [bne_iff_ne]
  rintro rfl
  exact absurd (hdigit _ ha) (by decide)

theorem numeralOf_digits {text : List Char} (hne : text ≠ []) (h : ∀ a ∈ text, a.isDigit = true) :
    numeralOf text = some ⟨text, [], []⟩ :=
  numeralOf_eq_some.mpr ⟨hne, h, by simp, by simp [suffixes], [], by simp [currencies],
    by simp [Numeral.numStr]⟩

theorem numeralOf_formatMoney (v : ℕ) :
    numeralOf (cleaned (formatMoney v).toList) = some ⟨Nat.toDigits 10 v, [], []⟩ := by
  rw [cleaned_formatMoney]
  exact numeralOf_digits Nat.toDigits_ne_nil fun a ha =>
    Nat.isDigit_of_mem_toDigits (by norm_num) (by norm_num) ha

theorem value_toDigits (v : ℕ) : (⟨Nat.toDigits 10 v, [], []⟩ : Numeral).value = v := by
  unfold Numeral.value Numeral.number Numeral.digits Numeral.multiplier
  simp [Nat.ofDigitChars_ten_toDigits]

theorem parseAmountToMinorUnits_exact_iff (input : List Char) :
    parseAmountToMinorUnits input = exactAmount input ↔
      ∀ n ∈ numeralOf (cleaned input), Survives n := by
  rw [parseAmountToMinorUnits_eq]
  unfold exactAmount
  cases numeralOf (cleaned input) with
  | none => simp
  | some n =>
    simp only [Option.bind_some, Option.mem_some_iff, forall_eq']
    exact scaled_eq_wholeNumber_iff n

theorem exactAmount_formatMoney (v : ℕ) : exactAmount (formatMoney v).toList = some v := by
  unfold exactAmount
  rw [numeralOf_formatMoney, Option.bind_some, value_toDigits]
  exact (wholeNumber_eq_some (Nat.cast_nonneg v)).mpr rfl

theorem parseAmountToMinorUnits_formatMoney (v : ℕ) :
    parseAmountToMinorUnits (formatMoney v).toList = some v ↔ IsBinary64 v ∧ (v : ℚ) < 2 ^ 1024 := by
  rw [← exactAmount_formatMoney, parseAmountToMinorUnits_exact_iff, numeralOf_formatMoney]
  simp only [Option.mem_some_iff, forall_eq']
  rw [survives_whole _ rfl, value_toDigits]

/-- The parser reads what a text denotes where rounding brings the number back, and a formatted
amount where it is itself a binary64 number. -/
theorem read_exactly_iff (input whole suffix : List Char) (v : ℕ) :
    (parseAmountToMinorUnits input = exactAmount input ↔
      ∀ n ∈ numeralOf (cleaned input), Survives n) ∧
    (Survives ⟨whole, [], suffix⟩ ↔
      IsBinary64 (⟨whole, [], suffix⟩ : Numeral).value ∧
        (⟨whole, [], suffix⟩ : Numeral).value < 2 ^ 1024) ∧
    (parseAmountToMinorUnits (formatMoney v).toList = some v ↔
      IsBinary64 v ∧ (v : ℚ) < 2 ^ 1024) :=
  ⟨parseAmountToMinorUnits_exact_iff input, survives_whole _ rfl,
    parseAmountToMinorUnits_formatMoney v⟩

/-- Two amounts that do not come back, and a whole number of shillings that is not read. -/
theorem amounts_lost :
    exactAmount "9007199254740993".toList = some 9007199254740993 ∧
    parseAmountToMinorUnits "9007199254740993".toList = some 9007199254740992 ∧
    formatMoney 9007199254740993 = "9,007,199,254,740,993" ∧
    parseAmountToMinorUnits "9,007,199,254,740,993".toList = some 9007199254740992 ∧
    exactAmount "1.001m".toList = some 1001000 ∧
    parseAmountToMinorUnits "1.001m".toList = none := by
  decide +kernel

end Akabbo.ExactAmounts
