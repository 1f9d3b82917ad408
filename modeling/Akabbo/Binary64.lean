import Mathlib.Data.Int.Log
import Mathlib.Data.Nat.Factorization.Basic
import Mathlib.Data.Rat.Floor
import Mathlib.Algebra.Order.Round
import Mathlib.Tactic.Linarith
import Mathlib.Tactic.Positivity
import Mathlib.Tactic.Ring
import Mathlib.Tactic.FieldSimp

/-!
# Binary64

Exact rationals rounded to the nearest binary64 number, ties to even. Signs are not kept: the
numbers are those from zero up.
-/
namespace Akabbo.Binary64

/-- The nearest integer, and the even one of two. -/
def nearestEven (y : ℚ) : ℤ :=
  if Int.fract y < 1 / 2 then ⌊y⌋
  else if 1 / 2 < Int.fract y then ⌊y⌋ + 1
  else if Even ⌊y⌋ then ⌊y⌋
  else ⌊y⌋ + 1

/-- Nearer to `y` than any other integer, or even where two are as near. -/
def Nearest (y : ℚ) (n : ℤ) : Prop := |y - n| < 1 / 2 ∨ |y - n| = 1 / 2 ∧ Even n

theorem nearest_nearestEven (y : ℚ) : Nearest y (nearestEven y) := by
  have hfract : y - ⌊y⌋ = Int.fract y := Int.self_sub_floor y
  have hnonneg := Int.fract_nonneg y
  have hlt := Int.fract_lt_one y
  have hup : y - ((⌊y⌋ + 1 : ℤ) : ℚ) = -(1 - Int.fract y) := by
    push_cast
    linarith
  unfold nearestEven Nearest
  split_ifs with hlow hhigh heven
  · rw [hfract, abs_of_nonneg hnonneg]
    exact .inl hlow
  · rw [hup, abs_neg, abs_of_nonneg (by linarith)]
    exact .inl (by linarith)
  · rw [hfract, abs_of_nonneg hnonneg]
    exact .inr ⟨by linarith, heven⟩
  · rw [hup, abs_neg, abs_of_nonneg (by linarith)]
    refine .inr ⟨by linarith, ?_⟩
    exact Int.even_add_one.mpr heven

theorem nearest_unique {y : ℚ} {m n : ℤ} (hm : Nearest y m) (hn : Nearest y n) : m = n := by
  have hle (k : ℤ) (h : Nearest y k) : |y - k| ≤ 1 / 2 := h.elim le_of_lt fun h => h.1.le
  have hdist : |(m : ℚ) - n| ≤ |y - m| + |y - n| := by
    have htri := abs_sub_le (m : ℚ) y n
    rwa [abs_sub_comm (m : ℚ) y] at htri
  have hcast : ((|m - n| : ℤ) : ℚ) = |(m : ℚ) - n| := by push_cast; rfl
  by_contra hne
  have hpos : 1 ≤ |m - n| := Int.one_le_abs (sub_ne_zero.mpr hne)
  have hposq : (1 : ℚ) ≤ |(m : ℚ) - n| := by
    rw [← hcast]
    exact_mod_cast hpos
  -- two of them are a step apart and both a tie, so one is odd
  have htie (k : ℤ) (h : Nearest y k) (hk : 1 / 2 ≤ |y - k|) : Even k :=
    h.elim (fun h => absurd hk (not_le.mpr h)) And.right
  have hme := htie m hm (by linarith [hle n hn])
  have hne' := htie n hn (by linarith [hle m hm])
  have hone : ((|m - n| : ℤ) : ℚ) ≤ 1 := by
    rw [hcast]
    linarith [hle m hm, hle n hn]
  have hone' : |m - n| = 1 := le_antisymm (by exact_mod_cast hone) hpos
  have heven : Even (m - n) := hme.sub hne'
  rcases abs_choice (m - n) with habs | habs
  · rw [← habs, hone'] at heven
    exact absurd heven (by decide)
  · rw [← neg_neg (m - n), ← habs, hone'] at heven
    exact absurd heven (by decide)

theorem nearestEven_eq_iff {y : ℚ} {n : ℤ} : nearestEven y = n ↔ Nearest y n :=
  ⟨fun h => h ▸ nearest_nearestEven y, nearest_unique (nearest_nearestEven y)⟩

theorem nearestEven_intCast (n : ℤ) : nearestEven n = n :=
  nearestEven_eq_iff.mpr (.inl (by simp))

/-- The exponent of the last place of the binary64 numbers about `q`. -/
def exponent (q : ℚ) : ℤ := max (Int.log 2 q - 52) (-1074)

def spacing (q : ℚ) : ℚ := 2 ^ exponent q

/-- The nearest binary64 number, had the exponent no upper end. -/
def rounded (q : ℚ) : ℚ := nearestEven (q / spacing q) * spacing q

/-- What is read as this number: infinity is none. -/
def toBinary64 (q : ℚ) : Option ℚ := if rounded q < 2 ^ 1024 then some (rounded q) else none

def IsBinary64 (v : ℚ) : Prop := ∃ (m : ℕ) (e : ℤ), m < 2 ^ 53 ∧ -1074 ≤ e ∧ v = m * 2 ^ e

theorem spacing_pos (q : ℚ) : 0 < spacing q := by
  unfold spacing
  exact zpow_pos (by norm_num) _

/-- A number is this far from its place in the last place at most. -/
theorem div_spacing_lt (q : ℚ) : q / spacing q < 2 ^ 53 := by
  rw [div_lt_iff₀ (spacing_pos q)]
  have hlog : q < (2 : ℚ) ^ (Int.log 2 q + 1) := Int.lt_zpow_succ_log_self Nat.one_lt_two q
  have hle : (2 : ℚ) ^ (Int.log 2 q + 1) ≤ 2 ^ (53 + exponent q) := by
    refine zpow_le_zpow_right₀ (by norm_num) ?_
    have := le_max_left (Int.log 2 q - 52) (-1074)
    unfold exponent
    omega
  calc q < 2 ^ (Int.log 2 q + 1) := hlog
    _ ≤ 2 ^ (53 + exponent q) := hle
    _ = 2 ^ 53 * spacing q := by
      rw [zpow_add₀ (by norm_num)]
      rfl

theorem rounded_eq_iff {q v : ℚ} :
    rounded q = v ↔ ∃ n : ℤ, Nearest (q / spacing q) n ∧ v = n * spacing q := by
  constructor
  · rintro rfl
    exact ⟨_, nearest_nearestEven _, rfl⟩
  · rintro ⟨n, hn, rfl⟩
    unfold rounded
    rw [nearestEven_eq_iff.mpr hn]

theorem abs_sub_rounded_le (q : ℚ) : |q - rounded q| ≤ spacing q / 2 := by
  have hpos := spacing_pos q
  have hnear : |q / spacing q - nearestEven (q / spacing q)| ≤ 1 / 2 :=
    (nearest_nearestEven (q / spacing q)).elim le_of_lt fun h => h.1.le
  have heq : q - rounded q = (q / spacing q - nearestEven (q / spacing q)) * spacing q := by
    unfold rounded
    field_simp
  rw [heq, abs_mul, abs_of_pos hpos]
  calc |q / spacing q - nearestEven (q / spacing q)| * spacing q ≤ 1 / 2 * spacing q :=
        mul_le_mul_of_nonneg_right hnear hpos.le
    _ = spacing q / 2 := by ring

theorem rounded_nonneg {q : ℚ} (hq : 0 ≤ q) : 0 ≤ rounded q := by
  have hy : 0 ≤ q / spacing q := div_nonneg hq (spacing_pos q).le
  have hfloor : 0 ≤ ⌊q / spacing q⌋ := Int.floor_nonneg.mpr hy
  refine mul_nonneg ?_ (spacing_pos q).le
  have : 0 ≤ nearestEven (q / spacing q) := by
    unfold nearestEven
    split_ifs <;> omega
  exact_mod_cast this

theorem isBinary64_zero : IsBinary64 0 := ⟨0, 0, by norm_num, by norm_num, by simp⟩

/-- Rounding ends at a binary64 number. -/
theorem isBinary64_rounded {q : ℚ} (hq : 0 ≤ q) : IsBinary64 (rounded q) := by
  have hpos := spacing_pos q
  have hlt := div_spacing_lt q
  have hn : 0 ≤ nearestEven (q / spacing q) := by
    have hrounded := rounded_nonneg hq
    unfold rounded at hrounded
    exact_mod_cast nonneg_of_mul_nonneg_left hrounded hpos
  have hle : nearestEven (q / spacing q) ≤ 2 ^ 53 := by
    have hfloor : ⌊q / spacing q⌋ < 2 ^ 53 := by
      rw [Int.floor_lt]
      exact_mod_cast hlt
    unfold nearestEven
    split_ifs <;> omega
  have he : -1074 ≤ exponent q := le_max_right _ _
  obtain ⟨m, hm⟩ := Int.eq_ofNat_of_zero_le hn
  have hvalue : rounded q = m * 2 ^ exponent q := by
    have hcast : (nearestEven (q / spacing q) : ℚ) = m := by rw [hm]; rfl
    unfold rounded
    rw [hcast]
    rfl
  rcases hle.lt_or_eq with hlt | heq
  · exact ⟨m, exponent q, by omega, he, hvalue⟩
  · -- the carry leads to the next power of two
    have hm' : m = 2 ^ 53 := by omega
    refine ⟨2 ^ 52, exponent q + 1, by norm_num, by omega, ?_⟩
    rw [hvalue, hm', zpow_add_one₀ (by norm_num)]
    push_cast
    ring

/-- A binary64 number is a multiple of its own spacing. -/
theorem isBinary64_multiple {v : ℚ} (h : IsBinary64 v) : ∃ n : ℤ, v = n * spacing v := by
  obtain ⟨m, e, hm, he, hv⟩ := h
  rcases Nat.eq_zero_or_pos m with rfl | hmpos
  · exact ⟨0, by rw [hv]; simp⟩
  have hpow : (0 : ℚ) < 2 ^ e := zpow_pos (by norm_num) _
  have hvpos : 0 < v := by
    rw [hv]
    exact mul_pos (by exact_mod_cast hmpos) hpow
  have hlt : v < (2 : ℚ) ^ (53 + e) := by
    rw [hv, zpow_add₀ (by norm_num)]
    have : (m : ℚ) < 2 ^ (53 : ℤ) := by exact_mod_cast hm
    exact mul_lt_mul_of_pos_right this hpow
  have hlog : Int.log 2 v < 53 + e := by
    refine (Int.lt_zpow_iff_log_lt Nat.one_lt_two hvpos).mp ?_
    exact_mod_cast hlt
  have hexp : exponent v ≤ e := by
    unfold exponent
    omega
  obtain ⟨k, hk⟩ := Int.le.dest hexp
  refine ⟨m * 2 ^ k, ?_⟩
  have hsplit : (2 : ℚ) ^ e = 2 ^ k * spacing v := by
    rw [← hk, zpow_add₀ (by norm_num), zpow_natCast, mul_comm]
    rfl
  push_cast
  rw [mul_assoc, ← hsplit]
  exact hv

theorem rounded_of_isBinary64 {v : ℚ} (h : IsBinary64 v) : rounded v = v := by
  obtain ⟨n, hn⟩ := isBinary64_multiple h
  have hdiv : v / spacing v = n := by
    have hne := (spacing_pos v).ne'
    rw [div_eq_iff hne]
    exact hn
  unfold rounded
  rw [hdiv, nearestEven_intCast]
  exact hn.symm

/-- What is a multiple of the spacing is not passed by rounding. -/
theorem multiple_le_rounded {q : ℚ} {n : ℤ} (h : n * spacing q ≤ q) :
    n * spacing q ≤ rounded q := by
  have hpos := spacing_pos q
  have hfloor : n ≤ ⌊q / spacing q⌋ := Int.le_floor.mpr ((le_div_iff₀ hpos).mpr h)
  have hnear : n ≤ nearestEven (q / spacing q) := by
    unfold nearestEven
    split_ifs <;> omega
  exact mul_le_mul_of_nonneg_right (by exact_mod_cast hnear) hpos.le

/-- A power of two is not passed by rounding. -/
theorem zpow_le_rounded {q : ℚ} {k : ℤ} (hk : -1074 ≤ k) (h : (2 : ℚ) ^ k ≤ q) :
    (2 : ℚ) ^ k ≤ rounded q := by
  have hq : 0 < q := (zpow_pos (by norm_num) k).trans_le h
  have hlog : k ≤ Int.log 2 q := (Int.zpow_le_iff_le_log Nat.one_lt_two hq).mp (by exact_mod_cast h)
  have hself : (2 : ℚ) ^ Int.log 2 q ≤ q := by
    exact_mod_cast Int.zpow_log_le_self Nat.one_lt_two hq
  have hexp : exponent q ≤ Int.log 2 q := by
    unfold exponent
    omega
  obtain ⟨j, hj⟩ := Int.le.dest hexp
  have hmultiple : (2 : ℚ) ^ Int.log 2 q = ((2 ^ j : ℤ) : ℚ) * spacing q := by
    rw [← hj, zpow_add₀ (by norm_num), zpow_natCast, mul_comm]
    push_cast
    rfl
  calc (2 : ℚ) ^ k ≤ 2 ^ Int.log 2 q := zpow_le_zpow_right₀ (by norm_num) hlog
    _ = ((2 ^ j : ℤ) : ℚ) * spacing q := hmultiple
    _ ≤ rounded q := multiple_le_rounded (hmultiple ▸ hself)

theorem rounded_le_two_mul {q : ℚ} (hq : 0 ≤ q) : rounded q ≤ 2 * q := by
  have hpos := spacing_pos q
  rcases lt_or_ge q (spacing q / 2) with hlt | hge
  · have hnear : nearestEven (q / spacing q) = 0 := by
      refine nearestEven_eq_iff.mpr (.inl ?_)
      have hdiv : q / spacing q < 1 / 2 := by
        rw [div_lt_iff₀ hpos]
        linarith
      have hnonneg : 0 ≤ q / spacing q := div_nonneg hq hpos.le
      rw [Int.cast_zero, sub_zero, abs_of_nonneg hnonneg]
      exact hdiv
    unfold rounded
    rw [hnear, Int.cast_zero, zero_mul]
    linarith
  · have habs := abs_le.mp (abs_sub_rounded_le q)
    linarith

theorem half_le_rounded {q : ℚ} (hq : (2 : ℚ) ^ (-1074 : ℤ) ≤ q) : q / 2 ≤ rounded q := by
  have hpos : 0 < q := (zpow_pos (by norm_num) _).trans_le hq
  have hlog : -1074 ≤ Int.log 2 q :=
    (Int.zpow_le_iff_le_log Nat.one_lt_two hpos).mp (by exact_mod_cast hq)
  have hspacing : spacing q ≤ q := by
    have hself : (2 : ℚ) ^ Int.log 2 q ≤ q := by
      exact_mod_cast Int.zpow_log_le_self Nat.one_lt_two hpos
    have hexp : exponent q ≤ Int.log 2 q := by
      unfold exponent
      omega
    exact (zpow_le_zpow_right₀ (by norm_num) hexp).trans hself
  have habs := abs_le.mp (abs_sub_rounded_le q)
  linarith

/-- The odd part of a natural number decides whether it is a binary64 number. -/
theorem isBinary64_pow_mul {a o : ℕ} (ho : Odd o) :
    IsBinary64 ((2 ^ a * o : ℕ) : ℚ) ↔ o < 2 ^ 53 := by
  constructor
  · rintro ⟨m, e, hm, -, hv⟩
    rcases lt_or_ge e 0 with he | he
    · obtain ⟨j, hj⟩ := Int.eq_ofNat_of_zero_le (neg_nonneg.mpr he.le)
      have hnat : 2 ^ a * o * 2 ^ j = m := by
        have hq : ((2 ^ a * o : ℕ) : ℚ) * 2 ^ j = m := by
          rw [hv, ← zpow_natCast (2 : ℚ) j, ← hj, mul_assoc, ← zpow_add₀ (by norm_num)]
          simp
        exact_mod_cast hq
      have hle : o ≤ m := by
        rw [← hnat, mul_right_comm]
        exact Nat.le_mul_of_pos_left o (by positivity)
      omega
    · obtain ⟨j, rfl⟩ := Int.eq_ofNat_of_zero_le he
      have hnat : 2 ^ a * o = m * 2 ^ j := by
        have hq : ((2 ^ a * o : ℕ) : ℚ) = m * 2 ^ j := by
          rw [hv]
          simp
        exact_mod_cast hq
      rcases le_or_gt j a with hle | hgt
      · obtain ⟨i, rfl⟩ := Nat.exists_eq_add_of_le hle
        have hm' : m = 2 ^ i * o := by
          refine Nat.eq_of_mul_eq_mul_right (by positivity : 0 < 2 ^ j) ?_
          rw [← hnat, pow_add]
          ring
        have hle' : o ≤ m := by
          rw [hm']
          exact Nat.le_mul_of_pos_left o (by positivity)
        omega
      · -- an odd number would be a multiple of two
        obtain ⟨i, rfl⟩ := Nat.exists_eq_add_of_lt hgt
        have hodd : o = 2 * (m * 2 ^ i) := by
          refine Nat.eq_of_mul_eq_mul_left (by positivity : 0 < 2 ^ a) ?_
          rw [hnat, pow_succ, pow_add]
          ring
        rw [hodd] at ho
        exact absurd (even_two_mul _) (Nat.not_even_iff_odd.mpr ho)
  · intro h
    refine ⟨o, a, h, by omega, ?_⟩
    push_cast
    rw [zpow_natCast]
    ring

/-- A natural number with a factor taken off stays a binary64 number. -/
theorem isBinary64_of_mul {c k : ℕ} (hk : 0 < k) (h : IsBinary64 ((c * k : ℕ) : ℚ)) :
    IsBinary64 c := by
  rcases Nat.eq_zero_or_pos c with rfl | hc
  · exact_mod_cast isBinary64_zero
  obtain ⟨t, o, ho, hct⟩ := Nat.exists_eq_two_pow_mul_odd hc.ne'
  obtain ⟨a, b, hb, hka⟩ := Nat.exists_eq_two_pow_mul_odd hk.ne'
  have hsplit : c * k = 2 ^ (t + a) * (o * b) := by
    rw [hct, hka, pow_add]
    ring
  rw [hsplit] at h
  have hlt := (isBinary64_pow_mul (ho.mul hb)).mp h
  rw [hct]
  exact (isBinary64_pow_mul ho).mpr ((Nat.le_mul_of_pos_right o hb.pos).trans_lt hlt)

end Akabbo.Binary64
