import Mathlib.Tactic

/-!
# The derived status of a pledge

Amounts are whole minor units and never negative. The status of a pledge is a
function of what was committed, what was received, and whether it was cancelled.
-/
namespace Akabbo.PledgeStatus

def moneyToString (value : ℕ) : String := toString value

theorem moneyToString_inj {a b : ℕ} : moneyToString a = moneyToString b ↔ a = b := by
  refine ⟨fun h => ?_, fun h => by rw [h]⟩
  have hd : Nat.toDigits 10 a = Nat.toDigits 10 b := by
    simpa [moneyToString, toString, Nat.repr] using congrArg String.toList h
  simpa using congrArg (Nat.ofDigitChars 10 · 0) hd

inductive Status
  | pledged | partiallyFulfilled | fulfilled | cancelled
  deriving DecidableEq, Repr

def Status.name : Status → String
  | .pledged => "PLEDGED"
  | .partiallyFulfilled => "PARTIALLY_FULFILLED"
  | .fulfilled => "FULFILLED"
  | .cancelled => "CANCELLED"

def deriveStatus (committedValue totalFulfilled : ℕ) (cancelled : Bool := false) : Status :=
  if cancelled then .cancelled
  else if totalFulfilled ≤ 0 then .pledged
  else if totalFulfilled ≥ committedValue then .fulfilled
  else .partiallyFulfilled

/-- What is still owed, floored at zero. -/
def outstanding (committedValue totalFulfilled : ℕ) : ℕ :=
  if committedValue > totalFulfilled then committedValue - totalFulfilled else 0

theorem outstanding_eq (c t : ℕ) : outstanding c t = c - t := by
  unfold outstanding
  split_ifs <;> omega

@[simp] theorem deriveStatus_cancelled (c t : ℕ) : deriveStatus c t true = .cancelled := rfl

@[simp] theorem deriveStatus_unpaid (c : ℕ) : deriveStatus c 0 = .pledged := rfl

theorem deriveStatus_eq_cancelled {c t : ℕ} {b : Bool} :
    deriveStatus c t b = .cancelled ↔ b = true := by
  cases b
  · simp only [deriveStatus, Bool.false_eq_true, ↓reduceIte, iff_false]
    split_ifs <;> simp
  · simp

example : deriveStatus 100 40 = .partiallyFulfilled ∧ outstanding 100 40 = 60 := by decide

end Akabbo.PledgeStatus
