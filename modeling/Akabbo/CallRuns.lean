import Mathlib.Tactic

/-!
# Runs of calls

What holds in every state of a run, and what each call must meet for it, in the state that it
finds.
-/
namespace Akabbo.CallRuns

variable {σ call : Type} {step : σ → call → σ} {I : σ → Prop} {P E : σ → call → Prop} {s : σ}

/-- Every call of the run meets `P` in the state that it finds. -/
def everyCall (step : σ → call → σ) (P : σ → call → Prop) : σ → List call → Prop
  | _, [] => True
  | s, c :: rest => P s c ∧ everyCall step P (step s c) rest

/-- `I` holds in every state of the run, and every call does what `E` says. -/
def throughout (step : σ → call → σ) (I : σ → Prop) (E : σ → call → Prop) :
    σ → List call → Prop
  | s, [] => I s
  | s, c :: rest => I s ∧ E s c ∧ throughout step I E (step s c) rest

/-- Where `P` says what one call must meet, in states that meet what every call keeps, it says so
for a run. -/
theorem throughout_iff_of_kept {K : σ → Prop} (hK : ∀ s c, K s → K (step s c))
    (hstep : ∀ s c, K s → I s → (P s c ↔ E s c ∧ I (step s c))) (hk : K s) (hs : I s)
    {calls : List call} : throughout step I E s calls ↔ everyCall step P s calls := by
  induction calls generalizing s with
  | nil => exact iff_of_true hs trivial
  | cons c rest ih =>
    unfold throughout everyCall
    have hnext := hK s c hk
    constructor
    · rintro ⟨-, heffect, hrest⟩
      have hI : I (step s c) := by
        cases rest with
        | nil => exact hrest
        | cons _ _ => exact hrest.1
      exact ⟨(hstep s c hk hs).mpr ⟨heffect, hI⟩, (ih hnext hI).mp hrest⟩
    · rintro ⟨hmeets, hrest⟩
      obtain ⟨heffect, hI⟩ := (hstep s c hk hs).mp hmeets
      exact ⟨hs, heffect, (ih hnext hI).mpr hrest⟩

/-- Where `P` says what one call must meet, it says so for a run. -/
theorem throughout_iff (hstep : ∀ s c, I s → (P s c ↔ E s c ∧ I (step s c))) (hs : I s)
    {calls : List call} : throughout step I E s calls ↔ everyCall step P s calls :=
  throughout_iff_of_kept (K := fun _ => True) (fun _ _ _ => trivial) (fun s c _ => hstep s c)
    trivial hs

theorem throughout_of_step (hstep : ∀ s c, I s → P s c → E s c ∧ I (step s c)) (hs : I s)
    {calls : List call} (h : everyCall step P s calls) : throughout step I E s calls := by
  induction calls generalizing s with
  | nil => exact hs
  | cons c rest ih =>
    obtain ⟨heffect, hnext⟩ := hstep s c hs h.1
    exact ⟨hs, heffect, ih hnext h.2⟩

end Akabbo.CallRuns
