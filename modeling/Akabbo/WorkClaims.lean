import Mathlib.Data.List.Nodup
import Mathlib.Logic.Function.Basic

/-!
# Claims of work items

Workers hold lists of items. Each item is to have one holder at most, whoever takes new ones
and whoever lets some go.
-/
namespace Akabbo.WorkClaims

variable {ω ι : Type}

/-- Nobody holds an item twice, and no two hold the same. -/
structure Exclusive (held : ω → List ι) : Prop where
  nodup : ∀ w, (held w).Nodup
  holder : ∀ w w' i, i ∈ held w → i ∈ held w' → w = w'

theorem exclusive_nobody : Exclusive fun _ : ω => ([] : List ι) :=
  ⟨fun _ => List.nodup_nil, fun _ _ _ h => by cases h⟩

variable [DecidableEq ω] {held : ω → List ι} {w : ω} {items : List ι}

theorem mem_update_cases {w' : ω} {i : ι} (h : i ∈ Function.update held w items w') :
    w' = w ∧ i ∈ items ∨ w' ≠ w ∧ i ∈ held w' := by
  by_cases hw : w' = w
  · subst hw
    rw [Function.update_self] at h
    exact .inl ⟨rfl, h⟩
  · rw [Function.update_of_ne hw] at h
    exact .inr ⟨hw, h⟩

/-- A worker goes on with some of its items. -/
theorem Exclusive.narrow (h : Exclusive held) (hsub : items.Sublist (held w)) :
    Exclusive (Function.update held w items) := by
  refine ⟨?_, fun u u' i hu hu' => ?_⟩
  · exact (Function.forall_update_iff held fun _ l => l.Nodup).mpr
      ⟨(h.nodup w).sublist hsub, fun w' _ => h.nodup w'⟩
  · have hmem {v : ω} (hv : i ∈ Function.update held w items v) : i ∈ held v := by
      rcases mem_update_cases hv with ⟨rfl, hi⟩ | ⟨-, hi⟩
      · exact hsub.subset hi
      · exact hi
    exact h.holder u u' i (hmem hu) (hmem hu')

/-- Nobody holds an item that its holder has let go. -/
theorem Exclusive.released (h : Exclusive held) {i : ι} (hw : held w = i :: items) (w' : ω) :
    i ∉ Function.update held w items w' := by
  have hmem : i ∈ held w := hw ▸ List.mem_cons_self
  intro hi
  rcases mem_update_cases hi with ⟨rfl, hrest⟩ | ⟨hne, hother⟩
  · have hnodup := h.nodup w'
    rw [hw] at hnodup
    exact (List.nodup_cons.mp hnodup).1 hrest
  · exact hne (h.holder w' w i hother hmem)

/-- A worker takes items that nobody holds. -/
theorem Exclusive.claim (h : Exclusive held) (hnodup : items.Nodup)
    (hfree : ∀ i ∈ items, ∀ w', i ∉ held w') : Exclusive (Function.update held w items) := by
  refine ⟨?_, fun u u' i hu hu' => ?_⟩
  · exact (Function.forall_update_iff held fun _ l => l.Nodup).mpr
      ⟨hnodup, fun w' _ => h.nodup w'⟩
  · rcases mem_update_cases hu with ⟨rfl, hi⟩ | ⟨-, hi⟩ <;>
      rcases mem_update_cases hu' with ⟨rfl, hi'⟩ | ⟨-, hi'⟩
    · rfl
    · exact absurd hi' (hfree i hi u')
    · exact absurd hi (hfree i hi' u)
    · exact h.holder u u' i hi hi'

end Akabbo.WorkClaims
