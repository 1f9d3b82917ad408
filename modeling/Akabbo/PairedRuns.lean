import Akabbo.ProgramParts

/-!
# Two runs side by side

Two programs that only read, each run alone on rows of its own. They end alike when both fail
with the same error, or return results that a relation holds of.
-/
namespace Akabbo.PairedRuns
open StatementProgram StatementProgram.Program ProgramParts

variable {κ σ ε ρ ρ' τ τ' : Type}

/-- Every write puts back what was there. -/
def ReadOnly (p : Program κ σ ε ρ) : Prop := Effects Eq p

def alike (Q : ρ → ρ' → Prop) (p : Program κ σ ε ρ) (p' : Program κ σ ε ρ') (s s' : σ) : Prop :=
  match (run p s).1, (run p' s').1 with
  | .ok r, .ok r' => Q r r'
  | .error e, .error e' => e = e'
  | _, _ => False

section readOnly

theorem exec_readOnly {p : Program κ σ ε ρ} (hp : ReadOnly p) (s : σ) :
    (∃ r, exec p s s = .ok (r, s, s)) ∨ ∃ e, exec p s s = .error (e, s) := by
  induction p with
  | pure r => exact .inl ⟨r, rfl⟩
  | throw e => exact .inr ⟨e, rfl⟩
  | select q k ih => exact ih _ (hp _)
  | write l q w k ih =>
    have hrest := ih (q s) (hp.2 _)
    have hsame : w (q s) s = s := (hp.1 (q s) s).symm
    simpa only [exec, hsame] using hrest
  | commit k ih => exact ih hp

theorem run_query_bind {α : Type} (q : σ → α) (f : α → Program κ σ ε τ) (s : σ) :
    run (query q >>= f) s = run (f (q s)) s := rfl

theorem run_readOnly_bind {p : Program κ σ ε ρ} (hp : ReadOnly p) (f : ρ → Program κ σ ε τ) (s : σ) :
    (run (p >>= f) s).1 = (run p s).1.bind fun r => (run (f r) s).1 := by
  unfold run
  rw [exec_bind]
  rcases exec_readOnly hp s with ⟨r, he⟩ | ⟨e, he⟩ <;> simp [he, Except.bind]

theorem run_readOnly_map {p : Program κ σ ε ρ} (hp : ReadOnly p) (f : ρ → τ) (s : σ) :
    (run (f <$> p) s).1 = (run p s).1.map f := by
  rw [map_eq_pure_bind, run_readOnly_bind hp]
  cases (run p s).1 <;> rfl

end readOnly

section rules
variable {s s' : σ} {Q : τ → τ' → Prop}

theorem alike_eq {p p' : Program κ σ ε ρ} : alike Eq p p' s s' ↔ (run p s).1 = (run p' s').1 := by
  unfold alike
  cases (run p s).1 <;> cases (run p' s').1 <;> simp

theorem alike_pure {r : τ} {r' : τ'} (h : Q r r') :
    alike Q (Pure.pure r : Program κ σ ε τ) (Pure.pure r' : Program κ σ ε τ') s s' := h

theorem alike_query {q : σ → τ} {q' : σ → τ'} (h : Q (q s) (q' s')) :
    alike Q (query q : Program κ σ ε τ) (query q' : Program κ σ ε τ') s s' := h

theorem alike_query_bind {α α' : Type} {q : σ → α} {q' : σ → α'} {f : α → Program κ σ ε τ}
    {f' : α' → Program κ σ ε τ'} (h : alike Q (f (q s)) (f' (q' s')) s s') :
    alike Q (query q >>= f) (query q' >>= f') s s' := h

/-- Both are asked the same question, and go on only if neither is refused. -/
theorem alike_refuse_bind {e : Option ε} {f : Unit → Program κ σ ε τ} {f' : Unit → Program κ σ ε τ'}
    (h : e = none → alike Q (f ()) (f' ()) s s') :
    alike Q (refuse e >>= f) (refuse e >>= f') s s' := by
  cases e with
  | none => exact h rfl
  | some e => exact rfl

theorem alike_bind {P : ρ → ρ' → Prop} {p : Program κ σ ε ρ} {p' : Program κ σ ε ρ'}
    {f : ρ → Program κ σ ε τ} {f' : ρ' → Program κ σ ε τ'} (hp : ReadOnly p) (hp' : ReadOnly p')
    (h : alike P p p' s s') (hf : ∀ r r', P r r' → alike Q (f r) (f' r') s s') :
    alike Q (p >>= f) (p' >>= f') s s' := by
  unfold alike at h ⊢
  rw [run_readOnly_bind hp, run_readOnly_bind hp']
  cases hr : (run p s).1 <;> cases hr' : (run p' s').1 <;> simp only [hr, hr'] at h
  · exact h
  · exact hf _ _ h

theorem alike_map {P : τ → τ' → Prop} {p : Program κ σ ε ρ} {p' : Program κ σ ε ρ'} {f : ρ → τ}
    {f' : ρ' → τ'} (hp : ReadOnly p) (hp' : ReadOnly p')
    (h : alike (fun r r' => P (f r) (f' r')) p p' s s') : alike P (f <$> p) (f' <$> p') s s' := by
  rw [map_eq_pure_bind, map_eq_pure_bind]
  exact alike_bind hp hp' h fun r r' hrr => alike_pure hrr

/-- A result that is put in a box is still the same or not. -/
theorem alike_map_iff {p p' : Program κ σ ε ρ} {f : ρ → τ} (hf : Function.Injective f)
    (hp : ReadOnly p) (hp' : ReadOnly p') :
    alike Eq (f <$> p) (f <$> p') s s' ↔ alike Eq p p' s s' := by
  rw [alike_eq, alike_eq, run_readOnly_map hp, run_readOnly_map hp']
  cases (run p s).1 <;> cases (run p' s').1 <;> simp [Except.map, hf.eq_iff]

end rules

/-- It writes nothing, and what it reads is the same in related rows. -/
def Blind (R : σ → σ → Prop) : Program κ σ ε ρ → Prop
  | .pure _ => True
  | .throw _ => True
  | .select q k => (∀ s t, R s t → q s = q t) ∧ ∀ a, Blind R (k a)
  | .write _ _ _ _ => False
  | .commit k => Blind R k

section blind
variable {R : σ → σ → Prop} {s t : σ}

theorem blind_query {q : σ → τ} (h : ∀ s t, R s t → q s = q t) :
    Blind R (query q : Program κ σ ε τ) := ⟨h, fun _ => trivial⟩

theorem blind_bind {p : Program κ σ ε ρ} {f : ρ → Program κ σ ε τ} (hp : Blind R p)
    (hf : ∀ r, Blind R (f r)) : Blind R (p >>= f) := by
  induction p with
  | pure r => exact hf r
  | throw e => trivial
  | select q k ih => exact ⟨hp.1, fun a => ih a (hp.2 a)⟩
  | write l q w k ih => exact hp.elim
  | commit k ih => exact ih hp

theorem readOnly_of_blind {p : Program κ σ ε ρ} (hp : Blind R p) : ReadOnly p := by
  induction p with
  | pure r => trivial
  | throw e => trivial
  | select q k ih => exact fun a => ih a (hp.2 a)
  | write l q w k ih => exact hp.elim
  | commit k ih => exact ih hp

theorem exec_of_blind {p : Program κ σ ε ρ} (hp : Blind R p) (h : R s t) (c c' : σ) :
    (∃ r d v d' v', exec p c s = .ok (r, d, v) ∧ exec p c' t = .ok (r, d', v')) ∨
      ∃ e d d', exec p c s = .error (e, d) ∧ exec p c' t = .error (e, d') := by
  induction p generalizing s t c c' with
  | pure r => exact .inl ⟨r, c, s, c', t, rfl, rfl⟩
  | throw e => exact .inr ⟨e, c, c', rfl, rfl⟩
  | select q k ih =>
    simp only [exec, hp.1 s t h]
    exact ih _ (hp.2 _) h c c'
  | write l q w k ih => exact hp.elim
  | commit k ih => exact ih hp h s t

theorem run_eq_of_blind {p : Program κ σ ε ρ} (hp : Blind R p) (h : R s t) :
    (run p s).1 = (run p t).1 := by
  unfold run
  rcases exec_of_blind hp h s t with ⟨r, d, v, d', v', hs, ht⟩ | ⟨e, d, d', hs, ht⟩
  · rw [hs, ht]
  · rw [hs, ht]

end blind
end Akabbo.PairedRuns
