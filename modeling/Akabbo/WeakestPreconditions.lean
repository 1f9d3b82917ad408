import Akabbo.ProgramParts

/-!
# Weakest preconditions

What has to hold of the rows a program sees for it to return with `Q`, and for everything
that it commits before it returns to satisfy `I`. One rule a statement, in program order.
-/
namespace Akabbo.WeakestPreconditions
open StatementProgram StatementProgram.Program ProgramParts

variable {κ σ ε ρ τ : Type}

/-- A program that throws has nothing to show. -/
def wp (I : σ → Prop) : Program κ σ ε ρ → (ρ → σ → Prop) → σ → Prop
  | .pure r, Q, v => Q r v
  | .throw _, _, _ => True
  | .select q k, Q, v => wp I (k (q v)) Q v
  | .write _ q w k, Q, v => wp I (k (q v)) Q (w (q v) v)
  | .commit k, Q, v => I v ∧ wp I k Q v

section rules
variable {I : σ → Prop} {Q : τ → σ → Prop} {v : σ}

theorem wp_mono {Q Q' : ρ → σ → Prop} {p : Program κ σ ε ρ} (h : wp I p Q v)
    (hQ : ∀ r v', Q r v' → Q' r v') : wp I p Q' v := by
  induction p generalizing v with
  | pure r => exact hQ r v h
  | throw e => trivial
  | select q k ih => exact ih _ h
  | write l q w k ih => exact ih _ h
  | commit k ih => exact ⟨h.1, ih h.2⟩

/-- More may be committed on the way. -/
theorem wp_weaken {J : σ → Prop} {Q : ρ → σ → Prop} {p : Program κ σ ε ρ} (h : wp I p Q v)
    (hJ : ∀ s, I s → J s) : wp J p Q v := by
  induction p generalizing v with
  | pure r => exact h
  | throw e => trivial
  | select q k ih => exact ih _ h
  | write l q w k ih => exact ih _ h
  | commit k ih => exact ⟨hJ v h.1, ih h.2⟩

theorem wp_bind {p : Program κ σ ε ρ} {f : ρ → Program κ σ ε τ}
    (h : wp I p (fun r v' => wp I (f r) Q v') v) : wp I (p >>= f) Q v := by
  induction p generalizing v with
  | pure r => exact h
  | throw e => trivial
  | select q k ih => exact ih _ h
  | write l q w k ih => exact ih _ h
  | commit k ih => exact ⟨h.1, ih h.2⟩

theorem wp_pure {Q : ρ → σ → Prop} {r : ρ} (h : Q r v) :
    wp I (Pure.pure r : Program κ σ ε ρ) Q v := h

theorem wp_throw {Q : ρ → σ → Prop} (e : ε) : wp I (.throw e : Program κ σ ε ρ) Q v := trivial

theorem wp_map {p : Program κ σ ε ρ} {f : ρ → τ} (h : wp I p (fun r => Q (f r)) v) :
    wp I (f <$> p) Q v := by
  rw [map_eq_pure_bind]
  exact wp_bind h

theorem wp_query {q : σ → ρ} {Q : ρ → σ → Prop} (h : Q (q v) v) :
    wp I (query q : Program κ σ ε ρ) Q v := h

theorem wp_query_bind {q : σ → ρ} {f : ρ → Program κ σ ε τ} (h : wp I (f (q v)) Q v) :
    wp I (query q >>= f) Q v := h

theorem wp_write {α : Type} {l : σ → List κ} {q : σ → α} {w : α → σ → σ} {k : α → Program κ σ ε ρ}
    {Q : ρ → σ → Prop} (h : wp I (k (q v)) Q (w (q v) v)) : wp I (.write l q w k) Q v := h

theorem wp_modify {l : σ → List κ} {w : σ → σ} {Q : Unit → σ → Prop} (h : Q () (w v)) :
    wp I (modify l w : Program κ σ ε Unit) Q v := h

theorem wp_modify_bind {l : σ → List κ} {w : σ → σ} {f : Unit → Program κ σ ε τ}
    (h : wp I (f ()) Q (w v)) : wp I (modify l w >>= f) Q v := h

theorem wp_modifyChecked {l : σ → List κ} {q : σ → Except ε ρ} {w : σ → σ} {Q : ρ → σ → Prop}
    (h : ∀ a, q v = .ok a → Q a (w v)) : wp I (modifyChecked l q w) Q v := by
  refine wp_write ?_
  cases hq : q v with
  | error e => trivial
  | ok a => exact h a hq

theorem wp_modifyChecked_bind {l : σ → List κ} {q : σ → Except ε ρ} {w : σ → σ}
    {f : ρ → Program κ σ ε τ} (h : ∀ a, q v = .ok a → wp I (f a) Q (w v)) :
    wp I (modifyChecked l q w >>= f) Q v := wp_bind (wp_modifyChecked h)

/-- A write that fails exactly on these violations. -/
theorem wp_accept {l : σ → List κ} {q : σ → Option ε} {w : σ → σ} {Q : Unit → σ → Prop}
    (h : q v = none → Q () (w v)) : wp I (modifyChecked l (fun s => accept (q s)) w) Q v :=
  wp_modifyChecked fun _ hq => h (accept_eq_ok.mp hq)

theorem wp_accept_bind {l : σ → List κ} {q : σ → Option ε} {w : σ → σ}
    {f : Unit → Program κ σ ε τ} (h : q v = none → wp I (f ()) Q (w v)) :
    wp I (modifyChecked l (fun s => accept (q s)) w >>= f) Q v := wp_bind (wp_accept h)

theorem wp_refuse {e : Option ε} {Q : Unit → σ → Prop} (h : e = none → Q () v) :
    wp I (refuse e : Program κ σ ε Unit) Q v := by
  cases e with
  | none => exact h rfl
  | some e => trivial

theorem wp_refuse_bind {e : Option ε} {f : Unit → Program κ σ ε τ}
    (h : e = none → wp I (f ()) Q v) : wp I (refuse e >>= f) Q v := wp_bind (wp_refuse h)

theorem wp_orThrow {o : Option ρ} {e : ε} {Q : ρ → σ → Prop} (h : ∀ r, o = some r → Q r v) :
    wp I (orThrow o e : Program κ σ ε ρ) Q v := by
  cases o with
  | none => trivial
  | some r => exact h r rfl

theorem wp_orThrow_bind {o : Option ρ} {e : ε} {f : ρ → Program κ σ ε τ}
    (h : ∀ r, o = some r → wp I (f r) Q v) : wp I (orThrow o e >>= f) Q v :=
  wp_bind (wp_orThrow h)

theorem wp_commitNow_bind {f : Unit → Program κ σ ε τ} (hI : I v) (h : wp I (f ()) Q v) :
    wp I (commitNow >>= f) Q v := ⟨hI, h⟩

theorem wp_runIf {b : Bool} {p : Program κ σ ε Unit} {Q : Unit → σ → Prop}
    (hp : b = true → wp I p Q v) (hskip : b = false → Q () v) : wp I (runIf b p) Q v := by
  cases b with
  | false => exact hskip rfl
  | true => exact hp rfl

theorem wp_runIf_bind {b : Bool} {p : Program κ σ ε Unit} {f : Unit → Program κ σ ε τ}
    (hp : b = true → wp I p (fun _ v' => wp I (f ()) Q v') v)
    (hskip : b = false → wp I (f ()) Q v) : wp I (runIf b p >>= f) Q v :=
  wp_bind (wp_runIf hp hskip)

/-- A check under a condition, which leaves the rows alone. -/
theorem wp_checkIf_bind {b : Bool} {p : Program κ σ ε Unit} {f : Unit → Program κ σ ε τ}
    (hp : ∀ {R : Unit → σ → Prop}, R () v → wp I p R v) (h : wp I (f ()) Q v) :
    wp I (runIf b p >>= f) Q v := wp_runIf_bind (fun _ => hp h) fun _ => h

end rules

section runs
variable {I : σ → Prop} {Q : ρ → σ → Prop} {p : Program κ σ ε ρ} {c v : σ}

theorem exec_wp (h : wp I p Q v) {r : ρ} {c' v' : σ} (he : exec p c v = .ok (r, c', v')) :
    Q r v' := by
  induction p generalizing c v with
  | pure x =>
    obtain ⟨rfl, -, rfl⟩ := exec_pure_eq_ok.mp he
    exact h
  | throw e => cases he
  | select q k ih => exact ih _ h he
  | write l q w k ih => exact ih _ h he
  | commit k ih => exact ih h.2 he

/-- A call that is stopped has committed what `I` allows, or has come to its end. -/
theorem committedAfter_cases (h : wp I p Q v) (hc : I c) (n : ℕ) :
    I (committedAfter n p c v) ∨ ∃ r c', exec p c v = .ok (r, c', committedAfter n p c v) ∧
      Q r (committedAfter n p c v) := by
  induction n generalizing p c v with
  | zero => exact .inl hc
  | succ n ih =>
    cases p with
    | pure r => exact .inr ⟨r, c, rfl, h⟩
    | throw e => exact .inl hc
    | select q k => exact ih h hc
    | write l q w k => exact ih h hc
    | commit k => exact ih h.2 h.1

/-- Wherever a call stops, what it has committed satisfies `I`. -/
theorem committedAfter_wp (hI : ∀ r v', Q r v' → I v') (h : wp I p Q v) (hc : I c) (n : ℕ) :
    I (committedAfter n p c v) := by
  rcases committedAfter_cases h hc n with hI' | ⟨r, -, -, hQ⟩
  · exact hI'
  · exact hI r _ hQ

/-- What a call that fails had committed. -/
theorem exec_wp_error (h : wp I p Q v) (hc : I c) {e : ε} {c' : σ}
    (he : exec p c v = .error (e, c')) : I c' := by
  induction p generalizing c v with
  | pure x => cases he
  | throw x =>
    cases he
    exact hc
  | select q k ih => exact ih _ h hc he
  | write l q w k ih => exact ih _ h hc he
  | commit k ih => exact ih h.2 h.1 he

theorem run_wp (hI : ∀ r v', Q r v' → I v') (h : wp I p Q v) (hv : I v) : I (run p v).2 := by
  unfold run
  cases he : exec p v v with
  | error x => exact exec_wp_error h hv he
  | ok x => exact hI _ _ (exec_wp h he)

/-- What holds of the result and the rows of a call that has returned. -/
theorem wp_of_run (h : wp I p Q v) {r : ρ} {v' : σ} (hrun : run p v = (.ok r, v')) : Q r v' := by
  unfold run at hrun
  cases he : exec p v v with
  | error x =>
    rw [he] at hrun
    cases hrun
  | ok x =>
    rw [he] at hrun
    cases hrun
    exact exec_wp h he

/-- A call that may be stopped after some of its statements. -/
def leaves (stop : Option ℕ) (p : Program κ σ ε ρ) (s : σ) : σ :=
  match stop with
  | none => (run p s).2
  | some n => committedAfter n p s s

theorem leaves_wp (hI : ∀ r v', Q r v' → I v') (h : wp I p Q v) (hv : I v) (stop : Option ℕ) :
    I (leaves stop p v) := by
  cases stop with
  | none => exact run_wp hI h hv
  | some n => exact committedAfter_wp hI h hv n

/-- What the writes of a program keep, it keeps, and so does all that it commits. -/
theorem wp_of_effects {R : σ → σ → Prop} (hI : ∀ s t, R s t → I s → I t) {p : Program κ σ ε ρ}
    (hp : Effects R p) {v : σ} (hv : I v) : wp I p (fun _ => I) v := by
  induction p generalizing v with
  | pure r => exact hv
  | throw e => trivial
  | select q k ih => exact ih _ (hp _) hv
  | write l q w k ih => exact ih _ (hp.2 _) (hI _ _ (hp.1 _ v) hv)
  | commit k ih => exact ⟨hv, ih hp hv⟩

/-- What every allowed call keeps, a sequence of allowed calls keeps. -/
theorem foldl_invariant {call : Type} {step : σ → call → σ} {C : σ → call → Prop}
    (hstep : ∀ s a, I s → C s a → I (step s a)) {s : σ} (h : I s) (calls : List call)
    (hc : ∀ before a after, calls = before ++ a :: after → C (before.foldl step s) a) :
    I (calls.foldl step s) := by
  induction calls using List.reverseRecOn with
  | nil => exact h
  | append_singleton xs a ih =>
    have hxs : I (xs.foldl step s) := ih fun before b after he =>
      hc before b (after ++ [a]) (by simp [he])
    rw [List.foldl_append]
    exact hstep _ a hxs (hc xs a [] rfl)

end runs
end Akabbo.WeakestPreconditions
