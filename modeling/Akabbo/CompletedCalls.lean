import Akabbo.StoppedCalls

/-!
# Calls that come to their end

The rows from which a program returns, and what its result and its rows satisfy then. Each
rule says exactly which checks a statement passes, so that failing is decided as well.
-/
namespace Akabbo.CompletedCalls
open StatementProgram StatementProgram.Program WeakestPreconditions

variable {κ σ ε ρ τ : Type}

/-- The program returns, and with `Q`. -/
def yields : Program κ σ ε ρ → (ρ → σ → Prop) → σ → Prop
  | .pure r, Q, v => Q r v
  | .throw _, _, _ => False
  | .select q k, Q, v => yields (k (q v)) Q v
  | .write _ q w k, Q, v => yields (k (q v)) Q (w (q v) v)
  | .commit k, Q, v => yields k Q v

section runs
variable {p : Program κ σ ε ρ} {Q : ρ → σ → Prop} {c v : σ}

theorem yields_iff_exec :
    yields p Q v ↔ ∃ r c' v', exec p c v = .ok (r, c', v') ∧ Q r v' := by
  induction p generalizing c v with
  | pure r =>
    constructor
    · exact fun h => ⟨r, c, v, rfl, h⟩
    · rintro ⟨r', c', v', he, h⟩
      obtain ⟨rfl, -, rfl⟩ := exec_pure_eq_ok.mp he
      exact h
  | throw e =>
    constructor
    · exact fun h => h.elim
    · rintro ⟨r, c', v', he, -⟩
      cases he
  | select q k ih => exact ih _
  | write l q w k ih => exact ih _
  | commit k ih => exact ih

theorem yields_iff_run : yields p Q v ↔ ∃ r v', run p v = (.ok r, v') ∧ Q r v' := by
  rw [yields_iff_exec (c := v)]
  unfold run
  constructor
  · rintro ⟨r, c', v', he, h⟩
    exact ⟨r, v', by rw [he], h⟩
  · rintro ⟨r, v', hrun, h⟩
    cases he : exec p v v with
    | error x =>
      rw [he] at hrun
      cases hrun
    | ok x =>
      rw [he] at hrun
      cases hrun
      exact ⟨_, _, _, rfl, h⟩

/-- Of what holds whenever it returns, nothing is lost where it does return. -/
theorem yields_iff_wp : yields p Q v ↔ yields p (fun _ _ => True) v ∧ wp (fun _ => True) p Q v := by
  induction p generalizing v with
  | pure r => exact (and_iff_right trivial).symm
  | throw e => exact (and_iff_left trivial).symm
  | select q k ih => exact ih _
  | write l q w k ih => exact ih _
  | commit k ih => exact ih.trans (and_congr_right fun _ => (and_iff_right trivial).symm)

theorem yields_mono {Q' : ρ → σ → Prop} (h : yields p Q v) (hQ : ∀ r v', Q r v' → Q' r v') :
    yields p Q' v := by
  obtain ⟨r, v', hrun, hr⟩ := yields_iff_run.mp h
  exact yields_iff_run.mpr ⟨r, v', hrun, hQ r v' hr⟩

/-- A program that returns has also done whatever it does whenever it returns. -/
theorem yields_and_wp {R : ρ → σ → Prop} (h : yields p Q v) (hR : wp (fun _ => True) p R v) :
    ∃ r v', Q r v' ∧ R r v' := by
  obtain ⟨r, c', v', he, hr⟩ := yields_iff_exec (c := v).mp h
  exact ⟨r, v', hr, exec_wp hR he⟩

/-- Where `Q` is the same question after whatever the program does, it is asked separately. -/
theorem yields_iff_of_wp {R : ρ → σ → Prop} {A : Prop} (hR : wp (fun _ => True) p R v)
    (hA : ∀ r v', R r v' → (Q r v' ↔ A)) :
    yields p Q v ↔ yields p (fun _ _ => True) v ∧ A := by
  constructor
  · intro h
    obtain ⟨r, v', hQ, hr⟩ := yields_and_wp h hR
    exact ⟨yields_mono h fun _ _ _ => trivial, (hA r v' hr).mp hQ⟩
  · rintro ⟨hreturns, h⟩
    exact yields_mono (yields_iff_wp.mpr ⟨hreturns, hR⟩) fun r v' hr => (hA r v' hr).mpr h

/-- How a call ends: with its result, or with what its commits have left. -/
theorem run_exact {I : σ → Prop} (h : wp I p Q v) (hv : I v) :
    (yields p (fun _ _ => True) v ∧ ∃ r, Q r (run p v).2) ∨
      (¬ yields p (fun _ _ => True) v ∧ I (run p v).2) := by
  by_cases hreturns : yields p (fun _ _ => True) v
  · obtain ⟨r, c', v', he, -⟩ := yields_iff_exec (c := v).mp hreturns
    refine .inl ⟨hreturns, r, ?_⟩
    unfold run
    rw [he]
    exact exec_wp h he
  · refine .inr ⟨hreturns, ?_⟩
    unfold run
    cases he : exec p v v with
    | error x => exact exec_wp_error h hv he
    | ok x => exact absurd (yields_iff_exec (c := v).mpr ⟨_, _, _, he, trivial⟩) hreturns

end runs

section rules
variable {Q : τ → σ → Prop} {v : σ}

theorem yields_bind {p : Program κ σ ε ρ} {f : ρ → Program κ σ ε τ} :
    yields (p >>= f) Q v ↔ yields p (fun r v' => yields (f r) Q v') v := by
  induction p generalizing v with
  | pure r => exact Iff.rfl
  | throw e => exact Iff.rfl
  | select q k ih => exact ih _
  | write l q w k ih => exact ih _
  | commit k ih => exact ih

theorem yields_map {p : Program κ σ ε ρ} {f : ρ → τ} (h : yields p (fun r => Q (f r)) v) :
    yields (f <$> p) Q v := by
  rw [map_eq_pure_bind]
  exact yields_bind.mpr h

theorem yields_query_bind {q : σ → ρ} {f : ρ → Program κ σ ε τ} :
    yields (query q >>= f) Q v ↔ yields (f (q v)) Q v := Iff.rfl

theorem yields_modify_bind {l : σ → List κ} {w : σ → σ} {f : Unit → Program κ σ ε τ} :
    yields (modify l w >>= f) Q v ↔ yields (f ()) Q (w v) := Iff.rfl

theorem yields_refuse_bind {e : Option ε} {f : Unit → Program κ σ ε τ} :
    yields (refuse e >>= f) Q v ↔ e = none ∧ yields (f ()) Q v := by
  cases e with
  | none => exact (and_iff_right rfl).symm
  | some e => exact ⟨fun h => h.elim, fun h => absurd h.1 (by simp)⟩

theorem yields_orThrow_bind {o : Option ρ} {e : ε} {f : ρ → Program κ σ ε τ} :
    yields (orThrow o e >>= f) Q v ↔ ∃ r, o = some r ∧ yields (f r) Q v := by
  cases o with
  | none => exact ⟨fun h => h.elim, fun ⟨r, h, _⟩ => absurd h (by simp)⟩
  | some r =>
    constructor
    · exact fun h => ⟨r, rfl, h⟩
    · rintro ⟨r', hr, h⟩
      rw [Option.some.inj hr]
      exact h

theorem yields_modifyChecked_bind {l : σ → List κ} {q : σ → Except ε ρ} {w : σ → σ}
    {f : ρ → Program κ σ ε τ} :
    yields (modifyChecked l q w >>= f) Q v ↔ ∃ r, q v = .ok r ∧ yields (f r) Q (w v) := by
  simp only [yields_iff_exec (c := v), exec_modifyChecked_bind]
  constructor
  · rintro ⟨r, c', v', ⟨a, ha, he⟩, h⟩
    exact ⟨a, ha, r, c', v', he, h⟩
  · rintro ⟨a, ha, r, c', v', he, h⟩
    exact ⟨r, c', v', ⟨a, ha, he⟩, h⟩

/-- A write that fails exactly on these violations. -/
theorem yields_accept_bind {l : σ → List κ} {q : σ → Option ε} {w : σ → σ}
    {f : Unit → Program κ σ ε τ} :
    yields (modifyChecked l (fun s => accept (q s)) w >>= f) Q v ↔
      q v = none ∧ yields (f ()) Q (w v) := by
  rw [yields_modifyChecked_bind]
  constructor
  · rintro ⟨r, hq, h⟩
    exact ⟨accept_eq_ok.mp hq, h⟩
  · rintro ⟨hq, h⟩
    exact ⟨(), accept_eq_ok.mpr hq, h⟩

end rules

/-- Each of these calls returns, with a result that is `good`, and `Q` holds in the end. -/
def yieldsEach (good : ρ → Prop) (Q : σ → Prop) : List (Program κ σ ε ρ) → σ → Prop
  | [], v => Q v
  | p :: rest, v => yields p (fun r v' => good r ∧ yieldsEach good Q rest v') v

end Akabbo.CompletedCalls
