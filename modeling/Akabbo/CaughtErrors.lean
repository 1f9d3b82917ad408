import Akabbo.WeakestPreconditions

/-!
# Errors that are caught

A program under a `try` goes on after an error with the rows as they were last committed. What it
writes is therefore held back until it commits or returns. `Ends` is the precondition for a program
to return whatever happens on the way.
-/
namespace Akabbo.CaughtErrors
open StatementProgram StatementProgram.Program ProgramParts WeakestPreconditions

variable {κ σ ε ε' ρ τ : Type}

/-- Apply what has been held back, if anything has. -/
def flush (locks : σ → List κ) (f : σ → σ) (dirty : Bool) (next : Program κ σ ε ρ) :
    Program κ σ ε ρ :=
  if dirty then .write locks (fun _ => ()) (fun _ => f) fun _ => next else next

/-- What is left of a program under a `try`, which has held back `f` so far. -/
def caughtFrom (locks : σ → List κ) (f : σ → σ) (dirty : Bool) :
    Program κ σ ε ρ → Program κ σ ε' (Except ε ρ)
  | .pure r => flush locks f dirty (.pure (.ok r))
  | .throw e => .pure (.error e)
  | .select q k => .select (q ∘ f) fun a => caughtFrom locks f dirty (k a)
  | .write l q w k => .select (q ∘ f) fun a =>
      caughtFrom (fun s => l (f s) ++ locks s) (w a ∘ f) true (k a)
  | .commit k => flush locks f dirty (.commit (caughtFrom (fun _ => []) id false k))

def caught (p : Program κ σ ε ρ) : Program κ σ ε' (Except ε ρ) :=
  caughtFrom (fun _ => []) id false p

/-- `try { p } catch (e) { handler(e) }`. -/
def orElse (p : Program κ σ ε ρ) (handler : ε → Program κ σ ε' ρ) : Program κ σ ε' ρ := do
  let result ← caught p
  match result with
  | .ok r => return r
  | .error e => handler e

section effects
variable {R : σ → σ → Prop} (hrefl : ∀ s, R s s) (htrans : ∀ {s t u}, R s t → R t u → R s u)
include hrefl htrans

theorem effects_caughtFrom {p : Program κ σ ε ρ} (hp : Effects R p) {locks : σ → List κ} {f : σ → σ}
    {dirty : Bool} (hf : ∀ s, R s (f s)) :
    Effects R (caughtFrom locks f dirty p : Program κ σ ε' (Except ε ρ)) := by
  induction p generalizing locks f dirty with
  | pure r =>
    cases dirty with
    | false => trivial
    | true => exact ⟨fun _ => hf, fun _ => trivial⟩
  | throw e => trivial
  | select q k ih => exact fun a => ih a (hp a) hf
  | write l q w k ih => exact fun a => ih a (hp.2 a) fun s => htrans (hf s) (hp.1 a _)
  | commit k ih =>
    cases dirty with
    | false => exact ih hp hrefl
    | true => exact ⟨fun _ => hf, fun _ => ih hp hrefl⟩

theorem effects_caught {p : Program κ σ ε ρ} (hp : Effects R p) :
    Effects R (caught p : Program κ σ ε' (Except ε ρ)) :=
  effects_caughtFrom hrefl htrans hp hrefl

theorem effects_orElse {p : Program κ σ ε ρ} {handler : ε → Program κ σ ε' ρ} (hp : Effects R p)
    (hhandler : ∀ e, Effects R (handler e)) : Effects R (orElse p handler) := by
  refine effects_bind (effects_caught hrefl htrans hp) fun result => ?_
  cases result with
  | ok r => trivial
  | error e => exact hhandler e

end effects

/-- Run from `v`, the program returns, and with `Q`. -/
def Ends : Program κ σ ε ρ → (ρ → σ → Prop) → σ → Prop
  | .pure r, Q, v => Q r v
  | .throw _, _, _ => False
  | .select q k, Q, v => Ends (k (q v)) Q v
  | .write _ q w k, Q, v => Ends (k (q v)) Q (w (q v) v)
  | .commit k, Q, v => Ends k Q v

section ends
variable {Q : τ → σ → Prop} {v : σ}

theorem ends_mono {Q Q' : ρ → σ → Prop} {p : Program κ σ ε ρ} (h : Ends p Q v)
    (hQ : ∀ r v', Q r v' → Q' r v') : Ends p Q' v := by
  induction p generalizing v with
  | pure r => exact hQ r v h
  | throw e => exact h
  | select q k ih => exact ih _ h
  | write l q w k ih => exact ih _ h
  | commit k ih => exact ih h

theorem ends_bind {p : Program κ σ ε ρ} {f : ρ → Program κ σ ε τ}
    (h : Ends p (fun r v' => Ends (f r) Q v') v) : Ends (p >>= f) Q v := by
  induction p generalizing v with
  | pure r => exact h
  | throw e => exact h
  | select q k ih => exact ih _ h
  | write l q w k ih => exact ih _ h
  | commit k ih => exact ih h

theorem ends_modifyChecked {l : σ → List κ} {q : σ → Except ε ρ} {w : σ → σ} {Q : ρ → σ → Prop}
    {a : ρ} (hq : q v = .ok a) (h : Q a (w v)) : Ends (modifyChecked l q w) Q v := by
  change Ends (match q v with | .ok a => .pure a | .error e => .throw e) Q
    (match q v with | .ok _ => w v | .error _ => v)
  rw [hq]
  exact h

theorem ends_caughtFrom {I : σ → Prop} {Q : ρ → σ → Prop} {p : Program κ σ ε ρ}
    {locks : σ → List κ} {f : σ → σ} {dirty : Bool} (hv : I v) (hclean : dirty = false → f = id)
    (h : wp I p Q (f v)) :
    Ends (caughtFrom locks f dirty p : Program κ σ ε' (Except ε ρ)) (fun result v' =>
      match result with
      | .ok r => Q r v'
      | .error _ => I v') v := by
  induction p generalizing v locks f dirty with
  | pure r =>
    cases dirty with
    | false =>
      rw [hclean rfl] at h
      exact h
    | true => exact h
  | throw e => exact hv
  | select q k ih => exact ih _ hv hclean h
  | write l q w k ih => exact ih _ hv nofun h
  | commit k ih =>
    cases dirty with
    | false =>
      rw [hclean rfl] at h
      exact ih hv (fun _ => rfl) h.2
    | true => exact ih h.1 (fun _ => rfl) h.2

/-- A `try` returns: with what the program does, or, after an error, from rows it had committed. -/
theorem ends_orElse {I : σ → Prop} {Q : ρ → σ → Prop} {p : Program κ σ ε ρ}
    {handler : ε → Program κ σ ε' ρ} (hv : I v) (h : wp I p Q v)
    (hhandler : ∀ e v', I v' → Ends (handler e) Q v') : Ends (orElse p handler) Q v := by
  have hcaught : Ends (caught p : Program κ σ ε' (Except ε ρ)) (fun result v' =>
      match result with
      | .ok r => Q r v'
      | .error _ => I v') v := ends_caughtFrom hv (fun _ => rfl) h
  refine ends_bind (ends_mono hcaught fun result v' hresult => ?_)
  cases result with
  | ok r => exact hresult
  | error e => exact hhandler e v' hresult

theorem exec_ends {Q : ρ → σ → Prop} {p : Program κ σ ε ρ} (h : Ends p Q v) (c : σ) :
    ∃ r c' v', exec p c v = .ok (r, c', v') ∧ Q r v' := by
  induction p generalizing c v with
  | pure r => exact ⟨r, c, v, rfl, h⟩
  | throw e => exact h.elim
  | select q k ih => exact ih _ h c
  | write l q w k ih => exact ih _ h c
  | commit k ih => exact ih h v

theorem run_ends {Q : ρ → σ → Prop} {p : Program κ σ ε ρ} (h : Ends p Q v) :
    ∃ r v', run p v = (.ok r, v') ∧ Q r v' := by
  obtain ⟨r, c', v', he, hQ⟩ := exec_ends h v
  exact ⟨r, v', by simp [run, he], hQ⟩

end ends

section exec
variable (v : σ)

/-- From rows that are all committed, what is under a `try` ends as it does without. -/
theorem exec_caughtFrom (p : Program κ σ ε ρ) (locks : σ → List κ) (f : σ → σ) (dirty : Bool)
    (hclean : dirty = false → f = id) :
    exec (caughtFrom locks f dirty p : Program κ σ ε' (Except ε ρ)) v v =
      match exec p v (f v) with
      | .ok (r, c, w) => .ok (.ok r, c, w)
      | .error (e, c) => .ok (.error e, c, c) := by
  induction p generalizing v locks f dirty with
  | pure r =>
    cases dirty with
    | false =>
      rw [hclean rfl]
      rfl
    | true => rfl
  | throw e => rfl
  | select q k ih => exact ih _ _ _ _ _ hclean
  | write l q w k ih => exact ih _ _ _ _ _ nofun
  | commit k ih =>
    cases dirty with
    | false =>
      rw [hclean rfl]
      exact ih _ _ _ _ fun _ => rfl
    | true => exact ih _ _ _ _ fun _ => rfl

theorem exec_caught (p : Program κ σ ε ρ) :
    exec (caught p : Program κ σ ε' (Except ε ρ)) v v =
      match exec p v v with
      | .ok (r, c, w) => .ok (.ok r, c, w)
      | .error (e, c) => .ok (.error e, c, c) :=
  exec_caughtFrom v p _ _ _ fun _ => rfl

/-- After a part that has committed all it wrote, the rest runs as if it were on its own. -/
theorem run_bind_of_exec {p : Program κ σ ε ρ} {f : ρ → Program κ σ ε τ} {v w : σ} {r : ρ}
    (h : exec p v v = .ok (r, w, w)) : run (p >>= f) v = run (f r) w := by
  unfold run
  rw [exec_bind, h]

/-- The handler goes on from what was committed. -/
theorem run_orElse (p : Program κ σ ε ρ) (handler : ε → Program κ σ ε' ρ) :
    run (orElse p handler) v =
      match run p v with
      | (.ok r, w) => (.ok r, w)
      | (.error e, c) => run (handler e) c := by
  unfold run orElse
  rw [exec_bind, exec_caught]
  rcases exec p v v with ⟨e, c⟩ | ⟨r, c, w⟩
  · rfl
  · rfl

end exec
end Akabbo.CaughtErrors
