import Akabbo.StatementProgram

/-!
# Triples for programs that run alone

A triple says what a program makes of the rows it sees and, through the invariant `I`,
what it leaves committed at every point where it may stop.
-/
namespace Akabbo.ProgramLogic
open StatementProgram StatementProgram.Program

variable {κ σ ε ρ τ : Type}

/-- From rows with `P`, over committed rows with `I`: the program returns with `Q`, and
what is committed when it returns or fails has `I`. -/
def Triple (I P : σ → Prop) (p : Program κ σ ε ρ) (Q : ρ → σ → Prop) : Prop :=
  ∀ c v, I c → P v → match exec p c v with
    | .ok (r, c', v') => I c' ∧ Q r v'
    | .error (_, c') => I c'

section rules
variable {I P P' : σ → Prop} {Q Q' : ρ → σ → Prop}

theorem triple_pure {r : ρ} (h : ∀ v, P v → Q r v) :
    Triple I P (Pure.pure r : Program κ σ ε ρ) Q := fun _ v hc hv => ⟨hc, h v hv⟩

theorem triple_throw (e : ε) : Triple I P (.throw e : Program κ σ ε ρ) Q := fun _ _ hc _ => hc

theorem triple_conseq {p : Program κ σ ε ρ} (h : Triple I P' p Q') (hP : ∀ v, P v → P' v)
    (hQ : ∀ r v, Q' r v → Q r v) : Triple I P p Q := by
  intro c v hc hv
  have hpost := h c v hc (hP v hv)
  cases he : exec p c v with
  | error x =>
    rw [he] at hpost
    exact hpost
  | ok x =>
    rw [he] at hpost
    exact ⟨hpost.1, hQ _ _ hpost.2⟩

theorem triple_bind {p : Program κ σ ε ρ} {f : ρ → Program κ σ ε τ} {Q' : τ → σ → Prop}
    (hp : Triple I P p Q) (hf : ∀ r, Triple I (Q r) (f r) Q') : Triple I P (p >>= f) Q' := by
  intro c v hc hv
  have hmid := hp c v hc hv
  rw [exec_bind]
  cases he : exec p c v with
  | error x =>
    rw [he] at hmid
    exact hmid
  | ok x =>
    obtain ⟨r, c', v'⟩ := x
    rw [he] at hmid
    exact hf r c' v' hmid.1 hmid.2

theorem triple_map {p : Program κ σ ε ρ} {f : ρ → τ} {Q' : τ → σ → Prop}
    (hp : Triple I P p fun r v => Q' (f r) v) : Triple I P (f <$> p) Q' := by
  rw [map_eq_pure_bind]
  exact triple_bind hp fun _ => triple_pure fun _ h => h

/-- A part that reads only and finds `q`. -/
theorem triple_reads {p : Program κ σ ε ρ} {q : σ → ρ}
    (hp : ∀ c v, exec p c v = .ok (q v, c, v)) :
    Triple I P p fun r v => P v ∧ r = q v := by
  intro c v hc hv
  rw [hp]
  exact ⟨hc, hv, rfl⟩

theorem triple_query (q : σ → ρ) :
    Triple I P (query q : Program κ σ ε ρ) fun r v => P v ∧ r = q v :=
  triple_reads fun _ _ => rfl

theorem triple_modify {l : σ → List κ} {w : σ → σ} {Q : Unit → σ → Prop}
    (h : ∀ v, P v → Q () (w v)) : Triple I P (modify l w : Program κ σ ε Unit) Q :=
  fun _ v hc hv => ⟨hc, h v hv⟩

theorem triple_modifyChecked {l : σ → List κ} {q : σ → Except ε ρ} {w : σ → σ}
    (h : ∀ v a, P v → q v = .ok a → Q a (w v)) : Triple I P (modifyChecked l q w) Q := by
  intro c v hc hv
  rw [exec_modifyChecked]
  cases hq : q v with
  | error e => exact hc
  | ok a => exact ⟨hc, h v a hv hq⟩

theorem triple_accept {l : σ → List κ} {q : σ → Option ε} {w : σ → σ} {Q : Unit → σ → Prop}
    (h : ∀ v, P v → q v = none → Q () (w v)) :
    Triple I P (modifyChecked l (fun s => accept (q s)) w) Q :=
  triple_modifyChecked fun v _ hv hq => h v hv (accept_eq_ok.mp hq)

theorem triple_commitNow (h : ∀ v, P v → I v) :
    Triple I P (commitNow : Program κ σ ε Unit) fun _ => P :=
  fun _ v _ hv => ⟨h v hv, hv⟩

theorem triple_refuse {e : Option ε} :
    Triple I P (refuse e : Program κ σ ε Unit) fun _ v => P v ∧ e = none := by
  cases e with
  | none => exact triple_pure fun _ hv => ⟨hv, rfl⟩
  | some e => exact triple_throw e

theorem triple_orThrow {o : Option ρ} {e : ε} :
    Triple I P (orThrow o e : Program κ σ ε ρ) fun r v => P v ∧ o = some r := by
  cases o with
  | none => exact triple_throw e
  | some r => exact triple_pure fun _ hv => ⟨hv, rfl⟩

theorem triple_runIf {b : Bool} {p : Program κ σ ε Unit} (hp : Triple I P p fun _ => P) :
    Triple I P (runIf b p) fun _ => P := by
  cases b with
  | false => exact triple_pure fun _ hv => hv
  | true => exact hp

/-- What each write keeps, a single transaction keeps. -/
theorem triple_of_writes {p : Program κ σ ε ρ} {R : σ → σ → Prop} (hrefl : ∀ s, R s s)
    (htrans : ∀ {s t u}, R s t → R t u → R s u) (hp : Writes False R p)
    (hR : ∀ s s', R s s' → P s → P s') : Triple I P p fun _ => P := by
  intro c v hc hv
  rcases exec_commitFree (commitFree_of_writes hp) c v with ⟨r, v', he⟩ | ⟨e, he⟩
  · rw [he]
    exact ⟨hc, hR v v' (exec_writes hrefl htrans hp he) hv⟩
  · rw [he]
    exact hc

/-- A call that keeps `I` throughout leaves it, however it ends. -/
theorem run_triple {p : Program κ σ ε ρ} {s : σ} (hp : Triple I P p fun _ => I) (hs : I s)
    (hps : P s) : I (run p s).2 := by
  have hpost := hp s s hs hps
  unfold run
  cases he : exec p s s with
  | error x =>
    rw [he] at hpost
    exact hpost
  | ok x =>
    rw [he] at hpost
    exact hpost.2

end rules
end Akabbo.ProgramLogic
