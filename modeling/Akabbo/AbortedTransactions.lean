import Akabbo.StatementProgram

/-!
# Transactions that a failed statement aborts

After the first statement that fails, the database rejects every later statement of the transaction,
and rolls it back at the end even where the caller asks for a commit. Catching the error of the
statement in the program does not change that.
-/
namespace Akabbo.AbortedTransactions
open StatementProgram StatementProgram.Program

variable {κ σ ε ρ τ : Type}

/-- The rows that an open transaction sees, and whether a statement of it has failed. -/
structure Tx (σ : Type) where
  rows : σ
  aborted : Bool

def Tx.opened (s : σ) : Tx σ := ⟨s, false⟩

/-- The answer to a statement, if the transaction still takes any. -/
def Tx.answer {α : Type} (q : σ → α) (t : Tx σ) : Option α :=
  bif t.aborted then none else some (q t.rows)

def orRejected {α : Type} (rejected : ε) (k : α → Program κ σ ε ρ) : Option α → Program κ σ ε ρ
  | none => .throw rejected
  | some a => k a

def Tx.change {α : Type} (w : α → σ → σ) : Option α → Tx σ → Tx σ
  | none, t => t
  | some a, t => { t with rows := w a t.rows }

/-- The statements of a program that lets every error through, each rejected with this error once
the transaction is aborted. -/
def inTx (rejected : ε) : Program κ σ ε ρ → Program κ (Tx σ) ε ρ
  | .pure r => .pure r
  | .throw e => .throw e
  | .select q k => .select (Tx.answer q) (orRejected rejected fun a => inTx rejected (k a))
  | .write l q w k => .write (fun t => l t.rows) (Tx.answer q) (Tx.change w)
      (orRejected rejected fun a => inTx rejected (k a))
  | .commit k => inTx rejected k

/-- One write; where it fails, the transaction is aborted. -/
def statement (rejected : ε) (locks : σ → List κ) (violation : σ → Option ε) (w : σ → σ) :
    Program κ (Tx σ) ε Unit :=
  .write (fun t => locks t.rows) (fun t => bif t.aborted then some rejected else violation t.rows)
    (fun e t => match e with
      | none => { t with rows := w t.rows }
      | some _ => { t with aborted := true }) refuse

/-- The errors that are handled count as success. -/
def swallowing (handled : ε → Bool) : Program κ σ ε Unit → Program κ σ ε Unit
  | .pure r => .pure r
  | .throw e => if handled e then .pure () else .throw e
  | .select q k => .select q fun a => swallowing handled (k a)
  | .write l q w k => .write l q w fun a => swallowing handled (k a)
  | .commit k => .commit (swallowing handled k)

/-- A body that throws is rolled back; one that returns is committed, unless it is aborted. -/
def runTransaction (body : Program κ (Tx σ) ε ρ) (s : σ) : Except ε ρ × σ :=
  match exec body (.opened s) (.opened s) with
  | .ok (r, _, t) => (.ok r, if t.aborted then s else t.rows)
  | .error (e, _) => (.error e, s)

section statements
variable {rejected : ε} {c : Tx σ} {d v : σ}

/-- Before any failure a transaction is the program on the rows. -/
theorem exec_inTx {p : Program κ σ ε ρ} (hp : p.CommitFree) :
    exec (inTx rejected p) c ⟨v, false⟩ =
      match exec p d v with
      | .ok (r, _, v') => .ok (r, c, ⟨v', false⟩)
      | .error (e, _) => .error (e, c) := by
  induction p generalizing v with
  | pure r => rfl
  | throw e => rfl
  | select q k ih => exact ih _ (hp _)
  | write l q w k ih => exact ih _ (hp _)
  | commit k ih => exact hp.elim

/-- After it nothing changes any more. -/
theorem exec_inTx_aborted {p : Program κ σ ε ρ} (hp : p.CommitFree) :
    (∃ r, p = .pure r ∧ exec (inTx rejected p) c ⟨v, true⟩ = .ok (r, c, ⟨v, true⟩)) ∨
      ∃ e, exec (inTx rejected p) c ⟨v, true⟩ = .error (e, c) := by
  cases p with
  | pure r => exact .inl ⟨r, rfl, rfl⟩
  | throw e => exact .inr ⟨e, rfl⟩
  | select q k => exact .inr ⟨rejected, rfl⟩
  | write l q w k => exact .inr ⟨rejected, rfl⟩
  | commit k => exact hp.elim

/-- A handled failure looks like success, and has aborted the transaction. -/
theorem exec_swallowing {handled : ε → Bool} {locks : σ → List κ} {violation : σ → Option ε}
    {w : σ → σ} :
    exec (swallowing handled (statement rejected locks violation w)) c ⟨v, false⟩ =
      match violation v with
      | none => .ok ((), c, ⟨w v, false⟩)
      | some e => if handled e then .ok ((), c, ⟨v, true⟩) else .error (e, c) := by
  change exec (swallowing handled (refuse (violation v))) c (match violation v with
    | none => ⟨w v, false⟩
    | some _ => ⟨v, true⟩) = _
  cases violation v with
  | none => rfl
  | some e =>
    change exec (if handled e then .pure () else .throw e) c ⟨v, true⟩ = _
    dsimp only
    split_ifs <;> rfl

end statements

section operations
variable (rejected : ε) (handled : ε → Bool) (p : Program κ σ ε ρ) (locks : σ → List κ)
  (violation : σ → Option ε) (w : σ → σ) (q : ρ → Program κ σ ε τ)

/-- Some statements, the write, and the statements that follow. -/
def accompanied : Program κ (Tx σ) ε τ := do
  let a ← inTx rejected p
  swallowing handled (statement rejected locks violation w)
  inTx rejected (q a)

/-- The same where a write that is refused does nothing, and harms nothing. -/
def intended : Program κ σ ε τ := do
  let a ← p
  modify locks fun s => if (violation s).isSome then s else w s
  q a

variable {rejected handled p locks violation w q} {s c v : σ} {a : ρ}

theorem exec_accompanied (hp : p.CommitFree) (hmid : exec p s s = .ok (a, c, v)) :
    exec (accompanied rejected handled p locks violation w q) (.opened s) (.opened s) =
      match violation v with
      | none => exec (inTx rejected (q a)) (.opened s) ⟨w v, false⟩
      | some e =>
        if handled e then exec (inTx rejected (q a)) (.opened s) ⟨v, true⟩
        else .error (e, .opened s) := by
  rw [accompanied, exec_bind, Tx.opened, exec_inTx (d := s) hp, hmid]
  dsimp only
  rw [exec_bind, exec_swallowing]
  cases violation v with
  | none => rfl
  | some e =>
    dsimp only
    split_ifs <;> rfl

/-- A transaction that has seen no failure ends as the program does by itself. -/
theorem runTransaction_inTx {body : Program κ (Tx σ) ε ρ} (hp : p.CommitFree)
    (h : exec body (.opened s) (.opened s) = exec (inTx rejected p) (.opened s) ⟨v, false⟩) :
    runTransaction body s =
      match exec p s v with
      | .ok (r, _, v') => (.ok r, v')
      | .error (e, _) => (.error e, s) := by
  unfold runTransaction
  rw [h, exec_inTx (d := s) hp]
  rcases exec p s v with ⟨e, c'⟩ | ⟨r, c', v'⟩ <;> rfl

/-- The rows that a single transaction has read are still the committed ones. -/
theorem committed_of_exec (hp : p.CommitFree) (hmid : exec p s s = .ok (a, c, v)) : c = s := by
  rcases exec_commitFree hp s s with ⟨r, v', hexec⟩ | ⟨e, hexec⟩
  · rw [hexec] at hmid
    cases hmid
    rfl
  · rw [hexec] at hmid
    cases hmid

/-- A single transaction, from where its first part has come. -/
theorem run_bind (hp : p.CommitFree) (hmid : exec p s s = .ok (a, c, v))
    {f : ρ → Program κ σ ε τ} (hf : (f a).CommitFree) :
    run (p >>= f) s =
      match exec (f a) s v with
      | .ok (r, _, v') => (.ok r, v')
      | .error (e, _) => (.error e, s) := by
  obtain rfl := committed_of_exec hp hmid
  unfold run
  rw [exec_bind, hmid]
  dsimp only
  rcases exec_commitFree hf c v with ⟨r, v', hexec⟩ | ⟨e, hexec⟩
  · rw [hexec]
  · rw [hexec]

/-- Where the write is not refused, the operation is as intended. -/
theorem accompanied_of_fresh (hp : p.CommitFree) (hq : ∀ a, (q a).CommitFree)
    (hmid : exec p s s = .ok (a, c, v)) (hfresh : violation v = none) :
    runTransaction (accompanied rejected handled p locks violation w q) s =
      run (intended p locks violation w q) s := by
  have hexec : exec (accompanied rejected handled p locks violation w q) (.opened s) (.opened s) =
      exec (inTx rejected (q a)) (.opened s) ⟨w v, false⟩ := by
    rw [exec_accompanied hp hmid, hfresh]
  have hskip : (if (violation v).isSome then v else w v) = w v := by
    rw [hfresh]
    rfl
  have hfree : CommitFree (modify locks (fun s => if (violation s).isSome then s else w s) >>=
      fun _ => q a) := fun _ => hq a
  rw [runTransaction_inTx (hq a) hexec, intended, run_bind hp hmid hfree, exec_modify_bind, hskip]

/-- Where its failure is handled, nothing of the operation stays. -/
theorem accompanied_of_taken (hp : p.CommitFree) (hq : ∀ a, (q a).CommitFree)
    (hmid : exec p s s = .ok (a, c, v)) {e : ε} (htaken : violation v = some e) :
    (runTransaction (accompanied rejected handled p locks violation w q) s).2 = s := by
  unfold runTransaction
  rw [exec_accompanied hp hmid, htaken]
  dsimp only
  split_ifs
  · have hrest : (∃ r, q a = .pure r ∧ exec (inTx rejected (q a)) (.opened s) ⟨v, true⟩ =
        .ok (r, .opened s, ⟨v, true⟩)) ∨
        ∃ e, exec (inTx rejected (q a)) (.opened s) ⟨v, true⟩ = .error (e, .opened s) :=
      exec_inTx_aborted (hq a)
    rcases hrest with ⟨r, -, hexec⟩ | ⟨e, hexec⟩
    · rw [hexec]
      rfl
    · rw [hexec]
  · rfl

/-- An operation that changes something is as intended exactly where its write is not refused. -/
theorem accompanied_iff (hp : p.CommitFree) (hq : ∀ a, (q a).CommitFree)
    (hmid : exec p s s = .ok (a, c, v))
    (hchanges : (run (intended p locks violation w q) s).2 ≠ s) :
    runTransaction (accompanied rejected handled p locks violation w q) s =
        run (intended p locks violation w q) s ↔ violation v = none := by
  constructor
  · intro hsame
    cases hv : violation v with
    | none => rfl
    | some e =>
      refine absurd ?_ hchanges
      rw [← hsame]
      exact accompanied_of_taken hp hq hmid hv
  · exact accompanied_of_fresh hp hq hmid

/-- The same operation where nothing handles the refusal. -/
theorem run_refused (hp : p.CommitFree) (hq : ∀ a, (q a).CommitFree)
    (hmid : exec p s s = .ok (a, c, v)) (refusal : σ → Option ε) :
    run (p >>= fun a => modifyChecked locks (fun v => accept (refusal v)) w >>= fun _ => q a) s =
      match refusal v with
      | none => match exec (q a) s (w v) with
        | .ok (r, _, v') => (.ok r, v')
        | .error (e, _) => (.error e, s)
      | some e => (.error e, s) := by
  have hfree : CommitFree (modifyChecked locks (fun v => accept (refusal v)) w >>=
      fun _ => q a) := by
    intro answer
    cases answer with
    | ok _ => exact hq a
    | error e => trivial
  rw [run_bind hp hmid hfree, exec_bind, exec_modifyChecked]
  cases refusal v <;> rfl

/-- The rows are those that a refusal without a handler leaves. -/
theorem accompanied_rows (hp : p.CommitFree) (hq : ∀ a, (q a).CommitFree)
    {refusal : σ → Option ε} (hrefusal : ∀ v, refusal v = none ↔ violation v = none) :
    (runTransaction (accompanied rejected handled p locks violation w q) s).2 =
      (run (p >>= fun a => modifyChecked locks (fun v => accept (refusal v)) w >>= fun _ => q a)
        s).2 := by
  rcases exec_commitFree hp s s with ⟨a, v, hmid⟩ | ⟨e, hmid⟩
  · rw [run_refused hp hq hmid]
    cases hv : violation v with
    | none =>
      have hexec : exec (accompanied rejected handled p locks violation w q) (.opened s)
          (.opened s) = exec (inTx rejected (q a)) (.opened s) ⟨w v, false⟩ := by
        rw [exec_accompanied hp hmid, hv]
      rw [runTransaction_inTx (hq a) hexec, (hrefusal v).mpr hv]
    | some e =>
      rw [accompanied_of_taken hp hq hmid hv]
      cases hrefused : refusal v with
      | none => exact absurd ((hrefusal v).mp hrefused) (by rw [hv]; exact nofun)
      | some e' => rfl
  · unfold runTransaction run
    rw [accompanied, exec_bind, Tx.opened, exec_inTx (d := s) hp, exec_bind, hmid]

end operations
end Akabbo.AbortedTransactions
