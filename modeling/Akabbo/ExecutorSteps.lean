import Akabbo.Confirmations
import Akabbo.EventSteps

/-!
# What the executor does to the rows

One rule for each part of an execution that is more than a call of a service: reading the
amount, finding or creating the contributor, queueing a campaign, and reading the row that
is confirmed.
-/
namespace Akabbo.ExecutorSteps
open Access RowTable StatementProgram ProgramParts LedgerState LedgerWrites EventWrites SmsCampaigns
open ServiceSteps WeakestPreconditions ToolExecutor Confirmations
open StatementProgram.Program (query modifyChecked refuse orThrow runIf commitNow)

section rules
variable {I : LedgerDb → Prop} {τ : Type} {Q : τ → LedgerDb → Prop} {v : LedgerDb}
  {ctx : OperationContext} {draw : ExecDraw}

theorem wp_bigInt_bind {text : String} {f : ℕ → LedgerProgram τ}
    (h : ∀ value, parseDigits text = some value → wp I (f value) Q v) :
    wp I (bigInt text >>= f) Q v := by
  unfold bigInt
  cases hvalue : parseDigits text with
  | none => exact wp_throw _
  | some value => exact h value hvalue

/-- A contributor of this name is there, or one is created and committed. -/
theorem wp_resolveOrCreatePerson_bind {names : NameRules} {name : String}
    {source : ProvenanceSource} {phone : Option String} {f : ℕ → LedgerProgram τ}
    (hfound : ∀ i found, personNamed names v ctx.event.eventId name = .resolved i found →
      wp I (f i) Q v)
    (hnew : (∀ i found, personNamed names v ctx.event.eventId name ≠ .resolved i found) →
      ∀ v', AddedPerson ctx v name phone draw.ledger.personId v' →
        I v' ∧ wp I (f draw.ledger.personId) Q v') :
    wp I (resolveOrCreatePerson ctx names name source phone draw >>= f) Q v := by
  have hcreate (hnone : ∀ i found, personNamed names v ctx.event.eventId name ≠ .resolved i found) :
      wp I (do
        let person ← createPerson ctx draw.contributor ⟨name, phone, false, some source⟩ draw.ledger
        commitNow
        return person.id) (fun i v' => wp I (f i) Q v') v := by
    refine wp_bind <| wp_createPerson fun view v' hid hstep => ?_
    obtain ⟨hI, hrest⟩ := hnew hnone v' hstep
    exact wp_commitNow_bind hI (wp_pure (hid ▸ hrest))
  refine wp_bind <| wp_query_bind ?_
  split
  · next i found hresolved => exact wp_pure (hfound i found hresolved)
  · next hother => exact hcreate hother

/-- Whom an action is for, as the rows stand: the person it names by id, or else by name. -/
def targetOf (names : NameRules) (db : LedgerDb) (e : ℕ) (personId : Option ℕ) (name : String) :
    Option ℕ :=
  match personId with
  | some i => some i
  | none =>
    match personNamed names db e name with
    | .resolved i _ => some i
    | _ => none

theorem targetOf_resolved {names : NameRules} {e i : ℕ} {name found : String}
    (h : personNamed names v e name = .resolved i found) : targetOf names v e none name = some i := by
  simp [targetOf, h]

theorem targetOf_eq_none {names : NameRules} {e : ℕ} {name : String}
    (h : ∀ i found, personNamed names v e name ≠ .resolved i found) :
    targetOf names v e none name = none := by
  simp only [targetOf]

theorem wp_targetPerson_bind {names : NameRules} {personId : Option ℕ} {name : String}
    {source : ProvenanceSource} {phone : Option String} {f : ℕ → LedgerProgram τ}
    (hknown : ∀ i, targetOf names v ctx.event.eventId personId name = some i → wp I (f i) Q v)
    (hnew : personId = none → targetOf names v ctx.event.eventId personId name = none →
      ∀ v', AddedPerson ctx v name phone draw.ledger.personId v' →
        I v' ∧ wp I (f draw.ledger.personId) Q v') :
    wp I (targetPerson ctx names personId name source phone draw >>= f) Q v := by
  cases personId with
  | some i => exact hknown i rfl
  | none =>
    exact wp_resolveOrCreatePerson_bind (fun i _ hfound => hknown i (targetOf_resolved hfound))
      fun hnone => hnew rfl (targetOf_eq_none hnone)

theorem wp_queueAll_bind {reserved : String → Bool} {e : ℕ} {body : String} {draw : CampaignDraw}
    {queued : ℕ} {found : List Recipient} {f : ℕ → LedgerProgram τ}
    (h : ∀ n smsMessages, wp I (f n) Q { v with smsMessages }) :
    wp I (queueAll ledgerItself id (answeredCredits reserved) e body draw queued found >>= f) Q
      v := by
  refine wp_bind ?_
  have hrows : ∀ w : LedgerDb, (∃ smsMessages, w = { v with smsMessages }) →
      wp I (queueAll ledgerItself id (answeredCredits reserved) e body draw queued found)
        (fun n v' => wp I (f n) Q v') w := by
    induction found generalizing queued with
    | nil =>
      rintro w ⟨smsMessages, rfl⟩
      exact wp_pure (h _ _)
    | cons r rest ih =>
      rintro w ⟨smsMessages, rfl⟩
      rw [queueAll]
      change wp I (if reserved _ = true then _ else _) _ _
      rw [ledgerItself_run]
      split_ifs
      · exact wp_accept_bind fun _ => ih _ ⟨_, rfl⟩
      · exact wp_pure (h _ _)
  exact hrows v ⟨v.smsMessages, rfl⟩

/-- A campaign, its messages, and the row that announces it. -/
theorem wp_sendReminders {body : String} {Q : ExecutionResult → LedgerDb → Prop}
    (h : ∀ r smsCampaigns smsMessages outbox, Q r { v with smsCampaigns, smsMessages, outbox }) :
    wp I (ToolExecutor.sendReminders ctx body draw) Q v := by
  unfold ToolExecutor.sendReminders SmsCampaigns.sendReminders dispatch
  simp only [ledgerItself_run, bind_assoc]
  refine wp_refuse_bind fun _ => wp_refuse_bind fun _ => wp_query_bind <| wp_accept_bind fun _ =>
    wp_queueAll_bind fun queued smsMessages => wp_accept_bind fun _ => ?_
  refine wp_runIf_bind (fun _ => wp_accept fun _ => ?_) fun _ => ?_
  · exact wp_pure (h _ _ _ _)
  · exact wp_pure (h _ _ _ v.outbox)

theorem wp_readPending_bind {i : ℕ} {f : PendingConfirmation → LedgerProgram τ}
    (h : ∀ row, findConfirmation v ctx.event.eventId i = some row → row.status = .pending →
      wp I (f row) Q v) : wp I (readPending ctx i >>= f) Q v := by
  refine wp_bind <| wp_query_bind <| wp_orThrow_bind fun row hrow => wp_refuse_bind fun hpending =>
    wp_pure (h row hrow ?_)
  split_ifs at hpending with hstatus
  exact not_not.mp hstatus

end rules
end Akabbo.ExecutorSteps
