import Akabbo.ConfirmationOutcomes
import Akabbo.PaidCampaigns

/-!
# How often an action is executed

Confirmations beside the billing rows. Reminders reserve the credit of each message on a connection
of their own, where it stays whatever becomes of the campaign; any other action is executed on the
ledger alone. Each call may be stopped after any of its statements.
-/
namespace Akabbo.PaidConfirmations
open Access RowTable StatementProgram ProgramParts StoppedCalls WeakestPreconditions LedgerState
open LedgerWrites hiding Invocation
open EventWrites SmsCampaigns ToolExecutor Confirmations ExecutorFrame TenantClosure
open ConfirmationOutcomes BillingWrites TwoConnections PaidCampaigns
open BillingState (BillingDb BillingProgram)
open StatementProgram.Program (CommitFree commitNow commitFree_of_writes)

/-- `ToolExecutor.run`, where reminders are paid for. -/
def run (ctx : OperationContext) (names : NameRules) (action : StoredAction)
    (source : ProvenanceSource) (draw : ExecDraw) (credit : BillingState.Draw) :
    RowsProgram ExecutionResult :=
  match action with
  | .sendSmsReminders body => queuedReminders <$> lastTransaction
      (SmsCampaigns.sendReminders openPart .ledger (credits credit) ctx body [] draw.campaign)
  | action => storedPart.run .ledger (ToolExecutor.run ctx names action source draw)

def confirm (ctx : OperationContext) (names : NameRules) (id now : ℕ) (draw : ExecDraw)
    (credit : BillingState.Draw) : RowsProgram ExecutionResult := do
  let (action, source) ← storedPart.run .ledger (claim ctx id now)
  commitNow
  run ctx names action source draw credit

/-- Of the billing rows there are only more reservations, each of one credit of this event for a
message of this campaign. -/
inductive Reserved (eventId : ℕ) (campaign : CampaignDraw) : BillingDb → BillingDb → Prop
  | same (b : BillingDb) : Reserved eventId campaign b b
  | more {b b' : BillingDb} (h : Reserved eventId campaign b b') (accountId : Option ℕ) (i : ℕ) :
      Reserved eventId campaign b (b'.insertCredit .sms (creditRow (scopeOf eventId) accountId
        .reserve (-1) (reserveKey (campaign.messageId i)) none))

/-- What an execution may do to the billing rows. -/
structure Charged (eventId : ℕ) (campaign : CampaignDraw) (action : StoredAction)
    (b b' : BillingDb) : Prop where
  reserved : Reserved eventId campaign b b'
  otherwise : (∀ body, action ≠ .sendSmsReminders body) → b' = b

section campaigns
variable {eventId : ℕ} {campaign : CampaignDraw} {credit : BillingState.Draw} {ρ : Type}

theorem Reserved.trans {b b' b'' : BillingDb} (h : Reserved eventId campaign b b')
    (h' : Reserved eventId campaign b' b'') : Reserved eventId campaign b b'' := by
  induction h' with
  | same => exact h
  | more _ accountId i ih => exact ih.more accountId i

/-- What the statements of an open campaign may do. -/
structure Billed (eventId : ℕ) (campaign : CampaignDraw) (s t : Rows) : Prop where
  stored : t.stored = s.stored
  working : SamePending s.working t.working
  apart : Reserved eventId campaign s.apart t.apart

theorem billed_refl (s : Rows) : Billed eventId campaign s s := ⟨rfl, rfl, .same _⟩

theorem billed_trans {s t u : Rows} (h : Billed eventId campaign s t)
    (h' : Billed eventId campaign t u) : Billed eventId campaign s u :=
  ⟨h'.stored.trans h.stored, samePending_trans h.working h'.working, h.apart.trans h'.apart⟩

theorem effects_openRun {p : LedgerProgram ρ} (hp : Frames p) :
    Effects (Billed eventId campaign) (openPart.run RowsLock.ledger p : RowsProgram ρ) :=
  effects_run_part openPart _ (fun _ hw t => ⟨rfl, hw t.working, .same _⟩) hp

theorem effects_reserve (i : ℕ) : Effects (Billed eventId campaign)
    ((credits credit).reserve eventId (reserveKey (campaign.messageId i))) := by
  have happend (accountId : Option ℕ) (b : BillingDb) : Reserved eventId campaign b
      (b.insertCredit .sms (creditRow (scopeOf eventId) accountId .reserve (-(1 : ℕ))
        (reserveKey (campaign.messageId i)) none)) := (Reserved.same b).more accountId i
  have hreserve : Effects (Reserved eventId campaign)
      (BillingWrites.reserve (scopeOf eventId) 1 (reserveKey (campaign.messageId i)) credit) := by
    refine effects_bind (effects_of_silent (writes_resolve _ _)) fun ent => ?_
    dsimp only
    split_ifs
    · trivial
    · exact effects_bind (effects_bind (effects_of_silent (writes_owningAccountId eventId))
        fun accountId => effects_modify _ (happend accountId)) fun _ => trivial
  have hown : Effects (Billed eventId campaign) (onOwn RowsLock.billing
      (BillingWrites.reserve (scopeOf eventId) 1 (reserveKey (campaign.messageId i)) credit)) :=
    effects_bind (effects_run_part apartPart _ (fun _ hw t => ⟨rfl, rfl, hw t.apart⟩) hreserve)
      fun _ => trivial
  exact effects_map hown _

theorem billed_dispatch (ctx : OperationContext) (kind : SmsCampaignKind) (body : String)
    (resolve : LedgerDb → List Recipient) : Effects (Billed ctx.event.eventId campaign)
      (dispatch openPart RowsLock.ledger (credits credit) ctx kind body resolve campaign) :=
  effects_dispatch effects_openRun ctx effects_reserve kind body resolve

theorem wp_billed {p : RowsProgram ρ} (hp : Effects (Billed eventId campaign) p) (s : Rows) :
    wp (Billed eventId campaign s) p (fun _ => Billed eventId campaign s) s :=
  wp_of_effects (fun _ _ hst h => billed_trans h hst) hp (billed_refl s)

/-- Until a campaign is stored at its end, it has done nothing but reserve. -/
theorem wp_lastTransaction {p : RowsProgram ρ} {s : Rows} (hp : Effects (Billed eventId campaign) p) :
    wp (fun t => t.stored = s.stored ∧ Reserved eventId campaign s.apart t.apart) (lastTransaction p)
      (fun _ t => SamePending s.stored t.stored ∧ Reserved eventId campaign s.apart t.apart) s := by
  refine wp_modify_bind <| wp_bind ?_
  refine wp_mono (wp_weaken (wp_billed hp s.begun) ?_) ?_
  · exact fun t ht => ⟨ht.stored, ht.apart⟩
  · exact fun r t ht => wp_modify_bind (wp_pure ⟨ht.working, ht.apart⟩)

end campaigns

section marking
variable {ctx : OperationContext} {id now : ℕ} {s : Rows}

theorem run_eq (names : NameRules) (source : ProvenanceSource) (draw : ExecDraw)
    (credit : BillingState.Draw) {action : StoredAction}
    (h : ∀ body, action ≠ .sendSmsReminders body) : run ctx names action source draw credit =
      storedPart.run .ledger (ToolExecutor.run ctx names action source draw) := by
  cases action with
  | sendSmsReminders body => exact absurd rfl (h body)
  | _ => rfl

/-- How an execution ends, wherever it is stopped. -/
theorem run_cases (names : NameRules) (action : StoredAction) (source : ProvenanceSource)
    (draw : ExecDraw) (credit : BillingState.Draw) (stop : Option ℕ) :
    SamePending s.stored (leaves stop (run ctx names action source draw credit) s).stored ∧
      Charged ctx.event.eventId draw.campaign action s.apart
        (leaves stop (run ctx names action source draw credit) s).apart ∧
      (finishes stop (run ctx names action source draw credit) s = false →
        Leftover action s.stored (leaves stop (run ctx names action source draw credit) s).stored) := by
  by_cases hreminders : ∃ body, action = .sendSmsReminders body
  · obtain ⟨body, rfl⟩ := hreminders
    have hwp : wp (fun t => t.stored = s.stored ∧
          Reserved ctx.event.eventId draw.campaign s.apart t.apart)
        (run ctx names (.sendSmsReminders body) source draw credit)
        (fun _ t => SamePending s.stored t.stored ∧
          Reserved ctx.event.eventId draw.campaign s.apart t.apart) s :=
      wp_map (wp_lastTransaction (billed_dispatch ctx .reminder body _))
    rcases finishes_cases hwp ⟨rfl, .same _⟩ stop with
      ⟨hfails, hstored, hreserved⟩ | ⟨hreturns, -, hstored, hreserved⟩
    · refine ⟨congrArg LedgerDb.pendingConfirmations hstored, ⟨hreserved, fun h => absurd rfl (h body)⟩,
        fun _ => ?_⟩
      exact ⟨s.stored.persons, s.stored.auditEvents, hstored, fun _ => hstored⟩
    · exact ⟨hstored, ⟨hreserved, fun h => absurd rfl (h body)⟩, fun hfails =>
        absurd (hfails.symm.trans hreturns) Bool.false_ne_true⟩
  · rw [not_exists] at hreminders
    rw [run_eq names source draw credit hreminders, leaves_partRun, finishes_partRun]
    refine ⟨leaves_effects samePending_refl samePending_trans
      (frames_run ctx names source draw action) stop _, ⟨.same _, fun _ => rfl⟩, fun hfails => ?_⟩
    rcases finishes_cases (wp_run_leftover ctx names source draw s.stored action)
      (leftover_refl action s.stored) stop with ⟨-, hleft⟩ | ⟨hreturns, -⟩
    · exact hleft
    · exact absurd (hfails.symm.trans hreturns) Bool.false_ne_true

/-- How a confirmation ends, wherever it is stopped. -/
theorem confirm_cases (names : NameRules) (draw : ExecDraw) (credit : BillingState.Draw)
    (stop : Option ℕ) :
    (finishes stop (claim ctx id now) s.stored = false ∧
      finishes stop (confirm ctx names id now draw credit) s = false ∧
      leaves stop (confirm ctx names id now draw credit) s = s) ∨
    ∃ row, finishes stop (claim ctx id now) s.stored = true ∧
      findConfirmation s.stored ctx.event.eventId id = some row ∧ row.status = .pending ∧
      SamePending (marked ctx id now s.stored)
        (leaves stop (confirm ctx names id now draw credit) s).stored ∧
      Charged ctx.event.eventId draw.campaign row.payload s.apart
        (leaves stop (confirm ctx names id now draw credit) s).apart ∧
      (finishes stop (confirm ctx names id now draw credit) s = false →
        Leftover row.payload (marked ctx id now s.stored)
          (leaves stop (confirm ctx names id now draw credit) s).stored) := by
  have hfree : CommitFree (storedPart.run RowsLock.ledger (claim ctx id now) : RowsProgram _) :=
    commitFree_partRun (commitFree_claim ctx id now)
  have hcases := finishes_commit_cases (f := fun x : StoredAction × ProvenanceSource =>
    run ctx names x.1 x.2 draw credit) hfree stop s
  rw [finishes_partRun] at hcases
  rcases hcases with hrefused | ⟨x, s', rest, hclaim, hexec, hfinishes, hleaves⟩
  · exact .inl hrefused
  have hwp : wp _ (storedPart.run RowsLock.ledger (claim ctx id now)) _ s :=
    wp_partRun_get (wp_claim (I := fun _ => True))
  obtain ⟨_, ⟨row, hfound, hpending, rfl, rfl⟩, rfl⟩ := exec_wp hwp hexec
  have hrun := @run_cases ctx (storedPart.put (marked ctx id now (storedPart.get s)) s) names
    row.payload row.source draw credit rest
  rw [← hleaves, ← hfinishes] at hrun
  exact .inr ⟨row, hclaim, hfound, hpending, hrun.1, hrun.2.1, hrun.2.2⟩

/-- What a confirmation that does not return has left behind: everything as it was, or its row
marked and what is left of the action. -/
inductive Failed (ctx : OperationContext) (id now : ℕ) (campaign : CampaignDraw) (s s' : Rows) : Prop
  | refused (same : s' = s)
  | claimed (row : PendingConfirmation)
      (found : findConfirmation s.stored ctx.event.eventId id = some row)
      (pending : row.status = .pending)
      (stored : Leftover row.payload (marked ctx id now s.stored) s'.stored)
      (apart : Charged ctx.event.eventId campaign row.payload s.apart s'.apart)

theorem confirm_failed (names : NameRules) (draw : ExecDraw) (credit : BillingState.Draw)
    (stop : Option ℕ) (h : finishes stop (confirm ctx names id now draw credit) s = false) :
    Failed ctx id now draw.campaign s (leaves stop (confirm ctx names id now draw credit) s) := by
  rcases confirm_cases names draw credit stop with
    ⟨-, -, hsame⟩ | ⟨row, -, hfound, hpending, -, hcharged, hleft⟩
  · exact .refused hsame
  · exact .claimed row hfound hpending (hleft h) hcharged

end marking

/-- What is called in turn; whatever else happens to the billing rows is a call as well. -/
inductive Call
  | request (ctx : OperationContext) (request : Request) (stop : Option ℕ)
      (credit : BillingState.Draw)
  | sendReminders (ctx : OperationContext) (body : String) (personIds : List ℕ)
      (campaign : CampaignDraw) (credit : BillingState.Draw) (stop : Option ℕ)
  | sendAnnouncement (ctx : OperationContext) (body : String) (personIds : List ℕ)
      (campaign : CampaignDraw) (credit : BillingState.Draw) (stop : Option ℕ)
  | billing (rows : BillingDb)

def Call.step (names : NameRules) (s : Rows) : Call → Rows
  | .request ctx (.confirm id now draw) stop credit =>
      leaves stop (PaidConfirmations.confirm ctx names id now draw credit) s
  | .request ctx asked stop _ => leaves stop (storedPart.run RowsLock.ledger (asked.program names ctx)) s
  | .sendReminders ctx body personIds campaign credit stop =>
      leaves stop (PaidCampaigns.sendReminders ctx body personIds campaign credit) s
  | .sendAnnouncement ctx body personIds campaign credit stop =>
      leaves stop (PaidCampaigns.sendAnnouncement ctx body personIds campaign credit) s
  | .billing rows => { s with apart := rows }

def callRun (names : NameRules) (s : Rows) (calls : List Call) : Rows :=
  calls.foldl (Call.step names) s

/-- A confirmation of this row whose first transaction commits. -/
def claims (id : ℕ) (s : Rows) : Call → Bool
  | .request ctx (.confirm i now _) stop _ =>
      decide (i = id) && finishes stop (claim ctx i now) s.stored
  | _ => false

/-- A confirmation of this row that executes its action and returns. -/
def executes (names : NameRules) (id : ℕ) (s : Rows) : Call → Bool
  | .request ctx (.confirm i now draw) stop credit =>
      decide (i = id) && finishes stop (PaidConfirmations.confirm ctx names i now draw credit) s
  | _ => false

/-- The row that a confirmation marks. -/
def ClaimedBy (call : Call) (s : Rows) (r : PendingConfirmation) : Prop :=
  ∃ ctx row now draw stop credit, call = .request ctx (.confirm row.id now draw) stop credit ∧
    finishes stop (claim ctx row.id now) s.stored = true ∧
    findConfirmation s.stored ctx.event.eventId row.id = some row ∧ row.status = .pending ∧
    r = resolveAs .confirmed ctx now row

section steps
variable {names : NameRules} {s : Rows} {call : Call}

theorem samePending_transaction {eventId : ℕ} {campaign : CampaignDraw} {ρ : Type}
    {p : RowsProgram ρ} (hp : Effects (Billed eventId campaign) p) (stop : Option ℕ) :
    SamePending s.stored (leaves stop (transaction p) s).stored := by
  have hbegun : wp (fun t => SamePending s.stored t.stored) p
      (fun _ t => SamePending s.stored t.working) s.begun :=
    wp_mono (wp_weaken (wp_billed hp s.begun) fun t ht =>
      congrArg LedgerDb.pendingConfirmations ht.stored) fun r t ht => ht.working
  have hwp : wp (fun t => SamePending s.stored t.stored) (transaction p)
      (fun _ t => SamePending s.stored t.stored) s :=
    wp_modify_bind <| wp_bind <| wp_mono hbegun fun r t ht =>
      wp_modify_bind <| wp_commitNow_bind ht <| wp_pure ht
  exact leaves_wp (I := fun t : Rows => SamePending s.stored t.stored) (fun _ _ h => h) hwp rfl stop

theorem mem_confirm_confirmed {ctx : OperationContext} {id now : ℕ} {draw : ExecDraw}
    {stop : Option ℕ} {credit : BillingState.Draw} {r : PendingConfirmation}
    (hr : r.status = .confirmed) :
    r ∈ (leaves stop (PaidConfirmations.confirm ctx names id now draw credit)
        s).stored.pendingConfirmations ↔
      r ∈ s.stored.pendingConfirmations ∨
        ClaimedBy (.request ctx (.confirm id now draw) stop credit) s r := by
  rcases confirm_cases names draw credit stop with ⟨hclaim, -, hsame⟩ |
    ⟨row, hclaim, hfound, hpending, hsame, -⟩
  · rw [hsame, or_iff_left]
    rintro ⟨ctx', row, now', draw', stop', credit', he, hclaim', -⟩
    cases he
    rw [hclaim] at hclaim'
    cases hclaim'
  · have hid : row.id = id := (findConfirmation_mem hfound).2.2
    subst hid
    rw [hsame]
    refine (mem_rewritten_confirmed hfound hpending hr).trans (or_congr_right ?_)
    constructor
    · exact fun hnew => ⟨ctx, row, now, draw, stop, credit, rfl, hclaim, hfound, hpending, hnew⟩
    · rintro ⟨ctx', row', now', draw', stop', credit', he, -, hfound', -, hnew⟩
      obtain ⟨rfl, hrequest, rfl, rfl⟩ := Call.request.inj he
      obtain ⟨hid', rfl, -⟩ := Request.confirm.inj hrequest
      rw [← hid'] at hfound'
      obtain rfl := Option.some.inj (hfound.symm.trans hfound')
      exact hnew

/-- Any other request is one on the ledger alone. -/
theorem stored_request {ctx : OperationContext} {request : Request} {stop : Option ℕ}
    {credit : BillingState.Draw} (hnot : ∀ i now draw, request ≠ .confirm i now draw) :
    ((Call.request ctx request stop credit).step names s).stored =
      leaves stop (request.program names ctx) s.stored := by
  have hleaves : (Call.request ctx request stop credit).step names s =
      leaves stop (storedPart.run RowsLock.ledger (request.program names ctx)) s := by
    cases request with
    | confirm i now draw => exact absurd rfl (hnot i now draw)
    | _ => rfl
  rw [hleaves, leaves_partRun]
  rfl

/-- What a call does to the confirmed rows: they stay as they are, and the only new one is the row
that it claims. -/
theorem mem_step_confirmed {r : PendingConfirmation} (hr : r.status = .confirmed) :
    r ∈ (call.step names s).stored.pendingConfirmations ↔
      r ∈ s.stored.pendingConfirmations ∨ ClaimedBy call s r := by
  have hother (hcall : ∀ ctx i now draw stop credit,
      call ≠ .request ctx (.confirm i now draw) stop credit)
      (h : r ∈ (call.step names s).stored.pendingConfirmations ↔ r ∈ s.stored.pendingConfirmations) :
      r ∈ (call.step names s).stored.pendingConfirmations ↔
        r ∈ s.stored.pendingConfirmations ∨ ClaimedBy call s r := by
    rw [h, or_iff_left]
    rintro ⟨ctx, row, now, draw, stop, credit, he, -⟩
    exact hcall ctx row.id now draw stop credit he
  cases call with
  | billing rows => exact hother (by simp) Iff.rfl
  | sendReminders ctx body personIds campaign credit stop =>
    exact hother (by simp) (iff_of_eq (congrArg (r ∈ ·)
      (samePending_transaction (billed_dispatch ctx .reminder body _) stop)))
  | sendAnnouncement ctx body personIds campaign credit stop =>
    exact hother (by simp) (iff_of_eq (congrArg (r ∈ ·)
      (samePending_transaction (billed_dispatch ctx .announcement body _) stop)))
  | request ctx request stop credit =>
    by_cases hconfirm : ∃ i now draw, request = .confirm i now draw
    · obtain ⟨id, now, draw, rfl⟩ := hconfirm
      exact mem_confirm_confirmed hr
    · have hnot (i now : ℕ) (draw : ExecDraw) : request ≠ .confirm i now draw :=
        fun h => hconfirm ⟨i, now, draw, h⟩
      refine hother (fun ctx' i now draw stop' credit' he => ?_) ?_
      · exact hnot i now draw (Call.request.inj he).2.1
      · rw [stored_request hnot]
        exact mem_request_confirmed names hnot stop hr

theorem claims_iff {id : ℕ} : claims id s call = true ↔ ∃ r, r.id = id ∧ ClaimedBy call s r := by
  constructor
  · intro h
    unfold claims at h
    split at h
    · next ctx i now draw stop credit =>
      obtain ⟨hid, hclaim⟩ := Bool.and_eq_true_iff.mp h
      obtain rfl := of_decide_eq_true hid
      have hwp : wp (fun _ => True) (claim ctx i now) _ s.stored := wp_claim
      rcases finishes_cases hwp trivial stop with ⟨hnot, -⟩ | ⟨-, -, row, hfound, hpending, -, -⟩
      · exact absurd (hclaim.symm.trans hnot) (by simp)
      · obtain rfl := (findConfirmation_mem hfound).2.2
        exact ⟨resolveAs .confirmed ctx now row, rfl, ctx, row, now, draw, stop, credit, rfl, hclaim,
          hfound, hpending, rfl⟩
    · cases h
  · rintro ⟨r, rfl, ctx, row, now, draw, stop, credit, rfl, hclaim, -, -, rfl⟩
    exact Bool.and_eq_true_iff.mpr ⟨decide_eq_true rfl, hclaim⟩

theorem confirmed_step {id : ℕ} :
    Confirmed id (call.step names s).stored ↔ Confirmed id s.stored ∨ claims id s call = true := by
  rw [claims_iff]
  constructor
  · rintro ⟨r, hr, hid, hconfirmed⟩
    rcases (mem_step_confirmed hconfirmed).mp hr with hold | hnew
    · exact .inl ⟨r, hold, hid, hconfirmed⟩
    · exact .inr ⟨r, hid, hnew⟩
  · rintro (⟨r, hr, hid, hconfirmed⟩ | ⟨r, hid, hnew⟩)
    · exact ⟨r, (mem_step_confirmed hconfirmed).mpr (.inl hr), hid, hconfirmed⟩
    · have hconfirmed : r.status = .confirmed := by
        obtain ⟨ctx, row, now, draw, stop, credit, -, -, -, -, rfl⟩ := hnew
        rfl
      exact ⟨r, (mem_step_confirmed hconfirmed).mpr (.inr hnew), hid, hconfirmed⟩

/-- A confirmed row is not claimed again. -/
theorem claims_of_confirmed {id : ℕ} (h : Confirmed id s.stored) : claims id s call = false := by
  rw [Bool.eq_false_iff, ne_eq, claims_iff]
  rintro ⟨r, rfl, ctx, row, now, draw, stop, credit, -, -, hfound, hpending, rfl⟩
  obtain ⟨q, hq, hid, hconfirmed⟩ := h
  exact id_ne_of_confirmed hfound hpending hq hconfirmed hid

/-- An action is executed by the confirmation that claims its row. -/
theorem claims_of_executes {id : ℕ} (h : executes names id s call = true) :
    claims id s call = true := by
  unfold executes at h
  split at h
  · next ctx i now draw stop credit =>
    obtain ⟨hid, hdone⟩ := Bool.and_eq_true_iff.mp h
    rcases confirm_cases names draw credit stop with ⟨-, hnot, -⟩ | ⟨row, hclaim, -⟩
    · exact absurd (hdone.symm.trans hnot) (by simp)
    · exact Bool.and_eq_true_iff.mpr ⟨hid, hclaim⟩
  · cases h

theorem confirmed_stays {r : PendingConfirmation} (hconfirmed : r.status = .confirmed)
    (h : r ∈ s.stored.pendingConfirmations) (calls : List Call) :
    r ∈ (callRun names s calls).stored.pendingConfirmations := by
  induction calls generalizing s with
  | nil => exact h
  | cons call rest ih => exact ih ((mem_step_confirmed hconfirmed).mpr (.inl h))

end steps

/-- What holds of the confirmations of a run. -/
structure AtMostOnce (names : NameRules) (s : Rows) (calls : List Call) : Prop where
  failed : ∀ before ctx id now draw stop credit after,
    calls = before ++ .request ctx (.confirm id now draw) stop credit :: after →
    finishes stop (PaidConfirmations.confirm ctx names id now draw credit)
      (callRun names s before) = false →
    Failed ctx id now draw.campaign (callRun names s before)
      (callRun names s (before ++ [.request ctx (.confirm id now draw) stop credit]))
  stays : ∀ before call after r, calls = before ++ call :: after →
    ClaimedBy call (callRun names s before) r →
    r ∈ (callRun names s calls).stored.pendingConfirmations
  confirmed_iff : ∀ id, Confirmed id (callRun names s calls).stored ↔
    occurrences (Call.step names) (claims id) s calls = 1
  once : ∀ id, occurrences (Call.step names) (claims id) s calls ≤ 1
  executed : ∀ id, occurrences (Call.step names) (executes names id) s calls ≤
    occurrences (Call.step names) (claims id) s calls

def treasurer : OperationContext := ⟨⟨1, true⟩, ⟨7, .owner, .active⟩⟩

/-- A pledge of 500 that is paid and one of 300 that is not; a row that waits to pay 200 more on the
first, and one that waits to remind whoever owes. -/
def paidUp : Rows :=
  let db : LedgerDb :=
    { LedgerDb.empty with
      persons := (LedgerDb.empty.persons.insertNew
        ⟨3, 7, "Achieng", none, none, .humanTyped, some 1, 0⟩).insertNew
          ⟨4, 7, "Okello", some "+256700000001", none, .humanTyped, some 1, 0⟩
      pledges := (LedgerDb.empty.pledges.insertNew
        ⟨5, 7, 3, .cash, 500, .fulfilled, none, none, none, none, none, false, .humanTyped, some 1,
          0⟩).insertNew
          ⟨8, 7, 4, .cash, 300, .pledged, none, none, none, none, none, false, .humanTyped, some 1, 0⟩
      fulfillments := LedgerDb.empty.fulfillments.insertNew
        ⟨6, 7, 5, .payment, 500, "UGX", .cash, .reported, none, 0, none, .humanTyped, some 1, 0⟩
      pendingConfirmations := (LedgerDb.empty.pendingConfirmations.insertNew
        ⟨9, 7, .recordPayment 5 "Achieng" "200", none, .aiFromChat, .pending,
          "Record Achieng's payment of 200?", some 1, none, none⟩).insertNew
          ⟨10, 7, .sendSmsReminders "Please pay", none, .aiFromChat, .pending,
            "Send a reminder to 1 outstanding contributor(s)?", some 1, none, none⟩ }
  { stored := db
    working := db
    apart := BillingDb.empty.insertCredit .sms (creditRow (scopeOf 7) none .grant 5 "gift" none) }

def plainCredit : BillingState.Draw := ⟨0, 0, 0, 0, "", 0, 0⟩

/-- The payment is refused twice, and between the two the reminders stop with a credit reserved. -/
def refusedTwice : List Call :=
  [.request treasurer (.confirm 9 10 (.simple 20 10)) none plainCredit,
    .request treasurer (.confirm 10 11 (.simple 20 11)) (some 18) plainCredit,
    .request treasurer (.confirm 9 12 (.simple 22 12)) none plainCredit,
    .request treasurer (.reject 10 13) none plainCredit]

end Akabbo.PaidConfirmations
