import Akabbo.Confirmations
import Akabbo.ServiceEffects
import Akabbo.WeakestPreconditions

/-!
# What an execution leaves alone

Whatever an action's statements read, and however late they are applied, they never touch
the rows that wait for confirmation.
-/
namespace Akabbo.ExecutorFrame
open Access RowTable StatementProgram StatementProgram.Program ProgramParts LedgerState LedgerWrites
open ServiceEffects EventWrites SmsCampaigns ToolExecutor WeakestPreconditions

def SamePending (db db' : LedgerDb) : Prop := db'.pendingConfirmations = db.pendingConfirmations

theorem samePending_refl (db : LedgerDb) : SamePending db db := rfl

theorem samePending_trans {db db' db'' : LedgerDb} (h : SamePending db db')
    (h' : SamePending db' db'') : SamePending db db'' := Eq.trans h' h

variable {ρ : Type}

/-- The programs that leave the waiting rows alone. -/
def Frames (p : LedgerProgram ρ) : Prop := Effects SamePending p

section statements

theorem frames_checked {α : Type} (l : LedgerDb → List RowLock) (q : LedgerDb → Except Refusal α)
    {w : LedgerDb → LedgerDb} (h : ∀ db, SamePending db (w db)) : Frames (modifyChecked l q w) :=
  effects_modifyChecked samePending_refl l q h

theorem frames_change (l : List RowLock) (violation : LedgerDb → Option Refusal)
    {w : LedgerDb → LedgerDb} (h : ∀ db, SamePending db (w db)) : Frames (change l violation w) :=
  frames_checked _ _ h

theorem frames_refuse (e : Option Refusal) : Frames (refuse e : LedgerProgram Unit) :=
  effects_refuse e

theorem frames_query {α : Type} (q : LedgerDb → α) : Frames (query q : LedgerProgram α) :=
  effects_query q

theorem frames_orThrow {α : Type} (o : Option α) (e : Refusal) :
    Frames (orThrow o e : LedgerProgram α) := effects_orThrow o e

theorem frames_bind {τ : Type} {p : LedgerProgram ρ} {f : ρ → LedgerProgram τ} (hp : Frames p)
    (hf : ∀ r, Frames (f r)) : Frames (p >>= f) := effects_bind hp hf

theorem frames_pure (r : ρ) : Frames (Pure.pure r : LedgerProgram ρ) := trivial

theorem frames_throw (e : Refusal) : Frames (.throw e : LedgerProgram ρ) := trivial

theorem frames_enqueue (row : OutboxRow) : Frames (enqueue row) := frames_checked _ _ fun _ => rfl

end statements

theorem keeps_samePending (e : ℕ) : ServiceEffects.Keeps e SamePending where
  refl _ := rfl
  appendAudit _ _ := rfl
  insertOutbox _ _ := rfl
  insertPerson _ _ _ := rfl
  updatePerson _ _ _ _ _ := rfl
  insertPledge _ _ _ := rfl
  updatePledge _ _ _ _ _ := rfl
  movePledges _ _ _ := rfl
  insertFulfillment _ _ _ := rfl
  setFulfillmentValue _ _ _ := rfl
  insertGroup _ _ _ := rfl
  insertPersonGroup _ _ _ := rfl
  insertBudget _ _ _ := rfl
  insertBudgetItem _ _ _ := rfl
  updateBudgetItem _ _ _ _ _ := rfl
  insertAllocation _ _ _ := rfl
  setEvents _ _ := rfl
  setMembers _ _ := rfl
  setInvitations _ _ := rfl
  setFiles _ _ := rfl
  setDocuments _ _ := rfl

/-- No typed call touches a waiting row. -/
theorem frames_program (ctx : OperationContext) (call : ServiceCalls.ServiceCall)
    (draw : ServiceCalls.ServiceDraw) : Frames (call.program ctx draw) :=
  effects_program (keeps_samePending _) call draw (fun _ _ _ _ => rfl) fun _ _ _ => rfl

theorem wp_of_frames {p : LedgerProgram ρ} (hp : Frames p) {db : LedgerDb} :
    wp (SamePending db) p (fun _ => SamePending db) db :=
  wp_of_effects (fun _ _ hst h => samePending_trans h hst) hp (samePending_refl db)

section campaigns
variable {κ σ : Type} {tables : Part σ LedgerDb} {lock : RowLock → κ} {credits : Credits κ σ}
  {R : σ → σ → Prop} {e : ℕ} {draw : CampaignDraw}

theorem effects_queueAll
    (htables : ∀ {p : LedgerProgram Unit}, Frames p → Effects R (tables.run lock p))
    (hreserve : ∀ i, Effects R (credits.reserve e (reserveKey (draw.messageId i)))) (body : String)
    (queued : ℕ) (found : List Recipient) :
    Effects R (queueAll tables lock credits e body draw queued found) := by
  induction found generalizing queued with
  | nil => trivial
  | cons r rest ih =>
    refine effects_bind (hreserve queued) fun ok => ?_
    split_ifs
    · exact effects_bind (htables (frames_change _ _ fun _ => rfl)) fun _ => ih _
    · trivial

/-- A campaign does to the rows what its statements on the ledger's tables do, none of which is on the
waiting rows, and what the reservations do. -/
theorem effects_dispatch
    (htables : ∀ {p : LedgerProgram Unit}, Frames p → Effects R (tables.run lock p))
    (ctx : OperationContext) (hreserve : ∀ i, Effects R
      (credits.reserve ctx.event.eventId (reserveKey (draw.messageId i))))
    (kind : SmsCampaignKind) (body : String) (resolve : LedgerDb → List Recipient) :
    Effects R (dispatch tables lock credits ctx kind body resolve draw) :=
  effects_bind (effects_refuse _) fun _ => effects_bind (effects_refuse _) fun _ =>
    effects_bind (effects_query _) fun _ =>
    effects_bind (htables (frames_change _ _ fun _ => rfl)) fun _ =>
    effects_bind (effects_queueAll htables hreserve _ _ _) fun _ =>
    effects_bind (htables (frames_change _ _ fun _ => rfl)) fun _ =>
    effects_bind (effects_runIf (htables (frames_enqueue _))) fun _ => trivial

end campaigns

section services
variable (ctx : OperationContext)

theorem frames_onItself {p : LedgerProgram ρ} (hp : Frames p) :
    Frames (ledgerItself.run id p) := by
  rw [ledgerItself_run]
  exact hp

theorem frames_sendReminders (reserved : String → Bool) (body : String) (personIds : List ℕ)
    (draw : CampaignDraw) :
    Frames (SmsCampaigns.sendReminders ledgerItself id (answeredCredits reserved) ctx body personIds
      draw) := by
  have hreserve (i : ℕ) : Frames ((answeredCredits reserved).reserve ctx.event.eventId
      (reserveKey (draw.messageId i))) := frames_pure _
  exact effects_dispatch frames_onItself ctx hreserve .reminder body _

variable (names : NameRules) (source : ProvenanceSource) (draw : ExecDraw)

theorem frames_bigInt (text : String) : Frames (bigInt text) := by
  unfold bigInt
  cases parseDigits text with
  | none => exact frames_throw _
  | some value => exact frames_pure value

theorem frames_resolveOrCreatePerson (name : String) (phone : Option String) :
    Frames (resolveOrCreatePerson ctx names name source phone draw) := by
  have hcreate := effects_createPerson (keeps_samePending ctx.event.eventId) draw.ledger
    draw.contributor ⟨name, phone, false, some source⟩
  refine frames_bind (frames_query _) fun existing => ?_
  cases existing with
  | resolved id found => exact frames_pure id
  | ambiguous candidates =>
    exact frames_bind hcreate fun _ => frames_bind effects_commitNow fun _ => frames_pure _
  | none => exact frames_bind hcreate fun _ => frames_bind effects_commitNow fun _ => frames_pure _

theorem frames_targetPerson (personId : Option ℕ) (name : String) (phone : Option String) :
    Frames (targetPerson ctx names personId name source phone draw) := by
  cases personId with
  | some id => exact frames_pure id
  | none => exact frames_resolveOrCreatePerson ctx names source draw name phone

theorem frames_recordPayment (i : ℕ) (name : String) (amount : ℕ) :
    Frames (recordPayment ctx i name amount source draw) :=
  frames_bind (effects_recordFulfillment (keeps_samePending _) _ _) fun _ => frames_pure _

theorem frames_giveAs (i : ℕ) (name : String) (amount : ℕ) (phone : Option String)
    (type : Option PledgeType) (description : Option String) (budgetItemId : Option ℕ) :
    Frames (giveAs ctx i name amount source phone type description budgetItemId draw) :=
  frames_bind (effects_recordDirectContribution (keeps_samePending _) _ _) fun _ => frames_pure _

theorem frames_gift (personId : Option ℕ) (name : String) (amount : ℕ) (phone : Option String)
    (type : Option PledgeType) (description : Option String) (budgetItemId : Option ℕ) :
    Frames (ToolExecutor.recordDirectContribution ctx names personId name amount source phone type
      description budgetItemId draw) := by
  cases personId with
  | some id => exact frames_giveAs ctx source draw ..
  | none =>
    refine frames_bind (frames_resolveOrCreatePerson ctx names source draw _ _) fun id =>
      frames_bind (frames_query _) fun pledge => ?_
    cases pledge with
    | resolved pledgeId => exact frames_recordPayment ctx source draw ..
    | ambiguous candidates => exact frames_giveAs ctx source draw ..
    | none => exact frames_giveAs ctx source draw ..

/-- No action of the dispatcher touches a waiting row. -/
theorem frames_run (action : StoredAction) :
    Frames (ToolExecutor.run ctx names action source draw) := by
  cases action with
  | addPerson name phone shared =>
    exact frames_bind (effects_createPerson (keeps_samePending _) _ _ _) fun _ => frames_pure _
  | recordPledge personId name amount type description phone budgetItemId =>
    exact frames_bind (frames_bigInt amount) fun _ =>
      frames_bind (frames_targetPerson ctx names source draw ..) fun _ =>
      frames_bind (effects_createPledge (keeps_samePending _) _ _) fun _ => frames_pure _
  | recordPledgeWithPayment personId name amount receivedNow type description phone budgetItemId =>
    exact frames_bind (frames_bigInt amount) fun _ =>
      frames_bind (frames_bigInt receivedNow) fun _ =>
      frames_bind (frames_targetPerson ctx names source draw ..) fun _ =>
      frames_bind (effects_recordPledgeWithPayment (keeps_samePending _) _ _) fun _ => frames_pure _
  | recordPayment pledgeId name amount =>
    exact frames_bind (frames_bigInt amount) fun _ => frames_recordPayment ctx source draw ..
  | recordDirectContribution personId name amount phone type description budgetItemId =>
    exact frames_bind (frames_bigInt amount) fun _ => frames_gift ctx names source draw ..
  | createBudgetItem name targetValue sourceDocumentId =>
    exact frames_bind (frames_bigInt targetValue) fun _ =>
      frames_bind (effects_addItem (keeps_samePending _) _ _) fun _ => frames_pure _
  | updateBudgetItem itemId name targetValue =>
    exact frames_bind (frames_bigInt targetValue) fun _ =>
      frames_bind (effects_updateItem (keeps_samePending _) _ _) fun _ => frames_pure _
  | removeBudgetItem itemId name =>
    exact frames_bind (effects_removeItem (keeps_samePending _) _ fun _ => rfl) fun _ => frames_pure _
  | allocateToBudget i j itemName name value =>
    exact frames_bind (frames_bigInt value) fun _ =>
      frames_bind (effects_allocate (keeps_samePending _) ..) fun _ => frames_pure _
  | correctPledge i name newValue =>
    exact frames_bind (frames_bigInt newValue) fun _ =>
      frames_bind (effects_correctCommittedValue (keeps_samePending _) ..) fun _ => frames_pure _
  | correctPayment i name newValue =>
    exact frames_bind (frames_bigInt newValue) fun _ =>
      frames_bind (effects_correctValue (keeps_samePending _) ..) fun _ => frames_pure _
  | mergePeople i j sourceName targetName =>
    exact frames_bind (effects_mergePeople (keeps_samePending _) _ _ fun _ => rfl) fun _ => frames_pure _
  | sendSmsReminders body =>
    exact frames_bind (frames_sendReminders ctx ..) fun _ => frames_pure _
  | inviteMember role name phone =>
    exact frames_bind (effects_createInvitation (keeps_samePending _) ..) fun _ => frames_pure _
  | getOutstandingPledge i name =>
    exact frames_bind (frames_bind (frames_refuse _) fun _ => frames_bind (frames_query _) fun _ =>
      frames_bind (frames_orThrow _ _) fun _ => frames_bind (frames_query _) fun _ =>
        frames_pure _) fun _ => frames_pure _
  | getSummary =>
    exact frames_bind (frames_bind (frames_refuse _) fun _ => frames_bind (frames_query _) fun _ =>
      frames_bind (frames_query _) fun _ => frames_bind (frames_query _) fun _ =>
      frames_bind (frames_query _) fun _ => frames_bind (frames_query _) fun _ =>
      frames_bind (frames_query _) fun _ => frames_bind (frames_query _) fun _ =>
      frames_bind (frames_query _) fun _ => frames_pure _) fun _ => frames_pure _

end services
end Akabbo.ExecutorFrame
