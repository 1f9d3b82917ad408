import Akabbo.TenantClosure
import Akabbo.CallRuns
import Akabbo.GiftSteps

/-!
# Earmarked money

The allocations of a payment against what it is worth. The typed call stores any value, the
executor runs an allocation that was weighed when it was staged, and a correction lowers the
value without a look at what is allocated.
-/
namespace Akabbo.EarmarkedMoney
open LedgerWrites hiding Invocation
open Access RowTable StatementProgram LedgerState EventWrites ServiceCalls
open ServiceSteps EventSteps ExecutorSteps CaptureSteps WeakestPreconditions GiftSteps
open ToolExecutor Confirmations CaptureRouting TenantClosure CallRuns

/-- What of a payment is allocated. -/
def allocated (db : LedgerDb) (i : ℕ) : ℕ :=
  sumWhere db.allocations.rows (fun a => a.fulfillmentId == i) Allocation.value

/-- Every allocation is of a payment that is there, and of no payment is more allocated than
it is worth. -/
structure Earmarked (db : LedgerDb) : Prop where
  paid : ∀ a ∈ db.allocations, db.fulfillments.has a.fulfillmentId = true
  covered : ∀ f ∈ db.fulfillments, allocated db f.id ≤ f.value

/-- An allocation that goes through finds its value unallocated. -/
def Fits (db : LedgerDb) (ctx : OperationContext) (i j value : ℕ) : Prop :=
  MayWrite ctx .budgetWrite → ∀ f item, db.findFulfillment ctx.event.eventId i = some f →
    findBudgetItem db ctx.event.eventId j = some item → allocated db i + value ≤ f.value

/-- A correction that goes through leaves what is allocated. -/
def Leaves (db : LedgerDb) (ctx : OperationContext) (i value : ℕ) : Prop :=
  MayWrite ctx .fulfillmentCorrect → ∀ f, db.findFulfillment ctx.event.eventId i = some f →
    allocated db i ≤ value

def ServiceCovers (db : LedgerDb) (ctx : OperationContext) : ServiceCall → Prop
  | .allocate i j value => Fits db ctx i j value
  | .ledger (.correctValue i value) => Leaves db ctx i value
  | _ => True

def ActionCovers (db : LedgerDb) (ctx : OperationContext) : StoredAction → Prop
  | .allocateToBudget i j _ _ text => ∀ value, parseDigits text = some value → Fits db ctx i j value
  | .correctPayment i _ text => ∀ value, parseDigits text = some value → Leaves db ctx i value
  | _ => True

/-- What an allocation or a correction of a payment must meet, made at once or confirmed. -/
def Covers (db : LedgerDb) (inv : Invocation) : Prop :=
  match inv.request with
  | .service call _ => ServiceCovers db inv.ctx call
  | .confirm id _ _ => ∀ row, findConfirmation db inv.ctx.event.eventId id = some row →
      row.status = .pending → ActionCovers db inv.ctx row.payload
  | _ => True

section updates
variable {db db' : LedgerDb} {ctx : OperationContext}

theorem earmarked_insertFulfillment (h : Earmarked db) {f : Fulfillment}
    (hfresh : db.fulfillments.has f.id = false) : Earmarked (db.insertFulfillment f) where
  paid a ha := by
    obtain ⟨g, hg, hid⟩ := Table.has_iff.mp (h.paid a ha)
    exact Table.has_iff.mpr ⟨g, Table.mem_insertNew_of_mem hg, hid⟩
  covered g hg := by
    rcases (Table.mem_insertNew hfresh).mp hg with hg | rfl
    · exact h.covered g hg
    · have hnone : allocated db g.id = 0 := by
        refine sumWhere_eq_zero fun a ha hid => ?_
        have hhas := h.paid a ha
        rw [beq_iff_eq.mp hid, hfresh] at hhas
        cases hhas
      have hsame : allocated (db.insertFulfillment g) g.id = allocated db g.id := rfl
      omega

theorem earmarked_setFulfillmentValue (h : Earmarked db) {e i value : ℕ}
    (hleaves : ∀ f, db.findFulfillment e i = some f → allocated db i ≤ value) :
    Earmarked (db.setFulfillmentValue e i value) where
  paid a ha := by
    obtain ⟨g, hg, hid⟩ := Table.has_iff.mp (h.paid a ha)
    refine Table.has_iff.mpr ⟨_, mem_setFulfillmentValue.mpr ⟨g, hg, rfl⟩, ?_⟩
    split_ifs
    · exact hid
    · exact hid
  covered g hg := by
    have hsame : ∀ k, allocated (db.setFulfillmentValue e i value) k = allocated db k := fun _ => rfl
    obtain ⟨x, hx, rfl⟩ := mem_setFulfillmentValue.mp hg
    rw [hsame]
    split_ifs with hsel
    · have hkey : x.eventId = e ∧ x.id = i := by simpa using hsel
      have hfound : db.findFulfillment e i = some x :=
        Table.find?_of_mem hx hsel fun r _ hr => by
          have hr : r.eventId = e ∧ r.id = i := by simpa using hr
          exact hr.2.trans hkey.2.symm
      have := hleaves x hfound
      rwa [← hkey.2] at this
    · exact h.covered x hx

theorem earmarked_insertAllocation (h : Earmarked db) {a : Allocation} {f : Fulfillment}
    (hf : f ∈ db.fulfillments) (hid : f.id = a.fulfillmentId)
    (hfits : allocated db f.id + a.value ≤ f.value) :
    Earmarked { db with allocations := db.allocations.insertNew a } := by
  cases htaken : db.allocations.has a.id with
  | true =>
    have hsame : db.allocations.insertNew a = db.allocations := by
      have hin : a.id ∈ db.allocations.rows.map Allocation.id := of_decide_eq_true htaken
      unfold Table.insertNew
      rw [dif_pos hin]
    rw [hsame]
    exact h
  | false =>
    refine ⟨fun b hb => ?_, fun g hg => ?_⟩
    · rcases (Table.mem_insertNew htaken).mp hb with hb | rfl
      · exact h.paid b hb
      · exact Table.has_iff.mpr ⟨f, hf, hid⟩
    · have hsum : allocated { db with allocations := db.allocations.insertNew a } g.id =
          allocated db g.id + if a.fulfillmentId = g.id then a.value else 0 := by
        unfold allocated
        dsimp only
        rw [Table.insertNew_rows htaken, sumWhere_append, sumWhere_cons, sumWhere_nil, add_zero]
        simp only [beq_iff_eq]
      rw [hsum]
      split_ifs with hk
      · obtain rfl : f = g := Table.key_inj hf hg (hid.trans hk)
        exact hfits
      · exact h.covered g hg

theorem earmarked_paidPledge (h : Earmarked db) {i value : ℕ}
    (hstep : PaidPledge ctx db i value db') : Earmarked db' := by
  obtain ⟨f, p, status, row, out, -, -, -, hfresh, -, -⟩ := hstep
  exact { earmarked_insertFulfillment h hfresh with }

theorem earmarked_deleteBudgetItem (h : Earmarked db) (e i : ℕ) :
    Earmarked (deleteBudgetItem db e i) := { h with }

theorem earmarked_appendAudit (h : Earmarked db) (row : AuditEvent) :
    Earmarked (db.appendAudit row) := { h with }

theorem earmarked_relinked (h : Earmarked db) (hstep : Relinked ctx db db') : Earmarked db' := by
  cases hstep with
  | same => exact h
  | set i userId => exact { h with }

theorem earmarked_moved (h : Earmarked db) (e i j : ℕ) :
    Earmarked ((db.movePledges e i j).moveFiles e i j) := { h with }

theorem earmarked_merged (h : Earmarked db) {i j : ℕ} (hstep : Merged ctx db i j db') :
    Earmarked db' := by
  cases hstep with
  | mk target row found freed inherited audit free =>
    exact { earmarked_relinked (earmarked_moved (earmarked_relinked h freed) _ _ _) inherited with }

theorem earmarked_contributed (h : Earmarked db) {personId : Option ℕ} {i : ℕ}
    (hstep : Contributed ctx db personId i db') : Earmarked db' := by
  cases hstep with
  | known q hq => exact h
  | added step =>
    cases step
    exact { h with }

end updates

section services
variable {db : LedgerDb} {ctx : OperationContext}

theorem earmarked_opened (h : Earmarked db) {action : String} {i j value : ℕ} {line : Option ℕ}
    {db' : LedgerDb} (hstep : OpenedPledge ctx db action i line value j db') : Earmarked db' := by
  cases hstep
  exact { h with }

theorem earmarked_allocate (h : Earmarked db) {i j value : ℕ} (hfits : Fits db ctx i j value)
    (draw : EventDraw) : wp Earmarked (allocate ctx i j value draw) (fun _ => Earmarked) db := by
  by_cases hmay : MayWrite ctx .budgetWrite
  · refine wp_allocate fun _ id f item row hf hitem _ => earmarked_appendAudit ?_ row
    obtain ⟨hmem, -, hid⟩ := findFulfillment_mem hf
    have hcovers := hfits hmay f item hf hitem
    rw [← hid] at hcovers
    exact earmarked_insertAllocation h hmem hid hcovers
  · exact wp_gates_bind fun hrole hstatus => absurd ⟨hrole, hstatus⟩ hmay

theorem earmarked_correctValue (h : Earmarked db) {i value : ℕ} (hleaves : Leaves db ctx i value) :
    wp Earmarked (correctValue ctx i value) (fun _ => Earmarked) db := by
  by_cases hmay : MayWrite ctx .fulfillmentCorrect
  · refine wp_correctValue fun _ j status row _ => ?_
    exact { earmarked_setFulfillmentValue h (hleaves hmay) with }
  · exact wp_gates_bind fun hrole hstatus => absurd ⟨hrole, hstatus⟩ hmay

theorem earmarked_ledgerCall (h : Earmarked db) {call : LedgerCall} {draw : LedgerState.Draw}
    (hc : ServiceCovers db ctx (.ledger call)) :
    wp Earmarked (call.program ctx draw) (fun _ => Earmarked) db := by
  cases call with
  | createPerson ent input =>
    exact wp_map <| wp_createPerson fun _ _ _ hstep =>
      earmarked_contributed h (.added hstep)
  | createPledge input =>
    exact wp_map <| wp_createPledge fun _ _ _ _ _ hstep => earmarked_opened h hstep
  | recordFulfillment input =>
    exact wp_map <| wp_recordFulfillment (fun _ _ => h) fun _ _ hstep => earmarked_paidPledge h hstep
  | recordDirectContribution input =>
    refine wp_map <| wp_recordDirectContribution (fun _ _ => h) ?_
    exact fun _ _ _ _ _ _ hcontributed hopened hpaid => earmarked_paidPledge
      (earmarked_opened (earmarked_contributed h hcontributed) hopened) hpaid
  | recordPledgeWithPayment input =>
    refine wp_map <| wp_recordPledgeWithPayment ?_ ?_
    · exact fun _ _ _ _ _ hopened => earmarked_opened h hopened
    · exact fun _ _ _ _ _ _ hopened hpaid => earmarked_paidPledge (earmarked_opened h hopened) hpaid
  | correctCommittedValue i value =>
    exact wp_map <| wp_correctCommittedValue fun _ _ row _ => { h with }
  | correctValue i value => exact wp_map (earmarked_correctValue h hc)
  | cancelPledge i => exact wp_map <| wp_cancelPledge fun _ row _ => { h with }
  | mergePeople i j => exact wp_map <| wp_mergePeople fun _ _ hstep => earmarked_merged h hstep

/-- Events and what leaves the payments and the allocations alone commits in two parts. -/
theorem earmarked_service (h : Earmarked db) {call : ServiceCall} {draw : ServiceDraw}
    (hc : ServiceCovers db ctx call) :
    wp Earmarked (call.program ctx draw) (fun _ => Earmarked) db := by
  cases call with
  | ledger call => exact wp_map (earmarked_ledgerCall h hc)
  | createEvent input => exact wp_map <| wp_createEvent fun _ _ _ _ _ _ => { h with }
  | updateEvent input =>
    exact wp_map <| wp_gates_bind fun _ _ => wp_query_bind <| wp_orThrow_bind fun _ _ =>
      wp_updateEventRow_bind fun _ _ => wp_commitNow_bind { h with } <|
      wp_writeAudit_bind fun _ _ => wp_pure { h with }
  | setEventStatus status =>
    exact wp_map <| wp_refuse_bind fun _ => wp_query_bind <| wp_orThrow_bind fun _ _ =>
      wp_updateEventRow_bind fun _ _ => wp_commitNow_bind { h with } <|
      wp_writeAudit_bind fun _ _ => wp_pure { h with }
  | updateSettings input => exact wp_map <| wp_updateSettings fun _ _ _ _ => { h with }
  | rotateAccessToken =>
    exact wp_map <| wp_refuse_bind fun _ => wp_setToken fun _ _ _ _ => { h with }
  | clearAccessToken =>
    exact wp_map <| wp_refuse_bind fun _ => wp_setToken fun _ _ _ _ => { h with }
  | addMember userId role => exact wp_map <| wp_addMember fun _ _ _ _ => { h with }
  | updateRole userId role => exact wp_map <| wp_addMember fun _ _ _ _ => { h with }
  | createInvitation input => exact wp_map <| wp_createInvitation fun _ _ => { h with }
  | acceptInvitation token =>
    refine wp_map <| wp_query_bind <| wp_orThrow_bind fun inv _ => wp_refuse_bind fun _ => ?_
    split_ifs
    · exact wp_runIf_bind
        (fun _ => wp_accept fun _ => wp_commitNow_bind { h with } (wp_throw _))
        fun _ => wp_commitNow_bind h (wp_throw _)
    · exact wp_join (fun _ => h) fun _ _ _ _ _ _ => { h with }
  | revokeInvitation i => exact wp_revokeInvitation fun _ => { h with }
  | updateContact i phone shared =>
    exact wp_map <| wp_updateContact fun _ row _ => { h with }
  | linkPersonToUser i userId =>
    exact wp_map <| wp_linkPersonToUser (fun _ => { h with }) fun _ row _ => { h with }
  | createGroup name kind => exact wp_map <| wp_createGroup fun _ _ _ _ => { h with }
  | assignPerson i j role => exact wp_map <| wp_assignPerson fun _ _ _ _ _ _ _ => { h with }
  | addItem input => exact wp_map <| wp_addItem fun _ _ _ _ _ _ _ _ => { h with }
  | updateItem i input => exact wp_map <| wp_updateItem fun _ _ _ _ => { h with }
  | removeItem i =>
    exact wp_map <| wp_removeItem fun _ row _ _ =>
      earmarked_appendAudit (earmarked_deleteBudgetItem h _ _) row
  | allocate i j value => exact wp_map (earmarked_allocate h hc _)
  | upload maxBytes input => exact wp_map <| wp_upload fun _ _ _ _ _ => { h with }
  | submitForExtraction i kind =>
    exact wp_map <| wp_submitForExtraction fun _ _ _ _ _ _ _ _ => { h with }

end services

section executor
variable {db : LedgerDb} {ctx : OperationContext} {draw : ExecDraw} (names : NameRules)

theorem earmarked_target_bind (h : Earmarked db) {τ : Type} {personId : Option ℕ} {name : String}
    {source : ProvenanceSource} {phone : Option String} {f : ℕ → LedgerProgram τ}
    (hf : ∀ i db', Earmarked db' → wp Earmarked (f i) (fun _ => Earmarked) db') :
    wp Earmarked (targetPerson ctx names personId name source phone draw >>= f)
      (fun _ => Earmarked) db :=
  wp_targetPerson_bind (fun i _ => hf i db h) fun _ _ _ hstep =>
    have h' := earmarked_contributed h (.added hstep)
    ⟨h', hf _ _ h'⟩

theorem earmarked_recordPayment (h : Earmarked db) (i : ℕ) (name : String) (amount : ℕ)
    (source : ProvenanceSource) :
    wp Earmarked (recordPayment ctx i name amount source draw) (fun _ => Earmarked) db :=
  wp_bind <| wp_recordFulfillment (fun _ _ => wp_pure h) fun _ _ hstep =>
    wp_pure (earmarked_paidPledge h hstep)

theorem earmarked_giveAs (h : Earmarked db) (i : ℕ) (name : String) (amount : ℕ)
    (source : ProvenanceSource) (phone : Option String) (type : Option PledgeType)
    (description : Option String) (line : Option ℕ) :
    wp Earmarked (giveAs ctx i name amount source phone type description line draw)
      (fun _ => Earmarked) db := by
  refine wp_bind <| wp_recordDirectContribution (fun _ _ => wp_pure h) ?_
  exact fun _ _ _ _ _ _ hcontributed hopened hpaid => wp_pure (earmarked_paidPledge
    (earmarked_opened (earmarked_contributed h hcontributed) hopened) hpaid)

/-- Whatever the executor does for an action that its payment covers. -/
theorem earmarked_run (h : Earmarked db) {action : StoredAction}
    (hc : ActionCovers db ctx action) (source : ProvenanceSource) :
    wp Earmarked (ToolExecutor.run ctx names action source draw) (fun _ => Earmarked) db := by
  cases action with
  | addPerson name phone shared =>
    exact wp_bind <| wp_createPerson fun _ _ _ hstep =>
      wp_pure (earmarked_contributed h (.added hstep))
  | recordPledge personId name amount type description phone budgetItemId =>
    exact wp_bigInt_bind fun value _ => earmarked_target_bind names h fun i db' h' =>
      wp_bind <| wp_createPledge fun _ _ _ _ _ hstep => wp_pure (earmarked_opened h' hstep)
  | recordPledgeWithPayment personId name amount receivedNow type description phone budgetItemId =>
    refine wp_bigInt_bind fun committed _ => wp_bigInt_bind fun received _ =>
      earmarked_target_bind names h fun i db' h' => ?_
    refine wp_bind <| wp_recordPledgeWithPayment ?_ ?_
    · exact fun _ _ _ _ _ hopened => wp_pure (earmarked_opened h' hopened)
    · exact fun _ _ _ _ _ _ hopened hpaid =>
        wp_pure (earmarked_paidPledge (earmarked_opened h' hopened) hpaid)
  | recordPayment pledgeId name amount =>
    exact wp_bigInt_bind fun value _ => earmarked_recordPayment h pledgeId name value source
  | recordDirectContribution personId name amount phone type description budgetItemId =>
    refine wp_bigInt_bind fun value _ => ?_
    cases personId with
    | some id => exact earmarked_giveAs h id name value source phone type description budgetItemId
    | none =>
      change wp _ (targetPerson ctx names none name source phone draw >>= _) _ _
      refine earmarked_target_bind names h fun i db' h' => wp_query_bind ?_
      split
      · exact earmarked_recordPayment h' _ name value source
      · exact earmarked_giveAs h' i name value source phone type description budgetItemId
  | createBudgetItem name targetValue sourceDocumentId =>
    exact wp_bigInt_bind fun value _ =>
      wp_bind <| wp_addItem fun _ _ _ _ _ _ _ _ => wp_pure { h with }
  | updateBudgetItem itemId name targetValue =>
    exact wp_bigInt_bind fun value _ =>
      wp_bind <| wp_updateItem fun _ _ _ _ => wp_pure { h with }
  | removeBudgetItem itemId name =>
    exact wp_bind <| wp_removeItem fun _ row _ _ =>
      wp_pure (earmarked_appendAudit (earmarked_deleteBudgetItem h _ _) row)
  | allocateToBudget i j itemName name text =>
    exact wp_bigInt_bind fun value hvalue =>
      wp_bind <| wp_mono (earmarked_allocate h (hc value hvalue) _) fun _ _ h' => wp_pure h'
  | correctPledge i name newValue =>
    exact wp_bigInt_bind fun value _ => wp_bind <| wp_correctCommittedValue fun _ _ row _ =>
      wp_pure { h with }
  | correctPayment i name text =>
    exact wp_bigInt_bind fun value hvalue =>
      wp_bind <| wp_mono (earmarked_correctValue h (hc value hvalue)) fun _ _ h' => wp_pure h'
  | mergePeople i j sourceName targetName =>
    exact wp_bind <| wp_mergePeople fun _ _ hstep => wp_pure (earmarked_merged h hstep)
  | sendSmsReminders body => exact wp_sendReminders fun _ _ _ _ => { h with }
  | inviteMember role name phone =>
    exact wp_bind <| wp_createInvitation fun _ _ => wp_pure { h with }
  | getOutstandingPledge i name => exact wp_getOutstanding fun _ => h
  | getSummary => exact wp_getSummary fun _ => h

theorem earmarked_pending (h : Earmarked db)
    (pendingConfirmations : Table ℕ PendingConfirmation PendingConfirmation.id) :
    Earmarked { db with pendingConfirmations } := { h with }

/-- Nothing that a tool call is resolved to allocates or corrects. -/
theorem covers_resolved {tier : CaptureTier} {call : ToolCall} {action : StoredAction}
    {prompt : String}
    (h : ResolvesTo names db ctx.event.eventId tier call (.action action prompt)) :
    ActionCovers db ctx action := by
  cases action with
  | allocateToBudget i j itemName name text =>
    generalize hr : ResolvedWrite.action _ prompt = r at h
    cases h with
    | newPledge name amount type description receivedNow line received =>
      cases received <;> cases hr
    | pledge name amount type description receivedNow line received =>
      cases received <;> cases hr
    | payment name amount type description line i =>
      cases hp : pledgeOf db ctx.event.eventId i <;> (rw [hp] at hr; cases hr)
    | _ => cases hr
  | correctPayment i name text =>
    generalize hr : ResolvedWrite.action _ prompt = r at h
    cases h with
    | newPledge name amount type description receivedNow line received =>
      cases received <;> cases hr
    | pledge name amount type description receivedNow line received =>
      cases received <;> cases hr
    | payment name amount type description line i =>
      cases hp : pledgeOf db ctx.event.eventId i <;> (rw [hp] at hr; cases hr)
    | _ => cases hr
  | _ => trivial

end executor

theorem earmarked_request {db : LedgerDb} (names : NameRules) (h : Earmarked db)
    {inv : Invocation} (hc : Covers db inv) :
    wp Earmarked (inv.request.program names inv.ctx) (fun _ => Earmarked) db := by
  obtain ⟨ctx, request, stop⟩ := inv
  cases request with
  | service call draw => exact earmarked_service h hc
  | capture call confidence tier forceStage rowId draw =>
    exact wp_map <| wp_route (fun _ _ => h)
      (fun _ _ hr => earmarked_run names h (covers_resolved names hr) _)
      fun _ _ _ _ => earmarked_pending h _
  | propose action confidence prompt rowId =>
    exact wp_map (wp_create fun _ => earmarked_pending h _)
  | edit id edits =>
    exact wp_map <| wp_readPending_bind fun _ _ _ => wp_refuse_bind fun _ =>
      wp_modifyChecked_bind fun _ _ => wp_pure (earmarked_pending h _)
  | confirm id now draw =>
    refine wp_map <| wp_bind <| wp_readPending_bind fun row hrow hpending =>
      wp_modifyChecked_bind fun _ _ => wp_pure <| wp_commitNow_bind (earmarked_pending h _) ?_
    have hcovers := hc row hrow hpending
    refine earmarked_run names (earmarked_pending h _) ?_ row.source
    cases hp : row.payload <;> rw [hp] at hcovers <;> exact hcovers
  | reject id now =>
    exact wp_map <| wp_readPending_bind fun _ _ _ => wp_modifyChecked_bind fun _ _ =>
      wp_pure (earmarked_pending h _)

/-- In every state of a run, no payment is allocated beyond its worth, if every allocation
finds its value unallocated and every correction leaves what is allocated. -/
theorem earmarked_while_covered (names : NameRules) (db : LedgerDb) (requests : List Invocation)
    (h : Earmarked db) (hcond : everyCall (Invocation.step names) Covers db requests) :
    throughout (Invocation.step names) Earmarked (fun _ _ => True) db requests := by
  refine throughout_of_step (P := Covers) (fun db' inv hs hcovers => ⟨trivial, ?_⟩) h hcond
  exact leaves_wp (I := Earmarked) (fun _ _ h' => h') (earmarked_request names hs hcovers) hs inv.stop

/-- An event, a gift of 100 in it (payment 2), and a budget line (3). -/
def funded : List Invocation :=
  [⟨ownerOf 7, .service (.createEvent ⟨"Wedding", none, none, none, none, none⟩) (drawOf 7), none⟩,
    ⟨ownerOf 7, .service (.ledger (.recordDirectContribution
      { displayName := some "Achieng", value := 100 })) (drawOf 2), none⟩,
    ⟨ownerOf 7, .service (.addItem ⟨"Tents", 900, none, none⟩) (drawOf 3), none⟩]

def allocation (value n : ℕ) : Invocation :=
  ⟨ownerOf 7, .service (.allocate 2 3 value) (drawOf n), none⟩

def lowered (value : ℕ) : Invocation :=
  ⟨ownerOf 7, .service (.ledger (.correctValue 2 value)) (drawOf 9), none⟩

theorem earmarked_newUser : Earmarked newUser := ⟨by simp [newUser, LedgerDb.empty], by
  simp [newUser, LedgerDb.empty]⟩

set_option maxRecDepth 4000 in
/-- One payment is allocated twice over, or allocated and then lowered. -/
theorem money_earmarked_twice :
    ¬ Earmarked (requestRun plainNames newUser (funded ++ [allocation 80 4, allocation 80 5])) ∧
      ¬ Earmarked (requestRun plainNames newUser (funded ++ [allocation 80 4, lowered 50])) := by
  constructor
  · intro h
    have hover : ¬ ∀ f ∈ (requestRun plainNames newUser
        (funded ++ [allocation 80 4, allocation 80 5])).fulfillments.rows,
        allocated (requestRun plainNames newUser (funded ++ [allocation 80 4, allocation 80 5]))
          f.id ≤ f.value := by decide
    exact hover h.covered
  · intro h
    have hover : ¬ ∀ f ∈ (requestRun plainNames newUser
        (funded ++ [allocation 80 4, lowered 50])).fulfillments.rows,
        allocated (requestRun plainNames newUser (funded ++ [allocation 80 4, lowered 50]))
          f.id ≤ f.value := by decide
    exact hover h.covered

set_option maxRecDepth 4000 in
theorem earmarked_while_covered_funded :
    throughout (Invocation.step plainNames) Earmarked (fun _ _ => True) newUser
      (funded ++ [allocation 80 4, lowered 90]) := by
  refine earmarked_while_covered plainNames newUser _ earmarked_newUser
    ⟨trivial, trivial, trivial, fun _ f item hf _ => ?_, fun _ f _ => ?_, trivial⟩
  · cases hf
    decide
  · decide

end Akabbo.EarmarkedMoney
