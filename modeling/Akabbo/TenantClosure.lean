import Akabbo.CaptureSteps
import Akabbo.TenantLinks

/-!
# References stay within their event

Row-level security hides the rows of other events, but a foreign key accepts them. Whether
a reference stays within its event is up to the writer of the row.
-/
namespace Akabbo.TenantClosure
open Access RowTable TenantLinks StatementProgram ProgramParts LedgerState LedgerWrites EventWrites
open ServiceCalls ServiceSteps EventSteps ExecutorSteps WeakestPreconditions ToolExecutor
open Confirmations CaptureRouting CaptureSteps
open StatementProgram.Program (query modify modifyChecked accept refuse orThrow runIf commitNow)

/-- Every reference between rows of events names a row of the same event. -/
structure Closed (db : LedgerDb) : Prop where
  pledgePerson : Linked db.pledges db.persons Pledge.eventId Person.eventId
    fun p => some p.personId
  pledgeLine : Linked db.pledges db.budgetItems Pledge.eventId BudgetItem.eventId
    Pledge.targetBudgetItemId
  paymentPledge : Linked db.fulfillments db.pledges Fulfillment.eventId Pledge.eventId
    fun f => some f.pledgeId
  allocationPayment : Linked db.allocations db.fulfillments Allocation.eventId Fulfillment.eventId
    fun a => some a.fulfillmentId
  allocationLine : Linked db.allocations db.budgetItems Allocation.eventId BudgetItem.eventId
    fun a => some a.budgetItemId
  groupedPerson : Linked db.personGroups db.persons PersonGroup.eventId Person.eventId
    fun r => some r.personId
  groupedGroup : Linked db.personGroups db.groups PersonGroup.eventId ContributorGroup.eventId
    fun r => some r.groupId
  filePerson : Linked db.files db.persons FileObject.eventId Person.eventId FileObject.personId
  documentFile : Linked db.documents db.files Document.eventId FileObject.eventId
    fun d => some d.fileId
  lineDocument : Linked db.budgetItems db.documents BudgetItem.eventId Document.eventId
    BudgetItem.sourceDocumentId

/-- No row of another event has this id. -/
def HomeOnly {ρ : Type} {key : ρ → ℕ} (u : Table ℕ ρ key) (tenant : ρ → ℕ) (e : ℕ)
    (supplied : Option ℕ) : Prop :=
  ∀ k, supplied = some k → ∀ r ∈ u, key r = k → tenant r = e

/-- The budget line that a caller names. -/
def LineHome (db : LedgerDb) (e : ℕ) (line : Option ℕ) : Prop :=
  HomeOnly db.budgetItems BudgetItem.eventId e line

/-- The document that a caller names. -/
def DocumentHome (db : LedgerDb) (e : ℕ) (document : Option ℕ) : Prop :=
  HomeOnly db.documents Document.eventId e document

/-- The only references that a service stores without a lookup of its own. -/
def ServiceScoped (db : LedgerDb) (e : ℕ) : ServiceCall → Prop
  | .ledger (.createPledge input) => LineHome db e input.targetBudgetItemId
  | .ledger (.recordDirectContribution input) => LineHome db e input.targetBudgetItemId
  | .ledger (.recordPledgeWithPayment input) => LineHome db e input.targetBudgetItemId
  | .addItem input => DocumentHome db e input.sourceDocumentId
  | _ => True

/-- The same references in an action that waits. -/
def ActionScoped (db : LedgerDb) (e : ℕ) : StoredAction → Prop
  | .recordPledge _ _ _ _ _ _ budgetItemId => LineHome db e budgetItemId
  | .recordPledgeWithPayment _ _ _ _ _ _ _ budgetItemId => LineHome db e budgetItemId
  | .recordDirectContribution _ _ _ _ _ _ budgetItemId => LineHome db e budgetItemId
  | .createBudgetItem _ _ sourceDocumentId => DocumentHome db e sourceDocumentId
  | _ => True

section changes
variable {db : LedgerDb} {e : ℕ}

theorem closed_appendAudit (h : Closed db) (row : AuditEvent) : Closed (db.appendAudit row) :=
  { h with }

theorem closed_insertOutbox (h : Closed db) (row : OutboxRow) : Closed (db.insertOutbox row) :=
  { h with }

theorem closed_insertPerson (h : Closed db) (q : Person) : Closed (db.insertPerson q) :=
  { h with
    pledgePerson := linked_insertNew_target h.pledgePerson
    groupedPerson := linked_insertNew_target h.groupedPerson
    filePerson := linked_insertNew_target h.filePerson }

theorem closed_updatePerson (h : Closed db) {i : ℕ} {f : Person → Person}
    {hf : ∀ q, (f q).id = q.id} (hkeep : ∀ q, (f q).eventId = q.eventId) :
    Closed (db.updatePerson e i f hf) :=
  { h with
    pledgePerson := linked_update_target h.pledgePerson rfl fun q => ⟨hf q, hkeep q⟩
    groupedPerson := linked_update_target h.groupedPerson rfl fun q => ⟨hf q, hkeep q⟩
    filePerson := linked_update_target h.filePerson rfl fun q => ⟨hf q, hkeep q⟩ }

theorem closed_insertPledge (h : Closed db) {p : Pledge}
    (hperson : Owns db.persons Person.eventId p.eventId p.personId)
    (hline : ∀ k, p.targetBudgetItemId = some k →
      Owns db.budgetItems BudgetItem.eventId p.eventId k) : Closed (db.insertPledge p) :=
  { h with
    pledgePerson := linked_insertNew h.pledgePerson fun k hk => by
      obtain rfl := Option.some.inj hk
      exact hperson
    pledgeLine := linked_insertNew h.pledgeLine hline
    paymentPledge := linked_insertNew_target h.paymentPledge }

/-- An update that leaves a pledge's references alone. -/
theorem closed_updatePledge (h : Closed db) {i : ℕ} {f : Pledge → Pledge}
    {hf : ∀ p, (f p).id = p.id}
    (hkeep : ∀ p, (f p).personId = p.personId ∧ (f p).targetBudgetItemId = p.targetBudgetItemId ∧
      (f p).eventId = p.eventId) : Closed (db.updatePledge e i f hf) :=
  { h with
    pledgePerson := linked_update_same h.pledgePerson rfl fun p =>
      ⟨congrArg some (hkeep p).1, (hkeep p).2.2⟩
    pledgeLine := linked_update_same h.pledgeLine rfl fun p => ⟨(hkeep p).2.1, (hkeep p).2.2⟩
    paymentPledge := linked_update_target h.paymentPledge rfl fun p => ⟨hf p, (hkeep p).2.2⟩ }

theorem closed_setPledgeStatus (h : Closed db) (i : ℕ) (status : PledgeStatus.Status) :
    Closed (db.setPledgeStatus e i status) := by
  unfold LedgerDb.setPledgeStatus
  exact closed_updatePledge h fun _ => ⟨rfl, rfl, rfl⟩

theorem closed_insertFulfillment (h : Closed db) {f : Fulfillment}
    (hpledge : Owns db.pledges Pledge.eventId f.eventId f.pledgeId) :
    Closed (db.insertFulfillment f) :=
  { h with
    paymentPledge := linked_insertNew h.paymentPledge fun k hk => by
      obtain rfl := Option.some.inj hk
      exact hpledge
    allocationPayment := linked_insertNew_target h.allocationPayment }

theorem closed_setFulfillmentValue (h : Closed db) (i value : ℕ) :
    Closed (db.setFulfillmentValue e i value) :=
  { h with
    paymentPledge := linked_update_same h.paymentPledge rfl fun _ => ⟨rfl, rfl⟩
    allocationPayment := linked_update_target h.allocationPayment rfl fun _ => ⟨rfl, rfl⟩ }

theorem closed_movePledges (h : Closed db) {i j : ℕ}
    (htarget : Owns db.persons Person.eventId e j) : Closed (db.movePledges e i j) :=
  { h with
    pledgePerson := linked_update h.pledgePerson rfl fun p _ hsel k hk => by
      obtain rfl := Option.some.inj hk
      have he : p.eventId = e := by simpa using (Bool.and_eq_true_iff.mp hsel).1
      exact he ▸ htarget
    pledgeLine := linked_update_same h.pledgeLine rfl fun _ => ⟨rfl, rfl⟩
    paymentPledge := linked_update_target h.paymentPledge rfl fun _ => ⟨rfl, rfl⟩ }

theorem closed_moveFiles (h : Closed db) {i j : ℕ}
    (htarget : Owns db.persons Person.eventId e j) : Closed (db.moveFiles e i j) :=
  { h with
    filePerson := linked_update h.filePerson rfl fun f _ hsel k hk => by
      obtain rfl := Option.some.inj hk
      have he : f.eventId = e := by simpa using (Bool.and_eq_true_iff.mp hsel).1
      exact he ▸ htarget
    documentFile := linked_update_target h.documentFile rfl fun _ => ⟨rfl, rfl⟩ }

/-- A person that no pledge names goes, and every other row lets go of it. -/
theorem closed_deletePerson (h : Closed db) {i : ℕ} (hfree : ∀ p ∈ db.pledges, p.personId ≠ i) :
    Closed (db.deletePerson e i) := by
  have hgone {k : ℕ} {q : Person} (hk : k ≠ i) (hq : q.id = k) :
      (q.eventId == e && q.id == i) = false := by
    simp [hq, hk]
  exact
    { h with
      pledgePerson := linked_delete_target h.pledgePerson fun p hp q _ hk =>
        hgone (hfree p hp) (Option.some.inj hk).symm
      groupedPerson := linked_delete_target (linked_delete h.groupedPerson) fun r hr q _ hk =>
        hgone (by simpa using (Table.mem_delete.mp hr).2) (Option.some.inj hk).symm
      groupedGroup := linked_delete h.groupedGroup
      filePerson := by
        refine linked_delete_target (linked_update h.filePerson rfl fun _ _ _ k hk => by cases hk) ?_
        intro f hf q _ hk
        obtain ⟨g, -, rfl⟩ := List.mem_map.mp hf
        split_ifs at hk with hsel
        refine hgone (k := q.id) (fun hqi => hsel ?_) rfl
        simp [hk, hqi]
      documentFile := linked_update_target h.documentFile rfl fun _ => ⟨rfl, rfl⟩ }

theorem closed_deleteBudgetItem (h : Closed db) {i : ℕ}
    (hfree : ∀ a ∈ db.allocations, a.budgetItemId ≠ i) : Closed (deleteBudgetItem db e i) := by
  have hgone {b : BudgetItem} (hb : b.id ≠ i) : (b.eventId == e && b.id == i) = false := by
    simp [hb]
  exact
    { h with
      pledgePerson := linked_update_same h.pledgePerson rfl fun _ => ⟨rfl, rfl⟩
      pledgeLine := by
        refine linked_delete_target (linked_update h.pledgeLine rfl fun _ _ _ k hk => by cases hk) ?_
        intro p hp b _ hk
        obtain ⟨r, -, rfl⟩ := List.mem_map.mp hp
        split_ifs at hk with hsel
        refine hgone fun hbi => hsel ?_
        simp [hk, hbi]
      paymentPledge := linked_update_target h.paymentPledge rfl fun _ => ⟨rfl, rfl⟩
      allocationLine := linked_delete_target h.allocationLine fun a ha b _ hk =>
        hgone fun hbi => hfree a ha ((Option.some.inj hk).trans hbi)
      lineDocument := linked_delete h.lineDocument }

end changes

section steps
variable {db db' : LedgerDb} {ctx : OperationContext}

theorem owns_of_findPerson {e i : ℕ} {q : Person} (h : db.findPerson e i = some q) :
    Owns db.persons Person.eventId e i := by
  obtain ⟨hq, he, hi⟩ := findPerson_mem h
  exact ⟨q, hq, hi, he⟩

theorem closed_addedPerson (h : Closed db) {name : String} {phone : Option String} {i : ℕ}
    (hstep : AddedPerson ctx db name phone i db') :
    Closed db' ∧ Owns db'.persons Person.eventId ctx.event.eventId i := by
  obtain ⟨q, row, rfl, hevent, -, -, hfresh, -⟩ := hstep
  have hmem : q ∈ db.persons.insertNew q := (Table.mem_insertNew hfresh).mpr (.inr rfl)
  exact ⟨closed_appendAudit (closed_insertPerson h q) row, q, hmem, rfl, hevent⟩

/-- The foreign key finds a line of the name; the caller's name is at home. -/
theorem closed_openedPledge (h : Closed db) {action : String} {i j value : ℕ} {line : Option ℕ}
    (hperson : Owns db.persons Person.eventId ctx.event.eventId i)
    (hline : LineHome db ctx.event.eventId line)
    (hstep : OpenedPledge ctx db action i line value j db') : Closed db' := by
  obtain ⟨p, row, hevent, rfl, rfl, -, -, hlegal, -⟩ := hstep
  rw [← hevent] at hperson hline
  refine closed_appendAudit (closed_insertPledge h hperson fun k hk => ?_) row
  unfold pledgeViolation at hlegal
  split_ifs at hlegal with _ _ hitem
  have hhas : db.budgetItems.has k = true := by simpa [hk] using hitem
  obtain ⟨b, hb, hbk⟩ := Table.has_iff.mp hhas
  exact ⟨b, hb, hbk, hline k hk b hb hbk⟩

theorem closed_paidPledge (h : Closed db) {i value : ℕ} (hstep : PaidPledge ctx db i value db') :
    Closed db' := by
  obtain ⟨f, p, status, row, out, hevent, rfl, -, -, hfound, -⟩ := hstep
  obtain ⟨hp, hpe, hpi⟩ := findPledge_mem hfound
  have hinsert := closed_insertFulfillment h ⟨p, hp, hpi, hpe.trans hevent.symm⟩
  exact closed_insertOutbox (closed_appendAudit (closed_setPledgeStatus hinsert _ _) row) out

theorem closed_contributed (h : Closed db) {personId : Option ℕ} {i : ℕ} {line : Option ℕ}
    (hline : LineHome db ctx.event.eventId line) (hstep : Contributed ctx db personId i db') :
    Closed db' ∧ Owns db'.persons Person.eventId ctx.event.eventId i ∧
      LineHome db' ctx.event.eventId line := by
  cases hstep with
  | known q hq => exact ⟨h, owns_of_findPerson hq, hline⟩
  | added step =>
    obtain ⟨hclosed, howns⟩ := closed_addedPerson h step
    cases step
    exact ⟨hclosed, howns, hline⟩

theorem closed_relinked (h : Closed db) (hstep : Relinked ctx db db') : Closed db' := by
  cases hstep with
  | same => exact h
  | set i userId => exact closed_updatePerson h fun _ => rfl

theorem owns_relinked {e i : ℕ} (h : Owns db.persons Person.eventId e i)
    (hstep : Relinked ctx db db') : Owns db'.persons Person.eventId e i := by
  cases hstep with
  | same => exact h
  | set j userId => exact owns_update rfl (fun _ => ⟨rfl, rfl⟩) h

theorem closed_merged (h : Closed db) {i j : ℕ} (hstep : Merged ctx db i j db') : Closed db' := by
  obtain ⟨target, row, hfound, hfreed, hinherited, -, hfree⟩ := hstep
  have htarget := owns_relinked (owns_of_findPerson hfound) hfreed
  have hmoved := closed_moveFiles (i := i)
    (closed_movePledges (i := i) (closed_relinked h hfreed) htarget) htarget
  exact closed_deletePerson (closed_appendAudit (closed_relinked hmoved hinherited) row) hfree

end steps

section services
variable {db : LedgerDb} {ctx : OperationContext}

theorem closed_ledgerCall (h : Closed db) {call : LedgerCall} {draw : LedgerState.Draw}
    (hs : ServiceScoped db ctx.event.eventId (.ledger call)) :
    wp Closed (call.program ctx draw) (fun _ => Closed) db := by
  cases call with
  | createPerson ent input =>
    exact wp_map <| wp_createPerson fun _ _ _ hstep => (closed_addedPerson h hstep).1
  | createPledge input =>
    exact wp_map <| wp_createPledge fun _ _ _ _ hq hstep =>
      closed_openedPledge h (owns_of_findPerson hq) hs hstep
  | recordFulfillment input =>
    exact wp_map <| wp_recordFulfillment (fun _ _ => h) fun _ _ hstep => closed_paidPledge h hstep
  | recordDirectContribution input =>
    refine wp_map <| wp_recordDirectContribution (fun _ _ => h) ?_
    intro _ i v₁ j v₂ v₃ hcontributed hopened hpaid
    obtain ⟨h₁, howns, hline⟩ := closed_contributed h hs hcontributed
    exact closed_paidPledge (closed_openedPledge h₁ howns hline hopened) hpaid
  | recordPledgeWithPayment input =>
    refine wp_map <| wp_recordPledgeWithPayment ?_ ?_
    · exact fun _ _ _ _ hq hopened => closed_openedPledge h (owns_of_findPerson hq) hs hopened
    · exact fun _ _ _ _ _ hq hopened hpaid =>
        closed_paidPledge (closed_openedPledge h (owns_of_findPerson hq) hs hopened) hpaid
  | correctCommittedValue i value =>
    refine wp_map <| wp_correctCommittedValue fun _ _ row _ => closed_appendAudit ?_ row
    exact closed_updatePledge h fun _ => ⟨rfl, rfl, rfl⟩
  | correctValue i value =>
    exact wp_map <| wp_correctValue fun _ _ _ row _ =>
      closed_appendAudit (closed_setPledgeStatus (closed_setFulfillmentValue h _ _) _ _) row
  | cancelPledge i =>
    exact wp_map <| wp_cancelPledge fun _ row _ =>
      closed_appendAudit (closed_setPledgeStatus h _ _) row
  | mergePeople i j => exact wp_map <| wp_mergePeople fun _ _ hstep => closed_merged h hstep

/-- A refusal or a commit away from the linked tables, while an event row changes. -/
theorem closed_updateEvent (h : Closed db) (input : UpdateEventInput) :
    wp Closed (updateEvent ctx input) (fun _ => Closed) db :=
  wp_gates_bind fun _ _ => wp_query_bind <| wp_orThrow_bind fun _ _ =>
    wp_updateEventRow_bind fun _ _ => wp_commitNow_bind { h with } <|
    wp_writeAudit_bind fun _ _ => wp_pure { h with }

theorem closed_setEventStatus (h : Closed db) (status : EventStatus) :
    wp Closed (setEventStatus ctx status) (fun _ => Closed) db :=
  wp_refuse_bind fun _ => wp_query_bind <| wp_orThrow_bind fun _ _ =>
    wp_updateEventRow_bind fun _ _ => wp_commitNow_bind { h with } <|
    wp_writeAudit_bind fun _ _ => wp_pure { h with }

theorem closed_acceptInvitation (h : Closed db) (actor : Actor) (token : String) (now : ℕ) :
    wp Closed (acceptInvitation actor token now) (fun _ => Closed) db := by
  refine wp_query_bind <| wp_orThrow_bind fun inv _ => wp_refuse_bind fun _ => ?_
  split_ifs
  · exact wp_runIf_bind (fun _ => wp_accept fun _ => wp_commitNow_bind { h with } (wp_throw _))
      fun _ => wp_commitNow_bind h (wp_throw _)
  · exact wp_join (fun _ => h) fun _ _ _ _ _ _ => { h with }

theorem closed_addItem (h : Closed db) {input : BudgetItemInput} {draw : EventDraw}
    (hs : DocumentHome db ctx.event.eventId input.sourceDocumentId) :
    wp Closed (addItem ctx input draw) (fun _ => Closed) db := by
  refine wp_addItem fun _ budgets item row hevent hdocument hlegal _ => ?_
  unfold budgetItemViolation at hlegal
  split_ifs at hlegal with _ hfound
  exact
    { h with
      pledgeLine := linked_insertNew_target h.pledgeLine
      allocationLine := linked_insertNew_target h.allocationLine
      lineDocument := linked_insertNew h.lineDocument fun k hk => by
        have hhas : db.documents.has k = true := by simpa [hk] using hfound
        obtain ⟨d, hd, hdk⟩ := Table.has_iff.mp hhas
        exact ⟨d, hd, hdk, hevent ▸ hs k (hdocument ▸ hk) d hd hdk⟩ }

theorem closed_updateItem (h : Closed db) (i : ℕ) (input : UpdateItemInput) :
    wp Closed (updateItem ctx i input) (fun _ => Closed) db :=
  wp_updateItem fun _ _ _ _ =>
    { h with
      pledgeLine := linked_update_target h.pledgeLine rfl fun _ => ⟨rfl, rfl⟩
      allocationLine := linked_update_target h.allocationLine rfl fun _ => ⟨rfl, rfl⟩
      lineDocument := linked_update_same h.lineDocument rfl fun _ => ⟨rfl, rfl⟩ }

theorem closed_allocate (h : Closed db) (i j value : ℕ) (draw : EventDraw) :
    wp Closed (allocate ctx i j value draw) (fun _ => Closed) db := by
  refine wp_allocate fun _ _ f item _ hf hitem _ => ?_
  obtain ⟨hfm, hfe, hfi⟩ := findFulfillment_mem hf
  have hitem' : item ∈ db.budgetItems ∧ item.eventId = ctx.event.eventId ∧ item.id = j := by
    simpa using Table.mem_of_find? hitem
  exact
    { h with
      allocationPayment := linked_insertNew h.allocationPayment fun k hk => by
        obtain rfl := Option.some.inj hk
        exact ⟨f, hfm, hfi, hfe⟩
      allocationLine := linked_insertNew h.allocationLine fun k hk => by
        obtain rfl := Option.some.inj hk
        exact ⟨item, hitem'.1, hitem'.2.2, hitem'.2.1⟩ }

theorem closed_assignPerson (h : Closed db) (i j : ℕ) (role : Option String) :
    wp Closed (assignPerson ctx i j role) (fun _ => Closed) db := by
  refine wp_assignPerson fun _ q g _ hq hg _ => ?_
  have hg' : g ∈ db.groups ∧ g.eventId = ctx.event.eventId ∧ g.id = j := by
    simpa using Table.mem_of_find? hg
  exact
    { h with
      groupedPerson := linked_insertNew h.groupedPerson fun k hk => by
        obtain rfl := Option.some.inj hk
        exact owns_of_findPerson hq
      groupedGroup := linked_insertNew h.groupedGroup fun k hk => by
        obtain rfl := Option.some.inj hk
        exact ⟨g, hg'.1, hg'.2.2, hg'.2.1⟩ }

theorem closed_upload (h : Closed db) (maxBytes : ℕ) (input : UploadFileInput) (draw : EventDraw) :
    wp Closed (upload ctx maxBytes input draw) (fun _ => Closed) db := by
  refine wp_upload fun f _ hevent hperson _ => ?_
  exact
    { h with
      filePerson := linked_insertNew h.filePerson fun k hk => by
        obtain ⟨q, hq⟩ := hperson k hk
        exact hevent ▸ owns_of_findPerson hq
      documentFile := linked_insertNew_target h.documentFile }

theorem closed_submitForExtraction (h : Closed db) (i : ℕ) (kind : ExtractionKind)
    (draw : EventDraw) : wp Closed (submitForExtraction ctx i kind draw) (fun _ => Closed) db := by
  refine wp_submitForExtraction fun d f _ _ hf hevent hfile _ => ?_
  have hf' : f ∈ db.files ∧ f.eventId = ctx.event.eventId ∧ f.id = i := by
    simpa using Table.mem_of_find? hf
  exact
    { h with
      documentFile := linked_insertNew h.documentFile fun k hk => by
        obtain rfl := Option.some.inj hk
        exact ⟨f, hf'.1, hf'.2.2.trans hfile.symm, hf'.2.1.trans hevent.symm⟩
      lineDocument := linked_insertNew_target h.lineDocument }

/-- Every typed call keeps references within their event, at each of its commits. -/
theorem closed_service (h : Closed db) {call : ServiceCall} {draw : ServiceDraw}
    (hs : ServiceScoped db ctx.event.eventId call) :
    wp Closed (call.program ctx draw) (fun _ => Closed) db := by
  cases call with
  | ledger call => exact wp_map (closed_ledgerCall h hs)
  | createEvent input => exact wp_map <| wp_createEvent fun _ _ _ _ _ _ => { h with }
  | updateEvent input => exact wp_map (closed_updateEvent h input)
  | setEventStatus status => exact wp_map (closed_setEventStatus h status)
  | updateSettings input => exact wp_map <| wp_updateSettings fun _ _ _ _ => { h with }
  | rotateAccessToken =>
    exact wp_map <| wp_refuse_bind fun _ => wp_setToken fun _ _ _ _ => { h with }
  | clearAccessToken =>
    exact wp_map <| wp_refuse_bind fun _ => wp_setToken fun _ _ _ _ => { h with }
  | addMember userId role => exact wp_map <| wp_addMember fun _ _ _ _ => { h with }
  | updateRole userId role => exact wp_map <| wp_addMember fun _ _ _ _ => { h with }
  | createInvitation input => exact wp_map <| wp_createInvitation fun _ _ => { h with }
  | acceptInvitation token => exact wp_map (closed_acceptInvitation h _ _ _)
  | revokeInvitation i => exact wp_revokeInvitation fun _ => { h with }
  | updateContact i phone shared =>
    refine wp_map <| wp_updateContact fun _ row _ => closed_appendAudit ?_ row
    exact closed_updatePerson h fun _ => rfl
  | linkPersonToUser i userId =>
    refine wp_map <| wp_linkPersonToUser (fun _ => h) fun _ row _ => closed_appendAudit ?_ row
    exact closed_updatePerson h fun _ => rfl
  | createGroup name kind =>
    exact wp_map <| wp_createGroup fun _ _ _ _ =>
      { h with groupedGroup := linked_insertNew_target h.groupedGroup }
  | assignPerson i j role => exact wp_map (closed_assignPerson h i j role)
  | addItem input => exact wp_map (closed_addItem h hs)
  | updateItem i input => exact wp_map (closed_updateItem h i input)
  | removeItem i =>
    exact wp_map <| wp_removeItem fun _ row hfree _ =>
      closed_appendAudit (closed_deleteBudgetItem h hfree) row
  | allocate i j value => exact wp_map (closed_allocate h i j value _)
  | upload maxBytes input => exact wp_map (closed_upload h maxBytes input _)
  | submitForExtraction i kind => exact wp_map (closed_submitForExtraction h i kind _)

end services

section executor
variable {db : LedgerDb} {ctx : OperationContext} {draw : ExecDraw}

variable (names : NameRules)

/-- The contributor of an action, known or new, leaves references within their event. -/
theorem closed_target_bind (h : Closed db) {line : Option ℕ}
    (hline : LineHome db ctx.event.eventId line) {τ : Type} {personId : Option ℕ} {name : String}
    {source : ProvenanceSource} {phone : Option String} {f : ℕ → LedgerProgram τ}
    (hf : ∀ i db', Closed db' → LineHome db' ctx.event.eventId line →
      wp Closed (f i) (fun _ => Closed) db') :
    wp Closed (targetPerson ctx names personId name source phone draw >>= f) (fun _ => Closed) db := by
  refine wp_targetPerson_bind (fun i _ => hf i db h hline) fun _ _ db' hstep => ?_
  obtain ⟨h', -⟩ := closed_addedPerson h hstep
  cases hstep
  exact ⟨h', hf _ _ h' hline⟩

theorem closed_recordPayment (h : Closed db) (i : ℕ) (name : String) (amount : ℕ)
    (source : ProvenanceSource) :
    wp Closed (recordPayment ctx i name amount source draw) (fun _ => Closed) db :=
  wp_bind <| wp_recordFulfillment (fun _ _ => wp_pure h) fun _ _ hstep =>
    wp_pure (closed_paidPledge h hstep)

theorem closed_giveAs (h : Closed db) {line : Option ℕ}
    (hline : LineHome db ctx.event.eventId line) (i : ℕ) (name : String) (amount : ℕ)
    (source : ProvenanceSource) (phone : Option String) (type : Option PledgeType)
    (description : Option String) :
    wp Closed (giveAs ctx i name amount source phone type description line draw)
      (fun _ => Closed) db := by
  refine wp_bind <| wp_recordDirectContribution (fun _ _ => wp_pure h) ?_
  intro _ i v₁ j v₂ v₃ hcontributed hopened hpaid
  obtain ⟨h₁, howns, hline₁⟩ := closed_contributed h hline hcontributed
  exact wp_pure (closed_paidPledge (closed_openedPledge h₁ howns hline₁ hopened) hpaid)

theorem closed_gift (h : Closed db) {line : Option ℕ}
    (hline : LineHome db ctx.event.eventId line) (personId : Option ℕ) (name : String)
    (amount : ℕ) (source : ProvenanceSource) (phone : Option String) (type : Option PledgeType)
    (description : Option String) :
    wp Closed (ToolExecutor.recordDirectContribution ctx names personId name amount source phone
      type description line draw) (fun _ => Closed) db := by
  cases personId with
  | some id => exact closed_giveAs h hline id name amount source phone type description
  | none =>
    change wp _ (targetPerson ctx names none name source phone draw >>= _) _ _
    refine closed_target_bind names h hline fun i db' h' hline' => wp_query_bind ?_
    split
    · exact closed_recordPayment h' _ name amount source
    · exact closed_giveAs h' hline' i name amount source phone type description

/-- Whatever the executor does for an action, references stay within their event, if the ids
that the action brings along do. -/
theorem closed_run (h : Closed db) {action : StoredAction}
    (hs : ActionScoped db ctx.event.eventId action) (source : ProvenanceSource) :
    wp Closed (ToolExecutor.run ctx names action source draw) (fun _ => Closed) db := by
  cases action with
  | addPerson name phone shared =>
    exact wp_bind <| wp_createPerson fun _ _ _ hstep => wp_pure (closed_addedPerson h hstep).1
  | recordPledge personId name amount type description phone budgetItemId =>
    exact wp_bigInt_bind fun value _ => closed_target_bind names h hs fun i db' h' hline' =>
      wp_bind <| wp_createPledge fun _ _ _ _ hq hstep =>
      wp_pure (closed_openedPledge h' (owns_of_findPerson hq) hline' hstep)
  | recordPledgeWithPayment personId name amount receivedNow type description phone budgetItemId =>
    refine wp_bigInt_bind fun committed _ => wp_bigInt_bind fun received _ =>
      closed_target_bind names h hs fun i db' h' hline' => ?_
    refine wp_bind <| wp_recordPledgeWithPayment ?_ ?_
    · exact fun _ _ _ _ hq hopened =>
        wp_pure (closed_openedPledge h' (owns_of_findPerson hq) hline' hopened)
    · exact fun _ _ _ _ _ hq hopened hpaid => wp_pure
        (closed_paidPledge (closed_openedPledge h' (owns_of_findPerson hq) hline' hopened) hpaid)
  | recordPayment pledgeId name amount =>
    exact wp_bigInt_bind fun value _ => closed_recordPayment h pledgeId name value source
  | recordDirectContribution personId name amount phone type description budgetItemId =>
    exact wp_bigInt_bind fun value _ =>
      closed_gift names h hs personId name value source phone type description
  | createBudgetItem name targetValue sourceDocumentId =>
    exact wp_bigInt_bind fun value _ =>
      wp_bind <| wp_mono (closed_addItem h hs) fun _ _ h' => wp_pure h'
  | updateBudgetItem itemId name targetValue =>
    exact wp_bigInt_bind fun value _ =>
      wp_bind <| wp_mono (closed_updateItem h itemId _) fun _ _ h' => wp_pure h'
  | removeBudgetItem itemId name =>
    exact wp_bind <| wp_removeItem fun _ row hfree _ =>
      wp_pure (closed_appendAudit (closed_deleteBudgetItem h hfree) row)
  | allocateToBudget i j itemName name value =>
    exact wp_bigInt_bind fun value _ =>
      wp_bind <| wp_mono (closed_allocate h i j value _) fun _ _ h' => wp_pure h'
  | correctPledge i name newValue =>
    refine wp_bigInt_bind fun value _ => wp_bind <| wp_correctCommittedValue fun _ _ row _ =>
      wp_pure (closed_appendAudit ?_ row)
    exact closed_updatePledge h fun _ => ⟨rfl, rfl, rfl⟩
  | correctPayment i name newValue =>
    exact wp_bigInt_bind fun value _ => wp_bind <| wp_correctValue fun _ _ _ row _ =>
      wp_pure (closed_appendAudit (closed_setPledgeStatus (closed_setFulfillmentValue h _ _) _ _)
        row)
  | mergePeople i j sourceName targetName =>
    exact wp_bind <| wp_mergePeople fun _ _ hstep => wp_pure (closed_merged h hstep)
  | sendSmsReminders body => exact wp_sendReminders fun _ _ _ _ => { h with }
  | inviteMember role name phone =>
    exact wp_bind <| wp_createInvitation fun _ _ => wp_pure { h with }
  | getOutstandingPledge i name =>
    exact wp_bind <| wp_refuse_bind fun _ => wp_query_bind <| wp_orThrow_bind fun _ _ =>
      wp_query_bind <| wp_pure (wp_pure h)
  | getSummary =>
    exact wp_bind <| wp_refuse_bind fun _ => wp_query_bind <| wp_query_bind <| wp_query_bind <|
      wp_query_bind <| wp_query_bind <| wp_query_bind <| wp_query_bind <| wp_query_bind <|
      wp_pure (wp_pure h)

end executor

section confirmations
variable {db : LedgerDb} {ctx : OperationContext} (names : NameRules)

theorem closed_pending (h : Closed db)
    (pendingConfirmations : Table ℕ PendingConfirmation PendingConfirmation.id) :
    Closed { db with pendingConfirmations } := { h with }

theorem closed_confirm (h : Closed db) (i now : ℕ) (draw : ExecDraw)
    (hs : ∀ row, findConfirmation db ctx.event.eventId i = some row → row.status = .pending →
      ActionScoped db ctx.event.eventId row.payload) :
    wp Closed (confirm ctx names i now draw) (fun _ => Closed) db := by
  refine wp_bind <| wp_readPending_bind fun row hrow hpending => wp_modifyChecked_bind fun _ _ =>
    wp_pure <| wp_commitNow_bind (closed_pending h _) ?_
  have hscoped := hs row hrow hpending
  have hclosed := closed_pending h (db.pendingConfirmations.update
    (fun row => row.eventId == ctx.event.eventId && row.id == i) (resolveAs .confirmed ctx now)
    fun _ => rfl)
  refine closed_run names hclosed ?_ row.source
  cases hp : row.payload <;> rw [hp] at hscoped <;> exact hscoped

/-- A line found by its name is the event's own. -/
theorem budgetItemNamed_home (e : ℕ) (name : Option String) :
    LineHome db e (budgetItemNamed names db e name) := by
  intro k hk b hb hbk
  unfold budgetItemNamed at hk
  dsimp only at hk
  split_ifs at hk
  split at hk
  · next x hx =>
    have hmem : x ∈ db.budgetItems.rows.filter _ := hx ▸ List.mem_singleton_self x
    obtain ⟨hxm, hsel⟩ := List.mem_filter.mp hmem
    obtain rfl := Table.key_inj (t := db.budgetItems) hb hxm
      (hbk.trans (Option.some.inj hk).symm)
    simpa using (Bool.and_eq_true_iff.mp hsel).1
  · cases hk

/-- What resolving finds is the event's own. -/
theorem scoped_resolved {tier : CaptureTier} {call : ToolCall} {action : StoredAction}
    {prompt : String}
    (h : ResolvesTo names db ctx.event.eventId tier call (.action action prompt)) :
    ActionScoped db ctx.event.eventId action := by
  generalize hr : ResolvedWrite.action action prompt = r at h
  have hhome (name : Option String) : LineHome db ctx.event.eventId
      (budgetItemNamed names db ctx.event.eventId name) :=
    budgetItemNamed_home names ctx.event.eventId name
  cases h with
  | clarified call r => cases hr
  | person name phone shared =>
    cases hr
    trivial
  | newPledge name amount type description receivedNow line received =>
    cases received <;> (cases hr; exact hhome line)
  | pledge name amount type description receivedNow line received =>
    cases received <;> (cases hr; exact hhome line)
  | newGift name amount type description line =>
    cases hr
    exact hhome line
  | payment name amount type description line i =>
    cases hp : pledgeOf db ctx.event.eventId i with
    | none =>
      rw [hp] at hr
      cases hr
      exact hhome line
    | ambiguous candidates =>
      rw [hp] at hr
      cases hr
    | resolved j =>
      rw [hp] at hr
      cases hr
      trivial

theorem closed_route (h : Closed db) (call : ToolCall) (confidence : ℚ) (tier : CaptureTier)
    (forceStage : Bool) (rowId : ℕ) (draw : ExecDraw) :
    wp Closed (route ctx names call confidence tier forceStage rowId draw)
      (fun _ => Closed) db :=
  wp_route (fun _ _ => h) (fun _ _ hr => closed_run names h (scoped_resolved names hr) _)
    fun _ _ _ _ => closed_pending h _

end confirmations

/-- The typed API, the assistant's tool calls, and what happens to a proposed action. -/
inductive Request
  | service (call : ServiceCall) (draw : ServiceDraw)
  | capture (call : ToolCall) (confidence : ℚ) (tier : CaptureTier) (forceStage : Bool) (rowId : ℕ)
      (draw : ExecDraw)
  | propose (action : StoredAction) (confidence : Option ℚ) (prompt : String) (rowId : ℕ)
  | edit (id : ℕ) (edits : UpdatePendingInput)
  | confirm (id now : ℕ) (draw : ExecDraw)
  | reject (id now : ℕ)

def Request.program (names : NameRules) (ctx : OperationContext) : Request → LedgerProgram Unit
  | .service call draw => call.program ctx draw
  | .capture call confidence tier forceStage rowId draw =>
      discard (route ctx names call confidence tier forceStage rowId draw)
  | .propose action confidence prompt rowId => discard (create ctx action confidence prompt rowId)
  | .edit id edits => discard (update ctx id edits)
  | .confirm id now draw => discard (Confirmations.confirm ctx names id now draw)
  | .reject id now => discard (Confirmations.reject ctx id now)

/-- A request of a run: who makes it, and where it is stopped, if it is. -/
structure Invocation where
  ctx : OperationContext
  request : Request
  stop : Option ℕ

def Invocation.step (names : NameRules) (db : LedgerDb) (inv : Invocation) : LedgerDb :=
  leaves inv.stop (inv.request.program names inv.ctx) db

def requestRun (names : NameRules) (db : LedgerDb) (requests : List Invocation) : LedgerDb :=
  requests.foldl (Invocation.step names) db

/-- The ids that are stored without a lookup are the event's own, or nobody's. -/
def Scoped (db : LedgerDb) (inv : Invocation) : Prop :=
  match inv.request with
  | .service call _ => ServiceScoped db inv.ctx.event.eventId call
  | .confirm id _ _ => ∀ row, findConfirmation db inv.ctx.event.eventId id = some row →
      row.status = .pending → ActionScoped db inv.ctx.event.eventId row.payload
  | _ => True

theorem closed_request {db : LedgerDb} (names : NameRules) (h : Closed db) {inv : Invocation}
    (hs : Scoped db inv) :
    wp Closed (inv.request.program names inv.ctx) (fun _ => Closed) db := by
  obtain ⟨ctx, request, stop⟩ := inv
  cases request with
  | service call draw => exact closed_service h hs
  | capture call confidence tier forceStage rowId draw =>
    exact wp_map (closed_route names h call confidence tier forceStage rowId draw)
  | propose action confidence prompt rowId =>
    exact wp_map (wp_create fun _ => closed_pending h _)
  | edit id edits =>
    exact wp_map <| wp_readPending_bind fun _ _ _ => wp_refuse_bind fun _ =>
      wp_modifyChecked_bind fun _ _ => wp_pure (closed_pending h _)
  | confirm id now draw => exact wp_map (closed_confirm names h id now draw hs)
  | reject id now =>
    exact wp_map <| wp_readPending_bind fun _ _ _ => wp_modifyChecked_bind fun _ _ =>
      wp_pure (closed_pending h _)

/-- Wherever requests fail or are stopped, references stay within their event, as long as no
caller names a budget line or a document of another event. -/
theorem scoped_requests_stay_closed (names : NameRules) {db : LedgerDb} (h : Closed db)
    (requests : List Invocation)
    (hcond : ∀ before inv after, requests = before ++ inv :: after →
      Scoped (requestRun names db before) inv) :
    Closed (requestRun names db requests) := by
  refine foldl_invariant (I := Closed) (C := Scoped) (fun db' inv hdb' hscoped => ?_) h requests hcond
  exact leaves_wp (I := Closed) (fun _ _ h' => h') (closed_request names hdb' hscoped) hdb' inv.stop

theorem closed_empty : Closed .empty :=
  ⟨linked_empty, linked_empty, linked_empty, linked_empty, linked_empty, linked_empty, linked_empty,
    linked_empty, linked_empty, linked_empty⟩

/-- User 1 before there is any event. -/
def newUser : LedgerDb :=
  { LedgerDb.empty with users := LedgerDb.empty.users.insertNew ⟨1, none⟩ }

theorem closed_newUser : Closed newUser := { closed_empty with }

def ownerOf (eventId : ℕ) : OperationContext := ⟨⟨1, true⟩, ⟨eventId, .owner, .active⟩⟩

def drawOf (n : ℕ) : ServiceDraw :=
  ⟨⟨n, n, n, 10⟩, ⟨10, n, n, s!"token-{n}", { allowed := true }, none⟩⟩

/-- A budget line in event 8 and a contributor in event 7. -/
def twoEvents : List Invocation :=
  [⟨ownerOf 7, .service (.createEvent ⟨"Wedding", none, none, none, none, none⟩) (drawOf 7), none⟩,
    ⟨ownerOf 8, .service (.createEvent ⟨"Funeral", none, none, none, none, none⟩) (drawOf 8), none⟩,
    ⟨ownerOf 8, .service (.addItem ⟨"Tents", 900, none, none⟩) (drawOf 30), none⟩,
    ⟨ownerOf 7, .service (.ledger (.createPerson { allowed := true } ⟨"Achieng", none, false, none⟩))
      (drawOf 3), none⟩]

def pledgeFor (line : Option ℕ) : Invocation :=
  ⟨ownerOf 7, .service (.ledger (.createPledge ⟨3, 500, none, line, none, none, none, none, none⟩))
    (drawOf 5), none⟩

/-- Event 7 gets a line of its own, and its pledge names that one. -/
def ownLine : List Invocation :=
  twoEvents ++ [⟨ownerOf 7, .service (.addItem ⟨"Cake", 400, none, none⟩) (drawOf 40), none⟩,
    pledgeFor (some 40)]

theorem line_ownLine : ∀ n : Fin (ownLine.length + 1),
    ∀ b ∈ (requestRun plainNames newUser (ownLine.take n)).budgetItems.rows, b.id = 40 →
      b.eventId = 7 := by decide +kernel

theorem scoped_requests_stay_closed_ownLine : Closed (requestRun plainNames newUser ownLine) := by
  refine scoped_requests_stay_closed plainNames closed_newUser _ ?_
  intro before inv after hrequests
  have htake : ownLine.take before.length = before := by simp [hrequests]
  have hlen : before.length < ownLine.length + 1 := by simp [hrequests]
  have hinv : inv ∈ ownLine := by
    rw [hrequests]
    simp
  simp only [ownLine, twoEvents, List.cons_append, List.nil_append, List.mem_cons, List.not_mem_nil,
    or_false] at hinv
  rcases hinv with rfl | rfl | rfl | rfl | rfl | rfl
  · trivial
  · trivial
  · exact fun k hk => by cases hk
  · trivial
  · exact fun k hk => by cases hk
  · intro k hk b hb hid
    cases hk
    have hline := line_ownLine ⟨before.length, hlen⟩
    rw [htake] at hline
    exact hline b hb hid

set_option maxRecDepth 4000 in
/-- The foreign key of a pledge in event 7 accepts the budget line of event 8. -/
theorem pledge_names_another_events_line :
    ¬ ∀ (names : NameRules) (requests : List Invocation),
      Closed (requestRun names newUser requests) := by
  intro h
  have hclosed := h plainNames (twoEvents ++ [pledgeFor (some 30)])
  have hpledge : ∃ p ∈ (requestRun plainNames newUser
      (twoEvents ++ [pledgeFor (some 30)])).pledges.rows,
      p.eventId = 7 ∧ p.targetBudgetItemId = some 30 := by decide
  have hlines : ∀ b ∈ (requestRun plainNames newUser
      (twoEvents ++ [pledgeFor (some 30)])).budgetItems.rows, b.eventId = 8 := by decide
  obtain ⟨p, hp, he, hline⟩ := hpledge
  obtain ⟨b, hb, -, hbe⟩ := hclosed.pledgeLine p hp 30 hline
  have height := hlines b hb
  omega

end Akabbo.TenantClosure
