import Akabbo.ServiceCalls
import Akabbo.ProgramParts

/-!
# The write statements of the services

Which row changes the typed calls are made of, each applied to whatever rows there are by
then. What each of them keeps, every call keeps, among any others.
-/
namespace Akabbo.ServiceEffects
open Access RowTable StatementProgram ProgramParts LedgerState LedgerWrites EventWrites ServiceCalls
open StatementProgram.Program (query modify modifyChecked accept refuse orThrow runIf commitNow)

/-- A relation between databases that the writes of a call on event `e` satisfy. The two
deletions reach into other events, and are left to the calls that make them. -/
structure Keeps (e : ℕ) (R : LedgerDb → LedgerDb → Prop) : Prop where
  refl : ∀ db, R db db
  appendAudit : ∀ db row, R db (db.appendAudit row)
  insertOutbox : ∀ db row, R db (db.insertOutbox row)
  insertPerson : ∀ db q, q.eventId = e → R db (db.insertPerson q)
  updatePerson : ∀ db i f hf, (∀ q, (f q).eventId = q.eventId) → R db (db.updatePerson e i f hf)
  insertPledge : ∀ db p, p.eventId = e → R db (db.insertPledge p)
  updatePledge : ∀ db i f hf, (∀ p, (f p).eventId = p.eventId) → R db (db.updatePledge e i f hf)
  movePledges : ∀ db i j, R db (db.movePledges e i j)
  insertFulfillment : ∀ db f, f.eventId = e → R db (db.insertFulfillment f)
  setFulfillmentValue : ∀ db i value, R db (db.setFulfillmentValue e i value)
  insertGroup : ∀ db g, g.eventId = e → R db { db with groups := db.groups.insertNew g }
  insertPersonGroup : ∀ db r, r.eventId = e →
    R db { db with personGroups := db.personGroups.insertNew r }
  insertBudget : ∀ db b, b.eventId = e → R db { db with budgets := db.budgets.insertNew b }
  insertBudgetItem : ∀ db i, i.eventId = e →
    R db { db with budgetItems := db.budgetItems.insertNew i }
  updateBudgetItem : ∀ db k f hf, (∀ i : BudgetItem, (f i).eventId = i.eventId) →
    R db { db with
      budgetItems := db.budgetItems.update (fun i => i.eventId == e && i.id == k) f hf }
  insertAllocation : ∀ db a, a.eventId = e →
    R db { db with allocations := db.allocations.insertNew a }
  setEvents : ∀ db events, R db { db with events }
  setMembers : ∀ db members, R db { db with members }
  setInvitations : ∀ db invitations, R db { db with invitations }
  setFiles : ∀ db files, R db { db with files }
  setDocuments : ∀ db documents, R db { db with documents }

variable {R : LedgerDb → LedgerDb → Prop} {ctx : OperationContext} {ρ : Type}

section statements

theorem effects_gates (action : Action) : Effects R (gates ctx action) :=
  effects_bind (effects_refuse _) fun _ => effects_refuse _

/-- Past the gates the event was writable when the caller's context was made. -/
theorem effects_gates_bind {action : Action} {next : Unit → LedgerProgram ρ}
    (h : isWritable ctx.event.status = true → Effects R (next ())) :
    Effects R (gates ctx action >>= next) := by
  unfold gates
  cases assertPermission ctx.event.role action with
  | some e => trivial
  | none =>
    unfold assertEventWritable
    split_ifs with hw
    · exact h hw
    · trivial

variable (k : Keeps ctx.event.eventId R)
include k

theorem effects_checked {α : Type} (l : LedgerDb → List RowLock) (q : LedgerDb → Except Refusal α)
    {w : LedgerDb → LedgerDb} (h : ∀ db, R db (w db)) : Effects R (modifyChecked l q w) :=
  effects_modifyChecked k.refl l q h

theorem effects_change (l : List RowLock) (violation : LedgerDb → Option Refusal)
    {w : LedgerDb → LedgerDb} (h : ∀ db, R db (w db)) : Effects R (change l violation w) :=
  effects_checked k _ _ h

theorem effects_writeAudit (ctx' : OperationContext) (action resourceType : String)
    (resourceId : ℕ) (source : ProvenanceSource)
    (oldValue newValue : Option (List (String × Json))) :
    Effects R (writeAudit ctx' action resourceType resourceId source oldValue newValue) :=
  effects_modify _ fun db => k.appendAudit db _

theorem effects_enqueue (row : OutboxRow) : Effects R (enqueue row) :=
  effects_checked k _ _ fun db => k.insertOutbox db row

theorem effects_insertPerson (q : Person) (h : q.eventId = ctx.event.eventId) :
    Effects R (insertPerson q) := effects_checked k _ _ fun db => k.insertPerson db q h

theorem effects_insertPledge (p : Pledge) (h : p.eventId = ctx.event.eventId) :
    Effects R (insertPledge p) := effects_checked k _ _ fun db => k.insertPledge db p h

theorem effects_updatePledge (i : ℕ) (f : Pledge → Pledge) (hf : ∀ p, (f p).id = p.id)
    (h : ∀ p, (f p).eventId = p.eventId) :
    Effects R (updatePledge ctx.event.eventId i f hf) :=
  effects_checked k _ _ fun db => k.updatePledge db i f hf h

theorem effects_setUserId (i : ℕ) (userId : Option ℕ) :
    Effects R (setUserId ctx.event.eventId i userId) :=
  effects_checked k _ _ fun db => k.updatePerson db i _ _ fun _ => rfl

theorem effects_updateEventRow (i : ℕ) (f : Event → Event) (hf : ∀ e, (f e).id = e.id) :
    Effects R (updateEventRow i f hf) := effects_checked k _ _ fun db => k.setEvents db _

theorem effects_upsertMember (member : EventMember) (update : EventMember → EventMember)
    (hu : ∀ m, (update m).key = m.key) : Effects R (upsertMember member update hu) :=
  effects_change k _ _ fun db => by
    split_ifs
    · exact k.setMembers db _
    · exact k.setMembers db _

theorem effects_updateInvitation (i : ℕ) (f : Invitation → Invitation) (hf : ∀ v, (f v).id = v.id) :
    Effects R (updateInvitation i f hf) := effects_change k _ _ fun db => k.setInvitations db _

end statements

section ledger
variable (k : Keeps ctx.event.eventId R) (draw : LedgerState.Draw)

theorem effects_requirePerson (i : ℕ) : Effects R (requirePerson ctx i) :=
  effects_bind (effects_query _) fun _ => effects_orThrow _ _

theorem effects_findByIdempotencyKey (key : Option String) :
    Effects R (findByIdempotencyKey ctx key) := by
  unfold findByIdempotencyKey
  split
  · trivial
  · split_ifs
    · trivial
    · refine effects_bind (effects_query _) fun existing => ?_
      cases existing with
      | none => trivial
      | some f =>
        exact effects_bind (effects_query _) fun _ =>
          effects_bind (effects_orThrow _ _) fun _ =>
          effects_bind (effects_query _) fun _ => trivial

theorem effects_assertWithinCommitted (i committed value : ℕ) (excluded : Option ℕ) :
    Effects R (assertWithinCommitted ctx i committed value excluded) := by
  refine effects_bind (effects_query _) fun _ => ?_
  dsimp only
  split_ifs
  · trivial
  · trivial

include k

theorem effects_createPerson (ent : EntitlementDecision) (input : CreatePersonInput) :
    Effects R (createPerson ctx ent input draw) :=
  effects_bind (effects_gates _) fun _ =>
    effects_bind (effects_refuse _) fun _ =>
    effects_bind (effects_runIf (effects_runIf (effects_bind
      (effects_query _) fun _ => effects_refuse _))) fun _ =>
    effects_bind (effects_insertPerson k _ rfl) fun _ =>
    effects_bind (effects_writeAudit k ..) fun _ => trivial

theorem effects_createPledge (input : CreatePledgeInput) :
    Effects R (createPledge ctx input draw) :=
  effects_bind (effects_gates _) fun _ =>
    effects_bind (effects_refuse _) fun _ =>
    effects_bind (effects_requirePerson _) fun _ =>
    effects_bind (effects_insertPledge k _ rfl) fun _ =>
    effects_bind (effects_writeAudit k ..) fun _ => trivial

theorem effects_writeFulfillment (input : WriteFulfillmentInput) :
    Effects R (writeFulfillment ctx input draw) :=
  effects_bind (effects_checked k _ _ fun db => k.insertFulfillment db _ rfl) fun _ =>
    effects_bind (effects_query _) fun _ =>
    effects_bind (effects_updatePledge k _ _ _ fun _ => rfl) fun _ =>
    effects_bind (effects_writeAudit k ..) fun _ =>
    effects_bind (effects_enqueue k _) fun _ => trivial

theorem effects_recordFulfillment (input : RecordFulfillmentInput) :
    Effects R (recordFulfillment ctx input draw) := by
  refine effects_bind (effects_gates _) fun _ =>
    effects_bind (effects_refuse _) fun _ =>
    effects_bind (effects_findByIdempotencyKey _) fun replay => ?_
  cases replay with
  | some view => trivial
  | none =>
    exact effects_bind (effects_query _) fun _ =>
      effects_bind (effects_orThrow _ _) fun _ =>
      effects_bind (effects_refuse _) fun _ =>
      effects_bind (effects_runIf (effects_bind (effects_query _) fun _ => effects_refuse _)) fun _ =>
      effects_bind (effects_assertWithinCommitted _ _ _ _) fun _ =>
      effects_writeFulfillment k draw _

theorem effects_directContributor (input : RecordDirectContributionInput) :
    Effects R (directContributor ctx input draw) := by
  unfold directContributor
  split
  · exact effects_bind (effects_requirePerson _) fun _ => trivial
  · split
    · trivial
    · split_ifs
      · trivial
      · exact effects_bind (effects_insertPerson k _ rfl) fun _ =>
          effects_bind (effects_writeAudit k ..) fun _ => trivial

theorem effects_recordDirectContribution (input : RecordDirectContributionInput) :
    Effects R (recordDirectContribution ctx input draw) := by
  refine effects_bind (effects_gates _) fun _ =>
    effects_bind (effects_refuse _) fun _ =>
    effects_bind (effects_findByIdempotencyKey _) fun replay => ?_
  cases replay with
  | some view => trivial
  | none =>
    exact effects_bind (effects_directContributor k draw input) fun _ =>
      effects_bind (effects_insertPledge k _ rfl) fun _ =>
      effects_bind (effects_writeAudit k ..) fun _ => effects_writeFulfillment k draw _

theorem effects_recordPledgeWithPayment (input : RecordPledgeWithPaymentInput) :
    Effects R (recordPledgeWithPayment ctx input draw) := by
  refine effects_bind (effects_gates _) fun _ =>
    effects_bind (effects_refuse _) fun _ =>
    effects_bind (effects_requirePerson _) fun _ =>
    effects_bind (effects_refuse _) fun _ =>
    effects_bind (effects_insertPledge k _ rfl) fun _ =>
    effects_bind (effects_writeAudit k ..) fun _ => ?_
  split_ifs
  · trivial
  · exact effects_writeFulfillment k draw _

theorem effects_correctCommittedValue (i value : ℕ) :
    Effects R (correctCommittedValue ctx i value) :=
  effects_bind (effects_gates _) fun _ =>
    effects_bind (effects_query _) fun _ =>
    effects_bind (effects_orThrow _ _) fun _ =>
    effects_bind (effects_query _) fun _ =>
    effects_bind (effects_updatePledge k _ _ _ fun _ => rfl) fun _ =>
    effects_bind (effects_writeAudit k ..) fun _ => trivial

theorem effects_correctValue (i value : ℕ) : Effects R (correctValue ctx i value) := by
  refine effects_bind (effects_gates _) fun _ =>
    effects_bind (effects_query _) fun _ =>
    effects_bind (effects_orThrow _ _) fun f =>
    effects_bind (effects_query _) fun p =>
    effects_bind ?_ fun _ =>
    effects_bind (effects_checked k _ _ fun db => k.setFulfillmentValue db i value) fun _ =>
    effects_bind (effects_query _) fun _ =>
    effects_bind (effects_query _) fun _ =>
    effects_bind (effects_updatePledge k _ _ _ fun _ => rfl) fun _ =>
    effects_bind (effects_writeAudit k ..) fun _ => trivial
  cases p with
  | some p => exact effects_assertWithinCommitted _ _ _ _
  | none => trivial

theorem effects_cancelPledge (i : ℕ) : Effects R (cancelPledge ctx i) :=
  effects_bind (effects_gates _) fun _ =>
    effects_bind (effects_query _) fun _ =>
    effects_bind (effects_orThrow _ _) fun _ =>
    effects_bind (effects_updatePledge k _ _ _ fun _ => rfl) fun _ =>
    effects_bind (effects_writeAudit k ..) fun _ => trivial

theorem effects_mergePeople (i j : ℕ)
    (hdelete : ∀ db, R db (db.deletePerson ctx.event.eventId i)) :
    Effects R (mergePeople ctx i j) :=
  effects_bind (effects_gates _) fun _ =>
    effects_bind (effects_refuse _) fun _ =>
    effects_bind (effects_query _) fun _ =>
    effects_bind (effects_query _) fun _ =>
    effects_bind (effects_orThrow _ _) fun _ =>
    effects_bind (effects_orThrow _ _) fun _ =>
    effects_bind (effects_refuse _) fun _ =>
    effects_bind (effects_runIf (effects_setUserId k ..)) fun _ =>
    effects_bind (effects_checked k _ _ fun db => k.movePledges db i j) fun _ =>
    effects_bind (effects_modify _ fun db => k.setFiles db _) fun _ =>
    effects_bind (effects_runIf (effects_setUserId k ..)) fun _ =>
    effects_bind (effects_writeAudit k ..) fun _ =>
    effects_bind (effects_checked k _ _ hdelete) fun _ => trivial

/-- A merge is asked what its deletion keeps. -/
theorem effects_ledger (draw : LedgerState.Draw) (call : LedgerCall)
    (hdelete : ∀ i j, call = .mergePeople i j →
      ∀ db, R db (db.deletePerson ctx.event.eventId i)) :
    Effects R (call.program ctx draw) := by
  cases call with
  | createPerson ent input => exact effects_map (effects_createPerson k draw ent input) _
  | createPledge input => exact effects_map (effects_createPledge k draw input) _
  | recordFulfillment input => exact effects_map (effects_recordFulfillment k draw input) _
  | recordDirectContribution input =>
    exact effects_map (effects_recordDirectContribution k draw input) _
  | recordPledgeWithPayment input =>
    exact effects_map (effects_recordPledgeWithPayment k draw input) _
  | correctCommittedValue i value => exact effects_map (effects_correctCommittedValue k i value) _
  | correctValue i value => exact effects_map (effects_correctValue k i value) _
  | cancelPledge i => exact effects_map (effects_cancelPledge k i) _
  | mergePeople i j => exact effects_map (effects_mergePeople k i j (hdelete i j rfl)) _

end ledger

section events
variable (k : Keeps ctx.event.eventId R)
include k

theorem effects_updateEvent (input : UpdateEventInput) : Effects R (updateEvent ctx input) :=
  effects_bind (effects_gates _) fun _ =>
    effects_bind (effects_query _) fun _ =>
    effects_bind (effects_orThrow _ _) fun _ =>
    effects_bind (effects_updateEventRow k ..) fun _ =>
    effects_bind effects_commitNow fun _ =>
    effects_bind (effects_writeAudit k ..) fun _ => trivial

theorem effects_setEventStatus (status : EventStatus) :
    Effects R (EventWrites.setEventStatus ctx status) :=
  effects_bind (effects_refuse _) fun _ =>
    effects_bind (effects_query _) fun _ =>
    effects_bind (effects_orThrow _ _) fun _ =>
    effects_bind (effects_updateEventRow k ..) fun _ =>
    effects_bind effects_commitNow fun _ =>
    effects_bind (effects_writeAudit k ..) fun _ => trivial

theorem effects_updateSettings (input : UpdatePublicSettingsInput) :
    Effects R (updateSettings ctx input) :=
  effects_bind (effects_refuse _) fun _ =>
    effects_bind (effects_query _) fun _ =>
    effects_bind (effects_orThrow _ _) fun _ =>
    effects_bind (effects_updateEventRow k ..) fun _ =>
    effects_bind (effects_writeAudit k ..) fun _ => trivial

theorem effects_setToken (token : Option String) (action : String) :
    Effects R (setToken ctx token action) :=
  effects_bind (effects_updateEventRow k ..) fun _ =>
    effects_bind (effects_writeAudit k ..) fun _ => trivial

theorem effects_createEvent (actor : Actor) (input : CreateEventInput) (draw : EventDraw) :
    Effects R (createEvent actor input draw) := by
  refine effects_bind ?_ fun _ =>
    effects_bind (effects_change k _ _ fun db => k.setEvents db _) fun _ =>
    effects_bind (effects_change k _ _ fun db => k.setMembers db _) fun _ =>
    effects_bind (effects_writeAudit k ..) fun _ => trivial
  unfold assertCanCreateEvent
  cases draw.maxActiveEvents with
  | none => trivial
  | some max => exact effects_bind (effects_query _) fun _ => effects_refuse _

theorem effects_addMember (userId : ℕ) (role : EventRole) :
    Effects R (addMember ctx userId role) :=
  effects_bind (effects_gates _) fun _ =>
    effects_bind (effects_query _) fun _ =>
    effects_bind (effects_orThrow _ _) fun _ =>
    effects_bind (effects_query _) fun _ =>
    effects_bind (effects_upsertMember k ..) fun _ =>
    effects_bind (effects_writeAudit k ..) fun _ => trivial

theorem effects_createInvitation (input : CreateInvitationInput) (draw : EventDraw) :
    Effects R (createInvitation ctx input draw) :=
  effects_bind (effects_gates _) fun _ =>
    effects_bind (effects_runIf (effects_bind (effects_query _) fun _ =>
      effects_runIf (effects_bind (effects_query _) fun _ => effects_refuse _))) fun _ =>
    effects_bind (effects_refuse _) fun _ =>
    effects_bind (effects_change k _ _ fun db => k.setInvitations db _) fun _ => trivial

theorem effects_join (actor : Actor) (inv : Invitation) (now : ℕ) :
    Effects R (join actor inv now) := by
  refine effects_bind (effects_query _) fun existing => ?_
  split
  · trivial
  · exact effects_bind (effects_refuse _) fun _ =>
      effects_bind (effects_upsertMember k ..) fun _ =>
      effects_bind (effects_updateInvitation k ..) fun _ =>
      effects_bind (effects_writeAudit k ..) fun _ => trivial

theorem effects_acceptInvitation (actor : Actor) (token : String) (now : ℕ) :
    Effects R (acceptInvitation actor token now) := by
  refine effects_bind (effects_query _) fun _ =>
    effects_bind (effects_orThrow _ _) fun inv =>
    effects_bind (effects_refuse _) fun _ => ?_
  split_ifs
  · exact effects_bind (effects_runIf (effects_updateInvitation k ..)) fun _ =>
      effects_bind effects_commitNow fun _ => trivial
  · exact effects_join k actor inv now

theorem effects_revokeInvitation (i : ℕ) : Effects R (revokeInvitation ctx i) :=
  effects_bind (effects_refuse _) fun _ =>
    effects_bind (effects_query _) fun _ =>
    effects_bind (effects_orThrow _ _) fun _ => effects_updateInvitation k ..

theorem effects_updateContact (i : ℕ) (phone : String) (shared : Bool) :
    Effects R (updateContact ctx i phone shared) :=
  effects_bind (effects_gates _) fun _ =>
    effects_bind (effects_query _) fun _ =>
    effects_bind (effects_orThrow _ _) fun _ =>
    effects_bind (effects_runIf (effects_runIf (effects_bind
      (effects_query _) fun _ => effects_refuse _))) fun _ =>
    effects_bind (effects_checked k _ _ fun db => k.updatePerson db i _ _ fun _ => rfl) fun _ =>
    effects_bind (effects_writeAudit k ..) fun _ => trivial

theorem effects_linkPersonToUser (i userId : ℕ) : Effects R (linkPersonToUser ctx i userId) :=
  effects_bind (effects_gates _) fun _ =>
    effects_bind (effects_query _) fun _ =>
    effects_bind (effects_orThrow _ _) fun _ =>
    effects_bind (effects_refuse _) fun _ =>
    effects_bind (effects_change k _ _ fun db => k.updatePerson db i _ _ fun _ => rfl) fun _ =>
    effects_bind (effects_runIf (effects_writeAudit k ..)) fun _ => trivial

theorem effects_createGroup (name : String) (kind : GroupKind) (draw : EventDraw) :
    Effects R (createGroup ctx name kind draw) :=
  effects_bind (effects_gates _) fun _ =>
    effects_bind (effects_change k _ _ fun db => k.insertGroup db _ rfl) fun _ =>
    effects_bind (effects_writeAudit k ..) fun _ => trivial

theorem effects_assignPerson (i j : ℕ) (role : Option String) :
    Effects R (assignPerson ctx i j role) :=
  effects_bind (effects_gates _) fun _ =>
    effects_bind (effects_query _) fun _ =>
    effects_bind (effects_query _) fun _ =>
    effects_bind (effects_orThrow _ _) fun _ =>
    effects_bind (effects_orThrow _ _) fun _ =>
    effects_bind (effects_change k _ _ fun db => k.insertPersonGroup db _ rfl) fun _ =>
    effects_bind (effects_writeAudit k ..) fun _ => trivial

theorem effects_ensureBudget (budgetId : ℕ) :
    Effects R (ensureBudget ctx.event.eventId budgetId) := by
  refine effects_bind (effects_query _) fun existing => ?_
  cases existing with
  | some b => trivial
  | none => exact effects_bind (effects_change k _ _ fun db => k.insertBudget db _ rfl) fun _ => trivial

theorem effects_addItem (input : BudgetItemInput) (draw : EventDraw) :
    Effects R (addItem ctx input draw) :=
  effects_bind (effects_gates _) fun _ =>
    effects_bind (effects_ensureBudget k _) fun _ =>
    effects_bind (effects_change k _ _ fun db => k.insertBudgetItem db _ rfl) fun _ =>
    effects_bind (effects_writeAudit k ..) fun _ => trivial

theorem effects_updateItem (i : ℕ) (input : UpdateItemInput) :
    Effects R (updateItem ctx i input) :=
  effects_bind (effects_gates _) fun _ =>
    effects_bind (effects_query _) fun _ =>
    effects_bind (effects_orThrow _ _) fun _ =>
    effects_bind (effects_refuse _) fun _ =>
    effects_bind (effects_checked k _ _ fun db => k.updateBudgetItem db i _ _ fun _ => rfl) fun _ =>
    effects_bind (effects_writeAudit k ..) fun _ => trivial

theorem effects_removeItem (i : ℕ) (hdelete : ∀ db, R db (deleteBudgetItem db ctx.event.eventId i)) :
    Effects R (removeItem ctx i) :=
  effects_bind (effects_gates _) fun _ =>
    effects_bind (effects_query _) fun _ =>
    effects_bind (effects_orThrow _ _) fun _ =>
    effects_bind (effects_query _) fun _ =>
    effects_bind (effects_refuse _) fun _ =>
    effects_bind (effects_change k _ _ hdelete) fun _ =>
    effects_bind (effects_writeAudit k ..) fun _ => trivial

theorem effects_allocate (i j value : ℕ) (draw : EventDraw) :
    Effects R (allocate ctx i j value draw) :=
  effects_bind (effects_gates _) fun _ =>
    effects_bind (effects_query _) fun _ =>
    effects_bind (effects_orThrow _ _) fun _ =>
    effects_bind (effects_query _) fun _ =>
    effects_bind (effects_orThrow _ _) fun _ =>
    effects_bind (effects_change k _ _ fun db => k.insertAllocation db _ rfl) fun _ =>
    effects_bind (effects_writeAudit k ..) fun _ => trivial

theorem effects_upload (maxBytes : ℕ) (input : UploadFileInput) (draw : EventDraw) :
    Effects R (upload ctx maxBytes input draw) := by
  have hinsert : Effects R (upload.insertFile ctx input draw) :=
    effects_bind (effects_change k _ _ fun db => k.setFiles db _) fun _ =>
      effects_bind (effects_writeAudit k ..) fun _ => trivial
  refine effects_bind (effects_gates _) fun _ =>
    effects_bind (effects_refuse _) fun _ =>
    effects_bind (effects_refuse _) fun _ =>
    effects_bind (effects_refuse _) fun _ => ?_
  split
  · exact effects_bind (effects_query _) fun _ => effects_bind (effects_orThrow _ _) fun _ => hinsert
  · exact hinsert

theorem effects_submitForExtraction (i : ℕ) (kind : ExtractionKind) (draw : EventDraw) :
    Effects R (submitForExtraction ctx i kind draw) :=
  effects_bind (effects_gates _) fun _ =>
    effects_bind (effects_query _) fun _ =>
    effects_bind (effects_orThrow _ _) fun _ =>
    effects_bind (effects_refuse _) fun _ =>
    effects_bind (effects_change k _ _ fun db => k.setDocuments db _) fun _ =>
    effects_bind (effects_writeAudit k ..) fun _ =>
    effects_bind (effects_enqueue k _) fun _ => trivial

end events

/-- Every typed call keeps what its statements keep, given the same of the deletion that a
merge or a removal makes. -/
theorem effects_program (k : Keeps ctx.event.eventId R) (call : ServiceCall) (draw : ServiceDraw)
    (hperson : ∀ i j, call = .ledger (.mergePeople i j) →
      ∀ db, R db (db.deletePerson ctx.event.eventId i))
    (hline : ∀ i, call = .removeItem i → ∀ db, R db (deleteBudgetItem db ctx.event.eventId i)) :
    Effects R (call.program ctx draw) := by
  cases call with
  | ledger call =>
    exact effects_map (effects_ledger k draw.ledger call fun i j he => hperson i j (he ▸ rfl)) _
  | createEvent input => exact effects_map (effects_createEvent k ctx.actor input draw.event) _
  | updateEvent input => exact effects_map (effects_updateEvent k input) _
  | setEventStatus status => exact effects_map (effects_setEventStatus k status) _
  | updateSettings input => exact effects_map (effects_updateSettings k input) _
  | rotateAccessToken =>
    exact effects_map (effects_bind (effects_refuse _) fun _ => effects_setToken k ..) _
  | clearAccessToken =>
    exact effects_map (effects_bind (effects_refuse _) fun _ => effects_setToken k ..) _
  | addMember userId role => exact effects_map (effects_addMember k userId role) _
  | updateRole userId role => exact effects_map (effects_addMember k userId role) _
  | createInvitation input => exact effects_map (effects_createInvitation k input draw.event) _
  | acceptInvitation token =>
    exact effects_map (effects_acceptInvitation k ctx.actor token draw.event.now) _
  | revokeInvitation i => exact effects_revokeInvitation k i
  | updateContact i phone shared => exact effects_map (effects_updateContact k i phone shared) _
  | linkPersonToUser i userId => exact effects_map (effects_linkPersonToUser k i userId) _
  | createGroup name kind => exact effects_map (effects_createGroup k name kind draw.event) _
  | assignPerson i j role => exact effects_map (effects_assignPerson k i j role) _
  | addItem input => exact effects_map (effects_addItem k input draw.event) _
  | updateItem i input => exact effects_map (effects_updateItem k i input) _
  | removeItem i => exact effects_map (effects_removeItem k i (hline i rfl)) _
  | allocate i j value => exact effects_map (effects_allocate k i j value draw.event) _
  | upload maxBytes input => exact effects_map (effects_upload k maxBytes input draw.event) _
  | submitForExtraction i kind =>
    exact effects_map (effects_submitForExtraction k i kind draw.event) _

end Akabbo.ServiceEffects
