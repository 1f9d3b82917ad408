import Akabbo.LedgerWrites

/-!
# The ledger's write statements

Which row changes the ledger's calls are made of. What each of them keeps, every call
keeps, whatever path it takes.
-/
namespace Akabbo.LedgerStatements
open Access RowTable StatementProgram LedgerState LedgerWrites StatementProgram.Program

/-- A relation between databases that each write statement of the ledger satisfies. -/
structure Keeps (R : LedgerDb → LedgerDb → Prop) : Prop where
  refl : ∀ db, R db db
  trans : ∀ {db db' db''}, R db db' → R db' db'' → R db db''
  insertPerson : ∀ db q, db.persons.has q.id = false → R db (db.insertPerson q)
  insertPledge : ∀ db p, pledgeViolation db p = none → R db (db.insertPledge p)
  insertFulfillment : ∀ db f, fulfillmentViolation db f = none → R db (db.insertFulfillment f)
  updatePledge : ∀ db e i f hf, R db (db.updatePledge e i f hf)
  setFulfillmentValue : ∀ db e i value, R db (db.setFulfillmentValue e i value)
  setUserId : ∀ db e i userId,
    R db (db.updatePerson e i (fun p => { p with userId }) fun _ => rfl)
  movePledges : ∀ db e i j, R db (db.movePledges e i j)
  moveFiles : ∀ db e i j, R db (db.moveFiles e i j)
  deletePerson : ∀ db e i, (∀ p ∈ db.pledges, p.personId ≠ i) → R db (db.deletePerson e i)
  insertOutbox : ∀ db row, R db (db.insertOutbox row)
  appendAudit : ∀ db row, R db (db.appendAudit row)

theorem keeps_true : Keeps fun _ _ => True where
  refl _ := trivial
  trans _ _ := trivial
  insertPerson _ _ _ := trivial
  insertPledge _ _ _ := trivial
  insertFulfillment _ _ _ := trivial
  updatePledge _ _ _ _ _ := trivial
  setFulfillmentValue _ _ _ _ := trivial
  setUserId _ _ _ _ := trivial
  movePledges _ _ _ _ := trivial
  moveFiles _ _ _ _ := trivial
  deletePerson _ _ _ _ := trivial
  insertOutbox _ _ := trivial
  appendAudit _ _ := trivial

section statements
variable {R : LedgerDb → LedgerDb → Prop} (k : Keeps R)
include k

theorem writes_writeAudit (ctx : OperationContext) (action resourceType : String)
    (resourceId : ℕ) (source : ProvenanceSource) (oldValue newValue : Option (List (String × Json))) :
    Writes False R (writeAudit ctx action resourceType resourceId source oldValue newValue) :=
  writes_modify _ fun db => k.appendAudit db _

theorem writes_enqueue (row : OutboxRow) : Writes False R (enqueue row) :=
  writes_accept k.refl _ fun db _ => k.insertOutbox db row

theorem writes_insertPerson (q : Person) :
    Writes False R (LedgerWrites.insertPerson q) := by
  refine writes_accept k.refl _ fun db h => k.insertPerson db q ?_
  split_ifs at h with hq
  simpa using hq

theorem writes_insertPledge (p : Pledge) :
    Writes False R (LedgerWrites.insertPledge p) :=
  writes_accept k.refl _ fun db h => k.insertPledge db p h

theorem writes_insertFulfillment (f : Fulfillment) :
    Writes False R (LedgerWrites.insertFulfillment f) :=
  writes_accept k.refl _ fun db h => k.insertFulfillment db f h

theorem writes_updatePledge (e i : ℕ) (f : Pledge → Pledge) (hf : ∀ p, (f p).id = p.id) :
    Writes False R (LedgerWrites.updatePledge e i f hf) :=
  writes_modifyChecked k.refl _ fun db _ _ => k.updatePledge db e i f hf

theorem writes_updateFulfillmentValue (e i value : ℕ) :
    Writes False R (updateFulfillmentValue e i value) :=
  writes_modifyChecked k.refl _ fun db _ _ => k.setFulfillmentValue db e i value

theorem writes_setUserId (e i : ℕ) (userId : Option ℕ) :
    Writes False R (LedgerWrites.setUserId e i userId) :=
  writes_accept k.refl _ fun db _ => k.setUserId db e i userId

theorem writes_movePledges (e i j : ℕ) :
    Writes False R (LedgerWrites.movePledges e i j) :=
  writes_modifyChecked k.refl _ fun db _ _ => k.movePledges db e i j

theorem writes_moveFiles (e i j : ℕ) : Writes False R (LedgerWrites.moveFiles e i j) :=
  writes_modify _ fun db => k.moveFiles db e i j

theorem writes_deletePerson (e i : ℕ) :
    Writes False R (LedgerWrites.deletePerson e i) := by
  refine writes_accept k.refl _ fun db h => k.deletePerson db e i fun p hp hpi => ?_
  split_ifs at h with hnone hrow
  exact hrow (List.any_eq_true.mpr ⟨p, hp, by simpa using hpi⟩)

end statements

section services
variable {R : LedgerDb → LedgerDb → Prop} (k : Keeps R) (ctx : OperationContext) (draw : Draw)

theorem writes_gates (action : Action) : Writes False R (gates ctx action) :=
  writes_bind (writes_refuse _) fun _ => writes_refuse _

theorem writes_requirePerson (i : ℕ) : Writes False R (requirePerson ctx i) :=
  writes_bind (writes_query _) fun _ => writes_orThrow _ _

theorem writes_findByIdempotencyKey (key : Option String) :
    Writes False R (findByIdempotencyKey ctx key) := by
  unfold findByIdempotencyKey
  split
  · trivial
  · split_ifs
    · trivial
    · refine writes_bind (writes_query _) fun existing => ?_
      cases existing with
      | none => trivial
      | some f =>
        exact writes_bind (writes_query _) fun _ =>
          writes_bind (writes_orThrow _ _) fun _ =>
          writes_bind (writes_query _) fun _ => trivial

theorem writes_assertWithinCommitted (i committed value : ℕ) (excluded : Option ℕ) :
    Writes False R (assertWithinCommitted ctx i committed value excluded) := by
  refine writes_bind (writes_query _) fun _ => ?_
  dsimp only
  split_ifs <;> trivial

include k

theorem writes_createPerson (ent : EntitlementDecision) (input : CreatePersonInput) :
    Writes False R (createPerson ctx ent input draw) :=
  writes_bind (writes_gates ctx _) fun _ =>
    writes_bind (writes_refuse _) fun _ =>
    writes_bind (writes_runIf (writes_runIf (writes_bind
      (writes_query _) fun _ => writes_refuse _))) fun _ =>
    writes_bind (writes_insertPerson k _) fun _ =>
    writes_bind (writes_writeAudit k ..) fun _ => trivial

theorem writes_createPledge (input : CreatePledgeInput) :
    Writes False R (createPledge ctx input draw) :=
  writes_bind (writes_gates ctx _) fun _ =>
    writes_bind (writes_refuse _) fun _ =>
    writes_bind (writes_requirePerson ctx _) fun _ =>
    writes_bind (writes_insertPledge k _) fun _ =>
    writes_bind (writes_writeAudit k ..) fun _ => trivial

theorem writes_writeFulfillment (input : WriteFulfillmentInput) :
    Writes False R (writeFulfillment ctx input draw) :=
  writes_bind (writes_insertFulfillment k _) fun _ =>
    writes_bind (writes_query _) fun _ =>
    writes_bind (writes_updatePledge k ..) fun _ =>
    writes_bind (writes_writeAudit k ..) fun _ =>
    writes_bind (writes_enqueue k _) fun _ => trivial

theorem writes_recordFulfillment (input : RecordFulfillmentInput) :
    Writes False R (recordFulfillment ctx input draw) := by
  refine writes_bind (writes_gates ctx _) fun _ =>
    writes_bind (writes_refuse _) fun _ =>
    writes_bind (writes_findByIdempotencyKey ctx _) fun replay => ?_
  cases replay with
  | some view => trivial
  | none =>
    exact writes_bind (writes_query _) fun _ =>
      writes_bind (writes_orThrow _ _) fun _ =>
      writes_bind (writes_refuse _) fun _ =>
      writes_bind (writes_runIf (writes_bind (writes_query _)
        fun _ => writes_refuse _)) fun _ =>
      writes_bind (writes_assertWithinCommitted ctx _ _ _ _) fun _ =>
      writes_writeFulfillment k ctx draw _

theorem writes_directContributor (input : RecordDirectContributionInput) :
    Writes False R (directContributor ctx input draw) := by
  unfold directContributor
  split
  · exact writes_bind (writes_requirePerson ctx _) fun _ => trivial
  · split
    · trivial
    · split_ifs
      · trivial
      · exact writes_bind (writes_insertPerson k _) fun _ =>
          writes_bind (writes_writeAudit k ..) fun _ => trivial

theorem writes_recordDirectContribution (input : RecordDirectContributionInput) :
    Writes False R (recordDirectContribution ctx input draw) := by
  refine writes_bind (writes_gates ctx _) fun _ =>
    writes_bind (writes_refuse _) fun _ =>
    writes_bind (writes_findByIdempotencyKey ctx _) fun replay => ?_
  cases replay with
  | some view => trivial
  | none =>
    exact writes_bind (writes_directContributor k ctx draw input) fun _ =>
      writes_bind (writes_insertPledge k _) fun _ =>
      writes_bind (writes_writeAudit k ..) fun _ =>
      writes_writeFulfillment k ctx draw _

theorem writes_recordPledgeWithPayment (input : RecordPledgeWithPaymentInput) :
    Writes False R (recordPledgeWithPayment ctx input draw) := by
  refine writes_bind (writes_gates ctx _) fun _ =>
    writes_bind (writes_refuse _) fun _ =>
    writes_bind (writes_requirePerson ctx _) fun _ =>
    writes_bind (writes_refuse _) fun _ =>
    writes_bind (writes_insertPledge k _) fun _ =>
    writes_bind (writes_writeAudit k ..) fun _ => ?_
  split_ifs
  · trivial
  · exact writes_writeFulfillment k ctx draw _

theorem writes_correctCommittedValue (i value : ℕ) :
    Writes False R (correctCommittedValue ctx i value) :=
  writes_bind (writes_gates ctx _) fun _ =>
    writes_bind (writes_query _) fun _ =>
    writes_bind (writes_orThrow _ _) fun _ =>
    writes_bind (writes_query _) fun _ =>
    writes_bind (writes_updatePledge k ..) fun _ =>
    writes_bind (writes_writeAudit k ..) fun _ => trivial

theorem writes_correctValue (i value : ℕ) :
    Writes False R (correctValue ctx i value) := by
  refine writes_bind (writes_gates ctx _) fun _ =>
    writes_bind (writes_query _) fun _ =>
    writes_bind (writes_orThrow _ _) fun f =>
    writes_bind (writes_query _) fun p =>
    writes_bind ?_ fun _ =>
    writes_bind (writes_updateFulfillmentValue k ..) fun _ =>
    writes_bind (writes_query _) fun _ =>
    writes_bind (writes_query _) fun _ =>
    writes_bind (writes_updatePledge k ..) fun _ =>
    writes_bind (writes_writeAudit k ..) fun _ => trivial
  cases p with
  | some p => exact writes_assertWithinCommitted ctx _ _ _ _
  | none => trivial

theorem writes_cancelPledge (i : ℕ) : Writes False R (cancelPledge ctx i) :=
  writes_bind (writes_gates ctx _) fun _ =>
    writes_bind (writes_query _) fun _ =>
    writes_bind (writes_orThrow _ _) fun _ =>
    writes_bind (writes_updatePledge k ..) fun _ =>
    writes_bind (writes_writeAudit k ..) fun _ => trivial

theorem writes_mergePeople (i j : ℕ) : Writes False R (mergePeople ctx i j) :=
  writes_bind (writes_gates ctx _) fun _ =>
    writes_bind (writes_refuse _) fun _ =>
    writes_bind (writes_query _) fun _ =>
    writes_bind (writes_query _) fun _ =>
    writes_bind (writes_orThrow _ _) fun _ =>
    writes_bind (writes_orThrow _ _) fun _ =>
    writes_bind (writes_refuse _) fun _ =>
    writes_bind (writes_runIf (writes_setUserId k ..)) fun _ =>
    writes_bind (writes_movePledges k ..) fun _ =>
    writes_bind (writes_moveFiles k ..) fun _ =>
    writes_bind (writes_runIf (writes_setUserId k ..)) fun _ =>
    writes_bind (writes_writeAudit k ..) fun _ =>
    writes_bind (writes_deletePerson k ..) fun _ => trivial

/-- Every ledger call is one transaction of the ledger's statements. -/
theorem writes_program (call : LedgerCall) :
    Writes False R (call.program ctx draw) := by
  cases call with
  | createPerson ent input =>
    exact writes_map (writes_createPerson k ctx draw ent input) _
  | createPledge input => exact writes_map (writes_createPledge k ctx draw input) _
  | recordFulfillment input =>
    exact writes_map (writes_recordFulfillment k ctx draw input) _
  | recordDirectContribution input =>
    exact writes_map (writes_recordDirectContribution k ctx draw input) _
  | recordPledgeWithPayment input =>
    exact writes_map (writes_recordPledgeWithPayment k ctx draw input) _
  | correctCommittedValue i value =>
    exact writes_map (writes_correctCommittedValue k ctx i value) _
  | correctValue i value => exact writes_map (writes_correctValue k ctx i value) _
  | cancelPledge i => exact writes_map (writes_cancelPledge k ctx i) _
  | mergePeople i j => exact writes_map (writes_mergePeople k ctx i j) _

end services

theorem commitFree_program (ctx : OperationContext) (draw : Draw) (call : LedgerCall) :
    CommitFree (call.program ctx draw) :=
  commitFree_of_writes (writes_program keeps_true ctx draw call)

theorem step_keeps {R : LedgerDb → LedgerDb → Prop} (k : Keeps R) (db : LedgerDb)
    (inv : Invocation) : R db (inv.step db) := by
  unfold Invocation.step
  split_ifs
  · exact k.refl db
  · exact run_writes k.refl k.trans (writes_program k inv.ctx inv.draw inv.call) db

theorem ledgerRun_keeps {R : LedgerDb → LedgerDb → Prop} (k : Keeps R) (db : LedgerDb)
    (calls : List Invocation) : R db (ledgerRun db calls) := by
  induction calls generalizing db with
  | nil => exact k.refl db
  | cons inv calls ih => exact k.trans (step_keeps k db inv) (ih (inv.step db))

end Akabbo.LedgerStatements
