import Akabbo.AbortedTransactions
import Akabbo.EventWrites

/-!
# Duplicates that count as success

Adding a person to a group, and a row to the outbox, catch the unique violation of a row that is
there already. The transaction around them is lost all the same.
-/
namespace Akabbo.SwallowedDuplicates
open Access RowTable StatementProgram LedgerState LedgerWrites EventWrites AbortedTransactions
open StatementProgram.Program

abbrev TenantProgram := Program RowLock (Tx LedgerDb) Refusal

/-- `TenantContext.runInEvent`. -/
def runInEvent {ρ : Type} (body : TenantProgram ρ) (db : LedgerDb) : Except Refusal ρ × LedgerDb :=
  runTransaction body db

def isUniqueViolation : Refusal → Bool
  | .uniqueViolation _ => true
  | _ => false

/-- What the service takes for a person who is a member already. -/
def isMember : Refusal → Bool
  | .conflict _ => true
  | err => isUniqueViolation err

def personGroupRefusal (row : PersonGroup) (db : LedgerDb) : Option Refusal :=
  if db.personGroups.has row.key then some (.uniqueViolation "person_group")
  else if !db.persons.has row.personId || !db.groups.has row.groupId then
    some (.foreignKeyViolation "person_group")
  else none

def insertPersonGroup (row : PersonGroup) (db : LedgerDb) : LedgerDb :=
  { db with personGroups := db.personGroups.insertNew row }

/-- The checks, and the person and the group that are looked up. -/
def findBoth (ctx : OperationContext) (personId groupId : ℕ) : LedgerProgram Unit := do
  gates ctx .groupWrite
  let foundPerson ← query fun db => db.findPerson ctx.event.eventId personId
  let foundGroup ← query fun db => db.groups.find? fun g =>
    g.eventId == ctx.event.eventId && g.id == groupId
  let _ ← orThrow foundPerson (.notFound "Person not found in this event")
  let _ ← orThrow foundGroup (.notFound "Group not found in this event")

def writeAssignment (ctx : OperationContext) (personId groupId : ℕ) (role : Option String) :
    LedgerProgram (ℕ × ℕ) := do
  writeAudit ctx "group:assign" "person_group" personId .humanTyped none
    (some [("personId", .id personId), ("groupId", .id groupId), ("role", textOrNull role)])
  return (personId, groupId)

/-- `GroupService.assignPerson`. -/
def assignPerson (ctx : OperationContext) (personId groupId : ℕ) (role : Option String) :
    TenantProgram (ℕ × ℕ) := do
  let row : PersonGroup := ⟨ctx.event.eventId, personId, groupId, role⟩
  inTx .transactionAborted (findBoth ctx personId groupId)
  swallowing isMember (statement .transactionAborted (fun _ => [.personGroup personId groupId])
    (personGroupRefusal row) (insertPersonGroup row))
  inTx .transactionAborted (writeAssignment ctx personId groupId role)

def outboxRefusal (row : OutboxRow) (db : LedgerDb) : Option Refusal :=
  if db.outbox.has row.idempotencyKey then some (.uniqueViolation "outbox") else none

/-- `OutboxWriter.enqueue`. -/
def enqueue (row : OutboxRow) : TenantProgram Unit :=
  swallowing isUniqueViolation (statement .transactionAborted
    (fun _ => [.outboxKey row.idempotencyKey]) (outboxRefusal row) fun db => db.insertOutbox row)

/-- A mutation whose outbox row is enqueued on the way. -/
def enqueueing {α β : Type} (mutation : LedgerProgram α) (row : OutboxRow)
    (rest : α → LedgerProgram β) : TenantProgram β := do
  let a ← inTx .transactionAborted mutation
  enqueue row
  inTx .transactionAborted (rest a)

/-- The same where a row that is there already is left alone. -/
def enqueueingOnce {α β : Type} (mutation : LedgerProgram α) (row : OutboxRow)
    (rest : α → LedgerProgram β) : LedgerProgram β := do
  let a ← mutation
  modify (fun _ => [.outboxKey row.idempotencyKey]) fun db =>
    if (outboxRefusal row db).isSome then db else db.insertOutbox row
  rest a

/-- The person is a member, as before or from now on, and the assignment is on the audit trail. -/
def Assigned (ctx : OperationContext) (personId groupId : ℕ) (role : Option String)
    (db : LedgerDb) : Prop :=
  ∃ entry, runInEvent (assignPerson ctx personId groupId role) db =
    (.ok (personId, groupId),
      (insertPersonGroup ⟨ctx.event.eventId, personId, groupId, role⟩ db).appendAudit entry)

section assigning
variable {ctx : OperationContext} {personId groupId : ℕ} {role : Option String} {db : LedgerDb}

theorem commitFree_findBoth : (findBoth ctx personId groupId).CommitFree :=
  commitFree_of_writes (R := fun _ _ => True) <|
    writes_bind (writes_bind (writes_refuse _) fun _ => writes_refuse _) fun _ =>
    writes_bind (writes_query _) fun _ => writes_bind (writes_query _) fun _ =>
    writes_bind (writes_orThrow _ _) fun _ => writes_bind (writes_orThrow _ _) fun _ => trivial

theorem commitFree_writeAssignment : (writeAssignment ctx personId groupId role).CommitFree :=
  fun _ => trivial

theorem exec_findBoth (hmay : can ctx.event.role .groupWrite = true)
    (hopen : isWritable ctx.event.status = true)
    (hperson : (db.findPerson ctx.event.eventId personId).isSome)
    (hgroup : (db.groups.find? fun g =>
      g.eventId == ctx.event.eventId && g.id == groupId).isSome) :
    exec (findBoth ctx personId groupId) db db = .ok ((), db, db) := by
  obtain ⟨person, hperson⟩ := Option.isSome_iff_exists.mp hperson
  obtain ⟨group, hgroup⟩ := Option.isSome_iff_exists.mp hgroup
  refine exec_bind_eq_ok.mpr ⟨(), db, db, exec_refuse_bind.mpr ⟨if_pos hmay,
    exec_refuse.mpr ⟨if_pos hopen, rfl, rfl⟩⟩, ?_⟩
  exact exec_orThrow_bind.mpr ⟨person, hperson, exec_orThrow_bind.mpr ⟨group, hgroup, rfl⟩⟩

theorem personGroupRefusal_eq_none (hperson : (db.findPerson ctx.event.eventId personId).isSome)
    (hgroup : (db.groups.find? fun g =>
      g.eventId == ctx.event.eventId && g.id == groupId).isSome) :
    personGroupRefusal ⟨ctx.event.eventId, personId, groupId, role⟩ db = none ↔
      db.personGroups.has (personId, groupId) = false := by
  obtain ⟨person, hperson⟩ := Option.isSome_iff_exists.mp hperson
  obtain ⟨group, hgroup⟩ := Option.isSome_iff_exists.mp hgroup
  obtain ⟨hperson, hpersonId⟩ := Table.mem_of_find? hperson
  obtain ⟨hgroup, hgroupId⟩ := Table.mem_of_find? hgroup
  rw [Bool.and_eq_true, beq_iff_eq, beq_iff_eq] at hpersonId hgroupId
  have hpersons : db.persons.has personId = true := Table.has_iff.mpr ⟨person, hperson, hpersonId.2⟩
  have hgroups : db.groups.has groupId = true := Table.has_iff.mpr ⟨group, hgroup, hgroupId.2⟩
  unfold personGroupRefusal
  change (if db.personGroups.has (personId, groupId) then _ else _) = none ↔ _
  rw [hpersons, hgroups]
  cases db.personGroups.has (personId, groupId) <;> simp

theorem assignPerson_eq : assignPerson ctx personId groupId role =
    accompanied .transactionAborted isMember (findBoth ctx personId groupId)
      (fun _ => [.personGroup personId groupId])
      (personGroupRefusal ⟨ctx.event.eventId, personId, groupId, role⟩)
      (insertPersonGroup ⟨ctx.event.eventId, personId, groupId, role⟩)
      fun _ => writeAssignment ctx personId groupId role := rfl

theorem assigned_iff (hmay : can ctx.event.role .groupWrite = true)
    (hopen : isWritable ctx.event.status = true)
    (hperson : (db.findPerson ctx.event.eventId personId).isSome)
    (hgroup : (db.groups.find? fun g =>
      g.eventId == ctx.event.eventId && g.id == groupId).isSome) :
    Assigned ctx personId groupId role db ↔ db.personGroups.has (personId, groupId) = false := by
  have hfound := exec_findBoth hmay hopen hperson hgroup
  have hrefusal : personGroupRefusal ⟨ctx.event.eventId, personId, groupId, role⟩ db = none ↔
      db.personGroups.has (personId, groupId) = false := personGroupRefusal_eq_none hperson hgroup
  rw [← hrefusal]
  constructor
  · rintro ⟨entry, hrun⟩
    cases hrefused : personGroupRefusal ⟨ctx.event.eventId, personId, groupId, role⟩ db with
    | none => rfl
    | some e =>
      have hrows : (runInEvent (assignPerson ctx personId groupId role) db).2 = db :=
        accompanied_of_taken commitFree_findBoth (fun _ => commitFree_writeAssignment) hfound
          hrefused
      rw [hrun] at hrows
      have hlength := congrArg (fun db => db.auditEvents.length) hrows
      simp [LedgerDb.appendAudit, insertPersonGroup] at hlength
  · intro hfresh
    have hexec : exec (assignPerson ctx personId groupId role) (.opened db) (.opened db) =
        exec (inTx .transactionAborted (writeAssignment ctx personId groupId role)) (.opened db)
          ⟨insertPersonGroup ⟨ctx.event.eventId, personId, groupId, role⟩ db, false⟩ := by
      rw [assignPerson_eq, exec_accompanied commitFree_findBoth hfound, hfresh]
    exact ⟨_, runTransaction_inTx commitFree_writeAssignment hexec⟩

/-- The rows are those of a service that gives up at the duplicate. -/
theorem assignPerson_rows :
    (runInEvent (assignPerson ctx personId groupId role) db).2 =
      (run (EventWrites.assignPerson ctx personId groupId role) db).2 := by
  have hrefusal (v : LedgerDb) :
      personGroupViolation v ⟨ctx.event.eventId, personId, groupId, role⟩ = none ↔
        personGroupRefusal ⟨ctx.event.eventId, personId, groupId, role⟩ v = none := by
    unfold personGroupViolation personGroupRefusal
    split_ifs <;> simp
  have hservice : EventWrites.assignPerson ctx personId groupId role =
      findBoth ctx personId groupId >>= fun _ =>
        modifyChecked (fun _ => [.personGroup personId groupId])
          (fun v => accept (personGroupViolation v ⟨ctx.event.eventId, personId, groupId, role⟩))
          (insertPersonGroup ⟨ctx.event.eventId, personId, groupId, role⟩) >>= fun _ =>
        writeAssignment ctx personId groupId role := by
    simp only [EventWrites.assignPerson, findBoth, bind_assoc]
    rfl
  rw [hservice]
  exact accompanied_rows commitFree_findBoth (fun _ => commitFree_writeAssignment) hrefusal

end assigning

theorem enqueueing_rows {α β : Type} {mutation : LedgerProgram α} {row : OutboxRow}
    {rest : α → LedgerProgram β} (hmutation : mutation.CommitFree)
    (hrest : ∀ a, (rest a).CommitFree) (db : LedgerDb) :
    (runInEvent (enqueueing mutation row rest) db).2 =
      (run (mutation >>= fun a => LedgerWrites.enqueue row >>= fun _ => rest a) db).2 := by
  refine accompanied_rows hmutation hrest fun v => ?_
  unfold outboxRefusal
  split_ifs <;> simp

/-- Both operations are as they are meant exactly where the row is not there yet. -/
theorem duplicates_kept_iff (ctx : OperationContext) (personId groupId : ℕ)
    (role : Option String) (db : LedgerDb) {α β : Type} (mutation : LedgerProgram α)
    (row : OutboxRow) (rest : α → LedgerProgram β) (mid : LedgerDb) (a : α) :
    (can ctx.event.role .groupWrite = true → isWritable ctx.event.status = true →
      (db.findPerson ctx.event.eventId personId).isSome →
      (db.groups.find? fun g => g.eventId == ctx.event.eventId && g.id == groupId).isSome →
      (Assigned ctx personId groupId role db ↔
        db.personGroups.has (personId, groupId) = false)) ∧
    (mutation.CommitFree → (∀ a, (rest a).CommitFree) →
      exec mutation db db = .ok (a, db, mid) →
      (run (enqueueingOnce mutation row rest) db).2 ≠ db →
      (runInEvent (enqueueing mutation row rest) db = run (enqueueingOnce mutation row rest) db ↔
        mid.outbox.has row.idempotencyKey = false)) := by
  refine ⟨fun hmay hopen hperson hgroup => assigned_iff hmay hopen hperson hgroup, ?_⟩
  intro hmutation hrest hmid hchanges
  have hrefusal : outboxRefusal row mid = none ↔ mid.outbox.has row.idempotencyKey = false := by
    unfold outboxRefusal
    cases mid.outbox.has row.idempotencyKey <;> simp
  rw [← hrefusal]
  exact accompanied_iff hmutation hrest hmid hchanges

def host : OperationContext := ⟨⟨1, true⟩, ⟨7, .owner, .active⟩⟩

/-- Ann, and a choir that has these members. -/
def choir (members : List ℕ) : LedgerDb :=
  { LedgerDb.empty with
    persons := LedgerDb.empty.persons.insertNew ⟨3, 7, "Ann", none, none, .humanTyped, none, 0⟩
    groups := LedgerDb.empty.groups.insertNew ⟨5, 7, "Choir", .church, none⟩
    personGroups := members.foldl (fun t p => t.insertNew ⟨7, p, 5, none⟩)
      LedgerDb.empty.personGroups }

def ben : Person := ⟨4, 7, "Ben", none, none, .humanTyped, none, 0⟩

def welcome : OutboxRow := ⟨"welcome:4", 7, "person.added", []⟩

theorem duplicates_kept_iff_choir :
    (Assigned host 3 5 none (choir []) ↔ (choir []).personGroups.has (3, 5) = false) ∧
      (runInEvent (enqueueing (insertPerson ben) welcome fun _ => .pure ()) (choir []) =
          run (enqueueingOnce (insertPerson ben) welcome fun _ => .pure ()) (choir []) ↔
        ((choir []).insertPerson ben).outbox.has welcome.idempotencyKey = false) := by
  have hkept := duplicates_kept_iff host 3 5 none (choir []) (insertPerson ben) welcome
    (fun _ => (.pure () : LedgerProgram Unit)) ((choir []).insertPerson ben) ()
  refine ⟨hkept.1 rfl rfl rfl rfl, hkept.2 ?_ (fun _ => trivial) rfl ?_⟩
  · intro answer
    cases answer <;> trivial
  · intro h
    have hpersons := congrArg (fun db => db.persons.rows.length) h
    revert hpersons
    decide

/-- Ann is assigned again, which fails; Ben is added with a key that is taken, which is reported as
done, and Ben is not there. -/
theorem duplicates_lost :
    ¬ Assigned host 3 5 none (choir [3]) ∧
      (runInEvent (enqueueing (insertPerson ben) welcome fun _ => .pure ())
        ((choir []).insertOutbox welcome)).1 = .ok () ∧
      (runInEvent (enqueueing (insertPerson ben) welcome fun _ => .pure ())
        ((choir []).insertOutbox welcome)).2.persons.has 4 = false := by
  refine ⟨?_, by decide, by decide⟩
  rintro ⟨entry, hrun⟩
  have hresult : (runInEvent (assignPerson host 3 5 none) (choir [3])).1 =
      .error .transactionAborted := by decide
  rw [hrun] at hresult
  cases hresult

end Akabbo.SwallowedDuplicates
