import Akabbo.LedgerState

/-!
# The ledger services

Every write of the pledge, fulfillment and person services as its database
statements, in source order. Each call is one transaction on one event.
-/
namespace Akabbo.LedgerWrites
open Access PledgeStatus RowTable StatementProgram LedgerState
open StatementProgram.Program (query modify modifyChecked accept refuse orThrow runIf)

section statements

/-- The permission and event-status gates, before the transaction opens. -/
def gates (ctx : OperationContext) (action : Action) : LedgerProgram Unit := do
  refuse (assertPermission ctx.event.role action)
  refuse (assertEventWritable ctx.event.status)

/-- `AuditWriter.write`. -/
def writeAudit (ctx : OperationContext) (action resourceType : String) (resourceId : ℕ)
    (source : ProvenanceSource) (oldValue newValue : Option (List (String × Json))) :
    LedgerProgram Unit :=
  modify (fun _ => []) fun db => db.appendAudit
    ⟨ctx.event.eventId, some ctx.actor.userId, action, resourceType, resourceId, source,
      oldValue, newValue⟩

/-- `OutboxWriter.enqueue`. The unique violation it catches has already aborted the
transaction, whose end is then a rollback. -/
def enqueue (row : OutboxRow) : LedgerProgram Unit :=
  modifyChecked (fun _ => [.outboxKey row.idempotencyKey])
    (fun db => accept (if db.outbox.has row.idempotencyKey then some .transactionAborted
      else none))
    fun db => db.insertOutbox row

def insertPerson (person : Person) : LedgerProgram Unit :=
  modifyChecked (fun _ => [.person person.id])
    (fun db => accept (if db.persons.has person.id then some (.uniqueViolation "person")
      else none))
    fun db => db.insertPerson person

/-- Foreign keys are checked without row-level security: a row of another event will do. -/
def pledgeViolation (db : LedgerDb) (pledge : Pledge) : Option Refusal :=
  if db.pledges.has pledge.id then some (.uniqueViolation "pledge")
  else if !db.persons.has pledge.personId then some (.foreignKeyViolation "pledge")
  else if pledge.targetBudgetItemId.any fun b => !db.budgetItems.has b then
    some (.foreignKeyViolation "pledge")
  else none

def insertPledge (pledge : Pledge) : LedgerProgram Unit :=
  modifyChecked (fun _ => [.pledge pledge.id]) (fun db => accept (pledgeViolation db pledge))
    fun db => db.insertPledge pledge

def fulfillmentViolation (db : LedgerDb) (f : Fulfillment) : Option Refusal :=
  if db.fulfillments.has f.id then some (.uniqueViolation "fulfillment")
  else if f.idempotencyKey.any fun k => (db.findByKey f.eventId k).isSome then
    some (.uniqueViolation "fulfillment")
  else if !db.pledges.has f.pledgeId then some (.foreignKeyViolation "fulfillment")
  else none

def insertFulfillment (f : Fulfillment) : LedgerProgram Unit :=
  modifyChecked
    (fun _ => .fulfillment f.id ::
      (f.idempotencyKey.map fun k => RowLock.fulfillmentKey f.eventId k).toList)
    (fun db => accept (fulfillmentViolation db f))
    fun db => db.insertFulfillment f

/-- `tx.pledge.update` of one visible row, returning the row it wrote; updating no row is
an error. -/
def updatePledge (eventId id : ℕ) (f : Pledge → Pledge) (hf : ∀ p, (f p).id = p.id) :
    LedgerProgram Pledge :=
  modifyChecked (fun _ => [.pledge id])
    (fun db => match db.findPledge eventId id with
      | some p => .ok (f p)
      | none => .error (.recordNotFound "pledge"))
    fun db => db.updatePledge eventId id f hf

theorem id_withStatus (status : Status) (p : Pledge) : ({ p with status } : Pledge).id = p.id := rfl

def setStatus (eventId id : ℕ) (status : Status) : LedgerProgram Pledge :=
  updatePledge eventId id (fun p => { p with status }) (id_withStatus status)

def updateFulfillmentValue (eventId id value : ℕ) : LedgerProgram Fulfillment :=
  modifyChecked (fun _ => [.fulfillment id])
    (fun db => match db.findFulfillment eventId id with
      | some f => .ok { f with value }
      | none => .error (.recordNotFound "fulfillment"))
    fun db => db.setFulfillmentValue eventId id value

end statements

structure CreatePersonInput where
  displayName : String
  phone : Option String := none
  confirmSharedPhone : Bool := false
  source : Option ProvenanceSource := none
  deriving DecidableEq, Repr

structure PersonView where
  id : ℕ
  displayName : String
  phone : Option String
  source : ProvenanceSource
  userId : Option ℕ
  deriving DecidableEq, Repr

/-- The oldest row among those a statement matched. -/
def oldest (rows : List Person) : Option Person :=
  rows.foldl (fun best p => match best with
    | none => some p
    | some b => if p.createdAt < b.createdAt then some p else some b) none

def assertPhoneNotAttachedElsewhere (ctx : OperationContext) (phone : String)
    (confirmSharedPhone : Bool) : LedgerProgram Unit :=
  runIf (!confirmSharedPhone) do
    let existing ← query fun db => oldest <| db.persons.rows.filter fun p =>
      p.eventId == ctx.event.eventId && p.phone == some phone
    refuse (existing.map fun p => .phoneAlreadyAttached p.id p.displayName phone)

/-- `ent` is the answer of the entitlement check for `add_contributor`. -/
def createPerson (ctx : OperationContext) (ent : EntitlementDecision) (input : CreatePersonInput)
    (draw : Draw) : LedgerProgram PersonView := do
  gates ctx .personWrite
  refuse ent.refusal
  let phone := input.phone.getD ""
  runIf (phone != "") (assertPhoneNotAttachedElsewhere ctx phone input.confirmSharedPhone)
  let source := input.source.getD .humanTyped
  insertPerson ⟨draw.personId, ctx.event.eventId, input.displayName, input.phone, none, source,
    some ctx.actor.userId, draw.now⟩
  writeAudit ctx "person:create" "person" draw.personId source none
    (some [("displayName", .text input.displayName)])
  return ⟨draw.personId, input.displayName, input.phone, source, none⟩

structure CreatePledgeInput where
  personId : ℕ
  committedValue : ℕ
  type : Option PledgeType := none
  targetBudgetItemId : Option ℕ := none
  description : Option String := none
  quantity : Option ℕ := none
  unit : Option String := none
  estimatedValue : Option ℕ := none
  source : Option ProvenanceSource := none
  deriving DecidableEq, Repr

structure PledgeView where
  id : ℕ
  personId : ℕ
  type : PledgeType
  committedValue : String
  status : Status
  source : ProvenanceSource
  deriving DecidableEq, Repr

def toView (p : Pledge) : PledgeView :=
  ⟨p.id, p.personId, p.type, moneyToString p.committedValue, p.status, p.source⟩

def requirePerson (ctx : OperationContext) (personId : ℕ) : LedgerProgram Person := do
  let person ← query fun db => db.findPerson ctx.event.eventId personId
  orThrow person (.notFound "Person not found in this event")

def createPledge (ctx : OperationContext) (input : CreatePledgeInput) (draw : Draw) :
    LedgerProgram PledgeView := do
  gates ctx .pledgeWrite
  refuse checkLedgerWrite.refusal
  let _ ← requirePerson ctx input.personId
  let source := input.source.getD .humanTyped
  let pledge : Pledge := ⟨draw.pledgeId, ctx.event.eventId, input.personId,
    input.type.getD .cash, input.committedValue, .pledged, input.targetBudgetItemId,
    input.description, input.quantity, input.unit, input.estimatedValue, false, source,
    some ctx.actor.userId, draw.now⟩
  insertPledge pledge
  writeAudit ctx "pledge:create" "pledge" pledge.id source none
    (some [("personId", .id pledge.personId),
      ("committedValue", .text (moneyToString pledge.committedValue)),
      ("type", .text pledge.type.name)])
  return toView pledge

structure FulfillmentView where
  id : ℕ
  pledgeId : ℕ
  value : String
  kind : FulfillmentKind
  method : PaymentMethod
  verificationStatus : VerificationStatus
  pledgeStatus : Status
  outstanding : String
  idempotentReplay : Bool := false
  deriving DecidableEq, Repr

/-- The recorded payment under a key, or nothing; the empty key is no key. -/
def findByIdempotencyKey (ctx : OperationContext) (idempotencyKey : Option String) :
    LedgerProgram (Option FulfillmentView) :=
  match idempotencyKey with
  | none => pure none
  | some key =>
    if key = "" then pure none
    else do
      let existing ← query fun db => db.findByKey ctx.event.eventId key
      match existing with
      | none => return none
      | some f =>
        let found ← query fun db => db.findPledge ctx.event.eventId f.pledgeId
        let pledge ← orThrow found (.recordNotFound "pledge")
        let sum ← query fun db => db.sumFulfillments ctx.event.eventId f.pledgeId
        return some
          { id := f.id
            pledgeId := f.pledgeId
            value := moneyToString f.value
            kind := f.kind
            method := f.method
            verificationStatus := f.verificationStatus
            pledgeStatus := pledge.status
            outstanding := moneyToString (outstanding pledge.committedValue sum)
            idempotentReplay := true }

def duplicateWindowMs : ℕ := 10 * 60 * 1000

/-- The newest row among those a statement matched. -/
def newest (rows : List Fulfillment) : Option Fulfillment :=
  rows.foldl (fun best f => match best with
    | none => some f
    | some b => if f.createdAt > b.createdAt then some f else some b) none

def assertNotDuplicate (ctx : OperationContext) (pledgeId value now : ℕ) :
    LedgerProgram Unit := do
  let similar ← query fun db => newest <| db.fulfillments.rows.filter fun f =>
    f.eventId == ctx.event.eventId && f.pledgeId == pledgeId && f.value == value &&
      decide (now ≤ f.createdAt + duplicateWindowMs)
  refuse (similar.map fun f => .duplicateSuspected f.id (moneyToString f.value) f.createdAt)

/-- The sum that a payment or its correction has to fit beside. -/
def existingSum (db : LedgerDb) (eventId pledgeId : ℕ) (excludeFulfillmentId : Option ℕ) : ℕ :=
  match excludeFulfillmentId with
  | none => db.sumFulfillments eventId pledgeId
  | some f => db.sumOthers eventId pledgeId f

def assertWithinCommitted (ctx : OperationContext) (pledgeId committedValue additionalValue : ℕ)
    (excludeFulfillmentId : Option ℕ) : LedgerProgram Unit := do
  let existing ← query fun db =>
    existingSum db ctx.event.eventId pledgeId excludeFulfillmentId
  let projected := existing + additionalValue
  if projected > committedValue then
    .throw (.forbidden ("This pledge is already fully accounted for beyond that: only " ++
      s!"{moneyToString (outstanding committedValue existing)} remains outstanding (committed " ++
      s!"{moneyToString committedValue}, already recorded {moneyToString existing}). " ++
      "Correct the pledge amount first if it should be higher."))
  else pure ()

structure WriteFulfillmentInput where
  pledgeId : ℕ
  committedValue : ℕ
  value : ℕ
  kind : Option FulfillmentKind := none
  method : Option PaymentMethod := none
  currency : Option String := none
  note : Option String := none
  occurredAt : Option ℕ := none
  idempotencyKey : Option String := none
  source : Option ProvenanceSource := none
  deriving DecidableEq, Repr

/-- The row that `writeFulfillment` inserts: only ever reported, never verified. -/
def newFulfillment (ctx : OperationContext) (input : WriteFulfillmentInput) (draw : Draw) :
    Fulfillment :=
  { id := draw.fulfillmentId
    eventId := ctx.event.eventId
    pledgeId := input.pledgeId
    kind := input.kind.getD .payment
    value := input.value
    currency := input.currency.getD "UGX"
    method := input.method.getD .unknown
    verificationStatus := .reported
    note := input.note
    occurredAt := input.occurredAt.getD draw.now
    idempotencyKey := input.idempotencyKey
    source := input.source.getD .humanTyped
    createdById := some ctx.actor.userId
    createdAt := draw.now }

def fulfillmentView (f : Fulfillment) (status : Status) (remaining : ℕ) : FulfillmentView :=
  { id := f.id
    pledgeId := f.pledgeId
    value := moneyToString f.value
    kind := f.kind
    method := f.method
    verificationStatus := f.verificationStatus
    pledgeStatus := status
    outstanding := moneyToString remaining }

def outboxRow (f : Fulfillment) : OutboxRow :=
  { idempotencyKey := s!"fulfillment:{f.id}"
    eventId := f.eventId
    topic := "contribution.recorded"
    payload := [("fulfillmentId", .id f.id), ("pledgeId", .id f.pledgeId),
      ("value", .text (moneyToString f.value))] }

/-- The shared write path: the payment, the pledge's status, the audit row, the outbox row.
The status is computed from the committed value that the caller read earlier. -/
def writeFulfillment (ctx : OperationContext) (input : WriteFulfillmentInput) (draw : Draw) :
    LedgerProgram FulfillmentView := do
  let f := newFulfillment ctx input draw
  insertFulfillment f
  let totalFulfilled ← query fun db => db.sumFulfillments ctx.event.eventId input.pledgeId
  let status := deriveStatus input.committedValue totalFulfilled
  let remaining := outstanding input.committedValue totalFulfilled
  let _ ← setStatus ctx.event.eventId input.pledgeId status
  writeAudit ctx "fulfillment:create" "fulfillment" f.id f.source none
    (some [("pledgeId", .id f.pledgeId), ("value", .text (moneyToString f.value)),
      ("method", .text f.method.name),
      ("verificationStatus", .text f.verificationStatus.name),
      ("pledgeStatus", .text status.name)])
  enqueue (outboxRow f)
  return fulfillmentView f status remaining

structure RecordFulfillmentInput where
  pledgeId : ℕ
  value : ℕ
  kind : Option FulfillmentKind := none
  method : Option PaymentMethod := none
  currency : Option String := none
  note : Option String := none
  occurredAt : Option ℕ := none
  idempotencyKey : Option String := none
  confirmDuplicate : Bool := false
  source : Option ProvenanceSource := none
  deriving DecidableEq, Repr

/-- What `recordFulfillment` does when no earlier call used its key. -/
def payPledge (ctx : OperationContext) (input : RecordFulfillmentInput) (draw : Draw) :
    LedgerProgram FulfillmentView := do
  let found ← query fun db => db.findPledge ctx.event.eventId input.pledgeId
  let pledge ← orThrow found (.notFound "Pledge not found in this event")
  refuse (if pledge.status = .cancelled then
    some (.forbidden "Cannot fulfill a cancelled pledge") else none)
  runIf (!input.confirmDuplicate) (assertNotDuplicate ctx input.pledgeId input.value draw.now)
  assertWithinCommitted ctx input.pledgeId pledge.committedValue input.value none
  writeFulfillment ctx
    { pledgeId := input.pledgeId
      committedValue := pledge.committedValue
      value := input.value
      kind := input.kind
      method := input.method
      currency := input.currency
      note := input.note
      occurredAt := input.occurredAt
      idempotencyKey := input.idempotencyKey
      source := input.source } draw

def recordFulfillment (ctx : OperationContext) (input : RecordFulfillmentInput) (draw : Draw) :
    LedgerProgram FulfillmentView := do
  gates ctx .fulfillmentWrite
  refuse checkLedgerWrite.refusal
  let replay ← findByIdempotencyKey ctx input.idempotencyKey
  match replay with
  | some view => return view
  | none => payPledge ctx input draw

structure RecordDirectContributionInput where
  personId : Option ℕ := none
  displayName : Option String := none
  phone : Option String := none
  value : ℕ
  kind : Option FulfillmentKind := none
  method : Option PaymentMethod := none
  note : Option String := none
  type : Option PledgeType := none
  description : Option String := none
  targetBudgetItemId : Option ℕ := none
  idempotencyKey : Option String := none
  source : Option ProvenanceSource := none
  deriving DecidableEq, Repr

/-- The contributor of a direct gift: the given person, or a new one under a name. -/
def directContributor (ctx : OperationContext) (input : RecordDirectContributionInput)
    (draw : Draw) : LedgerProgram ℕ :=
  match input.personId with
  | some personId => do
      let _ ← requirePerson ctx personId
      return personId
  | none =>
      let source := input.source.getD .humanTyped
      match input.displayName with
      | none => .throw (.notFound "Person or displayName required")
      | some displayName =>
        if displayName = "" then .throw (.notFound "Person or displayName required")
        else do
          insertPerson ⟨draw.personId, ctx.event.eventId, displayName, input.phone, none, source,
            some ctx.actor.userId, draw.now⟩
          writeAudit ctx "person:create" "person" draw.personId source none
            (some [("displayName", .text displayName)])
          return draw.personId

/-- A gift with no prior pledge: the pledge and its payment in one transaction. -/
def giveDirectly (ctx : OperationContext) (input : RecordDirectContributionInput) (draw : Draw) :
    LedgerProgram FulfillmentView := do
  let personId ← directContributor ctx input draw
  let source := input.source.getD .humanTyped
  insertPledge
    { id := draw.pledgeId
      eventId := ctx.event.eventId
      personId
      type := input.type.getD .cash
      committedValue := input.value
      status := .pledged
      targetBudgetItemId := input.targetBudgetItemId
      description := input.description
      quantity := none
      unit := none
      estimatedValue := none
      isDirect := true
      source
      createdById := some ctx.actor.userId
      createdAt := draw.now }
  -- the snapshot carries the person the caller named, not the one just created
  writeAudit ctx "pledge:create_direct" "pledge" draw.pledgeId source none
    (some ((input.personId.map fun p => ("personId", Json.id p)).toList ++
      [("committedValue", .text (moneyToString input.value)), ("isDirect", .flag true)]))
  writeFulfillment ctx
    { pledgeId := draw.pledgeId
      committedValue := input.value
      value := input.value
      kind := input.kind
      method := input.method
      note := input.note
      idempotencyKey := input.idempotencyKey
      source := some source } draw

def recordDirectContribution (ctx : OperationContext) (input : RecordDirectContributionInput)
    (draw : Draw) : LedgerProgram FulfillmentView := do
  gates ctx .fulfillmentWrite
  refuse checkLedgerWrite.refusal
  let replay ← findByIdempotencyKey ctx input.idempotencyKey
  match replay with
  | some view => return view
  | none => giveDirectly ctx input draw

structure RecordPledgeWithPaymentInput where
  personId : ℕ
  committedValue : ℕ
  receivedNow : Option ℕ := none
  type : Option PledgeType := none
  description : Option String := none
  targetBudgetItemId : Option ℕ := none
  method : Option PaymentMethod := none
  note : Option String := none
  idempotencyKey : Option String := none
  source : Option ProvenanceSource := none
  deriving DecidableEq, Repr

/-- A pledge and a first payment on it. The key guards the payment row only, and no
earlier record under it is looked up. -/
def recordPledgeWithPayment (ctx : OperationContext) (input : RecordPledgeWithPaymentInput)
    (draw : Draw) : LedgerProgram FulfillmentView := do
  gates ctx .pledgeWrite
  refuse checkLedgerWrite.refusal
  let _ ← requirePerson ctx input.personId
  let receivedNow := input.receivedNow.getD 0
  refuse (if receivedNow > input.committedValue then
    some (.forbidden (s!"Received amount ({moneyToString receivedNow}) can't exceed the pledge " ++
      s!"itself ({moneyToString input.committedValue})."))
    else none)
  let source := input.source.getD .humanTyped
  insertPledge
    { id := draw.pledgeId
      eventId := ctx.event.eventId
      personId := input.personId
      type := input.type.getD .cash
      committedValue := input.committedValue
      status := .pledged
      targetBudgetItemId := input.targetBudgetItemId
      description := input.description
      quantity := none
      unit := none
      estimatedValue := none
      isDirect := false
      source
      createdById := some ctx.actor.userId
      createdAt := draw.now }
  writeAudit ctx "pledge:create" "pledge" draw.pledgeId source none
    (some [("personId", .id input.personId),
      ("committedValue", .text (moneyToString input.committedValue))])
  if receivedNow ≤ 0 then
    pure
      { id := draw.pledgeId
        pledgeId := draw.pledgeId
        value := "0"
        kind := .payment
        method := .unknown
        verificationStatus := .reported
        pledgeStatus := .pledged
        outstanding := moneyToString input.committedValue }
  else
    writeFulfillment ctx
      { pledgeId := draw.pledgeId
        committedValue := input.committedValue
        value := receivedNow
        method := input.method
        note := input.note
        idempotencyKey := input.idempotencyKey
        source := some source } draw

def correctCommittedValue (ctx : OperationContext) (pledgeId newValue : ℕ) :
    LedgerProgram PledgeView := do
  gates ctx .fulfillmentCorrect
  let found ← query fun db => db.findPledge ctx.event.eventId pledgeId
  let current ← orThrow found (.notFound "Pledge not found in this event")
  let totalFulfilled ← query fun db => db.sumFulfillments ctx.event.eventId pledgeId
  let status := deriveStatus newValue totalFulfilled (current.status = .cancelled)
  let updated ← updatePledge ctx.event.eventId pledgeId
    (fun p => { p with committedValue := newValue, status }) fun _ => rfl
  writeAudit ctx "pledge:correct" "pledge" pledgeId .manualCorrection
    (some [("committedValue", .text (moneyToString current.committedValue))])
    (some [("committedValue", .text (moneyToString newValue))])
  return toView updated

/-- The bound check of a correction; a payment whose pledge is out of sight has none. -/
def assertCorrectionFits (ctx : OperationContext) (current : Fulfillment) (newValue : ℕ)
    (pledgeBefore : Option Pledge) : LedgerProgram Unit :=
  match pledgeBefore with
  | some pledge =>
      assertWithinCommitted ctx current.pledgeId pledge.committedValue newValue (some current.id)
  | none => pure ()

def correctValue (ctx : OperationContext) (fulfillmentId newValue : ℕ) :
    LedgerProgram FulfillmentView := do
  gates ctx .fulfillmentCorrect
  let found ← query fun db => db.findFulfillment ctx.event.eventId fulfillmentId
  let current ← orThrow found (.notFound "Payment not found in this event")
  let pledgeBefore ← query fun db => db.findPledge ctx.event.eventId current.pledgeId
  assertCorrectionFits ctx current newValue pledgeBefore
  let updated ← updateFulfillmentValue ctx.event.eventId fulfillmentId newValue
  let pledge ← query fun db => db.findPledge ctx.event.eventId current.pledgeId
  let totalFulfilled ← query fun db => db.sumFulfillments ctx.event.eventId current.pledgeId
  let committed := (pledge.map Pledge.committedValue).getD 0
  let status := deriveStatus committed totalFulfilled
    (pledge.any fun p => decide (p.status = .cancelled))
  let _ ← setStatus ctx.event.eventId current.pledgeId status
  writeAudit ctx "fulfillment:correct" "fulfillment" fulfillmentId .manualCorrection
    (some [("value", .text (moneyToString current.value))])
    (some [("value", .text (moneyToString newValue)), ("pledgeStatus", .text status.name)])
  return fulfillmentView updated status (outstanding committed totalFulfilled)

def cancelPledge (ctx : OperationContext) (pledgeId : ℕ) : LedgerProgram PledgeView := do
  gates ctx .pledgeCancel
  let found ← query fun db => db.findPledge ctx.event.eventId pledgeId
  let current ← orThrow found (.notFound "Pledge not found in this event")
  let updated ← setStatus ctx.event.eventId pledgeId .cancelled
  writeAudit ctx "pledge:cancel" "pledge" pledgeId .humanTyped
    (some [("status", .text current.status.name)])
    (some [("status", .text Status.cancelled.name)])
  return toView updated

structure MergeResult where
  targetId : ℕ
  movedPledges : ℕ
  deriving DecidableEq, Repr

/-- `tx.person.update` of the linked account; one account holds one person of an event. -/
def setUserId (eventId id : ℕ) (userId : Option ℕ) : LedgerProgram Unit :=
  modifyChecked (fun _ => [.person id])
    (fun db => accept <|
      if (db.findPerson eventId id).isNone then some (.recordNotFound "person")
      else if userId.any fun u => db.persons.rows.any fun p =>
          p.eventId == eventId && p.userId == some u && p.id != id then
        some (.uniqueViolation "person")
      else none)
    fun db => db.updatePerson eventId id (fun p => { p with userId }) fun _ => rfl

/-- `tx.pledge.updateMany`, returning how many rows moved. -/
def movePledges (eventId sourceId targetId : ℕ) : LedgerProgram ℕ :=
  modifyChecked
    (fun db => (db.pledges.rows.filter fun p =>
      p.eventId == eventId && p.personId == sourceId).map fun p => .pledge p.id)
    (fun db => .ok (db.pledges.rows.filter fun p =>
      p.eventId == eventId && p.personId == sourceId).length)
    fun db => db.movePledges eventId sourceId targetId

def moveFiles (eventId sourceId targetId : ℕ) : LedgerProgram Unit :=
  modify
    (fun db => (db.files.rows.filter fun f =>
      f.eventId == eventId && f.personId == some sourceId).map fun f => .file f.id)
    fun db => db.moveFiles eventId sourceId targetId

/-- `tx.person.delete`; a pledge of any event keeps the row alive. -/
def deletePerson (eventId id : ℕ) : LedgerProgram Unit :=
  modifyChecked (fun _ => [.person id])
    (fun db => accept <|
      if (db.findPerson eventId id).isNone then some (.recordNotFound "person")
      else if db.pledges.rows.any fun p => p.personId == id then
        some (.foreignKeyViolation "pledge")
      else none)
    fun db => db.deletePerson eventId id

def mergePeople (ctx : OperationContext) (sourceId targetId : ℕ) : LedgerProgram MergeResult := do
  gates ctx .personMerge
  refuse (if sourceId = targetId then some (.conflict "Cannot merge a person into themselves")
    else none)
  let eventId := ctx.event.eventId
  let foundSource ← query fun db => db.findPerson eventId sourceId
  let foundTarget ← query fun db => db.findPerson eventId targetId
  let source ← orThrow foundSource (.notFound "Person not found in this event")
  let target ← orThrow foundTarget (.notFound "Person not found in this event")
  refuse (if source.userId.isSome && target.userId.isSome && source.userId != target.userId then
    some (.conflict
      "Both records are linked to different accounts — resolve that before merging")
    else none)
  -- the account is freed before the target takes it: one person an event for each account
  runIf source.userId.isSome (setUserId eventId sourceId none)
  let moved ← movePledges eventId sourceId targetId
  moveFiles eventId sourceId targetId
  runIf (target.userId.isNone && source.userId.isSome) (setUserId eventId targetId source.userId)
  writeAudit ctx "person:merge" "person" targetId .manualCorrection
    (some [("mergedFrom", .id sourceId), ("mergedName", .text source.displayName)])
    (some [("canonical", .id targetId), ("movedPledges", .count moved)])
  deletePerson eventId sourceId
  return ⟨targetId, moved⟩

inductive LedgerCall
  | createPerson (ent : EntitlementDecision) (input : CreatePersonInput)
  | createPledge (input : CreatePledgeInput)
  | recordFulfillment (input : RecordFulfillmentInput)
  | recordDirectContribution (input : RecordDirectContributionInput)
  | recordPledgeWithPayment (input : RecordPledgeWithPaymentInput)
  | correctCommittedValue (pledgeId newValue : ℕ)
  | correctValue (fulfillmentId newValue : ℕ)
  | cancelPledge (pledgeId : ℕ)
  | mergePeople (sourceId targetId : ℕ)
  deriving DecidableEq, Repr

inductive LedgerResult
  | person (view : PersonView)
  | pledge (view : PledgeView)
  | fulfillment (view : FulfillmentView)
  | merge (result : MergeResult)
  deriving DecidableEq, Repr

def LedgerCall.program (call : LedgerCall) (ctx : OperationContext) (draw : Draw) :
    LedgerProgram LedgerResult :=
  match call with
  | .createPerson ent input => .person <$> LedgerWrites.createPerson ctx ent input draw
  | .createPledge input => .pledge <$> LedgerWrites.createPledge ctx input draw
  | .recordFulfillment input => .fulfillment <$> LedgerWrites.recordFulfillment ctx input draw
  | .recordDirectContribution input =>
      .fulfillment <$> LedgerWrites.recordDirectContribution ctx input draw
  | .recordPledgeWithPayment input =>
      .fulfillment <$> LedgerWrites.recordPledgeWithPayment ctx input draw
  | .correctCommittedValue pledgeId newValue =>
      .pledge <$> LedgerWrites.correctCommittedValue ctx pledgeId newValue
  | .correctValue fulfillmentId newValue =>
      .fulfillment <$> LedgerWrites.correctValue ctx fulfillmentId newValue
  | .cancelPledge pledgeId => .pledge <$> LedgerWrites.cancelPledge ctx pledgeId
  | .mergePeople sourceId targetId => .merge <$> LedgerWrites.mergePeople ctx sourceId targetId

/-- One call of a run: who makes it, what the world supplies, and whether the database
gave up on its transaction. -/
structure Invocation where
  ctx : OperationContext
  draw : Draw
  call : LedgerCall
  rolledBack : Bool
  deriving DecidableEq, Repr

def Invocation.step (db : LedgerDb) (inv : Invocation) : LedgerDb :=
  if inv.rolledBack then db else ((inv.call.program inv.ctx inv.draw).run db).2

/-- Calls one after the other. -/
def ledgerRun (db : LedgerDb) (calls : List Invocation) : LedgerDb :=
  calls.foldl Invocation.step db

theorem ledgerRun_append (db : LedgerDb) (xs ys : List Invocation) :
    ledgerRun db (xs ++ ys) = ledgerRun (ledgerRun db xs) ys := List.foldl_append

end Akabbo.LedgerWrites
