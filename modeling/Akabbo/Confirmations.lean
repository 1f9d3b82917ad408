import Akabbo.ToolExecutor

/-!
# Pending confirmations

A proposed action waits as a row until a human confirms, edits or rejects it. Confirming
marks the row in one transaction and executes its action in others.
-/
namespace Akabbo.Confirmations
open Access RowTable StatementProgram LedgerState EventWrites ToolExecutor
open StatementProgram.Program (query modifyChecked accept refuse orThrow commitNow)

structure PendingView where
  id : ℕ
  intent : String
  prompt : String
  confidence : Option ℚ
  status : ConfirmationStatus
  deriving DecidableEq, Repr

def pendingView (row : PendingConfirmation) : PendingView :=
  ⟨row.id, row.intent, row.prompt, row.confidence, row.status⟩

/-- `create`, whose intent every caller takes from the action. -/
def create (ctx : OperationContext) (action : StoredAction) (confidence : Option ℚ)
    (prompt : String) (rowId : ℕ) : LedgerProgram PendingView := do
  let row : PendingConfirmation :=
    { id := rowId
      eventId := ctx.event.eventId
      payload := action
      confidence
      source := .aiFromChat
      status := .pending
      prompt
      createdById := some ctx.actor.userId
      resolvedById := none
      resolvedAt := none }
  change [.pendingConfirmation row.id]
    (fun db => if db.pendingConfirmations.has row.id then
      some (.uniqueViolation "pending_confirmation") else none)
    fun db => { db with pendingConfirmations := db.pendingConfirmations.insertNew row }
  return pendingView row

def findConfirmation (db : LedgerDb) (eventId id : ℕ) : Option PendingConfirmation :=
  db.pendingConfirmations.find? fun row => row.eventId == eventId && row.id == id

/-- Every call on a row looks at its status here, and writes it later by its id alone. -/
def readPending (ctx : OperationContext) (id : ℕ) : LedgerProgram PendingConfirmation := do
  let found ← query fun db => findConfirmation db ctx.event.eventId id
  let row ← orThrow found (.notFound "Pending confirmation not found")
  refuse (if row.status ≠ .pending then some (.badRequest s!"Already {row.status.lowerName}")
    else none)
  return row

/-- `tx.pendingConfirmation.update` of one visible row, returning the row it wrote. -/
def updateConfirmation (eventId id : ℕ) (f : PendingConfirmation → PendingConfirmation)
    (hf : ∀ row, (f row).id = row.id) : LedgerProgram PendingConfirmation :=
  modifyChecked (fun _ => [.pendingConfirmation id])
    (fun db => match findConfirmation db eventId id with
      | some row => .ok (f row)
      | none => .error (.recordNotFound "pending_confirmation"))
    fun db => { db with
      pendingConfirmations := db.pendingConfirmations.update
        (fun row => row.eventId == eventId && row.id == id) f hf }

def resolveAs (status : ConfirmationStatus) (ctx : OperationContext) (now : ℕ)
    (row : PendingConfirmation) : PendingConfirmation :=
  { row with status, resolvedById := some ctx.actor.userId, resolvedAt := some now }

structure UpdatePendingInput where
  displayName : Option String := none
  amount : Option String := none
  type : Option PledgeType := none
  description : Option String := none
  deriving DecidableEq, Repr

def editableIntents : List String :=
  ["record_pledge", "record_pledge_with_payment", "record_direct_contribution", "record_payment"]

/-- `edits.description || undefined`: the empty text clears it. -/
def editedDescription (edits : UpdatePendingInput) (current : Option String) : Option String :=
  match edits.description with
  | none => current
  | some text => if text = "" then none else some text

/-- The stored action with the fields that its intent accepts. -/
def edited (edits : UpdatePendingInput) : StoredAction → StoredAction
  | .recordPledge personId displayName amount type description phone budgetItemId =>
      .recordPledge personId (edits.displayName.getD displayName) (edits.amount.getD amount)
        (edits.type <|> type) (editedDescription edits description) phone budgetItemId
  | .recordPledgeWithPayment personId displayName amount receivedNow type description phone
      budgetItemId =>
      .recordPledgeWithPayment personId (edits.displayName.getD displayName)
        (edits.amount.getD amount) receivedNow (edits.type <|> type)
        (editedDescription edits description) phone budgetItemId
  | .recordDirectContribution personId displayName amount phone type description budgetItemId =>
      .recordDirectContribution personId (edits.displayName.getD displayName)
        (edits.amount.getD amount) phone (edits.type <|> type)
        (editedDescription edits description) budgetItemId
  | .recordPayment pledgeId displayName amount =>
      .recordPayment pledgeId (edits.displayName.getD displayName) (edits.amount.getD amount)
  | action => action

/-- The `amount` of the action, where its shape has one. -/
def amountOf : StoredAction → Option String
  | .recordPledge _ _ amount _ _ _ _ => some amount
  | .recordPledgeWithPayment _ _ amount _ _ _ _ _ => some amount
  | .recordDirectContribution _ _ amount _ _ _ _ => some amount
  | .recordPayment _ _ amount => some amount
  | _ => none

/-- `/^\d+$/`. -/
def isDigits (text : String) : Bool := text.toList != [] && text.toList.all Char.isDigit

/-- The review prompt after an edit: one phrasing for each intent. -/
def renderPendingPrompt : StoredAction → String
  | .recordPledge _ name amount _ description _ _ =>
      s!"Record {name}'s pledge of {formatAmount amount}{describeSuffix description}?"
  | .recordPledgeWithPayment _ name amount receivedNow _ description _ _ =>
      s!"Record {name}'s pledge of {formatAmount amount}{describeSuffix description}, " ++
        s!"with {formatAmount receivedNow} already received?"
  | .recordDirectContribution _ name amount _ _ description _ =>
      s!"Record {name}'s contribution of {formatAmount amount}{describeSuffix description}?"
  | .recordPayment _ name amount => s!"Record {name}'s payment of {formatAmount amount}?"
  | _ => "Record this contributor's 0?"

/-- Why an edit is not taken, in the order of the checks. -/
def editRefusal (row : PendingConfirmation) (action : StoredAction) : Option Refusal :=
  if row.intent ∉ editableIntents then
    some (.badRequest (s!"Editing is not supported for \"{row.intent}\" — cancel and " ++
      "re-capture instead."))
  else if (amountOf action).any fun amount => !isDigits amount then
    some (.badRequest "amount must be an integer (minor units)")
  else none

def update (ctx : OperationContext) (id : ℕ) (edits : UpdatePendingInput) :
    LedgerProgram PendingView := do
  let row ← readPending ctx id
  let action := edited edits row.payload
  refuse (editRefusal row action)
  let updated ← updateConfirmation ctx.event.eventId id
    (fun row => { row with payload := action, prompt := renderPendingPrompt action }) fun _ => rfl
  return pendingView updated

/-- The transaction that marks a row confirmed and hands on its action. -/
def claim (ctx : OperationContext) (id now : ℕ) :
    LedgerProgram (StoredAction × ProvenanceSource) := do
  let row ← readPending ctx id
  let _ ← updateConfirmation ctx.event.eventId id (resolveAs .confirmed ctx now) fun _ => rfl
  return (row.payload, row.source)

/-- The row is marked first; the action runs after that has committed. -/
def confirm (ctx : OperationContext) (names : NameRules) (id now : ℕ) (draw : ExecDraw) :
    LedgerProgram ExecutionResult := do
  let (action, source) ← claim ctx id now
  commitNow
  ToolExecutor.run ctx names action source draw

def reject (ctx : OperationContext) (id now : ℕ) : LedgerProgram (ℕ × ConfirmationStatus) := do
  let _ ← readPending ctx id
  let updated ← updateConfirmation ctx.event.eventId id (resolveAs .rejected ctx now) fun _ => rfl
  return (updated.id, updated.status)

end Akabbo.Confirmations
