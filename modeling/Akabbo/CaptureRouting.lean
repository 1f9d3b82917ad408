import Akabbo.Confirmations

/-!
# From a tool call to a proposed action

Names are resolved within the event, a name that fits several people is asked back, and
what remains is either executed or, always so for the assistant, parked for a human.
-/
namespace Akabbo.CaptureRouting
open Access RowTable StatementProgram LedgerState ToolExecutor Confirmations
open StatementProgram.Program (query refuse)

inductive ToolCall
  | addPerson (displayName : String) (phone : Option String) (confirmSharedPhone : Option Bool)
  | recordPledge (personName amount : String) (type : Option PledgeType)
      (description receivedNow budgetItemName : Option String)
  | recordPayment (personName amount : String) (type : Option PledgeType)
      (description budgetItemName : Option String)
  | getOutstanding (personName : Option String)
  | getSummary
  deriving DecidableEq, Repr

inductive CaptureTier
  | deterministic | llm
  deriving DecidableEq, Repr

inductive CaptureResult
  | executed (result : ExecutionResult) (tier : CaptureTier)
  | answer (result : ExecutionResult) (tier : CaptureTier)
  | pending (message : String) (pendingId : ℕ) (tier : CaptureTier)
  | clarification (message : String) (options : List String) (tier : CaptureTier)

def confidenceThreshold : ℚ := 7 / 10

/-- The permission a tool call needs before anything is staged. -/
def writeAction : ToolCall → Action
  | .addPerson .. => .personWrite
  | .recordPledge .. => .pledgeWrite
  | .recordPayment .. => .fulfillmentWrite
  | _ => .ledgerReadAmounts

def unknownPerson (name : String) (tier : CaptureTier) : CaptureResult :=
  .clarification s!"I don't see {name} in this event. Add them first with “add {name}”." [] tier

def ambiguousPerson (candidates : List PersonCandidate) (tier : CaptureTier) : CaptureResult :=
  let options := candidates.map PersonCandidate.displayName
  let shown := " or ".intercalate options
  .clarification s!"Which one — {shown}?" options tier

section routing
variable (ctx : OperationContext) (names : NameRules)

/-- The budget line of this name, if exactly one has it. -/
def budgetItemNamed (db : LedgerDb) (eventId : ℕ) (name : Option String) : Option ℕ :=
  let text := name.getD ""
  if text = "" then none
  else match db.budgetItems.rows.filter fun b =>
      b.eventId == eventId && names.lower b.name == names.lower (names.trim text) with
    | [b] => some b.id
    | _ => none

def resolveBudgetItemId (eventId : ℕ) (name : Option String) : LedgerProgram (Option ℕ) :=
  query fun db => budgetItemNamed names db eventId name

/-- What comes of resolving a write: an action with its prompt, or a question back. -/
inductive ResolvedWrite
  | action (action : StoredAction) (prompt : String)
  | clarify (result : CaptureResult)

/-- `receivedNow && BigInt(receivedNow) > 0n`. -/
def firstPayment (receivedNow : Option String) : LedgerProgram (Option String) :=
  match receivedNow with
  | none => pure none
  | some text =>
    if text = "" then pure none
    else do
      let value ← bigInt text
      return if value > 0 then some text else none

def stagePledge (person : Option (ℕ × String)) (name amount : String) (type : Option PledgeType)
    (description receivedNow : Option String) (budgetItemId : Option ℕ) : ResolvedWrite :=
  let suffix := describeSuffix description
  match person, receivedNow with
  | none, some received =>
      .action
        (.recordPledgeWithPayment none name amount received type description none budgetItemId)
        (s!"Add {name} as a contributor, record their pledge of {formatAmount amount}{suffix}, " ++
          s!"and {formatAmount received} already received?")
  | none, none =>
      .action (.recordPledge none name amount type description none budgetItemId)
        s!"Add {name} as a contributor and record their pledge of {formatAmount amount}{suffix}?"
  | some (id, displayName), some received =>
      .action
        (.recordPledgeWithPayment (some id) displayName amount received type description none
          budgetItemId)
        (s!"Record {displayName}'s pledge of {formatAmount amount}{suffix}, " ++
          s!"with {formatAmount received} already received?")
  | some (id, displayName), none =>
      .action (.recordPledge (some id) displayName amount type description none budgetItemId)
        s!"Record {displayName}'s pledge of {formatAmount amount}{suffix}?"

def stageNewGift (name amount : String) (type : Option PledgeType) (description : Option String)
    (budgetItemId : Option ℕ) : ResolvedWrite :=
  .action (.recordDirectContribution none name amount none type description budgetItemId)
    (s!"Add {name} as a contributor and record their contribution of {formatAmount amount}" ++
      s!"{describeSuffix description}?")

/-- A payment goes to the one live pledge, or is a gift of its own without any. -/
def stagePayment (personId : ℕ) (displayName amount : String) (type : Option PledgeType)
    (description : Option String) (budgetItemId : Option ℕ) (tier : CaptureTier) :
    PledgeResolution → ResolvedWrite
  | .none =>
      .action
        (.recordDirectContribution (some personId) displayName amount none type description
          budgetItemId)
        s!"Record {displayName}'s contribution of {formatAmount amount}{describeSuffix description}?"
  | .ambiguous _ =>
      .clarify (.clarification
        s!"{displayName} has more than one pledge — which one is this payment for?" [] tier)
  | .resolved pledgeId =>
      .action (.recordPayment pledgeId displayName amount)
        s!"Record {displayName}'s payment of {formatAmount amount}?"

def resolveWrite (call : ToolCall) (tier : CaptureTier) : LedgerProgram ResolvedWrite :=
  match call with
  | .addPerson displayName phone confirmSharedPhone =>
      pure (.action (.addPerson displayName phone confirmSharedPhone)
        s!"Add {displayName}{describeSuffix phone} as a contributor?")
  | .recordPledge name amount type description receivedNow budgetItemName => do
      let budgetItemId ← resolveBudgetItemId names ctx.event.eventId budgetItemName
      let person ← resolvePerson names ctx.event.eventId name
      match person with
      | .ambiguous candidates => return .clarify (ambiguousPerson candidates tier)
      | .none => do
        let received ← firstPayment receivedNow
        return stagePledge none name amount type description received budgetItemId
      | .resolved id displayName => do
        let received ← firstPayment receivedNow
        return stagePledge (some (id, displayName)) name amount type description received
          budgetItemId
  | .recordPayment name amount type description budgetItemName => do
      let budgetItemId ← resolveBudgetItemId names ctx.event.eventId budgetItemName
      let person ← resolvePerson names ctx.event.eventId name
      match person with
      | .ambiguous candidates => return .clarify (ambiguousPerson candidates tier)
      | .none => return stageNewGift name amount type description budgetItemId
      | .resolved id displayName => do
        let pledge ← resolvePledgeForPerson ctx.event.eventId id
        return stagePayment id displayName amount type description budgetItemId tier pledge
  | _ => pure (.clarify (unknownPerson "" tier))

def routeOutstanding (personName : Option String) (tier : CaptureTier) (draw : ExecDraw) :
    LedgerProgram CaptureResult :=
  let name := personName.getD ""
  if name = "" then do
    let r ← getSummary ctx draw
    return .answer r tier
  else do
    let person ← resolvePerson names ctx.event.eventId name
    match person with
    | .none => return unknownPerson name tier
    | .ambiguous candidates => return ambiguousPerson candidates tier
    | .resolved id displayName => do
      let pledge ← resolvePledgeForPerson ctx.event.eventId id
      match pledge with
      | .resolved pledgeId => do
        let r ← getOutstandingForPledge ctx pledgeId displayName
        return .answer r tier
      | _ => return .clarification s!"I don't see an active pledge for {displayName}." [] tier

/-- A write, which a high confidence alone executes when nothing forces it to wait. -/
def routeWrite (call : ToolCall) (confidence : ℚ) (tier : CaptureTier) (forceStage : Bool)
    (rowId : ℕ) (draw : ExecDraw) : LedgerProgram CaptureResult := do
  refuse (assertPermission ctx.event.role (writeAction call))
  let resolved ← resolveWrite ctx names call tier
  match resolved with
  | .clarify result => return result
  | .action action prompt =>
    if !forceStage ∧ confidence ≥ confidenceThreshold then do
      let r ← ToolExecutor.run ctx names action .aiFromChat draw
      return .executed r tier
    else do
      let pending ← create ctx action (some confidence) prompt rowId
      return .pending prompt pending.id tier

def route (call : ToolCall) (confidence : ℚ) (tier : CaptureTier) (forceStage : Bool)
    (rowId : ℕ) (draw : ExecDraw) : LedgerProgram CaptureResult :=
  match call with
  | .getSummary => do
      let r ← getSummary ctx draw
      return .answer r tier
  | .getOutstanding personName => routeOutstanding ctx names personName tier draw
  | call => routeWrite ctx names call confidence tier forceStage rowId draw

/-- The assistant's writes always wait for a human. -/
def routeToolCall (call : ToolCall) (confidence : ℚ) (rowId : ℕ) (draw : ExecDraw) :
    LedgerProgram CaptureResult := route ctx names call confidence .llm true rowId draw

end routing
end Akabbo.CaptureRouting
