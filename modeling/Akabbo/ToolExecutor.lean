import Akabbo.LedgerReads
import Akabbo.SmsCampaigns

/-!
# Executing a resolved action

The one dispatcher behind chat and confirmation. It resolves names against the event's
people, may create a contributor first, and then calls the same services as the typed
API, each in a transaction of its own.
-/
namespace Akabbo.ToolExecutor
open Access PledgeStatus RowTable StatementProgram ProgramParts LedgerState LedgerWrites LedgerReads
open EventWrites SmsCampaigns
open StatementProgram.Program (query refuse commitNow)

/-- A comma before each group of three digits that ends the number, except at its start. -/
def withCommas : List Char → List Char
  | [] => []
  | [c] => [c]
  | c :: d :: rest =>
      if (rest.length + 1) % 3 = 0 then c :: ',' :: withCommas (d :: rest)
      else c :: withCommas (d :: rest)

def formatAmount (raw : String) : String :=
  match raw.toList with
  | '-' :: digits => String.ofList ('-' :: withCommas digits)
  | digits => String.ofList (withCommas digits)

def formatMoney (value : ℕ) : String := formatAmount (moneyToString value)

/-- The number that a string of digits denotes; the empty string is zero. -/
def parseDigits (text : String) : Option ℕ :=
  if text.toList.all Char.isDigit then some (Nat.ofDigitChars 10 text.toList 0) else none

/-- `BigInt(text)`. Every writer of an action stores digits only. -/
def bigInt (text : String) : LedgerProgram ℕ :=
  match parseDigits text with
  | some value => pure value
  | none => .throw (.internal s!"Cannot convert {text} to a BigInt")

/-- How names are compared: `String.trim`, the database's case-insensitive `contains`,
equality of the names in lower case, and the database's `lower`. A name contains what is
left of it after a trim. -/
structure NameRules where
  trim : String → String
  contains : String → String → Bool
  sameName : String → String → Bool
  lower : String → String
  contains_trim : ∀ name, contains name (trim name) = true

structure PersonCandidate where
  personId : ℕ
  displayName : String
  deriving DecidableEq, Repr

def trimChars (text : List Char) : List Char :=
  ((text.dropWhile Char.isWhitespace).reverse.dropWhile Char.isWhitespace).reverse

def lowerChars (text : String) : List Char := text.toList.map Char.toLower

theorem trimChars_isInfix (text : List Char) : trimChars text <:+: text := by
  have htail := (List.dropWhile_suffix (l := text) Char.isWhitespace).isInfix
  have hhead := List.dropWhile_suffix (l := (text.dropWhile Char.isWhitespace).reverse)
    Char.isWhitespace
  have hrev := List.reverse_prefix.mpr hhead
  rw [List.reverse_reverse] at hrev
  exact hrev.isInfix.trans htail

/-- The rules for names in which upper and lower case differ as in ASCII, and in which the
database finds a pattern of plain letters. -/
def plainNames : NameRules where
  trim name := String.ofList (trimChars name.toList)
  contains name needle := decide (lowerChars needle <:+: lowerChars name)
  sameName a b := lowerChars a == lowerChars b
  lower name := String.ofList (lowerChars name)
  contains_trim name := by
    have hinfix := (trimChars_isInfix name.toList).map Char.toLower
    simpa [lowerChars] using hinfix

inductive PersonResolution
  | resolved (personId : ℕ) (displayName : String)
  | ambiguous (candidates : List PersonCandidate)
  | none
  deriving DecidableEq, Repr

inductive PledgeResolution
  | resolved (pledgeId : ℕ)
  | ambiguous (candidates : List (ℕ × String))
  | none
  deriving DecidableEq, Repr

section resolver
variable (names : NameRules)

/-- Several partial matches: a single exact hit wins, anything else is ambiguous. -/
def preferExact (needle : String) (found : List Person) : PersonResolution :=
  match found.filter fun p => names.sameName p.displayName needle with
  | [p] => .resolved p.id p.displayName
  | _ => .ambiguous (found.map fun p => ⟨p.id, p.displayName⟩)

def resolution (needle : String) (found : List Person) : PersonResolution :=
  match found with
  | [] => .none
  | [p] => .resolved p.id p.displayName
  | _ => preferExact names needle found

/-- The people of the event whose name contains the needle, oldest first. -/
def nameMatches (db : LedgerDb) (eventId : ℕ) (needle : String) : List Person :=
  (db.persons.rows.filter fun p =>
    p.eventId == eventId && names.contains p.displayName needle).insertionSort
      fun a b => a.createdAt ≤ b.createdAt

def personNamed (db : LedgerDb) (eventId : ℕ) (name : String) : PersonResolution :=
  resolution names (names.trim name) (nameMatches names db eventId (names.trim name))

def resolvePerson (eventId : ℕ) (name : String) : LedgerProgram PersonResolution :=
  query fun db => personNamed names db eventId name

end resolver

/-- The pledges of a person that are not cancelled, oldest first. -/
def livePledges (db : LedgerDb) (eventId personId : ℕ) : List Pledge :=
  (db.pledges.rows.filter fun p =>
    p.eventId == eventId && p.personId == personId && p.status != .cancelled).insertionSort
      fun a b => a.createdAt ≤ b.createdAt

def pledgeOf (db : LedgerDb) (eventId personId : ℕ) : PledgeResolution :=
  match livePledges db eventId personId with
  | [] => .none
  | [p] => .resolved p.id
  | ps => .ambiguous (ps.map fun p => (p.id, moneyToString p.committedValue))

def resolvePledgeForPerson (eventId personId : ℕ) : LedgerProgram PledgeResolution :=
  query fun db => pledgeOf db eventId personId

structure InviteData where
  token : String
  role : EventRole
  invitePath : String
  inviteUrl : Option String
  expiresAt : ℕ
  displayName : Option String
  deriving DecidableEq, Repr

inductive ExecutionData
  | person (view : PersonView)
  | pledge (view : PledgeView)
  | fulfillment (view : FulfillmentView)
  | budgetItem (view : BudgetItemView)
  | removedItem (id : ℕ) (name : String)
  | allocation (view : AllocationView)
  | merge (result : MergeResult)
  | campaign (result : SendResult)
  | invite (data : InviteData)
  | outstanding (view : PledgeOutstanding)
  | report (view : EventReport)

/-- The text for the human, from the rows, and what it is about. -/
structure ExecutionResult where
  message : String
  data : ExecutionData

/-- What the world supplies to one execution: to the services it calls, the answer of the
contributor limit, the answers to its credit reservations, the configured address of the
web application, and how the runtime prints a percentage. -/
structure ExecDraw where
  ledger : LedgerState.Draw
  event : EventDraw
  contributor : EntitlementDecision
  reserved : String → Bool
  campaign : CampaignDraw
  publicAppUrl : Option String
  printPercent : Float → String

/-- A world in which every insert gets the id `n` and every gate of the plan is open. -/
def ExecDraw.simple (n now : ℕ) : ExecDraw where
  ledger := ⟨n, n, n, now⟩
  event := ⟨now, n, n, "token", { allowed := true }, none⟩
  contributor := { allowed := true }
  reserved _ := true
  campaign := ⟨n, fun i => n + i, .codePoints⟩
  publicAppUrl := none
  printPercent _ := ""

section executor
variable (ctx : OperationContext)

def updateBudgetItem (itemId : ℕ) (name : String) (targetValue : ℕ) :
    LedgerProgram ExecutionResult := do
  let item ← updateItem ctx itemId { name := some name, targetValue := some targetValue }
  return ⟨s!"Updated budget item \"{item.name}\" to {formatAmount item.targetValue}.",
    .budgetItem item⟩

def removeBudgetItem (itemId : ℕ) : LedgerProgram ExecutionResult := do
  let (id, name) ← removeItem ctx itemId
  return ⟨s!"Removed budget item \"{name}\".", .removedItem id name⟩

def allocateToBudget (fulfillmentId budgetItemId : ℕ) (budgetItemName displayName : String)
    (value : ℕ) (draw : ExecDraw) : LedgerProgram ExecutionResult := do
  let allocation ← allocate ctx fulfillmentId budgetItemId value draw.event
  return ⟨s!"Allocated {formatMoney value} from {displayName}'s payment to " ++
    s!"\"{budgetItemName}\".", .allocation allocation⟩

def correctPledge (pledgeId : ℕ) (displayName : String) (newValue : ℕ) :
    LedgerProgram ExecutionResult := do
  let pledge ← correctCommittedValue ctx pledgeId newValue
  return ⟨s!"Corrected {displayName}'s pledge to {formatAmount pledge.committedValue}.",
    .pledge pledge⟩

def correctPayment (fulfillmentId : ℕ) (displayName : String) (newValue : ℕ) :
    LedgerProgram ExecutionResult := do
  let f ← correctValue ctx fulfillmentId newValue
  return ⟨s!"Corrected {displayName}'s payment to {formatAmount f.value} " ++
    s!"(outstanding {formatAmount f.outstanding}).", .fulfillment f⟩

def mergePeople (sourceId targetId : ℕ) (sourceName targetName : String) :
    LedgerProgram ExecutionResult := do
  let result ← LedgerWrites.mergePeople ctx sourceId targetId
  return ⟨s!"Merged {sourceName} into {targetName} (moved {result.movedPledges} pledge(s)).",
    .merge result⟩

def createBudgetItem (name : String) (targetValue : ℕ) (source : ProvenanceSource)
    (sourceDocumentId : Option ℕ) (draw : ExecDraw) : LedgerProgram ExecutionResult := do
  let item ← addItem ctx ⟨name, targetValue, some source, sourceDocumentId⟩ draw.event
  return ⟨s!"Added budget item “{item.name}” ({formatAmount item.targetValue}).",
    .budgetItem item⟩

/-- The event tables as a part of themselves. -/
def ledgerItself : Part LedgerDb LedgerDb where
  get := id
  put := fun x _ => x
  get_put _ _ := rfl
  put_get _ := rfl
  put_put _ _ _ := rfl

theorem ledgerItself_run {ρ : Type} (p : LedgerProgram ρ) : ledgerItself.run id p = p := by
  induction p with
  | pure r => rfl
  | throw e => rfl
  | select q k ih => exact congrArg (Program.select q) (funext ih)
  | write l q w k ih =>
    have hlocks : (fun db => (l (ledgerItself.get db)).map id) = l :=
      funext fun db => List.map_id _
    simp only [Part.run, hlocks]
    exact congrArg (Program.write l q w) (funext ih)
  | commit k ih => exact congrArg Program.commit ih

/-- The credit rows are none of these, and live behind another connection: here the world answers
whether there is one left. -/
def answeredCredits (reserved : String → Bool) : Credits RowLock LedgerDb where
  reserve _ key := pure (reserved key)
  commit _ _ := pure ()
  refund _ _ := pure ()

def queuedReminders (result : SendResult) : ExecutionResult :=
  let skipped := if result.skipped > 0 then s!" ({result.skipped} skipped — out of credits)" else ""
  ⟨s!"Queued reminders to {result.queued} contributor(s){skipped}.", .campaign result⟩

def sendReminders (body : String) (draw : ExecDraw) : LedgerProgram ExecutionResult := do
  let result ← SmsCampaigns.sendReminders ledgerItself id (answeredCredits draw.reserved) ctx body
    [] draw.campaign
  return queuedReminders result

def withoutFinalSlash (base : String) : String :=
  match base.toList.reverse with
  | '/' :: rest => String.ofList rest.reverse
  | _ => base

def inviteMember (role : EventRole) (displayName phone : Option String) (draw : ExecDraw) :
    LedgerProgram ExecutionResult := do
  let invitation ← createInvitation ctx { role, invitedPhone := phone } draw.event
  let invitePath := s!"/join/{invitation.token}"
  let base := draw.publicAppUrl.filter fun url => url != ""
  let inviteUrl := base.map fun url => withoutFinalSlash url ++ invitePath
  let who := displayName.getD "the member"
  return ⟨s!"Invitation created for {who} as {invitation.role.name}. Share this link — they " ++
    s!"join by entering their phone and verifying an OTP:\n{inviteUrl.getD invitePath}",
    .invite ⟨invitation.token, invitation.role, invitePath, inviteUrl, invitation.expiresAt,
      displayName⟩⟩

def addPerson (displayName : String) (source : ProvenanceSource) (phone : Option String)
    (confirmSharedPhone : Option Bool) (draw : ExecDraw) : LedgerProgram ExecutionResult := do
  let person ← createPerson ctx draw.contributor
    ⟨displayName, phone, confirmSharedPhone.getD false, some source⟩ draw.ledger
  let reach := if person.phone.getD "" = "" then
    " (no phone on file — they won't be reachable by SMS yet)" else ""
  return ⟨s!"Added {person.displayName}.{reach}", .person person⟩

def describeSuffix (description : Option String) : String :=
  let text := description.getD ""
  if text = "" then "" else s!" ({text})"

def recordPayment (pledgeId : ℕ) (displayName : String) (amount : ℕ) (source : ProvenanceSource)
    (draw : ExecDraw) : LedgerProgram ExecutionResult := do
  let f ← recordFulfillment ctx { pledgeId, value := amount, source := some source } draw.ledger
  return ⟨s!"Recorded {displayName}'s payment of {formatMoney amount}. " ++
    s!"Outstanding on that pledge: {formatAmount f.outstanding}.", .fulfillment f⟩

variable (names : NameRules)

/-- Resolve the name again, and create a contributor only when that finds no single one. The
creation commits before anything else is done. -/
def resolveOrCreatePerson (displayName : String) (source : ProvenanceSource)
    (phone : Option String) (draw : ExecDraw) : LedgerProgram ℕ := do
  let existing ← resolvePerson names ctx.event.eventId displayName
  match existing with
  | .resolved personId _ => return personId
  | _ => do
      let person ← createPerson ctx draw.contributor ⟨displayName, phone, false, some source⟩
        draw.ledger
      commitNow
      return person.id

/-- `personId ?? (await this.resolveOrCreatePerson(…))`. -/
def targetPerson (personId : Option ℕ) (displayName : String) (source : ProvenanceSource)
    (phone : Option String) (draw : ExecDraw) : LedgerProgram ℕ :=
  match personId with
  | some id => pure id
  | none => resolveOrCreatePerson ctx names displayName source phone draw

def recordPledge (personId : Option ℕ) (displayName : String) (amount : ℕ)
    (source : ProvenanceSource) (type : Option PledgeType) (phone description : Option String)
    (budgetItemId : Option ℕ) (draw : ExecDraw) : LedgerProgram ExecutionResult := do
  let targetPersonId ← targetPerson ctx names personId displayName source phone draw
  let pledge ← createPledge ctx
    { personId := targetPersonId
      committedValue := amount
      type
      description
      targetBudgetItemId := budgetItemId
      source := some source } draw.ledger
  return ⟨s!"Recorded {displayName}'s pledge of {formatMoney amount}" ++
    s!"{describeSuffix description}.", .pledge pledge⟩

def recordPledgeWithPayment (personId : Option ℕ) (displayName : String)
    (committedValue receivedNow : ℕ) (source : ProvenanceSource) (type : Option PledgeType)
    (phone description : Option String) (budgetItemId : Option ℕ) (draw : ExecDraw) :
    LedgerProgram ExecutionResult := do
  let targetPersonId ← targetPerson ctx names personId displayName source phone draw
  let result ← LedgerWrites.recordPledgeWithPayment ctx
    { personId := targetPersonId
      committedValue
      receivedNow := some receivedNow
      type
      description
      targetBudgetItemId := budgetItemId
      source := some source } draw.ledger
  return ⟨s!"Recorded {displayName}'s pledge of {formatMoney committedValue}" ++
    s!"{describeSuffix description}, with {formatMoney receivedNow} already received. " ++
    s!"Outstanding: {formatAmount result.outstanding}.", .fulfillment result⟩

/-- `type && type !== 'CASH' ? 'DELIVERY' : undefined`. -/
def giftKind (type : Option PledgeType) : Option FulfillmentKind :=
  (type.filter fun t => t != .cash).map fun _ => .delivery

def giveAs (personId : ℕ) (displayName : String) (amount : ℕ) (source : ProvenanceSource)
    (phone : Option String) (type : Option PledgeType) (description : Option String)
    (budgetItemId : Option ℕ) (draw : ExecDraw) : LedgerProgram ExecutionResult := do
  let f ← LedgerWrites.recordDirectContribution ctx
    { personId := some personId
      displayName := some displayName
      phone
      value := amount
      source := some source
      type
      description
      targetBudgetItemId := budgetItemId
      kind := giftKind type } draw.ledger
  return ⟨s!"Recorded {displayName}'s contribution of {formatMoney amount}" ++
    s!"{describeSuffix description}.", .fulfillment f⟩

/-- A gift staged before its giver existed goes to the giver's one live pledge, if there is
one by now. -/
def recordDirectContribution (personId : Option ℕ) (displayName : String) (amount : ℕ)
    (source : ProvenanceSource) (phone : Option String) (type : Option PledgeType)
    (description : Option String) (budgetItemId : Option ℕ) (draw : ExecDraw) :
    LedgerProgram ExecutionResult :=
  match personId with
  | some id => giveAs ctx id displayName amount source phone type description budgetItemId draw
  | none => do
      let resolvedPersonId ← resolveOrCreatePerson ctx names displayName source phone draw
      let pledge ← resolvePledgeForPerson ctx.event.eventId resolvedPersonId
      match pledge with
      | .resolved pledgeId => recordPayment ctx pledgeId displayName amount source draw
      | _ =>
        giveAs ctx resolvedPersonId displayName amount source phone type description budgetItemId
          draw

def getOutstandingForPledge (pledgeId : ℕ) (displayName : String) :
    LedgerProgram ExecutionResult := do
  let o ← getPledgeOutstanding ctx pledgeId
  return ⟨s!"{displayName} still owes {formatAmount o.outstanding}.", .outstanding o⟩

def summaryParts (r : EventReport) (printPercent : Float → String) : List String :=
  (match r.percentCovered, r.target with
    | some percent, some target =>
        [s!"Your event is {printPercent percent}% covered (target {formatAmount target})."]
    | _, _ => []) ++
  [s!"Received {formatAmount r.totalReceived}, outstanding pledges " ++
    s!"{formatAmount r.totalOutstanding}, committed {formatAmount r.totalCommitted}."] ++
  (if r.budgetTotal != "0" then [s!"Unfunded budget {formatAmount r.budgetUnfunded}."] else []) ++
  [s!"{r.contributorCount} contributors, {r.outstandingContributorCount} with outstanding " ++
    "balances."] ++
  match r.biggestGap with
  | some (_, name, _) => [s!"Your biggest funding gap is {name}."]
  | none => []

def getSummary (draw : ExecDraw) : LedgerProgram ExecutionResult := do
  let r ← getEventReport ctx
  return ⟨" ".intercalate (summaryParts r draw.printPercent), .report r⟩

def run (action : StoredAction) (source : ProvenanceSource) (draw : ExecDraw) :
    LedgerProgram ExecutionResult :=
  match action with
  | .addPerson displayName phone confirmSharedPhone =>
      addPerson ctx displayName source phone confirmSharedPhone draw
  | .recordPledge personId displayName amount type description phone budgetItemId => do
      let value ← bigInt amount
      recordPledge ctx names personId displayName value source type phone description budgetItemId
        draw
  | .recordPledgeWithPayment personId displayName amount receivedNow type description phone
      budgetItemId => do
      let committed ← bigInt amount
      let received ← bigInt receivedNow
      recordPledgeWithPayment ctx names personId displayName committed received source type phone
        description budgetItemId draw
  | .recordPayment pledgeId displayName amount => do
      let value ← bigInt amount
      recordPayment ctx pledgeId displayName value source draw
  | .recordDirectContribution personId displayName amount phone type description budgetItemId => do
      let value ← bigInt amount
      recordDirectContribution ctx names personId displayName value source phone type description
        budgetItemId draw
  | .createBudgetItem name targetValue sourceDocumentId => do
      let value ← bigInt targetValue
      createBudgetItem ctx name value source sourceDocumentId draw
  | .updateBudgetItem itemId name targetValue => do
      let value ← bigInt targetValue
      updateBudgetItem ctx itemId name value
  | .removeBudgetItem itemId _ => removeBudgetItem ctx itemId
  | .allocateToBudget fulfillmentId budgetItemId budgetItemName displayName value => do
      let amount ← bigInt value
      allocateToBudget ctx fulfillmentId budgetItemId budgetItemName displayName amount draw
  | .correctPledge pledgeId displayName newValue => do
      let value ← bigInt newValue
      correctPledge ctx pledgeId displayName value
  | .correctPayment fulfillmentId displayName newValue => do
      let value ← bigInt newValue
      correctPayment ctx fulfillmentId displayName value
  | .mergePeople sourceId targetId sourceName targetName =>
      mergePeople ctx sourceId targetId sourceName targetName
  | .sendSmsReminders body => sendReminders ctx body draw
  | .inviteMember role displayName phone => inviteMember ctx role displayName phone draw
  | .getOutstandingPledge pledgeId displayName => getOutstandingForPledge ctx pledgeId displayName
  | .getSummary => getSummary ctx draw

end executor
end Akabbo.ToolExecutor
