import Akabbo.CaptureStaging
import Akabbo.ClosedEvents
import Akabbo.CaughtErrors

/-!
# Reading an uploaded document

A delivery of `document.uploaded` marks the document and reads it with the language model. The lines
of a budget are staged in one transaction, the rows of a list of contributors one by one through the
capture. What fails on the way marks the document as failed.
-/
namespace Akabbo.Extraction
open Access RowTable StatementProgram LedgerState EventWrites ToolExecutor CaptureRouting
open CaptureStaging ClosedEvents CaughtErrors
open StatementProgram.Program (query refuse orThrow modifyChecked accept commitNow)

inductive ItemStatus
  | covered | pending | partly | unknown
  deriving DecidableEq, Repr

def ItemStatus.name : ItemStatus → String
  | .covered => "covered"
  | .pending => "pending"
  | .partly => "partial"
  | .unknown => "unknown"

/-- A line of a budget, as the schema lets it through. -/
structure ExtractedItem where
  name : String
  amount : String
  quantity : Option String := none
  categoryContext : Option String := none
  fulfillmentStatus : ItemStatus := .unknown
  deriving DecidableEq, Repr

inductive EntryStatus
  | paid | pledged | unknown
  deriving DecidableEq, Repr

/-- A row of a list of contributors, as the schema lets it through. -/
structure ExtractedContributionEntry where
  name : String
  type : PledgeType := .cash
  amount : Option String := none
  description : Option String := none
  quantity : Option String := none
  unit : Option String := none
  status : EntryStatus := .unknown
  deriving DecidableEq, Repr

/-- The answer to the extraction tool; one that does not pass its schema has no lines. -/
structure Answer where
  items : List ExtractedItem := []
  confidence : Option ℚ := none
  entries : List ExtractedContributionEntry := []
  deriving DecidableEq, Repr

/-- Where a delivery waits for the database or for a service, which may throw there. -/
inductive Await
  | context | file | bytes | meter | extraction | staged | settle | settled
  | entry (i : ℕ)
  | recorded (i : ℕ)
  deriving DecidableEq, Repr

/-- What the world supplies to one delivery: what is thrown at each wait, the answers of the model
to the document and to each row, and the ids of the rows it stages. -/
structure Delivery where
  fault : Await → Option Refusal
  answer : Except Refusal Answer
  capture : ℕ → Except Refusal (List RawToolCall)
  rowId : ℕ → ℕ
  draw : ExecDraw

/-- How texts are read, and the texts of what is thrown. -/
structure ExtractionRules where
  names : NameRules
  capture : CaptureRules
  errorText : Refusal → String

structure ExtractionResult where
  documentId : ℕ
  status : DocumentStatus
  proposedItems : ℕ
  deriving DecidableEq, Repr

def findDocument (db : LedgerDb) (eventId documentId : ℕ) : Option Document :=
  db.documents.find? fun d => d.eventId == eventId && d.id == documentId

/-- `tx.document.update`, of the status and the error. -/
def setDocument (db : LedgerDb) (eventId documentId : ℕ) (status : DocumentStatus)
    (error : Option String → Option String) : LedgerDb :=
  { db with
    documents := db.documents.update (fun d => d.eventId == eventId && d.id == documentId)
      (fun d => { d with status := status, error := error d.error }) fun _ => rfl }

def updateDocument (eventId documentId : ℕ) (status : DocumentStatus)
    (error : Option String → Option String) : LedgerProgram Unit :=
  modifyChecked (fun _ => [.document documentId])
    (fun db => match findDocument db eventId documentId with
      | some _ => .ok ()
      | none => .error (.recordNotFound "document"))
    fun db => setDocument db eventId documentId status error

/-- Load and mark PROCESSING; nothing to do when it is already handled. -/
def loadUploaded (eventId documentId : ℕ) : LedgerProgram (Option Document) := do
  let found ← query fun db => findDocument db eventId documentId
  match found with
  | none => return none
  | some doc =>
    if doc.status ≠ .uploaded then return none
    else do
      updateDocument eventId documentId .processing id
      return some doc

/-- `message.slice(0, n)`, in UTF-16 units. -/
def sliceUnits : ℕ → List Char → List Char
  | _, [] => []
  | n, c :: rest =>
    let units := if c.toNat < 65536 then 1 else 2
    if units ≤ n then c :: sliceUnits (n - units) rest else []

section extracting
variable (rules : ExtractionRules) (eventId documentId : ℕ) (d : Delivery)

def fail (error : Refusal) : LedgerProgram ExtractionResult := do
  updateDocument eventId documentId .failed fun _ =>
    some (String.ofList (sliceUnits 500 (rules.errorText error).toList))
  return ⟨documentId, .failed, 0⟩

/-- `FileService.readBytes`; the bytes themselves come from storage. -/
def readBytes (fileId : ℕ) : LedgerProgram Unit := do
  refuse (d.fault .file)
  let found ← query fun db => db.files.find? fun f => f.eventId == eventId && f.id == fileId
  let _ ← orThrow found (.notFound "File not found")
  commitNow
  refuse (d.fault .bytes)

/-- The model's answer, once its tokens are metered. -/
def complete : LedgerProgram Answer :=
  match d.answer with
  | .error e => .throw e
  | .ok answer => do
      refuse (d.fault .meter)
      return answer

structure NormalizedItem where
  name : String
  amount : ℕ
  quantity : Option String
  categoryContext : Option String
  fulfillmentStatus : ItemStatus
  deriving DecidableEq, Repr

/-- Anything that isn't a real figure is dropped. -/
def normalized (items : List ExtractedItem) : List NormalizedItem :=
  items.filterMap fun item => do
    let amount ← rules.capture.parseAmountToMinorUnits item.amount
    return ⟨item.name, amount, item.quantity, item.categoryContext, item.fulfillmentStatus⟩

/-- A text that is there and not empty. -/
def truthy (text : Option String) : Option String := text.filter fun t => t ≠ ""

def itemDetails (item : NormalizedItem) : String :=
  ", ".intercalate <| List.reduceOption
    [(truthy item.quantity).map fun quantity => s!"Qty: {quantity}",
      (truthy item.categoryContext).map fun category => s!"Category: {category}",
      if item.fulfillmentStatus = .unknown then none
      else some s!"Status: {item.fulfillmentStatus.name}"]

def itemPrompt (item : NormalizedItem) : String :=
  let details := itemDetails item
  if details = "" then s!"I read a budget line “{item.name}” of UGX {item.amount} — add it?"
  else s!"I read a budget line “{item.name}” ({details}) of UGX {item.amount} — add it?"

def proposedItem (uploader : Option ℕ) (confidence : Option ℚ) (id : ℕ) (item : NormalizedItem) :
    PendingConfirmation :=
  { id
    eventId
    payload := .createBudgetItem item.name (toString item.amount) (some documentId)
    confidence
    source := .aiFromDocument
    status := .pending
    prompt := itemPrompt item
    createdById := uploader
    resolvedById := none
    resolvedAt := none }

def stageItems (uploader : Option ℕ) (confidence : Option ℚ) :
    ℕ → List NormalizedItem → LedgerProgram Unit
  | _, [] => pure ()
  | i, item :: rest => do
      let row := proposedItem eventId documentId uploader confidence (d.rowId i) item
      change [.pendingConfirmation row.id]
        (fun db => if db.pendingConfirmations.has row.id then
          some (.uniqueViolation "pending_confirmation") else none)
        fun db => { db with pendingConfirmations := db.pendingConfirmations.insertNew row }
      stageItems uploader confidence (i + 1) rest

/-- The extraction and its proposals; what the budget knowledge base learns of it is best effort. -/
def extractBudget (doc : Document) : LedgerProgram ExtractionResult := do
  readBytes eventId d doc.fileId
  let answer ← complete d
  let items := normalized rules answer.items
  stageItems eventId documentId d doc.uploadedById answer.confidence 0 items
  updateDocument eventId documentId .requiresReview id
  refuse (d.fault .extraction)
  commitNow
  refuse (d.fault .staged)
  return ⟨documentId, .requiresReview, items.length⟩

def processBudget (doc : Document) : LedgerProgram ExtractionResult :=
  orElse (extractBudget rules eventId documentId d doc) (fail rules eventId documentId)

/-- A row as the sentence a human would type; none for a row too thin to act on. -/
def buildUtterance (entry : ExtractedContributionEntry) : Option String :=
  let verb := match entry.status with
    | .paid => "paid"
    | .pledged => "pledged"
    | .unknown => "gave"
  let cashVerb := if verb = "gave" then "paid" else verb
  let ofAmount := (truthy entry.amount).map fun amount => s!"{entry.name} {cashVerb} {amount}"
  match entry.type with
  | .cash => ofAmount
  | _ =>
    match truthy entry.description with
    | none => ofAmount
    | some description =>
      let what := match truthy entry.quantity with
        | none => description
        | some quantity =>
          let unit := ((truthy entry.unit).map fun unit => s!" {unit}").getD ""
          s!"{quantity}{unit} of {description}"
      some s!"{entry.name} {verb} {what}"

structure Tally where
  staged : ℕ := 0
  duplicates : ℕ := 0
  clarifications : ℕ := 0
  unreadable : ℕ := 0
  otherSkipped : ℕ := 0
  deriving DecidableEq, Repr

def alreadyRecorded (message : String) : Bool :=
  decide ("already recorded".toList <:+: (rules.names.lower message).toList)

def Tally.skipped (tally : Tally) (message : String) : Tally :=
  if alreadyRecorded rules message then { tally with duplicates := tally.duplicates + 1 }
  else { tally with otherSkipped := tally.otherSkipped + 1 }

def Tally.count (tally : Tally) : Except Refusal CaptureResult → Tally
  | .ok (.pending ..) => { tally with staged := tally.staged + 1 }
  | .ok (.clarification ..) => { tally with clarifications := tally.clarifications + 1 }
  | .ok (.executed result _) => tally.skipped rules result.message
  | .ok (.answer result _) => tally.skipped rules result.message
  | .error e => tally.skipped rules (rules.errorText e)

/-- A row goes the way of a sentence typed in chat, but always waits for a human. -/
def captureEntry (ctx : OperationContext) (i : ℕ) (utterance : String) :
    LedgerProgram CaptureResult := do
  let captured ← capture ctx rules.names rules.capture utterance (d.capture i) true (d.rowId i) d.draw
  refuse (d.fault (.entry i))
  commitNow
  refuse (d.fault (.recorded i))
  return captured

def stageEntries (ctx : OperationContext) :
    ℕ → List ExtractedContributionEntry → Tally → LedgerProgram Tally
  | _, [], tally => pure tally
  | i, entry :: rest, tally =>
    match buildUtterance entry with
    | none => stageEntries ctx (i + 1) rest { tally with unreadable := tally.unreadable + 1 }
    | some utterance => do
        let captured ← caught (captureEntry rules d ctx i utterance)
        stageEntries ctx (i + 1) rest (tally.count rules captured)

def plural (n : ℕ) : String := if n > 1 then "s" else ""

/-- The status and the error, by why nothing was staged. -/
def settlement (tally : Tally) (entries : ℕ) : DocumentStatus × Option String :=
  if tally.staged > 0 then (.requiresReview, none)
  else if tally.clarifications > 0 then
    (.requiresReview, some
      (s!"{tally.clarifications} contribution{plural tally.clarifications} need clarification" ++
        (if tally.duplicates > 0 then s!"; {tally.duplicates} already recorded" else "") ++
        ". Open the chat to answer the pending questions."))
  else if tally.duplicates > 0 ∧ tally.unreadable = 0 ∧ tally.otherSkipped = 0 then
    (.failed, some
      (s!"All {tally.duplicates} contribution{plural tally.duplicates} in this document were " ++
        "already recorded. Upload a different photo or check your contributions list."))
  else if tally.unreadable = entries then
    (.failed, some ("No contributions could be read from this document. " ++
      "Try a clearer photo with better lighting."))
  else
    let part (n : ℕ) (what : String) : Option String := if n > 0 then some s!"{n} {what}" else none
    let parts := ", ".intercalate <| List.reduceOption
      [part tally.duplicates "already recorded", part tally.clarifications "need clarification",
        part tally.unreadable "unreadable", part tally.otherSkipped "could not be processed"]
    (.failed, some s!"No contributions were staged: {parts}.")

def extractContributions (doc : Document) : LedgerProgram ExtractionResult := do
  let uploader ← orThrow doc.uploadedById
    (.internal "Document has no uploader — cannot resolve who is staging these entries")
  refuse (d.fault .context)
  let event ← requireContext ⟨uploader, true⟩ eventId
  readBytes eventId d doc.fileId
  let answer ← complete d
  refuse (d.fault .extraction)
  commitNow
  let tally ← stageEntries rules d ⟨⟨uploader, true⟩, event⟩ 0 answer.entries {}
  let settled := settlement tally answer.entries.length
  updateDocument eventId documentId settled.1 fun _ => settled.2
  refuse (d.fault .settle)
  commitNow
  refuse (d.fault .settled)
  return ⟨documentId, settled.1, tally.staged⟩

def processContributionList (doc : Document) : LedgerProgram ExtractionResult :=
  orElse (extractContributions rules eventId documentId d doc) (fail rules eventId documentId)

/-- `ExtractionService.process`. -/
def process : LedgerProgram ExtractionResult := do
  let loaded ← loadUploaded eventId documentId
  commitNow
  match loaded with
  | none => return ⟨documentId, .processed, 0⟩
  | some doc =>
    if doc.kind = .contributionList then processContributionList rules eventId documentId d doc
    else processBudget rules eventId documentId d doc

end extracting
end Akabbo.Extraction
