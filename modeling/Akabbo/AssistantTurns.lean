import Akabbo.AssistantMutations
import Akabbo.AsyncRoutines
import Akabbo.CallRuns
import Akabbo.PaidCampaigns

/-!
# Turns of the assistant

In a turn the language model calls tools, round after round; each call finds the event that is
active by then. Whatever it asks for, money, members and SMS credits are to wait for a human.
Two tools act at once all the same.
-/
namespace Akabbo.AssistantTurns
open Access RowTable StatementProgram ProgramParts LedgerState EventWrites ToolExecutor
open CaptureRouting CaptureStaging PublicNotices TeamCalls AssistantMutations
open SmsCampaigns (CampaignDraw SendResult allWithPhone previewRecipients)
open WeakestPreconditions TwoConnections PaidCampaigns CallRuns AsyncRoutines
open StatementProgram.Program (query)
open AsyncRoutines.Routine (asyncTry statements ends ends_asyncTry ends_map ends_mono)

inductive ReadTool
  | getEventOverview | findContributor | getCollectedInPeriod | getBudget | getBudgetItemFunders
  | getGroupContributions | queryEventReport | getPublicLink | getSmsStatus
  deriving DecidableEq, Repr

inductive Tool
  | read (tool : ReadTool)
  | addPerson | recordPledge | recordPayment
  | addBudgetItem | updateBudgetItem | removeBudgetItem | allocateToBudget
  | correctPledge | correctPayment | mergePeople
  | draftAnnouncement | publishAnnouncement | sendReminders | inviteMember | updateMemberRole
  | createGroup | assignToGroup | updateContact
  deriving DecidableEq, Repr

def tools : List (String × Tool) :=
  [("get_event_overview", .read .getEventOverview), ("find_contributor", .read .findContributor),
    ("get_collected_in_period", .read .getCollectedInPeriod), ("get_budget", .read .getBudget),
    ("get_budget_item_funders", .read .getBudgetItemFunders),
    ("get_group_contributions", .read .getGroupContributions),
    ("query_event_report", .read .queryEventReport), ("get_public_link", .read .getPublicLink),
    ("get_sms_status", .read .getSmsStatus), ("add_person", .addPerson),
    ("record_pledge", .recordPledge), ("record_payment", .recordPayment),
    ("add_budget_item", .addBudgetItem), ("update_budget_item", .updateBudgetItem),
    ("remove_budget_item", .removeBudgetItem), ("allocate_to_budget", .allocateToBudget),
    ("correct_pledge", .correctPledge), ("correct_payment", .correctPayment),
    ("merge_people", .mergePeople), ("draft_announcement", .draftAnnouncement),
    ("publish_announcement", .publishAnnouncement), ("send_reminders", .sendReminders),
    ("invite_member", .inviteMember), ("update_member_role", .updateMemberRole),
    ("create_group", .createGroup), ("assign_to_group", .assignToGroup),
    ("update_contact", .updateContact)]

/-- How requests are read, and what each reading tool answers from the rows as they are. -/
structure TurnRules extends AssistantRules where
  answer : ReadTool → OperationContext → List (String × ArgValue) → Rows → Except Refusal String
  errorText : Refusal → String

/-- What the world supplies to one tool call; `fault` is a statement that the database fails. -/
structure TurnDraw where
  event : EventDraw
  exec : ExecDraw
  campaign : CampaignDraw
  billing : BillingState.Draw
  fault : Option (ℕ × Refusal) := none

structure TurnCall where
  ctx : OperationContext
  name : String
  arguments : List (String × ArgValue)
  draw : TurnDraw

inductive ToolOutcome
  | answered (content : String)
  | captured (result : CaptureResult)
  | mutated (result : StageResult)
  | unknownTool (name : String)
  | failed (refusal : Refusal)

section dispatching
variable (rules : TurnRules) (call : TurnCall)

/-- `String(args.field ?? '')`. -/
def text (field : String) : String :=
  match call.arguments.lookup field with
  | none => ""
  | some .null => ""
  | some value => shownText rules.toCaptureRules value

def optionalText (field : String) : Option String :=
  (call.arguments.lookup field).map (shownText rules.toCaptureRules)

/-- `Boolean(args.field)`. -/
def flag (field : String) : Bool :=
  match call.arguments.lookup field with
  | none => false
  | some (.text value) => value != ""
  | some (.number value) => value != 0
  | some (.flag value) => value
  | some .null => false
  | some (.other _) => true

/-- A first payment is normalised as the amount is, unless it is `null`. -/
def normaliseReceived (arguments : List (String × ArgValue)) :
    Option (List (String × ArgValue)) :=
  match arguments.lookup "receivedNow" with
  | none => some arguments
  | some .null => some arguments
  | some value => do
      let minor ← rules.parseAmountToMinorUnits (shownText rules.toCaptureRules value)
      return ("receivedNow", .text (toString minor)) :: without "receivedNow" arguments

/-- A tool call of the capture, which is staged whatever its confidence. -/
def write (tool : String) : RowsProgram ToolOutcome :=
  match normaliseAmount rules.toCaptureRules call.arguments with
  | none => return .mutated (clarify "What amount, exactly?")
  | some arguments =>
    match normaliseReceived rules arguments with
    | none => return .mutated (clarify "How much have they received so far?")
    | some arguments =>
      match toolCallSchema tool arguments with
      | none => return .mutated (clarify "I need a bit more detail to do that.")
      | some request => do
          let result ← onLedger (routeToolCall call.ctx rules.names request defaultLlmConfidence
            call.draw.event.rowId call.draw.exec)
          return .captured result

/-- The announcement is published first; an SMS that fails does not undo it. -/
def publishAnnouncement (announcementId : String) (sendSms : Bool) : RowsProgram StageResult :=
  if rules.texts.trim announcementId = "" then
    return clarify "Which announcement should I publish?"
  else do
    let a ← onLedger (publishDrafted call.ctx rules.toAssistantRules
      (rules.texts.trim announcementId) call.draw.event)
    if sendSms then do
      let sent : Except Refusal SendResult ← attempt
        (sendAnnouncement call.ctx a.body [] call.draw.campaign call.draw.billing)
      match sent with
      | .ok smsResult =>
        return .done ("Published the announcement to the public event page and queued SMS " ++
          s!"broadcast to {smsResult.queued} contributor(s)" ++
          (if smsResult.skipped > 0 then
            s!" ({smsResult.skipped} skipped due to SMS credit limit)" else "") ++ ".")
      | .error e =>
        return .done ("Published the announcement to the public event page. (SMS broadcast " ++
          s!"could not be sent: {rules.errorText e})")
    else return .done "Published the announcement to the public event page."

def prepareReminders (body : String) : RowsProgram StageResult :=
  if rules.texts.trim body = "" then return clarify "What should the reminder say?"
  else do
    let recipients ← onLedger (previewRecipients call.draw.campaign.collation call.ctx [])
    let balance ← query fun s => smsBalance s call.ctx.event.eventId
    onLedger (stageReminders call.ctx rules.toAssistantRules body recipients.length balance
      call.draw.event)

/-- What is at once one transaction on the ledger. -/
def mutation : Tool → LedgerProgram StageResult
  | .addBudgetItem => addBudgetItem call.ctx rules.toAssistantRules (text rules call "name")
      (text rules call "amount") call.draw.event
  | .updateBudgetItem => updateBudgetItem call.ctx rules.toAssistantRules (text rules call "name")
      (text rules call "amount") call.draw.event
  | .removeBudgetItem => removeBudgetItem call.ctx rules.toAssistantRules (text rules call "name")
      call.draw.event
  | .allocateToBudget => allocateToBudget call.ctx rules.toAssistantRules
      (text rules call "personName") (text rules call "budgetItemName") (text rules call "amount")
      call.draw.event
  | .correctPledge => correctPledge call.ctx rules.toAssistantRules (text rules call "personName")
      (text rules call "amount") call.draw.event
  | .correctPayment => correctPayment call.ctx rules.toAssistantRules
      (text rules call "personName") (text rules call "amount") call.draw.event
  | .mergePeople => mergePeople call.ctx rules.toAssistantRules (text rules call "sourceName")
      (text rules call "targetName") call.draw.event
  | .draftAnnouncement => draftAnnouncement call.ctx rules.toAssistantRules
      (text rules call "body") call.draw.event
  | .inviteMember => inviteMember call.ctx rules.toAssistantRules (optionalText rules call "name")
      (optionalText rules call "role") (optionalText rules call "phone") call.draw.event
  | .createGroup => createGroup call.ctx rules.toAssistantRules (text rules call "name")
      (optionalText rules call "kind") call.draw.event
  | .assignToGroup => assignToGroup call.ctx rules.toAssistantRules (text rules call "personName")
      (text rules call "groupName")
  | .updateContact => updateContact call.ctx rules.toAssistantRules (text rules call "personName")
      (text rules call "phone") (flag call "confirmSharedPhone")
  | _ => updateMemberRole call.ctx rules.texts (text rules call "nameOrPhone")
      (text rules call "role")

def toolProgram : Tool → RowsProgram ToolOutcome
  | .read tool => do
      let answer ← query fun s => rules.answer tool call.ctx call.arguments s
      match answer with
      | .ok content => return .answered content
      | .error e => .throw e
  | .addPerson => write rules call "add_person"
  | .recordPledge => write rules call "record_pledge"
  | .recordPayment => write rules call "record_payment"
  | .publishAnnouncement => .mutated <$>
      publishAnnouncement rules call (text rules call "announcementId") (flag call "sendSms")
  | .sendReminders => .mutated <$> prepareReminders rules call (text rules call "body")
  | tool => .mutated <$> onLedger (mutation rules call tool)

def runTool (tool : Tool) : Routine Rows Refusal ToolOutcome :=
  statements (underFault call.draw.fault (toolProgram rules call tool))

/-- The capture's tools are returned as promises; every other one is awaited. -/
def Tool.returned : Tool → Bool
  | .addPerson | .recordPledge | .recordPayment => true
  | _ => false

def branch : Routine Rows Refusal (Returned Rows Refusal ToolOutcome) :=
  match tools.lookup call.name with
  | none => return .value (.unknownTool call.name)
  | some tool =>
    if tool.returned then return .promise (runTool rules call tool)
    else .value <$> runTool rules call tool

/-- What fails inside the `try` comes back as data, for the model to explain. -/
def dispatch : Routine Rows Refusal ToolOutcome := asyncTry (branch rules call) .failed

def step (s : Rows) : Rows := (dispatch rules call s).2

variable {rules call}

/-- An error is the caller's, or one more outcome. -/
theorem ends_dispatch {Q : ToolOutcome → Rows → Prop} {E : Refusal → Rows → Prop} {s : Rows}
    (hunknown : Q (.unknownTool call.name) s) (hfailed : ∀ e t, E e t → Q (.failed e) t)
    (htool : ∀ tool, tools.lookup call.name = some tool → ends (runTool rules call tool) Q E s) :
    ends (dispatch rules call) Q E s := by
  refine ends_asyncTry ?_
  unfold branch
  cases hname : tools.lookup call.name with
  | none => exact hunknown
  | some tool =>
    have hends := htool tool hname
    dsimp only
    split_ifs
    · exact hends
    · exact ends_map (ends_mono hends (fun _ _ h => h) hfailed)

end dispatching

/-- How often the model is asked in a turn. -/
def maxSteps : ℕ := 6

/-- The calls of the rounds, up to the first round without any. -/
def calledIn {α : Type} (rounds : List (List α)) : List α :=
  ((rounds.takeWhile fun round => !round.isEmpty).take maxSteps).flatten

end Akabbo.AssistantTurns
