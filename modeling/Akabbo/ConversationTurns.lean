import Akabbo.CreditScopes
import Akabbo.Reports

/-!
# A turn of a conversation

A credit is reserved, the model is asked and the tools it calls are run, round after round, until it
answers or the steps run out. The credit is spent when it answers and given back however else the
turn ends.
-/
namespace Akabbo.ConversationTurns
open Access StatementProgram ProgramParts LedgerState CaptureRouting CaptureStaging
open AssistantTurns hiding step
open AgentSessions CreditScopes TwoConnections PaidCampaigns AsyncRoutines
open BillingState (Scope)
open BillingWrites (commitAiCredit refundAiCredit)
open Reports (ReportRef)
open AsyncRoutines.Routine (caught fromExcept get modify on refuse statements throw)

/-- A tool call of the model, with what the world supplies to it. -/
structure LlmToolCall where
  id : String
  name : String
  arguments : List (String × ArgValue)
  draw : SessionDraw

structure LlmToolResult where
  id : String
  name : String
  content : String
  deriving DecidableEq, Repr

inductive LlmMessage
  | system (content : String)
  | user (content : String)
  | assistant (content : String) (toolCalls : List LlmToolCall)
  | tool (toolResults : List LlmToolResult)

structure LlmResult where
  text : Option String
  toolCalls : List LlmToolCall

inductive TurnError
  | rateLimited (status : ℕ)
  | refused (refusal : Refusal)
  deriving DecidableEq, Repr

structure ChatResult where
  reply : String
  staged : List ℕ
  reportRefs : List ReportRef
  steps : ℕ
  deriving DecidableEq, Repr

/-- An event's own assistant, or a conversation over the events of a user. -/
inductive Surface
  | event (ctx : OperationContext)
  | conversation (actor : Actor)

/-- How outcomes are shown to the model, and what is read back from the text of a report. -/
structure ChatRules extends SessionRules where
  shown : SessionOutcome → String
  isComplete : String → Bool
  reportRef : SessionOutcome → Option ReportRef

/-- The calls of the ledger that a turn makes; `refundAfter` is the one after an error. -/
inductive CreditCall
  | start | commit | refund | refundAfter
  deriving DecidableEq, Repr

/-- The model answers to the messages of a step; `recordLlmCall` is how metering the step fails. -/
structure TurnInput where
  surface : Surface
  message : String
  history : List LlmMessage
  systemPrompt : String
  complete : ℕ → List LlmMessage → Except TurnError LlmResult
  recordLlmCall : ℕ → Option Refusal
  reserveKey : String
  draw : BillingState.Draw
  fails : CreditCall → Option (ℕ × Refusal)

/-- The session, the messages so far, and how the model has been answering. -/
structure TurnState where
  session : SessionState
  messages : List LlmMessage
  asked : List (Except TurnError LlmResult)

abbrev TurnRoutine := Routine TurnState TurnError

def sessionPart : Part TurnState SessionState where
  get := TurnState.session
  put session t := { t with session := session }
  get_put _ _ := rfl
  put_get _ := rfl
  put_put _ _ _ := rfl

/-- What has come of the tool calls of the turn. -/
structure Progress where
  staged : List ℕ := []
  reportRefs : List ReportRef := []
  reportAlreadyComplete : Bool := false

def toolPendingId : ToolOutcome → Option ℕ
  | .captured (.pending _ id _) => some id
  | .mutated (.staged id _) => some id
  | _ => none

def pendingId : SessionOutcome → Option ℕ
  | .tool outcome => toolPendingId outcome
  | _ => none

def reportTools : List String := ["query_event_report", "get_event_overview"]

def redirected : String :=
  "\x7b\"redirected\":true,\"instruction\":\"You already have the complete contributor/pledge data from " ++
    "an earlier call this turn — calling this again will not return anything new. Stop calling " ++
    "tools and write your final reply now, listing every row from that earlier result.\"\x7d"

def Progress.after (rules : ChatRules) (p : Progress) (name : String) (outcome : SessionOutcome) :
    Progress where
  staged := p.staged ++ (pendingId outcome).toList
  reportRefs := p.reportRefs ++ (rules.reportRef outcome).toList
  reportAlreadyComplete := p.reportAlreadyComplete ||
    (name == "query_event_report" && rules.isComplete (rules.shown outcome))

namespace Surface

def userId : Surface → ℕ
  | .event ctx => ctx.actor.userId
  | .conversation actor => actor.userId

/-- The event that a model call is metered on. -/
def eventId : Surface → SessionState → Option ℕ
  | .event ctx, _ => some ctx.event.eventId
  | .conversation _, s => s.activeEventId

def listMyEvents (rules : SessionRules) : Surface → Option (RowsProgram (List MyEvent))
  | .event _ => none
  | .conversation actor => some (findMyEvents rules.joinedAt actor.userId)

def dispatch (rules : SessionRules) (call : LlmToolCall) : Surface → SessionRoutine SessionOutcome
  | .event ctx => .tool <$> onRows (AssistantTurns.dispatch rules.toTurnRules
      ⟨ctx, call.name, call.arguments, call.draw.toTurnDraw⟩)
  | .conversation actor => dispatchSession rules actor ⟨call.name, call.arguments, call.draw⟩

end Surface

section turn
variable (rules : ChatRules) (input : TurnInput)

def onSession {α : Type} (p : SessionRoutine α) : TurnRoutine α := on sessionPart .refused p

def creditCall {ρ : Type} (which : CreditCall) (p : RowsProgram ρ) : TurnRoutine ρ :=
  onSession <| onRows <| statements (underFault (input.fails which) p)

/-- Once a report is complete, asking for it again is answered at once. -/
def runTool (call : LlmToolCall) (p : Progress) : TurnRoutine (LlmToolResult × Progress) :=
  if p.reportAlreadyComplete && reportTools.contains call.name then
    return (⟨call.id, call.name, redirected⟩, p)
  else do
    let outcome ← onSession (input.surface.dispatch rules.toSessionRules call)
    return (⟨call.id, call.name, rules.shown outcome⟩, p.after rules call.name outcome)

def runTools : List LlmToolCall → Progress → TurnRoutine (List LlmToolResult × Progress)
  | [], p => return ([], p)
  | call :: rest, p => do
    let (result, p) ← runTool rules input call p
    let (results, p) ← runTools rest p
    return (result :: results, p)

def push (messages : List LlmMessage) : TurnRoutine Unit :=
  modify fun t => { t with messages := t.messages ++ messages }

/-- One call of the model. -/
def ask (step : ℕ) : TurnRoutine LlmResult := do
  let t ← get
  modify fun t => { t with asked := t.asked ++ [input.complete step t.messages] }
  fromExcept (input.complete step t.messages)

/-- The call is metered on the event that is active, if there is one. -/
def meter (step : ℕ) : TurnRoutine Unit := do
  let t ← get
  refuse <| if (input.surface.eventId t.session).isSome then
    (input.recordLlmCall step).map .refused else none

/-- One step of the loop: the final answer, or how far the tools have come. -/
def round (scope : Scope) (step : ℕ) (p : Progress) : TurnRoutine (ChatResult ⊕ Progress) := do
  let result ← ask input step
  meter input step
  if result.toolCalls.isEmpty then do
    creditCall input .commit (onOwn .billing (commitAiCredit scope input.reserveKey))
    return .inl ⟨result.text.getD "", p.staged, p.reportRefs, step⟩
  else do
    push [.assistant (result.text.getD "") result.toolCalls]
    let (results, p) ← runTools rules input result.toolCalls p
    push [.tool results]
    return .inr p

def giveUp (p : Progress) : ChatResult :=
  ⟨"I wasn't able to finish that — could you rephrase or narrow it down?", p.staged, p.reportRefs,
    maxSteps⟩

/-- The steps that are left, from this one on. -/
def steps (scope : Scope) : ℕ → ℕ → Progress → TurnRoutine ChatResult
  | 0, _, p => do
    creditCall input .refund (onOwn .billing (refundAiCredit scope input.reserveKey))
    return giveUp p
  | left + 1, step, p => do
    match ← round rules input scope step p with
    | .inl result => return result
    | .inr p => steps scope left (step + 1) p

def initialMessages : List LlmMessage :=
  .system input.systemPrompt :: input.history ++ [.user input.message]

def runReservedLoop (scope : Scope) : TurnRoutine ChatResult := do
  modify fun t => { t with messages := initialMessages input }
  steps rules input scope maxSteps 1 {}

def busyReply : ChatResult :=
  ⟨"The AI assistant is currently receiving very high demand. Your request was not charged — " ++
    "please try again in a moment.", [], [], 0⟩

def start : TurnRoutine Scope := do
  let t ← get
  creditCall input .start (beginTurn (input.surface.eventId t.session) (some input.surface.userId)
    (input.surface.listMyEvents rules.toSessionRules) input.reserveKey input.draw)

/-- The reservation is given back whatever went wrong; only a busy model is answered for. -/
def afterError (scope : Scope) (e : TurnError) : TurnRoutine ChatResult := do
  let _ : Except TurnError Unit ← caught
    (creditCall input .refundAfter (onOwn .billing (refundAiCredit scope input.reserveKey)))
  match e with
  | .rateLimited _ => return busyReply
  | .refused _ => throw e

def runLoop : TurnRoutine ChatResult := do
  let scope ← start rules input
  let result : Except TurnError ChatResult ← caught (runReservedLoop rules input scope)
  match result with
  | .ok result => return result
  | .error e => afterError input scope e

/-- `chat` or `chatSession`, by the surface. -/
def chat (s : SessionState) : Except TurnError ChatResult × TurnState :=
  runLoop rules input ⟨s, [], []⟩

end turn
end Akabbo.ConversationTurns
