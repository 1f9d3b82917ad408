import Akabbo.Binary64
import Akabbo.CaptureStaging
import Akabbo.PaidCampaigns

/-!
# Captures that are metered

What it costs to have an utterance read by the language model is written down for the event in a
transaction of its own, before it is known what the utterance comes to and who may do that.
-/
namespace Akabbo.MeteredCaptures
open Access RowTable StatementProgram ProgramParts LedgerState ToolExecutor CaptureRouting
open CaptureStaging TwoConnections PaidCampaigns Binary64
open StatementProgram.Program (modifyChecked accept commitNow)

structure LlmUsage where
  inputTokens : ℕ
  outputTokens : ℕ
  model : String
  deriving DecidableEq, Repr

/-- Dollars for a million tokens, in and out. -/
structure Price where
  tokensIn : ℚ
  tokensOut : ℚ
  deriving DecidableEq, Repr

def prices : List (String × Price) :=
  [("gemini-2.5-flash", ⟨3 / 10, 5 / 2⟩), ("gemini-2.5-flash-lite", ⟨1 / 10, 2 / 5⟩),
    ("claude-haiku", ⟨1, 5⟩)]

/-- The first model whose name the given one begins with; one that is not known costs what the first
of all does. -/
def priceFor (model : String) : Price :=
  match prices.find? fun p => p.1.toList.isPrefixOf model.toList with
  | some (_, price) => price
  | none => ⟨3 / 10, 5 / 2⟩

def mathRound (q : ℚ) : ℤ := ⌊q + 1 / 2⌋

/-- Millionths of a dollar, by way of binary fractions of a dollar. -/
def costMicroUsd (usage : LlmUsage) : ℤ :=
  let p := priceFor usage.model
  let usd := rounded (rounded (rounded (usage.inputTokens * rounded p.tokensIn) +
    rounded (usage.outputTokens * rounded p.tokensOut)) / 1000000)
  mathRound (rounded (usd * 1000000))

inductive UsageKind
  | llmCall | sms | doc | storage
  deriving DecidableEq, Repr

structure UsageEvent where
  id : ℕ
  eventId : ℕ
  kind : UsageKind
  quantity : ℕ
  tokensIn : Option ℕ
  tokensOut : Option ℕ
  model : Option String
  costMicroUsd : ℤ
  tier : Option CaptureTier
  deriving DecidableEq, Repr

/-- The rows of the ledger and of billing, and what is metered. -/
structure MeteredRows where
  rows : Rows
  usageEvents : Table ℕ UsageEvent UsageEvent.id

inductive MeteredLock
  | rows (lock : RowsLock)
  | usageEvent (id : ℕ)

abbrev MeteredProgram := Program MeteredLock MeteredRows Refusal

def rowsPart : Part MeteredRows Rows where
  get := MeteredRows.rows
  put rows s := { s with rows }
  get_put _ _ := rfl
  put_get _ := rfl
  put_put _ _ _ := rfl

/-- The stored rows of the ledger. -/
def ledgerPart : Part MeteredRows LedgerDb where
  get s := s.rows.stored
  put db s := { s with rows := { s.rows with stored := db } }
  get_put _ _ := rfl
  put_get _ := rfl
  put_put _ _ _ := rfl

def onRows {ρ : Type} (p : RowsProgram ρ) : MeteredProgram ρ := rowsPart.run .rows p

def onStored {ρ : Type} (p : LedgerProgram ρ) : MeteredProgram ρ :=
  ledgerPart.run (.rows ∘ .ledger) p

def llmCall (eventId : ℕ) (usage : LlmUsage) (cost : ℤ) (tier : CaptureTier) (id : ℕ) : UsageEvent where
  id
  eventId
  kind := .llmCall
  quantity := 1
  tokensIn := some usage.inputTokens
  tokensOut := some usage.outputTokens
  model := some usage.model
  costMicroUsd := cost
  tier := some tier

def insertUsage (row : UsageEvent) (s : MeteredRows) : MeteredRows :=
  { s with usageEvents := s.usageEvents.insertNew row }

/-- The two counts are columns of 32 bits, and the event must be there. -/
def usageViolation (row : UsageEvent) (s : MeteredRows) : Option Refusal :=
  if s.usageEvents.has row.id then some (.uniqueViolation "usage_event")
  else if !s.rows.stored.events.has row.eventId then some (.foreignKeyViolation "usage_event")
  else if row.tokensIn.any (2 ^ 31 ≤ ·) || row.tokensOut.any (2 ^ 31 ≤ ·) then
    some (.internal "integer out of range")
  else none

theorem fresh_of_usageViolation {row : UsageEvent} {s : MeteredRows} (h : usageViolation row s = none) :
    s.usageEvents.has row.id = false := by
  unfold usageViolation at h
  split_ifs at h with hhas
  exact Bool.eq_false_iff.mpr hhas

/-- `UsageMeter.recordLlmCall`. -/
def recordLlmCall (eventId : ℕ) (usage : LlmUsage) (cost : ℤ) (tier : CaptureTier) (id : ℕ) :
    MeteredProgram Unit := do
  let row := llmCall eventId usage cost tier id
  modifyChecked (fun _ => [.usageEvent id]) (fun s => accept (usageViolation row s)) (insertUsage row)
  commitNow

structure LlmCompletionResult where
  toolCalls : List RawToolCall
  usage : LlmUsage
  deriving DecidableEq, Repr

section capturing
variable (ctx : OperationContext) (names : NameRules) (rules : CaptureRules)

/-- `CaptureService.capture`: what the parser leaves alone is metered as soon as the model has
answered. -/
def capture (utterance : String) (llm : Except Refusal LlmCompletionResult) (forceStage : Bool)
    (rowId meterId : ℕ) (draw : ExecDraw) : MeteredProgram CaptureResult := do
  match rules.parseTier1 utterance, llm with
  | none, .ok result =>
      recordLlmCall ctx.event.eventId result.usage (costMicroUsd result.usage) .llm meterId
  | _, _ => pure ()
  onStored (CaptureStaging.capture ctx names rules utterance
    (llm.map LlmCompletionResult.toolCalls) forceStage rowId draw)

end capturing
end Akabbo.MeteredCaptures
