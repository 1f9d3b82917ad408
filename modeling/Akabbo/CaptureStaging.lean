import Akabbo.CaptureSteps

/-!
# Capturing an utterance

The deterministic parser goes first; what it leaves alone is put to the language model, whose
answer counts only as far as it is a well-formed tool call. What is captured for a human to
review is written to one waiting row and nowhere else.
-/
namespace Akabbo.CaptureStaging
open Access RowTable StatementProgram LedgerState WeakestPreconditions
open ToolExecutor Confirmations CaptureRouting CaptureSteps

/-- An argument as the model wrote it; lists and objects only by their text. -/
inductive ArgValue
  | text (value : String)
  | number (value : ℚ)
  | flag (value : Bool)
  | null
  | other (shown : String)
  deriving DecidableEq, Repr

structure RawToolCall where
  name : String
  arguments : List (String × ArgValue)
  deriving DecidableEq, Repr

/-- The parsers of the capture and the texts of numbers. -/
structure CaptureRules where
  parseTier1 : String → Option ToolCall
  parseAmountToMinorUnits : String → Option ℕ
  numberText : ℚ → String

def defaultLlmConfidence : ℚ := 17 / 20

/-- `String(value)`. -/
def shownText (rules : CaptureRules) : ArgValue → String
  | .text value => value
  | .number value => rules.numberText value
  | .flag value => if value then "true" else "false"
  | .null => "null"
  | .other shown => shown

def without (field : String) (arguments : List (String × ArgValue)) : List (String × ArgValue) :=
  arguments.filter fun a => a.1 != field

/-- A confidence among the arguments, brought into the unit interval and taken out. -/
def takeConfidence (arguments : List (String × ArgValue)) : ℚ × List (String × ArgValue) :=
  match arguments.lookup "confidence" with
  | some (.number value) => (max 0 (min 1 value), without "confidence" arguments)
  | _ => (defaultLlmConfidence, arguments)

/-- "200k" becomes "200000"; an amount that is none makes the call worthless. -/
def normaliseAmount (rules : CaptureRules) (arguments : List (String × ArgValue)) :
    Option (List (String × ArgValue)) :=
  match arguments.lookup "amount" with
  | none => some arguments
  | some value => do
      let minor ← rules.parseAmountToMinorUnits (shownText rules value)
      return ("amount", .text (toString minor)) :: without "amount" arguments

/-- The length as the schema counts it, in UTF-16 units. -/
def textLength (text : String) : ℕ :=
  (text.toList.map fun c => if c.toNat < 65536 then 1 else 2).sum

def fits (low : ℕ) (high : Option ℕ) (text : String) : Bool :=
  decide (low ≤ textLength text) && high.all fun bound => decide (textLength text ≤ bound)

def requiredText (accepts : String → Bool) (field : String)
    (arguments : List (String × ArgValue)) : Option String :=
  match arguments.lookup field with
  | some (.text value) => if accepts value then some value else none
  | _ => none

/-- The outer option says whether the field passes, the inner one whether it is there. -/
def optionalText (accepts : String → Bool) (field : String)
    (arguments : List (String × ArgValue)) : Option (Option String) :=
  match arguments.lookup field with
  | none => some none
  | some (.text value) => if accepts value then some (some value) else none
  | _ => none

def optionalFlag (field : String) (arguments : List (String × ArgValue)) : Option (Option Bool) :=
  match arguments.lookup field with
  | none => some none
  | some (.flag value) => some (some value)
  | _ => none

def pledgeTypeNamed : String → Option PledgeType
  | "CASH" => some .cash
  | "ITEM" => some .item
  | "SERVICE" => some .service
  | _ => none

def optionalType (arguments : List (String × ArgValue)) : Option (Option PledgeType) :=
  match arguments.lookup "type" with
  | none => some none
  | some (.text value) => (pledgeTypeNamed value).map some
  | _ => none

/-- `toolCallSchema.safeParse`. -/
def toolCallSchema (name : String) (arguments : List (String × ArgValue)) : Option ToolCall :=
  match name with
  | "add_person" => do
      let displayName ← requiredText (fits 1 (some 200)) "displayName" arguments
      let phone ← optionalText (fits 1 (some 20)) "phone" arguments
      let confirmSharedPhone ← optionalFlag "confirmSharedPhone" arguments
      return .addPerson displayName phone confirmSharedPhone
  | "record_pledge" => do
      let personName ← requiredText (fits 1 none) "personName" arguments
      let amount ← requiredText isDigits "amount" arguments
      let type ← optionalType arguments
      let description ← optionalText (fits 1 (some 500)) "description" arguments
      let receivedNow ← optionalText isDigits "receivedNow" arguments
      let budgetItemName ← optionalText (fits 1 (some 200)) "budgetItemName" arguments
      return .recordPledge personName amount type description receivedNow budgetItemName
  | "record_payment" => do
      let personName ← requiredText (fits 1 none) "personName" arguments
      let amount ← requiredText isDigits "amount" arguments
      let type ← optionalType arguments
      let description ← optionalText (fits 1 (some 500)) "description" arguments
      let budgetItemName ← optionalText (fits 1 (some 200)) "budgetItemName" arguments
      return .recordPayment personName amount type description budgetItemName
  | "get_outstanding" => do
      let personName ← optionalText (fits 1 none) "personName" arguments
      return .getOutstanding personName
  | "get_summary" => some .getSummary
  | _ => none

/-- The first tool call of the answer, if it passes the schema. -/
def callLlm (rules : CaptureRules) (toolCalls : List RawToolCall) : Option (ToolCall × ℚ) :=
  match toolCalls with
  | [] => none
  | raw :: _ => do
      let (confidence, arguments) := takeConfidence raw.arguments
      let normalised ← normaliseAmount rules arguments
      let call ← toolCallSchema raw.name normalised
      return (call, confidence)

section capturing
variable (ctx : OperationContext) (names : NameRules) (rules : CaptureRules)

/-- The answer of the model, or why there is none; its tokens are metered outside the ledger. -/
def capture (utterance : String) (llm : Except Refusal (List RawToolCall)) (forceStage : Bool)
    (rowId : ℕ) (draw : ExecDraw) : LedgerProgram CaptureResult :=
  match rules.parseTier1 utterance with
  | some call => route ctx names call 1 .deterministic forceStage rowId draw
  | none =>
    match llm with
    | .error e => .throw e
    | .ok toolCalls =>
      match callLlm rules toolCalls with
      | none => pure (.clarification "Sorry, I didn't catch that. Try e.g. “John paid 200k”." []
          .llm)
      | some (call, confidence) => route ctx names call confidence .llm forceStage rowId draw

/-- The tool that an utterance comes to. -/
def calledTool (utterance : String) (llm : Except Refusal (List RawToolCall)) : Option ToolCall :=
  rules.parseTier1 utterance <|>
    llm.toOption.bind fun toolCalls => (callLlm rules toolCalls).map Prod.fst

end capturing

/-- At most one more waiting row, and none without the permission for the tool; nothing else. -/
def OnlyStages (role : EventRole) (call : Option ToolCall) (db db' : LedgerDb) : Prop :=
  db' = db ∨ ∃ tool row, call = some tool ∧ can role (writeAction tool) = true ∧
    db' = { db with pendingConfirmations := db'.pendingConfirmations } ∧
    db'.pendingConfirmations.rows = db.pendingConfirmations.rows ++ [row]

section staging
variable {ctx : OperationContext} {names : NameRules} {rules : CaptureRules} {db : LedgerDb}

theorem can_of_assertPermission {role : EventRole} {action : Action}
    (h : assertPermission role action = none) : can role action = true := by
  unfold assertPermission at h
  split_ifs at h with hcan
  exact hcan

theorem stages_route {call : ToolCall} {confidence : ℚ} {tier : CaptureTier} {rowId : ℕ}
    {draw : ExecDraw} :
    wp (OnlyStages ctx.event.role (some call) db)
      (route ctx names call confidence tier true rowId draw)
      (fun _ => OnlyStages ctx.event.role (some call) db) db := by
  refine wp_route_of_write (fun _ _ => .inl rfl) <| wp_routeWrite (fun _ _ => .inl rfl) (fun h => ?_)
    fun hcan action prompt _ hfresh => ?_
  · cases h
  · exact .inr ⟨call, waitingRow ctx action (some confidence) prompt rowId, rfl,
      can_of_assertPermission hcan, rfl, Table.insertNew_rows hfresh⟩

theorem stages_capture {utterance : String} {llm : Except Refusal (List RawToolCall)}
    {rowId : ℕ} {draw : ExecDraw} :
    wp (OnlyStages ctx.event.role (calledTool rules utterance llm) db)
      (capture ctx names rules utterance llm true rowId draw)
      (fun _ => OnlyStages ctx.event.role (calledTool rules utterance llm) db) db := by
  unfold capture calledTool
  cases rules.parseTier1 utterance with
  | some call => exact stages_route
  | none =>
    cases llm with
    | error e => trivial
    | ok toolCalls =>
      have htool : (none <|> (Except.ok toolCalls : Except Refusal _).toOption.bind fun toolCalls =>
          (callLlm rules toolCalls).map Prod.fst) = (callLlm rules toolCalls).map Prod.fst := rfl
      rw [htool]
      dsimp only
      cases callLlm rules toolCalls with
      | none => exact .inl rfl
      | some called => exact stages_route

end staging

/-- Whatever was said and whatever the model made of it, a capture for review and a call of the
assistant add at most one waiting row, however far they come. -/
theorem captured_only_staged (ctx : OperationContext) (names : NameRules) (rules : CaptureRules)
    (utterance : String) (llm : Except Refusal (List RawToolCall)) (call : ToolCall)
    (confidence : ℚ) (rowId : ℕ) (draw : ExecDraw) (db : LedgerDb) (stop : Option ℕ) :
    OnlyStages ctx.event.role (calledTool rules utterance llm) db
        (leaves stop (capture ctx names rules utterance llm true rowId draw) db) ∧
      OnlyStages ctx.event.role (some call) db
        (leaves stop (routeToolCall ctx names call confidence rowId draw) db) := by
  constructor
  · exact leaves_wp (I := OnlyStages ctx.event.role (calledTool rules utterance llm) db)
      (fun _ _ h => h) stages_capture (.inl rfl) stop
  · exact leaves_wp (I := OnlyStages ctx.event.role (some call) db)
      (fun _ _ h => h) stages_route (.inl rfl) stop

end Akabbo.CaptureStaging
