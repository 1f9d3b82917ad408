import Akabbo.TurnCredits

/-!
# How a turn is settled

Every round of the loop feeds back one result for each tool call, and every way out of the loop
settles the reservation once. It is committed when the answer of the model is returned; an answer
that could not be metered is given back like any other failure.
-/
namespace Akabbo.TurnSettlements
open Access RowTable StatementProgram ProgramParts
open BillingState BillingWrites TwoConnections PaidCampaigns AsyncRoutines
open AgentSessions CreditScopes ConversationTurns TurnCredits
open AssistantTurns (maxSteps)
open AsyncRoutines.Routine

def isAnswer : Except TurnError LlmResult → Bool
  | .ok r => r.toolCalls.isEmpty
  | .error _ => false

/-- The model has produced a final answer. -/
def producedAnswer (t : TurnState) : Bool := t.asked.any isAnswer

def returned {α : Type} : Except TurnError α → Bool
  | .ok _ => true
  | .error _ => false

def resultOf (call : LlmToolCall) (result : LlmToolResult) : Prop :=
  result.id = call.id ∧ result.name = call.name

def echo (r : LlmResult) : LlmMessage := .assistant (r.text.getD "") r.toolCalls

/-- The model is asked with the messages so far; its tool calls are answered one by one. -/
inductive Fed (input : TurnInput) : List (Except TurnError LlmResult) → List LlmMessage → Prop
  | start : Fed input [] (initialMessages input)
  | step {asked : List (Except TurnError LlmResult)} {messages : List LlmMessage} {r : LlmResult}
      (results : List LlmToolResult) (fed : Fed input asked messages)
      (answer : input.complete (asked.length + 1) messages = .ok r) (calls : r.toolCalls ≠ [])
      (paired : List.Forall₂ resultOf r.toolCalls results) :
      Fed input (asked ++ [.ok r]) (messages ++ [echo r] ++ [.tool results])

/-- No tool is run for this answer of a step. -/
def NoTools (input : TurnInput) (step : ℕ) : Except TurnError LlmResult → Prop
  | .ok r => r.toolCalls = [] ∨ (input.recordLlmCall step).isSome
  | .error _ => True

/-- Only the last question of a turn may come to no results, where no tool or not all were run. -/
inductive FedBack (rules : ChatRules) (input : TurnInput) :
    List (Except TurnError LlmResult) → List LlmMessage → Prop
  | fed {asked : List (Except TurnError LlmResult)} {messages : List LlmMessage}
      (fed : Fed input asked messages) : FedBack rules input asked messages
  | idle {asked : List (Except TurnError LlmResult)} {messages : List LlmMessage}
      {last : Except TurnError LlmResult} (fed : Fed input asked messages)
      (answer : input.complete (asked.length + 1) messages = last)
      (idle : NoTools input (asked.length + 1) last) :
      FedBack rules input (asked ++ [last]) messages
  | broken {asked : List (Except TurnError LlmResult)} {messages : List LlmMessage} {r : LlmResult}
      (fed : Fed input asked messages)
      (answer : input.complete (asked.length + 1) messages = .ok r)
      (broken : ∃ p u, u.messages = messages ++ [echo r] ∧
        Rejects (runTools rules input r.toolCalls p) u) :
      FedBack rules input (asked ++ [.ok r]) (messages ++ [echo r])

section feeding
variable {input : TurnInput} {asked : List (Except TurnError LlmResult)}
  {messages : List LlmMessage}

theorem no_answer_of_fed (h : Fed input asked messages) : asked.any isAnswer = false := by
  induction h with
  | start => rfl
  | step results fed answer calls paired ih =>
    rw [List.any_append, ih]
    simpa [isAnswer] using calls

theorem any_answer_snoc (h : Fed input asked messages) (last : Except TurnError LlmResult) :
    (asked ++ [last]).any isAnswer = isAnswer last := by
  rw [List.any_append, no_answer_of_fed h]
  simp

end feeding

section rounds
variable {rules : ChatRules} {input : TurnInput} {t : TurnState}

theorem ends_ask (step : ℕ) :
    ends (ask input step)
      (fun r t' => input.complete step t.messages = .ok r ∧
        t' = { t with asked := t.asked ++ [.ok r] })
      (fun e t' => input.complete step t.messages = .error e ∧
        t' = { t with asked := t.asked ++ [.error e] }) t := by
  refine ends_get_bind (ends_modify_bind ?_)
  cases input.complete step t.messages with
  | ok r => exact ⟨rfl, rfl⟩
  | error e => exact ⟨rfl, rfl⟩

/-- The tools change the rows, and neither the messages nor what has been asked. -/
structure AfterTools (t t' : TurnState) : Prop where
  rows : SameAi t.session.rows t'.session.rows
  messages : t'.messages = t.messages
  asked : t'.asked = t.asked

theorem afterTools_trans {t t' t'' : TurnState} (h : AfterTools t t') (h' : AfterTools t' t'') :
    AfterTools t t'' :=
  ⟨sameAi_trans h.rows h'.rows, h'.messages.trans h.messages, h'.asked.trans h.asked⟩

/-- The errors of the tools are none of the model. -/
def isRefused (e : TurnError) : Prop := ∃ x, e = .refused x

theorem ends_runTool (call : LlmToolCall) (p : Progress) :
    ends (runTool rules input call p)
      (fun x t' => resultOf call x.1 ∧ AfterTools t t')
      (fun e t' => isRefused e ∧ AfterTools t t') t := by
  unfold runTool
  split_ifs
  · exact ⟨⟨rfl, rfl⟩, sameAi_refl _, rfl, rfl⟩
  · refine ends_bind <| ends_on <| ends_mono (preserves_surface _ input.surface call t.session) ?_ ?_
    · exact fun outcome s' hs => ⟨⟨rfl, rfl⟩, hs, rfl, rfl⟩
    · exact fun e s' hs => ⟨⟨e, rfl⟩, hs, rfl, rfl⟩

theorem ends_runTools (calls : List LlmToolCall) (p : Progress) :
    ends (runTools rules input calls p)
      (fun x t' => List.Forall₂ resultOf calls x.1 ∧ AfterTools t t')
      (fun e t' => isRefused e ∧ AfterTools t t') t := by
  induction calls generalizing p t with
  | nil => exact ⟨.nil, sameAi_refl _, rfl, rfl⟩
  | cons call rest ih =>
    refine ends_bind <| ends_mono (ends_runTool call p) ?_ fun e t' he => he
    rintro ⟨result, p'⟩ t' ⟨hresult, hafter⟩
    refine ends_bind <| ends_mono (ih p') ?_ ?_
    · rintro ⟨results, p''⟩ t'' ⟨hresults, hafter'⟩
      exact ⟨.cons hresult hresults, afterTools_trans hafter hafter'⟩
    · rintro e t'' ⟨he, hafter'⟩
      exact ⟨he, afterTools_trans hafter hafter'⟩

theorem ends_meter (step : ℕ) :
    ends (meter input step) (fun _ t' => t' = t)
      (fun e t' => t' = t ∧ isRefused e ∧ (input.recordLlmCall step).isSome) t := by
  unfold meter
  refine ends_get_bind ?_
  split_ifs
  · cases input.recordLlmCall step with
    | none => rfl
    | some x => exact ⟨rfl, ⟨x, rfl⟩, rfl⟩
  · rfl

end rounds

section exits
variable {rules : ChatRules} {input : TurnInput} {s u : Rows} {scope : Scope} {t : TurnState}

/-- The loop has returned, with the turn settled. -/
structure Finished (rules : ChatRules) (input : TurnInput) (s : Rows) (scope : Scope)
    (t : TurnState) : Prop where
  fed : FedBack rules input t.asked t.messages
  steps : t.asked.length ≤ maxSteps
  settled : Settled input.reserveKey s scope (producedAnswer t = true) t.session.rows

/-- The loop has thrown, with the credit as it was reserved. -/
structure Thrown (rules : ChatRules) (input : TurnInput) (u : Rows) (e : TurnError)
    (t : TurnState) : Prop where
  fed : FedBack rules input t.asked t.messages
  steps : t.asked.length ≤ maxSteps
  rows : SameAi u t.session.rows
  busy : isRefused e ∨ producedAnswer t = false

/-- Between two rounds. -/
structure Between (input : TurnInput) (u : Rows) (step : ℕ) (t : TurnState) : Prop where
  fed : Fed input t.asked t.messages
  step : t.asked.length + 1 = step
  rows : SameAi u t.session.rows

theorem settled_commit (hbegun : Begun input.reserveKey s scope u)
    (hfresh : FreshKeys input.reserveKey s) (hkept : SameAi u t.session.rows)
    (hfails : input.fails .commit = none) :
    ends (creditCall input .commit (onOwn .billing (commitAiCredit scope input.reserveKey)))
      (fun _ t' => t'.asked = t.asked ∧ t'.messages = t.messages ∧
        ∀ (answered : Prop) [Decidable answered], answered →
          Settled input.reserveKey s scope answered t'.session.rows)
      (fun _ _ => False) t := by
  have hrun := creditCall_append scope .commit hfails .commit 0
    ("commit:" ++ input.reserveKey) (some input.reserveKey) t
  unfold ends commitAiCredit commitIn
  rw [hrun]
  refine ⟨rfl, rfl, fun answered _ hanswered => settled_insert hbegun hfresh hkept hfresh.commit
    (commit_ne _) ?_ (fun account => ?_) rfl⟩
  · rw [if_pos hanswered]
    rfl
  · unfold turnRows
    rw [if_pos hanswered]

theorem settled_refund (which : CreditCall) (hbegun : Begun input.reserveKey s scope u)
    (hfresh : FreshKeys input.reserveKey s) (hkept : SameAi u t.session.rows)
    (hfails : input.fails which = none) :
    ends (creditCall input which (onOwn .billing (refundAiCredit scope input.reserveKey)))
      (fun _ t' => t'.asked = t.asked ∧ t'.messages = t.messages ∧
        ∀ (answered : Prop) [Decidable answered], ¬ answered →
          Settled input.reserveKey s scope answered t'.session.rows)
      (fun _ _ => False) t := by
  have hrun := creditCall_append scope which hfails .refund 1
    ("refund:" ++ input.reserveKey) (some input.reserveKey) t
  unfold ends refundAiCredit refundIn
  rw [Nat.cast_one, hrun]
  refine ⟨rfl, rfl, fun answered _ hanswered => settled_insert hbegun hfresh hkept hfresh.refund
    (refund_ne _) ?_ (fun account => ?_) rfl⟩
  · rw [if_neg hanswered]
    rfl
  · unfold turnRows
    rw [if_neg hanswered]

theorem ends_round (hbegun : Begun input.reserveKey s scope u)
    (hfresh : FreshKeys input.reserveKey s) (hfails : input.fails .commit = none) {step : ℕ}
    (p : Progress) (hstep : step ≤ maxSteps) (ht : Between input u step t) :
    ends (round rules input scope step p)
      (fun r t' => match r with
        | .inl _ => Finished rules input s scope t'
        | .inr _ => Between input u (step + 1) t')
      (fun e t' => Thrown rules input u e t') t := by
  obtain ⟨hfed, hlength, hrows⟩ := ht
  subst hlength
  refine ends_bind <| ends_mono (ends_ask _) ?_ ?_
  · rintro r t' ⟨hanswer, rfl⟩
    have hcount : (t.asked ++ [Except.ok r]).length ≤ maxSteps := by
      rw [List.length_append]
      exact hstep
    refine ends_bind <| ends_mono (ends_meter _) ?_ ?_
    · rintro _ t' rfl
      split_ifs with hcalls
      · have hfinal : (t.asked ++ [Except.ok r]).any isAnswer = true := by
          rw [any_answer_snoc hfed]
          exact hcalls
        refine ends_bind <| ends_mono (settled_commit hbegun hfresh hrows hfails) ?_ ?_
        · rintro _ t' ⟨hasked, hmessages, hsettled⟩
          refine ⟨?_, ?_, hsettled _ ?_⟩
          · rw [hasked, hmessages]
            exact .idle hfed hanswer (.inl (List.isEmpty_iff.mp hcalls))
          · rw [hasked]
            exact hcount
          · unfold producedAnswer
            rw [hasked]
            exact hfinal
        · exact fun _ _ h => h.elim
      · have hsome : r.toolCalls ≠ [] := fun h => hcalls (List.isEmpty_iff.mpr h)
        have hnone : (t.asked ++ [Except.ok r]).any isAnswer = false := by
          rw [any_answer_snoc hfed]
          exact Bool.eq_false_iff.mpr hcalls
        refine ends_modify_bind <| ends_bind <| ends_mono (ends_run (ends_runTools _ p)) ?_ ?_
        · rintro ⟨results, p'⟩ t' ⟨⟨hpaired, hafter⟩, -⟩
          refine ⟨?_, ?_, sameAi_trans hrows hafter.rows⟩
          · dsimp only
            rw [hafter.asked, hafter.messages]
            exact .step results hfed hanswer hsome hpaired
          · dsimp only
            rw [hafter.asked, List.length_append]
            rfl
        · rintro e t' ⟨⟨he, hafter⟩, hrun⟩
          refine ⟨?_, ?_, sameAi_trans hrows hafter.rows, .inl he⟩
          · rw [hafter.asked, hafter.messages]
            exact .broken hfed hanswer ⟨p, _, rfl, e, congrArg Prod.fst hrun⟩
          · rw [hafter.asked]
            exact hcount
    · rintro e t' ⟨rfl, he, hunmetered⟩
      exact ⟨.idle hfed hanswer (.inr hunmetered), hcount, hrows, .inl he⟩
  · rintro e t' ⟨hanswer, rfl⟩
    refine ⟨.idle hfed hanswer trivial, ?_, hrows, .inr (any_answer_snoc hfed _)⟩
    rw [List.length_append]
    exact hstep

theorem ends_steps (hbegun : Begun input.reserveKey s scope u)
    (hfresh : FreshKeys input.reserveKey s) (hcommit : input.fails .commit = none)
    (hrefund : input.fails .refund = none) {left step : ℕ} (p : Progress)
    (hleft : left + step = maxSteps + 1) (ht : Between input u step t) :
    ends (steps rules input scope left step p) (fun _ => Finished rules input s scope)
      (Thrown rules input u) t := by
  induction left generalizing step p t with
  | zero =>
    have hcount : t.asked.length ≤ maxSteps := by
      have := ht.step
      omega
    refine ends_bind <| ends_mono (settled_refund .refund hbegun hfresh ht.rows hrefund) ?_ ?_
    · rintro _ t' ⟨hasked, hmessages, hsettled⟩
      refine ⟨?_, ?_, hsettled _ ?_⟩
      · rw [hasked, hmessages]
        exact .fed ht.fed
      · rw [hasked]
        exact hcount
      · unfold producedAnswer
        rw [hasked, no_answer_of_fed ht.fed]
        exact Bool.false_ne_true
    · exact fun _ _ h => h.elim
  | succ left ih =>
    refine ends_bind <| ends_mono (ends_round hbegun hfresh hcommit p (by omega) ht) ?_
      fun _ _ he => he
    rintro (result | p') t' ht'
    · exact ht'
    · exact ih p' (by omega) ht'

end exits

section turn
variable {rules : ChatRules} {input : TurnInput} {s : Rows}

/-- The model has produced its answer and the turn has returned. -/
def answered (x : Except TurnError ChatResult × TurnState) : Bool :=
  returned x.1 && producedAnswer x.2

/-- No credit could be reserved, and nothing has been asked. -/
structure Refused (s : Rows) (x : Except TurnError ChatResult × TurnState) : Prop where
  outcome : returned x.1 = false
  asked : x.2.asked = []
  ledger : SameLedger s x.2.session.rows

/-- The turn has run: what was asked and fed back, and the two rows that it has added. -/
structure Ran (rules : ChatRules) (input : TurnInput) (s : Rows) (scope : Scope)
    (x : Except TurnError ChatResult × TurnState) : Prop where
  fed : FedBack rules input x.2.asked x.2.messages
  steps : x.2.asked.length ≤ maxSteps
  settled : Settled input.reserveKey s scope (answered x = true) x.2.session.rows

theorem ends_afterError {u : Rows} {scope : Scope} {e : TurnError} {t : TurnState}
    (hbegun : Begun input.reserveKey s scope u) (hfresh : FreshKeys input.reserveKey s)
    (hfails : input.fails .refundAfter = none) (ht : Thrown rules input u e t) :
    ends (afterError input scope e)
      (fun result t' => Ran rules input s scope (.ok result, t'))
      (fun e t' => Ran rules input s scope (.error e, t')) t := by
  refine ends_caught_bind <| ends_mono (settled_refund .refundAfter hbegun hfresh ht.rows hfails)
    ?_ fun _ _ h => h.elim
  rintro _ t' ⟨hasked, hmessages, hsettled⟩
  have hfed : FedBack rules input t'.asked t'.messages := by
    rw [hasked, hmessages]
    exact ht.fed
  have hcount : t'.asked.length ≤ maxSteps := by
    rw [hasked]
    exact ht.steps
  cases e with
  | rateLimited status =>
    refine ⟨hfed, hcount, hsettled _ ?_⟩
    rcases ht.busy with ⟨x, hx⟩ | hnone
    · cases hx
    · have hsame : producedAnswer t' = false := by
        unfold producedAnswer at hnone ⊢
        rw [hasked]
        exact hnone
      unfold answered
      rw [hsame, Bool.and_false]
      exact Bool.false_ne_true
  | refused x => exact ⟨hfed, hcount, hsettled _ Bool.false_ne_true⟩

/-- A turn is refused, or asks the model at most so often, feeds back every tool call and settles its
reservation once: committed if the model has answered and the turn returned it, and else given
back. The keys of the turn hold a random UUID. -/
theorem turn_settled_once (rules : ChatRules) (input : TurnInput) (s : SessionState)
    (hcommit : input.fails .commit = none) (hrefund : input.fails .refund = none)
    (hafter : input.fails .refundAfter = none) (hfresh : FreshKeys input.reserveKey s.rows) :
    Refused s.rows (chat rules input s) ∨ ∃ scope, Ran rules input s.rows scope (chat rules input s) := by
  have hends : ends (runLoop rules input)
      (fun result t => Refused s.rows (.ok result, t) ∨ ∃ scope, Ran rules input s.rows scope (.ok result, t))
      (fun e t => Refused s.rows (.error e, t) ∨ ∃ scope, Ran rules input s.rows scope (.error e, t))
      ⟨s, [], []⟩ := by
    refine ends_bind <| ends_mono (ends_start rules input _) ?_ ?_
    · rintro scope u ⟨hbegun, hasked⟩
      have hbetween : Between input u.session.rows 1 { u with messages := initialMessages input } := by
        refine ⟨?_, ?_, sameAi_refl _⟩
        · dsimp only
          rw [hasked]
          exact .start
        · dsimp only
          rw [hasked]
          rfl
      refine ends_caught_bind <| ends_mono
        (ends_modify_bind (ends_steps hbegun hfresh hcommit hrefund _ rfl hbetween)) ?_ ?_
      · exact fun result t ht => .inr ⟨scope, ht.fed, ht.steps, ht.settled⟩
      · exact fun e t ht => ends_mono (ends_afterError hbegun hfresh hafter ht)
          (fun _ _ h => .inr ⟨scope, h⟩) fun _ _ h => .inr ⟨scope, h⟩
    · exact fun e u hu => .inl ⟨rfl, hu.2, hu.1⟩
  exact ends_result (P := fun x => Refused s.rows x ∨ ∃ scope, Ran rules input s.rows scope x) hends

end turn

def chatRules : ChatRules where
  toSessionRules := sessionRules
  shown _ := ""
  isComplete _ := false
  reportRef _ := none

/-- User 5 is at his paused event, which has four credits. -/
def paused : SessionState := ⟨packs, some 8⟩

def listing : LlmToolCall := ⟨"call-1", "list_my_events", [], { toTurnDraw := StagedTurns.turnDraw }⟩

/-- The model lists the events, and then answers. -/
def question : TurnInput where
  surface := .conversation ⟨5, true⟩
  message := "Which events do I have?"
  history := []
  systemPrompt := ""
  complete step _ := .ok (if step = 1 then ⟨none, [listing]⟩ else ⟨some "A wedding, a funeral.", []⟩)
  recordLlmCall _ := none
  reserveKey := "ai-turn:1"
  draw := CreditScopes.draw
  fails _ := none

set_option maxRecDepth 8000 in
theorem turn_settled_once_question :
    ∃ scope, Ran chatRules question packs scope (chat chatRules question paused) := by
  have hturn := turn_settled_once chatRules question paused rfl rfl rfl ⟨rfl, rfl, rfl⟩
  refine hturn.resolve_left fun h => ?_
  have hasked : (chat chatRules question paused).2.asked.length = 2 := by decide
  rw [h.asked] at hasked
  cases hasked

/-- The database fails to meter the answer. -/
def unmetered : TurnInput :=
  { question with
    recordLlmCall := fun step => if step = 2 then some (.internal "Connection terminated") else none }

set_option maxRecDepth 8000 in
/-- The model has produced its final answer, and no commit is made for it. -/
theorem unmetered_answer_not_committed :
    producedAnswer (chat chatRules unmetered paused).2 = true ∧
      ¬ ∃ scope, Settled "ai-turn:1" packs scope
        (producedAnswer (chat chatRules unmetered paused).2 = true)
        (chat chatRules unmetered paused).2.session.rows := by
  have hproduced : producedAnswer (chat chatRules unmetered paused).2 = true := by decide
  refine ⟨hproduced, ?_⟩
  rintro ⟨scope, ⟨account, hrows⟩, -⟩
  have hlast : (chat chatRules unmetered paused).2.session.rows.apart.aiCreditLedger.rows.getLast?.map
      CreditRow.kind = some .refund := by decide
  rw [hrows, turnRows, if_pos hproduced] at hlast
  simp [creditRow] at hlast

end Akabbo.TurnSettlements
