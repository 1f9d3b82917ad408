import Akabbo.CaptureRouting
import Akabbo.ExecutorSteps

/-!
# What a tool call does to the rows

Resolving a call reads only; what comes of it is one of a few actions with their prompts,
a question back, an answer, an execution, or one row that waits.
-/
namespace Akabbo.CaptureSteps
open Access RowTable StatementProgram LedgerState EventWrites WeakestPreconditions ExecutorSteps
open ToolExecutor Confirmations CaptureRouting
open StatementProgram.Program (query refuse)

/-- No row waits for it. -/
def IsAnswer : CaptureResult → Prop
  | .pending .. => False
  | _ => True

/-- What a write can be resolved to, by the names as they stand. -/
inductive ResolvesTo (names : NameRules) (v : LedgerDb) (e : ℕ) (tier : CaptureTier) :
    ToolCall → ResolvedWrite → Prop
  | clarified (call : ToolCall) (r : CaptureResult) : ResolvesTo names v e tier call (.clarify r)
  | person (name : String) (phone : Option String) (shared : Option Bool) :
      ResolvesTo names v e tier (.addPerson name phone shared)
        (.action (.addPerson name phone shared)
          s!"Add {name}{describeSuffix phone} as a contributor?")
  | newPledge (name amount : String) (type : Option PledgeType)
      (description receivedNow line received : Option String)
      (unknown : personNamed names v e name = .none) :
      ResolvesTo names v e tier (.recordPledge name amount type description receivedNow line)
        (stagePledge none name amount type description received (budgetItemNamed names v e line))
  | pledge (name amount : String) (type : Option PledgeType)
      (description receivedNow line received : Option String) (i : ℕ) (found : String)
      (known : personNamed names v e name = .resolved i found) :
      ResolvesTo names v e tier (.recordPledge name amount type description receivedNow line)
        (stagePledge (some (i, found)) name amount type description received
          (budgetItemNamed names v e line))
  | newGift (name amount : String) (type : Option PledgeType) (description line : Option String)
      (unknown : personNamed names v e name = .none) :
      ResolvesTo names v e tier (.recordPayment name amount type description line)
        (stageNewGift name amount type description (budgetItemNamed names v e line))
  | payment (name amount : String) (type : Option PledgeType) (description line : Option String)
      (i : ℕ) (found : String) (known : personNamed names v e name = .resolved i found) :
      ResolvesTo names v e tier (.recordPayment name amount type description line)
        (stagePayment i found amount type description (budgetItemNamed names v e line) tier
          (pledgeOf v e i))

section rules
variable {I : LedgerDb → Prop} {v : LedgerDb} {ctx : OperationContext} {names : NameRules}

theorem wp_firstPayment_bind {τ : Type} {received : Option String}
    {f : Option String → LedgerProgram τ} {Q : τ → LedgerDb → Prop}
    (h : ∀ r, wp I (f r) Q v) : wp I (firstPayment received >>= f) Q v := by
  cases received with
  | none => exact h none
  | some text =>
    refine wp_bind ?_
    unfold firstPayment
    dsimp only
    split_ifs
    · exact h none
    · exact wp_bigInt_bind fun value _ => wp_pure (h _)

theorem isAnswer_of_stagePledge {person : Option (ℕ × String)} {name amount : String}
    {type : Option PledgeType} {description received : Option String} {line : Option ℕ}
    {r : CaptureResult} (h : stagePledge person name amount type description received line =
      .clarify r) : IsAnswer r := by
  unfold stagePledge at h
  dsimp only at h
  split at h <;> cases h

theorem isAnswer_of_stagePayment {i : ℕ} {name amount : String} {type : Option PledgeType}
    {description : Option String} {line : Option ℕ} {tier : CaptureTier} {pledge : PledgeResolution}
    {r : CaptureResult} (h : stagePayment i name amount type description line tier pledge =
      .clarify r) : IsAnswer r := by
  cases pledge with
  | none => cases h
  | resolved i => cases h
  | ambiguous candidates =>
    cases h
    trivial

/-- A write is resolved to an action, or to a question that nothing waits for. -/
theorem wp_resolveWrite {call : ToolCall} {tier : CaptureTier} {Q : ResolvedWrite → LedgerDb → Prop}
    (h : ∀ r, ResolvesTo names v ctx.event.eventId tier call r →
      (∀ result, r = .clarify result → IsAnswer result) → Q r v) :
    wp I (resolveWrite ctx names call tier) Q v := by
  have hasked (result : CaptureResult) (hanswer : IsAnswer result) : Q (.clarify result) v :=
    h _ (.clarified _ _) fun _ hr => by
      cases hr
      exact hanswer
  cases call with
  | addPerson name phone shared => exact h _ (.person name phone shared) fun _ hr => by cases hr
  | recordPledge name amount type description receivedNow line =>
    refine wp_query_bind <| wp_query_bind ?_
    split
    · exact hasked _ trivial
    · next hunknown =>
      exact wp_firstPayment_bind fun received => wp_pure
        (h _ (.newPledge name amount type description receivedNow line received hunknown)
          fun _ => isAnswer_of_stagePledge)
    · next i found hknown =>
      exact wp_firstPayment_bind fun received => wp_pure
        (h _ (.pledge name amount type description receivedNow line received i found hknown)
          fun _ => isAnswer_of_stagePledge)
  | recordPayment name amount type description line =>
    refine wp_query_bind <| wp_query_bind ?_
    split
    · exact hasked _ trivial
    · next hunknown =>
      exact wp_pure (h _ (.newGift name amount type description line hunknown) fun _ hr => by cases hr)
    · next i found hknown =>
      exact wp_query_bind <| wp_pure
        (h _ (.payment name amount type description line i found hknown)
          fun _ => isAnswer_of_stagePayment)
  | getOutstanding name => exact hasked _ trivial
  | getSummary => exact hasked _ trivial

/-- The row that a staged action waits in. -/
def waitingRow (ctx : OperationContext) (action : StoredAction) (confidence : Option ℚ)
    (prompt : String) (rowId : ℕ) : PendingConfirmation :=
  { id := rowId
    eventId := ctx.event.eventId
    payload := action
    confidence
    source := .aiFromChat
    status := .pending
    prompt
    createdById := some ctx.actor.userId
    resolvedById := none
    resolvedAt := none }

def staged (v : LedgerDb) (row : PendingConfirmation) : LedgerDb :=
  { v with pendingConfirmations := v.pendingConfirmations.insertNew row }

theorem wp_create {action : StoredAction} {confidence : Option ℚ} {prompt : String} {rowId : ℕ}
    {Q : PendingView → LedgerDb → Prop}
    (h : v.pendingConfirmations.has rowId = false → Q (pendingView (waitingRow ctx action confidence
      prompt rowId)) (staged v (waitingRow ctx action confidence prompt rowId))) :
    wp I (create ctx action confidence prompt rowId) Q v := by
  refine wp_accept_bind fun hfresh => wp_pure (h ?_)
  simpa using hfresh

theorem wp_getSummary {draw : ExecDraw} {Q : ExecutionResult → LedgerDb → Prop} (h : ∀ r, Q r v) :
    wp I (getSummary ctx draw) Q v :=
  wp_bind <| wp_refuse_bind fun _ => wp_query_bind <| wp_query_bind <| wp_query_bind <|
    wp_query_bind <| wp_query_bind <| wp_query_bind <| wp_query_bind <| wp_query_bind <|
    wp_pure (wp_pure (h _))

theorem wp_getOutstanding {i : ℕ} {name : String} {Q : ExecutionResult → LedgerDb → Prop}
    (h : ∀ r, Q r v) : wp I (getOutstandingForPledge ctx i name) Q v :=
  wp_bind <| wp_refuse_bind fun _ => wp_query_bind <| wp_orThrow_bind fun _ _ => wp_query_bind <|
    wp_pure (wp_pure (h _))

theorem wp_routeOutstanding {name : Option String} {tier : CaptureTier} {draw : ExecDraw}
    {Q : CaptureResult → LedgerDb → Prop} (h : ∀ r, IsAnswer r → Q r v) :
    wp I (routeOutstanding ctx names name tier draw) Q v := by
  unfold routeOutstanding
  dsimp only
  split_ifs
  · exact wp_bind <| wp_getSummary fun _ => wp_pure (h _ trivial)
  · refine wp_query_bind ?_
    split
    · exact wp_pure (h _ trivial)
    · exact wp_pure (h _ trivial)
    · refine wp_query_bind ?_
      split
      · exact wp_bind <| wp_getOutstanding fun _ => wp_pure (h _ trivial)
      · exact wp_pure (h _ trivial)

/-- A write is allowed by the role before anything, and executed only when nothing forces it to
wait. -/
theorem wp_routeWrite {call : ToolCall} {confidence : ℚ} {tier : CaptureTier} {forceStage : Bool}
    {rowId : ℕ} {draw : ExecDraw} {Q : CaptureResult → LedgerDb → Prop} (hanswer : ∀ r, IsAnswer r → Q r v)
    (hrun : forceStage = false → ∀ action prompt,
      ResolvesTo names v ctx.event.eventId tier call (.action action prompt) →
      wp I (ToolExecutor.run ctx names action .aiFromChat draw)
        (fun r v' => Q (.executed r tier) v') v)
    (hstage : assertPermission ctx.event.role (writeAction call) = none → ∀ action prompt,
      ResolvesTo names v ctx.event.eventId tier call (.action action prompt) →
      v.pendingConfirmations.has rowId = false →
      Q (.pending prompt rowId tier) (staged v (waitingRow ctx action (some confidence) prompt rowId))) :
    wp I (routeWrite ctx names call confidence tier forceStage rowId draw) Q v := by
  refine wp_refuse_bind fun hcan => wp_bind <| wp_resolveWrite fun r hr hasked => ?_
  cases r with
  | clarify result => exact wp_pure (hanswer _ (hasked result rfl))
  | action action prompt =>
    dsimp only
    split_ifs with hnow
    · exact wp_bind (hrun (by simpa using hnow.1) action prompt hr)
    · exact wp_bind <| wp_create fun hfresh => wp_pure (hstage hcan action prompt hr hfresh)

theorem wp_route_of_write {call : ToolCall} {confidence : ℚ} {tier : CaptureTier}
    {forceStage : Bool} {rowId : ℕ} {draw : ExecDraw} {Q : CaptureResult → LedgerDb → Prop}
    (hanswer : ∀ r, IsAnswer r → Q r v)
    (hwrite : wp I (routeWrite ctx names call confidence tier forceStage rowId draw) Q v) :
    wp I (route ctx names call confidence tier forceStage rowId draw) Q v := by
  cases call with
  | getSummary => exact wp_bind <| wp_getSummary fun _ => wp_pure (hanswer _ trivial)
  | getOutstanding name => exact wp_routeOutstanding hanswer
  | addPerson name phone shared => exact hwrite
  | recordPledge name amount type description receivedNow line => exact hwrite
  | recordPayment name amount type description line => exact hwrite

/-- A call is answered, or its action is executed at once, or waits in a row. -/
theorem wp_route {call : ToolCall} {confidence : ℚ} {tier : CaptureTier} {forceStage : Bool}
    {rowId : ℕ} {draw : ExecDraw} {Q : CaptureResult → LedgerDb → Prop} (hanswer : ∀ r, IsAnswer r → Q r v)
    (hrun : ∀ action prompt,
      ResolvesTo names v ctx.event.eventId tier call (.action action prompt) →
      wp I (ToolExecutor.run ctx names action .aiFromChat draw)
        (fun r v' => Q (.executed r tier) v') v)
    (hstage : ∀ action prompt,
      ResolvesTo names v ctx.event.eventId tier call (.action action prompt) →
      v.pendingConfirmations.has rowId = false →
      Q (.pending prompt rowId tier) (staged v (waitingRow ctx action (some confidence) prompt rowId))) :
    wp I (route ctx names call confidence tier forceStage rowId draw) Q v :=
  wp_route_of_write hanswer <| wp_routeWrite hanswer (fun _ => hrun) fun _ => hstage

end rules
end Akabbo.CaptureSteps
