import Akabbo.TurnSettlements

/-!
# The tool calls of a turn

The calls that a turn makes, round after round, with what each found: the session before it and
what came of it, unless it was answered without being run.
-/
namespace Akabbo.TracedTurns
open StatementProgram AgentSessions ConversationTurns AsyncRoutines PaidCampaigns
open BillingState (Scope)
open BillingWrites (commitAiCredit refundAiCredit)
open AsyncRoutines.Routine

/-- A tool call that the model is answered; one without an outcome is redirected. -/
structure ToolStep where
  call : LlmToolCall
  before : SessionState
  outcome : Option SessionOutcome

def ToolStep.result (rules : ChatRules) (x : ToolStep) : LlmToolResult :=
  ⟨x.call.id, x.call.name, (x.outcome.map rules.shown).getD redirected⟩

/-- The calls from the start of a turn on, to a session and how far the turn has come. -/
inductive Traced (rules : ChatRules) (surface : Surface) (s₀ : SessionState) :
    List ToolStep → SessionState → Progress → Prop
  | start : Traced rules surface s₀ [] s₀ {}
  | redirected {made : List ToolStep} {s : SessionState} {p : Progress}
      (h : Traced rules surface s₀ made s p) (call : LlmToolCall)
      (complete : p.reportAlreadyComplete = true) (report : reportTools.contains call.name = true) :
      Traced rules surface s₀ (made ++ [⟨call, s, none⟩]) s p
  | ran {made : List ToolStep} {s s' : SessionState} {p : Progress} {o : SessionOutcome}
      (h : Traced rules surface s₀ made s p) (call : LlmToolCall)
      (run : (p.reportAlreadyComplete && reportTools.contains call.name) = false)
      (outcome : surface.dispatch rules.toSessionRules call s = (.ok o, s')) :
      Traced rules surface s₀ (made ++ [⟨call, s, some o⟩]) s' (p.after rules call.name o)

/-- The tool results that the model is shown. -/
def resultsIn (messages : List LlmMessage) : List LlmToolResult :=
  messages.flatMap fun m => match m with
    | .tool results => results
    | _ => []

theorem resultsIn_append (a b : List LlmMessage) :
    resultsIn (a ++ b) = resultsIn a ++ resultsIn b := List.flatMap_append

section turn
variable {rules : ChatRules} {input : TurnInput} {t : TurnState} {s₀ : SessionState}
variable {made : List ToolStep} {p : Progress} {base : List LlmToolResult}

/-- What is known of any call: how it ran. -/
theorem ends_any {σ ε α : Type} (q : Routine σ ε α) (s : σ) :
    ends q (fun a s' => q s = (.ok a, s')) (fun e s' => q s = (.error e, s')) s := by
  unfold ends
  rcases q s with ⟨_ | _, s'⟩ <;> rfl

theorem ends_onSession {α : Type} (q : SessionRoutine α) :
    ends (onSession q) (fun a t' => t'.messages = t.messages ∧ q t.session = (.ok a, t'.session))
      (fun _ t' => t'.messages = t.messages) t :=
  ends_on <| ends_mono (ends_any q t.session) (fun _ _ h => ⟨rfl, h⟩) fun _ _ _ => rfl

theorem ends_creditCall {ρ : Type} (which : CreditCall) (q : RowsProgram ρ) :
    ends (creditCall input which q) (fun _ t' => t'.messages = t.messages)
      (fun _ t' => t'.messages = t.messages) t :=
  ends_mono (ends_onSession _) (fun _ _ h => h.1) fun _ _ h => h

/-- A tool call adds itself to those of the turn. -/
theorem ends_runTool (call : LlmToolCall) (h : Traced rules input.surface s₀ made t.session p) :
    ends (runTool rules input call p)
      (fun x t' => t'.messages = t.messages ∧ ∃ step : ToolStep, step.result rules = x.1 ∧
        Traced rules input.surface s₀ (made ++ [step]) t'.session x.2)
      (fun _ t' => t'.messages = t.messages) t := by
  unfold runTool
  split_ifs with hredirect
  · obtain ⟨hcomplete, hreport⟩ := Bool.and_eq_true_iff.mp hredirect
    exact ⟨rfl, ⟨call, t.session, none⟩, rfl, h.redirected call hcomplete hreport⟩
  · refine ends_bind <| ends_mono (ends_onSession _) ?_ fun _ _ hmessages => hmessages
    rintro outcome t' ⟨hmessages, hrun⟩
    exact ⟨hmessages, ⟨call, t.session, some outcome⟩, rfl,
      h.ran call (Bool.eq_false_iff.mpr hredirect) hrun⟩

theorem ends_runTools (calls : List LlmToolCall)
    (h : Traced rules input.surface s₀ made t.session p) :
    ends (runTools rules input calls p)
      (fun x t' => t'.messages = t.messages ∧ ∃ more : List ToolStep,
        more.map (ToolStep.result rules) = x.1 ∧
          Traced rules input.surface s₀ (made ++ more) t'.session x.2)
      (fun _ t' => t'.messages = t.messages ∧ ∃ more s p',
        Traced rules input.surface s₀ (made ++ more) s p') t := by
  induction calls generalizing p t made with
  | nil => exact ⟨rfl, [], rfl, by rwa [List.append_nil]⟩
  | cons call rest ih =>
    refine ends_bind <| ends_mono (ends_runTool call h) ?_ ?_
    · rintro ⟨result, p'⟩ t' ⟨hmessages, step, hresult, htraced⟩
      refine ends_bind <| ends_mono (ih htraced) ?_ ?_
      · rintro ⟨results, p''⟩ t'' ⟨hmessages', more, hresults, htraced'⟩
        refine ⟨hmessages'.trans hmessages, step :: more, ?_, ?_⟩
        · rw [List.map_cons, hresult, hresults]
        · rwa [List.append_cons]
      · rintro e t'' ⟨hmessages', more, s, p'', htraced'⟩
        refine ⟨hmessages'.trans hmessages, step :: more, s, p'', ?_⟩
        rwa [List.append_cons]
    · exact fun e t' hmessages => ⟨hmessages, [], t.session, p, by rwa [List.append_nil]⟩

/-- All results so far are those of the calls. -/
def Shown (rules : ChatRules) (input : TurnInput) (s₀ : SessionState) (t : TurnState) (p : Progress) :
    Prop :=
  ∃ made, Traced rules input.surface s₀ made t.session p ∧
    resultsIn t.messages = resultsIn (initialMessages input) ++ made.map (ToolStep.result rules)

/-- The results that are shown are those of the first calls, when a later one has failed. -/
def Ended (rules : ChatRules) (input : TurnInput) (t : TurnState) : Prop :=
  ∃ s₀ made s p, Traced rules input.surface s₀ made s p ∧
    resultsIn t.messages <+: resultsIn (initialMessages input) ++ made.map (ToolStep.result rules)

theorem ended_of_shown {t' : TurnState} (h : Shown rules input s₀ t p)
    (hmessages : resultsIn t'.messages = resultsIn t.messages) : Ended rules input t' := by
  obtain ⟨made, htraced, hresults⟩ := h
  exact ⟨s₀, made, t.session, p, htraced, by rw [hmessages, hresults]⟩

theorem ends_round {scope : Scope} (step : ℕ) (h : Shown rules input s₀ t p) :
    ends (round rules input scope step p)
      (fun r t' => match r with
        | .inl _ => Ended rules input t'
        | .inr p' => Shown rules input s₀ t' p')
      (fun _ t' => Ended rules input t') t := by
  refine ends_bind <| ends_mono (TurnSettlements.ends_ask step) ?_ ?_
  · rintro r t' ⟨-, rfl⟩
    refine ends_bind <| ends_mono (TurnSettlements.ends_meter step) ?_ ?_
    · rintro _ t' rfl
      split_ifs
      · refine ends_bind <| ends_mono (ends_creditCall .commit _) ?_ ?_
        · exact fun _ t' hmessages => ended_of_shown h (congrArg resultsIn hmessages)
        · exact fun _ t' hmessages => ended_of_shown h (congrArg resultsIn hmessages)
      · obtain ⟨made, htraced, hresults⟩ := h
        have hechoed : resultsIn (t.messages ++ [.assistant (r.text.getD "") r.toolCalls]) =
            resultsIn (initialMessages input) ++ made.map (ToolStep.result rules) := by
          rw [resultsIn_append, hresults]
          exact List.append_nil _
        refine ends_modify_bind <| ends_bind <| ends_mono (ends_runTools _ htraced) ?_ ?_
        · rintro ⟨results, p'⟩ t' ⟨hmessages, more, hmore, htraced'⟩
          refine ⟨made ++ more, htraced', ?_⟩
          dsimp only
          rw [hmessages, resultsIn_append, hechoed, List.map_append, hmore, List.append_assoc]
          exact congrArg _ (congrArg _ (List.append_nil _))
        · rintro e t' ⟨hmessages, more, s, p', htraced'⟩
          refine ⟨s₀, _, s, p', htraced', ?_⟩
          rw [hmessages, hechoed, List.map_append, ← List.append_assoc]
          exact List.prefix_append _ _
    · rintro e t' ⟨rfl, -, -⟩
      exact ended_of_shown h rfl
  · rintro e t' ⟨-, rfl⟩
    exact ended_of_shown h rfl

theorem ends_steps {scope : Scope} {left step : ℕ} (h : Shown rules input s₀ t p) :
    ends (steps rules input scope left step p) (fun _ => Ended rules input)
      (fun _ => Ended rules input) t := by
  induction left generalizing step p t with
  | zero =>
    refine ends_bind <| ends_mono (ends_creditCall .refund _) ?_ ?_
    · exact fun _ t' hmessages => ended_of_shown h (congrArg resultsIn hmessages)
    · exact fun _ t' hmessages => ended_of_shown h (congrArg resultsIn hmessages)
  | succ left ih =>
    refine ends_bind <| ends_mono (ends_round step h) ?_ fun _ _ he => he
    rintro (result | p') t' ht'
    · exact ht'
    · exact ih ht'

/-- However a turn ends, the results that its model has been shown are those of such calls. -/
theorem chat_traced (rules : ChatRules) (input : TurnInput) (s : SessionState) :
    Ended rules input (chat rules input s).2 := by
  have hends : ends (runLoop rules input) (fun _ => Ended rules input) (fun _ => Ended rules input)
      ⟨s, [], []⟩ := by
    have hnone {t : TurnState} (h : t.messages = []) : Ended rules input t :=
      ⟨s, [], s, {}, .start, by rw [h]; exact List.nil_prefix⟩
    refine ends_bind <| ends_mono (ends_creditCall .start _) ?_ fun _ _ h => hnone h
    intro scope t ht
    refine ends_caught_bind ?_
    refine ends_modify_bind <| ends_mono (@ends_steps _ _ _ t.session {} _ _ _ ?_) ?_ ?_
    · exact ⟨[], .start, (List.append_nil _).symm⟩
    · exact fun result t' h => h
    · intro e t' h
      refine ends_caught_bind <| ends_mono (ends_creditCall .refundAfter _) ?_ ?_
      all_goals
        intro _ t'' hmessages
        have hended : Ended rules input t'' := by
          obtain ⟨s₀, made, s, p, htraced, hresults⟩ := h
          exact ⟨s₀, made, s, p, htraced, by rwa [hmessages]⟩
        cases e <;> exact hended
  exact ends_state hends

end turn
end Akabbo.TracedTurns
