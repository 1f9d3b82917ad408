import Akabbo.StagedMutations
import Akabbo.TurnSettlements

/-!
# What a turn says it has staged

The rows that the tools of a turn put to a human are stored one by one, and the reply names them;
the reply of a turn that the model is too busy for names none.
-/
namespace Akabbo.StagedReports
open Access RowTable StatementProgram ProgramParts LedgerState EventWrites
open PaidCampaigns TwoConnections WeakestPreconditions AsyncRoutines
open AssistantTurns hiding step
open AssistantMutations (publishDrafted)
open SmsCampaigns (previewRecipients)
open AgentSessions CreditScopes ConversationTurns ExecutorFrame ServiceEffects StagedMutations
open TurnSettlements (isRefused ends_meter)
open AsyncRoutines.Routine

/-- The rows that have been put to a human, by their ids. -/
def waiting (s : Rows) : List ℕ := waitingIds s.stored

def SameWaiting (s t : Rows) : Prop := waiting t = waiting s

theorem sameWaiting_trans {s t u : Rows} (h : SameWaiting s t) (h' : SameWaiting t u) :
    SameWaiting s u := Eq.trans h' h

theorem waitingIds_congr {db db' : LedgerDb} (h : SamePending db db') :
    waitingIds db' = waitingIds db := congrArg (fun t => t.rows.map PendingConfirmation.id) h

section quiet
variable {ρ υ : Type}

/-- Wherever it is cut short, and when it returns. -/
def Quiet (p : RowsProgram ρ) : Prop := ∀ s c v, SameWaiting s c → SameWaiting s v →
  withstands (SameWaiting s) p (fun _ c' t => SameWaiting s c' ∧ SameWaiting s t) c v

theorem quiet_pure (r : ρ) : Quiet (Pure.pure r) := fun _ _ _ hc hv => ⟨hc, hv⟩

theorem quiet_bind {p : RowsProgram ρ} {f : ρ → RowsProgram υ} (hp : Quiet p)
    (hf : ∀ r, Quiet (f r)) : Quiet (p >>= f) := fun s c v hc hv =>
  withstands_bind <| withstands_mono (hp s c v hc hv) fun r c' t h => hf r s c' t h.1 h.2

theorem quiet_refuse_bind {e : Option Refusal} {f : Unit → RowsProgram ρ} (h : Quiet (f ())) :
    Quiet (StatementProgram.Program.refuse e >>= f) := fun s c v hc hv =>
  withstands_refuse_bind hc fun _ => h s c v hc hv

theorem quiet_of_effects {p : RowsProgram ρ} (hp : Effects SameWaiting p) : Quiet p :=
  fun _ _ _ hc hv => withstands_of_effects (R := SameWaiting) sameWaiting_trans hp hc hv

theorem quiet_onOwn {p : BillingState.BillingProgram ρ} : Quiet (onOwn RowsLock.billing p) :=
  quiet_of_effects <| effects_bind (effects_run_part apartPart _ (fun _ _ _ => rfl) effects_any)
    fun _ => trivial

theorem quiet_onStored {p : LedgerProgram ρ} (hp : Frames p) :
    Quiet (onStored RowsLock.ledger p) :=
  quiet_of_effects <| effects_bind
    (effects_run_part storedPart _ (fun _ hw t => waitingIds_congr (hw t.stored)) hp)
    fun _ => trivial

/-- What a transaction sees of the waiting rows stays as it is stored. -/
def SameOpen (s t : Rows) : Prop :=
  ∀ ids, waitingIds s.stored = ids ∧ waitingIds s.working = ids →
    waitingIds t.stored = ids ∧ waitingIds t.working = ids

theorem sameOpen_trans {s t u : Rows} (h : SameOpen s t) (h' : SameOpen t u) : SameOpen s u :=
  fun ids hs => h' ids (h ids hs)

theorem effects_openRun {p : LedgerProgram ρ} (hp : Frames p) :
    Effects SameOpen (openPart.run RowsLock.ledger p : RowsProgram ρ) :=
  effects_run_part openPart _
    (fun _ hw t _ ht => ⟨ht.1, (waitingIds_congr (hw t.working)).trans ht.2⟩) hp

theorem effects_apartRun {p : BillingState.BillingProgram ρ} :
    Effects SameOpen (apartPart.run RowsLock.billing p : RowsProgram ρ) :=
  effects_run_part apartPart _ (fun _ _ _ _ ht => ht) effects_any

theorem effects_onOwn {p : BillingState.BillingProgram ρ} :
    Effects SameOpen (onOwn RowsLock.billing p : RowsProgram ρ) :=
  effects_bind effects_apartRun fun _ => trivial

theorem effects_transaction {p : RowsProgram ρ} (hp : Effects SameOpen p) :
    Effects SameOpen (transaction p) :=
  effects_bind (effects_modify _ fun _ _ ht => ⟨ht.1, ht.1⟩) fun _ => effects_bind hp fun _ =>
    effects_bind (effects_modify _ fun _ _ ht => ⟨ht.2, ht.2⟩) fun _ => trivial

theorem quiet_transaction {p : RowsProgram ρ} (hp : Effects SameOpen p) :
    Quiet (transaction p) := by
  intro s c v hc hv
  have hopen {t : Rows} (ht : SameOpen v.begun t) :
      waitingIds t.stored = waiting s ∧ waitingIds t.working = waiting s := ht _ ⟨hv, hv⟩
  refine withstands_transaction hc <| withstands_mono (withstands_effects (R := SameOpen)
    sameOpen_trans (fun t ht => (hopen ht).1) hp hc fun _ ht => ht) ?_
  rintro r c' t ⟨hc', ht⟩
  exact ⟨hc', (hopen ht).2, (hopen ht).2⟩

theorem quiet_onLedger {p : LedgerProgram ρ} (hp : Frames p) : Quiet (onLedger p) :=
  quiet_transaction (effects_openRun hp)

theorem preserves_quiet {p : RowsProgram ρ} (hp : Quiet p) (fault : Option (ℕ × Refusal)) :
    preserves SameWaiting (statements (underFault fault p)) := fun s =>
  ends_underFault (withstands_mono (hp s s s rfl rfl) fun _ _ _ h => h.2) fault

end quiet

section tools
variable {ρ : Type} {s : Rows}

/-- The waiting rows are those from before, and the one of this id. -/
def Reported (s : Rows) (id : Option ℕ) (t : Rows) : Prop := waiting t = waiting s ++ id.toList

theorem reported_none {t : Rows} (h : SameWaiting s t) : Reported s none t :=
  h.trans (List.append_nil _).symm

/-- One transaction on the ledger, on rows that have kept what waits. -/
theorem withstands_onLedger {p : LedgerProgram ρ} (id : ρ → Option ℕ) {v : Rows}
    (hv : SameWaiting s v)
    (h : wp (fun _ => True) p (fun r => Adds v.stored (id r)) v.stored) :
    withstands (SameWaiting s) (onLedger p)
      (fun r c' t => c' = t ∧ Reported s (id r) t ∧ t.working = t.stored) v v := by
  refine withstands_transaction_run (fun _ => hv) hv <| wp_mono h fun r db hr => ⟨rfl, ?_, rfl⟩
  exact Eq.trans hr (congrArg (· ++ (id r).toList) hv)

section campaigns
variable {draw : BillingState.Draw} {campaign : SmsCampaigns.CampaignDraw}

theorem effects_sendAnnouncement (ctx : OperationContext) (body : String) (ids : List ℕ) :
    Effects SameOpen (PaidCampaigns.sendAnnouncement ctx body ids campaign draw) :=
  effects_transaction <| effects_dispatch effects_openRun ctx
    (fun _ => effects_map effects_onOwn _) _ body _

end campaigns
section programs
variable {rules : TurnRules} {call : TurnCall}

/-- What a tool comes to: a row that its outcome names, or none. -/
abbrev ReportsRow (s : Rows) (p : RowsProgram ToolOutcome) : Prop :=
  withstands (SameWaiting s) p (fun o _ t => Reported s (toolPendingId o) t) s s

theorem reports_write (tool : String) : ReportsRow s (write rules call tool) := by
  unfold write
  cases CaptureStaging.normaliseAmount rules.toCaptureRules call.arguments with
  | none => exact reported_none rfl
  | some amounts =>
    dsimp only
    cases normaliseReceived rules amounts with
    | none => exact reported_none rfl
    | some arguments =>
      dsimp only
      cases CaptureStaging.toolCallSchema tool arguments with
      | none => exact reported_none rfl
      | some request =>
        refine withstands_bind <| withstands_mono
          (withstands_onLedger _ rfl (wp_routeToolCall s.stored)) ?_
        exact fun r _ t ht => ht.2.1

theorem reports_publishAnnouncement (announcementId : String) (sendSms : Bool) :
    ReportsRow s (.mutated <$> publishAnnouncement rules call announcementId sendSms) := by
  refine withstands_map ?_
  unfold publishAnnouncement
  have hpublish := withstands_onLedger (s := s) (fun _ => none) rfl <|
    wp_mono (wp_frames (@frames_publishDrafted call.ctx rules.toAssistantRules call.draw.event
      (rules.texts.trim announcementId)) s.stored) fun _ _ => adds_none
  split_ifs
  · exact reported_none rfl
  · refine withstands_bind <| withstands_mono hpublish ?_
    rintro a t _ ⟨rfl, ht, hsync⟩
    have hsame : SameWaiting s t := ht.trans (List.append_nil _)
    have hopen {u : Rows} (hu : SameOpen t u) : SameWaiting s u :=
      (hu _ ⟨rfl, congrArg waitingIds hsync⟩).1.trans hsame
    refine withstands_bind <| withstands_mono (withstands_effects (R := SameOpen) sameOpen_trans
      (fun _ => hopen) (effects_attempt (effects_sendAnnouncement _ _ _)) hsame fun _ h => h) ?_
    rintro sent c' u ⟨-, hu⟩
    cases sent with
    | ok result => exact reported_none (hopen hu)
    | error e => exact reported_none (hopen hu)
  · exact withstands_bind <| withstands_mono hpublish fun _ _ _ ht => ht.2.1

theorem reports_prepareReminders (body : String) :
    ReportsRow s (.mutated <$> prepareReminders rules call body) := by
  refine withstands_map ?_
  unfold prepareReminders
  split_ifs
  · exact reported_none rfl
  · refine withstands_bind <| withstands_mono (withstands_onLedger (fun _ => none) rfl <|
      wp_mono (wp_frames frames_previewRecipients s.stored) fun _ _ => adds_none) ?_
    rintro recipients t _ ⟨rfl, ht, -⟩
    have hsame : SameWaiting s t := ht.trans (List.append_nil _)
    exact withstands_query_bind hsame <|
      withstands_mono (withstands_onLedger _ hsame (stages_stageReminders t.stored))
      fun _ _ _ hu => hu.2.1

theorem reports_toolProgram (tool : Tool) : ReportsRow s (toolProgram rules call tool) := by
  cases tool with
  | read tool =>
    refine withstands_query_bind rfl ?_
    cases rules.answer tool call.ctx call.arguments s with
    | ok content => exact reported_none rfl
    | error e => exact (rfl : SameWaiting s s)
  | addPerson => exact reports_write _
  | recordPledge => exact reports_write _
  | recordPayment => exact reports_write _
  | publishAnnouncement => exact reports_publishAnnouncement _ _
  | sendReminders => exact reports_prepareReminders _
  | _ =>
    exact withstands_map <| withstands_mono
      (withstands_onLedger _ rfl (stages_mutation rules call _ s.stored)) fun _ _ _ ht => ht.2.1

theorem ends_tool : ends (dispatch rules call) (fun o => Reported s (toolPendingId o))
    (fun _ => SameWaiting s) s :=
  ends_dispatch (reported_none rfl) (fun _ _ => reported_none) fun tool _ =>
    ends_underFault (reports_toolProgram tool) _

end programs
end tools

section sessions
variable {rules : SessionRules} {actor : Actor}

theorem frames_requireContext (e : ℕ) : Frames (ClosedEvents.requireContext actor e) :=
  frames_bind (frames_bind (frames_query _) fun event => by
    cases event with
    | none => exact frames_pure _
    | some event => exact frames_bind (frames_query _) fun _ => frames_pure _)
    fun _ => frames_orThrow _ _

theorem quiet_findMyEvents (joinedAt : EventMember → ℕ) (userId : ℕ) :
    Quiet (findMyEvents joinedAt userId) := quiet_onLedger (frames_query _)

theorem quiet_insertedEvent (input : CreateEventInput) (draw : EventDraw) :
    Quiet (insertedEvent actor input draw) :=
  quiet_transaction <| effects_bind (effects_openRun
    (@effects_createEvent SamePending ⟨actor, ⟨0, .viewer, .active⟩⟩ (keeps_samePending 0) actor
      input draw)) fun _ =>
    effects_bind effects_apartRun fun _ => trivial

theorem keeps_sameWaiting (rules : SessionRules) (actor : Actor) :
    AgentSessions.Keeps SameWaiting rules actor where
  refl _ := rfl
  trans := sameWaiting_trans
  context e := preserves_quiet (quiet_onLedger (frames_requireContext e))
  mine := preserves_quiet (quiet_findMyEvents _ _)
  update _ input := preserves_quiet (quiet_onStored (effects_updateEvent (keeps_samePending _) input))
  create input draw := preserves_quiet (quiet_insertedEvent input draw)

theorem pendingId_own {o : SessionOutcome} (h : IsOwn o) : pendingId o = none := by
  cases o with
  | tool outcome => exact h.elim
  | _ => rfl

/-- A tool call, on either surface, stages the row that its outcome names. -/
theorem ends_surface (surface : Surface) (call : LlmToolCall) (s : SessionState) :
    ends (surface.dispatch rules call) (fun o t => Reported s.rows (pendingId o) t.rows)
      (fun _ t => SameWaiting s.rows t.rows) s := by
  cases surface with
  | event ctx => exact ends_map <| ends_on ends_tool
  | conversation actor =>
    refine (keeps_sameWaiting rules actor).dispatchSession (fun o t ho ht => ?_) fun ctx t ht => ?_
    · rw [pendingId_own ho]
      exact reported_none ht
    · refine ends_map <| ends_on <| ends_mono ends_tool (fun o u hu => ?_)
        fun e u hu => sameWaiting_trans ht hu
      exact Eq.trans hu (congrArg (· ++ (toolPendingId o).toList) ht)

end sessions

section loop
variable {rules : ChatRules} {input : TurnInput} {base : List ℕ} {t : TurnState}

/-- What waits is what waited when the turn began, and what it has staged. -/
def Staged (base staged : List ℕ) (t : TurnState) : Prop :=
  waiting t.session.rows = base ++ staged

theorem staged_same {staged : List ℕ} {t' : TurnState} (h : Staged base staged t)
    (ht : SameWaiting t.session.rows t'.session.rows) : Staged base staged t' := Eq.trans ht h

theorem ends_runTool (call : LlmToolCall) {p : Progress} (h : Staged base p.staged t) :
    ends (ConversationTurns.runTool rules input call p) (fun x => Staged base x.2.staged)
      (fun e _ => isRefused e) t := by
  unfold ConversationTurns.runTool
  split_ifs
  · exact h
  · refine ends_bind <| ends_on <| ends_mono (ends_surface input.surface call t.session) ?_ ?_
    · intro outcome s hs
      exact Eq.trans hs ((congrArg (· ++ _) h).trans (List.append_assoc _ _ _))
    · exact fun e _ _ => ⟨e, rfl⟩

theorem ends_runTools (calls : List LlmToolCall) {p : Progress} (h : Staged base p.staged t) :
    ends (runTools rules input calls p) (fun x => Staged base x.2.staged)
      (fun e _ => isRefused e) t := by
  induction calls generalizing p t with
  | nil => exact h
  | cons call rest ih =>
    refine ends_bind <| ends_mono (ends_runTool call h) ?_ fun _ _ he => he
    rintro ⟨result, p'⟩ t' ht'
    exact ends_bind <| ends_mono (ih ht') (fun _ _ h => h) fun _ _ he => he

/-- The calls of the credit ledger leave the waiting rows alone, and do not answer for the model. -/
theorem ends_creditCall {ρ : Type} (which : CreditCall) {p : RowsProgram ρ} (hp : Quiet p) :
    ends (creditCall input which p) (fun _ t' => SameWaiting t.session.rows t'.session.rows)
      (fun e t' => isRefused e ∧ SameWaiting t.session.rows t'.session.rows) t :=
  ends_on <| ends_on <| ends_mono (preserves_quiet hp _ t.session.rows) (fun _ _ h => h)
    fun e _ h => ⟨⟨e, rfl⟩, h⟩

def RateLimited {α : Type} : Except TurnError α → Prop
  | .error (.rateLimited _) => True
  | _ => False

theorem ends_ask (step : ℕ) :
    ends (ask input step)
      (fun r t' => input.complete step t.messages = .ok r ∧ t'.session = t.session)
      (fun e t' => input.complete step t.messages = .error e ∧ t'.session = t.session) t :=
  ends_mono (TurnSettlements.ends_ask step) (fun _ _ h => ⟨h.1, h.2 ▸ rfl⟩)
    fun _ _ h => ⟨h.1, h.2 ▸ rfl⟩

/-- A round that ends without a result throws what the model threw, or is refused. -/
theorem ends_round {scope : BillingState.Scope} (step : ℕ) {p : Progress}
    (h : Staged base p.staged t) :
    ends (round rules input scope step p)
      (fun r t' => ¬ RateLimited (input.complete step t.messages) ∧ match r with
        | .inl result => Staged base result.staged t'
        | .inr p' => Staged base p'.staged t')
      (fun e t' => isRefused e ∧ ¬ RateLimited (input.complete step t.messages) ∨
        (∃ status, e = .rateLimited status) ∧ RateLimited (input.complete step t.messages) ∧
          Staged base p.staged t') t := by
  refine ends_bind <| ends_mono (ends_ask step) ?_ ?_
  · rintro r t' ⟨hanswer, hsession⟩
    have hbusy : ¬ RateLimited (input.complete step t.messages) := by
      rw [hanswer]
      exact id
    have hstaged : Staged base p.staged t' := by
      unfold Staged
      rw [hsession]
      exact h
    refine ends_bind <| ends_mono (ends_meter step) ?_ fun e _ he => .inl ⟨he.2.1, hbusy⟩
    rintro _ _ rfl
    split_ifs
    · refine ends_bind <| ends_mono (ends_creditCall .commit quiet_onOwn) ?_
        fun e _ he => .inl ⟨he.1, hbusy⟩
      exact fun _ u hu => ⟨hbusy, staged_same hstaged hu⟩
    · refine ends_modify_bind <| ends_bind <| ends_mono (ends_runTools _ hstaged) ?_
        fun e _ he => .inl ⟨he, hbusy⟩
      exact fun x u hu => ⟨hbusy, hu⟩
  · rintro e t' ⟨hanswer, hsession⟩
    rw [hanswer]
    cases e with
    | refused x => exact .inl ⟨⟨x, rfl⟩, id⟩
    | rateLimited status =>
      refine .inr ⟨⟨status, rfl⟩, trivial, ?_⟩
      unfold Staged
      rw [hsession]
      exact h

variable (rules input) in
/-- The model is busy at a step after one that has staged a row. -/
def BusyAfterStaging (scope : BillingState.Scope) : ℕ → ℕ → Progress → TurnState → Prop
  | 0, _, _, _ => False
  | left + 1, step, p, t =>
    (p.staged ≠ [] ∧ RateLimited (input.complete step t.messages)) ∨
      ∃ p' t', round rules input scope step p t = (.ok (.inr p'), t') ∧
        BusyAfterStaging scope left (step + 1) p' t'

/-- The loop reports every row, or throws; a busy model is thrown with rows unreported exactly when
some have been staged. -/
theorem ends_steps {scope : BillingState.Scope} {left step : ℕ} {p : Progress}
    (h : Staged base p.staged t) :
    ends (steps rules input scope left step p)
      (fun result t' => Staged base result.staged t' ∧
        ¬ BusyAfterStaging rules input scope left step p t)
      (fun e t' => isRefused e ∧ ¬ BusyAfterStaging rules input scope left step p t ∨
        (∃ status, e = .rateLimited status) ∧ ∃ staged, Staged base staged t' ∧
          (staged = [] ↔ ¬ BusyAfterStaging rules input scope left step p t)) t := by
  induction left generalizing step p t with
  | zero =>
    refine ends_bind <| ends_mono (ends_creditCall .refund quiet_onOwn)
      (fun _ t' ht' => ⟨staged_same h ht', id⟩) fun e _ he => .inl ⟨he.1, id⟩
  | succ left ih =>
    refine ends_bind <| ends_mono (ends_run (ends_round step h)) ?_ ?_
    · rintro (result | p') t' ⟨⟨hbusy, ht'⟩, hrun⟩
      · refine ⟨ht', ?_⟩
        rintro (⟨-, hrate⟩ | ⟨_, _, hnext, -⟩)
        · exact hbusy hrate
        · rw [hrun] at hnext
          cases hnext
      · have hnext : BusyAfterStaging rules input scope (left + 1) step p t ↔
            BusyAfterStaging rules input scope left (step + 1) p' t' := by
          constructor
          · rintro (⟨-, hrate⟩ | ⟨_, _, hnext, hlater⟩)
            · exact absurd hrate hbusy
            · rw [hrun] at hnext
              cases hnext
              exact hlater
          · exact fun hlater => .inr ⟨p', t', hrun, hlater⟩
        rw [hnext]
        exact ih ht'
    · rintro e t' ⟨he, hrun⟩
      have hlast : BusyAfterStaging rules input scope (left + 1) step p t ↔
          p.staged ≠ [] ∧ RateLimited (input.complete step t.messages) := by
        refine ⟨?_, .inl⟩
        rintro (hnow | ⟨_, _, hnext, -⟩)
        · exact hnow
        · rw [hrun] at hnext
          cases hnext
      rw [hlast]
      rcases he with ⟨hrefused, hbusy⟩ | ⟨hstatus, hbusy, ht'⟩
      · exact .inl ⟨hrefused, fun hand => hbusy hand.2⟩
      · refine .inr ⟨hstatus, p.staged, ht', ?_⟩
        simp only [hbusy, and_true, not_not, ne_eq]

end loop

section turn
variable {rules : ChatRules} {input : TurnInput} {s : SessionState}

theorem quiet_bestOf (draw : BillingState.Draw) (es : List MyEvent) (best : Option (ℕ × ℤ)) :
    Quiet (bestOf draw es best) := by
  induction es generalizing best with
  | nil => exact quiet_pure _
  | cons e rest ih =>
    unfold bestOf
    split_ifs
    · exact quiet_bind quiet_onOwn fun _ => ih _
    · exact ih best

theorem quiet_beginTurn (rules : SessionRules) (surface : Surface) (eventId : Option ℕ)
    (userId : ℕ) (key : String) (draw : BillingState.Draw) :
    Quiet (beginTurn eventId (some userId) (surface.listMyEvents rules) key draw) := by
  refine quiet_bind ?_ fun scope => quiet_bind quiet_onOwn fun _ =>
    quiet_refuse_bind (quiet_pure scope)
  cases eventId with
  | some e => exact quiet_pure _
  | none =>
    refine quiet_bind quiet_onOwn fun accountId => quiet_bind quiet_onOwn fun balance => ?_
    split_ifs
    · exact quiet_pure _
    · cases surface with
      | event ctx => exact quiet_pure _
      | conversation actor =>
        refine quiet_bind (quiet_findMyEvents _ _) fun mine =>
          quiet_bind (quiet_bestOf _ _ _) fun best => ?_
        cases best with
        | none => exact quiet_pure _
        | some best => exact quiet_pure _

/-- The busy reply names no row, whatever waits. -/
theorem ends_afterError {base staged : List ℕ} {scope : BillingState.Scope} {e : TurnError}
    {t : TurnState} (h : Staged base staged t) :
    ends (afterError input scope e)
      (fun result t' => result.staged = [] ∧ Staged base staged t' ∧ ¬ isRefused e)
      (fun _ _ => isRefused e) t := by
  refine ends_caught_bind <| ends_mono (ends_creditCall .refundAfter quiet_onOwn) ?_ ?_
  · intro _ t' ht'
    cases e with
    | refused x => exact ⟨x, rfl⟩
    | rateLimited status => exact ⟨rfl, staged_same h ht', fun ⟨_, hx⟩ => by cases hx⟩
  · rintro _ t' ⟨-, ht'⟩
    cases e with
    | refused x => exact ⟨x, rfl⟩
    | rateLimited status => exact ⟨rfl, staged_same h ht', fun ⟨_, hx⟩ => by cases hx⟩

variable (rules input s) in
/-- A turn in which the model is busy after a row has been staged. -/
def BusyTurn : Prop :=
  ∃ scope t, start rules input ⟨s, [], []⟩ = (.ok scope, t) ∧
    BusyAfterStaging rules input scope maxSteps 1 {} { t with messages := initialMessages input }

/-- The rows that wait are those from before and those that the result names, in that order. -/
def ReportsAll (s : SessionState) (x : Except TurnError ChatResult × TurnState) : Prop :=
  ∀ result, x.1 = .ok result → waiting x.2.session.rows = waiting s.rows ++ result.staged

/-- A turn that returns a result names every row that it has staged, once and in order, unless the
model was busy after one. -/
theorem staged_reported_iff (rules : ChatRules) (input : TurnInput) (s : SessionState) :
    ReportsAll s (chat rules input s) ↔ ¬ BusyTurn rules input s := by
  have hends : ends (runLoop rules input)
      (fun result t => Staged (waiting s.rows) result.staged t ↔ ¬ BusyTurn rules input s)
      (fun _ _ => ¬ BusyTurn rules input s) ⟨s, [], []⟩ := by
    refine ends_bind <| ends_mono (ends_run <| ends_get_bind <|
      ends_creditCall .start (quiet_beginTurn _ _ _ _ _ _)) ?_ ?_
    · rintro scope t ⟨ht, hstart⟩
      have hturn : BusyTurn rules input s ↔ BusyAfterStaging rules input scope maxSteps 1 {}
          { t with messages := initialMessages input } := by
        constructor
        · rintro ⟨scope', t', hstart', hbusy⟩
          cases hstart.symm.trans hstart'
          exact hbusy
        · exact fun hbusy => ⟨scope, t, hstart, hbusy⟩
      have hbegun : Staged (waiting s.rows) [] { t with messages := initialMessages input } :=
        ht.trans (List.append_nil _).symm
      rw [hturn]
      refine ends_caught_bind <| ends_mono (ends_modify_bind (ends_steps hbegun)) ?_ ?_
      · exact fun result t' ht' => iff_of_true ht'.1 ht'.2
      · rintro e t' (⟨hrefused, hbusy⟩ | ⟨hstatus, staged, hstaged, hnone⟩)
        · have hhere : Staged (waiting t'.session.rows) [] t' := (List.append_nil _).symm
          exact ends_mono (ends_afterError hhere) (fun _ _ hu => absurd hrefused hu.2.2)
            fun _ _ _ => hbusy
        · refine ends_mono (ends_afterError hstaged) ?_ ?_
          · rintro result u ⟨hempty, hu, -⟩
            rw [← hnone, hempty]
            unfold Staged at hu ⊢
            rw [hu]
            simp
          · rintro _ u ⟨x, rfl⟩
            obtain ⟨_, hx⟩ := hstatus
            cases hx
    · rintro e t ⟨-, hstart⟩ ⟨scope', t', hstart', -⟩
      cases hstart.symm.trans hstart'
  exact ends_result (P := fun x => ReportsAll s x ↔ ¬ BusyTurn rules input s) <| ends_mono hends
    (fun result t ht => ⟨fun h => ht.mp (h result rfl), fun h _ hr => by
      cases hr
      exact ht.mpr h⟩)
    fun e t ht => ⟨fun _ => ht, fun _ _ hr => by cases hr⟩

end turn

/-- Event 7, with three credits for the assistant. -/
def funded : SessionState where
  rows := { StagedTurns.announced with
    apart := BillingState.BillingDb.empty.insertCredit .ai
      { eventId := some 7, accountId := none, amount := 3, kind := .grant, idempotencyKey := "g"
        reference := none } }
  activeEventId := none

def addition : LlmToolCall :=
  ⟨"call-1", "add_person", [("displayName", .text "Babirye")], { toTurnDraw := StagedTurns.turnDraw }⟩

/-- The model adds a contributor, and is too busy to go on. -/
def busyAfterAddition : TurnInput where
  surface := .event EventOwners.coOwner
  message := "Add Babirye"
  history := []
  systemPrompt := ""
  complete step _ := if step = 1 then .ok ⟨none, [addition]⟩ else .error (.rateLimited 429)
  recordLlmCall _ := none
  reserveKey := "ai-turn:1"
  draw := CreditScopes.draw
  fails _ := none

set_option maxRecDepth 8000 in
/-- The row waits for a human, and the reply names none. -/
theorem busy_reply_hides_row : ¬ ReportsAll funded
    (chat TurnSettlements.chatRules busyAfterAddition funded) := by
  intro h
  have hreply := h busyReply rfl
  exact absurd hreply (by decide)

end Akabbo.StagedReports
