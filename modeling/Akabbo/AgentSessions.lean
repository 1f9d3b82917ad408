import Akabbo.ClosedEvents
import Akabbo.StagedTurns

/-!
# Conversations over several events

A conversation remembers the event it is about. Its own tools make, change and choose an event; every
other one goes to the event that is active by then, or asks which one is meant. When a tool call
fails in a way that its caller cannot tell the model.
-/
namespace Akabbo.AgentSessions
open Access RowTable StatementProgram ProgramParts LedgerState EventWrites ClosedEvents
open CaptureRouting CaptureStaging AssistantMutations AssistantTurns
open TwoConnections PaidCampaigns AsyncRoutines
open StatementProgram.Program (query)
open AsyncRoutines.Routine

structure MyEvent where
  id : ℕ
  name : String
  status : EventStatus
  deriving DecidableEq, Repr

structure CreatedEvent where
  id : ℕ
  name : String
  targetAmount : Option String
  eventDate : Option ℕ
  slug : String
  deriving DecidableEq, Repr

/-- `joinedAt` is when a membership was made. -/
structure SessionRules extends TurnRules where
  parseDate : String → Option ℕ
  joinedAt : EventMember → ℕ
  recommend : List (String × ArgValue) → Except Refusal String

inductive SessionService
  | requireContext | setActiveEvent | createEvent | updateEvent | listMyEvents
  deriving DecidableEq, Repr

structure SessionDraw extends TurnDraw where
  fails : SessionService → Option (ℕ × Refusal) := fun _ => none

structure SessionCall where
  name : String
  arguments : List (String × ArgValue)
  draw : SessionDraw

/-- The rows, and what the session itself keeps in memory. -/
structure SessionState where
  rows : Rows
  activeEventId : Option ℕ

def rowsPart : Part SessionState Rows where
  get := SessionState.rows
  put rows s := { s with rows := rows }
  get_put _ _ := rfl
  put_get _ := rfl
  put_put _ _ _ := rfl

abbrev SessionRoutine := Routine SessionState Refusal

def onRows {α : Type} (p : Routine Rows Refusal α) : SessionRoutine α := on rowsPart id p

/-- The events of a member, the newest membership first. -/
def myEvents (joinedAt : EventMember → ℕ) (db : LedgerDb) (userId : ℕ) : List MyEvent :=
  ((db.members.rows.filter fun m => m.userId == userId && m.status == .active).insertionSort
    fun m m' => joinedAt m' ≤ joinedAt m).filterMap fun m =>
      (db.events.get? m.eventId).map fun e => ⟨e.id, e.name, e.status⟩

def findMyEvents (joinedAt : EventMember → ℕ) (userId : ℕ) : RowsProgram (List MyEvent) :=
  onLedger <| query fun db => myEvents joinedAt db userId

section session
variable (rules : SessionRules) (actor : Actor) (fails : SessionService → Option (ℕ × Refusal))

def rowsCall {ρ : Type} (service : SessionService) (p : RowsProgram ρ) : SessionRoutine ρ :=
  onRows (statements (underFault (fails service) p))

def listMyEvents : SessionRoutine (List MyEvent) :=
  rowsCall fails .listMyEvents (findMyEvents rules.joinedAt actor.userId)

/-- The write of the conversation's row, which no other call of the turn reads. -/
def setActiveEvent : SessionRoutine Unit := Routine.refuse ((fails .setActiveEvent).map Prod.snd)

def setActive (eventId : Option ℕ) : SessionRoutine Unit := do
  modify fun s => { s with activeEventId := eventId }
  setActiveEvent fails

/-- A pointer that no longer resolves is cleared. -/
def activeEventCtx : SessionRoutine (Option OperationContext) := do
  match (← get).activeEventId with
  | none => return none
  | some eventId => do
    let found : Except Refusal EventContext ←
      caught (rowsCall fails .requireContext (onLedger (requireContext actor eventId)))
    match found with
    | .ok event => return some ⟨actor, event⟩
    | .error _ => do
      setActive fails none
      return none

def toCreated (summary : EventSummary) : CreatedEvent :=
  ⟨summary.id, summary.name, summary.targetAmount, summary.eventDate, summary.slug⟩

/-- The new event is a row for billing too. -/
def insertedEvent (input : CreateEventInput) (draw : EventDraw) : RowsProgram EventSummary :=
  transaction do
    let summary ← openPart.run .ledger (EventWrites.createEvent actor input draw)
    apartPart.run .billing (BillingWrites.insertEvent ⟨summary.id, actor.userId⟩)
    return summary

def createEvent (input : CreateEventInput) (draw : EventDraw) : SessionRoutine CreatedEvent := do
  let summary ← rowsCall fails .createEvent (insertedEvent actor input draw)
  setActive fails (some summary.id)
  return toCreated summary

def updateEvent (input : UpdateEventInput) : SessionRoutine (Except String CreatedEvent) := do
  match ← activeEventCtx actor fails with
  | none => return .error "No active event — switch to or create one first."
  | some ctx => do
    let summary ← rowsCall fails .updateEvent (onStored .ledger (EventWrites.updateEvent ctx input))
    return .ok (toCreated summary)

def switchEvent (eventId : Option ℕ) : SessionRoutine (Except String (Option String)) := do
  let found : Except Refusal EventContext ← match eventId with
    | some eventId =>
      caught (rowsCall fails .requireContext (onLedger (requireContext actor eventId)))
    | none => return .error "You are not a member of that event (or it does not exist)."
  match found with
  | .error _ => return .error "You are not a member of that event (or it does not exist)."
  | .ok event => do
    setActive fails (some event.eventId)
    let mine ← listMyEvents rules actor fails
    return .ok ((mine.find? fun e => e.id == event.eventId).map MyEvent.name)

end session

inductive SessionTool
  | createEvent | updateEvent | switchEvent | listMyEvents | getActiveEvent
  | getBudgetRecommendation
  deriving DecidableEq, Repr

def sessionTools : List (String × SessionTool) :=
  [("create_event", .createEvent), ("update_event", .updateEvent), ("switch_event", .switchEvent),
    ("list_my_events", .listMyEvents), ("get_active_event", .getActiveEvent),
    ("get_budget_recommendation", .getBudgetRecommendation)]

inductive SessionOutcome
  | tool (outcome : ToolOutcome)
  | clarification (message : String)
  | created (event : CreatedEvent)
  | updated (result : Except String CreatedEvent)
  | switched (result : Except String (Option String))
  | listed (events : List MyEvent)
  | active (event : EventContext)
  | noneActive (events : List MyEvent)
  | recommended (content : String)
  | noActiveEvent (events : List MyEvent)
  | failed (refusal : Refusal)

section dispatching
variable (rules : SessionRules) (actor : Actor) (call : SessionCall)

def SessionCall.under (ctx : OperationContext) : TurnCall :=
  ⟨ctx, call.name, call.arguments, call.draw.toTurnDraw⟩

/-- `String(args.field ?? '')`. -/
def given (field : String) : String :=
  match call.arguments.lookup field with
  | none | some .null => ""
  | some value => shownText rules.toCaptureRules value

def target : Option ℕ :=
  match call.arguments.lookup "target" with
  | none | some .null => none
  | some value => rules.parseAmountToMinorUnits (shownText rules.toCaptureRules value)

/-- `parseDate(args.date)`: only a text that is not blank is a date. -/
def eventDate : Option ℕ :=
  match call.arguments.lookup "date" with
  | some (.text value) => if rules.texts.trim value = "" then none else rules.parseDate value
  | _ => none

/-- `String(args.name).trim() || undefined`, if a name was given. -/
def newName : Option String :=
  ((call.arguments.lookup "name").map fun value =>
    rules.texts.trim (shownText rules.toCaptureRules value)).filter fun name => name != ""

def sessionTool : SessionTool → SessionRoutine SessionOutcome
  | .createEvent =>
    if rules.texts.trim (given rules call "name") = "" then
      return .clarification "What should the event be called?"
    else .created <$> createEvent actor call.draw.fails
      { name := rules.texts.trim (given rules call "name")
        targetAmount := target rules call
        eventDate := eventDate rules call } call.draw.event
  | .updateEvent => .updated <$> updateEvent actor call.draw.fails
      ⟨newName rules call, target rules call, eventDate rules call⟩
  | .switchEvent => .switched <$> switchEvent rules actor call.draw.fails
      (rules.parseId (given rules call "eventId"))
  | .listMyEvents => .listed <$> listMyEvents rules actor call.draw.fails
  | .getActiveEvent => do
    match ← activeEventCtx actor call.draw.fails with
    | some ctx => return .active ctx.event
    | none => .noneActive <$> listMyEvents rules actor call.draw.fails
  | .getBudgetRecommendation =>
    if rules.texts.trim (given rules call "eventType") = "" then
      return .clarification "What kind of event is this for (e.g. kwanjula, church wedding, funeral)?"
    else .recommended <$> fromExcept (rules.recommend call.arguments)

def sessionBranch : SessionRoutine (Returned SessionState Refusal SessionOutcome) :=
  match sessionTools.lookup call.name with
  | some tool => .value <$> sessionTool rules actor call tool
  | none => do
    match ← activeEventCtx actor call.draw.fails with
    | none => (fun events => .value (.noActiveEvent events)) <$>
        listMyEvents rules actor call.draw.fails
    -- the promise of the event's own dispatcher is not awaited here
    | some ctx => return .promise (.tool <$> onRows (dispatch rules.toTurnRules (call.under ctx)))

def dispatchSession : SessionRoutine SessionOutcome :=
  asyncTry (sessionBranch rules actor call) .failed

end dispatching

/-- The rows keep `R` in each call that a session makes of the services, wherever it may fail. -/
structure Keeps (R : Rows → Rows → Prop) (rules : SessionRules) (actor : Actor) : Prop where
  refl : ∀ s, R s s
  trans : ∀ {s t u}, R s t → R t u → R s u
  context : ∀ e fault, preserves R (statements (underFault fault (onLedger (requireContext actor e))))
  mine : ∀ fault, preserves R (statements (underFault fault (findMyEvents rules.joinedAt actor.userId)))
  update : ∀ ctx input fault, preserves R (statements (underFault fault
    (onStored RowsLock.ledger (EventWrites.updateEvent ctx input))))
  create : ∀ input draw fault, preserves R (statements (underFault fault
    (insertedEvent actor input draw)))

/-- An outcome of a session's own. -/
def IsOwn : SessionOutcome → Prop
  | .tool _ => False
  | _ => True

section keeping
variable {R : Rows → Rows → Prop} {rules : SessionRules} {actor : Actor}
  {fails : SessionService → Option (ℕ × Refusal)}

/-- `R` of the rows, whatever the session remembers. -/
def OnRows (R : Rows → Rows → Prop) (s t : SessionState) : Prop := R s.rows t.rows

namespace Keeps
variable (h : Keeps R rules actor)
include h

theorem pure {α : Type} (a : α) : preserves (OnRows R) (Pure.pure a : SessionRoutine α) :=
  preserves_pure (fun s => h.refl s.rows) a

theorem bind {α β : Type} {p : SessionRoutine α} {f : α → SessionRoutine β}
    (hp : preserves (OnRows R) p) (hf : ∀ a, preserves (OnRows R) (f a)) :
    preserves (OnRows R) (p >>= f) :=
  preserves_bind (R := OnRows R) (fun _ _ _ hst htu => h.trans hst htu) hp hf

omit h in
theorem onRows {α : Type} {p : Routine Rows Refusal α} (hp : preserves R p) :
    preserves (OnRows R) (onRows p) := fun s => ends_on (hp s.rows)

theorem setActive (e : Option ℕ) : preserves (OnRows R) (setActive fails e) :=
  h.bind (preserves_modify fun s => h.refl s.rows) fun _ =>
    preserves_refuse (fun s => h.refl s.rows) _

theorem listMyEvents : preserves (OnRows R) (listMyEvents rules actor fails) := onRows (h.mine _)

theorem requireContext (e : ℕ) : preserves (OnRows R) (caught (rowsCall fails .requireContext
    (onLedger (requireContext actor e))) : SessionRoutine (Except Refusal EventContext)) :=
  preserves_caught (onRows (h.context e _))

theorem activeEventCtx : preserves (OnRows R) (activeEventCtx actor fails) := by
  refine h.bind (preserves_get fun s => h.refl s.rows) fun s => ?_
  cases s.activeEventId with
  | none => exact h.pure _
  | some e =>
    refine h.bind (h.requireContext e) fun found => ?_
    cases found with
    | ok event => exact h.pure _
    | error x => exact h.bind (h.setActive none) fun _ => h.pure _

theorem createEvent (input : CreateEventInput) (draw : EventDraw) :
    preserves (OnRows R) (createEvent actor fails input draw) :=
  h.bind (onRows (h.create input draw _)) fun _ => h.bind (h.setActive _) fun _ => h.pure _

theorem updateEvent (input : UpdateEventInput) :
    preserves (OnRows R) (updateEvent actor fails input) := by
  refine h.bind h.activeEventCtx fun ctx => ?_
  cases ctx with
  | none => exact h.pure _
  | some ctx => exact h.bind (onRows (h.update ctx input _)) fun _ => h.pure _

theorem switchEvent (e : Option ℕ) : preserves (OnRows R) (switchEvent rules actor fails e) := by
  unfold AgentSessions.switchEvent
  cases e with
  | none => exact h.pure _
  | some e =>
    refine h.bind (h.requireContext e) fun found => ?_
    cases found with
    | error x => exact h.pure _
    | ok event => exact h.bind (h.setActive _) fun _ => h.bind h.listMyEvents fun _ => h.pure _

/-- A tool of the session has an outcome of its own. -/
theorem sessionTool (call : SessionCall) (tool : SessionTool) (s : SessionState) :
    ends (sessionTool rules actor call tool) (fun o t => IsOwn o ∧ R s.rows t.rows)
      (fun _ t => R s.rows t.rows) s := by
  have hown : ∀ {α : Type} {p : SessionRoutine α} {f : α → SessionOutcome} {t : SessionState},
      preserves (OnRows R) p → (∀ a, IsOwn (f a)) → R s.rows t.rows →
      ends (f <$> p) (fun o t => IsOwn o ∧ R s.rows t.rows) (fun _ t => R s.rows t.rows) t :=
    fun hp hf ht => ends_map <| ends_mono (hp _) (fun a _ hu => ⟨hf a, h.trans ht hu⟩)
      fun _ _ hu => h.trans ht hu
  have hs := h.refl s.rows
  cases tool with
  | createEvent =>
    rw [AgentSessions.sessionTool]
    split_ifs
    · exact ⟨trivial, hs⟩
    · exact hown (h.createEvent _ _) (fun _ => trivial) hs
  | updateEvent => exact hown (h.updateEvent _) (fun _ => trivial) hs
  | switchEvent => exact hown (h.switchEvent _) (fun _ => trivial) hs
  | listMyEvents => exact hown h.listMyEvents (fun _ => trivial) hs
  | getActiveEvent =>
    refine ends_bind <| ends_mono (h.activeEventCtx s) (fun ctx t ht => ?_) fun _ _ ht => ht
    cases ctx with
    | none => exact hown h.listMyEvents (fun _ => trivial) ht
    | some ctx => exact ⟨trivial, ht⟩
  | getBudgetRecommendation =>
    rw [AgentSessions.sessionTool]
    split_ifs
    · exact ⟨trivial, hs⟩
    · exact hown (preserves_fromExcept (fun s => h.refl s.rows) _) (fun _ => trivial) hs

/-- What the session's own tools keep, and what the tools of an event come to. -/
theorem dispatchSession {call : SessionCall} {s : SessionState}
    {Q : SessionOutcome → SessionState → Prop} {E : Refusal → SessionState → Prop}
    (hown : ∀ o t, IsOwn o → R s.rows t.rows → Q o t)
    (htool : ∀ ctx t, R s.rows t.rows →
      ends (SessionOutcome.tool <$> AgentSessions.onRows (dispatch rules.toTurnRules (call.under ctx)))
        Q E t) : ends (dispatchSession rules actor call) Q E s := by
  refine ends_asyncTry ?_
  have hfailed : ∀ e t, R s.rows t.rows → Q (.failed e) t := fun e t => hown _ t trivial
  unfold sessionBranch
  cases sessionTools.lookup call.name with
  | some tool =>
    exact ends_map <| ends_mono (h.sessionTool call tool s) (fun o t ho => hown o t ho.1 ho.2)
      fun e t => hfailed e t
  | none =>
    refine ends_bind <| ends_mono (h.activeEventCtx s) (fun ctx t ht => ?_) fun e t => hfailed e t
    cases ctx with
    | none =>
      exact ends_map <| ends_mono (h.listMyEvents t)
        (fun _ u hu => hown _ u trivial (h.trans ht hu)) fun e u hu => hfailed e u (h.trans ht hu)
    | some ctx => exact htool ctx t ht

end Keeps
end keeping

/-- One of the capture's tools, whose pipeline raises something: it refuses, or the database does. -/
def WriteFails (rules : TurnRules) (call : TurnCall) (s : Rows) : Prop :=
  ∃ tool, tools.lookup call.name = some tool ∧ tool.returned = true ∧
    Rejects (runTool rules call tool) s

/-- A tool of the event that is active, and a write that fails there. -/
def SessionWriteFails (rules : SessionRules) (actor : Actor) (call : SessionCall)
    (s : SessionState) : Prop :=
  sessionTools.lookup call.name = none ∧ ∃ ctx s',
    activeEventCtx actor call.draw.fails s = (.ok (some ctx), s') ∧
      WriteFails rules.toTurnRules (call.under ctx) s'.rows

section rejecting
variable {α β : Type} {σ ε : Type}

theorem value_map_ne {p : Routine σ ε α} {f : α → Returned σ ε β} (hf : ∀ a, ∃ b, f a = .value b)
    {q : Routine σ ε β} {s s' : σ} : (f <$> p) s ≠ (.ok (.promise q), s') := by
  intro h
  rcases hp : p s with ⟨e | a, t⟩
  · rw [map_of_error hp] at h
    cases h
  · obtain ⟨b, hb⟩ := hf a
    rw [map_of_ok hp, hb] at h
    cases h

theorem rejects_dispatch {rules : TurnRules} {call : TurnCall} {s : Rows} :
    Rejects (dispatch rules call) s ↔ WriteFails rules call s := by
  refine rejects_asyncTry.trans ?_
  unfold WriteFails branch
  cases htool : tools.lookup call.name with
  | none =>
    constructor
    · rintro ⟨_, _, h, _⟩
      cases h
    · rintro ⟨_, h, _⟩
      cases h
  | some tool =>
    dsimp only
    split_ifs with hreturned
    · constructor
      · rintro ⟨_, _, h, hp⟩
        cases h
        exact ⟨tool, rfl, hreturned, hp⟩
      · rintro ⟨_, h, _, hp⟩
        cases h
        exact ⟨_, _, rfl, hp⟩
    · constructor
      · rintro ⟨_, _, h, _⟩
        exact absurd h (value_map_ne fun a => ⟨a, rfl⟩)
      · rintro ⟨_, h, hr, _⟩
        cases h
        exact absurd hr hreturned

theorem rejects_dispatchSession {rules : SessionRules} {actor : Actor} {call : SessionCall}
    {s : SessionState} :
    Rejects (dispatchSession rules actor call) s ↔ SessionWriteFails rules actor call s := by
  refine rejects_asyncTry.trans ?_
  unfold SessionWriteFails sessionBranch
  cases htool : sessionTools.lookup call.name with
  | some tool =>
    constructor
    · rintro ⟨_, _, h, _⟩
      exact absurd h (value_map_ne fun a => ⟨a, rfl⟩)
    · rintro ⟨h, _⟩
      cases h
  | none =>
    dsimp only
    rcases hctx : activeEventCtx actor call.draw.fails s with ⟨e | found, t⟩
    · rw [bind_of_error hctx]
      constructor
      · rintro ⟨_, _, h, _⟩
        cases h
      · rintro ⟨_, _, _, h, _⟩
        cases h
    · rw [bind_of_ok hctx]
      cases found with
      | none =>
        constructor
        · rintro ⟨_, _, h, _⟩
          exact absurd h (value_map_ne fun a => ⟨_, rfl⟩)
        · rintro ⟨_, _, _, h, _⟩
          cases h
      | some ctx =>
        have hcall : Rejects (SessionOutcome.tool <$> onRows
            (dispatch rules.toTurnRules (call.under ctx))) t ↔
            WriteFails rules.toTurnRules (call.under ctx) t.rows :=
          rejects_map.trans (rejects_on.trans rejects_dispatch)
        constructor
        · rintro ⟨_, _, h, hp⟩
          cases h
          exact ⟨rfl, ctx, t, rfl, hcall.mp hp⟩
        · rintro ⟨_, _, _, h, hp⟩
          cases h
          exact ⟨_, _, rfl, hcall.mpr hp⟩

end rejecting

def sessionRules : SessionRules where
  toTurnRules := StagedTurns.plainRules
  parseDate _ := none
  joinedAt _ := 0
  recommend _ := .ok ""

/-- User 9 may look at event 7. -/
def viewed : SessionState where
  rows :=
    let db : LedgerDb := { LedgerDb.empty with
      events := LedgerDb.empty.events.insertNew
        { id := 7, ownerUserId := 1, slug := "wedding", name := "Wedding", createdAt := 0 }
      members := LedgerDb.empty.members.insertNew ⟨7, 9, .viewer, .active, none⟩ }
    { stored := db, working := db, apart := BillingState.BillingDb.empty }
  activeEventId := some 7

def viewer : Actor := ⟨9, true⟩

def addition : SessionCall :=
  ⟨"add_person", [("displayName", .text "Amina")], { toTurnDraw := StagedTurns.turnDraw }⟩

def additionThere : TurnCall := addition.under ⟨viewer, ⟨7, .viewer, .active⟩⟩

end Akabbo.AgentSessions
