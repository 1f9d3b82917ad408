import Akabbo.CallRuns
import Akabbo.EventWrites

/-!
# The ceiling of active events

How many of a user's events are DRAFT, ACTIVE or PAUSED, over calls that create events and calls
that move them between statuses.
-/
namespace Akabbo.EventCeiling
open Access RowTable StatementProgram LedgerState LedgerWrites EventWrites CallRuns
open StatementProgram.Program

inductive EventCall
  | createEvent (actor : Actor) (input : CreateEventInput) (draw : EventDraw)
  | setStatus (ctx : OperationContext) (status : EventStatus)
  deriving DecidableEq, Repr

/-- What `maxActiveEvents` returns for each user, as long as no plan changes. -/
abbrev Ceiling := ℕ → Option ℕ

def EventCall.program (ceiling : Ceiling) : EventCall → LedgerProgram EventSummary
  | .createEvent actor input draw =>
      EventWrites.createEvent actor input { draw with maxActiveEvents := ceiling actor.userId }
  | .setStatus ctx status => setEventStatus ctx status

def step (ceiling : Ceiling) (db : LedgerDb) (call : EventCall) : LedgerDb :=
  (run (call.program ceiling) db).2

/-- The events that the ceiling counts. -/
def countsFor (u : ℕ) (event : Event) : Bool := event.ownerUserId == u && isWritable event.status

def activeEvents (u : ℕ) (db : LedgerDb) : ℕ := db.events.rows.countP (countsFor u)

def WithinCeiling (ceiling : Ceiling) (u : ℕ) (db : LedgerDb) : Prop :=
  ∀ max, ceiling u = some max → activeEvents u db ≤ max

/-- The call takes one of the user's CLOSED or ARCHIVED events back among the counted ones. -/
def Reopens (u : ℕ) (db : LedgerDb) : EventCall → Prop
  | .createEvent .. => False
  | .setStatus ctx status =>
      assertPermission ctx.event.role .eventUpdate = none ∧ isWritable status = true ∧
        ∃ event, db.events.get? ctx.event.eventId = some event ∧ event.ownerUserId = u ∧
          isWritable event.status = false

/-- A reopening finds the user below the ceiling. -/
def HasRoom (ceiling : Ceiling) (u : ℕ) (db : LedgerDb) (call : EventCall) : Prop :=
  Reopens u db call → ∀ max, ceiling u = some max → activeEvents u db < max

section steps
variable {ceiling : Ceiling} {u : ℕ} {db c v c' v' : LedgerDb}

theorem exec_assertCanCreateEvent {τ : Type} {userId : ℕ} {limit : Option ℕ}
    {next : Unit → LedgerProgram τ} {x : τ × LedgerDb × LedgerDb}
    (h : (assertCanCreateEvent userId limit >>= next).exec c v = .ok x) :
    (∀ max, limit = some max → activeEvents userId v < max) ∧ (next ()).exec c v = .ok x := by
  cases limit with
  | none => exact ⟨fun _ => nofun, h⟩
  | some max =>
    simp only [assertCanCreateEvent, bind_assoc, exec_query_bind, exec_refuse_bind] at h
    refine ⟨?_, h.2⟩
    rintro _ ⟨⟩
    by_contra hfull
    rw [activeEvents, List.countP_eq_length_filter] at hfull
    have hge : (v.events.rows.filter fun e =>
        e.ownerUserId == userId && isWritable e.status).length ≥ max := not_lt.mp hfull
    rw [if_pos hge] at h
    cases h.1

/-- The event that a call creates. -/
theorem exec_createEvent {actor : Actor} {input : CreateEventInput} {draw : EventDraw}
    {r : EventSummary} (h : (EventWrites.createEvent actor input draw).exec c v = .ok (r, c', v')) :
    (∀ max, draw.maxActiveEvents = some max → activeEvents actor.userId v < max) ∧
      ∃ event : Event, event.ownerUserId = actor.userId ∧ event.status = .active ∧
        v.events.has event.id = false ∧ v'.events = v.events.insertNew event := by
  obtain ⟨hroom, h⟩ := exec_assertCanCreateEvent h
  refine ⟨hroom, ?_⟩
  simp only [insertEvent, insertMember, change, exec_accepted_bind] at h
  obtain ⟨hevent, -, h⟩ := h
  have hfresh : v.events.has draw.rowId = false := by
    split_ifs at hevent with hhas
    simpa using hhas
  cases h
  exact ⟨_, rfl, rfl, hfresh, rfl⟩

theorem activeEvents_insert {event : Event} (hfresh : v.events.has event.id = false)
    (hevents : v'.events = v.events.insertNew event) :
    activeEvents u v' = activeEvents u v + if countsFor u event then 1 else 0 := by
  unfold activeEvents
  rw [hevents, Table.insertNew_rows hfresh, List.countP_append, List.countP_singleton]

theorem commitFree_createEvent (actor : Actor) (input : CreateEventInput) (draw : EventDraw) :
    (EventWrites.createEvent actor input draw).CommitFree := by
  refine commitFree_of_writes (R := fun _ _ => True) (writes_bind ?_ fun _ => ?_)
  · unfold assertCanCreateEvent
    cases draw.maxActiveEvents with
    | none => trivial
    | some max => exact writes_bind (writes_query _) fun _ => writes_refuse _
  · exact writes_bind (writes_modifyChecked (fun _ => trivial) _ fun _ _ _ => trivial) fun _ =>
      writes_bind (writes_modifyChecked (fun _ => trivial) _ fun _ _ _ => trivial) fun _ =>
      writes_bind (writes_modify _ fun _ => trivial) fun _ => trivial

/-- Creating keeps the ceiling of every user. -/
theorem withinCeiling_createEvent {actor : Actor} {input : CreateEventInput} {draw : EventDraw}
    (h : WithinCeiling ceiling u db) :
    WithinCeiling ceiling u (step ceiling db (.createEvent actor input draw)) := by
  intro max hmax
  rcases run_cases (commitFree_createEvent actor input
    { draw with maxActiveEvents := ceiling actor.userId }) db with
    ⟨r, db', hexec, hrun⟩ | ⟨e, hrun⟩
  · obtain ⟨hroom, event, howner, -, hfresh, hevents⟩ := exec_createEvent hexec
    rw [step, EventCall.program, hrun, activeEvents_insert hfresh hevents]
    have hbefore := h max hmax
    split_ifs with hcounts
    · have hu : actor.userId = u := by
        simp only [countsFor, howner, Bool.and_eq_true, beq_iff_eq] at hcounts
        exact hcounts.1
      have hbelow := hroom max (by rw [hu]; exact hmax)
      rw [hu] at hbelow
      omega
    · omega
  · rw [step, EventCall.program, hrun]
    exact h max hmax

theorem status_id (status : EventStatus) (event : Event) :
    ({ event with status } : Event).id = event.id := rfl

theorem events_setStatus (ctx : OperationContext) (status : EventStatus) (db : LedgerDb) :
    (step ceiling db (.setStatus ctx status)).events =
      if assertPermission ctx.event.role .eventUpdate = none then
        db.events.update (fun event => event.id == ctx.event.eventId)
          (fun event => { event with status }) (status_id status)
      else db.events := by
  change (run (setEventStatus ctx status) db).2.events = _
  unfold setEventStatus
  cases hperm : assertPermission ctx.event.role .eventUpdate with
  | some e => simp [run, exec_bind, refuse]
  | none =>
    rw [if_pos rfl]
    cases hrow : db.events.get? ctx.event.eventId with
    | none =>
      have hnobody : ∀ event ∈ db.events, ¬ (event.id == ctx.event.eventId) = true := by
        intro event hevent hid
        exact Table.has_eq_false_iff.mp (Table.get?_eq_none.mp hrow) event hevent (by simpa using hid)
      rw [Table.update_eq_self hnobody]
      simp [run, exec_bind, refuse, exec, orThrow, hrow]
    | some event =>
      simp only [run, exec_bind, refuse, exec, exec_query, orThrow, hrow, updateEventRow,
        exec_modifyChecked, exec_commitNow]
      rfl

/-- One event's new status moves the count by that event alone. -/
theorem activeEvents_setStatus (ceiling : Ceiling) (u : ℕ) {ctx : OperationContext}
    (status : EventStatus) {event : Event} (hperm : assertPermission ctx.event.role .eventUpdate = none)
    (hrow : db.events.get? ctx.event.eventId = some event) :
    activeEvents u (step ceiling db (.setStatus ctx status)) +
        (if countsFor u event then 1 else 0) =
      activeEvents u db + if countsFor u { event with status } then 1 else 0 := by
  have hkey := Table.get?_key hrow
  have hmove := Table.countP_update_key (Table.get?_mem hrow) (countsFor u) (status_id status)
  unfold activeEvents
  rw [events_setStatus, if_pos hperm, ← hkey]
  exact hmove

/-- A status change that does not go through leaves the count. -/
theorem activeEvents_refused {ctx : OperationContext} {status : EventStatus}
    (h : assertPermission ctx.event.role .eventUpdate = none →
      db.events.get? ctx.event.eventId = none) :
    activeEvents u (step ceiling db (.setStatus ctx status)) = activeEvents u db := by
  unfold activeEvents
  rw [events_setStatus]
  split_ifs with hperm
  · rw [Table.update_eq_self]
    intro event hevent hid
    exact Table.has_eq_false_iff.mp (Table.get?_eq_none.mp (h hperm)) event hevent (by simpa using hid)
  · rfl

/-- What one call must meet, for a user within the ceiling to stay there. -/
theorem hasRoom_iff {call : EventCall} (h : WithinCeiling ceiling u db) :
    HasRoom ceiling u db call ↔ True ∧ WithinCeiling ceiling u (step ceiling db call) := by
  rw [true_and]
  cases call with
  | createEvent actor input draw => exact iff_of_true nofun (withinCeiling_createEvent h)
  | setStatus ctx status =>
    by_cases hgoes : assertPermission ctx.event.role .eventUpdate = none ∧
        ∃ event, db.events.get? ctx.event.eventId = some event
    · obtain ⟨hperm, event, hrow⟩ := hgoes
      have hmove := activeEvents_setStatus ceiling u status hperm hrow
      have hreopens : Reopens u db (.setStatus ctx status) ↔
          countsFor u event = false ∧ countsFor u { event with status } = true := by
        simp only [Reopens, hperm, hrow, countsFor, true_and, Option.some.injEq, exists_eq_left',
          Bool.and_eq_false_iff, Bool.and_eq_true, beq_iff_eq, beq_eq_false_iff_ne]
        constructor
        · rintro ⟨hwritable, howner, hclosed⟩
          exact ⟨.inr hclosed, howner, hwritable⟩
        · rintro ⟨hnot, howner, hwritable⟩
          exact ⟨hwritable, howner, hnot.resolve_left fun hne => hne howner⟩
      constructor
      · intro hroom max hmax
        have hbefore := h max hmax
        by_cases hre : Reopens u db (.setStatus ctx status)
        · have hbelow := hroom hre max hmax
          rw [hreopens] at hre
          rw [hre.1, hre.2] at hmove
          simp only [Bool.false_eq_true, if_false, if_true] at hmove
          omega
        · rw [hreopens, not_and] at hre
          cases hcounted : countsFor u event with
          | true =>
            rw [hcounted, if_pos rfl] at hmove
            split_ifs at hmove <;> omega
          | false =>
            rw [hcounted, if_neg (hre hcounted)] at hmove
            simp only [Bool.false_eq_true, if_false] at hmove
            omega
      · intro hafter hre max hmax
        have hwithin := hafter max hmax
        rw [hreopens] at hre
        rw [hre.1, hre.2] at hmove
        simp only [Bool.false_eq_true, if_false, if_true] at hmove
        omega
    · have hsame : activeEvents u (step ceiling db (.setStatus ctx status)) = activeEvents u db := by
        refine activeEvents_refused fun hperm => ?_
        rw [Option.eq_none_iff_forall_ne_some]
        exact fun event hrow => hgoes ⟨hperm, event, hrow⟩
      refine iff_of_true ?_ fun max hmax => ?_
      · rintro ⟨hperm, -, event, hrow, -⟩
        exact absurd ⟨hperm, event, hrow⟩ hgoes
      · rw [hsame]
        exact h max hmax

end steps

/-- A user within the ceiling stays there throughout a run exactly when every reopening of a closed
or archived event of theirs finds them below it. -/
theorem within_ceiling_throughout_iff (ceiling : Ceiling) (u : ℕ) (db : LedgerDb)
    (calls : List EventCall) (h : WithinCeiling ceiling u db) :
    throughout (step ceiling) (WithinCeiling ceiling u) (fun _ _ => True) db calls ↔
      everyCall (step ceiling) (HasRoom ceiling u) db calls :=
  throughout_iff (s := db) (fun _ _ hs => hasRoom_iff hs) h

def newcomer : LedgerDb :=
  { LedgerDb.empty with users := Table.empty.insertNew ⟨1, none⟩ }

def drawn (id : ℕ) (slug : String) : EventDraw := ⟨0, id, 0, slug, { allowed := true }, none⟩

def ownerOf (id : ℕ) (status : EventStatus) : OperationContext := ⟨⟨1, true⟩, ⟨id, .owner, status⟩⟩

/-- Close the first event, create a second, reopen the first. -/
def farming : List EventCall :=
  [.createEvent ⟨1, true⟩ { name := "First" } (drawn 7 "first"),
    .setStatus (ownerOf 7 .active) .closed,
    .createEvent ⟨1, true⟩ { name := "Second" } (drawn 8 "second"),
    .setStatus (ownerOf 7 .closed) .active]

def freeCeiling : Ceiling := fun _ => some 1

theorem withinCeiling_newcomer : WithinCeiling freeCeiling 1 newcomer := fun _ _ => Nat.zero_le _

set_option maxRecDepth 4000 in
theorem reopening_exceeds_ceiling :
    ¬ ∀ (ceiling : Ceiling) (u : ℕ) (db : LedgerDb) (calls : List EventCall),
      WithinCeiling ceiling u db →
        throughout (step ceiling) (WithinCeiling ceiling u) (fun _ _ => True) db calls := by
  intro h
  have hlast := (h freeCeiling 1 newcomer farming withinCeiling_newcomer).2.2.2.2.2.2.2.2 1 rfl
  exact absurd hlast (by decide)

set_option maxRecDepth 4000 in
theorem within_ceiling_throughout_iff_closed :
    throughout (step freeCeiling) (WithinCeiling freeCeiling 1) (fun _ _ => True) newcomer
      (farming.take 3) :=
  (within_ceiling_throughout_iff freeCeiling 1 newcomer (farming.take 3)
    withinCeiling_newcomer).mpr ⟨nofun, fun h => absurd h.2.1 (by decide), nofun, trivial⟩

end Akabbo.EventCeiling
