import Akabbo.CallRuns
import Akabbo.LedgerState
import Akabbo.WorkClaims

/-!
# Draining the outbox

Workers claim the rows that wait, hand each to the handler of its topic, and open a row again
whose handler threw. Claiming, handling and opening again are steps of their own, in any order
among the workers, and a worker may crash between any two.
-/
namespace Akabbo.OutboxDrain
open RowTable LedgerState CallRuns WorkClaims

inductive OutboxStatus
  | pending | processed | failed
  deriving DecidableEq, Repr

/-- A row of the outbox with what the drain keeps about it. -/
structure OutboxEntry where
  id : ℕ
  row : OutboxRow
  status : OutboxStatus := .pending
  attempts : ℕ := 0
  createdAt : ℕ
  processedAt : Option ℕ := none
  deriving DecidableEq, Repr

/-- A row as the drain hands it to a handler. -/
structure OutboxMessage where
  id : ℕ
  eventId : ℕ
  topic : String
  payload : List (String × Json)
  deriving DecidableEq, Repr

def OutboxEntry.message (e : OutboxEntry) : OutboxMessage :=
  ⟨e.id, e.row.eventId, e.row.topic, e.row.payload⟩

/-- Where a worker is in `drainOnce`. -/
inductive Phase
  | idle
  | selected (rows : List OutboxMessage)
  | dispatching (rest : List OutboxMessage)
  | handling (msg : OutboxMessage) (rest : List OutboxMessage)
  | reopening (msg : OutboxMessage) (rest : List OutboxMessage)
  deriving DecidableEq, Repr

/-- The rows it has locked to mark them. -/
def Phase.locked : Phase → List OutboxMessage
  | .selected rows => rows
  | _ => []

/-- The rows it has marked, and whose handlers have not returned. -/
def Phase.unfinished : Phase → List OutboxMessage
  | .dispatching rest => rest
  | .handling msg rest => msg :: rest
  | .reopening msg rest => msg :: rest
  | _ => []

/-- The outbox, its row locks, the workers, and the rows whose handler has returned. -/
structure DrainState where
  outbox : Table ℕ OutboxEntry OutboxEntry.id
  locks : List ℕ
  workers : ℕ → Phase
  returned : List ℕ

inductive DrainStep
  | enqueue (id : ℕ) (row : OutboxRow) (createdAt : ℕ)
  | select (worker : ℕ)
  | mark (worker now : ℕ)
  | next (worker : ℕ)
  | handlerReturns (worker : ℕ)
  | handlerThrows (worker : ℕ)
  | reopen (worker : ℕ)
  | crash (worker : ℕ)
  deriving DecidableEq, Repr

/-- How many rows a drain claims at most; no caller asks for another number. -/
def batchSize : ℕ := 20

/-- A row that waits and that nobody has locked: `FOR UPDATE SKIP LOCKED`. -/
def DrainState.free (s : DrainState) (e : OutboxEntry) : Bool :=
  e.status == .pending && decide (e.id ∉ s.locks)

/-- The free rows, the oldest first. -/
def DrainState.queue (s : DrainState) : List OutboxEntry :=
  (s.outbox.rows.filter s.free).insertionSort fun a b => a.createdAt ≤ b.createdAt

def batch (s : DrainState) : List OutboxMessage :=
  (s.queue.take batchSize).map OutboxEntry.message

def DrainState.goTo (s : DrainState) (worker : ℕ) (phase : Phase) : DrainState :=
  { s with workers := Function.update s.workers worker phase }

@[simp] theorem workers_goTo_self (s : DrainState) (w : ℕ) (phase : Phase) :
    (s.goTo w phase).workers w = phase := Function.update_self ..

theorem workers_goTo_of_ne {s : DrainState} {w w' : ℕ} {phase : Phase} (h : w' ≠ w) :
    (s.goTo w phase).workers w' = s.workers w' := Function.update_of_ne h ..

def unlock (s : DrainState) (rows : List OutboxMessage) : List ℕ :=
  s.locks.filter fun i => decide (i ∉ rows.map OutboxMessage.id)

/-- A key that is there already is swallowed. -/
def enqueue (s : DrainState) (id : ℕ) (row : OutboxRow) (createdAt : ℕ) : DrainState :=
  if s.outbox.rows.any fun e => e.row.idempotencyKey == row.idempotencyKey then s
  else { s with outbox := s.outbox.insertNew { id, row, createdAt } }

def markProcessed (s : DrainState) (rows : List OutboxMessage) (now : ℕ) :
    Table ℕ OutboxEntry OutboxEntry.id :=
  s.outbox.update (fun e => decide (e.id ∈ rows.map OutboxMessage.id))
    (fun e => { e with status := .processed, processedAt := some now }) fun _ => rfl

def reopened (s : DrainState) (id : ℕ) : Table ℕ OutboxEntry OutboxEntry.id :=
  s.outbox.update (fun e => e.id == id)
    (fun e => { e with status := .pending, attempts := e.attempts + 1 }) fun _ => rfl

/-- One step, for the topics that have a handler. A drain that fails outside a handler is
abandoned, as in a crash; so is one that finds its row gone. -/
def step (registered : String → Bool) (s : DrainState) : DrainStep → DrainState
  | .enqueue id row createdAt => enqueue s id row createdAt
  | .select w =>
    match s.workers w with
    | .idle =>
      { s.goTo w (.selected (batch s)) with
        locks := s.locks ++ (batch s).map OutboxMessage.id }
    | _ => s
  | .mark w now =>
    match s.workers w with
    | .selected rows =>
      { s.goTo w (.dispatching rows) with
        outbox := markProcessed s rows now, locks := unlock s rows }
    | _ => s
  | .next w =>
    match s.workers w with
    | .dispatching [] => s.goTo w .idle
    | .dispatching (msg :: rest) =>
      if registered msg.topic then s.goTo w (.handling msg rest) else s.goTo w (.dispatching rest)
    | _ => s
  | .handlerReturns w =>
    match s.workers w with
    | .handling msg rest =>
      { s.goTo w (.dispatching rest) with returned := msg.id :: s.returned }
    | _ => s
  | .handlerThrows w =>
    match s.workers w with
    | .handling msg rest => s.goTo w (.reopening msg rest)
    | _ => s
  | .reopen w =>
    match s.workers w with
    | .reopening msg rest =>
      if s.outbox.has msg.id then { s.goTo w (.dispatching rest) with outbox := reopened s msg.id }
      else s.goTo w .idle
    | _ => s
  | .crash w => { s.goTo w .idle with locks := unlock s (s.workers w).locked }

section loss
variable (registered : String → Bool)

/-- Every row with a handler waits, or is in the hands of a worker that will handle it or open it
again, or its handler has returned. -/
def NotLost (s : DrainState) : Prop :=
  ∀ e ∈ s.outbox, registered e.row.topic = true →
    e.status = .pending ∨ e.id ∈ s.returned ∨ ∃ w, e.message ∈ (s.workers w).unfinished

/-- No row is being handled by two workers. -/
def HandledByOne (s : DrainState) : Prop :=
  ∀ w w' msg msg' rest rest', s.workers w = .handling msg rest →
    s.workers w' = .handling msg' rest' → msg.id = msg'.id → w = w'

/-- Whoever crashes has no row left that it has marked and not handled. -/
def CrashesWithout (s : DrainState) : DrainStep → Prop
  | .crash w => ∀ msg ∈ (s.workers w).unfinished, registered msg.topic = false
  | _ => True

end loss

def Phase.held (phase : Phase) : List ℕ := (phase.locked ++ phase.unfinished).map OutboxMessage.id

structure Coherent (s : DrainState) : Prop where
  exclusive : Exclusive (Phase.held ∘ s.workers)
  locks : ∀ w, ∀ msg ∈ (s.workers w).locked, msg.id ∈ s.locks
  waiting : ∀ w, ∀ msg ∈ (s.workers w).locked,
    ∃ e ∈ s.outbox, e.message = msg ∧ e.status = .pending
  marked : ∀ w, ∀ msg ∈ (s.workers w).unfinished,
    ∃ e ∈ s.outbox, e.message = msg ∧ e.status = .processed
  returned : ∀ i ∈ s.returned, (∃ e ∈ s.outbox, e.id = i ∧ e.status = .processed) ∧
    ∀ w, i ∉ (s.workers w).held

section coherence
variable {registered : String → Bool} {s : DrainState} {w : ℕ}

theorem held_of_locked {phase : Phase} {msg : OutboxMessage} (h : msg ∈ phase.locked) :
    msg.id ∈ phase.held := List.mem_map_of_mem (List.mem_append_left _ h)

theorem held_of_unfinished {phase : Phase} {msg : OutboxMessage} (h : msg ∈ phase.unfinished) :
    msg.id ∈ phase.held := List.mem_map_of_mem (List.mem_append_right _ h)

/-- A worker goes on with some of the rows that it holds. -/
theorem Coherent.goTo (h : Coherent s) {phase : Phase}
    (hheld : phase.held.Sublist (s.workers w).held)
    (hlocked : ∀ msg ∈ phase.locked, msg ∈ (s.workers w).locked)
    (hunfinished : ∀ msg ∈ phase.unfinished, msg ∈ (s.workers w).unfinished) :
    Coherent (s.goTo w phase) where
  exclusive := by
    unfold DrainState.goTo
    rw [Function.comp_update]
    exact h.exclusive.narrow hheld
  locks := (Function.forall_update_iff s.workers fun _ phase =>
      ∀ msg ∈ phase.locked, msg.id ∈ s.locks).mpr
    ⟨fun msg hmsg => h.locks w msg (hlocked msg hmsg), fun w' _ => h.locks w'⟩
  waiting := (Function.forall_update_iff s.workers fun _ phase => ∀ msg ∈ phase.locked,
      ∃ e ∈ s.outbox, e.message = msg ∧ e.status = .pending).mpr
    ⟨fun msg hmsg => h.waiting w msg (hlocked msg hmsg), fun w' _ => h.waiting w'⟩
  marked := (Function.forall_update_iff s.workers fun _ phase => ∀ msg ∈ phase.unfinished,
      ∃ e ∈ s.outbox, e.message = msg ∧ e.status = .processed).mpr
    ⟨fun msg hmsg => h.marked w msg (hunfinished msg hmsg), fun w' _ => h.marked w'⟩
  returned i hi := by
    obtain ⟨hprocessed, hfree⟩ := h.returned i hi
    exact ⟨hprocessed, (Function.forall_update_iff s.workers fun _ phase => i ∉ phase.held).mpr
      ⟨fun hmem => hfree w (hheld.subset hmem), fun w' _ => hfree w'⟩⟩

/-- The locks that a worker gives back are nobody else's. -/
theorem locks_unlock (h : Coherent s) {w' : ℕ} (hne : w' ≠ w) {msg : OutboxMessage}
    (hmsg : msg ∈ (s.workers w').locked) : msg.id ∈ unlock s (s.workers w).locked := by
  refine List.mem_filter.mpr ⟨h.locks w' msg hmsg, decide_eq_true fun hmem => hne ?_⟩
  obtain ⟨msg', hmsg', hid⟩ := List.mem_map.mp hmem
  exact h.exclusive.holder w' w msg.id (held_of_locked hmsg) (hid ▸ held_of_locked hmsg')

theorem coherent_crash (h : Coherent s) :
    Coherent { s.goTo w .idle with locks := unlock s (s.workers w).locked } := by
  have hidle : Coherent (s.goTo w .idle) :=
    h.goTo (List.nil_sublist _) (fun _ hmsg => nomatch hmsg) fun _ hmsg => nomatch hmsg
  exact { hidle with
    locks := (Function.forall_update_iff s.workers fun _ phase =>
        ∀ msg ∈ phase.locked, msg.id ∈ unlock s (s.workers w).locked).mpr
      ⟨fun _ hmsg => (nomatch hmsg), fun w' hne msg hmsg => locks_unlock h hne hmsg⟩ }

theorem mem_markProcessed_of_mem {rows : List OutboxMessage} {now : ℕ} {e : OutboxEntry}
    (he : e ∈ s.outbox) (hid : e.id ∈ rows.map OutboxMessage.id) :
    { e with status := .processed, processedAt := some now } ∈ markProcessed s rows now :=
  Table.mem_update.mpr ⟨e, he, (if_pos (decide_eq_true hid)).symm⟩

theorem mem_markProcessed_of_not_mem {rows : List OutboxMessage} {now : ℕ} {e : OutboxEntry}
    (he : e ∈ s.outbox) (hid : e.id ∉ rows.map OutboxMessage.id) :
    e ∈ markProcessed s rows now :=
  Table.mem_update.mpr ⟨e, he, (if_neg (decide_eq_true_iff.not.mpr hid)).symm⟩

theorem mem_markProcessed_cases {rows : List OutboxMessage} {now : ℕ} {e' : OutboxEntry}
    (h : e' ∈ markProcessed s rows now) : ∃ e ∈ s.outbox,
      e.id ∈ rows.map OutboxMessage.id ∧ e'.message = e.message ∨
        e.id ∉ rows.map OutboxMessage.id ∧ e' = e := by
  obtain ⟨e, he, rfl⟩ := Table.mem_update.mp h
  refine ⟨e, he, ?_⟩
  by_cases hid : e.id ∈ rows.map OutboxMessage.id
  · rw [if_pos (decide_eq_true hid)]
    exact .inl ⟨hid, rfl⟩
  · rw [if_neg (decide_eq_true_iff.not.mpr hid)]
    exact .inr ⟨hid, rfl⟩

theorem mem_reopened_cases {i : ℕ} {e' : OutboxEntry} (h : e' ∈ reopened s i) :
    e'.status = .pending ∨ e' ∈ s.outbox ∧ e'.id ≠ i := by
  obtain ⟨e, he, rfl⟩ := Table.mem_update.mp h
  by_cases hid : e.id = i
  · rw [if_pos (by simpa using hid)]
    exact .inl rfl
  · rw [if_neg (by simpa using hid)]
    exact .inr ⟨he, hid⟩

/-- A processed row stays one. -/
theorem processed_markProcessed {rows : List OutboxMessage} {now : ℕ} {e : OutboxEntry}
    (he : e ∈ s.outbox) (hstatus : e.status = .processed) :
    ∃ e' ∈ markProcessed s rows now, e'.message = e.message ∧ e'.status = .processed := by
  by_cases hid : e.id ∈ rows.map OutboxMessage.id
  · exact ⟨_, mem_markProcessed_of_mem he hid, rfl, rfl⟩
  · exact ⟨e, mem_markProcessed_of_not_mem he hid, rfl, hstatus⟩

theorem mem_reopened_of_ne {i : ℕ} {e : OutboxEntry} (he : e ∈ s.outbox) (hid : e.id ≠ i) :
    e ∈ reopened s i :=
  Table.mem_update.mpr ⟨e, he, (if_neg (by simpa using hid)).symm⟩

theorem not_held_twice (h : Coherent s) {w' : ℕ} {msg msg' : OutboxMessage}
    (hmsg : msg.id ∈ (s.workers w).held) (hmsg' : msg'.id ∈ (s.workers w').held) (hne : w' ≠ w) :
    msg'.id ≠ msg.id :=
  fun hid => hne (h.exclusive.holder w' w msg'.id hmsg' (hid ▸ hmsg))

theorem coherent_enqueue (h : Coherent s) {id : ℕ} {row : OutboxRow} {createdAt : ℕ} :
    Coherent (enqueue s id row createdAt) := by
  unfold enqueue
  split_ifs
  · exact h
  · have hmem {e : OutboxEntry} (he : e ∈ s.outbox) :
        e ∈ s.outbox.insertNew { id, row, createdAt } := Table.mem_insertNew_of_mem he
    refine { h with waiting := fun w msg hmsg => ?_, marked := fun w msg hmsg => ?_, returned := fun i hi => ?_ }
    · obtain ⟨e, he, hrest⟩ := h.waiting w msg hmsg
      exact ⟨e, hmem he, hrest⟩
    · obtain ⟨e, he, hrest⟩ := h.marked w msg hmsg
      exact ⟨e, hmem he, hrest⟩
    · obtain ⟨⟨e, he, hrest⟩, hfree⟩ := h.returned i hi
      exact ⟨⟨e, hmem he, hrest⟩, hfree⟩

theorem mem_queue {e : OutboxEntry} : e ∈ s.queue ↔ e ∈ s.outbox ∧ s.free e = true :=
  (List.mem_insertionSort _).trans List.mem_filter

theorem free_iff {e : OutboxEntry} : s.free e = true ↔ e.status = .pending ∧ e.id ∉ s.locks := by
  simp [DrainState.free]

theorem nodup_queue : (s.queue.map OutboxEntry.id).Nodup :=
  ((List.perm_insertionSort _ _).map OutboxEntry.id).nodup_iff.mpr
    (s.outbox.nodup.sublist (List.filter_sublist.map OutboxEntry.id))

theorem mem_batch {msg : OutboxMessage} (h : msg ∈ batch s) :
    ∃ e ∈ s.outbox, e.message = msg ∧ e.status = .pending ∧ e.id ∉ s.locks := by
  obtain ⟨e, he, rfl⟩ := List.mem_map.mp h
  obtain ⟨hmem, hfree⟩ := mem_queue.mp (List.mem_of_mem_take he)
  exact ⟨e, hmem, rfl, free_iff.mp hfree⟩

theorem batch_nodup : ((batch s).map OutboxMessage.id).Nodup := by
  unfold batch
  rw [List.map_map]
  exact nodup_queue.sublist ((List.take_sublist batchSize _).map OutboxEntry.id)

theorem not_held_of_batch (h : Coherent s) {msg : OutboxMessage} (hmsg : msg ∈ batch s)
    (w : ℕ) : msg.id ∉ (s.workers w).held := by
  obtain ⟨e, he, rfl, hpending, hfree⟩ := mem_batch hmsg
  intro hheld
  obtain ⟨msg', hmsg', hid⟩ := List.mem_map.mp hheld
  rcases List.mem_append.mp hmsg' with hlocked | hunfinished
  · have hlock := h.locks w msg' hlocked
    rw [hid] at hlock
    exact hfree hlock
  · obtain ⟨e', he', rfl, hprocessed⟩ := h.marked w msg' hunfinished
    obtain rfl : e' = e := Table.key_inj he' he hid
    rw [hpending] at hprocessed
    cases hprocessed

theorem coherent_select (h : Coherent s) :
    Coherent { s.goTo w (.selected (batch s)) with
      locks := s.locks ++ (batch s).map OutboxMessage.id } where
  exclusive := by
    unfold DrainState.goTo
    dsimp only
    rw [Function.comp_update]
    have hheld : (Phase.selected (batch s)).held = (batch s).map OutboxMessage.id := by
      simp [Phase.held, Phase.locked, Phase.unfinished]
    rw [hheld]
    refine h.exclusive.claim batch_nodup fun i hi w' => ?_
    obtain ⟨msg, hmsg, rfl⟩ := List.mem_map.mp hi
    exact not_held_of_batch h hmsg w'
  locks := (Function.forall_update_iff s.workers fun _ phase => ∀ msg ∈ phase.locked,
      msg.id ∈ s.locks ++ (batch s).map OutboxMessage.id).mpr
    ⟨fun _ hmsg => List.mem_append_right _ (List.mem_map_of_mem hmsg),
      fun w' _ msg hmsg => List.mem_append_left _ (h.locks w' msg hmsg)⟩
  waiting := by
    refine (Function.forall_update_iff s.workers fun _ phase => ∀ msg ∈ phase.locked,
      ∃ e ∈ s.outbox, e.message = msg ∧ e.status = .pending).mpr
      ⟨fun msg hmsg => ?_, fun w' _ => h.waiting w'⟩
    obtain ⟨e, he, hmessage, hpending, -⟩ := mem_batch hmsg
    exact ⟨e, he, hmessage, hpending⟩
  marked := (Function.forall_update_iff s.workers fun _ phase => ∀ msg ∈ phase.unfinished,
      ∃ e ∈ s.outbox, e.message = msg ∧ e.status = .processed).mpr
    ⟨fun _ hmsg => (nomatch hmsg), fun w' _ => h.marked w'⟩
  returned i hi := by
    obtain ⟨⟨e, he, rfl, hprocessed⟩, hfree⟩ := h.returned i hi
    refine ⟨⟨e, he, rfl, hprocessed⟩, (Function.forall_update_iff s.workers fun _ phase =>
      e.id ∉ phase.held).mpr ⟨fun hmem => ?_, fun w' _ => hfree w'⟩⟩
    obtain ⟨msg, hmsg, hid⟩ := List.mem_map.mp hmem
    obtain ⟨e', he', rfl, hpending, -⟩ := mem_batch (by simpa [Phase.locked, Phase.unfinished] using hmsg)
    obtain rfl : e' = e := Table.key_inj he' he hid
    rw [hpending] at hprocessed
    cases hprocessed

theorem coherent_mark (h : Coherent s) {rows : List OutboxMessage} {now : ℕ}
    (hrows : s.workers w = .selected rows) :
    Coherent { s.goTo w (.dispatching rows) with
      outbox := markProcessed s rows now, locks := unlock s rows } where
  exclusive := by
    unfold DrainState.goTo
    dsimp only
    rw [Function.comp_update]
    refine h.exclusive.narrow ?_
    rw [Function.comp_apply, hrows]
    simp [Phase.held, Phase.locked, Phase.unfinished]
  locks := by
    refine (Function.forall_update_iff s.workers fun _ phase => ∀ msg ∈ phase.locked,
      msg.id ∈ unlock s rows).mpr ⟨fun _ hmsg => (nomatch hmsg), fun w' hne msg hmsg => ?_⟩
    have hkept := locks_unlock h hne hmsg
    rw [hrows] at hkept
    exact hkept
  waiting := by
    refine (Function.forall_update_iff s.workers fun _ phase => ∀ msg ∈ phase.locked,
      ∃ e ∈ markProcessed s rows now, e.message = msg ∧ e.status = .pending).mpr
      ⟨fun _ hmsg => (nomatch hmsg), fun w' hne msg hmsg => ?_⟩
    obtain ⟨e, he, rfl, hpending⟩ := h.waiting w' msg hmsg
    refine ⟨e, mem_markProcessed_of_not_mem he fun hid => ?_, rfl, hpending⟩
    obtain ⟨msg', hmsg', hid⟩ := List.mem_map.mp hid
    have hheld : msg'.id ∈ (s.workers w).held := held_of_locked (hrows ▸ hmsg')
    exact not_held_twice h hheld (held_of_locked hmsg) hne hid.symm
  marked := by
    refine (Function.forall_update_iff s.workers fun _ phase => ∀ msg ∈ phase.unfinished,
      ∃ e ∈ markProcessed s rows now, e.message = msg ∧ e.status = .processed).mpr
      ⟨fun msg hmsg => ?_, fun w' _ msg hmsg => ?_⟩
    · have hlocked : msg ∈ (s.workers w).locked := hrows ▸ hmsg
      obtain ⟨e, he, rfl, -⟩ := h.waiting w msg hlocked
      exact ⟨_, mem_markProcessed_of_mem he (List.mem_map_of_mem hmsg), rfl, rfl⟩
    · obtain ⟨e, he, rfl, hprocessed⟩ := h.marked w' msg hmsg
      exact processed_markProcessed he hprocessed
  returned i hi := by
    obtain ⟨⟨e, he, rfl, hprocessed⟩, hfree⟩ := h.returned i hi
    obtain ⟨e', he', hmessage, hprocessed'⟩ : ∃ e' ∈ markProcessed s rows now, _ :=
      processed_markProcessed he hprocessed
    refine ⟨⟨e', he', congrArg OutboxMessage.id hmessage, hprocessed'⟩,
      (Function.forall_update_iff s.workers fun _ phase => e.id ∉ phase.held).mpr
        ⟨fun hmem => hfree w ?_, fun w' _ => hfree w'⟩⟩
    rw [hrows]
    simpa [Phase.held, Phase.locked, Phase.unfinished] using hmem

/-- The handler's row is at the head of what its worker holds. -/
theorem head_held {phase : Phase} {msg : OutboxMessage} {rest : List OutboxMessage}
    (h : phase.unfinished = msg :: rest) (hlocked : phase.locked = []) :
    phase.held = msg.id :: rest.map OutboxMessage.id := by
  simp [Phase.held, h, hlocked]

/-- A worker that is through with the row at its head, which nobody holds then. -/
theorem Coherent.release (h : Coherent s) {msg : OutboxMessage} {rest : List OutboxMessage}
    (hunfinished : (s.workers w).unfinished = msg :: rest) (hlocked : (s.workers w).locked = []) :
    Coherent (s.goTo w (.dispatching rest)) ∧
      ∀ w', msg.id ∉ ((s.goTo w (.dispatching rest)).workers w').held := by
  have hheld := head_held hunfinished hlocked
  have hrest : (Phase.dispatching rest).held = rest.map OutboxMessage.id := by
    simp [Phase.held, Phase.locked, Phase.unfinished]
  refine ⟨h.goTo ?_ (fun _ hmsg => nomatch hmsg) fun msg' hmsg' => ?_, fun w' => ?_⟩
  · rw [hheld, hrest]
    exact List.sublist_cons_self _ _
  · rw [hunfinished]
    exact List.mem_cons_of_mem _ hmsg'
  · have hfree := h.exclusive.released hheld w'
    rw [← hrest, ← Function.comp_update] at hfree
    exact hfree

theorem coherent_reopen (h : Coherent s) {msg : OutboxMessage} {rest : List OutboxMessage}
    (hphase : s.workers w = .reopening msg rest) :
    Coherent { s.goTo w (.dispatching rest) with outbox := reopened s msg.id } := by
  have hhead : (s.workers w).unfinished = msg :: rest := by rw [hphase]; rfl
  have hnone : (s.workers w).locked = [] := by rw [hphase]; rfl
  obtain ⟨hmoved, hfree⟩ := h.release hhead hnone
  refine { hmoved with
    waiting := fun w' msg' hmsg' => ?_, marked := fun w' msg' hmsg' => ?_
    returned := fun i hi => ?_ }
  · obtain ⟨e, he, rfl, hpending⟩ := hmoved.waiting w' msg' hmsg'
    exact ⟨e, mem_reopened_of_ne he fun hid => hfree w' (hid ▸ held_of_locked hmsg'), rfl, hpending⟩
  · obtain ⟨e, he, rfl, hprocessed⟩ := hmoved.marked w' msg' hmsg'
    exact ⟨e, mem_reopened_of_ne he fun hid => hfree w' (hid ▸ held_of_unfinished hmsg'), rfl,
      hprocessed⟩
  · obtain ⟨⟨e, he, rfl, hprocessed⟩, hunheld⟩ := hmoved.returned i hi
    refine ⟨⟨e, mem_reopened_of_ne he fun hid => ?_, rfl, hprocessed⟩, hunheld⟩
    have hnot := (h.returned e.id hi).2 w
    rw [head_held hhead hnone, hid] at hnot
    exact hnot List.mem_cons_self

theorem coherent_handlerReturns (h : Coherent s) {msg : OutboxMessage} {rest : List OutboxMessage}
    (hphase : s.workers w = .handling msg rest) :
    Coherent { s.goTo w (.dispatching rest) with returned := msg.id :: s.returned } := by
  have hhead : (s.workers w).unfinished = msg :: rest := by rw [hphase]; rfl
  have hnone : (s.workers w).locked = [] := by rw [hphase]; rfl
  obtain ⟨hmoved, hfree⟩ := h.release hhead hnone
  refine { hmoved with returned := fun i hi => ?_ }
  rcases List.mem_cons.mp hi with rfl | hbefore
  · obtain ⟨e, he, rfl, hprocessed⟩ := h.marked w msg (hhead ▸ List.mem_cons_self)
    exact ⟨⟨e, he, rfl, hprocessed⟩, hfree⟩
  · exact hmoved.returned i hbefore

/-- What one step can do, with what it has found. -/
inductive Stepped (registered : String → Bool) (s : DrainState) : DrainStep → DrainState → Prop
  | enqueued (id : ℕ) (row : OutboxRow) (createdAt : ℕ) :
      Stepped registered s (.enqueue id row createdAt) (enqueue s id row createdAt)
  | stays {c : DrainStep} (h : ∀ w, c ≠ .crash w)
      (hbusy : ∀ w, c = .select w → s.workers w ≠ .idle) : Stepped registered s c s
  | selects {w : ℕ} (h : s.workers w = .idle) : Stepped registered s (.select w)
      { s.goTo w (.selected (batch s)) with
        locks := s.locks ++ (batch s).map OutboxMessage.id }
  | marks {w now : ℕ} {rows : List OutboxMessage} (h : s.workers w = .selected rows) :
      Stepped registered s (.mark w now)
        { s.goTo w (.dispatching rows) with
          outbox := markProcessed s rows now, locks := unlock s rows }
  | ends {w : ℕ} (h : s.workers w = .dispatching []) :
      Stepped registered s (.next w) (s.goTo w .idle)
  | handles {w : ℕ} {msg : OutboxMessage} {rest : List OutboxMessage}
      (h : s.workers w = .dispatching (msg :: rest)) :
      Stepped registered s (.next w) (s.goTo w (.handling msg rest))
  | skips {w : ℕ} {msg : OutboxMessage} {rest : List OutboxMessage}
      (h : s.workers w = .dispatching (msg :: rest)) (hnone : registered msg.topic = false) :
      Stepped registered s (.next w) (s.goTo w (.dispatching rest))
  | returns {w : ℕ} {msg : OutboxMessage} {rest : List OutboxMessage}
      (h : s.workers w = .handling msg rest) : Stepped registered s (.handlerReturns w)
      { s.goTo w (.dispatching rest) with returned := msg.id :: s.returned }
  | throws {w : ℕ} {msg : OutboxMessage} {rest : List OutboxMessage}
      (h : s.workers w = .handling msg rest) :
      Stepped registered s (.handlerThrows w) (s.goTo w (.reopening msg rest))
  | reopens {w : ℕ} {msg : OutboxMessage} {rest : List OutboxMessage}
      (h : s.workers w = .reopening msg rest) : Stepped registered s (.reopen w)
      { s.goTo w (.dispatching rest) with outbox := reopened s msg.id }
  | gone {w : ℕ} {msg : OutboxMessage} {rest : List OutboxMessage}
      (h : s.workers w = .reopening msg rest) (hgone : s.outbox.has msg.id = false) :
      Stepped registered s (.reopen w) (s.goTo w .idle)
  | crashes (w : ℕ) : Stepped registered s (.crash w)
      { s.goTo w .idle with locks := unlock s (s.workers w).locked }

theorem stepped (c : DrainStep) : Stepped registered s c (step registered s c) := by
  cases c with
  | enqueue id row createdAt => exact .enqueued id row createdAt
  | crash w => exact .crashes w
  | select w =>
    dsimp only [step]
    split
    · next h => exact .selects h
    · next hbusy =>
      refine .stays (fun _ h => by cases h) fun w' h => ?_
      cases h
      exact hbusy
  | mark w now =>
    dsimp only [step]
    split
    · next rows h => exact .marks h
    · exact .stays (fun _ h => by cases h) fun _ h => by cases h
  | next w =>
    dsimp only [step]
    split
    · next h => exact .ends h
    · next msg rest h =>
      split_ifs with htopic
      · exact .handles h
      · exact .skips h (by simpa using htopic)
    · exact .stays (fun _ h => by cases h) fun _ h => by cases h
  | handlerReturns w =>
    dsimp only [step]
    split
    · next msg rest h => exact .returns h
    · exact .stays (fun _ h => by cases h) fun _ h => by cases h
  | handlerThrows w =>
    dsimp only [step]
    split
    · next msg rest h => exact .throws h
    · exact .stays (fun _ h => by cases h) fun _ h => by cases h
  | reopen w =>
    dsimp only [step]
    split
    · next msg rest h =>
      split_ifs with hhas
      · exact .reopens h
      · exact .gone h (by simpa using hhas)
    · exact .stays (fun _ h => by cases h) fun _ h => by cases h

/-- Whatever a worker does next, the rows, the locks and the workers fit together. -/
theorem Coherent.stepped (h : Coherent s) {c : DrainStep} {s' : DrainState}
    (hstep : Stepped registered s c s') : Coherent s' := by
  have hidle (w : ℕ) : Coherent (s.goTo w .idle) :=
    h.goTo (List.nil_sublist _) (fun _ hmsg => nomatch hmsg) fun _ hmsg => nomatch hmsg
  cases hstep with
  | enqueued id row createdAt => exact coherent_enqueue h
  | stays _ _ => exact h
  | selects _ => exact coherent_select h
  | marks hphase => exact coherent_mark h hphase
  | ends _ => exact hidle _
  | handles hphase =>
    refine h.goTo ?_ (fun _ hmsg => nomatch hmsg) fun msg' hmsg' => ?_
    · rw [hphase]
      exact List.Sublist.refl _
    · rw [hphase]
      exact hmsg'
  | skips hphase _ => exact (h.release (by rw [hphase]; rfl) (by rw [hphase]; rfl)).1
  | returns hphase => exact coherent_handlerReturns h hphase
  | throws hphase =>
    refine h.goTo ?_ (fun _ hmsg => nomatch hmsg) fun msg' hmsg' => ?_
    · rw [hphase]
      exact List.Sublist.refl _
    · rw [hphase]
      exact hmsg'
  | reopens hphase => exact coherent_reopen h hphase
  | gone _ _ => exact hidle _
  | crashes w => exact coherent_crash h

theorem coherent_step (h : Coherent s) (c : DrainStep) : Coherent (step registered s c) :=
  h.stepped (stepped c)

/-- Two workers never handle one row. -/
theorem Coherent.handledByOne (h : Coherent s) : HandledByOne s := by
  intro w w' msg msg' rest rest' hw hw' hid
  have hmsg : msg.id ∈ (s.workers w).held :=
    held_of_unfinished (by rw [hw]; exact List.mem_cons_self)
  have hmsg' : msg'.id ∈ (s.workers w').held :=
    held_of_unfinished (by rw [hw']; exact List.mem_cons_self)
  exact h.exclusive.holder w w' msg.id hmsg (hid ▸ hmsg')

/-- Before any worker has started. -/
theorem coherent_idle (hworkers : ∀ w, s.workers w = .idle) (hreturned : s.returned = []) :
    Coherent s where
  exclusive := by
    have hheld : Phase.held ∘ s.workers = fun _ => [] := funext fun w => by
      rw [Function.comp_apply, hworkers w]
      rfl
    rw [hheld]
    exact exclusive_nobody
  locks w msg hmsg := by
    rw [hworkers w] at hmsg
    cases hmsg
  waiting w msg hmsg := by
    rw [hworkers w] at hmsg
    cases hmsg
  marked w msg hmsg := by
    rw [hworkers w] at hmsg
    cases hmsg
  returned i hi := by
    rw [hreturned] at hi
    cases hi

/-- The row of a message that a worker holds. -/
theorem message_of_id {msg : OutboxMessage} {e : OutboxEntry} (he : e ∈ s.outbox)
    (hrow : ∃ e' ∈ s.outbox, e'.message = msg) (hid : msg.id = e.id) : e.message = msg := by
  obtain ⟨e', he', rfl⟩ := hrow
  obtain rfl : e' = e := Table.key_inj he' he hid
  rfl

/-- A worker lets go of nothing that has a handler. -/
theorem notLost_goTo (hd : NotLost registered s) {phase : Phase}
    (hkeeps : ∀ msg ∈ (s.workers w).unfinished, registered msg.topic = true →
      msg ∈ phase.unfinished) : NotLost registered (s.goTo w phase) := by
  intro e he htopic
  rcases hd e he htopic with hpending | hreturned | ⟨w', hw'⟩
  · exact .inl hpending
  · exact .inr (.inl hreturned)
  · refine .inr (.inr ?_)
    by_cases hw : w' = w
    · subst hw
      refine ⟨w', ?_⟩
      rw [workers_goTo_self]
      exact hkeeps _ hw' htopic
    · refine ⟨w', ?_⟩
      rw [workers_goTo_of_ne hw]
      exact hw'

theorem notLost_enqueue (hd : NotLost registered s) {id : ℕ} {row : OutboxRow}
    {createdAt : ℕ} : NotLost registered (enqueue s id row createdAt) := by
  unfold enqueue
  split_ifs
  · exact hd
  · intro e he htopic
    rcases Table.mem_insertNew_cases he with hbefore | rfl
    · exact hd e hbefore htopic
    · exact .inl rfl

theorem notLost_mark (h : Coherent s) (hd : NotLost registered s) {rows : List OutboxMessage}
    {now : ℕ} (hrows : s.workers w = .selected rows) :
    NotLost registered { s.goTo w (.dispatching rows) with
      outbox := markProcessed s rows now, locks := unlock s rows } := by
  have hmoved : NotLost registered (s.goTo w (.dispatching rows)) :=
    notLost_goTo hd fun msg hmsg _ => by
      rw [hrows] at hmsg
      cases hmsg
  intro e' he' htopic
  obtain ⟨e, he, ⟨hid, hsame⟩ | ⟨-, rfl⟩⟩ := mem_markProcessed_cases he'
  · obtain ⟨msg, hmsg, hmsgid⟩ := List.mem_map.mp hid
    have hlocked : msg ∈ (s.workers w).locked := hrows ▸ hmsg
    obtain ⟨e₁, he₁, hmessage, -⟩ := h.waiting w msg hlocked
    refine .inr (.inr ⟨w, ?_⟩)
    change e'.message ∈ ((s.goTo w (.dispatching rows)).workers w).unfinished
    rw [workers_goTo_self, hsame, message_of_id he ⟨e₁, he₁, hmessage⟩ hmsgid]
    exact hmsg
  · exact hmoved e' he htopic

theorem notLost_reopen (hd : NotLost registered s) {msg : OutboxMessage}
    {rest : List OutboxMessage} (hhead : (s.workers w).unfinished = msg :: rest) :
    NotLost registered { s.goTo w (.dispatching rest) with outbox := reopened s msg.id } := by
  intro e he htopic
  rcases mem_reopened_cases he with hpending | ⟨hbefore, hne⟩
  · exact .inl hpending
  · have hothers : e.message ≠ msg := fun hmessage => hne (congrArg OutboxMessage.id hmessage)
    rcases hd e hbefore htopic with hpending | hreturned | ⟨w', hw'⟩
    · exact .inl hpending
    · exact .inr (.inl hreturned)
    · refine .inr (.inr ⟨w', ?_⟩)
      change e.message ∈ ((s.goTo w (.dispatching rest)).workers w').unfinished
      by_cases hw : w' = w
      · subst hw
        rw [hhead] at hw'
        rw [workers_goTo_self]
        exact List.mem_of_ne_of_mem hothers hw'
      · rw [workers_goTo_of_ne hw]
        exact hw'

theorem notLost_return (hd : NotLost registered s) {msg : OutboxMessage}
    {rest : List OutboxMessage} (hhead : (s.workers w).unfinished = msg :: rest) :
    NotLost registered { s.goTo w (.dispatching rest) with returned := msg.id :: s.returned } := by
  intro e he htopic
  rcases hd e he htopic with hpending | hreturned | ⟨w', hw'⟩
  · exact .inl hpending
  · exact .inr (.inl (List.mem_cons_of_mem _ hreturned))
  · by_cases hmessage : e.message = msg
    · exact .inr (.inl (List.mem_cons.mpr (.inl (congrArg OutboxMessage.id hmessage))))
    · refine .inr (.inr ⟨w', ?_⟩)
      change e.message ∈ ((s.goTo w (.dispatching rest)).workers w').unfinished
      by_cases hw : w' = w
      · subst hw
        rw [hhead] at hw'
        rw [workers_goTo_self]
        exact List.mem_of_ne_of_mem hmessage hw'
      · rw [workers_goTo_of_ne hw]
        exact hw'

/-- A crash loses exactly the rows that the worker had marked and not handled. -/
theorem notLost_crash_iff (h : Coherent s) (hd : NotLost registered s) :
    CrashesWithout registered s (.crash w) ↔
      NotLost registered { s.goTo w .idle with locks := unlock s (s.workers w).locked } := by
  constructor
  · intro hwithout
    have hidle : NotLost registered (s.goTo w .idle) := notLost_goTo hd fun msg hmsg htopic => by
      rw [hwithout msg hmsg] at htopic
      cases htopic
    exact hidle
  · intro hafter msg hmsg
    by_contra htopic
    rw [Bool.not_eq_false] at htopic
    obtain ⟨e, he, rfl, hprocessed⟩ := h.marked w msg hmsg
    rcases hafter e he htopic with hpending | hreturned | ⟨w', hw'⟩
    · rw [hpending] at hprocessed
      cases hprocessed
    · exact (h.returned e.id hreturned).2 w (held_of_unfinished hmsg)
    · change e.message ∈ ((s.goTo w .idle).workers w').unfinished at hw'
      by_cases hw : w' = w
      · subst hw
        rw [workers_goTo_self] at hw'
        cases hw'
      · rw [workers_goTo_of_ne hw] at hw'
        exact not_held_twice h (held_of_unfinished hmsg) (held_of_unfinished hw') hw rfl

/-- What one step must meet. -/
theorem crashesWithout_iff (h : Coherent s) (hd : NotLost registered s) (c : DrainStep) :
    CrashesWithout registered s c ↔ NotLost registered (step registered s c) := by
  have hstep : Stepped registered s c (step registered s c) := stepped c
  generalize step registered s c = s' at hstep ⊢
  cases hstep with
  | crashes w => exact notLost_crash_iff h hd
  | stays hno _ =>
    refine iff_of_true ?_ hd
    cases c with
    | crash w => exact absurd rfl (hno w)
    | _ => trivial
  | enqueued id row createdAt => exact iff_of_true trivial (notLost_enqueue hd)
  | @selects w hphase =>
    have hmoved : NotLost registered (s.goTo w (.selected (batch s))) :=
      notLost_goTo hd fun msg hmsg _ => by
        rw [hphase] at hmsg
        cases hmsg
    exact iff_of_true trivial hmoved
  | marks hphase => exact iff_of_true trivial (notLost_mark h hd hphase)
  | ends hphase =>
    refine iff_of_true trivial (notLost_goTo hd fun msg hmsg _ => ?_)
    rw [hphase] at hmsg
    cases hmsg
  | handles hphase =>
    refine iff_of_true trivial (notLost_goTo hd fun msg hmsg _ => ?_)
    rw [hphase] at hmsg
    exact hmsg
  | skips hphase hnone =>
    refine iff_of_true trivial (notLost_goTo hd fun msg hmsg htopic => ?_)
    rw [hphase] at hmsg
    refine List.mem_of_ne_of_mem (fun hsame => ?_) hmsg
    rw [hsame, hnone] at htopic
    cases htopic
  | returns hphase => exact iff_of_true trivial (notLost_return hd (by rw [hphase]; rfl))
  | throws hphase =>
    refine iff_of_true trivial (notLost_goTo hd fun msg hmsg _ => ?_)
    rw [hphase] at hmsg
    exact hmsg
  | reopens hphase => exact iff_of_true trivial (notLost_reopen hd (by rw [hphase]; rfl))
  | gone hphase hgone =>
    obtain ⟨e, he, hmessage, -⟩ := h.marked _ _ (by rw [hphase]; exact List.mem_cons_self)
    have hhas := Table.has_iff.mpr ⟨e, he, congrArg OutboxMessage.id hmessage⟩
    exact absurd hhas (by rw [hgone]; simp)

end coherence

end Akabbo.OutboxDrain
