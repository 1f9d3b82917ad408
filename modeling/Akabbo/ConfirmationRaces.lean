import Akabbo.ExecutorFrame
import Akabbo.RunChecks

/-!
# Calls that overlap on one pending row

Confirm, reject and update calls on one row, interleaved statement by statement. A log that
nothing reads records what each of them does to the row, in the transaction that does it.
-/
namespace Akabbo.ConfirmationRaces
open Access RowTable StatementProgram StatementProgram.Program ReadCommitted ProgramParts LedgerState
open ToolExecutor Confirmations ExecutorFrame

inductive RowEvent
  | edited (edits : UpdatePendingInput)
  | began (action : StoredAction)
  | rejected
  deriving DecidableEq, Repr

structure RowState where
  status : ConfirmationStatus
  payload : StoredAction
  deriving DecidableEq, Repr

/-- What may happen to a row: edits while it waits, and then one end. An execution begins
with the payload the row has. -/
def RowEvent.apply : RowEvent → RowState → Option RowState
  | .edited edits, ⟨.pending, payload⟩ => some ⟨.pending, Confirmations.edited edits payload⟩
  | .began action, ⟨.pending, payload⟩ => if action = payload then some ⟨.confirmed, payload⟩ else none
  | .rejected, ⟨.pending, payload⟩ => some ⟨.rejected, payload⟩
  | _, _ => none

/-- The payload after edits in this order. -/
def editedBy (payload : StoredAction) (edits : List UpdatePendingInput) : StoredAction :=
  edits.foldl (fun action e => Confirmations.edited e action) payload

/-- The shapes of a row's life: already resolved, waiting, executed or refused. -/
inductive Life (payload : StoredAction) : List RowEvent → RowState → Prop
  | resolved (status : ConfirmationStatus) : Life payload [] ⟨status, payload⟩
  | waits (edits : List UpdatePendingInput) :
      Life payload (edits.map .edited) ⟨.pending, editedBy payload edits⟩
  | executed (edits : List UpdatePendingInput) :
      Life payload (edits.map .edited ++ [.began (editedBy payload edits)])
        ⟨.confirmed, editedBy payload edits⟩
  | refused (edits : List UpdatePendingInput) :
      Life payload (edits.map .edited ++ [.rejected]) ⟨.rejected, editedBy payload edits⟩

/-- One more event on a waiting row is one of those lives again. -/
theorem life_apply {payload : StoredAction} {edits : List UpdatePendingInput} {event : RowEvent}
    {state : RowState} (h : event.apply ⟨.pending, editedBy payload edits⟩ = some state) :
    Life payload (edits.map .edited ++ [event]) state := by
  cases event with
  | edited e =>
    obtain rfl := Option.some.inj h
    have hlife : Life payload _ _ := Life.waits (edits ++ [e])
    simpa [editedBy] using hlife
  | began action =>
    simp only [RowEvent.apply] at h
    split_ifs at h with ha
    obtain rfl := Option.some.inj h
    rw [ha]
    exact .executed edits
  | rejected =>
    obtain rfl := Option.some.inj h
    exact .refused edits

theorem life_step {payload : StoredAction} {events : List RowEvent} {event : RowEvent}
    {before state : RowState} (h : Life payload events before) (hevent : event.apply before = some state) :
    Life payload (events ++ [event]) state := by
  cases h with
  | resolved status =>
    cases status with
    | pending => exact @life_apply payload [] event state hevent
    | confirmed => cases event <;> cases hevent
    | rejected => cases event <;> cases hevent
    | expired => cases event <;> cases hevent
  | waits edits => exact life_apply hevent
  | executed edits => cases event <;> cases hevent
  | refused edits => cases event <;> cases hevent

def RowEvent.isBegun : RowEvent → Bool
  | .began _ => true
  | _ => false

theorem life_began {payload : StoredAction} {events : List RowEvent} {state : RowState}
    (h : Life payload events state) {action : StoredAction} (ha : .began action ∈ events) :
    ∃ edits, events = edits.map .edited ++ [.began action] ∧ action = editedBy payload edits ∧
      state = ⟨.confirmed, action⟩ := by
  cases h with
  | resolved status => simp at ha
  | waits edits => simp at ha
  | executed edits =>
    have heq : action = editedBy payload edits := by simpa using ha
    subst heq
    exact ⟨edits, rfl, rfl, rfl⟩
  | refused edits => simp at ha

theorem life_once {payload : StoredAction} {events : List RowEvent} {state : RowState}
    (h : Life payload events state) : events.countP RowEvent.isBegun ≤ 1 := by
  have hedits (edits : List UpdatePendingInput) :
      (edits.map RowEvent.edited).countP RowEvent.isBegun = 0 := by
    rw [List.countP_eq_zero]
    simp [RowEvent.isBegun]
  cases h with
  | resolved status => simp
  | waits edits => rw [hedits]; omega
  | executed edits => rw [List.countP_append, hedits]; simp [RowEvent.isBegun]
  | refused edits => rw [List.countP_append, hedits]; simp [RowEvent.isBegun]

theorem life_rejected {payload : StoredAction} {events : List RowEvent} {state : RowState}
    (h : Life payload events state) (hr : .rejected ∈ events) {event : RowEvent}
    (he : event ∈ events) : event.isBegun = false := by
  cases event with
  | edited e => rfl
  | rejected => rfl
  | began action =>
    obtain ⟨edits, hedits, -, -⟩ := life_began h he
    rw [hedits] at hr
    simp at hr

structure Observed where
  ledger : LedgerDb
  /-- Which call did what to the row. -/
  log : List (ℕ × RowEvent)

def ledgerPart : Part Observed LedgerDb where
  get := Observed.ledger
  put db s := { s with ledger := db }
  get_put _ _ := rfl
  put_get _ := rfl
  put_put _ _ _ := rfl

abbrev RowProgram := Program RowLock Observed Refusal

def note (call : ℕ) (event : RowEvent) : RowProgram Unit :=
  modify (fun _ => []) fun s => { s with log := s.log ++ [(call, event)] }

inductive RowCall
  | update (ctx : OperationContext) (edits : UpdatePendingInput)
  | confirm (ctx : OperationContext) (now : ℕ) (draw : ExecDraw)
  | reject (ctx : OperationContext) (now : ℕ)

inductive RowResult
  | edited (view : PendingView)
  | executed (result : ExecutionResult)
  | rejected (id : ℕ) (status : ConfirmationStatus)

section calls
variable (names : NameRules) (row : ℕ)

/-- The service call with its entry in the log; `confirm` goes on to execute what it logs. -/
def RowCall.program (t : ℕ) : RowCall → RowProgram RowResult
  | .update ctx edits => do
      let view ← ledgerPart.run id (Confirmations.update ctx row edits)
      note t (.edited edits)
      return .edited view
  | .confirm ctx now draw => do
      let (action, source) ← ledgerPart.run id (claim ctx row now)
      note t (.began action)
      commitNow
      .executed <$> ledgerPart.run id (ToolExecutor.run ctx names action source draw)
  | .reject ctx now => do
      let (id', status) ← ledgerPart.run id (Confirmations.reject ctx row now)
      note t .rejected
      return .rejected id' status

end calls

/-- The change a call makes to the row it read. -/
def RowCall.change (now' : PendingConfirmation) : RowCall → PendingConfirmation → PendingConfirmation
  | .update _ edits => fun r => { r with
      payload := Confirmations.edited edits now'.payload
      prompt := renderPendingPrompt (Confirmations.edited edits now'.payload) }
  | .confirm ctx now _ => resolveAs .confirmed ctx now
  | .reject ctx now => resolveAs .rejected ctx now

def RowCall.event (now' : PendingConfirmation) : RowCall → RowEvent
  | .update _ edits => .edited edits
  | .confirm .. => .began now'.payload
  | .reject .. => .rejected

def RowCall.ctx : RowCall → OperationContext
  | .update ctx _ => ctx
  | .confirm ctx _ _ => ctx
  | .reject ctx _ => ctx

theorem change_id (r : PendingConfirmation) (call : RowCall) (x : PendingConfirmation) :
    (call.change r x).id = x.id := by
  cases call <;> rfl

/-- Having read the row while it waited, the call logs its event and changes the row. -/
structure Acts (row t : ℕ) (call : RowCall) (r : PendingConfirmation) (rs : List (Reading Observed))
    (f : Observed → Observed) : Prop where
  read : ∃ reading ∈ rs, ∀ s : Observed, reading.Current s →
    findConfirmation s.ledger call.ctx.event.eventId row = some r
  waits : r.status = .pending
  log : ∀ s, (f s).log = s.log ++ [(t, call.event r)]
  changes : ∀ s, (f s).ledger.pendingConfirmations = s.ledger.pendingConfirmations.update
    (fun x => x.eventId == call.ctx.event.eventId && x.id == row) (call.change r) (change_id r call)

/-- Neither the log nor a waiting row is touched. -/
def Quiet (s s' : Observed) : Prop :=
  s'.log = s.log ∧ s'.ledger.pendingConfirmations = s.ledger.pendingConfirmations

/-- Every commit of a call acts on the row it read; those of an execution are quiet. -/
def Applying (row t : ℕ) (call : RowCall) (_ : Option RowResult) (rs : List (Reading Observed))
    (f : Observed → Observed) : Prop :=
  (∃ r, Acts row t call r rs f) ∨ (∃ ctx now draw, call = .confirm ctx now draw) ∧ ∀ s, Quiet s (f s)

section applying
variable {names : NameRules} {row t : ℕ}

theorem everyCommit_readPending {P : Option RowResult → List (Reading Observed) →
      (Observed → Observed) → Prop} {ctx : OperationContext}
    {k : PendingConfirmation → RowProgram RowResult}
    (h : ∀ r rs, (∃ reading ∈ rs, ∀ s : Observed, reading.Current s →
        findConfirmation s.ledger ctx.event.eventId row = some r) → r.status = .pending →
      EveryCommit (fun _ => True) P (k r) false rs id) :
    EveryCommit (fun _ => True) P (ledgerPart.run id (readPending ctx row) >>= k) false [] id := by
  simp only [readPending, Part.run_bind, Part.run_query, Part.run_orThrow, Part.run_refuse,
    Part.run_pure, bind_assoc, pure_bind]
  refine everyCommit_query_bind fun s _ => everyCommit_orThrow_bind fun r hr => ?_
  by_cases hwaits : r.status = .pending
  · rw [if_neg (not_not.mpr hwaits)]
    refine h r _ ⟨_, List.mem_singleton_self _, fun s' hs' => ?_⟩ hwaits
    rw [← hr]
    exact hs'
  · rw [if_pos hwaits]
    trivial

theorem everyCommit_update (ctx : OperationContext) (edits : UpdatePendingInput) :
    EveryCommit (fun _ => True) (Applying row t (.update ctx edits))
      ((RowCall.update ctx edits).program names row t) false [] id := by
  simp only [RowCall.program, Confirmations.update, Part.run_bind, bind_assoc]
  refine everyCommit_readPending fun r rs hread hwaits => ?_
  simp only [Part.run_refuse]
  refine everyCommit_refuse_bind (everyCommit_run_checked_bind _ _ fun s _ updated _ => ?_)
  simp only [Part.run_pure, pure_bind]
  refine everyCommit_modify_bind fun _ _ => .inl ⟨r, ?_, hwaits, fun _ => rfl, fun _ => rfl⟩
  obtain ⟨reading, hmem, hcur⟩ := hread
  exact ⟨reading, by simp [hmem], hcur⟩

theorem everyCommit_reject (ctx : OperationContext) (now : ℕ) :
    EveryCommit (fun _ => True) (Applying row t (.reject ctx now))
      ((RowCall.reject ctx now).program names row t) false [] id := by
  simp only [RowCall.program, Confirmations.reject, Part.run_bind, bind_assoc]
  refine everyCommit_readPending fun r rs hread hwaits => ?_
  refine everyCommit_run_checked_bind _ _ fun s _ updated _ => ?_
  simp only [Part.run_pure, pure_bind]
  refine everyCommit_modify_bind fun _ _ => .inl ⟨r, ?_, hwaits, fun _ => rfl, fun _ => rfl⟩
  obtain ⟨reading, hmem, hcur⟩ := hread
  exact ⟨reading, by simp [hmem], hcur⟩

theorem quiet_trans {s s' s'' : Observed} (h : Quiet s s') (h' : Quiet s' s'') : Quiet s s'' :=
  ⟨h'.1.trans h.1, h'.2.trans h.2⟩

theorem effects_execution (ctx : OperationContext) (action : StoredAction)
    (source : ProvenanceSource) (draw : ExecDraw) :
    Effects Quiet (RowResult.executed <$>
      ledgerPart.run id (ToolExecutor.run ctx names action source draw)) := by
  refine effects_map (effects_run_part ledgerPart id ?_ (frames_run ctx names source draw action)) _
  exact fun w hw s => ⟨rfl, hw s.ledger⟩

theorem everyCommit_confirm (ctx : OperationContext) (now : ℕ) (draw : ExecDraw) :
    EveryCommit (fun _ => True) (Applying row t (.confirm ctx now draw))
      ((RowCall.confirm ctx now draw).program names row t) false [] id := by
  simp only [RowCall.program, claim, Part.run_bind, bind_assoc]
  refine everyCommit_readPending fun r rs hread hwaits => ?_
  refine everyCommit_run_checked_bind _ _ fun s _ updated _ => ?_
  simp only [Part.run_pure, pure_bind]
  refine everyCommit_modify_bind fun _ _ => ⟨.inl ⟨r, ?_, hwaits, fun _ => rfl, fun _ => rfl⟩, ?_⟩
  · obtain ⟨reading, hmem, hcur⟩ := hread
    exact ⟨reading, by simp [hmem], hcur⟩
  · refine everyCommit_of_effects (R := Quiet) quiet_trans (fun s => ⟨rfl, rfl⟩) ?_
      (effects_execution ctx r.payload r.source draw) fun s => ⟨rfl, rfl⟩
    exact fun _ _ f hf => .inr ⟨⟨ctx, now, draw, rfl⟩, hf⟩

theorem everyCommit_program (call : RowCall) :
    EveryCommit (fun _ => True) (Applying row t call) (call.program names row t) false [] id := by
  cases call with
  | update ctx edits => exact everyCommit_update ctx edits
  | confirm ctx now draw => exact everyCommit_confirm ctx now draw
  | reject ctx now => exact everyCommit_reject ctx now

end applying

abbrev RowSystem := System RowLock Observed Refusal RowResult

def system (names : NameRules) (db : LedgerDb) (row : ℕ) (calls : List RowCall) : RowSystem :=
  System.begin ⟨db, []⟩ (calls.mapIdx fun t call => call.program names row t)

/-- A call that has looked at the row's status commits what it makes of that only while all
it has read still reads the same. -/
def CommitsCurrent (sys : RowSystem) (m : Move) : Prop :=
  ∀ (t : ℕ) x r, Applied sys m t x r → (x.pending sys.committed).log ≠ sys.committed.log →
    x.Current sys.committed

structure Kept (payload : StoredAction) (row : ℕ) (calls : List RowCall) (sys : RowSystem) :
    Prop where
  life : ∃ r, sys.committed.ledger.pendingConfirmations.get? row = some r ∧
    Life payload (sys.committed.log.map Prod.snd) ⟨r.status, r.payload⟩
  running : ∀ (t : ℕ) x, sys.slots[t]? = some (.running x) → ∃ call, calls[t]? = some call ∧
    x.Keeps (fun _ => True) (Applying row t call)
  acted : ∀ (t : ℕ) call r, calls[t]? = some call →
    sys.slots[t]? = some (.finished (some (.ok r))) →
    (∃ ctx now draw, call = .confirm ctx now draw) ∨
      ∃ r', (t, call.event r') ∈ sys.committed.log

section step
variable {payload : StoredAction} {row : ℕ} {calls : List RowCall} {sys : RowSystem} {m : Move}

/-- Acting on the row as it still is takes its life one event further. -/
theorem life_acts {t : ℕ} {call : RowCall} {r : PendingConfirmation} {rs : List (Reading Observed)}
    {f : Observed → Observed} (ha : Acts row t call r rs f) {s : Observed}
    (hcur : ∀ reading ∈ rs, reading.Current s)
    (hlife : ∃ r, s.ledger.pendingConfirmations.get? row = some r ∧
      Life payload (s.log.map Prod.snd) ⟨r.status, r.payload⟩) :
    ∃ r, (f s).ledger.pendingConfirmations.get? row = some r ∧
      Life payload ((f s).log.map Prod.snd) ⟨r.status, r.payload⟩ := by
  obtain ⟨reading, hmem, hread⟩ := ha.read
  have hfound := hread s (hcur reading hmem)
  obtain ⟨hrmem, hsel⟩ := Table.mem_of_find? hfound
  simp only [Bool.and_eq_true, beq_iff_eq] at hsel
  obtain ⟨r', hget, hlife⟩ := hlife
  have hgetr : s.ledger.pendingConfirmations.get? row = some r := Table.get?_eq_some.mpr ⟨hrmem, hsel.2⟩
  obtain rfl : r = r' := Option.some.inj (hgetr.symm.trans hget)
  refine ⟨call.change r r, ?_, ?_⟩
  · rw [ha.changes, Table.get?_update, hget]
    simp [hsel.1, hsel.2]
  · rw [ha.log, List.map_append]
    refine life_step hlife ?_
    rw [ha.waits]
    cases call with
    | update ctx edits =>
      change some _ = some _
      simp [RowCall.change, ha.waits]
    | confirm ctx now draw => simp [RowCall.event, RowCall.change, RowEvent.apply, resolveAs]
    | reject ctx now => simp [RowCall.event, RowCall.change, RowEvent.apply, resolveAs]

theorem kept_step (h : Kept payload row calls sys) (hm : CommitsCurrent sys m) :
    Kept payload row calls (sys.step m) := by
  have hrun : ∀ (t : ℕ) x, (sys.step m).slots[t]? = some (.running x) → ∃ call,
      calls[t]? = some call ∧ x.Keeps (fun _ => True) (Applying row t call) := by
    refine step_running m h.running fun t x x' _ hx hadv => ?_
    obtain ⟨call, ht, hkeeps⟩ := hx
    exact ⟨call, ht, keeps_advance hkeeps trivial hadv⟩
  rcases step_applies sys m with ⟨hsame, hslots⟩ | ⟨t, x, res, happ, hcommitted, hslots⟩
  · refine ⟨hsame ▸ h.life, hrun, fun t call r ht hfin => ?_⟩
    rw [hsame]
    exact h.acted t call r ht (hslots t r hfin)
  · obtain ⟨call, ht, hkeeps⟩ := h.running t x happ.slot
    have hgrows : ∀ entry ∈ sys.committed.log, entry ∈ (sys.step m).committed.log := by
      intro entry hentry
      rw [hcommitted]
      rcases keeps_applies hkeeps happ.applies with ⟨r, ha⟩ | ⟨-, hquiet⟩
      · rw [ha.log]
        exact List.mem_append_left _ hentry
      · rw [(hquiet _).1]
        exact hentry
    refine ⟨?_, hrun, fun u call' r' hu hfin => ?_⟩
    · rw [hcommitted]
      rcases keeps_applies hkeeps happ.applies with ⟨r, ha⟩ | ⟨-, hquiet⟩
      · refine life_acts ha (hm t x res happ ?_) h.life
        rw [ha.log]
        simp
      · rw [(hquiet _).1, (hquiet _).2]
        exact h.life
    · rcases hslots u r' hfin with hold | ⟨rfl, hres⟩
      · rcases h.acted u call' r' hu hold with hconfirm | ⟨row', hin⟩
        · exact .inl hconfirm
        · exact .inr ⟨row', hgrows _ hin⟩
      · -- the call that returns now
        obtain rfl : call = call' := Option.some.inj (ht.symm.trans hu)
        rcases keeps_applies hkeeps happ.applies with ⟨r, ha⟩ | ⟨hconfirm, -⟩
        · refine .inr ⟨r, ?_⟩
          rw [hcommitted, ha.log]
          simp
        · exact .inl hconfirm

end step

theorem kept_begin (names : NameRules) {db : LedgerDb} {r : PendingConfirmation}
    (hr : r ∈ db.pendingConfirmations) (calls : List RowCall) :
    Kept r.payload r.id calls (system names db r.id calls) where
  life := ⟨r, Table.get?_of_mem hr, .resolved r.status⟩
  running t x hx := by
    obtain ⟨p, hp, rfl⟩ := running_begin hx
    simp only [List.getElem?_mapIdx, Option.map_eq_some_iff] at hp
    obtain ⟨call, ht, rfl⟩ := hp
    exact ⟨call, ht, everyCommit_program call⟩
  acted t call res _ hfin := by
    simp [system, System.begin, Function.comp_def] at hfin

theorem kept_run (names : NameRules) {db : LedgerDb} {r : PendingConfirmation}
    (hr : r ∈ db.pendingConfirmations) {calls : List RowCall} {moves : List Move}
    (hcond : ∀ before m after, moves = before ++ m :: after →
      CommitsCurrent ((system names db r.id calls).run before) m) :
    Kept r.payload r.id calls ((system names db r.id calls).run moves) :=
  run_invariant (C := CommitsCurrent) (fun _ _ h hm => kept_step h hm) (kept_begin names hr calls)
    moves hcond

/-- What the calls on a row with this first payload have made of it. -/
structure OneOutcome (payload : StoredAction) (row : ℕ) (calls : List RowCall) (sys : RowSystem) :
    Prop where
  once : (sys.committed.log.map Prod.snd).countP RowEvent.isBegun ≤ 1
  rejected : ∀ (t : ℕ) ctx now r, calls[t]? = some (.reject ctx now) →
    sys.slots[t]? = some (.finished (some (.ok r))) →
    ∀ entry ∈ sys.committed.log, entry.2.isBegun = false
  stored : ∀ t action, (t, .began action) ∈ sys.committed.log → ∃ r,
    sys.committed.ledger.pendingConfirmations.get? row = some r ∧ r.status = .confirmed ∧
      r.payload = action
  edits : ∀ t action, (t, .began action) ∈ sys.committed.log → ∃ edits,
    sys.committed.log.map Prod.snd = edits.map .edited ++ [.began action] ∧
      action = editedBy payload edits
  taken : ∀ (t : ℕ) ctx edits r, calls[t]? = some (.update ctx edits) →
    sys.slots[t]? = some (.finished (some (.ok r))) → (t, .edited edits) ∈ sys.committed.log

/-- Overlapping calls on a row execute it at most once, as edited and unless it was rejected,
as long as each commits what it makes of the row while the row still is what it read. -/
theorem current_commits_give_one_outcome (names : NameRules) (db : LedgerDb)
    (r : PendingConfirmation) (hr : r ∈ db.pendingConfirmations) (calls : List RowCall)
    (moves : List Move)
    (hcond : ∀ before m after, moves = before ++ m :: after →
      CommitsCurrent ((system names db r.id calls).run before) m) :
    OneOutcome r.payload r.id calls ((system names db r.id calls).run moves) := by
  have hk := kept_run names hr hcond
  obtain ⟨r', hget, hlife⟩ := hk.life
  have hsnd {t : ℕ} {event : RowEvent}
      (h : (t, event) ∈ ((system names db r.id calls).run moves).committed.log) :
      event ∈ ((system names db r.id calls).run moves).committed.log.map Prod.snd :=
    List.mem_map_of_mem (f := Prod.snd) h
  refine ⟨life_once hlife, ?_, ?_, ?_, ?_⟩
  · intro t ctx now res ht hfin entry hentry
    rcases hk.acted t _ res ht hfin with ⟨_, _, _, hc⟩ | ⟨_, hin⟩
    · cases hc
    · exact life_rejected hlife (hsnd hin) (hsnd hentry)
  · intro t action hin
    obtain ⟨edits, -, -, hstate⟩ := life_began hlife (hsnd hin)
    rw [RowState.mk.injEq] at hstate
    exact ⟨r', hget, hstate.1, hstate.2⟩
  · intro t action hin
    obtain ⟨edits, hevents, haction, -⟩ := life_began hlife (hsnd hin)
    exact ⟨edits, hevents, haction⟩
  · intro t ctx edits res ht hfin
    rcases hk.acted t _ res ht hfin with ⟨_, _, _, hc⟩ | ⟨_, hin⟩
    · cases hc
    · exact hin

def stagedGift : PendingConfirmation :=
  { id := 9
    eventId := 7
    payload := .recordDirectContribution (some 3) "Achieng" "500" none none none none
    confidence := none
    source := .aiFromChat
    status := .pending
    prompt := "Record Achieng's contribution of 500?"
    createdById := some 1
    resolvedById := none
    resolvedAt := none }

def stagedDb : LedgerDb :=
  { LedgerDb.empty with
    persons := LedgerDb.empty.persons.insertNew
      ⟨3, 7, "Achieng", none, none, .humanTyped, some 1, 0⟩
    pendingConfirmations := LedgerDb.empty.pendingConfirmations.insertNew stagedGift }

def organizer : OperationContext := ⟨⟨1, true⟩, ⟨7, .owner, .active⟩⟩

def doubleTap : List RowCall :=
  [.confirm organizer 10 (.simple 20 10), .confirm organizer 11 (.simple 21 11)]

/-- Both calls read the row before either marks it. -/
def doubleTapMoves : List Move :=
  .advance 0 :: .advance 1 :: List.replicate 20 (.advance 0) ++ List.replicate 20 (.advance 1)

set_option maxRecDepth 4000 in
/-- Confirmed twice at once, a gift of 500 is recorded as two. -/
theorem double_tap_books_twice :
    ¬ (∀ (names : NameRules) (db : LedgerDb) (r : PendingConfirmation), r ∈ db.pendingConfirmations →
      ∀ (calls : List RowCall) (moves : List Move),
        OneOutcome r.payload r.id calls ((system names db r.id calls).run moves)) ∧
    (((system plainNames stagedDb 9 doubleTap).run doubleTapMoves).committed.ledger.fulfillments.rows.map
      Fulfillment.value) = [500, 500] := by
  refine ⟨fun h => ?_, by decide⟩
  have hone := (h plainNames stagedDb stagedGift (by decide) doubleTap doubleTapMoves).once
  revert hone
  decide

def editedAndConfirmed : List RowCall :=
  .update organizer { amount := some "600" } :: doubleTap

/-- The second tap comes while the gift is being recorded. -/
def secondTapLater : List Move :=
  List.replicate 4 (.advance 0) ++ List.replicate 6 (.advance 1) ++ List.replicate 2 (.advance 2) ++
    List.replicate 7 (.advance 1)

set_option maxRecDepth 8000 in
/-- The gift is recorded once, as edited. -/
theorem current_commits_give_one_outcome_edited :
    OneOutcome stagedGift.payload 9 editedAndConfirmed
      ((system plainNames stagedDb 9 editedAndConfirmed).run secondTapLater) ∧
    (((system plainNames stagedDb 9 editedAndConfirmed).run
      secondTapLater).committed.ledger.fulfillments.rows.map Fulfillment.value) = [600] := by
  refine ⟨current_commits_give_one_outcome plainNames stagedDb stagedGift (by decide)
    editedAndConfirmed secondTapLater ?_, by decide⟩
  intro before m after hmoves t x r happ _
  refine RunChecks.current_at (fun _ => true) [3, 7, 18] (by decide) ⟨?_, ?_, ?_, trivial⟩ hmoves rfl
    happ
  all_goals
    repeat refine And.intro rfl ?_
    trivial

end Akabbo.ConfirmationRaces
