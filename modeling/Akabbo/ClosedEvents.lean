import Akabbo.ServiceEffects
import Akabbo.TeamCalls

/-!
# Events that are closed

Whether an event may still be written is read when the caller's context is resolved, before
the transaction that relies on it. What overlapping calls then do to the rows of an event
that has been closed.
-/
namespace Akabbo.ClosedEvents
open Access RowTable StatementProgram ProgramParts ReadCommitted LedgerState LedgerWrites EventWrites
open ServiceCalls ServiceEffects TeamCalls
open StatementProgram.Program (query refuse orThrow commitNow)

structure LedgerRows where
  persons : List Person
  pledges : List Pledge
  fulfillments : List Fulfillment
  groups : List ContributorGroup
  personGroups : List PersonGroup
  budgets : List Budget
  budgetItems : List BudgetItem
  allocations : List Allocation
  deriving DecidableEq

def rowsOf (db : LedgerDb) (e : ℕ) : LedgerRows where
  persons := db.persons.rows.filter fun r => r.eventId == e
  pledges := db.pledges.rows.filter fun r => r.eventId == e
  fulfillments := db.fulfillments.rows.filter fun r => r.eventId == e
  groups := db.groups.rows.filter fun r => r.eventId == e
  personGroups := db.personGroups.rows.filter fun r => r.eventId == e
  budgets := db.budgets.rows.filter fun r => r.eventId == e
  budgetItems := db.budgetItems.rows.filter fun r => r.eventId == e
  allocations := db.allocations.rows.filter fun r => r.eventId == e

def writable (db : LedgerDb) (e : ℕ) : Bool :=
  (db.events.get? e).any fun event => isWritable event.status

/-- CLOSED or ARCHIVED. -/
def closed (db : LedgerDb) (e : ℕ) : Bool :=
  (db.events.get? e).any fun event => !isWritable event.status

/-- Records, corrections, cancellations, the writes of pledges, people, groups, budget lines
and allocations, and `setStatus`. -/
def OnLedger : ServiceCall → Bool
  | .ledger _ | .updateContact .. | .linkPersonToUser .. | .createGroup .. | .assignPerson ..
  | .addItem _ | .updateItem .. | .removeItem _ | .allocate .. | .setEventStatus _ => true
  | _ => false

/-- All of them but `setStatus` pass the third gate. -/
def gated : ServiceCall → Bool
  | .setEventStatus _ => false
  | _ => true

structure Request where
  actor : Actor
  eventId : ℕ
  call : ServiceCall
  draw : ServiceDraw
  onLedger : OnLedger call = true

def requireContext (actor : Actor) (eventId : ℕ) : LedgerProgram EventContext := do
  let found ← resolveContext actor eventId
  orThrow found (.forbidden "Not a member of this event")

/-- A turn of the assistant that keeps one context for several writes is as many requests,
which resolve theirs at one time. -/
def Request.program (c : Request) : LedgerProgram Unit := do
  let event ← requireContext c.actor c.eventId
  commitNow
  c.call.program ⟨c.actor, event⟩ c.draw

abbrev EventSystem := System RowLock LedgerDb Refusal Unit

def system (db : LedgerDb) (calls : List Request) : EventSystem :=
  System.begin db (calls.map Request.program)

/-- No move changes a row of an event that is closed. -/
def ReadOnlyWhileClosed (db : LedgerDb) (calls : List Request) (moves : List Move) : Prop :=
  ∀ before m after, moves = before ++ m :: after → ∀ e,
    closed ((system db calls).run before).committed e = true →
      rowsOf ((system db calls).run (before ++ [m])).committed e =
        rowsOf ((system db calls).run before).committed e

/-- A deletion lets go of what other rows held of it, whichever event they are of: the
pledges that were meant for a budget line, and the memberships of a person. -/
def Reaches (call : ServiceCall) (rows : LedgerRows) : Prop :=
  match call with
  | .removeItem i => ∃ p ∈ rows.pledges, p.targetBudgetItemId = some i
  | .ledger (.mergePeople i _) => ∃ r ∈ rows.personGroups, r.personId = i
  | _ => False

/-- Rows of other events change only if the call reaches them, and those of its own only if it
went past the gate: `admitted` says whether the event was writable when the call read it. -/
def Spares (call : ServiceCall) (e : ℕ) (admitted : Bool) (db db' : LedgerDb) : Prop :=
  ∀ e', (e' = e → gated call = true → admitted = false) → (e' ≠ e → ¬ Reaches call (rowsOf db e')) →
    rowsOf db' e' = rowsOf db e'

section spares
variable {call : ServiceCall} {e : ℕ} {admitted : Bool} {db db' db'' : LedgerDb}

theorem spares_refl (db : LedgerDb) : Spares call e admitted db db := fun _ _ _ => rfl

theorem spares_trans (h : Spares call e admitted db db') (h' : Spares call e admitted db' db'') :
    Spares call e admitted db db'' := by
  intro e' hown hother
  have hrows := h e' hown hother
  rw [← hrows] at hother ⊢
  exact h' e' hown hother

theorem spares_of_rows (h : ∀ e', rowsOf db' e' = rowsOf db e') : Spares call e admitted db db' :=
  fun e' _ _ => h e'

/-- A call that went past the gate owes nothing to the rows of its own event. -/
theorem spares_admitted (hgated : gated call = true)
    (h : ∀ e' ≠ e, ¬ Reaches call (rowsOf db e') → rowsOf db' e' = rowsOf db e') :
    Spares call e true db db' := by
  intro e' hown hother
  by_cases he : e' = e
  · exact absurd (hown he hgated) (by simp)
  · exact h e' he (hother he)

end spares

theorem elsewhere {x e e' : ℕ} (he : e' ≠ e) (hx : x = e) : (x == e') = false := by
  simpa [hx] using he.symm

theorem keeps_spares {call : ServiceCall} (hgated : gated call = true) (e : ℕ) :
    Keeps e (Spares call e true) where
  refl := spares_refl
  appendAudit _ _ := spares_of_rows fun _ => rfl
  insertOutbox _ _ := spares_of_rows fun _ => rfl
  insertPerson db q hq := spares_admitted hgated fun e' he _ => by
    simp only [rowsOf, LedgerDb.insertPerson]
    rw [Table.filter_insertNew]
    exact elsewhere he hq
  updatePerson db i f hf hkeep := spares_admitted hgated fun e' he _ => by
    simp only [rowsOf, LedgerDb.updatePerson]
    rw [Table.filter_update]
    exact fun r _ hr => ⟨elsewhere he (own_of_and hr), elsewhere he ((hkeep r).trans (own_of_and hr))⟩
  insertPledge db p hp := spares_admitted hgated fun e' he _ => by
    simp only [rowsOf, LedgerDb.insertPledge]
    rw [Table.filter_insertNew]
    exact elsewhere he hp
  updatePledge db i f hf hkeep := spares_admitted hgated fun e' he _ => by
    simp only [rowsOf, LedgerDb.updatePledge]
    rw [Table.filter_update]
    exact fun r _ hr => ⟨elsewhere he (own_of_and hr), elsewhere he ((hkeep r).trans (own_of_and hr))⟩
  movePledges db i j := spares_admitted hgated fun e' he _ => by
    simp only [rowsOf, LedgerDb.movePledges]
    rw [Table.filter_update]
    exact fun r _ hr => ⟨elsewhere he (own_of_and hr), elsewhere he (own_of_and hr)⟩
  insertFulfillment db f hf := spares_admitted hgated fun e' he _ => by
    simp only [rowsOf, LedgerDb.insertFulfillment]
    rw [Table.filter_insertNew]
    exact elsewhere he hf
  setFulfillmentValue db i value := spares_admitted hgated fun e' he _ => by
    simp only [rowsOf, LedgerDb.setFulfillmentValue]
    rw [Table.filter_update]
    exact fun r _ hr => ⟨elsewhere he (own_of_and hr), elsewhere he (own_of_and hr)⟩
  insertGroup db g hg := spares_admitted hgated fun e' he _ => by
    simp only [rowsOf]
    rw [Table.filter_insertNew]
    exact elsewhere he hg
  insertPersonGroup db r hr := spares_admitted hgated fun e' he _ => by
    simp only [rowsOf]
    rw [Table.filter_insertNew]
    exact elsewhere he hr
  insertBudget db b hb := spares_admitted hgated fun e' he _ => by
    simp only [rowsOf]
    rw [Table.filter_insertNew]
    exact elsewhere he hb
  insertBudgetItem db i hi := spares_admitted hgated fun e' he _ => by
    simp only [rowsOf]
    rw [Table.filter_insertNew]
    exact elsewhere he hi
  updateBudgetItem db k f hf hkeep := spares_admitted hgated fun e' he _ => by
    simp only [rowsOf]
    rw [Table.filter_update]
    exact fun r _ hr => ⟨elsewhere he (own_of_and hr), elsewhere he ((hkeep r).trans (own_of_and hr))⟩
  insertAllocation db a ha := spares_admitted hgated fun e' he _ => by
    simp only [rowsOf]
    rw [Table.filter_insertNew]
    exact elsewhere he ha
  setEvents _ _ := spares_of_rows fun _ => rfl
  setMembers _ _ := spares_of_rows fun _ => rfl
  setInvitations _ _ := spares_of_rows fun _ => rfl
  setFiles _ _ := spares_of_rows fun _ => rfl
  setDocuments _ _ := spares_of_rows fun _ => rfl

/-- A deletion changes rows of another event only where it reaches them. -/
theorem spares_deletePerson (e i j : ℕ) (db : LedgerDb) :
    Spares (.ledger (.mergePeople i j)) e true db (db.deletePerson e i) :=
  spares_admitted rfl fun e' he hreach => by
    simp only [rowsOf, LedgerDb.deletePerson]
    rw [Table.filter_delete, Table.filter_delete]
    · intro r hr hsource
      refine Bool.eq_false_iff.mpr fun hhome => hreach ⟨r, ?_, by simpa using hsource⟩
      exact List.mem_filter.mpr ⟨hr, hhome⟩
    · exact fun r _ hr => elsewhere he (own_of_and hr)

theorem spares_deleteBudgetItem (e i : ℕ) (db : LedgerDb) :
    Spares (.removeItem i) e true db (deleteBudgetItem db e i) :=
  spares_admitted rfl fun e' he hreach => by
    simp only [rowsOf, deleteBudgetItem]
    rw [Table.filter_delete, Table.filter_update]
    · intro p hp hline
      have hhome : (p.eventId == e') = false := Bool.eq_false_iff.mpr fun hhome =>
        hreach ⟨p, List.mem_filter.mpr ⟨hp, hhome⟩, by simpa using hline⟩
      exact ⟨hhome, hhome⟩
    · exact fun r _ hr => elsewhere he (own_of_and hr)

theorem effects_setStatus (ctx : OperationContext) (status : EventStatus) (e : ℕ) (admitted : Bool) :
    Effects (Spares (.setEventStatus status) e admitted)
      (EventWrites.setEventStatus ctx status) :=
  effects_bind (effects_refuse _) fun _ =>
    effects_bind (effects_query _) fun _ =>
    effects_bind (effects_orThrow _ _) fun _ =>
    effects_bind (effects_modifyChecked spares_refl _ _ fun _ => spares_of_rows fun _ => rfl)
      fun _ =>
    effects_bind effects_commitNow fun _ =>
    effects_bind (effects_modify _ fun _ => spares_of_rows fun _ => rfl) fun _ => trivial

/-- A gated call that finds the event closed does nothing. -/
theorem effects_barred {call : ServiceCall} {ctx : OperationContext} {draw : ServiceDraw}
    (hledger : OnLedger call = true) (hgated : gated call = true)
    (hstatus : isWritable ctx.event.status = false) (R : LedgerDb → LedgerDb → Prop) :
    Effects R (call.program ctx draw) := by
  have hbarred {action : Action} {ρ : Type} (next : Unit → LedgerProgram ρ) :
      Effects R (gates ctx action >>= next) :=
    effects_gates_bind fun hw => absurd (hstatus.symm.trans hw) (by simp)
  cases call with
  | ledger call =>
    cases call with
    | createPerson ent input => exact effects_map (effects_map (hbarred _) _) _
    | createPledge input => exact effects_map (effects_map (hbarred _) _) _
    | recordFulfillment input => exact effects_map (effects_map (hbarred _) _) _
    | recordDirectContribution input => exact effects_map (effects_map (hbarred _) _) _
    | recordPledgeWithPayment input => exact effects_map (effects_map (hbarred _) _) _
    | correctCommittedValue i value => exact effects_map (effects_map (hbarred _) _) _
    | correctValue i value => exact effects_map (effects_map (hbarred _) _) _
    | cancelPledge i => exact effects_map (effects_map (hbarred _) _) _
    | mergePeople i j => exact effects_map (effects_map (hbarred _) _) _
  | updateContact i phone shared => exact effects_map (hbarred _) _
  | linkPersonToUser i userId => exact effects_map (hbarred _) _
  | createGroup name kind => exact effects_map (hbarred _) _
  | assignPerson i j role => exact effects_map (hbarred _) _
  | addItem input => exact effects_map (hbarred _) _
  | updateItem i input => exact effects_map (hbarred _) _
  | removeItem i => exact effects_map (hbarred _) _
  | allocate i j value => exact effects_map (hbarred _) _
  | _ => simp [OnLedger, gated] at hledger hgated

theorem effects_call {call : ServiceCall} (hledger : OnLedger call = true) (ctx : OperationContext)
    (draw : ServiceDraw) :
    Effects (Spares call ctx.event.eventId (isWritable ctx.event.status))
      (call.program ctx draw) := by
  by_cases hgated : gated call = true
  · cases hstatus : isWritable ctx.event.status with
    | false => exact effects_barred hledger hgated hstatus _
    | true =>
      refine effects_program (keeps_spares hgated _) call draw ?_ ?_
      · rintro i j rfl
        exact spares_deletePerson _ i j
      · rintro i rfl
        exact spares_deleteBudgetItem _ i
  · cases call with
    | setEventStatus status => exact effects_map (effects_setStatus ctx status _ _) _
    | _ => simp [gated] at hgated

/-- The first statement of a request reads its event, and what follows goes by that reading. -/
theorem program_eq (c : Request) :
    ∃ k, c.program = .select (fun db => db.events.get? c.eventId) k ∧
      ∀ event : Option Event, Effects
        (Spares c.call c.eventId (event.any fun event => isWritable event.status)) (k event) := by
  refine ⟨_, rfl, fun event => ?_⟩
  cases event with
  | none => trivial
  | some event =>
    intro member
    cases member with
    | none => trivial
    | some member => exact effects_call c.onLedger ⟨c.actor, ⟨c.eventId, member.role, event.status⟩⟩ c.draw

/-- The first move of call `t`. -/
structure FirstMove (t : ℕ) (before early late : List Move) : Prop where
  split : before = early ++ .advance t :: late
  first : Move.advance t ∉ early

/-- An open call has not begun, or has gone by what its first move read. -/
inductive Holding (db : LedgerDb) (calls : List Request) (before : List Move) (t : ℕ) (c : Request)
    (x : Session RowLock LedgerDb Refusal Unit) : Prop
  | waiting (idle : x = .begin c.program) (unmoved : Move.advance t ∉ before)
  | read (early late : List Move) (first : FirstMove t before early late)
      (keeps : x.Keeps (fun _ => True) fun _ _ f => ∀ s,
        Spares c.call c.eventId (writable ((system db calls).run early).committed c.eventId) s (f s))

def Kept (db : LedgerDb) (calls : List Request) (before : List Move) : Prop :=
  ∀ t x, ((system db calls).run before).slots[t]? = some (.running x) →
    x.Faithful ∧ ∃ c, calls[t]? = some c ∧ Holding db calls before t c x

section run
variable {db : LedgerDb} {calls : List Request} {before : List Move}

theorem kept_begin (db : LedgerDb) (calls : List Request) : Kept db calls [] := by
  intro t x hx
  obtain ⟨p, hp, rfl⟩ := running_begin hx
  simp only [List.getElem?_map, Option.map_eq_some_iff] at hp
  obtain ⟨c, hc, rfl⟩ := hp
  exact ⟨faithful_begin _, c, hc, .waiting rfl List.not_mem_nil⟩

/-- The first move of a request. -/
theorem holding_read {t : ℕ} {c : Request} {x' : Session RowLock LedgerDb Refusal Unit}
    {held : List RowLock} (hfresh : Move.advance t ∉ before)
    (hx : ((Session.begin c.program).advance held
      ((system db calls).run before).committed).2 = .running x') :
    Holding db calls (before ++ [.advance t]) t c x' := by
  obtain ⟨k, hprogram, heffects⟩ := program_eq c
  rw [hprogram] at hx
  simp only [Session.advance, Session.begin, Slot.running.injEq] at hx
  subst hx
  refine .read before [] ⟨by simp, hfresh⟩ ?_
  exact everyCommit_of_effects (R := Spares c.call c.eventId _) spares_trans spares_refl
    (fun _ _ _ hf => hf) (heffects _) spares_refl

theorem kept_step (h : Kept db calls before) (m : Move) : Kept db calls (before ++ [m]) := by
  intro t x' hx'
  rw [run_append] at hx'
  rcases running_step hx' with ⟨hm, hx⟩ | ⟨x, rfl, hx, hadv⟩
  · obtain ⟨hfaith, c, hc, hhold⟩ := h t x' hx
    refine ⟨hfaith, c, hc, ?_⟩
    cases hhold with
    | waiting idle unmoved => exact .waiting idle (by simp [unmoved, Ne.symm hm])
    | read early late first keeps =>
      exact .read early (late ++ [m]) ⟨by simp [first.split], first.first⟩ keeps
  · obtain ⟨hfaith, c, hc, hhold⟩ := h t x hx
    refine ⟨faithful_advance hfaith hadv, c, hc, ?_⟩
    cases hhold with
    | waiting idle unmoved =>
      subst idle
      exact holding_read unmoved hadv
    | read early late first keeps =>
      exact .read early (late ++ [.advance t]) ⟨by simp [first.split], first.first⟩
        (keeps_advance keeps trivial hadv)

theorem kept_run (db : LedgerDb) (calls : List Request) (moves : List Move) :
    Kept db calls moves := by
  induction moves using List.reverseRecOn with
  | nil => exact kept_begin db calls
  | append_singleton ms m ih => exact kept_step ih m

/-- Call `t` read that the event was writable, and it is closed by now. -/
def ClosedSince (db : LedgerDb) (calls : List Request) (before : List Move) (t e : ℕ) : Prop :=
  ∃ early late, FirstMove t before early late ∧
    writable ((system db calls).run early).committed e = true ∧
    closed ((system db calls).run before).committed e = true

/-- The event of a gated call that is about to apply what it wrote has not been closed since
the call read its status, and a deletion about to be applied reaches no other closed event. -/
structure InTime (db : LedgerDb) (calls : List Request) (before : List Move) (t : ℕ) (c : Request) :
    Prop where
  own : gated c.call = true → ¬ ClosedSince db calls before t c.eventId
  others : ∀ e ≠ c.eventId, closed ((system db calls).run before).committed e = true →
    ¬ Reaches c.call (rowsOf ((system db calls).run before).committed e)

def AppliesInTime (db : LedgerDb) (calls : List Request) (before : List Move) (m : Move) : Prop :=
  ∀ t c x r, calls[t]? = some c → Applied ((system db calls).run before) m t x r →
    x.dirty = true → InTime db calls before t c

theorem rows_step (m : Move) (hm : AppliesInTime db calls before m) {e : ℕ}
    (hclosed : closed ((system db calls).run before).committed e = true) :
    rowsOf (((system db calls).run before).step m).committed e =
      rowsOf ((system db calls).run before).committed e := by
  rcases step_applies ((system db calls).run before) m with ⟨hsame, -⟩ | ⟨t, x, r, happ, hrows, -⟩
  · rw [hsame]
  · rw [hrows]
    obtain ⟨hfaith, c, hc, hhold⟩ := kept_run db calls before t x happ.slot
    cases hdirty : x.dirty with
    | false =>
      rw [hfaith.clean hdirty]
      rfl
    | true =>
      have hin := hm t c x r hc happ hdirty
      cases hhold with
      | waiting idle unmoved =>
        rw [idle] at hdirty
        cases hdirty
      | read early late first keeps =>
        refine keeps_applies keeps happ.applies _ e ?_ ?_
        · rintro rfl hgated
          refine Bool.eq_false_iff.mpr fun hopen => hin.own hgated ?_
          exact ⟨early, late, first, hopen, hclosed⟩
        · exact fun hne => hin.others e hne hclosed

end run

/-- No row of a closed event changes in a run whose every gated call comes to its commit before
the event is closed. -/
theorem closed_events_stay (db : LedgerDb) (calls : List Request) (moves : List Move)
    (h : ∀ before m after, moves = before ++ m :: after → AppliesInTime db calls before m) :
    ReadOnlyWhileClosed db calls moves := by
  intro before m after he e hclosed
  rw [run_append]
  exact rows_step m (h before m after he) hclosed

/-- The organiser's event 7, with a contributor and a pledge of 100. -/
def pledgedEvent : LedgerDb :=
  served ⟨⟨1, true⟩, ⟨7, .owner, .active⟩⟩
    [(.createEvent { name := "Wedding" },
        ⟨⟨0, 0, 0, 0⟩, ⟨0, 7, 0, "wedding", { allowed := true }, none⟩⟩),
      (.ledger (.createPerson { allowed := true } { displayName := "John" }),
        ⟨⟨10, 0, 0, 1⟩, ⟨1, 0, 0, "", { allowed := true }, none⟩⟩),
      (.ledger (.createPledge { personId := 10, committedValue := 100 }),
        ⟨⟨0, 20, 0, 2⟩, ⟨2, 0, 0, "", { allowed := true }, none⟩⟩)]
    { LedgerDb.empty with users := Table.empty.insertNew ⟨1, none⟩ }

def payAndClose : List Request :=
  [⟨⟨1, true⟩, 7, .ledger (.recordFulfillment { pledgeId := 20, value := 60 }),
      ⟨⟨0, 0, 30, 3⟩, ⟨3, 0, 0, "", { allowed := true }, none⟩⟩, rfl⟩,
    ⟨⟨1, true⟩, 7, .setEventStatus .closed,
      ⟨⟨0, 0, 0, 3⟩, ⟨3, 0, 0, "", { allowed := true }, none⟩⟩, rfl⟩]

/-- The payment reads that the event is open, the event is closed, and the payment is made. -/
def overtaken : List Move :=
  .advance 0 :: (List.replicate 6 (.advance 1) ++ List.replicate 10 (.advance 0))

set_option maxRecDepth 8000 in
theorem payment_lands_in_closed_event :
    ¬ ∀ (db : LedgerDb) (calls : List Request) (moves : List Move),
      ReadOnlyWhileClosed db calls moves := by
  intro h
  have hrows := h pledgedEvent payAndClose (overtaken ++ [.advance 0]) overtaken (.advance 0) []
    (by simp) 7 (by decide)
  exact absurd (congrArg LedgerRows.fulfillments hrows) (by decide)

/-- The payment, and then the closing. -/
def inTurn : List Move := List.replicate 12 (.advance 0) ++ List.replicate 8 (.advance 1)

set_option maxRecDepth 8000 in
/-- A payment that is through before the closing is as it should be. -/
theorem closed_events_stay_in_turn : ReadOnlyWhileClosed pledgedEvent payAndClose inTurn := by
  have hopen : ∀ n < 20, inTurn[n]? = some (.advance 0) →
      closed ((system pledgedEvent payAndClose).run (inTurn.take n)).committed 7 = false := by
    decide
  refine closed_events_stay pledgedEvent payAndClose inTurn fun before m after he t c x r hc happ _ => ?_
  match t, hc with
  | 0, hc =>
    obtain rfl : m = .advance 0 := happ.move
    have hlen : before.length < 20 := by
      have := congrArg List.length he
      simp [inTurn] at this
      omega
    have hnow := hopen before.length hlen (by rw [he]; simp)
    have htake : inTurn.take before.length = before := by rw [he]; simp
    rw [htake] at hnow
    obtain rfl := Option.some.inj hc
    refine ⟨fun _ => ?_, fun e _ _ => id⟩
    rintro ⟨early, late, -, -, hclosed⟩
    exact absurd (hnow.symm.trans hclosed) (by simp)
  | 1, hc =>
    obtain rfl := Option.some.inj hc
    exact ⟨fun hgated => absurd hgated (by simp [gated]), fun e _ _ => id⟩

end Akabbo.ClosedEvents
