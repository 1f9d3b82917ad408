import Akabbo.LedgerRuns

/-!
# Payments under an idempotency key

A call with a key that looks the key up before anything else can be repeated: each
repeat returns the recorded payment and changes nothing. `recordPledgeWithPayment`
never looks.
-/
namespace Akabbo.PaymentReplay
open Access PledgeStatus RowTable StatementProgram LedgerState LedgerWrites LedgerStatements
open LedgerEffects LedgerSpecs LedgerRuns StatementProgram.Program

/-- `@@unique([eventId, idempotencyKey])` on payments. -/
def Keyed (db : LedgerDb) : Prop :=
  ∀ f ∈ db.fulfillments, ∀ g ∈ db.fulfillments, f.eventId = g.eventId → ∀ k,
    f.idempotencyKey = some k → g.idempotencyKey = some k → f = g

/-- No payment is lost, and none changes but in its value. -/
structure PaymentsStay (db db' : LedgerDb) : Prop where
  keyed : Keyed db → Keyed db'
  stays : ∀ f ∈ db.fulfillments, ∃ value, { f with value } ∈ db'.fulfillments

theorem paymentsStay_same {db db' : LedgerDb} (h : db'.fulfillments = db.fulfillments) :
    PaymentsStay db db' :=
  ⟨fun hk => by unfold Keyed; rw [h]; exact hk, fun f hf => ⟨f.value, h ▸ hf⟩⟩

theorem fulfillmentViolation_key {db : LedgerDb} {f : Fulfillment} {k : String}
    (h : fulfillmentViolation db f = none) (hk : f.idempotencyKey = some k) :
    db.findByKey f.eventId k = none := by
  unfold fulfillmentViolation at h
  split_ifs at h with _ hkey
  simpa [hk] using hkey

theorem keyed_insertFulfillment {db : LedgerDb} {f : Fulfillment}
    (h : fulfillmentViolation db f = none) (hk : Keyed db) :
    Keyed (db.insertFulfillment f) := by
  have hmem {g : Fulfillment} : g ∈ (db.insertFulfillment f).fulfillments ↔
      g ∈ db.fulfillments ∨ g = f := Table.mem_insertNew (fulfillmentViolation_fresh h)
  -- no stored payment of the event carries the key of the new one
  have hnone {g : Fulfillment} (hg : g ∈ db.fulfillments) (he : g.eventId = f.eventId) {k : String}
      (hfk : f.idempotencyKey = some k) : g.idempotencyKey ≠ some k := by
    have := Table.find?_eq_none.mp (fulfillmentViolation_key h hfk) g hg
    simpa [he] using this
  intro a ha b hb he k hak hbk
  rcases hmem.mp ha with hold | hnew
  · rcases hmem.mp hb with hold' | hnew'
    · exact hk a hold b hold' he k hak hbk
    · subst hnew'
      exact absurd hak (hnone hold he hbk)
  · subst hnew
    rcases hmem.mp hb with hold' | hnew'
    · exact absurd hbk (hnone hold' he.symm hak)
    · exact hnew'.symm

theorem keyed_setFulfillmentValue {db : LedgerDb} (e i value : ℕ) (hk : Keyed db) :
    Keyed (db.setFulfillmentValue e i value) := by
  have hmem {g : Fulfillment} (hg : g ∈ (db.setFulfillmentValue e i value).fulfillments) :
      ∃ x ∈ db.fulfillments, x.eventId = g.eventId ∧ x.idempotencyKey = g.idempotencyKey ∧
        g = if x.eventId == e && x.id == i then { x with value } else x := by
    obtain ⟨x, hx, rfl⟩ := mem_setFulfillmentValue.mp hg
    refine ⟨x, hx, ?_, ?_, rfl⟩
    all_goals split_ifs <;> rfl
  intro a ha b hb he k hak hbk
  obtain ⟨x, hx, hxe, hxk, rfl⟩ := hmem ha
  obtain ⟨y, hy, hye, hyk, rfl⟩ := hmem hb
  rw [hk x hx y hy (hxe.trans (he.trans hye.symm)) k (hxk.trans hak) (hyk.trans hbk)]

theorem paymentsStay_keeps : Keeps PaymentsStay where
  refl _ := paymentsStay_same rfl
  trans h h' := by
    refine ⟨fun hk => h'.keyed (h.keyed hk), fun f hf => ?_⟩
    obtain ⟨_, hf'⟩ := h.stays f hf
    obtain ⟨value, hf''⟩ := h'.stays _ hf'
    exact ⟨value, hf''⟩
  insertPerson _ _ _ := paymentsStay_same rfl
  insertPledge _ _ _ := paymentsStay_same rfl
  insertFulfillment db f h := ⟨keyed_insertFulfillment h, fun g hg =>
    ⟨g.value, (Table.mem_insertNew (fulfillmentViolation_fresh h)).mpr (.inl hg)⟩⟩
  updatePledge _ _ _ _ _ := paymentsStay_same rfl
  setFulfillmentValue db e i value := by
    refine ⟨keyed_setFulfillmentValue e i value, fun f hf => ?_⟩
    by_cases hsel : f.eventId == e && f.id == i
    · exact ⟨value, mem_setFulfillmentValue.mpr ⟨f, hf, by rw [if_pos hsel]⟩⟩
    · exact ⟨f.value, mem_setFulfillmentValue.mpr ⟨f, hf, by rw [if_neg hsel]⟩⟩
  setUserId _ _ _ _ := paymentsStay_same rfl
  movePledges _ _ _ _ := paymentsStay_same rfl
  moveFiles _ _ _ _ := paymentsStay_same rfl
  deletePerson _ _ _ _ := paymentsStay_same rfl
  insertOutbox _ _ := paymentsStay_same rfl
  appendAudit _ _ := paymentsStay_same rfl

theorem keyed_unpledged (db : LedgerDb) : Keyed (unpledged db) :=
  fun f hf => absurd hf (Table.not_mem_empty f)

theorem findByKey_of_mem {db : LedgerDb} (hk : Keyed db) {f : Fulfillment}
    (hf : f ∈ db.fulfillments) {k : String} (hkey : f.idempotencyKey = some k) :
    db.findByKey f.eventId k = some f :=
  Table.find?_of_mem hf (by simp [hkey]) fun g hg hsel => by
    simp only [Bool.and_eq_true, beq_iff_eq] at hsel
    rw [hk g hg f hf hsel.1 k hsel.2 hkey]

/-- The answer is about this payment. -/
structure Describes (view : FulfillmentView) (f : Fulfillment) : Prop where
  id : view.id = f.id
  pledgeId : view.pledgeId = f.pledgeId
  value : view.value = moneyToString f.value
  kind : view.kind = f.kind
  method : view.method = f.method
  verificationStatus : view.verificationStatus = f.verificationStatus

/-- What a lookup answers: nothing was recorded under the key, or this payment was. -/
theorem exec_findByIdempotencyKey_some {ctx : OperationContext} {k : String} (hk : k ≠ "")
    {c v c' v' : LedgerDb} {r : Option FulfillmentView}
    (h : (findByIdempotencyKey ctx (some k)).exec c v = .ok (r, c', v')) :
    (r = none ∧ v.findByKey ctx.event.eventId k = none) ∨
      ∃ view f, r = some view ∧ v.findByKey ctx.event.eventId k = some f ∧ Describes view f := by
  simp only [findByIdempotencyKey, if_neg hk, exec_query_bind] at h
  cases hf : v.findByKey ctx.event.eventId k with
  | none =>
    simp only [hf] at h
    obtain ⟨rfl, -, -⟩ := exec_pure_eq_ok.mp h
    exact .inl ⟨rfl, rfl⟩
  | some f =>
    simp only [hf, exec_query_bind, exec_orThrow_bind, exec_pure_eq_ok] at h
    obtain ⟨p, -, rfl, -, -⟩ := h
    exact .inr ⟨_, f, rfl, rfl, rfl, rfl, rfl, rfl, rfl, rfl⟩

/-- A recorded key is found again while its payment's pledge is there. -/
theorem exec_findByIdempotencyKey_recorded {ctx : OperationContext} {k : String} (hk : k ≠ "")
    {c v : LedgerDb} (hs : Sound v) {f : Fulfillment}
    (hf : v.findByKey ctx.event.eventId k = some f) :
    ∃ view, (findByIdempotencyKey ctx (some k)).exec c v = .ok (some view, c, v) ∧
      Describes view f := by
  obtain ⟨hm, he, -⟩ := findByKey_mem hf
  obtain ⟨p, hp, hpi, hpe⟩ := hs.owned f hm
  have hpledge : v.findPledge ctx.event.eventId f.pledgeId = some p := by
    rw [← hpi, ← he, ← hpe]
    exact findPledge_of_mem hp
  let view : FulfillmentView :=
    { id := f.id
      pledgeId := f.pledgeId
      value := moneyToString f.value
      kind := f.kind
      method := f.method
      verificationStatus := f.verificationStatus
      pledgeStatus := p.status
      outstanding := moneyToString
        (outstanding p.committedValue (v.sumFulfillments ctx.event.eventId f.pledgeId))
      idempotentReplay := true }
  refine ⟨view, ?_, rfl, rfl, rfl, rfl, rfl, rfl⟩
  simp only [findByIdempotencyKey, if_neg hk, exec_query_bind, hf, hpledge]
  rfl

/-- The key that a call carries. -/
def key : LedgerCall → Option String
  | .recordFulfillment input => input.idempotencyKey
  | .recordDirectContribution input => input.idempotencyKey
  | .recordPledgeWithPayment input => input.idempotencyKey
  | _ => none

/-- The calls that look their key up before they do anything else. -/
def LooksUpKey : LedgerCall → Prop
  | .recordFulfillment input => input.idempotencyKey ≠ some ""
  | .recordDirectContribution input => input.idempotencyKey ≠ some ""
  | _ => False

/-- Ids that no row has yet, as the database draws them. -/
structure Fresh (draw : Draw) (db : LedgerDb) : Prop where
  person : db.persons.has draw.personId = false
  pledge : db.pledges.has draw.pledgeId = false
  fulfillment : db.fulfillments.has draw.fulfillmentId = false

def Repeats (ctx : OperationContext) (call : LedgerCall) (inv : Invocation) : Prop :=
  inv.ctx = ctx ∧ inv.call = call

instance (ctx : OperationContext) (call : LedgerCall) (inv : Invocation) :
    Decidable (Repeats ctx call inv) := inferInstanceAs (Decidable (_ ∧ _))

/-- What follows a call: repeats of it, and calls with other keys or none. -/
def Between (ctx : OperationContext) (call : LedgerCall) (later : List Invocation) : Prop :=
  ∀ inv ∈ later, Repeats ctx call inv ∨ key inv.call ≠ key call

/-- The answer names the same recorded payment. -/
structure SameRecord (view first : FulfillmentView) : Prop where
  id : view.id = first.id
  pledgeId : view.pledgeId = first.pledgeId
  kind : view.kind = first.kind
  method : view.method = first.method
  verificationStatus : view.verificationStatus = first.verificationStatus

/-- A call that first answered `first`, leaving `db`, can be repeated at any time, any
number of times: each repeat answers with that record as it stands, and the tables are as
they would be without the repeats. -/
structure Repeatable (db : LedgerDb) (ctx : OperationContext) (call : LedgerCall)
    (first : FulfillmentView) : Prop where
  answers : ∀ later draw, Between ctx call later → Fresh draw (ledgerRun db later) →
    ∃ view, ((call.program ctx draw).run (ledgerRun db later)).1 = .ok (.fulfillment view) ∧
      SameRecord view first ∧ ∃ f ∈ (ledgerRun db later).fulfillments, Describes view f
  once : ∀ later, Between ctx call later →
    let alone := ledgerRun db (later.filter fun inv => ¬ Repeats ctx call inv)
    (ledgerRun db later).persons = alone.persons ∧ (ledgerRun db later).pledges = alone.pledges ∧
      (ledgerRun db later).fulfillments = alone.fulfillments

theorem exists_fresh (db : LedgerDb) : ∃ draw, Fresh draw db := by
  have hfree (ids : List ℕ) : ∃ n, n ∉ ids := by
    obtain ⟨n, hn⟩ := Infinite.exists_notMem_finset ids.toFinset
    exact ⟨n, by simpa using hn⟩
  obtain ⟨i, hi⟩ := hfree (db.persons.rows.map Person.id)
  obtain ⟨j, hj⟩ := hfree (db.pledges.rows.map Pledge.id)
  obtain ⟨l, hl⟩ := hfree (db.fulfillments.rows.map Fulfillment.id)
  exact ⟨⟨i, j, l, 0⟩, decide_eq_false hi, decide_eq_false hj, decide_eq_false hl⟩

/-- The call wrote a payment under this key, which was free. -/
structure Recorded (ctx : OperationContext) (key : Option String) (view : FulfillmentView)
    (db db' : LedgerDb) : Prop where
  written : ∃ f ∈ db'.fulfillments, f.eventId = ctx.event.eventId ∧ f.idempotencyKey = key ∧
    Describes view f
  free : ∀ k, key = some k → ∀ g ∈ db.fulfillments, g.eventId = ctx.event.eventId →
    g.idempotencyKey ≠ some k

theorem recorded_of_stays {ctx : OperationContext} {key : Option String} {view : FulfillmentView}
    {db db₁ db' : LedgerDb} (hstay : PaymentsStay db db₁) (h : Recorded ctx key view db₁ db') :
    Recorded ctx key view db db' := by
  refine ⟨h.written, fun k hk g hg he => ?_⟩
  obtain ⟨_, hg'⟩ := hstay.stays g hg
  have hfree := h.free k hk _ hg' he
  exact hfree

section recorded
variable {ctx : OperationContext} {draw : Draw} {c v c' v' : LedgerDb} {r : FulfillmentView}

theorem recorded_writeFulfillment {input : WriteFulfillmentInput}
    (h : (writeFulfillment ctx input draw).exec c v = .ok (r, c', v')) :
    Recorded ctx input.idempotencyKey r v v' := by
  simp only [writeFulfillment, exec_insertFulfillment_bind, exec_query_bind, exec_setStatus_bind,
    exec_writeAudit_bind, exec_enqueue_bind, exec_pure_eq_ok] at h
  obtain ⟨hviol, p, hp, -, rfl, -, rfl⟩ := h
  refine ⟨⟨newFulfillment ctx input draw, ?_, rfl, rfl, rfl, rfl, rfl, rfl, rfl, rfl⟩,
    fun k hk g hg he hgk => ?_⟩
  · exact (Table.mem_insertNew (fulfillmentViolation_fresh hviol)).mpr (.inr rfl)
  · have hnone := Table.find?_eq_none.mp (fulfillmentViolation_key hviol hk) g hg
    simp only [Bool.and_eq_true, beq_iff_eq, not_and] at hnone
    exact hnone he hgk

theorem recorded_payPledge {input : RecordFulfillmentInput}
    (h : (payPledge ctx input draw).exec c v = .ok (r, c', v')) :
    Recorded ctx input.idempotencyKey r v v' := by
  simp only [payPledge, exec_query_bind, exec_orThrow_bind, exec_refuse_bind] at h
  obtain ⟨p, -, -, h⟩ := h
  rw [exec_bind_of_reads fun _ _ _ hr => (exec_runIf.mp hr).elim
    (fun hr => exec_assertNotDuplicate hr.2) And.right] at h
  obtain ⟨-, -, h⟩ := h
  rw [exec_bind_of_reads fun _ _ _ hr => (exec_assertWithinCommitted.mp hr).2] at h
  obtain ⟨-, -, h⟩ := h
  exact recorded_writeFulfillment h

theorem recorded_giveDirectly {input : RecordDirectContributionInput}
    (h : (giveDirectly ctx input draw).exec c v = .ok (r, c', v')) :
    Recorded ctx input.idempotencyKey r v v' := by
  rw [giveDirectly, exec_bind_eq_ok] at h
  obtain ⟨i, c₁, v₁, hperson, h⟩ := h
  simp only [exec_insertPledge_bind, exec_writeAudit_bind] at h
  obtain ⟨-, h⟩ := h
  have hstay := exec_writes paymentsStay_keeps.refl paymentsStay_keeps.trans
    (writes_directContributor paymentsStay_keeps ctx draw input) hperson
  have hwrite := recorded_writeFulfillment h
  refine recorded_of_stays hstay (recorded_of_stays ?_ hwrite)
  exact paymentsStay_same rfl

/-- A pledge with a payment writes the payment under the key, or no payment at all. -/
theorem recorded_recordPledgeWithPayment {input : RecordPledgeWithPaymentInput}
    (h : (recordPledgeWithPayment ctx input draw).exec c v = .ok (r, c', v')) :
    v.pledges.has draw.pledgeId = false ∧
      (input.receivedNow.getD 0 ≤ 0 ∧ r.id = draw.pledgeId ∧ v'.pledges.has r.id = true ∨
        ¬ input.receivedNow.getD 0 ≤ 0 ∧ Recorded ctx input.idempotencyKey r v v') := by
  simp only [recordPledgeWithPayment, exec_gates_bind, exec_refuse_bind, exec_requirePerson_bind,
    exec_insertPledge_bind, exec_writeAudit_bind] at h
  obtain ⟨-, -, -, q, -, -, hviol, h⟩ := h
  have hfresh := pledgeViolation_fresh hviol
  refine ⟨hfresh, ?_⟩
  split_ifs at h with hnone
  · obtain ⟨rfl, rfl, rfl⟩ := exec_pure_eq_ok.mp h
    exact .inl ⟨hnone, rfl, Table.has_iff.mpr
      ⟨_, (Table.mem_insertNew hfresh).mpr (.inr rfl), rfl⟩⟩
  · have hwrite := recorded_writeFulfillment h
    refine .inr ⟨hnone, recorded_of_stays ?_ hwrite⟩
    exact paymentsStay_same rfl

/-- A payment under a key that was looked up is there afterwards, old or new. -/
theorem recorded_looksUp {call : LedgerCall} {k : String} (hkey : key call = some k)
    (hlook : LooksUpKey call)
    (h : (call.program ctx draw).exec c v = .ok (.fulfillment r, c', v')) :
    ∃ f ∈ v'.fulfillments, f.eventId = ctx.event.eventId ∧ f.idempotencyKey = some k ∧
      Describes r f := by
  have hfound {view : FulfillmentView} (hk : k ≠ "")
      (hl : (findByIdempotencyKey ctx (some k)).exec c v = .ok (some view, c, v)) :
      ∃ f ∈ v.fulfillments, f.eventId = ctx.event.eventId ∧ f.idempotencyKey = some k ∧
        Describes view f := by
    obtain ⟨hnone, -⟩ | ⟨view', f, hview, hf, hd⟩ := exec_findByIdempotencyKey_some hk hl
    · cases hnone
    · cases hview
      obtain ⟨hm, he, hfk⟩ := findByKey_mem hf
      exact ⟨f, hm, he, hfk, hd⟩
  cases call with
  | recordFulfillment input =>
    obtain ⟨view, h, hr⟩ := exec_map.mp h
    cases hr
    simp only [recordFulfillment, exec_gates_bind, exec_refuse_bind] at h
    obtain ⟨-, -, -, h⟩ := h
    rw [exec_bind_of_reads fun _ _ _ hr => exec_findByIdempotencyKey hr] at h
    obtain ⟨replay, hl, h⟩ := h
    have hkey : input.idempotencyKey = some k := hkey
    cases replay with
    | some view =>
      obtain ⟨rfl, -, rfl⟩ := exec_pure_eq_ok.mp h
      rw [hkey] at hl
      exact hfound (fun hk => hlook (hkey.trans (congrArg some hk))) hl
    | none =>
      rw [← hkey]
      exact (recorded_payPledge h).written
  | recordDirectContribution input =>
    obtain ⟨view, h, hr⟩ := exec_map.mp h
    cases hr
    simp only [recordDirectContribution, exec_gates_bind, exec_refuse_bind] at h
    obtain ⟨-, -, -, h⟩ := h
    rw [exec_bind_of_reads fun _ _ _ hr => exec_findByIdempotencyKey hr] at h
    obtain ⟨replay, hl, h⟩ := h
    have hkey : input.idempotencyKey = some k := hkey
    cases replay with
    | some view =>
      obtain ⟨rfl, -, rfl⟩ := exec_pure_eq_ok.mp h
      rw [hkey] at hl
      exact hfound (fun hk => hlook (hkey.trans (congrArg some hk))) hl
    | none =>
      rw [← hkey]
      exact (recorded_giveDirectly h).written
  | _ => exact hlook.elim

end recorded

/-- The payment `f` is recorded, in rows that every run keeps sound. -/
structure Holding (f : Fulfillment) (db : LedgerDb) : Prop where
  sound : Sound db
  keyed : Keyed db
  recorded : ∃ value, { f with value } ∈ db.fulfillments

theorem holding_step {f : Fulfillment} {db : LedgerDb} (h : Holding f db) (inv : Invocation) :
    Holding f (inv.step db) := by
  obtain ⟨es, hev, -⟩ := step_evolves db inv
  have hstay := step_keeps paymentsStay_keeps db inv
  obtain ⟨value, hf⟩ := h.recorded
  obtain ⟨value', hf'⟩ := hstay.stays _ hf
  exact ⟨(hev h.sound).sound, hstay.keyed h.keyed, value', hf'⟩

theorem holding_run {f : Fulfillment} {db : LedgerDb} (h : Holding f db)
    (calls : List Invocation) : Holding f (ledgerRun db calls) := by
  induction calls generalizing db with
  | nil => exact h
  | cons inv calls ih => exact ih (holding_step h inv)

section replay
variable {ctx : OperationContext} {call : LedgerCall} {k : String} {f : Fulfillment}
  {db : LedgerDb}

/-- The gates that a call passed once, it passes again. -/
theorem gates_of_exec {draw : Draw} {c v c' v' : LedgerDb} {r : LedgerResult}
    (hlook : LooksUpKey call) (h : (call.program ctx draw).exec c v = .ok (r, c', v')) :
    assertPermission ctx.event.role .fulfillmentWrite = none ∧
      assertEventWritable ctx.event.status = none := by
  cases call with
  | recordFulfillment input =>
    obtain ⟨_, h, -⟩ := exec_map.mp h
    simp only [recordFulfillment, exec_gates_bind] at h
    exact ⟨h.1, h.2.1⟩
  | recordDirectContribution input =>
    obtain ⟨_, h, -⟩ := exec_map.mp h
    simp only [recordDirectContribution, exec_gates_bind] at h
    exact ⟨h.1, h.2.1⟩
  | _ => exact hlook.elim

/-- Where its payment is recorded, a call that looks its key up only reads. -/
theorem exec_replay (hkey : key call = some k) (hlook : LooksUpKey call)
    (hperm : assertPermission ctx.event.role .fulfillmentWrite = none)
    (hwritable : assertEventWritable ctx.event.status = none) (h : Holding f db)
    (he : f.eventId = ctx.event.eventId) (hf : f.idempotencyKey = some k) (draw : Draw) :
    ∃ value view, { f with value } ∈ db.fulfillments ∧ Describes view { f with value } ∧
      (call.program ctx draw).exec db db = .ok (.fulfillment view, db, db) := by
  obtain ⟨value, hm⟩ := h.recorded
  have hfind : db.findByKey ctx.event.eventId k = some { f with value } :=
    he ▸ findByKey_of_mem h.keyed hm hf
  have hk : k ≠ "" := by
    rintro rfl
    cases call with
    | recordFulfillment input => exact hlook hkey
    | recordDirectContribution input => exact hlook hkey
    | _ => exact hlook
  obtain ⟨view, hrun, hd⟩ := exec_findByIdempotencyKey_recorded (c := db) hk h.sound hfind
  refine ⟨value, view, hm, hd, ?_⟩
  cases call with
  | recordFulfillment input =>
    have hkey : input.idempotencyKey = some k := hkey
    refine exec_map.mpr ⟨view, ?_, rfl⟩
    simp only [recordFulfillment, exec_gates_bind, exec_refuse_bind, hkey]
    refine ⟨hperm, hwritable, rfl, ?_⟩
    rw [exec_bind, hrun]
    rfl
  | recordDirectContribution input =>
    have hkey : input.idempotencyKey = some k := hkey
    refine exec_map.mpr ⟨view, ?_, rfl⟩
    simp only [recordDirectContribution, exec_gates_bind, exec_refuse_bind, hkey]
    refine ⟨hperm, hwritable, rfl, ?_⟩
    rw [exec_bind, hrun]
    rfl
  | _ => exact hlook.elim

end replay

theorem sameRecord_of_describes {view first : FulfillmentView} {f : Fulfillment} {value : ℕ}
    (h : Describes view { f with value }) (h' : Describes first f) : SameRecord view first where
  id := h.id.trans h'.id.symm
  pledgeId := h.pledgeId.trans h'.pledgeId.symm
  kind := h.kind.trans h'.kind.symm
  method := h.method.trans h'.method.symm
  verificationStatus := h.verificationStatus.trans h'.verificationStatus.symm

/-- Steps that change nothing can be left out of a run. -/
theorem ledgerRun_filter {P : LedgerDb → Prop}
    (hP : ∀ db (inv : Invocation), P db → P (inv.step db)) {p : Invocation → Bool}
    (hp : ∀ db inv, P db → p inv = false → inv.step db = db)
    {db : LedgerDb} (h : P db) (calls : List Invocation) :
    ledgerRun db calls = ledgerRun db (calls.filter p) := by
  induction calls generalizing db with
  | nil => rfl
  | cons inv calls ih =>
    cases hinv : p inv with
    | true =>
      rw [List.filter_cons_of_pos hinv]
      exact ih (hP db inv h)
    | false =>
      rw [List.filter_cons_of_neg (by simp [hinv])]
      change ledgerRun (inv.step db) calls = _
      rw [hp db inv h hinv]
      exact ih h

/-- A call that does not look its key up either writes its payment under it, or writes a
pledge and no payment. -/
theorem recorded_unlooked {ctx : OperationContext} {call : LedgerCall} {k : String}
    (hkey : key call = some k) (hlook : ¬ LooksUpKey call) :
    (∀ draw c v c' v' r, (call.program ctx draw).exec c v = .ok (.fulfillment r, c', v') →
      Recorded ctx (some k) r v v') ∨
    ∀ draw c v c' v' r, (call.program ctx draw).exec c v = .ok (.fulfillment r, c', v') →
      v.pledges.has draw.pledgeId = false ∧ r.id = draw.pledgeId ∧ v'.pledges.has r.id = true := by
  cases call with
  | recordFulfillment input =>
    have hempty : input.idempotencyKey = some "" := by simpa [LooksUpKey] using hlook
    have hkey : input.idempotencyKey = some k := hkey
    refine .inl fun draw c v c' v' r h => ?_
    obtain ⟨_, h, hr⟩ := exec_map.mp h
    cases hr
    simp only [recordFulfillment, exec_gates_bind, exec_refuse_bind] at h
    obtain ⟨-, -, -, h⟩ := h
    rw [hempty] at h
    exact hkey ▸ recorded_payPledge h
  | recordDirectContribution input =>
    have hempty : input.idempotencyKey = some "" := by simpa [LooksUpKey] using hlook
    have hkey : input.idempotencyKey = some k := hkey
    refine .inl fun draw c v c' v' r h => ?_
    obtain ⟨_, h, hr⟩ := exec_map.mp h
    cases hr
    simp only [recordDirectContribution, exec_gates_bind, exec_refuse_bind] at h
    obtain ⟨-, -, -, h⟩ := h
    rw [hempty] at h
    exact hkey ▸ recorded_giveDirectly h
  | recordPledgeWithPayment input =>
    have hkey : input.idempotencyKey = some k := hkey
    by_cases hnow : input.receivedNow.getD 0 ≤ 0
    · refine .inr fun draw c v c' v' r h => ?_
      obtain ⟨_, h, hr⟩ := exec_map.mp h
      cases hr
      obtain ⟨hfree, ⟨-, hid, hhas⟩ | ⟨hsome, -⟩⟩ := recorded_recordPledgeWithPayment h
      · exact ⟨hfree, hid, hhas⟩
      · exact absurd hnow hsome
    · refine .inl fun draw c v c' v' r h => ?_
      obtain ⟨_, h, hr⟩ := exec_map.mp h
      cases hr
      obtain ⟨-, ⟨hnone, -⟩ | ⟨-, hrec⟩⟩ := recorded_recordPledgeWithPayment h
      · exact absurd hnone hnow
      · exact hkey ▸ hrec
  | createPerson ent input => cases hkey
  | createPledge input => cases hkey
  | correctCommittedValue i value => cases hkey
  | correctValue i value => cases hkey
  | cancelPledge i => cases hkey
  | mergePeople i j => cases hkey

/-- Calls that look their key up can be repeated. -/
theorem repeatable_of_looksUp {ctx : OperationContext} {call : LedgerCall} {k : String}
    {draw : Draw} {db : LedgerDb} {first : FulfillmentView} (hs : Sound db) (hkeyed : Keyed db)
    (hkey : key call = some k) (hlook : LooksUpKey call)
    (hfirst : ((call.program ctx draw).run db).1 = .ok (.fulfillment first)) :
    Repeatable ((call.program ctx draw).run db).2 ctx call first := by
  obtain ⟨c, v, hexec⟩ := run_eq_ok.mp hfirst
  obtain ⟨hperm, hwritable⟩ := gates_of_exec hlook hexec
  obtain ⟨f, hf, he, hfk, hd⟩ := recorded_looksUp hkey hlook hexec
  have hv : ((call.program ctx draw).run db).2 = v := by simp [run, hexec]
  have hstay := exec_writes paymentsStay_keeps.refl paymentsStay_keeps.trans
    (writes_program paymentsStay_keeps ctx draw call) hexec
  obtain ⟨es, hev, -⟩ := exec_program hexec
  rw [hv]
  have hold : Holding f v := ⟨(hev hs).sound, hstay.keyed hkeyed, f.value, hf⟩
  have hreplay {db' : LedgerDb} (h : Holding f db') (draw' : Draw) :=
    exec_replay hkey hlook hperm hwritable h he hfk draw'
  constructor
  · intro later draw' _ _
    obtain ⟨value, view, hm, hd', hrun⟩ := hreplay (holding_run hold later) draw'
    exact ⟨view, run_eq_ok.mpr ⟨_, _, hrun⟩, sameRecord_of_describes hd' hd, _, hm, hd'⟩
  · intro later _
    have hsame := ledgerRun_filter (P := Holding f) (fun db inv h => holding_step h inv)
      (p := fun inv => ¬ Repeats ctx call inv) (fun db inv h hinv => ?_) hold later
    · rw [← hsame]
      exact ⟨rfl, rfl, rfl⟩
    · -- a repeat finds the record and writes nothing
      obtain ⟨rfl, rfl⟩ : Repeats ctx call inv := by simpa using hinv
      obtain ⟨_, _, -, -, hrun⟩ := hreplay h inv.draw
      unfold Invocation.step
      split_ifs
      · rfl
      · simp [run, hrun]

/-- A call with a key, once it has answered, can be repeated without effect exactly when it
is one of the two that look the key up. -/
theorem keyed_call_repeatable_iff (db : LedgerDb) (calls : List Invocation)
    (ctx : OperationContext) (draw : Draw) (call : LedgerCall) (k : String)
    (first : FulfillmentView) (hkey : key call = some k)
    (hfirst : ((call.program ctx draw).run (ledgerRun (unpledged db) calls)).1 =
      .ok (.fulfillment first)) :
    Repeatable ((call.program ctx draw).run (ledgerRun (unpledged db) calls)).2 ctx call first ↔
      LooksUpKey call := by
  have hs := sound_ledgerRun (sound_unpledged db) calls
  have hkeyed := (ledgerRun_keeps paymentsStay_keeps (unpledged db) calls).keyed
    (keyed_unpledged db)
  refine ⟨fun h => ?_, fun hlook => repeatable_of_looksUp hs hkeyed hkey hlook hfirst⟩
  obtain ⟨c, v, hexec⟩ := run_eq_ok.mp hfirst
  have hv : ((call.program ctx draw).run (ledgerRun (unpledged db) calls)).2 = v := by
    simp [run, hexec]
  rw [hv] at h
  -- one repeat, right after the first call, tells
  obtain ⟨draw', hfresh⟩ := exists_fresh v
  obtain ⟨view, hrepeat, hsame, -⟩ := h.answers [] draw' (by simp [Between]) hfresh
  obtain ⟨c', v', hexec'⟩ := run_eq_ok.mp hrepeat
  by_contra hlook
  rcases @recorded_unlooked ctx _ _ hkey hlook with hwrites | hopens
  · -- the repeat would write a second payment under the key
    obtain ⟨f, hf, he, hfk, -⟩ := (hwrites _ _ _ _ _ _ hexec).written
    exact (hwrites _ _ _ _ _ _ hexec').free k rfl f hf he hfk
  · -- the repeat opens another pledge
    obtain ⟨-, -, hthere⟩ := hopens _ _ _ _ _ _ hexec
    obtain ⟨hfree, hid, -⟩ := hopens _ _ _ _ _ _ hexec'
    rw [← hsame.id, hid] at hthere
    have hfree : v.pledges.has draw'.pledgeId = false := hfree
    rw [hfree] at hthere
    cases hthere

def withKey : RecordFulfillmentInput :=
  { pledgeId := 20, value := 40, idempotencyKey := some "client-key-abc12345" }

/-- A ledger where John promised 100. -/
def promised : List Invocation :=
  [⟨owner, ⟨10, 0, 0, 0⟩, .createPerson { allowed := true } { displayName := "John" }, false⟩,
    ⟨owner, ⟨0, 20, 0, 1⟩, .createPledge { personId := 10, committedValue := 100 }, false⟩]

def firstAnswer : FulfillmentView :=
  ⟨30, 20, "40", .payment, .unknown, .reported, .partiallyFulfilled, "60", false⟩

theorem keyed_payment_repeatable :
    key (.recordFulfillment withKey) = some "client-key-abc12345" ∧
      Repeatable (((LedgerCall.recordFulfillment withKey).program owner ⟨0, 0, 30, 2⟩).run
        (ledgerRun (unpledged .empty) promised)).2 owner (.recordFulfillment withKey)
        firstAnswer :=
  ⟨rfl, (keyed_call_repeatable_iff .empty promised owner ⟨0, 0, 30, 2⟩
    (.recordFulfillment withKey) "client-key-abc12345" firstAnswer rfl (by decide)).mpr
      (by simp [LooksUpKey, withKey])⟩

/-- One promise under a key, made again: two pledges. -/
def pledgeOnly : LedgerCall := .recordPledgeWithPayment
  { personId := 10, committedValue := 100, idempotencyKey := some "client-key-abc12345" }

theorem keyed_pledge_recorded_twice :
    ¬ ∀ (db : LedgerDb) (calls : List Invocation) (ctx : OperationContext) (draw : Draw)
      (call : LedgerCall) (k : String) (first : FulfillmentView), key call = some k →
      ((call.program ctx draw).run (ledgerRun (unpledged db) calls)).1 =
        .ok (.fulfillment first) →
      Repeatable ((call.program ctx draw).run (ledgerRun (unpledged db) calls)).2 ctx call
        first := by
  intro h
  have hrep := h .empty promised owner ⟨0, 21, 0, 2⟩ pledgeOnly "client-key-abc12345"
    ⟨21, 21, "0", .payment, .unknown, .reported, .pledged, "100", false⟩ rfl (by decide)
  obtain ⟨-, hpledges, -⟩ := hrep.once [⟨owner, ⟨0, 22, 0, 3⟩, pledgeOnly, false⟩]
    (by simp [Between, Repeats])
  exact absurd (congrArg (fun t => t.rows.length) hpledges) (by decide)

end Akabbo.PaymentReplay
