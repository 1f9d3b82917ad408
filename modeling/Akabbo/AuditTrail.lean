import Akabbo.LedgerRuns
import Akabbo.ProgramLogic

/-!
# The ledger read back from its audit trail

Folding an event's audit rows in the order they were written gives the event's pledges
and payments. Each call first changes rows and then writes what it changed, so in
between the rows owe the trail one step.
-/
namespace Akabbo.AuditTrail
open Access PledgeStatus RowTable StatementProgram ProgramLogic LedgerState LedgerWrites
open LedgerEffects LedgerSpecs LedgerStatements LedgerRuns StatementProgram.Program

structure PledgeLine where
  id : ℕ
  personId : ℕ
  committedValue : ℕ
  cancelled : Bool
  deriving DecidableEq, Repr

structure PaymentLine where
  id : ℕ
  pledgeId : ℕ
  value : ℕ
  deriving DecidableEq, Repr

structure Replayed where
  pledges : List PledgeLine
  payments : List PaymentLine
  deriving DecidableEq, Repr

namespace Replayed
variable (r : Replayed)

def addPledge (line : PledgeLine) : Replayed := { r with pledges := r.pledges ++ [line] }

def addPayment (line : PaymentLine) : Replayed := { r with payments := r.payments ++ [line] }

def changePledge (i : ℕ) (f : PledgeLine → PledgeLine) : Replayed :=
  { r with pledges := r.pledges.map fun p => if p.id == i then f p else p }

def revise (i value : ℕ) : Replayed :=
  { r with payments := r.payments.map fun f => if f.id == i then { f with value } else f }

def move (source target : ℕ) : Replayed :=
  { r with
    pledges := r.pledges.map fun p =>
      if p.personId == source then { p with personId := target } else p }

/-- The status of a replayed pledge, from what the replay holds of its payments. -/
def status (p : PledgeLine) : Status :=
  deriveStatus p.committedValue
    (sumWhere r.payments (fun f => f.pledgeId == p.id) PaymentLine.value) p.cancelled

end Replayed

/-- `BigInt(text)` of an amount that `moneyToString` wrote. -/
def readMoney (text : String) : ℕ := Nat.ofDigitChars 10 text.toList 0

@[simp] theorem readMoney_moneyToString (value : ℕ) : readMoney (moneyToString value) = value := by
  simp [readMoney, moneyToString, toString, Nat.repr]

def idField (snapshot : Option (List (String × Json))) (key : String) : Option ℕ :=
  match snapshot.bind (List.lookup key) with
  | some (.id i) => some i
  | _ => none

def moneyField (snapshot : Option (List (String × Json))) (key : String) : Option ℕ :=
  match snapshot.bind (List.lookup key) with
  | some (.text t) => some (readMoney t)
  | _ => none

/-- What one row says happened. Rows about anything but pledges and payments say nothing
here. -/
def replayRow (r : Replayed) (row : AuditEvent) : Replayed :=
  if row.action = "pledge:create" ∨ row.action = "pledge:create_direct" then
    match idField row.newValue "personId", moneyField row.newValue "committedValue" with
    | some personId, some committedValue =>
        r.addPledge ⟨row.resourceId, personId, committedValue, false⟩
    | _, _ => r
  else if row.action = "pledge:correct" then
    match moneyField row.newValue "committedValue" with
    | some committedValue => r.changePledge row.resourceId fun p => { p with committedValue }
    | none => r
  else if row.action = "pledge:cancel" then
    r.changePledge row.resourceId fun p => { p with cancelled := true }
  else if row.action = "fulfillment:create" then
    match idField row.newValue "pledgeId", moneyField row.newValue "value" with
    | some pledgeId, some value => r.addPayment ⟨row.resourceId, pledgeId, value⟩
    | _, _ => r
  else if row.action = "fulfillment:correct" then
    match moneyField row.newValue "value" with
    | some value => r.revise row.resourceId value
    | none => r
  else if row.action = "person:merge" then
    match idField row.oldValue "mergedFrom" with
    | some source => r.move source row.resourceId
    | none => r
  else r

def replay (rows : List AuditEvent) : Replayed := rows.foldl replayRow ⟨[], []⟩

def pledgeLine (p : Pledge) : PledgeLine :=
  ⟨p.id, p.personId, p.committedValue, p.status == .cancelled⟩

def paymentLine (f : Fulfillment) : PaymentLine := ⟨f.id, f.pledgeId, f.value⟩

/-- The pledges and payments that an event has stored. -/
def recorded (db : LedgerDb) (e : ℕ) : Replayed :=
  ⟨(db.pledges.rows.filter fun p => p.eventId == e).map pledgeLine,
    (db.fulfillments.rows.filter fun f => f.eventId == e).map paymentLine⟩

def trail (db : LedgerDb) (e : ℕ) : List AuditEvent :=
  db.auditEvents.filter fun row => row.eventId == e

def Mirrored (db : LedgerDb) : Prop := ∀ e, recorded db e = replay (trail db e)

/-- The rows of event `e` are one step ahead of its trail. -/
def Owes (e : ℕ) (g : Replayed → Replayed) (db : LedgerDb) : Prop :=
  ∀ d, recorded db d = if d = e then g (replay (trail db d)) else replay (trail db d)

theorem owes_id {db : LedgerDb} (h : Mirrored db) (e : ℕ) : Owes e id db := by
  intro d
  rw [h d]
  simp

theorem mirrored_appendAudit {db : LedgerDb} {e : ℕ} {g : Replayed → Replayed} {row : AuditEvent}
    (h : Owes e g db) (he : row.eventId = e) (hg : ∀ r, replayRow r row = g r) :
    Mirrored (db.appendAudit row) := by
  intro d
  have hsame : recorded (db.appendAudit row) d = recorded db d := rfl
  rw [hsame, h d]
  simp only [trail, LedgerDb.appendAudit, List.filter_append]
  split_ifs with hd
  · subst hd
    subst he
    simp [replay, hg]
  · have hne : (row.eventId == d) = false := by
      rw [he]
      exact beq_eq_false_iff_ne.mpr (Ne.symm hd)
    simp [hne]

/-- Rows and trail that read the same. -/
structure Same (db db' : LedgerDb) : Prop where
  audit : db'.auditEvents = db.auditEvents
  recorded : ∀ e, recorded db' e = recorded db e

theorem owes_same {db db' : LedgerDb} {e : ℕ} {g : Replayed → Replayed} (hs : Same db db')
    (h : Owes e g db) : Owes e g db' := by
  intro d
  rw [hs.recorded, trail, hs.audit]
  exact h d

theorem mirrored_same {db db' : LedgerDb} (hs : Same db db') (h : Mirrored db) : Mirrored db' := by
  intro d
  rw [hs.recorded, trail, hs.audit]
  exact h d

/-- A change of the rows that the trail does not have yet. -/
theorem owes_of_mirrored {db db' : LedgerDb} {e : ℕ} {g : Replayed → Replayed}
    (h : Mirrored db) (ha : db'.auditEvents = db.auditEvents)
    (hr : ∀ d, recorded db' d = if d = e then g (recorded db d) else recorded db d) :
    Owes e g db' := by
  intro d
  rw [hr, h d, trail, trail, ha]

section rows
variable {db : LedgerDb} {e i : ℕ}

/-- An UPDATE within event `e` changes what event `e` shows and nothing else. -/
theorem map_filter_update {ρ lam : Type} (rows : List ρ) (event : ρ → ℕ) (sel : ρ → Bool)
    (f : ρ → ρ) (line : ρ → lam) (hf : ∀ r, event (f r) = event r) (d : ℕ) :
    ((rows.map fun r => if event r == e && sel r then f r else r).filter
        fun r => event r == d).map line =
      if d = e then (rows.filter fun r => event r == d).map fun r =>
        line (if sel r then f r else r)
      else (rows.filter fun r => event r == d).map line := by
  induction rows with
  | nil => simp
  | cons r rows ih =>
    have hkeep : event (if event r == e && sel r then f r else r) = event r := by
      split_ifs
      · exact hf r
      · rfl
    rw [List.map_cons, List.filter_cons, List.filter_cons, hkeep]
    by_cases hr : event r = d
    · simp only [hr, BEq.rfl, if_true, List.map_cons]
      rw [ih]
      split_ifs with hd <;> simp_all
    · have hne : (event r == d) = false := beq_eq_false_iff_ne.mpr hr
      simp only [hne, Bool.false_eq_true, if_false]
      exact ih

theorem recorded_updatePledge {f : Pledge → Pledge} {hf : ∀ p, (f p).id = p.id}
    {g : PledgeLine → PledgeLine} (hfe : ∀ p, (f p).eventId = p.eventId)
    (hg : ∀ p ∈ db.pledges, p.eventId = e → p.id = i → pledgeLine (f p) = g (pledgeLine p))
    (d : ℕ) : recorded (db.updatePledge e i f hf) d =
      if d = e then (recorded db d).changePledge i g else recorded db d := by
  have hmap := @map_filter_update e _ _ db.pledges.rows Pledge.eventId (fun p => p.id == i) f
    pledgeLine hfe d
  unfold recorded
  rw [show (db.updatePledge e i f hf).pledges.rows =
    db.pledges.rows.map fun p => if p.eventId == e && p.id == i then f p else p from rfl, hmap]
  split_ifs with hd
  · subst hd
    simp only [Replayed.changePledge, List.map_map]
    refine congrArg₂ Replayed.mk (List.map_congr_left fun p hp => ?_) rfl
    obtain ⟨hpm, hpe⟩ := List.mem_filter.mp hp
    have hline := hg p hpm (by simpa using hpe)
    change _ = if p.id == i then g (pledgeLine p) else pledgeLine p
    split_ifs with hpi
    · exact hline (by simpa using hpi)
    · rfl
  · rfl

theorem recorded_insertPledge {p : Pledge} (h : db.pledges.has p.id = false) (d : ℕ) :
    recorded (db.insertPledge p) d =
      if d = p.eventId then (recorded db d).addPledge (pledgeLine p) else recorded db d := by
  have hrows : (db.insertPledge p).pledges.rows = db.pledges.rows ++ [p] := Table.insertNew_rows h
  unfold recorded
  rw [hrows, List.filter_append]
  split_ifs with hd
  · subst hd
    simp [Replayed.addPledge, LedgerDb.insertPledge]
  · have hne : (p.eventId == d) = false := beq_eq_false_iff_ne.mpr (Ne.symm hd)
    simp [hne, LedgerDb.insertPledge]

theorem recorded_insertFulfillment {f : Fulfillment} (h : db.fulfillments.has f.id = false)
    (d : ℕ) : recorded (db.insertFulfillment f) d =
      if d = f.eventId then (recorded db d).addPayment (paymentLine f) else recorded db d := by
  have hrows : (db.insertFulfillment f).fulfillments.rows = db.fulfillments.rows ++ [f] :=
    Table.insertNew_rows h
  unfold recorded
  rw [hrows, List.filter_append]
  split_ifs with hd
  · subst hd
    simp [Replayed.addPayment, LedgerDb.insertFulfillment]
  · have hne : (f.eventId == d) = false := beq_eq_false_iff_ne.mpr (Ne.symm hd)
    simp [hne, LedgerDb.insertFulfillment]

theorem recorded_setFulfillmentValue (value : ℕ) (d : ℕ) :
    recorded (db.setFulfillmentValue e i value) d =
      if d = e then (recorded db d).revise i value else recorded db d := by
  have hmap := @map_filter_update e _ _ db.fulfillments.rows Fulfillment.eventId
    (fun f => f.id == i) (fun f => { f with value }) paymentLine (fun _ => rfl) d
  unfold recorded
  rw [show (db.setFulfillmentValue e i value).fulfillments.rows = db.fulfillments.rows.map fun f =>
    if f.eventId == e && f.id == i then { f with value } else f from rfl, hmap]
  split_ifs
  · simp only [Replayed.revise, List.map_map]
    refine congrArg₂ Replayed.mk rfl (List.map_congr_left fun f _ => ?_)
    change _ = if f.id == i then { paymentLine f with value } else paymentLine f
    split_ifs <;> rfl
  · rfl

theorem recorded_movePledges (target : ℕ) (d : ℕ) :
    recorded (db.movePledges e i target) d =
      if d = e then (recorded db d).move i target else recorded db d := by
  have hmap := @map_filter_update e _ _ db.pledges.rows Pledge.eventId
    (fun p => p.personId == i) (fun p => { p with personId := target }) pledgeLine (fun _ => rfl) d
  unfold recorded
  rw [show (db.movePledges e i target).pledges.rows = db.pledges.rows.map fun p =>
    if p.eventId == e && p.personId == i then { p with personId := target } else p from rfl, hmap]
  split_ifs
  · simp only [Replayed.move, List.map_map]
    refine congrArg₂ Replayed.mk (List.map_congr_left fun p _ => ?_) rfl
    change _ = if p.personId == i then { pledgeLine p with personId := target } else pledgeLine p
    split_ifs <;> rfl
  · rfl

end rows

section services
variable {ctx : OperationContext} {draw : Draw} {P : LedgerDb → Prop}

abbrev Tracks {ρ : Type} (p : LedgerProgram ρ) : Prop :=
  Triple Mirrored Mirrored p fun _ => Mirrored

theorem same_refl (db : LedgerDb) : Same db db := ⟨rfl, fun _ => rfl⟩

theorem same_trans {db db' db'' : LedgerDb} (h : Same db db') (h' : Same db' db'') :
    Same db db'' := ⟨h'.audit.trans h.audit, fun e => (h'.recorded e).trans (h.recorded e)⟩

/-- Statements that touch no pledge, payment or audit row. -/
theorem triple_same {ρ : Type} {p : LedgerProgram ρ} (hp : Writes False Same p)
    (hP : ∀ s s', Same s s' → P s → P s') : Triple Mirrored P p fun _ => P :=
  triple_of_writes same_refl same_trans hp hP

theorem same_enqueue (row : OutboxRow) : Writes False Same (enqueue row) :=
  writes_accept same_refl _ fun _ _ => ⟨rfl, fun _ => rfl⟩

theorem same_insertPerson (q : Person) : Writes False Same (LedgerWrites.insertPerson q) :=
  writes_accept same_refl _ fun _ _ => ⟨rfl, fun _ => rfl⟩

theorem same_setUserId (e i : ℕ) (userId : Option ℕ) :
    Writes False Same (LedgerWrites.setUserId e i userId) :=
  writes_accept same_refl _ fun _ _ => ⟨rfl, fun _ => rfl⟩

theorem same_moveFiles (e i j : ℕ) : Writes False Same (LedgerWrites.moveFiles e i j) :=
  writes_modify _ fun _ => ⟨rfl, fun _ => rfl⟩

theorem same_deletePerson (e i : ℕ) : Writes False Same (LedgerWrites.deletePerson e i) :=
  writes_accept same_refl _ fun _ _ => ⟨rfl, fun _ => rfl⟩

/-- The audit row that says what was done settles what is owed. -/
theorem triple_writeAudit {e : ℕ} {g : Replayed → Replayed} {action resourceType : String}
    {i : ℕ} {source : ProvenanceSource} {old new : Option (List (String × Json))}
    (he : ctx.event.eventId = e)
    (hg : ∀ r, replayRow r ⟨ctx.event.eventId, some ctx.actor.userId, action, resourceType, i,
      source, old, new⟩ = g r) :
    Triple Mirrored (Owes e g) (writeAudit ctx action resourceType i source old new)
      fun _ => Mirrored :=
  triple_modify fun _ hv => mirrored_appendAudit hv he hg

theorem triple_insertPledge {p : Pledge} :
    Triple Mirrored Mirrored (LedgerWrites.insertPledge p) fun _ v =>
      Owes p.eventId (·.addPledge (pledgeLine p)) v ∧
        v.findPledge p.eventId p.id = some p := by
  refine triple_accept fun v hv hviol => ?_
  have hfresh := pledgeViolation_fresh hviol
  refine ⟨owes_of_mirrored hv rfl (recorded_insertPledge hfresh), ?_⟩
  exact findPledge_of_mem ((Table.mem_insertNew hfresh).mpr (.inr rfl))

/-- A pledge that a payment may go to. -/
def Live (e i : ℕ) (db : LedgerDb) : Prop :=
  ∃ p, db.findPledge e i = some p ∧ p.status ≠ .cancelled

/-- A status that leaves the pledge as cancelled as it was leaves the trail owing nothing
more. -/
theorem triple_setStatus {e i : ℕ} {g : Replayed → Replayed} {status : Status} :
    Triple Mirrored (fun v => Owes e g v ∧ ∀ p, v.findPledge e i = some p →
        (status == .cancelled) = (p.status == .cancelled))
      (setStatus e i status) fun _ => Owes e g := by
  refine triple_modifyChecked fun v a hv _ => ?_
  obtain ⟨howes, hcancelled⟩ := hv
  have hsame := @recorded_updatePledge v e i (fun p => { p with status }) (fun _ => rfl) id
    (fun _ => rfl) ?_
  · have hkeep : Same v (v.setPledgeStatus e i status) :=
      ⟨rfl, fun d => (hsame d).trans (by simp [Replayed.changePledge])⟩
    exact owes_same hkeep howes
  · rintro p hp rfl rfl
    simp only [pledgeLine, id, hcancelled p (findPledge_of_mem hp)]

theorem deriveStatus_live (committed received : ℕ) :
    deriveStatus committed received ≠ .cancelled := by
  unfold deriveStatus
  split_ifs <;> simp_all

theorem tracks_writeFulfillment (input : WriteFulfillmentInput) :
    Triple Mirrored (fun v => Mirrored v ∧ Live ctx.event.eventId input.pledgeId v)
      (writeFulfillment ctx input draw) fun _ => Mirrored := by
  refine triple_bind (Q := fun _ v =>
    Owes ctx.event.eventId (·.addPayment (paymentLine (newFulfillment ctx input draw))) v ∧
      Live ctx.event.eventId input.pledgeId v) (triple_accept fun v hv hviol => ⟨?_, hv.2⟩) fun _ => ?_
  · exact owes_of_mirrored hv.1 rfl (recorded_insertFulfillment (fulfillmentViolation_fresh hviol))
  refine triple_bind (triple_query _) fun total => ?_
  refine triple_bind (triple_conseq triple_setStatus (fun v hv => ⟨hv.1.1, fun p hp => ?_⟩)
    fun _ _ hv => hv) fun _ => ?_
  · obtain ⟨q, hq, hlive⟩ := hv.1.2
    obtain rfl := Option.some.inj (hq.symm.trans hp)
    have hnew := deriveStatus_live input.committedValue total
    simp [hlive, hnew]
  refine triple_bind (triple_writeAudit rfl fun r => ?_) fun _ => ?_
  · simp [replayRow, idField, moneyField, paymentLine, newFulfillment, List.lookup_cons]
  · exact triple_bind (triple_same (same_enqueue _) fun _ _ => mirrored_same) fun _ =>
      triple_pure fun _ hv => hv

/-- Checks and lookups leave everything as it is. -/
theorem triple_checks {ρ : Type} {p : LedgerProgram ρ} (hp : Writes False (fun s s' => s' = s) p) :
    Triple Mirrored P p fun _ => P :=
  triple_of_writes (R := fun s s' => s' = s) (fun _ => rfl) (fun h h' => h'.trans h) hp
    fun _ _ h hv => h ▸ hv

theorem tracks_recordFulfillment (input : RecordFulfillmentInput) :
    Tracks (recordFulfillment ctx input draw) := by
  refine triple_bind (triple_checks (writes_gates ctx _)) fun _ =>
    triple_bind (triple_checks (writes_refuse _)) fun _ =>
    triple_bind (triple_checks (writes_findByIdempotencyKey ctx _)) fun replay => ?_
  cases replay with
  | some view => exact triple_pure fun _ hv => hv
  | none =>
    refine triple_bind (triple_query _) fun found =>
      triple_bind triple_orThrow fun p =>
      triple_bind triple_refuse fun _ =>
      triple_bind (triple_checks (writes_runIf (writes_bind (writes_query _)
        fun _ => writes_refuse _))) fun _ =>
      triple_bind (triple_checks (writes_assertWithinCommitted ctx _ _ _ _)) fun _ =>
      triple_conseq (tracks_writeFulfillment _) (fun v hv => ?_) fun _ _ hv => hv
    obtain ⟨⟨⟨hm, hfound⟩, hp⟩, hlive⟩ := hv
    exact ⟨hm, p, hfound.symm.trans hp, by simpa using hlive⟩

theorem tracks_createPerson (ent : EntitlementDecision) (input : CreatePersonInput) :
    Tracks (createPerson ctx ent input draw) := by
  refine triple_bind (triple_checks (writes_gates ctx _)) fun _ =>
    triple_bind (triple_checks (writes_refuse _)) fun _ =>
    triple_bind (triple_checks (writes_runIf (writes_runIf (writes_bind
      (writes_query _) fun _ => writes_refuse _)))) fun _ =>
    triple_bind (triple_same (same_insertPerson _) fun _ _ => mirrored_same) fun _ =>
    triple_bind (triple_conseq (triple_writeAudit rfl fun r => ?_) (fun _ hv => owes_id hv _)
      fun _ _ hv => hv) fun _ => triple_pure fun _ hv => hv
  simp [replayRow]

theorem tracks_createPledge (input : CreatePledgeInput) :
    Tracks (createPledge ctx input draw) := by
  refine triple_bind (triple_checks (writes_gates ctx _)) fun _ =>
    triple_bind (triple_checks (writes_refuse _)) fun _ =>
    triple_bind (triple_checks (writes_requirePerson ctx _)) fun _ =>
    triple_bind triple_insertPledge fun _ =>
    triple_bind (triple_conseq (triple_writeAudit rfl fun r => ?_) (fun _ hv => hv.1)
      fun _ _ hv => hv) fun _ => triple_pure fun _ hv => hv
  simp [replayRow, idField, moneyField, List.lookup_cons]
  rfl

/-- A new pledge and its payment, once the audit row of the pledge is known. -/
theorem tracks_newPledge {p : Pledge} (hp : p.status = .pledged)
    (hpe : p.eventId = ctx.event.eventId) {action resourceType : String} {i : ℕ}
    {source : ProvenanceSource} {old new : Option (List (String × Json))}
    (hg : ∀ r, replayRow r ⟨ctx.event.eventId, some ctx.actor.userId, action, resourceType, i,
      source, old, new⟩ = r.addPledge (pledgeLine p)) :
    Triple Mirrored Mirrored
      (LedgerWrites.insertPledge p >>= fun _ =>
        writeAudit ctx action resourceType i source old new)
      fun _ v => Mirrored v ∧ Live ctx.event.eventId p.id v := by
  refine triple_bind triple_insertPledge fun _ => triple_modify fun v hv => ⟨?_, p, ?_, ?_⟩
  · exact mirrored_appendAudit hv.1 hpe.symm hg
  · rw [← hpe]
    exact hv.2
  · rw [hp]
    simp

theorem tracks_giveDirectly (input : RecordDirectContributionInput)
    (hperson : input.personId.isSome) : Tracks (giveDirectly ctx input draw) := by
  obtain ⟨personId, hi⟩ := Option.isSome_iff_exists.mp hperson
  refine triple_bind (Q := fun i v => Mirrored v ∧ i = personId) ?_ fun i => ?_
  · simp only [directContributor, hi]
    exact triple_bind (triple_checks (writes_requirePerson ctx _)) fun _ =>
      triple_pure fun _ hv => ⟨hv, rfl⟩
  · dsimp only
    rw [← bind_assoc]
    intro c v hc hv
    obtain ⟨hm, rfl⟩ := hv
    refine triple_bind (tracks_newPledge rfl rfl fun r => ?_)
      (fun _ => triple_conseq (tracks_writeFulfillment _) (fun _ hw => hw) fun _ _ hw => hw)
      c v hc hm
    simp [replayRow, idField, moneyField, List.lookup_cons, hi]
    rfl

theorem tracks_recordDirectContribution (input : RecordDirectContributionInput)
    (hperson : input.personId.isSome) : Tracks (recordDirectContribution ctx input draw) := by
  refine triple_bind (triple_checks (writes_gates ctx _)) fun _ =>
    triple_bind (triple_checks (writes_refuse _)) fun _ =>
    triple_bind (triple_checks (writes_findByIdempotencyKey ctx _)) fun replay => ?_
  cases replay with
  | some view => exact triple_pure fun _ hv => hv
  | none => exact tracks_giveDirectly input hperson

theorem tracks_recordPledgeWithPayment (input : RecordPledgeWithPaymentInput) :
    Tracks (recordPledgeWithPayment ctx input draw) := by
  refine triple_bind (triple_checks (writes_gates ctx _)) fun _ =>
    triple_bind (triple_checks (writes_refuse _)) fun _ =>
    triple_bind (triple_checks (writes_requirePerson ctx _)) fun _ =>
    triple_bind (triple_checks (writes_refuse _)) fun _ => ?_
  dsimp only
  rw [← bind_assoc]
  refine triple_bind (tracks_newPledge rfl rfl fun r => ?_) fun _ => ?_
  · simp [replayRow, idField, moneyField, List.lookup_cons]
    rfl
  · split_ifs
    · exact triple_pure fun _ hv => hv.1
    · exact triple_conseq (tracks_writeFulfillment _) (fun _ hv => hv) fun _ _ hv => hv

/-- A correction keeps a cancelled pledge cancelled and any other one live. -/
theorem deriveStatus_cancelled_iff (committed received : ℕ) (status : Status) :
    (deriveStatus committed received (status = .cancelled) == .cancelled) =
      (status == .cancelled) := by
  by_cases hs : status = .cancelled
  · simp [deriveStatus, hs]
  · have hlive := deriveStatus_live committed received
    simp [hs, hlive]

theorem tracks_correctCommittedValue (i value : ℕ) :
    Tracks (correctCommittedValue ctx i value) := by
  refine triple_bind (triple_checks (writes_gates ctx _)) fun _ =>
    triple_bind (triple_query _) fun found =>
    triple_bind triple_orThrow fun current =>
    triple_bind (triple_query _) fun total =>
    triple_bind (Q := fun _ => Owes ctx.event.eventId
      (·.changePledge i fun p => { p with committedValue := value }))
      (triple_modifyChecked fun v _ hv _ => ?_) fun _ =>
    triple_bind (triple_writeAudit rfl fun r => ?_) fun _ => triple_pure fun _ hv => hv
  · obtain ⟨⟨⟨hm, hfound⟩, hcur⟩, -⟩ := hv
    refine owes_of_mirrored hm rfl (recorded_updatePledge (fun _ => rfl) ?_)
    rintro p hp - rfl
    obtain ⟨hcm, -, hci⟩ := findPledge_mem (hfound.symm.trans hcur)
    obtain rfl := Table.key_inj hcm hp hci
    simp only [pledgeLine]
    rw [deriveStatus_cancelled_iff]
  · simp [replayRow, moneyField]

theorem tracks_cancelPledge (i : ℕ) : Tracks (cancelPledge ctx i) := by
  refine triple_bind (triple_checks (writes_gates ctx _)) fun _ =>
    triple_bind (triple_query _) fun found =>
    triple_bind triple_orThrow fun current =>
    triple_bind (Q := fun _ => Owes ctx.event.eventId
      (·.changePledge i fun p => { p with cancelled := true }))
      (triple_modifyChecked fun v _ hv _ => ?_) fun _ =>
    triple_bind (triple_writeAudit rfl fun r => ?_) fun _ => triple_pure fun _ hv => hv
  · exact owes_of_mirrored hv.1.1 rfl (recorded_updatePledge (fun _ => rfl) fun _ _ _ _ => rfl)
  · simp [replayRow]

theorem tracks_correctValue (i value : ℕ) : Tracks (correctValue ctx i value) := by
  refine triple_bind (triple_checks (writes_gates ctx _)) fun _ =>
    triple_bind (triple_query _) fun found =>
    triple_bind triple_orThrow fun current =>
    triple_bind (triple_query _) fun before =>
    triple_bind (triple_checks ?_) fun _ =>
    triple_bind (Q := fun _ => Owes ctx.event.eventId (·.revise i value))
      (triple_modifyChecked fun v _ hv _ => ?_) fun _ =>
    triple_bind (triple_query _) fun pledge =>
    triple_bind (triple_query _) fun total =>
    triple_bind (triple_conseq triple_setStatus (fun v hv => ⟨hv.1.1, fun p hp => ?_⟩)
      fun _ _ hv => hv) fun _ =>
    triple_bind (triple_writeAudit rfl fun r => ?_) fun _ => triple_pure fun _ hv => hv
  · cases before with
    | some p => exact writes_assertWithinCommitted ctx _ _ _ _
    | none => trivial
  · exact owes_of_mirrored hv.1.1.1 rfl (recorded_setFulfillmentValue value)
  · have hpledge : pledge = some p := hv.1.2.trans hp
    rw [hpledge, Option.any_some, deriveStatus_cancelled_iff]
  · simp [replayRow, moneyField]

theorem tracks_mergePeople (source target : ℕ) : Tracks (mergePeople ctx source target) := by
  have hkeep (s s' : LedgerDb) (h : Same s s') :
      Owes ctx.event.eventId (·.move source target) s →
        Owes ctx.event.eventId (·.move source target) s' := owes_same h
  refine triple_bind (triple_checks (writes_gates ctx _)) fun _ =>
    triple_bind (triple_checks (writes_refuse _)) fun _ =>
    triple_bind (triple_checks (writes_query _)) fun _ =>
    triple_bind (triple_checks (writes_query _)) fun _ =>
    triple_bind (triple_checks (writes_orThrow _ _)) fun s =>
    triple_bind (triple_checks (writes_orThrow _ _)) fun t =>
    triple_bind (triple_checks (writes_refuse _)) fun _ =>
    triple_bind (triple_same (writes_runIf (same_setUserId ..)) fun _ _ => mirrored_same) fun _ =>
    triple_bind (Q := fun _ => Owes ctx.event.eventId (·.move source target))
      (triple_modifyChecked fun v _ hv _ =>
        owes_of_mirrored hv rfl (recorded_movePledges target)) fun _ =>
    triple_bind (triple_same (same_moveFiles ..) hkeep) fun _ =>
    triple_bind (triple_same (writes_runIf (same_setUserId ..)) hkeep) fun _ =>
    triple_bind (triple_writeAudit rfl fun r => ?_) fun _ =>
    triple_bind (triple_same (same_deletePerson ..) fun _ _ => mirrored_same) fun _ =>
    triple_pure fun _ hv => hv
  simp [replayRow, idField]

/-- A direct gift names its contributor, as both of its callers do. -/
def NamesPerson : LedgerCall → Prop
  | .recordDirectContribution input => input.personId.isSome
  | _ => True

theorem tracks_program (call : LedgerCall) (h : NamesPerson call) :
    Tracks (call.program ctx draw) := by
  cases call with
  | createPerson ent input => exact triple_map (tracks_createPerson ent input)
  | createPledge input => exact triple_map (tracks_createPledge input)
  | recordFulfillment input => exact triple_map (tracks_recordFulfillment input)
  | recordDirectContribution input => exact triple_map (tracks_recordDirectContribution input h)
  | recordPledgeWithPayment input => exact triple_map (tracks_recordPledgeWithPayment input)
  | correctCommittedValue i value => exact triple_map (tracks_correctCommittedValue i value)
  | correctValue i value => exact triple_map (tracks_correctValue i value)
  | cancelPledge i => exact triple_map (tracks_cancelPledge i)
  | mergePeople i j => exact triple_map (tracks_mergePeople i j)

end services

theorem mirrored_run {db : LedgerDb} (hm : Mirrored db) {calls : List Invocation}
    (hcalls : ∀ inv ∈ calls, NamesPerson inv.call) : Mirrored (ledgerRun db calls) := by
  induction calls generalizing db with
  | nil => exact hm
  | cons inv calls ih =>
    refine ih ?_ fun inv' h => hcalls inv' (List.mem_cons_of_mem _ h)
    unfold Invocation.step
    split_ifs
    · exact hm
    · exact run_triple (tracks_program inv.call (hcalls inv List.mem_cons_self)) hm hm

/-- A ledger before its first pledge, with no history. -/
def unwritten (db : LedgerDb) : LedgerDb := unpledged { db with auditEvents := [] }

theorem mirrored_unwritten (db : LedgerDb) : Mirrored (unwritten db) := fun _ => rfl

/-- What an event has stored, with each pledge's status as the replay derives it. -/
structure ReadBack (r : Replayed) (db : LedgerDb) (e : ℕ) : Prop where
  pledges : r.pledges.map (fun p => (p.id, p.personId, p.committedValue, r.status p)) =
    (db.pledges.rows.filter fun p => p.eventId == e).map
      fun p => (p.id, p.personId, p.committedValue, p.status)
  payments : r.payments.map (fun f => (f.id, f.pledgeId, f.value)) =
    (db.fulfillments.rows.filter fun f => f.eventId == e).map fun f => (f.id, f.pledgeId, f.value)

/-- Over the payments an event shows, a pledge's sum is the one the event reads. -/
theorem sumWhere_recorded (db : LedgerDb) (e i : ℕ) :
    sumWhere (recorded db e).payments (fun f => f.pledgeId == i) PaymentLine.value =
      db.sumFulfillments e i := by
  simp only [recorded, sumWhere, LedgerDb.sumFulfillments, List.filter_map, List.map_map,
    List.filter_filter]
  refine congrArg (fun rows => (List.map Fulfillment.value rows).sum) (List.filter_congr fun f _ => ?_)
  exact Bool.and_comm ..

/-- In sound rows the status that the lines of an event derive is the stored one. -/
theorem status_pledgeLine {db : LedgerDb} (hs : Sound db) {p : Pledge} (hp : p ∈ db.pledges) :
    (recorded db p.eventId).status (pledgeLine p) = p.status := by
  have hsum : db.sumFulfillments p.eventId p.id = paid db p.id :=
    sumFulfillments_eq_paid fun f hf hfi => owned_event hs (Table.get?_of_mem hp) hf hfi
  have hstored : p.status = deriveStatus p.committedValue (paid db p.id) (p.status == .cancelled) :=
    hs.status p hp
  unfold Replayed.status
  rw [show (pledgeLine p).id = p.id from rfl, sumWhere_recorded, hsum]
  exact hstored.symm

theorem readBack_recorded {db : LedgerDb} (hs : Sound db) (e : ℕ) :
    ReadBack (recorded db e) db e where
  pledges := by
    rw [show (recorded db e).pledges =
      (db.pledges.rows.filter fun p => p.eventId == e).map pledgeLine from rfl, List.map_map]
    refine List.map_congr_left fun p hp => ?_
    obtain ⟨hpm, hpe⟩ := List.mem_filter.mp hp
    have he : p.eventId = e := by simpa using hpe
    subst he
    have hstatus := status_pledgeLine hs hpm
    simp only [Function.comp_apply, hstatus]
    rfl
  payments := by
    rw [show (recorded db e).payments =
      (db.fulfillments.rows.filter fun f => f.eventId == e).map paymentLine from rfl, List.map_map]
    rfl

/-- Folding an event's audit rows in the order they were written gives its pledges, each
with its person, commitment and derived status, and its payments. -/
theorem audit_trail_reads_back (db : LedgerDb) (calls : List Invocation)
    (hcalls : ∀ inv ∈ calls, NamesPerson inv.call) (e : ℕ) :
    ReadBack (replay (trail (ledgerRun (unwritten db) calls) e))
      (ledgerRun (unwritten db) calls) e := by
  have hm : Mirrored (ledgerRun (unwritten db) calls) := mirrored_run (mirrored_unwritten db) hcalls
  have hs : Sound (ledgerRun (unwritten db) calls) := sound_ledgerRun (sound_unpledged _) calls
  rw [← hm e]
  exact readBack_recorded hs e

/-- The trail of the run in which the commitment was lowered below what had come in. -/
theorem audit_trail_reads_back_lowered :
    ReadBack (replay (trail (ledgerRun (unwritten .empty) loweredRun) 7))
      (ledgerRun (unwritten .empty) loweredRun) 7 :=
  audit_trail_reads_back .empty loweredRun (by simp [loweredRun, NamesPerson]) 7

end Akabbo.AuditTrail
