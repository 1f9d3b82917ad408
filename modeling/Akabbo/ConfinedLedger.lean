import Akabbo.TeamCalls
import Akabbo.TenantClosure
import Akabbo.TenantViews

/-!
# The ledger within its event

All events share the tables. As long as no id is drawn or supplied that a row of another event has,
what the ledger services read and write is confined to the event of the call.
-/
namespace Akabbo.ConfinedLedger
open Access PledgeStatus RowTable TenantLinks StatementProgram Noninterference TenantViews LedgerState
open LedgerWrites EventWrites ServiceCalls TeamCalls TenantClosure
open StatementProgram.Program (query modify modifyChecked accept refuse orThrow runIf commitNow)

section reads
variable (e : ℕ) (db : LedgerDb) (i : ℕ)

theorem findPerson_alone : (alone e db).findPerson e i = db.findPerson e i :=
  find?_home fun r _ hr => by simp only [Bool.and_eq_true, beq_iff_eq] at hr; exact hr.1

theorem findPledge_alone : (alone e db).findPledge e i = db.findPledge e i :=
  find?_home fun r _ hr => by simp only [Bool.and_eq_true, beq_iff_eq] at hr; exact hr.1

theorem findFulfillment_alone : (alone e db).findFulfillment e i = db.findFulfillment e i :=
  find?_home fun r _ hr => by simp only [Bool.and_eq_true, beq_iff_eq] at hr; exact hr.1

theorem findByKey_alone (key : String) : (alone e db).findByKey e key = db.findByKey e key :=
  find?_home fun r _ hr => by simp only [Bool.and_eq_true, beq_iff_eq] at hr; exact hr.1

theorem findBudgetItem_alone : findBudgetItem (alone e db) e i = findBudgetItem db e i :=
  find?_home fun r _ hr => by simp only [Bool.and_eq_true, beq_iff_eq] at hr; exact hr.1

theorem sumFulfillments_alone : (alone e db).sumFulfillments e i = db.sumFulfillments e i :=
  sum_home fun r _ hr => by simp only [Bool.and_eq_true, beq_iff_eq] at hr; exact hr.1

theorem sumOthers_alone (j : ℕ) : (alone e db).sumOthers e i j = db.sumOthers e i j :=
  sum_home fun r _ hr => by simp only [Bool.and_eq_true, beq_iff_eq] at hr; exact hr.1.1

theorem event_alone : (alone e db).events.get? e = db.events.get? e :=
  get?_home fun _ _ hr => hr

theorem existingSum_alone (excluded : Option ℕ) :
    existingSum (alone e db) e i excluded = existingSum db e i excluded := by
  cases excluded with
  | none => exact sumFulfillments_alone e db i
  | some j => exact sumOthers_alone e db i j

end reads

section statements
variable {ctx : OperationContext} {v : LedgerDb} {τ : Type} {Q : τ → LedgerDb → Prop}
  {k : Unit → LedgerProgram τ}

theorem confined_gates_bind {action : Action}
    (h : Confined alone ctx.event.eventId Q (k ()) v) :
    Confined alone ctx.event.eventId Q (gates ctx action >>= k) v := by
  unfold gates
  rw [bind_assoc]
  exact confined_refuse_bind fun _ => confined_refuse_bind fun _ => h

theorem confined_writeAudit_bind {action resourceType : String} {resourceId : ℕ}
    {source : ProvenanceSource} {oldValue newValue : Option (List (String × Json))}
    (h : ∀ row, Confined alone ctx.event.eventId Q (k ()) (v.appendAudit row)) :
    Confined alone ctx.event.eventId Q
      (writeAudit ctx action resourceType resourceId source oldValue newValue >>= k) v :=
  confined_bind (confined_modify (edits_appendAudit rfl) (h _))

/-- An INSERT, given what its constraints are checked against. -/
theorem confined_change_bind {l : List RowLock} {violation : LedgerDb → Option Refusal}
    {w : LedgerDb → LedgerDb} {e : ℕ} (hsame : violation (alone e v) = violation v)
    (h : violation v = none → Edits alone e w v ∧ Confined alone e Q (k ()) (w v)) :
    Confined alone e Q (change l violation w >>= k) v := by
  refine confined_bind (confined_modifyChecked (by rw [hsame]) fun a ha => ?_)
  cases hviolation : violation v with
  | none => exact h hviolation
  | some x =>
    rw [hviolation] at ha
    cases ha

theorem confined_insertPerson_bind {q : Person} (he : q.eventId = ctx.event.eventId)
    (hk : HomeKey Person.eventId ctx.event.eventId v.persons q.id)
    (h : Confined alone ctx.event.eventId Q (k ()) (v.insertPerson q)) :
    Confined alone ctx.event.eventId Q (insertPerson q >>= k) v := by
  have htaken : (alone ctx.event.eventId v).persons.has q.id = v.persons.has q.id := has_home hk
  exact confined_change_bind (by rw [htaken]) fun _ =>
    ⟨edits_column column_persons (tableEdits_insertNew he hk), h⟩

theorem confined_insertPledge_bind {p : Pledge} (he : p.eventId = ctx.event.eventId)
    (hk : HomeKey Pledge.eventId ctx.event.eventId v.pledges p.id)
    (hperson : HomeKey Person.eventId ctx.event.eventId v.persons p.personId)
    (hline : LineHome v ctx.event.eventId p.targetBudgetItemId)
    (h : Confined alone ctx.event.eventId Q (k ()) (v.insertPledge p)) :
    Confined alone ctx.event.eventId Q (insertPledge p >>= k) v := by
  have htaken : (alone ctx.event.eventId v).pledges.has p.id = v.pledges.has p.id := has_home hk
  have hnamed : (alone ctx.event.eventId v).persons.has p.personId = v.persons.has p.personId :=
    has_home hperson
  have hitem : (p.targetBudgetItemId.any fun b => !(alone ctx.event.eventId v).budgetItems.has b) =
      p.targetBudgetItemId.any fun b => !v.budgetItems.has b := by
    cases hb : p.targetBudgetItemId with
    | none => rfl
    | some b => exact congrArg not (has_home (hline b hb))
  refine confined_change_bind ?_ fun _ =>
    ⟨edits_column column_pledges (tableEdits_insertNew he hk), h⟩
  unfold pledgeViolation
  rw [htaken, hnamed, hitem]

theorem confined_insertFulfillment_bind {f : Fulfillment} (he : f.eventId = ctx.event.eventId)
    (hk : HomeKey Fulfillment.eventId ctx.event.eventId v.fulfillments f.id)
    (hpledge : HomeKey Pledge.eventId ctx.event.eventId v.pledges f.pledgeId)
    (h : Confined alone ctx.event.eventId Q (k ()) (v.insertFulfillment f)) :
    Confined alone ctx.event.eventId Q (insertFulfillment f >>= k) v := by
  have htaken : (alone ctx.event.eventId v).fulfillments.has f.id = v.fulfillments.has f.id :=
    has_home hk
  have hpaid : (alone ctx.event.eventId v).pledges.has f.pledgeId = v.pledges.has f.pledgeId :=
    has_home hpledge
  refine confined_change_bind ?_ fun _ =>
    ⟨edits_column column_fulfillments (tableEdits_insertNew he hk), h⟩
  unfold fulfillmentViolation
  simp only [he, findByKey_alone, htaken, hpaid]

theorem confined_enqueue_bind {row : OutboxRow} (he : row.eventId = ctx.event.eventId)
    (hk : HomeKey OutboxRow.eventId ctx.event.eventId v.outbox row.idempotencyKey)
    (h : Confined alone ctx.event.eventId Q (k ()) (v.insertOutbox row)) :
    Confined alone ctx.event.eventId Q (enqueue row >>= k) v := by
  have htaken : (alone ctx.event.eventId v).outbox.has row.idempotencyKey =
      v.outbox.has row.idempotencyKey := has_home hk
  exact confined_change_bind (by rw [htaken]) fun _ =>
    ⟨edits_column column_outbox (tableEdits_insertNew he hk), h⟩

theorem confined_updatePledge_bind {i : ℕ} {g : Pledge → Pledge} {hg : ∀ p, (g p).id = p.id}
    (htenant : ∀ p, (g p).eventId = p.eventId) {f : Pledge → LedgerProgram τ}
    (h : ∀ p, v.findPledge ctx.event.eventId i = some p →
      Confined alone ctx.event.eventId Q (f (g p)) (v.updatePledge ctx.event.eventId i g hg)) :
    Confined alone ctx.event.eventId Q (updatePledge ctx.event.eventId i g hg >>= f) v := by
  refine confined_bind (confined_modifyChecked (by rw [findPledge_alone]) fun a ha => ?_)
  refine ⟨edits_column column_pledges (tableEdits_update htenant fun r _ hr => own_of_and hr), ?_⟩
  cases hp : v.findPledge ctx.event.eventId i with
  | none =>
    rw [hp] at ha
    cases ha
  | some p =>
    rw [hp] at ha
    cases ha
    exact h p hp

/-- A row that is looked up, or else this refusal. -/
theorem confined_find_bind {ρ : Type} {q : LedgerDb → Option ρ} {x : Refusal} {e : ℕ}
    {f : ρ → LedgerProgram τ} (hq : q (alone e v) = q v)
    (h : ∀ r, q v = some r → Confined alone e Q (f r) v) :
    Confined alone e Q (query q >>= fun found => orThrow found x >>= f) v :=
  confined_query_bind hq (confined_orThrow_bind h)

theorem confined_requirePerson_bind {i : ℕ} {f : Person → LedgerProgram τ}
    (h : ∀ q, v.findPerson ctx.event.eventId i = some q →
      Confined alone ctx.event.eventId Q (f q) v) :
    Confined alone ctx.event.eventId Q (requirePerson ctx i >>= f) v := by
  unfold requirePerson
  rw [bind_assoc]
  exact confined_find_bind (findPerson_alone _ _ _) h

theorem homeKey_person {e i : ℕ} {q : Person} (h : v.findPerson e i = some q) :
    HomeKey Person.eventId e v.persons i := by
  obtain ⟨hq, he, rfl⟩ := findPerson_mem h
  exact homeKey_of_mem hq he

theorem homeKey_pledge {e i : ℕ} {p : Pledge} (h : v.findPledge e i = some p) :
    HomeKey Pledge.eventId e v.pledges i := by
  obtain ⟨hp, he, rfl⟩ := findPledge_mem h
  exact homeKey_of_mem hp he

theorem confined_setStatus_bind {i : ℕ} {status : Status} {f : Pledge → LedgerProgram τ}
    (h : ∀ p, v.findPledge ctx.event.eventId i = some p →
      Confined alone ctx.event.eventId Q (f { p with status })
        (v.setPledgeStatus ctx.event.eventId i status)) :
    Confined alone ctx.event.eventId Q (setStatus ctx.event.eventId i status >>= f) v :=
  confined_updatePledge_bind (fun _ => by rfl) h

theorem confined_setValue_bind {i value : ℕ} {g : Fulfillment → LedgerProgram τ}
    (h : ∀ f, v.findFulfillment ctx.event.eventId i = some f →
      Confined alone ctx.event.eventId Q (g { f with value })
        (v.setFulfillmentValue ctx.event.eventId i value)) :
    Confined alone ctx.event.eventId Q (updateFulfillmentValue ctx.event.eventId i value >>= g) v := by
  refine confined_bind (confined_modifyChecked (by rw [findFulfillment_alone]) fun a ha => ?_)
  refine ⟨edits_column column_fulfillments
    (tableEdits_update (fun _ => by rfl) fun r _ hr => own_of_and hr), ?_⟩
  cases hf : v.findFulfillment ctx.event.eventId i with
  | none =>
    rw [hf] at ha
    cases ha
  | some f =>
    rw [hf] at ha
    cases ha
    exact h f hf

end statements

/-- No row of another event has an id that the call draws. -/
structure DrawnHere (e : ℕ) (draw : ServiceDraw) (db : LedgerDb) : Prop where
  person : HomeKey Person.eventId e db.persons draw.ledger.personId
  pledge : HomeKey Pledge.eventId e db.pledges draw.ledger.pledgeId
  fulfillment : HomeKey Fulfillment.eventId e db.fulfillments draw.ledger.fulfillmentId
  payment : HomeKey OutboxRow.eventId e db.outbox s!"fulfillment:{draw.ledger.fulfillmentId}"
  group : HomeKey ContributorGroup.eventId e db.groups draw.event.rowId
  budget : HomeKey Budget.eventId e db.budgets draw.event.budgetId
  budgetItem : HomeKey BudgetItem.eventId e db.budgetItems draw.event.rowId
  allocation : HomeKey Allocation.eventId e db.allocations draw.event.rowId
  file : HomeKey FileObject.eventId e db.files draw.event.rowId
  document : HomeKey Document.eventId e db.documents draw.event.rowId
  upload : HomeKey OutboxRow.eventId e db.outbox s!"document:{draw.event.rowId}"
  invitation : HomeKey Invitation.eventId e db.invitations draw.event.rowId
  token : ∀ i ∈ db.invitations, i.token = draw.event.token → i.eventId = e

section ledger
variable {ctx : OperationContext} {v : LedgerDb} {draw : ServiceDraw} {Q : Unit → LedgerDb → Prop}

/-- The part of the database that a call on an event is confined to. -/
def Isolated (e : ℕ) {ρ : Type} (p : LedgerProgram ρ) (v : LedgerDb) : Prop :=
  Confined alone e (fun _ _ => True) p v

theorem confined_assertPhone {phone : String} {shared : Bool} (h : Q () v) :
    Confined alone ctx.event.eventId Q (assertPhoneNotAttachedElsewhere ctx phone shared) v := by
  refine confined_runIf (fun _ => h) fun _ => ?_
  refine confined_query_bind (congrArg oldest (filter_home fun r _ hr => own_of_and hr)) ?_
  exact confined_refuse fun _ => h

theorem isolated_createPerson (ent : EntitlementDecision) (input : CreatePersonInput)
    (h : DrawnHere ctx.event.eventId draw v) :
    Isolated ctx.event.eventId (createPerson ctx ent input draw.ledger) v := by
  have hrest : Isolated ctx.event.eventId (do
      insertPerson ⟨draw.ledger.personId, ctx.event.eventId, input.displayName, input.phone, none,
        input.source.getD .humanTyped, some ctx.actor.userId, draw.ledger.now⟩
      writeAudit ctx "person:create" "person" draw.ledger.personId (input.source.getD .humanTyped) none
        (some [("displayName", .text input.displayName)])
      return (⟨draw.ledger.personId, input.displayName, input.phone,
        input.source.getD .humanTyped, none⟩ : PersonView)) v :=
    confined_insertPerson_bind rfl h.person (confined_writeAudit_bind fun _ => trivial)
  refine confined_gates_bind (confined_refuse_bind fun _ => confined_bind ?_)
  exact confined_runIf (fun _ => hrest) fun _ => confined_assertPhone hrest

theorem isolated_createPledge (input : CreatePledgeInput) (h : DrawnHere ctx.event.eventId draw v)
    (hline : LineHome v ctx.event.eventId input.targetBudgetItemId) :
    Isolated ctx.event.eventId (createPledge ctx input draw.ledger) v := by
  refine confined_gates_bind (confined_refuse_bind fun _ => confined_requirePerson_bind fun q hq => ?_)
  exact confined_insertPledge_bind rfl h.pledge (homeKey_person hq) hline
    (confined_writeAudit_bind fun _ => trivial)

theorem confined_assertNotDuplicate {i value now : ℕ} (h : Q () v) :
    Confined alone ctx.event.eventId Q (assertNotDuplicate ctx i value now) v := by
  refine confined_query_bind (congrArg newest (filter_home fun r _ hr => ?_)) ?_
  · simp only [Bool.and_eq_true, beq_iff_eq] at hr
    exact hr.1.1.1
  · exact confined_refuse fun _ => h

theorem confined_assertWithinCommitted {i committed value : ℕ} {excluded : Option ℕ} (h : Q () v) :
    Confined alone ctx.event.eventId Q (assertWithinCommitted ctx i committed value excluded) v := by
  refine confined_query_bind (existingSum_alone _ _ _ _) ?_
  dsimp only
  split_ifs
  · trivial
  · exact h

theorem confined_findByIdempotencyKey {key : Option String}
    {Q : Option FulfillmentView → LedgerDb → Prop} (h : ∀ r, Q r v) :
    Confined alone ctx.event.eventId Q (findByIdempotencyKey ctx key) v := by
  unfold findByIdempotencyKey
  cases key with
  | none => exact h none
  | some key =>
    dsimp only
    split_ifs
    · exact h none
    · refine confined_query_bind (findByKey_alone _ _ _) ?_
      cases v.findByKey ctx.event.eventId key with
      | none => exact h none
      | some f =>
        exact confined_find_bind (findPledge_alone _ _ _) fun _ _ =>
          confined_query_bind (sumFulfillments_alone _ _ _) (h _)

theorem isolated_writeFulfillment (input : WriteFulfillmentInput)
    (hid : HomeKey Fulfillment.eventId ctx.event.eventId v.fulfillments draw.ledger.fulfillmentId)
    (hpledge : HomeKey Pledge.eventId ctx.event.eventId v.pledges input.pledgeId)
    (hkey : HomeKey OutboxRow.eventId ctx.event.eventId v.outbox
      s!"fulfillment:{draw.ledger.fulfillmentId}") :
    Isolated ctx.event.eventId (writeFulfillment ctx input draw.ledger) v := by
  refine confined_insertFulfillment_bind rfl hid hpledge ?_
  refine confined_query_bind (sumFulfillments_alone _ _ _) ?_
  refine confined_setStatus_bind fun _ _ => confined_writeAudit_bind fun _ => ?_
  exact confined_enqueue_bind rfl hkey trivial

theorem isolated_recordFulfillment (input : RecordFulfillmentInput)
    (h : DrawnHere ctx.event.eventId draw v) :
    Isolated ctx.event.eventId (recordFulfillment ctx input draw.ledger) v := by
  refine confined_gates_bind (confined_refuse_bind fun _ => confined_bind ?_)
  refine confined_findByIdempotencyKey fun replay => ?_
  cases replay with
  | some view => trivial
  | none =>
    refine confined_find_bind (findPledge_alone _ _ _) fun p hp => confined_refuse_bind fun _ => ?_
    have hrest : Isolated ctx.event.eventId (assertWithinCommitted ctx input.pledgeId p.committedValue
        input.value none >>= fun _ => writeFulfillment ctx
          { pledgeId := input.pledgeId
            committedValue := p.committedValue
            value := input.value
            kind := input.kind
            method := input.method
            currency := input.currency
            note := input.note
            occurredAt := input.occurredAt
            idempotencyKey := input.idempotencyKey
            source := input.source } draw.ledger) v :=
      confined_bind (confined_assertWithinCommitted
        (isolated_writeFulfillment _ h.fulfillment (homeKey_pledge hp) h.payment))
    exact confined_bind (confined_runIf (fun _ => hrest) fun _ => confined_assertNotDuplicate hrest)

/-- The rows once the contributor of a gift is known or has been added. -/
structure Enlisted (e : ℕ) (v : LedgerDb) (i : ℕ) (w : LedgerDb) : Prop where
  person : HomeKey Person.eventId e w.persons i
  pledges : w.pledges = v.pledges
  fulfillments : w.fulfillments = v.fulfillments
  budgetItems : w.budgetItems = v.budgetItems
  outbox : w.outbox = v.outbox

theorem confined_directContributor {input : RecordDirectContributionInput}
    (hid : HomeKey Person.eventId ctx.event.eventId v.persons draw.ledger.personId)
    {Q : ℕ → LedgerDb → Prop} (h : ∀ i w, Enlisted ctx.event.eventId v i w → Q i w) :
    Confined alone ctx.event.eventId Q (directContributor ctx input draw.ledger) v := by
  unfold directContributor
  cases input.personId with
  | some i =>
    exact confined_requirePerson_bind fun q hq => h i v ⟨homeKey_person hq, rfl, rfl, rfl, rfl⟩
  | none =>
    dsimp only
    cases input.displayName with
    | none => trivial
    | some name =>
      dsimp only
      split_ifs
      · trivial
      · exact confined_insertPerson_bind rfl hid <| confined_writeAudit_bind fun _ =>
          h _ _ ⟨homeKey_insertNew hid rfl, rfl, rfl, rfl, rfl⟩

theorem isolated_directContribution (input : RecordDirectContributionInput)
    (h : DrawnHere ctx.event.eventId draw v)
    (hline : LineHome v ctx.event.eventId input.targetBudgetItemId) :
    Isolated ctx.event.eventId (recordDirectContribution ctx input draw.ledger) v := by
  refine confined_gates_bind (confined_refuse_bind fun _ => confined_bind ?_)
  refine confined_findByIdempotencyKey fun replay => ?_
  cases replay with
  | some view => trivial
  | none =>
    refine confined_bind (confined_directContributor h.person fun i w hw => ?_)
    have hpledge : HomeKey Pledge.eventId ctx.event.eventId w.pledges draw.ledger.pledgeId :=
      hw.pledges ▸ h.pledge
    refine confined_insertPledge_bind rfl hpledge hw.person ?_ <| confined_writeAudit_bind fun _ =>
      isolated_writeFulfillment _ ?_ (homeKey_insertNew hpledge rfl) ?_
    · unfold LineHome
      rw [hw.budgetItems]
      exact hline
    · exact hw.fulfillments ▸ h.fulfillment
    · exact hw.outbox ▸ h.payment

theorem isolated_pledgeWithPayment (input : RecordPledgeWithPaymentInput)
    (h : DrawnHere ctx.event.eventId draw v)
    (hline : LineHome v ctx.event.eventId input.targetBudgetItemId) :
    Isolated ctx.event.eventId (recordPledgeWithPayment ctx input draw.ledger) v := by
  refine confined_gates_bind (confined_refuse_bind fun _ => confined_requirePerson_bind fun q hq => ?_)
  refine confined_refuse_bind fun _ => confined_insertPledge_bind rfl h.pledge (homeKey_person hq) hline <|
    confined_writeAudit_bind fun _ => ?_
  split_ifs
  · trivial
  · exact isolated_writeFulfillment _ h.fulfillment (homeKey_insertNew h.pledge rfl) h.payment

theorem isolated_correctCommittedValue (i value : ℕ) :
    Isolated ctx.event.eventId (correctCommittedValue ctx i value) v :=
  confined_gates_bind <| confined_find_bind (findPledge_alone _ _ _) fun _ _ =>
    confined_query_bind (sumFulfillments_alone _ _ _) <|
      confined_updatePledge_bind (fun _ => by rfl) fun _ _ => confined_writeAudit_bind fun _ => trivial

theorem isolated_correctValue (i value : ℕ) :
    Isolated ctx.event.eventId (correctValue ctx i value) v := by
  refine confined_gates_bind <| confined_find_bind (findFulfillment_alone _ _ _) fun f _ =>
    confined_query_bind (findPledge_alone _ _ _) ?_
  have hrest : Isolated ctx.event.eventId (do
      let updated ← updateFulfillmentValue ctx.event.eventId i value
      let pledge ← query fun db => db.findPledge ctx.event.eventId f.pledgeId
      let totalFulfilled ← query fun db => db.sumFulfillments ctx.event.eventId f.pledgeId
      let committed := (pledge.map Pledge.committedValue).getD 0
      let status := deriveStatus committed totalFulfilled
        (pledge.any fun p => decide (p.status = .cancelled))
      let _ ← setStatus ctx.event.eventId f.pledgeId status
      writeAudit ctx "fulfillment:correct" "fulfillment" i .manualCorrection
        (some [("value", .text (moneyToString f.value))])
        (some [("value", .text (moneyToString value)), ("pledgeStatus", .text status.name)])
      return fulfillmentView updated status (outstanding committed totalFulfilled)) v :=
    confined_setValue_bind fun _ _ => confined_query_bind (findPledge_alone _ _ _) <|
      confined_query_bind (sumFulfillments_alone _ _ _) <| confined_setStatus_bind fun _ _ =>
        confined_writeAudit_bind fun _ => trivial
  unfold assertCorrectionFits
  cases v.findPledge ctx.event.eventId f.pledgeId with
  | none => exact hrest
  | some p => exact confined_bind (confined_assertWithinCommitted hrest)

theorem isolated_cancelPledge (i : ℕ) : Isolated ctx.event.eventId (cancelPledge ctx i) v :=
  confined_gates_bind <| confined_find_bind (findPledge_alone _ _ _) fun _ _ =>
    confined_setStatus_bind fun _ _ => confined_writeAudit_bind fun _ => trivial

/-- What refers to a row of the event is of the event. -/
theorem home_of_linked {ι ρ ι' ρ' : Type} {key : ρ → ι} {key' : ρ' → ι'} {tenant : ρ → ℕ}
    {tenant' : ρ' → ℕ} {ref : ρ → Option ι'} {t : Table ι ρ key} {u : Table ι' ρ' key'} {e : ℕ}
    {k : ι'} (hlinked : Linked t u tenant tenant' ref) (hk : HomeKey tenant' e u k) {r : ρ}
    (hr : r ∈ t) (href : ref r = some k) : tenant r = e := by
  obtain ⟨x, hx, hxk, hxt⟩ := hlinked r hr k href
  exact hxt.symm.trans (hk x hx hxk)

/-- References stay within their event, those of the messages too. -/
structure Bound (db : LedgerDb) : Prop where
  closed : Closed db
  messages : Linked db.smsMessages db.persons SmsMessage.eventId Person.eventId SmsMessage.personId

theorem confined_setUserId {e i : ℕ} {userId : Option ℕ}
    (h : ∀ f hf, Q () (v.updatePerson e i f hf)) :
    Confined alone e Q (setUserId e i userId) v := by
  refine confined_modifyChecked ?_ fun _ _ => ⟨edits_column column_persons
    (tableEdits_update (fun _ => by rfl) fun r _ hr => own_of_and hr), h _ _⟩
  have hheld (u : ℕ) : ((alone e v).persons.rows.any fun p =>
      p.eventId == e && p.userId == some u && p.id != i) =
        v.persons.rows.any fun p => p.eventId == e && p.userId == some u && p.id != i :=
    any_home fun r _ hr => by
      simp only [Bool.and_eq_true, beq_iff_eq] at hr
      exact hr.1.1
  simp only [findPerson_alone, hheld]

/-- No row of another event refers to the person. -/
structure Unshared (e i : ℕ) (v : LedgerDb) : Prop where
  pledges : ∀ p ∈ v.pledges, p.personId = i → p.eventId = e
  files : ∀ f ∈ v.files, f.personId = some i → f.eventId = e
  messages : ∀ m ∈ v.smsMessages, m.personId = some i → m.eventId = e
  groups : ∀ r ∈ v.personGroups, r.personId = i → r.eventId = e

theorem unshared_of_bound {e i : ℕ} (h : Bound v) (hi : HomeKey Person.eventId e v.persons i) :
    Unshared e i v where
  pledges _ hp hpi := home_of_linked h.closed.pledgePerson hi hp (congrArg some hpi)
  files _ hf hfi := home_of_linked h.closed.filePerson hi hf hfi
  messages _ hm hmi := home_of_linked h.messages hi hm hmi
  groups _ hr hri := home_of_linked h.closed.groupedPerson hi hr (congrArg some hri)

theorem unshared_updatePerson {e i j : ℕ} {f : Person → Person} {hf : ∀ q, (f q).id = q.id}
    (h : Unshared e i v) : Unshared e i (v.updatePerson e j f hf) :=
  ⟨h.pledges, h.files, h.messages, h.groups⟩

theorem unshared_movePledges {e i j : ℕ} (h : Unshared e i v) : Unshared e i (v.movePledges e i j) where
  pledges p hp hpi := by
    obtain ⟨x, hx, rfl⟩ := mem_movePledges.mp hp
    split_ifs at hpi ⊢ with hmoved
    · exact own_of_and hmoved
    · exact h.pledges x hx hpi
  files := h.files
  messages := h.messages
  groups := h.groups

theorem unshared_moveFiles {e i j : ℕ} (h : Unshared e i v) : Unshared e i (v.moveFiles e i j) where
  pledges := h.pledges
  files f hf hfi := by
    simp only [LedgerDb.moveFiles, Table.mem_update] at hf
    obtain ⟨x, hx, rfl⟩ := hf
    split_ifs at hfi ⊢ with hmoved
    · exact own_of_and hmoved
    · exact h.files x hx hfi
  messages := h.messages
  groups := h.groups

theorem edits_deletePerson {e i : ℕ} (h : Unshared e i v) :
    Edits alone e (fun db => db.deletePerson e i) v := by
  have hpersons : Edits alone e (fun db => { db with
      persons := db.persons.delete fun p => p.eventId == e && p.id == i }) v :=
    edits_column column_persons (tableEdits_delete fun r _ hr => own_of_and hr)
  have hfiles (w : LedgerDb) (hw : w.files = v.files) : Edits alone e (fun db => { db with
      files := db.files.update (fun f => f.personId == some i)
        (fun f => { f with personId := none }) fun _ => rfl }) w :=
    edits_column column_files (tableEdits_update (fun _ => by rfl) fun f hf hfi =>
      h.files f (hw ▸ hf) (by simpa using hfi))
  have hmessages (w : LedgerDb) (hw : w.smsMessages = v.smsMessages) :
      Edits alone e (fun db => { db with
        smsMessages := db.smsMessages.update (fun m => m.personId == some i)
          (fun m => { m with personId := none }) fun _ => rfl }) w :=
    edits_column column_smsMessages (tableEdits_update (fun _ => by rfl) fun m hm hmi =>
      h.messages m (hw ▸ hm) (by simpa using hmi))
  have hgroups (w : LedgerDb) (hw : w.personGroups = v.personGroups) :
      Edits alone e (fun db => { db with
        personGroups := db.personGroups.delete fun r => r.personId == i }) w :=
    edits_column column_personGroups (tableEdits_delete fun r hr hri =>
      h.groups r (hw ▸ hr) (by simpa using hri))
  exact edits_comp (edits_comp (edits_comp hpersons (hfiles _ rfl)) (hmessages _ rfl)) (hgroups _ rfl)

theorem confined_deletePerson {e i : ℕ} (h : Unshared e i v) (hQ : Q () (v.deletePerson e i)) :
    Confined alone e Q (deletePerson e i) v := by
  have hheld : ((alone e v).pledges.rows.any fun p => p.personId == i) =
      v.pledges.rows.any fun p => p.personId == i :=
    any_home fun p hp hpi => h.pledges p hp (by simpa using hpi)
  refine confined_modifyChecked ?_ fun _ _ => ⟨edits_deletePerson h, hQ⟩
  simp only [findPerson_alone, hheld]

section merge
variable {e i j : ℕ} {ρ : Type} {P : ρ → LedgerDb → Prop} (hunshared : Unshared e i v)
include hunshared

theorem confined_account_bind {b : Bool} {userId : Option ℕ} {k : Unit → LedgerProgram ρ}
    (h : ∀ w, Unshared e i w → Confined alone e P (k ()) w) :
    Confined alone e P (runIf b (setUserId e j userId) >>= k) v :=
  confined_bind <| confined_runIf (fun _ => h v hunshared) fun _ =>
    confined_setUserId fun _ _ => h _ (unshared_updatePerson hunshared)

theorem confined_movePledges_bind {k : ℕ → LedgerProgram ρ}
    (h : ∀ n w, Unshared e i w → Confined alone e P (k n) w) :
    Confined alone e P (movePledges e i j >>= k) v := by
  have hmoved : ((alone e v).pledges.rows.filter fun p => p.eventId == e && p.personId == i) =
      v.pledges.rows.filter fun p => p.eventId == e && p.personId == i :=
    filter_home fun _ _ hp => own_of_and hp
  refine confined_bind <| confined_modifyChecked (by rw [hmoved]) fun n _ =>
    ⟨edits_column column_pledges (tableEdits_update (fun _ => by rfl) fun _ _ hp => own_of_and hp), ?_⟩
  exact h n _ (unshared_movePledges hunshared)

theorem confined_moveFiles_bind {k : Unit → LedgerProgram ρ}
    (h : ∀ w, Unshared e i w → Confined alone e P (k ()) w) :
    Confined alone e P (moveFiles e i j >>= k) v :=
  confined_bind <| confined_modify (edits_column column_files
    (tableEdits_update (fun _ => by rfl) fun _ _ hf => own_of_and hf))
    (h _ (unshared_moveFiles hunshared))

end merge

theorem isolated_mergePeople (i j : ℕ) (h : Bound v) :
    Isolated ctx.event.eventId (mergePeople ctx i j) v := by
  refine confined_gates_bind <| confined_refuse_bind fun _ =>
    confined_query_bind (findPerson_alone _ _ _) <| confined_query_bind (findPerson_alone _ _ _) <|
    confined_orThrow_bind fun source hsource => confined_orThrow_bind fun target _ =>
    confined_refuse_bind fun _ => ?_
  have hunshared := unshared_of_bound h (homeKey_person hsource)
  refine confined_account_bind hunshared fun w₁ hw₁ => confined_movePledges_bind hw₁ fun _ w₂ hw₂ =>
    confined_moveFiles_bind hw₂ fun w₃ hw₃ => confined_account_bind hw₃ fun w₄ hw₄ =>
    confined_writeAudit_bind fun row => ?_
  exact confined_bind (confined_deletePerson ⟨hw₄.pledges, hw₄.files, hw₄.messages, hw₄.groups⟩ trivial)

theorem isolated_ledger (call : LedgerCall) (h : DrawnHere ctx.event.eventId draw v) (hbound : Bound v)
    (hscoped : ServiceScoped v ctx.event.eventId (.ledger call)) :
    Isolated ctx.event.eventId (call.program ctx draw.ledger) v := by
  cases call with
  | createPerson ent input => exact confined_map (isolated_createPerson ent input h)
  | createPledge input => exact confined_map (isolated_createPledge input h hscoped)
  | recordFulfillment input => exact confined_map (isolated_recordFulfillment input h)
  | recordDirectContribution input =>
    exact confined_map (isolated_directContribution input h hscoped)
  | recordPledgeWithPayment input => exact confined_map (isolated_pledgeWithPayment input h hscoped)
  | correctCommittedValue i value => exact confined_map (isolated_correctCommittedValue i value)
  | correctValue i value => exact confined_map (isolated_correctValue i value)
  | cancelPledge i => exact confined_map (isolated_cancelPledge i)
  | mergePeople i j => exact confined_map (isolated_mergePeople i j hbound)

end ledger

end Akabbo.ConfinedLedger
