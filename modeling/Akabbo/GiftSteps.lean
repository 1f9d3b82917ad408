import Akabbo.CompletedCalls
import Akabbo.ConfirmationOutcomes

/-!
# Exactly when a gift goes through

Direct gifts, contributors who are added and the claim of a row: when each of them returns,
and the rows that it leaves then.
-/
namespace Akabbo.GiftSteps
open Access PledgeStatus RowTable StatementProgram CompletedCalls WeakestPreconditions LedgerState
open LedgerWrites hiding Invocation
open LedgerSpecs ServiceSteps ToolExecutor Confirmations ConfirmationOutcomes LedgerReads
open StatementProgram.Program (query refuse)

/-- The permission and the state of the event that a write needs. -/
def MayWrite (ctx : OperationContext) (action : Action) : Prop :=
  assertPermission ctx.event.role action = none ∧ assertEventWritable ctx.event.status = none

instance (ctx : OperationContext) (action : Action) : Decidable (MayWrite ctx action) :=
  inferInstanceAs (Decidable (_ ∧ _))

/-- The key under which a payment is announced. -/
def paymentKey (fulfillmentId : ℕ) : String := s!"fulfillment:{fulfillmentId}"

theorem paymentKey_inj {i j : ℕ} (h : paymentKey i = paymentKey j) : i = j := by
  have htext : toString i = toString j := by
    simpa [paymentKey] using h
  have hdigits : Nat.toDigits 10 i = Nat.toDigits 10 j := by
    have hchars := congrArg String.toList htext
    simpa [toString, Nat.repr] using hchars
  have hvalues := congrArg (fun digits => Nat.ofDigitChars 10 digits 0) hdigits
  simpa [Nat.ofDigitChars_toDigits] using hvalues

/-- The references that the database keeps: a pledge is somebody's, a payment is on a pledge. -/
structure References (v : LedgerDb) : Prop where
  pledge : ∀ p ∈ v.pledges, v.persons.has p.personId = true
  payment : ∀ f ∈ v.fulfillments, v.pledges.has f.pledgeId = true

/-- The ids drawn for a gift are new. -/
structure NewGift (v : LedgerDb) (draw : Draw) : Prop where
  pledge : v.pledges.has draw.pledgeId = false
  payment : v.fulfillments.has draw.fulfillmentId = false
  announcement : v.outbox.has (paymentKey draw.fulfillmentId) = false

/-- A pledge that is paid at once is added for a person. -/
structure Gave (e i value : ℕ) (draw : Draw) (v v' : LedgerDb) : Prop where
  persons : v'.persons = v.persons
  budgetItems : v'.budgetItems = v.budgetItems
  pending : v'.pendingConfirmations = v.pendingConfirmations
  outbox : ∀ key, v'.outbox.has key = true →
    v.outbox.has key = true ∨ key = paymentKey draw.fulfillmentId
  pledge : ∃ p, v'.pledges.rows = v.pledges.rows ++ [p] ∧ p.id = draw.pledgeId ∧ p.eventId = e ∧
    p.personId = i ∧ p.committedValue = value ∧ p.status ≠ .cancelled
  payment : ∃ f, v'.fulfillments.rows = v.fulfillments.rows ++ [f] ∧ f.id = draw.fulfillmentId ∧
    f.eventId = e ∧ f.pledgeId = draw.pledgeId ∧ f.value = value

/-- A new pledge, then its payment, its status and what is told of them. -/
def paidAtOnce (p : Pledge) (f : Fulfillment) (status : Status) (audit audit' : AuditEvent)
    (v : LedgerDb) : LedgerDb :=
  (((((v.insertPledge p).appendAudit audit).insertFulfillment f).setPledgeStatus p.eventId p.id
    status).appendAudit audit').insertOutbox (outboxRow f)

theorem gave_paidAtOnce {v : LedgerDb} {p : Pledge} {f : Fulfillment} {audit audit' : AuditEvent}
    {status : Status} {draw : Draw} (hp : p.id = draw.pledgeId) (hf : f.id = draw.fulfillmentId)
    (hfe : f.eventId = p.eventId) (hfp : f.pledgeId = draw.pledgeId)
    (hvalue : f.value = p.committedValue) (hstatus : status ≠ .cancelled)
    (hnew : NewGift v draw) :
    Gave p.eventId p.personId p.committedValue draw v (paidAtOnce p f status audit audit' v) := by
  have hpledge : v.pledges.has p.id = false := hp ▸ hnew.pledge
  have hpayment : v.fulfillments.has f.id = false := hf ▸ hnew.payment
  constructor
  case outbox =>
    intro key hkey
    obtain ⟨row, hrow, rfl⟩ := Table.has_iff.mp hkey
    rcases Table.mem_insertNew_cases hrow with hold | rfl
    · exact .inl (Table.has_iff.mpr ⟨row, hold, rfl⟩)
    · exact .inr (congrArg paymentKey hf)
  case pledge =>
    have hold : ∀ q ∈ v.pledges.rows, (q.eventId == p.eventId && q.id == p.id) = false := by
      intro q hq
      simp [Table.has_eq_false_iff.mp hpledge q hq]
    have hrows : (v.pledges.insertNew p).rows = v.pledges.rows ++ [p] :=
      Table.insertNew_rows hpledge
    refine ⟨{ p with status }, ?_, hp, rfl, rfl, rfl, hstatus⟩
    change (v.pledges.insertNew p).rows.map _ = _
    rw [hrows, List.map_append]
    congr 1
    · exact (List.map_congr_left fun q hq => by simp [hold q hq]).trans (List.map_id _)
    · simp
  case payment => exact ⟨f, Table.insertNew_rows hpayment, hf, hfe, hfp, hvalue⟩
  all_goals simp only [paidAtOnce, LedgerDb.insertOutbox, LedgerDb.appendAudit,
    LedgerDb.setPledgeStatus, LedgerDb.updatePledge, LedgerDb.insertFulfillment,
    LedgerDb.insertPledge]

section services
variable {I : LedgerDb → Prop} {v : LedgerDb} {ctx : OperationContext} {draw : Draw} {i : ℕ}
  {input : RecordDirectContributionInput}

/-- The pledge of a direct gift. -/
def directPledge (ctx : OperationContext) (input : RecordDirectContributionInput) (i : ℕ)
    (draw : Draw) : Pledge :=
  ⟨draw.pledgeId, ctx.event.eventId, i, input.type.getD .cash, input.value, .pledged,
    input.targetBudgetItemId, input.description, none, none, none, true,
    input.source.getD .humanTyped, some ctx.actor.userId, draw.now⟩

/-- The payment of a direct gift. -/
def directPayment (ctx : OperationContext) (input : RecordDirectContributionInput) (draw : Draw) :
    Fulfillment :=
  newFulfillment ctx
    { pledgeId := draw.pledgeId
      committedValue := input.value
      value := input.value
      kind := input.kind
      method := input.method
      note := input.note
      idempotencyKey := input.idempotencyKey
      source := some (input.source.getD .humanTyped) } draw

theorem wp_giveDirectly (hknown : input.personId = some i) (hnew : NewGift v draw) :
    wp I (giveDirectly ctx input draw)
      (fun _ v' => Gave ctx.event.eventId i input.value draw v v') v := by
  have hperson {f : ℕ → LedgerProgram FulfillmentView} {Q : FulfillmentView → LedgerDb → Prop}
      (h : wp I (f i) Q v) : wp I (directContributor ctx input draw >>= f) Q v := by
    unfold directContributor
    rw [hknown]
    exact wp_bind <| wp_requirePerson_bind fun q hq => wp_pure h
  refine hperson <| wp_accept_bind fun hlegal => wp_writeAudit_bind fun audit haudit =>
    wp_accept_bind fun hlegal' => wp_query_bind <| wp_updatePledge_bind fun p hp =>
    wp_writeAudit_bind fun audit' haudit' => wp_accept_bind fun hout => wp_pure ?_
  exact gave_paidAtOnce (p := directPledge ctx input i draw) (f := directPayment ctx input draw)
    rfl rfl rfl rfl rfl (mt deriveStatus_eq_cancelled.mp Bool.false_ne_true) hnew

theorem pledgeViolation_eq_none {p : Pledge} (hid : v.pledges.has p.id = false)
    (hperson : v.persons.has p.personId = true)
    (hline : ∀ k, p.targetBudgetItemId = some k → v.budgetItems.has k = true) :
    pledgeViolation v p = none := by
  have hitem : (p.targetBudgetItemId.any fun k => !v.budgetItems.has k) = false := by
    cases hk : p.targetBudgetItemId with
    | none => rfl
    | some k => simp [hline k hk]
  simp [pledgeViolation, hid, hperson, hitem]

theorem fulfillmentViolation_eq_none {f : Fulfillment} (hid : v.fulfillments.has f.id = false)
    (hkey : f.idempotencyKey = none) (hpledge : v.pledges.has f.pledgeId = true) :
    fulfillmentViolation v f = none := by
  simp [fulfillmentViolation, hid, hkey, hpledge]

theorem yields_updatePledge_bind {τ : Type} {e : ℕ} {g : Pledge → Pledge}
    {hg : ∀ p, (g p).id = p.id} {f : Pledge → LedgerProgram τ} {Q : τ → LedgerDb → Prop} {p : Pledge}
    (hp : v.findPledge e i = some p) (h : yields (f (g p)) Q (v.updatePledge e i g hg)) :
    yields (updatePledge e i g hg >>= f) Q v :=
  yields_modifyChecked_bind.mpr ⟨g p, by rw [hp], h⟩

theorem yields_giveDirectly (hknown : input.personId = some i) (hkey : input.idempotencyKey = none)
    (hnew : NewGift v draw) {q : Person} (hperson : v.findPerson ctx.event.eventId i = some q)
    (hline : ∀ k, input.targetBudgetItemId = some k → v.budgetItems.has k = true) :
    yields (giveDirectly ctx input draw) (fun _ _ => True) v := by
  obtain ⟨hq, -, hqi⟩ := findPerson_mem hperson
  have hlegal : pledgeViolation v (directPledge ctx input i draw) = none :=
    pledgeViolation_eq_none hnew.pledge (Table.has_iff.mpr ⟨q, hq, hqi⟩) hline
  have hmem : directPledge ctx input i draw ∈ (v.insertPledge (directPledge ctx input i draw)).pledges :=
    (Table.mem_insertNew hnew.pledge).mpr (.inr rfl)
  have hhas := Table.has_iff.mpr ⟨_, hmem, rfl⟩
  have hpaid {audit : AuditEvent} : fulfillmentViolation ((v.insertPledge
      (directPledge ctx input i draw)).appendAudit audit) (directPayment ctx input draw) = none :=
    fulfillmentViolation_eq_none hnew.payment hkey hhas
  have hcontributor {f : ℕ → LedgerProgram FulfillmentView} {Q : FulfillmentView → LedgerDb → Prop}
      (h : yields (f i) Q v) : yields (directContributor ctx input draw >>= f) Q v := by
    unfold directContributor
    rw [hknown]
    exact yields_bind.mpr <| yields_query_bind.mpr <| yields_orThrow_bind.mpr ⟨q, hperson, h⟩
  have hfound := findPledge_of_mem hmem
  refine hcontributor <| yields_accept_bind.mpr ⟨hlegal, yields_modify_bind.mpr <|
    yields_accept_bind.mpr ⟨hpaid, yields_query_bind.mpr <| yields_updatePledge_bind hfound <|
    yields_modify_bind.mpr <| yields_accept_bind.mpr ⟨?_, trivial⟩⟩⟩
  exact if_neg (Bool.eq_false_iff.mp hnew.announcement)

end services

section gifts
variable {I : LedgerDb → Prop} {v : LedgerDb} {ctx : OperationContext} {source : ProvenanceSource}
  {draw : ExecDraw} {i amount : ℕ} {name : String} {phone : Option String} {type : Option PledgeType}
  {description : Option String} {line : Option ℕ}

/-- A gift of somebody of the event goes through, if its caller may write payments. -/
theorem wp_giveAs (hnew : NewGift v draw.ledger) :
    wp I (giveAs ctx i name amount source phone type description line draw)
      (fun _ v' => MayWrite ctx .fulfillmentWrite ∧
        Gave ctx.event.eventId i amount draw.ledger v v') v := by
  refine wp_bind <| wp_gates_bind fun hrole hstatus => wp_refuse_bind fun _ =>
    wp_findByIdempotencyKey_bind ?_ fun hkey => absurd rfl hkey
  exact wp_mono (wp_giveDirectly rfl hnew) fun _ _ hgave => wp_pure ⟨⟨hrole, hstatus⟩, hgave⟩

theorem yields_gates_bind {τ : Type} {action : Action} {f : Unit → LedgerProgram τ}
    {Q : τ → LedgerDb → Prop} :
    yields (gates ctx action >>= f) Q v ↔ MayWrite ctx action ∧ yields (f ()) Q v := by
  unfold gates MayWrite
  rw [bind_assoc, yields_refuse_bind, yields_refuse_bind, and_assoc]

theorem yields_giveAs (hmay : MayWrite ctx .fulfillmentWrite) (hnew : NewGift v draw.ledger)
    {q : Person} (hperson : v.findPerson ctx.event.eventId i = some q)
    (hline : ∀ k, line = some k → v.budgetItems.has k = true) :
    yields (giveAs ctx i name amount source phone type description line draw) (fun _ _ => True)
      v := by
  refine yields_bind.mpr <| yields_gates_bind.mpr ⟨hmay, yields_refuse_bind.mpr ⟨rfl, ?_⟩⟩
  exact yields_mono (yields_giveDirectly rfl rfl hnew hperson hline) fun _ _ _ => trivial

end gifts

/-- No contributor of the event has the phone, or it is known to be shared. -/
def PhoneFree (v : LedgerDb) (e : ℕ) (phone : Option String) (shared : Bool) : Prop :=
  phone.getD "" = "" ∨ shared = true ∨ ∀ q ∈ v.persons, q.eventId = e → q.phone ≠ phone

section contributors
variable {v : LedgerDb} {ctx : OperationContext} {ent : EntitlementDecision} {name : String}
  {phone : Option String} {shared : Bool} {source : Option ProvenanceSource} {draw : Draw}

theorem yields_assertPhone_bind {τ : Type} {f : Unit → LedgerProgram τ} {Q : τ → LedgerDb → Prop} :
    yields (Program.runIf (phone.getD "" != "")
      (assertPhoneNotAttachedElsewhere ctx (phone.getD "") shared) >>= f) Q v ↔
      PhoneFree v ctx.event.eventId phone shared ∧ yields (f ()) Q v := by
  by_cases hempty : phone.getD "" = ""
  · have hskip : (phone.getD "" != "") = false := by simp [hempty]
    rw [hskip]
    exact (and_iff_right (.inl hempty)).symm
  have hgiven : (phone.getD "" != "") = true := by simp [hempty]
  rw [hgiven, yields_bind]
  cases shared with
  | true => exact (and_iff_right (.inr (.inl rfl))).symm
  | false =>
    cases phone with
    | none => exact absurd rfl hempty
    | some text =>
      have hfree : PhoneFree v ctx.event.eventId (some text) false ↔
          (oldest (v.persons.rows.filter fun q =>
            q.eventId == ctx.event.eventId && q.phone == some text)).map
            (fun q => Refusal.phoneAlreadyAttached q.id q.displayName text) = none := by
        rw [Option.map_eq_none_iff, oldest_eq_none, List.filter_eq_nil_iff]
        simp only [PhoneFree, hempty, Bool.false_eq_true, false_or, Bool.and_eq_true, beq_iff_eq,
          not_and, Table.mem_def]
      rw [hfree]
      refine Iff.trans ?_ yields_refuse_bind
      rw [yields_bind]
      exact Iff.rfl

/-- Who adds a contributor goes through four checks, and the id that is drawn is new. -/
theorem yields_createPerson (hnew : v.persons.has draw.personId = false) :
    yields (createPerson ctx ent ⟨name, phone, shared, source⟩ draw) (fun _ _ => True) v ↔
      MayWrite ctx .personWrite ∧ ent.refusal = none ∧ PhoneFree v ctx.event.eventId phone shared := by
  refine yields_gates_bind.trans <| and_congr_right fun _ => yields_refuse_bind.trans <|
    and_congr_right fun _ => yields_assertPhone_bind.trans <| and_iff_left ?_
  exact yields_accept_bind.mpr ⟨if_neg (Bool.eq_false_iff.mp hnew), yields_modify_bind.mpr trivial⟩

end contributors

section rows
variable {v : LedgerDb} {ctx : OperationContext} {id now : ℕ} {row : PendingConfirmation}

theorem exec_claim (hrow : findConfirmation v ctx.event.eventId id = some row)
    (hpending : row.status = .pending) (c : LedgerDb) :
    Program.exec (claim ctx id now) c v =
      .ok ((row.payload, row.source), c, marked ctx id now v) := by
  have hwait : (if row.status ≠ .pending then
      some (Refusal.badRequest s!"Already {row.status.lowerName}") else none) = none :=
    if_neg (not_not.mpr hpending)
  have hread : Program.exec (readPending ctx id) c v = .ok (row, c, v) := by
    simp only [readPending, Program.exec_query_bind, Program.exec_orThrow_bind,
      Program.exec_refuse_bind]
    exact ⟨row, hrow, hwait, rfl⟩
  have hupdate : Program.exec (updateConfirmation ctx.event.eventId id (resolveAs .confirmed ctx now)
      fun _ => rfl) c v = .ok (resolveAs .confirmed ctx now row, c, marked ctx id now v) := by
    unfold updateConfirmation
    rw [Program.exec_modifyChecked, hrow]
    rfl
  rw [claim, Program.exec_bind, hread]
  dsimp only
  rw [Program.exec_bind, hupdate]
  rfl

/-- The claim is committed, then the action of the row is executed. -/
theorem yields_confirm {names : NameRules} {draw : ExecDraw} {Q : ExecutionResult → LedgerDb → Prop}
    (hrow : findConfirmation v ctx.event.eventId id = some row) (hpending : row.status = .pending) :
    yields (confirm ctx names id now draw) Q v ↔
      yields (ToolExecutor.run ctx names row.payload row.source draw) Q (marked ctx id now v) := by
  have hclaim {R : StoredAction × ProvenanceSource → LedgerDb → Prop} :
      yields (claim ctx id now) R v ↔ R (row.payload, row.source) (marked ctx id now v) := by
    rw [yields_iff_exec (c := v), exec_claim hrow hpending]
    simp
  exact yields_bind.trans hclaim

theorem findConfirmation_of_mem (h : row ∈ v.pendingConfirmations) :
    findConfirmation v row.eventId row.id = some row :=
  Table.find?_of_mem h (by simp) fun r _ hr => by simp_all

/-- A row that waits under its id. -/
def Waiting (v : LedgerDb) (e : ℕ) (id : ℕ) (action : StoredAction) : Prop :=
  ∃ row, findConfirmation v e id = some row ∧ row.status = .pending ∧ row.payload = action

theorem waiting_marked {e other : ℕ} {action : StoredAction} (h : Waiting v e other action)
    (hne : other ≠ id) : Waiting (marked ctx id now v) e other action := by
  obtain ⟨row, hrow, hpending, rfl⟩ := h
  obtain ⟨hmem, rfl, rfl⟩ := findConfirmation_mem hrow
  have hkept : row ∈ (marked ctx id now v).pendingConfirmations :=
    List.mem_map.mpr ⟨row, hmem, if_neg (by simp [hne])⟩
  exact ⟨row, findConfirmation_of_mem hkept, hpending, rfl⟩

theorem waiting_staged {e other : ℕ} {action : StoredAction} (h : Waiting v e other action) :
    Waiting (CaptureSteps.staged v row) e other action := by
  obtain ⟨row', hrow, hpending, rfl⟩ := h
  obtain ⟨hmem, rfl, rfl⟩ := findConfirmation_mem hrow
  have hkept : row' ∈ (CaptureSteps.staged v row).pendingConfirmations :=
    Table.mem_insertNew_of_mem hmem
  exact ⟨row', findConfirmation_of_mem hkept, hpending, rfl⟩

theorem staged_waiting (hnew : v.pendingConfirmations.has row.id = false)
    (hpending : row.status = .pending) :
    Waiting (CaptureSteps.staged v row) row.eventId row.id row.payload :=
  ⟨row, findConfirmation_of_mem ((Table.mem_insertNew hnew).mpr (.inr rfl)), hpending, rfl⟩

end rows
end Akabbo.GiftSteps
