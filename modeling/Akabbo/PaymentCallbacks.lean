import Akabbo.BillingWrites
import Akabbo.StoppedCalls

/-!
# What a payment callback does to an invoice

The provider's word for the outcome is matched by substrings and becomes one of two results, which
the billing service applies as final.
-/
namespace Akabbo.PaymentCallbacks
open RowTable StatementProgram ProgramParts PlanCatalog BillingState BillingWrites
open WeakestPreconditions StoppedCalls
open StatementProgram.Program

/-- The fields of a callback; one that is null or not there is none, a status that is a number is
given as it prints. -/
structure MudaData where
  transId : Option String := none
  transactionId : Option String := none
  id : Option String := none
  referenceId : Option String := none
  reference : Option String := none
  status : Option String := none
  deriving DecidableEq, Repr

structure MudaCollectionResponse extends MudaData where
  data : Option MudaData := none
  deriving DecidableEq, Repr

/-- `text.includes(part)`. -/
def includes (text part : String) : Bool := decide (part.toList <:+: text.toList)

section parse
variable (toUpperCase : String → String)

def rawStatus (parsed : MudaCollectionResponse) : String :=
  let data := parsed.data.getD parsed.toMudaData
  toUpperCase (((data.status <|> parsed.status).getD ""))

def takenForSuccess (rawStatus : String) : Bool :=
  includes rawStatus "SUCCESS" || rawStatus == "200" || includes rawStatus "COMPLETE"

def given (text : Option String) : Option String := text.filter (· ≠ "")

/-- A body that is no JSON gives nothing; a signature that does not match is only logged. -/
def verifyAndParseWebhook (body : Option MudaCollectionResponse) : Option PaymentWebhookEvent := do
  let parsed ← body
  let data := parsed.data.getD parsed.toMudaData
  let reference ← given (data.referenceId <|> data.reference)
  let gatewayTransactionId ← given (data.transId <|> data.transactionId <|> data.id)
  return {
    gatewayTransactionId
    reference
    status := if takenForSuccess (rawStatus toUpperCase parsed) then .succeeded else .failed
    amount := 0
    currency := "UGX" }

end parse

/-- An invoice keeps its status or has come to this one. -/
def MovesTo (status : InvoiceStatus) (db db' : BillingDb) : Prop :=
  ∀ i row', db'.invoices.get? i = some row' → ∃ row, db.invoices.get? i = some row ∧
    (row'.status = row.status ∨ row'.status = status)

section moves
variable {status : InvoiceStatus}

theorem movesTo_same {db db' : BillingDb} (h : db'.invoices = db.invoices) :
    MovesTo status db db' := fun _ row' hrow => ⟨row', h ▸ hrow, .inl rfl⟩

theorem movesTo_trans {s t u : BillingDb} (h : MovesTo status s t) (h' : MovesTo status t u) :
    MovesTo status s u := by
  intro i row'' hrow''
  obtain ⟨row', hrow', hstep'⟩ := h' i row'' hrow''
  obtain ⟨row, hrow, hstep⟩ := h i row' hrow'
  refine ⟨row, hrow, ?_⟩
  rcases hstep' with heq | heq
  · exact hstep.imp heq.trans heq.trans
  · exact .inr heq

theorem movesTo_settleInvoice (db : BillingDb) (id : ℕ) (tx : String) :
    MovesTo status db (db.settleInvoice id status tx) := by
  intro i row' hrow'
  unfold BillingDb.settleInvoice at hrow'
  rw [Table.get?_update] at hrow'
  obtain ⟨row, hrow, rfl⟩ := Option.map_eq_some_iff.mp hrow'
  refine ⟨row, hrow, ?_⟩
  split_ifs
  · exact .inr rfl
  · exact .inl rfl

theorem effects_settleInvoice (id : ℕ) (tx : String) :
    Effects (MovesTo status) (settleInvoice id status tx) :=
  effects_modifyChecked (fun _ => movesTo_same rfl) _ _ fun db => movesTo_settleInvoice db id tx

theorem effects_grantPlan (invoice : Invoice) (plan : PlanConfig) (draw : Draw) :
    Effects (MovesTo status) (grantPlan invoice plan draw) := by
  have hrefl (db : BillingDb) : MovesTo status db db := movesTo_same rfl
  unfold grantPlan
  cases invoice.eventId with
  | none => exact effects_modifyChecked hrefl _ _ fun db => movesTo_same rfl
  | some eventId =>
    refine effects_modifyChecked hrefl _ _ fun db => ?_
    split_ifs
    · exact movesTo_same rfl
    · exact movesTo_same rfl

theorem effects_createCredit (l : Ledger) (row : CreditRow) :
    Effects (MovesTo status) (createCredit l row) :=
  effects_modifyChecked (fun _ => movesTo_same rfl) _ _ fun db =>
    movesTo_same (db.insertCredit_invoices l row)

theorem effects_applyPaid (invoice : Invoice) (evt : PaymentWebhookEvent) (draw : Draw) :
    Effects (MovesTo .paid) (applyPaid invoice evt draw) := by
  refine effects_bind (effects_settleInvoice _ _) fun _ => ?_
  cases invoice.planId with
  | none => trivial
  | some planId =>
    refine effects_bind (effects_grantPlan _ _ _) fun _ => ?_
    refine effects_bind (effects_runIf (effects_createCredit _ _)) fun _ => ?_
    exact effects_bind (effects_runIf (effects_createCredit _ _)) fun _ => trivial

def settledStatus : PaymentStatus → InvoiceStatus
  | .succeeded => .paid
  | .failed => .failed

/-- However the call ends or is cut off, invoices only move to the status of the event. -/
theorem effects_applyPaymentWebhook (evt : PaymentWebhookEvent) (draw : Draw) :
    Effects (MovesTo (settledStatus evt.status)) (applyPaymentWebhook evt draw) := by
  refine effects_bind (effects_query _) fun found => ?_
  cases found with
  | none => trivial
  | some invoice =>
    dsimp only
    split_ifs
    · trivial
    · cases evt.status with
      | failed => exact effects_bind (effects_settleInvoice _ _) fun _ => trivial
      | succeeded => exact effects_applyPaid invoice evt draw

theorem status_left {evt : PaymentWebhookEvent} {draw : Draw} {db : BillingDb} {stop : Option ℕ}
    {i : ℕ} {row row' : Invoice} (hrow : db.invoices.get? i = some row)
    (hrow' : (leaves stop (applyPaymentWebhook evt draw) db).invoices.get? i = some row') :
    row'.status = row.status ∨ row'.status = settledStatus evt.status := by
  have hmoves : MovesTo (settledStatus evt.status) db (leaves stop (applyPaymentWebhook evt draw) db) :=
    leaves_effects (fun _ => movesTo_same rfl) movesTo_trans
      (effects_applyPaymentWebhook evt draw) stop db
  obtain ⟨row₀, hrow₀, hstep⟩ := hmoves i row' hrow'
  rw [hrow] at hrow₀
  obtain rfl := Option.some.inj hrow₀
  exact hstep

end moves

/-- The words for a payment that went through. -/
def successWords : List String :=
  ["SUCCESS", "SUCCESSFUL", "SUCCEEDED", "COMPLETE", "COMPLETED", "200"]

section claim
variable (toUpperCase : String → String) (finalFailure : String → Prop)

/-- An invoice that waits is paid only on a word of success, and fails only on a final failure. -/
def SettlesAsSaid (parsed : MudaCollectionResponse) : Prop :=
  ∀ evt, verifyAndParseWebhook toUpperCase (some parsed) = some evt →
    ∀ (db : BillingDb) (draw : Draw) (stop : Option ℕ) (invoice after : Invoice),
      findByReference db evt.reference = some invoice → invoice.status = .pending →
      (leaves stop (applyPaymentWebhook evt draw) db).invoices.get? invoice.id = some after →
      (after.status = .paid → rawStatus toUpperCase parsed ∈ successWords) ∧
        (after.status = .failed → finalFailure (rawStatus toUpperCase parsed))

end claim

/-- One invoice that waits, for no plan. -/
def waitingInvoice (reference : String) : BillingDb :=
  { BillingDb.empty with
    invoices := Table.empty.insertNew ⟨1, 1, none, none, 0, "UGX", .pending, reference, none⟩ }

theorem findByReference_waiting (reference : String) :
    findByReference (waitingInvoice reference) reference =
      some ⟨1, 1, none, none, 0, "UGX", .pending, reference, none⟩ := by
  have hrows : (waitingInvoice reference).invoices.rows =
      [⟨1, 1, none, none, 0, "UGX", .pending, reference, none⟩] := Table.insertNew_rows rfl
  unfold findByReference Table.find?
  rw [hrows]
  simp

theorem settled_waiting (evt : PaymentWebhookEvent) (draw : Draw) :
    ∃ after, (leaves none (applyPaymentWebhook evt draw)
        (waitingInvoice evt.reference)).invoices.get? 1 = some after ∧
      after.status = settledStatus evt.status := by
  have hfound := findByReference_waiting evt.reference
  unfold leaves run applyPaymentWebhook
  rw [exec_query_bind, hfound]
  cases hstatus : evt.status with
  | failed => exact ⟨_, rfl, rfl⟩
  | succeeded => exact ⟨_, rfl, rfl⟩

/-- A callback that is read settles invoices as it says exactly when a word taken for success is a
whole word of success and any other word is a final failure. -/
theorem settles_as_said_iff (toUpperCase : String → String) (finalFailure : String → Prop)
    (parsed : MudaCollectionResponse) :
    SettlesAsSaid toUpperCase finalFailure parsed ↔
      ((verifyAndParseWebhook toUpperCase (some parsed)).isSome = true →
        if takenForSuccess (rawStatus toUpperCase parsed) then
          rawStatus toUpperCase parsed ∈ successWords
        else finalFailure (rawStatus toUpperCase parsed)) := by
  have hstatus {evt : PaymentWebhookEvent}
      (h : verifyAndParseWebhook toUpperCase (some parsed) = some evt) :
      evt.status =
        if takenForSuccess (rawStatus toUpperCase parsed) then .succeeded else .failed := by
    unfold verifyAndParseWebhook at h
    simp only [Option.bind_eq_bind, Option.bind_some, Option.bind_eq_some_iff] at h
    obtain ⟨reference, -, transaction, -, hevt⟩ := h
    cases hevt
    rfl
  constructor
  · intro h hparsed
    obtain ⟨evt, hevt⟩ := Option.isSome_iff_exists.mp hparsed
    obtain ⟨after, hafter, hsettled⟩ := settled_waiting evt ⟨0, 0, 0, 0, "", 0, 0⟩
    have hsaid := h evt hevt _ _ none _ after (findByReference_waiting evt.reference) rfl hafter
    rw [hsettled, hstatus hevt] at hsaid
    split_ifs with hword
    · exact hsaid.1 (by rw [if_pos hword]; rfl)
    · exact hsaid.2 (by rw [if_neg hword]; rfl)
  · intro h evt hevt db draw stop invoice after hfound hpending hafter
    have hcondition := h (Option.isSome_iff_exists.mpr ⟨evt, hevt⟩)
    have hrow : db.invoices.get? invoice.id = some invoice :=
      Table.get?_of_mem (Table.mem_of_find? hfound).1
    have hleft := status_left hrow hafter
    rw [hpending, hstatus hevt] at hleft
    by_cases hword : takenForSuccess (rawStatus toUpperCase parsed) = true
    · rw [if_pos hword] at hleft hcondition
      refine ⟨fun _ => hcondition, fun hf => ?_⟩
      rw [hf] at hleft
      simp [settledStatus] at hleft
    · rw [if_neg hword] at hleft hcondition
      refine ⟨fun hp => ?_, fun _ => hcondition⟩
      rw [hp] at hleft
      simp [settledStatus] at hleft

/-- The gateway says that a payment was unsuccessful. -/
def unsuccessful : MudaCollectionResponse where
  data := some { transId := some "muda_tx_11", referenceId := some "inv_ghi",
                 status := some "Unsuccessful" }

def upperAscii (text : String) : String := String.ofList (text.toList.map Char.toUpper)

/-- The invoice is paid all the same. -/
theorem unsuccessful_payment_is_paid :
    ¬ ∀ (finalFailure : String → Prop) (parsed : MudaCollectionResponse),
      SettlesAsSaid upperAscii finalFailure parsed := by
  intro h
  have hparsed : verifyAndParseWebhook upperAscii (some unsuccessful) =
      some ⟨"muda_tx_11", "inv_ghi", .succeeded, 0, "UGX"⟩ := by decide
  obtain ⟨after, hafter, hpaid⟩ :=
    settled_waiting ⟨"muda_tx_11", "inv_ghi", .succeeded, 0, "UGX"⟩ ⟨0, 0, 0, 0, "", 0, 0⟩
  have hsaid := (h (fun _ => True) unsuccessful _ hparsed _ _ none _ after
    (findByReference_waiting "inv_ghi") rfl hafter).1 hpaid
  exact absurd hsaid (by decide)

end Akabbo.PaymentCallbacks
