import Akabbo.CreditInserts
import Akabbo.UniqueKeys

/-!
# Callbacks for invoices, overlapping

Deliveries of payment callbacks and reconciliations by hand, over any invoices, while their
statements interleave. The status is read before the transaction that acts on it, so it is the
ledgers' unique keys that keep an invoice from being credited twice.
-/
namespace Akabbo.InvoiceDeliveries
open PlanCatalog RowTable StatementProgram ReadCommitted CommitOrder BillingState
open BillingWrites CreditInserts UniqueKeys
open StatementProgram.Program (query refuse orThrow)

inductive DeliveryCall
  | webhook (evt : PaymentWebhookEvent) (draw : Draw)
  | reconcile (invoiceId : ℕ) (gatewayTransactionId : String) (draw : Draw)
  deriving DecidableEq, Repr

def DeliveryCall.program : DeliveryCall → BillingProgram Bool
  | .webhook evt draw => applyPaymentWebhook evt draw
  | .reconcile invoiceId tx draw => reconcileInvoice invoiceId tx draw

abbrev DeliverySystem := System BillingLock BillingDb Access.Refusal Bool

def system (db : BillingDb) (calls : List DeliveryCall) : DeliverySystem :=
  System.begin db (calls.map DeliveryCall.program)

/-- The reference under which the call looks for its invoice. -/
def DeliveryCall.reference (db : BillingDb) : DeliveryCall → Option String
  | .webhook evt _ => some evt.reference
  | .reconcile invoiceId _ _ => (db.invoices.get? invoiceId).map Invoice.reference

def DeliveryCall.invoice (db : BillingDb) (c : DeliveryCall) : Option Invoice :=
  (c.reference db).bind (findByReference db)

/-- The call reports a payment that failed. -/
def DeliveryCall.fails : DeliveryCall → Bool
  | .webhook evt _ => evt.status == .failed
  | .reconcile .. => false

/-- The credits of a plan in one ledger or the other. -/
def included (l : Ledger) (plan : PlanConfig) : ℕ :=
  match l with
  | .sms => plan.includedSmsCredits
  | .ai => plan.includedAiCredits

/-- The row that a paid invoice adds to a ledger. -/
def paidCredit (l : Ledger) (invoice : Invoice) : Option CreditRow :=
  invoice.planId.bind fun code =>
    if 0 < included l (planCatalog code) then
      some (invoiceCredit l invoice (included l (planCatalog code)) invoice.reference)
    else none

/-- The invoices that the calls have applied, in the order in which they returned. -/
def appliedInvoices (db : BillingDb) (calls : List DeliveryCall) (order : List (ℕ × Bool)) :
    List Invoice :=
  order.filterMap fun p => if p.2 then calls[p.1]?.bind (DeliveryCall.invoice db) else none

/-- An invoice without its status and the gateway's transaction. -/
def core (i : Invoice) : Invoice := { i with status := .pending, gatewayTransactionId := none }

/-- The invoices are those of before, and one that was paid then is paid still. -/
structure Descends (db v : BillingDb) : Prop where
  byReference : ∀ r, (findByReference v r).map core = (findByReference db r).map core
  byId : ∀ i, (v.invoices.get? i).map core = (db.invoices.get? i).map core
  paid : ∀ i a b, db.invoices.get? i = some a → v.invoices.get? i = some b →
    a.status = .paid → b.status = .paid

theorem descends_refl (db : BillingDb) : Descends db db where
  byReference _ := rfl
  byId _ := rfl
  paid i a b ha hb h := by
    obtain rfl := Option.some.inj (ha.symm.trans hb)
    exact h

section descends
variable {db v : BillingDb} {i : ℕ} {status : InvoiceStatus} {tx : String}

theorem get?_settle (v : BillingDb) (i : ℕ) (status : InvoiceStatus) (tx : String) (j : ℕ) :
    (v.settleInvoice i status tx).invoices.get? j = (v.invoices.get? j).map fun r =>
      if r.id == i then { r with status, gatewayTransactionId := some tx } else r := by
  unfold BillingDb.settleInvoice
  rw [Table.get?_update]

theorem core_settle (r : Invoice) : core (if r.id == i then
    { r with status, gatewayTransactionId := some tx } else r) = core r := by
  split_ifs <;> rfl

theorem findByReference_settle (v : BillingDb) (i : ℕ) (status : InvoiceStatus) (tx r : String) :
    (findByReference (v.settleInvoice i status tx) r).map core = (findByReference v r).map core := by
  have hfound : findByReference (v.settleInvoice i status tx) r = (findByReference v r).map fun x =>
      if x.id == i then { x with status, gatewayTransactionId := some tx } else x := by
    unfold findByReference BillingDb.settleInvoice
    rw [Table.find?_update]
    exact fun _ _ _ => rfl
  rw [hfound, Option.map_map]
  exact congrArg (fun f => (findByReference v r).map f) (funext fun x => core_settle x)

/-- Settling an invoice that was not paid. -/
theorem descends_settle (h : Descends db v) {a : Invoice} (ha : db.invoices.get? i = some a)
    (hopen : a.status ≠ .paid) : Descends db (v.settleInvoice i status tx) where
  byReference r := (findByReference_settle v i status tx r).trans (h.byReference r)
  byId j := by
    rw [get?_settle, Option.map_map, ← h.byId j]
    exact congrArg (fun f => (v.invoices.get? j).map f) (funext fun x => core_settle x)
  paid j a' b ha' hb hpaid := by
    rw [get?_settle, Option.map_eq_some_iff] at hb
    obtain ⟨r, hr, rfl⟩ := hb
    have hkept := h.paid j a' r ha' hr hpaid
    have hid : r.id = j := Table.get?_key hr
    split_ifs with hij
    · obtain rfl : j = i := hid.symm.trans (by simpa using hij)
      obtain rfl := Option.some.inj (ha.symm.trans ha')
      exact absurd hpaid hopen
    · exact hkept

theorem descends_congr {v' : BillingDb} (h : Descends db v) (hsame : v'.invoices = v.invoices) :
    Descends db v' where
  byReference r := by
    have hfind : findByReference v' r = findByReference v r := by
      unfold findByReference
      rw [hsame]
    rw [hfind]
    exact h.byReference r
  byId i := by
    rw [hsame]
    exact h.byId i
  paid i a b ha hb := by
    rw [hsame] at hb
    exact h.paid i a b ha hb

/-- The invoice that a call finds is that of before, and was not paid if it is not. -/
theorem found_before (h : Descends db v) {r : String} {invoice : Invoice}
    (hfound : findByReference v r = some invoice) :
    ∃ a, findByReference db r = some a ∧ core a = core invoice ∧
      (invoice.status ≠ .paid → a.status ≠ .paid) := by
  have hcore := h.byReference r
  rw [hfound, Option.map_some, eq_comm, Option.map_eq_some_iff] at hcore
  obtain ⟨a, ha, hsame⟩ := hcore
  refine ⟨a, ha, hsame, fun hopen hpaid => hopen ?_⟩
  have hid : (core a).id = (core invoice).id := congrArg Invoice.id hsame
  change a.id = invoice.id at hid
  have hrow := Table.get?_of_mem (Table.mem_of_find? ha).1
  have hrow' := Table.get?_of_mem (Table.mem_of_find? hfound).1
  rw [← hid] at hrow'
  exact h.paid a.id a invoice hrow hrow' hpaid

theorem paidCredit_core (l : Ledger) (a : Invoice) : paidCredit l (core a) = paidCredit l a := rfl

end descends

/-- A credit key that a row of its ledger has. -/
def Taken : BillingLock → BillingDb → Prop
  | .creditKey l key, v => (v.creditLedger l).has key = true
  | _, _ => False

theorem taken_creditKey {l : Ledger} {key : String} {v : BillingDb} :
    Taken (.creditKey l key) v ↔ (v.creditLedger l).has key = true := Iff.rfl

theorem taken_congr {v v' : BillingDb} (h : ∀ l, v'.creditLedger l = v.creditLedger l)
    (k : BillingLock) : Taken k v' ↔ Taken k v := by
  cases k with
  | creditKey l key => rw [taken_creditKey, taken_creditKey, h l]
  | _ => exact Iff.rfl

theorem locksKeys_ledgers {α : Type} {locks : BillingDb → List BillingLock}
    {q : BillingDb → Except Access.Refusal α} {w : BillingDb → BillingDb}
    (h : ∀ v l, (w v).creditLedger l = v.creditLedger l) :
    LocksKeys Taken (Program.modifyChecked locks q w) := by
  refine locksKeys_modifyChecked (fun k v hk => (taken_congr (h v) k).mpr hk) ?_
  rintro s a - k ⟨v, hfree, htaken⟩
  exact absurd ((taken_congr (h v) k).mp htaken) hfree

theorem locksKeys_createCredit (l : Ledger) (row : CreditRow) :
    LocksKeys Taken (createCredit l row) := by
  refine locksKeys_modifyChecked (fun k v hk => ?_) fun s a ha k hk => ?_
  · cases k with
    | creditKey l' key =>
      rw [taken_creditKey] at hk ⊢
      rw [has_insertCredit, hk, Bool.true_or]
    | _ => exact hk
  · obtain ⟨v, hfree, htaken⟩ := hk
    cases k with
    | creditKey l' key =>
      rw [taken_creditKey] at hfree htaken
      rw [has_insertCredit, Bool.eq_false_iff.mpr hfree, Bool.false_or, Bool.and_eq_true,
        decide_eq_true_eq, decide_eq_true_eq] at htaken
      obtain ⟨rfl, rfl⟩ := htaken
      refine ⟨List.mem_singleton.mpr rfl, fun hsome => ?_⟩
      have hsome : (s.creditLedger l).has row.idempotencyKey = true := hsome
      simp [Program.accept, hsome] at ha
    | _ => exact htaken.elim

theorem locksKeys_grantPlan (invoice : Invoice) (plan : PlanConfig) (draw : Draw) :
    LocksKeys Taken (grantPlan invoice plan draw) := by
  unfold grantPlan
  cases invoice.eventId with
  | none => exact locksKeys_ledgers fun v l => v.insertGrant_creditLedger l _
  | some e =>
    refine locksKeys_ledgers fun v l => ?_
    split_ifs
    · exact v.updateEventGrant_creditLedger l e _ _
    · exact v.insertGrant_creditLedger l _

theorem locksKeys_settleInvoice (i : ℕ) (status : InvoiceStatus) (tx : String) :
    LocksKeys Taken (settleInvoice i status tx) :=
  locksKeys_ledgers fun v l => v.settleInvoice_creditLedger l i status tx

theorem locksKeys_applyPaymentWebhook (evt : PaymentWebhookEvent) (draw : Draw) :
    LocksKeys Taken (applyPaymentWebhook evt draw) := by
  refine locksKeys_bind (fun _ => trivial) fun found => ?_
  cases found with
  | none => trivial
  | some invoice =>
    dsimp only
    split_ifs
    · trivial
    · cases evt.status with
      | failed => exact locksKeys_bind (locksKeys_settleInvoice _ _ _) fun _ => trivial
      | succeeded =>
        refine locksKeys_bind (locksKeys_settleInvoice _ _ _) fun _ => ?_
        cases invoice.planId with
        | none => trivial
        | some code =>
          refine locksKeys_bind (locksKeys_grantPlan _ _ _) fun _ => ?_
          refine locksKeys_bind (locksKeys_runIf (locksKeys_createCredit _ _)) fun _ => ?_
          exact locksKeys_bind (locksKeys_runIf (locksKeys_createCredit _ _)) fun _ => trivial

theorem locksKeys_program (c : DeliveryCall) : LocksKeys Taken c.program := by
  cases c with
  | webhook evt draw => exact locksKeys_applyPaymentWebhook evt draw
  | reconcile i tx draw =>
    refine locksKeys_bind (fun _ => trivial) fun found => ?_
    refine locksKeys_bind (locksKeys_orThrow _ _) fun invoice => ?_
    exact locksKeys_bind (locksKeys_refuse _) fun _ => locksKeys_applyPaymentWebhook _ draw

/-- Nothing; a failure, noted on an invoice that was not paid before; or a payment, with its
credits. -/
inductive Applies (found : Option Invoice) (fails : Bool) : Option Bool →
    List (Reading BillingDb) → (BillingDb → BillingDb) → Prop
  | nothing {rs : List (Reading BillingDb)} : Applies found fails (some false) rs id
  | failed {rs : List (Reading BillingDb)} {a : Invoice} (tx : String) (ha : found = some a)
      (hopen : a.status ≠ .paid) (hfails : fails = true) :
      Applies found fails (some false) rs fun v => v.settleInvoice a.id .failed tx
  | paid {rs : List (Reading BillingDb)} {a : Invoice} {f : BillingDb → BillingDb} (tx : String)
      (ha : found = some a) (hopen : a.status ≠ .paid)
      (hsettles : ∀ v, (f v).invoices = (v.settleInvoice a.id .paid tx).invoices)
      (hcredits : ∀ v l, (f v).creditLedger l =
        (paidCredit l a).elim (v.creditLedger l) (v.creditLedger l).insertNew) :
      Applies found fails (some true) rs f

section commits
variable {J : BillingDb → Prop} {d : Bool} {rs : List (Reading BillingDb)}
  {g : BillingDb → BillingDb} {found : Option Invoice} {fails : Bool}

/-- A grant touches neither invoices nor ledgers. -/
theorem everyCommit_grantPlan_bind {P : Option Bool → List (Reading BillingDb) → (BillingDb → BillingDb) → Prop}
    {invoice : Invoice} {plan : PlanConfig} {draw : Draw} {f : Unit → BillingProgram Bool}
    (h : ∀ rs' w, (∀ v, (w v).invoices = v.invoices ∧ ∀ l, (w v).creditLedger l = v.creditLedger l) →
      EveryCommit J P (f ()) true rs' (w ∘ g)) :
    EveryCommit J P (grantPlan invoice plan draw >>= f) d rs g := by
  unfold grantPlan
  cases invoice.eventId with
  | none =>
    refine everyCommit_modifyChecked_bind fun s _ a _ => h _ _ fun v => ⟨rfl, fun l => ?_⟩
    exact v.insertGrant_creditLedger l _
  | some e =>
    refine everyCommit_modifyChecked_bind fun s _ a _ => h _ _ fun v => ?_
    split_ifs
    · exact ⟨rfl, fun l => v.updateEventGrant_creditLedger l e _ _⟩
    · exact ⟨rfl, fun l => v.insertGrant_creditLedger l _⟩

theorem everyCommit_credit_bind {P : Option Bool → List (Reading BillingDb) → (BillingDb → BillingDb) → Prop}
    {b : Bool} {l : Ledger} {row : CreditRow} {f : Unit → BillingProgram Bool}
    (h : ∀ rs', EveryCommit J P (f ()) true rs' ((fun v => if b then v.insertCredit l row else v) ∘ g)) :
    EveryCommit J P (Program.runIf b (createCredit l row) >>= f) true rs g := by
  cases b with
  | false => exact h rs
  | true => exact everyCommit_modifyChecked_bind fun s _ a _ => h _

/-- What the two credits of a payment come to in either ledger. -/
theorem creditLedger_credited (u : BillingDb) (invoice : Invoice) (plan : PlanConfig) (l : Ledger) :
    (if 0 < plan.includedAiCredits then
        (if 0 < plan.includedSmsCredits then
          u.insertCredit .sms (invoiceCredit .sms invoice plan.includedSmsCredits invoice.reference)
        else u).insertCredit .ai
          (invoiceCredit .ai invoice plan.includedAiCredits invoice.reference)
      else if 0 < plan.includedSmsCredits then
        u.insertCredit .sms (invoiceCredit .sms invoice plan.includedSmsCredits invoice.reference)
      else u).creditLedger l =
      (if 0 < included l plan then some (invoiceCredit l invoice (included l plan) invoice.reference)
        else none).elim (u.creditLedger l) (u.creditLedger l).insertNew := by
  cases l with
  | sms => split_ifs <;> simp_all [included, BillingDb.insertCredit_creditLedger]
  | ai => split_ifs <;> simp_all [included, BillingDb.insertCredit_creditLedger]

theorem everyCommit_applyPaid {invoice a : Invoice} {evt : PaymentWebhookEvent} {draw : Draw}
    (ha : found = some a) (hopen : a.status ≠ .paid) (hcore : core a = core invoice)
    (hreference : invoice.reference = evt.reference) :
    EveryCommit J (Applies found fails) (applyPaid invoice evt draw) d rs id := by
  have hid : (core a).id = (core invoice).id := congrArg Invoice.id hcore
  change a.id = invoice.id at hid
  refine everyCommit_modifyChecked_bind fun s _ _ _ => ?_
  have hcredit (l : Ledger) : paidCredit l a = paidCredit l invoice := by
    rw [← paidCredit_core l a, hcore, paidCredit_core]
  cases hplan : invoice.planId with
  | none =>
    refine .paid evt.gatewayTransactionId ha hopen (fun v => ?_) fun v l => ?_
    · rw [hid]
      rfl
    · rw [hcredit, paidCredit, hplan]
      exact v.settleInvoice_creditLedger l _ _ _
  | some code =>
    refine everyCommit_grantPlan_bind fun rs₁ w hw => ?_
    refine everyCommit_credit_bind fun rs₂ => everyCommit_credit_bind fun rs₃ => ?_
    refine .paid evt.gatewayTransactionId ha hopen (fun v => ?_) fun v l => ?_
    · rw [hid]
      change (ite _ _ _ : BillingDb).invoices = _
      split_ifs <;> simp [hw]
    · have hsame : (w (v.settleInvoice invoice.id .paid evt.gatewayTransactionId)).creditLedger l =
          v.creditLedger l := ((hw _).2 l).trans (v.settleInvoice_creditLedger l _ _ _)
      rw [hcredit, paidCredit, hplan, ← hsame, Option.bind_some, ← creditLedger_credited]
      simp only [Function.comp, decide_eq_true_eq, id, hreference]

theorem everyCommit_applyPaymentWebhook (db : BillingDb) (evt : PaymentWebhookEvent) (draw : Draw) :
    EveryCommit (Descends db)
      (Applies (findByReference db evt.reference) (evt.status == .failed))
      (applyPaymentWebhook evt draw) d rs id := by
  refine everyCommit_query_bind fun s hs => ?_
  cases hfound : findByReference (id s) evt.reference with
  | none => exact .nothing
  | some invoice =>
    obtain ⟨a, ha, hcore, hopen⟩ := found_before hs hfound
    have hid : (core a).id = (core invoice).id := congrArg Invoice.id hcore
    change a.id = invoice.id at hid
    have hreference : invoice.reference = evt.reference := by
      simpa using (Table.mem_of_find? hfound).2
    dsimp only
    split_ifs with hpaid
    · exact .nothing
    · cases hstatus : evt.status with
      | succeeded => exact everyCommit_applyPaid ha (hopen hpaid) hcore hreference
      | failed =>
        refine everyCommit_modifyChecked_bind fun s' _ _ _ => ?_
        rw [← hid]
        exact .failed evt.gatewayTransactionId ha (hopen hpaid) rfl

theorem everyCommit_program (db : BillingDb) (c : DeliveryCall) :
    EveryCommit (Descends db) (Applies (c.invoice db) c.fails) c.program false [] id := by
  cases c with
  | webhook evt draw => exact everyCommit_applyPaymentWebhook db evt draw
  | reconcile i tx draw =>
    refine everyCommit_query_bind fun s hs => everyCommit_orThrow_bind fun invoice hget => ?_
    refine everyCommit_refuse_bind ?_
    have hcore := hs.byId i
    rw [show s.invoices.get? i = some invoice from hget, Option.map_some, eq_comm,
      Option.map_eq_some_iff] at hcore
    obtain ⟨a, ha, hsame⟩ := hcore
    have hreference : (core a).reference = (core invoice).reference :=
      congrArg Invoice.reference hsame
    change a.reference = invoice.reference at hreference
    have hinvoice : (DeliveryCall.reconcile i tx draw).invoice db =
        findByReference db invoice.reference := by
      change ((db.invoices.get? i).map Invoice.reference).bind (findByReference db) = _
      rw [ha, ← hreference]
      rfl
    rw [hinvoice]
    exact everyCommit_applyPaymentWebhook db
      ⟨tx, invoice.reference, .succeeded, invoice.amountMinor, invoice.currency⟩ draw

end commits

/-- What holds of the committed rows, with the calls that have returned. -/
structure Standing (db : BillingDb) (calls : List DeliveryCall) (v : BillingDb)
    (order : List (ℕ × Bool)) : Prop where
  descends : Descends db v
  ledgers : ∀ l, (v.creditLedger l).rows = (db.creditLedger l).rows ++
    (appliedInvoices db calls order).filterMap (paidCredit l)
  paid : ∀ i b, v.invoices.get? i = some b → b.status = .paid →
    (∃ a, db.invoices.get? i = some a ∧ a.status = .paid) ∨
      ∃ a ∈ appliedInvoices db calls order, a.id = i
  applied : ∀ a ∈ appliedInvoices db calls order, a.status ≠ .paid ∧
    ((∃ b, v.invoices.get? a.id = some b ∧ b.status = .paid) ∨
      ∃ c ∈ calls, c.invoice db = some a ∧ c.fails = true)

section runs
variable {db v : BillingDb} {calls : List DeliveryCall} {order : List (ℕ × Bool)}

theorem appliedInvoices_append (more : List (ℕ × Bool)) : appliedInvoices db calls (order ++ more) =
    appliedInvoices db calls order ++ appliedInvoices db calls more :=
  List.filterMap_append

theorem standing_begin : Standing db calls db [] where
  descends := descends_refl db
  ledgers l := by simp [appliedInvoices]
  paid i b hb hpaid := .inl ⟨b, hb, hpaid⟩
  applied a ha := absurd ha List.not_mem_nil

theorem appliedInvoices_nothing (t : ℕ) :
    appliedInvoices db calls (order ++ [(t, false)]) = appliedInvoices db calls order := by
  rw [appliedInvoices_append]
  exact List.append_nil _

theorem appliedInvoices_paid {t : ℕ} {c : DeliveryCall} {a : Invoice} (hc : calls[t]? = some c)
    (ha : c.invoice db = some a) :
    appliedInvoices db calls (order ++ [(t, true)]) = appliedInvoices db calls order ++ [a] := by
  rw [appliedInvoices_append]
  simp [appliedInvoices, hc, ha]

theorem get?_of_invoice {c : DeliveryCall} {a : Invoice} (ha : c.invoice db = some a) :
    db.invoices.get? a.id = some a := by
  obtain ⟨r, -, hfound⟩ := Option.bind_eq_some_iff.mp ha
  exact Table.get?_of_mem (Table.mem_of_find? hfound).1

theorem invoice_of_applied {a : Invoice} (ha : a ∈ appliedInvoices db calls order) :
    ∃ c : DeliveryCall, c.invoice db = some a := by
  obtain ⟨⟨t, ok⟩, -, hp⟩ := List.mem_filterMap.mp ha
  cases ok with
  | false => cases hp
  | true =>
    obtain ⟨c, -, hc⟩ := Option.bind_eq_some_iff.mp hp
    exact ⟨c, hc⟩

/-- An invoice of before is there still. -/
theorem exists_now (h : Descends db v) {i : ℕ} {a : Invoice} (ha : db.invoices.get? i = some a) :
    ∃ b, v.invoices.get? i = some b := by
  have hcore := h.byId i
  rw [ha, Option.map_some, Option.map_eq_some_iff] at hcore
  obtain ⟨b, hb, -⟩ := hcore
  exact ⟨b, hb⟩

theorem standing_failed (h : Standing db calls v order) {t : ℕ} {c : DeliveryCall} {a : Invoice}
    {tx : String} (hc : calls[t]? = some c) (ha : c.invoice db = some a) (hopen : a.status ≠ .paid)
    (hfails : c.fails = true) :
    Standing db calls (v.settleInvoice a.id .failed tx) (order ++ [(t, false)]) := by
  refine ⟨descends_settle h.descends (get?_of_invoice ha) hopen, fun l => ?_, fun i b hb hpaid => ?_,
    fun a' ha' => ?_⟩
  · rw [v.settleInvoice_creditLedger, appliedInvoices_nothing]
    exact h.ledgers l
  · rw [get?_settle, Option.map_eq_some_iff] at hb
    obtain ⟨r, hr, rfl⟩ := hb
    rw [appliedInvoices_nothing]
    split_ifs at hpaid with hid
    exact h.paid i r hr hpaid
  · rw [appliedInvoices_nothing] at ha'
    obtain ⟨hopen', hkept⟩ := h.applied a' ha'
    refine ⟨hopen', ?_⟩
    rcases hkept with ⟨b, hb, hpaid⟩ | hfailed
    · by_cases hid : b.id = a.id
      · obtain ⟨c', hc'⟩ := invoice_of_applied ha'
        have hsame : a'.id = a.id := (Table.get?_key hb).symm.trans hid
        have hrow := get?_of_invoice hc'
        rw [hsame, get?_of_invoice ha] at hrow
        obtain rfl := Option.some.inj hrow
        exact .inr ⟨c, List.mem_of_getElem? hc, ha, hfails⟩
      · refine .inl ⟨b, ?_, hpaid⟩
        rw [get?_settle, hb, Option.map_some, if_neg (by simpa using hid)]
    · exact .inr hfailed

/-- The keys of the credits that are about to be committed are free. -/
theorem ledger_paid {a : Invoice} {f : BillingDb → BillingDb}
    (hcredits : ∀ v l, (f v).creditLedger l =
      (paidCredit l a).elim (v.creditLedger l) (v.creditLedger l).insertNew)
    (hfree : ∀ k, Adds Taken f k → ¬ Taken k v) (l : Ledger) :
    ((f v).creditLedger l).rows = (v.creditLedger l).rows ++ (paidCredit l a).toList := by
  rw [hcredits]
  cases hcredit : paidCredit l a with
  | none => exact (List.append_nil _).symm
  | some row =>
    have hadds : Adds Taken f (.creditKey l row.idempotencyKey) := by
      have hempty : (BillingDb.empty.creditLedger l).has row.idempotencyKey = false := by
        cases l <;> rfl
      refine ⟨.empty, by rw [taken_creditKey, hempty]; exact Bool.false_ne_true, ?_⟩
      rw [taken_creditKey, hcredits, hcredit]
      simp [Table.has_insertNew]
    have hnew : (v.creditLedger l).has row.idempotencyKey = false :=
      Bool.eq_false_iff.mpr (hfree _ hadds)
    exact Table.insertNew_rows hnew

theorem standing_paid (h : Standing db calls v order) {t : ℕ} {c : DeliveryCall} {a : Invoice}
    {tx : String} {f : BillingDb → BillingDb} (hc : calls[t]? = some c) (ha : c.invoice db = some a)
    (hopen : a.status ≠ .paid)
    (hsettles : ∀ v, (f v).invoices = (v.settleInvoice a.id .paid tx).invoices)
    (hcredits : ∀ v l, (f v).creditLedger l =
      (paidCredit l a).elim (v.creditLedger l) (v.creditLedger l).insertNew)
    (hfree : ∀ k, Adds Taken f k → ¬ Taken k v) :
    Standing db calls (f v) (order ++ [(t, true)]) := by
  have hrow := get?_of_invoice ha
  refine ⟨descends_congr (descends_settle h.descends hrow hopen) (hsettles v), fun l => ?_,
    fun i b hb hpaid => ?_, fun a' ha' => ?_⟩
  · rw [ledger_paid hcredits hfree, h.ledgers, appliedInvoices_paid hc ha, List.filterMap_append,
      List.append_assoc]
    congr 2
  · rw [hsettles, get?_settle, Option.map_eq_some_iff] at hb
    obtain ⟨r, hr, rfl⟩ := hb
    rw [appliedInvoices_paid hc ha]
    split_ifs at hpaid with hid
    · exact .inr ⟨a, by simp, (by simpa using hid : r.id = a.id).symm.trans (Table.get?_key hr)⟩
    · refine (h.paid i r hr hpaid).imp_right ?_
      rintro ⟨a', ha', hi⟩
      exact ⟨a', List.mem_append_left _ ha', hi⟩
  · rw [appliedInvoices_paid hc ha] at ha'
    rcases List.mem_append.mp ha' with ha' | ha'
    · obtain ⟨hopen', hkept⟩ := h.applied a' ha'
      refine ⟨hopen', hkept.imp_left ?_⟩
      rintro ⟨b, hb, hpaid⟩
      refine ⟨_, by rw [hsettles, get?_settle, hb, Option.map_some], ?_⟩
      split_ifs
      · rfl
      · exact hpaid
    · obtain rfl := List.mem_singleton.mp ha'
      obtain ⟨b, hb⟩ := exists_now h.descends hrow
      refine ⟨hopen, .inl ⟨_, by rw [hsettles, get?_settle, hb, Option.map_some], ?_⟩⟩
      rw [if_pos (by simpa using Table.get?_key hb)]

theorem standing_run (db : BillingDb) (calls : List DeliveryCall) (moves : List Move) :
    Standing db calls ((system db calls).run moves).committed
      (returned (system db calls) moves) := by
  refine run_unique_invariant (P := fun c => Applies (c.invoice db) c.fails) (J := Descends db)
    (I := Standing db calls) locksKeys_program (everyCommit_program db)
    (fun v order h => h.descends) standing_begin ?_ moves
  intro v t r order c rs f h hc happlies hfree
  cases happlies with
  | nothing =>
    refine ⟨h.descends, ?_, ?_, ?_⟩
    all_goals
      rw [show order ++ (Option.map (fun r => (t, r)) (some false)).toList = order ++ [(t, false)]
        from rfl, appliedInvoices_nothing]
    · exact h.ledgers
    · exact h.paid
    · exact h.applied
  | failed tx ha hopen hfails => exact standing_failed h hc ha hopen hfails
  | paid tx ha hopen hsettles hcredits =>
    exact standing_paid h hc ha hopen hsettles hcredits hfree

/-- Every plan comes with messages, so the invoice of a plan has a row in the message ledger. -/
theorem paidCredit_sms (a : Invoice) :
    (paidCredit .sms a).map CreditRow.idempotencyKey = a.planId.map fun _ => invoiceKey .sms a.id := by
  unfold paidCredit
  cases a.planId with
  | none => rfl
  | some code => cases code <;> rfl

/-- However many callbacks and reconciliations overlap, and in whatever order their statements run:
the ledgers gain the credits of the invoices that were applied, in that order, and nothing else;
no invoice of a plan is applied twice. -/
theorem credited_once (db : BillingDb) (calls : List DeliveryCall) (moves : List Move) :
    (∀ l, (((system db calls).run moves).committed.creditLedger l).rows =
      (db.creditLedger l).rows ++
        (appliedInvoices db calls (returned (system db calls) moves)).filterMap (paidCredit l)) ∧
    (((appliedInvoices db calls (returned (system db calls) moves)).filter
      fun a => a.planId.isSome).map Invoice.id).Nodup := by
  have hstanding := standing_run db calls moves
  refine ⟨hstanding.ledgers, ?_⟩
  have hkeys := (((system db calls).run moves).committed.creditLedger .sms).nodup
  rw [hstanding.ledgers, List.map_append] at hkeys
  have hnew := (List.nodup_append.mp hkeys).2.1
  refine List.Nodup.of_map (invoiceKey .sms) ?_
  convert hnew using 1
  generalize appliedInvoices db calls (returned (system db calls) moves) = applied
  induction applied with
  | nil => rfl
  | cons a rest ih =>
    have hkey := paidCredit_sms a
    cases hplan : a.planId with
    | none =>
      rw [hplan, Option.map_none, Option.map_eq_none_iff] at hkey
      simp [hplan, hkey, ih]
    | some code =>
      rw [hplan, Option.map_some, Option.map_eq_some_iff] at hkey
      obtain ⟨row, hrow, hid⟩ := hkey
      simp [hplan, hrow, hid, ih]

/-- An invoice that is paid was paid before or has been applied; one that was paid before stays so
and is not applied; and one that has been applied is paid, unless a call reports that its payment
failed. -/
theorem paid_as_applied (db : BillingDb) (calls : List DeliveryCall) (moves : List Move) (i : ℕ)
    (a b : Invoice) (ha : db.invoices.get? i = some a)
    (hb : ((system db calls).run moves).committed.invoices.get? i = some b) :
    (b.status = .paid → a.status = .paid ∨
      a ∈ appliedInvoices db calls (returned (system db calls) moves)) ∧
    (a.status = .paid → b.status = .paid ∧
      a ∉ appliedInvoices db calls (returned (system db calls) moves)) ∧
    (a ∈ appliedInvoices db calls (returned (system db calls) moves) →
      b.status = .paid ∨ ∃ c ∈ calls, c.invoice db = some a ∧ c.fails = true) := by
  have hstanding := standing_run db calls moves
  refine ⟨fun hpaid => ?_, fun hpaid => ⟨hstanding.descends.paid i a b ha hb hpaid, fun happ => ?_⟩,
    fun happ => ?_⟩
  · rcases hstanding.paid i b hb hpaid with ⟨a', ha', hpaid'⟩ | ⟨a', happ, rfl⟩
    · obtain rfl := Option.some.inj (ha.symm.trans ha')
      exact .inl hpaid'
    · obtain ⟨c, hc⟩ := invoice_of_applied happ
      obtain rfl := Option.some.inj (ha.symm.trans (get?_of_invoice hc))
      exact .inr happ
  · exact (hstanding.applied a happ).1 hpaid
  · refine (hstanding.applied a happ).2.imp_left ?_
    rintro ⟨b', hb', hpaid⟩
    rw [Table.get?_key ha, hb] at hb'
    obtain rfl := Option.some.inj hb'
    exact hpaid

end runs

/-- An event pack of account 3 that is not paid yet. -/
def pendingPack : Invoice :=
  ⟨20, 3, some .starter, some 7, 10000, "UGX", .pending, "inv_1", none⟩

def unpaidPack : BillingDb :=
  { BillingDb.empty with
    events := BillingDb.empty.events.insertNew ⟨7, 1⟩
    invoices := BillingDb.empty.invoices.insertNew pendingPack }

def reported (grantId : ℕ) : DeliveryCall :=
  .webhook ⟨"t1", "inv_1", .succeeded, 0, "UGX"⟩ ⟨7, 3, grantId, 20, "inv_1", 1, 0⟩

/-- The second delivery has read the invoice before the first applies it. -/
def twice : List Move :=
  [.advance 1] ++ List.replicate 6 (.advance 0) ++ List.replicate 6 (.advance 1)

/-- The invoice is paid at the end, and one delivery has applied it. -/
theorem paid_as_applied_twice : ∃ b,
    ((system unpaidPack [reported 40, reported 41]).run twice).committed.invoices.get? 20 = some b ∧
      b.status = .paid ∧ appliedInvoices unpaidPack [reported 40, reported 41]
        (returned (system unpaidPack [reported 40, reported 41]) twice) = [pendingPack] := by
  have hget : ((system unpaidPack [reported 40, reported 41]).run twice).committed.invoices.get? 20 =
      some { pendingPack with status := .paid, gatewayTransactionId := some "t1" } := by decide
  obtain ⟨-, -, hpaid⟩ := paid_as_applied unpaidPack [reported 40, reported 41] twice 20 pendingPack _
    (by decide) hget
  refine ⟨_, hget, (hpaid (by decide)).resolve_right ?_, by decide⟩
  rintro ⟨c, hc, -, hfails⟩
  obtain rfl | rfl := List.mem_pair.mp hc
  all_goals cases hfails

end Akabbo.InvoiceDeliveries
