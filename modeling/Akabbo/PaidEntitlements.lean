import Akabbo.CreditInserts
import Akabbo.InvoiceDeliveries
import Akabbo.StoppedCalls

/-!
# What a payment does to every entitlement

A payment that is applied, after any run of billing calls: what it does to the balances of every
scope, and which plan is in force afterwards.
-/
namespace Akabbo.PaidEntitlements
open CreditPool PlanCatalog RowTable StatementProgram ProgramParts BillingState
open Entitlement BillingWrites BillingRuns CreditInserts InvoiceDeliveries StoppedCalls
open WeakestPreconditions
open StatementProgram.Program (query refuse orThrow runIf modifyChecked)

/-- A grant of an event names no account. -/
def HeldByOne (db : BillingDb) : Prop :=
  ∀ g ∈ db.grants, g.eventId.isSome → g.accountId = none

/-- What the writes of the billing calls keep. -/
def KeepsHolders (db db' : BillingDb) : Prop := HeldByOne db → HeldByOne db'

section holders
variable {db : BillingDb}

theorem keepsHolders_same {db' : BillingDb} (h : db'.grants = db.grants) : KeepsHolders db db' :=
  fun hheld g hg => hheld g (h ▸ hg)

theorem keepsHolders_insertGrant {grant : EntitlementGrant}
    (h : grant.eventId.isSome → grant.accountId = none) : KeepsHolders db (db.insertGrant grant) := by
  intro hheld g hg
  rcases Table.mem_insertNew_cases hg with hg | rfl
  · exact hheld g hg
  · exact h

theorem mem_updateEventGrant {e : ℕ} {f : EntitlementGrant → EntitlementGrant}
    (hf : ∀ g, (f g).id = g.id) {g : EntitlementGrant} : g ∈ (db.updateEventGrant e f hf).grants ↔
      ∃ r ∈ db.grants, g = if r.eventId == some e then f r else r := by
  unfold BillingDb.updateEventGrant
  rw [Table.mem_update]

theorem keepsHolders_updateEventGrant {e : ℕ} {f : EntitlementGrant → EntitlementGrant}
    {hf : ∀ g, (f g).id = g.id} (h : ∀ g, (f g).eventId = g.eventId ∧ (f g).accountId = g.accountId) :
    KeepsHolders db (db.updateEventGrant e f hf) := by
  intro hheld g hg
  obtain ⟨r, hr, rfl⟩ := (mem_updateEventGrant hf).mp hg
  split_ifs
  · rw [(h r).1, (h r).2]
    exact hheld r hr
  · exact hheld r hr

theorem effects_insertGrant {grant : EntitlementGrant}
    (h : grant.eventId.isSome → grant.accountId = none) :
    Effects KeepsHolders (BillingWrites.insertGrant grant) :=
  effects_modifyChecked (fun _ => id) _ _ fun _ => keepsHolders_insertGrant h

theorem effects_upsertEventGrant (e : ℕ) {create : EntitlementGrant}
    {update : EntitlementGrant → EntitlementGrant} {hf : ∀ g, (update g).id = g.id}
    (hcreate : create.eventId.isSome → create.accountId = none)
    (hupdate : ∀ g, (update g).eventId = g.eventId ∧ (update g).accountId = g.accountId) :
    Effects KeepsHolders (upsertEventGrant e create update hf) := by
  refine effects_modifyChecked (fun _ => id) _ _ fun db => ?_
  split_ifs
  · exact keepsHolders_updateEventGrant hupdate
  · exact keepsHolders_insertGrant hcreate

theorem effects_owningAccountId (e : ℕ) : Effects KeepsHolders (owningAccountId e) := by
  refine effects_bind (effects_query _) fun event => ?_
  cases event with
  | none => trivial
  | some event => exact effects_query _

theorem effects_appendTo (l : Ledger) (scope : Scope) (kind : CreditKind) (amount : ℤ)
    (key : String) (reference : Option String) :
    Effects KeepsHolders (appendTo l scope kind amount key reference) := by
  refine effects_bind ?_ fun a => effects_modify _ fun db =>
    keepsHolders_same (db.insertCredit_grants l _)
  unfold namedAccount
  split
  · trivial
  · exact effects_owningAccountId _
  · trivial

theorem effects_createCredit (l : Ledger) (row : CreditRow) :
    Effects KeepsHolders (createCredit l row) :=
  effects_modifyChecked (fun _ => id) _ _ fun db => keepsHolders_same (db.insertCredit_grants l row)

theorem effects_ensureBillingAccount (userId : ℕ) (draw : Draw) :
    Effects KeepsHolders (ensureBillingAccount userId draw) := by
  refine effects_bind (effects_query _) fun existing => ?_
  cases existing with
  | some a => trivial
  | none =>
    exact effects_bind (effects_modifyChecked (fun _ => id) _ _ fun _ => keepsHolders_same rfl)
      fun _ => trivial

theorem effects_charge (userId : ℕ) (plan : PlanConfig) (e : Option ℕ) (outcome : ChargeOutcome)
    (draw : Draw) : Effects KeepsHolders (charge userId plan e outcome draw) := by
  refine effects_bind (effects_ensureBillingAccount userId draw) fun a =>
    effects_bind effects_commitNow fun _ => ?_
  refine effects_bind (effects_modifyChecked (fun _ => id) _ _ fun _ => keepsHolders_same rfl) fun _ => ?_
  exact effects_bind effects_commitNow fun _ => effects_bind (effects_refuse _) fun _ => trivial

theorem paidGrant_holder (invoice : Invoice) (plan : PlanConfig) (draw : Draw) :
    (paidGrant invoice plan draw).eventId.isSome → (paidGrant invoice plan draw).accountId = none :=
  fun h => if_pos h

theorem effects_grantPlan (invoice : Invoice) (plan : PlanConfig) (draw : Draw) :
    Effects KeepsHolders (grantPlan invoice plan draw) := by
  unfold grantPlan
  cases invoice.eventId with
  | none => exact effects_insertGrant (paidGrant_holder invoice plan draw)
  | some e =>
    exact effects_upsertEventGrant e (paidGrant_holder invoice plan draw) fun _ => ⟨rfl, rfl⟩

theorem effects_applyPaymentWebhook (evt : PaymentWebhookEvent) (draw : Draw) :
    Effects KeepsHolders (applyPaymentWebhook evt draw) := by
  have hsettle (i : ℕ) (status : InvoiceStatus) (tx : String) :
      Effects KeepsHolders (settleInvoice i status tx) :=
    effects_modifyChecked (fun _ => id) _ _ fun _ => keepsHolders_same rfl
  refine effects_bind (effects_query _) fun found => ?_
  cases found with
  | none => trivial
  | some invoice =>
    dsimp only
    split_ifs
    · trivial
    · cases evt.status with
      | failed => exact effects_bind (hsettle _ _ _) fun _ => trivial
      | succeeded =>
        refine effects_bind (hsettle _ _ _) fun _ => ?_
        cases invoice.planId with
        | none => trivial
        | some code =>
          refine effects_bind (effects_grantPlan _ _ _) fun _ => ?_
          refine effects_bind (effects_runIf (effects_createCredit _ _)) fun _ => ?_
          exact effects_bind (effects_runIf (effects_createCredit _ _)) fun _ => trivial

theorem effects_resolve (scope : Scope) (draw : Draw) :
    Effects KeepsHolders (resolve scope draw) := by
  have hbalance (l : Ledger) (a : Option ℕ) : Effects KeepsHolders (ledgerBalance l scope a) := by
    unfold ledgerBalance
    split_ifs
    · trivial
    · exact effects_query _
  unfold resolve
  refine effects_bind ?_ fun a => effects_bind ?_ fun grant =>
    effects_bind (hbalance .sms a) fun sms => effects_bind (hbalance .ai a) fun ai => ?_
  · unfold resolveAccount
    cases scope.eventId with
    | some e => exact effects_owningAccountId e
    | none => trivial
  · unfold activeGrant
    split_ifs
    · trivial
    · exact effects_query _
  · cases scope.eventId with
    | some e =>
      exact effects_bind (effects_query _) fun _ => effects_bind (effects_bind (effects_query _)
        fun _ => effects_bind (effects_query _) fun _ => trivial) fun _ => trivial
    | none => trivial

theorem effects_createEvent (userId : ℕ) (draw : Draw) :
    Effects KeepsHolders (BillingWrites.createEvent userId draw) :=
  effects_bind (effects_modifyChecked (fun _ => id) _ _ fun _ => keepsHolders_same rfl) fun _ => trivial

theorem effects_call (call : BillingCall) (draw : Draw) :
    Effects KeepsHolders (call.program draw) := by
  cases call with
  | createEvent u => exact effects_map (effects_createEvent u draw) _
  | ensureBillingAccount u => exact effects_map (effects_ensureBillingAccount u draw) _
  | startFreeTrial e =>
    refine effects_map (effects_bind (effects_upsertEventGrant e (fun _ => rfl) fun _ => ⟨rfl, rfl⟩)
      fun _ => ?_) _
    exact effects_bind effects_commitNow fun _ => effects_bind (effects_appendTo _ _ _ _ _ _) fun _ =>
      effects_bind effects_commitNow fun _ => effects_appendTo _ _ _ _ _ _
  | startAccountTrial a =>
    refine effects_map (effects_bind (effects_query _) fun _ => effects_bind (effects_runIf
      (effects_insertGrant fun h => by cases h)) fun _ => ?_) _
    exact effects_bind effects_commitNow fun _ => effects_bind (effects_appendTo _ _ _ _ _ _) fun _ =>
      effects_bind effects_commitNow fun _ => effects_appendTo _ _ _ _ _ _
  | purchaseEventPack u e code outcome =>
    exact effects_map (effects_bind (effects_orThrow _ _) fun _ => effects_bind (effects_refuse _)
      fun _ => effects_charge _ _ _ _ _) _
  | subscribe u code outcome =>
    exact effects_map (effects_bind (effects_orThrow _ _) fun _ => effects_bind (effects_refuse _)
      fun _ => effects_charge _ _ _ _ _) _
  | applyPaymentWebhook evt => exact effects_map (effects_applyPaymentWebhook evt draw) _
  | reconcileInvoice i tx =>
    exact effects_map (effects_bind (effects_query _) fun _ => effects_bind (effects_orThrow _ _)
      fun _ => effects_bind (effects_refuse _) fun _ => effects_applyPaymentWebhook _ draw) _
  | grant l scope amount key reference => exact effects_map (effects_appendTo _ _ _ _ _ _) _
  | reserve l scope count key =>
    refine effects_map (effects_bind (effects_resolve scope draw) fun ent => ?_) _
    dsimp only
    split_ifs
    · trivial
    · exact effects_bind (effects_appendTo _ _ _ _ _ _) fun _ => trivial
  | commit l scope key => exact effects_map (effects_appendTo _ _ _ _ _ _) _
  | refund l scope count key => exact effects_map (effects_appendTo _ _ _ _ _ _) _

theorem heldByOne_run (calls : List Invocation) : HeldByOne (billingRun .empty calls) := by
  have hkeeps (calls : List Invocation) (db : BillingDb) (h : HeldByOne db) :
      HeldByOne (billingRun db calls) := by
    induction calls generalizing db with
    | nil => exact h
    | cons inv rest ih =>
      have hstep : KeepsHolders db (inv.step db) :=
        leaves_effects (fun _ => id) (fun h h' hdb => h' (h hdb))
          (effects_call inv.call inv.draw) none db
      exact ih _ (hstep h)
  exact hkeeps calls .empty fun g hg => absurd hg List.not_mem_nil

end holders

/-- The grants after a payment. An event's own grants are of the plan that was bought and all others
are as they were; an account has one more. -/
inductive GrantsPaid (invoice : Invoice) (db db' : BillingDb) : Prop
  | planless (hplan : invoice.planId = none) (same : db'.grants = db.grants) :
      GrantsPaid invoice db db'
  | event {code : PlanCode} {e : ℕ} (hplan : invoice.planId = some code)
      (hevent : invoice.eventId = some e)
      (others : db'.grants.rows.filter (fun g => g.eventId != some e) =
        db.grants.rows.filter fun g => g.eventId != some e)
      (own : ∀ g ∈ db'.grants, g.eventId = some e → g.planId = code ∧ g.status = .active)
      (exists_own : ∃ g ∈ db'.grants, g.eventId = some e) : GrantsPaid invoice db db'
  | account {code : PlanCode} {g : EntitlementGrant} (hplan : invoice.planId = some code)
      (hevent : invoice.eventId = none) (rows : db'.grants.rows = db.grants.rows ++ [g])
      (holder : g.eventId = none ∧ g.accountId = some invoice.billingAccountId)
      (bought : g.planId = code ∧ g.status = .active) : GrantsPaid invoice db db'

/-- What an applied payment leaves. -/
structure Paid (invoice : Invoice) (db db' : BillingDb) : Prop where
  events : db'.events = db.events
  accounts : db'.accounts = db.accounts
  grants : GrantsPaid invoice db db'
  credits : ∀ l, (db'.creditLedger l).rows =
    (db.creditLedger l).rows ++ (paidCredit l invoice).toList

section rows
variable {I : BillingDb → Prop} {db v : BillingDb} {invoice : Invoice} {code : PlanCode}

theorem has_of_grantViolation {grant : EntitlementGrant} (h : grantViolation v grant = none) :
    v.grants.has grant.id = false := by
  unfold grantViolation at h
  by_contra hhas
  rw [if_pos (by simpa using hhas)] at h
  cases h

theorem grantsPaid_congr {w w' : BillingDb} (h : GrantsPaid invoice v w) (hv : v.grants = db.grants)
    (hw : w'.grants = w.grants) : GrantsPaid invoice db w' := by
  cases h with
  | planless hplan same => exact .planless hplan ((hw.trans same).trans hv)
  | event hplan hevent others own exists_own =>
    rw [hv, ← hw] at others
    rw [← hw] at own exists_own
    exact .event hplan hevent others own exists_own
  | account hplan hevent rows holder bought =>
    rw [hv, ← hw] at rows
    exact .account hplan hevent rows holder bought

theorem wp_grantPlan (hplan : invoice.planId = some code) (draw : Draw) :
    wp I (grantPlan invoice (planCatalog code) draw) (fun _ v' => v'.events = v.events ∧
      v'.accounts = v.accounts ∧ GrantsPaid invoice v v' ∧ ∀ l, v'.creditLedger l = v.creditLedger l) v := by
  unfold grantPlan
  cases hevent : invoice.eventId with
  | none =>
    refine wp_accept fun hviol => ⟨rfl, rfl, ?_, fun l => v.insertGrant_creditLedger l _⟩
    refine .account hplan hevent (Table.insertNew_rows (has_of_grantViolation hviol)) ⟨hevent, ?_⟩
      ⟨planCatalog_code code, rfl⟩
    simp [paidGrant, hevent]
  | some e =>
    refine wp_accept fun hviol => ?_
    by_cases hhas : hasEventGrant v e = true
    · rw [if_pos hhas]
      refine ⟨rfl, rfl, .event hplan hevent ?_ ?_ ?_, fun l => v.updateEventGrant_creditLedger l e _ _⟩
      · unfold BillingDb.updateEventGrant
        rw [Table.filter_update fun g _ hg => ?_]
        have he : g.eventId = some e := by simpa using hg
        simp [he]
      · intro g hg he
        obtain ⟨r, hr, rfl⟩ := (mem_updateEventGrant _).mp hg
        split_ifs at he ⊢ with hown
        · exact ⟨planCatalog_code code, rfl⟩
        · exact absurd he (by simpa using hown)
      · obtain ⟨r, hr, he⟩ := List.any_eq_true.mp hhas
        refine ⟨_, (mem_updateEventGrant _).mpr ⟨r, hr, rfl⟩, ?_⟩
        rw [if_pos he]
        simpa using he
    · rw [if_neg hhas] at hviol ⊢
      have hnew : (v.insertGrant (paidGrant invoice (planCatalog code) draw)).grants.rows =
          v.grants.rows ++ [paidGrant invoice (planCatalog code) draw] :=
        Table.insertNew_rows (has_of_grantViolation hviol)
      refine ⟨rfl, rfl, .event hplan hevent ?_ ?_ ?_, fun l => v.insertGrant_creditLedger l _⟩
      · rw [hnew, List.filter_append]
        simp [paidGrant, hevent]
      · intro g hg he
        rcases List.mem_append.mp (hnew ▸ Table.mem_def.mp hg) with hold | hown
        · exact absurd (List.any_eq_true.mpr ⟨g, hold, by simp [he]⟩) hhas
        · rw [List.mem_singleton.mp hown]
          exact ⟨planCatalog_code code, rfl⟩
      · exact ⟨_, Table.mem_def.mpr (hnew ▸ List.mem_append_right _ List.mem_cons_self), hevent⟩

theorem wp_credit_bind {b : Bool} {l : Ledger} {row : CreditRow} {f : Unit → BillingProgram Bool}
    {Q : Bool → BillingDb → Prop}
    (h : (b = true → (v.creditLedger l).has row.idempotencyKey = false) →
      wp I (f ()) Q (if b then v.insertCredit l row else v)) :
    wp I (runIf b (createCredit l row) >>= f) Q v := by
  refine wp_runIf_bind (fun hb => wp_accept fun hnew => ?_) fun hb => ?_
  · have hfresh : (v.creditLedger l).has row.idempotencyKey = false := by
      by_contra hhas
      rw [if_pos (by simpa using hhas)] at hnew
      cases hnew
    simpa [hb] using h fun _ => hfresh
  · simpa [hb] using h (by simp [hb])

theorem rows_credited {b : Bool} {l : Ledger} {row : CreditRow}
    (h : b = true → (v.creditLedger l).has row.idempotencyKey = false) (l' : Ledger) :
    ((if b then v.insertCredit l row else v).creditLedger l').rows =
      (v.creditLedger l').rows ++ if l = l' ∧ b = true then [row] else [] := by
  cases b with
  | false => simp
  | true => simpa using rows_insertCredit (h rfl)

theorem wp_applyPaid {evt : PaymentWebhookEvent} (hreference : invoice.reference = evt.reference)
    (draw : Draw) :
    wp I (applyPaid invoice evt draw) (fun r v' => r = true → Paid invoice v v') v := by
  refine wp_accept_bind fun _ => ?_
  cases hplan : invoice.planId with
  | none =>
    refine fun _ => ⟨rfl, rfl, .planless hplan rfl, fun l => ?_⟩
    simp [paidCredit, hplan]
  | some code =>
    refine wp_bind (wp_mono (wp_grantPlan hplan draw) ?_)
    rintro - v₁ ⟨hevents, haccounts, hgrants, hledgers⟩
    change v₁.events = v.events at hevents
    change v₁.accounts = v.accounts at haccounts
    refine wp_credit_bind fun hsms => wp_credit_bind fun hai => fun _ => ⟨?_, ?_, ?_, fun l => ?_⟩
    · split_ifs <;> simp [hevents]
    · split_ifs <;> simp [haccounts]
    · refine grantsPaid_congr hgrants rfl ?_
      split_ifs <;> simp
    · rw [rows_credited hai, rows_credited hsms, hledgers, BillingDb.settleInvoice_creditLedger,
        ← hreference]
      cases l with
      | sms => by_cases h : 0 < (planCatalog code).includedSmsCredits <;>
          simp [paidCredit, hplan, included, h]
      | ai => by_cases h : 0 < (planCatalog code).includedAiCredits <;>
          simp [paidCredit, hplan, included, h]

theorem paid_of_applyPaymentWebhook {evt : PaymentWebhookEvent} {draw : Draw} {db' : BillingDb}
    (hfound : findByReference db evt.reference = some invoice)
    (happlied : (applyPaymentWebhook evt draw).run db = (.ok true, db')) : Paid invoice db db' := by
  have hreference : invoice.reference = evt.reference := by
    simpa using (Table.mem_of_find? hfound).2
  have hwp : wp (fun _ => True) (applyPaymentWebhook evt draw)
      (fun r v' => r = true → Paid invoice db v') db := by
    refine wp_query_bind ?_
    rw [hfound]
    dsimp only
    split_ifs
    · exact wp_pure (by simp)
    · cases evt.status with
      | failed => exact wp_accept_bind fun _ => wp_pure (by simp)
      | succeeded => exact wp_applyPaid hreference draw
  exact wp_of_run hwp happlied rfl

end rows

/-- A payment is for the scopes of the event its invoice names, or else for all of the account. -/
def PaysFor (db : BillingDb) (invoice : Invoice) (scope : Scope) : Prop :=
  match invoice.eventId with
  | some e => scope.eventId = some e
  | none => resolvedAccount db scope = some invoice.billingAccountId

instance (db : BillingDb) (invoice : Invoice) (scope : Scope) : Decidable (PaysFor db invoice scope) := by
  unfold PaysFor
  cases invoice.eventId <;> infer_instance

/-- The credits that the plan of an invoice includes. -/
def boughtCredits (l : Ledger) (invoice : Invoice) : ℕ :=
  (invoice.planId.map fun code => included l (planCatalog code)).getD 0

section scopes
variable {db db' : BillingDb} {invoice : Invoice} {code : PlanCode} (scope : Scope)

theorem resolvedAccount_paid (h : Paid invoice db db') :
    resolvedAccount db' scope = resolvedAccount db scope := by
  unfold resolvedAccount
  rw [owner_congr h.events h.accounts]

theorem counts_invoiceCredit (l : Ledger) (n : ℕ) (reference : String) :
    (invoiceCredit l invoice n reference).toMovement.counts scope.eventId (resolvedAccount db scope) =
      decide (PaysFor db invoice scope) := by
  rw [Bool.eq_iff_iff, decide_eq_true_eq]
  unfold PaysFor Movement.counts invoiceCredit
  generalize resolvedAccount db scope = a
  cases invoice.eventId with
  | none => cases scope.eventId <;> cases a <;> simp <;> exact eq_comm
  | some e => cases scope.eventId <;> cases a <;> simp <;> exact eq_comm

theorem scopeBalance_paid (h : Paid invoice db db') (l : Ledger) :
    scopeBalance db' l scope =
      scopeBalance db l scope + if PaysFor db invoice scope then (boughtCredits l invoice : ℤ) else 0 := by
  unfold scopeBalance creditBalance BillingDb.movements
  rw [resolvedAccount_paid scope h, h.credits l, List.map_append]
  cases hcredit : paidCredit l invoice with
  | none =>
    have hnone : boughtCredits l invoice = 0 := by
      cases hplan : invoice.planId with
      | none => simp [boughtCredits, hplan]
      | some code => simpa [paidCredit, boughtCredits, hplan] using hcredit
    simp [hnone]
  | some row =>
    obtain ⟨code, hplan, hrow⟩ := Option.bind_eq_some_iff.mp hcredit
    split_ifs at hrow
    obtain rfl := Option.some.inj hrow
    have hbought : boughtCredits l invoice = included l (planCatalog code) := by
      rw [boughtCredits, hplan]
      rfl
    rw [Option.toList_some, List.map_singleton, pooled_append, counts_invoiceCredit, hbought]
    simp [invoiceCredit]

/-- A scope that the payment is not for has the grants it had. -/
theorem candidates_spared (h : Paid invoice db db') (hheld : HeldByOne db) (hheld' : HeldByOne db')
    (hspared : ¬ PaysFor db invoice scope) :
    candidates db' scope.eventId (resolvedAccount db' scope) =
      candidates db scope.eventId (resolvedAccount db scope) := by
  rw [resolvedAccount_paid scope h]
  unfold candidates
  unfold PaysFor at hspared
  generalize resolvedAccount db scope = a at hspared
  cases h.grants with
  | planless hplan same => rw [same]
  | event hplan hevent others own exists_own =>
    rename_i e
    rw [hevent] at hspared
    -- a grant of the event names no account, so this scope counts none of them
    have hsplit (rows : List EntitlementGrant)
        (hrows : ∀ g ∈ rows, g.eventId.isSome → g.accountId = none) :
        rows.filter (fun g => inForce g &&
          ((scope.eventId.isSome && g.eventId == scope.eventId) || (a.isSome && g.accountId == a))) =
        (rows.filter fun g => g.eventId != some e).filter (fun g => inForce g &&
          ((scope.eventId.isSome && g.eventId == scope.eventId) ||
            (a.isSome && g.accountId == a))) := by
      rw [List.filter_filter]
      refine List.filter_congr fun g hg => ?_
      by_cases he : g.eventId = some e
      · have hnone := hrows g hg (by simp [he])
        rw [he, hnone]
        cases a <;> simp [eq_comm (a := some e), hspared]
      · simp [he]
    rw [hsplit _ hheld', hsplit _ hheld, others]
  | account hplan hevent rows holder bought =>
    rw [hevent] at hspared
    have hother : ¬ some invoice.billingAccountId = a := fun ha => hspared ha.symm
    rw [rows, List.filter_append]
    cases he : scope.eventId <;> simp [holder, hother]

theorem mem_candidates {e a : Option ℕ} {g : EntitlementGrant} : g ∈ candidates db e a ↔
    g ∈ db.grants ∧ inForce g = true ∧ ((e.isSome ∧ g.eventId = e) ∨ (a.isSome ∧ g.accountId = a)) := by
  simp [candidates, Table.mem_def]

/-- The grants of a scope that the payment is for: one of the plan, and beside those of the plan
only earlier ones that are not the event's own. -/
theorem candidates_bought (h : Paid invoice db db') (hplan : invoice.planId = some code)
    (hfor : PaysFor db invoice scope) :
    (∃ g ∈ candidates db' scope.eventId (resolvedAccount db' scope), g.planId = code) ∧
    ∀ g ∈ candidates db' scope.eventId (resolvedAccount db' scope), g.planId = code ∨
      g ∈ candidates db scope.eventId (resolvedAccount db scope) ∧
        (invoice.eventId.isSome → g.eventId ≠ invoice.eventId) := by
  rw [resolvedAccount_paid scope h]
  unfold PaysFor at hfor
  cases h.grants with
  | planless hnone same => simp [hnone] at hplan
  | event hbought hevent others own exists_own =>
    rename_i code' e
    obtain rfl := Option.some.inj (hbought.symm.trans hplan)
    rw [hevent] at hfor ⊢
    dsimp only at hfor
    refine ⟨?_, fun g hg => ?_⟩
    · obtain ⟨g, hg, he⟩ := exists_own
      obtain ⟨hcode, hactive⟩ := own g hg he
      refine ⟨g, mem_candidates.mpr ⟨hg, by simp [inForce, hactive], .inl ?_⟩, hcode⟩
      exact ⟨by simp [hfor], he.trans hfor.symm⟩
    · obtain ⟨hrow, hforce, hscope⟩ := mem_candidates.mp hg
      by_cases he : g.eventId = some e
      · exact .inl (own g hrow he).1
      · have hkept : g ∈ db.grants.rows.filter fun g => g.eventId != some e := by
          rw [← others]
          exact List.mem_filter.mpr ⟨hrow, by simp [he]⟩
        exact .inr ⟨mem_candidates.mpr ⟨(List.mem_filter.mp hkept).1, hforce, hscope⟩, fun _ => he⟩
  | account hbought hevent rows holder bought =>
    rename_i code' new
    obtain rfl := Option.some.inj (hbought.symm.trans hplan)
    rw [hevent] at hfor ⊢
    dsimp only at hfor
    have hmem (g : EntitlementGrant) : g ∈ db'.grants ↔ g ∈ db.grants ∨ g = new := by
      simp [Table.mem_def, rows]
    refine ⟨⟨new, mem_candidates.mpr ⟨(hmem new).mpr (.inr rfl), ?_, .inr ?_⟩, bought.1⟩,
      fun g hg => ?_⟩
    · simp [inForce, bought.2]
    · exact ⟨by simp [hfor], holder.2.trans hfor.symm⟩
    · obtain ⟨hrow, hin⟩ := mem_candidates.mp hg
      rcases (hmem g).mp hrow with hold | rfl
      · exact .inr ⟨mem_candidates.mpr ⟨hold, hin⟩, by simp⟩
      · exact .inl bought.1

theorem holders_paid {evt : PaymentWebhookEvent} {draw : Draw} (hheld : HeldByOne db)
    (happlied : (applyPaymentWebhook evt draw).run db = (.ok true, db')) : HeldByOne db' := by
  have hkept : KeepsHolders db ((applyPaymentWebhook evt draw).run db).2 :=
    leaves_effects (fun _ => id) (fun h h' hdb => h' (h hdb))
      (effects_applyPaymentWebhook evt draw) none db
  rw [happlied] at hkept
  exact hkept hheld

end scopes

/-- A payment that is applied after any run of billing calls adds what its plan includes to the
balances of every scope that it is for, and moves no other balance. -/
theorem balances_after_payment (calls : List Invocation) (evt : PaymentWebhookEvent) (draw : Draw)
    (invoice : Invoice) (db' : BillingDb)
    (hfound : findByReference (billingRun .empty calls) evt.reference = some invoice)
    (happlied : (applyPaymentWebhook evt draw).run (billingRun .empty calls) = (.ok true, db'))
    (l : Ledger) (scope : Scope) :
    scopeBalance db' l scope = scopeBalance (billingRun .empty calls) l scope +
      if PaysFor (billingRun .empty calls) invoice scope then (boughtCredits l invoice : ℤ) else 0 :=
  scopeBalance_paid scope (paid_of_applyPaymentWebhook hfound happlied) l

/-- A starter pack for event 7, whose hundred messages are not for event 8. -/
def starterPaid : PaymentWebhookEvent := ⟨"t1", "inv_1", .succeeded, 0, "UGX"⟩

def starterInvoice : Invoice :=
  ⟨20, 3, some .starter, some 7, 10000, "UGX", .pending, "inv_1", none⟩

theorem balances_after_payment_starter :
    scopeBalance (billingRun .empty packPaid) .sms { eventId := some 7 } = 100 ∧
    scopeBalance (billingRun .empty packPaid) .sms { eventId := some 8 } = 0 :=
  ⟨balances_after_payment (packPaid.take 4) starterPaid drawn starterInvoice _ (by decide) rfl .sms
      { eventId := some 7 },
    balances_after_payment (packPaid.take 4) starterPaid drawn starterInvoice _ (by decide) rfl .sms
      { eventId := some 8 }⟩

/-- A scope that the payment is for has the plan that was bought, or a plan at least as dear that it
had before; of what its event had by itself, nothing is left. Every other scope keeps the plan it
had. -/
theorem plan_after_payment (calls : List Invocation) (evt : PaymentWebhookEvent) (draw : Draw)
    (invoice : Invoice) (code : PlanCode) (db' : BillingDb) (hplan : invoice.planId = some code)
    (hfound : findByReference (billingRun .empty calls) evt.reference = some invoice)
    (happlied : (applyPaymentWebhook evt draw).run (billingRun .empty calls) = (.ok true, db'))
    (scope : Scope) (tie : ℕ) :
    (PaysFor (billingRun .empty calls) invoice scope →
      ∃ g, grantInForce db' scope tie = some g ∧ (planCatalog code).priceMinor ≤ price g ∧
        (g.planId = code ∨ g ∈ candidates (billingRun .empty calls) scope.eventId
            (resolvedAccount (billingRun .empty calls) scope) ∧
          (invoice.eventId.isSome → g.eventId ≠ invoice.eventId))) ∧
    (¬ PaysFor (billingRun .empty calls) invoice scope →
      grantInForce db' scope tie = grantInForce (billingRun .empty calls) scope tie) := by
  have hpaid := paid_of_applyPaymentWebhook hfound happlied
  have hheld := heldByOne_run calls
  refine ⟨fun hfor => ?_, fun hspared => ?_⟩
  · obtain ⟨⟨new, hnew, rfl⟩, hall⟩ := candidates_bought scope hpaid hplan hfor
    cases hg : grantInForce db' scope tie with
    | none =>
      rw [grantInForce, takeDearest_eq_none] at hg
      rw [hg] at hnew
      cases hnew
    | some g =>
      obtain ⟨hmem, hdearest⟩ := mem_dearest.mp (takeDearest_mem hg)
      exact ⟨g, rfl, hdearest new hnew, hall g hmem⟩
  · exact congrArg (takeDearest tie)
      (candidates_spared scope hpaid hheld (holders_paid hheld happlied) hspared)

theorem plan_after_payment_starter :
    ∃ g, grantInForce (billingRun .empty packPaid) { eventId := some 7 } 0 = some g ∧
      10000 ≤ price g ∧ (g.planId = .starter ∨
        g ∈ candidates (billingRun .empty (packPaid.take 4)) (some 7) (some 3) ∧
          (true → g.eventId ≠ some 7)) :=
  (plan_after_payment (packPaid.take 4) starterPaid drawn starterInvoice .starter _ rfl (by decide)
    rfl { eventId := some 7 } 0).1 rfl

/-- The premium pack of an event, and then a hundred messages more. -/
def premiumThenTopUp : List Invocation :=
  [⟨.purchaseEventPack 1 7 "PREMIUM" .pending, { drawn with invoiceId := 21, reference := "inv_2" }⟩,
    ⟨.applyPaymentWebhook ⟨"t2", "inv_2", .succeeded, 0, "UGX"⟩, drawn⟩,
    ⟨.purchaseEventPack 1 7 "SMS_TOP_UP_100" .pending,
      { drawn with invoiceId := 22, reference := "inv_3" }⟩,
    ⟨.applyPaymentWebhook ⟨"t3", "inv_3", .succeeded, 0, "UGX"⟩, drawn⟩]

/-- The messages take the place of the premium pack, with its seats and its contributors. -/
example : (List.range 5).map (fun n => effectivePlan (grantInForce
      (billingRun .empty (packPaid ++ premiumThenTopUp.take n)) { eventId := some 7 } 0)) =
    [.starter, .starter, .premium, .premium, .smsTopUp100] := by decide

end Akabbo.PaidEntitlements
