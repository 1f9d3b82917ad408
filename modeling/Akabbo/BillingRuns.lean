import Akabbo.BillingWrites
import Akabbo.ProgramLogic

/-!
# Credit over whole runs

Calls one after the other, over any users, accounts and events, from empty credit
ledgers. A paid credit names an event alone while every debit names the account behind
it too, so an event's own credits are spent on the account's balance; where each debit
is covered on both sides, no balance goes below zero.
-/
namespace Akabbo.BillingRuns
open Access CreditPool PlanCatalog RowTable StatementProgram ProgramLogic BillingState
open Entitlement BillingWrites StatementProgram.Program

/-- No account, and no event by itself, is overdrawn in either ledger. -/
def Sound (db : BillingDb) : Prop := ∀ l, Solvent (db.movements l) (owner db)

theorem owner_congr {db db' : BillingDb} (he : db'.events = db.events)
    (ha : db'.accounts = db.accounts) : owner db' = owner db := by
  funext e
  simp only [owner, accountOf, he, ha]

theorem owner_insertEvent {db : BillingDb} {event : Event} (h : db.events.has event.id = false)
    (e : ℕ) : owner (db.insertEvent event) e =
      if event.id = e then accountOf db event.ownerUserId else owner db e := by
  have hget := Table.get?_insertNew h e
  unfold owner
  rw [show (db.insertEvent event).events.get? e = (db.events.insertNew event).get? e from rfl, hget]
  split_ifs <;> rfl

theorem accountOf_insertAccount {db : BillingDb} {account : BillingAccount}
    (h : db.accounts.has account.id = false) (hnone : accountOf db account.ownerUserId = none)
    (u : ℕ) : accountOf (db.insertAccount account) u =
      if account.ownerUserId = u then some account.id else accountOf db u := by
  have hrows : (db.insertAccount account).accounts.rows = db.accounts.rows ++ [account] :=
    Table.insertNew_rows h
  unfold accountOf
  rw [hrows, List.filter_append]
  split_ifs with hu
  · subst hu
    have hempty : db.accounts.rows.filter (fun a => a.ownerUserId == account.ownerUserId) = [] :=
      oldest_eq_none.mp (Option.map_eq_none_iff.mp hnone)
    rw [hempty]
    simp [oldest, older]
  · simp [hu]

theorem owner_insertAccount {db : BillingDb} {account : BillingAccount}
    (h : db.accounts.has account.id = false) (hnone : accountOf db account.ownerUserId = none)
    (e : ℕ) : owner (db.insertAccount account) e = owner db e ∨
      owner db e = none ∧ owner (db.insertAccount account) e = some account.id := by
  unfold owner
  rw [show (db.insertAccount account).events = db.events from rfl]
  cases db.events.get? e with
  | none => exact .inl rfl
  | some event =>
    simp only [accountOf_insertAccount h hnone]
    split_ifs with hu
    · exact .inr ⟨hu ▸ hnone, rfl⟩
    · exact .inl rfl

theorem sound_congr {db db' : BillingDb} (h : Sound db) (he : db'.events = db.events)
    (ha : db'.accounts = db.accounts) (hc : ∀ l, db'.creditLedger l = db.creditLedger l) :
    Sound db' := by
  intro l
  rw [owner_congr he ha, BillingDb.movements, hc]
  exact h l

theorem sound_insertEvent {db : BillingDb} {event : Event} (h : Sound db)
    (hv : eventViolation db event = none) : Sound (db.insertEvent event) := by
  unfold eventViolation at hv
  split_ifs at hv with hid hnamed
  have hid : db.events.has event.id = false := by simpa using hid
  intro l
  rw [BillingDb.movements, BillingDb.insertEvent_creditLedger]
  refine solvent_owner (h l) fun e => ?_
  rw [owner_insertEvent hid]
  split_ifs with hee
  · subst hee
    have hnone : db.events.get? event.id = none := Table.get?_eq_none.mpr hid
    refine .inr ⟨by simp only [owner, hnone], fun m hm hme => absurd ?_ hnamed⟩
    simp only [List.any_eq_true]
    exact ⟨l, by cases l <;> simp, m, hm, by simp [hme]⟩
  · exact .inl rfl

theorem sound_insertAccount {db : BillingDb} {account : BillingAccount} (h : Sound db)
    (hnone : accountOf db account.ownerUserId = none)
    (hv : accountViolation db account = none) : Sound (db.insertAccount account) := by
  unfold accountViolation at hv
  split_ifs at hv with hid hnamed
  have hid : db.accounts.has account.id = false := by simpa using hid
  intro l
  rw [BillingDb.movements, BillingDb.insertAccount_creditLedger]
  refine solvent_owner (h l) fun e => ?_
  rcases owner_insertAccount hid hnone e with hsame | ⟨hold, hnew⟩
  · exact .inl hsame
  · refine .inr ⟨hold, fun m hm _ => ?_⟩
    rw [hnew, counts_account, decide_eq_false_iff_not]
    intro hma
    refine hnamed ?_
    simp only [List.any_eq_true]
    exact ⟨l, by cases l <;> simp, m, hm, by simp [hma]⟩

/-- A credit whose loss can be borne; a key that is taken adds nothing. -/
theorem sound_insertCredit {db : BillingDb} {l : Ledger} {row : CreditRow} (h : Sound db)
    (hb : (db.creditLedger l).has row.idempotencyKey = false →
      Bearable (db.movements l) (owner db) row.toMovement) : Sound (db.insertCredit l row) := by
  intro l'
  rw [owner_congr (db.insertCredit_events l row) (db.insertCredit_accounts l row)]
  by_cases hkey : (db.creditLedger l).has row.idempotencyKey = true
  · have hsame : (db.creditLedger l).insertNew row = db.creditLedger l := by
      rw [Table.insertNew, dif_pos (by simpa [Table.has] using hkey)]
    have hledger : (db.insertCredit l row).creditLedger l' = db.creditLedger l' := by
      rw [BillingDb.insertCredit_creditLedger]
      split_ifs with hl
      · rw [← hl, hsame]
      · rfl
    rw [BillingDb.movements, hledger]
    exact h l'
  · have hkey : (db.creditLedger l).has row.idempotencyKey = false := by simpa using hkey
    rw [db.movements_insertCredit l l' row hkey]
    split_ifs with hl
    · subst hl
      exact solvent_append (h l) (hb hkey)
    · exact h l'

abbrev KeepsSound {ρ : Type} (p : BillingProgram ρ) : Prop := Triple Sound Sound p fun _ => Sound

theorem exec_namedAccount (scope : Scope) (c v : BillingDb) :
    exec (namedAccount scope) c v = .ok (debitedAccount v scope, c, v) := by
  unfold namedAccount debitedAccount
  cases scope.accountId with
  | some a => rfl
  | none =>
    cases scope.eventId with
    | none => rfl
    | some e => exact exec_owningAccountId e c v

/-- An append whose loss can be borne where it is made. -/
theorem triple_appendTo {P : BillingDb → Prop} {l : Ledger} {scope : Scope} {kind : CreditKind}
    {amount : ℤ} {key : String} {reference : Option String} (hP : ∀ v, P v → Sound v)
    (hb : ∀ v, P v → (v.creditLedger l).has key = false → Bearable (v.movements l) (owner v)
      ⟨scope.eventId, debitedAccount v scope, amount⟩) :
    Triple Sound P (appendTo l scope kind amount key reference) fun _ => Sound := by
  refine triple_bind (triple_reads (exec_namedAccount scope)) fun account => ?_
  refine triple_modify fun v hv => ?_
  obtain ⟨hPv, rfl⟩ := hv
  exact sound_insertCredit (hP v hPv) (hb v hPv)

/-- Grants, refunds and commit markers take nothing. -/
theorem keepsSound_appendTo {l : Ledger} {scope : Scope} {kind : CreditKind} {amount : ℤ}
    {key : String} {reference : Option String} (h : 0 ≤ amount) :
    KeepsSound (appendTo l scope kind amount key reference) :=
  triple_appendTo (fun _ hv => hv) fun _ hv _ => bearable_of_nonneg (hv l) h

theorem keepsSound_grantTo (l : Ledger) (scope : Scope) (amount : ℕ) (key : String)
    (reference : Option String) : KeepsSound (grantTo l scope amount key reference) :=
  keepsSound_appendTo (Int.natCast_nonneg amount)

theorem keepsSound_commitNow : KeepsSound (commitNow : BillingProgram Unit) :=
  triple_commitNow fun _ hv => hv

theorem keepsSound_insertGrant (grant : EntitlementGrant) :
    KeepsSound (BillingWrites.insertGrant grant) :=
  triple_accept fun v hv _ => sound_congr hv rfl rfl (v.insertGrant_creditLedger · grant)

theorem keepsSound_upsertEventGrant (e : ℕ) (create : EntitlementGrant)
    (update : EntitlementGrant → EntitlementGrant) (hf : ∀ g, (update g).id = g.id) :
    KeepsSound (upsertEventGrant e create update hf) := by
  refine triple_accept fun v hv _ => ?_
  split_ifs
  · exact sound_congr hv rfl rfl (v.updateEventGrant_creditLedger · e update hf)
  · exact sound_congr hv rfl rfl (v.insertGrant_creditLedger · create)

theorem keepsSound_settleInvoice (i : ℕ) (status : InvoiceStatus) (tx : String) :
    KeepsSound (settleInvoice i status tx) :=
  triple_accept fun v hv _ => sound_congr hv rfl rfl (v.settleInvoice_creditLedger · i status tx)

theorem keepsSound_createCredit (l : Ledger) {row : CreditRow} (h : 0 ≤ row.amount) :
    KeepsSound (createCredit l row) :=
  triple_accept fun _ hv _ => sound_insertCredit hv fun _ => bearable_of_nonneg (hv l) h

theorem keepsSound_ensureBillingAccount (userId : ℕ) (draw : Draw) :
    KeepsSound (ensureBillingAccount userId draw) := by
  refine triple_bind (triple_query _) fun existing => ?_
  cases existing with
  | some a => exact triple_pure fun _ hv => hv.1
  | none =>
    refine triple_bind (Q := fun _ => Sound) (triple_accept fun v hv hviol => ?_)
      fun _ => triple_pure fun _ hv => hv
    exact sound_insertAccount hv.1 hv.2.symm hviol

theorem keepsSound_createEvent (userId : ℕ) (draw : Draw) : KeepsSound (createEvent userId draw) :=
  triple_bind (Q := fun _ => Sound) (triple_accept fun _ hv hviol => sound_insertEvent hv hviol)
    fun _ => triple_pure fun _ hv => hv

theorem keepsSound_startFreeTrial (e : ℕ) (draw : Draw) : KeepsSound (startFreeTrial e draw) :=
  triple_bind (keepsSound_upsertEventGrant _ _ _ _) fun _ =>
    triple_bind keepsSound_commitNow fun _ =>
    triple_bind (keepsSound_grantTo _ _ _ _ _) fun _ =>
    triple_bind keepsSound_commitNow fun _ => keepsSound_grantTo _ _ _ _ _

theorem keepsSound_startAccountTrial (a : ℕ) (draw : Draw) :
    KeepsSound (startAccountTrial a draw) :=
  triple_bind (triple_conseq (triple_query _) (fun _ hv => hv) fun _ _ hv => hv.1) fun _ =>
    triple_bind (triple_runIf (keepsSound_insertGrant _)) fun _ =>
    triple_bind keepsSound_commitNow fun _ =>
    triple_bind (keepsSound_grantTo _ _ _ _ _) fun _ =>
    triple_bind keepsSound_commitNow fun _ => keepsSound_grantTo _ _ _ _ _

theorem keepsSound_refuse (e : Option Refusal) : KeepsSound (refuse e : BillingProgram Unit) :=
  triple_conseq triple_refuse (fun _ hv => hv) fun _ _ hv => hv.1

theorem keepsSound_charge (userId : ℕ) (plan : PlanConfig) (e : Option ℕ)
    (outcome : ChargeOutcome) (draw : Draw) : KeepsSound (charge userId plan e outcome draw) := by
  refine triple_bind (keepsSound_ensureBillingAccount userId draw) fun a =>
    triple_bind keepsSound_commitNow fun _ =>
    triple_bind (Q := fun _ => Sound) (triple_accept fun v hv _ => ?_) fun _ =>
    triple_bind keepsSound_commitNow fun _ =>
    triple_bind (keepsSound_refuse _) fun _ => triple_pure fun _ hv => hv
  exact sound_congr hv rfl rfl (v.insertInvoice_creditLedger · _)

theorem keepsSound_plan (code : String) : KeepsSound (plan code) :=
  triple_conseq triple_orThrow (fun _ hv => hv) fun _ _ hv => hv.1

theorem keepsSound_purchaseEventPack (userId e : ℕ) (code : String) (outcome : ChargeOutcome)
    (draw : Draw) : KeepsSound (purchaseEventPack userId e code outcome draw) :=
  triple_bind (keepsSound_plan code) fun _ =>
    triple_bind (keepsSound_refuse _) fun _ => keepsSound_charge _ _ _ _ _

theorem keepsSound_subscribe (userId : ℕ) (code : String) (outcome : ChargeOutcome)
    (draw : Draw) : KeepsSound (subscribe userId code outcome draw) :=
  triple_bind (keepsSound_plan code) fun _ =>
    triple_bind (keepsSound_refuse _) fun _ => keepsSound_charge _ _ _ _ _

theorem keepsSound_applyPaid (invoice : Invoice) (evt : PaymentWebhookEvent) (draw : Draw) :
    KeepsSound (applyPaid invoice evt draw) := by
  refine triple_bind (keepsSound_settleInvoice _ _ _) fun _ => ?_
  cases invoice.planId with
  | none => exact triple_pure fun _ hv => hv
  | some code =>
    refine triple_bind (Q := fun _ => Sound) ?_ fun _ =>
      triple_bind (triple_runIf (keepsSound_createCredit _ (Int.natCast_nonneg _))) fun _ =>
      triple_bind (triple_runIf (keepsSound_createCredit _ (Int.natCast_nonneg _))) fun _ =>
      triple_pure fun _ hv => hv
    unfold grantPlan
    cases invoice.eventId with
    | some e => exact keepsSound_upsertEventGrant _ _ _ _
    | none => exact keepsSound_insertGrant _

theorem keepsSound_applyPaymentWebhook (evt : PaymentWebhookEvent) (draw : Draw) :
    KeepsSound (applyPaymentWebhook evt draw) := by
  refine triple_bind (triple_conseq (triple_query _) (fun _ hv => hv) fun _ _ hv => hv.1)
    fun found => ?_
  cases found with
  | none => exact triple_pure fun _ hv => hv
  | some invoice =>
    dsimp only
    split_ifs
    · exact triple_pure fun _ hv => hv
    · cases evt.status with
      | failed =>
        exact triple_bind (keepsSound_settleInvoice _ _ _) fun _ => triple_pure fun _ hv => hv
      | succeeded => exact keepsSound_applyPaid invoice evt draw

theorem keepsSound_reconcileInvoice (i : ℕ) (tx : String) (draw : Draw) :
    KeepsSound (reconcileInvoice i tx draw) :=
  triple_bind (triple_conseq (triple_query _) (fun _ hv => hv) fun _ _ hv => hv.1) fun _ =>
    triple_bind (triple_conseq triple_orThrow (fun _ hv => hv) fun _ _ hv => hv.1) fun _ =>
    triple_bind (keepsSound_refuse _) fun _ => keepsSound_applyPaymentWebhook _ _

/-- A debit is covered on both sides: by the account it names, and, where that is not the
account behind the event, by what the event has beside its account. -/
structure Covered (db : BillingDb) (l : Ledger) (scope : Scope) (count : ℕ) : Prop where
  account : ∀ a, debitedAccount db scope = some a →
    count ≤ scopeBalance db l { accountId := some a }
  event : ∀ e, scope.eventId = some e → debitedAccount db scope ≠ owner db e →
    scopeBalance db l { accountId := owner db e } + count ≤ scopeBalance db l { eventId := some e }

/-- Each reservation that takes anything is covered. -/
def CoveredStep (db : BillingDb) (inv : Invocation) : Prop :=
  match inv.call with
  | .reserve l scope count key =>
      (db.creditLedger l).has key = false → count ≤ scopeBalance db l scope →
        Covered db l scope count
  | _ => True

theorem scopeBalance_account (db : BillingDb) (l : Ledger) (a : Option ℕ) :
    scopeBalance db l { accountId := a } = held (db.movements l) a := rfl

theorem scopeBalance_event {db : BillingDb} {l : Ledger} {scope : Scope} {e : ℕ}
    (h : scope.eventId = some e) : scopeBalance db l scope =
      held (db.movements l) (owner db e) + own (db.movements l) e (owner db e) := by
  rw [← pooled_event]
  simp only [scopeBalance, creditBalance, resolvedAccount, h]

theorem bearable_reserve {db : BillingDb} {l : Ledger} {scope : Scope} {count : ℕ}
    (hbal : count ≤ scopeBalance db l scope) (hc : Covered db l scope count) :
    Bearable (db.movements l) (owner db) ⟨scope.eventId, debitedAccount db scope, -count⟩ where
  held a ha := by
    have hcover := hc.account a ha
    rw [scopeBalance_account] at hcover
    change 0 ≤ held _ _ + -(count : ℤ)
    omega
  own e he hcounts := by
    change 0 ≤ own _ _ _ + -(count : ℤ)
    by_cases hsame : debitedAccount db scope = owner db e
    · -- an event with no account behind it, whose balance is its own
      have hnone : owner db e = none := by
        rw [← hsame]
        cases hd : debitedAccount db scope with
        | none => rfl
        | some a =>
          rw [← hsame, hd, counts_account] at hcounts
          simp at hcounts
      rw [scopeBalance_event he, hnone, held_none] at hbal
      rw [hnone]
      omega
    · have hcover := hc.event e he hsame
      rw [scopeBalance_account, scopeBalance_event (e := e) rfl] at hcover
      omega

theorem triple_reserveFrom (l : Ledger) (scope : Scope) (count : ℕ) (key : String)
    (draw : Draw) : Triple Sound
      (fun v => Sound v ∧ ((v.creditLedger l).has key = false →
        count ≤ scopeBalance v l scope → Covered v l scope count))
      (reserveFrom l scope count key draw) fun _ => Sound := by
  refine triple_bind (triple_reads (exec_resolve scope draw)) fun ent => ?_
  dsimp only
  split_ifs with hbal
  · exact triple_pure fun _ hv => hv.1.1
  · refine triple_bind (Q := fun _ => Sound) ?_ fun _ => triple_pure fun _ hv => hv
    refine triple_appendTo (fun v hv => hv.1.1) fun v hv hkey => ?_
    obtain ⟨⟨-, hcover⟩, rfl⟩ := hv
    rw [entitlement_balance, not_lt] at hbal
    exact bearable_reserve hbal (hcover hkey hbal)

/-- One call. -/
theorem sound_step {db : BillingDb} (h : Sound db) {inv : Invocation}
    (hc : CoveredStep db inv) : Sound (inv.step db) := by
  obtain ⟨call, draw⟩ := inv
  cases call with
  | createEvent u => exact run_triple (triple_map (keepsSound_createEvent u draw)) h h
  | ensureBillingAccount u =>
    exact run_triple (triple_map (keepsSound_ensureBillingAccount u draw)) h h
  | startFreeTrial e => exact run_triple (triple_map (keepsSound_startFreeTrial e draw)) h h
  | startAccountTrial a => exact run_triple (triple_map (keepsSound_startAccountTrial a draw)) h h
  | purchaseEventPack u e code outcome =>
    exact run_triple (triple_map (keepsSound_purchaseEventPack u e code outcome draw)) h h
  | subscribe u code outcome =>
    exact run_triple (triple_map (keepsSound_subscribe u code outcome draw)) h h
  | applyPaymentWebhook evt =>
    exact run_triple (triple_map (keepsSound_applyPaymentWebhook evt draw)) h h
  | reconcileInvoice i tx => exact run_triple (triple_map (keepsSound_reconcileInvoice i tx draw)) h h
  | grant l scope amount key reference =>
    exact run_triple (triple_map (keepsSound_grantTo l scope amount key reference)) h h
  | reserve l scope count key =>
    exact run_triple (triple_map (triple_reserveFrom l scope count key draw)) h ⟨h, hc⟩
  | commit l scope key => exact run_triple (triple_map (keepsSound_appendTo le_rfl)) h h
  | refund l scope count key =>
    exact run_triple (triple_map (keepsSound_appendTo (Int.natCast_nonneg count))) h h

/-- Each reservation of a run that takes anything is covered when it is made. -/
def CoveredRun : BillingDb → List Invocation → Prop
  | _, [] => True
  | db, inv :: calls => CoveredStep db inv ∧ CoveredRun (inv.step db) calls

theorem coveredRun_append {db : BillingDb} {xs ys : List Invocation} :
    CoveredRun db (xs ++ ys) ↔ CoveredRun db xs ∧ CoveredRun (billingRun db xs) ys := by
  induction xs generalizing db with
  | nil => simp [CoveredRun, billingRun]
  | cons inv xs ih =>
    rw [List.cons_append, CoveredRun, CoveredRun, ih, and_assoc]
    rfl

theorem sound_run {db : BillingDb} (h : Sound db) {calls : List Invocation}
    (hc : CoveredRun db calls) : Sound (billingRun db calls) := by
  induction calls generalizing db with
  | nil => exact h
  | cons inv calls ih => exact ih (sound_step h hc.1) hc.2

def reserveRow (db : BillingDb) (scope : Scope) (count : ℕ) (key : String) : CreditRow :=
  creditRow scope (debitedAccount db scope) .reserve (-count) key none

theorem exec_reserveFrom (l : Ledger) (scope : Scope) (count : ℕ) (key : String) (draw : Draw)
    (c v : BillingDb) : exec (reserveFrom l scope count key draw) c v =
      if scopeBalance v l scope < count then .ok (⟨false, scopeBalance v l scope⟩, c, v)
      else .ok (⟨true, scopeBalance v l scope - count⟩, c,
        v.insertCredit l (reserveRow v scope count key)) := by
  unfold reserveFrom
  rw [exec_bind, exec_resolve]
  dsimp only
  rw [entitlement_balance]
  split_ifs
  · rfl
  · rw [exec_bind, appendTo, exec_bind, exec_namedAccount]
    rfl

theorem step_reserve (db : BillingDb) (l : Ledger) (scope : Scope) (count : ℕ) (key : String)
    (draw : Draw) : (Invocation.mk (.reserve l scope count key) draw).step db =
      if scopeBalance db l scope < count then db
      else db.insertCredit l (reserveRow db scope count key) := by
  have hrun : (Invocation.mk (.reserve l scope count key) draw).step db =
      ((BillingResult.reservation <$> reserveFrom l scope count key draw).run db).2 := rfl
  rw [hrun, map_eq_pure_bind, Program.run, exec_bind, exec_reserveFrom]
  split_ifs <;> rfl

/-- A balance that does not count the row, or whose row is of no amount, stays. -/
theorem scopeBalance_insertCredit (db : BillingDb) (l l' : Ledger) (row : CreditRow)
    (scope : Scope)
    (h : (db.creditLedger l).has row.idempotencyKey = false →
      row.toMovement.counts scope.eventId (resolvedAccount db scope) = true → row.amount = 0) :
    scopeBalance (db.insertCredit l row) l' scope = scopeBalance db l' scope := by
  have hacc : resolvedAccount (db.insertCredit l row) scope = resolvedAccount db scope := by
    unfold resolvedAccount
    rw [owner_congr (db.insertCredit_events l row) (db.insertCredit_accounts l row)]
  unfold scopeBalance creditBalance
  rw [hacc]
  by_cases hkey : (db.creditLedger l).has row.idempotencyKey = false
  · rw [db.movements_insertCredit l l' row hkey]
    split_ifs with hl
    · rw [pooled_append]
      split_ifs with hcounts
      · rw [h hkey hcounts, add_zero]
      · rw [add_zero]
    · rfl
  · have hkey : row.idempotencyKey ∈ (db.creditLedger l).rows.map CreditRow.idempotencyKey := by
      simpa [Table.has] using hkey
    unfold BillingDb.movements
    rw [BillingDb.insertCredit_creditLedger]
    split_ifs with hl
    · subst hl
      rw [Table.insertNew, dif_pos hkey]
    · rfl

/-- The credits an event can draw on were all granted to it alone. -/
def GrantedAlone (db : BillingDb) (l : Ledger) (e : ℕ) : Prop :=
  ∀ m ∈ db.movements l, m.counts (some e) (owner db e) = true → 0 < m.amount →
    m.eventId = some e ∧ m.accountId = none

def SameOwner (db : BillingDb) (e e' : ℕ) : Prop :=
  ∃ x ∈ db.events.get? e, ∃ x' ∈ db.events.get? e', x.ownerUserId = x'.ownerUserId

theorem owner_eq_of_sameOwner {db : BillingDb} {e e' : ℕ} (h : SameOwner db e e') :
    owner db e' = owner db e := by
  obtain ⟨x, hx, x', hx', hsame⟩ := h
  have hx : db.events.get? e = some x := hx
  have hx' : db.events.get? e' = some x' := hx'
  simp only [owner, hx, hx', hsame]

theorem held_of_grantedAlone {db : BillingDb} {l : Ledger} {e a : ℕ} (h : GrantedAlone db l e)
    (ha : owner db e = some a) : held (db.movements l) (some a) ≤ 0 := by
  have hneg : ∀ m ∈ db.movements l, m.counts none (some a) = true → m.amount ≤ 0 := by
    intro m hm hcounts
    by_contra hpos
    have hevent : m.counts (some e) (owner db e) = true := by
      rw [counts_event, ha, hcounts, Bool.or_true]
    have halone := (h m hm hevent (by omega)).2
    rw [counts_account, halone] at hcounts
    simp at hcounts
  unfold held pooled
  rw [sumWhere_eq_sum]
  refine (List.sum_le_card_nsmul _ 0 fun x hx => ?_).trans_eq (smul_zero _)
  obtain ⟨m, hm, rfl⟩ := List.mem_map.mp hx
  split_ifs with hcounts
  · exact hneg m hm hcounts
  · exact le_rfl

/-- The other balances that resolve finds for the owner of an event are as they were. -/
structure OthersKept (db db' : BillingDb) (e : ℕ) : Prop where
  events : ∀ e', e' ≠ e → SameOwner db e e' → ∀ l draw,
    (entitlement db' { eventId := some e' } draw).balance l =
      (entitlement db { eventId := some e' } draw).balance l
  account : ∀ a, owner db e = some a → ∀ l draw,
    (entitlement db' { accountId := some a } draw).balance l =
      (entitlement db { accountId := some a } draw).balance l

theorem othersKept_reserve {db : BillingDb} {l : Ledger} {scope : Scope} {count : ℕ}
    {key : String} {draw : Draw} {e : ℕ} (he : scope.eventId = some e)
    (halone : GrantedAlone db l e)
    (hc : CoveredStep db ⟨.reserve l scope count key, draw⟩) :
    OthersKept db ((Invocation.mk (.reserve l scope count key) draw).step db) e := by
  rw [step_reserve]
  split_ifs with hbal
  · exact ⟨fun _ _ _ _ _ => rfl, fun _ _ _ _ => rfl⟩
  have hbal : count ≤ scopeBalance db l scope := by omega
  -- an account behind the event has nothing, so a debit on it takes nothing
  have hzero : ∀ a, owner db e = some a → debitedAccount db scope = some a →
      (db.creditLedger l).has key = false → (reserveRow db scope count key).amount = 0 := by
    intro a ha hd hkey
    have hcover := (hc hkey hbal).account a hd
    have hheld := held_of_grantedAlone halone ha
    rw [scopeBalance_account] at hcover
    change -(count : ℤ) = 0
    omega
  have hrow : (reserveRow db scope count key).eventId = some e := he
  refine ⟨fun e' hne hsame l' draw' => ?_, fun a ha l' draw' => ?_⟩
  · rw [entitlement_balance, entitlement_balance]
    refine scopeBalance_insertCredit db l l' _ _ fun hkey hcounts => ?_
    have hother : resolvedAccount db { eventId := some e' } = owner db e :=
      owner_eq_of_sameOwner hsame
    rw [hother, counts_event, hrow] at hcounts
    cases ha : owner db e with
    | none =>
      rw [ha, counts_none] at hcounts
      simp [Ne.symm hne] at hcounts
    | some a =>
      rw [ha, counts_account] at hcounts
      simp only [Option.some.injEq, Ne.symm hne, decide_false, Bool.false_or,
        decide_eq_true_eq] at hcounts
      exact hzero a ha hcounts hkey
  · rw [entitlement_balance, entitlement_balance]
    refine scopeBalance_insertCredit db l l' _ _ fun hkey hcounts => ?_
    rw [show resolvedAccount db { accountId := some a } = some a from rfl, counts_account] at hcounts
    exact hzero a ha (of_decide_eq_true hcounts) hkey

/-- The same rows with nothing in either ledger. -/
def unspent (db : BillingDb) : BillingDb :=
  { db with smsCreditLedger := .empty, aiCreditLedger := .empty }

theorem sound_unspent (db : BillingDb) : Sound (unspent db) := by
  intro l
  have hnil : (unspent db).movements l = [] := by
    cases l <;> rfl
  rw [hnil]
  exact solvent_nil _

/-- No balance that resolve returns is below zero. -/
def NeverOverdrawn (db : BillingDb) : Prop :=
  ∀ scope draw, ∃ ent, (resolve scope draw).run db = (.ok ent, db) ∧
    0 ≤ ent.smsBalance ∧ 0 ≤ ent.aiBalance

theorem neverOverdrawn_of_sound {db : BillingDb} (h : Sound db) : NeverOverdrawn db := by
  intro scope draw
  refine ⟨_, run_resolve scope draw db, ?_⟩
  have hbal : ∀ l, 0 ≤ scopeBalance db l scope := by
    intro l
    unfold scopeBalance creditBalance resolvedAccount
    cases scope.eventId with
    | some e => exact pooled_nonneg (h l) e
    | none => exact held_nonneg (h l) scope.accountId
  exact ⟨hbal .sms, hbal .ai⟩

/-- For a scope that names an event or an account, as the callers' scopes do, being covered
is also needed. -/
theorem coveredStep_of_neverOverdrawn {db : BillingDb} {l : Ledger} {scope : Scope} {count : ℕ}
    {key : String} {draw : Draw} (hscope : scope.eventId = none ∨ scope.accountId = none)
    (h : NeverOverdrawn ((Invocation.mk (.reserve l scope count key) draw).step db)) :
    CoveredStep db ⟨.reserve l scope count key, draw⟩ := by
  intro hkey hbal
  refine ⟨fun a ha => ?_, fun e he hne => ?_⟩
  · by_contra hlt
    obtain ⟨ent, hrun, hsms, hai⟩ := h { accountId := some a } draw
    rw [run_resolve, step_reserve, if_neg (by omega)] at hrun
    obtain rfl := Except.ok.inj (congrArg Prod.fst hrun)
    have hpos : 0 ≤ scopeBalance (db.insertCredit l (reserveRow db scope count key)) l
        { accountId := some a } := by
      cases l
      · exact hsms
      · exact hai
    have hnames : (reserveRow db scope count key).accountId = some a := ha
    rw [scopeBalance_account, db.movements_insertCredit l l _ hkey, if_pos rfl, held_append,
      counts_account, if_pos (decide_eq_true hnames)] at hpos
    rw [scopeBalance_account] at hlt
    change 0 ≤ held (db.movements l) (some a) + -(count : ℤ) at hpos
    omega
  · refine absurd ?_ hne
    rcases hscope with hnone | hnone
    · rw [hnone] at he
      cases he
    · simp only [debitedAccount, hnone, he]

/-- A reservation for an event, out of credits granted to it alone, leaves the balances of
its owner's other events and of the owner's account. -/
def SpendsAlone (db : BillingDb) (inv : Invocation) : Prop :=
  ∀ l scope count key e, inv.call = .reserve l scope count key → scope.eventId = some e →
    GrantedAlone db l e → OthersKept db (inv.step db) e

/-- Where every reservation is covered on both sides when it is made, no balance is ever
below zero and no event spends another's credits. -/
theorem covered_reserves_keep_balances (db : BillingDb) (calls : List Invocation)
    (hc : CoveredRun (unspent db) calls) :
    (∀ before after, calls = before ++ after → NeverOverdrawn (billingRun (unspent db) before)) ∧
    ∀ before inv after, calls = before ++ inv :: after →
      SpendsAlone (billingRun (unspent db) before) inv := by
  constructor
  · rintro before after rfl
    exact neverOverdrawn_of_sound (sound_run (sound_unspent db) (coveredRun_append.mp hc).1)
  · rintro before ⟨call, draw⟩ after rfl l scope count key e hcall he halone
    obtain rfl : call = .reserve l scope count key := hcall
    exact othersKept_reserve he halone (coveredRun_append.mp hc).2.1

instance (db : BillingDb) (l : Ledger) (e : ℕ) : Decidable (GrantedAlone db l e) :=
  inferInstanceAs (Decidable (∀ m ∈ db.movements l, m.counts (some e) (owner db e) = true →
    0 < m.amount → m.eventId = some e ∧ m.accountId = none))

def drawn : Draw := ⟨7, 3, 40, 20, "inv_1", 1, 0⟩

/-- User 1 with account 3 owns events 7 and 8, and pays for a pack for event 7. -/
def packPaid : List Invocation :=
  [⟨.ensureBillingAccount 1, drawn⟩, ⟨.createEvent 1, drawn⟩,
    ⟨.createEvent 1, { drawn with eventId := 8 }⟩,
    ⟨.purchaseEventPack 1 7 "STARTER" .pending, drawn⟩,
    ⟨.applyPaymentWebhook ⟨"t1", "inv_1", .succeeded, 0, "UGX"⟩, drawn⟩]

/-- One message for event 7, out of the hundred credits bought for it. -/
def packReserve : Invocation := ⟨.reserve .sms { eventId := some 7 } 1 "sms:1", drawn⟩

/-- The account goes to -1, and event 8 with it. -/
theorem reserve_overdraws_account :
    ¬ (∀ db calls, NeverOverdrawn (billingRun (unspent db) calls)) ∧
    ¬ (∀ db calls inv, SpendsAlone (billingRun (unspent db) calls) inv) := by
  constructor
  · intro h
    obtain ⟨ent, hrun, hsms, -⟩ := h .empty (packPaid ++ [packReserve]) { accountId := some 3 } drawn
    rw [run_resolve] at hrun
    cases hrun
    exact absurd hsms (by decide)
  · intro h
    have hkept := h .empty packPaid packReserve .sms { eventId := some 7 } 1 "sms:1" 7 rfl rfl
      (by decide)
    have hother := hkept.events 8 (by decide) ⟨⟨7, 1⟩, rfl, ⟨8, 1⟩, rfl, rfl⟩ .sms drawn
    exact absurd hother (by decide)

/-- Credits of the account cover a message of its event. -/
theorem covered_reserves_keep_balances_trial :
    NeverOverdrawn (billingRun (unspent .empty) ((packPaid.take 2) ++
      [⟨.startAccountTrial 3, drawn⟩, packReserve])) := by
  refine (covered_reserves_keep_balances .empty _ ?_).1 _ [] (List.append_nil _).symm
  refine ⟨trivial, trivial, trivial, fun _ _ => ⟨fun a ha => ?_, fun e he hne => ?_⟩, trivial⟩
  · obtain rfl : 3 = a := by
      have : some 3 = some a := ha
      simpa using this
    decide
  · obtain rfl : 7 = e := by simpa [packReserve] using he
    exact absurd rfl hne

end Akabbo.BillingRuns
