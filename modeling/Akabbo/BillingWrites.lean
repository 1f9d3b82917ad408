import Akabbo.Entitlement

/-!
# The billing service

Every write of the billing service as its database statements, in source order. A
statement outside `$transaction` commits by itself; the two credit ledgers share one
definition for each of their twin services.
-/
namespace Akabbo.BillingWrites
open Access CreditPool PlanCatalog RowTable StatementProgram BillingState Entitlement
open StatementProgram.Program (query modify modifyChecked accept refuse orThrow runIf commitNow)

section statements

/-- A drawn id is one that no row names, as a random UUID is; the ledgers name events and
accounts without a foreign key. -/
def eventViolation (db : BillingDb) (event : Event) : Option Refusal :=
  if db.events.has event.id then some (.uniqueViolation "event")
  else if [Ledger.sms, .ai].any fun l => (db.movements l).any fun m =>
      m.eventId == some event.id then
    some (.uniqueViolation "event")
  else none

def accountViolation (db : BillingDb) (account : BillingAccount) : Option Refusal :=
  if db.accounts.has account.id then some (.uniqueViolation "billing_account")
  else if [Ledger.sms, .ai].any fun l => (db.movements l).any fun m =>
      m.accountId == some account.id then
    some (.uniqueViolation "billing_account")
  else none

def insertEvent (event : Event) : BillingProgram Unit :=
  modifyChecked (fun _ => [.event event.id]) (fun db => accept (eventViolation db event))
    fun db => db.insertEvent event

def insertAccount (account : BillingAccount) : BillingProgram Unit :=
  modifyChecked (fun _ => [.account account.id])
    (fun db => accept (accountViolation db account))
    fun db => db.insertAccount account

def grantViolation (db : BillingDb) (grant : EntitlementGrant) : Option Refusal :=
  if db.grants.has grant.id then some (.uniqueViolation "entitlement_grant")
  else if grant.eventId.any fun e => db.grants.rows.any fun g => g.eventId == some e then
    some (.uniqueViolation "entitlement_grant")
  else if grant.eventId.any fun e => !db.events.has e then
    some (.foreignKeyViolation "entitlement_grant")
  else if grant.accountId.any fun a => !db.accounts.has a then
    some (.foreignKeyViolation "entitlement_grant")
  else none

def insertGrant (grant : EntitlementGrant) : BillingProgram Unit :=
  modifyChecked
    (fun _ => .grant grant.id :: (grant.eventId.map BillingLock.grantOf).toList)
    (fun db => accept (grantViolation db grant))
    fun db => db.insertGrant grant

def hasEventGrant (db : BillingDb) (eventId : ℕ) : Bool :=
  db.grants.rows.any fun g => g.eventId == some eventId

/-- `entitlementGrant.upsert` by event: the event's one grant is changed, or made. -/
def upsertEventGrant (eventId : ℕ) (create : EntitlementGrant)
    (update : EntitlementGrant → EntitlementGrant) (hf : ∀ g, (update g).id = g.id) :
    BillingProgram Unit :=
  modifyChecked (fun _ => [.grantOf eventId])
    (fun db => accept (if hasEventGrant db eventId then none else grantViolation db create))
    fun db => if hasEventGrant db eventId then db.updateEventGrant eventId update hf
      else db.insertGrant create

/-- `create` on a ledger whose unique violation ends the transaction. -/
def createCredit (l : Ledger) (row : CreditRow) : BillingProgram Unit :=
  modifyChecked (fun _ => [.creditKey l row.idempotencyKey])
    (fun db => accept (if (db.creditLedger l).has row.idempotencyKey then
      some (.uniqueViolation "credit_ledger") else none))
    fun db => db.insertCredit l row

/-- `create` on a ledger whose unique violation is caught: a key that is taken keeps its
row. -/
def insertCredit (l : Ledger) (row : CreditRow) : BillingProgram Unit :=
  modify (fun _ => [.creditKey l row.idempotencyKey]) fun db => db.insertCredit l row

def invoiceViolation (db : BillingDb) (invoice : Invoice) : Option Refusal :=
  if db.invoices.has invoice.id then some (.uniqueViolation "invoice")
  else if db.invoices.rows.any fun i => i.reference == invoice.reference then
    some (.uniqueViolation "invoice")
  else if !db.accounts.has invoice.billingAccountId then some (.foreignKeyViolation "invoice")
  else none

def insertInvoice (invoice : Invoice) : BillingProgram Unit :=
  modifyChecked (fun _ => [.invoice invoice.id, .reference invoice.reference])
    (fun db => accept (invoiceViolation db invoice))
    fun db => db.insertInvoice invoice

def settleViolation (db : BillingDb) (id : ℕ) (gatewayTransactionId : String) :
    Option Refusal :=
  if !db.invoices.has id then some (.recordNotFound "invoice")
  else if db.invoices.rows.any fun i =>
      i.id != id && i.gatewayTransactionId == some gatewayTransactionId then
    some (.uniqueViolation "invoice")
  else none

/-- `invoice.update` of the status and the gateway's transaction. -/
def settleInvoice (id : ℕ) (status : InvoiceStatus) (gatewayTransactionId : String) :
    BillingProgram Unit :=
  modifyChecked (fun _ => [.invoice id, .gatewayTransaction gatewayTransactionId])
    (fun db => accept (settleViolation db id gatewayTransactionId))
    fun db => db.settleInvoice id status gatewayTransactionId

end statements

/-- The account a ledger row names: the caller's, or else the event's. -/
def debitedAccount (db : BillingDb) (scope : Scope) : Option ℕ :=
  match scope.accountId, scope.eventId with
  | some accountId, _ => some accountId
  | none, some eventId => owner db eventId
  | none, none => none

def namedAccount (scope : Scope) : BillingProgram (Option ℕ) :=
  match scope.accountId, scope.eventId with
  | some accountId, _ => pure (some accountId)
  | none, some eventId => owningAccountId eventId
  | none, none => pure none

def creditRow (scope : Scope) (accountId : Option ℕ) (kind : CreditKind) (amount : ℤ)
    (idempotencyKey : String) (reference : Option String) : CreditRow :=
  { eventId := scope.eventId
    accountId
    amount
    kind
    idempotencyKey
    reference }

def appendTo (l : Ledger) (scope : Scope) (kind : CreditKind) (amount : ℤ)
    (idempotencyKey : String) (reference : Option String) : BillingProgram Unit := do
  let accountId ← namedAccount scope
  insertCredit l (creditRow scope accountId kind amount idempotencyKey reference)

def append : Scope → CreditKind → ℤ → String → Option String → BillingProgram Unit :=
  appendTo .sms

def appendAi : Scope → CreditKind → ℤ → String → Option String → BillingProgram Unit :=
  appendTo .ai

def grantTo (l : Ledger) (scope : Scope) (amount : ℕ) (idempotencyKey : String)
    (reference : Option String) : BillingProgram Unit :=
  appendTo l scope .grant amount idempotencyKey reference

def grantCredits : Scope → ℕ → String → Option String → BillingProgram Unit := grantTo .sms

def grantAiCredits : Scope → ℕ → String → Option String → BillingProgram Unit := grantTo .ai

structure Reservation where
  ok : Bool
  balance : ℤ
  deriving DecidableEq, Repr

/-- The balance is read in one statement and spent in another. -/
def reserveFrom (l : Ledger) (scope : Scope) (count : ℕ) (idempotencyKey : String)
    (draw : Draw) : BillingProgram Reservation := do
  let ent ← resolve scope draw
  let balance := ent.balance l
  if balance < count then return ⟨false, balance⟩
  else do
    appendTo l scope .reserve (-count) idempotencyKey none
    return ⟨true, balance - count⟩

def reserve : Scope → ℕ → String → Draw → BillingProgram Reservation := reserveFrom .sms

def reserveAiCredit (scope : Scope) (idempotencyKey : String) (draw : Draw) (count : ℕ := 1) :
    BillingProgram Reservation := reserveFrom .ai scope count idempotencyKey draw

/-- A marker of no amount: the reservation is spent. -/
def commitIn (l : Ledger) (scope : Scope) (reserveKey : String) : BillingProgram Unit :=
  appendTo l scope .commit 0 ("commit:" ++ reserveKey) (some reserveKey)

def commit : Scope → String → BillingProgram Unit := commitIn .sms

def commitAiCredit : Scope → String → BillingProgram Unit := commitIn .ai

def refundIn (l : Ledger) (scope : Scope) (count : ℕ) (reserveKey : String) :
    BillingProgram Unit :=
  appendTo l scope .refund count ("refund:" ++ reserveKey) (some reserveKey)

def refund : Scope → ℕ → String → BillingProgram Unit := refundIn .sms

def refundAiCredit (scope : Scope) (reserveKey : String) (count : ℕ := 1) :
    BillingProgram Unit := refundIn .ai scope count reserveKey

/-- The payer behind a user: the oldest account, or a new one. -/
def ensureBillingAccount (userId : ℕ) (draw : Draw) : BillingProgram ℕ := do
  let existing ← findAccountId userId
  match existing with
  | some accountId => return accountId
  | none => do
    insertAccount ⟨draw.accountId, userId, draw.now⟩
    return draw.accountId

/-- The event service's INSERT, as far as billing reads it. -/
def createEvent (ownerUserId : ℕ) (draw : Draw) : BillingProgram ℕ := do
  insertEvent ⟨draw.eventId, ownerUserId⟩
  return draw.eventId

def trialGrant (eventId accountId : Option ℕ) (draw : Draw) : EntitlementGrant :=
  { id := draw.grantId
    planId := .free
    eventId
    accountId
    status := .trialing
    periodStart := draw.now
    periodEnd := none }

def startFreeTrial (eventId : ℕ) (draw : Draw) : BillingProgram Unit := do
  let free := planCatalog .free
  upsertEventGrant eventId (trialGrant (some eventId) none draw) id fun _ => rfl
  commitNow
  grantCredits { eventId := some eventId } free.includedSmsCredits s!"trial-sms:{eventId}"
    (some "free trial SMS allowance")
  commitNow
  grantAiCredits { eventId := some eventId } free.includedAiCredits s!"trial-ai:{eventId}"
    (some "free trial AI allowance")

/-- Once for each account, by the lookup and by the keys of its credits. -/
def startAccountTrial (accountId : ℕ) (draw : Draw) : BillingProgram Unit := do
  let free := planCatalog .free
  let existingGrant ← query fun db => db.grants.rows.any fun g =>
    g.accountId == some accountId && g.planId == .free
  runIf (!existingGrant) (insertGrant (trialGrant none (some accountId) draw))
  commitNow
  grantCredits { accountId := some accountId } free.includedSmsCredits
    s!"trial-sms:account:{accountId}" (some "free trial SMS allowance (account)")
  commitNow
  grantAiCredits { accountId := some accountId } free.includedAiCredits
    s!"trial-ai:account:{accountId}" (some "free trial AI allowance (account)")

/-- How the provider answers a charge; `threw` is a charge it does not accept at all. -/
inductive ChargeOutcome
  | pending | succeeded
  | failed (message : Option String)
  | threw (message : String)
  deriving DecidableEq, Repr

/-- `charge.message || '…'`: an empty message falls back too. -/
def ChargeOutcome.refusal : ChargeOutcome → Option Refusal
  | .pending | .succeeded => none
  | .failed message =>
      if message.getD "" = "" then
        some (.badRequest ("Payment collection could not be initiated at this time. " ++
          "Please check your phone number and try again."))
      else some (.badRequest (message.getD ""))
  | .threw message => some (.internal message)

structure Purchase where
  invoiceId : ℕ
  reference : String
  charge : ChargeOutcome
  deriving DecidableEq, Repr

/-- The invoice is stored before the provider is asked; a failed charge leaves it. -/
def charge (userId : ℕ) (plan : PlanConfig) (eventId : Option ℕ) (outcome : ChargeOutcome)
    (draw : Draw) : BillingProgram Purchase := do
  let accountId ← ensureBillingAccount userId draw
  commitNow
  insertInvoice
    { id := draw.invoiceId
      billingAccountId := accountId
      planId := some plan.code
      eventId
      amountMinor := plan.priceMinor
      currency := plan.currency
      status := .pending
      reference := draw.reference
      gatewayTransactionId := none }
  commitNow
  refuse outcome.refusal
  return ⟨draw.invoiceId, draw.reference, outcome⟩

def plan (code : String) : BillingProgram PlanConfig :=
  orThrow (findPlan code) (.badRequest s!"Unknown plan: {code}")

def purchaseEventPack (userId eventId : ℕ) (planCode : String) (outcome : ChargeOutcome)
    (draw : Draw) : BillingProgram Purchase := do
  let found ← plan planCode
  refuse (if found.scope ≠ .event then some (.badRequest s!"{planCode} is not an event pack")
    else none)
  charge userId found (some eventId) outcome draw

def subscribe (userId : ℕ) (planCode : String) (outcome : ChargeOutcome) (draw : Draw) :
    BillingProgram Purchase := do
  let found ← plan planCode
  refuse (if found.scope ≠ .account then
    some (.badRequest s!"{planCode} is not a subscription") else none)
  charge userId found none outcome draw

inductive PaymentStatus
  | succeeded | failed
  deriving DecidableEq, Repr

structure PaymentWebhookEvent where
  gatewayTransactionId : String
  reference : String
  status : PaymentStatus
  amount : ℕ
  currency : String
  deriving DecidableEq, Repr

/-- Thirty days in milliseconds. -/
def subscriptionPeriod : ℕ := 30 * 24 * 60 * 60 * 1000

def paidGrant (invoice : Invoice) (plan : PlanConfig) (draw : Draw) : EntitlementGrant :=
  { id := draw.grantId
    planId := plan.code
    eventId := invoice.eventId
    accountId := if invoice.eventId.isSome then none else some invoice.billingAccountId
    status := .active
    periodStart := draw.now
    periodEnd := if plan.isSubscription then some (draw.now + subscriptionPeriod) else none }

/-- One grant for each event, whatever is bought for it. -/
def grantPlan (invoice : Invoice) (plan : PlanConfig) (draw : Draw) : BillingProgram Unit :=
  let grant := paidGrant invoice plan draw
  match invoice.eventId with
  | some eventId =>
      upsertEventGrant eventId grant
        (fun g => { g with
          planId := grant.planId
          status := grant.status
          periodStart := grant.periodStart
          periodEnd := grant.periodEnd })
        fun _ => rfl
  | none => insertGrant grant

def invoiceKey (l : Ledger) (invoiceId : ℕ) : String :=
  match l with
  | .sms => s!"invoice-sms:{invoiceId}"
  | .ai => s!"invoice-ai:{invoiceId}"

/-- A paid credit names the event of its invoice or else the account, never both. -/
def invoiceCredit (l : Ledger) (invoice : Invoice) (credits : ℕ) (reference : String) :
    CreditRow :=
  { eventId := invoice.eventId
    accountId := if invoice.eventId.isSome then none else some invoice.billingAccountId
    amount := credits
    kind := .grant
    idempotencyKey := invoiceKey l invoice.id
    reference := some reference }

/-- The transaction of a payment that succeeded. -/
def applyPaid (invoice : Invoice) (evt : PaymentWebhookEvent) (draw : Draw) :
    BillingProgram Bool := do
  settleInvoice invoice.id .paid evt.gatewayTransactionId
  match invoice.planId with
  | none => return true
  | some planId => do
    let plan := planCatalog planId
    grantPlan invoice plan draw
    runIf (0 < plan.includedSmsCredits)
      (createCredit .sms (invoiceCredit .sms invoice plan.includedSmsCredits evt.reference))
    runIf (0 < plan.includedAiCredits)
      (createCredit .ai (invoiceCredit .ai invoice plan.includedAiCredits evt.reference))
    return true

def findByReference (db : BillingDb) (reference : String) : Option Invoice :=
  db.invoices.find? fun i => i.reference == reference

/-- The status is read before the transaction that acts on it. -/
def applyPaymentWebhook (evt : PaymentWebhookEvent) (draw : Draw) : BillingProgram Bool := do
  let found ← query fun db => findByReference db evt.reference
  match found with
  | none => return false
  | some invoice =>
      if invoice.status = .paid then return false
      else match evt.status with
        | .failed => do
            settleInvoice invoice.id .failed evt.gatewayTransactionId
            return false
        | .succeeded => applyPaid invoice evt draw

def reconcileInvoice (invoiceId : ℕ) (gatewayTransactionId : String) (draw : Draw) :
    BillingProgram Bool := do
  let found ← query fun db => db.invoices.get? invoiceId
  let invoice ← orThrow found (.badRequest "Invoice not found")
  refuse (if invoice.status = .paid then some (.badRequest "Invoice is already marked PAID")
    else none)
  applyPaymentWebhook
    { gatewayTransactionId
      reference := invoice.reference
      status := .succeeded
      amount := invoice.amountMinor
      currency := invoice.currency } draw

inductive BillingCall
  | createEvent (ownerUserId : ℕ)
  | ensureBillingAccount (userId : ℕ)
  | startFreeTrial (eventId : ℕ)
  | startAccountTrial (accountId : ℕ)
  | purchaseEventPack (userId eventId : ℕ) (planCode : String) (outcome : ChargeOutcome)
  | subscribe (userId : ℕ) (planCode : String) (outcome : ChargeOutcome)
  | applyPaymentWebhook (evt : PaymentWebhookEvent)
  | reconcileInvoice (invoiceId : ℕ) (gatewayTransactionId : String)
  | grant (ledger : Ledger) (scope : Scope) (amount : ℕ) (idempotencyKey : String)
      (reference : Option String)
  | reserve (ledger : Ledger) (scope : Scope) (count : ℕ) (idempotencyKey : String)
  | commit (ledger : Ledger) (scope : Scope) (reserveKey : String)
  | refund (ledger : Ledger) (scope : Scope) (count : ℕ) (reserveKey : String)
  deriving DecidableEq, Repr

inductive BillingResult
  | done
  | id (value : ℕ)
  | purchase (purchase : Purchase)
  | applied (applied : Bool)
  | reservation (reservation : Reservation)
  deriving DecidableEq, Repr

def BillingCall.program (call : BillingCall) (draw : Draw) : BillingProgram BillingResult :=
  match call with
  | .createEvent ownerUserId => .id <$> BillingWrites.createEvent ownerUserId draw
  | .ensureBillingAccount userId => .id <$> BillingWrites.ensureBillingAccount userId draw
  | .startFreeTrial eventId => (fun _ => .done) <$> BillingWrites.startFreeTrial eventId draw
  | .startAccountTrial accountId =>
      (fun _ => .done) <$> BillingWrites.startAccountTrial accountId draw
  | .purchaseEventPack userId eventId planCode outcome =>
      .purchase <$> BillingWrites.purchaseEventPack userId eventId planCode outcome draw
  | .subscribe userId planCode outcome =>
      .purchase <$> BillingWrites.subscribe userId planCode outcome draw
  | .applyPaymentWebhook evt => .applied <$> BillingWrites.applyPaymentWebhook evt draw
  | .reconcileInvoice invoiceId tx =>
      .applied <$> BillingWrites.reconcileInvoice invoiceId tx draw
  | .grant ledger scope amount key reference =>
      (fun _ => .done) <$> grantTo ledger scope amount key reference
  | .reserve ledger scope count key => .reservation <$> reserveFrom ledger scope count key draw
  | .commit ledger scope reserveKey => (fun _ => .done) <$> commitIn ledger scope reserveKey
  | .refund ledger scope count reserveKey =>
      (fun _ => .done) <$> refundIn ledger scope count reserveKey

structure Invocation where
  call : BillingCall
  draw : Draw
  deriving DecidableEq, Repr

def Invocation.step (db : BillingDb) (inv : Invocation) : BillingDb :=
  ((inv.call.program inv.draw).run db).2

/-- Calls one after the other. -/
def billingRun (db : BillingDb) (calls : List Invocation) : BillingDb :=
  calls.foldl Invocation.step db

end Akabbo.BillingWrites
