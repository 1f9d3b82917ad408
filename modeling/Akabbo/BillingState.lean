import Akabbo.Access
import Akabbo.CreditPool
import Akabbo.PlanCatalog
import Akabbo.StatementProgram

/-!
# The billing rows

The tables that billing and entitlements read and write. A row of `plan` is the
configured plan of its code, so a plan id is a code here.
-/
namespace Akabbo.BillingState
open Access CreditPool PlanCatalog RowTable StatementProgram

structure Event where
  id : ℕ
  ownerUserId : ℕ
  deriving DecidableEq, Repr

structure BillingAccount where
  id : ℕ
  ownerUserId : ℕ
  createdAt : ℕ
  deriving DecidableEq, Repr

inductive GrantStatus
  | trialing | active | pastDue | expired | cancelled
  deriving DecidableEq, Repr

structure EntitlementGrant where
  id : ℕ
  planId : PlanCode
  eventId : Option ℕ
  accountId : Option ℕ
  status : GrantStatus
  periodStart : ℕ
  periodEnd : Option ℕ
  deriving DecidableEq, Repr

inductive CreditKind
  | grant | reserve | commit | refund | deduct
  deriving DecidableEq, Repr

/-- A row of either credit ledger. -/
structure CreditRow extends Movement ℕ ℕ where
  kind : CreditKind
  idempotencyKey : String
  reference : Option String
  deriving DecidableEq, Repr

inductive InvoiceStatus
  | pending | paid | failed | cancelled
  deriving DecidableEq, Repr

structure Invoice where
  id : ℕ
  billingAccountId : ℕ
  planId : Option PlanCode
  eventId : Option ℕ
  amountMinor : ℕ
  currency : String
  status : InvoiceStatus
  reference : String
  gatewayTransactionId : Option String
  deriving DecidableEq, Repr

inductive MembershipStatus
  | invited | active | removed
  deriving DecidableEq, Repr

structure EventMember where
  eventId : ℕ
  status : MembershipStatus
  deriving DecidableEq, Repr

inductive InvitationStatus
  | pending | accepted | expired | revoked
  deriving DecidableEq, Repr

structure Invitation where
  eventId : ℕ
  status : InvitationStatus
  expiresAt : ℕ
  deriving DecidableEq, Repr

/-- The two credit ledgers have the same shape and the same services. -/
inductive Ledger
  | sms | ai
  deriving DecidableEq, Repr

/-- `persons` lists the event of each contributor. -/
structure BillingDb where
  events : Table ℕ Event Event.id
  accounts : Table ℕ BillingAccount BillingAccount.id
  grants : Table ℕ EntitlementGrant EntitlementGrant.id
  smsCreditLedger : Table String CreditRow CreditRow.idempotencyKey
  aiCreditLedger : Table String CreditRow CreditRow.idempotencyKey
  invoices : Table ℕ Invoice Invoice.id
  members : List EventMember
  invitations : List Invitation
  persons : List ℕ

def BillingDb.empty : BillingDb := ⟨.empty, .empty, .empty, .empty, .empty, .empty, [], [], []⟩

inductive BillingLock
  | event (id : ℕ)
  | account (id : ℕ)
  | grant (id : ℕ)
  | grantOf (eventId : ℕ)
  | creditKey (ledger : Ledger) (key : String)
  | invoice (id : ℕ)
  | reference (reference : String)
  | gatewayTransaction (id : String)
  deriving DecidableEq, Repr

abbrev BillingProgram := Program BillingLock BillingDb Refusal

/-- What the world supplies to one call: the ids and the invoice reference its inserts
get, the time, and which of equally priced plans a query puts first. -/
structure Draw where
  eventId : ℕ
  accountId : ℕ
  grantId : ℕ
  invoiceId : ℕ
  reference : String
  now : ℕ
  tie : ℕ
  deriving DecidableEq, Repr

/-- A plan attaches to an event or to an account. -/
structure Scope where
  eventId : Option ℕ := none
  accountId : Option ℕ := none
  deriving DecidableEq, Repr

namespace BillingDb
variable (db : BillingDb)

def creditLedger : Ledger → Table String CreditRow CreditRow.idempotencyKey
  | .sms => db.smsCreditLedger
  | .ai => db.aiCreditLedger

def movements (l : Ledger) : List (Movement ℕ ℕ) :=
  (db.creditLedger l).rows.map CreditRow.toMovement

def insertEvent (event : Event) : BillingDb :=
  { db with events := db.events.insertNew event }

def insertAccount (account : BillingAccount) : BillingDb :=
  { db with accounts := db.accounts.insertNew account }

def insertGrant (grant : EntitlementGrant) : BillingDb :=
  { db with grants := db.grants.insertNew grant }

/-- INSERT into one of the ledgers; a row whose key is taken is not added. -/
def insertCredit (l : Ledger) (row : CreditRow) : BillingDb :=
  match l with
  | .sms => { db with smsCreditLedger := db.smsCreditLedger.insertNew row }
  | .ai => { db with aiCreditLedger := db.aiCreditLedger.insertNew row }

def insertInvoice (invoice : Invoice) : BillingDb :=
  { db with invoices := db.invoices.insertNew invoice }

def updateEventGrant (eventId : ℕ) (f : EntitlementGrant → EntitlementGrant)
    (hf : ∀ g, (f g).id = g.id) : BillingDb :=
  { db with grants := db.grants.update (fun g => g.eventId == some eventId) f hf }

def settleInvoice (id : ℕ) (status : InvoiceStatus) (gatewayTransactionId : String) :
    BillingDb :=
  { db with
    invoices := db.invoices.update (fun i => i.id == id)
      (fun i => { i with status, gatewayTransactionId := some gatewayTransactionId })
      fun _ => rfl }

section frame
variable (l l' : Ledger) (row : CreditRow) (event : Event) (account : BillingAccount)
  (grant : EntitlementGrant) (invoice : Invoice)

@[simp] theorem insertCredit_events : (db.insertCredit l row).events = db.events := by
  cases l <;> rfl

@[simp] theorem insertCredit_accounts : (db.insertCredit l row).accounts = db.accounts := by
  cases l <;> rfl

@[simp] theorem insertCredit_grants : (db.insertCredit l row).grants = db.grants := by
  cases l <;> rfl

@[simp] theorem insertCredit_invoices : (db.insertCredit l row).invoices = db.invoices := by
  cases l <;> rfl

theorem insertCredit_creditLedger : (db.insertCredit l row).creditLedger l' =
    if l = l' then (db.creditLedger l').insertNew row else db.creditLedger l' := by
  cases l <;> cases l' <;> rfl

@[simp] theorem insertCredit_creditLedger_self :
    (db.insertCredit l row).creditLedger l = (db.creditLedger l).insertNew row := by
  rw [insertCredit_creditLedger, if_pos rfl]

@[simp] theorem insertEvent_creditLedger :
    (db.insertEvent event).creditLedger l = db.creditLedger l := by
  cases l <;> rfl

@[simp] theorem insertAccount_creditLedger :
    (db.insertAccount account).creditLedger l = db.creditLedger l := by
  cases l <;> rfl

@[simp] theorem insertGrant_creditLedger :
    (db.insertGrant grant).creditLedger l = db.creditLedger l := by
  cases l <;> rfl

@[simp] theorem insertInvoice_creditLedger :
    (db.insertInvoice invoice).creditLedger l = db.creditLedger l := by
  cases l <;> rfl

@[simp] theorem updateEventGrant_creditLedger (eventId : ℕ)
    (f : EntitlementGrant → EntitlementGrant) (hf : ∀ g, (f g).id = g.id) :
    (db.updateEventGrant eventId f hf).creditLedger l = db.creditLedger l := by
  cases l <;> rfl

@[simp] theorem settleInvoice_creditLedger (id : ℕ) (status : InvoiceStatus) (tx : String) :
    (db.settleInvoice id status tx).creditLedger l = db.creditLedger l := by
  cases l <;> rfl

end frame

theorem movements_insertCredit (l l' : Ledger) (row : CreditRow)
    (h : (db.creditLedger l).has row.idempotencyKey = false) :
    (db.insertCredit l row).movements l' =
      if l = l' then db.movements l' ++ [row.toMovement] else db.movements l' := by
  unfold movements
  rw [insertCredit_creditLedger]
  split_ifs with hl
  · subst hl
    rw [Table.insertNew_rows h, List.map_append]
    rfl
  · rfl

end BillingDb
end Akabbo.BillingState
