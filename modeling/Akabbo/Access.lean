import Mathlib.Tactic

/-!
# Who may act on an event

The permission matrix, the event-status gate, and the refusals a call may end in,
with the texts the services send.
-/
namespace Akabbo.Access

inductive EventRole
  | owner | coOwner | coordinator | finance | viewer
  deriving DecidableEq, Repr

def EventRole.name : EventRole → String
  | .owner => "OWNER"
  | .coOwner => "CO_OWNER"
  | .coordinator => "COORDINATOR"
  | .finance => "FINANCE"
  | .viewer => "VIEWER"

/-- The closed catalog of authorizable actions. -/
inductive Action
  | eventRead | eventUpdate | memberManage
  | personWrite | personMerge | pledgeWrite | pledgeCancel | fulfillmentWrite | fulfillmentCorrect
  | ledgerReadFunding | ledgerReadAmounts
  | budgetRead | budgetWrite | groupRead | groupWrite | documentUpload | documentRead
  | publicConfigure | announcementRead | announcementWrite
  | paymentInstructionRead | paymentInstructionWrite | smsSend | smsRead
  deriving DecidableEq, Repr

def Action.name : Action → String
  | .eventRead => "event:read"
  | .eventUpdate => "event:update"
  | .memberManage => "member:manage"
  | .personWrite => "person:write"
  | .personMerge => "person:merge"
  | .pledgeWrite => "pledge:write"
  | .pledgeCancel => "pledge:cancel"
  | .fulfillmentWrite => "fulfillment:write"
  | .fulfillmentCorrect => "fulfillment:correct"
  | .ledgerReadFunding => "ledger:read_funding"
  | .ledgerReadAmounts => "ledger:read_amounts"
  | .budgetRead => "budget:read"
  | .budgetWrite => "budget:write"
  | .groupRead => "group:read"
  | .groupWrite => "group:write"
  | .documentUpload => "document:upload"
  | .documentRead => "document:read"
  | .publicConfigure => "public:configure"
  | .announcementRead => "announcement:read"
  | .announcementWrite => "announcement:write"
  | .paymentInstructionRead => "payment_instruction:read"
  | .paymentInstructionWrite => "payment_instruction:write"
  | .smsSend => "sms:send"
  | .smsRead => "sms:read"

def fullLedger : List Action :=
  [.personWrite, .personMerge, .pledgeWrite, .pledgeCancel, .fulfillmentWrite,
    .fulfillmentCorrect, .ledgerReadFunding, .ledgerReadAmounts, .budgetRead, .budgetWrite,
    .groupRead, .groupWrite, .documentUpload, .documentRead]

def publishing : List Action :=
  [.announcementRead, .announcementWrite, .paymentInstructionRead, .paymentInstructionWrite,
    .smsSend, .smsRead]

def matrix : EventRole → List Action
  | .owner =>
      [.eventRead, .eventUpdate, .memberManage, .publicConfigure] ++ fullLedger ++ publishing
  | .coOwner =>
      [.eventRead, .eventUpdate, .memberManage, .publicConfigure] ++ fullLedger ++ publishing
  | .coordinator => [.eventRead, .eventUpdate] ++ fullLedger ++ publishing
  | .finance => [.eventRead] ++ fullLedger
  | .viewer => [.eventRead, .ledgerReadFunding, .budgetRead, .groupRead]

def can (role : EventRole) (action : Action) : Bool := action ∈ matrix role

inductive EventStatus
  | draft | active | paused | closed | archived
  deriving DecidableEq, Repr

/-- The enum value in lower case, as the refusal prints it. -/
def EventStatus.lowerName : EventStatus → String
  | .draft => "draft"
  | .active => "active"
  | .paused => "paused"
  | .closed => "closed"
  | .archived => "archived"

def isWritable (status : EventStatus) : Bool :=
  status ∈ [EventStatus.draft, .active, .paused]

/-- How a call fails: the exception a service throws, or what the database refuses. -/
inductive Refusal
  | forbidden (message : String)
  | notFound (message : String)
  | conflict (message : String)
  | badRequest (message : String)
  | duplicateSuspected (existingFulfillmentId : ℕ) (value : String) (recordedAt : ℕ)
  | phoneAlreadyAttached (existingPersonId : ℕ) (existingDisplayName phone : String)
  | uniqueViolation (table : String)
  | foreignKeyViolation (table : String)
  | recordNotFound (table : String)
  | transactionAborted
  | publicEventNotFound (message : String)
  | publicTokenRequired (message : String)
  | internal (message : String)
  deriving DecidableEq, Repr

/-- `PermissionService.assert`. -/
def assertPermission (role : EventRole) (action : Action) : Option Refusal :=
  if can role action then none
  else some (.forbidden s!"Role {role.name} may not perform {action.name}")

def assertEventWritable (status : EventStatus) : Option Refusal :=
  if isWritable status then none
  else some (.forbidden
    s!"This event is {status.lowerName} and is read-only. Reopen it to make changes.")

structure EntitlementDecision where
  allowed : Bool
  reason : Option String := none
  message : Option String := none
  deriving DecidableEq, Repr

/-- `ent.message ?? ent.reason ?? 'Not entitled'`. -/
def EntitlementDecision.refusal (ent : EntitlementDecision) : Option Refusal :=
  if ent.allowed then none
  else some (.forbidden (ent.message.getD (ent.reason.getD "Not entitled")))

/-- Pledges and payments are never entitlement-gated. -/
def checkLedgerWrite : EntitlementDecision := { allowed := true }

/-- The contributor limit; `maxContributors = none` is an unlimited plan. -/
def checkAddContributor (planCode : String) (maxContributors : Option ℕ) (current : ℕ) :
    EntitlementDecision :=
  match maxContributors with
  | none => { allowed := true }
  | some limit =>
      if current + 1 > limit then
        { allowed := false
          reason := some "contributor_limit"
          message := some (s!"Your {planCode} plan allows {limit} contributors. " ++
            "Upgrade to add more.") }
      else { allowed := true }

structure Actor where
  userId : ℕ
  phoneVerified : Bool
  deriving DecidableEq, Repr

structure EventContext where
  eventId : ℕ
  role : EventRole
  status : EventStatus
  deriving DecidableEq, Repr

structure OperationContext where
  actor : Actor
  event : EventContext
  deriving DecidableEq, Repr

@[simp] theorem checkLedgerWrite_refusal : checkLedgerWrite.refusal = none := rfl

end Akabbo.Access
