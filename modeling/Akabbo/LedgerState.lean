import Akabbo.Access
import Akabbo.PledgeStatus
import Akabbo.RowTable
import Akabbo.StatementProgram

/-!
# The ledger's rows

The tables of events and what belongs to them, over every event at once. Row-level
security is the filter on `eventId` that each statement carries.
-/
namespace Akabbo.LedgerState
open Access PledgeStatus RowTable StatementProgram

inductive PledgeType
  | cash | item | service
  deriving DecidableEq, Repr

def PledgeType.name : PledgeType → String
  | .cash => "CASH"
  | .item => "ITEM"
  | .service => "SERVICE"

inductive FulfillmentKind
  | payment | delivery
  deriving DecidableEq, Repr

inductive PaymentMethod
  | mtn | airtel | cash | bank | other | unknown
  deriving DecidableEq, Repr

def PaymentMethod.name : PaymentMethod → String
  | .mtn => "MTN"
  | .airtel => "AIRTEL"
  | .cash => "CASH"
  | .bank => "BANK"
  | .other => "OTHER"
  | .unknown => "UNKNOWN"

inductive VerificationStatus
  | reported | unverified | verified
  deriving DecidableEq, Repr

def VerificationStatus.name : VerificationStatus → String
  | .reported => "REPORTED"
  | .unverified => "UNVERIFIED"
  | .verified => "VERIFIED"

/-- How a record is known. -/
inductive ProvenanceSource
  | humanTyped | aiFromChat | aiFromDocument | aiFromPaymentSms | manualCorrection | imported
  | aiSuggested
  deriving DecidableEq, Repr

structure Person where
  id : ℕ
  eventId : ℕ
  displayName : String
  phone : Option String
  userId : Option ℕ
  source : ProvenanceSource
  createdById : Option ℕ
  createdAt : ℕ
  deriving DecidableEq, Repr

structure Pledge where
  id : ℕ
  eventId : ℕ
  personId : ℕ
  type : PledgeType
  committedValue : ℕ
  status : Status
  targetBudgetItemId : Option ℕ
  description : Option String
  quantity : Option ℕ
  unit : Option String
  estimatedValue : Option ℕ
  isDirect : Bool
  source : ProvenanceSource
  createdById : Option ℕ
  createdAt : ℕ
  deriving DecidableEq, Repr

structure Fulfillment where
  id : ℕ
  eventId : ℕ
  pledgeId : ℕ
  kind : FulfillmentKind
  value : ℕ
  currency : String
  method : PaymentMethod
  verificationStatus : VerificationStatus
  note : Option String
  occurredAt : ℕ
  idempotencyKey : Option String
  source : ProvenanceSource
  createdById : Option ℕ
  createdAt : ℕ
  deriving DecidableEq, Repr

inductive FileKind
  | profilePhoto | document | documentPhoto | paymentEvidence | contributionEvidence | eventPhoto
  deriving DecidableEq, Repr

def FileKind.name : FileKind → String
  | .profilePhoto => "PROFILE_PHOTO"
  | .document => "DOCUMENT"
  | .documentPhoto => "DOCUMENT_PHOTO"
  | .paymentEvidence => "PAYMENT_EVIDENCE"
  | .contributionEvidence => "CONTRIBUTION_EVIDENCE"
  | .eventPhoto => "EVENT_PHOTO"

structure FileObject where
  id : ℕ
  eventId : ℕ
  personId : Option ℕ
  kind : FileKind
  storageKey : String
  mimeType : String
  sizeBytes : ℕ
  sha256 : String
  originalFilename : Option String
  uploadedById : Option ℕ
  deriving DecidableEq, Repr

inductive ExtractionKind
  | budget | contributionList | unknown
  deriving DecidableEq, Repr

def ExtractionKind.name : ExtractionKind → String
  | .budget => "BUDGET"
  | .contributionList => "CONTRIBUTION_LIST"
  | .unknown => "UNKNOWN"

inductive DocumentStatus
  | uploaded | processing | processed | failed | requiresReview | approved
  deriving DecidableEq, Repr

structure Document where
  id : ℕ
  eventId : ℕ
  fileId : ℕ
  kind : ExtractionKind
  status : DocumentStatus
  error : Option String
  uploadedById : Option ℕ
  deriving DecidableEq, Repr

structure Budget where
  id : ℕ
  eventId : ℕ
  deriving DecidableEq, Repr

structure BudgetItem where
  id : ℕ
  eventId : ℕ
  budgetId : ℕ
  name : String
  targetValue : ℕ
  isPublic : Bool
  source : ProvenanceSource
  sourceDocumentId : Option ℕ
  createdById : Option ℕ
  version : ℕ
  createdAt : ℕ
  deriving DecidableEq, Repr

structure Allocation where
  id : ℕ
  eventId : ℕ
  fulfillmentId : ℕ
  budgetItemId : ℕ
  value : ℕ
  deriving DecidableEq, Repr

/-- One member of an audit snapshot or an outbox payload. -/
inductive Json
  | text (value : String)
  | id (value : ℕ)
  | count (value : ℕ)
  | flag (value : Bool)
  | null
  deriving DecidableEq, Repr

structure AuditEvent where
  eventId : ℕ
  actorUserId : Option ℕ
  action : String
  resourceType : String
  resourceId : ℕ
  source : ProvenanceSource
  oldValue : Option (List (String × Json))
  newValue : Option (List (String × Json))
  deriving DecidableEq, Repr

structure OutboxRow where
  idempotencyKey : String
  eventId : ℕ
  topic : String
  payload : List (String × Json)
  deriving DecidableEq, Repr

inductive ContributorVisibility
  | namesAndAmounts | namesOnly | aggregateOnly | hidden
  deriving DecidableEq, Repr

def ContributorVisibility.name : ContributorVisibility → String
  | .namesAndAmounts => "NAMES_AND_AMOUNTS"
  | .namesOnly => "NAMES_ONLY"
  | .aggregateOnly => "AGGREGATE_ONLY"
  | .hidden => "HIDDEN"

inductive BudgetVisibility
  | shown | partiallyPublic | hidden
  deriving DecidableEq, Repr

def BudgetVisibility.name : BudgetVisibility → String
  | .shown => "PUBLIC"
  | .partiallyPublic => "PARTIALLY_PUBLIC"
  | .hidden => "HIDDEN"

inductive AnnouncementStatus
  | draft | published | archived
  deriving DecidableEq, Repr

structure Event where
  id : ℕ
  ownerUserId : ℕ
  slug : String
  name : String
  description : Option String := none
  eventDate : Option ℕ := none
  status : EventStatus := .active
  currency : String := "UGX"
  timezone : String := "Africa/Kampala"
  country : String := "UG"
  targetAmount : Option ℕ := none
  isPublic : Bool := true
  publicAccessToken : Option String := none
  contributorVisibility : ContributorVisibility := .namesAndAmounts
  budgetVisibility : BudgetVisibility := .shown
  showTarget : Bool := true
  showOutstanding : Bool := true
  publicRevision : ℕ := 1
  createdAt : ℕ
  deriving DecidableEq, Repr

structure EventAnnouncement where
  id : ℕ
  eventId : ℕ
  body : String
  status : AnnouncementStatus
  publishedAt : Option ℕ
  deriving DecidableEq, Repr

structure PaymentInstruction where
  id : ℕ
  eventId : ℕ
  method : PaymentMethod
  label : String
  details : String
  displayOrder : ℤ
  isPublic : Bool
  createdAt : ℕ
  deriving DecidableEq, Repr

structure User where
  id : ℕ
  phone : Option String
  deriving DecidableEq, Repr

inductive MembershipStatus
  | invited | active | removed
  deriving DecidableEq, Repr

structure EventMember where
  eventId : ℕ
  userId : ℕ
  role : EventRole
  status : MembershipStatus
  invitedById : Option ℕ
  deriving DecidableEq, Repr

/-- One user is at most once a member of an event. -/
def EventMember.key (m : EventMember) : ℕ × ℕ := (m.eventId, m.userId)

inductive InvitationStatus
  | pending | accepted | expired | revoked
  deriving DecidableEq, Repr

structure Invitation where
  id : ℕ
  eventId : ℕ
  token : String
  role : EventRole
  status : InvitationStatus
  invitedPhone : Option String
  invitedById : ℕ
  maxUses : ℕ
  uses : ℕ
  expiresAt : ℕ
  acceptedById : Option ℕ
  acceptedAt : Option ℕ
  deriving DecidableEq, Repr

inductive GroupKind
  | familySide | family | friends | workmates | church | school | village | committee | diaspora
  | clan | other
  deriving DecidableEq, Repr

def GroupKind.name : GroupKind → String
  | .familySide => "FAMILY_SIDE"
  | .family => "FAMILY"
  | .friends => "FRIENDS"
  | .workmates => "WORKMATES"
  | .church => "CHURCH"
  | .school => "SCHOOL"
  | .village => "VILLAGE"
  | .committee => "COMMITTEE"
  | .diaspora => "DIASPORA"
  | .clan => "CLAN"
  | .other => "OTHER"

structure ContributorGroup where
  id : ℕ
  eventId : ℕ
  name : String
  kind : GroupKind
  createdById : Option ℕ
  deriving DecidableEq, Repr

structure PersonGroup where
  eventId : ℕ
  personId : ℕ
  groupId : ℕ
  role : Option String
  deriving DecidableEq, Repr

def PersonGroup.key (r : PersonGroup) : ℕ × ℕ := (r.personId, r.groupId)

/-- A resolved action: ids are resolved, amounts are digit strings. -/
inductive StoredAction
  | addPerson (displayName : String) (phone : Option String) (confirmSharedPhone : Option Bool)
  | recordPledge (personId : Option ℕ) (displayName amount : String) (type : Option PledgeType)
      (description phone : Option String) (budgetItemId : Option ℕ)
  | recordPledgeWithPayment (personId : Option ℕ) (displayName amount receivedNow : String)
      (type : Option PledgeType) (description phone : Option String) (budgetItemId : Option ℕ)
  | recordPayment (pledgeId : ℕ) (displayName amount : String)
  | recordDirectContribution (personId : Option ℕ) (displayName amount : String)
      (phone : Option String) (type : Option PledgeType) (description : Option String)
      (budgetItemId : Option ℕ)
  | createBudgetItem (name targetValue : String) (sourceDocumentId : Option ℕ)
  | updateBudgetItem (itemId : ℕ) (name targetValue : String)
  | removeBudgetItem (itemId : ℕ) (name : String)
  | allocateToBudget (fulfillmentId budgetItemId : ℕ) (budgetItemName displayName value : String)
  | correctPledge (pledgeId : ℕ) (displayName newValue : String)
  | correctPayment (fulfillmentId : ℕ) (displayName newValue : String)
  | mergePeople (sourceId targetId : ℕ) (sourceName targetName : String)
  | sendSmsReminders (body : String)
  | inviteMember (role : EventRole) (displayName phone : Option String)
  | getOutstandingPledge (pledgeId : ℕ) (displayName : String)
  | getSummary
  deriving DecidableEq, Repr

def StoredAction.tool : StoredAction → String
  | .addPerson .. => "add_person"
  | .recordPledge .. => "record_pledge"
  | .recordPledgeWithPayment .. => "record_pledge_with_payment"
  | .recordPayment .. => "record_payment"
  | .recordDirectContribution .. => "record_direct_contribution"
  | .createBudgetItem .. => "create_budget_item"
  | .updateBudgetItem .. => "update_budget_item"
  | .removeBudgetItem .. => "remove_budget_item"
  | .allocateToBudget .. => "allocate_to_budget"
  | .correctPledge .. => "correct_pledge"
  | .correctPayment .. => "correct_payment"
  | .mergePeople .. => "merge_people"
  | .sendSmsReminders .. => "send_sms_reminders"
  | .inviteMember .. => "invite_member"
  | .getOutstandingPledge .. => "get_outstanding_pledge"
  | .getSummary => "get_summary"

inductive ConfirmationStatus
  | pending | confirmed | rejected | expired
  deriving DecidableEq, Repr

/-- The status in lower case, as the refusals print it. -/
def ConfirmationStatus.lowerName : ConfirmationStatus → String
  | .pending => "pending"
  | .confirmed => "confirmed"
  | .rejected => "rejected"
  | .expired => "expired"

/-- A write that waits for a human. -/
structure PendingConfirmation where
  id : ℕ
  eventId : ℕ
  payload : StoredAction
  confidence : Option ℚ
  source : ProvenanceSource
  status : ConfirmationStatus
  prompt : String
  createdById : Option ℕ
  resolvedById : Option ℕ
  resolvedAt : Option ℕ
  deriving DecidableEq, Repr

/-- Every writer stores the tool's own name as the intent. -/
def PendingConfirmation.intent (row : PendingConfirmation) : String := row.payload.tool

inductive SmsCampaignKind
  | reminder | announcement | thankYou | custom
  deriving DecidableEq, Repr

inductive SmsCampaignStatus
  | queued | sending | sent | partiallySent | failed
  deriving DecidableEq, Repr

inductive SmsStatus
  | queued | sent | delivered | failed
  deriving DecidableEq, Repr

structure SmsCampaign where
  id : ℕ
  eventId : ℕ
  kind : SmsCampaignKind
  body : String
  status : SmsCampaignStatus
  recipientCount : ℕ
  createdById : Option ℕ
  deriving DecidableEq, Repr

structure SmsMessage where
  id : ℕ
  eventId : ℕ
  campaignId : ℕ
  personId : Option ℕ
  toPhone : String
  body : String
  status : SmsStatus
  segments : ℕ
  providerMessageId : Option String
  reserveKey : String
  error : Option String
  sentAt : Option ℕ
  deriving DecidableEq, Repr

structure LedgerDb where
  events : Table ℕ Event Event.id
  announcements : Table ℕ EventAnnouncement EventAnnouncement.id
  paymentInstructions : Table ℕ PaymentInstruction PaymentInstruction.id
  persons : Table ℕ Person Person.id
  pledges : Table ℕ Pledge Pledge.id
  fulfillments : Table ℕ Fulfillment Fulfillment.id
  files : Table ℕ FileObject FileObject.id
  budgetItems : Table ℕ BudgetItem BudgetItem.id
  allocations : Table ℕ Allocation Allocation.id
  budgets : Table ℕ Budget Budget.id
  documents : Table ℕ Document Document.id
  users : Table ℕ User User.id
  members : Table (ℕ × ℕ) EventMember EventMember.key
  invitations : Table ℕ Invitation Invitation.id
  groups : Table ℕ ContributorGroup ContributorGroup.id
  personGroups : Table (ℕ × ℕ) PersonGroup PersonGroup.key
  pendingConfirmations : Table ℕ PendingConfirmation PendingConfirmation.id
  smsCampaigns : Table ℕ SmsCampaign SmsCampaign.id
  smsMessages : Table ℕ SmsMessage SmsMessage.id
  outbox : Table String OutboxRow OutboxRow.idempotencyKey
  auditEvents : List AuditEvent

def LedgerDb.empty : LedgerDb :=
  ⟨.empty, .empty, .empty, .empty, .empty, .empty, .empty, .empty, .empty, .empty, .empty, .empty,
    .empty, .empty, .empty, .empty, .empty, .empty, .empty, .empty, []⟩

/-- What a write statement holds until its transaction ends: the rows it changes and the
unique keys it inserts. The share locks of foreign keys do not exclude these writes. -/
inductive RowLock
  | person (id : ℕ)
  | pledge (id : ℕ)
  | fulfillment (id : ℕ)
  | fulfillmentKey (eventId : ℕ) (key : String)
  | file (id : ℕ)
  | outboxKey (key : String)
  | event (id : ℕ)
  | eventSlug (slug : String)
  | member (eventId userId : ℕ)
  | invitation (id : ℕ)
  | invitationToken (token : String)
  | group (id : ℕ)
  | personGroup (personId groupId : ℕ)
  | budget (id : ℕ)
  | budgetItem (id : ℕ)
  | allocation (id : ℕ)
  | document (id : ℕ)
  | pendingConfirmation (id : ℕ)
  | smsCampaign (id : ℕ)
  | smsMessage (id : ℕ)
  | announcement (id : ℕ)
  | paymentInstruction (id : ℕ)
  deriving DecidableEq, Repr

abbrev LedgerProgram := Program RowLock LedgerDb Refusal

/-- What the world supplies to one call: the ids its inserts get and the time. -/
structure Draw where
  personId : ℕ
  pledgeId : ℕ
  fulfillmentId : ℕ
  now : ℕ
  deriving DecidableEq, Repr

/-- `SUM(value)` over the payments of one pledge that an event sees. -/
def LedgerDb.sumFulfillments (db : LedgerDb) (eventId pledgeId : ℕ) : ℕ :=
  sumWhere db.fulfillments.rows (fun f => f.eventId == eventId && f.pledgeId == pledgeId)
    Fulfillment.value

/-- The same sum without one payment. -/
def LedgerDb.sumOthers (db : LedgerDb) (eventId pledgeId fulfillmentId : ℕ) : ℕ :=
  sumWhere db.fulfillments.rows
    (fun f => f.eventId == eventId && f.pledgeId == pledgeId && f.id != fulfillmentId)
    Fulfillment.value

def LedgerDb.findPerson (db : LedgerDb) (eventId id : ℕ) : Option Person :=
  db.persons.find? fun p => p.eventId == eventId && p.id == id

def LedgerDb.findPledge (db : LedgerDb) (eventId id : ℕ) : Option Pledge :=
  db.pledges.find? fun p => p.eventId == eventId && p.id == id

def LedgerDb.findFulfillment (db : LedgerDb) (eventId id : ℕ) : Option Fulfillment :=
  db.fulfillments.find? fun f => f.eventId == eventId && f.id == id

def LedgerDb.findByKey (db : LedgerDb) (eventId : ℕ) (key : String) : Option Fulfillment :=
  db.fulfillments.find? fun f => f.eventId == eventId && f.idempotencyKey == some key

section updates

def LedgerDb.insertPerson (db : LedgerDb) (person : Person) : LedgerDb :=
  { db with persons := db.persons.insertNew person }

def LedgerDb.insertPledge (db : LedgerDb) (pledge : Pledge) : LedgerDb :=
  { db with pledges := db.pledges.insertNew pledge }

def LedgerDb.insertFulfillment (db : LedgerDb) (f : Fulfillment) : LedgerDb :=
  { db with fulfillments := db.fulfillments.insertNew f }

def LedgerDb.insertOutbox (db : LedgerDb) (row : OutboxRow) : LedgerDb :=
  { db with outbox := db.outbox.insertNew row }

def LedgerDb.appendAudit (db : LedgerDb) (row : AuditEvent) : LedgerDb :=
  { db with auditEvents := db.auditEvents ++ [row] }

/-- UPDATE of the person with this id, as an event sees it. -/
def LedgerDb.updatePerson (db : LedgerDb) (eventId id : ℕ) (f : Person → Person)
    (hf : ∀ p, (f p).id = p.id) : LedgerDb :=
  { db with persons := db.persons.update (fun p => p.eventId == eventId && p.id == id) f hf }

def LedgerDb.updatePledge (db : LedgerDb) (eventId id : ℕ) (f : Pledge → Pledge)
    (hf : ∀ p, (f p).id = p.id) : LedgerDb :=
  { db with pledges := db.pledges.update (fun p => p.eventId == eventId && p.id == id) f hf }

def LedgerDb.setPledgeStatus (db : LedgerDb) (eventId id : ℕ) (status : Status) : LedgerDb :=
  db.updatePledge eventId id (fun p => { p with status }) fun _ => rfl

def LedgerDb.setFulfillmentValue (db : LedgerDb) (eventId id : ℕ) (value : ℕ) : LedgerDb :=
  { db with
    fulfillments := db.fulfillments.update (fun f => f.eventId == eventId && f.id == id)
      (fun f => { f with value }) fun _ => rfl }

def LedgerDb.movePledges (db : LedgerDb) (eventId sourceId targetId : ℕ) : LedgerDb :=
  { db with
    pledges := db.pledges.update (fun p => p.eventId == eventId && p.personId == sourceId)
      (fun p => { p with personId := targetId }) fun _ => rfl }

def LedgerDb.moveFiles (db : LedgerDb) (eventId sourceId targetId : ℕ) : LedgerDb :=
  { db with
    files := db.files.update (fun f => f.eventId == eventId && f.personId == some sourceId)
      (fun f => { f with personId := some targetId }) fun _ => rfl }

/-- DELETE of a person; a file or a message that named it lets go, and its group
memberships go with it. -/
def LedgerDb.deletePerson (db : LedgerDb) (eventId id : ℕ) : LedgerDb :=
  { db with
    persons := db.persons.delete fun p => p.eventId == eventId && p.id == id
    files := db.files.update (fun f => f.personId == some id)
      (fun f => { f with personId := none }) fun _ => rfl
    smsMessages := db.smsMessages.update (fun m => m.personId == some id)
      (fun m => { m with personId := none }) fun _ => rfl
    personGroups := db.personGroups.delete fun r => r.personId == id }

end updates

theorem findPledge_mem {db : LedgerDb} {e i : ℕ} {p : Pledge} (h : db.findPledge e i = some p) :
    p ∈ db.pledges ∧ p.eventId = e ∧ p.id = i := by
  simpa using Table.mem_of_find? h

theorem findFulfillment_mem {db : LedgerDb} {e i : ℕ} {f : Fulfillment}
    (h : db.findFulfillment e i = some f) :
    f ∈ db.fulfillments ∧ f.eventId = e ∧ f.id = i := by
  simpa using Table.mem_of_find? h

theorem findPerson_mem {db : LedgerDb} {e i : ℕ} {p : Person} (h : db.findPerson e i = some p) :
    p ∈ db.persons ∧ p.eventId = e ∧ p.id = i := by
  simpa using Table.mem_of_find? h

theorem findPledge_of_mem {db : LedgerDb} {p : Pledge} (h : p ∈ db.pledges) :
    db.findPledge p.eventId p.id = some p :=
  Table.find?_of_mem h (by simp) fun p' _ hp' => by simp at hp'; exact hp'.2

theorem findByKey_mem {db : LedgerDb} {e : ℕ} {k : String} {f : Fulfillment}
    (h : db.findByKey e k = some f) :
    f ∈ db.fulfillments ∧ f.eventId = e ∧ f.idempotencyKey = some k := by
  simpa using Table.mem_of_find? h

theorem mem_setFulfillmentValue {db : LedgerDb} {e i v : ℕ} {g : Fulfillment} :
    g ∈ (db.setFulfillmentValue e i v).fulfillments ↔ ∃ x ∈ db.fulfillments,
      g = if x.eventId == e && x.id == i then { x with value := v } else x := by
  simp only [LedgerDb.setFulfillmentValue, Table.mem_update]

theorem mem_updatePerson {db : LedgerDb} {e i : ℕ} {f : Person → Person}
    {hf : ∀ p, (f p).id = p.id} {q : Person} :
    q ∈ (db.updatePerson e i f hf).persons ↔ ∃ x ∈ db.persons,
      q = if x.eventId == e && x.id == i then f x else x := by
  simp only [LedgerDb.updatePerson, Table.mem_update]

theorem mem_movePledges {db : LedgerDb} {e i j : ℕ} {p : Pledge} :
    p ∈ (db.movePledges e i j).pledges ↔ ∃ x ∈ db.pledges,
      p = if x.eventId == e && x.personId == i then { x with personId := j } else x := by
  simp only [LedgerDb.movePledges, Table.mem_update]

/-- A pledge's payments are those of one payment and the others. -/
theorem sumFulfillments_eq_add_sumOthers {db : LedgerDb} {f : Fulfillment}
    (h : f ∈ db.fulfillments) :
    db.sumFulfillments f.eventId f.pledgeId =
      f.value + db.sumOthers f.eventId f.pledgeId f.id := by
  unfold LedgerDb.sumFulfillments LedgerDb.sumOthers
  rw [sumWhere_except h (by simp)]
  rfl

end Akabbo.LedgerState
