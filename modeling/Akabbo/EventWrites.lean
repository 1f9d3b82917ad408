import Akabbo.LedgerWrites

/-!
# The services around the ledger

Events and their public settings, the team and its invitations, contacts, groups, the
budget, files and documents: every write as its database statements, in source order.
-/
namespace Akabbo.EventWrites
open Access PledgeStatus RowTable StatementProgram LedgerState LedgerWrites
open StatementProgram.Program (query modify modifyChecked accept refuse orThrow runIf commitNow)

/-- What the world supplies to one of these calls: the time, the id of the row it inserts
(and of a first budget), a random token or slug, and the answers of the plan checks. -/
structure EventDraw where
  now : ℕ
  rowId : ℕ
  budgetId : ℕ
  token : String
  seat : EntitlementDecision
  maxActiveEvents : Option ℕ
  deriving DecidableEq, Repr

/-- A write that the database refuses on these violations. -/
def change (locks : List RowLock) (violation : LedgerDb → Option Refusal)
    (w : LedgerDb → LedgerDb) : LedgerProgram Unit :=
  modifyChecked (fun _ => locks) (fun db => accept (violation db)) w

def EventStatus.name : EventStatus → String
  | .draft => "DRAFT"
  | .active => "ACTIVE"
  | .paused => "PAUSED"
  | .closed => "CLOSED"
  | .archived => "ARCHIVED"

structure CreateEventInput where
  name : String
  currency : Option String := none
  targetAmount : Option ℕ := none
  eventDate : Option ℕ := none
  timezone : Option String := none
  country : Option String := none
  deriving DecidableEq, Repr

structure UpdateEventInput where
  name : Option String := none
  targetAmount : Option ℕ := none
  eventDate : Option ℕ := none
  deriving DecidableEq, Repr

structure EventSummary where
  id : ℕ
  name : String
  slug : String
  status : EventStatus
  currency : String
  targetAmount : Option String
  eventDate : Option ℕ
  timezone : String
  country : String
  ownerUserId : ℕ
  deriving DecidableEq, Repr

def toSummary (e : Event) : EventSummary :=
  ⟨e.id, e.name, e.slug, e.status, e.currency, e.targetAmount.map moneyToString, e.eventDate,
    e.timezone, e.country, e.ownerUserId⟩

/-- `amount ? moneyToString(amount) : null`, in which zero counts as none. -/
def amountOrNull (amount : Option ℕ) : Json :=
  match amount with
  | some (value + 1) => .text (moneyToString (value + 1))
  | _ => .null

def dateOrNull (date : Option ℕ) : Json := (date.map Json.count).getD .null

/-- The owner's ceiling of active events; `maxActiveEvents` is what the plan allows. -/
def assertCanCreateEvent (userId : ℕ) (maxActiveEvents : Option ℕ) : LedgerProgram Unit :=
  match maxActiveEvents with
  | none => pure ()
  | some max => do
      let active ← query fun db => (db.events.rows.filter fun e =>
        e.ownerUserId == userId && isWritable e.status).length
      refuse (if active ≥ max then
        some (.forbidden (if max = 1 then
          "Your free plan covers 1 active event. Close it, upgrade it to a paid pack, or " ++
            "subscribe to run another."
        else s!"Your plan covers {max} active events. Close one or upgrade to run more."))
        else none)

def insertEvent (event : Event) : LedgerProgram Unit :=
  change [.event event.id, .eventSlug event.slug]
    (fun db =>
      if db.events.has event.id then some (.uniqueViolation "event")
      else if db.events.rows.any fun e => e.slug == event.slug then some (.uniqueViolation "event")
      else none)
    fun db => { db with events := db.events.insertNew event }

def insertMember (member : EventMember) : LedgerProgram Unit :=
  change [.member member.eventId member.userId]
    (fun db =>
      if db.members.has member.key then some (.uniqueViolation "event_member")
      else if !db.users.has member.userId then some (.foreignKeyViolation "event_member")
      else none)
    fun db => { db with members := db.members.insertNew member }

/-- `upsert` on the pair of event and user. -/
def upsertMember (member : EventMember) (update : EventMember → EventMember)
    (hu : ∀ m, (update m).key = m.key) : LedgerProgram Unit :=
  change [.member member.eventId member.userId]
    (fun db => if !db.users.has member.userId then some (.foreignKeyViolation "event_member")
      else none)
    fun db =>
      if db.members.has member.key then
        { db with members := db.members.update (fun m => decide (m.key = member.key)) update hu }
      else { db with members := db.members.insertNew member }

def createEvent (actor : Actor) (input : CreateEventInput) (draw : EventDraw) :
    LedgerProgram EventSummary := do
  assertCanCreateEvent actor.userId draw.maxActiveEvents
  let event : Event :=
    { id := draw.rowId
      ownerUserId := actor.userId
      slug := draw.token
      name := input.name
      eventDate := input.eventDate
      currency := input.currency.getD "UGX"
      timezone := input.timezone.getD "Africa/Kampala"
      country := input.country.getD "UG"
      targetAmount := input.targetAmount
      createdAt := draw.now }
  insertEvent event
  insertMember ⟨event.id, actor.userId, .owner, .active, none⟩
  writeAudit ⟨actor, ⟨event.id, .owner, event.status⟩⟩ "event:create" "event" event.id .humanTyped
    none (some [("name", .text event.name), ("currency", .text event.currency),
      ("targetAmount", amountOrNull event.targetAmount)])
  return toSummary event

/-- `prisma.event.update`; events are not under row-level security. -/
def updateEventRow (eventId : ℕ) (f : Event → Event) (hf : ∀ e, (f e).id = e.id) :
    LedgerProgram Event :=
  modifyChecked (fun _ => [.event eventId])
    (fun db => match db.events.get? eventId with
      | some e => .ok (f e)
      | none => .error (.recordNotFound "event"))
    fun db => { db with events := db.events.update (fun e => e.id == eventId) f hf }

def UpdateEventInput.apply (input : UpdateEventInput) (e : Event) : Event :=
  { e with
    name := input.name.getD e.name
    targetAmount := input.targetAmount <|> e.targetAmount
    eventDate := input.eventDate <|> e.eventDate }

/-- The row is changed outside the transaction that writes its audit row. -/
def updateEvent (ctx : OperationContext) (input : UpdateEventInput) :
    LedgerProgram EventSummary := do
  gates ctx .eventUpdate
  let found ← query fun db => db.events.get? ctx.event.eventId
  let before ← orThrow found (.notFound "Event not found")
  let updated ← updateEventRow ctx.event.eventId input.apply fun _ => rfl
  commitNow
  writeAudit ctx "event:update" "event" ctx.event.eventId .humanTyped
    (some [("name", .text before.name), ("targetAmount", amountOrNull before.targetAmount),
      ("eventDate", dateOrNull before.eventDate)])
    (some [("name", .text updated.name), ("targetAmount", amountOrNull updated.targetAmount),
      ("eventDate", dateOrNull updated.eventDate)])
  return toSummary updated

/-- Any status may follow any other; a closed event can be reopened. -/
def setEventStatus (ctx : OperationContext) (status : EventStatus) : LedgerProgram EventSummary := do
  refuse (assertPermission ctx.event.role .eventUpdate)
  let found ← query fun db => db.events.get? ctx.event.eventId
  let before ← orThrow found (.notFound "Event not found")
  let updated ← updateEventRow ctx.event.eventId (fun e => { e with status }) fun _ => rfl
  commitNow
  writeAudit ctx "event:set_status" "event" ctx.event.eventId .humanTyped
    (some [("status", .text (EventStatus.name before.status))])
    (some [("status", .text (EventStatus.name status))])
  return toSummary updated

structure UpdatePublicSettingsInput where
  isPublic : Option Bool := none
  contributorVisibility : Option ContributorVisibility := none
  budgetVisibility : Option BudgetVisibility := none
  showTarget : Option Bool := none
  showOutstanding : Option Bool := none
  /-- `some none` clears it. -/
  description : Option (Option String) := none
  deriving DecidableEq, Repr

structure PublicSettingsView where
  slug : String
  isPublic : Bool
  accessToken : Option String
  contributorVisibility : ContributorVisibility
  budgetVisibility : BudgetVisibility
  showTarget : Bool
  showOutstanding : Bool
  description : Option String
  revision : ℕ
  deriving DecidableEq, Repr

def toSettingsView (e : Event) : PublicSettingsView :=
  ⟨e.slug, e.isPublic, e.publicAccessToken, e.contributorVisibility, e.budgetVisibility,
    e.showTarget, e.showOutstanding, e.description, e.publicRevision⟩

def settingsSnapshot (e : Event) : List (String × Json) :=
  [("isPublic", .flag e.isPublic),
    ("contributorVisibility", .text e.contributorVisibility.name),
    ("budgetVisibility", .text e.budgetVisibility.name),
    ("showTarget", .flag e.showTarget), ("showOutstanding", .flag e.showOutstanding)]

def UpdatePublicSettingsInput.apply (input : UpdatePublicSettingsInput) (before e : Event) : Event :=
  { e with
    isPublic := input.isPublic.getD before.isPublic
    contributorVisibility := input.contributorVisibility.getD before.contributorVisibility
    budgetVisibility := input.budgetVisibility.getD before.budgetVisibility
    showTarget := input.showTarget.getD before.showTarget
    showOutstanding := input.showOutstanding.getD before.showOutstanding
    description := input.description.getD before.description
    publicRevision := e.publicRevision + 1 }

def updateSettings (ctx : OperationContext) (input : UpdatePublicSettingsInput) :
    LedgerProgram PublicSettingsView := do
  refuse (assertPermission ctx.event.role .publicConfigure)
  let found ← query fun db => db.events.get? ctx.event.eventId
  let before ← orThrow found (.recordNotFound "event")
  let updated ← updateEventRow ctx.event.eventId (input.apply before) fun _ => rfl
  writeAudit ctx "public:configure" "event" ctx.event.eventId .humanTyped
    (some (settingsSnapshot before)) (some (settingsSnapshot updated))
  return toSettingsView updated

/-- The audit row says that the token changed, never what it is. -/
def setToken (ctx : OperationContext) (token : Option String) (action : String) :
    LedgerProgram PublicSettingsView := do
  let updated ← updateEventRow ctx.event.eventId
    (fun e => { e with publicAccessToken := token, publicRevision := e.publicRevision + 1 })
    fun _ => rfl
  writeAudit ctx action "event" ctx.event.eventId .humanTyped none
    (some [("hasToken", .flag token.isSome)])
  return toSettingsView updated

def rotateAccessToken (ctx : OperationContext) (draw : EventDraw) :
    LedgerProgram PublicSettingsView := do
  refuse (assertPermission ctx.event.role .publicConfigure)
  setToken ctx (some draw.token) "public:token_rotate"

def clearAccessToken (ctx : OperationContext) : LedgerProgram PublicSettingsView := do
  refuse (assertPermission ctx.event.role .publicConfigure)
  setToken ctx none "public:token_clear"

/-- Add a member, or give one another role. -/
def addMember (ctx : OperationContext) (targetUserId : ℕ) (role : EventRole) :
    LedgerProgram (ℕ × EventRole) := do
  gates ctx .memberManage
  let user ← query fun db => db.users.get? targetUserId
  let _ ← orThrow user (.notFound "User not found")
  let existing ← query fun db => db.members.get? (ctx.event.eventId, targetUserId)
  upsertMember ⟨ctx.event.eventId, targetUserId, role, .active, some ctx.actor.userId⟩
    (fun m => { m with role, status := .active }) fun _ => rfl
  writeAudit ctx (if existing.isSome then "member:rerole" else "member:add") "event_member"
    targetUserId .humanTyped (existing.map fun m => [("role", .text m.role.name)])
    (some [("role", .text role.name)])
  return (targetUserId, role)

def updateRole (ctx : OperationContext) (targetUserId : ℕ) (role : EventRole) :
    LedgerProgram (ℕ × EventRole) := addMember ctx targetUserId role

structure CreateInvitationInput where
  role : EventRole
  invitedPhone : Option String := none
  maxUses : Option ℕ := none
  ttlSeconds : Option ℕ := none
  deriving DecidableEq, Repr

structure InvitationView where
  id : ℕ
  token : String
  role : EventRole
  status : InvitationStatus
  expiresAt : ℕ
  deriving DecidableEq, Repr

def defaultTtlSeconds : ℕ := 7 * 24 * 60 * 60

def insertInvitation (inv : Invitation) : LedgerProgram Unit :=
  change [.invitation inv.id, .invitationToken inv.token]
    (fun db =>
      if db.invitations.has inv.id then some (.uniqueViolation "invitation")
      else if db.invitations.rows.any fun i => i.token == inv.token then
        some (.uniqueViolation "invitation")
      else none)
    fun db => { db with invitations := db.invitations.insertNew inv }

/-- The refusal of an invitation to someone who is already in. -/
def alreadyMember (phone : String) (existing : Option EventMember) : Option Refusal :=
  existing.bind fun m => if m.status = .active then
    some (.badRequest (s!"User with phone number {phone} is already a member of this event " ++
      s!"with role {m.role.name}."))
    else none

/-- The membership lookup runs outside any tenant, where row-level security shows no row. -/
def assertNotMember (invitedPhone : Option String) : LedgerProgram Unit :=
  let phone := invitedPhone.getD ""
  runIf (phone != "") do
    let existingUser ← query fun db => db.users.find? fun u => u.phone == some phone
    runIf existingUser.isSome do
      let existingMembership ← query fun _ => (none : Option EventMember)
      refuse (alreadyMember phone existingMembership)

def createInvitation (ctx : OperationContext) (input : CreateInvitationInput) (draw : EventDraw) :
    LedgerProgram InvitationView := do
  gates ctx .memberManage
  assertNotMember input.invitedPhone
  refuse (if draw.seat.allowed then none
    else some (.forbidden (draw.seat.message.getD "Team seat limit reached")))
  let expiresAt := draw.now + input.ttlSeconds.getD defaultTtlSeconds * 1000
  insertInvitation
    { id := draw.rowId
      eventId := ctx.event.eventId
      token := draw.token
      role := input.role
      status := .pending
      invitedPhone := input.invitedPhone
      invitedById := ctx.actor.userId
      maxUses := input.maxUses.getD 1
      uses := 0
      expiresAt
      acceptedById := none
      acceptedAt := none }
  return ⟨draw.rowId, draw.token, input.role, .pending, expiresAt⟩

def updateInvitation (id : ℕ) (f : Invitation → Invitation) (hf : ∀ i, (f i).id = i.id) :
    LedgerProgram Unit :=
  change [.invitation id]
    (fun db => if !db.invitations.has id then some (.recordNotFound "invitation") else none)
    fun db => { db with invitations := db.invitations.update (fun i => i.id == id) f hf }

/-- The membership of an accepted invitation, with the invitation as it was read before. -/
def join (actor : Actor) (inv : Invitation) (now : ℕ) : LedgerProgram (ℕ × EventRole × Bool) := do
  let existing ← query fun db => db.members.get? (inv.eventId, actor.userId)
  match existing.filter fun m => decide (m.status = .active) with
  | some m => return (inv.eventId, m.role, true)
  | none => do
      refuse (if inv.uses ≥ inv.maxUses then
        some (.forbidden "This invitation has already been used") else none)
      upsertMember ⟨inv.eventId, actor.userId, inv.role, .active, some inv.invitedById⟩
        (fun m => { m with
          role := inv.role, status := .active, invitedById := some inv.invitedById }) fun _ => rfl
      let uses := inv.uses + 1
      updateInvitation inv.id (fun i => { i with
        uses
        status := if uses ≥ inv.maxUses then .accepted else .pending
        acceptedById := some actor.userId
        acceptedAt := some now }) fun _ => rfl
      writeAudit ⟨actor, ⟨inv.eventId, inv.role, .active⟩⟩ "member:accept_invitation" "event_member"
        actor.userId .humanTyped none
        (some [("role", .text inv.role.name), ("invitationId", .id inv.id)])
      return (inv.eventId, inv.role, false)

/-- A late arrival marks the invitation expired, on its own, and is refused. -/
def acceptInvitation (actor : Actor) (token : String) (now : ℕ) :
    LedgerProgram (ℕ × EventRole × Bool) := do
  let found ← query fun db => db.invitations.find? fun i => i.token == token
  let inv ← orThrow found (.notFound "Invitation not found")
  refuse (if inv.status = .revoked then
    some (.forbidden "This invitation has been revoked") else none)
  if inv.status = .expired ∨ inv.expiresAt ≤ now then do
    runIf (inv.status != .expired)
      (updateInvitation inv.id (fun i => { i with status := .expired }) fun _ => rfl)
    commitNow
    .throw (.forbidden "This invitation has expired")
  else join actor inv now

def revokeInvitation (ctx : OperationContext) (invitationId : ℕ) : LedgerProgram Unit := do
  refuse (assertPermission ctx.event.role .memberManage)
  let found ← query fun db => db.invitations.find? fun i =>
    i.id == invitationId && i.eventId == ctx.event.eventId
  let inv ← orThrow found (.notFound "Invitation not found")
  updateInvitation inv.id (fun i => { i with status := .revoked }) fun _ => rfl

def assertPhoneFree (ctx : OperationContext) (phone : String) (confirmSharedPhone : Bool)
    (excludePersonId : ℕ) : LedgerProgram Unit :=
  runIf (!confirmSharedPhone) do
    let existing ← query fun db => oldest <| db.persons.rows.filter fun p =>
      p.eventId == ctx.event.eventId && p.phone == some phone && p.id != excludePersonId
    refuse (existing.map fun p => .phoneAlreadyAttached p.id p.displayName phone)

def personView (p : Person) : PersonView := ⟨p.id, p.displayName, p.phone, p.source, p.userId⟩

/-- `tx.person.update` of one visible row, returning the row it wrote. -/
def setPhone (eventId id : ℕ) (phone : String) : LedgerProgram Person :=
  modifyChecked (fun _ => [.person id])
    (fun db => match db.findPerson eventId id with
      | some p => .ok { p with phone := some phone }
      | none => .error (.recordNotFound "person"))
    fun db => db.updatePerson eventId id (fun p => { p with phone := some phone }) fun _ => rfl

def textOrNull (text : Option String) : Json := (text.map Json.text).getD .null

def idOrNull (id : Option ℕ) : Json := (id.map Json.id).getD .null

def updateContact (ctx : OperationContext) (personId : ℕ) (phone : String)
    (confirmSharedPhone : Bool) : LedgerProgram PersonView := do
  gates ctx .personWrite
  let found ← query fun db => db.findPerson ctx.event.eventId personId
  let before ← orThrow found (.notFound "Person not found in this event")
  runIf (some phone != before.phone) (assertPhoneFree ctx phone confirmSharedPhone personId)
  let updated ← setPhone ctx.event.eventId personId phone
  writeAudit ctx "person:update_contact" "person" personId .humanTyped
    (some [("phone", textOrNull before.phone)]) (some [("phone", .text phone)])
  return personView updated

/-- The unique violation of an account that another person holds is reported as a conflict. -/
def linkUser (eventId personId userId : ℕ) : LedgerProgram Unit :=
  change [.person personId]
    (fun db =>
      if (db.findPerson eventId personId).isNone then some (.recordNotFound "person")
      else if db.persons.rows.any fun p =>
          p.eventId == eventId && p.userId == some userId && p.id != personId then
        some (.conflict "That account is already linked to a different person in this event")
      else none)
    fun db => db.updatePerson eventId personId (fun p => { p with userId := some userId })
      fun _ => rfl

def linkPersonToUser (ctx : OperationContext) (personId userId : ℕ) : LedgerProgram PersonView := do
  gates ctx .personWrite
  let found ← query fun db => db.findPerson ctx.event.eventId personId
  let person ← orThrow found (.notFound "Person not found in this event")
  refuse (if person.userId.any (· != userId) then
    some (.conflict "This person is already linked to another account") else none)
  linkUser ctx.event.eventId personId userId
  runIf (person.userId != some userId)
    (writeAudit ctx "person:link_user" "person" personId .humanTyped
      (some [("userId", idOrNull person.userId)]) (some [("userId", .id userId)]))
  return personView { person with userId := some userId }

structure GroupView where
  id : ℕ
  name : String
  kind : GroupKind
  memberCount : ℕ
  deriving DecidableEq, Repr

def createGroup (ctx : OperationContext) (name : String) (kind : GroupKind) (draw : EventDraw) :
    LedgerProgram GroupView := do
  gates ctx .groupWrite
  change [.group draw.rowId]
    (fun db => if db.groups.has draw.rowId then some (.uniqueViolation "contributor_group")
      else none)
    fun db => { db with
      groups := db.groups.insertNew
        ⟨draw.rowId, ctx.event.eventId, name, kind, some ctx.actor.userId⟩ }
  writeAudit ctx "group:create" "contributor_group" draw.rowId .humanTyped none
    (some [("name", .text name), ("kind", .text kind.name)])
  return ⟨draw.rowId, name, kind, 0⟩

/-- The unique violation that the service swallows has already aborted the transaction. -/
def personGroupViolation (db : LedgerDb) (row : PersonGroup) : Option Refusal :=
  if db.personGroups.has row.key then some .transactionAborted
  else if !db.persons.has row.personId || !db.groups.has row.groupId then
    some (.foreignKeyViolation "person_group")
  else none

def assignPerson (ctx : OperationContext) (personId groupId : ℕ) (role : Option String) :
    LedgerProgram (ℕ × ℕ) := do
  gates ctx .groupWrite
  let foundPerson ← query fun db => db.findPerson ctx.event.eventId personId
  let foundGroup ← query fun db => db.groups.find? fun g =>
    g.eventId == ctx.event.eventId && g.id == groupId
  let _ ← orThrow foundPerson (.notFound "Person not found in this event")
  let _ ← orThrow foundGroup (.notFound "Group not found in this event")
  change [.personGroup personId groupId]
    (fun db => personGroupViolation db ⟨ctx.event.eventId, personId, groupId, role⟩)
    fun db => { db with
      personGroups := db.personGroups.insertNew ⟨ctx.event.eventId, personId, groupId, role⟩ }
  writeAudit ctx "group:assign" "person_group" personId .humanTyped none
    (some [("personId", .id personId), ("groupId", .id groupId), ("role", textOrNull role)])
  return (personId, groupId)

structure BudgetItemInput where
  name : String
  targetValue : ℕ
  source : Option ProvenanceSource := none
  sourceDocumentId : Option ℕ := none
  deriving DecidableEq, Repr

structure BudgetItemView where
  id : ℕ
  name : String
  targetValue : String
  source : ProvenanceSource
  sourceDocumentId : Option ℕ
  version : ℕ
  deriving DecidableEq, Repr

def budgetItemView (i : BudgetItem) : BudgetItemView :=
  ⟨i.id, i.name, moneyToString i.targetValue, i.source, i.sourceDocumentId, i.version⟩

/-- The event's budget, made on first use. -/
def ensureBudget (eventId budgetId : ℕ) : LedgerProgram ℕ := do
  let existing ← query fun db => db.budgets.find? fun b => b.eventId == eventId
  match existing with
  | some b => return b.id
  | none => do
      change [.budget budgetId]
        (fun db => if db.budgets.has budgetId then some (.uniqueViolation "budget") else none)
        fun db => { db with budgets := db.budgets.insertNew ⟨budgetId, eventId⟩ }
      return budgetId

/-- The document of any event satisfies the foreign key. -/
def budgetItemViolation (db : LedgerDb) (item : BudgetItem) : Option Refusal :=
  if db.budgetItems.has item.id then some (.uniqueViolation "budget_item")
  else if item.sourceDocumentId.any fun d => !db.documents.has d then
    some (.foreignKeyViolation "budget_item")
  else none

def addItem (ctx : OperationContext) (input : BudgetItemInput) (draw : EventDraw) :
    LedgerProgram BudgetItemView := do
  gates ctx .budgetWrite
  let budgetId ← ensureBudget ctx.event.eventId draw.budgetId
  let source := input.source.getD .humanTyped
  let item : BudgetItem :=
    { id := draw.rowId
      eventId := ctx.event.eventId
      budgetId
      name := input.name
      targetValue := input.targetValue
      isPublic := true
      source
      sourceDocumentId := input.sourceDocumentId
      createdById := some ctx.actor.userId
      version := 1
      createdAt := draw.now }
  change [.budgetItem item.id] (fun db => budgetItemViolation db item)
    fun db => { db with budgetItems := db.budgetItems.insertNew item }
  writeAudit ctx "budget_item:create" "budget_item" item.id source none
    (some [("name", .text item.name), ("targetValue", .text (moneyToString item.targetValue))])
  return budgetItemView item

def findBudgetItem (db : LedgerDb) (eventId id : ℕ) : Option BudgetItem :=
  db.budgetItems.find? fun i => i.eventId == eventId && i.id == id

structure UpdateItemInput where
  name : Option String := none
  targetValue : Option ℕ := none
  isPublic : Option Bool := none
  expectedVersion : Option ℕ := none
  deriving DecidableEq, Repr

/-- The name and the value are set to what was read, where the caller leaves them out. -/
def UpdateItemInput.apply (input : UpdateItemInput) (current item : BudgetItem) : BudgetItem :=
  { item with
    name := input.name.getD current.name
    targetValue := input.targetValue.getD current.targetValue
    isPublic := input.isPublic.getD item.isPublic
    version := item.version + 1 }

def updateItem (ctx : OperationContext) (itemId : ℕ) (input : UpdateItemInput) :
    LedgerProgram BudgetItemView := do
  gates ctx .budgetWrite
  let found ← query fun db => findBudgetItem db ctx.event.eventId itemId
  let current ← orThrow found (.notFound "Budget item not found in this event")
  refuse (if input.expectedVersion.any (· != current.version) then
    some (.conflict "The budget changed since you loaded it — reload and try again") else none)
  let updated ← modifyChecked (fun _ => [.budgetItem itemId])
    (fun db => match findBudgetItem db ctx.event.eventId itemId with
      | some i => .ok (input.apply current i)
      | none => .error (.recordNotFound "budget_item"))
    fun db => { db with
      budgetItems := db.budgetItems.update
        (fun i => i.eventId == ctx.event.eventId && i.id == itemId) (input.apply current)
        fun _ => rfl }
  writeAudit ctx "budget_item:update" "budget_item" itemId .manualCorrection
    (some [("name", .text current.name),
      ("targetValue", .text (moneyToString current.targetValue))])
    (some [("name", .text updated.name),
      ("targetValue", .text (moneyToString updated.targetValue))])
  return budgetItemView updated

/-- DELETE of a budget line; a pledge that was meant for it lets go. -/
def deleteBudgetItem (db : LedgerDb) (eventId id : ℕ) : LedgerDb :=
  { db with
    budgetItems := db.budgetItems.delete fun i => i.eventId == eventId && i.id == id
    pledges := db.pledges.update (fun p => p.targetBudgetItemId == some id)
      (fun p => { p with targetBudgetItemId := none }) fun _ => rfl }

def removeItem (ctx : OperationContext) (itemId : ℕ) : LedgerProgram (ℕ × String) := do
  gates ctx .budgetWrite
  let found ← query fun db => findBudgetItem db ctx.event.eventId itemId
  let item ← orThrow found (.notFound "Budget item not found in this event")
  let allocated ← query fun db => (db.allocations.rows.filter fun a =>
    a.eventId == ctx.event.eventId && a.budgetItemId == itemId).length
  refuse (if allocated > 0 then
    some (.conflict (s!"\"{item.name}\" has money allocated to it — reallocate before " ++
      "removing it")) else none)
  change [.budgetItem itemId]
    (fun db =>
      if (findBudgetItem db ctx.event.eventId itemId).isNone then
        some (.recordNotFound "budget_item")
      else if db.allocations.rows.any fun a => a.budgetItemId == itemId then
        some (.foreignKeyViolation "allocation")
      else none)
    fun db => deleteBudgetItem db ctx.event.eventId itemId
  writeAudit ctx "budget_item:delete" "budget_item" itemId .manualCorrection
    (some [("name", .text item.name), ("targetValue", .text (moneyToString item.targetValue))]) none
  return (item.id, item.name)

structure AllocationView where
  id : ℕ
  fulfillmentId : ℕ
  budgetItemId : ℕ
  value : String
  deriving DecidableEq, Repr

def allocationViolation (db : LedgerDb) (a : Allocation) : Option Refusal :=
  if db.allocations.has a.id then some (.uniqueViolation "allocation")
  else if !db.fulfillments.has a.fulfillmentId || !db.budgetItems.has a.budgetItemId then
    some (.foreignKeyViolation "allocation")
  else none

/-- The value is not compared with the payment's. -/
def allocate (ctx : OperationContext) (fulfillmentId budgetItemId value : ℕ) (draw : EventDraw) :
    LedgerProgram AllocationView := do
  gates ctx .budgetWrite
  let foundFulfillment ← query fun db => db.findFulfillment ctx.event.eventId fulfillmentId
  let _ ← orThrow foundFulfillment (.notFound "Fulfillment not found in this event")
  let foundItem ← query fun db => findBudgetItem db ctx.event.eventId budgetItemId
  let _ ← orThrow foundItem (.notFound "Budget item not found in this event")
  change [.allocation draw.rowId]
    (fun db => allocationViolation db
      ⟨draw.rowId, ctx.event.eventId, fulfillmentId, budgetItemId, value⟩)
    fun db => { db with
      allocations := db.allocations.insertNew
        ⟨draw.rowId, ctx.event.eventId, fulfillmentId, budgetItemId, value⟩ }
  writeAudit ctx "allocation:create" "allocation" draw.rowId .humanTyped none
    (some [("fulfillmentId", .id fulfillmentId), ("budgetItemId", .id budgetItemId),
      ("value", .text (moneyToString value))])
  return ⟨draw.rowId, fulfillmentId, budgetItemId, moneyToString value⟩

structure UploadFileInput where
  kind : FileKind
  mimeType : String
  sizeBytes : ℕ
  sha256 : String
  filename : Option String := none
  personId : Option ℕ := none
  deriving DecidableEq, Repr

def allowedMime : List String :=
  ["image/png", "image/jpeg", "image/webp", "application/pdf",
    "application/vnd.openxmlformats-officedocument.wordprocessingml.document",
    "application/vnd.openxmlformats-officedocument.spreadsheetml.sheet"]

def extractableMime : List String := ["image/png", "image/jpeg", "image/webp", "application/pdf"]

def fileViolation (db : LedgerDb) (f : FileObject) : Option Refusal :=
  if db.files.has f.id then some (.uniqueViolation "file_object")
  else if f.personId.any fun p => !db.persons.has p then some (.foreignKeyViolation "file_object")
  else none

/-- The bytes go to storage before the transaction; the row indexes them. -/
def upload (ctx : OperationContext) (maxBytes : ℕ) (input : UploadFileInput) (draw : EventDraw) :
    LedgerProgram FileObject := do
  gates ctx .documentUpload
  refuse (if input.mimeType ∈ allowedMime then none
    else some (.badRequest s!"Unsupported file type: {input.mimeType}"))
  refuse (if input.sizeBytes = 0 then some (.badRequest "Empty file") else none)
  refuse (if input.sizeBytes > maxBytes then
    some (.badRequest s!"File exceeds {maxBytes} bytes") else none)
  match input.personId with
  | some personId => do
      let person ← query fun db => db.findPerson ctx.event.eventId personId
      let _ ← orThrow person (.notFound "Person not found in this event")
      insertFile
  | none => insertFile
where
  insertFile : LedgerProgram FileObject := do
    let file : FileObject :=
      { id := draw.rowId
        eventId := ctx.event.eventId
        personId := input.personId
        kind := input.kind
        storageKey := draw.token
        mimeType := input.mimeType
        sizeBytes := input.sizeBytes
        sha256 := input.sha256
        originalFilename := input.filename
        uploadedById := some ctx.actor.userId }
    change [.file file.id] (fun db => fileViolation db file)
      fun db => { db with files := db.files.insertNew file }
    writeAudit ctx "file:upload" "file_object" file.id .humanTyped none
      (some [("kind", .text file.kind.name), ("mimeType", .text file.mimeType),
        ("sha256", .text file.sha256)])
    return file

def documentViolation (db : LedgerDb) (d : Document) : Option Refusal :=
  if db.documents.has d.id then some (.uniqueViolation "document")
  else if !db.files.has d.fileId then some (.foreignKeyViolation "document")
  else none

def submitForExtraction (ctx : OperationContext) (fileId : ℕ) (kind : ExtractionKind)
    (draw : EventDraw) : LedgerProgram Document := do
  gates ctx .documentUpload
  let found ← query fun db => db.files.find? fun f =>
    f.eventId == ctx.event.eventId && f.id == fileId
  let file ← orThrow found (.notFound "File not found in this event")
  refuse (if file.mimeType ∈ extractableMime then none
    else some (.badRequest s!"Cannot extract from {file.mimeType} — upload an image or PDF"))
  let doc : Document :=
    ⟨draw.rowId, ctx.event.eventId, fileId, kind, .uploaded, none, some ctx.actor.userId⟩
  change [.document doc.id] (fun db => documentViolation db doc)
    fun db => { db with documents := db.documents.insertNew doc }
  writeAudit ctx "document:submit" "document" doc.id .humanTyped none
    (some [("fileId", .id fileId), ("kind", .text kind.name)])
  enqueue ⟨s!"document:{doc.id}", ctx.event.eventId, "document.uploaded",
    [("documentId", .id doc.id)]⟩
  return doc

end Akabbo.EventWrites
