import Akabbo.LedgerState
import Akabbo.LikePatterns

/-!
# What the ledger tells

The totals of an event, its report, and the page behind its public link, each as the
statements that read the tables. Row-level security shows a statement one event.
-/
namespace Akabbo.LedgerReads
open Access PledgeStatus RowTable StatementProgram LedgerState
open StatementProgram.Program (query refuse orThrow)

/-- Percentage of target received, one decimal; null when no usable target. -/
def percentCovered (received : ℕ) (target : Option ℕ) : Option Float :=
  match target with
  | none => none
  | some target =>
      if target ≤ 0 then none
      else some (Float.round (Float.ofNat received / Float.ofNat target * 1000) / 10)

section aggregates
variable (db : LedgerDb) (eventId : ℕ)

def isLive (p : Pledge) : Bool := p.status != .cancelled

/-- `SUM(committed_value) WHERE status <> 'CANCELLED'`. -/
def committedAgg : ℕ :=
  sumWhere db.pledges.rows (fun p => p.eventId == eventId && isLive p) Pledge.committedValue

/-- `SUM(value)` over every payment of the event. -/
def receivedAgg : ℕ :=
  sumWhere db.fulfillments.rows (fun f => f.eventId == eventId) Fulfillment.value

def pledgeCount : ℕ :=
  (db.pledges.rows.filter fun p => p.eventId == eventId && isLive p).length

structure PersonRow where
  id : ℕ
  displayName : String
  committed : ℕ
  received : ℕ
  deriving DecidableEq, Repr

def committedBy (personId : ℕ) : ℕ :=
  sumWhere db.pledges.rows
    (fun p => p.eventId == eventId && p.personId == personId && isLive p) Pledge.committedValue

/-- `fulfillment f JOIN pledge pl2 ON f.pledge_id = pl2.id`, for one person. -/
def receivedFrom (personId : ℕ) : ℕ :=
  sumWhere db.fulfillments.rows
    (fun f => f.eventId == eventId && db.pledges.rows.any fun p =>
      p.eventId == eventId && p.id == f.pledgeId && p.personId == personId && isLive p)
    Fulfillment.value

/-- The per-person rollup. -/
def personRows : List PersonRow :=
  (db.persons.rows.filter fun q => q.eventId == eventId).map fun q =>
    ⟨q.id, q.displayName, committedBy db eventId q.id, receivedFrom db eventId q.id⟩

def coveredOf (budgetItemId : ℕ) : ℕ :=
  sumWhere db.allocations.rows
    (fun a => a.eventId == eventId && a.budgetItemId == budgetItemId) Allocation.value

end aggregates

/-- Largest received first, ties in row order. -/
def byReceived (rows : List PersonRow) : List PersonRow :=
  rows.insertionSort fun a b => b.received ≤ a.received

structure EventTotals where
  totalCommitted : String
  totalFulfilled : String
  totalOutstanding : String
  pledgeCount : ℕ
  deriving DecidableEq, Repr

def getEventTotals (ctx : OperationContext) : LedgerProgram EventTotals := do
  refuse (assertPermission ctx.event.role .ledgerReadAmounts)
  let (totalCommitted, count) ← query fun db =>
    (committedAgg db ctx.event.eventId, pledgeCount db ctx.event.eventId)
  let totalFulfilled ← query fun db => receivedAgg db ctx.event.eventId
  pure
    { totalCommitted := moneyToString totalCommitted
      totalFulfilled := moneyToString totalFulfilled
      totalOutstanding := moneyToString (outstanding totalCommitted totalFulfilled)
      pledgeCount := count }

structure PledgeOutstanding where
  pledgeId : ℕ
  committedValue : String
  totalFulfilled : String
  outstanding : String
  status : Status
  deriving DecidableEq, Repr

def getPledgeOutstanding (ctx : OperationContext) (pledgeId : ℕ) :
    LedgerProgram PledgeOutstanding := do
  refuse (assertPermission ctx.event.role .ledgerReadAmounts)
  let found ← query fun db => db.findPledge ctx.event.eventId pledgeId
  let pledge ← orThrow found (.notFound "Pledge not found in this event")
  let totalFulfilled ← query fun db => db.sumFulfillments ctx.event.eventId pledgeId
  pure
    { pledgeId := pledge.id
      committedValue := moneyToString pledge.committedValue
      totalFulfilled := moneyToString totalFulfilled
      outstanding := moneyToString (outstanding pledge.committedValue totalFulfilled)
      status := pledge.status }

structure TopContributor where
  personId : ℕ
  displayName : String
  committed : String
  received : String
  outstanding : String
  deriving DecidableEq, Repr

structure BudgetGap where
  budgetItemId : ℕ
  name : String
  gap : ℤ
  deriving DecidableEq, Repr

structure EventReport where
  target : Option String
  percentCovered : Option Float
  totalCommitted : String
  totalReceived : String
  totalOutstanding : String
  peopleCount : ℕ
  contributorCount : ℕ
  outstandingContributorCount : ℕ
  budgetTotal : String
  budgetAllocated : String
  budgetUnfunded : String
  biggestGap : Option (ℕ × String × String)
  topContributors : List TopContributor

/-- A person of the report with the balance it computes. -/
structure PersonBalance where
  personId : ℕ
  displayName : String
  committed : ℕ
  received : ℕ
  outstandingValue : ℕ
  deriving DecidableEq, Repr

def withBalances (rows : List PersonRow) : List PersonBalance :=
  rows.map fun r => ⟨r.id, r.displayName, r.committed, r.received,
    outstanding r.committed r.received⟩

/-- The budget line with the most still uncovered, if any is uncovered at all. -/
def biggestGap (gaps : List BudgetGap) : Option (ℕ × String × String) :=
  match gaps.insertionSort fun a b => b.gap ≤ a.gap with
  | [] => none
  | g :: _ => if g.gap > 0 then some (g.budgetItemId, g.name, toString g.gap) else none

def getEventReport (ctx : OperationContext) (topN : ℕ := 5) : LedgerProgram EventReport := do
  refuse (assertPermission ctx.event.role .ledgerReadAmounts)
  let eventId := ctx.event.eventId
  let target ← query fun db => (db.events.get? eventId).bind Event.targetAmount
  let totalCommitted ← query fun db => committedAgg db eventId
  let totalReceived ← query fun db => receivedAgg db eventId
  let peopleCount ← query fun db =>
    (db.persons.rows.filter fun q => q.eventId == eventId).length
  let rows ← query fun db => personRows db eventId
  let balances := withBalances rows
  let top := (balances.insertionSort fun a b => b.received ≤ a.received).take topN
  let budgetTotal ← query fun db =>
    sumWhere db.budgetItems.rows (fun b => b.eventId == eventId) BudgetItem.targetValue
  let budgetAllocated ← query fun db =>
    sumWhere db.allocations.rows (fun a => a.eventId == eventId) Allocation.value
  let gaps ← query fun db =>
    (db.budgetItems.rows.filter fun b => b.eventId == eventId).map fun b =>
      ({ budgetItemId := b.id, name := b.name,
         gap := (b.targetValue : ℤ) - coveredOf db eventId b.id } : BudgetGap)
  pure
    { target := target.map moneyToString
      percentCovered := percentCovered totalReceived target
      totalCommitted := moneyToString totalCommitted
      totalReceived := moneyToString totalReceived
      totalOutstanding := moneyToString (outstanding totalCommitted totalReceived)
      peopleCount
      contributorCount := (balances.filter fun r => r.committed > 0).length
      outstandingContributorCount := (balances.filter fun r => r.outstandingValue > 0).length
      budgetTotal := moneyToString budgetTotal
      budgetAllocated := moneyToString budgetAllocated
      budgetUnfunded := moneyToString (outstanding budgetTotal budgetAllocated)
      biggestGap := biggestGap gaps
      topContributors := top.map fun r => ⟨r.personId, r.displayName, moneyToString r.committed,
        moneyToString r.received, moneyToString r.outstandingValue⟩ }

inductive ContributorStatus
  | fullyPaid | partiallyPaid | pledged
  deriving DecidableEq, Repr

def contributorStatus (committed received : ℕ) : ContributorStatus :=
  if received ≥ committed then .fullyPaid
  else if received > 0 then .partiallyPaid
  else .pledged

inductive BudgetItemStatus
  | funded | partiallyFunded | unfunded
  deriving DecidableEq, Repr

structure PublicPledgePayment where
  value : String
  kind : FulfillmentKind
  occurredAt : ℕ
  deriving DecidableEq, Repr

structure PublicPledgeEntry where
  type : PledgeType
  committedValue : String
  description : Option String
  status : ContributorStatus
  outstanding : Option String
  payments : List PublicPledgePayment
  deriving DecidableEq, Repr

/-- Amounts are left out when only names are shown. -/
structure PublicContributor where
  displayName : String
  committed : Option String := none
  received : Option String := none
  outstanding : Option String := none
  status : Option ContributorStatus := none
  pledges : Option (List PublicPledgeEntry) := none
  deriving DecidableEq, Repr

structure PublicBudgetItem where
  name : String
  target : String
  covered : String
  remaining : String
  status : BudgetItemStatus
  deriving DecidableEq, Repr

structure PublicBudget where
  total : String
  covered : String
  remaining : String
  items : List PublicBudgetItem
  deriving DecidableEq, Repr

structure PublicActivityEntry where
  displayName : String
  value : String
  occurredAt : ℕ
  deriving DecidableEq, Repr

structure PublicAnnouncement where
  body : String
  publishedAt : ℕ
  deriving DecidableEq, Repr

structure PublicPaymentInstruction where
  method : PaymentMethod
  label : String
  details : String
  deriving DecidableEq, Repr

structure PublicEventView where
  slug : String
  name : String
  description : Option String
  eventDate : Option ℕ
  status : EventStatus
  currency : String
  target : Option String
  totalPledged : String
  totalReceived : String
  totalOutstanding : Option String
  remaining : Option String
  percentCovered : Option Float
  contributorCount : Option ℕ
  budget : Option PublicBudget
  contributors : Option (List PublicContributor)
  recentActivity : Option (List PublicActivityEntry)
  announcements : List PublicAnnouncement
  paymentInstructions : List PublicPaymentInstruction
  revision : ℕ
  contributorVisibility : ContributorVisibility
  budgetVisibility : BudgetVisibility
  showTarget : Bool
  showOutstanding : Bool

def recentActivityLimit : ℕ := 10

def topContributorsLimit : ℕ := 100

/-- The text of a link: in the form of an id, or a slug. -/
inductive PublicLink
  | id (id : ℕ)
  | slug (slug : String)
  deriving DecidableEq, Repr

/-- The event of a link. A slug without its suffix finds the newest public event that
begins with it, where `%`, `_` and backslashes are as in LIKE. -/
def findPublicEvent (link : PublicLink) : LedgerProgram (Option Event) :=
  match link with
  | .id id => query fun db => db.events.get? id
  | .slug slug => do
      let event ← query fun db => db.events.find? fun e => e.slug == slug
      match event with
      | some event => return some event
      | none => query fun db =>
          ((db.events.rows.filter fun e =>
            LikePatterns.startsWith e.slug slug && e.isPublic).insertionSort
              fun a b => b.createdAt ≤ a.createdAt).head?

/-- The access rules of a public link. -/
def resolve (link : PublicLink) (token : Option String) : LedgerProgram Event := do
  let found ← findPublicEvent link
  let event ← orThrow (found.filter Event.isPublic)
    (.publicEventNotFound "No public event found for this link")
  refuse (if event.publicAccessToken.isSome && token != event.publicAccessToken then
    some (.publicTokenRequired "This event link requires a valid access token") else none)
  return event

def publicPledgeEntry (p : Pledge) (payments : List Fulfillment) (showOutstanding : Bool) :
    PublicPledgeEntry :=
  let totalFulfilled := (payments.map Fulfillment.value).sum
  { type := p.type
    committedValue := moneyToString p.committedValue
    description := p.description
    status := contributorStatus p.committedValue totalFulfilled
    outstanding := if showOutstanding then
      some (moneyToString (outstanding p.committedValue totalFulfilled)) else none
    payments := payments.map fun f => ⟨moneyToString f.value, f.kind, f.occurredAt⟩ }

/-- Per-person pledges with their payments, of the people actually shown. -/
def buildPledgeBreakdown (eventId : ℕ) (personIds : List ℕ) (showOutstanding : Bool) :
    LedgerProgram (List (ℕ × PublicPledgeEntry)) :=
  if personIds = [] then pure []
  else query fun db =>
    ((db.pledges.rows.filter fun p =>
      p.eventId == eventId && personIds.contains p.personId && isLive p).insertionSort
        fun a b => a.createdAt ≤ b.createdAt).map fun p =>
      (p.personId, publicPledgeEntry p
        ((db.fulfillments.rows.filter fun f =>
          f.eventId == eventId && f.pledgeId == p.id).insertionSort
            fun a b => a.occurredAt ≤ b.occurredAt) showOutstanding)

def buildContributors (eventId : ℕ) (people : List PersonRow) (vis : ContributorVisibility)
    (showOutstanding : Bool) : LedgerProgram (Option (List PublicContributor)) :=
  let rows := (byReceived (people.filter fun r => r.committed > 0)).take topContributorsLimit
  match vis with
  | .aggregateOnly => pure none
  | .hidden => pure none
  | .namesOnly => pure (some (rows.map fun r => { displayName := r.displayName }))
  | .namesAndAmounts => do
      let pledgesByPerson ← buildPledgeBreakdown eventId (rows.map PersonRow.id) showOutstanding
      return some (rows.map fun r =>
        { displayName := r.displayName
          committed := some (moneyToString r.committed)
          received := some (moneyToString r.received)
          outstanding := if showOutstanding then
            some (moneyToString (outstanding r.committed r.received)) else none
          status := some (contributorStatus r.committed r.received)
          pledges := some ((pledgesByPerson.filter fun x => x.1 == r.id).map Prod.snd) })

/-- `fulfillment f JOIN pledge pl JOIN person pr`, newest first. -/
def buildRecentActivity (eventId : ℕ) : LedgerProgram (List PublicActivityEntry) := do
  let rows ← query fun db =>
    db.fulfillments.rows.flatMap fun f => db.pledges.rows.flatMap fun p =>
      (db.persons.rows.filter fun q =>
        f.eventId == eventId && p.eventId == eventId && q.eventId == eventId &&
          f.pledgeId == p.id && p.personId == q.id && isLive p).map fun q =>
        (⟨q.displayName, moneyToString f.value, f.occurredAt⟩ : PublicActivityEntry)
  return (rows.insertionSort fun a b => b.occurredAt ≤ a.occurredAt).take recentActivityLimit

def budgetItemStatus (target covered : ℕ) : BudgetItemStatus :=
  if covered ≥ target ∧ target > 0 then .funded
  else if covered > 0 then .partiallyFunded
  else .unfunded

def publicBudget (rows : List (String × ℕ × ℕ)) : PublicBudget :=
  let total := (rows.map fun r => r.2.1).sum
  let coveredTotal := (rows.map fun r => r.2.2).sum
  { total := moneyToString total
    covered := moneyToString coveredTotal
    remaining := moneyToString (outstanding total coveredTotal)
    items := rows.map fun (name, target, covered) =>
      { name
        target := moneyToString target
        covered := moneyToString covered
        remaining := moneyToString (outstanding target covered)
        status := budgetItemStatus target covered } }

def buildBudget (eventId : ℕ) (vis : BudgetVisibility) : LedgerProgram (Option PublicBudget) :=
  if vis = .hidden then pure none
  else do
    let rows ← query fun db =>
      ((db.budgetItems.rows.filter fun b =>
        b.eventId == eventId && (vis != .partiallyPublic || b.isPublic)).insertionSort
          fun a b => a.createdAt ≤ b.createdAt).map fun b =>
        (b.name, b.targetValue, coveredOf db eventId b.id)
    return some (publicBudget rows)

/-- A missing publication time sorts first, as NULL does, and is shown as time zero. -/
def publishedAnnouncements (eventId : ℕ) : LedgerProgram (List PublicAnnouncement) := do
  let rows ← query fun db =>
    (db.announcements.rows.filter fun a =>
      a.eventId == eventId && a.status == .published).insertionSort fun a b =>
        a.publishedAt = none ∨ b.publishedAt ≠ none ∧
          b.publishedAt.getD 0 ≤ a.publishedAt.getD 0
  return rows.map fun a => ⟨a.body, a.publishedAt.getD 0⟩

def publicPaymentInstructions (eventId : ℕ) : LedgerProgram (List PublicPaymentInstruction) := do
  let rows ← query fun db =>
    (db.paymentInstructions.rows.filter fun i =>
      i.eventId == eventId && i.isPublic).insertionSort fun a b =>
        a.displayOrder < b.displayOrder ∨
          a.displayOrder = b.displayOrder ∧ a.createdAt ≤ b.createdAt
  return rows.map fun i => ⟨i.method, i.label, i.details⟩

/-- The page of an event that a link resolved to. -/
def publicEventView (event : Event) : LedgerProgram PublicEventView := do
  let totalPledged ← query fun db => committedAgg db event.id
  let totalReceived ← query fun db => receivedAgg db event.id
  let target := event.targetAmount
  let remaining := target.map fun target => outstanding target totalReceived
  let people ← query fun db => personRows db event.id
  let vis := event.contributorVisibility
  let contributors ← buildContributors event.id people vis event.showOutstanding
  let recentActivity ← (match vis with
    | .namesAndAmounts => some <$> buildRecentActivity event.id
    | _ => pure none)
  let budget ← buildBudget event.id event.budgetVisibility
  let announcements ← publishedAnnouncements event.id
  let paymentInstructions ← publicPaymentInstructions event.id
  pure
    { slug := event.slug
      name := event.name
      description := event.description
      eventDate := event.eventDate
      status := event.status
      currency := event.currency
      target := if event.showTarget then target.map moneyToString else none
      totalPledged := moneyToString totalPledged
      totalReceived := moneyToString totalReceived
      totalOutstanding := if event.showOutstanding then
        some (moneyToString (outstanding totalPledged totalReceived)) else none
      remaining := if event.showTarget then remaining.map moneyToString else none
      percentCovered := if event.showTarget then percentCovered totalReceived target else none
      contributorCount := if vis = .hidden then none
        else some (people.filter fun r => r.committed > 0).length
      budget
      contributors
      recentActivity
      announcements
      paymentInstructions
      revision := event.publicRevision
      contributorVisibility := vis
      budgetVisibility := event.budgetVisibility
      showTarget := event.showTarget
      showOutstanding := event.showOutstanding }

def getPublicEventView (link : PublicLink) (token : Option String) :
    LedgerProgram PublicEventView := do
  let event ← resolve link token
  publicEventView event

end Akabbo.LedgerReads
