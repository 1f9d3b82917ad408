import Akabbo.Confirmations
import Akabbo.LedgerReads

/-!
# Reports and the other reads of a member

The report service with its filters, pages and CSV export, who funded a budget line, the
redacted funding summary, the budget's coverage, and the actions that wait.
-/
namespace Akabbo.Reports
open Access PledgeStatus RowTable StatementProgram LedgerState LedgerReads ToolExecutor Confirmations
open StatementProgram.Program (query refuse orThrow)

inductive ReportType
  | contributors | pledges | outstanding | budget | payments
  deriving DecidableEq, Repr

def ReportType.path : ReportType → String
  | .contributors | .outstanding | .pledges => "contributors"
  | .budget => "budget"
  | .payments => "payments"

def ReportType.label : ReportType → String
  | .contributors => "contributors"
  | .outstanding => "contributors with outstanding balances"
  | .pledges => "pledge records"
  | .budget => "budget items"
  | .payments => "payments"

inductive StatusFilter
  | all | unpaid | partially | complete | outstanding
  deriving DecidableEq, Repr

def StatusFilter.name : StatusFilter → String
  | .all => "all"
  | .unpaid => "unpaid"
  | .partially => "partial"
  | .complete => "complete"
  | .outstanding => "outstanding"

inductive SortField
  | amount | name
  deriving DecidableEq, Repr

def SortField.text : SortField → String
  | .amount => "amount"
  | .name => "name"

inductive SortDirection
  | asc | desc
  deriving DecidableEq, Repr

def SortDirection.text : SortDirection → String
  | .asc => "asc"
  | .desc => "desc"

structure ReportFilters where
  reportType : ReportType
  status : Option StatusFilter := none
  groupName : Option String := none
  minAmount : Option ℚ := none
  maxAmount : Option ℚ := none
  searchTerm : Option String := none
  sortField : Option SortField := none
  sortDirection : Option SortDirection := none
  limit : Option ℤ := none
  deriving DecidableEq, Repr

def maxLimit : ℤ := 10000

def defaultLimit : ℤ := maxLimit

/-- How names are read and put in order, `Number` of a bigint, and how numbers, ids and the
parameters of a URL are written. -/
structure ReportRules where
  names : NameRules
  localeCompare : String → String → Ordering
  number : ℕ → ℚ
  numberText : ℚ → String
  idText : ℕ → String
  queryString : List (String × String) → String

/-- A text that is there and not empty, or a number that is there and not zero. -/
def given (text : Option String) : Option String := text.filter (· != "")

def givenNumber (value : Option ℚ) : Option ℚ := value.filter (· != 0)

structure ContributorRow where
  id : ℕ
  displayName : String
  groupName : Option String
  committed : ℕ
  received : ℕ
  inKind : List String
  deriving DecidableEq, Repr

/-- A person with the first of their groups and with their pledges that stand. -/
def contributorRow (db : LedgerDb) (eventId : ℕ) (person : Person) : ContributorRow :=
  let pledges := db.pledges.rows.filter fun p =>
    p.eventId == eventId && p.personId == person.id && isLive p
  let membership := db.personGroups.find? fun r => r.eventId == eventId && r.personId == person.id
  { id := person.id
    displayName := person.displayName
    groupName := membership.bind fun r => (db.groups.find? fun g =>
      g.eventId == eventId && g.id == r.groupId).map ContributorGroup.name
    committed := (pledges.map Pledge.committedValue).sum
    received := (pledges.map fun p => ((db.fulfillments.rows.filter fun f =>
      f.eventId == eventId && f.pledgeId == p.id).map Fulfillment.value).sum).sum
    inKind := pledges.filterMap fun p => if p.type != .cash then given p.description else none }

def passesStatus (status : Option StatusFilter) (r : ContributorRow) : Bool :=
  match status.getD .all with
  | .unpaid => r.committed > 0 && r.received == 0
  | .partially => r.received > 0 && r.received < r.committed
  | .complete => r.committed > 0 && r.received ≥ r.committed
  | .outstanding => outstanding r.committed r.received > 0
  | .all => r.committed > 0 || r.received > 0

def passesAmounts (rules : ReportRules) (filters : ReportFilters) (r : ContributorRow) : Bool :=
  !((givenNumber filters.minAmount).any fun low => rules.number r.received < low) &&
    !((givenNumber filters.maxAmount).any fun high => rules.number r.received > high)

def passesSearch (rules : ReportRules) (filters : ReportFilters) (name : String) : Bool :=
  (given filters.searchTerm).all fun term => rules.names.contains name term

def sortContributors (rules : ReportRules) (filters : ReportFilters) (rows : List ContributorRow) :
    List ContributorRow :=
  let ascending := filters.sortDirection == some .asc
  match filters.sortField with
  | some .name => rows.insertionSort fun a b =>
      rules.localeCompare a.displayName b.displayName ≠ if ascending then .gt else .lt
  -- the comparison of amounts is written for the other direction
  | _ => rows.insertionSort fun a b =>
      if ascending then b.received ≤ a.received else a.received ≤ b.received

/-- The rows as JavaScript filters and sorts them. -/
def selectContributors (rules : ReportRules) (filters : ReportFilters)
    (rows : List ContributorRow) : List ContributorRow :=
  sortContributors rules filters <|
    (rows.filter (passesStatus filters.status)).filter (passesAmounts rules filters)

def queryContributors (eventId : ℕ) (rules : ReportRules) (filters : ReportFilters)
    (groupId : Option ℕ) : LedgerProgram (List ContributorRow) := do
  let people ← query fun db => (db.persons.rows.filter fun q => q.eventId == eventId &&
    passesSearch rules filters q.displayName && groupId.all fun g =>
      db.personGroups.rows.any fun r =>
        r.eventId == eventId && r.personId == q.id && r.groupId == g).map
          (contributorRow db eventId)
  return selectContributors rules filters people

/-- The one group whose name contains the text, or else all that do. -/
def resolveGroupName (eventId : ℕ) (rules : ReportRules) (groupName : String) :
    LedgerProgram (Except (List (ℕ × String)) (ℕ × String)) := do
  let found ← query fun db => (db.groups.rows.filter fun g =>
    g.eventId == eventId && rules.names.contains g.name groupName).map fun g => (g.id, g.name)
  match found with
  | [group] => return .ok group
  | _ => return .error found

/-- Nothing is looked up without a name. -/
def resolveGroup (eventId : ℕ) (rules : ReportRules) (groupName : Option String) :
    LedgerProgram (Option (String × Except (List (ℕ × String)) (ℕ × String))) :=
  match given groupName with
  | none => pure none
  | some term => (fun found => some (term, found)) <$> resolveGroupName eventId rules term

def resolvedGroup (resolution : Option (String × Except (List (ℕ × String)) (ℕ × String))) :
    Option (ℕ × String) :=
  match resolution with
  | some (_, .ok group) => some group
  | _ => none

inductive PresentationTier
  | inlineChat | mediumPreview | largeReport
  deriving DecidableEq, Repr

structure ReportPreviewRow where
  name : String
  group : Option String := none
  amount : String
  outstanding : Option String := none
  status : String
  inKind : Option (List String) := none
  deriving DecidableEq, Repr

structure ReportRef where
  reportType : ReportType
  label : String
  filterUrl : String
  totalRecords : ℕ
  totalAmount : String
  deriving DecidableEq, Repr

structure ReportResult where
  tier : PresentationTier
  reportRef : ReportRef
  preview : List ReportPreviewRow
  ambiguousGroup : Option (String × List (ℕ × String))
  deriving DecidableEq, Repr

def rowStatus (r : ContributorRow) : String :=
  if r.committed = 0 then "no_pledge"
  else if r.received ≥ r.committed then "complete"
  else if r.received > 0 then "partial"
  else "unpaid"

/-- What is still owed, where anything is. -/
def owed (r : ContributorRow) : Option String :=
  let value := PledgeStatus.outstanding r.committed r.received
  if value > 0 then some (moneyToString value) else none

def contributorPreview (r : ContributorRow) : ReportPreviewRow :=
  { name := r.displayName
    group := r.groupName
    amount := moneyToString r.received
    outstanding := owed r
    status := rowStatus r
    inKind := if r.inKind = [] then none else some r.inKind }

def budgetPreview (name : String) (target allocated : ℕ) : ReportPreviewRow :=
  { name
    amount := moneyToString target
    status := if allocated ≥ target ∧ target > 0 then "complete" else "partial"
    outstanding := if allocated < target then some (moneyToString (target - allocated)) else none }

/-- How many records a report has, what they come to, and the first of them. -/
structure ReportBody where
  totalRecords : ℕ
  totalAmount : ℕ
  preview : List ReportPreviewRow
  deriving DecidableEq, Repr

/-- The name on a payment; a relation that row-level security hides is an error. -/
def payerName (db : LedgerDb) (eventId : ℕ) (f : Fulfillment) : Option String :=
  (db.findPledge eventId f.pledgeId).bind fun p =>
    (db.findPerson eventId p.personId).map Person.displayName

def reportBody (eventId : ℕ) (rules : ReportRules) (input : ReportFilters) (groupId : Option ℕ)
    (limit : ℕ) : LedgerProgram ReportBody :=
  match input.reportType with
  | .budget => do
      let items ← query fun db => (db.budgetItems.rows.filter fun b => b.eventId == eventId).map
        fun b => (b.name, b.targetValue, coveredOf db eventId b.id)
      return ⟨items.length, (items.map fun i => i.2.1).sum,
        (items.take limit).map fun i => budgetPreview i.1 i.2.1 i.2.2⟩
  | .payments => do
      let payments ← query fun db => ((db.fulfillments.rows.filter fun f =>
        f.eventId == eventId).insertionSort fun a b => b.occurredAt ≤ a.occurredAt).take
          maxLimit.toNat |>.map fun f => (payerName db eventId f, f.value)
      let named ← orThrow (payments.mapM fun p => p.1.map fun name => (name, p.2))
        (.internal "Inconsistent query result: Field pledge is required to return data")
      return ⟨named.length, (named.map Prod.snd).sum,
        (named.take limit).map fun p =>
          { name := p.1, amount := moneyToString p.2, status := "complete" }⟩
  | _ => do
      let rows ← queryContributors eventId rules input groupId
      return ⟨rows.length, (rows.map ContributorRow.received).sum,
        (rows.take limit).map contributorPreview⟩

def tierOf (totalRecords : ℕ) : PresentationTier :=
  if totalRecords > 30 then .largeReport
  else if totalRecords > 5 then .mediumPreview
  else .inlineChat

/-- The status that is named in the URL and in the label. -/
def namedStatus (input : ReportFilters) : Option String :=
  (input.status.filter (· != .all)).map StatusFilter.name

def filterUrl (eventId : ℕ) (rules : ReportRules) (input : ReportFilters) (groupId : Option ℕ) :
    String :=
  let params :=
    ((namedStatus input).map fun s => ("status", s)).toList ++
    (groupId.map fun g => ("groupId", rules.idText g)).toList ++
    ((givenNumber input.minAmount).map fun x => ("minAmount", rules.numberText x)).toList ++
    ((givenNumber input.maxAmount).map fun x => ("maxAmount", rules.numberText x)).toList ++
    ((given input.searchTerm).map fun s => ("search", s)).toList ++
    (input.sortField.map fun f => ("sort", f.text)).toList ++
    (input.sortDirection.map fun d => ("dir", d.text)).toList
  let qs := rules.queryString params
  let base := s!"/events/{rules.idText eventId}/report/{input.reportType.path}"
  if qs = "" then base else base ++ "?" ++ qs

def generateReport (ctx : OperationContext) (rules : ReportRules) (input : ReportFilters) :
    LedgerProgram ReportResult := do
  refuse (assertPermission ctx.event.role .eventRead)
  let eventId := ctx.event.eventId
  let resolution ← resolveGroup eventId rules input.groupName
  let group := resolvedGroup resolution
  let limit := (min (max (input.limit.getD defaultLimit) 1) maxLimit).toNat
  let body ← reportBody eventId rules input (group.map Prod.fst) limit
  let statusLabel := ((namedStatus input).map fun s => s!" — {s} only").getD ""
  let groupLabel := (group.map fun g => s!" ({g.2})").getD ""
  return {
    tier := tierOf body.totalRecords
    reportRef :=
      { reportType := input.reportType
        label := s!"{body.totalRecords} {input.reportType.label}" ++ groupLabel ++ statusLabel
        filterUrl := filterUrl eventId rules input (group.map Prod.fst)
        totalRecords := body.totalRecords
        totalAmount := moneyToString body.totalAmount }
    preview := body.preview
    -- without a group of its own the report is that of all groups
    ambiguousGroup := match resolution with
      | some (term, .error candidates) => some (term, candidates)
      | _ => none }

/-- `xs.slice(start, end)`, in which a negative index counts from the end. -/
def slice {α : Type} (xs : List α) (start stop : ℤ) : List α :=
  let position (i : ℤ) : ℕ := (if i < 0 then max (xs.length + i) 0 else i).toNat
  (xs.take (position stop)).drop (position start)

/-- A count as JavaScript divides it. -/
inductive PageCount
  | pages (count : ℕ)
  | infinity
  | notANumber
  deriving DecidableEq, Repr

/-- `Math.max(1, Math.ceil(totalRecords / pageSize))`. -/
def totalPages (totalRecords : ℕ) (pageSize : ℤ) : PageCount :=
  if pageSize = 0 then if totalRecords = 0 then .notANumber else .infinity
  else .pages (max 1 (⌈(totalRecords : ℚ) / pageSize⌉).toNat)

structure PageRow where
  personId : ℕ
  name : String
  group : Option String
  amount : String
  outstanding : Option String
  status : String
  deriving DecidableEq, Repr

structure ContributorPage where
  totalRecords : ℕ
  totalAmount : String
  page : ℤ
  pageSize : ℤ
  totalPages : PageCount
  rows : List PageRow
  deriving DecidableEq, Repr

def pageRow (r : ContributorRow) : PageRow :=
  ⟨r.id, r.displayName, r.groupName, moneyToString r.received, owed r, rowStatus r⟩

/-- A search text beside the filters takes the place of theirs. -/
def searching (filters : ReportFilters) (search : Option String) : ReportFilters :=
  match given search with
  | some term => { filters with searchTerm := some term }
  | none => filters

def getPaginatedContributors (ctx : OperationContext) (rules : ReportRules) (filters : ReportFilters)
    (page pageSize : ℤ) (search : Option String) : LedgerProgram ContributorPage := do
  refuse (assertPermission ctx.event.role .eventRead)
  let resolution ← resolveGroup ctx.event.eventId rules filters.groupName
  let all ← queryContributors ctx.event.eventId rules (searching filters search)
    ((resolvedGroup resolution).map Prod.fst)
  let start := (page - 1) * pageSize
  return {
    totalRecords := all.length
    totalAmount := moneyToString (all.map ContributorRow.received).sum
    page
    pageSize
    totalPages := totalPages all.length pageSize
    rows := (slice all start (start + pageSize)).map pageRow }

/-- A cell in quotes, each quote in it doubled. -/
def csvCell (text : String) : String :=
  let doubled := text.toList.flatMap fun c => if c = '\x22' then ['\x22', '\x22'] else [c]
  String.ofList ('\x22' :: doubled ++ ['\x22'])

def csvLine (r : PageRow) : String :=
  ",".intercalate [csvCell r.name, csvCell (r.group.getD ""), csvCell r.amount,
    csvCell (r.outstanding.getD ""), csvCell r.status]

def csvHeader : String := "Name,Group,Amount,Outstanding,Status"

def exportCsv (ctx : OperationContext) (rules : ReportRules) (filters : ReportFilters) :
    LedgerProgram String := do
  let data ← getPaginatedContributors ctx rules filters 1 5000 none
  return "\n".intercalate (csvHeader :: data.rows.map csvLine)

structure Funder where
  displayName : String
  value : String
  occurredAt : ℕ
  deriving DecidableEq, Repr

structure LinkedPledge where
  personName : String
  type : PledgeType
  description : Option String
  committedValue : String
  status : Status
  deriving DecidableEq, Repr

inductive BudgetItemFunders
  | notFound
  | ambiguous (candidates : List String)
  | resolved (itemName target covered : String) (funders : List Funder)
      (linkedPledges : List LinkedPledge)
  deriving DecidableEq, Repr

/-- `allocation a JOIN fulfillment f JOIN pledge pl JOIN person p`, oldest payment first. -/
def fundersOf (db : LedgerDb) (eventId itemId : ℕ) : List (String × ℕ × ℕ) :=
  ((db.allocations.rows.filter fun a => a.eventId == eventId && a.budgetItemId == itemId).filterMap
    fun a => (db.findFulfillment eventId a.fulfillmentId).bind fun f =>
      (payerName db eventId f).map fun name => (name, a.value, f.occurredAt)).insertionSort
        fun x y => x.2.2 ≤ y.2.2

def fundersForItem (eventId itemId : ℕ) (itemName : String) (target : ℕ) :
    LedgerProgram BudgetItemFunders := do
  let funders ← query fun db => fundersOf db eventId itemId
  let linked ← query fun db => ((db.pledges.rows.filter fun p =>
    p.eventId == eventId && p.targetBudgetItemId == some itemId).insertionSort
      fun a b => a.createdAt ≤ b.createdAt).map fun p =>
        ((db.findPerson eventId p.personId).map Person.displayName, p)
  let named ← orThrow (linked.mapM fun p => p.1.map fun name => (name, p.2))
    (.internal "Inconsistent query result: Field person is required to return data")
  return .resolved itemName (moneyToString target)
    (moneyToString (funders.map fun f => f.2.1).sum)
    (funders.map fun f => ⟨f.1, moneyToString f.2.1, f.2.2⟩)
    (named.map fun p => ⟨p.1, p.2.type, p.2.description, moneyToString p.2.committedValue,
      p.2.status⟩)

def getBudgetItemFunders (ctx : OperationContext) (rules : ReportRules) (itemName : String) :
    LedgerProgram BudgetItemFunders := do
  refuse (assertPermission ctx.event.role .budgetRead)
  let items ← query fun db => db.budgetItems.rows.filter fun b =>
    b.eventId == ctx.event.eventId &&
      rules.names.lower b.name == rules.names.lower (rules.names.trim itemName)
  match items with
  | [] => return .notFound
  | [item] => fundersForItem ctx.event.eventId item.id item.name item.targetValue
  | _ => return .ambiguous (items.map BudgetItem.name)

def getBudgetItemFundersById (ctx : OperationContext) (itemId : ℕ) :
    LedgerProgram BudgetItemFunders := do
  refuse (assertPermission ctx.event.role .budgetRead)
  let found ← query fun db => EventWrites.findBudgetItem db ctx.event.eventId itemId
  match found with
  | none => return .notFound
  | some item => fundersForItem ctx.event.eventId item.id item.name item.targetValue

structure FundingSummary where
  percentCovered : Option Float
  hasTarget : Bool

def getFundingSummary (ctx : OperationContext) : LedgerProgram FundingSummary := do
  refuse (assertPermission ctx.event.role .ledgerReadFunding)
  let target ← query fun db => (db.events.get? ctx.event.eventId).bind Event.targetAmount
  let received ← query fun db => receivedAgg db ctx.event.eventId
  return ⟨percentCovered received target, target.isSome⟩

structure BudgetBreakdown where
  total : String
  covered : String
  unfunded : String
  items : List PublicBudgetItem
  deriving DecidableEq, Repr

/-- Dearest first. -/
def budgetBreakdown (ctx : OperationContext) : LedgerProgram BudgetBreakdown := do
  refuse (assertPermission ctx.event.role .budgetRead)
  let rows ← query fun db => ((db.budgetItems.rows.filter fun b =>
    b.eventId == ctx.event.eventId).insertionSort fun a b => b.targetValue ≤ a.targetValue).map
      fun b => (b.name, b.targetValue, coveredOf db ctx.event.eventId b.id)
  let budget := publicBudget rows
  return ⟨budget.total, budget.covered, budget.remaining, budget.items⟩

/-- Any member may ask. -/
def listPending (ctx : OperationContext) : LedgerProgram (List PendingView) :=
  query fun db => (db.pendingConfirmations.rows.filter fun row =>
    row.eventId == ctx.event.eventId && row.status == .pending).map pendingView

end Akabbo.Reports
