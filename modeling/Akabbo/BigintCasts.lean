import Akabbo.PublicLinks
import Akabbo.PublicPage
import Akabbo.ServiceCalls
import Akabbo.SmsCampaigns
import Akabbo.ToolExecutor

/-!
# Sums that leave the bigint range

`SUM` over a bigint column has no upper limit; a query that casts one back to bigint fails where
it does not fit. The reads of a ledger are given with the casts of their statements.
-/
namespace Akabbo.BigintCasts
open Access PledgeStatus RowTable StatementProgram ProgramParts PairedRuns LedgerState LedgerReads
open SmsCampaigns ToolExecutor ServiceCalls EventWrites PublicPage
open StatementProgram.Program

def inBigint (n : ℤ) : Bool := decide (-(2 ^ 63) ≤ n ∧ n < 2 ^ 63)

def outOfRange : Refusal := .internal "bigint out of range"

/-- The `::bigint` casts of one statement, over all the rows that it selects. -/
def castSums (sums : LedgerDb → List ℤ) : LedgerProgram Unit := do
  let values ← query sums
  refuse (if values.all inBigint then none else some outOfRange)

/-- `_sum` of an aggregate; `handed` says which sums the database client hands back. -/
def aggregateSum (handed : ℕ → Bool) (sum : LedgerDb → ℕ) : LedgerProgram Unit := do
  let value ← query sum
  refuse (if handed value then none else some outOfRange)

section sums
variable (e : ℕ) (db : LedgerDb)

def personSums : List ℤ := (personRows db e).flatMap fun r => [(r.committed : ℤ), (r.received : ℤ)]

def budgetTotal : ℕ :=
  sumWhere db.budgetItems.rows (fun b => b.eventId == e) BudgetItem.targetValue

def budgetAllocated : ℕ :=
  sumWhere db.allocations.rows (fun a => a.eventId == e) Allocation.value

/-- The gap of every line is cast before the largest is picked. -/
def gapSums : List ℤ :=
  (db.budgetItems.rows.filter fun b => b.eventId == e).map fun b =>
    (b.targetValue : ℤ) - coveredOf db e b.id

/-- The lines that the public page selects. -/
def shownLines (vis : BudgetVisibility) : List BudgetItem :=
  if vis = .hidden then []
  else db.budgetItems.rows.filter fun b =>
    b.eventId == e && (vis != .partiallyPublic || b.isPublic)

def coveredSums (vis : BudgetVisibility) : List ℤ :=
  (shownLines e db vis).map fun b => (coveredOf db e b.id : ℤ)

def isMember (personId groupId : ℕ) : Bool :=
  db.personGroups.rows.any fun r =>
    r.eventId == e && r.personId == personId && r.groupId == groupId

/-- `pledge pl JOIN person_group pg2 ON pg2.person_id = pl.person_id`, for one group. -/
def groupCommitted (groupId : ℕ) : ℕ :=
  sumWhere db.pledges.rows
    (fun p => p.eventId == e && isLive p && isMember e db p.personId groupId)
    Pledge.committedValue

def groupReceived (groupId : ℕ) : ℕ :=
  sumWhere db.fulfillments.rows
    (fun f => f.eventId == e && db.pledges.rows.any fun p =>
      p.eventId == e && p.id == f.pledgeId && isLive p && isMember e db p.personId groupId)
    Fulfillment.value

def groupsOf : List ContributorGroup := db.groups.rows.filter fun g => g.eventId == e

def groupSums : List ℤ :=
  (groupsOf e db).flatMap fun g => [(groupCommitted e db g.id : ℤ), (groupReceived e db g.id : ℤ)]

/-- The payments on a person's pledges that are not cancelled. -/
def paymentsOf (personId : ℕ) : List Fulfillment :=
  db.fulfillments.rows.filter fun f => f.eventId == e && db.pledges.rows.any fun p =>
    p.eventId == e && p.id == f.pledgeId && p.personId == personId && isLive p

/-- `GROUP BY f.method`. -/
def methodTotals (personId : ℕ) : List (PaymentMethod × ℕ) :=
  ((paymentsOf e db personId).map Fulfillment.method).dedup.map fun m =>
    (m, sumWhere (paymentsOf e db personId) (fun f => f.method == m) Fulfillment.value)

end sums

section reads
variable (handed : ℕ → Bool) (names : NameRules) (ctx : OperationContext)

def getEventTotals : LedgerProgram EventTotals := do
  refuse (assertPermission ctx.event.role .ledgerReadAmounts)
  aggregateSum handed fun db => committedAgg db ctx.event.eventId
  aggregateSum handed fun db => receivedAgg db ctx.event.eventId
  LedgerReads.getEventTotals ctx

def getEventReport (topN : ℕ) : LedgerProgram EventReport := do
  refuse (assertPermission ctx.event.role .ledgerReadAmounts)
  aggregateSum handed fun db => committedAgg db ctx.event.eventId
  aggregateSum handed fun db => receivedAgg db ctx.event.eventId
  castSums (personSums ctx.event.eventId)
  aggregateSum handed (budgetTotal ctx.event.eventId)
  aggregateSum handed (budgetAllocated ctx.event.eventId)
  castSums (gapSums ctx.event.eventId)
  LedgerReads.getEventReport ctx topN

def getPublicEventView (link : PublicLink) (token : Option String) :
    LedgerProgram PublicEventView := do
  let event ← resolve link token
  aggregateSum handed fun db => committedAgg db event.id
  aggregateSum handed fun db => receivedAgg db event.id
  castSums (personSums event.id)
  castSums fun db => coveredSums event.id db event.budgetVisibility
  publicEventView event

structure GroupContribution where
  groupId : ℕ
  name : String
  kind : GroupKind
  memberCount : ℕ
  committed : String
  received : String
  outstanding : String
  deriving DecidableEq, Repr

def groupContribution (e : ℕ) (db : LedgerDb) (g : ContributorGroup) : GroupContribution :=
  let committed := groupCommitted e db g.id
  let received := groupReceived e db g.id
  { groupId := g.id
    name := g.name
    kind := g.kind
    memberCount := db.personGroups.rows.countP fun r => r.eventId == e && r.groupId == g.id
    committed := moneyToString committed
    received := moneyToString received
    outstanding := moneyToString (if committed > received then committed - received else 0) }

/-- `ORDER BY received DESC`. -/
def groupContributions : LedgerProgram (List GroupContribution) := do
  refuse (assertPermission ctx.event.role .ledgerReadAmounts)
  castSums (groupSums ctx.event.eventId)
  query fun db =>
    ((groupsOf ctx.event.eventId db).insertionSort fun a b =>
      groupReceived ctx.event.eventId db b.id ≤ groupReceived ctx.event.eventId db a.id).map
        (groupContribution ctx.event.eventId db)

inductive PledgeStanding
  | noPledge | fullyPaid | partiallyPaid | pledged
  deriving DecidableEq, Repr

def pledgeStanding (committed received : ℕ) : PledgeStanding :=
  if committed = 0 then .noPledge
  else if received ≥ committed then .fullyPaid
  else if received > 0 then .partiallyPaid
  else .pledged

structure ContributorStanding where
  displayName : String
  committed : String
  received : String
  outstanding : String
  pledgeStatus : PledgeStanding
  paymentCount : ℕ
  byMethod : List (String × String)
  inKind : List String
  deriving DecidableEq, Repr

inductive ContributorLookup
  | notFound (name : String)
  | ambiguous (candidates : List String)
  | found (standing : ContributorStanding)
  deriving DecidableEq, Repr

/-- In-kind pledges live in the description. -/
def inKindOf (e : ℕ) (db : LedgerDb) (personId : ℕ) : List String :=
  (db.pledges.rows.filter fun p =>
    p.eventId == e && p.personId == personId && isLive p && p.type != .cash).filterMap fun p =>
      p.description.filter fun d => d != ""

def contributorStanding (personId : ℕ) (displayName : String) :
    LedgerProgram ContributorStanding := do
  let e := ctx.event.eventId
  castSums fun db => [(committedBy db e personId : ℤ), (receivedFrom db e personId : ℤ)]
  let (committed, received) ← query fun db =>
    (committedBy db e personId, receivedFrom db e personId)
  let paymentCount ← query fun db => (paymentsOf e db personId).length
  castSums fun db => (methodTotals e db personId).map fun m => (m.2 : ℤ)
  let methods ← query fun db => (methodTotals e db personId).insertionSort fun a b => b.2 ≤ a.2
  let inKind ← query fun db => inKindOf e db personId
  return { displayName
           committed := moneyToString committed
           received := moneyToString received
           outstanding := moneyToString (outstanding committed received)
           pledgeStatus := pledgeStanding committed received
           paymentCount
           byMethod := methods.map fun m => (m.1.name, moneyToString m.2)
           inKind }

def findContributor (name : String) : LedgerProgram ContributorLookup := do
  refuse (assertPermission ctx.event.role .ledgerReadAmounts)
  let resolution ← resolvePerson names ctx.event.eventId name
  match resolution with
  | .ambiguous candidates => return .ambiguous (candidates.map PersonCandidate.displayName)
  | .none => return .notFound name
  | .resolved personId displayName => do
    let standing ← contributorStanding ctx personId displayName
    return .found standing

end reads

inductive LedgerRead
  | eventTotals
  | eventReport (topN : ℕ)
  | publicView (link : PublicLink) (token : Option String)
  | groupContributions
  | findContributor (name : String)
  | previewReminders (collation : Collation) (personIds : List ℕ)

inductive Answer
  | totals (answer : EventTotals)
  | report (answer : EventReport)
  | page (answer : PublicEventView)
  | groups (answer : List GroupContribution)
  | contributor (answer : ContributorLookup)
  | reminders (recipients : List Recipient)

def LedgerRead.program (handed : ℕ → Bool) (names : NameRules) (ctx : OperationContext) :
    LedgerRead → LedgerProgram Answer
  | .eventTotals => .totals <$> getEventTotals handed ctx
  | .eventReport topN => .report <$> getEventReport handed ctx topN
  | .publicView link token => .page <$> getPublicEventView handed link token
  | .groupContributions => .groups <$> BigintCasts.groupContributions ctx
  | .findContributor name => .contributor <$> BigintCasts.findContributor names ctx name
  -- who still owes is asked by comparing two sums, neither of them cast
  | .previewReminders collation personIds =>
      .reminders <$> previewRecipients collation ctx personIds

/-- The role may read this; a public link leads to the event, whoever follows it. -/
def Admits (db : LedgerDb) (ctx : OperationContext) : LedgerRead → Prop
  | .publicView link token => ∃ event, LeadsTo link token db event ∧ event.id = ctx.event.eventId
  | .previewReminders .. => can ctx.event.role .smsRead = true
  | _ => can ctx.event.role .ledgerReadAmounts = true

/-- The call returns a result. -/
def Returns {ρ : Type} (p : LedgerProgram ρ) (db : LedgerDb) : Prop := ∃ r, (run p db).1 = .ok r

/-- Every read of the event that is let through returns. -/
def ReadsReturn (handed : ℕ → Bool) (names : NameRules) (db : LedgerDb) (e : ℕ) : Prop :=
  ∀ (read : LedgerRead) (ctx : OperationContext), ctx.event.eventId = e → Admits db ctx read →
    Returns (read.program handed names ctx) db

/-- The sums that are cast stay in the bigint range: what each person and each group promised and
paid, the gap of each budget line, and what covers a line that the public page shows. The client
hands the four aggregates back. -/
structure SumsFit (handed : ℕ → Bool) (db : LedgerDb) (e : ℕ) : Prop where
  committed : handed (committedAgg db e) = true
  received : handed (receivedAgg db e) = true
  budgetTotal : handed (budgetTotal e db) = true
  budgetAllocated : handed (budgetAllocated e db) = true
  people : ∀ n ∈ personSums e db, inBigint n = true
  groups : ∀ n ∈ groupSums e db, inBigint n = true
  gaps : ∀ n ∈ gapSums e db, inBigint n = true
  covered : ∀ event, db.events.get? e = some event → event.isPublic = true →
    ∀ n ∈ coveredSums e db event.budgetVisibility, inBigint n = true

section returns
variable {ρ τ : Type} {db : LedgerDb} {handed : ℕ → Bool} {ctx : OperationContext} {e : ℕ}
  {f : ρ → LedgerProgram τ} {next : Unit → LedgerProgram τ}

theorem returns_pure (r : ρ) : Returns (Pure.pure r) db := ⟨r, rfl⟩

theorem returns_query (q : LedgerDb → ρ) : Returns (query q) db := ⟨_, rfl⟩

theorem returns_query_bind (q : LedgerDb → ρ) :
    Returns (query q >>= f) db ↔ Returns (f (q db)) db := Iff.rfl

theorem returns_refuse_bind {refusal : Option Refusal} :
    Returns (refuse refusal >>= next) db ↔ refusal = none ∧ Returns (next ()) db := by
  cases refusal with
  | none => exact ⟨fun h => ⟨rfl, h⟩, fun h => h.2⟩
  | some e => exact ⟨nofun, nofun⟩

theorem returns_castSums_bind {sums : LedgerDb → List ℤ} :
    Returns (castSums sums >>= next) db ↔
      (∀ n ∈ sums db, inBigint n = true) ∧ Returns (next ()) db := by
  unfold castSums
  rw [bind_assoc, returns_query_bind, returns_refuse_bind]
  refine and_congr_left fun _ => ?_
  split_ifs with hall
  · exact iff_of_true rfl (List.all_eq_true.mp hall)
  · exact iff_of_false nofun fun h => hall (List.all_eq_true.mpr h)

theorem returns_aggregateSum_bind {sum : LedgerDb → ℕ} :
    Returns (aggregateSum handed sum >>= next) db ↔
      handed (sum db) = true ∧ Returns (next ()) db := by
  unfold aggregateSum
  rw [bind_assoc, returns_query_bind, returns_refuse_bind]
  refine and_congr_left fun _ => ?_
  split_ifs with h
  · exact iff_of_true rfl h
  · exact iff_of_false nofun h

theorem returns_bind_of_readOnly {p : LedgerProgram ρ} (hp : ReadOnly p) :
    Returns (p >>= f) db ↔ ∃ r, (run p db).1 = .ok r ∧ Returns (f r) db := by
  unfold Returns
  rw [run_readOnly_bind hp]
  cases (run p db).1 with
  | error e => simp [Except.bind]
  | ok r => simp [Except.bind]

theorem returns_bind {p : LedgerProgram ρ} (hp : ReadOnly p) (h : Returns p db)
    (hf : ∀ r, Returns (f r) db) : Returns (p >>= f) db := by
  obtain ⟨r, hr⟩ := h
  exact (returns_bind_of_readOnly hp).mpr ⟨r, hr, hf r⟩

theorem returns_map {p : LedgerProgram ρ} {g : ρ → τ} : Returns (g <$> p) db ↔ Returns p db := by
  unfold Returns
  constructor
  · rintro ⟨r, hr⟩
    obtain ⟨c, v, hexec⟩ := run_eq_ok.mp hr
    obtain ⟨a, ha, -⟩ := exec_map.mp hexec
    exact ⟨a, run_eq_ok.mpr ⟨c, v, ha⟩⟩
  · rintro ⟨a, ha⟩
    obtain ⟨c, v, hexec⟩ := run_eq_ok.mp ha
    exact ⟨g a, run_eq_ok.mpr ⟨c, v, exec_map.mpr ⟨a, hexec, rfl⟩⟩⟩

theorem assertPermission_eq_none {role : EventRole} {action : Action} :
    assertPermission role action = none ↔ can role action = true := by
  unfold assertPermission
  split_ifs with h
  · exact iff_of_true rfl h
  · exact iff_of_false nofun h

/-- What the members' reads ask of a ledger; the report asks for the most. -/
theorem returns_totals_iff (hcan : can ctx.event.role .ledgerReadAmounts = true)
    (he : ctx.event.eventId = e) : Returns (getEventTotals handed ctx) db ↔
      handed (committedAgg db e) = true ∧ handed (receivedAgg db e) = true := by
  subst he
  have hperm := assertPermission_eq_none.mpr hcan
  unfold getEventTotals LedgerReads.getEventTotals
  simp only [returns_refuse_bind, returns_aggregateSum_bind, returns_query_bind, hperm, true_and]
  simp only [returns_pure, and_true]

theorem returns_report_iff {topN : ℕ} (hcan : can ctx.event.role .ledgerReadAmounts = true)
    (he : ctx.event.eventId = e) : Returns (getEventReport handed ctx topN) db ↔
      handed (committedAgg db e) = true ∧ handed (receivedAgg db e) = true ∧
      (∀ n ∈ personSums e db, inBigint n = true) ∧ handed (budgetTotal e db) = true ∧
      handed (budgetAllocated e db) = true ∧ ∀ n ∈ gapSums e db, inBigint n = true := by
  subst he
  have hperm := assertPermission_eq_none.mpr hcan
  unfold getEventReport LedgerReads.getEventReport
  simp only [returns_refuse_bind, returns_aggregateSum_bind, returns_castSums_bind,
    returns_query_bind, hperm, true_and]
  simp only [returns_pure, and_true]

theorem returns_groups_iff (hcan : can ctx.event.role .ledgerReadAmounts = true)
    (he : ctx.event.eventId = e) : Returns (groupContributions ctx) db ↔
      ∀ n ∈ groupSums e db, inBigint n = true := by
  subst he
  have hperm := assertPermission_eq_none.mpr hcan
  unfold groupContributions
  rw [returns_refuse_bind, returns_castSums_bind]
  exact ⟨fun h => h.2.1, fun h => ⟨hperm, h, returns_query _⟩⟩

theorem returns_reminders {collation : Collation} {personIds : List ℕ}
    (hcan : can ctx.event.role .smsRead = true) :
    Returns (previewRecipients collation ctx personIds) db := by
  unfold previewRecipients
  rw [returns_refuse_bind]
  exact ⟨assertPermission_eq_none.mpr hcan, returns_query _⟩

/-- What one person paid by one method is no more than what they paid. -/
theorem methodTotals_le {personId : ℕ} {m : PaymentMethod × ℕ}
    (hm : m ∈ methodTotals e db personId) : m.2 ≤ receivedFrom db e personId := by
  obtain ⟨method, -, rfl⟩ := List.mem_map.mp hm
  have hsome : List.Sublist
      (((paymentsOf e db personId).filter fun f => f.method == method).map Fulfillment.value)
      ((paymentsOf e db personId).map Fulfillment.value) := List.filter_sublist.map _
  exact hsome.sum_le_sum fun _ _ => Nat.zero_le _

theorem resolved_mem {names : NameRules} {name found : String} {i : ℕ}
    (h : personNamed names db e name = .resolved i found) :
    ∃ q ∈ db.persons.rows, q.eventId = e ∧ q.id = i := by
  have hmatch : ∃ q ∈ nameMatches names db e (names.trim name), q.id = i := by
    revert h
    unfold personNamed resolution
    generalize nameMatches names db e (names.trim name) = matches'
    intro h
    split at h
    · cases h
    · next p =>
      cases h
      exact ⟨p, List.mem_singleton_self p, rfl⟩
    · unfold preferExact at h
      split at h
      · next p hexact =>
        cases h
        exact ⟨p, List.mem_of_mem_filter (hexact ▸ List.mem_singleton_self p), rfl⟩
      · cases h
  obtain ⟨q, hq, hid⟩ := hmatch
  have hrow := List.mem_filter.mp ((List.mem_insertionSort _).mp hq)
  simp only [Bool.and_eq_true, beq_iff_eq] at hrow
  exact ⟨q, hrow.1, hrow.2.1, hid⟩

theorem returns_contributor {names : NameRules} {name : String}
    (hcan : can ctx.event.role .ledgerReadAmounts = true) (he : ctx.event.eventId = e)
    (hfit : ∀ n ∈ personSums e db, inBigint n = true) :
    Returns (findContributor names ctx name) db := by
  subst he
  unfold findContributor resolvePerson
  rw [returns_refuse_bind, returns_query_bind]
  refine ⟨assertPermission_eq_none.mpr hcan, ?_⟩
  cases hnamed : personNamed names db ctx.event.eventId name with
  | ambiguous candidates => exact returns_pure _
  | none => exact returns_pure _
  | resolved i found =>
    obtain ⟨q, hq, hevent, rfl⟩ := resolved_mem hnamed
    have hrow : (⟨q.id, q.displayName, committedBy db ctx.event.eventId q.id,
        receivedFrom db ctx.event.eventId q.id⟩ : PersonRow) ∈ personRows db ctx.event.eventId :=
      List.mem_map.mpr ⟨q, List.mem_filter.mpr ⟨hq, by simpa using hevent⟩, rfl⟩
    have hsum (n : ℤ) (hn : n ∈ [(committedBy db ctx.event.eventId q.id : ℤ),
        (receivedFrom db ctx.event.eventId q.id : ℤ)]) : inBigint n = true :=
      hfit n (List.mem_flatMap.mpr ⟨_, hrow, hn⟩)
    have hreceived := hsum _ (List.mem_cons_of_mem _ List.mem_cons_self)
    dsimp only
    unfold contributorStanding
    simp only [bind_assoc, returns_castSums_bind, returns_query_bind, pure_bind]
    refine ⟨hsum, fun n hn => ?_, returns_pure _⟩
    obtain ⟨m, hm, rfl⟩ := List.mem_map.mp hn
    have hle := methodTotals_le hm
    simp only [inBigint, decide_eq_true_eq] at hreceived ⊢
    omega

theorem leadsTo_iff {link : PublicLink} {token : Option String} {event : Event} :
    LeadsTo link token db event ↔ PublicLinks.found LikePatterns.startsWith db link = some event ∧
      event.isPublic = true ∧
      (event.publicAccessToken = none ∨ token = event.publicAccessToken) := by
  unfold LeadsTo
  rw [← PublicLinks.resolveBy_like]
  exact PublicLinks.opens_iff

theorem returns_page (event : Event) : Returns (publicEventView event) db := by
  unfold publicEventView
  simp only [returns_query_bind]
  refine returns_bind (readOnly_buildContributors _ _ _) ?_ fun _ =>
    returns_bind (readOnly_activity event) ?_ fun _ =>
    returns_bind (readOnly_buildBudget _) ?_ fun _ => ?_
  · cases event.contributorVisibility with
    | aggregateOnly => exact returns_pure _
    | hidden => exact returns_pure _
    | namesOnly => exact returns_pure _
    | namesAndAmounts =>
      refine returns_bind (readOnly_buildPledgeBreakdown _ _) ?_ fun _ => returns_pure _
      unfold buildPledgeBreakdown
      split_ifs
      · exact returns_pure _
      · exact returns_query _
  · change Returns (activity event) db
    unfold activity
    cases event.contributorVisibility with
    | namesAndAmounts => exact returns_map.mpr ⟨_, rfl⟩
    | _ => exact returns_pure _
  · unfold buildBudget
    split_ifs
    · exact returns_pure _
    · exact ⟨_, rfl⟩
  · exact ⟨_, rfl⟩

theorem returns_view_iff {link : PublicLink} {token : Option String} {event : Event}
    (h : LeadsTo link token db event) : Returns (getPublicEventView handed link token) db ↔
      handed (committedAgg db event.id) = true ∧ handed (receivedAgg db event.id) = true ∧
      (∀ n ∈ personSums event.id db, inBigint n = true) ∧
      ∀ n ∈ coveredSums event.id db event.budgetVisibility, inBigint n = true := by
  unfold getPublicEventView
  rw [returns_bind_of_readOnly (readOnly_resolve link token), h]
  simp only [Except.ok.injEq, exists_eq_left', returns_aggregateSum_bind, returns_castSums_bind,
    returns_page, and_true]

end returns

/-- The rows after calls of any callers, one after another. -/
def reached (calls : List (OperationContext × ServiceCall × ServiceDraw)) (db : LedgerDb) :
    LedgerDb :=
  calls.foldl (fun db call => served call.1 [call.2] db) db

theorem readsReturn_iff {handed : ℕ → Bool} {names : NameRules} {db : LedgerDb} {e : ℕ} :
    ReadsReturn handed names db e ↔ SumsFit handed db e := by
  constructor
  · intro h
    have howner (read : LedgerRead) (hadmits : Admits db ⟨⟨1, true⟩, ⟨e, .owner, .active⟩⟩ read) :=
      h read ⟨⟨1, true⟩, ⟨e, .owner, .active⟩⟩ rfl hadmits
    obtain ⟨hcommitted, hreceived, hpeople, htotal, hallocated, hgaps⟩ :=
      (returns_report_iff rfl rfl).mp (returns_map.mp (howner (.eventReport 5) rfl))
    refine ⟨hcommitted, hreceived, htotal, hallocated, hpeople, ?_, hgaps, ?_⟩
    · exact (returns_groups_iff rfl rfl).mp (returns_map.mp (howner .groupContributions rfl))
    · intro event hevent hpublic
      have hid : event.id = e := Table.get?_key hevent
      have hleads : LeadsTo (.id e) event.publicAccessToken db event :=
        leadsTo_iff.mpr ⟨hevent, hpublic, .inr rfl⟩
      have hview := (returns_view_iff hleads).mp
        (returns_map.mp (howner (.publicView (.id e) event.publicAccessToken) ⟨event, hleads, hid⟩))
      rw [hid] at hview
      exact hview.2.2.2
  · intro h read ctx he hadmits
    cases read with
    | eventTotals =>
      exact returns_map.mpr ((returns_totals_iff hadmits he).mpr ⟨h.committed, h.received⟩)
    | eventReport topN =>
      exact returns_map.mpr ((returns_report_iff hadmits he).mpr
        ⟨h.committed, h.received, h.people, h.budgetTotal, h.budgetAllocated, h.gaps⟩)
    | publicView link token =>
      obtain ⟨event, hleads, hid⟩ := hadmits
      rw [he] at hid
      subst hid
      obtain ⟨hfound, hpublic, -⟩ := leadsTo_iff.mp hleads
      have hrow := Table.get?_of_mem (PublicLinks.mem_of_found hfound)
      exact returns_map.mpr ((returns_view_iff hleads).mpr
        ⟨h.committed, h.received, h.people, h.covered event hrow hpublic⟩)
    | groupContributions =>
      exact returns_map.mpr ((returns_groups_iff hadmits he).mpr h.groups)
    | findContributor name =>
      exact returns_map.mpr (returns_contributor hadmits he h.people)
    | previewReminders collation personIds => exact returns_map.mpr (returns_reminders hadmits)

/-- After any run of calls, every read of an event returns exactly when the sums that the reads cast
fit and the client hands the aggregates back. -/
theorem reads_return_iff (handed : ℕ → Bool) (names : NameRules) (db : LedgerDb)
    (calls : List (OperationContext × ServiceCall × ServiceDraw)) (e : ℕ) :
    ReadsReturn handed names (reached calls db) e ↔ SumsFit handed (reached calls db) e :=
  readsReturn_iff

def host : OperationContext := ⟨⟨1, true⟩, ⟨7, .owner, .active⟩⟩

def drawn (id : ℕ) : ServiceDraw := ⟨⟨id, id, id, 1⟩, ⟨0, 0, 0, "", { allowed := true }, none⟩⟩

/-- The largest amount that a bigint column stores. -/
def largest : ℕ := 2 ^ 63 - 1

/-- John promises it twice. -/
def promisedTwice : List (OperationContext × ServiceCall × ServiceDraw) :=
  [(host, .createEvent { name := "Wedding" }, ⟨⟨0, 0, 0, 0⟩, ⟨0, 7, 0, "w", { allowed := true }, none⟩⟩),
    (host, .ledger (.createPerson { allowed := true } { displayName := "John" }), drawn 10),
    (host, .ledger (.createPledge { personId := 10, committedValue := largest }), drawn 20),
    (host, .ledger (.createPledge { personId := 10, committedValue := largest }), drawn 21)]

def registered : LedgerDb := { LedgerDb.empty with users := Table.empty.insertNew ⟨1, none⟩ }

set_option maxRecDepth 4000 in
/-- The report fails, whatever the client does with aggregates. -/
theorem promised_twice_fails :
    ¬ ∀ (handed : ℕ → Bool) (names : NameRules) (db : LedgerDb)
      (calls : List (OperationContext × ServiceCall × ServiceDraw)) (e : ℕ),
      ReadsReturn handed names (reached calls db) e := by
  intro h
  have hreport := h (fun _ => true) plainNames registered promisedTwice 7 (.eventReport 5) host rfl rfl
  obtain ⟨-, -, hpeople, -⟩ := (returns_report_iff rfl rfl).mp (returns_map.mp hreport)
  exact absurd (hpeople (2 * largest) (by decide)) (by decide)

end Akabbo.BigintCasts
