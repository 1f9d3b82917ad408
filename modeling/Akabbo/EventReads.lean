import Akabbo.BigintCasts
import Akabbo.TenantIsolation
import Akabbo.ViewerReads

/-!
# What is read of an event

Totals, reports, lists and lookups join the rows of several tables. Each of them tells what the rows
of its event alone tell, so that whatever was done to other events, nobody reads it here.
-/
namespace Akabbo.EventReads
open Access PledgeStatus RowTable StatementProgram Noninterference TenantViews LedgerState LedgerReads
open ToolExecutor SmsCampaigns Reports TeamCalls ConfinedLedger TenantIsolation
open BigintCasts (personSums budgetTotal budgetAllocated gapSums isMember groupCommitted groupReceived
  groupsOf groupSums paymentsOf methodTotals inKindOf groupContribution castSums aggregateSum
  contributorStanding LedgerRead)
open ViewerReads (ViewerRead)
open StatementProgram.Program (query orThrow commitNow)

section selects
variable (e : ℕ) (db : LedgerDb) (i : ℕ)

theorem committedAgg_alone : committedAgg (alone e db) e = committedAgg db e := sum_own _ _

theorem receivedAgg_alone : receivedAgg (alone e db) e = receivedAgg db e := sum_tenant _

theorem pledgeCount_alone : pledgeCount (alone e db) e = pledgeCount db e :=
  congrArg List.length (filter_own _)

theorem committedBy_alone : committedBy (alone e db) e i = committedBy db e i := by
  simp only [committedBy, column_pledges.seen, Bool.and_assoc, sum_own]

theorem receivedFrom_alone : receivedFrom (alone e db) e i = receivedFrom db e i := by
  simp only [receivedFrom, column_fulfillments.seen, column_pledges.seen, Bool.and_assoc, sum_own,
    any_own]

theorem personRows_alone : personRows (alone e db) e = personRows db e := by
  simp only [personRows, column_persons.seen, filter_tenant, committedBy_alone, receivedFrom_alone]

theorem coveredOf_alone : coveredOf (alone e db) e i = coveredOf db e i := sum_own _ _

theorem gapSums_alone : gapSums e (alone e db) = gapSums e db := by
  simp only [gapSums, column_budgetItems.seen, filter_tenant, coveredOf_alone]

theorem isMember_alone (j : ℕ) : isMember e (alone e db) i j = isMember e db i j := by
  simp only [isMember, column_personGroups.seen, Bool.and_assoc, any_own]

theorem groupCommitted_alone : groupCommitted e (alone e db) i = groupCommitted e db i := by
  simp only [groupCommitted, column_pledges.seen, isMember_alone, Bool.and_assoc, sum_own]

theorem groupReceived_alone : groupReceived e (alone e db) i = groupReceived e db i := by
  simp only [groupReceived, column_fulfillments.seen, column_pledges.seen, isMember_alone,
    Bool.and_assoc, sum_own, any_own]

theorem groupsOf_alone : groupsOf e (alone e db) = groupsOf e db := filter_tenant

theorem groupSums_alone : groupSums e (alone e db) = groupSums e db := by
  simp only [groupSums, groupsOf_alone, groupCommitted_alone, groupReceived_alone]

theorem groupContribution_alone : groupContribution e (alone e db) = groupContribution e db := by
  funext g
  simp only [groupContribution, groupCommitted_alone, groupReceived_alone, column_personGroups.seen,
    countP_own]

theorem paymentsOf_alone : paymentsOf e (alone e db) i = paymentsOf e db i := by
  simp only [paymentsOf, column_fulfillments.seen, column_pledges.seen, Bool.and_assoc, filter_own,
    any_own]

theorem methodTotals_alone : methodTotals e (alone e db) i = methodTotals e db i := by
  simp only [methodTotals, paymentsOf_alone]

theorem inKindOf_alone : inKindOf e (alone e db) i = inKindOf e db i := by
  simp only [inKindOf, column_pledges.seen, Bool.and_assoc, filter_own]

theorem contributorRow_alone : contributorRow (alone e db) e = contributorRow db e := by
  funext q
  simp only [contributorRow, column_pledges.seen, column_personGroups.seen, column_groups.seen,
    column_fulfillments.seen, Bool.and_assoc, filter_own, find?_own]

theorem payerName_alone (f : Fulfillment) : payerName (alone e db) e f = payerName db e f := by
  simp only [payerName, findPledge_alone, findPerson_alone]

theorem fundersOf_alone : fundersOf (alone e db) e i = fundersOf db e i := by
  simp only [fundersOf, column_allocations.seen, filter_own, findFulfillment_alone, payerName_alone]

theorem personNamed_alone (names : NameRules) (name : String) :
    personNamed names (alone e db) e name = personNamed names db e name := by
  simp only [personNamed, nameMatches, column_persons.seen, filter_own]

theorem specificWithPhone_alone (collation : Collation) (ids : List ℕ) :
    specificWithPhone collation (alone e db) e ids = specificWithPhone collation db e ids :=
  congrArg (recipients collation) (filter_own _)

theorem unpaidWithPhone_alone (collation : Collation) :
    unpaidWithPhone collation (alone e db) e = unpaidWithPhone collation db e := by
  have hpaid (i j : ℕ) : ((alone e db).pledges.rows.any fun p => p.id == j && liveOf e i p) =
      db.pledges.rows.any fun p => p.id == j && liveOf e i p := any_home fun p _ hp => by
    simp only [liveOf, Bool.and_eq_true, beq_iff_eq] at hp
    exact hp.2.1.1
  have hpromised (i : ℕ) : sumWhere (alone e db).pledges.rows (liveOf e i) Pledge.committedValue =
      sumWhere db.pledges.rows (liveOf e i) Pledge.committedValue := sum_home fun p _ hp => by
    simp only [liveOf, Bool.and_eq_true, beq_iff_eq] at hp
    exact hp.1.1
  simp only [unpaidWithPhone, hpaid, hpromised, column_fulfillments.seen, column_persons.seen, sum_own,
    filter_own]

end selects

section reads
variable {e : ℕ} {v : LedgerDb} {ρ : Type} {Q : ρ → LedgerDb → Prop} {ctx : OperationContext}

theorem confined_castSums_bind {sums : LedgerDb → List ℤ} {k : Unit → LedgerProgram ρ}
    (hsums : sums (alone e v) = sums v) (h : Confined alone e Q (k ()) v) :
    Confined alone e Q (castSums sums >>= k) v :=
  confined_bind <| confined_query_bind hsums <| confined_refuse fun _ => h

theorem confined_aggregateSum_bind {handed : ℕ → Bool} {sum : LedgerDb → ℕ}
    {k : Unit → LedgerProgram ρ} (hsum : sum (alone e v) = sum v)
    (h : Confined alone e Q (k ()) v) : Confined alone e Q (aggregateSum handed sum >>= k) v :=
  confined_bind <| confined_query_bind hsum <| confined_refuse fun _ => h

theorem isolated_eventTotals (handed : ℕ → Bool) :
    Isolated ctx.event.eventId (BigintCasts.getEventTotals handed ctx) v :=
  confined_refuse_bind fun _ => confined_aggregateSum_bind (committedAgg_alone _ _) <|
    confined_aggregateSum_bind (receivedAgg_alone _ _) <| confined_refuse_bind fun _ =>
    confined_query_bind (by rw [committedAgg_alone, pledgeCount_alone]) <|
    confined_query_bind (receivedAgg_alone _ _) trivial

theorem isolated_eventReport (handed : ℕ → Bool) (topN : ℕ) :
    Isolated ctx.event.eventId (BigintCasts.getEventReport handed ctx topN) v := by
  have hpeople : ((alone ctx.event.eventId v).persons.rows.filter fun q =>
      q.eventId == ctx.event.eventId) = v.persons.rows.filter fun q => q.eventId == ctx.event.eventId :=
    filter_tenant
  refine confined_refuse_bind fun _ => confined_aggregateSum_bind (committedAgg_alone _ _) <|
    confined_aggregateSum_bind (receivedAgg_alone _ _) <|
    confined_castSums_bind (by simp only [personSums, personRows_alone]) <|
    confined_aggregateSum_bind (sum_tenant _) <| confined_aggregateSum_bind (sum_tenant _) <|
    confined_castSums_bind (gapSums_alone _ _) <| confined_refuse_bind fun _ => ?_
  exact confined_query_bind (by rw [event_alone]) <| confined_query_bind (committedAgg_alone _ _) <|
    confined_query_bind (receivedAgg_alone _ _) <| confined_query_bind (congrArg List.length hpeople) <|
    confined_query_bind (personRows_alone _ _) <| confined_query_bind (sum_tenant _) <|
    confined_query_bind (sum_tenant _) <| confined_query_bind
      (by simp only [column_budgetItems.seen, filter_tenant, coveredOf_alone]) trivial

theorem isolated_groupContributions :
    Isolated ctx.event.eventId (BigintCasts.groupContributions ctx) v :=
  confined_refuse_bind fun _ => confined_castSums_bind (groupSums_alone _ _) <|
    ⟨by simp only [groupsOf_alone, groupReceived_alone, groupContribution_alone], trivial⟩

theorem confined_standing {i : ℕ} {name : String}
    {Q : BigintCasts.ContributorStanding → LedgerDb → Prop} (h : ∀ r, Q r v) :
    Confined alone ctx.event.eventId Q (contributorStanding ctx i name) v :=
  confined_castSums_bind (by rw [committedBy_alone, receivedFrom_alone]) <|
    confined_query_bind (by rw [committedBy_alone, receivedFrom_alone]) <|
    confined_query_bind (by rw [paymentsOf_alone]) <|
    confined_castSums_bind (by rw [methodTotals_alone]) <|
    confined_query_bind (by rw [methodTotals_alone]) <|
    confined_query_bind (inKindOf_alone _ _ _) (h _)

theorem isolated_findContributor (names : NameRules) (name : String) :
    Isolated ctx.event.eventId (BigintCasts.findContributor names ctx name) v := by
  refine confined_refuse_bind fun _ => confined_query_bind (personNamed_alone _ _ _ _) ?_
  cases personNamed names v ctx.event.eventId name with
  | none => trivial
  | ambiguous candidates => trivial
  | resolved i displayName => exact confined_bind (confined_standing fun _ => trivial)

theorem isolated_previewRecipients (collation : Collation) (ids : List ℕ) :
    Isolated ctx.event.eventId (previewRecipients collation ctx ids) v := by
  refine confined_refuse_bind fun _ => ⟨?_, trivial⟩
  simp only [selected, specificWithPhone_alone, unpaidWithPhone_alone]

theorem isolated_pledgeOutstanding (i : ℕ) :
    Isolated ctx.event.eventId (getPledgeOutstanding ctx i) v :=
  confined_refuse_bind fun _ => confined_find_bind (findPledge_alone _ _ _) fun _ _ =>
    confined_query_bind (sumFulfillments_alone _ _ _) trivial

variable {rules : ReportRules} {filters : ReportFilters}

theorem confined_resolveGroup_bind {name : Option String}
    {k : Option (String × Except (List (ℕ × String)) (ℕ × String)) → LedgerProgram ρ}
    (h : ∀ r, Confined alone e Q (k r) v) :
    Confined alone e Q (resolveGroup e rules name >>= k) v := by
  unfold resolveGroup
  cases given name with
  | none => exact h none
  | some term =>
    refine confined_bind <| confined_map <| confined_query_bind (congrArg (List.map _) (filter_own _)) ?_
    split
    · exact h _
    · exact h _

theorem confined_queryContributors_bind {groupId : Option ℕ}
    {k : List ContributorRow → LedgerProgram ρ} (h : ∀ rows, Confined alone e Q (k rows) v) :
    Confined alone e Q (queryContributors e rules filters groupId >>= k) v := by
  refine confined_bind <| confined_query_bind ?_ (h _)
  simp only [column_persons.seen, column_personGroups.seen, contributorRow_alone, Bool.and_assoc,
    filter_own, any_own]

theorem confined_reportBody_bind {groupId : Option ℕ} {limit : ℕ} {k : ReportBody → LedgerProgram ρ}
    (h : ∀ body, Confined alone e Q (k body) v) :
    Confined alone e Q (reportBody e rules filters groupId limit >>= k) v := by
  unfold reportBody
  split
  · refine confined_bind <| confined_query_bind ?_ (h _)
    simp only [column_budgetItems.seen, filter_tenant, coveredOf_alone]
  · refine confined_bind <| confined_query_bind ?_ <| confined_orThrow_bind fun _ _ => h _
    simp only [column_fulfillments.seen, filter_tenant, payerName_alone]
  · exact confined_bind <| confined_queryContributors_bind fun _ => h _

theorem isolated_generateReport : Isolated ctx.event.eventId (generateReport ctx rules filters) v :=
  confined_refuse_bind fun _ => confined_resolveGroup_bind fun _ =>
    confined_reportBody_bind fun _ => trivial

theorem confined_paginated {page pageSize : ℤ} {search : Option String}
    {Q : ContributorPage → LedgerDb → Prop} (h : ∀ r, Q r v) : Confined alone ctx.event.eventId Q
      (getPaginatedContributors ctx rules filters page pageSize search) v :=
  confined_refuse_bind fun _ => confined_resolveGroup_bind fun _ =>
    confined_queryContributors_bind fun _ => h _

theorem isolated_fundersForItem (i : ℕ) (name : String) (target : ℕ) :
    Isolated e (fundersForItem e i name target) v := by
  refine confined_query_bind (fundersOf_alone _ _ _) <| confined_query_bind ?_ <|
    confined_orThrow_bind fun _ _ => trivial
  simp only [column_pledges.seen, filter_own, findPerson_alone]

theorem isolated_funders (name : String) :
    Isolated ctx.event.eventId (getBudgetItemFunders ctx rules name) v := by
  refine confined_refuse_bind fun _ => confined_query_bind (filter_own _) ?_
  split
  · trivial
  · exact isolated_fundersForItem _ _ _
  · trivial

theorem isolated_fundersById (i : ℕ) :
    Isolated ctx.event.eventId (getBudgetItemFundersById ctx i) v := by
  refine confined_refuse_bind fun _ => confined_query_bind (findBudgetItem_alone _ _ _) ?_
  split
  · trivial
  · exact isolated_fundersForItem _ _ _

theorem isolated_viewerRead (read : ViewerRead) :
    Isolated ctx.event.eventId (read.program rules ctx) v := by
  cases read with
  | fundingSummary =>
    exact confined_map <| confined_refuse_bind fun _ => confined_query_bind (by rw [event_alone]) <|
      confined_query_bind (receivedAgg_alone _ _) trivial
  | report filters => exact confined_map isolated_generateReport
  | contributors filters page pageSize search => exact confined_map <| confined_paginated fun _ => trivial
  | csv filters => exact confined_map <| confined_bind <| confined_paginated fun _ => trivial
  | funders name => exact confined_map (isolated_funders name)
  | fundersById i => exact confined_map (isolated_fundersById i)
  | budgetBreakdown =>
    refine confined_map <| confined_refuse_bind fun _ => confined_query_bind ?_ trivial
    simp only [column_budgetItems.seen, filter_tenant, coveredOf_alone]
  | pending => exact confined_map ⟨congrArg (List.map _) (filter_own _), trivial⟩

end reads

/-- Every read of an event but the public page, which is found by its link. Of a preview of reminders
it is whom they would go to: the credits are the owner's, whatever the event. -/
inductive MemberRead
  | eventTotals
  | eventReport (topN : ℕ)
  | groupContributions
  | findContributor (name : String)
  | previewRecipients (collation : Collation) (personIds : List ℕ)
  | pledgeOutstanding (pledgeId : ℕ)
  | viewer (read : ViewerRead)

inductive MemberAnswer
  | ledger (answer : BigintCasts.Answer)
  | outstanding (answer : PledgeOutstanding)
  | viewer (answer : ViewerReads.Answer)

section members
variable (handed : ℕ → Bool) (rules : ReportRules)

def MemberRead.program (ctx : OperationContext) : MemberRead → LedgerProgram MemberAnswer
  | .eventTotals => .ledger <$> LedgerRead.eventTotals.program handed rules.names ctx
  | .eventReport topN => .ledger <$> (LedgerRead.eventReport topN).program handed rules.names ctx
  | .groupContributions => .ledger <$> LedgerRead.groupContributions.program handed rules.names ctx
  | .findContributor name =>
      .ledger <$> (LedgerRead.findContributor name).program handed rules.names ctx
  | .previewRecipients collation ids =>
      .ledger <$> (LedgerRead.previewReminders collation ids).program handed rules.names ctx
  | .pledgeOutstanding i => .outstanding <$> getPledgeOutstanding ctx i
  | .viewer read => .viewer <$> read.program rules ctx

/-- What a user reads of an event; whoever is no member of it is refused. -/
def readAs (actor : Actor) (eventId : ℕ) (read : MemberRead) : LedgerProgram MemberAnswer :=
  asMember actor eventId fun ctx => read.program handed rules ctx

theorem isolated_read (ctx : OperationContext) (v : LedgerDb) (read : MemberRead) :
    Isolated ctx.event.eventId (read.program handed rules ctx) v := by
  cases read with
  | eventTotals => exact confined_map <| confined_map (isolated_eventTotals handed)
  | eventReport topN => exact confined_map <| confined_map (isolated_eventReport handed topN)
  | groupContributions => exact confined_map <| confined_map isolated_groupContributions
  | findContributor name => exact confined_map <| confined_map (isolated_findContributor _ name)
  | previewRecipients collation ids =>
    exact confined_map <| confined_map (isolated_previewRecipients collation ids)
  | pledgeOutstanding i => exact confined_map (isolated_pledgeOutstanding i)
  | viewer read => exact confined_map (isolated_viewerRead read)

/-- After requests on any events, what anybody reads of an event is what they would read after the
requests on that event alone, had there never been another. -/
theorem reads_unnoticed (actor : Actor) (e : ℕ) (read : MemberRead) {db : LedgerDb} (h : Bound db)
    (requests : List Request)
    (hapart : ∀ before r late, requests = before ++ r :: late → Apart (handled db before) r) :
    (Program.run (readAs handed rules actor e read) (handled db requests)).1 =
      (Program.run (readAs handed rules actor e read)
        (handled (alone e db) (requests.filter fun r => r.eventId = e))).1 := by
  have hrows : alone e (handled db requests) =
      handled (alone e db) (requests.filter fun r => r.eventId = e) :=
    (unnoticed requests_unwind e h requests hapart).1
  have hread : Isolated e (readAs handed rules actor e read) (handled db requests) :=
    isolated_asMember fun event he => he ▸ isolated_read handed rules ⟨actor, event⟩ _ read
  rw [← hrows, run_view hread]

end members

/-- What the first host reads of a pledge, with and without the event of the second. -/
theorem reads_unnoticed_inTurns :
    (Program.run (readAs (· < 2 ^ 63) ViewerReads.plainRules ⟨1, true⟩ 7 (.pledgeOutstanding 5))
        (handled twoHosts inTurns)).1 =
      (Program.run (readAs (· < 2 ^ 63) ViewerReads.plainRules ⟨1, true⟩ 7 (.pledgeOutstanding 5))
        (handled (alone 7 twoHosts) (inTurns.filter fun r => r.eventId = 7))).1 :=
  reads_unnoticed _ _ _ _ _ bound_twoHosts inTurns apart_inTurns

end Akabbo.EventReads
