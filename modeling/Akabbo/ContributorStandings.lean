import Akabbo.BigintCasts
import Akabbo.LedgerTotals
import Akabbo.Reports

/-!
# Where a contributor stands

The report, the assistant, the public page and the reminders each sum up what a person promised
and paid in their own way and name the result by a classifier of their own.
-/
namespace Akabbo.ContributorStandings
open Access PledgeStatus RowTable StatementProgram LedgerState LedgerWrites LedgerReads
open LedgerEffects LedgerRuns LedgerTotals Reports SmsCampaigns BigintCasts ToolExecutor
open PublicPage (contributors)
open StatementProgram.Program

section sums
variable (db : LedgerDb) (e : ℕ)

theorem contributorRow_committed (q : Person) :
    (contributorRow db e q).committed = committedBy db e q.id := rfl

/-- Payments pledge by pledge are those joined to the pledges of a person. -/
theorem contributorRow_received (q : Person) :
    (contributorRow db e q).received = receivedFrom db e q.id := by
  have hjoin := sumWhere_join db.pledges
    (fun p => p.eventId == e && p.personId == q.id && isLive p) db.fulfillments.rows
    (fun f => f.eventId == e) Fulfillment.pledgeId Fulfillment.value
  have hreceived : receivedFrom db e q.id = sumWhere db.fulfillments.rows
      (fun f => f.eventId == e && db.pledges.rows.any fun p =>
        decide (f.pledgeId = p.id) && (p.eventId == e && p.personId == q.id && isLive p))
      Fulfillment.value := by
    refine sumWhere_congr fun f _ => ⟨?_, fun _ => rfl⟩
    congr 2
    funext p
    rw [Bool.eq_iff_iff]
    simp only [Bool.and_eq_true, beq_iff_eq, decide_eq_true_eq]
    tauto
  rw [hreceived, hjoin]
  refine congrArg List.sum (List.map_congr_left fun p _ => ?_)
  refine congrArg (fun rows => (rows.map Fulfillment.value).sum) (List.filter_congr fun f _ => ?_)
  rw [Bool.eq_iff_iff]
  simp only [Bool.and_eq_true, beq_iff_eq, decide_eq_true_eq]

/-- The reminders' subqueries are the rollup's. -/
theorem unpaidWithPhone_eq (collation : Collation) : unpaidWithPhone collation db e =
    recipients collation (db.persons.rows.filter fun q =>
      q.eventId == e && decide (receivedFrom db e q.id < committedBy db e q.id)) := by
  have hcommitted (i : ℕ) : sumWhere db.pledges.rows (liveOf e i) Pledge.committedValue =
      committedBy db e i := rfl
  have hreceived (i : ℕ) : sumWhere db.fulfillments.rows
      (fun f => f.eventId == e && db.pledges.rows.any fun p => p.id == f.pledgeId && liveOf e i p)
      Fulfillment.value = receivedFrom db e i := by
    refine sumWhere_congr fun f _ => ⟨?_, fun _ => rfl⟩
    congr 2
    funext p
    rw [Bool.eq_iff_iff]
    simp only [liveOf, isLive, Bool.and_eq_true, beq_iff_eq]
    tauto
  simp only [unpaidWithPhone, hcommitted, hreceived]

end sums

/-- The report of those who owe, in any order. -/
def outstandingFilters (reportType : ReportType) (sortField : Option SortField)
    (sortDirection : Option SortDirection) : ReportFilters where
  reportType := reportType
  status := some .outstanding
  sortField := sortField
  sortDirection := sortDirection

section owing
variable (db : LedgerDb) (e : ℕ)

def owingRows : List ContributorRow :=
  ((db.persons.rows.filter fun q => q.eventId == e).map (contributorRow db e)).filter fun r =>
    decide (outstanding r.committed r.received > 0)

theorem sortContributors_perm (rules : ReportRules) (filters : ReportFilters)
    (rows : List ContributorRow) : (sortContributors rules filters rows).Perm rows := by
  unfold sortContributors
  split
  · exact List.perm_insertionSort _ _
  · exact List.perm_insertionSort _ _

theorem run_outstandingReport (rules : ReportRules) (reportType : ReportType)
    (sortField : Option SortField) (sortDirection : Option SortDirection) :
    ∃ rows, (run (queryContributors e rules
        (outstandingFilters reportType sortField sortDirection) none) db).1 = .ok rows ∧
      rows.Perm (owingRows db e) := by
  refine ⟨_, rfl, ?_⟩
  refine (sortContributors_perm _ _ _).trans ?_
  simp [owingRows, passesStatus, passesAmounts, passesSearch, outstandingFilters, givenNumber,
    given]

theorem owes_iff {q : Person} (hq : q ∈ db.persons) (hqe : q.eventId = e) :
    (∃ r ∈ owingRows db e, r.id = q.id) ↔ receivedFrom db e q.id < committedBy db e q.id := by
  have howes (q : Person) : outstanding (contributorRow db e q).committed
      (contributorRow db e q).received > 0 ↔ receivedFrom db e q.id < committedBy db e q.id := by
    rw [contributorRow_committed, contributorRow_received, outstanding_eq]
    omega
  unfold owingRows
  constructor
  · rintro ⟨r, hr, hid⟩
    obtain ⟨hr, hpos⟩ := List.mem_filter.mp hr
    obtain ⟨q', hq', rfl⟩ := List.mem_map.mp hr
    obtain rfl : q' = q := db.persons.key_inj (List.mem_of_mem_filter hq') hq hid
    exact (howes q').mp (of_decide_eq_true hpos)
  · intro hlt
    refine ⟨contributorRow db e q, List.mem_filter.mpr ⟨List.mem_map.mpr ⟨q, ?_, rfl⟩, ?_⟩, rfl⟩
    · exact List.mem_filter.mpr ⟨hq, by simpa using hqe⟩
    · exact decide_eq_true ((howes q).mpr hlt)

theorem length_owingRows : (owingRows db e).length =
    ((withBalances (personRows db e)).filter fun r => r.outstandingValue > 0).length := by
  have hrow (q : Person) : decide (outstanding (contributorRow db e q).committed
      (contributorRow db e q).received > 0) =
      decide (outstanding (committedBy db e q.id) (receivedFrom db e q.id) > 0) := by
    rw [contributorRow_committed, contributorRow_received]
  simp only [owingRows, withBalances, personRows, List.filter_map, List.length_map,
    Function.comp_def, hrow]

end owing

section report
variable {ρ : Type} {db : LedgerDb} {handed : ℕ → Bool} {next : Unit → LedgerProgram ρ} {r : ρ}

theorem run_castSums_bind {sums : LedgerDb → List ℤ}
    (h : (run (castSums sums >>= next) db).1 = .ok r) : (run (next ()) db).1 = .ok r := by
  obtain ⟨c, w, h⟩ := run_eq_ok.mp h
  unfold castSums at h
  rw [bind_assoc, exec_query_bind] at h
  exact run_eq_ok.mpr ⟨c, w, (exec_refuse_bind.mp h).2⟩

theorem run_aggregateSum_bind {sum : LedgerDb → ℕ}
    (h : (run (aggregateSum handed sum >>= next) db).1 = .ok r) :
    (run (next ()) db).1 = .ok r := by
  obtain ⟨c, w, h⟩ := run_eq_ok.mp h
  unfold aggregateSum at h
  rw [bind_assoc, exec_query_bind] at h
  exact run_eq_ok.mpr ⟨c, w, (exec_refuse_bind.mp h).2⟩

theorem run_assert_bind {refusal : Option Refusal}
    (h : (run (refuse refusal >>= next) db).1 = .ok r) : (run (next ()) db).1 = .ok r := by
  obtain ⟨c, w, h⟩ := run_eq_ok.mp h
  exact run_eq_ok.mpr ⟨c, w, (exec_refuse_bind.mp h).2⟩

theorem outstandingContributorCount_eq {ctx : OperationContext} {topN : ℕ} {t : EventReport}
    (h : (run (BigintCasts.getEventReport handed ctx topN) db).1 = .ok t) :
    t.outstandingContributorCount = (owingRows db ctx.event.eventId).length := by
  unfold BigintCasts.getEventReport at h
  have hcast := run_castSums_bind (run_aggregateSum_bind (run_aggregateSum_bind
    (run_castSums_bind (run_aggregateSum_bind (run_aggregateSum_bind (run_assert_bind h))))))
  obtain ⟨c, w, hread⟩ := run_eq_ok.mp hcast
  unfold LedgerReads.getEventReport at hread
  simp only [exec_refuse_bind, exec_query_bind, exec_pure, Except.ok.injEq, Prod.mk.injEq] at hread
  obtain ⟨-, rfl, -, -⟩ := hread
  exact (length_owingRows db ctx.event.eventId).symm

end report

/-- Those written to without a selection are the people with a phone on the report of who owes, and
the event's report counts as many as that report has rows. -/
theorem still_owes_agrees (handed : ℕ → Bool) (db : LedgerDb)
    (calls : List (OperationContext × ServiceCalls.ServiceCall × ServiceCalls.ServiceDraw)) (e : ℕ)
    (hfit : SumsFit handed (reached calls db) e) (rules : ReportRules) (reportType : ReportType)
    (sortField : Option SortField) (sortDirection : Option SortDirection) (collation : Collation) :
    ∃ rows, (run (queryContributors e rules
        (outstandingFilters reportType sortField sortDirection) none) (reached calls db)).1 =
          .ok rows ∧
      unpaidWithPhone collation (reached calls db) e =
        recipients collation ((reached calls db).persons.rows.filter fun q =>
          q.eventId == e && rows.any fun r => r.id == q.id) ∧
      ∀ (ctx : OperationContext) (topN : ℕ), ctx.event.eventId = e →
        can ctx.event.role .ledgerReadAmounts = true →
        ∃ report, (run (BigintCasts.getEventReport handed ctx topN) (reached calls db)).1 =
            .ok report ∧
          report.outstandingContributorCount = rows.length := by
  generalize reached calls db = db at hfit
  obtain ⟨rows, hrows, hperm⟩ := run_outstandingReport db e rules reportType sortField sortDirection
  refine ⟨rows, hrows, ?_, fun ctx topN he hcan => ?_⟩
  · rw [unpaidWithPhone_eq]
    refine congrArg (recipients collation) (List.filter_congr fun q hq => ?_)
    by_cases hqe : q.eventId = e
    · have howes := owes_iff db e hq hqe
      rw [Bool.eq_iff_iff]
      simp only [Bool.and_eq_true, decide_eq_true_eq, List.any_eq_true, beq_iff_eq,
        hperm.mem_iff, howes]
    · rw [beq_eq_false_iff_ne.mpr hqe, Bool.false_and, Bool.false_and]
  · obtain ⟨report, hreport⟩ := (returns_report_iff hcan he).mpr
      ⟨hfit.committed, hfit.received, hfit.people, hfit.budgetTotal, hfit.budgetAllocated,
        hfit.gaps⟩
    have hcount := outstandingContributorCount_eq hreport
    rw [he] at hcount
    exact ⟨report, hreport, hcount.trans hperm.length_eq.symm⟩

/-- John has a phone and promises 100. -/
def promisedOnce : List (OperationContext × ServiceCalls.ServiceCall × ServiceCalls.ServiceDraw) :=
  [(host, .createEvent { name := "Wedding" },
      ⟨⟨0, 0, 0, 0⟩, ⟨0, 7, 0, "w", { allowed := true }, none⟩⟩),
    (host, .ledger (.createPerson { allowed := true }
      { displayName := "John", phone := some "+256700000001" }), drawn 10),
    (host, .ledger (.createPledge { personId := 10, committedValue := 100 }), drawn 20)]

def plainRules : ReportRules where
  names := plainNames
  localeCompare := compare
  number n := n
  numberText q := toString q.num
  idText := toString
  queryString _ := ""

set_option maxRecDepth 4000 in
theorem still_owes_agrees_promised :
    ∃ rows, (run (queryContributors 7 plainRules (outstandingFilters .contributors none none) none)
        (reached promisedOnce registered)).1 = .ok rows ∧
      unpaidWithPhone .codePoints (reached promisedOnce registered) 7 =
        recipients .codePoints ((reached promisedOnce registered).persons.rows.filter fun q =>
          q.eventId == 7 && rows.any fun r => r.id == q.id) ∧
      ∀ (ctx : OperationContext) (topN : ℕ), ctx.event.eventId = 7 →
        can ctx.event.role .ledgerReadAmounts = true →
        ∃ report, (run (BigintCasts.getEventReport (fun _ => true) ctx topN)
            (reached promisedOnce registered)).1 = .ok report ∧
          report.outstandingContributorCount = rows.length := by
  have hlines : (reached promisedOnce registered).budgetItems.rows = [] := by decide
  refine still_owes_agrees (fun _ => true) registered promisedOnce 7
    ⟨rfl, rfl, rfl, rfl, by decide, by decide, by decide, fun event _ _ n hn => ?_⟩ plainRules
    .contributors none none .codePoints
  simp [coveredSums, shownLines, hlines] at hn

/-- The word of the page for a stored status; what is cancelled is not shown. -/
def shownStatus : Status → Option ContributorStatus
  | .pledged => some .pledged
  | .partiallyFulfilled => some .partiallyPaid
  | .fulfilled => some .fullyPaid
  | .cancelled => none

/-- The word of the page; someone who promised nothing is not listed. -/
def shownStanding : PledgeStanding → Option ContributorStatus
  | .noPledge => none
  | .pledged => some .pledged
  | .partiallyPaid => some .partiallyPaid
  | .fullyPaid => some .fullyPaid

/-- The word of the report. -/
def reportedStanding : PledgeStanding → String
  | .noPledge => "no_pledge"
  | .pledged => "unpaid"
  | .partiallyPaid => "partial"
  | .fullyPaid => "complete"

/-- The two classifiers of a pledge part where nothing was promised and nothing paid. -/
theorem contributorStatus_iff (committed fulfilled : ℕ) :
    shownStatus (deriveStatus committed fulfilled) = some (contributorStatus committed fulfilled) ↔
      ¬ (committed = 0 ∧ fulfilled = 0) := by
  unfold deriveStatus contributorStatus
  rcases Nat.eq_zero_or_pos fulfilled with rfl | hpos
  · rcases Nat.eq_zero_or_pos committed with rfl | hc
    · simp [shownStatus]
    · have hlt : ¬ 0 ≥ committed := by omega
      simp [shownStatus, hlt, hc.ne']
  · have hf : ¬ fulfilled ≤ 0 := by omega
    have hne : ¬ fulfilled = 0 := by omega
    by_cases hle : fulfilled ≥ committed
    · simp [shownStatus, hf, hne, hle]
    · simp [shownStatus, hf, hne, hle, hpos]

theorem rowStatus_eq (r : ContributorRow) :
    rowStatus r = reportedStanding (pledgeStanding r.committed r.received) := by
  unfold rowStatus pledgeStanding
  split_ifs <;> rfl

theorem contributorStatus_promised {committed received : ℕ} (h : 0 < committed) :
    some (contributorStatus committed received) = shownStanding (pledgeStanding committed received) := by
  unfold contributorStatus pledgeStanding
  rw [if_neg h.ne']
  split_ifs <;> rfl

section labels
variable (db : LedgerDb) (e : ℕ)

def standingOf (q : Person) : PledgeStanding :=
  pledgeStanding (committedBy db e q.id) (receivedFrom db e q.id)

def pledgeEntry (p : Pledge) (showOutstanding : Bool) : PublicPledgeEntry :=
  publicPledgeEntry p ((db.fulfillments.rows.filter fun f =>
    f.eventId == e && f.pledgeId == p.id).insertionSort fun a b => a.occurredAt ≤ b.occurredAt)
    showOutstanding

/-- Every pledge is shown with its stored status, and every person has one standing on the report,
for the assistant and, where they are listed, on the page. -/
structure LabelsAgree : Prop where
  pledges : ∀ p ∈ db.pledges, p.eventId = e → isLive p = true → ∀ showOutstanding,
    shownStatus p.status = some (pledgeEntry db e p showOutstanding).status
  report : ∀ q ∈ db.persons, q.eventId = e →
    rowStatus (contributorRow db e q) = reportedStanding (standingOf db e q)
  assistant : ∀ q ∈ db.persons, q.eventId = e → ∀ (ctx : OperationContext) name standing,
    ctx.event.eventId = e → (run (contributorStanding ctx q.id name) db).1 = .ok standing →
    standing.pledgeStatus = standingOf db e q
  page : ∀ showOutstanding listed,
    (run (buildContributors e (personRows db e) .namesAndAmounts showOutstanding) db).1 =
      .ok (some listed) →
    ∀ c ∈ listed, ∃ q ∈ db.persons, q.eventId = e ∧ c.displayName = q.displayName ∧
      c.committed = some (moneyToString (committedBy db e q.id)) ∧
      c.received = some (moneyToString (receivedFrom db e q.id)) ∧
      c.status = shownStanding (standingOf db e q)

end labels

section agree
variable {db : LedgerDb} {e : ℕ}

theorem pledgeEntry_status (hs : Sound db) {p : Pledge} (hp : p ∈ db.pledges) (hpe : p.eventId = e)
    (showOutstanding : Bool) : (pledgeEntry db e p showOutstanding).status =
      contributorStatus p.committedValue (paid db p.id) := by
  have hpaid := sumFulfillments_of_mem hs hp
  rw [hpe] at hpaid
  have hsum : (((db.fulfillments.rows.filter fun f =>
      f.eventId == e && f.pledgeId == p.id).insertionSort
        fun a b => a.occurredAt ≤ b.occurredAt).map Fulfillment.value).sum = paid db p.id :=
    ((List.perm_insertionSort _ _).map _).sum_eq.trans hpaid
  change contributorStatus p.committedValue _ = _
  rw [hsum]

theorem pledgeStatus_eq {ctx : OperationContext} {i : ℕ} {name : String}
    {standing : ContributorStanding} (he : ctx.event.eventId = e)
    (h : (run (contributorStanding ctx i name) db).1 = .ok standing) :
    standing.pledgeStatus = pledgeStanding (committedBy db e i) (receivedFrom db e i) := by
  subst he
  unfold contributorStanding at h
  have hread := run_castSums_bind h
  rw [PairedRuns.run_query_bind, PairedRuns.run_query_bind] at hread
  obtain ⟨c, w, hexec⟩ := run_eq_ok.mp (run_castSums_bind hread)
  simp only [exec_query_bind, exec_pure, Except.ok.injEq, Prod.mk.injEq] at hexec
  obtain ⟨rfl, -, -⟩ := hexec
  rfl

theorem listed_status {showOutstanding : Bool} {listed : List PublicContributor}
    (h : (run (buildContributors e (personRows db e) .namesAndAmounts showOutstanding) db).1 =
      .ok (some listed)) {c : PublicContributor} (hc : c ∈ listed) :
    ∃ q ∈ db.persons, q.eventId = e ∧ c.displayName = q.displayName ∧
      c.committed = some (moneyToString (committedBy db e q.id)) ∧
      c.received = some (moneyToString (receivedFrom db e q.id)) ∧
      c.status = shownStanding (standingOf db e q) := by
  obtain ⟨c', w, h⟩ := run_eq_ok.mp h
  unfold buildContributors at h
  obtain ⟨entries, _, _, -, h⟩ := exec_bind_eq_ok.mp h
  obtain ⟨hlisted, -, -⟩ := exec_pure_eq_ok.mp h
  obtain rfl := Option.some.inj hlisted
  obtain ⟨r, hr, rfl⟩ := List.mem_map.mp hc
  have hrow : r ∈ (personRows db e).filter fun r => r.committed > 0 :=
    (List.perm_insertionSort _ _).mem_iff.mp (List.mem_of_mem_take hr)
  obtain ⟨hrow, hpos⟩ := List.mem_filter.mp hrow
  obtain ⟨q, hq, rfl⟩ := List.mem_map.mp hrow
  obtain ⟨hq, hqe⟩ := List.mem_filter.mp hq
  exact ⟨q, hq, by simpa using hqe, rfl, rfl, rfl,
    contributorStatus_promised (of_decide_eq_true hpos)⟩

end agree

/-- The labels of a pledge agree but where nothing was promised and nothing paid; in any state that
a run reaches every label agrees exactly when no live pledge is such. -/
theorem status_labels_agree_iff (committed fulfilled : ℕ) (db : LedgerDb)
    (calls : List Invocation) (e : ℕ) :
    (shownStatus (deriveStatus committed fulfilled) =
        some (contributorStatus committed fulfilled) ↔ ¬ (committed = 0 ∧ fulfilled = 0)) ∧
      (LabelsAgree (ledgerRun (unpledged db) calls) e ↔
        ∀ p ∈ (ledgerRun (unpledged db) calls).pledges, p.eventId = e → isLive p = true →
          ¬ (p.committedValue = 0 ∧ paid (ledgerRun (unpledged db) calls) p.id = 0)) := by
  refine ⟨contributorStatus_iff committed fulfilled, ?_⟩
  have hs := sound_ledgerRun (sound_unpledged db) calls
  have hstored := (ledgerRun_status db calls).1
  generalize ledgerRun (unpledged db) calls = db at hs hstored
  have hlabel {p : Pledge} (hp : p ∈ db.pledges) (hpe : p.eventId = e) (hlive : isLive p = true)
      (showOutstanding : Bool) :
      shownStatus p.status = some (pledgeEntry db e p showOutstanding).status ↔
        ¬ (p.committedValue = 0 ∧ paid db p.id = 0) := by
    have hne : (p.status == .cancelled) = false := by simpa [isLive] using hlive
    rw [pledgeEntry_status hs hp hpe, hstored p hp, hne]
    exact contributorStatus_iff _ _
  constructor
  · intro h p hp hpe hlive
    exact (hlabel hp hpe hlive false).mp (h.pledges p hp hpe hlive false)
  · intro h
    refine ⟨fun p hp hpe hlive shown => (hlabel hp hpe hlive shown).mpr (h p hp hpe hlive),
      fun q hq hqe => ?_, fun q hq hqe ctx name standing he hrun => pledgeStatus_eq he hrun,
      fun shown listed hrun c hc => listed_status hrun hc⟩
    rw [rowStatus_eq, contributorRow_committed, contributorRow_received]
    rfl

/-- John promises two goats, which count nothing as money. -/
def goatsPromised : List Invocation :=
  [⟨host, ⟨10, 0, 0, 0⟩, .createPerson { allowed := true } { displayName := "John" }, false⟩,
    ⟨host, ⟨0, 20, 0, 1⟩,
      .createPledge
        { personId := 10
          committedValue := 0
          type := some .item
          description := some "2 goats" }, false⟩]

/-- The page shows the goats as paid, the ledger as promised. -/
theorem promised_goats_shown_paid :
    ¬ ∀ (db : LedgerDb) (calls : List Invocation) (e : ℕ),
      LabelsAgree (ledgerRun (unpledged db) calls) e := by
  intro h
  have hrow : ∃ p ∈ (ledgerRun (unpledged .empty) goatsPromised).pledges.rows, p.eventId = 7 ∧
      isLive p = true ∧ shownStatus p.status ≠
        some (pledgeEntry (ledgerRun (unpledged .empty) goatsPromised) 7 p true).status := by
    decide
  obtain ⟨p, hp, hpe, hlive, hne⟩ := hrow
  exact hne ((h .empty goatsPromised 7).pledges p hp hpe hlive true)

end Akabbo.ContributorStandings
