import Akabbo.PairedRuns
import Akabbo.Reports
import Akabbo.ServiceCalls

/-!
# What a viewer can learn

A viewer may know what an event is, how much of its target is covered, its budget plan and
its groups. Two states that agree on that, and which of a viewer's reads can tell them apart.
-/
namespace Akabbo.ViewerReads
open Access PledgeStatus RowTable StatementProgram ProgramParts PairedRuns LedgerState LedgerReads Confirmations
open Reports EventWrites ServiceCalls ToolExecutor
open StatementProgram.Program (query run refuse orThrow)

inductive ViewerRead
  | fundingSummary
  | report (filters : ReportFilters)
  | contributors (filters : ReportFilters) (page pageSize : ℤ) (search : Option String)
  | csv (filters : ReportFilters)
  | funders (itemName : String)
  | fundersById (itemId : ℕ)
  | budgetBreakdown
  | pending
  deriving DecidableEq, Repr

inductive Answer
  | funding (summary : FundingSummary)
  | report (result : ReportResult)
  | page (page : ContributorPage)
  | csv (text : String)
  | funders (result : BudgetItemFunders)
  | breakdown (budget : BudgetBreakdown)
  | pending (rows : List PendingView)

def ViewerRead.program (rules : ReportRules) (ctx : OperationContext) :
    ViewerRead → LedgerProgram Answer
  | .fundingSummary => Answer.funding <$> getFundingSummary ctx
  | .report filters => Answer.report <$> generateReport ctx rules filters
  | .contributors filters page pageSize search =>
      Answer.page <$> getPaginatedContributors ctx rules filters page pageSize search
  | .csv filters => Answer.csv <$> exportCsv ctx rules filters
  | .funders itemName => Answer.funders <$> getBudgetItemFunders ctx rules itemName
  | .fundersById itemId => Answer.funders <$> getBudgetItemFundersById ctx itemId
  | .budgetBreakdown => Answer.breakdown <$> Reports.budgetBreakdown ctx
  | .pending => Answer.pending <$> listPending ctx

def targetOf (db : LedgerDb) (e : ℕ) : Option ℕ := (db.events.get? e).bind Event.targetAmount

structure SameToViewer (db db' : LedgerDb) (e : ℕ) : Prop where
  profile : ((db.events.get? e).map fun event => { event with targetAmount := none }) =
    (db'.events.get? e).map fun event => { event with targetAmount := none }
  hasTarget : (targetOf db e).isSome = (targetOf db' e).isSome
  funded : percentCovered (receivedAgg db e) (targetOf db e) =
    percentCovered (receivedAgg db' e) (targetOf db' e)
  plan : ((db.budgetItems.rows.filter fun b => b.eventId == e).map fun b =>
      (b.id, b.name, b.targetValue)) =
    (db'.budgetItems.rows.filter fun b => b.eventId == e).map fun b => (b.id, b.name, b.targetValue)
  groups : ((db.groups.rows.filter fun g => g.eventId == e).map fun g => (g.id, g.name)) =
    (db'.groups.rows.filter fun g => g.eventId == e).map fun g => (g.id, g.name)

/-- A viewer who reads this in two states that look the same to them reads the same. -/
def Blind (rules : ReportRules) (read : ViewerRead) : Prop :=
  ∀ (db db' : LedgerDb) (ctx : OperationContext), ctx.event.role = .viewer →
    SameToViewer db db' ctx.event.eventId →
    (run (read.program rules ctx) db).1 = (run (read.program rules ctx) db').1

/-- Some contributor would be on the list. -/
def LetsThrough (rules : ReportRules) (filters : ReportFilters) : Prop :=
  ∃ (name : String) (committed received : ℕ),
    passesSearch rules filters name = true ∧
    passesStatus filters.status ⟨0, name, none, committed, received, []⟩ = true ∧
    passesAmounts rules filters ⟨0, name, none, committed, received, []⟩ = true

/-- The funding summary, and the lists that no contributor would ever be on. -/
def TellsNothing (rules : ReportRules) : ViewerRead → Prop
  | .fundingSummary => True
  | .report filters =>
      filters.reportType ≠ .budget ∧ filters.reportType ≠ .payments ∧ ¬ LetsThrough rules filters
  | .contributors filters _ _ search => ¬ LetsThrough rules (searching filters search)
  | .csv filters => ¬ LetsThrough rules filters
  | _ => False

section silent
variable {rules : ReportRules} {filters : ReportFilters} {db db' : LedgerDb} {e : ℕ}

theorem sortContributors_nil : sortContributors rules filters [] = [] := by
  unfold sortContributors
  split <;> rfl

theorem selectContributors_nil {rows : List ContributorRow} (h : ¬ LetsThrough rules filters)
    (hsearch : ∀ r ∈ rows, passesSearch rules filters r.displayName = true) :
    selectContributors rules filters rows = [] := by
  have hnone : (rows.filter (passesStatus filters.status)).filter (passesAmounts rules filters) =
      [] := by
    refine List.filter_eq_nil_iff.mpr fun r hr hamounts => h ?_
    obtain ⟨hr, hstatus⟩ := List.mem_filter.mp hr
    exact ⟨r.displayName, r.committed, r.received, hsearch r hr, hstatus, hamounts⟩
  unfold selectContributors
  rw [hnone, sortContributors_nil]

theorem readOnly_queryContributors (groupId : Option ℕ) :
    ReadOnly (queryContributors e rules filters groupId) :=
  effects_bind (effects_query _) fun _ => trivial

theorem alike_silent (h : ¬ LetsThrough rules filters) (g g' : Option ℕ) :
    alike (fun rows rows' => rows = [] ∧ rows' = []) (queryContributors e rules filters g)
      (queryContributors e rules filters g') db db' := by
  have hnil (d : LedgerDb) (g : Option ℕ) : selectContributors rules filters
      ((d.persons.rows.filter fun q => q.eventId == e && passesSearch rules filters q.displayName &&
        g.all fun g => d.personGroups.rows.any fun r =>
          r.eventId == e && r.personId == q.id && r.groupId == g).map (contributorRow d e)) = [] := by
    refine selectContributors_nil h fun r hr => ?_
    obtain ⟨q, hq, rfl⟩ := List.mem_map.mp hr
    have hpasses := (List.mem_filter.mp hq).2
    simp only [Bool.and_eq_true] at hpasses
    exact hpasses.1.2
  exact alike_query_bind (alike_pure ⟨hnil db g, hnil db' g'⟩)

theorem readOnly_resolveGroupName (groupName : String) :
    ReadOnly (resolveGroupName e rules groupName) := by
  refine effects_bind (effects_query _) fun found => ?_
  split <;> trivial

theorem readOnly_resolveGroup (groupName : Option String) :
    ReadOnly (resolveGroup e rules groupName) := by
  unfold resolveGroup
  split
  · trivial
  · exact effects_map (readOnly_resolveGroupName _) _

theorem alike_resolveGroup (groupName : Option String) (h : SameToViewer db db' e) :
    alike Eq (resolveGroup e rules groupName) (resolveGroup e rules groupName) db db' := by
  have hfound (d : LedgerDb) (term : String) : ((d.groups.rows.filter fun g =>
      g.eventId == e && rules.names.contains g.name term).map fun g => (g.id, g.name)) =
      ((d.groups.rows.filter fun g => g.eventId == e).map fun g => (g.id, g.name)).filter
        fun g => rules.names.contains g.2 term := by
    rw [List.filter_map, List.filter_filter]
    simp only [Function.comp_def, Bool.and_comm]
  rw [alike_eq]
  unfold resolveGroup
  split
  · rfl
  · rename_i term _
    simp only [resolveGroupName, map_eq_pure_bind, bind_assoc]
    refine alike_eq.mp (alike_query_bind ?_)
    rw [hfound, hfound, h.groups]
    split <;> exact alike_pure rfl

theorem readOnly_reportBody (groupId : Option ℕ) (limit : ℕ) :
    ReadOnly (reportBody e rules filters groupId limit) := by
  unfold reportBody
  split
  · exact effects_bind (effects_query _) fun _ => trivial
  · exact effects_bind (effects_query _) fun _ => effects_bind (effects_orThrow _ _) fun _ => trivial
  · exact effects_bind (readOnly_queryContributors _) fun _ => trivial

theorem readOnly_report {ctx : OperationContext} : ReadOnly (generateReport ctx rules filters) :=
  effects_bind (effects_refuse _) fun _ => effects_bind (readOnly_resolveGroup _) fun _ =>
    effects_bind (readOnly_reportBody _ _) fun _ => trivial

theorem alike_report {ctx : OperationContext} (h : SameToViewer db db' ctx.event.eventId)
    (hbudget : filters.reportType ≠ .budget) (hpayments : filters.reportType ≠ .payments)
    (hsilent : ¬ LetsThrough rules filters) :
    alike Eq (generateReport ctx rules filters) (generateReport ctx rules filters) db db' := by
  have hbody (limit : ℕ) (g : Option ℕ) :
      alike Eq (reportBody ctx.event.eventId rules filters g limit)
        (reportBody ctx.event.eventId rules filters g limit) db db' := by
    unfold reportBody
    cases htype : filters.reportType with
    | budget => exact absurd htype hbudget
    | payments => exact absurd htype hpayments
    | _ =>
      refine alike_bind (readOnly_queryContributors _) (readOnly_queryContributors _)
        (alike_silent hsilent _ _) ?_
      rintro _ _ ⟨rfl, rfl⟩
      exact alike_pure rfl
  refine alike_refuse_bind fun _ => alike_bind (readOnly_resolveGroup _) (readOnly_resolveGroup _)
    (alike_resolveGroup _ h) ?_
  rintro resolution - rfl
  refine alike_bind (readOnly_reportBody _ _) (readOnly_reportBody _ _) (hbody _ _) ?_
  rintro body - rfl
  exact alike_pure rfl

theorem readOnly_page {ctx : OperationContext} (page pageSize : ℤ) (search : Option String) :
    ReadOnly (getPaginatedContributors ctx rules filters page pageSize search) :=
  effects_bind (effects_refuse _) fun _ => effects_bind (readOnly_resolveGroup _) fun _ =>
    effects_bind (readOnly_queryContributors _) fun _ => trivial

theorem alike_page {ctx : OperationContext} (h : SameToViewer db db' ctx.event.eventId)
    (page pageSize : ℤ) (search : Option String)
    (hsilent : ¬ LetsThrough rules (searching filters search)) :
    alike Eq (getPaginatedContributors ctx rules filters page pageSize search)
      (getPaginatedContributors ctx rules filters page pageSize search) db db' := by
  refine alike_refuse_bind fun _ => alike_bind (readOnly_resolveGroup _) (readOnly_resolveGroup _)
    (alike_resolveGroup _ h) ?_
  rintro resolution - rfl
  refine alike_bind (readOnly_queryContributors _) (readOnly_queryContributors _)
    (alike_silent hsilent _ _) ?_
  rintro _ _ ⟨rfl, rfl⟩
  exact alike_pure rfl

theorem readOnly_csv {ctx : OperationContext} : ReadOnly (exportCsv ctx rules filters) :=
  effects_bind (readOnly_page _ _ _) fun _ => trivial

theorem alike_csv {ctx : OperationContext} (h : SameToViewer db db' ctx.event.eventId)
    (hsilent : ¬ LetsThrough rules filters) :
    alike Eq (exportCsv ctx rules filters) (exportCsv ctx rules filters) db db' := by
  refine alike_bind (readOnly_page _ _ _) (readOnly_page _ _ _) (alike_page h _ _ none hsilent) ?_
  rintro page - rfl
  exact alike_pure rfl

theorem readOnly_fundingSummary {ctx : OperationContext} : ReadOnly (getFundingSummary ctx) :=
  effects_bind (effects_refuse _) fun _ => effects_bind (effects_query _) fun _ =>
    effects_bind (effects_query _) fun _ => trivial

theorem alike_fundingSummary {ctx : OperationContext}
    (h : SameToViewer db db' ctx.event.eventId) :
    alike Eq (getFundingSummary ctx) (getFundingSummary ctx) db db' := by
  refine alike_refuse_bind fun _ => alike_query_bind (alike_query_bind (alike_pure ?_))
  exact congrArg₂ FundingSummary.mk h.funded h.hasTarget

end silent

def watcher : OperationContext := ⟨⟨2, true⟩, ⟨7, .viewer, .active⟩⟩

def quiet : LedgerDb :=
  { LedgerDb.empty with
    events := Table.empty.insertNew
      { id := 7, ownerUserId := 1, slug := "wedding", name := "Wedding", createdAt := 0 } }

def giver (name : String) : Person := ⟨10, 7, name, none, none, .humanTyped, some 1, 1⟩

def promise (committed received : ℕ) : Pledge :=
  ⟨20, 7, 10, .cash, committed, deriveStatus committed received, none, none, none, none, none,
    false, .humanTyped, some 1, 2⟩

def payment (received : ℕ) : Fulfillment :=
  ⟨30, 7, 20, .payment, received, "UGX", .cash, .unverified, none, 3, none, .humanTyped, some 1, 3⟩

/-- One contributor, what they promised and what they paid. -/
def gave (name : String) (committed received : ℕ) : LedgerDb :=
  { quiet with
    persons := Table.empty.insertNew (giver name)
    pledges := Table.empty.insertNew (promise committed received)
    fulfillments := Table.empty.insertNew (payment received) }

def line (itemId : ℕ) (name : String) : BudgetItem :=
  ⟨itemId, 7, 50, name, 100, true, .humanTyped, none, some 1, 1, 4⟩

/-- A budget line beside a payment of 60. -/
def planned (itemId : ℕ) (name : String) : LedgerDb :=
  { gave "John" 100 60 with budgetItems := Table.empty.insertNew (line itemId name) }

/-- The payment put on that line. -/
def earmarked (itemId : ℕ) (name : String) : LedgerDb :=
  { planned itemId name with allocations := Table.empty.insertNew ⟨60, 7, 30, itemId, 60⟩ }

def waiting : LedgerDb :=
  { quiet with
    pendingConfirmations := Table.empty.insertNew
      { id := 70, eventId := 7, payload := .recordPledge none "John" "100" none none none none
        confidence := none, source := .aiFromChat, status := .pending
        prompt := "Record a pledge of 100 from John?", createdById := some 1
        resolvedById := none, resolvedAt := none } }

@[simp] theorem watcher_event : watcher.event.eventId = 7 := rfl

theorem same_gave (name : String) (committed received : ℕ) :
    SameToViewer quiet (gave name committed received) 7 := ⟨rfl, rfl, rfl, rfl, rfl⟩

theorem same_earmarked (itemId : ℕ) (name : String) :
    SameToViewer (planned itemId name) (earmarked itemId name) 7 := ⟨rfl, rfl, rfl, rfl, rfl⟩

theorem same_waiting : SameToViewer quiet waiting 7 := ⟨rfl, rfl, rfl, rfl, rfl⟩

section told
variable {rules : ReportRules} {filters : ReportFilters} {db : LedgerDb}

/-- Without groups a report is that of everyone. -/
theorem run_resolveGroup (rules : ReportRules) (hgroups : db.groups.rows = []) (groupName : Option String) :
    ∃ resolution, (run (resolveGroup 7 rules groupName) db).1 = .ok resolution ∧
      resolvedGroup resolution = none := by
  unfold resolveGroup
  split
  · exact ⟨none, rfl, rfl⟩
  · rename_i term _
    refine ⟨some (term, .error []), ?_, rfl⟩
    have hnone : ((db.groups.rows.filter fun g =>
        g.eventId == 7 && rules.names.contains g.name term).map fun g => (g.id, g.name)) = [] := by
      rw [hgroups]
      rfl
    rw [run_readOnly_map (readOnly_resolveGroupName _), resolveGroupName, run_query_bind, hnone]
    rfl

theorem queryContributors_quiet (filters : ReportFilters) :
    (run (queryContributors 7 rules filters none) quiet).1 = .ok [] := by
  change Except.ok (selectContributors rules filters []) = _
  exact congrArg Except.ok sortContributors_nil

theorem contributorRow_gave (name : String) (committed received : ℕ) :
    contributorRow (gave name committed received) 7 (giver name) =
      ⟨10, name, none, committed, received, []⟩ := by
  have hlive : isLive (promise committed received) = true := by
    simp [isLive, promise, deriveStatus_eq_cancelled]
  have hpledges : ((gave name committed received).pledges.rows.filter fun p =>
      p.eventId == 7 && p.personId == (giver name).id && isLive p) = [promise committed received] := by
    change [promise committed received].filter _ = _
    have hkept : ((promise committed received).eventId == 7 &&
        (promise committed received).personId == (giver name).id &&
          isLive (promise committed received)) = true := by
      rw [hlive]
      rfl
    refine List.filter_eq_self.mpr fun p hp => ?_
    rw [List.mem_singleton.mp hp]
    exact hkept
  unfold contributorRow
  rw [hpledges]
  rfl

/-- The one contributor is on a list that lets them through. -/
theorem queryContributors_gave {name : String} {committed received : ℕ}
    (hsearch : passesSearch rules filters name = true)
    (hstatus : passesStatus filters.status ⟨0, name, none, committed, received, []⟩ = true)
    (hamounts : passesAmounts rules filters ⟨0, name, none, committed, received, []⟩ = true) :
    (run (queryContributors 7 rules filters none) (gave name committed received)).1 =
      .ok [⟨10, name, none, committed, received, []⟩] := by
  have hstatus' : passesStatus filters.status ⟨10, name, none, committed, received, []⟩ = true :=
    hstatus
  have hamounts' : passesAmounts rules filters ⟨10, name, none, committed, received, []⟩ = true :=
    hamounts
  have hpeople : ((gave name committed received).persons.rows.filter fun q => q.eventId == 7 &&
      passesSearch rules filters q.displayName && (none : Option ℕ).all fun g =>
        (gave name committed received).personGroups.rows.any fun r =>
          r.eventId == 7 && r.personId == q.id && r.groupId == g) = [giver name] := by
    change [giver name].filter _ = _
    simp [giver, hsearch]
  rw [queryContributors, run_query_bind, hpeople, List.map_singleton, contributorRow_gave]
  unfold selectContributors
  rw [List.filter_cons_of_pos hstatus', List.filter_nil, List.filter_cons_of_pos hamounts',
    List.filter_nil]
  unfold sortContributors
  split <;> rfl

/-- The number of records and the first of them, read off a report. -/
theorem run_report (hgroups : db.groups.rows = []) :
    (run (generateReport watcher rules filters) db).1.map
        (fun r => (r.reportRef.totalRecords, r.preview)) =
      (run (reportBody 7 rules filters none
          (min (max (filters.limit.getD defaultLimit) 1) maxLimit).toNat) db).1.map
        fun b => (b.totalRecords, b.preview) := by
  obtain ⟨resolution, hr, hnone⟩ := run_resolveGroup rules hgroups filters.groupName
  change (run (resolveGroup 7 rules filters.groupName >>= _) db).1.map _ = _
  rw [run_readOnly_bind (readOnly_resolveGroup _), hr, Except.bind]
  simp only [hnone, Option.map_none, watcher_event]
  rw [run_readOnly_bind (readOnly_reportBody _ _)]
  cases (run (reportBody 7 rules filters none _) db).1 <;> rfl

theorem run_page (rules : ReportRules) (filters : ReportFilters) (hgroups : db.groups.rows = [])
    (page pageSize : ℤ) (search : Option String) :
    (run (getPaginatedContributors watcher rules filters page pageSize search) db).1.map
        (fun r => (r.totalRecords, r.rows)) =
      (run (queryContributors 7 rules (searching filters search) none) db).1.map fun all =>
        (all.length,
          (slice all ((page - 1) * pageSize) ((page - 1) * pageSize + pageSize)).map pageRow) := by
  obtain ⟨resolution, hr, hnone⟩ := run_resolveGroup rules hgroups filters.groupName
  change (run (resolveGroup 7 rules filters.groupName >>= _) db).1.map _ = _
  rw [run_readOnly_bind (readOnly_resolveGroup _), hr, Except.bind]
  simp only [hnone, Option.map_none, watcher_event]
  rw [run_readOnly_bind (readOnly_queryContributors _)]
  cases (run (queryContributors 7 rules (searching filters search) none) db).1 <;> rfl

theorem tells_page {page pageSize : ℤ} {search : Option String}
    (h : LetsThrough rules (searching filters search)) :
    ¬ Blind rules (.contributors filters page pageSize search) := by
  intro hblind
  obtain ⟨name, committed, received, hsearch, hstatus, hamounts⟩ := h
  have hsame := hblind quiet (gave name committed received) watcher rfl (same_gave _ _ _)
  rw [← alike_eq, ViewerRead.program, alike_map_iff (fun _ _ => Answer.page.inj)
    (readOnly_page _ _ _) (readOnly_page _ _ _), alike_eq] at hsame
  have hrecords := congrArg (Except.map fun r : ContributorPage => (r.totalRecords, r.rows)) hsame
  rw [run_page _ _ rfl, run_page _ _ rfl, queryContributors_quiet,
    queryContributors_gave hsearch hstatus hamounts] at hrecords
  cases hrecords

def csvText (rows : List PageRow) : String := "\n".intercalate (csvHeader :: rows.map csvLine)

theorem run_csv (hgroups : db.groups.rows = []) :
    (run (exportCsv watcher rules filters) db).1 =
      (run (queryContributors 7 rules filters none) db).1.map fun all =>
        csvText ((slice all 0 5000).map pageRow) := by
  have hpage := run_page rules filters hgroups 1 5000 none
  change (run (getPaginatedContributors watcher rules filters 1 5000 none >>= _) db).1 = _
  rw [run_readOnly_bind (readOnly_page _ _ _)]
  calc (run (getPaginatedContributors watcher rules filters 1 5000 none) db).1.bind _
      = ((run (getPaginatedContributors watcher rules filters 1 5000 none) db).1.map
          fun r => (r.totalRecords, r.rows)).map fun p => csvText p.2 := by
        cases (run (getPaginatedContributors watcher rules filters 1 5000 none) db).1 <;> rfl
    _ = (run (queryContributors 7 rules filters none) db).1.map fun all =>
          csvText ((slice all 0 5000).map pageRow) := by
        rw [hpage, show searching filters none = filters from rfl]
        cases (run (queryContributors 7 rules filters none) db).1 <;> rfl

theorem csvText_one (row : PageRow) : csvText [] ≠ csvText [row] := by
  intro h
  have hlength : csvHeader.length = (csvHeader ++ "\n" ++ csvLine row).length :=
    congrArg String.length h
  simp only [String.length_append] at hlength
  have hbreak : "\n".length = 1 := rfl
  omega

theorem tells_csv (h : LetsThrough rules filters) : ¬ Blind rules (.csv filters) := by
  intro hblind
  obtain ⟨name, committed, received, hsearch, hstatus, hamounts⟩ := h
  have hsame := hblind quiet (gave name committed received) watcher rfl (same_gave _ _ _)
  rw [← alike_eq, ViewerRead.program, alike_map_iff (fun _ _ => Answer.csv.inj)
    readOnly_csv readOnly_csv, alike_eq] at hsame
  rw [run_csv rfl, run_csv rfl, queryContributors_quiet,
    queryContributors_gave hsearch hstatus hamounts] at hsame
  exact csvText_one _ (Except.ok.inj hsame)

/-- What a report shows of a state in which everyone's budget, payments or records differ. -/
theorem tells_report {db db' : LedgerDb} (hsame : SameToViewer db db' 7) (hgroups : db.groups.rows = [])
    (hgroups' : db'.groups.rows = [])
    (hbody : ∀ limit : ℕ, 0 < limit →
      (run (reportBody 7 rules filters none limit) db).1.map (fun b => (b.totalRecords, b.preview)) ≠
        (run (reportBody 7 rules filters none limit) db').1.map
          fun b => (b.totalRecords, b.preview)) :
    ¬ Blind rules (.report filters) := by
  intro hblind
  have hreport := hblind db db' watcher rfl hsame
  rw [← alike_eq, ViewerRead.program, alike_map_iff (fun _ _ => Answer.report.inj)
    readOnly_report readOnly_report, alike_eq] at hreport
  have hshown := congrArg
    (Except.map fun r : ReportResult => (r.reportRef.totalRecords, r.preview)) hreport
  rw [run_report hgroups, run_report hgroups'] at hshown
  exact hbody _ (by unfold maxLimit; omega) hshown

theorem tells_contributors (hbudget : filters.reportType ≠ .budget)
    (hpayments : filters.reportType ≠ .payments) (h : LetsThrough rules filters) :
    ¬ Blind rules (.report filters) := by
  obtain ⟨name, committed, received, hsearch, hstatus, hamounts⟩ := h
  refine tells_report (same_gave name committed received) rfl rfl fun limit _ hbody => ?_
  unfold reportBody at hbody
  cases htype : filters.reportType with
  | budget => exact absurd htype hbudget
  | payments => exact absurd htype hpayments
  | _ =>
    simp only [htype] at hbody
    rw [run_readOnly_bind (readOnly_queryContributors _),
      run_readOnly_bind (readOnly_queryContributors _), queryContributors_quiet,
      queryContributors_gave hsearch hstatus hamounts] at hbody
    cases hbody

theorem tells_payments (htype : filters.reportType = .payments) : ¬ Blind rules (.report filters) := by
  refine tells_report (same_gave "John" 100 60) rfl rfl fun limit _ hbody => ?_
  unfold reportBody at hbody
  simp only [htype] at hbody
  cases hbody

theorem tells_budget (htype : filters.reportType = .budget) : ¬ Blind rules (.report filters) := by
  refine tells_report (same_earmarked 51 "Food") rfl rfl fun limit hlimit hbody => ?_
  obtain ⟨limit, rfl⟩ := Nat.exists_eq_add_of_lt hlimit
  unfold reportBody at hbody
  simp only [htype] at hbody
  have hrow := congrArg (fun shown : Except Refusal (ℕ × List ReportPreviewRow) =>
    shown.toOption.bind fun p => p.2.head?) hbody
  have hpreview : budgetPreview "Food" 100 0 = budgetPreview "Food" 100 60 := Option.some.inj hrow
  exact absurd hpreview (by decide)

theorem fundersOf_earmarked (itemId : ℕ) (name : String) :
    fundersOf (earmarked itemId name) 7 itemId = [("John", 60, 3)] := by
  have hrows : (earmarked itemId name).allocations.rows.filter
      (fun a => a.eventId == 7 && a.budgetItemId == itemId) = [⟨60, 7, 30, itemId, 60⟩] := by
    change [(⟨60, 7, 30, itemId, 60⟩ : Allocation)].filter _ = _
    simp
  unfold fundersOf
  rw [hrows]
  rfl

/-- The coverage of a line is all that differs. -/
theorem fundersForItem_tells (itemId : ℕ) (name : String) :
    (run (fundersForItem 7 itemId name 100) (planned itemId name)).1 ≠
      (run (fundersForItem 7 itemId name 100) (earmarked itemId name)).1 := by
  have hplanned : (run (fundersForItem 7 itemId name 100) (planned itemId name)).1 =
      .ok (.resolved name "100" "0" [] []) := by
    have hnone : fundersOf (planned itemId name) 7 itemId = [] := rfl
    rw [fundersForItem, run_query_bind, hnone]
    rfl
  have hearmarked : (run (fundersForItem 7 itemId name 100) (earmarked itemId name)).1 =
      .ok (.resolved name "100" "60" [⟨"John", "60", 3⟩] []) := by
    rw [fundersForItem, run_query_bind, fundersOf_earmarked]
    rfl
  rw [hplanned, hearmarked]
  intro h
  injection h with h
  injection h with _ _ hcovered
  exact absurd hcovered (by decide)

theorem readOnly_fundersForItem {e itemId target : ℕ} {name : String} :
    ReadOnly (fundersForItem e itemId name target) :=
  effects_bind (effects_query _) fun _ => effects_bind (effects_query _) fun _ =>
    effects_bind (effects_orThrow _ _) fun _ => trivial

theorem readOnly_fundersById (itemId : ℕ) {ctx : OperationContext} :
    ReadOnly (getBudgetItemFundersById ctx itemId) := by
  refine effects_bind (effects_refuse _) fun _ => effects_bind (effects_query _) fun found => ?_
  cases found with
  | none => trivial
  | some item => exact readOnly_fundersForItem

theorem readOnly_funders (itemName : String) {ctx : OperationContext} :
    ReadOnly (getBudgetItemFunders ctx rules itemName) := by
  refine effects_bind (effects_refuse _) fun _ => effects_bind (effects_query _) fun items => ?_
  split
  · trivial
  · exact readOnly_fundersForItem
  · trivial

theorem run_fundersById {itemId : ℕ} {name : String} (db : LedgerDb)
    (hitems : db.budgetItems.rows = [line itemId name]) :
    run (getBudgetItemFundersById watcher itemId) db =
      run (fundersForItem 7 itemId name 100) db := by
  have hfound : EventWrites.findBudgetItem db 7 itemId = some (line itemId name) := by
    unfold EventWrites.findBudgetItem Table.find?
    rw [hitems]
    simp [line]
  change run (query (fun db => EventWrites.findBudgetItem db 7 itemId) >>= _) db = _
  rw [run_query_bind, hfound]
  rfl

theorem run_funders {itemName : String} (db : LedgerDb)
    (hitems : db.budgetItems.rows = [line 51 (rules.names.trim itemName)]) :
    run (getBudgetItemFunders watcher rules itemName) db =
      run (fundersForItem 7 51 (rules.names.trim itemName) 100) db := by
  have hfound : db.budgetItems.rows.filter (fun b => b.eventId == 7 &&
      rules.names.lower b.name == rules.names.lower (rules.names.trim itemName)) =
      [line 51 (rules.names.trim itemName)] := by
    rw [hitems]
    simp [line]
  change run (query (fun db : LedgerDb => db.budgetItems.rows.filter fun b => b.eventId == 7 &&
    rules.names.lower b.name == rules.names.lower (rules.names.trim itemName)) >>= _) db = _
  rw [run_query_bind, hfound]
  rfl

theorem tells_fundersById (itemId : ℕ) : ¬ Blind rules (.fundersById itemId) := by
  intro hblind
  have hsame := hblind _ _ watcher rfl (same_earmarked itemId "Food")
  rw [← alike_eq, ViewerRead.program, alike_map_iff (fun _ _ => Answer.funders.inj)
    (readOnly_fundersById _) (readOnly_fundersById _), alike_eq,
    run_fundersById (planned itemId "Food") rfl, run_fundersById (earmarked itemId "Food") rfl] at hsame
  exact fundersForItem_tells itemId "Food" hsame

theorem tells_funders (itemName : String) : ¬ Blind rules (.funders itemName) := by
  intro hblind
  have hsame := hblind _ _ watcher rfl (same_earmarked 51 (rules.names.trim itemName))
  rw [← alike_eq, ViewerRead.program, alike_map_iff (fun _ _ => Answer.funders.inj)
    (readOnly_funders _) (readOnly_funders _), alike_eq,
    run_funders (planned 51 (rules.names.trim itemName)) rfl,
    run_funders (earmarked 51 (rules.names.trim itemName)) rfl] at hsame
  exact fundersForItem_tells 51 (rules.names.trim itemName) hsame

theorem tells_breakdown : ¬ Blind rules .budgetBreakdown := by
  intro hblind
  have hsame := hblind _ _ watcher rfl (same_earmarked 51 "Food")
  injection hsame with hsame
  injection hsame with hsame
  injection hsame with _ hcovered
  exact absurd hcovered (by decide)

theorem tells_pending : ¬ Blind rules .pending := by
  intro hblind
  have hsame := hblind _ _ watcher rfl same_waiting
  cases hsame

theorem blind_of_alike {τ : Type} {answer : τ → Answer} {read : ViewerRead}
    {program : OperationContext → LedgerProgram τ}
    (hread : ∀ ctx, read.program rules ctx = answer <$> program ctx)
    (hp : ∀ ctx, ReadOnly (program ctx))
    (h : ∀ (ctx : OperationContext) (db db' : LedgerDb), SameToViewer db db' ctx.event.eventId →
      alike Eq (program ctx) (program ctx) db db') : Blind rules read := by
  intro db db' ctx _ hsame
  rw [hread, run_readOnly_map (hp ctx), run_readOnly_map (hp ctx), alike_eq.mp (h ctx db db' hsame)]

/-- Which reads keep from a viewer what a viewer is not meant to see: the funding summary, and a
list of contributors whose filters no contributor passes. Every other read tells. -/
theorem blind_iff (rules : ReportRules) (read : ViewerRead) :
    Blind rules read ↔ TellsNothing rules read := by
  constructor
  · intro hblind
    cases read with
    | fundingSummary => trivial
    | report filters =>
      have hbudget : filters.reportType ≠ .budget := fun h => tells_budget h hblind
      have hpayments : filters.reportType ≠ .payments := fun h => tells_payments h hblind
      exact ⟨hbudget, hpayments, fun h => tells_contributors hbudget hpayments h hblind⟩
    | contributors filters page pageSize search => exact fun h => tells_page h hblind
    | csv filters => exact fun h => tells_csv h hblind
    | funders itemName => exact tells_funders itemName hblind
    | fundersById itemId => exact tells_fundersById itemId hblind
    | budgetBreakdown => exact tells_breakdown hblind
    | pending => exact tells_pending hblind
  · intro h
    cases read with
    | fundingSummary =>
      exact blind_of_alike (fun _ => rfl) (fun _ => readOnly_fundingSummary) fun _ _ _ hsame =>
        alike_fundingSummary hsame
    | report filters =>
      exact blind_of_alike (fun _ => rfl) (fun _ => readOnly_report) fun _ _ _ hsame =>
        alike_report hsame h.1 h.2.1 h.2.2
    | contributors filters page pageSize search =>
      exact blind_of_alike (fun _ => rfl) (fun _ => readOnly_page _ _ _) fun _ _ _ hsame =>
        alike_page hsame _ _ _ h
    | csv filters =>
      exact blind_of_alike (fun _ => rfl) (fun _ => readOnly_csv) fun _ _ _ hsame =>
        alike_csv hsame h
    | funders | fundersById | budgetBreakdown | pending => exact h.elim

end told

/-- Two contributors who promised 100 each towards a target of 200, and what they paid. -/
def collected (john mary : ℕ) : LedgerDb :=
  served ⟨⟨1, true⟩, ⟨7, .owner, .active⟩⟩
    [(.createEvent { name := "Wedding", targetAmount := some 200 },
        ⟨⟨0, 0, 0, 0⟩, ⟨0, 7, 0, "wedding", { allowed := true }, none⟩⟩),
      (.ledger (.createPerson { allowed := true } { displayName := "John" }), draw 10),
      (.ledger (.createPerson { allowed := true } { displayName := "Mary" }), draw 11),
      (.ledger (.createPledge { personId := 10, committedValue := 100 }), draw 20),
      (.ledger (.createPledge { personId := 11, committedValue := 100 }), draw 21),
      (.ledger (.recordFulfillment { pledgeId := 20, value := john }), draw 30),
      (.ledger (.recordFulfillment { pledgeId := 21, value := mary }), draw 31)]
    { LedgerDb.empty with users := Table.empty.insertNew ⟨1, none⟩ }
where
  draw (id : ℕ) : ServiceDraw :=
    ⟨⟨id, id, id, 1⟩, ⟨0, 0, 0, "", { allowed := true }, none⟩⟩

def plainRules : ReportRules where
  names := plainNames
  localeCompare a b := compare a b
  number value := value
  numberText value := toString value
  idText id := toString id
  queryString params := "&".intercalate (params.map fun p => p.1 ++ "=" ++ p.2)

set_option maxRecDepth 8000 in
/-- The first line of a plain report of contributors is what one of them paid. -/
theorem report_tells_viewer : ¬ ∀ (rules : ReportRules) (read : ViewerRead), Blind rules read := by
  intro h
  have hsame : SameToViewer (collected 60 40) (collected 70 30) 7 := by
    have hreceived : receivedAgg (collected 60 40) 7 = receivedAgg (collected 70 30) 7 := by decide
    have htarget : targetOf (collected 60 40) 7 = targetOf (collected 70 30) 7 := by decide
    refine ⟨by decide, by decide, ?_, by decide, by decide⟩
    rw [hreceived, htarget]
  have hreport := h plainRules (.report { reportType := .contributors }) _ _ watcher rfl hsame
  rw [← alike_eq, ViewerRead.program, alike_map_iff (fun _ _ => Answer.report.inj)
    readOnly_report readOnly_report, alike_eq] at hreport
  have hamounts := congrArg (fun result : Except Refusal ReportResult =>
    result.toOption.map fun r => r.preview.map ReportPreviewRow.amount) hreport
  exact absurd hamounts (by decide)

end Akabbo.ViewerReads
