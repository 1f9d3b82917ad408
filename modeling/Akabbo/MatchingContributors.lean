import Akabbo.ContributorPages

/-!
# The people a report should list

Every filter that a report is given, as what it says of a person, against what the report checks.
-/
namespace Akabbo.MatchingContributors
open Access PledgeStatus RowTable StatementProgram LedgerState LedgerReads Reports ToolExecutor
open ContributorStandings ContributorLists ContributorPages
open StatementProgram.Program

def hasStatus (status : Option StatusFilter) (committed received : ℕ) : Bool :=
  match status.getD .all with
  | .all => true
  | .unpaid => 0 < committed && received == 0
  | .partially => 0 < received && received < committed
  | .complete => 0 < committed && committed ≤ received
  | .outstanding => received < committed

section filters
variable (db : LedgerDb) (e : ℕ) (rules : ReportRules) (filters : ReportFilters) (group : Option ℕ)

def hasLivePledge (q : Person) : Bool :=
  db.pledges.rows.any fun p => p.eventId == e && p.personId == q.id && isLive p

/-- A person with a pledge that stands, of whom every filter holds. -/
def satisfies (q : Person) : Bool :=
  let committed := committedBy db e q.id
  let received := receivedFrom db e q.id
  hasLivePledge db e q && hasStatus filters.status committed received &&
    (filters.reportType != .outstanding || received < committed) &&
    filters.minAmount.all (· ≤ (received : ℚ)) && filters.maxAmount.all ((received : ℚ) ≤ ·) &&
    passesSearch rules filters q.displayName && inGroup db e group q

def satisfying : List Person :=
  db.persons.rows.filter fun q => q.eventId == e && satisfies db e rules filters group q

/-- Nobody of whom the filters hold is left out: everyone has promised or paid something, and a
bound is not missed for the rounding of an amount. -/
structure NoneLeftOut : Prop where
  inKind : filters.status.getD .all = .all → ∀ q ∈ satisfying db e rules filters group,
    0 < committedBy db e q.id ∨ 0 < receivedFrom db e q.id
  low : ∀ low ∈ givenNumber filters.minAmount, ∀ q ∈ satisfying db e rules filters group,
    low ≤ rules.number (receivedFrom db e q.id)
  high : ∀ high ∈ givenNumber filters.maxAmount, ∀ q ∈ satisfying db e rules filters group,
    rules.number (receivedFrom db e q.id) ≤ high

/-- Nobody else is among the rows: the kind of the report and a bound of zero rule nobody out, and
no bound is met for the rounding of an amount. -/
structure NoneLetIn (rows : List ContributorRow) : Prop where
  owing : filters.reportType = .outstanding → ∀ r ∈ rows, r.received < r.committed
  zeroBound : filters.maxAmount = some 0 → ∀ r ∈ rows, r.received = 0
  low : ∀ low ∈ givenNumber filters.minAmount, ∀ r ∈ rows,
    low ≤ rules.number r.received → low ≤ (r.received : ℚ)
  high : ∀ high ∈ givenNumber filters.maxAmount, ∀ r ∈ rows,
    rules.number r.received ≤ high → (r.received : ℚ) ≤ high

end filters

section checks
variable {db : LedgerDb} {e : ℕ} {rules : ReportRules} {filters : ReportFilters} {group : Option ℕ}
variable {q : Person}

theorem mem_satisfying : q ∈ satisfying db e rules filters group ↔
    q ∈ db.persons.rows ∧ q.eventId = e ∧ satisfies db e rules filters group q = true := by
  simp [satisfying, List.mem_filter]

/-- Money is promised or paid on a pledge that stands. -/
theorem hasLivePledge_of_pos (h : 0 < committedBy db e q.id ∨ 0 < receivedFrom db e q.id) :
    hasLivePledge db e q = true := by
  by_contra hnone
  rw [Bool.not_eq_true, hasLivePledge, List.any_eq_false] at hnone
  have hcommitted : committedBy db e q.id = 0 :=
    sumWhere_eq_zero_iff.mpr fun p hp hlive => absurd hlive (hnone p hp)
  have hreceived : receivedFrom db e q.id = 0 := by
    refine sumWhere_eq_zero_iff.mpr fun f _ hpaid => ?_
    obtain ⟨p, hp, hjoin⟩ := List.any_eq_true.mp (Bool.and_eq_true_iff.mp hpaid).2
    refine absurd ?_ (hnone p hp)
    simp only [Bool.and_eq_true] at hjoin ⊢
    tauto
  omega

/-- A status that is checked is that of a person with a pledge that stands. -/
theorem passesStatus_iff : passesStatus filters.status (contributorRow db e q) = true ↔
    hasLivePledge db e q = true ∧
      hasStatus filters.status (committedBy db e q.id) (receivedFrom db e q.id) = true ∧
      (filters.status.getD .all = .all →
        0 < committedBy db e q.id ∨ 0 < receivedFrom db e q.id) := by
  have hpos := @hasLivePledge_of_pos db e q
  unfold passesStatus hasStatus
  rw [contributorRow_committed, contributorRow_received, outstanding_eq]
  cases filters.status.getD .all <;>
    simp only [Bool.and_eq_true, Bool.or_eq_true, decide_eq_true_eq, beq_iff_eq, gt_iff_lt,
      ge_iff_le, reduceCtorEq, false_implies, true_implies, and_true, true_and] <;>
    grind

theorem passesAmounts_iff {r : ContributorRow} : passesAmounts rules filters r = true ↔
    (∀ low ∈ givenNumber filters.minAmount, low ≤ rules.number r.received) ∧
      ∀ high ∈ givenNumber filters.maxAmount, rules.number r.received ≤ high := by
  unfold passesAmounts
  cases givenNumber filters.minAmount <;> cases givenNumber filters.maxAmount <;> simp

theorem mem_givenNumber {value : Option ℚ} {x : ℚ} :
    x ∈ givenNumber value ↔ value = some x ∧ x ≠ 0 := by
  unfold givenNumber
  rw [Option.mem_def, Option.filter_eq_some_iff, bne_iff_ne]

/-- A lower bound of zero rules nobody out. -/
theorem all_low_iff {value : Option ℚ} {received : ℕ} :
    value.all (· ≤ (received : ℚ)) = true ↔ ∀ low ∈ givenNumber value, low ≤ (received : ℚ) := by
  simp only [mem_givenNumber]
  cases value with
  | none => simp
  | some low =>
    by_cases hzero : low = 0
    · subst hzero
      simp
    · simp [hzero]

theorem all_high_iff {value : Option ℚ} {received : ℕ} :
    value.all ((received : ℚ) ≤ ·) = true ↔
      (∀ high ∈ givenNumber value, (received : ℚ) ≤ high) ∧ (value = some 0 → received = 0) := by
  simp only [mem_givenNumber]
  cases value with
  | none => simp
  | some high =>
    by_cases hzero : high = 0
    · subst hzero
      simp
    · simp [hzero]

theorem satisfies_iff : satisfies db e rules filters group q = true ↔
    hasLivePledge db e q = true ∧
      hasStatus filters.status (committedBy db e q.id) (receivedFrom db e q.id) = true ∧
      (filters.reportType = .outstanding → receivedFrom db e q.id < committedBy db e q.id) ∧
      (∀ low ∈ givenNumber filters.minAmount, low ≤ (receivedFrom db e q.id : ℚ)) ∧
      (∀ high ∈ givenNumber filters.maxAmount, (receivedFrom db e q.id : ℚ) ≤ high) ∧
      (filters.maxAmount = some 0 → receivedFrom db e q.id = 0) ∧
      passesSearch rules filters q.displayName = true ∧ inGroup db e group q = true := by
  unfold satisfies
  simp only [Bool.and_eq_true, Bool.or_eq_true, all_low_iff, all_high_iff, decide_eq_true_eq,
    bne_iff_ne, and_assoc]
  tauto

theorem passes_iff : passes db e rules filters group q = true ↔
    hasLivePledge db e q = true ∧
      hasStatus filters.status (committedBy db e q.id) (receivedFrom db e q.id) = true ∧
      (filters.status.getD .all = .all →
        0 < committedBy db e q.id ∨ 0 < receivedFrom db e q.id) ∧
      (∀ low ∈ givenNumber filters.minAmount, low ≤ rules.number (receivedFrom db e q.id)) ∧
      (∀ high ∈ givenNumber filters.maxAmount, rules.number (receivedFrom db e q.id) ≤ high) ∧
      passesSearch rules filters q.displayName = true ∧ inGroup db e group q = true := by
  unfold passes
  simp only [Bool.and_eq_true, passesStatus_iff, passesAmounts_iff, contributorRow_received]
  tauto

theorem noneLeftOut_iff : (∀ q ∈ satisfying db e rules filters group,
    q ∈ passing db e rules filters group) ↔ NoneLeftOut db e rules filters group := by
  constructor
  · intro h
    have hpasses (q : Person) (hq : q ∈ satisfying db e rules filters group) :=
      passes_iff.mp (mem_passing.mp (h q hq)).2.2
    exact
      { inKind := fun hall q hq => (hpasses q hq).2.2.1 hall
        low := fun low hlow q hq => (hpasses q hq).2.2.2.1 low hlow
        high := fun high hhigh q hq => (hpasses q hq).2.2.2.2.1 high hhigh }
  · intro h q hq
    obtain ⟨hrow, he, hsatisfies⟩ := mem_satisfying.mp hq
    obtain ⟨hlive, hstatus, -, -, -, -, hsearch, hgroup⟩ := satisfies_iff.mp hsatisfies
    refine mem_passing.mpr ⟨hrow, he, passes_iff.mpr ⟨hlive, hstatus, fun hall => h.inKind hall q hq,
      fun low hlow => h.low low hlow q hq, fun high hhigh => h.high high hhigh q hq, hsearch,
      hgroup⟩⟩

theorem noneLetIn_iff {people : List Person}
    (hpassing : ∀ q ∈ people, q ∈ passing db e rules filters group) :
    (∀ q ∈ people, q ∈ satisfying db e rules filters group) ↔
      NoneLetIn rules filters (people.map (contributorRow db e)) := by
  constructor
  · intro h
    have hsatisfies (q : Person) (hq : q ∈ people) :=
      satisfies_iff.mp (mem_satisfying.mp (h q hq)).2.2
    refine ⟨fun howing => ?_, fun hzero => ?_, fun low hlow => ?_, fun high hhigh => ?_⟩ <;>
      refine List.forall_mem_map.mpr fun q hq => ?_ <;>
      obtain ⟨-, -, howes, hlows, hhighs, hbound, -, -⟩ := hsatisfies q hq <;>
      rw [contributorRow_received]
    · exact howes howing
    · exact hbound hzero
    · exact fun _ => hlows low hlow
    · exact fun _ => hhighs high hhigh
  · intro h q hq
    obtain ⟨hrow, he, hpasses⟩ := mem_passing.mp (hpassing q hq)
    obtain ⟨hlive, hstatus, -, hlow, hhigh, hsearch, hgroup⟩ := passes_iff.mp hpasses
    have hmem := List.mem_map_of_mem (f := contributorRow db e) hq
    have hreceived := contributorRow_received db e q
    refine mem_satisfying.mpr ⟨hrow, he, satisfies_iff.mpr ⟨hlive, hstatus, fun howing => ?_,
      fun low hl => ?_, fun high hh => ?_, fun hzero => ?_, hsearch, hgroup⟩⟩
    · have howes := h.owing howing _ hmem
      rwa [hreceived] at howes
    · have hbound := h.low low hl _ hmem
      rw [hreceived] at hbound
      exact hbound (hlow low hl)
    · have hbound := h.high high hh _ hmem
      rw [hreceived] at hbound
      exact hbound (hhigh high hh)
    · have hbound := h.zeroBound hzero _ hmem
      rwa [hreceived] at hbound

end checks

theorem exists_map_of_perm {α β : Type} {f : α → β} {l : List β} {xs : List α}
    (h : l.Perm (xs.map f)) : ∃ ys : List α, ys.Perm xs ∧ ys.map f = l := by
  induction l generalizing xs with
  | nil => exact ⟨[], by rw [List.map_eq_nil_iff.mp h.symm.eq_nil], rfl⟩
  | cons b l ih =>
    obtain ⟨x, hx, rfl⟩ := List.mem_map.mp (h.subset List.mem_cons_self)
    obtain ⟨s, t, rfl⟩ := List.append_of_mem hx
    have hmiddle : (s ++ x :: t).Perm (x :: (s ++ t)) := List.perm_middle
    have hrest : l.Perm ((s ++ t).map f) := (h.trans (hmiddle.map f)).cons_inv
    obtain ⟨ys, hys, rfl⟩ := ih hrest
    exact ⟨x :: ys, (hys.cons x).trans hmiddle.symm, rfl⟩

section rows
variable {db : LedgerDb} {e : ℕ} {rules : ReportRules} {filters : ReportFilters} {group : Option ℕ}

theorem ids_perm_iff {people people' : List Person} (hnodup : people.Nodup) (hnodup' : people'.Nodup)
    (hrows : ∀ q ∈ people, q ∈ db.persons.rows) (hrows' : ∀ q ∈ people', q ∈ db.persons.rows) :
    (people.map Person.id).Perm (people'.map Person.id) ↔ ∀ q, q ∈ people ↔ q ∈ people' := by
  rw [← List.perm_ext_iff_of_nodup hnodup hnodup']
  refine ⟨fun h => ?_, fun h => h.map _⟩
  rw [List.perm_ext_iff_of_nodup hnodup hnodup']
  have hmem (q : Person) : q.id ∈ people.map Person.id ↔ q.id ∈ people'.map Person.id := h.mem_iff
  intro q
  constructor
  · intro hq
    obtain ⟨q', hq', hid⟩ := List.mem_map.mp ((hmem q).mp (List.mem_map_of_mem hq))
    rwa [← db.persons.key_inj (hrows' q' hq') (hrows q hq) hid]
  · intro hq
    obtain ⟨q', hq', hid⟩ := List.mem_map.mp ((hmem q).mpr (List.mem_map_of_mem hq))
    rwa [← db.persons.key_inj (hrows q' hq') (hrows' q hq) hid]

theorem nodup_filter_persons (p : Person → Bool) : (db.persons.rows.filter p).Nodup :=
  (List.Nodup.of_map _ db.persons.nodup).filter _

/-- The first `n` rows are those of everyone of whom the filters hold exactly where nobody is left
out, nobody is let in and there are at most `n`. -/
theorem take_matches_iff (n : ℕ) :
    (((contributorList db e rules filters group).take n).map ContributorRow.id).Perm
        ((satisfying db e rules filters group).map Person.id) ↔
      NoneLeftOut db e rules filters group ∧
        NoneLetIn rules filters ((contributorList db e rules filters group).take n) ∧
        (satisfying db e rules filters group).length ≤ n := by
  obtain ⟨people, hperm, hmap⟩ := exists_map_of_perm
    (contributorList_perm (e := e))
  have hpassing : ∀ q ∈ people.take n, q ∈ passing db e rules filters group := fun q hq =>
    hperm.subset (List.mem_of_mem_take hq)
  have hnodup : (people.take n).Nodup :=
    (hperm.nodup_iff.mpr (nodup_filter_persons _)).sublist (List.take_sublist _ _)
  have hids : ((contributorList db e rules filters group).take n).map ContributorRow.id =
      (people.take n).map Person.id := by
    rw [← hmap, ← List.map_take, List.map_map]
    rfl
  have hsatisfying : (satisfying db e rules filters group).Nodup := nodup_filter_persons _
  rw [hids, ids_perm_iff hnodup hsatisfying (fun q hq => (mem_passing.mp (hpassing q hq)).1)
    fun q hq => (mem_satisfying.mp hq).1, ← noneLeftOut_iff, ← hmap, ← List.map_take,
    ← noneLetIn_iff hpassing]
  constructor
  · intro h
    refine ⟨fun q hq => hpassing q ((h q).mpr hq), fun q hq => (h q).mp hq, ?_⟩
    have hlength : (satisfying db e rules filters group).length ≤ (people.take n).length :=
      (hsatisfying.subperm fun q hq => (h q).mpr hq).length_le
    exact hlength.trans (List.length_take_le _ _)
  · rintro ⟨hleft, hin, hcount⟩
    have hall : (satisfying db e rules filters group).length ≤ people.length :=
      (hsatisfying.subperm fun q hq => hperm.symm.subset (hleft q hq)).length_le
    have hsame : (people.take n).Perm (satisfying db e rules filters group) := by
      refine (hnodup.subperm hin).perm_of_length_le ?_
      rw [List.length_take]
      omega
    exact fun q => hsame.mem_iff

theorem noneLetIn_perm {rows rows' : List ContributorRow} (h : rows.Perm rows') :
    NoneLetIn rules filters rows ↔ NoneLetIn rules filters rows' := by
  constructor
  · rintro ⟨howing, hzero, hlow, hhigh⟩
    exact ⟨fun hf r hr => howing hf r (h.symm.subset hr), fun hf r hr => hzero hf r (h.symm.subset hr),
      fun low hl r hr => hlow low hl r (h.symm.subset hr),
      fun high hh r hr => hhigh high hh r (h.symm.subset hr)⟩
  · rintro ⟨howing, hzero, hlow, hhigh⟩
    exact ⟨fun hf r hr => howing hf r (h.subset hr), fun hf r hr => hzero hf r (h.subset hr),
      fun low hl r hr => hlow low hl r (h.subset hr),
      fun high hh r hr => hhigh high hh r (h.subset hr)⟩

theorem list_matches_iff : ((contributorList db e rules filters group).map ContributorRow.id).Perm
      ((satisfying db e rules filters group).map Person.id) ↔
    NoneLeftOut db e rules filters group ∧
      NoneLetIn rules filters ((passing db e rules filters group).map (contributorRow db e)) := by
  have h := @take_matches_iff db e rules filters group
    (contributorList db e rules filters group).length
  rw [List.take_length, noneLetIn_perm contributorList_perm] at h
  rw [h]
  refine ⟨fun h => ⟨h.1, h.2.1⟩, fun h => ⟨h.1, h.2, ?_⟩⟩
  have hleft := noneLeftOut_iff.mpr h.1
  rw [length_contributorList]
  exact ((nodup_filter_persons _).subperm hleft).length_le

end rows

section readers
variable (db : LedgerDb) (e : ℕ) (rules : ReportRules) (filters : ReportFilters)

/-- The rows are, each once, those of everyone of whom all filters hold; where the name of a group
is not that of one group there are no rows unless the report says so. -/
def Answers (ids : List ℕ) (said : Bool) : Prop :=
  match groupFilter db e rules filters with
  | some group => ids.Perm ((satisfying db e rules filters group).map Person.id)
  | none => said = true ∨ ids = []

/-- What it takes for the first rows, or for all of them, to be the right ones. -/
def Faultless (limit : Option ℕ) (said : Bool) : Prop :=
  match groupFilter db e rules filters with
  | some group => NoneLeftOut db e rules filters group ∧
      match limit with
      | none => NoneLetIn rules filters ((passing db e rules filters group).map (contributorRow db e))
      | some n => NoneLetIn rules filters ((contributorList db e rules filters group).take n) ∧
          (satisfying db e rules filters group).length ≤ n
  | none => said = true ∨ passing db e rules filters none = []

variable {db e rules filters}

theorem answers_iff (limit : Option ℕ) (hlimit : limit ≠ some 0) (said : Bool) :
    Answers db e rules filters (((limit.elim id List.take) (listed db e rules filters)).map
      ContributorRow.id) said ↔ Faultless db e rules filters limit said := by
  unfold Answers Faultless listed
  cases groupFilter db e rules filters with
  | some group =>
    cases limit with
    | none => exact list_matches_iff
    | some n => exact take_matches_iff n
  | none =>
    have hempty : ((limit.elim id List.take) (contributorList db e rules filters none)).map
        ContributorRow.id = [] ↔ passing db e rules filters none = [] := by
      rw [List.map_eq_nil_iff, ← List.length_eq_zero_iff, ← List.length_eq_zero_iff,
        ← length_contributorList]
      cases limit with
      | none => rfl
      | some n =>
        have hn : n ≠ 0 := fun h => hlimit (congrArg some h)
        simp [hn]
    exact or_congr_right hempty

end readers

/-- A report without a limit, the pages of the viewer and the export, each with the rows it returns,
answer their filters exactly where nobody is left out and nobody let in, and where there are no more
rows than it returns. -/
theorem rows_match_filters_iff (db : LedgerDb) (ctx : OperationContext) (rules : ReportRules)
    (filters : ReportFilters) (size : ℕ) (hread : assertPermission ctx.event.role .eventRead = none)
    (hbudget : filters.reportType ≠ .budget) (hpayments : filters.reportType ≠ .payments)
    (hsize : 0 < size) :
    let e := ctx.event.eventId
    let all := listed db e rules filters
    (∃ report, run (generateReport ctx rules { filters with limit := none }) db = (.ok report, db) ∧
      report.preview = (all.take 10000).map contributorPreview ∧
      (Answers db e rules filters ((all.take 10000).map ContributorRow.id)
          report.ambiguousGroup.isSome ↔ Faultless db e rules filters (some 10000) true)) ∧
    (∃ page : ℕ → ContributorPage, ∃ count : ℕ,
      (∀ k : ℕ, run (getPaginatedContributors ctx rules filters (k + 1) size filters.searchTerm) db =
        (.ok (page k), db) ∧ (page k).totalPages = .pages count) ∧
      (List.range count).flatMap (fun k => (page k).rows) = all.map pageRow ∧
      (Answers db e rules filters (((List.range count).flatMap fun k => (page k).rows).map
          PageRow.personId) false ↔ Faultless db e rules filters none false)) ∧
    run (exportCsv ctx rules filters) db = (.ok (csvText ((all.take 5000).map pageRow)), db) ∧
      (Answers db e rules filters ((all.take 5000).map ContributorRow.id) false ↔
        Faultless db e rules filters (some 5000) false) := by
  dsimp only
  have hpages : (List.range (pageCount (listed db ctx.event.eventId rules filters).length size)).flatMap
      (fun k : ℕ => (pageAt (listed db ctx.event.eventId rules filters) ((k : ℤ) + 1) size).rows) =
        (listed db ctx.event.eventId rules filters).map pageRow := by
    simp only [pageAt_rows]
    rw [← List.map_flatMap, flatMap_pages_all _ hsize]
  refine ⟨?_, ⟨_, _, fun k => ⟨run_getPaginatedContributors hread filters (k + 1) size,
    totalPages_eq hsize⟩, hpages, ?_⟩, run_exportCsv hread filters, ?_⟩
  · obtain ⟨report, hrun, -, -, -, hpreview, hambiguous⟩ := @run_generateReport db
      rules ctx hread { filters with limit := none } hbudget hpayments
    refine ⟨report, hrun, hpreview, ?_⟩
    have hsaid : report.ambiguousGroup.isSome =
        (groupFilter db ctx.event.eventId rules filters).isNone := by
      rw [hambiguous]
      exact isSome_ambiguity db ctx.event.eventId rules filters
    have hanswers := @answers_iff db ctx.event.eventId rules filters (some 10000) (by decide)
      report.ambiguousGroup.isSome
    refine hanswers.trans ?_
    unfold Faultless
    rw [hsaid]
    cases groupFilter db ctx.event.eventId rules filters <;> rfl
  · rw [hpages, List.map_map]
    exact answers_iff none nofun false
  · exact answers_iff (some 5000) (by decide) false

def reader : OperationContext := ⟨⟨1, true⟩, ⟨7, .owner, .active⟩⟩

/-- The report of those who owe lists them, and so does the export for a group that is not there. -/
theorem settled_people_listed :
    (∃ report, run (generateReport reader plainRules (allOf .outstanding)) annAndBen =
        (.ok report, annAndBen) ∧
      report.preview.map ReportPreviewRow.name = ["Ann", "Ben"] ∧
      satisfying annAndBen 7 plainRules (allOf .outstanding) none = [] ∧
      ¬ Answers annAndBen 7 plainRules (allOf .outstanding) [10, 11] report.ambiguousGroup.isSome) ∧
    run (exportCsv reader plainRules { allOf .contributors with groupName := some "Choir" }) annAndBen =
      (.ok (csvText [⟨10, "Ann", none, "100", none, "complete"⟩,
        ⟨11, "Ben", none, "200", none, "complete"⟩]), annAndBen) ∧
      ¬ Answers annAndBen 7 plainRules { allOf .contributors with groupName := some "Choir" } [10, 11]
        false := by
  have howing : listed annAndBen 7 plainRules (allOf .outstanding) =
      [⟨10, "Ann", none, 100, 100, []⟩, ⟨11, "Ben", none, 200, 200, []⟩] := by decide +kernel
  have hchoir : listed annAndBen 7 plainRules { allOf .contributors with groupName := some "Choir" } =
      [⟨10, "Ann", none, 100, 100, []⟩, ⟨11, "Ben", none, 200, 200, []⟩] := by decide +kernel
  have hnone : satisfying annAndBen 7 plainRules (allOf .outstanding) none = [] := by decide +kernel
  have hgroup : groupFilter annAndBen 7 plainRules
      { allOf .contributors with groupName := some "Choir" } = none := by decide +kernel
  obtain ⟨report, hrun, -, -, -, hpreview, -⟩ := @run_generateReport annAndBen
    plainRules reader rfl (allOf .outstanding) (by decide) (by decide)
  refine ⟨⟨report, hrun, ?_, hnone, ?_⟩, ?_, ?_⟩
  · rw [hpreview]
    change (((listed annAndBen 7 plainRules (allOf .outstanding)).take _).map
      contributorPreview).map _ = _
    rw [howing]
    rfl
  · intro hanswers
    have hperm : [10, 11].Perm ((satisfying annAndBen 7 plainRules (allOf .outstanding) none).map
        Person.id) := hanswers
    rw [hnone] at hperm
    exact absurd hperm.length_eq (by decide)
  · rw [run_exportCsv rfl, show reader.event.eventId = 7 from rfl, hchoir]
    rfl
  · unfold Answers
    rw [hgroup]
    simp

/-- Both sing in the choir. -/
def choir : LedgerDb :=
  { annAndBen with
    groups := Table.empty.insertNew ⟨40, 7, "Choir", .other, some 1⟩
    personGroups := (Table.empty.insertNew ⟨7, 10, 40, none⟩).insertNew ⟨7, 11, 40, none⟩ }

/-- Those of the choir who have paid all they promised, and between 50 and 150. -/
def paidSome : ReportFilters :=
  { allOf .contributors with
    status := some .complete
    groupName := some "Choir"
    minAmount := some 50
    maxAmount := some 150 }

theorem listed_paidSome :
    listed choir 7 plainRules paidSome = [⟨10, "Ann", some "Choir", 100, 100, []⟩] := by
  decide +kernel

theorem faultless_paidSome (limit : Option ℕ) (hlimit : limit ≠ some 0) (said : Bool) :
    Faultless choir 7 plainRules paidSome limit said := by
  have hgroup : groupFilter choir 7 plainRules paidSome = some (some 40) := by decide +kernel
  have hlist : contributorList choir 7 plainRules paidSome (some 40) =
      [⟨10, "Ann", some "Choir", 100, 100, []⟩] := by decide +kernel
  have hleft : NoneLeftOut choir 7 plainRules paidSome (some 40) := by
    refine ⟨nofun, fun low hlow => ?_, fun high hhigh => ?_⟩
    · obtain ⟨h, -⟩ := mem_givenNumber.mp hlow
      cases h
      decide +kernel
    · obtain ⟨h, -⟩ := mem_givenNumber.mp hhigh
      cases h
      decide +kernel
  have hin : NoneLetIn plainRules paidSome [⟨10, "Ann", some "Choir", 100, 100, []⟩] := by
    refine ⟨nofun, fun h => absurd h (by decide +kernel), fun low hlow => ?_, fun high hhigh => ?_⟩
    · obtain ⟨h, -⟩ := mem_givenNumber.mp hlow
      cases h
      decide +kernel
    · obtain ⟨h, -⟩ := mem_givenNumber.mp hhigh
      cases h
      decide +kernel
  have hpassing : (passing choir 7 plainRules paidSome (some 40)).map (contributorRow choir 7) =
      [⟨10, "Ann", some "Choir", 100, 100, []⟩] := by decide +kernel
  have hone : (satisfying choir 7 plainRules paidSome (some 40)).length = 1 := by decide +kernel
  unfold Faultless
  rw [hgroup]
  cases limit with
  | none => exact ⟨hleft, hpassing ▸ hin⟩
  | some n =>
    obtain ⟨n, rfl⟩ := Nat.exists_eq_succ_of_ne_zero fun h => hlimit (congrArg some h)
    refine ⟨hleft, ?_, by omega⟩
    rw [hlist]
    simpa using hin

/-- With every filter given, Ann alone is in the report, on the pages and in the export. -/
theorem rows_match_filters_iff_paidSome :
    (∃ report, run (generateReport reader plainRules paidSome) choir = (.ok report, choir) ∧
      report.preview.map ReportPreviewRow.name = ["Ann"] ∧
      Answers choir 7 plainRules paidSome [10] report.ambiguousGroup.isSome) ∧
    (∃ (page : ℕ → ContributorPage) (count : ℕ),
      (∀ k : ℕ, run (getPaginatedContributors reader plainRules paidSome (k + 1) 1 none) choir =
        (.ok (page k), choir)) ∧
      ((List.range count).flatMap fun k => (page k).rows) =
        [⟨10, "Ann", some "Choir", "100", none, "complete"⟩] ∧
      Answers choir 7 plainRules paidSome [10] false) ∧
    run (exportCsv reader plainRules paidSome) choir =
      (.ok (csvText [⟨10, "Ann", some "Choir", "100", none, "complete"⟩]), choir) := by
  obtain ⟨⟨report, hrun, hpreview, hanswers⟩, ⟨page, count, hpage, hrows, hpages⟩, hexport, -⟩ :=
    rows_match_filters_iff choir reader plainRules paidSome 1 rfl (by decide) (by decide) (by decide)
  simp only [show reader.event.eventId = 7 from rfl, listed_paidSome] at *
  refine ⟨⟨report, hrun, ?_, hanswers.mpr (faultless_paidSome _ (by decide) _)⟩,
    ⟨page, count, fun k => (hpage k).1, hrows, ?_⟩, hexport⟩
  · rw [hpreview]
    rfl
  · have h := hpages.mpr (faultless_paidSome none nofun false)
    rw [hrows] at h
    exact h

end Akabbo.MatchingContributors
