import Akabbo.ContributorLists

/-!
# What is read from the list of contributors

A report, a page of the report viewer and the CSV export each as a part of one list, and that list
as the pages that make it up.
-/
namespace Akabbo.ContributorPages
open Access PledgeStatus RowTable StatementProgram LedgerState LedgerReads Reports ToolExecutor
open ContributorStandings ContributorLists
open StatementProgram.Program

section pages
variable {α : Type}

theorem slice_eq (xs : List α) (start count : ℕ) :
    slice xs start (start + count) = (xs.drop start).take count := by
  have hposition (i : ℕ) : (if (i : ℤ) < 0 then max (xs.length + (i : ℤ)) 0 else (i : ℤ)).toNat = i := by
    rw [if_neg (by omega), Int.toNat_natCast]
  have hsum : (start : ℤ) + count = ((start + count : ℕ) : ℤ) := by omega
  unfold slice
  rw [hsum]
  dsimp only
  rw [hposition, hposition, List.drop_take, Nat.add_sub_cancel_left]

/-- Pages of one size, put together, are the list up to the last of them. -/
theorem flatMap_pages (xs : List α) (size count : ℕ) :
    ((List.range count).flatMap fun k => (xs.drop (k * size)).take size) = xs.take (count * size) := by
  induction count with
  | zero => simp
  | succ count ih =>
    rw [List.range_succ, List.flatMap_append, ih, Nat.succ_mul, List.take_add]
    simp

/-- How many pages there are; an empty list has one. -/
def pageCount (total size : ℕ) : ℕ := max 1 (⌈(total : ℚ) / size⌉).toNat

theorem totalPages_eq {total size : ℕ} (hsize : 0 < size) :
    totalPages total size = .pages (pageCount total size) := by
  unfold totalPages
  rw [if_neg (by omega)]
  rfl

theorem total_le_pages {total size : ℕ} (hsize : 0 < size) : total ≤ pageCount total size * size := by
  have hpos : (0 : ℚ) < size := by exact_mod_cast hsize
  have hceil : (total : ℚ) / size ≤ (pageCount total size : ℚ) := by
    refine (Int.le_ceil _).trans ?_
    have hmax : ⌈(total : ℚ) / size⌉ ≤ (pageCount total size : ℤ) := by
      unfold pageCount
      omega
    exact_mod_cast hmax
  have hmul := (div_le_iff₀ hpos).mp hceil
  exact_mod_cast hmul

theorem flatMap_pages_all (xs : List α) {size : ℕ} (hsize : 0 < size) :
    ((List.range (pageCount xs.length size)).flatMap fun k => (xs.drop (k * size)).take size) = xs := by
  rw [flatMap_pages, List.take_of_length_le (total_le_pages hsize)]

end pages

section readers
variable (db : LedgerDb) (e : ℕ) (rules : ReportRules) (filters : ReportFilters)

/-- The groups that a name may mean. -/
def namedGroups (term : String) : List ContributorGroup :=
  db.groups.rows.filter fun g => g.eventId == e && rules.names.contains g.name term

/-- The filter by group: none without a name, the group of a name, or none at all where the name
is not that of one group. -/
def groupFilter : Option (Option ℕ) :=
  match given filters.groupName with
  | none => some none
  | some term =>
    match namedGroups db e rules term with
    | [group] => some (some group.id)
    | _ => none

/-- The list behind a report, its pages and its export. -/
def listed : List ContributorRow :=
  contributorList db e rules filters (groupFilter db e rules filters).join

def oneOf (found : List (ℕ × String)) : Except (List (ℕ × String)) (ℕ × String) :=
  match found with
  | [group] => .ok group
  | _ => .error found

/-- What a group name comes to. -/
def resolution : Option (String × Except (List (ℕ × String)) (ℕ × String)) :=
  (given filters.groupName).map fun term =>
    (term, oneOf ((namedGroups db e rules term).map fun g => (g.id, g.name)))

theorem exec_resolveGroup : exec (resolveGroup e rules filters.groupName) db db =
    .ok (resolution db e rules filters, db, db) := by
  unfold resolveGroup resolution
  cases given filters.groupName with
  | none => rfl
  | some term =>
    have hfound : exec (resolveGroupName e rules term) db db =
        .ok (oneOf ((namedGroups db e rules term).map fun g => (g.id, g.name)), db, db) := by
      unfold resolveGroupName oneOf
      rw [exec_query_bind]
      change exec (match (namedGroups db e rules term).map fun g => (g.id, g.name) with
        | [group] => _
        | _ => _) db db = _
      split <;> rfl
    rw [Option.map_some]
    dsimp only
    rw [map_eq_pure_bind, exec_bind, hfound]
    rfl

theorem resolvedGroup_resolution : (resolvedGroup (resolution db e rules filters)).map Prod.fst =
    (groupFilter db e rules filters).join := by
  unfold resolution groupFilter
  cases given filters.groupName with
  | none => rfl
  | some term =>
    dsimp only [Option.map_some]
    rcases namedGroups db e rules term with _ | ⟨g, _ | ⟨g', rest⟩⟩ <;> rfl

/-- The ambiguity that a report tells. -/
def ambiguity : Option (String × List (ℕ × String)) :=
  match resolution db e rules filters with
  | some (term, .error candidates) => some (term, candidates)
  | _ => none

theorem isSome_ambiguity : (ambiguity db e rules filters).isSome =
    (groupFilter db e rules filters).isNone := by
  unfold ambiguity resolution groupFilter
  cases given filters.groupName with
  | none => rfl
  | some term =>
    dsimp only [Option.map_some]
    rcases namedGroups db e rules term with _ | ⟨g, _ | ⟨g', rest⟩⟩ <;> rfl

end readers

section runs
variable {db : LedgerDb} {rules : ReportRules} {ctx : OperationContext}

theorem run_of_exec {α : Type} {p : LedgerProgram α} {r : α} (h : exec p db db = .ok (r, db, db)) :
    run p db = (.ok r, db) := by
  unfold StatementProgram.Program.run
  rw [h]

theorem exec_bind_of {α β : Type} {p : LedgerProgram α} {f : α → LedgerProgram β} {r : α}
    {x : Except (Refusal × LedgerDb) (β × LedgerDb × LedgerDb)}
    (hp : exec p db db = .ok (r, db, db)) (hf : exec (f r) db db = x) :
    exec (p >>= f) db db = x := by
  rw [exec_bind, hp]
  exact hf

/-- A page of a list of contributors. -/
def pageAt (all : List ContributorRow) (page pageSize : ℤ) : ContributorPage where
  totalRecords := all.length
  totalAmount := moneyToString (all.map ContributorRow.received).sum
  page
  pageSize
  totalPages := totalPages all.length pageSize
  rows := (slice all ((page - 1) * pageSize) ((page - 1) * pageSize + pageSize)).map pageRow

theorem pageAt_rows (all : List ContributorRow) (k size : ℕ) :
    (pageAt all (k + 1) size).rows = ((all.drop (k * size)).take size).map pageRow := by
  unfold pageAt
  dsimp only
  rw [show ((k : ℤ) + 1 - 1) * size = ((k * size : ℕ) : ℤ) by push_cast; ring, slice_eq]

theorem run_getPaginatedContributors (hread : assertPermission ctx.event.role .eventRead = none)
    (filters : ReportFilters) (page pageSize : ℤ) :
    run (getPaginatedContributors ctx rules filters page pageSize filters.searchTerm) db =
      (.ok (pageAt (listed db ctx.event.eventId rules filters) page pageSize), db) := by
  have hsearch : searching filters filters.searchTerm = filters := by
    unfold searching
    cases hterm : given filters.searchTerm with
    | none => rfl
    | some term =>
      obtain ⟨hmem, -⟩ := Option.filter_eq_some_iff.mp hterm
      dsimp only
      rw [← hmem]
  refine run_of_exec (exec_refuse_bind.mpr ⟨hread, ?_⟩)
  refine exec_bind_of (exec_resolveGroup _ _ _ _) ?_
  rw [hsearch, resolvedGroup_resolution]
  exact exec_bind_of (exec_queryContributors _ _ _ _ _) rfl

/-- A report on contributors, with its first rows. -/
theorem run_generateReport (hread : assertPermission ctx.event.role .eventRead = none)
    {filters : ReportFilters} (hbudget : filters.reportType ≠ .budget)
    (hpayments : filters.reportType ≠ .payments) :
    ∃ report, run (generateReport ctx rules filters) db = (.ok report, db) ∧
      report.reportRef.totalRecords = (listed db ctx.event.eventId rules filters).length ∧
      report.reportRef.totalAmount = moneyToString
        ((listed db ctx.event.eventId rules filters).map ContributorRow.received).sum ∧
      report.reportRef.filterUrl = filterUrl ctx.event.eventId rules filters
        (groupFilter db ctx.event.eventId rules filters).join ∧
      report.preview = ((listed db ctx.event.eventId rules filters).take
        (min (max (filters.limit.getD defaultLimit) 1) maxLimit).toNat).map contributorPreview ∧
      report.ambiguousGroup = ambiguity db ctx.event.eventId rules filters := by
  have hbody (groupId : Option ℕ) (limit : ℕ) :
      exec (reportBody ctx.event.eventId rules filters groupId limit) db db =
        .ok (⟨(contributorList db ctx.event.eventId rules filters groupId).length,
          ((contributorList db ctx.event.eventId rules filters groupId).map
            ContributorRow.received).sum,
          ((contributorList db ctx.event.eventId rules filters groupId).take limit).map
            contributorPreview⟩, db, db) := by
    unfold reportBody
    match htype : filters.reportType with
    | .budget => exact absurd htype hbudget
    | .payments => exact absurd htype hpayments
    | .contributors | .pledges | .outstanding =>
      exact exec_bind_of (exec_queryContributors _ _ _ _ _) rfl
  unfold listed
  rw [← resolvedGroup_resolution]
  exact ⟨_, run_of_exec (exec_refuse_bind.mpr ⟨hread, exec_bind_of
    (exec_resolveGroup db ctx.event.eventId rules filters) (exec_bind_of (hbody _ _) rfl)⟩),
    rfl, rfl, rfl, rfl, rfl⟩

/-- The text of an export. -/
def csvText (rows : List PageRow) : String := "\n".intercalate (csvHeader :: rows.map csvLine)

theorem run_exportCsv (hread : assertPermission ctx.event.role .eventRead = none)
    (filters : ReportFilters) : run (exportCsv ctx rules filters) db =
      (.ok (csvText (((listed db ctx.event.eventId rules filters).take 5000).map pageRow)), db) := by
  have hpage : exec (getPaginatedContributors ctx rules filters 1 5000 none) db db =
      .ok (pageAt (listed db ctx.event.eventId rules filters) 1 5000, db, db) := by
    refine exec_refuse_bind.mpr ⟨hread, ?_⟩
    refine exec_bind_of (exec_resolveGroup _ _ _ _) ?_
    rw [resolvedGroup_resolution]
    exact exec_bind_of (exec_queryContributors _ _ _ _ _) rfl
  have hrows : slice (listed db ctx.event.eventId rules filters) ((1 - 1) * 5000)
      ((1 - 1) * 5000 + 5000) = (listed db ctx.event.eventId rules filters).take 5000 :=
    slice_eq _ 0 5000
  refine run_of_exec ?_
  refine exec_bind_of hpage ?_
  unfold csvText pageAt
  dsimp only
  rw [hrows]
  rfl

end runs
end Akabbo.ContributorPages
