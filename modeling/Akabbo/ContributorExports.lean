import Akabbo.MatchingContributors
import Akabbo.CommaSeparated

/-!
# The exported contributors

What a reader of comma-separated records finds in the text of an export.
-/
namespace Akabbo.ContributorExports
open Access PledgeStatus RowTable StatementProgram LedgerState LedgerReads Reports ToolExecutor
open ContributorStandings ContributorLists ContributorPages MatchingContributors CommaSeparated
open StatementProgram.Program

def header : List String := ["Name", "Group", "Amount", "Outstanding", "Status"]

/-- The fields of a row; one that is missing is empty. -/
def record (r : PageRow) : List String :=
  [r.name, r.group.getD "", r.amount, r.outstanding.getD "", r.status]

def readCsv (text : String) : Option (List (List String)) :=
  (read text.toList).map fun records => records.map fun fields => fields.map String.ofList

theorem csvCell_toList (text : String) : (csvCell text).toList = quote text.toList := by
  unfold csvCell
  rw [String.toList_ofList]
  rfl

theorem csvLine_toList (r : PageRow) :
    (csvLine r).toList = line ((record r).map fun field => quote field.toList) := by
  unfold csvLine
  rw [String.toList_intercalate]
  simp only [List.map_cons, List.map_nil, csvCell_toList]
  rfl

theorem csvText_toList (rows : List PageRow) : (csvText rows).toList = lines
    ((header.map String.toList :: rows.map fun r =>
      (record r).map fun field => quote field.toList).map line) := by
  unfold csvText
  rw [String.toList_intercalate]
  have hlines : (csvHeader :: rows.map csvLine).map String.toList =
      (header.map String.toList :: rows.map fun r =>
        (record r).map fun field => quote field.toList).map line := by
    rw [List.map_cons, List.map_cons, List.map_map, List.map_map]
    refine congrArg₂ _ (by decide) (List.map_congr_left fun r _ => csvLine_toList r)
  rw [hlines]
  rfl

theorem written_quoted (fields : List String) : List.Forall₂ Written (fields.map String.toList)
    (fields.map fun field => quote field.toList) := by
  induction fields with
  | nil => exact .nil
  | cons field fields ih => exact .cons (.quoted _) ih

theorem written_header :
    List.Forall₂ Written (header.map String.toList) (header.map String.toList) :=
  .cons (written_of_all (by decide)) (.cons (written_of_all (by decide))
    (.cons (written_of_all (by decide)) (.cons (written_of_all (by decide))
      (.cons (written_of_all (by decide)) .nil))))

theorem written_rows (rows : List PageRow) : List.Forall₂ (List.Forall₂ Written)
    (rows.map fun r => (record r).map String.toList)
    (rows.map fun r => (record r).map fun field => quote field.toList) := by
  induction rows with
  | nil => exact .nil
  | cons r rows ih => exact .cons (written_quoted _) ih

/-- Any rows are read as they are, whatever their names. -/
theorem readCsv_csvText (rows : List PageRow) :
    readCsv (csvText rows) = some (header :: rows.map record) := by
  have hread := read_lines (List.Forall₂.cons written_header (written_rows rows)) (fun fields h => by
    rcases List.mem_cons.mp h with rfl | h
    · decide
    · obtain ⟨r, -, rfl⟩ := List.mem_map.mp h
      rw [List.length_map]
      exact Nat.le_add_left 2 3) (List.cons_ne_nil _ _)
  unfold readCsv
  rw [csvText_toList, hread, Option.map_some, List.map_cons, List.map_map, List.map_map]
  refine congrArg some (congrArg₂ _ ?_ (List.map_congr_left fun r _ => ?_))
  · simp
  · simp

/-- An export read back has one record of each contributor, in the order of the report, exactly
where there are no more than 5,000. -/
theorem export_reads_back_iff (db : LedgerDb) (ctx : OperationContext) (rules : ReportRules)
    (filters : ReportFilters) (hread : assertPermission ctx.event.role .eventRead = none) :
    let e := ctx.event.eventId
    let group := (groupFilter db e rules filters).join
    ∃ (text : String) (people : List Person),
      run (exportCsv ctx rules filters) db = (.ok text, db) ∧
      people.Perm (passing db e rules filters group) ∧
      run (queryContributors e rules filters group) db = (.ok (people.map (contributorRow db e)), db) ∧
      (readCsv text = some (header :: people.map fun q => record (pageRow (contributorRow db e q))) ↔
        (passing db e rules filters group).length ≤ 5000) := by
  dsimp only
  generalize hgroup : (groupFilter db ctx.event.eventId rules filters).join = group
  obtain ⟨people, hpeople, hlist⟩ := exists_map_of_perm
    (@contributorList_perm db ctx.event.eventId rules filters group)
  have hlisted : listed db ctx.event.eventId rules filters =
      people.map (contributorRow db ctx.event.eventId) := by
    rw [hlist, ← hgroup]
    rfl
  refine ⟨_, people, run_exportCsv hread filters, hpeople, ?_, ?_⟩
  · rw [run_queryContributors, hlist]
  rw [readCsv_csvText, hlisted, ← hpeople.length_eq]
  have hrecords (rows : List ContributorRow) (rest : List Person) :
      rows.map (record ∘ pageRow) = rest.map (fun q =>
        record (pageRow (contributorRow db ctx.event.eventId q))) → rows.length = rest.length := by
    intro h
    simpa using congrArg List.length h
  constructor
  · intro h
    have hlength := congrArg List.length (List.cons.inj (Option.some.inj h)).2
    simp only [List.length_map, List.length_take] at hlength
    omega
  · intro hfew
    rw [List.take_of_length_le (by rwa [List.length_map]), List.map_map, List.map_map]
    rfl

/-- So many guests, each with a promise of 100. -/
def crowd (n : ℕ) : LedgerDb :=
  let guest (i : ℕ) : Person := ⟨i, 7, "Guest", none, none, .humanTyped, some 1, i⟩
  let promise (i : ℕ) : Pledge :=
    { id := i, eventId := 7, personId := i, type := .cash, committedValue := 100, status := .pledged
      targetBudgetItemId := none, description := none, quantity := none, unit := none
      estimatedValue := none, isDirect := false, source := .humanTyped, createdById := some 1
      createdAt := i }
  { LedgerDb.empty with
    persons := ⟨(List.range n).map guest, by
      rw [List.map_map]
      exact (List.map_id _).symm ▸ List.nodup_range⟩
    pledges := ⟨(List.range n).map promise, by
      rw [List.map_map]
      exact (List.map_id _).symm ▸ List.nodup_range⟩ }

theorem length_passing_crowd (n : ℕ) :
    (passing (crowd n) 7 plainRules (allOf .contributors) none).length = n := by
  have hpass : ∀ q ∈ (crowd n).persons.rows,
      (q.eventId == 7 && passes (crowd n) 7 plainRules (allOf .contributors) none q) = true := by
    intro q hq
    obtain ⟨i, hi, rfl⟩ := List.mem_map.mp hq
    have hcommitted : 0 < committedBy (crowd n) 7 i := by
      refine Nat.pos_of_ne_zero fun hzero => ?_
      have hnone := sumWhere_eq_zero_iff.mp hzero _ (List.mem_map_of_mem hi) (by simp [isLive])
      simp at hnone
    refine Bool.and_eq_true_iff.mpr ⟨rfl, passes_iff.mpr ⟨hasLivePledge_of_pos (.inl hcommitted), rfl,
      fun _ => .inl hcommitted, (fun _ h => by cases h), (fun _ h => by cases h), rfl, rfl⟩⟩
  unfold passing
  rw [List.filter_eq_self.mpr hpass]
  change ((List.range n).map _).length = n
  rw [List.length_map, List.length_range]

/-- Of 5,001 contributors the last is not in the export. -/
theorem export_stops_short : ∃ text records,
    run (exportCsv reader plainRules (allOf .contributors)) (crowd 5001) = (.ok text, crowd 5001) ∧
    (passing (crowd 5001) 7 plainRules (allOf .contributors) none).length = 5001 ∧
    readCsv text = some (header :: records) ∧ records.length = 5000 := by
  have hlength : (listed (crowd 5001) 7 plainRules (allOf .contributors)).length = 5001 :=
    length_contributorList.trans (length_passing_crowd 5001)
  refine ⟨_, _, run_exportCsv rfl (allOf .contributors), length_passing_crowd 5001,
    readCsv_csvText _, ?_⟩
  rw [List.length_map, List.length_map, List.length_take, show reader.event.eventId = 7 from rfl,
    hlength]
  rfl

theorem export_reads_back_iff_annAndBen : ∃ text,
    run (exportCsv reader plainRules (allOf .contributors)) annAndBen = (.ok text, annAndBen) ∧
    readCsv text = some [header, ["Ann", "", "100", "", "complete"],
      ["Ben", "", "200", "", "complete"]] := by
  obtain ⟨text, people, hrun, -, hpeople, hreads⟩ := export_reads_back_iff annAndBen reader plainRules
    (allOf .contributors) rfl
  have hrows : people.map (contributorRow annAndBen 7) =
      [⟨10, "Ann", none, 100, 100, []⟩, ⟨11, "Ben", none, 200, 200, []⟩] := by
    have hlist : contributorList annAndBen 7 plainRules (allOf .contributors) none =
        [⟨10, "Ann", none, 100, 100, []⟩, ⟨11, "Ben", none, 200, 200, []⟩] := by decide +kernel
    rw [← hlist]
    exact (Except.ok.inj (Prod.mk.inj
      (hpeople.symm.trans (run_queryContributors annAndBen 7 plainRules _ _))).1)
  have hrecords : (people.map fun q => record (pageRow (contributorRow annAndBen 7 q))) =
      (people.map (contributorRow annAndBen 7)).map fun r => record (pageRow r) := by
    rw [List.map_map]
    rfl
  refine ⟨text, hrun, (hreads.mpr (by decide +kernel)).trans ?_⟩
  change some (header :: people.map fun q => record (pageRow (contributorRow annAndBen 7 q))) = _
  rw [hrecords, hrows]
  decide +kernel

end Akabbo.ContributorExports
