import Akabbo.MatchingContributors
import Akabbo.SortedPages

/-!
# Pages of contributors

Every page of the report viewer runs the query again and sorts what it returns. The query of the
people names no order.
-/
namespace Akabbo.PagedContributors
open Access PledgeStatus RowTable StatementProgram LedgerState LedgerReads Reports ToolExecutor
open ContributorStandings ContributorLists ContributorPages MatchingContributors SortedPages
open StatementProgram.Program

/-- The same rows, those of the people in another order. -/
structure Reordered (db db' : LedgerDb) : Prop where
  rest : db' = { db with persons := db'.persons }
  people : db'.persons.rows.Perm db.persons.rows

section reordered
variable {db db' : LedgerDb} {e : ℕ} {rules : ReportRules} {filters : ReportFilters}
variable {group : Option ℕ}

theorem contributorRow_reordered (h : Reordered db db') : contributorRow db' e = contributorRow db e := by
  rw [h.rest]
  rfl

theorem passes_reordered (h : Reordered db db') :
    passes db' e rules filters group = passes db e rules filters group := by
  rw [h.rest]
  rfl

theorem groupFilter_reordered (h : Reordered db db') :
    groupFilter db' e rules filters = groupFilter db e rules filters := by
  rw [h.rest]
  rfl

theorem passing_reordered (h : Reordered db db') :
    (passing db' e rules filters group).Perm (passing db e rules filters group) := by
  unfold passing
  rw [passes_reordered h]
  exact h.people.filter _

/-- The rows of the people who pass. -/
def passingRows (db : LedgerDb) (e : ℕ) (rules : ReportRules) (filters : ReportFilters)
    (group : Option ℕ) : List ContributorRow :=
  (passing db e rules filters group).map (contributorRow db e)

theorem nodup_passingRows : (passingRows db e rules filters group).Nodup := by
  refine List.Nodup.of_map ContributorRow.id ?_
  unfold passingRows
  rw [List.map_map]
  exact nodup_passing

theorem contributorList_reordered (h : Reordered db db') :
    (contributorList db' e rules filters group).Perm (passingRows db e rules filters group) := by
  refine contributorList_perm.trans ?_
  rw [contributorRow_reordered h]
  exact (passing_reordered h).map _

theorem sorted_contributorList [Std.TransCmp rules.localeCompare] :
    Sorted (compareRows rules filters) (contributorList db e rules filters group) := by
  have := @transCmp_compareRows rules filters _
  refine pairwise_sortContributors (fun a b => ?_) fun _ _ _ => Std.TransCmp.isLE_trans
  rw [← Std.OrientedCmp.isGE_iff_isLE (a := a)]
  cases compareRows rules filters a b <;> simp

/-- Any order of the rows that the comparator allows comes of some order of the people. -/
theorem exists_reordered {rows : List ContributorRow}
    (hperm : rows.Perm (passingRows db e rules filters group))
    (hsorted : Sorted (compareRows rules filters) rows) :
    ∃ db', Reordered db db' ∧ contributorList db' e rules filters group = rows := by
  obtain ⟨people, hpeople, rfl⟩ := exists_map_of_perm hperm
  let pass (q : Person) : Bool := q.eventId == e && passes db e rules filters group q
  have hrows : (people ++ db.persons.rows.filter fun q => !pass q).Perm db.persons.rows :=
    (hpeople.append_right _).trans (List.filter_append_perm pass db.persons.rows)
  have hnodup : ((people ++ db.persons.rows.filter fun q => !pass q).map Person.id).Nodup :=
    (hrows.map Person.id).nodup_iff.mpr db.persons.nodup
  refine ⟨{ db with persons := ⟨_, hnodup⟩ }, ⟨rfl, hrows⟩, ?_⟩
  have hpassing : (people ++ db.persons.rows.filter fun q => !pass q).filter pass = people := by
    rw [List.filter_append, List.filter_filter]
    have hall : people.filter pass = people := List.filter_eq_self.mpr fun q hq =>
      (List.mem_filter.mp (hpeople.subset hq)).2
    have hnone : db.persons.rows.filter (fun q => pass q && !pass q) = [] := by simp
    rw [hall, hnone, List.append_nil]
  change sortContributors rules filters (((people ++ db.persons.rows.filter fun q =>
    !pass q).filter pass).map (contributorRow db e)) = _
  rw [hpassing, sortContributors_eq]
  exact List.Pairwise.insertionSort_eq hsorted

end reordered

/-- The pages of a list that the database returns in any order at each call are, each once, the rows
of everybody who passes exactly where no people the comparator ties begin on one page and end on
another. -/
theorem pages_list_everyone_iff (db : LedgerDb) (ctx : OperationContext) (rules : ReportRules)
    (filters : ReportFilters) (size : ℕ) [Std.TransCmp rules.localeCompare]
    (hread : assertPermission ctx.event.role .eventRead = none) (hsize : 0 < size) :
    let e := ctx.event.eventId
    let group := (groupFilter db e rules filters).join
    ∃ (page : LedgerDb → ℕ → ContributorPage) (count : ℕ),
      (∀ db', Reordered db db' → ∀ k : ℕ,
        run (getPaginatedContributors ctx rules filters (k + 1) size filters.searchTerm) db' =
          (.ok (page db' k), db') ∧ (page db' k).totalPages = .pages count) ∧
      ((∀ dbs : ℕ → LedgerDb, (∀ k, Reordered db (dbs k)) →
        (((List.range count).flatMap fun k => (page (dbs k) k).rows).map PageRow.personId).Perm
          ((passing db e rules filters group).map Person.id)) ↔
        ∀ q ∈ passing db e rules filters group, ¬ Straddles (compareRows rules filters)
          (passingRows db e rules filters group) size (contributorRow db e q)) := by
  have := @transCmp_compareRows rules filters _
  dsimp only
  refine ⟨fun db' k => pageAt (listed db' ctx.event.eventId rules filters) (k + 1) size,
    pageCount (passingRows db ctx.event.eventId rules filters
      (groupFilter db ctx.event.eventId rules filters).join).length size, fun db' hdb' k => ?_, ?_⟩
  · refine ⟨run_getPaginatedContributors hread filters (k + 1) size, ?_⟩
    have hlength := (@contributorList_reordered _ _ ctx.event.eventId rules filters
      (groupFilter db ctx.event.eventId rules filters).join hdb').length_eq
    rw [← hlength, ← groupFilter_reordered hdb']
    exact totalPages_eq hsize
  · have hlisted {db' : LedgerDb} (h : Reordered db db') :
        listed db' ctx.event.eventId rules filters = contributorList db' ctx.event.eventId rules
          filters (groupFilter db ctx.event.eventId rules filters).join := by
      unfold listed
      rw [groupFilter_reordered h]
    generalize (groupFilter db ctx.event.eventId rules filters).join = group at *
    generalize ctx.event.eventId = e at *
    have hnodup : (passingRows db e rules filters group).Nodup := nodup_passingRows
    have hstraddles : (∀ q ∈ passing db e rules filters group, ¬ Straddles (compareRows rules filters)
        (passingRows db e rules filters group) size (contributorRow db e q)) ↔
        ∀ r ∈ passingRows db e rules filters group, ¬ Straddles (compareRows rules filters)
          (passingRows db e rules filters group) size r := by
      unfold passingRows
      simp only [List.mem_map, forall_exists_index, and_imp, forall_apply_eq_imp_iff₂]
    rw [hstraddles, ← pages_complete_iff hnodup hsize (total_le_pages hsize)]
    have hpages (dbs : ℕ → LedgerDb) (hdbs : ∀ k, Reordered db (dbs k)) (count : ℕ) :
        ((List.range count).flatMap fun k =>
          (pageAt (listed (dbs k) e rules filters) (k + 1) size).rows).map PageRow.personId =
          ((List.range count).flatMap fun k =>
            page (contributorList (dbs k) e rules filters group) size k).map ContributorRow.id := by
      have hrows (k : ℕ) : (pageAt (listed (dbs k) e rules filters) (k + 1) size).rows =
          (page (contributorList (dbs k) e rules filters group) size k).map pageRow := by
        rw [hlisted (hdbs k)]
        exact pageAt_rows _ _ _
      simp only [hrows]
      rw [← List.map_flatMap, List.map_map]
      rfl
    have hids : (passing db e rules filters group).map Person.id =
        (passingRows db e rules filters group).map ContributorRow.id := by
      unfold passingRows
      rw [List.map_map]
      rfl
    constructor
    · intro hall ls hls
      choose dbs hdbs hlist using fun k => exists_reordered (hls k).1 (hls k).2
      have hperm := hall dbs hdbs
      rw [hpages dbs hdbs, hids] at hperm
      simp only [hlist] at hperm
      have hflat := (hperm.nodup_iff.mpr (hids ▸ nodup_passing)).of_map
      refine (hflat.subperm fun r hr => ?_).perm_of_length_le ?_
      · obtain ⟨k, -, hr⟩ := List.mem_flatMap.mp hr
        exact (hls k).1.subset (List.mem_of_mem_drop (List.mem_of_mem_take hr))
      · have hlength := hperm.length_eq
        rw [List.length_map, List.length_map] at hlength
        exact hlength.ge
    · intro hall dbs hdbs
      rw [hpages dbs hdbs, hids]
      exact (hall (fun k => contributorList (dbs k) e rules filters group) fun k =>
        ⟨contributorList_reordered (hdbs k), sorted_contributorList⟩).map _

/-- Ann and Ben have paid 100 each. -/
def evenly : LedgerDb :=
  { annAndBen with
    fulfillments := annAndBen.fulfillments.update (fun _ => true) (fun f => { f with value := 100 })
      fun _ => rfl }

def benFirst : LedgerDb :=
  { evenly with
    persons := (Table.empty.insertNew ⟨11, 7, "Ben", none, none, .humanTyped, some 1, 1⟩).insertNew
      ⟨10, 7, "Ann", none, none, .humanTyped, some 1, 0⟩ }

/-- The second page is read from the people in another order, and Ann is on both. -/
theorem contributor_on_both_pages :
    Reordered evenly benFirst ∧
    (∃ page, run (getPaginatedContributors reader plainRules (allOf .contributors) 1 1 none) evenly =
      (.ok page, evenly) ∧ page.totalPages = .pages 2 ∧ page.rows.map PageRow.name = ["Ann"]) ∧
    ∃ page, run (getPaginatedContributors reader plainRules (allOf .contributors) 2 1 none) benFirst =
      (.ok page, benFirst) ∧ page.totalPages = .pages 2 ∧ page.rows.map PageRow.name = ["Ann"] := by
  have hfirst : listed evenly 7 plainRules (allOf .contributors) =
      [⟨10, "Ann", none, 100, 100, []⟩, ⟨11, "Ben", none, 200, 100, []⟩] := by decide +kernel
  have hsecond : listed benFirst 7 plainRules (allOf .contributors) =
      [⟨11, "Ben", none, 200, 100, []⟩, ⟨10, "Ann", none, 100, 100, []⟩] := by decide +kernel
  refine ⟨⟨rfl, List.Perm.swap _ _ _⟩, ⟨_, run_getPaginatedContributors rfl _ 1 1, ?_, ?_⟩,
    ⟨_, run_getPaginatedContributors rfl _ 2 1, ?_, ?_⟩⟩
  all_goals rw [show reader.event.eventId = 7 from rfl]
  · rw [hfirst]
    decide +kernel
  · rw [hfirst]
    rfl
  · rw [hsecond]
    decide +kernel
  · rw [hsecond]
    rfl

/-- Those who have paid unlike amounts are on one page each. -/
theorem pages_list_everyone_iff_annAndBen : ∃ (page : LedgerDb → ℕ → ContributorPage) (count : ℕ),
    ∀ dbs : ℕ → LedgerDb, (∀ k, Reordered annAndBen (dbs k)) →
      (((List.range count).flatMap fun k => (page (dbs k) k).rows).map PageRow.personId).Perm
        ((passing annAndBen 7 plainRules (allOf .contributors) none).map Person.id) := by
  have : Std.TransCmp plainRules.localeCompare :=
    inferInstanceAs (Std.TransCmp (compare : String → String → Ordering))
  obtain ⟨page, count, -, hpages⟩ := pages_list_everyone_iff annAndBen reader plainRules
    (allOf .contributors) 1 rfl Nat.one_pos
  have hapart : ∀ q ∈ passing annAndBen 7 plainRules (allOf .contributors) none,
      tied (compareRows plainRules (allOf .contributors))
        (passingRows annAndBen 7 plainRules (allOf .contributors) none)
        (contributorRow annAndBen 7 q) = 1 := by decide +kernel
  refine ⟨page, count, hpages.mpr ?_⟩
  rintro q hq ⟨k, hfrom, hto⟩
  have htied := hapart q hq
  change _ < _ + tied _ (passingRows annAndBen 7 plainRules (allOf .contributors) none)
    (contributorRow annAndBen 7 q) at hto
  rw [htied] at hto
  omega

end Akabbo.PagedContributors
