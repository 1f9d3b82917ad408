import Akabbo.PagedContributors
import Akabbo.FormUrlencoded
import Mathlib.Data.List.TakeWhile

/-!
# The link of a report

A report comes with a URL that has its filters as parameters. The report viewer reads them back.
-/
namespace Akabbo.ReportLinks
open Access PledgeStatus RowTable StatementProgram LedgerState LedgerReads Reports ToolExecutor
open ContributorStandings ContributorLists ContributorPages MatchingContributors SortedPages
open PagedContributors FormUrlencoded
open StatementProgram.Program

def statusNamed : String → Option StatusFilter
  | "all" => some .all
  | "unpaid" => some .unpaid
  | "partial" => some .partially
  | "complete" => some .complete
  | "outstanding" => some .outstanding
  | _ => none

/-- `ReportController.parseFilters`. The texts are not checked: one that is none of the names is
compared with them later on, and never equal. -/
def parseFilters (numberOf : String → Option ℚ) (query : List (String × String)) : ReportFilters where
  reportType := .contributors
  status := some (((query.lookup "status").bind statusNamed).getD .all)
  groupName := query.lookup "groupName"
  minAmount := (given (query.lookup "minAmount")).bind numberOf
  maxAmount := (given (query.lookup "maxAmount")).bind numberOf
  searchTerm := query.lookup "search"
  sortField := (query.lookup "sort").map fun field => if field = "name" then .name else .amount
  sortDirection := some (if query.lookup "dir" = some "asc" then .asc else .desc)

/-- `ReportController.getContributors`, of a page and its size as they are asked for beside the
filters. -/
def getContributors (ctx : OperationContext) (rules : ReportRules) (numberOf : String → Option ℚ)
    (query : List (String × String)) (page pageSize : ℤ) : LedgerProgram ContributorPage :=
  getPaginatedContributors ctx rules (parseFilters numberOf query) page (min pageSize 100)
    (query.lookup "search")

/-- The path of a URL and its parameters. -/
def splitUrl (url : String) : String × String :=
  (String.ofList (url.toList.takeWhile (· != '?')),
    String.ofList ((url.toList.dropWhile (· != '?')).drop 1))

/-- Where the controller is. -/
def controllerPath (rules : ReportRules) (eventId : ℕ) : String :=
  s!"/events/{rules.idText eventId}/report/"

/-- The page of the viewer that a URL opens, where its path is that of the contributors. -/
def openReport (ctx : OperationContext) (rules : ReportRules) (numberOf : String → Option ℚ)
    (url : String) (page pageSize : ℤ) : Option (LedgerProgram ContributorPage) :=
  if (splitUrl url).1 = controllerPath rules ctx.event.eventId ++ "contributors" then
    some (getContributors ctx rules numberOf (parse (splitUrl url).2) page pageSize)
  else none

section params
variable {rules : ReportRules} {input : ReportFilters} {groupId : Option ℕ} {e : ℕ}

/-- What a URL may say, and what it says of each. -/
def urlFields (rules : ReportRules) (input : ReportFilters) (groupId : Option ℕ) :
    List (String × Option String) :=
  [("status", namedStatus input), ("groupId", groupId.map rules.idText),
    ("minAmount", (givenNumber input.minAmount).map rules.numberText),
    ("maxAmount", (givenNumber input.maxAmount).map rules.numberText),
    ("search", given input.searchTerm), ("sort", input.sortField.map SortField.text),
    ("dir", input.sortDirection.map SortDirection.text)]

def named (fields : List (String × Option String)) : List (String × String) :=
  fields.flatMap fun f => (f.2.map fun text => (f.1, text)).toList

theorem lookup_named {fields : List (String × Option String)}
    (hnodup : (fields.map Prod.fst).Nodup) (key : String) :
    (named fields).lookup key = (fields.lookup key).join := by
  induction fields with
  | nil => rfl
  | cons f fields ih =>
    obtain ⟨name, value⟩ := f
    obtain ⟨hnew, hrest⟩ := List.nodup_cons.mp hnodup
    have hcons : named ((name, value) :: fields) =
        (value.map fun text => (name, text)).toList ++ named fields := rfl
    by_cases hkey : key = name
    · subst hkey
      have hnone : fields.lookup key = none := by
        rw [List.lookup_eq_none_iff]
        intro f hf
        rw [bne_iff_ne]
        intro hname
        exact hnew (List.mem_map.mpr ⟨f, hf, hname.symm⟩)
      rw [hcons, List.lookup_cons_self]
      cases value with
      | none =>
        rw [Option.map_none, Option.toList_none, List.nil_append, ih hrest, hnone]
        rfl
      | some text => simp
    · rw [hcons, List.lookup_cons, beq_false_of_ne hkey]
      cases value with
      | none => exact ih hrest
      | some text =>
        rw [Option.map_some, Option.toList_some, List.singleton_append, List.lookup_cons,
          beq_false_of_ne hkey]
        exact ih hrest

theorem lookup_urlFields (key : String) : (named (urlFields rules input groupId)).lookup key =
    ((urlFields rules input groupId).lookup key).join :=
  lookup_named (by simp [urlFields]) key

theorem filterUrl_eq : filterUrl e { rules with queryString := serialize } input groupId =
    let base := controllerPath rules e ++ input.reportType.path
    let qs := serialize (named (urlFields rules input groupId))
    if qs = "" then base else base ++ "?" ++ qs := by
  have hparams : named (urlFields rules input groupId) =
      ((namedStatus input).map fun s => ("status", s)).toList ++
      (groupId.map fun g => ("groupId", rules.idText g)).toList ++
      ((givenNumber input.minAmount).map fun x => ("minAmount", rules.numberText x)).toList ++
      ((givenNumber input.maxAmount).map fun x => ("maxAmount", rules.numberText x)).toList ++
      ((given input.searchTerm).map fun s => ("search", s)).toList ++
      (input.sortField.map fun f => ("sort", f.text)).toList ++
      (input.sortDirection.map fun d => ("dir", d.text)).toList := by
    unfold named urlFields
    simp only [List.flatMap_cons, List.flatMap_nil, List.append_nil, List.append_assoc,
      Option.map_map]
    rfl
  rw [hparams]
  rfl

/-- A URL comes apart at its first question mark. -/
theorem splitUrl_append {base qs : String} (h : '?' ∉ base.toList) :
    splitUrl (if qs = "" then base else base ++ "?" ++ qs) = (base, qs) := by
  have hbase : ∀ c ∈ base.toList, (c != '?') = true := fun c hc =>
    bne_iff_ne.mpr fun hq => h (hq ▸ hc)
  unfold splitUrl
  split_ifs with hempty
  · rw [hempty, List.takeWhile_eq_self_iff.mpr hbase, List.dropWhile_eq_nil_iff.mpr hbase]
    simp
  · have hlist : (base ++ "?" ++ qs).toList = base.toList ++ '?' :: qs.toList := by
      simp [String.toList_append]
    rw [hlist, List.takeWhile_append_of_pos hbase, List.dropWhile_append_of_pos hbase]
    simp

/-- The filters that a reader of the URL has: those of the report without its group. -/
def reread (input : ReportFilters) : ReportFilters where
  reportType := .contributors
  status := some (input.status.getD .all)
  minAmount := givenNumber input.minAmount
  maxAmount := givenNumber input.maxAmount
  searchTerm := given input.searchTerm
  sortField := input.sortField
  sortDirection := some (input.sortDirection.getD .desc)

/-- The bounds of a report, written and read as numbers. -/
def NumbersReadBack (rules : ReportRules) (numberOf : String → Option ℚ) (input : ReportFilters) :
    Prop :=
  ∀ x, givenNumber input.minAmount = some x ∨ givenNumber input.maxAmount = some x →
    rules.numberText x ≠ "" ∧ numberOf (rules.numberText x) = some x

theorem statusNamed_namedStatus :
    ((namedStatus input).bind statusNamed).getD .all = input.status.getD .all := by
  unfold namedStatus
  match input.status with
  | none => rfl
  | some .all | some .unpaid | some .partially | some .complete | some .outstanding => rfl

theorem number_readBack {numberOf : String → Option ℚ} {value : Option ℚ}
    (h : ∀ x, givenNumber value = some x →
      rules.numberText x ≠ "" ∧ numberOf (rules.numberText x) = some x) :
    (given ((givenNumber value).map rules.numberText)).bind numberOf = givenNumber value := by
  cases hvalue : givenNumber value with
  | none => rfl
  | some x =>
    obtain ⟨htext, hnumber⟩ := h x hvalue
    have hgiven : given (some (rules.numberText x)) = some (rules.numberText x) :=
      Option.filter_eq_some_iff.mpr ⟨rfl, bne_iff_ne.mpr htext⟩
    rw [Option.map_some, hgiven]
    exact hnumber

theorem parseFilters_urlFields {numberOf : String → Option ℚ}
    (h : NumbersReadBack rules numberOf input) :
    parseFilters numberOf (named (urlFields rules input groupId)) = reread input := by
  have hlow := number_readBack fun x hx => h x (.inl hx)
  have hhigh := number_readBack fun x hx => h x (.inr hx)
  have hfield : (input.sortField.map SortField.text).map (fun field =>
      if field = "name" then SortField.name else .amount) = input.sortField := by
    match input.sortField with
    | none | some .name | some .amount => rfl
  have hdirection : (if input.sortDirection.map SortDirection.text = some "asc"
      then SortDirection.asc else .desc) = input.sortDirection.getD .desc := by
    match input.sortDirection with
    | none | some .asc | some .desc => rfl
  unfold parseFilters reread
  simp only [lookup_urlFields]
  rw [← statusNamed_namedStatus, ← hlow, ← hhigh, ← hfield, ← hdirection]
  rfl

theorem given_given {text : Option String} : given (given text) = given text := by
  unfold given
  rw [Option.filter_filter]
  simp

theorem givenNumber_givenNumber {value : Option ℚ} :
    givenNumber (givenNumber value) = givenNumber value := by
  unfold givenNumber
  rw [Option.filter_filter]
  simp

/-- The same people, in the same order, of one group. -/
theorem contributorList_reread {db : LedgerDb} : contributorList db e rules (reread input) groupId =
    contributorList db e rules input groupId := by
  have hpasses : passes db e rules (reread input) groupId = passes db e rules input groupId := by
    funext q
    unfold passes passesSearch passesAmounts passesStatus reread
    simp only [given_given, givenNumber_givenNumber, Option.getD_some]
  have hcompare : compareRows rules (reread input) = compareRows rules input := by
    funext a b
    unfold compareRows reread
    match input.sortDirection with
    | none | some .asc | some .desc => rfl
  unfold contributorList passing
  rw [hpasses, sortContributors_eq, sortContributors_eq, hcompare]

theorem openReport_of_splitUrl {ctx : OperationContext} {numberOf : String → Option ℚ} {url qs : String}
    {page pageSize : ℤ} (h : splitUrl url =
      (controllerPath rules ctx.event.eventId ++ "contributors", qs)) :
    openReport ctx rules numberOf url page pageSize =
      some (getContributors ctx rules numberOf (parse qs) page pageSize) := by
  unfold openReport
  rw [h]
  exact if_pos rfl

/-- What the viewer shows of a link: the contributors of the report whatever their group. -/
theorem openReport_filterUrl {ctx : OperationContext} {numberOf : String → Option ℚ} {db : LedgerDb}
    (hread : assertPermission ctx.event.role .eventRead = none)
    (hpath : input.reportType.path = "contributors")
    (hid : '?' ∉ (rules.idText ctx.event.eventId).toList) (hnumbers : NumbersReadBack rules numberOf input)
    (page pageSize : ℤ) : ∃ p,
      openReport ctx rules numberOf
        (filterUrl ctx.event.eventId { rules with queryString := serialize } input groupId)
        page pageSize = some p ∧
      run p db = (.ok (pageAt (contributorList db ctx.event.eventId rules input none) page
        (min pageSize 100)), db) := by
  have hbase : '?' ∉ (controllerPath rules ctx.event.eventId ++ "contributors").toList := by
    have htext : (controllerPath rules ctx.event.eventId ++ "contributors").toList =
        "/events/".toList ++ (rules.idText ctx.event.eventId).toList ++ "/report/".toList ++
          "contributors".toList := by
      unfold controllerPath
      rw [String.toList_append]
      rw [String.toList_append, String.toList_append]
      rfl
    rw [htext, List.mem_append, List.mem_append, List.mem_append]
    rintro (((h | h) | h) | h)
    · revert h
      decide
    · exact hid h
    · revert h
      decide
    · revert h
      decide
  have hsplit : splitUrl (filterUrl ctx.event.eventId { rules with queryString := serialize } input
      groupId) = (controllerPath rules ctx.event.eventId ++ "contributors",
        serialize (named (urlFields rules input groupId))) := by
    rw [filterUrl_eq, hpath]
    exact splitUrl_append hbase
  refine ⟨_, openReport_of_splitUrl hsplit, ?_⟩
  unfold getContributors
  rw [parse_serialize, parseFilters_urlFields hnumbers]
  have hsearch : (named (urlFields rules input groupId)).lookup "search" =
      (reread input).searchTerm := by
    rw [lookup_urlFields]
    rfl
  have hlisted : listed db ctx.event.eventId rules (reread input) =
      contributorList db ctx.event.eventId rules input none := by
    have hgroup : groupFilter db ctx.event.eventId rules (reread input) = some none := rfl
    unfold listed
    rw [hgroup]
    exact contributorList_reread
  rw [hsearch, run_getPaginatedContributors hread, hlisted]

end params

section links
variable {db : LedgerDb} {e : ℕ} {rules : ReportRules} {filters : ReportFilters}

/-- Of a group there are those in it. -/
theorem passing_group {group : Option ℕ} : passing db e rules filters group =
    (passing db e rules filters none).filter (inGroup db e group) := by
  unfold passing
  rw [List.filter_filter]
  refine List.filter_congr fun q _ => ?_
  rw [Bool.eq_iff_iff]
  simp only [passes, inGroup, Option.all_none, Bool.and_eq_true]
  tauto

theorem length_group_iff {group : Option ℕ} :
    (passingRows db e rules filters none).length = (passingRows db e rules filters group).length ↔
      ∀ q ∈ passing db e rules filters none, inGroup db e group q = true := by
  unfold passingRows
  rw [List.length_map, List.length_map, @passing_group _ _ _ _ group, eq_comm]
  exact List.length_filter_eq_length_iff

theorem contributorList_group {db' : LedgerDb} {group : Option ℕ} (hdb' : Reordered db db')
    (h : ∀ q ∈ passing db e rules filters none, inGroup db e group q = true) :
    contributorList db' e rules filters none = contributorList db' e rules filters group := by
  have hsame : inGroup db' e group = inGroup db e group := by
    rw [hdb'.rest]
    rfl
  unfold contributorList
  rw [@passing_group _ _ _ _ group, hsame, List.filter_eq_self.mpr fun q hq =>
    h q ((passing_reordered hdb').subset hq)]

theorem eq_of_map_eq {α β : Type} {f : α → β} {l l₁ l₂ : List α} (hnodup : (l.map f).Nodup)
    (h₁ : l₁.Perm l) (h₂ : l₂.Perm l) (h : l₁.map f = l₂.map f) : l₁ = l₂ := by
  refine List.ext_getElem (h₁.trans h₂.symm).length_eq fun i hi₁ hi₂ => ?_
  refine List.inj_on_of_nodup_map hnodup (h₁.subset (List.getElem_mem hi₁))
    (h₂.subset (List.getElem_mem hi₂)) ?_
  have hi := congrArg (fun l => l[i]?) h
  simpa [hi₁, hi₂] using hi

/-- Two readers see the same rows in the same order exactly where no two people tie. -/
theorem same_rows_iff [Std.TransCmp rules.localeCompare] {group : Option ℕ} :
    (∀ db₁ db₂, Reordered db db₁ → Reordered db db₂ →
      (contributorList db₁ e rules filters group).map pageRow =
        (contributorList db₂ e rules filters group).map pageRow) ↔
      ∀ q ∈ passing db e rules filters group, ∀ r ∈ passing db e rules filters group,
        compareRows rules filters (contributorRow db e q) (contributorRow db e r) = .eq → q = r := by
  have := @transCmp_compareRows rules filters _
  have hids : ((passing db e rules filters group).map Person.id).Nodup := nodup_passing
  have hshown : ((passingRows db e rules filters group).map pageRow).Nodup := by
    refine List.Nodup.of_map PageRow.personId ?_
    unfold passingRows
    rw [List.map_map, List.map_map]
    exact hids
  have hties : (∀ a ∈ passingRows db e rules filters group,
      ∀ b ∈ passingRows db e rules filters group, compareRows rules filters a b = .eq → a = b) ↔
      ∀ q ∈ passing db e rules filters group, ∀ r ∈ passing db e rules filters group,
        compareRows rules filters (contributorRow db e q) (contributorRow db e r) = .eq → q = r := by
    unfold passingRows
    simp only [List.mem_map, forall_exists_index, and_imp, forall_apply_eq_imp_iff₂]
    refine forall₂_congr fun q hq => forall₂_congr fun r hr => imp_congr_right fun _ => ⟨fun h => ?_, ?_⟩
    · exact List.inj_on_of_nodup_map hids hq hr (congrArg ContributorRow.id h)
    · rintro rfl
      rfl
  rw [← hties, ← sorted_unique_iff nodup_passingRows]
  constructor
  · intro hsame l₁ l₂ h₁ hperm₁ h₂ hperm₂
    obtain ⟨db₁, hdb₁, rfl⟩ := exists_reordered hperm₁ h₁
    obtain ⟨db₂, hdb₂, rfl⟩ := exists_reordered hperm₂ h₂
    exact eq_of_map_eq hshown hperm₁ hperm₂ (hsame db₁ db₂ hdb₁ hdb₂)
  · intro hunique db₁ db₂ hdb₁ hdb₂
    rw [hunique _ _ sorted_contributorList (contributorList_reordered hdb₁)
      sorted_contributorList (contributorList_reordered hdb₂)]

theorem rows_pageAt {db' : LedgerDb} {k size : ℕ} :
    (pageAt (contributorList db' e rules filters none) (k + 1) size).rows =
      (((contributorList db' e rules filters none).map pageRow).drop (k * size)).take size := by
  rw [pageAt_rows, List.map_take, List.map_drop]

/-- The pages of one reader are his list. -/
theorem flatMap_pageAt {db' : LedgerDb} {size : ℕ} (hsize : 0 < size) (hdb' : Reordered db db') :
    (List.range (pageCount (passingRows db e rules filters none).length size)).flatMap
        (fun k : ℕ => (pageAt (contributorList db' e rules filters none) (k + 1) size).rows) =
      (contributorList db' e rules filters none).map pageRow := by
  simp only [rows_pageAt]
  have hlength : ((contributorList db' e rules filters none).map pageRow).length =
      (contributorList db' e rules filters none).length := List.length_map _
  rw [← (contributorList_reordered hdb').length_eq, ← hlength]
  exact flatMap_pages_all _ hsize

/-- Pages that different readers ask for are another reader's list of the group exactly where the
group is everybody and no two people tie. -/
theorem pages_same_iff [Std.TransCmp rules.localeCompare] {group : Option ℕ} {size : ℕ}
    (hsize : 0 < size) :
    (∀ (db₀ : LedgerDb) (dbs : ℕ → LedgerDb), Reordered db db₀ → (∀ k, Reordered db (dbs k)) →
      (List.range (pageCount (passingRows db e rules filters none).length size)).flatMap
          (fun k => (pageAt (contributorList (dbs k) e rules filters none) (k + 1) size).rows) =
        (contributorList db₀ e rules filters group).map pageRow) ↔
      (∀ q ∈ passing db e rules filters none, inGroup db e group q = true) ∧
      ∀ q ∈ passing db e rules filters none, ∀ r ∈ passing db e rules filters none,
        compareRows rules filters (contributorRow db e q) (contributorRow db e r) = .eq → q = r := by
  have hself : Reordered db db := ⟨rfl, .refl _⟩
  constructor
  · intro hall
    have hsame {db₀ db' : LedgerDb} (h₀ : Reordered db db₀) (hdb' : Reordered db db') :
        (contributorList db' e rules filters none).map pageRow =
          (contributorList db₀ e rules filters group).map pageRow := by
      rw [← hall db₀ (fun _ => db') h₀ fun _ => hdb', flatMap_pageAt hsize hdb']
    refine ⟨?_, same_rows_iff.mp fun db₁ db₂ h₁ h₂ => (hsame hself h₁).trans (hsame hself h₂).symm⟩
    have hlength := congrArg List.length (hsame hself hself)
    rw [List.length_map, List.length_map, (contributorList_reordered hself).length_eq,
      (contributorList_reordered hself).length_eq] at hlength
    exact length_group_iff.mp hlength
  · rintro ⟨hmembers, hties⟩ db₀ dbs h₀ hdbs
    have hrows (k : ℕ) : (pageAt (contributorList (dbs k) e rules filters none) (k + 1) size).rows =
        (pageAt (contributorList db₀ e rules filters none) (k + 1) size).rows := by
      rw [rows_pageAt, rows_pageAt, same_rows_iff.mpr hties (dbs k) db₀ (hdbs k) h₀]
    simp only [hrows]
    rw [flatMap_pageAt hsize h₀, contributorList_group h₀ hmembers]

end links

/-- The link of a report shows, page by page, the report's contributors in its order and its totals,
in whatever order the database returns the people each time, exactly where everybody who passes its
other filters is of its group and no two of them tie in the sort: the link names the group by a
parameter that is not read. -/
theorem link_shows_report_iff (db : LedgerDb) (ctx : OperationContext) (rules : ReportRules)
    (numberOf : String → Option ℚ) (filters : ReportFilters) (size : ℕ)
    [Std.TransCmp rules.localeCompare] (hread : assertPermission ctx.event.role .eventRead = none)
    (hbudget : filters.reportType ≠ .budget) (hpayments : filters.reportType ≠ .payments)
    (hid : '?' ∉ (rules.idText ctx.event.eventId).toList)
    (hnumbers : NumbersReadBack rules numberOf filters) (hsize : 0 < size) (hmax : size ≤ 100) :
    let e := ctx.event.eventId
    let group := (groupFilter db e rules filters).join
    ∃ (report : LedgerDb → ReportResult) (page : LedgerDb → ℕ → ContributorPage) (count : ℕ),
      (∀ db₀, Reordered db db₀ →
        run (generateReport ctx { rules with queryString := serialize } filters) db₀ =
          (.ok (report db₀), db₀) ∧
        (report db₀).preview = ((contributorList db₀ e rules filters group).take
          (min (max (filters.limit.getD defaultLimit) 1) maxLimit).toNat).map contributorPreview ∧
        ∀ db', Reordered db db' → ∀ k : ℕ, ∃ p,
          openReport ctx rules numberOf (report db₀).reportRef.filterUrl (k + 1) size = some p ∧
          run p db' = (.ok (page db' k), db') ∧ (page db' k).totalPages = .pages count) ∧
      ((∀ (db₀ : LedgerDb) (dbs : ℕ → LedgerDb), Reordered db db₀ → (∀ k, Reordered db (dbs k)) →
          (List.range count).flatMap (fun k => (page (dbs k) k).rows) =
            (contributorList db₀ e rules filters group).map pageRow ∧
          ∀ k, (page (dbs k) k).totalRecords = (report db₀).reportRef.totalRecords ∧
            (page (dbs k) k).totalAmount = (report db₀).reportRef.totalAmount) ↔
        (∀ q ∈ passing db e rules filters none, inGroup db e group q = true) ∧
        ∀ q ∈ passing db e rules filters none, ∀ r ∈ passing db e rules filters none,
          compareRows rules filters (contributorRow db e q) (contributorRow db e r) = .eq → q = r) := by
  have hpath : filters.reportType.path = "contributors" := by
    match hreport : filters.reportType with
    | .contributors | .outstanding | .pledges => rfl
    | .budget => exact absurd hreport hbudget
    | .payments => exact absurd hreport hpayments
  choose report hreport hrecords hamount hurl hpreview hrest using fun db₀ : LedgerDb =>
    @run_generateReport db₀ { rules with queryString := serialize } ctx hread filters hbudget hpayments
  have hlisted {db₀ : LedgerDb} (h₀ : Reordered db db₀) :
      listed db₀ ctx.event.eventId { rules with queryString := serialize } filters =
        contributorList db₀ ctx.event.eventId rules filters
          (groupFilter db ctx.event.eventId rules filters).join := by
    rw [← groupFilter_reordered h₀]
    rfl
  dsimp only
  refine ⟨report, fun db' k => pageAt (contributorList db' ctx.event.eventId rules filters none) (k + 1)
    size, pageCount (passingRows db ctx.event.eventId rules filters none).length size,
    fun db₀ h₀ => ⟨hreport db₀, ?_, fun db' hdb' k => ?_⟩, ?_⟩
  · rw [hpreview, hlisted h₀]
  · obtain ⟨p, hopen, hrun⟩ := @openReport_filterUrl rules filters (groupFilter db₀ ctx.event.eventId
      { rules with queryString := serialize } filters).join ctx numberOf db' hread hpath hid hnumbers
      (k + 1) size
    rw [min_eq_left (by exact_mod_cast hmax)] at hrun
    rw [hurl, ← (contributorList_reordered hdb').length_eq]
    exact ⟨p, hopen, hrun, totalPages_eq hsize⟩
  · refine ⟨fun hall => (pages_same_iff hsize).mp fun db₀ dbs h₀ hdbs => (hall db₀ dbs h₀ hdbs).1,
      fun hshown db₀ dbs h₀ hdbs => ⟨(pages_same_iff hsize).mpr hshown db₀ dbs h₀ hdbs, fun k => ?_⟩⟩
    have hperm : (contributorList (dbs k) ctx.event.eventId rules filters none).Perm
        (contributorList db₀ ctx.event.eventId rules filters
          (groupFilter db ctx.event.eventId rules filters).join) := by
      rw [← contributorList_group h₀ hshown.1]
      exact (contributorList_reordered (hdbs k)).trans (contributorList_reordered h₀).symm
    constructor
    · rw [hrecords, hlisted h₀]
      exact hperm.length_eq
    · rw [hamount, hlisted h₀]
      exact congrArg moneyToString (hperm.map ContributorRow.received).sum_eq

/-- Ann sings in the choir, and Ben does not. -/
def choirOfAnn : LedgerDb :=
  { annAndBen with
    groups := Table.empty.insertNew ⟨40, 7, "Choir", .other, some 1⟩
    personGroups := Table.empty.insertNew ⟨7, 10, 40, none⟩ }

def ofChoir : ReportFilters := { allOf .contributors with groupName := some "Choir" }

/-- The report of the choir is of one contributor, and its link opens a list of two. -/
theorem link_leaves_the_group : ∃ report p page,
    run (generateReport reader { plainRules with queryString := serialize } ofChoir) choirOfAnn =
      (.ok report, choirOfAnn) ∧
    openReport reader plainRules (fun _ => none) report.reportRef.filterUrl 1 25 = some p ∧
    run p choirOfAnn = (.ok page, choirOfAnn) ∧
    report.preview.map ReportPreviewRow.name = ["Ann"] ∧ page.rows.map PageRow.name = ["Ann", "Ben"] ∧
    report.reportRef.totalAmount = "100" ∧ page.totalAmount = "300" := by
  have hreported : listed choirOfAnn 7 { plainRules with queryString := serialize } ofChoir =
      [⟨10, "Ann", some "Choir", 100, 100, []⟩] := by decide +kernel
  have hlinked : contributorList choirOfAnn 7 plainRules ofChoir none =
      [⟨10, "Ann", some "Choir", 100, 100, []⟩, ⟨11, "Ben", none, 200, 200, []⟩] := by decide +kernel
  obtain ⟨report, hreport, -, hamount, hurl, hpreview, -⟩ :=
    @run_generateReport choirOfAnn { plainRules with queryString := serialize } reader rfl ofChoir
      (by decide) (by decide)
  obtain ⟨p, hopen, hrun⟩ := @openReport_filterUrl plainRules ofChoir
    (groupFilter choirOfAnn 7 { plainRules with queryString := serialize } ofChoir).join reader
    (fun _ => none) choirOfAnn rfl rfl (by decide +kernel) (by rintro x (h | h) <;> cases h) 1 25
  rw [show reader.event.eventId = 7 from rfl] at *
  rw [hlinked] at hrun
  rw [hreported] at hpreview hamount
  refine ⟨report, p, _, hreport, ?_, hrun, ?_, by decide +kernel, ?_, by decide +kernel⟩
  · rw [hurl]
    exact hopen
  · rw [hpreview]
    rfl
  · rw [hamount]
    decide +kernel

def numberOfDigits (text : String) : Option ℚ :=
  some (text.toList.foldl (fun n c => 10 * n + (c.toNat - 48)) 0 : ℕ)

/-- Both sing in the choir. -/
def choirOfBoth : LedgerDb :=
  { choirOfAnn with personGroups := choirOfAnn.personGroups.insertNew ⟨7, 11, 40, none⟩ }

/-- A whole choir whose singers have paid unlike amounts is on the pages of its report's link. -/
theorem link_shows_report_iff_choirOfBoth : ∃ (page : LedgerDb → ℕ → ContributorPage) (count : ℕ),
    ∀ dbs : ℕ → LedgerDb, (∀ k, Reordered choirOfBoth (dbs k)) →
      (List.range count).flatMap (fun k => (page (dbs k) k).rows) =
        [⟨10, "Ann", some "Choir", "100", none, "complete"⟩,
          ⟨11, "Ben", some "Choir", "200", none, "complete"⟩] := by
  have : Std.TransCmp plainRules.localeCompare :=
    inferInstanceAs (Std.TransCmp (compare : String → String → Ordering))
  obtain ⟨report, page, count, -, hshows⟩ := link_shows_report_iff choirOfBoth reader plainRules
    numberOfDigits { ofChoir with minAmount := some 50 } 1 rfl (by decide) (by decide) (by decide +kernel)
    (by
      rintro x (h | h)
      · cases h
        exact ⟨by decide +kernel, by decide +kernel⟩
      · cases h) (by decide) (by decide)
  have hgroup : ∀ q ∈ passing choirOfBoth 7 plainRules { ofChoir with minAmount := some 50 } none,
      inGroup choirOfBoth 7 (groupFilter choirOfBoth 7 plainRules
        { ofChoir with minAmount := some 50 }).join q = true := by decide +kernel
  have hties : ∀ q ∈ passing choirOfBoth 7 plainRules { ofChoir with minAmount := some 50 } none,
      ∀ r ∈ passing choirOfBoth 7 plainRules { ofChoir with minAmount := some 50 } none,
        compareRows plainRules { ofChoir with minAmount := some 50 } (contributorRow choirOfBoth 7 q)
          (contributorRow choirOfBoth 7 r) = .eq → q = r := by decide +kernel
  refine ⟨page, count, fun dbs hdbs => ?_⟩
  refine (hshows.mpr ⟨hgroup, hties⟩ choirOfBoth dbs ⟨rfl, .refl _⟩ hdbs).1.trans ?_
  decide +kernel

end Akabbo.ReportLinks
