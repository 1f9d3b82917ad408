import Akabbo.ContributorStandings

/-!
# The list of contributors

What the report service selects from the people of an event, in what order, and what its three
readers make of it.
-/
namespace Akabbo.ContributorLists
open Access PledgeStatus RowTable StatementProgram LedgerState LedgerReads Reports ToolExecutor
open ContributorStandings
open StatementProgram.Program

section lists
variable (db : LedgerDb) (e : ℕ) (rules : ReportRules) (filters : ReportFilters) (groupId : Option ℕ)

def inGroup (q : Person) : Bool :=
  groupId.all fun g => db.personGroups.rows.any fun r =>
    r.eventId == e && r.personId == q.id && r.groupId == g

/-- All that is checked of a person, in the database and after it. -/
def passes (q : Person) : Bool :=
  passesSearch rules filters q.displayName && inGroup db e groupId q &&
    passesStatus filters.status (contributorRow db e q) &&
    passesAmounts rules filters (contributorRow db e q)

/-- The people who pass, in the order of the table. -/
def passing : List Person :=
  db.persons.rows.filter fun q => q.eventId == e && passes db e rules filters groupId q

def contributorList : List ContributorRow :=
  sortContributors rules filters ((passing db e rules filters groupId).map (contributorRow db e))

theorem exec_queryContributors : exec (queryContributors e rules filters groupId) db db =
    .ok (contributorList db e rules filters groupId, db, db) := by
  have hpassing : ((((db.persons.rows.filter fun q => q.eventId == e &&
      passesSearch rules filters q.displayName && inGroup db e groupId q).map
        (contributorRow db e)).filter (passesStatus filters.status)).filter
          (passesAmounts rules filters)) =
      (passing db e rules filters groupId).map (contributorRow db e) := by
    rw [List.filter_map, List.filter_map, List.filter_filter, List.filter_filter]
    refine congrArg (List.map _) (List.filter_congr fun q _ => ?_)
    rw [Bool.eq_iff_iff]
    simp only [passes, Function.comp_apply, Bool.and_eq_true]
    tauto
  unfold contributorList
  rw [← hpassing]
  rfl

theorem run_queryContributors : run (queryContributors e rules filters groupId) db =
    (.ok (contributorList db e rules filters groupId), db) := by
  unfold StatementProgram.Program.run
  rw [exec_queryContributors]

variable {db e rules filters groupId}

theorem mem_passing {q : Person} : q ∈ passing db e rules filters groupId ↔
    q ∈ db.persons.rows ∧ q.eventId = e ∧ passes db e rules filters groupId q = true := by
  simp [passing, List.mem_filter]

theorem contributorList_perm : (contributorList db e rules filters groupId).Perm
    ((passing db e rules filters groupId).map (contributorRow db e)) :=
  sortContributors_perm _ _ _

theorem mem_contributorList {r : ContributorRow} : r ∈ contributorList db e rules filters groupId ↔
    ∃ q ∈ passing db e rules filters groupId, contributorRow db e q = r := by
  rw [contributorList_perm.mem_iff, List.mem_map]

theorem nodup_passing : ((passing db e rules filters groupId).map Person.id).Nodup :=
  db.persons.nodup.sublist (List.filter_sublist.map _)

theorem length_contributorList : (contributorList db e rules filters groupId).length =
    (passing db e rules filters groupId).length := by
  rw [contributorList_perm.length_eq, List.length_map]

end lists

section order
variable {rules : ReportRules} {filters : ReportFilters} {rows : List ContributorRow}

/-- The comparator of the sort. -/
def compareRows (rules : ReportRules) (filters : ReportFilters) (a b : ContributorRow) : Ordering :=
  let order := match filters.sortField with
    | some .name => rules.localeCompare a.displayName b.displayName
    | _ => compare b.received a.received
  if filters.sortDirection = some .asc then order else order.swap

theorem isLE_compareRows_amount (hsort : filters.sortField ≠ some .name) {a b : ContributorRow} :
    (compareRows rules filters a b).isLE = true ↔ if filters.sortDirection = some .asc then
      b.received ≤ a.received else a.received ≤ b.received := by
  have horder : compareRows rules filters a b = if filters.sortDirection = some .asc then
      compare b.received a.received else (compare b.received a.received).swap := by
    unfold compareRows
    match hfield : filters.sortField with
    | some .name => exact absurd hfield hsort
    | some .amount => rfl
    | none => rfl
  rw [horder]
  split_ifs
  · exact Nat.isLE_compare
  · rw [Ordering.isLE_swap]
    exact Nat.isGE_compare

theorem isLE_compareRows_name (hsort : filters.sortField = some .name) {a b : ContributorRow} :
    (compareRows rules filters a b).isLE = true ↔ rules.localeCompare a.displayName b.displayName ≠
      if filters.sortDirection = some .asc then .gt else .lt := by
  unfold compareRows
  rw [hsort]
  split_ifs
  · exact Ordering.isLE_iff_ne_gt
  · rw [Ordering.isLE_swap]
    exact Ordering.isGE_iff_ne_lt

theorem sortContributors_eq : sortContributors rules filters rows =
    rows.insertionSort fun a b => (compareRows rules filters a b).isLE = true := by
  have hsame {r : ContributorRow → ContributorRow → Prop} [DecidableRel r]
      (h : ∀ a b, r a b ↔ (compareRows rules filters a b).isLE = true) : rows.insertionSort r =
        rows.insertionSort fun a b => (compareRows rules filters a b).isLE = true := by
    have hmap := List.map_insertionSort r (fun a b => (compareRows rules filters a b).isLE = true) id
      rows fun a _ b _ => h a b
    rwa [List.map_id, List.map_id] at hmap
  unfold sortContributors
  match hfield : filters.sortField with
  | some .name =>
    exact hsame fun a b => by simp only [isLE_compareRows_name hfield, beq_iff_eq]
  | some .amount =>
    exact hsame fun a b => by
      simp only [isLE_compareRows_amount (ne_of_eq_of_ne hfield nofun), beq_iff_eq]
  | none =>
    exact hsame fun a b => by
      simp only [isLE_compareRows_amount (ne_of_eq_of_ne hfield nofun), beq_iff_eq]

/-- The comparator puts the rows in one order, ties apart, where that of the names does. -/
theorem transCmp_compareRows [Std.TransCmp rules.localeCompare] :
    Std.TransCmp (compareRows rules filters) := by
  have hkey {α : Type} (cmp : α → α → Ordering) [Std.TransCmp cmp] (key : ContributorRow → α) :
      Std.TransCmp fun a b => cmp (key a) (key b) :=
    { eq_swap := Std.OrientedCmp.eq_swap, isLE_trans := Std.TransCmp.isLE_trans }
  have hdirection {order : ContributorRow → ContributorRow → Ordering} (h : Std.TransCmp order) :
      Std.TransCmp fun a b => if filters.sortDirection = some .asc then order a b
        else (order a b).swap := by
    split_ifs
    · exact h
    · have hswap : (fun a b => (order a b).swap) = fun a b => order b a :=
        funext fun a => funext fun b => Std.OrientedCmp.eq_swap.symm
      rw [hswap]
      exact Std.TransCmp.opposite
  unfold compareRows
  match filters.sortField with
  | some .name => exact hdirection (hkey rules.localeCompare ContributorRow.displayName)
  | some .amount => exact hdirection (hkey (fun m n : ℕ => compare n m) ContributorRow.received)
  | none => exact hdirection (hkey (fun m n : ℕ => compare n m) ContributorRow.received)

/-- Sorted by the comparator; rows that it ties stay as they were. -/
theorem pairwise_sortContributors (htotal : ∀ a b, (compareRows rules filters a b).isLE = true ∨
      (compareRows rules filters b a).isLE = true)
    (htrans : ∀ a b c, (compareRows rules filters a b).isLE = true →
      (compareRows rules filters b c).isLE = true → (compareRows rules filters a c).isLE = true) :
    (sortContributors rules filters rows).Pairwise
      fun a b => (compareRows rules filters a b).isLE = true := by
  rw [sortContributors_eq]
  have : Std.Total fun a b : ContributorRow => (compareRows rules filters a b).isLE = true := ⟨htotal⟩
  have : IsTrans ContributorRow fun a b => (compareRows rules filters a b).isLE = true := ⟨htrans⟩
  exact List.pairwise_insertionSort _ _

theorem pairwise_amount (hsort : filters.sortField ≠ some .name) :
    (sortContributors rules filters rows).Pairwise fun a b =>
      if filters.sortDirection = some .asc then b.received ≤ a.received
      else a.received ≤ b.received := by
  have hle (a b : ContributorRow) := @isLE_compareRows_amount rules filters hsort a b
  refine (pairwise_sortContributors (fun a b => ?_)
    fun a b c hab hbc => ?_).imp fun {a b} h => (hle a b).mp h
  · rw [hle, hle]
    split_ifs <;> exact Nat.le_total _ _
  · rw [hle] at hab hbc ⊢
    split_ifs at hab hbc ⊢
    · exact Nat.le_trans hbc hab
    · exact Nat.le_trans hab hbc

end order

section largest
variable {rows : List ContributorRow}

/-- The rows in the order that is asked for, largest first unless it says otherwise, and with it the
largest among the first rows however many are kept. -/
structure Ranked (direction : Option SortDirection) (rows : List ContributorRow) : Prop where
  order : rows.Pairwise fun a b =>
    if direction = some .asc then a.received ≤ b.received else b.received ≤ a.received
  largest : direction ≠ some .asc →
    ∀ n, ∀ a ∈ rows.take n, ∀ b ∈ rows.drop n, b.received ≤ a.received

theorem ranked_iff {direction : Option SortDirection} : Ranked direction rows ↔
    rows.Pairwise fun a b =>
      if direction = some .asc then a.received ≤ b.received else b.received ≤ a.received := by
  refine ⟨Ranked.order, fun h => ⟨h, fun hdesc n a ha b hb => ?_⟩⟩
  rw [← List.take_append_drop n rows] at h
  have hab := (List.pairwise_append.mp h).2.2 a ha b hb
  rwa [if_neg hdesc] at hab

theorem pairwise_received_iff : (rows.Pairwise fun a b => a.received = b.received) ↔
    ∀ a ∈ rows, ∀ b ∈ rows, a.received = b.received := by
  refine ⟨fun h a ha b hb => ?_, fun h => ?_⟩
  · have : Std.Symm fun a b : ContributorRow => a.received = b.received := ⟨fun _ _ => Eq.symm⟩
    exact List.Pairwise.forall_of_forall (R := fun a b : ContributorRow => a.received = b.received)
      (fun _ _ => rfl) h ha hb
  · exact List.pairwise_of_forall_mem_list fun a ha b hb => h a ha b hb

end largest

/-- By amount the rows come in the order asked for exactly where everybody who passes has paid the
same: they are sorted the other way. -/
theorem amount_order_iff (db : LedgerDb) (e : ℕ) (rules : ReportRules) (filters : ReportFilters)
    (groupId : Option ℕ) (hsort : filters.sortField ≠ some .name) :
    ∃ rows, run (queryContributors e rules filters groupId) db = (.ok rows, db) ∧
      (Ranked filters.sortDirection rows ↔
        ∀ q ∈ passing db e rules filters groupId, ∀ q' ∈ passing db e rules filters groupId,
          receivedFrom db e q.id = receivedFrom db e q'.id) := by
  refine ⟨_, run_queryContributors db e rules filters groupId, ?_⟩
  have hcome : (contributorList db e rules filters groupId).Pairwise fun a b =>
      if filters.sortDirection = some .asc then b.received ≤ a.received else a.received ≤ b.received :=
    pairwise_amount hsort
  have hsame : (∀ q ∈ passing db e rules filters groupId, ∀ q' ∈ passing db e rules filters groupId,
      receivedFrom db e q.id = receivedFrom db e q'.id) ↔
      ∀ a ∈ contributorList db e rules filters groupId,
        ∀ b ∈ contributorList db e rules filters groupId, a.received = b.received := by
    simp only [mem_contributorList, forall_exists_index, and_imp, forall_apply_eq_imp_iff₂,
      contributorRow_received]
  rw [ranked_iff, hsame, ← pairwise_received_iff]
  constructor
  · intro hasked
    refine (hasked.and hcome).imp fun {a b} h => ?_
    obtain ⟨h, h'⟩ := h
    split_ifs at h h' <;> omega
  · intro hequal
    refine hequal.imp fun {a b} h => ?_
    split_ifs <;> omega

/-- Ann has paid 100 and Ben 200. -/
def annAndBen : LedgerDb :=
  let promise (id personId value : ℕ) : Pledge :=
    { id, eventId := 7, personId, type := .cash, committedValue := value, status := .fulfilled
      targetBudgetItemId := none, description := none, quantity := none, unit := none
      estimatedValue := none, isDirect := false, source := .humanTyped, createdById := some 1
      createdAt := id }
  let payment (id pledgeId value : ℕ) : Fulfillment :=
    { id, eventId := 7, pledgeId, kind := .payment, value, currency := "UGX", method := .cash
      verificationStatus := .unverified, note := none, occurredAt := id, idempotencyKey := none
      source := .humanTyped, createdById := some 1, createdAt := id }
  { LedgerDb.empty with
    persons := (Table.empty.insertNew ⟨10, 7, "Ann", none, none, .humanTyped, some 1, 0⟩).insertNew
      ⟨11, 7, "Ben", none, none, .humanTyped, some 1, 1⟩
    pledges := (Table.empty.insertNew (promise 20 10 100)).insertNew (promise 21 11 200)
    fulfillments := (Table.empty.insertNew (payment 30 20 100)).insertNew (payment 31 21 200) }

def allOf (reportType : ReportType) : ReportFilters := { reportType }

/-- By default, the first of the two is the one who paid less. -/
theorem smaller_comes_first : ¬ ∀ (db : LedgerDb) (e : ℕ) (rules : ReportRules)
    (filters : ReportFilters) (groupId : Option ℕ) (rows : List ContributorRow),
    filters.sortField ≠ some .name →
      run (queryContributors e rules filters groupId) db = (.ok rows, db) →
        Ranked filters.sortDirection rows := by
  intro h
  have hranked := h annAndBen 7 plainRules (allOf .contributors) none _ (by decide)
    (run_queryContributors _ _ _ _ _)
  have hrows : contributorList annAndBen 7 plainRules (allOf .contributors) none =
      [⟨10, "Ann", none, 100, 100, []⟩, ⟨11, "Ben", none, 200, 200, []⟩] := by decide +kernel
  rw [hrows] at hranked
  have hfirst := hranked.largest (by decide) 1 _ List.mem_cons_self _ List.mem_cons_self
  exact absurd hfirst (by decide)

theorem amount_order_iff_annAndBen : ∃ rows,
    run (queryContributors 7 plainRules (allOf .contributors) none) annAndBen =
      (.ok rows, annAndBen) ∧ ¬ Ranked none rows := by
  obtain ⟨rows, hrun, hranked⟩ := amount_order_iff annAndBen 7 plainRules
    (allOf .contributors) none (by decide)
  refine ⟨rows, hrun, fun h => ?_⟩
  have hsame := hranked.mp h ⟨10, 7, "Ann", none, none, .humanTyped, some 1, 0⟩ (by decide +kernel)
    ⟨11, 7, "Ben", none, none, .humanTyped, some 1, 1⟩ (by decide +kernel)
  exact absurd hsame (by decide +kernel)

end Akabbo.ContributorLists
