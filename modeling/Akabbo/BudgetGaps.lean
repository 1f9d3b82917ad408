import Akabbo.LedgerTotals
import Akabbo.Reports

/-!
# What the budget still lacks

The event report, the public budget and the breakdown each clamp the difference of two totals. The
gaps of the lines are clamped line by line.
-/
namespace Akabbo.BudgetGaps
open Access PledgeStatus RowTable StatementProgram LedgerState LedgerReads Reports
open StatementProgram.Program

section gaps
variable (db : LedgerDb) (e : ℕ)

/-- The lines of the event, or those of them that a page shows. -/
def isLine (shown : BudgetItem → Bool) (b : BudgetItem) : Bool := b.eventId == e && shown b

def lineGap (b : BudgetItem) : ℕ := b.targetValue - coveredOf db e b.id

def gapTotal (shown : BudgetItem → Bool) : ℕ :=
  sumWhere db.budgetItems.rows (isLine e shown) (lineGap db e)

/-- What the event has allocated on lines that are not its own. -/
def strayAllocated : ℕ :=
  sumWhere db.allocations.rows (fun a => a.eventId == e && !db.budgetItems.rows.any fun b =>
    decide (a.budgetItemId = b.id) && isLine e (fun _ => true) b) Allocation.value

/-- A figure for what the lines lack: the sum of their gaps, so that no gap is larger and it is zero
exactly where there is none. -/
structure TellsGaps (shown : BudgetItem → Bool) (figure : String) : Prop where
  sum : figure = moneyToString (gapTotal db e shown)
  bounds : ∃ n, figure = moneyToString n ∧
    ∀ b ∈ db.budgetItems.rows, isLine e shown b = true → lineGap db e b ≤ n
  none : figure = moneyToString 0 ↔
    ∀ b ∈ db.budgetItems.rows, isLine e shown b = true → lineGap db e b = 0

/-- No line lacks anything, or no money goes beyond what the lines need. -/
def OneWay (shown : BudgetItem → Bool) (stray : ℕ) : Prop :=
  (∀ b ∈ db.budgetItems.rows, isLine e shown b = true → b.targetValue ≤ coveredOf db e b.id) ∨
    stray = 0 ∧
      ∀ b ∈ db.budgetItems.rows, isLine e shown b = true → coveredOf db e b.id ≤ b.targetValue

end gaps

section figures
variable {db : LedgerDb} {e : ℕ} {shown : BudgetItem → Bool}

theorem lineGap_le_gapTotal {b : BudgetItem} (hb : b ∈ db.budgetItems.rows)
    (hline : isLine e shown b = true) : lineGap db e b ≤ gapTotal db e shown := by
  unfold gapTotal sumWhere
  exact List.single_le_sum (fun _ _ => Nat.zero_le _) _
    (List.mem_map_of_mem (List.mem_filter.mpr ⟨hb, hline⟩))

theorem tellsGaps_iff {n : ℕ} : TellsGaps db e shown (moneyToString n) ↔ n = gapTotal db e shown := by
  constructor
  · exact fun h => moneyToString_inj.mp h.sum
  · rintro rfl
    refine ⟨rfl, ⟨_, rfl, fun b hb hline => lineGap_le_gapTotal hb hline⟩, ?_⟩
    rw [moneyToString_inj]
    exact sumWhere_eq_zero_iff

/-- All that the event has allocated is on its lines, but for what is astray. -/
theorem allocated_eq : sumWhere db.allocations.rows (fun a => a.eventId == e) Allocation.value =
    sumWhere db.budgetItems.rows (isLine e fun _ => true) (fun b => coveredOf db e b.id) +
      strayAllocated db e := by
  have hjoin := sumWhere_join db.budgetItems (isLine e fun _ => true) db.allocations.rows
    (fun a => a.eventId == e) Allocation.budgetItemId Allocation.value
  have hcovered (b : BudgetItem) : coveredOf db e b.id = sumWhere db.allocations.rows
      (fun a => a.eventId == e && decide (a.budgetItemId = b.id)) Allocation.value := rfl
  simp only [hcovered]
  rw [← hjoin]
  exact sumWhere_split _ _ _ _

/-- The clamped difference of the totals is the sum of the gaps exactly where the lines differ from
their money in one direction. -/
theorem outstanding_eq_gapTotal_iff (stray : ℕ) :
    outstanding (sumWhere db.budgetItems.rows (isLine e shown) BudgetItem.targetValue)
        (sumWhere db.budgetItems.rows (isLine e shown) (fun b => coveredOf db e b.id) + stray) =
      gapTotal db e shown ↔ OneWay db e shown stray := by
  have hsplit := @sumWhere_sub_add _ db.budgetItems.rows (isLine e shown)
    BudgetItem.targetValue fun b => coveredOf db e b.id
  have hover : sumWhere db.budgetItems.rows (isLine e shown)
      (fun b => coveredOf db e b.id - b.targetValue) = 0 ↔
        ∀ b ∈ db.budgetItems.rows, isLine e shown b = true → coveredOf db e b.id ≤ b.targetValue := by
    simp only [sumWhere_eq_zero_iff, Nat.sub_eq_zero_iff_le]
  have hunder : gapTotal db e shown = 0 ↔
      ∀ b ∈ db.budgetItems.rows, isLine e shown b = true → b.targetValue ≤ coveredOf db e b.id := by
    simp only [gapTotal, lineGap, sumWhere_eq_zero_iff, Nat.sub_eq_zero_iff_le]
  unfold OneWay
  rw [← hover, ← hunder, outstanding_eq]
  change sumWhere _ _ (lineGap db e) + _ = _ at hsplit
  unfold gapTotal
  omega

theorem budgetUnfunded_eq {ctx : OperationContext} {topN : ℕ} {report : EventReport}
    (h : (run (getEventReport ctx topN) db).1 = .ok report) : report.budgetUnfunded =
      moneyToString (outstanding
        (sumWhere db.budgetItems.rows (isLine ctx.event.eventId fun _ => true) BudgetItem.targetValue)
        (sumWhere db.budgetItems.rows (isLine ctx.event.eventId fun _ => true)
          (fun b => coveredOf db ctx.event.eventId b.id) + strayAllocated db ctx.event.eventId)) := by
  obtain ⟨c, w, hread⟩ := run_eq_ok.mp h
  unfold getEventReport at hread
  simp only [exec_refuse_bind, exec_query_bind, exec_pure, Except.ok.injEq, Prod.mk.injEq] at hread
  obtain ⟨-, rfl, -, -⟩ := hread
  rw [← allocated_eq]
  have hlines : (isLine ctx.event.eventId fun _ => true) = fun b => b.eventId == ctx.event.eventId := by
    funext b
    exact Bool.and_true _
  rw [hlines]

/-- However the lines are put in order, a budget adds them up. -/
theorem publicBudget_remaining (order : BudgetItem → BudgetItem → Prop) [DecidableRel order] :
    (publicBudget (((db.budgetItems.rows.filter (isLine e shown)).insertionSort order).map
      fun b => (b.name, b.targetValue, coveredOf db e b.id))).remaining =
      moneyToString (outstanding
        (sumWhere db.budgetItems.rows (isLine e shown) BudgetItem.targetValue)
        (sumWhere db.budgetItems.rows (isLine e shown) fun b => coveredOf db e b.id)) := by
  have hperm := List.perm_insertionSort order (db.budgetItems.rows.filter (isLine e shown))
  change moneyToString (outstanding (List.map _ _).sum (List.map _ _).sum) = _
  rw [List.map_map, List.map_map, (hperm.map _).sum_eq, (hperm.map _).sum_eq]
  rfl

def shownOn (vis : BudgetVisibility) (b : BudgetItem) : Bool := vis != .partiallyPublic || b.isPublic

theorem buildBudget_remaining {vis : BudgetVisibility} {budget : PublicBudget}
    (h : (run (buildBudget e vis) db).1 = .ok (some budget)) : budget.remaining =
      moneyToString (outstanding
        (sumWhere db.budgetItems.rows (isLine e (shownOn vis)) BudgetItem.targetValue)
        (sumWhere db.budgetItems.rows (isLine e (shownOn vis)) fun b => coveredOf db e b.id)) := by
  unfold buildBudget at h
  split_ifs at h
  · cases h
  · cases h
    exact publicBudget_remaining _

theorem budgetBreakdown_unfunded {ctx : OperationContext} {breakdown : BudgetBreakdown}
    (h : (run (budgetBreakdown ctx) db).1 = .ok breakdown) : breakdown.unfunded =
      moneyToString (outstanding
        (sumWhere db.budgetItems.rows (isLine ctx.event.eventId fun _ => true) BudgetItem.targetValue)
        (sumWhere db.budgetItems.rows (isLine ctx.event.eventId fun _ => true)
          fun b => coveredOf db ctx.event.eventId b.id)) := by
  obtain ⟨c, w, hread⟩ := run_eq_ok.mp h
  unfold budgetBreakdown at hread
  simp only [exec_refuse_bind, exec_query_bind, exec_pure, Except.ok.injEq, Prod.mk.injEq] at hread
  obtain ⟨-, rfl, -, -⟩ := hread
  rw [← publicBudget_remaining fun a b => b.targetValue ≤ a.targetValue]
  have hlines : (isLine ctx.event.eventId fun _ => true) = fun b => b.eventId == ctx.event.eventId := by
    funext b
    exact Bool.and_true _
  rw [hlines]

end figures

/-- Each of the three tells the gaps of the lines it shows exactly where none of them lacks anything
or none has more than it needs. What is allocated astray counts in the event report alone. -/
theorem unfunded_tells_gaps_iff (db : LedgerDb) :
    (∀ (ctx : OperationContext) (topN : ℕ) (report : EventReport),
      (run (getEventReport ctx topN) db).1 = .ok report →
        (TellsGaps db ctx.event.eventId (fun _ => true) report.budgetUnfunded ↔
          OneWay db ctx.event.eventId (fun _ => true) (strayAllocated db ctx.event.eventId))) ∧
    (∀ (e : ℕ) (vis : BudgetVisibility) (budget : PublicBudget),
      (run (buildBudget e vis) db).1 = .ok (some budget) →
        (TellsGaps db e (shownOn vis) budget.remaining ↔ OneWay db e (shownOn vis) 0)) ∧
    ∀ (ctx : OperationContext) (breakdown : BudgetBreakdown),
      (run (budgetBreakdown ctx) db).1 = .ok breakdown →
        (TellsGaps db ctx.event.eventId (fun _ => true) breakdown.unfunded ↔
          OneWay db ctx.event.eventId (fun _ => true) 0) := by
  refine ⟨fun ctx topN report h => ?_, fun e vis budget h => ?_, fun ctx breakdown h => ?_⟩
  · rw [budgetUnfunded_eq h, tellsGaps_iff]
    exact outstanding_eq_gapTotal_iff _
  · rw [buildBudget_remaining h, tellsGaps_iff]
    exact outstanding_eq_gapTotal_iff 0
  · rw [budgetBreakdown_unfunded h, tellsGaps_iff]
    exact outstanding_eq_gapTotal_iff 0

def line (id : ℕ) (name : String) : BudgetItem :=
  ⟨id, 7, 5, name, 100, true, .humanTyped, none, none, 1, id⟩

/-- Catering and tents cost 100 each, and 200 are allocated to catering. -/
def lopsided : LedgerDb :=
  { LedgerDb.empty with
    budgetItems := (Table.empty.insertNew (line 1 "Catering")).insertNew (line 2 "Tents")
    allocations := Table.empty.insertNew ⟨3, 7, 4, 1, 200⟩ }

def reader : OperationContext := ⟨⟨1, true⟩, ⟨7, .owner, .active⟩⟩

theorem gap_hidden_behind_surplus :
    (∀ report, (run (getEventReport reader) lopsided).1 = .ok report →
      ¬ TellsGaps lopsided 7 (fun _ => true) report.budgetUnfunded) ∧
    (∀ budget, (run (buildBudget 7 .shown) lopsided).1 = .ok (some budget) →
      ¬ TellsGaps lopsided 7 (shownOn .shown) budget.remaining) ∧
    ∀ breakdown, (run (budgetBreakdown reader) lopsided).1 = .ok breakdown →
      ¬ TellsGaps lopsided 7 (fun _ => true) breakdown.unfunded := by
  refine ⟨fun report h hgaps => ?_, fun budget h hgaps => ?_, fun breakdown h hgaps => ?_⟩
  · rw [budgetUnfunded_eq h, tellsGaps_iff] at hgaps
    revert hgaps
    decide
  · rw [buildBudget_remaining h, tellsGaps_iff] at hgaps
    revert hgaps
    decide
  · rw [budgetBreakdown_unfunded h, tellsGaps_iff] at hgaps
    revert hgaps
    decide

/-- 60 are allocated to catering, and nothing to the tents. -/
def partlyFunded : LedgerDb :=
  { lopsided with allocations := Table.empty.insertNew ⟨3, 7, 4, 1, 60⟩ }

theorem unfunded_tells_gaps_iff_partlyFunded :
    (∃ breakdown, (run (budgetBreakdown reader) partlyFunded).1 = .ok breakdown ∧
      breakdown.unfunded = "140" ∧
      TellsGaps partlyFunded 7 (fun _ => true) breakdown.unfunded) ∧
    ∃ budget, (run (buildBudget 7 .shown) partlyFunded).1 = .ok (some budget) ∧
      budget.remaining = "140" ∧ TellsGaps partlyFunded 7 (shownOn .shown) budget.remaining := by
  obtain ⟨-, hpage, hbreakdown⟩ := unfunded_tells_gaps_iff partlyFunded
  refine ⟨⟨_, rfl, by decide +kernel, (hbreakdown reader _ rfl).mpr ?_⟩,
    ⟨_, rfl, by decide +kernel, (hpage 7 .shown _ rfl).mpr ?_⟩⟩
  · exact .inr ⟨rfl, by decide⟩
  · exact .inr ⟨rfl, by decide⟩

end Akabbo.BudgetGaps
