import Akabbo.RecommendedRanges

/-!
# The units of a recommendation

A price for each plate or each day is no price of a whole event. Which rows make one range, and
which ranges one total.
-/
namespace Akabbo.PricedUnits
open BudgetKnowledge RecommendedRanges

/-- The row is one of those that the range of its category is computed from. -/
def Used (rows : List ObservationRow) (r : ObservationRow) : Prop := r ∈ usedRows rows r.category

/-- The rows used give the category a range with two ends, and it is not a total by itself. -/
def Summed (rows : List ObservationRow) (category : String) : Prop :=
  lowerBounds (usedRows rows category) ≠ [] ∧ upperBounds (usedRows rows category) ≠ [] ∧
    ¬ startsWith category "Total ("

lemma isSome_min?_iff {lows : List ℤ} : lows.min?.isSome ↔ lows ≠ [] := by
  rw [Option.isSome_iff_ne_none, ne_eq, List.min?_eq_none_iff]

lemma isSome_max?_iff {highs : List ℤ} : highs.max?.isSome ↔ highs ≠ [] := by
  rw [Option.isSome_iff_ne_none, ne_eq, List.max?_eq_none_iff]

lemma isSummed_summarise {rows : List ObservationRow} {category : String} :
    isSummed (summarise category (rows.filter fun r => r.category == category)) ↔
      Summed rows category := by
  unfold isSummed Summed
  rw [Bool.and_eq_true, Bool.and_eq_true, summarise_amountMin, summarise_amountMax,
    isSome_min?_iff, isSome_max?_iff, and_assoc, Bool.not_eq_true', Bool.not_eq_true]
  rfl

lemma category_of_used {rows : List ObservationRow} {category : String} {r : ObservationRow}
    (hr : r ∈ usedRows rows category) : r.category = category :=
  (mem_usedRows.1 hr).1.2

lemma used_of_mem {rows : List ObservationRow} {category : String} {r : ObservationRow}
    (hr : r ∈ usedRows rows category) : r ∈ rows ∧ Used rows r := by
  have hcategory := category_of_used hr
  subst hcategory
  exact ⟨(mem_usedRows.1 hr).1.1, hr⟩

lemma findSome?_of_forall {rows : List ObservationRow} {unit : Option String} (hne : rows ≠ [])
    (h : ∀ r ∈ rows, given r.unit = unit) : (rows.findSome? fun r => given r.unit) = unit := by
  induction rows with
  | nil => exact absurd rfl hne
  | cons r rows ih =>
    have hr : given r.unit = unit := h r (by simp)
    rw [List.findSome?_cons, hr]
    cases unit with
    | some unit => rfl
    | none =>
      by_cases hrows : rows = []
      · rw [hrows]
        rfl
      · exact ih hrows fun s hs => h s (by simp [hs])

lemma summarise_unit {rows : List ObservationRow} {category : String} :
    (summarise category (rows.filter fun r => r.category == category)).unit =
      (usedRows rows category).findSome? fun r => given r.unit := rfl

/-- Rows with one unit report that unit. -/
lemma unit_of_used {rows : List ObservationRow} {r : ObservationRow}
    (hused : Used rows r)
    (h : ∀ s ∈ usedRows rows r.category, given s.unit = given r.unit) :
    (summarise r.category (rows.filter fun s => s.category == r.category)).unit = given r.unit := by
  rw [summarise_unit]
  exact findSome?_of_forall (List.ne_nil_of_mem hused) h

section units
variable {rows : List ObservationRow}

/-- Each range is made of rows with the unit that is reported. -/
def RangesKeepUnits (rows : List ObservationRow) (categories : List RecommendationCategory) : Prop :=
  ∀ c ∈ categories, ∀ r ∈ usedRows rows c.category, given r.unit = c.unit

/-- The ranges that are added have one unit. -/
def TotalKeepsUnits (categories : List RecommendationCategory) : Prop :=
  ∀ c ∈ categories, ∀ d ∈ categories, isSummed c → isSummed d → c.unit = d.unit

/-- Whether two rows make part of one figure. -/
def Together (rows : List ObservationRow) (r s : ObservationRow) : Prop :=
  r.category = s.category ∨ (Summed rows r.category ∧ Summed rows s.category)

lemma exists_used {category : String} {r : ObservationRow} (hr : r ∈ rows)
    (hcategory : r.category = category) : ∃ s ∈ usedRows rows category, s.category = category := by
  subst hcategory
  obtain ⟨s, hs⟩ := List.exists_mem_of_ne_nil _ (usedRows_ne_nil hr)
  exact ⟨s, hs, category_of_used hs⟩

lemma units_of_together (h : ∀ r ∈ rows, ∀ s ∈ rows, Used rows r → Used rows s →
    Together rows r s → given r.unit = given s.unit) (r : ObservationRow) :
    ∀ s ∈ usedRows rows r.category, given s.unit =
      (summarise r.category (rows.filter fun s => s.category == r.category)).unit := by
  intro s hs
  have hcategory := category_of_used hs
  obtain ⟨hmem, hused⟩ := used_of_mem hs
  rw [← hcategory]
  refine (unit_of_used hused fun t ht => ?_).symm
  obtain ⟨htmem, htused⟩ := used_of_mem ht
  exact h t htmem s hmem htused hused (Or.inl (category_of_used ht))

lemma units_iff :
    (RangesKeepUnits rows (aggregateByCategory rows) ∧
        TotalKeepsUnits (aggregateByCategory rows)) ↔
      ∀ r ∈ rows, ∀ s ∈ rows, Used rows r → Used rows s → Together rows r s →
        given r.unit = given s.unit := by
  constructor
  · intro ⟨hranges, htotal⟩ r hr s hs hrused hsused htogether
    have hrcategory := mem_aggregateByCategory.2 ⟨r, hr, rfl⟩
    have hscategory := mem_aggregateByCategory.2 ⟨s, hs, rfl⟩
    rw [hranges _ hrcategory r hrused, hranges _ hscategory s hsused]
    rcases htogether with hsame | ⟨hr, hs⟩
    · rw [hsame]
    · exact htotal _ hrcategory _ hscategory (isSummed_summarise.2 hr) (isSummed_summarise.2 hs)
  · intro h
    constructor
    · intro c hc
      obtain ⟨r, hr, rfl⟩ := mem_aggregateByCategory.1 hc
      exact units_of_together h r
    · intro c hc d hd hcsum hdsum
      obtain ⟨r, hr, rfl⟩ := mem_aggregateByCategory.1 hc
      obtain ⟨s, hs, rfl⟩ := mem_aggregateByCategory.1 hd
      obtain ⟨r', hr', hrcategory⟩ := exists_used hr rfl
      obtain ⟨s', hs', hscategory⟩ := exists_used hs rfl
      rw [← units_of_together h r r' hr', ← units_of_together h s s' hs']
      obtain ⟨hrmem, hrused⟩ := used_of_mem hr'
      obtain ⟨hsmem, hsused⟩ := used_of_mem hs'
      refine h r' hrmem s' hsmem hrused hsused (Or.inr ?_)
      rw [hrcategory, hscategory]
      exact ⟨isSummed_summarise.1 hcsum, isSummed_summarise.1 hdsum⟩

end units

/-- A range and a total keep to one unit exactly when the rows that are used for one category, and
those that are used for all the categories that are added, are given in one unit. -/
theorem ranges_keep_units_iff (rules : KnowledgeRules) (world : World) (k : Knowledge)
    (input : RecommendationInput) (now : ℤ) :
    (RangesKeepUnits (pricedRows rules world k input now)
        (getRecommendation rules world k input now).1.categories ∧
      TotalKeepsUnits (getRecommendation rules world k input now).1.categories) ↔
      ∀ r ∈ pricedRows rules world k input now, ∀ s ∈ pricedRows rules world k input now,
        Used (pricedRows rules world k input now) r →
        Used (pricedRows rules world k input now) s →
        Together (pricedRows rules world k input now) r s → given r.unit = given s.unit := by
  rw [categories_eq]
  exact units_iff

def plateAndEvent : Knowledge :=
  curatedWith [observed "Catering" (some 20) (some 30) (some "per plate"),
    observed "Catering" (some 5000) (some 6000) none]

def wholeEvent : ObservationRow := toRow .medium (observed "Catering" (some 5000) (some 6000) none)

lemma plateAndEvent_rows : pricedRows plainRules noWorld plateAndEvent wedding 0 =
    [toRow .medium (observed "Catering" (some 20) (some 30) (some "per plate")), wholeEvent] := by
  decide +kernel

theorem plate_merged_with_event :
    ¬ (RangesKeepUnits (pricedRows plainRules noWorld plateAndEvent wedding 0)
        (getRecommendation plainRules noWorld plateAndEvent wedding 0).1.categories ∧
      TotalKeepsUnits (getRecommendation plainRules noWorld plateAndEvent wedding 0).1.categories) := by
  intro hkept
  have h := hkept.1
  rw [categories_eq, plateAndEvent_rows] at h
  have hunit := h _ (mem_aggregateByCategory.2 ⟨wholeEvent, by simp, rfl⟩) wholeEvent (by decide)
  exact absurd hunit (by decide)

end Akabbo.PricedUnits
