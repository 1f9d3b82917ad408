import Akabbo.BudgetKnowledge

/-!
# The ranges of a recommendation

Which rows a category and the total are computed from, and when the lower end of a range is not
above its upper end.
-/
namespace Akabbo.RecommendedRanges
open BudgetKnowledge

/-- The rows of a recommendation that have a price. -/
def pricedRows (rules : KnowledgeRules) (world : World) (k : Knowledge)
    (input : RecommendationInput) (now : ℤ) : List ObservationRow :=
  (queryObservations (prepared rules world k input now) (input.topic rules) (input.place rules)
    input.tier now).filter isPriced

/-- The rows that the range of a category is computed from. -/
def usedRows (rows : List ObservationRow) (category : String) : List ObservationRow :=
  rowsForRange (rows.filter fun r => r.category == category)

lemma recommend_eq (rules : KnowledgeRules) (input : RecommendationInput)
    (rows : List ObservationRow) :
    (recommend rules input rows).categories = aggregateByCategory (rows.filter isPriced) ∧
      (recommend rules input rows).totalRange =
        totalRange (aggregateByCategory (rows.filter isPriced)) := by
  unfold recommend
  simp only
  split
  · rename_i h
    have hnone : aggregateByCategory (rows.filter isPriced) = [] := by
      simp [h, aggregateByCategory, mapKeys]
    rw [hnone]
    exact ⟨rfl, rfl⟩
  · exact ⟨rfl, rfl⟩

lemma categories_eq (rules : KnowledgeRules) (world : World) (k : Knowledge)
    (input : RecommendationInput) (now : ℤ) :
    (getRecommendation rules world k input now).1.categories =
      aggregateByCategory (pricedRows rules world k input now) :=
  (recommend_eq rules input _).1

lemma totalRange_eq (rules : KnowledgeRules) (world : World) (k : Knowledge)
    (input : RecommendationInput) (now : ℤ) :
    (getRecommendation rules world k input now).1.totalRange =
      totalRange (aggregateByCategory (pricedRows rules world k input now)) :=
  (recommend_eq rules input _).2

lemma mem_mapKeys {keys : List String} {key : String} : key ∈ mapKeys keys ↔ key ∈ keys := by
  simp [mapKeys]

lemma mem_aggregateByCategory {rows : List ObservationRow} {c : RecommendationCategory} :
    c ∈ aggregateByCategory rows ↔
      ∃ r ∈ rows, summarise r.category (rows.filter fun s => s.category == r.category) = c := by
  rw [aggregateByCategory, List.mem_mergeSort]
  simp [mem_mapKeys]

lemma mem_rowsForRange {rows : List ObservationRow} {r : ObservationRow} :
    r ∈ rowsForRange rows ↔
      r ∈ rows ∧ (r.reliability = .high ∨ ∀ s ∈ rows, s.reliability ≠ .high) := by
  unfold rowsForRange
  by_cases h : (rows.filter fun r => r.reliability == .high) = []
  · have hnone : ∀ s ∈ rows, s.reliability ≠ .high := by
      simpa using h
    rw [if_pos h]
    exact ⟨fun hr => ⟨hr, Or.inr hnone⟩, fun hr => hr.1⟩
  · rw [if_neg h, List.mem_filter, beq_iff_eq]
    constructor
    · intro hr
      exact ⟨hr.1, Or.inl hr.2⟩
    · intro ⟨hr, hreason⟩
      rcases hreason with hhigh | hnone
      · exact ⟨hr, hhigh⟩
      · exact absurd (by simpa using hnone) h

lemma mem_usedRows {rows : List ObservationRow} {category : String} {r : ObservationRow} :
    r ∈ usedRows rows category ↔ (r ∈ rows ∧ r.category = category) ∧
      (r.reliability = .high ∨
        ∀ s ∈ rows, s.category = category → s.reliability ≠ .high) := by
  simp [usedRows, mem_rowsForRange]

lemma usedRows_ne_nil {rows : List ObservationRow} {r : ObservationRow} (hr : r ∈ rows) :
    usedRows rows r.category ≠ [] := by
  by_cases h : ∃ s ∈ rows, s.category = r.category ∧ s.reliability = .high
  · obtain ⟨s, hs, hcategory, hhigh⟩ := h
    exact List.ne_nil_of_mem (mem_usedRows.2 ⟨⟨hs, hcategory⟩, Or.inl hhigh⟩)
  · refine List.ne_nil_of_mem (mem_usedRows.2 ⟨⟨hr, rfl⟩, Or.inr ?_⟩)
    intro s hs hcategory hhigh
    exact h ⟨s, hs, hcategory, hhigh⟩

section bounds
variable {rows : List ObservationRow} {category : String}

/-- The lower and the upper bounds that the rows give. -/
def lowerBounds (rows : List ObservationRow) : List ℤ := rows.filterMap ObservationRow.amountMin

def upperBounds (rows : List ObservationRow) : List ℤ := rows.filterMap ObservationRow.amountMax

lemma mem_lowerBounds {a : ℤ} : a ∈ lowerBounds rows ↔ ∃ r ∈ rows, r.amountMin = some a :=
  List.mem_filterMap

lemma mem_upperBounds {a : ℤ} : a ∈ upperBounds rows ↔ ∃ r ∈ rows, r.amountMax = some a :=
  List.mem_filterMap

lemma summarise_amountMin :
    (summarise category (rows.filter fun r => r.category == category)).amountMin =
      (lowerBounds (usedRows rows category)).min? := rfl

lemma summarise_amountMax :
    (summarise category (rows.filter fun r => r.category == category)).amountMax =
      (upperBounds (usedRows rows category)).max? := rfl

end bounds

/-- The ends that there are are in order. -/
def Ordered (amountMin amountMax : Option ℤ) : Prop :=
  ∀ a ∈ amountMin, ∀ b ∈ amountMax, a ≤ b

/-- Some rows give a lower end only and the others an upper end only, and every lower end is above
every upper one. -/
def Crossed (rows : List ObservationRow) : Prop :=
  lowerBounds rows ≠ [] ∧ upperBounds rows ≠ [] ∧
    (∀ r ∈ rows, r.amountMin = none ∨ r.amountMax = none) ∧
    ∀ a ∈ lowerBounds rows, ∀ b ∈ upperBounds rows, b < a

lemma ordered_min_max_iff {lows highs : List ℤ} :
    Ordered lows.min? highs.max? ↔
      (lows = [] ∨ highs = [] ∨ ∃ a ∈ lows, ∃ b ∈ highs, a ≤ b) := by
  constructor
  · intro h
    cases hlow : lows.min? with
    | none => exact Or.inl (List.min?_eq_none_iff.1 hlow)
    | some a =>
      cases hhigh : highs.max? with
      | none => exact Or.inr (Or.inl (List.max?_eq_none_iff.1 hhigh))
      | some b =>
        have hab : a ≤ b := h a hlow b hhigh
        exact Or.inr (Or.inr ⟨a, List.min?_mem hlow, b, List.max?_mem hhigh, hab⟩)
  · intro h low hlow high hhigh
    rcases h with h | h | ⟨a, ha, b, hb, hab⟩
    · simp [h] at hlow
    · simp [h] at hhigh
    · have hla : low ≤ a := (List.min?_eq_some_iff.1 hlow).2 a ha
      have hbh : b ≤ high := (List.max?_eq_some_iff.1 hhigh).2 b hb
      omega

/-- One row with both of its ends in order is enough. -/
lemma ordered_iff_not_crossed {rows : List ObservationRow}
    (hrows : ∀ r ∈ rows, Ordered r.amountMin r.amountMax) :
    Ordered (lowerBounds rows).min? (upperBounds rows).max? ↔ ¬ Crossed rows := by
  rw [ordered_min_max_iff]
  constructor
  · intro h hcrossed
    obtain ⟨hlow, hhigh, -, habove⟩ := hcrossed
    rcases h with h | h | ⟨a, ha, b, hb, hab⟩
    · exact hlow h
    · exact hhigh h
    · have := habove a ha b hb
      omega
  · intro h
    by_contra hnot
    push Not at hnot
    obtain ⟨hlow, hhigh, habove⟩ := hnot
    refine h ⟨hlow, hhigh, ?_, habove⟩
    intro r hr
    cases hmin : r.amountMin with
    | none => exact Or.inl rfl
    | some a =>
      cases hmax : r.amountMax with
      | none => exact Or.inr rfl
      | some b =>
        have hab : a ≤ b := hrows r hr a hmin b hmax
        have hba := habove a (mem_lowerBounds.2 ⟨r, hr, hmin⟩) b (mem_upperBounds.2 ⟨r, hr, hmax⟩)
        omega

lemma isSummed_bounds {c : RecommendationCategory} (h : isSummed c) :
    ∃ a b, c.amountMin = some a ∧ c.amountMax = some b := by
  simp only [isSummed, Bool.and_eq_true] at h
  obtain ⟨⟨hmin, hmax⟩, -⟩ := h
  obtain ⟨a, ha⟩ := Option.isSome_iff_exists.1 hmin
  obtain ⟨b, hb⟩ := Option.isSome_iff_exists.1 hmax
  exact ⟨a, b, ha, hb⟩

lemma totalRange_ordered {categories : List RecommendationCategory}
    (h : ∀ c ∈ categories, Ordered c.amountMin c.amountMax) (range : ℤ × ℤ)
    (hrange : totalRange categories = some range) : range.1 ≤ range.2 := by
  unfold totalRange at hrange
  simp only at hrange
  split at hrange
  · cases hrange
  · cases hrange
    apply List.sum_le_sum
    intro c hc
    obtain ⟨hmem, hsummed⟩ := List.mem_filter.1 hc
    obtain ⟨a, b, ha, hb⟩ := isSummed_bounds hsummed
    rw [ha, hb]
    exact h c hmem a ha b hb

lemma mem_queryObservations {k : Knowledge} {eventType : String} {region : Option String}
    {tier : Option BudgetTier} {now : ℤ} {r : ObservationRow}
    (hr : r ∈ queryObservations k eventType region tier now) :
    ∃ o ∈ k.observations, withSource k o = some r := by
  have hall : ∀ r, r ∈ (k.observations.filter (selected eventType tier now)).filterMap
      (withSource k) → ∃ o ∈ k.observations, withSource k o = some r := by
    intro r hr
    obtain ⟨o, ho, hrow⟩ := List.mem_filterMap.1 hr
    exact ⟨o, (List.mem_filter.1 ho).1, hrow⟩
  unfold queryObservations at hr
  simp only at hr
  split at hr
  · exact hall r hr
  · split at hr
    · exact hall r (List.mem_filter.1 hr).1
    · rcases List.mem_append.1 hr with hr | hr
      · exact hall r (List.mem_filter.1 hr).1
      · exact hall r (List.mem_filter.1 hr).1

lemma withSource_amounts {k : Knowledge} {o : Observation} {r : ObservationRow}
    (h : withSource k o = some r) : r.amountMin = o.amountMin ∧ r.amountMax = o.amountMax := by
  obtain ⟨s, -, rfl⟩ := Option.map_eq_some_iff.1 h
  exact ⟨rfl, rfl⟩

section recommendation
variable (rules : KnowledgeRules) (world : World) (k : Knowledge) (input : RecommendationInput)
  (now : ℤ)

/-- Every category and the total have their ends in order exactly when no category is made of rows
with one end each that all lie across one another. -/
theorem ends_in_order_iff
    (hstored : ∀ o ∈ (prepared rules world k input now).observations,
      Ordered o.amountMin o.amountMax) :
    ((∀ c ∈ (getRecommendation rules world k input now).1.categories,
        Ordered c.amountMin c.amountMax) ∧
      ∀ range, (getRecommendation rules world k input now).1.totalRange = some range →
        range.1 ≤ range.2) ↔
      ∀ r ∈ pricedRows rules world k input now,
        ¬ Crossed (usedRows (pricedRows rules world k input now) r.category) := by
  have hrows : ∀ category, ∀ r ∈ usedRows (pricedRows rules world k input now) category,
      Ordered r.amountMin r.amountMax := by
    intro category r hr
    obtain ⟨⟨hr, -⟩, -⟩ := mem_usedRows.1 hr
    obtain ⟨o, ho, hrow⟩ := mem_queryObservations (List.mem_filter.1 hr).1
    obtain ⟨hmin, hmax⟩ := withSource_amounts hrow
    rw [hmin, hmax]
    exact hstored o ho
  have hcategories : (∀ c ∈ aggregateByCategory (pricedRows rules world k input now),
      Ordered c.amountMin c.amountMax) ↔ ∀ r ∈ pricedRows rules world k input now,
        ¬ Crossed (usedRows (pricedRows rules world k input now) r.category) := by
    constructor
    · intro h r hr
      have hc := h _ (mem_aggregateByCategory.2 ⟨r, hr, rfl⟩)
      rw [summarise_amountMin, summarise_amountMax] at hc
      exact (ordered_iff_not_crossed (hrows r.category)).1 hc
    · intro h c hc
      obtain ⟨r, hr, rfl⟩ := mem_aggregateByCategory.1 hc
      rw [summarise_amountMin, summarise_amountMax]
      exact (ordered_iff_not_crossed (hrows r.category)).2 (h r hr)
  rw [categories_eq, totalRange_eq, hcategories]
  constructor
  · intro h
    exact h.1
  · intro h
    exact ⟨h, totalRange_ordered (hcategories.2 h)⟩

end recommendation

def plainRules : KnowledgeRules :=
  { normalize := id
    hostname := fun _ => none
    lowerCase := id
    parseDate := fun _ => none
    month := fun _ => ""
    storable := fun _ => true }

def noWorld : World :=
  { search := fun _ => .error "offline"
    extract := fun _ _ => .ok none }

def curated : KnowledgeSource :=
  { id := 1
    sourceType := .manualEntry
    name := "curated"
    url := none
    publishedAt := none
    collectedAt := 0
    reliability := .medium
    licensingNote := ""
    extractionMethod := .manual }

def wedding : RecommendationInput :=
  { eventType := "wedding"
    region := none
    tier := none
    existingCategories := [] }

def observed (category : String) (amountMin amountMax : Option ℤ) (unit : Option String) :
    Observation :=
  { sourceId := 1
    eventType := "wedding"
    region := none
    tier := none
    category
    item := none
    amountMin
    amountMax
    unit
    commonlyForgotten := false
    confidence := 1
    observedAt := 0 }

def curatedWith (observations : List Observation) : Knowledge := ⟨[curated], observations⟩

/-- "from 100" in one row and "up to 50" in another. -/
def fromAndUpTo : Knowledge :=
  curatedWith [observed "Decor" (some 100) none none, observed "Decor" none (some 50) none]

def onlyFrom : ObservationRow := toRow .medium (observed "Decor" (some 100) none none)

lemma fromAndUpTo_rows : pricedRows plainRules noWorld fromAndUpTo wedding 0 =
    [onlyFrom, toRow .medium (observed "Decor" none (some 50) none)] := by
  decide +kernel

theorem from_above_up_to :
    (∀ o ∈ (prepared plainRules noWorld fromAndUpTo wedding 0).observations,
      Ordered o.amountMin o.amountMax) ∧
    ¬ ((∀ c ∈ (getRecommendation plainRules noWorld fromAndUpTo wedding 0).1.categories,
        Ordered c.amountMin c.amountMax) ∧
      ∀ range, (getRecommendation plainRules noWorld fromAndUpTo wedding 0).1.totalRange =
        some range → range.1 ≤ range.2) := by
  constructor
  · unfold Ordered
    decide +kernel
  · intro hordered
    have h := hordered.1
    rw [categories_eq, fromAndUpTo_rows] at h
    have hle := h _ (mem_aggregateByCategory.2 ⟨onlyFrom, by simp, rfl⟩) 100 rfl 50 rfl
    omega

/-- Ends that meet, rows with one end, and a category of its own. -/
def guides : Knowledge :=
  curatedWith [observed "Decor" (some 50) (some 100) none, observed "Decor" (some 80) none none,
    observed "Decor" none (some 300) none, observed "Venue" (some 200) none none]

theorem ends_in_order_guides :
    (∀ c ∈ (getRecommendation plainRules noWorld guides wedding 0).1.categories,
        Ordered c.amountMin c.amountMax) ∧
      ∀ range, (getRecommendation plainRules noWorld guides wedding 0).1.totalRange =
        some range → range.1 ≤ range.2 := by
  refine (ends_in_order_iff plainRules noWorld guides wedding 0 ?_).2 fun r hr hcrossed => ?_
  · unfold Ordered
    decide +kernel
  · revert hcrossed
    revert r
    unfold Crossed
    decide +kernel

end Akabbo.RecommendedRanges
