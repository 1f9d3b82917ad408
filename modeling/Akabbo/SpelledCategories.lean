import Akabbo.PricedUnits
import Akabbo.TextPatterns

/-!
# Spellings of a category

Categories as `normalize` compares them, against the spellings that the rows are grouped by.
-/
namespace Akabbo.SpelledCategories
open BudgetKnowledge RecommendedRanges PricedUnits

section spellings
variable (rules : KnowledgeRules) {rows : List ObservationRow}

/-- Two spellings of one category. -/
def Alike (a b : String) : Prop := rules.normalize a = rules.normalize b

/-- The figure of a source for the event as a whole. -/
def IsWholeEvent (category : String) : Prop := startsWith (rules.normalize category) "total ("

/-- Each category is added once. -/
def CountedOnce (categories : List RecommendationCategory) : Prop :=
  ∀ c ∈ categories, ∀ d ∈ categories, isSummed c → isSummed d →
    Alike rules c.category d.category → c = d

/-- Where any spelling has a vetted row, only vetted rows make its ranges. -/
def VettedFirst (rows : List ObservationRow) (categories : List RecommendationCategory) : Prop :=
  ∀ c ∈ categories, ∀ r ∈ rows, r.reliability = .high → Alike rules r.category c.category →
    ∀ s ∈ usedRows rows c.category, s.reliability = .high

def LineItemsOnly (categories : List RecommendationCategory) : Prop :=
  ∀ c ∈ categories, isSummed c → ¬ IsWholeEvent rules c.category

lemma countedOnce_iff :
    CountedOnce rules (aggregateByCategory rows) ↔
      ∀ r ∈ rows, ∀ s ∈ rows, Alike rules r.category s.category → Summed rows r.category →
        Summed rows s.category → r.category = s.category := by
  constructor
  · intro h r hr s hs halike hrsum hssum
    have heq := h _ (mem_aggregateByCategory.2 ⟨r, hr, rfl⟩) _
      (mem_aggregateByCategory.2 ⟨s, hs, rfl⟩) (isSummed_summarise.2 hrsum)
      (isSummed_summarise.2 hssum) halike
    exact congrArg RecommendationCategory.category heq
  · intro h c hc d hd hcsum hdsum halike
    obtain ⟨r, hr, rfl⟩ := mem_aggregateByCategory.1 hc
    obtain ⟨s, hs, rfl⟩ := mem_aggregateByCategory.1 hd
    rw [h r hr s hs halike (isSummed_summarise.1 hcsum) (isSummed_summarise.1 hdsum)]

/-- A category with a vetted row uses no other, and one without uses all. -/
lemma usedRows_high_iff {s : ObservationRow} (hs : s ∈ rows) :
    (∀ t ∈ usedRows rows s.category, t.reliability = .high) ↔
      ∃ t ∈ rows, t.category = s.category ∧ t.reliability = .high := by
  constructor
  · intro h
    obtain ⟨t, ht⟩ := List.exists_mem_of_ne_nil _ (usedRows_ne_nil hs)
    obtain ⟨⟨hmem, hcategory⟩, -⟩ := mem_usedRows.1 ht
    exact ⟨t, hmem, hcategory, h t ht⟩
  · intro ⟨t, ht, hcategory, hhigh⟩ u hu
    rcases (mem_usedRows.1 hu).2 with huhigh | hnone
    · exact huhigh
    · exact absurd hhigh (hnone t ht hcategory)

lemma vettedFirst_iff :
    VettedFirst rules rows (aggregateByCategory rows) ↔
      ∀ r ∈ rows, ∀ s ∈ rows, r.reliability = .high → Alike rules r.category s.category →
        ∃ t ∈ rows, t.category = s.category ∧ t.reliability = .high := by
  constructor
  · intro h r hr s hs hhigh halike
    exact (usedRows_high_iff hs).1
      (h _ (mem_aggregateByCategory.2 ⟨s, hs, rfl⟩) r hr hhigh halike)
  · intro h c hc r hr hhigh halike
    obtain ⟨s, hs, rfl⟩ := mem_aggregateByCategory.1 hc
    exact (usedRows_high_iff hs).2 (h r hr s hs hhigh halike)

lemma lineItemsOnly_iff :
    LineItemsOnly rules (aggregateByCategory rows) ↔
      ∀ r ∈ rows, IsWholeEvent rules r.category → ¬ Summed rows r.category := by
  constructor
  · intro h r hr hwhole hsummed
    exact h _ (mem_aggregateByCategory.2 ⟨r, hr, rfl⟩) (isSummed_summarise.2 hsummed) hwhole
  · intro h c hc hsummed hwhole
    obtain ⟨r, hr, rfl⟩ := mem_aggregateByCategory.1 hc
    exact h r hr hwhole (isSummed_summarise.1 hsummed)

end spellings

/-- The total goes by categories, not by spellings, exactly when the rows spell each category that
is added in one way, give a vetted row to each spelling of a category that has one, and spell the
figures for the whole event as the seeds do. -/
theorem spellings_count_as_one_iff (rules : KnowledgeRules) (world : World) (k : Knowledge)
    (input : RecommendationInput) (now : ℤ) :
    (CountedOnce rules (getRecommendation rules world k input now).1.categories ∧
      VettedFirst rules (pricedRows rules world k input now)
        (getRecommendation rules world k input now).1.categories ∧
      LineItemsOnly rules (getRecommendation rules world k input now).1.categories) ↔
    (∀ r ∈ pricedRows rules world k input now, ∀ s ∈ pricedRows rules world k input now,
        Alike rules r.category s.category → Summed (pricedRows rules world k input now) r.category →
        Summed (pricedRows rules world k input now) s.category → r.category = s.category) ∧
      (∀ r ∈ pricedRows rules world k input now, ∀ s ∈ pricedRows rules world k input now,
        r.reliability = .high → Alike rules r.category s.category →
        ∃ t ∈ pricedRows rules world k input now, t.category = s.category ∧
          t.reliability = .high) ∧
      ∀ r ∈ pricedRows rules world k input now, IsWholeEvent rules r.category →
        ¬ Summed (pricedRows rules world k input now) r.category := by
  rw [categories_eq, countedOnce_iff, vettedFirst_iff, lineItemsOnly_iff]

def asciiRules : KnowledgeRules :=
  { plainRules with
    normalize := fun text => String.ofList ((TextPatterns.trim text.toList).map Char.toLower) }

def twoSpellings : Knowledge :=
  curatedWith [observed "Decor" (some 100) (some 200) none,
    observed "decor" (some 100) (some 200) none]

def capitalised : ObservationRow := toRow .medium (observed "Decor" (some 100) (some 200) none)

def uncapitalised : ObservationRow := toRow .medium (observed "decor" (some 100) (some 200) none)

lemma twoSpellings_rows :
    pricedRows asciiRules noWorld twoSpellings wedding 0 = [capitalised, uncapitalised] := by
  decide +kernel

theorem decor_counted_twice :
    ¬ (CountedOnce asciiRules
        (getRecommendation asciiRules noWorld twoSpellings wedding 0).1.categories ∧
      VettedFirst asciiRules (pricedRows asciiRules noWorld twoSpellings wedding 0)
        (getRecommendation asciiRules noWorld twoSpellings wedding 0).1.categories ∧
      LineItemsOnly asciiRules
        (getRecommendation asciiRules noWorld twoSpellings wedding 0).1.categories) := by
  intro hcounted
  have h := hcounted.1
  rw [categories_eq, twoSpellings_rows] at h
  have heq := h _ (mem_aggregateByCategory.2 ⟨capitalised, by simp, rfl⟩) _
    (mem_aggregateByCategory.2 ⟨uncapitalised, by simp, rfl⟩) (by decide) (by decide)
    (by unfold Alike; decide)
  exact absurd (congrArg RecommendationCategory.category heq) (by decide)

end Akabbo.SpelledCategories
