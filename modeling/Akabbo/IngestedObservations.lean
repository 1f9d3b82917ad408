import Akabbo.LiveSearches

/-!
# What a search ingests, and what the next query returns

The rows of a live search are written under the event type and the date of their article, and read
back by the topic and a cut-off.
-/
namespace Akabbo.IngestedObservations
open BudgetKnowledge RecommendedRanges LiveSearches

/-- The observations that the search of a call has added. -/
def ingested (rules : KnowledgeRules) (world : World) (k : Knowledge) (input : RecommendationInput)
    (now : ℤ) : List Observation :=
  (prepared rules world k input now).observations.drop k.observations.length

/-- The rows of a query made after the search, perhaps at a later time. -/
def nextRows (rules : KnowledgeRules) (world : World) (k : Knowledge) (input : RecommendationInput)
    (now later : ℤ) : List ObservationRow :=
  queryObservations (prepared rules world k input now) (input.topic rules) (input.place rules)
    input.tier later

section query
variable (rules : KnowledgeRules) {world : World} {k : Knowledge} {input : RecommendationInput}
  {now later : ℤ}

lemma grown_prepared (world : World) (k : Knowledge) (input : RecommendationInput) (now : ℤ) :
    ∃ left rows, Grown (attemptKey (input.topic rules)) now k (prepared rules world k input now)
      left rows := by
  unfold prepared maybeBackfillLive
  split
  · split
    · obtain ⟨left, rows, h, -⟩ := grown_backfill rules world k (input.topic rules) now
      exact ⟨left, rows, h⟩
    · exact ⟨[], [], grown_refl _ now k⟩
  · exact ⟨[], [], grown_refl _ now k⟩

lemma withSource_of_mem {o : Observation} {s : KnowledgeSource} (hs : s ∈ k.sources)
    (hid : s.id = o.sourceId) : ∃ r, withSource k o = some r := by
  unfold withSource
  have hfound : (k.sources.find? fun s => s.id == o.sourceId).isSome := by
    rw [List.find?_isSome]
    exact ⟨s, hs, by simp [hid]⟩
  obtain ⟨t, ht⟩ := Option.isSome_iff_exists.1 hfound
  rw [ht]
  exact ⟨_, rfl⟩

/-- An ingested observation is stored, with its source. -/
lemma sourced_of_ingested {o : Observation} (ho : o ∈ ingested rules world k input now) :
    o ∈ (prepared rules world k input now).observations ∧
      ∃ r, withSource (prepared rules world k input now) o = some r := by
  obtain ⟨left, rows, hgrown⟩ := grown_prepared rules world k input now
  have hrow : o ∈ rows := by
    unfold ingested at ho
    rwa [hgrown.observations, List.drop_left] at ho
  obtain ⟨s, hs, hid⟩ := hgrown.sourced o hrow
  constructor
  · rw [hgrown.observations]
    exact List.mem_append_right _ hrow
  · refine withSource_of_mem (s := s) ?_ hid
    rw [hgrown.sources]
    exact List.mem_append_right _ hs

lemma mem_queryObservations_of_selected {eventType : String} {o : Observation} {r : ObservationRow}
    (ho : o ∈ k.observations) (hrow : withSource k o = some r) (htopic : o.eventType = eventType)
    (hfresh : later - staleAfterMs ≤ o.observedAt) :
    r ∈ queryObservations k eventType none none later := by
  have hselected : selected eventType none later o := by
    simp [selected, htopic, hfresh]
  exact List.mem_filterMap.2 ⟨o, List.mem_filter.2 ⟨ho, hselected⟩, hrow⟩

lemma recommend_resolved {rows : List ObservationRow} (hrows : rows ≠ []) :
    (recommend rules input rows).resolved = true := by
  unfold recommend
  simp only [if_neg hrows]

end query

/-- What a search ingests under its topic, of a date that is not stale, is among the rows of the
query after it, and the topic is no longer without data. -/
theorem ingested_is_returned (rules : KnowledgeRules) (world : World) (k : Knowledge)
    (input : RecommendationInput) (now later : ℤ) (hregion : input.region = none)
    (htier : input.tier = none) (o : Observation) (ho : o ∈ ingested rules world k input now)
    (htopic : o.eventType = input.topic rules) (hfresh : later - staleAfterMs ≤ o.observedAt) :
    (∃ r ∈ nextRows rules world k input now later,
      withSource (prepared rules world k input now) o = some r) ∧
    (recommend rules input (nextRows rules world k input now later)).resolved = true := by
  obtain ⟨hmem, r, hrow⟩ := sourced_of_ingested rules ho
  have hplace : input.place rules = none := by
    rw [RecommendationInput.place, hregion]
    rfl
  have hreturned : r ∈ nextRows rules world k input now later := by
    unfold nextRows
    rw [hplace, htier]
    exact mem_queryObservations_of_selected hmem hrow htopic hfresh
  exact ⟨⟨r, hreturned, hrow⟩, recommend_resolved rules (List.ne_nil_of_mem hreturned)⟩

def article (publishedAt : String) : SearchResult :=
  { title := "Prices"
    url := "https://prices.example/article"
    snippet := "Decor costs 100."
    content := none
    publishedAt := some publishedAt }

def decorRow : ExtractedRow :=
  { category := "Decor"
    item := none
    region := none
    tier := none
    amountMin := some "100"
    amountMax := some "200"
    unit := none
    commonlyForgotten := false
    confidence := 1 }

/-- One article is found, and the model takes one row from it. -/
def oneArticle (publishedAt eventType : String) : World :=
  { search := fun _ => .ok [article publishedAt]
    extract := fun _ _ => .ok (some ⟨eventType, [decorRow]⟩) }

/-- The dates that are read are "old" and "new". -/
def datedRules : KnowledgeRules :=
  { plainRules with
    hostname := fun _ => some "prices.example"
    parseDate := fun text => if text = "old" then some 0 else some staleAfterMs }

def nowMs : ℤ := staleAfterMs + 1

theorem search_then_no_data :
    (¬ ∀ o ∈ ingested datedRules (oneArticle "old" "wedding") noKnowledge wedding nowMs,
      ∃ r ∈ nextRows datedRules (oneArticle "old" "wedding") noKnowledge wedding nowMs nowMs,
        withSource (prepared datedRules (oneArticle "old" "wedding") noKnowledge wedding nowMs) o =
          some r) ∧
    ¬ ∀ o ∈ ingested datedRules (oneArticle "new" "funeral") noKnowledge wedding nowMs,
      ∃ r ∈ nextRows datedRules (oneArticle "new" "funeral") noKnowledge wedding nowMs nowMs,
        withSource (prepared datedRules (oneArticle "new" "funeral") noKnowledge wedding nowMs) o =
          some r := by
  constructor
  · intro h
    have hrows : nextRows datedRules (oneArticle "old" "wedding") noKnowledge wedding nowMs nowMs =
      [] := by decide
    obtain ⟨o, ho⟩ := List.exists_mem_of_ne_nil (ingested datedRules (oneArticle "old" "wedding")
      noKnowledge wedding nowMs) (by decide)
    obtain ⟨r, hr, -⟩ := h o ho
    rw [hrows] at hr
    cases hr
  · intro h
    have hrows : nextRows datedRules (oneArticle "new" "funeral") noKnowledge wedding nowMs nowMs =
      [] := by decide
    obtain ⟨o, ho⟩ := List.exists_mem_of_ne_nil (ingested datedRules (oneArticle "new" "funeral")
      noKnowledge wedding nowMs) (by decide)
    obtain ⟨r, hr, -⟩ := h o ho
    rw [hrows] at hr
    cases hr

/-- The row of a new article about weddings. -/
def decorObservation : Observation :=
  { liveObservation "wedding" ⟨"wedding", [decorRow]⟩ staleAfterMs decorRow with sourceId := 1 }

theorem ingested_is_returned_new :
    (∃ r ∈ nextRows datedRules (oneArticle "new" "wedding") noKnowledge wedding nowMs nowMs,
      withSource (prepared datedRules (oneArticle "new" "wedding") noKnowledge wedding nowMs)
        decorObservation = some r) ∧
    (recommend datedRules wedding (nextRows datedRules (oneArticle "new" "wedding") noKnowledge
      wedding nowMs nowMs)).resolved = true :=
  ingested_is_returned datedRules (oneArticle "new" "wedding") noKnowledge wedding nowMs nowMs rfl
    rfl decorObservation (List.mem_singleton.2 rfl) rfl (by decide)

end Akabbo.IngestedObservations
