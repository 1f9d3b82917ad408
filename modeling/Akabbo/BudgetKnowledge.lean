import Akabbo.Binary64
import Akabbo.LikePatterns
import Mathlib.Data.List.Dedup

/-!
# The shared budget knowledge

Observations of what things cost, with the sources they are from, and the recommendation that is
computed from them. A topic that is hardly covered is searched for.
-/
namespace Akabbo.BudgetKnowledge
open Binary64

inductive Reliability
  | low | medium | high
  deriving DecidableEq, Repr

inductive SourceType
  | manualEntry | publicArticle | userUpload | akabboAggregate | adminUpload
  deriving DecidableEq, Repr

inductive ExtractionMethod
  | manual | aiExtractionReviewed | aiExtractionLive
  deriving DecidableEq, Repr

inductive BudgetTier
  | budget | mid | premium
  deriving DecidableEq, Repr

/-- Times are milliseconds. -/
structure KnowledgeSource where
  id : ℕ
  sourceType : SourceType
  name : String
  url : Option String
  publishedAt : Option ℤ
  collectedAt : ℤ
  reliability : Reliability
  licensingNote : String
  extractionMethod : ExtractionMethod
  deriving DecidableEq, Repr

structure Observation where
  sourceId : ℕ
  eventType : String
  region : Option String
  tier : Option BudgetTier
  category : String
  item : Option String
  amountMin : Option ℤ
  amountMax : Option ℤ
  unit : Option String
  commonlyForgotten : Bool
  confidence : ℚ
  observedAt : ℤ
  deriving DecidableEq, Repr

structure Knowledge where
  sources : List KnowledgeSource
  observations : List Observation
  deriving DecidableEq, Repr

structure ObservationRow where
  category : String
  item : Option String
  region : Option String
  amountMin : Option ℤ
  amountMax : Option ℤ
  unit : Option String
  commonlyForgotten : Bool
  confidence : ℚ
  sourceId : ℕ
  observedAt : ℤ
  reliability : Reliability
  deriving DecidableEq, Repr

/-- A text that is there and not empty. -/
def given (text : Option String) : Option String := text.filter (· ≠ "")

/-- `text.startsWith(start)`. -/
def startsWith (text start : String) : Bool := decide (start.toList <+: text.toList)

/-- Twenty-four months of thirty days. -/
def staleAfterMs : ℤ := 24 * 30 * 24 * 60 * 60 * 1000

def minCategoriesForCoverage : ℕ := 3

def toRow (reliability : Reliability) (o : Observation) : ObservationRow :=
  { category := o.category
    item := o.item
    region := o.region
    amountMin := o.amountMin
    amountMax := o.amountMax
    unit := o.unit
    commonlyForgotten := o.commonlyForgotten
    confidence := o.confidence
    sourceId := o.sourceId
    observedAt := o.observedAt
    reliability }

/-- A row with its source, which the foreign key promises. -/
def withSource (k : Knowledge) (o : Observation) : Option ObservationRow :=
  (k.sources.find? fun s => s.id == o.sourceId).map fun s => toRow s.reliability o

/-- `eventType`, the staleness cut-off, and the tier or none. -/
def selected (eventType : String) (tier : Option BudgetTier) (now : ℤ) (o : Observation) : Bool :=
  o.eventType == eventType && decide (now - staleAfterMs ≤ o.observedAt) &&
    tier.all fun tier => o.tier == some tier || o.tier == none

def queryObservations (k : Knowledge) (eventType : String) (region : Option String)
    (tier : Option BudgetTier) (now : ℤ) : List ObservationRow :=
  let all := (k.observations.filter (selected eventType tier now)).filterMap (withSource k)
  match given region with
  | none => all
  | some region =>
    let baseline := all.filter fun r => (given r.region).isNone
    let regional := all.filter fun r => given r.region == some region
    if regional = [] then baseline else regional ++ baseline

def hasUsableCoverage (rows : List ObservationRow) : Bool :=
  decide (minCategoriesForCoverage ≤ (rows.map ObservationRow.category).dedup.length)

inductive Confidence
  | low | medium | high
  deriving DecidableEq, Repr

structure RecommendationCategory where
  category : String
  amountMin : Option ℤ
  amountMax : Option ℤ
  unit : Option String
  confidence : Confidence
  sourceCount : ℕ
  commonlyForgotten : Bool
  deriving DecidableEq, Repr

/-- One source alone is never of high confidence. -/
def confidenceLabel (avg : ℚ) (sourceCount : ℕ) : Confidence :=
  if sourceCount ≤ 1 then (if rounded (7 / 10) ≤ avg then .medium else .low)
  else if rounded (7 / 10) ≤ avg then .high
  else if rounded (4 / 10) ≤ avg then .medium
  else .low

/-- The keys of a `Map`, in the order in which they are first set. -/
def mapKeys (keys : List String) : List String := keys.reverse.dedup.reverse

/-- Vetted rows, or all where there are none. -/
def rowsForRange (categoryRows : List ObservationRow) : List ObservationRow :=
  let highTrust := categoryRows.filter fun r => r.reliability == .high
  if highTrust = [] then categoryRows else highTrust

def average (rows : List ObservationRow) : ℚ :=
  rounded (rows.foldl (fun sum r => rounded (sum + r.confidence)) 0 / rows.length)

def summarise (category : String) (categoryRows : List ObservationRow) : RecommendationCategory :=
  let rows := rowsForRange categoryRows
  let sourceCount := (rows.map ObservationRow.sourceId).dedup.length
  { category
    amountMin := (rows.filterMap ObservationRow.amountMin).min?
    amountMax := (rows.filterMap ObservationRow.amountMax).max?
    unit := rows.findSome? fun r => given r.unit
    confidence := if categoryRows.any fun r => r.reliability == .high then .high
      else confidenceLabel (average rows) sourceCount
    sourceCount
    commonlyForgotten := categoryRows.any ObservationRow.commonlyForgotten }

/-- Dearest first, and otherwise in the order of the rows. -/
def aggregateByCategory (rows : List ObservationRow) : List RecommendationCategory :=
  ((mapKeys (rows.map ObservationRow.category)).map fun category =>
    summarise category (rows.filter fun r => r.category == category)).mergeSort
      fun a b => decide (b.amountMax.getD 0 ≤ a.amountMax.getD 0)

/-- A figure for a whole event is not added to those of its parts. -/
def isSummed (c : RecommendationCategory) : Bool :=
  c.amountMin.isSome && c.amountMax.isSome && !startsWith c.category "Total ("

def totalRange (categories : List RecommendationCategory) : Option (ℤ × ℤ) :=
  let summed := categories.filter isSummed
  if summed = [] then none
  else some ((summed.map fun c => c.amountMin.getD 0).sum,
    (summed.map fun c => c.amountMax.getD 0).sum)

def isPriced (r : ObservationRow) : Bool := r.amountMin.isSome || r.amountMax.isSome

structure SearchResult where
  title : String
  url : String
  snippet : String
  content : Option String
  publishedAt : Option String
  deriving DecidableEq, Repr

/-- A row of the model's tool call that has passed its schema. -/
structure ExtractedRow where
  category : String
  item : Option String
  region : Option String
  tier : Option BudgetTier
  amountMin : Option String
  amountMax : Option String
  unit : Option String
  commonlyForgotten : Bool
  confidence : ℚ
  deriving DecidableEq, Repr

structure Extraction where
  eventType : String
  observations : List ExtractedRow
  deriving DecidableEq, Repr

/-- `trim().toLowerCase()`, the host of a URL that can be parsed, the time of a date that can, the
month of a time, and the rows that fit the columns of their table. -/
structure KnowledgeRules where
  normalize : String → String
  hostname : String → Option String
  lowerCase : String → String
  parseDate : String → Option ℤ
  month : ℤ → String
  storable : Observation → Bool

/-- What the search engine and the model answer during one call; an extraction that is missing or
does not pass its schema is none. -/
structure World where
  search : String → Except String (List SearchResult)
  extract : SearchResult → String → Except String (Option Extraction)

section services
variable (rules : KnowledgeRules)

def blockedHosts : List String := ["scribd.com", "slideshare.net", "everand.com"]

def isBlockedSource (url : String) : Bool :=
  match rules.hostname url with
  | none => true
  | some host => blockedHosts.any fun blocked => rules.lowerCase host == blocked ||
      decide (("." ++ blocked).toList <:+ (rules.lowerCase host).toList)

/-- An id that no source has. -/
def freshId (k : Knowledge) : ℕ := (k.sources.map KnowledgeSource.id).foldr max 0 + 1

def addSource (k : Knowledge) (source : KnowledgeSource) : Knowledge :=
  { k with sources := k.sources ++ [source] }

def addObservations (k : Knowledge) (rows : List Observation) : Knowledge :=
  { k with observations := k.observations ++ rows }

/-- The source is stored by itself, and stays when its rows are refused. -/
def ingestObservations (k : Knowledge) (source : KnowledgeSource) (rows : List Observation) :
    Knowledge × Except String ℕ :=
  let rows := rows.map fun o =>
    { o with
      sourceId := source.id
      eventType := rules.normalize o.eventType
      region := (given o.region).map rules.normalize }
  if rows.all rules.storable then (addObservations (addSource k source) rows, .ok rows.length)
  else (addSource k source, .error "value out of range")

def attemptKey (eventType : String) : String := "live-search:" ++ eventType

/-- A week. -/
def liveSearchCooldownMs : ℤ := 7 * 24 * 60 * 60 * 1000

/-- A source of a live search of the last week whose name starts with the key, as LIKE reads it. -/
def isRecentAttempt (key : String) (now : ℤ) (s : KnowledgeSource) : Bool :=
  LikePatterns.startsWith s.name key && s.extractionMethod == .aiExtractionLive &&
    decide (now - liveSearchCooldownMs ≤ s.collectedAt)

def recordSearchAttempt (k : Knowledge) (key : String) (observationCount : ℕ) (now : ℤ) : Knowledge :=
  addSource k
    { id := freshId k
      sourceType := .publicArticle
      name := key
      url := none
      publishedAt := none
      collectedAt := now
      reliability := .low
      licensingNote := s!"Live search attempt ({observationCount} observation(s) ingested) — " ++
        "domain-blocklist enforced, Scribd/Slideshare/Everand excluded."
      extractionMethod := .aiExtractionLive }

/-- `new Date(publishedAt)`: no date, or an invalid one, or a time. -/
def publishedTime (result : SearchResult) : Option (Option ℤ) :=
  (given result.publishedAt).map rules.parseDate

/-- The text that is read: the first 8,000 characters of the content, or else the snippet. -/
def textOf (result : SearchResult) : String :=
  (given ((given result.content).map fun text => String.ofList (text.toList.take 8000))).getD
    result.snippet

/-- `o.amount ? BigInt(o.amount) : undefined`. -/
def bigInt (amount : Option String) : Option ℤ :=
  (given amount).map fun digits => (Nat.ofDigitChars 10 digits.toList 0 : ℤ)

def liveSource (k : Knowledge) (key : String) (result : SearchResult) (publishedAt : Option ℤ)
    (now : ℤ) : KnowledgeSource :=
  { id := freshId k
    sourceType := .publicArticle
    name := key ++ ":" ++ (rules.hostname result.url).getD result.url
    url := some result.url
    publishedAt
    collectedAt := now
    reliability := .medium
    licensingNote := "Found by live search; domain-blocklist enforced before extraction. Never " ++
      "human-reviewed — the organizer who triggered the search sees and can challenge the result " ++
      "in the same conversation, which is the review, just a conversational one instead of a " ++
      "curator's."
    extractionMethod := .aiExtractionLive }

/-- Under the event type of the model, with no more than medium confidence. -/
def liveObservation (eventType : String) (extraction : Extraction) (observedAt : ℤ)
    (o : ExtractedRow) : Observation :=
  { sourceId := 0
    eventType := (given (some extraction.eventType)).getD eventType
    region := o.region
    tier := o.tier
    category := o.category
    item := o.item
    amountMin := bigInt o.amountMin
    amountMax := bigInt o.amountMax
    unit := o.unit
    commonlyForgotten := o.commonlyForgotten
    confidence := min o.confidence (rounded (6 / 10))
    observedAt }

def ingestLiveResult (world : World) (k : Knowledge) (eventType key : String) (now : ℤ)
    (result : SearchResult) : Knowledge × Except String ℕ :=
  if textOf result = "" then (k, .ok 0)
  else match world.extract result (textOf result) with
    | .error e => (k, .error e)
    | .ok none => (k, .ok 0)
    | .ok (some extraction) =>
      if extraction.observations = [] then (k, .ok 0)
      else match publishedTime rules result with
        | some none => (k, .error "Invalid value for argument: Provided Date object is invalid.")
        | published =>
          let publishedAt := published.bind id
          ingestObservations rules k (liveSource rules k key result publishedAt now)
            (extraction.observations.map
              (liveObservation eventType extraction (publishedAt.getD now)))

/-- An extraction that fails is skipped. -/
def ingestNext (world : World) (eventType key : String) (now : ℤ) (state : Knowledge × ℕ)
    (result : SearchResult) : Knowledge × ℕ :=
  let (k, answer) := ingestLiveResult rules world state.1 eventType key now result
  match answer with
  | .ok count => (k, state.2 + count)
  | .error _ => (k, state.2)

def backfill (world : World) (k : Knowledge) (eventType : String) (now : ℤ) : Knowledge :=
  let key := attemptKey eventType
  match world.search s!"{eventType} budget cost Uganda" with
  | .error _ => recordSearchAttempt k key 0 now
  | .ok results =>
    let allowed := results.filter fun r => !isBlockedSource rules r.url
    let (k, ingested) := allowed.foldl (ingestNext rules world eventType key now) (k, 0)
    if ingested = 0 then recordSearchAttempt k key 0 now else k

/-- Whether it searches. -/
def searches (k : Knowledge) (eventType : String) (now : ℤ) : Bool :=
  !k.sources.any (isRecentAttempt (attemptKey eventType) now)

def maybeBackfillLive (world : World) (k : Knowledge) (eventType : String) (now : ℤ) : Knowledge :=
  if searches k eventType now then backfill rules world k eventType now else k

structure RecommendationInput where
  eventType : String
  region : Option String
  tier : Option BudgetTier
  existingCategories : List String
  deriving DecidableEq, Repr

structure Recommendation where
  resolved : Bool
  eventType : String
  region : Option String
  tier : Option BudgetTier
  categories : List RecommendationCategory
  totalRange : Option (ℤ × ℤ)
  possiblyMissing : List String
  regionalNote : Option String
  asOf : Option String
  instruction : Option String
  deriving DecidableEq, Repr

def noDataInstruction (eventType : String) : String :=
  s!"Akabbo has NO data for \"{eventType}\" yet — not from curated sources, not from a live search. " ++
    "Do NOT invent categories, items, or prices from your own general knowledge, even ones you are " ++
    "confident are typical for this kind of event. Tell the user plainly that there is no data for " ++
    "this yet, and ask if they want to build the budget from their own numbers instead."

def thinInstruction (eventType : String) (count : ℕ) : String :=
  s!"Coverage for \"{eventType}\" is thin — only {count} categor" ++
    (if count = 1 then "y" else "ies") ++ " of real data below. " ++
    "Present ONLY what is in categories/possiblyMissing — do NOT add other categories, items, or " ++
    "prices from your own general knowledge, even ones you are confident are typical for this " ++
    "event. If you want to mention other likely categories, say plainly that Akabbo doesn't have " ++
    "pricing data for them yet rather than presenting a number for them."

def baselineNote : String :=
  "No region-specific data for this area yet — showing the Uganda-wide/Kampala-anchored baseline. " ++
    "Published guides suggest costs outside Kampala tend to run roughly 20-40% lower."

/-- The topic and the region that are asked about, as they are compared. -/
def RecommendationInput.topic (input : RecommendationInput) : String := rules.normalize input.eventType

def RecommendationInput.place (input : RecommendationInput) : Option String :=
  (given input.region).map rules.normalize

def recommend (input : RecommendationInput) (rows : List ObservationRow) : Recommendation :=
  let eventType := input.topic rules
  let region := input.place rules
  if rows = [] then
    { resolved := false
      eventType
      region
      tier := input.tier
      categories := []
      totalRange := none
      possiblyMissing := []
      regionalNote := none
      asOf := none
      instruction := some (noDataInstruction eventType) }
  else
    let categories := aggregateByCategory (rows.filter isPriced)
    let existing := input.existingCategories.map rules.normalize
    { resolved := true
      eventType
      region
      tier := input.tier
      categories
      totalRange := totalRange categories
      possiblyMissing := mapKeys ((rows.filter fun r =>
        r.commonlyForgotten && decide (rules.normalize r.category ∉ existing)).map
          ObservationRow.category)
      regionalNote := (given region).bind fun region =>
        if rows.any fun r => r.region == some region then none else some baselineNote
      asOf := (rows.map ObservationRow.observedAt).max?.map rules.month
      instruction := if categories.length < minCategoriesForCoverage then
        some (thinInstruction eventType categories.length) else none }

/-- The topic is hardly covered. -/
def isThin (k : Knowledge) (input : RecommendationInput) (now : ℤ) : Bool :=
  !hasUsableCoverage (queryObservations k (input.topic rules) (input.place rules) input.tier now)

/-- What is stored when the recommendation is computed. -/
def prepared (world : World) (k : Knowledge) (input : RecommendationInput) (now : ℤ) : Knowledge :=
  if isThin rules k input now then maybeBackfillLive rules world k (input.topic rules) now else k

def getRecommendation (world : World) (k : Knowledge) (input : RecommendationInput) (now : ℤ) :
    Recommendation × Knowledge :=
  let k := prepared rules world k input now
  (recommend rules input
    (queryObservations k (input.topic rules) (input.place rules) input.tier now), k)

end services

end Akabbo.BudgetKnowledge
