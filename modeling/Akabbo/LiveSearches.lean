import Akabbo.LikePatterns
import Akabbo.RecommendedRanges

/-!
# Live searches over a sequence of recommendations

What a search leaves in the store, and how later calls read it.
-/
namespace Akabbo.LiveSearches
open BudgetKnowledge RecommendedRanges

/-- Where the names of all live searches start. -/
lemma prefix_of_attempt {name topic : String} (h : LikePatterns.startsWith name (attemptKey topic)) :
    "live-search:".toList <+: name.toList :=
  LikePatterns.prefix_of_startsWith (by simp [LikePatterns.IsPlain]) h

lemma not_mem_attemptKey {topic : String} (h : '\\' ∉ topic.toList) :
    '\\' ∉ (attemptKey topic).toList := by
  rw [attemptKey, String.toList_append, List.mem_append]
  rintro (hhead | htopic)
  · exact absurd hhead (by simp)
  · exact h htopic

/-- A source that a search leaves. -/
structure LeftBy (key : String) (now : ℤ) (s : KnowledgeSource) : Prop where
  named : ∃ rest, s.name = key ++ rest
  live : s.extractionMethod = .aiExtractionLive
  collected : s.collectedAt = now

/-- The store has grown by sources of the search, and by rows of these sources. -/
structure Grown (key : String) (now : ℤ) (k k' : Knowledge) (left : List KnowledgeSource)
    (rows : List Observation) : Prop where
  sources : k'.sources = k.sources ++ left
  observations : k'.observations = k.observations ++ rows
  leftBy : ∀ s ∈ left, LeftBy key now s
  sourced : ∀ o ∈ rows, ∃ s ∈ left, s.id = o.sourceId

section search
variable (rules : KnowledgeRules) {world : World} {k k' : Knowledge} {eventType key : String}
  {now : ℤ}

lemma grown_refl (key : String) (now : ℤ) (k : Knowledge) : Grown key now k k [] [] :=
  { sources := by simp
    observations := by simp
    leftBy := by simp
    sourced := by simp }

lemma Grown.trans {k'' : Knowledge} {left left' : List KnowledgeSource}
    {rows rows' : List Observation} (h : Grown key now k k' left rows)
    (h' : Grown key now k' k'' left' rows') :
    Grown key now k k'' (left ++ left') (rows ++ rows') where
  sources := by rw [h'.sources, h.sources, List.append_assoc]
  observations := by rw [h'.observations, h.observations, List.append_assoc]
  leftBy := by
    intro s hs
    rcases List.mem_append.1 hs with hs | hs
    · exact h.leftBy s hs
    · exact h'.leftBy s hs
  sourced := by
    intro o ho
    rcases List.mem_append.1 ho with ho | ho
    · obtain ⟨s, hs, hid⟩ := h.sourced o ho
      exact ⟨s, List.mem_append_left _ hs, hid⟩
    · obtain ⟨s, hs, hid⟩ := h'.sourced o ho
      exact ⟨s, List.mem_append_right _ hs, hid⟩

lemma grown_addSource (k : Knowledge) {s : KnowledgeSource} (hs : LeftBy key now s) :
    Grown key now k (addSource k s) [s] [] :=
  { sources := rfl
    observations := by simp [addSource]
    leftBy := by simpa using hs
    sourced := by simp }

lemma grown_ingestObservations (k : Knowledge) {s : KnowledgeSource} (hs : LeftBy key now s)
    (rows : List Observation) :
    ∃ rows', Grown key now k (ingestObservations rules k s rows).1 [s] rows' := by
  unfold ingestObservations
  simp only
  split
  · refine ⟨_, rfl, rfl, by simpa using hs, ?_⟩
    intro o ho
    obtain ⟨o, -, rfl⟩ := List.mem_map.1 ho
    exact ⟨s, by simp, rfl⟩
  · exact ⟨[], grown_addSource k hs⟩

lemma leftBy_liveSource (k : Knowledge) (key : String) (result : SearchResult)
    (publishedAt : Option ℤ) (now : ℤ) :
    LeftBy key now (liveSource rules k key result publishedAt now) :=
  { named := ⟨":" ++ (rules.hostname result.url).getD result.url, String.append_assoc⟩
    live := rfl
    collected := rfl }

/-- A result that is counted has left a source. -/
lemma grown_ingestLiveResult (world : World) (k : Knowledge) (eventType key : String) (now : ℤ)
    (result : SearchResult) :
    ∃ left rows, Grown key now k
        (ingestLiveResult rules world k eventType key now result).1 left rows ∧
      (left = [] → (ingestLiveResult rules world k eventType key now result).2 ≠ .ok 0 →
        ∃ e, (ingestLiveResult rules world k eventType key now result).2 = .error e) := by
  unfold ingestLiveResult
  split
  · exact ⟨[], [], grown_refl key now k, fun _ h => absurd rfl h⟩
  · split
    · rename_i e _
      exact ⟨[], [], grown_refl key now k, fun _ _ => ⟨e, rfl⟩⟩
    · exact ⟨[], [], grown_refl key now k, fun _ h => absurd rfl h⟩
    · split
      · exact ⟨[], [], grown_refl key now k, fun _ h => absurd rfl h⟩
      · split
        · exact ⟨[], [], grown_refl key now k, fun _ _ => ⟨_, rfl⟩⟩
        · obtain ⟨rows, h⟩ := grown_ingestObservations rules k
            (leftBy_liveSource rules k key result _ now) _
          exact ⟨_, rows, h, fun hnil => absurd hnil (by simp)⟩

/-- A step of the loop adds to the count only where it leaves a source. -/
lemma grown_ingestNext (world : World) (eventType key : String) (now : ℤ)
    (state : Knowledge × ℕ) (result : SearchResult) :
    ∃ left rows, Grown key now state.1
        (ingestNext rules world eventType key now state result).1 left rows ∧
      (left = [] → (ingestNext rules world eventType key now state result).2 = state.2) := by
  obtain ⟨left, rows, hgrown, hcount⟩ :=
    grown_ingestLiveResult rules world state.1 eventType key now result
  refine ⟨left, rows, ?_⟩
  unfold ingestNext
  cases hanswer : (ingestLiveResult rules world state.1 eventType key now result).2 with
  | error e =>
    simp only [hanswer]
    exact ⟨hgrown, fun _ => trivial⟩
  | ok count =>
    simp only [hanswer]
    refine ⟨hgrown, fun hnil => ?_⟩
    by_cases hzero : count = 0
    · rw [hzero, Nat.add_zero]
    · obtain ⟨e, he⟩ := hcount hnil (by simp [hanswer, hzero])
      rw [hanswer] at he
      cases he

lemma grown_foldl (world : World) (eventType key : String) (now : ℤ) (results : List SearchResult)
    (state : Knowledge × ℕ) :
    ∃ left rows, Grown key now state.1
        (results.foldl (ingestNext rules world eventType key now) state).1 left rows ∧
      (left = [] →
        (results.foldl (ingestNext rules world eventType key now) state).2 = state.2) := by
  induction results generalizing state with
  | nil => exact ⟨[], [], grown_refl key now state.1, fun _ => rfl⟩
  | cons result results ih =>
    obtain ⟨left, rows, hgrown, hcount⟩ :=
      grown_ingestNext rules world eventType key now state result
    obtain ⟨left', rows', hgrown', hcount'⟩ :=
      ih (ingestNext rules world eventType key now state result)
    refine ⟨left ++ left', rows ++ rows', hgrown.trans hgrown', ?_⟩
    intro hnil
    obtain ⟨hleft, hleft'⟩ := List.append_eq_nil_iff.1 hnil
    rw [List.foldl_cons, hcount' hleft', hcount hleft]

lemma grown_recordSearchAttempt (k : Knowledge) (key : String) (count : ℕ) (now : ℤ) :
    ∃ s, Grown key now k (recordSearchAttempt k key count now) [s] [] :=
  ⟨_, grown_addSource k ⟨⟨"", String.append_empty.symm⟩, rfl, rfl⟩⟩

/-- Whatever comes of it, a search leaves a source. -/
lemma grown_backfill (world : World) (k : Knowledge) (eventType : String) (now : ℤ) :
    ∃ left rows, Grown (attemptKey eventType) now k (backfill rules world k eventType now) left
      rows ∧ left ≠ [] := by
  unfold backfill
  simp only
  cases world.search s!"{eventType} budget cost Uganda" with
  | error e =>
    obtain ⟨s, h⟩ := grown_recordSearchAttempt k (attemptKey eventType) 0 now
    exact ⟨_, _, h, by simp⟩
  | ok results =>
    obtain ⟨left, rows, hgrown, hcount⟩ := grown_foldl rules world eventType
      (attemptKey eventType) now (results.filter fun r => !isBlockedSource rules r.url) (k, 0)
    simp only
    split
    · obtain ⟨s, h⟩ := grown_recordSearchAttempt _ (attemptKey eventType) 0 now
      exact ⟨_, _, hgrown.trans h, by simp⟩
    · rename_i hne
      exact ⟨left, rows, hgrown, fun hnil => hne (hcount hnil)⟩

end search

/-- A call, with what the world answers to it. -/
structure Visit where
  input : RecommendationInput
  world : World
  now : ℤ

/-- What can be told of a call afterwards. -/
structure Call where
  topic : String
  now : ℤ
  thin : Bool
  searched : Bool
  left : List KnowledgeSource

section run
variable (rules : KnowledgeRules)

def Visit.after (v : Visit) (k : Knowledge) : Knowledge :=
  (getRecommendation rules v.world k v.input v.now).2

def Visit.call (v : Visit) (k : Knowledge) : Call :=
  { topic := v.input.topic rules
    now := v.now
    thin := isThin rules k v.input v.now
    searched := isThin rules k v.input v.now && searches k (v.input.topic rules) v.now
    left := (v.after rules k).sources.drop k.sources.length }

def calls : Knowledge → List Visit → List Call
  | _, [] => []
  | k, v :: vs => v.call rules k :: calls (v.after rules k) vs

def run : Knowledge → List Visit → Knowledge
  | k, [] => k
  | k, v :: vs => run (v.after rules k) vs

/-- A search for the topic is due: it is thin, and each search for it is more than a week ago. -/
def Due (earlier : List Call) (c : Call) : Prop :=
  c.thin ∧ ∀ a ∈ earlier, a.searched → a.topic = c.topic → a.now < c.now - liveSearchCooldownMs

/-- An earlier call has left, in the last week, a source whose name starts with this topic's key, as
LIKE reads it. -/
def Seen (a c : Call) : Prop :=
  ∃ s ∈ a.left, c.now - liveSearchCooldownMs ≤ s.collectedAt ∧
    LikePatterns.startsWith s.name (attemptKey c.topic)

/-- A search for another topic is taken for one of this. -/
def Mistaken (earlier : List Call) (c : Call) : Prop :=
  ∃ a ∈ earlier, a.topic ≠ c.topic ∧ Seen a c

/-- Where a search is due, none for another topic is taken for it; where one has been made in the last
week, it is seen, or one for another topic is. -/
def ToldApart (earlier : List Call) (c : Call) : Prop :=
  (Due earlier c → ¬ Mistaken earlier c) ∧
    (c.thin → ¬ Due earlier c → ∃ a ∈ earlier, Seen a c)

variable {rules}

lemma grown_call (v : Visit) (k : Knowledge) :
    (v.after rules k).sources = k.sources ++ (v.call rules k).left ∧
      (∀ s ∈ (v.call rules k).left, LeftBy (attemptKey (v.call rules k).topic) v.now s) ∧
      ((v.call rules k).searched ↔ (v.call rules k).left ≠ []) := by
  have hleft : (v.call rules k).left = (v.after rules k).sources.drop k.sources.length := rfl
  have hsearched : (v.call rules k).searched =
      (isThin rules k v.input v.now && searches k (v.input.topic rules) v.now) := rfl
  have hafter : v.after rules k = if isThin rules k v.input v.now then
      maybeBackfillLive rules v.world k (v.input.topic rules) v.now else k := rfl
  rw [hleft, hsearched]
  by_cases hs : isThin rules k v.input v.now && searches k (v.input.topic rules) v.now
  · obtain ⟨left, rows, hgrown, hne⟩ := grown_backfill rules v.world k (v.input.topic rules) v.now
    rw [Bool.and_eq_true] at hs
    rw [hafter, if_pos hs.1, maybeBackfillLive, if_pos hs.2, hgrown.sources, List.drop_left]
    exact ⟨rfl, hgrown.leftBy, by simp [hs, hne]⟩
  · have hsame : v.after rules k = k := by
      rw [hafter]
      by_cases hthin : isThin rules k v.input v.now
      · rw [if_pos hthin, maybeBackfillLive, if_neg (by simpa [hthin] using hs)]
      · rw [if_neg hthin]
    rw [hsame, List.drop_length]
    simp [hs]

lemma sources_run (k : Knowledge) (visits : List Visit) :
    (run rules k visits).sources = k.sources ++ (calls rules k visits).flatMap Call.left := by
  induction visits generalizing k with
  | nil => simp [run, calls]
  | cons v visits ih =>
    rw [run, calls, ih, (grown_call v k).1, List.flatMap_cons, List.append_assoc]

/-- Each call of a sequence is made in the store that the earlier ones leave. -/
lemma mem_calls (k : Knowledge) (visits : List Visit) {earlier later : List Call} {c : Call}
    (h : calls rules k visits = earlier ++ c :: later) :
    ∃ before v after, visits = before ++ v :: after ∧ earlier = calls rules k before ∧
      c = v.call rules (run rules k before) := by
  induction visits generalizing k earlier with
  | nil => simp [calls] at h
  | cons v visits ih =>
    cases earlier with
    | nil =>
      simp only [calls, List.nil_append, List.cons.injEq] at h
      exact ⟨[], v, visits, rfl, rfl, h.1.symm⟩
    | cons a earlier =>
      simp only [calls, List.cons_append, List.cons.injEq] at h
      obtain ⟨rfl, h⟩ := h
      obtain ⟨before, w, after, rfl, rfl, rfl⟩ := ih _ h
      exact ⟨v :: before, w, after, rfl, rfl, rfl⟩

/-- What every call of a sequence leaves. -/
lemma left_of_mem (k : Knowledge) (visits : List Visit) {a : Call}
    (ha : a ∈ calls rules k visits) :
    (∀ s ∈ a.left, LeftBy (attemptKey a.topic) a.now s) ∧ (a.searched ↔ a.left ≠ []) := by
  obtain ⟨earlier, later, h⟩ := List.append_of_mem ha
  obtain ⟨before, v, after, -, -, rfl⟩ := mem_calls k visits h
  exact (grown_call v _).2

end run

/-- No live search has been made yet. -/
def NoneLive (k : Knowledge) : Prop :=
  ∀ s ∈ k.sources, s.extractionMethod = .aiExtractionLive →
    ¬ "live-search:".toList <+: s.name.toList

section cooldown
variable {rules : KnowledgeRules} {k : Knowledge}

lemma isRecentAttempt_iff {key : String} {now : ℤ} {s : KnowledgeSource} :
    isRecentAttempt key now s ↔ LikePatterns.startsWith s.name key ∧
      s.extractionMethod = .aiExtractionLive ∧ now - liveSearchCooldownMs ≤ s.collectedAt := by
  simp [isRecentAttempt, and_assoc]

/-- The guard looks at the sources that the earlier calls have left. -/
lemma searched_iff_unseen (hk : NoneLive k) (before : List Visit) (v : Visit) :
    (v.call rules (run rules k before)).searched ↔
      (v.call rules (run rules k before)).thin ∧ ∀ a ∈ calls rules k before,
        ¬ Seen a (v.call rules (run rules k before)) := by
  have hsearched : (v.call rules (run rules k before)).searched =
      ((v.call rules (run rules k before)).thin &&
        searches (run rules k before) (v.call rules (run rules k before)).topic v.now) := rfl
  have hnow : (v.call rules (run rules k before)).now = v.now := rfl
  unfold Seen
  rw [hsearched, Bool.and_eq_true, hnow]
  generalize (v.call rules (run rules k before)).topic = topic
  refine and_congr_right fun _ => ?_
  unfold searches
  rw [Bool.not_eq_true', List.any_eq_false, sources_run]
  constructor
  · rintro h a ha ⟨s, hs, hrecent, hname⟩
    have hmem : s ∈ k.sources ++ (calls rules k before).flatMap Call.left :=
      List.mem_append_right _ (List.mem_flatMap.2 ⟨a, ha, hs⟩)
    have hlive := ((left_of_mem k before ha).1 s hs).live
    exact h s hmem (isRecentAttempt_iff.2 ⟨hname, hlive, hrecent⟩)
  · intro h s hs hattempt
    obtain ⟨hname, hlive, hrecent⟩ := isRecentAttempt_iff.1 hattempt
    rcases List.mem_append.1 hs with hs | hs
    · exact hk s hs hlive (prefix_of_attempt hname)
    · obtain ⟨a, ha, hs⟩ := List.mem_flatMap.1 hs
      exact h a ha ⟨s, hs, hrecent, hname⟩

/-- Where a search is due, none for the topic itself is seen. -/
lemma not_seen_of_due (visits : List Visit) {a c : Call} (hdue : Due (calls rules k visits) c)
    (ha : a ∈ calls rules k visits) (htopic : a.topic = c.topic) : ¬ Seen a c := by
  rintro ⟨s, hs, hrecent, -⟩
  obtain ⟨hleft, hsearched⟩ := left_of_mem k visits ha
  have hpast := hdue.2 a ha (hsearched.2 (List.ne_nil_of_mem hs)) htopic
  have hcollected := (hleft s hs).collected
  omega

/-- The searches for a topic without a backslash are seen for a week. -/
lemma toldApart_of_plain (visits : List Visit) {c : Call} (hplain : '\\' ∉ c.topic.toList) :
    ToldApart (calls rules k visits) c ↔
      (Due (calls rules k visits) c → ¬ Mistaken (calls rules k visits) c) := by
  refine and_iff_left fun hthin hnotdue => ?_
  unfold Due at hnotdue
  push Not at hnotdue
  obtain ⟨a, ha, hmade, htopic, hrecent⟩ := hnotdue hthin
  obtain ⟨hleft, hsearched⟩ := left_of_mem k visits ha
  obtain ⟨s, hs⟩ := List.exists_mem_of_ne_nil _ (hsearched.1 hmade)
  have hcollected := (hleft s hs).collected
  obtain ⟨rest, hname⟩ := (hleft s hs).named
  refine ⟨a, ha, s, hs, by omega, ?_⟩
  rw [hname, htopic]
  exact LikePatterns.startsWith_append (not_mem_attemptKey hplain) rest

/-- A call searches exactly when a search is due, if the searches are told apart. -/
lemma searched_iff_due (hk : NoneLive k) (before : List Visit) (v : Visit) :
    ((v.call rules (run rules k before)).searched ↔
      Due (calls rules k before) (v.call rules (run rules k before))) ↔
    ToldApart (calls rules k before) (v.call rules (run rules k before)) := by
  rw [searched_iff_unseen hk before v]
  generalize hc : v.call rules (run rules k before) = c
  constructor
  · intro h
    refine ⟨fun hdue => ?_, fun hthin hnotdue => ?_⟩
    · rintro ⟨a, ha, -, hseen⟩
      exact (h.2 hdue).2 a ha hseen
    · by_contra hnone
      push Not at hnone
      exact hnotdue (h.1 ⟨hthin, hnone⟩)
  · rintro ⟨hothers, hown⟩
    constructor
    · rintro ⟨hthin, hunseen⟩
      by_contra hnotdue
      obtain ⟨a, ha, hseen⟩ := hown hthin hnotdue
      exact hunseen a ha hseen
    · intro hdue
      refine ⟨hdue.1, fun a ha hseen => ?_⟩
      by_cases htopic : a.topic = c.topic
      · exact not_seen_of_due before hdue ha htopic hseen
      · exact hothers hdue ⟨a, ha, htopic, hseen⟩

end cooldown

/-- In a sequence of calls a search is made exactly where it is due, if and only if at each call the
searches for the topic and those for other topics are told apart. -/
theorem searched_when_due_iff (rules : KnowledgeRules) (k : Knowledge) (hk : NoneLive k)
    (visits : List Visit) :
    (∀ earlier c later, calls rules k visits = earlier ++ c :: later →
      (c.searched ↔ Due earlier c)) ↔
    ∀ earlier c later, calls rules k visits = earlier ++ c :: later → ToldApart earlier c := by
  refine forall_congr' fun earlier => forall₃_congr fun c later hcalls => ?_
  obtain ⟨before, v, after, -, rfl, rfl⟩ := mem_calls k visits hcalls
  exact searched_iff_due hk before v

def visit (eventType : String) (now : ℤ) : Visit :=
  { input := { wedding with eventType }
    world := noWorld
    now }

def anniversaryThenWedding : List Visit := [visit "wedding anniversary" 0, visit "wedding" 1000]

def noKnowledge : Knowledge := ⟨[], []⟩

def anniversaryCall : Call := (visit "wedding anniversary" 0).call plainRules noKnowledge

def weddingCall : Call :=
  (visit "wedding" 1000).call plainRules ((visit "wedding anniversary" 0).after plainRules noKnowledge)

theorem anniversary_hides_wedding :
    NoneLive noKnowledge ∧
    ¬ ∀ earlier c later, calls plainRules noKnowledge anniversaryThenWedding =
      earlier ++ c :: later → (c.searched ↔ Due earlier c) := by
  constructor
  · intro s hs
    cases hs
  · intro h
    have hdue : Due [anniversaryCall] weddingCall := by
      refine ⟨by decide +kernel, ?_⟩
      intro a ha _ htopic
      rw [List.mem_singleton.1 ha] at htopic
      exact absurd htopic (by decide +kernel)
    have hmade := (h [anniversaryCall] weddingCall [] rfl).2 hdue
    exact absurd hmade (by decide +kernel)

/-- Two topics that do not begin one another, and the second again within the week. -/
def apart : List Visit :=
  [visit "wedding anniversary" 0, visit "kwanjula" 1000, visit "kwanjula" 2000]

def apartCalls : List Call := calls plainRules noKnowledge apart

/-- No call of these leaves a source under the key of another's topic. -/
lemma topic_of_seen : ∀ a ∈ apartCalls, ∀ c ∈ apartCalls, ∀ s ∈ a.left,
    LikePatterns.startsWith s.name (attemptKey c.topic) = true → a.topic = c.topic := by
  decide +kernel

lemma plain_topics : ∀ c ∈ apartCalls, '\\' ∉ c.topic.toList := by decide +kernel

theorem searched_when_due_apart :
    apartCalls.map Call.searched = [true, true, false] ∧
      ∀ earlier c later, apartCalls = earlier ++ c :: later → (c.searched ↔ Due earlier c) := by
  refine ⟨by decide +kernel, (searched_when_due_iff plainRules noKnowledge (fun s hs => by cases hs)
    apart).2 fun earlier c later hcalls => ?_⟩
  have hc : c ∈ apartCalls := by
    rw [apartCalls, hcalls]
    simp
  obtain ⟨before, v, after, -, rfl, rfl⟩ := mem_calls noKnowledge apart hcalls
  refine (toldApart_of_plain before (plain_topics _ hc)).2 fun _ => ?_
  rintro ⟨a, ha, hother, s, hs, -, hname⟩
  have hmem : a ∈ apartCalls := by
    rw [apartCalls, hcalls]
    exact List.mem_append_left _ ha
  exact hother (topic_of_seen a hmem _ hc s hs hname)

end Akabbo.LiveSearches
