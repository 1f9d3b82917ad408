import Akabbo.LearnedGuidance

/-!
# What the assistant is told of what was learnt

Each process keeps the approved exemplars for five minutes and gives the model those that fit the
prompt. Prompts of one process may wait for the database at the same time.
-/
namespace Akabbo.PromptGuidance
open RowTable ReadCommitted RelyGuarantee LearnedGuidance
open TextPatterns (isWord)

structure PromptExemplar where
  category : String
  triggerKeywords : List String
  learnedGuidance : String
  deriving DecidableEq, Repr

def selected (x : AiLearnedExemplar) : PromptExemplar :=
  ⟨x.category, x.triggerKeywords, x.learnedGuidance⟩

/-- The twenty of the highest confidence; `rank` is the order that the query leaves open. -/
def approvedExemplars (db : LearningDb) (rank : ℕ → ℕ) : List PromptExemplar :=
  (((db.exemplars.rows.filter fun x => x.status == .approved).insertionSort fun a b =>
    b.confidenceScore < a.confidenceScore ∨
      a.confidenceScore = b.confidenceScore ∧ rank a.id ≤ rank b.id).take 20).map selected

/-- `split(/\W+/)`, and of that what is longer than two. -/
def tokens (normalizedPrompt : List Char) : List (List Char) :=
  (normalizedPrompt.splitOnP fun c => !isWord c).filter fun t => 2 < t.length

section text
variable (toLowerCase : String → String)

def fitsPrompt (normalizedPrompt : List Char) (x : PromptExemplar) : Bool :=
  x.triggerKeywords.isEmpty || x.triggerKeywords.any fun kw =>
    let keyword := (toLowerCase kw).toList
    decide (keyword <:+: normalizedPrompt) || (tokens normalizedPrompt).contains keyword

/-- Where nothing fits, the first ones are given all the same. -/
def topExemplars (exemplars : List PromptExemplar) (userPrompt : String) : List PromptExemplar :=
  let matched := exemplars.filter (fitsPrompt toLowerCase (toLowerCase userPrompt).toList)
  (if 0 < matched.length then matched else exemplars).take 5

end text

def promptText (exemplars : List PromptExemplar) : String :=
  if exemplars = [] then ""
  else "\n".intercalate (["============================================================",
    "LEARNED DOMAIN KNOWLEDGE & EXEMPLARY PATTERNS (SELF-LEARNING)",
    "============================================================",
    "These dynamic guidance patterns were derived from observed successful interactions:",
    ""] ++ exemplars.map fun x => s!"• [{x.category}] {x.learnedGuidance}")

def cacheTtlMs : ℕ := 5 * 60 * 1000

structure CachedAddenda where
  expiresAt : ℕ
  exemplars : List PromptExemplar
  deriving DecidableEq, Repr

/-- A prompt that waits for the database, since it read the clock. -/
structure Waiting where
  userPrompt : String
  now : ℕ
  approved : Option (List PromptExemplar)
  deriving DecidableEq, Repr

structure Process where
  cache : Option CachedAddenda := none
  waiting : List Waiting := []
  deriving DecidableEq, Repr

/-- A context that a prompt was given, by the clock it had read. -/
structure Given where
  userPrompt : String
  now : ℕ
  shown : List PromptExemplar
  deriving DecidableEq, Repr

def Given.text (g : Given) : String := promptText g.shown

structure Assistants where
  learning : LearningSystem
  processes : ℕ → Process
  given : List Given

inductive Action
  /-- a statement of the calls that learn -/
  | learn (m : Move)
  /-- `getRelevantContext` up to its query, or to its end where the cache holds -/
  | prompt (process now : ℕ) (userPrompt : String)
  /-- the database answers the query of one that waits -/
  | answer (process i : ℕ) (rank : ℕ → ℕ)
  /-- one that was answered fills the cache and goes on from it -/
  | resume (process i : ℕ)
  /-- its query has failed -/
  | fail (process i : ℕ)
  | clearCache (process : ℕ)

namespace Assistants
variable (toLowerCase : String → String) (s : Assistants)

def put (process : ℕ) (p : Process) : Assistants :=
  { s with processes := Function.update s.processes process p }

def give (g : Given) : Assistants := { s with given := s.given ++ [g] }

def rows : LearningDb := s.learning.committed

def step : Action → Assistants
  | .learn m => { s with learning := s.learning.step m }
  | .prompt process now userPrompt =>
      let p := s.processes process
      match p.cache.filter fun c => decide (now ≤ c.expiresAt) with
      | some c => s.give ⟨userPrompt, now, topExemplars toLowerCase c.exemplars userPrompt⟩
      | none => s.put process { p with waiting := p.waiting ++ [⟨userPrompt, now, none⟩] }
  | .answer process i rank =>
      let p := s.processes process
      s.put process { p with
        waiting := p.waiting.modify i fun w =>
          { w with approved := w.approved.or (some (approvedExemplars s.rows rank)) } }
  | .resume process i =>
      let p := s.processes process
      match p.waiting[i]?.bind fun w => w.approved.map fun exemplars => (w, exemplars) with
      | some (w, exemplars) =>
          (s.put process ⟨some ⟨w.now + cacheTtlMs, exemplars⟩, p.waiting.eraseIdx i⟩).give
            ⟨w.userPrompt, w.now, topExemplars toLowerCase exemplars w.userPrompt⟩
      | none => s
  | .fail process i =>
      let p := s.processes process
      match p.waiting[i]? with
      | some w => (s.put process { p with waiting := p.waiting.eraseIdx i }).give ⟨w.userPrompt, w.now, []⟩
      | none => s
  | .clearCache process => s.put process { s.processes process with cache := none }

def run (actions : List Action) : Assistants := actions.foldl (step toLowerCase) s

end Assistants

/-- Nothing learnt yet, and every cache empty. -/
def launched (calls : List LearningCall) : Assistants := ⟨system calls, fun _ => {}, []⟩

section runs
variable {toLowerCase : String → String} {calls : List LearningCall} {actions : List Action}

theorem run_snoc (s : Assistants) (actions : List Action) (a : Action) :
    s.run toLowerCase (actions ++ [a]) = (s.run toLowerCase actions).step toLowerCase a :=
  List.foldl_append

/-- The statements among the actions. -/
def learnMoves (actions : List Action) : List Move :=
  actions.filterMap fun a => match a with
    | .learn m => some m
    | _ => none

/-- Prompts leave what was learnt alone. -/
theorem learning_run (actions : List Action) : ((launched calls).run toLowerCase actions).learning =
    (system calls).run (learnMoves actions) := by
  induction actions using List.reverseRecOn with
  | nil => rfl
  | append_singleton actions a ih =>
    rw [run_snoc, learnMoves, List.filterMap_append, run_append, ← learnMoves, ← ih]
    cases a with
    | learn m => rfl
    | prompt process now userPrompt =>
      unfold Assistants.step
      dsimp only
      split <;> rfl
    | answer process i rank => rfl
    | resume process i =>
      unfold Assistants.step
      dsimp only
      split <;> rfl
    | fail process i =>
      unfold Assistants.step
      dsimp only
      split <;> rfl
    | clearCache process => rfl

/-- The exemplars were read after a prompt had read this time. -/
def Loaded (toLowerCase : String → String) (calls : List LearningCall) (actions : List Action)
    (asked : ℕ) (exemplars : List PromptExemplar) : Prop :=
  ∃ early late rank, actions = early ++ late ∧ (∃ process m, .prompt process asked m ∈ early) ∧
    exemplars = approvedExemplars ((launched calls).run toLowerCase early).rows rank

/-- What the caches hold, what waits and what was given. -/
structure Sourced (toLowerCase : String → String) (calls : List LearningCall) (actions : List Action)
    (s : Assistants) : Prop where
  cached : ∀ process c, (s.processes process).cache = some c → ∃ asked,
    c.expiresAt = asked + cacheTtlMs ∧ Loaded toLowerCase calls actions asked c.exemplars
  waiting : ∀ process, ∀ w ∈ (s.processes process).waiting,
    (∃ process m, .prompt process w.now m ∈ actions) ∧
      ∀ exemplars, w.approved = some exemplars → Loaded toLowerCase calls actions w.now exemplars
  given : ∀ g ∈ s.given, g.shown = [] ∨ ∃ asked exemplars, g.now ≤ asked + cacheTtlMs ∧
    Loaded toLowerCase calls actions asked exemplars ∧
      g.shown = topExemplars toLowerCase exemplars g.userPrompt

theorem Loaded.snoc {asked : ℕ} {exemplars : List PromptExemplar}
    (h : Loaded toLowerCase calls actions asked exemplars) (a : Action) :
    Loaded toLowerCase calls (actions ++ [a]) asked exemplars := by
  obtain ⟨early, late, rank, rfl, hread⟩ := h
  exact ⟨early, late ++ [a], rank, List.append_assoc _ _ _, hread⟩

theorem Sourced.snoc {s : Assistants} (h : Sourced toLowerCase calls actions s) (a : Action) :
    Sourced toLowerCase calls (actions ++ [a]) s where
  cached process c hc := by
    obtain ⟨asked, hexpires, hloaded⟩ := h.cached process c hc
    exact ⟨asked, hexpires, hloaded.snoc a⟩
  waiting process w hw := by
    obtain ⟨⟨p, m, hasked⟩, hloaded⟩ := h.waiting process w hw
    exact ⟨⟨p, m, List.mem_append_left _ hasked⟩, fun exemplars he => (hloaded exemplars he).snoc a⟩
  given g hg := by
    refine (h.given g hg).imp_right ?_
    rintro ⟨asked, exemplars, hnow, hloaded, hshown⟩
    exact ⟨asked, exemplars, hnow, hloaded.snoc a, hshown⟩

/-- A change to one process. -/
theorem Sourced.put {s : Assistants} (h : Sourced toLowerCase calls actions s) (process : ℕ)
    {p : Process}
    (hcached : ∀ c, p.cache = some c → ∃ asked,
      c.expiresAt = asked + cacheTtlMs ∧ Loaded toLowerCase calls actions asked c.exemplars)
    (hwaiting : ∀ w ∈ p.waiting, (∃ process m, .prompt process w.now m ∈ actions) ∧
      ∀ exemplars, w.approved = some exemplars → Loaded toLowerCase calls actions w.now exemplars) :
    Sourced toLowerCase calls actions (s.put process p) where
  cached process' c hc := by
    by_cases heq : process' = process
    · subst heq
      simp only [Assistants.put, Function.update_self] at hc
      exact hcached c hc
    · simp only [Assistants.put, Function.update_of_ne heq] at hc
      exact h.cached process' c hc
  waiting process' w hw := by
    by_cases heq : process' = process
    · subst heq
      simp only [Assistants.put, Function.update_self] at hw
      exact hwaiting w hw
    · simp only [Assistants.put, Function.update_of_ne heq] at hw
      exact h.waiting process' w hw
  given := h.given

theorem Sourced.give {s : Assistants} (h : Sourced toLowerCase calls actions s) {g : Given}
    (hg : g.shown = [] ∨ ∃ asked exemplars, g.now ≤ asked + cacheTtlMs ∧
      Loaded toLowerCase calls actions asked exemplars ∧
        g.shown = topExemplars toLowerCase exemplars g.userPrompt) :
    Sourced toLowerCase calls actions (s.give g) where
  cached := h.cached
  waiting := h.waiting
  given g' hg' := by
    rcases List.mem_append.mp hg' with hg' | hg'
    · exact h.given g' hg'
    · obtain rfl := List.mem_singleton.mp hg'
      exact hg

theorem sourced_run (actions : List Action) :
    Sourced toLowerCase calls actions ((launched calls).run toLowerCase actions) := by
  induction actions using List.reverseRecOn with
  | nil => exact ⟨fun _ _ hc => (by cases hc), fun _ _ hw => (by cases hw), fun _ hg => (by cases hg)⟩
  | append_singleton actions a ih =>
    rw [run_snoc]
    have hnext := ih.snoc a
    generalize hs : (launched calls).run toLowerCase actions = s at ih hnext ⊢
    cases a with
    | learn m => exact ⟨hnext.cached, hnext.waiting, hnext.given⟩
    | prompt process now userPrompt =>
      unfold Assistants.step
      dsimp only
      split
      · next c hc =>
        obtain ⟨hcache, hvalid⟩ := Option.filter_eq_some_iff.mp hc
        obtain ⟨asked, hexpires, hloaded⟩ := hnext.cached process c hcache
        have hnow : now ≤ c.expiresAt := by simpa using hvalid
        exact hnext.give (.inr ⟨asked, c.exemplars, hexpires ▸ hnow, hloaded, rfl⟩)
      · refine hnext.put process (hnext.cached process) fun w hw => ?_
        rcases List.mem_append.mp hw with hw | hw
        · exact hnext.waiting process w hw
        · obtain rfl := List.mem_singleton.mp hw
          exact ⟨⟨process, userPrompt, List.mem_append_right _ List.mem_cons_self⟩,
            fun exemplars he => by cases he⟩
    | answer process i rank =>
      refine hnext.put process (hnext.cached process) fun w hw => ?_
      obtain ⟨j, hj⟩ := List.mem_iff_getElem?.mp hw
      rw [List.getElem?_modify, Option.map_eq_map, Option.map_eq_some_iff] at hj
      obtain ⟨w', hw', rfl⟩ := hj
      obtain ⟨hasked, hloaded⟩ := hnext.waiting process w' (List.mem_of_getElem? hw')
      obtain ⟨⟨p, m, hbefore⟩, -⟩ := ih.waiting process w' (List.mem_of_getElem? hw')
      split_ifs
      · refine ⟨hasked, fun exemplars he => ?_⟩
        rcases Option.or_eq_some_iff.mp he with he | ⟨-, he⟩
        · exact hloaded exemplars he
        · -- the query of one that was asked before is answered now
          refine ⟨actions, [.answer process i rank], rank, rfl, ⟨p, m, hbefore⟩, ?_⟩
          rw [hs]
          exact (Option.some.inj he).symm
      · exact ⟨hasked, hloaded⟩
    | resume process i =>
      unfold Assistants.step
      dsimp only
      split
      · next w exemplars hw =>
        obtain ⟨w', hw', hread⟩ := Option.bind_eq_some_iff.mp hw
        obtain ⟨exemplars', happroved, heq⟩ := Option.map_eq_some_iff.mp hread
        obtain ⟨rfl, rfl⟩ := Prod.mk.inj heq
        have hloaded := (hnext.waiting process w' (List.mem_of_getElem? hw')).2 _ happroved
        refine Sourced.give (hnext.put process (fun c hc => ?_) fun w hw => ?_) (.inr ?_)
        · obtain rfl := Option.some.inj hc
          exact ⟨w'.now, rfl, hloaded⟩
        · exact hnext.waiting process w (List.mem_of_mem_eraseIdx hw)
        · exact ⟨w'.now, exemplars', Nat.le_add_right _ _, hloaded, rfl⟩
      · exact hnext
    | fail process i =>
      unfold Assistants.step
      dsimp only
      split
      · refine Sourced.give (hnext.put process ?_ fun w hw => ?_) (.inl ?_)
        · exact hnext.cached process
        · exact hnext.waiting process w (List.mem_of_mem_eraseIdx hw)
        · rfl
      · exact hnext
    | clearCache process =>
      exact hnext.put process (fun c hc => by cases hc) (hnext.waiting process)

theorem mem_approvedExemplars {db : LearningDb} {rank : ℕ → ℕ} {x : PromptExemplar}
    (h : x ∈ approvedExemplars db rank) : ∃ row ∈ db.exemplars, row.status = .approved ∧
      selected row = x := by
  obtain ⟨row, hrow, hx⟩ := List.mem_map.mp h
  have hmem := List.mem_of_mem_take hrow
  rw [List.mem_insertionSort] at hmem
  obtain ⟨hin, hstatus⟩ := List.mem_filter.mp hmem
  exact ⟨row, hin, by simpa using hstatus, hx⟩

theorem topExemplars_sublist (exemplars : List PromptExemplar) (userPrompt : String) :
    (topExemplars toLowerCase exemplars userPrompt).Sublist exemplars ∧
      (topExemplars toLowerCase exemplars userPrompt).length ≤ 5 := by
  unfold topExemplars
  dsimp only
  refine ⟨?_, List.length_take_le 5 _⟩
  split_ifs
  · exact (List.take_sublist 5 _).trans List.filter_sublist
  · exact List.take_sublist 5 _

theorem selected_of_follows {x y : AiLearnedExemplar} (h : Follows x y) : selected y = selected x := by
  rw [h.same]
  rfl

/-- However processes, prompts, evaluations and approvals overlap: what a prompt is given are at most
five exemplars, each approved by right and approved still at every later point; and they are those
that fit best among what one query found, asked for at most five minutes before. -/
theorem guidance_given (toLowerCase : String → String) (calls : List LearningCall)
    (hdrawn : Drawn calls) (actions later : List Action) :
    ∀ g ∈ ((launched calls).run toLowerCase actions).given,
      g.shown.length ≤ 5 ∧
      (∀ x ∈ g.shown, ∃ row ∈ ((launched calls).run toLowerCase (actions ++ later)).rows.exemplars,
        selected row = x ∧ row.status = .approved ∧ ApprovedBy calls row) ∧
      (g.shown ≠ [] → ∃ asked exemplars, g.now ≤ asked + cacheTtlMs ∧
        Loaded toLowerCase calls actions asked exemplars ∧
          g.shown = topExemplars toLowerCase exemplars g.userPrompt) := by
  intro g hg
  have hsource := (sourced_run actions).given g hg
  refine ⟨?_, fun x hx => ?_, fun hne => hsource.resolve_left hne⟩
  · rcases hsource with hnone | ⟨_, exemplars, -, -, hshown⟩
    · simp [hnone]
    · rw [hshown]
      exact (topExemplars_sublist exemplars g.userPrompt).2
  · rcases hsource with hnone | ⟨_, exemplars, -, ⟨early, late, rank, rfl, -, rfl⟩, hshown⟩
    · rw [hnone] at hx
      cases hx
    · rw [hshown] at hx
      obtain ⟨row, hrow, hstatus, rfl⟩ :=
        mem_approvedExemplars ((topExemplars_sublist _ _).1.subset hx)
      unfold Assistants.rows at hrow ⊢
      rw [learning_run] at hrow ⊢
      -- from the query on, the row is only followed by itself
      obtain ⟨-, -, row', hrow', hfollows⟩ := approved_by_right calls hdrawn (learnMoves early)
        (learnMoves (late ++ later)) row hrow
      have hmoves : learnMoves (early ++ late ++ later) =
          learnMoves early ++ learnMoves (late ++ later) := by
        simp [learnMoves]
      rw [hmoves]
      have happroved := hfollows.approved hstatus
      exact ⟨row', hrow', selected_of_follows hfollows, happroved,
        (approved_by_right calls hdrawn _ [] row' hrow').1 happroved⟩

end runs

def lowerText (text : String) : String := String.ofList (TextPatterns.toLowerCase text.toList)

/-- One prompt comes in while the turn is still evaluated, and another, of a second process, when
both evaluations are done. -/
def twoPrompts : List Action :=
  .prompt 0 5 "no, Sarah" :: (bothLearn.take 10).map .learn ++ [.answer 0 0 id, .resume 0 0] ++
    (bothLearn.drop 10).map .learn ++ [.prompt 1 6 "no, Sarah", .answer 1 0 id, .resume 1 0]

/-- The second prompt is shown what has recurred by then. -/
theorem guidance_given_recurred :
    ((launched learnedTwice).run lowerText twoPrompts).given.map
      (fun g => g.shown.map PromptExemplar.learnedGuidance) = [[], ["Ask who is meant."]] ∧
    ∀ g ∈ ((launched learnedTwice).run lowerText twoPrompts).given, ∀ x ∈ g.shown,
      ∃ row ∈ ((launched learnedTwice).run lowerText twoPrompts).rows.exemplars,
        selected row = x ∧ row.status = .approved ∧ ApprovedBy learnedTwice row := by
  refine ⟨by decide +kernel, fun g hg x hx => ?_⟩
  obtain ⟨-, hshown, -⟩ := guidance_given lowerText learnedTwice drawn_learnedTwice twoPrompts [] g hg
  rw [List.append_nil] at hshown
  exact hshown x hx

end Akabbo.PromptGuidance
