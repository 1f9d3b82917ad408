import Akabbo.CaptureStaging
import Akabbo.RedactedTraces
import Akabbo.RelyGuarantee

/-!
# What the assistant learns from its turns

Turns leave traces. An evaluation reads those it has not seen, asks the model for one piece of
guidance, and files it as an exemplar that waits for review. Guidance that comes up again, or that an
admin approves, is approved.
-/
namespace Akabbo.LearnedGuidance
open RowTable StatementProgram ReadCommitted RelyGuarantee TextPatterns RedactedTraces
open StatementProgram.Program (query modify modifyChecked accept commitNow)

inductive StagedStatus
  | none | confirmed | rejected | clarification
  deriving DecidableEq, Repr

structure AiInteractionTrace where
  id : ℕ
  conversationId : Option ℕ
  eventId : Option ℕ
  userId : Option ℕ
  userPrompt : String
  modelResponse : String
  toolCallsJson : String
  stagedStatus : StagedStatus
  userRole : Option String
  latencyMs : Option ℕ
  evaluated : Bool
  createdAt : ℕ
  deriving DecidableEq, Repr

inductive ExemplarStatus
  | pendingReview | approved
  deriving DecidableEq, Repr

/-- The confidence is in tenths. -/
structure AiLearnedExemplar where
  id : ℕ
  category : String
  triggerKeywords : List String
  userPromptPattern : String
  learnedGuidance : String
  confidenceScore : ℕ
  occurrenceCount : ℕ
  status : ExemplarStatus
  createdAt : ℕ
  deriving DecidableEq, Repr

structure IdentifiedGaps where
  rejectedCount : ℕ
  clarificationCount : ℕ
  tier1Suggestions : List String
  deriving DecidableEq, Repr

structure AiReflectionLog where
  id : ℕ
  evaluatedTurnsCount : ℕ
  insightsSummary : String
  identifiedGaps : IdentifiedGaps
  createdAt : ℕ
  deriving DecidableEq, Repr

structure LearningDb where
  traces : Table ℕ AiInteractionTrace AiInteractionTrace.id
  exemplars : Table ℕ AiLearnedExemplar AiLearnedExemplar.id
  reflectionLogs : Table ℕ AiReflectionLog AiReflectionLog.id

def LearningDb.empty : LearningDb := ⟨.empty, .empty, .empty⟩

inductive LearningLock
  | trace (id : ℕ)
  | exemplar (id : ℕ)
  | reflectionLog (id : ℕ)
  deriving DecidableEq, Repr

inductive LearningError
  | recordNotFound
  deriving DecidableEq, Repr

abbrev LearningProgram := Program LearningLock LearningDb LearningError

structure TelemetryInput where
  conversationId : Option ℕ := none
  eventId : Option ℕ := none
  userId : Option ℕ := none
  userPrompt : String
  modelResponse : Option String := none
  toolCallsJson : Option String := none
  stagedStatus : Option StagedStatus := none
  userRole : Option String := none
  latencyMs : Option ℕ := none
  deriving DecidableEq, Repr

/-- What an INSERT gets from the world. -/
structure RowDraw where
  id : ℕ
  now : ℕ
  deriving DecidableEq, Repr

def traceOf (input : TelemetryInput) (draw : RowDraw) : AiInteractionTrace :=
  { id := draw.id
    conversationId := input.conversationId
    eventId := input.eventId
    userId := input.userId
    userPrompt := redactPii (some input.userPrompt)
    modelResponse := redactPii input.modelResponse
    toolCallsJson := redactPii input.toolCallsJson
    stagedStatus := input.stagedStatus.getD .none
    userRole := input.userRole.filter (· ≠ "")
    latencyMs := input.latencyMs.filter (· ≠ 0)
    evaluated := false
    createdAt := draw.now }

/-- An INSERT that fails is only logged. -/
def recordTrace (input : TelemetryInput) (draw : RowDraw) : LearningProgram Unit :=
  modify (fun _ => [.trace draw.id]) fun db =>
    { db with traces := db.traces.insertNew (traceOf input draw) }

/-- What the assistant records of a turn that it answers; `staged` is how many actions the turn has
staged. -/
def turnTrace (eventId userId : Option ℕ) (message reply : String) (toolCallsJson : Option String)
    (staged : ℕ) (userRole : Option String) (latencyMs : ℕ) : TelemetryInput :=
  { eventId
    userId
    userPrompt := message
    modelResponse := some reply
    toolCallsJson
    stagedStatus := some (if 0 < staged then .confirmed else .none)
    userRole
    latencyMs := some latencyMs }

/-- `llm` answers the prompt, with a text or without, or fails. `rank` is the order that a query
leaves open. -/
structure EvaluationDraw where
  exemplarId : ℕ
  logId : ℕ
  now : ℕ
  tie : ℕ
  rank : ℕ → ℕ
  llm : String → Option (Option String)

structure EvaluationResult where
  evaluatedTurnsCount : ℕ
  confirmedCount : ℕ
  rejectedCount : ℕ
  clarificationCount : ℕ
  insightsSummary : String
  newExemplarsCount : ℕ
  tier1ParserSuggestions : Option (List String)
  deriving DecidableEq, Repr

/-- `where: { evaluated: false }`, oldest first. -/
def unevaluated (db : LearningDb) (rank : ℕ → ℕ) (limit : ℕ) : List AiInteractionTrace :=
  ((db.traces.rows.filter fun t => !t.evaluated).insertionSort fun a b =>
    a.createdAt < b.createdAt ∨ a.createdAt = b.createdAt ∧ rank a.id ≤ rank b.id).take limit

def withStatus (traces : List AiInteractionTrace) (status : StagedStatus) : List AiInteractionTrace :=
  traces.filter fun t => t.stagedStatus == status

def problem (trace : AiInteractionTrace) : String :=
  let tool := if trace.toolCallsJson = "" then "none" else redactPii (some trace.toolCallsJson)
  s!"Prompt: \"{redactPii (some trace.userPrompt)}\" -> Tool: {tool}"

def evalPrompt (problematic : List AiInteractionTrace) : String :=
  "\n".intercalate
    ["Analyze these anonymized AI interaction traces where users rejected an action or needed clarification:",
      "\n".intercalate ((problematic.map problem).take 10),
      "",
      "Provide 1 concise, generalized, PII-free exemplar for how the AI can improve its interpretation of similar requests in the future.",
      "IMPORTANT: Do NOT include any real names, phone numbers, or exact amounts."]

def distilledFrom (text : Option String) : String :=
  redactPii (text.map fun text => String.ofList (trim text.toList))

/-- Guidance that is long enough to keep. -/
def guidanceFrom (llm : String → Option (Option String)) (prompt : String) : Option String :=
  (llm prompt).bind fun text =>
    let distilled := distilledFrom text
    if 10 < CaptureStaging.textLength distilled then some distilled else none

/-- Only turns that went wrong are learnt from. -/
def distilledGuidance (llm : String → Option (Option String))
    (rejected clarifications : List AiInteractionTrace) : Option String :=
  if rejected = [] ∧ clarifications = [] then none
  else guidanceFrom llm (evalPrompt (rejected ++ clarifications))

def reflectionInsight (guidance : String) (draw : EvaluationDraw) : AiLearnedExemplar :=
  { id := draw.exemplarId
    category := "REFLECTION_INSIGHT"
    triggerKeywords := ["help", "correct", "pledge", "payment", "kwanjula"]
    userPromptPattern := "Reflection from rejected/clarified turns"
    learnedGuidance := guidance
    confidenceScore := 9
    occurrenceCount := 1
    status := .pendingReview
    createdAt := draw.now }

/-- `findFirst`: any of those that match. -/
def findInsight (db : LearningDb) (guidance : String) (tie : ℕ) : Option AiLearnedExemplar :=
  let found := db.exemplars.rows.filter fun x =>
    x.category == "REFLECTION_INSIGHT" && x.learnedGuidance == guidance
  found[tie % found.length]?

def updateExemplar (id : ℕ) (f : AiLearnedExemplar → AiLearnedExemplar) (hf : ∀ x, (f x).id = x.id)
    (db : LearningDb) : LearningDb :=
  { db with exemplars := db.exemplars.update (fun x => x.id == id) f hf }

def insertExemplar (row : AiLearnedExemplar) (db : LearningDb) : LearningDb :=
  { db with exemplars := db.exemplars.insertNew row }

/-- Files guidance, and returns how many exemplars are new. The count and the status are those that
were read. -/
def fileInsight (guidance : String) (draw : EvaluationDraw) : LearningProgram ℕ := do
  let existing ← query fun db => findInsight db guidance draw.tie
  match existing with
  | some existing =>
      let updatedCount := existing.occurrenceCount + 1
      let newStatus := if 2 ≤ updatedCount then .approved else existing.status
      modify (fun _ => [.exemplar existing.id]) (updateExemplar existing.id
        (fun x => { x with occurrenceCount := updatedCount, status := newStatus }) fun _ => rfl)
      commitNow
      return 0
  | none =>
      -- an id that is taken is an error, which is caught
      let created ← Program.write (fun _ => [.exemplar draw.exemplarId])
        (fun db => !db.exemplars.has draw.exemplarId)
        (fun _ => insertExemplar (reflectionInsight guidance draw)) .pure
      commitNow
      return if created then 1 else 0

def fileGuidance (guidance : Option String) (draw : EvaluationDraw) : LearningProgram ℕ :=
  match guidance with
  | some guidance => fileInsight guidance draw
  | none => pure 0

def tier1Suggestion : String :=
  "Suggested tier1-parser.ts regex addition: /^(record|add|paid)\\s+(\\d+k?)\\s+from\\s+([a-z\\s]+)/i for direct contribution logging"

def markEvaluated (ids : List ℕ) (db : LearningDb) : LearningDb :=
  { db with
    traces := db.traces.update (fun t => ids.contains t.id) (fun t => { t with evaluated := true })
      fun _ => rfl }

def insertLog (row : AiReflectionLog) (db : LearningDb) : LearningDb :=
  { db with reflectionLogs := db.reflectionLogs.insertNew row }

def runEvaluationCycle (limit : ℕ) (draw : EvaluationDraw) : LearningProgram EvaluationResult := do
  let traces ← query fun db => unevaluated db draw.rank limit
  if traces = [] then
    return ⟨0, 0, 0, 0, "No un-evaluated interaction traces found.", 0, none⟩
  else do
    let confirmed := withStatus traces .confirmed
    let rejected := withStatus traces .rejected
    let clarifications := withStatus traces .clarification
    let summary := [s!"Evaluated {traces.length} un-evaluated interaction turns:",
      s!"• {confirmed.length} actions confirmed by users.",
      s!"• {rejected.length} actions rejected/cancelled by users.",
      s!"• {clarifications.length} turns required user clarification."]
    let guidance := distilledGuidance draw.llm rejected clarifications
    let newExemplarsCount ← fileGuidance guidance draw
    let summaryParts := summary ++ (guidance.map fun g => s!"\nDistilled Anonymized Insight:\n{g}").toList
    let tier1Suggestions := if 3 < confirmed.length then [tier1Suggestion] else []
    modify (fun _ => traces.map fun t => .trace t.id) (markEvaluated (traces.map (·.id)))
    commitNow
    let insightsSummary := "\n".intercalate summaryParts
    modify (fun _ => [.reflectionLog draw.logId]) (insertLog
      { id := draw.logId
        evaluatedTurnsCount := traces.length
        insightsSummary
        identifiedGaps := ⟨rejected.length, clarifications.length, tier1Suggestions⟩
        createdAt := draw.now })
    commitNow
    return ⟨traces.length, confirmed.length, rejected.length, clarifications.length,
      insightsSummary, newExemplarsCount, some tier1Suggestions⟩

def approveExemplar (exemplarId : ℕ) : LearningProgram Unit :=
  modifyChecked (fun _ => [.exemplar exemplarId])
    (fun db => accept (if db.exemplars.has exemplarId then none else some .recordNotFound))
    (updateExemplar exemplarId (fun x => { x with status := .approved }) fun _ => rfl)

/-- What the launch of a process gets: an id for each exemplar, and the time. -/
structure SeedDraw where
  ids : ℕ → ℕ
  now : ℕ

def curated (category : String) (triggerKeywords : List String)
    (userPromptPattern learnedGuidance : String) : SeedDraw → ℕ → AiLearnedExemplar :=
  fun draw i => ⟨draw.ids i, category, triggerKeywords, userPromptPattern, learnedGuidance, 10, 5,
    .approved, draw.now⟩

def seedRows (draw : SeedDraw) : List AiLearnedExemplar :=
  [curated "KWANJULA_CULTURAL_GIFTS"
      ["kwanjula", "amakanzu", "omutwalo", "ebibo", "amajani", "mutwalo"]
      "Extract budget items for Kwanjula"
      "When users upload or mention Kwanjula items (Amakanzu, Omutwalo, Ebibo, Amajani), group them under Cultural Introduction Budget items."
      draw 0,
    curated "FUNERAL_MABEGO_RAISING" ["funeral", "burial", "mabego", "condolence", "vigil"]
      "Funeral / Mabego contribution tracking"
      "For funeral (Mabego) events, prioritize rapid contribution recording and generate public transparency dashboard links."
      draw 1,
    curated "MOMO_SCREENSHOT_RECEIPT"
      ["momo", "screenshot", "mobile money", "mtn", "airtel", "receipt"]
      "Extract Mobile Money contribution screenshot"
      "When a Mobile Money receipt/screenshot is uploaded, extract the sender name, transaction ID, and amount, then stage for confirmation."
      draw 2,
    curated "PAYMENT_CORRECTION" ["correct", "wrong", "mistake", "payment", "pledge"]
      "Correct payment amount for contributor"
      "When a user asks to correct a payment or pledge, use `correct_payment` or `correct_pledge` and stage for explicit confirmation."
      draw 3,
    curated "ROLE_EXPLANATION" ["invite", "role", "permission", "coordinator", "finance"]
      "Attempting restricted role action"
      "Always explain what the user CAN do based on their assigned role before stating restricted capabilities."
      draw 4]

/-- One INSERT of all of them; what fails is only logged. -/
def insertSeeds (rows : List AiLearnedExemplar) (db : LearningDb) : LearningDb :=
  if rows.any fun x => db.exemplars.has x.id then db
  else rows.foldl (fun db x => insertExemplar x db) db

def seedInitialExemplars (draw : SeedDraw) : LearningProgram Unit := do
  let count ← query fun db => db.exemplars.rows.length
  if 0 < count then return ()
  else modify (fun _ => (seedRows draw).map fun x => .exemplar x.id) (insertSeeds (seedRows draw))

inductive LearningCall
  | recordTrace (input : TelemetryInput) (draw : RowDraw)
  | runEvaluationCycle (limit : ℕ) (draw : EvaluationDraw)
  | approveExemplar (exemplarId : ℕ)
  | seedInitialExemplars (draw : SeedDraw)

def LearningCall.program : LearningCall → LearningProgram (Option EvaluationResult)
  | .recordTrace input draw => (fun _ => none) <$> LearnedGuidance.recordTrace input draw
  | .runEvaluationCycle limit draw => some <$> LearnedGuidance.runEvaluationCycle limit draw
  | .approveExemplar exemplarId => (fun _ => none) <$> LearnedGuidance.approveExemplar exemplarId
  | .seedInitialExemplars draw => (fun _ => none) <$> LearnedGuidance.seedInitialExemplars draw

abbrev LearningSystem := System LearningLock LearningDb LearningError (Option EvaluationResult)

def system (calls : List LearningCall) : LearningSystem :=
  System.begin .empty (calls.map LearningCall.program)

/-- The ids that a call gives to exemplars. -/
def LearningCall.exemplarIds : LearningCall → ℕ → Prop
  | .runEvaluationCycle _ draw, id => id = draw.exemplarId
  | .seedInitialExemplars draw, id => ∃ i, id = draw.ids i
  | _, _ => False

/-- The same exemplar later: it may have come up again, and is not taken back. -/
structure Follows (x x' : AiLearnedExemplar) : Prop where
  same : x' = { x with occurrenceCount := x'.occurrenceCount, status := x'.status }
  approved : x.status = .approved → x'.status = .approved

theorem follows_refl (x : AiLearnedExemplar) : Follows x x := ⟨rfl, id⟩

theorem Follows.trans {x y z : AiLearnedExemplar} (h : Follows x y) (h' : Follows y z) : Follows x z where
  same := by
    rw [h'.same, h.same]
  approved ha := h'.approved (h.approved ha)

theorem Follows.id_eq {x y : AiLearnedExemplar} (h : Follows x y) : y.id = x.id := by rw [h.same]

theorem Follows.guidance_eq {x y : AiLearnedExemplar} (h : Follows x y) :
    y.learnedGuidance = x.learnedGuidance := by rw [h.same]

theorem Follows.category_eq {x y : AiLearnedExemplar} (h : Follows x y) : y.category = x.category := by
  rw [h.same]

def Kept (a b : LearningDb) : Prop := ∀ x ∈ a.exemplars, ∃ x' ∈ b.exemplars, Follows x x'

theorem kept_same {a b : LearningDb} (h : b.exemplars = a.exemplars) : Kept a b :=
  fun x hx => ⟨x, h ▸ hx, follows_refl x⟩

theorem kept_trans (a b c : LearningDb) (h : Kept a b) (h' : Kept b c) : Kept a c := by
  intro x hx
  obtain ⟨y, hy, hxy⟩ := h x hx
  obtain ⟨z, hz, hyz⟩ := h' y hy
  exact ⟨z, hz, hxy.trans hyz⟩

theorem kept_insertExemplar (row : AiLearnedExemplar) (db : LearningDb) :
    Kept db (insertExemplar row db) :=
  fun x hx => ⟨x, Table.mem_insertNew_of_mem hx, follows_refl x⟩

section calls
variable (calls : List LearningCall)

/-- A trace that one of the calls has left, evaluated or not. -/
def Recorded (x : AiInteractionTrace) : Prop :=
  ∃ (t : ℕ) (input : TelemetryInput) (draw : RowDraw), calls[t]? = some (.recordTrace input draw) ∧
    x = { traceOf input draw with evaluated := x.evaluated }

/-- A trace of a turn that went wrong. -/
def Problematic (x : AiInteractionTrace) : Prop :=
  Recorded calls x ∧ (x.stagedStatus = .rejected ∨ x.stagedStatus = .clarification)

/-- The call's model answers this when it is shown turns that went wrong. -/
def Distills (c : LearningCall) (guidance : String) : Prop :=
  ∃ limit draw problems, c = .runEvaluationCycle limit draw ∧ problems ≠ [] ∧
    (∀ x ∈ problems, Problematic calls x) ∧
    guidanceFrom draw.llm (evalPrompt problems) = some guidance

/-- The call that has made an exemplar. -/
inductive Filed (x : AiLearnedExemplar) : Prop
  | seeded {t : ℕ} {draw : SeedDraw} {y : AiLearnedExemplar}
      (hcall : calls[t]? = some (.seedInitialExemplars draw)) (hy : y ∈ seedRows draw)
      (hfollows : Follows y x) : Filed x
  | distilled {t limit : ℕ} {draw : EvaluationDraw} {guidance : String}
      (hcall : calls[t]? = some (.runEvaluationCycle limit draw))
      (hdistills : Distills calls (.runEvaluationCycle limit draw) guidance)
      (hfollows : Follows (reflectionInsight guidance draw) x) : Filed x

/-- What an exemplar is approved by: being one of the first, an admin, or two evaluations that have
come to the same guidance. -/
inductive ApprovedBy (x : AiLearnedExemplar) : Prop
  | seeded {t : ℕ} {draw : SeedDraw} {y : AiLearnedExemplar}
      (hcall : calls[t]? = some (.seedInitialExemplars draw)) (hy : y ∈ seedRows draw)
      (hfollows : Follows y x) : ApprovedBy x
  | reviewed {t : ℕ} (hcall : calls[t]? = some (.approveExemplar x.id)) : ApprovedBy x
  | recurred {t u : ℕ} {c c' : LearningCall} (hne : t ≠ u) (ht : calls[t]? = some c)
      (hu : calls[u]? = some c') (h : Distills calls c x.learnedGuidance)
      (h' : Distills calls c' x.learnedGuidance) : ApprovedBy x

structure Justified (x : AiLearnedExemplar) : Prop where
  filed : Filed calls x
  approved : x.status = .approved → ApprovedBy calls x
  counted : 1 ≤ x.occurrenceCount

structure Sound (db : LearningDb) : Prop where
  exemplars : ∀ x ∈ db.exemplars, Justified calls x
  traces : ∀ x ∈ db.traces, Recorded calls x

/-- An evaluation that has come to anything has seen a turn that went wrong. -/
def Grounded (result : Option EvaluationResult) : Prop :=
  ∀ r, result = some r → 0 < r.rejectedCount + r.clarificationCount + r.newExemplarsCount →
    ∃ x, Problematic calls x

/-- The calls give no id twice. -/
def Drawn : Prop :=
  ∀ (t u : ℕ) c c' id, calls[t]? = some c → calls[u]? = some c' → c.exemplarIds id →
    c'.exemplarIds id → t = u

/-- What the others do to a call: they leave its ids alone. -/
structure Relies (t : ℕ) (a b : LearningDb) : Prop where
  kept : Kept a b
  sound : Sound calls a → Sound calls b
  spared : ∀ c id, calls[t]? = some c → c.exemplarIds id → b.exemplars.has id = true →
    a.exemplars.has id = true

/-- What a call does: new exemplars get its own ids. -/
structure Guarantees (t : ℕ) (a b : LearningDb) : Prop where
  kept : Kept a b
  sound : Sound calls a → Sound calls b
  own : ∀ id, b.exemplars.has id = true → a.exemplars.has id = true ∨
    ∃ c, calls[t]? = some c ∧ c.exemplarIds id

variable {calls} {t : ℕ} {a b : LearningDb}

theorem Filed.follows {x y : AiLearnedExemplar} (h : Filed calls x) (hxy : Follows x y) :
    Filed calls y := by
  cases h with
  | seeded hcall hy hfollows => exact .seeded hcall hy (hfollows.trans hxy)
  | distilled hcall hdistills hfollows => exact .distilled hcall hdistills (hfollows.trans hxy)

theorem ApprovedBy.follows {x y : AiLearnedExemplar} (h : ApprovedBy calls x) (hxy : Follows x y) :
    ApprovedBy calls y := by
  cases h with
  | seeded hcall hy hfollows => exact .seeded hcall hy (hfollows.trans hxy)
  | reviewed hcall =>
    rw [← hxy.id_eq] at hcall
    exact .reviewed hcall
  | recurred hne ht hu h h' =>
    rw [← hxy.guidance_eq] at h h'
    exact .recurred hne ht hu h h'

theorem relies_refl (t : ℕ) (a : LearningDb) : Relies calls t a a :=
  ⟨kept_same rfl, id, fun _ _ _ _ h => h⟩

theorem relies_trans (t : ℕ) (a b c : LearningDb) (h : Relies calls t a b) (h' : Relies calls t b c) :
    Relies calls t a c where
  kept := kept_trans a b c h.kept h'.kept
  sound ha := h'.sound (h.sound ha)
  spared c id hc hid hhas := h.spared c id hc hid (h'.spared c id hc hid hhas)

theorem guarantees_traces (h : b.exemplars = a.exemplars)
    (htraces : Sound calls a → ∀ x ∈ b.traces, Recorded calls x) : Guarantees calls t a b where
  kept := kept_same h
  sound ha := ⟨fun x hx => ha.exemplars x (h ▸ hx), htraces ha⟩
  own _ hid := .inl (h ▸ hid)

theorem guarantees_same (h : b.exemplars = a.exemplars) (h' : b.traces = a.traces) :
    Guarantees calls t a b := guarantees_traces h fun ha x hx => ha.traces x (h' ▸ hx)

theorem guarantees_recordTrace {input : TelemetryInput} {draw : RowDraw}
    (hcall : calls[t]? = some (.recordTrace input draw)) :
    Guarantees calls t a { a with traces := a.traces.insertNew (traceOf input draw) } := by
  refine guarantees_traces rfl fun ha x hx => ?_
  rcases Table.mem_insertNew_cases hx with hx | rfl
  · exact ha.traces x hx
  · exact ⟨t, input, draw, hcall, rfl⟩

theorem guarantees_markEvaluated (ids : List ℕ) : Guarantees calls t a (markEvaluated ids a) := by
  refine guarantees_traces rfl fun ha x hx => ?_
  unfold markEvaluated at hx
  rw [Table.mem_update] at hx
  obtain ⟨r, hr, rfl⟩ := hx
  obtain ⟨u, input, draw, hcall, hsame⟩ := ha.traces r hr
  split_ifs
  · exact ⟨u, input, draw, hcall, by rw [hsame]⟩
  · exact ⟨u, input, draw, hcall, hsame⟩

theorem compatible (hdrawn : Drawn calls) :
    Compatible (Relies calls) (Guarantees calls) (fun _ result _ => Grounded calls result)
      (Sound calls) where
  refl := relies_refl
  trans := relies_trans
  relied t u a b hne h := by
    refine ⟨h.kept, h.sound, fun c id hc hid hhas => ?_⟩
    rcases h.own id hhas with hold | ⟨c', hc', hid'⟩
    · exact hold
    · exact absurd (hdrawn t u c' c id hc' hc hid' hid) hne
  left _ _ _ _ _ _ h _ := h
  invariant _ _ _ ha h := h.sound ha

theorem mem_updateExemplar {id : ℕ} {f : AiLearnedExemplar → AiLearnedExemplar}
    (hf : ∀ x, (f x).id = x.id) {x : AiLearnedExemplar} : x ∈ (updateExemplar id f hf a).exemplars ↔
      ∃ r ∈ a.exemplars, x = if r.id == id then f r else r := by
  unfold updateExemplar
  rw [Table.mem_update]

theorem guarantees_update {id : ℕ} {f : AiLearnedExemplar → AiLearnedExemplar}
    (hf : ∀ x, (f x).id = x.id) (hfollows : Sound calls a → ∀ x ∈ a.exemplars, x.id = id → Follows x (f x))
    (hjustified : Sound calls a → ∀ x ∈ a.exemplars, x.id = id → Justified calls (f x))
    (ha : Sound calls a) : Guarantees calls t a (updateExemplar id f hf a) where
  kept x hx := by
    refine ⟨_, (mem_updateExemplar hf).mpr ⟨x, hx, rfl⟩, ?_⟩
    split_ifs with hid
    · exact hfollows ha x hx (by simpa using hid)
    · exact follows_refl x
  sound _ := by
    refine ⟨fun x hx => ?_, ha.traces⟩
    obtain ⟨r, hr, rfl⟩ := (mem_updateExemplar hf).mp hx
    split_ifs with hid
    · exact hjustified ha r hr (by simpa using hid)
    · exact ha.exemplars r hr
  own i hi := by
    obtain ⟨x, hx, rfl⟩ := Table.has_iff.mp hi
    obtain ⟨r, hr, rfl⟩ := (mem_updateExemplar hf).mp hx
    refine .inl (Table.has_iff.mpr ⟨r, hr, ?_⟩)
    split_ifs
    · exact (hf r).symm
    · rfl

theorem guarantees_insert {c : LearningCall} {row : AiLearnedExemplar} (hcall : calls[t]? = some c)
    (hid : c.exemplarIds row.id) (hrow : Justified calls row) :
    Guarantees calls t a (insertExemplar row a) where
  kept := kept_insertExemplar row a
  sound ha := by
    refine ⟨fun x hx => ?_, ha.traces⟩
    rcases Table.mem_insertNew_cases hx with hx | rfl
    · exact ha.exemplars x hx
    · exact hrow
  own i hi := by
    obtain ⟨x, hx, rfl⟩ := Table.has_iff.mp hi
    rcases Table.mem_insertNew_cases hx with hx | rfl
    · exact .inl (Table.has_iff.mpr ⟨x, hx, rfl⟩)
    · exact .inr ⟨c, hcall, hid⟩

theorem guarantees_trans {c : LearningDb} (h : Guarantees calls t a b) (h' : Guarantees calls t b c) :
    Guarantees calls t a c where
  kept := kept_trans a b c h.kept h'.kept
  sound ha := h'.sound (h.sound ha)
  own i hi := by
    rcases h'.own i hi with hb | hown
    · exact h.own i hb
    · exact .inr hown

theorem seedRow_own {draw : SeedDraw} {x : AiLearnedExemplar} (hx : x ∈ seedRows draw) :
    (∃ i, x.id = draw.ids i) ∧ x.status = .approved ∧ 1 ≤ x.occurrenceCount ∧
      x.category ≠ "REFLECTION_INSIGHT" := by
  simp only [seedRows, List.mem_cons, List.not_mem_nil, or_false] at hx
  rcases hx with rfl | rfl | rfl | rfl | rfl <;>
    exact ⟨⟨_, rfl⟩, rfl, by simp [curated], by simp [curated]⟩

theorem guarantees_seeds {draw : SeedDraw} (hcall : calls[t]? = some (.seedInitialExemplars draw)) :
    Guarantees calls t a (insertSeeds (seedRows draw) a) := by
  have hall : ∀ (rows : List AiLearnedExemplar) (a : LearningDb), (∀ x ∈ rows, x ∈ seedRows draw) →
      Guarantees calls t a (rows.foldl (fun db x => insertExemplar x db) a) := by
    intro rows
    induction rows with
    | nil => exact fun a _ => guarantees_same rfl rfl
    | cons x rows ih =>
      intro a hrows
      have hx := hrows x List.mem_cons_self
      obtain ⟨hid, -, hcount, -⟩ := seedRow_own hx
      refine guarantees_trans (guarantees_insert hcall hid ⟨.seeded hcall hx (follows_refl x),
        fun _ => .seeded hcall hx (follows_refl x), hcount⟩) ?_
      exact ih _ fun y hy => hrows y (List.mem_cons_of_mem _ hy)
  unfold insertSeeds
  split_ifs
  · exact guarantees_same rfl rfl
  · exact hall _ a fun _ hx => hx

variable {v : LearningDb} {f : LearningDb → LearningDb} {dirty : Bool}

/-- What an evaluation ends with: nothing pending, rows that are sound, and a result that is `P`. -/
def Ended (calls : List LearningCall) {α : Type} (P : α → Prop) (result : α) (dirty : Bool)
    (f : LearningDb → LearningDb) (v : LearningDb) : Prop :=
  dirty = false ∧ f = id ∧ Sound calls v ∧ P result

theorem findInsight_mem {guidance : String} {tie : ℕ} {x : AiLearnedExemplar}
    (h : findInsight v guidance tie = some x) : x ∈ v.exemplars ∧ x.learnedGuidance = guidance := by
  have hmem := List.mem_of_getElem? h
  rw [List.mem_filter] at hmem
  exact ⟨hmem.1, by simpa using (Bool.and_eq_true_iff.mp hmem.2).2⟩

/-- An exemplar that another call has made comes up again. -/
theorem recurs {limit : ℕ} {draw : EvaluationDraw} {guidance : String} {x : AiLearnedExemplar}
    (hcall : calls[t]? = some (.runEvaluationCycle limit draw))
    (hdistills : Distills calls (.runEvaluationCycle limit draw) guidance) (hx : Justified calls x)
    (hguidance : x.learnedGuidance = guidance) (hother : x.id ≠ draw.exemplarId) :
    ApprovedBy calls x := by
  cases hx.filed with
  | seeded hseed hy hfollows => exact .seeded hseed hy hfollows
  | @distilled u limit' draw' guidance' hmade hdistills' hfollows =>
    refine .recurred (t := t) (u := u) ?_ hcall hmade (hguidance ▸ hdistills) ?_
    · rintro rfl
      obtain ⟨rfl, rfl⟩ := LearningCall.runEvaluationCycle.inj
        (Option.some.inj (hmade.symm.trans hcall))
      exact hother hfollows.id_eq
    · rw [hfollows.guidance_eq]
      exact hdistills'

theorem abides_fileInsight {limit : ℕ} {draw : EvaluationDraw} {guidance : String}
    (hcall : calls[t]? = some (.runEvaluationCycle limit draw))
    (hdistills : Distills calls (.runEvaluationCycle limit draw) guidance)
    (hfree : v.exemplars.has draw.exemplarId = false) (hv : Sound calls v) :
    Abides (Relies calls t) (Guarantees calls t) (Ended calls fun _ => True)
      (fileInsight guidance draw) false id v := by
  refine abides_query_bind fun s₁ hs₁ => ?_
  have hsound := hs₁.sound hv
  rw [id_eq]
  cases hfound : findInsight s₁ guidance draw.tie with
  | some x =>
    obtain ⟨hx, hguidance⟩ := findInsight_mem hfound
    have hcount := (hsound.exemplars x hx).counted
    have hother : x.id ≠ draw.exemplarId := by
      intro hid
      have hhas := hs₁.spared _ _ hcall rfl (Table.has_iff.mpr ⟨x, hx, hid⟩)
      rw [hfree] at hhas
      cases hhas
    dsimp only
    refine abides_modify_bind fun s₂ hs₂ => abides_commitNow_bind fun s₃ hs₃ => ?_
    have hsound₃ := hs₃.sound (hs₂.sound hsound)
    have hguarantees : Guarantees calls t s₃ (updateExemplar x.id (fun y => { y with
        occurrenceCount := x.occurrenceCount + 1
        status := if 2 ≤ x.occurrenceCount + 1 then .approved else x.status }) (fun _ => rfl) s₃) := by
      refine guarantees_update _ (fun _ y _ _ => ⟨rfl, fun _ => if_pos (by omega)⟩)
        (fun hs y hy hid => ?_) hsound₃
      have hfollows : Follows y { y with
          occurrenceCount := x.occurrenceCount + 1
          status := if 2 ≤ x.occurrenceCount + 1 then .approved else x.status } :=
        ⟨rfl, fun _ => if_pos (by omega)⟩
      -- the row is still the one that was read
      obtain ⟨x', hx', hxx'⟩ := (relies_trans t _ _ _ hs₂ hs₃).kept x hx
      obtain rfl : y = x' := Table.key_inj hy hx' (hid.trans hxx'.id_eq.symm)
      refine ⟨(hs.exemplars y hy).filed.follows hfollows, fun _ => ?_, by simp⟩
      exact (recurs hcall hdistills (hs.exemplars y hy) (hxx'.guidance_eq.trans hguidance)
        (hid ▸ hother)).follows hfollows
    exact ⟨hguarantees, rfl, rfl, hguarantees.sound hsound₃, trivial⟩
  | none =>
    dsimp only
    refine abides_write_bind fun s₂ hs₂ => abides_commitNow_bind fun s₃ hs₃ => ?_
    have hguarantees : Guarantees calls t s₃ (insertExemplar (reflectionInsight guidance draw) s₃) :=
      guarantees_insert hcall rfl ⟨.distilled hcall hdistills (follows_refl _), by
        simp [reflectionInsight], le_rfl⟩
    exact ⟨hguarantees, rfl, rfl, hguarantees.sound (hs₃.sound (hs₂.sound hsound)), trivial⟩

theorem mem_withStatus {traces : List AiInteractionTrace} {status : StagedStatus}
    {x : AiInteractionTrace} : x ∈ withStatus traces status ↔ x ∈ traces ∧ x.stagedStatus = status := by
  simp [withStatus]

theorem mem_unevaluated {rank : ℕ → ℕ} {limit : ℕ} {x : AiInteractionTrace}
    (h : x ∈ unevaluated v rank limit) : x ∈ v.traces := by
  have hmem := List.mem_of_mem_take h
  rw [List.mem_insertionSort] at hmem
  exact (List.mem_filter.mp hmem).1

/-- The turns that an evaluation learns from are problematic ones of the calls. -/
theorem problems_of_read (hv : Sound calls v) {rank : ℕ → ℕ} {limit : ℕ} {x : AiInteractionTrace}
    (h : x ∈ withStatus (unevaluated v rank limit) .rejected ++
      withStatus (unevaluated v rank limit) .clarification) : Problematic calls x := by
  rcases List.mem_append.mp h with h | h
  · obtain ⟨hread, hstatus⟩ := mem_withStatus.mp h
    exact ⟨hv.traces x (mem_unevaluated hread), .inl hstatus⟩
  · obtain ⟨hread, hstatus⟩ := mem_withStatus.mp h
    exact ⟨hv.traces x (mem_unevaluated hread), .inr hstatus⟩

theorem abides_fileGuidance {limit : ℕ} {draw : EvaluationDraw}
    {rejected clarifications : List AiInteractionTrace}
    (hcall : calls[t]? = some (.runEvaluationCycle limit draw))
    (hproblems : ∀ x ∈ rejected ++ clarifications, Problematic calls x)
    (hfree : v.exemplars.has draw.exemplarId = false) (hv : Sound calls v) :
    Abides (Relies calls t) (Guarantees calls t)
      (Ended calls fun n => 0 < n → rejected ++ clarifications ≠ [])
      (fileGuidance (distilledGuidance draw.llm rejected clarifications) draw) false id v := by
  cases hguidance : distilledGuidance draw.llm rejected clarifications with
  | none => exact ⟨rfl, rfl, hv, fun h => absurd h (lt_irrefl 0)⟩
  | some guidance =>
    unfold distilledGuidance at hguidance
    split_ifs at hguidance with hnone
    have hne : rejected ++ clarifications ≠ [] := by simpa using hnone
    refine abides_mono ?_ (abides_fileInsight hcall
      ⟨limit, draw, _, rfl, hne, hproblems, hguidance⟩ hfree hv)
    rintro n dirty f s ⟨hdirty, hf, hs, -⟩
    exact ⟨hdirty, hf, hs, fun _ => hne⟩

theorem abides_runEvaluationCycle {limit : ℕ} {draw : EvaluationDraw}
    (hcall : calls[t]? = some (.runEvaluationCycle limit draw))
    (hfree : v.exemplars.has draw.exemplarId = false) (hv : Sound calls v) :
    Abides (Relies calls t) (Guarantees calls t) (Ended calls fun result => Grounded calls (some result))
      (runEvaluationCycle limit draw) false id v := by
  refine abides_query_bind fun s₁ hs₁ => ?_
  have hsound := hs₁.sound hv
  have hfree₁ : s₁.exemplars.has draw.exemplarId = false := by
    by_contra hhas
    rw [hs₁.spared _ _ hcall rfl (by simpa using hhas)] at hfree
    cases hfree
  dsimp only [id_eq]
  by_cases hempty : unevaluated s₁ draw.rank limit = []
  · rw [if_pos hempty]
    refine ⟨rfl, rfl, hsound, fun r hr hsome => ?_⟩
    obtain rfl := Option.some.inj hr
    exact absurd hsome (lt_irrefl 0)
  · rw [if_neg hempty]
    have hproblems := fun x hx => @problems_of_read _ _ hsound draw.rank limit x hx
    refine abides_bind (abides_mono ?_ (abides_fileGuidance hcall hproblems hfree₁ hsound))
    rintro n dirty f s ⟨rfl, rfl, hs, hnew⟩
    refine abides_modify_bind fun s₂ hs₂ => abides_commitNow_bind fun s₃ hs₃ => ?_
    have hmarks := @guarantees_markEvaluated calls t s₃ ((unevaluated s₁ draw.rank limit).map (·.id))
    refine ⟨hmarks, abides_modify_bind fun s₄ hs₄ => abides_commitNow_bind fun s₅ hs₅ => ?_⟩
    have hlast := hs₅.sound (hs₄.sound (hmarks.sound (hs₃.sound (hs₂.sound hs))))
    refine ⟨guarantees_same rfl rfl, rfl, rfl, ⟨hlast.exemplars, hlast.traces⟩, fun r hr hsome => ?_⟩
    -- whatever is counted comes from a turn that was read
    obtain rfl := Option.some.inj hr
    have hne : withStatus (unevaluated s₁ draw.rank limit) .rejected ++
        withStatus (unevaluated s₁ draw.rank limit) .clarification ≠ [] := by
      intro hnone
      obtain ⟨hrejected, hclarified⟩ := List.append_eq_nil_iff.mp hnone
      have hn : n = 0 := by
        by_contra hn
        exact hnew (Nat.pos_of_ne_zero hn) hnone
      simp [hrejected, hclarified, hn] at hsome
    obtain ⟨x, hx⟩ := List.exists_mem_of_ne_nil _ hne
    exact ⟨x, hproblems x hx⟩

theorem abides_call {c : LearningCall} (hcall : calls[t]? = some c)
    (hfree : ∀ id, c.exemplarIds id → v.exemplars.has id = false) (hv : Sound calls v) :
    Abides (Relies calls t) (Guarantees calls t)
      (Leaves (Relies calls t) (Guarantees calls t) fun result _ => Grounded calls result) c.program
      false id v := by
  have hsilent : Grounded calls none := fun r hr => by cases hr
  cases c with
  | recordTrace input draw =>
    exact abides_map fun _ _ _ _ => ⟨guarantees_recordTrace hcall, hsilent⟩
  | runEvaluationCycle limit draw =>
    refine abides_map (abides_mono ?_ (abides_runEvaluationCycle hcall (hfree _ rfl) hv))
    rintro result dirty f s ⟨rfl, rfl, -, hgrounded⟩ s' -
    exact ⟨guarantees_same rfl rfl, hgrounded⟩
  | approveExemplar exemplarId =>
    refine abides_map ?_
    rw [← bind_pure (LearnedGuidance.approveExemplar exemplarId)]
    refine abides_modifyChecked_bind fun s hs _ _ s' hs' => ⟨?_, hsilent⟩
    have hfollows (x : AiLearnedExemplar) : Follows x { x with status := .approved } :=
      ⟨rfl, fun _ => rfl⟩
    refine guarantees_update _ (fun _ x _ _ => hfollows x) (fun h x hx hid => ?_)
      (hs'.sound (hs.sound hv))
    have hx := h.exemplars x hx
    exact ⟨hx.filed.follows (hfollows x), fun _ => .reviewed (hid ▸ hcall), hx.counted⟩
  | seedInitialExemplars draw =>
    refine abides_map (abides_query_bind fun s hs => ?_)
    split_ifs
    · exact fun _ _ => ⟨guarantees_same rfl rfl, hsilent⟩
    · exact fun _ _ _ _ => ⟨guarantees_seeds hcall, hsilent⟩

theorem secured_system (hdrawn : Drawn calls) (moves : List Move) :
    Secured (Relies calls) (Guarantees calls) (fun _ result _ => Grounded calls result) (Sound calls)
      ((system calls).run moves) := by
  have hempty : Sound calls .empty :=
    ⟨fun x hx => absurd hx (Table.not_mem_empty x), fun x hx => absurd hx (Table.not_mem_empty x)⟩
  exact secured_run (compatible hdrawn) (secured_begin hempty fun t c hcall =>
    abides_call hcall (fun _ _ => rfl) hempty) moves

end calls

theorem redactPii_distilledFrom (text : Option String) :
    redactPii (some (distilledFrom text)) = distilledFrom text := by
  unfold distilledFrom
  cases text with
  | none => rfl
  | some text =>
    rw [Option.map_some, redactPii_some, redactPii_some, String.toList_ofList, redacted_redacted]

theorem redacted_of_distills {calls : List LearningCall} {c : LearningCall} {guidance : String}
    (h : Distills calls c guidance) : redactPii (some guidance) = guidance := by
  obtain ⟨limit, draw, problems, -, -, -, hguidance⟩ := h
  obtain ⟨text, -, htext⟩ := Option.bind_eq_some_iff.mp hguidance
  dsimp only at htext
  split_ifs at htext
  obtain rfl := Option.some.inj htext
  exact redactPii_distilledFrom text

/-- However traces, evaluations, approvals and launches overlap: an exemplar is approved only as one
of the first, by an admin, or because two different evaluations have come to its guidance. An
approval is never taken back, and guidance that was learnt has nothing left to redact. -/
theorem approved_by_right (calls : List LearningCall) (hdrawn : Drawn calls)
    (before after : List Move) :
    ∀ x ∈ ((system calls).run before).committed.exemplars,
      (x.status = .approved → ApprovedBy calls x) ∧
      (x.category = "REFLECTION_INSIGHT" → redactPii (some x.learnedGuidance) = x.learnedGuidance) ∧
      ∃ x' ∈ ((system calls).run (before ++ after)).committed.exemplars, Follows x x' := by
  intro x hx
  have hsecured := secured_system hdrawn before
  obtain ⟨hfiled, happroved, -⟩ := hsecured.invariant.exemplars x hx
  refine ⟨happroved, fun hcategory => ?_, ?_⟩
  · cases hfiled with
    | seeded hcall hy hfollows =>
      exact absurd (hfollows.category_eq.symm.trans hcategory) (seedRow_own hy).2.2.2
    | distilled hcall hdistills hfollows =>
      rw [hfollows.guidance_eq]
      exact redacted_of_distills hdistills
  · rw [run_append]
    exact secured_between (compatible hdrawn) (fun _ => kept_same rfl) kept_trans
      (fun _ _ _ h => h.kept) hsecured after x hx

def refusedTurn : TelemetryInput := { userPrompt := "no, Sarah", stagedStatus := some .rejected }

def againLearned (exemplarId logId : ℕ) : LearningCall :=
  .runEvaluationCycle 10
    ⟨exemplarId, logId, 5, 0, id, fun _ => some (some "Ask who is meant.")⟩

def learnedTwice : List LearningCall :=
  [.recordTrace refusedTurn ⟨1, 3⟩, againLearned 11 21, againLearned 12 22]

theorem drawn_learnedTwice : Drawn learnedTwice := by
  -- the evaluations' ids are 11 and 12
  have hseat : ∀ (t : ℕ) c id, learnedTwice[t]? = some c → c.exemplarIds id → id = t + 10 := by
    intro t c id hc hid
    have ht := (List.getElem?_eq_some_iff.mp hc).1
    change t < 3 at ht
    interval_cases t <;> obtain rfl := Option.some.inj hc
    · exact hid.elim
    · exact hid
    · exact hid
  intro t u c c' id hc hc' hid hid'
  have ht := hseat t c id hc hid
  have hu := hseat u c' id hc' hid'
  omega

/-- Both evaluations read the one turn before either marks it, and the second approves what the
first has learnt from it. -/
def bothLearn : List Move :=
  ([0, 0, 1, 2] ++ List.replicate 9 1 ++ List.replicate 9 2).map .advance

theorem approved_by_right_recurred :
    ∃ x ∈ ((system learnedTwice).run bothLearn).committed.exemplars,
      x.id = 11 ∧ x.status = .approved ∧ ApprovedBy learnedTwice x := by
  have hrows : ((system learnedTwice).run bothLearn).committed.exemplars.rows.map
      (fun x => (x.id, x.status)) = [(11, .approved)] := by decide +kernel
  obtain ⟨x, hx, hpair⟩ := List.mem_map.mp 
    (hrows ▸ List.mem_cons_self : (11, ExemplarStatus.approved) ∈ _)
  obtain ⟨hid, hstatus⟩ := Prod.mk.inj hpair
  exact ⟨x, hx, hid, hstatus,
    (approved_by_right learnedTwice drawn_learnedTwice bothLearn [] x hx).1 hstatus⟩

/-- The assistant is the only one to leave traces. -/
def Wired (calls : List LearningCall) : Prop :=
  ∀ input draw, .recordTrace input draw ∈ calls →
    ∃ eventId userId message reply toolCallsJson staged userRole latencyMs,
      input = turnTrace eventId userId message reply toolCallsJson staged userRole latencyMs

theorem not_problematic {calls : List LearningCall} (hwired : Wired calls) (x : AiInteractionTrace) :
    ¬ Problematic calls x := by
  rintro ⟨⟨t, input, draw, hcall, hx⟩, hstatus⟩
  obtain ⟨eventId, userId, message, reply, toolCallsJson, staged, userRole, latencyMs, rfl⟩ :=
    hwired input draw (List.mem_of_getElem? hcall)
  rw [hx] at hstatus
  by_cases hstaged : 0 < staged <;> simp [traceOf, turnTrace, hstaged] at hstatus

/-- A turn that the assistant answers counts as confirmed or as nothing, so an evaluation finds no
turn that went wrong: whatever runs, the exemplars are the first ones, and every evaluation reports
none rejected, none to clarify and none new. -/
theorem nothing_learned (calls : List LearningCall) (hdrawn : Drawn calls) (hwired : Wired calls)
    (moves : List Move) :
    (∀ x ∈ ((system calls).run moves).committed.exemplars,
      ∃ (t : ℕ) (draw : SeedDraw) (y : AiLearnedExemplar),
        calls[t]? = some (.seedInitialExemplars draw) ∧ y ∈ seedRows draw ∧ Follows y x) ∧
    ∀ (t : ℕ) r, ((system calls).run moves).slots[t]? = some (.finished (some (.ok (some r)))) →
      r.rejectedCount = 0 ∧ r.clarificationCount = 0 ∧ r.newExemplarsCount = 0 := by
  have hsecured := secured_system hdrawn moves
  constructor
  · intro x hx
    cases (hsecured.invariant.exemplars x hx).filed with
    | seeded hcall hy hfollows => exact ⟨_, _, _, hcall, hy, hfollows⟩
    | distilled hcall hdistills hfollows =>
      obtain ⟨-, -, problems, -, hne, hproblems, -⟩ := hdistills
      obtain ⟨y, hy⟩ := List.exists_mem_of_ne_nil _ hne
      exact absurd (hproblems y hy) (not_problematic hwired y)
  · intro t r hr
    have hnone : ¬ 0 < r.rejectedCount + r.clarificationCount + r.newExemplarsCount := by
      intro hsome
      obtain ⟨x, hx⟩ := hsecured.returned t _ hr r rfl hsome
      exact not_problematic hwired x hx
    omega

def launch : SeedDraw := ⟨fun i => 100 + i, 1⟩

def wiredCalls : List LearningCall :=
  [.seedInitialExemplars launch,
    .recordTrace (turnTrace (some 7) none "no, Sarah" "Who is Sarah?" none 0 none 900) ⟨1, 3⟩,
    againLearned 11 21]

theorem drawn_wiredCalls : Drawn wiredCalls := by
  -- the evaluation's id is 11, and those of the launch are from 100 on
  have hseat : ∀ (t : ℕ) c id, wiredCalls[t]? = some c → c.exemplarIds id →
      t = 0 ∧ 100 ≤ id ∨ t = 2 ∧ id = 11 := by
    intro t c id hc hid
    have ht := (List.getElem?_eq_some_iff.mp hc).1
    change t < 3 at ht
    interval_cases t <;> obtain rfl := Option.some.inj hc
    · obtain ⟨i, rfl⟩ := hid
      exact .inl ⟨rfl, Nat.le_add_right 100 i⟩
    · exact hid.elim
    · exact .inr ⟨rfl, hid⟩
  intro t u c c' id hc hc' hid hid'
  have ht := hseat t c id hc hid
  have hu := hseat u c' id hc' hid'
  omega

theorem wired_wiredCalls : Wired wiredCalls := by
  intro input draw h
  refine ⟨some 7, none, "no, Sarah", "Who is Sarah?", none, 0, none, 900, ?_⟩
  simp only [wiredCalls, againLearned, List.mem_cons, List.not_mem_nil, or_false, reduceCtorEq,
    false_or, LearningCall.recordTrace.injEq] at h
  exact h.1

/-- A launch, a turn that asks back, and an evaluation of it. -/
def evaluated : List Move := ([0, 0, 0, 1, 1] ++ List.replicate 6 2).map .advance

theorem nothing_learned_evaluated :
    (∃ (t : ℕ) (draw : SeedDraw) (y : AiLearnedExemplar),
      wiredCalls[t]? = some (.seedInitialExemplars draw) ∧ y ∈ seedRows draw ∧
        Follows y (seedRows launch)[0]) ∧
    ∃ r, ((system wiredCalls).run evaluated).slots[2]? = some (.finished (some (.ok (some r)))) ∧
      r.rejectedCount = 0 ∧ r.clarificationCount = 0 ∧ r.newExemplarsCount = 0 := by
  obtain ⟨hfirst, hreports⟩ := nothing_learned wiredCalls drawn_wiredCalls wired_wiredCalls evaluated
  have hdone : ∃ r, ((system wiredCalls).run evaluated).slots[2]? =
      some (.finished (some (.ok (some r)))) := ⟨_, by rfl⟩
  obtain ⟨r, hr⟩ := hdone
  exact ⟨hfirst (seedRows launch)[0] (Table.mem_def.mpr (List.mem_of_getElem rfl)), r, hr,
    hreports 2 r hr⟩

end Akabbo.LearnedGuidance
