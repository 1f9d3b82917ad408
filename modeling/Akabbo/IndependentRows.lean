import Akabbo.ExtractionContracts
import Akabbo.ExtractionDeliveries
import Akabbo.PairedRuns

/-!
# One row of a document for another

What is staged from the rows of a document, each on its own, and what that has to do with the other
rows: a result that does not pass its schema has no rows at all.
-/
namespace Akabbo.IndependentRows
open Access RowTable StatementProgram LedgerState EventWrites ProgramParts ToolExecutor Confirmations
open CaptureRouting CaptureSteps CaptureStaging ClosedEvents CaughtErrors PairedRuns Extraction
open ExtractionDeliveries ExtractionContracts
open StatementProgram.Program (query refuse orThrow modifyChecked accept commitNow run exec exec_bind)

section positions
variable {α β ρ : Type} {row : ρ → Option α} {stage stage' : ℕ → α → Option β} {fields : Bool}

/-- The fields and all rows pass. -/
def passes (row : ρ → Option α) (fields : Bool) (rows : List ρ) : Bool :=
  fields && rows.all fun r => (row r).isSome

/-- What comes of the row at a position. -/
def stagedAt (row : ρ → Option α) (stage : ℕ → α → Option β) (fields : Bool) (rows : List ρ) (j : ℕ) :
    Option β :=
  if passes row fields rows then (rows[j]?.bind row).bind (stage j) else none

def stagedList (row : ρ → Option α) (stage : ℕ → α → Option β) (fields : Bool) (rows : List ρ) :
    List β :=
  (List.range rows.length).filterMap (stagedAt row stage fields rows)

/-- What comes of a list, from a position on. -/
def stagedFrom (stage : ℕ → α → Option β) : ℕ → List α → List β
  | _, [] => []
  | i, a :: rest => (stage i a).toList ++ stagedFrom stage (i + 1) rest

theorem stagedFrom_eq (stage : ℕ → α → Option β) (rows : List α) (i : ℕ) :
    stagedFrom stage i rows =
      (List.range rows.length).filterMap fun j => rows[j]?.bind (stage (i + j)) := by
  induction rows generalizing i with
  | nil => rfl
  | cons a rest ih =>
    rw [stagedFrom, ih, List.length_cons, List.range_succ_eq_map, List.filterMap_cons,
      List.filterMap_map]
    have hrest : ((fun j => (a :: rest)[j]?.bind (stage (i + j))) ∘ Nat.succ) =
        fun j => rest[j]?.bind (stage (i + 1 + j)) := by
      funext j
      simp only [Function.comp_apply, Nat.succ_eq_add_one, List.getElem?_cons_succ]
      rw [Nat.add_assoc, Nat.add_comm 1]
    rw [hrest]
    cases hstage : stage i a <;> simp [hstage]

theorem passes_iff {rows : List ρ} :
    passes row fields rows = true ↔ fields = true ∧ ∀ r ∈ rows, (row r).isSome = true := by
  unfold passes
  rw [Bool.and_eq_true, List.all_eq_true]

theorem mapM_getElem? {rows : List ρ} {parsed : List α} (h : rows.mapM row = some parsed) :
    rows.length = parsed.length ∧ (∀ r ∈ rows, (row r).isSome = true) ∧
      ∀ j : ℕ, rows[j]?.bind row = parsed[j]? := by
  induction rows generalizing parsed with
  | nil =>
    cases h
    exact ⟨rfl, nofun, fun j => rfl⟩
  | cons r rest ih =>
    rw [List.mapM_cons] at h
    simp only [Option.bind_eq_bind, Option.bind_eq_some_iff, Option.pure_def, Option.some.injEq] at h
    obtain ⟨a, ha, parsed', hparsed, rfl⟩ := h
    obtain ⟨hlength, hsome, hget⟩ := ih hparsed
    refine ⟨by rw [List.length_cons, List.length_cons, hlength], ?_, fun j => ?_⟩
    · exact List.forall_mem_cons.mpr ⟨by rw [ha]; rfl, hsome⟩
    · cases j with
      | zero => simpa using ha
      | succ j => simpa using hget j

theorem exists_mapM {rows : List ρ} (h : ∀ r ∈ rows, (row r).isSome = true) :
    ∃ parsed, rows.mapM row = some parsed := by
  induction rows with
  | nil => exact ⟨[], rfl⟩
  | cons r rest ih =>
    obtain ⟨hr, hrest⟩ := List.forall_mem_cons.mp h
    obtain ⟨a, ha⟩ := Option.isSome_iff_exists.mp hr
    obtain ⟨parsed, hparsed⟩ := ih hrest
    exact ⟨a :: parsed, by rw [List.mapM_cons, ha, hparsed]; rfl⟩

/-- The rows are staged one by one, or not at all. -/
theorem stagedList_eq (row : ρ → Option α) (stage : ℕ → α → Option β) (fields : Bool)
    (rows : List ρ) : stagedList row stage fields rows =
      stagedFrom stage 0 (((if fields then rows.mapM row else none)).getD []) := by
  unfold stagedList
  by_cases hpass : passes row fields rows = true
  · obtain ⟨hfields, hrows⟩ := passes_iff.mp hpass
    obtain ⟨parsed, hparsed⟩ := exists_mapM hrows
    obtain ⟨hlength, -, hget⟩ := mapM_getElem? hparsed
    rw [if_pos hfields, hparsed, Option.getD_some, stagedFrom_eq, hlength]
    refine congrArg (List.filterMap · _) (funext fun j => ?_)
    unfold stagedAt
    rw [if_pos hpass, hget, Nat.zero_add]
  · have hnone : (if fields then rows.mapM row else none) = none := by
      split_ifs with hfields
      · rw [Option.eq_none_iff_forall_ne_some]
        intro parsed hparsed
        exact hpass (passes_iff.mpr ⟨hfields, (mapM_getElem? hparsed).2.1⟩)
      · rfl
    rw [hnone, Option.getD_none, stagedFrom, List.filterMap_eq_nil_iff]
    intro j _
    unfold stagedAt
    rw [if_neg hpass]

/-- The other rows come to the same exactly where both rows pass or neither does, where something
else does not pass, or where the other rows come to nothing. -/
theorem others_same_iff {before after : List ρ} {r v : ρ}
    (hstage : ∀ j, j ≠ before.length → stage' j = stage j) :
    (∀ j, j ≠ before.length → stagedAt row stage fields (before ++ r :: after) j =
      stagedAt row stage' fields (before ++ v :: after) j) ↔
      (row r).isSome = (row v).isSome ∨ passes row fields (before ++ after) = false ∨
        ∀ j, j ≠ before.length → ((before ++ r :: after)[j]?.bind row).bind (stage j) = none := by
  have hother (j : ℕ) (hj : j ≠ before.length) :
      (before ++ v :: after)[j]? = (before ++ r :: after)[j]? := by
    rcases Nat.lt_or_gt_of_ne hj with hlt | hgt
    · rw [List.getElem?_append_left hlt, List.getElem?_append_left hlt]
    · obtain ⟨k, rfl⟩ := Nat.exists_eq_add_of_lt hgt
      rw [List.getElem?_append_right (by omega), List.getElem?_append_right (by omega),
        show before.length + k + 1 - before.length = k + 1 by omega, List.getElem?_cons_succ,
        List.getElem?_cons_succ]
  have hpasses (u : ρ) : passes row fields (before ++ u :: after) =
      (passes row fields (before ++ after) && (row u).isSome) := by
    unfold passes
    rw [List.all_append, List.all_append, List.all_cons]
    cases fields <;> cases (row u).isSome <;> simp
  have hat (j : ℕ) (hj : j ≠ before.length) : stagedAt row stage' fields (before ++ v :: after) j =
      if passes row fields (before ++ v :: after) then
        ((before ++ r :: after)[j]?.bind row).bind (stage j) else none := by
    unfold stagedAt
    rw [hother j hj, hstage j hj]
  constructor
  · intro h
    by_cases hsame : (row r).isSome = (row v).isSome
    · exact .inl hsame
    · by_cases hrest : passes row fields (before ++ after) = true
      · refine .inr (.inr fun j hj => ?_)
        have hj' := h j hj
        rw [hat j hj, stagedAt, hpasses, hpasses, hrest, Bool.true_and, Bool.true_and] at hj'
        by_cases hr : (row r).isSome = true
        · rwa [if_pos hr, if_neg fun hv => hsame (hr.trans hv.symm)] at hj'
        · have hv : (row v).isSome = true := by
            rw [Bool.not_eq_true] at hr
            rw [hr] at hsame
            exact Bool.eq_true_of_not_eq_false fun hv => hsame hv.symm
          rw [if_neg hr, if_pos hv] at hj'
          exact hj'.symm
      · exact .inr (.inl (Bool.eq_false_iff.mpr hrest))
  · rintro (hsame | hnot | hnone) j hj
    · rw [hat j hj, stagedAt, hpasses, hpasses, hsame]
    · rw [hat j hj, stagedAt, hpasses, hpasses, hnot]
      rfl
    · rw [hat j hj, stagedAt, hnone j hj]
      split_ifs <;> rfl

end positions

/-- The same event, but for its documents and what waits in it. -/
def SameRecords (s t : LedgerDb) : Prop :=
  t = { s with documents := t.documents, pendingConfirmations := t.pendingConfirmations }

section captures
variable {ctx : OperationContext} {names : NameRules} {rules : CaptureRules}

theorem blind_bigInt {R : LedgerDb → LedgerDb → Prop} (text : String) : Blind R (bigInt text) := by
  unfold bigInt
  split <;> trivial

theorem blind_firstPayment {R : LedgerDb → LedgerDb → Prop} (received : Option String) :
    Blind R (firstPayment received) := by
  cases received with
  | none => trivial
  | some text =>
    unfold firstPayment
    dsimp only
    split_ifs
    · trivial
    · refine blind_bind (blind_bigInt text) fun value => ?_
      split_ifs <;> trivial

/-- What is proposed does not depend on what waits already. -/
theorem blind_resolveWrite (call : ToolCall) (tier : CaptureTier) :
    Blind SameRecords (resolveWrite ctx names call tier) := by
  have hread {α : Type} (q : LedgerDb → α) (hq : ∀ s documents waiting,
      q s = q { s with documents := documents, pendingConfirmations := waiting }) :
      Blind SameRecords (query q : LedgerProgram α) :=
    blind_query fun s t (h : SameRecords s t) =>
      (hq s t.documents t.pendingConfirmations).trans (congrArg q h.symm)
  have hline (name : Option String) :=
    hread (fun db => budgetItemNamed names db ctx.event.eventId name) fun _ _ _ => rfl
  have hperson (name : String) :=
    hread (fun db => personNamed names db ctx.event.eventId name) fun _ _ _ => rfl
  have hpledge (id : ℕ) := hread (fun db => pledgeOf db ctx.event.eventId id) fun _ _ _ => rfl
  cases call with
  | addPerson name phone shared => trivial
  | recordPledge name amount type description receivedNow line =>
    refine blind_bind (hline line) fun item => blind_bind (hperson name) fun person => ?_
    cases person with
    | ambiguous candidates => trivial
    | none => exact blind_bind (blind_firstPayment _) fun _ => trivial
    | resolved i found => exact blind_bind (blind_firstPayment _) fun _ => trivial
  | recordPayment name amount type description line =>
    refine blind_bind (hline line) fun item => blind_bind (hperson name) fun person => ?_
    cases person with
    | ambiguous candidates => trivial
    | none => trivial
    | resolved i found => exact blind_bind (hpledge i) fun _ => trivial
  | getOutstanding name => trivial
  | getSummary => trivial

/-- The row that a tool call leaves waiting. -/
def routedRow (ctx : OperationContext) (names : NameRules) (call : ToolCall) (confidence : ℚ)
    (tier : CaptureTier) (rowId : ℕ) (db : LedgerDb) : Option PendingConfirmation :=
  match assertPermission ctx.event.role (writeAction call),
    (run (resolveWrite ctx names call tier) db).1 with
  | none, .ok (.action action prompt) => some (waitingRow ctx action (some confidence) prompt rowId)
  | _, _ => none

theorem routedRow_sameRecords {call : ToolCall} {confidence : ℚ} {tier : CaptureTier} {rowId : ℕ}
    {s t : LedgerDb} (h : SameRecords s t) : routedRow ctx names call confidence tier rowId s =
      routedRow ctx names call confidence tier rowId t := by
  unfold routedRow
  rw [run_eq_of_blind (blind_resolveWrite call tier) h]

/-- With the row that it leaves. -/
def leaving (v : LedgerDb) : Option PendingConfirmation → LedgerDb
  | none => v
  | some row => staged v row

/-- Run from committed rows it returns with the row it leaves, or fails without one. -/
def LeavesRow {ρ : Type} (p : LedgerProgram ρ) (v : LedgerDb) (row : Option PendingConfirmation) :
    Prop :=
  (∃ r, exec p v v = .ok (r, v, leaving v row)) ∨ row = none ∧ ∃ e, exec p v v = .error (e, v)

theorem leaves_none {ρ : Type} {p : LedgerProgram ρ} (hp : ReadOnly p) (v : LedgerDb) :
    LeavesRow p v none :=
  (exec_readOnly hp v).imp_right fun h => ⟨rfl, h⟩

theorem leaves_routeWrite {call : ToolCall} {confidence : ℚ} {tier : CaptureTier} {rowId : ℕ}
    {draw : ExecDraw} {v : LedgerDb} (hfresh : v.pendingConfirmations.has rowId = false) :
    LeavesRow (routeWrite ctx names call confidence tier true rowId draw) v
      (routedRow ctx names call confidence tier rowId v) := by
  have hreads := readOnly_of_blind (@blind_resolveWrite ctx names call tier)
  unfold LeavesRow routeWrite routedRow
  rw [exec_bind]
  cases assertPermission ctx.event.role (writeAction call) with
  | some e => exact .inr ⟨rfl, e, rfl⟩
  | none =>
    change (∃ r, exec (resolveWrite ctx names call tier >>= _) v v = _) ∨ _ ∧ ∃ e,
      exec (resolveWrite ctx names call tier >>= _) v v = _
    rw [exec_bind]
    unfold StatementProgram.Program.run
    rcases exec_readOnly hreads v with ⟨r, hr⟩ | ⟨e, he⟩
    · rw [hr]
      cases r with
      | clarify result => exact .inl ⟨result, rfl⟩
      | action action prompt =>
        left
        dsimp only
        rw [if_neg (by simp)]
        refine ⟨.pending prompt rowId tier, ?_⟩
        have hcreate : exec (create ctx action (some confidence) prompt rowId) v v =
            .ok (pendingView (waitingRow ctx action (some confidence) prompt rowId), v,
              staged v (waitingRow ctx action (some confidence) prompt rowId)) :=
          StatementProgram.Program.exec_accepted_bind.mpr ⟨if_neg (by simp [hfresh]), rfl⟩
        rw [exec_bind, hcreate]
        rfl
    · rw [he]
      exact .inr ⟨rfl, e, rfl⟩

/-- The tool call that a sentence comes to. -/
def calledWith (rules : CaptureRules) (utterance : String) (llm : Except Refusal (List RawToolCall)) :
    Option (ToolCall × ℚ × CaptureTier) :=
  match rules.parseTier1 utterance, llm with
  | some call, _ => some (call, 1, .deterministic)
  | none, .ok toolCalls => (callLlm rules toolCalls).map fun called => (called.1, called.2, .llm)
  | none, .error _ => none

def capturedRow (ctx : OperationContext) (names : NameRules) (rules : CaptureRules)
    (utterance : String) (llm : Except Refusal (List RawToolCall)) (rowId : ℕ) (db : LedgerDb) :
    Option PendingConfirmation :=
  (calledWith rules utterance llm).bind fun called =>
    routedRow ctx names called.1 called.2.1 called.2.2 rowId db

theorem leaves_route {call : ToolCall} {confidence : ℚ} {tier : CaptureTier} {rowId : ℕ}
    {draw : ExecDraw} {v : LedgerDb} (hfresh : v.pendingConfirmations.has rowId = false) :
    LeavesRow (route ctx names call confidence tier true rowId draw) v
      (routedRow ctx names call confidence tier rowId v) := by
  have hread {p : LedgerProgram CaptureResult} (hp : ReadOnly p) (call : ToolCall)
      (hcall : ∃ result, resolveWrite ctx names call tier = pure (.clarify result)) :
      LeavesRow p v (routedRow ctx names call confidence tier rowId v) := by
    obtain ⟨result, hresult⟩ := hcall
    have hnone : routedRow ctx names call confidence tier rowId v = none := by
      unfold routedRow
      rw [hresult]
      cases assertPermission ctx.event.role (writeAction call) <;> rfl
    rw [hnone]
    exact leaves_none hp v
  cases call with
  | getSummary =>
    refine hread ?_ .getSummary ⟨_, rfl⟩
    exact effects_bind (effects_getSummary draw) fun _ => trivial
  | getOutstanding name =>
    exact hread (effects_routeOutstanding name tier draw) (.getOutstanding name) ⟨_, rfl⟩
  | addPerson name phone shared => exact leaves_routeWrite hfresh
  | recordPledge name amount type description receivedNow line => exact leaves_routeWrite hfresh
  | recordPayment name amount type description line => exact leaves_routeWrite hfresh

theorem leaves_capture {utterance : String} {llm : Except Refusal (List RawToolCall)} {rowId : ℕ}
    {draw : ExecDraw} {v : LedgerDb} (hfresh : v.pendingConfirmations.has rowId = false) :
    LeavesRow (capture ctx names rules utterance llm true rowId draw) v
      (capturedRow ctx names rules utterance llm rowId v) := by
  unfold capture capturedRow calledWith
  cases rules.parseTier1 utterance with
  | some call => exact leaves_route hfresh
  | none =>
    cases llm with
    | error e => exact .inr ⟨rfl, e, rfl⟩
    | ok toolCalls =>
      dsimp only
      cases callLlm rules toolCalls with
      | none => exact .inl ⟨_, rfl⟩
      | some called => exact leaves_route hfresh

end captures

section contributions
variable {rules : ExtractionRules} {d : Delivery} {ctx : OperationContext}

/-- The row that one entry leaves waiting. -/
def entryRowStaged (rules : ExtractionRules) (d : Delivery) (ctx : OperationContext) (db : LedgerDb)
    (i : ℕ) (entry : ExtractedContributionEntry) : Option PendingConfirmation :=
  (buildUtterance entry).bind fun utterance =>
    if d.fault (.entry i) = none then
      capturedRow ctx rules.names rules.capture utterance (d.capture i) (d.rowId i) db
    else none

theorem sameRecords_refl (s : LedgerDb) : SameRecords s s := rfl

theorem sameRecords_staged {s v : LedgerDb} (h : SameRecords s v) (row : PendingConfirmation) :
    SameRecords s (staged v row) := by
  unfold SameRecords staged at *
  rw [h]

theorem entryRowStaged_sameRecords {s t : LedgerDb} (h : SameRecords s t) (i : ℕ)
    (entry : ExtractedContributionEntry) :
    entryRowStaged rules d ctx s i entry = entryRowStaged rules d ctx t i entry := by
  unfold entryRowStaged capturedRow
  simp only [routedRow_sameRecords h]

theorem entryRowStaged_id {s : LedgerDb} {i : ℕ} {entry : ExtractedContributionEntry}
    {row : PendingConfirmation} (h : entryRowStaged rules d ctx s i entry = some row) :
    row.id = d.rowId i := by
  obtain ⟨utterance, -, hcaptured⟩ := Option.bind_eq_some_iff.mp h
  split_ifs at hcaptured
  obtain ⟨called, -, hrouted⟩ := Option.bind_eq_some_iff.mp hcaptured
  unfold routedRow at hrouted
  split at hrouted
  · cases hrouted
    rfl
  · cases hrouted

/-- One entry is staged or not, and what it leaves is committed. -/
theorem exec_entry {i : ℕ} {utterance : String} {entry : ExtractedContributionEntry} {v : LedgerDb}
    (hutterance : buildUtterance entry = some utterance)
    (hfresh : v.pendingConfirmations.has (d.rowId i) = false) :
    ∃ result, exec (caught (captureEntry rules d ctx i utterance) :
      LedgerProgram (Except Refusal CaptureResult)) v v = .ok (result,
        leaving v (entryRowStaged rules d ctx v i entry),
        leaving v (entryRowStaged rules d ctx v i entry)) := by
  have hstaged : entryRowStaged rules d ctx v i entry = if d.fault (.entry i) = none then
      capturedRow ctx rules.names rules.capture utterance (d.capture i) (d.rowId i) v else none := by
    unfold entryRowStaged
    rw [hutterance, Option.bind_some]
  rw [hstaged, exec_caught]
  unfold captureEntry
  rw [exec_bind]
  rcases leaves_capture hfresh with
    ⟨r, hr⟩ | ⟨hnone, e, he⟩
  · rw [hr]
    cases hfault : d.fault (.entry i) with
    | some e => exact ⟨.error e, rfl⟩
    | none =>
      rw [if_pos rfl]
      cases hrecorded : d.fault (.recorded i) with
      | some e => exact ⟨.error e, rfl⟩
      | none => exact ⟨.ok r, rfl⟩
  · rw [he, hnone]
    exact ⟨.error e, by split_ifs <;> rfl⟩

/-- The rows of the entries wait after those that waited before. -/
theorem exec_stageEntries (entries : List ExtractedContributionEntry) (i : ℕ) (tally : Tally)
    {s v : LedgerDb} (hsame : SameRecords s v) (hinjective : Function.Injective d.rowId)
    (hfresh : ∀ k, i ≤ k → v.pendingConfirmations.has (d.rowId k) = false) :
    ∃ tally' v', exec (stageEntries rules d ctx i entries tally) v v = .ok (tally', v', v') ∧
      v'.documents = v.documents ∧ v'.pendingConfirmations.rows = v.pendingConfirmations.rows ++
        stagedFrom (entryRowStaged rules d ctx s) i entries := by
  induction entries generalizing i tally v with
  | nil => exact ⟨tally, v, rfl, rfl, (List.append_nil _).symm⟩
  | cons entry rest ih =>
    rw [stagedFrom, entryRowStaged_sameRecords hsame]
    unfold stageEntries
    cases hutterance : buildUtterance entry with
    | none =>
      have hnone : entryRowStaged rules d ctx v i entry = none := by
        unfold entryRowStaged
        rw [hutterance]
        rfl
      rw [hnone]
      exact ih (i + 1) _ hsame fun k hk => hfresh k (by omega)
    | some utterance =>
      obtain ⟨result, hresult⟩ := exec_entry hutterance
        (hfresh i (Nat.le_refl i))
      dsimp only
      rw [exec_bind, hresult]
      cases hrow : entryRowStaged rules d ctx v i entry with
      | none => exact ih (i + 1) _ hsame fun k hk => hfresh k (by omega)
      | some row =>
        have hid := entryRowStaged_id hrow
        have hrowfresh : v.pendingConfirmations.has row.id = false := by
          rw [hid]
          exact hfresh i (Nat.le_refl i)
        have hlater : ∀ k, i + 1 ≤ k →
            (staged v row).pendingConfirmations.has (d.rowId k) = false := by
          intro k hk
          have hne : d.rowId i ≠ d.rowId k := fun h => by
            have := hinjective h
            omega
          change (v.pendingConfirmations.insertNew row).has (d.rowId k) = false
          rw [Table.has_insertNew, hfresh k (by omega), hid]
          simpa using hne
        obtain ⟨tally', v', hexec, hdocuments, hrows⟩ :=
          ih (i + 1) _ (sameRecords_staged hsame row) hlater
        refine ⟨tally', v', hexec, hdocuments, ?_⟩
        rw [hrows]
        change (v.pendingConfirmations.insertNew row).rows ++ _ = _
        rw [Table.insertNew_rows hrowfresh, List.append_assoc]
        rfl

/-- What comes before the first entry is staged, and may keep all of them from it. -/
def contributionsOpen (e : ℕ) (d : Delivery) (found : Document) : LedgerProgram OperationContext := do
  let uploader ← orThrow found.uploadedById
    (.internal "Document has no uploader — cannot resolve who is staging these entries")
  refuse (d.fault .context)
  let event ← requireContext ⟨uploader, true⟩ e
  readBytes e d found.fileId
  refuse (d.fault .meter)
  refuse (d.fault .extraction)
  return ⟨⟨uploader, true⟩, event⟩

def contributionStage (rules : ExtractionRules) (e : ℕ) (d : Delivery) (found : Document)
    (db : LedgerDb) (i : ℕ) (entry : ExtractedContributionEntry) : Option PendingConfirmation :=
  match (StatementProgram.Program.run (contributionsOpen e d found) db).1 with
  | .ok ctx => entryRowStaged rules d ctx db i entry
  | .error _ => none

/-- It leaves alone what waits. -/
def KeepsWaiting {ρ : Type} (p : LedgerProgram ρ) : Prop :=
  Effects (fun s t : LedgerDb => t.pendingConfirmations = s.pendingConfirmations) p

theorem run_keepsWaiting {ρ : Type} {p : LedgerProgram ρ} (hp : KeepsWaiting p) (v : LedgerDb) :
    (StatementProgram.Program.run p v).2.pendingConfirmations = v.pendingConfirmations :=
  WeakestPreconditions.run_wp
    (I := fun s => s.pendingConfirmations = v.pendingConfirmations) (fun _ _ h => h)
    (WeakestPreconditions.wp_of_effects (fun _ _ hst hs => hst.trans hs) hp rfl) rfl

theorem keepsWaiting_updateDocument (e doc : ℕ) (status : DocumentStatus)
    (error : Option String → Option String) : KeepsWaiting (updateDocument e doc status error) := by
  unfold KeepsWaiting updateDocument
  exact effects_modifyChecked
    (R := fun s t : LedgerDb => t.pendingConfirmations = s.pendingConfirmations) (fun _ => rfl) _ _
    fun _ => rfl

theorem waiting_orElse {p : LedgerProgram ExtractionResult} {e doc : ℕ} (v : LedgerDb) :
    (StatementProgram.Program.run (orElse p (fail rules e doc)) v).2.pendingConfirmations =
      (StatementProgram.Program.run p v).2.pendingConfirmations := by
  rw [run_orElse]
  rcases StatementProgram.Program.run p v with ⟨r | r, w⟩
  · have hfail : KeepsWaiting (fail rules e doc r) := by
      unfold KeepsWaiting fail
      exact effects_bind (keepsWaiting_updateDocument _ _ _ _) fun _ => trivial
    exact run_keepsWaiting hfail w
  · rfl

theorem readOnly_contributionsOpen (e : ℕ) (d : Delivery) (found : Document) :
    ReadOnly (contributionsOpen e d found) := by
  unfold ReadOnly contributionsOpen
  exact effects_bind (effects_orThrow _ _) fun _ => effects_bind (effects_refuse _) fun _ =>
    effects_bind (effects_requireContext _) fun _ => effects_bind (effects_readBytes _) fun _ =>
    effects_bind (effects_refuse _) fun _ => effects_bind (effects_refuse _) fun _ => trivial

theorem stagedFrom_none {α β : Type} {stage : ℕ → α → Option β} (h : ∀ i a, stage i a = none)
    (i : ℕ) (rows : List α) : stagedFrom stage i rows = [] := by
  induction rows generalizing i with
  | nil => rfl
  | cons a rest ih =>
    rw [stagedFrom, h, ih]
    rfl

/-- A list of contributors leaves what each of its entries does, or nothing. -/
theorem run_processContributionList (rules : ExtractionRules) (e doc : ℕ) (d : Delivery)
    (found : Document) (db : LedgerDb) (answer : Answer) (hinjective : Function.Injective d.rowId)
    (hfresh : ∀ k, db.pendingConfirmations.has (d.rowId k) = false) :
    (StatementProgram.Program.run (processContributionList rules e doc { d with answer := .ok answer }
      found) db).2.pendingConfirmations.rows = db.pendingConfirmations.rows ++
        stagedFrom (contributionStage rules e d found db) 0 answer.entries := by
  unfold processContributionList
  rw [waiting_orElse]
  have hsplit : extractContributions rules e doc { d with answer := .ok answer } found =
      contributionsOpen e d found >>= fun ctx => do
        commitNow
        let tally ← stageEntries rules { d with answer := .ok answer } ctx 0 answer.entries {}
        let settled := settlement tally answer.entries.length
        updateDocument e doc settled.1 fun _ => settled.2
        refuse (d.fault .settle)
        commitNow
        refuse (d.fault .settled)
        return ⟨doc, settled.1, tally.staged⟩ := by
    unfold extractContributions contributionsOpen complete
    simp only [bind_assoc, pure_bind]
    rfl
  rw [hsplit]
  unfold contributionStage
  rcases exec_readOnly (readOnly_contributionsOpen e d found) db with ⟨ctx, hctx⟩ | ⟨r, hr⟩
  · have hopen : (StatementProgram.Program.run (contributionsOpen e d found) db).1 = .ok ctx := by
      unfold StatementProgram.Program.run
      rw [hctx]
    obtain ⟨tally, v', hstaged, -, hrows⟩ := exec_stageEntries
      (d := { d with answer := .ok answer }) answer.entries 0 {} (sameRecords_refl db) hinjective
      fun k _ => hfresh k
    rw [run_bind_of_exec hctx, run_bind_of_exec (StatementProgram.Program.exec_commitNow db db),
      run_bind_of_exec hstaged, hopen]
    have hrest : KeepsWaiting (do
        updateDocument e doc (settlement tally answer.entries.length).1 fun _ =>
          (settlement tally answer.entries.length).2
        refuse (d.fault .settle)
        commitNow
        refuse (d.fault .settled)
        return (⟨doc, (settlement tally answer.entries.length).1, tally.staged⟩ : ExtractionResult) :
          LedgerProgram ExtractionResult) := by
      unfold KeepsWaiting
      exact effects_bind (keepsWaiting_updateDocument _ _ _ _) fun _ =>
        effects_bind (effects_refuse _) fun _ => effects_bind effects_commitNow fun _ =>
        effects_bind (effects_refuse _) fun _ => trivial
    rw [run_keepsWaiting hrest, hrows]
    rfl
  · have hclosed : (StatementProgram.Program.run (contributionsOpen e d found) db).1 = .error r := by
      unfold StatementProgram.Program.run
      rw [hr]
    rw [hclosed, stagedFrom_none fun _ _ => rfl, List.append_nil]
    unfold StatementProgram.Program.run
    rw [exec_bind, hr]

end contributions

section budgets
variable {rules : ExtractionRules} {d : Delivery} {e doc : ℕ}

/-- One line of a budget, unless its amount is no real figure. -/
def normalizedItem (rules : ExtractionRules) (item : ExtractedItem) : Option NormalizedItem := do
  let amount ← rules.capture.parseAmountToMinorUnits item.amount
  return ⟨item.name, amount, item.quantity, item.categoryContext, item.fulfillmentStatus⟩

def budgetOpen (e : ℕ) (d : Delivery) (found : Document) : LedgerProgram Unit := do
  readBytes e d found.fileId
  refuse (d.fault .meter)

/-- Nothing keeps the lines of the budget from being staged. -/
def budgetOpens (e doc : ℕ) (d : Delivery) (found : Document) (db : LedgerDb) : Bool :=
  (StatementProgram.Program.run (budgetOpen e d found) db).1.isOk && (findDocument db e doc).isSome &&
    (d.fault .extraction).isNone

/-- What one line leaves waiting, but for its id. -/
def budgetStage (rules : ExtractionRules) (e doc : ℕ) (d : Delivery) (found : Document)
    (db : LedgerDb) (confidence : Option ℚ) (_ : ℕ) (item : ExtractedItem) :
    Option PendingConfirmation :=
  if budgetOpens e doc d found db then
    (normalizedItem rules item).map (proposedItem e doc found.uploadedById confidence 0)
  else none

def numbered (rowId : ℕ → ℕ) : ℕ → List PendingConfirmation → List PendingConfirmation
  | _, [] => []
  | i, row :: rest => { row with id := rowId i } :: numbered rowId (i + 1) rest

theorem exec_stageItems (uploader : Option ℕ) (confidence : Option ℚ) (items : List NormalizedItem)
    (i : ℕ) {c v : LedgerDb} (hinjective : Function.Injective d.rowId)
    (hfresh : ∀ k, i ≤ k → v.pendingConfirmations.has (d.rowId k) = false) :
    ∃ v', exec (stageItems e doc d uploader confidence i items) c v = .ok ((), c, v') ∧
      v'.documents = v.documents ∧ v'.pendingConfirmations.rows = v.pendingConfirmations.rows ++
        numbered d.rowId i (items.map (proposedItem e doc uploader confidence 0)) := by
  induction items generalizing i v with
  | nil => exact ⟨v, rfl, rfl, (List.append_nil _).symm⟩
  | cons item rest ih =>
    have hrow : v.pendingConfirmations.has (proposedItem e doc uploader confidence (d.rowId i) item).id =
        false := hfresh i (Nat.le_refl i)
    have hlater : ∀ k, i + 1 ≤ k → (staged v (proposedItem e doc uploader confidence (d.rowId i)
        item)).pendingConfirmations.has (d.rowId k) = false := by
      intro k hk
      have hne : d.rowId i ≠ d.rowId k := fun h => by
        have := hinjective h
        omega
      change (v.pendingConfirmations.insertNew _).has (d.rowId k) = false
      rw [Table.has_insertNew, hfresh k (by omega), Bool.false_or]
      exact decide_eq_false hne
    obtain ⟨v', hexec, hdocuments, hrows⟩ := ih (i + 1) hlater
    refine ⟨v', ?_, hdocuments, ?_⟩
    · refine StatementProgram.Program.exec_accepted_bind.mpr ⟨if_neg ?_, hexec⟩
      rw [hrow]
      exact Bool.false_ne_true
    · rw [hrows]
      change (v.pendingConfirmations.insertNew _).rows ++ _ = _
      rw [Table.insertNew_rows hrow, List.append_assoc]
      rfl

theorem stagedFrom_normalized (row : NormalizedItem → PendingConfirmation) (items : List ExtractedItem)
    (i : ℕ) : stagedFrom (fun _ item => (normalizedItem rules item).map row) i items =
      (normalized rules items).map row := by
  induction items generalizing i with
  | nil => rfl
  | cons item rest ih =>
    have hcons : normalized rules (item :: rest) =
        (normalizedItem rules item).toList ++ normalized rules rest := by
      unfold normalized normalizedItem
      rw [List.filterMap_cons]
      cases rules.capture.parseAmountToMinorUnits item.amount <;> rfl
    rw [stagedFrom, ih, hcons, List.map_append]
    cases normalizedItem rules item <;> rfl

theorem readOnly_budgetOpen (found : Document) : ReadOnly (budgetOpen e d found) := by
  unfold ReadOnly budgetOpen
  exact effects_bind (effects_readBytes _) fun _ => effects_refuse _

/-- A budget leaves what each of its lines does, or nothing. -/
theorem run_processBudget (rules : ExtractionRules) (e doc : ℕ) (d : Delivery) (found : Document)
    (db : LedgerDb) (answer : Answer) (hinjective : Function.Injective d.rowId)
    (hfresh : ∀ k, db.pendingConfirmations.has (d.rowId k) = false) :
    (StatementProgram.Program.run (processBudget rules e doc { d with answer := .ok answer }
      found) db).2.pendingConfirmations.rows = db.pendingConfirmations.rows ++ numbered d.rowId 0
        (stagedFrom (budgetStage rules e doc d found db answer.confidence) 0 answer.items) := by
  unfold processBudget
  rw [waiting_orElse]
  have hsplit : extractBudget rules e doc { d with answer := .ok answer } found =
      budgetOpen e d found >>= fun _ => do
        stageItems e doc { d with answer := .ok answer } found.uploadedById answer.confidence 0
          (normalized rules answer.items)
        updateDocument e doc .requiresReview id
        refuse (d.fault .extraction)
        commitNow
        refuse (d.fault .staged)
        return ⟨doc, .requiresReview, (normalized rules answer.items).length⟩ := by
    unfold extractBudget budgetOpen complete
    simp only [bind_assoc, pure_bind]
    rfl
  rw [hsplit]
  unfold budgetStage
  rcases exec_readOnly (readOnly_budgetOpen found) db with ⟨_, hopen⟩ | ⟨r, hr⟩
  · have hok : (StatementProgram.Program.run (budgetOpen e d found) db).1.isOk = true := by
      unfold StatementProgram.Program.run
      rw [hopen]
      rfl
    obtain ⟨v', hexec, hdocuments, hrows⟩ := exec_stageItems (e := e)
      (d := { d with answer := .ok answer }) found.uploadedById answer.confidence
      (normalized rules answer.items) 0 (c := db) hinjective fun k _ => hfresh k
    have hfind : findDocument v' e doc = findDocument db e doc := by
      unfold findDocument
      rw [hdocuments]
    have hopens : budgetOpens e doc d found db =
        ((findDocument db e doc).isSome && (d.fault .extraction).isNone) := by
      unfold budgetOpens
      rw [hok, Bool.true_and]
    have hempty : numbered d.rowId 0 (stagedFrom (fun _ item => if false = true then
        (normalizedItem rules item).map (proposedItem e doc found.uploadedById answer.confidence 0)
        else none) 0 answer.items) = [] := by
      rw [stagedFrom_none fun _ _ => if_neg Bool.false_ne_true, numbered]
    rw [run_bind_of_exec hopen, hopens]
    unfold StatementProgram.Program.run
    rw [exec_bind, hexec]
    dsimp only
    unfold updateDocument
    rw [exec_bind, StatementProgram.Program.exec_modifyChecked, hfind]
    cases hdocument : findDocument db e doc with
    | none =>
      rw [Option.isSome_none, Bool.false_and, hempty, List.append_nil]
    | some document =>
      dsimp only
      cases hfault : d.fault .extraction with
      | some r =>
        rw [Option.isNone_some, Bool.and_false, hempty, List.append_nil]
        rfl
      | none =>
        have hrest : stagedFrom (fun _ item =>
            if ((some document).isSome && (none : Option Refusal).isNone) = true then
              (normalizedItem rules item).map
                (proposedItem e doc found.uploadedById answer.confidence 0)
            else none) 0 answer.items = (normalized rules answer.items).map
              (proposedItem e doc found.uploadedById answer.confidence 0) :=
          stagedFrom_normalized _ _ _
        rw [hrest]
        cases d.fault .staged <;> exact hrows
  · have hclosed : (StatementProgram.Program.run (budgetOpen e d found) db).1.isOk = false := by
      unfold StatementProgram.Program.run
      rw [hr]
      rfl
    have hopens : budgetOpens e doc d found db = false := by
      unfold budgetOpens
      rw [hclosed]
      rfl
    rw [stagedFrom_none fun _ _ => by rw [hopens]; rfl, numbered, List.append_nil]
    unfold StatementProgram.Program.run
    rw [exec_bind, hr]

end budgets

section documents
variable (rules : ExtractionRules) (numberText : ℚ → String) (e doc : ℕ) (d : Delivery)
variable (found : Document) (db : LedgerDb) (fields : List (String × ArgValue))

/-- All that waits once a budget with these rows is processed. -/
def budgetWaiting (rows : List RawRow) : List PendingConfirmation :=
  (StatementProgram.Program.run (processBudget rules e doc
    { d with answer := .ok (budgetAnswer numberText ⟨.list rows, fields⟩) } found)
    db).2.pendingConfirmations.rows

def contributionsWaiting (rows : List RawRow) : List PendingConfirmation :=
  (StatementProgram.Program.run (processContributionList rules e doc
    { d with answer := .ok (contributionAnswer numberText ⟨.list rows, fields⟩) } found)
    db).2.pendingConfirmations.rows

/-- What the row at a position of a budget comes to. -/
def budgetRowStaged (rows : List RawRow) (j : ℕ) : Option PendingConfirmation :=
  stagedAt (itemRow numberText) (budgetStage rules e doc d found db ((budgetFields fields).getD none))
    (budgetFields fields).isSome rows j

def contributionRowStaged (rows : List RawRow) (j : ℕ) : Option PendingConfirmation :=
  stagedAt (entryRow numberText) (contributionStage rules e d found db)
    (optionalTrimmed "notes" fields).isSome rows j

/-- Both rows pass their schema or neither does, something else does not pass, or the other rows
come to nothing. -/
def WithoutSay {α β : Type} (row : RawRow → Option α) (stage : ℕ → α → Option β) (fields : Bool)
    (before after : List RawRow) (r v : RawRow) : Prop :=
  (row r).isSome = (row v).isSome ∨ passes row fields (before ++ after) = false ∨
    ∀ j, j ≠ before.length → ((before ++ r :: after)[j]?.bind row).bind (stage j) = none

variable {rules numberText e doc d found db fields}

theorem budgetWaiting_eq (hinjective : Function.Injective d.rowId)
    (hfresh : ∀ k, db.pendingConfirmations.has (d.rowId k) = false) (rows : List RawRow) :
    budgetWaiting rules numberText e doc d found db fields rows = db.pendingConfirmations.rows ++
      numbered d.rowId 0 ((List.range rows.length).filterMap
        (budgetRowStaged rules numberText e doc d found db fields rows)) := by
  have hanswer : stagedFrom (budgetStage rules e doc d found db
      (budgetAnswer numberText ⟨.list rows, fields⟩).confidence) 0
        (budgetAnswer numberText ⟨.list rows, fields⟩).items =
      stagedFrom (budgetStage rules e doc d found db ((budgetFields fields).getD none)) 0
        ((if (budgetFields fields).isSome then rows.mapM (itemRow numberText) else none).getD []) := by
    unfold budgetAnswer extractBudgetResult
    dsimp only [readRows]
    cases rows.mapM (itemRow numberText) <;> cases budgetFields fields <;> rfl
  unfold budgetWaiting
  rw [run_processBudget rules e doc d found db _ hinjective hfresh, hanswer, ← stagedList_eq]
  rfl

theorem contributionsWaiting_eq (hinjective : Function.Injective d.rowId)
    (hfresh : ∀ k, db.pendingConfirmations.has (d.rowId k) = false) (rows : List RawRow) :
    contributionsWaiting rules numberText e doc d found db fields rows =
      db.pendingConfirmations.rows ++ (List.range rows.length).filterMap
        (contributionRowStaged rules numberText e d found db fields rows) := by
  have hanswer : (contributionAnswer numberText ⟨.list rows, fields⟩).entries =
      (if (optionalTrimmed "notes" fields).isSome then rows.mapM (entryRow numberText)
        else none).getD [] := by
    unfold contributionAnswer extractContributionsResult
    dsimp only [readRows]
    cases rows.mapM (entryRow numberText) <;> cases optionalTrimmed "notes" fields <;> rfl
  unfold contributionsWaiting
  rw [run_processContributionList rules e doc d found db _ hinjective hfresh, hanswer,
    ← stagedList_eq]
  rfl

theorem contributionStage_update (llm : Except Refusal (List RawToolCall)) {i j : ℕ} (h : j ≠ i) :
    contributionStage rules e { d with capture := Function.update d.capture i llm } found db j =
      contributionStage rules e d found db j := by
  funext entry
  change (match (StatementProgram.Program.run (contributionsOpen e d found) db).1 with
    | .ok ctx => _
    | .error _ => _) = _
  unfold contributionStage entryRowStaged
  dsimp only
  rw [Function.update_of_ne h]

/-- A budget and a list of contributors leave what each of their rows comes to, and the other rows
come to the same for another row exactly where that row has no say in whether they pass. The model
may answer anything about the row that takes its place. -/
theorem rows_independent_iff (rules : ExtractionRules) (numberText : ℚ → String) (e doc : ℕ)
    (d : Delivery) (found : Document) (db : LedgerDb) (fields : List (String × ArgValue))
    (hinjective : Function.Injective d.rowId)
    (hfresh : ∀ k, db.pendingConfirmations.has (d.rowId k) = false) :
    (∀ rows, budgetWaiting rules numberText e doc d found db fields rows =
      db.pendingConfirmations.rows ++ numbered d.rowId 0 ((List.range rows.length).filterMap
        (budgetRowStaged rules numberText e doc d found db fields rows))) ∧
    (∀ rows, contributionsWaiting rules numberText e doc d found db fields rows =
      db.pendingConfirmations.rows ++ (List.range rows.length).filterMap
        (contributionRowStaged rules numberText e d found db fields rows)) ∧
    (∀ before r v after,
      (∀ j, j ≠ before.length →
        budgetRowStaged rules numberText e doc d found db fields (before ++ r :: after) j =
          budgetRowStaged rules numberText e doc d found db fields (before ++ v :: after) j) ↔
      WithoutSay (itemRow numberText)
        (budgetStage rules e doc d found db ((budgetFields fields).getD none))
        (budgetFields fields).isSome before after r v) ∧
    ∀ before r v after llm,
      (∀ j, j ≠ before.length →
        contributionRowStaged rules numberText e d found db fields (before ++ r :: after) j =
          contributionRowStaged rules numberText e
            { d with capture := Function.update d.capture before.length llm } found db fields
            (before ++ v :: after) j) ↔
      WithoutSay (entryRow numberText) (contributionStage rules e d found db)
        (optionalTrimmed "notes" fields).isSome before after r v :=
  ⟨budgetWaiting_eq hinjective hfresh, contributionsWaiting_eq hinjective hfresh,
    fun _ _ _ _ => others_same_iff fun _ _ => rfl,
    fun _ _ _ _ llm => others_same_iff fun _ hj => contributionStage_update llm hj⟩

end documents

def tents : RawRow := .object [("name", .text "Tents"), ("amount", .text "50,000")]

def chairs : RawRow := .object [("name", .text "Chairs"), ("amount", .text "20000")]

def uploadedBudget : Document := ⟨3, 7, 4, .budget, .processing, none, some 1⟩

theorem readsOne_rowId_injective : Function.Injective (readsOne 100).rowId := by
  intro i j h
  simp only [readsOne] at h
  omega

/-- With a list in place of the second row, the first is lost as well. -/
theorem bad_row_empties_budget :
    (budgetWaiting digitRules (fun _ => "") 7 3 (readsOne 100) uploadedBudget uploadedDb []
      [tents, chairs]).map PendingConfirmation.id = [100, 102] ∧
    budgetWaiting digitRules (fun _ => "") 7 3 (readsOne 100) uploadedBudget uploadedDb []
      [tents, .other] = [] ∧
    ¬ ∀ rules numberText e doc d found db fields before r v after j, j ≠ before.length →
      budgetRowStaged rules numberText e doc d found db fields (before ++ r :: after) j =
        budgetRowStaged rules numberText e doc d found db fields (before ++ v :: after) j := by
  refine ⟨by decide +kernel, by decide +kernel, fun h => ?_⟩
  have hlost := h digitRules (fun _ => "") 7 3 (readsOne 100) uploadedBudget uploadedDb [] [tents]
    chairs .other [] 0 (by decide)
  exact absurd (congrArg Option.isSome hlost) (by decide +kernel)

theorem rows_independent_iff_budget :
    (∀ rows, budgetWaiting digitRules (fun _ => "") 7 3 (readsOne 100) uploadedBudget uploadedDb []
      rows = numbered (readsOne 100).rowId 0 ((List.range rows.length).filterMap
        (budgetRowStaged digitRules (fun _ => "") 7 3 (readsOne 100) uploadedBudget uploadedDb []
          rows))) ∧
    ∀ j, j ≠ 1 → budgetRowStaged digitRules (fun _ => "") 7 3 (readsOne 100) uploadedBudget
      uploadedDb [] [tents, chairs] j = budgetRowStaged digitRules (fun _ => "") 7 3 (readsOne 100)
        uploadedBudget uploadedDb [] [tents, tents] j := by
  obtain ⟨hbudget, -, hrows, -⟩ := rows_independent_iff digitRules (fun _ => "") 7 3 (readsOne 100)
    uploadedBudget uploadedDb [] readsOne_rowId_injective fun _ => rfl
  exact ⟨hbudget, (hrows [tents] chairs tents []).mpr (.inl (by decide +kernel))⟩

end Akabbo.IndependentRows
