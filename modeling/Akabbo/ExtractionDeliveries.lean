import Akabbo.Extraction
import Akabbo.FirstClaim
import Akabbo.RunChecks

/-!
# Deliveries of an uploaded document

The outbox may deliver `document.uploaded` more than once. A delivery claims the document when it
finds it UPLOADED, and stages what it reads in transactions after that.
-/
namespace Akabbo.ExtractionDeliveries
open Access RowTable StatementProgram ReadCommitted LedgerState EventWrites ProgramParts
open WeakestPreconditions ToolExecutor Confirmations CaptureRouting CaptureSteps CaptureStaging
open ClosedEvents TeamCalls CaughtErrors FirstClaim Extraction
open StatementProgram.Program (query refuse orThrow modifyChecked accept commitNow)

abbrev ExtractionSystem := System RowLock LedgerDb Refusal ExtractionResult

def system (rules : ExtractionRules) (eventId documentId : ℕ) (db : LedgerDb)
    (deliveries : List Delivery) : ExtractionSystem :=
  System.begin db (deliveries.map (process rules eventId documentId))

def Uploaded (eventId documentId : ℕ) (db : LedgerDb) : Prop :=
  ∃ doc, findDocument db eventId documentId = some doc ∧ doc.status = .uploaded

/-- A human takes over from here, or the uploader tries again. -/
def Settled (eventId documentId : ℕ) (db : LedgerDb) : Prop :=
  ∃ doc, findDocument db eventId documentId = some doc ∧
    (doc.status = .requiresReview ∨ doc.status = .failed)

section captures
variable {R : LedgerDb → LedgerDb → Prop} {ctx : OperationContext} {names : NameRules}

theorem effects_bigInt (text : String) : Effects R (bigInt text) := by
  unfold bigInt
  split <;> trivial

theorem effects_firstPayment (received : Option String) : Effects R (firstPayment received) := by
  cases received with
  | none => trivial
  | some text =>
    unfold firstPayment
    dsimp only
    split_ifs
    · trivial
    · refine effects_bind (effects_bigInt text) fun value => ?_
      split_ifs <;> trivial

theorem effects_resolveWrite (call : ToolCall) (tier : CaptureTier) :
    Effects R (resolveWrite ctx names call tier) := by
  cases call with
  | addPerson name phone shared => trivial
  | recordPledge name amount type description receivedNow line =>
    refine effects_bind (effects_query _) fun item => effects_bind (effects_query _) fun person => ?_
    cases person with
    | ambiguous candidates => trivial
    | none => exact effects_bind (effects_firstPayment _) fun _ => trivial
    | resolved i found => exact effects_bind (effects_firstPayment _) fun _ => trivial
  | recordPayment name amount type description line =>
    refine effects_bind (effects_query _) fun item => effects_bind (effects_query _) fun person => ?_
    cases person with
    | ambiguous candidates => trivial
    | none => trivial
    | resolved i found => exact effects_bind (effects_query _) fun _ => trivial
  | getOutstanding name => trivial
  | getSummary => trivial

theorem effects_getSummary (draw : ExecDraw) : Effects R (getSummary ctx draw) := by
  have hreport : Effects R (LedgerReads.getEventReport ctx) :=
    effects_bind (effects_refuse _) fun _ => effects_bind (effects_query _) fun _ =>
      effects_bind (effects_query _) fun _ => effects_bind (effects_query _) fun _ =>
      effects_bind (effects_query _) fun _ => effects_bind (effects_query _) fun _ =>
      effects_bind (effects_query _) fun _ => effects_bind (effects_query _) fun _ =>
      effects_bind (effects_query _) fun _ => trivial
  exact effects_bind hreport fun _ => trivial

theorem effects_routeOutstanding (name : Option String) (tier : CaptureTier) (draw : ExecDraw) :
    Effects R (routeOutstanding ctx names name tier draw) := by
  unfold routeOutstanding
  dsimp only
  split_ifs
  · exact effects_bind (effects_getSummary draw) fun _ => trivial
  · refine effects_bind (effects_query _) fun person => ?_
    cases person with
    | none => trivial
    | ambiguous candidates => trivial
    | resolved i found =>
      refine effects_bind (effects_query _) fun pledge => ?_
      cases pledge with
      | none => trivial
      | ambiguous candidates => trivial
      | resolved pledgeId =>
        refine effects_bind (effects_bind (effects_bind (effects_refuse _) fun _ =>
          effects_bind (effects_query _) fun _ => effects_bind (effects_orThrow _ _) fun _ =>
          effects_bind (effects_query _) fun _ => trivial) fun _ => trivial) fun _ => trivial

theorem effects_route {rowId : ℕ} (hrefl : ∀ db, R db db)
    (hinsert : ∀ db row, row.id = rowId → R db (staged db row)) (call : ToolCall) (confidence : ℚ)
    (tier : CaptureTier) (draw : ExecDraw) :
    Effects R (route ctx names call confidence tier true rowId draw) := by
  have hwrite (call : ToolCall) :
      Effects R (routeWrite ctx names call confidence tier true rowId draw) := by
    refine effects_bind (effects_refuse _) fun _ => effects_bind (effects_resolveWrite _ _) fun r => ?_
    cases r with
    | clarify result => trivial
    | action action prompt =>
      exact effects_bind (effects_bind (effects_modifyChecked hrefl _ _ fun db => hinsert db _ rfl)
        fun _ => trivial) fun _ => trivial
  cases call with
  | getSummary => exact effects_bind (effects_getSummary draw) fun _ => trivial
  | getOutstanding name => exact effects_routeOutstanding name tier draw
  | addPerson name phone shared => exact hwrite _
  | recordPledge name amount type description receivedNow line => exact hwrite _
  | recordPayment name amount type description line => exact hwrite _

/-- Whatever a capture that waits writes is one row, of the id it is given. -/
theorem effects_capture {rules : CaptureRules} {rowId : ℕ} (hrefl : ∀ db, R db db)
    (hinsert : ∀ db row, row.id = rowId → R db (staged db row)) (utterance : String)
    (llm : Except Refusal (List RawToolCall)) (draw : ExecDraw) :
    Effects R (capture ctx names rules utterance llm true rowId draw) := by
  unfold capture
  split
  · exact effects_route hrefl hinsert _ _ _ _
  · split
    · trivial
    · split
      · trivial
      · exact effects_route hrefl hinsert _ _ _ _

end captures

/-- All that a delivery does once it has its document. -/
def work (rules : ExtractionRules) (e doc : ℕ) (d : Delivery) (found : Document) :
    LedgerProgram ExtractionResult :=
  if found.kind = .contributionList then processContributionList rules e doc d found
  else processBudget rules e doc d found

/-- A delivery as its first transaction, and what is left after it. -/
theorem process_eq (rules : ExtractionRules) (e doc : ℕ) (d : Delivery) :
    process rules e doc d = .select (fun db => findDocument db e doc) fun
      | none => .commit (.pure ⟨doc, .processed, 0⟩)
      | some found =>
        if found.status ≠ .uploaded then .commit (.pure ⟨doc, .processed, 0⟩)
        else (updateDocument e doc .processing id).bind fun _ => .commit (work rules e doc d found) := by
  refine congrArg (Program.select _) (funext fun found => ?_)
  cases found with
  | none => rfl
  | some found =>
    dsimp only
    by_cases hup : found.status ≠ .uploaded
    · simp only [Program.bind, if_pos hup]
      rfl
    · simp only [Program.bind, if_neg hup]
      exact Program.bind_bind (updateDocument e doc .processing id) (fun _ => .pure (some found)) _

/-- The document stays, and does not come back to UPLOADED; every new row is one of `own`. -/
structure Stages (e doc : ℕ) (own : ℕ → Prop) (db db' : LedgerDb) : Prop where
  present : (findDocument db e doc).isSome = true → (findDocument db' e doc).isSome = true
  uploaded : Uploaded e doc db' → Uploaded e doc db
  rows : ∀ row ∈ db'.pendingConfirmations, row ∈ db.pendingConfirmations ∨ own row.id

section stages
variable {e doc : ℕ} {own : ℕ → Prop}

theorem stages_refl (db : LedgerDb) : Stages e doc own db db := ⟨id, id, fun _ => .inl⟩

theorem stages_trans {s t u : LedgerDb} (h : Stages e doc own s t) (h' : Stages e doc own t u) :
    Stages e doc own s u where
  present := h'.present ∘ h.present
  uploaded := h.uploaded ∘ h'.uploaded
  rows row hrow := (h'.rows row hrow).elim (h.rows row) .inr

theorem stages_staged (db : LedgerDb) (row : PendingConfirmation) (hrow : own row.id) :
    Stages e doc own db (staged db row) where
  present := id
  uploaded := id
  rows row' hrow' := by
    rcases Table.mem_insertNew_cases hrow' with hold | rfl
    · exact .inl hold
    · exact .inr hrow

theorem findDocument_setDocument (db : LedgerDb) (status : DocumentStatus)
    (error : Option String → Option String) :
    findDocument (setDocument db e doc status error) e doc =
      (findDocument db e doc).map fun d => { d with status := status, error := error d.error } := by
  change (db.documents.update (fun r => r.eventId == e && r.id == doc)
    (fun r => { r with status := status, error := error r.error }) fun _ => rfl).find?
      (fun r => r.eventId == e && r.id == doc) = _
  rw [Table.find?_update]
  · refine Option.map_congr fun d hd => ?_
    rw [if_pos (Table.mem_of_find? hd).2]
  · exact fun _ _ _ => rfl

theorem not_uploaded_setDocument (db : LedgerDb) {status : DocumentStatus}
    (error : Option String → Option String) (hstatus : status ≠ .uploaded) :
    ¬ Uploaded e doc (setDocument db e doc status error) := by
  rintro ⟨d, hd, hup⟩
  rw [findDocument_setDocument, Option.map_eq_some_iff] at hd
  obtain ⟨d, -, rfl⟩ := hd
  exact hstatus hup

theorem stages_setDocument (db : LedgerDb) {status : DocumentStatus}
    (error : Option String → Option String) (hstatus : status ≠ .uploaded) :
    Stages e doc own db (setDocument db e doc status error) where
  present h := by rwa [findDocument_setDocument, Option.isSome_map]
  uploaded h := absurd h (not_uploaded_setDocument db error hstatus)
  rows _ := .inl

theorem effects_updateDocument {status : DocumentStatus} (error : Option String → Option String)
    (hstatus : status ≠ .uploaded) :
    Effects (Stages e doc own) (updateDocument e doc status error) :=
  effects_modifyChecked stages_refl _ _ fun db => stages_setDocument db error hstatus

variable {rules : ExtractionRules} {d : Delivery}

theorem effects_fail (error : Refusal) : Effects (Stages e doc own) (fail rules e doc error) :=
  effects_bind (effects_updateDocument _ nofun) fun _ => trivial

theorem effects_readBytes {R : LedgerDb → LedgerDb → Prop} (fileId : ℕ) :
    Effects R (readBytes e d fileId) :=
  effects_bind (effects_refuse _) fun _ => effects_bind (effects_query _) fun _ =>
    effects_bind (effects_orThrow _ _) fun _ => effects_bind effects_commitNow fun _ => effects_refuse _

theorem effects_complete {R : LedgerDb → LedgerDb → Prop} : Effects R (complete d) := by
  unfold complete
  split
  · trivial
  · exact effects_bind (effects_refuse _) fun _ => trivial

theorem effects_stageItems (hown : ∀ i, own (d.rowId i)) (uploader : Option ℕ)
    (confidence : Option ℚ) (i : ℕ) (items : List NormalizedItem) :
    Effects (Stages e doc own) (stageItems e doc d uploader confidence i items) := by
  induction items generalizing i with
  | nil => trivial
  | cons item rest ih =>
    exact effects_bind (effects_modifyChecked stages_refl _ _ fun db =>
      stages_staged db _ (hown i)) fun _ => ih (i + 1)

theorem effects_extractBudget (hown : ∀ i, own (d.rowId i)) (found : Document) :
    Effects (Stages e doc own) (extractBudget rules e doc d found) :=
  effects_bind (effects_readBytes _) fun _ => effects_bind effects_complete fun _ =>
    effects_bind (effects_stageItems hown _ _ _ _) fun _ =>
    effects_bind (effects_updateDocument _ nofun) fun _ => effects_bind (effects_refuse _) fun _ =>
    effects_bind effects_commitNow fun _ => effects_bind (effects_refuse _) fun _ => trivial

theorem effects_stageEntries (hown : ∀ i, own (d.rowId i)) (ctx : OperationContext) (i : ℕ)
    (entries : List ExtractedContributionEntry) (tally : Tally) :
    Effects (Stages e doc own) (stageEntries rules d ctx i entries tally) := by
  induction entries generalizing i tally with
  | nil => trivial
  | cons entry rest ih =>
    unfold stageEntries
    cases buildUtterance entry with
    | none => exact ih (i + 1) _
    | some utterance =>
      have hentry : Effects (Stages e doc own) (captureEntry rules d ctx i utterance) :=
        effects_bind (effects_capture stages_refl
            (fun db row hrow => stages_staged db row (hrow ▸ hown i)) _ _ _) fun _ =>
          effects_bind (effects_refuse _) fun _ => effects_bind effects_commitNow fun _ =>
          effects_bind (effects_refuse _) fun _ => trivial
      exact effects_bind (effects_caught stages_refl stages_trans hentry) fun _ => ih (i + 1) _

theorem settlement_settled (tally : Tally) (entries : ℕ) :
    (settlement tally entries).1 = .requiresReview ∨ (settlement tally entries).1 = .failed := by
  unfold settlement
  split_ifs <;> first | exact .inl rfl | exact .inr rfl

theorem settlement_ne_uploaded (tally : Tally) (entries : ℕ) :
    (settlement tally entries).1 ≠ .uploaded := by
  rcases settlement_settled tally entries with h | h <;> rw [h] <;> exact nofun

theorem effects_requireContext {R : LedgerDb → LedgerDb → Prop} (actor : Actor) :
    Effects R (requireContext actor e) := by
  refine effects_bind (effects_bind (effects_query _) fun event => ?_) fun _ => effects_orThrow _ _
  cases event with
  | none => trivial
  | some event => exact effects_bind (effects_query _) fun _ => trivial

theorem effects_extractContributions (hown : ∀ i, own (d.rowId i)) (found : Document) :
    Effects (Stages e doc own) (extractContributions rules e doc d found) :=
  effects_bind (effects_orThrow _ _) fun _ => effects_bind (effects_refuse _) fun _ =>
    effects_bind (effects_requireContext _) fun _ => effects_bind (effects_readBytes _) fun _ =>
    effects_bind effects_complete fun _ => effects_bind (effects_refuse _) fun _ =>
    effects_bind effects_commitNow fun _ => effects_bind (effects_stageEntries hown _ _ _ _) fun _ =>
    effects_bind (effects_updateDocument _ (settlement_ne_uploaded _ _)) fun _ =>
    effects_bind (effects_refuse _) fun _ => effects_bind effects_commitNow fun _ =>
    effects_bind (effects_refuse _) fun _ => trivial

theorem effects_work (hown : ∀ i, own (d.rowId i)) (found : Document) :
    Effects (Stages e doc own) (work rules e doc d found) := by
  unfold work
  split_ifs
  · exact effects_orElse stages_refl stages_trans (effects_extractContributions hown found) effects_fail
  · exact effects_orElse stages_refl stages_trans (effects_extractBudget hown found) effects_fail

end stages

section alone
variable {e doc : ℕ} {rules : ExtractionRules} {d : Delivery}

def Present (e doc : ℕ) (db : LedgerDb) : Prop := (findDocument db e doc).isSome = true

theorem present_stages {own : ℕ → Prop} (s t : LedgerDb) (h : Stages e doc own s t)
    (hs : Present e doc s) : Present e doc t := h.present hs

theorem wp_present {ρ : Type} {p : LedgerProgram ρ} (hp : Effects (Stages e doc fun _ => True) p)
    {v : LedgerDb} (hv : Present e doc v) : wp (Present e doc) p (fun _ => Present e doc) v :=
  wp_of_effects present_stages hp hv

theorem settled_setDocument {v : LedgerDb} {status : DocumentStatus}
    (error : Option String → Option String) (hv : Present e doc v)
    (hstatus : status = .requiresReview ∨ status = .failed) :
    Settled e doc (setDocument v e doc status error) := by
  obtain ⟨found, hfound⟩ := Option.isSome_iff_exists.mp hv
  exact ⟨_, by rw [findDocument_setDocument, hfound]; rfl, hstatus⟩

theorem present_of_settled {v : LedgerDb} (h : Settled e doc v) : Present e doc v := by
  obtain ⟨found, hfound, -⟩ := h
  exact Option.isSome_iff_exists.mpr ⟨found, hfound⟩

theorem wp_updateDocument {v : LedgerDb} {status : DocumentStatus}
    {error : Option String → Option String} (hv : Present e doc v)
    (hstatus : status = .requiresReview ∨ status = .failed) :
    wp (Present e doc) (updateDocument e doc status error) (fun _ => Settled e doc) v :=
  wp_modifyChecked fun _ _ => settled_setDocument error hv hstatus

theorem ends_updateDocument {v : LedgerDb} {status : DocumentStatus}
    {error : Option String → Option String} {Q : Unit → LedgerDb → Prop} (hv : Present e doc v)
    (h : Q () (setDocument v e doc status error)) : Ends (updateDocument e doc status error) Q v := by
  obtain ⟨found, hfound⟩ := Option.isSome_iff_exists.mp hv
  exact ends_modifyChecked (by rw [hfound]) h

theorem ends_fail (error : Refusal) (v : LedgerDb) (hv : Present e doc v) :
    Ends (fail rules e doc error) (fun _ => Settled e doc) v :=
  ends_bind <| ends_updateDocument hv (settled_setDocument _ hv (.inr rfl))

/-- What is left once the status is set may fail, but writes nothing more. -/
theorem wp_acknowledged {ρ : Type} {f g : Option Refusal} {r : ρ} {v : LedgerDb}
    (hv : Settled e doc v) :
    wp (Present e doc) (do refuse f; commitNow; refuse g; return r : LedgerProgram ρ)
      (fun _ => Settled e doc) v :=
  wp_refuse_bind fun _ => wp_commitNow_bind (present_of_settled hv) <| wp_refuse_bind fun _ => hv

theorem wp_extractBudget (found : Document) {v : LedgerDb} (hv : Present e doc v) :
    wp (Present e doc) (extractBudget rules e doc d found) (fun _ => Settled e doc) v :=
  wp_bind <| wp_mono (wp_present (effects_readBytes _) hv) fun _ _ hv =>
    wp_bind <| wp_mono (wp_present effects_complete hv) fun _ _ hv =>
    wp_bind <| wp_mono (wp_present (effects_stageItems (fun _ => trivial) _ _ _ _) hv) fun _ _ hv =>
    wp_bind <| wp_mono (wp_updateDocument hv (.inl rfl)) fun _ _ hv => wp_acknowledged hv

theorem wp_extractContributions (found : Document) {v : LedgerDb} (hv : Present e doc v) :
    wp (Present e doc) (extractContributions rules e doc d found) (fun _ => Settled e doc) v :=
  wp_orThrow_bind fun _ _ => wp_refuse_bind fun _ =>
    wp_bind <| wp_mono (wp_present (effects_requireContext _) hv) fun _ _ hv =>
    wp_bind <| wp_mono (wp_present (effects_readBytes _) hv) fun _ _ hv =>
    wp_bind <| wp_mono (wp_present effects_complete hv) fun _ _ hv => wp_refuse_bind fun _ =>
    wp_commitNow_bind hv <|
    wp_bind <| wp_mono (wp_present (effects_stageEntries (fun _ => trivial) _ _ _ _) hv) fun _ _ hv =>
    wp_bind <| wp_mono (wp_updateDocument hv (settlement_settled _ _)) fun _ _ hv => wp_acknowledged hv

/-- Whatever is thrown on the way, a delivery that finds the document returns and settles it. -/
theorem ends_process {v : LedgerDb} (hv : Uploaded e doc v) :
    Ends (process rules e doc d) (fun _ => Settled e doc) v := by
  obtain ⟨found, hfound, hup⟩ := hv
  have hpresent : Present e doc v := Option.isSome_iff_exists.mpr ⟨found, hfound⟩
  have hclaimed : Present e doc (setDocument v e doc .processing id) := by
    unfold Present
    rwa [findDocument_setDocument, Option.isSome_map]
  have hwork : Ends (work rules e doc d found) (fun _ => Settled e doc)
      (setDocument v e doc .processing id) := by
    unfold work
    split_ifs
    · exact ends_orElse hclaimed (wp_extractContributions found hclaimed) ends_fail
    · exact ends_orElse hclaimed (wp_extractBudget found hclaimed) ends_fail
  rw [process_eq]
  simp only [Ends]
  rw [hfound]
  dsimp only
  rw [if_neg (not_not_intro hup)]
  exact ends_bind (ends_updateDocument hpresent hwork)

theorem run_process (rules : ExtractionRules) (d : Delivery) {v : LedgerDb} (hv : Uploaded e doc v) :
    ∃ r v', StatementProgram.Program.run (process rules e doc d) v = (.ok r, v') ∧ Settled e doc v' :=
  run_ends (ends_process hv)

end alone

section runs
variable (rules : ExtractionRules) (e doc : ℕ) (deliveries : List Delivery) (db : LedgerDb)

/-- The rows that wait in `db'` and did not in `db`. -/
def newRows (db db' : LedgerDb) : List PendingConfirmation :=
  db'.pendingConfirmations.rows.filter fun row => decide (row ∉ db.pendingConfirmations)

/-- All that is new was staged by one delivery, and no two rows come from one row it has read. -/
def StagedOnce (db' : LedgerDb) : Prop :=
  newRows db db' = [] ∨ ∃ d ∈ deliveries, ∃ entry : PendingConfirmation → ℕ,
    (∀ row ∈ newRows db db', row.id = d.rowId (entry row)) ∧ ((newRows db db').map entry).Nodup

/-- The document is with a human or has failed, and the rows are those that one delivery leaves
which nothing disturbs. -/
def Completed (db' : LedgerDb) : Prop :=
  Settled e doc db' ∧ ∃ d ∈ deliveries, db' = (StatementProgram.Program.run (process rules e doc d) db).2

/-- No row is staged twice, and the document is completed once a delivery has returned and none is
open any more. -/
structure Handled (sys : ExtractionSystem) : Prop where
  once : StagedOnce deliveries db sys.committed
  completed : Uploaded e doc db → sys.Settled →
    (∃ r, (.finished (some (.ok r)) : Slot RowLock LedgerDb Refusal ExtractionResult) ∈ sys.slots) →
    Completed rules e doc deliveries db sys.committed

end runs

/-- The ids of the rows that a delivery stages. -/
def Own (d : Delivery) (id : ℕ) : Prop := ∃ i, d.rowId i = id

section handled
variable {rules : ExtractionRules} {e doc : ℕ} {deliveries : List Delivery} {db : LedgerDb}

theorem firstCommit_process (d : Delivery) :
    FirstCommit (fun _ => Claims (Uploaded e doc) (Stages e doc (Own d))) (process rules e doc d)
      false [] id := by
  rw [process_eq]
  intro s
  dsimp only
  split
  · rfl
  · next found hfound =>
    split_ifs
    · rfl
    · intro s'
      dsimp only
      cases findDocument (id s') e doc with
      | none => trivial
      | some found' =>
        refine ⟨fun v => not_uploaded_setDocument v id nofun, fun v => stages_setDocument v id nofun, ?_⟩
        refine everyCommit_of_effects (R := Stages e doc (Own d)) stages_trans stages_refl
          (fun _ _ f hf v => ?_) (effects_work (fun i => ⟨i, rfl⟩) found) fun v => stages_refl v
        exact ⟨mt (hf v).uploaded, hf v⟩

theorem standing_deliveries {moves : List Move}
    (hcareful : Careful (process rules e doc) (Uploaded e doc) deliveries db moves) :
    Standing (process rules e doc) (Uploaded e doc) (fun d => Stages e doc (Own d)) deliveries db moves
      ((system rules e doc db deliveries).run moves) :=
  standing_run firstCommit_process (fun _ _ _ _ => stages_trans) moves hcareful

theorem newRows_self (db : LedgerDb) : newRows db db = [] :=
  List.filter_eq_nil_iff.mpr fun row hrow => by
    simpa using (show row ∈ db.pendingConfirmations from hrow)

/-- What one delivery has staged is one row for each row it has read. -/
theorem stagedOnce_of_stages {db' : LedgerDb} {d : Delivery} (hd : d ∈ deliveries)
    (h : Stages e doc (Own d) db db') : StagedOnce deliveries db db' := by
  have hown : ∀ row : PendingConfirmation, ∃ i, row ∈ newRows db db' → row.id = d.rowId i := by
    intro row
    by_cases hrow : row ∈ newRows db db'
    · obtain ⟨hmem, hnew⟩ := List.mem_filter.mp hrow
      obtain ⟨i, hi⟩ := (h.rows row hmem).resolve_left (of_decide_eq_true hnew)
      exact ⟨i, fun _ => hi.symm⟩
    · exact ⟨0, fun hmem => absurd hmem hrow⟩
  choose entry hentry using hown
  refine .inr ⟨d, hd, entry, hentry, ?_⟩
  have hkeys : ((newRows db db').map PendingConfirmation.id).Nodup :=
    db'.pendingConfirmations.nodup.sublist (List.filter_sublist.map _)
  have hids : (newRows db db').map PendingConfirmation.id =
      ((newRows db db').map entry).map d.rowId := by
    rw [List.map_map]
    exact List.map_congr_left hentry
  rw [hids] at hkeys
  exact hkeys.of_map _

theorem completed_of_standing {moves : List Move} {sys : ExtractionSystem}
    (h : Standing (process rules e doc) (Uploaded e doc) (fun d => Stages e doc (Own d)) deliveries db
      moves sys) (hup : Uploaded e doc db) (hsettled : sys.Settled)
    (hreturned : ∃ r, .finished (some (.ok r)) ∈ sys.slots) :
    Completed rules e doc deliveries db sys.committed := by
  cases h with
  | unclaimed hnone h =>
    -- a delivery that finds the document and returns has claimed it
    obtain ⟨r, hr⟩ := hreturned
    obtain ⟨t, ht⟩ := List.mem_iff_getElem?.mp hr
    obtain ⟨d, -, hrun⟩ := h.returned t r ht
    obtain ⟨r', db', hrun', found, hfound, hstatus⟩ := run_process rules d hup
    obtain ⟨found', hfound', hup'⟩ := hup
    cases hrun.symm.trans hrun'
    cases hfound.symm.trans hfound'
    rw [hup'] at hstatus
    exact absurd hstatus (by decide)
  | claimed w d hone h =>
    have hd := List.mem_of_getElem? h.request
    rcases h.winner with ⟨x, hx, -⟩ | ⟨r, hr, hrun⟩
    · have hopen := List.all_eq_true.mp hsettled _ (List.mem_of_getElem? hx)
      cases hopen
    · obtain ⟨r', db', hrun', hstatus⟩ := run_process rules d hup
      rw [hrun] at hrun'
      cases hrun'
      exact ⟨hstatus, d, hd, by rw [hrun]⟩

/-- However deliveries overlap or repeat, whatever they read and wherever something is thrown: no
row of the document is staged twice and the document is completed, as long as every delivery that
claims the document still finds it UPLOADED, and is not cut off after that. -/
theorem careful_deliveries_handled (rules : ExtractionRules) (e doc : ℕ) (deliveries : List Delivery)
    (db : LedgerDb) (moves : List Move)
    (hcareful : Careful (process rules e doc) (Uploaded e doc) deliveries db moves) :
    Handled rules e doc deliveries db ((system rules e doc db deliveries).run moves) := by
  have hstanding := standing_deliveries hcareful
  refine ⟨?_, completed_of_standing hstanding⟩
  cases hstanding with
  | unclaimed hnone h =>
    refine .inl ?_
    rw [h.committed]
    exact newRows_self db
  | claimed w d hone h => exact stagedOnce_of_stages (List.mem_of_getElem? h.request) h.made

end handled

def digitRules : ExtractionRules :=
  ⟨plainNames, ⟨fun _ => none, parseDigits, fun _ => ""⟩, fun _ => "extraction failed"⟩

/-- A photographed budget, as it is uploaded. -/
def uploadedDb : LedgerDb :=
  { LedgerDb.empty with
    files := Table.empty.insertNew
      ⟨4, 7, none, .documentPhoto, "budget", "image/png", 1000, "digest", none, some 1⟩
    documents := Table.empty.insertNew ⟨3, 7, 4, .budget, .uploaded, none, some 1⟩ }

/-- The model reads one line of the budget. -/
def readsOne (first : ℕ) : Delivery :=
  { fault := fun _ => none
    answer := .ok { items := [{ name := "Tents", amount := "50000" }] }
    capture := fun _ => .ok []
    rowId := fun i => first + 2 * i
    draw := ExecDraw.simple 0 0 }

theorem uploaded_uploadedDb : Uploaded 7 3 uploadedDb := ⟨_, rfl, rfl⟩

/-- The second delivery finds the document UPLOADED too and is cut off, and the third finds that it
is being worked on. -/
def firstInTime : List Move :=
  [.advance 0, .advance 1, .advance 0, .advance 0, .cutOff 1, .advance 2, .advance 0, .advance 2] ++
    List.replicate 5 (.advance 0)

set_option maxRecDepth 8000 in
theorem careful_deliveries_handled_firstInTime :
    Handled digitRules 7 3 [readsOne 100, readsOne 101, readsOne 200] uploadedDb
      ((system digitRules 7 3 uploadedDb [readsOne 100, readsOne 101, readsOne 200]).run
        firstInTime) :=
  careful_deliveries_handled digitRules 7 3 _ uploadedDb firstInTime <|
    RunChecks.careful_at firstCommit_process (fun _ _ _ _ => stages_trans) uploaded_uploadedDb 0
      (by decide) (by decide)

/-- Both deliveries find the document UPLOADED. -/
def overlapping : List Move :=
  [.advance 0] ++ List.replicate 10 (.advance 1) ++ List.replicate 9 (.advance 0)

/-- The first delivery is stopped once it has marked the document, and the second finds it marked. -/
def stopped : List Move := List.replicate 3 (.advance 0) ++ [.cutOff 0] ++ List.replicate 3 (.advance 1)

set_option maxRecDepth 8000 in
theorem overlap_stages_twice_and_crash_strands :
    (¬ ∀ (rules : ExtractionRules) (e doc : ℕ) (deliveries : List Delivery) (db : LedgerDb)
      (moves : List Move),
      StagedOnce deliveries db ((system rules e doc db deliveries).run moves).committed) ∧
    ¬ ∀ (rules : ExtractionRules) (e doc : ℕ) (deliveries : List Delivery) (db : LedgerDb)
      (moves : List Move), Uploaded e doc db → ((system rules e doc db deliveries).run moves).Settled →
      (∃ r, .finished (some (.ok r)) ∈ ((system rules e doc db deliveries).run moves).slots) →
      Completed rules e doc deliveries db ((system rules e doc db deliveries).run moves).committed := by
  constructor
  · intro h
    have hids : (newRows uploadedDb ((system digitRules 7 3 uploadedDb
        [readsOne 100, readsOne 101]).run overlapping).committed).map PendingConfirmation.id =
        [101, 100] := by decide
    obtain ⟨second, hsecond, hsecondId⟩ := List.mem_map.mp (hids ▸ List.mem_cons_self : 101 ∈ _)
    obtain ⟨first, hfirst, hfirstId⟩ :=
      List.mem_map.mp (hids ▸ List.mem_cons_of_mem _ List.mem_cons_self : 100 ∈ _)
    rcases h digitRules 7 3 [readsOne 100, readsOne 101] uploadedDb overlapping with
      hnone | ⟨d, hd, entry, hentry, -⟩
    · rw [hnone] at hfirst
      cases hfirst
    · have heven := hentry first hfirst
      have hodd := hentry second hsecond
      rw [hfirstId] at heven
      rw [hsecondId] at hodd
      rcases List.mem_pair.mp hd with rfl | rfl
      · simp only [readsOne] at hodd
        omega
      · simp only [readsOne] at heven
        omega
  · intro h
    have hstatus : (findDocument ((system digitRules 7 3 uploadedDb
        [readsOne 100, readsOne 101]).run stopped).committed 7 3).map Document.status =
        some .processing := by decide
    have hreturned : ((system digitRules 7 3 uploadedDb
        [readsOne 100, readsOne 101]).run stopped).slots[1]? =
        some (.finished (some (.ok ⟨3, .processed, 0⟩))) := rfl
    obtain ⟨⟨found, hfound, hsettled⟩, -⟩ :=
      h digitRules 7 3 [readsOne 100, readsOne 101] uploadedDb stopped uploaded_uploadedDb (by decide)
        ⟨_, List.mem_of_getElem? hreturned⟩
    rw [hfound, Option.map_some, Option.some.injEq] at hstatus
    rw [hstatus] at hsettled
    exact absurd hsettled (by decide)

end Akabbo.ExtractionDeliveries
