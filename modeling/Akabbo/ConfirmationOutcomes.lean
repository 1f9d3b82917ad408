import Akabbo.ExecutorFrame
import Akabbo.StoppedCalls
import Akabbo.TenantClosure

/-!
# How a confirmation ends

A row is marked in one transaction and its action runs in others. What a confirmation leaves in the
ledger when it fails or is stopped after any of its statements, and which rows a request may mark.
-/
namespace Akabbo.ConfirmationOutcomes
open Access RowTable StatementProgram ProgramParts StoppedCalls WeakestPreconditions LedgerState
open LedgerWrites hiding Invocation
open EventWrites ServiceCalls ServiceSteps EventSteps ExecutorSteps ToolExecutor
open Confirmations CaptureRouting CaptureSteps ExecutorFrame TenantClosure
open StatementProgram.Program (query modifyChecked refuse orThrow runIf commitNow exec CommitFree
  commitFree_of_writes writes_bind writes_query writes_orThrow writes_refuse writes_modifyChecked)

/-- The actions that look for their contributor by name, and create one if need be. -/
def FindsByName : StoredAction → Prop
  | .recordPledge none .. => True
  | .recordPledgeWithPayment none .. => True
  | .recordDirectContribution none .. => True
  | _ => False

/-- Nothing is left but, for such an action, people and what the audit trail says of them. -/
def Leftover (action : StoredAction) (db db' : LedgerDb) : Prop :=
  ∃ persons auditEvents, db' = { db with persons, auditEvents } ∧
    (¬ FindsByName action → db' = db)

theorem leftover_refl (action : StoredAction) (db : LedgerDb) : Leftover action db db :=
  ⟨db.persons, db.auditEvents, rfl, fun _ => rfl⟩

section execution
variable {ctx : OperationContext} {names : NameRules} {source : ProvenanceSource} {draw : ExecDraw}
  {db : LedgerDb}

theorem wp_target_leftover {action : StoredAction} {τ : Type} {personId : Option ℕ} {name : String}
    {phone : Option String} {f : ℕ → LedgerProgram τ} (hfinds : personId = none → FindsByName action)
    (hf : ∀ i v, wp (Leftover action db) (f i) (fun _ _ => True) v) :
    wp (Leftover action db) (targetPerson ctx names personId name source phone draw >>= f)
      (fun _ _ => True) db := by
  refine wp_targetPerson_bind (fun i _ => hf i db) fun hnone _ v hstep => ⟨?_, hf _ v⟩
  cases hstep with
  | mk q row => exact ⟨_, _, rfl, fun hnot => absurd (hfinds hnone) hnot⟩

theorem wp_recordPayment_true {I : LedgerDb → Prop} {v : LedgerDb} {i : ℕ} {name : String}
    {amount : ℕ} : wp I (recordPayment ctx i name amount source draw) (fun _ _ => True) v :=
  wp_bind <| wp_recordFulfillment (fun _ _ => wp_pure trivial) fun _ _ _ => wp_pure trivial

theorem wp_giveAs_true {I : LedgerDb → Prop} {v : LedgerDb} {i : ℕ} {name : String} {amount : ℕ}
    {phone : Option String} {type : Option PledgeType} {description : Option String}
    {line : Option ℕ} :
    wp I (giveAs ctx i name amount source phone type description line draw) (fun _ _ => True) v :=
  wp_bind <| wp_recordDirectContribution (fun _ _ => wp_pure trivial)
    fun _ _ _ _ _ _ _ _ _ => wp_pure trivial

variable (ctx names source draw db)

/-- Whatever an execution has committed before it ends is a contributor. -/
theorem wp_run_leftover (action : StoredAction) :
    wp (Leftover action db) (ToolExecutor.run ctx names action source draw) (fun _ _ => True)
      db := by
  cases action with
  | addPerson name phone shared =>
    exact wp_bind <| wp_createPerson fun _ _ _ _ => wp_pure trivial
  | recordPledge personId name amount type description phone line =>
    refine wp_bigInt_bind fun value _ => wp_target_leftover (fun hnone => hnone ▸ trivial) ?_
    exact fun i v => wp_bind <| wp_createPledge fun _ _ _ _ _ _ => wp_pure trivial
  | recordPledgeWithPayment personId name amount receivedNow type description phone line =>
    refine wp_bigInt_bind fun committed _ => wp_bigInt_bind fun received _ =>
      wp_target_leftover (fun hnone => hnone ▸ trivial) fun i v => wp_bind ?_
    exact wp_recordPledgeWithPayment (fun _ _ _ _ _ _ => wp_pure trivial)
      fun _ _ _ _ _ _ _ _ => wp_pure trivial
  | recordPayment i name amount => exact wp_bigInt_bind fun value _ => wp_recordPayment_true
  | recordDirectContribution personId name amount phone type description line =>
    refine wp_bigInt_bind fun value _ => ?_
    cases personId with
    | some i => exact wp_giveAs_true
    | none =>
      change wp _ (targetPerson ctx names none name source phone draw >>= _) _ _
      refine wp_target_leftover (fun _ => trivial) fun i v => wp_query_bind ?_
      split
      · exact wp_recordPayment_true
      · exact wp_giveAs_true
  | createBudgetItem name targetValue sourceDocumentId =>
    exact wp_bigInt_bind fun value _ => wp_bind <| wp_addItem fun _ _ _ _ _ _ _ _ => wp_pure trivial
  | updateBudgetItem i name targetValue =>
    exact wp_bigInt_bind fun value _ => wp_bind <| wp_updateItem fun _ _ _ _ => wp_pure trivial
  | removeBudgetItem i name => exact wp_bind <| wp_removeItem fun _ _ _ _ => wp_pure trivial
  | allocateToBudget i j itemName name value =>
    exact wp_bigInt_bind fun value _ => wp_bind <| wp_allocate fun _ _ _ _ _ _ _ _ => wp_pure trivial
  | correctPledge i name newValue =>
    exact wp_bigInt_bind fun value _ => wp_bind <| wp_correctCommittedValue fun _ _ _ _ =>
      wp_pure trivial
  | correctPayment i name newValue =>
    exact wp_bigInt_bind fun value _ => wp_bind <| wp_correctValue fun _ _ _ _ _ => wp_pure trivial
  | mergePeople i j sourceName targetName =>
    exact wp_bind <| wp_mergePeople fun _ _ _ => wp_pure trivial
  | sendSmsReminders body => exact wp_sendReminders fun _ _ _ _ => trivial
  | inviteMember role name phone => exact wp_bind <| wp_createInvitation fun _ _ => wp_pure trivial
  | getOutstandingPledge i name =>
    exact wp_bind <| wp_refuse_bind fun _ => wp_query_bind <| wp_orThrow_bind fun _ _ =>
      wp_query_bind <| wp_pure (wp_pure trivial)
  | getSummary =>
    exact wp_bind <| wp_refuse_bind fun _ => wp_query_bind <| wp_query_bind <| wp_query_bind <|
      wp_query_bind <| wp_query_bind <| wp_query_bind <| wp_query_bind <| wp_query_bind <|
      wp_pure (wp_pure trivial)

end execution

theorem id_resolveAs (status : ConfirmationStatus) (ctx : OperationContext) (now : ℕ)
    (row : PendingConfirmation) : (resolveAs status ctx now row).id = row.id := rfl

/-- The rows once this confirmation has marked its own. -/
def marked (ctx : OperationContext) (id now : ℕ) (db : LedgerDb) : LedgerDb :=
  { db with
    pendingConfirmations := db.pendingConfirmations.update
      (fun row => row.eventId == ctx.event.eventId && row.id == id) (resolveAs .confirmed ctx now)
      (id_resolveAs .confirmed ctx now) }

section marking
variable {ctx : OperationContext} {id now : ℕ} {db : LedgerDb}

theorem commitFree_claim (ctx : OperationContext) (id now : ℕ) : CommitFree (claim ctx id now) := by
  refine commitFree_of_writes (R := fun _ _ => True) (writes_bind ?_ fun row => writes_bind ?_
    fun _ => trivial)
  · exact writes_bind (writes_query _) fun _ => writes_bind (writes_orThrow _ _) fun _ =>
      writes_bind (writes_refuse _) fun _ => trivial
  · exact writes_modifyChecked (fun _ => trivial) _ fun _ _ _ => trivial

theorem findConfirmation_mem {e : ℕ} {row : PendingConfirmation}
    (h : findConfirmation db e id = some row) :
    row ∈ db.pendingConfirmations ∧ row.eventId = e ∧ row.id = id := by
  simpa using Table.mem_of_find? h

/-- The claim of a row that waits hands on its action. -/
theorem wp_claim {I : LedgerDb → Prop} :
    wp I (claim ctx id now) (fun x v => ∃ row, findConfirmation db ctx.event.eventId id = some row ∧
      row.status = .pending ∧ x = (row.payload, row.source) ∧ v = marked ctx id now db) db :=
  wp_readPending_bind fun row hfound hpending => wp_modifyChecked_bind fun _ _ =>
    wp_pure ⟨row, hfound, hpending, rfl, rfl⟩

/-- How a confirmation ends, wherever it is stopped. -/
theorem confirm_cases (names : NameRules) (draw : ExecDraw) (stop : Option ℕ) :
    (finishes stop (claim ctx id now) db = false ∧
      finishes stop (confirm ctx names id now draw) db = false ∧
      leaves stop (confirm ctx names id now draw) db = db) ∨
    ∃ row, finishes stop (claim ctx id now) db = true ∧
      findConfirmation db ctx.event.eventId id = some row ∧ row.status = .pending ∧
      SamePending (marked ctx id now db) (leaves stop (confirm ctx names id now draw) db) ∧
      (finishes stop (confirm ctx names id now draw) db = false →
        Leftover row.payload (marked ctx id now db)
          (leaves stop (confirm ctx names id now draw) db)) := by
  have hcases := finishes_commit_cases (f := fun x : StoredAction × ProvenanceSource =>
    ToolExecutor.run ctx names x.1 x.2 draw) (commitFree_claim ctx id now) stop db
  rcases hcases with hrefused | ⟨x, db', rest, hclaim, hexec, hfinishes, hleaves⟩
  · exact .inl hrefused
  have hwp : wp (fun _ => True) (claim ctx id now) _ db := wp_claim
  obtain ⟨row, hfound, hpending, rfl, rfl⟩ := exec_wp hwp hexec
  have hsame : SamePending (marked ctx id now db) (leaves rest (ToolExecutor.run ctx names
      row.payload row.source draw) (marked ctx id now db)) :=
    leaves_effects samePending_refl samePending_trans (frames_run ctx names row.source draw row.payload)
      rest _
  refine .inr ⟨row, hclaim, hfound, hpending, hleaves ▸ hsame, fun hnot => ?_⟩
  have hrest := finishes_cases (wp_run_leftover ctx names row.source draw (marked ctx id now db)
    row.payload) (leftover_refl row.payload (marked ctx id now db)) rest
  rcases hrest with ⟨-, hleft⟩ | ⟨hdone, -⟩
  · exact hleaves ▸ hleft
  · exact absurd (hfinishes.symm.trans hnot) (by simp [hdone])

end marking

section requests
variable {ctx : OperationContext} {db : LedgerDb}

/-- Every typed call leaves the rows that wait alone. -/
theorem samePending_service (call : ServiceCall) (draw : ServiceDraw) :
    wp (SamePending db) (call.program ctx draw) (fun _ => SamePending db) db :=
  wp_of_frames (frames_program ctx call draw)

/-- The rows that wait are as they were, but for one that is new. -/
inductive Waits (db db' : LedgerDb) : Prop
  | same (pending : SamePending db db')
  | staged (row : PendingConfirmation) (fresh : db.pendingConfirmations.has row.id = false)
      (waiting : row.status = .pending)
      (pending : db'.pendingConfirmations = db.pendingConfirmations.insertNew row)

theorem waits_of_frames {τ : Type} {p : LedgerProgram τ} (hp : Frames p) :
    wp (Waits db) p (fun _ => Waits db) db :=
  wp_mono (wp_weaken (wp_of_frames hp) fun _ => .same) fun _ _ => .same

/-- A tool call adds at most the row that its action waits in. -/
theorem waits_route (names : NameRules) (call : ToolCall) (confidence : ℚ) (tier : CaptureTier)
    (forceStage : Bool) (rowId : ℕ) (draw : ExecDraw) :
    wp (Waits db) (route ctx names call confidence tier forceStage rowId draw)
      (fun _ => Waits db) db :=
  wp_route (fun _ _ => .same rfl)
    (fun action _ _ => waits_of_frames (frames_run ctx names .aiFromChat draw action))
    fun _ _ _ hfresh => .staged _ hfresh rfl rfl

end requests

section rows
variable {ctx : OperationContext} {db : LedgerDb} {id : ℕ}

/-- One row of the event rewritten. -/
def rewritten (e id : ℕ) (f : PendingConfirmation → PendingConfirmation)
    (hf : ∀ row, (f row).id = row.id) (db : LedgerDb) : LedgerDb :=
  { db with
    pendingConfirmations := db.pendingConfirmations.update
      (fun row => row.eventId == e && row.id == id) f hf }

theorem mem_rewritten {e : ℕ} {f : PendingConfirmation → PendingConfirmation}
    {hf : ∀ row, (f row).id = row.id} {row : PendingConfirmation}
    (h : findConfirmation db e id = some row) {r : PendingConfirmation} :
    r ∈ (rewritten e id f hf db).pendingConfirmations ↔
      r = f row ∨ (r ∈ db.pendingConfirmations ∧ r.id ≠ id) := by
  obtain ⟨hrow, hevent, hid⟩ := findConfirmation_mem h
  have hmem : r ∈ (rewritten e id f hf db).pendingConfirmations ↔ ∃ y ∈ db.pendingConfirmations,
      r = if (y.eventId == e && y.id == id) = true then f y else y := by
    simp only [rewritten, Table.mem_update]
  rw [hmem]
  constructor
  · rintro ⟨y, hy, rfl⟩
    by_cases hyid : y.id = id
    · have hyrow : y = row :=
        Table.key_inj (t := db.pendingConfirmations) hy hrow (hyid.trans hid.symm)
      rw [hyrow, if_pos (by simp [hevent, hid])]
      exact .inl rfl
    · rw [if_neg (by simp [hyid])]
      exact .inr ⟨hy, hyid⟩
  · rintro (rfl | ⟨hr, hrid⟩)
    · exact ⟨row, hrow, by rw [if_pos (by simp [hevent, hid])]⟩
    · exact ⟨r, hr, by rw [if_neg (by simp [hrid])]⟩

/-- What a call leaves that commits only when it returns. -/
theorem leaves_of_wp {τ : Type} {p : LedgerProgram τ} {P : LedgerDb → Prop}
    (h : wp (· = db) p (fun _ => P) db) (stop : Option ℕ) : leaves stop p db = db ∨ P (leaves stop p db) := by
  rcases finishes_cases h rfl stop with ⟨-, hsame⟩ | ⟨-, -, hleft⟩
  · exact .inl hsame
  · exact .inr hleft

/-- An edit rewrites a row that waits, or nothing. -/
theorem edit_cases (edits : UpdatePendingInput) (stop : Option ℕ) :
    leaves stop (discard (update ctx id edits) : LedgerProgram Unit) db = db ∨
    ∃ row, findConfirmation db ctx.event.eventId id = some row ∧ row.status = .pending ∧
      editRefusal row (edited edits row.payload) = none ∧
      leaves stop (discard (update ctx id edits) : LedgerProgram Unit) db =
        rewritten ctx.event.eventId id (fun r => { r with
          payload := edited edits row.payload
          prompt := renderPendingPrompt (edited edits row.payload) }) (fun _ => rfl) db :=
  leaves_of_wp (P := fun v => ∃ row, findConfirmation db ctx.event.eventId id = some row ∧
      row.status = .pending ∧ editRefusal row (edited edits row.payload) = none ∧
      v = rewritten ctx.event.eventId id (fun r => { r with
        payload := edited edits row.payload
        prompt := renderPendingPrompt (edited edits row.payload) }) (fun _ => rfl) db)
    (wp_map <| wp_readPending_bind fun row hfound hpending => wp_refuse_bind fun hlegal =>
      wp_modifyChecked_bind fun _ _ => wp_pure ⟨row, hfound, hpending, hlegal, rfl⟩) stop

theorem reject_cases (now : ℕ) (stop : Option ℕ) :
    leaves stop (discard (reject ctx id now) : LedgerProgram Unit) db = db ∨
    ∃ row, findConfirmation db ctx.event.eventId id = some row ∧ row.status = .pending ∧
      leaves stop (discard (reject ctx id now) : LedgerProgram Unit) db =
        rewritten ctx.event.eventId id (resolveAs .rejected ctx now) (fun _ => rfl) db :=
  leaves_of_wp (P := fun v => ∃ row, findConfirmation db ctx.event.eventId id = some row ∧
      row.status = .pending ∧
      v = rewritten ctx.event.eventId id (resolveAs .rejected ctx now) (fun _ => rfl) db)
    (wp_map <| wp_readPending_bind fun row hfound hpending =>
      wp_modifyChecked_bind fun _ _ => wp_pure ⟨row, hfound, hpending, rfl⟩) stop

/-- Another request leaves the rows as they were, but for one that is new. -/
theorem request_waits (names : NameRules) {request : Request}
    (hedit : ∀ i edits, request ≠ .edit i edits) (hreject : ∀ i now, request ≠ .reject i now)
    (hconfirm : ∀ i now draw, request ≠ .confirm i now draw) (stop : Option ℕ) :
    Waits db (leaves stop (request.program names ctx) db) := by
  have hwp : wp (Waits db) (request.program names ctx) (fun _ => Waits db) db := by
    cases request with
    | service call draw =>
      exact wp_mono (wp_weaken (samePending_service call draw) fun _ => .same) fun _ _ => .same
    | capture call confidence tier forceStage rowId draw =>
      exact wp_map (waits_route names call confidence tier forceStage rowId draw)
    | propose action confidence prompt rowId =>
      exact wp_map <| wp_create fun hfresh => .staged _ hfresh rfl rfl
    | edit i edits => exact absurd rfl (hedit i edits)
    | confirm i now draw => exact absurd rfl (hconfirm i now draw)
    | reject i now => exact absurd rfl (hreject i now)
  exact leaves_wp (I := Waits db) (fun _ _ h => h) hwp (.same rfl) stop

end rows

/-- The row has been confirmed. -/
def Confirmed (id : ℕ) (db : LedgerDb) : Prop :=
  ∃ r ∈ db.pendingConfirmations, r.id = id ∧ r.status = .confirmed

section steps
variable {ctx : OperationContext} {db : LedgerDb}

/-- A row that waits is not a confirmed one. -/
theorem id_ne_of_confirmed {e id : ℕ} {row r : PendingConfirmation}
    (h : findConfirmation db e id = some row) (hpending : row.status = .pending)
    (hr : r ∈ db.pendingConfirmations) (hconfirmed : r.status = .confirmed) : r.id ≠ id := by
  intro hid
  obtain ⟨hrow, -, hrowid⟩ := findConfirmation_mem h
  have hsame : r = row := Table.key_inj (t := db.pendingConfirmations) hr hrow (hid.trans hrowid.symm)
  rw [hsame, hpending] at hconfirmed
  cases hconfirmed

theorem mem_rewritten_confirmed {e id : ℕ} {f : PendingConfirmation → PendingConfirmation}
    {hf : ∀ row, (f row).id = row.id} {row r : PendingConfirmation}
    (h : findConfirmation db e id = some row) (hpending : row.status = .pending)
    (hr : r.status = .confirmed) : r ∈ (rewritten e id f hf db).pendingConfirmations ↔
      r ∈ db.pendingConfirmations ∨ r = f row := by
  rw [mem_rewritten h]
  constructor
  · rintro (hnew | ⟨hold, -⟩)
    · exact .inr hnew
    · exact .inl hold
  · rintro (hold | hnew)
    · exact .inr ⟨hold, id_ne_of_confirmed h hpending hold hr⟩
    · exact .inl hnew

theorem mem_waits_confirmed {db' : LedgerDb} (h : Waits db db') {r : PendingConfirmation}
    (hr : r.status = .confirmed) : r ∈ db'.pendingConfirmations ↔ r ∈ db.pendingConfirmations := by
  cases h with
  | same h => rw [h]
  | staged row hfresh hwaiting h =>
    rw [h, Table.mem_insertNew hfresh, or_iff_left]
    rintro rfl
    rw [hwaiting] at hr
    cases hr

/-- No request but a confirmation confirms a row. -/
theorem mem_request_confirmed (names : NameRules) {request : Request}
    (hconfirm : ∀ i now draw, request ≠ .confirm i now draw) (stop : Option ℕ)
    {r : PendingConfirmation} (hr : r.status = .confirmed) :
    r ∈ (leaves stop (request.program names ctx) db).pendingConfirmations ↔
      r ∈ db.pendingConfirmations := by
  have hwaits (hedit : ∀ i edits, request ≠ .edit i edits) (hreject : ∀ i now, request ≠ .reject i now) :
      r ∈ (leaves stop (request.program names ctx) db).pendingConfirmations ↔
        r ∈ db.pendingConfirmations :=
    mem_waits_confirmed (request_waits names hedit hreject hconfirm stop) hr
  cases request with
  | service call draw => exact hwaits (by simp) (by simp)
  | capture call confidence tier forceStage rowId draw => exact hwaits (by simp) (by simp)
  | propose action confidence prompt rowId => exact hwaits (by simp) (by simp)
  | confirm id now draw => exact absurd rfl (hconfirm id now draw)
  | edit id edits =>
    rcases edit_cases edits stop with hsame | ⟨row, hfound, hpending, -, hleft⟩
    · exact iff_of_eq (congrArg (r ∈ ·.pendingConfirmations) hsame)
    · refine (iff_of_eq (congrArg (r ∈ ·.pendingConfirmations) hleft)).trans
        ((mem_rewritten_confirmed hfound hpending hr).trans (or_iff_left ?_))
      rintro rfl
      exact absurd (hpending.symm.trans hr) (by simp)
  | reject id now =>
    rcases reject_cases now stop with hsame | ⟨row, hfound, hpending, hleft⟩
    · exact iff_of_eq (congrArg (r ∈ ·.pendingConfirmations) hsame)
    · refine (iff_of_eq (congrArg (r ∈ ·.pendingConfirmations) hleft)).trans
        ((mem_rewritten_confirmed hfound hpending hr).trans (or_iff_left ?_))
      rintro rfl
      cases hr

end steps
end Akabbo.ConfirmationOutcomes
