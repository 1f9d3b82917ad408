import Akabbo.ConfirmationOutcomes
import Akabbo.ContributionSteps

/-!
# What you confirm is what is written

A row that waits shows a name and amounts, and is executed by the ids it holds or by the name
as it resolves then. When the rows written by a confirmation are those that its row shows.
-/
namespace Akabbo.ConfirmedAsShown
open Access RowTable StatementProgram ProgramParts StoppedCalls WeakestPreconditions LedgerState
open ServiceSteps ExecutorSteps CaptureSteps ContributionSteps ToolExecutor Confirmations
open CaptureRouting ExecutorFrame TenantClosure ConfirmationOutcomes
open StatementProgram.Program (query)

/-- The texts under which an action is shown: as it is staged, and as it is shown once edited. -/
def phrasings : StoredAction → List String
  | .addPerson name phone _ => [s!"Add {name}{describeSuffix phone} as a contributor?"]
  | .recordPledge none name amount type description phone line =>
      let suffix := describeSuffix description
      [renderPendingPrompt (.recordPledge none name amount type description phone line),
        s!"Add {name} as a contributor and record their pledge of {formatAmount amount}{suffix}?"]
  | .recordPledgeWithPayment none name amount receivedNow type description phone line =>
      let suffix := describeSuffix description
      [renderPendingPrompt
          (.recordPledgeWithPayment none name amount receivedNow type description phone line),
        s!"Add {name} as a contributor, record their pledge of {formatAmount amount}{suffix}, " ++
          s!"and {formatAmount receivedNow} already received?"]
  | .recordDirectContribution none name amount phone type description line =>
      [renderPendingPrompt (.recordDirectContribution none name amount phone type description line),
        s!"Add {name} as a contributor and record their contribution of {formatAmount amount}" ++
          s!"{describeSuffix description}?"]
  | action => [renderPendingPrompt action]

theorem render_mem_phrasings {action : StoredAction} (h : isContribution action = true) :
    renderPendingPrompt action ∈ phrasings action := by
  cases action with
  | recordPledge personId => cases personId <;> simp [phrasings]
  | recordPledgeWithPayment personId => cases personId <;> simp [phrasings]
  | recordPayment => simp [phrasings]
  | recordDirectContribution personId => cases personId <;> simp [phrasings]
  | _ => cases h

/-- The row says what its action does, in one of these texts. -/
def Phrased (row : PendingConfirmation) : Prop := row.prompt ∈ phrasings row.payload

section rows
variable {db : LedgerDb} {ctx : OperationContext} {names : NameRules} {id : ℕ}

theorem resolved_phrased {e : ℕ} {tier : CaptureTier} {call : ToolCall} {action : StoredAction}
    {prompt : String} (h : ResolvesTo names db e tier call (.action action prompt)) :
    prompt ∈ phrasings action := by
  generalize hr : ResolvedWrite.action action prompt = r at h
  cases h with
  | clarified call r => cases hr
  | person name phone shared =>
    cases hr
    exact List.mem_singleton_self _
  | newPledge name amount type description receivedNow line received =>
    cases received <;> (cases hr; exact List.mem_cons_of_mem _ (List.mem_singleton_self _))
  | pledge name amount type description receivedNow line received =>
    cases received <;> (cases hr; exact List.mem_singleton_self _)
  | newGift name amount type description line =>
    cases hr
    exact List.mem_cons_of_mem _ (List.mem_singleton_self _)
  | payment name amount type description line i =>
    cases hp : pledgeOf db e i with
    | none =>
      rw [hp] at hr
      cases hr
      exact List.mem_singleton_self _
    | ambiguous candidates =>
      rw [hp] at hr
      cases hr
    | resolved j =>
      rw [hp] at hr
      cases hr
      exact List.mem_singleton_self _

/-- Every row that is new says what its action does. -/
def AddsPhrased (db db' : LedgerDb) : Prop :=
  ∀ r ∈ db'.pendingConfirmations, r ∈ db.pendingConfirmations ∨ Phrased r

theorem addsPhrased_capture {call : ToolCall} {confidence : ℚ} {tier : CaptureTier}
    {forceStage : Bool} {rowId : ℕ} {draw : ExecDraw} (stop : Option ℕ) :
    AddsPhrased db (leaves stop (Request.program names ctx
      (.capture call confidence tier forceStage rowId draw)) db) := by
  have hsame (s : LedgerDb) (h : SamePending db s) : AddsPhrased db s := fun r hr => .inl (h ▸ hr)
  have hroute : wp (AddsPhrased db) (route ctx names call confidence tier forceStage rowId draw)
      (fun _ => AddsPhrased db) db := by
    refine wp_route (fun _ _ => hsame db rfl) (fun action _ _ => ?_) fun action prompt hr hfresh => ?_
    · exact wp_mono (wp_weaken (wp_of_frames (frames_run ctx names .aiFromChat draw action)) hsame)
        fun _ => hsame
    · intro r hmem
      rcases (Table.mem_insertNew hfresh).mp hmem with hold | rfl
      · exact .inl hold
      · exact .inr (resolved_phrased hr)
  have hprogram : wp (AddsPhrased db) (Request.program names ctx
      (.capture call confidence tier forceStage rowId draw)) (fun _ => AddsPhrased db) db :=
    wp_map hroute
  exact leaves_wp (I := AddsPhrased db) (fun _ _ h => h) hprogram (hsame db rfl) stop

theorem isContribution_of_editable {action : StoredAction} (h : action.tool ∈ editableIntents) :
    isContribution action = true := by
  cases action <;> first | rfl | simp [StoredAction.tool, editableIntents] at h

theorem isContribution_edited (edits : UpdatePendingInput) (action : StoredAction) :
    isContribution (edited edits action) = isContribution action := by
  cases action <;> rfl

/-- The row with this id says what its action does. -/
def SaysSo (id : ℕ) (db : LedgerDb) : Prop := ∃ r ∈ db.pendingConfirmations, r.id = id ∧ Phrased r

theorem saysSo_rewritten {e i : ℕ} {f : PendingConfirmation → PendingConfirmation}
    {hf : ∀ row, (f row).id = row.id} {row : PendingConfirmation} (h : SaysSo id db)
    (hfound : findConfirmation db e i = some row) (hphrased : Phrased row → Phrased (f row)) :
    SaysSo id (rewritten e i f hf db) := by
  obtain ⟨r, hr, rfl, hsays⟩ := h
  obtain ⟨hrow, -, hid⟩ := findConfirmation_mem hfound
  by_cases hri : r.id = i
  · have hsame : r = row := Table.key_inj (t := db.pendingConfirmations) hr hrow (hri.trans hid.symm)
    exact ⟨f row, (mem_rewritten hfound).mpr (.inl rfl), (hf row).trans (congrArg _ hsame.symm),
      hphrased (hsame ▸ hsays)⟩
  · exact ⟨r, (mem_rewritten hfound).mpr (.inr ⟨hr, hri⟩), rfl, hsays⟩

theorem saysSo_waits {db' : LedgerDb} (h : SaysSo id db) (hwaits : Waits db db') : SaysSo id db' := by
  obtain ⟨r, hr, hid, hsays⟩ := h
  cases hwaits with
  | same hsame => exact ⟨r, hsame ▸ hr, hid, hsays⟩
  | staged row hfresh hpending hadded =>
    exact ⟨r, hadded ▸ Table.mem_insertNew_of_mem hr, hid, hsays⟩

/-- Whatever is requested, the row goes on saying what its action does. -/
theorem saysSo_step (h : SaysSo id db) (inv : Invocation) : SaysSo id (inv.step names db) := by
  obtain ⟨ctx, request, stop⟩ := inv
  cases request with
  | service call draw => exact saysSo_waits h (request_waits names (by simp) (by simp) (by simp) stop)
  | capture call confidence tier forceStage rowId draw =>
    exact saysSo_waits h (request_waits names (by simp) (by simp) (by simp) stop)
  | propose action confidence prompt rowId =>
    exact saysSo_waits h (request_waits names (by simp) (by simp) (by simp) stop)
  | edit i edits =>
    change SaysSo id (leaves stop (discard (update ctx i edits) : LedgerProgram Unit) db)
    rcases edit_cases edits stop with hsame | ⟨row, hfound, -, hlegal, hleft⟩
    · rw [hsame]
      exact h
    · rw [hleft]
      refine saysSo_rewritten h hfound fun _ => render_mem_phrasings ?_
      rw [isContribution_edited]
      refine isContribution_of_editable ?_
      unfold editRefusal at hlegal
      split_ifs at hlegal with hintent
      exact hintent
  | reject i now =>
    change SaysSo id (leaves stop (discard (reject ctx i now) : LedgerProgram Unit) db)
    rcases reject_cases now stop with hsame | ⟨row, hfound, -, hleft⟩
    · rw [hsame]
      exact h
    · rw [hleft]
      exact saysSo_rewritten h hfound fun hphrased => hphrased
  | confirm i now draw =>
    have hleaves : leaves stop (Request.program names ctx (.confirm i now draw)) db =
        leaves stop (confirm ctx names i now draw) db := leaves_map _ _ stop db
    change SaysSo id (leaves stop (Request.program names ctx (.confirm i now draw)) db)
    rw [hleaves]
    rcases confirm_cases names draw stop with ⟨-, -, hsame⟩ | ⟨row, -, hfound, -, hsame, -⟩
    · rw [hsame]
      exact h
    · have hmarked : SaysSo id (marked ctx i now db) :=
        saysSo_rewritten h hfound fun hphrased => hphrased
      obtain ⟨r, hr, hid, hsays⟩ := hmarked
      exact ⟨r, hsame ▸ hr, hid, hsays⟩

theorem saysSo_run (h : SaysSo id db) (requests : List Invocation) :
    SaysSo id (requestRun names db requests) := by
  induction requests generalizing db with
  | nil => exact h
  | cons inv rest ih => exact ih (saysSo_step h inv)

end rows

/-- Somebody with this id bears this name. -/
def Named (db : LedgerDb) (name : String) (i : ℕ) : Prop :=
  ∃ q ∈ db.persons, q.id = i ∧ q.displayName = name

/-- The pledges and payments added since carry the amounts of the action, and are those of a
contributor of the name that stands in it. -/
structure AsShown (db db' : LedgerDb) (action : StoredAction) : Prop where
  pledges : ∀ p ∈ db'.pledges, db.pledges.has p.id = false →
    some p.committedValue = pledgedValue action ∧ Named db' (contributorName action) p.personId
  payments : ∀ f ∈ db'.fulfillments, db.fulfillments.has f.id = false →
    some f.value = receivedValue action ∧
      ∃ p ∈ db'.pledges, p.id = f.pledgeId ∧ Named db' (contributorName action) p.personId

/-- Whom the action is for, if anybody yet, bears the name that stands in it. -/
def NameStands (names : NameRules) (db : LedgerDb) (e : ℕ) (action : StoredAction) : Prop :=
  ∀ i, recipient names db e action = some i → Named db (contributorName action) i

section written
variable {ctx : OperationContext} {names : NameRules} {action : StoredAction} {db v v' : LedgerDb}

theorem has_pledge_of_same {p p' : Pledge} (hp : p ∈ v.pledges) (h : SamePledge p p') :
    v.pledges.has p'.id = true := Table.has_iff.mpr ⟨p, hp, h.1.symm⟩

theorem has_payment {f : Fulfillment} (hf : f ∈ v.fulfillments) :
    v.fulfillments.has f.id = true := Table.has_iff.mpr ⟨f, hf, rfl⟩

/-- What is booked for somebody of the name is as shown. -/
theorem asShown_of_booked {i : ℕ}
    (h : Booked v v' i (pledgedValue action) (receivedValue action))
    (hnamed : Named v (contributorName action) i) : AsShown v v' action := by
  have hnamed' : Named v' (contributorName action) i := by
    unfold Named
    rw [h.persons]
    exact hnamed
  constructor
  · intro p hp hnew
    rcases h.pledge p hp with ⟨p₀, hp₀, hsame⟩ | ⟨-, hperson, hvalue⟩
    · exact absurd (has_pledge_of_same hp₀ hsame) (by simp [hnew])
    · exact ⟨hvalue, hperson ▸ hnamed'⟩
  · intro f hf hnew
    rcases h.payment f hf with hold | ⟨-, hvalue, p, hp, hpf, hperson⟩
    · exact absurd (has_payment hold) (by simp [hnew])
    · exact ⟨hvalue, p, hp, hpf, hperson ▸ hnamed'⟩

/-- Something is booked, so whoever it is booked for bears the name. -/
theorem named_of_asShown {i : ℕ}
    (h : Booked v v' i (pledgedValue action) (receivedValue action)) (hshown : AsShown v v' action) :
    Named v (contributorName action) i := by
  have hnamed : Named v' (contributorName action) i := by
    rcases h.entered with ⟨p, hp, hnew⟩ | ⟨f, hf, hnew⟩
    · rcases h.pledge p hp with ⟨p₀, hp₀, hsame⟩ | ⟨-, hperson, -⟩
      · exact absurd (has_pledge_of_same hp₀ hsame) (by simp [hnew])
      · exact hperson ▸ (hshown.pledges p hp hnew).2
    · rcases h.payment f hf with hold | ⟨-, -, p, hp, hpf, hperson⟩
      · exact absurd (has_payment hold) (by simp [hnew])
      · obtain ⟨-, q, hq, hqf, hq'⟩ := hshown.payments f hf hnew
        have hsame : q = p := Table.key_inj (t := v'.pledges) hq hp (hqf.trans hpf.symm)
        rw [hsame, hperson] at hq'
        exact hq'
  unfold Named at hnamed
  rw [h.persons] at hnamed
  exact hnamed

theorem asShown_iff (h : Contributes ctx names action v v') :
    AsShown v v' action ↔ NameStands names v ctx.event.eventId action := by
  rcases h with ⟨i, hi, hbooked⟩ | ⟨hnone, i, v₁, hadded, hbooked⟩
  · constructor
    · intro hshown j hj
      obtain rfl := Option.some.inj (hi.symm.trans hj)
      exact named_of_asShown hbooked hshown
    · exact fun hstands => asShown_of_booked hbooked (hstands i hi)
  · refine ⟨fun _ i hi => absurd (hnone.symm.trans hi) (by simp), fun _ => ?_⟩
    cases hadded with
    | mk q row hid hevent hname hphone hfresh haudit =>
      have hq : q ∈ v.persons.insertNew q := (Table.mem_insertNew hfresh).mpr (.inr rfl)
      have hshown := asShown_of_booked hbooked ⟨q, hq, hid, hname⟩
      exact ⟨hshown.pledges, hshown.payments⟩

/-- A confirmation that returns has executed the action of its row. -/
theorem contributes_of_confirm {id now : ℕ} {draw : ExecDraw} {row : PendingConfirmation}
    (hrow : findConfirmation db ctx.event.eventId id = some row)
    (hc : isContribution row.payload = true) {result : ExecutionResult} {db' : LedgerDb}
    (h : Program.run (confirm ctx names id now draw) db = (.ok result, db')) :
    Contributes ctx names row.payload (marked ctx id now db) db' := by
  have hwp : wp (fun _ => True) (confirm ctx names id now draw)
      (fun _ v' => Contributes ctx names row.payload (marked ctx id now db) v') db := by
    refine wp_bind <| wp_mono wp_claim ?_
    rintro x v ⟨row', hfound, -, rfl, rfl⟩
    obtain rfl := Option.some.inj (hrow.symm.trans hfound)
    exact wp_commitNow_bind trivial <| wp_mono (wp_contribution names hc fun _ _ _ => trivial)
      fun _ _ => contributes_of_as
  exact wp_of_run hwp h

end written

/-- A row that a tool call has staged, after any requests, shows its action; confirmed with
success, it is written as it is shown exactly when whom it is for bears the name it shows. -/
theorem confirmed_as_shown_iff (names : NameRules) (db : LedgerDb) (ctx₀ : OperationContext)
    (call : ToolCall) (confidence : ℚ) (tier : CaptureTier) (forceStage : Bool) (id : ℕ)
    (draw₀ : ExecDraw) (stop : Option ℕ) (requests : List Invocation)
    (hnew : db.pendingConfirmations.has id = false)
    (hstaged : (((⟨ctx₀, .capture call confidence tier forceStage id draw₀, stop⟩ :
      Invocation).step names db).pendingConfirmations.has id) = true)
    {ctx : OperationContext} {now : ℕ} {draw : ExecDraw} {row : PendingConfirmation}
    {db₁ db₂ : LedgerDb} {result : ExecutionResult}
    (hrun : db₁ = requestRun names db
      (⟨ctx₀, .capture call confidence tier forceStage id draw₀, stop⟩ :: requests))
    (hrow : findConfirmation db₁ ctx.event.eventId id = some row)
    (hc : isContribution row.payload = true)
    (hconfirm : Program.run (confirm ctx names id now draw) db₁ = (.ok result, db₂)) :
    Phrased row ∧ (AsShown db₁ db₂ row.payload ↔
      NameStands names db₁ ctx.event.eventId row.payload) := by
  constructor
  · obtain ⟨r, hr, hid⟩ := Table.has_iff.mp hstaged
    have hphrased : Phrased r := by
      rcases addsPhrased_capture stop r hr with hold | hphrased
      · exact absurd (Table.has_iff.mpr ⟨r, hold, hid⟩) (by simp [hnew])
      · exact hphrased
    have hsays : SaysSo id db₁ := by
      rw [hrun]
      exact saysSo_run ⟨r, hr, hid, hphrased⟩ requests
    obtain ⟨r', hr', hid', hphrased'⟩ := hsays
    obtain ⟨hmem, -, hrowid⟩ := findConfirmation_mem hrow
    have hsame : r' = row :=
      Table.key_inj (t := db₁.pendingConfirmations) hr' hmem (hid'.trans hrowid.symm)
    exact hsame ▸ hphrased'
  · have hiff := asShown_iff (contributes_of_confirm hrow hc hconfirm)
    exact ⟨fun hshown => hiff.mp ⟨hshown.pledges, hshown.payments⟩, fun hstands =>
      ⟨(hiff.mpr hstands).pledges, (hiff.mpr hstands).payments⟩⟩

def secretary : OperationContext := ⟨⟨1, true⟩, ⟨7, .owner, .active⟩⟩

/-- An event with one contributor, Achieng. -/
def oneContributor : LedgerDb :=
  { LedgerDb.empty with
    persons := LedgerDb.empty.persons.insertNew
      ⟨3, 7, "Achieng", none, none, .humanTyped, some 1, 0⟩ }

/-- A pledge of 500 by Achieng is proposed. -/
def proposed : Invocation :=
  ⟨secretary, .capture (.recordPledge "Achieng" "500" none none none none) 1 .llm true 9
    (.simple 20 10), none⟩

/-- The name that is shown is changed to Okello. -/
def renamed : Invocation := ⟨secretary, .edit 9 { displayName := some "Okello" }, none⟩

def renamedRow : PendingConfirmation :=
  { id := 9
    eventId := 7
    payload := .recordPledge (some 3) "Okello" "500" none none none none
    confidence := some 1
    source := .aiFromChat
    status := .pending
    prompt := "Record Okello's pledge of 500?"
    createdById := some 1
    resolvedById := none
    resolvedAt := none }

/-- The ledger once the renamed row is confirmed. -/
def afterRename : Except Refusal ExecutionResult × LedgerDb :=
  Program.run (confirm secretary plainNames 9 11 (.simple 20 11))
    (requestRun plainNames oneContributor [proposed, renamed])

set_option maxRecDepth 4000 in
/-- Confirmed under the name Okello, the pledge is Achieng's. -/
theorem renamed_pledge_is_the_old_contributors :
    (¬ ∀ (names : NameRules) (db : LedgerDb) (ctx₀ : OperationContext) (call : ToolCall)
      (confidence : ℚ) (tier : CaptureTier) (forceStage : Bool) (id : ℕ) (draw₀ : ExecDraw)
      (stop : Option ℕ) (requests : List Invocation) (ctx : OperationContext) (now : ℕ)
      (draw : ExecDraw) (row : PendingConfirmation) (db₁ db₂ : LedgerDb) (result : ExecutionResult),
      db.pendingConfirmations.has id = false →
      db₁ = requestRun names db
        (⟨ctx₀, .capture call confidence tier forceStage id draw₀, stop⟩ :: requests) →
      findConfirmation db₁ ctx.event.eventId id = some row → isContribution row.payload = true →
      Program.run (confirm ctx names id now draw) db₁ = (.ok result, db₂) →
      AsShown db₁ db₂ row.payload) ∧
    afterRename.2.pledges.rows.map (fun p => (p.personId, p.committedValue)) = [(3, 500)] := by
  refine ⟨fun h => ?_, by decide⟩
  have hrow : findConfirmation (requestRun plainNames oneContributor [proposed, renamed]) 7 9 =
      some renamedRow := by decide
  obtain ⟨result, hok⟩ : ∃ result, afterRename.1 = .ok result := ⟨_, rfl⟩
  have hshown := h plainNames oneContributor secretary _ _ _ _ 9 _ _ [renamed] secretary 11
    (.simple 20 11) renamedRow _ afterRename.2 result (by decide) rfl hrow rfl (Prod.ext hok rfl)
  have hpledge : ∃ p ∈ afterRename.2.pledges.rows, p.id = 20 ∧ p.personId = 3 := by decide
  obtain ⟨p, hp, hid, hperson⟩ := hpledge
  have hnew : (requestRun plainNames oneContributor [proposed, renamed]).pledges.has p.id = false := by
    rw [hid]
    decide
  obtain ⟨-, q, hq, -, hname⟩ := hshown.pledges p hp hnew
  have hnames : ∀ q ∈ afterRename.2.persons.rows, q.displayName ≠ "Okello" := by decide
  exact hnames q hq hname

set_option maxRecDepth 4000 in
/-- Left as it was proposed, it is written as it is shown. -/
theorem confirmed_as_shown_iff_unedited :
    ∃ row result db₂,
      findConfirmation (requestRun plainNames oneContributor [proposed]) secretary.event.eventId 9 = some row ∧
      Program.run (confirm secretary plainNames 9 11 (.simple 20 11))
        (requestRun plainNames oneContributor [proposed]) = (.ok result, db₂) ∧
      Phrased row ∧ AsShown (requestRun plainNames oneContributor [proposed]) db₂ row.payload := by
  obtain ⟨row, hrow, hpayload⟩ : ∃ row,
      findConfirmation (requestRun plainNames oneContributor [proposed]) secretary.event.eventId 9 = some row ∧
      row.payload = .recordPledge (some 3) "Achieng" "500" none none none none := ⟨_, rfl, rfl⟩
  obtain ⟨result, db₂, hok⟩ : ∃ result db₂,
      Program.run (confirm secretary plainNames 9 11 (.simple 20 11))
        (requestRun plainNames oneContributor [proposed]) = (.ok result, db₂) := ⟨_, _, rfl⟩
  have hshown := confirmed_as_shown_iff plainNames oneContributor secretary _ _ _ _ 9 _ _ []
    (by decide) (by decide) rfl hrow (by rw [hpayload]; rfl) hok
  refine ⟨row, result, db₂, hrow, hok, hshown.1, hshown.2.mpr fun i hi => ?_⟩
  rw [hpayload] at hi ⊢
  obtain rfl := Option.some.inj hi
  exact ⟨⟨3, 7, "Achieng", none, none, .humanTyped, some 1, 0⟩, by decide, rfl, rfl⟩

end Akabbo.ConfirmedAsShown
