import Akabbo.MeteredCaptures
import Akabbo.PaidConfirmations
import Akabbo.PublicNotices
import Akabbo.TeamCalls

/-!
# What a viewer's requests change

Every request about an event, made by a member who may only look. All but four are refused
before they write, or only read; a waiting row may still be edited, rejected or marked
confirmed, whoever comes to an invitation too late marks it expired, and an utterance that the
language model reads is metered.
-/
namespace Akabbo.ViewerCalls
open Access RowTable StatementProgram ProgramParts StoppedCalls WeakestPreconditions LedgerState
open LedgerWrites hiding Invocation
open EventWrites ServiceCalls ServiceSteps ExecutorSteps ToolExecutor Confirmations CaptureRouting
open CaptureSteps CaptureStaging PublicNotices TeamCalls ConfirmationOutcomes
open TwoConnections hiding onStored
open PaidCampaigns
open MeteredCaptures
open SmsCampaigns (CampaignDraw)
open StatementProgram.Program (query refuse)

inductive ReadRequest
  | getEvent | listPeople | listPledges | getPledgeOutstanding | listItems
  | getBudgetItemFundersById | getEventTotals | getEventReport | getFundingSummary | getAuditTrail
  | getPaginatedContributors | exportCsv | listPending | getSettings | listAnnouncements
  | listPaymentInstructions | previewReminders | listCampaigns | delivery | getSignedUrl
  | getDocument | getByToken | listInvitations | listMembers | listGroups
  deriving DecidableEq, Repr

inductive NoticeCall
  | createAnnouncement (body : String)
  | publish (id : ℕ)
  | archive (id : ℕ)
  | createInstruction (input : PaymentInstructionInput)
  | updateInstruction (id : ℕ) (input : PaymentInstructionUpdate)
  | removeInstruction (id : ℕ)
  deriving DecidableEq, Repr

def NoticeCall.program (ctx : OperationContext) (draw : EventDraw) :
    NoticeCall → LedgerProgram Unit
  | .createAnnouncement body => discard (PublicNotices.createAnnouncement ctx body .humanTyped draw)
  | .publish id => discard (PublicNotices.publish ctx id draw.now)
  | .archive id => discard (PublicNotices.archive ctx id draw.now)
  | .createInstruction input => discard (PublicNotices.createInstruction ctx input draw)
  | .updateInstruction id input => discard (PublicNotices.updateInstruction ctx id input)
  | .removeInstruction id => discard (PublicNotices.removeInstruction ctx id)

inductive EventRequest
  | read (request : ReadRequest) (arguments : List String)
  | service (call : ServiceCall) (draw : ServiceDraw)
  | notice (call : NoticeCall) (draw : EventDraw)
  | sendReminders (body : String) (personIds : List ℕ) (campaign : CampaignDraw)
      (draw : BillingState.Draw)
  | sendAnnouncement (body : String) (personIds : List ℕ) (campaign : CampaignDraw)
      (draw : BillingState.Draw)
  | capture (utterance : String) (llm : Except Refusal LlmCompletionResult) (rowId meterId : ℕ)
      (draw : ExecDraw)
  | edit (id : ℕ) (edits : UpdatePendingInput)
  | confirm (id now : ℕ) (draw : ExecDraw) (credit : BillingState.Draw)
  | reject (id now : ℕ)

/-- How names and utterances are read, and what each reading request answers. -/
structure RequestRules where
  names : NameRules
  capture : CaptureRules
  answer : ReadRequest → OperationContext → List String → MeteredRows → Except Refusal String

def EventRequest.program (rules : RequestRules) (ctx : OperationContext) :
    EventRequest → MeteredProgram Unit
  | .read request arguments => do
      let answer ← query fun s => rules.answer request ctx arguments s
      match answer with
      | .ok _ => return ()
      | .error e => .throw e
  | .service call draw => onStored (discard (call.program ctx draw))
  | .notice call draw => onStored (discard (call.program ctx draw))
  | .sendReminders body personIds campaign draw =>
      onRows (discard (PaidCampaigns.sendReminders ctx body personIds campaign draw))
  | .sendAnnouncement body personIds campaign draw =>
      onRows (discard (PaidCampaigns.sendAnnouncement ctx body personIds campaign draw))
  | .capture utterance llm rowId meterId draw =>
      discard (MeteredCaptures.capture ctx rules.names rules.capture utterance llm false rowId meterId
        draw)
  | .edit id edits => onStored (discard (update ctx id edits))
  | .confirm id now draw credit =>
      onRows (discard (PaidConfirmations.confirm ctx rules.names id now draw credit))
  | .reject id now => onStored (discard (Confirmations.reject ctx id now))

/-- The request is one about the caller's event: it makes no new one, and an invitation that it
accepts is to this one. -/
def Concerns (db : LedgerDb) (ctx : OperationContext) : EventRequest → Prop
  | .service (.createEvent _) _ => False
  | .service (.acceptInvitation token) _ =>
      ∀ inv, (db.invitations.find? fun i => i.token == token) = some inv →
        inv.eventId = ctx.event.eventId
  | _ => True

theorem id_expired (i : Invitation) : ({ i with status := .expired } : Invitation).id = i.id := rfl

def expire (id : ℕ) (db : LedgerDb) : LedgerDb :=
  { db with
    invitations := db.invitations.update (fun i => i.id == id) (fun i => { i with status := .expired })
      id_expired }

theorem id_edited (edits : UpdatePendingInput) (row r : PendingConfirmation) :
    ({ r with
      payload := edited edits row.payload
      prompt := renderPendingPrompt (edited edits row.payload) } : PendingConfirmation).id = r.id := rfl

/-- What a request of a viewer may change. An edit or a rejection that does not return, and a
confirmation of any outcome, are told apart from one that returns. -/
def MayChange (ctx : OperationContext) (db db' : LedgerDb) (returns : Bool) : EventRequest → Prop
  | .edit id edits => returns = true ∧
      ∃ row, findConfirmation db ctx.event.eventId id = some row ∧ row.status = .pending ∧
        db' = rewritten ctx.event.eventId id (fun r => { r with
          payload := edited edits row.payload
          prompt := renderPendingPrompt (edited edits row.payload) }) (id_edited edits row) db
  | .reject id now => returns = true ∧
      ∃ row, findConfirmation db ctx.event.eventId id = some row ∧ row.status = .pending ∧
        db' = rewritten ctx.event.eventId id (resolveAs .rejected ctx now)
          (id_resolveAs .rejected ctx now) db
  | .confirm id now .. => returns = false ∧
      ∃ row, findConfirmation db ctx.event.eventId id = some row ∧ row.status = .pending ∧
        db' = rewritten ctx.event.eventId id (resolveAs .confirmed ctx now)
          (id_resolveAs .confirmed ctx now) db
  | .service (.acceptInvitation token) draw => returns = false ∧
      ∃ inv, (db.invitations.find? fun i => i.token == token) = some inv ∧
        inv.eventId = ctx.event.eventId ∧ inv.expiresAt ≤ draw.event.now ∧
        inv.status ≠ .expired ∧ db' = expire inv.id db
  | _ => False

section denial
variable {I : LedgerDb → Prop} {ρ : Type} {Q : ρ → LedgerDb → Prop} {ctx : OperationContext}
  {db : LedgerDb} {action : Action}

theorem assertPermission_viewer (hrole : ctx.event.role = .viewer) (h : can .viewer action = false) :
    assertPermission ctx.event.role action ≠ none := by
  unfold assertPermission
  rw [hrole, h]
  simp

theorem wp_denied {next : Unit → LedgerProgram ρ} (hrole : ctx.event.role = .viewer)
    (h : can .viewer action = false) :
    wp I (refuse (assertPermission ctx.event.role action) >>= next) Q db :=
  wp_refuse_bind fun hcan => absurd hcan (assertPermission_viewer hrole h)

theorem wp_gates_denied {next : Unit → LedgerProgram ρ} (hrole : ctx.event.role = .viewer)
    (h : can .viewer action = false) : wp I (gates ctx action >>= next) Q db :=
  wp_gates_bind fun hcan _ => absurd hcan (assertPermission_viewer hrole h)

theorem wp_service_denied {I : LedgerDb → Prop} {Q : Unit → LedgerDb → Prop} {call : ServiceCall}
    {draw : ServiceDraw} (hrole : ctx.event.role = .viewer)
    (h : ∀ input, call ≠ .createEvent input) (h' : ∀ token, call ≠ .acceptInvitation token) :
    wp I (call.program ctx draw) Q db := by
  cases call with
  | createEvent input => exact absurd rfl (h input)
  | acceptInvitation token => exact absurd rfl (h' token)
  | ledger call =>
    cases call with
    | createPerson ent input => exact wp_map <| wp_map <| wp_gates_denied hrole rfl
    | createPledge input => exact wp_map <| wp_map <| wp_gates_denied hrole rfl
    | recordFulfillment input => exact wp_map <| wp_map <| wp_gates_denied hrole rfl
    | recordDirectContribution input => exact wp_map <| wp_map <| wp_gates_denied hrole rfl
    | recordPledgeWithPayment input => exact wp_map <| wp_map <| wp_gates_denied hrole rfl
    | correctCommittedValue i value => exact wp_map <| wp_map <| wp_gates_denied hrole rfl
    | correctValue i value => exact wp_map <| wp_map <| wp_gates_denied hrole rfl
    | cancelPledge i => exact wp_map <| wp_map <| wp_gates_denied hrole rfl
    | mergePeople i j => exact wp_map <| wp_map <| wp_gates_denied hrole rfl
  | setEventStatus status => exact wp_map <| wp_denied hrole rfl
  | updateSettings input => exact wp_map <| wp_denied hrole rfl
  | rotateAccessToken => exact wp_map <| wp_denied hrole rfl
  | clearAccessToken => exact wp_map <| wp_denied hrole rfl
  | revokeInvitation id => exact wp_denied hrole rfl
  | _ => exact wp_map <| wp_gates_denied hrole rfl

theorem wp_notice_denied {I : LedgerDb → Prop} {Q : Unit → LedgerDb → Prop} {call : NoticeCall}
    {draw : EventDraw} (hrole : ctx.event.role = .viewer) : wp I (call.program ctx draw) Q db := by
  cases call with
  | createAnnouncement body => exact wp_map <| wp_denied hrole rfl
  | publish id => exact wp_map <| wp_denied hrole rfl
  | archive id => exact wp_map <| wp_denied hrole rfl
  | createInstruction input => exact wp_map <| wp_denied hrole rfl
  | updateInstruction id input => exact wp_map <| wp_denied hrole rfl
  | removeInstruction id => exact wp_map <| wp_denied hrole rfl

section execution
variable {I : LedgerDb → Prop} {Q : ExecutionResult → LedgerDb → Prop} {names : NameRules}
  {source : ProvenanceSource} {draw : ExecDraw}

/-- A viewer finds a contributor by name, and adds none. -/
theorem wp_target_denied {personId : Option ℕ} {name : String} {phone : Option String}
    {f : ℕ → LedgerProgram ExecutionResult} (hrole : ctx.event.role = .viewer)
    (hf : ∀ i, wp I (f i) Q db) :
    wp I (targetPerson ctx names personId name source phone draw >>= f) Q db := by
  cases personId with
  | some i => exact hf i
  | none =>
    refine wp_bind <| wp_query_bind ?_
    split
    · exact wp_pure (hf _)
    · exact wp_bind <| wp_gates_denied hrole rfl

theorem wp_recordPayment_denied {i amount : ℕ} {name : String} (hrole : ctx.event.role = .viewer) :
    wp I (recordPayment ctx i name amount source draw) Q db :=
  wp_bind <| wp_gates_denied hrole rfl

theorem wp_giveAs_denied {i amount : ℕ} {name : String} {phone : Option String}
    {type : Option PledgeType} {description : Option String} {line : Option ℕ}
    (hrole : ctx.event.role = .viewer) :
    wp I (giveAs ctx i name amount source phone type description line draw) Q db :=
  wp_bind <| wp_gates_denied hrole rfl

/-- A viewer's confirmation executes nothing: the services check the role again. -/
theorem wp_run_denied (hrole : ctx.event.role = .viewer) (action : StoredAction) :
    wp I (ToolExecutor.run ctx names action source draw) Q db := by
  cases action with
  | addPerson name phone shared => exact wp_bind <| wp_gates_denied hrole rfl
  | recordPledge personId name amount type description phone line =>
    exact wp_bigInt_bind fun _ _ => wp_target_denied hrole fun _ =>
      wp_bind <| wp_gates_denied hrole rfl
  | recordPledgeWithPayment personId name amount receivedNow type description phone line =>
    exact wp_bigInt_bind fun _ _ => wp_bigInt_bind fun _ _ => wp_target_denied hrole fun _ =>
      wp_bind <| wp_gates_denied hrole rfl
  | recordPayment i name amount => exact wp_bigInt_bind fun _ _ => wp_recordPayment_denied hrole
  | recordDirectContribution personId name amount phone type description line =>
    refine wp_bigInt_bind fun _ _ => ?_
    cases personId with
    | some i => exact wp_giveAs_denied hrole
    | none =>
      change wp _ (targetPerson ctx names none name source phone draw >>= _) _ _
      refine wp_target_denied hrole fun i => wp_query_bind ?_
      split
      · exact wp_recordPayment_denied hrole
      · exact wp_giveAs_denied hrole
  | createBudgetItem name targetValue sourceDocumentId =>
    exact wp_bigInt_bind fun _ _ => wp_bind <| wp_gates_denied hrole rfl
  | updateBudgetItem i name targetValue =>
    exact wp_bigInt_bind fun _ _ => wp_bind <| wp_gates_denied hrole rfl
  | removeBudgetItem i name => exact wp_bind <| wp_gates_denied hrole rfl
  | allocateToBudget i j itemName name value =>
    exact wp_bigInt_bind fun _ _ => wp_bind <| wp_gates_denied hrole rfl
  | correctPledge i name newValue =>
    exact wp_bigInt_bind fun _ _ => wp_bind <| wp_gates_denied hrole rfl
  | correctPayment i name newValue =>
    exact wp_bigInt_bind fun _ _ => wp_bind <| wp_gates_denied hrole rfl
  | mergePeople i j sourceName targetName => exact wp_bind <| wp_gates_denied hrole rfl
  | sendSmsReminders body => exact wp_bind <| wp_denied hrole rfl
  | inviteMember role name phone => exact wp_bind <| wp_gates_denied hrole rfl
  | getOutstandingPledge i name => exact wp_bind <| wp_denied hrole rfl
  | getSummary => exact wp_bind <| wp_denied hrole rfl

/-- An utterance of a viewer is at most answered. -/
theorem wp_capture_denied {rules : CaptureRules} {utterance : String}
    {llm : Except Refusal (List RawToolCall)} {rowId : ℕ} (hrole : ctx.event.role = .viewer) :
    wp I (CaptureStaging.capture ctx names rules utterance llm false rowId draw)
      (fun _ w => w = db) db := by
  have hroute {call : ToolCall} {confidence : ℚ} {tier : CaptureTier} :
      wp I (route ctx names call confidence tier false rowId draw) (fun _ w => w = db) db := by
    refine wp_route_of_write (fun _ _ => rfl) ?_
    cases call <;> exact wp_denied hrole rfl
  unfold CaptureStaging.capture
  cases rules.parseTier1 utterance with
  | some call => exact hroute
  | none =>
    cases llm with
    | error e => trivial
    | ok toolCalls =>
      dsimp only
      cases callLlm rules toolCalls with
      | none => exact wp_pure rfl
      | some called => exact hroute

end execution

/-- Whatever the action, nothing is executed: the reminders check the role again as well. -/
theorem wp_confirm_denied {names : NameRules} {id now : ℕ} {draw : ExecDraw}
    {credit : BillingState.Draw} {s : Rows} (hrole : ctx.event.role = .viewer) :
    wp (fun t => ∃ db', (db' = s.stored ∨ MayChange ctx s.stored db' false (.confirm id now draw credit)) ∧
        t = storedPart.put db' s)
      (PaidConfirmations.confirm ctx names id now draw credit) (fun _ _ => False) s := by
  have hclaim : wp (fun t => ∃ db', db' = s.stored ∧ t = storedPart.put db' s)
      (storedPart.run RowsLock.ledger (claim ctx id now)) (fun x t => ∃ db', (∃ row,
        findConfirmation s.stored ctx.event.eventId id = some row ∧ row.status = .pending ∧
          x = (row.payload, row.source) ∧ db' = marked ctx id now s.stored) ∧ t = storedPart.put db' s)
      s := wp_partRun_get wp_claim
  refine wp_bind <| wp_mono (wp_weaken hclaim ?_) ?_
  · rintro t ⟨db', rfl, rfl⟩
    exact ⟨s.stored, .inl rfl, rfl⟩
  · rintro _ _ ⟨_, ⟨row, hfound, hpending, rfl, rfl⟩, rfl⟩
    refine wp_commitNow_bind ⟨_, .inr ⟨rfl, row, hfound, hpending, rfl⟩, rfl⟩ ?_
    by_cases hreminders : ∃ body, row.payload = .sendSmsReminders body
    · obtain ⟨body, hbody⟩ := hreminders
      rw [hbody]
      exact wp_map <| wp_modify_bind <| wp_bind <| wp_refuse_bind fun hcan =>
        absurd hcan (assertPermission_viewer hrole rfl)
    · rw [PaidConfirmations.run_eq names row.source draw credit (not_exists.mp hreminders)]
      have hrun : wp (fun _ => False) (ToolExecutor.run ctx names row.payload row.source draw)
          (fun _ _ => False) (marked ctx id now s.stored) := wp_run_denied hrole row.payload
      refine wp_mono (wp_weaken (wp_partRun hrun) ?_) ?_
      · rintro t ⟨_, hfalse, -⟩
        exact hfalse.elim
      · rintro _ t ⟨_, hfalse, -⟩
        exact hfalse

theorem wp_edit {id : ℕ} {edits : UpdatePendingInput} :
    wp (· = db) (update ctx id edits)
      (fun _ db' => MayChange ctx db db' true (.edit id edits)) db :=
  wp_readPending_bind fun row hfound hpending => wp_refuse_bind fun _ =>
    wp_modifyChecked_bind fun _ _ => wp_pure ⟨rfl, row, hfound, hpending, rfl⟩

theorem wp_reject {id now : ℕ} :
    wp (· = db) (Confirmations.reject ctx id now)
      (fun _ db' => MayChange ctx db db' true (.reject id now)) db :=
  wp_readPending_bind fun row hfound hpending =>
    wp_modifyChecked_bind fun _ _ => wp_pure ⟨rfl, row, hfound, hpending, rfl⟩

/-- Whoever is in already gets nothing by an invitation. -/
theorem wp_join_member {inv : Invitation} {now : ℕ} {role : EventRole} {I : LedgerDb → Prop}
    (hmember : standing db inv.eventId ctx.actor.userId = some role) :
    wp I (join ctx.actor inv now) (fun _ db' => db' = db) db := by
  obtain ⟨m, hm, -⟩ := Option.map_eq_some_iff.mp hmember
  refine wp_query_bind ?_
  rw [hm]
  exact wp_pure rfl

theorem wp_acceptInvitation_member {token : String} {draw : ServiceDraw} {role : EventRole}
    (hmember : standing db ctx.event.eventId ctx.actor.userId = some role)
    (hfor : Concerns db ctx (.service (.acceptInvitation token) draw)) :
    wp (fun db' => db' = db ∨
        MayChange ctx db db' false (.service (.acceptInvitation token) draw))
      (EventWrites.acceptInvitation ctx.actor token draw.event.now) (fun _ db' => db' = db) db := by
  refine wp_query_bind <| wp_orThrow_bind fun inv hinv => wp_refuse_bind fun _ => ?_
  have hevent := hfor inv hinv
  split_ifs with hlate
  · refine wp_runIf_bind (fun hfresh => wp_accept fun _ => ?_)
      fun _ => wp_commitNow_bind (.inl rfl) (wp_throw _)
    have hstatus : inv.status ≠ .expired := by simpa using hfresh
    exact wp_commitNow_bind (.inr ⟨rfl, inv, hinv, hevent, hlate.resolve_left hstatus, hstatus, rfl⟩)
      (wp_throw _)
  · exact wp_join_member (hevent ▸ hmember)

end denial

section requests
variable {s : MeteredRows} {ctx : OperationContext} {ρ : Type}

/-- How a request on the stored rows ends, wherever it is stopped. -/
theorem onStored_cases {p : LedgerProgram ρ} {I P : LedgerDb → Prop}
    (h : wp I p (fun _ => P) s.rows.stored) (hs : I s.rows.stored) (stop : Option ℕ) :
    (finishes stop (onStored p) s = false ∧
      ∃ db', I db' ∧ leaves stop (onStored p) s = ledgerPart.put db' s) ∨
    (finishes stop (onStored p) s = true ∧
      ∃ db', P db' ∧ leaves stop (onStored p) s = ledgerPart.put db' s) := by
  unfold onStored
  rw [finishes_partRun, leaves_partRun]
  rcases finishes_cases h hs stop with ⟨hfails, hleft⟩ | ⟨hreturns, -, hleft⟩
  · exact .inl ⟨hfails, _, hleft, rfl⟩
  · exact .inr ⟨hreturns, _, hleft, rfl⟩

/-- A request that writes nothing. -/
theorem leaves_unchanged {κ σ ε : Type} {p : Program κ σ ε ρ} {s : σ}
    (h : wp (· = s) p (fun _ t => t = s) s) (stop : Option ℕ) : leaves stop p s = s :=
  leaves_wp (I := (· = s)) (fun _ _ ht => ht) h rfl stop

theorem onStored_unchanged {p : LedgerProgram ρ}
    (h : wp (· = s.rows.stored) p (fun _ db' => db' = s.rows.stored) s.rows.stored)
    (stop : Option ℕ) : leaves stop (onStored p) s = s := by
  have hstored : leaves stop p (ledgerPart.get s) = ledgerPart.get s := leaves_unchanged h stop
  unfold onStored
  rw [leaves_partRun, hstored]
  exact ledgerPart.put_get s

/-- A campaign is refused in its first statement. -/
theorem sms_unchanged {resolve : LedgerDb → List SmsCampaigns.Recipient}
    {kind : SmsCampaignKind} {body : String} {campaign : CampaignDraw} {draw : BillingState.Draw}
    (hrole : ctx.event.role = .viewer) (stop : Option ℕ) :
    leaves stop (onRows (discard (transaction (SmsCampaigns.dispatch openPart RowsLock.ledger
      (credits draw) ctx kind body resolve campaign)) : RowsProgram Unit)) s = s := by
  have hdenied : wp (· = s.rows) (discard (transaction (SmsCampaigns.dispatch openPart RowsLock.ledger
      (credits draw) ctx kind body resolve campaign)) : RowsProgram Unit) (fun _ t => t = s.rows)
      s.rows := wp_map <| wp_modify_bind <| wp_bind <| wp_refuse_bind fun hcan =>
    absurd hcan (assertPermission_viewer hrole rfl)
  have hrows : leaves stop _ (rowsPart.get s) = rowsPart.get s := leaves_unchanged hdenied stop
  unfold onRows
  rw [leaves_partRun, hrows]
  exact rowsPart.put_get s

/-- What the model has read is metered, and nothing else is. -/
inductive Metered (eventId : ℕ) (rules : CaptureRules) (utterance : String)
    (llm : Except Refusal LlmCompletionResult) (meterId : ℕ) (s : MeteredRows) : MeteredRows → Prop
  | same : Metered eventId rules utterance llm meterId s s
  | more (result : LlmCompletionResult) (unparsed : rules.parseTier1 utterance = none)
      (answered : llm = .ok result) (fresh : s.usageEvents.has meterId = false) :
      Metered eventId rules utterance llm meterId s
        (insertUsage (llmCall eventId result.usage (costMicroUsd result.usage) .llm meterId) s)

/-- An utterance of a viewer is at most metered and answered. -/
theorem wp_metered_capture {names : NameRules} {rules : CaptureRules} {utterance : String}
    {llm : Except Refusal LlmCompletionResult} {rowId meterId : ℕ} {draw : ExecDraw}
    (hrole : ctx.event.role = .viewer) :
    wp (Metered ctx.event.eventId rules utterance llm meterId s)
      (MeteredCaptures.capture ctx names rules utterance llm false rowId meterId draw)
      (fun _ => Metered ctx.event.eventId rules utterance llm meterId s) s := by
  have hstored {t : MeteredRows} (ht : Metered ctx.event.eventId rules utterance llm meterId s t) :
      wp (Metered ctx.event.eventId rules utterance llm meterId s) (onStored (CaptureStaging.capture ctx
        names rules utterance (llm.map LlmCompletionResult.toolCalls) false rowId draw))
        (fun _ => Metered ctx.event.eventId rules utterance llm meterId s) t := by
    have hcapture : wp (· = t.rows.stored) (CaptureStaging.capture ctx names rules utterance
        (llm.map LlmCompletionResult.toolCalls) false rowId draw) (fun _ db' => db' = t.rows.stored)
        t.rows.stored := wp_capture_denied hrole
    refine wp_mono (wp_weaken (wp_partRun_get hcapture) ?_) ?_
    · rintro _ ⟨_, rfl, rfl⟩
      exact ht
    · rintro _ _ ⟨_, rfl, rfl⟩
      exact ht
  unfold MeteredCaptures.capture
  cases hparsed : rules.parseTier1 utterance with
  | some call => exact hstored .same
  | none =>
    cases llm with
    | error e => exact hstored .same
    | ok result =>
      refine wp_bind <| wp_accept_bind fun haccepted => ?_
      have hmore : Metered ctx.event.eventId rules utterance (.ok result) meterId s _ :=
        .more result hparsed rfl (fresh_of_usageViolation haccepted)
      exact ⟨hmore, hstored hmore⟩

end requests

/-- What a request of a viewer leaves. -/
inductive Left (rules : RequestRules) (ctx : OperationContext) (s s' : MeteredRows) (returns : Bool)
    (request : EventRequest) : Prop
  | same (h : s' = s)
  | row (db' : LedgerDb) (change : MayChange ctx s.rows.stored db' returns request)
      (h : s' = ledgerPart.put db' s)
  | metered (utterance : String) (llm : Except Refusal LlmCompletionResult) (rowId meterId : ℕ)
      (draw : ExecDraw) (captured : request = .capture utterance llm rowId meterId draw)
      (h : Metered ctx.event.eventId rules.capture utterance llm meterId s s')

/-- Whatever a viewer asks for, and wherever the request fails or is stopped, every row of every
table is as it was; but an edit and a rejection that return change the one waiting row they
name, a confirmation executes nothing and marks at most that row, coming too late to an
invitation marks it expired, and an utterance that the language model has read is metered. -/
theorem viewer_changes_only_waiting_rows (rules : RequestRules) (s : MeteredRows)
    (ctx : OperationContext) (request : EventRequest) (stop : Option ℕ)
    (hrole : ctx.event.role = .viewer)
    (hmember : standing s.rows.stored ctx.event.eventId ctx.actor.userId = some .viewer)
    (hfor : Concerns s.rows.stored ctx request) :
    Left rules ctx s (leaves stop (request.program rules ctx) s)
      (finishes stop (request.program rules ctx) s) request := by
  cases request with
  | read request arguments =>
    refine .same (leaves_unchanged (wp_query_bind ?_) stop)
    cases rules.answer request ctx arguments s with
    | ok content => exact wp_pure rfl
    | error e => exact wp_throw e
  | notice call draw => exact .same (onStored_unchanged (wp_map (wp_notice_denied hrole)) stop)
  | sendReminders body personIds campaign draw => exact .same (sms_unchanged hrole stop)
  | sendAnnouncement body personIds campaign draw => exact .same (sms_unchanged hrole stop)
  | capture utterance llm rowId meterId draw =>
    have hcapture : wp (Metered ctx.event.eventId rules.capture utterance llm meterId s)
        (discard (MeteredCaptures.capture ctx rules.names rules.capture utterance llm false rowId
          meterId draw))
        (fun _ => Metered ctx.event.eventId rules.capture utterance llm meterId s) s :=
      wp_map (wp_metered_capture hrole)
    exact .metered utterance llm rowId meterId draw rfl
      (leaves_wp (I := Metered ctx.event.eventId rules.capture utterance llm meterId s)
        (fun _ _ h => h) hcapture .same stop)
  | edit id edits =>
    rcases onStored_cases (wp_map wp_edit) rfl stop with
      ⟨-, db', rfl, hleft⟩ | ⟨hreturns, db', hdb', hleft⟩
    · exact .same (hleft.trans (ledgerPart.put_get s))
    · exact .row db' (hreturns ▸ hdb') hleft
  | reject id now =>
    rcases onStored_cases (wp_map wp_reject) rfl stop with
      ⟨-, db', rfl, hleft⟩ | ⟨hreturns, db', hdb', hleft⟩
    · exact .same (hleft.trans (ledgerPart.put_get s))
    · exact .row db' (hreturns ▸ hdb') hleft
  | confirm id now draw credit =>
    have hconfirm : wp _ (discard (PaidConfirmations.confirm ctx rules.names id now draw credit))
        (fun _ _ => False) s.rows := wp_map (wp_confirm_denied hrole)
    have hrows : leaves stop ((EventRequest.confirm id now draw credit).program rules ctx) s =
        rowsPart.put (leaves stop _ s.rows) s := leaves_partRun
    have hreturns : finishes stop ((EventRequest.confirm id now draw credit).program rules ctx) s =
        finishes stop _ s.rows := finishes_partRun
    rcases finishes_cases hconfirm ⟨s.rows.stored, .inl rfl, rfl⟩ stop with
      ⟨hfails, db', hleft, hput⟩ | ⟨-, -, hnever⟩
    · rw [hrows, hreturns, hfails, hput]
      rcases hleft with rfl | hdb'
      · exact .same rfl
      · exact .row db' hdb' rfl
    · exact hnever.elim
  | service call draw =>
    by_cases haccept : ∃ token, call = .acceptInvitation token
    · obtain ⟨token, rfl⟩ := haccept
      rcases onStored_cases (wp_map (wp_map (wp_acceptInvitation_member hmember hfor))) (.inl rfl)
        stop with ⟨hfails, db', rfl | hdb', hleft⟩ | ⟨-, db', rfl, hleft⟩
      · exact .same (hleft.trans (ledgerPart.put_get s))
      · exact .row db' (hfails ▸ hdb') hleft
      · exact .same (hleft.trans (ledgerPart.put_get s))
    · refine .same (onStored_unchanged (wp_map (wp_service_denied hrole ?_ ?_)) stop)
      · rintro input rfl
        exact hfor
      · exact fun token htoken => haccept ⟨token, htoken⟩

def plainRules : RequestRules where
  names := plainNames
  capture := { parseTier1 := fun _ => none, parseAmountToMinorUnits := fun _ => some 200,
               numberText := fun _ => "" }
  answer _ _ _ _ := .ok ""

/-- A proposed payment of 200, an invitation of yesterday, and somebody who may look. -/
def watched : MeteredRows :=
  let db : LedgerDb :=
    { LedgerDb.empty with
      events := LedgerDb.empty.events.insertNew
        { id := 7, ownerUserId := 1, slug := "wedding", name := "Wedding", createdAt := 1 }
      members := LedgerDb.empty.members.insertNew ⟨7, 3, .viewer, .active, some 1⟩
      invitations := LedgerDb.empty.invitations.insertNew
        ⟨12, 7, "link", .finance, .pending, none, 1, 1, 0, 5, none, none⟩
      pendingConfirmations := LedgerDb.empty.pendingConfirmations.insertNew
        ⟨9, 7, .recordPayment 5 "Achieng" "200", none, .aiFromChat, .pending,
          "Record Achieng's payment of 200?", some 1, none, none⟩ }
  { rows := { stored := db, working := db, apart := .empty }, usageEvents := .empty }

def onlooker : OperationContext := ⟨⟨3, true⟩, ⟨7, .viewer, .active⟩⟩

def serviceDraw : ServiceDraw := ⟨⟨20, 20, 20, 10⟩, ⟨10, 20, 20, "token", { allowed := true }, none⟩⟩

/-- What the model makes of an utterance: a payment of 200. -/
def paymentRead : Except Refusal LlmCompletionResult :=
  .ok ⟨[⟨"record_payment", [("personName", .text "Achieng"), ("amount", .text "200")]⟩],
    ⟨1000, 100, "gemini-2.5-flash"⟩⟩

set_option maxRecDepth 4000 in
/-- The viewer edits the amount, rejects the payment, marks it confirmed although the payment is
refused, marks the invitation expired, and has a payment read that is refused: in turn two requests
that return and three that do not. -/
theorem viewer_changes_rows :
    (Program.run (resolveContext onlooker.actor 7) watched.rows.stored).1.toOption =
        some (some onlooker.event) ∧
      (finishes none ((EventRequest.edit 9 { amount := some "900" }).program plainRules onlooker)
          watched = true ∧
        leaves none ((EventRequest.edit 9 { amount := some "900" }).program plainRules onlooker)
          watched ≠ watched) ∧
      (finishes none ((EventRequest.reject 9 10).program plainRules onlooker) watched = true ∧
        leaves none ((EventRequest.reject 9 10).program plainRules onlooker) watched ≠ watched) ∧
      (finishes none ((EventRequest.confirm 9 10 (.simple 20 10) PaidConfirmations.plainCredit).program
          plainRules onlooker) watched = false ∧
        leaves none ((EventRequest.confirm 9 10 (.simple 20 10) PaidConfirmations.plainCredit).program
          plainRules onlooker) watched ≠ watched) ∧
      (finishes none ((EventRequest.service (.acceptInvitation "link") serviceDraw).program
          plainRules onlooker) watched = false ∧
        leaves none ((EventRequest.service (.acceptInvitation "link") serviceDraw).program
          plainRules onlooker) watched ≠ watched) ∧
      (finishes none ((EventRequest.capture "Achieng sent something" paymentRead 20 30
          (.simple 20 10)).program plainRules onlooker) watched = false ∧
        leaves none ((EventRequest.capture "Achieng sent something" paymentRead 20 30
          (.simple 20 10)).program plainRules onlooker) watched ≠ watched) := by
  refine ⟨by decide, ⟨by decide, fun h => ?_⟩, ⟨by decide, fun h => ?_⟩, ⟨by decide +kernel, fun h => ?_⟩,
    ⟨by decide, fun h => ?_⟩, by decide +kernel, fun h => ?_⟩
  · exact absurd (congrArg (fun s : MeteredRows => s.rows.stored.pendingConfirmations.rows) h) (by decide)
  · exact absurd (congrArg (fun s : MeteredRows => s.rows.stored.pendingConfirmations.rows) h) (by decide)
  · exact absurd (congrArg (fun s : MeteredRows => s.rows.stored.pendingConfirmations.rows) h) (by decide)
  · exact absurd (congrArg (fun s : MeteredRows => s.rows.stored.invitations.rows) h) (by decide)
  · exact absurd (congrArg (fun s : MeteredRows => s.usageEvents.rows) h) (by decide +kernel)

/-- A payment of 200 that the model reads for a viewer costs what is metered, and is refused. -/
theorem viewer_changes_only_waiting_rows_payment :
    leaves none ((EventRequest.capture "Achieng sent something" paymentRead 20 30
      (.simple 20 10)).program plainRules onlooker) watched =
        insertUsage (llmCall 7 ⟨1000, 100, "gemini-2.5-flash"⟩ 550 .llm 30) watched := by
  have hcost : costMicroUsd ⟨1000, 100, "gemini-2.5-flash"⟩ = 550 := by decide +kernel
  have hleft := viewer_changes_only_waiting_rows plainRules watched onlooker
    (.capture "Achieng sent something" paymentRead 20 30 (.simple 20 10)) none rfl (by decide) trivial
  have husage : (leaves none ((EventRequest.capture "Achieng sent something" paymentRead 20 30
      (.simple 20 10)).program plainRules onlooker) watched).usageEvents.rows ≠
        watched.usageEvents.rows := by decide +kernel
  generalize leaves none ((EventRequest.capture "Achieng sent something" paymentRead 20 30
    (.simple 20 10)).program plainRules onlooker) watched = left at hleft husage ⊢
  cases hleft with
  | same h => exact absurd (congrArg (fun s : MeteredRows => s.usageEvents.rows) h) husage
  | row db' change h => exact absurd change id
  | metered utterance llm rowId meterId draw captured h =>
    cases captured
    cases h with
    | same => exact absurd rfl husage
    | more result unparsed answered fresh =>
      cases answered
      rw [hcost]
      rfl

end Akabbo.ViewerCalls
