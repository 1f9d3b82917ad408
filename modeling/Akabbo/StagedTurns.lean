import Akabbo.AssistantTurns
import Akabbo.EventOwners

/-!
# What a turn leaves for a human

A tool call that is not one of the two that act at once leaves money, members and SMS credits
as they were, however it ends; so does a turn of such calls.
-/
namespace Akabbo.StagedTurns
open Access RowTable StatementProgram ProgramParts LedgerState LedgerWrites EventWrites
open ToolExecutor Confirmations CaptureRouting CaptureStaging PublicNotices
open TeamCalls hiding step
open AssistantMutations AssistantTurns ServiceSteps WeakestPreconditions TwoConnections
open PaidCampaigns CallRuns AsyncRoutines
open SmsCampaigns (CampaignDraw allWithPhone previewRecipients)
open StatementProgram.Program (query refuse)
open AsyncRoutines.Routine (ends ends_state)

structure SameMoney (db db' : LedgerDb) : Prop where
  pledges : db'.pledges = db.pledges
  fulfillments : db'.fulfillments = db.fulfillments
  budgets : db'.budgets = db.budgets
  budgetItems : db'.budgetItems = db.budgetItems
  allocations : db'.allocations = db.allocations
  members : db'.members = db.members

theorem sameMoney_refl (db : LedgerDb) : SameMoney db db := ⟨rfl, rfl, rfl, rfl, rfl, rfl⟩

theorem sameMoney_trans {s t u : LedgerDb} (h : SameMoney s t) (h' : SameMoney t u) :
    SameMoney s u :=
  ⟨h'.pledges.trans h.pledges, h'.fulfillments.trans h.fulfillments, h'.budgets.trans h.budgets,
    h'.budgetItems.trans h.budgetItems, h'.allocations.trans h.allocations,
    h'.members.trans h.members⟩

/-- No pledge, payment, budget, allocation or membership has changed, and no SMS credit. -/
structure Untouched (s₀ s : Rows) : Prop where
  ledger : SameMoney s₀.stored s.stored
  credits : s.apart.smsCreditLedger = s₀.apart.smsCreditLedger

section acting
variable (rules : TurnRules) (call : TurnCall)

/-- A member gets a role that is not his already. -/
def Reroles (db : LedgerDb) : Prop :=
  ∃ a, (TeamCall.updateMemberRole call.ctx (text rules call "nameOrPhone")
      (text rules call "role")).appointment rules.texts db = some a ∧
    standing db a.1 a.2.1 ≠ some a.2.2

/-- An announcement of the event is there, and may be published. -/
def Publishes (db : LedgerDb) : Prop :=
  can call.ctx.event.role .announcementWrite = true ∧ db.events.has call.ctx.event.eventId = true ∧
    rules.texts.trim (text rules call "announcementId") ≠ "" ∧
    ∃ id a, rules.parseId (rules.texts.trim (text rules call "announcementId")) = some id ∧
      findAnnouncement db call.ctx.event.eventId id = some a

/-- Someone has a phone, and a credit is left to write there. -/
def CanSend (s : Rows) : Prop :=
  can call.ctx.event.role .smsSend = true ∧ isWritable call.ctx.event.status = true ∧
    allWithPhone call.draw.campaign.collation s.stored call.ctx.event.eventId ≠ [] ∧
    1 ≤ smsBalance s call.ctx.event.eventId

def ActsAtOnce (s : Rows) : Prop :=
  match tools.lookup call.name with
  | some .updateMemberRole => Reroles rules call s.stored
  | some .publishAnnouncement =>
      flag call "sendSms" = true ∧ Publishes rules call s.stored ∧ CanSend call s
  | _ => False

end acting

section mutations
variable {ctx : OperationContext} {rules : AssistantRules} {draw : EventDraw}

theorem effects_change {locks : List RowLock} {violation : LedgerDb → Option Refusal}
    {w : LedgerDb → LedgerDb} (h : ∀ db, SameMoney db (w db)) :
    Effects SameMoney (change locks violation w) :=
  effects_modifyChecked sameMoney_refl _ _ h

theorem effects_gates (action : Action) : Effects SameMoney (gates ctx action) :=
  effects_bind (effects_refuse _) fun _ => effects_refuse _

theorem effects_writeAudit {action resourceType : String} {resourceId : ℕ}
    {source : ProvenanceSource} {oldValue newValue : Option (List (String × Json))} :
    Effects SameMoney (writeAudit ctx action resourceType resourceId source oldValue newValue) :=
  effects_modify _ fun _ => ⟨rfl, rfl, rfl, rfl, rfl, rfl⟩

theorem effects_stage {action : StoredAction} {prompt : String} :
    Effects SameMoney (stage ctx action prompt draw) :=
  effects_bind (effects_bind (effects_change fun _ => ⟨rfl, rfl, rfl, rfl, rfl, rfl⟩)
    fun _ => trivial) fun _ => trivial

theorem effects_withPerson {name : String} {f : ℕ → String → LedgerProgram StageResult}
    (h : ∀ i found, Effects SameMoney (f i found)) :
    Effects SameMoney (withPerson ctx rules name f) :=
  effects_bind (effects_query _) fun person => by
    cases person with
    | resolved i found => exact h i found
    | ambiguous candidates => trivial
    | none => trivial

theorem effects_withOnly {α : Type} {find : LedgerDb → List α} {missing : StageResult}
    {several : List α → StageResult} {f : α → LedgerProgram StageResult}
    (h : ∀ a, Effects SameMoney (f a)) : Effects SameMoney (withOnly find missing several f) :=
  effects_bind (effects_query _) fun rows => by
    split
    · exact h _
    · trivial
    · trivial

theorem effects_createGroup {name : String} {kind : GroupKind} :
    Effects SameMoney (EventWrites.createGroup ctx name kind draw) :=
  effects_bind (effects_gates _) fun _ =>
    effects_bind (effects_change fun _ => ⟨rfl, rfl, rfl, rfl, rfl, rfl⟩) fun _ =>
    effects_bind effects_writeAudit fun _ => trivial

theorem effects_updateContact {i : ℕ} {phone : String} {shared : Bool} :
    Effects SameMoney (EventWrites.updateContact ctx i phone shared) :=
  effects_bind (effects_gates _) fun _ => effects_bind (effects_query _) fun _ =>
    effects_bind (effects_orThrow _ _) fun _ =>
    effects_bind (effects_runIf <| effects_runIf <| effects_bind (effects_query _) fun _ =>
      effects_refuse _) fun _ =>
    effects_bind (effects_modifyChecked sameMoney_refl _ _ fun _ => ⟨rfl, rfl, rfl, rfl, rfl, rfl⟩)
      fun _ => effects_bind effects_writeAudit fun _ => trivial

theorem effects_assignPerson {i g : ℕ} {role : Option String} :
    Effects SameMoney (assignPerson ctx i g role) :=
  effects_bind (effects_gates _) fun _ => effects_bind (effects_query _) fun _ =>
    effects_bind (effects_query _) fun _ => effects_bind (effects_orThrow _ _) fun _ =>
    effects_bind (effects_orThrow _ _) fun _ =>
    effects_bind (effects_change fun _ => ⟨rfl, rfl, rfl, rfl, rfl, rfl⟩) fun _ =>
    effects_bind effects_writeAudit fun _ => trivial

theorem effects_draftAnnouncement {body : String} :
    Effects SameMoney (draftAnnouncement ctx rules body draw) := by
  unfold draftAnnouncement
  split_ifs
  · trivial
  · exact effects_bind (effects_bind (effects_refuse _) fun _ =>
      effects_bind (effects_change fun _ => ⟨rfl, rfl, rfl, rfl, rfl, rfl⟩) fun _ =>
      effects_bind effects_writeAudit fun _ => trivial) fun _ => trivial

theorem effects_allocateToBudget {person line amount : String} :
    Effects SameMoney (allocateToBudget ctx rules person line amount draw) :=
  effects_bind (effects_refuse _) fun _ => by
    cases rules.parseAmountToMinorUnits amount with
    | none => trivial
    | some value =>
      refine effects_withOnly fun _ => effects_withPerson fun _ _ =>
        effects_bind (effects_query _) fun payment => ?_
      cases payment with
      | none => trivial
      | some payment =>
        dsimp only
        split_ifs
        · trivial
        · exact effects_stage

theorem effects_correctPledge {person amount : String} :
    Effects SameMoney (correctPledge ctx rules person amount draw) :=
  effects_bind (effects_refuse _) fun _ => by
    cases rules.parseAmountToMinorUnits amount with
    | none => trivial
    | some value =>
      refine effects_withPerson fun _ _ => effects_bind (effects_query _) fun pledge => ?_
      cases pledge with
      | resolved i => exact effects_stage
      | ambiguous candidates => trivial
      | none => trivial

theorem effects_correctPayment {person amount : String} :
    Effects SameMoney (correctPayment ctx rules person amount draw) :=
  effects_bind (effects_refuse _) fun _ => by
    cases rules.parseAmountToMinorUnits amount with
    | none => trivial
    | some value =>
      refine effects_withPerson fun _ _ => effects_bind (effects_query _) fun latest => ?_
      cases latest with
      | none => trivial
      | some f => exact effects_stage

theorem effects_inviteMember {name role phone : Option String} :
    Effects SameMoney (inviteMember ctx rules name role phone draw) :=
  effects_bind (effects_refuse _) fun _ => by
    dsimp only
    cases mapRole (rules.texts.trim (rules.texts.lowerCase (role.getD ""))) with
    | none => trivial
    | some role =>
      dsimp only
      split_ifs
      · exact effects_stage
      · trivial

theorem effects_stageReminders {body : String} {count : ℕ} {balance : ℤ} :
    Effects SameMoney (stageReminders ctx rules body count balance draw) := by
  unfold stageReminders
  dsimp only
  split_ifs
  · trivial
  · trivial
  · exact effects_stage
  · exact effects_stage

end mutations

/-- All but a new role, which is the member's business alone. -/
theorem effects_mutation (rules : TurnRules) (call : TurnCall) {tool : Tool}
    (hread : ∀ r, tool ≠ .read r)
    (h : tool ∉ [.addPerson, .recordPledge, .recordPayment, .publishAnnouncement, .sendReminders,
      .updateMemberRole]) : Effects SameMoney (mutation rules call tool) := by
  cases tool with
  | addBudgetItem =>
    refine effects_bind (effects_refuse _) fun _ => ?_
    cases rules.parseAmountToMinorUnits (text rules call "amount") with
    | none => trivial
    | some value =>
      dsimp only
      split_ifs
      · trivial
      · exact effects_stage
  | updateBudgetItem =>
    refine effects_bind (effects_refuse _) fun _ => ?_
    cases rules.parseAmountToMinorUnits (text rules call "amount") with
    | none => trivial
    | some value => exact effects_withOnly fun _ => effects_stage
  | removeBudgetItem =>
    exact effects_bind (effects_refuse _) fun _ => effects_withOnly fun _ => effects_stage
  | allocateToBudget => exact effects_allocateToBudget
  | correctPledge => exact effects_correctPledge
  | correctPayment => exact effects_correctPayment
  | mergePeople =>
    refine effects_bind (effects_refuse _) fun _ => effects_withPerson fun _ _ =>
      effects_withPerson fun _ _ => ?_
    split_ifs
    · trivial
    · exact effects_stage
  | draftAnnouncement => exact effects_draftAnnouncement
  | inviteMember => exact effects_inviteMember
  | createGroup =>
    unfold mutation AssistantMutations.createGroup
    split_ifs
    · trivial
    · exact effects_bind effects_createGroup fun _ => trivial
  | assignToGroup =>
    exact effects_withPerson fun _ _ => effects_withOnly fun _ =>
      effects_bind effects_assignPerson fun _ => trivial
  | updateContact =>
    unfold mutation AssistantMutations.updateContact
    split_ifs
    · trivial
    · exact effects_withPerson fun _ _ => effects_bind effects_updateContact fun _ => trivial
  | read r => exact absurd rfl (hread r)
  | _ => simp at h

section role
variable {I : LedgerDb → Prop} {v : LedgerDb} {ctx : OperationContext} {rules : TextRules}

/-- A role that the member has already leaves his row as it is. -/
theorem upserted_same {u : ℕ} {role : EventRole} {addedBy : Option ℕ}
    (h : standing v ctx.event.eventId u = some role) :
    upserted v.members ⟨ctx.event.eventId, u, role, .active, addedBy⟩
      (fun m => { m with role, status := .active }) (fun _ => rfl) = v.members := by
  obtain ⟨m, hm, hrole⟩ := Option.map_eq_some_iff.mp h
  obtain ⟨hrow, hactive⟩ := Option.filter_eq_some_iff.mp hm
  have hstatus : m.status = .active := by simpa using hactive
  have hhas : v.members.has (ctx.event.eventId, u) = true :=
    Table.has_iff.mpr ⟨m, Table.get?_mem hrow, Table.get?_key hrow⟩
  have hkey : EventMember.key ⟨ctx.event.eventId, u, role, .active, addedBy⟩ =
      (ctx.event.eventId, u) := rfl
  unfold upserted
  rw [hkey, if_pos hhas]
  refine Table.update_eq_of_fixed fun m' hm' hkey' => ?_
  have hsame : v.members.get? (ctx.event.eventId, u) = some m' :=
    Table.get?_eq_some.mpr ⟨hm', of_decide_eq_true hkey'⟩
  obtain rfl : m = m' := Option.some.inj (hrow.symm.trans hsame)
  rw [← hrole, ← hstatus]

theorem wp_addMember_same {u : ℕ} {role : EventRole}
    (h : standing v ctx.event.eventId u = some role) :
    wp I (addMember ctx u role) (fun _ => SameMoney v) v :=
  wp_gates_bind fun _ _ => wp_query_bind <| wp_orThrow_bind fun _ _ => wp_query_bind <|
    wp_upsert_bind fun _ => wp_writeAudit_bind fun _ _ =>
      wp_pure ⟨rfl, rfl, rfl, rfl, rfl, upserted_same h⟩

theorem wp_updateMemberRole_same {target text : String}
    (h : ∀ a, (TeamCall.updateMemberRole ctx target text).appointment rules v = some a →
      standing v a.1 a.2.1 = some a.2.2) :
    wp I (updateMemberRole ctx rules target text) (fun _ => SameMoney v) v := by
  refine wp_gates_bind fun hrole hstatus => ?_
  unfold TeamCall.appointment at h
  dsimp only at h
  split_ifs at h ⊢ with hempty
  · exact wp_pure (sameMoney_refl v)
  · cases hword : mapRole (rules.trim (rules.lowerCase text)) with
    | none => exact wp_pure (sameMoney_refl v)
    | some role =>
      refine wp_listMembers_bind ?_
      rw [hword, Option.bind_some] at h
      cases hfound : (memberList v ctx.event.eventId).find? (isTarget rules target) with
      | none => exact wp_pure (sameMoney_refl v)
      | some member =>
        rw [hfound, Option.bind_some] at h
        by_cases hadmitted : Admitted v ctx member.1
        · have hsame := h _ (if_pos hadmitted)
          exact wp_bind <| wp_mono (wp_addMember_same hsame) fun _ _ hw => wp_pure hw
        · exact wp_bind <| wp_mono wp_addMember_appoints fun _ _ hw => absurd hw.1 hadmitted

end role

theorem untouched_refl (s : Rows) : Untouched s s := ⟨sameMoney_refl _, rfl⟩

theorem untouched_trans {s t u : Rows} (h : Untouched s t) (h' : Untouched t u) : Untouched s u :=
  ⟨sameMoney_trans h.ledger h'.ledger, h'.credits.trans h.credits⟩

section calls
variable {s₀ s : Rows} {rules : TurnRules} {call : TurnCall}

theorem ensures_onLedger {ρ : Type} {I : LedgerDb → Prop} {p : LedgerProgram ρ}
    {Q : ρ → Rows → Prop} (h : Untouched s₀ s)
    (hp : wp I p (fun r w => SameMoney s.stored w ∧
      (Untouched s₀ { s with stored := w, working := w } →
        Q r { s with stored := w, working := w })) s.stored) :
    ensures (Untouched s₀) (onLedger p) Q s := by
  refine ensures_transaction_run (fun t => ⟨h.ledger, h.credits⟩) (wp_mono hp fun r w hw => ?_)
  have hafter : Untouched s₀ { s with stored := w, working := w } :=
    ⟨sameMoney_trans h.ledger hw.1, h.credits⟩
  exact ⟨hafter, hw.2 hafter⟩

/-- A mutation that writes no money in its one transaction. -/
theorem ensures_mutation {ρ : Type} {I : LedgerDb → Prop} {p : LedgerProgram ρ}
    (h : Untouched s₀ s) (hp : wp I p (fun _ => SameMoney s.stored) s.stored) :
    ensures (Untouched s₀) (onLedger p) (fun _ => Untouched s₀) s :=
  ensures_onLedger h <| wp_mono hp fun _ _ hw => ⟨hw, id⟩

theorem wp_sameMoney {ρ : Type} {p : LedgerProgram ρ} {v : LedgerDb} (hp : Effects SameMoney p) :
    wp (SameMoney v) p (fun _ => SameMoney v) v :=
  wp_of_effects (fun _ _ hw h => sameMoney_trans h hw) hp (sameMoney_refl v)

theorem ensures_write {tool : String} (h : Untouched s₀ s) :
    ensures (Untouched s₀) (write rules call tool) (fun _ => Untouched s₀) s := by
  unfold write
  cases normaliseAmount rules.toCaptureRules call.arguments with
  | none => exact h
  | some amounts =>
    dsimp only
    cases normaliseReceived rules amounts with
    | none => exact h
    | some arguments =>
      dsimp only
      cases toolCallSchema tool arguments with
      | none => exact h
      | some request =>
        refine ensures_bind <| ensures_mono (ensures_mutation h <| wp_mono stages_route ?_)
          fun _ _ ht => ht
        intro _ w hw
        rcases hw with rfl | ⟨_, _, _, _, hw, _⟩
        · exact sameMoney_refl _
        · rw [hw]
          exact ⟨rfl, rfl, rfl, rfl, rfl, rfl⟩

theorem ensures_prepareReminders {body : String} (h : Untouched s₀ s) :
    ensures (Untouched s₀) (prepareReminders rules call body) (fun _ => Untouched s₀) s := by
  unfold prepareReminders
  split_ifs
  · exact h
  · have hpreview : Effects SameMoney
        (previewRecipients call.draw.campaign.collation call.ctx []) :=
      effects_bind (effects_refuse _) fun _ => effects_query _
    exact ensures_bind <| ensures_mono (ensures_mutation h (wp_sameMoney hpreview)) fun _ _ ht =>
      ensures_query_bind <| ensures_mutation ht (wp_sameMoney effects_stageReminders)

theorem has_of_found {v : LedgerDb} {e : ℕ} {f : Event → Event} {event : Event}
    (h : (match v.events.get? e with
      | some row => .ok (f row)
      | none => .error (.recordNotFound "event") : Except Refusal Event) = .ok event) :
    v.events.has e = true := by
  cases hrow : v.events.get? e with
  | none =>
    rw [hrow] at h
    cases h
  | some row => exact Table.has_iff.mpr ⟨row, Table.get?_mem hrow, Table.get?_key hrow⟩

/-- What publishing needs, and what it leaves to be written to. -/
theorem wp_publishDrafted {I : LedgerDb → Prop} {draw : EventDraw} {v : LedgerDb} :
    wp I (publishDrafted call.ctx rules.toAssistantRules
        (rules.texts.trim (text rules call "announcementId")) draw)
      (fun _ w => SameMoney v w ∧ w.persons = v.persons ∧
        (rules.texts.trim (text rules call "announcementId") ≠ "" → Publishes rules call v)) v :=
  wp_refuse_bind fun hcan => wp_orThrow_bind fun id hid => wp_refuse_bind fun _ =>
    wp_query_bind <| wp_orThrow_bind fun a ha => wp_modifyChecked_bind fun _ _ =>
    wp_bind <| wp_modifyChecked fun _ hevent => wp_writeAudit_bind fun _ _ => wp_pure
      ⟨⟨rfl, rfl, rfl, rfl, rfl, rfl⟩, rfl, fun hgiven =>
        ⟨can_of_assertPermission hcan, has_of_found hevent, hgiven, id, a, hid, ha⟩⟩

theorem isWritable_of_assert {status : EventStatus} (h : assertEventWritable status = none) :
    isWritable status = true := by
  unfold assertEventWritable at h
  split_ifs at h with hopen
  exact hopen

/-- The rows while a campaign that can write to nobody is queued. -/
structure Queueing (s₀ t s : Rows) : Prop where
  stored : s.stored = t.stored
  apart : s.apart = t.apart
  working : SameMoney s₀.stored s.working

theorem Queueing.untouched {t : Rows} (ht : Untouched s₀ t) (h : Queueing s₀ t s) :
    Untouched s₀ s := by
  refine ⟨?_, ?_⟩
  · rw [h.stored]
    exact ht.ledger
  · rw [h.apart]
    exact ht.credits

theorem ensures_queueing {ρ : Type} {p : LedgerProgram ρ} {t : Rows} (ht : Untouched s₀ t)
    (hp : Effects SameMoney p) (h : Queueing s₀ t s) :
    ensures (Untouched s₀) (openPart.run RowsLock.ledger p) (fun _ => Queueing s₀ t) s := by
  refine ensures_of_effects (R := fun u u' => u'.stored = u.stored ∧ u'.apart = u.apart ∧
    SameMoney u.working u'.working) (fun _ hu => hu.untouched ht) ?_ ?_ h
  · rintro u u' ⟨hstored, hapart, hworking⟩ hu
    exact ⟨hstored.trans hu.stored, hapart.trans hu.apart, sameMoney_trans hu.working hworking⟩
  · exact effects_run_part openPart _ (fun w hw u => ⟨rfl, rfl, hw u.working⟩) hp

/-- Nobody has a phone, or no credit is left: a message is neither queued nor paid for. -/
theorem ensures_queueAll {t : Rows} {body : String} {found : List SmsCampaigns.Recipient}
    {campaign : CampaignDraw} {billing : BillingState.Draw} (ht : Untouched s₀ t)
    (hidle : found = [] ∨ smsBalance t call.ctx.event.eventId < 1) (h : Queueing s₀ t s) :
    ensures (Untouched s₀) (SmsCampaigns.queueAll openPart RowsLock.ledger (credits billing)
      call.ctx.event.eventId body campaign 0 found) (fun _ => Queueing s₀ t) s := by
  cases found with
  | nil => exact h
  | cons r rest =>
    have hbroke : smsBalance s call.ctx.event.eventId < 1 := by
      unfold smsBalance
      rw [h.apart]
      exact hidle.resolve_left (List.cons_ne_nil r rest)
    exact ensures_bind <| ensures_reserve_broke (h.untouched ht) hbroke h

theorem ensures_sendAnnouncement {t : Rows} {body : String} {billing : BillingState.Draw}
    (ht : Untouched s₀ t) (hidle : ¬ CanSend call t) :
    ensures (Untouched s₀) (sendAnnouncement call.ctx body [] call.draw.campaign billing)
      (fun _ => Untouched s₀) t := by
  have hbegun : Queueing s₀ t t.begun := ⟨rfl, rfl, ht.ledger⟩
  refine ensures_transaction <| ensures_refuse_bind (hbegun.untouched ht) fun hcan =>
    ensures_refuse_bind (hbegun.untouched ht) fun hopen => ensures_query_bind ?_
  have hnobody : allWithPhone call.draw.campaign.collation t.stored call.ctx.event.eventId = [] ∨
      smsBalance t call.ctx.event.eventId < 1 := by
    by_contra hsome
    rw [not_or] at hsome
    exact hidle ⟨can_of_assertPermission hcan, isWritable_of_assert hopen, hsome.1, by omega⟩
  refine ensures_bind <| ensures_mono (ensures_queueing ht (effects_change fun _ =>
    ⟨rfl, rfl, rfl, rfl, rfl, rfl⟩) hbegun) fun _ u hu => ?_
  refine ensures_bind <| ensures_mono (ensures_queueAll ht hnobody hu) fun queued u hu => ?_
  refine ensures_bind <| ensures_mono (ensures_queueing ht (effects_change fun _ =>
    ⟨rfl, rfl, rfl, rfl, rfl, rfl⟩) hu) fun _ u hu => ?_
  have hended : ∀ u, Queueing s₀ t u → Untouched s₀ u.ended := fun u hu =>
    ⟨hu.working, (hu.untouched ht).credits⟩
  refine ensures_bind ?_
  by_cases hqueued : queued > 0
  · rw [decide_eq_true hqueued]
    exact ensures_mono (ensures_queueing ht (effects_change fun _ =>
      ⟨rfl, rfl, rfl, rfl, rfl, rfl⟩) hu) fun _ u hu => ⟨hended u hu, hended u hu⟩
  · rw [decide_eq_false hqueued]
    exact ⟨hended u hu, hended u hu⟩

/-- Publishing leaves the members to write to and the credits as they were. -/
theorem canSend_published {w : LedgerDb} (hpersons : w.persons = s.stored.persons) :
    CanSend call { s with stored := w, working := w } ↔ CanSend call s := by
  unfold CanSend allWithPhone
  rw [hpersons]
  rfl

theorem ensures_publishAnnouncement (h : Untouched s₀ s)
    (hidle : flag call "sendSms" = true → Publishes rules call s.stored → ¬ CanSend call s) :
    ensures (Untouched s₀) (publishAnnouncement rules call (text rules call "announcementId")
      (flag call "sendSms")) (fun _ => Untouched s₀) s := by
  unfold publishAnnouncement
  split_ifs with hempty hflag
  · exact h
  · refine ensures_bind <| ensures_onLedger (I := fun _ => True) h <|
      wp_mono wp_publishDrafted fun a w hw => ⟨hw.1, fun ht => ?_⟩
    have hnot : ¬ CanSend call { s with stored := w, working := w } := fun hcan =>
      hidle hflag (hw.2.2 hempty) ((canSend_published hw.2.1).mp hcan)
    exact ensures_attempt_bind (ensures_mono (ensures_sendAnnouncement ht hnot)
      fun _ _ hu => hu) fun _ _ hu => hu
  · exact ensures_bind <| ensures_onLedger (I := fun _ => True) h <|
      wp_mono wp_publishDrafted fun _ _ hw => ⟨hw.1, id⟩

theorem ensures_toolProgram {tool : Tool} (htool : tools.lookup call.name = some tool)
    (hidle : ¬ ActsAtOnce rules call s) :
    ensures (Untouched s) (toolProgram rules call tool) (fun _ => Untouched s) s := by
  have h := untouched_refl s
  unfold ActsAtOnce at hidle
  rw [htool] at hidle
  cases tool with
  | read tool =>
    refine ensures_query_bind ?_
    cases rules.answer tool call.ctx call.arguments s with
    | ok content => exact h
    | error e => exact h
  | addPerson => exact ensures_write h
  | recordPledge => exact ensures_write h
  | recordPayment => exact ensures_write h
  | publishAnnouncement =>
    exact ensures_map <| ensures_publishAnnouncement h fun hflag hpublishes hcan =>
      hidle ⟨hflag, hpublishes, hcan⟩
  | sendReminders => exact ensures_map (ensures_prepareReminders h)
  | updateMemberRole =>
    refine ensures_map <| ensures_mutation (I := fun _ => True) h <|
      wp_updateMemberRole_same fun a ha => ?_
    by_contra hrole
    exact hidle ⟨a, ha, hrole⟩
  | _ =>
    exact ensures_map <| ensures_mutation h <| wp_sameMoney <|
      effects_mutation rules call (fun _ hread => by cases hread) (by simp)

theorem ends_runTool {tool : Tool} (htool : tools.lookup call.name = some tool)
    (hidle : ¬ ActsAtOnce rules call s) :
    ends (runTool rules call tool) (fun _ => Untouched s) (fun _ => Untouched s) s :=
  ends_statements (wp_underFault (wp_of_ensures (ensures_toolProgram htool hidle)) _)
    (untouched_refl s)

/-- What one tool call leaves for a human. -/
theorem untouched_step (h : Untouched s₀ s) (hidle : ¬ ActsAtOnce rules call s) :
    Untouched s₀ (step rules call s) :=
  untouched_trans h <| ends_state <| ends_dispatch (untouched_refl s) (fun _ _ ht => ht)
    fun _ htool => ends_runTool htool hidle

end calls

/-- While no call of a turn gives a member a new role, and none publishes an announcement by SMS
that a credit is left for, nothing of it is done without a human. -/
theorem untouched_while_staged (rules : TurnRules) (s : Rows) (rounds : List (List TurnCall))
    (h : everyCall (fun s call => step rules call s) (fun s call => ¬ ActsAtOnce rules call s) s
      (calledIn rounds)) :
    throughout (fun s call => step rules call s) (Untouched s) (fun _ _ => True) s
      (calledIn rounds) :=
  throughout_of_step (fun _ _ hkept hidle => ⟨trivial, untouched_step hkept hidle⟩)
    (untouched_refl s) h

def plainRules : TurnRules where
  parseTier1 _ := none
  parseAmountToMinorUnits _ := none
  numberText _ := ""
  names := plainNames
  texts := EventOwners.plainTexts
  upperCase := id
  parseId text := if text = "50" then some 50 else none
  answer _ _ _ _ := .ok ""
  errorText _ := "failed"

/-- A member of the team, a contributor to write to, and five credits. -/
def announced : Rows :=
  let db : LedgerDb := { EventOwners.governed with
    persons := LedgerDb.empty.persons.insertNew
      ⟨4, 7, "Amina", some "+256704", none, .humanTyped, none, 1⟩
    announcements := LedgerDb.empty.announcements.insertNew ⟨50, 7, "See you there", .draft, none⟩ }
  { stored := db
    working := db
    apart := BillingState.BillingDb.empty.insertCredit .sms
      { eventId := some 7, accountId := none, amount := 5, kind := .grant, idempotencyKey := "g"
        reference := none } }

def turnDraw : TurnDraw where
  event := EventOwners.invited
  exec := .simple 60 20
  campaign := ⟨61, fun n => 70 + n, .codePoints⟩
  billing := ⟨0, 0, 0, 0, "", 20, 0⟩

/-- The model makes the owner a viewer, at the co-owner's word or somebody else's. -/
def demoted : TurnCall :=
  ⟨EventOwners.coOwner, "update_member_role",
    [("nameOrPhone", .text "+256701"), ("role", .text "viewer")], turnDraw⟩

def published : TurnCall :=
  ⟨EventOwners.coOwner, "publish_announcement",
    [("announcementId", .text "50"), ("sendSms", .flag true)], turnDraw⟩

def overview : TurnCall := ⟨EventOwners.coOwner, "get_event_overview", [], turnDraw⟩

set_option maxRecDepth 8000 in
/-- A turn changes a membership, and another spends a credit, with no human asked. -/
theorem turn_acts_at_once :
    ¬ throughout (fun s call => step plainRules call s) (Untouched announced) (fun _ _ => True)
        announced (calledIn [[demoted]]) ∧
      ¬ throughout (fun s call => step plainRules call s) (Untouched announced) (fun _ _ => True)
        announced (calledIn [[published]]) := by
  refine ⟨fun h => ?_, fun h => ?_⟩
  · have hmembers := congrArg Table.rows h.2.2.ledger.members
    exact absurd hmembers (by decide)
  · have hcredits := congrArg Table.rows h.2.2.credits
    exact absurd hcredits (by decide)

def amountRules : TurnRules := { plainRules with parseAmountToMinorUnits := parseDigits }

def paid : TurnCall :=
  ⟨EventOwners.coOwner, "record_payment", [("personName", .text "Amina"), ("amount", .text "500")],
    turnDraw⟩

def invites : TurnCall :=
  ⟨EventOwners.coOwner, "invite_member", [("phone", .text "+256705"), ("role", .text "viewer")],
    { turnDraw with event := { turnDraw.event with rowId := 41 } }⟩

/-- Nobody can be made an owner. -/
def crowned : TurnCall :=
  ⟨EventOwners.coOwner, "update_member_role",
    [("nameOrPhone", .text "+256702"), ("role", .text "owner")], turnDraw⟩

set_option maxRecDepth 8000 in
theorem not_acts_crowned (s : Rows) : ¬ ActsAtOnce amountRules crowned s := by
  rintro ⟨a, ha, -⟩
  have hnone : (TeamCall.updateMemberRole crowned.ctx (text amountRules crowned "nameOrPhone")
      (text amountRules crowned "role")).appointment amountRules.texts s.stored = none := rfl
  rw [hnone] at ha
  cases ha

theorem untouched_while_staged_paid :
    throughout (fun s call => step amountRules call s) (Untouched announced) (fun _ _ => True)
      announced (calledIn [[overview, paid], [invites, crowned], []]) ∧
    (((calledIn [[overview, paid], [invites, crowned], []]).foldl
      (fun s call => step amountRules call s) announced).stored.pendingConfirmations.rows.map
        PendingConfirmation.id) = [40, 41] :=
  ⟨untouched_while_staged amountRules announced [[overview, paid], [invites, crowned], []]
    ⟨fun h => h, fun h => h, fun h => h, not_acts_crowned _, trivial⟩, by decide +kernel⟩

end Akabbo.StagedTurns
