import Akabbo.ExecutorFrame
import Akabbo.ConversationTurns

/-!
# The row a tool leaves

A tool of the assistant adds the one row whose id it reports, or none.
-/
namespace Akabbo.StagedMutations
open Access RowTable StatementProgram ProgramParts LedgerState EventWrites ToolExecutor
open Confirmations CaptureRouting CaptureStaging PublicNotices TeamCalls AssistantMutations
open SmsCampaigns (Collation previewRecipients)
open AssistantTurns hiding step
open ExecutorFrame ServiceEffects CaptureSteps WeakestPreconditions StoppedCalls ConversationTurns
open StatementProgram.Program (query refuse orThrow)

/-- The ids of the rows that have been put to a human, in the order they were. -/
def waitingIds (db : LedgerDb) : List ℕ := db.pendingConfirmations.rows.map PendingConfirmation.id

def Adds (db : LedgerDb) (id : Option ℕ) (db' : LedgerDb) : Prop :=
  waitingIds db' = waitingIds db ++ id.toList

theorem adds_none {db db' : LedgerDb} (h : SamePending db db') : Adds db none db' := by
  unfold Adds waitingIds
  rw [show db'.pendingConfirmations = db.pendingConfirmations from h]
  exact (List.append_nil _).symm

theorem adds_staged {db : LedgerDb} (row : PendingConfirmation)
    (h : db.pendingConfirmations.has row.id = false) : Adds db (some row.id) (staged db row) := by
  unfold Adds waitingIds staged
  dsimp only
  rw [Table.insertNew_rows h, List.map_append]
  rfl

/-- The row, if any, whose id is in the result. -/
def Stages (p : LedgerProgram StageResult) : Prop :=
  ∀ db, wp (fun _ => True) p (fun r => Adds db (toolPendingId (.mutated r))) db

section rules
variable {ctx : OperationContext} {rules : AssistantRules} {draw : EventDraw} {ρ : Type}

theorem stages_return {r : StageResult} (h : toolPendingId (.mutated r) = none) :
    Stages (Pure.pure r) := by
  intro db
  refine wp_pure ?_
  rw [h]
  exact adds_none rfl

theorem stages_refuse_bind {e : Option Refusal} {f : Unit → LedgerProgram StageResult}
    (h : Stages (f ())) : Stages (refuse e >>= f) := fun db => wp_refuse_bind fun _ => h db

theorem stages_query_bind {α : Type} {q : LedgerDb → α} {f : α → LedgerProgram StageResult}
    (h : ∀ a, Stages (f a)) : Stages (query q >>= f) := fun db => wp_query_bind (h _ db)

theorem wp_frames {p : LedgerProgram ρ} (hp : Frames p) (db : LedgerDb) :
    wp (fun _ => True) p (fun _ => SamePending db) db :=
  wp_weaken (wp_of_frames hp) fun _ _ => trivial

/-- What leaves the rows alone is followed by what may add one. -/
theorem stages_frames_bind {p : LedgerProgram ρ} {f : ρ → LedgerProgram StageResult}
    (hp : Frames p) (h : ∀ r, Stages (f r)) : Stages (p >>= f) := by
  intro db
  refine wp_bind <| wp_mono (wp_frames hp db) fun r v hv => wp_mono (h r v) fun r' w hw => ?_
  unfold Adds waitingIds at hw ⊢
  rw [hw, show v.pendingConfirmations = db.pendingConfirmations from hv]

theorem stages_stage {action : StoredAction} {prompt : String} :
    Stages (stage ctx action prompt draw) := fun _ =>
  wp_bind <| wp_create fun hfresh => wp_pure (adds_staged _ hfresh)

theorem stages_withPerson {name : String} {f : ℕ → String → LedgerProgram StageResult}
    (h : ∀ i found, Stages (f i found)) : Stages (withPerson ctx rules name f) :=
  stages_query_bind fun person => by
    cases person with
    | resolved i found => exact h i found
    | ambiguous candidates => exact stages_return rfl
    | none => exact stages_return rfl

theorem stages_withOnly {α : Type} {find : LedgerDb → List α} {missing : StageResult}
    {several : List α → StageResult} {f : α → LedgerProgram StageResult}
    (hmissing : toolPendingId (.mutated missing) = none)
    (hseveral : ∀ rows, toolPendingId (.mutated (several rows)) = none) (h : ∀ a, Stages (f a)) :
    Stages (withOnly find missing several f) :=
  stages_query_bind fun rows => by
    split
    · exact h _
    · exact stages_return hmissing
    · exact stages_return (hseveral _)

end rules

section mutations
variable {ctx : OperationContext} {rules : AssistantRules} {draw : EventDraw}

theorem frames_createAnnouncement {body : String} {source : ProvenanceSource} :
    Frames (createAnnouncement ctx body source draw) :=
  frames_bind (frames_refuse _) fun _ => frames_bind (frames_change _ _ fun _ => rfl) fun _ =>
    frames_bind (effects_writeAudit (keeps_samePending ctx.event.eventId) ..) fun _ => frames_pure _

theorem frames_publishDrafted {announcementId : String} :
    Frames (publishDrafted ctx rules announcementId draw) :=
  frames_bind (frames_refuse _) fun _ => frames_bind (frames_orThrow _ _) fun _ =>
    frames_bind (frames_refuse _) fun _ => frames_bind (frames_query _) fun _ =>
    frames_bind (frames_orThrow _ _) fun _ => frames_bind (frames_checked _ _ fun _ => rfl) fun _ =>
    frames_bind (frames_checked _ _ fun _ => rfl) fun _ =>
    frames_bind (effects_writeAudit (keeps_samePending ctx.event.eventId) ..) fun _ => frames_pure _

theorem frames_previewRecipients {collation : Collation} {personIds : List ℕ} :
    Frames (previewRecipients collation ctx personIds) :=
  frames_bind (frames_refuse _) fun _ => frames_query _

theorem stages_addBudgetItem {name amount : String} :
    Stages (addBudgetItem ctx rules name amount draw) :=
  stages_refuse_bind <| by
    cases rules.parseAmountToMinorUnits amount with
    | none => exact stages_return rfl
    | some value =>
      dsimp only
      split_ifs
      · exact stages_return rfl
      · exact stages_stage

theorem stages_updateBudgetItem {name amount : String} :
    Stages (updateBudgetItem ctx rules name amount draw) :=
  stages_refuse_bind <| by
    cases rules.parseAmountToMinorUnits amount with
    | none => exact stages_return rfl
    | some value => exact stages_withOnly rfl (fun _ => rfl) fun _ => stages_stage

theorem stages_allocateToBudget {person line amount : String} :
    Stages (allocateToBudget ctx rules person line amount draw) :=
  stages_refuse_bind <| by
    cases rules.parseAmountToMinorUnits amount with
    | none => exact stages_return rfl
    | some value =>
      refine stages_withOnly rfl (fun _ => rfl) fun _ => stages_withPerson fun _ _ =>
        stages_query_bind fun payment => ?_
      cases payment with
      | none => exact stages_return rfl
      | some payment =>
        dsimp only
        split_ifs
        · exact stages_return rfl
        · exact stages_stage

theorem stages_correctPledge {person amount : String} :
    Stages (correctPledge ctx rules person amount draw) :=
  stages_refuse_bind <| by
    cases rules.parseAmountToMinorUnits amount with
    | none => exact stages_return rfl
    | some value =>
      refine stages_withPerson fun _ _ => stages_query_bind fun pledge => ?_
      cases pledge with
      | resolved i => exact stages_stage
      | ambiguous candidates => exact stages_return rfl
      | none => exact stages_return rfl

theorem stages_correctPayment {person amount : String} :
    Stages (correctPayment ctx rules person amount draw) :=
  stages_refuse_bind <| by
    cases rules.parseAmountToMinorUnits amount with
    | none => exact stages_return rfl
    | some value =>
      refine stages_withPerson fun _ _ => stages_query_bind fun latest => ?_
      cases latest with
      | none => exact stages_return rfl
      | some f => exact stages_stage

theorem stages_mergePeople {source target : String} :
    Stages (AssistantMutations.mergePeople ctx rules source target draw) :=
  stages_refuse_bind <| stages_withPerson fun _ _ => stages_withPerson fun _ _ => by
    split_ifs
    · exact stages_return rfl
    · exact stages_stage

theorem stages_inviteMember {name role phone : Option String} :
    Stages (inviteMember ctx rules name role phone draw) :=
  stages_refuse_bind <| by
    dsimp only
    cases mapRole (rules.texts.trim (rules.texts.lowerCase (role.getD ""))) with
    | none => exact stages_return rfl
    | some role =>
      dsimp only
      split_ifs
      · exact stages_stage
      · exact stages_return rfl

theorem stages_stageReminders {body : String} {count : ℕ} {balance : ℤ} :
    Stages (stageReminders ctx rules body count balance draw) := by
  unfold stageReminders
  dsimp only
  split_ifs
  · exact stages_return rfl
  · exact stages_return rfl
  · exact stages_stage
  · exact stages_stage

theorem stages_updateMemberRole {texts : TextRules} {target role : String} :
    Stages (updateMemberRole ctx texts target role) := by
  refine stages_frames_bind (effects_gates _) fun _ => ?_
  split_ifs
  · exact stages_return rfl
  · cases mapRole (texts.trim (texts.lowerCase role)) with
    | none => exact stages_return rfl
    | some role =>
      refine stages_frames_bind (frames_bind (frames_refuse _) fun _ => frames_query _)
        fun members => ?_
      cases members.find? (isTarget texts target) with
      | none => exact stages_return rfl
      | some member =>
        exact stages_frames_bind (effects_addMember (keeps_samePending _) _ _)
          fun _ => stages_return rfl

end mutations

/-- Every tool that is one transaction adds the row that it reports, or none. -/
theorem stages_mutation (rules : TurnRules) (call : TurnCall) (tool : Tool) :
    Stages (mutation rules call tool) := by
  cases tool with
  | addBudgetItem => exact stages_addBudgetItem
  | updateBudgetItem => exact stages_updateBudgetItem
  | removeBudgetItem =>
    exact stages_refuse_bind <| stages_withOnly rfl (fun _ => rfl) fun _ => stages_stage
  | allocateToBudget => exact stages_allocateToBudget
  | correctPledge => exact stages_correctPledge
  | correctPayment => exact stages_correctPayment
  | mergePeople => exact stages_mergePeople
  | draftAnnouncement =>
    unfold mutation AssistantMutations.draftAnnouncement
    split_ifs
    · exact stages_return rfl
    · exact stages_frames_bind frames_createAnnouncement fun _ => stages_return rfl
  | inviteMember => exact stages_inviteMember
  | createGroup =>
    unfold mutation AssistantMutations.createGroup
    split_ifs
    · exact stages_return rfl
    · exact stages_frames_bind (effects_createGroup (keeps_samePending _) _ _ _)
        fun _ => stages_return rfl
  | assignToGroup =>
    exact stages_withPerson fun _ _ => stages_withOnly rfl (fun _ => rfl) fun _ =>
      stages_frames_bind (effects_assignPerson (keeps_samePending _) _ _ _)
        fun _ => stages_return rfl
  | updateContact =>
    unfold mutation AssistantMutations.updateContact
    split_ifs
    · exact stages_return rfl
    · exact stages_withPerson fun _ _ =>
        stages_frames_bind (effects_updateContact (keeps_samePending _) _ _ _)
          fun _ => stages_return rfl
  | _ => exact stages_updateMemberRole

/-- A call of the capture adds the row of the action that it proposes, or none. -/
theorem wp_routeToolCall {ctx : OperationContext} {names : NameRules} {call : ToolCall}
    {confidence : ℚ} {rowId : ℕ} {draw : ExecDraw} (db : LedgerDb) :
    wp (fun _ => True) (routeToolCall ctx names call confidence rowId draw)
      (fun r => Adds db (toolPendingId (.captured r))) db := by
  have hanswer (r : CaptureResult) (h : IsAnswer r) : Adds db (toolPendingId (.captured r)) db := by
    cases r with
    | pending message id tier => exact h.elim
    | _ => exact adds_none rfl
  refine wp_route_of_write hanswer <| wp_routeWrite hanswer (fun h => ?_)
    fun _ action prompt _ hfresh => ?_
  · cases h
  · exact adds_staged (waitingRow ctx action (some confidence) prompt rowId) hfresh

end Akabbo.StagedMutations
