import Akabbo.ServiceSteps

/-!
# What the event services do to the rows

The same for events, the team, contacts, groups, the budget, files and documents.
-/
namespace Akabbo.EventSteps
open Access RowTable StatementProgram LedgerState LedgerWrites EventWrites ServiceSteps
open WeakestPreconditions
open StatementProgram.Program (query modify modifyChecked accept refuse orThrow runIf commitNow)

section event
variable {I : LedgerDb → Prop} {v : LedgerDb} {ctx : OperationContext} {draw : EventDraw}

theorem wp_assertCanCreateEvent {userId : ℕ} {max : Option ℕ} {Q : Unit → LedgerDb → Prop}
    (h : Q () v) : wp I (assertCanCreateEvent userId max) Q v := by
  cases max with
  | none => exact wp_pure h
  | some max => exact wp_query_bind (wp_refuse fun _ => h)

theorem wp_createEvent {actor : Actor} {input : CreateEventInput} {Q : EventSummary → LedgerDb → Prop}
    (h : ∀ view events members row, row.actorUserId = some actor.userId →
      row.action = "event:create" →
      Q view (LedgerDb.appendAudit { v with events, members } row)) :
    wp I (createEvent actor input draw) Q v :=
  wp_bind <| wp_assertCanCreateEvent <| wp_accept_bind fun _ => wp_accept_bind fun _ =>
    wp_writeAudit_bind fun row hrow => wp_pure (h _ _ _ row hrow.actor hrow.action)

theorem wp_updateEventRow_bind {τ : Type} {i : ℕ} {g : Event → Event} {hg : ∀ e, (g e).id = e.id}
    {f : Event → LedgerProgram τ} {Q : τ → LedgerDb → Prop}
    (h : ∀ e, v.events.get? i = some e →
      wp I (f (g e)) Q { v with events := v.events.update (fun e => e.id == i) g hg }) :
    wp I (updateEventRow i g hg >>= f) Q v := by
  refine wp_modifyChecked_bind fun a ha => ?_
  cases he : v.events.get? i with
  | none =>
    rw [he] at ha
    cases ha
  | some e =>
    rw [he] at ha
    cases ha
    exact h e he

theorem wp_updateSettings {input : UpdatePublicSettingsInput}
    {Q : PublicSettingsView → LedgerDb → Prop}
    (h : ∀ view events row, RowOf ctx "public:configure" row →
      Q view (LedgerDb.appendAudit { v with events } row)) :
    wp I (updateSettings ctx input) Q v :=
  wp_refuse_bind fun _ => wp_query_bind <| wp_orThrow_bind fun _ _ =>
    wp_updateEventRow_bind fun _ _ => wp_writeAudit_bind fun row hrow => wp_pure (h _ _ row hrow)

theorem wp_setToken {token : Option String} {action : String}
    {Q : PublicSettingsView → LedgerDb → Prop}
    (h : ∀ view events row, RowOf ctx action row →
      Q view (LedgerDb.appendAudit { v with events } row)) :
    wp I (setToken ctx token action) Q v :=
  wp_updateEventRow_bind fun _ _ => wp_writeAudit_bind fun row hrow => wp_pure (h _ _ row hrow)

theorem wp_upsertMember_bind {τ : Type} {m : EventMember} {g : EventMember → EventMember}
    {hg : ∀ m, (g m).key = m.key} {f : Unit → LedgerProgram τ} {Q : τ → LedgerDb → Prop}
    (h : ∀ members, wp I (f ()) Q { v with members }) : wp I (upsertMember m g hg >>= f) Q v := by
  refine wp_accept_bind fun _ => ?_
  split_ifs
  · exact h _
  · exact h _

theorem wp_addMember {userId : ℕ} {role : EventRole} {Q : ℕ × EventRole → LedgerDb → Prop}
    (h : ∀ r members row, RowOf ctx "member:add" row ∨ RowOf ctx "member:rerole" row →
      Q r (LedgerDb.appendAudit { v with members } row)) :
    wp I (addMember ctx userId role) Q v := by
  refine wp_gates_bind fun _ _ => wp_query_bind <| wp_orThrow_bind fun _ _ => wp_query_bind <|
    wp_upsertMember_bind fun members => wp_writeAudit_bind fun row hrow => wp_pure (h _ _ row ?_)
  split_ifs at hrow
  · exact .inr hrow
  · exact .inl hrow

theorem wp_assertNotMember {phone : Option String} {Q : Unit → LedgerDb → Prop} (h : Q () v) :
    wp I (assertNotMember phone) Q v :=
  wp_runIf (fun _ => wp_query_bind <| wp_runIf (fun _ => wp_query_bind (wp_refuse fun _ => h))
    fun _ => h) fun _ => h

theorem wp_createInvitation {input : CreateInvitationInput} {Q : InvitationView → LedgerDb → Prop}
    (h : ∀ view invitations, Q view { v with invitations }) :
    wp I (createInvitation ctx input draw) Q v :=
  wp_gates_bind fun _ _ => wp_bind <| wp_assertNotMember <| wp_refuse_bind fun _ =>
    wp_accept_bind fun _ => wp_pure (h _ _)

theorem wp_join {actor : Actor} {inv : Invitation} {now : ℕ}
    {Q : ℕ × EventRole × Bool → LedgerDb → Prop} (hmember : ∀ r, Q r v)
    (hjoin : ∀ r members invitations row, row.actorUserId = some actor.userId →
      row.action = "member:accept_invitation" →
      Q r (LedgerDb.appendAudit { v with members, invitations } row)) :
    wp I (join actor inv now) Q v := by
  refine wp_query_bind ?_
  split
  · exact wp_pure (hmember _)
  · exact wp_refuse_bind fun _ => wp_upsertMember_bind fun members => wp_accept_bind fun _ =>
      wp_writeAudit_bind fun row hrow => wp_pure (hjoin _ _ _ row hrow.actor hrow.action)

theorem wp_revokeInvitation {i : ℕ} {Q : Unit → LedgerDb → Prop}
    (h : ∀ invitations, Q () { v with invitations }) : wp I (revokeInvitation ctx i) Q v :=
  wp_refuse_bind fun _ => wp_query_bind <| wp_orThrow_bind fun _ _ => wp_accept fun _ => h _

theorem wp_updateContact {i : ℕ} {phone : String} {confirmed : Bool}
    {Q : PersonView → LedgerDb → Prop}
    (h : ∀ view row, RowOf ctx "person:update_contact" row →
      Q view ((v.updatePerson ctx.event.eventId i (fun p => { p with phone := some phone })
        fun _ => rfl).appendAudit row)) :
    wp I (updateContact ctx i phone confirmed) Q v := by
  refine wp_gates_bind fun _ _ => wp_query_bind <| wp_orThrow_bind fun _ _ =>
    wp_checkIf_bind ?_ <| wp_modifyChecked_bind fun _ _ =>
    wp_writeAudit_bind fun row hrow => wp_pure (h _ row hrow)
  exact fun hr => wp_runIf (fun _ => wp_query_bind (wp_refuse fun _ => hr)) fun _ => hr

/-- Linking a person to the account they already have changes nothing. -/
theorem updatePerson_same {e i : ℕ} {q : Person} (h : v.findPerson e i = some q) :
    v.updatePerson e i (fun p => { p with userId := q.userId }) (fun _ => rfl) = v := by
  have hrows : v.persons.update (fun p => p.eventId == e && p.id == i)
      (fun p => { p with userId := q.userId }) (fun _ => rfl) = v.persons := by
    refine Table.ext ((List.map_congr_left fun p hp => ?_).trans (List.map_id _))
    by_cases hsel : (p.eventId == e && p.id == i) = true
    · obtain ⟨hq, -, hqi⟩ := findPerson_mem h
      have hpi : p.id = i := by simpa using (Bool.and_eq_true_iff.mp hsel).2
      rw [if_pos hsel, Table.key_inj (t := v.persons) hp hq (hpi.trans hqi.symm)]
      rfl
    · rw [if_neg hsel]
      rfl
  simp only [LedgerDb.updatePerson, hrows]

theorem wp_linkPersonToUser {i userId : ℕ} {Q : PersonView → LedgerDb → Prop}
    (hsame : ∀ view, Q view v)
    (hlink : ∀ view row, RowOf ctx "person:link_user" row →
      Q view ((v.updatePerson ctx.event.eventId i (fun p => { p with userId := some userId })
        fun _ => rfl).appendAudit row)) :
    wp I (linkPersonToUser ctx i userId) Q v := by
  refine wp_gates_bind fun _ _ => wp_query_bind <| wp_orThrow_bind fun q hq =>
    wp_refuse_bind fun _ => wp_accept_bind fun _ => wp_runIf_bind (fun _ => ?_) fun hlinked => ?_
  · exact wp_modify (wp_pure (hlink _ _ ⟨rfl, rfl, rfl⟩))
  · have hown : q.userId = some userId := by simpa using hlinked
    rw [← hown, updatePerson_same hq]
    exact wp_pure (hsame _)

theorem wp_createGroup {name : String} {kind : GroupKind} {Q : GroupView → LedgerDb → Prop}
    (h : ∀ view g row, RowOf ctx "group:create" row →
      Q view (LedgerDb.appendAudit { v with groups := v.groups.insertNew g } row)) :
    wp I (createGroup ctx name kind draw) Q v :=
  wp_gates_bind fun _ _ => wp_accept_bind fun _ => wp_writeAudit_bind fun row hrow =>
    wp_pure (h _ _ row hrow)

theorem wp_assignPerson {i j : ℕ} {role : Option String} {Q : ℕ × ℕ → LedgerDb → Prop}
    (h : ∀ r q g row, v.findPerson ctx.event.eventId i = some q →
      v.groups.find? (fun g => g.eventId == ctx.event.eventId && g.id == j) = some g →
      RowOf ctx "group:assign" row →
      Q r (LedgerDb.appendAudit { v with
        personGroups := v.personGroups.insertNew ⟨ctx.event.eventId, i, j, role⟩ } row)) :
    wp I (assignPerson ctx i j role) Q v :=
  wp_gates_bind fun _ _ => wp_query_bind <| wp_query_bind <| wp_orThrow_bind fun q hq =>
    wp_orThrow_bind fun g hg => wp_accept_bind fun _ => wp_writeAudit_bind fun row hrow =>
    wp_pure (h _ q g row hq hg hrow)

theorem wp_ensureBudget_bind {τ : Type} {e budgetId : ℕ} {f : ℕ → LedgerProgram τ}
    {Q : τ → LedgerDb → Prop} (h : ∀ i budgets, wp I (f i) Q { v with budgets }) :
    wp I (ensureBudget e budgetId >>= f) Q v := by
  refine wp_bind (wp_query_bind ?_)
  split
  · exact wp_pure (h _ v.budgets)
  · exact wp_accept_bind fun _ => wp_pure (h _ _)

theorem wp_addItem {input : BudgetItemInput} {Q : BudgetItemView → LedgerDb → Prop}
    (h : ∀ view budgets item row, item.eventId = ctx.event.eventId →
      item.sourceDocumentId = input.sourceDocumentId →
      budgetItemViolation { v with budgets } item = none → RowOf ctx "budget_item:create" row →
      Q view (LedgerDb.appendAudit
        { v with budgets, budgetItems := v.budgetItems.insertNew item } row)) :
    wp I (addItem ctx input draw) Q v :=
  wp_gates_bind fun _ _ => wp_ensureBudget_bind fun _ budgets => wp_accept_bind fun hlegal =>
    wp_writeAudit_bind fun row hrow => wp_pure (h _ budgets _ row rfl rfl hlegal hrow)

theorem wp_updateItem {i : ℕ} {input : UpdateItemInput} {Q : BudgetItemView → LedgerDb → Prop}
    (h : ∀ view current row, RowOf ctx "budget_item:update" row →
      Q view (LedgerDb.appendAudit { v with
        budgetItems := v.budgetItems.update
          (fun item => item.eventId == ctx.event.eventId && item.id == i) (input.apply current)
          fun _ => rfl } row)) :
    wp I (updateItem ctx i input) Q v :=
  wp_gates_bind fun _ _ => wp_query_bind <| wp_orThrow_bind fun current _ =>
    wp_refuse_bind fun _ => wp_modifyChecked_bind fun _ _ => wp_writeAudit_bind fun row hrow =>
    wp_pure (h _ current row hrow)

theorem wp_removeItem {i : ℕ} {Q : ℕ × String → LedgerDb → Prop}
    (h : ∀ r row, (∀ a ∈ v.allocations, a.budgetItemId ≠ i) → RowOf ctx "budget_item:delete" row →
      Q r ((deleteBudgetItem v ctx.event.eventId i).appendAudit row)) :
    wp I (removeItem ctx i) Q v := by
  refine wp_gates_bind fun _ _ => wp_query_bind <| wp_orThrow_bind fun _ _ => wp_query_bind <|
    wp_refuse_bind fun _ => wp_accept_bind fun hlegal => wp_writeAudit_bind fun row hrow =>
    wp_pure (h _ row (fun a ha hai => ?_) hrow)
  split_ifs at hlegal with hnone hrows
  exact hrows (List.any_eq_true.mpr ⟨a, ha, by simpa using hai⟩)

theorem wp_allocate {i j value : ℕ} {Q : AllocationView → LedgerDb → Prop}
    (h : ∀ view id f item row, v.findFulfillment ctx.event.eventId i = some f →
      findBudgetItem v ctx.event.eventId j = some item → RowOf ctx "allocation:create" row →
      Q view (LedgerDb.appendAudit { v with
        allocations := v.allocations.insertNew ⟨id, ctx.event.eventId, i, j, value⟩ } row)) :
    wp I (allocate ctx i j value draw) Q v :=
  wp_gates_bind fun _ _ => wp_query_bind <| wp_orThrow_bind fun f hf => wp_query_bind <|
    wp_orThrow_bind fun item hitem => wp_accept_bind fun _ => wp_writeAudit_bind fun row hrow =>
    wp_pure (h _ _ f item row hf hitem hrow)

theorem wp_upload {maxBytes : ℕ} {input : UploadFileInput} {Q : FileObject → LedgerDb → Prop}
    (h : ∀ f row, f.eventId = ctx.event.eventId →
      (∀ i, f.personId = some i → ∃ q, v.findPerson ctx.event.eventId i = some q) →
      RowOf ctx "file:upload" row →
      Q f (LedgerDb.appendAudit { v with files := v.files.insertNew f } row)) :
    wp I (upload ctx maxBytes input draw) Q v := by
  refine wp_gates_bind fun _ _ => wp_refuse_bind fun _ => wp_refuse_bind fun _ =>
    wp_refuse_bind fun _ => ?_
  have hinsert (hperson : ∀ i, input.personId = some i →
      ∃ q, v.findPerson ctx.event.eventId i = some q) :
      wp I (upload.insertFile ctx input draw) Q v :=
    wp_accept_bind fun _ => wp_writeAudit_bind fun row hrow => wp_pure (h _ row rfl hperson hrow)
  cases hp : input.personId with
  | none => exact hinsert fun i hi => by simp [hp] at hi
  | some i =>
    refine wp_query_bind <| wp_orThrow_bind fun q hq => hinsert fun j hj => ⟨q, ?_⟩
    obtain rfl : i = j := Option.some.inj (hp.symm.trans hj)
    exact hq

theorem wp_submitForExtraction {i : ℕ} {kind : ExtractionKind} {Q : Document → LedgerDb → Prop}
    (h : ∀ d f row out, v.files.find? (fun f => f.eventId == ctx.event.eventId && f.id == i) = some f →
      d.eventId = ctx.event.eventId → d.fileId = i → RowOf ctx "document:submit" row →
      Q d ((LedgerDb.appendAudit { v with documents := v.documents.insertNew d } row).insertOutbox
        out)) :
    wp I (submitForExtraction ctx i kind draw) Q v :=
  wp_gates_bind fun _ _ => wp_query_bind <| wp_orThrow_bind fun f hf => wp_refuse_bind fun _ =>
    wp_accept_bind fun _ => wp_writeAudit_bind fun row hrow => wp_accept_bind fun _ =>
    wp_pure (h _ f row _ hf rfl rfl hrow)

end event
end Akabbo.EventSteps
