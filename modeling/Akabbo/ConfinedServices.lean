import Akabbo.ConfinedLedger

/-!
# The other services within their event

Events and their teams, people and groups, the budget, files and documents, under the conditions that
the ledger has.
-/
namespace Akabbo.ConfinedServices
open Access PledgeStatus RowTable TenantLinks StatementProgram ProgramParts Noninterference TenantViews LedgerState
open LedgerWrites EventWrites ServiceCalls ServiceEffects TeamCalls TenantClosure ConfinedLedger
open StatementProgram.Program (query modify modifyChecked accept refuse orThrow runIf commitNow)

section event
variable {ctx : OperationContext} {v : LedgerDb} {τ : Type} {Q : τ → LedgerDb → Prop}

theorem tableEdits_event {e : ℕ} {g : Event → Event} {hg : ∀ x, (g x).id = x.id} :
    TableEdits Event.id e (fun t => t.update (fun x => x.id == e) g hg) v.events :=
  tableEdits_update hg fun x _ hx => by simpa using hx

theorem confined_updateEventRow_bind {e : ℕ} {g : Event → Event} {hg : ∀ x, (g x).id = x.id}
    {f : Event → LedgerProgram τ}
    (h : ∀ x, Confined alone e Q (f x)
      { v with events := v.events.update (fun x => x.id == e) g hg }) :
    Confined alone e Q (updateEventRow e g hg >>= f) v := by
  refine confined_bind <| confined_modifyChecked (by rw [event_alone]) fun a _ => ⟨?_, h a⟩
  exact edits_column column_events tableEdits_event

theorem isolated_updateEvent (input : UpdateEventInput) :
    Isolated ctx.event.eventId (updateEvent ctx input) v :=
  confined_gates_bind <| confined_find_bind (event_alone _ _) fun _ _ =>
    confined_updateEventRow_bind fun _ => confined_writeAudit_bind fun _ => trivial

theorem isolated_setEventStatus (status : EventStatus) :
    Isolated ctx.event.eventId (setEventStatus ctx status) v :=
  confined_refuse_bind fun _ => confined_find_bind (event_alone _ _) fun _ _ =>
    confined_updateEventRow_bind fun _ => confined_writeAudit_bind fun _ => trivial

theorem isolated_updateSettings (input : UpdatePublicSettingsInput) :
    Isolated ctx.event.eventId (updateSettings ctx input) v :=
  confined_refuse_bind fun _ => confined_find_bind (event_alone _ _) fun _ _ =>
    confined_updateEventRow_bind fun _ => confined_writeAudit_bind fun _ => trivial

theorem isolated_setToken (token : Option String) (action : String) :
    Isolated ctx.event.eventId (setToken ctx token action) v :=
  confined_updateEventRow_bind fun _ => confined_writeAudit_bind fun _ => trivial

theorem confined_upsertMember_bind {member : EventMember} {update : EventMember → EventMember}
    {hu : ∀ m, (update m).key = m.key} {k : Unit → LedgerProgram τ}
    (he : member.eventId = ctx.event.eventId)
    (h : ∀ members, Confined alone ctx.event.eventId Q (k ()) { v with members }) :
    Confined alone ctx.event.eventId Q (upsertMember member update hu >>= k) v := by
  have hkey : HomeKey EventMember.eventId ctx.event.eventId v.members member.key :=
    fun r _ hr => (congrArg Prod.fst hr).trans he
  have htenant (m : EventMember) : (update m).eventId = m.eventId := congrArg Prod.fst (hu m)
  have htaken : (alone ctx.event.eventId v).members.has member.key = v.members.has member.key :=
    has_home hkey
  refine confined_change_bind rfl fun _ => ?_
  by_cases hhas : v.members.has member.key = true
  · rw [if_pos hhas]
    refine ⟨edits_congr (edits_column column_members (tableEdits_update htenant fun m hm hmk => ?_))
      (if_pos hhas) (if_pos (htaken.trans hhas)), h _⟩
    exact hkey m hm (by simpa using hmk)
  · rw [if_neg hhas]
    exact ⟨edits_congr (edits_column column_members (tableEdits_insertNew he hkey)) (if_neg hhas)
      (if_neg fun hhome => hhas (htaken.symm.trans hhome)), h _⟩

theorem isolated_addMember (userId : ℕ) (role : EventRole) :
    Isolated ctx.event.eventId (addMember ctx userId role) v := by
  have hkey : HomeKey EventMember.eventId ctx.event.eventId v.members (ctx.event.eventId, userId) :=
    fun r _ hr => congrArg Prod.fst hr
  exact confined_gates_bind <| confined_find_bind rfl fun _ _ =>
    confined_query_bind (get?_home hkey) <| confined_upsertMember_bind rfl fun _ =>
    confined_writeAudit_bind fun _ => trivial

theorem confined_insertInvitation_bind {inv : Invitation} {k : Unit → LedgerProgram τ}
    (he : inv.eventId = ctx.event.eventId)
    (hid : HomeKey Invitation.eventId ctx.event.eventId v.invitations inv.id)
    (htoken : ∀ i ∈ v.invitations, i.token = inv.token → i.eventId = ctx.event.eventId)
    (h : ∀ w, Confined alone ctx.event.eventId Q (k ()) w) :
    Confined alone ctx.event.eventId Q (insertInvitation inv >>= k) v := by
  have htaken : (alone ctx.event.eventId v).invitations.has inv.id = v.invitations.has inv.id :=
    has_home hid
  have hshared : ((alone ctx.event.eventId v).invitations.rows.any fun i => i.token == inv.token) =
      v.invitations.rows.any fun i => i.token == inv.token :=
    any_home fun i hi hit => htoken i hi (by simpa using hit)
  exact confined_change_bind (by rw [htaken, hshared]) fun _ =>
    ⟨edits_column column_invitations (tableEdits_insertNew he hid), h _⟩

theorem isolated_createInvitation (input : CreateInvitationInput) {draw : ServiceDraw}
    (h : DrawnHere ctx.event.eventId draw v) :
    Isolated ctx.event.eventId (createInvitation ctx input draw.event) v := by
  refine confined_gates_bind (confined_bind ?_)
  -- whoever is invited, no membership is seen, and the seat is asked for
  have hrest (Q : Unit → LedgerDb → Prop) (hQ : Q () v) : Confined alone ctx.event.eventId Q
      (assertNotMember input.invitedPhone) v :=
    confined_runIf (fun _ => hQ) fun _ => confined_query_bind rfl <|
      confined_runIf (fun _ => hQ) fun _ => confined_query_bind rfl <| confined_refuse fun _ => hQ
  exact hrest _ <| confined_refuse_bind fun _ =>
    confined_insertInvitation_bind rfl h.invitation h.token fun _ => trivial

theorem confined_updateInvitation {i : ℕ} {g : Invitation → Invitation} {hg : ∀ x, (g x).id = x.id}
    (htenant : ∀ x, (g x).eventId = x.eventId)
    (hi : HomeKey Invitation.eventId ctx.event.eventId v.invitations i) {Q : Unit → LedgerDb → Prop}
    (h : ∀ w, Q () w) : Confined alone ctx.event.eventId Q (updateInvitation i g hg) v := by
  have hfound : (alone ctx.event.eventId v).invitations.has i = v.invitations.has i := has_home hi
  refine confined_modifyChecked (by simp only [hfound]) fun _ _ => ⟨edits_column column_invitations
    (tableEdits_update htenant fun x hx hxi => hi x hx (by simpa using hxi)), h _⟩

theorem isolated_revokeInvitation (i : ℕ) :
    Isolated ctx.event.eventId (revokeInvitation ctx i) v := by
  refine confined_refuse_bind fun _ => confined_find_bind (find?_home fun x _ hx => ?_) fun inv hinv => ?_
  · simp only [Bool.and_eq_true, beq_iff_eq] at hx
    exact hx.2
  · obtain ⟨hmem, hhere⟩ := Table.mem_of_find? hinv
    simp only [Bool.and_eq_true, beq_iff_eq] at hhere
    exact confined_updateInvitation (fun _ => by rfl) (homeKey_of_mem hmem hhere.2) fun _ => trivial

/-- Whoever accepts an invitation joins its event, and the invitation is told by its token. -/
theorem isolated_acceptInvitation {e : ℕ} (actor : Actor) (token : String) (now : ℕ)
    (htoken : ∀ i ∈ v.invitations, i.token = token → i.eventId = e) :
    Isolated e (acceptInvitation actor token now) v := by
  refine confined_find_bind (find?_home fun i hi hit => htoken i hi (by simpa using hit))
    fun inv hinv => confined_refuse_bind fun _ => ?_
  obtain ⟨hmem, hit⟩ := Table.mem_of_find? hinv
  obtain rfl : inv.eventId = e := htoken inv hmem (by simpa using hit)
  have hhome : HomeKey Invitation.eventId inv.eventId v.invitations inv.id := homeKey_of_mem hmem rfl
  let ctx : OperationContext := ⟨actor, ⟨inv.eventId, inv.role, .active⟩⟩
  change Confined alone ctx.event.eventId _ _ _
  split_ifs
  · refine confined_bind <| confined_runIf (fun _ => trivial) fun _ => ?_
    exact confined_updateInvitation (fun _ => by rfl) hhome fun _ => trivial
  · have hkey : HomeKey EventMember.eventId inv.eventId v.members (inv.eventId, actor.userId) :=
      fun r _ hr => congrArg Prod.fst hr
    refine confined_query_bind (get?_home hkey) ?_
    cases (v.members.get? (inv.eventId, actor.userId)).filter fun m => decide (m.status = .active) with
    | some m => trivial
    | none =>
      refine confined_refuse_bind fun _ => confined_upsertMember_bind rfl fun members => ?_
      exact confined_bind <| confined_updateInvitation (fun _ => by rfl) hhome fun _ =>
        confined_writeAudit_bind fun _ => trivial

end event

section people
variable {ctx : OperationContext} {v : LedgerDb} {draw : ServiceDraw}

theorem isolated_updateContact (i : ℕ) (phone : String) (shared : Bool) :
    Isolated ctx.event.eventId (updateContact ctx i phone shared) v := by
  refine confined_gates_bind <| confined_find_bind (findPerson_alone _ _ _) fun q _ => ?_
  have hwrite : Isolated ctx.event.eventId (do
      let updated ← setPhone ctx.event.eventId i phone
      writeAudit ctx "person:update_contact" "person" i .humanTyped
        (some [("phone", textOrNull q.phone)]) (some [("phone", .text phone)])
      return personView updated) v := by
    refine confined_bind <| confined_modifyChecked (by rw [findPerson_alone]) fun _ _ =>
      ⟨edits_column column_persons (tableEdits_update (fun _ => by rfl) fun r _ hr => own_of_and hr), ?_⟩
    exact confined_writeAudit_bind fun _ => trivial
  refine confined_bind <| confined_runIf (fun _ => hwrite) fun _ => confined_runIf (fun _ => hwrite)
    fun _ => confined_query_bind (congrArg oldest (filter_home fun r _ hr => ?_)) ?_
  · simp only [Bool.and_eq_true, beq_iff_eq] at hr
    exact hr.1.1
  · exact confined_refuse fun _ => hwrite

theorem isolated_linkPersonToUser (i userId : ℕ) :
    Isolated ctx.event.eventId (linkPersonToUser ctx i userId) v := by
  have hheld : ((alone ctx.event.eventId v).persons.rows.any fun p =>
      p.eventId == ctx.event.eventId && p.userId == some userId && p.id != i) =
        v.persons.rows.any fun p =>
          p.eventId == ctx.event.eventId && p.userId == some userId && p.id != i :=
    any_home fun r _ hr => by
      simp only [Bool.and_eq_true, beq_iff_eq] at hr
      exact hr.1.1
  refine confined_gates_bind <| confined_find_bind (findPerson_alone _ _ _) fun _ _ =>
    confined_refuse_bind fun _ => ?_
  refine confined_change_bind (by rw [findPerson_alone, hheld]) fun _ =>
    ⟨edits_column column_persons (tableEdits_update (fun _ => by rfl) fun r _ hr => own_of_and hr), ?_⟩
  exact confined_bind <| confined_runIf (fun _ => trivial) fun _ =>
    confined_modify (edits_appendAudit rfl) trivial

theorem confined_insert_bind {ι ρ τ : Type} [DecidableEq ι] {key : ρ → ι} {tenant : ρ → ℕ}
    {get : LedgerDb → Table ι ρ key} {set : LedgerDb → Table ι ρ key → LedgerDb}
    (hcolumn : Column get set (home tenant)) {r : ρ} {l : List RowLock}
    {violation : LedgerDb → Option Refusal} {Q : τ → LedgerDb → Prop} {k : Unit → LedgerProgram τ}
    (he : tenant r = ctx.event.eventId) (hk : HomeKey tenant ctx.event.eventId (get v) (key r))
    (hsame : violation (alone ctx.event.eventId v) = violation v)
    (h : ∀ w, Confined alone ctx.event.eventId Q (k ()) w) :
    Confined alone ctx.event.eventId Q
      (change l violation (fun db => set db ((get db).insertNew r)) >>= k) v :=
  confined_change_bind hsame fun _ => ⟨edits_column hcolumn (tableEdits_insertNew he hk), h _⟩

theorem isolated_createGroup (name : String) (kind : GroupKind)
    (h : DrawnHere ctx.event.eventId draw v) :
    Isolated ctx.event.eventId (createGroup ctx name kind draw.event) v := by
  have htaken : (alone ctx.event.eventId v).groups.has draw.event.rowId =
      v.groups.has draw.event.rowId := has_home h.group
  exact confined_gates_bind <| confined_insert_bind column_groups (by rfl) (by exact h.group)
    (by rw [htaken]) fun _ => confined_writeAudit_bind fun _ => trivial

theorem isolated_assignPerson (i j : ℕ) (role : Option String) (h : Bound v) :
    Isolated ctx.event.eventId (assignPerson ctx i j role) v := by
  refine confined_gates_bind <| confined_query_bind (findPerson_alone _ _ _) <|
    confined_query_bind (find?_home fun g _ hg => own_of_and hg) <|
    confined_orThrow_bind fun q hq => confined_orThrow_bind fun g hg => ?_
  have hperson := homeKey_person hq
  have hgroup : HomeKey ContributorGroup.eventId ctx.event.eventId v.groups j := by
    obtain ⟨hmem, hhere⟩ := Table.mem_of_find? hg
    simp only [Bool.and_eq_true, beq_iff_eq] at hhere
    obtain ⟨he, rfl⟩ := hhere
    exact homeKey_of_mem hmem he
  have hpair : HomeKey PersonGroup.eventId ctx.event.eventId v.personGroups (i, j) := fun r hr hk =>
    home_of_linked h.closed.groupedPerson hperson hr (congrArg (some ∘ Prod.fst) hk)
  have htaken : (alone ctx.event.eventId v).personGroups.has (i, j) = v.personGroups.has (i, j) :=
    has_home hpair
  have hnamed : (alone ctx.event.eventId v).persons.has i = v.persons.has i := has_home hperson
  have hgrouped : (alone ctx.event.eventId v).groups.has j = v.groups.has j := has_home hgroup
  refine confined_insert_bind column_personGroups (by rfl) (by exact hpair) ?_ fun _ =>
    confined_writeAudit_bind fun _ => trivial
  simp only [personGroupViolation, PersonGroup.key, htaken, hnamed, hgrouped]
  rfl

theorem confined_ensureBudget {budgetId : ℕ} {Q : ℕ → LedgerDb → Prop}
    (hid : HomeKey Budget.eventId ctx.event.eventId v.budgets budgetId)
    (h : ∀ i w, w.budgetItems = v.budgetItems → w.documents = v.documents → Q i w) :
    Confined alone ctx.event.eventId Q (ensureBudget ctx.event.eventId budgetId) v := by
  have htaken : (alone ctx.event.eventId v).budgets.has budgetId = v.budgets.has budgetId :=
    has_home hid
  refine confined_query_bind (find?_home fun b _ hb => by simpa using hb) ?_
  cases v.budgets.find? fun b => b.eventId == ctx.event.eventId with
  | some b => exact h b.id v rfl rfl
  | none =>
    exact confined_change_bind (by rw [htaken]) fun _ =>
      ⟨edits_column column_budgets (tableEdits_insertNew (by rfl) (by exact hid)), h _ _ rfl rfl⟩

theorem isolated_addItem (input : BudgetItemInput) (h : DrawnHere ctx.event.eventId draw v)
    (hdocument : DocumentHome v ctx.event.eventId input.sourceDocumentId) :
    Isolated ctx.event.eventId (addItem ctx input draw.event) v := by
  refine confined_gates_bind <| confined_bind <| confined_ensureBudget h.budget
    fun budgetId w hlines hdocuments => ?_
  have hid : HomeKey BudgetItem.eventId ctx.event.eventId w.budgetItems draw.event.rowId :=
    hlines ▸ h.budgetItem
  have htaken : (alone ctx.event.eventId w).budgetItems.has draw.event.rowId =
      w.budgetItems.has draw.event.rowId := has_home hid
  have hnamed : (input.sourceDocumentId.any fun d => !(alone ctx.event.eventId w).documents.has d) =
      input.sourceDocumentId.any fun d => !w.documents.has d := by
    cases hd : input.sourceDocumentId with
    | none => rfl
    | some d => exact congrArg not (has_home (hdocuments ▸ hdocument d hd))
  refine confined_insert_bind column_budgetItems (by rfl) (by exact hid) ?_ fun _ =>
    confined_writeAudit_bind fun _ => trivial
  simp only [budgetItemViolation, htaken, hnamed]

theorem isolated_updateItem (i : ℕ) (input : UpdateItemInput) :
    Isolated ctx.event.eventId (updateItem ctx i input) v := by
  refine confined_gates_bind <| confined_find_bind (findBudgetItem_alone _ _ _) fun item _ =>
    confined_refuse_bind fun _ => confined_bind ?_
  refine confined_modifyChecked (by rw [findBudgetItem_alone]) fun _ _ => ⟨?_, ?_⟩
  · exact edits_column column_budgetItems
      (tableEdits_update (fun _ => by rfl) fun r _ hr => own_of_and hr)
  · exact confined_writeAudit_bind fun _ => trivial

theorem homeKey_budgetItem {e i : ℕ} {item : BudgetItem} (h : findBudgetItem v e i = some item) :
    HomeKey BudgetItem.eventId e v.budgetItems i := by
  obtain ⟨hmem, hhere⟩ := Table.mem_of_find? h
  simp only [Bool.and_eq_true, beq_iff_eq] at hhere
  obtain ⟨he, rfl⟩ := hhere
  exact homeKey_of_mem hmem he

theorem isolated_removeItem (i : ℕ) (h : Bound v) :
    Isolated ctx.event.eventId (removeItem ctx i) v := by
  refine confined_gates_bind <| confined_find_bind (findBudgetItem_alone _ _ _) fun item hitem => ?_
  have hline := homeKey_budgetItem hitem
  have hallocated : ((alone ctx.event.eventId v).allocations.rows.filter fun a =>
      a.eventId == ctx.event.eventId && a.budgetItemId == i) =
        v.allocations.rows.filter fun a => a.eventId == ctx.event.eventId && a.budgetItemId == i :=
    filter_home fun _ _ ha => own_of_and ha
  have hheld : ((alone ctx.event.eventId v).allocations.rows.any fun a => a.budgetItemId == i) =
      v.allocations.rows.any fun a => a.budgetItemId == i :=
    any_home fun a ha hai => home_of_linked h.closed.allocationLine hline ha
      (congrArg some (by simpa using hai))
  refine confined_query_bind (by rw [hallocated]) <| confined_refuse_bind fun _ =>
    confined_change_bind (by rw [findBudgetItem_alone, hheld]) fun _ => ⟨?_, ?_⟩
  · have hlines : Edits alone ctx.event.eventId (fun db => { db with
        budgetItems := db.budgetItems.delete fun x => x.eventId == ctx.event.eventId && x.id == i }) v :=
      edits_column column_budgetItems (tableEdits_delete fun _ _ hx => own_of_and hx)
    have hpledges (w : LedgerDb) (hw : w.pledges = v.pledges) :
        Edits alone ctx.event.eventId (fun db => { db with
          pledges := db.pledges.update (fun p => p.targetBudgetItemId == some i)
            (fun p => { p with targetBudgetItemId := none }) fun _ => rfl }) w :=
      edits_column column_pledges (tableEdits_update (fun _ => by rfl) fun p hp hpi =>
        home_of_linked h.closed.pledgeLine hline (hw ▸ hp) (by simpa using hpi))
    exact edits_comp hlines (hpledges _ rfl)
  · exact confined_writeAudit_bind fun _ => trivial

theorem isolated_allocate (i j value : ℕ) (h : DrawnHere ctx.event.eventId draw v) :
    Isolated ctx.event.eventId (allocate ctx i j value draw.event) v := by
  refine confined_gates_bind <| confined_find_bind (findFulfillment_alone _ _ _) fun f hf =>
    confined_find_bind (findBudgetItem_alone _ _ _) fun item hitem => ?_
  have hpaid : HomeKey Fulfillment.eventId ctx.event.eventId v.fulfillments i := by
    obtain ⟨hmem, he, rfl⟩ := findFulfillment_mem hf
    exact homeKey_of_mem hmem he
  have htaken : (alone ctx.event.eventId v).allocations.has draw.event.rowId =
      v.allocations.has draw.event.rowId := has_home h.allocation
  have hfrom : (alone ctx.event.eventId v).fulfillments.has i = v.fulfillments.has i := has_home hpaid
  have hto : (alone ctx.event.eventId v).budgetItems.has j = v.budgetItems.has j :=
    has_home (homeKey_budgetItem hitem)
  refine confined_insert_bind column_allocations (by rfl) (by exact h.allocation) ?_ fun _ =>
    confined_writeAudit_bind fun _ => trivial
  simp only [allocationViolation, htaken, hfrom, hto]

end people

section files
variable {ctx : OperationContext} {v : LedgerDb} {draw : ServiceDraw}

theorem isolated_upload (maxBytes : ℕ) (input : UploadFileInput)
    (h : DrawnHere ctx.event.eventId draw v) :
    Isolated ctx.event.eventId (upload ctx maxBytes input draw.event) v := by
  have htaken : (alone ctx.event.eventId v).files.has draw.event.rowId =
      v.files.has draw.event.rowId := has_home h.file
  have hinsert (hperson : ∀ i, input.personId = some i →
      HomeKey Person.eventId ctx.event.eventId v.persons i) :
      Isolated ctx.event.eventId (upload.insertFile ctx input draw.event) v := by
    have hnamed : (input.personId.any fun p => !(alone ctx.event.eventId v).persons.has p) =
        input.personId.any fun p => !v.persons.has p := by
      cases hp : input.personId with
      | none => rfl
      | some p => exact congrArg not (has_home (hperson p hp))
    refine confined_insert_bind column_files (by rfl) (by exact h.file) ?_ fun _ =>
      confined_writeAudit_bind fun _ => trivial
    simp only [fileViolation, htaken, hnamed]
  refine confined_gates_bind <| confined_refuse_bind fun _ => confined_refuse_bind fun _ =>
    confined_refuse_bind fun _ => ?_
  cases hp : input.personId with
  | none => exact hinsert fun i hi => by cases hp.symm.trans hi
  | some i =>
    exact confined_find_bind (findPerson_alone _ _ _) fun q hq => hinsert fun i' hi' => by
      cases hp.symm.trans hi'
      exact homeKey_person hq

theorem isolated_submit (i : ℕ) (kind : ExtractionKind) (h : DrawnHere ctx.event.eventId draw v) :
    Isolated ctx.event.eventId (submitForExtraction ctx i kind draw.event) v := by
  have htaken : (alone ctx.event.eventId v).documents.has draw.event.rowId =
      v.documents.has draw.event.rowId := has_home h.document
  refine confined_gates_bind <| confined_find_bind (find?_home fun f _ hf => own_of_and hf)
    fun f hf => confined_refuse_bind fun _ => ?_
  have hfile : (alone ctx.event.eventId v).files.has i = v.files.has i := by
    obtain ⟨hmem, hhere⟩ := Table.mem_of_find? hf
    simp only [Bool.and_eq_true, beq_iff_eq] at hhere
    obtain ⟨he, rfl⟩ := hhere
    exact has_home (homeKey_of_mem hmem he)
  refine confined_change_bind ?_ fun _ =>
    ⟨edits_column column_documents (tableEdits_insertNew (by rfl) (by exact h.document)), ?_⟩
  · simp only [documentViolation, htaken, hfile]
  · exact confined_writeAudit_bind fun _ => confined_enqueue_bind rfl h.upload trivial

end files

end Akabbo.ConfinedServices
