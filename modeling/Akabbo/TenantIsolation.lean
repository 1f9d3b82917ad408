import Akabbo.ClosedEvents
import Akabbo.ConfinedServices
import Akabbo.EventPlans

/-!
# Events do not notice each other

All events share one database. What the calls on an event are answered, and what they leave of its
rows, is what they would be answered and would leave if there were no other event.
-/
namespace Akabbo.TenantIsolation
open Access RowTable TenantLinks StatementProgram ProgramParts WeakestPreconditions Noninterference
open TenantViews LedgerState LedgerWrites EventWrites ServiceCalls ServiceEffects TeamCalls TenantClosure
open ConfinedLedger ConfinedServices EventPlans
open BillingState (BillingDb)
open ClosedEvents (requireContext)
open TeamSeats (seatAnswer)
open StatementProgram.Program (query commitNow)

/-- Only the creation of an event is on none. -/
def OnEvent : ServiceCall → Bool
  | .createEvent _ => false
  | _ => true

inductive Reply
  | ledger (result : LedgerResult)
  | event (summary : EventSummary)
  | settings (view : PublicSettingsView)
  | member (userId : ℕ) (role : EventRole)
  | joined (eventId : ℕ) (role : EventRole) (already : Bool)
  | invitation (view : InvitationView)
  | person (view : PersonView)
  | group (view : GroupView)
  | assigned (personId groupId : ℕ)
  | line (view : BudgetItemView)
  | removed (itemId : ℕ) (name : String)
  | allocation (view : AllocationView)
  | file (file : FileObject)
  | document (document : Document)
  | done
  deriving DecidableEq, Repr

/-- A call with what its service returns. -/
def reply (ctx : OperationContext) (draw : ServiceDraw) : ServiceCall → LedgerProgram Reply
  | .ledger call => .ledger <$> call.program ctx draw.ledger
  | .createEvent input => .event <$> createEvent ctx.actor input draw.event
  | .updateEvent input => .event <$> updateEvent ctx input
  | .setEventStatus status => .event <$> setEventStatus ctx status
  | .updateSettings input => .settings <$> updateSettings ctx input
  | .rotateAccessToken => .settings <$> rotateAccessToken ctx draw.event
  | .clearAccessToken => .settings <$> clearAccessToken ctx
  | .addMember userId role => (fun r => .member r.1 r.2) <$> addMember ctx userId role
  | .updateRole userId role => (fun r => .member r.1 r.2) <$> updateRole ctx userId role
  | .createInvitation input => .invitation <$> createInvitation ctx input draw.event
  | .acceptInvitation token =>
      (fun r => .joined r.1 r.2.1 r.2.2) <$> acceptInvitation ctx.actor token draw.event.now
  | .revokeInvitation i => (fun _ => .done) <$> revokeInvitation ctx i
  | .updateContact i phone shared => .person <$> updateContact ctx i phone shared
  | .linkPersonToUser i userId => .person <$> linkPersonToUser ctx i userId
  | .createGroup name kind => .group <$> createGroup ctx name kind draw.event
  | .assignPerson i j role => (fun r => .assigned r.1 r.2) <$> assignPerson ctx i j role
  | .addItem input => .line <$> addItem ctx input draw.event
  | .updateItem i input => .line <$> updateItem ctx i input
  | .removeItem i => (fun r => .removed r.1 r.2) <$> removeItem ctx i
  | .allocate i j value => .allocation <$> allocate ctx i j value draw.event
  | .upload maxBytes input => .file <$> upload ctx maxBytes input draw.event
  | .submitForExtraction i kind => .document <$> submitForExtraction ctx i kind draw.event

/-- Whoever calls from outside has to be a member of the event. -/
def asMember {ρ : Type} (actor : Actor) (eventId : ℕ) (p : OperationContext → LedgerProgram ρ) :
    LedgerProgram ρ := do
  let event ← requireContext actor eventId
  commitNow
  p ⟨actor, event⟩

/-- A call with what the world supplies to it: what it draws, and the rows of billing as they are when
the plan is asked. Who accepts an invitation names no event, and the call counts to the invitation's. -/
structure Request where
  actor : Actor
  eventId : ℕ
  call : ServiceCall
  draw : ServiceDraw
  billing : BillingDb
  plan : BillingState.Draw
  onEvent : OnEvent call = true

/-- Two of the calls ask the plan of the event first. -/
def Request.reply (r : Request) (ctx : OperationContext) : LedgerProgram Reply :=
  match r.call with
  | .ledger (.createPerson _ input) => do
      let ent ← query fun db => contributorAnswer r.billing db ctx.event.eventId r.plan
      TenantIsolation.reply ctx r.draw (.ledger (.createPerson ent input))
  | .createInvitation input => do
      let seat ← query fun db => seatAnswer r.billing db ctx.event.eventId r.plan
      TenantIsolation.reply ctx { r.draw with event := { r.draw.event with seat } }
        (.createInvitation input)
  | call => TenantIsolation.reply ctx r.draw call

def Request.program (r : Request) : LedgerProgram Reply :=
  match r.call with
  -- of the context it uses the actor alone
  | .acceptInvitation _ => r.reply ⟨r.actor, ⟨r.eventId, .viewer, .active⟩⟩
  | _ => asMember r.actor r.eventId r.reply

/-- The token, if it is anybody's, is of an invitation to this event. -/
def TokenHome (db : LedgerDb) (e : ℕ) (token : String) : Prop :=
  ∀ i ∈ db.invitations, i.token = token → i.eventId = e

section confined
variable {ctx : OperationContext} {v : LedgerDb} {draw : ServiceDraw}

theorem isolated_reply {call : ServiceCall} (hcall : OnEvent call = true) (hbound : Bound v)
    (h : DrawnHere ctx.event.eventId draw v) (hscoped : ServiceScoped v ctx.event.eventId call)
    (htoken : ∀ token, call = .acceptInvitation token → TokenHome v ctx.event.eventId token) :
    Isolated ctx.event.eventId (reply ctx draw call) v := by
  cases call with
  | ledger call => exact confined_map (isolated_ledger call h hbound hscoped)
  | createEvent input => cases hcall
  | updateEvent input => exact confined_map (isolated_updateEvent input)
  | setEventStatus status => exact confined_map (isolated_setEventStatus status)
  | updateSettings input => exact confined_map (isolated_updateSettings input)
  | rotateAccessToken =>
    exact confined_map <| confined_refuse_bind fun _ => isolated_setToken ..
  | clearAccessToken =>
    exact confined_map <| confined_refuse_bind fun _ => isolated_setToken ..
  | addMember userId role => exact confined_map (isolated_addMember userId role)
  | updateRole userId role => exact confined_map (isolated_addMember userId role)
  | createInvitation input => exact confined_map (isolated_createInvitation input h)
  | acceptInvitation token =>
    exact confined_map (isolated_acceptInvitation _ _ _ (htoken token rfl))
  | revokeInvitation i => exact confined_map (isolated_revokeInvitation i)
  | updateContact i phone shared => exact confined_map (isolated_updateContact i phone shared)
  | linkPersonToUser i userId => exact confined_map (isolated_linkPersonToUser i userId)
  | createGroup name kind => exact confined_map (isolated_createGroup name kind h)
  | assignPerson i j role => exact confined_map (isolated_assignPerson i j role hbound)
  | addItem input => exact confined_map (isolated_addItem input h hscoped)
  | updateItem i input => exact confined_map (isolated_updateItem i input)
  | removeItem i => exact confined_map (isolated_removeItem i hbound)
  | allocate i j value => exact confined_map (isolated_allocate i j value h)
  | upload maxBytes input => exact confined_map (isolated_upload maxBytes input h)
  | submitForExtraction i kind => exact confined_map (isolated_submit i kind h)

/-- The context is read from the rows of its event. -/
theorem isolated_asMember {ρ : Type} {actor : Actor} {e : ℕ} {p : OperationContext → LedgerProgram ρ}
    (h : ∀ event, event.eventId = e → Isolated e (p ⟨actor, event⟩) v) :
    Isolated e (asMember actor e p) v := by
  refine confined_bind <| confined_bind <| confined_query_bind (event_alone _ _) ?_
  cases v.events.get? e with
  | none => trivial
  | some event =>
    refine confined_query_bind (find?_home fun m _ hm => ?_) ?_
    · simp only [Bool.and_eq_true, beq_iff_eq] at hm
      exact hm.1.1
    · cases v.members.find? fun m =>
        m.eventId == e && m.userId == actor.userId && m.status == .active with
      | none => trivial
      | some m => exact h ⟨e, m.role, event.status⟩ rfl

theorem isolated_replied (r : Request) (hbound : Bound v) (h : DrawnHere ctx.event.eventId r.draw v)
    (hscoped : ServiceScoped v ctx.event.eventId r.call)
    (htoken : ∀ token, r.call = .acceptInvitation token → TokenHome v ctx.event.eventId token) :
    Isolated ctx.event.eventId (r.reply ctx) v := by
  unfold Request.reply
  split
  · exact confined_query_bind contributorAnswer_alone <|
      isolated_reply rfl hbound h trivial fun _ hcall => nomatch hcall
  · exact confined_query_bind seatAnswer_alone <|
      isolated_reply rfl hbound { h with } trivial fun _ hcall => nomatch hcall
  · exact isolated_reply r.onEvent hbound h hscoped htoken

/-- Neither what is drawn for the call nor what its caller names without a lookup is a row of another
event, and an accepted invitation is one to the event that the call counts to. -/
structure Apart (db : LedgerDb) (r : Request) : Prop where
  drawn : DrawnHere r.eventId r.draw db
  named : ServiceScoped db r.eventId r.call
  accepted : ∀ token, r.call = .acceptInvitation token → TokenHome db r.eventId token

theorem isolated_request (r : Request) (hbound : Bound v) (h : Apart v r) :
    Isolated r.eventId r.program v := by
  have hreplied (event : EventContext) (hevent : event.eventId = r.eventId) :
      Isolated r.eventId (r.reply ⟨r.actor, event⟩) v := by
    obtain ⟨hdrawn, hnamed, haccepted⟩ := h
    rw [← hevent] at hdrawn hnamed haccepted ⊢
    exact @isolated_replied ⟨r.actor, event⟩ v r hbound hdrawn hnamed haccepted
  unfold Request.program
  split
  · exact hreplied _ rfl
  · exact isolated_asMember hreplied

end confined

section kept
variable {I : LedgerDb → Prop} {v : LedgerDb} {ctx : OperationContext} {draw : ServiceDraw}

theorem wp_of_map {ρ τ : Type} (f : ρ → τ) {p : LedgerProgram ρ}
    (h : wp I (f <$> p) (fun _ => I) v) : wp I p (fun _ => I) v := by
  rw [map_eq_pure_bind] at h
  induction p generalizing v with
  | pure r => exact h
  | throw x => trivial
  | select q k ih => exact ih _ h
  | write l q w k ih => exact ih _ h
  | commit k ih => exact ⟨h.1, ih h.2⟩

theorem discard_reply (call : ServiceCall) :
    (fun _ => ()) <$> reply ctx draw call = call.program ctx draw := by
  cases call with
  | revokeInvitation i => exact (comp_map _ _ (revokeInvitation ctx i)).symm.trans (id_map _)
  | _ => exact (comp_map _ _ (_ : LedgerProgram _)).symm

def MessagesHome (db : LedgerDb) : Prop :=
  Linked db.smsMessages db.persons SmsMessage.eventId Person.eventId SmsMessage.personId

theorem keeps_messagesHome (e : ℕ) : Keeps e fun db db' => MessagesHome db → MessagesHome db' where
  refl _ h := h
  appendAudit _ _ h := h
  insertOutbox _ _ h := h
  insertPerson _ _ _ h := linked_insertNew_target h
  updatePerson _ _ _ hf hkeep h := linked_update_target h rfl fun q => ⟨hf q, hkeep q⟩
  insertPledge _ _ _ h := h
  updatePledge _ _ _ _ _ h := h
  movePledges _ _ _ h := h
  insertFulfillment _ _ _ h := h
  setFulfillmentValue _ _ _ h := h
  insertGroup _ _ _ h := h
  insertPersonGroup _ _ _ h := h
  insertBudget _ _ _ h := h
  insertBudgetItem _ _ _ h := h
  updateBudgetItem _ _ _ _ _ h := h
  insertAllocation _ _ _ h := h
  setEvents _ _ h := h
  setMembers _ _ h := h
  setInvitations _ _ h := h
  setFiles _ _ h := h
  setDocuments _ _ h := h

/-- The messages of a person that goes name nobody any more. -/
theorem messagesHome_deletePerson (e i : ℕ) (h : MessagesHome v) :
    MessagesHome (v.deletePerson e i) := by
  have hunnamed : Linked (v.deletePerson e i).smsMessages v.persons SmsMessage.eventId Person.eventId
      SmsMessage.personId := linked_update h rfl fun _ _ _ k hk => by cases hk
  refine linked_delete_target hunnamed fun m hm q _ hq => ?_
  obtain ⟨x, -, rfl⟩ := List.mem_map.mp hm
  split_ifs at hq with hnamed
  refine Bool.eq_false_iff.mpr fun hgone => hnamed ?_
  simp only [Bool.and_eq_true, beq_iff_eq] at hgone
  simp [hq, hgone.2]

theorem messagesHome_service (h : MessagesHome v) (call : ServiceCall) :
    wp MessagesHome (call.program ctx draw) (fun _ => MessagesHome) v := by
  refine wp_of_effects (fun _ _ hkept => hkept)
    (effects_program (keeps_messagesHome _) call draw ?_ fun _ _ _ hdb => hdb) h
  exact fun i _ _ _ hdb => messagesHome_deletePerson _ i hdb

/-- Whatever the plan answers, the call is one that names what the request names. -/
theorem wp_request {r : Request} (hv : I v)
    (h : ∀ ctx draw call, ctx.event.eventId = r.eventId →
      (ServiceScoped v r.eventId r.call → ServiceScoped v r.eventId call) →
      wp I (call.program ctx draw) (fun _ => I) v) :
    wp I r.program (fun _ => I) v := by
  have hcalls (ctx : OperationContext) (draw : ServiceDraw) (call : ServiceCall)
      (he : ctx.event.eventId = r.eventId)
      (hnamed : ServiceScoped v r.eventId r.call → ServiceScoped v r.eventId call) :
      wp I (reply ctx draw call) (fun _ => I) v := by
    refine wp_of_map (fun _ => ()) ?_
    rw [discard_reply]
    exact h ctx draw call he hnamed
  have hreplied (ctx : OperationContext) (he : ctx.event.eventId = r.eventId) :
      wp I (r.reply ctx) (fun _ => I) v := by
    unfold Request.reply
    split
    · exact wp_query_bind (hcalls _ _ _ he fun _ => trivial)
    · exact wp_query_bind (hcalls _ _ _ he fun _ => trivial)
    · exact hcalls _ _ _ he id
  unfold Request.program
  split
  · exact hreplied _ rfl
  · refine wp_bind <| wp_bind <| wp_query_bind ?_
    cases v.events.get? r.eventId with
    | none => trivial
    | some event =>
      refine wp_query_bind ?_
      cases v.members.find? fun m =>
        m.eventId == r.eventId && m.userId == r.actor.userId && m.status == .active with
      | none => trivial
      | some m => exact wp_commitNow_bind hv <| hreplied _ rfl

theorem bound_request {r : Request} (h : Bound v) (hscoped : ServiceScoped v r.eventId r.call) :
    Bound (Program.run r.program v).2 where
  closed := run_wp (fun _ _ h => h) (wp_request h.closed fun _ _ _ he hnamed =>
    closed_service h.closed (he ▸ hnamed hscoped)) h.closed
  messages := run_wp (I := MessagesHome) (fun _ _ h => h) (wp_request h.messages fun _ _ call _ _ =>
    messagesHome_service h.messages call) h.messages

end kept

theorem requests_unwind : Unwinds Request.program alone Request.eventId Bound Apart where
  confined _ r hbound hapart := isolated_request r hbound hapart
  keeps _ _ hbound hapart := bound_request hbound hapart.named

abbrev handled (db : LedgerDb) (requests : List Request) : LedgerDb :=
  after Request.program db requests

/-- Whatever the requests on other events, the rows of an event and the answers to its own requests
are those of a database without the other events. -/
theorem others_unnoticed (e : ℕ) {db : LedgerDb} (h : Bound db) (requests : List Request)
    (hapart : ∀ before r late, requests = before ++ r :: late → Apart (handled db before) r) :
    alone e (handled db requests) = handled (alone e db) (requests.filter fun r => r.eventId = e) ∧
      (answers Request.program db requests).filter (fun x => x.1.eventId = e) =
        answers Request.program (alone e db) (requests.filter fun r => r.eventId = e) :=
  unnoticed requests_unwind e h requests hapart

/-- Users 1 and 2, each with an event of their own. -/
def twoHosts : LedgerDb :=
  { LedgerDb.empty with
    users := (LedgerDb.empty.users.insertNew ⟨1, none⟩).insertNew ⟨2, none⟩
    events := (LedgerDb.empty.events.insertNew
      { id := 7, ownerUserId := 1, slug := "wedding", name := "Wedding", createdAt := 1 }).insertNew
      { id := 8, ownerUserId := 2, slug := "funeral", name := "Funeral", createdAt := 2 }
    members := (LedgerDb.empty.members.insertNew ⟨7, 1, .owner, .active, none⟩).insertNew
      ⟨8, 2, .owner, .active, none⟩ }

theorem bound_twoHosts : Bound twoHosts := ⟨{ closed_empty with }, linked_empty⟩

/-- The event of the first host has three seats, and that of the second one. -/
def asked (userId eventId : ℕ) (call : ServiceCall) (n : ℕ) (h : OnEvent call = true) : Request :=
  ⟨⟨userId, true⟩, eventId, call, drawOf n, TeamSeats.onStarter, TeamSeats.drawn, h⟩

/-- The calls come in turns. The second host comes in by a link of the first, has no seat to give, and
lets nobody into the event. -/
def inTurns : List Request :=
  [asked 2 8 (.addItem ⟨"Tents", 900, none, none⟩) 30 rfl,
    asked 1 7 (.ledger (.createPerson { allowed := true } ⟨"Achieng", none, false, none⟩)) 3 rfl,
    asked 2 8 (.ledger (.createPerson { allowed := true } ⟨"Okello", none, false, none⟩)) 4 rfl,
    asked 1 7 (.createInvitation { role := .viewer }) 11 rfl,
    asked 2 8 (.createInvitation { role := .viewer }) 12 rfl,
    asked 2 7 (.acceptInvitation "token-11") 13 rfl,
    asked 1 8 (.ledger (.mergePeople 4 4)) 6 rfl,
    asked 1 7 (.ledger (.createPledge ⟨3, 500, none, none, none, none, none, none, none⟩)) 5 rfl,
    asked 1 7 (.ledger (.recordFulfillment { pledgeId := 5, value := 200 })) 9 rfl]

instance {ι ρ : Type} [DecidableEq ι] {key : ρ → ι} (tenant : ρ → ℕ) (e : ℕ) (t : Table ι ρ key)
    (k : ι) : Decidable (HomeKey tenant e t k) :=
  inferInstanceAs (Decidable (∀ r ∈ t.rows, key r = k → tenant r = e))

instance (e : ℕ) (draw : ServiceDraw) (db : LedgerDb) : Decidable (DrawnHere e draw db) :=
  decidable_of_iff
    (HomeKey Person.eventId e db.persons draw.ledger.personId ∧
      HomeKey Pledge.eventId e db.pledges draw.ledger.pledgeId ∧
      HomeKey Fulfillment.eventId e db.fulfillments draw.ledger.fulfillmentId ∧
      HomeKey OutboxRow.eventId e db.outbox s!"fulfillment:{draw.ledger.fulfillmentId}" ∧
      HomeKey ContributorGroup.eventId e db.groups draw.event.rowId ∧
      HomeKey Budget.eventId e db.budgets draw.event.budgetId ∧
      HomeKey BudgetItem.eventId e db.budgetItems draw.event.rowId ∧
      HomeKey Allocation.eventId e db.allocations draw.event.rowId ∧
      HomeKey FileObject.eventId e db.files draw.event.rowId ∧
      HomeKey Document.eventId e db.documents draw.event.rowId ∧
      HomeKey OutboxRow.eventId e db.outbox s!"document:{draw.event.rowId}" ∧
      HomeKey Invitation.eventId e db.invitations draw.event.rowId ∧
      ∀ i ∈ db.invitations.rows, i.token = draw.event.token → i.eventId = e)
    ⟨fun ⟨h₁, h₂, h₃, h₄, h₅, h₆, h₇, h₈, h₉, h₁₀, h₁₁, h₁₂, h₁₃⟩ =>
        ⟨h₁, h₂, h₃, h₄, h₅, h₆, h₇, h₈, h₉, h₁₀, h₁₁, h₁₂, h₁₃⟩,
      fun h => ⟨h.person, h.pledge, h.fulfillment, h.payment, h.group, h.budget, h.budgetItem,
        h.allocation, h.file, h.document, h.upload, h.invitation, h.token⟩⟩

/-- No caller names a line or a document. -/
theorem named_inTurns {r : Request} (hr : r ∈ inTurns) (db : LedgerDb) :
    ServiceScoped db r.eventId r.call := by
  simp only [inTurns, List.mem_cons, List.not_mem_nil, or_false] at hr
  rcases hr with rfl | rfl | rfl | rfl | rfl | rfl | rfl | rfl | rfl
  · exact fun k hk => by cases hk
  · trivial
  · trivial
  · trivial
  · trivial
  · trivial
  · trivial
  · exact fun k hk => by cases hk
  · trivial

theorem link_inTurns {r : Request} (hr : r ∈ inTurns) {token : String}
    (hcall : r.call = .acceptInvitation token) : token = "token-11" ∧ r.eventId = 7 := by
  simp only [inTurns, asked, List.mem_cons, List.not_mem_nil, or_false] at hr
  rcases hr with rfl | rfl | rfl | rfl | rfl | rfl | rfl | rfl | rfl <;> cases hcall
  exact ⟨rfl, rfl⟩

theorem drawn_inTurns : ∀ n : Fin inTurns.length,
    DrawnHere (inTurns.get n).eventId (inTurns.get n).draw (handled twoHosts (inTurns.take n)) ∧
      ∀ i ∈ (handled twoHosts (inTurns.take n)).invitations.rows, i.token = "token-11" →
        i.eventId = 7 := by
  decide +kernel

theorem apart_inTurns (before : List Request) (r : Request) (late : List Request)
    (hsplit : inTurns = before ++ r :: late) : Apart (handled twoHosts before) r := by
  have hlen : before.length < inTurns.length := by simp [hsplit]
  have hget : inTurns.get ⟨before.length, hlen⟩ = r := by simp [hsplit]
  have htake : inTurns.take before.length = before := by simp [hsplit]
  have hmem : r ∈ inTurns := by simp [hsplit]
  have hdrawn := drawn_inTurns ⟨before.length, hlen⟩
  rw [hget, htake] at hdrawn
  refine ⟨hdrawn.1, named_inTurns hmem _, fun token hcall => ?_⟩
  obtain ⟨rfl, he⟩ := link_inTurns hmem hcall
  rw [he]
  exact hdrawn.2

/-- Without the event of the second host, the first one sees the same rows and the same answers. -/
theorem others_unnoticed_inTurns :
    alone 7 (handled twoHosts inTurns) =
        handled (alone 7 twoHosts) (inTurns.filter fun r => r.eventId = 7) ∧
      (answers Request.program twoHosts inTurns).filter (fun x => x.1.eventId = 7) =
        answers Request.program (alone 7 twoHosts) (inTurns.filter fun r => r.eventId = 7) :=
  others_unnoticed 7 bound_twoHosts inTurns apart_inTurns

end Akabbo.TenantIsolation
