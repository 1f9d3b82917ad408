import Akabbo.CallRuns
import Akabbo.Entitlement
import Akabbo.EventOwners

/-!
# The seats of a team

The plan of an event names how many members may be ACTIVE. It is asked when an invitation is
made, and by none of the calls that seat somebody.
-/
namespace Akabbo.TeamSeats
open Access RowTable StatementProgram LedgerState EventWrites TeamCalls CallRuns
open BillingState hiding Event EventMember Invitation MembershipStatus InvitationStatus Draw
open Entitlement hiding accountOf owner
open StatementProgram.Program (query exec exec_bind)

def seatDecision (planCode : String) (maxSeats used : ℕ) : EntitlementDecision :=
  if used > maxSeats then
    { allowed := false
      reason := some "seat_limit"
      message := some (s!"Your {planCode} plan includes {maxSeats} team seat" ++
        (if maxSeats = 1 then "" else "s") ++ ". Upgrade to add more people to the team.") }
  else { allowed := true }

/-- `check(scope, 'add_member', quantity)`. -/
def checkAddMember (scope : Scope) (draw : BillingState.Draw) (quantity : ℕ) :
    BillingProgram EntitlementDecision := do
  let ent ← resolve scope draw
  match ent.maxSeats with
  | none => return { allowed := true }
  | some maxSeats => do
    let used ← match scope.eventId with
      | some eventId => countSeats eventId draw.now
      | none => pure 0
    return seatDecision ent.planCode.name maxSeats (used + quantity)

/-- The rows that the plan checks read: those of billing, and what they see of the event's. -/
def entitlementRows (billing : BillingDb) (db : LedgerDb) : BillingDb :=
  { billing with
    events := ⟨db.events.rows.map fun e => ⟨e.id, e.ownerUserId⟩, by
      simpa [Function.comp_def] using db.events.nodup⟩
    members := db.members.rows.map fun m => ⟨m.eventId, match m.status with
      | .invited => .invited
      | .active => .active
      | .removed => .removed⟩
    invitations := db.invitations.rows.map fun i => ⟨i.eventId, match i.status with
      | .pending => .pending
      | .accepted => .accepted
      | .expired => .expired
      | .revoked => .revoked, i.expiresAt⟩
    persons := db.persons.rows.map Person.eventId }

/-- The answer that making an invitation gets on these rows. -/
def seatAnswer (billing : BillingDb) (db : LedgerDb) (eventId : ℕ) (draw : BillingState.Draw) :
    EntitlementDecision :=
  let rows := entitlementRows billing db
  let ent := entitlement rows { eventId := some eventId } draw
  match ent.maxSeats with
  | none => { allowed := true }
  | some maxSeats => seatDecision ent.planCode.name maxSeats
      (activeMembers rows eventId + pendingInvitations rows eventId draw.now + 1)

/-- The check reads these rows, and leaves them. -/
theorem run_checkAddMember (billing : BillingDb) (db : LedgerDb) (eventId : ℕ)
    (draw : BillingState.Draw) :
    (checkAddMember { eventId := some eventId } draw 1).run (entitlementRows billing db) =
      (.ok (seatAnswer billing db eventId draw), entitlementRows billing db) := by
  have hexec (c : BillingDb) : exec (checkAddMember { eventId := some eventId } draw 1) c
      (entitlementRows billing db) =
        .ok (seatAnswer billing db eventId draw, c, entitlementRows billing db) := by
    unfold checkAddMember seatAnswer
    rw [exec_bind, exec_resolve]
    dsimp only
    cases (entitlement (entitlementRows billing db) { eventId := some eventId } draw).maxSeats <;> rfl
  rw [Program.run, hexec]

/-- The seats of the event, as resolving its plan finds them; `none` is no cap. -/
def maxSeats (billing : BillingDb) (draw : BillingState.Draw) (e : ℕ) (db : LedgerDb) : Option ℕ :=
  (entitlement (entitlementRows billing db) { eventId := some e } draw).maxSeats

/-- The ACTIVE members are no more than the seats. -/
def WithinSeats (billing : BillingDb) (draw : BillingState.Draw) (e : ℕ) (db : LedgerDb) : Prop :=
  ∀ max, maxSeats billing draw e db = some max → activeMembers (entitlementRows billing db) e ≤ max

/-- A call, and what its plan check draws. -/
structure SeatCall where
  call : TeamCall
  draw : BillingState.Draw

/-- The call with the answer that its check gets in this state. -/
def SeatCall.answered (billing : BillingDb) (db : LedgerDb) (c : SeatCall) : TeamCall :=
  match c.call with
  | .createInvitation ctx input draw => .createInvitation ctx input { draw with
      now := c.draw.now
      seat := seatAnswer billing db ctx.event.eventId c.draw }
  | call => call

def seatStep (billing : BillingDb) (rules : TextRules) (db : LedgerDb) (c : SeatCall) : LedgerDb :=
  step rules db (c.answered billing db)

/-- Where the call goes through for somebody who is not yet in, a seat is free. -/
def FindsSeat (billing : BillingDb) (draw : BillingState.Draw) (rules : TextRules) (e : ℕ)
    (db : LedgerDb) (c : SeatCall) : Prop :=
  ∀ u role max, c.call.appointment rules db = some (e, u, role) → standing db e u = none →
    maxSeats billing draw e db = some max → activeMembers (entitlementRows billing db) e < max

section steps
variable {billing : BillingDb} {draw : BillingState.Draw} {rules : TextRules} {e : ℕ}
  {db v : LedgerDb} {c : SeatCall}

theorem appointment_answered : (c.answered billing db).appointment rules db =
    c.call.appointment rules db := by
  unfold SeatCall.answered
  cases c.call <;> rfl

/-- Whether a member is ACTIVE in the event. -/
def activeIn (e : ℕ) (m : LedgerState.EventMember) : Bool := m.eventId == e && m.status == .active

theorem activeMembers_rows : activeMembers (entitlementRows billing db) e =
    db.members.rows.countP (activeIn e) := by
  unfold activeMembers entitlementRows
  rw [List.countP_map]
  refine List.countP_congr fun m _ => ?_
  cases hstatus : m.status <;> simp [activeIn, hstatus]

/-- The seats depend on the plan, and on whose the event is. -/
theorem maxSeats_congr (h : v.events = db.events) :
    maxSeats billing draw e v = maxSeats billing draw e db := by
  have hgrant : grantInForce (entitlementRows billing v) { eventId := some e } draw.tie =
      grantInForce (entitlementRows billing db) { eventId := some e } draw.tie := by
    unfold entitlementRows
    simp only [h]
    rfl
  unfold maxSeats entitlement resolvedFrom
  dsimp only
  rw [hgrant]

/-- Every plan has a seat for whoever made the event. -/
theorem withinSeats_of_alone (h : activeMembers (entitlementRows billing db) e ≤ 1) :
    WithinSeats billing draw e db := by
  intro max hmax
  have hseats : ∀ code, (PlanCatalog.seatsFromFeatures (PlanCatalog.planCatalog code).features).all
      (1 ≤ ·) = true := by
    intro code
    cases code <;> decide
  have hone := hseats (effectivePlan (grantInForce (entitlementRows billing db)
    { eventId := some e } draw.tie))
  change PlanCatalog.seatsFromFeatures _ = some max at hmax
  rw [hmax] at hone
  have hone : 1 ≤ max := by simpa using hone
  omega

/-- The row of a user is ACTIVE in an event where the user stands in it. -/
theorem activeIn_row {e' u : ℕ} {m : LedgerState.EventMember}
    (h : db.members.get? (e', u) = some m) :
    activeIn e m = true ↔ e' = e ∧ standing db e u ≠ none := by
  have hevent : m.eventId = e' := congrArg Prod.fst (Table.get?_key h)
  constructor
  · intro hactive
    obtain ⟨hin, hstatus⟩ := Bool.and_eq_true_iff.mp hactive
    have he : e' = e := hevent.symm.trans (by simpa using hin)
    subst he
    have hstatus : m.status = .active := by simpa using hstatus
    exact ⟨rfl, by simp [standing, h, Option.filter, hstatus]⟩
  · rintro ⟨rfl, hstands⟩
    have hstatus : m.status = .active := by
      by_contra hnot
      exact hstands (by simp [standing, h, Option.filter, hnot])
    simp [activeIn, hevent, hstatus]

/-- An appointment takes a seat where the appointed had none. -/
theorem activeMembers_appointed {e' u : ℕ} {role : EventRole} (h : Appointed db v e' u role) :
    activeMembers (entitlementRows billing v) e = activeMembers (entitlementRows billing db) e +
      if e' = e ∧ standing db e u = none then 1 else 0 := by
  obtain ⟨member, update, hu, hmembers, hkey, ⟨-, hactive⟩, hupdate⟩ := h.seat
  have hseated : ∀ m : LedgerState.EventMember, m.key = (e', u) → m.status = .active →
      (activeIn e m = true ↔ e' = e) := by
    intro m hm hstatus
    have hevent : m.eventId = e' := congrArg Prod.fst hm
    simp [activeIn, hevent, hstatus]
  rw [activeMembers_rows, activeMembers_rows, hmembers]
  unfold upserted
  cases hhas : db.members.has member.key with
  | true =>
    obtain ⟨m, hm, hmkey⟩ := Table.has_iff.mp hhas
    have hrow := activeIn_row (e := e) (Table.get?_eq_some.mpr ⟨hm, hmkey.trans hkey⟩)
    have hnew := hseated (update m) ((hu m).trans (hmkey.trans hkey)) (hupdate m).2
    have hcount := Table.countP_update_key hm (activeIn e) hu
    rw [if_pos rfl, ← hmkey]
    simp only [hrow, hnew] at hcount
    by_cases he : e' = e
    · by_cases hfree : standing db e u = none
      · simpa [he, hfree] using hcount
      · simpa [he, hfree] using hcount
    · simpa [he] using hcount
  | false =>
    have hfree : db.members.get? (e', u) = none := Table.get?_eq_none.mpr (hkey ▸ hhas)
    have hnew := hseated member hkey hactive
    rw [if_neg Bool.false_ne_true, Table.insertNew_rows hhas, List.countP_append,
      List.countP_singleton]
    by_cases he : e' = e
    · subst he
      have hnone : standing db e' u = none := by simp [standing, hfree]
      rw [if_pos (hnew.mpr rfl), if_pos ⟨rfl, hnone⟩]
    · rw [if_neg fun hin => he (hnew.mp hin), if_neg fun hin => he hin.1]

/-- What one call must meet, for the members to stay within the seats. -/
theorem findsSeat_iff (h : WithinSeats billing draw e db) :
    FindsSeat billing draw rules e db c ↔
      True ∧ WithinSeats billing draw e (seatStep billing rules db c) := by
  rw [and_iff_right trivial]
  unfold FindsSeat WithinSeats seatStep
  rw [← appointment_answered]
  have hdid := did_step rules db (c.answered billing db)
  cases happoint : (c.answered billing db).appointment rules db with
  | none =>
    rw [happoint] at hdid
    refine iff_of_true (fun u role max hsome => nomatch hsome) fun max hmax => ?_
    rw [maxSeats_congr hdid.2] at hmax
    rw [activeMembers_rows, hdid.1, ← activeMembers_rows]
    exact h max hmax
  | some a =>
    obtain ⟨e', u, role⟩ := a
    rw [happoint] at hdid
    rw [activeMembers_appointed hdid, maxSeats_congr hdid.events]
    constructor
    · intro hfinds max hmax
      split_ifs with hseat
      · obtain ⟨rfl, hfree⟩ := hseat
        exact hfinds u role max rfl hfree hmax
      · exact h max hmax
    · intro hwithin u' role' max hsome hfree hmax
      cases hsome
      have := hwithin max hmax
      rw [if_pos ⟨rfl, hfree⟩] at this
      exact this

end steps

def drawn : BillingState.Draw := ⟨0, 0, 0, 0, "", 10, 0⟩

/-- No grant at all, which is the free plan of one seat. -/
def onFree : BillingDb := .empty

/-- A starter pack of three seats. -/
def onStarter : BillingDb := onFree.insertGrant ⟨1, .starter, some 7, none, .active, 1, none⟩

def alone : LedgerDb :=
  { LedgerDb.empty with
    events := LedgerDb.empty.events.insertNew
      { id := 7, ownerUserId := 1, slug := "wedding", name := "Wedding", createdAt := 1 }
    users := ⟨[⟨1, none⟩, ⟨2, none⟩, ⟨3, none⟩, ⟨4, none⟩], by decide⟩
    members := LedgerDb.empty.members.insertNew ⟨7, 1, .owner, .active, none⟩ }

def ownerOf : OperationContext := ⟨⟨1, true⟩, ⟨7, .owner, .active⟩⟩

/-- The owner adds a member by hand. -/
def addedByHand : List SeatCall := [⟨.addMember ownerOf 2 .viewer, drawn⟩]

/-- One link, on which three people come. -/
def sharedLink : List SeatCall :=
  ⟨.createInvitation ownerOf { role := .viewer, maxUses := some 3 }
      ⟨10, 40, 0, "link", { allowed := true }, none⟩, drawn⟩ ::
    [2, 3, 4].map fun u => ⟨.acceptInvitation ⟨u, true⟩ "link" 20, drawn⟩

/-- The ACTIVE members stay within the seats of the plan throughout a run exactly when every
call that seats somebody finds a seat free. -/
theorem within_seats_iff (billing : BillingDb) (draw : BillingState.Draw) (rules : TextRules)
    (e : ℕ) (db : LedgerDb) (calls : List SeatCall) (h : WithinSeats billing draw e db) :
    throughout (seatStep billing rules) (WithinSeats billing draw e) (fun _ _ => True) db calls ↔
      everyCall (seatStep billing rules) (FindsSeat billing draw rules e) db calls :=
  throughout_iff (s := db) (fun _ _ hs => findsSeat_iff hs) h

set_option maxRecDepth 4000 in
/-- A member is added without a look at the seats, and an invitation takes one however many it
lets in. -/
theorem seats_overrun :
    (maxSeats onFree drawn 7 alone = some 1 ∧ maxSeats onStarter drawn 7 alone = some 3) ∧
      ¬ throughout (seatStep onFree EventOwners.plainTexts) (WithinSeats onFree drawn 7)
        (fun _ _ => True) alone addedByHand ∧
      ¬ throughout (seatStep onStarter EventOwners.plainTexts) (WithinSeats onStarter drawn 7)
        (fun _ _ => True) alone sharedLink := by
  refine ⟨by decide, fun h => ?_, fun h => ?_⟩
  · exact absurd (h.2.2 1 (by decide)) (by decide)
  · exact absurd (h.2.2.2.2.2.2.2.2 3 (by decide)) (by decide)

set_option maxRecDepth 4000 in
theorem within_seats_iff_invited :
    throughout (seatStep onStarter EventOwners.plainTexts) (WithinSeats onStarter drawn 7)
      (fun _ _ => True) alone (sharedLink.take 3) := by
  refine (within_seats_iff onStarter drawn EventOwners.plainTexts 7 alone _
    (withinSeats_of_alone (by decide))).mpr ⟨?_, ?_, ?_, trivial⟩
  · exact fun u role max happoint => nomatch happoint
  · intro u role max _ _ hmax
    have hthree : some 3 = some max := hmax
    cases hthree
    decide
  · intro u role max _ _ hmax
    have hthree : some 3 = some max := hmax
    cases hthree
    decide

end Akabbo.TeamSeats
