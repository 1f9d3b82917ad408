import Akabbo.ConfinedLedger
import Akabbo.TeamSeats

/-!
# The plan of an event among other events

The plan checks find the plan of an event by its owner and count its contributors, its members and
its open invitations. Their answers are the same where there is no other event.
-/
namespace Akabbo.EventPlans
open Access RowTable StatementProgram LedgerState TenantViews ConfinedLedger TeamSeats
open BillingState hiding Event EventMember Invitation MembershipStatus InvitationStatus Draw
open Entitlement hiding accountOf owner
open StatementProgram.Program (exec exec_bind)

/-- `check(scope, 'add_contributor')`. -/
def checkAddContributor (scope : Scope) (draw : BillingState.Draw) :
    BillingProgram EntitlementDecision := do
  let ent ← resolve scope draw
  match ent.maxContributors with
  | none => return { allowed := true }
  | some limit => do
    let current ← match scope.eventId with
      | some eventId => countContributors eventId
      | none => pure 0
    return Access.checkAddContributor ent.planCode.name (some limit) current

/-- The answer that adding a contributor gets on these rows. -/
def contributorAnswer (billing : BillingDb) (db : LedgerDb) (eventId : ℕ)
    (draw : BillingState.Draw) : EntitlementDecision :=
  let rows := entitlementRows billing db
  let ent := entitlement rows { eventId := some eventId } draw
  Access.checkAddContributor ent.planCode.name ent.maxContributors (contributors rows eventId)

theorem run_checkAddContributor (billing : BillingDb) (db : LedgerDb) (eventId : ℕ)
    (draw : BillingState.Draw) :
    (checkAddContributor { eventId := some eventId } draw).run (entitlementRows billing db) =
      (.ok (contributorAnswer billing db eventId draw), entitlementRows billing db) := by
  have hexec (c : BillingDb) : exec (checkAddContributor { eventId := some eventId } draw) c
      (entitlementRows billing db) =
        .ok (contributorAnswer billing db eventId draw, c, entitlementRows billing db) := by
    unfold checkAddContributor contributorAnswer
    rw [exec_bind, exec_resolve]
    dsimp only
    cases (entitlement (entitlementRows billing db) { eventId := some eventId } draw).maxContributors
    · rfl
    · rfl
  rw [Program.run, hexec]

section alone
variable {billing : BillingDb} {draw : BillingState.Draw} {e : ℕ} {db : LedgerDb}

theorem eventRow_rows : (entitlementRows billing db).events.get? e =
    (db.events.get? e).map fun event => ⟨event.id, event.ownerUserId⟩ :=
  List.find?_map ..

/-- The owner of the event pays for it, whoever owns others. -/
theorem owner_alone : Entitlement.owner (entitlementRows billing (alone e db)) e =
    Entitlement.owner (entitlementRows billing db) e := by
  unfold Entitlement.owner
  rw [eventRow_rows, eventRow_rows, event_alone]
  rfl

theorem grantInForce_alone (tie : ℕ) :
    grantInForce (entitlementRows billing (alone e db)) { eventId := some e } tie =
      grantInForce (entitlementRows billing db) { eventId := some e } tie := by
  unfold grantInForce resolvedAccount
  dsimp only
  rw [owner_alone]
  rfl

theorem contributors_alone : contributors (entitlementRows billing (alone e db)) e =
    contributors (entitlementRows billing db) e := by
  unfold contributors entitlementRows List.count
  rw [List.countP_map, List.countP_map]
  exact countP_tenant

theorem activeMembers_alone : activeMembers (entitlementRows billing (alone e db)) e =
    activeMembers (entitlementRows billing db) e := by
  rw [activeMembers_rows, activeMembers_rows]
  exact countP_own _

theorem pendingInvitations_alone (now : ℕ) :
    pendingInvitations (entitlementRows billing (alone e db)) e now =
      pendingInvitations (entitlementRows billing db) e now := by
  unfold pendingInvitations entitlementRows
  rw [List.countP_map, List.countP_map]
  simp only [Function.comp_def, Bool.and_assoc]
  exact countP_own _

theorem contributorAnswer_alone : contributorAnswer billing (alone e db) e draw =
    contributorAnswer billing db e draw := by
  unfold contributorAnswer entitlement resolvedFrom
  dsimp only
  rw [grantInForce_alone, contributors_alone]

theorem seatAnswer_alone : seatAnswer billing (alone e db) e draw = seatAnswer billing db e draw := by
  unfold seatAnswer entitlement resolvedFrom
  dsimp only
  rw [grantInForce_alone, activeMembers_alone, pendingInvitations_alone]

end alone

end Akabbo.EventPlans
