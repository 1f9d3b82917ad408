import Akabbo.BillingRuns
import Akabbo.SmsCampaigns
import Akabbo.TwoConnections

/-!
# Campaigns paid from the credit ledger

The ledger's rows beside the rows of billing. A campaign is one transaction on the first, and
the credit of each message is reserved in the midst of it on the second.
-/
namespace Akabbo.PaidCampaigns
open Access RowTable StatementProgram ProgramParts LedgerState EventWrites SmsCampaigns
open BillingState Entitlement BillingWrites BillingRuns TwoConnections
open StatementProgram.Program (query exec CommitFree Writes writes_query writes_bind writes_modify
  commitFree_of_writes)

inductive RowsLock
  | ledger (lock : RowLock)
  | billing (lock : BillingLock)

abbrev Rows := Connections LedgerDb BillingDb

abbrev RowsProgram := Program RowsLock Rows Refusal

def scopeOf (eventId : ℕ) : Scope := { eventId := some eventId }

/-- A call on the ledger that is one transaction. -/
def onLedger {ρ : Type} (p : LedgerProgram ρ) : RowsProgram ρ :=
  transaction (openPart.run .ledger p)

def credits (draw : BillingState.Draw) : Credits RowsLock Rows where
  reserve eventId key :=
    Reservation.ok <$> onOwn .billing (BillingWrites.reserve (scopeOf eventId) 1 key draw)
  commit eventId key := onOwn .billing (BillingWrites.commit (scopeOf eventId) key)
  refund eventId key := onOwn .billing (BillingWrites.refund (scopeOf eventId) 1 key)

def sendReminders (ctx : OperationContext) (body : String) (personIds : List ℕ)
    (campaign : CampaignDraw) (draw : BillingState.Draw) : RowsProgram SendResult :=
  transaction
    (SmsCampaigns.sendReminders openPart .ledger (credits draw) ctx body personIds campaign)

def sendAnnouncement (ctx : OperationContext) (body : String) (personIds : List ℕ)
    (campaign : CampaignDraw) (draw : BillingState.Draw) : RowsProgram SendResult :=
  transaction
    (SmsCampaigns.sendAnnouncement openPart .ledger (credits draw) ctx body personIds campaign)

/-- The SMS credits that an event can draw on. -/
def smsBalance (s : Rows) (eventId : ℕ) : ℤ := scopeBalance s.apart .sms (scopeOf eventId)

section reserving
variable {R : BillingDb → BillingDb → Prop}

theorem writes_owningAccountId (eventId : ℕ) : Writes False R (owningAccountId eventId) :=
  writes_bind (writes_query _) fun event => by
    cases event with
    | none => trivial
    | some event => exact writes_query _

theorem writes_ledgerBalance (l : Ledger) (scope : Scope) (accountId : Option ℕ) :
    Writes False R (ledgerBalance l scope accountId) := by
  unfold ledgerBalance
  split_ifs
  · trivial
  · exact writes_query _

theorem writes_resolve (eventId : ℕ) (draw : BillingState.Draw) :
    Writes False R (resolve (scopeOf eventId) draw) :=
  writes_bind (writes_owningAccountId eventId) fun _ => writes_bind (writes_query _) fun _ =>
    writes_bind (writes_ledgerBalance _ _ _) fun _ =>
    writes_bind (writes_ledgerBalance _ _ _) fun _ => writes_bind (writes_query _) fun _ =>
    writes_bind (writes_bind (writes_query _) fun _ =>
      writes_bind (writes_query _) fun _ => trivial) fun _ => trivial

theorem commitFree_reserve (eventId : ℕ) (key : String) (draw : BillingState.Draw) :
    CommitFree (BillingWrites.reserve (scopeOf eventId) 1 key draw) := by
  refine commitFree_of_writes (R := fun _ _ => True) (writes_bind (writes_resolve _ _) fun ent => ?_)
  dsimp only
  split_ifs
  · trivial
  · exact writes_bind (writes_bind (writes_owningAccountId eventId) fun _ =>
      writes_modify _ fun _ => trivial) fun _ => trivial

end reserving

section broke
variable {J : Rows → Prop} {s : Rows} {Q : Bool → Rows → Prop}

/-- Without a credit left, none is reserved. -/
theorem ensures_reserve_broke {e : ℕ} {key : String} {draw : BillingState.Draw} (hJ : J s)
    (hbroke : smsBalance s e < 1) (h : Q false s) : ensures J ((credits draw).reserve e key) Q s := by
  have hexec : exec (BillingWrites.reserve (scopeOf e) 1 key draw) s.apart s.apart =
      .ok (⟨false, smsBalance s e⟩, s.apart, s.apart) := by
    rw [BillingWrites.reserve, exec_reserveFrom]
    exact if_pos hbroke
  change ensures J (_ <$> onOwn _ _) Q s
  rw [map_eq_pure_bind]
  exact ensures_bind <| ensures_onOwn <|
    ensures_of_exec (commitFree_reserve e key draw) hexec ⟨hJ, h⟩

end broke
end Akabbo.PaidCampaigns
