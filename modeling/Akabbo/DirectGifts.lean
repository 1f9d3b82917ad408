import Akabbo.GiftSteps

/-!
# Gifts that are paid as they are pledged

A direct contribution writes its own pledge and the payment of it. The status is computed from
the two sums, and a sum of nothing counts as unpaid whatever was committed.
-/
namespace Akabbo.DirectGifts
open Access PledgeStatus RowTable StatementProgram WeakestPreconditions LedgerState
open LedgerWrites hiding Invocation
open LedgerSpecs ServiceSteps GiftSteps
open StatementProgram.Program (run)

/-- The payment that an earlier call recorded under the key. -/
def earlier (ctx : OperationContext) (input : RecordDirectContributionInput) (db : LedgerDb) :
    Option Fulfillment :=
  match input.idempotencyKey with
  | none => none
  | some key => if key = "" then none else db.findByKey ctx.event.eventId key

/-- The pledge is stored as fulfilled, and nothing is outstanding on it. -/
def Discharged (db : LedgerDb) (eventId pledgeId : ℕ) : Prop :=
  ∃ p, db.findPledge eventId pledgeId = some p ∧ p.status = .fulfilled ∧
    outstanding p.committedValue (db.sumFulfillments eventId pledgeId) = 0

/-- There is something to receive; a call that was made before finds its pledge discharged. -/
def Discharges (db : LedgerDb) (ctx : OperationContext) (input : RecordDirectContributionInput) :
    Prop :=
  match earlier ctx input db with
  | none => 0 < input.value
  | some f => Discharged db ctx.event.eventId f.pledgeId

theorem deriveStatus_self (value : ℕ) : deriveStatus value value = .fulfilled ↔ 0 < value := by
  unfold deriveStatus
  simp only [Bool.false_eq_true, ↓reduceIte, ge_iff_le, le_refl]
  split_ifs with h
  · exact ⟨fun he => absurd he (by decide), fun hpos => by omega⟩
  · exact ⟨fun _ => by omega, fun _ => rfl⟩

section steps
variable {I : LedgerDb → Prop} {v : LedgerDb} {ctx : OperationContext} {draw : Draw}
  {input : RecordDirectContributionInput}

theorem wp_findEarlier_bind {τ : Type} {f : Option FulfillmentView → LedgerProgram τ}
    {Q : τ → LedgerDb → Prop} (hnew : earlier ctx input v = none → wp I (f none) Q v)
    (hreplay : ∀ payment p view, earlier ctx input v = some payment →
      v.findPledge ctx.event.eventId payment.pledgeId = some p → view.pledgeId = payment.pledgeId →
      view.pledgeStatus = p.status → wp I (f (some view)) Q v) :
    wp I (findByIdempotencyKey ctx input.idempotencyKey >>= f) Q v := by
  refine wp_bind ?_
  unfold findByIdempotencyKey
  cases hkey : input.idempotencyKey with
  | none => exact hnew (by simp only [earlier, hkey])
  | some key =>
    have hearlier : key ≠ "" → earlier ctx input v = v.findByKey ctx.event.eventId key :=
      fun hne => by simp only [earlier, hkey, if_neg hne]
    dsimp only
    split_ifs with hne
    · exact hnew (by simp only [earlier, hkey, if_pos hne])
    · refine wp_query_bind ?_
      cases hfound : v.findByKey ctx.event.eventId key with
      | none => exact hnew ((hearlier hne).trans hfound)
      | some payment =>
        refine wp_query_bind <| wp_orThrow_bind fun p hp => wp_query_bind <| wp_pure ?_
        exact hreplay payment p _ ((hearlier hne).trans hfound) hp rfl rfl

theorem contributed_rows {i : Option ℕ} {j : ℕ} {v' : LedgerDb} (h : Contributed ctx v i j v') :
    v'.pledges = v.pledges ∧ v'.fulfillments = v.fulfillments := by
  cases h with
  | known q found => exact ⟨rfl, rfl⟩
  | added step =>
    cases step
    exact ⟨rfl, rfl⟩

/-- No payment is on a pledge that does not exist. -/
theorem sum_eq_zero (hrefs : References v) {e i : ℕ} (h : v.pledges.has i = false) :
    v.sumFulfillments e i = 0 := by
  refine sumWhere_eq_zero fun f hf hsel => ?_
  have hpledge := hrefs.payment f hf
  simp only [Bool.and_eq_true, beq_iff_eq] at hsel
  rw [hsel.2, h] at hpledge
  exact Bool.noConfusion hpledge

theorem sum_first_payment {f : Fulfillment} (hfresh : v.fulfillments.has f.id = false)
    (hnone : v.sumFulfillments f.eventId f.pledgeId = 0) :
    (v.insertFulfillment f).sumFulfillments f.eventId f.pledgeId = f.value := by
  have hrows : (v.insertFulfillment f).fulfillments.rows = v.fulfillments.rows ++ [f] :=
    Table.insertNew_rows hfresh
  unfold LedgerDb.sumFulfillments at hnone ⊢
  rw [hrows, sumWhere_append, hnone, sumWhere_cons]
  simp

/-- The new pledge and its payment, as the rows have them in the end. -/
theorem discharged_paidAtOnce {p : Pledge} {f : Fulfillment} {audit audit' : AuditEvent}
    {status : Status} (hpledge : v.pledges.has p.id = false)
    (hsum : (v.insertFulfillment f).sumFulfillments p.eventId p.id = p.committedValue) :
    Discharged (paidAtOnce p f status audit audit' v) p.eventId p.id ↔ status = .fulfilled := by
  have hmem : { p with status := status } ∈ (paidAtOnce p f status audit audit' v).pledges := by
    change _ ∈ ((v.pledges.insertNew p).update (fun q => q.eventId == p.eventId && q.id == p.id)
      (fun q => { q with status }) fun _ => rfl)
    rw [Table.mem_update]
    exact ⟨p, (Table.mem_insertNew hpledge).mpr (.inr rfl), by simp⟩
  have hfound := findPledge_of_mem hmem
  have hrows : (paidAtOnce p f status audit audit' v).fulfillments =
      (v.insertFulfillment f).fulfillments := rfl
  have hpaid : (paidAtOnce p f status audit audit' v).sumFulfillments p.eventId p.id =
      p.committedValue := by
    rw [← hsum]
    unfold LedgerDb.sumFulfillments
    rw [hrows]
  unfold Discharged
  rw [hfound, hpaid]
  constructor
  · rintro ⟨q, hq, hstatus, -⟩
    obtain rfl := Option.some.inj hq
    exact hstatus
  · intro hstatus
    exact ⟨_, rfl, hstatus, by simp [outstanding_eq]⟩

theorem wp_giveDirectly_discharges (hrefs : References v) :
    wp I (giveDirectly ctx input draw) (fun view v' =>
      Discharged v' ctx.event.eventId view.pledgeId ∧ view.pledgeStatus = .fulfilled ↔
        0 < input.value) v := by
  refine wp_bind <| wp_directContributor fun i v₁ hperson => ?_
  obtain ⟨hpledges, hpayments⟩ := contributed_rows hperson
  refine wp_accept_bind fun hlegal => wp_writeAudit_bind fun audit _ => wp_accept_bind fun hpaid =>
    wp_query_bind <| wp_updatePledge_bind fun _ _ => wp_writeAudit_bind fun audit' _ =>
    wp_accept_bind fun _ => wp_pure ?_
  have hfresh : v.pledges.has draw.pledgeId = false := by
    rw [← hpledges]
    exact pledgeViolation_fresh hlegal
  have hnone : v₁.sumFulfillments ctx.event.eventId draw.pledgeId = 0 := by
    unfold LedgerDb.sumFulfillments
    rw [hpayments]
    exact sum_eq_zero hrefs hfresh
  have hpayment : v₁.fulfillments.has draw.fulfillmentId = false := fulfillmentViolation_fresh hpaid
  have hsum : (v₁.insertFulfillment (directPayment ctx input draw)).sumFulfillments ctx.event.eventId
      draw.pledgeId = input.value := sum_first_payment hpayment hnone
  have hstatus : deriveStatus input.value ((v₁.insertFulfillment (directPayment ctx input draw))
      |>.sumFulfillments ctx.event.eventId draw.pledgeId) = .fulfilled ↔ 0 < input.value := by
    rw [hsum]
    exact deriveStatus_self input.value
  exact ⟨fun h => hstatus.mp h.2, fun h => ⟨(discharged_paidAtOnce (p := directPledge ctx input i draw)
    (f := directPayment ctx input draw) (hpledges ▸ hfresh) hsum).mpr (hstatus.mpr h), hstatus.mpr h⟩⟩

end steps

/-- What a direct contribution leaves is a pledge that is fulfilled, with nothing outstanding, exactly
when there was something to receive; under a key of before, when that pledge stands so already. -/
theorem gift_discharged_iff {ctx : OperationContext} {input : RecordDirectContributionInput}
    {draw : Draw} {db db' : LedgerDb} {view : FulfillmentView} (hrefs : References db)
    (h : run (recordDirectContribution ctx input draw) db = (.ok view, db')) :
    Discharged db' ctx.event.eventId view.pledgeId ∧ view.pledgeStatus = .fulfilled ↔
      Discharges db ctx input := by
  have hwp : wp (fun _ => True) (recordDirectContribution ctx input draw) (fun view v' =>
      Discharged v' ctx.event.eventId view.pledgeId ∧ view.pledgeStatus = .fulfilled ↔
        Discharges db ctx input) db := by
    refine wp_gates_bind fun _ _ => wp_refuse_bind fun _ => wp_findEarlier_bind ?_ ?_
    · intro hnone
      simp only [Discharges, hnone]
      exact wp_giveDirectly_discharges hrefs
    · intro payment p earlierView hfound hp hid hstatus
      refine wp_pure ?_
      simp only [Discharges, hfound, hid, hstatus]
      refine ⟨fun h => h.1, fun h => ⟨h, ?_⟩⟩
      obtain ⟨q, hq, hfulfilled, -⟩ := h
      rw [hp] at hq
      exact Option.some.inj hq ▸ hfulfilled
  exact wp_of_run hwp h

def organiser : OperationContext := ⟨⟨1, true⟩, ⟨7, .owner, .active⟩⟩

def peter : LedgerDb :=
  { LedgerDb.empty with
    persons := Table.empty.insertNew ⟨10, 7, "Peter", none, none, .humanTyped, some 1, 0⟩ }

def gift (type : PledgeType) (value : ℕ) : RecordDirectContributionInput :=
  { personId := some 10, value, type := some type }

theorem references_peter : References peter :=
  ⟨fun _ hp => absurd hp (Table.not_mem_empty _), fun _ hf => absurd hf (Table.not_mem_empty _)⟩

/-- A goat of no stated value stays pledged. -/
theorem gift_in_kind_stays_pledged :
    ¬ ∀ (ctx : OperationContext) (input : RecordDirectContributionInput) (draw : Draw)
      (db db' : LedgerDb) (view : FulfillmentView), References db →
      run (recordDirectContribution ctx input draw) db = (.ok view, db') →
      Discharged db' ctx.event.eventId view.pledgeId ∧ view.pledgeStatus = .fulfilled := by
  intro h
  have hstatus := (h organiser (gift .item 0) ⟨0, 20, 30, 5⟩ peter _ _ references_peter rfl).2
  exact absurd hstatus (by decide)

theorem gift_discharged_cash : ∃ view db',
    run (recordDirectContribution organiser (gift .cash 100) ⟨0, 20, 30, 5⟩) peter =
      (.ok view, db') ∧ Discharged db' 7 view.pledgeId := by
  have h : Discharges peter organiser (gift .cash 100) := Nat.succ_pos 99
  obtain ⟨view, db', hrun⟩ : ∃ view db', run (recordDirectContribution organiser (gift .cash 100)
      ⟨0, 20, 30, 5⟩) peter = (.ok view, db') := ⟨_, _, rfl⟩
  exact ⟨view, db', hrun, ((gift_discharged_iff references_peter hrun).mpr h).1⟩

end Akabbo.DirectGifts
