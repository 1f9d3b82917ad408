import Akabbo.LedgerReads
import Akabbo.LedgerRuns

/-!
# Totals and balances

An event's totals subtract every payment from the live commitments and floor the
result once; each balance floors its own difference. When the two agree.
-/
namespace Akabbo.LedgerTotals
open Access PledgeStatus RowTable StatementProgram LedgerState LedgerWrites LedgerReads
open LedgerEffects LedgerRuns StatementProgram.Program

section sums
variable (db : LedgerDb) (eventId : ℕ)

def isLiveIn (p : Pledge) : Bool := p.eventId == eventId && isLive p

def liveCommitted : ℕ := sumWhere db.pledges.rows (isLiveIn eventId) Pledge.committedValue

def liveReceived : ℕ := sumWhere db.pledges.rows (isLiveIn eventId) fun p => paid db p.id

def liveOutstanding : ℕ :=
  sumWhere db.pledges.rows (isLiveIn eventId) fun p => outstanding p.committedValue (paid db p.id)

/-- What came in on pledges that were cancelled. -/
def cancelledReceived : ℕ :=
  sumWhere db.pledges.rows (fun p => p.eventId == eventId && !isLive p) fun p => paid db p.id

end sums

/-- Every read of an event that shows totals shows those of its live pledges, and the
report's balances of people add up to the same outstanding amount. -/
structure TotalsAgree (db : LedgerDb) (eventId : ℕ) : Prop where
  totals : ∀ ctx t, ctx.event.eventId = eventId → ((getEventTotals ctx).run db).1 = .ok t →
    t.totalCommitted = moneyToString (liveCommitted db eventId) ∧
      t.totalFulfilled = moneyToString (liveReceived db eventId) ∧
      t.totalOutstanding = moneyToString (liveOutstanding db eventId)
  report : ∀ ctx topN t, ctx.event.eventId = eventId →
    ((getEventReport ctx topN).run db).1 = .ok t →
    t.totalCommitted = moneyToString (liveCommitted db eventId) ∧
      t.totalReceived = moneyToString (liveReceived db eventId) ∧
      t.totalOutstanding = moneyToString (liveOutstanding db eventId)
  page : ∀ link token event v, ((resolve link token).run db).1 = .ok event →
    event.id = eventId → ((getPublicEventView link token).run db).1 = .ok v →
    v.totalPledged = moneyToString (liveCommitted db eventId) ∧
      v.totalReceived = moneyToString (liveReceived db eventId) ∧
      ∀ s, v.totalOutstanding = some s → s = moneyToString (liveOutstanding db eventId)
  people : ((withBalances (personRows db eventId)).map PersonBalance.outstandingValue).sum =
    liveOutstanding db eventId

/-- No payment is left on a cancelled pledge, and the live pledges do not lie on both
sides of their commitments. -/
structure OneSided (db : LedgerDb) (eventId : ℕ) : Prop where
  cancelled : ∀ p ∈ db.pledges, p.eventId = eventId → p.status = .cancelled → paid db p.id = 0
  live : (∀ p ∈ db.pledges, p.eventId = eventId → p.status ≠ .cancelled →
      paid db p.id ≤ p.committedValue) ∨
    ∀ p ∈ db.pledges, p.eventId = eventId → p.status ≠ .cancelled →
      p.committedValue ≤ paid db p.id

section reads
variable {db : LedgerDb}

theorem getEventTotals_ok {ctx : OperationContext} {t : EventTotals} :
    ((getEventTotals ctx).run db).1 = .ok t ↔
      assertPermission ctx.event.role .ledgerReadAmounts = none ∧
      t = { totalCommitted := moneyToString (committedAgg db ctx.event.eventId)
            totalFulfilled := moneyToString (receivedAgg db ctx.event.eventId)
            totalOutstanding := moneyToString (outstanding (committedAgg db ctx.event.eventId)
              (receivedAgg db ctx.event.eventId))
            pledgeCount := pledgeCount db ctx.event.eventId } := by
  unfold getEventTotals
  simp only [run_eq_ok, exec_refuse_bind, exec_query_bind, exec_pure, Except.ok.injEq,
    Prod.mk.injEq]
  constructor
  · rintro ⟨_, _, hp, rfl, -, -⟩
    exact ⟨hp, rfl⟩
  · rintro ⟨hp, rfl⟩
    exact ⟨db, db, hp, rfl, rfl, rfl⟩

theorem getEventReport_ok {ctx : OperationContext} {topN : ℕ} {t : EventReport}
    (h : ((getEventReport ctx topN).run db).1 = .ok t) :
    t.totalCommitted = moneyToString (committedAgg db ctx.event.eventId) ∧
      t.totalReceived = moneyToString (receivedAgg db ctx.event.eventId) ∧
      t.totalOutstanding = moneyToString (outstanding (committedAgg db ctx.event.eventId)
        (receivedAgg db ctx.event.eventId)) := by
  obtain ⟨c, v, h⟩ := run_eq_ok.mp h
  unfold getEventReport at h
  simp only [exec_refuse_bind, exec_query_bind, exec_pure, Except.ok.injEq, Prod.mk.injEq] at h
  obtain ⟨-, rfl, -, -⟩ := h
  exact ⟨rfl, rfl, rfl⟩

theorem publicEventView_ok {event : Event} {c w : LedgerDb} {v : PublicEventView}
    (h : exec (publicEventView event) db db = .ok (v, c, w)) :
    v.totalPledged = moneyToString (committedAgg db event.id) ∧
      v.totalReceived = moneyToString (receivedAgg db event.id) ∧
      ∀ s, v.totalOutstanding = some s → s = moneyToString
        (outstanding (committedAgg db event.id) (receivedAgg db event.id)) := by
  unfold publicEventView at h
  simp only [exec_query_bind] at h
  -- the lists of the page come after its sums and change none of them
  obtain ⟨contributors, _, _, -, h⟩ := exec_bind_eq_ok.mp h
  obtain ⟨recentActivity, _, _, -, h⟩ := exec_bind_eq_ok.mp h
  obtain ⟨budget, _, _, -, h⟩ := exec_bind_eq_ok.mp h
  obtain ⟨announcements, _, _, -, h⟩ := exec_bind_eq_ok.mp h
  obtain ⟨paymentInstructions, _, _, -, h⟩ := exec_bind_eq_ok.mp h
  obtain ⟨rfl, -, -⟩ := exec_pure_eq_ok.mp h
  refine ⟨rfl, rfl, fun s hs => ?_⟩
  dsimp only at hs
  split_ifs at hs
  exact (Option.some.inj hs).symm

theorem exec_findPublicEvent {link : PublicLink} {r : Option Event} {c w : LedgerDb}
    (h : exec (findPublicEvent link) db db = .ok (r, c, w)) : db = c ∧ db = w := by
  cases link with
  | id i =>
    cases h
    exact ⟨rfl, rfl⟩
  | slug s =>
    simp only [findPublicEvent, exec_query_bind] at h
    split at h
    all_goals
      cases h
      exact ⟨rfl, rfl⟩

theorem exec_resolve {link : PublicLink} {token : Option String} {event : Event}
    {c w : LedgerDb} (h : exec (resolve link token) db db = .ok (event, c, w)) :
    db = c ∧ db = w := by
  unfold resolve at h
  obtain ⟨found, hfound, h⟩ := (exec_bind_of_reads fun _ _ _ => exec_findPublicEvent).mp h
  obtain ⟨_, -, h⟩ := exec_orThrow_bind.mp h
  obtain ⟨-, h⟩ := exec_refuse_bind.mp h
  obtain ⟨-, hc, hw⟩ := exec_pure_eq_ok.mp h
  exact ⟨hc, hw⟩

theorem getPublicEventView_ok {link : PublicLink} {token : Option String} {event : Event}
    {v : PublicEventView} (hr : ((resolve link token).run db).1 = .ok event)
    (h : ((getPublicEventView link token).run db).1 = .ok v) :
    v.totalPledged = moneyToString (committedAgg db event.id) ∧
      v.totalReceived = moneyToString (receivedAgg db event.id) ∧
      ∀ s, v.totalOutstanding = some s → s = moneyToString
        (outstanding (committedAgg db event.id) (receivedAgg db event.id)) := by
  obtain ⟨_, _, hr⟩ := run_eq_ok.mp hr
  obtain ⟨_, _, h⟩ := run_eq_ok.mp h
  unfold getPublicEventView at h
  obtain ⟨event', hr', h⟩ := (exec_bind_of_reads fun _ _ _ => exec_resolve).mp h
  obtain rfl : event' = event := by
    rw [hr] at hr'
    cases hr'
    rfl
  exact publicEventView_ok h

end reads

section sound
variable {db : LedgerDb} (hs : Sound db) (e : ℕ)
include hs

theorem sumFulfillments_of_mem {p : Pledge} (hp : p ∈ db.pledges) :
    db.sumFulfillments p.eventId p.id = paid db p.id :=
  sumFulfillments_eq_paid fun _ hf hi => owned_event hs (Table.get?_of_mem hp) hf hi

/-- A sum of payments joined to their pledges is a sum over the pledges. -/
theorem joinedReceived_eq {q : Pledge → Bool} (hq : ∀ p, q p = true → p.eventId = e) :
    sumWhere db.fulfillments.rows
        (fun f => f.eventId == e && db.pledges.rows.any fun p => decide (f.pledgeId = p.id) && q p)
        Fulfillment.value =
      sumWhere db.pledges.rows q fun p => paid db p.id := by
  rw [sumWhere_join db.pledges q]
  refine sumWhere_congr fun p hp => ⟨rfl, fun hqp => ?_⟩
  rw [← sumFulfillments_of_mem hs hp, hq p hqp]
  rfl

theorem receivedAgg_eq : receivedAgg db e = liveReceived db e + cancelledReceived db e := by
  have hall : receivedAgg db e =
      sumWhere db.pledges.rows (fun p => p.eventId == e) fun p => paid db p.id := by
    rw [← joinedReceived_eq hs e (q := fun p => p.eventId == e) fun p hp => by simpa using hp]
    refine sumWhere_congr fun f hf => ⟨?_, fun _ => rfl⟩
    -- a payment has a pledge in its own event
    obtain ⟨p, hp, hpi, hpe⟩ := hs.owned f hf
    by_cases hfe : f.eventId = e
    · have : (db.pledges.rows.any fun p => decide (f.pledgeId = p.id) && (p.eventId == e)) =
          true := List.any_eq_true.mpr ⟨p, hp, by simp [hpi, hpe, hfe]⟩
      simp [hfe, this]
    · simp [hfe]
  rw [hall, sumWhere_split _ _ isLive]
  rfl

theorem receivedFrom_eq (i : ℕ) : receivedFrom db e i =
    sumWhere db.pledges.rows (fun p => isLiveIn e p && decide (p.personId = i))
      fun p => paid db p.id := by
  rw [← joinedReceived_eq hs e (q := fun p => isLiveIn e p && decide (p.personId = i))
    fun p hp => by simp only [isLiveIn, Bool.and_eq_true, beq_iff_eq] at hp; exact hp.1.1]
  refine sumWhere_congr fun f _ => ⟨?_, fun _ => rfl⟩
  congr 2
  funext p
  rw [Bool.eq_iff_iff]
  simp only [isLiveIn, Bool.and_eq_true, beq_iff_eq, decide_eq_true_eq]
  tauto

/-- Summing over the people of an event reaches each of its pledges once. -/
theorem sum_people (value : Pledge → ℕ) :
    (((db.persons.rows.filter fun q => q.eventId == e).map fun q =>
      sumWhere db.pledges.rows (fun p => isLiveIn e p && decide (p.personId = q.id)) value).sum) =
      sumWhere db.pledges.rows (isLiveIn e) value := by
  have hjoin := sumWhere_join db.persons (fun q => q.eventId == e) db.pledges.rows (isLiveIn e)
    Pledge.personId value
  refine hjoin.symm.trans (sumWhere_congr fun p hp => ⟨?_, fun _ => rfl⟩)
  obtain ⟨q, hq, hqi, hqe⟩ := hs.placed p hp
  by_cases hlive : isLiveIn e p
  · have hpe : p.eventId = e := by simpa using (Bool.and_eq_true_iff.mp hlive).1
    have : (db.persons.rows.any fun q => decide (p.personId = q.id) && (q.eventId == e)) =
        true := List.any_eq_true.mpr ⟨q, hq, by simp [hqi, hqe, hpe]⟩
    simp [hlive, this]
  · simp [hlive]

theorem people_outstanding (h : OneSided db e) :
    ((withBalances (personRows db e)).map PersonBalance.outstandingValue).sum =
      liveOutstanding db e := by
  rw [liveOutstanding, ← sum_people hs e]
  simp only [withBalances, personRows, List.map_map]
  refine congrArg List.sum (List.map_congr_left fun q _ => ?_)
  have hcommitted : committedBy db e q.id = sumWhere db.pledges.rows
      (fun p => isLiveIn e p && decide (p.personId = q.id)) Pledge.committedValue := by
    refine sumWhere_congr fun p _ => ⟨?_, fun _ => rfl⟩
    rw [Bool.eq_iff_iff]
    simp only [isLiveIn, Bool.and_eq_true, beq_iff_eq, decide_eq_true_eq]
    tauto
  simp only [Function.comp_apply, hcommitted, receivedFrom_eq hs, outstanding_eq]
  have hlive {p : Pledge} (hp : (isLiveIn e p && decide (p.personId = q.id)) = true) :
      p.eventId = e ∧ p.status ≠ .cancelled := by
    simp only [isLiveIn, isLive, Bool.and_eq_true, beq_iff_eq, bne_iff_ne] at hp
    exact hp.1
  refine (sumWhere_sub_iff _ _).mpr (h.live.imp (fun h p hp hq => ?_) fun h p hp hq => ?_)
  · exact h p hp (hlive hq).1 (hlive hq).2
  · exact h p hp (hlive hq).1 (hlive hq).2

/-- The aggregates say what the live pledges say exactly on one-sided ledgers. -/
theorem oneSided_iff :
    OneSided db e ↔ receivedAgg db e = liveReceived db e ∧
      outstanding (committedAgg db e) (receivedAgg db e) = liveOutstanding db e := by
  have hcancelled : cancelledReceived db e = 0 ↔
      ∀ p ∈ db.pledges, p.eventId = e → p.status = .cancelled → paid db p.id = 0 := by
    rw [cancelledReceived, sumWhere_eq_zero_iff]
    simp only [isLive, Bool.and_eq_true, beq_iff_eq, Bool.not_eq_true', bne_eq_false_iff_eq,
      and_imp]
    rfl
  have hlive := @sumWhere_sub_iff _ db.pledges.rows (isLiveIn e)
    Pledge.committedValue fun p => paid db p.id
  simp only [isLiveIn, isLive, Bool.and_eq_true, beq_iff_eq, bne_iff_ne, and_imp] at hlive
  have hsum := receivedAgg_eq hs e
  have hone : OneSided db e ↔ cancelledReceived db e = 0 ∧
      liveCommitted db e - liveReceived db e = liveOutstanding db e := by
    simp only [liveOutstanding, outstanding_eq]
    exact ⟨fun h => ⟨hcancelled.mpr h.cancelled, hlive.mpr h.live⟩,
      fun h => ⟨hcancelled.mp h.1, hlive.mp h.2⟩⟩
  rw [hone, outstanding_eq]
  have hcommitted : committedAgg db e = liveCommitted db e := rfl
  rw [hcommitted]
  constructor
  · rintro ⟨hc, hl⟩
    have hr : receivedAgg db e = liveReceived db e := by omega
    exact ⟨hr, hr ▸ hl⟩
  · rintro ⟨hr, ho⟩
    exact ⟨by omega, hr ▸ ho⟩

end sound

/-- In any state a run reaches, the totals agree with the balances exactly when no payment
is left on a cancelled pledge and no live pledge is overpaid beside one still owed. -/
theorem totals_agree_iff (db : LedgerDb) (calls : List Invocation) (e : ℕ) :
    TotalsAgree (ledgerRun (unpledged db) calls) e ↔
      OneSided (ledgerRun (unpledged db) calls) e := by
  have hs := sound_ledgerRun (sound_unpledged db) calls
  constructor
  · intro h
    -- an owner may always read the totals
    obtain ⟨-, hr, ho⟩ := h.totals ⟨⟨1, true⟩, ⟨e, .owner, .active⟩⟩ _ rfl
      (getEventTotals_ok.mpr ⟨rfl, rfl⟩)
    exact (oneSided_iff hs e).mpr ⟨moneyToString_inj.mp hr, moneyToString_inj.mp ho⟩
  · intro h
    obtain ⟨hr, ho⟩ := (oneSided_iff hs e).mp h
    refine ⟨fun ctx t he ht => ?_, fun ctx topN t he ht => ?_, fun link token event v hev he hv => ?_,
      people_outstanding hs e h⟩
    · obtain ⟨-, rfl⟩ := getEventTotals_ok.mp ht
      subst he
      exact ⟨rfl, congrArg moneyToString hr, congrArg moneyToString ho⟩
    · obtain ⟨htc, htr, hto⟩ := getEventReport_ok ht
      subst he
      exact ⟨htc, htr.trans (congrArg moneyToString hr), hto.trans (congrArg moneyToString ho)⟩
    · obtain ⟨hvc, hvr, hvo⟩ := getPublicEventView_ok hev hv
      subst he
      exact ⟨hvc, hvr.trans (congrArg moneyToString hr),
        fun s hs => (hvo s hs).trans (congrArg moneyToString ho)⟩

/-- John pledges 100 twice, pays 40 on the first pledge and cancels it. -/
def cancelledRun : List Invocation :=
  [⟨owner, ⟨10, 0, 0, 0⟩, .createPerson { allowed := true } { displayName := "John" }, false⟩,
    ⟨owner, ⟨0, 20, 0, 1⟩, .createPledge { personId := 10, committedValue := 100 }, false⟩,
    ⟨owner, ⟨0, 0, 30, 2⟩, .recordFulfillment { pledgeId := 20, value := 40 }, false⟩,
    ⟨owner, ⟨0, 0, 0, 3⟩, .cancelPledge 20, false⟩,
    ⟨owner, ⟨0, 21, 0, 4⟩, .createPledge { personId := 10, committedValue := 100 }, false⟩]

/-- The payment on the cancelled pledge is taken off what the other one owes. -/
theorem totals_count_cancelled_payments :
    ¬ ∀ (db : LedgerDb) (calls : List Invocation) (e : ℕ),
      TotalsAgree (ledgerRun (unpledged db) calls) e := by
  intro h
  obtain ⟨-, -, ho⟩ := (h .empty cancelledRun 7).totals owner _ rfl
    (getEventTotals_ok.mpr ⟨by decide, rfl⟩)
  have hreads : outstanding (committedAgg (ledgerRun (unpledged .empty) cancelledRun) 7)
      (receivedAgg (ledgerRun (unpledged .empty) cancelledRun) 7) = 60 := by decide
  have hlive : liveOutstanding (ledgerRun (unpledged .empty) cancelledRun) 7 = 100 := by decide
  have heq := moneyToString_inj.mp ho
  rw [hlive] at heq
  exact absurd (hreads.symm.trans heq) (by decide)

end Akabbo.LedgerTotals
