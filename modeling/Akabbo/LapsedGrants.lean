import Akabbo.BillingWrites

/-!
# Grants whose period is over

A paid subscription is stored with the end of its thirty days. What the two readers of grants find
at a time is compared with what they find once grants that ended before it are deleted.
-/
namespace Akabbo.LapsedGrants
open Access PlanCatalog RowTable StatementProgram BillingState Entitlement BillingWrites
open StatementProgram.Program (query)

/-- Grants in force of a subscription, for any of the user's accounts. -/
def subscriptions (db : BillingDb) (userId : ℕ) : List EntitlementGrant :=
  db.grants.rows.filter fun g => inForce g && (planCatalog g.planId).isSubscription &&
    g.accountId.any fun a => (db.accounts.get? a).any fun account => account.ownerUserId == userId

/-- `none` is no ceiling. -/
def ceilingOf : Option PlanCode → Option ℕ
  | none => some 1
  | some code => if code = .business then none else some 5

def maxActiveEvents (userId : ℕ) (draw : Draw) : BillingProgram (Option ℕ) := do
  let grant ← query fun db => takeDearest draw.tie (subscriptions db userId)
  return ceilingOf (grant.map EntitlementGrant.planId)

/-- The plans that may come first, over every order of equally priced rows. -/
def firstPlans (grants : List EntitlementGrant) : Set (Option PlanCode) :=
  {p | ∃ tie, (takeDearest tie grants).map EntitlementGrant.planId = p}

section first
variable {grants : List EntitlementGrant} {keep : EntitlementGrant → Bool} {β : Type}
  {f : Option PlanCode → β}

theorem firstPlans_nil : firstPlans [] = {none} := by
  ext p
  simp [firstPlans, takeDearest, dearest, eq_comm]

theorem mem_firstPlans {p : Option PlanCode} (h : grants ≠ []) :
    p ∈ firstPlans grants ↔ ∃ g ∈ dearest grants, some g.planId = p := by
  constructor
  · rintro ⟨tie, rfl⟩
    cases hg : takeDearest tie grants with
    | none => exact absurd (takeDearest_eq_none.mp hg) h
    | some g => exact ⟨g, takeDearest_mem hg, rfl⟩
  · rintro ⟨g, hg, rfl⟩
    obtain ⟨tie, htie⟩ := exists_takeDearest hg
    exact ⟨tie, by rw [htie]; rfl⟩

theorem price_congr {g h : EntitlementGrant} (hplan : h.planId = g.planId) : price h = price g := by
  rw [price, price, hplan]

theorem price_free {g : EntitlementGrant} : price g = 0 ↔ g.planId = .free := by
  unfold price
  cases g.planId <;> decide

/-- Each row left out is of the free plan, or a row that stays is of its plan or dearer. -/
def Outranked (keep : EntitlementGrant → Bool) (grants : List EntitlementGrant) : Prop :=
  ∀ g ∈ grants, keep g = false →
    g.planId = .free ∨ ∃ h ∈ grants, keep h = true ∧ (price g < price h ∨ h.planId = g.planId)

/-- Rows that are outranked are never missed. -/
theorem firstPlans_filter (h : Outranked keep grants)
    (hfree : (∃ g ∈ grants, g.planId = .free) → f none = f (some .free)) :
    f '' firstPlans (grants.filter keep) = f '' firstPlans grants := by
  by_cases hnil : grants.filter keep = []
  · have hgone : ∀ g ∈ grants, keep g = false := by simpa using List.filter_eq_nil_iff.mp hnil
    have hallfree : ∀ g ∈ grants, g.planId = .free := by
      intro g hg
      obtain hplan | ⟨x, hx, hkept, -⟩ := h g hg (hgone g hg)
      · exact hplan
      · rw [hgone x hx] at hkept
        cases hkept
    rw [hnil, firstPlans_nil, Set.image_singleton]
    cases grants with
    | nil => rw [firstPlans_nil, Set.image_singleton]
    | cons g rest =>
      have hone : firstPlans (g :: rest) = {some .free} := by
        obtain ⟨m, hm⟩ := List.exists_mem_of_ne_nil _ (dearest_ne_nil (List.cons_ne_nil g rest))
        ext p
        rw [mem_firstPlans (List.cons_ne_nil g rest)]
        constructor
        · rintro ⟨x, hx, rfl⟩
          rw [hallfree x (mem_dearest.mp hx).1]
          rfl
        · rintro rfl
          exact ⟨m, hm, by rw [hallfree m (mem_dearest.mp hm).1]⟩
      rw [hone, Set.image_singleton,
        hfree ⟨g, List.mem_cons_self, hallfree g List.mem_cons_self⟩]
  · obtain ⟨m, hm⟩ := List.exists_mem_of_ne_nil _ (dearest_ne_nil hnil)
    obtain ⟨hm, hmax⟩ := mem_dearest.mp hm
    -- nothing left out is dearer than the dearest row that stays
    have hbelow : ∀ g ∈ grants, price g ≤ price m := by
      intro g hg
      cases hkept : keep g with
      | true => exact hmax g (List.mem_filter.mpr ⟨hg, hkept⟩)
      | false =>
        obtain hplan | ⟨x, hx, hxkept, hprice | hplan⟩ := h g hg hkept
        · rw [price_free.mpr hplan]
          exact Nat.zero_le _
        · exact hprice.le.trans (hmax x (List.mem_filter.mpr ⟨hx, hxkept⟩))
        · rw [← price_congr hplan]
          exact hmax x (List.mem_filter.mpr ⟨hx, hxkept⟩)
    have hne : grants ≠ [] := List.ne_nil_of_mem (List.mem_filter.mp hm).1
    congr 1
    ext p
    rw [mem_firstPlans hnil, mem_firstPlans hne]
    constructor
    · rintro ⟨g, hg, rfl⟩
      obtain ⟨hg, hgmax⟩ := mem_dearest.mp hg
      refine ⟨g, mem_dearest.mpr ⟨(List.mem_filter.mp hg).1, fun x hx => ?_⟩, rfl⟩
      exact (hbelow x hx).trans (hgmax m hm)
    · rintro ⟨g, hg, rfl⟩
      obtain ⟨hg, hgmax⟩ := mem_dearest.mp hg
      have hmg : price m ≤ price g := hgmax m (List.mem_filter.mp hm).1
      have hsame : ∃ x ∈ grants.filter keep, x.planId = g.planId := by
        cases hkept : keep g with
        | true => exact ⟨g, List.mem_filter.mpr ⟨hg, hkept⟩, rfl⟩
        | false =>
          obtain hplan | ⟨x, hx, hxkept, hprice | hplan⟩ := h g hg hkept
          · have hzero := price_free.mpr hplan
            exact ⟨m, hm, by rw [hplan, price_free.mp (by omega)]⟩
          · have := hmax x (List.mem_filter.mpr ⟨hx, hxkept⟩)
            omega
          · exact ⟨x, List.mem_filter.mpr ⟨hx, hxkept⟩, hplan⟩
      obtain ⟨x, hx, hplan⟩ := hsame
      refine ⟨x, mem_dearest.mpr ⟨hx, fun y hy => ?_⟩, by rw [hplan]⟩
      rw [price_congr hplan]
      exact hgmax y (List.mem_filter.mp hy).1

/-- The plan of a row that is not free is told from every other answer. -/
def Telling (f : Option PlanCode → β) (grants : List EntitlementGrant) : Prop :=
  ∀ g ∈ grants, g.planId ≠ .free → ∀ p, (p = none ∨ ∃ h ∈ grants, p = some h.planId) →
    f p = f (some g.planId) → p = some g.planId

/-- Where nothing is missed, a dearest row that is not free leaves one of its plan. -/
theorem kept_of_dearest (htell : Telling f grants)
    (h : f '' firstPlans (grants.filter keep) = f '' firstPlans grants) {g : EntitlementGrant}
    (hg : g ∈ dearest grants) (hplan : g.planId ≠ .free) :
    ∃ x ∈ grants, keep x = true ∧ x.planId = g.planId := by
  have hgmem := (mem_dearest.mp hg).1
  have hin : f (some g.planId) ∈ f '' firstPlans (grants.filter keep) := by
    rw [h]
    exact ⟨_, (mem_firstPlans (List.ne_nil_of_mem hgmem)).mpr ⟨g, hg, rfl⟩, rfl⟩
  obtain ⟨p, hp, hfp⟩ := hin
  by_cases hnil : grants.filter keep = []
  · rw [hnil, firstPlans_nil] at hp
    cases htell g hgmem hplan p (.inl hp) hfp ▸ hp
  · obtain ⟨x, hx, rfl⟩ := (mem_firstPlans hnil).mp hp
    obtain ⟨hx, hkept⟩ := List.mem_filter.mp (mem_dearest.mp hx).1
    exact ⟨x, hx, hkept, Option.some.inj (htell g hgmem hplan _ (.inr ⟨x, hx, rfl⟩) hfp)⟩

theorem outranked_of_firstPlans (htell : Telling f grants)
    (h : f '' firstPlans (grants.filter keep) = f '' firstPlans grants) : Outranked keep grants := by
  intro g hg hgone
  by_contra hnot
  rw [not_or] at hnot
  obtain ⟨hplan, hnone⟩ := hnot
  obtain ⟨m, hm⟩ := List.exists_mem_of_ne_nil _ (dearest_ne_nil (List.ne_nil_of_mem hg))
  obtain ⟨hmmem, hmax⟩ := mem_dearest.mp hm
  have hgm := hmax g hg
  have hpos : price g ≠ 0 := fun hzero => hplan (price_free.mp hzero)
  have hmplan : m.planId ≠ .free := fun hfree => by
    have := price_free.mpr hfree
    omega
  obtain ⟨x, hx, hxkept, hxplan⟩ := kept_of_dearest htell h hm hmplan
  -- the row that stays is not dearer, so the dearest price is the lost row's own
  have hxg : ¬ price g < price x := fun hlt => hnone ⟨x, hx, hxkept, .inl hlt⟩
  have hxm := price_congr hxplan
  have hgdear : g ∈ dearest grants := by
    refine mem_dearest.mpr ⟨hg, fun y hy => ?_⟩
    have := hmax y hy
    omega
  obtain ⟨y, hy, hykept, hyplan⟩ := kept_of_dearest htell h hgdear hplan
  exact hnone ⟨y, hy, hykept, .inr hyplan⟩

end first

/-- The period is over before `t`. -/
def lapsed (t : ℕ) (grant : EntitlementGrant) : Bool := grant.periodEnd.any fun ends => ends < t

structure Limits where
  planCode : PlanCode
  maxContributors : Option ℕ
  maxSeats : Option ℕ
  features : List String
  maxAiCredits : ℕ
  deriving DecidableEq, Repr

def limits (ent : ResolvedEntitlement) : Limits :=
  ⟨ent.planCode, ent.maxContributors, ent.maxSeats, ent.features, ent.maxAiCredits⟩

/-- The limits that `resolve` may return at `t`. -/
def resolvable (db : BillingDb) (scope : Scope) (t : ℕ) : Set Limits :=
  {x | ∃ draw : Draw, draw.now = t ∧ ∃ ent, ((resolve scope draw).run db).1 = .ok ent ∧
    limits ent = x}

/-- The ceilings that `maxActiveEvents` may return at `t`. -/
def ceilings (db : BillingDb) (userId t : ℕ) : Set (Option ℕ) :=
  {x | ∃ draw : Draw, draw.now = t ∧ ((maxActiveEvents userId draw).run db).1 = .ok x}

/-- The rows without the grants that are gone. -/
def without (db : BillingDb) (gone : EntitlementGrant → Bool) : BillingDb :=
  { db with grants := db.grants.delete gone }

/-- Whichever of the lapsed grants are deleted, no reader can tell. -/
def LapsedUnread (db : BillingDb) (t : ℕ) : Prop :=
  ∀ gone : EntitlementGrant → Bool, (∀ g, gone g = true → lapsed t g = true) →
    (∀ scope, resolvable (without db gone) scope t = resolvable db scope t) ∧
      ∀ userId, ceilings (without db gone) userId t = ceilings db userId t

/-- Each lapsed grant that a reader selects is of the free plan, or a live one that it also selects
is of its plan or dearer. -/
def LapsedOutranked (db : BillingDb) (t : ℕ) : Prop :=
  (∀ scope : Scope, Outranked (fun g => !lapsed t g)
    (candidates db scope.eventId (resolvedAccount db scope))) ∧
  ∀ userId, Outranked (fun g => !lapsed t g) (subscriptions db userId)

def planLimits (code : PlanCode) : Limits :=
  let plan := planCatalog code
  ⟨plan.code, plan.maxContributors, seatsFromFeatures plan.features, plan.features,
    plan.includedAiCredits⟩

section readers
variable {db : BillingDb} {scope : Scope} {userId t : ℕ} {gone : EntitlementGrant → Bool}

def drawAt (t tie : ℕ) : Draw := ⟨0, 0, 0, 0, "", t, tie⟩

theorem resolvable_eq : resolvable db scope t = (fun p => planLimits (p.getD .free)) ''
    firstPlans (candidates db scope.eventId (resolvedAccount db scope)) := by
  ext x
  constructor
  · rintro ⟨draw, -, ent, hrun, rfl⟩
    rw [run_resolve] at hrun
    obtain rfl := Except.ok.inj hrun
    exact ⟨_, ⟨draw.tie, rfl⟩, rfl⟩
  · rintro ⟨_, ⟨tie, rfl⟩, rfl⟩
    exact ⟨drawAt t tie, rfl, _, by rw [run_resolve], rfl⟩

theorem ceilings_eq : ceilings db userId t = ceilingOf '' firstPlans (subscriptions db userId) := by
  ext x
  constructor
  · rintro ⟨draw, -, hrun⟩
    exact ⟨_, ⟨draw.tie, rfl⟩, Except.ok.inj hrun⟩
  · rintro ⟨_, ⟨tie, rfl⟩, rfl⟩
    exact ⟨drawAt t tie, rfl, rfl⟩

theorem filter_without (p : EntitlementGrant → Bool) :
    (without db gone).grants.rows.filter p = (db.grants.rows.filter p).filter fun g => !gone g := by
  change (db.grants.rows.filter _).filter p = _
  rw [List.filter_comm]

theorem candidates_without (eventId accountId : Option ℕ) :
    candidates (without db gone) eventId accountId =
      (candidates db eventId accountId).filter fun g => !gone g := filter_without _

theorem subscriptions_without :
    subscriptions (without db gone) userId = (subscriptions db userId).filter fun g => !gone g :=
  filter_without _

theorem telling_planLimits (grants : List EntitlementGrant) :
    Telling (fun p : Option PlanCode => planLimits (p.getD .free)) grants := by
  intro g _ hplan p _ hsame
  have hcode : p.getD .free = g.planId := by
    have := congrArg Limits.planCode hsame
    simpa [planLimits, planCatalog_code] using this
  cases p with
  | none => exact absurd hcode.symm hplan
  | some code => rw [← hcode]; rfl

/-- The two subscriptions have ceilings of their own. -/
theorem ceilingOf_subscription {a b : PlanCode} (ha : (planCatalog a).isSubscription = true)
    (hb : (planCatalog b).isSubscription = true) (h : ceilingOf (some a) = ceilingOf (some b)) :
    a = b := by
  revert ha hb h
  cases a <;> cases b <;> decide

theorem isSubscription_of_mem {g : EntitlementGrant} (hg : g ∈ subscriptions db userId) :
    (planCatalog g.planId).isSubscription = true := by
  have := (List.mem_filter.mp hg).2
  simp only [Bool.and_eq_true] at this
  exact this.1.2

theorem telling_ceilingOf : Telling ceilingOf (subscriptions db userId) := by
  intro g hg _ p hp hsame
  have hsub := isSubscription_of_mem hg
  rcases hp with rfl | ⟨h, hh, rfl⟩
  · revert hsub hsame
    cases g.planId <;> decide
  · rw [ceilingOf_subscription (isSubscription_of_mem hh) hsub hsame]

/-- Deleting lapsed grants leaves the live ones to outrank them. -/
theorem outranked_gone {grants : List EntitlementGrant}
    (h : Outranked (fun g => !lapsed t g) grants)
    (hgone : ∀ g, gone g = true → lapsed t g = true) : Outranked (fun g => !gone g) grants := by
  intro g hg hkeep
  have hlapsed := hgone g (by simpa using hkeep)
  obtain hplan | ⟨x, hx, hlive, hover⟩ := h g hg (by simpa using hlapsed)
  · exact .inl hplan
  · refine .inr ⟨x, hx, ?_, hover⟩
    cases hgonex : gone x with
    | false => simp [hgonex]
    | true => simp [hgone x hgonex] at hlive

theorem lapsedUnread_iff : LapsedUnread db t ↔ LapsedOutranked db t := by
  constructor
  · intro h
    obtain ⟨hresolve, hceiling⟩ := h (lapsed t) fun _ hg => hg
    constructor
    · intro scope
      have hsame := hresolve scope
      rw [resolvable_eq, resolvable_eq, candidates_without] at hsame
      exact outranked_of_firstPlans (telling_planLimits _) hsame
    · intro userId
      have hsame := hceiling userId
      rw [ceilings_eq, ceilings_eq, subscriptions_without] at hsame
      exact outranked_of_firstPlans telling_ceilingOf hsame
  · intro h gone hgone
    constructor
    · intro scope
      rw [resolvable_eq, resolvable_eq, candidates_without]
      exact firstPlans_filter (outranked_gone (h.1 scope) hgone) fun _ => rfl
    · intro userId
      rw [ceilings_eq, ceilings_eq, subscriptions_without]
      refine firstPlans_filter (outranked_gone (h.2 userId) hgone) ?_
      rintro ⟨g, hg, hfree⟩
      have hsub := isSubscription_of_mem hg
      rw [hfree] at hsub
      cases hsub

end readers

/-- After any run of billing calls, grants whose period is over change nothing that a reader finds
exactly when each is free or outranked by a live one. -/
theorem lapsed_grants_unread_iff (db : BillingDb) (calls : List Invocation) (t : ℕ) :
    LapsedUnread (billingRun db calls) t ↔ LapsedOutranked (billingRun db calls) t := lapsedUnread_iff

def drawn : Draw := ⟨7, 3, 40, 20, "inv_1", 1, 0⟩

/-- User 1 with account 3 pays for a month of the business plan. -/
def paidOnce : List Invocation :=
  [⟨.ensureBillingAccount 1, drawn⟩, ⟨.createEvent 1, drawn⟩,
    ⟨.subscribe 1 "BUSINESS" .pending, drawn⟩,
    ⟨.applyPaymentWebhook ⟨"t1", "inv_1", .succeeded, 120000, "UGX"⟩, drawn⟩]

def afterPeriod : ℕ := 1 + subscriptionPeriod + 1

/-- No ceiling a month and more later, where deleting the grant brings back the free one. -/
theorem paid_once_kept_for_ever :
    ¬ ∀ (db : BillingDb) (calls : List Invocation) (t : ℕ), LapsedUnread (billingRun db calls) t := by
  intro h
  have hsame := (h .empty paidOnce afterPeriod (lapsed afterPeriod) fun _ hg => hg).2 1
  have hkept : none ∈ ceilings (billingRun .empty paidOnce) 1 afterPeriod :=
    ⟨drawAt afterPeriod 0, rfl, by decide⟩
  rw [← hsame] at hkept
  obtain ⟨draw, -, hrun⟩ := hkept
  have hnone : subscriptions (without (billingRun .empty paidOnce) (lapsed afterPeriod)) 1 = [] := by
    decide
  have hfound : ((maxActiveEvents 1 draw).run
      (without (billingRun .empty paidOnce) (lapsed afterPeriod))).1 = .ok (some 1) := by
    change Except.ok (ceilingOf ((takeDearest draw.tie (subscriptions _ 1)).map _)) = _
    rw [hnone]
    rfl
  rw [hfound] at hrun
  cases hrun

end Akabbo.LapsedGrants
