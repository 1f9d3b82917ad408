import Akabbo.BillingState

/-!
# Resolved entitlements

What a scope may do: the dearest grant in force for the event or its owner's account,
and the credits pooled over both. Each read is given as its statements and as the value
they find on rows that do not change.
-/
namespace Akabbo.Entitlement
open Access CreditPool PlanCatalog RowTable StatementProgram BillingState
open StatementProgram.Program (query exec exec_query_bind exec_bind)

def older (best : Option BillingAccount) (a : BillingAccount) : Option BillingAccount :=
  match best with
  | none => some a
  | some b => if a.createdAt < b.createdAt then some a else some b

/-- `orderBy: { createdAt: 'asc' }` with `LIMIT 1`. -/
def oldest (accounts : List BillingAccount) : Option BillingAccount := accounts.foldl older none

theorem oldest_eq_none {accounts : List BillingAccount} :
    oldest accounts = none ↔ accounts = [] :=
  foldl_eq_none fun best a => by
    unfold older
    cases best with
    | none => simp
    | some b => dsimp only; split_ifs <;> simp

theorem oldest_mem {accounts : List BillingAccount} {a : BillingAccount}
    (h : oldest accounts = some a) : a ∈ accounts := by
  have hfold : ∀ (xs : List BillingAccount) (best : Option BillingAccount),
      xs.foldl older best = some a → a ∈ xs ∨ best = some a := by
    intro xs
    induction xs with
    | nil => exact fun best hbest => .inr hbest
    | cons x xs ih =>
      intro best hbest
      rcases ih (older best x) hbest with hmem | hnext
      · exact .inl (List.mem_cons_of_mem _ hmem)
      · cases best with
        | none =>
          obtain rfl := Option.some.inj hnext
          exact .inl List.mem_cons_self
        | some b =>
          simp only [older] at hnext
          split_ifs at hnext
          · obtain rfl := Option.some.inj hnext
            exact .inl List.mem_cons_self
          · exact .inr hnext
  exact (hfold accounts none h).resolve_right nofun

def accountOf (db : BillingDb) (userId : ℕ) : Option ℕ :=
  (oldest (db.accounts.rows.filter fun a => a.ownerUserId == userId)).map BillingAccount.id

theorem mem_of_accountOf {db : BillingDb} {userId accountId : ℕ}
    (h : accountOf db userId = some accountId) :
    ∃ a ∈ db.accounts, a.id = accountId ∧ a.ownerUserId = userId := by
  obtain ⟨a, ha, hid⟩ := Option.map_eq_some_iff.mp h
  obtain ⟨hmem, howner⟩ := List.mem_filter.mp (oldest_mem ha)
  exact ⟨a, hmem, hid, by simpa using howner⟩

/-- The account behind an event: its owner's, if both exist. -/
def owner (db : BillingDb) (eventId : ℕ) : Option ℕ :=
  match db.events.get? eventId with
  | some event => accountOf db event.ownerUserId
  | none => none

def findAccountId (userId : ℕ) : BillingProgram (Option ℕ) :=
  query fun db => accountOf db userId

def owningAccountId (eventId : ℕ) : BillingProgram (Option ℕ) := do
  let event ← query fun db => db.events.get? eventId
  match event with
  | none => return none
  | some event => findAccountId event.ownerUserId

theorem exec_owningAccountId (eventId : ℕ) (c v : BillingDb) :
    exec (owningAccountId eventId) c v = .ok (owner v eventId, c, v) := by
  unfold owningAccountId owner
  rw [exec_query_bind]
  cases v.events.get? eventId <;> rfl

/-- An event in the scope decides the account; the caller's own is not looked at then. -/
def resolveAccount (scope : Scope) : BillingProgram (Option ℕ) :=
  match scope.eventId with
  | some eventId => owningAccountId eventId
  | none => pure scope.accountId

def resolvedAccount (db : BillingDb) (scope : Scope) : Option ℕ :=
  match scope.eventId with
  | some eventId => owner db eventId
  | none => scope.accountId

theorem exec_resolveAccount (scope : Scope) (c v : BillingDb) :
    exec (resolveAccount scope) c v = .ok (resolvedAccount v scope, c, v) := by
  unfold resolveAccount resolvedAccount
  cases scope.eventId
  · rfl
  · exact exec_owningAccountId _ c v

def price (grant : EntitlementGrant) : ℕ := (planCatalog grant.planId).priceMinor

/-- `status: { in: [TRIALING, ACTIVE] }`. -/
def inForce (grant : EntitlementGrant) : Bool :=
  grant.status == .trialing || grant.status == .active

def candidates (db : BillingDb) (eventId accountId : Option ℕ) : List EntitlementGrant :=
  db.grants.rows.filter fun g => inForce g &&
    ((eventId.isSome && g.eventId == eventId) || (accountId.isSome && g.accountId == accountId))

/-- The rows that may come first when a query orders them by price. -/
def dearest (grants : List EntitlementGrant) : List EntitlementGrant :=
  grants.filter fun g => grants.all fun h => price h ≤ price g

/-- `orderBy: { plan: { priceMinor: 'desc' } }` with `take: 1`. Rows of one price come in
an order that nothing fixes; `tie` is the one that comes first. -/
def takeDearest (tie : ℕ) (grants : List EntitlementGrant) : Option EntitlementGrant :=
  (dearest grants)[tie % (dearest grants).length]?

def activeGrant (tie : ℕ) (scope : Scope) (accountId : Option ℕ) :
    BillingProgram (Option EntitlementGrant) :=
  if scope.eventId.isNone && accountId.isNone then pure none
  else query fun db => takeDearest tie (candidates db scope.eventId accountId)

theorem mem_dearest {grants : List EntitlementGrant} {g : EntitlementGrant} :
    g ∈ dearest grants ↔ g ∈ grants ∧ ∀ h ∈ grants, price h ≤ price g := by
  simp [dearest]

theorem takeDearest_mem {tie : ℕ} {grants : List EntitlementGrant} {g : EntitlementGrant}
    (h : takeDearest tie grants = some g) : g ∈ dearest grants := List.mem_of_getElem? h

/-- Every row of the highest price may come first. -/
theorem exists_takeDearest {grants : List EntitlementGrant} {g : EntitlementGrant}
    (h : g ∈ dearest grants) : ∃ tie, takeDearest tie grants = some g := by
  obtain ⟨tie, htie, hg⟩ := List.getElem_of_mem h
  refine ⟨tie, ?_⟩
  rw [takeDearest, Nat.mod_eq_of_lt htie, List.getElem?_eq_getElem htie, hg]

theorem dearest_ne_nil {grants : List EntitlementGrant} (h : grants ≠ []) :
    dearest grants ≠ [] := by
  have hmax : ∃ g ∈ grants, ∀ h ∈ grants, price h ≤ price g := by
    induction grants with
    | nil => exact absurd rfl h
    | cons g rest ih =>
      by_cases hrest : rest = []
      · exact ⟨g, List.mem_cons_self, by simp [hrest]⟩
      · obtain ⟨m, hm, hall⟩ := ih hrest
        by_cases hgm : price g ≤ price m
        · exact ⟨m, List.mem_cons_of_mem _ hm, by simpa [hgm] using hall⟩
        · refine ⟨g, List.mem_cons_self, fun x hx => ?_⟩
          obtain rfl | hx := List.mem_cons.mp hx
          · exact le_rfl
          · have := hall x hx
            omega
  obtain ⟨g, hg⟩ := hmax
  exact List.ne_nil_of_mem (mem_dearest.mpr hg)

theorem takeDearest_eq_none {tie : ℕ} {grants : List EntitlementGrant} :
    takeDearest tie grants = none ↔ grants = [] := by
  constructor
  · intro h
    by_contra hne
    have hlen := List.length_pos_of_ne_nil (dearest_ne_nil hne)
    have := Nat.mod_lt tie hlen
    rw [takeDearest, List.getElem?_eq_none_iff] at h
    omega
  · rintro rfl
    rfl

/-- `SUM(amount)` over the rows of the event or of the account; a scope with neither has
no rows. -/
def creditBalance (db : BillingDb) (l : Ledger) (eventId accountId : Option ℕ) : ℤ :=
  pooled (db.movements l) eventId accountId

def ledgerBalance (l : Ledger) (scope : Scope) (accountId : Option ℕ) : BillingProgram ℤ :=
  if scope.eventId.isNone && accountId.isNone then pure 0
  else query fun db => creditBalance db l scope.eventId accountId

def smsBalance : Scope → Option ℕ → BillingProgram ℤ := ledgerBalance .sms

def aiBalance : Scope → Option ℕ → BillingProgram ℤ := ledgerBalance .ai

theorem exec_ledgerBalance (l : Ledger) (scope : Scope) (accountId : Option ℕ)
    (c v : BillingDb) :
    exec (ledgerBalance l scope accountId) c v =
      .ok (creditBalance v l scope.eventId accountId, c, v) := by
  unfold ledgerBalance
  split_ifs with h
  · simp only [Bool.and_eq_true, Option.isNone_iff_eq_none] at h
    rw [h.1, h.2]
    exact congrArg (fun b => Except.ok (b, c, v)) (held_none (v.movements l)).symm
  · rfl

def contributors (db : BillingDb) (eventId : ℕ) : ℕ := db.persons.count eventId

def activeMembers (db : BillingDb) (eventId : ℕ) : ℕ :=
  db.members.countP fun m => m.eventId == eventId && m.status == .active

def pendingInvitations (db : BillingDb) (eventId now : ℕ) : ℕ :=
  db.invitations.countP fun i =>
    i.eventId == eventId && i.status == .pending && decide (now < i.expiresAt)

def countContributors (eventId : ℕ) : BillingProgram ℕ := query fun db => contributors db eventId

/-- Seats in use: active members and invitations still open. -/
def countSeats (eventId now : ℕ) : BillingProgram ℕ := do
  let members ← query fun db => activeMembers db eventId
  let pending ← query fun db => pendingInvitations db eventId now
  return members + pending

/-- `maxContributors = none` and `maxSeats = none` are unlimited. -/
structure ResolvedEntitlement where
  planCode : PlanCode
  status : GrantStatus
  maxContributors : Option ℕ
  currentContributors : ℕ
  maxSeats : Option ℕ
  currentSeats : ℕ
  features : List String
  smsBalance : ℤ
  aiBalance : ℤ
  maxAiCredits : ℕ
  deriving DecidableEq, Repr

/-- A scope without a grant has the limits of the free plan. -/
def effectivePlan (grant : Option EntitlementGrant) : PlanCode :=
  (grant.map EntitlementGrant.planId).getD .free

def resolvedFrom (grant : Option EntitlementGrant) (smsBalance aiBalance : ℤ)
    (currentContributors currentSeats : ℕ) : ResolvedEntitlement :=
  let plan := planCatalog (effectivePlan grant)
  { planCode := plan.code
    status := (grant.map EntitlementGrant.status).getD .trialing
    maxContributors := plan.maxContributors
    currentContributors
    maxSeats := seatsFromFeatures plan.features
    currentSeats
    features := plan.features
    smsBalance
    aiBalance
    maxAiCredits := plan.includedAiCredits }

def resolve (scope : Scope) (draw : Draw) : BillingProgram ResolvedEntitlement := do
  let accountId ← resolveAccount scope
  let grant ← activeGrant draw.tie scope accountId
  let sms ← smsBalance scope accountId
  let ai ← aiBalance scope accountId
  match scope.eventId with
  | some eventId => do
      let currentContributors ← countContributors eventId
      let currentSeats ← countSeats eventId draw.now
      return resolvedFrom grant sms ai currentContributors currentSeats
  | none => return resolvedFrom grant sms ai 0 0

/-- The grant in force for a scope. -/
def grantInForce (db : BillingDb) (scope : Scope) (tie : ℕ) : Option EntitlementGrant :=
  takeDearest tie (candidates db scope.eventId (resolvedAccount db scope))

def scopeBalance (db : BillingDb) (l : Ledger) (scope : Scope) : ℤ :=
  creditBalance db l scope.eventId (resolvedAccount db scope)

/-- What `resolve` finds on these rows. -/
def entitlement (db : BillingDb) (scope : Scope) (draw : Draw) : ResolvedEntitlement :=
  resolvedFrom (grantInForce db scope draw.tie) (scopeBalance db .sms scope)
    (scopeBalance db .ai scope) ((scope.eventId.map (contributors db)).getD 0)
    ((scope.eventId.map fun e => activeMembers db e + pendingInvitations db e draw.now).getD 0)

theorem candidates_none (db : BillingDb) : candidates db none none = [] := by
  simp [candidates]

theorem exec_activeGrant (tie : ℕ) (scope : Scope) (accountId : Option ℕ) (c v : BillingDb) :
    exec (activeGrant tie scope accountId) c v =
      .ok (takeDearest tie (candidates v scope.eventId accountId), c, v) := by
  unfold activeGrant
  split_ifs with h
  · simp only [Bool.and_eq_true, Option.isNone_iff_eq_none] at h
    rw [h.1, h.2, candidates_none]
    rfl
  · rfl

theorem exec_resolve (scope : Scope) (draw : Draw) (c v : BillingDb) :
    exec (resolve scope draw) c v = .ok (entitlement v scope draw, c, v) := by
  unfold resolve smsBalance aiBalance
  rw [exec_bind, exec_resolveAccount]
  dsimp only
  rw [exec_bind, exec_activeGrant]
  dsimp only
  rw [exec_bind, exec_ledgerBalance]
  dsimp only
  rw [exec_bind, exec_ledgerBalance]
  unfold entitlement grantInForce scopeBalance
  cases scope.eventId <;> rfl

/-- Resolving is a read: it never fails and leaves the rows as they are. -/
theorem run_resolve (scope : Scope) (draw : Draw) (db : BillingDb) :
    (resolve scope draw).run db = (.ok (entitlement db scope draw), db) := by
  simp [Program.run, exec_resolve]

/-- The balances of a scope in one ledger or the other. -/
def ResolvedEntitlement.balance (ent : ResolvedEntitlement) : Ledger → ℤ
  | .sms => ent.smsBalance
  | .ai => ent.aiBalance

@[simp] theorem entitlement_balance (db : BillingDb) (scope : Scope) (draw : Draw) (l : Ledger) :
    (entitlement db scope draw).balance l = scopeBalance db l scope := by
  cases l <;> rfl

end Akabbo.Entitlement
