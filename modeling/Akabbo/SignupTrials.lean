import Mathlib
import Akabbo.BillingWrites
import Akabbo.OtpChallenges
import Akabbo.RelyGuarantee
import Akabbo.RunChecks

/-!
# The trial of a new user

A verified code makes a session, and for a user it has just made an account and a free trial, each
in statements of their own. The trial hangs on the one call that has made the user: where that call
returns before any other login of the user does, everybody who is logged in has one trial.
-/
namespace Akabbo.SignupTrials
open Access RowTable StatementProgram ReadCommitted ProgramParts RelyGuarantee
open OtpChallenges BillingState Entitlement BillingWrites PlanCatalog
open StatementProgram.Program (query modify modifyChecked accept refuse orThrow runIf commitNow)

structure SignupDb where
  auth : AuthDb
  billing : BillingDb

inductive SignupLock
  | auth (lock : AuthLock)
  | billing (lock : BillingLock)
  deriving DecidableEq, Repr

abbrev SignupProgram := Program SignupLock SignupDb AuthError

def authPart : Part SignupDb AuthDb where
  get := SignupDb.auth
  put auth db := { db with auth }
  get_put _ _ := rfl
  put_get _ := rfl
  put_put _ _ _ := rfl

def billingPart : Part SignupDb BillingDb where
  get := SignupDb.billing
  put billing db := { db with billing }
  get_put _ _ := rfl
  put_get _ := rfl
  put_put _ _ _ := rfl

section programs
variable {τ : Type}

def onAuth (p : AuthProgram τ) : SignupProgram τ := authPart.run .auth p

def onBilling (p : BillingProgram τ) : SignupProgram τ :=
  mapError .refused (billingPart.run .billing p)

end programs

structure LoginDraw where
  verify : VerifyDraw
  billing : Draw
  deriving DecidableEq, Repr

structure SessionResponse where
  userId : ℕ
  phoneVerified : Bool
  expiresAt : ℕ
  deriving DecidableEq, Repr

def toSessionResponse (session : AuthSession) : SessionResponse :=
  ⟨session.userId, session.phoneVerified, session.expiresAt⟩

def maybeStartTrial (session : AuthSession) (draw : Draw) : SignupProgram Unit :=
  if session.isNewUser then do
    let accountId ← onBilling (ensureBillingAccount session.userId draw)
    commitNow
    onBilling (startAccountTrial accountId draw)
  else pure ()

section controller
variable (cfg : AuthConfig) (scrypt : String → String → String)

/-- The controller's endpoint of either channel. -/
def login (verify : VerifyOtpRequest → VerifyDraw → AuthProgram AuthSession)
    (request : VerifyOtpRequest) (draw : LoginDraw) : SignupProgram SessionResponse := do
  let session ← onAuth (verify request draw.verify)
  maybeStartTrial session draw.billing
  return toSessionResponse session

def verifyOtp : VerifyOtpRequest → LoginDraw → SignupProgram SessionResponse :=
  login (OtpChallenges.verifyOtp cfg scrypt)

def verifyEmailOtp : VerifyOtpRequest → LoginDraw → SignupProgram SessionResponse :=
  login (OtpChallenges.verifyEmailOtp cfg scrypt)

structure LoginCall where
  channel : Channel
  request : VerifyOtpRequest
  draw : LoginDraw
  deriving DecidableEq, Repr

def LoginCall.program : LoginCall → SignupProgram SessionResponse
  | ⟨.phone, request, draw⟩ => verifyOtp cfg scrypt request draw
  | ⟨.email, request, draw⟩ => verifyEmailOtp cfg scrypt request draw

abbrev SignupSystem := System SignupLock SignupDb AuthError SessionResponse

def system (db : SignupDb) (calls : List LoginCall) : SignupSystem :=
  System.begin db (calls.map (LoginCall.program cfg scrypt))

end controller

def trialKey (l : Ledger) (accountId : ℕ) : String :=
  match l with
  | .sms => s!"trial-sms:account:{accountId}"
  | .ai => s!"trial-ai:account:{accountId}"

def trialReference : Ledger → String
  | .sms => "free trial SMS allowance (account)"
  | .ai => "free trial AI allowance (account)"

def includedCredits : Ledger → ℕ
  | .sms => (planCatalog .free).includedSmsCredits
  | .ai => (planCatalog .free).includedAiCredits

/-- The trial credits of an account. -/
def trialCredits (db : BillingDb) (l : Ledger) (accountId : ℕ) : List CreditRow :=
  (db.creditLedger l).rows.filter fun r =>
    r.accountId == some accountId && r.reference == some (trialReference l)

/-- The user's account holds the free-trial grant, and one set of trial credits. -/
def Trialled (db : BillingDb) (userId : ℕ) : Prop :=
  ∃ accountId, accountOf db userId = some accountId ∧
    (∃ g ∈ db.grants, g.accountId = some accountId ∧ g.planId = .free ∧ g.status = .trialing) ∧
    ∀ l, ∃ row, trialCredits db l accountId = [row] ∧ row.kind = .grant ∧
      row.amount = includedCredits l

/-- Whoever has logged in has one trial. -/
def EverybodyTrialled (sys : SignupSystem) : Prop :=
  ∀ (t : ℕ) s, sys.slots[t]? = some (.finished (some (.ok s))) →
    Trialled sys.committed.billing s.userId

/-- A login of a user that this run has made returns only after the call that made the user has. -/
def SignupFirst (db : SignupDb) (calls : List LoginCall) (sys : SignupSystem) (m : Move) : Prop :=
  ∀ (t : ℕ) call s, calls[t]? = some call →
    (sys.step m).slots[t]? = some (.finished (some (.ok s))) →
    db.auth.users.has s.userId = true ∨ s.userId = call.draw.verify.userId ∨
      ∃ (u : ℕ) (maker : LoginCall) (s' : SessionResponse), calls[u]? = some maker ∧
        sys.slots[u]? = some (.finished (some (.ok s'))) ∧ s'.userId = s.userId ∧
        maker.draw.verify.userId = s.userId

/-- The ids a call draws for what it may insert. -/
structure Apart (d d' : LoginDraw) : Prop where
  user : d.verify.userId ≠ d'.verify.userId
  account : d.billing.accountId ≠ d'.billing.accountId
  grant : d.billing.grantId ≠ d'.billing.grantId

/-- No row names what the call draws. -/
structure Unnamed (d : LoginDraw) (db : SignupDb) : Prop where
  user : db.auth.users.has d.verify.userId = false
  owner : ∀ a ∈ db.billing.accounts, a.ownerUserId ≠ d.verify.userId
  account : db.billing.accounts.has d.billing.accountId = false
  grant : db.billing.grants.has d.billing.grantId = false
  grants : ∀ g ∈ db.billing.grants, g.accountId ≠ some d.billing.accountId
  credits : ∀ l, ∀ r ∈ db.billing.creditLedger l, r.accountId ≠ some d.billing.accountId ∧
    r.idempotencyKey ≠ trialKey l d.billing.accountId

/-- Ids are drawn at random: no two calls draw the same, and none is in use. -/
structure Drawn (db : SignupDb) (calls : List LoginCall) : Prop where
  apart : ∀ (t u : ℕ) c c', t ≠ u → calls[t]? = some c → calls[u]? = some c' → Apart c.draw c'.draw
  fresh : ∀ c ∈ calls, Unnamed c.draw db

/-- The rows that a call's trial is made of. -/
structure TrialView where
  owned : List BillingAccount
  taken : Bool
  grantTaken : Bool
  grants : List EntitlementGrant
  credits : Ledger → List CreditRow

def concerns (l : Ledger) (accountId : ℕ) (r : CreditRow) : Bool :=
  r.accountId == some accountId || r.idempotencyKey == trialKey l accountId

def view (d : LoginDraw) (db : BillingDb) : TrialView where
  owned := db.accounts.rows.filter fun a => a.ownerUserId == d.verify.userId
  taken := db.accounts.has d.billing.accountId
  grantTaken := db.grants.has d.billing.grantId
  grants := db.grants.rows.filter fun g => g.accountId == some d.billing.accountId
  credits l := (db.creditLedger l).rows.filter (concerns l d.billing.accountId)

def newAccount (d : LoginDraw) : BillingAccount :=
  ⟨d.billing.accountId, d.verify.userId, d.billing.now⟩

def newGrant (d : LoginDraw) : EntitlementGrant :=
  trialGrant none (some d.billing.accountId) d.billing

def newCredit (d : LoginDraw) (l : Ledger) : CreditRow :=
  creditRow { accountId := some d.billing.accountId } (some d.billing.accountId) .grant
    (includedCredits l) (trialKey l d.billing.accountId) (some (trialReference l))

theorem trialKey_injective (l : Ledger) {a b : ℕ} (h : trialKey l a = trialKey l b) : a = b := by
  cases l with
  | sms =>
    unfold trialKey at h
    exact Nat.repr_injective ((String.append_right_inj _).mp h)
  | ai =>
    unfold trialKey at h
    exact Nat.repr_injective ((String.append_right_inj _).mp h)

section inserts
variable {d d' : LoginDraw} {db : BillingDb}

theorem view_insertAccount (db : BillingDb) (h : db.accounts.has d.billing.accountId = false) :
    view d (db.insertAccount (newAccount d)) =
      { view d db with owned := (view d db).owned ++ [newAccount d], taken := true } := by
  have hcredits (l : Ledger) := db.insertAccount_creditLedger l (newAccount d)
  have htaken : (db.insertAccount (newAccount d)).accounts.has d.billing.accountId = true := by
    change (db.accounts.insertNew (newAccount d)).has _ = true
    rw [Table.has_insertNew]
    simp [newAccount]
  have howned : (db.insertAccount (newAccount d)).accounts.rows.filter
      (fun a => a.ownerUserId == d.verify.userId) =
        (db.accounts.rows.filter fun a => a.ownerUserId == d.verify.userId) ++ [newAccount d] := by
    change (db.accounts.insertNew (newAccount d)).rows.filter _ = _
    rw [Table.insertNew_rows h, List.filter_append]
    simp [newAccount]
  unfold view
  simp only [hcredits, htaken, howned]
  rfl

theorem view_insertAccount_apart (h : Apart d d') :
    view d' (db.insertAccount (newAccount d)) = view d' db := by
  have hcredits (l : Ledger) := db.insertAccount_creditLedger l (newAccount d)
  have howned : (db.insertAccount (newAccount d)).accounts.rows.filter
      (fun a => a.ownerUserId == d'.verify.userId) =
        db.accounts.rows.filter fun a => a.ownerUserId == d'.verify.userId :=
    Table.filter_insertNew (by simpa [newAccount] using h.user)
  have htaken : (db.insertAccount (newAccount d)).accounts.has d'.billing.accountId =
      db.accounts.has d'.billing.accountId := by
    change (db.accounts.insertNew (newAccount d)).has _ = _
    rw [Table.has_insertNew]
    simp [newAccount, h.account]
  unfold view
  simp only [hcredits, htaken, howned]
  rfl

theorem view_insertGrant (db : BillingDb) (h : db.grants.has d.billing.grantId = false) :
    view d (db.insertGrant (newGrant d)) =
      { view d db with grantTaken := true, grants := (view d db).grants ++ [newGrant d] } := by
  have hcredits (l : Ledger) := db.insertGrant_creditLedger l (newGrant d)
  have htaken : (db.insertGrant (newGrant d)).grants.has d.billing.grantId = true := by
    change (db.grants.insertNew (newGrant d)).has _ = true
    rw [Table.has_insertNew]
    simp [newGrant, trialGrant]
  have hgrants : (db.insertGrant (newGrant d)).grants.rows.filter
      (fun g => g.accountId == some d.billing.accountId) =
        (db.grants.rows.filter fun g => g.accountId == some d.billing.accountId) ++ [newGrant d] := by
    change (db.grants.insertNew (newGrant d)).rows.filter _ = _
    rw [Table.insertNew_rows h, List.filter_append]
    simp [newGrant, trialGrant]
  unfold view
  simp only [hcredits, htaken, hgrants]
  rfl

theorem view_insertGrant_apart (h : Apart d d') :
    view d' (db.insertGrant (newGrant d)) = view d' db := by
  have hcredits (l : Ledger) := db.insertGrant_creditLedger l (newGrant d)
  have htaken : (db.insertGrant (newGrant d)).grants.has d'.billing.grantId =
      db.grants.has d'.billing.grantId := by
    change (db.grants.insertNew (newGrant d)).has _ = _
    rw [Table.has_insertNew]
    simp [newGrant, trialGrant, h.grant]
  have hgrants : (db.insertGrant (newGrant d)).grants.rows.filter
      (fun g => g.accountId == some d'.billing.accountId) =
        db.grants.rows.filter fun g => g.accountId == some d'.billing.accountId :=
    Table.filter_insertNew (by simpa [newGrant, trialGrant] using h.account)
  unfold view
  simp only [hcredits, htaken, hgrants]
  rfl

theorem view_insertCredit (db : BillingDb) (l : Ledger) (h : (view d db).credits l = []) :
    view d (db.insertCredit l (newCredit d l)) =
      { view d db with credits := Function.update (view d db).credits l [newCredit d l] } := by
  have hfree : (db.creditLedger l).has (newCredit d l).idempotencyKey = false := by
    refine Table.has_eq_false_iff.mpr fun r hr hkey => ?_
    have hmem : r ∈ (view d db).credits l := by
      refine List.mem_filter.mpr ⟨hr, ?_⟩
      simp [concerns, hkey, newCredit, creditRow]
    rw [h] at hmem
    cases hmem
  have hcredits : (fun k => ((db.insertCredit l (newCredit d l)).creditLedger k).rows.filter
      (concerns k d.billing.accountId)) = Function.update (view d db).credits l [newCredit d l] := by
    funext k
    rw [BillingDb.insertCredit_creditLedger]
    by_cases hk : l = k
    · subst hk
      rw [if_pos rfl, Function.update_self, Table.insertNew_rows hfree, List.filter_append]
      have hold : (db.creditLedger l).rows.filter (concerns l d.billing.accountId) = [] := h
      rw [hold]
      simp [concerns, newCredit, creditRow]
    · rw [if_neg hk, Function.update_of_ne (Ne.symm hk)]
      rfl
  unfold view at hcredits ⊢
  rw [hcredits]
  simp only [BillingDb.insertCredit_accounts, BillingDb.insertCredit_grants]

theorem view_insertCredit_apart (h : Apart d d') (l : Ledger) :
    view d' (db.insertCredit l (newCredit d l)) = view d' db := by
  have hcredits : (fun k => ((db.insertCredit l (newCredit d l)).creditLedger k).rows.filter
      (concerns k d'.billing.accountId)) = (view d' db).credits := by
    funext k
    rw [BillingDb.insertCredit_creditLedger]
    split_ifs with hk
    · subst hk
      have hkey : trialKey l d.billing.accountId ≠ trialKey l d'.billing.accountId :=
        fun he => h.account (trialKey_injective l he)
      exact Table.filter_insertNew (by simp [concerns, newCredit, creditRow, h.account, hkey])
    · rfl
  unfold view at hcredits ⊢
  rw [hcredits]
  simp only [BillingDb.insertCredit_accounts, BillingDb.insertCredit_grants]

end inserts

section trialled
variable {d : LoginDraw} {db : BillingDb} {userId : ℕ}

theorem trialled_insertAccount (hne : userId ≠ d.verify.userId) (h : Trialled db userId) :
    Trialled (db.insertAccount (newAccount d)) userId := by
  obtain ⟨accountId, haccount, hgrant, hcredits⟩ := h
  refine ⟨accountId, ?_, hgrant, fun l => ?_⟩
  · have hrows : (db.insertAccount (newAccount d)).accounts.rows.filter
        (fun a => a.ownerUserId == userId) =
          db.accounts.rows.filter fun a => a.ownerUserId == userId :=
      Table.filter_insertNew (by simpa [newAccount] using Ne.symm hne)
    unfold accountOf
    rw [hrows]
    exact haccount
  · unfold trialCredits
    rw [BillingDb.insertAccount_creditLedger]
    exact hcredits l

theorem trialled_insertGrant (h : Trialled db userId) (g : EntitlementGrant) :
    Trialled (db.insertGrant g) userId := by
  obtain ⟨accountId, haccount, ⟨grant, hgrant, hrest⟩, hcredits⟩ := h
  refine ⟨accountId, haccount, ⟨grant, Table.mem_insertNew_of_mem hgrant, hrest⟩, fun l => ?_⟩
  unfold trialCredits
  rw [BillingDb.insertGrant_creditLedger]
  exact hcredits l

/-- A credit of the account that the call has made is none of anybody else's. -/
theorem trialled_insertCredit {l : Ledger} (howned : (view d db).owned = [newAccount d])
    (hne : userId ≠ d.verify.userId) (h : Trialled db userId) :
    Trialled (db.insertCredit l (newCredit d l)) userId := by
  obtain ⟨accountId, haccount, hgrant, hcredits⟩ := h
  have hother : d.billing.accountId ≠ accountId := by
    obtain ⟨a, ha, hid, howner⟩ := mem_of_accountOf haccount
    intro he
    have hmem : newAccount d ∈ db.accounts := by
      have hfiltered : newAccount d ∈ (view d db).owned := by
        rw [howned]
        exact List.mem_singleton.mpr rfl
      exact (List.mem_filter.mp hfiltered).1
    have hsame : a = newAccount d := Table.key_inj ha hmem (hid.trans he.symm)
    rw [hsame] at howner
    exact hne howner.symm
  refine ⟨accountId, ?_, ?_, fun k => ?_⟩
  · unfold accountOf
    rw [BillingDb.insertCredit_accounts]
    exact haccount
  · rw [BillingDb.insertCredit_grants]
    exact hgrant
  · have hsame : trialCredits (db.insertCredit l (newCredit d l)) k accountId =
        trialCredits db k accountId := by
      unfold trialCredits
      rw [BillingDb.insertCredit_creditLedger]
      split_ifs
      · exact Table.filter_insertNew (by simp [newCredit, creditRow, hother])
      · rfl
    rw [hsame]
    exact hcredits k

/-- The trial is there once all its rows are. -/
theorem trialled_of_view (howned : (view d db).owned = [newAccount d])
    (hgrants : (view d db).grants = [newGrant d])
    (hcredits : ∀ l, (view d db).credits l = [newCredit d l]) : Trialled db d.verify.userId := by
  refine ⟨d.billing.accountId, ?_, ⟨newGrant d, ?_, rfl, rfl, rfl⟩, fun l => ?_⟩
  · have hrows : (db.accounts.rows.filter fun a => a.ownerUserId == d.verify.userId) =
        [newAccount d] := howned
    unfold accountOf
    rw [hrows]
    rfl
  · have hmem : newGrant d ∈ (view d db).grants := by
      rw [hgrants]
      exact List.mem_singleton.mpr rfl
    exact (List.mem_filter.mp hmem).1
  · refine ⟨newCredit d l, ?_, rfl, rfl⟩
    have hrows : (db.creditLedger l).rows.filter (concerns l d.billing.accountId) =
        [newCredit d l] := hcredits l
    have hsub : trialCredits db l d.billing.accountId =
        ((db.creditLedger l).rows.filter (concerns l d.billing.accountId)).filter fun r =>
          r.accountId == some d.billing.accountId && r.reference == some (trialReference l) := by
      unfold trialCredits
      rw [List.filter_filter]
      refine List.filter_congr fun r _ => ?_
      cases hr : r.accountId == some d.billing.accountId <;> simp [concerns, hr]
    rw [hsub, hrows]
    simp [newCredit, creditRow]

end trialled

def noTrial : TrialView := ⟨[], false, false, [], fun _ => []⟩

/-- What the trial of a call relies on, and what it guarantees to the others. -/
def BillingRelies (d : LoginDraw) (a b : BillingDb) : Prop := view d b = view d a

structure BillingGuarantees (d : LoginDraw) (a b : BillingDb) : Prop where
  apart : ∀ d', Apart d d' → view d' b = view d' a
  trialled : ∀ userId, userId ≠ d.verify.userId → Trialled a userId → Trialled b userId

theorem startAccountTrial_eq (d : LoginDraw) :
    startAccountTrial d.billing.accountId d.billing = (do
      let existingGrant ← query fun db => db.grants.rows.any fun g =>
        g.accountId == some d.billing.accountId && g.planId == .free
      runIf (!existingGrant) (insertGrant (newGrant d))
      commitNow
      BillingWrites.insertCredit .sms (newCredit d .sms)
      commitNow
      BillingWrites.insertCredit .ai (newCredit d .ai)) := rfl

section walk
variable {d : LoginDraw} {v : BillingDb}

theorem guarantees_insertCredit (l : Ledger) (howned : (view d v).owned = [newAccount d]) :
    BillingGuarantees d v (v.insertCredit l (newCredit d l)) :=
  ⟨fun _ h => view_insertCredit_apart h l, fun _ hne h => trialled_insertCredit howned hne h⟩

theorem abides_startAccountTrial
    (hv : view d v = { noTrial with owned := [newAccount d], taken := true }) :
    Abides (BillingRelies d) (BillingGuarantees d)
      (Leaves (BillingRelies d) (BillingGuarantees d) fun _ b => Trialled b d.verify.userId)
      (startAccountTrial d.billing.accountId d.billing) false id v := by
  rw [startAccountTrial_eq]
  refine abides_query_bind fun s₁ hs₁ => ?_
  have hview₁ := hs₁.trans hv
  have hnone : ((id s₁).grants.rows.any fun g =>
      g.accountId == some d.billing.accountId && g.planId == .free) = false := by
    have hgrants : s₁.grants.rows.filter (fun g => g.accountId == some d.billing.accountId) = [] :=
      congrArg TrialView.grants hview₁
    rw [List.filter_eq_nil_iff] at hgrants
    rw [List.any_eq_false]
    intro g hg
    simp [hgrants g hg]
  rw [hnone]
  refine abides_modifyChecked_bind fun s₂ hs₂ _ _ => abides_commitNow_bind fun s₃ hs₃ => ?_
  have hview₃ := hs₃.trans (hs₂.trans hview₁)
  have hview₄ := view_insertGrant s₃ (congrArg TrialView.grantTaken hview₃)
  rw [hview₃] at hview₄
  refine ⟨⟨fun _ h => view_insertGrant_apart h, fun _ _ h => trialled_insertGrant h _⟩, ?_⟩
  refine abides_modify_bind fun s₅ hs₅ => abides_commitNow_bind fun s₆ hs₆ => ?_
  have hview₆ := hs₆.trans (hs₅.trans hview₄)
  have hview₇ := view_insertCredit (d := d) s₆ .sms (by rw [hview₆]; rfl)
  rw [hview₆] at hview₇
  refine ⟨guarantees_insertCredit .sms (by rw [hview₆]), ?_⟩
  intro s₈ hs₈ s₉ hs₉
  have hview₉ := hs₉.trans (hs₈.trans hview₇)
  have hview := view_insertCredit (d := d) s₉ .ai (by rw [hview₉]; rfl)
  rw [hview₉] at hview
  have htrialled : Trialled (s₉.insertCredit .ai (newCredit d .ai)) d.verify.userId := by
    refine trialled_of_view ?_ ?_ fun l => ?_
    · rw [hview]
    · rw [hview]
      rfl
    · rw [hview]
      cases l <;> rfl
  exact ⟨guarantees_insertCredit .ai (by rw [hview₉]), htrialled⟩

theorem abides_trial (hv : view d v = noTrial) :
    Abides (BillingRelies d) (BillingGuarantees d)
      (Leaves (BillingRelies d) (BillingGuarantees d) fun _ b => Trialled b d.verify.userId)
      (do
        let accountId ← ensureBillingAccount d.verify.userId d.billing
        commitNow
        startAccountTrial accountId d.billing) false id v := by
  unfold ensureBillingAccount findAccountId
  rw [bind_assoc]
  refine abides_query_bind fun s₁ hs₁ => ?_
  have hview₁ := hs₁.trans hv
  have hnone : accountOf (id s₁) d.verify.userId = none := by
    have howned : s₁.accounts.rows.filter (fun a => a.ownerUserId == d.verify.userId) = [] :=
      congrArg TrialView.owned hview₁
    unfold accountOf
    rw [id_eq, howned]
    rfl
  rw [hnone, bind_assoc]
  refine abides_modifyChecked_bind fun s₂ hs₂ _ _ => ?_
  rw [pure_bind]
  refine abides_commitNow_bind fun s₃ hs₃ => ?_
  have hview₃ := hs₃.trans (hs₂.trans hview₁)
  have hview := view_insertAccount (d := d) s₃ (congrArg TrialView.taken hview₃)
  rw [hview₃] at hview
  exact ⟨⟨fun _ h => view_insertAccount_apart h, fun _ hne h => trialled_insertAccount hne h⟩,
    abides_startAccountTrial hview⟩

end walk

def AuthRelies (d : LoginDraw) (a b : AuthDb) : Prop :=
  b.users.has d.verify.userId = a.users.has d.verify.userId

def AuthGuarantees (d : LoginDraw) (a b : AuthDb) : Prop :=
  ∀ userId, userId ≠ d.verify.userId → b.users.has userId = a.users.has userId

/-- A new user has the drawn id, and no other has. -/
structure SignedIn (d : LoginDraw) (r : AuthSession) (dirty : Bool) (f : AuthDb → AuthDb)
    (_ : AuthDb) : Prop where
  clean : dirty = false
  nothing : f = id
  new : r.isNewUser = true → r.userId = d.verify.userId
  known : r.isNewUser = false → r.userId ≠ d.verify.userId

theorem users_markVerified (db : AuthDb) (channel : Channel) (userId k : ℕ) :
    (db.markVerified channel userId).users.has k = db.users.has k := by
  have hsame : ∀ u : User, (if u.id == userId then u.verify channel else u).id = u.id := by
    intro u
    split_ifs
    · exact u.verify_id channel
    · rfl
  rw [Bool.eq_iff_iff, Table.has_iff, Table.has_iff]
  change (∃ u ∈ db.users.update _ _ (User.verify_id channel), u.id = k) ↔ _
  simp only [Table.mem_update]
  constructor
  · rintro ⟨_, ⟨u, hu, rfl⟩, hk⟩
    exact ⟨u, hu, (hsame u).symm.trans hk⟩
  · rintro ⟨u, hu, hk⟩
    exact ⟨_, ⟨u, hu, rfl⟩, (hsame u).trans hk⟩

section auth
variable {cfg : AuthConfig} {channel : Channel} {value : String} {d : LoginDraw} {v : AuthDb}

theorem abides_markVerified {user : User} {isNew : Bool}
    (hnew : isNew = true → user.id = d.verify.userId) (hknown : isNew = false → user.id ≠ d.verify.userId) :
    Abides (AuthRelies d) (AuthGuarantees d) (SignedIn d)
      (if user.verified channel then
          (pure (issueSession cfg channel user isNew d.verify.issuedAt) : AuthProgram AuthSession)
        else do
          markVerified channel user.id
          commitNow
          return issueSession cfg channel user isNew d.verify.issuedAt) false id v := by
  split_ifs
  · exact ⟨rfl, rfl, hnew, hknown⟩
  · refine abides_modifyChecked_bind fun _ _ _ _ => abides_commitNow_bind fun s _ => ⟨?_, ?_⟩
    · exact fun userId _ => users_markVerified s channel user.id userId
    · exact ⟨rfl, rfl, hnew, hknown⟩

theorem abides_signIn (hv : v.users.has d.verify.userId = false) :
    Abides (AuthRelies d) (AuthGuarantees d) (SignedIn d) (signIn cfg channel value d.verify) false
      id v := by
  unfold signIn findOrCreate createUser
  rw [bind_assoc]
  refine abides_write_bind fun s₁ hs₁ => ?_
  rw [bind_assoc]
  have hfree₁ : s₁.users.has d.verify.userId = false := hs₁.trans hv
  generalize (id s₁).userTaken channel value d.verify.userId = taken
  refine abides_commitNow_bind fun s₂ hs₂ => ⟨fun userId hne => ?_, ?_⟩
  · cases taken with
    | true => rfl
    | false =>
      change (s₂.users.insertNew _).has userId = _
      rw [Table.has_insertNew]
      simp [newUser, Ne.symm hne]
  · cases taken with
    | true =>
      rw [if_pos rfl, bind_assoc]
      refine abides_query_bind fun s₃ hs₃ => ?_
      rw [bind_assoc]
      refine abides_orThrow_bind fun user huser => abides_markVerified (by simp) fun _ hid => ?_
      have hfree₃ : s₃.users.has d.verify.userId = false := hs₃.trans (hs₂.trans hfree₁)
      exact Table.has_eq_false_iff.mp hfree₃ user (Table.mem_of_find? huser).1 hid
    | false => exact abides_markVerified (fun _ => rfl) (by simp)

theorem abides_verify (cfg : AuthConfig) (scrypt : String → String → String) (channel : Channel)
    (request : VerifyOtpRequest) (hv : v.users.has d.verify.userId = false) :
    Abides (AuthRelies d) (AuthGuarantees d) (SignedIn d)
      (verifyChallenge cfg scrypt channel request d.verify) false id v := by
  unfold verifyChallenge
  refine abides_query_bind fun s₁ hs₁ => abides_orThrow_bind fun c _ =>
    abides_orThrow_bind fun value _ => abides_refuse_bind fun _ => ?_
  split_ifs
  · refine abides_modifyChecked_bind fun s₂ hs₂ _ _ => abides_commitNow_bind fun s₃ hs₃ => ⟨?_, ?_⟩
    · exact fun _ _ => rfl
    · exact abides_signIn (hs₃.trans (hs₂.trans (hs₁.trans hv)))
  · exact abides_modifyChecked_bind fun _ _ _ _ => abides_commitNow_bind fun _ _ =>
      ⟨fun _ _ => rfl, trivial⟩

end auth

def Relies (d : LoginDraw) (a b : SignupDb) : Prop :=
  AuthRelies d a.auth b.auth ∧ BillingRelies d a.billing b.billing

structure Guarantees (d : LoginDraw) (a b : SignupDb) : Prop where
  apart : ∀ d', Apart d d' → Relies d' a b
  trialled : ∀ userId, userId ≠ d.verify.userId →
    Trialled a.billing userId → Trialled b.billing userId

/-- What a call leaves for the user it has made. -/
def LeavesTrial (d : LoginDraw) (r : SessionResponse) (db : SignupDb) : Prop :=
  r.userId = d.verify.userId → Trialled db.billing r.userId

theorem view_of_unnamed {d : LoginDraw} {db : SignupDb} (h : Unnamed d db) :
    view d db.billing = noTrial := by
  have howned : db.billing.accounts.rows.filter (fun a => a.ownerUserId == d.verify.userId) = [] := by
    rw [List.filter_eq_nil_iff]
    exact fun a ha => by simpa using h.owner a ha
  have hgrants : db.billing.grants.rows.filter
      (fun g => g.accountId == some d.billing.accountId) = [] := by
    rw [List.filter_eq_nil_iff]
    exact fun g hg => by simpa using h.grants g hg
  have hcredits : (fun l => (db.billing.creditLedger l).rows.filter
      (concerns l d.billing.accountId)) = fun _ => [] := by
    funext l
    rw [List.filter_eq_nil_iff]
    intro r hr
    obtain ⟨haccount, hkey⟩ := h.credits l r hr
    simp [concerns, haccount, hkey]
  unfold view
  rw [howned, hgrants, hcredits, h.account, h.grant]
  rfl

theorem program_eq (cfg : AuthConfig) (scrypt : String → String → String) (call : LoginCall) :
    call.program cfg scrypt =
      login (verifyChallenge cfg scrypt call.channel) call.request call.draw := by
  obtain ⟨channel, request, draw⟩ := call
  cases channel <;> rfl

theorem abides_maybeStartTrial {d : LoginDraw} {session : AuthSession} {v : SignupDb}
    (hnew : session.isNewUser = true → session.userId = d.verify.userId)
    (hknown : session.isNewUser = false → session.userId ≠ d.verify.userId)
    (hv : view d v.billing = noTrial) :
    Abides (Relies d) (Guarantees d) (Leaves (Relies d) (Guarantees d) (LeavesTrial d))
      (do
        maybeStartTrial session d.billing
        return toSessionResponse session) false id v := by
  unfold maybeStartTrial
  cases hisNew : session.isNewUser with
  | false =>
    intro s hs
    refine ⟨⟨fun _ _ => ⟨rfl, rfl⟩, fun _ _ h => h⟩, fun he => ?_⟩
    exact absurd he (hknown hisNew)
  | true =>
    have huser := hnew hisNew
    have hone : (do
        let accountId ← onBilling (ensureBillingAccount session.userId d.billing)
        commitNow
        onBilling (startAccountTrial accountId d.billing)) = onBilling (do
          let accountId ← ensureBillingAccount d.verify.userId d.billing
          commitNow
          startAccountTrial accountId d.billing) := by
      unfold onBilling
      rw [huser, Part.run_bind, mapError_bind]
      rfl
    rw [if_pos rfl, hone]
    have hbilling := abides_part billingPart SignupLock.billing (Relies d) (Guarantees d)
      (fun _ => True) (v := v) (fun _ _ h => h.2) (fun _ _ _ h => h)
      (fun _ _ h => h) (fun s t _ hg => ⟨fun d' h => ⟨rfl, hg.apart d' h⟩, hg.trialled⟩) trivial
      (abides_trial hv)
    have hmapped := abides_mapError (g := AuthError.refused) hbilling
    refine abides_bind (abides_mono (fun r dirty f s hq => ?_) hmapped)
    obtain ⟨g, rfl, -, hleaves⟩ := hq
    intro s' hs'
    obtain ⟨hg, htrialled⟩ := hleaves s'.billing hs'.2
    exact ⟨⟨fun d' h => ⟨rfl, hg.apart d' h⟩, hg.trialled⟩, fun he => he ▸ htrialled⟩

theorem abides_login (cfg : AuthConfig) (scrypt : String → String → String) (call : LoginCall)
    {db : SignupDb} (h : Unnamed call.draw db) :
    Abides (Relies call.draw) (Guarantees call.draw)
      (Leaves (Relies call.draw) (Guarantees call.draw) (LeavesTrial call.draw))
      (call.program cfg scrypt) false id db := by
  rw [program_eq]
  have hauth := abides_part authPart SignupLock.auth (Relies call.draw)
    (Guarantees call.draw) (fun s => view call.draw s.billing = noTrial) (v := db)
    (fun _ _ h => h.1) (fun _ _ h hk => h.2.trans hk) (fun _ _ hk => hk)
    (fun s t _ hg => ⟨fun d' h => ⟨hg _ h.user.symm, rfl⟩, fun _ _ h => h⟩) (view_of_unnamed h)
    (abides_verify cfg scrypt call.channel call.request h.user)
  refine abides_bind (abides_mono ?_ hauth)
  rintro session dirty f s ⟨g, rfl, hview, hsigned⟩
  obtain ⟨rfl, rfl, hnew, hknown⟩ := hsigned
  exact abides_maybeStartTrial hnew hknown hview

section together
variable (calls : List LoginCall)

def relies (t : ℕ) (a b : SignupDb) : Prop :=
  match calls[t]? with
  | some call => Relies call.draw a b
  | none => True

def guarantees (t : ℕ) (a b : SignupDb) : Prop :=
  match calls[t]? with
  | some call => Guarantees call.draw a b
  | none => False

def leavesTrial (t : ℕ) (r : SessionResponse) (db : SignupDb) : Prop :=
  match calls[t]? with
  | some call => LeavesTrial call.draw r db
  | none => True

variable {calls} {db : SignupDb}

theorem compatible (hdrawn : Drawn db calls) :
    Compatible (relies calls) (guarantees calls) (leavesTrial calls) fun s =>
      ∀ userId, db.auth.users.has userId = true → Trialled s.billing userId where
  refl t s := by
    unfold relies
    cases calls[t]? with
    | none => trivial
    | some call => exact ⟨rfl, rfl⟩
  trans t a b c hab hbc := by
    unfold relies at hab hbc ⊢
    cases hcall : calls[t]? with
    | none => trivial
    | some call =>
      rw [hcall] at hab hbc
      exact ⟨hbc.1.trans hab.1, hbc.2.trans hab.2⟩
  relied t u a b hne hg := by
    unfold guarantees at hg
    unfold relies
    cases hcall : calls[t]? with
    | none => simp [hcall] at hg
    | some call =>
      rw [hcall] at hg
      cases hother : calls[u]? with
      | none => trivial
      | some other => exact hg.apart _ (hdrawn.apart t u call other hne hcall hother)
  left t u r a b hne hleft hg := by
    unfold guarantees at hg
    unfold leavesTrial at hleft ⊢
    cases hcall : calls[t]? with
    | none => simp [hcall] at hg
    | some call =>
      rw [hcall] at hg
      cases hother : calls[u]? with
      | none => trivial
      | some other =>
        rw [hother] at hleft
        intro he
        have hapart := (hdrawn.apart t u call other hne hcall hother).user
        exact hg.trialled r.userId (he ▸ hapart.symm) (hleft he)
  invariant t a b hold hg := by
    unfold guarantees at hg
    cases hcall : calls[t]? with
    | none => simp [hcall] at hg
    | some call =>
      rw [hcall] at hg
      intro userId huser
      refine hg.trialled userId (fun he => ?_) (hold userId huser)
      have hfree := (hdrawn.fresh call (List.mem_of_getElem? hcall)).user
      rw [← he, huser] at hfree
      cases hfree

theorem secured (cfg : AuthConfig) (scrypt : String → String → String) (hdrawn : Drawn db calls)
    (hold : ∀ userId, db.auth.users.has userId = true → Trialled db.billing userId)
    (moves : List Move) :
    Secured (relies calls) (guarantees calls) (leavesTrial calls)
      (fun s => ∀ userId, db.auth.users.has userId = true → Trialled s.billing userId)
      ((system cfg scrypt db calls).run moves) := by
  refine secured_run (compatible hdrawn) (secured_begin hold fun t call hcall => ?_) moves
  have hrelies : relies calls t = Relies call.draw := by
    funext a b
    simp only [relies, hcall]
  have hguarantees : guarantees calls t = Guarantees call.draw := by
    funext a b
    simp only [guarantees, hcall]
  have hleaves : leavesTrial calls t = LeavesTrial call.draw := by
    funext r b
    simp only [leavesTrial, hcall]
  rw [hrelies, hguarantees, hleaves]
  exact abides_login cfg scrypt call (hdrawn.fresh call (List.mem_of_getElem? hcall))

end together

/-- Where every login of a user waits for the call that has made the user, whoever has logged in
holds the free trial, and its credits once. -/
theorem everybody_trialled (cfg : AuthConfig) (scrypt : String → String → String) (db : SignupDb)
    (calls : List LoginCall) (moves : List Move) (hdrawn : Drawn db calls)
    (hold : ∀ userId, db.auth.users.has userId = true → Trialled db.billing userId)
    (hfirst : ∀ before m after, moves = before ++ m :: after →
      SignupFirst db calls ((system cfg scrypt db calls).run before) m) :
    EverybodyTrialled ((system cfg scrypt db calls).run moves) := by
  intro t s hs
  have hsecured := secured cfg scrypt hdrawn hold moves
  rcases List.eq_nil_or_concat moves with rfl | ⟨before, m, rfl⟩
  · simp [System.run, system, System.begin] at hs
  · simp only [List.concat_eq_append] at hs hsecured hfirst ⊢
    obtain ⟨call, hcall⟩ : ∃ call, calls[t]? = some call := by
      have hlt := (List.getElem?_eq_some_iff.mp hs).1
      rw [length_run] at hlt
      exact ⟨_, List.getElem?_eq_getElem (by simpa [system, System.begin] using hlt)⟩
    have hlast := hs
    rw [run_append] at hlast
    rcases hfirst before m [] rfl t call s hcall hlast with hknown | hown | hmade
    · exact hsecured.invariant s.userId hknown
    · have hleft := hsecured.returned t s hs
      simp only [leavesTrial, hcall] at hleft
      exact hleft hown
    · obtain ⟨u, maker, s', hmaker, hfinished, hsame, hdraw⟩ := hmade
      have hstill : ((system cfg scrypt db calls).run (before ++ [m])).slots[u]? =
          some (.finished (some (.ok s'))) := by
        rw [run_append]
        exact finished_step hfinished
      have hleft := hsecured.returned u s' hstill
      simp only [leavesTrial, hmaker] at hleft
      rw [← hsame]
      exact hleft (hsame.trans hdraw.symm)

def phoneChallenge (id : ℕ) : AuthOtpChallenge :=
  { id, phone := some "+256700000000", email := none, codeHash := ⟨"a", "123456a"⟩,
    expiresAt := 300000, consumedAt := none, attempts := 0, createdAt := 1000 }

def challengedDb : SignupDb :=
  ⟨(AuthDb.empty.insertChallenge (phoneChallenge 1)).insertChallenge (phoneChallenge 2), .empty⟩

def loginConfig : AuthConfig := ⟨300, 5, 30, 3600, false⟩

def appendSalt (code salt : String) : String := code ++ salt

def phoneLogin (challengeId userId : ℕ) : LoginCall :=
  ⟨.phone, ⟨challengeId, "123456"⟩,
    ⟨⟨2000, 2000, 2001, userId⟩, ⟨0, userId, userId, 0, "", 2002, 0⟩⟩⟩

def twoLogins : List LoginCall := [phoneLogin 1 7, phoneLogin 2 8]

/-- The first call makes the user and stops; the second finds the user and returns. -/
def haltedMoves : List Move :=
  List.replicate 5 (.advance 0) ++ [.cutOff 0] ++ List.replicate 9 (.advance 1)

theorem unnamed_challengedDb {d : LoginDraw} : Unnamed d challengedDb where
  user := rfl
  owner _ ha := absurd ha List.not_mem_nil
  account := rfl
  grant := rfl
  grants _ hg := absurd hg List.not_mem_nil
  credits l r hr := by cases l <;> exact absurd hr List.not_mem_nil

theorem drawn_twoLogins : Drawn challengedDb twoLogins := by
  refine ⟨fun t u c c' hne hc hc' => ?_, fun c _ => unnamed_challengedDb⟩
  have ht := (List.getElem?_eq_some_iff.mp hc).1
  have hu := (List.getElem?_eq_some_iff.mp hc').1
  have hlength : twoLogins.length = 2 := rfl
  obtain ⟨rfl, rfl⟩ | ⟨rfl, rfl⟩ : t = 0 ∧ u = 1 ∨ t = 1 ∧ u = 0 := by omega
  all_goals
    cases hc
    cases hc'
    exact ⟨by decide, by decide, by decide⟩

set_option maxRecDepth 8000 in
/-- A user who is logged in and has no account. -/
theorem halted_signup_has_no_trial :
    ¬ ∀ (cfg : AuthConfig) (scrypt : String → String → String) (db : SignupDb)
      (calls : List LoginCall) (moves : List Move), Drawn db calls →
      (∀ userId, db.auth.users.has userId = true → Trialled db.billing userId) →
      EverybodyTrialled ((system cfg scrypt db calls).run moves) := by
  intro h
  have htrialled := h loginConfig appendSalt challengedDb twoLogins haltedMoves drawn_twoLogins
    (fun userId huser => by cases huser) 1 ⟨7, true, 3602001⟩ (by rfl)
  obtain ⟨accountId, haccount, -⟩ := htrialled
  have hnone : accountOf ((system loginConfig appendSalt challengedDb twoLogins).run
      haltedMoves).committed.billing 7 = none := by rfl
  cases hnone.symm.trans haccount

/-- The user that a call has logged in. -/
def loggedIn (sys : SignupSystem) (t : ℕ) : Option ℕ :=
  match sys.slots[t]? with
  | some (.finished (some (.ok s))) => some s.userId
  | _ => none

theorem loggedIn_eq_some {sys : SignupSystem} {t i : ℕ} (h : loggedIn sys t = some i) :
    ∃ s, sys.slots[t]? = some (.finished (some (.ok s))) ∧ s.userId = i := by
  unfold loggedIn at h
  split at h
  · next s hs => exact ⟨s, hs, Option.some.inj h⟩
  · cases h

theorem loggedIn_of_finished {sys : SignupSystem} {t : ℕ} {s : SessionResponse}
    (h : sys.slots[t]? = some (.finished (some (.ok s)))) : loggedIn sys t = some s.userId := by
  simp [loggedIn, h]

/-- The second call finds the user that the first one has made, and waits for it. -/
def waitingMoves : List Move :=
  ([0, 1, 0, 1, 0, 0, 0, 0, 1, 0, 1, 0, 1, 0, 1, 0] ++ List.replicate 7 0 ++ [1]).map .advance

def bothLogins : SignupSystem := system loginConfig appendSalt challengedDb twoLogins

/-- Whoever has logged in at a place is user 7, and the second call is so after the first. -/
def InTurn (before : List Move) (m : Move) : Prop :=
  (loggedIn ((bothLogins.run before).step m) 0).all (· == 7) = true ∧
    (loggedIn ((bothLogins.run before).step m) 1).all
      (fun i => i == 7 && loggedIn (bothLogins.run before) 0 == some 7) = true

instance (before : List Move) (m : Move) : Decidable (InTurn before m) := instDecidableAnd

set_option maxRecDepth 8000 in
theorem inTurn_waitingMoves :
    ∀ k < waitingMoves.length, InTurn (waitingMoves.take k) (waitingMoves.getD k (.cutOff 0)) := by
  decide

theorem everybody_trialled_waiting : EverybodyTrialled (bothLogins.run waitingMoves) := by
  refine everybody_trialled loginConfig appendSalt challengedDb twoLogins waitingMoves drawn_twoLogins
    (fun userId huser => by cases huser) fun before m after hmoves => ?_
  obtain ⟨hfirst, hsecond⟩ := RunChecks.at_each (P := InTurn) inTurn_waitingMoves hmoves
  intro t call s hcall hs
  have hlogged : loggedIn ((bothLogins.run before).step m) t = some s.userId :=
    loggedIn_of_finished hs
  have ht := (List.getElem?_eq_some_iff.mp hcall).1
  have hlength : twoLogins.length = 2 := rfl
  obtain rfl | rfl : t = 0 ∨ t = 1 := by omega
  · rw [hlogged] at hfirst
    cases hcall
    have huser : s.userId = 7 := by simpa using hfirst
    exact .inr (.inl huser)
  · rw [hlogged] at hsecond
    have huser : s.userId = 7 ∧ loggedIn (bothLogins.run before) 0 = some 7 := by simpa using hsecond
    obtain ⟨s', hs', huser'⟩ := loggedIn_eq_some huser.2
    exact .inr (.inr ⟨0, phoneLogin 1 7, s', rfl, hs', huser'.trans huser.1.symm, huser.1.symm⟩)

end Akabbo.SignupTrials
