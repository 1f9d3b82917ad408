import Akabbo.OtpCooldowns
import Akabbo.RelyGuarantee

/-!
# What a session proves

Starts and verifications overlap. Whoever is given a session has presented, before it expired, the
code of a challenge to the phone or email of the user whose session it is. A phone or email that has
become verified has been so by such a code.
-/
namespace Akabbo.VerifiedSessions
open RowTable StatementProgram ReadCommitted RelyGuarantee OtpChallenges OtpCooldowns
open StatementProgram.Program (query modifyChecked accept refuse orThrow commitNow)

/-- The same challenge later: only its attempts and its use may differ. -/
def ChallengeKept (c c' : AuthOtpChallenge) : Prop :=
  c' = { c with consumedAt := c'.consumedAt, attempts := c'.attempts }

/-- The same user later: what is verified stays so. -/
structure UserKept (u u' : User) : Prop where
  same : u' = { u with phoneVerified := u'.phoneVerified, emailVerified := u'.emailVerified }
  verified : ∀ channel, u.verified channel = true → u'.verified channel = true

structure Kept (a b : AuthDb) : Prop where
  challenges : ∀ c ∈ a.challenges, ∃ c' ∈ b.challenges, ChallengeKept c c'
  users : ∀ u ∈ a.users, ∃ u' ∈ b.users, UserKept u u'

theorem challengeKept_trans {c c' c'' : AuthOtpChallenge} (h : ChallengeKept c c')
    (h' : ChallengeKept c' c'') : ChallengeKept c c'' := by
  unfold ChallengeKept at *
  rw [h', h]

theorem userKept_refl (u : User) : UserKept u u := ⟨rfl, fun _ h => h⟩

theorem UserKept.trans {u v w : User} (h : UserKept u v) (h' : UserKept v w) : UserKept u w where
  same := by rw [h'.same, h.same]
  verified channel hu := h'.verified channel (h.verified channel hu)

theorem UserKept.identifier_eq {u u' : User} (h : UserKept u u') (channel : Channel) :
    u'.identifier channel = u.identifier channel := by
  rw [h.same]
  cases channel <;> rfl

theorem UserKept.id_eq {u u' : User} (h : UserKept u u') : u'.id = u.id := by rw [h.same]

theorem userKept_verify (channel : Channel) (u : User) : UserKept u (u.verify channel) := by
  constructor
  · cases channel <;> rfl
  · intro other h
    cases channel <;> cases other <;> first | rfl | exact h

theorem kept_refl (a : AuthDb) : Kept a a := ⟨fun c hc => ⟨c, hc, rfl⟩, fun u hu => ⟨u, hu, userKept_refl u⟩⟩

theorem kept_trans {a b c : AuthDb} (h : Kept a b) (h' : Kept b c) : Kept a c where
  challenges x hx := by
    obtain ⟨y, hy, hxy⟩ := h.challenges x hx
    obtain ⟨z, hz, hyz⟩ := h'.challenges y hy
    exact ⟨z, hz, challengeKept_trans hxy hyz⟩
  users x hx := by
    obtain ⟨y, hy, hxy⟩ := h.users x hx
    obtain ⟨z, hz, hyz⟩ := h'.users y hy
    exact ⟨z, hz, hxy.trans hyz⟩

section proofs
variable (scrypt : String → String → String) (calls : List AuthCall)

/-- A challenge whose code the request has, presented in time. -/
def Coded (channel : Channel) (request : VerifyOtpRequest) (draw : VerifyDraw) (value : String)
    (db : AuthDb) : Prop :=
  ∃ c ∈ db.challenges, c.id = request.challengeId ∧ c.identifier channel = some value ∧
    c.codeHash.verifyOtp scrypt request.code = true ∧ draw.checkedAt ≤ c.expiresAt

/-- A call has presented the code of a challenge to the user's phone or email. -/
def Proves (t : ℕ) (channel : Channel) (userId : ℕ) (db : AuthDb) : Prop :=
  ∃ (request : VerifyOtpRequest) (draw : VerifyDraw) (value : String),
    calls[t]? = some (.verify channel request draw) ∧ Coded scrypt channel request draw value db ∧
    ∃ u ∈ db.users, u.id = userId ∧ u.identifier channel = some value

/-- What is verified was so at the start or has been proved. -/
def Sound (start db : AuthDb) : Prop :=
  ∀ u ∈ db.users, ∀ channel, u.verified channel = true →
    (∃ u₀ ∈ start.users, u₀.id = u.id ∧ u₀.verified channel = true) ∨
      ∃ t, Proves scrypt calls t channel u.id db

/-- The session of a call is that of a user whose phone or email a code has proved. One that says that
the phone is verified is that of a user whose row says so. -/
def SessionProved (t : ℕ) (result : AuthResult) (db : AuthDb) : Prop :=
  ∀ session, result = .session session →
    ∃ channel, Proves scrypt calls t channel session.userId db ∧
      (session.phoneVerified = true →
        ∃ u ∈ db.users, u.id = session.userId ∧ u.phoneVerified = true)

/-- The user id that a call gives. -/
def drawnUser : AuthCall → Option ℕ
  | .verify _ _ draw => some draw.userId
  | .start .. => none

def Drawn : Prop :=
  ∀ (t u : ℕ) c c' id, calls[t]? = some c → calls[u]? = some c' → drawnUser c = some id →
    drawnUser c' = some id → t = u

structure Relies (t : ℕ) (a b : AuthDb) : Prop where
  kept : Kept a b
  spared : ∀ c id, calls[t]? = some c → drawnUser c = some id → b.users.has id = true →
    a.users.has id = true

structure Guarantees (start : AuthDb) (t : ℕ) (a b : AuthDb) : Prop where
  kept : Kept a b
  sound : Sound scrypt calls start a → Sound scrypt calls start b
  own : ∀ id, b.users.has id = true → a.users.has id = true ∨
    ∃ c, calls[t]? = some c ∧ drawnUser c = some id

variable {scrypt calls} {start a b v : AuthDb} {cfg : AuthConfig} {t u : ℕ} {channel : Channel}
  {request : VerifyOtpRequest} {draw : VerifyDraw} {value : String}

theorem Coded.kept (h : Coded scrypt channel request draw value a) (hkept : Kept a b) :
    Coded scrypt channel request draw value b := by
  obtain ⟨c, hc, hid, hvalue, hcode, hexpiry⟩ := h
  obtain ⟨c', hc', hcc'⟩ := hkept.challenges c hc
  refine ⟨c', hc', ?_, ?_, ?_, ?_⟩
  · rw [hcc']
    exact hid
  · rw [hcc']
    cases channel <;> exact hvalue
  · rw [hcc']
    exact hcode
  · rw [hcc']
    exact hexpiry

theorem Proves.kept {userId : ℕ} (h : Proves scrypt calls t channel userId a) (hkept : Kept a b) :
    Proves scrypt calls t channel userId b := by
  obtain ⟨request, draw, value, hcall, hcoded, u, hu, huser, hown⟩ := h
  obtain ⟨u', hu', huu'⟩ := hkept.users u hu
  exact ⟨request, draw, value, hcall, hcoded.kept hkept, u', hu', huu'.id_eq.trans huser,
    (huu'.identifier_eq channel).trans hown⟩

theorem relies_trans (t : ℕ) (a b c : AuthDb) (h : Relies calls t a b) (h' : Relies calls t b c) :
    Relies calls t a c where
  kept := kept_trans h.kept h'.kept
  spared c id hc hid hhas := h.spared c id hc hid (h'.spared c id hc hid hhas)

/-- A change that verifies nobody keeps what is sound. -/
theorem sound_kept (hkept : Kept a b)
    (hold : ∀ u' ∈ b.users, ∀ channel, u'.verified channel = true →
      ∃ u ∈ a.users, u.id = u'.id ∧ u.verified channel = true)
    (ha : Sound scrypt calls start a) : Sound scrypt calls start b := by
  intro u' hu' channel hverified
  obtain ⟨u, hu, hid, hv⟩ := hold u' hu' channel hverified
  rw [← hid]
  exact (ha u hu channel hv).imp_right fun ⟨t, hproves⟩ => ⟨t, hproves.kept hkept⟩

theorem guarantees_challenges (hkept : ∀ c ∈ a.challenges, ∃ c' ∈ b.challenges, ChallengeKept c c')
    (hsame : b.users = a.users) : Guarantees scrypt calls start t a b where
  kept := ⟨hkept, fun u hu => ⟨u, hsame ▸ hu, userKept_refl u⟩⟩
  sound := sound_kept ⟨hkept, fun u hu => ⟨u, hsame ▸ hu, userKept_refl u⟩⟩
    fun u hu _ hv => ⟨u, hsame ▸ hu, rfl, hv⟩
  own _ hid := .inl (hsame ▸ hid)

theorem compatible (hdrawn : Drawn calls) :
    Compatible (Relies calls) (Guarantees scrypt calls start) (SessionProved scrypt calls)
      (Sound scrypt calls start) where
  refl _ a := ⟨kept_refl a, fun _ _ _ _ h => h⟩
  trans := relies_trans
  relied t u a b hne h := by
    refine ⟨h.kept, fun c id hc hid hhas => ?_⟩
    rcases h.own id hhas with hold | ⟨c', hc', hid'⟩
    · exact hold
    · exact absurd (hdrawn t u c' c id hc' hc hid' hid) hne
  left t u r a b _ hproved h session hr := by
    obtain ⟨channel, hproves, hphone⟩ := hproved session hr
    refine ⟨channel, hproves.kept h.kept, fun hv => ?_⟩
    obtain ⟨x, hx, hid, hxv⟩ := hphone hv
    obtain ⟨x', hx', hxx'⟩ := h.kept.users x hx
    exact ⟨x', hx', hxx'.id_eq.trans hid, hxx'.verified .phone hxv⟩
  invariant _ _ _ ha h := h.sound ha

theorem guarantees_updateChallenge (id : ℕ) {f : AuthOtpChallenge → AuthOtpChallenge}
    (hf : ∀ c, (f c).id = c.id) (hkeeps : ∀ c, ChallengeKept c (f c)) :
    Guarantees scrypt calls start t a (a.updateChallenge id f hf) := by
  refine guarantees_challenges (fun c hc => ?_) rfl
  refine ⟨_, mem_updateChallenge.mpr ⟨c, hc, rfl⟩, ?_⟩
  split_ifs
  · exact hkeeps c
  · rfl

theorem mem_markVerified {userId : ℕ} {u : User} : u ∈ (a.markVerified channel userId).users ↔
    ∃ r ∈ a.users, u = if r.id == userId then r.verify channel else r := by
  change u ∈ a.users.update _ (User.verify channel) (User.verify_id channel) ↔ _
  exact Table.mem_update

theorem guarantees_markVerified {userId : ℕ} (hproves : Proves scrypt calls t channel userId a) :
    Guarantees scrypt calls start t a (a.markVerified channel userId) := by
  have hkept : Kept a (a.markVerified channel userId) := by
    refine ⟨fun c hc => ⟨c, hc, rfl⟩, fun u hu => ⟨_, mem_markVerified.mpr ⟨u, hu, rfl⟩, ?_⟩⟩
    split_ifs
    · exact userKept_verify channel u
    · exact userKept_refl u
  refine ⟨hkept, fun ha u hu other hverified => ?_, fun id hid => .inl ?_⟩
  · obtain ⟨r, hr, rfl⟩ := mem_markVerified.mp hu
    have hold (hv : r.verified other = true) :=
      (ha r hr other hv).imp_right fun ⟨t, hproves⟩ => Exists.intro t (hproves.kept hkept)
    split_ifs at hverified ⊢ with hid
    · rw [User.verify_id]
      by_cases hsame : other = channel
      · have hid : r.id = userId := by simpa using hid
        rw [hsame, hid]
        exact .inr ⟨t, hproves.kept hkept⟩
      · refine hold ?_
        cases channel <;> cases other <;> first | exact absurd rfl hsame | exact hverified
    · exact hold hverified
  · obtain ⟨u, hu, rfl⟩ := Table.has_iff.mp hid
    obtain ⟨r, hr, rfl⟩ := mem_markVerified.mp hu
    refine Table.has_iff.mpr ⟨r, hr, ?_⟩
    split_ifs
    · exact (User.verify_id channel r).symm
    · rfl

theorem guarantees_insertUser (hcall : calls[t]? = some (.verify channel request draw)) :
    Guarantees scrypt calls start t a (a.insertUser (newUser channel value draw.userId)) := by
  have hkept : Kept a (a.insertUser (newUser channel value draw.userId)) :=
    ⟨fun c hc => ⟨c, hc, rfl⟩, fun u hu => ⟨u, Table.mem_insertNew_of_mem hu, userKept_refl u⟩⟩
  refine ⟨hkept, sound_kept hkept fun u hu other hverified => ?_, fun id hid => ?_⟩
  · rcases Table.mem_insertNew_cases hu with hu | rfl
    · exact ⟨u, hu, rfl, hverified⟩
    · cases other <;> cases hverified
  · obtain ⟨u, hu, rfl⟩ := Table.has_iff.mp hid
    rcases Table.mem_insertNew_cases hu with hu | rfl
    · exact .inl (Table.has_iff.mpr ⟨u, hu, rfl⟩)
    · exact .inr ⟨_, hcall, rfl⟩

theorem guarantees_insertChallenge (c : AuthOtpChallenge) :
    Guarantees scrypt calls start t a (a.insertChallenge c) :=
  guarantees_challenges (fun c hc => ⟨c, Table.mem_insertNew_of_mem hc, rfl⟩) rfl

/-- What a verification ends with. -/
def Proved (scrypt : String → String → String) (calls : List AuthCall) (t : ℕ) (channel : Channel)
    (session : AuthSession) (dirty : Bool) (f : AuthDb → AuthDb) (db : AuthDb) : Prop :=
  dirty = false ∧ f = id ∧ Proves scrypt calls t channel session.userId db ∧
    (session.phoneVerified = true → ∃ u ∈ db.users, u.id = session.userId ∧ u.phoneVerified = true)

/-- The user that was found or made, whose session it is. -/
theorem abides_settled {user : User} {isNew : Bool} {issuedAt : ℕ}
    (hcall : calls[t]? = some (.verify channel request draw))
    (hcoded : Coded scrypt channel request draw value v) (huser : ∃ u ∈ v.users, UserKept user u)
    (hvalue : user.identifier channel = some value) :
    Abides (Relies calls t) (Guarantees scrypt calls start t) (Proved scrypt calls t channel)
      (if user.verified channel then
          (pure (issueSession cfg channel user isNew issuedAt) : AuthProgram AuthSession)
        else do
          markVerified channel user.id
          commitNow
          return issueSession cfg channel user isNew issuedAt) false id v := by
  have hproves {s : AuthDb} (hs : Kept v s) : Proves scrypt calls t channel user.id s := by
    obtain ⟨u, hu, huu⟩ := huser
    obtain ⟨u', hu', huu'⟩ := hs.users u hu
    have hfollows := huu.trans huu'
    exact ⟨request, draw, value, hcall, hcoded.kept hs, u', hu', hfollows.id_eq,
      (hfollows.identifier_eq channel).trans hvalue⟩
  have hphone {s : AuthDb} (hs : Kept v s) (hverified : user.phoneVerified = true) :
      ∃ u ∈ s.users, u.id = user.id ∧ u.phoneVerified = true := by
    obtain ⟨u, hu, huu⟩ := huser
    obtain ⟨u', hu', huu'⟩ := hs.users u hu
    have hfollows := huu.trans huu'
    exact ⟨u', hu', hfollows.id_eq, hfollows.verified .phone hverified⟩
  split_ifs with hverified
  · refine ⟨rfl, rfl, hproves (kept_refl v), fun hv => hphone (kept_refl v) ?_⟩
    cases channel with
    | phone => exact hverified
    | email => exact hv
  · refine abides_modifyChecked_bind fun s₁ hs₁ _ _ => abides_commitNow_bind fun s₂ hs₂ => ?_
    have hkept := kept_trans hs₁.kept hs₂.kept
    have hmarked : Guarantees scrypt calls start t s₂ (s₂.markVerified channel user.id) :=
      guarantees_markVerified (hproves hkept)
    refine ⟨hmarked, rfl, rfl, (hproves hkept).kept hmarked.kept, fun hv => ?_⟩
    cases channel with
    | phone =>
      obtain ⟨-, -, -, -, -, u, hu, hid, -⟩ := hproves hkept
      refine ⟨_, mem_markVerified.mpr ⟨u, hu, rfl⟩, ?_, ?_⟩
      · rw [if_pos (by simpa using hid), User.verify_id]
        exact hid
      · rw [if_pos (by simpa using hid)]
        rfl
    | email => exact hphone (kept_trans hkept hmarked.kept) hv

/-- What is free stays so for the call that may draw it. -/
theorem Relies.free (h : Relies calls t a b)
    (hcall : calls[t]? = some (.verify channel request draw))
    (hfree : a.users.has draw.userId = false) : b.users.has draw.userId = false := by
  by_contra hhas
  have hbefore := h.spared _ _ hcall rfl (by simpa using hhas)
  rw [hfree] at hbefore
  cases hbefore

theorem abides_signIn (hcall : calls[t]? = some (.verify channel request draw))
    (hcoded : Coded scrypt channel request draw value v)
    (hfree : v.users.has draw.userId = false) :
    Abides (Relies calls t) (Guarantees scrypt calls start t) (Proved scrypt calls t channel)
      (signIn cfg channel value draw) false id v := by
  have hvalue : (newUser channel value draw.userId).identifier channel = some value := by
    cases channel <;> rfl
  unfold signIn findOrCreate createUser
  rw [bind_assoc]
  refine abides_write_bind fun s₁ hs₁ => ?_
  rw [bind_assoc]
  generalize (id s₁).userTaken channel value draw.userId = taken
  refine abides_commitNow_bind fun s₂ hs₂ => ?_
  have hkept := kept_trans hs₁.kept hs₂.kept
  cases taken with
  | true =>
    refine ⟨guarantees_challenges (fun c hc => ⟨c, hc, rfl⟩) rfl, ?_⟩
    rw [if_pos rfl, bind_assoc]
    refine abides_query_bind fun s₃ hs₃ => ?_
    rw [bind_assoc]
    refine abides_orThrow_bind fun user huser => ?_
    obtain ⟨hmem, hfound⟩ := Table.mem_of_find? huser
    exact abides_settled hcall ((hcoded.kept hkept).kept hs₃.kept) ⟨user, hmem, userKept_refl user⟩
      (by simpa using hfound)
  | false =>
    have hinserted :
        Guarantees scrypt calls start t s₂ (s₂.insertUser (newUser channel value draw.userId)) :=
      guarantees_insertUser hcall
    have hfree₂ : s₂.users.has draw.userId = false := hs₂.free hcall (hs₁.free hcall hfree)
    refine ⟨hinserted, abides_settled hcall ((hcoded.kept hkept).kept hinserted.kept)
      ⟨_, ?_, userKept_refl _⟩ hvalue⟩
    change newUser channel value draw.userId ∈ (s₂.users.insertNew _).rows
    rw [Table.insertNew_rows hfree₂]
    exact List.mem_append_right _ List.mem_cons_self

theorem expiry_of_passed {c : AuthOtpChallenge} {checkedAt : ℕ}
    (h : challengeRefusal cfg c checkedAt = none) : checkedAt ≤ c.expiresAt := by
  unfold challengeRefusal at h
  split_ifs at h with _ hexpired
  omega

theorem abides_verifyChallenge (hcall : calls[t]? = some (.verify channel request draw))
    (hfree : v.users.has draw.userId = false) :
    Abides (Relies calls t) (Guarantees scrypt calls start t) (Proved scrypt calls t channel)
      (verifyChallenge cfg scrypt channel request draw) false id v := by
  unfold verifyChallenge
  refine abides_query_bind fun s₁ hs₁ => abides_orThrow_bind fun c hfound =>
    abides_orThrow_bind fun value hvalue => abides_refuse_bind fun hpassed => ?_
  split_ifs with hcode
  · refine abides_modifyChecked_bind fun s₂ hs₂ _ _ => abides_commitNow_bind fun s₃ hs₃ => ?_
    have hcoded : Coded scrypt channel request draw value s₁ :=
      ⟨c, Table.get?_mem hfound, Table.get?_key hfound, (Option.filter_eq_some_iff.mp hvalue).1,
        hcode, expiry_of_passed hpassed⟩
    have hconsumed : Guarantees scrypt calls start t s₃
        (s₃.updateChallenge c.id (AuthOtpChallenge.consume draw.consumedAt) fun _ => rfl) :=
      guarantees_updateChallenge c.id _ fun _ => rfl
    exact ⟨hconsumed, abides_signIn hcall
      (((hcoded.kept hs₂.kept).kept hs₃.kept).kept hconsumed.kept)
      (hs₃.free hcall (hs₂.free hcall (hs₁.free hcall hfree)))⟩
  · exact abides_modifyChecked_bind fun _ _ _ _ => abides_commitNow_bind fun _ _ =>
      ⟨guarantees_updateChallenge c.id _ fun _ => rfl, trivial⟩

theorem abides_startChallenge {draw : StartDraw} :
    Abides (Relies calls t) (Guarantees scrypt calls start t)
      (fun _ dirty f _ => dirty = false ∧ f = id)
      (startChallenge cfg scrypt channel value draw) false id v := by
  have hinsert (v : AuthDb) (result : StartOtpResult) :
      Abides (Relies calls t) (Guarantees scrypt calls start t)
        (fun _ dirty f _ => dirty = false ∧ f = id)
        (insertChallenge (newChallenge cfg scrypt channel value draw) >>= fun _ =>
          commitNow >>= fun _ => (pure result : AuthProgram StartOtpResult)) false id v :=
    abides_modifyChecked_bind fun _ _ _ _ => abides_commitNow_bind fun _ _ =>
      ⟨guarantees_insertChallenge _, rfl, rfl⟩
  unfold startChallenge assertCooldownElapsed
  by_cases hzero : cfg.otpCooldownSeconds = 0
  · rw [if_pos hzero, pure_bind]
    exact hinsert v _
  · rw [if_neg hzero, bind_assoc]
    exact abides_query_bind fun s _ => abides_refuse_bind fun _ => hinsert s _

theorem guarantees_same : Guarantees scrypt calls start t a a :=
  guarantees_challenges (fun c hc => ⟨c, hc, rfl⟩) rfl

theorem abides_call {c : AuthCall} (hcall : calls[t]? = some c)
    (hfree : ∀ id, drawnUser c = some id → v.users.has id = false) :
    Abides (Relies calls t) (Guarantees scrypt calls start t)
      (Leaves (Relies calls t) (Guarantees scrypt calls start t) (SessionProved scrypt calls t))
      (c.program cfg scrypt) false id v := by
  cases c with
  | start channel value draw =>
    have hstart : Abides (Relies calls t) (Guarantees scrypt calls start t)
        (Leaves (Relies calls t) (Guarantees scrypt calls start t) (SessionProved scrypt calls t))
        (AuthResult.started <$> startChallenge cfg scrypt channel value draw) false id v := by
      refine abides_map (abides_mono ?_ abides_startChallenge)
      rintro result _ _ v ⟨rfl, rfl⟩ s -
      exact ⟨guarantees_same, fun session hsession => by cases hsession⟩
    cases channel <;> exact hstart
  | verify channel request draw =>
    have hverify : Abides (Relies calls t) (Guarantees scrypt calls start t)
        (Leaves (Relies calls t) (Guarantees scrypt calls start t) (SessionProved scrypt calls t))
        (AuthResult.session <$> verifyChallenge cfg scrypt channel request draw) false id v := by
      refine abides_map (abides_mono ?_ (abides_verifyChallenge hcall (hfree _ rfl)))
      rintro session _ _ v ⟨rfl, rfl, hproves, hphone⟩ s hs
      refine ⟨guarantees_same, fun session' hsession => ?_⟩
      cases hsession
      refine ⟨channel, hproves.kept hs.kept, fun hv => ?_⟩
      obtain ⟨u, hu, hid, hverified⟩ := hphone hv
      obtain ⟨u', hu', huu'⟩ := hs.kept.users u hu
      exact ⟨u', hu', huu'.id_eq.trans hid, huu'.verified .phone hverified⟩
    cases channel <;> exact hverify

/-- The user ids that the calls may draw are new, and each call has its own. -/
structure FreshUsers (calls : List AuthCall) (start : AuthDb) : Prop where
  drawn : Drawn calls
  free : ∀ c ∈ calls, ∀ id, drawnUser c = some id → start.users.has id = false

theorem secured_system (cfg : AuthConfig) (scrypt : String → String → String)
    (hfresh : FreshUsers calls start) (moves : List Move) :
    Secured (Relies calls) (Guarantees scrypt calls start) (SessionProved scrypt calls)
      (Sound scrypt calls start) ((system cfg scrypt start calls).run moves) := by
  refine secured_run (compatible hfresh.drawn) (secured_begin ?_ fun t c hc => ?_) moves
  · exact fun u hu channel hverified => .inl ⟨u, hu, rfl, hverified⟩
  · exact abides_call hc (hfresh.free c (List.mem_of_getElem? hc))

end proofs

/-- In any interleaving, a session that a call has been given is that of a user to whose phone or
email the code it presented was sent, and whatever has become verified has been so by a code. -/
theorem proved_by_code (cfg : AuthConfig) (scrypt : String → String → String) (calls : List AuthCall)
    (start : AuthDb) (hfresh : FreshUsers calls start) (moves : List Move) :
    (∀ (t : ℕ) result,
      ((system cfg scrypt start calls).run moves).slots[t]? = some (.finished (some (.ok result))) →
        SessionProved scrypt calls t result ((system cfg scrypt start calls).run moves).committed) ∧
    Sound scrypt calls start ((system cfg scrypt start calls).run moves).committed := by
  have hsecured := secured_system cfg scrypt hfresh moves
  exact ⟨hsecured.returned, hsecured.invariant⟩

def firstLogin : List AuthCall :=
  [.start .phone "+256700000000" firstDraw, .verify .phone ⟨1, "123456"⟩ ⟨2000, 2001, 2002, 7⟩]

def firstMoves : List Move := List.replicate 4 (.advance 0) ++ List.replicate 8 (.advance 1)

theorem freshUsers_firstLogin : FreshUsers firstLogin .empty := by
  refine ⟨?_, fun _ _ _ _ => rfl⟩
  rintro (_ | _ | t) (_ | _ | u) c c' id hc hc' hid hid' <;> cases hc <;> cases hc'
  · cases hid
  · cases hid
  · cases hid'
  · rfl

/-- A first login ends with the session of a verified user. -/
theorem proved_by_code_first :
    ((system smallConfig sample .empty firstLogin).run firstMoves).slots[1]? =
        some (.finished (some (.ok (.session ⟨7, true, 3602002, true⟩)))) ∧
      ∃ channel, Proves sample firstLogin 1 channel 7
        ((system smallConfig sample .empty firstLogin).run firstMoves).committed := by
  have hdone : ((system smallConfig sample .empty firstLogin).run firstMoves).slots[1]? =
      some (.finished (some (.ok (.session ⟨7, true, 3602002, true⟩)))) := rfl
  obtain ⟨hsessions, -⟩ := proved_by_code smallConfig sample firstLogin .empty
    freshUsers_firstLogin firstMoves
  obtain ⟨channel, hproves, -⟩ := hsessions 1 _ hdone _ rfl
  exact ⟨hdone, channel, hproves⟩

end Akabbo.VerifiedSessions
