import Akabbo.CommitOrder
import Akabbo.VerifiedSessions

/-!
# Whom a token speaks for

Verifications hand out a pair of tokens, a refresh token is traded for another pair, and the guard lets
an access token in. Tokens are never stored, so what a token is worth is what its signature says.
-/
namespace Akabbo.SessionTokens
open RowTable StatementProgram ReadCommitted RelyGuarantee CommitOrder OtpChallenges OtpCooldowns
  VerifiedSessions
open FirstClaim (step_advance)
open StatementProgram.Program (query refuse orThrow run_eq_ok exec_orThrow_bind exec_refuse_bind
  exec_query_bind exec_pure_eq_ok)

structure JwtPayload where
  sub : ℕ
  pv : Bool
  type : Option String
  deriving DecidableEq, Repr

/-- `jsonwebtoken` under `JWT_SECRET`: a payload is signed at a time for so many seconds, and a token
is verified against the clock, in seconds. -/
structure Jwt where
  sign : JwtPayload → ℕ → ℕ → String
  verify : String → ℕ → Option JwtPayload

/-- A signed token verifies until it expires. -/
def Jwt.Lawful (jwt : Jwt) : Prop :=
  ∀ payload issuedAt expiresIn now, jwt.verify (jwt.sign payload issuedAt expiresIn) now =
    if now < issuedAt + expiresIn then some payload else none

/-- `JWT_TTL_SECONDS` is among the settings of the codes. -/
structure TokenConfig extends AuthConfig where
  jwtRefreshTtlSeconds : ℕ
  deriving DecidableEq, Repr

def accessPayload (userId : ℕ) (phoneVerified : Bool) : JwtPayload :=
  ⟨userId, phoneVerified, some "access"⟩

def refreshPayload (userId : ℕ) (phoneVerified : Bool) : JwtPayload :=
  ⟨userId, phoneVerified, some "refresh"⟩

/-- Where a pair of tokens comes from. -/
inductive Origin
  | verified (call : ℕ)
  | refreshed (token : String) (checkedAt : ℕ)
  deriving DecidableEq, Repr

/-- A pair of tokens that `issueSession` has signed. -/
structure Issue where
  userId : ℕ
  phoneVerified : Bool
  issuedAt : ℕ
  origin : Origin
  deriving DecidableEq, Repr

section tokens
variable (cfg : TokenConfig) (jwt : Jwt)

def Issue.accessToken (i : Issue) : String :=
  jwt.sign (accessPayload i.userId i.phoneVerified) (i.issuedAt / 1000) cfg.jwtTtlSeconds

def Issue.refreshToken (i : Issue) : String :=
  jwt.sign (refreshPayload i.userId i.phoneVerified) (i.issuedAt / 1000) cfg.jwtRefreshTtlSeconds

/-- A refresh token buys a session of its user, as the user's row now is. -/
def refreshToken (token : String) (checkedAt issuedAt : ℕ) : AuthProgram AuthSession := do
  let payload ← orThrow (jwt.verify token (checkedAt / 1000))
    (.unauthorized "Invalid or expired refresh token")
  refuse (if payload.type = some "refresh" then none
    else some (.unauthorized "Invalid token type for refresh"))
  let found ← query fun db => db.users.get? payload.sub
  let user ← orThrow found (.unauthorized "User not found")
  return {
    userId := user.id
    phoneVerified := user.phoneVerified
    expiresAt := issuedAt + cfg.jwtTtlSeconds * 1000
    isNewUser := false }

structure AuthenticatedActor where
  userId : ℕ
  phoneVerified : Bool
  deriving DecidableEq, Repr

/-- Tokens without a type are access tokens. -/
def verifyAccessToken (token : String) (now : ℕ) : Option AuthenticatedActor := do
  let payload ← jwt.verify token (now / 1000)
  if payload.type.any fun type => type ≠ "" ∧ type ≠ "access" then none
  else some ⟨payload.sub, payload.pv⟩

def bearer : String := "Bearer "

/-- The guard of every route that needs a user. -/
def canActivate (authorization : Option String) (now : ℕ) : Except AuthError AuthenticatedActor :=
  match authorization.filter fun header => bearer.toList.isPrefixOf header.toList with
  | none => .error (.unauthorized "Missing bearer token")
  | some header =>
      match verifyAccessToken jwt (String.ofList (header.toList.drop bearer.length)) now with
      | none => .error (.unauthorized "Invalid or expired token")
      | some actor => .ok actor

structure TokenSystem : Type 1 where
  auth : AuthSystem
  issues : List Issue

/-- A statement of a start or a verification, or a refresh, whose one statement is a read. -/
inductive TokenMove
  | statement (m : Move)
  | refresh (token : String) (checkedAt issuedAt : ℕ)
  deriving DecidableEq, Repr

/-- The tokens that a verification returns with. -/
def issueOf (calls : List AuthCall) (e : ℕ × AuthResult) : Option Issue :=
  match e.2, calls[e.1]? with
  | .session session, some (.verify _ _ draw) =>
      some ⟨session.userId, session.phoneVerified, draw.issuedAt, .verified e.1⟩
  | _, _ => none

/-- The tokens that a refresh returns with. -/
def refreshed (token : String) (checkedAt issuedAt : ℕ) (db : AuthDb) : Option Issue :=
  match ((refreshToken cfg jwt token checkedAt issuedAt).run db).1 with
  | .ok session =>
      some ⟨session.userId, session.phoneVerified, issuedAt, .refreshed token checkedAt⟩
  | .error _ => none

variable (calls : List AuthCall)

def TokenSystem.step (s : TokenSystem) : TokenMove → TokenSystem
  | .statement m => ⟨s.auth.step m, s.issues ++ ((ends s.auth m).bind (issueOf calls)).toList⟩
  | .refresh token checkedAt issuedAt =>
      ⟨s.auth, s.issues ++ (refreshed cfg jwt token checkedAt issuedAt s.auth.committed).toList⟩

def TokenSystem.run (s : TokenSystem) (moves : List TokenMove) : TokenSystem :=
  moves.foldl (TokenSystem.step cfg jwt calls) s

def tokenSystem (scrypt : String → String → String) (start : AuthDb) : TokenSystem :=
  ⟨system cfg.toAuthConfig scrypt start calls, []⟩

def TokenSystem.tokens (s : TokenSystem) : List String :=
  s.issues.flatMap fun i => [i.accessToken cfg jwt, i.refreshToken cfg jwt]

/-- Nobody else can sign: a token that verifies has been handed out. -/
def Unforged (s : TokenSystem) (token : String) (now : ℕ) : Prop :=
  (jwt.verify token (now / 1000)).isSome = true → token ∈ s.tokens cfg jwt

end tokens

/-- The pair goes back to a verification. Each refresh on the way presented the refresh token of the
pair before, for the same user, before that token had expired. -/
inductive Descends (cfg : TokenConfig) (jwt : Jwt) (issues : List Issue) (call : ℕ) : Issue → Prop
  | verified {i : Issue} : i ∈ issues → i.origin = .verified call → Descends cfg jwt issues call i
  | refreshed {i j : Issue} {checkedAt : ℕ} : Descends cfg jwt issues call j → i ∈ issues →
      i.origin = .refreshed (j.refreshToken cfg jwt) checkedAt → i.userId = j.userId →
      checkedAt < j.issuedAt + cfg.jwtRefreshTtlSeconds * 1000 → Descends cfg jwt issues call i

section rooted
variable (cfg : TokenConfig) (jwt : Jwt) (scrypt : String → String → String)
  (calls : List AuthCall) (start : AuthDb)

/-- The pair goes back to a verification that has proved its user's phone or email. -/
def Rooted (issues : List Issue) (db : AuthDb) (i : Issue) : Prop :=
  ∃ call channel, Descends cfg jwt issues call i ∧ Proves scrypt calls call channel i.userId db ∧
    (i.phoneVerified = true → ∃ u ∈ db.users, u.id = i.userId ∧ u.phoneVerified = true)

structure Traced (s : TokenSystem) : Prop where
  secured : Secured (Relies calls) (Guarantees scrypt calls start) (SessionProved scrypt calls)
    (Sound scrypt calls start) s.auth
  rooted : ∀ i ∈ s.issues, Rooted cfg jwt scrypt calls s.issues s.auth.committed i

variable {cfg jwt scrypt calls start} {issues : List Issue} {a b : AuthDb} {s : TokenSystem}
  {token : String} {now : ℕ}

theorem descends_mono {new : List Issue} {call : ℕ} {i : Issue}
    (h : Descends cfg jwt issues call i) : Descends cfg jwt (issues ++ new) call i := by
  induction h with
  | verified hi horigin => exact .verified (List.mem_append_left _ hi) horigin
  | refreshed _ hi horigin hsame hfresh ih =>
    exact .refreshed ih (List.mem_append_left _ hi) horigin hsame hfresh

theorem rooted_kept {new : List Issue} {i : Issue} (h : Rooted cfg jwt scrypt calls issues a i)
    (hkept : Kept a b) : Rooted cfg jwt scrypt calls (issues ++ new) b i := by
  obtain ⟨call, channel, hdescends, hproves, hphone⟩ := h
  refine ⟨call, channel, descends_mono hdescends, hproves.kept hkept, fun hv => ?_⟩
  obtain ⟨u, hu, hid, hverified⟩ := hphone hv
  obtain ⟨u', hu', huu'⟩ := hkept.users u hu
  exact ⟨u', hu', huu'.id_eq.trans hid, huu'.verified .phone hverified⟩

/-- What a signed token says while it verifies. -/
theorem verify_signed (hjwt : jwt.Lawful) {payload payload' : JwtPayload} {issuedAt ttl : ℕ}
    (h : jwt.verify (jwt.sign payload (issuedAt / 1000) ttl) (now / 1000) = some payload') :
    payload' = payload ∧ now < issuedAt + ttl * 1000 := by
  rw [hjwt] at h
  split_ifs at h with hlive
  exact ⟨(Option.some.inj h).symm, by omega⟩

/-- A token that verifies belongs to a pair, by its type. -/
theorem issue_of_verified (hjwt : jwt.Lawful) (hunforged : Unforged cfg jwt s token now)
    {payload : JwtPayload} (h : jwt.verify token (now / 1000) = some payload) :
    ∃ i ∈ s.issues,
      token = i.accessToken cfg jwt ∧ payload = accessPayload i.userId i.phoneVerified ∧
          now < i.issuedAt + cfg.jwtTtlSeconds * 1000 ∨
        token = i.refreshToken cfg jwt ∧ payload = refreshPayload i.userId i.phoneVerified ∧
          now < i.issuedAt + cfg.jwtRefreshTtlSeconds * 1000 := by
  obtain ⟨i, hi, htoken⟩ := List.mem_flatMap.mp (hunforged (by rw [h]; rfl))
  simp only [List.mem_cons, List.not_mem_nil, or_false] at htoken
  refine ⟨i, hi, ?_⟩
  rcases htoken with rfl | rfl
  · exact .inl ⟨rfl, verify_signed hjwt h⟩
  · exact .inr ⟨rfl, verify_signed hjwt h⟩

theorem refreshed_eq_some {checkedAt issuedAt : ℕ} {i : Issue}
    (h : refreshed cfg jwt token checkedAt issuedAt a = some i) :
    ∃ payload, jwt.verify token (checkedAt / 1000) = some payload ∧
      payload.type = some "refresh" ∧ i.userId = payload.sub ∧
      i.origin = .refreshed token checkedAt ∧
      ∃ u ∈ a.users, u.id = i.userId ∧ u.phoneVerified = i.phoneVerified := by
  unfold refreshed at h
  split at h
  · next session hrun =>
    obtain rfl := Option.some.inj h
    obtain ⟨c, v, hexec⟩ := run_eq_ok.mp hrun
    unfold refreshToken at hexec
    obtain ⟨payload, hpayload, hexec⟩ := exec_orThrow_bind.mp hexec
    obtain ⟨htype, hexec⟩ := exec_refuse_bind.mp hexec
    rw [exec_query_bind] at hexec
    obtain ⟨u, hu, hexec⟩ := exec_orThrow_bind.mp hexec
    obtain ⟨rfl, -, -⟩ := exec_pure_eq_ok.mp hexec
    have huser : u.id = payload.sub := Table.get?_key hu
    refine ⟨payload, hpayload, ?_, huser, rfl, u, Table.get?_mem hu, rfl, rfl⟩
    by_contra hother
    rw [if_neg hother] at htype
    cases htype
  · cases h

theorem traced_refresh (hjwt : jwt.Lawful) (h : Traced cfg jwt scrypt calls start s)
    {checkedAt : ℕ} (hunforged : Unforged cfg jwt s token checkedAt) (issuedAt : ℕ) :
    Traced cfg jwt scrypt calls start (s.step cfg jwt calls (.refresh token checkedAt issuedAt)) := by
  refine ⟨h.secured, fun i hi => ?_⟩
  rcases List.mem_append.mp hi with hold | hnew
  · exact rooted_kept (h.rooted i hold) (kept_refl _)
  · obtain ⟨payload, hverify, htype, huser, horigin, u, hu, hid, hphone⟩ :=
      refreshed_eq_some (Option.mem_toList.mp hnew)
    obtain ⟨j, hj, ⟨-, rfl, -⟩ | ⟨rfl, rfl, hlive⟩⟩ := issue_of_verified hjwt hunforged hverify
    · simp [accessPayload] at htype
    · obtain ⟨call, channel, hdescends, hproves, -⟩ := h.rooted j hj
      refine ⟨call, channel, .refreshed (descends_mono hdescends) hi horigin huser hlive, ?_,
        fun hv => ⟨u, hu, hid, hphone.trans hv⟩⟩
      rw [huser]
      exact hproves

theorem slot_of_ends {sys : AuthSystem} {m : Move} {t : ℕ} {r : AuthResult}
    (h : ends sys m = some (t, r)) : (sys.step m).slots[t]? = some (.finished (some (.ok r))) := by
  obtain ⟨t, x, r, rfl, hslot, hr, he⟩ := ends_eq_some h
  cases he
  have hlt := (List.getElem?_eq_some_iff.mp hslot).1
  rw [step_advance hslot]
  simp [Session.advance, hr, hlt]

theorem issueOf_eq_some {t : ℕ} {r : AuthResult} {i : Issue} (h : issueOf calls (t, r) = some i) :
    ∃ session, r = .session session ∧ i.userId = session.userId ∧
      i.phoneVerified = session.phoneVerified ∧ i.origin = .verified t := by
  unfold issueOf at h
  split at h
  · next session _ _ draw hr _ =>
    obtain rfl := Option.some.inj h
    exact ⟨session, hr, rfl, rfl, rfl⟩
  · cases h

theorem kept_step (hfresh : FreshUsers calls start) (h : Traced cfg jwt scrypt calls start s)
    (m : Move) : Kept s.auth.committed (s.auth.step m).committed := by
  rcases secured_moves (compatible hfresh.drawn) h.secured m with hsame | ⟨t, hg⟩
  · rw [hsame]
    exact kept_refl _
  · exact hg.kept

theorem traced_statement (hfresh : FreshUsers calls start)
    (h : Traced cfg jwt scrypt calls start s) (m : Move) :
    Traced cfg jwt scrypt calls start (s.step cfg jwt calls (.statement m)) := by
  have hsecured := secured_step (compatible hfresh.drawn) h.secured m
  refine ⟨hsecured, fun i hi => ?_⟩
  rcases List.mem_append.mp hi with hold | hnew
  · exact rooted_kept (h.rooted i hold) (kept_step hfresh h m)
  · obtain ⟨⟨t, r⟩, hends, hissue⟩ := Option.bind_eq_some_iff.mp (Option.mem_toList.mp hnew)
    obtain ⟨session, rfl, huser, hphone, horigin⟩ := issueOf_eq_some hissue
    obtain ⟨channel, hproves, hrow⟩ := hsecured.returned t _ (slot_of_ends hends) session rfl
    refine ⟨t, channel, .verified hi horigin, ?_, ?_⟩
    · rw [huser]
      exact hproves
    · rw [huser, hphone]
      exact hrow

theorem traced_run (hjwt : jwt.Lawful) (hfresh : FreshUsers calls start) (moves : List TokenMove)
    (hunforged : ∀ before token checkedAt issuedAt after,
      moves = before ++ .refresh token checkedAt issuedAt :: after →
        Unforged cfg jwt ((tokenSystem cfg calls scrypt start).run cfg jwt calls before) token
          checkedAt) :
    Traced cfg jwt scrypt calls start
      ((tokenSystem cfg calls scrypt start).run cfg jwt calls moves) := by
  induction moves using List.reverseRecOn with
  | nil => exact ⟨secured_system cfg.toAuthConfig scrypt hfresh [], by simp [tokenSystem, TokenSystem.run]⟩
  | append_singleton before m ih =>
    have htraced := ih fun early token checkedAt issuedAt late he =>
      hunforged early token checkedAt issuedAt (late ++ [m]) (by simp [he])
    unfold TokenSystem.run at htraced ⊢
    rw [List.foldl_append]
    cases m with
    | statement m => exact traced_statement hfresh htraced m
    | refresh token checkedAt issuedAt =>
      exact traced_refresh hjwt htraced (hunforged before token checkedAt issuedAt [] rfl) issuedAt

theorem verifyAccessToken_eq_some {actor : AuthenticatedActor}
    (h : verifyAccessToken jwt token now = some actor) :
    ∃ payload, jwt.verify token (now / 1000) = some payload ∧
      (∀ type, payload.type = some type → type ≠ "" → type = "access") ∧
      actor = ⟨payload.sub, payload.pv⟩ := by
  obtain ⟨payload, hverify, h⟩ := Option.bind_eq_some_iff.mp h
  split_ifs at h with htype
  refine ⟨payload, hverify, fun type hsome hne => ?_, (Option.some.inj h).symm⟩
  by_contra hother
  exact htype (by simp [hsome, hne, hother])

theorem canActivate_eq_ok {authorization : Option String} {actor : AuthenticatedActor}
    (h : canActivate jwt authorization now = .ok actor) :
    ∃ token, authorization = some (bearer ++ token) ∧
      verifyAccessToken jwt token now = some actor := by
  unfold canActivate at h
  split at h
  · cases h
  · next header hheader =>
    obtain ⟨rfl, hprefix⟩ := Option.filter_eq_some_iff.mp hheader
    obtain ⟨rest, hrest⟩ := List.isPrefixOf_iff_prefix.mp hprefix
    have hwhole : bearer ++ String.ofList rest = header := String.toList_inj.mp (by simpa using hrest)
    have hdrop : header.toList.drop bearer.length = rest := by
      rw [← hrest, ← String.length_toList, List.drop_left]
    rw [hdrop] at h
    split at h
    · cases h
    · next found hfound =>
      cases h
      exact ⟨_, congrArg some hwhole.symm, hfound⟩

/-- An access token is that of a live pair, and of its user. -/
theorem issue_of_actor (hjwt : jwt.Lawful) (hunforged : Unforged cfg jwt s token now)
    {actor : AuthenticatedActor} (h : verifyAccessToken jwt token now = some actor) :
    ∃ i ∈ s.issues, now < i.issuedAt + cfg.jwtTtlSeconds * 1000 ∧
      actor = ⟨i.userId, i.phoneVerified⟩ := by
  obtain ⟨payload, hverify, htype, rfl⟩ := verifyAccessToken_eq_some h
  obtain ⟨i, hi, ⟨-, rfl, hlive⟩ | ⟨-, rfl, -⟩⟩ := issue_of_verified hjwt hunforged hverify
  · exact ⟨i, hi, hlive, rfl⟩
  · exact absurd (htype "refresh" rfl (by decide)) (by decide)

end rooted

/-- Whom the guard lets in, at any point of a run, is the user of a pair of tokens that is younger
than an access token may be and goes back, refresh by refresh, to a verification in which a code has
proved that user's phone or email. -/
theorem let_in_by_code (cfg : TokenConfig) (jwt : Jwt) (hjwt : jwt.Lawful)
    (scrypt : String → String → String) (calls : List AuthCall) (start : AuthDb)
    (hfresh : FreshUsers calls start) (moves : List TokenMove)
    (hunforged : ∀ before token checkedAt issuedAt after,
      moves = before ++ .refresh token checkedAt issuedAt :: after →
        Unforged cfg jwt ((tokenSystem cfg calls scrypt start).run cfg jwt calls before) token
          checkedAt)
    (authorization : Option String) (now : ℕ)
    (htoken : ∀ token, authorization = some (bearer ++ token) →
      Unforged cfg jwt ((tokenSystem cfg calls scrypt start).run cfg jwt calls moves) token now)
    (actor : AuthenticatedActor) (hin : canActivate jwt authorization now = .ok actor) :
    ∃ i ∈ ((tokenSystem cfg calls scrypt start).run cfg jwt calls moves).issues,
      now < i.issuedAt + cfg.jwtTtlSeconds * 1000 ∧ actor = ⟨i.userId, i.phoneVerified⟩ ∧
      Rooted cfg jwt scrypt calls ((tokenSystem cfg calls scrypt start).run cfg jwt calls moves).issues
        ((tokenSystem cfg calls scrypt start).run cfg jwt calls moves).auth.committed i := by
  have htraced := traced_run hjwt hfresh moves hunforged
  obtain ⟨token, hheader, haccess⟩ := canActivate_eq_ok hin
  obtain ⟨i, hi, hlive, hactor⟩ := issue_of_actor hjwt (htoken token hheader) haccess
  exact ⟨i, hi, hlive, hactor, htraced.rooted i hi⟩

def mark (n : ℕ) : List Char := List.replicate n '1' ++ ['.']

def unmark (cs : List Char) : ℕ × List Char :=
  ((cs.takeWhile (· == '1')).length, (cs.dropWhile (· == '1')).tail)

theorem unmark_mark (n : ℕ) (rest : List Char) : unmark (mark n ++ rest) = (n, rest) := by
  simp [mark, unmark]

/-- Signatures that everybody can make. -/
def openJwt : Jwt where
  sign payload issuedAt expiresIn := String.ofList (mark payload.sub ++ (mark payload.pv.toNat ++
    (mark (issuedAt + expiresIn) ++ (payload.type.elim [] fun type => 't' :: type.toList))))
  verify token now :=
    let (sub, cs) := unmark token.toList
    let (pv, cs) := unmark cs
    let (expiresAt, cs) := unmark cs
    if now < expiresAt then some ⟨sub, pv == 1, cs.head?.map fun _ => String.ofList cs.tail⟩
    else none

theorem lawful_openJwt : openJwt.Lawful := by
  rintro ⟨sub, pv, type⟩ issuedAt expiresIn now
  have hpv : (pv.toNat == 1) = pv := by cases pv <;> rfl
  simp only [openJwt, String.toList_ofList, unmark_mark, hpv]
  cases type with
  | none => rfl
  | some type => simp

def shortSessions : TokenConfig := ⟨⟨300, 5, 30, 5, false⟩, 20⟩

def loggedIn : Issue := ⟨7, true, 2002, .verified 1⟩

def renewed : Issue :=
  ⟨7, true, 10001, .refreshed (loggedIn.refreshToken shortSessions openJwt) 10000⟩

def loginThenRefresh : List TokenMove :=
  firstMoves.map .statement ++ [.refresh (loggedIn.refreshToken shortSessions openJwt) 10000 10001]

theorem issues_firstMoves : ((tokenSystem shortSessions firstLogin sample .empty).run shortSessions
    openJwt firstLogin (firstMoves.map .statement)).issues = [loggedIn] := by decide

theorem issues_loginThenRefresh : ((tokenSystem shortSessions firstLogin sample .empty).run
    shortSessions openJwt firstLogin loginThenRefresh).issues = [loggedIn, renewed] := by
  decide +kernel

/-- Only what the login gave is presented. -/
theorem unforged_loginThenRefresh (before : List TokenMove) (token : String)
    (checkedAt issuedAt : ℕ) (after : List TokenMove)
    (he : loginThenRefresh = before ++ .refresh token checkedAt issuedAt :: after) :
    Unforged shortSessions openJwt ((tokenSystem shortSessions firstLogin sample .empty).run
      shortSessions openJwt firstLogin before) token checkedAt := by
  obtain ⟨rfl, rfl⟩ : before = firstMoves.map .statement ∧
      token = loggedIn.refreshToken shortSessions openJwt := by
    rcases List.append_eq_append_iff.mp he with ⟨late, rfl, hlast⟩ | ⟨late, hfirst, hlast⟩
    · cases late with
      | nil =>
        simp only [List.nil_append, List.cons.injEq, TokenMove.refresh.injEq] at hlast
        exact ⟨List.append_nil _, hlast.1.1.symm⟩
      | cons m late => simp at hlast
    · cases late with
      | nil =>
        simp only [List.nil_append, List.cons.injEq, TokenMove.refresh.injEq] at hlast
        exact ⟨(List.append_nil before).symm.trans hfirst.symm, hlast.1.1⟩
      | cons m late =>
        cases hlast
        have hmem : TokenMove.refresh token checkedAt issuedAt ∈ firstMoves.map .statement := by
          rw [hfirst]
          simp
        obtain ⟨m, -, hm⟩ := List.mem_map.mp hmem
        cases hm
  intro _
  unfold TokenSystem.tokens
  rw [issues_firstMoves]
  exact List.mem_cons_of_mem _ List.mem_cons_self

/-- Ten seconds after the login, the guard still lets the user in. -/
theorem let_in_by_code_refreshed :
    canActivate openJwt (some (bearer ++ renewed.accessToken shortSessions openJwt)) 12000 =
        .ok ⟨7, true⟩ ∧
      ∃ i ∈ ((tokenSystem shortSessions firstLogin sample .empty).run shortSessions openJwt firstLogin
          loginThenRefresh).issues,
        Rooted shortSessions openJwt sample firstLogin
          ((tokenSystem shortSessions firstLogin sample .empty).run shortSessions openJwt firstLogin
            loginThenRefresh).issues
          ((tokenSystem shortSessions firstLogin sample .empty).run shortSessions openJwt firstLogin
            loginThenRefresh).auth.committed i := by
  have hin : canActivate openJwt (some (bearer ++ renewed.accessToken shortSessions openJwt)) 12000 =
      .ok ⟨7, true⟩ := by decide +kernel
  have hissued (token : String)
      (he : some (bearer ++ renewed.accessToken shortSessions openJwt) = some (bearer ++ token)) :
      Unforged shortSessions openJwt ((tokenSystem shortSessions firstLogin sample .empty).run
        shortSessions openJwt firstLogin loginThenRefresh) token 12000 := by
    obtain rfl : renewed.accessToken shortSessions openJwt = token := by simpa using he
    intro _
    unfold TokenSystem.tokens
    rw [issues_loginThenRefresh]
    simp
  obtain ⟨i, hi, -, -, hrooted⟩ := let_in_by_code shortSessions openJwt lawful_openJwt sample
    firstLogin .empty freshUsers_firstLogin loginThenRefresh unforged_loginThenRefresh _ 12000
    hissued ⟨7, true⟩ hin
  exact ⟨hin, i, hi, hrooted⟩

end Akabbo.SessionTokens
