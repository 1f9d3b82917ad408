import Akabbo.Access
import Akabbo.RowTable
import Akabbo.StatementProgram

/-!
# One-time codes and the users behind them

Logging in by phone or by email: a challenge is started, and a code is verified against it. Every
statement commits by itself. The two channels share one definition for each of their twin services.
-/
namespace Akabbo.OtpChallenges
open Access RowTable StatementProgram
open StatementProgram.Program (query modify modifyChecked accept refuse orThrow commitNow)

/-- A stored `salt:derived`. -/
structure CodeHash where
  salt : String
  derived : String
  deriving DecidableEq, Repr

structure AuthOtpChallenge where
  id : ℕ
  phone : Option String
  email : Option String
  codeHash : CodeHash
  expiresAt : ℕ
  consumedAt : Option ℕ
  attempts : ℕ
  createdAt : ℕ
  deriving DecidableEq, Repr

structure User where
  id : ℕ
  phone : Option String
  phoneVerified : Bool
  email : Option String
  emailVerified : Bool
  deriving DecidableEq, Repr

structure AuthDb where
  challenges : Table ℕ AuthOtpChallenge AuthOtpChallenge.id
  users : Table ℕ User User.id

def AuthDb.empty : AuthDb := ⟨.empty, .empty⟩

inductive Channel
  | phone | email
  deriving DecidableEq, Repr

inductive AuthLock
  | challenge (id : ℕ)
  | user (id : ℕ)
  | identifier (channel : Channel) (value : String)
  deriving DecidableEq, Repr

inductive AuthError
  | badRequest (message : String)
  | unauthorized (message : String)
  | refused (refusal : Refusal)
  deriving DecidableEq, Repr

abbrev AuthProgram := Program AuthLock AuthDb AuthError

/-- The `OTP_*` and `JWT_TTL_SECONDS` settings, and `AUTH_EXPOSE_OTP`. -/
structure AuthConfig where
  otpTtlSeconds : ℕ
  otpMaxAttempts : ℕ
  otpCooldownSeconds : ℕ
  jwtTtlSeconds : ℕ
  exposeOtp : Bool
  deriving DecidableEq, Repr

def AuthOtpChallenge.identifier : Channel → AuthOtpChallenge → Option String
  | .phone, c => c.phone
  | .email, c => c.email

def User.identifier : Channel → User → Option String
  | .phone, u => u.phone
  | .email, u => u.email

def User.verified : Channel → User → Bool
  | .phone, u => u.phoneVerified
  | .email, u => u.emailVerified

def User.verify : Channel → User → User
  | .phone, u => { u with phoneVerified := true }
  | .email, u => { u with emailVerified := true }

@[simp] theorem User.verify_id (channel : Channel) (u : User) : (u.verify channel).id = u.id := by
  cases channel <;> rfl

section codes
variable (scrypt : String → String → String)

def hashOtp (code salt : String) : CodeHash := ⟨salt, scrypt code salt⟩

/-- A stored hash without a salt or without a key fits no code. -/
def CodeHash.verifyOtp (code : String) (stored : CodeHash) : Bool :=
  if stored.salt = "" ∨ stored.derived = "" then false
  else scrypt code stored.salt == stored.derived

end codes

/-- What the world supplies to a start: the clock at the cooldown check, at the expiry and at the
insert, the row's id, the code and its salt. -/
structure StartDraw where
  checkedAt : ℕ
  issuedAt : ℕ
  createdAt : ℕ
  challengeId : ℕ
  code : String
  salt : String
  deriving DecidableEq, Repr

structure StartOtpResult where
  challengeId : ℕ
  expiresInSeconds : ℕ
  devCode : Option String
  deriving DecidableEq, Repr

/-- A challenge of this phone or email that nobody has verified. -/
def AuthOtpChallenge.Outstanding (channel : Channel) (value : String) (c : AuthOtpChallenge) :
    Prop := c.identifier channel = some value ∧ c.consumedAt = none

instance (channel : Channel) (value : String) (c : AuthOtpChallenge) :
    Decidable (c.Outstanding channel value) := inferInstanceAs (Decidable (_ ∧ _))

/-- `findFirst` with `orderBy: { createdAt: 'desc' }`. -/
def latestOutstanding (channel : Channel) (value : String) (db : AuthDb) : Option ℕ :=
  ((db.challenges.rows.filter fun c => c.Outstanding channel value).map
    AuthOtpChallenge.createdAt).max?

/-- The refusal of a start so soon after the challenge created at `last`. -/
def cooldownRefusal (cooldown checkedAt : ℕ) (last : Option ℕ) : Option AuthError :=
  if last.any fun createdAt => decide ((checkedAt : ℤ) - createdAt < cooldown * 1000) then
    some (.badRequest ("A verification code was already sent — please wait a moment before " ++
      "requesting another."))
  else none

def AuthDb.insertChallenge (db : AuthDb) (c : AuthOtpChallenge) : AuthDb :=
  { db with challenges := db.challenges.insertNew c }

def insertChallenge (c : AuthOtpChallenge) : AuthProgram Unit :=
  modifyChecked (fun _ => [.challenge c.id])
    (fun db => accept (if db.challenges.has c.id then
      some (.refused (.uniqueViolation "auth_otp_challenge")) else none))
    fun db => db.insertChallenge c

section services
variable (cfg : AuthConfig) (scrypt : String → String → String)

def assertCooldownElapsed (channel : Channel) (value : String) (checkedAt : ℕ) :
    AuthProgram Unit :=
  if cfg.otpCooldownSeconds = 0 then pure ()
  else do
    let last ← query (latestOutstanding channel value)
    refuse (cooldownRefusal cfg.otpCooldownSeconds checkedAt last)

def newChallenge (channel : Channel) (value : String) (draw : StartDraw) : AuthOtpChallenge :=
  { id := draw.challengeId
    phone := if channel = .phone then some value else none
    email := if channel = .email then some value else none
    codeHash := hashOtp scrypt draw.code draw.salt
    expiresAt := draw.issuedAt + cfg.otpTtlSeconds * 1000
    consumedAt := none
    attempts := 0
    createdAt := draw.createdAt }

def startChallenge (channel : Channel) (value : String) (draw : StartDraw) :
    AuthProgram StartOtpResult := do
  assertCooldownElapsed cfg channel value draw.checkedAt
  insertChallenge (newChallenge cfg scrypt channel value draw)
  commitNow
  return {
    challengeId := draw.challengeId
    expiresInSeconds := cfg.otpTtlSeconds
    devCode := if cfg.exposeOtp then some draw.code else none }

def startOtp (phone : String) : StartDraw → AuthProgram StartOtpResult :=
  startChallenge cfg scrypt .phone phone

def startEmailOtp (email : String) : StartDraw → AuthProgram StartOtpResult :=
  startChallenge cfg scrypt .email email

def newUser (channel : Channel) (value : String) (id : ℕ) : User :=
  { id
    phone := if channel = .phone then some value else none
    phoneVerified := false
    email := if channel = .email then some value else none
    emailVerified := false }

/-- `findUnique` by phone or by email. -/
def AuthDb.findUser (db : AuthDb) (channel : Channel) (value : String) : Option User :=
  db.users.find? fun u => u.identifier channel == some value

/-- The primary key or the unique phone or email is taken. -/
def AuthDb.userTaken (db : AuthDb) (channel : Channel) (value : String) (id : ℕ) : Bool :=
  db.users.has id || (db.findUser channel value).isSome

def AuthDb.insertUser (db : AuthDb) (u : User) : AuthDb :=
  { db with users := db.users.insertNew u }

/-- `user.create`, and whether it met a row in its way. -/
def createUser (channel : Channel) (value : String) (id : ℕ) : AuthProgram Bool :=
  .write (fun _ => [.user id, .identifier channel value])
    (fun db => db.userTaken channel value id)
    (fun taken db => if taken then db else db.insertUser (newUser channel value id)) .pure

/-- The user, and whether this call has made it. -/
def findOrCreate (channel : Channel) (value : String) (id : ℕ) : AuthProgram (User × Bool) := do
  let taken ← createUser channel value id
  commitNow
  if taken then do
    let existing ← query fun db => db.findUser channel value
    let user ← orThrow existing (.refused (.recordNotFound "user"))
    return (user, false)
  else return (newUser channel value id, true)

def findOrCreateByPhone (phone : String) : ℕ → AuthProgram (User × Bool) :=
  findOrCreate .phone phone

def findOrCreateByEmail (email : String) : ℕ → AuthProgram (User × Bool) :=
  findOrCreate .email email

def AuthDb.markVerified (db : AuthDb) (channel : Channel) (userId : ℕ) : AuthDb :=
  let verified := db.users.update (fun u => u.id == userId) (User.verify channel)
    (User.verify_id channel)
  { db with users := verified }

def markVerified (channel : Channel) (userId : ℕ) : AuthProgram Unit :=
  modifyChecked (fun _ => [.user userId])
    (fun db => accept (if db.users.has userId then none
      else some (.refused (.recordNotFound "user"))))
    fun db => db.markVerified channel userId

structure VerifyOtpRequest where
  challengeId : ℕ
  code : String
  deriving DecidableEq, Repr

/-- What the world supplies to a verification: the clock where it checks, consumes and issues, and
the id of the user it may create. -/
structure VerifyDraw where
  checkedAt : ℕ
  consumedAt : ℕ
  issuedAt : ℕ
  userId : ℕ
  deriving DecidableEq, Repr

/-- The access token says whose it is and whether the phone is verified. -/
structure AuthSession where
  userId : ℕ
  phoneVerified : Bool
  expiresAt : ℕ
  isNewUser : Bool
  deriving DecidableEq, Repr

/-- The identifier behind a challenge that may be presented on this channel. -/
def AuthOtpChallenge.presented (channel : Channel) (c : AuthOtpChallenge) : Option String :=
  (c.identifier channel).filter (· ≠ "")

def challengeRefusal (c : AuthOtpChallenge) (checkedAt : ℕ) : Option AuthError :=
  if c.consumedAt.isSome then some (.badRequest "Challenge already used")
  else if c.expiresAt < checkedAt then some (.badRequest "Challenge expired")
  else if cfg.otpMaxAttempts ≤ c.attempts then some (.badRequest "Too many attempts")
  else none

def AuthDb.updateChallenge (db : AuthDb) (id : ℕ) (f : AuthOtpChallenge → AuthOtpChallenge)
    (hf : ∀ c, (f c).id = c.id) : AuthDb :=
  { db with challenges := db.challenges.update (fun c => c.id == id) f hf }

theorem mem_updateChallenge {db : AuthDb} {id : ℕ} {f : AuthOtpChallenge → AuthOtpChallenge}
    {hf : ∀ c, (f c).id = c.id} {c' : AuthOtpChallenge} :
    c' ∈ (db.updateChallenge id f hf).challenges ↔
      ∃ c ∈ db.challenges, c' = if c.id == id then f c else c := by
  change c' ∈ db.challenges.update _ f hf ↔ _
  exact Table.mem_update

/-- `authOtpChallenge.update` of one row, whatever it has become since it was read. -/
def updateChallenge (id : ℕ) (f : AuthOtpChallenge → AuthOtpChallenge)
    (hf : ∀ c, (f c).id = c.id) : AuthProgram Unit :=
  modifyChecked (fun _ => [.challenge id])
    (fun db => accept (if db.challenges.has id then none
      else some (.refused (.recordNotFound "auth_otp_challenge"))))
    fun db => db.updateChallenge id f hf

def AuthOtpChallenge.missed (c : AuthOtpChallenge) : AuthOtpChallenge :=
  { c with attempts := c.attempts + 1 }

def AuthOtpChallenge.consume (now : ℕ) (c : AuthOtpChallenge) : AuthOtpChallenge :=
  { c with consumedAt := some now }

/-- A session by phone has proved the phone; one by email says what the user's row says. -/
def issueSession (channel : Channel) (user : User) (isNew : Bool) (issuedAt : ℕ) : AuthSession :=
  { userId := user.id
    phoneVerified := match channel with
      | .phone => true
      | .email => user.phoneVerified
    expiresAt := issuedAt + cfg.jwtTtlSeconds * 1000
    isNewUser := isNew }

/-- The user behind a verified identifier, found or made. -/
def signIn (channel : Channel) (value : String) (draw : VerifyDraw) : AuthProgram AuthSession := do
  let (user, isNew) ← findOrCreate channel value draw.userId
  if user.verified channel then return issueSession cfg channel user isNew draw.issuedAt
  else do
    markVerified channel user.id
    commitNow
    return issueSession cfg channel user isNew draw.issuedAt

/-- What follows a right code: the challenge is used up. -/
def establish (channel : Channel) (c : AuthOtpChallenge) (value : String) (draw : VerifyDraw) :
    AuthProgram AuthSession := do
  updateChallenge c.id (AuthOtpChallenge.consume draw.consumedAt) fun _ => rfl
  commitNow
  signIn cfg channel value draw

/-- What follows a wrong code. -/
def countMiss (c : AuthOtpChallenge) : AuthProgram AuthSession := do
  updateChallenge c.id AuthOtpChallenge.missed fun _ => rfl
  commitNow
  .throw (.unauthorized "Incorrect code")

def verifyChallenge (channel : Channel) (request : VerifyOtpRequest) (draw : VerifyDraw) :
    AuthProgram AuthSession := do
  let found ← query fun db => db.challenges.get? request.challengeId
  let challenge ← orThrow found (.badRequest "Invalid or expired challenge")
  let value ← orThrow (challenge.presented channel) (.badRequest "Invalid or expired challenge")
  refuse (challengeRefusal cfg challenge draw.checkedAt)
  if challenge.codeHash.verifyOtp scrypt request.code then
    establish cfg channel challenge value draw
  else countMiss challenge

def verifyOtp : VerifyOtpRequest → VerifyDraw → AuthProgram AuthSession :=
  verifyChallenge cfg scrypt .phone

def verifyEmailOtp : VerifyOtpRequest → VerifyDraw → AuthProgram AuthSession :=
  verifyChallenge cfg scrypt .email

end services

end Akabbo.OtpChallenges
