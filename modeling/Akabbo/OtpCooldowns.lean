import Akabbo.CommitOrder
import Akabbo.OtpChallenges
import Akabbo.RunChecks

/-!
# The cooldown between two challenges

Any number of starts and verifications, statement by statement. The cooldown is a read of the latest
outstanding challenge and an insert after it, so it holds as long as no challenge comes in between.
-/
namespace Akabbo.OtpCooldowns
open Access RowTable StatementProgram ReadCommitted CommitOrder OtpChallenges
open StatementProgram.Program (query refuse)

inductive AuthCall
  | start (channel : Channel) (value : String) (draw : StartDraw)
  | verify (channel : Channel) (request : VerifyOtpRequest) (draw : VerifyDraw)
  deriving DecidableEq, Repr

inductive AuthResult
  | started (result : StartOtpResult)
  | session (session : AuthSession)
  deriving DecidableEq, Repr

section calls
variable (cfg : AuthConfig) (scrypt : String → String → String)

def AuthCall.program : AuthCall → AuthProgram AuthResult
  | .start .phone phone draw => AuthResult.started <$> startOtp cfg scrypt phone draw
  | .start .email email draw => AuthResult.started <$> startEmailOtp cfg scrypt email draw
  | .verify .phone request draw => AuthResult.session <$> verifyOtp cfg scrypt request draw
  | .verify .email request draw => AuthResult.session <$> verifyEmailOtp cfg scrypt request draw

abbrev AuthSystem := System AuthLock AuthDb AuthError AuthResult

def system (db : AuthDb) (calls : List AuthCall) : AuthSystem :=
  System.begin db (calls.map (AuthCall.program cfg scrypt))

end calls

/-- The move uses up an outstanding challenge of this phone or email. -/
def Verifies (channel : Channel) (value : String) (sys : AuthSystem) (m : Move) : Prop :=
  ∃ c ∈ sys.committed.challenges, c.Outstanding channel value ∧
    ∃ c' ∈ (sys.step m).committed.challenges, c'.id = c.id ∧ c'.consumedAt ≠ none

/-- A challenge that comes in while another of its phone or email is there, and none is verified in
between, is created at least `seconds` from it. -/
def CooldownKept (seconds : ℕ) (sys : AuthSystem) (moves : List Move) : Prop :=
  ∀ channel value early mid m after, moves = early ++ mid ++ m :: after →
    ∀ c ∈ (sys.run early).committed.challenges, c.Outstanding channel value →
    (∀ before m' rest, mid = before ++ m' :: rest →
      ¬ Verifies channel value (sys.run (early ++ before)) m') →
    ∀ c' ∈ ((sys.run (early ++ mid)).step m).committed.challenges,
      c'.identifier channel = some value →
      (sys.run (early ++ mid)).committed.challenges.has c'.id = false →
      c.createdAt + seconds * 1000 ≤ c'.createdAt ∨ c'.createdAt + seconds * 1000 ≤ c.createdAt

/-- No outstanding challenge is newer than the latest that the call has read. -/
def NoNewer (channel : Channel) (value : String)
    (x : ReadCommitted.Session AuthLock AuthDb AuthError AuthResult) (db : AuthDb) : Prop :=
  ∀ last, (⟨latestOutstanding channel value, last⟩ : Reading AuthDb) ∈ x.readings →
    ∀ createdAt, latestOutstanding channel value db = some createdAt →
      ∃ l, last = some l ∧ createdAt ≤ l

/-- A start inserts its challenge while the latest one it has read is still the latest, and the
clock has not gone back since it looked. -/
def InsertsInTime (calls : List AuthCall) (sys : AuthSystem) (m : Move) : Prop :=
  ∀ (t : ℕ) channel value draw x, calls[t]? = some (.start channel value draw) →
    Applied sys m t x none →
    NoNewer channel value x sys.committed ∧ draw.checkedAt ≤ draw.createdAt

structure SameChallenge (c c' : AuthOtpChallenge) : Prop where
  id : c'.id = c.id
  identifier : ∀ channel, c'.identifier channel = c.identifier channel
  createdAt : c'.createdAt = c.createdAt

/-- The same challenges, verified or missed in the meantime. -/
structure Retains (db db' : AuthDb) : Prop where
  stays : ∀ c ∈ db.challenges, ∃ c' ∈ db'.challenges, SameChallenge c c'
  came : ∀ c' ∈ db'.challenges, ∃ c ∈ db.challenges, SameChallenge c c'

theorem sameChallenge_refl (c : AuthOtpChallenge) : SameChallenge c c := ⟨rfl, fun _ => rfl, rfl⟩

theorem sameChallenge_trans {a b c : AuthOtpChallenge} (h : SameChallenge a b)
    (h' : SameChallenge b c) : SameChallenge a c :=
  ⟨h'.id.trans h.id, fun channel => (h'.identifier channel).trans (h.identifier channel),
    h'.createdAt.trans h.createdAt⟩

theorem retains_of_eq {db db' : AuthDb} (h : db'.challenges = db.challenges) : Retains db db' := by
  refine ⟨fun c hc => ⟨c, ?_, sameChallenge_refl c⟩, fun c hc => ⟨c, ?_, sameChallenge_refl c⟩⟩
  · rwa [h]
  · rwa [← h]

theorem retains_updateChallenge (db : AuthDb) (id : ℕ) {f : AuthOtpChallenge → AuthOtpChallenge}
    {hf : ∀ c, (f c).id = c.id} (hsame : ∀ c, SameChallenge c (f c)) :
    Retains db (db.updateChallenge id f hf) := by
  have hboth (c : AuthOtpChallenge) : SameChallenge c (if c.id == id then f c else c) := by
    split_ifs
    · exact hsame c
    · exact sameChallenge_refl c
  constructor
  · intro c hc
    exact ⟨_, mem_updateChallenge.mpr ⟨c, hc, rfl⟩, hboth c⟩
  · intro c' hc'
    obtain ⟨c, hc, rfl⟩ := mem_updateChallenge.mp hc'
    exact ⟨c, hc, hboth c⟩

theorem sameChallenge_missed (c : AuthOtpChallenge) : SameChallenge c c.missed :=
  ⟨rfl, fun channel => by cases channel <;> rfl, rfl⟩

theorem sameChallenge_consume (now : ℕ) (c : AuthOtpChallenge) : SameChallenge c (c.consume now) :=
  ⟨rfl, fun channel => by cases channel <;> rfl, rfl⟩

/-- Signing in touches no challenge. -/
theorem everyCommit_signIn {J : AuthDb → Prop}
    {P : Option AuthSession → List (Reading AuthDb) → (AuthDb → AuthDb) → Prop}
    (h : ∀ r rs f, (∀ db, (f db).challenges = db.challenges) → P r rs f) (cfg : AuthConfig)
    (channel : Channel) (value : String) (draw : VerifyDraw) :
    EveryCommit J P (signIn cfg channel value draw) false [] id := by
  have hmark (user : User) (isNew : Bool) (rs : List (Reading AuthDb)) : EveryCommit J P
      (if user.verified channel then
          (pure (issueSession cfg channel user isNew draw.issuedAt) : AuthProgram AuthSession)
        else do
          markVerified channel user.id
          Program.commitNow
          return issueSession cfg channel user isNew draw.issuedAt) false rs id := by
    split_ifs
    · exact h _ _ _ fun _ => rfl
    · exact everyCommit_modifyChecked_bind fun _ _ _ _ =>
        everyCommit_commitNow (h _ _ _ fun _ => rfl) (h _ _ _ fun _ => rfl)
  unfold signIn findOrCreate createUser
  rw [bind_assoc]
  refine everyCommit_write_bind fun s _ => ?_
  rw [bind_assoc]
  generalize (id s).userTaken channel value draw.userId = taken
  refine everyCommit_commitNow (h _ _ _ fun db => ?_) ?_
  · cases taken <;> rfl
  · cases taken with
    | true =>
      rw [if_pos rfl, bind_assoc]
      refine everyCommit_query_bind fun _ _ => ?_
      rw [bind_assoc]
      exact everyCommit_orThrow_bind fun user _ => hmark user false _
    | false => exact hmark _ true _

section applies
variable (cfg : AuthConfig) (scrypt : String → String → String)

/-- What the check before an insert has seen. -/
def Checked (channel : Channel) (value : String) (checkedAt : ℕ) (rs : List (Reading AuthDb)) :
    Prop :=
  cfg.otpCooldownSeconds = 0 ∨ ∃ last, ⟨latestOutstanding channel value, last⟩ ∈ rs ∧
    cooldownRefusal cfg.otpCooldownSeconds checkedAt last = none

/-- What a call has pending when it applies it. -/
def Applies : AuthCall → Option AuthResult → List (Reading AuthDb) → (AuthDb → AuthDb) → Prop
  | .start channel value draw, r, rs, f => f = id ∨
      r = none ∧ Checked cfg channel value draw.checkedAt rs ∧
        f = fun db => db.insertChallenge (newChallenge cfg scrypt channel value draw)
  | .verify .., _, _, f => ∀ db, Retains db (f db)

theorem everyCommit_startChallenge (channel : Channel) (value : String) (draw : StartDraw) :
    EveryCommit (fun _ => True)
      (fun r rs f => Applies cfg scrypt (.start channel value draw) (r.map .started) rs f)
      (startChallenge cfg scrypt channel value draw) false [] id := by
  have hinsert (rs : List (Reading AuthDb)) (hrs : Checked cfg channel value draw.checkedAt rs)
      (result : StartOtpResult) :
      EveryCommit (fun _ => True)
        (fun r rs f => Applies cfg scrypt (.start channel value draw) (r.map .started) rs f)
        (insertChallenge (newChallenge cfg scrypt channel value draw) >>= fun _ =>
          Program.commitNow >>= fun _ => (pure result : AuthProgram StartOtpResult)) false rs id := by
    refine everyCommit_modifyChecked_bind fun _ _ _ _ => everyCommit_commitNow ?_ (.inl rfl)
    refine .inr ⟨rfl, ?_, rfl⟩
    rcases hrs with hzero | ⟨last, hmem, hpassed⟩
    · exact .inl hzero
    · exact .inr ⟨last, List.mem_cons_of_mem _ hmem, hpassed⟩
  unfold startChallenge assertCooldownElapsed
  by_cases hzero : cfg.otpCooldownSeconds = 0
  · rw [if_pos hzero, pure_bind]
    exact hinsert [] (.inl hzero) _
  · rw [if_neg hzero, bind_assoc]
    refine everyCommit_query_bind fun s _ => everyCommit_guard_bind fun hpassed => ?_
    exact hinsert _ (.inr ⟨_, List.mem_cons_self, hpassed⟩) _

theorem everyCommit_verifyChallenge (channel : Channel) (request : VerifyOtpRequest)
    (draw : VerifyDraw) :
    EveryCommit (fun _ => True) (fun _ _ f => ∀ db, Retains db (f db))
      (verifyChallenge cfg scrypt channel request draw) false [] id := by
  unfold verifyChallenge
  refine everyCommit_query_bind fun _ _ => everyCommit_orThrow_bind fun c _ =>
    everyCommit_orThrow_bind fun value _ => everyCommit_refuse_bind ?_
  split_ifs
  · refine everyCommit_modifyChecked_bind fun _ _ _ _ => everyCommit_commitNow (fun db => ?_) ?_
    · exact retains_updateChallenge db c.id (sameChallenge_consume draw.consumedAt)
    · exact everyCommit_signIn (fun _ _ f hf db => retains_of_eq (hf db)) cfg channel value draw
  · refine everyCommit_modifyChecked_bind fun _ _ _ _ => everyCommit_commitNow (fun db => ?_) trivial
    exact retains_updateChallenge db c.id sameChallenge_missed

theorem everyCommit_program (c : AuthCall) :
    EveryCommit (fun _ => True) (Applies cfg scrypt c) (c.program cfg scrypt) false [] id := by
  cases c with
  | start channel value draw =>
    have hstart := everyCommit_map (everyCommit_startChallenge cfg scrypt channel value draw)
    cases channel <;> exact hstart
  | verify channel request draw =>
    have hverify : EveryCommit (fun _ => True) (Applies cfg scrypt (.verify channel request draw))
        (AuthResult.session <$> verifyChallenge cfg scrypt channel request draw) false [] id :=
      everyCommit_map (everyCommit_verifyChallenge cfg scrypt channel request draw)
    cases channel <;> exact hverify

end applies

section run
variable {cfg : AuthConfig} {scrypt : String → String → String} {db : AuthDb}
  {calls : List AuthCall} {before : List Move} {m : Move} {channel : Channel} {value : String}

/-- What a move may do to the challenges: look after those there are, or let one more in. -/
theorem step_challenges (cfg : AuthConfig) (scrypt : String → String → String) (db : AuthDb)
    (calls : List AuthCall) (before : List Move) (m : Move) :
    Retains ((system cfg scrypt db calls).run before).committed
      (((system cfg scrypt db calls).run before).step m).committed ∨
    ∃ t channel value draw x, calls[t]? = some (.start channel value draw) ∧
      Applied ((system cfg scrypt db calls).run before) m t x none ∧
      Checked cfg channel value draw.checkedAt x.readings ∧
      (((system cfg scrypt db calls).run before).step m).committed =
        ((system cfg scrypt db calls).run before).committed.insertChallenge
          (newChallenge cfg scrypt channel value draw) := by
  rcases step_ends ((system cfg scrypt db calls).run before) m with
    ⟨hsame, -⟩ | ⟨t, x, r, happ, hcommitted, -⟩
  · exact .inl (retains_of_eq (by rw [hsame]))
  · obtain ⟨c, hc, hpending⟩ := applied_keeps (everyCommit_program cfg scrypt) before happ
    rw [hcommitted]
    cases c with
    | verify channel request draw => exact .inl (hpending _)
    | start channel value draw =>
      rcases hpending with hid | ⟨rfl, hchecked, hinsert⟩
      · rw [hid]
        exact .inl (retains_of_eq rfl)
      · exact .inr ⟨t, channel, value, draw, x, hc, happ, hchecked, by rw [hinsert]⟩

/-- A challenge that nobody verifies stays outstanding. -/
theorem outstanding_step {c : AuthOtpChallenge}
    (hc : c ∈ ((system cfg scrypt db calls).run before).committed.challenges)
    (hopen : c.Outstanding channel value)
    (hnot : ¬ Verifies channel value ((system cfg scrypt db calls).run before) m) :
    ∃ c' ∈ (((system cfg scrypt db calls).run before).step m).committed.challenges,
      SameChallenge c c' ∧ c'.Outstanding channel value := by
  obtain ⟨c', hc', hsame⟩ : ∃ c' ∈ (((system cfg scrypt db calls).run before).step m).committed.challenges,
      SameChallenge c c' := by
    rcases step_challenges cfg scrypt db calls before m with hretains | ⟨t, ch, v, draw, x, -, -, -, hrows⟩
    · exact hretains.stays c hc
    · rw [hrows]
      exact ⟨c, Table.mem_insertNew_of_mem hc, sameChallenge_refl c⟩
  refine ⟨c', hc', hsame, (hsame.identifier channel).trans hopen.1, ?_⟩
  by_contra hused
  exact hnot ⟨c, hc, hopen, c', hc', hsame.id, hused⟩

theorem outstanding_run {early mid : List Move} {c : AuthOtpChallenge}
    (hc : c ∈ ((system cfg scrypt db calls).run early).committed.challenges)
    (hopen : c.Outstanding channel value)
    (hnot : ∀ before m rest, mid = before ++ m :: rest →
      ¬ Verifies channel value ((system cfg scrypt db calls).run (early ++ before)) m) :
    ∃ c' ∈ ((system cfg scrypt db calls).run (early ++ mid)).committed.challenges,
      SameChallenge c c' ∧ c'.Outstanding channel value := by
  induction mid using List.reverseRecOn with
  | nil =>
    rw [List.append_nil]
    exact ⟨c, hc, sameChallenge_refl c, hopen⟩
  | append_singleton mid m ih =>
    obtain ⟨c₁, hc₁, hsame₁, hopen₁⟩ := ih fun before m' rest he =>
      hnot before m' (rest ++ [m]) (by simp [he])
    obtain ⟨c₂, hc₂, hsame₂, hopen₂⟩ := outstanding_step hc₁ hopen₁ (hnot mid m [] rfl)
    rw [← List.append_assoc, run_append]
    exact ⟨c₂, hc₂, sameChallenge_trans hsame₁ hsame₂, hopen₂⟩

theorem latestOutstanding_of_mem {c : AuthOtpChallenge} (hc : c ∈ db.challenges)
    (hopen : c.Outstanding channel value) :
    ∃ latest, latestOutstanding channel value db = some latest ∧ c.createdAt ≤ latest := by
  have hmem : c.createdAt ∈ (db.challenges.rows.filter fun c =>
      c.Outstanding channel value).map AuthOtpChallenge.createdAt :=
    List.mem_map_of_mem (List.mem_filter.mpr ⟨hc, by simpa using hopen⟩)
  obtain ⟨latest, hlatest⟩ := Option.isSome_iff_exists.mp (List.isSome_max?_of_mem hmem)
  exact ⟨latest, hlatest, (List.max?_eq_some_iff.mp hlatest).2 _ hmem⟩

/-- A start that has passed the check with the latest challenge in view is late enough. -/
theorem late_of_checked {checkedAt : ℕ} {x : ReadCommitted.Session AuthLock AuthDb AuthError AuthResult}
    (hchecked : Checked cfg channel value checkedAt x.readings) (hnewer : NoNewer channel value x db)
    {c : AuthOtpChallenge} (hc : c ∈ db.challenges) (hopen : c.Outstanding channel value) :
    cfg.otpCooldownSeconds = 0 ∨ c.createdAt + cfg.otpCooldownSeconds * 1000 ≤ checkedAt := by
  rcases hchecked with hzero | ⟨last, hread, hpassed⟩
  · exact .inl hzero
  · obtain ⟨latest, hlatest, hle⟩ := latestOutstanding_of_mem hc hopen
    obtain ⟨l, rfl, hlast⟩ := hnewer last hread latest hlatest
    right
    by_contra hlt
    have hsoon : (checkedAt : ℤ) - l < cfg.otpCooldownSeconds * 1000 := by omega
    simp [cooldownRefusal, hsoon] at hpassed

theorem identifier_newChallenge {ch : Channel} {v : String} {draw : StartDraw}
    (h : (newChallenge cfg scrypt ch v draw).identifier channel = some value) :
    ch = channel ∧ v = value := by
  cases ch <;> cases channel <;> simp_all [AuthOtpChallenge.identifier, newChallenge]

end run

/-- Two challenges of one phone or email are the cooldown apart, unless one of the two is verified
in between, as long as each start inserts its challenge before another comes in. -/
theorem cooldown_kept (cfg : AuthConfig) (scrypt : String → String → String) (db : AuthDb)
    (calls : List AuthCall) (moves : List Move)
    (htimely : ∀ before m after, moves = before ++ m :: after →
      InsertsInTime calls ((system cfg scrypt db calls).run before) m) :
    CooldownKept cfg.otpCooldownSeconds (system cfg scrypt db calls) moves := by
  rintro channel value early mid m after rfl c hc hopen hnot c' hc' hvalue hnew
  have habsent : ∀ c₀ ∈ ((system cfg scrypt db calls).run (early ++ mid)).committed.challenges,
      c₀.id ≠ c'.id := Table.has_eq_false_iff.mp hnew
  obtain ⟨c₁, hc₁, hsame₁, hopen₁⟩ := outstanding_run hc hopen hnot
  rcases step_challenges cfg scrypt db calls (early ++ mid) m with
    hretains | ⟨t, ch, v, draw, x, hcall, happ, hchecked, hrows⟩
  · obtain ⟨c₀, hc₀, hsame⟩ := hretains.came c' hc'
    exact absurd hsame.id.symm (habsent c₀ hc₀)
  · rw [hrows] at hc'
    rcases Table.mem_insertNew_cases hc' with hold | rfl
    · exact absurd rfl (habsent c' hold)
    · obtain ⟨rfl, rfl⟩ := identifier_newChallenge hvalue
      obtain ⟨hnewer, hclock⟩ := htimely (early ++ mid) m after rfl t ch v draw x hcall happ
      have hcreated : (newChallenge cfg scrypt ch v draw).createdAt = draw.createdAt := rfl
      have hsame := hsame₁.createdAt
      rcases late_of_checked hchecked hnewer hc₁ hopen₁ with hzero | hlate
      · rw [hzero]
        omega
      · left
        omega

/-- A start whose readings all hold still inserts in time, unless the clock goes back. -/
theorem insertsInTime_of_current {calls : List AuthCall} {sys : AuthSystem} {m : Move}
    (hclock : ∀ channel value draw, AuthCall.start channel value draw ∈ calls →
      draw.checkedAt ≤ draw.createdAt)
    (hcurrent : ∀ (t : ℕ) x, Applied sys m t x none → x.Current sys.committed) :
    InsertsInTime calls sys m := by
  intro t channel value draw x hcall happ
  refine ⟨fun last hread createdAt hlatest => ⟨createdAt, ?_, le_rfl⟩,
    hclock channel value draw (List.mem_of_getElem? hcall)⟩
  have hsame := hcurrent t x happ ⟨latestOutstanding channel value, last⟩ hread
  exact hsame.symm.trans hlatest

def smallConfig : AuthConfig := ⟨300, 5, 30, 3600, false⟩

def sample (code salt : String) : String := code ++ salt

def firstDraw : StartDraw := ⟨1000, 1000, 1001, 1, "123456", "a"⟩

def racingStarts : List AuthCall :=
  [.start .phone "+256700000000" firstDraw,
    .start .phone "+256700000000" ⟨1002, 1002, 1003, 2, "654321", "b"⟩]

/-- Both look for an earlier challenge before either inserts its own. -/
def racingMoves : List Move := [.advance 0, .advance 1, .advance 0, .advance 0, .advance 1]

def firstChallenge : AuthOtpChallenge :=
  newChallenge smallConfig sample .phone "+256700000000" firstDraw

def secondChallenge : AuthOtpChallenge :=
  newChallenge smallConfig sample .phone "+256700000000" ⟨1002, 1002, 1003, 2, "654321", "b"⟩

/-- The second challenge of the phone comes two milliseconds after the first. -/
theorem overlapping_starts_skip_cooldown :
    ¬ ∀ (cfg : AuthConfig) (scrypt : String → String → String) (db : AuthDb) (calls : List AuthCall)
      (moves : List Move),
      CooldownKept cfg.otpCooldownSeconds (system cfg scrypt db calls) moves := by
  intro h
  have hfirst : firstChallenge ∈ ((system smallConfig sample .empty racingStarts).run
      (racingMoves.take 4)).committed.challenges := by decide
  have hsecond : secondChallenge ∈ (((system smallConfig sample .empty racingStarts).run
      (racingMoves ++ [])).step (.advance 1)).committed.challenges := by decide
  have hnone (c : AuthOtpChallenge) (hc : c ∈ ((system smallConfig sample .empty racingStarts).run
      racingMoves).committed.challenges) : c.consumedAt = none := by
    have hall : ((system smallConfig sample .empty racingStarts).run
      racingMoves).committed.challenges.rows.all (·.consumedAt.isNone) = true := by decide
    simpa using List.all_eq_true.mp hall c hc
  have hapart := h smallConfig sample .empty racingStarts (racingMoves ++ [.advance 1]) .phone
    "+256700000000" (racingMoves.take 4) [.advance 1] (.advance 1) [] rfl firstChallenge hfirst
    (by decide) ?_ secondChallenge hsecond rfl (by decide)
  · exact absurd hapart (by decide)
  · intro before m' rest hsplit
    rcases before with _ | ⟨m, before⟩
    · cases hsplit
      rintro ⟨c, -, -, c', hc', -, hused⟩
      exact hused (hnone c' hc')
    · simp at hsplit

/-- A start half a minute after another challenge of its phone, one for a phone of its own
meanwhile, and one that comes too soon. -/
def threeStarts : List AuthCall :=
  [.start .phone "+256700000000" ⟨31500, 31500, 31501, 2, "654321", "b"⟩,
    .start .phone "+256700000001" ⟨31502, 31502, 31503, 3, "111111", "c"⟩,
    .start .phone "+256700000000" ⟨31504, 31504, 31505, 4, "222222", "d"⟩]

def byTurns : List Move := [0, 1, 0, 0, 2, 1, 2, 1, 0, 1].map .advance

set_option maxRecDepth 8000 in
theorem cooldown_kept_byTurns :
    CooldownKept 30 (system smallConfig sample (AuthDb.empty.insertChallenge firstChallenge)
      threeStarts) byTurns := by
  refine cooldown_kept smallConfig sample (AuthDb.empty.insertChallenge firstChallenge) threeStarts
    byTurns fun before m after hmoves => insertsInTime_of_current ?_ fun t x happ => ?_
  · intro channel value draw hmem
    simp only [threeStarts, List.mem_cons, List.not_mem_nil, or_false, AuthCall.start.injEq] at hmem
    obtain ⟨-, -, rfl⟩ | ⟨-, -, rfl⟩ | ⟨-, -, rfl⟩ := hmem
    all_goals decide
  · refine RunChecks.current_at (fun _ => true) [3, 7, 8, 9] (by decide) ⟨?_, ?_, ?_, ?_, trivial⟩
      hmoves rfl happ
    all_goals
      repeat refine And.intro rfl ?_
      trivial

end Akabbo.OtpCooldowns
