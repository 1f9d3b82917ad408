import Akabbo.FirstClaim
import Akabbo.OtpCooldowns
import Akabbo.RunChecks

/-!
# The attempts at one challenge

Any number of verifications, statement by statement. A call reads the challenge and compares its
code in one move; what came of it is stored two statements later. As long as no other call compares
a code in between, the limit holds and the challenge gives one session.
-/
namespace Akabbo.OtpAttempts
open Access RowTable StatementProgram ReadCommitted FirstClaim OtpChallenges
open OtpCooldowns hiding system
open StatementProgram.Program (query orThrow refuse accept commitNow)

structure VerifyCall where
  channel : Channel
  request : VerifyOtpRequest
  draw : VerifyDraw
  deriving DecidableEq, Repr

abbrev OpenCall := ReadCommitted.Session AuthLock AuthDb AuthError AuthSession

abbrev VerifySystem := System AuthLock AuthDb AuthError AuthSession

/-- What a call makes of the challenge it finds. -/
inductive Verdict
  | refused | wrong | right
  deriving DecidableEq, Repr

section calls
variable (cfg : AuthConfig) (scrypt : String → String → String)

def VerifyCall.program : VerifyCall → AuthProgram AuthSession
  | ⟨.phone, request, draw⟩ => verifyOtp cfg scrypt request draw
  | ⟨.email, request, draw⟩ => verifyEmailOtp cfg scrypt request draw

/-- Only a challenge that is presented on its channel, and passes the checks, has a code compared
with its hash. -/
def VerifyCall.verdict (call : VerifyCall) : Option AuthOtpChallenge → Verdict
  | none => .refused
  | some c =>
      if (c.presented call.channel).isNone then .refused
      else if (challengeRefusal cfg c call.draw.checkedAt).isSome then .refused
      else if c.codeHash.verifyOtp scrypt call.request.code then .right
      else .wrong

variable (db : AuthDb) (calls : List VerifyCall)

def system : VerifySystem :=
  System.begin db (calls.map (VerifyCall.program cfg scrypt))

/-- After these statements, each of the call with that number. -/
def reached (order : List ℕ) : VerifySystem :=
  (system cfg scrypt db calls).run (order.map .advance)

/-- The first statement of call `t` has read challenge `i`, with this verdict. -/
def Compared (i : ℕ) (v : Verdict) (order : List ℕ) (t : ℕ) : Prop :=
  ∃ early late call, order = early ++ t :: late ∧ t ∉ early ∧ calls[t]? = some call ∧
    call.request.challengeId = i ∧
    call.verdict cfg scrypt ((reached cfg scrypt db calls early).committed.challenges.get? i) = v

/-- The call has stored that its code was wrong, or that it used up the challenge. -/
def Stored (order : List ℕ) (t : ℕ) : Prop :=
  HasClaimed (VerifyCall.program cfg scrypt) calls db (order.map .advance) t

/-- A code is compared with challenge `i` only when all that was compared with it before is
stored. -/
def ComparesAlone (i : ℕ) (order : List ℕ) : Prop :=
  ∀ early t late, order = early ++ t :: late → ∀ v, v ≠ .refused →
    t ∉ early → Compared cfg scrypt db calls i v (early ++ [t]) t →
    ∀ u w, w ≠ .refused → Compared cfg scrypt db calls i w early u →
      Stored cfg scrypt db calls early u

/-- A session that a call on challenge `i` has returned. -/
def Issued (i : ℕ) (order : List ℕ) (t : ℕ) (call : VerifyCall) : Prop :=
  calls[t]? = some call ∧ call.request.challengeId = i ∧
    ∃ s, (reached cfg scrypt db calls order).slots[t]? = some (.finished (some (.ok s)))

/-- The promises about challenge `c`, whose past misses are in its `attempts`. -/
structure Guarded (c : AuthOtpChallenge) (order : List ℕ) : Prop where
  missed : ∀ ts : List ℕ, ts.Nodup →
    (∀ t ∈ ts, Compared cfg scrypt db calls c.id .wrong order t) →
      ts.length ≤ cfg.otpMaxAttempts - c.attempts
  once : ∀ t u call call', Issued cfg scrypt db calls c.id order t call →
    Issued cfg scrypt db calls c.id order u call' → c.consumedAt = none ∧ t = u
  issued : ∀ t call, Issued cfg scrypt db calls c.id order t call →
    call.draw.issuedAt ≤ c.expiresAt ∧ (∃ value, c.identifier call.channel = some value) ∧
      ∀ ts : List ℕ, ts.Nodup →
        (∀ u ∈ ts, Compared cfg scrypt db calls c.id .wrong order u) →
          ts.length < cfg.otpMaxAttempts - c.attempts

end calls

section call
variable {cfg : AuthConfig} {scrypt : String → String → String}

/-- What a call does once it has read the challenge. -/
def afterRead (cfg : AuthConfig) (scrypt : String → String → String) (call : VerifyCall)
    (found : Option AuthOtpChallenge) : AuthProgram AuthSession := do
  let challenge ← orThrow found (.badRequest "Invalid or expired challenge")
  let value ← orThrow (challenge.presented call.channel) (.badRequest "Invalid or expired challenge")
  refuse (challengeRefusal cfg challenge call.draw.checkedAt)
  if challenge.codeHash.verifyOtp scrypt call.request.code then
    establish cfg call.channel challenge value call.draw
  else countMiss challenge

theorem program_eq (call : VerifyCall) : call.program cfg scrypt =
    .select (fun db => db.challenges.get? call.request.challengeId) (afterRead cfg scrypt call) := by
  obtain ⟨channel, request, draw⟩ := call
  cases channel <;> rfl

/-- A challenge with which a code may be compared. -/
structure Open (cfg : AuthConfig) (call : VerifyCall) (c : AuthOtpChallenge) : Prop where
  presented : (c.presented call.channel).isSome = true
  free : c.consumedAt = none
  unexpired : call.draw.checkedAt ≤ c.expiresAt
  left : c.attempts < cfg.otpMaxAttempts

theorem challengeRefusal_eq_none {c : AuthOtpChallenge} {checkedAt : ℕ} :
    challengeRefusal cfg c checkedAt = none ↔
      c.consumedAt = none ∧ checkedAt ≤ c.expiresAt ∧ c.attempts < cfg.otpMaxAttempts := by
  unfold challengeRefusal
  split_ifs with hused hexpired hattempts
  · simp [Option.isSome_iff_ne_none.mp hused]
  · simp only [false_iff]
    omega
  · simp only [false_iff]
    omega
  · have hfree : c.consumedAt = none := by simpa using hused
    simp only [hfree, true_and, true_iff]
    omega

/-- The verdict is what the call goes on with. -/
theorem afterRead_cases (cfg : AuthConfig) (scrypt : String → String → String) (call : VerifyCall)
    (found : Option AuthOtpChallenge) :
    (call.verdict cfg scrypt found = .refused ∧ ∃ e, afterRead cfg scrypt call found = .throw e) ∨
    ∃ c, found = some c ∧ Open cfg call c ∧
      ((call.verdict cfg scrypt found = .wrong ∧ afterRead cfg scrypt call found = countMiss c) ∨
      (call.verdict cfg scrypt found = .right ∧ ∃ value,
        afterRead cfg scrypt call found = establish cfg call.channel c value call.draw)) := by
  cases found with
  | none => exact .inl ⟨rfl, _, rfl⟩
  | some c =>
    cases hpresented : c.presented call.channel with
    | none =>
      refine .inl ⟨by simp [VerifyCall.verdict, hpresented], .badRequest "Invalid or expired challenge", ?_⟩
      change orThrow (c.presented call.channel) _ >>= _ = _
      rw [hpresented]
      rfl
    | some value =>
      cases hrefusal : challengeRefusal cfg c call.draw.checkedAt with
      | some e =>
        refine .inl ⟨by simp [VerifyCall.verdict, hpresented, hrefusal], e, ?_⟩
        change orThrow (c.presented call.channel) _ >>= _ = _
        rw [hpresented]
        change refuse (challengeRefusal cfg c call.draw.checkedAt) >>= _ = _
        rw [hrefusal]
        rfl
      | none =>
        obtain ⟨hfree, hunexpired, hleft⟩ := challengeRefusal_eq_none.mp hrefusal
        refine .inr ⟨c, rfl, ⟨by simp [hpresented], hfree, hunexpired, hleft⟩, ?_⟩
        have hnext : afterRead cfg scrypt call (some c) =
            if c.codeHash.verifyOtp scrypt call.request.code then
              establish cfg call.channel c value call.draw
            else countMiss c := by
          change orThrow (c.presented call.channel) _ >>= _ = _
          rw [hpresented]
          change refuse (challengeRefusal cfg c call.draw.checkedAt) >>= _ = _
          rw [hrefusal]
          rfl
        rw [hnext]
        by_cases hcode : c.codeHash.verifyOtp scrypt call.request.code = true
        · right
          exact ⟨by simp [VerifyCall.verdict, hpresented, hrefusal, hcode], value, if_pos hcode⟩
        · left
          exact ⟨by simp [VerifyCall.verdict, hpresented, hrefusal, hcode], if_neg hcode⟩

end call

/-- The call is about to change challenge `i` by `g`, commit, and go on with `rest`. -/
inductive InFlight (i : ℕ) (g : AuthOtpChallenge → AuthOtpChallenge) (hg : ∀ c, (g c).id = c.id)
    (rest : AuthProgram AuthSession) (x : OpenCall) : Prop
  | reads (hrest : x.rest = (updateChallenge i g hg >>= fun _ => commitNow >>= fun _ => rest))
      (hpending : x.pending = id)
  | written (hrest : x.rest = (commitNow >>= fun _ => rest)) (hdirty : x.dirty = true)
      (hpending : ∀ db, x.pending db = db.updateChallenge i g hg)

section flight
variable {i : ℕ} {g : AuthOtpChallenge → AuthOtpChallenge} {hg : ∀ c, (g c).id = c.id}
  {rest : AuthProgram AuthSession} {x : OpenCall}
  {v : AuthDb}

/-- A write waits for its locks, or is pending. -/
theorem advance_write {α : Type} {l : AuthDb → List AuthLock} {q : AuthDb → α}
    {w : α → AuthDb → AuthDb} {k : α → AuthProgram AuthSession} (hr : x.rest = .write l q w k)
    (held : List AuthLock) (v : AuthDb) : ∃ x', x.advance held v = (v, .running x') ∧ (x' = x ∨
      x'.rest = k (q (x.pending v)) ∧ x'.pending = w (q (x.pending v)) ∘ x.pending ∧
        x'.dirty = true) := by
  simp only [Session.advance, hr]
  split_ifs
  · exact ⟨x, rfl, .inl rfl⟩
  · exact ⟨_, rfl, .inr ⟨rfl, rfl, rfl⟩⟩

/-- Such a call waits, writes, or stores its change; the row is never missing. -/
theorem flight_advance (h : InFlight i g hg rest x) (held : List AuthLock)
    (hrow : v.challenges.has i = true) :
    (∃ x', x.advance held v = (v, .running x') ∧ InFlight i g hg rest x' ∧
      ∀ k, x.rest = .commit k → x.dirty = false) ∨
    (x.advance held v = (v.updateChallenge i g hg, .running (.begin rest)) ∧
      x.Applies none) := by
  cases h with
  | reads hrest hpending =>
    left
    have hnot : ∀ k, x.rest = .commit k → x.dirty = false := by
      rw [hrest]
      exact nofun
    obtain ⟨x', hadv, hsame | ⟨hrest', hpending', hdirty'⟩⟩ := advance_write hrest held v
    · rw [hsame] at hadv
      exact ⟨x, hadv, .reads hrest hpending, hnot⟩
    · refine ⟨x', hadv, ?_, hnot⟩
      simp only [hpending, id_eq, hrow, if_true] at hrest' hpending'
      refine .written hrest' hdirty' fun db => ?_
      rw [hpending']
      rfl
  | written hrest hdirty hpending =>
    right
    have hcommit : x.rest = .commit rest := hrest
    refine ⟨?_, .commits hcommit hdirty⟩
    simp only [Session.advance, hcommit, hdirty, if_true, hpending]

end flight

def LeavesRow (i : ℕ) (f : AuthDb → AuthDb) : Prop :=
  ∀ db, (f db).challenges.get? i = db.challenges.get? i

theorem get?_updateChallenge (db : AuthDb) (i j : ℕ) {g : AuthOtpChallenge → AuthOtpChallenge}
    (hg : ∀ c, (g c).id = c.id) :
    (db.updateChallenge i g hg).challenges.get? j =
      if j = i then (db.challenges.get? j).map g else db.challenges.get? j := by
  change (db.challenges.update (fun c => c.id == i) g hg).get? j = _
  rw [Table.get?_update]
  cases hfound : db.challenges.get? j with
  | none => simp
  | some c =>
    have hid := Table.get?_key hfound
    by_cases hj : j = i <;> simp [hid, hj]

theorem leavesRow_updateChallenge {i j : ℕ} (h : j ≠ i) {g : AuthOtpChallenge → AuthOtpChallenge}
    {hg : ∀ c, (g c).id = c.id} : LeavesRow i fun db => db.updateChallenge j g hg := by
  intro db
  rw [get?_updateChallenge, if_neg h.symm]

theorem leavesRow_of_eq {i : ℕ} {f : AuthDb → AuthDb}
    (h : ∀ db, (f db).challenges = db.challenges) : LeavesRow i f := by
  intro db
  rw [h]

theorem everyCommit_otherRow (cfg : AuthConfig) (scrypt : String → String → String) {i : ℕ}
    (call : VerifyCall) (h : call.request.challengeId ≠ i) :
    EveryCommit (fun _ => True) (fun _ _ f => LeavesRow i f) (call.program cfg scrypt) false [] id := by
  rw [program_eq]
  intro db _
  refine everyCommit_orThrow_bind fun c hc => everyCommit_orThrow_bind fun value _ =>
    everyCommit_refuse_bind ?_
  have hne : c.id ≠ i := by
    rw [Table.get?_key hc]
    exact h
  split_ifs
  · refine everyCommit_modifyChecked_bind fun _ _ _ _ =>
      everyCommit_commitNow (leavesRow_updateChallenge hne) ?_
    exact everyCommit_signIn (fun _ _ _ => leavesRow_of_eq) cfg call.channel value call.draw
  · exact everyCommit_modifyChecked_bind fun _ _ _ _ =>
      everyCommit_commitNow (leavesRow_updateChallenge hne) trivial

section standing
variable (cfg : AuthConfig) (scrypt : String → String → String) (db : AuthDb)
  (calls : List VerifyCall) (c₀ : AuthOtpChallenge)

/-- What has become of the challenge. -/
structure Aged (c : AuthOtpChallenge) : Prop where
  identifier : ∀ channel, c.identifier channel = c₀.identifier channel
  expiresAt : c.expiresAt = c₀.expiresAt
  attempts : c₀.attempts ≤ c.attempts
  within : c.attempts ≤ cfg.otpMaxAttempts ∨ c.attempts = c₀.attempts
  used : c.consumedAt = none → c₀.consumedAt = none

/-- The stored attempts cover the wrong codes, all but those of the busy call; a right one has used
the challenge up, unless it is that of the busy call. -/
structure Tally (order : List ℕ) (busy : Option ℕ) (c : AuthOtpChallenge) : Prop where
  aged : Aged cfg c₀ c
  missed : ∀ ts : List ℕ, ts.Nodup →
    (∀ t ∈ ts, Compared cfg scrypt db calls c₀.id .wrong order t ∧ some t ≠ busy) →
      ts.length + c₀.attempts ≤ c.attempts
  used : ∀ t, Compared cfg scrypt db calls c₀.id .right order t → some t ≠ busy →
    c.consumedAt ≠ none
  sole : ∀ t u, Compared cfg scrypt db calls c₀.id .right order t →
    Compared cfg scrypt db calls c₀.id .right order u → t = u
  proper : ∀ t call, calls[t]? = some call → Compared cfg scrypt db calls c₀.id .right order t →
    c₀.consumedAt = none ∧ call.draw.checkedAt ≤ c₀.expiresAt ∧
      (∃ value, c₀.identifier call.channel = some value) ∧ c.attempts < cfg.otpMaxAttempts

/-- An open call that will leave the challenge alone. -/
inductive Idle (order : List ℕ) (t : ℕ) (call : VerifyCall) (x : OpenCall) : Prop
  | stopping {e : AuthError} (he : x.rest = .throw e)
  | working (hkeeps : x.Keeps (fun _ => True) fun _ _ f => LeavesRow c₀.id f)
      (hright : call.request.challengeId = c₀.id →
        Compared cfg scrypt db calls c₀.id .right order t)

structure Others (order : List ℕ) (busy : Option ℕ) (sys : VerifySystem) : Prop where
  fresh : ∀ (t : ℕ) call, calls[t]? = some call → t ∉ order →
    sys.slots[t]? = some (.running (.begin (call.program cfg scrypt)))
  opened : ∀ (t : ℕ) x, t ∈ order → some t ≠ busy → sys.slots[t]? = some (.running x) →
    ∃ call, calls[t]? = some call ∧ Idle cfg scrypt db calls c₀ order t call x
  ended : ∀ (t : ℕ) call s, calls[t]? = some call → call.request.challengeId = c₀.id →
    sys.slots[t]? = some (.finished (some (.ok s))) →
      Compared cfg scrypt db calls c₀.id .right order t

/-- The busy call, between its comparison and the commit of what came of it. -/
inductive Busy (order : List ℕ) (u : ℕ) (x : OpenCall) : Prop
  | missed (hwrong : Compared cfg scrypt db calls c₀.id .wrong order u) {e : AuthError}
      (h : InFlight c₀.id AuthOtpChallenge.missed (fun _ => rfl) (.throw e) x)
  | consumes (hright : Compared cfg scrypt db calls c₀.id .right order u) {now : ℕ}
      {channel : Channel} {value : String} {draw : VerifyDraw}
      (h : InFlight c₀.id (AuthOtpChallenge.consume now) (fun _ => rfl)
        (signIn cfg channel value draw) x)

inductive Standing (order : List ℕ) (sys : VerifySystem) : Prop
  | quiet {c : AuthOtpChallenge} (hrow : sys.committed.challenges.get? c₀.id = some c)
      (htally : Tally cfg scrypt db calls c₀ order none c)
      (hothers : Others cfg scrypt db calls c₀ order none sys)
  | busy {c : AuthOtpChallenge} (u : ℕ) {x : OpenCall}
      (hrow : sys.committed.challenges.get? c₀.id = some c)
      (hslot : sys.slots[u]? = some (.running x)) (hbusy : Busy cfg scrypt db calls c₀ order u x)
      (hnot : ¬ Stored cfg scrypt db calls order u) (hfree : c.consumedAt = none)
      (hleft : c.attempts < cfg.otpMaxAttempts)
      (htally : Tally cfg scrypt db calls c₀ order (some u) c)
      (hothers : Others cfg scrypt db calls c₀ order (some u) sys)

end standing

section steps
variable {cfg : AuthConfig} {scrypt : String → String → String} {db : AuthDb}
  {calls : List VerifyCall} {c₀ : AuthOtpChallenge} {order : List ℕ} {t u : ℕ} {i : ℕ}
  {v w : Verdict} {call : VerifyCall} {busy : Option ℕ} {c : AuthOtpChallenge}
  {x : OpenCall}

theorem reached_snoc : reached cfg scrypt db calls (order ++ [t]) =
    (reached cfg scrypt db calls order).step (.advance t) := by
  unfold reached
  rw [List.map_append, run_append]
  rfl

theorem call_of_running
    (h : (reached cfg scrypt db calls order).slots[t]? = some (.running x)) :
    ∃ call, calls[t]? = some call := by
  have hlength : (reached cfg scrypt db calls order).slots.length = calls.length := by
    unfold reached
    rw [length_run]
    simp [system, System.begin]
  have ht := (List.getElem?_eq_some_iff.mp h).1
  exact ⟨calls[t], List.getElem?_eq_getElem (hlength ▸ ht)⟩

theorem compared_snoc : Compared cfg scrypt db calls i v (order ++ [t]) u ↔
    Compared cfg scrypt db calls i v order u ∨ (u = t ∧ t ∉ order ∧ ∃ call, calls[t]? = some call ∧
      call.request.challengeId = i ∧
      call.verdict cfg scrypt ((reached cfg scrypt db calls order).committed.challenges.get? i) = v) := by
  constructor
  · rintro ⟨early, late, call, horder, hnew, hcall, hid, hverdict⟩
    rcases List.eq_nil_or_concat late with rfl | ⟨late, last, rfl⟩
    · obtain ⟨rfl, hlast⟩ := List.append_inj' horder rfl
      obtain rfl := List.singleton_inj.mp hlast
      exact .inr ⟨rfl, hnew, call, hcall, hid, hverdict⟩
    · have hsplit : order ++ [t] = (early ++ u :: late) ++ [last] := by simpa using horder
      exact .inl ⟨early, late, call, (List.append_inj' hsplit rfl).1, hnew, hcall, hid, hverdict⟩
  · rintro (⟨early, late, call, rfl, hrest⟩ | ⟨rfl, hnew, call, hrest⟩)
    · exact ⟨early, late ++ [t], call, by simp, hrest⟩
    · exact ⟨order, [], call, rfl, hnew, hrest⟩

theorem compared_mem (h : Compared cfg scrypt db calls i v order t) : t ∈ order := by
  obtain ⟨early, late, call, rfl, -⟩ := h
  simp

theorem compared_mono (h : Compared cfg scrypt db calls i v order u) :
    Compared cfg scrypt db calls i v (order ++ [t]) u := compared_snoc.mpr (.inl h)

theorem first_inj {α : Type} {xs ys zs ws : List α} {a : α} (h : xs ++ a :: zs = ys ++ a :: ws)
    (hx : a ∉ xs) (hy : a ∉ ys) : xs = ys := by
  induction xs generalizing ys with
  | nil =>
    cases ys with
    | nil => rfl
    | cons y ys =>
      obtain ⟨rfl, -⟩ := List.cons_eq_cons.mp h
      exact absurd List.mem_cons_self hy
  | cons x xs ih =>
    cases ys with
    | nil =>
      obtain ⟨rfl, -⟩ := List.cons_eq_cons.mp h
      exact absurd List.mem_cons_self hx
    | cons y ys =>
      obtain ⟨rfl, hrest⟩ := List.cons_eq_cons.mp h
      rw [ih hrest (fun hmem => hx (List.mem_cons_of_mem _ hmem)) fun hmem =>
        hy (List.mem_cons_of_mem _ hmem)]

/-- A call has one verdict. -/
theorem compared_inj (h : Compared cfg scrypt db calls i v order t)
    (h' : Compared cfg scrypt db calls i w order t) : v = w := by
  obtain ⟨early, late, call, rfl, hnew, hcall, -, rfl⟩ := h
  obtain ⟨early', late', call', horder, hnew', hcall', -, rfl⟩ := h'
  obtain rfl := first_inj horder hnew hnew'
  obtain rfl : call = call' := Option.some.inj (hcall.symm.trans hcall')
  rfl

theorem stored_snoc : Stored cfg scrypt db calls (order ++ [t]) u ↔
    Stored cfg scrypt db calls order u ∨
      ∃ x, Applied (reached cfg scrypt db calls order) (.advance t) u x none := by
  unfold Stored
  rw [List.map_append]
  exact hasClaimed_snoc

/-- What an idle call does in one move. -/
structure IdleMove (cfg : AuthConfig) (scrypt : String → String → String) (db : AuthDb)
    (calls : List VerifyCall) (c₀ : AuthOtpChallenge) (order : List ℕ) (t : ℕ)
    (next : AuthDb × Slot AuthLock AuthDb AuthError AuthSession) : Prop where
  row : next.1.challenges.get? c₀.id =
    (reached cfg scrypt db calls order).committed.challenges.get? c₀.id
  opened : ∀ x, next.2 = .running x →
    ∃ call, calls[t]? = some call ∧ Idle cfg scrypt db calls c₀ (order ++ [t]) t call x
  ended : ∀ call s, calls[t]? = some call → call.request.challengeId = c₀.id →
    next.2 = .finished (some (.ok s)) → Compared cfg scrypt db calls c₀.id .right (order ++ [t]) t
  same : ∀ v, v ≠ .refused → ∀ u, Compared cfg scrypt db calls c₀.id v (order ++ [t]) u ↔
    Compared cfg scrypt db calls c₀.id v order u

theorem tally_congr {order' : List ℕ} (h : Tally cfg scrypt db calls c₀ order busy c)
    (hsame : ∀ v, v ≠ .refused → ∀ u, Compared cfg scrypt db calls c₀.id v order' u ↔
      Compared cfg scrypt db calls c₀.id v order u) :
    Tally cfg scrypt db calls c₀ order' busy c where
  aged := h.aged
  missed ts hnodup hts := h.missed ts hnodup fun t ht =>
    ⟨(hsame .wrong nofun t).mp (hts t ht).1, (hts t ht).2⟩
  used t ht := h.used t ((hsame .right nofun t).mp ht)
  sole t u ht hu := h.sole t u ((hsame .right nofun t).mp ht) ((hsame .right nofun u).mp hu)
  proper t call hcall ht := h.proper t call hcall ((hsame .right nofun t).mp ht)

theorem idle_mono (h : Idle cfg scrypt db calls c₀ order u call x) :
    Idle cfg scrypt db calls c₀ (order ++ [t]) u call x := by
  cases h with
  | stopping he => exact .stopping he
  | working hkeeps hright => exact .working hkeeps fun hid => compared_mono (hright hid)

/-- One call moves, and the others stay where they are. -/
theorem others_set {v : AuthDb} {y : Slot AuthLock AuthDb AuthError AuthSession} {busy' : Option ℕ}
    (h : Others cfg scrypt db calls c₀ order busy (reached cfg scrypt db calls order))
    (hbusy : ∀ u, u ≠ t → some u ≠ busy' → some u ≠ busy)
    (hopened : ∀ x, some t ≠ busy' → y = .running x →
      ∃ call, calls[t]? = some call ∧ Idle cfg scrypt db calls c₀ (order ++ [t]) t call x)
    (hended : ∀ call s, calls[t]? = some call → call.request.challengeId = c₀.id →
      y = .finished (some (.ok s)) → Compared cfg scrypt db calls c₀.id .right (order ++ [t]) t) :
    Others cfg scrypt db calls c₀ (order ++ [t]) busy'
      ⟨v, (reached cfg scrypt db calls order).slots.set t y⟩ where
  fresh u call hcall hu := by
    have hne : t ≠ u := by
      rintro rfl
      simp at hu
    rw [List.getElem?_set_ne hne]
    exact h.fresh u call hcall fun hmem => hu (List.mem_append_left _ hmem)
  opened u x hu hfree hx := by
    rcases slot_set hx with ⟨rfl, hy⟩ | ⟨hne, hx⟩
    · exact hopened x hfree hy
    · have hmem : u ∈ order := by simpa [hne] using hu
      obtain ⟨call, hcall, hidle⟩ := h.opened u x hmem (hbusy u hne hfree) hx
      exact ⟨call, hcall, idle_mono hidle⟩
  ended u call s hcall hid hs := by
    rcases slot_set hs with ⟨rfl, hy⟩ | ⟨hne, hs⟩
    · exact hended call s hcall hid hy
    · exact compared_mono (h.ended u call s hcall hid hs)

theorem quiet_of_idle {next : AuthDb × Slot AuthLock AuthDb AuthError AuthSession}
    (hmove : IdleMove cfg scrypt db calls c₀ order t next)
    (hrow : (reached cfg scrypt db calls order).committed.challenges.get? c₀.id = some c)
    (htally : Tally cfg scrypt db calls c₀ order none c)
    (hothers : Others cfg scrypt db calls c₀ order none (reached cfg scrypt db calls order)) :
    Standing cfg scrypt db calls c₀ (order ++ [t])
      ⟨next.1, (reached cfg scrypt db calls order).slots.set t next.2⟩ :=
  .quiet (hmove.row.trans hrow) (tally_congr htally hmove.same)
    (others_set hothers (fun _ _ h => h) (fun x _ => hmove.opened x) hmove.ended)

theorem busy_of_idle {next : AuthDb × Slot AuthLock AuthDb AuthError AuthSession}
    (hmove : IdleMove cfg scrypt db calls c₀ order t next) (hne : u ≠ t)
    (hrow : (reached cfg scrypt db calls order).committed.challenges.get? c₀.id = some c)
    (hslot : (reached cfg scrypt db calls order).slots[u]? = some (.running x))
    (hbusy : Busy cfg scrypt db calls c₀ order u x) (hnot : ¬ Stored cfg scrypt db calls order u)
    (hfree : c.consumedAt = none) (hleft : c.attempts < cfg.otpMaxAttempts)
    (htally : Tally cfg scrypt db calls c₀ order (some u) c)
    (hothers : Others cfg scrypt db calls c₀ order (some u) (reached cfg scrypt db calls order)) :
    Standing cfg scrypt db calls c₀ (order ++ [t])
      ⟨next.1, (reached cfg scrypt db calls order).slots.set t next.2⟩ := by
  have hslot' : ((reached cfg scrypt db calls order).slots.set t next.2)[u]? = some (.running x) := by
    rw [List.getElem?_set_ne hne.symm]
    exact hslot
  refine .busy u (hmove.row.trans hrow) hslot' ?_ (fun hstored => ?_) hfree hleft
    (tally_congr htally hmove.same)
    (others_set hothers (fun _ _ h => h) (fun x _ => hmove.opened x) hmove.ended)
  · cases hbusy with
    | missed hwrong h => exact .missed (compared_mono hwrong) h
    | consumes hright h => exact .consumes (compared_mono hright) h
  · rcases stored_snoc.mp hstored with hold | ⟨z, happ⟩
    · exact hnot hold
    · cases happ.move
      exact hne rfl

/-- After its first statement a call's verdict is known. -/
theorem same_of_mem (hmem : t ∈ order) (v : Verdict) (u : ℕ) :
    Compared cfg scrypt db calls i v (order ++ [t]) u ↔ Compared cfg scrypt db calls i v order u := by
  rw [compared_snoc]
  exact ⟨fun h => h.resolve_right fun hnew => hnew.2.1 hmem, .inl⟩

theorem idleMove_of_idle (hcall : calls[t]? = some call) (hmem : t ∈ order)
    (hidle : Idle cfg scrypt db calls c₀ order t call x) :
    IdleMove cfg scrypt db calls c₀ order t
      (x.advance ((reached cfg scrypt db calls order).heldByOthers t)
        (reached cfg scrypt db calls order).committed) := by
  cases hidle with
  | @stopping e he =>
    have hadv : x.advance ((reached cfg scrypt db calls order).heldByOthers t)
        (reached cfg scrypt db calls order).committed =
          ((reached cfg scrypt db calls order).committed, .finished (some (.error e))) := by
      simp [Session.advance, he]
    rw [hadv]
    exact ⟨rfl, by simp, by simp, fun v _ => same_of_mem hmem v⟩
  | working hkeeps hright =>
    refine ⟨?_, fun x' hx' => ?_, fun call' s hcall' hid _ => ?_, fun v _ => same_of_mem hmem v⟩
    · have hadv := advanced x ((reached cfg scrypt db calls order).heldByOthers t)
        (reached cfg scrypt db calls order).committed
      generalize x.advance _ _ = next at hadv
      cases hadv with
      | returns hr => exact keeps_return hkeeps hr _
      | throws he => rfl
      | commits hk hd => exact keeps_applies hkeeps (.commits hk hd) _
      | goes hnot htied => rfl
    · exact ⟨call, hcall, .working (keeps_advance hkeeps trivial hx') fun hid =>
        compared_mono (hright hid)⟩
    · obtain rfl : call = call' := Option.some.inj (hcall.symm.trans hcall')
      exact compared_mono (hright hid)

/-- The first statement of a call reads its challenge. -/
theorem begin_advance (cfg : AuthConfig) (scrypt : String → String → String) (call : VerifyCall)
    (held : List AuthLock) (v : AuthDb) :
    ∃ x, (Session.begin (call.program cfg scrypt)).advance held v = (v, .running x) ∧
      x.rest = afterRead cfg scrypt call (v.challenges.get? call.request.challengeId) ∧
      x.pending = id := by
  rw [program_eq]
  exact ⟨_, rfl, rfl, rfl⟩

/-- A verdict on another challenge, or one without a comparison. -/
theorem same_of_refused (hcall : calls[t]? = some call)
    (hrefused : call.request.challengeId = i → call.verdict cfg scrypt
      ((reached cfg scrypt db calls order).committed.challenges.get? i) = .refused)
    (hv : v ≠ .refused) (u : ℕ) :
    Compared cfg scrypt db calls i v (order ++ [t]) u ↔ Compared cfg scrypt db calls i v order u := by
  rw [compared_snoc]
  refine ⟨fun h => h.resolve_right ?_, .inl⟩
  rintro ⟨-, -, call', hcall', hid, hverdict⟩
  obtain rfl : call = call' := Option.some.inj (hcall.symm.trans hcall')
  exact hv (hverdict.symm.trans (hrefused hid))

theorem idleMove_of_begin (hcall : calls[t]? = some call)
    (hrefused : call.request.challengeId = c₀.id → call.verdict cfg scrypt
      ((reached cfg scrypt db calls order).committed.challenges.get? c₀.id) = .refused) :
    IdleMove cfg scrypt db calls c₀ order t ((Session.begin (call.program cfg scrypt)).advance
      ((reached cfg scrypt db calls order).heldByOthers t)
      (reached cfg scrypt db calls order).committed) := by
  obtain ⟨x, hadv, hrest, -⟩ := begin_advance cfg scrypt call
    ((reached cfg scrypt db calls order).heldByOthers t) (reached cfg scrypt db calls order).committed
  rw [hadv]
  refine ⟨rfl, fun x' hx' => ⟨call, hcall, ?_⟩, nofun, fun v hv => same_of_refused hcall hrefused hv⟩
  cases hx'
  by_cases hid : call.request.challengeId = c₀.id
  · rw [hid] at hrest
    rcases afterRead_cases cfg scrypt call
      ((reached cfg scrypt db calls order).committed.challenges.get? c₀.id) with
      ⟨-, e, he⟩ | ⟨c, -, -, ⟨hwrong, -⟩ | ⟨hright, -⟩⟩
    · exact .stopping (hrest.trans he)
    · cases (hrefused hid).symm.trans hwrong
    · cases (hrefused hid).symm.trans hright
  · refine .working ?_ fun h => absurd h hid
    exact keeps_advance (x := .begin (call.program cfg scrypt)) (everyCommit_otherRow cfg scrypt call hid)
      trivial (congrArg Prod.snd hadv)

theorem mem_of_stored (h : Stored cfg scrypt db calls order u) : u ∈ order := by
  obtain ⟨early, m, late, x, horder, happ⟩ := h
  have hmem : m ∈ order.map Move.advance := by
    rw [horder]
    simp
  rw [happ.move] at hmem
  simpa using hmem

theorem not_stored_of_begin (hnew : t ∉ order) (hslot : (reached cfg scrypt db calls order).slots[t]? =
      some (.running (.begin (call.program cfg scrypt)))) :
    ¬ Stored cfg scrypt db calls (order ++ [t]) t := by
  intro h
  rcases stored_snoc.mp h with hold | ⟨x, happ⟩
  · exact hnew (mem_of_stored hold)
  · obtain ⟨-, k, hk, -⟩ := applied_advance hslot happ
    have hrest : (Session.begin (call.program cfg scrypt)).rest = call.program cfg scrypt := rfl
    rw [hrest, program_eq] at hk
    cases hk

/-- A call compares its code while nobody else is about to store anything. -/
theorem busy_of_begin (hcall : calls[t]? = some call) (hid : call.request.challengeId = c₀.id)
    (hnew : t ∉ order) (hslot : (reached cfg scrypt db calls order).slots[t]? =
      some (.running (.begin (call.program cfg scrypt))))
    (hcompares : call.verdict cfg scrypt
      ((reached cfg scrypt db calls order).committed.challenges.get? c₀.id) ≠ .refused)
    (hrow : (reached cfg scrypt db calls order).committed.challenges.get? c₀.id = some c)
    (htally : Tally cfg scrypt db calls c₀ order none c)
    (hothers : Others cfg scrypt db calls c₀ order none (reached cfg scrypt db calls order)) :
    Standing cfg scrypt db calls c₀ (order ++ [t]) (reached cfg scrypt db calls (order ++ [t])) := by
  obtain ⟨x, hadv, hrest, hpending⟩ := begin_advance cfg scrypt call
    ((reached cfg scrypt db calls order).heldByOthers t) (reached cfg scrypt db calls order).committed
  have hlt := (List.getElem?_eq_some_iff.mp hslot).1
  have hnow : ((reached cfg scrypt db calls order).slots.set t (.running x))[t]? =
      some (.running x) := List.getElem?_set_self hlt
  have hnone : ∀ u, Compared cfg scrypt db calls c₀.id .right order u → c.consumedAt ≠ none :=
    fun u hu => htally.used u hu nofun
  rw [hid, hrow] at hrest
  rw [hrow] at hcompares
  -- the first comparison of this call is the only new one
  have hcompared (v : Verdict) (u : ℕ) : Compared cfg scrypt db calls c₀.id v (order ++ [t]) u ↔
      Compared cfg scrypt db calls c₀.id v order u ∨
        (u = t ∧ call.verdict cfg scrypt (some c) = v) := by
    rw [compared_snoc]
    refine or_congr_right ⟨?_, ?_⟩
    · rintro ⟨rfl, -, call', hcall', -, hverdict⟩
      obtain rfl : call = call' := Option.some.inj (hcall.symm.trans hcall')
      rw [hrow] at hverdict
      exact ⟨rfl, hverdict⟩
    · rintro ⟨rfl, hverdict⟩
      exact ⟨rfl, hnew, call, hcall, hid, by rw [hrow]; exact hverdict⟩
  rw [reached_snoc, step_advance hslot, hadv]
  have hothers' : Others cfg scrypt db calls c₀ (order ++ [t]) (some t)
      ⟨(reached cfg scrypt db calls order).committed,
        (reached cfg scrypt db calls order).slots.set t (.running x)⟩ :=
    others_set hothers (fun _ _ _ => nofun) (fun _ h _ => absurd rfl h) fun _ _ _ _ h => by cases h
  obtain ⟨hopen, hbusy⟩ : Open cfg call c ∧ Busy cfg scrypt db calls c₀ (order ++ [t]) t x := by
    have hkey : c.id = c₀.id := Table.get?_key hrow
    rcases afterRead_cases cfg scrypt call (some c) with
      ⟨hrefused, -⟩ | ⟨c', hsome, hopen, ⟨hverdict, hnext⟩ | ⟨hverdict, value, hnext⟩⟩
    · exact absurd hrefused hcompares
    · cases hsome
      have hflight : InFlight c₀.id AuthOtpChallenge.missed (fun _ => rfl)
          (.throw (.unauthorized "Incorrect code")) x := by
        refine .reads ?_ hpending
        rw [hrest, hnext, ← hkey]
        rfl
      exact ⟨hopen, .missed ((hcompared .wrong t).mpr (.inr ⟨rfl, hverdict⟩)) hflight⟩
    · cases hsome
      have hflight : InFlight c₀.id (AuthOtpChallenge.consume call.draw.consumedAt) (fun _ => rfl)
          (signIn cfg call.channel value call.draw) x := by
        refine .reads ?_ hpending
        rw [hrest, hnext, ← hkey]
        rfl
      exact ⟨hopen, .consumes ((hcompared .right t).mpr (.inr ⟨rfl, hverdict⟩)) hflight⟩
  have hright (u : ℕ) (hu : Compared cfg scrypt db calls c₀.id .right (order ++ [t]) u) : u = t :=
    (((hcompared .right u).mp hu).resolve_left fun hold => hnone u hold hopen.free).1
  refine .busy t hrow hnow hbusy (not_stored_of_begin hnew hslot) hopen.free hopen.left ?_ hothers'
  constructor
  · exact htally.aged
  · intro ts hnodup hts
    refine htally.missed ts hnodup fun u hu => ⟨?_, nofun⟩
    obtain ⟨hwrong, hne⟩ := hts u hu
    exact ((hcompared .wrong u).mp hwrong).resolve_right fun hnow => hne (congrArg some hnow.1)
  · intro u hu hne
    exact absurd (congrArg some (hright u hu)) hne
  · intro u u' hu hu'
    rw [hright u hu, hright u' hu']
  · intro u call' hcall' hu
    obtain rfl := hright u hu
    obtain rfl : call = call' := Option.some.inj (hcall.symm.trans hcall')
    refine ⟨htally.aged.used hopen.free, htally.aged.expiresAt ▸ hopen.unexpired, ?_, hopen.left⟩
    obtain ⟨value, hvalue⟩ := Option.isSome_iff_exists.mp hopen.presented
    refine ⟨value, ?_⟩
    rw [← htally.aged.identifier]
    exact (Option.filter_eq_some_iff.mp hvalue).1

/-- With the code of the busy call, one more may have been wrong than is stored. -/
theorem missed_of_busy (h : Tally cfg scrypt db calls c₀ order (some u) c) {ts : List ℕ}
    (hnodup : ts.Nodup) (hts : ∀ t ∈ ts, Compared cfg scrypt db calls c₀.id .wrong order t) :
    ts.length + c₀.attempts ≤ c.attempts + 1 := by
  by_cases hmem : u ∈ ts
  · have hrest := h.missed (ts.erase u) (hnodup.erase u) fun t ht => by
      obtain ⟨hne, ht⟩ := hnodup.mem_erase_iff.mp ht
      exact ⟨hts t ht, fun he => hne (Option.some.inj he)⟩
    rw [List.length_erase_of_mem hmem] at hrest
    omega
  · have hall := h.missed ts hnodup fun t ht =>
      ⟨hts t ht, fun he => hmem (Option.some.inj he ▸ ht)⟩
    omega

/-- A call that has compared a wrong code is alone with it. -/
theorem no_right_of_wrong (hwrong : Compared cfg scrypt db calls c₀.id .wrong order u)
    (hfree : c.consumedAt = none) (h : Tally cfg scrypt db calls c₀ order (some u) c) (t : ℕ) :
    ¬ Compared cfg scrypt db calls c₀.id .right order t := by
  intro ht
  by_cases htu : t = u
  · subst htu
    cases compared_inj ht hwrong
  · exact h.used t ht (fun he => htu (Option.some.inj he)) hfree

/-- A wrong code that is stored counts as an attempt. -/
theorem tally_missed (hwrong : Compared cfg scrypt db calls c₀.id .wrong order u)
    (hfree : c.consumedAt = none) (hleft : c.attempts < cfg.otpMaxAttempts)
    (h : Tally cfg scrypt db calls c₀ order (some u) c) :
    Tally cfg scrypt db calls c₀ order none c.missed := by
  have hattempts : c.missed.attempts = c.attempts + 1 := rfl
  have hnone := no_right_of_wrong hwrong hfree h
  constructor
  · have haged := h.aged
    refine ⟨fun channel => ?_, haged.expiresAt, ?_, .inl ?_, haged.used⟩
    · rw [← haged.identifier channel]
      cases channel <;> rfl
    · have := haged.attempts
      omega
    · omega
  · exact fun ts hnodup hts => missed_of_busy h hnodup fun t ht => (hts t ht).1
  · exact fun t ht _ => (hnone t ht).elim
  · exact h.sole
  · exact fun t call _ ht => (hnone t ht).elim

/-- A right code that is stored uses the challenge up. -/
theorem tally_consume {now : ℕ} (hright : Compared cfg scrypt db calls c₀.id .right order u)
    (h : Tally cfg scrypt db calls c₀ order (some u) c) :
    Tally cfg scrypt db calls c₀ order none (c.consume now) := by
  constructor
  · have haged := h.aged
    refine ⟨fun channel => ?_, haged.expiresAt, haged.attempts, haged.within, nofun⟩
    rw [← haged.identifier channel]
    cases channel <;> rfl
  · intro ts hnodup hts
    refine h.missed ts hnodup fun t ht => ⟨(hts t ht).1, fun he => ?_⟩
    have hwrong := (hts t ht).1
    rw [Option.some.inj he] at hwrong
    cases compared_inj hwrong hright
  · exact fun _ _ _ => nofun
  · exact h.sole
  · exact h.proper

/-- The busy call waits, writes, or stores what came of its comparison. -/
theorem standing_of_busy (hslot : (reached cfg scrypt db calls order).slots[u]? = some (.running x))
    (hrow : (reached cfg scrypt db calls order).committed.challenges.get? c₀.id = some c)
    (hbusy : Busy cfg scrypt db calls c₀ order u x) (hnot : ¬ Stored cfg scrypt db calls order u)
    (hfree : c.consumedAt = none) (hleft : c.attempts < cfg.otpMaxAttempts)
    (htally : Tally cfg scrypt db calls c₀ order (some u) c)
    (hothers : Others cfg scrypt db calls c₀ order (some u) (reached cfg scrypt db calls order)) :
    Standing cfg scrypt db calls c₀ (order ++ [u]) (reached cfg scrypt db calls (order ++ [u])) := by
  obtain ⟨call, hcall⟩ := call_of_running hslot
  have hlt := (List.getElem?_eq_some_iff.mp hslot).1
  have hhas : (reached cfg scrypt db calls order).committed.challenges.has c₀.id = true :=
    Table.has_iff.mpr ⟨c, Table.get?_mem hrow, Table.get?_key hrow⟩
  have hmem : u ∈ order := by
    cases hbusy with
    | missed hwrong _ => exact compared_mem hwrong
    | consumes hright _ => exact compared_mem hright
  have hstays {x' : OpenCall}
      (hbusy' : Busy cfg scrypt db calls c₀ (order ++ [u]) u x')
      (hwaits : ∀ k, x.rest = .commit k → x.dirty = false) :
      Standing cfg scrypt db calls c₀ (order ++ [u])
        ⟨(reached cfg scrypt db calls order).committed,
          (reached cfg scrypt db calls order).slots.set u (.running x')⟩ := by
    refine .busy u hrow (List.getElem?_set_self hlt) hbusy' (fun hstored => ?_) hfree hleft
      (tally_congr htally fun v _ => same_of_mem hmem v)
      (others_set hothers (fun _ _ h => h) (fun _ h => absurd rfl h) fun _ _ _ _ h => by cases h)
    rcases stored_snoc.mp hstored with hold | ⟨z, happ⟩
    · exact hnot hold
    · obtain ⟨-, k, hk, hd⟩ := applied_advance hslot happ
      rw [hwaits k hk] at hd
      cases hd
  have hstores {g : AuthOtpChallenge → AuthOtpChallenge} (hg : ∀ c, (g c).id = c.id)
      {rest : AuthProgram AuthSession}
      (htally' : Tally cfg scrypt db calls c₀ order none (g c))
      (hidle : Idle cfg scrypt db calls c₀ (order ++ [u]) u call (.begin rest)) :
      Standing cfg scrypt db calls c₀ (order ++ [u])
        ⟨(reached cfg scrypt db calls order).committed.updateChallenge c₀.id g hg,
          (reached cfg scrypt db calls order).slots.set u (.running (.begin rest))⟩ := by
    refine .quiet (c := g c) ?_ (tally_congr htally' fun v _ => same_of_mem hmem v)
      (others_set hothers (fun w hne _ he => hne (Option.some.inj he)) (fun x' _ hx' => ?_)
        fun _ _ _ _ h => by cases h)
    · rw [get?_updateChallenge, if_pos rfl, hrow]
      rfl
    · cases hx'
      exact ⟨call, hcall, hidle⟩
  rw [reached_snoc, step_advance hslot]
  cases hbusy with
  | missed hwrong h =>
    rcases flight_advance h ((reached cfg scrypt db calls order).heldByOthers u) hhas with
      ⟨x', hadv, hflight, hwaits⟩ | ⟨hadv, -⟩
    · rw [hadv]
      exact hstays (.missed (compared_mono hwrong) hflight) hwaits
    · rw [hadv]
      exact hstores _ (tally_missed hwrong hfree hleft htally) (.stopping rfl)
  | consumes hright h =>
    rcases flight_advance h ((reached cfg scrypt db calls order).heldByOthers u) hhas with
      ⟨x', hadv, hflight, hwaits⟩ | ⟨hadv, -⟩
    · rw [hadv]
      exact hstays (.consumes (compared_mono hright) hflight) hwaits
    · rw [hadv]
      refine hstores _ (tally_consume hright htally) (.working ?_ fun _ => compared_mono hright)
      exact everyCommit_signIn (fun _ _ _ => leavesRow_of_eq) _ _ _ _

/-- A move of a call that is not open. -/
theorem standing_of_closed (hclosed : ∀ x, (reached cfg scrypt db calls order).slots[t]? ≠ some (.running x))
    (h : Standing cfg scrypt db calls c₀ order (reached cfg scrypt db calls order)) :
    Standing cfg scrypt db calls c₀ (order ++ [t]) (reached cfg scrypt db calls (order ++ [t])) := by
  have hstep : (reached cfg scrypt db calls order).step (.advance t) =
      reached cfg scrypt db calls order := by
    rcases step_cases_open (reached cfg scrypt db calls order) (.advance t) with
      ⟨hsame, -⟩ | ⟨_, _, hm, -⟩ | ⟨u, x, hm, hx⟩
    · exact hsame
    · cases hm
    · cases hm
      exact absurd hx (hclosed x)
  have hsame (hothers : ∃ busy, Others cfg scrypt db calls c₀ order busy
      (reached cfg scrypt db calls order)) (v : Verdict) (u : ℕ) :
      Compared cfg scrypt db calls c₀.id v (order ++ [t]) u ↔
        Compared cfg scrypt db calls c₀.id v order u := by
    obtain ⟨busy, hothers⟩ := hothers
    rw [compared_snoc]
    refine ⟨fun hnow => hnow.resolve_right ?_, .inl⟩
    rintro ⟨-, hnew, call, hcall, -⟩
    exact hclosed _ (hothers.fresh t call hcall hnew)
  have hgoes {busy : Option ℕ} (hothers : Others cfg scrypt db calls c₀ order busy
      (reached cfg scrypt db calls order)) :
      Others cfg scrypt db calls c₀ (order ++ [t]) busy (reached cfg scrypt db calls order) := by
    refine ⟨fun u call hcall hu => hothers.fresh u call hcall fun hmem =>
      hu (List.mem_append_left _ hmem), fun u x hu hfree hx => ?_,
      fun u call s hcall hid hs => compared_mono (hothers.ended u call s hcall hid hs)⟩
    have hmem : u ∈ order := by
      rcases List.mem_append.mp hu with hmem | hlast
      · exact hmem
      · rw [List.mem_singleton.mp hlast] at hx
        exact absurd hx (hclosed x)
    obtain ⟨call, hcall, hidle⟩ := hothers.opened u x hmem hfree hx
    exact ⟨call, hcall, idle_mono hidle⟩
  rw [reached_snoc, hstep]
  cases h with
  | quiet hrow htally hothers =>
    exact .quiet hrow (tally_congr htally fun v _ => hsame ⟨_, hothers⟩ v) (hgoes hothers)
  | busy u hrow hslot hbusy hnot hfree hleft htally hothers =>
    refine .busy u hrow hslot ?_ (fun hstored => ?_) hfree hleft
      (tally_congr htally fun v _ => hsame ⟨_, hothers⟩ v) (hgoes hothers)
    · cases hbusy with
      | missed hwrong h => exact .missed (compared_mono hwrong) h
      | consumes hright h => exact .consumes (compared_mono hright) h
    · rcases stored_snoc.mp hstored with hold | ⟨z, happ⟩
      · exact hnot hold
      · cases happ.move
        exact hclosed z happ.slot

theorem standing_step
    (halone : ∀ v, v ≠ .refused → t ∉ order → Compared cfg scrypt db calls c₀.id v (order ++ [t]) t →
      ∀ u w, w ≠ .refused → Compared cfg scrypt db calls c₀.id w order u →
        Stored cfg scrypt db calls order u)
    (h : Standing cfg scrypt db calls c₀ order (reached cfg scrypt db calls order)) :
    Standing cfg scrypt db calls c₀ (order ++ [t]) (reached cfg scrypt db calls (order ++ [t])) := by
  by_cases hopen : ∃ x, (reached cfg scrypt db calls order).slots[t]? = some (.running x)
  swap
  · exact standing_of_closed (fun x hx => hopen ⟨x, hx⟩) h
  obtain ⟨x, hslot⟩ := hopen
  obtain ⟨call, hcall⟩ := call_of_running hslot
  by_cases hmem : t ∈ order
  · cases h with
    | quiet hrow htally hothers =>
      obtain ⟨call, hcall, hidle⟩ := hothers.opened t x hmem nofun hslot
      rw [reached_snoc, step_advance hslot]
      exact quiet_of_idle (idleMove_of_idle hcall hmem hidle) hrow htally hothers
    | busy u hrow hbusySlot hbusy hnot hfree hleft htally hothers =>
      by_cases hut : u = t
      · subst hut
        exact standing_of_busy hbusySlot hrow hbusy hnot hfree hleft htally hothers
      · obtain ⟨call, hcall, hidle⟩ := hothers.opened t x hmem
          (fun he => hut (Option.some.inj he).symm) hslot
        rw [reached_snoc, step_advance hslot]
        exact busy_of_idle (idleMove_of_idle hcall hmem hidle) hut hrow hbusySlot hbusy hnot hfree
          hleft htally hothers
  · obtain ⟨busy, hothers⟩ : ∃ busy, Others cfg scrypt db calls c₀ order busy
        (reached cfg scrypt db calls order) := by
      cases h with
      | quiet _ _ hothers => exact ⟨_, hothers⟩
      | busy _ _ _ _ _ _ _ _ hothers => exact ⟨_, hothers⟩
    have hbegin := hothers.fresh t call hcall hmem
    by_cases hcompares : call.request.challengeId = c₀.id ∧ call.verdict cfg scrypt
        ((reached cfg scrypt db calls order).committed.challenges.get? c₀.id) ≠ .refused
    · obtain ⟨hid, hcompares⟩ := hcompares
      cases h with
      | quiet hrow htally hothers =>
        exact busy_of_begin hcall hid hmem hbegin hcompares hrow htally hothers
      | busy u hrow hbusySlot hbusy hnot hfree hleft htally hothers =>
        -- somebody else has compared a code and stored nothing yet
        have hnow : Compared cfg scrypt db calls c₀.id (call.verdict cfg scrypt
            ((reached cfg scrypt db calls order).committed.challenges.get? c₀.id)) (order ++ [t]) t :=
          compared_snoc.mpr (.inr ⟨rfl, hmem, call, hcall, hid, rfl⟩)
        refine absurd ?_ hnot
        cases hbusy with
        | missed hwrong _ => exact halone _ hcompares hmem hnow u .wrong nofun hwrong
        | consumes hright _ => exact halone _ hcompares hmem hnow u .right nofun hright
    · have hmove := idleMove_of_begin (t := t) hcall fun hid =>
        not_not.mp fun hne => hcompares ⟨hid, hne⟩
      rw [reached_snoc, step_advance hbegin]
      cases h with
      | quiet hrow htally hothers => exact quiet_of_idle hmove hrow htally hothers
      | busy u hrow hbusySlot hbusy hnot hfree hleft htally hothers =>
        refine busy_of_idle hmove ?_ hrow hbusySlot hbusy hnot hfree hleft htally hothers
        rintro rfl
        cases hbusy with
        | missed hwrong _ => exact hmem (compared_mem hwrong)
        | consumes hright _ => exact hmem (compared_mem hright)

/-- Where the calls on a challenge stand, after any order of statements in which codes are compared
one at a time. -/
theorem standing_run (hc : c₀ ∈ db.challenges) (order : List ℕ)
    (halone : ComparesAlone cfg scrypt db calls c₀.id order) :
    Standing cfg scrypt db calls c₀ order (reached cfg scrypt db calls order) := by
  induction order using List.reverseRecOn with
  | nil =>
    have hnever (v : Verdict) (t : ℕ) : ¬ Compared cfg scrypt db calls c₀.id v [] t := by
      rintro ⟨early, late, _, hnil, -⟩
      simp at hnil
    refine .quiet (Table.get?_of_mem hc) ⟨⟨fun _ => rfl, rfl, le_rfl, .inr rfl, id⟩, ?_, ?_, ?_, ?_⟩
      ⟨fun t call hcall _ => ?_, fun t x ht => absurd ht List.not_mem_nil, ?_⟩
    · intro ts _ hts
      have hempty : ts = [] := List.eq_nil_iff_forall_not_mem.mpr fun t ht => hnever _ t (hts t ht).1
      simp [hempty]
    · exact fun t ht => (hnever _ t ht).elim
    · exact fun t _ ht => (hnever _ t ht).elim
    · exact fun t _ _ ht => (hnever _ t ht).elim
    · have hslots : (reached cfg scrypt db calls []).slots =
          (calls.map (VerifyCall.program cfg scrypt)).map fun p => Slot.running (.begin p) := rfl
      rw [hslots, List.getElem?_map, List.getElem?_map, hcall]
      rfl
    · intro t call s hcall _ hs
      have hslots : (reached cfg scrypt db calls []).slots =
          (calls.map (VerifyCall.program cfg scrypt)).map fun p => Slot.running (.begin p) := rfl
      rw [hslots, List.getElem?_map, List.getElem?_map, hcall] at hs
      cases hs
  | append_singleton order t ih =>
    have hbefore := ih fun early u late he => halone early u (late ++ [t]) (by simp [he])
    exact standing_step (fun v hv hnew hnow => halone order t [] rfl v hv hnew hnow) hbefore

/-- What the stored attempts say of all that was compared. -/
theorem misses_of_standing (h : Standing cfg scrypt db calls c₀ order (reached cfg scrypt db calls order))
    {ts : List ℕ} (hnodup : ts.Nodup)
    (hts : ∀ t ∈ ts, Compared cfg scrypt db calls c₀.id .wrong order t) :
    ts.length ≤ cfg.otpMaxAttempts - c₀.attempts ∧
      ∀ t, Compared cfg scrypt db calls c₀.id .right order t →
        ts.length < cfg.otpMaxAttempts - c₀.attempts := by
  cases h with
  | quiet hrow htally hothers =>
    have hle := htally.missed ts hnodup fun t ht => ⟨hts t ht, nofun⟩
    have hattempts := htally.aged.attempts
    refine ⟨?_, fun t ht => ?_⟩
    · rcases htally.aged.within with hwithin | hsame <;> omega
    · have hright := ht
      obtain ⟨_, _, call, -, -, hcall, -⟩ := hright
      obtain ⟨-, -, -, hleft⟩ := htally.proper t call hcall ht
      omega
  | busy u hrow hslot hbusy hnot hfree hleft htally hothers =>
    have hle := missed_of_busy htally hnodup hts
    have hattempts := htally.aged.attempts
    refine ⟨by omega, fun t ht => ?_⟩
    cases hbusy with
    | missed hwrong _ => exact absurd ht (no_right_of_wrong hwrong hfree htally t)
    | consumes hright _ =>
      have hall := htally.missed ts hnodup fun w hw => ⟨hts w hw, fun he => ?_⟩
      · omega
      · have hwrong := hts w hw
        rw [Option.some.inj he] at hwrong
        cases compared_inj hwrong hright

end steps

/-- Where a code is compared only while nothing is left to be stored of an earlier one, and the clock
does not pass the expiry between the check and the session, a challenge keeps its promises. -/
theorem challenge_guarded (cfg : AuthConfig) (scrypt : String → String → String) (db : AuthDb)
    (calls : List VerifyCall) (order : List ℕ) (c : AuthOtpChallenge) (hc : c ∈ db.challenges)
    (hclock : ∀ call ∈ calls, call.request.challengeId = c.id →
      call.draw.checkedAt ≤ c.expiresAt → call.draw.issuedAt ≤ c.expiresAt)
    (halone : ComparesAlone cfg scrypt db calls c.id order) :
    Guarded cfg scrypt db calls c order := by
  have hstanding := standing_run hc order halone
  obtain ⟨busy, c', htally, hothers⟩ : ∃ busy c', Tally cfg scrypt db calls c order busy c' ∧
      Others cfg scrypt db calls c order busy (reached cfg scrypt db calls order) := by
    cases hstanding with
    | quiet _ htally hothers => exact ⟨_, _, htally, hothers⟩
    | busy _ _ _ _ _ _ _ htally hothers => exact ⟨_, _, htally, hothers⟩
  have hissued (t : ℕ) (call : VerifyCall) (h : Issued cfg scrypt db calls c.id order t call) :
      Compared cfg scrypt db calls c.id .right order t := by
    obtain ⟨hcall, hid, s, hs⟩ := h
    exact hothers.ended t call s hcall hid hs
  refine ⟨fun ts hnodup hts => (misses_of_standing hstanding hnodup hts).1, ?_, ?_⟩
  · intro t u call call' ht hu
    obtain ⟨hfree, -⟩ := htally.proper t call ht.1 (hissued t call ht)
    exact ⟨hfree, htally.sole t u (hissued t call ht) (hissued u call' hu)⟩
  · intro t call ht
    obtain ⟨-, hunexpired, hchannel, -⟩ := htally.proper t call ht.1 (hissued t call ht)
    refine ⟨hclock call (List.mem_of_getElem? ht.1) ht.2.1 hunexpired, hchannel, ?_⟩
    exact fun ts hnodup hts => (misses_of_standing hstanding hnodup hts).2 t (hissued t call ht)

section checks
variable {cfg : AuthConfig} {scrypt : String → String → String} {db : AuthDb}
  {calls : List VerifyCall} {i : ℕ} {order : List ℕ}

/-- At this place a call compares its code with challenge `i`. -/
def comparing (cfg : AuthConfig) (scrypt : String → String → String) (db : AuthDb)
    (calls : List VerifyCall) (i : ℕ) (order : List ℕ) (k : ℕ) : Bool :=
  decide (order.getD k 0 ∉ order.take k) && (calls[order.getD k 0]?).any fun call =>
    call.request.challengeId == i && call.verdict cfg scrypt
      ((reached cfg scrypt db calls (order.take k)).committed.challenges.get? i) != .refused

theorem comparing_of_verdict {early late : List ℕ} {t : ℕ} {call : VerifyCall} {v : Verdict}
    (horder : order = early ++ t :: late) (hnew : t ∉ early) (hcall : calls[t]? = some call)
    (hid : call.request.challengeId = i) (hv : v ≠ .refused)
    (hverdict : call.verdict cfg scrypt
      ((reached cfg scrypt db calls early).committed.challenges.get? i) = v) :
    comparing cfg scrypt db calls i order early.length = true := by
  simp [comparing, horder, hnew, hcall, hid, hverdict, hv]

theorem comparesAlone_of_checks
    (h : ∀ k < order.length, comparing cfg scrypt db calls i order k = true →
      ∀ j < k, comparing cfg scrypt db calls i order j = true →
        (List.range k).any fun l => order.getD l 0 == order.getD j 0 && (RunChecks.mover
          (reached cfg scrypt db calls (order.take l)) (.advance (order.getD j 0))).any
            RunChecks.commits) : ComparesAlone cfg scrypt db calls i order := by
  intro early t late horder v hv hnew hcompared u w hw hu
  rcases compared_snoc.mp hcompared with hold | ⟨-, -, call, hcall, hid, hverdict⟩
  · exact absurd (compared_mem hold) hnew
  · obtain ⟨before, after, call', hearly, hfirst, hcall', hid', hverdict'⟩ := hu
    have hlast : order = before ++ u :: (after ++ t :: late) := by simp [horder, hearly]
    have hget : order.getD before.length 0 = u := by simp [hlast]
    obtain ⟨l, hl, hstored⟩ := List.any_eq_true.mp <| h _ (by simp [horder])
      (comparing_of_verdict horder hnew hcall hid hv hverdict) before.length (by simp [hearly])
      (comparing_of_verdict hlast hfirst hcall' hid' hw hverdict')
    rw [hget, Bool.and_eq_true, beq_iff_eq] at hstored
    obtain ⟨hsame, hcommits⟩ := hstored
    rw [List.mem_range] at hl
    refine RunChecks.hasClaimed_at (k := l) (by simpa using hl) ?_ ?_
    · simp only [horder, List.getD_eq_getElem?_getD, List.getElem?_append_left hl] at hsame
      rw [← hsame]
      simp [hl]
    · rw [horder, List.take_append_of_le_length (by omega)] at hcommits
      rw [← List.map_take]
      exact hcommits

end checks

def openChallenge : AuthOtpChallenge :=
  newChallenge smallConfig sample .phone "+256700000000" firstDraw

def openDb : AuthDb := AuthDb.empty.insertChallenge openChallenge

def rightCall (userId : ℕ) : VerifyCall := ⟨.phone, ⟨1, "123456"⟩, ⟨2000, 2000, 2001, userId⟩⟩

/-- Both read the challenge before either uses it up. -/
def racingOrder : List ℕ := [0, 1] ++ List.replicate 8 0 ++ List.replicate 8 1

set_option maxRecDepth 8000 in
/-- One challenge, two sessions. -/
theorem overlapping_codes_issue_twice :
    ¬ ∀ (cfg : AuthConfig) (scrypt : String → String → String) (db : AuthDb) (calls : List VerifyCall)
      (order : List ℕ), ∀ c ∈ db.challenges,
      (∀ call ∈ calls, call.request.challengeId = c.id →
        call.draw.checkedAt ≤ c.expiresAt → call.draw.issuedAt ≤ c.expiresAt) →
      Guarded cfg scrypt db calls c order := by
  intro h
  have hguarded := h smallConfig sample openDb [rightCall 7, rightCall 8] racingOrder openChallenge
    (by decide) (by decide)
  have hfirst : Issued smallConfig sample openDb [rightCall 7, rightCall 8] 1 racingOrder 0
      (rightCall 7) := ⟨rfl, rfl, ⟨7, true, 3602001, true⟩, by rfl⟩
  have hsecond : Issued smallConfig sample openDb [rightCall 7, rightCall 8] 1 racingOrder 1
      (rightCall 8) := ⟨rfl, rfl, ⟨7, true, 3602001, false⟩, by rfl⟩
  exact absurd (hguarded.once 0 1 _ _ hfirst hsecond).2 (by decide)

def wrongCall : VerifyCall := ⟨.phone, ⟨1, "000000"⟩, ⟨1900, 1900, 1901, 9⟩⟩

/-- The right code is compared when the miss is stored, and once more when it is used up. -/
def storedBetween : List ℕ := [0, 0, 0, 1, 0, 1, 1, 2, 1, 2, 1, 1, 1]

set_option maxRecDepth 8000 in
theorem challenge_guarded_storedBetween :
    Guarded smallConfig sample openDb [wrongCall, rightCall 7, rightCall 8] openChallenge
      storedBetween :=
  challenge_guarded smallConfig sample openDb [wrongCall, rightCall 7, rightCall 8] storedBetween
    openChallenge (by decide) (by decide) (comparesAlone_of_checks (by decide))

end Akabbo.OtpAttempts
