import Akabbo.CommitOrder
import Akabbo.EventWrites
import Akabbo.RunChecks

/-!
# Overlapping acceptances of an invitation

An acceptance reads the invitation before its transaction opens and writes its use and its status
back as absolute values, whatever has been committed since.
-/
namespace Akabbo.InvitationRaces
open Access RowTable StatementProgram ReadCommitted CommitOrder LedgerState LedgerWrites EventWrites
open StatementProgram.Program

inductive InvitationCall
  | accept (actor : Actor) (token : String) (now : ℕ)
  | revoke (ctx : OperationContext) (invitationId : ℕ)
  deriving DecidableEq, Repr

/-- The event joined, the role, and whether the user was a member already. -/
abbrev Joined := ℕ × EventRole × Bool

/-- A revocation returns nothing. -/
def InvitationCall.program : InvitationCall → LedgerProgram (Option Joined)
  | .accept actor token now => some <$> acceptInvitation actor token now
  | .revoke ctx invitationId => (fun _ => none) <$> revokeInvitation ctx invitationId

abbrev InvitationSystem := System RowLock LedgerDb Refusal (Option Joined)

def system (db : LedgerDb) (calls : List InvitationCall) : InvitationSystem :=
  System.begin db (calls.map InvitationCall.program)

/-- The invitation under a token. -/
def opened (token : String) (db : LedgerDb) : Option Invitation :=
  db.invitations.find? fun i => i.token == token

section history
variable (db : LedgerDb) (calls : List InvitationCall) (i : ℕ)

/-- The user whom a returned call has newly admitted on invitation `i`. -/
def admits (entry : ℕ × Option Joined) : Option ℕ :=
  match calls[entry.1]?, entry.2 with
  | some (.accept actor token _), some (_, _, false) =>
      if (opened token db).map Invitation.id = some i then some actor.userId else none
  | _, _ => none

/-- A returned call has revoked invitation `i`. -/
def revokes (entry : ℕ × Option Joined) : Bool :=
  match calls[entry.1]? with
  | some (.revoke _ invitationId) => invitationId == i
  | _ => false

/-- The users whom invitation `i` has newly admitted. -/
def admitted (order : List (ℕ × Option Joined)) : Finset ℕ :=
  (order.filterMap (admits db calls i)).toFinset

end history

/-- The row of an invitation agrees with the calls that have returned. -/
structure AsReturned (db : LedgerDb) (calls : List InvitationCall) (initial : Invitation)
    (order : List (ℕ × Option Joined)) (inv : Invitation) : Prop where
  limit : (admitted db calls initial.id order).card ≤ initial.maxUses - initial.uses
  uses : inv.uses = initial.uses + (admitted db calls initial.id order).card
  revoked : (∃ entry ∈ order, revokes calls initial.id entry = true) → inv.status = .revoked
  afterwards : order.Pairwise fun earlier later =>
    revokes calls initial.id earlier = true → admits db calls initial.id later = none

/-- After these moves every invitation is as the returned calls say. -/
def InvitationsHeld (db : LedgerDb) (calls : List InvitationCall) (moves : List Move) : Prop :=
  ∀ initial ∈ db.invitations, ∃ inv,
    ((system db calls).run moves).committed.invitations.get? initial.id = some inv ∧
      AsReturned db calls initial (returned (system db calls) moves) inv

/-- An acceptance commits what it has written only while all it has read still reads the same. A
revocation may have read anything. -/
def AcceptsCurrent (calls : List InvitationCall) (sys : InvitationSystem) (m : Move) : Prop :=
  ∀ t actor token now x r, calls[t]? = some (.accept actor token now) → Applied sys m t x r →
    x.dirty = true → x.Current sys.committed

def Active (db : LedgerDb) (e u : ℕ) : Prop :=
  ∃ m, db.members.get? (e, u) = some m ∧ m.status = .active

def asExpired (inv : Invitation) : Invitation := { inv with status := .expired }

def asRevoked (inv : Invitation) : Invitation := { inv with status := .revoked }

/-- One more use than was read. -/
def spend (read : Invitation) (userId now : ℕ) (inv : Invitation) : Invitation :=
  { inv with
    uses := read.uses + 1
    status := if read.uses + 1 ≥ read.maxUses then .accepted else .pending
    acceptedById := some userId
    acceptedAt := some now }

theorem asExpired_id (inv : Invitation) : (asExpired inv).id = inv.id := rfl

theorem asRevoked_id (inv : Invitation) : (asRevoked inv).id = inv.id := rfl

theorem spend_id (read : Invitation) (userId now : ℕ) (inv : Invitation) :
    (spend read userId now inv).id = inv.id := rfl

/-- What an acceptance does at a commit: nothing for a member, an expiry in its midst, or an
admission. -/
inductive Accepts (actor : Actor) (token : String) (now : ℕ) :
    Option (Option Joined) → List (Reading LedgerDb) → (LedgerDb → LedgerDb) → Prop
  | idle {e : ℕ} {role : EventRole} {rs : List (Reading LedgerDb)} :
      Accepts actor token now (some (some (e, role, true))) rs id
  | expires {read : Invitation} {rs : List (Reading LedgerDb)} {f : LedgerDb → LedgerDb}
      (hread : (⟨opened token, some read⟩ : Reading LedgerDb) ∈ rs)
      (hstatus : read.status ≠ .revoked)
      (hrow : ∀ s, (f s).invitations = s.invitations.update (·.id == read.id) asExpired asExpired_id)
      (hmembers : ∀ s, (f s).members = s.members) : Accepts actor token now none rs f
  | joins {read : Invitation} {role : EventRole} {rs : List (Reading LedgerDb)}
      {f : LedgerDb → LedgerDb}
      (hread : (⟨opened token, some read⟩ : Reading LedgerDb) ∈ rs)
      (hstatus : read.status ≠ .revoked) (huses : read.uses < read.maxUses)
      (hnew : ∀ s, (∀ reading ∈ rs, reading.Current s) → ¬ Active s read.eventId actor.userId)
      (hrow : ∀ s, (f s).invitations = s.invitations.update (·.id == read.id)
        (spend read actor.userId now) (spend_id read actor.userId now))
      (hmember : ∀ s, Active (f s) read.eventId actor.userId)
      (hmembers : ∀ s e u, Active s e u → Active (f s) e u) :
      Accepts actor token now (some (some (read.eventId, role, false))) rs f

/-- What a call does at a commit. -/
def InvitationCall.Applies : InvitationCall → Option (Option Joined) → List (Reading LedgerDb) →
    (LedgerDb → LedgerDb) → Prop
  | .accept actor token now, r, rs, f => Accepts actor token now r rs f
  | .revoke _ i, r, _, f => r = some none ∧
      (∀ s, (f s).invitations = s.invitations.update (·.id == i) asRevoked asRevoked_id) ∧
      ∀ s, (f s).members = s.members

section upsert
variable {db : LedgerDb} {member : EventMember} {update : EventMember → EventMember}
  {hu : ∀ m, (update m).key = m.key}

/-- The rows after the INSERT … ON CONFLICT of a membership. -/
def upserted (db : LedgerDb) (member : EventMember) (update : EventMember → EventMember)
    (hu : ∀ m, (update m).key = m.key) : LedgerDb :=
  if db.members.has member.key then
    { db with members := db.members.update (fun m => decide (m.key = member.key)) update hu }
  else { db with members := db.members.insertNew member }

theorem upserted_invitations : (upserted db member update hu).invitations = db.invitations := by
  unfold upserted
  split_ifs <;> rfl

theorem active_upserted (hmember : member.status = .active)
    (hupdate : ∀ m, (update m).status = .active) :
    Active (upserted db member update hu) member.eventId member.userId := by
  unfold upserted
  split_ifs with hhas
  · obtain ⟨m, hm, hkey⟩ := Table.has_iff.mp hhas
    refine ⟨update m, ?_, hupdate m⟩
    change (db.members.update _ _ hu).get? member.key = _
    rw [Table.get?_update, ← hkey, Table.get?_of_mem hm]
    simp [hkey]
  · refine ⟨member, ?_, hmember⟩
    change (db.members.insertNew member).get? member.key = _
    rw [Table.get?_insertNew (by simpa using hhas), if_pos rfl]

theorem active_of_upserted (hupdate : ∀ m, (update m).status = .active) {e u : ℕ}
    (h : Active db e u) : Active (upserted db member update hu) e u := by
  obtain ⟨m, hm, hactive⟩ := h
  unfold upserted
  split_ifs with hhas
  · by_cases hkey : m.key = member.key
    · refine ⟨update m, ?_, hupdate m⟩
      change (db.members.update _ _ hu).get? (e, u) = _
      rw [Table.get?_update, hm]
      simp [hkey]
    · refine ⟨m, ?_, hactive⟩
      change (db.members.update _ _ hu).get? (e, u) = _
      rw [Table.get?_update, hm]
      simp [hkey]
  · refine ⟨m, ?_, hactive⟩
    change (db.members.insertNew member).get? (e, u) = _
    have hfresh : db.members.has member.key = false := by simpa using hhas
    rw [Table.get?_insertNew hfresh, hm, if_neg]
    intro hkey
    rw [← hkey, Table.get?_eq_none.mpr hfresh] at hm
    cases hm

end upsert

def membership (read : Invitation) (userId : ℕ) : EventMember :=
  ⟨read.eventId, userId, read.role, .active, some read.invitedById⟩

def rejoined (read : Invitation) (m : EventMember) : EventMember :=
  { m with role := read.role, status := .active, invitedById := some read.invitedById }

theorem rejoined_key (read : Invitation) (m : EventMember) : (rejoined read m).key = m.key := rfl

theorem everyCommit_join {actor : Actor} {token : String} {now : ℕ} {read : Invitation}
    {rs : List (Reading LedgerDb)} (hread : (⟨opened token, some read⟩ : Reading LedgerDb) ∈ rs)
    (hstatus : read.status ≠ .revoked) :
    EveryCommit (fun _ => True) (fun r => Accepts actor token now (r.map some))
      (join actor read now) false rs id := by
  unfold join
  refine everyCommit_query_bind fun s _ => ?_
  cases hmember : (s.members.get? (read.eventId, actor.userId)).filter
      fun m => decide (m.status = .active) with
  | some m =>
    simp only [id_eq, hmember]
    exact .idle
  | none =>
    simp only [id_eq, hmember]
    refine everyCommit_guard_bind fun hspent => everyCommit_modifyChecked_bind fun _ _ _ _ =>
      everyCommit_modifyChecked_bind fun _ _ _ _ => everyCommit_modify_bind fun _ _ => ?_
    have huses : read.uses < read.maxUses := by
      by_contra hge
      rw [if_pos (by omega)] at hspent
      cases hspent
    refine .joins (by simp [hread]) hstatus huses ?_ ?_ ?_ ?_
    · rintro v hcurrent ⟨m, hm, hactive⟩
      have hnow := hcurrent ⟨fun db => db.members.get? (read.eventId, actor.userId),
        s.members.get? (read.eventId, actor.userId)⟩
        (.tail _ <| .tail _ <| .tail _ <| .head _)
      change v.members.get? _ = s.members.get? _ at hnow
      rw [← hnow, hm] at hmember
      simp [Option.filter, hactive] at hmember
    · intro v
      change (upserted v (membership read actor.userId) (rejoined read)
        (rejoined_key read)).invitations.update _ (spend read actor.userId now)
        (spend_id read actor.userId now) = _
      rw [upserted_invitations]
    · exact fun v => active_upserted rfl fun _ => rfl
    · exact fun v e u h => active_of_upserted (fun _ => rfl) h

theorem everyCommit_program (c : InvitationCall) :
    EveryCommit (fun _ => True) c.Applies c.program false [] id := by
  cases c with
  | accept actor token now =>
    refine everyCommit_map (everyCommit_query_bind fun s _ => everyCommit_orThrow_bind
      fun read hread => everyCommit_guard_bind fun hguard => ?_)
    have hstatus : read.status ≠ .revoked := by
      intro hrevoked
      rw [if_pos hrevoked] at hguard
      cases hguard
    have hreading : (⟨opened token, some read⟩ : Reading LedgerDb) ∈
        [(⟨(fun db => db.invitations.find? fun i => i.token == token) ∘ id,
          s.invitations.find? fun i => i.token == token⟩ : Reading LedgerDb)] := by
      rw [← hread]
      exact List.mem_singleton.mpr rfl
    split_ifs with hlate
    · by_cases hexpired : read.status = .expired
      · simp only [hexpired, bne_self_eq_false]
        trivial
      · have hne : (read.status != .expired) = true := by simpa using hexpired
        rw [hne]
        refine everyCommit_modifyChecked_bind fun _ _ _ _ => everyCommit_commitNow ?_ trivial
        exact .expires (List.mem_cons_of_mem _ hreading) hstatus (fun _ => rfl) fun _ => rfl
    · exact everyCommit_join hreading hstatus
  | revoke ctx i =>
    refine everyCommit_map (everyCommit_refuse_bind <| everyCommit_query_bind fun s _ =>
      everyCommit_orThrow_bind fun inv hinv => ?_)
    obtain ⟨-, hwhere⟩ := Table.mem_of_find? hinv
    obtain rfl : inv.id = i := by
      simp only [Bool.and_eq_true, beq_iff_eq] at hwhere
      exact hwhere.1
    rw [← bind_pure (updateInvitation _ _ _)]
    exact everyCommit_modifyChecked_bind fun _ _ _ _ => ⟨rfl, fun _ => rfl, fun _ => rfl⟩

section commit
variable {db : LedgerDb} {calls : List InvitationCall} {i : ℕ}
  {order : List (ℕ × Option Joined)} {entry : ℕ × Option Joined}

theorem admitted_snoc_none (h : admits db calls i entry = none) :
    admitted db calls i (order ++ [entry]) = admitted db calls i order := by
  simp [admitted, List.filterMap_append, h]

theorem admitted_snoc {u : ℕ} (h : admits db calls i entry = some u) :
    admitted db calls i (order ++ [entry]) = insert u (admitted db calls i order) := by
  simp [admitted, List.filterMap_append, h, Finset.union_comm]

/-- The row of an invitation that a call leaves alone. -/
theorem asReturned_other {initial inv : Invitation} (h : AsReturned db calls initial order inv)
    (hadmits : admits db calls initial.id entry = none)
    (hrevokes : revokes calls initial.id entry = false) :
    AsReturned db calls initial (order ++ [entry]) inv := by
  constructor
  · rw [admitted_snoc_none hadmits]
    exact h.limit
  · rw [admitted_snoc_none hadmits]
    exact h.uses
  · rintro ⟨e, he, hrev⟩
    rcases List.mem_append.mp he with he | he
    · exact h.revoked ⟨e, he, hrev⟩
    · rw [List.mem_singleton.mp he, hrevokes] at hrev
      cases hrev
  · refine List.pairwise_append.mpr ⟨h.afterwards, List.pairwise_singleton _ _, ?_⟩
    intro earlier _ later hlater _
    rw [List.mem_singleton.mp hlater]
    exact hadmits

/-- What holds along a run in which acceptances commit on what they read. -/
structure Held (db : LedgerDb) (calls : List InvitationCall) (v : LedgerDb)
    (order : List (ℕ × Option Joined)) : Prop where
  tokens : ∀ token, (opened token v).map Invitation.id = (opened token db).map Invitation.id
  rows : ∀ initial ∈ db.invitations, ∃ inv, v.invitations.get? initial.id = some inv ∧
    inv.eventId = initial.eventId ∧ inv.maxUses = initial.maxUses ∧
      AsReturned db calls initial order inv
  members : ∀ initial ∈ db.invitations, ∀ u ∈ admitted db calls initial.id order,
    Active v initial.eventId u

section changed
variable {v v' : LedgerDb} {g : Invitation → Invitation} {hg : ∀ inv, (g inv).id = inv.id}

theorem get?_changed {k : ℕ} {inv : Invitation}
    (hrow : v'.invitations = v.invitations.update (·.id == k) g hg)
    (hget : v.invitations.get? i = some inv) :
    v'.invitations.get? i = some (if i = k then g inv else inv) := by
  have hkey := Table.get?_key hget
  rw [hrow, Table.get?_update, hget]
  simp [hkey]

/-- A change that leaves the tokens alone leaves what they open. -/
theorem opened_changed {k : ℕ} (hrow : v'.invitations = v.invitations.update (·.id == k) g hg)
    (htoken : ∀ inv, (g inv).token = inv.token) (token : String) :
    (opened token v').map Invitation.id = (opened token v).map Invitation.id := by
  unfold opened
  rw [hrow, Table.find?_update fun inv _ _ => by rw [htoken], Option.map_map]
  congr 1
  funext inv
  simp only [Function.comp_apply]
  split_ifs
  · exact hg inv
  · rfl

end changed

theorem held_idle {v : LedgerDb} {t : ℕ} {actor : Actor} {token : String} {now e : ℕ}
    {role : EventRole} (h : Held db calls v order) (hc : calls[t]? = some (.accept actor token now)) :
    Held db calls v (order ++ [(t, some (e, role, true))]) := by
  have hadmits (i : ℕ) : admits db calls i (t, some (e, role, true)) = none := by
    simp [admits, hc]
  have hrevokes (i : ℕ) : revokes calls i (t, some (e, role, true)) = false := by
    simp [revokes, hc]
  refine ⟨h.tokens, fun initial hinitial => ?_, fun initial hinitial u hu => ?_⟩
  · obtain ⟨inv, hget, hevent, hmax, hheld⟩ := h.rows initial hinitial
    exact ⟨inv, hget, hevent, hmax, asReturned_other hheld (hadmits _) (hrevokes _)⟩
  · rw [admitted_snoc_none (hadmits _)] at hu
    exact h.members initial hinitial u hu

/-- An expiry of the row as it was read. -/
theorem held_expires {v v' : LedgerDb} {token : String} {read : Invitation}
    (h : Held db calls v order) (hread : opened token v = some read)
    (hstatus : read.status ≠ .revoked)
    (hrow : v'.invitations = v.invitations.update (·.id == read.id) asExpired asExpired_id)
    (hmembers : v'.members = v.members) : Held db calls v' order := by
  have hcurrent := Table.get?_of_mem (Table.mem_of_find? hread).1
  refine ⟨fun other => ?_, fun initial hinitial => ?_, fun initial hinitial u hu => ?_⟩
  · rw [opened_changed hrow fun _ => rfl]
    exact h.tokens other
  · obtain ⟨inv, hget, hevent, hmax, hheld⟩ := h.rows initial hinitial
    refine ⟨_, get?_changed hrow hget, ?_⟩
    split_ifs with hid
    · rw [hid, hcurrent] at hget
      obtain rfl := Option.some.inj hget
      exact ⟨hevent, hmax, hheld.limit, hheld.uses,
        fun hrevoked => absurd (hheld.revoked hrevoked) hstatus, hheld.afterwards⟩
    · exact ⟨hevent, hmax, hheld⟩
  · unfold Active
    rw [hmembers]
    exact h.members initial hinitial u hu

/-- An admission on the row as it was read. -/
theorem held_joins {v v' : LedgerDb} {t : ℕ} {actor : Actor} {token : String} {now : ℕ}
    {role : EventRole} {read : Invitation} (h : Held db calls v order)
    (hc : calls[t]? = some (.accept actor token now)) (hread : opened token v = some read)
    (hstatus : read.status ≠ .revoked) (huses : read.uses < read.maxUses)
    (hnew : ¬ Active v read.eventId actor.userId)
    (hrow : v'.invitations = v.invitations.update (·.id == read.id)
      (spend read actor.userId now) (spend_id read actor.userId now))
    (hmember : Active v' read.eventId actor.userId)
    (hmembers : ∀ e u, Active v e u → Active v' e u) :
    Held db calls v' (order ++ [(t, some (read.eventId, role, false))]) := by
  have hcurrent := Table.get?_of_mem (Table.mem_of_find? hread).1
  have hopened := h.tokens token
  rw [hread, Option.map_some] at hopened
  have hadmits (i : ℕ) : admits db calls i (t, some (read.eventId, role, false)) =
      if read.id = i then some actor.userId else none := by
    simp [admits, hc, ← hopened]
  have hrevokes (i : ℕ) : revokes calls i (t, some (read.eventId, role, false)) = false := by
    simp [revokes, hc]
  refine ⟨fun other => ?_, fun initial hinitial => ?_, fun initial hinitial u hu => ?_⟩
  · rw [opened_changed hrow fun _ => rfl]
    exact h.tokens other
  · obtain ⟨inv, hget, hevent, hmax, hheld⟩ := h.rows initial hinitial
    refine ⟨_, get?_changed hrow hget, ?_⟩
    split_ifs with hid
    · rw [hid, hcurrent] at hget
      obtain rfl := Option.some.inj hget
      refine ⟨hevent, hmax, ?_⟩
      have hadmit := hadmits initial.id
      rw [if_pos hid.symm] at hadmit
      have hfresh : actor.userId ∉ admitted db calls initial.id order := by
        intro hold
        rw [hevent] at hnew
        exact hnew (h.members initial hinitial _ hold)
      have hcard : (admitted db calls initial.id
          (order ++ [(t, some (read.eventId, role, false))])).card =
          (admitted db calls initial.id order).card + 1 := by
        rw [admitted_snoc hadmit, Finset.card_insert_of_notMem hfresh]
      have hspent := hheld.uses
      have hnone : ¬ ∃ entry ∈ order, revokes calls initial.id entry = true :=
        fun hrevoked => hstatus (hheld.revoked hrevoked)
      constructor
      · omega
      · rw [hcard]
        simp only [spend]
        omega
      · rintro ⟨e, he, hrev⟩
        rcases List.mem_append.mp he with he | he
        · exact absurd ⟨e, he, hrev⟩ hnone
        · rw [List.mem_singleton.mp he, hrevokes] at hrev
          cases hrev
      · refine List.pairwise_append.mpr ⟨hheld.afterwards, List.pairwise_singleton _ _, ?_⟩
        exact fun earlier hearlier _ _ hrev => absurd ⟨earlier, hearlier, hrev⟩ hnone
    · have hother : admits db calls initial.id (t, some (read.eventId, role, false)) = none := by
        rw [hadmits, if_neg fun hid' => hid hid'.symm]
      exact ⟨hevent, hmax, asReturned_other hheld hother (hrevokes _)⟩
  · by_cases hid : read.id = initial.id
    · obtain ⟨inv, hget, hevent, -, -⟩ := h.rows initial hinitial
      rw [← hid, hcurrent] at hget
      obtain rfl := Option.some.inj hget
      have hadmit := hadmits initial.id
      rw [if_pos hid] at hadmit
      rw [admitted_snoc hadmit, Finset.mem_insert] at hu
      rcases hu with rfl | hu
      · rw [← hevent]
        exact hmember
      · exact hmembers _ _ (h.members initial hinitial u hu)
    · have hother := hadmits initial.id
      rw [if_neg hid] at hother
      rw [admitted_snoc_none hother] at hu
      exact hmembers _ _ (h.members initial hinitial u hu)

theorem held_revokes {v v' : LedgerDb} {t : ℕ} {ctx : OperationContext} {i : ℕ}
    (h : Held db calls v order) (hc : calls[t]? = some (.revoke ctx i))
    (hrow : v'.invitations = v.invitations.update (·.id == i) asRevoked asRevoked_id)
    (hmembers : v'.members = v.members) : Held db calls v' (order ++ [(t, none)]) := by
  have hadmits (k : ℕ) : admits db calls k (t, none) = none := by
    simp [admits, hc]
  have hrevokes (k : ℕ) : revokes calls k (t, none) = (i == k) := by
    simp [revokes, hc]
  refine ⟨fun other => ?_, fun initial hinitial => ?_, fun initial hinitial u hu => ?_⟩
  · rw [opened_changed hrow fun _ => rfl]
    exact h.tokens other
  · obtain ⟨inv, hget, hevent, hmax, hheld⟩ := h.rows initial hinitial
    refine ⟨_, get?_changed hrow hget, ?_⟩
    split_ifs with hid
    · refine ⟨hevent, hmax, ?_, ?_, fun _ => rfl, ?_⟩
      · rw [admitted_snoc_none (hadmits _)]
        exact hheld.limit
      · rw [admitted_snoc_none (hadmits _)]
        exact hheld.uses
      · refine List.pairwise_append.mpr ⟨hheld.afterwards, List.pairwise_singleton _ _, ?_⟩
        intro earlier _ later hlater _
        rw [List.mem_singleton.mp hlater]
        exact hadmits _
    · refine ⟨hevent, hmax, asReturned_other hheld (hadmits _) ?_⟩
      rw [hrevokes]
      exact beq_false_of_ne fun hid' => hid hid'.symm
  · rw [admitted_snoc_none (hadmits _)] at hu
    unfold Active
    rw [hmembers]
    exact h.members initial hinitial u hu

end commit

/-- Overlapping acceptances and revocations keep every invitation right as long as each acceptance
commits what it has written while all it has read still reads the same. -/
theorem current_acceptances_hold (db : LedgerDb) (calls : List InvitationCall) (moves : List Move)
    (hcond : ∀ before m after, moves = before ++ m :: after →
      AcceptsCurrent calls ((system db calls).run before) m) :
    InvitationsHeld db calls moves := by
  have hheld : Held db calls ((system db calls).run moves).committed
      (returned (system db calls) moves) := by
    refine run_order_invariant (P := InvitationCall.Applies) (I := Held db calls)
      (C := fun sys m => AcceptsCurrent calls sys m ∧ ∀ t x r, Applied sys m t x r → x.Faithful)
      everyCommit_program ?_ ?_ moves fun before m after he =>
        ⟨hcond before m after he, fun _ _ _ happ => running_faithful before happ.slot⟩
    · refine ⟨fun _ => rfl, fun initial hinitial => ?_, fun initial _ u hu => ?_⟩
      · refine ⟨initial, Table.get?_of_mem hinitial, rfl, rfl, ?_⟩
        constructor <;> simp [admitted]
      · simp [admitted] at hu
    · intro sys m t x r order c h hm happ hc happlies
      cases c with
      | revoke ctx i =>
        obtain ⟨rfl, hrow, hmembers⟩ := happlies
        exact held_revokes h hc (hrow _) (hmembers _)
      | accept actor token now =>
        have hcurrent := hm.1 t actor token now x r hc happ
        have hclean := (hm.2 t x r happ).clean
        change Accepts actor token now r x.readings x.pending at happlies
        generalize x.pending = f at happlies hclean ⊢
        cases happlies with
        | idle => exact held_idle h hc
        | expires hread hstatus hrow hmembers =>
          rw [Option.map_none, Option.toList_none, List.append_nil]
          cases hdirty : x.dirty with
          | false => exact (congrFun (hclean hdirty) sys.committed).symm ▸ h
          | true => exact held_expires h (hcurrent hdirty _ hread) hstatus (hrow _) (hmembers _)
        | joins hread hstatus huses hnew hrow hmember hmembers =>
          have hdirty : x.dirty = true := by
            by_contra hnot
            obtain ⟨m, hfound, -⟩ := hmember .empty
            rw [hclean (by simpa using hnot)] at hfound
            cases hfound
          replace hcurrent := hcurrent hdirty
          exact held_joins h hc (hcurrent _ hread) hstatus huses (hnew _ hcurrent) (hrow _)
            (hmember _) (hmembers _)
  intro initial hinitial
  obtain ⟨inv, hget, -, -, hinv⟩ := hheld.rows initial hinitial
  exact ⟨inv, hget, hinv⟩

def ticket : Invitation :=
  ⟨3, 7, "ticket", .viewer, .pending, none, 1, 1, 0, 1000, none, none⟩

/-- An event with a single-use invitation. -/
def inviting : LedgerDb :=
  { LedgerDb.empty with
    users := ((Table.empty.insertNew ⟨1, none⟩).insertNew ⟨2, none⟩).insertNew ⟨3, none⟩
    invitations := Table.empty.insertNew ticket }

def guests : List InvitationCall :=
  [.accept ⟨2, true⟩ "ticket" 5, .accept ⟨3, true⟩ "ticket" 5]

/-- The first reads the invitation, the second is admitted, the first goes on. -/
def bothAdmitted : List Move :=
  [.advance 0] ++ List.replicate 6 (.advance 1) ++ List.replicate 5 (.advance 0)

set_option maxRecDepth 4000 in
theorem single_use_admits_two :
    ¬ ∀ (db : LedgerDb) (calls : List InvitationCall) (moves : List Move),
      InvitationsHeld db calls moves := by
  intro h
  obtain ⟨inv, -, hheld⟩ := h inviting guests bothAdmitted ticket (by decide)
  have hlimit := hheld.limit
  have htwo : (admitted inviting guests ticket.id
      (returned (system inviting guests) bothAdmitted)).card = 2 := by decide
  rw [htwo] at hlimit
  exact absurd hlimit (by decide)

set_option maxRecDepth 4000 in
/-- An acceptance that has read the invitation revives it after its revocation. -/
example : (((system inviting [.accept ⟨2, true⟩ "ticket" 5,
    .revoke ⟨⟨1, true⟩, ⟨7, .owner, .active⟩⟩ 3]).run
      ([.advance 0] ++ List.replicate 3 (.advance 1) ++
        List.replicate 5 (.advance 0))).committed.invitations.get? 3).map Invitation.status =
    some .accepted := by decide

/-- A second invitation to the same event. -/
def twoInvitations : LedgerDb :=
  { inviting with
    invitations := inviting.invitations.insertNew { ticket with id := 4, token := "spare" } }

def twoTickets : List InvitationCall :=
  [.accept ⟨2, true⟩ "ticket" 5, .accept ⟨3, true⟩ "spare" 5]

/-- Each has read its own invitation before the other comes in. -/
def bothComeIn : List Move :=
  List.replicate 2 (.advance 0) ++ List.replicate 2 (.advance 1) ++
    (List.replicate 4 (.advance 0) ++ List.replicate 4 (.advance 1))

set_option maxRecDepth 8000 in
theorem current_acceptances_hold_twoTickets :
    (returned (system twoInvitations twoTickets) bothComeIn).map Prod.fst = [0, 1] ∧
      InvitationsHeld twoInvitations twoTickets bothComeIn := by
  refine ⟨by decide, current_acceptances_hold twoInvitations twoTickets bothComeIn ?_⟩
  intro before m after hmoves t _ _ _ x r _ happ _
  refine RunChecks.current_at (fun _ => true) [7, 11] (by decide) ⟨?_, ?_, trivial⟩ hmoves rfl happ
  all_goals
    repeat refine And.intro rfl ?_
    trivial

end Akabbo.InvitationRaces
