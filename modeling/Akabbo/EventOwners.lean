import Akabbo.CallRuns
import Akabbo.TeamCalls

/-!
# Who governs an event

An event is governed while somebody stands in it as ACTIVE OWNER. Membership calls can take that
away from the last one, and an invitation can carry the role of an owner.
-/
namespace Akabbo.EventOwners
open Access RowTable StatementProgram LedgerState EventWrites TeamCalls CallRuns
open WeakestPreconditions ServiceSteps

/-- Somebody is an ACTIVE OWNER of the event. -/
def HasOwner (e : ℕ) (db : LedgerDb) : Prop := ∃ u, standing db e u = some .owner

/-- Accepting an invitation makes nobody OWNER who was not. -/
def NoNewOwner (rules : TextRules) (e : ℕ) (db : LedgerDb) : TeamCall → Prop
  | .acceptInvitation actor token now => ∀ u,
      standing (step rules db (.acceptInvitation actor token now)) e u = some .owner →
        standing db e u = some .owner
  | _ => True

/-- An acceptance is not of an invitation to be OWNER; any other call that appoints a user
appoints an OWNER, or somebody else is one. -/
def MayAppoint (e : ℕ) (db : LedgerDb) (u : ℕ) (role : EventRole) : TeamCall → Prop
  | .acceptInvitation .. => role ≠ .owner
  | _ => role = .owner ∨ ∃ u', u' ≠ u ∧ standing db e u' = some .owner

/-- Where the call goes through and appoints somebody in the event, it may. -/
def KeepsOwner (rules : TextRules) (e : ℕ) (db : LedgerDb) (call : TeamCall) : Prop :=
  ∀ u role, call.appointment rules db = some (e, u, role) → MayAppoint e db u role call

section steps
variable {rules : TextRules} {e : ℕ} {db v : LedgerDb} {call : TeamCall}

theorem hasOwner_iff : HasOwner e db ↔
    ∃ m ∈ db.members.rows, m.eventId = e ∧ m.role = .owner ∧ m.status = .active := by
  constructor
  · rintro ⟨u, hu⟩
    obtain ⟨m, hm, hrole⟩ := Option.map_eq_some_iff.mp hu
    obtain ⟨hrow, hactive⟩ := Option.filter_eq_some_iff.mp hm
    have hkey := Table.get?_key hrow
    exact ⟨m, Table.get?_mem hrow, congrArg Prod.fst hkey, hrole, by simpa using hactive⟩
  · rintro ⟨m, hm, rfl, hrole, hactive⟩
    refine ⟨m.userId, ?_⟩
    have hrow : db.members.get? (m.eventId, m.userId) = some m := Table.get?_of_mem hm
    simp [standing, hrow, Option.filter, hrole, hactive]

/-- Without an appointment everybody stands where they stood. -/
theorem standing_same (h : Did db v none) (e u : ℕ) : standing v e u = standing db e u := by
  unfold standing
  rw [h.1]

theorem standing_elsewhere {e' u : ℕ} {role : EventRole} (h : Appointed db v e' u role)
    (hne : e ≠ e') (u' : ℕ) : standing v e u' = standing db e u' := by
  rw [standing_appointed h, if_neg fun hk => hne hk.1]

theorem hasOwner_appointed {u : ℕ} {role : EventRole} (h : Appointed db v e u role) :
    HasOwner e v ↔ role = .owner ∨ ∃ u', u' ≠ u ∧ standing db e u' = some .owner := by
  constructor
  · rintro ⟨u', hu'⟩
    rw [standing_appointed h] at hu'
    by_cases hsame : u' = u
    · rw [if_pos ⟨rfl, hsame⟩] at hu'
      exact .inl (Option.some.inj hu')
    · rw [if_neg fun hk => hsame hk.2] at hu'
      exact .inr ⟨u', hsame, hu'⟩
  · rintro (rfl | ⟨u', hne, hu'⟩)
    · exact ⟨u, by rw [standing_appointed h, if_pos ⟨rfl, rfl⟩]⟩
    · exact ⟨u', by rw [standing_appointed h, if_neg fun hk => hne hk.2, hu']⟩

/-- Whom an invitation lets in stood nowhere in the event before. -/
theorem standing_of_accept {actor : Actor} {token : String} {now u : ℕ} {role : EventRole}
    (h : (TeamCall.acceptInvitation actor token now).appointment rules db = some (e, u, role)) :
    standing db e u = none := by
  obtain ⟨inv, -, hinv⟩ := Option.bind_eq_some_iff.mp h
  split_ifs at hinv with hadmits
  cases hinv
  exact hadmits.2.1

/-- A call that appoints nobody in the event changes nothing about its owners. -/
theorem unmoved (hsame : ∀ u, standing (step rules db call) e u = standing db e u)
    (h : HasOwner e db) : NoNewOwner rules e db call ∧ HasOwner e (step rules db call) := by
  refine ⟨?_, ?_⟩
  · cases call with
    | acceptInvitation actor token now => exact fun u hu => (hsame u).symm.trans hu
    | _ => trivial
  · obtain ⟨u, hu⟩ := h
    exact ⟨u, (hsame u).trans hu⟩

/-- What an appointment in the event must meet. -/
theorem mayAppoint_iff {u : ℕ} {role : EventRole} (h : HasOwner e db)
    (happoint : call.appointment rules db = some (e, u, role))
    (hdid : Appointed db (step rules db call) e u role) : MayAppoint e db u role call ↔
      NoNewOwner rules e db call ∧ HasOwner e (step rules db call) := by
  rw [hasOwner_appointed hdid]
  cases call with
  | acceptInvitation actor token now =>
    have hfree := standing_of_accept happoint
    constructor
    · intro hrole
      refine ⟨fun u' hu' => ?_, .inr ?_⟩
      · rw [standing_appointed hdid] at hu'
        split_ifs at hu' with hsame
        · exact absurd (Option.some.inj hu') hrole
        · exact hu'
      · obtain ⟨u', hu'⟩ := h
        refine ⟨u', fun hsame => ?_, hu'⟩
        rw [hsame, hfree] at hu'
        cases hu'
    · rintro ⟨hnew, -⟩ hrole
      have hu : standing (step rules db (.acceptInvitation actor token now)) e u =
          some .owner := by
        rw [standing_appointed hdid, if_pos ⟨rfl, rfl⟩, hrole]
      rw [hnew u hu] at hfree
      cases hfree
  | _ => exact (and_iff_right trivial).symm

/-- What one call must meet, for an event that has an owner to keep one. -/
theorem keepsOwner_iff (h : HasOwner e db) : KeepsOwner rules e db call ↔
    NoNewOwner rules e db call ∧ HasOwner e (step rules db call) := by
  have hdid := did_step rules db call
  cases happoint : call.appointment rules db with
  | none =>
    rw [happoint] at hdid
    refine iff_of_true (fun u role hsome => ?_) (unmoved (standing_same hdid e) h)
    rw [happoint] at hsome
    cases hsome
  | some a =>
    obtain ⟨e', u, role⟩ := a
    rw [happoint] at hdid
    by_cases he : e = e'
    · subst he
      rw [← mayAppoint_iff h happoint hdid]
      constructor
      · exact fun hkeeps => hkeeps u role happoint
      · intro hmay u' role' happoint'
        rw [happoint] at happoint'
        cases happoint'
        exact hmay
    · refine iff_of_true (fun u' role' hsome => ?_) (unmoved (standing_elsewhere hdid he) h)
      rw [happoint] at hsome
      cases hsome
      exact absurd rfl he

end steps

/-- Texts in which upper and lower case differ as in ASCII. -/
def plainTexts : TextRules where
  trim := ToolExecutor.plainNames.trim
  lowerCase text := String.ofList (ToolExecutor.lowerChars text)
  userIdText id := toString id

def governed : LedgerDb :=
  { LedgerDb.empty with
    events := LedgerDb.empty.events.insertNew
      { id := 7, ownerUserId := 1, slug := "wedding", name := "Wedding", createdAt := 1 }
    users := ((LedgerDb.empty.users.insertNew ⟨1, some "+256701"⟩).insertNew
      ⟨2, some "+256702"⟩).insertNew ⟨3, some "+256703"⟩
    members := (LedgerDb.empty.members.insertNew ⟨7, 1, .owner, .active, none⟩).insertNew
      ⟨7, 2, .coOwner, .active, some 1⟩ }

/-- What the co-owner's requests run under. -/
def coOwner : OperationContext := ⟨⟨2, true⟩, ⟨7, .coOwner, .active⟩⟩

def invited : EventDraw := ⟨10, 40, 0, "link", { allowed := true }, none⟩

/-- An event that has an owner keeps one throughout a run, and no acceptance makes an owner,
exactly when every call of the run meets its condition in the state that it finds. -/
theorem owned_throughout_iff (rules : TextRules) (e : ℕ) (db : LedgerDb) (calls : List TeamCall)
    (h : HasOwner e db) :
    throughout (step rules) (HasOwner e) (NoNewOwner rules e) db calls ↔
      everyCall (step rules) (KeepsOwner rules e) db calls :=
  throughout_iff (s := db) (fun _ _ hs => keepsOwner_iff hs) h

/-- The co-owner makes the only owner a viewer. -/
def demotion : List TeamCall := [.updateRole coOwner 1 .viewer]

/-- The co-owner invites an owner, who accepts. -/
def ownerInvited : List TeamCall :=
  [.createInvitation coOwner { role := .owner } invited, .acceptInvitation ⟨3, true⟩ "link" 20]

set_option maxRecDepth 4000 in
/-- Each is in the co-owner's power: one leaves nobody to govern the event, the other makes an
owner by an invitation. -/
theorem owner_demoted_and_owner_invited :
    (Program.run (resolveContext coOwner.actor 7) governed).1.toOption = some (some coOwner.event) ∧
      HasOwner 7 governed ∧
      ¬ throughout (step plainTexts) (HasOwner 7) (NoNewOwner plainTexts 7) governed demotion ∧
      ¬ throughout (step plainTexts) (HasOwner 7) (NoNewOwner plainTexts 7) governed ownerInvited := by
  refine ⟨by decide, hasOwner_iff.mpr (by decide), fun h => ?_, fun h => ?_⟩
  · exact absurd (hasOwner_iff.mp h.2.2) (by decide)
  · exact absurd (h.2.2.2.1 3 (by decide)) (by decide)

set_option maxRecDepth 4000 in
theorem owned_throughout_iff_promoted :
    throughout (step plainTexts) (HasOwner 7) (NoNewOwner plainTexts 7) governed
      [.updateRole coOwner 2 .owner] := by
  refine (owned_throughout_iff plainTexts 7 governed _ (hasOwner_iff.mpr (by decide))).mpr
    ⟨fun u role happoint => ?_, trivial⟩
  cases happoint
  exact .inl rfl

end Akabbo.EventOwners
