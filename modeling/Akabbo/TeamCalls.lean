import Akabbo.EventSteps
import Akabbo.GiftSteps

/-!
# The team of an event

The calls that make and unmake members, the assistant's way to a new role among them, and
what each does to who stands where.
-/
namespace Akabbo.TeamCalls
open Access RowTable StatementProgram LedgerState LedgerWrites EventWrites ServiceSteps GiftSteps
open WeakestPreconditions CompletedCalls
open StatementProgram.Program (query refuse orThrow)

/-- The event's status is read outside the tenant, the membership inside it. -/
def resolveContext (actor : Actor) (eventId : ℕ) : LedgerProgram (Option EventContext) := do
  let event ← query fun db => db.events.get? eventId
  match event with
  | none => return none
  | some event => do
      let member ← query fun db => db.members.find? fun m =>
        m.eventId == eventId && m.userId == actor.userId && m.status == .active
      return member.map fun m => ⟨eventId, m.role, event.status⟩

/-- The members in the order in which they came, which is that of their rows. -/
def listMembers (ctx : OperationContext) : LedgerProgram (List (ℕ × Option String)) := do
  refuse (assertPermission ctx.event.role .eventRead)
  query fun db => (db.members.rows.filter fun m =>
    m.eventId == ctx.event.eventId && m.status == .active).map fun m =>
      (m.userId, (db.users.get? m.userId).bind User.phone)

/-- Each role with the phrases that ask for it, in the order in which they are tried. -/
def roleWords : List (EventRole × List String) :=
  [(.coOwner, ["coowner", "co-owner", "coorgani", "co-organi", "full control", "full access",
      "everything", "all access"]),
    (.finance, ["finance", "treasurer", "cashier", "handle money", "handle the money",
      "record correct", "record and correct", "payment only", "payments only"]),
    (.viewer, ["view", "readonly", "read-only", "read only", "observ", "see progress",
      "see the progress", "guest", "just look", "watch"]),
    (.coordinator, ["run", "coordinat", "organise", "organize", "manage the event", "help run",
      "daytoday", "dayto-day", "dayto day", "day-today", "day-to-day", "day-to day", "day today",
      "day to-day", "day to day", "add people"])]

/-- `mapRole`, of a text in lower case. -/
def mapRole (role : String) : Option EventRole :=
  (roleWords.find? fun entry => entry.2.any fun word =>
    decide (word.toList <:+: role.toList)).map Prod.fst

/-- How texts are read: `String.trim`, `String.toLowerCase`, and how a user's id is written. -/
structure TextRules where
  trim : String → String
  lowerCase : String → String
  userIdText : ℕ → String

/-- `text.replace(/\D/g, '')`. -/
def onlyDigits (text : String) : List Char := text.toList.filter Char.isDigit

/-- The id itself, or some digits of the phone. -/
def isTarget (rules : TextRules) (targetUserIdOrPhone : String) (member : ℕ × Option String) :
    Bool :=
  rules.userIdText member.1 == rules.trim targetUserIdOrPhone ||
    (onlyDigits targetUserIdOrPhone != [] && member.2.any fun phone =>
      phone != "" && decide (onlyDigits targetUserIdOrPhone <:+: onlyDigits phone))

/-- What a tool of the assistant answers. -/
inductive StageResult
  | clarification (message : String) (candidates : List String)
  | staged (pendingId : ℕ) (message : String)
  | done (message : String)
  deriving DecidableEq, Repr

def clarify (message : String) : StageResult := .clarification message []

def updateMemberRole (ctx : OperationContext) (rules : TextRules)
    (targetUserIdOrPhone roleInput : String) : LedgerProgram StageResult := do
  gates ctx .memberManage
  if rules.trim targetUserIdOrPhone = "" then return clarify "Whose role should I update?"
  else
    match mapRole (rules.trim (rules.lowerCase roleInput)) with
    | none => return clarify ("Which role should I assign? Choose one of: OWNER, CO_OWNER, " ++
        "COORDINATOR, FINANCE, or VIEWER.")
    | some role => do
      let members ← listMembers ctx
      match members.find? (isTarget rules targetUserIdOrPhone) with
      | none => return clarify ("Could not find an active committee member matching " ++
          s!"\"{targetUserIdOrPhone}\".")
      | some target => do
        let _ ← updateRole ctx target.1 role
        return .done s!"Updated committee member's role to {role.name}."

/-- A call about a team. Whoever accepts an invitation is no member yet. -/
inductive TeamCall
  | addMember (ctx : OperationContext) (userId : ℕ) (role : EventRole)
  | updateRole (ctx : OperationContext) (userId : ℕ) (role : EventRole)
  | createInvitation (ctx : OperationContext) (input : CreateInvitationInput) (draw : EventDraw)
  | acceptInvitation (actor : Actor) (token : String) (now : ℕ)
  | revokeInvitation (ctx : OperationContext) (invitationId : ℕ)
  | updateMemberRole (ctx : OperationContext) (targetUserIdOrPhone roleInput : String)

def TeamCall.program (rules : TextRules) : TeamCall → LedgerProgram Unit
  | .addMember ctx userId role => discard (EventWrites.addMember ctx userId role)
  | .updateRole ctx userId role => discard (EventWrites.updateRole ctx userId role)
  | .createInvitation ctx input draw => discard (EventWrites.createInvitation ctx input draw)
  | .acceptInvitation actor token now => discard (EventWrites.acceptInvitation actor token now)
  | .revokeInvitation ctx invitationId => EventWrites.revokeInvitation ctx invitationId
  | .updateMemberRole ctx target role => discard (TeamCalls.updateMemberRole ctx rules target role)

def step (rules : TextRules) (db : LedgerDb) (call : TeamCall) : LedgerDb :=
  (Program.run (call.program rules) db).2

/-- The role of an ACTIVE member. -/
def standing (db : LedgerDb) (eventId userId : ℕ) : Option EventRole :=
  ((db.members.get? (eventId, userId)).filter fun m => decide (m.status = .active)).map
    EventMember.role

/-- The rows after an `upsert` on the pair of event and user. -/
def upserted (members : Table (ℕ × ℕ) EventMember EventMember.key) (member : EventMember)
    (update : EventMember → EventMember) (hu : ∀ m, (update m).key = m.key) :
    Table (ℕ × ℕ) EventMember EventMember.key :=
  if members.has member.key then
    members.update (fun m => decide (m.key = member.key)) update hu
  else members.insertNew member

/-- A user stands in an event under a role, and nobody else's row has changed. -/
structure Appointed (db v : LedgerDb) (e u : ℕ) (role : EventRole) : Prop where
  seat : ∃ member update, ∃ hu : ∀ m : EventMember, (update m).key = m.key,
    v.members = upserted db.members member update hu ∧ member.key = (e, u) ∧
    (member.role = role ∧ member.status = .active) ∧
    ∀ m, (update m).role = role ∧ (update m).status = .active
  events : v.events = db.events

section appointed
variable {db v : LedgerDb} {e u : ℕ} {role : EventRole}

theorem get?_upserted {members : Table (ℕ × ℕ) EventMember EventMember.key} {member : EventMember}
    {update : EventMember → EventMember} {hu : ∀ m, (update m).key = m.key} (k : ℕ × ℕ) :
    (upserted members member update hu).get? k =
      if k = member.key then some (((members.get? k).map update).getD member)
      else members.get? k := by
  unfold upserted
  split_ifs with hhas hk hk
  · subst hk
    obtain ⟨m, hm, hkey⟩ := Table.has_iff.mp hhas
    rw [Table.get?_update, Table.get?_eq_some.mpr ⟨hm, hkey⟩]
    simp [hkey]
  · rw [Table.get?_update]
    cases hrow : members.get? k with
    | none => rfl
    | some m => simp [Table.get?_key hrow, hk]
  · subst hk
    have hfree : members.has member.key = false := by simpa using hhas
    rw [Table.get?_insertNew hfree, if_pos rfl, Table.get?_eq_none.mpr hfree]
    rfl
  · have hfree : members.has member.key = false := by simpa using hhas
    rw [Table.get?_insertNew hfree, if_neg (Ne.symm hk)]

/-- Whoever is appointed stands under the new role, and everybody else as before. -/
theorem standing_appointed (h : Appointed db v e u role) (e' u' : ℕ) :
    standing v e' u' = if e' = e ∧ u' = u then some role else standing db e' u' := by
  obtain ⟨member, update, hu, hmembers, hkey, ⟨hrole, hactive⟩, hupdate⟩ := h.seat
  unfold standing
  rw [hmembers, get?_upserted, hkey]
  by_cases hk : e' = e ∧ u' = u
  · obtain ⟨rfl, rfl⟩ := hk
    rw [if_pos rfl, if_pos ⟨rfl, rfl⟩]
    cases db.members.get? (e', u') with
    | none => simp [hrole, hactive]
    | some m => simp [hupdate m]
  · rw [if_neg (by simpa using hk), if_neg hk]

end appointed

/-- Who is appointed, and if nobody is, no member's row and no event's has changed. -/
def Did (db v : LedgerDb) : Option (ℕ × ℕ × EventRole) → Prop
  | some (e, u, role) => Appointed db v e u role
  | none => v.members = db.members ∧ v.events = db.events

/-- The members of the event, as they are listed. -/
def memberList (db : LedgerDb) (eventId : ℕ) : List (ℕ × Option String) :=
  (db.members.rows.filter fun m => m.eventId == eventId && m.status == .active).map fun m =>
    (m.userId, (db.users.get? m.userId).bind User.phone)

/-- The call may appoint this user, who exists. -/
def Admitted (db : LedgerDb) (ctx : OperationContext) (userId : ℕ) : Prop :=
  MayWrite ctx .memberManage ∧ db.users.has userId = true

/-- The invitation still lets this user in, who is not there yet. -/
def Admits (db : LedgerDb) (inv : Invitation) (userId now : ℕ) : Prop :=
  (inv.status ≠ .revoked ∧ inv.status ≠ .expired ∧ now < inv.expiresAt) ∧
    standing db inv.eventId userId = none ∧ inv.uses < inv.maxUses ∧ db.users.has userId = true

instance (db : LedgerDb) (ctx : OperationContext) (userId : ℕ) : Decidable (Admitted db ctx userId) :=
  inferInstanceAs (Decidable (_ ∧ _))

instance (db : LedgerDb) (inv : Invitation) (userId now : ℕ) :
    Decidable (Admits db inv userId now) := inferInstanceAs (Decidable (_ ∧ _))

def appoint (db : LedgerDb) (ctx : OperationContext) (userId : ℕ) (role : EventRole) :
    Option (ℕ × ℕ × EventRole) :=
  if Admitted db ctx userId then some (ctx.event.eventId, userId, role) else none

/-- The event, the user and the role of the membership that a call writes. -/
def TeamCall.appointment (rules : TextRules) (db : LedgerDb) :
    TeamCall → Option (ℕ × ℕ × EventRole)
  | .addMember ctx userId role => appoint db ctx userId role
  | .updateRole ctx userId role => appoint db ctx userId role
  | .acceptInvitation actor token now =>
      (db.invitations.find? fun i => i.token == token).bind fun inv =>
        if Admits db inv actor.userId now then some (inv.eventId, actor.userId, inv.role) else none
  | .updateMemberRole ctx target role =>
      if rules.trim target = "" then none
      else (mapRole (rules.trim (rules.lowerCase role))).bind fun role =>
        ((memberList db ctx.event.eventId).find? (isTarget rules target)).bind fun member =>
          appoint db ctx member.1 role
  | .createInvitation .. => none
  | .revokeInvitation .. => none

section effects
variable {I : LedgerDb → Prop} {v : LedgerDb} {ctx : OperationContext} {τ : Type}
  {m : EventMember} {g : EventMember → EventMember} {hg : ∀ m, (g m).key = m.key}
  {f : Unit → LedgerProgram τ} {Q : τ → LedgerDb → Prop} {userId : ℕ} {role : EventRole}

theorem upserted_eq : (if v.members.has m.key then
      { v with members := v.members.update (fun r => decide (r.key = m.key)) g hg }
    else { v with members := v.members.insertNew m } : LedgerDb) =
      { v with members := upserted v.members m g hg } := by
  unfold upserted
  split_ifs
  · rfl
  · rfl

theorem wp_upsert_bind (h : v.users.has m.userId = true →
      wp I (f ()) Q { v with members := upserted v.members m g hg }) :
    wp I (upsertMember m g hg >>= f) Q v := by
  refine wp_accept_bind fun hlegal => ?_
  rw [upserted_eq]
  exact h (by simpa using hlegal)

theorem yields_upsert_bind : yields (upsertMember m g hg >>= f) Q v ↔
    v.users.has m.userId = true ∧ yields (f ()) Q { v with members := upserted v.members m g hg } := by
  refine yields_accept_bind.trans ?_
  rw [upserted_eq]
  simp

/-- Where a program returns whenever it appoints somebody, its run does what it appoints. -/
theorem did_run {p : LedgerProgram τ} {o : Option (ℕ × ℕ × EventRole)}
    (h : wp (fun w => Did v w none) p (fun _ w => Did v w o) v)
    (hreturns : o ≠ none → yields p (fun _ _ => True) v) : Did v (Program.run p v).2 o := by
  rcases run_exact h ⟨rfl, rfl⟩ with ⟨-, -, hdid⟩ | ⟨hfails, hsame⟩
  · exact hdid
  · cases o with
    | none => exact hsame
    | some a => exact absurd (hreturns (by simp)) hfails

theorem wp_addMember_appoints : wp I (addMember ctx userId role)
    (fun _ w => Admitted v ctx userId ∧ Appointed v w ctx.event.eventId userId role) v :=
  wp_gates_bind fun hrole hstatus => wp_query_bind <| wp_orThrow_bind fun _ _ => wp_query_bind <|
    wp_upsert_bind fun huser => wp_writeAudit_bind fun _ _ =>
      wp_pure ⟨⟨⟨hrole, hstatus⟩, huser⟩, ⟨_, _, _, rfl, rfl, ⟨rfl, rfl⟩, fun _ => ⟨rfl, rfl⟩⟩, rfl⟩

theorem yields_addMember (h : Admitted v ctx userId) :
    yields (addMember ctx userId role) (fun _ _ => True) v := by
  obtain ⟨hmay, huser⟩ := h
  obtain ⟨user, huser', hid⟩ := Table.has_iff.mp huser
  refine yields_gates_bind.mpr ⟨hmay, yields_query_bind.mpr <| yields_orThrow_bind.mpr ⟨user, ?_, ?_⟩⟩
  · exact Table.get?_eq_some.mpr ⟨huser', hid⟩
  · exact yields_query_bind.mpr <| yields_upsert_bind.mpr ⟨huser, trivial⟩

theorem did_appoint {w : LedgerDb} (h : Admitted v ctx userId ∧
    Appointed v w ctx.event.eventId userId role) : Did v w (appoint v ctx userId role) := by
  unfold appoint
  rw [if_pos h.1]
  exact h.2

theorem admitted_of_appoint (h : appoint v ctx userId role ≠ none) : Admitted v ctx userId := by
  unfold appoint at h
  by_contra hnot
  exact h (if_neg hnot)

theorem wp_listMembers_bind {p : List (ℕ × Option String) → LedgerProgram τ}
    (h : wp I (p (memberList v ctx.event.eventId)) Q v) : wp I (listMembers ctx >>= p) Q v :=
  wp_bind <| wp_refuse_bind fun _ => wp_query h

/-- Whoever may manage members may read the event. -/
theorem eventRead_of_memberManage {role : EventRole}
    (h : assertPermission role .memberManage = none) : assertPermission role .eventRead = none := by
  revert h
  cases role <;> decide

theorem wp_updateMemberRole {rules : TextRules} {target text : String} :
    wp (fun w => Did v w none) (updateMemberRole ctx rules target text)
      (fun _ w => Did v w ((TeamCall.updateMemberRole ctx target text).appointment rules v)) v := by
  refine wp_gates_bind fun _ _ => ?_
  unfold TeamCall.appointment
  dsimp only
  split_ifs with hempty
  · exact wp_pure ⟨rfl, rfl⟩
  · cases mapRole (rules.trim (rules.lowerCase text)) with
    | none => exact wp_pure ⟨rfl, rfl⟩
    | some role =>
      refine wp_listMembers_bind ?_
      rw [Option.bind_some]
      cases (memberList v ctx.event.eventId).find? (isTarget rules target) with
      | none => exact wp_pure ⟨rfl, rfl⟩
      | some member =>
        exact wp_bind <| wp_mono wp_addMember_appoints fun _ _ h => wp_pure (did_appoint h)

theorem yields_updateMemberRole {rules : TextRules} {target text : String}
    (h : (TeamCall.updateMemberRole ctx target text).appointment rules v ≠ none) :
    yields (updateMemberRole ctx rules target text) (fun _ _ => True) v := by
  unfold TeamCall.appointment at h
  dsimp only at h
  unfold updateMemberRole
  split_ifs at h ⊢ with hempty
  · exact absurd rfl h
  · cases hrole : mapRole (rules.trim (rules.lowerCase text)) with
    | none =>
      rw [hrole] at h
      exact absurd rfl h
    | some role =>
      rw [hrole, Option.bind_some] at h
      cases hfound : (memberList v ctx.event.eventId).find? (isTarget rules target) with
      | none =>
        rw [hfound] at h
        exact absurd rfl h
      | some member =>
        rw [hfound] at h
        have hadmitted := admitted_of_appoint h
        refine yields_gates_bind.mpr ⟨hadmitted.1, yields_bind.mpr <| yields_refuse_bind.mpr
          ⟨eventRead_of_memberManage hadmitted.1.1, ?_⟩⟩
        change yields (match (memberList v ctx.event.eventId).find? (isTarget rules target) with
          | none => _
          | some target => _) _ v
        rw [hfound]
        exact yields_bind.mpr <| yields_mono (yields_addMember hadmitted) fun _ _ _ => trivial

/-- The membership that is already there, as an acceptance looks for it. -/
theorem standing_eq_none {e u : ℕ} : standing v e u = none ↔
    ((v.members.get? (e, u)).filter fun m => decide (m.status = .active)) = none := by
  unfold standing
  rw [Option.map_eq_none_iff]

theorem wp_join_appoints {actor : Actor} {inv : Invitation} {now : ℕ} :
    wp (fun w => Did v w none) (join actor inv now) (fun _ w =>
      (Did v w none ∧ ¬ (standing v inv.eventId actor.userId = none ∧ inv.uses < inv.maxUses ∧
          v.users.has actor.userId = true)) ∨
        ((standing v inv.eventId actor.userId = none ∧ inv.uses < inv.maxUses ∧
          v.users.has actor.userId = true) ∧ Appointed v w inv.eventId actor.userId inv.role)) v := by
  refine wp_query_bind ?_
  split
  · next m hm =>
    refine wp_pure (.inl ⟨⟨rfl, rfl⟩, fun h => ?_⟩)
    rw [standing_eq_none, hm] at h
    cases h.1
  · next hm =>
    refine wp_refuse_bind fun huses => wp_upsert_bind fun huser => wp_accept_bind fun _ =>
      wp_writeAudit_bind fun _ _ => wp_pure (.inr ⟨⟨standing_eq_none.mpr hm, ?_, huser⟩, ?_⟩)
    · by_contra hfull
      simp [Nat.le_of_not_lt hfull] at huses
    · exact ⟨⟨_, _, _, rfl, rfl, ⟨rfl, rfl⟩, fun _ => ⟨rfl, rfl⟩⟩, rfl⟩

theorem yields_join {actor : Actor} {inv : Invitation} {now : ℕ} (hinv : inv ∈ v.invitations)
    (h : standing v inv.eventId actor.userId = none ∧ inv.uses < inv.maxUses ∧
      v.users.has actor.userId = true) : yields (join actor inv now) (fun _ _ => True) v := by
  obtain ⟨hfree, huses, huser⟩ := h
  refine yields_query_bind.mpr ?_
  rw [standing_eq_none.mp hfree]
  refine yields_refuse_bind.mpr ⟨if_neg (by omega), yields_upsert_bind.mpr ⟨huser, ?_⟩⟩
  refine yields_accept_bind.mpr ⟨?_, trivial⟩
  have hhas : v.invitations.has inv.id = true := Table.has_iff.mpr ⟨inv, hinv, rfl⟩
  simp [hhas]

theorem wp_acceptInvitation {rules : TextRules} {actor : Actor} {token : String} {now : ℕ} :
    wp (fun w => Did v w none) (acceptInvitation actor token now)
      (fun _ w => Did v w ((TeamCall.acceptInvitation actor token now).appointment rules v)) v := by
  refine wp_query_bind <| wp_orThrow_bind fun inv hinv => wp_refuse_bind fun hrevoked => ?_
  unfold TeamCall.appointment
  dsimp only
  rw [hinv, Option.bind_some]
  split_ifs with hlate hadmits hadmits
  · exact absurd hlate (by simp [hadmits.1.2.1, hadmits.1.2.2])
  · refine wp_runIf_bind (fun _ => ?_) fun _ => wp_commitNow_bind ⟨rfl, rfl⟩ (wp_throw _)
    exact wp_accept fun _ => wp_commitNow_bind ⟨rfl, rfl⟩ (wp_throw _)
  · refine wp_mono wp_join_appoints fun _ w hw => ?_
    rcases hw with ⟨-, hnot⟩ | ⟨-, hdid⟩
    · exact absurd hadmits.2 hnot
    · exact hdid
  · refine wp_mono wp_join_appoints fun _ w hw => ?_
    rcases hw with ⟨hsame, -⟩ | ⟨hfree, -⟩
    · exact hsame
    · refine absurd ⟨⟨?_, ?_, ?_⟩, hfree⟩ hadmits
      · intro hstatus
        simp [hstatus] at hrevoked
      · exact fun hstatus => hlate (.inl hstatus)
      · exact Nat.lt_of_not_le fun hexpired => hlate (.inr hexpired)

theorem yields_acceptInvitation {rules : TextRules} {actor : Actor} {token : String} {now : ℕ}
    (h : (TeamCall.acceptInvitation actor token now).appointment rules v ≠ none) :
    yields (acceptInvitation actor token now) (fun _ _ => True) v := by
  unfold TeamCall.appointment at h
  cases hinv : v.invitations.find? fun i => i.token == token with
  | none =>
    dsimp only at h
    rw [hinv] at h
    exact absurd rfl h
  | some inv =>
    dsimp only at h
    rw [hinv, Option.bind_some] at h
    have hadmits : Admits v inv actor.userId now := by
      by_contra hnot
      exact h (if_neg hnot)
    obtain ⟨⟨hrevoked, hexpired, hnow⟩, hjoin⟩ := hadmits
    refine yields_query_bind.mpr <| yields_orThrow_bind.mpr ⟨inv, hinv, yields_refuse_bind.mpr
      ⟨if_neg hrevoked, ?_⟩⟩
    rw [if_neg (by simp [hexpired, hnow])]
    exact yields_join (Table.mem_of_find? hinv).1 hjoin

end effects

/-- A call appoints whom its appointment names, and touches no other membership. -/
theorem did_step (rules : TextRules) (db : LedgerDb) (call : TeamCall) :
    Did db (step rules db call) (call.appointment rules db) := by
  cases call with
  | addMember ctx userId role =>
    exact did_run (wp_map <| wp_mono wp_addMember_appoints fun _ _ h => did_appoint h)
      fun h => yields_map (yields_addMember (admitted_of_appoint h))
  | updateRole ctx userId role =>
    exact did_run (wp_map <| wp_mono wp_addMember_appoints fun _ _ h => did_appoint h)
      fun h => yields_map (yields_addMember (admitted_of_appoint h))
  | createInvitation ctx input draw =>
    exact did_run (wp_map <| EventSteps.wp_createInvitation fun _ _ => ⟨rfl, rfl⟩)
      fun h => absurd rfl h
  | acceptInvitation actor token now =>
    exact did_run (wp_map wp_acceptInvitation) fun h => yields_map (yields_acceptInvitation h)
  | revokeInvitation ctx invitationId =>
    exact did_run (EventSteps.wp_revokeInvitation fun _ => ⟨rfl, rfl⟩) fun h => absurd rfl h
  | updateMemberRole ctx target role =>
    exact did_run (wp_map wp_updateMemberRole) fun h => yields_map (yields_updateMemberRole h)

end Akabbo.TeamCalls
