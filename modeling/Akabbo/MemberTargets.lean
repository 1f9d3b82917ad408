import Akabbo.EventOwners

/-!
# Whose role the assistant changes

A member is meant by an id or by digits of a phone, and the first of the list that fits is taken.
-/
namespace Akabbo.MemberTargets
open Access RowTable StatementProgram LedgerState LedgerWrites EventWrites ServiceSteps GiftSteps
open WeakestPreconditions CompletedCalls TeamCalls EventOwners

/-- The phone has the digits of the text. -/
def hasDigits (target : String) (member : ℕ × Option String) : Bool :=
  onlyDigits target != [] && member.2.any fun phone =>
    phone != "" && decide (onlyDigits target <:+: onlyDigits phone)

def phoneMatches (db : LedgerDb) (e : ℕ) (target : String) : List (ℕ × Option String) :=
  (memberList db e).filter (hasDigits target)

/-- The members that the text fits, by their id or by their phone. -/
def fitting (db : LedgerDb) (rules : TextRules) (e : ℕ) (target : String) :
    List (ℕ × Option String) :=
  (memberList db e).filter (isTarget rules target)

/-- A text means a member by the exact id, or by digits that no other phone has. -/
def Means (db : LedgerDb) (rules : TextRules) (e : ℕ) (target : String)
    (member : ℕ × Option String) : Prop :=
  rules.userIdText member.1 = rules.trim target ∨ phoneMatches db e target = [member]

/-- A role changes only for the member that the text means, and for the one with this exact id if
there is one; where it fits several the call asks, and changes nothing. -/
structure ChangesWhoIsMeant (db : LedgerDb) (ctx : OperationContext) (rules : TextRules)
    (target : String) (result : Except Refusal StageResult) (after : LedgerDb) : Prop where
  meant : ∀ e u, standing after e u ≠ standing db e u → e = ctx.event.eventId ∧
    ∃ member ∈ memberList db e, member.1 = u ∧ Means db rules e target member ∧
      ∀ other ∈ memberList db e, rules.userIdText other.1 = rules.trim target → other = member
  asks : MayWrite ctx .memberManage → 2 ≤ (fitting db rules ctx.event.eventId target).length →
    (∃ message candidates, result = .ok (.clarification message candidates)) ∧ after = db

section runs
variable {db : LedgerDb} {ctx : OperationContext} {rules : TextRules} {target roleInput : String}

theorem isTarget_eq (member : ℕ × Option String) : isTarget rules target member =
    (rules.userIdText member.1 == rules.trim target || hasDigits target member) := rfl

theorem phoneMatches_eq (e : ℕ) :
    phoneMatches db e target = (fitting db rules e target).filter (hasDigits target) := by
  unfold phoneMatches fitting
  rw [List.filter_filter]
  refine List.filter_congr fun member _ => ?_
  rw [isTarget_eq]
  cases hasDigits target member <;> simp

theorem find?_fitting (e : ℕ) : (memberList db e).find? (isTarget rules target) =
    (fitting db rules e target).head? := List.head?_filter.symm

/-- A call asks back where it finds no name, no role or nobody. -/
theorem yields_asks (hmay : MayWrite ctx .memberManage)
    (h : rules.trim target = "" ∨ mapRole (rules.trim (rules.lowerCase roleInput)) = none) :
    yields (updateMemberRole ctx rules target roleInput)
      (fun r w => (∃ message candidates, r = .clarification message candidates) ∧ w = db) db := by
  refine yields_gates_bind.mpr ⟨hmay, ?_⟩
  split_ifs with hempty
  · exact ⟨⟨_, _, rfl⟩, rfl⟩
  · rw [h.resolve_left hempty]
    exact ⟨⟨_, _, rfl⟩, rfl⟩

/-- Once it finds somebody it does not ask. -/
theorem wp_done {role : EventRole} {member : ℕ × Option String}
    (hempty : rules.trim target ≠ "")
    (hrole : mapRole (rules.trim (rules.lowerCase roleInput)) = some role)
    (hfit : (fitting db rules ctx.event.eventId target).head? = some member) :
    wp (fun _ => True) (updateMemberRole ctx rules target roleInput)
      (fun r _ => ∃ message, r = .done message) db := by
  refine wp_gates_bind fun _ _ => ?_
  rw [if_neg hempty, hrole]
  refine wp_listMembers_bind ?_
  rw [find?_fitting, hfit]
  exact wp_bind <| wp_mono wp_addMember_appoints fun _ _ _ => wp_pure ⟨_, rfl⟩

/-- Who is appointed is the first that the text fits. -/
theorem fits_of_appointment {e u : ℕ} {role : EventRole}
    (h : (TeamCall.updateMemberRole ctx target roleInput).appointment rules db = some (e, u, role)) :
    e = ctx.event.eventId ∧ MayWrite ctx .memberManage ∧ rules.trim target ≠ "" ∧
      mapRole (rules.trim (rules.lowerCase roleInput)) ≠ none ∧
      ∃ member, (fitting db rules e target).head? = some member ∧ member.1 = u := by
  unfold TeamCall.appointment at h
  dsimp only at h
  split_ifs at h with hempty
  obtain ⟨role', hrole, h⟩ := Option.bind_eq_some_iff.mp h
  obtain ⟨member, hfound, h⟩ := Option.bind_eq_some_iff.mp h
  unfold appoint at h
  split_ifs at h with hadmitted
  cases h
  rw [find?_fitting] at hfound
  exact ⟨rfl, hadmitted.1, hempty, by simp [hrole], member, hfound, rfl⟩

theorem means_of_sole {e : ℕ} {member : ℕ × Option String}
    (h : fitting db rules e target = [member]) : Means db rules e target member := by
  have hmem : member ∈ fitting db rules e target := h ▸ List.mem_singleton_self member
  have hfits := (List.mem_filter.mp hmem).2
  rw [isTarget_eq] at hfits
  rcases Bool.or_eq_true _ _ |>.mp hfits with hid | hphone
  · exact .inl (eq_of_beq hid)
  · refine .inr ?_
    rw [@phoneMatches_eq db rules, h, List.filter_cons_of_pos hphone, List.filter_nil]

theorem sole_of_id {e : ℕ} {member other : ℕ × Option String}
    (h : fitting db rules e target = [member]) (hother : other ∈ memberList db e)
    (hid : rules.userIdText other.1 = rules.trim target) : other = member := by
  have hmem : other ∈ fitting db rules e target := by
    refine List.mem_filter.mpr ⟨hother, ?_⟩
    rw [isTarget_eq, hid, beq_self_eq_true, Bool.true_or]
  rw [h] at hmem
  exact List.mem_singleton.mp hmem

theorem sole_of_head {e : ℕ} {member : ℕ × Option String}
    (hone : (fitting db rules e target).length ≤ 1)
    (h : (fitting db rules e target).head? = some member) :
    fitting db rules e target = [member] := by
  cases hlist : fitting db rules e target with
  | nil =>
    rw [hlist] at h
    cases h
  | cons first rest =>
    rw [hlist] at h hone
    obtain rfl := Option.some.inj h
    obtain rfl : rest = [] := List.eq_nil_of_length_eq_zero (by simpa using hone)
    rfl

/-- Whoever's role has changed was appointed. -/
theorem appointment_of_changed {e u : ℕ}
    (h : standing (Program.run (updateMemberRole ctx rules target roleInput) db).2 e u ≠
      standing db e u) :
    ∃ role, (TeamCall.updateMemberRole ctx target roleInput).appointment rules db =
      some (e, u, role) := by
  have hdid := did_run wp_updateMemberRole
    (@yields_updateMemberRole db ctx rules target roleInput)
  cases happoint : (TeamCall.updateMemberRole ctx target roleInput).appointment rules db with
  | none =>
    rw [happoint] at hdid
    exact absurd (standing_same hdid e u) h
  | some a =>
    obtain ⟨e', u', role⟩ := a
    rw [happoint] at hdid
    have hwhere : e = e' ∧ u = u' := by
      by_contra hne
      exact h (by rw [standing_appointed hdid, if_neg hne])
    obtain ⟨rfl, rfl⟩ := hwhere
    exact ⟨role, rfl⟩

/-- A call changes the role of whoever is meant, and asks where the text fits several, exactly when
it fits at most one wherever the call is allowed, names somebody and asks for a role. -/
theorem changes_who_is_meant_iff (db : LedgerDb) (ctx : OperationContext) (rules : TextRules)
    (target roleInput : String) :
    ChangesWhoIsMeant db ctx rules target
        (Program.run (updateMemberRole ctx rules target roleInput) db).1
        (Program.run (updateMemberRole ctx rules target roleInput) db).2 ↔
      (MayWrite ctx .memberManage → rules.trim target ≠ "" →
        mapRole (rules.trim (rules.lowerCase roleInput)) ≠ none →
        (fitting db rules ctx.event.eventId target).length ≤ 1) := by
  constructor
  · intro h hmay hempty hrole
    by_contra hmany
    obtain ⟨⟨message, candidates, hasks⟩, -⟩ := h.asks hmay (by omega)
    obtain ⟨role, hrole⟩ := Option.ne_none_iff_exists'.mp hrole
    obtain ⟨member, hfit⟩ : ∃ member, (fitting db rules ctx.event.eventId target).head? =
        some member := by
      cases hlist : fitting db rules ctx.event.eventId target with
      | nil => simp [hlist] at hmany
      | cons member rest => exact ⟨member, rfl⟩
    have hyields : yields (updateMemberRole ctx rules target roleInput)
        (fun r _ => r = .clarification message candidates) db :=
      yields_iff_run.mpr ⟨_, _, Prod.ext hasks rfl, rfl⟩
    obtain ⟨r, w, rfl, message', hdone⟩ := yields_and_wp hyields (wp_done hempty hrole hfit)
    cases hdone
  · intro hcond
    refine ⟨fun e u hchanged => ?_, fun hmay hmany => ?_⟩
    · obtain ⟨role, happoint⟩ := appointment_of_changed hchanged
      obtain ⟨rfl, hmay, hempty, hrole, member, hfit, rfl⟩ := fits_of_appointment happoint
      have hsole := sole_of_head (hcond hmay hempty hrole) hfit
      refine ⟨rfl, member, ?_, rfl, means_of_sole hsole, fun other hother => sole_of_id hsole hother⟩
      exact (List.mem_filter.mp (hsole ▸ List.mem_singleton_self member)).1
    · have hasks : rules.trim target = "" ∨
          mapRole (rules.trim (rules.lowerCase roleInput)) = none := by
        by_contra hneither
        rw [not_or] at hneither
        have hone := hcond hmay hneither.1 hneither.2
        omega
      obtain ⟨r, w, hrun, ⟨message, candidates, rfl⟩, rfl⟩ :=
        yields_iff_run.mp (yields_asks hmay hasks)
      rw [hrun]
      exact ⟨⟨message, candidates, rfl⟩, rfl⟩

end runs

set_option maxRecDepth 8000 in
/-- The digits are in the phones of the owner and of the co-owner, and the owner becomes a viewer. -/
theorem first_of_two_is_changed :
    ¬ ∀ (db : LedgerDb) (ctx : OperationContext) (rules : TextRules) (target roleInput : String),
      ChangesWhoIsMeant db ctx rules target
        (Program.run (updateMemberRole ctx rules target roleInput) db).1
        (Program.run (updateMemberRole ctx rules target roleInput) db).2 := by
  intro h
  have hasks := (h governed coOwner plainTexts "25670" "view").asks (by decide) (by decide)
  have hdone : (Program.run (updateMemberRole coOwner plainTexts "25670" "view") governed).1 =
      .ok (.done "Updated committee member's role to VIEWER.") := by decide
  obtain ⟨⟨message, candidates, hclarify⟩, -⟩ := hasks
  rw [hdone] at hclarify
  cases hclarify

end Akabbo.MemberTargets
