import Akabbo.CommitOrder
import Akabbo.EventWrites
import Akabbo.LedgerSpecs
import Akabbo.LedgerStatements
import Akabbo.RunChecks

/-!
# Overlapping additions to a roster

The contributor limit is counted in one transaction, and the phone is looked up and the row written
in another. No constraint stands behind either check.
-/
namespace Akabbo.RosterRaces
open Access RowTable StatementProgram ReadCommitted CommitOrder LedgerState LedgerWrites EventWrites
open LedgerSpecs LedgerStatements StatementProgram.Program

inductive RosterRequest
  | createPerson (input : CreatePersonInput) (draw : Draw)
  | updateContact (personId : ℕ) (phone : String) (confirmSharedPhone : Bool)
  deriving DecidableEq, Repr

/-- A request on one event, whose caller was resolved when it came in. -/
structure RosterCall where
  actor : Actor
  role : EventRole
  status : EventStatus
  request : RosterRequest
  deriving DecidableEq, Repr

def RosterCall.ctx (e : ℕ) (c : RosterCall) : OperationContext := ⟨c.actor, ⟨e, c.role, c.status⟩⟩

def countContributors (e : ℕ) (db : LedgerDb) : ℕ := db.persons.rows.countP fun p => p.eventId == e

/-- `check` for `add_contributor`; an unlimited plan counts nothing. -/
def checkContributor (planCode : String) (maxContributors : Option ℕ) (e : ℕ) :
    LedgerProgram EntitlementDecision :=
  match maxContributors with
  | none => return checkAddContributor planCode none 0
  | some limit => do
      let current ← query (countContributors e)
      return checkAddContributor planCode (some limit) current

/-- The gates before the check read nothing, so they may as well stand behind it. -/
def RosterCall.program (planCode : String) (maxContributors : Option ℕ) (e : ℕ) (c : RosterCall) :
    LedgerProgram PersonView :=
  match c.request with
  | .createPerson input draw => do
      let ent ← checkContributor planCode maxContributors e
      createPerson (c.ctx e) ent input draw
  | .updateContact personId phone confirmed => updateContact (c.ctx e) personId phone confirmed

abbrev RosterSystem := System RowLock LedgerDb Refusal PersonView

def system (planCode : String) (maxContributors : Option ℕ) (e : ℕ) (db : LedgerDb)
    (calls : List RosterCall) : RosterSystem :=
  System.begin db (calls.map (RosterCall.program planCode maxContributors e))

/-- The person and the phone that a call writes. -/
def RosterCall.setsPhone (c : RosterCall) : Option (ℕ × String) :=
  match c.request with
  | .createPerson input draw => input.phone.map fun phone => (draw.personId, phone)
  | .updateContact personId phone _ => some (personId, phone)

def RosterCall.confirmed (c : RosterCall) : Bool :=
  match c.request with
  | .createPerson input _ => input.confirmSharedPhone
  | .updateContact _ _ confirmed => confirmed

def HasPhone (db : LedgerDb) (e i : ℕ) (phone : String) : Prop :=
  ∃ p ∈ db.persons, p.id = i ∧ p.eventId = e ∧ p.phone = some phone

/-- A returned call set the person's phone to this one and confirmed that it is shared. -/
def ConfirmedFor (calls : List RosterCall) (order : List (ℕ × PersonView)) (i : ℕ) (phone : String) :
    Prop :=
  ∃ entry ∈ order, ∃ c, calls[entry.1]? = some c ∧ c.setsPhone = some (i, phone) ∧
    c.confirmed = true

/-- The people of the event stay within the limit, or what they were; two of them share a phone
that they shared before or that a call confirmed for one of them. -/
structure RosterKept (maxContributors : Option ℕ) (e : ℕ) (db : LedgerDb) (calls : List RosterCall)
    (v : LedgerDb) (order : List (ℕ × PersonView)) : Prop where
  limit : ∀ limit, maxContributors = some limit →
    countContributors e v ≤ max limit (countContributors e db)
  phones : ∀ i j phone, i ≠ j → phone ≠ "" → HasPhone v e i phone → HasPhone v e j phone →
    (HasPhone db e i phone ∧ HasPhone db e j phone) ∨ ConfirmedFor calls order i phone ∨
      ConfirmedFor calls order j phone

/-- A call ends only while all it has read still reads the same. -/
def EndsCurrent (sys : RosterSystem) (m : Move) : Prop :=
  ∀ t x r, Applied sys m t x r → x.Current sys.committed

section alone
variable {planCode : String} {maxContributors : Option ℕ} {e : ℕ} {ctx : OperationContext}
  {draw : Draw} {c v c' v' : LedgerDb} {view : PersonView}

theorem exec_checkContributor_bind {τ : Type} {next : EntitlementDecision → LedgerProgram τ}
    {x : τ × LedgerDb × LedgerDb} :
    (checkContributor planCode maxContributors e >>= next).exec c v = .ok x ↔
      (next (checkAddContributor planCode maxContributors (countContributors e v))).exec c v =
        .ok x := by
  cases maxContributors <;> rfl

theorem checkAddContributor_room {limit current : ℕ}
    (h : (checkAddContributor planCode (some limit) current).refusal = none) : current + 1 ≤ limit := by
  by_contra hfull
  rw [checkAddContributor, if_pos (by omega)] at h
  cases h

/-- Who else has the phone, where the call asks. -/
theorem exec_assertPhone_unused {phone : String} {confirmed : Bool} {r : Unit}
    (h : (assertPhoneNotAttachedElsewhere ctx phone confirmed).exec c v = .ok (r, c', v')) :
    confirmed = true ∨ ∀ i, ¬ HasPhone v ctx.event.eventId i phone := by
  rw [assertPhoneNotAttachedElsewhere, exec_runIf] at h
  obtain ⟨-, h⟩ | ⟨hconfirmed, -⟩ := h
  · rw [exec_query_bind, exec_refuse, Option.map_eq_none_iff, oldest_eq_none,
      List.filter_eq_nil_iff] at h
    refine .inr ?_
    rintro i ⟨p, hp, -, he, hphone⟩
    exact h.1 p hp (by simp [he, hphone])
  · exact .inl (by simpa using hconfirmed)

theorem exec_assertPhoneFree {phone : String} {confirmed : Bool} {i : ℕ} {r : Unit}
    (h : (assertPhoneFree ctx phone confirmed i).exec c v = .ok (r, c', v')) :
    (c = c' ∧ v = v') ∧
      (confirmed = true ∨ ∀ j, j ≠ i → ¬ HasPhone v ctx.event.eventId j phone) := by
  rw [assertPhoneFree, exec_runIf] at h
  obtain ⟨-, h⟩ | ⟨hconfirmed, h⟩ := h
  · rw [exec_query_bind, exec_refuse, Option.map_eq_none_iff, oldest_eq_none,
      List.filter_eq_nil_iff] at h
    refine ⟨h.2, .inr ?_⟩
    rintro j hj ⟨p, hp, rfl, he, hphone⟩
    exact h.1 p hp (by simp [he, hphone, hj])
  · exact ⟨h, .inl (by simpa using hconfirmed)⟩

/-- The row that a new contributor adds. -/
def newPerson (ctx : OperationContext) (input : CreatePersonInput) (draw : Draw) : Person :=
  ⟨draw.personId, ctx.event.eventId, input.displayName, input.phone, none,
    input.source.getD .humanTyped, some ctx.actor.userId, draw.now⟩

theorem exec_createPerson_checked {ent : EntitlementDecision} {input : CreatePersonInput}
    (h : (createPerson ctx ent input draw).exec c v = .ok (view, c', v')) :
    ent.refusal = none ∧ v.persons.has draw.personId = false ∧
      v'.persons = v.persons.insertNew (newPerson ctx input draw) ∧
      ∀ phone, input.phone = some phone → phone = "" ∨ input.confirmSharedPhone = true ∨
        ∀ i, ¬ HasPhone v ctx.event.eventId i phone := by
  simp only [createPerson, exec_gates_bind, exec_refuse_bind] at h
  obtain ⟨-, -, hent, h⟩ := h
  rw [exec_bind_of_reads fun _ _ _ hr => (exec_runIf.mp hr).elim (fun hr => exec_assertPhone hr.2)
    And.right] at h
  obtain ⟨r, hphone, h⟩ := h
  rw [exec_insertPerson_bind, exec_writeAudit_bind, exec_pure_eq_ok] at h
  obtain ⟨hfresh, -, -, rfl⟩ := h
  refine ⟨hent, hfresh, rfl, fun phone hp => ?_⟩
  rw [hp, exec_runIf] at hphone
  obtain ⟨-, hcheck⟩ | ⟨hempty, -⟩ := hphone
  · exact .inr (exec_assertPhone_unused hcheck)
  · exact .inl (by simpa using hempty)

theorem setPhone_id (phone : String) (p : Person) : { p with phone := some phone }.id = p.id := rfl

theorem exec_updateContact {i : ℕ} {phone : String} {confirmed : Bool}
    (h : (updateContact ctx i phone confirmed).exec c v = .ok (view, c', v')) :
    v'.persons = v.persons.update (fun p => p.eventId == ctx.event.eventId && p.id == i)
        (fun p => { p with phone := some phone }) (setPhone_id phone) ∧
      (HasPhone v ctx.event.eventId i phone ∨ confirmed = true ∨
        ∀ j, j ≠ i → ¬ HasPhone v ctx.event.eventId j phone) := by
  simp only [updateContact, exec_gates_bind, exec_query_bind, exec_orThrow_bind] at h
  obtain ⟨-, -, before, hbefore, h⟩ := h
  rw [exec_bind_of_reads fun _ _ _ hr => (exec_runIf.mp hr).elim
    (fun hr => (exec_assertPhoneFree hr.2).1) And.right] at h
  obtain ⟨r, hphone, h⟩ := h
  simp only [setPhone, exec_modifyChecked_bind, exec_writeAudit_bind, exec_pure_eq_ok] at h
  obtain ⟨-, -, -, -, rfl⟩ := h
  refine ⟨rfl, ?_⟩
  obtain ⟨-, hcheck⟩ | ⟨hsame, -⟩ := exec_runIf.mp hphone
  · exact .inr (exec_assertPhoneFree hcheck).2
  · obtain ⟨hmem, he, hi⟩ := findPerson_mem hbefore
    have hhas : some phone = before.phone := by simpa using hsame
    exact .inl ⟨before, hmem, hi, he, hhas.symm⟩

end alone

theorem commitFree_program (planCode : String) (maxContributors : Option ℕ) (e : ℕ)
    (c : RosterCall) : (c.program planCode maxContributors e).CommitFree := by
  refine commitFree_of_writes (R := fun _ _ => True) ?_
  unfold RosterCall.program
  cases c.request with
  | createPerson input draw =>
    refine writes_bind ?_ fun ent => writes_createPerson keeps_true _ draw ent input
    unfold checkContributor
    cases maxContributors with
    | none => trivial
    | some limit => exact writes_bind (writes_query _) fun _ => trivial
  | updateContact personId phone confirmed =>
    have hphone : Writes False (fun _ _ => True)
        (assertPhoneFree (c.ctx e) phone confirmed personId) :=
      writes_runIf (writes_bind (writes_query _) fun _ => writes_refuse _)
    exact writes_bind (writes_gates _ _) fun _ => writes_bind (writes_query _) fun _ =>
      writes_bind (writes_orThrow _ _) fun _ => writes_bind (writes_runIf hphone) fun _ =>
      writes_bind (writes_modifyChecked (fun _ => trivial) _ fun _ _ _ => trivial) fun _ =>
      writes_bind (writes_modify _ fun _ => trivial) fun _ => trivial

section commit
variable {maxContributors : Option ℕ} {e : ℕ} {db v v' : LedgerDb} {calls : List RosterCall}
  {order : List (ℕ × PersonView)} {t : ℕ} {c : RosterCall} {view : PersonView}

theorem confirmedFor_append {i : ℕ} {phone : String} (h : ConfirmedFor calls order i phone)
    (later : List (ℕ × PersonView)) : ConfirmedFor calls (order ++ later) i phone := by
  obtain ⟨entry, hentry, hc⟩ := h
  exact ⟨entry, List.mem_append_left _ hentry, hc⟩

/-- What held before the call returned. -/
theorem phones_before (h : RosterKept maxContributors e db calls v order)
    (later : List (ℕ × PersonView)) {i j : ℕ} {phone : String} (hij : i ≠ j) (hphone : phone ≠ "")
    (hi : HasPhone v e i phone) (hj : HasPhone v e j phone) :
    (HasPhone db e i phone ∧ HasPhone db e j phone) ∨ ConfirmedFor calls (order ++ later) i phone ∨
      ConfirmedFor calls (order ++ later) j phone := by
  rcases h.phones i j phone hij hphone hi hj with hdb | hconf | hconf
  · exact .inl hdb
  · exact .inr (.inl (confirmedFor_append hconf _))
  · exact .inr (.inr (confirmedFor_append hconf _))

/-- A call that sets one person's phone, where nobody else has it unless that is confirmed. -/
theorem phones_set {k : ℕ} {set : String}
    (h : RosterKept maxContributors e db calls v order) (hc : calls[t]? = some c)
    (hsets : c.setsPhone = some (k, set))
    (hphones : ∀ i phone, HasPhone v' e i phone → (i = k ∧ phone = set) ∨ HasPhone v e i phone)
    (hchecked : set = "" ∨ c.confirmed = true ∨ HasPhone v e k set ∨
      ∀ j, j ≠ k → ¬ HasPhone v e j set)
    {i j : ℕ} {phone : String} (hij : i ≠ j) (hphone : phone ≠ "") (hi : HasPhone v' e i phone)
    (hj : HasPhone v' e j phone) :
    (HasPhone db e i phone ∧ HasPhone db e j phone) ∨
      ConfirmedFor calls (order ++ [(t, view)]) i phone ∨
      ConfirmedFor calls (order ++ [(t, view)]) j phone := by
  have hnow : c.confirmed = true → ConfirmedFor calls (order ++ [(t, view)]) k set :=
    fun hconf => ⟨(t, view), by simp, c, hc, hsets, hconf⟩
  rcases hphones i phone hi with ⟨rfl, rfl⟩ | hi
  · rcases hphones j phone hj with ⟨rfl, -⟩ | hj
    · exact absurd rfl hij
    · rcases hchecked with hempty | hconf | hhad | hnobody
      · exact absurd hempty hphone
      · exact .inr (.inl (hnow hconf))
      · exact phones_before h _ hij hphone hhad hj
      · exact absurd hj (hnobody j hij.symm)
  · rcases hphones j phone hj with ⟨rfl, rfl⟩ | hj
    · rcases hchecked with hempty | hconf | hhad | hnobody
      · exact absurd hempty hphone
      · exact .inr (.inr (hnow hconf))
      · exact phones_before h _ hij hphone hi hhad
      · exact absurd hi (hnobody i hij)
    · exact phones_before h _ hij hphone hi hj

theorem countContributors_insert {p : Person} (hfresh : v.persons.has p.id = false)
    (he : p.eventId = e) (hpersons : v'.persons = v.persons.insertNew p) :
    countContributors e v' = countContributors e v + 1 := by
  unfold countContributors
  rw [hpersons, Table.insertNew_rows hfresh, List.countP_append]
  simp [he]

theorem countContributors_update {i : ℕ} {phone : String}
    (hpersons : v'.persons = v.persons.update (fun p => p.eventId == e && p.id == i)
      (fun p => { p with phone := some phone }) (setPhone_id phone)) :
    countContributors e v' = countContributors e v := by
  unfold countContributors
  rw [hpersons]
  simp only [Table.update, List.countP_map]
  refine List.countP_congr fun p _ => ?_
  simp only [Function.comp_apply]
  split_ifs <;> rfl

theorem hasPhone_insert {p : Person} {i : ℕ} {phone : String}
    (hpersons : v'.persons = v.persons.insertNew p) (h : HasPhone v' e i phone) :
    (i = p.id ∧ p.phone = some phone) ∨ HasPhone v e i phone := by
  obtain ⟨q, hq, rfl, he, hphone⟩ := h
  rw [hpersons] at hq
  rcases Table.mem_insertNew_cases hq with hq | rfl
  · exact .inr ⟨q, hq, rfl, he, hphone⟩
  · exact .inl ⟨rfl, hphone⟩

theorem hasPhone_update {i k : ℕ} {phone set : String}
    (hpersons : v'.persons = v.persons.update (fun p => p.eventId == e && p.id == k)
      (fun p => { p with phone := some set }) (setPhone_id set)) (h : HasPhone v' e i phone) :
    (i = k ∧ phone = set) ∨ HasPhone v e i phone := by
  obtain ⟨q, hq, rfl, he, hphone⟩ := h
  rw [hpersons] at hq
  obtain ⟨p, hp, rfl⟩ := Table.mem_update.mp hq
  split_ifs at he hphone ⊢ with hsel
  · refine .inl ⟨?_, (Option.some.inj hphone).symm⟩
    simpa using (Bool.and_eq_true_iff.mp hsel).2
  · exact .inr ⟨p, hp, rfl, he, hphone⟩

theorem kept_createPerson {planCode : String} {input : CreatePersonInput} {draw : Draw}
    (h : RosterKept maxContributors e db calls v order) (hc : calls[t]? = some c)
    (hrequest : c.request = .createPerson input draw) {c₀ c₁ : LedgerDb}
    (hexec : (createPerson (c.ctx e) (checkAddContributor planCode maxContributors
      (countContributors e v)) input draw).exec c₀ v = .ok (view, c₁, v')) :
    RosterKept maxContributors e db calls v' (order ++ [(t, view)]) := by
  obtain ⟨hroom, hfresh, hpersons, hunused⟩ := exec_createPerson_checked hexec
  refine ⟨fun limit hlimit => ?_, fun i j phone hij hphone hi hj => ?_⟩
  · subst hlimit
    have hone := checkAddContributor_room hroom
    rw [countContributors_insert (e := e) hfresh rfl hpersons]
    omega
  · cases hnew : input.phone with
    | none =>
      -- the new row has no phone, so both had theirs before
      have hold {k : ℕ} (hk : HasPhone v' e k phone) : HasPhone v e k phone := by
        rcases hasPhone_insert hpersons hk with ⟨-, hset⟩ | hk
        · exact absurd (hnew.symm.trans hset) nofun
        · exact hk
      exact phones_before h _ hij hphone (hold hi) (hold hj)
    | some set =>
      refine phones_set (k := draw.personId) h hc (?_ : _ = some (_, set)) ?_ ?_ hij hphone hi hj
      · simp [RosterCall.setsPhone, hrequest, hnew]
      · intro k other hk
        rcases hasPhone_insert hpersons hk with ⟨hid, hset⟩ | hk
        · exact .inl ⟨hid, Option.some.inj (hset.symm.trans hnew)⟩
        · exact .inr hk
      · rcases hunused set hnew with hempty | hconf | hnobody
        · exact .inl hempty
        · exact .inr (.inl (by simpa [RosterCall.confirmed, hrequest] using hconf))
        · exact .inr (.inr (.inr fun j _ => hnobody j))

theorem kept_updateContact {k : ℕ} {set : String} {confirmed : Bool}
    (h : RosterKept maxContributors e db calls v order) (hc : calls[t]? = some c)
    (hrequest : c.request = .updateContact k set confirmed) {c₀ c₁ : LedgerDb}
    (hexec : (updateContact (c.ctx e) k set confirmed).exec c₀ v = .ok (view, c₁, v')) :
    RosterKept maxContributors e db calls v' (order ++ [(t, view)]) := by
  obtain ⟨hpersons, hchecked⟩ := exec_updateContact hexec
  refine ⟨fun limit hlimit => ?_, fun i j phone hij hphone hi hj => ?_⟩
  · rw [countContributors_update (e := e) hpersons]
    exact h.limit limit hlimit
  · refine phones_set h hc (?_ : _ = some (k, set)) (fun _ _ hk => hasPhone_update hpersons hk) ?_
      hij hphone hi hj
    · simp [RosterCall.setsPhone, hrequest]
    · rcases hchecked with hhad | hconf | hnobody
      · exact .inr (.inr (.inl hhad))
      · exact .inr (.inl (by simpa [RosterCall.confirmed, hrequest] using hconf))
      · exact .inr (.inr (.inr hnobody))

end commit

theorem rosterKept_begin (maxContributors : Option ℕ) (e : ℕ) (db : LedgerDb)
    (calls : List RosterCall) : RosterKept maxContributors e db calls db [] :=
  ⟨fun _ _ => le_max_right _ _, fun _ _ _ _ _ hi hj => .inl ⟨hi, hj⟩⟩

/-- Overlapping additions and corrections keep the limit and the phones as long as each ends while
all it has read still reads the same. -/
theorem current_ends_keep_roster (planCode : String) (maxContributors : Option ℕ) (e : ℕ)
    (db : LedgerDb) (calls : List RosterCall) (moves : List Move)
    (hcond : ∀ before m after, moves = before ++ m :: after →
      EndsCurrent ((system planCode maxContributors e db calls).run before) m) :
    RosterKept maxContributors e db calls
      ((system planCode maxContributors e db calls).run moves).committed
      (returned (system planCode maxContributors e db calls) moves) := by
  refine run_serial_invariant (commitFree_program planCode maxContributors e)
    (rosterKept_begin maxContributors e db calls) ?_ moves
    fun before m after he t x r happ => hcond before m after he t x r happ
  intro v order t c view v' h hc hexec
  unfold RosterCall.program at hexec
  cases hrequest : c.request with
  | createPerson input draw =>
    simp only [hrequest, exec_checkContributor_bind] at hexec
    exact kept_createPerson h hc hrequest hexec
  | updateContact k set confirmed =>
    simp only [hrequest] at hexec
    exact kept_updateContact h hc hrequest hexec

def guest (i : ℕ) : RosterCall :=
  ⟨⟨1, true⟩, .owner, .active,
    .createPerson { displayName := "Guest", phone := some "+256700000001" } ⟨i, 0, 0, 2⟩⟩

/-- Both count an empty roster and find nobody with the phone, then both write. -/
def together : List Move :=
  List.replicate 2 (.advance 0) ++ List.replicate 2 (.advance 1) ++ List.replicate 3 (.advance 0) ++
    List.replicate 3 (.advance 1)

set_option maxRecDepth 4000 in
theorem two_join_roster_for_one :
    ¬ ∀ (planCode : String) (maxContributors : Option ℕ) (e : ℕ) (db : LedgerDb)
      (calls : List RosterCall) (moves : List Move),
      RosterKept maxContributors e db calls
        ((system planCode maxContributors e db calls).run moves).committed
        (returned (system planCode maxContributors e db calls) moves) := by
  intro h
  have hlimit := (h "FREE" (some 1) 7 .empty [guest 10, guest 11] together).limit 1 rfl
  have htwo : countContributors 7 ((system "FREE" (some 1) 7 .empty
      [guest 10, guest 11]).run together).committed = 2 := by decide
  rw [htwo] at hlimit
  exact absurd hlimit (by decide)

def seatedDb : LedgerDb :=
  { LedgerDb.empty with
    persons := LedgerDb.empty.persons.insertNew
      ⟨3, 7, "Achieng", none, none, .humanTyped, some 1, 0⟩ }

/-- A guest, a phone for Achieng meanwhile, and another guest with the first one's phone. -/
def guestsAndPhone : List RosterCall :=
  [guest 10, ⟨⟨1, true⟩, .owner, .active, .updateContact 3 "+256700000002" false⟩, guest 11]

def byTurns : List Move := [0, 1, 0, 1, 0, 1, 2, 0, 0, 1, 1, 2, 2].map .advance

set_option maxRecDepth 8000 in
theorem current_ends_keep_roster_byTurns :
    RosterKept (some 2) 7 seatedDb guestsAndPhone
      ((system "FREE" (some 2) 7 seatedDb guestsAndPhone).run byTurns).committed
      (returned (system "FREE" (some 2) 7 seatedDb guestsAndPhone) byTurns) := by
  refine current_ends_keep_roster "FREE" (some 2) 7 seatedDb guestsAndPhone byTurns ?_
  intro before m after hmoves t x r happ
  refine RunChecks.current_at (fun _ => true) [8, 10] (by decide) ⟨?_, ?_, trivial⟩ hmoves rfl happ
  all_goals
    repeat refine And.intro rfl ?_
    trivial

end Akabbo.RosterRaces
