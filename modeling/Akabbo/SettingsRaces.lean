import Akabbo.CommitOrder
import Akabbo.EventWrites

/-!
# Overlapping updates of the public settings

Each call reads all six settings and writes all six back. A setting that a call does not mention is
written back as the call's first statement read it.
-/
namespace Akabbo.SettingsRaces
open Access RowTable StatementProgram ReadCommitted CommitOrder LedgerState LedgerWrites EventWrites
open StatementProgram.Program

/-- A call of `updateSettings` on an event. -/
structure SettingsCall where
  actor : Actor
  role : EventRole
  status : EventStatus
  input : UpdatePublicSettingsInput
  deriving DecidableEq, Repr

def SettingsCall.program (e : ℕ) (c : SettingsCall) : LedgerProgram PublicSettingsView :=
  updateSettings ⟨c.actor, ⟨e, c.role, c.status⟩⟩ c.input

abbrev SettingsSystem := System RowLock LedgerDb Refusal PublicSettingsView

def system (e : ℕ) (db : LedgerDb) (calls : List SettingsCall) : SettingsSystem :=
  System.begin db (calls.map (SettingsCall.program e))

/-- The value of the last call that mentioned the field, or else the initial one. -/
def lastMention {α : Type} (field : UpdatePublicSettingsInput → Option α)
    (inputs : List UpdatePublicSettingsInput) (initial : α) : α :=
  ((inputs.filterMap field).getLast?).getD initial

/-- Every setting is as the last of these calls that mentioned it wanted it. -/
structure AsMentioned (initial : Event) (inputs : List UpdatePublicSettingsInput) (event : Event) :
    Prop where
  isPublic : event.isPublic = lastMention (·.isPublic) inputs initial.isPublic
  contributorVisibility : event.contributorVisibility =
    lastMention (·.contributorVisibility) inputs initial.contributorVisibility
  budgetVisibility : event.budgetVisibility =
    lastMention (·.budgetVisibility) inputs initial.budgetVisibility
  showTarget : event.showTarget = lastMention (·.showTarget) inputs initial.showTarget
  showOutstanding : event.showOutstanding =
    lastMention (·.showOutstanding) inputs initial.showOutstanding
  description : event.description = lastMention (·.description) inputs initial.description

/-- The inputs of these calls, in their order. -/
def inputsOf (calls : List SettingsCall) (order : List (ℕ × PublicSettingsView)) :
    List UpdatePublicSettingsInput :=
  order.filterMap fun entry => calls[entry.1]?.map SettingsCall.input

/-- After these moves every setting of the event is as its last committed mention. -/
def SettingsKept (e : ℕ) (db : LedgerDb) (calls : List SettingsCall) (moves : List Move) : Prop :=
  ∀ initial, db.events.get? e = some initial → ∃ event,
    ((system e db calls).run moves).committed.events.get? e = some event ∧
      AsMentioned initial (inputsOf calls (returned (system e db calls) moves)) event

/-- The settings that the call does not mention are still as they were. -/
structure Unmentioned (input : UpdatePublicSettingsInput) (before now : Event) : Prop where
  isPublic : input.isPublic = none → before.isPublic = now.isPublic
  contributorVisibility : input.contributorVisibility = none →
    before.contributorVisibility = now.contributorVisibility
  budgetVisibility : input.budgetVisibility = none → before.budgetVisibility = now.budgetVisibility
  showTarget : input.showTarget = none → before.showTarget = now.showTarget
  showOutstanding : input.showOutstanding = none → before.showOutstanding = now.showOutstanding
  description : input.description = none → before.description = now.description

def eventRow (e : ℕ) (db : LedgerDb) : Option Event := db.events.get? e

/-- A call commits only while the settings it does not mention are as its first statement read
them. -/
def CommitsUnmentioned (e : ℕ) (calls : List SettingsCall) (sys : SettingsSystem) (m : Move) :
    Prop :=
  ∀ t c x r before now, calls[t]? = some c → Applied sys m t x r →
    x.readings.getLast? = some ⟨eventRow e, some before⟩ → sys.committed.events.get? e = some now →
      Unmentioned c.input before now

theorem apply_id (input : UpdatePublicSettingsInput) (before event : Event) :
    (input.apply before event).id = event.id := rfl

/-- It writes what it was asked for, over the settings it read. -/
structure Overwrites (e : ℕ) (input : UpdatePublicSettingsInput) (r : Option PublicSettingsView)
    (rs : List (Reading LedgerDb)) (f : LedgerDb → LedgerDb) : Prop where
  returns : r.isSome = true
  write : ∃ before, rs.getLast? = some ⟨eventRow e, some before⟩ ∧ ∀ s,
    (f s).events = s.events.update (fun event => event.id == e) (input.apply before)
      (apply_id input before)

theorem everyCommit_updateSettings (e : ℕ) (c : SettingsCall) :
    EveryCommit (fun _ => True) (Overwrites e c.input) (c.program e) false [] id := by
  refine everyCommit_refuse_bind <| everyCommit_query_bind fun _ _ =>
    everyCommit_orThrow_bind fun before hbefore => everyCommit_modifyChecked_bind fun _ _ _ _ =>
      everyCommit_modify_bind fun _ _ => ?_
  refine ⟨rfl, before, ?_, fun _ => rfl⟩
  rw [← hbefore]
  rfl

section commit
variable {α : Type} {field : UpdatePublicSettingsInput → Option α}
  {inputs : List UpdatePublicSettingsInput} {input : UpdatePublicSettingsInput}

theorem lastMention_snoc (field : UpdatePublicSettingsInput → Option α)
    (inputs : List UpdatePublicSettingsInput) (input : UpdatePublicSettingsInput) (initial : α) :
    lastMention field (inputs ++ [input]) initial =
      (field input).getD (lastMention field inputs initial) := by
  unfold lastMention
  rw [List.filterMap_append]
  cases h : field input with
  | none => simp [h]
  | some a => simp [h]

/-- One setting that is written back. -/
theorem written_iff {before now initial : α} (hnow : now = lastMention field inputs initial) :
    (field input).getD before = lastMention field (inputs ++ [input]) initial ↔
      (field input = none → before = now) := by
  rw [lastMention_snoc, ← hnow]
  cases field input with
  | none => simp
  | some a => simp

theorem asMentioned_snoc {initial before now : Event} (h : AsMentioned initial inputs now) :
    AsMentioned initial (inputs ++ [input]) (input.apply before now) ↔
      Unmentioned input before now := by
  constructor
  · intro hnext
    exact ⟨(written_iff h.isPublic).mp hnext.isPublic,
      (written_iff h.contributorVisibility).mp hnext.contributorVisibility,
      (written_iff h.budgetVisibility).mp hnext.budgetVisibility,
      (written_iff h.showTarget).mp hnext.showTarget,
      (written_iff h.showOutstanding).mp hnext.showOutstanding,
      (written_iff h.description).mp hnext.description⟩
  · intro hsame
    exact ⟨(written_iff h.isPublic).mpr hsame.isPublic,
      (written_iff h.contributorVisibility).mpr hsame.contributorVisibility,
      (written_iff h.budgetVisibility).mpr hsame.budgetVisibility,
      (written_iff h.showTarget).mpr hsame.showTarget,
      (written_iff h.showOutstanding).mpr hsame.showOutstanding,
      (written_iff h.description).mpr hsame.description⟩

end commit

section runs
variable {e : ℕ} {db : LedgerDb} {calls : List SettingsCall}

/-- The row after a commit. -/
theorem get?_overwritten {before now : Event} {input : UpdatePublicSettingsInput} {s v : LedgerDb}
    (hv : v.events = s.events.update (fun event => event.id == e) (input.apply before)
      (apply_id input before))
    (hnow : s.events.get? e = some now) : v.events.get? e = some (input.apply before now) := by
  have hkey := Table.get?_key hnow
  rw [hv, Table.get?_update, hnow]
  simp [hkey]

/-- What a commit makes of the settings. -/
theorem asMentioned_commit {initial now : Event} {order : List (ℕ × PublicSettingsView)}
    {sys : SettingsSystem} {m : Move} {t : ℕ} {c : SettingsCall}
    {x : Session RowLock LedgerDb Refusal PublicSettingsView} {r : Option PublicSettingsView}
    (happ : Applied sys m t x r) (hc : calls[t]? = some c)
    (hwrites : Overwrites e c.input r x.readings x.pending)
    (hnow : sys.committed.events.get? e = some now)
    (h : AsMentioned initial (inputsOf calls order) now) :
    ∃ before event, x.readings.getLast? = some ⟨eventRow e, some before⟩ ∧
      (x.pending sys.committed).events.get? e = some event ∧
      (AsMentioned initial (inputsOf calls (order ++ (r.map fun r => (t, r)).toList)) event ↔
        Unmentioned c.input before now) := by
  obtain ⟨hreturns, before, hread, hevents⟩ := hwrites
  obtain ⟨view, rfl⟩ := Option.isSome_iff_exists.mp hreturns
  refine ⟨before, _, hread, get?_overwritten (hevents _) hnow, ?_⟩
  have hinputs : inputsOf calls (order ++ [(t, view)]) = inputsOf calls order ++ [c.input] := by
    simp [inputsOf, hc]
  rw [Option.map_some, Option.toList_some, hinputs]
  exact asMentioned_snoc h

/-- The event is there throughout, or never. -/
theorem event_stays (e : ℕ) (db : LedgerDb) (calls : List SettingsCall) (moves : List Move) :
    (((system e db calls).run moves).committed.events.get? e).isSome =
      (db.events.get? e).isSome :=
  run_order_invariant (P := fun c => Overwrites e c.input)
    (I := fun v _ => (v.events.get? e).isSome = (db.events.get? e).isSome) (C := fun _ _ => True)
    (everyCommit_updateSettings e) rfl
    (fun sys m t x r order c hI _ _ _ hwrites => by
      obtain ⟨-, before, -, hevents⟩ := hwrites
      rw [hevents, Table.get?_update, Option.isSome_map]
      exact hI)
    moves fun _ _ _ _ => trivial

/-- Overlapping updates leave every setting as its last committed mention, in every state of a run,
just if each commits while the settings it does not mention are as it read them. -/
theorem settings_kept_iff (e : ℕ) (db : LedgerDb) (calls : List SettingsCall) (moves : List Move) :
    (∀ before after, moves = before ++ after → SettingsKept e db calls before) ↔
      ∀ before m after, moves = before ++ m :: after →
        CommitsUnmentioned e calls ((system e db calls).run before) m := by
  constructor
  · rintro hkept before m after rfl t c x r row now hc happ hread hnow
    have hthere := event_stays e db calls before
    rw [hnow] at hthere
    obtain ⟨initial, hinitial⟩ := Option.isSome_iff_exists.mp hthere.symm
    obtain ⟨now', hnow', hbefore⟩ := hkept before (m :: after) rfl initial hinitial
    obtain rfl : now = now' := Option.some.inj (hnow.symm.trans hnow')
    obtain ⟨next, hnext, hafter⟩ := hkept (before ++ [m]) after (by simp) initial hinitial
    obtain ⟨c', hc', hwrites⟩ := applied_keeps (everyCommit_updateSettings e) before happ
    obtain rfl : c = c' := Option.some.inj (hc.symm.trans hc')
    obtain ⟨row', event, hread', hevent, hiff⟩ := asMentioned_commit happ hc hwrites hnow hbefore
    obtain rfl : row = row' := by
      rw [hread] at hread'
      simpa using hread'
    have hcommitted : ((system e db calls).run (before ++ [m])).committed =
        x.pending ((system e db calls).run before).committed := by
      rw [run_append]
      exact committed_of_applied happ
    rw [hcommitted, hevent] at hnext
    rw [returned_snoc, ends_of_applied happ, ← Option.some.inj hnext] at hafter
    exact hiff.mp hafter
  · intro hcond before after hmoves initial hinitial
    have hrun := run_order_invariant (P := fun c => Overwrites e c.input) (s := db)
      (I := fun v order => ∃ event, v.events.get? e = some event ∧
        AsMentioned initial (inputsOf calls order) event)
      (C := CommitsUnmentioned e calls) (everyCommit_updateSettings e)
      ⟨initial, hinitial, by constructor <;> rfl⟩ ?_ before
      (fun early m late he => hcond early m (late ++ after) (by simp [hmoves, he]))
    · exact hrun
    · rintro sys m t x r order c ⟨now, hnow, hmentioned⟩ hm happ hc hwrites
      obtain ⟨row, event, hread, hevent, hiff⟩ := asMentioned_commit happ hc hwrites hnow hmentioned
      exact ⟨event, hevent, hiff.mpr (hm t c x r row now hc happ hread hnow)⟩

end runs

def shared : LedgerDb :=
  { LedgerDb.empty with
    events := Table.empty.insertNew
      { id := 7, ownerUserId := 1, slug := "wedding", name := "Wedding", createdAt := 0 } }

/-- One owner hides the target while another revokes the link. -/
def overlapping : List SettingsCall :=
  [⟨⟨1, true⟩, .owner, .active, { showTarget := some false }⟩,
    ⟨⟨2, true⟩, .coOwner, .active, { isPublic := some false }⟩]

/-- The first reads the row, the second revokes and commits, the first writes back what it read. -/
def overlap : List Move :=
  [.advance 0] ++ List.replicate 4 (.advance 1) ++ List.replicate 3 (.advance 0)

theorem revocation_undone :
    ¬ ∀ (e : ℕ) (db : LedgerDb) (calls : List SettingsCall) (moves : List Move),
      SettingsKept e db calls moves := by
  intro h
  obtain ⟨event, hevent, hkept⟩ := h 7 shared overlapping overlap _ rfl
  have hopen : (((system 7 shared overlapping).run overlap).committed.events.get? 7).map
      Event.isPublic = some true := by decide
  have hrevoked : lastMention (·.isPublic)
      (inputsOf overlapping (returned (system 7 shared overlapping) overlap)) true = false := by
    decide
  have hpublic := hkept.isPublic
  rw [hevent] at hopen
  rw [Option.some.inj hopen] at hpublic
  exact Bool.false_ne_true (hrevoked.symm.trans hpublic.symm)

end Akabbo.SettingsRaces
