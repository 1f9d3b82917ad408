import Akabbo.CommitOrder
import Akabbo.EventWrites

/-!
# Overlapping edits of a budget line

A call compares the version that its caller has seen with the one it reads, and then writes the row
by its id. Nothing keeps the row from moving between the two statements.
-/
namespace Akabbo.BudgetLineRaces
open Access RowTable StatementProgram ReadCommitted CommitOrder LedgerState LedgerWrites EventWrites
open StatementProgram.Program

/-- A call of `updateItem` on a line of an event. -/
structure LineCall where
  actor : Actor
  role : EventRole
  status : EventStatus
  input : UpdateItemInput
  deriving DecidableEq, Repr

def LineCall.program (e i : ℕ) (c : LineCall) : LedgerProgram BudgetItemView :=
  updateItem ⟨c.actor, ⟨e, c.role, c.status⟩⟩ i c.input

abbrev LineSystem := System RowLock LedgerDb Refusal BudgetItemView

def system (e i : ℕ) (db : LedgerDb) (calls : List LineCall) : LineSystem :=
  System.begin db (calls.map (LineCall.program e i))

def lineRow (e i : ℕ) (db : LedgerDb) : Option BudgetItem := findBudgetItem db e i

/-- The value of the last input that gives the field, or else the initial one. -/
def lastGiven {ι α : Type} (field : ι → Option α) (inputs : List ι) (initial : α) : α :=
  ((inputs.filterMap field).getLast?).getD initial

/-- The inputs of the calls that have succeeded, in the order of their commits. -/
def successes (calls : List LineCall) (order : List (ℕ × BudgetItemView)) : List UpdateItemInput :=
  order.filterMap fun entry => calls[entry.1]?.map LineCall.input

/-- Of the successes that expected one version there is at most one, and it has followed that
version at once; each has raised the version by one, and every field is as the last of them that gave
it wanted it. -/
structure AsEdited (initial : BudgetItem) (inputs : List UpdateItemInput) (line : BudgetItem) :
    Prop where
  once : ∀ v, (inputs.countP fun input => input.expectedVersion == some v) ≤ 1
  follows : ∀ n input v, inputs[n]? = some input → input.expectedVersion = some v →
    v = initial.version + n
  version : line.version = initial.version + inputs.length
  name : line.name = lastGiven (·.name) inputs initial.name
  targetValue : line.targetValue = lastGiven (·.targetValue) inputs initial.targetValue
  isPublic : line.isPublic = lastGiven (·.isPublic) inputs initial.isPublic

/-- After these moves the line is as its successful edits have made it. -/
def EditsKept (e i : ℕ) (db : LedgerDb) (calls : List LineCall) (moves : List Move) : Prop :=
  ∀ initial, lineRow e i db = some initial → ∃ line,
    lineRow e i ((system e i db calls).run moves).committed = some line ∧
      AsEdited initial (successes calls (returned (system e i db calls) moves)) line

/-- The version that a call insists on, and the fields that it does not give, are as it read
them. -/
structure StillAsRead (input : UpdateItemInput) (before now : BudgetItem) : Prop where
  version : input.expectedVersion.isSome → before.version = now.version
  name : input.name = none → before.name = now.name
  targetValue : input.targetValue = none → before.targetValue = now.targetValue

def CommitsAsRead (e i : ℕ) (calls : List LineCall) (sys : LineSystem) (m : Move) : Prop :=
  ∀ t c x r before now, calls[t]? = some c → Applied sys m t x r →
    x.readings.getLast? = some ⟨lineRow e i, some before⟩ → lineRow e i sys.committed = some now →
      StillAsRead c.input before now

theorem apply_id (input : UpdateItemInput) (before item : BudgetItem) :
    (input.apply before item).id = item.id := rfl

/-- It has compared the versions, and writes what it was asked for over the row it read. -/
structure Edits (e i : ℕ) (input : UpdateItemInput) (r : Option BudgetItemView)
    (rs : List (Reading LedgerDb)) (f : LedgerDb → LedgerDb) : Prop where
  returns : r.isSome = true
  write : ∃ before, rs.getLast? = some ⟨lineRow e i, some before⟩ ∧
    (∀ v, input.expectedVersion = some v → v = before.version) ∧ ∀ s,
    (f s).budgetItems = s.budgetItems.update (fun item => item.eventId == e && item.id == i)
      (input.apply before) (apply_id input before)

theorem everyCommit_updateItem (e i : ℕ) (c : LineCall) :
    EveryCommit (fun _ => True) (Edits e i c.input) (c.program e i) false [] id := by
  simp only [LineCall.program, updateItem, gates, bind_assoc]
  refine everyCommit_refuse_bind <| everyCommit_refuse_bind <| everyCommit_query_bind fun _ _ =>
    everyCommit_orThrow_bind fun before hbefore => everyCommit_guard_bind fun hguard =>
    everyCommit_modifyChecked_bind fun _ _ _ _ => everyCommit_modify_bind fun _ _ => ?_
  refine ⟨rfl, before, ?_, fun v hv => ?_, fun _ => rfl⟩
  · rw [← hbefore]
    rfl
  · by_contra hne
    rw [hv, if_pos (by simpa using hne)] at hguard
    cases hguard

section commit
variable {inputs : List UpdateItemInput} {input : UpdateItemInput} {initial before now : BudgetItem}

theorem lastGiven_snoc {ι α : Type} (field : ι → Option α) (inputs : List ι) (input : ι)
    (initial : α) : lastGiven field (inputs ++ [input]) initial =
      (field input).getD (lastGiven field inputs initial) := by
  unfold lastGiven
  rw [List.filterMap_append]
  cases h : field input with
  | none => simp [h]
  | some a => simp [h]

/-- A field that is not given is written back. -/
theorem written_iff {α : Type} {field : UpdateItemInput → Option α} {old new first : α}
    (hnew : new = lastGiven field inputs first) :
    (field input).getD old = lastGiven field (inputs ++ [input]) first ↔
      (field input = none → old = new) := by
  rw [lastGiven_snoc, ← hnew]
  cases field input with
  | none => simp
  | some a => simp

/-- A success that expects the version it finds is the first to expect it. -/
theorem once_snoc (h : AsEdited initial inputs now)
    (hnow : ∀ v, input.expectedVersion = some v → v = now.version) (v : ℕ) :
    ((inputs ++ [input]).countP fun input => input.expectedVersion == some v) ≤ 1 := by
  rw [List.countP_append, List.countP_singleton]
  split_ifs with hv
  · have hnone : inputs.countP (fun input => input.expectedVersion == some v) = 0 := by
      refine List.countP_eq_zero.mpr fun earlier hearlier hsame => ?_
      obtain ⟨n, hn⟩ := List.mem_iff_getElem?.mp hearlier
      have hlength := (List.getElem?_eq_some_iff.mp hn).1
      have hearly := h.follows n earlier v hn (eq_of_beq hsame)
      have hlate := hnow v (eq_of_beq hv)
      rw [h.version] at hlate
      omega
    rw [hnone]
  · exact h.once v

theorem follows_snoc (h : AsEdited initial inputs now)
    (hnow : ∀ v, input.expectedVersion = some v → v = now.version) (n : ℕ) (next : UpdateItemInput)
    (v : ℕ) (hn : (inputs ++ [input])[n]? = some next) (hv : next.expectedVersion = some v) :
    v = initial.version + n := by
  rcases lt_trichotomy n inputs.length with hlt | rfl | hgt
  · rw [List.getElem?_append_left hlt] at hn
    exact h.follows n next v hn hv
  · rw [List.getElem?_concat_length] at hn
    rw [← Option.some.inj hn] at hv
    rw [hnow v hv, h.version]
  · rw [List.getElem?_eq_none (by simpa using hgt)] at hn
    cases hn

theorem asEdited_snoc (h : AsEdited initial inputs now)
    (hchecked : ∀ v, input.expectedVersion = some v → v = before.version) :
    AsEdited initial (inputs ++ [input]) (input.apply before now) ↔ StillAsRead input before now := by
  constructor
  · intro hnext
    refine ⟨fun hgiven => ?_, (written_iff h.name).mp hnext.name,
      (written_iff h.targetValue).mp hnext.targetValue⟩
    obtain ⟨v, hv⟩ := Option.isSome_iff_exists.mp hgiven
    have hfollows := hnext.follows inputs.length input v List.getElem?_concat_length hv
    rw [← hchecked v hv, hfollows, h.version]
  · intro hstill
    have hnow (v : ℕ) (hv : input.expectedVersion = some v) : v = now.version :=
      (hchecked v hv).trans (hstill.version (hv ▸ rfl))
    refine ⟨once_snoc h hnow, follows_snoc h hnow, ?_, (written_iff h.name).mpr hstill.name,
      (written_iff h.targetValue).mpr hstill.targetValue, (written_iff h.isPublic).mpr fun _ => rfl⟩
    change now.version + 1 = _
    rw [h.version, List.length_append, List.length_singleton, Nat.add_assoc]

/-- The row after a write. -/
theorem lineRow_update {e i : ℕ} {s v : LedgerDb}
    (hv : v.budgetItems = s.budgetItems.update (fun item => item.eventId == e && item.id == i)
      (input.apply before) (apply_id input before)) :
    lineRow e i v = (lineRow e i s).map fun item =>
      if item.eventId == e && item.id == i then input.apply before item else item := by
  have hsame : ∀ item ∈ s.budgetItems, (item.eventId == e && item.id == i) = true →
      ((input.apply before item).eventId == e && (input.apply before item).id == i) =
        (item.eventId == e && item.id == i) := fun _ _ _ => rfl
  unfold lineRow findBudgetItem
  rw [hv, Table.find?_update hsame]

theorem lineRow_edited {e i : ℕ} {s v : LedgerDb}
    (hv : v.budgetItems = s.budgetItems.update (fun item => item.eventId == e && item.id == i)
      (input.apply before) (apply_id input before))
    (hnow : lineRow e i s = some now) : lineRow e i v = some (input.apply before now) := by
  rw [lineRow_update hv, hnow, Option.map_some, if_pos (Table.mem_of_find? hnow).2]

end commit

section runs
variable {e i : ℕ} {db : LedgerDb} {calls : List LineCall}

/-- What a commit makes of the line. -/
theorem asEdited_commit {initial now : BudgetItem} {order : List (ℕ × BudgetItemView)}
    {sys : LineSystem} {m : Move} {t : ℕ} {c : LineCall}
    {x : Session RowLock LedgerDb Refusal BudgetItemView} {r : Option BudgetItemView}
    (happ : Applied sys m t x r) (hc : calls[t]? = some c)
    (hedits : Edits e i c.input r x.readings x.pending)
    (hnow : lineRow e i sys.committed = some now)
    (h : AsEdited initial (successes calls order) now) :
    ∃ before line, x.readings.getLast? = some ⟨lineRow e i, some before⟩ ∧
      lineRow e i (x.pending sys.committed) = some line ∧
      (AsEdited initial (successes calls (order ++ (r.map fun r => (t, r)).toList)) line ↔
        StillAsRead c.input before now) := by
  obtain ⟨hreturns, before, hread, hchecked, hwrites⟩ := hedits
  obtain ⟨view, rfl⟩ := Option.isSome_iff_exists.mp hreturns
  refine ⟨before, _, hread, lineRow_edited (hwrites _) hnow, ?_⟩
  have hinputs : successes calls (order ++ [(t, view)]) = successes calls order ++ [c.input] := by
    simp [successes, hc]
  rw [Option.map_some, Option.toList_some, hinputs]
  exact asEdited_snoc h hchecked

/-- The line is there throughout, or never. -/
theorem line_stays (e i : ℕ) (db : LedgerDb) (calls : List LineCall) (moves : List Move) :
    (lineRow e i ((system e i db calls).run moves).committed).isSome = (lineRow e i db).isSome :=
  run_order_invariant (P := fun c => Edits e i c.input)
    (I := fun v _ => (lineRow e i v).isSome = (lineRow e i db).isSome) (C := fun _ _ => True)
    (everyCommit_updateItem e i) rfl
    (fun sys m t x r order c hI _ _ _ hedits => by
      obtain ⟨-, before, -, -, hwrites⟩ := hedits
      rw [lineRow_update (hwrites _), Option.isSome_map]
      exact hI)
    moves fun _ _ _ _ => trivial

/-- The successful edits of a line all show in it, in every state of a run, just if each call
commits with its version, and the fields that it does not give, still as it read them. -/
theorem edits_kept_iff (e i : ℕ) (db : LedgerDb) (calls : List LineCall) (moves : List Move) :
    (∀ before after, moves = before ++ after → EditsKept e i db calls before) ↔
      ∀ before m after, moves = before ++ m :: after →
        CommitsAsRead e i calls ((system e i db calls).run before) m := by
  constructor
  · rintro hkept before m after rfl t c x r row now hc happ hread hnow
    have hthere := line_stays e i db calls before
    rw [hnow] at hthere
    obtain ⟨initial, hinitial⟩ := Option.isSome_iff_exists.mp hthere.symm
    obtain ⟨now', hnow', hbefore⟩ := hkept before (m :: after) rfl initial hinitial
    obtain rfl : now = now' := Option.some.inj (hnow.symm.trans hnow')
    obtain ⟨next, hnext, hafter⟩ := hkept (before ++ [m]) after (by simp) initial hinitial
    obtain ⟨c', hc', hedits⟩ := applied_keeps (everyCommit_updateItem e i) before happ
    obtain rfl : c = c' := Option.some.inj (hc.symm.trans hc')
    obtain ⟨row', line, hread', hline, hiff⟩ := asEdited_commit happ hc hedits hnow hbefore
    obtain rfl : row = row' := by
      rw [hread] at hread'
      simpa using hread'
    have hcommitted : ((system e i db calls).run (before ++ [m])).committed =
        x.pending ((system e i db calls).run before).committed := by
      rw [run_append]
      exact committed_of_applied happ
    rw [hcommitted, hline] at hnext
    rw [returned_snoc, ends_of_applied happ, ← Option.some.inj hnext] at hafter
    exact hiff.mp hafter
  · intro hcond before after hmoves initial hinitial
    refine run_order_invariant (P := fun c => Edits e i c.input) (s := db)
      (I := fun v order => ∃ line, lineRow e i v = some line ∧
        AsEdited initial (successes calls order) line)
      (C := CommitsAsRead e i calls) (everyCommit_updateItem e i)
      ⟨initial, hinitial, fun _ => Nat.zero_le 1, nofun, rfl, rfl, rfl, rfl⟩ ?_ before
      (fun early m late he => hcond early m (late ++ after) (by simp [hmoves, he]))
    rintro sys m t x r order c ⟨now, hnow, hedited⟩ hm happ hc hedits
    obtain ⟨row, line, hread, hline, hiff⟩ := asEdited_commit happ hc hedits hnow hedited
    exact ⟨line, hline, hiff.mpr (hm t c x r row now hc happ hread hnow)⟩

end runs

/-- A line that two organizers have open, at version 1. -/
def planned : LedgerDb :=
  { LedgerDb.empty with
    budgetItems := LedgerDb.empty.budgetItems.insertNew
      { id := 30, eventId := 7, budgetId := 3, name := "Photos", targetValue := 500
        isPublic := true, source := .humanTyped, sourceDocumentId := none, createdById := none
        version := 1, createdAt := 0 } }

/-- One renames the line, the other sets its target. -/
def overlapping : List LineCall :=
  [⟨⟨1, true⟩, .owner, .active, { targetValue := some 900, expectedVersion := some 1 }⟩,
    ⟨⟨2, true⟩, .coOwner, .active, { name := some "Video", expectedVersion := some 1 }⟩]

/-- The first reads the line, the second renames it and commits, the first writes back the name that
it read. -/
def overlap : List Move :=
  [.advance 0] ++ List.replicate 4 (.advance 1) ++ List.replicate 3 (.advance 0)

theorem rename_undone :
    ¬ ∀ (e i : ℕ) (db : LedgerDb) (calls : List LineCall) (moves : List Move),
      EditsKept e i db calls moves := by
  intro h
  obtain ⟨line, hline, hkept⟩ := h 7 30 planned overlapping overlap _ rfl
  have hboth : (successes overlapping (returned (system 7 30 planned overlapping) overlap)).countP
      (fun input => input.expectedVersion == some 1) = 2 := by decide
  have honce := hkept.once 1
  omega

end Akabbo.BudgetLineRaces
