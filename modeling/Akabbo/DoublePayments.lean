import Akabbo.CommitOrder
import Akabbo.LedgerSpecs
import Akabbo.RunChecks

/-!
# Payments submitted twice

Overlapping `recordFulfillment` calls on one pledge, without a key and without a confirmation. The
search for a similar payment is a read before an insert, with no constraint behind it.
-/
namespace Akabbo.DoublePayments
open Access RowTable StatementProgram ReadCommitted CommitOrder LedgerState LedgerWrites LedgerSpecs
open StatementProgram.Program

/-- A payment on a pledge, whose caller was resolved when it came in. -/
structure PaymentCall where
  actor : Actor
  role : EventRole
  status : EventStatus
  value : ℕ
  kind : Option FulfillmentKind := none
  method : Option PaymentMethod := none
  currency : Option String := none
  note : Option String := none
  occurredAt : Option ℕ := none
  source : Option ProvenanceSource := none
  draw : Draw
  deriving DecidableEq, Repr

section calls
variable (e i : ℕ)

def PaymentCall.ctx (c : PaymentCall) : OperationContext := ⟨c.actor, ⟨e, c.role, c.status⟩⟩

def PaymentCall.input (c : PaymentCall) : RecordFulfillmentInput :=
  { pledgeId := i
    value := c.value
    kind := c.kind
    method := c.method
    currency := c.currency
    note := c.note
    occurredAt := c.occurredAt
    source := c.source }

def PaymentCall.program (c : PaymentCall) : LedgerProgram FulfillmentView :=
  recordFulfillment (c.ctx e) (c.input i) c.draw

abbrev PaymentSystem := System RowLock LedgerDb Refusal FulfillmentView

def system (db : LedgerDb) (calls : List PaymentCall) : PaymentSystem :=
  System.begin db (calls.map (PaymentCall.program e i))

/-- The search of `assertNotDuplicate`. -/
def similar (value now : ℕ) (db : LedgerDb) : Option Fulfillment :=
  newest <| db.fulfillments.rows.filter fun f =>
    f.eventId == e && f.pledgeId == i && f.value == value &&
      decide (now ≤ f.createdAt + duplicateWindowMs)

/-- A payment commits only while its search for a similar one still finds what it found. -/
def SearchCurrent (calls : List PaymentCall) (sys : PaymentSystem) (m : Move) : Prop :=
  ∀ t c x r found, calls[t]? = some c → Applied sys m t x r →
    (⟨similar e i c.value c.draw.now, found⟩ : Reading LedgerDb) ∈ x.readings →
      similar e i c.value c.draw.now sys.committed = found

end calls

/-- No two payments beyond the initial ones have one value and lie less than ten minutes apart. -/
def NoTwins (db v : LedgerDb) : Prop :=
  ∀ f ∈ v.fulfillments, ∀ g ∈ v.fulfillments, db.fulfillments.has f.id = false →
    db.fulfillments.has g.id = false → f ≠ g → f.value = g.value →
      f.createdAt + duplicateWindowMs ≤ g.createdAt ∨ g.createdAt + duplicateWindowMs ≤ f.createdAt

/-- It inserts one payment, after a search that found none like it. -/
structure Pays (e i : ℕ) (c : PaymentCall) (rs : List (Reading LedgerDb))
    (f : LedgerDb → LedgerDb) : Prop where
  searched : (⟨similar e i c.value c.draw.now, none⟩ : Reading LedgerDb) ∈ rs
  write : ∃ row : Fulfillment, row.eventId = e ∧ row.pledgeId = i ∧ row.value = c.value ∧
    row.createdAt = c.draw.now ∧ ∀ s, (f s).fulfillments = s.fulfillments.insertNew row

section rules
variable {ρ : Type} {P : Option ρ → List (Reading LedgerDb) → (LedgerDb → LedgerDb) → Prop} {d : Bool}
  {rs : List (Reading LedgerDb)} {g : LedgerDb → LedgerDb} {ctx : OperationContext}
  {next : Unit → LedgerProgram ρ}

theorem everyCommit_assertNotDuplicate_bind {pledgeId value now : ℕ}
    (h : EveryCommit (fun _ => True) P (next ()) d
      (⟨similar ctx.event.eventId pledgeId value now ∘ g, none⟩ :: rs) g) :
    EveryCommit (fun _ => True) P (assertNotDuplicate ctx pledgeId value now >>= next) d rs g := by
  simp only [assertNotDuplicate, bind_assoc]
  refine everyCommit_query_bind fun s _ => everyCommit_guard_bind fun hnone => ?_
  have hsearch : similar ctx.event.eventId pledgeId value now (g s) = none :=
    Option.map_eq_none_iff.mp hnone
  rw [← hsearch] at h
  exact h

theorem everyCommit_assertWithinCommitted_bind {pledgeId committed additional : ℕ}
    {excluded : Option ℕ}
    (h : ∀ reading, EveryCommit (fun _ => True) P (next ()) d (reading :: rs) g) :
    EveryCommit (fun _ => True) P
      (assertWithinCommitted ctx pledgeId committed additional excluded >>= next) d rs g := by
  unfold assertWithinCommitted
  rw [bind_assoc]
  refine everyCommit_query_bind fun s _ => ?_
  dsimp only
  split_ifs with hover
  · trivial
  · exact h _

/-- Between the search and the insert the call only reads. -/
theorem everyCommit_writeFulfillment {e i : ℕ} {c : PaymentCall} {input : WriteFulfillmentInput}
    (hpledge : input.pledgeId = i) (hvalue : input.value = c.value)
    (hsearched : (⟨similar e i c.value c.draw.now, none⟩ : Reading LedgerDb) ∈ rs) :
    EveryCommit (fun _ => True) (fun _ => Pays e i c) (writeFulfillment (c.ctx e) input c.draw) false
      rs id := by
  refine everyCommit_modifyChecked_bind fun _ _ _ _ => everyCommit_query_bind fun _ _ =>
    everyCommit_modifyChecked_bind fun _ _ _ _ => everyCommit_modify_bind fun _ _ =>
    everyCommit_modifyChecked_bind fun _ _ _ _ => ?_
  refine ⟨?_, newFulfillment (c.ctx e) input c.draw, rfl, hpledge, hvalue, rfl, fun _ => rfl⟩
  exact .tail _ <| .tail _ <| .tail _ <| .tail _ <| .tail _ hsearched

end rules

theorem everyCommit_program (e i : ℕ) (c : PaymentCall) :
    EveryCommit (fun _ => True) (fun _ => Pays e i c) (c.program e i) false [] id := by
  simp only [PaymentCall.program, recordFulfillment, gates, bind_assoc]
  refine everyCommit_refuse_bind <| everyCommit_refuse_bind <| everyCommit_refuse_bind ?_
  change EveryCommit _ _ (payPledge (c.ctx e) (c.input i) c.draw) _ _ _
  refine everyCommit_query_bind fun _ _ => everyCommit_orThrow_bind fun pledge _ =>
    everyCommit_refuse_bind ?_
  change EveryCommit _ _ (assertNotDuplicate (c.ctx e) i c.value c.draw.now >>= _) _ _ _
  refine everyCommit_assertNotDuplicate_bind <| everyCommit_assertWithinCommitted_bind
    fun _ => everyCommit_writeFulfillment rfl rfl ?_
  exact .tail _ <| .head _

section runs
variable {e i : ℕ} {db v v' : LedgerDb}

/-- What has been inserted belongs to the pledge and has no twin. -/
structure Apart (e i : ℕ) (db v : LedgerDb) : Prop where
  place : ∀ f ∈ v.fulfillments, db.fulfillments.has f.id = false → f.eventId = e ∧ f.pledgeId = i
  noTwins : NoTwins db v

/-- A search that finds nothing: every payment of the value is older than the window. -/
theorem older_of_similar {value now : ℕ} (h : similar e i value now v = none) {f : Fulfillment}
    (hf : f ∈ v.fulfillments) (he : f.eventId = e) (hi : f.pledgeId = i) (hvalue : f.value = value) :
    f.createdAt + duplicateWindowMs < now := by
  have hnone := List.filter_eq_nil_iff.mp (newest_eq_none.mp h) f hf
  simp only [he, hi, hvalue, beq_self_eq_true, Bool.true_and, decide_eq_true_eq] at hnone
  omega

theorem apart_pays (h : Apart e i db v) {value now : ℕ} (hsearch : similar e i value now v = none)
    {row : Fulfillment} (he : row.eventId = e) (hi : row.pledgeId = i) (hvalue : row.value = value)
    (hnow : row.createdAt = now) (hrows : v'.fulfillments = v.fulfillments.insertNew row) :
    Apart e i db v' := by
  have hcases {f : Fulfillment} (hf : f ∈ v'.fulfillments) : f ∈ v.fulfillments ∨ f = row := by
    rw [hrows] at hf
    exact Table.mem_insertNew_cases hf
  have hold {f : Fulfillment} (hf : f ∈ v.fulfillments) (hnew : db.fulfillments.has f.id = false)
      (hsame : f.value = value) : f.createdAt + duplicateWindowMs < now := by
    obtain ⟨hfe, hfi⟩ := h.place f hf hnew
    exact older_of_similar hsearch hf hfe hfi hsame
  constructor
  · intro f hf hnew
    rcases hcases hf with hf | rfl
    · exact h.place f hf hnew
    · exact ⟨he, hi⟩
  · intro f hf g hg hfnew hgnew hne hsame
    rcases hcases hf with hf | rfl
    · rcases hcases hg with hg | rfl
      · exact h.noTwins f hf g hg hfnew hgnew hne hsame
      · have hlate := hold hf hfnew (hsame.trans hvalue)
        exact .inl (by omega)
    · rcases hcases hg with hg | rfl
      · have hlate := hold hg hgnew (hsame.symm.trans hvalue)
        exact .inr (by omega)
      · exact absurd rfl hne

/-- Overlapping payments leave no twins as long as each commits while its search for a similar
payment still finds what it found. -/
theorem current_searches_leave_no_twins (e i : ℕ) (db : LedgerDb) (calls : List PaymentCall)
    (moves : List Move)
    (hcond : ∀ before m after, moves = before ++ m :: after →
      SearchCurrent e i calls ((system e i db calls).run before) m) :
    NoTwins db ((system e i db calls).run moves).committed := by
  have hinitial {f : Fulfillment} (hf : f ∈ db.fulfillments) :
      ¬ db.fulfillments.has f.id = false := by
    rw [Table.has_iff.mpr ⟨f, hf, rfl⟩]
    exact Bool.noConfusion
  have hrun : Apart e i db ((system e i db calls).run moves).committed := by
    refine run_order_invariant (P := fun c _ => Pays e i c) (I := fun v _ => Apart e i db v)
      (C := SearchCurrent e i calls) (everyCommit_program e i) ?_ ?_ moves hcond
    · exact ⟨fun f hf hnew => absurd hnew (hinitial hf),
        fun f hf _ _ hnew => absurd hnew (hinitial hf)⟩
    · rintro sys m t x r - c h hm happ hc ⟨hsearched, row, he, hi, hvalue, hnow, hrows⟩
      exact apart_pays h (hm t c x r none hc happ hsearched) he hi hvalue hnow (hrows _)
  exact hrun.noTwins

end runs

/-- A pledge of 100 with nothing paid on it. -/
def pledged : LedgerDb :=
  { LedgerDb.empty with
    persons := Table.empty.insertNew ⟨10, 7, "Guest", none, none, .humanTyped, some 1, 0⟩
    pledges := Table.empty.insertNew ⟨20, 7, 10, .cash, 100, .pledged, none, none, none, none, none,
      false, .humanTyped, some 1, 0⟩ }

def tap (id : ℕ) : PaymentCall :=
  { actor := ⟨1, true⟩, role := .owner, status := .active, value := 40, draw := ⟨0, 0, id, 1000⟩ }

/-- Both search before either inserts. -/
def doubleTap : List Move :=
  List.replicate 3 (.advance 0) ++ List.replicate 3 (.advance 1) ++
    List.replicate 7 (.advance 0) ++ List.replicate 7 (.advance 1)

set_option maxRecDepth 4000 in
theorem double_tap_pays_twice :
    ¬ ∀ (e i : ℕ) (db : LedgerDb) (calls : List PaymentCall) (moves : List Move),
      NoTwins db ((system e i db calls).run moves).committed := by
  intro h
  have hpaid : ∃ f ∈ ((system 7 20 pledged [tap 30, tap 31]).run doubleTap).committed.fulfillments.rows,
      ∃ g ∈ ((system 7 20 pledged [tap 30, tap 31]).run doubleTap).committed.fulfillments.rows,
        f ≠ g ∧ f.value = g.value ∧ f.createdAt = g.createdAt := by decide
  obtain ⟨f, hf, g, hg, hne, hvalue, hcreated⟩ := hpaid
  have hapart := h 7 20 pledged [tap 30, tap 31] doubleTap f hf g hg rfl rfl hne hvalue
  simp only [duplicateWindowMs] at hapart
  omega

/-- Two taps of 60 overlap, a third comes after them, and another payment of 40 overlaps with it. -/
def fourTaps : List PaymentCall :=
  [{ tap 30 with value := 60 }, { tap 31 with value := 60 }, { tap 32 with value := 60 }, tap 33]

/-- The second tap no longer fits within the pledge, and the third finds the first. -/
def firstTapInTime : List Move :=
  [0, 0, 1, 1, 0, 0, 0, 0, 0, 0, 0, 2, 3, 1, 1, 3, 2, 2, 3, 3, 3, 3, 3, 3].map .advance

set_option maxRecDepth 8000 in
theorem current_searches_leave_no_twins_fourTaps :
    NoTwins pledged ((system 7 20 pledged fourTaps).run firstTapInTime).committed := by
  refine current_searches_leave_no_twins 7 20 pledged fourTaps firstTapInTime ?_
  intro before m after hmoves t c x r found _ happ hread
  refine RunChecks.current_at (fun _ => true) [10, 23] (by decide) ⟨?_, ?_, trivial⟩ hmoves rfl happ
    _ hread
  all_goals
    repeat refine And.intro rfl ?_
    trivial

end Akabbo.DoublePayments
