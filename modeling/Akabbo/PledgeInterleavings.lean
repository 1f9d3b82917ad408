import Akabbo.LedgerRuns
import Akabbo.RunChecks

/-!
# Overlapping ledger calls

Any number of ledger transactions, statement by statement at READ COMMITTED, on a
ledger that earlier calls left behind. Nothing is locked between a call's reads and its
commit, so a status written from an old read can stay behind; a call that commits while
its reads still hold takes its place in a serial order.
-/
namespace Akabbo.PledgeInterleavings
open Access PledgeStatus RowTable StatementProgram ReadCommitted LedgerState LedgerWrites
open PledgeBook LedgerEffects LedgerSpecs LedgerStatements LedgerRuns StatementProgram.Program

structure Request where
  ctx : OperationContext
  draw : Draw
  call : LedgerCall
  deriving DecidableEq, Repr

def Request.program (c : Request) : LedgerProgram LedgerResult := c.call.program c.ctx c.draw

abbrev LedgerSystem := System RowLock LedgerDb Refusal LedgerResult

def system (db : LedgerDb) (calls : List Request) : LedgerSystem :=
  System.begin db (calls.map Request.program)

/-- Some pledge `i` has more received than committed. -/
def Exceeds (db : LedgerDb) (i : ℕ) : Prop :=
  ∃ p ∈ db.pledges, p.id = i ∧ p.committedValue < paid db i

/-- Every stored status is the derived one. -/
def StatusDerived (db : LedgerDb) : Prop :=
  ∀ p ∈ db.pledges,
    p.status = deriveStatus p.committedValue (paid db p.id) (p.status == .cancelled)

/-- No move but the commit of a lowered commitment takes a pledge beyond it: payments that
fit do not exceed it together. -/
def PaymentsFit (db : LedgerDb) (calls : List Request) (moves : List Move) : Prop :=
  ∀ before m after, moves = before ++ m :: after → ∀ i,
    Exceeds ((system db calls).run (before ++ [m])).committed i →
      Exceeds ((system db calls).run before).committed i ∨
        ∃ t c x, m = .advance t ∧ calls[t]? = some c ∧ c.call = .correctCommittedValue i x

/-- The pledge of a `cancelPledge` that committed is cancelled. -/
def CancelsStay (db : LedgerDb) (calls : List Request) (moves : List Move) : Prop :=
  ∀ (t : ℕ) (c : Request) (i : ℕ) (r : LedgerResult), calls[t]? = some c →
    c.call = .cancelPledge i →
    ((system db calls).run moves).slots[t]? = some (.finished (some (.ok r))) →
    (∃ p ∈ db.pledges, p.id = i ∧ p.eventId = c.ctx.event.eventId) →
      ∃ p ∈ ((system db calls).run moves).committed.pledges, p.id = i ∧ p.status = .cancelled

/-- A call other than a cancellation commits only while all it has read still reads the
same. -/
def CommitsCurrent (calls : List Request) (sys : LedgerSystem) (m : Move) : Prop :=
  ∀ (t : ℕ) (c : Request) x r, calls[t]? = some c → (∀ i, c.call ≠ .cancelPledge i) → Commits sys m t x r →
    x.Current sys.committed

/-- What a cancellation is about to apply, whatever it read. -/
def Cancels (ctx : OperationContext) (i : ℕ) (f : LedgerDb → LedgerDb) : Prop :=
  ∃ row, ∀ s, f s = (s.setPledgeStatus ctx.event.eventId i .cancelled).appendAudit row

theorem everyCommit_cancelPledge (ctx : OperationContext) (draw : Draw) (i : ℕ) :
    EveryCommit (fun _ => True) (fun _ _ f => Cancels ctx i f)
      ((LedgerCall.cancelPledge i).program ctx draw) false [] id := by
  simp only [LedgerCall.program, LedgerWrites.cancelPledge, gates, map_eq_pure_bind, bind_assoc]
  refine everyCommit_refuse_bind (everyCommit_refuse_bind (everyCommit_query_bind fun _ _ =>
    everyCommit_orThrow_bind fun current _ => everyCommit_modifyChecked_bind fun _ _ _ _ =>
    everyCommit_modify_bind fun _ _ => ?_))
  exact ⟨_, fun s => rfl⟩

theorem evolves_setCancelled (db : LedgerDb) (e i : ℕ) :
    ∃ es, Evolves db es (db.setPledgeStatus e i .cancelled) ∧ ∀ j x, Entry.recommitted j x ∉ es := by
  cases h : db.findPledge e i with
  | some p => exact ⟨_, evolves_cancel h, by simp⟩
  | none =>
    refine ⟨[], evolves_same ?_ rfl fun _ _ q hq _ => ⟨q, hq, rfl, rfl⟩, by simp⟩
    simp only [LedgerDb.setPledgeStatus, LedgerDb.updatePledge]
    exact Table.update_eq_self (Table.find?_eq_none.mp h)

/-- What holds along a run: the committed rows are sound, the open calls run as their
programs, and a committed cancellation still shows. -/
structure Kept (db : LedgerDb) (calls : List Request) (sys : LedgerSystem) : Prop where
  sound : Sound sys.committed
  retains : Retains db sys.committed
  running : ∀ (t : ℕ) x, sys.slots[t]? = some (.running x) → ∃ c, calls[t]? = some c ∧
    x.Whole c.program ∧
    ∀ i, c.call = .cancelPledge i → x.Keeps (fun _ => True) (fun _ _ f => Cancels c.ctx i f)
  cancelled : ∀ (t : ℕ) (c : Request) (i : ℕ) (r : LedgerResult), calls[t]? = some c →
    c.call = .cancelPledge i → sys.slots[t]? = some (.finished (some (.ok r))) →
    (∃ p ∈ db.pledges, p.id = i ∧ p.eventId = c.ctx.event.eventId) →
      ∃ p ∈ sys.committed.pledges, p.id = i ∧ p.status = .cancelled

section step
variable {db : LedgerDb} {calls : List Request} {sys : LedgerSystem} {m : Move}

/-- A commit does to the rows what the call run alone from there would do. -/
theorem commit_evolves (h : Kept db calls sys) (hm : CommitsCurrent calls sys m) {t : ℕ}
    {c : Request} {x : Session RowLock LedgerDb Refusal LedgerResult} {r : LedgerResult}
    (hc : Commits sys m t x r) (ht : calls[t]? = some c) :
    ∃ es, Evolves sys.committed es (x.pending sys.committed) ∧
      ∀ i v, Entry.recommitted i v ∈ es →
        c.call = .correctCommittedValue i v ∧ es = [.recommitted i v] := by
  obtain ⟨c', ht', hw, hkeeps⟩ := h.running t x hc.slot
  obtain rfl : c = c' := Option.some.inj (ht.symm.trans ht')
  by_cases hcancel : ∃ i, c.call = .cancelPledge i
  · obtain ⟨i, hi⟩ := hcancel
    obtain ⟨row, hrow⟩ := keeps_return (hkeeps i hi) hc.rest
    rw [hrow]
    obtain ⟨es, hev, hes⟩ := evolves_setCancelled sys.committed c.ctx.event.eventId i
    refine ⟨es ++ [], evolves_trans hev fun _ => evolves_appendAudit _ row, fun j v hjv => ?_⟩
    exact absurd (by simpa using hjv) (hes j v)
  · push Not at hcancel
    have hexec := faithful_finish hw.faithful hc.rest (hm t c x r ht hcancel hc)
    rw [hw.start] at hexec
    exact exec_program hexec

theorem kept_step (h : Kept db calls sys) (hm : CommitsCurrent calls sys m) :
    Kept db calls (sys.step m) := by
  have hrun : ∀ (t : ℕ) x, (sys.step m).slots[t]? = some (.running x) → ∃ c, calls[t]? = some c ∧
      x.Whole c.program ∧ ∀ i, c.call = .cancelPledge i →
        x.Keeps (fun _ => True) (fun _ _ f => Cancels c.ctx i f) := by
    refine step_running m h.running fun t x x' _ hx hadv => ?_
    obtain ⟨c, ht, hw, hkeeps⟩ := hx
    exact ⟨c, ht, whole_advance hw hadv, fun i hi => keeps_advance (hkeeps i hi) trivial hadv⟩
  have hfree (t : ℕ) x (hx : sys.slots[t]? = some (.running x)) : x.rest.CommitFree :=
    (h.running t x hx).choose_spec.2.1.commitFree
  rcases step_commits hfree m with ⟨hsame, hslots⟩ | ⟨t, x, r, hc, he⟩
  · refine ⟨hsame ▸ h.sound, hsame ▸ h.retains, hrun, fun t c i r ht hi hfin hp => ?_⟩
    rw [hsame]
    exact h.cancelled t c i r ht hi (hslots t r hfin) hp
  · obtain ⟨c, ht, -, hkeeps⟩ := h.running t x hc.slot
    obtain ⟨es, hev, -⟩ := commit_evolves h hm hc ht
    have hch := hev h.sound
    have hcommitted : (sys.step m).committed = x.pending sys.committed := by rw [he]
    refine ⟨hcommitted ▸ hch.sound, hcommitted ▸ retains_trans h.retains hch.retains, hrun, ?_⟩
    intro u d i r' hu hi hfin hp
    rw [hcommitted]
    by_cases htu : t = u
    · -- the cancellation that commits now
      subst htu
      obtain rfl : c = d := Option.some.inj (ht.symm.trans hu)
      obtain ⟨row, hrow⟩ := keeps_return (hkeeps i hi) hc.rest
      obtain ⟨p, hpm, rfl, hpe⟩ := hp
      obtain ⟨q, hq, hqi, hqe⟩ := h.retains p hpm
      have hfind : sys.committed.findPledge c.ctx.event.eventId p.id = some q := by
        rw [← hqi, ← hpe, ← hqe]
        exact findPledge_of_mem hq
      have hget := @get?_updatePledge _ _ _ _ hfind (fun p => { p with status := .cancelled })
        (fun _ => rfl) p.id
      rw [if_pos rfl] at hget
      rw [hrow]
      exact ⟨_, Table.get?_mem hget, hqi, rfl⟩
    · have hold : sys.slots[u]? = some (.finished (some (.ok r'))) := by
        rw [he, List.getElem?_set_ne htu] at hfin
        exact hfin
      obtain ⟨p, hpm, rfl, hpc⟩ := h.cancelled u d i r' hu hi hold hp
      obtain ⟨a, ha, hkeep⟩ := postsAll_keeps hch.posts (book_of_mem hpm)
      obtain ⟨q, hq, hqi, rfl⟩ := book_eq_some.mp ha
      exact ⟨q, hq, hqi, status_eq_cancelled.mpr (hkeep (status_eq_cancelled.mp hpc))⟩

/-- Which moves can take a pledge beyond its commitment. -/
theorem exceeds_step (h : Kept db calls sys) (hm : CommitsCurrent calls sys m) {i : ℕ}
    (hi : Exceeds (sys.step m).committed i) :
    Exceeds sys.committed i ∨
      ∃ t c x, m = .advance t ∧ calls[t]? = some c ∧ c.call = .correctCommittedValue i x := by
  have hfree (t : ℕ) x (hx : sys.slots[t]? = some (.running x)) : x.rest.CommitFree :=
    (h.running t x hx).choose_spec.2.1.commitFree
  rcases step_commits hfree m with ⟨hsame, -⟩ | ⟨t, x, r, hc, he⟩
  · exact .inl (hsame ▸ hi)
  · obtain ⟨c, ht, -, -⟩ := h.running t x hc.slot
    obtain ⟨es, hev, hes⟩ := commit_evolves h hm hc ht
    rw [he] at hi
    by_cases hset : ∃ v, Entry.recommitted i v ∈ es
    · obtain ⟨v, hv⟩ := hset
      exact .inr ⟨t, c, v, hc.move, ht, (hes i v hv).1⟩
    · push Not at hset
      obtain ⟨p, hp, rfl, ho⟩ := hi
      obtain ⟨a, ha, hr, hcm⟩ := postsAll_overfulfilled (hev h.sound).posts hset (book_of_mem hp) ho
      obtain ⟨q, hq, hqi, rfl⟩ := book_eq_some.mp ha
      refine .inl ⟨q, hq, hqi, ?_⟩
      simp only [account] at hr hcm
      rw [hcm, ← hqi, hr]
      exact ho

end step

theorem kept_begin {db : LedgerDb} (hs : Sound db) (calls : List Request) :
    Kept db calls (system db calls) where
  sound := hs
  retains := retains_refl db
  running t x hx := by
    obtain ⟨p, hp, rfl⟩ := running_begin hx
    simp only [List.getElem?_map, Option.map_eq_some_iff] at hp
    obtain ⟨c, ht, rfl⟩ := hp
    refine ⟨c, ht, whole_begin (commitFree_program c.ctx c.draw c.call), fun i hi => ?_⟩
    have := everyCommit_cancelPledge c.ctx c.draw i
    rw [← hi] at this
    exact this
  cancelled t c i r _ _ hfin _ := by
    simp [system, System.begin] at hfin

theorem kept_run {db : LedgerDb} (hs : Sound db) {calls : List Request} {moves : List Move}
    (hcond : ∀ before m after, moves = before ++ m :: after →
      CommitsCurrent calls ((system db calls).run before) m) :
    Kept db calls ((system db calls).run moves) :=
  run_invariant (C := CommitsCurrent calls) (fun _ _ h hm => kept_step h hm) (kept_begin hs calls)
    moves hcond

/-- Overlapping calls keep every pledge right as long as each payment and each correction
commits while all it has read still reads the same. -/
theorem current_commits_keep_pledges (db : LedgerDb) (history : List Invocation)
    (calls : List Request) (moves : List Move)
    (hcond : ∀ before m after, moves = before ++ m :: after →
      CommitsCurrent calls ((system (ledgerRun (unpledged db) history) calls).run before) m) :
    StatusDerived ((system (ledgerRun (unpledged db) history) calls).run moves).committed ∧
    PaymentsFit (ledgerRun (unpledged db) history) calls moves ∧
    CancelsStay (ledgerRun (unpledged db) history) calls moves := by
  have hs := sound_ledgerRun (sound_unpledged db) history
  have hk := kept_run hs hcond
  refine ⟨hk.sound.status, ?_, fun t c i r => hk.cancelled t c i r⟩
  rintro before m after rfl i hi
  have hbefore : Kept (ledgerRun (unpledged db) history) calls
      ((system (ledgerRun (unpledged db) history) calls).run before) :=
    kept_run hs fun early m' late he => hcond early m' (late ++ m :: after) (by simp [he])
  rw [run_append] at hi
  exact exceeds_step hbefore (hcond before m after rfl) hi

instance (db : LedgerDb) (i : ℕ) : Decidable (Exceeds db i) :=
  inferInstanceAs (Decidable (∃ p ∈ db.pledges.rows, p.id = i ∧ p.committedValue < paid db i))

/-- The payments, corrections and cancellations of one pledge. -/
def OnPledge (db : LedgerDb) (i : ℕ) (c : Request) : Prop :=
  match c.call with
  | .recordFulfillment input => input.pledgeId = i
  | .correctValue f _ => ∃ x ∈ db.fulfillments, x.id = f ∧ x.pledgeId = i
  | .correctCommittedValue j _ => j = i
  | .cancelPledge j => j = i
  | _ => False

/-- Once all calls on a pledge have committed or aborted, whatever their interleaving. -/
def OnEverySchedule (P : LedgerDb → List Request → List Move → Prop) : Prop :=
  ∀ (db : LedgerDb) (history : List Invocation) (i : ℕ) (calls : List Request)
    (moves : List Move),
    (∀ c ∈ calls, OnPledge (ledgerRun (unpledged db) history) i c) →
    ((system (ledgerRun (unpledged db) history) calls).run moves).Settled →
    P (ledgerRun (unpledged db) history) calls moves

/-- A pledge of 100 with nothing paid on it. -/
def pledgedHistory : List Invocation := loweredRun.take 2

/-- Two payments of 60 on it, and its cancellation. -/
def racedCalls : List Request :=
  [⟨owner, ⟨0, 0, 30, 2⟩, .recordFulfillment { pledgeId := 20, value := 60 }⟩,
    ⟨owner, ⟨0, 0, 31, 2⟩, .recordFulfillment { pledgeId := 20, value := 60 }⟩,
    ⟨owner, ⟨0, 0, 0, 2⟩, .cancelPledge 20⟩]

/-- Both payments read a sum that leaves room and insert; the first commits, the
cancellation commits, and the second writes the status it computed before either. -/
def racedMoves : List Move :=
  List.replicate 5 (.advance 0) ++ List.replicate 5 (.advance 1) ++
    List.replicate 4 (.advance 0) ++ List.replicate 4 (.advance 2) ++
    List.replicate 3 (.advance 1)

def racedPledge : Pledge :=
  ⟨20, 7, 10, .cash, 100, .partiallyFulfilled, none, none, none, none, none, false, .humanTyped,
    some 1, 1⟩

/-- Each of the three promises fails: the status is stale, two payments that fit alone
exceed the commitment, and a committed cancellation is gone. -/
theorem overlapping_calls_break_pledge :
    ¬ OnEverySchedule (fun db calls moves =>
        StatusDerived ((system db calls).run moves).committed) ∧
    ¬ OnEverySchedule PaymentsFit ∧ ¬ OnEverySchedule CancelsStay := by
  have hcalls : ∀ c ∈ racedCalls, OnPledge (ledgerRun (unpledged .empty) pledgedHistory) 20 c := by
    simp [racedCalls, OnPledge]
  have hsettled : ((system (ledgerRun (unpledged .empty) pledgedHistory) racedCalls).run
      (racedMoves ++ [.advance 1])).Settled := by decide
  have hmem : racedPledge ∈ ((system (ledgerRun (unpledged .empty) pledgedHistory)
      racedCalls).run (racedMoves ++ [.advance 1])).committed.pledges := by decide
  refine ⟨fun h => ?_, fun h => ?_, fun h => ?_⟩
  · have := h .empty pledgedHistory 20 racedCalls _ hcalls hsettled racedPledge hmem
    exact absurd this (by decide)
  · have := h .empty pledgedHistory 20 racedCalls _ hcalls hsettled racedMoves (.advance 1) [] rfl
      20 (by decide)
    obtain hb | ⟨t, c, x, ht, hc, hx⟩ := this
    · exact absurd hb (by decide)
    · cases ht
      obtain rfl := Option.some.inj hc
      cases hx
  · obtain ⟨p, hp, hid, hst⟩ := h .empty pledgedHistory 20 racedCalls _ hcalls hsettled 2 _ 20 _ rfl rfl
      rfl ⟨{ racedPledge with status := .pledged }, by decide, rfl, rfl⟩
    obtain rfl := Table.key_inj hp hmem hid
    exact absurd hst (by decide)

/-- The first payment, and the cancellation. -/
def paidWhileCancelled : List Request := racedCalls.take 1 ++ racedCalls.drop 2

/-- The cancellation reads the pledge before the payment commits, and writes it after. -/
def cancelledMeanwhile : List Move :=
  List.replicate 5 (.advance 0) ++ [.advance 1] ++ List.replicate 4 (.advance 0) ++
    List.replicate 3 (.advance 1)

set_option maxRecDepth 8000 in
/-- The payment meets the condition, and both leave the pledge right. -/
theorem current_commits_keep_pledges_cancelled :
    StatusDerived ((system (ledgerRun (unpledged .empty) pledgedHistory) paidWhileCancelled).run
      cancelledMeanwhile).committed ∧
    PaymentsFit (ledgerRun (unpledged .empty) pledgedHistory) paidWhileCancelled cancelledMeanwhile ∧
    CancelsStay (ledgerRun (unpledged .empty) pledgedHistory) paidWhileCancelled cancelledMeanwhile := by
  refine current_commits_keep_pledges .empty pledgedHistory paidWhileCancelled cancelledMeanwhile ?_
  intro before m after hmoves t c x r hc hcancel hcommits
  have hfirst : (m == .advance 0) = true := by
    obtain ⟨rfl, -, -⟩ := hcommits
    match t, hc with
    | 0, _ => rfl
    | 1, hc => exact absurd (Option.some.inj hc ▸ rfl) (hcancel 20)
  refine RunChecks.current_at (· == .advance 0) [9] (by decide) ⟨?_, trivial⟩ hmoves hfirst
    ⟨hcommits.move, hcommits.slot, .returns hcommits.rest⟩
  repeat refine And.intro rfl ?_
  trivial

end Akabbo.PledgeInterleavings
