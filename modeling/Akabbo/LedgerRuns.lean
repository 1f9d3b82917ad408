import Akabbo.LedgerSpecs
import Akabbo.LedgerStatements

/-!
# Runs of the ledger

Calls made one after the other, each run to its end or rolled back. Every run refines
the book, so every stored status is the derived one, and only lowering a commitment
leaves a pledge with more received than committed.
-/
namespace Akabbo.LedgerRuns
open Access PledgeStatus RowTable StatementProgram LedgerState LedgerWrites PledgeBook LedgerEffects
open LedgerSpecs LedgerStatements StatementProgram.Program

/-- A call that returns has made some entries; only `correctCommittedValue` sets a commitment. -/
theorem exec_program {call : LedgerCall} {ctx : OperationContext} {draw : Draw}
    {c v c' v' : LedgerDb} {r : LedgerResult}
    (h : (call.program ctx draw).exec c v = .ok (r, c', v')) :
    ∃ es, Evolves v es v' ∧ ∀ i x, Entry.recommitted i x ∈ es →
      call = .correctCommittedValue i x ∧ es = [.recommitted i x] := by
  have replay {es : List Entry} (hes : ∀ i x, Entry.recommitted i x ∉ es)
      (h : v = v' ∨ Evolves v es v') :
      ∃ es, Evolves v es v' ∧ ∀ i x, Entry.recommitted i x ∈ es →
        call = .correctCommittedValue i x ∧ es = [.recommitted i x] := by
    obtain rfl | h := h
    · exact ⟨[], evolves_refl v, by simp⟩
    · exact ⟨es, h, fun i x hm => absurd hm (hes i x)⟩
  cases call with
  | createPerson ent input =>
    obtain ⟨_, h, -⟩ := exec_map.mp h
    exact ⟨[], (exec_createPerson h).2, by simp⟩
  | createPledge input =>
    obtain ⟨_, h, -⟩ := exec_map.mp h
    exact ⟨_, (exec_createPledge h).2, by simp⟩
  | recordFulfillment input =>
    obtain ⟨_, h, -⟩ := exec_map.mp h
    exact replay (by simp) (exec_recordFulfillment h).2
  | recordDirectContribution input =>
    obtain ⟨_, h, -⟩ := exec_map.mp h
    exact replay (by simp) (exec_recordDirectContribution h).2
  | recordPledgeWithPayment input =>
    obtain ⟨_, h, -⟩ := exec_map.mp h
    obtain ⟨es, hev, hes⟩ := (exec_recordPledgeWithPayment h).2
    exact ⟨es, hev, fun i x hm => absurd hm (hes i x)⟩
  | correctCommittedValue i value =>
    obtain ⟨_, h, -⟩ := exec_map.mp h
    refine ⟨_, (exec_correctCommittedValue h).2, fun j x hm => ?_⟩
    obtain ⟨rfl, rfl⟩ : j = i ∧ x = value := by simpa using hm
    exact ⟨rfl, rfl⟩
  | correctValue i value =>
    obtain ⟨_, h, -⟩ := exec_map.mp h
    obtain ⟨-, f, -, hev⟩ := exec_correctValue h
    exact ⟨_, hev, by simp⟩
  | cancelPledge i =>
    obtain ⟨_, h, -⟩ := exec_map.mp h
    exact ⟨_, (exec_cancelPledge h).2, by simp⟩
  | mergePeople i j =>
    obtain ⟨_, h, -⟩ := exec_map.mp h
    exact ⟨[], (exec_mergePeople h).2, by simp⟩

/-- The call of this invocation took effect. -/
def Succeeds (db : LedgerDb) (inv : Invocation) : Prop :=
  inv.rolledBack = false ∧ ∃ r, ((inv.call.program inv.ctx inv.draw).run db).1 = .ok r

theorem step_evolves (db : LedgerDb) (inv : Invocation) :
    ∃ es, Evolves db es (inv.step db) ∧ ∀ i x, Entry.recommitted i x ∈ es →
      inv.call = .correctCommittedValue i x ∧ es = [.recommitted i x] ∧ Succeeds db inv := by
  unfold Invocation.step
  split_ifs with hrb
  · exact ⟨[], evolves_refl db, by simp⟩
  · rcases run_cases (commitFree_program inv.ctx inv.draw inv.call) db with
      ⟨r, db', he, hrun⟩ | ⟨e, hrun⟩
    · obtain ⟨es, hev, hes⟩ := exec_program he
      rw [hrun]
      refine ⟨es, hev, fun i x hm => ?_⟩
      obtain ⟨hcall, heq⟩ := hes i x hm
      exact ⟨hcall, heq, by simpa using hrb, r, by rw [hrun]⟩
    · rw [hrun]
      exact ⟨[], evolves_refl db, by simp⟩

/-- A ledger in which nothing was promised yet. -/
def unpledged (db : LedgerDb) : LedgerDb := { db with pledges := .empty, fulfillments := .empty }

theorem sound_unpledged (db : LedgerDb) : Sound (unpledged db) where
  status p hp := absurd hp (Table.not_mem_empty p)
  owned f hf := absurd hf (Table.not_mem_empty f)
  placed p hp := absurd hp (Table.not_mem_empty p)

/-- Running calls refines making entries in the book. -/
theorem ledgerRun_evolves (db : LedgerDb) (calls : List Invocation) :
    ∃ es, Evolves db es (ledgerRun db calls) := by
  induction calls generalizing db with
  | nil => exact ⟨[], evolves_refl db⟩
  | cons inv calls ih =>
    obtain ⟨es, hev, -⟩ := step_evolves db inv
    obtain ⟨es', hev'⟩ := ih (inv.step db)
    exact ⟨es ++ es', evolves_trans hev fun _ => hev'⟩

theorem sound_ledgerRun {db : LedgerDb} (h : Sound db) (calls : List Invocation) :
    Sound (ledgerRun db calls) := by
  obtain ⟨es, hev⟩ := ledgerRun_evolves db calls
  exact (hev h).sound

/-- In every state a run reaches, the stored status of each pledge is the one derived from
its committed value and its own payments; and a cancelled pledge stays cancelled. -/
theorem ledgerRun_status (db : LedgerDb) (calls : List Invocation) :
    (∀ p ∈ (ledgerRun (unpledged db) calls).pledges,
      p.status = deriveStatus p.committedValue (paid (ledgerRun (unpledged db) calls) p.id)
        (p.status == .cancelled)) ∧
    ∀ before after, calls = before ++ after →
      ∀ p ∈ (ledgerRun (unpledged db) before).pledges, p.status = .cancelled →
        ∃ p' ∈ (ledgerRun (unpledged db) calls).pledges, p'.id = p.id ∧ p'.status = .cancelled := by
  refine ⟨(sound_ledgerRun (sound_unpledged db) calls).status, ?_⟩
  rintro before after rfl p hp hc
  have hs := sound_ledgerRun (sound_unpledged db) before
  obtain ⟨es, hev⟩ := ledgerRun_evolves (ledgerRun (unpledged db) before) after
  obtain ⟨a, ha, hca⟩ := postsAll_keeps (hev hs).posts (book_of_mem hp)
  obtain ⟨p', hp', hid, rfl⟩ := book_eq_some.mp ha
  rw [ledgerRun_append]
  exact ⟨p', hp', hid, status_eq_cancelled.mpr (hca (status_eq_cancelled.mp hc))⟩

/-- What a call leaves above its commitment was there before, untouched, or was left there
by setting the commitment below what had come in. -/
theorem step_overfulfilled {db : LedgerDb} (hs : Sound db) (inv : Invocation) {p' : Pledge}
    (hp' : p' ∈ (inv.step db).pledges) (ho : p'.committedValue < paid (inv.step db) p'.id) :
    paid db p'.id = paid (inv.step db) p'.id ∧
      ((∃ p ∈ db.pledges, p.id = p'.id ∧ p.committedValue = p'.committedValue) ∨
        inv.call = .correctCommittedValue p'.id p'.committedValue ∧ Succeeds db inv) := by
  obtain ⟨es, hev, hes⟩ := step_evolves db inv
  have hposts := (hev hs).posts
  have hbook := book_of_mem hp'
  have sums {p : Pledge} (hid : p.id = p'.id)
      (hr : (account db p).received = (account (inv.step db) p').received) :
      paid db p'.id = paid (inv.step db) p'.id := by
    rw [← show paid db p.id = paid (inv.step db) p'.id from hr, hid]
  by_cases hset : ∃ i x, Entry.recommitted i x ∈ es
  · obtain ⟨i, x, hm⟩ := hset
    obtain ⟨hcall, rfl, hok⟩ := hes i x hm
    cases hposts with
    | cons he hrest =>
      cases hrest
      obtain ⟨a, ha, hr, he' | hc⟩ := posts_overfulfilled he hbook ho
      · obtain ⟨p, -, hid, rfl⟩ := book_eq_some.mp ha
        obtain ⟨rfl, rfl⟩ : i = p'.id ∧ x = p'.committedValue := by simpa [account] using he'
        exact ⟨sums hid hr, .inr ⟨hcall, hok⟩⟩
      · obtain ⟨p, hp, hid, rfl⟩ := book_eq_some.mp ha
        exact ⟨sums hid hr, .inl ⟨p, hp, hid, hc⟩⟩
  · push Not at hset
    obtain ⟨a, ha, hr, hc⟩ := postsAll_overfulfilled hposts (hset _) hbook ho
    obtain ⟨p, hp, hid, rfl⟩ := book_eq_some.mp ha
    exact ⟨sums hid hr, .inl ⟨p, hp, hid, hc⟩⟩

/-- Nothing about one pledge changed from a state on: neither its commitment nor its sum. -/
def Unchanged (db : LedgerDb) (calls : List Invocation) (p : Pledge) (sum : ℕ) : Prop :=
  ∀ early late, calls = early ++ late →
    (∃ q ∈ (ledgerRun db early).pledges, q.id = p.id ∧ q.committedValue = p.committedValue) ∧
      paid (ledgerRun db early) p.id = sum

theorem unchanged_append {db : LedgerDb} {calls : List Invocation} {inv : Invocation} {p : Pledge}
    {sum : ℕ} (h : Unchanged db calls p sum)
    (hp : ∃ q ∈ (ledgerRun db (calls ++ [inv])).pledges,
      q.id = p.id ∧ q.committedValue = p.committedValue)
    (hsum : paid (ledgerRun db (calls ++ [inv])) p.id = sum) :
    Unchanged db (calls ++ [inv]) p sum := by
  intro early late he
  obtain rfl | ⟨late', last, rfl⟩ := List.eq_nil_or_concat late
  · rw [List.append_nil] at he
    exact he ▸ ⟨hp, hsum⟩
  · rw [List.concat_eq_append, ← List.append_assoc] at he
    exact h early late' (List.append_inj_left' he rfl)

/-- A pledge that received more than its commitment got there in one way: the commitment
was set below what had already come in, and from then on neither side changed. -/
theorem ledgerRun_overfulfilled (db : LedgerDb) (calls : List Invocation) :
    ∀ p ∈ (ledgerRun (unpledged db) calls).pledges,
      p.committedValue < paid (ledgerRun (unpledged db) calls) p.id →
      ∃ before inv after, calls = before ++ inv :: after ∧
        inv.call = .correctCommittedValue p.id p.committedValue ∧
        Succeeds (ledgerRun (unpledged db) before) inv ∧
        p.committedValue < paid (ledgerRun (unpledged db) before) p.id ∧
        Unchanged (ledgerRun (unpledged db) (before ++ [inv])) after p
          (paid (ledgerRun (unpledged db) before) p.id) := by
  induction calls using List.reverseRecOn with
  | nil => exact fun p hp => absurd hp (Table.not_mem_empty p)
  | append_singleton calls inv ih =>
    intro p hp ho
    have hs := sound_ledgerRun (sound_unpledged db) calls
    rw [ledgerRun_append] at hp ho
    obtain ⟨hpaid, ⟨q, hq, hid, hc⟩ | ⟨hcall, hok⟩⟩ := step_overfulfilled hs inv hp ho
    · -- the excess was there before this call
      obtain ⟨before, inv₀, after, rfl, hcall, hok, hlow, hsame⟩ :=
        ih q hq (by rw [hc, hid, hpaid]; exact ho)
      rw [hid, hc] at hcall
      rw [hid, hc] at hlow
      have hsame' : Unchanged (ledgerRun (unpledged db) (before ++ [inv₀])) after p
          (paid (ledgerRun (unpledged db) before) p.id) := by
        intro early late he
        have := hsame early late he
        rwa [hid, hc] at this
      refine ⟨before, inv₀, after ++ [inv], by simp, hcall, hok, hlow,
        unchanged_append hsame' ⟨p, ?_, rfl, rfl⟩ ?_⟩
      · simpa [← ledgerRun_append] using hp
      · have hlast := (hsame' after [] (List.append_nil _).symm).2
        rw [← ledgerRun_append, List.append_assoc, List.singleton_append] at hlast
        rw [← hlast, hpaid, ← ledgerRun_append]
        simp [ledgerRun]
    · refine ⟨calls, inv, [], rfl, hcall, hok, ?_, ?_⟩
      · rw [hpaid]
        exact ho
      · intro early late he
        obtain ⟨rfl, -⟩ := List.append_eq_nil_iff.mp he.symm
        rw [ledgerRun_append]
        exact ⟨⟨p, hp, rfl, rfl⟩, hpaid.symm⟩

/-- An owner of event 7, and four calls: a person, a pledge of 100, its payment in full, and
a correction of the commitment to 50. -/
def owner : OperationContext := ⟨⟨1, true⟩, ⟨7, .owner, .active⟩⟩

def loweredRun : List Invocation :=
  [⟨owner, ⟨10, 0, 0, 0⟩, .createPerson { allowed := true } { displayName := "John" }, false⟩,
    ⟨owner, ⟨0, 20, 0, 1⟩, .createPledge { personId := 10, committedValue := 100 }, false⟩,
    ⟨owner, ⟨0, 0, 30, 2⟩, .recordFulfillment { pledgeId := 20, value := 100 }, false⟩,
    ⟨owner, ⟨0, 0, 0, 3⟩, .correctCommittedValue 20 50, false⟩]

def loweredPledge : Pledge :=
  ⟨20, 7, 10, .cash, 50, .fulfilled, none, none, none, none, none, false, .humanTyped, some 1, 1⟩

/-- A pledge can hold more than its commitment: 100 received against 50. -/
theorem received_exceeds_lowered_commitment :
    ¬ ∀ (db : LedgerDb) (calls : List Invocation),
      ∀ p ∈ (ledgerRun (unpledged db) calls).pledges,
        paid (ledgerRun (unpledged db) calls) p.id ≤ p.committedValue := by
  intro h
  have hle := h .empty loweredRun loweredPledge (by decide)
  exact absurd hle (by decide)

/-- The run above shows how it came to that. -/
theorem ledgerRun_overfulfilled_lowered :
    loweredPledge.committedValue <
        paid (ledgerRun (unpledged .empty) loweredRun) loweredPledge.id ∧
      ∃ before inv after, loweredRun = before ++ inv :: after ∧
        inv.call = .correctCommittedValue 20 50 := by
  have hover : loweredPledge.committedValue <
      paid (ledgerRun (unpledged .empty) loweredRun) loweredPledge.id := by decide
  obtain ⟨before, inv, after, he, hcall, -⟩ :=
    ledgerRun_overfulfilled .empty loweredRun loweredPledge (by decide) hover
  exact ⟨hover, before, inv, after, he, hcall⟩

end Akabbo.LedgerRuns
