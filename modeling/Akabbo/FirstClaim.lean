import Akabbo.CommitOrder

/-!
# Calls that claim a job before they work on it

Each call first commits a claim to a job, and works on the job in transactions after that. Where
the job is still free at every claim and no claimant is cut off, the rows are at any time those that
one of the calls has made of them, and in the end those that it makes of them alone.
-/
namespace Akabbo.FirstClaim
open StatementProgram ReadCommitted CommitOrder
open StatementProgram.Program (exec run)

variable {κ σ ε ρ : Type}

/-- What is left of the call does from here what the whole program does from `s`. -/
structure Tied (p : Program κ σ ε ρ) (s : σ) (x : Session κ σ ε ρ) (v : σ) : Prop where
  clean : x.dirty = false → x.pending = id
  same : exec x.rest v (x.pending v) = exec p s s

theorem tied_begin (p : Program κ σ ε ρ) (s : σ) : Tied p s (Session.begin p) s :=
  ⟨fun _ => rfl, rfl⟩

/-- What one statement comes to: the call ends, applies what it has pending, or goes on. -/
inductive Advanced (x : Session κ σ ε ρ) (v : σ) : σ × Slot κ σ ε ρ → Prop
  | returns {r : ρ} (hr : x.rest = .pure r) : Advanced x v (x.pending v, .finished (some (.ok r)))
  | throws {e : ε} (he : x.rest = .throw e) : Advanced x v (v, .finished (some (.error e)))
  | commits {k : Program κ σ ε ρ} (hk : x.rest = .commit k) (hd : x.dirty = true) :
      Advanced x v (x.pending v, .running (.begin k))
  | goes {x' : Session κ σ ε ρ} (hnot : ∀ k, x.rest = .commit k → x.dirty = false)
      (htied : ∀ p s, Tied p s x v → Tied p s x' v) : Advanced x v (v, .running x')

theorem advanced [DecidableEq κ] (x : Session κ σ ε ρ) (held : List κ) (v : σ) :
    Advanced x v (x.advance held v) := by
  cases hr : x.rest with
  | pure r =>
    have hadv : x.advance held v = (x.pending v, .finished (some (.ok r))) := by
      simp [Session.advance, hr]
    rw [hadv]
    exact .returns hr
  | throw e =>
    have hadv : x.advance held v = (v, .finished (some (.error e))) := by
      simp [Session.advance, hr]
    rw [hadv]
    exact .throws hr
  | select q k =>
    have hadv : x.advance held v = (v, .running { x with
        rest := k (q (x.pending v))
        readings := ⟨q ∘ x.pending, q (x.pending v)⟩ :: x.readings }) := by
      simp [Session.advance, hr]
    rw [hadv]
    refine .goes (by simp [hr]) fun p s h => ⟨h.clean, ?_⟩
    have hsame := h.same
    rw [hr] at hsame
    exact hsame
  | write l q w k =>
    by_cases hl : (l (x.pending v)).any (· ∈ held) = true
    · have hadv : x.advance held v = (v, .running x) := by simp only [Session.advance, hr, hl, if_true]
      rw [hadv]
      exact .goes (by simp [hr]) fun _ _ h => h
    · have hadv : x.advance held v = (v, .running { x with
          rest := k (q (x.pending v))
          pending := w (q (x.pending v)) ∘ x.pending
          dirty := true
          readings := ⟨q ∘ x.pending, q (x.pending v)⟩ :: x.readings
          locks := l (x.pending v) ++ x.locks }) := by
        simp only [Session.advance, hr]
        rw [if_neg hl]
      rw [hadv]
      refine .goes (by simp [hr]) fun p s h => ⟨by simp, ?_⟩
      have hsame := h.same
      rw [hr] at hsame
      exact hsame
  | commit k =>
    cases hd : x.dirty with
    | true =>
      have hadv : x.advance held v = (x.pending v, .running (.begin k)) := by
        simp [Session.advance, hr, hd]
      rw [hadv]
      exact .commits hr hd
    | false =>
      have hadv : x.advance held v = (v, .running { x with rest := k }) := by
        simp [Session.advance, hr, hd]
      rw [hadv]
      refine .goes (fun _ _ => hd) fun p s h => ⟨h.clean, ?_⟩
      have hsame := h.same
      rw [hr, h.clean hd] at hsame
      rw [h.clean hd]
      exact hsame

theorem run_of_returns {p : Program κ σ ε ρ} {s v : σ} {x : Session κ σ ε ρ} {r : ρ}
    (h : Tied p s x v) (hr : x.rest = .pure r) : run p s = (.ok r, x.pending v) := by
  have hsame := h.same
  rw [hr] at hsame
  unfold run
  rw [← hsame]
  rfl

theorem run_of_throws {p : Program κ σ ε ρ} {s v : σ} {x : Session κ σ ε ρ} {e : ε}
    (h : Tied p s x v) (he : x.rest = .throw e) : run p s = (.error e, v) := by
  have hsame := h.same
  rw [he] at hsame
  unfold run
  rw [← hsame]
  rfl

theorem tied_commits {p k : Program κ σ ε ρ} {s v : σ} {x : Session κ σ ε ρ} (h : Tied p s x v)
    (hk : x.rest = .commit k) : Tied p s (.begin k) (x.pending v) := by
  refine ⟨fun _ => rfl, ?_⟩
  have hsame := h.same
  rw [hk] at hsame
  exact hsame

/-- Work that leaves the job claimed, and keeps `R`. -/
def Works (free : σ → Prop) (R : σ → σ → Prop) (f : σ → σ) : Prop :=
  ∀ v, (¬ free v → ¬ free (f v)) ∧ R v (f v)

/-- The first commit of a call claims the job, and what is left works on it. -/
structure Claims (free : σ → Prop) (R : σ → σ → Prop) (f : σ → σ) (rest : Program κ σ ε ρ) :
    Prop where
  claimed : ∀ v, ¬ free (f v)
  keeps : ∀ v, R v (f v)
  works : EveryCommit (fun _ => True) (fun _ _ g => Works free R g) rest false [] id

section claiming
variable [DecidableEq κ] {request : Type} (program : request → Program κ σ ε ρ)
  (free : σ → Prop) (R : request → σ → σ → Prop) (requests : List request) (s : σ)

/-- The call has committed its claim in these moves. -/
def HasClaimed (moves : List Move) (t : ℕ) : Prop :=
  ∃ early m late x, moves = early ++ m :: late ∧
    Applied ((System.begin s (requests.map program)).run early) m t x none

/-- The job is still free at every claim, and no call is cut off that has made one. -/
structure Careful (moves : List Move) : Prop where
  finds : ∀ before m after, moves = before ++ m :: after → ∀ t x,
    Applied ((System.begin s (requests.map program)).run before) m t x none →
      ¬ HasClaimed program requests s before t →
      free ((System.begin s (requests.map program)).run before).committed
  finishes : ∀ before t after, moves = before ++ .cutOff t :: after → ∀ x,
    ((System.begin s (requests.map program)).run before).slots[t]? = some (.running x) →
      ¬ HasClaimed program requests s before t

/-- Nobody has claimed the job, and nothing has changed. -/
structure Unclaimed (sys : System κ σ ε ρ) : Prop where
  committed : sys.committed = s
  running : ∀ (t : ℕ) x, sys.slots[t]? = some (.running x) → ∃ c, requests[t]? = some c ∧
    x.Opens (fun _ => Claims free (R c)) ∧ Tied (program c) s x s
  returned : ∀ (t : ℕ) r, sys.slots[t]? = some (.finished (some (.ok r))) →
    ∃ c, requests[t]? = some c ∧ run (program c) s = (.ok r, s)

/-- Call `w` has claimed the job; the rows are those that it has made of them so far, or makes of
them alone. -/
structure ClaimedBy (w : ℕ) (c : request) (sys : System κ σ ε ρ) : Prop where
  request : requests[w]? = some c
  claimed : ¬ free sys.committed
  made : R c s sys.committed
  others : ∀ (t : ℕ) x, t ≠ w → sys.slots[t]? = some (.running x) → ∃ c, requests[t]? = some c ∧
    x.Opens (fun _ => Claims free (R c))
  winner : (∃ x, sys.slots[w]? = some (.running x) ∧ Tied (program c) s x sys.committed ∧
      x.Keeps (fun _ => True) fun _ _ g => Works free (R c) g) ∨
    ∃ r, sys.slots[w]? = some (.finished (some r)) ∧ run (program c) s = (r, sys.committed)

inductive Standing (moves : List Move) (sys : System κ σ ε ρ) : Prop
  | unclaimed (hnone : ∀ t, ¬ HasClaimed program requests s moves t)
      (h : Unclaimed program free R requests s sys)
  | claimed (w : ℕ) (c : request) (hone : ∀ t, HasClaimed program requests s moves t ↔ t = w)
      (h : ClaimedBy program free R requests s w c sys)

end claiming

section steps
variable [DecidableEq κ] {request : Type} {program : request → Program κ σ ε ρ}
  {free : σ → Prop} {R : request → σ → σ → Prop} {requests : List request} {s : σ}
  {sys : System κ σ ε ρ} {t w : ℕ} {c : request} {x : Session κ σ ε ρ} {y : Slot κ σ ε ρ}

theorem hasClaimed_snoc {before : List Move} {m : Move} :
    HasClaimed program requests s (before ++ [m]) t ↔ HasClaimed program requests s before t ∨
      ∃ x, Applied ((System.begin s (requests.map program)).run before) m t x none := by
  constructor
  · rintro ⟨early, m', late, x, hmoves, happ⟩
    rcases List.eq_nil_or_concat late with rfl | ⟨late, last, rfl⟩
    · obtain ⟨rfl, hm⟩ := List.append_inj' hmoves rfl
      rw [List.singleton_inj.mp hm]
      exact .inr ⟨x, happ⟩
    · refine .inl ⟨early, m', late, x, ?_, happ⟩
      have hsplit : before ++ [m] = (early ++ m' :: late) ++ [last] := by simpa using hmoves
      exact (List.append_inj' hsplit rfl).1
  · rintro (⟨early, m', late, x, rfl, happ⟩ | ⟨x, happ⟩)
    · exact ⟨early, m', late ++ [m], x, by simp, happ⟩
    · exact ⟨before, m, [], x, rfl, happ⟩

omit [DecidableEq κ] in
/-- The call that moves, and how it ends its transaction. -/
theorem applied_advance (hslot : sys.slots[t]? = some (.running x)) {u : ℕ} {z : Session κ σ ε ρ}
    (happ : Applied sys (.advance t) u z none) : u = t ∧ ∃ k, x.rest = .commit k ∧ x.dirty = true := by
  obtain ⟨hm, hz, happlies⟩ := happ
  cases hm
  obtain rfl : x = z := by simpa using hslot.symm.trans hz
  cases happlies with
  | commits hk hd => exact ⟨rfl, _, hk, hd⟩

/-- A move of a call that is not open. -/
theorem step_cases_open (sys : System κ σ ε ρ) (m : Move) :
    (sys.step m = sys ∧ ∀ u z, ¬ Applied sys m u z none) ∨
    (∃ t x, m = .cutOff t ∧ sys.slots[t]? = some (.running x) ∧
      sys.step m = ⟨sys.committed, sys.slots.set t (.finished none)⟩) ∨
    ∃ t x, m = .advance t ∧ sys.slots[t]? = some (.running x) := by
  cases m with
  | advance t =>
    rcases h : sys.slots[t]? with _ | (x | r)
    · refine .inl ⟨by simp [System.step, h], fun u z happ => ?_⟩
      obtain ⟨hm, hz, -⟩ := happ
      cases hm
      simp [h] at hz
    · exact .inr (.inr ⟨t, x, rfl, h⟩)
    · refine .inl ⟨by simp [System.step, h], fun u z happ => ?_⟩
      obtain ⟨hm, hz, -⟩ := happ
      cases hm
      simp [h] at hz
  | cutOff t =>
    have hnever (u : ℕ) (z : Session κ σ ε ρ) : ¬ Applied sys (.cutOff t) u z none :=
      fun happ => by cases happ.move
    rcases h : sys.slots[t]? with _ | (x | r)
    · exact .inl ⟨by simp [System.step, h], hnever⟩
    · exact .inr (.inl ⟨t, x, rfl, h, by simp [System.step, h]⟩)
    · exact .inl ⟨by simp [System.step, h], hnever⟩

theorem step_advance (hslot : sys.slots[t]? = some (.running x)) :
    sys.step (.advance t) = ⟨(x.advance (sys.heldByOthers t) sys.committed).1,
      sys.slots.set t (x.advance (sys.heldByOthers t) sys.committed).2⟩ := by
  simp [System.step, hslot]

omit [DecidableEq κ] in
/-- A slot that is replaced, and the others. -/
theorem slot_set {u : ℕ} {z : Slot κ σ ε ρ} (h : (sys.slots.set t y)[u]? = some z) :
    u = t ∧ y = z ∨ u ≠ t ∧ sys.slots[u]? = some z := by
  rw [List.getElem?_set] at h
  split_ifs at h with htu hlt
  · exact .inl ⟨htu.symm, Option.some.inj h⟩
  · exact .inr ⟨fun hut => htu hut.symm, h⟩

omit [DecidableEq κ] in
theorem unclaimed_set (h : Unclaimed program free R requests s sys)
    (hrunning : ∀ x, y = .running x → ∃ c, requests[t]? = some c ∧
      x.Opens (fun _ => Claims free (R c)) ∧ Tied (program c) s x s)
    (hreturned : ∀ r, y = .finished (some (.ok r)) →
      ∃ c, requests[t]? = some c ∧ run (program c) s = (.ok r, s)) :
    Unclaimed program free R requests s ⟨sys.committed, sys.slots.set t y⟩ where
  committed := h.committed
  running u x hx := by
    rcases slot_set hx with ⟨rfl, hy⟩ | ⟨-, hx⟩
    · exact hrunning x hy
    · exact h.running u x hx
  returned u r hr := by
    rcases slot_set hr with ⟨rfl, hy⟩ | ⟨-, hr⟩
    · exact hreturned r hy
    · exact h.returned u r hr

omit [DecidableEq κ] in
/-- What another call does changes nothing for the claimant. -/
theorem claimed_set_other (h : ClaimedBy program free R requests s w c sys) (hne : t ≠ w)
    (hrunning : ∀ x, y = .running x → ∃ c, requests[t]? = some c ∧ x.Opens (fun _ => Claims free (R c))) :
    ClaimedBy program free R requests s w c ⟨sys.committed, sys.slots.set t y⟩ where
  request := h.request
  claimed := h.claimed
  made := h.made
  others u x hu hx := by
    rcases slot_set hx with ⟨rfl, hy⟩ | ⟨-, hx⟩
    · exact hrunning x hy
    · exact h.others u x hu hx
  winner := by
    rw [List.getElem?_set_ne hne]
    exact h.winner

omit [DecidableEq κ] in
/-- The claimant goes on, from rows that are still claimed. -/
theorem claimed_set_winner (h : ClaimedBy program free R requests s w c sys) {v : σ}
    (hclaimed : ¬ free v) (hmade : R c s v)
    (hwinner : (∃ x, y = .running x ∧ Tied (program c) s x v ∧
        x.Keeps (fun _ => True) fun _ _ g => Works free (R c) g) ∨
      ∃ r, y = .finished (some r) ∧ run (program c) s = (r, v)) (hw : w < sys.slots.length) :
    ClaimedBy program free R requests s w c ⟨v, sys.slots.set w y⟩ where
  request := h.request
  claimed := hclaimed
  made := hmade
  others u x hu hx := by
    rcases slot_set hx with ⟨rfl, -⟩ | ⟨-, hx⟩
    · exact absurd rfl hu
    · exact h.others u x hu hx
  winner := by
    rw [List.getElem?_set_self hw]
    simpa using hwinner

/-- A call before its first commit goes on to it. -/
theorem opens_goes {P : List (Reading σ) → (σ → σ) → Program κ σ ε ρ → Prop} (h : x.Opens P)
    {held : List κ} {v : σ} {x' : Session κ σ ε ρ} (hx : (x.advance held v).2 = .running x')
    (hnot : ∀ k, x.rest = .commit k → x.dirty = false) : x'.Opens P := by
  rcases opens_advance h hx with hopens | ⟨k, hk, hd, -⟩
  · exact hopens
  · rw [hnot k hk] at hd
    cases hd

/-- The first claim, or a step towards one. -/
theorem standing_of_unclaimed {before : List Move}
    (hsys : sys = (System.begin s (requests.map program)).run before)
    (hnone : ∀ u, ¬ HasClaimed program requests s before u)
    (h : Unclaimed program free R requests s sys) (hslot : sys.slots[t]? = some (.running x)) :
    Standing program free R requests s (before ++ [.advance t]) (sys.step (.advance t)) := by
  obtain ⟨c, hc, hopens, htied⟩ := h.running t x hslot
  have hstill (hnot : ∀ k, x.rest = .commit k → x.dirty = false) (u : ℕ) :
      ¬ HasClaimed program requests s (before ++ [.advance t]) u := by
    intro hu
    rcases hasClaimed_snoc.mp hu with hu | ⟨z, happ⟩
    · exact hnone u hu
    · rw [← hsys] at happ
      obtain ⟨-, k, hk, hd⟩ := applied_advance hslot happ
      rw [hnot k hk] at hd
      cases hd
  have hadv := advanced x (sys.heldByOthers t) sys.committed
  rw [step_advance hslot]
  generalize hnext : x.advance (sys.heldByOthers t) sys.committed = next at hadv
  cases hadv with
  | @returns r hr =>
    have hid : x.pending = id := hopens.clean (by have := hopens.first; rwa [hr] at this)
    have hrun := run_of_returns htied hr
    rw [hid] at hrun ⊢
    refine .unclaimed (hstill (by simp [hr])) (unclaimed_set h nofun fun r' hr' => ⟨c, hc, ?_⟩)
    cases hr'
    exact hrun
  | throws he =>
    exact .unclaimed (hstill (by rw [he]; exact nofun)) (unclaimed_set h nofun nofun)
  | @commits k hk hd =>
    have hclaims : Claims free (R c) x.pending k := by
      have := hopens.first
      rwa [hk, hd] at this
    have hone (u : ℕ) : HasClaimed program requests s (before ++ [.advance t]) u ↔ u = t := by
      constructor
      · intro hu
        rcases hasClaimed_snoc.mp hu with hu | ⟨z, happ⟩
        · exact absurd hu (hnone u)
        · rw [← hsys] at happ
          exact (applied_advance hslot happ).1
      · rintro rfl
        refine hasClaimed_snoc.mpr (.inr ⟨x, ?_⟩)
        rw [← hsys]
        exact ⟨rfl, hslot, .commits hk hd⟩
    refine .claimed t c hone ⟨hc, hclaims.claimed _, ?_, ?_, ?_⟩
    · rw [h.committed]
      exact hclaims.keeps s
    · intro u z hu hz
      rcases slot_set hz with ⟨rfl, -⟩ | ⟨-, hz⟩
      · exact absurd rfl hu
      · obtain ⟨c', hc', hopens', -⟩ := h.running u z hz
        exact ⟨c', hc', hopens'⟩
    · refine .inl ⟨.begin k, ?_, ?_, hclaims.works⟩
      · rw [List.getElem?_set_self (List.getElem?_eq_some_iff.mp hslot).1]
      · rw [h.committed]
        exact tied_commits htied hk
  | @goes x' hnot hgoes =>
    refine .unclaimed (hstill hnot) (unclaimed_set h (fun z hz => ?_) nofun)
    cases hz
    have hnow : Tied (program c) s x' sys.committed := hgoes _ _ (by rw [h.committed]; exact htied)
    rw [h.committed] at hnow
    exact ⟨c, hc, opens_goes hopens (congrArg Prod.snd hnext) hnot, hnow⟩

/-- A call that is not the claimant claims nothing. -/
theorem claimed_of_other (h : ClaimedBy program free R requests s w c sys) (hne : t ≠ w)
    (hslot : sys.slots[t]? = some (.running x)) (hnever : ¬ Applied sys (.advance t) t x none) :
    ClaimedBy program free R requests s w c (sys.step (.advance t)) := by
  obtain ⟨c', hc', hopens⟩ := h.others t x hne hslot
  have hadv := advanced x (sys.heldByOthers t) sys.committed
  rw [step_advance hslot]
  generalize hnext : x.advance (sys.heldByOthers t) sys.committed = next at hadv
  cases hadv with
  | returns hr =>
    have hid : x.pending = id := hopens.clean (by have := hopens.first; rwa [hr] at this)
    rw [hid]
    exact claimed_set_other h hne nofun
  | throws he => exact claimed_set_other h hne nofun
  | @commits k hk hd => exact absurd ⟨rfl, hslot, .commits hk hd⟩ hnever
  | @goes x' hnot hgoes =>
    refine claimed_set_other h hne fun z hz => ?_
    cases hz
    exact ⟨c', hc', opens_goes hopens (congrArg Prod.snd hnext) hnot⟩

/-- The claimant works on. -/
theorem claimed_of_winner (htrans : ∀ u v z, R c u v → R c v z → R c u z)
    (h : ClaimedBy program free R requests s w c sys) (hslot : sys.slots[w]? = some (.running x)) :
    ClaimedBy program free R requests s w c (sys.step (.advance w)) := by
  have hw := (List.getElem?_eq_some_iff.mp hslot).1
  obtain ⟨htied, hkeeps⟩ : Tied (program c) s x sys.committed ∧
      x.Keeps (fun _ => True) fun _ _ g => Works free (R c) g := by
    rcases h.winner with ⟨z, hz, htied, hkeeps⟩ | ⟨r, hr, -⟩
    · obtain rfl : x = z := by simpa using hslot.symm.trans hz
      exact ⟨htied, hkeeps⟩
    · cases hslot.symm.trans hr
  have hadv := advanced x (sys.heldByOthers w) sys.committed
  rw [step_advance hslot]
  generalize hnext : x.advance (sys.heldByOthers w) sys.committed = next at hadv
  cases hadv with
  | returns hr =>
    obtain ⟨hkept, hmade⟩ := keeps_applies hkeeps (.returns hr) sys.committed
    exact claimed_set_winner h (hkept h.claimed) (htrans _ _ _ h.made hmade)
      (.inr ⟨_, rfl, run_of_returns htied hr⟩) hw
  | throws he =>
    exact claimed_set_winner h h.claimed h.made (.inr ⟨_, rfl, run_of_throws htied he⟩) hw
  | @commits k hk hd =>
    obtain ⟨hkept, hmade⟩ := keeps_applies hkeeps (.commits hk hd) sys.committed
    refine claimed_set_winner h (hkept h.claimed) (htrans _ _ _ h.made hmade)
      (.inl ⟨_, rfl, tied_commits htied hk, ?_⟩) hw
    exact keeps_advance hkeeps trivial (congrArg Prod.snd hnext)
  | @goes x' hnot hgoes =>
    refine claimed_set_winner h h.claimed h.made (.inl ⟨_, rfl, hgoes _ _ htied, ?_⟩) hw
    exact keeps_advance hkeeps trivial (congrArg Prod.snd hnext)

theorem standing_cutOff {before : List Move} (h : Standing program free R requests s before sys)
    (hfinishes : ¬ HasClaimed program requests s before t) :
    Standing program free R requests s (before ++ [.cutOff t])
      ⟨sys.committed, sys.slots.set t (.finished none)⟩ := by
  have hsame (u : ℕ) : HasClaimed program requests s (before ++ [.cutOff t]) u ↔
      HasClaimed program requests s before u := by
    rw [hasClaimed_snoc]
    constructor
    · rintro (hu | ⟨z, happ⟩)
      · exact hu
      · cases happ.move
    · exact .inl
  cases h with
  | unclaimed hnone h =>
    exact .unclaimed (fun u => mt (hsame u).mp (hnone u)) (unclaimed_set h nofun nofun)
  | claimed w c hone h =>
    have hne : t ≠ w := fun htw => hfinishes ((hone t).mpr htw)
    exact .claimed w c (fun u => (hsame u).trans (hone u)) (claimed_set_other h hne nofun)

theorem standing_step (htrans : ∀ c u v z, R c u v → R c v z → R c u z)
    {before : List Move} {m : Move} (hsys : sys = (System.begin s (requests.map program)).run before)
    (h : Standing program free R requests s before sys)
    (hfinds : ∀ t x, Applied sys m t x none → ¬ HasClaimed program requests s before t →
      free sys.committed)
    (hfinishes : ∀ t x, m = .cutOff t → sys.slots[t]? = some (.running x) →
      ¬ HasClaimed program requests s before t) :
    Standing program free R requests s (before ++ [m]) (sys.step m) := by
  rcases step_cases_open sys m with ⟨hsame, hnever⟩ | ⟨t, x, rfl, hslot, hstep⟩ | ⟨t, x, rfl, hslot⟩
  · have hkept (u : ℕ) : HasClaimed program requests s (before ++ [m]) u ↔
        HasClaimed program requests s before u := by
      rw [hasClaimed_snoc, ← hsys]
      exact ⟨fun hu => hu.resolve_right fun ⟨z, happ⟩ => hnever u z happ, .inl⟩
    rw [hsame]
    cases h with
    | unclaimed hnone h => exact .unclaimed (fun u => mt (hkept u).mp (hnone u)) h
    | claimed w c hone h => exact .claimed w c (fun u => (hkept u).trans (hone u)) h
  · rw [hstep]
    exact standing_cutOff h (hfinishes t x rfl hslot)
  · cases h with
    | unclaimed hnone h => exact standing_of_unclaimed hsys hnone h hslot
    | claimed w c hone h =>
      -- once the job is claimed, nobody else can commit a claim
      have honly (u : ℕ) (z : Session κ σ ε ρ) (happ : Applied sys (.advance t) u z none) : u = w := by
        by_contra hne
        exact h.claimed (hfinds u z happ fun hu => hne ((hone u).mp hu))
      refine .claimed w c (fun u => ?_) ?_
      · rw [hasClaimed_snoc, ← hsys]
        exact ⟨fun hu => hu.elim (hone u).mp fun ⟨z, happ⟩ => honly u z happ,
          fun hu => .inl ((hone u).mpr hu)⟩
      · by_cases htw : t = w
        · subst htw
          exact claimed_of_winner (htrans _) h hslot
        · exact claimed_of_other h htw hslot fun happ => htw (honly t x happ)

/-- Calls that claim first: along a careful run the job is free and nothing has changed, or one call
has it and nobody else has done anything. -/
theorem standing_run (hfirst : ∀ c, FirstCommit (fun _ => Claims free (R c)) (program c) false [] id)
    (htrans : ∀ c u v z, R c u v → R c v z → R c u z) (moves : List Move)
    (hcareful : Careful program free requests s moves) :
    Standing program free R requests s moves
      ((System.begin s (requests.map program)).run moves) := by
  induction moves using List.reverseRecOn with
  | nil =>
    refine .unclaimed (fun t ht => ?_) ⟨rfl, fun t x hx => ?_, fun t r hr => ?_⟩
    · obtain ⟨early, m, late, x, hmoves, -⟩ := ht
      simp at hmoves
    · obtain ⟨p, hp, rfl⟩ := running_begin hx
      rw [List.getElem?_map, Option.map_eq_some_iff] at hp
      obtain ⟨c, hc, rfl⟩ := hp
      exact ⟨c, hc, opens_begin (hfirst c), tied_begin (program c) s⟩
    · have hslots : ((System.begin s (requests.map program)).run []).slots[t]? =
          ((requests.map program).map fun p => Slot.running (.begin p))[t]? := rfl
      rw [hslots, List.getElem?_map, Option.map_eq_some_iff] at hr
      obtain ⟨p, -, hp⟩ := hr
      cases hp
  | append_singleton before m ih =>
    have hbefore := ih ⟨fun early m' late he => hcareful.finds early m' (late ++ [m]) (by simp [he]),
      fun early t late he => hcareful.finishes early t (late ++ [m]) (by simp [he])⟩
    rw [run_append]
    exact standing_step htrans rfl hbefore (hcareful.finds before m [] rfl) fun t x hm hx =>
      hcareful.finishes before t [] (by rw [hm]) x hx

/-- A run in which only one call commits anything before it returns is careful until that call is
cut off. -/
theorem careful_of_one (hfirst : ∀ c, FirstCommit (fun _ => Claims free (R c)) (program c) false [] id)
    (htrans : ∀ c u v z, R c u v → R c v z → R c u z) (hfree : free s) (w : ℕ) (moves : List Move)
    (hone : ∀ before m after, moves = before ++ m :: after → ∀ t x,
      Applied ((System.begin s (requests.map program)).run before) m t x none → t = w)
    (hcut : .cutOff w ∉ moves) : Careful program free requests s moves := by
  have hclaims {early late : List Move} {t : ℕ} (hmoves : moves = early ++ late)
      (h : HasClaimed program requests s early t) : t = w := by
    obtain ⟨before, m, after, x, rfl, happ⟩ := h
    exact hone before m (after ++ late) (by simp [hmoves]) t x happ
  induction moves using List.reverseRecOn with
  | nil => exact ⟨fun before m after he => by simp at he, fun before t after he => by simp at he⟩
  | append_singleton before m ih =>
    have hbefore := ih
      (fun early m' late he => hone early m' (late ++ [m]) (by simp [he]))
      (fun hcut' => hcut (List.mem_append_left _ hcut'))
      (fun {early late} _ he => hclaims (show before ++ [m] = early ++ (late ++ [m]) by simp [he]))
    refine ⟨fun early m' late he t x happ hnew => ?_, fun early t late he x hx hclaimed => ?_⟩
    · obtain rfl : t = w := hone early m' late he t x happ
      rcases List.eq_nil_or_concat late with rfl | ⟨late, last, rfl⟩
      · obtain ⟨rfl, -⟩ := List.append_inj' he rfl
        cases standing_run hfirst htrans before hbefore with
        | unclaimed hnone h =>
          rw [h.committed]
          exact hfree
        | claimed w' c' hwho h =>
          -- the only call that can have claimed the job is this one
          have hclaimed := (hwho w').mpr rfl
          obtain rfl := hclaims rfl hclaimed
          exact absurd hclaimed hnew
      · have hsplit : before ++ [m] = (early ++ m' :: late) ++ [last] := by simpa using he
        exact hbefore.finds early m' late (List.append_inj' hsplit rfl).1 t x happ hnew
    · obtain rfl : t = w := hclaims he hclaimed
      exact hcut (by rw [he]; simp)

end steps

end Akabbo.FirstClaim
