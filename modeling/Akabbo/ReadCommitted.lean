import Akabbo.StatementProgram

/-!
# Overlapping calls at READ COMMITTED

Several programs run against one database, one statement at a time. A statement
sees the rows committed when it runs, under the call's own pending writes; a write
waits while another open transaction holds one of the locks it needs; leaving the
program, or `commit`, applies what is pending. A call may also be cut off at any
point, which drops what it had pending.
-/
namespace Akabbo.ReadCommitted
open StatementProgram

/-- What a statement asked of the committed rows, and the answer it got. -/
structure Reading (σ : Type) : Type 1 where
  {α : Type}
  query : σ → α
  answer : α

def Reading.Current {σ : Type} (r : Reading σ) (s : σ) : Prop := r.query s = r.answer

/-- An open call. `start` is the program its readings belong to: the whole call, or
what was left of it after the last commit that changed something. -/
structure Session (κ σ ε ρ : Type) : Type 1 where
  start : Program κ σ ε ρ
  rest : Program κ σ ε ρ
  pending : σ → σ
  dirty : Bool
  readings : List (Reading σ)
  locks : List κ

/-- A finished call keeps its result; `none` is a call that was cut off. -/
inductive Slot (κ σ ε ρ : Type) : Type 1
  | running (session : Session κ σ ε ρ)
  | finished (result : Option (Except ε ρ))

structure System (κ σ ε ρ : Type) : Type 1 where
  committed : σ
  slots : List (Slot κ σ ε ρ)

inductive Move
  | advance (call : ℕ)
  | cutOff (call : ℕ)
  deriving DecidableEq, Repr

variable {κ σ ε ρ : Type}

def Session.begin (p : Program κ σ ε ρ) : Session κ σ ε ρ := ⟨p, p, id, false, [], []⟩

def Session.Current (x : Session κ σ ε ρ) (s : σ) : Prop := ∀ r ∈ x.readings, r.Current s

def Slot.locks : Slot κ σ ε ρ → List κ
  | .running x => x.locks
  | .finished _ => []

def System.begin (s : σ) (calls : List (Program κ σ ε ρ)) : System κ σ ε ρ :=
  ⟨s, calls.map fun p => .running (.begin p)⟩

/-- The next statement of an open call, while other calls hold the locks `held`. -/
def Session.advance [DecidableEq κ] (held : List κ) (s : σ) (x : Session κ σ ε ρ) :
    σ × Slot κ σ ε ρ :=
  match x.rest with
  | .pure r => (x.pending s, .finished (some (.ok r)))
  | .throw e => (s, .finished (some (.error e)))
  | .select q k =>
      (s, .running { x with
        rest := k (q (x.pending s))
        readings := ⟨q ∘ x.pending, q (x.pending s)⟩ :: x.readings })
  | .write l q w k =>
      -- a statement that needs a lock another call holds waits for it
      if (l (x.pending s)).any (· ∈ held) then (s, .running x)
      else (s, .running { x with
        rest := k (q (x.pending s))
        pending := w (q (x.pending s)) ∘ x.pending
        dirty := true
        readings := ⟨q ∘ x.pending, q (x.pending s)⟩ :: x.readings
        locks := l (x.pending s) ++ x.locks })
  | .commit k =>
      if x.dirty then (x.pending s, .running (.begin k))
      else (s, .running { x with rest := k })

def System.heldByOthers (sys : System κ σ ε ρ) (t : ℕ) : List κ :=
  (sys.slots.eraseIdx t).flatMap Slot.locks

def System.step [DecidableEq κ] (sys : System κ σ ε ρ) : Move → System κ σ ε ρ
  | .advance t =>
      match sys.slots[t]? with
      | some (.running x) =>
          let next := x.advance (sys.heldByOthers t) sys.committed
          ⟨next.1, sys.slots.set t next.2⟩
      | _ => sys
  | .cutOff t =>
      match sys.slots[t]? with
      | some (.running _) => ⟨sys.committed, sys.slots.set t (.finished none)⟩
      | _ => sys

def System.run [DecidableEq κ] (sys : System κ σ ε ρ) (moves : List Move) : System κ σ ε ρ :=
  moves.foldl System.step sys

def Slot.isFinished : Slot κ σ ε ρ → Bool
  | .running _ => false
  | .finished _ => true

/-- Every call has committed, failed, or was cut off. -/
def System.Settled (sys : System κ σ ε ρ) : Prop := sys.slots.all Slot.isFinished = true

instance (sys : System κ σ ε ρ) : Decidable sys.Settled :=
  inferInstanceAs (Decidable (_ = true))

section step
variable [DecidableEq κ]

theorem run_append (sys : System κ σ ε ρ) (xs ys : List Move) :
    sys.run (xs ++ ys) = (sys.run xs).run ys := List.foldl_append

/-- An invariant that every allowed step keeps holds along every run of allowed steps. -/
theorem run_invariant {I : System κ σ ε ρ → Prop} {C : System κ σ ε ρ → Move → Prop}
    (hstep : ∀ sys m, I sys → C sys m → I (sys.step m))
    {sys : System κ σ ε ρ} (h : I sys) (moves : List Move)
    (hc : ∀ pre m post, moves = pre ++ m :: post → C (sys.run pre) m) :
    I (sys.run moves) := by
  induction moves using List.reverseRecOn with
  | nil => exact h
  | append_singleton ms m ih =>
    have hms : I (sys.run ms) := ih fun pre m' post he =>
      hc pre m' (post ++ [m]) (by simp [he])
    rw [run_append]
    exact hstep _ m hms (hc ms m [] rfl)

/-- What a move may do: nothing, drop a call, or one statement of an open call. -/
theorem step_cases (sys : System κ σ ε ρ) (m : Move) :
    sys.step m = sys ∨
    (∃ t x, m = .cutOff t ∧ sys.slots[t]? = some (.running x) ∧
      sys.step m = ⟨sys.committed, sys.slots.set t (.finished none)⟩) ∨
    ∃ t x, m = .advance t ∧ sys.slots[t]? = some (.running x) ∧
      sys.step m = ⟨(x.advance (sys.heldByOthers t) sys.committed).1,
        sys.slots.set t (x.advance (sys.heldByOthers t) sys.committed).2⟩ := by
  cases m with
  | advance t =>
    rcases h : sys.slots[t]? with _ | (x | r)
    · exact .inl (by simp [System.step, h])
    · exact .inr (.inr ⟨t, x, rfl, h, by simp [System.step, h]⟩)
    · exact .inl (by simp [System.step, h])
  | cutOff t =>
    rcases h : sys.slots[t]? with _ | (x | r)
    · exact .inl (by simp [System.step, h])
    · exact .inr (.inl ⟨t, x, rfl, h, by simp [System.step, h]⟩)
    · exact .inl (by simp [System.step, h])

/-- Where an open call comes from: it was open and did not move, or it has just advanced. -/
theorem running_step {sys : System κ σ ε ρ} {m : Move} {t : ℕ} {x' : Session κ σ ε ρ}
    (h : (sys.step m).slots[t]? = some (.running x')) :
    (m ≠ .advance t ∧ sys.slots[t]? = some (.running x')) ∨
      ∃ x, m = .advance t ∧ sys.slots[t]? = some (.running x) ∧
        (x.advance (sys.heldByOthers t) sys.committed).2 = .running x' := by
  by_cases hm : m = .advance t
  · subst hm
    rcases hs : sys.slots[t]? with _ | (x | r)
    · simp [System.step, hs] at h
    · have ht := (List.getElem?_eq_some_iff.mp hs).1
      refine .inr ⟨x, rfl, rfl, ?_⟩
      simp only [System.step, hs, List.getElem?_set_self ht] at h
      exact Option.some.inj h
    · simp [System.step, hs] at h
  · refine .inl ⟨hm, ?_⟩
    rcases step_cases sys m with he | ⟨u, x, -, -, he⟩ | ⟨u, x, hu, -, he⟩
    · rwa [he] at h
    · rw [he, List.getElem?_set] at h
      split_ifs at h with htu hlt <;> first | exact h | simp at h
    · rw [he, List.getElem?_set] at h
      have hne : u ≠ t := fun htu => hm (htu ▸ hu)
      rwa [if_neg hne] at h

/-- Where an open call goes: on, to a stop, or to its end. -/
theorem step_slot {sys : System κ σ ε ρ} (m : Move) {t : ℕ} {x : Session κ σ ε ρ}
    (h : sys.slots[t]? = some (.running x)) :
    (∃ x', (sys.step m).slots[t]? = some (.running x')) ∨ m = .cutOff t ∨
      (m = .advance t ∧ ((∃ e, x.rest = .throw e) ∨
        ∃ r, x.rest = .pure r ∧ (sys.step m).committed = x.pending sys.committed)) := by
  have ht := (List.getElem?_eq_some_iff.mp h).1
  rcases step_cases sys m with he | ⟨u, y, hm, hy, he⟩ | ⟨u, y, hm, hy, he⟩
  · exact .inl ⟨x, by rw [he]; exact h⟩
  · by_cases hut : u = t
    · exact .inr (.inl (hut ▸ hm))
    · exact .inl ⟨x, by rw [he, List.getElem?_set_ne hut]; exact h⟩
  · by_cases hut : u = t
    · subst hut
      obtain rfl : x = y := by simpa using h.symm.trans hy
      rw [he, List.getElem?_set_self ht]
      cases hr : x.rest with
      | pure r => exact .inr (.inr ⟨hm, .inr ⟨r, rfl, by simp [Session.advance, hr]⟩⟩)
      | throw e => exact .inr (.inr ⟨hm, .inl ⟨e, rfl⟩⟩)
      | select q k =>
        simp only [Session.advance, hr]
        exact .inl ⟨_, rfl⟩
      | write l q w k =>
        simp only [Session.advance, hr]
        split_ifs <;> exact .inl ⟨_, rfl⟩
      | commit k =>
        simp only [Session.advance, hr]
        split_ifs <;> exact .inl ⟨_, rfl⟩
    · exact .inl ⟨x, by rw [he, List.getElem?_set_ne hut]; exact h⟩

/-- A property of open calls that advancing keeps, and that `begin` gives, is kept by a step. -/
theorem step_running {Q : ℕ → Session κ σ ε ρ → Prop} {sys : System κ σ ε ρ} (m : Move)
    (h : ∀ t x, sys.slots[t]? = some (.running x) → Q t x)
    (hadv : ∀ t x x', sys.slots[t]? = some (.running x) → Q t x →
      (x.advance (sys.heldByOthers t) sys.committed).2 = .running x' → Q t x') :
    ∀ t x, (sys.step m).slots[t]? = some (.running x) → Q t x := by
  intro t x' hx'
  rcases running_step hx' with ⟨-, hx⟩ | ⟨x, -, hx, hadvance⟩
  · exact h t x' hx
  · exact hadv t x x' hx (h t x hx) hadvance

end step

/-- While the readings of `x` still hold in `s`, its whole program run alone from `s`
goes where `x` has come. -/
structure Session.Faithful (x : Session κ σ ε ρ) : Prop where
  agrees : ∀ s, x.Current s → x.start.exec s s = x.rest.exec s (x.pending s)
  clean : x.dirty = false → x.pending = id

theorem faithful_begin (p : Program κ σ ε ρ) : (Session.begin p).Faithful :=
  ⟨fun _ _ => rfl, fun _ => rfl⟩

theorem faithful_advance [DecidableEq κ] {x x' : Session κ σ ε ρ} (h : x.Faithful)
    {held : List κ} {s : σ} (hx : (x.advance held s).2 = .running x') : x'.Faithful := by
  obtain ⟨hagree, hclean⟩ := h
  cases hr : x.rest with
  | pure r => simp [Session.advance, hr] at hx
  | throw e => simp [Session.advance, hr] at hx
  | select q k =>
    simp only [Session.advance, hr, Slot.running.injEq] at hx
    subst hx
    refine ⟨fun s' hs' => ?_, hclean⟩
    have hq : q (x.pending s') = q (x.pending s) := hs' _ List.mem_cons_self
    have hcur : x.Current s' := fun r hr' => hs' r (List.mem_cons_of_mem _ hr')
    simpa [hr, Program.exec, hq] using hagree s' hcur
  | write l q w k =>
    simp only [Session.advance, hr] at hx
    split_ifs at hx with hl
    · rw [← Slot.running.inj hx]
      exact ⟨hagree, hclean⟩
    · simp only [Slot.running.injEq] at hx
      subst hx
      refine ⟨fun s' hs' => ?_, fun hd => by simp at hd⟩
      have hq : q (x.pending s') = q (x.pending s) := hs' _ List.mem_cons_self
      have hcur : x.Current s' := fun r hr' => hs' r (List.mem_cons_of_mem _ hr')
      simpa [hr, Program.exec, hq] using hagree s' hcur
  | commit k =>
    simp only [Session.advance, hr] at hx
    split_ifs at hx with hd
    · rw [← Slot.running.inj hx]
      exact faithful_begin k
    · simp only [Slot.running.injEq] at hx
      subst hx
      refine ⟨fun s' hs' => ?_, hclean⟩
      have hp := hclean (by simpa using hd)
      simpa [hr, Program.exec, hp] using hagree s' hs'

/-- A call that ends while its readings still hold leaves the rows that running it
alone from there would leave: it takes its place in a serial order. -/
theorem faithful_finish {x : Session κ σ ε ρ} (h : x.Faithful) {s : σ} {r : ρ}
    (hr : x.rest = .pure r) (hcur : x.Current s) :
    x.start.exec s s = .ok (r, s, x.pending s) := by
  rw [h.agrees s hcur, hr]
  rfl

/-- An open call that is one transaction, and has run as that program so far. -/
structure Session.Whole (p : Program κ σ ε ρ) (x : Session κ σ ε ρ) : Prop where
  start : x.start = p
  commitFree : x.rest.CommitFree
  faithful : x.Faithful

theorem whole_begin {p : Program κ σ ε ρ} (hp : p.CommitFree) : (Session.begin p).Whole p :=
  ⟨rfl, hp, faithful_begin p⟩

theorem whole_advance [DecidableEq κ] {p : Program κ σ ε ρ} {x x' : Session κ σ ε ρ}
    (h : x.Whole p) {held : List κ} {s : σ} (hx : (x.advance held s).2 = .running x') :
    x'.Whole p := by
  obtain ⟨hstart, hfree, hfaith⟩ := h
  have hfaith' := faithful_advance hfaith hx
  cases hr : x.rest with
  | pure r => simp [Session.advance, hr] at hx
  | throw e => simp [Session.advance, hr] at hx
  | select q k =>
    simp only [Session.advance, hr, Slot.running.injEq] at hx
    subst hx
    rw [hr] at hfree
    exact ⟨hstart, hfree _, hfaith'⟩
  | write l q w k =>
    simp only [Session.advance, hr] at hx
    split_ifs at hx
    · rw [← Slot.running.inj hx] at hfaith' ⊢
      exact ⟨hstart, hfree, hfaith'⟩
    · simp only [Slot.running.injEq] at hx
      subst hx
      rw [hr] at hfree
      exact ⟨hstart, hfree _, hfaith'⟩
  | commit k =>
    rw [hr] at hfree
    exact hfree.elim

theorem running_begin {s : σ} {calls : List (Program κ σ ε ρ)} {t : ℕ} {x : Session κ σ ε ρ}
    (h : (System.begin s calls).slots[t]? = some (.running x)) :
    ∃ p, calls[t]? = some p ∧ x = .begin p := by
  simp only [System.begin, List.getElem?_map, Option.map_eq_some_iff, Slot.running.injEq] at h
  obtain ⟨p, hp, rfl⟩ := h
  exact ⟨p, hp, rfl⟩

theorem running_faithful [DecidableEq κ] {s : σ} {calls : List (Program κ σ ε ρ)} (moves : List Move)
    {t : ℕ} {x : Session κ σ ε ρ}
    (h : ((System.begin s calls).run moves).slots[t]? = some (.running x)) : x.Faithful := by
  have hrun : ∀ (t : ℕ) (x : Session κ σ ε ρ),
      ((System.begin s calls).run moves).slots[t]? = some (.running x) → x.Faithful := by
    refine run_invariant (I := fun sys => ∀ (t : ℕ) (x : Session κ σ ε ρ),
      sys.slots[t]? = some (.running x) → x.Faithful) (C := fun _ _ => True) ?_ ?_ moves
      fun _ _ _ _ => trivial
    · intro sys m hI _
      exact step_running m hI fun _ _ _ _ hx hadv => faithful_advance hx hadv
    · intro t x hx
      obtain ⟨p, -, rfl⟩ := running_begin hx
      exact faithful_begin p
  exact hrun t x h

theorem running_whole [DecidableEq κ] {s : σ} {calls : List (Program κ σ ε ρ)}
    (hfree : ∀ p ∈ calls, p.CommitFree) (moves : List Move) {t : ℕ} {x : Session κ σ ε ρ}
    (h : ((System.begin s calls).run moves).slots[t]? = some (.running x)) :
    ∃ p, calls[t]? = some p ∧ x.Whole p := by
  have hrun : ∀ (t : ℕ) (x : Session κ σ ε ρ),
      ((System.begin s calls).run moves).slots[t]? = some (.running x) →
        ∃ p, calls[t]? = some p ∧ x.Whole p := by
    refine run_invariant (I := fun sys => ∀ (t : ℕ) (x : Session κ σ ε ρ),
      sys.slots[t]? = some (.running x) → ∃ p, calls[t]? = some p ∧ x.Whole p)
      (C := fun _ _ => True) ?_ ?_ moves fun _ _ _ _ => trivial
    · intro sys m hI _
      refine step_running m hI fun t x x' _ hx hadv => ?_
      obtain ⟨p, hp, hw⟩ := hx
      exact ⟨p, hp, whole_advance hw hadv⟩
    · intro t x hx
      obtain ⟨p, hp, rfl⟩ := running_begin hx
      exact ⟨p, hp, whole_begin (hfree p (List.mem_of_getElem? hp))⟩
  exact hrun t x h

/-- The move that ends call `t` with a result. -/
structure Commits (sys : System κ σ ε ρ) (m : Move) (t : ℕ) (x : Session κ σ ε ρ) (r : ρ) :
    Prop where
  move : m = .advance t
  slot : sys.slots[t]? = some (.running x)
  rest : x.rest = .pure r

/-- With single transactions, a move leaves the committed rows alone or ends a call. -/
theorem step_commits [DecidableEq κ] {sys : System κ σ ε ρ}
    (hfree : ∀ (t : ℕ) x, sys.slots[t]? = some (.running x) → x.rest.CommitFree) (m : Move) :
    ((sys.step m).committed = sys.committed ∧
      ∀ (t : ℕ) (r : ρ), (sys.step m).slots[t]? = some (.finished (some (.ok r))) →
        sys.slots[t]? = some (.finished (some (.ok r)))) ∨
    ∃ t x r, Commits sys m t x r ∧
      sys.step m = ⟨x.pending sys.committed, sys.slots.set t (.finished (some (.ok r)))⟩ := by
  have other {t : ℕ} {y : Slot κ σ ε ρ} (hy : ∀ r, y ≠ .finished (some (.ok r))) :
      ∀ (u : ℕ) (r : ρ), (sys.slots.set t y)[u]? = some (.finished (some (.ok r))) →
        sys.slots[u]? = some (.finished (some (.ok r))) := by
    intro u r hu
    rw [List.getElem?_set] at hu
    split_ifs at hu with htu hlt
    · exact absurd (Option.some.inj hu) (hy r)
    · exact hu
  rcases step_cases sys m with he | ⟨t, x, -, -, he⟩ | ⟨t, x, hm, hx, he⟩
  · exact .inl ⟨by rw [he], fun t r h => by rwa [he] at h⟩
  · rw [he]
    exact .inl ⟨rfl, other (by simp)⟩
  · rw [he]
    cases hr : x.rest with
    | pure r =>
      refine .inr ⟨t, x, r, ⟨hm, hx, hr⟩, ?_⟩
      simp [Session.advance, hr]
    | throw e => exact .inl ⟨by simp [Session.advance, hr], other (by simp [Session.advance, hr])⟩
    | select q k => exact .inl ⟨by simp [Session.advance, hr], other (by simp [Session.advance, hr])⟩
    | write l q w k =>
      refine .inl ⟨?_, other ?_⟩
      · simp only [Session.advance, hr]
        split_ifs <;> rfl
      · simp only [Session.advance, hr]
        split_ifs <;> simp
    | commit k =>
      have := hfree t x hx
      rw [hr] at this
      exact this.elim

/-- Every path of a program reaches its commits with `P`, of the result it returns there,
what it read and what it is about to apply, when each statement sees rows that satisfy `J`. -/
def EveryCommit (J : σ → Prop) (P : Option ρ → List (Reading σ) → (σ → σ) → Prop) :
    Program κ σ ε ρ → Bool → List (Reading σ) → (σ → σ) → Prop
  | .pure r, _, rs, f => P (some r) rs f
  | .throw _, _, _, _ => True
  | .select q k, d, rs, f =>
      ∀ s, J s → EveryCommit J P (k (q (f s))) d (⟨q ∘ f, q (f s)⟩ :: rs) f
  | .write _ q w k, _, rs, f =>
      ∀ s, J s → EveryCommit J P (k (q (f s))) true (⟨q ∘ f, q (f s)⟩ :: rs) (w (q (f s)) ∘ f)
  | .commit k, true, rs, f => P none rs f ∧ EveryCommit J P k false [] id
  | .commit k, false, rs, f => EveryCommit J P k false rs f

def Session.Keeps (J : σ → Prop) (P : Option ρ → List (Reading σ) → (σ → σ) → Prop)
    (x : Session κ σ ε ρ) : Prop :=
  EveryCommit J P x.rest x.dirty x.readings x.pending

/-- A program of reads alone, each of them `D` whatever it answers. -/
def ReadsOnly (D : Reading σ → Prop) : Program κ σ ε ρ → Prop
  | .pure _ => True
  | .throw _ => True
  | .select q k => ∀ a, D ⟨q, a⟩ ∧ ReadsOnly D (k a)
  | .write .. => False
  | .commit _ => False

section everyCommit
variable {J : σ → Prop} {P : Option ρ → List (Reading σ) → (σ → σ) → Prop} {d : Bool}
  {rs : List (Reading σ)} {g : σ → σ} {τ : Type}

theorem everyCommit_refuse_bind {e : Option ε} {f : Unit → Program κ σ ε ρ}
    (h : EveryCommit J P (f ()) d rs g) :
    EveryCommit J P (Program.refuse e >>= f) d rs g := by
  cases e
  · exact h
  · trivial

/-- The same, where what was refused matters. -/
theorem everyCommit_guard_bind {e : Option ε} {f : Unit → Program κ σ ε ρ}
    (h : e = none → EveryCommit J P (f ()) d rs g) :
    EveryCommit J P (Program.refuse e >>= f) d rs g := by
  cases e with
  | none => exact h rfl
  | some e => trivial

/-- What is made of the result is no statement. -/
theorem everyCommit_map {υ : Type} {f : ρ → υ} {P : Option υ → List (Reading σ) → (σ → σ) → Prop}
    {p : Program κ σ ε ρ} (h : EveryCommit J (fun r rs g => P (r.map f) rs g) p d rs g) :
    EveryCommit J P (f <$> p) d rs g := by
  rw [map_eq_pure_bind]
  induction p generalizing d rs g with
  | pure r => exact h
  | throw e => trivial
  | select q k ih => exact fun s hs => ih _ (h s hs)
  | write l q w k ih => exact fun s hs => ih _ (h s hs)
  | commit k ih =>
    cases d with
    | false => exact ih h
    | true => exact ⟨h.1, ih h.2⟩

theorem everyCommit_commitNow {f : Unit → Program κ σ ε ρ} (h : P none rs g)
    (hrest : EveryCommit J P (f ()) false [] id) :
    EveryCommit J P (Program.commitNow >>= f) true rs g := ⟨h, hrest⟩

theorem everyCommit_orThrow_bind {o : Option τ} {e : ε} {f : τ → Program κ σ ε ρ}
    (h : ∀ a, o = some a → EveryCommit J P (f a) d rs g) :
    EveryCommit J P (Program.orThrow o e >>= f) d rs g := by
  cases o
  · trivial
  · exact h _ rfl

theorem everyCommit_query_bind {q : σ → τ} {f : τ → Program κ σ ε ρ}
    (h : ∀ s, J s → EveryCommit J P (f (q (g s))) d (⟨q ∘ g, q (g s)⟩ :: rs) g) :
    EveryCommit J P (Program.query q >>= f) d rs g := h

theorem everyCommit_modify_bind {l : σ → List κ} {w : σ → σ} {f : Unit → Program κ σ ε ρ}
    (h : ∀ s, J s → EveryCommit J P (f ()) true (⟨(fun _ => ()) ∘ g, ()⟩ :: rs) (w ∘ g)) :
    EveryCommit J P (Program.modify l w >>= f) d rs g := h

/-- A write that answers on the rows it found. -/
theorem everyCommit_write_bind {l : σ → List κ} {q : σ → τ} {w : τ → σ → σ}
    {f : τ → Program κ σ ε ρ}
    (h : ∀ s, J s → EveryCommit J P (f (q (g s))) true (⟨q ∘ g, q (g s)⟩ :: rs) (w (q (g s)) ∘ g)) :
    EveryCommit J P (Program.write l q w .pure >>= f) d rs g := h

theorem everyCommit_modifyChecked_bind {l : σ → List κ} {q : σ → Except ε τ} {w : σ → σ}
    {f : τ → Program κ σ ε ρ}
    (h : ∀ s, J s → ∀ a, q (g s) = .ok a →
      EveryCommit J P (f a) true (⟨q ∘ g, .ok a⟩ :: rs) (w ∘ g)) :
    EveryCommit J P (Program.modifyChecked l q w >>= f) d rs g := by
  intro s hs
  change EveryCommit J P (Program.bind _ f) _ _ _
  cases hq : q (g s) with
  | error e => trivial
  | ok a => exact h s hs a hq

/-- What reading returned is what it returns wherever all of it still reads the same. -/
theorem everyCommit_reads_bind {D : Reading σ → Prop} {p : Program κ σ ε τ} (hp : ReadsOnly D p)
    {f : τ → Program κ σ ε ρ}
    (h : ∀ r new, (∀ x ∈ new, D x) →
      (∀ v, (∀ x ∈ new, x.Current v) → p.exec v v = .ok (r, v, v)) →
      EveryCommit J P (f r) d (new ++ rs) id) :
    EveryCommit J P (p >>= f) d rs id := by
  induction p generalizing rs with
  | pure r => exact h r [] (fun _ hx => absurd hx List.not_mem_nil) fun _ _ => rfl
  | throw e => trivial
  | select q k ih =>
    intro s _
    refine ih (q s) (hp (q s)).2 fun r new hnew hexec => ?_
    have hrest := h r (new ++ [⟨q, q s⟩]) ?_ ?_
    · rwa [List.append_assoc] at hrest
    · intro x hx
      rcases List.mem_append.mp hx with hx | hx
      · exact hnew x hx
      · obtain rfl := List.mem_singleton.mp hx
        exact (hp (q s)).1
    · intro v hv
      have hq : q v = q s := hv ⟨q, q s⟩ (List.mem_append_right _ (List.mem_singleton.mpr rfl))
      have hk := hexec v fun x hx => hv x (List.mem_append_left _ hx)
      rw [← hq] at hk
      exact hk
  | write l q w k ih => exact hp.elim
  | commit k ih => exact hp.elim

end everyCommit

theorem keeps_advance [DecidableEq κ] {J : σ → Prop} {P : Option ρ → List (Reading σ) → (σ → σ) → Prop}
    {x x' : Session κ σ ε ρ} (h : x.Keeps J P) {held : List κ} {s : σ} (hs : J s)
    (hx : (x.advance held s).2 = .running x') : x'.Keeps J P := by
  unfold Session.Keeps at h ⊢
  cases hr : x.rest with
  | pure r => simp [Session.advance, hr] at hx
  | throw e => simp [Session.advance, hr] at hx
  | select q k =>
    simp only [Session.advance, hr, Slot.running.injEq] at hx
    subst hx
    rw [hr] at h
    exact h s hs
  | write l q w k =>
    simp only [Session.advance, hr] at hx
    split_ifs at hx with hl
    · rw [← Slot.running.inj hx]
      exact h
    · simp only [Slot.running.injEq] at hx
      subst hx
      rw [hr] at h
      exact h s hs
  | commit k =>
    simp only [Session.advance, hr] at hx
    rw [hr] at h
    split_ifs at hx with hd
    · rw [hd] at h
      rw [← Slot.running.inj hx]
      exact h.2
    · simp only [Bool.not_eq_true] at hd
      rw [hd] at h
      simp only [Slot.running.injEq] at hx
      subst hx
      rw [hd]
      exact h

theorem keeps_return {J : σ → Prop} {P : Option ρ → List (Reading σ) → (σ → σ) → Prop}
    {x : Session κ σ ε ρ} (h : x.Keeps J P) {r : ρ} (hr : x.rest = .pure r) :
    P (some r) x.readings x.pending := by
  unfold Session.Keeps at h
  rw [hr] at h
  exact h

/-- An open call that is about to apply what it has pending: by returning, or at a commit
in its midst. -/
inductive Session.Applies (x : Session κ σ ε ρ) : Option ρ → Prop
  | returns {r : ρ} (hr : x.rest = .pure r) : x.Applies (some r)
  | commits {k : Program κ σ ε ρ} (hr : x.rest = .commit k) (hd : x.dirty = true) : x.Applies none

/-- The move at which call `t` applies what it has pending. -/
structure Applied (sys : System κ σ ε ρ) (m : Move) (t : ℕ) (x : Session κ σ ε ρ)
    (r : Option ρ) : Prop where
  move : m = .advance t
  slot : sys.slots[t]? = some (.running x)
  applies : x.Applies r

theorem keeps_applies {J : σ → Prop} {P : Option ρ → List (Reading σ) → (σ → σ) → Prop}
    {x : Session κ σ ε ρ} (h : x.Keeps J P) {r : Option ρ} (hr : x.Applies r) :
    P r x.readings x.pending := by
  cases hr with
  | returns hr => exact keeps_return h hr
  | commits hr hd =>
    unfold Session.Keeps at h
    rw [hr, hd] at h
    exact h.1

/-- A move leaves the committed rows and the results alone, or applies what one call has
pending. -/
theorem step_applies [DecidableEq κ] (sys : System κ σ ε ρ) (m : Move) :
    ((sys.step m).committed = sys.committed ∧
      ∀ (t : ℕ) (r : ρ), (sys.step m).slots[t]? = some (.finished (some (.ok r))) →
        sys.slots[t]? = some (.finished (some (.ok r)))) ∨
    ∃ t x r, Applied sys m t x r ∧ (sys.step m).committed = x.pending sys.committed ∧
      ∀ (u : ℕ) (r' : ρ), (sys.step m).slots[u]? = some (.finished (some (.ok r'))) →
        sys.slots[u]? = some (.finished (some (.ok r'))) ∨ (u = t ∧ r = some r') := by
  have other {t : ℕ} {y : Slot κ σ ε ρ} (hy : ∀ r, y ≠ .finished (some (.ok r))) :
      ∀ (u : ℕ) (r : ρ), (sys.slots.set t y)[u]? = some (.finished (some (.ok r))) →
        sys.slots[u]? = some (.finished (some (.ok r))) := by
    intro u r hu
    rw [List.getElem?_set] at hu
    split_ifs at hu with htu hlt
    · exact absurd (Option.some.inj hu) (hy r)
    · exact hu
  rcases step_cases sys m with he | ⟨t, x, -, -, he⟩ | ⟨t, x, hm, hx, he⟩
  · exact .inl ⟨by rw [he], fun t r h => by rwa [he] at h⟩
  · rw [he]
    exact .inl ⟨rfl, other (by simp)⟩
  · rw [he]
    cases hr : x.rest with
    | pure r =>
      have hadv : x.advance (sys.heldByOthers t) sys.committed =
          (x.pending sys.committed, .finished (some (.ok r))) := by simp [Session.advance, hr]
      rw [hadv]
      refine .inr ⟨t, x, some r, ⟨hm, hx, .returns hr⟩, rfl, fun u r' hu => ?_⟩
      rw [List.getElem?_set] at hu
      split_ifs at hu with htu hlt
      · exact .inr ⟨htu.symm, by simpa using hu⟩
      · exact .inl hu
    | throw e => exact .inl ⟨by simp [Session.advance, hr], other (by simp [Session.advance, hr])⟩
    | select q k => exact .inl ⟨by simp [Session.advance, hr], other (by simp [Session.advance, hr])⟩
    | write l q w k =>
      refine .inl ⟨?_, other ?_⟩
      · simp only [Session.advance, hr]
        split_ifs <;> rfl
      · simp only [Session.advance, hr]
        split_ifs <;> simp
    | commit k =>
      by_cases hd : x.dirty = true
      · have hadv : x.advance (sys.heldByOthers t) sys.committed =
            (x.pending sys.committed, .running (.begin k)) := by simp [Session.advance, hr, hd]
        rw [hadv]
        exact .inr ⟨t, x, none, ⟨hm, hx, .commits hr hd⟩, rfl,
          fun u r' hu => .inl (other (by simp) u r' hu)⟩
      · exact .inl ⟨by simp [Session.advance, hr, hd], other (by simp [Session.advance, hr, hd])⟩

/-- Every path of a program either returns with nothing pending or reaches its first commit
with `P`, of what it read, what it is about to apply, and what is left to do. -/
def FirstCommit (P : List (Reading σ) → (σ → σ) → Program κ σ ε ρ → Prop) :
    Program κ σ ε ρ → Bool → List (Reading σ) → (σ → σ) → Prop
  | .pure _, d, _, _ => d = false
  | .throw _, _, _, _ => True
  | .select q k, d, rs, f => ∀ s, FirstCommit P (k (q (f s))) d (⟨q ∘ f, q (f s)⟩ :: rs) f
  | .write _ q w k, _, rs, f =>
      ∀ s, FirstCommit P (k (q (f s))) true (⟨q ∘ f, q (f s)⟩ :: rs) (w (q (f s)) ∘ f)
  | .commit k, true, rs, f => P rs f k
  | .commit k, false, rs, f => FirstCommit P k false rs f

structure Session.Opens (P : List (Reading σ) → (σ → σ) → Program κ σ ε ρ → Prop)
    (x : Session κ σ ε ρ) : Prop where
  first : FirstCommit P x.rest x.dirty x.readings x.pending
  clean : x.dirty = false → x.pending = id

section firstCommit
variable {P : List (Reading σ) → (σ → σ) → Program κ σ ε ρ → Prop}

theorem opens_begin {p : Program κ σ ε ρ} (h : FirstCommit P p false [] id) :
    (Session.begin p).Opens P := ⟨h, fun _ => rfl⟩

/-- Until its first commit a call keeps heading for it; after it, what is left begins anew. -/
theorem opens_advance [DecidableEq κ] {x x' : Session κ σ ε ρ} (h : x.Opens P) {held : List κ}
    {s : σ} (hx : (x.advance held s).2 = .running x') :
    x'.Opens P ∨ ∃ k, x.rest = .commit k ∧ x.dirty = true ∧ x' = .begin k ∧
      P x.readings x.pending k := by
  obtain ⟨hfirst, hclean⟩ := h
  cases hr : x.rest with
  | pure r => simp [Session.advance, hr] at hx
  | throw e => simp [Session.advance, hr] at hx
  | select q k =>
    simp only [Session.advance, hr, Slot.running.injEq] at hx
    subst hx
    rw [hr] at hfirst
    exact .inl ⟨hfirst s, hclean⟩
  | write l q w k =>
    simp only [Session.advance, hr] at hx
    split_ifs at hx with hl
    · rw [← Slot.running.inj hx]
      exact .inl ⟨hfirst, hclean⟩
    · simp only [Slot.running.injEq] at hx
      subst hx
      rw [hr] at hfirst
      exact .inl ⟨hfirst s, fun hd => by simp at hd⟩
  | commit k =>
    simp only [Session.advance, hr] at hx
    rw [hr] at hfirst
    split_ifs at hx with hd
    · rw [hd] at hfirst
      exact .inr ⟨k, rfl, hd, (Slot.running.inj hx).symm, hfirst⟩
    · simp only [Bool.not_eq_true] at hd
      rw [hd] at hfirst
      simp only [Slot.running.injEq] at hx
      subst hx
      exact .inl ⟨by rw [hd]; exact hfirst, hclean⟩

/-- What such a call applies before its first commit is nothing. -/
theorem opens_applies {x : Session κ σ ε ρ} (h : x.Opens P) {r : Option ρ} (hr : x.Applies r) :
    x.pending = id ∨ ∃ k, x.rest = .commit k ∧ P x.readings x.pending k := by
  obtain ⟨hfirst, hclean⟩ := h
  cases hr with
  | returns hr =>
    rw [hr] at hfirst
    exact .inl (hclean hfirst)
  | commits hr hd =>
    rw [hr, hd] at hfirst
    exact .inr ⟨_, hr, hfirst⟩

end firstCommit

section slots
variable [DecidableEq κ] {sys : System κ σ ε ρ} {m : Move} {t : ℕ}

/-- What has returned stays returned. -/
theorem finished_step {r : Option (Except ε ρ)} (h : sys.slots[t]? = some (.finished r)) :
    (sys.step m).slots[t]? = some (.finished r) := by
  rcases step_cases sys m with hsame | ⟨u, x, -, hslot, hstep⟩ | ⟨u, x, -, hslot, hstep⟩
  · rwa [hsame]
  all_goals
    have hne : u ≠ t := by
      rintro rfl
      cases hslot.symm.trans h
    rw [hstep, List.getElem?_set_ne hne]
    exact h

theorem length_run (sys : System κ σ ε ρ) (moves : List Move) :
    (sys.run moves).slots.length = sys.slots.length := by
  refine run_invariant (I := fun now => now.slots.length = sys.slots.length) (C := fun _ _ => True)
    (fun now m hnow _ => ?_) rfl moves fun _ _ _ _ => trivial
  rcases step_cases now m with hsame | ⟨_, _, -, -, hstep⟩ | ⟨_, _, -, -, hstep⟩
  · rwa [hsame]
  · rw [hstep]
    simpa using hnow
  · rw [hstep]
    simpa using hnow

end slots

end Akabbo.ReadCommitted
