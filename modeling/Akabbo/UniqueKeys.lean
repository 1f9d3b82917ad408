import Akabbo.CommitOrder

/-!
# Unique keys among overlapping calls

A write that adds a key locks it, and has found it free. The lock is held to the end of the
transaction, so a key that a call is about to add stays free until that call commits it.
-/
namespace Akabbo.UniqueKeys
open StatementProgram ReadCommitted CommitOrder

variable {κ σ ε ρ τ : Type}

section keys
variable (taken : κ → σ → Prop)

/-- A change that gives no key back. -/
def Grows (f : σ → σ) : Prop := ∀ k v, taken k v → taken k (f v)

def Adds (f : σ → σ) (k : κ) : Prop := ∃ v, ¬ taken k v ∧ taken k (f v)

/-- Every write locks the keys that it adds, and has found them free. -/
def LocksKeys : Program κ σ ε ρ → Prop
  | .pure _ => True
  | .throw _ => True
  | .select _ k => ∀ a, LocksKeys (k a)
  | .write l q w k => (∀ s, Grows taken (w (q s)) ∧
      ∀ key, Adds taken (w (q s)) key → key ∈ l s ∧ ¬ taken key s) ∧ ∀ a, LocksKeys (k a)
  | .commit k => LocksKeys k

end keys

section rules
variable {taken : κ → σ → Prop}

theorem grows_id : Grows taken id := fun _ _ h => h

theorem grows_comp {f g : σ → σ} (hf : Grows taken f) (hg : Grows taken g) : Grows taken (f ∘ g) :=
  fun k v h => hf k _ (hg k v h)

theorem not_adds_id (k : κ) : ¬ Adds taken id k := fun ⟨_, hfree, htaken⟩ => hfree htaken

/-- A key that two changes add is one that either of them adds. -/
theorem adds_comp {f g : σ → σ} {k : κ} (h : Adds taken (f ∘ g) k) :
    Adds taken g k ∨ Adds taken f k := by
  obtain ⟨v, hfree, htaken⟩ := h
  by_cases hg : taken k (g v)
  · exact .inl ⟨v, hfree, hg⟩
  · exact .inr ⟨g v, hg, htaken⟩

theorem locksKeys_bind {p : Program κ σ ε ρ} {f : ρ → Program κ σ ε τ} (hp : LocksKeys taken p)
    (hf : ∀ r, LocksKeys taken (f r)) : LocksKeys taken (p >>= f) := by
  induction p with
  | pure r => exact hf r
  | throw e => trivial
  | select q k ih => exact fun a => ih a (hp a)
  | write l q w k ih => exact ⟨hp.1, fun a => ih a (hp.2 a)⟩
  | commit k ih => exact ih hp

theorem locksKeys_refuse (e : Option ε) :
    LocksKeys taken (Program.refuse e : Program κ σ ε Unit) := by
  cases e <;> trivial

theorem locksKeys_orThrow (o : Option ρ) (e : ε) :
    LocksKeys taken (Program.orThrow o e : Program κ σ ε ρ) := by
  cases o <;> trivial

theorem locksKeys_runIf {b : Bool} {p : Program κ σ ε Unit} (hp : LocksKeys taken p) :
    LocksKeys taken (Program.runIf b p) := by
  cases b
  · trivial
  · exact hp

/-- An INSERT or UPDATE that fails where it finds one of its keys taken. -/
theorem locksKeys_modifyChecked {l : σ → List κ} {q : σ → Except ε τ} {w : σ → σ}
    (hgrows : Grows taken w)
    (hadds : ∀ s a, q s = .ok a → ∀ k, Adds taken w k → k ∈ l s ∧ ¬ taken k s) :
    LocksKeys taken (Program.modifyChecked l q w) := by
  refine ⟨fun s => ?_, fun a => ?_⟩
  · cases hq : q s with
    | ok a => exact ⟨hgrows, hadds s a hq⟩
    | error e => exact ⟨grows_id, fun k hk => absurd hk (not_adds_id k)⟩
  · cases a <;> trivial

end rules

/-- The keys that a session is about to add are locked by it and free in `s`. -/
structure Guarded (taken : κ → σ → Prop) (x : Session κ σ ε ρ) (s : σ) : Prop where
  rest : LocksKeys taken x.rest
  grows : Grows taken x.pending
  adds : ∀ k, Adds taken x.pending k → k ∈ x.locks ∧ ¬ taken k s

section sessions
variable {taken : κ → σ → Prop} {x x' y : Session κ σ ε ρ} {s : σ}

theorem guarded_begin {p : Program κ σ ε ρ} (hp : LocksKeys taken p) :
    Guarded taken (Session.begin p) s :=
  ⟨hp, grows_id, fun k hk => absurd hk (not_adds_id k)⟩

/-- What another session commits adds none of the keys that this one has locked. -/
theorem guarded_other (h : Guarded taken y s) (hx : Guarded taken x s)
    (hdisjoint : ∀ k ∈ x.locks, k ∉ y.locks) : Guarded taken y (x.pending s) := by
  refine ⟨h.rest, h.grows, fun k hk => ?_⟩
  obtain ⟨hlock, hfree⟩ := h.adds k hk
  exact ⟨hlock, fun htaken => hdisjoint k (hx.adds k ⟨s, hfree, htaken⟩).1 hlock⟩

variable [DecidableEq κ]

theorem guarded_advance (h : Guarded taken x s) {held : List κ}
    (hx : (x.advance held s).2 = .running x') : Guarded taken x' (x.advance held s).1 := by
  have hrest := h.rest
  cases hr : x.rest with
  | pure r => simp [Session.advance, hr] at hx
  | throw e => simp [Session.advance, hr] at hx
  | select q k =>
    simp only [Session.advance, hr, Slot.running.injEq] at hx ⊢
    subst hx
    rw [hr] at hrest
    exact ⟨hrest _, h.grows, h.adds⟩
  | write l q w k =>
    simp only [Session.advance, hr] at hx ⊢
    split_ifs at hx ⊢
    · rw [← Slot.running.inj hx]
      exact h
    · simp only [Slot.running.injEq] at hx
      subst hx
      rw [hr] at hrest
      obtain ⟨hgrows, hadds⟩ := hrest.1 (x.pending s)
      have hboth : Grows taken (w (q (x.pending s)) ∘ x.pending) := grows_comp hgrows h.grows
      refine ⟨hrest.2 _, hboth, fun key (hkey : Adds taken (w (q (x.pending s)) ∘ x.pending) key) => ?_⟩
      rcases adds_comp hkey with hold | hnew
      · obtain ⟨hlock, hfree⟩ := h.adds key hold
        exact ⟨List.mem_append_right _ hlock, hfree⟩
      · obtain ⟨hlock, hfree⟩ := hadds key hnew
        exact ⟨List.mem_append_left _ hlock, fun htaken => hfree (h.grows key s htaken)⟩
  | commit k =>
    rw [hr] at hrest
    simp only [Session.advance, hr] at hx ⊢
    split_ifs at hx ⊢
    · rw [← Slot.running.inj hx]
      exact guarded_begin hrest
    · simp only [Slot.running.injEq] at hx
      subst hx
      exact ⟨hrest, h.grows, h.adds⟩

theorem locks_advance {held : List κ} (hx : (x.advance held s).2 = .running x') {k : κ}
    (hk : k ∈ x'.locks) : k ∈ x.locks ∨ k ∉ held := by
  cases hr : x.rest with
  | pure r => simp [Session.advance, hr] at hx
  | throw e => simp [Session.advance, hr] at hx
  | select q k' =>
    simp only [Session.advance, hr, Slot.running.injEq] at hx
    subst hx
    exact .inl hk
  | write l q w k' =>
    simp only [Session.advance, hr] at hx
    split_ifs at hx with hheld
    · rw [← Slot.running.inj hx] at hk
      exact .inl hk
    · simp only [Slot.running.injEq] at hx
      subst hx
      rcases List.mem_append.mp hk with hk | hk
      · exact .inr fun hmem => hheld (List.any_eq_true.mpr ⟨k, hk, by simpa using hmem⟩)
      · exact .inl hk
  | commit k' =>
    simp only [Session.advance, hr] at hx
    split_ifs at hx
    · rw [← Slot.running.inj hx] at hk
      cases hk
    · simp only [Slot.running.injEq] at hx
      subst hx
      exact .inl hk

end sessions

/-- No two open calls hold one lock, and each guards the keys that it is about to add. -/
structure Held (taken : κ → σ → Prop) (sys : System κ σ ε ρ) : Prop where
  exclusive : ∀ (t u : ℕ) x y, t ≠ u → sys.slots[t]? = some (.running x) →
    sys.slots[u]? = some (.running y) → ∀ k ∈ x.locks, k ∉ y.locks
  guarded : ∀ (t : ℕ) x, sys.slots[t]? = some (.running x) → Guarded taken x sys.committed

section systems
variable {taken : κ → σ → Prop} {sys : System κ σ ε ρ}

theorem mem_heldByOthers {t u : ℕ} {y : Session κ σ ε ρ} (hne : u ≠ t)
    (hy : sys.slots[u]? = some (.running y)) {k : κ} (hk : k ∈ y.locks) :
    k ∈ sys.heldByOthers t := by
  have hmem : Slot.running y ∈ sys.slots.eraseIdx t :=
    List.mem_eraseIdx_iff_getElem?.mpr ⟨u, hne, hy⟩
  exact List.mem_flatMap.mpr ⟨_, hmem, hk⟩

variable [DecidableEq κ]

theorem held_step (h : Held taken sys) (m : Move) : Held taken (sys.step m) where
  exclusive t u x' y' hne hx' hy' k hk hk' := by
    rcases running_step hx' with ⟨-, hx⟩ | ⟨x, hm, hx, hadvx⟩
    · rcases running_step hy' with ⟨-, hy⟩ | ⟨y, -, hy, hadvy⟩
      · exact h.exclusive t u _ _ hne hx hy k hk hk'
      · rcases locks_advance hadvy hk' with hk' | hheld
        · exact h.exclusive t u _ _ hne hx hy k hk hk'
        · exact hheld (mem_heldByOthers hne hx hk)
    · rcases running_step hy' with ⟨-, hy⟩ | ⟨y, hm', hy, -⟩
      · rcases locks_advance hadvx hk with hk | hheld
        · exact h.exclusive t u _ _ hne hx hy k hk hk'
        · exact hheld (mem_heldByOthers (Ne.symm hne) hy hk')
      · exact hne (Move.advance.inj (hm.symm.trans hm'))
  guarded t x' hx' := by
    rcases running_step hx' with ⟨hm, hx⟩ | ⟨x, hm, hx, hadv⟩
    · have hguarded := h.guarded t x' hx
      rcases step_applies sys m with ⟨hsame, -⟩ | ⟨u, y, r, happ, hcommitted, -⟩
      · rw [hsame]
        exact hguarded
      · have hne : u ≠ t := fun hut => hm (hut ▸ happ.move)
        rw [hcommitted]
        exact guarded_other hguarded (h.guarded u y happ.slot)
          (h.exclusive u t y x' hne happ.slot hx)
    · subst hm
      have hcommitted : (sys.step (.advance t)).committed =
          (x.advance (sys.heldByOthers t) sys.committed).1 := by simp [System.step, hx]
      rw [hcommitted]
      exact guarded_advance (h.guarded t x hx) hadv

theorem held_run {s : σ} {calls : List (Program κ σ ε ρ)} (hcalls : ∀ p ∈ calls, LocksKeys taken p)
    (moves : List Move) : Held taken ((System.begin s calls).run moves) := by
  refine run_invariant (I := Held taken) (C := fun _ _ => True) (fun _ m h _ => held_step h m) ?_ moves
    fun _ _ _ _ => trivial
  refine ⟨fun t u x y _ hx _ k hk => ?_, fun t x hx => ?_⟩
  · obtain ⟨p, -, rfl⟩ := running_begin hx
    cases hk
  · obtain ⟨p, hp, rfl⟩ := running_begin hx
    exact guarded_begin (hcalls p (List.mem_of_getElem? hp))

/-- What a call commits adds only keys that are free. -/
theorem applied_adds {s : σ} {calls : List (Program κ σ ε ρ)}
    (hcalls : ∀ p ∈ calls, LocksKeys taken p) {moves : List Move} {m : Move} {t : ℕ}
    {x : Session κ σ ε ρ} {r : Option ρ}
    (happ : Applied ((System.begin s calls).run moves) m t x r) {k : κ}
    (hk : Adds taken x.pending k) : ¬ taken k ((System.begin s calls).run moves).committed :=
  (((held_run hcalls moves).guarded t x happ.slot).adds k hk).2

end systems

section runs
variable {taken : κ → σ → Prop} {request : Type} {program : request → Program κ σ ε ρ}
  {J : σ → Prop} {P : request → Option ρ → List (Reading σ) → (σ → σ) → Prop}
  {requests : List request} {s : σ}

/-- What an open call is known to apply, where every statement has seen rows that satisfy `J`. -/
def RunningKeeps (J : σ → Prop) (P : request → Option ρ → List (Reading σ) → (σ → σ) → Prop)
    (requests : List request) (sys : System κ σ ε ρ) : Prop :=
  ∀ (t : ℕ) x, sys.slots[t]? = some (.running x) →
    ∃ c, requests[t]? = some c ∧ x.Keeps J (P c)

theorem runningKeeps_begin (hkeeps : ∀ c, EveryCommit J (P c) (program c) false [] id) :
    RunningKeeps J P requests (System.begin s (requests.map program)) := by
  intro t x hx
  obtain ⟨p, hp, rfl⟩ := running_begin hx
  rw [List.getElem?_map, Option.map_eq_some_iff] at hp
  obtain ⟨c, hc, rfl⟩ := hp
  exact ⟨c, hc, hkeeps c⟩

variable [DecidableEq κ]

theorem runningKeeps_step {sys : System κ σ ε ρ} (h : RunningKeeps J P requests sys)
    (hJ : J sys.committed) (m : Move) : RunningKeeps J P requests (sys.step m) := by
  refine step_running m h fun t x x' _ hx hadv => ?_
  obtain ⟨c, hc, hx⟩ := hx
  exact ⟨c, hc, keeps_advance hx hJ hadv⟩

/-- An invariant of the committed rows and of the calls that have returned. Each commit adds only
keys that are free, and what was read was read from rows that satisfy the invariant's `J`. -/
theorem run_unique_invariant {I : σ → List (ℕ × ρ) → Prop}
    (hlocks : ∀ c, LocksKeys taken (program c))
    (hkeeps : ∀ c, EveryCommit J (P c) (program c) false [] id)
    (hJ : ∀ v order, I v order → J v) (hbegin : I s [])
    (hstep : ∀ v t r order c rs f, I v order → requests[t]? = some c → P c r rs f →
      (∀ k, Adds taken f k → ¬ taken k v) →
      I (f v) (order ++ (r.map fun r => (t, r)).toList))
    (moves : List Move) :
    I ((System.begin s (requests.map program)).run moves).committed
      (returned (System.begin s (requests.map program)) moves) := by
  have hcalls : ∀ p ∈ requests.map program, LocksKeys taken p := by
    intro p hp
    obtain ⟨c, -, rfl⟩ := List.mem_map.mp hp
    exact hlocks c
  have hboth : I ((System.begin s (requests.map program)).run moves).committed
      (returned (System.begin s (requests.map program)) moves) ∧
      RunningKeeps J P requests ((System.begin s (requests.map program)).run moves) := by
    induction moves using List.reverseRecOn with
    | nil => exact ⟨hbegin, runningKeeps_begin hkeeps⟩
    | append_singleton before m ih =>
      obtain ⟨hI, hrunning⟩ := ih
      have hnext := runningKeeps_step hrunning (hJ _ _ hI) m
      rw [returned_snoc, run_append]
      refine ⟨?_, hnext⟩
      rcases step_ends ((System.begin s (requests.map program)).run before) m with
        ⟨hsame, hends⟩ | ⟨t, x, r, happ, hcommitted, hends⟩
      · rw [hends]
        change I (((System.begin s (requests.map program)).run before).step m).committed (_ ++ [])
        rw [hsame, List.append_nil]
        exact hI
      · obtain ⟨c, hc, hx⟩ := hrunning t x happ.slot
        rw [hends]
        change I (((System.begin s (requests.map program)).run before).step m).committed _
        rw [hcommitted]
        exact hstep _ t r _ c _ _ hI hc (keeps_applies hx happ.applies)
          fun k hk => applied_adds hcalls happ hk
  exact hboth.1

end runs

end Akabbo.UniqueKeys
