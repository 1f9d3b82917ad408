import Akabbo.ReadCommitted

/-!
# The order of commits

The calls of a run in the order in which they return, with their results. An invariant of the
committed rows and of that history follows from what each call applies.
-/
namespace Akabbo.CommitOrder
open StatementProgram ReadCommitted

variable {κ σ ε ρ : Type}

/-- The result with which a move ends a call. -/
def ends (sys : System κ σ ε ρ) : Move → Option (ℕ × ρ)
  | .advance t =>
      match sys.slots[t]? with
      | some (.running x) =>
          match x.rest with
          | .pure r => some (t, r)
          | _ => none
      | _ => none
  | .cutOff _ => none

theorem ends_of_applied {sys : System κ σ ε ρ} {m : Move} {t : ℕ} {x : Session κ σ ε ρ}
    {r : Option ρ} (h : Applied sys m t x r) : ends sys m = r.map fun r => (t, r) := by
  obtain ⟨rfl, hslot, happlies⟩ := h
  cases happlies with
  | returns hr => simp [ends, hslot, hr]
  | commits hr hd => simp [ends, hslot, hr]

theorem ends_eq_some {sys : System κ σ ε ρ} {m : Move} {e : ℕ × ρ} (h : ends sys m = some e) :
    ∃ t x r, m = .advance t ∧ sys.slots[t]? = some (.running x) ∧ x.rest = .pure r ∧
      e = (t, r) := by
  unfold ends at h
  split at h
  · next t =>
    split at h
    · next x hslot =>
      split at h
      · next r hr => exact ⟨t, x, r, rfl, hslot, hr, (Option.some.inj h).symm⟩
      · cases h
    · cases h
  · cases h

section order
variable [DecidableEq κ]

/-- The calls that return during these moves, in order. -/
def returned (sys : System κ σ ε ρ) : List Move → List (ℕ × ρ)
  | [] => []
  | m :: rest => (ends sys m).toList ++ returned (sys.step m) rest

theorem returned_append (sys : System κ σ ε ρ) (xs ys : List Move) :
    returned sys (xs ++ ys) = returned sys xs ++ returned (sys.run xs) ys := by
  induction xs generalizing sys with
  | nil => rfl
  | cons m rest ih =>
    simp only [List.cons_append, returned, ih, List.append_assoc]
    rfl

theorem returned_snoc (sys : System κ σ ε ρ) (before : List Move) (m : Move) :
    returned sys (before ++ [m]) = returned sys before ++ (ends (sys.run before) m).toList := by
  rw [returned_append]
  simp [returned]

theorem committed_of_applied {sys : System κ σ ε ρ} {m : Move} {t : ℕ} {x : Session κ σ ε ρ}
    {r : Option ρ} (h : Applied sys m t x r) : (sys.step m).committed = x.pending sys.committed := by
  obtain ⟨rfl, hslot, happlies⟩ := h
  cases happlies with
  | returns hr => simp [System.step, hslot, Session.advance, hr]
  | commits hr hd => simp [System.step, hslot, Session.advance, hr, hd]

/-- A move does nothing to the committed rows and ends no call, or applies what one call has
pending. -/
theorem step_ends (sys : System κ σ ε ρ) (m : Move) :
    ((sys.step m).committed = sys.committed ∧ ends sys m = none) ∨
    ∃ t x r, Applied sys m t x r ∧ (sys.step m).committed = x.pending sys.committed ∧
      ends sys m = r.map fun r => (t, r) := by
  rcases step_applies sys m with ⟨hsame, -⟩ | ⟨t, x, r, happ, hcommitted, -⟩
  · cases hends : ends sys m with
    | none => exact .inl ⟨hsame, rfl⟩
    | some e =>
      obtain ⟨t, x, r, rfl, hslot, hr, rfl⟩ := ends_eq_some hends
      have happ : Applied sys (.advance t) t x (some r) := ⟨rfl, hslot, .returns hr⟩
      exact .inr ⟨t, x, some r, happ, committed_of_applied happ, rfl⟩
  · exact .inr ⟨t, x, r, happ, hcommitted, ends_of_applied happ⟩

end order

section requests
variable [DecidableEq κ] {request : Type} {program : request → Program κ σ ε ρ}
  {P : request → Option ρ → List (Reading σ) → (σ → σ) → Prop} {requests : List request} {s : σ}

/-- What an open call is known to apply when it next does. -/
theorem running_keeps (hkeeps : ∀ c, EveryCommit (fun _ => True) (P c) (program c) false [] id)
    (moves : List Move) {t : ℕ} {x : Session κ σ ε ρ}
    (hx : ((System.begin s (requests.map program)).run moves).slots[t]? = some (.running x)) :
    ∃ c, requests[t]? = some c ∧ x.Keeps (fun _ => True) (P c) := by
  have hall : ∀ (t : ℕ) x,
      ((System.begin s (requests.map program)).run moves).slots[t]? = some (.running x) →
        ∃ c, requests[t]? = some c ∧ x.Keeps (fun _ => True) (P c) := by
    refine run_invariant (I := fun sys => ∀ (t : ℕ) x, sys.slots[t]? = some (.running x) →
      ∃ c, requests[t]? = some c ∧ x.Keeps (fun _ => True) (P c)) (C := fun _ _ => True) ?_ ?_ moves
      fun _ _ _ _ => trivial
    · intro sys m hI _
      refine step_running m hI fun t x x' _ hx hadv => ?_
      obtain ⟨c, hc, hx⟩ := hx
      exact ⟨c, hc, keeps_advance hx trivial hadv⟩
    · intro t x hx
      obtain ⟨p, hp, rfl⟩ := running_begin hx
      rw [List.getElem?_map, Option.map_eq_some_iff] at hp
      obtain ⟨c, hc, rfl⟩ := hp
      exact ⟨c, hc, hkeeps c⟩
  exact hall t x hx

/-- The request whose call applies something, and what it applies. -/
theorem applied_keeps (hkeeps : ∀ c, EveryCommit (fun _ => True) (P c) (program c) false [] id)
    (moves : List Move) {m : Move} {t : ℕ} {x : Session κ σ ε ρ} {r : Option ρ}
    (happ : Applied ((System.begin s (requests.map program)).run moves) m t x r) :
    ∃ c, requests[t]? = some c ∧ P c r x.readings x.pending := by
  obtain ⟨c, hc, hx⟩ := running_keeps hkeeps moves happ.slot
  exact ⟨c, hc, keeps_applies hx happ.applies⟩

/-- An invariant of the committed rows and of the calls that have returned, kept whenever an open
call applies what it has pending, holds along the run. -/
theorem run_order_invariant {I : σ → List (ℕ × ρ) → Prop} {C : System κ σ ε ρ → Move → Prop}
    (hkeeps : ∀ c, EveryCommit (fun _ => True) (P c) (program c) false [] id) (hbegin : I s [])
    (hstep : ∀ sys m t x r order c, I sys.committed order → C sys m → Applied sys m t x r →
      requests[t]? = some c → P c r x.readings x.pending →
      I (x.pending sys.committed) (order ++ (r.map fun r => (t, r)).toList))
    (moves : List Move)
    (hcond : ∀ before m after, moves = before ++ m :: after →
      C ((System.begin s (requests.map program)).run before) m) :
    I ((System.begin s (requests.map program)).run moves).committed
      (returned (System.begin s (requests.map program)) moves) := by
  induction moves using List.reverseRecOn with
  | nil => exact hbegin
  | append_singleton before m ih =>
    have hbefore := ih fun early m' late he => hcond early m' (late ++ [m]) (by simp [he])
    have hm := hcond before m [] rfl
    rw [returned_snoc, run_append]
    rcases step_ends ((System.begin s (requests.map program)).run before) m with
      ⟨hsame, hends⟩ | ⟨t, x, r, happ, hcommitted, hends⟩
    · rw [hends]
      change I (((System.begin s (requests.map program)).run before).step m).committed (_ ++ [])
      rw [hsame, List.append_nil]
      exact hbefore
    · obtain ⟨c, hc, happlies⟩ := applied_keeps hkeeps before happ
      rw [hends]
      change I (((System.begin s (requests.map program)).run before).step m).committed _
      rw [hcommitted]
      exact hstep _ m t x r _ c hbefore hm happ hc happlies

/-- A single transaction that ends while all it has read still reads the same does what it does
alone from there. -/
theorem applied_exec (hfree : ∀ c, (program c).CommitFree) (moves : List Move) {m : Move} {t : ℕ}
    {x : Session κ σ ε ρ} {r : Option ρ}
    (happ : Applied ((System.begin s (requests.map program)).run moves) m t x r)
    (hcur : x.Current ((System.begin s (requests.map program)).run moves).committed) :
    ∃ c a, requests[t]? = some c ∧ r = some a ∧
      (program c).exec ((System.begin s (requests.map program)).run moves).committed
        ((System.begin s (requests.map program)).run moves).committed =
        .ok (a, ((System.begin s (requests.map program)).run moves).committed,
          x.pending ((System.begin s (requests.map program)).run moves).committed) := by
  have hcalls : ∀ p ∈ requests.map program, p.CommitFree := by
    intro p hp
    obtain ⟨c, -, rfl⟩ := List.mem_map.mp hp
    exact hfree c
  obtain ⟨p, hp, hwhole⟩ := running_whole hcalls moves happ.slot
  rw [List.getElem?_map, Option.map_eq_some_iff] at hp
  obtain ⟨c, hc, rfl⟩ := hp
  cases happ.applies with
  | @returns a hr =>
    have hexec := faithful_finish hwhole.faithful hr hcur
    rw [hwhole.start] at hexec
    exact ⟨c, a, hc, rfl, hexec⟩
  | commits hr _ =>
    have hrest := hwhole.commitFree
    rw [hr] at hrest
    exact hrest.elim

/-- Single transactions that end while all they have read still reads the same take their places
in a serial order: an invariant that each of them keeps alone holds along the run. -/
theorem run_serial_invariant {I : σ → List (ℕ × ρ) → Prop} (hfree : ∀ c, (program c).CommitFree)
    (hbegin : I s [])
    (hstep : ∀ v order t c a v', I v order → requests[t]? = some c →
      (program c).exec v v = .ok (a, v, v') → I v' (order ++ [(t, a)]))
    (moves : List Move)
    (hcurrent : ∀ before m after, moves = before ++ m :: after → ∀ t x r,
      Applied ((System.begin s (requests.map program)).run before) m t x r →
        x.Current ((System.begin s (requests.map program)).run before).committed) :
    I ((System.begin s (requests.map program)).run moves).committed
      (returned (System.begin s (requests.map program)) moves) := by
  induction moves using List.reverseRecOn with
  | nil => exact hbegin
  | append_singleton before m ih =>
    have hbefore := ih fun early m' late he => hcurrent early m' (late ++ [m]) (by simp [he])
    rw [returned_snoc, run_append]
    rcases step_ends ((System.begin s (requests.map program)).run before) m with
      ⟨hsame, hends⟩ | ⟨t, x, r, happ, hcommitted, hends⟩
    · rw [hends]
      change I (((System.begin s (requests.map program)).run before).step m).committed (_ ++ [])
      rw [hsame, List.append_nil]
      exact hbefore
    · obtain ⟨c, a, hc, rfl, hexec⟩ :=
        applied_exec hfree before happ (hcurrent before m [] rfl t x r happ)
      rw [hends]
      change I (((System.begin s (requests.map program)).run before).step m).committed _
      rw [hcommitted]
      exact hstep _ _ t c a _ hbefore hc hexec

end requests

end Akabbo.CommitOrder
