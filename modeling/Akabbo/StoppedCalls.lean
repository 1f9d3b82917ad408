import Akabbo.WeakestPreconditions

/-!
# Calls that end, fail or are stopped

Whether a call comes to its end, what it leaves behind otherwise, and how often something
happens along a run of calls.
-/
namespace Akabbo.StoppedCalls
open StatementProgram StatementProgram.Program ProgramParts WeakestPreconditions

variable {κ σ ε ρ τ : Type}

/-- Whether a call that runs alone has returned after `n` statements. -/
def returnsWithin : ℕ → Program κ σ ε ρ → σ → Bool
  | 0, _, _ => false
  | _ + 1, .pure _, _ => true
  | _ + 1, .throw _, _ => false
  | n + 1, .select q k, v => returnsWithin n (k (q v)) v
  | n + 1, .write _ q w k, v => returnsWithin n (k (q v)) (w (q v) v)
  | n + 1, .commit k, v => returnsWithin n k v

/-- Whether a call that may be stopped comes to its end. -/
def finishes (stop : Option ℕ) (p : Program κ σ ε ρ) (s : σ) : Bool :=
  match stop with
  | none => (run p s).1.isOk
  | some n => returnsWithin n p s

section outcomes
variable {I : σ → Prop} {Q : ρ → σ → Prop} {p : Program κ σ ε ρ} {c v s : σ}

theorem returnsWithin_cases (h : wp I p Q v) (hc : I c) (n : ℕ) :
    (returnsWithin n p v = false ∧ I (committedAfter n p c v)) ∨
      (returnsWithin n p v = true ∧ ∃ r, Q r (committedAfter n p c v)) := by
  induction n generalizing p c v with
  | zero => exact .inl ⟨rfl, hc⟩
  | succ n ih =>
    cases p with
    | pure r => exact .inr ⟨rfl, r, h⟩
    | throw e => exact .inl ⟨rfl, hc⟩
    | select q k => exact ih h hc
    | write l q w k => exact ih h hc
    | commit k => exact ih h.2 h.1

/-- A call that does not come to its end leaves what `I` allows. -/
theorem finishes_cases (h : wp I p Q s) (hs : I s) (stop : Option ℕ) :
    (finishes stop p s = false ∧ I (leaves stop p s)) ∨
      (finishes stop p s = true ∧ ∃ r, Q r (leaves stop p s)) := by
  cases stop with
  | some n => exact returnsWithin_cases h hs n
  | none =>
    unfold finishes leaves run
    cases he : exec p s s with
    | error x => exact .inl ⟨rfl, exec_wp_error h hs he⟩
    | ok x => exact .inr ⟨rfl, x.1, exec_wp h he⟩

end outcomes

section map
variable (f : ρ → τ) (p : Program κ σ ε ρ)

theorem leaves_map (stop : Option ℕ) (s : σ) : leaves stop (f <$> p) s = leaves stop p s := by
  cases stop with
  | some n => exact committedAfter_map f p n s s
  | none =>
    unfold leaves run
    rw [map_eq_pure_bind, exec_bind]
    rcases exec p s s with x | ⟨r, c, v⟩ <;> rfl

end map

section stages
variable {p : Program κ σ ε ρ} {f : ρ → Program κ σ ε τ} {c v : σ}

theorem returnsWithin_commit_cases (hp : CommitFree p) (n : ℕ) :
    (returnsWithin n p v = false ∧
      returnsWithin n (p >>= fun r => commitNow >>= fun _ => f r) v = false ∧
      committedAfter n (p >>= fun r => commitNow >>= fun _ => f r) c v = c) ∨
    ∃ r v' m, returnsWithin n p v = true ∧ exec p c v = .ok (r, c, v') ∧
      returnsWithin n (p >>= fun r => commitNow >>= fun _ => f r) v = returnsWithin m (f r) v' ∧
      committedAfter n (p >>= fun r => commitNow >>= fun _ => f r) c v =
        committedAfter m (f r) v' v' := by
  induction p generalizing n v with
  | pure r =>
    cases n with
    | zero => exact .inl ⟨rfl, rfl, rfl⟩
    | succ n => exact .inr ⟨r, v, n, rfl, rfl, rfl, rfl⟩
  | throw e => cases n <;> exact .inl ⟨rfl, rfl, rfl⟩
  | select q k ih =>
    cases n with
    | zero => exact .inl ⟨rfl, rfl, rfl⟩
    | succ n => exact ih _ (hp _) n
  | write l q w k ih =>
    cases n with
    | zero => exact .inl ⟨rfl, rfl, rfl⟩
    | succ n => exact ih _ (hp _) n
  | commit k ih => exact hp.elim

/-- A call whose first transaction commits goes on from there; else it leaves everything. -/
theorem finishes_commit_cases (hp : CommitFree p) (stop : Option ℕ) (s : σ) :
    (finishes stop p s = false ∧
      finishes stop (p >>= fun r => commitNow >>= fun _ => f r) s = false ∧
      leaves stop (p >>= fun r => commitNow >>= fun _ => f r) s = s) ∨
    ∃ r s' rest, finishes stop p s = true ∧ exec p s s = .ok (r, s, s') ∧
      finishes stop (p >>= fun r => commitNow >>= fun _ => f r) s = finishes rest (f r) s' ∧
      leaves stop (p >>= fun r => commitNow >>= fun _ => f r) s = leaves rest (f r) s' := by
  cases stop with
  | some n =>
    rcases returnsWithin_commit_cases (f := f) (c := s) hp n with h | ⟨r, s', m, h⟩
    · exact .inl h
    · exact .inr ⟨r, s', some m, h⟩
  | none =>
    rcases exec_commitFree hp s s with ⟨r, s', he⟩ | ⟨e, he⟩
    · have hrest : run (p >>= fun r => commitNow >>= fun _ => f r) s = run (f r) s' := by
        unfold run
        rw [exec_bind, he]
        rfl
      refine .inr ⟨r, s', none, ?_, he, ?_, ?_⟩
      · unfold finishes run
        rw [he]
        rfl
      · exact congrArg (fun x => x.1.isOk) hrest
      · exact congrArg Prod.snd hrest
    · have hrest : run (p >>= fun r => commitNow >>= fun _ => f r) s = (.error e, s) := by
        unfold run
        rw [exec_bind, he]
      refine .inl ⟨?_, congrArg (fun x => x.1.isOk) hrest, congrArg Prod.snd hrest⟩
      unfold finishes run
      rw [he]
      rfl

end stages

section effects
variable {R : σ → σ → Prop} {p : Program κ σ ε ρ}

theorem leaves_effects (hrefl : ∀ s, R s s) (htrans : ∀ {s t u}, R s t → R t u → R s u)
    (hp : Effects R p) (stop : Option ℕ) (s : σ) : R s (leaves stop p s) := by
  have hkeeps : wp (R s) p (fun _ => R s) s := wp_of_effects (fun _ _ hst h => htrans h hst) hp (hrefl s)
  exact leaves_wp (I := R s) (fun _ _ h => h) hkeeps (hrefl s) stop

end effects

section occurrences
variable {call : Type} (step : σ → call → σ) (hit : σ → call → Bool)

def occurrences (s : σ) : List call → ℕ
  | [] => 0
  | a :: rest => (hit s a).toNat + occurrences (step s a) rest

theorem occurrences_append (s : σ) (xs ys : List call) :
    occurrences step hit s (xs ++ ys) =
      occurrences step hit s xs + occurrences step hit (xs.foldl step s) ys := by
  induction xs generalizing s with
  | nil => simp [occurrences]
  | cons a rest ih =>
    simp only [List.cons_append, occurrences, List.foldl_cons, ih]
    omega

variable {step hit}

theorem occurrences_mono {hit' : σ → call → Bool} (h : ∀ s a, hit s a = true → hit' s a = true)
    (s : σ) (calls : List call) : occurrences step hit s calls ≤ occurrences step hit' s calls := by
  induction calls generalizing s with
  | nil => exact le_refl _
  | cons a rest ih =>
    have hrest := ih (step s a)
    have hfirst : (hit s a).toNat ≤ (hit' s a).toNat := by
      cases ha : hit s a with
      | false => exact Nat.zero_le _
      | true => rw [h s a ha]
    simp only [occurrences]
    omega

/-- What is raised by these calls alone, by none of them again, and lowered by none, is up
exactly when one of them has been made. -/
theorem occurrences_raised {P : σ → Prop} (hstep : ∀ s a, P (step s a) ↔ P s ∨ hit s a = true)
    (honce : ∀ s a, P s → hit s a = false) {s : σ} (h : ¬ P s) (calls : List call) :
    occurrences step hit s calls ≤ 1 ∧
      (P (calls.foldl step s) ↔ occurrences step hit s calls = 1) := by
  induction calls using List.reverseRecOn with
  | nil => exact ⟨Nat.zero_le 1, by simpa [occurrences] using h⟩
  | append_singleton xs a ih =>
    obtain ⟨hle, hiff⟩ := ih
    have hcount : occurrences step hit s (xs ++ [a]) =
        occurrences step hit s xs + (hit (xs.foldl step s) a).toNat := by
      rw [occurrences_append]
      rfl
    rw [hcount, List.foldl_append, List.foldl_cons, List.foldl_nil, hstep]
    by_cases hup : P (xs.foldl step s)
    · have hmiss := honce _ a hup
      rw [hmiss]
      have hone := hiff.mp hup
      simp [hup, hone]
    · have hzero : occurrences step hit s xs = 0 := by
        have hne : occurrences step hit s xs ≠ 1 := fun h1 => hup (hiff.mpr h1)
        omega
      rw [hzero]
      cases hit (xs.foldl step s) a <;> simp [hup]

end occurrences
end Akabbo.StoppedCalls
