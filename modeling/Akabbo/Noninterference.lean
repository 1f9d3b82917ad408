import Akabbo.StatementProgram

/-!
# What the others do goes unnoticed

Each domain sees a part of the state. A program is confined to a domain when it gets the answers that
the domain's part alone would give, and changes no other part. In a run of confined calls every domain
sees what it would see without the others.
-/
namespace Akabbo.Noninterference
open StatementProgram StatementProgram.Program

variable {ι κ σ ε ρ τ α : Type}

section confined
variable (view : ι → σ → σ) (e : ι)

/-- The change does to the part what it does to the whole, and nothing to other parts. -/
structure Edits (w : σ → σ) (s : σ) : Prop where
  own : w (view e s) = view e (w s)
  others : ∀ e', e' ≠ e → view e' (w s) = view e' s

def Confined (Q : ρ → σ → Prop) : Program κ σ ε ρ → σ → Prop
  | .pure r, s => Q r s
  | .throw _, _ => True
  | .select q k, s => q (view e s) = q s ∧ Confined Q (k (q s)) s
  | .write _ q w k, s => q (view e s) = q s ∧ Edits view e (w (q s)) s ∧
      Confined Q (k (q s)) (w (q s) s)
  | .commit k, s => Confined Q k s

variable {view e} {s : σ}

theorem edits_id : Edits view e id s := ⟨rfl, fun _ _ => rfl⟩

/-- Only what the change does to the whole and to the part counts. -/
theorem edits_congr {w w' : σ → σ} (h : Edits view e w s) (hwhole : w' s = w s)
    (hpart : w' (view e s) = w (view e s)) : Edits view e w' s where
  own := by rw [hwhole, hpart, h.own]
  others e' he := by rw [hwhole, h.others e' he]

theorem edits_comp {w w' : σ → σ} (h : Edits view e w s) (h' : Edits view e w' (w s)) :
    Edits view e (w' ∘ w) s where
  own := by
    rw [Function.comp_apply, Function.comp_apply, h.own, h'.own]
  others e' he := (h'.others e' he).trans (h.others e' he)

section rules
variable {Q : ρ → σ → Prop}

theorem confined_bind {p : Program κ σ ε τ} {k : τ → Program κ σ ε ρ}
    (h : Confined view e (fun r s => Confined view e Q (k r) s) p s) :
    Confined view e Q (p >>= k) s := by
  induction p generalizing s with
  | pure r => exact h
  | throw x => trivial
  | select q k' ih => exact ⟨h.1, ih _ h.2⟩
  | write l q w k' ih => exact ⟨h.1, h.2.1, ih _ h.2.2⟩
  | commit k' ih => exact ih h

theorem confined_map {g : τ → ρ} {p : Program κ σ ε τ}
    (h : Confined view e (fun r s => Q (g r) s) p s) : Confined view e Q (g <$> p) s := by
  rw [map_eq_pure_bind]
  exact confined_bind h

theorem confined_query_bind {q : σ → τ} {k : τ → Program κ σ ε ρ} (hq : q (view e s) = q s)
    (h : Confined view e Q (k (q s)) s) : Confined view e Q (query q >>= k) s := ⟨hq, h⟩

theorem confined_refuse_bind {x : Option ε} {k : Unit → Program κ σ ε ρ}
    (h : x = none → Confined view e Q (k ()) s) : Confined view e Q (refuse x >>= k) s := by
  cases x with
  | none => exact h rfl
  | some x => trivial

theorem confined_refuse {x : Option ε} {Q : Unit → σ → Prop} (h : x = none → Q () s) :
    Confined view e Q (refuse x : Program κ σ ε Unit) s := by
  cases x with
  | none => exact h rfl
  | some x => trivial

theorem confined_orThrow_bind {o : Option τ} {x : ε} {k : τ → Program κ σ ε ρ}
    (h : ∀ a, o = some a → Confined view e Q (k a) s) :
    Confined view e Q (orThrow o x >>= k) s := by
  cases o with
  | none => trivial
  | some a => exact h a rfl

theorem confined_modify {l : σ → List κ} {w : σ → σ} {Q : Unit → σ → Prop} (hw : Edits view e w s)
    (h : Q () (w s)) : Confined view e Q (modify l w : Program κ σ ε Unit) s := ⟨rfl, hw, h⟩

theorem confined_modifyChecked {l : σ → List κ} {q : σ → Except ε τ} {w : σ → σ} {Q : τ → σ → Prop}
    (hq : q (view e s) = q s) (h : ∀ a, q s = .ok a → Edits view e w s ∧ Q a (w s)) :
    Confined view e Q (modifyChecked l q w : Program κ σ ε τ) s := by
  refine ⟨hq, ?_⟩
  cases ha : q s with
  | error x => exact ⟨edits_id, trivial⟩
  | ok a => exact h a ha

theorem confined_runIf {b : Bool} {p : Program κ σ ε Unit} {Q : Unit → σ → Prop}
    (hskip : b = false → Q () s) (h : b = true → Confined view e Q p s) :
    Confined view e Q (runIf b p) s := by
  cases b with
  | true => exact h rfl
  | false => exact hskip rfl

end rules

theorem exec_confined {Q : ρ → σ → Prop} {p : Program κ σ ε ρ} (h : Confined view e Q p s) (c : σ) :
    (∃ r c' v, exec p c s = .ok (r, c', v) ∧
      exec p (view e c) (view e s) = .ok (r, view e c', view e v) ∧
      ∀ e', e' ≠ e → view e' v = view e' s) ∨
    ∃ x c', exec p c s = .error (x, c') ∧
      exec p (view e c) (view e s) = .error (x, view e c') ∧
      ∀ e', e' ≠ e → view e' c' = view e' c ∨ view e' c' = view e' s := by
  induction p generalizing c s with
  | pure r => exact .inl ⟨r, c, s, rfl, rfl, fun _ _ => rfl⟩
  | throw x => exact .inr ⟨x, c, rfl, rfl, fun _ _ => .inl rfl⟩
  | select q k ih =>
    obtain ⟨hq, hk⟩ := h
    simp only [exec, hq]
    exact ih _ hk c
  | write l q w k ih =>
    obtain ⟨hq, hw, hk⟩ := h
    simp only [exec, hq, hw.own]
    rcases ih _ hk c with ⟨r, c', v, hexec, hview, hsame⟩ | ⟨x, c', hexec, hview, hsame⟩
    · exact .inl ⟨r, c', v, hexec, hview, fun e' he => (hsame e' he).trans (hw.others e' he)⟩
    · exact .inr ⟨x, c', hexec, hview, fun e' he =>
        (hsame e' he).imp_right fun hs => hs.trans (hw.others e' he)⟩
  | commit k ih =>
    rcases ih h s with ⟨r, c', v, hexec, hview, hsame⟩ | ⟨x, c', hexec, hview, hsame⟩
    · exact .inl ⟨r, c', v, hexec, hview, hsame⟩
    · exact .inr ⟨x, c', hexec, hview, fun e' he => .inr ((hsame e' he).elim id id)⟩

/-- On the part alone, a confined call gives the same answer and leaves the same part. -/
theorem run_view {Q : ρ → σ → Prop} {p : Program κ σ ε ρ} (h : Confined view e Q p s) :
    run p (view e s) = ((run p s).1, view e (run p s).2) := by
  unfold run
  rcases exec_confined h s with ⟨r, c', v, hexec, hview, -⟩ | ⟨x, c', hexec, hview, -⟩
  · rw [hexec, hview]
  · rw [hexec, hview]

theorem view_run {Q : ρ → σ → Prop} {p : Program κ σ ε ρ} (h : Confined view e Q p s) {e' : ι}
    (he : e' ≠ e) : view e' (run p s).2 = view e' s := by
  unfold run
  rcases exec_confined h s with ⟨r, c', v, hexec, -, hsame⟩ | ⟨x, c', hexec, -, hsame⟩
  · rw [hexec]
    exact hsame e' he
  · rw [hexec]
    exact (hsame e' he).elim id id

end confined

section runs
variable (program : α → Program κ σ ε ρ)

/-- The state after calls one after another. -/
def after (s : σ) (calls : List α) : σ := calls.foldl (fun s a => (run (program a) s).2) s

/-- What each call is answered. -/
def answers : σ → List α → List (α × Except ε ρ)
  | _, [] => []
  | s, a :: rest => (a, (run (program a) s).1) :: answers (run (program a) s).2 rest

/-- Every call is confined to its domain, in the states that the calls lead to. -/
structure Unwinds (view : ι → σ → σ) (domain : α → ι) (I : σ → Prop) (C : σ → α → Prop) : Prop where
  confined : ∀ s a, I s → C s a → Confined view (domain a) (fun _ _ => True) (program a) s
  keeps : ∀ s a, I s → C s a → I (run (program a) s).2

variable {program} {view : ι → σ → σ} {domain : α → ι} {I : σ → Prop} {C : σ → α → Prop}
  [DecidableEq ι]

/-- Each domain is left with what its own calls alone would leave it with, and they are answered as
they would be alone. -/
theorem unnoticed (h : Unwinds program view domain I C) (e : ι) {s : σ} (hs : I s) (calls : List α)
    (hcalls : ∀ before a rest, calls = before ++ a :: rest → C (after program s before) a) :
    view e (after program s calls) =
        after program (view e s) (calls.filter fun a => domain a = e) ∧
      (answers program s calls).filter (fun x => domain x.1 = e) =
        answers program (view e s) (calls.filter fun a => domain a = e) := by
  induction calls generalizing s with
  | nil => exact ⟨rfl, rfl⟩
  | cons a rest ih =>
    have ha : C s a := hcalls [] a rest rfl
    have hconfined := h.confined s a hs ha
    obtain ⟨hafter, hanswers⟩ := ih (h.keeps s a hs ha) fun before b late he =>
      hcalls (a :: before) b late (by rw [he, List.cons_append])
    by_cases hdomain : domain a = e
    · subst hdomain
      have hrun := run_view hconfined
      simp only [answers, List.filter_cons, decide_true, if_true, hanswers]
      unfold after at hafter ⊢
      rw [List.foldl_cons, List.foldl_cons, hafter, hrun]
      exact ⟨rfl, rfl⟩
    · have hsame := view_run hconfined (Ne.symm hdomain)
      rw [hsame] at hafter hanswers
      simp only [answers, List.filter_cons, hdomain, decide_false, Bool.false_eq_true, if_false,
        hanswers]
      exact ⟨hafter, trivial⟩

end runs

end Akabbo.Noninterference
