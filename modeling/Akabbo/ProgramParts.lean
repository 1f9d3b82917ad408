import Akabbo.ProgramLogic
import Akabbo.ReadCommitted

/-!
# Programs on a part of the database

A program written against one part of the rows runs unchanged on all of them. What each
write does whatever it read, and what is committed when a call is stopped half-way.
-/
namespace Akabbo.ProgramParts
open StatementProgram StatementProgram.Program ReadCommitted

/-- A part of the rows that can be read and replaced on its own. -/
structure Part (τ σ : Type) where
  get : τ → σ
  put : σ → τ → τ
  get_put : ∀ x t, get (put x t) = x
  put_get : ∀ t, put (get t) t = t
  put_put : ∀ x y t, put x (put y t) = put x t

variable {κ κ' σ τ ε ρ υ : Type}

namespace Part
variable (part : Part τ σ)

def edit (f : σ → σ) (t : τ) : τ := part.put (f (part.get t)) t

@[simp] theorem get_edit (f : σ → σ) (t : τ) : part.get (part.edit f t) = f (part.get t) :=
  part.get_put _ _

/-- The same program, on the part; its locks are named as the whole names them. -/
def run (lock : κ → κ') : Program κ σ ε ρ → Program κ' τ ε ρ
  | .pure r => .pure r
  | .throw e => .throw e
  | .select q k => .select (q ∘ part.get) fun a => run lock (k a)
  | .write l q w k => .write (fun t => (l (part.get t)).map lock) (q ∘ part.get)
      (fun a => part.edit (w a)) fun a => run lock (k a)
  | .commit k => .commit (run lock k)

variable (lock : κ → κ')

theorem run_bind (p : Program κ σ ε ρ) (f : ρ → Program κ σ ε υ) :
    part.run lock (p >>= f) = part.run lock p >>= fun r => part.run lock (f r) := by
  induction p with
  | pure r => rfl
  | throw e => rfl
  | select q k ih => exact congrArg (Program.select _) (funext ih)
  | write l q w k ih => exact congrArg (Program.write _ _ _) (funext ih)
  | commit k ih => exact congrArg Program.commit ih

@[simp] theorem run_pure (r : ρ) :
    part.run lock (Pure.pure r : Program κ σ ε ρ) = Pure.pure r := rfl

@[simp] theorem run_query (q : σ → ρ) :
    part.run lock (query q : Program κ σ ε ρ) = query (q ∘ part.get) := rfl

@[simp] theorem run_refuse (e : Option ε) :
    part.run lock (refuse e : Program κ σ ε Unit) = refuse e := by
  cases e <;> rfl

@[simp] theorem run_orThrow (o : Option ρ) (e : ε) :
    part.run lock (orThrow o e : Program κ σ ε ρ) = orThrow o e := by
  cases o <;> rfl

end Part

/-- Each write keeps `R`, also when what it read is out of date by the time it is applied. -/
def Effects (R : σ → σ → Prop) : Program κ σ ε ρ → Prop
  | .pure _ => True
  | .throw _ => True
  | .select _ k => ∀ a, Effects R (k a)
  | .write _ _ w k => (∀ a s, R s (w a s)) ∧ ∀ a, Effects R (k a)
  | .commit k => Effects R k

section effects
variable {R : σ → σ → Prop}

theorem effects_query {α : Type} (q : σ → α) : Effects R (query q : Program κ σ ε α) :=
  fun _ => trivial

theorem effects_modify (l : σ → List κ) {w : σ → σ} (h : ∀ s, R s (w s)) :
    Effects R (modify l w : Program κ σ ε Unit) := ⟨fun _ => h, fun _ => trivial⟩

theorem effects_modifyChecked {α : Type} (hrefl : ∀ s, R s s) (l : σ → List κ)
    (q : σ → Except ε α) {w : σ → σ} (h : ∀ s, R s (w s)) :
    Effects R (modifyChecked l q w) := by
  refine ⟨fun a s => ?_, fun a => ?_⟩
  · cases a with
    | ok a => exact h s
    | error e => exact hrefl s
  · cases a <;> trivial

theorem effects_refuse (e : Option ε) : Effects R (refuse e : Program κ σ ε Unit) := by
  cases e <;> trivial

theorem effects_orThrow (o : Option ρ) (e : ε) : Effects R (orThrow o e : Program κ σ ε ρ) := by
  cases o <;> trivial

theorem effects_commitNow : Effects R (commitNow : Program κ σ ε Unit) := trivial

theorem effects_runIf {b : Bool} {p : Program κ σ ε Unit} (hp : Effects R p) :
    Effects R (runIf b p) := by
  cases b
  · trivial
  · exact hp

theorem effects_bind {p : Program κ σ ε ρ} {f : ρ → Program κ σ ε υ} (hp : Effects R p)
    (hf : ∀ r, Effects R (f r)) : Effects R (p >>= f) := by
  induction p with
  | pure r => exact hf r
  | throw e => trivial
  | select q k ih => exact fun a => ih a (hp a)
  | write l q w k ih => exact ⟨hp.1, fun a => ih a (hp.2 a)⟩
  | commit k ih => exact ih hp

theorem effects_map {p : Program κ σ ε ρ} (hp : Effects R p) (f : ρ → υ) :
    Effects R (f <$> p) := by
  rw [map_eq_pure_bind]
  exact effects_bind hp fun _ => trivial

/-- What each write of a program keeps on the part, seen from the whole. -/
theorem effects_run_part (part : Part τ σ) (lock : κ → κ') {R' : τ → τ → Prop}
    (h : ∀ w : σ → σ, (∀ s, R s (w s)) → ∀ t, R' t (part.edit w t)) {p : Program κ σ ε ρ}
    (hp : Effects R p) : Effects R' (part.run lock p) := by
  induction p with
  | pure r => trivial
  | throw e => trivial
  | select q k ih => exact fun a => ih a (hp a)
  | write l q w k ih => exact ⟨fun a t => h _ (hp.1 a) t, fun a => ih a (hp.2 a)⟩
  | commit k ih => exact ih hp

/-- Whatever a call is about to apply at one of its commits keeps `R`. -/
theorem everyCommit_of_effects {J : σ → Prop} {P : Option ρ → List (Reading σ) → (σ → σ) → Prop}
    (htrans : ∀ {s t u}, R s t → R t u → R s u) (hrefl : ∀ s, R s s)
    (hP : ∀ r rs f, (∀ s, R s (f s)) → P r rs f) {p : Program κ σ ε ρ} (hp : Effects R p)
    {d : Bool} {rs : List (Reading σ)} {f : σ → σ} (hf : ∀ s, R s (f s)) :
    EveryCommit J P p d rs f := by
  induction p generalizing d rs f with
  | pure r => exact hP _ _ _ hf
  | throw e => trivial
  | select q k ih => exact fun s _ => ih _ (hp _) hf
  | write l q w k ih => exact fun s _ => ih _ (hp.2 _) fun s' => htrans (hf s') (hp.1 _ _)
  | commit k ih =>
    cases d with
    | false => exact ih hp hf
    | true => exact ⟨hP _ _ _ hf, ih hp fun s => hrefl s⟩

theorem everyCommit_run_write_bind {J : τ → Prop} {P : Option ρ → List (Reading τ) → (τ → τ) → Prop}
    (part : Part τ σ) (lock : κ → κ') {α β : Type} {l : σ → List κ} {q : σ → α} {w : α → σ → σ}
    {k : α → Program κ σ ε β} {f : β → Program κ' τ ε ρ} {d : Bool} {rs : List (Reading τ)}
    {g : τ → τ} (h : ∀ t, J t → EveryCommit J P (part.run lock (k (q (part.get (g t)))) >>= f) true
      (⟨(q ∘ part.get) ∘ g, q (part.get (g t))⟩ :: rs)
      (part.edit (w (q (part.get (g t)))) ∘ g)) :
    EveryCommit J P (part.run lock (.write l q w k) >>= f) d rs g := h

/-- A write on the part that the database may refuse. -/
theorem everyCommit_run_checked_bind {J : τ → Prop}
    {P : Option ρ → List (Reading τ) → (τ → τ) → Prop} (part : Part τ σ) (lock : κ → κ')
    {α : Type} {l : σ → List κ} {q : σ → Except ε α} {w : σ → σ} {f : α → Program κ' τ ε ρ} {d : Bool}
    {rs : List (Reading τ)} {g : τ → τ}
    (h : ∀ t, J t → ∀ a, q (part.get (g t)) = .ok a →
      EveryCommit J P (f a) true (⟨(q ∘ part.get) ∘ g, .ok a⟩ :: rs) (part.edit w ∘ g)) :
    EveryCommit J P (part.run lock (modifyChecked l q w) >>= f) d rs g := by
  refine everyCommit_run_write_bind part lock fun t ht => ?_
  have hrest := h t ht
  cases hq : q (part.get (g t)) with
  | error e => trivial
  | ok a => exact hrest a hq

end effects

/-- What is committed after `n` statements of a call that runs alone; the end of a
transaction counts as a statement. -/
def committedAfter : ℕ → Program κ σ ε ρ → σ → σ → σ
  | 0, _, c, _ => c
  | _ + 1, .pure _, _, v => v
  | _ + 1, .throw _, c, _ => c
  | n + 1, .select q k, c, v => committedAfter n (k (q v)) c v
  | n + 1, .write _ q w k, c, v => committedAfter n (k (q v)) c (w (q v) v)
  | n + 1, .commit k, _, v => committedAfter n k v v

/-- What is made of the result is no statement. -/
theorem committedAfter_map (f : ρ → υ) (p : Program κ σ ε ρ) (n : ℕ) (c v : σ) :
    committedAfter n (f <$> p) c v = committedAfter n p c v := by
  induction n generalizing p c v with
  | zero => rfl
  | succ n ih =>
    cases p with
    | pure r => rfl
    | throw e => rfl
    | select q k => exact ih _ c v
    | write l q w k => exact ih _ c _
    | commit k => exact ih k v v

theorem committedAfter_checked_bind {α : Type} {l : σ → List κ} {q : σ → Except ε α} {w : σ → σ}
    {f : α → Program κ σ ε ρ} {c v : σ} {a : α} (h : q v = .ok a) (n : ℕ) :
    committedAfter (n + 1) (modifyChecked l q w >>= f) c v = committedAfter n (f a) c (w v) := by
  unfold modifyChecked
  change committedAfter n (Program.bind _ f) c _ = _
  simp only [h]
  rfl

end Akabbo.ProgramParts
