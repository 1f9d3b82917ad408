import Mathlib.Tactic

/-!
# Programs of database statements

A service call is a tree of statements against one database: a `select` answers a
query on the rows the call sees, a `write` also adds an effect to them, and `commit`
ends a transaction. The tree says nothing about other calls; `exec` runs it alone,
and the interleaved meaning is built on the same trees.
-/
namespace Akabbo.StatementProgram

/-- `κ` names what a write locks, `σ` is the database, `ε` the errors, `ρ` the result.
Leaving the tree by `pure` commits what is pending, leaving it by `throw` rolls back. -/
inductive Program (κ σ ε ρ : Type) : Type 1
  | pure (result : ρ)
  | throw (error : ε)
  | select {α : Type} (query : σ → α) (next : α → Program κ σ ε ρ)
  | write {α : Type} (locks : σ → List κ) (query : σ → α) (effect : α → σ → σ)
      (next : α → Program κ σ ε ρ)
  | commit (next : Program κ σ ε ρ)

namespace Program
variable {κ σ ε ρ τ : Type}

def bind : Program κ σ ε ρ → (ρ → Program κ σ ε τ) → Program κ σ ε τ
  | .pure r, f => f r
  | .throw e, _ => .throw e
  | .select q k, f => .select q fun a => (k a).bind f
  | .write l q w k, f => .write l q w fun a => (k a).bind f
  | .commit k, f => .commit (k.bind f)

instance : Monad (Program κ σ ε) where
  pure := .pure
  bind := .bind

theorem bind_pure' (p : Program κ σ ε ρ) : p.bind .pure = p := by
  induction p with
  | pure r => rfl
  | throw e => rfl
  | select q k ih => exact congrArg (Program.select q) (funext ih)
  | write l q w k ih => exact congrArg (Program.write l q w) (funext ih)
  | commit k ih => exact congrArg Program.commit ih

theorem bind_bind {υ : Type} (p : Program κ σ ε ρ) (f : ρ → Program κ σ ε τ)
    (g : τ → Program κ σ ε υ) : (p.bind f).bind g = p.bind fun r => (f r).bind g := by
  induction p with
  | pure r => rfl
  | throw e => rfl
  | select q k ih => exact congrArg (Program.select q) (funext ih)
  | write l q w k ih => exact congrArg (Program.write l q w) (funext ih)
  | commit k ih => exact congrArg Program.commit ih

instance : LawfulMonad (Program κ σ ε) :=
  LawfulMonad.mk' _ bind_pure' (fun _ _ => rfl) bind_bind

/-- One SELECT statement. -/
def query {α : Type} (q : σ → α) : Program κ σ ε α := .select q .pure

/-- One INSERT, UPDATE or DELETE that cannot fail. -/
def modify (locks : σ → List κ) (w : σ → σ) : Program κ σ ε Unit :=
  .write locks (fun _ => ()) (fun _ => w) .pure

/-- One write that reports on the rows it found, or that the database refuses, leaving
the rows as they are. -/
def modifyChecked {α : Type} (locks : σ → List κ) (q : σ → Except ε α) (w : σ → σ) :
    Program κ σ ε α :=
  .write locks q (fun a s => match a with
    | .ok _ => w s
    | .error _ => s) fun
    | .ok a => .pure a
    | .error e => .throw e

/-- The answer of a write that fails exactly on these violations. -/
def accept : Option ε → Except ε Unit
  | some e => .error e
  | none => .ok ()

/-- Stop with this error, if there is one. -/
def refuse : Option ε → Program κ σ ε Unit
  | some e => .throw e
  | none => .pure ()

/-- The value found, or else this error. -/
def orThrow (o : Option ρ) (e : ε) : Program κ σ ε ρ :=
  match o with
  | some r => .pure r
  | none => .throw e

/-- Statements under a condition. -/
def runIf (b : Bool) (p : Program κ σ ε Unit) : Program κ σ ε Unit :=
  if b then p else .pure ()

/-- End the current transaction; a statement outside `$transaction` commits by itself. -/
def commitNow : Program κ σ ε Unit := .commit (.pure ())

/-- Run alone, from the committed rows `c` and the rows `v` the call sees. An error
carries the rows that were committed before it. -/
def exec : Program κ σ ε ρ → σ → σ → Except (ε × σ) (ρ × σ × σ)
  | .pure r, c, v => .ok (r, c, v)
  | .throw e, c, _ => .error (e, c)
  | .select q k, c, v => exec (k (q v)) c v
  | .write _ q w k, c, v => exec (k (q v)) c (w (q v) v)
  | .commit k, _, v => exec k v v

/-- A whole call run alone: its result and the database it leaves behind. -/
def run (p : Program κ σ ε ρ) (s : σ) : Except ε ρ × σ :=
  match exec p s s with
  | .ok (r, _, v) => (.ok r, v)
  | .error (e, c) => (.error e, c)

theorem run_eq_ok {p : Program κ σ ε ρ} {s : σ} {r : ρ} :
    (run p s).1 = .ok r ↔ ∃ c v, exec p s s = .ok (r, c, v) := by
  unfold run
  rcases exec p s s with ⟨e, c⟩ | ⟨r', c, v⟩
  · simp
  · constructor
    · intro h
      cases h
      exact ⟨c, v, rfl⟩
    · rintro ⟨c', v', h⟩
      cases h
      rfl

section exec
variable (c v : σ)

@[simp] theorem exec_pure (r : ρ) :
    exec (Pure.pure r : Program κ σ ε ρ) c v = .ok (r, c, v) := rfl

@[simp] theorem exec_throw (e : ε) :
    exec (.throw e : Program κ σ ε ρ) c v = .error (e, c) := rfl

@[simp] theorem exec_query {α : Type} (q : σ → α) :
    exec (query q : Program κ σ ε α) c v = .ok (q v, c, v) := rfl

@[simp] theorem exec_modify (l : σ → List κ) (w : σ → σ) :
    exec (modify l w : Program κ σ ε Unit) c v = .ok ((), c, w v) := rfl

@[simp] theorem exec_commitNow :
    exec (commitNow : Program κ σ ε Unit) c v = .ok ((), v, v) := rfl

theorem exec_modifyChecked {α : Type} (l : σ → List κ) (q : σ → Except ε α) (w : σ → σ) :
    exec (modifyChecked l q w) c v =
      match q v with
      | .ok a => .ok (a, c, w v)
      | .error e => .error (e, c) := by
  cases h : q v <;> simp [modifyChecked, exec, h]

theorem exec_bind (p : Program κ σ ε ρ) (f : ρ → Program κ σ ε τ) :
    exec (p >>= f) c v =
      match exec p c v with
      | .ok (r, c', v') => exec (f r) c' v'
      | .error e => .error e := by
  induction p generalizing c v with
  | pure r => rfl
  | throw e => rfl
  | select q k ih => exact ih (q v) c v
  | write l q w k ih => exact ih (q v) c (w (q v) v)
  | commit k ih => exact ih v v

end exec

section returns
variable {c v c' v' : σ} {x : τ × σ × σ} {f : ρ → Program κ σ ε τ}

theorem exec_pure_eq_ok {r r' : ρ} :
    exec (Pure.pure r : Program κ σ ε ρ) c v = .ok (r', c', v') ↔
      r = r' ∧ c = c' ∧ v = v' := by
  simp

theorem exec_bind_eq_ok {p : Program κ σ ε ρ} :
    exec (p >>= f) c v = .ok x ↔
      ∃ r c' v', exec p c v = .ok (r, c', v') ∧ exec (f r) c' v' = .ok x := by
  rw [exec_bind]
  rcases exec p c v with e | ⟨r, c', v'⟩
  · simp
  · constructor
    · exact fun h => ⟨r, c', v', rfl, h⟩
    · rintro ⟨r', c'', v'', h, hx⟩
      cases h
      exact hx

/-- A part that leaves the rows alone hands on its result only. -/
theorem exec_bind_of_reads {p : Program κ σ ε ρ}
    (hp : ∀ r c' v', exec p c v = .ok (r, c', v') → c = c' ∧ v = v') :
    exec (p >>= f) c v = .ok x ↔ ∃ r, exec p c v = .ok (r, c, v) ∧ exec (f r) c v = .ok x := by
  rw [exec_bind_eq_ok]
  constructor
  · rintro ⟨r, c', v', h, hx⟩
    obtain ⟨rfl, rfl⟩ := hp r c' v' h
    exact ⟨r, h, hx⟩
  · rintro ⟨r, h, hx⟩
    exact ⟨r, c, v, h, hx⟩

theorem exec_query_bind (q : σ → ρ) :
    exec (query q >>= f) c v = exec (f (q v)) c v := rfl

theorem exec_modify_bind {f : Unit → Program κ σ ε τ} (l : σ → List κ) (w : σ → σ) :
    exec (modify l w >>= f) c v = exec (f ()) c (w v) := rfl

theorem exec_refuse_bind {e : Option ε} {f : Unit → Program κ σ ε τ} :
    exec (refuse e >>= f) c v = .ok x ↔ e = none ∧ exec (f ()) c v = .ok x := by
  cases e <;> simp [refuse, exec_bind, exec]

theorem exec_orThrow_bind {o : Option ρ} {e : ε} :
    exec (orThrow o e >>= f) c v = .ok x ↔ ∃ r, o = some r ∧ exec (f r) c v = .ok x := by
  cases o <;> simp [orThrow, exec_bind, exec]

theorem exec_modifyChecked_bind {l : σ → List κ} {q : σ → Except ε ρ} {w : σ → σ} :
    exec (modifyChecked l q w >>= f) c v = .ok x ↔
      ∃ r, q v = .ok r ∧ exec (f r) c (w v) = .ok x := by
  rw [exec_bind, exec_modifyChecked]
  cases q v <;> simp

theorem exec_map {f : ρ → τ} {p : Program κ σ ε ρ} {r : τ} :
    exec (f <$> p) c v = .ok (r, c', v') ↔ ∃ a, exec p c v = .ok (a, c', v') ∧ f a = r := by
  rw [map_eq_pure_bind, exec_bind_eq_ok]
  constructor
  · rintro ⟨a, c'', v'', h, hr⟩
    obtain ⟨rfl, rfl, rfl⟩ := exec_pure_eq_ok.mp hr
    exact ⟨a, h, rfl⟩
  · rintro ⟨a, h, rfl⟩
    exact ⟨a, c', v', h, exec_pure _ _ _⟩

theorem exec_refuse {e : Option ε} {r : Unit} :
    exec (refuse e : Program κ σ ε Unit) c v = .ok (r, c', v') ↔ e = none ∧ c = c' ∧ v = v' := by
  cases e <;> simp [refuse, exec]

/-- Statements under a condition, or nothing. -/
theorem exec_runIf {b : Bool} {p : Program κ σ ε Unit} {r : Unit} :
    exec (runIf b p) c v = .ok (r, c', v') ↔
      (b = true ∧ exec p c v = .ok (r, c', v')) ∨ (b = false ∧ c = c' ∧ v = v') := by
  cases b <;> simp [runIf, exec]

theorem accept_eq_ok {e : Option ε} {r : Unit} : accept e = .ok r ↔ e = none := by
  cases e <;> simp [accept]

theorem exec_accepted_bind {l : σ → List κ} {q : σ → Option ε} {w : σ → σ}
    {f : Unit → Program κ σ ε τ} :
    exec (modifyChecked l (fun s => accept (q s)) w >>= f) c v = .ok x ↔
      q v = none ∧ exec (f ()) c (w v) = .ok x := by
  rw [exec_modifyChecked_bind]
  cases q v with
  | some e => simp [accept]
  | none => exact ⟨fun ⟨_, _, h⟩ => ⟨rfl, h⟩, fun h => ⟨(), rfl, h.2⟩⟩

end returns

/-- No transaction boundary inside: the call is one transaction. -/
def CommitFree : Program κ σ ε ρ → Prop
  | .pure _ => True
  | .throw _ => True
  | .select _ k => ∀ a, CommitFree (k a)
  | .write _ _ _ k => ∀ a, CommitFree (k a)
  | .commit _ => False

/-- Each write relates the rows before it to those after it; `commits` says whether the
program may end a transaction before its last one. -/
def Writes (commits : Prop) (R : σ → σ → Prop) : Program κ σ ε ρ → Prop
  | .pure _ => True
  | .throw _ => True
  | .select _ k => ∀ a, Writes commits R (k a)
  | .write _ q w k => (∀ s, R s (w (q s) s)) ∧ ∀ a, Writes commits R (k a)
  | .commit k => commits ∧ Writes commits R k

section writes
variable {commits : Prop} {R : σ → σ → Prop}

theorem writes_query {α : Type} (q : σ → α) :
    Writes commits R (query q : Program κ σ ε α) := fun _ => trivial

theorem writes_modify (l : σ → List κ) {w : σ → σ} (h : ∀ s, R s (w s)) :
    Writes commits R (modify l w : Program κ σ ε Unit) := ⟨h, fun _ => trivial⟩

theorem writes_refuse (e : Option ε) :
    Writes commits R (refuse e : Program κ σ ε Unit) := by
  cases e <;> trivial

theorem writes_orThrow (o : Option ρ) (e : ε) :
    Writes commits R (orThrow o e : Program κ σ ε ρ) := by
  cases o <;> trivial

theorem writes_runIf {b : Bool} {p : Program κ σ ε Unit} (hp : Writes commits R p) :
    Writes commits R (runIf b p) := by
  cases b
  · trivial
  · exact hp

/-- A write that is refused changes nothing. -/
theorem writes_modifyChecked {α : Type} (hrefl : ∀ s, R s s) (l : σ → List κ)
    {q : σ → Except ε α} {w : σ → σ} (h : ∀ s a, q s = .ok a → R s (w s)) :
    Writes commits R (modifyChecked l q w) := by
  refine ⟨fun s => ?_, fun a => ?_⟩
  · cases hq : q s with
    | error e => exact hrefl s
    | ok a => exact h s a hq
  · cases a <;> trivial

theorem writes_accept (hrefl : ∀ s, R s s) (l : σ → List κ) {q : σ → Option ε}
    {w : σ → σ} (h : ∀ s, q s = none → R s (w s)) :
    Writes commits R (modifyChecked l (fun s => accept (q s)) w) :=
  writes_modifyChecked hrefl l fun s _ hq => h s (accept_eq_ok.mp hq)

theorem writes_bind {p : Program κ σ ε ρ} {f : ρ → Program κ σ ε τ}
    (hp : Writes commits R p) (hf : ∀ r, Writes commits R (f r)) :
    Writes commits R (p >>= f) := by
  induction p with
  | pure r => exact hf r
  | throw e => trivial
  | select q k ih => exact fun a => ih a (hp a)
  | write l q w k ih => exact ⟨hp.1, fun a => ih a (hp.2 a)⟩
  | commit k ih => exact ⟨hp.1, ih hp.2⟩

theorem writes_map {p : Program κ σ ε ρ} (hp : Writes commits R p) (f : ρ → τ) :
    Writes commits R (f <$> p) := by
  rw [map_eq_pure_bind]
  exact writes_bind hp fun _ => trivial

theorem commitFree_of_writes {p : Program κ σ ε ρ} (hp : Writes False R p) : CommitFree p := by
  induction p with
  | pure r => trivial
  | throw e => trivial
  | select q k ih => exact fun a => ih a (hp a)
  | write l q w k ih => exact fun a => ih a (hp.2 a)
  | commit k ih => exact hp.1.elim

/-- What every write keeps, a call that returns keeps. -/
theorem exec_writes (hrefl : ∀ s, R s s) (htrans : ∀ {s t u}, R s t → R t u → R s u)
    {p : Program κ σ ε ρ} (hp : Writes commits R p) {c v c' v' : σ} {r : ρ}
    (h : exec p c v = .ok (r, c', v')) : R v v' := by
  induction p generalizing c v with
  | pure x =>
    obtain ⟨-, -, rfl⟩ := exec_pure_eq_ok.mp h
    exact hrefl v
  | throw e => cases h
  | select q k ih => exact ih (q v) (hp _) h
  | write l q w k ih => exact htrans (hp.1 v) (ih (q v) (hp.2 _) h)
  | commit k ih => exact ih hp.2 h

/-- A call that fails leaves what it had committed. -/
theorem exec_writes_error (hrefl : ∀ s, R s s) (htrans : ∀ {s t u}, R s t → R t u → R s u)
    {p : Program κ σ ε ρ} (hp : Writes commits R p) {c v c' : σ} (hcv : R c v) {e : ε}
    (h : exec p c v = .error (e, c')) : R c c' := by
  induction p generalizing c v with
  | pure x => cases h
  | throw x =>
    cases h
    exact hrefl _
  | select q k ih => exact ih (q v) (hp _) hcv h
  | write l q w k ih => exact ih (q v) (hp.2 _) (htrans hcv (hp.1 v)) h
  | commit k ih => exact htrans hcv (ih hp.2 (hrefl v) h)

theorem run_writes (hrefl : ∀ s, R s s) (htrans : ∀ {s t u}, R s t → R t u → R s u)
    {p : Program κ σ ε ρ} (hp : Writes commits R p) (s : σ) : R s (run p s).2 := by
  unfold run
  cases he : exec p s s with
  | error x => exact exec_writes_error hrefl htrans hp (hrefl s) he
  | ok x => exact exec_writes hrefl htrans hp he

end writes

/-- A single transaction that fails leaves the committed rows alone. -/
theorem exec_commitFree {p : Program κ σ ε ρ} (hp : CommitFree p) (c v : σ) :
    (∃ r v', exec p c v = .ok (r, c, v')) ∨ ∃ e, exec p c v = .error (e, c) := by
  induction p generalizing v with
  | pure r => exact .inl ⟨r, v, rfl⟩
  | throw e => exact .inr ⟨e, rfl⟩
  | select q k ih => exact ih (q v) (hp _) v
  | write l q w k ih => exact ih (q v) (hp _) (w (q v) v)
  | commit k ih => exact hp.elim

/-- How a single transaction ends: with its rows, or with the rows it began with. -/
theorem run_cases {p : Program κ σ ε ρ} (hp : CommitFree p) (s : σ) :
    (∃ r s', exec p s s = .ok (r, s, s') ∧ run p s = (.ok r, s')) ∨
      ∃ e, run p s = (.error e, s) := by
  rcases exec_commitFree hp s s with ⟨r, s', he⟩ | ⟨e, he⟩
  · exact .inl ⟨r, s', he, by simp [run, he]⟩
  · exact .inr ⟨e, by simp [run, he]⟩

end Program
end Akabbo.StatementProgram
