import Akabbo.TwoConnections

/-!
# Routines that throw and catch

The code of a service around its calls of the database. What it has done stays done when it throws.
A `try` catches the errors of what is awaited in it; a promise that is returned from a `try` settles
outside, and its error is the caller's.
-/
namespace Akabbo.AsyncRoutines
open StatementProgram StatementProgram.Program ProgramParts WeakestPreconditions TwoConnections

/-- `σ` is the state, `ε` the errors, `α` the result. -/
def Routine (σ ε α : Type) := σ → Except ε α × σ

/-- What a `return` in an asynchronous function hands on: a value, or a promise as it is. -/
inductive Returned (σ ε α : Type)
  | value (a : α)
  | promise (p : Routine σ ε α)

variable {κ σ τ ε ε' α β ρ : Type}

namespace Routine

instance : Monad (Routine σ ε) where
  pure a := fun s => (.ok a, s)
  bind p f := fun s => match p s with
    | (.ok a, s') => f a s'
    | (.error e, s') => (.error e, s')

def throw (e : ε) : Routine σ ε α := fun s => (.error e, s)

def get : Routine σ ε σ := fun s => (.ok s, s)

def modify (f : σ → σ) : Routine σ ε Unit := fun s => (.ok (), f s)

/-- The error of a call, if it comes to one. -/
def refuse : Option ε → Routine σ ε Unit
  | some e => throw e
  | none => pure ()

def fromExcept : Except ε α → Routine σ ε α
  | .ok a => pure a
  | .error e => throw e

/-- The result or the error, for the code that goes on. -/
def caught (p : Routine σ ε α) : Routine σ ε' (Except ε α) := fun s => (.ok (p s).1, (p s).2)

/-- A `try` in an asynchronous function, with a handler that throws nothing. -/
def asyncTry (body : Routine σ ε (Returned σ ε α)) (handler : ε → α) : Routine σ ε α := do
  match ← caught body with
  | .ok (.value a) => return a
  | .ok (.promise p) => p
  | .error e => return handler e

/-- The same routine on a part of the state, with its errors as the whole names them. -/
def on (part : Part τ σ) (lift : ε → ε') (p : Routine σ ε α) : Routine τ ε' α := fun t =>
  ((p (part.get t)).1.mapError lift, part.put (p (part.get t)).2 t)

/-- A call of the database. -/
def statements (p : Program κ σ ε ρ) : Routine σ ε ρ := run p

/-- `Q` when it returns, `E` when it throws. -/
def ends (p : Routine σ ε α) (Q : α → σ → Prop) (E : ε → σ → Prop) (s : σ) : Prop :=
  match p s with
  | (.ok a, s') => Q a s'
  | (.error e, s') => E e s'

def Rejects (p : Routine σ ε α) (s : σ) : Prop := ∃ e, (p s).1 = .error e

section running
variable {s s' : σ} {p : Routine σ ε β}

theorem bind_of_ok {f : β → Routine σ ε α} {b : β} (h : p s = (.ok b, s')) :
    (p >>= f) s = f b s' := by
  change (match p s with
    | (.ok b, s') => f b s'
    | (.error e, s') => (.error e, s')) = _
  rw [h]

theorem bind_of_error {f : β → Routine σ ε α} {e : ε} (h : p s = (.error e, s')) :
    (p >>= f) s = (.error e, s') := by
  change (match p s with
    | (.ok b, s') => f b s'
    | (.error e, s') => (.error e, s')) = _
  rw [h]

theorem map_of_ok {f : β → α} {b : β} (h : p s = (.ok b, s')) : (f <$> p) s = (.ok (f b), s') :=
  bind_of_ok (f := fun b => Pure.pure (f b)) h

theorem map_of_error {f : β → α} {e : ε} (h : p s = (.error e, s')) :
    (f <$> p) s = (.error e, s') := bind_of_error (f := fun b => Pure.pure (f b)) h

theorem on_of_ok {part : Part τ σ} {lift : ε → ε'} {t : τ} {b : β}
    (h : p (part.get t) = (.ok b, s')) : on part lift p t = (.ok b, part.put s' t) := by
  unfold on
  rw [h]
  rfl

theorem statements_of_exec {q : Program κ σ ε ρ} {r : ρ} {c' : σ}
    (h : exec q s s = .ok (r, c', s')) : statements q s = (.ok r, s') := by
  unfold statements run
  rw [h]

theorem rejects_map {f : β → α} : Rejects (f <$> p) s ↔ Rejects p s := by
  unfold Rejects
  rcases hp : p s with ⟨e | b, s'⟩
  · rw [map_of_error hp]
    simp
  · rw [map_of_ok hp]
    simp

theorem rejects_on {part : Part τ σ} {lift : ε → ε'} {t : τ} :
    Rejects (on part lift p) t ↔ Rejects p (part.get t) := by
  unfold Rejects on
  dsimp only
  cases (p (part.get t)).1 with
  | error e => simp [Except.mapError]
  | ok b => simp [Except.mapError]

end running

section rules
variable {s : σ} {Q : α → σ → Prop} {E : ε → σ → Prop}

theorem ends_bind {p : Routine σ ε β} {f : β → Routine σ ε α}
    (h : ends p (fun b => ends (f b) Q E) E s) : ends (p >>= f) Q E s := by
  unfold ends at h ⊢
  change match (match p s with
    | (.ok b, s') => f b s'
    | (.error e, s') => (.error e, s')) with
    | (.ok a, s') => Q a s'
    | (.error e, s') => E e s'
  revert h
  rcases p s with ⟨e | b, s'⟩
  · exact id
  · exact id

theorem ends_mono {Q' : α → σ → Prop} {E' : ε → σ → Prop} {p : Routine σ ε α}
    (h : ends p Q E s) (hQ : ∀ a s', Q a s' → Q' a s') (hE : ∀ e s', E e s' → E' e s') :
    ends p Q' E' s := by
  unfold ends at h ⊢
  revert h
  rcases p s with ⟨e | a, s'⟩
  · exact hE e s'
  · exact hQ a s'

theorem ends_map {f : β → α} {p : Routine σ ε β} (h : ends p (fun b => Q (f b)) E s) :
    ends (f <$> p) Q E s := ends_bind (f := fun b => Pure.pure (f b)) h

theorem ends_get_bind {f : σ → Routine σ ε α} (h : ends (f s) Q E s) :
    ends (get >>= f) Q E s := h

theorem ends_modify_bind {w : σ → σ} {f : Unit → Routine σ ε α} (h : ends (f ()) Q E (w s)) :
    ends (modify w >>= f) Q E s := h

/-- An error is one more result. -/
theorem ends_caught_bind {p : Routine σ ε' β} {f : Except ε' β → Routine σ ε α}
    (h : ends p (fun b => ends (f (.ok b)) Q E) (fun e => ends (f (.error e)) Q E) s) :
    ends (caught p >>= f) Q E s := by
  change ends (f (p s).1) Q E (p s).2
  unfold ends at h
  rcases hp : p s with ⟨e | b, s'⟩
  · rw [hp] at h
    exact h
  · rw [hp] at h
    exact h

theorem ends_asyncTry {body : Routine σ ε (Returned σ ε α)} {handler : ε → α}
    (h : ends body (fun r s' => match r with
        | .value a => Q a s'
        | .promise p => ends p Q E s') (fun e => Q (handler e)) s) :
    ends (asyncTry body handler) Q E s := by
  refine ends_caught_bind (ends_mono h ?_ fun e s' he => he)
  intro r s' hr
  cases r with
  | value a => exact hr
  | promise p => exact hr

theorem ends_on {part : Part τ σ} {lift : ε' → ε} {p : Routine σ ε' α} {t : τ}
    {Q : α → τ → Prop} {E : ε → τ → Prop}
    (h : ends p (fun a x => Q a (part.put x t)) (fun e x => E (lift e) (part.put x t))
      (part.get t)) : ends (on part lift p) Q E t := by
  unfold ends at h
  unfold ends on
  revert h
  rcases p (part.get t) with ⟨e | a, x⟩
  · exact id
  · exact id

/-- What holds of a routine that has returned. -/
theorem ends_ok {p : Routine σ ε α} (h : ends p Q E s) {a : α} {s' : σ} (hp : p s = (.ok a, s')) :
    Q a s' := by
  unfold ends at h
  rw [hp] at h
  exact h

/-- The run that a rule speaks of is the one that is made. -/
theorem ends_run {p : Routine σ ε α} (h : ends p Q E s) :
    ends p (fun a s' => Q a s' ∧ p s = (.ok a, s')) (fun e s' => E e s' ∧ p s = (.error e, s')) s := by
  unfold ends at h ⊢
  rcases hp : p s with ⟨e | a, s'⟩
  · rw [hp] at h
    exact ⟨h, rfl⟩
  · rw [hp] at h
    exact ⟨h, rfl⟩

theorem ends_result {P : Except ε α × σ → Prop} {p : Routine σ ε α}
    (h : ends p (fun a s' => P (.ok a, s')) (fun e s' => P (.error e, s')) s) : P (p s) := by
  unfold ends at h
  rcases hp : p s with ⟨e | a, s'⟩
  · rw [hp] at h
    exact h
  · rw [hp] at h
    exact h

/-- What holds in the end, however it ends. -/
theorem ends_state {I : σ → Prop} {p : Routine σ ε α} (h : ends p (fun _ => I) (fun _ => I) s) :
    I (p s).2 := by
  unfold ends at h
  rcases hp : p s with ⟨e | a, s'⟩
  · rw [hp] at h
    exact h
  · rw [hp] at h
    exact h

end rules

section rejecting
variable {s : σ}

theorem not_rejects_iff {p : Routine σ ε α} : ¬ Rejects p s ↔ ∃ a, (p s).1 = .ok a := by
  unfold Rejects
  cases (p s).1 with
  | error e => simp
  | ok a => simp

/-- A `try` rejects exactly when it returns a promise that does. -/
theorem rejects_asyncTry {body : Routine σ ε (Returned σ ε α)} {handler : ε → α} :
    Rejects (asyncTry body handler) s ↔
      ∃ p s', body s = (.ok (.promise p), s') ∧ Rejects p s' := by
  have hrun : asyncTry body handler s = match body s with
      | (.ok (.value a), s') => (.ok a, s')
      | (.ok (.promise p), s') => p s'
      | (.error e, s') => (.ok (handler e), s') := by
    change (match (body s).1 with
      | .ok (.value a) => (Pure.pure a : Routine σ ε α)
      | .ok (.promise p) => p
      | .error e => Pure.pure (handler e)) (body s).2 = _
    rcases body s with ⟨e | a | p, s'⟩ <;> rfl
  unfold Rejects
  rw [hrun]
  rcases body s with ⟨e | a | p, s'⟩
  · simp
  · simp
  · constructor
    · exact fun h => ⟨p, s', rfl, h⟩
    · rintro ⟨_, _, h, hp⟩
      cases h
      exact hp

end rejecting

def preserves (R : σ → σ → Prop) (p : Routine σ ε α) : Prop :=
  ∀ s, ends p (fun _ => R s) (fun _ => R s) s

section preserving
variable {R : σ → σ → Prop} {p : Routine σ ε β}

theorem preserves_pure (hrefl : ∀ s, R s s) (a : α) :
    preserves R (Pure.pure a : Routine σ ε α) := fun s => hrefl s

theorem preserves_get (hrefl : ∀ s, R s s) : preserves R (get : Routine σ ε σ) := fun s => hrefl s

theorem preserves_modify {f : σ → σ} (h : ∀ s, R s (f s)) :
    preserves R (modify f : Routine σ ε Unit) := fun s => h s

theorem preserves_refuse (hrefl : ∀ s, R s s) (x : Option ε) :
    preserves R (refuse x : Routine σ ε Unit) := by
  cases x with
  | none => exact fun s => hrefl s
  | some e => exact fun s => hrefl s

theorem preserves_fromExcept (hrefl : ∀ s, R s s) (r : Except ε α) :
    preserves R (fromExcept r : Routine σ ε α) := by
  cases r with
  | ok a => exact fun s => hrefl s
  | error e => exact fun s => hrefl s

theorem preserves_bind (htrans : ∀ s t u, R s t → R t u → R s u) {f : β → Routine σ ε α}
    (hp : preserves R p) (hf : ∀ b, preserves R (f b)) : preserves R (p >>= f) := fun s =>
  ends_bind <| ends_mono (hp s) (fun b t ht => ends_mono (hf b t)
    (fun _ _ hu => htrans _ _ _ ht hu) fun _ _ hu => htrans _ _ _ ht hu) fun _ _ ht => ht

theorem preserves_map {f : β → α} (hp : preserves R p) : preserves R (f <$> p) := fun s =>
  ends_map (hp s)

theorem preserves_caught (hp : preserves R p) :
    preserves R (caught p : Routine σ ε' (Except ε β)) := fun s =>
  ends_state (I := R s) (hp s)

end preserving

end Routine

/-- The database fails on the statement with this number; what has returned by then has returned. -/
def interrupted : ℕ → ε → Program κ σ ε ρ → Program κ σ ε ρ
  | _, _, .pure r => .pure r
  | _, _, .throw e => .throw e
  | 0, e, .select _ _ => .throw e
  | 0, e, .write _ _ _ _ => .throw e
  | 0, e, .commit _ => .throw e
  | n + 1, e, .select q k => .select q fun a => interrupted n e (k a)
  | n + 1, e, .write l q w k => .write l q w fun a => interrupted n e (k a)
  | n + 1, e, .commit k => .commit (interrupted n e k)

def underFault (fault : Option (ℕ × ε)) (p : Program κ σ ε ρ) : Program κ σ ε ρ :=
  match fault with
  | none => p
  | some (n, e) => interrupted n e p

section faults
variable {I : σ → Prop} {Q : ρ → σ → Prop} {p : Program κ σ ε ρ} {v : σ}

theorem wp_interrupted (h : wp I p Q v) (n : ℕ) (e : ε) : wp I (interrupted n e p) Q v := by
  induction p generalizing n v with
  | pure r =>
    rw [interrupted]
    exact h
  | throw x =>
    rw [interrupted]
    trivial
  | select q k ih =>
    cases n with
    | zero => trivial
    | succ n => exact ih _ h n
  | write l q w k ih =>
    cases n with
    | zero => trivial
    | succ n => exact ih _ h n
  | commit k ih =>
    cases n with
    | zero => trivial
    | succ n => exact ⟨h.1, ih h.2 n⟩

theorem wp_underFault (h : wp I p Q v) (fault : Option (ℕ × ε)) :
    wp I (underFault fault p) Q v := by
  rcases fault with _ | ⟨n, e⟩
  · exact h
  · exact wp_interrupted h n e

theorem wp_any : wp (fun _ => True) p (fun _ _ => True) v := by
  induction p generalizing v with
  | pure r => trivial
  | throw e => trivial
  | select q k ih => exact ih _
  | write l q w k ih => exact ih _
  | commit k ih => exact ⟨trivial, ih⟩

/-- A call leaves what it has committed when it throws. -/
theorem ends_statements (h : wp I p Q v) (hv : I v) :
    Routine.ends (Routine.statements p) Q (fun _ => I) v := by
  unfold Routine.ends Routine.statements run
  cases he : exec p v v with
  | error x => exact exec_wp_error h hv he
  | ok x => exact exec_wp h he

end faults

/-- `Q` of what is committed and seen when it returns; wherever the database may fail before that,
what is committed satisfies `E`. -/
def withstands (E : σ → Prop) : Program κ σ ε ρ → (ρ → σ → σ → Prop) → σ → σ → Prop
  | .pure r, Q, c, v => Q r c v
  | .throw _, _, c, _ => E c
  | .select q k, Q, c, v => E c ∧ withstands E (k (q v)) Q c v
  | .write _ q w k, Q, c, v => E c ∧ withstands E (k (q v)) Q c (w (q v) v)
  | .commit k, Q, c, v => E c ∧ withstands E k Q v v

section withstanding
variable {E : σ → Prop} {Q : ρ → σ → σ → Prop} {p : Program κ σ ε ρ} {c v : σ}

theorem withstands_mono {Q' : ρ → σ → σ → Prop} (h : withstands E p Q c v)
    (hQ : ∀ r c' v', Q r c' v' → Q' r c' v') : withstands E p Q' c v := by
  induction p generalizing c v with
  | pure r => exact hQ r c v h
  | throw e => exact h
  | select q k ih => exact ⟨h.1, ih _ h.2⟩
  | write l q w k ih => exact ⟨h.1, ih _ h.2⟩
  | commit k ih => exact ⟨h.1, ih h.2⟩

theorem withstands_weaken {E' : σ → Prop} (h : withstands E p Q c v) (hE : ∀ s, E s → E' s) :
    withstands E' p Q c v := by
  induction p generalizing c v with
  | pure r => exact h
  | throw e => exact hE c h
  | select q k ih => exact ⟨hE c h.1, ih _ h.2⟩
  | write l q w k ih => exact ⟨hE c h.1, ih _ h.2⟩
  | commit k ih => exact ⟨hE c h.1, ih h.2⟩

theorem withstands_bind {f : ρ → Program κ σ ε α} {Q : α → σ → σ → Prop}
    (h : withstands E p (fun r c' v' => withstands E (f r) Q c' v') c v) :
    withstands E (p >>= f) Q c v := by
  induction p generalizing c v with
  | pure r => exact h
  | throw e => exact h
  | select q k ih => exact ⟨h.1, ih _ h.2⟩
  | write l q w k ih => exact ⟨h.1, ih _ h.2⟩
  | commit k ih => exact ⟨h.1, ih h.2⟩

theorem withstands_map {f : ρ → α} {Q : α → σ → σ → Prop}
    (h : withstands E p (fun r c' v' => Q (f r) c' v') c v) : withstands E (f <$> p) Q c v := by
  rw [map_eq_pure_bind]
  exact withstands_bind h

theorem withstands_query_bind {q : σ → ρ} {f : ρ → Program κ σ ε α} {Q : α → σ → σ → Prop}
    (hE : E c) (h : withstands E (f (q v)) Q c v) : withstands E (query q >>= f) Q c v := ⟨hE, h⟩

theorem withstands_refuse_bind {x : Option ε} {f : Unit → Program κ σ ε ρ} (hE : E c)
    (h : x = none → withstands E (f ()) Q c v) :
    withstands E (Program.refuse x >>= f) Q c v := by
  cases x with
  | none => exact h rfl
  | some x => exact hE

/-- What every write keeps is seen in the end, and wherever it is committed. -/
theorem withstands_effects {R : σ → σ → Prop} (htrans : ∀ {s t u}, R s t → R t u → R s u) {s : σ}
    (hE : ∀ t, R s t → E t) (hp : Effects R p) (hc : E c) (hv : R s v) :
    withstands E p (fun _ c' v' => E c' ∧ R s v') c v := by
  induction p generalizing c v with
  | pure r => exact ⟨hc, hv⟩
  | throw e => exact hc
  | select q k ih => exact ⟨hc, ih _ (hp _) hc hv⟩
  | write l q w k ih => exact ⟨hc, ih _ (hp.2 _) hc (htrans hv (hp.1 _ v))⟩
  | commit k ih => exact ⟨hc, ih hp (hE v hv) hv⟩

theorem withstands_of_effects {R : σ → σ → Prop} (htrans : ∀ {s t u}, R s t → R t u → R s u)
    (hp : Effects R p) {s : σ} (hc : R s c) (hv : R s v) :
    withstands (R s) p (fun _ c' v' => R s c' ∧ R s v') c v :=
  withstands_effects (R := R) htrans (fun _ h => h) hp hc hv

theorem withstands_interrupted {Q : ρ → σ → Prop} (h : withstands E p (fun r _ v' => Q r v') c v)
    (n : ℕ) (e : ε) : match exec (interrupted n e p) c v with
      | .ok (r, _, v') => Q r v'
      | .error (_, c') => E c' := by
  induction p generalizing n c v with
  | pure r =>
    rw [interrupted]
    exact h
  | throw x =>
    rw [interrupted]
    exact h
  | select q k ih =>
    cases n with
    | zero => exact h.1
    | succ n => exact ih _ h.2 n
  | write l q w k ih =>
    cases n with
    | zero => exact h.1
    | succ n => exact ih _ h.2 n
  | commit k ih =>
    cases n with
    | zero => exact h.1
    | succ n => exact ih h.2 n

theorem withstands_exec {Q : ρ → σ → Prop} (h : withstands E p (fun r _ v' => Q r v') c v) :
    match exec p c v with
      | .ok (r, _, v') => Q r v'
      | .error (_, c') => E c' := by
  induction p generalizing c v with
  | pure r => exact h
  | throw x => exact h
  | select q k ih => exact ih _ h.2
  | write l q w k ih => exact ih _ h.2
  | commit k ih => exact ih h.2

theorem ends_underFault {Q : ρ → σ → Prop} (h : withstands E p (fun r _ v' => Q r v') v v)
    (fault : Option (ℕ × ε)) :
    Routine.ends (Routine.statements (underFault fault p)) Q (fun _ => E) v := by
  have hexec : match exec (underFault fault p) v v with
      | .ok (r, _, v') => Q r v'
      | .error (_, c') => E c' := by
    rcases fault with _ | ⟨n, e⟩
    · exact withstands_exec h
    · exact withstands_interrupted h n e
  unfold Routine.ends Routine.statements run
  revert hexec
  rcases exec (underFault fault p) v v with x | x
  · exact id
  · exact id

end withstanding

section connections
variable {β : Type} {κ' : Type} {E : Connections τ β → Prop}
  {Q : ρ → Connections τ β → Connections τ β → Prop} {c s : Connections τ β}

theorem withstands_openRun {I : τ → Prop} {lock : κ → κ'} {p : Program κ τ ε ρ}
    {Q : ρ → τ → Prop} (hE : ∀ t, E { s with working := t }) {v : τ} (hc : E c) (h : wp I p Q v) :
    withstands E (openPart.run lock p) (fun r c' s' => E c' ∧
      ∃ t, s' = { s with working := t } ∧ Q r t) c { s with working := v } := by
  induction p generalizing c v with
  | pure r => exact ⟨hc, v, rfl, h⟩
  | throw e => exact hc
  | select q k ih => exact ⟨hc, ih _ hc h⟩
  | write l q w k ih => exact ⟨hc, ih _ hc h⟩
  | commit k ih => exact ⟨hc, ih (hE v) h.2⟩

/-- Until a transaction is committed, nothing of it is. -/
theorem withstands_transaction {p : Program κ (Connections τ β) ε ρ} (hc : E c)
    (h : withstands E p (fun r c' s' => E c' ∧ Q r s'.ended s'.ended) c s.begun) :
    withstands E (transaction p) Q c s := by
  refine withstands_bind (p := modify _ _) ⟨hc, withstands_bind <| withstands_mono h ?_⟩
  rintro r c' s' ⟨hc', hQ⟩
  exact ⟨hc', hc', hQ⟩

/-- A transaction on the first connection alone. -/
theorem withstands_transaction_run {I : τ → Prop} {lock : κ → κ'} {p : Program κ τ ε ρ}
    (hE : ∀ t, E { s with working := t }) (hc : E c)
    (h : wp I p (fun r t => Q r { s with stored := t, working := t }
      { s with stored := t, working := t }) s.stored) :
    withstands E (transaction (openPart.run lock p)) Q c s := by
  refine withstands_transaction hc <| withstands_mono (withstands_openRun hE hc h) ?_
  rintro r c' s' ⟨hc', t, rfl, hQ⟩
  exact ⟨hc', hQ⟩

theorem withstands_apartRun {I : β → Prop} {lock : κ → κ'} {p : Program κ β ε ρ} {Q : ρ → β → Prop}
    (hE : ∀ b, I b → E { s with apart := b }) {v : β} (hc : E c) (h : wp I p Q v) :
    withstands E (apartPart.run lock p) (fun r c' s' => E c' ∧
      ∃ b, s' = { s with apart := b } ∧ Q r b) c { s with apart := v } := by
  induction p generalizing c v with
  | pure r => exact ⟨hc, v, rfl, h⟩
  | throw e => exact hc
  | select q k ih => exact ⟨hc, ih _ hc h⟩
  | write l q w k ih => exact ⟨hc, ih _ hc h⟩
  | commit k ih => exact ⟨hc, ih (hE v h.1) h.2⟩

/-- A call on the second connection; what it commits on the way satisfies `I`. -/
theorem withstands_onOwn {I : β → Prop} {lock : κ → κ'} {p : Program κ β ε ρ}
    (hE : ∀ b, I b → E { s with apart := b }) (hc : E c)
    (h : wp I p (fun r b => Q r { s with apart := b } { s with apart := b }) s.apart) :
    withstands E (onOwn lock p) Q c s := by
  refine withstands_bind <| withstands_mono (withstands_apartRun hE hc h) ?_
  rintro r c' s' ⟨hc', b, rfl, hQ⟩
  exact ⟨hc', hQ⟩

end connections
end Akabbo.AsyncRoutines
