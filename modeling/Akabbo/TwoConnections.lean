import Akabbo.StoppedCalls

/-!
# Two connections

A service may hold a transaction open on one connection while it calls another service that
commits on a connection of its own. What the second has committed stays when the first rolls
back; a caller that catches the error goes on from there.
-/
namespace Akabbo.TwoConnections
open StatementProgram StatementProgram.Program ProgramParts WeakestPreconditions StoppedCalls

/-- The committed rows of the first connection, what its open transaction sees of them, and
the rows of the second. -/
structure Connections (τ β : Type) where
  stored : τ
  working : τ
  apart : β

variable {κ κ' σ τ β ε ε' ρ υ : Type}

/-- The rows of the open transaction. -/
def openPart : Part (Connections τ β) τ where
  get := Connections.working
  put t s := { s with working := t }
  get_put _ _ := rfl
  put_get _ := rfl
  put_put _ _ _ := rfl

def storedPart : Part (Connections τ β) τ where
  get := Connections.stored
  put t s := { s with stored := t }
  get_put _ _ := rfl
  put_get _ := rfl
  put_put _ _ _ := rfl

def apartPart : Part (Connections τ β) β where
  get := Connections.apart
  put b s := { s with apart := b }
  get_put _ _ := rfl
  put_get _ := rfl
  put_put _ _ _ := rfl

def Connections.begun (s : Connections τ β) : Connections τ β := { s with working := s.stored }

def Connections.ended (s : Connections τ β) : Connections τ β := { s with stored := s.working }

/-- What a transaction on the first connection has done is stored at its end. -/
def transaction (p : Program κ (Connections τ β) ε ρ) : Program κ (Connections τ β) ε ρ := do
  modify (fun _ => []) Connections.begun
  let r ← p
  modify (fun _ => []) Connections.ended
  commitNow
  return r

/-- The last transaction of a call on the first connection, which ends with the call. -/
def lastTransaction (p : Program κ (Connections τ β) ε ρ) : Program κ (Connections τ β) ε ρ := do
  modify (fun _ => []) Connections.begun
  let r ← p
  modify (fun _ => []) Connections.ended
  return r

/-- A call on the second connection, which commits there whatever is open on the first. -/
def onOwn (lock : κ → κ') (p : Program κ β ε ρ) : Program κ' (Connections τ β) ε ρ := do
  let r ← apartPart.run lock p
  commitNow
  return r

/-- A call on the first connection that ends its transactions as it goes. -/
def onStored (lock : κ → κ') (p : Program κ τ ε ρ) : Program κ' (Connections τ β) ε ρ := do
  let r ← storedPart.run lock p
  commitNow
  return r

/-- The caller catches the error; what the failed transaction saw is never stored. -/
def attempt : Program κ σ ε ρ → Program κ σ ε' (Except ε ρ)
  | .pure r => .pure (.ok r)
  | .throw e => .pure (.error e)
  | .select q k => .select q fun a => attempt (k a)
  | .write l q w k => .write l q w fun a => attempt (k a)
  | .commit k => .commit (attempt k)

/-- `Q` when it returns, and `J` at every commit and wherever it fails. -/
def ensures (J : σ → Prop) : Program κ σ ε ρ → (ρ → σ → Prop) → σ → Prop
  | .pure r, Q, v => Q r v
  | .throw _, _, v => J v
  | .select q k, Q, v => ensures J (k (q v)) Q v
  | .write _ q w k, Q, v => ensures J (k (q v)) Q (w (q v) v)
  | .commit k, Q, v => J v ∧ ensures J k Q v

section rules
variable {J : σ → Prop} {v : σ}

theorem wp_of_ensures {p : Program κ σ ε ρ} {Q : ρ → σ → Prop} (h : ensures J p Q v) :
    wp J p Q v := by
  induction p generalizing v with
  | pure r => exact h
  | throw e => trivial
  | select q k ih => exact ih _ h
  | write l q w k ih => exact ih _ h
  | commit k ih => exact ⟨h.1, ih h.2⟩

theorem wp_partRun {part : Part τ σ} {lock : κ → κ'} {I : σ → Prop} {p : Program κ σ ε ρ}
    {Q : ρ → σ → Prop} {x : σ} {t : τ} (h : wp I p Q x) :
    wp (fun t' => ∃ y, I y ∧ t' = part.put y t) (part.run lock p)
      (fun r t' => ∃ y, Q r y ∧ t' = part.put y t) (part.put x t) := by
  induction p generalizing x with
  | pure r => exact ⟨x, h, rfl⟩
  | throw e => trivial
  | select q k ih =>
    change wp _ (part.run lock (k (q (part.get (part.put x t))))) _ _
    rw [part.get_put]
    exact ih _ h
  | write l q w k ih =>
    change wp _ (part.run lock (k (q (part.get (part.put x t))))) _
      (part.edit (w (q (part.get (part.put x t)))) (part.put x t))
    rw [Part.edit, part.get_put, part.put_put]
    exact ih _ h
  | commit k ih => exact ⟨⟨x, h.1, rfl⟩, ih h.2⟩

theorem wp_partRun_get {part : Part τ σ} {lock : κ → κ'} {I : σ → Prop} {p : Program κ σ ε ρ}
    {Q : ρ → σ → Prop} {t : τ} (h : wp I p Q (part.get t)) :
    wp (fun t' => ∃ y, I y ∧ t' = part.put y t) (part.run lock p)
      (fun r t' => ∃ y, Q r y ∧ t' = part.put y t) t := by
  have hrun : wp (fun t' => ∃ y, I y ∧ t' = part.put y t) (part.run lock p)
      (fun r t' => ∃ y, Q r y ∧ t' = part.put y t) (part.put (part.get t) t) := wp_partRun h
  rwa [part.put_get] at hrun

theorem ensures_mono {p : Program κ σ ε ρ} {Q Q' : ρ → σ → Prop} (h : ensures J p Q v)
    (hQ : ∀ r v', Q r v' → Q' r v') : ensures J p Q' v := by
  induction p generalizing v with
  | pure r => exact hQ r v h
  | throw e => exact h
  | select q k ih => exact ih _ h
  | write l q w k ih => exact ih _ h
  | commit k ih => exact ⟨h.1, ih h.2⟩

theorem ensures_bind {p : Program κ σ ε ρ} {f : ρ → Program κ σ ε υ} {Q : υ → σ → Prop}
    (h : ensures J p (fun r => ensures J (f r) Q) v) : ensures J (p >>= f) Q v := by
  induction p generalizing v with
  | pure r => exact h
  | throw e => exact h
  | select q k ih => exact ih _ h
  | write l q w k ih => exact ih _ h
  | commit k ih => exact ⟨h.1, ih h.2⟩

theorem ensures_map {p : Program κ σ ε ρ} {f : ρ → υ} {Q : υ → σ → Prop}
    (h : ensures J p (fun r => Q (f r)) v) : ensures J (f <$> p) Q v := by
  rw [map_eq_pure_bind]
  exact ensures_bind h

theorem ensures_refuse_bind {e : Option ε} {f : Unit → Program κ σ ε υ} {Q : υ → σ → Prop}
    (hv : J v) (h : e = none → ensures J (f ()) Q v) : ensures J (refuse e >>= f) Q v := by
  cases e with
  | none => exact h rfl
  | some e => exact hv

theorem ensures_query_bind {q : σ → ρ} {f : ρ → Program κ σ ε υ} {Q : υ → σ → Prop}
    (h : ensures J (f (q v)) Q v) : ensures J (query q >>= f) Q v := h

/-- An error is one more result, with what the commits have left. -/
theorem ensures_attempt_bind {p : Program κ σ ε ρ} {f : Except ε ρ → Program κ σ ε' υ}
    {Q : υ → σ → Prop} (h : ensures J p (fun r => ensures J (f (.ok r)) Q) v)
    (he : ∀ e v', J v' → ensures J (f (.error e)) Q v') : ensures J (attempt p >>= f) Q v := by
  induction p generalizing v with
  | pure r => exact h
  | throw e => exact he e v h
  | select q k ih => exact ih _ h
  | write l q w k ih => exact ih _ h
  | commit k ih => exact ⟨h.1, ih h.2⟩

/-- What every write keeps is kept to the end. -/
theorem ensures_of_effects {K : σ → Prop} {R : σ → σ → Prop} {p : Program κ σ ε ρ}
    (hK : ∀ s, K s → J s) (hR : ∀ s t, R s t → K s → K t) (hp : Effects R p) (h : K v) :
    ensures J p (fun _ => K) v := by
  induction p generalizing v with
  | pure r => exact h
  | throw e => exact hK v h
  | select q k ih => exact ih _ (hp _) h
  | write l q w k ih => exact ih _ (hp.2 _) (hR _ _ (hp.1 _ v) h)
  | commit k ih => exact ⟨hK v h, ih hp h⟩

/-- What a single transaction that runs alone comes to. -/
theorem ensures_of_exec {p : Program κ σ ε ρ} {Q : ρ → σ → Prop} {c v' : σ} {r : ρ}
    (hp : CommitFree p) (he : exec p c v = .ok (r, c, v')) (h : Q r v') : ensures J p Q v := by
  induction p generalizing v with
  | pure r' =>
    cases he
    exact h
  | throw e => cases he
  | select q k ih => exact ih _ (hp _) he
  | write l q w k ih => exact ih _ (hp _) he
  | commit k ih => exact hp.elim

end rules

section effects
variable {R : σ → σ → Prop}

/-- A program without any write keeps everything. -/
theorem effects_of_silent {p : Program κ σ ε ρ} (h : Writes False (fun _ _ => False) p) :
    Effects R p := by
  induction p with
  | pure r => trivial
  | throw e => trivial
  | select q k ih => exact fun a => ih a (h a)
  | write l q w k ih => exact ⟨fun _ s => (h.1 s).elim, fun a => ih a (h.2 a)⟩
  | commit k ih => exact h.1.elim

theorem effects_any {p : Program κ σ ε ρ} : Effects (fun _ _ => True) p := by
  induction p with
  | pure r => trivial
  | throw e => trivial
  | select q k ih => exact ih
  | write l q w k ih => exact ⟨fun _ _ => trivial, ih⟩
  | commit k ih => exact ih

theorem effects_attempt {p : Program κ σ ε ρ} (hp : Effects R p) :
    Effects R (attempt p : Program κ σ ε' (Except ε ρ)) := by
  induction p with
  | pure r => trivial
  | throw e => trivial
  | select q k ih => exact fun a => ih a (hp a)
  | write l q w k ih => exact ⟨hp.1, fun a => ih a (hp.2 a)⟩
  | commit k ih => exact ih hp

end effects

section connections
variable {J : Connections τ β → Prop} {s : Connections τ β}

/-- A transaction may look at what its calls have done to the second connection. -/
theorem ensures_transaction {p : Program κ (Connections τ β) ε ρ}
    {Q : ρ → Connections τ β → Prop}
    (h : ensures J p (fun r t => J t.ended ∧ Q r t.ended) s.begun) :
    ensures J (transaction p) Q s :=
  ensures_bind (p := modify _ _) <| ensures_bind <| ensures_mono h fun _ _ ht => ht

theorem ensures_openRun {I : τ → Prop} {lock : κ → κ'} {p : Program κ τ ε ρ}
    {Q : ρ → τ → Prop} (hJ : ∀ t, J { s with working := t }) {v : τ} (h : wp I p Q v) :
    ensures J (openPart.run lock p) (fun r s' => ∃ t, s' = { s with working := t } ∧ Q r t)
      { s with working := v } := by
  induction p generalizing v with
  | pure r => exact ⟨v, rfl, h⟩
  | throw e => exact hJ v
  | select q k ih => exact ih _ h
  | write l q w k ih => exact ih _ h
  | commit k ih => exact ⟨hJ v, ih h.2⟩

/-- A transaction on the rows of the first connection alone. -/
theorem ensures_transaction_run {I : τ → Prop} {lock : κ → κ'} {p : Program κ τ ε ρ}
    {Q : ρ → Connections τ β → Prop} (hJ : ∀ t, J { s with working := t })
    (h : wp I p (fun r t => J { s with stored := t, working := t } ∧
      Q r { s with stored := t, working := t }) s.stored) :
    ensures J (transaction (openPart.run lock p)) Q s := by
  refine ensures_transaction <| ensures_mono (ensures_openRun hJ h) ?_
  rintro r t ⟨t', rfl, hJt, hQ⟩
  exact ⟨hJt, hQ⟩

theorem ensures_apartRun {lock : κ → κ'} {p : Program κ β ε ρ} {Q : ρ → Connections τ β → Prop}
    {v : β} (h : ensures (fun b => J { s with apart := b }) p
      (fun r b => Q r { s with apart := b }) v) :
    ensures J (apartPart.run lock p) Q { s with apart := v } := by
  induction p generalizing v with
  | pure r => exact h
  | throw e => exact h
  | select q k ih => exact ih _ h
  | write l q w k ih => exact ih _ h
  | commit k ih => exact ⟨h.1, ih h.2⟩

/-- A call on the second connection. -/
theorem ensures_onOwn {lock : κ → κ'} {p : Program κ β ε ρ} {Q : ρ → Connections τ β → Prop}
    (h : ensures (fun b => J { s with apart := b }) p
      (fun r b => J { s with apart := b } ∧ Q r { s with apart := b }) s.apart) :
    ensures J (onOwn lock p) Q s :=
  ensures_bind <| ensures_mono (ensures_apartRun h) fun _ _ ht => ht

end connections

section exec

/-- A single transaction on a part, which returns. -/
theorem exec_partRun (part : Part τ σ) (lock : κ → κ') {p : Program κ σ ε ρ} (hp : CommitFree p)
    {c b : σ} {r : ρ} {d t : τ} (h : exec p c (part.get t) = .ok (r, c, b)) :
    exec (part.run lock p) d t = .ok (r, d, part.put b t) := by
  induction p generalizing t with
  | pure r' =>
    cases h
    rw [part.put_get]
    rfl
  | throw e => cases h
  | select q k ih => exact ih _ (hp _) h
  | write l q w k ih =>
    have hnext := ih (q (part.get t)) (hp _) (t := part.edit (w (q (part.get t))) t)
    rw [part.get_edit, Part.edit, part.put_put] at hnext
    exact hnext h
  | commit k ih => exact hp.elim

/-- A call on the second connection, which returns. -/
theorem exec_onOwn (lock : κ → κ') {p : Program κ β ε ρ} (hp : CommitFree p) {r : ρ} {b : β}
    {c v : Connections τ β} (h : exec p v.apart v.apart = .ok (r, v.apart, b)) :
    exec (onOwn lock p) c v = .ok (r, { v with apart := b }, { v with apart := b }) := by
  unfold onOwn
  rw [exec_bind, exec_partRun apartPart lock hp h]
  rfl

end exec

section stopped
variable (part : Part τ σ) (lock : κ → κ')

theorem edit_put (w : σ → σ) (v : σ) (t : τ) : part.edit w (part.put v t) = part.put (w v) t := by
  rw [Part.edit, part.get_put, part.put_put]

theorem committedAfter_partRun (n : ℕ) (p : Program κ σ ε ρ) (c v : σ) (t : τ) :
    committedAfter n (part.run lock p) (part.put c t) (part.put v t) =
      part.put (committedAfter n p c v) t := by
  induction n generalizing p c v with
  | zero => rfl
  | succ n ih =>
    cases p with
    | pure r => rfl
    | throw e => rfl
    | select q k =>
      change committedAfter n (part.run lock (k (q (part.get (part.put v t))))) _ _ = _
      rw [part.get_put]
      exact ih _ c v
    | write l q w k =>
      change committedAfter n (part.run lock (k (q (part.get (part.put v t))))) _
        (part.edit (w (q (part.get (part.put v t)))) (part.put v t)) = _
      rw [part.get_put, edit_put]
      exact ih _ c _
    | commit k => exact ih k v v

theorem returnsWithin_partRun (n : ℕ) (p : Program κ σ ε ρ) (v : σ) (t : τ) :
    returnsWithin n (part.run lock p) (part.put v t) = returnsWithin n p v := by
  induction n generalizing p v with
  | zero => rfl
  | succ n ih =>
    cases p with
    | pure r => rfl
    | throw e => rfl
    | select q k =>
      change returnsWithin n (part.run lock (k (q (part.get (part.put v t))))) _ = _
      rw [part.get_put]
      exact ih _ v
    | write l q w k =>
      change returnsWithin n (part.run lock (k (q (part.get (part.put v t)))))
        (part.edit (w (q (part.get (part.put v t)))) (part.put v t)) = _
      rw [part.get_put, edit_put]
      exact ih _ _
    | commit k => exact ih k v

/-- A call on a part returns as it does alone, with what it does to the part. -/
theorem run_partRun (p : Program κ σ ε ρ) (t : τ) : run (part.run lock p) t =
    ((run p (part.get t)).1, part.put (run p (part.get t)).2 t) := by
  have hexec (p : Program κ σ ε ρ) (c v : σ) :
      exec (part.run lock p) (part.put c t) (part.put v t) =
        ((exec p c v).map fun x => (x.1, part.put x.2.1 t, part.put x.2.2 t)).mapError
          fun x => (x.1, part.put x.2 t) := by
    induction p generalizing c v with
    | pure r => rfl
    | throw e => rfl
    | select q k ih =>
      change exec (part.run lock (k (q (part.get (part.put v t))))) _ _ = _
      rw [part.get_put]
      exact ih _ c v
    | write l q w k ih =>
      change exec (part.run lock (k (q (part.get (part.put v t))))) _
        (part.edit (w (q (part.get (part.put v t)))) (part.put v t)) = _
      rw [part.get_put, edit_put]
      exact ih _ c _
    | commit k ih => exact ih v v
  have hself := hexec p (part.get t) (part.get t)
  rw [part.put_get] at hself
  unfold run
  rw [hself]
  rcases exec p (part.get t) (part.get t) with ⟨e, c⟩ | ⟨r, c, v⟩ <;> rfl

variable {part lock} {p : Program κ σ ε ρ} {t : τ} {stop : Option ℕ}

theorem leaves_partRun : leaves stop (part.run lock p) t = part.put (leaves stop p (part.get t)) t := by
  cases stop with
  | none => exact congrArg Prod.snd (run_partRun part lock p t)
  | some n =>
    have hrun := committedAfter_partRun part lock n p (part.get t) (part.get t) t
    rwa [part.put_get] at hrun

theorem finishes_partRun : finishes stop (part.run lock p) t = finishes stop p (part.get t) := by
  cases stop with
  | none => exact congrArg (fun x => x.1.isOk) (run_partRun part lock p t)
  | some n =>
    have hrun := returnsWithin_partRun part lock n p (part.get t) t
    rwa [part.put_get] at hrun

theorem commitFree_partRun (hp : CommitFree p) : CommitFree (part.run lock p) := by
  induction p with
  | pure r => trivial
  | throw e => trivial
  | select q k ih => exact fun a => ih _ (hp _)
  | write l q w k ih => exact fun a => ih _ (hp a)
  | commit k ih => exact hp.elim

end stopped
end Akabbo.TwoConnections
