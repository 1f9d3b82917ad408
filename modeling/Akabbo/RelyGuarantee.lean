import Akabbo.FirstClaim
import Akabbo.ProgramParts

/-!
# Calls that rely on each other

What a call finds between its statements is what the others have made of the rows it relies on.
A program that abides by a guarantee, as long as the others keep what it relies on, is checked by
itself; calls whose guarantees give what the others rely on keep theirs together.
-/
namespace Akabbo.RelyGuarantee
open StatementProgram StatementProgram.Program ReadCommitted FirstClaim ProgramParts

variable {κ σ ε ρ τ : Type}

/-- While the others move the rows by `R`, every commit moves them by `G`, and the program ends with
`Q`, of its result, what it has pending, and the rows it has last seen. -/
def Abides (R G : σ → σ → Prop) (Q : ρ → Bool → (σ → σ) → σ → Prop) :
    Program κ σ ε ρ → Bool → (σ → σ) → σ → Prop
  | .pure r, d, f, v => Q r d f v
  | .throw _, _, _, _ => True
  | .select q k, d, f, v => ∀ s, R v s → Abides R G Q (k (q (f s))) d f s
  | .write _ q w k, _, f, v =>
      ∀ s, R v s → Abides R G Q (k (q (f s))) true (w (q (f s)) ∘ f) s
  | .commit k, true, f, v => ∀ s, R v s → G s (f s) ∧ Abides R G Q k false id (f s)
  | .commit k, false, f, v => Abides R G Q k false f v

/-- A call that returns applies what it has pending, and leaves rows with `P`. -/
def Leaves (R G : σ → σ → Prop) (P : ρ → σ → Prop) (r : ρ) (_ : Bool) (f : σ → σ) (v : σ) : Prop :=
  ∀ s, R v s → G s (f s) ∧ P r (f s)

section rules
variable {R G : σ → σ → Prop} {Q : ρ → Bool → (σ → σ) → σ → Prop} {d : Bool} {f : σ → σ} {v : σ}

theorem abides_mono {Q' : ρ → Bool → (σ → σ) → σ → Prop} (hQ : ∀ r d f v, Q r d f v → Q' r d f v)
    {p : Program κ σ ε ρ} (h : Abides R G Q p d f v) : Abides R G Q' p d f v := by
  induction p generalizing d f v with
  | pure r => exact hQ r d f v h
  | throw e => trivial
  | select q k ih => exact fun s hs => ih _ (h s hs)
  | write l q w k ih => exact fun s hs => ih _ (h s hs)
  | commit k ih =>
    cases d with
    | false => exact ih h
    | true => exact fun s hs => ⟨(h s hs).1, ih (h s hs).2⟩

theorem abides_bind {p : Program κ σ ε τ} {k : τ → Program κ σ ε ρ}
    (h : Abides R G (fun r d f v => Abides R G Q (k r) d f v) p d f v) :
    Abides R G Q (p >>= k) d f v := by
  induction p generalizing d f v with
  | pure r => exact h
  | throw e => trivial
  | select q k ih => exact fun s hs => ih _ (h s hs)
  | write l q w k ih => exact fun s hs => ih _ (h s hs)
  | commit k ih =>
    cases d with
    | false => exact ih h
    | true => exact fun s hs => ⟨(h s hs).1, ih (h s hs).2⟩

theorem abides_map {g : τ → ρ} {p : Program κ σ ε τ} (h : Abides R G (fun r => Q (g r)) p d f v) :
    Abides R G Q (g <$> p) d f v := by
  rw [map_eq_pure_bind]
  exact abides_bind h

theorem abides_query_bind {q : σ → τ} {k : τ → Program κ σ ε ρ}
    (h : ∀ s, R v s → Abides R G Q (k (q (f s))) d f s) :
    Abides R G Q (query q >>= k) d f v := h

theorem abides_refuse_bind {e : Option ε} {k : Unit → Program κ σ ε ρ}
    (h : e = none → Abides R G Q (k ()) d f v) : Abides R G Q (refuse e >>= k) d f v := by
  cases e with
  | none => exact h rfl
  | some e => trivial

theorem abides_orThrow_bind {o : Option τ} {e : ε} {k : τ → Program κ σ ε ρ}
    (h : ∀ a, o = some a → Abides R G Q (k a) d f v) :
    Abides R G Q (orThrow o e >>= k) d f v := by
  cases o with
  | none => trivial
  | some a => exact h a rfl

theorem abides_modify_bind {l : σ → List κ} {w : σ → σ} {k : Unit → Program κ σ ε ρ}
    (h : ∀ s, R v s → Abides R G Q (k ()) true (w ∘ f) s) :
    Abides R G Q (modify l w >>= k) d f v := h

theorem abides_write_bind {l : σ → List κ} {q : σ → τ} {w : τ → σ → σ} {k : τ → Program κ σ ε ρ}
    (h : ∀ s, R v s → Abides R G Q (k (q (f s))) true (w (q (f s)) ∘ f) s) :
    Abides R G Q (Program.write l q w .pure >>= k) d f v := h

theorem abides_modifyChecked_bind {l : σ → List κ} {q : σ → Except ε τ} {w : σ → σ}
    {k : τ → Program κ σ ε ρ}
    (h : ∀ s, R v s → ∀ a, q (f s) = .ok a → Abides R G Q (k a) true (w ∘ f) s) :
    Abides R G Q (modifyChecked l q w >>= k) d f v := by
  intro s hs
  change Abides R G Q (Program.bind _ k) _ _ _
  cases hq : q (f s) with
  | error e => trivial
  | ok a => exact h s hs a hq

theorem abides_commitNow_bind {k : Unit → Program κ σ ε ρ}
    (h : ∀ s, R v s → G s (f s) ∧ Abides R G Q (k ()) false id (f s)) :
    Abides R G Q (commitNow >>= k) true f v := h

/-- The others may go on before the next statement. -/
theorem abides_rely (htrans : ∀ a b c, R a b → R b c → R a c)
    (hQ : ∀ r d f v s, R v s → Q r d f v → Q r d f s) {p : Program κ σ ε ρ} {s : σ} (hs : R v s)
    (h : Abides R G Q p d f v) : Abides R G Q p d f s := by
  induction p generalizing d f with
  | pure r => exact hQ r d f v s hs h
  | throw e => trivial
  | select q k ih => exact fun s' hs' => h s' (htrans _ _ _ hs hs')
  | write l q w k ih => exact fun s' hs' => h s' (htrans _ _ _ hs hs')
  | commit k ih =>
    cases d with
    | false => exact ih h
    | true => exact fun s' hs' => h s' (htrans _ _ _ hs hs')

end rules

def mapError {ε' : Type} (g : ε → ε') : Program κ σ ε ρ → Program κ σ ε' ρ
  | .pure r => .pure r
  | .throw e => .throw (g e)
  | .select q k => .select q fun a => mapError g (k a)
  | .write l q w k => .write l q w fun a => mapError g (k a)
  | .commit k => .commit (mapError g k)

theorem mapError_bind {ε' : Type} (g : ε → ε') (p : Program κ σ ε τ) (k : τ → Program κ σ ε ρ) :
    mapError g (p >>= k) = mapError g p >>= fun r => mapError g (k r) := by
  induction p with
  | pure r => rfl
  | throw e => rfl
  | select q k ih => exact congrArg (Program.select q) (funext ih)
  | write l q w k ih => exact congrArg (Program.write l q w) (funext ih)
  | commit k ih => exact congrArg Program.commit ih

theorem abides_mapError {ε' : Type} {R G : σ → σ → Prop} {Q : ρ → Bool → (σ → σ) → σ → Prop}
    {d : Bool} {f : σ → σ} {v : σ} {g : ε → ε'} {p : Program κ σ ε ρ} (h : Abides R G Q p d f v) :
    Abides R G Q (mapError g p) d f v := by
  induction p generalizing d f v with
  | pure r => exact h
  | throw e => trivial
  | select q k ih => exact fun s hs => ih _ (h s hs)
  | write l q w k ih => exact fun s hs => ih _ (h s hs)
  | commit k ih =>
    cases d with
    | false => exact ih h
    | true => exact fun s hs => ⟨(h s hs).1, ih (h s hs).2⟩

/-- A program on a part of the rows abides on all of them. `K` speaks of the rest. -/
theorem abides_part {κ' : Type} (part : Part τ σ) (lock : κ → κ') {R G : σ → σ → Prop}
    (R' G' : τ → τ → Prop) (K : τ → Prop) {Q : ρ → Bool → (σ → σ) → σ → Prop}
    (hrely : ∀ a b, R' a b → R (part.get a) (part.get b)) (hstable : ∀ a b, R' a b → K a → K b)
    (hkeeps : ∀ s t, K t → K (part.put s t))
    (hguarantee : ∀ s t, K t → G (part.get t) s → G' t (part.put s t))
    {p : Program κ σ ε ρ} {d : Bool} {f : σ → σ} {v : τ} (hv : K v)
    (h : Abides R G Q p d f (part.get v)) :
    Abides R' G' (fun r d g v => ∃ f, g = part.edit f ∧ K v ∧ Q r d f (part.get v))
      (part.run lock p) d (part.edit f) v := by
  have hid : (id : τ → τ) = part.edit id := by
    funext t
    exact (part.put_get t).symm
  induction p generalizing d f v with
  | pure r => exact ⟨f, rfl, hv, h⟩
  | throw e => trivial
  | select q k ih =>
    intro s hs
    have hrest := ih _ (hstable _ _ hs hv) (h _ (hrely _ _ hs))
    rw [← part.get_edit f s] at hrest
    exact hrest
  | write l q w k ih =>
    intro s hs
    have hrest := ih _ (hstable _ _ hs hv) (h _ (hrely _ _ hs))
    have hedit : part.edit (w (q (f (part.get s))) ∘ f) =
        part.edit (w (q (f (part.get s)))) ∘ part.edit f := by
      funext t
      simp only [Part.edit, Function.comp_apply, part.get_put, part.put_put]
    rw [hedit, ← part.get_edit f s] at hrest
    exact hrest
  | commit k ih =>
    cases d with
    | false => exact ih hv h
    | true =>
      intro s hs
      obtain ⟨hg, hrest⟩ := h _ (hrely _ _ hs)
      have hk := hkeeps (f (part.get s)) s (hstable _ _ hs hv)
      refine ⟨hguarantee _ _ (hstable _ _ hs hv) hg, ?_⟩
      rw [← part.get_put (f (part.get s)) s] at hrest
      have hnext := ih hk hrest
      rw [← hid] at hnext
      exact hnext

/-- What one call guarantees is what the others rely on, and keeps what they have left. -/
structure Compatible (R G : ℕ → σ → σ → Prop) (P : ℕ → ρ → σ → Prop) (I : σ → Prop) : Prop where
  refl : ∀ t s, R t s s
  trans : ∀ t a b c, R t a b → R t b c → R t a c
  relied : ∀ t u a b, t ≠ u → G t a b → R u a b
  left : ∀ t u r a b, t ≠ u → P u r a → G t a b → P u r b
  invariant : ∀ t a b, I a → G t a b → I b

structure Secured (R G : ℕ → σ → σ → Prop) (P : ℕ → ρ → σ → Prop) (I : σ → Prop)
    (sys : System κ σ ε ρ) : Prop where
  invariant : I sys.committed
  running : ∀ (t : ℕ) x, sys.slots[t]? = some (.running x) →
    Abides (R t) (G t) (Leaves (R t) (G t) (P t)) x.rest x.dirty x.pending sys.committed
  returned : ∀ (t : ℕ) r, sys.slots[t]? = some (.finished (some (.ok r))) → P t r sys.committed

section together
variable [DecidableEq κ] {R G : ℕ → σ → σ → Prop} {P : ℕ → ρ → σ → Prop} {I : σ → Prop}
  {sys : System κ σ ε ρ}

/-- One statement of a call that abides. -/
theorem abides_advance {R G : σ → σ → Prop} {P : ρ → σ → Prop} (hrefl : ∀ s, R s s)
    {x : Session κ σ ε ρ} (held : List κ) {v : σ}
    (h : Abides R G (Leaves R G P) x.rest x.dirty x.pending v) :
    ((x.advance held v).1 = v ∨ G v (x.advance held v).1) ∧
    (∀ x', (x.advance held v).2 = .running x' →
      Abides R G (Leaves R G P) x'.rest x'.dirty x'.pending (x.advance held v).1) ∧
    ∀ r, (x.advance held v).2 = .finished (some (.ok r)) →
      G v (x.advance held v).1 ∧ P r (x.advance held v).1 := by
  cases hr : x.rest with
  | pure r =>
    rw [hr] at h
    obtain ⟨hg, hp⟩ := h v (hrefl v)
    simp only [Session.advance, hr]
    refine ⟨.inr hg, by simp, fun r' hr' => ?_⟩
    cases hr'
    exact ⟨hg, hp⟩
  | throw e =>
    simp only [Session.advance, hr]
    exact ⟨.inl trivial, by simp, by simp⟩
  | select q k =>
    rw [hr] at h
    simp only [Session.advance, hr]
    refine ⟨.inl trivial, fun x' hx' => ?_, by simp⟩
    cases hx'
    exact h v (hrefl v)
  | write l q w k =>
    rw [hr] at h
    simp only [Session.advance, hr]
    split_ifs
    · refine ⟨.inl rfl, fun x' hx' => ?_, by simp⟩
      cases hx'
      rw [hr]
      exact h
    · refine ⟨.inl rfl, fun x' hx' => ?_, by simp⟩
      cases hx'
      exact h v (hrefl v)
  | commit k =>
    rw [hr] at h
    cases hd : x.dirty with
    | true =>
      rw [hd] at h
      obtain ⟨hg, hrest⟩ := h v (hrefl v)
      simp only [Session.advance, hr, hd, if_true]
      refine ⟨.inr hg, fun x' hx' => ?_, by simp⟩
      cases hx'
      exact hrest
    | false =>
      rw [hd] at h
      simp only [Session.advance, hr, hd, Bool.false_eq_true, if_false]
      refine ⟨.inl trivial, fun x' hx' => ?_, by simp⟩
      cases hx'
      exact h

theorem leaves_rely {R G : σ → σ → Prop} {P : ρ → σ → Prop}
    (htrans : ∀ a b c, R a b → R b c → R a c) (r : ρ) (d : Bool) (f : σ → σ) (v s : σ) (hs : R v s)
    (h : Leaves R G P r d f v) :
    Leaves R G P r d f s := fun s' hs' => h s' (htrans _ _ _ hs hs')

theorem secured_step (hc : Compatible R G P I) (h : Secured R G P I sys) (m : Move) :
    Secured R G P I (sys.step m) := by
  rcases step_cases_open sys m with ⟨hsame, -⟩ | ⟨t, x, rfl, hslot, hstep⟩ | ⟨t, x, rfl, hslot⟩
  · rwa [hsame]
  · rw [hstep]
    refine ⟨h.invariant, fun u y hy => ?_, fun u r hr => ?_⟩
    · rcases slot_set hy with ⟨-, hy⟩ | ⟨-, hy⟩
      · cases hy
      · exact h.running u y hy
    · rcases slot_set hr with ⟨-, hr⟩ | ⟨-, hr⟩
      · cases hr
      · exact h.returned u r hr
  · obtain ⟨hmoved, hopen, hleft⟩ := abides_advance (hc.refl t) (sys.heldByOthers t)
      (h.running t x hslot)
    rw [step_advance hslot]
    refine ⟨?_, fun u y hy => ?_, fun u r hr => ?_⟩
    · rcases hmoved with hsame | hg
      · change I (x.advance (sys.heldByOthers t) sys.committed).1
        rw [hsame]
        exact h.invariant
      · exact hc.invariant t _ _ h.invariant hg
    · rcases slot_set hy with ⟨rfl, hy⟩ | ⟨hne, hy⟩
      · exact hopen y hy
      · have hrely : R u sys.committed (x.advance (sys.heldByOthers t) sys.committed).1 := by
          rcases hmoved with hsame | hg
          · rw [hsame]
            exact hc.refl u _
          · exact hc.relied t u _ _ hne.symm hg
        exact abides_rely (hc.trans u) (leaves_rely (hc.trans u)) hrely (h.running u y hy)
    · rcases slot_set hr with ⟨rfl, hr⟩ | ⟨hne, hr⟩
      · exact (hleft r hr).2
      · rcases hmoved with hsame | hg
        · rw [hsame]
          exact h.returned u r hr
        · exact hc.left t u r _ _ hne.symm (h.returned u r hr) hg

/-- Calls that abide by what the others rely on do so along every run. -/
theorem secured_run (hc : Compatible R G P I) (h : Secured R G P I sys) (moves : List Move) :
    Secured R G P I (sys.run moves) :=
  run_invariant (I := Secured R G P I) (C := fun _ _ => True)
    (fun _ m hsys _ => secured_step hc hsys m) h moves fun _ _ _ _ => trivial

/-- A step leaves the committed rows alone or moves them as one of the calls guarantees. -/
theorem secured_moves (hc : Compatible R G P I) (h : Secured R G P I sys) (m : Move) :
    (sys.step m).committed = sys.committed ∨ ∃ t, G t sys.committed (sys.step m).committed := by
  rcases step_cases_open sys m with ⟨hsame, -⟩ | ⟨t, x, rfl, -, hstep⟩ | ⟨t, x, rfl, hslot⟩
  · exact .inl (by rw [hsame])
  · exact .inl (by rw [hstep])
  · rw [step_advance hslot]
    have hadvance := abides_advance (hc.refl t) (sys.heldByOthers t) (h.running t x hslot)
    exact hadvance.1.imp_right fun hg => ⟨t, hg⟩

/-- What every call guarantees holds between any two points of a run. -/
theorem secured_between {T : σ → σ → Prop} (hc : Compatible R G P I) (hrefl : ∀ s, T s s)
    (htrans : ∀ a b c, T a b → T b c → T a c) (hG : ∀ t a b, G t a b → T a b)
    (h : Secured R G P I sys) (moves : List Move) :
    T sys.committed (sys.run moves).committed := by
  induction moves using List.reverseRecOn with
  | nil => exact hrefl _
  | append_singleton moves m ih =>
    rw [run_append]
    change T _ ((sys.run moves).step m).committed
    rcases secured_moves hc (secured_run hc h moves) m with hsame | ⟨t, hg⟩
    · rwa [hsame]
    · exact htrans _ _ _ ih (hG t _ _ hg)

omit [DecidableEq κ] in
theorem secured_begin {request : Type} {program : request → Program κ σ ε ρ}
    {requests : List request} {s : σ} (hI : I s)
    (h : ∀ (t : ℕ) c, requests[t]? = some c →
      Abides (R t) (G t) (Leaves (R t) (G t) (P t)) (program c) false id s) :
    Secured R G P I (System.begin s (requests.map program)) := by
  refine ⟨hI, fun t x hx => ?_, fun t r hr => ?_⟩
  · obtain ⟨p, hp, rfl⟩ := running_begin hx
    rw [List.getElem?_map, Option.map_eq_some_iff] at hp
    obtain ⟨c, hcall, rfl⟩ := hp
    exact h t c hcall
  · simp [System.begin] at hr

end together

end Akabbo.RelyGuarantee
