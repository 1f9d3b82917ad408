import Mathlib.Algebra.Order.Group.Nat
import Mathlib.Data.List.Induction
import Mathlib.Tactic.Linarith

/-!
# Fixed windows

Visits fall into windows of one length, each of which opens at the first visit that comes after the
end of the one before.
-/
namespace Akabbo.FixedWindows

structure Visit where
  start : ℕ
  time : ℕ
  admitted : Bool
  deriving DecidableEq, Repr

variable (length : ℕ)

/-- The window that lasts, or one that opens. -/
def windowAt (last : Option Visit) (time : ℕ) : ℕ :=
  match last with
  | some v => if time < v.start + length then v.start else time
  | none => time

/-- One more visit, with its time and whether it is admitted. -/
def record (vs : List Visit) (arrival : ℕ × Bool) : List Visit :=
  vs ++ [⟨windowAt length vs.getLast? arrival.1, arrival.1, arrival.2⟩]

def visits (arrivals : List (ℕ × Bool)) : List Visit := arrivals.foldl (record length) []

/-- Those of the window that opened at `s`. -/
def visitsIn (s : ℕ) (vs : List Visit) : ℕ := vs.countP fun v => v.start == s

def admittedIn (s : ℕ) (vs : List Visit) : ℕ := vs.countP fun v => v.start == s && v.admitted

/-- Those between two times, which both count. -/
def admittedWithin (lo hi : ℕ) (vs : List Visit) : ℕ :=
  vs.countP fun v => (lo ≤ v.time && v.time ≤ hi) && v.admitted

theorem visits_snoc (arrivals : List (ℕ × Bool)) (arrival : ℕ × Bool) :
    visits length (arrivals ++ [arrival]) = record length (visits length arrivals) arrival := by
  unfold visits
  rw [List.foldl_append, List.foldl_cons, List.foldl_nil]

/-- Each visit is in its window, two windows do not overlap, and the last visit is the latest. -/
structure Ordered (vs : List Visit) : Prop where
  within : ∀ v ∈ vs, v.start ≤ v.time ∧ v.time < v.start + length
  apart : ∀ v ∈ vs, ∀ w ∈ vs,
    v.start = w.start ∨ v.start + length ≤ w.start ∨ w.start + length ≤ v.start
  latest : ∀ l ∈ vs.getLast?, ∀ v ∈ vs, v.time ≤ l.time ∧ v.start ≤ l.start

section ordered
variable {length} {vs : List Visit} {time : ℕ} {admitted : Bool}

theorem ordered_record (hlength : 0 < length) (h : Ordered length vs)
    (htime : ∀ v ∈ vs, v.time ≤ time) : Ordered length (record length vs (time, admitted)) := by
  have hnew : windowAt length vs.getLast? time ≤ time ∧
      time < windowAt length vs.getLast? time + length ∧
      ∀ v ∈ vs, v.start ≤ windowAt length vs.getLast? time ∧
        (v.start = windowAt length vs.getLast? time ∨
          v.start + length ≤ windowAt length vs.getLast? time) := by
    cases hlast : vs.getLast? with
    | none =>
      rw [List.getLast?_eq_none_iff] at hlast
      rw [hlast]
      exact ⟨le_rfl, by change time < time + length; omega, nofun⟩
    | some l =>
      have hl := List.mem_of_mem_getLast? hlast
      have hwithin := h.within l hl
      have hlate := htime l hl
      have hlatest := h.latest l hlast
      unfold windowAt
      dsimp only
      split_ifs with hopen
      · refine ⟨by omega, hopen, fun v hv => ⟨(hlatest v hv).2, ?_⟩⟩
        have := (hlatest v hv).2
        rcases h.apart v hv l hl with heq | hbefore | hafter
        · exact .inl heq
        · exact .inr hbefore
        · omega
      · refine ⟨le_rfl, by omega, fun v hv => ?_⟩
        have := (hlatest v hv).2
        omega
  obtain ⟨hstart, hend, hothers⟩ := hnew
  unfold record
  refine ⟨fun v hv => ?_, fun v hv w hw => ?_, fun l hl v hv => ?_⟩
  · rcases List.mem_append.mp hv with hv | hv
    · exact h.within v hv
    · obtain rfl := List.mem_singleton.mp hv
      exact ⟨hstart, hend⟩
  · rcases List.mem_append.mp hv with hv | hv
    · rcases List.mem_append.mp hw with hw | hw
      · exact h.apart v hv w hw
      · obtain rfl := List.mem_singleton.mp hw
        exact (hothers v hv).2.imp_right .inl
    · obtain rfl := List.mem_singleton.mp hv
      rcases List.mem_append.mp hw with hw | hw
      · exact (hothers w hw).2.imp Eq.symm .inr
      · obtain rfl := List.mem_singleton.mp hw
        exact .inl rfl
  · rw [List.getLast?_concat] at hl
    obtain rfl := Option.some.inj hl
    rcases List.mem_append.mp hv with hv | hv
    · exact ⟨htime v hv, (hothers v hv).1⟩
    · obtain rfl := List.mem_singleton.mp hv
      exact ⟨le_rfl, le_rfl⟩

theorem time_visits {arrivals : List (ℕ × Bool)} {v : Visit} (hv : v ∈ visits length arrivals) :
    ∃ arrival ∈ arrivals, arrival.1 = v.time := by
  induction arrivals using List.reverseRecOn with
  | nil => cases hv
  | append_singleton arrivals arrival ih =>
    rw [visits_snoc] at hv
    rcases List.mem_append.mp hv with hv | hv
    · obtain ⟨earlier, hearlier, htime⟩ := ih hv
      exact ⟨earlier, List.mem_append_left _ hearlier, htime⟩
    · obtain rfl := List.mem_singleton.mp hv
      exact ⟨arrival, by simp, rfl⟩

theorem ordered_visits (hlength : 0 < length) {arrivals : List (ℕ × Bool)}
    (h : arrivals.Pairwise fun a b => a.1 ≤ b.1) : Ordered length (visits length arrivals) := by
  induction arrivals using List.reverseRecOn with
  | nil => exact ⟨nofun, nofun, nofun⟩
  | append_singleton arrivals arrival ih =>
    rw [List.pairwise_append] at h
    rw [visits_snoc]
    refine ordered_record hlength (ih h.1) fun v hv => ?_
    obtain ⟨earlier, hearlier, htime⟩ := time_visits hv
    rw [← htime]
    exact h.2.2 earlier hearlier arrival (List.mem_singleton_self _)

end ordered

section bounds
variable {length} {vs : List Visit} {max : ℕ}

/-- A visit is admitted just if fewer than `max` were in its window before it. -/
def Limited (max : ℕ) (vs : List Visit) : Prop :=
  ∀ before v after, vs = before ++ v :: after → (v.admitted = true ↔ visitsIn v.start before < max)

theorem limited_snoc {v : Visit} (h : Limited max vs)
    (hv : v.admitted = true ↔ visitsIn v.start vs < max) : Limited max (vs ++ [v]) := by
  intro before w after heq
  rcases List.eq_nil_or_concat after with rfl | ⟨after, last, rfl⟩
  · obtain ⟨rfl, hw⟩ := List.append_inj' heq rfl
    rw [← List.singleton_inj.mp hw]
    exact hv
  · rw [List.concat_eq_append, ← List.cons_append, ← List.append_assoc] at heq
    exact h before w after (List.append_inj' heq rfl).1

theorem admittedIn_le (h : Limited max vs) (s : ℕ) : admittedIn s vs ≤ max := by
  induction vs using List.reverseRecOn with
  | nil => exact Nat.zero_le max
  | append_singleton vs v ih =>
    have hvs : Limited max vs := fun before w after heq =>
      h before w (after ++ [v]) (by rw [heq, List.append_assoc, List.cons_append])
    unfold admittedIn
    rw [List.countP_append, List.countP_singleton]
    split_ifs with hcounts
    · obtain ⟨hstart, hadmitted⟩ := Bool.and_eq_true _ _ |>.mp hcounts
      have hfew := (h vs v [] rfl).mp hadmitted
      have hle : vs.countP (fun v => v.start == s && v.admitted) ≤ visitsIn s vs :=
        List.countP_mono_left fun w _ hw => (Bool.and_eq_true _ _ |>.mp hw).1
      rw [eq_of_beq hstart] at hfew
      omega
    · exact ih hvs

/-- Of visits that are all in one window at most `max` are admitted. -/
theorem countP_admitted_le (hmax : ∀ s, admittedIn s vs ≤ max) {p : Visit → Bool}
    (h : ∀ v ∈ vs, p v = true → ∀ w ∈ vs, p w = true → v.start = w.start) :
    (vs.countP fun v => p v && v.admitted) ≤ max := by
  by_cases hsome : ∃ v ∈ vs, p v = true
  · obtain ⟨v, hv, hp⟩ := hsome
    refine le_trans (List.countP_mono_left fun w hw hcounts => ?_) (hmax v.start)
    obtain ⟨hpw, hadmitted⟩ := Bool.and_eq_true _ _ |>.mp hcounts
    rw [h w hw hpw v hv hp, hadmitted, beq_self_eq_true]
    rfl
  · rw [List.countP_eq_zero.mpr]
    · exact Nat.zero_le max
    · intro v hv hcounts
      exact hsome ⟨v, hv, (Bool.and_eq_true _ _ |>.mp hcounts).1⟩

theorem countP_split (p q : Visit → Bool) :
    vs.countP p = (vs.countP fun v => p v && q v) + vs.countP fun v => p v && !q v := by
  rw [List.countP_eq_countP_filter_add vs p q, List.countP_filter, List.countP_filter]

/-- No stretch of time that is no longer than a window meets three windows. -/
theorem admittedWithin_le (hvs : Ordered length vs) (hmax : ∀ s, admittedIn s vs ≤ max) (lo : ℕ) :
    admittedWithin lo (lo + length) vs ≤ 2 * max := by
  have hsplit (q : Visit → Bool)
      (hone : ∀ b, ∀ v ∈ vs, lo ≤ v.time → v.time ≤ lo + length → q v = b →
        ∀ w ∈ vs, lo ≤ w.time → w.time ≤ lo + length → q w = b → v.start = w.start) :
      admittedWithin lo (lo + length) vs ≤ 2 * max := by
    have hhalf (b : Bool) : (vs.countP fun v =>
        ((lo ≤ v.time && v.time ≤ lo + length) && (q v == b)) && v.admitted) ≤ max := by
      refine countP_admitted_le hmax fun v hv hp w hw hp' => ?_
      simp only [Bool.and_eq_true, decide_eq_true_eq, beq_iff_eq] at hp hp'
      exact hone b v hv hp.1.1 hp.1.2 hp.2 w hw hp'.1.1 hp'.1.2 hp'.2
    have htrue := hhalf true
    have hfalse := hhalf false
    unfold admittedWithin
    rw [countP_split _ q]
    have hsame : (vs.countP fun v =>
        ((lo ≤ v.time && v.time ≤ lo + length) && v.admitted) && q v) = vs.countP fun v =>
        ((lo ≤ v.time && v.time ≤ lo + length) && (q v == true)) && v.admitted :=
      List.countP_congr fun v _ => by cases q v <;> simp
    have hsame' : (vs.countP fun v =>
        ((lo ≤ v.time && v.time ≤ lo + length) && v.admitted) && !q v) = vs.countP fun v =>
        ((lo ≤ v.time && v.time ≤ lo + length) && (q v == false)) && v.admitted :=
      List.countP_congr fun v _ => by cases q v <;> simp
    rw [hsame, hsame']
    omega
  by_cases hearly : ∃ v ∈ vs, lo ≤ v.time ∧ v.start < lo
  · -- one window has opened before, and the next lasts to the end
    obtain ⟨u, hu, hlo, hbefore⟩ := hearly
    refine hsplit (fun v => v.start < lo) fun b v hv hv₁ hv₂ hvb w hw hw₁ hw₂ hwb => ?_
    have hu' := hvs.within u hu
    have hv' := hvs.within v hv
    have hw' := hvs.within w hw
    have huv := hvs.apart u hu v hv
    have huw := hvs.apart u hu w hw
    have hvw := hvs.apart v hv w hw
    cases b <;> simp at hvb hwb <;> omega
  · -- the first opens at the beginning or later, the second before the end
    push Not at hearly
    refine hsplit (fun v => v.start < lo + length) fun b v hv hv₁ hv₂ hvb w hw hw₁ hw₂ hwb => ?_
    have hv' := hvs.within v hv
    have hw' := hvs.within w hw
    have hvw := hvs.apart v hv w hw
    have hv'' := hearly v hv hv₁
    have hw'' := hearly w hw hw₁
    cases b <;> simp at hvb hwb <;> omega

end bounds

end Akabbo.FixedWindows
