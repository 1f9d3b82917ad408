import Akabbo.OutboxDrain

/-!
# How long a row of the outbox waits

A drain claims the twenty oldest rows that wait. A row whose handler threw keeps its date, so
twenty such rows leave a younger one behind at every drain for as long as they throw. While fewer
of them wait, each drain that passes a row over claims an untried row ahead of it.
-/
namespace Akabbo.OutboxBacklog
open RowTable CallRuns OutboxDrain

/-- A drain begins that claims `e`. -/
def takes (s : DrainState) (e : OutboxEntry) : DrainStep → Bool
  | .select w => decide (s.workers w = .idle) && decide (e.message ∈ batch s)
  | _ => false

def begins (s : DrainState) : DrainStep → ℕ
  | .select w => if s.workers w = .idle then 1 else 0
  | _ => 0

/-- A row ahead of `e` whose handler has not thrown. -/
def isAhead (s : DrainState) (e x : OutboxEntry) : Bool :=
  s.free x && x.attempts == 0 && decide (x.createdAt ≤ e.createdAt) && x.id != e.id

def ahead (s : DrainState) (e : OutboxEntry) : ℕ := s.outbox.rows.countP (isAhead s e)

/-- A row that every drain takes before `e`. -/
def isOlder (s : DrainState) (e x : OutboxEntry) : Bool :=
  s.free x && decide (x.createdAt < e.createdAt)

def older (s : DrainState) (e : OutboxEntry) : ℕ := s.outbox.rows.countP (isOlder s e)

/-- How many rows a step puts ahead of `e` at most: one that is enqueued with no later a date, or
those that a crash leaves unmarked. -/
def comesAhead (e : OutboxEntry) : DrainStep → ℕ
  | .enqueue _ _ createdAt => if createdAt ≤ e.createdAt then 1 else 0
  | .crash _ => batchSize
  | _ => 0

/-- A row that waits after its handler threw. -/
def waitsAgain (e : OutboxEntry) : Bool := e.status == .pending && decide (0 < e.attempts)

def again (s : DrainState) : ℕ := s.outbox.rows.countP waitsAgain

section runs
variable (registered : String → Bool)

/-- A drain of the run claims `e`. -/
def taken (e : OutboxEntry) : DrainState → List DrainStep → Prop
  | _, [] => False
  | s, c :: rest => takes s e c = true ∨ taken e (step registered s c) rest

/-- The drains that begin in the run. -/
def drains : DrainState → List DrainStep → ℕ
  | _, [] => 0
  | s, c :: rest => begins s c + drains (step registered s c) rest

/-- Every row with a handler has been handled, or is in the hands of a live worker, or waits and
is claimed in the rest of the run before more drains begin than there are untried rows ahead of
it, now and later. -/
def Delivered (s : DrainState) (rest : List DrainStep) : Prop :=
  ∀ e ∈ s.outbox, registered e.row.topic = true →
    e.id ∈ s.returned ∨
      (∃ w, e.message ∈ (s.workers w).locked ++ (s.workers w).unfinished) ∨
      s.free e = true ∧ (taken registered e s rest ∨
        drains registered s rest ≤ ahead s e + (rest.map (comesAhead e)).sum)

/-- So in every state of the run, and no row is handled by two workers. -/
def deliveredThroughout : DrainState → List DrainStep → Prop
  | s, [] => Delivered registered s [] ∧ HandledByOne s
  | s, c :: rest => (Delivered registered s (c :: rest) ∧ HandledByOne s) ∧
      deliveredThroughout (step registered s c) rest

end runs

/-- Fewer than twenty rows wait again at a time. -/
def FewAgain (s : DrainState) : DrainStep → Prop
  | .reopen w => ∀ msg rest, s.workers w = .reopening msg rest → again s + 1 < batchSize
  | _ => True

/-- An outbox of rows that nobody has tried, before any worker has started. -/
structure Fresh (s : DrainState) : Prop where
  workers : ∀ w, s.workers w = .idle
  locks : s.locks = []
  returned : s.returned = []
  pending : ∀ e ∈ s.outbox, e.status = .pending
  untried : ∀ e ∈ s.outbox, e.attempts = 0

/-- What holds in every state: the rows, the locks and the workers fit together, a row is locked
by the worker that selected it, no batch is too large, and few rows wait again. -/
structure Steady (s : DrainState) : Prop where
  coherent : Coherent s
  lockers : ∀ i ∈ s.locks, ∃ w, i ∈ (s.workers w).locked.map OutboxMessage.id
  small : ∀ w, (s.workers w).locked.length ≤ batchSize
  few : again s < batchSize

section counts
variable {α : Type} {l : List α} {p q r : α → Bool}

theorem countP_le_add (h : ∀ x ∈ l, p x = true → q x = true ∨ r x = true) :
    l.countP p ≤ l.countP q + l.countP r := by
  induction l with
  | nil => simp
  | cons x l ih =>
    have hrest := ih fun y hy => h y (List.mem_cons_of_mem _ hy)
    have hx := h x List.mem_cons_self
    rw [List.countP_cons, List.countP_cons, List.countP_cons]
    cases hp : p x with
    | false =>
      rw [if_neg (by simp)]
      omega
    | true =>
      rcases hx hp with hq | hr
      · rw [hq]
        simp only [if_true]
        omega
      · rw [hr]
        simp only [if_true]
        omega

theorem countP_lt_of_mem (h : ∀ x ∈ l, p x = true → q x = true) {x : α} (hx : x ∈ l)
    (hq : q x = true) (hp : p x = false) : l.countP p < l.countP q := by
  obtain ⟨xs, ys, rfl⟩ := List.append_of_mem hx
  have hxs : xs.countP p ≤ xs.countP q :=
    List.countP_mono_left fun y hy => h y (List.mem_append_left _ hy)
  have hys : ys.countP p ≤ ys.countP q :=
    List.countP_mono_left fun y hy => h y (List.mem_append_right _ (List.mem_cons_of_mem _ hy))
  rw [List.countP_append, List.countP_append, List.countP_cons, List.countP_cons, hq, hp]
  simp only [if_true, Bool.false_eq_true, if_false]
  omega

/-- The rows whose keys are in a list are no more than the list is long. -/
theorem countP_key_le {ι : Type} [DecidableEq ι] {key : α → ι} (t : Table ι α key)
    (keys : List ι) : t.rows.countP (fun x => decide (key x ∈ keys)) ≤ keys.length := by
  rw [List.countP_eq_length_filter, ← List.length_map (f := key)]
  refine (List.Nodup.subperm (t.nodup.sublist (List.filter_sublist.map key)) ?_).length_le
  intro k hk
  obtain ⟨x, hx, rfl⟩ := List.mem_map.mp hk
  simpa using (List.mem_filter.mp hx).2

end counts

section waiting
variable {registered : String → Bool} {s : DrainState} {e : OutboxEntry} {w : ℕ}

theorem isAhead_iff {x : OutboxEntry} : isAhead s e x = true ↔
    s.free x = true ∧ x.attempts = 0 ∧ x.createdAt ≤ e.createdAt ∧ x.id ≠ e.id := by
  simp [isAhead, and_assoc]

theorem isOlder_iff {x : OutboxEntry} : isOlder s e x = true ↔
    s.free x = true ∧ x.createdAt < e.createdAt := by
  simp [isOlder]

/-- A drain that passes a row over takes twenty rows that are no younger. -/
theorem passed_over (he : e ∈ s.outbox) (hfree : s.free e = true) (hnot : e.message ∉ batch s) :
    (s.queue.take batchSize).length = batchSize ∧
      ∀ x ∈ s.queue.take batchSize, x.createdAt ≤ e.createdAt := by
  have hsplit := List.take_append_drop batchSize s.queue
  have hlate : e ∈ s.queue.drop batchSize := by
    have hqueue : e ∈ s.queue := mem_queue.mpr ⟨he, hfree⟩
    rw [← hsplit] at hqueue
    exact (List.mem_append.mp hqueue).resolve_left fun h => hnot (List.mem_map_of_mem h)
  have hsorted : s.queue.Pairwise fun a b => a.createdAt ≤ b.createdAt :=
    List.pairwise_insertionSort (fun a b : OutboxEntry => a.createdAt ≤ b.createdAt) _
  rw [← hsplit] at hsorted
  refine ⟨?_, fun x hx => (List.pairwise_append.mp hsorted).2.2 x hx e hlate⟩
  have hlong := List.length_pos_of_mem hlate
  rw [List.length_drop] at hlong
  rw [List.length_take]
  omega

/-- Where few rows wait again, one of the twenty has not been tried. -/
theorem exists_untried (h : Steady s) (hfull : (s.queue.take batchSize).length = batchSize) :
    ∃ x ∈ s.queue.take batchSize, x.attempts = 0 := by
  by_contra hnone
  push Not at hnone
  have hsub : s.queue.take batchSize ⊆ s.outbox.rows.filter waitsAgain := by
    intro x hx
    obtain ⟨hmem, hfree⟩ := mem_queue.mp (List.mem_of_mem_take hx)
    refine List.mem_filter.mpr ⟨hmem, ?_⟩
    simp [waitsAgain, (free_iff.mp hfree).1, Nat.pos_of_ne_zero (hnone x hx)]
  have hnodup : (s.queue.take batchSize).Nodup :=
    List.Nodup.of_map _ (nodup_queue.sublist ((List.take_sublist batchSize _).map OutboxEntry.id))
  have hle := (hnodup.subperm hsub).length_le
  rw [← List.countP_eq_length_filter, hfull] at hle
  exact absurd h.few (not_lt.mpr hle)

theorem ahead_select (h : Steady s) (he : e ∈ s.outbox) (hfree : s.free e = true)
    (hnot : e.message ∉ batch s) : ahead { s.goTo w (.selected (batch s)) with
      locks := s.locks ++ (batch s).map OutboxMessage.id } e + 1 ≤ ahead s e := by
  obtain ⟨hfull, holder⟩ := passed_over he hfree hnot
  obtain ⟨x, hx, huntried⟩ := exists_untried h hfull
  obtain ⟨hmem, hxfree⟩ := mem_queue.mp (List.mem_of_mem_take hx)
  have hxbatch : x.id ∈ (batch s).map OutboxMessage.id :=
    List.mem_map_of_mem (List.mem_map_of_mem hx)
  refine countP_lt_of_mem (fun y _ hy => ?_) hmem (isAhead_iff.mpr
    ⟨hxfree, huntried, holder x hx, fun hid => hnot ?_⟩) ?_
  · obtain ⟨hyfree, hrest⟩ := isAhead_iff.mp hy
    refine isAhead_iff.mpr ⟨?_, hrest⟩
    obtain ⟨hpending, hunlocked⟩ := free_iff.mp hyfree
    exact free_iff.mpr ⟨hpending, fun hlock => hunlocked (List.mem_append_left _ hlock)⟩
  · obtain rfl := Table.key_inj hmem he hid
    exact List.mem_map_of_mem hx
  · rw [Bool.eq_false_iff]
    intro hahead
    exact (free_iff.mp (isAhead_iff.mp hahead).1).2 (List.mem_append_right _ hxbatch)

theorem countP_update_le {ι ρ : Type} {key : ρ → ι} {t : Table ι ρ key} {p q q' : ρ → Bool}
    {f : ρ → ρ} (hf : ∀ r, key (f r) = key r)
    (h : ∀ r ∈ t, q' (if p r then f r else r) = true → q r = true) :
    (t.update p f hf).rows.countP q' ≤ t.rows.countP q := by
  unfold Table.update
  rw [List.countP_map]
  exact List.countP_mono_left h

theorem ahead_mark {rows : List OutboxMessage} {now : ℕ} : ahead
    { s.goTo w (.dispatching rows) with
      outbox := markProcessed s rows now, locks := unlock s rows } e ≤ ahead s e := by
  refine countP_update_le ?_ fun x _ hx => ?_
  · exact fun _ => rfl
  by_cases hid : x.id ∈ rows.map OutboxMessage.id
  · rw [if_pos (decide_eq_true hid)] at hx
    exact absurd (free_iff.mp (isAhead_iff.mp hx).1).1 (by simp)
  · rw [if_neg (decide_eq_true_iff.not.mpr hid)] at hx
    obtain ⟨hfree, hrest⟩ := isAhead_iff.mp hx
    obtain ⟨hpending, hunlocked⟩ := free_iff.mp hfree
    refine isAhead_iff.mpr ⟨free_iff.mpr ⟨hpending, fun hlock => hunlocked ?_⟩, hrest⟩
    exact List.mem_filter.mpr ⟨hlock, decide_eq_true hid⟩

theorem ahead_reopen {i : ℕ} {rest : List OutboxMessage} :
    ahead { s.goTo w (.dispatching rest) with outbox := reopened s i } e ≤ ahead s e := by
  refine countP_update_le ?_ fun x _ hx => ?_
  · exact fun _ => rfl
  by_cases hid : x.id = i
  · rw [if_pos (by simpa using hid)] at hx
    exact absurd (isAhead_iff.mp hx).2.1 (by simp)
  · rw [if_neg (by simpa using hid)] at hx
    exact hx

/-- A crash frees the rows of one batch at most. -/
theorem ahead_crash (h : Steady s) :
    ahead { s.goTo w .idle with locks := unlock s (s.workers w).locked } e ≤
      ahead s e + batchSize := by
  refine (countP_le_add (q := isAhead s e)
    (r := fun x => decide (x.id ∈ (s.workers w).locked.map OutboxMessage.id))
    fun x _ hx => ?_).trans ?_
  · by_cases hid : x.id ∈ (s.workers w).locked.map OutboxMessage.id
    · exact .inr (decide_eq_true hid)
    · obtain ⟨hfree, hrest⟩ := isAhead_iff.mp hx
      obtain ⟨hpending, hunlocked⟩ := free_iff.mp hfree
      refine .inl (isAhead_iff.mpr ⟨free_iff.mpr ⟨hpending, fun hlock => hunlocked ?_⟩, hrest⟩)
      exact List.mem_filter.mpr ⟨hlock, decide_eq_true hid⟩
  · have hkeys := countP_key_le s.outbox ((s.workers w).locked.map OutboxMessage.id)
    rw [List.length_map] at hkeys
    exact Nat.add_le_add_left (hkeys.trans (h.small w)) _

theorem ahead_enqueue {id : ℕ} {row : LedgerState.OutboxRow} {createdAt : ℕ} :
    ahead (enqueue s id row createdAt) e ≤
      ahead s e + comesAhead e (.enqueue id row createdAt) := by
  unfold enqueue
  split_ifs
  · exact Nat.le_add_right _ _
  · unfold ahead Table.insertNew
    dsimp only
    split_ifs
    · exact Nat.le_add_right _ _
    · rw [List.countP_append, List.countP_singleton]
      refine Nat.add_le_add_left ?_ _
      unfold comesAhead isAhead
      by_cases hlate : createdAt ≤ e.createdAt
      · simp only [hlate, if_true]
        split_ifs <;> omega
      · simp [hlate]

/-- While no drain claims a free row it stays as it is. -/
theorem free_stays (h : Coherent s) (he : e ∈ s.outbox) (hfree : s.free e = true) {c : DrainStep}
    (hnot : takes s e c = false) :
    e ∈ (step registered s c).outbox ∧ (step registered s c).free e = true := by
  obtain ⟨hpending, hunlocked⟩ := free_iff.mp hfree
  have hstep : Stepped registered s c (step registered s c) := stepped c
  generalize step registered s c = s' at hstep ⊢
  cases hstep with
  | stays _ _ => exact ⟨he, hfree⟩
  | enqueued id row createdAt =>
    unfold enqueue
    split_ifs
    · exact ⟨he, hfree⟩
    · exact ⟨Table.mem_insertNew_of_mem he, hfree⟩
  | @selects w hidle =>
    have hbatch : e.message ∉ batch s := by simpa [takes, hidle] using hnot
    refine ⟨he, free_iff.mpr ⟨hpending, fun hlock => ?_⟩⟩
    rcases List.mem_append.mp hlock with hold | hnew
    · exact hunlocked hold
    · obtain ⟨msg, hmsg, hid⟩ := List.mem_map.mp hnew
      obtain ⟨x, hx, rfl, -⟩ := mem_batch hmsg
      obtain rfl := Table.key_inj hx he hid
      exact hbatch hmsg
  | @marks w now rows hrows =>
    have hid : e.id ∉ rows.map OutboxMessage.id := by
      intro hmem
      obtain ⟨msg, hmsg, hid⟩ := List.mem_map.mp hmem
      exact hunlocked (hid ▸ h.locks w msg (hrows ▸ hmsg))
    refine ⟨mem_markProcessed_of_not_mem he hid, free_iff.mpr ⟨hpending, fun hlock => ?_⟩⟩
    exact hunlocked (List.mem_of_mem_filter hlock)
  | ends _ => exact ⟨he, hfree⟩
  | handles _ => exact ⟨he, hfree⟩
  | skips _ _ => exact ⟨he, hfree⟩
  | returns _ => exact ⟨he, hfree⟩
  | throws _ => exact ⟨he, hfree⟩
  | @reopens w msg rest hphase =>
    refine ⟨mem_reopened_of_ne he fun hid => ?_, hfree⟩
    obtain ⟨x, hx, hmessage, hprocessed⟩ :=
      h.marked w msg (by rw [hphase]; exact List.mem_cons_self)
    obtain rfl := Table.key_inj hx he ((congrArg OutboxMessage.id hmessage).trans hid.symm)
    rw [hpending] at hprocessed
    cases hprocessed
  | gone _ _ => exact ⟨he, hfree⟩
  | crashes w =>
    exact ⟨he, free_iff.mpr ⟨hpending, fun hlock => hunlocked (List.mem_of_mem_filter hlock)⟩⟩

/-- Each drain that passes a row over takes one from ahead of it. -/
theorem ahead_step (h : Steady s) (he : e ∈ s.outbox) (hfree : s.free e = true) {c : DrainStep}
    (hnot : takes s e c = false) :
    ahead (step registered s c) e + begins s c ≤ ahead s e + comesAhead e c := by
  have hstep : Stepped registered s c (step registered s c) := stepped c
  generalize step registered s c = s' at hstep ⊢
  cases hstep with
  | stays _ hbusy =>
    refine Nat.add_le_add_left ?_ _
    cases c with
    | select w => simp [begins, hbusy w rfl]
    | _ => exact Nat.zero_le _
  | enqueued id row createdAt => exact ahead_enqueue
  | @selects w hidle =>
    have hbatch : e.message ∉ batch s := by simpa [takes, hidle] using hnot
    have hbegins : begins s (.select w) = 1 := by simp [begins, hidle]
    rw [hbegins]
    exact (ahead_select h he hfree hbatch).trans (Nat.le_add_right _ _)
  | marks _ => exact ahead_mark
  | ends _ => exact le_rfl
  | handles _ => exact le_rfl
  | skips _ _ => exact le_rfl
  | returns _ => exact le_rfl
  | throws _ => exact le_rfl
  | reopens _ => exact ahead_reopen
  | gone _ _ => exact le_rfl
  | crashes w => exact ahead_crash h

/-- A drain leaves a row behind that twenty older ones precede. -/
theorem left_behind (he : e ∈ s.outbox) (hfree : s.free e = true) (hold : batchSize ≤ older s e) :
    e.message ∉ batch s := by
  intro hmem
  obtain ⟨x, hx, hmessage⟩ := List.mem_map.mp hmem
  obtain rfl := Table.key_inj (mem_queue.mp (List.mem_of_mem_take hx)).1 he
    (congrArg OutboxMessage.id hmessage)
  have hsorted : s.queue.Pairwise fun a b => a.createdAt ≤ b.createdAt :=
    List.pairwise_insertionSort (fun a b : OutboxEntry => a.createdAt ≤ b.createdAt) _
  rw [← List.take_append_drop batchSize s.queue] at hsorted
  have hsub : x :: s.outbox.rows.filter (isOlder s x) ⊆ s.queue.take batchSize := by
    refine List.cons_subset.mpr ⟨hx, fun y hy => ?_⟩
    obtain ⟨hrow, holder⟩ := List.mem_filter.mp hy
    obtain ⟨hyfree, hlt⟩ := isOlder_iff.mp holder
    have hqueue : y ∈ s.queue := mem_queue.mpr ⟨hrow, hyfree⟩
    rw [← List.take_append_drop batchSize s.queue] at hqueue
    refine (List.mem_append.mp hqueue).resolve_right fun hlate => ?_
    exact absurd ((List.pairwise_append.mp hsorted).2.2 x hx y hlate) (not_le.mpr hlt)
  have hnodup : (x :: s.outbox.rows.filter (isOlder s x)).Nodup := by
    refine List.nodup_cons.mpr ⟨fun hself => ?_, (List.Nodup.of_map _ s.outbox.nodup).filter _⟩
    exact lt_irrefl _ (isOlder_iff.mp (List.mem_filter.mp hself).2).2
  have hle := ((hnodup.subperm hsub).length_le).trans (List.length_take_le _ _)
  rw [List.length_cons, ← List.countP_eq_length_filter] at hle
  exact absurd hold (not_le.mpr (Nat.lt_of_succ_le hle))

/-- A row that every drain of a run finds behind twenty older ones is not claimed in it. -/
theorem not_taken_of_older (h : Coherent s) (he : e ∈ s.outbox) (hfree : s.free e = true)
    {rest : List DrainStep}
    (hold : everyCall (step registered) (fun s c => begins s c = 1 → batchSize ≤ older s e) s rest) :
    ¬ taken registered e s rest := by
  induction rest generalizing s with
  | nil => exact id
  | cons c rest ih =>
    have hnot : takes s e c = false := by
      cases c with
      | select w =>
        by_cases hidle : s.workers w = .idle
        · simp [takes, left_behind he hfree (hold.1 (by simp [begins, hidle]))]
        · simp [takes, hidle]
      | _ => rfl
    have hstays : e ∈ (step registered s c).outbox ∧ (step registered s c).free e = true :=
      free_stays h he hfree hnot
    obtain ⟨he', hfree'⟩ := hstays
    rintro (htakes | htaken)
    · rw [hnot] at htakes
      cases htakes
    · exact ih (coherent_step h c) he' hfree' hold.2 htaken

/-- A worker goes on, with the locks of its batch given back or taken. -/
theorem Steady.goTo (h : Steady s) {s' : DrainState} {phase : Phase}
    (hworkers : s'.workers = Function.update s.workers w phase) (hcoherent : Coherent s')
    (hlocks : ∀ i ∈ s'.locks, i ∈ s.locks ∧ i ∉ (s.workers w).locked.map OutboxMessage.id ∨
      i ∈ phase.locked.map OutboxMessage.id)
    (hsmall : phase.locked.length ≤ batchSize) (hfew : again s' < batchSize) : Steady s' where
  coherent := hcoherent
  lockers i hi := by
    rw [hworkers]
    rcases hlocks i hi with ⟨hbefore, hnot⟩ | hnow
    · obtain ⟨w', hw'⟩ := h.lockers i hbefore
      have hne : w' ≠ w := fun hsame => hnot (hsame ▸ hw')
      exact ⟨w', by rw [Function.update_of_ne hne]; exact hw'⟩
    · exact ⟨w, by rw [Function.update_self]; exact hnow⟩
  small := by
    rw [hworkers]
    exact (Function.forall_update_iff s.workers fun _ phase => phase.locked.length ≤ batchSize).mpr
      ⟨hsmall, fun w' _ => h.small w'⟩
  few := hfew

/-- A worker that has locked nothing goes on and locks nothing. -/
theorem Steady.moves (h : Steady s) {s' : DrainState} {phase : Phase}
    (hworkers : s'.workers = Function.update s.workers w phase) (hcoherent : Coherent s')
    (hlocks : s'.locks = s.locks) (hbefore : (s.workers w).locked = []) (hnow : phase.locked = [])
    (hfew : again s' < batchSize) : Steady s' := by
  refine h.goTo hworkers hcoherent (fun i hi => .inl ⟨hlocks ▸ hi, ?_⟩) ?_ hfew
  · rw [hbefore]
    exact List.not_mem_nil
  · rw [hnow]
    exact Nat.zero_le _

theorem again_mark {rows : List OutboxMessage} {now : ℕ} :
    (markProcessed s rows now).rows.countP waitsAgain ≤ again s := by
  refine countP_update_le _ fun x _ hx => ?_
  split_ifs at hx
  · simp [waitsAgain] at hx
  · exact hx

theorem again_reopen {i : ℕ} : (reopened s i).rows.countP waitsAgain ≤ again s + 1 := by
  have hkeys := countP_key_le s.outbox [i]
  refine le_trans ?_ (Nat.add_le_add_left hkeys (again s))
  unfold reopened Table.update
  rw [List.countP_map]
  refine countP_le_add fun x _ hx => ?_
  by_cases hid : x.id = i
  · exact .inr (by simpa using hid)
  · refine .inl ?_
    rw [Function.comp_apply, if_neg (by simpa using hid)] at hx
    exact hx

theorem steady_step (h : Steady s) {c : DrainStep} (hfew : FewAgain s c) :
    Steady (step registered s c) := by
  have hcoherent : Coherent (step registered s c) := coherent_step h.coherent c
  have hstep : Stepped registered s c (step registered s c) := stepped c
  generalize step registered s c = s' at hstep hcoherent ⊢
  cases hstep with
  | stays _ _ => exact h
  | enqueued id row createdAt =>
    have hagain : again (enqueue s id row createdAt) = again s := by
      unfold enqueue
      split_ifs
      · rfl
      · unfold again Table.insertNew
        dsimp only
        split_ifs
        · rfl
        · rw [List.countP_append, List.countP_singleton, if_neg (by simp [waitsAgain])]
          rfl
    have hsame : (enqueue s id row createdAt).locks = s.locks ∧
        (enqueue s id row createdAt).workers = s.workers := by
      unfold enqueue
      split_ifs <;> exact ⟨rfl, rfl⟩
    exact ⟨hcoherent, by rw [hsame.1, hsame.2]; exact h.lockers, by rw [hsame.2]; exact h.small,
      hagain ▸ h.few⟩
  | @selects w hidle =>
    refine h.goTo rfl hcoherent (fun i hi => ?_) ?_ h.few
    · rcases List.mem_append.mp hi with hold | hnew
      · exact .inl ⟨hold, by rw [hidle]; exact List.not_mem_nil⟩
      · exact .inr hnew
    · unfold batch Phase.locked
      rw [List.length_map]
      exact List.length_take_le _ _
  | @marks w now rows hrows =>
    refine h.goTo rfl hcoherent (fun i hi => .inl ?_) (Nat.zero_le _)
      (again_mark.trans_lt h.few)
    rw [hrows]
    exact ⟨List.mem_of_mem_filter hi, of_decide_eq_true (List.mem_filter.mp hi).2⟩
  | ends hphase => exact h.moves rfl hcoherent rfl (by rw [hphase]; rfl) rfl h.few
  | handles hphase => exact h.moves rfl hcoherent rfl (by rw [hphase]; rfl) rfl h.few
  | skips hphase _ => exact h.moves rfl hcoherent rfl (by rw [hphase]; rfl) rfl h.few
  | returns hphase => exact h.moves rfl hcoherent rfl (by rw [hphase]; rfl) rfl h.few
  | throws hphase => exact h.moves rfl hcoherent rfl (by rw [hphase]; rfl) rfl h.few
  | reopens hphase =>
    exact h.moves rfl hcoherent rfl (by rw [hphase]; rfl) rfl
      (again_reopen.trans_lt (hfew _ _ hphase))
  | gone hphase _ => exact h.moves rfl hcoherent rfl (by rw [hphase]; rfl) rfl h.few
  | crashes w =>
    refine h.goTo rfl hcoherent (fun i hi => .inl ?_) (Nat.zero_le _) h.few
    exact ⟨List.mem_of_mem_filter hi, of_decide_eq_true (List.mem_filter.mp hi).2⟩

/-- A free row is claimed in the rest of the run before more drains begin than rows come ahead of
it. -/
theorem taken_of_free (h : Steady s) (he : e ∈ s.outbox) (hfree : s.free e = true)
    {rest : List DrainStep} (hfew : everyCall (step registered) FewAgain s rest) :
    taken registered e s rest ∨
      drains registered s rest ≤ ahead s e + (rest.map (comesAhead e)).sum := by
  induction rest generalizing s with
  | nil => exact .inr (Nat.zero_le _)
  | cons c rest ih =>
    obtain ⟨hc, hrest⟩ := hfew
    cases htakes : takes s e c with
    | true => exact .inl (.inl htakes)
    | false =>
      have hstays : e ∈ (step registered s c).outbox ∧ (step registered s c).free e = true :=
        free_stays h.coherent he hfree htakes
      have hahead : ahead (step registered s c) e + begins s c ≤ ahead s e + comesAhead e c :=
        ahead_step h he hfree htakes
      obtain ⟨he', hfree'⟩ := hstays
      rcases ih (steady_step h hc) he' hfree' hrest with htaken | hle
      · exact .inl (.inr htaken)
      · refine .inr ?_
        rw [drains, List.map_cons, List.sum_cons]
        omega

theorem steady_fresh (h : Fresh s) : Steady s where
  coherent := coherent_idle h.workers h.returned
  lockers i hi := by
    rw [h.locks] at hi
    cases hi
  small w := by
    rw [h.workers w]
    exact Nat.zero_le _
  few := by
    have hnone : again s = 0 := List.countP_eq_zero.mpr fun e he => by
      simp [waitsAgain, h.untried e he]
    rw [hnone]
    decide

/-- A row that is not lost will be claimed while few wait again. -/
theorem delivered_of_notLost (h : Steady s) (hkept : NotLost registered s) {rest : List DrainStep}
    (hfew : everyCall (step registered) FewAgain s rest) : Delivered registered s rest := by
  intro e he htopic
  rcases hkept e he htopic with hpending | hreturned | ⟨w, hw⟩
  · by_cases hlock : e.id ∈ s.locks
    · obtain ⟨w, hw⟩ := h.lockers e.id hlock
      obtain ⟨msg, hmsg, hid⟩ := List.mem_map.mp hw
      obtain ⟨x, hx, hmessage, -⟩ := h.coherent.waiting w msg hmsg
      refine .inr (.inl ⟨w, List.mem_append_left _ ?_⟩)
      rw [message_of_id he ⟨x, hx, hmessage⟩ hid]
      exact hmsg
    · have hfree := free_iff.mpr ⟨hpending, hlock⟩
      exact .inr (.inr ⟨hfree, taken_of_free h he hfree hfew⟩)
  · exact .inl hreturned
  · exact .inr (.inl ⟨w, List.mem_append_right _ hw⟩)

theorem notLost_of_delivered (h : Coherent s) {rest : List DrainStep}
    (hd : Delivered registered s rest) : NotLost registered s := by
  intro e he htopic
  rcases hd e he htopic with hreturned | ⟨w, hw⟩ | ⟨hfree, -⟩
  · exact .inr (.inl hreturned)
  · rcases List.mem_append.mp hw with hlocked | hunfinished
    · obtain ⟨x, hx, hmessage, hpending⟩ := h.waiting w e.message hlocked
      obtain rfl := Table.key_inj hx he (congrArg OutboxMessage.id hmessage)
      exact .inl hpending
    · exact .inr (.inr ⟨w, hunfinished⟩)
  · exact .inl (free_iff.mp hfree).1

theorem delivered_iff (h : Steady s) {rest : List DrainStep}
    (hfew : everyCall (step registered) FewAgain s rest) :
    Delivered registered s rest ∧ HandledByOne s ↔ NotLost registered s :=
  ⟨fun hd => notLost_of_delivered h.coherent hd.1,
    fun hkept => ⟨delivered_of_notLost h hkept hfew, h.coherent.handledByOne⟩⟩

theorem deliveredThroughout_iff_notLost (h : Steady s) {steps : List DrainStep}
    (hfew : everyCall (step registered) FewAgain s steps) :
    deliveredThroughout registered s steps ↔
      throughout (step registered) (NotLost registered) (fun _ _ => True) s steps := by
  induction steps generalizing s with
  | nil => exact delivered_iff h hfew
  | cons c rest ih =>
    unfold deliveredThroughout throughout
    rw [delivered_iff h hfew, ih (steady_step h hfew.1) hfew.2, true_and]

end waiting

/-- In every state of a run of any workers, whatever the handlers do, every row with a handler has
been handled, is in the hands of a live worker or is claimed in good time, and no row is handled
by two workers, exactly when no worker crashes with such a row marked and not handled; as long as
fewer than twenty rows wait again at a time. -/
theorem deliveredThroughout_iff (registered : String → Bool) (s : DrainState) (h : Fresh s)
    (steps : List DrainStep) (hfew : everyCall (step registered) FewAgain s steps) :
    deliveredThroughout registered s steps ↔
      everyCall (step registered) (CrashesWithout registered) s steps := by
  rw [deliveredThroughout_iff_notLost (steady_fresh h) hfew]
  refine throughout_iff_of_kept (K := Coherent) (fun s c hs => coherent_step hs c)
    (fun s c hs hkept => ?_) (steady_fresh h).coherent fun e he _ => .inl (h.pending e he)
  rw [crashesWithout_iff hs hkept c, true_and]

/-- A campaign's row, and that of a document enqueued after it. -/
def campaignAndDocument : DrainState where
  outbox := (Table.empty.insertNew
    { id := 1, row := ⟨"sms-campaign:61", 7, "sms.campaign", [("campaignId", .id 61)]⟩
      createdAt := 5 }).insertNew
    { id := 2, row := ⟨"document:81", 7, "document.uploaded", [("documentId", .id 81)]⟩
      createdAt := 6 }
  locks := []
  workers _ := .idle
  returned := []

def workerTopics (topic : String) : Bool := topic == "sms.campaign" || topic == "document.uploaded"

theorem fresh_campaignAndDocument : Fresh campaignAndDocument :=
  ⟨fun _ => rfl, rfl, rfl, by decide, by decide⟩

/-- The worker marks the rows and crashes: they count as processed, and nobody will handle them. -/
theorem crash_loses_rows :
    (step workerTopics (step workerTopics (step workerTopics campaignAndDocument (.select 0))
        (.mark 0 10)) (.crash 0)).outbox.rows.map OutboxEntry.status = [.processed, .processed] ∧
      ¬ deliveredThroughout workerTopics campaignAndDocument
        [.select 0, .mark 0 10, .crash 0] := by
  refine ⟨by decide, fun h => ?_⟩
  obtain ⟨-, -, ⟨hmarked, -⟩, hlost, -⟩ := h
  have hselected : Coherent (step workerTopics campaignAndDocument (.select 0)) :=
    coherent_step (steady_fresh fresh_campaignAndDocument).coherent _
  have hcoherent : Coherent (step workerTopics (step workerTopics campaignAndDocument (.select 0))
      (.mark 0 10)) := coherent_step hselected _
  have hcrash := (crashesWithout_iff hcoherent (notLost_of_delivered hcoherent hmarked)
    (.crash 0)).mpr (notLost_of_delivered (coherent_step hcoherent _) hlost)
  exact absurd (hcrash _ List.mem_cons_self) (by decide)

/-- A handler that throws while another worker drains, and returns when its row is claimed again;
that worker crashes with nothing left to handle. -/
theorem deliveredThroughout_retried :
    deliveredThroughout workerTopics campaignAndDocument
      [.select 0, .mark 0 10, .next 0,
        .enqueue 3 ⟨"document:82", 7, "document.uploaded", [("documentId", .id 82)]⟩ 11,
        .handlerThrows 0, .select 1, .mark 1 12, .reopen 0, .next 1, .handlerReturns 1, .crash 1,
        .next 0, .select 2, .handlerReturns 0, .mark 2 13, .next 2, .handlerReturns 2] := by
  refine (deliveredThroughout_iff workerTopics campaignAndDocument fresh_campaignAndDocument _
    ?_).mpr ?_
  · exact ⟨trivial, trivial, trivial, trivial, trivial, trivial, trivial, fun _ _ _ => by decide,
      trivial, trivial, trivial, trivial, trivial, trivial, trivial, trivial, trivial, trivial⟩
  · refine ⟨trivial, trivial, trivial, trivial, trivial, trivial, trivial, trivial, trivial, trivial,
      ?_, trivial, trivial, trivial, trivial, trivial, trivial, trivial⟩
    exact fun _ hmsg => nomatch hmsg

end Akabbo.OutboxBacklog
