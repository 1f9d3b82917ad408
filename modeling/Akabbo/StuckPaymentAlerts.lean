import Akabbo.BillingState
import Akabbo.CallRuns
import Akabbo.RowTable

/-!
# Alerts for payments that are stuck

Every few minutes the worker looks for invoices that have been pending for too long, tells the operator
about them in one e-mail and marks them. Looking, sending and marking are steps of their own, between
which invoices are opened and settled, and each of which may fail.
-/
namespace Akabbo.StuckPaymentAlerts
open RowTable BillingState CallRuns

/-- What the alert reads of an invoice. -/
structure InvoiceRow where
  id : ℕ
  status : InvoiceStatus
  createdAt : ℕ
  stuckAlertSentAt : Option ℕ := none
  deriving DecidableEq, Repr

abbrev Invoices := Table ℕ InvoiceRow InvoiceRow.id

structure AlertConfig where
  adminAlertEmail : String
  stuckInvoiceThresholdMinutes : ℕ
  emailProvider : Bool

def isOverdue (thresholdMinutes now createdAt : ℕ) : Prop :=
  createdAt + thresholdMinutes * 60 * 1000 < now

instance (thresholdMinutes now createdAt : ℕ) :
    Decidable (isOverdue thresholdMinutes now createdAt) := inferInstanceAs (Decidable (_ < _))

/-- Oldest first. -/
def findStuckPendingInvoices (invoices : Invoices) (thresholdMinutes now : ℕ) : List InvoiceRow :=
  (invoices.rows.filter fun r => r.status == .pending && r.stuckAlertSentAt == none &&
    decide (isOverdue thresholdMinutes now r.createdAt)).insertionSort fun a b =>
      a.createdAt ≤ b.createdAt

def markStuckAlertSent (invoices : Invoices) (ids : List ℕ) (now : ℕ) : Invoices :=
  invoices.update (fun r => decide (r.id ∈ ids)) (fun r => { r with stuckAlertSentAt := some now })
    fun _ => rfl

/-- A callback of the gateway, or the operator, has decided an invoice. -/
def settle (invoices : Invoices) (id : ℕ) (status : InvoiceStatus) : Invoices :=
  invoices.update (fun r => r.id == id) (fun r => { r with status }) fun _ => rfl

/-- Where the worker is in `tick`; it is `running` in all of them but the first. -/
inductive Phase
  | idle
  | finding
  | sending (stuck : List InvoiceRow) (readAt : ℕ)
  | marking (ids : List ℕ)
  deriving DecidableEq, Repr

/-- A provider that gets an HTTP error answers `failed`, and does not throw. -/
inductive EmailStatus
  | sent | failed
  deriving DecidableEq, Repr

/-- An e-mail that its provider has decided: the invoices it lists, as they were when they were read. -/
structure Alert where
  invoices : List InvoiceRow
  readAt : ℕ
  status : EmailStatus
  deriving DecidableEq, Repr

structure AlertState where
  invoices : Invoices
  phase : Phase
  alerts : List Alert

/-- A send that throws, or that a restart cuts off, may have taken its e-mail out before. -/
inductive Move
  | opened (id createdAt : ℕ)
  | settled (id : ℕ) (status : InvoiceStatus)
  | fires
  | found (now : ℕ)
  | findFails
  | returned (status : EmailStatus)
  | sendFails (wentOut : Bool)
  | marked (now : ℕ)
  | markFails
  | restarts
  deriving DecidableEq, Repr

/-- Whatever throws in a tick is caught, and ends it. -/
def step (cfg : AlertConfig) (s : AlertState) : Move → AlertState
  | .opened id createdAt =>
      { s with invoices := s.invoices.insertNew { id, status := .pending, createdAt } }
  | .settled id status => { s with invoices := settle s.invoices id status }
  | .fires =>
    match s.phase with
    | .idle => if cfg.adminAlertEmail = "" then s else { s with phase := .finding }
    | _ => s
  | .found now =>
    match s.phase with
    | .finding =>
      let stuck := findStuckPendingInvoices s.invoices cfg.stuckInvoiceThresholdMinutes now
      if stuck = [] then { s with phase := .idle }
      else if cfg.emailProvider then { s with phase := .sending stuck now }
      -- nobody can be told, and the invoices are marked all the same
      else { s with phase := .marking (stuck.map InvoiceRow.id) }
    | _ => s
  | .returned status =>
    match s.phase with
    -- the invoices are marked whatever was answered
    | .sending stuck readAt =>
      { s with alerts := s.alerts ++ [⟨stuck, readAt, status⟩]
               phase := .marking (stuck.map InvoiceRow.id) }
    | _ => s
  | .marked now =>
    match s.phase with
    | .marking ids => { s with invoices := markStuckAlertSent s.invoices ids now, phase := .idle }
    | _ => s
  | .findFails =>
    match s.phase with
    | .finding => { s with phase := .idle }
    | _ => s
  | .sendFails wentOut =>
    match s.phase with
    | .sending stuck readAt =>
      { s with alerts := if wentOut then s.alerts ++ [⟨stuck, readAt, .sent⟩] else s.alerts
               phase := .idle }
    | _ => s
  | .markFails =>
    match s.phase with
    | .marking _ => { s with phase := .idle }
    | _ => s
  | .restarts => { s with phase := .idle }

def run (cfg : AlertConfig) (s : AlertState) (moves : List Move) : AlertState :=
  moves.foldl (step cfg) s

/-- The invoices in the e-mails of one outcome. -/
def listed (status : EmailStatus) (s : AlertState) : List ℕ :=
  (s.alerts.filter fun a => a.status == status).flatMap fun a => a.invoices.map InvoiceRow.id

/-- The invoices that the operator was told of. -/
abbrev told : AlertState → List ℕ := listed .sent

def Marked (invoices : Invoices) (i : ℕ) : Prop :=
  ∃ r ∈ invoices, r.id = i ∧ r.stuckAlertSentAt ≠ none

/-- An e-mail has gone out, and the tick ends before its invoices are marked. -/
def LosesMark (s : AlertState) : Move → Prop
  | .markFails | .restarts => ∃ ids, s.phase = .marking ids ∧ ∃ i ∈ ids, i ∈ told s
  | .sendFails wentOut => wentOut = true ∧ ∃ stuck readAt, s.phase = .sending stuck readAt
  | _ => False

/-- The operator is told of an invoice once, while it is overdue. It is marked only after an e-mail that
lists it, which went out or was answered `failed`. -/
structure AlertedOnce (cfg : AlertConfig) (s : AlertState) : Prop where
  once : (told s).Nodup
  overdue : ∀ a ∈ s.alerts, (a.invoices.map InvoiceRow.id).Nodup ∧ ∀ r ∈ a.invoices,
    r.status = .pending ∧ isOverdue cfg.stuckInvoiceThresholdMinutes a.readAt r.createdAt
  noted : ∀ i ∈ told s, Marked s.invoices i ∨ ∃ ids, s.phase = .marking ids ∧ i ∈ ids
  heard : cfg.emailProvider = true → ∀ i, Marked s.invoices i → i ∈ told s ∨ i ∈ listed .failed s

/-- What is about to be sent, or marked. -/
structure Standing (cfg : AlertConfig) (s : AlertState) : Prop extends AlertedOnce cfg s where
  sending : ∀ stuck readAt, s.phase = .sending stuck readAt → (stuck.map InvoiceRow.id).Nodup ∧
    ∀ r ∈ stuck, r.id ∉ told s ∧ s.invoices.has r.id = true ∧ r.status = .pending ∧
      isOverdue cfg.stuckInvoiceThresholdMinutes readAt r.createdAt
  marking : ∀ ids, s.phase = .marking ids → ∀ i ∈ ids, s.invoices.has i = true ∧
    (cfg.emailProvider = true → i ∈ told s ∨ i ∈ listed .failed s)

section steps
variable {cfg : AlertConfig} {s : AlertState}

/-- Neither opening nor settling an invoice marks one. -/
structure SameMarks (invoices invoices' : Invoices) : Prop where
  marked : ∀ i, Marked invoices' i ↔ Marked invoices i
  has : ∀ i, invoices.has i = true → invoices'.has i = true

theorem sameMarks_opened (invoices : Invoices) (i createdAt : ℕ) :
    SameMarks invoices (invoices.insertNew ⟨i, .pending, createdAt, none⟩) where
  marked j := by
    constructor
    · rintro ⟨r, hr, hid, hmark⟩
      rcases Table.mem_insertNew_cases hr with hr | rfl
      · exact ⟨r, hr, hid, hmark⟩
      · exact absurd rfl hmark
    · rintro ⟨r, hr, hid, hmark⟩
      exact ⟨r, Table.mem_insertNew_of_mem hr, hid, hmark⟩
  has j hj := by
    obtain ⟨r, hr, hid⟩ := Table.has_iff.mp hj
    exact Table.has_iff.mpr ⟨r, Table.mem_insertNew_of_mem hr, hid⟩

theorem sameMarks_settled (invoices : Invoices) (i : ℕ) (status : InvoiceStatus) :
    SameMarks invoices (settle invoices i status) where
  marked j := by
    constructor
    · rintro ⟨r, hr, hid, hmark⟩
      obtain ⟨x, hx, rfl⟩ := Table.mem_update.mp hr
      refine ⟨x, hx, ?_⟩
      split_ifs at hid hmark with hsel
      · exact ⟨hid, hmark⟩
      · exact ⟨hid, hmark⟩
    · rintro ⟨r, hr, hid, hmark⟩
      refine ⟨_, Table.mem_update.mpr ⟨r, hr, rfl⟩, ?_⟩
      split_ifs with hsel
      · exact ⟨hid, hmark⟩
      · exact ⟨hid, hmark⟩
  has j hj := by
    obtain ⟨r, hr, hid⟩ := Table.has_iff.mp hj
    refine Table.has_iff.mpr ⟨_, Table.mem_update.mpr ⟨r, hr, rfl⟩, ?_⟩
    split_ifs with hsel
    · exact hid
    · exact hid

theorem standing_rows (h : Standing cfg s) {invoices : Invoices}
    (hsame : SameMarks s.invoices invoices) : Standing cfg { s with invoices } where
  once := h.once
  overdue := h.overdue
  noted i hi := (h.noted i hi).imp_left (hsame.marked i).mpr
  heard he i hi := h.heard he i ((hsame.marked i).mp hi)
  sending stuck readAt hp := by
    obtain ⟨hnodup, hstuck⟩ := h.sending stuck readAt hp
    refine ⟨hnodup, fun r hr => ?_⟩
    obtain ⟨hnew, hhas, hread⟩ := hstuck r hr
    exact ⟨hnew, hsame.has _ hhas, hread⟩
  marking ids hp i hi := by
    obtain ⟨hhas, htold⟩ := h.marking ids hp i hi
    exact ⟨hsame.has i hhas, htold⟩

/-- A tick that is about to mark nothing it told of may go on to a phase whose own conditions are
met. -/
theorem standing_phase (h : Standing cfg s)
    (hnot : ∀ ids, s.phase = .marking ids → ∀ i ∈ ids, i ∉ told s) {phase : Phase}
    (hsending : ∀ stuck readAt, phase = .sending stuck readAt →
      (stuck.map InvoiceRow.id).Nodup ∧ ∀ r ∈ stuck, r.id ∉ told s ∧ s.invoices.has r.id = true ∧
        r.status = .pending ∧ isOverdue cfg.stuckInvoiceThresholdMinutes readAt r.createdAt)
    (hmarking : ∀ ids, phase = .marking ids → ∀ i ∈ ids, s.invoices.has i = true ∧
      (cfg.emailProvider = true → i ∈ told s ∨ i ∈ listed .failed s)) :
    Standing cfg { s with phase } where
  once := h.once
  overdue := h.overdue
  noted i hi := by
    rcases h.noted i hi with hmarked | ⟨ids, hp, hmem⟩
    · exact .inl hmarked
    · exact absurd hi (hnot ids hp i hmem)
  heard := h.heard
  sending := hsending
  marking := hmarking

/-- A tick that begins, or that ends before its e-mail has gone out. -/
theorem standing_between (h : Standing cfg s)
    (hnot : ∀ ids, s.phase = .marking ids → ∀ i ∈ ids, i ∉ told s) {phase : Phase}
    (hphase : phase = .idle ∨ phase = .finding) : Standing cfg { s with phase } := by
  rcases hphase with rfl | rfl
  · exact standing_phase h hnot (fun _ _ hp => by cases hp) fun _ hp => by cases hp
  · exact standing_phase h hnot (fun _ _ hp => by cases hp) fun _ hp => by cases hp

theorem mem_findStuck {invoices : Invoices} {t now : ℕ} {r : InvoiceRow}
    (h : r ∈ findStuckPendingInvoices invoices t now) : r ∈ invoices ∧ r.status = .pending ∧
      r.stuckAlertSentAt = none ∧ isOverdue t now r.createdAt := by
  obtain ⟨hr, hsel⟩ := List.mem_filter.mp ((List.perm_insertionSort _ _).mem_iff.mp h)
  simp only [Bool.and_eq_true, beq_iff_eq, decide_eq_true_eq] at hsel
  exact ⟨hr, hsel.1.1, hsel.1.2, hsel.2⟩

theorem nodup_findStuck (invoices : Invoices) (t now : ℕ) :
    ((findStuckPendingInvoices invoices t now).map InvoiceRow.id).Nodup := by
  refine ((List.perm_insertionSort _ _).map InvoiceRow.id).nodup_iff.mpr ?_
  exact invoices.nodup.sublist (List.filter_sublist.map InvoiceRow.id)

/-- What is found has not been told before: it would have been marked. -/
theorem found_new (h : Standing cfg s) (hphase : s.phase = .finding) {now : ℕ} {r : InvoiceRow}
    (hr : r ∈ findStuckPendingInvoices s.invoices cfg.stuckInvoiceThresholdMinutes now) :
    r.id ∉ told s := by
  obtain ⟨hmem, -, hunmarked, -⟩ := mem_findStuck hr
  intro htold
  rcases h.noted r.id htold with ⟨x, hx, hid, hmark⟩ | ⟨ids, hp, -⟩
  · rw [Table.key_inj hx hmem hid] at hmark
    exact hmark hunmarked
  · cases hphase.symm.trans hp

theorem has_of_found {now : ℕ} {r : InvoiceRow}
    (hr : r ∈ findStuckPendingInvoices s.invoices cfg.stuckInvoiceThresholdMinutes now) :
    s.invoices.has r.id = true := Table.has_iff.mpr ⟨r, (mem_findStuck hr).1, rfl⟩

theorem standing_found (h : Standing cfg s) (hphase : s.phase = .finding) (now : ℕ) :
    Standing cfg (step cfg s (.found now)) := by
  have hnot (ids : List ℕ) (hp : s.phase = .marking ids) : ∀ i ∈ ids, i ∉ told s := by
    cases hphase.symm.trans hp
  simp only [step, hphase]
  split_ifs with hnone hemail
  · exact standing_between h hnot (.inl rfl)
  · refine standing_phase h hnot (fun stuck readAt hp => ?_) fun _ hp => by cases hp
    cases hp
    refine ⟨nodup_findStuck _ _ _, fun r hr => ?_⟩
    obtain ⟨-, hpending, -, hoverdue⟩ := mem_findStuck hr
    exact ⟨found_new h hphase hr, has_of_found hr, hpending, hoverdue⟩
  · refine standing_phase h hnot (fun _ _ hp => by cases hp) fun ids hp i hi => ?_
    cases hp
    obtain ⟨r, hr, rfl⟩ := List.mem_map.mp hi
    exact ⟨has_of_found hr, fun he => absurd he hemail⟩

theorem listed_append {status status' : EmailStatus} {stuck : List InvoiceRow} {readAt : ℕ}
    {phase : Phase} :
    listed status { s with alerts := s.alerts ++ [⟨stuck, readAt, status'⟩], phase } =
      listed status s ++ if status' = status then stuck.map InvoiceRow.id else [] := by
  unfold listed
  rw [List.filter_append, List.flatMap_append]
  by_cases hsame : status' = status
  · simp [hsame]
  · simp [hsame]

theorem standing_returned (h : Standing cfg s) {stuck : List InvoiceRow} {readAt : ℕ}
    (hphase : s.phase = .sending stuck readAt) (status : EmailStatus) : Standing cfg { s with
      alerts := s.alerts ++ [⟨stuck, readAt, status⟩]
      phase := .marking (stuck.map InvoiceRow.id) } := by
  obtain ⟨hnodup, hstuck⟩ := h.sending stuck readAt hphase
  have hnoted : ∀ i ∈ told s, Marked s.invoices i := fun i hi =>
    (h.noted i hi).resolve_right fun ⟨_, hp, _⟩ => by cases hphase.symm.trans hp
  refine { once := ?_, overdue := ?_, noted := ?_, heard := ?_, sending := ?_, marking := ?_ }
  · rw [told, listed_append]
    split_ifs
    · refine List.nodup_append.mpr ⟨h.once, hnodup, fun i hi j hj => ?_⟩
      rintro rfl
      obtain ⟨r, hr, rfl⟩ := List.mem_map.mp hj
      exact (hstuck r hr).1 hi
    · exact (List.append_nil _).symm ▸ h.once
  · intro a ha
    rcases List.mem_append.mp ha with ha | ha
    · exact h.overdue a ha
    · obtain rfl := List.mem_singleton.mp ha
      exact ⟨hnodup, fun r hr => (hstuck r hr).2.2⟩
  · intro i hi
    rw [told, listed_append] at hi
    rcases List.mem_append.mp hi with hi | hi
    · exact .inl (hnoted i hi)
    · split_ifs at hi
      · exact .inr ⟨_, rfl, hi⟩
      · exact absurd hi List.not_mem_nil
  · intro he i hi
    rw [told, listed_append, listed_append]
    exact (h.heard he i hi).imp (List.mem_append_left _) (List.mem_append_left _)
  · exact fun _ _ hp => by cases hp
  · intro ids hp i hi
    cases hp
    obtain ⟨r, hr, rfl⟩ := List.mem_map.mp hi
    refine ⟨(hstuck r hr).2.1, fun _ => ?_⟩
    rw [told, listed_append, listed_append]
    cases status with
    | sent => exact .inl (List.mem_append_right _ hi)
    | failed => exact .inr (List.mem_append_right _ hi)

theorem marked_mark {invoices : Invoices} {ids : List ℕ} {now i : ℕ} :
    Marked (markStuckAlertSent invoices ids now) i ↔
      Marked invoices i ∨ i ∈ ids ∧ invoices.has i = true := by
  constructor
  · rintro ⟨r, hr, hid, hmark⟩
    obtain ⟨x, hx, rfl⟩ := Table.mem_update.mp hr
    split_ifs at hid hmark with hsel
    · have hmem : x.id ∈ ids := by simpa using hsel
      exact .inr ⟨hid ▸ hmem, Table.has_iff.mpr ⟨x, hx, hid⟩⟩
    · exact .inl ⟨x, hx, hid, hmark⟩
  · rintro (⟨r, hr, hid, hmark⟩ | ⟨hi, hhas⟩)
    · refine ⟨_, Table.mem_update.mpr ⟨r, hr, rfl⟩, ?_⟩
      split_ifs with hsel
      · exact ⟨hid, by simp⟩
      · exact ⟨hid, hmark⟩
    · obtain ⟨r, hr, rfl⟩ := Table.has_iff.mp hhas
      refine ⟨_, Table.mem_update.mpr ⟨r, hr, rfl⟩, ?_⟩
      rw [if_pos (by simpa using hi)]
      exact ⟨rfl, by simp⟩

theorem standing_marked (h : Standing cfg s) {ids : List ℕ} (hphase : s.phase = .marking ids)
    (now : ℕ) :
    Standing cfg { s with invoices := markStuckAlertSent s.invoices ids now, phase := .idle } where
  once := h.once
  overdue := h.overdue
  noted i hi := by
    refine .inl (marked_mark.mpr ?_)
    rcases h.noted i hi with hmarked | ⟨ids', hp, hi'⟩
    · exact .inl hmarked
    · cases hphase.symm.trans hp
      exact .inr ⟨hi', (h.marking ids hphase i hi').1⟩
  heard he i hi := by
    rcases marked_mark.mp hi with hmarked | ⟨hi', -⟩
    · exact h.heard he i hmarked
    · exact (h.marking ids hphase i hi').2 he
  sending _ _ hp := by cases hp
  marking _ hp := by cases hp

theorem standing_step (h : Standing cfg s) {m : Move} (hm : ¬ LosesMark s m) :
    Standing cfg (step cfg s m) := by
  cases m with
  | opened i createdAt => exact standing_rows h (sameMarks_opened _ _ _)
  | settled i status => exact standing_rows h (sameMarks_settled _ _ _)
  | fires =>
    cases hphase : s.phase with
    | idle =>
      simp only [step, hphase]
      split_ifs with hunset
      · exact h
      · exact standing_between h (fun _ hp => by cases hphase.symm.trans hp) (.inr rfl)
    | _ => simpa only [step, hphase] using h
  | found now =>
    cases hphase : s.phase with
    | finding => exact standing_found h hphase now
    | _ => simpa only [step, hphase] using h
  | findFails =>
    cases hphase : s.phase with
    | finding =>
      simp only [step, hphase]
      exact standing_between h (fun _ hp => by cases hphase.symm.trans hp) (.inl rfl)
    | _ => simpa only [step, hphase] using h
  | returned status =>
    cases hphase : s.phase with
    | sending stuck readAt =>
      simp only [step, hphase]
      exact standing_returned h hphase status
    | _ => simpa only [step, hphase] using h
  | sendFails wentOut =>
    cases hphase : s.phase with
    | sending stuck readAt =>
      cases wentOut with
      | true => exact absurd ⟨rfl, stuck, readAt, hphase⟩ hm
      | false =>
        simp only [step, hphase, Bool.false_eq_true, if_false]
        exact standing_between h (fun _ hp => by cases hphase.symm.trans hp) (.inl rfl)
    | _ => simpa only [step, hphase] using h
  | marked now =>
    cases hphase : s.phase with
    | marking ids =>
      simp only [step, hphase]
      exact standing_marked h hphase now
    | _ => simpa only [step, hphase] using h
  | markFails =>
    cases hphase : s.phase with
    | marking ids =>
      simp only [step, hphase]
      exact standing_between h (fun ids hp i hi htold => hm ⟨ids, hp, i, hi, htold⟩) (.inl rfl)
    | _ => simpa only [step, hphase] using h
  | restarts =>
    exact standing_between h (fun ids hp i hi htold => hm ⟨ids, hp, i, hi, htold⟩) (.inl rfl)

end steps

theorem standing_run {cfg : AlertConfig} {s : AlertState} (h : Standing cfg s) (moves : List Move)
    (hmoves : everyCall (step cfg) (fun s m => ¬ LosesMark s m) s moves) :
    Standing cfg (run cfg s moves) := by
  induction moves generalizing s with
  | nil => exact h
  | cons m rest ih => exact ih (standing_step h hmoves.1) hmoves.2

/-- The worker has just been started, and no invoice has been marked. -/
def started (invoices : Invoices) : AlertState := ⟨invoices, .idle, []⟩

theorem standing_started (cfg : AlertConfig) {invoices : Invoices}
    (h : ∀ r ∈ invoices, r.stuckAlertSentAt = none) : Standing cfg (started invoices) where
  once := List.nodup_nil
  overdue _ ha := absurd ha List.not_mem_nil
  noted _ hi := absurd hi List.not_mem_nil
  heard := by
    rintro - i ⟨r, hr, -, hmark⟩
    exact absurd (h r hr) hmark
  sending _ _ hp := by cases hp
  marking _ hp := by cases hp

/-- However ticks, failures, new invoices and payments follow each other, the operator is told of an
invoice at most once, and of every one that is marked but for those whose e-mail was answered `failed`,
unless a mark is lost after its e-mail. -/
theorem alerted_once (cfg : AlertConfig) {invoices : Invoices}
    (h : ∀ r ∈ invoices, r.stuckAlertSentAt = none) (moves : List Move)
    (hmoves : everyCall (step cfg) (fun s m => ¬ LosesMark s m) (started invoices) moves) :
    AlertedOnce cfg (run cfg (started invoices) moves) :=
  (standing_run (standing_started cfg h) moves hmoves).toAlertedOnce

/-- A worker that is not restarted, whose marks are all written and whose sends throw before anything
goes out, loses no mark. -/
theorem everyCall_of_written (cfg : AlertConfig) {moves : List Move}
    (h : Move.markFails ∉ moves ∧ Move.restarts ∉ moves ∧ Move.sendFails true ∉ moves)
    (s : AlertState) : everyCall (step cfg) (fun s m => ¬ LosesMark s m) s moves := by
  induction moves generalizing s with
  | nil => trivial
  | cons m rest ih =>
    simp only [List.mem_cons, not_or] at h
    refine ⟨fun hlost => ?_, ih ⟨h.1.2, h.2.1.2, h.2.2.2⟩ _⟩
    cases m with
    | markFails => exact h.1.1 rfl
    | restarts => exact h.2.1.1 rfl
    | sendFails wentOut =>
      obtain ⟨rfl, -⟩ := hlost
      exact h.2.2.1 rfl
    | _ => exact hlost

def hourly : AlertConfig := ⟨"operator@example.org", 60, true⟩

/-- Invoice 1 stays pending, invoice 2 is paid in time, and invoice 3 comes late. The first e-mail does
not get through, and the one about invoice 3 is answered `failed`. -/
def fourTicks : List Move :=
  [.opened 1 0, .opened 2 10, .settled 2 .paid, .fires, .found 3600001, .sendFails false, .fires,
    .fires, .found 3900001, .opened 3 3900002, .returned .sent, .marked 3900003, .fires,
    .found 7600000, .returned .failed, .marked 7600001, .fires, .found 7900001]

theorem alerted_once_fourTicks : AlertedOnce hourly (run hourly (started .empty) fourTicks) :=
  alerted_once hourly (fun r hr => absurd hr (Table.not_mem_empty r)) fourTicks
    (everyCall_of_written hourly (by decide) _)

/-- Nobody is told of invoice 3, which is marked. -/
example : told (run hourly (started .empty) fourTicks) = [1] ∧
    (run hourly (started .empty) fourTicks).invoices.rows.map InvoiceRow.stuckAlertSentAt =
      [some 3900003, none, some 7600001] := by decide

/-- The second e-mail repeats the first, whose mark was lost. -/
example : told (run hourly (started .empty) [.opened 1 0, .fires, .found 3600001, .returned .sent,
    .markFails, .fires, .found 3900001, .returned .sent]) = [1, 1] := by decide

end Akabbo.StuckPaymentAlerts
