import Akabbo.EventWrites
import Akabbo.Noninterference
import Akabbo.TenantLinks

/-!
# What row-level security leaves of the tables

An event's view of the database: the rows of its own, and the users, which belong to no event. Which
changes and which reads are confined to it.
-/
namespace Akabbo.TenantViews
open RowTable TenantLinks Noninterference LedgerState LedgerWrites EventWrites

section table
variable {ι ρ : Type} {key : ρ → ι} (tenant : ρ → ℕ) (e : ℕ)

/-- The rows that the policy shows. -/
def home (t : Table ι ρ key) : Table ι ρ key :=
  ⟨t.rows.filter fun r => tenant r == e, t.nodup.sublist (List.filter_sublist.map key)⟩

/-- Any row with this key is one of the event's. -/
def HomeKey (t : Table ι ρ key) (k : ι) : Prop := ∀ r ∈ t, key r = k → tenant r = e

/-- The change does to the rows of the event what it does to the table. -/
structure TableEdits (f : Table ι ρ key → Table ι ρ key) (t : Table ι ρ key) : Prop where
  own : f (home tenant e t) = home tenant e (f t)
  others : ∀ e', e' ≠ e → home tenant e' (f t) = home tenant e' t

variable {tenant e} {t : Table ι ρ key}

theorem mem_home {r : ρ} : r ∈ home tenant e t ↔ r ∈ t ∧ tenant r = e := by
  simp [home, Table.mem_def]

theorem homeKey_of_mem {r : ρ} (hr : r ∈ t) (he : tenant r = e) : HomeKey tenant e t (key r) := by
  intro x hx hk
  rw [Table.key_inj hx hr hk]
  exact he

theorem filter_home {p : ρ → Bool} (hp : ∀ r ∈ t, p r = true → tenant r = e) :
    (home tenant e t).rows.filter p = t.rows.filter p := by
  unfold home
  rw [List.filter_filter]
  refine List.filter_congr fun r hr => ?_
  cases h : p r with
  | false => rfl
  | true => simpa using hp r hr h

theorem find?_home {p : ρ → Bool} (hp : ∀ r ∈ t, p r = true → tenant r = e) :
    (home tenant e t).find? p = t.find? p := by
  unfold Table.find?
  rw [← List.head?_filter, ← List.head?_filter, filter_home hp]

theorem any_home {p : ρ → Bool} (hp : ∀ r ∈ t, p r = true → tenant r = e) :
    (home tenant e t).rows.any p = t.rows.any p := by
  rw [Bool.eq_iff_iff, List.any_eq_true, List.any_eq_true]
  constructor
  · rintro ⟨r, hr, hpr⟩
    exact ⟨r, (mem_home.mp hr).1, hpr⟩
  · rintro ⟨r, hr, hpr⟩
    exact ⟨r, mem_home.mpr ⟨hr, hp r hr hpr⟩, hpr⟩

theorem sum_home {p : ρ → Bool} {value : ρ → ℕ} (hp : ∀ r ∈ t, p r = true → tenant r = e) :
    sumWhere (home tenant e t).rows p value = sumWhere t.rows p value := by
  unfold sumWhere
  rw [filter_home hp]

theorem filter_tenant :
    (home tenant e t).rows.filter (fun r => tenant r == e) = t.rows.filter fun r => tenant r == e :=
  filter_home fun _ _ hr => by simpa using hr

theorem filter_own (p : ρ → Bool) :
    (home tenant e t).rows.filter (fun r => tenant r == e && p r) =
      t.rows.filter fun r => tenant r == e && p r := filter_home fun _ _ hr => own_of_and hr

theorem find?_own (p : ρ → Bool) : (home tenant e t).find? (fun r => tenant r == e && p r) =
    t.find? fun r => tenant r == e && p r := find?_home fun _ _ hr => own_of_and hr

theorem any_own (p : ρ → Bool) : (home tenant e t).rows.any (fun r => tenant r == e && p r) =
    t.rows.any fun r => tenant r == e && p r := any_home fun _ _ hr => own_of_and hr

theorem countP_tenant : (home tenant e t).rows.countP (fun r => tenant r == e) =
    t.rows.countP fun r => tenant r == e := by
  rw [List.countP_eq_length_filter, filter_tenant, List.countP_eq_length_filter]

theorem countP_own (p : ρ → Bool) : (home tenant e t).rows.countP (fun r => tenant r == e && p r) =
    t.rows.countP fun r => tenant r == e && p r := by
  rw [List.countP_eq_length_filter, filter_own, List.countP_eq_length_filter]

theorem sum_tenant (value : ρ → ℕ) : sumWhere (home tenant e t).rows (fun r => tenant r == e) value =
    sumWhere t.rows (fun r => tenant r == e) value := sum_home fun _ _ hr => by simpa using hr

theorem sum_own (p : ρ → Bool) (value : ρ → ℕ) :
    sumWhere (home tenant e t).rows (fun r => tenant r == e && p r) value =
      sumWhere t.rows (fun r => tenant r == e && p r) value := sum_home fun _ _ hr => own_of_and hr

section keys
variable [DecidableEq ι] {k : ι}

theorem has_home (hk : HomeKey tenant e t k) : (home tenant e t).has k = t.has k := by
  rw [Bool.eq_iff_iff, Table.has_iff, Table.has_iff]
  constructor
  · rintro ⟨r, hr, hrk⟩
    exact ⟨r, (mem_home.mp hr).1, hrk⟩
  · rintro ⟨r, hr, hrk⟩
    exact ⟨r, mem_home.mpr ⟨hr, hk r hr hrk⟩, hrk⟩

theorem get?_home (hk : HomeKey tenant e t k) : (home tenant e t).get? k = t.get? k :=
  find?_home fun r hr hrk => hk r hr (by simpa using hrk)

theorem homeKey_insertNew {r : ρ} (h : HomeKey tenant e t k) (hr : tenant r = e) :
    HomeKey tenant e (t.insertNew r) k := by
  intro x hx hk
  rcases Table.mem_insertNew_cases hx with hx | rfl
  · exact h x hx hk
  · exact hr

theorem tableEdits_insertNew {r : ρ} (hr : tenant r = e) (hk : HomeKey tenant e t (key r)) :
    TableEdits tenant e (fun t => t.insertNew r) t where
  own := by
    refine Table.ext ?_
    cases hhas : t.has (key r) with
    | true =>
      have hsame (u : Table ι ρ key) (hu : u.has (key r) = true) : u.insertNew r = u := by
        rw [Table.insertNew, dif_pos (by simpa [Table.has] using hu)]
      rw [hsame t hhas, hsame _ ((has_home hk).trans hhas)]
    | false =>
      rw [Table.insertNew_rows ((has_home hk).trans hhas)]
      simp only [home, Table.insertNew_rows hhas, List.filter_append]
      rw [List.filter_cons_of_pos (by simpa using hr), List.filter_nil]
  others e' he := Table.ext (Table.filter_insertNew (by simpa [hr] using he.symm))

end keys

theorem tableEdits_update {p : ρ → Bool} {f : ρ → ρ} {hf : ∀ r, key (f r) = key r}
    (htenant : ∀ r, tenant (f r) = tenant r) (hp : ∀ r ∈ t, p r = true → tenant r = e) :
    TableEdits tenant e (fun t => t.update p f hf) t where
  own := by
    refine Table.ext ?_
    change (t.rows.filter _).map _ = (t.rows.map _).filter _
    rw [List.filter_map]
    refine congrArg (List.map _) (List.filter_congr fun r _ => ?_)
    rw [Function.comp_apply]
    split_ifs
    · rw [htenant]
    · rfl
  others e' he := Table.ext (Table.filter_update fun r hr hpr => by
    rw [htenant, hp r hr hpr]
    simpa using he.symm)

theorem tableEdits_delete {p : ρ → Bool} (hp : ∀ r ∈ t, p r = true → tenant r = e) :
    TableEdits tenant e (fun t => t.delete p) t where
  own := by
    refine Table.ext ?_
    change (t.rows.filter _).filter _ = (t.rows.filter _).filter _
    rw [List.filter_filter, List.filter_filter]
    exact List.filter_congr fun r _ => Bool.and_comm _ _
  others e' he := Table.ext (Table.filter_delete fun r hr hpr => by
    rw [hp r hr hpr]
    simpa using he.symm)

end table

/-- What the event sees: every table under row-level security, its own row of the events and of the
invitations, and all users. -/
def alone (e : ℕ) (db : LedgerDb) : LedgerDb where
  events := home Event.id e db.events
  announcements := home EventAnnouncement.eventId e db.announcements
  paymentInstructions := home PaymentInstruction.eventId e db.paymentInstructions
  persons := home Person.eventId e db.persons
  pledges := home Pledge.eventId e db.pledges
  fulfillments := home Fulfillment.eventId e db.fulfillments
  files := home FileObject.eventId e db.files
  budgetItems := home BudgetItem.eventId e db.budgetItems
  allocations := home Allocation.eventId e db.allocations
  budgets := home Budget.eventId e db.budgets
  documents := home Document.eventId e db.documents
  users := db.users
  members := home EventMember.eventId e db.members
  invitations := home Invitation.eventId e db.invitations
  groups := home ContributorGroup.eventId e db.groups
  personGroups := home PersonGroup.eventId e db.personGroups
  pendingConfirmations := home PendingConfirmation.eventId e db.pendingConfirmations
  smsCampaigns := home SmsCampaign.eventId e db.smsCampaigns
  smsMessages := home SmsMessage.eventId e db.smsMessages
  outbox := home OutboxRow.eventId e db.outbox
  auditEvents := db.auditEvents.filter fun r => r.eventId == e

/-- A table of the database, and what an event sees of it. -/
structure Column {T : Type} (get : LedgerDb → T) (set : LedgerDb → T → LedgerDb)
    (restrict : ℕ → T → T) : Prop where
  seen : ∀ e db, get (alone e db) = restrict e (get db)
  alone_set : ∀ e db x, alone e (set db x) = set (alone e db) (restrict e x)
  set_get : ∀ db, set db (get db) = db

section columns

theorem column_events : Column LedgerDb.events (fun db x => { db with events := x }) (home Event.id) :=
  ⟨fun _ _ => rfl, fun _ _ _ => rfl, fun _ => rfl⟩

theorem column_persons :
    Column LedgerDb.persons (fun db x => { db with persons := x }) (home Person.eventId) :=
  ⟨fun _ _ => rfl, fun _ _ _ => rfl, fun _ => rfl⟩

theorem column_pledges :
    Column LedgerDb.pledges (fun db x => { db with pledges := x }) (home Pledge.eventId) :=
  ⟨fun _ _ => rfl, fun _ _ _ => rfl, fun _ => rfl⟩

theorem column_fulfillments : Column LedgerDb.fulfillments
    (fun db x => { db with fulfillments := x }) (home Fulfillment.eventId) :=
  ⟨fun _ _ => rfl, fun _ _ _ => rfl, fun _ => rfl⟩

theorem column_files :
    Column LedgerDb.files (fun db x => { db with files := x }) (home FileObject.eventId) :=
  ⟨fun _ _ => rfl, fun _ _ _ => rfl, fun _ => rfl⟩

theorem column_budgetItems :
    Column LedgerDb.budgetItems (fun db x => { db with budgetItems := x }) (home BudgetItem.eventId) :=
  ⟨fun _ _ => rfl, fun _ _ _ => rfl, fun _ => rfl⟩

theorem column_allocations :
    Column LedgerDb.allocations (fun db x => { db with allocations := x }) (home Allocation.eventId) :=
  ⟨fun _ _ => rfl, fun _ _ _ => rfl, fun _ => rfl⟩

theorem column_budgets :
    Column LedgerDb.budgets (fun db x => { db with budgets := x }) (home Budget.eventId) :=
  ⟨fun _ _ => rfl, fun _ _ _ => rfl, fun _ => rfl⟩

theorem column_documents :
    Column LedgerDb.documents (fun db x => { db with documents := x }) (home Document.eventId) :=
  ⟨fun _ _ => rfl, fun _ _ _ => rfl, fun _ => rfl⟩

theorem column_members :
    Column LedgerDb.members (fun db x => { db with members := x }) (home EventMember.eventId) :=
  ⟨fun _ _ => rfl, fun _ _ _ => rfl, fun _ => rfl⟩

theorem column_invitations :
    Column LedgerDb.invitations (fun db x => { db with invitations := x }) (home Invitation.eventId) :=
  ⟨fun _ _ => rfl, fun _ _ _ => rfl, fun _ => rfl⟩

theorem column_groups :
    Column LedgerDb.groups (fun db x => { db with groups := x }) (home ContributorGroup.eventId) :=
  ⟨fun _ _ => rfl, fun _ _ _ => rfl, fun _ => rfl⟩

theorem column_personGroups :
    Column LedgerDb.personGroups (fun db x => { db with personGroups := x }) (home PersonGroup.eventId) :=
  ⟨fun _ _ => rfl, fun _ _ _ => rfl, fun _ => rfl⟩

theorem column_smsMessages :
    Column LedgerDb.smsMessages (fun db x => { db with smsMessages := x }) (home SmsMessage.eventId) :=
  ⟨fun _ _ => rfl, fun _ _ _ => rfl, fun _ => rfl⟩

theorem column_outbox :
    Column LedgerDb.outbox (fun db x => { db with outbox := x }) (home OutboxRow.eventId) :=
  ⟨fun _ _ => rfl, fun _ _ _ => rfl, fun _ => rfl⟩

end columns

section edits
variable {e : ℕ} {db : LedgerDb} {ι ρ : Type} {key : ρ → ι} {tenant : ρ → ℕ}
  {get : LedgerDb → Table ι ρ key} {set : LedgerDb → Table ι ρ key → LedgerDb}
  {f : Table ι ρ key → Table ι ρ key}

/-- What is confined in a table is so in the database. -/
theorem edits_column (hcolumn : Column get set (home tenant)) (h : TableEdits tenant e f (get db)) :
    Edits alone e (fun db => set db (f (get db))) db where
  own := by rw [hcolumn.seen, h.own, hcolumn.alone_set]
  others e' he := by
    rw [hcolumn.alone_set, h.others e' he, ← hcolumn.alone_set, hcolumn.set_get]

theorem edits_appendAudit {row : AuditEvent} (he : row.eventId = e) :
    Edits alone e (fun db => db.appendAudit row) db where
  own := by simp [LedgerDb.appendAudit, alone, he]
  others e' hne := by simp [LedgerDb.appendAudit, alone, he, hne.symm]

end edits

end Akabbo.TenantViews
