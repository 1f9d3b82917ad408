import Akabbo.BigintCasts
import Akabbo.ServiceSteps

/-!
# Two records of one person

A merge moves what a contributor has to another one and removes the first. Pledges, payments and
files move, and so does a linked account; a phone and the memberships in groups go with the row.
-/
namespace Akabbo.MergedPeople
open Access PledgeStatus RowTable StatementProgram WeakestPreconditions LedgerState
open LedgerWrites hiding Invocation
open LedgerSpecs LedgerReads ServiceSteps BigintCasts
open StatementProgram.Program (run runIf)

/-- The source's account is freed before the target takes it over. -/
def freed (e : ℕ) (source : Person) (v : LedgerDb) : LedgerDb :=
  if source.userId.isSome then
    v.updatePerson e source.id (fun p => { p with userId := none }) fun _ => rfl
  else v

def inherited (e : ℕ) (source target : Person) (v : LedgerDb) : LedgerDb :=
  if target.userId.isNone && source.userId.isSome then
    v.updatePerson e target.id (fun p => { p with userId := source.userId }) fun _ => rfl
  else v

/-- The rows after a merge. -/
def merged (e : ℕ) (source target : Person) (row : AuditEvent) (v : LedgerDb) : LedgerDb :=
  ((inherited e source target (((freed e source v).movePledges e source.id target.id).moveFiles
    e source.id target.id)).appendAudit row).deletePerson e source.id

/-- What the source was, the target is: nothing of it is lost but its row. -/
structure Absorbed (e : ℕ) (source target : Person) (db db' : LedgerDb) : Prop where
  pledges : db'.pledges = (db.movePledges e source.id target.id).pledges
  payments : db'.fulfillments = db.fulfillments
  files : ∀ f ∈ db.files, f.eventId = e → f.personId = some source.id →
    { f with personId := some target.id } ∈ db'.files
  totals : committedAgg db' e = committedAgg db e ∧ receivedAgg db' e = receivedAgg db e
  groups : ∀ g, isMember e db source.id g = true ∨ isMember e db target.id g = true →
    isMember e db' target.id g = true
  rollups : ∀ g, groupCommitted e db g ≤ groupCommitted e db' g ∧
    groupReceived e db g ≤ groupReceived e db' g
  heir : ∃ q ∈ db'.persons, q.id = target.id ∧ q.phone = target.phone.or source.phone ∧
    q.userId = target.userId.or source.userId
  others : ∀ q ∈ db.persons, q.id ≠ source.id → q.id ≠ target.id → q ∈ db'.persons
  memberships : ∀ r ∈ db.personGroups, r.personId ≠ source.id → r ∈ db'.personGroups
  gone : ∀ q ∈ db'.persons, q.id ≠ source.id ∧ db.persons.has q.id = true

/-- The target has what the merge leaves behind: the groups, and a phone if there is one. -/
def Covers (e : ℕ) (source target : Person) (db : LedgerDb) : Prop :=
  (∀ g, isMember e db source.id g = true → isMember e db target.id g = true) ∧
    (target.phone = none → source.phone = none)

/-- A pledge after the merge. -/
def moved (e : ℕ) (source target : Person) (p : Pledge) : Pledge :=
  if p.eventId == e && p.personId == source.id then { p with personId := target.id } else p

section moved
variable {e : ℕ} {source target : Person} (p : Pledge)

@[simp] theorem moved_id : (moved e source target p).id = p.id := by
  unfold moved
  split_ifs <;> rfl

@[simp] theorem moved_eventId : (moved e source target p).eventId = p.eventId := by
  unfold moved
  split_ifs <;> rfl

@[simp] theorem moved_committedValue :
    (moved e source target p).committedValue = p.committedValue := by
  unfold moved
  split_ifs <;> rfl

@[simp] theorem isLive_moved : isLive (moved e source target p) = isLive p := by
  unfold moved
  split_ifs <;> rfl

end moved

section rows
variable {e : ℕ} {source target : Person} {row : AuditEvent} {db : LedgerDb}

theorem merged_pledges : (merged e source target row db).pledges =
    (db.movePledges e source.id target.id).pledges := by
  unfold merged inherited freed
  split_ifs <;> rfl

theorem merged_pledge_rows : (merged e source target row db).pledges.rows =
    db.pledges.rows.map (moved e source target) := by
  rw [merged_pledges]
  rfl

theorem merged_payments : (merged e source target row db).fulfillments = db.fulfillments := by
  unfold merged inherited freed
  split_ifs <;> rfl

theorem merged_personGroups : (merged e source target row db).personGroups =
    db.personGroups.delete fun r => r.personId == source.id := by
  unfold merged inherited freed
  split_ifs <;> rfl

theorem merged_files : (merged e source target row db).files =
    ((db.moveFiles e source.id target.id).files).update (fun f => f.personId == some source.id)
      (fun f => { f with personId := none }) fun _ => rfl := by
  unfold merged inherited freed
  split_ifs <;> rfl

/-- Who is not the source stays as he is while the source's account is freed. -/
theorem mem_freed {q : Person} (hq : q ∈ db.persons) (hne : q.id ≠ source.id) :
    q ∈ (freed e source db).persons := by
  unfold freed
  split_ifs
  · exact mem_updatePerson.mpr ⟨q, hq, by simp [hne]⟩
  · exact hq

theorem mem_inherited {q : Person} (hq : q ∈ db.persons) (hne : q.id ≠ target.id) :
    q ∈ (inherited e source target db).persons := by
  unfold inherited
  split_ifs
  · exact mem_updatePerson.mpr ⟨q, hq, by simp [hne]⟩
  · exact hq

theorem heir_inherited (ht : target ∈ db.persons) (hte : target.eventId = e) :
    { target with userId := target.userId.or source.userId } ∈
      (inherited e source target db).persons := by
  unfold inherited
  split_ifs with h
  · simp only [Bool.and_eq_true, Option.isNone_iff_eq_none] at h
    exact mem_updatePerson.mpr ⟨target, ht, by simp [hte, h.1]⟩
  · have hsame : target.userId.or source.userId = target.userId := by
      cases hu : target.userId <;> cases hs : source.userId <;> simp_all
    rwa [hsame]

/-- The rows of people keep their ids and events. -/
theorem named_freed {q : Person} (hq : q ∈ (freed e source db).persons) :
    ∃ x ∈ db.persons, x.id = q.id ∧ x.eventId = q.eventId := by
  unfold freed at hq
  split_ifs at hq
  · obtain ⟨x, hx, rfl⟩ := mem_updatePerson.mp hq
    refine ⟨x, hx, ?_⟩
    split_ifs <;> exact ⟨rfl, rfl⟩
  · exact ⟨q, hq, rfl, rfl⟩

theorem named_inherited {q : Person} (hq : q ∈ (inherited e source target db).persons) :
    ∃ x ∈ db.persons, x.id = q.id ∧ x.eventId = q.eventId := by
  unfold inherited at hq
  split_ifs at hq
  · obtain ⟨x, hx, rfl⟩ := mem_updatePerson.mp hq
    refine ⟨x, hx, ?_⟩
    split_ifs <;> exact ⟨rfl, rfl⟩
  · exact ⟨q, hq, rfl, rfl⟩

theorem mem_merged {q : Person} : q ∈ (merged e source target row db).persons ↔
    q ∈ (inherited e source target (((freed e source db).movePledges e source.id target.id).moveFiles
      e source.id target.id)).persons ∧ (q.eventId == e && q.id == source.id) = false :=
  Table.mem_delete

end rows

section sums
variable {e : ℕ} {source target : Person} {row : AuditEvent} {db : LedgerDb}

theorem isMember_merged {i g : ℕ} : isMember e (merged e source target row db) i g =
    (isMember e db i g && i != source.id) := by
  rw [Bool.eq_iff_iff]
  simp only [isMember, merged_personGroups, Table.delete, Bool.and_eq_true, List.any_eq_true,
    List.mem_filter, beq_iff_eq, Bool.not_eq_true', beq_eq_false_iff_ne, bne_iff_ne]
  constructor
  · rintro ⟨r, ⟨hr, hne⟩, ⟨he, hi⟩, hg⟩
    exact ⟨⟨r, hr, ⟨he, hi⟩, hg⟩, hi ▸ hne⟩
  · rintro ⟨⟨r, hr, ⟨he, hi⟩, hg⟩, hne⟩
    exact ⟨r, ⟨hr, hi ▸ hne⟩, ⟨he, hi⟩, hg⟩

theorem committedAgg_merged :
    committedAgg (merged e source target row db) e = committedAgg db e := by
  unfold committedAgg
  rw [merged_pledge_rows, sumWhere_map]
  exact sumWhere_congr fun p _ => ⟨by rw [moved_eventId, isLive_moved], fun _ =>
    moved_committedValue p⟩

theorem receivedAgg_merged : receivedAgg (merged e source target row db) e = receivedAgg db e := by
  unfold receivedAgg
  rw [merged_payments]

/-- The pledge of a member of a group is the pledge of one after the merge. -/
theorem isMember_moved {p : Pledge} {g : ℕ} (hne : source.id ≠ target.id)
    (hgroups : ∀ g, isMember e db source.id g = true → isMember e db target.id g = true)
    (he : p.eventId = e) (h : isMember e db p.personId g = true) :
    isMember e (merged e source target row db) (moved e source target p).personId g = true := by
  rw [isMember_merged]
  unfold moved
  by_cases hi : p.personId = source.id
  · rw [if_pos (by simp [he, hi])]
    rw [hi] at h
    simp [hgroups g h, Ne.symm hne]
  · rw [if_neg (by simp [hi])]
    simp [h, hi]

theorem groupCommitted_merged (hne : source.id ≠ target.id)
    (hgroups : ∀ g, isMember e db source.id g = true → isMember e db target.id g = true) (g : ℕ) :
    groupCommitted e db g ≤ groupCommitted e (merged e source target row db) g := by
  have hvalue : Pledge.committedValue = fun p => (moved e source target p).committedValue :=
    funext fun p => (moved_committedValue p).symm
  unfold groupCommitted
  rw [merged_pledge_rows, sumWhere_map, ← hvalue]
  refine sumWhere_mono fun p _ hp => ?_
  simp only [Bool.and_eq_true, beq_iff_eq] at hp
  obtain ⟨⟨he, hlive⟩, hmember⟩ := hp
  simp [he, hlive, isMember_moved hne hgroups he hmember]

theorem groupReceived_merged (hne : source.id ≠ target.id)
    (hgroups : ∀ g, isMember e db source.id g = true → isMember e db target.id g = true) (g : ℕ) :
    groupReceived e db g ≤ groupReceived e (merged e source target row db) g := by
  unfold groupReceived
  rw [merged_payments, merged_pledge_rows]
  refine sumWhere_mono fun f _ hf => ?_
  simp only [Bool.and_eq_true, List.any_eq_true, beq_iff_eq] at hf ⊢
  obtain ⟨he, p, hp, ⟨⟨hpe, hpf⟩, hlive⟩, hmember⟩ := hf
  refine ⟨he, moved e source target p, List.mem_map_of_mem hp, ?_⟩
  simp [hpe, hpf, hlive, isMember_moved hne hgroups hpe hmember]

end sums

section merging
variable {e : ℕ} {source target : Person} {row : AuditEvent} {db : LedgerDb}

/-- Who is left. -/
theorem gone_merged (hs : source ∈ db.persons) (hse : source.eventId = e) {q : Person}
    (hq : q ∈ (merged e source target row db).persons) :
    q.id ≠ source.id ∧ db.persons.has q.id = true := by
  obtain ⟨hq, hsel⟩ := mem_merged.mp hq
  obtain ⟨y, hy, hyid, hye⟩ := named_inherited hq
  obtain ⟨x, hx, hxid, hxe⟩ := named_freed hy
  refine ⟨fun hid => ?_, Table.has_iff.mpr ⟨x, hx, hxid.trans hyid⟩⟩
  have hsame : x = source := Table.key_inj hx hs (hxid.trans (hyid.trans hid))
  have hevent : q.eventId = e := by rw [← hye, ← hxe, hsame, hse]
  simp [hevent, hid] at hsel

theorem mem_moveFiles {i j : ℕ} {f : FileObject} :
    f ∈ (db.moveFiles e i j).files ↔ ∃ x ∈ db.files,
      f = if x.eventId == e && x.personId == some i then { x with personId := some j } else x := by
  simp only [LedgerDb.moveFiles, Table.mem_update]

theorem file_merged (hne : source.id ≠ target.id) {f : FileObject} (hf : f ∈ db.files)
    (he : f.eventId = e) (hi : f.personId = some source.id) :
    { f with personId := some target.id } ∈ (merged e source target row db).files := by
  rw [merged_files, Table.mem_update]
  refine ⟨{ f with personId := some target.id }, ?_, ?_⟩
  · exact mem_moveFiles.mpr ⟨f, hf, by simp [he, hi]⟩
  · simp [Ne.symm hne]

theorem absorbed_merged_iff (hs : source ∈ db.persons) (hse : source.eventId = e)
    (ht : target ∈ db.persons) (hte : target.eventId = e) (hne : source.id ≠ target.id) :
    Absorbed e source target db (merged e source target row db) ↔ Covers e source target db := by
  have hheir : { target with userId := target.userId.or source.userId } ∈
      (merged e source target row db).persons := by
    refine mem_merged.mpr ⟨?_, by simp [Ne.symm hne]⟩
    exact heir_inherited (mem_freed ht (Ne.symm hne)) hte
  constructor
  · intro h
    refine ⟨fun g hg => ?_, fun hnone => ?_⟩
    · have hmember := h.groups g (.inl hg)
      rw [isMember_merged, Bool.and_eq_true] at hmember
      exact hmember.1
    · obtain ⟨q, hq, hid, hphone, -⟩ := h.heir
      obtain rfl := Table.key_inj hq hheir hid
      rw [hnone] at hphone
      exact hphone.symm
  · rintro ⟨hgroups, hphone⟩
    exact
      { pledges := merged_pledges
        payments := merged_payments
        files := fun f hf he hi => file_merged hne hf he hi
        totals := ⟨committedAgg_merged, receivedAgg_merged⟩
        groups := fun g hg => by
          rw [isMember_merged, hg.elim (hgroups g) id]
          simp [Ne.symm hne]
        rollups := fun g =>
          ⟨groupCommitted_merged hne hgroups g, groupReceived_merged hne hgroups g⟩
        heir := by
          refine ⟨_, hheir, rfl, ?_, rfl⟩
          cases hp : target.phone with
          | none => exact (hphone hp).symm
          | some phone => rfl
        others := fun q hq hqs hqt => mem_merged.mpr
          ⟨mem_inherited (mem_freed hq hqs) hqt, by simp [hqs]⟩
        memberships := fun r hr hrs => by
          rw [merged_personGroups]
          exact Table.mem_delete.mpr ⟨hr, by simpa using hrs⟩
        gone := fun q hq => gone_merged hs hse hq }

/-- An account that is set under a condition. -/
theorem wp_setUserId_bind {I : LedgerDb → Prop} {τ : Type} {b : Bool} {i : ℕ} {userId : Option ℕ}
    {next : Unit → LedgerProgram τ} {Q : τ → LedgerDb → Prop}
    (h : wp I (next ()) Q (if b then
      db.updatePerson e i (fun p => { p with userId }) fun _ => rfl else db)) :
    wp I (runIf b (setUserId e i userId) >>= next) Q db := by
  refine wp_runIf_bind (fun hb => wp_accept fun _ => ?_) fun hb => ?_
  · rwa [if_pos hb] at h
  · rwa [hb, if_neg Bool.false_ne_true] at h

theorem wp_merged {I : LedgerDb → Prop} {ctx : OperationContext} {i j : ℕ}
    {Q : MergeResult → LedgerDb → Prop}
    (h : ∀ view source target row, db.findPerson ctx.event.eventId i = some source →
      db.findPerson ctx.event.eventId j = some target → i ≠ j →
      Q view (merged ctx.event.eventId source target row db)) :
    wp I (mergePeople ctx i j) Q db := by
  refine wp_gates_bind fun _ _ => wp_refuse_bind fun hne => wp_query_bind <| wp_query_bind <|
    wp_orThrow_bind fun source hsource => wp_orThrow_bind fun target htarget =>
    wp_refuse_bind fun _ => ?_
  have hij : i ≠ j := by
    intro hij
    simp [hij] at hne
  obtain ⟨-, -, rfl⟩ := findPerson_mem hsource
  obtain ⟨-, -, rfl⟩ := findPerson_mem htarget
  exact wp_setUserId_bind <| wp_modifyChecked_bind fun _ _ => wp_modify_bind <| wp_setUserId_bind <|
    wp_writeAudit_bind fun row _ => wp_deletePerson_bind fun _ => wp_pure <|
    h _ source target row hsource htarget hij

end merging

/-- A merge loses nothing of the source but its row exactly when the target has the source's groups
and does not lack a phone that the source has. -/
theorem merge_absorbs_iff {ctx : OperationContext} {i j : ℕ} {db db' : LedgerDb}
    {result : MergeResult} {source target : Person}
    (hsource : db.findPerson ctx.event.eventId i = some source)
    (htarget : db.findPerson ctx.event.eventId j = some target)
    (h : run (mergePeople ctx i j) db = (.ok result, db')) :
    Absorbed ctx.event.eventId source target db db' ↔ Covers ctx.event.eventId source target db := by
  have hwp : wp (fun _ => True) (mergePeople ctx i j) (fun _ v' =>
      Absorbed ctx.event.eventId source target db v' ↔ Covers ctx.event.eventId source target db)
      db := by
    refine wp_merged fun _ source' target' row hs ht hne => ?_
    obtain rfl := Option.some.inj (hsource.symm.trans hs)
    obtain rfl := Option.some.inj (htarget.symm.trans ht)
    obtain ⟨hsmem, hse, rfl⟩ := findPerson_mem hsource
    obtain ⟨htmem, hte, rfl⟩ := findPerson_mem htarget
    exact absorbed_merged_iff hsmem hse htmem hte hne
  exact wp_of_run hwp h

def organiser : OperationContext := ⟨⟨1, true⟩, ⟨7, .owner, .active⟩⟩

/-- John Kato belongs to a group and has paid; John K. is the same person. -/
def johns : LedgerDb :=
  { LedgerDb.empty with
    persons := (Table.empty.insertNew ⟨10, 7, "John Kato", none, none, .humanTyped, some 1, 0⟩).insertNew
      ⟨11, 7, "John K.", none, none, .humanTyped, some 1, 0⟩
    pledges := Table.empty.insertNew ⟨20, 7, 10, .cash, 100, .fulfilled, none, none, none, none, none,
      false, .humanTyped, some 1, 0⟩
    groups := Table.empty.insertNew ⟨30, 7, "Church", .church, some 1⟩
    personGroups := Table.empty.insertNew ⟨7, 10, 30, none⟩ }

theorem merge_loses_group :
    ¬ ∀ (ctx : OperationContext) (i j : ℕ) (db db' : LedgerDb) (result : MergeResult)
      (source target : Person), db.findPerson ctx.event.eventId i = some source →
      db.findPerson ctx.event.eventId j = some target →
      run (mergePeople ctx i j) db = (.ok result, db') →
      Absorbed ctx.event.eventId source target db db' := by
  intro h
  have hkept := (h organiser 10 11 johns _ _ _ _ rfl rfl rfl).groups 30 (.inl (by decide))
  exact absurd hkept (by decide)

/-- The other way round the group stays. -/
theorem merge_absorbs_other_way : Absorbed 7
    ⟨11, 7, "John K.", none, none, .humanTyped, some 1, 0⟩
    ⟨10, 7, "John Kato", none, none, .humanTyped, some 1, 0⟩ johns
    (run (mergePeople organiser 11 10) johns).2 := by
  refine (@merge_absorbs_iff organiser 11 10 _ _ _ _ _ rfl rfl rfl).mpr ⟨fun g hg => ?_, fun h => h⟩
  have hrows : johns.personGroups.rows = [⟨7, 10, 30, none⟩] := rfl
  simp [isMember, hrows] at hg

end Akabbo.MergedPeople
