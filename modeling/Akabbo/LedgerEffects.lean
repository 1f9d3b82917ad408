import Akabbo.LedgerWrites
import Akabbo.PledgeBook

/-!
# The rows refine the book

Reading the tables as a book of accounts, and what the ledger's row updates do to it
while every stored status is the derived one.
-/
namespace Akabbo.LedgerEffects
open Access PledgeStatus RowTable LedgerState PledgeBook

/-- The sum of exactly the payments whose `pledgeId` is that pledge. -/
def paid (db : LedgerDb) (pledgeId : ℕ) : ℕ :=
  sumWhere db.fulfillments.rows (fun f => f.pledgeId == pledgeId) Fulfillment.value

def account (db : LedgerDb) (p : Pledge) : Account :=
  ⟨p.committedValue, paid db p.id, p.status == .cancelled⟩

def book (db : LedgerDb) : Book := fun i => (db.pledges.get? i).map (account db)

/-- What every ledger row promises: a pledge's status is the derived one, a payment's
pledge and a pledge's person exist in the same event. -/
structure Sound (db : LedgerDb) : Prop where
  status : ∀ p ∈ db.pledges, p.status = (account db p).status
  owned : ∀ f ∈ db.fulfillments, ∃ p ∈ db.pledges, p.id = f.pledgeId ∧ p.eventId = f.eventId
  placed : ∀ p ∈ db.pledges, ∃ q ∈ db.persons, q.id = p.personId ∧ q.eventId = p.eventId

/-- No pledge is lost, or moved to another event. -/
def Retains (db db' : LedgerDb) : Prop :=
  ∀ p ∈ db.pledges, ∃ p' ∈ db'.pledges, p'.id = p.id ∧ p'.eventId = p.eventId

/-- What sound rows turn into: sound rows that make these entries in the book. -/
structure Changed (db : LedgerDb) (es : List Entry) (db' : LedgerDb) : Prop where
  sound : Sound db'
  posts : PostsAll (book db) es (book db')
  retains : Retains db db'

def Evolves (db : LedgerDb) (es : List Entry) (db' : LedgerDb) : Prop :=
  Sound db → Changed db es db'

theorem retains_refl (db : LedgerDb) : Retains db db := fun p hp => ⟨p, hp, rfl, rfl⟩

theorem retains_trans {db db' db'' : LedgerDb} (h : Retains db db') (h' : Retains db' db'') :
    Retains db db'' := by
  intro p hp
  obtain ⟨p', hp', hi, he⟩ := h p hp
  obtain ⟨p'', hp'', hi', he'⟩ := h' p' hp'
  exact ⟨p'', hp'', hi'.trans hi, he'.trans he⟩

theorem evolves_refl (db : LedgerDb) : Evolves db [] db :=
  fun h => ⟨h, .nil _, retains_refl db⟩

theorem evolves_trans {db db' db'' : LedgerDb} {es es' : List Entry} (h : Evolves db es db')
    (h' : Sound db' → Evolves db' es' db'') : Evolves db (es ++ es') db'' := by
  intro hs
  have h₁ := h hs
  have h₂ := h' h₁.sound h₁.sound
  exact ⟨h₂.sound, postsAll_append h₁.posts h₂.posts, retains_trans h₁.retains h₂.retains⟩

theorem book_eq_some {db : LedgerDb} {i : ℕ} {a : Account} :
    book db i = some a ↔ ∃ p ∈ db.pledges, p.id = i ∧ account db p = a := by
  simp only [book, Option.map_eq_some_iff, Table.get?_eq_some]
  constructor
  · rintro ⟨p, ⟨hp, hi⟩, ha⟩
    exact ⟨p, hp, hi, ha⟩
  · rintro ⟨p, hp, hi, ha⟩
    exact ⟨p, ⟨hp, hi⟩, ha⟩

theorem book_of_mem {db : LedgerDb} {p : Pledge} (h : p ∈ db.pledges) :
    book db p.id = some (account db p) := book_eq_some.mpr ⟨p, h, rfl, rfl⟩

/-- What is stored about a pledge says whether it was cancelled. -/
theorem status_eq_cancelled {db : LedgerDb} {p : Pledge} :
    p.status = .cancelled ↔ (account db p).cancelled = true := by
  simp [account]

theorem get?_of_findPledge {db : LedgerDb} {e i : ℕ} {p : Pledge}
    (h : db.findPledge e i = some p) : db.pledges.get? i = some p ∧ p.eventId = e := by
  obtain ⟨hp, he, hi⟩ := findPledge_mem h
  exact ⟨Table.get?_eq_some.mpr ⟨hp, hi⟩, he⟩

/-- Under soundness, the sum an event sees for its own pledge is the whole sum. -/
theorem sumFulfillments_eq_paid {db : LedgerDb} {i : ℕ} {p : Pledge}
    (hown : ∀ f ∈ db.fulfillments, f.pledgeId = i → f.eventId = p.eventId) :
    db.sumFulfillments p.eventId i = paid db i := by
  refine sumWhere_congr fun f hf => ⟨?_, fun _ => rfl⟩
  by_cases hi : f.pledgeId = i
  · simp [hi, hown f hf hi]
  · simp [hi]

theorem owned_event {db : LedgerDb} (h : Sound db) {i : ℕ} {p : Pledge}
    (hp : db.pledges.get? i = some p) {f : Fulfillment} (hf : f ∈ db.fulfillments)
    (hi : f.pledgeId = i) : f.eventId = p.eventId := by
  obtain ⟨q, hq, hqi, hqe⟩ := h.owned f hf
  rw [Table.key_inj hq (Table.get?_mem hp) (hqi.trans (hi.trans (Table.get?_key hp).symm))] at hqe
  exact hqe.symm

theorem paid_insertFulfillment {db : LedgerDb} {f : Fulfillment}
    (h : db.fulfillments.has f.id = false) (i : ℕ) :
    paid (db.insertFulfillment f) i = paid db i + if f.pledgeId = i then f.value else 0 := by
  simp only [paid, LedgerDb.insertFulfillment, Table.insertNew_rows h, sumWhere_append,
    sumWhere_cons, sumWhere_nil, beq_iff_eq]
  split_ifs <;> rfl

theorem paid_setFulfillmentValue {db : LedgerDb} {f : Fulfillment} (hf : f ∈ db.fulfillments)
    (v i : ℕ) :
    f.value ≤ paid db f.pledgeId ∧
    paid (db.setFulfillmentValue f.eventId f.id v) i =
      if f.pledgeId = i then paid db i - f.value + v else paid db i := by
  have hsel : ∀ x ∈ db.fulfillments,
      (x.eventId == f.eventId && x.id == f.id) = decide (x.id = f.id) := by
    intro x hx
    by_cases hk : x.id = f.id
    · rw [Table.key_inj hx hf hk]
      simp
    · simp [hk]
  have hold : paid db f.pledgeId = f.value + sumWhere db.fulfillments.rows
      (fun x => (x.pledgeId == f.pledgeId) && !decide (x.id = f.id)) Fulfillment.value :=
    sumWhere_except hf (by simp) _
  refine ⟨by omega, ?_⟩
  split_ifs with hi
  · subst hi
    have hnew : paid (db.setFulfillmentValue f.eventId f.id v) f.pledgeId =
        v + sumWhere db.fulfillments.rows
          (fun x => (x.pledgeId == f.pledgeId) && !decide (x.id = f.id)) Fulfillment.value :=
      sumWhere_update_key hf (fun x => (rfl : ({ x with value := v } : Fulfillment).id = x.id))
        (by simp) hsel rfl
    omega
  · simp only [paid, LedgerDb.setFulfillmentValue, Table.update, sumWhere_map]
    refine sumWhere_congr fun x hx => ?_
    rw [hsel x hx]
    by_cases hk : x.id = f.id
    · rw [Table.key_inj hx hf hk]
      simp [hi]
    · simp [hk]

theorem get?_updatePledge {db : LedgerDb} {e i : ℕ} {p : Pledge}
    (hp : db.findPledge e i = some p) {f : Pledge → Pledge} {hf : ∀ p, (f p).id = p.id} (j : ℕ) :
    (db.updatePledge e i f hf).pledges.get? j = if i = j then some (f p) else db.pledges.get? j := by
  obtain ⟨hget, he⟩ := get?_of_findPledge hp
  simp only [LedgerDb.updatePledge, Table.get?_update]
  split_ifs with hij
  · subst hij
    simp [hget, he, Table.get?_key hget]
  · cases hj : db.pledges.get? j with
    | none => rfl
    | some r =>
      have hr : r.id ≠ i := fun h => hij (h.symm.trans (Table.get?_key hj))
      simp [hr]

/-- Rows that differ from sound ones at one pledge, whose status is again the derived one. -/
theorem evolves_at {db db' : LedgerDb} {i : ℕ} {p p' : Pledge} {e : Entry}
    (hp : db.pledges.get? i = some p) (hevent : p'.eventId = p.eventId)
    (hperson : p'.personId = p.personId)
    (hget : ∀ j, db'.pledges.get? j = if i = j then some p' else db.pledges.get? j)
    (hpersons : db'.persons = db.persons)
    (hpaid : ∀ j, j ≠ i → paid db' j = paid db j)
    (hown : ∀ f ∈ db'.fulfillments, f.pledgeId = i ∧ f.eventId = p.eventId ∨
      ∃ g ∈ db.fulfillments, g.pledgeId = f.pledgeId ∧ g.eventId = f.eventId)
    (hstatus : p'.status = (account db' p').status)
    (hpost : Posts (book db) e (Function.update (book db) i (some (account db' p')))) :
    Evolves db [e] db' := by
  intro hs
  have hget_i : db'.pledges.get? i = some p' := by rw [hget, if_pos rfl]
  have hmem {q : Pledge} (hq : q ∈ db'.pledges) : q = p' ∨ q.id ≠ i ∧ q ∈ db.pledges := by
    have h := hget q.id
    rw [Table.get?_of_mem hq] at h
    split_ifs at h with hqi
    · exact .inl (Option.some.inj h)
    · exact .inr ⟨fun he => hqi he.symm, Table.get?_mem h.symm⟩
  have hkeep {q : Pledge} (hq : q ∈ db.pledges) : ∃ q' ∈ db'.pledges, q'.id = q.id ∧
      q'.eventId = q.eventId := by
    by_cases hqi : i = q.id
    · have : q = p := Option.some.inj ((Table.get?_of_mem hq).symm.trans (hqi ▸ hp))
      subst this
      exact ⟨p', Table.get?_mem hget_i, (Table.get?_key hget_i).trans hqi, hevent⟩
    · have h := hget q.id
      rw [if_neg hqi, Table.get?_of_mem hq] at h
      exact ⟨q, Table.get?_mem h, rfl, rfl⟩
  have hacc {q : Pledge} (hq : q.id ≠ i) : account db' q = account db q := by
    simp only [account, hpaid q.id hq]
  have hbook : book db' = Function.update (book db) i (some (account db' p')) := by
    funext j
    by_cases hj : j = i
    · subst hj
      simp [book, hget_i]
    · rw [Function.update_of_ne hj]
      simp only [book, hget, if_neg (Ne.symm hj)]
      cases hq : db.pledges.get? j with
      | none => rfl
      | some q => simp [hacc (fun h => hj ((Table.get?_key hq).symm.trans h))]
  refine ⟨⟨fun q hq => ?_, fun f hf => ?_, fun q hq => ?_⟩, postsAll_single (hbook ▸ hpost),
    fun q hq => hkeep hq⟩
  · obtain rfl | ⟨hqi, hq⟩ := hmem hq
    · exact hstatus
    · rw [hacc hqi]
      exact hs.status q hq
  · obtain ⟨hfi, hfe⟩ | ⟨g, hg, hgp, hge⟩ := hown f hf
    · exact ⟨p', Table.get?_mem hget_i, (Table.get?_key hget_i).trans hfi.symm,
        hevent.trans hfe.symm⟩
    · obtain ⟨q, hq, hqi, hqe⟩ := hs.owned g hg
      obtain ⟨q', hq', hi', he'⟩ := hkeep hq
      exact ⟨q', hq', by omega, by omega⟩
  · rw [hpersons]
    obtain rfl | ⟨-, hq⟩ := hmem hq
    · rw [hperson, hevent]
      exact hs.placed p (Table.get?_mem hp)
    · exact hs.placed q hq

theorem evolves_insertPledge {db : LedgerDb} {p : Pledge} (hfresh : db.pledges.has p.id = false)
    (hstatus : p.status = .pledged)
    (hperson : ∃ q ∈ db.persons, q.id = p.personId ∧ q.eventId = p.eventId) :
    Evolves db [.opened p.id p.committedValue] (db.insertPledge p) := by
  intro hs
  have hmem {q : Pledge} : q ∈ (db.insertPledge p).pledges ↔ q ∈ db.pledges ∨ q = p :=
    Table.mem_insertNew hfresh
  have hpaid : paid db p.id = 0 := by
    refine sumWhere_eq_zero fun f hf hfp => ?_
    obtain ⟨q, hq, hqi, -⟩ := hs.owned f hf
    exact absurd (hqi.trans (by simpa using hfp)) (Table.has_eq_false_iff.mp hfresh q hq)
  have hacc : account db p = ⟨p.committedValue, 0, false⟩ := by
    simp [account, hpaid, hstatus]
  have hbook : book (db.insertPledge p) =
      Function.update (book db) p.id (some ⟨p.committedValue, 0, false⟩) := by
    funext j
    simp only [book, LedgerDb.insertPledge, Table.get?_insertNew hfresh, Function.update_apply]
    by_cases hj : p.id = j
    · simp only [hj, if_true, Option.map_some, ← hacc]
      rfl
    · simp only [hj, Ne.symm hj, if_false]
      rfl
  refine ⟨⟨fun q hq => ?_, fun f hf => ?_, fun q hq => ?_⟩, ?_,
    fun q hq => ⟨q, hmem.mpr (.inl hq), rfl, rfl⟩⟩
  · obtain hq | rfl := hmem.mp hq
    · exact hs.status q hq
    · rw [show account (db.insertPledge q) q = account db q from rfl, hacc, hstatus]
      rfl
  · obtain ⟨q, hq, hqf⟩ := hs.owned f hf
    exact ⟨q, hmem.mpr (.inl hq), hqf⟩
  · obtain hq | rfl := hmem.mp hq
    · exact hs.placed q hq
    · exact hperson
  · rw [hbook]
    refine postsAll_single (.opened ?_)
    simp [book, Table.get?_eq_none.mpr hfresh]

/-- A payment and the status that goes with it. The committed value and the sum are those
of the pledge's own rows. -/
theorem evolves_pay {db : LedgerDb} {f : Fulfillment} {p : Pledge}
    (hfresh : db.fulfillments.has f.id = false)
    (hp : db.findPledge f.eventId f.pledgeId = some p) (hc : p.status ≠ .cancelled)
    (hw : db.sumFulfillments f.eventId f.pledgeId + f.value ≤ p.committedValue) :
    Evolves db [.received f.pledgeId f.value]
      ((db.insertFulfillment f).setPledgeStatus f.eventId f.pledgeId
        (deriveStatus p.committedValue
          ((db.insertFulfillment f).sumFulfillments f.eventId f.pledgeId))) := by
  intro hs
  obtain ⟨hget, he⟩ := get?_of_findPledge hp
  have hid := Table.get?_key hget
  have hmem {g : Fulfillment} : g ∈ (db.insertFulfillment f).fulfillments ↔
      g ∈ db.fulfillments ∨ g = f := Table.mem_insertNew hfresh
  have hsum : db.sumFulfillments f.eventId f.pledgeId = paid db f.pledgeId := by
    rw [← he]
    exact sumFulfillments_eq_paid fun g hg hgi => owned_event hs hget hg hgi
  have hsum' : (db.insertFulfillment f).sumFulfillments f.eventId f.pledgeId =
      paid db f.pledgeId + f.value := by
    have := @sumFulfillments_eq_paid (db.insertFulfillment f) f.pledgeId p
      fun g hg hgi => by
        obtain hg | rfl := hmem.mp hg
        · exact owned_event hs hget hg hgi
        · exact he.symm
    rw [← he, this, paid_insertFulfillment hfresh, if_pos rfl]
  rw [hsum']
  have hlive : (p.status == Status.cancelled) = false := by simpa using hc
  refine evolves_at hget ?_ ?_ (fun j => @get?_updatePledge (db.insertFulfillment f) _ _ _ hp _ _ j)
    rfl (fun j hj => ?_) (fun g hg => ?_) ?_ ?_ hs
  · rfl
  · rfl
  · exact (paid_insertFulfillment hfresh j).trans (by simp [Ne.symm hj])
  · obtain hg | rfl := hmem.mp hg
    · exact .inr ⟨g, hg, rfl, rfl⟩
    · exact .inl ⟨rfl, he.symm⟩
  all_goals
    have hpaid' : paid ((db.insertFulfillment f).setPledgeStatus f.eventId f.pledgeId
        (deriveStatus p.committedValue (paid db f.pledgeId + f.value))) f.pledgeId =
        paid db f.pledgeId + f.value :=
      (paid_insertFulfillment hfresh _).trans (by simp)
    have hnot : (deriveStatus p.committedValue (paid db f.pledgeId + f.value) ==
        Status.cancelled) = false := by
      simp [deriveStatus_eq_cancelled]
  · simp only [account, Account.status, hid, hpaid', hnot]
  · have := Posts.received (v := f.value) (book_of_mem (Table.get?_mem hget))
      (by simpa [account] using hc) (by simpa [account, hid, ← hsum] using hw)
    simpa [account, hid, hpaid', hnot, hlive] using this

/-- The commitment is set anew, and the status with it. -/
theorem evolves_recommit {db : LedgerDb} {e i v : ℕ} {p : Pledge} {s : Status}
    (hp : db.findPledge e i = some p)
    (hst : s = deriveStatus v (db.sumFulfillments e i) (p.status = .cancelled)) :
    Evolves db [.recommitted i v]
      (db.updatePledge e i (fun q => { q with committedValue := v, status := s })
        fun _ => rfl) := by
  intro hs
  obtain ⟨hget, he⟩ := get?_of_findPledge hp
  have hid := Table.get?_key hget
  have hsum : db.sumFulfillments e i = paid db i := by
    rw [← he]
    exact sumFulfillments_eq_paid fun g hg hgi => owned_event hs hget hg hgi
  rw [hsum] at hst
  have hcancel : (s == Status.cancelled) = (p.status == Status.cancelled) := by
    rw [hst, Bool.eq_iff_iff]
    simp [deriveStatus_eq_cancelled]
  refine evolves_at hget ?_ ?_ (fun j => get?_updatePledge hp j) rfl (fun j _ => rfl)
    (fun g hg => .inr ⟨g, hg, rfl, rfl⟩) ?_ ?_ hs
  · rfl
  · rfl
  · simp only [account, Account.status, hcancel]
    rw [hst, hid]
    rfl
  · have := Posts.recommitted (c := v) (book_of_mem (Table.get?_mem hget))
    simp only [hid] at this
    simp only [account, hcancel]
    exact this

theorem evolves_cancel {db : LedgerDb} {e i : ℕ} {p : Pledge} (hp : db.findPledge e i = some p) :
    Evolves db [.cancelled i] (db.setPledgeStatus e i .cancelled) := by
  intro hs
  obtain ⟨hget, he⟩ := get?_of_findPledge hp
  have hid := Table.get?_key hget
  refine evolves_at hget ?_ ?_ (fun j => get?_updatePledge hp j) rfl (fun j _ => rfl)
    (fun g hg => .inr ⟨g, hg, rfl, rfl⟩) ?_ ?_ hs
  · rfl
  · rfl
  · simp [account, Account.status]
  · have := Posts.cancelled (book_of_mem (Table.get?_mem hget))
    simp only [hid] at this
    exact this

/-- A payment is set right, and its pledge's status with it. -/
theorem evolves_revise {db : LedgerDb} {e v : ℕ} {f : Fulfillment} {p : Pledge} {s : Status}
    (hf : db.findFulfillment e f.id = some f) (hp : db.findPledge e f.pledgeId = some p)
    (hw : db.sumOthers e f.pledgeId f.id + v ≤ p.committedValue)
    (hst : s = deriveStatus p.committedValue
      ((db.setFulfillmentValue e f.id v).sumFulfillments e f.pledgeId) (p.status = .cancelled)) :
    Evolves db [.revised f.pledgeId f.value v]
      ((db.setFulfillmentValue e f.id v).setPledgeStatus e f.pledgeId s) := by
  intro hs
  obtain ⟨hget, he⟩ := get?_of_findPledge hp
  obtain ⟨hfm, hfe, -⟩ := findFulfillment_mem hf
  subst hfe
  have hid := Table.get?_key hget
  have hmem {g : Fulfillment} (hg : g ∈ (db.setFulfillmentValue f.eventId f.id v).fulfillments) :
      ∃ x ∈ db.fulfillments, x.pledgeId = g.pledgeId ∧ x.eventId = g.eventId := by
    obtain ⟨x, hx, rfl⟩ := mem_setFulfillmentValue.mp hg
    refine ⟨x, hx, ?_⟩
    split_ifs <;> exact ⟨rfl, rfl⟩
  have hsum : paid db f.pledgeId = f.value + db.sumOthers f.eventId f.pledgeId f.id := by
    rw [← sumFulfillments_eq_add_sumOthers hfm, ← he]
    exact (sumFulfillments_eq_paid fun g hg hgi => owned_event hs hget hg hgi).symm
  have hpaid := fun i => (paid_setFulfillmentValue hfm v i).2
  have hsum' : (db.setFulfillmentValue f.eventId f.id v).sumFulfillments f.eventId f.pledgeId =
      paid db f.pledgeId - f.value + v := by
    have := @sumFulfillments_eq_paid (db.setFulfillmentValue f.eventId f.id v)
      f.pledgeId p fun g hg hgi => by
        obtain ⟨x, hx, hxp, hxe⟩ := hmem hg
        exact hxe.symm.trans (owned_event hs hget hx (hxp.trans hgi))
    rw [he, hpaid, if_pos rfl] at this
    exact this
  rw [hsum'] at hst
  have hcancel : (s == Status.cancelled) = (p.status == Status.cancelled) := by
    rw [hst, Bool.eq_iff_iff]
    simp [deriveStatus_eq_cancelled]
  have hpaid' : paid ((db.setFulfillmentValue f.eventId f.id v).setPledgeStatus f.eventId
      f.pledgeId s) f.pledgeId = paid db f.pledgeId - f.value + v :=
    (hpaid f.pledgeId).trans (if_pos rfl)
  refine evolves_at hget ?_ ?_
    (fun j => @get?_updatePledge (db.setFulfillmentValue f.eventId f.id v) _ _ _ hp _ _ j) rfl
    (fun j hj => (hpaid j).trans (if_neg (Ne.symm hj))) (fun g hg => .inr (hmem hg)) ?_ ?_ hs
  · rfl
  · rfl
  · simp only [account, Account.status, hid, hpaid', hcancel]
    rw [hst]
    rfl
  · have := @Posts.revised _ _ f.value v _ (book_of_mem (Table.get?_mem hget))
      (by simp only [account, hid]; omega) (by simp only [account, hid]; omega)
    simp only [hid] at this
    simp only [account, hcancel, hid, hpaid']
    simpa only [account, hid] using this

theorem evolves_same {db db' : LedgerDb} (hpl : db'.pledges = db.pledges)
    (hful : db'.fulfillments = db.fulfillments)
    (hper : ∀ p ∈ db.pledges, ∀ q ∈ db.persons, q.id = p.personId →
      ∃ q' ∈ db'.persons, q'.id = q.id ∧ q'.eventId = q.eventId) : Evolves db [] db' := by
  intro hs
  have hacc : account db' = account db := by
    funext p
    simp only [account, paid, hful]
  have hbook : book db' = book db := by
    funext i
    simp only [book, hpl, hacc]
  refine ⟨⟨fun p hp => ?_, fun f hf => ?_, fun p hp => ?_⟩, hbook ▸ .nil _,
    fun p hp => ⟨p, hpl ▸ hp, rfl, rfl⟩⟩
  · rw [hacc]
    exact hs.status p (hpl ▸ hp)
  · rw [hpl]
    exact hs.owned f (hful ▸ hf)
  · obtain ⟨q, hq, hqi, hqe⟩ := hs.placed p (hpl ▸ hp)
    obtain ⟨q', hq', hi, he⟩ := hper p (hpl ▸ hp) q hq hqi
    exact ⟨q', hq', hi.trans hqi, he.trans hqe⟩

theorem evolves_appendAudit (db : LedgerDb) (row : AuditEvent) :
    Evolves db [] (db.appendAudit row) :=
  evolves_same rfl rfl fun _ _ q hq _ => ⟨q, hq, rfl, rfl⟩

theorem evolves_insertOutbox (db : LedgerDb) (row : OutboxRow) :
    Evolves db [] (db.insertOutbox row) :=
  evolves_same rfl rfl fun _ _ q hq _ => ⟨q, hq, rfl, rfl⟩

theorem evolves_moveFiles (db : LedgerDb) (e i j : ℕ) : Evolves db [] (db.moveFiles e i j) :=
  evolves_same rfl rfl fun _ _ q hq _ => ⟨q, hq, rfl, rfl⟩

theorem evolves_insertPerson {db : LedgerDb} {q : Person} (h : db.persons.has q.id = false) :
    Evolves db [] (db.insertPerson q) :=
  evolves_same rfl rfl fun _ _ x hx _ => ⟨x, (Table.mem_insertNew h).mpr (.inl hx), rfl, rfl⟩

theorem evolves_setUserId (db : LedgerDb) (e i : ℕ) (userId : Option ℕ) :
    Evolves db [] (db.updatePerson e i (fun p => { p with userId }) fun _ => rfl) := by
  refine evolves_same rfl rfl fun _ _ q hq _ => ?_
  refine ⟨_, mem_updatePerson.mpr ⟨q, hq, rfl⟩, ?_⟩
  split_ifs <;> exact ⟨rfl, rfl⟩

/-- A person that no pledge names can go. -/
theorem evolves_deletePerson {db : LedgerDb} {e i : ℕ} (h : ∀ p ∈ db.pledges, p.personId ≠ i) :
    Evolves db [] (db.deletePerson e i) := by
  refine evolves_same rfl rfl fun p hp q hq hqi => ⟨q, Table.mem_delete.mpr ⟨hq, ?_⟩, rfl, rfl⟩
  have := h p hp
  simp [hqi, this]

/-- Pledges change hands within their event. -/
theorem evolves_movePledges {db : LedgerDb} {e i j : ℕ}
    (hq : ∃ q ∈ db.persons, q.id = j ∧ q.eventId = e) :
    Evolves db [] (db.movePledges e i j) := by
  intro hs
  obtain ⟨q, hqm, hqi, hqe⟩ := hq
  have hmem {p : Pledge} (hp : p ∈ (db.movePledges e i j).pledges) : ∃ r ∈ db.pledges,
      account db r = account db p ∧ r.status = p.status ∧ r.eventId = p.eventId ∧
        (p.personId = r.personId ∨ p.personId = j ∧ p.eventId = e) := by
    obtain ⟨r, hr, rfl⟩ := mem_movePledges.mp hp
    refine ⟨r, hr, ?_⟩
    split_ifs with hsel
    · exact ⟨rfl, rfl, rfl, .inr ⟨rfl, by simpa using (Bool.and_eq_true_iff.mp hsel).1⟩⟩
    · exact ⟨rfl, rfl, rfl, .inl rfl⟩
  have hbook : book (db.movePledges e i j) = book db := by
    funext k
    simp only [book, LedgerDb.movePledges, Table.get?_update, Option.map_map]
    congr 1
    funext r
    simp only [Function.comp_apply]
    split_ifs <;> rfl
  have hkeep : Retains db (db.movePledges e i j) := by
    intro p hp
    refine ⟨_, mem_movePledges.mpr ⟨p, hp, rfl⟩, ?_⟩
    split_ifs <;> exact ⟨rfl, rfl⟩
  refine ⟨⟨fun p hp => ?_, fun f hf => ?_, fun p hp => ?_⟩, hbook ▸ .nil _, hkeep⟩
  · obtain ⟨r, hr, hacc, hst, -⟩ := hmem hp
    rw [← hst, hs.status r hr, hacc]
    rfl
  · obtain ⟨p, hp, hpi, hpe⟩ := hs.owned f hf
    obtain ⟨p', hp', hi', he'⟩ := hkeep p hp
    exact ⟨p', hp', hi'.trans hpi, he'.trans hpe⟩
  · obtain ⟨r, hr, -, -, hre, hsame | ⟨hto, hpe⟩⟩ := hmem hp
    · obtain ⟨x, hx, hxi, hxe⟩ := hs.placed r hr
      exact ⟨x, hx, hxi.trans hsame.symm, hxe.trans hre⟩
    · exact ⟨q, hqm, hqi.trans hto.symm, hqe.trans hpe.symm⟩

end Akabbo.LedgerEffects
