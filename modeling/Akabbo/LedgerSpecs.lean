import Akabbo.LedgerEffects

/-!
# What a call that succeeds has done

One lemma for each statement and each service: when a call returns, which checks it
passed and which entries it made in the book.
-/
namespace Akabbo.LedgerSpecs
open Access PledgeStatus RowTable StatementProgram LedgerState LedgerWrites PledgeBook LedgerEffects
open StatementProgram.Program

section statements
variable {ctx : OperationContext} {c v c' v' : LedgerDb} {α β : Type} {x : β × LedgerDb × LedgerDb}
  {k : α → LedgerProgram β} {next : Unit → LedgerProgram β}

theorem exec_gates_bind {action : Action} :
    (gates ctx action >>= next).exec c v = .ok x ↔
      assertPermission ctx.event.role action = none ∧
      assertEventWritable ctx.event.status = none ∧ (next ()).exec c v = .ok x := by
  simp only [gates, bind_assoc, exec_refuse_bind]

theorem exec_writeAudit_bind (action resourceType : String) (resourceId : ℕ)
    (source : ProvenanceSource) (oldValue newValue : Option (List (String × Json))) :
    (writeAudit ctx action resourceType resourceId source oldValue newValue >>= next).exec c v =
      (next ()).exec c (v.appendAudit ⟨ctx.event.eventId, some ctx.actor.userId, action,
        resourceType, resourceId, source, oldValue, newValue⟩) := rfl

theorem exec_enqueue_bind {row : OutboxRow} :
    (enqueue row >>= next).exec c v = .ok x ↔
      v.outbox.has row.idempotencyKey = false ∧
      (next ()).exec c (v.insertOutbox row) = .ok x := by
  simp [enqueue, exec_accepted_bind]

theorem exec_insertPerson_bind {q : Person} :
    (insertPerson q >>= next).exec c v = .ok x ↔
      v.persons.has q.id = false ∧ (next ()).exec c (v.insertPerson q) = .ok x := by
  simp [insertPerson, exec_accepted_bind]

theorem exec_insertPledge_bind {p : Pledge} :
    (insertPledge p >>= next).exec c v = .ok x ↔
      pledgeViolation v p = none ∧ (next ()).exec c (v.insertPledge p) = .ok x :=
  exec_accepted_bind

theorem exec_insertFulfillment_bind {f : Fulfillment} :
    (insertFulfillment f >>= next).exec c v = .ok x ↔
      fulfillmentViolation v f = none ∧ (next ()).exec c (v.insertFulfillment f) = .ok x :=
  exec_accepted_bind

theorem exec_updatePledge_bind {e i : ℕ} {f : Pledge → Pledge} {hf : ∀ p, (f p).id = p.id}
    {k : Pledge → LedgerProgram β} :
    (updatePledge e i f hf >>= k).exec c v = .ok x ↔
      ∃ p, v.findPledge e i = some p ∧ (k (f p)).exec c (v.updatePledge e i f hf) = .ok x := by
  rw [updatePledge, exec_modifyChecked_bind]
  cases v.findPledge e i <;> simp

theorem exec_setStatus_bind {e i : ℕ} {s : Status} {k : Pledge → LedgerProgram β} :
    (setStatus e i s >>= k).exec c v = .ok x ↔
      ∃ p, v.findPledge e i = some p ∧
        (k { p with status := s }).exec c (v.setPledgeStatus e i s) = .ok x :=
  exec_updatePledge_bind

theorem exec_updateFulfillmentValue_bind {e i value : ℕ} {k : Fulfillment → LedgerProgram β} :
    (updateFulfillmentValue e i value >>= k).exec c v = .ok x ↔
      ∃ f, v.findFulfillment e i = some f ∧
        (k { f with value }).exec c (v.setFulfillmentValue e i value) = .ok x := by
  rw [updateFulfillmentValue, exec_modifyChecked_bind]
  cases v.findFulfillment e i <;> simp

/-- Nobody comes or goes when an account link changes. -/
theorem exec_runIf_setUserId {b : Bool} {e i : ℕ} {userId : Option ℕ} {r : Unit}
    (h : (runIf b (setUserId e i userId)).exec c v = .ok (r, c', v')) :
    c = c' ∧ Evolves v [] v' ∧ ∀ j d, (∃ q ∈ v.persons, q.id = j ∧ q.eventId = d) →
      ∃ q ∈ v'.persons, q.id = j ∧ q.eventId = d := by
  obtain ⟨-, h⟩ | ⟨-, rfl, rfl⟩ := exec_runIf.mp h
  · rw [setUserId, exec_modifyChecked] at h
    split at h
    · simp only [Except.ok.injEq, Prod.mk.injEq] at h
      obtain ⟨-, rfl, rfl⟩ := h
      refine ⟨rfl, evolves_setUserId v e i userId, ?_⟩
      rintro j d ⟨q, hq, hqj, hqd⟩
      refine ⟨_, mem_updatePerson.mpr ⟨q, hq, rfl⟩, ?_⟩
      split_ifs <;> exact ⟨hqj, hqd⟩
    · simp at h
  · exact ⟨rfl, evolves_refl v, fun _ _ => id⟩

theorem exec_movePledges_bind {e i j : ℕ} {k : ℕ → LedgerProgram β} :
    (movePledges e i j >>= k).exec c v = .ok x ↔
      (k (v.pledges.rows.filter fun p => p.eventId == e && p.personId == i).length).exec c
        (v.movePledges e i j) = .ok x := by
  simp [movePledges, exec_modifyChecked_bind]

theorem exec_moveFiles_bind (e i j : ℕ) :
    (moveFiles e i j >>= next).exec c v = (next ()).exec c (v.moveFiles e i j) := rfl

theorem exec_deletePerson_bind {e i : ℕ} :
    (deletePerson e i >>= next).exec c v = .ok x ↔
      (v.findPerson e i).isSome = true ∧ (∀ p ∈ v.pledges, p.personId ≠ i) ∧
        (next ()).exec c (v.deletePerson e i) = .ok x := by
  rw [deletePerson, exec_accepted_bind]
  split_ifs with hnone href
  · simp [Option.isNone_iff_eq_none.mp hnone]
  · simp only [false_and, false_iff, not_and]
    obtain ⟨p, hp, hpi⟩ := List.any_eq_true.mp href
    exact fun _ h => absurd (by simpa using hpi) (h p hp)
  · simp only [true_and]
    have hsome : (v.findPerson e i).isSome = true := by
      simpa [Option.isSome_iff_ne_none] using hnone
    have hrows : ∀ p ∈ v.pledges, p.personId ≠ i := fun p hp hpi =>
      href (List.any_eq_true.mpr ⟨p, hp, by simpa using hpi⟩)
    exact ⟨fun h => ⟨hsome, hrows, h⟩, fun h => h.2.2⟩

theorem exec_requirePerson_bind {i : ℕ} {k : Person → LedgerProgram β} :
    (requirePerson ctx i >>= k).exec c v = .ok x ↔
      ∃ q, v.findPerson ctx.event.eventId i = some q ∧ (k q).exec c v = .ok x := by
  simp only [requirePerson, bind_assoc, exec_query_bind, exec_orThrow_bind]

theorem pledgeViolation_fresh {p : Pledge} (h : pledgeViolation v p = none) :
    v.pledges.has p.id = false := by
  unfold pledgeViolation at h
  split_ifs at h with hp
  simpa using hp

theorem fulfillmentViolation_fresh {f : Fulfillment} (h : fulfillmentViolation v f = none) :
    v.fulfillments.has f.id = false := by
  unfold fulfillmentViolation at h
  split_ifs at h with hp
  simpa using hp

theorem oldest_eq_none {rows : List Person} : oldest rows = none ↔ rows = [] :=
  foldl_eq_none fun best p => by
    cases best with
    | none => simp
    | some b => dsimp only; split_ifs <;> simp

theorem newest_eq_none {rows : List Fulfillment} : newest rows = none ↔ rows = [] :=
  foldl_eq_none fun best f => by
    cases best with
    | none => simp
    | some b => dsimp only; split_ifs <;> simp

theorem exec_assertPhone {phone : String} {confirmed : Bool} {r : Unit}
    (h : (assertPhoneNotAttachedElsewhere ctx phone confirmed).exec c v = .ok (r, c', v')) :
    c = c' ∧ v = v' := by
  rw [assertPhoneNotAttachedElsewhere, exec_runIf] at h
  obtain ⟨-, h⟩ | ⟨-, h⟩ := h
  · rw [exec_query_bind, exec_refuse] at h
    exact h.2
  · exact h

theorem exec_assertNotDuplicate {i value now : ℕ} {r : Unit}
    (h : (assertNotDuplicate ctx i value now).exec c v = .ok (r, c', v')) : c = c' ∧ v = v' := by
  rw [assertNotDuplicate, exec_query_bind, exec_refuse] at h
  exact h.2

theorem exec_assertWithinCommitted {i committed value : ℕ} {excluded : Option ℕ} {r : Unit} :
    (assertWithinCommitted ctx i committed value excluded).exec c v = .ok (r, c', v') ↔
      existingSum v ctx.event.eventId i excluded + value ≤ committed ∧ c = c' ∧ v = v' := by
  simp only [assertWithinCommitted, exec_query_bind]
  split_ifs with hw
  · simp only [exec_throw, reduceCtorEq, false_iff]
    omega
  · rw [exec_pure_eq_ok]
    exact ⟨fun h => ⟨by omega, h.2⟩, fun h => ⟨rfl, h.2⟩⟩

end statements

section services
variable {ctx : OperationContext} {draw : Draw} {c v c' v' : LedgerDb}

theorem exec_createPerson {ent : EntitlementDecision} {input : CreatePersonInput}
    {r : PersonView} (h : (createPerson ctx ent input draw).exec c v = .ok (r, c', v')) :
    c = c' ∧ Evolves v [] v' := by
  simp only [createPerson, exec_gates_bind, exec_refuse_bind] at h
  obtain ⟨-, -, -, h⟩ := h
  rw [exec_bind_of_reads fun _ _ _ hr => (exec_runIf.mp hr).elim (fun hr => exec_assertPhone hr.2)
    And.right] at h
  obtain ⟨-, -, h⟩ := h
  rw [exec_insertPerson_bind, exec_writeAudit_bind, exec_pure_eq_ok] at h
  obtain ⟨hfresh, -, rfl, rfl⟩ := h
  exact ⟨rfl, evolves_trans (evolves_insertPerson hfresh) fun _ => evolves_appendAudit _ _⟩

theorem exec_createPledge {input : CreatePledgeInput} {r : PledgeView}
    (h : (createPledge ctx input draw).exec c v = .ok (r, c', v')) :
    c = c' ∧ Evolves v [.opened draw.pledgeId input.committedValue] v' := by
  simp only [createPledge, exec_gates_bind, exec_refuse_bind, exec_requirePerson_bind,
    exec_insertPledge_bind, exec_writeAudit_bind, exec_pure_eq_ok] at h
  obtain ⟨-, -, -, q, hq, hviol, -, rfl, rfl⟩ := h
  obtain ⟨hqm, hqe, hqi⟩ := findPerson_mem hq
  exact ⟨rfl, evolves_trans (evolves_insertPledge (pledgeViolation_fresh hviol) rfl
    ⟨q, hqm, hqi, hqe⟩) fun _ => evolves_appendAudit _ _⟩

/-- A replay reads and writes nothing. -/
theorem exec_findByIdempotencyKey {key : Option String} {r : Option FulfillmentView}
    (h : (findByIdempotencyKey ctx key).exec c v = .ok (r, c', v')) : c = c' ∧ v = v' := by
  unfold findByIdempotencyKey at h
  split at h
  · exact (exec_pure_eq_ok.mp h).2
  · split_ifs at h
    · exact (exec_pure_eq_ok.mp h).2
    · rw [exec_query_bind] at h
      split at h
      · exact (exec_pure_eq_ok.mp h).2
      · simp only [exec_query_bind, exec_orThrow_bind, exec_pure_eq_ok] at h
        obtain ⟨_, -, -, h⟩ := h
        exact h

/-- The shared write path; on a live pledge that the payment fits, it is one entry. -/
theorem exec_writeFulfillment {input : WriteFulfillmentInput} {r : FulfillmentView}
    (h : (writeFulfillment ctx input draw).exec c v = .ok (r, c', v')) :
    c = c' ∧ ∀ p, v.findPledge ctx.event.eventId input.pledgeId = some p →
      p.committedValue = input.committedValue → p.status ≠ .cancelled →
      v.sumFulfillments ctx.event.eventId input.pledgeId + input.value ≤ p.committedValue →
      Evolves v [.received input.pledgeId input.value] v' := by
  simp only [writeFulfillment, exec_insertFulfillment_bind, exec_query_bind, exec_setStatus_bind,
    exec_writeAudit_bind, exec_enqueue_bind, exec_pure_eq_ok] at h
  obtain ⟨hviol, -, -, -, -, rfl, rfl⟩ := h
  refine ⟨rfl, fun p hp hcommitted hlive hw => ?_⟩
  rw [← hcommitted]
  have hpay := evolves_pay (f := newFulfillment ctx input draw)
    (fulfillmentViolation_fresh hviol) hp hlive hw
  exact evolves_trans hpay fun _ =>
    evolves_trans (evolves_appendAudit _ _) fun _ => evolves_insertOutbox _ _

theorem exec_payPledge {input : RecordFulfillmentInput} {r : FulfillmentView}
    (h : (payPledge ctx input draw).exec c v = .ok (r, c', v')) :
    c = c' ∧ Evolves v [.received input.pledgeId input.value] v' := by
  simp only [payPledge, exec_query_bind, exec_orThrow_bind, exec_refuse_bind] at h
  obtain ⟨p, hp, hlive, h⟩ := h
  rw [exec_bind_of_reads fun _ _ _ hr => (exec_runIf.mp hr).elim
    (fun hr => exec_assertNotDuplicate hr.2) And.right] at h
  obtain ⟨-, -, h⟩ := h
  rw [exec_bind_of_reads fun _ _ _ hr => (exec_assertWithinCommitted.mp hr).2] at h
  obtain ⟨_, hw, h⟩ := h
  obtain ⟨rfl, hpay⟩ := exec_writeFulfillment h
  exact ⟨rfl, hpay p hp rfl (by simpa using hlive) (exec_assertWithinCommitted.mp hw).1⟩

theorem exec_recordFulfillment {input : RecordFulfillmentInput} {r : FulfillmentView}
    (h : (recordFulfillment ctx input draw).exec c v = .ok (r, c', v')) :
    c = c' ∧ (v = v' ∨ Evolves v [.received input.pledgeId input.value] v') := by
  simp only [recordFulfillment, exec_gates_bind, exec_refuse_bind] at h
  obtain ⟨-, -, -, h⟩ := h
  rw [exec_bind_of_reads fun _ _ _ hr => exec_findByIdempotencyKey hr] at h
  obtain ⟨replay, -, h⟩ := h
  cases replay with
  | some view =>
    obtain ⟨-, hc, hv⟩ := exec_pure_eq_ok.mp h
    exact ⟨hc, .inl hv⟩
  | none =>
    obtain ⟨hc, hv⟩ := exec_payPledge h
    exact ⟨hc, .inr hv⟩

/-- The contributor of a direct gift is a person of the event afterwards. -/
theorem exec_directContributor {input : RecordDirectContributionInput} {i : ℕ}
    (h : (directContributor ctx input draw).exec c v = .ok (i, c', v')) :
    c = c' ∧ Evolves v [] v' ∧
      ∃ q ∈ v'.persons, q.id = i ∧ q.eventId = ctx.event.eventId := by
  unfold directContributor at h
  split at h
  · simp only [exec_requirePerson_bind, exec_pure_eq_ok] at h
    obtain ⟨q, hq, rfl, rfl, rfl⟩ := h
    obtain ⟨hqm, hqe, hqi⟩ := findPerson_mem hq
    exact ⟨rfl, evolves_refl v, q, hqm, hqi, hqe⟩
  · split at h
    · simp at h
    · split_ifs at h
      · simp at h
      · simp only [exec_insertPerson_bind, exec_writeAudit_bind, exec_pure_eq_ok] at h
        obtain ⟨hfresh, rfl, rfl, rfl⟩ := h
        refine ⟨rfl, evolves_trans (evolves_insertPerson hfresh) fun _ =>
          evolves_appendAudit _ _, ?_⟩
        exact ⟨_, (Table.mem_insertNew hfresh).mpr (.inr rfl), rfl, rfl⟩

/-- A payment on a pledge opened in the same transaction. -/
theorem exec_payNewPledge {input : WriteFulfillmentInput} {r : FulfillmentView} {p : Pledge}
    {row : AuditEvent} (hviol : pledgeViolation v p = none) (hstatus : p.status = .pledged)
    (hevent : p.eventId = ctx.event.eventId)
    (hperson : ∃ q ∈ v.persons, q.id = p.personId ∧ q.eventId = p.eventId)
    (hpledge : input.pledgeId = p.id) (hcommitted : p.committedValue = input.committedValue)
    (hw : input.value ≤ input.committedValue)
    (h : (writeFulfillment ctx input draw).exec c ((v.insertPledge p).appendAudit row) =
      .ok (r, c', v')) :
    c = c' ∧
      Evolves v [.opened p.id p.committedValue, .received p.id input.value] v' := by
  have hfresh := pledgeViolation_fresh hviol
  have hopen : Evolves v [.opened p.id p.committedValue] ((v.insertPledge p).appendAudit row) :=
    evolves_trans (evolves_insertPledge hfresh hstatus hperson) fun _ => evolves_appendAudit _ _
  have hp : ((v.insertPledge p).appendAudit row).findPledge ctx.event.eventId input.pledgeId =
      some p := by
    rw [hpledge, ← hevent]
    exact findPledge_of_mem ((Table.mem_insertNew hfresh).mpr (.inr rfl))
  obtain ⟨rfl, hpay⟩ := exec_writeFulfillment h
  refine ⟨rfl, fun hs => ?_⟩
  -- no payment names a pledge that did not exist
  have hzero : v.sumFulfillments ctx.event.eventId p.id = 0 := by
    refine sumWhere_eq_zero fun f hf hsel => ?_
    obtain ⟨q, hq, hqi, -⟩ := hs.owned f hf
    simp only [Bool.and_eq_true, beq_iff_eq] at hsel
    exact absurd (hqi.trans hsel.2) (Table.has_eq_false_iff.mp hfresh q hq)
  have hfits : ((v.insertPledge p).appendAudit row).sumFulfillments ctx.event.eventId
      input.pledgeId + input.value ≤ p.committedValue := by
    rw [hpledge, show ((v.insertPledge p).appendAudit row).sumFulfillments ctx.event.eventId p.id =
      v.sumFulfillments ctx.event.eventId p.id from rfl, hzero, hcommitted, Nat.zero_add]
    exact hw
  have hnext := hpay p hp hcommitted (by simp [hstatus]) hfits
  rw [hpledge] at hnext
  exact evolves_trans hopen (fun _ => hnext) hs

theorem exec_giveDirectly {input : RecordDirectContributionInput} {r : FulfillmentView}
    (h : (giveDirectly ctx input draw).exec c v = .ok (r, c', v')) :
    c = c' ∧ Evolves v [.opened draw.pledgeId input.value, .received draw.pledgeId input.value]
      v' := by
  rw [giveDirectly, exec_bind_eq_ok] at h
  obtain ⟨i, c₁, v₁, hperson, h⟩ := h
  simp only [exec_insertPledge_bind, exec_writeAudit_bind] at h
  obtain ⟨hviol, h⟩ := h
  obtain ⟨rfl, hev, q, hq, hqi, hqe⟩ := exec_directContributor hperson
  obtain ⟨rfl, hpay⟩ := exec_payNewPledge hviol rfl rfl ⟨q, hq, hqi, hqe⟩ rfl rfl le_rfl h
  exact ⟨rfl, evolves_trans hev fun _ => hpay⟩

theorem exec_recordDirectContribution {input : RecordDirectContributionInput}
    {r : FulfillmentView}
    (h : (recordDirectContribution ctx input draw).exec c v = .ok (r, c', v')) :
    c = c' ∧ (v = v' ∨ Evolves v
      [.opened draw.pledgeId input.value, .received draw.pledgeId input.value] v') := by
  simp only [recordDirectContribution, exec_gates_bind, exec_refuse_bind] at h
  obtain ⟨-, -, -, h⟩ := h
  rw [exec_bind_of_reads fun _ _ _ hr => exec_findByIdempotencyKey hr] at h
  obtain ⟨replay, -, h⟩ := h
  cases replay with
  | some view =>
    obtain ⟨-, hc, hv⟩ := exec_pure_eq_ok.mp h
    exact ⟨hc, .inl hv⟩
  | none =>
    obtain ⟨hc, hv⟩ := exec_giveDirectly h
    exact ⟨hc, .inr hv⟩

theorem exec_recordPledgeWithPayment {input : RecordPledgeWithPaymentInput}
    {r : FulfillmentView}
    (h : (recordPledgeWithPayment ctx input draw).exec c v = .ok (r, c', v')) :
    c = c' ∧ ∃ es, Evolves v es v' ∧ ∀ i value, Entry.recommitted i value ∉ es := by
  simp only [recordPledgeWithPayment, exec_gates_bind, exec_refuse_bind, exec_requirePerson_bind,
    exec_insertPledge_bind, exec_writeAudit_bind] at h
  obtain ⟨-, -, -, q, hq, hw, hviol, h⟩ := h
  obtain ⟨hqm, hqe, hqi⟩ := findPerson_mem hq
  have hperson : ∃ q ∈ v.persons, q.id = input.personId ∧ q.eventId = ctx.event.eventId :=
    ⟨q, hqm, hqi, hqe⟩
  split_ifs at h with hnone
  · obtain ⟨-, rfl, rfl⟩ := exec_pure_eq_ok.mp h
    exact ⟨rfl, _, evolves_trans (evolves_insertPledge (pledgeViolation_fresh hviol) rfl hperson)
      fun _ => evolves_appendAudit _ _, by simp⟩
  · have hle : input.receivedNow.getD 0 ≤ input.committedValue := by
      by_contra hgt
      simp [show input.receivedNow.getD 0 > input.committedValue by omega] at hw
    obtain ⟨rfl, hpay⟩ := exec_payNewPledge hviol rfl rfl hperson rfl rfl hle h
    exact ⟨rfl, _, hpay, by simp⟩

theorem exec_correctCommittedValue {i value : ℕ} {r : PledgeView}
    (h : (correctCommittedValue ctx i value).exec c v = .ok (r, c', v')) :
    c = c' ∧ Evolves v [.recommitted i value] v' := by
  simp only [correctCommittedValue, exec_gates_bind, exec_query_bind, exec_orThrow_bind,
    exec_updatePledge_bind, exec_writeAudit_bind, exec_pure_eq_ok] at h
  obtain ⟨-, -, p, hp, -, -, -, rfl, rfl⟩ := h
  exact ⟨rfl, evolves_trans (evolves_recommit hp rfl) fun _ => evolves_appendAudit _ _⟩

theorem exec_correctValue {i value : ℕ} {r : FulfillmentView}
    (h : (correctValue ctx i value).exec c v = .ok (r, c', v')) :
    c = c' ∧ ∃ f, v.findFulfillment ctx.event.eventId i = some f ∧
      Evolves v [.revised f.pledgeId f.value value] v' := by
  simp only [correctValue, exec_gates_bind, exec_query_bind, exec_orThrow_bind] at h
  obtain ⟨-, -, f, hf, h⟩ := h
  obtain ⟨-, -, rfl⟩ := findFulfillment_mem hf
  rw [exec_bind_eq_ok] at h
  obtain ⟨_, c₁, v₁, hfits, h⟩ := h
  simp only [exec_updateFulfillmentValue_bind, exec_query_bind, exec_setStatus_bind,
    exec_writeAudit_bind, exec_pure_eq_ok] at h
  obtain ⟨-, -, p, hp, -, rfl, rfl⟩ := h
  cases hbefore : v.findPledge ctx.event.eventId f.pledgeId with
  | none =>
    rw [hbefore] at hfits
    obtain ⟨-, rfl, rfl⟩ := exec_pure_eq_ok.mp hfits
    have hp' : v.findPledge ctx.event.eventId f.pledgeId = some p := hp
    simp [hbefore] at hp'
  | some p' =>
    rw [hbefore] at hfits
    obtain ⟨hw, rfl, rfl⟩ := exec_assertWithinCommitted.mp hfits
    have hsame : (v.setFulfillmentValue ctx.event.eventId f.id value).findPledge
        ctx.event.eventId f.pledgeId = some p' := hbefore
    rw [hsame]
    exact ⟨rfl, f, hf, evolves_trans (evolves_revise hf hbefore hw rfl) fun _ =>
      evolves_appendAudit _ _⟩

theorem exec_cancelPledge {i : ℕ} {r : PledgeView}
    (h : (cancelPledge ctx i).exec c v = .ok (r, c', v')) :
    c = c' ∧ Evolves v [.cancelled i] v' := by
  simp only [cancelPledge, exec_gates_bind, exec_query_bind, exec_orThrow_bind,
    exec_setStatus_bind, exec_writeAudit_bind, exec_pure_eq_ok] at h
  obtain ⟨-, -, p, hp, -, -, -, rfl, rfl⟩ := h
  exact ⟨rfl, evolves_trans (evolves_cancel hp) fun _ => evolves_appendAudit _ _⟩

theorem exec_mergePeople {i j : ℕ} {r : MergeResult}
    (h : (mergePeople ctx i j).exec c v = .ok (r, c', v')) : c = c' ∧ Evolves v [] v' := by
  simp only [mergePeople, exec_gates_bind, exec_query_bind, exec_orThrow_bind,
    exec_refuse_bind] at h
  obtain ⟨-, -, -, source, -, target, htarget, -, h⟩ := h
  rw [exec_bind_eq_ok] at h
  obtain ⟨_, c₁, v₁, hfree, h⟩ := h
  rw [exec_movePledges_bind, exec_moveFiles_bind, exec_bind_eq_ok] at h
  obtain ⟨_, c₂, v₂, hinherit, h⟩ := h
  rw [exec_writeAudit_bind, exec_deletePerson_bind, exec_pure_eq_ok] at h
  obtain ⟨-, hnone, -, rfl, rfl⟩ := h
  obtain ⟨htm, hte, hti⟩ := findPerson_mem htarget
  obtain ⟨rfl, hev₁, hstay⟩ := exec_runIf_setUserId hfree
  obtain ⟨rfl, hev₂, -⟩ := exec_runIf_setUserId hinherit
  have hmove := evolves_movePledges (i := i) (hstay j _ ⟨target, htm, hti, hte⟩)
  refine ⟨rfl, ?_⟩
  exact evolves_trans hev₁ fun _ => evolves_trans hmove fun _ =>
    evolves_trans (evolves_moveFiles _ _ _ _) fun _ => evolves_trans hev₂ fun _ =>
      evolves_trans (evolves_appendAudit _ _) fun _ => evolves_deletePerson hnone

end services

end Akabbo.LedgerSpecs
