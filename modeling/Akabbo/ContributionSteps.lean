import Akabbo.ExecutorSteps

/-!
# What a contribution writes

The four actions that record a pledge or a gift, as far as people, pledges and payments
go: whom they are for, and what they add for that person.
-/
namespace Akabbo.ContributionSteps
open Access PledgeStatus RowTable StatementProgram LedgerState LedgerWrites LedgerSpecs ServiceSteps
open ExecutorSteps WeakestPreconditions ToolExecutor
open StatementProgram.Program (query)

/-- The same pledge, whatever its status. -/
def SamePledge (p p' : Pledge) : Prop :=
  p'.id = p.id ∧ p'.personId = p.personId ∧ p'.committedValue = p.committedValue

theorem samePledge_trans {p p' p'' : Pledge} (h : SamePledge p p') (h' : SamePledge p' p'') :
    SamePledge p p'' := ⟨h'.1.trans h.1, h'.2.1.trans h.2.1, h'.2.2.trans h.2.2⟩

/-- What is added between two states: pledges and payments for one person, of these values. -/
structure Booked (v v' : LedgerDb) (i : ℕ) (pledged received : Option ℕ) : Prop where
  persons : v'.persons = v.persons
  kept : ∀ p ∈ v.pledges, ∃ p' ∈ v'.pledges, SamePledge p p'
  paid : ∀ f ∈ v.fulfillments, f ∈ v'.fulfillments
  pledge : ∀ p' ∈ v'.pledges, (∃ p ∈ v.pledges, SamePledge p p') ∨
    (v.pledges.has p'.id = false ∧ p'.personId = i ∧ some p'.committedValue = pledged)
  payment : ∀ f ∈ v'.fulfillments, f ∈ v.fulfillments ∨
    (v.fulfillments.has f.id = false ∧ some f.value = received ∧
      ∃ p ∈ v'.pledges, p.id = f.pledgeId ∧ p.personId = i)
  entered : (∃ p ∈ v'.pledges, v.pledges.has p.id = false) ∨
    ∃ f ∈ v'.fulfillments, v.fulfillments.has f.id = false

section booked
variable {ctx : OperationContext} {v v₁ v₂ : LedgerDb} {i j value : ℕ}

theorem fresh_of_kept {p : Pledge} (hkept : ∀ p ∈ v.pledges, ∃ p' ∈ v₁.pledges, SamePledge p p')
    (h : v₁.pledges.has p.id = false) : v.pledges.has p.id = false := by
  refine Table.has_eq_false_iff.mpr fun q hq hid => ?_
  obtain ⟨q', hq', hsame, -⟩ := hkept q hq
  exact Table.has_eq_false_iff.mp h q' hq' (hsame.trans hid)

theorem booked_trans {pledged received : Option ℕ} (h : Booked v v₁ i pledged received)
    (h' : Booked v₁ v₂ i pledged received) : Booked v v₂ i pledged received := by
  have hpaid {f : Fulfillment} (hf : v₁.fulfillments.has f.id = false) :
      v.fulfillments.has f.id = false :=
    Table.has_eq_false_iff.mpr fun g hg => Table.has_eq_false_iff.mp hf g (h.paid g hg)
  refine ⟨h'.persons.trans h.persons, fun p hp => ?_, fun f hf => h'.paid f (h.paid f hf),
    fun p hp => ?_, fun f hf => ?_, ?_⟩
  · obtain ⟨p₁, hp₁, hsame₁⟩ := h.kept p hp
    obtain ⟨p₂, hp₂, hsame₂⟩ := h'.kept p₁ hp₁
    exact ⟨p₂, hp₂, samePledge_trans hsame₁ hsame₂⟩
  · rcases h'.pledge p hp with ⟨p₁, hp₁, hsame₁⟩ | ⟨hnew, hperson, hvalue⟩
    · rcases h.pledge p₁ hp₁ with ⟨p₀, hp₀, hsame₀⟩ | ⟨hnew, hperson, hvalue⟩
      · exact .inl ⟨p₀, hp₀, samePledge_trans hsame₀ hsame₁⟩
      · obtain ⟨hid, hsame, hcommitted⟩ := hsame₁
        exact .inr ⟨hid ▸ hnew, hsame.trans hperson, hcommitted ▸ hvalue⟩
    · exact .inr ⟨fresh_of_kept h.kept hnew, hperson, hvalue⟩
  · rcases h'.payment f hf with hold | ⟨hnew, hvalue, howner⟩
    · rcases h.payment f hold with hold | ⟨hnew, hvalue, p, hp, hpf, hpi⟩
      · exact .inl hold
      · obtain ⟨p₂, hp₂, hid, hperson, -⟩ := h'.kept p hp
        exact .inr ⟨hnew, hvalue, p₂, hp₂, hid.trans hpf, hperson.trans hpi⟩
    · exact .inr ⟨hpaid hnew, hvalue, howner⟩
  · rcases h.entered with ⟨p, hp, hnew⟩ | ⟨f, hf, hnew⟩
    · obtain ⟨p₂, hp₂, hid, -⟩ := h'.kept p hp
      exact .inl ⟨p₂, hp₂, hid ▸ hnew⟩
    · exact .inr ⟨f, h'.paid f hf, hnew⟩

theorem booked_opened {action : String} {item : Option ℕ}
    (h : OpenedPledge ctx v action i item value j v₁) (received : Option ℕ) :
    Booked v v₁ i (some value) received := by
  obtain ⟨p, row, -, rfl, -, rfl, -, hlegal, -⟩ := h
  have hfresh := pledgeViolation_fresh hlegal
  have hmem {q : Pledge} : q ∈ (v.insertPledge p).pledges ↔ q ∈ v.pledges ∨ q = p :=
    Table.mem_insertNew hfresh
  refine ⟨rfl, fun q hq => ⟨q, hmem.mpr (.inl hq), rfl, rfl, rfl⟩, fun f hf => hf, fun q hq => ?_,
    fun f hf => .inl hf, .inl ⟨p, hmem.mpr (.inr rfl), hfresh⟩⟩
  rcases hmem.mp hq with hold | rfl
  · exact .inl ⟨q, hold, rfl, rfl, rfl⟩
  · exact .inr ⟨hfresh, rfl, rfl⟩

theorem booked_paid (h : PaidPledge ctx v j value v₁)
    (howner : ∃ p ∈ v.pledges, p.id = j ∧ p.personId = i) (pledged : Option ℕ) :
    Booked v v₁ i pledged (some value) := by
  obtain ⟨f, p, status, row, out, -, rfl, rfl, hfresh, -, -⟩ := h
  have hpledges {q : Pledge} : q ∈ (v.setPledgeStatus ctx.event.eventId f.pledgeId status).pledges ↔
      ∃ x ∈ v.pledges, q = if (x.eventId == ctx.event.eventId && x.id == f.pledgeId) = true then
        { x with status } else x := by
    simp only [LedgerDb.setPledgeStatus, LedgerDb.updatePledge, Table.mem_update]
  have hmem {g : Fulfillment} : g ∈ (v.insertFulfillment f).fulfillments ↔
      g ∈ v.fulfillments ∨ g = f := Table.mem_insertNew hfresh
  have hkept : ∀ x ∈ v.pledges, ∃ x' ∈ (v.setPledgeStatus ctx.event.eventId f.pledgeId
      status).pledges, SamePledge x x' := by
    intro x hx
    refine ⟨_, hpledges.mpr ⟨x, hx, rfl⟩, ?_⟩
    split_ifs <;> exact ⟨rfl, rfl, rfl⟩
  refine ⟨rfl, hkept, fun g hg => hmem.mpr (.inl hg), fun q hq => .inl ?_, fun g hg => ?_,
    .inr ⟨f, hmem.mpr (.inr rfl), hfresh⟩⟩
  · obtain ⟨x, hx, rfl⟩ := hpledges.mp hq
    refine ⟨x, hx, ?_⟩
    split_ifs <;> exact ⟨rfl, rfl, rfl⟩
  · rcases hmem.mp hg with hold | rfl
    · exact .inl hold
    · obtain ⟨x, hx, hxj, hxi⟩ := howner
      obtain ⟨x', hx', hid, hperson, -⟩ := hkept x hx
      exact .inr ⟨hfresh, rfl, x', hx', hid.trans hxj, hperson.trans hxi⟩

/-- A pledge and a payment on it. -/
theorem booked_opened_paid {action : String} {item : Option ℕ} {w : ℕ}
    (hopened : OpenedPledge ctx v action i item value j v₁) (hpaid : PaidPledge ctx v₁ j w v₂) :
    Booked v v₂ i (some value) (some w) := by
  refine booked_trans (booked_opened hopened (some w)) (booked_paid hpaid ?_ (some value))
  obtain ⟨p, row, -, rfl, -, -, -, hlegal, -⟩ := hopened
  exact ⟨p, (Table.mem_insertNew (pledgeViolation_fresh hlegal)).mpr (.inr rfl), rfl, rfl⟩

end booked

def isContribution : StoredAction → Bool
  | .recordPledge .. => true
  | .recordPledgeWithPayment .. => true
  | .recordPayment .. => true
  | .recordDirectContribution .. => true
  | _ => false

/-- The name that stands in the action. -/
def contributorName : StoredAction → String
  | .addPerson name _ _ => name
  | .recordPledge _ name .. => name
  | .recordPledgeWithPayment _ name .. => name
  | .recordPayment _ name _ => name
  | .recordDirectContribution _ name .. => name
  | _ => ""

def contributorPhone : StoredAction → Option String
  | .addPerson _ phone _ => phone
  | .recordPledge _ _ _ _ _ phone _ => phone
  | .recordPledgeWithPayment _ _ _ _ _ _ phone _ => phone
  | .recordDirectContribution _ _ _ phone _ _ _ => phone
  | _ => none

/-- What is pledged, and what is received with it. -/
def amounts : StoredAction → Option String × Option String
  | .recordPledge _ _ amount _ _ _ _ => (some amount, none)
  | .recordPledgeWithPayment _ _ amount receivedNow _ _ _ _ => (some amount, some receivedNow)
  | .recordPayment _ _ amount => (none, some amount)
  | .recordDirectContribution _ _ amount _ _ _ _ => (some amount, some amount)
  | _ => (none, none)

def pledgedValue (action : StoredAction) : Option ℕ := (amounts action).1.bind parseDigits

def receivedValue (action : StoredAction) : Option ℕ := (amounts action).2.bind parseDigits

/-- Whom the action is for, as the rows stand; nobody where a contributor has yet to be added. -/
def recipient (names : NameRules) (db : LedgerDb) (e : ℕ) : StoredAction → Option ℕ
  | .recordPledge personId name .. => targetOf names db e personId name
  | .recordPledgeWithPayment personId name .. => targetOf names db e personId name
  | .recordPayment pledgeId _ _ => (db.findPledge e pledgeId).map Pledge.personId
  | .recordDirectContribution personId name .. => targetOf names db e personId name
  | _ => none

/-- What such an action has done when it returns, where `added` is who is added if need be. -/
def ContributesAs (added : ℕ) (ctx : OperationContext) (names : NameRules) (action : StoredAction)
    (v v' : LedgerDb) : Prop :=
  (∃ i, recipient names v ctx.event.eventId action = some i ∧
    Booked v v' i (pledgedValue action) (receivedValue action)) ∨
  (recipient names v ctx.event.eventId action = none ∧ ∃ v₁,
    AddedPerson ctx v (contributorName action) (contributorPhone action) added v₁ ∧
    Booked v₁ v' added (pledgedValue action) (receivedValue action))

/-- What such an action has done when it returns. -/
def Contributes (ctx : OperationContext) (names : NameRules) (action : StoredAction)
    (v v' : LedgerDb) : Prop :=
  (∃ i, recipient names v ctx.event.eventId action = some i ∧
    Booked v v' i (pledgedValue action) (receivedValue action)) ∨
  (recipient names v ctx.event.eventId action = none ∧ ∃ i v₁,
    AddedPerson ctx v (contributorName action) (contributorPhone action) i v₁ ∧
    Booked v₁ v' i (pledgedValue action) (receivedValue action))

theorem contributes_of_as {added : ℕ} {ctx : OperationContext} {names : NameRules}
    {action : StoredAction} {v v' : LedgerDb} (h : ContributesAs added ctx names action v v') :
    Contributes ctx names action v v' := by
  rcases h with hknown | ⟨hnone, v₁, hadded, hbooked⟩
  · exact .inl hknown
  · exact .inr ⟨hnone, added, v₁, hadded, hbooked⟩

section actions
variable {I : LedgerDb → Prop} {v : LedgerDb} {ctx : OperationContext} {source : ProvenanceSource}
  {draw : ExecDraw}

theorem pledgeOf_resolved {e i j : ℕ} (h : pledgeOf v e i = .resolved j) :
    ∃ p ∈ v.pledges, p.id = j ∧ p.personId = i := by
  unfold pledgeOf at h
  split at h
  · cases h
  · next p hlive =>
    have hmem : p ∈ livePledges v e i := hlive ▸ List.mem_singleton_self p
    obtain ⟨hp, hsel⟩ := List.mem_filter.mp ((List.mem_insertionSort _).mp hmem)
    simp only [Bool.and_eq_true, beq_iff_eq] at hsel
    exact ⟨p, hp, PledgeResolution.resolved.inj h, hsel.1.2⟩
  · cases h

theorem wp_pay {i j amount : ℕ} {name : String} {pledged : Option ℕ}
    (howner : ∀ p, v.findPledge ctx.event.eventId j = some p → p.personId = i) :
    wp I (recordPayment ctx j name amount source draw)
      (fun _ v' => Booked v v' i pledged (some amount)) v := by
  refine wp_bind <| wp_recordFulfillment (fun hkey => absurd rfl hkey) fun _ v' hpaid => wp_pure ?_
  refine booked_paid hpaid ?_ pledged
  cases hpaid with
  | mk f p status row out hevent hpledge hreceived hfresh hfound haudit =>
    obtain ⟨hp, -, hpj⟩ := findPledge_mem hfound
    exact ⟨p, hp, hpj, howner p hfound⟩

theorem wp_give {i amount : ℕ} {name : String} {phone : Option String} {type : Option PledgeType}
    {description : Option String} {line : Option ℕ} :
    wp I (giveAs ctx i name amount source phone type description line draw)
      (fun _ v' => Booked v v' i (some amount) (some amount)) v := by
  refine wp_bind <| wp_recordDirectContribution (fun hkey => absurd rfl hkey) ?_
  intro _ j v₁ k v₂ v₃ hcontributed hopened hpaid
  cases hcontributed
  exact wp_pure (booked_opened_paid hopened hpaid)

theorem wp_payOrGive {i amount : ℕ} {name : String} {phone : Option String} {type : Option PledgeType}
    {description : Option String} {line : Option ℕ} :
    wp I (do
      let pledge ← resolvePledgeForPerson ctx.event.eventId i
      match pledge with
      | .resolved pledgeId => recordPayment ctx pledgeId name amount source draw
      | _ => giveAs ctx i name amount source phone type description line draw)
      (fun _ v' => Booked v v' i (some amount) (some amount)) v := by
  refine wp_query_bind ?_
  split
  · next j hresolved =>
    obtain ⟨p, hp, rfl, hpi⟩ := pledgeOf_resolved hresolved
    refine wp_pay fun q hq => ?_
    obtain ⟨hq, -, hqp⟩ := findPledge_mem hq
    rw [Table.key_inj (t := v.pledges) hq hp hqp, hpi]
  · exact wp_give

variable (names : NameRules)

/-- A contribution that returns has added its pledge and its payment for whom it is for, or for
a contributor of that name who is new. -/
theorem wp_contribution {action : StoredAction} (hc : isContribution action = true)
    (hI : recipient names v ctx.event.eventId action = none →
      ∀ v', AddedPerson ctx v (contributorName action) (contributorPhone action)
        draw.ledger.personId v' → I v') :
    wp I (ToolExecutor.run ctx names action source draw)
      (fun _ v' => ContributesAs draw.ledger.personId ctx names action v v') v := by
  cases action with
  | recordPledge personId name amount type description phone line =>
    refine wp_bigInt_bind fun value hvalue => ?_
    have hpledged : pledgedValue (.recordPledge personId name amount type description phone line) =
        some value := hvalue
    refine wp_targetPerson_bind (fun i hi => ?_) fun _ hnone v₁ hadded => ⟨hI hnone v₁ hadded, ?_⟩
    · exact wp_bind <| wp_createPledge fun _ v' _ _ _ hopened =>
        wp_pure (.inl ⟨i, hi, hpledged ▸ booked_opened hopened none⟩)
    · exact wp_bind <| wp_createPledge fun _ v' _ _ _ hopened =>
        wp_pure (.inr ⟨hnone, v₁, hadded, hpledged ▸ booked_opened hopened none⟩)
  | recordPledgeWithPayment personId name amount receivedNow type description phone line =>
    refine wp_bigInt_bind fun committed hcommitted => wp_bigInt_bind fun received hreceived => ?_
    have hpledged : pledgedValue (.recordPledgeWithPayment personId name amount receivedNow type
        description phone line) = some committed := hcommitted
    have hpaid : receivedValue (.recordPledgeWithPayment personId name amount receivedNow type
        description phone line) = some received := hreceived
    have hbooked (i : ℕ) (w : LedgerDb) : wp I (LedgerWrites.recordPledgeWithPayment ctx
        { personId := i
          committedValue := committed
          receivedNow := some received
          type
          description
          targetBudgetItemId := line
          source := some source } draw.ledger)
        (fun _ v' => Booked w v' i (some committed) (some received)) w :=
      wp_recordPledgeWithPayment (fun _ _ _ _ _ hopened => booked_opened hopened _)
        fun _ _ _ _ _ _ hopened hpaid => booked_opened_paid hopened hpaid
    refine wp_targetPerson_bind (fun i hi => ?_) fun _ hnone v₁ hadded => ⟨hI hnone v₁ hadded, ?_⟩
    · refine wp_bind <| wp_mono (hbooked i v) fun _ v' h => wp_pure (.inl ⟨i, hi, ?_⟩)
      rw [hpledged, hpaid]
      exact h
    · refine wp_bind <| wp_mono (hbooked _ v₁) fun _ v' h => wp_pure (.inr ⟨hnone, v₁, hadded, ?_⟩)
      rw [hpledged, hpaid]
      exact h
  | recordPayment j name amount =>
    refine wp_bigInt_bind fun value hvalue => ?_
    have hpaid : receivedValue (.recordPayment j name amount) = some value := hvalue
    cases hp : v.findPledge ctx.event.eventId j with
    | none =>
      refine wp_bind <| wp_recordFulfillment (fun hkey => absurd rfl hkey) fun _ v' hstep => ?_
      cases hstep with
      | mk f p status row out hevent hpledge hreceived hfresh hfound haudit =>
        exact absurd (hp.symm.trans hfound) (by simp)
    | some p =>
      have howner : recipient names v ctx.event.eventId (.recordPayment j name amount) =
          some p.personId := congrArg (Option.map Pledge.personId) hp
      refine wp_mono (wp_pay (i := p.personId) (fun q hq => ?_)) fun _ v' h =>
        .inl ⟨p.personId, howner, hpaid ▸ h⟩
      rw [Option.some.inj (hp.symm.trans hq)]
  | recordDirectContribution personId name amount phone type description line =>
    refine wp_bigInt_bind fun value hvalue => ?_
    have hpledged : pledgedValue (.recordDirectContribution personId name amount phone type
        description line) = some value := hvalue
    have hpaid : receivedValue (.recordDirectContribution personId name amount phone type
        description line) = some value := hvalue
    cases personId with
    | some i =>
      refine wp_mono wp_give fun _ v' h => .inl ⟨i, rfl, ?_⟩
      rw [hpledged, hpaid]
      exact h
    | none =>
      change wp _ (targetPerson ctx names none name source phone draw >>= _) _ _
      refine wp_targetPerson_bind (fun i hi => ?_) fun _ hnone v₁ hadded => ⟨hI hnone v₁ hadded, ?_⟩
      · refine wp_mono wp_payOrGive fun _ v' h => .inl ⟨i, hi, ?_⟩
        rw [hpledged, hpaid]
        exact h
      · refine wp_mono wp_payOrGive fun _ v' h => .inr ⟨hnone, v₁, hadded, ?_⟩
        rw [hpledged, hpaid]
        exact h
  | _ => cases hc

end actions
end Akabbo.ContributionSteps
