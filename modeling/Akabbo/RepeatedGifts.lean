import Akabbo.GiftSteps

/-!
# Gifts that add up

Payments of one contributor without a pledge, proposed one by one and confirmed in any order.
When all of them go through, and what the contributor's total has grown by then.
-/
namespace Akabbo.RepeatedGifts
open Access PledgeStatus RowTable StatementProgram CompletedCalls WeakestPreconditions LedgerState
open LedgerWrites hiding Invocation
open LedgerSpecs ServiceSteps ToolExecutor Confirmations ConfirmationOutcomes LedgerReads GiftSteps
open CaptureRouting CaptureSteps
open StatementProgram.Program (query refuse)

section gave
variable {v v' : LedgerDb} {e i value : ℕ} {draw other : Draw}

theorem references_gave (h : Gave e i value draw v v') (href : References v)
    (hperson : v.persons.has i = true) : References v' := by
  obtain ⟨p, hpledges, hp, -, hpi, -⟩ := h.pledge
  obtain ⟨f, hpayments, -, -, hfp, -⟩ := h.payment
  constructor
  · intro q hq
    rw [h.persons]
    rw [Table.mem_def, hpledges, List.mem_append, List.mem_singleton] at hq
    rcases hq with hq | rfl
    · exact href.pledge q hq
    · exact hpi ▸ hperson
  · intro g hg
    rw [Table.mem_def, hpayments, List.mem_append, List.mem_singleton] at hg
    rcases hg with hg | rfl
    · exact (Table.has_append hpledges).mpr (.inl (href.payment g hg))
    · exact (Table.has_append hpledges).mpr (.inr (hp.trans hfp.symm))

theorem newGift_gave (h : Gave e i value draw v v') (hnew : NewGift v other)
    (hpledge : draw.pledgeId ≠ other.pledgeId)
    (hpayment : draw.fulfillmentId ≠ other.fulfillmentId) : NewGift v' other := by
  obtain ⟨p, hpledges, hp, -⟩ := h.pledge
  obtain ⟨f, hpayments, hf, -⟩ := h.payment
  refine ⟨Table.has_append_false hpledges hnew.pledge (hp ▸ hpledge),
    Table.has_append_false hpayments hnew.payment (hf ▸ hpayment), ?_⟩
  refine Bool.eq_false_iff.mpr fun hhas => ?_
  rcases h.outbox _ hhas with hold | hkey
  · exact Bool.eq_false_iff.mp hnew.announcement hold
  · exact hpayment (paymentKey_inj hkey).symm

/-- The total of the one who gives grows by the gift. -/
theorem receivedFrom_gave (h : Gave e i value draw v v') (href : References v)
    (hnew : NewGift v draw) : receivedFrom v' e i = receivedFrom v e i + value := by
  obtain ⟨p, hpledges, hp, hpe, hpi, -, hlive⟩ := h.pledge
  obtain ⟨f, hpayments, -, hfe, hfp, hvalue⟩ := h.payment
  have hcounted : (p.eventId == e && p.id == f.pledgeId && p.personId == i && isLive p) = true := by
    simp [hpe, hp, hfp, hpi, isLive, hlive]
  unfold receivedFrom
  rw [hpayments, sumWhere_append, hpledges]
  congr 1
  · refine sumWhere_congr fun g hg => ⟨?_, fun _ => rfl⟩
    have hother : (p.id == g.pledgeId) = false := by
      obtain ⟨q, hq, hqg⟩ := Table.has_iff.mp (href.payment g hg)
      have hne := Table.has_eq_false_iff.mp hnew.pledge q hq
      rw [hp, ← hqg]
      simpa using Ne.symm hne
    simp [List.any_append, hother]
  · simp [sumWhere_cons, List.any_append, hcounted, hfe, hvalue]

end gave

/-- A payment of a positive amount that is proposed, under the id of the row it will wait in. -/
structure Gift where
  rowId : ℕ
  amount : String
  value : ℕ
  parses : parseDigits amount = some value
  positive : 0 < value
  type : Option PledgeType
  description : Option String
  line : Option String
  confidence : ℚ
  draw : ExecDraw

def Gift.call (name : String) (g : Gift) : ToolCall :=
  .recordPayment name g.amount g.type g.description g.line

/-- The action of a gift that has no pledge to go to. -/
def Gift.action (personId : Option ℕ) (shown : String) (line : Option ℕ) (g : Gift) : StoredAction :=
  .recordDirectContribution personId shown g.amount none g.type g.description line

/-- The confirmation of a gift: who confirms it, when, and what the world supplies. -/
structure Tap where
  gift : Gift
  ctx : OperationContext
  now : ℕ
  draw : ExecDraw

def IsPending : CaptureResult → Prop
  | .pending .. => True
  | _ => False

section proposals
variable (ctx : OperationContext) (names : NameRules) (name : String)

def proposals (gifts : List Gift) : List (LedgerProgram CaptureResult) :=
  gifts.map fun g => routeToolCall ctx names (g.call name) g.confidence g.rowId g.draw

def confirmations (taps : List Tap) : List (LedgerProgram ExecutionResult) :=
  taps.map fun t => confirm t.ctx names t.gift.rowId t.now t.draw

/-- What comes of a payment, by the rows as they stand. -/
def proposal (v : LedgerDb) (e : ℕ) (g : Gift) : ResolvedWrite :=
  match personNamed names v e name with
  | .ambiguous candidates => .clarify (ambiguousPerson candidates .llm)
  | .none => stageNewGift name g.amount g.type g.description (budgetItemNamed names v e g.line)
  | .resolved i found =>
    stagePayment i found g.amount g.type g.description (budgetItemNamed names v e g.line) .llm
      (pledgeOf v e i)

variable {ctx names name} {v : LedgerDb}

theorem yields_resolveWrite {g : Gift} {Q : ResolvedWrite → LedgerDb → Prop} :
    yields (resolveWrite ctx names (g.call name) .llm) Q v ↔
      Q (proposal names name v ctx.event.eventId g) v := by
  unfold proposal
  refine yields_query_bind.trans <| yields_query_bind.trans ?_
  cases personNamed names v ctx.event.eventId name with
  | ambiguous candidates => exact Iff.rfl
  | none => exact Iff.rfl
  | resolved i found => exact Iff.rfl

theorem yields_routeToolCall {g : Gift} {Q : CaptureResult → LedgerDb → Prop} :
    yields (routeToolCall ctx names (g.call name) g.confidence g.rowId g.draw) Q v ↔
      assertPermission ctx.event.role .fulfillmentWrite = none ∧
        match proposal names name v ctx.event.eventId g with
        | .clarify r => Q r v
        | .action action prompt => v.pendingConfirmations.has g.rowId = false ∧
            Q (.pending prompt g.rowId .llm)
              (staged v (waitingRow ctx action (some g.confidence) prompt g.rowId)) := by
  refine yields_refuse_bind.trans <| and_congr_right fun _ => yields_bind.trans <|
    yields_resolveWrite.trans ?_
  cases proposal names name v ctx.event.eventId g with
  | clarify r => exact Iff.rfl
  | action action prompt =>
    refine yields_bind.trans <| yields_accept_bind.trans <| and_congr ?_ Iff.rfl
    simp

/-- Where the name stands for one contributor without a pledge, or for nobody, every gift waits. -/
theorem proposals_wait {personId : Option ℕ} {shown : String} {gifts : List Gift}
    (hmay : assertPermission ctx.event.role .fulfillmentWrite = none)
    (hrows : (gifts.map Gift.rowId).Nodup)
    (haction : ∀ g ∈ gifts, ∃ prompt, proposal names name v ctx.event.eventId g =
      .action (g.action personId shown (budgetItemNamed names v ctx.event.eventId g.line)) prompt)
    (hnew : ∀ g ∈ gifts, v.pendingConfirmations.has g.rowId = false) :
    ∃ pendingConfirmations, let v' : LedgerDb := { v with pendingConfirmations }
      (∀ id action, Waiting v ctx.event.eventId id action →
        Waiting v' ctx.event.eventId id action) ∧
      (∀ g ∈ gifts, Waiting v' ctx.event.eventId g.rowId
        (g.action personId shown (budgetItemNamed names v ctx.event.eventId g.line))) ∧
      ∀ Q, yieldsEach IsPending Q (proposals ctx names name gifts) v ↔ Q v' := by
  induction gifts generalizing v with
  | nil => exact ⟨v.pendingConfirmations, fun _ _ h => h, fun g hg => absurd hg (by simp),
      fun _ => Iff.rfl⟩
  | cons g rest ih =>
    obtain ⟨prompt, hprompt⟩ := haction g (by simp)
    rw [List.map_cons, List.nodup_cons] at hrows
    have hfresh := hnew g (by simp)
    let row := waitingRow ctx
      (g.action personId shown (budgetItemNamed names v ctx.event.eventId g.line))
      (some g.confidence) prompt g.rowId
    have hnew' : ∀ g' ∈ rest, (staged v row).pendingConfirmations.has g'.rowId = false := by
      intro g' hg'
      refine Bool.eq_false_iff.mpr fun hhas => ?_
      obtain ⟨r, hr, hid⟩ := Table.has_iff.mp hhas
      rcases Table.mem_insertNew_cases hr with hold | rfl
      · exact Table.has_eq_false_iff.mp (hnew g' (by simp [hg'])) r hold hid
      · exact hrows.1 (List.mem_map.mpr ⟨g', hg', hid.symm⟩)
    obtain ⟨table, hkept, hwait, hiff⟩ := ih (v := staged v row) hrows.2
      (fun g' hg' => haction g' (by simp [hg'])) hnew'
    refine ⟨table, fun id action h => hkept id action (waiting_staged h), ?_, fun Q => ?_⟩
    · intro g' hg'
      rcases List.mem_cons.mp hg' with rfl | hg'
      · have hwaits : Waiting (staged v row) row.eventId row.id row.payload :=
          staged_waiting hfresh rfl
        exact hkept _ _ hwaits
      · exact hwait g' hg'
    · refine yields_routeToolCall.trans ?_
      rw [hprompt]
      exact (and_iff_right hmay).trans <| (and_iff_right hfresh).trans <|
        (and_iff_right trivial).trans (hiff Q)

end proposals

/-- The gifts wait with these actions, and the ids that will be drawn are new. -/
structure Ready (v : LedgerDb) (e : ℕ) (action : Gift → StoredAction) (taps : List Tap) : Prop where
  references : References v
  waiting : ∀ t ∈ taps, Waiting v e t.gift.rowId (action t.gift)
  rows : (taps.map fun t => t.gift.rowId).Nodup
  new : ∀ t ∈ taps, NewGift v t.draw.ledger
  pledgeIds : (taps.map fun t => t.draw.ledger.pledgeId).Nodup
  paymentIds : (taps.map fun t => t.draw.ledger.fulfillmentId).Nodup

section confirming
variable {v v' : LedgerDb} {e i : ℕ} {names : NameRules} {action : Gift → StoredAction} {t : Tap}
  {rest : List Tap}

theorem ready_gave (h : Ready v e action (t :: rest))
    (hgave : Gave e i t.gift.value t.draw.ledger (marked t.ctx t.gift.rowId t.now v) v')
    (hperson : v.persons.has i = true) : Ready v' e action rest := by
  have hrows := List.nodup_cons.mp h.rows
  have hpledgeIds := List.nodup_cons.mp h.pledgeIds
  have hpaymentIds := List.nodup_cons.mp h.paymentIds
  have hmarked : References (marked t.ctx t.gift.rowId t.now v) :=
    ⟨h.references.pledge, h.references.payment⟩
  refine ⟨references_gave hgave hmarked hperson, fun t' ht' => ?_, hrows.2, fun t' ht' => ?_,
    hpledgeIds.2, hpaymentIds.2⟩
  · have hne : t'.gift.rowId ≠ t.gift.rowId := fun heq =>
      hrows.1 (List.mem_map.mpr ⟨t', ht', heq⟩)
    obtain ⟨row, hrow, hpending, hpayload⟩ :=
      waiting_marked (h.waiting t' (List.mem_cons_of_mem _ ht')) hne
    refine ⟨row, ?_, hpending, hpayload⟩
    unfold findConfirmation at hrow ⊢
    rw [hgave.pending]
    exact hrow
  · have hnew := h.new t' (List.mem_cons_of_mem _ ht')
    have hmarkedNew : NewGift (marked t.ctx t.gift.rowId t.now v) t'.draw.ledger :=
      ⟨hnew.pledge, hnew.payment, hnew.announcement⟩
    exact newGift_gave hgave hmarkedNew
      (fun heq => hpledgeIds.1 (List.mem_map.mpr ⟨t', ht', heq.symm⟩))
      fun heq => hpaymentIds.1 (List.mem_map.mpr ⟨t', ht', heq.symm⟩)

theorem yields_bigInt_bind {τ : Type} {text : String} {value : ℕ} {f : ℕ → LedgerProgram τ}
    {Q : τ → LedgerDb → Prop} (h : parseDigits text = some value) :
    yields (bigInt text >>= f) Q v ↔ yields (f value) Q v := by
  unfold bigInt
  rw [h]
  exact Iff.rfl

/-- A gift that is confirmed is executed with its value. -/
theorem yields_tap {personId : Option ℕ} {shown : String} {line : Option ℕ}
    {Q : ExecutionResult → LedgerDb → Prop}
    (h : Waiting v t.ctx.event.eventId t.gift.rowId (t.gift.action personId shown line)) :
    ∃ source, yields (confirm t.ctx names t.gift.rowId t.now t.draw) Q v ↔
      yields (recordDirectContribution t.ctx names personId shown t.gift.value source none t.gift.type
        t.gift.description line t.draw) Q (marked t.ctx t.gift.rowId t.now v) := by
  obtain ⟨row, hrow, hpending, hpayload⟩ := h
  refine ⟨row.source, (yields_confirm hrow hpending).trans ?_⟩
  rw [hpayload]
  exact yields_bigInt_bind t.gift.parses

/-- Gifts of somebody who is known: all go through if each may be written, and add up. -/
theorem known_gifts {A : Prop} {Q : LedgerDb → Prop} {shown : String} {line : Gift → Option ℕ}
    {q : Person} {taps : List Tap} {persons : Table ℕ Person Person.id} {total : ℕ}
    (h : Ready v e (fun g => g.action (some i) shown (line g)) taps)
    (hevents : ∀ t ∈ taps, t.ctx.event.eventId = e) (hperson : v.findPerson e i = some q)
    (hlines : ∀ t ∈ taps, ∀ k, line t.gift = some k → v.budgetItems.has k = true)
    (hpersons : v.persons = persons)
    (htotal : total = receivedFrom v e i + (taps.map fun t => t.gift.value).sum)
    (hQ : ∀ v', v'.persons = persons → receivedFrom v' e i = total → (Q v' ↔ A)) :
    yieldsEach (fun _ => True) Q (confirmations names taps) v ↔
      (∀ t ∈ taps, MayWrite t.ctx .fulfillmentWrite) ∧ A := by
  induction taps generalizing v with
  | nil =>
    simp only [List.map_nil, List.sum_nil, Nat.add_zero] at htotal
    exact (hQ v hpersons htotal.symm).trans (and_iff_right fun t ht => absurd ht (by simp)).symm
  | cons t rest ih =>
    have hte := hevents t (by simp)
    obtain ⟨hq, -, hqi⟩ := findPerson_mem hperson
    have hhas : v.persons.has i = true := Table.has_iff.mpr ⟨q, hq, hqi⟩
    have hnew := h.new t (by simp)
    have hmarkedNew : NewGift (marked t.ctx t.gift.rowId t.now v) t.draw.ledger :=
      ⟨hnew.pledge, hnew.payment, hnew.announcement⟩
    obtain ⟨source, htap⟩ := yields_tap (hte ▸ h.waiting t (by simp))
    have hfound : (marked t.ctx t.gift.rowId t.now v).findPerson t.ctx.event.eventId i = some q := by
      rw [hte]
      exact hperson
    have hgive : wp (fun _ => True) (giveAs t.ctx i shown t.gift.value source none t.gift.type
        t.gift.description (line t.gift) t.draw) (fun _ v' => MayWrite t.ctx .fulfillmentWrite ∧
          Gave e i t.gift.value t.draw.ledger (marked t.ctx t.gift.rowId t.now v) v')
        (marked t.ctx t.gift.rowId t.now v) := hte ▸ wp_giveAs hmarkedNew
    rw [List.forall_mem_cons, and_assoc]
    refine htap.trans <| (yields_iff_of_wp
      (A := (∀ t ∈ rest, MayWrite t.ctx .fulfillmentWrite) ∧ A) hgive fun _ v' hgave => ?_).trans <|
      and_congr_left fun _ => ⟨fun hgiven => ?_, fun hmay => ?_⟩
    · have hready := ready_gave h hgave.2 hhas
      have hreceived := receivedFrom_gave hgave.2
        ⟨h.references.pledge, h.references.payment⟩ hmarkedNew
      have hpersons' : v'.persons = v.persons := hgave.2.persons
      refine (and_iff_right trivial).trans <| ih hready (fun t' ht' => hevents t' (by simp [ht']))
        ?_ (fun t' ht' => ?_) (hpersons'.trans hpersons) ?_
      · unfold LedgerDb.findPerson at hperson ⊢
        rw [hpersons']
        exact hperson
      · rw [hgave.2.budgetItems]
        exact hlines t' (by simp [ht'])
      · have hsame : receivedFrom (marked t.ctx t.gift.rowId t.now v) e i = receivedFrom v e i := rfl
        rw [List.map_cons, List.sum_cons] at htotal
        omega
    · obtain ⟨_, _, -, hmay, -⟩ := yields_and_wp hgiven hgive
      exact hmay
    · exact yields_giveAs hmay hmarkedNew hfound (hlines t (by simp))

theorem personNamed_eq_none {name : String} :
    personNamed names v e name = .none ↔ nameMatches names v e (names.trim name) = [] := by
  unfold personNamed resolution
  constructor
  · intro h
    split at h
    · assumption
    · cases h
    · unfold preferExact at h
      split at h <;> cases h
  · intro h
    rw [h]

/-- Somebody who is added under a name that nobody bore is found by it. -/
theorem personNamed_added {ctx : OperationContext} {name : String} {phone : Option String}
    (h : personNamed names v ctx.event.eventId name = .none)
    (hadded : AddedPerson ctx v name phone i v') :
    personNamed names v' ctx.event.eventId name = .resolved i name := by
  rw [personNamed_eq_none] at h
  cases hadded with
  | mk q row hid hevent hname hphone hfresh haudit =>
    have hrows : (v.persons.insertNew q).rows = v.persons.rows ++ [q] := Table.insertNew_rows hfresh
    have hsel : (q.eventId == ctx.event.eventId && names.contains q.displayName (names.trim name)) =
        true := by
      rw [hevent, hname, names.contains_trim]
      simp
    have hnone : (v.persons.rows.filter fun p => p.eventId == ctx.event.eventId &&
        names.contains p.displayName (names.trim name)) = [] := by
      have hlength := congrArg List.length h
      rw [nameMatches, List.length_insertionSort] at hlength
      exact List.length_eq_zero_iff.mp hlength
    have hmatches : nameMatches names ((v.insertPerson q).appendAudit row) ctx.event.eventId
        (names.trim name) = [q] := by
      change ((v.persons.insertNew q).rows.filter _).insertionSort _ = _
      rw [hrows, List.filter_append, hnone]
      simp [hsel]
    unfold personNamed resolution
    rw [hmatches, ← hid, ← hname]

theorem livePledges_eq_nil (href : References v) (hnew : v.persons.has i = false) :
    livePledges v e i = [] := by
  have hnone : (v.pledges.rows.filter fun p =>
      p.eventId == e && p.personId == i && p.status != .cancelled) = [] := by
    refine List.filter_eq_nil_iff.mpr fun p hp hsel => ?_
    simp only [Bool.and_eq_true, beq_iff_eq] at hsel
    have hperson := href.pledge p hp
    rw [hsel.1.2, hnew] at hperson
    cases hperson
  unfold livePledges
  rw [hnone]
  rfl

/-- The only pledge of somebody who had none is the one of the gift. -/
theorem livePledges_gave {value : ℕ} {draw : Draw} (h : livePledges v e i = [])
    (hgave : Gave e i value draw v v') :
    ∃ p, livePledges v' e i = [p] ∧ v'.findPledge e p.id = some p ∧ p.id = draw.pledgeId ∧
      p.committedValue = value := by
  obtain ⟨p, hrows, hp, rfl, rfl, hvalue, hlive⟩ := hgave.pledge
  have hnone : (v.pledges.rows.filter fun q => q.eventId == p.eventId && q.personId == p.personId &&
      q.status != .cancelled) = [] := by
    have hlength := congrArg List.length h
    rw [livePledges, List.length_insertionSort] at hlength
    exact List.length_eq_zero_iff.mp hlength
  have hmem : p ∈ v'.pledges := by simp [Table.mem_def, hrows]
  refine ⟨p, ?_, findPledge_of_mem hmem, hp, hvalue⟩
  unfold livePledges
  rw [hrows, List.filter_append, hnone]
  simp [hlive]

/-- What adding the contributor of a gift needs. -/
def MayAdd (t : Tap) : Prop :=
  MayWrite t.ctx .personWrite ∧ t.draw.contributor.refusal = none

instance (t : Tap) : Decidable (MayAdd t) := inferInstanceAs (Decidable (_ ∧ _))

/-- The gift, once its contributor is known: a payment on the pledge that is found, or one with a
pledge of its own. -/
def payOrGive (t : Tap) (name : String) (source : ProvenanceSource) (line : Option ℕ) (j : ℕ) :
    LedgerProgram ExecutionResult := do
  let pledge ← resolvePledgeForPerson t.ctx.event.eventId j
  match pledge with
  | .resolved pledgeId => recordPayment t.ctx pledgeId name t.gift.value source t.draw
  | _ => giveAs t.ctx j name t.gift.value source none t.gift.type t.gift.description line t.draw

/-- The first gift under a new name adds its contributor, and then a pledge that is paid. -/
theorem yields_first_gift {A : Prop} {Q : ExecutionResult → LedgerDb → Prop} {name : String}
    {source : ProvenanceSource} {line : Option ℕ}
    (hunknown : personNamed names v t.ctx.event.eventId name = .none) (href : References v)
    (hid : v.persons.has t.draw.ledger.personId = false) (hnew : NewGift v t.draw.ledger)
    (hline : ∀ k, line = some k → v.budgetItems.has k = true)
    (hQ : ∀ r v₁ v', AddedPerson t.ctx v name none t.draw.ledger.personId v₁ →
      Gave t.ctx.event.eventId t.draw.ledger.personId t.gift.value t.draw.ledger v₁ v' →
      (Q r v' ↔ A)) :
    yields (recordDirectContribution t.ctx names none name t.gift.value source none t.gift.type
      t.gift.description line t.draw) Q v ↔
      (MayAdd t ∧ MayWrite t.ctx .fulfillmentWrite) ∧ A := by
  have hcreate : yields (recordDirectContribution t.ctx names none name t.gift.value source none
      t.gift.type t.gift.description line t.draw) Q v ↔
      yields (createPerson t.ctx t.draw.contributor ⟨name, none, false, some source⟩ t.draw.ledger)
        (fun person v₁ => yields (payOrGive t name source line person.id) Q v₁) v := by
    refine yields_bind.trans <| yields_query_bind.trans ?_
    rw [hunknown]
    exact yields_bind
  have hgives {view : PersonView} {v₁ : LedgerDb} (h : view.id = t.draw.ledger.personId ∧
      AddedPerson t.ctx v name none t.draw.ledger.personId v₁) :
      yields (payOrGive t name source line view.id) Q v₁ ↔ MayWrite t.ctx .fulfillmentWrite ∧ A := by
    obtain ⟨hview, hadded⟩ := h
    have hnone : pledgeOf v₁ t.ctx.event.eventId t.draw.ledger.personId = .none := by
      have hlive : livePledges v₁ t.ctx.event.eventId t.draw.ledger.personId = [] := by
        cases hadded with
        | mk => exact livePledges_eq_nil (v := v) href hid
      unfold pledgeOf
      rw [hlive]
    have hnew₁ : NewGift v₁ t.draw.ledger := by
      cases hadded with
      | mk => exact ⟨hnew.pledge, hnew.payment, hnew.announcement⟩
    have hgive : wp (fun _ => True) (giveAs t.ctx t.draw.ledger.personId name t.gift.value source none
        t.gift.type t.gift.description line t.draw) _ v₁ := wp_giveAs hnew₁
    rw [hview]
    refine yields_query_bind.trans ?_
    rw [hnone]
    refine (yields_iff_of_wp hgive fun r v' h => hQ r v₁ v' hadded h.2).trans <|
      and_congr_left fun _ => ⟨fun h => ?_, fun hmay => ?_⟩
    · obtain ⟨_, _, -, hmay, -⟩ := yields_and_wp h hgive
      exact hmay
    · cases hadded with
      | mk q row hid' hevent hname hphone hfresh haudit =>
        have hmem : q ∈ ((v.insertPerson q).appendAudit row).persons :=
          (Table.mem_insertNew hfresh).mpr (.inr rfl)
        have hfound : ((v.insertPerson q).appendAudit row).findPerson t.ctx.event.eventId
            t.draw.ledger.personId = some q :=
          Table.find?_of_mem hmem (by simp [hevent, hid']) fun r _ hr => by simp_all
        exact yields_giveAs hmay hnew₁ hfound hline
  refine hcreate.trans <| (yields_iff_of_wp (wp_createPerson fun _ _ hid hadded => ⟨hid, hadded⟩)
    fun _ _ h => hgives h).trans ?_
  rw [yields_createPerson hid, ← and_assoc]
  refine and_congr_left fun _ => and_congr_left fun _ => ?_
  exact ⟨fun h => ⟨h.1, h.2.1⟩, fun h => ⟨h.1, h.2, .inl rfl⟩⟩

/-- A payment on a pledge that is paid up is refused. -/
theorem wp_recordPayment_full {I : LedgerDb → Prop} {ctx : OperationContext} {j value : ℕ}
    {name : String} {source : ProvenanceSource} {draw : ExecDraw} {p : Pledge}
    (hfound : v.findPledge ctx.event.eventId j = some p)
    (hfull : p.committedValue < v.sumFulfillments ctx.event.eventId j + value) :
    wp I (recordPayment ctx j name value source draw) (fun _ _ => False) v := by
  refine wp_bind <| wp_gates_bind fun _ _ => wp_refuse_bind fun _ =>
    wp_findByIdempotencyKey_bind ?_ fun hkey => absurd rfl hkey
  refine wp_query_bind <| wp_orThrow_bind fun q hq => wp_refuse_bind fun _ =>
    wp_checkIf_bind wp_assertNotDuplicate <| wp_bind <| wp_query_bind ?_
  obtain rfl := Option.some.inj (hfound.symm.trans hq)
  have hover : existingSum v ctx.event.eventId j none + value > p.committedValue := hfull
  dsimp only
  rw [if_pos hover]
  exact wp_throw _

/-- After the first gift, the next one meets its pledge, which is paid up. -/
theorem second_gift_refused {name : String} {line : Option ℕ} {ctx : OperationContext} {value : ℕ}
    {draw : Draw} {v₁ : LedgerDb} {Q : ExecutionResult → LedgerDb → Prop} (href : References v)
    (hunknown : personNamed names v ctx.event.eventId name = .none)
    (hid : v.persons.has draw.personId = false)
    (hadded : AddedPerson ctx v name none draw.personId v₁)
    (hgave : Gave ctx.event.eventId draw.personId value draw v₁ v')
    (he : t.ctx.event.eventId = ctx.event.eventId)
    (hwaits : Waiting v' ctx.event.eventId t.gift.rowId (t.gift.action none name line)) :
    ¬ yields (confirm t.ctx names t.gift.rowId t.now t.draw) Q v' := by
  intro h
  obtain ⟨source, htap⟩ := yields_tap (he ▸ hwaits)
  have hknown : personNamed names (marked t.ctx t.gift.rowId t.now v') t.ctx.event.eventId name =
      .resolved draw.personId name := by
    rw [he, ← personNamed_added hunknown hadded]
    change personNamed names v' _ _ = _
    unfold personNamed nameMatches
    rw [hgave.persons]
  have hlive : livePledges v₁ ctx.event.eventId draw.personId = [] := by
    cases hadded with
    | mk => exact livePledges_eq_nil (v := v) href hid
  obtain ⟨p, hpledges, hfound, hp, hvalue⟩ := livePledges_gave hlive hgave
  have hpledge : pledgeOf (marked t.ctx t.gift.rowId t.now v') t.ctx.event.eventId draw.personId =
      .resolved p.id := by
    rw [he]
    change pledgeOf v' _ _ = _
    unfold pledgeOf
    rw [hpledges]
  have hfull : p.committedValue <
      v'.sumFulfillments t.ctx.event.eventId p.id + t.gift.value := by
    obtain ⟨f, hpayments, -, hfe, hfp, hreceived⟩ := hgave.payment
    have hsum : v'.sumFulfillments t.ctx.event.eventId p.id =
        v₁.sumFulfillments t.ctx.event.eventId p.id + value := by
      unfold LedgerDb.sumFulfillments
      rw [hpayments, sumWhere_append, sumWhere_cons, sumWhere_nil, hfe, hfp, hp, he, hreceived]
      simp
    have hpositive := t.gift.positive
    omega
  have hrefused : wp (fun _ => True) (recordDirectContribution t.ctx names none name t.gift.value
      source none t.gift.type t.gift.description line t.draw) (fun _ _ => False)
      (marked t.ctx t.gift.rowId t.now v') := by
    refine wp_bind <| wp_query_bind ?_
    rw [hknown]
    refine wp_pure <| wp_query_bind ?_
    rw [hpledge]
    exact wp_recordPayment_full (he.symm ▸ hfound) hfull
  obtain ⟨_, _, -, hfalse⟩ := yields_and_wp (htap.mp h) hrefused
  exact hfalse

end confirming

/-- The ids that the rows, the pledges, the payments and a new contributor get are new. -/
structure Drawn (db : LedgerDb) (gifts : List Gift) (taps : List Tap) : Prop where
  rows : (gifts.map Gift.rowId).Nodup
  newRows : ∀ g ∈ gifts, db.pendingConfirmations.has g.rowId = false
  new : ∀ t ∈ taps, NewGift db t.draw.ledger
  persons : ∀ t ∈ taps, db.persons.has t.draw.ledger.personId = false
  pledgeIds : (taps.map fun t => t.draw.ledger.pledgeId).Nodup
  paymentIds : (taps.map fun t => t.draw.ledger.fulfillmentId).Nodup

section addsUp
variable (names : NameRules) (db : LedgerDb) (ctx : OperationContext) (name : String)

/-- The contributor of this name is the one of before, if there was one, and the total received
from them has grown by this much. -/
def Grown (e total : ℕ) (db' : LedgerDb) : Prop :=
  ∃ i found, personNamed names db' e name = .resolved i found ∧
    (∀ j d, personNamed names db e name = .resolved j d → j = i) ∧
    receivedFrom db' e i = receivedFrom db e i + total

/-- Every gift waits, every confirmation returns, and the gifts add up. -/
def AddsUp (gifts : List Gift) (taps : List Tap) : Prop :=
  yieldsEach IsPending
    (yieldsEach (fun _ => True) (fun db' => gifts = [] ∨
      Grown names db name ctx.event.eventId (gifts.map Gift.value).sum db')
      (confirmations names taps))
    (proposals ctx names name gifts) db

/-- Nothing is given, or all may write and the name is somebody's, or nobody's and there is one
gift only, whose contributor may be added. -/
def GoThrough (taps : List Tap) : Prop :=
  taps = [] ∨ (assertPermission ctx.event.role .fulfillmentWrite = none ∧
    (∀ t ∈ taps, MayWrite t.ctx .fulfillmentWrite) ∧
    ((∃ i found, personNamed names db ctx.event.eventId name = .resolved i found) ∨
      (personNamed names db ctx.event.eventId name = .none ∧ taps.length = 1 ∧
        ∀ t ∈ taps, MayAdd t)))

variable {names db ctx name}

theorem proposals_first {Q : LedgerDb → Prop} {g : Gift} {rest : List Gift}
    (h : yieldsEach IsPending Q (proposals ctx names name (g :: rest)) db) :
    assertPermission ctx.event.role .fulfillmentWrite = none ∧
      ∀ candidates, personNamed names db ctx.event.eventId name ≠ .ambiguous candidates := by
  obtain ⟨hmay, hproposal⟩ := yields_routeToolCall.mp h
  refine ⟨hmay, fun candidates hambiguous => ?_⟩
  unfold proposal at hproposal
  rw [hambiguous] at hproposal
  exact hproposal.1

theorem budgetItemNamed_has {e k : ℕ} {line : Option String}
    (h : budgetItemNamed names db e line = some k) : db.budgetItems.has k = true := by
  unfold budgetItemNamed at h
  dsimp only at h
  split_ifs at h
  split at h
  · next b hitems =>
    have hmem : b ∈ [b] := by simp
    rw [← hitems, List.mem_filter] at hmem
    exact Table.has_iff.mpr ⟨b, hmem.1, Option.some.inj h⟩
  · cases h

theorem ready_staged {gifts : List Gift} {taps : List Tap} {action : Gift → StoredAction} {e : ℕ}
    {pendingConfirmations : Table ℕ PendingConfirmation PendingConfirmation.id}
    (href : References db) (hdrawn : Drawn db gifts taps) (hperm : (taps.map Tap.gift).Perm gifts)
    (hwait : ∀ g ∈ gifts, Waiting { db with pendingConfirmations } e g.rowId (action g)) :
    Ready { db with pendingConfirmations } e action taps := by
  refine ⟨⟨href.pledge, href.payment⟩, fun t ht => ?_, ?_, fun t ht => ?_, hdrawn.pledgeIds,
    hdrawn.paymentIds⟩
  · exact hwait t.gift (hperm.mem_iff.mp (List.mem_map.mpr ⟨t, ht, rfl⟩))
  · have hrows := (hperm.map Gift.rowId).nodup_iff.mpr hdrawn.rows
    rwa [List.map_map] at hrows
  · exact ⟨(hdrawn.new t ht).pledge, (hdrawn.new t ht).payment, (hdrawn.new t ht).announcement⟩

theorem sum_of_perm {gifts : List Gift} {taps : List Tap} (hperm : (taps.map Tap.gift).Perm gifts) :
    (taps.map fun t => t.gift.value).sum = (gifts.map Gift.value).sum := by
  have hsum := (hperm.map Gift.value).sum_eq
  rwa [List.map_map] at hsum

/-- Who is found by a name is a contributor of the event. -/
theorem personNamed_resolved {e i : ℕ} {found : String}
    (h : personNamed names db e name = .resolved i found) : ∃ q, db.findPerson e i = some q := by
  have hmatch {q : Person} (hq : q ∈ nameMatches names db e (names.trim name)) (hid : q.id = i) :
      ∃ q, db.findPerson e i = some q := by
    obtain ⟨hmem, hsel⟩ := List.mem_filter.mp ((List.mem_insertionSort _).mp hq)
    simp only [Bool.and_eq_true, beq_iff_eq] at hsel
    exact ⟨q, Table.find?_of_mem hmem (by simp [hsel.1, hid]) fun r _ hr => by simp_all⟩
  unfold personNamed resolution at h
  split at h
  · cases h
  · next q hfound =>
    exact hmatch (hfound ▸ List.mem_singleton_self q) (PersonResolution.resolved.inj h).1
  · unfold preferExact at h
    split at h
    · next q hfound =>
      have hq : q ∈ [q] := List.mem_singleton_self q
      rw [← hfound] at hq
      exact hmatch (List.mem_filter.mp hq).1 (PersonResolution.resolved.inj h).1
    · cases h

/-- Gifts of a contributor without a pledge. -/
theorem addsUp_known {gifts : List Gift} {taps : List Tap} {i : ℕ} {found : String}
    (hmay : assertPermission ctx.event.role .fulfillmentWrite = none)
    (hknown : personNamed names db ctx.event.eventId name = .resolved i found)
    (hnone : livePledges db ctx.event.eventId i = []) (href : References db)
    (hdrawn : Drawn db gifts taps) (hperm : (taps.map Tap.gift).Perm gifts)
    (hevents : ∀ t ∈ taps, t.ctx.event.eventId = ctx.event.eventId) :
    AddsUp names db ctx name gifts taps ↔ ∀ t ∈ taps, MayWrite t.ctx .fulfillmentWrite := by
  have haction : ∀ g ∈ gifts, ∃ prompt, proposal names name db ctx.event.eventId g =
      .action (g.action (some i) found (budgetItemNamed names db ctx.event.eventId g.line))
        prompt := by
    intro g hg
    have hpledge : pledgeOf db ctx.event.eventId i = .none := by
      unfold pledgeOf
      rw [hnone]
    unfold proposal
    rw [hknown]
    dsimp only
    rw [hpledge]
    exact ⟨_, rfl⟩
  obtain ⟨pending, hkept, hwait, hiff⟩ := proposals_wait hmay hdrawn.rows haction hdrawn.newRows
  obtain ⟨q, hperson⟩ := personNamed_resolved hknown
  refine (hiff _).trans <| (known_gifts (A := True) (ready_staged href hdrawn hperm hwait) hevents
    hperson (fun t _ k hk => budgetItemNamed_has hk) rfl rfl fun v' hpersons htotal => ?_).trans
    (and_iff_left trivial)
  refine iff_of_true (.inr ⟨i, found, ?_, fun j d hj => ?_, ?_⟩) trivial
  · rw [← hknown]
    unfold personNamed nameMatches
    rw [hpersons]
  · rw [hknown] at hj
    exact (PersonResolution.resolved.inj hj).1.symm
  · rw [htotal, sum_of_perm hperm]
    rfl

theorem references_added {phone : Option String} {i : ℕ} {db' : LedgerDb} (href : References db)
    (hadded : AddedPerson ctx db name phone i db') : References db' := by
  cases hadded with
  | mk q row hid hevent hname hphone hfresh haudit =>
    refine ⟨fun p hp => ?_, href.payment⟩
    obtain ⟨r, hr, hrp⟩ := Table.has_iff.mp (href.pledge p hp)
    exact Table.has_iff.mpr ⟨r, Table.mem_insertNew_of_mem hr, hrp⟩

/-- Gifts of a contributor who is new. -/
theorem addsUp_unknown {gifts : List Gift} {t : Tap} {rest : List Tap}
    (hmay : assertPermission ctx.event.role .fulfillmentWrite = none)
    (hunknown : personNamed names db ctx.event.eventId name = .none) (href : References db)
    (hdrawn : Drawn db gifts (t :: rest)) (hperm : ((t :: rest).map Tap.gift).Perm gifts)
    (hevents : ∀ t' ∈ t :: rest, t'.ctx.event.eventId = ctx.event.eventId) :
    AddsUp names db ctx name gifts (t :: rest) ↔
      (MayAdd t ∧ MayWrite t.ctx .fulfillmentWrite) ∧ rest = [] := by
  have haction : ∀ g ∈ gifts, ∃ prompt, proposal names name db ctx.event.eventId g =
      .action (g.action none name (budgetItemNamed names db ctx.event.eventId g.line)) prompt := by
    intro g hg
    unfold proposal
    rw [hunknown]
    exact ⟨_, rfl⟩
  obtain ⟨pending, hkept, hwait, hiff⟩ := proposals_wait hmay hdrawn.rows haction hdrawn.newRows
  have hready := ready_staged href hdrawn hperm hwait
  have hte := hevents t (by simp)
  have hid := hdrawn.persons t (by simp)
  have hnew := hdrawn.new t (by simp)
  have hunknown' : personNamed names db t.ctx.event.eventId name = .none := hte ▸ hunknown
  have hrefs : References (marked t.ctx t.gift.rowId t.now
      { db with pendingConfirmations := pending }) := ⟨href.pledge, href.payment⟩
  obtain ⟨source, htap⟩ := yields_tap (hte ▸ hready.waiting t (by simp))
  refine (hiff _).trans <| htap.trans ?_
  refine yields_first_gift hunknown' hrefs hid
    ⟨hnew.pledge, hnew.payment, hnew.announcement⟩ (fun k hk => budgetItemNamed_has hk)
    fun r v₁ v' hadded hgave => ?_
  refine (and_iff_right trivial).trans ?_
  cases rest with
  | nil =>
    refine iff_of_true (.inr ⟨t.draw.ledger.personId, name, ?_, fun j d hj => ?_, ?_⟩) rfl
    · have hfound := personNamed_added (v := marked t.ctx t.gift.rowId t.now
        { db with pendingConfirmations := pending }) hunknown' hadded
      rw [← hte, ← hfound]
      unfold personNamed nameMatches
      rw [hgave.persons]
    · rw [hunknown] at hj
      cases hj
    · have hnew₁ : NewGift v₁ t.draw.ledger := by
        cases hadded with
        | mk => exact ⟨hnew.pledge, hnew.payment, hnew.announcement⟩
      have hgrown := receivedFrom_gave hgave (references_added hrefs hadded) hnew₁
      have hsame : receivedFrom v₁ t.ctx.event.eventId t.draw.ledger.personId =
          receivedFrom db t.ctx.event.eventId t.draw.ledger.personId := by
        cases hadded with
        | mk => rfl
      have hsum := sum_of_perm hperm
      rw [List.map_singleton, List.sum_singleton] at hsum
      rw [← hte, hgrown, hsame, hsum]
  | cons t' rest =>
    refine iff_of_false (fun h => ?_) (by simp)
    have hne : t'.gift.rowId ≠ t.gift.rowId := by
      have hrows := hready.rows
      simp only [List.map_cons, List.nodup_cons, List.mem_cons, not_or] at hrows
      exact fun heq => hrows.1.1 heq.symm
    have hwaits : Waiting v' t.ctx.event.eventId t'.gift.rowId (t'.gift.action none name
        (budgetItemNamed names db ctx.event.eventId t'.gift.line)) := by
      obtain ⟨row, hrow, hrest⟩ :=
        waiting_marked (hready.waiting t' (by simp)) hne
      refine ⟨row, ?_, hrest⟩
      unfold findConfirmation at hrow ⊢
      have hpending : v₁.pendingConfirmations = (marked t.ctx t.gift.rowId t.now
          { db with pendingConfirmations := pending }).pendingConfirmations := by
        cases hadded with
        | mk => rfl
      rw [hgave.pending, hpending, hte]
      exact hrow
    have hte' : t'.ctx.event.eventId = t.ctx.event.eventId := (hevents t' (by simp)).trans hte.symm
    exact second_gift_refused hrefs hunknown' hid hadded hgave hte' hwaits h

end addsUp

def bursar : OperationContext := ⟨⟨1, true⟩, ⟨7, .owner, .active⟩⟩

def fiveHundred : Gift :=
  ⟨9, "500", 500, by decide, by decide, none, none, none, 1, .simple 20 10⟩

def threeHundred : Gift :=
  ⟨10, "300", 300, by decide, by decide, none, none, none, 1, .simple 21 10⟩

def twoGifts : List Gift := [fiveHundred, threeHundred]

/-- The later one is confirmed first. -/
def twoTaps : List Tap :=
  [⟨threeHundred, bursar, 11, .simple 21 11⟩, ⟨fiveHundred, bursar, 12, .simple 20 12⟩]

/-- An event whose one contributor has pledged nothing. -/
def unpledged : LedgerDb :=
  { LedgerDb.empty with
    persons := LedgerDb.empty.persons.insertNew
      ⟨3, 7, "Achieng", none, none, .humanTyped, some 1, 0⟩ }

end Akabbo.RepeatedGifts
