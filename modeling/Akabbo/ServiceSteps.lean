import Akabbo.ServiceCalls
import Akabbo.LedgerSpecs
import Akabbo.WeakestPreconditions

/-!
# What the services do to the rows

The steps that the services' transactions are made of, each with the checks that went before
it, and one rule a service that says which steps it has taken when it returns.
-/
namespace Akabbo.ServiceSteps
open Access PledgeStatus RowTable StatementProgram ProgramParts LedgerState LedgerWrites LedgerSpecs
open WeakestPreconditions
open StatementProgram.Program (query modify modifyChecked accept refuse orThrow runIf commitNow)

/-- An audit row of this actor's action on this event. -/
structure RowOf (ctx : OperationContext) (action : String) (row : AuditEvent) : Prop where
  event : row.eventId = ctx.event.eventId
  actor : row.actorUserId = some ctx.actor.userId
  action : row.action = action

/-- The account of a person changed, or not. -/
inductive Relinked (ctx : OperationContext) (v : LedgerDb) : LedgerDb → Prop
  | same : Relinked ctx v v
  | set (i : ℕ) (userId : Option ℕ) :
      Relinked ctx v (v.updatePerson ctx.event.eventId i (fun p => { p with userId }) fun _ => rfl)

section steps
variable (ctx : OperationContext) (v : LedgerDb)

/-- A contributor of the event, with the audit row. -/
inductive AddedPerson (name : String) (phone : Option String) : ℕ → LedgerDb → Prop
  | mk {i : ℕ} (q : Person) (row : AuditEvent) (id : q.id = i) (event : q.eventId = ctx.event.eventId)
      (named : q.displayName = name) (reached : q.phone = phone)
      (fresh : v.persons.has q.id = false) (audit : RowOf ctx "person:create" row) :
      AddedPerson name phone i ((v.insertPerson q).appendAudit row)

/-- A pledge of a value for a person and a budget line, with the audit row. -/
inductive OpenedPledge (action : String) (personId : ℕ) (item : Option ℕ) (value : ℕ) :
    ℕ → LedgerDb → Prop
  | mk (p : Pledge) (row : AuditEvent) (event : p.eventId = ctx.event.eventId)
      (person : p.personId = personId) (line : p.targetBudgetItemId = item)
      (committed : p.committedValue = value) (live : p.status = .pledged)
      (legal : pledgeViolation v p = none) (audit : RowOf ctx action row) :
      OpenedPledge action personId item value p.id ((v.insertPledge p).appendAudit row)

/-- A payment on a pledge that the event sees, its status, the audit and the outbox row. -/
inductive PaidPledge (pledgeId value : ℕ) : LedgerDb → Prop
  | mk (f : Fulfillment) (p : Pledge) (status : Status) (row : AuditEvent) (out : OutboxRow)
      (event : f.eventId = ctx.event.eventId) (pledge : f.pledgeId = pledgeId)
      (received : f.value = value) (fresh : v.fulfillments.has f.id = false)
      (found : v.findPledge ctx.event.eventId pledgeId = some p)
      (audit : RowOf ctx "fulfillment:create" row) :
      PaidPledge pledgeId value ((((v.insertFulfillment f).setPledgeStatus ctx.event.eventId pledgeId
        status).appendAudit row).insertOutbox out)

/-- Everything of the source goes to the target, and the source goes. -/
inductive Merged (sourceId targetId : ℕ) : LedgerDb → Prop
  | mk (target : Person) {v₁ v₂ : LedgerDb} (row : AuditEvent)
      (found : v.findPerson ctx.event.eventId targetId = some target) (freed : Relinked ctx v v₁)
      (inherited : Relinked ctx ((v₁.movePledges ctx.event.eventId sourceId targetId).moveFiles
        ctx.event.eventId sourceId targetId) v₂)
      (audit : RowOf ctx "person:merge" row) (free : ∀ p ∈ v₂.pledges, p.personId ≠ sourceId) :
      Merged sourceId targetId ((v₂.appendAudit row).deletePerson ctx.event.eventId sourceId)

/-- The contributor of a direct gift: known to the event, or new. -/
inductive Contributed : Option ℕ → ℕ → LedgerDb → Prop
  | known (q : Person) (found : v.findPerson ctx.event.eventId q.id = some q) :
      Contributed (some q.id) q.id v
  | added {name : String} {phone : Option String} {i : ℕ} {v' : LedgerDb}
      (step : AddedPerson ctx v name phone i v') : Contributed none i v'

end steps

section statements
variable {I : LedgerDb → Prop} {τ : Type} {Q : τ → LedgerDb → Prop} {v : LedgerDb}
  {ctx : OperationContext} {next : Unit → LedgerProgram τ}

theorem wp_gates_bind {action : Action} (h : assertPermission ctx.event.role action = none →
    assertEventWritable ctx.event.status = none → wp I (next ()) Q v) :
    wp I (gates ctx action >>= next) Q v := by
  unfold gates
  rw [bind_assoc]
  exact wp_refuse_bind fun hrole => wp_refuse_bind fun hstatus => h hrole hstatus

theorem wp_writeAudit_bind {action resourceType : String} {resourceId : ℕ}
    {source : ProvenanceSource} {oldValue newValue : Option (List (String × Json))}
    (h : ∀ row, RowOf ctx action row → wp I (next ()) Q (v.appendAudit row)) :
    wp I (writeAudit ctx action resourceType resourceId source oldValue newValue >>= next) Q v :=
  wp_modify_bind (h _ ⟨rfl, rfl, rfl⟩)

theorem wp_requirePerson_bind {i : ℕ} {f : Person → LedgerProgram τ}
    (h : ∀ q, v.findPerson ctx.event.eventId i = some q → wp I (f q) Q v) :
    wp I (requirePerson ctx i >>= f) Q v := by
  unfold requirePerson
  rw [bind_assoc]
  exact wp_query_bind (wp_orThrow_bind h)

theorem wp_findByIdempotencyKey_bind {key : Option String}
    {f : Option FulfillmentView → LedgerProgram τ} (hnew : wp I (f none) Q v)
    (hreplay : key ≠ none → ∀ view, wp I (f (some view)) Q v) :
    wp I (findByIdempotencyKey ctx key >>= f) Q v := by
  refine wp_bind ?_
  unfold findByIdempotencyKey
  split
  · exact hnew
  · split_ifs
    · exact hnew
    · refine wp_query_bind ?_
      split
      · exact hnew
      · exact wp_query_bind (wp_orThrow_bind fun _ _ => wp_query_bind
          (wp_pure (hreplay (by simp) _)))

theorem wp_assertNotDuplicate {i value now : ℕ} {Q : Unit → LedgerDb → Prop} (h : Q () v) :
    wp I (assertNotDuplicate ctx i value now) Q v := wp_query_bind (wp_refuse fun _ => h)

theorem wp_assertWithinCommitted {i committed value : ℕ} {excluded : Option ℕ}
    {Q : Unit → LedgerDb → Prop} (h : Q () v) :
    wp I (assertWithinCommitted ctx i committed value excluded) Q v := by
  refine wp_query_bind ?_
  dsimp only
  split_ifs
  · exact wp_throw _
  · exact h

theorem wp_updatePledge_bind {e i : ℕ} {g : Pledge → Pledge} {hg : ∀ p, (g p).id = p.id}
    {f : Pledge → LedgerProgram τ}
    (h : ∀ p, v.findPledge e i = some p → wp I (f (g p)) Q (v.updatePledge e i g hg)) :
    wp I (updatePledge e i g hg >>= f) Q v := by
  refine wp_modifyChecked_bind fun a ha => ?_
  cases hp : v.findPledge e i with
  | none =>
    rw [hp] at ha
    cases ha
  | some p =>
    rw [hp] at ha
    cases ha
    exact h p hp

theorem wp_relink_bind {b : Bool} {i : ℕ} {userId : Option ℕ}
    (h : ∀ v', Relinked ctx v v' → wp I (next ()) Q v') :
    wp I (runIf b (setUserId ctx.event.eventId i userId) >>= next) Q v :=
  wp_runIf_bind (fun _ => wp_accept fun _ => h _ (.set i userId)) fun _ => h _ .same

/-- A merge removes a person that no pledge of any event names. -/
theorem wp_deletePerson_bind {e i : ℕ}
    (h : (∀ p ∈ v.pledges, p.personId ≠ i) → wp I (next ()) Q (v.deletePerson e i)) :
    wp I (deletePerson e i >>= next) Q v := by
  refine wp_accept_bind fun hv => h fun p hp hpi => ?_
  split_ifs at hv with hnone hrow
  exact hrow (List.any_eq_true.mpr ⟨p, hp, by simpa using hpi⟩)

theorem wp_insertPerson_bind {q : Person}
    (h : v.persons.has q.id = false → wp I (next ()) Q (v.insertPerson q)) :
    wp I (insertPerson q >>= next) Q v :=
  wp_accept_bind fun hv => h (by simpa using hv)

end statements

section services
variable {I : LedgerDb → Prop} {v : LedgerDb} {ctx : OperationContext} {draw : LedgerState.Draw}

theorem wp_createPerson {ent : EntitlementDecision} {input : CreatePersonInput}
    {Q : PersonView → LedgerDb → Prop}
    (h : ∀ view v', view.id = draw.personId →
      AddedPerson ctx v input.displayName input.phone draw.personId v' → Q view v') :
    wp I (createPerson ctx ent input draw) Q v := by
  refine wp_gates_bind fun _ _ => wp_refuse_bind fun _ => wp_checkIf_bind ?_ <|
    wp_insertPerson_bind fun hfresh => wp_writeAudit_bind fun row hrow =>
    wp_pure (h _ _ rfl (.mk _ row rfl rfl rfl rfl hfresh hrow))
  exact fun hr => wp_runIf (fun _ => wp_query_bind (wp_refuse fun _ => hr)) fun _ => hr

theorem wp_createPledge {input : CreatePledgeInput} {Q : PledgeView → LedgerDb → Prop}
    (h : ∀ view v' q i, v.findPerson ctx.event.eventId input.personId = some q →
      OpenedPledge ctx v "pledge:create" input.personId input.targetBudgetItemId input.committedValue
        i v' → Q view v') :
    wp I (createPledge ctx input draw) Q v :=
  wp_gates_bind fun _ _ => wp_refuse_bind fun _ => wp_requirePerson_bind fun q hq =>
    wp_accept_bind fun hlegal => wp_writeAudit_bind fun row hrow =>
    wp_pure (h _ _ q _ hq (.mk _ row rfl rfl rfl rfl rfl hlegal hrow))

theorem wp_writeFulfillment {input : WriteFulfillmentInput} {Q : FulfillmentView → LedgerDb → Prop}
    (h : ∀ view v', PaidPledge ctx v input.pledgeId input.value v' → Q view v') :
    wp I (writeFulfillment ctx input draw) Q v :=
  wp_accept_bind fun hlegal => wp_query_bind (wp_updatePledge_bind fun p hp =>
    wp_writeAudit_bind fun row hrow => wp_accept_bind fun _ =>
    wp_pure (h _ _ (.mk (newFulfillment ctx input draw) p _ row _ rfl rfl rfl
      (fulfillmentViolation_fresh hlegal) hp hrow)))

theorem wp_recordFulfillment {input : RecordFulfillmentInput} {Q : FulfillmentView → LedgerDb → Prop}
    (hreplay : input.idempotencyKey ≠ none → ∀ view, Q view v)
    (hpay : ∀ view v', PaidPledge ctx v input.pledgeId input.value v' → Q view v') :
    wp I (recordFulfillment ctx input draw) Q v :=
  wp_gates_bind fun _ _ => wp_refuse_bind fun _ => wp_findByIdempotencyKey_bind
    (wp_query_bind <| wp_orThrow_bind fun _ _ => wp_refuse_bind fun _ =>
      wp_checkIf_bind wp_assertNotDuplicate <| wp_bind <| wp_assertWithinCommitted <|
      wp_writeFulfillment hpay)
    fun hkey view => wp_pure (hreplay hkey view)

theorem wp_directContributor {input : RecordDirectContributionInput} {Q : ℕ → LedgerDb → Prop}
    (h : ∀ i v', Contributed ctx v input.personId i v' → Q i v') :
    wp I (directContributor ctx input draw) Q v := by
  unfold directContributor
  cases hperson : input.personId with
  | some i =>
    refine wp_requirePerson_bind fun q hq => wp_pure ?_
    obtain ⟨-, -, rfl⟩ := findPerson_mem hq
    exact h _ _ (hperson ▸ .known q hq)
  | none =>
    dsimp only
    split
    · exact wp_throw _
    · split_ifs
      · exact wp_throw _
      · exact wp_insertPerson_bind fun hfresh => wp_writeAudit_bind fun row hrow =>
          wp_pure (h _ _ (hperson ▸ .added (.mk _ row rfl rfl rfl rfl hfresh hrow)))

theorem wp_recordDirectContribution {input : RecordDirectContributionInput}
    {Q : FulfillmentView → LedgerDb → Prop}
    (hreplay : input.idempotencyKey ≠ none → ∀ view, Q view v)
    (hgive : ∀ view i v₁ j v₂ v₃, Contributed ctx v input.personId i v₁ →
      OpenedPledge ctx v₁ "pledge:create_direct" i input.targetBudgetItemId input.value j v₂ →
      PaidPledge ctx v₂ j input.value v₃ → Q view v₃) :
    wp I (recordDirectContribution ctx input draw) Q v :=
  wp_gates_bind fun _ _ => wp_refuse_bind fun _ => wp_findByIdempotencyKey_bind
    (wp_bind <| wp_directContributor fun i v₁ hperson =>
      wp_accept_bind fun hlegal => wp_writeAudit_bind fun row hrow =>
      wp_writeFulfillment fun view v₃ hpaid =>
      hgive view i v₁ _ _ v₃ hperson (.mk _ row rfl rfl rfl rfl rfl hlegal hrow) hpaid)
    fun hkey view => wp_pure (hreplay hkey view)

theorem wp_recordPledgeWithPayment {input : RecordPledgeWithPaymentInput}
    {Q : FulfillmentView → LedgerDb → Prop}
    (hopen : ∀ view q j v', v.findPerson ctx.event.eventId input.personId = some q →
      OpenedPledge ctx v "pledge:create" input.personId input.targetBudgetItemId input.committedValue
        j v' → Q view v')
    (hpay : ∀ view q j v₁ v₂, v.findPerson ctx.event.eventId input.personId = some q →
      OpenedPledge ctx v "pledge:create" input.personId input.targetBudgetItemId input.committedValue
        j v₁ → PaidPledge ctx v₁ j (input.receivedNow.getD 0) v₂ → Q view v₂) :
    wp I (recordPledgeWithPayment ctx input draw) Q v := by
  refine wp_gates_bind fun _ _ => wp_refuse_bind fun _ => wp_requirePerson_bind fun q hq =>
    wp_refuse_bind fun _ => wp_accept_bind fun hlegal => wp_writeAudit_bind fun row hrow => ?_
  split_ifs
  · exact wp_pure (hopen _ q _ _ hq (.mk _ row rfl rfl rfl rfl rfl hlegal hrow))
  · exact wp_writeFulfillment fun view v₂ hpaid =>
      hpay view q _ _ v₂ hq (.mk _ row rfl rfl rfl rfl rfl hlegal hrow) hpaid

/-- The status of a pledge and whatever goes with it, with an audit row. -/
theorem wp_correctCommittedValue {i value : ℕ} {Q : PledgeView → LedgerDb → Prop}
    (h : ∀ view status row, RowOf ctx "pledge:correct" row →
      Q view ((v.updatePledge ctx.event.eventId i
        (fun p => { p with committedValue := value, status }) fun _ => rfl).appendAudit row)) :
    wp I (correctCommittedValue ctx i value) Q v :=
  wp_gates_bind fun _ _ => wp_query_bind <| wp_orThrow_bind fun _ _ => wp_query_bind <|
    wp_updatePledge_bind fun _ _ => wp_writeAudit_bind fun row hrow => wp_pure (h _ _ row hrow)

theorem wp_correctValue {i value : ℕ} {Q : FulfillmentView → LedgerDb → Prop}
    (h : ∀ view j status row, RowOf ctx "fulfillment:correct" row →
      Q view (((v.setFulfillmentValue ctx.event.eventId i value).setPledgeStatus
        ctx.event.eventId j status).appendAudit row)) :
    wp I (correctValue ctx i value) Q v := by
  refine wp_gates_bind fun _ _ => wp_query_bind <| wp_orThrow_bind fun f _ => wp_query_bind <|
    wp_bind ?_
  have hrest : wp I (do
      let updated ← updateFulfillmentValue ctx.event.eventId i value
      let pledge ← query fun db => db.findPledge ctx.event.eventId f.pledgeId
      let totalFulfilled ← query fun db => db.sumFulfillments ctx.event.eventId f.pledgeId
      let committed := (pledge.map Pledge.committedValue).getD 0
      let status := deriveStatus committed totalFulfilled
        (pledge.any fun p => decide (p.status = .cancelled))
      let _ ← setStatus ctx.event.eventId f.pledgeId status
      writeAudit ctx "fulfillment:correct" "fulfillment" i .manualCorrection
        (some [("value", .text (moneyToString f.value))])
        (some [("value", .text (moneyToString value)), ("pledgeStatus", .text status.name)])
      return fulfillmentView updated status (outstanding committed totalFulfilled)) Q v :=
    wp_modifyChecked_bind fun _ _ => wp_query_bind <| wp_query_bind <|
      wp_updatePledge_bind fun _ _ => wp_writeAudit_bind fun row hrow => wp_pure (h _ _ _ row hrow)
  cases v.findPledge ctx.event.eventId f.pledgeId with
  | none => exact hrest
  | some p => exact wp_assertWithinCommitted hrest

theorem wp_cancelPledge {i : ℕ} {Q : PledgeView → LedgerDb → Prop}
    (h : ∀ view row, RowOf ctx "pledge:cancel" row →
      Q view ((v.setPledgeStatus ctx.event.eventId i .cancelled).appendAudit row)) :
    wp I (cancelPledge ctx i) Q v :=
  wp_gates_bind fun _ _ => wp_query_bind <| wp_orThrow_bind fun _ _ =>
    wp_updatePledge_bind fun _ _ => wp_writeAudit_bind fun row hrow => wp_pure (h _ row hrow)

theorem wp_mergePeople {sourceId targetId : ℕ} {Q : MergeResult → LedgerDb → Prop}
    (h : ∀ view v', Merged ctx v sourceId targetId v' → Q view v') :
    wp I (mergePeople ctx sourceId targetId) Q v :=
  wp_gates_bind fun _ _ => wp_refuse_bind fun _ => wp_query_bind <| wp_query_bind <|
    wp_orThrow_bind fun _ _ => wp_orThrow_bind fun target htarget => wp_refuse_bind fun _ =>
    wp_relink_bind fun _ hfreed => wp_modifyChecked_bind fun _ _ => wp_modify_bind <|
    wp_relink_bind fun _ hinherited => wp_writeAudit_bind fun row hrow =>
    wp_deletePerson_bind fun hfree => wp_pure
      (h _ _ (.mk target row htarget hfreed hinherited hrow hfree))

end services
end Akabbo.ServiceSteps
