import Akabbo.EventSteps

/-!
# No change without its provenance

An audit row and the change it is about commit together when one transaction writes both.
Where a service leaves its audit row to a second transaction, or writes none, is made
exact here, for every point at which a call may stop.
-/
namespace Akabbo.Provenance
open Access RowTable StatementProgram ProgramParts LedgerState LedgerWrites EventWrites ServiceCalls
open ServiceSteps EventSteps WeakestPreconditions
open StatementProgram.Program (query modify modifyChecked accept refuse orThrow runIf commitNow exec
  exec_map exec_query_bind exec_orThrow_bind exec_modifyChecked_bind)

/-- The actions under which a call is audited; invitations are created and revoked under none. -/
@[simp] def auditActions : ServiceCall → List String
  | .ledger (.createPerson ..) => ["person:create"]
  | .ledger (.createPledge ..) => ["pledge:create"]
  | .ledger (.recordFulfillment ..) => ["fulfillment:create"]
  | .ledger (.recordDirectContribution ..) =>
      ["person:create", "pledge:create_direct", "fulfillment:create"]
  | .ledger (.recordPledgeWithPayment ..) => ["pledge:create", "fulfillment:create"]
  | .ledger (.correctCommittedValue ..) => ["pledge:correct"]
  | .ledger (.correctValue ..) => ["fulfillment:correct"]
  | .ledger (.cancelPledge ..) => ["pledge:cancel"]
  | .ledger (.mergePeople ..) => ["person:merge"]
  | .createEvent .. => ["event:create"]
  | .updateEvent .. => ["event:update"]
  | .setEventStatus .. => ["event:set_status"]
  | .updateSettings .. => ["public:configure"]
  | .rotateAccessToken => ["public:token_rotate"]
  | .clearAccessToken => ["public:token_clear"]
  | .addMember .. => ["member:add", "member:rerole"]
  | .updateRole .. => ["member:add", "member:rerole"]
  | .createInvitation .. => []
  | .acceptInvitation .. => ["member:accept_invitation"]
  | .revokeInvitation .. => []
  | .updateContact .. => ["person:update_contact"]
  | .linkPersonToUser .. => ["person:link_user"]
  | .createGroup .. => ["group:create"]
  | .assignPerson .. => ["group:assign"]
  | .addItem .. => ["budget_item:create"]
  | .updateItem .. => ["budget_item:update"]
  | .removeItem .. => ["budget_item:delete"]
  | .allocate .. => ["allocation:create"]
  | .upload .. => ["file:upload"]
  | .submitForExtraction .. => ["document:submit"]

/-- An audit row of this call by this actor. -/
def OwnRow (call : ServiceCall) (ctx : OperationContext) (row : AuditEvent) : Prop :=
  row.actorUserId = some ctx.actor.userId ∧ row.action ∈ auditActions call

/-- Stopped after `n` statements, the call has committed nothing, or the whole of its change
with audit rows of its own. -/
def Provenanced (call : ServiceCall) (ctx : OperationContext) (draw : ServiceDraw) (db : LedgerDb)
    (n : ℕ) : Prop :=
  ∃ rows, (committedAfter n (call.program ctx draw) db db).auditEvents = db.auditEvents ++ rows ∧
    (∀ row ∈ rows, OwnRow call ctx row) ∧
    (rows = [] → committedAfter n (call.program ctx draw) db db = db) ∧
    (rows ≠ [] → ∃ r c, exec (call.program ctx draw) db db =
      .ok (r, c, committedAfter n (call.program ctx draw) db db))

section trail
variable {Of : AuditEvent → Prop} {db v v' : LedgerDb} {ctx : OperationContext}

/-- Nothing but audit rows of this kind has been added to the trail. -/
def Extends (Of : AuditEvent → Prop) (db v : LedgerDb) : Prop :=
  ∃ rows, v.auditEvents = db.auditEvents ++ rows ∧ ∀ row ∈ rows, Of row

/-- The same, and no change without a row. -/
def Trail (Of : AuditEvent → Prop) (db v : LedgerDb) : Prop :=
  ∃ rows, v.auditEvents = db.auditEvents ++ rows ∧ (∀ row ∈ rows, Of row) ∧ (rows = [] → v = db)

theorem extends_refl : Extends Of db db := ⟨[], (List.append_nil _).symm, by simp⟩

theorem trail_refl : Trail Of db db := ⟨[], (List.append_nil _).symm, by simp, fun _ => rfl⟩

theorem extends_of_trail (h : Trail Of db v) : Extends Of db v := by
  obtain ⟨rows, hrows, hof, -⟩ := h
  exact ⟨rows, hrows, hof⟩

/-- A row is appended, and whatever else changes is covered by it. -/
theorem trail_logged (h : Extends Of db v) {row : AuditEvent} (hrow : Of row)
    (happend : v'.auditEvents = v.auditEvents ++ [row]) : Trail Of db v' := by
  obtain ⟨rows, hrows, hof⟩ := h
  refine ⟨rows ++ [row], by rw [happend, hrows, List.append_assoc], fun r hr => ?_, by simp⟩
  rcases List.mem_append.mp hr with hr | hr
  · exact hof r hr
  · exact List.mem_singleton.mp hr ▸ hrow

theorem trail_addedPerson (h : Extends Of db v) (hof : ∀ row, RowOf ctx "person:create" row → Of row)
    {name : String} {phone : Option String} {i : ℕ} (hstep : AddedPerson ctx v name phone i v') :
    Trail Of db v' := by
  obtain ⟨q, row, rfl, -, -, -, -, hrow⟩ := hstep
  exact trail_logged h (hof row hrow) rfl

theorem trail_openedPledge (h : Extends Of db v) {action : String}
    (hof : ∀ row, RowOf ctx action row → Of row) {i j value : ℕ} {line : Option ℕ}
    (hstep : OpenedPledge ctx v action i line value j v') : Trail Of db v' := by
  obtain ⟨p, row, -, -, -, -, -, -, hrow⟩ := hstep
  exact trail_logged h (hof row hrow) rfl

theorem trail_paidPledge (h : Extends Of db v)
    (hof : ∀ row, RowOf ctx "fulfillment:create" row → Of row) {i value : ℕ}
    (hstep : PaidPledge ctx v i value v') : Trail Of db v' := by
  obtain ⟨f, p, status, row, out, -, -, -, -, -, hrow⟩ := hstep
  exact trail_logged h (hof row hrow) rfl

theorem trail_contributed (h : Trail Of db v) (hof : ∀ row, RowOf ctx "person:create" row → Of row)
    {personId : Option ℕ} {i : ℕ} (hstep : Contributed ctx v personId i v') : Trail Of db v' := by
  cases hstep with
  | known q hq => exact h
  | added step => exact trail_addedPerson (extends_of_trail h) hof step

theorem audit_relinked (hstep : Relinked ctx v v') : v'.auditEvents = v.auditEvents := by
  cases hstep <;> rfl

theorem trail_merged (h : Extends Of db v) (hof : ∀ row, RowOf ctx "person:merge" row → Of row)
    {i j : ℕ} (hstep : Merged ctx v i j v') : Trail Of db v' := by
  cases hstep with
  | @mk target v₁ v₂ row found freed inherited audit free =>
    have hsame : v₂.auditEvents = v₁.auditEvents := (audit_relinked inherited).trans rfl
    exact trail_logged h (hof row audit) (congrArg (· ++ [row]) (hsame.trans (audit_relinked freed)))

end trail

section atomic
variable {db : LedgerDb} {ctx : OperationContext}

theorem ownRow {call : ServiceCall} {action : String} (hmem : action ∈ auditActions call)
    {row : AuditEvent} (h : RowOf ctx action row) : OwnRow call ctx row :=
  ⟨h.actor, h.action ▸ hmem⟩

theorem trail_ledgerCall (call : LedgerCall) (draw : LedgerState.Draw) :
    wp (· = db) (call.program ctx draw) (fun _ => Trail (OwnRow (.ledger call) ctx) db) db := by
  cases call with
  | createPerson ent input =>
    exact wp_map <| wp_createPerson fun _ _ _ hstep =>
      trail_addedPerson extends_refl (fun _ => ownRow (by simp)) hstep
  | createPledge input =>
    exact wp_map <| wp_createPledge fun _ _ _ _ _ hstep =>
      trail_openedPledge extends_refl (fun _ => ownRow (by simp)) hstep
  | recordFulfillment input =>
    exact wp_map <| wp_recordFulfillment (fun _ _ => trail_refl) fun _ _ hstep =>
      trail_paidPledge extends_refl (fun _ => ownRow (by simp)) hstep
  | recordDirectContribution input =>
    refine wp_map <| wp_recordDirectContribution (fun _ _ => trail_refl) ?_
    intro _ i v₁ j v₂ v₃ hcontributed hopened hpaid
    have h₁ : Trail (OwnRow (.ledger (.recordDirectContribution input)) ctx) db v₁ :=
      trail_contributed trail_refl (fun _ => ownRow (by simp)) hcontributed
    have h₂ := trail_openedPledge (extends_of_trail h₁) (fun _ => ownRow (by simp)) hopened
    exact trail_paidPledge (extends_of_trail h₂) (fun _ => ownRow (by simp)) hpaid
  | recordPledgeWithPayment input =>
    refine wp_map <| wp_recordPledgeWithPayment ?_ ?_
    · exact fun _ _ _ _ _ hopened =>
        trail_openedPledge extends_refl (fun _ => ownRow (by simp)) hopened
    · intro _ _ _ v₁ _ _ hopened hpaid
      have h₁ : Trail (OwnRow (.ledger (.recordPledgeWithPayment input)) ctx) db v₁ :=
        trail_openedPledge extends_refl (fun _ => ownRow (by simp)) hopened
      exact trail_paidPledge (extends_of_trail h₁) (fun _ => ownRow (by simp)) hpaid
  | correctCommittedValue i value =>
    exact wp_map <| wp_correctCommittedValue fun _ _ row hrow =>
      trail_logged extends_refl (ownRow (by simp) hrow) rfl
  | correctValue i value =>
    exact wp_map <| wp_correctValue fun _ _ _ row hrow =>
      trail_logged extends_refl (ownRow (by simp) hrow) rfl
  | cancelPledge i =>
    exact wp_map <| wp_cancelPledge fun _ row hrow =>
      trail_logged extends_refl (ownRow (by simp) hrow) rfl
  | mergePeople i j =>
    exact wp_map <| wp_mergePeople fun _ _ hstep =>
      trail_merged extends_refl (fun _ => ownRow (by simp)) hstep

/-- The calls that write an audit row in the transaction of their change. -/
def Atomic : ServiceCall → Prop
  | .updateEvent _ => False
  | .setEventStatus _ => False
  | .createInvitation _ => False
  | .acceptInvitation _ => False
  | .revokeInvitation _ => False
  | _ => True

theorem trail_program {call : ServiceCall} (h : Atomic call) (draw : ServiceDraw) :
    wp (· = db) (call.program ctx draw) (fun _ => Trail (OwnRow call ctx) db) db := by
  have logged {action : String} (hmem : action ∈ auditActions call) {v : LedgerDb} {row : AuditEvent}
      (hrow : RowOf ctx action row) (happend : v.auditEvents = db.auditEvents ++ [row]) :
      Trail (OwnRow call ctx) db v := trail_logged extends_refl (ownRow hmem hrow) happend
  cases call with
  | ledger call => exact wp_map (trail_ledgerCall call draw.ledger)
  | createEvent input =>
    exact wp_map <| wp_createEvent fun _ _ _ row hactor haction =>
      trail_logged extends_refl ⟨hactor, by simp [haction, auditActions]⟩ rfl
  | updateEvent input => exact h.elim
  | setEventStatus status => exact h.elim
  | updateSettings input =>
    exact wp_map <| wp_updateSettings fun _ _ _ hrow => logged (by simp) hrow rfl
  | rotateAccessToken =>
    exact wp_map <| wp_refuse_bind fun _ => wp_setToken fun _ _ _ hrow => logged (by simp) hrow rfl
  | clearAccessToken =>
    exact wp_map <| wp_refuse_bind fun _ => wp_setToken fun _ _ _ hrow => logged (by simp) hrow rfl
  | addMember userId role =>
    exact wp_map <| wp_addMember fun _ _ _ hrow => hrow.elim
      (fun hrow => logged (by simp) hrow rfl) fun hrow => logged (by simp) hrow rfl
  | updateRole userId role =>
    exact wp_map <| wp_addMember fun _ _ _ hrow => hrow.elim
      (fun hrow => logged (by simp) hrow rfl) fun hrow => logged (by simp) hrow rfl
  | createInvitation input => exact h.elim
  | acceptInvitation token => exact h.elim
  | revokeInvitation i => exact h.elim
  | updateContact i phone shared =>
    exact wp_map <| wp_updateContact fun _ _ hrow => logged (by simp) hrow rfl
  | linkPersonToUser i userId =>
    exact wp_map <| wp_linkPersonToUser (fun _ => trail_refl) fun _ _ hrow =>
      logged (by simp) hrow rfl
  | createGroup name kind =>
    exact wp_map <| wp_createGroup fun _ _ _ hrow => logged (by simp) hrow rfl
  | assignPerson i j role =>
    exact wp_map <| wp_assignPerson fun _ _ _ _ _ _ hrow => logged (by simp) hrow rfl
  | addItem input =>
    exact wp_map <| wp_addItem fun _ _ _ _ _ _ _ hrow => logged (by simp) hrow rfl
  | updateItem i input =>
    exact wp_map <| wp_updateItem fun _ _ _ hrow => logged (by simp) hrow rfl
  | removeItem i => exact wp_map <| wp_removeItem fun _ _ _ hrow => logged (by simp) hrow rfl
  | allocate i j value =>
    exact wp_map <| wp_allocate fun _ _ _ _ _ _ _ hrow => logged (by simp) hrow rfl
  | upload maxBytes input =>
    exact wp_map <| wp_upload fun _ _ _ _ hrow => logged (by simp) hrow rfl
  | submitForExtraction i kind =>
    exact wp_map <| wp_submitForExtraction fun _ _ _ _ _ _ _ hrow => logged (by simp) hrow rfl

end atomic

section provenance
variable {call : ServiceCall} {ctx : OperationContext} {draw : ServiceDraw} {db : LedgerDb} {n : ℕ}

theorem provenanced_of_trail
    (h : wp (· = db) (call.program ctx draw) (fun _ => Trail (OwnRow call ctx) db) db) (n : ℕ) :
    Provenanced call ctx draw db n := by
  rcases committedAfter_cases h rfl n with hsame | ⟨r, c, hexec, rows, hrows, hown, hcovered⟩
  · exact ⟨[], by rw [hsame, List.append_nil], by simp, fun _ => hsame, by simp⟩
  · exact ⟨rows, hrows, hown, hcovered, fun _ => ⟨r, c, hexec⟩⟩

theorem provenanced_unchanged (h : committedAfter n (call.program ctx draw) db db = db) :
    Provenanced call ctx draw db n :=
  ⟨[], by rw [h, List.append_nil], by simp, fun _ => h, by simp⟩

/-- A change is committed, and no audit row is. -/
theorem not_provenanced
    (haudit : (committedAfter n (call.program ctx draw) db db).auditEvents = db.auditEvents)
    (hchanged : committedAfter n (call.program ctx draw) db db ≠ db) :
    ¬ Provenanced call ctx draw db n := by
  rintro ⟨rows, hrows, -, hcovered, -⟩
  rw [haudit] at hrows
  exact hchanged (hcovered (List.self_eq_append_right.mp hrows))

/-- A call whose change commits after `k` statements and writes no audit row with it. -/
theorem provenanced_unaudited_iff {k : ℕ} {v : LedgerDb}
    (hleft : committedAfter n (call.program ctx draw) db db = if n < k then db else v)
    (haudit : v.auditEvents = db.auditEvents) (hchanged : v ≠ db) :
    Provenanced call ctx draw db n ↔ n < k := by
  by_cases hn : n < k
  · rw [if_pos hn] at hleft
    exact ⟨fun _ => hn, fun _ => provenanced_unchanged hleft⟩
  · rw [if_neg hn] at hleft
    exact ⟨fun hprov => absurd hprov
      (not_provenanced (by rw [hleft]; exact haudit) (by rw [hleft]; exact hchanged)),
      fun h => absurd h hn⟩

/-- The row as the first transaction leaves it. -/
def changed (db : LedgerDb) (i : ℕ) (g : Event → Event) (hg : ∀ e, (g e).id = e.id) : LedgerDb :=
  { db with events := db.events.update (fun e => e.id == i) g hg }

theorem changed_eq_self {i : ℕ} {e : Event} (he : db.events.get? i = some e) {g : Event → Event}
    (hg : ∀ e, (g e).id = e.id) : changed db i g hg = db ↔ g e = e := by
  have hget : (changed db i g hg).events.get? i = some (g e) := by
    simp only [changed, Table.get?_update, he]
    simp [Table.get?_key he]
  constructor
  · intro hsame
    rw [hsame, he] at hget
    exact (Option.some.inj hget).symm
  · intro hge
    have hrows : db.events.update (fun e => e.id == i) g hg = db.events := by
      refine Table.ext ((List.map_congr_left fun r hr => ?_).trans (List.map_id _))
      by_cases hri : (r.id == i) = true
      · have hre : r = e := Table.key_inj (t := db.events) hr (Table.get?_mem he)
          ((by simpa using hri : r.id = i).trans (Table.get?_key he).symm)
        rw [if_pos hri, hre, hge]
        rfl
      · rw [if_neg hri]
        rfl
    simp only [changed, hrows]

/-- A change of an event row in one transaction, its audit row in the next: three statements to
the first commit, two more to the second. -/
theorem exec_split {τ : Type} {e : Event} {g : Event → Event} {hg : ∀ e, (g e).id = e.id}
    (he : db.events.get? ctx.event.eventId = some e) {error : Refusal} {action resource : String}
    {source : ProvenanceSource} {old new : Event → Event → Option (List (String × Json))}
    {view : Event → τ} {p : LedgerProgram τ}
    (hp : p = do
      let found ← query fun db => db.events.get? ctx.event.eventId
      let before ← orThrow found error
      let updated ← updateEventRow ctx.event.eventId g hg
      commitNow
      writeAudit ctx action resource ctx.event.eventId source (old before updated)
        (new before updated)
      return view updated) :
    ∃ row r c, RowOf ctx action row ∧
      exec p db db = .ok (r, c, (changed db ctx.event.eventId g hg).appendAudit row) ∧
      ∀ n, committedAfter n p db db =
        if n < 3 then db
        else if n < 5 then changed db ctx.event.eventId g hg
        else (changed db ctx.event.eventId g hg).appendAudit row := by
  refine ⟨⟨ctx.event.eventId, some ctx.actor.userId, action, resource, ctx.event.eventId, source,
    old e (g e), new e (g e)⟩, view (g e), changed db ctx.event.eventId g hg, ⟨rfl, rfl, rfl⟩, ?_,
    fun n => ?_⟩
  · rw [hp, exec_query_bind, exec_orThrow_bind]
    refine ⟨e, he, exec_modifyChecked_bind.mpr ⟨g e, by rw [he], rfl⟩⟩
  · rcases n with _ | n
    · rfl
    rw [hp]
    change committedAfter n (orThrow (db.events.get? ctx.event.eventId) error >>= _) db db = _
    rw [he]
    rcases n with _ | n
    · rfl
    change committedAfter (n + 1) (updateEventRow ctx.event.eventId g hg >>= _) db db = _
    rw [updateEventRow, committedAfter_checked_bind (a := g e) (by rw [he])]
    rcases n with _ | _ | _ | n <;> rfl

theorem provenanced_split_iff {τ : Type} {e : Event} {g : Event → Event}
    (hg : ∀ e, (g e).id = e.id) (he : db.events.get? ctx.event.eventId = some e) {error : Refusal}
    {action resource : String} {source : ProvenanceSource}
    {old new : Event → Event → Option (List (String × Json))} {view : Event → τ}
    {p : LedgerProgram τ}
    (hp : p = do
      let found ← query fun db => db.events.get? ctx.event.eventId
      let before ← orThrow found error
      let updated ← updateEventRow ctx.event.eventId g hg
      commitNow
      writeAudit ctx action resource ctx.event.eventId source (old before updated)
        (new before updated)
      return view updated)
    (hcall : call.program ctx draw = discard p) (hown : action ∈ auditActions call) :
    Provenanced call ctx draw db n ↔ g e = e ∨ n < 3 ∨ 5 ≤ n := by
  obtain ⟨row, r, c, hrow, hexec, hcommitted⟩ := exec_split he hp
  have hleft : committedAfter n (call.program ctx draw) db db = if n < 3 then db
      else if n < 5 then changed db ctx.event.eventId g hg
      else (changed db ctx.event.eventId g hg).appendAudit row := by
    rw [hcall]
    exact (committedAfter_map _ p n db db).trans (hcommitted n)
  by_cases hfirst : n < 3
  · rw [if_pos hfirst] at hleft
    exact ⟨fun _ => .inr (.inl hfirst), fun _ => provenanced_unchanged hleft⟩
  rw [if_neg hfirst] at hleft
  by_cases hsecond : n < 5
  · rw [if_pos hsecond] at hleft
    rw [or_iff_left (by omega : ¬ (n < 3 ∨ 5 ≤ n)), ← changed_eq_self he hg]
    constructor
    · intro hprov
      by_contra hne
      exact not_provenanced (by rw [hleft]; rfl) (by rw [hleft]; exact hne) hprov
    · exact fun hsame => provenanced_unchanged (hleft.trans hsame)
  · rw [if_neg hsecond] at hleft
    refine ⟨fun _ => .inr (.inr (by omega)), fun _ => ⟨[row], ?_, ?_, by simp, fun _ => ?_⟩⟩
    · rw [hleft]
      rfl
    · intro row' hrow'
      rw [List.mem_singleton.mp hrow']
      exact ownRow hown hrow
    · rw [hleft, hcall]
      exact ⟨(), c, exec_map.mpr ⟨r, hexec, rfl⟩⟩

/-- A call that cannot return and commits nothing on the way. -/
theorem unchanged_of_wp {τ : Type} {p : LedgerProgram τ} (h : wp (· = db) p (fun _ _ => False) db)
    (n : ℕ) : committedAfter n p db db = db := by
  rcases committedAfter_cases h rfl n with hsame | ⟨-, -, -, hfalse⟩
  · exact hsame
  · exact hfalse.elim

theorem provenanced_updateEvent {input : UpdateEventInput} :
    Provenanced (.updateEvent input) ctx draw db n ↔
      (assertPermission ctx.event.role .eventUpdate = none →
        assertEventWritable ctx.event.status = none →
        ∀ e, db.events.get? ctx.event.eventId = some e → input.apply e = e ∨ n < 3 ∨ 5 ≤ n) := by
  by_cases hgates : assertPermission ctx.event.role .eventUpdate = none ∧
      assertEventWritable ctx.event.status = none
  · obtain ⟨hrole, hopen⟩ := hgates
    have hprogram : ServiceCall.program (.updateEvent input) ctx draw =
        discard (updateEvent ctx input) := rfl
    rw [updateEvent, gates, hrole, hopen] at hprogram
    cases he : db.events.get? ctx.event.eventId with
    | none =>
      refine ⟨fun _ _ _ e he' => by simp at he', fun _ => provenanced_unchanged ?_⟩
      rw [hprogram]
      refine unchanged_of_wp (wp_map <| wp_query_bind ?_) n
      rw [he]
      exact wp_throw _
    | some e =>
      rw [provenanced_split_iff (g := input.apply) (fun _ => rfl) he rfl hprogram (by simp)]
      constructor
      · intro h _ _ e' he'
        obtain rfl := Option.some.inj he'
        exact h
      · exact fun h => h hrole hopen e rfl
  · refine ⟨fun _ hrole hopen => absurd ⟨hrole, hopen⟩ hgates, fun _ => provenanced_unchanged ?_⟩
    exact unchanged_of_wp (wp_map <| wp_gates_bind fun hrole hopen =>
      absurd ⟨hrole, hopen⟩ hgates) n

theorem provenanced_setEventStatus {status : EventStatus} :
    Provenanced (.setEventStatus status) ctx draw db n ↔
      (assertPermission ctx.event.role .eventUpdate = none →
        ∀ e, db.events.get? ctx.event.eventId = some e → e.status = status ∨ n < 3 ∨ 5 ≤ n) := by
  by_cases hrole : assertPermission ctx.event.role .eventUpdate = none
  · have hprogram : ServiceCall.program (.setEventStatus status) ctx draw =
        discard (setEventStatus ctx status) := rfl
    rw [setEventStatus, hrole] at hprogram
    cases he : db.events.get? ctx.event.eventId with
    | none =>
      refine ⟨fun _ _ e he' => by simp at he', fun _ => provenanced_unchanged ?_⟩
      rw [hprogram]
      refine unchanged_of_wp (wp_map <| wp_query_bind ?_) n
      rw [he]
      exact wp_throw _
    | some e =>
      rw [provenanced_split_iff (g := fun e => { e with status }) (fun _ => rfl) he rfl hprogram
        (by simp)]
      have hsame : ({ e with status } : Event) = e ↔ e.status = status := by
        constructor
        · exact fun h => (congrArg Event.status h).symm
        · exact fun h => by rw [← h]
      rw [hsame]
      constructor
      · intro h _ e' he'
        obtain rfl := Option.some.inj he'
        exact h
      · exact fun h => h hrole e rfl
  · refine ⟨fun _ h => absurd h hrole, fun _ => provenanced_unchanged ?_⟩
    exact unchanged_of_wp (wp_map <| wp_refuse_bind fun h => absurd h hrole) n

/-- The lookups before the insert: the invited number, and the membership of its user. -/
def lookups (db : LedgerDb) (invitedPhone : Option String) : ℕ :=
  if invitedPhone.getD "" = "" then 0
  else if (db.users.find? fun u => u.phone == some (invitedPhone.getD "")).isSome then 2
  else 1

theorem committedAfter_assertNotMember_bind {τ : Type} {phone : Option String}
    {f : Unit → LedgerProgram τ} (n : ℕ) (c v : LedgerDb) :
    committedAfter n (assertNotMember phone >>= f) c v =
      if n < lookups v phone then c else committedAfter (n - lookups v phone) (f ()) c v := by
  unfold assertNotMember lookups
  by_cases hphone : phone.getD "" = ""
  · simp only [hphone, bne_self_eq_false, if_true]
    rfl
  · have hasked : (phone.getD "" != "") = true := by simpa using hphone
    simp only [hasked, if_neg hphone]
    rcases n with _ | n
    · split_ifs <;> rfl
    cases huser : v.users.find? fun u => u.phone == some (phone.getD "") with
    | none =>
      change committedAfter n (runIf (v.users.find? _).isSome _ >>= f) c v = _
      rw [huser]
      simp only [Option.isSome_none, Bool.false_eq_true, if_false]
      rfl
    | some user =>
      change committedAfter n (runIf (v.users.find? _).isSome _ >>= f) c v = _
      rw [huser]
      simp only [Option.isSome_some, if_true]
      rcases n with _ | n <;> rfl

/-- What lets an invitation be inserted. -/
def Invites (ctx : OperationContext) (draw : EventDraw) (db : LedgerDb) : Prop :=
  assertPermission ctx.event.role .memberManage = none ∧
  assertEventWritable ctx.event.status = none ∧ draw.seat.allowed = true ∧
  db.invitations.has draw.rowId = false ∧ ∀ i ∈ db.invitations, i.token ≠ draw.token

theorem committedAfter_createInvitation {input : CreateInvitationInput} {draw : EventDraw}
    (h : Invites ctx draw db) (n : ℕ) :
    ∃ inv : Invitation, db.invitations.has inv.id = false ∧
      committedAfter n (createInvitation ctx input draw) db db =
        if n < lookups db input.invitedPhone + 2 then db
        else { db with invitations := db.invitations.insertNew inv } := by
  obtain ⟨hrole, hopen, hseat, hid, htoken⟩ := h
  let inv : Invitation :=
    { id := draw.rowId
      eventId := ctx.event.eventId
      token := draw.token
      role := input.role
      status := .pending
      invitedPhone := input.invitedPhone
      invitedById := ctx.actor.userId
      maxUses := input.maxUses.getD 1
      uses := 0
      expiresAt := draw.now + input.ttlSeconds.getD defaultTtlSeconds * 1000
      acceptedById := none
      acceptedAt := none }
  have hlegal : (if db.invitations.has inv.id then some (Refusal.uniqueViolation "invitation")
      else if db.invitations.rows.any fun i => i.token == inv.token then
        some (.uniqueViolation "invitation")
      else none) = none := by
    have hnone : (db.invitations.rows.any fun i => i.token == inv.token) = false :=
      List.any_eq_false.mpr fun i hi => by simpa using htoken i hi
    rw [hnone]
    simp [inv, hid]
  refine ⟨inv, hid, ?_⟩
  have hsteps : committedAfter n (createInvitation ctx input draw) db db =
      committedAfter n (assertNotMember input.invitedPhone >>= fun _ =>
        insertInvitation inv >>= fun _ => Pure.pure
          (⟨draw.rowId, draw.token, input.role, .pending, inv.expiresAt⟩ : InvitationView)) db db := by
    unfold createInvitation gates
    rw [hrole, hopen, hseat]
    rfl
  rw [hsteps, committedAfter_assertNotMember_bind]
  by_cases hlooking : n < lookups db input.invitedPhone
  · rw [if_pos hlooking, if_pos (by omega)]
  rw [if_neg hlooking]
  obtain ⟨m, rfl⟩ : ∃ m, n = lookups db input.invitedPhone + m := ⟨_, (by omega :
    n = lookups db input.invitedPhone + (n - lookups db input.invitedPhone))⟩
  rw [Nat.add_sub_cancel_left]
  rcases m with _ | m
  · rw [if_pos (by omega)]
    rfl
  rw [insertInvitation, change, committedAfter_checked_bind (a := ()) (by rw [hlegal]; rfl)]
  rcases m with _ | m
  · rw [if_pos (by omega)]
    rfl
  · rw [if_neg (by omega)]
    rfl

theorem provenanced_createInvitation {input : CreateInvitationInput} :
    Provenanced (.createInvitation input) ctx draw db n ↔
      (Invites ctx draw.event db → n < lookups db input.invitedPhone + 2) := by
  by_cases hinvites : Invites ctx draw.event db
  · obtain ⟨inv, hfresh, hcommitted⟩ := committedAfter_createInvitation hinvites n
    have hleft : committedAfter n (ServiceCall.program (.createInvitation input) ctx draw) db db =
        if n < lookups db input.invitedPhone + 2 then db
        else { db with invitations := db.invitations.insertNew inv } :=
      (committedAfter_map _ _ n db db).trans hcommitted
    rw [provenanced_unaudited_iff hleft rfl]
    · exact ⟨fun h _ => h, fun h => h hinvites⟩
    · intro hsame
      have hnew : inv ∈ db.invitations.insertNew inv := (Table.mem_insertNew hfresh).mpr (.inr rfl)
      have hrows : db.invitations.insertNew inv = db.invitations :=
        congrArg LedgerDb.invitations hsame
      rw [hrows] at hnew
      exact Table.has_eq_false_iff.mp hfresh inv hnew rfl
  · refine ⟨fun _ h => absurd h hinvites, fun _ => provenanced_unchanged ?_⟩
    refine unchanged_of_wp (wp_map <| wp_gates_bind fun hrole hopen => wp_bind <|
      wp_assertNotMember <| wp_refuse_bind fun hseat => wp_accept_bind fun hlegal =>
      absurd ⟨hrole, hopen, by simpa using hseat, ?_, fun i hi htoken => ?_⟩ hinvites) n
    · split_ifs at hlegal with hid
      simpa using hid
    · split_ifs at hlegal with hid hany
      exact hany (List.any_eq_true.mpr ⟨i, hi, by simpa using htoken⟩)

/-- An invitation with a new status. -/
def marked (db : LedgerDb) (i : ℕ) (status : InvitationStatus) : LedgerDb :=
  { db with
    invitations := db.invitations.update (fun inv => inv.id == i) (fun inv => { inv with status })
      fun _ => rfl }

theorem marked_eq_self {i : ℕ} {inv : Invitation} (hinv : inv ∈ db.invitations) (hi : inv.id = i)
    {status : InvitationStatus} : marked db i status = db ↔ inv.status = status := by
  constructor
  · intro hsame
    have hmem : { inv with status } ∈ (marked db i status).invitations :=
      List.mem_map.mpr ⟨inv, hinv, by simp [hi]⟩
    rw [hsame] at hmem
    exact congrArg Invitation.status (Table.key_inj (t := db.invitations) hinv hmem rfl)
  · intro hstatus
    have hrows : (marked db i status).invitations = db.invitations := by
      refine Table.ext ((List.map_congr_left fun r hr => ?_).trans (List.map_id _))
      by_cases hri : (r.id == i) = true
      · have hre : r = inv := Table.key_inj (t := db.invitations) hr hinv
          ((by simpa using hri : r.id = i).trans hi.symm)
        rw [if_pos hri, hre, ← hstatus]
        rfl
      · rw [if_neg hri]
        rfl
    exact congrArg (fun invitations => { db with invitations }) hrows

theorem provenanced_revokeInvitation {i : ℕ} :
    Provenanced (.revokeInvitation i) ctx draw db n ↔
      (assertPermission ctx.event.role .memberManage = none → ∀ inv,
        db.invitations.find? (fun inv => inv.id == i && inv.eventId == ctx.event.eventId) = some inv →
        inv.status = .revoked ∨ n < 3) := by
  by_cases hrole : assertPermission ctx.event.role .memberManage = none
  · cases hfind : db.invitations.find? fun inv =>
        inv.id == i && inv.eventId == ctx.event.eventId with
    | none =>
      refine ⟨fun _ _ _ h => by simp at h, fun _ => provenanced_unchanged ?_⟩
      refine unchanged_of_wp (wp_refuse_bind fun _ => wp_query_bind ?_) n
      rw [hfind]
      exact wp_throw _
    | some inv =>
      have hmem : inv ∈ db.invitations ∧ inv.id = i ∧ inv.eventId = ctx.event.eventId := by
        simpa using Table.mem_of_find? hfind
      have hhas : db.invitations.has inv.id = true := Table.has_iff.mpr ⟨inv, hmem.1, rfl⟩
      have hleft : committedAfter n (ServiceCall.program (.revokeInvitation i) ctx draw) db db =
          if n < 3 then db else marked db inv.id .revoked := by
        change committedAfter n (revokeInvitation ctx i) db db = _
        unfold revokeInvitation
        rw [hrole]
        rcases n with _ | n
        · rfl
        change committedAfter n (orThrow (db.invitations.find? fun inv =>
          inv.id == i && inv.eventId == ctx.event.eventId) _ >>= _) db db = _
        rw [hfind]
        rcases n with _ | n
        · rfl
        change committedAfter (n + 1) (updateInvitation inv.id _ _) db db = _
        rw [← bind_pure (updateInvitation inv.id _ _), updateInvitation, change,
          committedAfter_checked_bind (a := ()) (by rw [hhas]; rfl)]
        rcases n with _ | n <;> rfl
      by_cases hstatus : inv.status = .revoked
      · have hsame := (marked_eq_self hmem.1 rfl).mpr hstatus
        rw [hsame, ite_self] at hleft
        refine ⟨fun _ _ inv' h => ?_, fun _ => provenanced_unchanged hleft⟩
        obtain rfl := Option.some.inj h
        exact .inl hstatus
      · rw [provenanced_unaudited_iff hleft rfl fun h =>
          hstatus ((marked_eq_self hmem.1 rfl).mp h)]
        refine ⟨fun h _ inv' h' => .inr h, fun h => (h hrole inv rfl).resolve_left hstatus⟩
  · refine ⟨fun _ h => absurd h hrole, fun _ => provenanced_unchanged ?_⟩
    exact unchanged_of_wp (wp_refuse_bind fun h => absurd h hrole) n

theorem provenanced_acceptInvitation {token : String} :
    Provenanced (.acceptInvitation token) ctx draw db n ↔
      ∀ inv, db.invitations.find? (fun inv => inv.token == token) = some inv →
        inv.status = .revoked ∨ inv.status = .expired ∨ draw.event.now < inv.expiresAt ∨ n < 3 := by
  by_cases hlate : ∃ inv, db.invitations.find? (fun inv => inv.token == token) = some inv ∧
      inv.status ≠ .revoked ∧ inv.status ≠ .expired ∧ inv.expiresAt ≤ draw.event.now
  · obtain ⟨inv, hfind, hrevoked, hexpired, hnow⟩ := hlate
    have hmem : inv ∈ db.invitations ∧ inv.token = token := by
      simpa using Table.mem_of_find? hfind
    have hhas : db.invitations.has inv.id = true := Table.has_iff.mpr ⟨inv, hmem.1, rfl⟩
    have hleft : committedAfter n (ServiceCall.program (.acceptInvitation token) ctx draw) db db =
        if n < 3 then db else marked db inv.id .expired := by
      refine (committedAfter_map _ _ n db db).trans ?_
      unfold acceptInvitation
      rcases n with _ | n
      · rfl
      change committedAfter n (orThrow (db.invitations.find? fun inv => inv.token == token) _ >>= _)
        db db = _
      rw [hfind]
      change committedAfter n (refuse (if inv.status = .revoked then _ else none) >>= fun _ =>
        if inv.status = .expired ∨ inv.expiresAt ≤ draw.event.now then _ else _) db db = _
      rw [if_neg hrevoked, if_pos (.inr hnow)]
      have hmark : (inv.status != .expired) = true := by simpa using hexpired
      rw [hmark]
      rcases n with _ | n
      · rfl
      change committedAfter (n + 1) (updateInvitation inv.id _ _ >>= _) db db = _
      rw [updateInvitation, change, committedAfter_checked_bind (a := ()) (by rw [hhas]; rfl)]
      rcases n with _ | _ | n <;> rfl
    rw [provenanced_unaudited_iff hleft rfl fun h => hexpired ((marked_eq_self hmem.1 rfl).mp h)]
    refine ⟨fun h _ _ => .inr (.inr (.inr h)), fun h => ?_⟩
    rcases h inv hfind with h | h | h | h
    · exact absurd h hrevoked
    · exact absurd h hexpired
    · omega
    · exact h
  · have hprov : Provenanced (.acceptInvitation token) ctx draw db n := by
      refine provenanced_of_trail (wp_map <| wp_query_bind <| wp_orThrow_bind fun inv hfind =>
        wp_refuse_bind fun hrevoked => ?_) n
      split_ifs with hpast
      · have hexpired : inv.status = .expired := by
          by_contra hne
          refine hlate ⟨inv, hfind, fun h => by simp [h] at hrevoked, hne, ?_⟩
          exact hpast.resolve_left hne
        rw [hexpired]
        exact wp_commitNow_bind rfl (wp_throw _)
      · exact wp_join (fun _ => trail_refl) fun _ _ _ row hactor haction =>
          trail_logged extends_refl ⟨hactor, by simp [haction]⟩ rfl
    refine ⟨fun _ inv hfind => ?_, fun _ => hprov⟩
    by_contra hnone
    simp only [not_or, not_lt] at hnone
    exact hlate ⟨inv, hfind, hnone.1, hnone.2.1, hnone.2.2.1⟩

/-- When a call that stops after `n` statements leaves no change without its audit row: it is
not an edit or a change of status of the event that stops between its two commits, nor an
invitation that is created, revoked or found expired. -/
def LeavesTrail (call : ServiceCall) (ctx : OperationContext) (draw : ServiceDraw) (db : LedgerDb)
    (n : ℕ) : Prop :=
  match call with
  | .updateEvent input => assertPermission ctx.event.role .eventUpdate = none →
      assertEventWritable ctx.event.status = none →
      ∀ e, db.events.get? ctx.event.eventId = some e → input.apply e = e ∨ n < 3 ∨ 5 ≤ n
  | .setEventStatus status => assertPermission ctx.event.role .eventUpdate = none →
      ∀ e, db.events.get? ctx.event.eventId = some e → e.status = status ∨ n < 3 ∨ 5 ≤ n
  | .createInvitation input => Invites ctx draw.event db → n < lookups db input.invitedPhone + 2
  | .revokeInvitation i => assertPermission ctx.event.role .memberManage = none → ∀ inv,
      db.invitations.find? (fun inv => inv.id == i && inv.eventId == ctx.event.eventId) = some inv →
      inv.status = .revoked ∨ n < 3
  | .acceptInvitation token => ∀ inv,
      db.invitations.find? (fun inv => inv.token == token) = some inv →
      inv.status = .revoked ∨ inv.status = .expired ∨ draw.event.now < inv.expiresAt ∨ n < 3
  | _ => True

/-- Exactly then, whatever the rows, the caller and the point at which the call stops. -/
theorem provenanced_iff (call : ServiceCall) (ctx : OperationContext) (draw : ServiceDraw)
    (db : LedgerDb) (n : ℕ) : Provenanced call ctx draw db n ↔ LeavesTrail call ctx draw db n := by
  cases call with
  | updateEvent input => exact provenanced_updateEvent
  | setEventStatus status => exact provenanced_setEventStatus
  | createInvitation input => exact provenanced_createInvitation
  | revokeInvitation i => exact provenanced_revokeInvitation
  | acceptInvitation token => exact provenanced_acceptInvitation
  | _ => exact ⟨fun _ => trivial, fun _ => provenanced_of_trail (trail_program (by trivial) draw) n⟩

end provenance

def owner : OperationContext := ⟨⟨1, true⟩, ⟨7, .owner, .active⟩⟩

def wedding : LedgerDb :=
  { LedgerDb.empty with
    events := LedgerDb.empty.events.insertNew
      { id := 7, ownerUserId := 1, slug := "wedding", name := "Wedding", createdAt := 1 } }

def quietDraw : ServiceDraw :=
  ⟨⟨20, 20, 20, 10⟩, ⟨10, 20, 20, "token", { allowed := true }, none⟩⟩

/-- The event is closed, and no row says who closed it. -/
theorem closed_without_audit :
    ¬ ∀ call ctx draw db n, Provenanced call ctx draw db n := by
  intro h
  have hclosed : (committedAfter 3 (ServiceCall.program (.setEventStatus .closed) owner quietDraw)
      wedding wedding).auditEvents = [] := by decide
  have hstatus : ((committedAfter 3 (ServiceCall.program (.setEventStatus .closed) owner quietDraw)
      wedding wedding).events.rows.map Event.status) ≠ wedding.events.rows.map Event.status := by
    decide
  have hchanged : committedAfter 3 (ServiceCall.program (.setEventStatus .closed) owner quietDraw)
      wedding wedding ≠ wedding := fun hsame => hstatus (by rw [hsame])
  exact not_provenanced hclosed hchanged (h (.setEventStatus .closed) owner quietDraw wedding 3)

end Akabbo.Provenance
