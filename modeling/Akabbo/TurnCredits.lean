import Akabbo.ConversationTurns
import Akabbo.ExecutorFrame

/-!
# The credit of a turn

Whatever the model answers, the tools come to and goes wrong, a turn that has reserved its credit
settles it once, on the scope that was charged. The tools leave the ledger of the AI alone.
-/
namespace Akabbo.TurnCredits
open Access RowTable StatementProgram ProgramParts CreditPool
open LedgerState (LedgerProgram)
open BillingState Entitlement BillingWrites BillingRuns TwoConnections PaidCampaigns SmsCampaigns
open WeakestPreconditions AsyncRoutines AssistantTurns AgentSessions CreditScopes ConversationTurns
open ExecutorFrame (effects_dispatch)
open StatementProgram.Program (Writes exec query)
open AsyncRoutines.Routine

/-- The ledger of the AI is as it was, and who pays for an event that it names is the same. -/
structure KeepsAi (b b' : BillingDb) : Prop where
  ledger : b'.aiCreditLedger = b.aiCreditLedger
  payer : ∀ e, (∃ m ∈ b.movements .ai, m.eventId = some e) → owner b' e = owner b e

theorem keepsAi_refl (b : BillingDb) : KeepsAi b b := ⟨rfl, fun _ _ => rfl⟩

theorem keepsAi_trans {b b' b'' : BillingDb} (h : KeepsAi b b') (h' : KeepsAi b' b'') :
    KeepsAi b b'' := by
  have hmovements : b'.movements .ai = b.movements .ai := by
    change b'.aiCreditLedger.rows.map _ = b.aiCreditLedger.rows.map _
    rw [h.ledger]
  refine ⟨h'.ledger.trans h.ledger, fun e he => (h'.payer e ?_).trans (h.payer e he)⟩
  rw [hmovements]
  exact he

/-- The same for all the rows. -/
def SameAi (s t : Rows) : Prop := KeepsAi s.apart t.apart

theorem sameAi_refl (s : Rows) : SameAi s s := keepsAi_refl _

theorem sameAi_trans {s t u : Rows} (h : SameAi s t) (h' : SameAi t u) : SameAi s u :=
  keepsAi_trans h h'

section programs
variable {ρ : Type}

theorem effects_openRun (p : LedgerProgram ρ) :
    Effects SameAi (openPart.run RowsLock.ledger p : RowsProgram ρ) :=
  effects_run_part openPart _ (fun _ _ t => sameAi_refl t) effects_any

theorem effects_storedRun (p : LedgerProgram ρ) :
    Effects SameAi (onStored RowsLock.ledger p : RowsProgram ρ) :=
  effects_bind (effects_run_part storedPart _ (fun _ _ t => sameAi_refl t) effects_any)
    fun _ => trivial

theorem effects_transaction {p : RowsProgram ρ} (hp : Effects SameAi p) :
    Effects SameAi (transaction p) :=
  effects_bind (effects_modify _ sameAi_refl) fun _ => effects_bind hp fun _ =>
    effects_bind (effects_modify _ sameAi_refl) fun _ => trivial

theorem effects_onLedger (p : LedgerProgram ρ) : Effects SameAi (onLedger p) :=
  effects_transaction (effects_openRun p)

theorem effects_onOwn {p : BillingProgram ρ} (hp : Effects KeepsAi p) :
    Effects SameAi (onOwn RowsLock.billing p : RowsProgram ρ) :=
  effects_bind (effects_run_part apartPart _ (fun _ hw t => hw t.apart) hp) fun _ => trivial

theorem keepsAi_insertSms (b : BillingDb) (row : CreditRow) :
    KeepsAi b (b.insertCredit .sms row) := ⟨rfl, fun _ _ => rfl⟩

theorem effects_appendSms (eventId : ℕ) (kind : CreditKind) (amount : ℤ) (key : String)
    (reference : Option String) :
    Effects KeepsAi (appendTo .sms (scopeOf eventId) kind amount key reference) :=
  effects_bind (effects_of_silent (writes_owningAccountId eventId)) fun _ =>
    effects_modify _ fun b => keepsAi_insertSms b _

theorem effects_reserveSms (eventId : ℕ) (key : String) (draw : Draw) :
    Effects KeepsAi (BillingWrites.reserve (scopeOf eventId) 1 key draw) := by
  refine effects_bind (effects_of_silent (writes_resolveScope _ _)) fun ent => ?_
  dsimp only
  split_ifs
  · trivial
  · exact effects_bind (effects_appendSms eventId _ _ _ _) fun _ => trivial

end programs

section campaigns
variable {draw : Draw} {campaign : CampaignDraw}

theorem effects_sendAnnouncement (ctx : OperationContext) (body : String) (ids : List ℕ) :
    Effects SameAi (PaidCampaigns.sendAnnouncement ctx body ids campaign draw) :=
  effects_transaction <| effects_dispatch (fun _ => effects_openRun _) ctx
    (fun _ => effects_map (effects_onOwn (effects_reserveSms _ _ draw)) _) _ body _

end campaigns

section tools
variable {rules : TurnRules} {call : TurnCall}

theorem effects_write (tool : String) : Effects SameAi (write rules call tool) := by
  unfold write
  cases CaptureStaging.normaliseAmount rules.toCaptureRules call.arguments with
  | none => trivial
  | some amounts =>
    dsimp only
    cases normaliseReceived rules amounts with
    | none => trivial
    | some arguments =>
      dsimp only
      cases CaptureStaging.toolCallSchema tool arguments with
      | none => trivial
      | some request => exact effects_bind (effects_onLedger _) fun _ => trivial

theorem effects_toolProgram (tool : Tool) : Effects SameAi (toolProgram rules call tool) := by
  cases tool with
  | read tool =>
    refine effects_bind (effects_query _) fun answer => ?_
    cases answer with
    | ok content => trivial
    | error e => trivial
  | addPerson => exact effects_write _
  | recordPledge => exact effects_write _
  | recordPayment => exact effects_write _
  | publishAnnouncement =>
    refine effects_map ?_ _
    unfold publishAnnouncement
    split_ifs
    · trivial
    · refine effects_bind (effects_onLedger _) fun a => ?_
      refine effects_bind (effects_attempt (effects_sendAnnouncement _ _ _)) fun sent => ?_
      cases sent with
      | ok result => trivial
      | error e => trivial
    · exact effects_bind (effects_onLedger _) fun _ => trivial
  | sendReminders =>
    refine effects_map ?_ _
    unfold prepareReminders
    split_ifs
    · trivial
    · exact effects_bind (effects_onLedger _) fun _ => effects_bind (effects_query _) fun _ =>
        effects_onLedger _
  | _ => exact effects_map (effects_onLedger _) _

theorem preserves_statements {ρ : Type} {p : RowsProgram ρ} (hp : Effects SameAi p)
    (fault : Option (ℕ × Refusal)) : preserves SameAi (statements (underFault fault p)) :=
  fun s => ends_underFault (withstands_mono
    (withstands_of_effects (R := SameAi) sameAi_trans hp (sameAi_refl s) (sameAi_refl s))
    fun _ _ _ h => h.2) fault

theorem preserves_dispatch : preserves SameAi (dispatch rules call) := fun s =>
  ends_dispatch (sameAi_refl s) (fun _ _ h => h) fun tool _ =>
    preserves_statements (effects_toolProgram tool) _ s

end tools

section sessions
variable {rules : SessionRules} {actor : Actor}

/-- A drawn id is none that the ledger names. -/
theorem keepsAi_insertEvent {b : BillingDb} {event : Event} (h : eventViolation b event = none) :
    KeepsAi b (b.insertEvent event) := by
  unfold eventViolation at h
  split_ifs at h with hid hnamed
  refine ⟨rfl, fun e hmade => ?_⟩
  obtain ⟨m, hm, hname⟩ := hmade
  rw [owner_insertEvent (Bool.eq_false_iff.mpr hid)]
  refine if_neg fun he => hnamed ?_
  refine List.any_eq_true.mpr ⟨.ai, by simp, List.any_eq_true.mpr ⟨m, hm, ?_⟩⟩
  rw [hname, he]
  exact beq_self_eq_true _

theorem withstands_insertedEvent {input : EventWrites.CreateEventInput}
    {draw : EventWrites.EventDraw} (s : Rows) :
    withstands (SameAi s) (insertedEvent actor input draw) (fun _ _ t => SameAi s t) s s := by
  refine withstands_transaction (sameAi_refl s) <| withstands_bind <| withstands_mono
    (withstands_openRun (fun _ => sameAi_refl s) (sameAi_refl s) wp_any) ?_
  rintro summary c t ⟨hc, v, rfl, -⟩
  have hinsert : wp (fun _ => False) (insertEvent ⟨summary.id, actor.userId⟩)
      (fun _ b => KeepsAi s.apart b) s.apart := wp_accept fun h => keepsAi_insertEvent h
  refine withstands_bind <| withstands_mono
    (withstands_apartRun (s := { s.begun with working := v }) (fun _ h => h.elim) hc hinsert) ?_
  rintro _ c' _ ⟨hc', b, rfl, hb⟩
  exact ⟨hc', hb⟩

theorem keeps_sameAi (rules : SessionRules) (actor : Actor) : Keeps SameAi rules actor where
  refl := sameAi_refl
  trans := sameAi_trans
  context _ := preserves_statements (effects_onLedger _)
  mine := preserves_statements (effects_onLedger _)
  update _ _ := preserves_statements (effects_storedRun _)
  create _ _ fault s := ends_underFault (withstands_insertedEvent s) fault

theorem preserves_surface (rules : SessionRules) (surface : Surface) (call : LlmToolCall) :
    preserves (OnRows SameAi) (surface.dispatch rules call) := by
  cases surface with
  | event ctx => exact preserves_map (Keeps.onRows preserves_dispatch)
  | conversation actor =>
    intro s
    refine (keeps_sameAi rules actor).dispatchSession (fun _ _ _ ht => ht) fun ctx t ht => ?_
    exact ends_map <| ends_mono (Keeps.onRows preserves_dispatch t)
      (fun _ _ hu => sameAi_trans ht hu) fun _ _ hu => sameAi_trans ht hu

end sessions

section starting
variable {input : TurnInput} {s : Rows}

/-- The second connection's rows are as they were. -/
def SameApart (s t : Rows) : Prop := t.apart = s.apart

theorem sameApart_trans {s t u : Rows} (h : SameApart s t) (h' : SameApart t u) : SameApart s u :=
  h'.trans h

theorem effects_balance (scope : Scope) (draw : Draw) :
    Effects SameApart (onOwn RowsLock.billing (aiBalanceOf scope draw) : RowsProgram ℤ) := by
  have hreads : Effects (fun b b' : BillingDb => b' = b) (aiBalanceOf scope draw) :=
    effects_map (effects_of_silent (writes_resolveScope scope draw)) _
  refine effects_bind (effects_run_part apartPart _ (fun w hw t => hw t.apart) hreads) fun _ => trivial

theorem effects_bestOf (draw : Draw) (es : List MyEvent) (best : Option (ℕ × ℤ)) :
    Effects SameApart (bestOf draw es best) := by
  induction es generalizing best with
  | nil => trivial
  | cons e rest ih =>
    unfold bestOf
    split_ifs
    · exact effects_bind (effects_balance _ draw) fun _ => ih _
    · exact ih best

theorem effects_findMyEvents (joinedAt : LedgerState.EventMember → ℕ) (userId : ℕ) :
    Effects SameApart (findMyEvents joinedAt userId) :=
  effects_bind (effects_modify _ fun _ => rfl) fun _ => effects_bind (fun _ => trivial) fun _ =>
    effects_bind (effects_modify _ fun _ => rfl) fun _ => trivial

theorem wp_ensureBillingAccount {I : BillingDb → Prop} {b : BillingDb} (userId : ℕ) (draw : Draw) :
    wp I (ensureBillingAccount userId draw) (fun a b' => FreshAccount b userId draw ∧
      a = ensuredAccount b userId draw ∧ b' = ensured b userId draw) b := by
  refine wp_query_bind ?_
  unfold FreshAccount ensuredAccount ensured
  cases hfound : accountOf b userId with
  | some a => exact ⟨fun h => (by cases h), rfl, rfl⟩
  | none => exact wp_accept_bind fun hfresh => ⟨fun _ => hfresh, rfl, rfl⟩

/-- An event, or an account. -/
def Single (scope : Scope) : Prop :=
  (∃ e, scope = scopeOf e) ∨ ∃ a, scope = { accountId := some a }

/-- A scope has been chosen; at most an account has been made for it. -/
structure Chosen (s : Rows) (scope : Scope) (t : Rows) : Prop where
  ledger : t.apart.aiCreditLedger = s.apart.aiCreditLedger
  balance : scopeBalance t.apart .ai scope = scopeBalance s.apart .ai scope
  single : Single scope

theorem chosen_ensured {userId : ℕ} {draw : Draw} {scope : Scope} {t : Rows}
    (hfresh : FreshAccount s.apart userId draw) (ht : t.apart = ensured s.apart userId draw)
    (hscope : Single scope) : Chosen s scope t := by
  refine ⟨?_, ?_, hscope⟩
  · rw [ht, aiCreditLedger_ensured]
  · rw [ht]
    rcases hscope with ⟨e, rfl⟩ | ⟨a, rfl⟩
    · exact eventBalance_ensured hfresh e
    · unfold scopeBalance creditBalance
      rw [ensured_movements]
      rfl

def SameLedger (s t : Rows) : Prop := t.apart.aiCreditLedger = s.apart.aiCreditLedger

theorem withstands_reads {ρ υ : Type} {p : RowsProgram ρ} {f : ρ → RowsProgram υ}
    {Q : υ → Rows → Rows → Prop} {c t : Rows} (hp : Effects SameApart p) (hc : SameApart s c)
    (ht : SameApart s t)
    (h : ∀ r c' t', SameApart s c' → SameApart s t' → withstands (SameApart s) (f r) Q c' t') :
    withstands (SameApart s) (p >>= f) Q c t :=
  withstands_bind <| withstands_mono
    (withstands_of_effects (R := SameApart) sameApart_trans hp hc ht)
    fun r c' t' hr => h r c' t' hr.1 hr.2

/-- What follows once the user has an account only reads. -/
theorem withstands_search (listMyEvents : Option (RowsProgram (List MyEvent))) (draw : Draw)
    (accountId : ℕ) (hmine : ∀ p, listMyEvents = some p → Effects SameApart p) :
    withstands (SameApart s) (do
      let accountBalance ← onOwn .billing (aiBalanceOf { accountId := some accountId } draw)
      if accountBalance > 0 then return { accountId := some accountId }
      else match listMyEvents with
        | none => return { accountId := some accountId }
        | some listMyEvents => do
          let mine ← listMyEvents
          match ← bestOf draw mine none with
          | some best => return scopeOf best.1
          | none => return { accountId := some accountId })
      (fun scope c t => SameApart s c ∧ SameApart s t ∧ Single scope) s s := by
  refine withstands_reads (effects_balance _ draw) rfl rfl fun balance c t hc ht => ?_
  have haccount : Single { accountId := some accountId } := .inr ⟨accountId, rfl⟩
  split_ifs
  · exact ⟨hc, ht, haccount⟩
  · cases listMyEvents with
    | none => exact ⟨hc, ht, haccount⟩
    | some p =>
      refine withstands_reads (hmine p rfl) hc ht fun mine c t hc ht =>
        withstands_reads (effects_bestOf draw mine none) hc ht fun best c t hc ht => ?_
      cases best with
      | none => exact ⟨hc, ht, haccount⟩
      | some best => exact ⟨hc, ht, .inl ⟨best.1, rfl⟩⟩

theorem withstands_resolveCreditScope (rules : SessionRules) (surface : Surface) (eventId : Option ℕ)
    (userId : ℕ) (draw : Draw) :
    withstands (SameLedger s)
      (resolveCreditScope eventId (some userId) (surface.listMyEvents rules) draw)
      (fun scope c t => SameLedger s c ∧ Chosen s scope t) s s := by
  cases eventId with
  | some e => exact ⟨rfl, rfl, rfl, .inl ⟨e, rfl⟩⟩
  | none =>
    have hmine : ∀ p, surface.listMyEvents rules = some p → Effects SameApart p := by
      intro p hp
      cases surface with
      | event ctx => cases hp
      | conversation actor =>
        cases hp
        exact effects_findMyEvents _ _
    refine withstands_bind <| withstands_onOwn (I := fun _ => False) (fun _ h => h.elim) rfl
      (wp_mono (wp_ensureBillingAccount userId draw) ?_)
    rintro _ _ ⟨hfresh, rfl, rfl⟩
    have hledger : ∀ t, SameApart { s with apart := ensured s.apart userId draw } t →
        SameLedger s t := fun t ht => (congrArg BillingDb.aiCreditLedger ht).trans aiCreditLedger_ensured
    refine withstands_weaken (withstands_mono (withstands_search _ draw _ hmine) ?_) hledger
    rintro scope c t ⟨hc, ht, hscope⟩
    exact ⟨hledger c hc, chosen_ensured hfresh ht hscope⟩

theorem wp_reserveAiCredit {I : BillingDb → Prop} (b : BillingDb) (scope : Scope) (key : String)
    (draw : Draw) : wp I (reserveAiCredit scope key draw) (fun r b' =>
      (r.ok = true ∧ b' = b.insertCredit .ai (reserveRow b scope 1 key)) ∨
        (r.ok = false ∧ b' = b)) b := by
  have hexec := exec_reserveFrom .ai scope 1 key draw b b
  have hfree := @commitFree_reserveFrom draw .ai scope 1 key
  unfold reserveAiCredit
  split_ifs at hexec with hbroke
  · exact wp_of_ensures (ensures_of_exec hfree hexec (.inr ⟨rfl, rfl⟩))
  · exact wp_of_ensures (ensures_of_exec hfree hexec (.inl ⟨rfl, rfl⟩))

/-- The one row of the reservation is all that a turn has added to the ledger when it begins. -/
structure Begun (key : String) (s : Rows) (scope : Scope) (u : Rows) : Prop where
  reserved : ∃ t, Chosen s scope t ∧
    u.apart = t.apart.insertCredit .ai (reserveRow t.apart scope 1 key)

theorem withstands_beginTurn (rules : SessionRules) (surface : Surface) (eventId : Option ℕ)
    (userId : ℕ) (key : String) (draw : Draw) :
    withstands (SameLedger s)
      (beginTurn eventId (some userId) (surface.listMyEvents rules) key draw)
      (fun scope _ u => Begun key s scope u) s s := by
  refine withstands_bind <| withstands_mono
    (withstands_resolveCreditScope rules surface eventId userId draw) ?_
  rintro scope c t ⟨hc, ht⟩
  refine withstands_bind <| withstands_onOwn (I := fun _ => False) (fun _ h => h.elim) hc
    (wp_mono (wp_reserveAiCredit t.apart scope key draw) ?_)
  rintro r _ (⟨hok, rfl⟩ | ⟨hok, rfl⟩)
  · rw [hok]
    exact ⟨t, ht, rfl⟩
  · rw [hok]
    exact ht.ledger

theorem ends_start (rules : ChatRules) (input : TurnInput) (t : TurnState) :
    ends (start rules input)
      (fun scope u => Begun input.reserveKey t.session.rows scope u.session.rows ∧
        u.asked = t.asked)
      (fun _ u => SameLedger t.session.rows u.session.rows ∧ u.asked = t.asked) t := by
  refine ends_get_bind <| ends_on <| ends_on <| ends_mono
    (ends_underFault (withstands_beginTurn _ _ _ _ _ _) _) (fun scope u hu => ⟨hu, rfl⟩)
    fun e u hu => ⟨hu, rfl⟩

end starting

section settling
variable {input : TurnInput} {scope : Scope}

theorem commitFree_appendTo (l : Ledger) (kind : CreditKind) (amount : ℤ) (key : String)
    (reference : Option String) :
    StatementProgram.Program.CommitFree (appendTo l scope kind amount key reference) := by
  refine StatementProgram.Program.commitFree_of_writes (R := fun _ _ => True)
    (StatementProgram.Program.writes_bind ?_ fun _ =>
      StatementProgram.Program.writes_modify _ fun _ => trivial)
  unfold namedAccount
  cases scope.accountId with
  | some a => trivial
  | none =>
    cases scope.eventId with
    | none => trivial
    | some e => exact writes_owningAccountId e

/-- A row of the ledger that names who pays for the scope. -/
def ledgerRow (b : BillingDb) (scope : Scope) (kind : CreditKind) (amount : ℤ) (key : String)
    (reference : Option String) : CreditRow :=
  creditRow scope (debitedAccount b scope) kind amount key reference

theorem exec_appendTo (l : Ledger) (kind : CreditKind) (amount : ℤ) (key : String)
    (reference : Option String) (c v : BillingDb) :
    exec (appendTo l scope kind amount key reference) c v =
      .ok ((), c, v.insertCredit l (ledgerRow v scope kind amount key reference)) := by
  unfold appendTo
  rw [StatementProgram.Program.exec_bind, exec_namedAccount]
  rfl

/-- A write of the ledger that the database does not fail. -/
theorem creditCall_append (scope : Scope) (which : CreditCall) (h : input.fails which = none) (kind : CreditKind)
    (amount : ℤ) (key : String) (reference : Option String) (t : TurnState) :
    creditCall input which (onOwn .billing (appendTo .ai scope kind amount key reference)) t =
      (.ok (), { t with session := { t.session with rows := { t.session.rows with
        apart := t.session.rows.apart.insertCredit .ai
          (ledgerRow t.session.rows.apart scope kind amount key reference) } } }) := by
  have hexec : exec (onOwn RowsLock.billing (appendTo .ai scope kind amount key reference))
      t.session.rows t.session.rows = .ok ((), _, _) :=
    exec_onOwn RowsLock.billing (commitFree_appendTo .ai kind amount key reference)
      (exec_appendTo .ai kind amount key reference _ _)
  unfold creditCall
  rw [h]
  have hrows := statements_of_exec hexec
  exact on_of_ok (@on_of_ok _ _ _ _ _ _ _ rowsPart id _ _ hrows)

end settling

section ledger
variable {key : String} {s u w : Rows} {scope : Scope}

/-- The two rows of a turn: what was reserved, and what became of it. -/
def turnRows (scope : Scope) (account : Option ℕ) (key : String) (answered : Prop)
    [Decidable answered] : List CreditRow :=
  [creditRow scope account .reserve (-1) key none,
    if answered then creditRow scope account .commit 0 ("commit:" ++ key) (some key)
    else creditRow scope account .refund 1 ("refund:" ++ key) (some key)]

/-- The keys of a turn are new to the ledger, as they hold a random UUID. -/
structure FreshKeys (key : String) (s : Rows) : Prop where
  reserve : s.apart.aiCreditLedger.has key = false
  commit : s.apart.aiCreditLedger.has ("commit:" ++ key) = false
  refund : s.apart.aiCreditLedger.has ("refund:" ++ key) = false

theorem payer_kept (hbegun : Begun key s scope u) (hfresh : FreshKeys key s) (hkept : SameAi u w) :
    ∃ t, Chosen s scope t ∧ debitedAccount w.apart scope = debitedAccount t.apart scope ∧
      w.apart.aiCreditLedger.rows =
        s.apart.aiCreditLedger.rows ++ [reserveRow t.apart scope 1 key] := by
  obtain ⟨t, ht, hu⟩ := hbegun.reserved
  have hfree : t.apart.aiCreditLedger.has key = false := by
    rw [ht.ledger]
    exact hfresh.reserve
  have hrows : u.apart.aiCreditLedger.rows =
      t.apart.aiCreditLedger.rows ++ [reserveRow t.apart scope 1 key] := by
    rw [hu]
    exact Table.insertNew_rows hfree
  refine ⟨t, ht, ?_, ?_⟩
  · have hsame : debitedAccount u.apart scope = debitedAccount t.apart scope := by
      rw [hu]
      exact debitedAccount_congr scope (t.apart.insertCredit_events .ai _)
        (t.apart.insertCredit_accounts .ai _)
    rw [← hsame]
    rcases ht.single with ⟨e, rfl⟩ | ⟨a, rfl⟩
    · refine hkept.payer e ⟨(reserveRow t.apart (scopeOf e) 1 key).toMovement, ?_, rfl⟩
      refine List.mem_map_of_mem ?_
      rw [BillingDb.creditLedger, hrows]
      exact List.mem_append_right _ List.mem_cons_self
    · rfl
  · rw [hkept.ledger, hrows, ht.ledger]

theorem commit_ne (key : String) : "commit:" ++ key ≠ key := by
  intro h
  have := congrArg String.length h
  simp at this

theorem refund_ne (key : String) : "refund:" ++ key ≠ key := by
  intro h
  have := congrArg String.length h
  simp at this

/-- What a turn has cost the scope that was charged. -/
structure Settled (key : String) (s : Rows) (scope : Scope) (answered : Prop) [Decidable answered]
    (t : Rows) : Prop where
  rows : ∃ account, t.apart.aiCreditLedger.rows =
    s.apart.aiCreditLedger.rows ++ turnRows scope account key answered
  balance : scopeBalance t.apart .ai scope =
    scopeBalance s.apart .ai scope - if answered then 1 else 0

theorem resolved_eq_debited {db : BillingDb} (h : Single scope) :
    resolvedAccount db scope = debitedAccount db scope := by
  rcases h with ⟨e, rfl⟩ | ⟨a, rfl⟩
  · rfl
  · rfl

/-- A row on a scope is one that the balance of the scope counts. -/
theorem counts_creditRow {db : BillingDb} (h : Single scope) (kind : CreditKind) (amount : ℤ)
    (rowKey : String) (reference : Option String) :
    (creditRow scope (debitedAccount db scope) kind amount rowKey reference).toMovement.counts
      scope.eventId (debitedAccount db scope) = true := by
  rcases h with ⟨e, rfl⟩ | ⟨a, rfl⟩
  · simp [Movement.counts, creditRow, scopeOf]
  · simp [Movement.counts, creditRow, debitedAccount]

theorem settled_insert {kind : CreditKind} {amount : ℤ} {settleKey : String} {reference : Option String}
    {answered : Prop} [Decidable answered] (hbegun : Begun key s scope u) (hfresh : FreshKeys key s)
    (hkept : SameAi u w) (hfree : s.apart.aiCreditLedger.has settleKey = false)
    (hne : settleKey ≠ key) (hamount : amount = 1 - if answered then 1 else 0)
    (hrow : ∀ account, turnRows scope account key answered =
      [creditRow scope account .reserve (-1) key none,
        creditRow scope account kind amount settleKey reference])
    {v : Rows} (hv : v.apart = w.apart.insertCredit .ai
      (ledgerRow w.apart scope kind amount settleKey reference)) :
    Settled key s scope answered v := by
  obtain ⟨t, ht, hpayer, hrows⟩ := payer_kept hbegun hfresh hkept
  have hunused : w.apart.aiCreditLedger.has settleKey = false := by
    rw [Table.has_eq_false_iff] at hfree ⊢
    intro r hr
    rw [Table.mem_def, hrows] at hr
    rcases List.mem_append.mp hr with hold | hnew
    · exact hfree r hold
    · rw [List.mem_singleton.mp hnew]
      exact fun hkey => hne hkey.symm
  have hledger : v.apart.aiCreditLedger.rows = s.apart.aiCreditLedger.rows ++
      turnRows scope (debitedAccount t.apart scope) key answered := by
    rw [hv, hrow]
    have hinsert : (w.apart.insertCredit .ai
        (ledgerRow w.apart scope kind amount settleKey reference)).aiCreditLedger.rows =
        w.apart.aiCreditLedger.rows ++ [ledgerRow w.apart scope kind amount settleKey reference] :=
      Table.insertNew_rows hunused
    rw [hinsert, hrows, ledgerRow, hpayer, List.append_assoc]
    rfl
  refine ⟨⟨_, hledger⟩, ?_⟩
  have haccount : resolvedAccount v.apart scope = debitedAccount t.apart scope := by
    rw [resolved_eq_debited ht.single, hv, ← hpayer]
    exact debitedAccount_congr scope (w.apart.insertCredit_events .ai _)
      (w.apart.insertCredit_accounts .ai _)
  have hmovements : v.apart.movements .ai = t.apart.movements .ai ++
      [(creditRow scope (debitedAccount t.apart scope) .reserve (-1) key none).toMovement] ++
      [(creditRow scope (debitedAccount t.apart scope) kind amount settleKey reference).toMovement] := by
    have hold : t.apart.movements .ai =
        s.apart.aiCreditLedger.rows.map CreditRow.toMovement := by
      rw [← ht.ledger]
      rfl
    have hnew : v.apart.movements .ai = v.apart.aiCreditLedger.rows.map CreditRow.toMovement := rfl
    rw [hnew, hledger, hrow, hold, List.map_append, List.append_assoc]
    rfl
  have hstart : scopeBalance t.apart .ai scope =
      pooled (t.apart.movements .ai) scope.eventId (debitedAccount t.apart scope) := by
    rw [← resolved_eq_debited ht.single]
    rfl
  have hend : scopeBalance v.apart .ai scope = scopeBalance t.apart .ai scope + (-1) + amount := by
    rw [hstart]
    unfold scopeBalance creditBalance
    rw [haccount, hmovements, pooled_append, pooled_append, if_pos (counts_creditRow ht.single ..),
      if_pos (counts_creditRow ht.single ..)]
    rfl
  rw [hend, ht.balance, hamount]
  omega

end ledger
end Akabbo.TurnCredits
