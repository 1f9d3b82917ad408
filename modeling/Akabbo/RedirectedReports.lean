import Akabbo.ReportLinks
import Akabbo.TracedTurns

/-!
# Reports that are not run again

After a report that is complete for its own filters, the two report tools are answered at once for
the rest of the turn. What such a call would have said, against what the model has been told.
-/
namespace Akabbo.RedirectedReports
open Access RowTable StatementProgram ProgramParts LedgerState Reports ClosedEvents
open CaptureRouting CaptureStaging TeamCalls
open AssistantTurns hiding step
open AgentSessions ConversationTurns TwoConnections PaidCampaigns AsyncRoutines TracedTurns
open LedgerReads (EventReport TopContributor)
open ContributorPages (listed run_generateReport groupFilter)
open ReportLinks (statusNamed)
open WeakestPreconditions
open StatementProgram.Program (query orThrow run exec)
open AsyncRoutines.Routine (ends ends_bind ends_mono ends_map ends_on asyncTry caught statements
  preserves)

/-- What JavaScript takes for true. -/
def truthy : ArgValue → Bool
  | .text value => value != ""
  | .number value => value != 0
  | .flag value => value
  | .null => false
  | .other _ => true

section arguments
variable (rules : CaptureRules) (arguments : List (String × ArgValue))

/-- `args.field ? String(args.field) : undefined`. -/
def textGiven (field : String) : Option String :=
  ((arguments.lookup field).filter truthy).map (shownText rules)

def textAt (field : String) : Option String :=
  (arguments.lookup field).bind fun value => match value with
    | .text value => some value
    | _ => none

def numberAt (field : String) : Option ℚ :=
  (arguments.lookup field).bind fun value => match value with
    | .number value => some value
    | _ => none

/-- What is none of the names falls to the last branch of the report, that of the payments. -/
def reportTypeAt : ReportType :=
  match (arguments.lookup "reportType").filter truthy with
  | none | some (.text "CONTRIBUTORS") => .contributors
  | some (.text "OUTSTANDING") => .outstanding
  | some (.text "PLEDGES") => .pledges
  | some (.text "BUDGET") => .budget
  | some _ => .payments

/-- The filters of `query_event_report`. Other texts of a status, a field or a direction select and
order as none do. -/
def reportFilters : ReportFilters where
  reportType := reportTypeAt arguments
  status := (textAt arguments "status").bind statusNamed
  groupName := textGiven rules arguments "groupName"
  minAmount := numberAt arguments "minAmount"
  maxAmount := numberAt arguments "maxAmount"
  searchTerm := textGiven rules arguments "searchTerm"
  sortField := (textAt arguments "sortField").map fun field =>
    if field = "name" then .name else .amount
  sortDirection := (textAt arguments "sortDirection").map fun direction =>
    if direction = "asc" then .asc else .desc
  -- a list is cut at the whole number below
  limit := (numberAt arguments "limit").map fun x => ⌊x⌋

end arguments

/-- A row or a figure. -/
inductive Fact
  | row (r : ReportPreviewRow)
  | records (count : ℕ)
  | amount (total : String)
  | candidates (found : Option (String × List (ℕ × String)))
  | figure (name value : String)
  | percent (covered : Option Float)
  | gap (biggest : Option (ℕ × String × String))
  | contributor (c : TopContributor)

def reportFacts (r : ReportResult) : List Fact :=
  [.records r.reportRef.totalRecords, .amount r.reportRef.totalAmount, .candidates r.ambiguousGroup] ++
    r.preview.map .row

def overviewFacts (r : EventReport) : List Fact :=
  [.figure "target" (r.target.getD ""), .percent r.percentCovered,
    .figure "totalCommitted" r.totalCommitted, .figure "totalReceived" r.totalReceived,
    .figure "totalOutstanding" r.totalOutstanding, .figure "peopleCount" (toString r.peopleCount),
    .figure "contributorCount" (toString r.contributorCount),
    .figure "outstandingContributorCount" (toString r.outstandingContributorCount),
    .figure "budgetTotal" r.budgetTotal, .figure "budgetAllocated" r.budgetAllocated,
    .figure "budgetUnfunded" r.budgetUnfunded, .gap r.biggestGap] ++ r.topContributors.map .contributor

/-- How reports are read and written, and which sums the database client hands back. -/
structure AnswerRules where
  report : ReportRules
  handed : ℕ → Bool
  reportText : List (String × ArgValue) → ReportResult → String
  overviewText : EventReport → String

def reportOf (answers : AnswerRules) (rules : CaptureRules) (ctx : OperationContext)
    (arguments : List (String × ArgValue)) (db : LedgerDb) : Except Refusal ReportResult :=
  (run (generateReport ctx answers.report (reportFilters rules arguments)) db).1

def overviewOf (answers : AnswerRules) (ctx : OperationContext) (db : LedgerDb) :
    Except Refusal EventReport := (run (BigintCasts.getEventReport answers.handed ctx 5) db).1

/-- The two report tools answer with these reports of the rows that are stored. -/
structure Answered (answers : AnswerRules) (rules : TurnRules) : Prop where
  report : ∀ ctx arguments s, rules.answer .queryEventReport ctx arguments s =
    (reportOf answers rules.toCaptureRules ctx arguments s.stored).map (answers.reportText arguments)
  overview : ∀ ctx arguments s, rules.answer .getEventOverview ctx arguments s =
    (overviewOf answers ctx s.stored).map answers.overviewText

/-- What an answer to a tool says. -/
def answerFacts (answers : AnswerRules) (rules : CaptureRules) (tool : ReadTool)
    (ctx : OperationContext) (arguments : List (String × ArgValue)) (db : LedgerDb) : List Fact :=
  match tool with
  | .queryEventReport => ((reportOf answers rules ctx arguments db).map reportFacts).toOption.getD []
  | .getEventOverview => ((overviewOf answers ctx db).map overviewFacts).toOption.getD []
  | _ => []

/-- Whose rows a call is about. -/
def contextNow (surface : Surface) (s : SessionState) : Option OperationContext :=
  match surface with
  | .event ctx => some ctx
  | .conversation actor => s.activeEventId.bind fun e =>
      (run (requireContext actor e) s.rows.stored).1.toOption.map fun event => ⟨actor, event⟩

def outcomeFacts (answers : AnswerRules) (rules : CaptureRules) (surface : Surface)
    (call : LlmToolCall) (s : SessionState) (o : SessionOutcome) : List Fact :=
  match o, tools.lookup call.name, contextNow surface s with
  | .tool (.answered _), some (.read tool), some ctx =>
    answerFacts answers rules tool ctx call.arguments s.rows.stored
  | _, _, _ => []

/-- Running the call would say nothing that the results before it have not. -/
def Redundant (answers : AnswerRules) (rules : ChatRules) (surface : Surface)
    (before : List ToolStep) (x : ToolStep) : Prop :=
  ∀ o s', surface.dispatch rules.toSessionRules x.call x.before = (.ok o, s') →
    ∀ f ∈ outcomeFacts answers rules.toCaptureRules surface x.call x.before o,
      ∃ y ∈ before, ∃ o', y.outcome = some o' ∧
        f ∈ outcomeFacts answers rules.toCaptureRules surface y.call y.before o'

/-- Whether a tool of the name may change rows or the active event. -/
def changes (name : String) : Bool :=
  match sessionTools.lookup name with
  | some .createEvent | some .updateEvent | some .switchEvent => true
  | some _ => false
  | none =>
    match tools.lookup name with
    | none | some (.read _) => false
    | some _ => true

def Unfailing (call : LlmToolCall) : Prop :=
  call.draw.fault = none ∧ ∀ service, call.draw.fails service = none

def ofContributors (filters : ReportFilters) : Prop :=
  filters.reportType ≠ .budget ∧ filters.reportType ≠ .payments

/-- A report of the first filters has what one of the others has: the filters are the same, or they
select the same contributors and the first report has room for all of them. -/
def Covers (db : LedgerDb) (e : ℕ) (rules : ReportRules) (filters filters' : ReportFilters) : Prop :=
  filters' = filters ∨ (ofContributors filters ∧ ofContributors filters' ∧
    filters'.status = filters.status ∧ filters'.groupName = filters.groupName ∧
    filters'.minAmount = filters.minAmount ∧ filters'.maxAmount = filters.maxAmount ∧
    filters'.searchTerm = filters.searchTerm ∧
    ((listed db e rules filters).length : ℤ) ≤ min (max (filters.limit.getD defaultLimit) 1) maxLimit)

/-- The call repeats one that was run without a failure of the database, and every call since then
has only read. -/
def Repeats (answers : AnswerRules) (rules : ChatRules) (surface : Surface)
    (before : List ToolStep) (x : ToolStep) : Prop :=
  ∃ done y since, before = done ++ y :: since ∧ y.outcome ≠ none ∧ Unfailing y.call ∧
    y.call.name = x.call.name ∧ (∀ z ∈ y :: since, changes z.call.name = false) ∧
    (x.call.name = "query_event_report" → ∀ ctx, contextNow surface x.before = some ctx →
      Covers x.before.rows.stored ctx.event.eventId answers.report
        (reportFilters rules.toCaptureRules y.call.arguments)
        (reportFilters rules.toCaptureRules x.call.arguments))

section reports
variable {answers : AnswerRules} {rules : CaptureRules} {ctx : OperationContext} {db : LedgerDb}

theorem mem_reportFacts {r : ReportResult} {f : Fact} : f ∈ reportFacts r ↔
    f = .records r.reportRef.totalRecords ∨ f = .amount r.reportRef.totalAmount ∨
      f = .candidates r.ambiguousGroup ∨ ∃ row ∈ r.preview, Fact.row row = f := by
  simp [reportFacts]

/-- Filters that select the same list the same people, in whatever order. -/
theorem listed_perm {rules : ReportRules} {filters filters' : ReportFilters} {e : ℕ}
    (hstatus : filters'.status = filters.status) (hgroup : filters'.groupName = filters.groupName)
    (hlow : filters'.minAmount = filters.minAmount) (hhigh : filters'.maxAmount = filters.maxAmount)
    (hsearch : filters'.searchTerm = filters.searchTerm) :
    (listed db e rules filters').Perm (listed db e rules filters) := by
  have hfilter : groupFilter db e rules filters' = groupFilter db e rules filters := by
    unfold groupFilter
    rw [hgroup]
  have hpassing : ContributorLists.passing db e rules filters' =
      ContributorLists.passing db e rules filters := by
    funext group
    unfold ContributorLists.passing ContributorLists.passes passesSearch passesAmounts
    rw [hstatus, hlow, hhigh, hsearch]
  unfold listed
  rw [hfilter]
  refine ContributorLists.contributorList_perm.trans ?_
  rw [hpassing]
  exact ContributorLists.contributorList_perm.symm

theorem reportFacts_of_covers {filters filters' : ReportFilters} {r' : ReportResult}
    (hcovers : Covers db ctx.event.eventId answers.report filters filters')
    (hrun : (run (generateReport ctx answers.report filters') db).1 = .ok r') :
    ∃ r, (run (generateReport ctx answers.report filters) db).1 = .ok r ∧
      ∀ f ∈ reportFacts r', f ∈ reportFacts r := by
  obtain rfl | ⟨⟨hbudget, hpayments⟩, ⟨hbudget', hpayments'⟩, hstatus, hgroup, hlow, hhigh, hsearch,
    hroom⟩ := hcovers
  · exact ⟨r', hrun, fun _ hf => hf⟩
  have hread : assertPermission ctx.event.role .eventRead = none := by
    cases hpermission : assertPermission ctx.event.role .eventRead with
    | none => rfl
    | some x =>
      unfold generateReport at hrun
      rw [hpermission] at hrun
      cases hrun
  obtain ⟨r, hok, hrecords, hamount, -, hpreview, hambiguous⟩ := run_generateReport hread hbudget hpayments
  obtain ⟨r'', hok', hrecords', hamount', -, hpreview', hambiguous'⟩ :=
    run_generateReport hread hbudget' hpayments'
  rw [hok'] at hrun
  cases hrun
  have hperm : (listed db ctx.event.eventId answers.report filters').Perm
      (listed db ctx.event.eventId answers.report filters) :=
    listed_perm hstatus hgroup hlow hhigh hsearch
  refine ⟨r, congrArg Prod.fst hok, fun f hf => ?_⟩
  rw [mem_reportFacts] at hf ⊢
  obtain hf | hf | hf | ⟨row, hrow, hf⟩ := hf
  · rw [hrecords', hperm.length_eq, ← hrecords] at hf
    exact .inl hf
  · rw [hamount', (hperm.map _).sum_eq, ← hamount] at hf
    exact .inr (.inl hf)
  · rw [hambiguous', ContributorPages.ambiguity, ContributorPages.resolution, hgroup,
      ← ContributorPages.resolution, ← ContributorPages.ambiguity, ← hambiguous] at hf
    exact .inr (.inr (.inl hf))
  · refine .inr (.inr (.inr ⟨row, ?_, hf⟩))
    rw [hpreview, List.take_of_length_le (by omega)]
    rw [hpreview', List.map_take] at hrow
    exact (hperm.map _).subset (List.mem_of_mem_take hrow)

end reports

section reading
variable {ρ : Type}

/-- The rows that are stored are the same, and so is the active event unless it has been given up. -/
structure Kept (s t : SessionState) : Prop where
  stored : t.rows.stored = s.rows.stored
  active : t.activeEventId = s.activeEventId ∨ t.activeEventId = none

theorem kept_refl (s : SessionState) : Kept s s := ⟨rfl, .inl rfl⟩

theorem kept_trans {s t u : SessionState} (h : Kept s t) (h' : Kept t u) : Kept s u := by
  refine ⟨h'.stored.trans h.stored, ?_⟩
  obtain hactive | hnone := h'.active
  · rw [hactive]
    exact h.active
  · exact .inr hnone

/-- A transaction that only reads, wherever the database may fail. -/
theorem ends_reads {p : LedgerProgram ρ} {Q : ρ → Prop} {s : Rows}
    (h : wp (fun _ => True) p (fun r db => db = s.stored ∧ Q r) s.stored)
    (fault : Option (ℕ × Refusal)) :
    ends (statements (underFault fault (onLedger p))) (fun r t => Q r ∧ t.stored = s.stored)
      (fun _ t => t.stored = s.stored) s := by
  refine ends_underFault (E := fun t : Rows => t.stored = s.stored) ?_ fault
  exact withstands_transaction_run (fun _ => rfl) rfl <| wp_mono h fun r db hr => ⟨hr.2, hr.1⟩

/-- A transaction that commits nothing before its end, and does not fail. -/
theorem statements_onLedger {p : LedgerProgram ρ} (hp : StatementProgram.Program.CommitFree p) {s : Rows}
    {r : ρ} (h : exec p s.stored s.stored = .ok (r, s.stored, s.stored)) :
    ∃ t, statements (onLedger p) s = (.ok r, t) ∧ t.stored = s.stored := by
  have hexec : exec (openPart.run RowsLock.ledger p : RowsProgram ρ) s s.begun =
      .ok (r, s, s.begun) := exec_partRun openPart RowsLock.ledger hp h
  refine ⟨s.begun, Routine.statements_of_exec (?_ : exec _ _ _ = .ok (_, s.begun, _)), rfl⟩
  unfold onLedger transaction
  change exec (openPart.run RowsLock.ledger p >>= _) s s.begun = _
  rw [StatementProgram.Program.exec_bind, hexec]
  rfl

/-- The member's context in an event, as the rows have it. -/
def contextOf (actor : Actor) (e : ℕ) (db : LedgerDb) : Option EventContext :=
  (db.events.get? e).bind fun event => (db.members.find? fun m =>
    m.eventId == e && m.userId == actor.userId && m.status == .active).map fun m =>
      ⟨e, m.role, event.status⟩

theorem exec_requireContext (actor : Actor) (e : ℕ) (db : LedgerDb) :
    exec (requireContext actor e) db db = match contextOf actor e db with
      | some event => .ok (event, db, db)
      | none => .error (.forbidden "Not a member of this event", db) := by
  unfold requireContext resolveContext contextOf
  rw [StatementProgram.Program.exec_bind, StatementProgram.Program.exec_query_bind]
  cases db.events.get? e with
  | none => rfl
  | some event =>
    dsimp only [Option.bind_some]
    rw [StatementProgram.Program.exec_query_bind]
    cases db.members.find? fun m => m.eventId == e && m.userId == actor.userId && m.status == .active
      <;> rfl

theorem wp_requireContext (actor : Actor) (e : ℕ) (db : LedgerDb) :
    wp (fun _ => True) (requireContext actor e)
      (fun event db' => db' = db ∧ contextOf actor e db = some event) db := by
  unfold requireContext resolveContext contextOf
  refine wp_bind <| wp_query_bind ?_
  cases db.events.get? e with
  | none => exact wp_pure (wp_orThrow nofun)
  | some event => exact wp_query_bind <| wp_pure <| wp_orThrow fun context h => ⟨rfl, h⟩

theorem commitFree_requireContext (actor : Actor) (e : ℕ) :
    StatementProgram.Program.CommitFree (requireContext actor e) := by
  intro event
  cases event with
  | none => trivial
  | some event =>
    intro m
    cases m <;> trivial

theorem contextNow_conversation (actor : Actor) (s : SessionState) :
    contextNow (.conversation actor) s = s.activeEventId.bind fun e =>
      (contextOf actor e s.rows.stored).map fun event => ⟨actor, event⟩ := by
  change s.activeEventId.bind _ = _
  refine congrArg _ (funext fun e => ?_)
  unfold StatementProgram.Program.run
  rw [exec_requireContext]
  cases contextOf actor e s.rows.stored <;> rfl

variable {rules : SessionRules} {actor : Actor} {fails : SessionService → Option (ℕ × Refusal)}
variable {s : SessionState}

theorem ends_onRows {p : Routine Rows Refusal ρ} {Q : ρ → Rows → Prop} {E : Refusal → Rows → Prop}
    (h : ends p Q E s.rows) : ends (onRows p)
      (fun r t => t.activeEventId = s.activeEventId ∧ Q r t.rows)
      (fun e t => t.activeEventId = s.activeEventId ∧ E e t.rows) s :=
  ends_on <| ends_mono h (fun _ _ h => ⟨rfl, h⟩) fun _ _ h => ⟨rfl, h⟩

theorem ends_listMyEvents : ends (listMyEvents rules actor fails) (fun _ => Kept s)
    (fun _ => Kept s) s :=
  ends_mono (ends_onRows (ends_reads (Q := fun _ => True) (wp_query ⟨rfl, trivial⟩) _))
    (fun _ _ h => ⟨h.2.2, .inl h.1⟩) fun _ _ h => ⟨h.2, .inl h.1⟩

/-- The context of the active event; a failure gives the event up. -/
theorem ends_activeEventCtx : ends (activeEventCtx actor fails)
    (fun ctx t => Kept s t ∧ (ctx = contextNow (.conversation actor) s ∨ ctx = none))
    (fun _ => Kept s) s := by
  unfold activeEventCtx
  refine Routine.ends_get_bind ?_
  rw [contextNow_conversation]
  cases hactive : s.activeEventId with
  | none => exact ⟨kept_refl s, .inr rfl⟩
  | some e =>
    dsimp only
    refine Routine.ends_caught_bind <| ends_mono
      (ends_onRows (ends_reads (wp_requireContext actor e s.rows.stored) _)) ?_ ?_
    · rintro event t ⟨hsame, hevent, hstored⟩
      refine ⟨⟨hstored, .inl hsame⟩, .inl ?_⟩
      rw [Option.bind_some, hevent]
      rfl
    · rintro x t ⟨hsame, hstored⟩
      refine ends_bind <| Routine.ends_modify_bind ?_
      have hkept : Kept s { t with activeEventId := none } := ⟨hstored, .inr rfl⟩
      unfold setActiveEvent
      cases fails .setActiveEvent with
      | none => exact ⟨hkept, .inr rfl⟩
      | some x => exact hkept

end reading

section dispatching

/-- What is answered to a call that only reads is the answer of its tool to its context. -/
def AnsweredBy (rules : TurnRules) (ctx : Option OperationContext) (name : String)
    (arguments : List (String × ArgValue)) (db : LedgerDb) (o : ToolOutcome) : Prop :=
  ∀ content, o = .answered content → ∃ tool ctx' rows, tools.lookup name = some (.read tool) ∧
    ctx = some ctx' ∧ rows.stored = db ∧ rules.answer tool ctx' arguments rows = .ok content

theorem ends_readTool {rules : TurnRules} {call : TurnCall} {s : Rows}
    (hreads : ∀ tool, tools.lookup call.name = some tool → ∃ t, tool = .read t) :
    ends (AssistantTurns.dispatch rules call) (fun o t => t.stored = s.stored ∧
        AnsweredBy rules (some call.ctx) call.name call.arguments s.stored o)
      (fun _ t => t.stored = s.stored) s := by
  refine ends_dispatch ⟨rfl, nofun⟩ (fun _ _ h => ⟨h, nofun⟩) fun tool htool => ?_
  obtain ⟨tool, rfl⟩ := hreads tool htool
  refine ends_underFault (E := fun t : Rows => t.stored = s.stored) (withstands_query_bind rfl ?_) _
  cases hanswer : rules.answer tool call.ctx call.arguments s with
  | error e => exact (rfl : s.stored = s.stored)
  | ok content =>
    refine ⟨rfl, fun _ h => ?_⟩
    cases h
    exact ⟨tool, call.ctx, s, htool, rfl, rfl, hanswer⟩

/-- No tool of an event has the name of one of a session's own. -/
theorem lookup_tools_of_session {name : String} {tool : SessionTool}
    (h : sessionTools.lookup name = some tool) : tools.lookup name = none := by
  have hnone : ∀ x ∈ sessionTools, tools.lookup x.1 = none := by decide
  obtain ⟨before, after, hsplit, -⟩ := List.lookup_eq_some_iff.mp h
  exact hnone (name, tool) (hsplit ▸ List.mem_append_cons_self)

theorem lookup_report {name : String} (h : tools.lookup name = some (.read .queryEventReport)) :
    name = "query_event_report" := by
  have hnames : ∀ x ∈ tools, x.2 = .read .queryEventReport → x.1 = "query_event_report" := by decide
  obtain ⟨before, after, hsplit, -⟩ := List.lookup_eq_some_iff.mp h
  exact hnames (name, _) (hsplit ▸ List.mem_append_cons_self) rfl

theorem reads_of_changes {name : String} (h : changes name = false) (tool : Tool)
    (htool : tools.lookup name = some tool) : ∃ t, tool = .read t := by
  cases hsession : sessionTools.lookup name with
  | some own =>
    rw [lookup_tools_of_session hsession] at htool
    cases htool
  | none =>
    unfold changes at h
    rw [hsession, htool] at h
    cases tool with
    | read t => exact ⟨t, rfl⟩
    | _ => cases h

/-- What a call of a turn has been answered. -/
def SurfaceAnswer (rules : SessionRules) (surface : Surface) (call : LlmToolCall) (s : SessionState)
    (o : SessionOutcome) : Prop :=
  ∀ outcome, o = .tool outcome → AnsweredBy rules.toTurnRules (contextNow surface s) call.name
    call.arguments s.rows.stored outcome

theorem surfaceAnswer_own {rules : SessionRules} {surface : Surface} {call : LlmToolCall}
    {s : SessionState} {o : SessionOutcome} (h : IsOwn o) : SurfaceAnswer rules surface call s o := by
  rintro outcome rfl
  exact h.elim

theorem ends_sessionTool {rules : SessionRules} {actor : Actor} {call : SessionCall}
    {tool : SessionTool} {s : SessionState} (hname : sessionTools.lookup call.name = some tool)
    (h : changes call.name = false) :
    ends (sessionTool rules actor call tool) (fun o t => IsOwn o ∧ Kept s t) (fun _ => Kept s) s := by
  unfold changes at h
  rw [hname] at h
  cases tool with
  | createEvent | updateEvent | switchEvent => cases h
  | listMyEvents =>
    exact ends_map <| ends_mono ends_listMyEvents (fun _ _ h => ⟨trivial, h⟩) fun _ _ h => h
  | getActiveEvent =>
    refine ends_bind <| ends_mono ends_activeEventCtx ?_ fun _ _ h => h
    rintro (_ | ctx) t ⟨hkept, -⟩
    · exact ends_map <| ends_mono ends_listMyEvents (fun _ _ h => ⟨trivial, kept_trans hkept h⟩)
        fun _ _ h => kept_trans hkept h
    · exact ⟨trivial, hkept⟩
  | getBudgetRecommendation =>
    rw [sessionTool]
    split_ifs
    · exact ⟨trivial, kept_refl s⟩
    · refine ends_map ?_
      cases rules.recommend call.arguments with
      | ok content => exact ⟨trivial, kept_refl s⟩
      | error x => exact kept_refl s

theorem ends_surface {rules : SessionRules} {surface : Surface} {call : LlmToolCall}
    {s : SessionState} (h : changes call.name = false) :
    ends (surface.dispatch rules call) (fun o t => Kept s t ∧ SurfaceAnswer rules surface call s o)
      (fun _ => Kept s) s := by
  have htool (ctx : OperationContext) {t : SessionState} (ht : Kept s t)
      (hctx : contextNow surface s = some ctx) :
      ends (SessionOutcome.tool <$> onRows (AssistantTurns.dispatch rules.toTurnRules
        ⟨ctx, call.name, call.arguments, call.draw.toTurnDraw⟩))
        (fun o u => Kept s u ∧ SurfaceAnswer rules surface call s o) (fun _ => Kept s) t := by
    refine ends_map <| ends_mono (ends_onRows (ends_readTool (reads_of_changes h))) ?_ ?_
    · rintro o u ⟨hactive, hstored, hanswer⟩
      refine ⟨kept_trans ht ⟨hstored, .inl hactive⟩, ?_⟩
      rintro outcome ⟨⟩
      rw [hctx, ← ht.stored]
      exact hanswer
    · exact fun _ u hu => kept_trans ht ⟨hu.2, .inl hu.1⟩
  cases surface with
  | event ctx => exact htool ctx (kept_refl s) rfl
  | conversation actor =>
    refine Routine.ends_asyncTry ?_
    unfold sessionBranch
    cases hname : sessionTools.lookup call.name with
    | some tool =>
      refine ends_map <| ends_mono (ends_sessionTool hname h) ?_ ?_
      · exact fun o t ho => ⟨ho.2, surfaceAnswer_own ho.1⟩
      · exact fun e t ht => ⟨ht, surfaceAnswer_own trivial⟩
    | none =>
      refine ends_bind <| ends_mono ends_activeEventCtx ?_ ?_
      · rintro (_ | ctx) t ⟨ht, hctx⟩
        · exact ends_map <| ends_mono ends_listMyEvents
            (fun _ _ hu => ⟨kept_trans ht hu, surfaceAnswer_own trivial⟩)
            fun _ _ hu => ⟨kept_trans ht hu, surfaceAnswer_own trivial⟩
        · exact htool ctx ht (hctx.resolve_right nofun).symm
      · exact fun e t ht => ⟨ht, surfaceAnswer_own trivial⟩

theorem asyncTry_value {σ ε α : Type} {body : Routine σ ε (Returned σ ε α)} {handler : ε → α}
    {s t : σ} {a : α} (h : body s = (.ok (.value a), t)) : asyncTry body handler s = (.ok a, t) := by
  refine (Routine.bind_of_ok (b := .ok (.value a)) ?_).trans rfl
  unfold caught
  rw [h]

theorem asyncTry_promise {σ ε α : Type} {body : Routine σ ε (Returned σ ε α)} {handler : ε → α}
    {s t : σ} {p : Routine σ ε α} (h : body s = (.ok (.promise p), t)) :
    asyncTry body handler s = p t := by
  refine (Routine.bind_of_ok (b := .ok (.promise p)) ?_).trans rfl
  unfold caught
  rw [h]

/-- A tool that only reads, where the database does not fail. -/
theorem exec_query_bind {κ σ ε α ρ : Type} {q : σ → α} {f : α → Program κ σ ε ρ} {c v : σ} :
    exec (query q >>= f) c v = exec (f (q v)) c v := rfl

theorem dispatch_read {rules : TurnRules} {call : TurnCall} {tool : ReadTool} {s : Rows}
    {content : String} (hfault : call.draw.fault = none)
    (htool : tools.lookup call.name = some (.read tool))
    (hanswer : rules.answer tool call.ctx call.arguments s = .ok content) :
    AssistantTurns.dispatch rules call s = (.ok (.answered content), s) := by
  refine asyncTry_value ?_
  unfold branch
  rw [htool]
  refine Routine.map_of_ok ?_
  unfold AssistantTurns.runTool
  rw [hfault]
  refine Routine.statements_of_exec (?_ : exec _ _ _ = .ok (_, s, _))
  unfold toolProgram
  change exec ((query fun s => rules.answer tool call.ctx call.arguments s) >>= _) s s = _
  rw [exec_query_bind, hanswer]
  rfl

theorem activeEventCtx_ok {actor : Actor} {fails : SessionService → Option (ℕ × Refusal)}
    {s : SessionState} {ctx : OperationContext} (hfails : fails .requireContext = none)
    (hctx : contextNow (.conversation actor) s = some ctx) :
    ∃ t, activeEventCtx actor fails s = (.ok (some ctx), t) ∧ t.rows.stored = s.rows.stored := by
  rw [contextNow_conversation] at hctx
  obtain ⟨e, hactive, hcontext⟩ := Option.bind_eq_some_iff.mp hctx
  obtain ⟨event, hevent, rfl⟩ := Option.map_eq_some_iff.mp hcontext
  have hexec : exec (requireContext actor e) s.rows.stored s.rows.stored =
      .ok (event, s.rows.stored, s.rows.stored) := by
    rw [exec_requireContext, hevent]
  obtain ⟨t, hrun, hstored⟩ := statements_onLedger (commitFree_requireContext actor e) hexec
  refine ⟨⟨t, some e⟩, ?_, hstored⟩
  have hcall : (rowsCall fails .requireContext (onLedger (requireContext actor e)) :
      SessionRoutine EventContext) s = (.ok event, ⟨t, some e⟩) := by
    unfold rowsCall
    rw [hfails, ← hactive]
    exact Routine.on_of_ok hrun
  unfold activeEventCtx
  refine (Routine.bind_of_ok (p := Routine.get) (b := s) rfl).trans ?_
  rw [hactive]
  refine (Routine.bind_of_ok (b := .ok event) ?_).trans rfl
  unfold caught
  rw [hcall]

/-- A report tool that is run where the database does not fail. -/
theorem dispatch_answered {rules : SessionRules} {surface : Surface} {call : LlmToolCall}
    {s : SessionState} {ctx : OperationContext} {tool : ReadTool} {content : String}
    (hfine : Unfailing call) (htool : tools.lookup call.name = some (.read tool))
    (hctx : contextNow surface s = some ctx)
    (hanswer : ∀ rows : Rows, rows.stored = s.rows.stored →
      rules.answer tool ctx call.arguments rows = .ok content) :
    ∃ t, surface.dispatch rules call s = (.ok (.tool (.answered content)), t) := by
  have hrun (t : SessionState) (ht : t.rows.stored = s.rows.stored) :
      (SessionOutcome.tool <$> onRows (AssistantTurns.dispatch rules.toTurnRules
        ⟨ctx, call.name, call.arguments, call.draw.toTurnDraw⟩)) t =
        (.ok (.tool (.answered content)), t) :=
    Routine.map_of_ok <| Routine.on_of_ok <|
      dispatch_read hfine.1 htool (hanswer t.rows ht)
  cases surface with
  | event ctx' =>
    cases hctx
    exact ⟨s, hrun s rfl⟩
  | conversation actor =>
    obtain ⟨t, hactive, hstored⟩ := activeEventCtx_ok (hfine.2 .requireContext) hctx
    have hname : sessionTools.lookup call.name = none := by
      cases hsession : sessionTools.lookup call.name with
      | none => rfl
      | some own =>
        rw [lookup_tools_of_session hsession] at htool
        cases htool
    refine ⟨t, (asyncTry_promise (t := t) ?_).trans (hrun t hstored)⟩
    unfold sessionBranch
    rw [hname]
    exact (Routine.bind_of_ok hactive).trans rfl

end dispatching

section turns
variable {rules : ChatRules} {surface : Surface} {s₀ s : SessionState} {p : Progress}

/-- The last of the calls so far. -/
theorem traced_snoc {made : List ToolStep} {z : ToolStep}
    (h : Traced rules surface s₀ (made ++ [z]) s p) :
    ∃ p', Traced rules surface s₀ made z.before p' ∧
      (z.outcome = none ∧ s = z.before ∧ reportTools.contains z.call.name = true ∨
        ∃ o, z.outcome = some o ∧
          surface.dispatch rules.toSessionRules z.call z.before = (.ok o, s)) := by
  generalize hsteps : made ++ [z] = steps at h
  cases h with
  | start => simp at hsteps
  | redirected h call complete report =>
    obtain ⟨rfl, hz⟩ := List.append_inj' hsteps rfl
    obtain rfl := List.singleton_injective hz
    exact ⟨_, h, .inl ⟨rfl, rfl, report⟩⟩
  | ran h call run outcome =>
    obtain ⟨rfl, hz⟩ := List.append_inj' hsteps rfl
    obtain rfl := List.singleton_injective hz
    exact ⟨_, h, .inr ⟨_, rfl, outcome⟩⟩

theorem traced_before {done since : List ToolStep} {y : ToolStep}
    (h : Traced rules surface s₀ (done ++ y :: since) s p) :
    ∃ s' p', Traced rules surface s₀ (done ++ [y]) s' p' := by
  induction since using List.reverseRecOn generalizing s p with
  | nil => exact ⟨s, p, h⟩
  | append_singleton since z ih =>
    rw [← List.cons_append, ← List.append_assoc] at h
    obtain ⟨p', h', -⟩ := traced_snoc h
    exact ih h'

/-- Calls that only read keep the rows and the active event. -/
theorem kept_of_traced {done since : List ToolStep} {y : ToolStep}
    (h : Traced rules surface s₀ (done ++ y :: since) s p)
    (hreads : ∀ z ∈ y :: since, changes z.call.name = false) : Kept y.before s := by
  have hstep {made : List ToolStep} {z : ToolStep} {s : SessionState} {p : Progress}
      (h : Traced rules surface s₀ (made ++ [z]) s p) (hz : changes z.call.name = false) :
      Kept z.before s := by
    obtain ⟨p', -, ⟨-, rfl, -⟩ | ⟨o, -, hrun⟩⟩ := traced_snoc h
    · exact kept_refl _
    · exact (Routine.ends_ok (ends_surface hz) hrun).1
  induction since using List.reverseRecOn generalizing s p with
  | nil => exact hstep h (hreads y List.mem_cons_self)
  | append_singleton since z ih =>
    rw [← List.cons_append, ← List.append_assoc] at h
    have hlast := hstep h (hreads z (by simp))
    obtain ⟨p', h', -⟩ := traced_snoc h
    exact kept_trans (ih h' fun x hx => hreads x (by
      rw [← List.cons_append]
      exact List.mem_append_left _ hx)) hlast

/-- An active event that is found has been the same since. -/
theorem contextNow_of_kept {t : SessionState} {ctx : OperationContext} (h : Kept s t)
    (hctx : contextNow surface t = some ctx) : contextNow surface s = some ctx := by
  cases surface with
  | event ctx' => exact hctx
  | conversation actor =>
    rw [contextNow_conversation] at hctx ⊢
    obtain hactive | hnone := h.active
    · rwa [hactive, h.stored] at hctx
    · rw [hnone] at hctx
      cases hctx

theorem mem_outcomeFacts {answers : AnswerRules} {rules : CaptureRules} {call : LlmToolCall}
    {o : SessionOutcome} {f : Fact} : f ∈ outcomeFacts answers rules surface call s o ↔
      ∃ content tool ctx, o = .tool (.answered content) ∧
        tools.lookup call.name = some (.read tool) ∧ contextNow surface s = some ctx ∧
        f ∈ answerFacts answers rules tool ctx call.arguments s.rows.stored := by
  constructor
  · intro hf
    unfold outcomeFacts at hf
    split at hf
    · rename_i content tool ctx htool hctx
      exact ⟨content, tool, ctx, rfl, htool, hctx, hf⟩
    · cases hf
  · rintro ⟨content, tool, ctx, rfl, htool, hctx, hf⟩
    unfold outcomeFacts
    rw [htool, hctx]
    exact hf

/-- The answer to a repeated call says what the call would say now. -/
theorem answer_repeated {answers : AnswerRules} (hanswers : Answered answers rules.toTurnRules)
    {y x : LlmToolCall} {tool : ReadTool} {ctx : OperationContext} {db : LedgerDb} {f : Fact}
    (hreport : tool = .queryEventReport → Covers db ctx.event.eventId answers.report
      (reportFilters rules.toCaptureRules y.arguments) (reportFilters rules.toCaptureRules x.arguments))
    (hf : f ∈ answerFacts answers rules.toCaptureRules tool ctx x.arguments db) :
    f ∈ answerFacts answers rules.toCaptureRules tool ctx y.arguments db ∧
      ∃ content, ∀ rows : Rows, rows.stored = db →
        rules.answer tool ctx y.arguments rows = .ok content := by
  cases tool with
  | queryEventReport =>
    unfold answerFacts at hf ⊢
    dsimp only at hf ⊢
    cases hreported : reportOf answers rules.toCaptureRules ctx x.arguments db with
    | error e =>
      rw [hreported] at hf
      cases hf
    | ok r' =>
      rw [hreported] at hf
      obtain ⟨r, hok, hsaid⟩ := reportFacts_of_covers (hreport rfl) hreported
      have hok' : reportOf answers rules.toCaptureRules ctx y.arguments db = .ok r := hok
      rw [hok']
      refine ⟨hsaid f hf, answers.reportText y.arguments r, ?_⟩
      rintro rows rfl
      rw [hanswers.report, hok']
      rfl
  | getEventOverview =>
    refine ⟨hf, ?_⟩
    unfold answerFacts at hf
    dsimp only at hf
    cases hreported : overviewOf answers ctx db with
    | error e =>
      rw [hreported] at hf
      cases hf
    | ok r =>
      refine ⟨answers.overviewText r, ?_⟩
      rintro rows rfl
      rw [hanswers.overview, hreported]
      rfl
  | _ => cases hf

theorem redundant_of_repeats {answers : AnswerRules} (hanswers : Answered answers rules.toTurnRules)
    {before : List ToolStep} {x : ToolStep}
    (htraced : Traced rules surface s₀ (before ++ [x]) s p)
    (h : Repeats answers rules surface before x) : Redundant answers rules surface before x := by
  obtain ⟨done, y, since, rfl, hran, hfine, hname, hreads, hcovers⟩ := h
  obtain ⟨p₁, hbefore, -⟩ := traced_snoc htraced
  have hkept : Kept y.before x.before := kept_of_traced hbefore hreads
  obtain ⟨s₁, p₂, hy⟩ := traced_before hbefore
  obtain ⟨p₃, -, ⟨hnone, -, -⟩ | ⟨o', houtcome, hrun'⟩⟩ := traced_snoc hy
  · exact absurd hnone hran
  intro o s' hrun f hf
  obtain ⟨content, tool, ctx, rfl, htool, hctx, hf⟩ := mem_outcomeFacts.mp hf
  have hreport : tool = .queryEventReport → x.call.name = "query_event_report" := by
    rintro rfl
    exact lookup_report htool
  obtain ⟨hsaid, content', hanswer⟩ := answer_repeated hanswers
    (fun htool => hcovers (hreport htool) ctx hctx) hf
  rw [hkept.stored] at hsaid hanswer
  have hctx' := contextNow_of_kept hkept hctx
  obtain ⟨t, hdispatch⟩ := dispatch_answered hfine (hname ▸ htool) hctx' hanswer
  rw [hdispatch] at hrun'
  cases hrun'
  exact ⟨y, by simp, _, houtcome, mem_outcomeFacts.mpr
    ⟨content', tool, ctx, rfl, hname ▸ htool, hctx', hsaid⟩⟩

end turns

def plainAnswers : AnswerRules where
  report := ContributorStandings.plainRules
  handed _ := true
  reportText _ r := if r.preview.length ≥ r.reportRef.totalRecords then "\x7b\"isComplete\":true\x7d"
    else "\x7b\"isComplete\":false\x7d"
  overviewText r := r.totalReceived

def reportingRules : ChatRules where
  toSessionRules := { sessionRules with
    answer := fun tool ctx arguments s => match tool with
      | .queryEventReport => (reportOf plainAnswers sessionRules.toCaptureRules ctx arguments
          s.stored).map (plainAnswers.reportText arguments)
      | .getEventOverview => (overviewOf plainAnswers ctx s.stored).map plainAnswers.overviewText
      | _ => .ok "" }
  shown o := match o with
    | .tool (.answered content) => content
    | _ => ""
  isComplete content := content == "\x7b\"isComplete\":true\x7d"
  reportRef _ := none

/-- Ann and Ben, who have paid all they promised, at the wedding that user 5 is at. -/
def wedding : SessionState :=
  let db : LedgerDb := { CreditScopes.packs.stored with
    persons := ContributorLists.annAndBen.persons
    pledges := ContributorLists.annAndBen.pledges
    fulfillments := ContributorLists.annAndBen.fulfillments }
  ⟨{ CreditScopes.packs with
    stored := db
    working := db }, some 7⟩

def unpaidReport : LlmToolCall :=
  ⟨"call-1", "query_event_report", [("status", .text "unpaid")], { toTurnDraw := StagedTurns.turnDraw }⟩

def wholeReport : LlmToolCall :=
  ⟨"call-2", "query_event_report", [], { toTurnDraw := StagedTurns.turnDraw }⟩

/-- The model asks who has paid nothing, then for everybody, and answers. -/
def twoReports : TurnInput where
  surface := .conversation ⟨5, true⟩
  message := "Who has not paid, and who has?"
  history := []
  systemPrompt := ""
  complete step _ := .ok <| match step with
    | 1 => ⟨none, [unpaidReport]⟩
    | 2 => ⟨none, [wholeReport]⟩
    | _ => ⟨some "Nobody has paid.", []⟩
  recordLlmCall _ := none
  reserveKey := "ai-turn:1"
  draw := CreditScopes.draw
  fails _ := none

theorem answered_reportingRules : Answered plainAnswers reportingRules.toTurnRules :=
  ⟨fun _ _ _ => rfl, fun _ _ _ => rfl⟩

/-- The session once the credit of the turn is reserved. -/
def begun : SessionState := (start reportingRules twoReports ⟨wedding, [], []⟩).2.session

theorem stored_begun : begun.rows.stored = wedding.rows.stored := by rfl

/-- User 5 as the owner of the wedding. -/
def host : OperationContext := ⟨⟨5, true⟩, ⟨7, .owner, .active⟩⟩

theorem contextNow_begun : contextNow twoReports.surface begun = some host := by rfl

/-- Nobody has paid nothing. -/
theorem facts_unpaid : answerFacts plainAnswers reportingRules.toCaptureRules .queryEventReport host
    unpaidReport.arguments wedding.rows.stored = [.records 0, .amount "0", .candidates none] := by
  rfl

theorem facts_whole : Fact.records 2 ∈ answerFacts plainAnswers reportingRules.toCaptureRules
    .queryEventReport host wholeReport.arguments wedding.rows.stored := by
  refine List.mem_of_mem_head? ?_
  rfl

theorem answer_unpaid (rows : Rows) (h : rows.stored = wedding.rows.stored) :
    reportingRules.answer .queryEventReport host unpaidReport.arguments rows =
      .ok "\x7b\"isComplete\":true\x7d" := by
  rw [answered_reportingRules.report, h]
  rfl

theorem answer_whole (rows : Rows) (h : rows.stored = wedding.rows.stored) :
    reportingRules.answer .queryEventReport host wholeReport.arguments rows =
      .ok "\x7b\"isComplete\":true\x7d" := by
  rw [answered_reportingRules.report, h]
  rfl

def againReport : LlmToolCall := { wholeReport with id := "call-3" }

def byNameReport : LlmToolCall :=
  { wholeReport with id := "call-4", arguments := [("sortBy", .text "name")] }

/-- The model asks for everybody, for the same again, and for the same by name. -/
def oneReport : TurnInput :=
  { twoReports with complete := fun step _ => .ok <| match step with
      | 1 => ⟨none, [wholeReport]⟩
      | 2 => ⟨none, [againReport, byNameReport]⟩
      | _ => ⟨some "Ann and Ben have paid.", []⟩ }

end Akabbo.RedirectedReports
