import Akabbo.AgentSessions

/-!
# Where a turn's credit is taken

A turn is paid for by the event it is about, or by the account of the user and else by the event of
his that has most left. The place is chosen first and charged afterwards; a turn is refused exactly
when none of them has a credit.
-/
namespace Akabbo.CreditScopes
open Access RowTable StatementProgram ProgramParts CreditPool
open LedgerState (LedgerDb)
open BillingState Entitlement BillingWrites BillingRuns TwoConnections PaidCampaigns AgentSessions
open StatementProgram.Program (query refuse exec run CommitFree Writes exec_bind writes_query
  writes_bind writes_modify writes_accept commitFree_of_writes)

/-- `billing.aiBalance(scope)`. -/
def aiBalanceOf (scope : Scope) (draw : Draw) : BillingProgram ℤ :=
  ResolvedEntitlement.aiBalance <$> resolve scope draw

def writableStatuses : List EventStatus := [.draft, .active, .paused]

/-- An event replaces the best so far only with a larger balance. -/
def better (best : Option (ℕ × ℤ)) (eventId : ℕ) (balance : ℤ) : Option (ℕ × ℤ) :=
  if balance > 0 ∧ best.all (fun b => decide (balance > b.2)) then some (eventId, balance) else best

def bestOf (draw : Draw) : List MyEvent → Option (ℕ × ℤ) → RowsProgram (Option (ℕ × ℤ))
  | [], best => return best
  | e :: rest, best =>
    if e.status ∈ writableStatuses then do
      let balance ← onOwn .billing (aiBalanceOf (scopeOf e.id) draw)
      bestOf draw rest (better best e.id balance)
    else bestOf draw rest best

def resolveCreditScope (eventId userId : Option ℕ)
    (listMyEvents : Option (RowsProgram (List MyEvent))) (draw : Draw) : RowsProgram Scope :=
  match eventId, userId with
  | some eventId, _ => return scopeOf eventId
  | none, none => return {}
  | none, some userId => do
    let accountId ← onOwn .billing (ensureBillingAccount userId draw)
    let accountBalance ← onOwn .billing (aiBalanceOf { accountId := some accountId } draw)
    if accountBalance > 0 then return { accountId := some accountId }
    else match listMyEvents with
      | none => return { accountId := some accountId }
      | some listMyEvents => do
        let mine ← listMyEvents
        match ← bestOf draw mine none with
        | some best => return scopeOf best.1
        | none => return { accountId := some accountId }

def chatLocked : Refusal :=
  .forbidden ("Chat feature locked — 0 AI credits remaining. Purchase an AI Top-Up or upgrade " ++
    "your plan to continue using conversational features.")

/-- The reserve resolves the balance again, for the scope that was chosen. -/
def reserveTurn (scope : Scope) (reserveKey : String) (draw : Draw) : RowsProgram Scope := do
  let reserved ← onOwn .billing (reserveAiCredit scope reserveKey draw)
  refuse (if reserved.ok then none else some chatLocked)
  return scope

def beginTurn (eventId userId : Option ℕ) (listMyEvents : Option (RowsProgram (List MyEvent)))
    (reserveKey : String) (draw : Draw) : RowsProgram Scope := do
  let scope ← resolveCreditScope eventId userId listMyEvents draw
  reserveTurn scope reserveKey draw

section calls
variable {R : BillingDb → BillingDb → Prop} {c s : Rows} {draw : Draw}

theorem writes_owningAccount (scope : Scope) : Writes False R (resolveAccount scope) := by
  unfold resolveAccount
  cases scope.eventId with
  | none => trivial
  | some eventId => exact writes_owningAccountId eventId

theorem writes_resolveScope (scope : Scope) (draw : Draw) : Writes False R (resolve scope draw) := by
  refine writes_bind (writes_owningAccount scope) fun account => writes_bind ?_ fun grant =>
    writes_bind (writes_ledgerBalance _ _ _) fun sms =>
    writes_bind (writes_ledgerBalance _ _ _) fun ai => ?_
  · unfold activeGrant
    split_ifs
    · trivial
    · exact writes_query _
  · cases scope.eventId with
    | none => trivial
    | some eventId =>
      exact writes_bind (writes_query _) fun _ => writes_bind (writes_bind (writes_query _) fun _ =>
        writes_bind (writes_query _) fun _ => trivial) fun _ => trivial

theorem commitFree_aiBalanceOf (scope : Scope) : CommitFree (aiBalanceOf scope draw) :=
  commitFree_of_writes (R := fun _ _ => True) <|
    StatementProgram.Program.writes_map (writes_resolveScope scope draw) _

theorem exec_aiBalanceOf (scope : Scope) (c v : BillingDb) :
    exec (aiBalanceOf scope draw) c v = .ok (scopeBalance v .ai scope, c, v) := by
  unfold aiBalanceOf
  rw [map_eq_pure_bind, exec_bind, exec_resolve]
  rfl

/-- Reading a balance. -/
theorem exec_balance (scope : Scope) :
    exec (onOwn .billing (aiBalanceOf scope draw) : RowsProgram ℤ) c s =
      .ok (scopeBalance s.apart .ai scope, s, s) :=
  exec_onOwn RowsLock.billing (commitFree_aiBalanceOf scope) (exec_aiBalanceOf scope _ _)

/-- The account that a user has once it has been asked for, and the rows with it. -/
def ensuredAccount (db : BillingDb) (userId : ℕ) (draw : Draw) : ℕ :=
  (accountOf db userId).getD draw.accountId

def ensured (db : BillingDb) (userId : ℕ) (draw : Draw) : BillingDb :=
  if (accountOf db userId).isSome then db
  else db.insertAccount ⟨draw.accountId, userId, draw.now⟩

/-- The id drawn for a first account is new, as a random UUID is. -/
def FreshAccount (db : BillingDb) (userId : ℕ) (draw : Draw) : Prop :=
  accountOf db userId = none → accountViolation db ⟨draw.accountId, userId, draw.now⟩ = none

theorem commitFree_ensureBillingAccount (userId : ℕ) :
    CommitFree (ensureBillingAccount userId draw) := by
  refine commitFree_of_writes (R := fun _ _ => True) (writes_bind (writes_query _) fun found => ?_)
  cases found with
  | some a => trivial
  | none =>
    exact writes_bind (writes_accept (fun _ => trivial) _ fun _ _ => trivial) fun _ => trivial

theorem exec_ensureBillingAccount {userId : ℕ} {c v : BillingDb} (h : FreshAccount v userId draw) :
    exec (ensureBillingAccount userId draw) c v =
      .ok (ensuredAccount v userId draw, c, ensured v userId draw) := by
  unfold ensureBillingAccount ensuredAccount ensured findAccountId
  rw [StatementProgram.Program.exec_query_bind]
  cases hfound : accountOf v userId with
  | some a => rfl
  | none =>
    rw [exec_bind, insertAccount, StatementProgram.Program.exec_modifyChecked, h hfound]
    rfl

end calls

section balances
variable {db : BillingDb} {userId : ℕ} {draw : Draw}

/-- What a user's account holds; without one, nothing. -/
def accountBalance (db : BillingDb) (userId : ℕ) : ℤ :=
  scopeBalance db .ai { accountId := accountOf db userId }

def eventBalance (db : BillingDb) (eventId : ℕ) : ℤ := scopeBalance db .ai (scopeOf eventId)

theorem not_named_of_fresh {account : BillingAccount} (h : accountViolation db account = none)
    {m : Movement ℕ ℕ} (hm : m ∈ db.movements .ai) : m.accountId ≠ some account.id := by
  unfold accountViolation at h
  split_ifs at h with hid hnamed
  intro hname
  refine hnamed (List.any_eq_true.mpr ⟨.ai, by simp, List.any_eq_true.mpr ⟨m, hm, ?_⟩⟩)
  rw [hname]
  exact beq_self_eq_true _

theorem accounts_fresh {account : BillingAccount} (h : accountViolation db account = none) :
    db.accounts.has account.id = false := by
  unfold accountViolation at h
  split_ifs at h with hid
  exact Bool.eq_false_iff.mpr hid

theorem ensured_movements : (ensured db userId draw).movements .ai = db.movements .ai := by
  unfold ensured
  split_ifs
  · rfl
  · rfl

/-- A new account holds nothing. -/
theorem accountBalance_ensured (h : FreshAccount db userId draw) :
    scopeBalance (ensured db userId draw) .ai
        { accountId := some (ensuredAccount db userId draw) } = accountBalance db userId := by
  unfold accountBalance scopeBalance creditBalance resolvedAccount
  dsimp only
  rw [ensured_movements]
  unfold ensuredAccount
  cases hfound : accountOf db userId with
  | some a => rfl
  | none =>
    refine (sumWhere_eq_zero fun m hm hcounts => ?_).trans (held_none _).symm
    rw [counts_account, decide_eq_true_eq] at hcounts
    exact absurd hcounts (not_named_of_fresh (h hfound) hm)

theorem eventBalance_ensured (h : FreshAccount db userId draw) (eventId : ℕ) :
    eventBalance (ensured db userId draw) eventId = eventBalance db eventId := by
  unfold eventBalance scopeBalance creditBalance resolvedAccount scopeOf
  dsimp only
  rw [ensured_movements]
  unfold ensured
  split_ifs with hsome
  · rfl
  · have hnone : accountOf db userId = none := Option.not_isSome_iff_eq_none.mp hsome
    have hfresh := h hnone
    rcases owner_insertAccount (accounts_fresh hfresh) hnone eventId with hsame | ⟨hold, hnew⟩
    · rw [hsame]
    · rw [hold, hnew]
      refine sumWhere_congr fun m hm => ⟨?_, fun _ => rfl⟩
      have hne : m.counts none (some draw.accountId) = false := by
        rw [counts_account]
        exact decide_eq_false (not_named_of_fresh hfresh hm)
      rw [counts_event, counts_event, counts_none, hne]

end balances

section best
variable {s : Rows} {draw : Draw} {balance : ℕ → ℤ} {es : List MyEvent}

inductive Best (balance : ℕ → ℤ) (es : List MyEvent) : Option (ℕ × ℤ) → Prop
  | none (broke : ∀ e ∈ es, e.status ∈ writableStatuses → balance e.id ≤ 0) : Best balance es none
  | some (e : MyEvent) (mem : e ∈ es) (writable : e.status ∈ writableStatuses)
      (positive : 0 < balance e.id)
      (largest : ∀ e' ∈ es, e'.status ∈ writableStatuses → balance e'.id ≤ balance e.id) :
      Best balance es (some (e.id, balance e.id))

theorem best_skip {best : Option (ℕ × ℤ)} {e : MyEvent} (h : Best balance es best)
    (he : e.status ∉ writableStatuses) : Best balance (es ++ [e]) best := by
  have hold : ∀ e' ∈ es ++ [e], e'.status ∈ writableStatuses → e' ∈ es := by
    intro e' he' hw
    rcases List.mem_append.mp he' with hin | hlast
    · exact hin
    · rw [List.mem_singleton.mp hlast] at hw
      exact absurd hw he
  cases h with
  | none broke => exact .none fun e' he' hw => broke e' (hold e' he' hw) hw
  | some b mem writable positive largest =>
    exact .some b (List.mem_append_left _ mem) writable positive
      fun e' he' hw => largest e' (hold e' he' hw) hw

theorem best_better {best : Option (ℕ × ℤ)} {e : MyEvent} (h : Best balance es best)
    (he : e.status ∈ writableStatuses) :
    Best balance (es ++ [e]) (better best e.id (balance e.id)) := by
  have hmem : e ∈ es ++ [e] := List.mem_append_right _ List.mem_cons_self
  unfold better
  cases h with
  | none broke =>
    have hbroke : ∀ e' ∈ es ++ [e], e'.status ∈ writableStatuses → balance e'.id ≤ max 0 (balance e.id) := by
      intro e' he' hw
      rcases List.mem_append.mp he' with hin | hlast
      · exact le_max_of_le_left (broke e' hin hw)
      · rw [List.mem_singleton.mp hlast]
        exact le_max_right _ _
    by_cases hpos : 0 < balance e.id
    · rw [if_pos ⟨hpos, rfl⟩]
      refine .some e hmem he hpos fun e' he' hw => ?_
      have := hbroke e' he' hw
      omega
    · rw [if_neg fun hand => hpos hand.1]
      refine .none fun e' he' hw => ?_
      have := hbroke e' he' hw
      omega
  | some b mem writable positive largest =>
    have hlargest : ∀ e' ∈ es ++ [e], e'.status ∈ writableStatuses →
        balance e'.id ≤ max (balance b.id) (balance e.id) := by
      intro e' he' hw
      rcases List.mem_append.mp he' with hin | hlast
      · exact le_max_of_le_left (largest e' hin hw)
      · rw [List.mem_singleton.mp hlast]
        exact le_max_right _ _
    by_cases hmore : balance b.id < balance e.id
    · rw [if_pos ⟨by omega, decide_eq_true hmore⟩]
      refine .some e hmem he (by omega) fun e' he' hw => ?_
      have := hlargest e' he' hw
      omega
    · rw [if_neg fun hand => hmore (of_decide_eq_true hand.2)]
      refine .some b (List.mem_append_left _ mem) writable positive fun e' he' hw => ?_
      have := hlargest e' he' hw
      omega

theorem exec_bestOf (rest : List MyEvent) {best : Option (ℕ × ℤ)}
    (h : Best (eventBalance s.apart) es best) :
    ∃ r, exec (bestOf draw rest best) s s = .ok (r, s, s) ∧
      Best (eventBalance s.apart) (es ++ rest) r := by
  induction rest generalizing es best with
  | nil => exact ⟨best, rfl, by rwa [List.append_nil]⟩
  | cons e rest ih =>
    rw [List.append_cons]
    unfold bestOf
    split_ifs with hw
    · rw [exec_bind, exec_balance]
      exact ih (best_better h hw)
    · exact ih (best_skip h hw)

end best

section begin
variable {joinedAt : LedgerState.EventMember → ℕ} {userId : ℕ} {reserveKey : String} {draw : Draw} {s : Rows}

/-- What choosing a scope comes to: the rows with the account, and perhaps a snapshot begun. -/
structure Resolved (joinedAt : LedgerState.EventMember → ℕ) (userId : ℕ) (draw : Draw)
    (s : Rows) (scope : Scope) (s' : Rows) : Prop where
  stored : s'.stored = s.stored
  apart : s'.apart = ensured s.apart userId draw
  funded : 0 < accountBalance s.apart userId →
    scope = { accountId := some (ensuredAccount s.apart userId draw) }
  searched : accountBalance s.apart userId ≤ 0 →
    ∃ best, Best (eventBalance s.apart) (myEvents joinedAt s.stored userId) best ∧
      scope = match best with
        | some found => scopeOf found.1
        | none => { accountId := some (ensuredAccount s.apart userId draw) }

theorem exec_resolveCreditScope (h : FreshAccount s.apart userId draw) :
    ∃ scope s', exec (resolveCreditScope none (some userId) (some (findMyEvents joinedAt userId))
      draw) s s = .ok (scope, s', s') ∧ Resolved joinedAt userId draw s scope s' := by
  have hensure : exec (onOwn RowsLock.billing (ensureBillingAccount userId draw) : RowsProgram ℕ) s s =
      .ok (ensuredAccount s.apart userId draw,
        { s with apart := ensured s.apart userId draw },
        { s with apart := ensured s.apart userId draw }) :=
    exec_onOwn _ (commitFree_ensureBillingAccount userId) (exec_ensureBillingAccount h)
  unfold resolveCreditScope
  dsimp only
  rw [exec_bind, hensure]
  dsimp only
  rw [exec_bind, exec_balance]
  dsimp only
  rw [accountBalance_ensured h]
  split_ifs with hfunded
  · exact ⟨_, _, rfl, rfl, rfl, fun _ => rfl, fun hbroke => absurd hfunded (by omega)⟩
  · have hbalances : eventBalance (ensured s.apart userId draw) = eventBalance s.apart :=
      funext fun e => eventBalance_ensured h e
    have hstart : Best (eventBalance (ensured s.apart userId draw)) [] none :=
      .none fun e he => by cases he
    obtain ⟨best, hbest, hlargest⟩ := @exec_bestOf
      { s with apart := ensured s.apart userId draw, working := s.stored } draw []
      (myEvents joinedAt s.stored userId) none hstart
    rw [List.nil_append] at hlargest
    dsimp only at hlargest
    rw [hbalances] at hlargest
    have hmine : exec (findMyEvents joinedAt userId)
        { s with apart := ensured s.apart userId draw }
        { s with apart := ensured s.apart userId draw } =
      .ok (myEvents joinedAt s.stored userId,
        { s with apart := ensured s.apart userId draw, working := s.stored },
        { s with apart := ensured s.apart userId draw, working := s.stored }) := rfl
    rw [exec_bind, hmine]
    dsimp only
    rw [exec_bind, hbest]
    cases best with
    | none => exact ⟨_, _, rfl, rfl, rfl, fun hpos => absurd hpos hfunded, fun _ => ⟨_, hlargest, rfl⟩⟩
    | some found =>
      exact ⟨_, _, rfl, rfl, rfl, fun hpos => absurd hpos hfunded, fun _ => ⟨_, hlargest, rfl⟩⟩

theorem commitFree_reserveFrom (l : Ledger) (scope : Scope) (count : ℕ) (key : String) :
    CommitFree (reserveFrom l scope count key draw) := by
  refine commitFree_of_writes (R := fun _ _ => True)
    (writes_bind (writes_resolveScope scope draw) fun ent => ?_)
  dsimp only
  split_ifs
  · trivial
  · refine writes_bind (writes_bind ?_ fun _ => writes_modify _ fun _ => trivial) fun _ => trivial
    unfold namedAccount
    cases scope.accountId with
    | some a => trivial
    | none =>
      cases scope.eventId with
      | none => trivial
      | some e => exact writes_owningAccountId e

theorem debitedAccount_congr {db db' : BillingDb} (scope : Scope) (he : db'.events = db.events)
    (ha : db'.accounts = db.accounts) : debitedAccount db' scope = debitedAccount db scope := by
  unfold debitedAccount
  rw [owner_congr he ha]

/-- What the rows are once the reserve has been appended. -/
def reserved (s : Rows) (scope : Scope) (reserveKey : String) : Rows :=
  { s with apart := s.apart.insertCredit .ai (reserveRow s.apart scope 1 reserveKey) }

theorem exec_reserveTurn (scope : Scope) :
    exec (reserveTurn scope reserveKey draw) s s =
      if scopeBalance s.apart .ai scope < 1 then .error (chatLocked, s)
      else .ok (scope, reserved s scope reserveKey, reserved s scope reserveKey) := by
  have hreserve := exec_reserveFrom .ai scope 1 reserveKey draw s.apart s.apart
  rw [Nat.cast_one] at hreserve
  unfold reserveTurn reserveAiCredit
  rw [exec_bind]
  split_ifs with hbroke
  · rw [if_pos hbroke] at hreserve
    rw [exec_onOwn RowsLock.billing (commitFree_reserveFrom _ _ _ _) hreserve]
    rfl
  · rw [if_neg hbroke] at hreserve
    rw [exec_onOwn RowsLock.billing (commitFree_reserveFrom _ _ _ _) hreserve]
    rfl

theorem scopeBalance_resolved {scope : Scope} {s' : Rows} (h : FreshAccount s.apart userId draw)
    (hs : Resolved joinedAt userId draw s scope s') :
    (0 < accountBalance s.apart userId →
      scopeBalance s'.apart .ai scope = accountBalance s.apart userId) ∧
    (accountBalance s.apart userId ≤ 0 →
      (scopeBalance s'.apart .ai scope = accountBalance s.apart userId ∧
        ∀ e ∈ myEvents joinedAt s.stored userId, e.status ∈ writableStatuses →
          eventBalance s.apart e.id ≤ 0) ∨
      ∃ e ∈ myEvents joinedAt s.stored userId, e.status ∈ writableStatuses ∧
        0 < eventBalance s.apart e.id ∧ scope = scopeOf e.id ∧
        scopeBalance s'.apart .ai scope = eventBalance s.apart e.id ∧
        ∀ e' ∈ myEvents joinedAt s.stored userId, e'.status ∈ writableStatuses →
          eventBalance s.apart e'.id ≤ eventBalance s.apart e.id) := by
  rw [hs.apart]
  constructor
  · intro hfunded
    rw [hs.funded hfunded]
    exact accountBalance_ensured h
  · intro hbroke
    obtain ⟨best, hbest, hscope⟩ := hs.searched hbroke
    cases hbest with
    | none hnone =>
      refine .inl ⟨?_, hnone⟩
      rw [hscope]
      exact accountBalance_ensured h
    | some e mem writable positive largest =>
      refine .inr ⟨e, mem, writable, positive, hscope, ?_, largest⟩
      rw [hscope]
      exact eventBalance_ensured h e.id

end begin

section main
variable (joinedAt : LedgerState.EventMember → ℕ) (userId : ℕ) (reserveKey : String) (draw : Draw)
  (s : Rows)

/-- A turn of a conversation without an active event, as far as its credit. -/
def startTurn : Except Refusal Scope × Rows :=
  run (beginTurn none (some userId) (some (findMyEvents joinedAt userId)) reserveKey draw) s

/-- Neither the account nor an event that may be written has a credit. -/
def Broke : Prop :=
  accountBalance s.apart userId ≤ 0 ∧ ∀ e ∈ myEvents joinedAt s.stored userId,
    e.status ∈ writableStatuses → eventBalance s.apart e.id ≤ 0

/-- The scope that pays, and the one row that says so. -/
structure Charges (scope : Scope) (s' : Rows) : Prop where
  account : 0 < accountBalance s.apart userId → scope = { accountId := accountOf s.apart userId }
  event : accountBalance s.apart userId ≤ 0 →
    ∃ e ∈ myEvents joinedAt s.stored userId, e.status ∈ writableStatuses ∧ scope = scopeOf e.id ∧
      ∀ e' ∈ myEvents joinedAt s.stored userId, e'.status ∈ writableStatuses →
        eventBalance s.apart e'.id ≤ eventBalance s.apart e.id
  row : s'.apart.aiCreditLedger.rows = s.apart.aiCreditLedger.rows ++
    [creditRow scope (debitedAccount s'.apart scope) .reserve (-1) reserveKey none]

variable {userId draw s}

theorem accountOf_of_funded (h : 0 < accountBalance s.apart userId) :
    accountOf s.apart userId = some (ensuredAccount s.apart userId draw) := by
  unfold ensuredAccount
  cases hfound : accountOf s.apart userId with
  | some a => rfl
  | none =>
    unfold accountBalance at h
    rw [hfound] at h
    have hzero : scopeBalance s.apart .ai { accountId := none } = 0 := held_none _
    omega

theorem aiCreditLedger_ensured : (ensured s.apart userId draw).aiCreditLedger =
    s.apart.aiCreditLedger := by
  unfold ensured
  split_ifs
  · rfl
  · rfl

/-- A turn without an active event is refused exactly when the account and every event that may be
written are without a credit; otherwise the account pays if it can, and else an event that has
most. -/
theorem refused_iff_broke (hfresh : FreshAccount s.apart userId draw)
    (hkey : s.apart.aiCreditLedger.has reserveKey = false) :
    ((startTurn joinedAt userId reserveKey draw s).1 = .error chatLocked ↔
        Broke joinedAt userId s) ∧
      ∀ scope, (startTurn joinedAt userId reserveKey draw s).1 = .ok scope →
        Charges joinedAt userId reserveKey s scope (startTurn joinedAt userId reserveKey draw s).2 := by
  obtain ⟨scope, s', hresolve, hs⟩ := @exec_resolveCreditScope joinedAt userId draw s hfresh
  obtain ⟨hfunded, hbroke⟩ := scopeBalance_resolved hfresh hs
  have hrun : startTurn joinedAt userId reserveKey draw s =
      if scopeBalance s'.apart .ai scope < 1 then (.error chatLocked, s')
      else (.ok scope, reserved s' scope reserveKey) := by
    unfold startTurn beginTurn run
    rw [exec_bind, hresolve]
    dsimp only
    rw [exec_reserveTurn]
    split_ifs <;> rfl
  rw [hrun]
  split_ifs with hempty
  · refine ⟨iff_of_true rfl ?_, fun _ h => by cases h⟩
    rcases lt_or_ge 0 (accountBalance s.apart userId) with hpos | hneg
    · have := hfunded hpos
      omega
    · rcases hbroke hneg with ⟨-, hevents⟩ | ⟨e, -, -, hpos, -, hbalance, -⟩
      · exact ⟨hneg, hevents⟩
      · omega
  · constructor
    · refine iff_of_false (fun h => by cases h) fun ⟨haccount, hevents⟩ => ?_
      rcases hbroke haccount with ⟨hbalance, -⟩ | ⟨e, hmem, hw, hpos, -⟩
      · omega
      · have := hevents e hmem hw
        omega
    · rintro _ ⟨⟩
      refine ⟨fun hpos => ?_, fun hneg => ?_, ?_⟩
      · rw [accountOf_of_funded hpos]
        exact hs.funded hpos
      · rcases hbroke hneg with ⟨hbalance, -⟩ | ⟨e, hmem, hw, -, hscope, -, hlargest⟩
        · omega
        · exact ⟨e, hmem, hw, hscope, hlargest⟩
      · have hfree : s'.apart.aiCreditLedger.has reserveKey = false := by
          rw [hs.apart, aiCreditLedger_ensured]
          exact hkey
        have hrows : (reserved s' scope reserveKey).apart.aiCreditLedger.rows =
            s'.apart.aiCreditLedger.rows ++ [reserveRow s'.apart scope 1 reserveKey] :=
          Table.insertNew_rows hfree
        have hpayer : debitedAccount (reserved s' scope reserveKey).apart scope =
            debitedAccount s'.apart scope :=
          debitedAccount_congr scope (s'.apart.insertCredit_events .ai _)
            (s'.apart.insertCredit_accounts .ai _)
        dsimp only
        rw [hpayer, hrows, hs.apart, aiCreditLedger_ensured]
        rfl

end main

/-- User 5 has nothing on his account, and packs on a running event and on one that is paused. -/
def packs : Rows :=
  let db : LedgerDb := { LedgerDb.empty with
    events := (LedgerDb.empty.events.insertNew
        { id := 7, ownerUserId := 5, slug := "wedding", name := "Wedding", createdAt := 0 }).insertNew
      { id := 8, ownerUserId := 5, slug := "funeral", name := "Funeral", status := .paused
        createdAt := 1 }
    members := (LedgerDb.empty.members.insertNew ⟨7, 5, .owner, .active, none⟩).insertNew
      ⟨8, 5, .owner, .active, none⟩ }
  let credit (eventId : ℕ) (amount : ℤ) (key : String) : CreditRow :=
    { eventId := some eventId, accountId := none, amount := amount, kind := .grant
      idempotencyKey := key, reference := none }
  { stored := db
    working := db
    apart := ((((BillingDb.empty.insertAccount ⟨3, 5, 0⟩).insertEvent ⟨7, 5⟩).insertEvent
      ⟨8, 5⟩).insertCredit .ai (credit 7 2 "a")).insertCredit .ai (credit 8 4 "b") }

def draw : Draw := ⟨0, 4, 0, 0, "", 9, 0⟩

set_option maxRecDepth 8000 in
theorem refused_iff_broke_packs :
    Charges (fun _ => 0) 5 "ai-turn:1" packs (scopeOf 8)
      (startTurn (fun _ => 0) 5 "ai-turn:1" draw packs).2 :=
  (refused_iff_broke (fun _ => 0) "ai-turn:1" (fun h => by cases h) rfl).2 (scopeOf 8) rfl

end Akabbo.CreditScopes
