import Akabbo.CommitOrder
import Akabbo.CreditInserts
import Akabbo.RunChecks

/-!
# Overlapping reservations

Reservations on one scope, out of either ledger, while their statements interleave. Each reads
the balance in one statement and spends it in another, and nothing holds the balance between.
-/
namespace Akabbo.ReserveRaces
open Access CreditPool RowTable StatementProgram ReadCommitted CommitOrder BillingState
open Entitlement BillingWrites BillingRuns CreditInserts
open StatementProgram.Program (query exec)

/-- One `reserve` or `reserveAiCredit`, by its ledger. -/
structure ReserveCall where
  ledger : Ledger
  count : ℕ
  key : String
  draw : Draw
  deriving DecidableEq, Repr

def ReserveCall.program (scope : Scope) (c : ReserveCall) : BillingProgram Reservation :=
  reserveFrom c.ledger scope c.count c.key c.draw

abbrev ReserveSystem := System BillingLock BillingDb Refusal Reservation

def system (scope : Scope) (db : BillingDb) (calls : List ReserveCall) : ReserveSystem :=
  System.begin db (calls.map (ReserveCall.program scope))

/-- What a ledger has been debited beyond the rows it began with. -/
def reservedSince (db v : BillingDb) (l : Ledger) : ℤ :=
  (((v.creditLedger l).rows.drop (db.creditLedger l).rows.length).map fun row => -row.amount).sum

/-- The row of a call that has returned ok. -/
def ReservedBy (calls : List ReserveCall) (order : List (ℕ × Reservation)) (l : Ledger)
    (row : CreditRow) : Prop :=
  ∃ t balance c, (t, ⟨true, balance⟩) ∈ order ∧ calls[t]? = some c ∧ c.ledger = l ∧
    row.idempotencyKey = c.key ∧ row.amount = -c.count

/-- Each row that a ledger has gained belongs to a call that returned ok, and for each call that
returned ok there is a row of its key. -/
structure Accounted (db : BillingDb) (calls : List ReserveCall) (v : BillingDb)
    (order : List (ℕ × Reservation)) : Prop where
  rows : ∀ l, ∃ new, (v.creditLedger l).rows = (db.creditLedger l).rows ++ new ∧
    ∀ row ∈ new, ReservedBy calls order l row
  recorded : ∀ t balance, (t, ⟨true, balance⟩) ∈ order →
    ∃ c, calls[t]? = some c ∧ (v.creditLedger c.ledger).has c.key = true

/-- No balance has become negative, and the calls that returned ok have reserved no more than there
was. -/
structure Kept (scope : Scope) (db : BillingDb) (calls : List ReserveCall) (v : BillingDb)
    (order : List (ℕ × Reservation)) : Prop where
  nonneg : ∀ l, 0 ≤ scopeBalance db l scope → 0 ≤ scopeBalance v l scope
  within : ∀ l, 0 ≤ scopeBalance db l scope → reservedSince db v l ≤ scopeBalance db l scope
  accounted : Accounted db calls v order

/-- A reading that the rows of other ledgers do not enter. -/
def Past (l : Ledger) (x : Reading BillingDb) : Prop :=
  ∀ db l' row, l' ≠ l → x.query (BillingDb.insertCredit db l' row) = x.query db

/-- What was read past the other ledger still reads the same. -/
def StillReads (l : Ledger) (rs : List (Reading BillingDb)) (v : BillingDb) : Prop :=
  ∀ x ∈ rs, Past l x → x.Current v

theorem StillReads.mono {l : Ledger} {rs rs' : List (Reading BillingDb)} {v : BillingDb}
    (h : StillReads l rs' v) (hsub : rs ⊆ rs') : StillReads l rs v :=
  fun x hx => h x (hsub hx)

/-- The row a call writes: of its count and key, counted for the scope, and with the balance it
was checked against. -/
structure Debits (scope : Scope) (c : ReserveCall) (rs : List (Reading BillingDb))
    (row : CreditRow) : Prop where
  key : row.idempotencyKey = c.key
  amount : row.amount = -c.count
  counted : scope ≠ {} → ∀ v,
    row.toMovement.counts scope.eventId (resolvedAccount v scope) = true
  checked : ∀ v, StillReads c.ledger rs v → c.count ≤ scopeBalance v c.ledger scope

inductive Applies (scope : Scope) (c : ReserveCall) : Option Reservation →
    List (Reading BillingDb) → (BillingDb → BillingDb) → Prop
  | refused {balance : ℤ} {rs : List (Reading BillingDb)} :
      Applies scope c (some ⟨false, balance⟩) rs id
  | reserved {balance : ℤ} {rs : List (Reading BillingDb)} {row : CreditRow}
      (h : Debits scope c rs row) :
      Applies scope c (some ⟨true, balance⟩) rs fun v => v.insertCredit c.ledger row

section walk
variable {P : Option Reservation → List (Reading BillingDb) → (BillingDb → BillingDb) → Prop}
  {rs : List (Reading BillingDb)} {d : Bool}

theorem readsOnly_owningAccountId (l : Ledger) (e : ℕ) :
    ReadsOnly (Past l) (owningAccountId e) := by
  refine fun event => ⟨fun db l' row _ => by simp only [db.insertCredit_events], ?_⟩
  cases event with
  | none => trivial
  | some event =>
    exact fun a => ⟨fun db l' row _ => by simp only [accountOf, db.insertCredit_accounts], trivial⟩

theorem readsOnly_resolveAccount (l : Ledger) (scope : Scope) :
    ReadsOnly (Past l) (resolveAccount scope) := by
  unfold resolveAccount
  cases scope.eventId with
  | none => trivial
  | some e => exact readsOnly_owningAccountId l e

theorem readsOnly_namedAccount (l : Ledger) (scope : Scope) :
    ReadsOnly (Past l) (namedAccount scope) := by
  unfold namedAccount
  cases scope.accountId with
  | some a => trivial
  | none =>
    cases scope.eventId with
    | none => trivial
    | some e => exact readsOnly_owningAccountId l e

theorem readsOnly_ledgerBalance (l : Ledger) (scope : Scope) (a : Option ℕ) :
    ReadsOnly (Past l) (ledgerBalance l scope a) := by
  unfold ledgerBalance
  split_ifs
  · trivial
  · refine fun _ => ⟨fun db l' row hne => ?_, trivial⟩
    simp only [creditBalance, BillingDb.movements, db.insertCredit_creditLedger, if_neg hne]

theorem readsOnly_activeGrant (l : Ledger) (tie : ℕ) (scope : Scope) (a : Option ℕ) :
    ReadsOnly (Past l) (activeGrant tie scope a) := by
  unfold activeGrant
  split_ifs
  · trivial
  · refine fun _ => ⟨fun db l' row _ => ?_, trivial⟩
    simp only [candidates, db.insertCredit_grants]

/-- The balances that resolving finds, as the readings behind them have it. -/
theorem everyCommit_resolve_bind {scope : Scope} {draw : Draw} {l : Ledger}
    {f : ResolvedEntitlement → BillingProgram Reservation}
    (h : ∀ ent rs', (∀ v, StillReads l rs' v → ent.balance l = scopeBalance v l scope) →
      EveryCommit (fun _ => True) P (f ent) d rs' id) :
    EveryCommit (fun _ => True) P (resolve scope draw >>= f) d rs id := by
  unfold resolve smsBalance aiBalance
  simp only [bind_assoc]
  refine everyCommit_reads_bind (readsOnly_resolveAccount l scope) fun a accounts hpast hexec => ?_
  refine everyCommit_reads_bind (readsOnly_activeGrant l draw.tie scope a) fun grant grants _ _ => ?_
  refine everyCommit_reads_bind (readsOnly_ledgerBalance .sms scope a) fun sms inSms hinSms hsms => ?_
  refine everyCommit_reads_bind (readsOnly_ledgerBalance .ai scope a) fun ai inAi hinAi hai => ?_
  have hbalance : ∀ contributors seats v,
      StillReads l (inAi ++ (inSms ++ (grants ++ (accounts ++ rs)))) v →
      (resolvedFrom grant sms ai contributors seats).balance l = scopeBalance v l scope := by
    intro contributors seats v hv
    have haccount := hexec v fun x hx => hv x (by simp [hx]) (hpast x hx)
    rw [exec_resolveAccount] at haccount
    simp only [Except.ok.injEq, Prod.mk.injEq, and_true] at haccount
    unfold scopeBalance
    rw [haccount]
    cases l with
    | sms =>
      have he := hsms v fun x hx => hv x (by simp [hx]) (hinSms x hx)
      rw [exec_ledgerBalance] at he
      change sms = _
      simpa using he.symm
    | ai =>
      have he := hai v fun x hx => hv x (by simp [hx]) (hinAi x hx)
      rw [exec_ledgerBalance] at he
      change ai = _
      simpa using he.symm
  cases scope.eventId with
  | none => exact h _ _ (hbalance 0 0)
  | some e =>
    -- what the counts find has no part in the balances
    refine everyCommit_query_bind fun s₁ _ => ?_
    refine everyCommit_query_bind fun s₂ _ => everyCommit_query_bind fun s₃ _ => ?_
    refine h _ _ fun v hv => hbalance _ _ v (hv.mono ?_)
    exact fun x hx => by simp [hx]

/-- The row that is appended names the account that the scope names, if it names one. -/
theorem everyCommit_appendTo_bind {l : Ledger} {scope : Scope} {kind : CreditKind} {amount : ℤ}
    {key : String} {f : Unit → BillingProgram Reservation}
    (h : ∀ a rs', (∀ i, scope.accountId = some i → a = some i) → rs ⊆ rs' →
      EveryCommit (fun _ => True) P (f ()) true rs'
        (fun v => v.insertCredit l (creditRow scope a kind amount key none))) :
    EveryCommit (fun _ => True) P (appendTo l scope kind amount key none >>= f) d rs id := by
  unfold appendTo
  rw [bind_assoc]
  cases hscope : scope.accountId with
  | some i =>
    have hnamed : namedAccount scope = pure (some i) := by
      unfold namedAccount
      rw [hscope]
    rw [hnamed, pure_bind]
    refine everyCommit_modify_bind fun s _ => h _ _ (fun j hj => ?_) fun x hx => by simp [hx]
    rw [hscope] at hj
    exact hj
  | none =>
    refine everyCommit_reads_bind (readsOnly_namedAccount l scope) fun a named _ _ => ?_
    refine everyCommit_modify_bind fun s _ => h a _ (fun j hj => ?_) fun x hx => by simp [hx]
    rw [hscope] at hj
    cases hj

theorem counts_creditRow {scope : Scope} (hscope : scope ≠ {}) {a : Option ℕ}
    (ha : ∀ i, scope.accountId = some i → a = some i) {kind : CreditKind} {amount : ℤ}
    {key : String} (v : BillingDb) :
    (creditRow scope a kind amount key none).toMovement.counts scope.eventId
      (resolvedAccount v scope) = true := by
  unfold Movement.counts resolvedAccount
  obtain ⟨e, i⟩ := scope
  cases e with
  | some e => simp [creditRow]
  | none =>
    cases i with
    | none => exact absurd rfl hscope
    | some i => simp [creditRow, ha i rfl]

/-- Every reservation applies nothing, or a row that its balance covered when it read it. -/
theorem everyCommit_reserve (scope : Scope) (c : ReserveCall) :
    EveryCommit (fun _ => True) (Applies scope c) (c.program scope) false [] id := by
  unfold ReserveCall.program reserveFrom
  refine everyCommit_resolve_bind (l := c.ledger) fun ent rs' hbalance => ?_
  dsimp only
  split_ifs with hshort
  · exact .refused
  · refine everyCommit_appendTo_bind fun a rs'' ha hsub => .reserved
      ⟨rfl, rfl, fun hscope => counts_creditRow hscope ha, fun v hv => ?_⟩
    rw [← hbalance v (hv.mono hsub)]
    exact not_lt.mp hshort

end walk

section runs
variable {scope : Scope} {db v : BillingDb} {calls : List ReserveCall}
  {order : List (ℕ × Reservation)}

theorem reservedBy_append {l : Ledger} {row : CreditRow} (h : ReservedBy calls order l row)
    (more : List (ℕ × Reservation)) : ReservedBy calls (order ++ more) l row := by
  obtain ⟨t, balance, c, hmem, hc⟩ := h
  exact ⟨t, balance, c, List.mem_append_left _ hmem, hc⟩

/-- What holds of the committed rows, with the calls that have returned. -/
structure Standing (scope : Scope) (db : BillingDb) (calls : List ReserveCall) (v : BillingDb)
    (order : List (ℕ × Reservation)) : Prop where
  owner : ∀ s, resolvedAccount v s = resolvedAccount db s
  nonneg : ∀ l, 0 ≤ scopeBalance db l scope → 0 ≤ scopeBalance v l scope
  spent : ∀ l, scopeBalance v l scope + reservedSince db v l = scopeBalance db l scope
  accounted : Accounted db calls v order

theorem standing_begin : Standing scope db calls db [] where
  owner _ := rfl
  nonneg _ h := h
  spent l := by simp [reservedSince]
  accounted :=
    { rows := fun l => ⟨[], by simp, fun _ h => absurd h List.not_mem_nil⟩
      recorded := fun _ _ h => absurd h List.not_mem_nil }

theorem Standing.kept (h : Standing scope db calls v order) : Kept scope db calls v order where
  nonneg := h.nonneg
  within l hl := by
    have hspent := h.spent l
    have hnow := h.nonneg l hl
    omega
  accounted := h.accounted

theorem standing_refused (h : Standing scope db calls v order) (t : ℕ) (balance : ℤ) :
    Standing scope db calls v (order ++ [(t, ⟨false, balance⟩)]) where
  owner := h.owner
  nonneg := h.nonneg
  spent := h.spent
  accounted :=
    { rows := fun l => by
        obtain ⟨new, hrows, hby⟩ := h.accounted.rows l
        exact ⟨new, hrows, fun row hrow => reservedBy_append (hby row hrow) _⟩
      recorded := fun t' balance' hmem => by
        rcases List.mem_append.mp hmem with hmem | hmem
        · exact h.accounted.recorded t' balance' hmem
        · simp at hmem }

theorem reservedSince_insert {l l' : Ledger} {row : CreditRow} {new : List CreditRow}
    (hfresh : (v.creditLedger l).has row.idempotencyKey = false)
    (hrows : (v.creditLedger l').rows = (db.creditLedger l').rows ++ new) :
    reservedSince db (v.insertCredit l row) l' =
      reservedSince db v l' + if l = l' then -row.amount else 0 := by
  unfold reservedSince
  rw [rows_insertCredit hfresh, hrows, List.append_assoc, List.drop_left, List.drop_left,
    List.map_append, List.sum_append]
  split_ifs <;> simp

theorem recorded_insert {t : ℕ} {c : ReserveCall} {row : CreditRow} {balance : ℤ}
    (h : Accounted db calls v order) (hc : calls[t]? = some c) (hkey : row.idempotencyKey = c.key)
    {t' : ℕ} {balance' : ℤ} (hmem : (t', ⟨true, balance'⟩) ∈ order ++ [(t, ⟨true, balance⟩)]) :
    ∃ c', calls[t']? = some c' ∧
      ((v.insertCredit c.ledger row).creditLedger c'.ledger).has c'.key = true := by
  rcases List.mem_append.mp hmem with hmem | hmem
  · obtain ⟨c', hc', hhas⟩ := h.recorded t' balance' hmem
    exact ⟨c', hc', by rw [has_insertCredit, hhas, Bool.true_or]⟩
  · obtain ⟨rfl, -⟩ := Prod.mk.inj (List.mem_singleton.mp hmem)
    exact ⟨c, hc, by rw [has_insertCredit, hkey]; simp⟩

/-- A row whose reading of the balance still holds. -/
theorem standing_reserved (h : Standing scope db calls v order) {t : ℕ} {c : ReserveCall}
    (hc : calls[t]? = some c) {rs : List (Reading BillingDb)} {row : CreditRow}
    (hrow : Debits scope c rs row) (hreads : StillReads c.ledger rs v) (balance : ℤ) :
    Standing scope db calls (v.insertCredit c.ledger row) (order ++ [(t, ⟨true, balance⟩)]) := by
  by_cases hkey : (v.creditLedger c.ledger).has row.idempotencyKey = true
  · have hrecorded (t' : ℕ) (balance' : ℤ)
        (hmem : (t', ⟨true, balance'⟩) ∈ order ++ [(t, ⟨true, balance⟩)]) :=
      recorded_insert h.accounted hc hrow.key hmem
    rw [insertCredit_of_has hkey] at hrecorded ⊢
    refine ⟨h.owner, h.nonneg, h.spent, fun l => ?_, hrecorded⟩
    obtain ⟨new, hrows, hby⟩ := h.accounted.rows l
    exact ⟨new, hrows, fun row hrow => reservedBy_append (hby row hrow) _⟩
  · have hfresh : (v.creditLedger c.ledger).has row.idempotencyKey = false := by simpa using hkey
    have hcovered := hrow.checked v hreads
    have hbalance : ∀ l, scopeBalance (v.insertCredit c.ledger row) l scope =
        scopeBalance v l scope - if c.ledger = l then (c.count : ℤ) else 0 := by
      intro l
      rw [scopeBalance_insertFresh hfresh]
      by_cases hl : c.ledger = l
      · by_cases hscope : scope = {}
        · -- a scope of nothing has no balance to take from
          subst hscope
          have hzero : scopeBalance v c.ledger {} = 0 := held_none _
          rw [hrow.amount, if_pos hl]
          split_ifs <;> omega
        · rw [if_pos ⟨hl, hrow.counted hscope v⟩, if_pos hl, hrow.amount]
          rfl
      · rw [if_neg hl, if_neg fun hboth => hl hboth.1]
        rfl
    refine ⟨fun s => ?_, fun l hl => ?_, fun l => ?_, fun l => ?_, fun t' balance' hmem =>
      recorded_insert h.accounted hc hrow.key hmem⟩
    · rw [resolvedAccount_insertCredit, h.owner]
    · have hnow := h.nonneg l hl
      rw [hbalance]
      split_ifs with hledger
      · subst hledger
        omega
      · omega
    · obtain ⟨new, hrows, -⟩ := h.accounted.rows l
      have hspent := h.spent l
      rw [hbalance, reservedSince_insert hfresh hrows, hrow.amount]
      split_ifs <;> omega
    · obtain ⟨new, hrows, hby⟩ := h.accounted.rows l
      refine ⟨new ++ if c.ledger = l then [row] else [], ?_, fun r hr => ?_⟩
      · rw [rows_insertCredit hfresh, hrows, List.append_assoc]
      · rcases List.mem_append.mp hr with hr | hr
        · exact reservedBy_append (hby r hr) _
        · split_ifs at hr with hl
          · obtain rfl := List.mem_singleton.mp hr
            exact ⟨t, balance, c, by simp, hc, hl, hrow.key, hrow.amount⟩
          · cases hr

/-- A call that has written its row commits it while it would still read the balance that it read. -/
def SpendsAsRead (calls : List ReserveCall) (sys : ReserveSystem) (m : Move) : Prop :=
  ∀ t c x r, calls[t]? = some c → Applied sys m t x r → x.dirty = true →
    StillReads c.ledger x.readings sys.committed

/-- However many reservations on a scope overlap, out of either ledger, and in whatever order their
statements run: where each commits as it read, no balance of the scope becomes negative, and what
those that returned ok have reserved is at most the balance before them. -/
theorem reservations_kept (scope : Scope) (db : BillingDb) (calls : List ReserveCall)
    (moves : List Move)
    (hreads : ∀ before m after, moves = before ++ m :: after →
      SpendsAsRead calls ((system scope db calls).run before) m) :
    ∀ before after, moves = before ++ after →
      Kept scope db calls ((system scope db calls).run before).committed
        (returned (system scope db calls) before) := by
  intro before after hmoves
  refine Standing.kept ?_
  refine run_order_invariant (P := Applies scope) (s := db) (I := Standing scope db calls)
    (C := fun sys m => SpendsAsRead calls sys m ∧ ∀ t x r, Applied sys m t x r → x.Faithful)
    (everyCommit_reserve scope) standing_begin ?_ before fun early m late he =>
      ⟨hreads early m (late ++ after) (by simp [hmoves, he]),
        fun _ _ _ happ => running_faithful early happ.slot⟩
  intro sys m t x r order c hstanding hm happ hc happlies
  have hspends := hm.1 t c x r hc happ
  have hclean := (hm.2 t x r happ).clean
  generalize x.pending = applied at happlies hclean ⊢
  cases happlies with
  | refused => exact standing_refused hstanding t _
  | @reserved balance _ row hrow =>
    have hdirty : x.dirty = true := by
      by_contra hnot
      have hsame : BillingDb.empty.insertCredit c.ledger row = BillingDb.empty :=
        congrFun (hclean (by simpa using hnot)) BillingDb.empty
      have hfresh : (BillingDb.empty.creditLedger c.ledger).has row.idempotencyKey = false := by
        cases c.ledger <;> rfl
      have hrows := congrArg (fun v => (v.creditLedger c.ledger).rows.length) hsame
      rw [rows_insertCredit hfresh, if_pos rfl, List.length_append, List.length_singleton] at hrows
      omega
    exact standing_reserved hstanding hc hrow (hspends hdirty) _

end runs

/-- Account 3 holds two messages. -/
def twoLeft : BillingDb :=
  BillingDb.empty.insertCredit .sms ⟨⟨none, some 3, 2⟩, .grant, "trial-sms:account:3", none⟩

def bothMessages (key : String) : ReserveCall :=
  ⟨.sms, 2, key, ⟨7, 3, 40, 20, "inv_1", 1, 0⟩⟩

/-- It holds two of either. -/
def twoOfEach : BillingDb :=
  twoLeft.insertCredit .ai ⟨⟨none, some 3, 2⟩, .grant, "trial-ai:account:3", none⟩

def fromBothLedgers : List ReserveCall :=
  [bothMessages "sms:a", { bothMessages "ai:a" with ledger := .ai }, bothMessages "sms:b"]

def byTurns : List Move := [0, 1, 2, 0, 0, 0, 0, 1, 2, 1, 1, 1, 2, 2].map .advance

set_option maxRecDepth 8000 in
/-- The last one reads the balance when it is spent. -/
theorem reservations_kept_byTurns :
    returned (system { accountId := some 3 } twoOfEach fromBothLedgers) byTurns =
      [(0, ⟨true, 0⟩), (1, ⟨true, 0⟩), (2, ⟨false, 0⟩)] ∧
    Kept { accountId := some 3 } twoOfEach fromBothLedgers
      ((system { accountId := some 3 } twoOfEach fromBothLedgers).run byTurns).committed
      (returned (system { accountId := some 3 } twoOfEach fromBothLedgers) byTurns) := by
  refine ⟨by decide, reservations_kept _ _ _ byTurns ?_ _ [] (List.append_nil _).symm⟩
  intro before m after hmoves t c x r _ happ _ reading hreading _
  refine RunChecks.current_at (fun _ => true) [6, 11, 13] (by decide) ⟨?_, ?_, ?_, trivial⟩ hmoves rfl
    happ reading hreading
  all_goals
    repeat refine And.intro rfl ?_
    trivial

/-- Both read the balance before either has written its row. -/
example : scopeBalance ((system { accountId := some 3 } twoLeft
      [bothMessages "sms:a", bothMessages "sms:b"]).run
    (List.replicate 3 (.advance 0) ++ List.replicate 5 (.advance 1) ++
      List.replicate 2 (.advance 0))).committed .sms { accountId := some 3 } = -2 := by decide

end Akabbo.ReserveRaces
