import Akabbo.BillingRuns

/-!
# One row into a credit ledger

What an insert does to the keys of the ledgers and to the balance of every scope.
-/
namespace Akabbo.CreditInserts
open CreditPool RowTable BillingState Entitlement BillingRuns

variable {db : BillingDb} {l l' : Ledger} {row : CreditRow}

/-- A key that is taken keeps its row. -/
theorem insertCredit_of_has (h : (db.creditLedger l).has row.idempotencyKey = true) :
    db.insertCredit l row = db := by
  have hsame : (db.creditLedger l).insertNew row = db.creditLedger l := by
    rw [Table.insertNew, dif_pos (by simpa [Table.has] using h)]
  cases l with
  | sms => exact congrArg (fun t => { db with smsCreditLedger := t }) hsame
  | ai => exact congrArg (fun t => { db with aiCreditLedger := t }) hsame

theorem has_insertCredit (k : String) : ((db.insertCredit l row).creditLedger l').has k =
    ((db.creditLedger l').has k || (decide (l = l') && decide (row.idempotencyKey = k))) := by
  rw [db.insertCredit_creditLedger]
  split_ifs with hl
  · rw [Table.has_insertNew]
    simp [hl]
  · simp [hl]

theorem rows_insertCredit (h : (db.creditLedger l).has row.idempotencyKey = false) :
    ((db.insertCredit l row).creditLedger l').rows =
      (db.creditLedger l').rows ++ if l = l' then [row] else [] := by
  rw [db.insertCredit_creditLedger]
  split_ifs with hl
  · subst hl
    exact Table.insertNew_rows h
  · exact (List.append_nil _).symm

theorem resolvedAccount_insertCredit (scope : Scope) :
    resolvedAccount (db.insertCredit l row) scope = resolvedAccount db scope := by
  unfold resolvedAccount
  rw [owner_congr (db.insertCredit_events l row) (db.insertCredit_accounts l row)]

/-- A new row moves the balances that count it by its amount, and no other. -/
theorem scopeBalance_insertFresh (h : (db.creditLedger l).has row.idempotencyKey = false)
    (scope : Scope) : scopeBalance (db.insertCredit l row) l' scope = scopeBalance db l' scope +
      if l = l' ∧ row.toMovement.counts scope.eventId (resolvedAccount db scope) = true then row.amount
      else 0 := by
  unfold scopeBalance creditBalance
  rw [resolvedAccount_insertCredit, db.movements_insertCredit l l' row h]
  by_cases hl : l = l'
  · rw [if_pos hl, pooled_append]
    simp [hl]
  · rw [if_neg hl, if_neg (fun hc => hl hc.1), add_zero]

end Akabbo.CreditInserts
