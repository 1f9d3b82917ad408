import Akabbo.RowTable

/-!
# Credit movements shared by events and accounts

Movements of credit, in and out, that name an event, an account, both or neither. An
event draws on the movements that name it and on those of the account behind it; an
account draws on those that name it. When no balance is negative.
-/
namespace Akabbo.CreditPool
open RowTable

structure Movement (ε α : Type) where
  eventId : Option ε
  accountId : Option α
  amount : ℤ
  deriving DecidableEq, Repr

section pool
variable {ε α : Type} [DecidableEq ε] [DecidableEq α]

/-- A movement that the balance of this event and account counts. -/
def Movement.counts (m : Movement ε α) (e : Option ε) (a : Option α) : Bool :=
  (e.isSome && m.eventId == e) || (a.isSome && m.accountId == a)

def pooled (rows : List (Movement ε α)) (e : Option ε) (a : Option α) : ℤ :=
  sumWhere rows (fun m => m.counts e a) Movement.amount

/-- What an account holds by itself. -/
def held (rows : List (Movement ε α)) (a : Option α) : ℤ := pooled rows none a

/-- What an event has beside the account behind it. -/
def own (rows : List (Movement ε α)) (e : ε) (a : Option α) : ℤ :=
  sumWhere rows (fun m => m.eventId == some e && !m.counts none a) Movement.amount

@[simp] theorem counts_none (m : Movement ε α) : m.counts none none = false := rfl

@[simp] theorem counts_account (m : Movement ε α) (a : α) :
    m.counts none (some a) = decide (m.accountId = some a) := by
  rw [Bool.eq_iff_iff]
  simp [Movement.counts]

theorem counts_event (m : Movement ε α) (e : ε) (a : Option α) :
    m.counts (some e) a = (decide (m.eventId = some e) || m.counts none a) := by
  rw [Bool.eq_iff_iff]
  simp [Movement.counts]

@[simp] theorem held_none (rows : List (Movement ε α)) : held rows none = 0 :=
  sumWhere_eq_zero fun m _ h => by simp at h

/-- An event's balance is what its account holds and what it has of its own. -/
theorem pooled_event (rows : List (Movement ε α)) (e : ε) (a : Option α) :
    pooled rows (some e) a = held rows a + own rows e a := by
  have hsplit := sumWhere_split rows (fun m => m.counts (some e) a) (fun m => m.counts none a)
    Movement.amount
  have hheld : sumWhere rows (fun m => m.counts (some e) a && m.counts none a) Movement.amount =
      held rows a := by
    refine sumWhere_congr fun m _ => ⟨?_, fun _ => rfl⟩
    rw [counts_event, Bool.eq_iff_iff]
    simp only [Bool.and_eq_true, Bool.or_eq_true]
    tauto
  have hown : sumWhere rows (fun m => m.counts (some e) a && !m.counts none a) Movement.amount =
      own rows e a := by
    refine sumWhere_congr fun m _ => ⟨?_, fun _ => rfl⟩
    rw [counts_event, Bool.eq_iff_iff]
    simp only [Bool.and_eq_true, Bool.or_eq_true, decide_eq_true_eq, beq_iff_eq,
      Bool.not_eq_true']
    constructor
    · rintro ⟨he | ha, hn⟩
      · exact ⟨he, hn⟩
      · rw [ha] at hn
        cases hn
    · exact fun h => ⟨.inl h.1, h.2⟩
  rw [hheld, hown] at hsplit
  exact hsplit

theorem pooled_append (rows : List (Movement ε α)) (m : Movement ε α) (e : Option ε)
    (a : Option α) :
    pooled (rows ++ [m]) e a = pooled rows e a + if m.counts e a then m.amount else 0 := by
  simp [pooled, sumWhere_append, sumWhere_cons]

theorem held_append (rows : List (Movement ε α)) (m : Movement ε α) (a : Option α) :
    held (rows ++ [m]) a = held rows a + if m.counts none a then m.amount else 0 :=
  pooled_append rows m none a

theorem own_append (rows : List (Movement ε α)) (m : Movement ε α) (e : ε) (a : Option α) :
    own (rows ++ [m]) e a =
      own rows e a + if m.eventId == some e && !m.counts none a then m.amount else 0 := by
  simp [own, sumWhere_append, sumWhere_cons]

/-- No account, and no event by itself, is below zero. `owner` is the account behind an
event. -/
structure Solvent (rows : List (Movement ε α)) (owner : ε → Option α) : Prop where
  held : ∀ a, 0 ≤ held rows (some a)
  own : ∀ e, 0 ≤ own rows e (owner e)

variable {rows : List (Movement ε α)} {owner owner' : ε → Option α} {m : Movement ε α}

theorem solvent_nil (owner : ε → Option α) : Solvent ([] : List (Movement ε α)) owner where
  held _ := le_rfl
  own _ := le_rfl

theorem held_nonneg (h : Solvent rows owner) (a : Option α) : 0 ≤ held rows a := by
  cases a with
  | none => simp
  | some a => exact h.held a

theorem pooled_nonneg (h : Solvent rows owner) (e : ε) : 0 ≤ pooled rows (some e) (owner e) := by
  have ha := held_nonneg h (owner e)
  have he := h.own e
  rw [pooled_event]
  omega

/-- A movement whose loss the account it names can bear, and its event too where that
account is not the one behind it. -/
structure Bearable (rows : List (Movement ε α)) (owner : ε → Option α) (m : Movement ε α) :
    Prop where
  held : ∀ a, m.accountId = some a → 0 ≤ held rows (some a) + m.amount
  own : ∀ e, m.eventId = some e → m.counts none (owner e) = false →
    0 ≤ own rows e (owner e) + m.amount

theorem solvent_append (h : Solvent rows owner) (hm : Bearable rows owner m) :
    Solvent (rows ++ [m]) owner where
  held a := by
    have hold := h.held a
    have hbear := hm.held a
    rw [held_append, counts_account]
    simp only [decide_eq_true_eq]
    split_ifs with ha
    · exact hbear ha
    · omega
  own e := by
    have hold := h.own e
    have hbear := hm.own e
    rw [own_append]
    simp only [Bool.and_eq_true, beq_iff_eq, Bool.not_eq_true']
    split_ifs with he
    · exact hbear he.1 he.2
    · omega

/-- Credits can always be borne. -/
theorem bearable_of_nonneg (h : Solvent rows owner) (hm : 0 ≤ m.amount) :
    Bearable rows owner m where
  held a _ := by
    have := h.held a
    omega
  own e _ _ := by
    have := h.own e
    omega

/-- An event that gets an account behind it, whose movements do not name both, has of its
own what it had. -/
theorem solvent_owner (h : Solvent rows owner)
    (hnew : ∀ e, owner' e = owner e ∨
      owner e = none ∧ ∀ m ∈ rows, m.eventId = some e → m.counts none (owner' e) = false) :
    Solvent rows owner' where
  held := h.held
  own e := by
    have hold := h.own e
    obtain he | ⟨hnone, hrows⟩ := hnew e
    · rw [he]
      exact hold
    · have hsame : own rows e (owner' e) = own rows e (owner e) := by
        refine sumWhere_congr fun m hm => ⟨?_, fun _ => rfl⟩
        by_cases hme : m.eventId = some e
        · rw [hrows m hm hme, hnone, counts_none]
        · have hne : (m.eventId == some e) = false := by simpa using hme
          rw [hne, Bool.false_and, Bool.false_and]
      rw [hsame]
      exact hold

end pool
end Akabbo.CreditPool
