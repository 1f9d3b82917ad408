import Akabbo.PledgeStatus
import Mathlib.Logic.Function.Basic

/-!
# What a pledge ledger is for

The book of an organizer: under each pledge, how much was committed, how much came in,
and whether it was cancelled. The status is not part of the book, it is read off it.
-/
namespace Akabbo.PledgeBook
open PledgeStatus

structure Account where
  committed : ℕ
  received : ℕ
  cancelled : Bool
  deriving DecidableEq, Repr

def Account.status (a : Account) : Status := deriveStatus a.committed a.received a.cancelled

def Account.Overfulfilled (a : Account) : Prop := a.committed < a.received

abbrev Book := ℕ → Option Account

inductive Entry
  | opened (pledge committed : ℕ)
  | received (pledge value : ℕ)
  | revised (pledge old new : ℕ)
  | recommitted (pledge committed : ℕ)
  | cancelled (pledge : ℕ)
  deriving DecidableEq, Repr

/-- One entry into the book. Money coming in, or a payment set right, must fit the
commitment; the commitment itself may be set to anything. -/
inductive Posts (b : Book) : Entry → Book → Prop
  | opened {i c : ℕ} (h : b i = none) :
      Posts b (.opened i c) (Function.update b i (some ⟨c, 0, false⟩))
  | received {i v : ℕ} {a : Account} (h : b i = some a) (hc : a.cancelled = false)
      (hw : a.received + v ≤ a.committed) :
      Posts b (.received i v) (Function.update b i (some { a with received := a.received + v }))
  | revised {i old new : ℕ} {a : Account} (h : b i = some a) (ho : old ≤ a.received)
      (hw : a.received - old + new ≤ a.committed) :
      Posts b (.revised i old new)
        (Function.update b i (some { a with received := a.received - old + new }))
  | recommitted {i c : ℕ} {a : Account} (h : b i = some a) :
      Posts b (.recommitted i c) (Function.update b i (some { a with committed := c }))
  | cancelled {i : ℕ} {a : Account} (h : b i = some a) :
      Posts b (.cancelled i) (Function.update b i (some { a with cancelled := true }))

/-- A list of entries, one after the other. -/
inductive PostsAll : Book → List Entry → Book → Prop
  | nil (b : Book) : PostsAll b [] b
  | cons {b b' b'' : Book} {e : Entry} {es : List Entry} (h : Posts b e b')
      (hs : PostsAll b' es b'') : PostsAll b (e :: es) b''

theorem postsAll_single {b b' : Book} {e : Entry} (h : Posts b e b') : PostsAll b [e] b' :=
  .cons h (.nil b')

theorem postsAll_append {b b' b'' : Book} {es es' : List Entry} (h : PostsAll b es b')
    (h' : PostsAll b' es' b'') : PostsAll b (es ++ es') b'' := by
  induction h with
  | nil => exact h'
  | cons he _ ih => exact .cons he (ih h')

/-- An account is never closed, and a cancelled one stays cancelled. -/
theorem posts_keeps {b b' : Book} {e : Entry} (h : Posts b e b') {i : ℕ} {a : Account}
    (ha : b i = some a) : ∃ a', b' i = some a' ∧ (a.cancelled = true → a'.cancelled = true) := by
  have other {j : ℕ} {x : Account} (hj : b j = some x) (y : Account)
      (hy : x.cancelled = true → y.cancelled = true) :
      ∃ a', Function.update b j (some y) i = some a' ∧
        (a.cancelled = true → a'.cancelled = true) := by
    by_cases hij : i = j
    · subst hij
      rw [ha] at hj
      cases hj
      exact ⟨y, by simp, hy⟩
    · exact ⟨a, by simp [Function.update_of_ne hij, ha], id⟩
  cases h with
  | @opened j c h =>
    have hij : i ≠ j := fun hij => by simp [hij, h] at ha
    exact ⟨a, by simp [Function.update_of_ne hij, ha], id⟩
  | received h => exact other h _ id
  | revised h => exact other h _ id
  | recommitted h => exact other h _ id
  | cancelled h => exact other h _ fun _ => rfl

theorem postsAll_keeps {b b' : Book} {es : List Entry} (h : PostsAll b es b') {i : ℕ}
    {a : Account} (ha : b i = some a) :
    ∃ a', b' i = some a' ∧ (a.cancelled = true → a'.cancelled = true) := by
  induction h generalizing a with
  | nil => exact ⟨a, ha, id⟩
  | cons he _ ih =>
    obtain ⟨a₁, h₁, hc₁⟩ := posts_keeps he ha
    obtain ⟨a₂, h₂, hc₂⟩ := ih h₁
    exact ⟨a₂, h₂, hc₂ ∘ hc₁⟩

/-- More than was committed is only ever there because the commitment was set below it. -/
theorem posts_overfulfilled {b b' : Book} {e : Entry} (h : Posts b e b') {i : ℕ} {a' : Account}
    (ha : b' i = some a') (ho : a'.Overfulfilled) :
    ∃ a, b i = some a ∧ a.received = a'.received ∧
      (e = .recommitted i a'.committed ∨ a.committed = a'.committed) := by
  unfold Account.Overfulfilled at ho
  have same {j : ℕ} {y : Account} (hy : ¬ y.committed < y.received)
      (hb : Function.update b j (some y) i = some a') :
      ∃ a, b i = some a ∧ a.received = a'.received ∧
        (e = .recommitted i a'.committed ∨ a.committed = a'.committed) := by
    by_cases hij : i = j
    · subst hij
      simp only [Function.update_self, Option.some.injEq] at hb
      subst hb
      exact absurd ho hy
    · rw [Function.update_of_ne hij] at hb
      exact ⟨a', hb, rfl, .inr rfl⟩
  cases h with
  | opened h => exact same (by simp) ha
  | received h hc hw => exact same (by simpa using hw) ha
  | revised h hl hw => exact same (by simpa using hw) ha
  | @recommitted j c a h =>
    by_cases hij : i = j
    · subst hij
      simp only [Function.update_self, Option.some.injEq] at ha
      subst ha
      exact ⟨a, h, rfl, .inl rfl⟩
    · rw [Function.update_of_ne hij] at ha
      exact ⟨a', ha, rfl, .inr rfl⟩
  | @cancelled j a h =>
    by_cases hij : i = j
    · subst hij
      simp only [Function.update_self, Option.some.injEq] at ha
      subst ha
      exact ⟨a, h, rfl, .inr rfl⟩
    · rw [Function.update_of_ne hij] at ha
      exact ⟨a', ha, rfl, .inr rfl⟩

/-- Along entries that never set a commitment, money never comes to exceed it. -/
theorem postsAll_overfulfilled {b b' : Book} {es : List Entry} (h : PostsAll b es b') {i : ℕ}
    (hes : ∀ c, Entry.recommitted i c ∉ es) {a' : Account} (ha : b' i = some a')
    (ho : a'.Overfulfilled) :
    ∃ a, b i = some a ∧ a.received = a'.received ∧ a.committed = a'.committed := by
  induction h with
  | nil => exact ⟨a', ha, rfl, rfl⟩
  | @cons b₀ b₁ b₂ e es he _ ih =>
    obtain ⟨a₁, h₁, hr₁, hc₁⟩ := ih (fun c hm => hes c (List.mem_cons_of_mem _ hm)) ha
    have ho₁ : a₁.Overfulfilled := by
      unfold Account.Overfulfilled at ho ⊢
      omega
    obtain ⟨a₀, h₀, hr₀, hc₀ | hc₀⟩ := posts_overfulfilled he h₁ ho₁
    · exact absurd (hc₀ ▸ List.mem_cons_self) (hes a₁.committed)
    · exact ⟨a₀, h₀, hr₀.trans hr₁, hc₀.trans hc₁⟩

end Akabbo.PledgeBook
