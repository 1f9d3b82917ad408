import Akabbo.RowTable

/-!
# References between the rows of several tenants

A link says that every reference from one table to another names a row of the same tenant.
What an insert, an update or a delete on either side needs to keep it.
-/
namespace Akabbo.TenantLinks
open RowTable

section link
variable {ι ρ ι' ρ' : Type} {key : ρ → ι} {key' : ρ' → ι'} {tenant : ρ → ℕ} {tenant' : ρ' → ℕ}
  {ref : ρ → Option ι'} {t : Table ι ρ key} {u : Table ι' ρ' key'}

/-- The row `k` of the table belongs to the tenant `e`. -/
def Owns (u : Table ι' ρ' key') (tenant' : ρ' → ℕ) (e : ℕ) (k : ι') : Prop :=
  ∃ r ∈ u, key' r = k ∧ tenant' r = e

def Linked (t : Table ι ρ key) (u : Table ι' ρ' key') (tenant : ρ → ℕ) (tenant' : ρ' → ℕ)
    (ref : ρ → Option ι') : Prop :=
  ∀ r ∈ t, ∀ k, ref r = some k → Owns u tenant' (tenant r) k

theorem linked_empty : Linked (.empty : Table ι ρ key) u tenant tenant' ref :=
  fun r hr => absurd hr (Table.not_mem_empty r)

theorem owns_insertNew [DecidableEq ι'] {r : ρ'} {e : ℕ} {k : ι'} (h : Owns u tenant' e k) :
    Owns (u.insertNew r) tenant' e k := by
  obtain ⟨x, hx, hk⟩ := h
  exact ⟨x, Table.mem_insertNew_of_mem hx, hk⟩

/-- The rows of a table after an UPDATE. -/
theorem owns_update {u' : Table ι' ρ' key'} {p : ρ' → Bool} {f : ρ' → ρ'} {e : ℕ} {k : ι'}
    (hrows : u'.rows = u.rows.map fun r => if p r then f r else r)
    (hkeep : ∀ r, key' (f r) = key' r ∧ tenant' (f r) = tenant' r) (h : Owns u tenant' e k) :
    Owns u' tenant' e k := by
  obtain ⟨x, hx, hk, he⟩ := h
  refine ⟨if p x then f x else x, ?_, ?_⟩
  · rw [Table.mem_def, hrows]
    exact List.mem_map_of_mem hx
  · split_ifs
    · exact ⟨(hkeep x).1.trans hk, (hkeep x).2.trans he⟩
    · exact ⟨hk, he⟩

theorem linked_insertNew [DecidableEq ι] {r : ρ} (h : Linked t u tenant tenant' ref)
    (hr : ∀ k, ref r = some k → Owns u tenant' (tenant r) k) :
    Linked (t.insertNew r) u tenant tenant' ref := by
  intro x hx
  rcases Table.mem_insertNew_cases hx with hx | rfl
  · exact h x hx
  · exact hr

theorem linked_insertNew_target [DecidableEq ι'] {r : ρ'} (h : Linked t u tenant tenant' ref) :
    Linked t (u.insertNew r) tenant tenant' ref :=
  fun x hx k hk => owns_insertNew (h x hx k hk)

theorem linked_update {t' : Table ι ρ key} {p : ρ → Bool} {f : ρ → ρ}
    (h : Linked t u tenant tenant' ref)
    (hrows : t'.rows = t.rows.map fun r => if p r then f r else r)
    (hr : ∀ r ∈ t, p r = true → ∀ k, ref (f r) = some k → Owns u tenant' (tenant (f r)) k) :
    Linked t' u tenant tenant' ref := by
  intro x hx k hk
  rw [Table.mem_def, hrows] at hx
  obtain ⟨r, hrt, rfl⟩ := List.mem_map.mp hx
  split_ifs at hk ⊢ with hp
  · exact hr r hrt hp k hk
  · exact h r hrt k hk

/-- An update that leaves the reference alone. -/
theorem linked_update_same {t' : Table ι ρ key} {p : ρ → Bool} {f : ρ → ρ}
    (h : Linked t u tenant tenant' ref)
    (hrows : t'.rows = t.rows.map fun r => if p r then f r else r)
    (hsame : ∀ r, ref (f r) = ref r ∧ tenant (f r) = tenant r) :
    Linked t' u tenant tenant' ref := by
  refine linked_update h hrows fun r hr _ k hk => ?_
  obtain ⟨href, htenant⟩ := hsame r
  rw [htenant]
  exact h r hr k (href.symm.trans hk)

theorem linked_update_target {u' : Table ι' ρ' key'} {p : ρ' → Bool} {f : ρ' → ρ'}
    (h : Linked t u tenant tenant' ref)
    (hrows : u'.rows = u.rows.map fun r => if p r then f r else r)
    (hkeep : ∀ r, key' (f r) = key' r ∧ tenant' (f r) = tenant' r) :
    Linked t u' tenant tenant' ref :=
  fun x hx k hk => owns_update hrows hkeep (h x hx k hk)

theorem linked_delete {p : ρ → Bool} (h : Linked t u tenant tenant' ref) :
    Linked (t.delete p) u tenant tenant' ref :=
  fun r hr => h r (Table.mem_delete.mp hr).1

/-- Rows that nothing refers to can go. -/
theorem linked_delete_target {p : ρ' → Bool} (h : Linked t u tenant tenant' ref)
    (hfree : ∀ r ∈ t, ∀ x ∈ u, ref r = some (key' x) → p x = false) :
    Linked t (u.delete p) tenant tenant' ref := by
  intro r hr k hk
  obtain ⟨x, hx, rfl, he⟩ := h r hr k hk
  exact ⟨x, Table.mem_delete.mpr ⟨hx, hfree r hr x hx hk⟩, rfl, he⟩

end link
end Akabbo.TenantLinks
