import Mathlib.Tactic
import Mathlib.Algebra.BigOperators.Group.List.Basic

/-!
# Tables of rows with a primary key

A table carries the proof that its key column has no duplicates, so every operation
below keeps it. Sums are the SQL aggregates: over the rows a WHERE clause keeps, and
zero when it keeps none.
-/
namespace Akabbo.RowTable

/-- A WHERE clause that names the tenant first. -/
theorem own_of_and {α : Type} [BEq α] [LawfulBEq α] {x e : α} {b : Bool} (h : (x == e && b) = true) :
    x = e := beq_iff_eq.mp (Bool.and_eq_true_iff.mp h).1

/-- Keeping the better of two rows, row after row, finds one as soon as there is one. -/
theorem foldl_eq_none {α : Type} {better : Option α → α → Option α}
    (hbetter : ∀ best a, better best a ≠ none) {rows : List α} :
    rows.foldl better none = none ↔ rows = [] := by
  induction rows using List.reverseRecOn with
  | nil => exact ⟨fun _ => rfl, fun _ => rfl⟩
  | append_singleton rows a _ =>
    rw [List.foldl_append, List.foldl_cons, List.foldl_nil]
    simp [hbetter]

structure Table (ι ρ : Type) (key : ρ → ι) where
  rows : List ρ
  nodup : (rows.map key).Nodup

namespace Table
variable {ι ρ : Type} {key : ρ → ι}

instance : Membership ρ (Table ι ρ key) := ⟨fun t r => r ∈ t.rows⟩

theorem mem_def {t : Table ι ρ key} {r : ρ} : r ∈ t ↔ r ∈ t.rows := Iff.rfl

instance [DecidableEq ρ] (r : ρ) (t : Table ι ρ key) : Decidable (r ∈ t) :=
  inferInstanceAs (Decidable (r ∈ t.rows))

theorem ext {t u : Table ι ρ key} (h : t.rows = u.rows) : t = u := by
  cases t
  cases u
  simpa using h

def empty : Table ι ρ key := ⟨[], List.nodup_nil⟩

@[simp] theorem not_mem_empty (r : ρ) : r ∉ (empty : Table ι ρ key) := List.not_mem_nil

/-- The primary key decides the row. -/
theorem key_inj {t : Table ι ρ key} {r r' : ρ} (h : r ∈ t) (h' : r' ∈ t)
    (hk : key r = key r') : r = r' := List.inj_on_of_nodup_map t.nodup h h' hk

def has [DecidableEq ι] (t : Table ι ρ key) (k : ι) : Bool := decide (k ∈ t.rows.map key)

theorem has_iff [DecidableEq ι] {t : Table ι ρ key} {k : ι} :
    t.has k = true ↔ ∃ r ∈ t, key r = k := by
  simp [has, mem_def]

theorem has_eq_false_iff [DecidableEq ι] {t : Table ι ρ key} {k : ι} :
    t.has k = false ↔ ∀ r ∈ t, key r ≠ k := by
  simp [has, mem_def]

/-- The first row of a SELECT with this WHERE clause. -/
def find? (t : Table ι ρ key) (p : ρ → Bool) : Option ρ := t.rows.find? p

theorem mem_of_find? {t : Table ι ρ key} {p : ρ → Bool} {r : ρ} (h : t.find? p = some r) :
    r ∈ t ∧ p r = true := ⟨List.mem_of_find?_eq_some h, List.find?_some h⟩

theorem find?_eq_none {t : Table ι ρ key} {p : ρ → Bool} :
    t.find? p = none ↔ ∀ r ∈ t, ¬ p r = true := List.find?_eq_none

/-- A WHERE clause that includes the primary key finds that very row. -/
theorem find?_of_mem {t : Table ι ρ key} {p : ρ → Bool} {r : ρ} (hr : r ∈ t)
    (hp : p r = true) (hk : ∀ r' ∈ t, p r' = true → key r' = key r) : t.find? p = some r := by
  cases h : t.find? p with
  | none => exact absurd hp (find?_eq_none.mp h r hr)
  | some r' =>
    obtain ⟨hr', hp'⟩ := mem_of_find? h
    rw [key_inj hr' hr (hk r' hr' hp')]

/-- INSERT; a row whose key is taken is not added (the caller reports the violation). -/
def insertNew [DecidableEq ι] (t : Table ι ρ key) (r : ρ) : Table ι ρ key :=
  if h : key r ∈ t.rows.map key then t
  else ⟨t.rows ++ [r], by
    simpa [List.nodup_append, t.nodup] using h⟩

theorem insertNew_rows [DecidableEq ι] {t : Table ι ρ key} {r : ρ} (h : t.has (key r) = false) :
    (t.insertNew r).rows = t.rows ++ [r] := by
  have hk : key r ∉ t.rows.map key := by simpa [has] using h
  simp only [insertNew, hk, ↓reduceDIte]

theorem has_append [DecidableEq ι] {t t' : Table ι ρ key} {r : ρ} (h : t'.rows = t.rows ++ [r])
    {k : ι} : t'.has k = true ↔ t.has k = true ∨ key r = k := by
  simp only [has, h, List.map_append, List.map_cons, List.map_nil, decide_eq_true_eq,
    List.mem_append, List.mem_singleton]
  exact or_congr_right eq_comm

theorem has_append_false [DecidableEq ι] {t t' : Table ι ρ key} {r : ρ}
    (h : t'.rows = t.rows ++ [r]) {k : ι} (hk : t.has k = false) (hr : key r ≠ k) :
    t'.has k = false := by
  rw [Bool.eq_false_iff] at hk ⊢
  exact fun hhas => ((has_append h).mp hhas).elim hk hr

theorem has_insertNew [DecidableEq ι] (t : Table ι ρ key) (r : ρ) (k : ι) :
    (t.insertNew r).has k = (t.has k || decide (key r = k)) := by
  by_cases htaken : t.has (key r) = true
  · have hsame : t.insertNew r = t := by
      rw [insertNew, dif_pos (by simpa [has] using htaken)]
    rw [hsame]
    by_cases hk : key r = k
    · rw [← hk, htaken]
      rfl
    · simp [hk]
  · have hrows := insertNew_rows (r := r) (by simpa using htaken)
    rw [Bool.eq_iff_iff, has_append hrows]
    simp

theorem mem_insertNew [DecidableEq ι] {t : Table ι ρ key} {r x : ρ}
    (h : t.has (key r) = false) : x ∈ t.insertNew r ↔ x ∈ t ∨ x = r := by
  simp [mem_def, insertNew_rows h]

theorem mem_insertNew_of_mem [DecidableEq ι] {t : Table ι ρ key} {r x : ρ} (h : x ∈ t) :
    x ∈ t.insertNew r := by
  unfold insertNew
  split_ifs
  · exact h
  · exact List.mem_append_left _ h

theorem mem_insertNew_cases [DecidableEq ι] {t : Table ι ρ key} {r x : ρ}
    (h : x ∈ t.insertNew r) : x ∈ t ∨ x = r := by
  unfold insertNew at h
  split_ifs at h
  · exact .inl h
  · rcases List.mem_append.mp h with hx | hx
    · exact .inl hx
    · exact .inr (List.mem_singleton.mp hx)

/-- UPDATE of the rows `p` selects, by a change that leaves the key alone. -/
def update (t : Table ι ρ key) (p : ρ → Bool) (f : ρ → ρ) (hf : ∀ r, key (f r) = key r) :
    Table ι ρ key :=
  ⟨t.rows.map fun r => if p r then f r else r, by
    have he : (t.rows.map fun r => if p r then f r else r).map key = t.rows.map key := by
      simp only [List.map_map]
      refine List.map_congr_left fun r _ => ?_
      simp only [Function.comp_apply]
      split_ifs
      · exact hf r
      · rfl
    rw [he]
    exact t.nodup⟩

theorem mem_update {t : Table ι ρ key} {p : ρ → Bool} {f : ρ → ρ}
    {hf : ∀ r, key (f r) = key r} {x : ρ} :
    x ∈ t.update p f hf ↔ ∃ r ∈ t, x = if p r then f r else r := by
  simp only [mem_def, update, List.mem_map]
  constructor
  · rintro ⟨r, hr, rfl⟩
    exact ⟨r, hr, rfl⟩
  · rintro ⟨r, hr, rfl⟩
    exact ⟨r, hr, rfl⟩

/-- An UPDATE that leaves every row it selects as it is. -/
theorem update_eq_of_fixed {t : Table ι ρ key} {p : ρ → Bool} {f : ρ → ρ}
    {hf : ∀ r, key (f r) = key r} (h : ∀ r ∈ t, p r = true → f r = r) : t.update p f hf = t := by
  refine ext ?_
  simp only [update]
  refine (List.map_congr_left fun r hr => ?_).trans (List.map_id t.rows)
  split_ifs with hp
  · exact h r hr hp
  · rfl

/-- An UPDATE that selects no row. -/
theorem update_eq_self {t : Table ι ρ key} {p : ρ → Bool} {f : ρ → ρ}
    {hf : ∀ r, key (f r) = key r} (h : ∀ r ∈ t, ¬ p r = true) : t.update p f hf = t :=
  update_eq_of_fixed fun r hr hp => absurd hp (h r hr)

/-- An UPDATE that leaves what a SELECT looks at alone. -/
theorem find?_update {t : Table ι ρ key} {p q : ρ → Bool} {f : ρ → ρ} {hf : ∀ r, key (f r) = key r}
    (h : ∀ r ∈ t, p r = true → q (f r) = q r) :
    (t.update p f hf).find? q = (t.find? q).map fun r => if p r then f r else r := by
  have hrows : ∀ rows : List ρ, (∀ r ∈ rows, p r = true → q (f r) = q r) →
      (rows.map fun r => if p r then f r else r).find? q =
        (rows.find? q).map fun r => if p r then f r else r := by
    intro rows hall
    induction rows with
    | nil => rfl
    | cons r rows ih =>
      have hrest := ih fun x hx => hall x (List.mem_cons_of_mem _ hx)
      have hr : q (if p r then f r else r) = q r := by
        split_ifs with hp
        · exact hall r List.mem_cons_self hp
        · rfl
      rw [List.map_cons, List.find?_cons, List.find?_cons, hr, hrest]
      cases q r <;> rfl
  exact hrows t.rows h

/-- DELETE of the rows `p` selects. -/
def delete (t : Table ι ρ key) (p : ρ → Bool) : Table ι ρ key :=
  ⟨t.rows.filter fun r => !p r, t.nodup.sublist (List.filter_sublist.map key)⟩

theorem mem_delete {t : Table ι ρ key} {p : ρ → Bool} {x : ρ} :
    x ∈ t.delete p ↔ x ∈ t ∧ p x = false := by
  simp [mem_def, delete]

theorem filter_insertNew [DecidableEq ι] {t : Table ι ρ key} {r : ρ} {q : ρ → Bool}
    (h : q r = false) : (t.insertNew r).rows.filter q = t.rows.filter q := by
  unfold insertNew
  split_ifs
  · rfl
  · simp [h]

theorem filter_update {t : Table ι ρ key} {p q : ρ → Bool} {f : ρ → ρ}
    {hf : ∀ r, key (f r) = key r} (h : ∀ r ∈ t, p r = true → q r = false ∧ q (f r) = false) :
    (t.update p f hf).rows.filter q = t.rows.filter q := by
  have hrows : ∀ rows : List ρ, (∀ r ∈ rows, p r = true → q r = false ∧ q (f r) = false) →
      (rows.map fun r => if p r then f r else r).filter q = rows.filter q := by
    intro rows hall
    induction rows with
    | nil => rfl
    | cons r rows ih =>
      have hrest := ih fun x hx => hall x (List.mem_cons_of_mem _ hx)
      rw [List.map_cons, List.filter_cons, List.filter_cons, hrest]
      cases hp : p r with
      | false => simp
      | true => simp [hall r List.mem_cons_self hp]
  exact hrows t.rows h

theorem filter_delete {t : Table ι ρ key} {p q : ρ → Bool}
    (h : ∀ r ∈ t, p r = true → q r = false) : (t.delete p).rows.filter q = t.rows.filter q := by
  unfold delete
  rw [List.filter_filter]
  refine List.filter_congr fun r hr => ?_
  cases hp : p r with
  | false => simp
  | true => simp [h r hr hp]

/-- Changing the row of one key moves a count by that row alone. -/
theorem countP_update_key [DecidableEq ι] {t : Table ι ρ key} {r : ρ} (hr : r ∈ t) (p : ρ → Bool)
    {f : ρ → ρ} (hf : ∀ r, key (f r) = key r) :
    (t.update (fun x => decide (key x = key r)) f hf).rows.countP p + (if p r then 1 else 0) =
      t.rows.countP p + if p (f r) then 1 else 0 := by
  obtain ⟨xs, ys, he⟩ := List.append_of_mem hr
  have hnd := t.nodup
  rw [he, List.map_append, List.map_cons, List.nodup_middle, List.nodup_cons] at hnd
  have hother : ∀ zs : List ρ, (∀ x ∈ zs, x ∈ xs ++ ys) →
      (zs.map fun x => if decide (key x = key r) then f x else x) = zs := by
    intro zs hzs
    refine (List.map_congr_left fun x hx => ?_).trans (List.map_id zs)
    have hne : key x ≠ key r := fun hk =>
      hnd.1 (by rw [← List.map_append]; exact List.mem_map.mpr ⟨x, hzs x hx, hk⟩)
    simp [hne]
  simp only [update]
  rw [he, List.map_append, List.map_cons, hother xs fun x hx => List.mem_append_left _ hx,
    hother ys fun x hx => List.mem_append_right _ hx]
  simp only [decide_true, if_true, List.countP_append, List.countP_cons]
  omega

section get
variable [DecidableEq ι] {t : Table ι ρ key}

/-- The row under a primary key. -/
def get? (t : Table ι ρ key) (k : ι) : Option ρ := t.find? fun r => decide (key r = k)

theorem get?_eq_some {k : ι} {r : ρ} : t.get? k = some r ↔ r ∈ t ∧ key r = k := by
  constructor
  · intro h
    simpa using mem_of_find? h
  · rintro ⟨hr, rfl⟩
    exact find?_of_mem hr (by simp) fun r' _ h => by simpa using h

theorem get?_eq_none {k : ι} : t.get? k = none ↔ t.has k = false := by
  simp [get?, find?_eq_none, has_eq_false_iff]

theorem get?_insertNew {r : ρ} (h : t.has (key r) = false) (k : ι) :
    (t.insertNew r).get? k = if key r = k then some r else t.get? k := by
  split_ifs with hk
  · exact get?_eq_some.mpr ⟨(mem_insertNew h).mpr (.inr rfl), hk⟩
  · ext x
    rw [get?_eq_some, get?_eq_some, mem_insertNew h]
    constructor
    · rintro ⟨hx | rfl, hxk⟩
      · exact ⟨hx, hxk⟩
      · exact absurd hxk hk
    · exact fun hx => ⟨.inl hx.1, hx.2⟩

theorem get?_update {p : ρ → Bool} {f : ρ → ρ} {hf : ∀ r, key (f r) = key r} (k : ι) :
    (t.update p f hf).get? k = (t.get? k).map fun r => if p r then f r else r := by
  have hkey (r : ρ) : key (if p r then f r else r) = key r := by
    split_ifs
    · exact hf r
    · rfl
  ext x
  simp only [get?_eq_some, mem_update, Option.map_eq_some_iff]
  constructor
  · rintro ⟨⟨r, hr, rfl⟩, hk⟩
    exact ⟨r, ⟨hr, (hkey r).symm.trans hk⟩, rfl⟩
  · rintro ⟨r, ⟨hr, hk⟩, rfl⟩
    exact ⟨⟨r, hr, rfl⟩, (hkey r).trans hk⟩

theorem get?_mem {k : ι} {r : ρ} (h : t.get? k = some r) : r ∈ t := (get?_eq_some.mp h).1

theorem get?_key {k : ι} {r : ρ} (h : t.get? k = some r) : key r = k := (get?_eq_some.mp h).2

theorem get?_of_mem {r : ρ} (h : r ∈ t) : t.get? (key r) = some r := get?_eq_some.mpr ⟨h, rfl⟩

end get
end Table

section sums
variable {ρ M : Type} [AddCommMonoid M]

/-- `SELECT SUM(value) WHERE p`, with NULL read as zero. -/
def sumWhere (rows : List ρ) (p : ρ → Bool) (value : ρ → M) : M :=
  ((rows.filter p).map value).sum

@[simp] theorem sumWhere_nil (p : ρ → Bool) (value : ρ → M) : sumWhere [] p value = 0 := rfl

theorem sumWhere_cons (r : ρ) (rows : List ρ) (p : ρ → Bool) (value : ρ → M) :
    sumWhere (r :: rows) p value = (if p r then value r else 0) + sumWhere rows p value := by
  by_cases h : p r <;> simp [sumWhere, h]

theorem sumWhere_append (xs ys : List ρ) (p : ρ → Bool) (value : ρ → M) :
    sumWhere (xs ++ ys) p value = sumWhere xs p value + sumWhere ys p value := by
  simp [sumWhere]

theorem sumWhere_eq_sum (rows : List ρ) (p : ρ → Bool) (value : ρ → M) :
    sumWhere rows p value = (rows.map fun r => if p r then value r else 0).sum := by
  induction rows with
  | nil => rfl
  | cons r rows ih => simp [sumWhere_cons, ih]

theorem sumWhere_congr {rows : List ρ} {p q : ρ → Bool} {v w : ρ → M}
    (h : ∀ r ∈ rows, p r = q r ∧ (p r = true → v r = w r)) :
    sumWhere rows p v = sumWhere rows q w := by
  rw [sumWhere_eq_sum, sumWhere_eq_sum]
  refine congrArg List.sum (List.map_congr_left fun r hr => ?_)
  obtain ⟨hp, hv⟩ := h r hr
  rw [← hp]
  split_ifs with hpr
  · exact hv hpr
  · rfl

theorem sumWhere_eq_zero {rows : List ρ} {p : ρ → Bool} {v : ρ → M}
    (h : ∀ r ∈ rows, p r = true → v r = 0) : sumWhere rows p v = 0 := by
  rw [sumWhere_eq_sum]
  refine List.sum_eq_zero fun x hx => ?_
  obtain ⟨r, hr, rfl⟩ := List.mem_map.mp hx
  split_ifs with hpr
  · exact h r hr hpr
  · rfl

/-- The aggregate over changed rows, read back on the old ones. -/
theorem sumWhere_map (rows : List ρ) (g : ρ → ρ) (p : ρ → Bool) (value : ρ → M) :
    sumWhere (rows.map g) p value = sumWhere rows (fun r => p (g r)) (fun r => value (g r)) := by
  simp [sumWhere, List.filter_map, Function.comp_def]

/-- Two ways to split one sum: over the groups, and over everything. -/
theorem sumWhere_split (rows : List ρ) (p q : ρ → Bool) (value : ρ → M) :
    sumWhere rows p value =
      sumWhere rows (fun r => p r && q r) value + sumWhere rows (fun r => p r && !q r) value := by
  induction rows with
  | nil => simp
  | cons r rows ih =>
    rw [sumWhere_cons, sumWhere_cons, sumWhere_cons, ih]
    cases p r <;> cases q r <;> simp [add_assoc, add_left_comm]

variable {ι : Type} [DecidableEq ι] {key : ρ → ι}

/-- With one row under the key, a sum is that row and the sum of the others. -/
theorem sumWhere_except {t : Table ι ρ key} {r : ρ} (hr : r ∈ t) {p : ρ → Bool}
    (hp : p r = true) (value : ρ → M) :
    sumWhere t.rows p value =
      value r + sumWhere t.rows (fun x => p x && !decide (key x = key r)) value := by
  rw [sumWhere_split t.rows p (fun x => decide (key x = key r))]
  congr 1
  obtain ⟨xs, ys, he⟩ := List.append_of_mem hr
  have hnd := t.nodup
  rw [he, List.map_append, List.map_cons, List.nodup_middle, List.nodup_cons] at hnd
  have hne : ∀ x ∈ xs ++ ys, key x ≠ key r := fun x hx hk =>
    hnd.1 (by rw [← List.map_append]; exact List.mem_map.mpr ⟨x, hx, hk⟩)
  have hz : ∀ l, (∀ x ∈ l, key x ≠ key r) →
      sumWhere l (fun x => p x && decide (key x = key r)) value = 0 := fun l hl =>
    sumWhere_eq_zero fun x hx hpx => by simp [hl x hx] at hpx
  rw [he, sumWhere_append, sumWhere_cons, hz xs fun x hx => hne x (by simp [hx]),
    hz ys fun x hx => hne x (by simp [hx])]
  simp [hp]

/-- Changing the value of one row that a sum counts moves the sum by that row alone. -/
theorem sumWhere_update_key {t : Table ι ρ key} {r : ρ} (hr : r ∈ t) {p sel : ρ → Bool}
    {f : ρ → ρ} (hf : ∀ r, key (f r) = key r) {value : ρ → M} (hp : p r = true)
    (hsel : ∀ x ∈ t, sel x = decide (key x = key r)) (hpf : p (f r) = p r) :
    sumWhere (t.update sel f hf).rows p value =
      value (f r) + sumWhere t.rows (fun x => p x && !decide (key x = key r)) value := by
  have hmem : f r ∈ t.update sel f hf :=
    Table.mem_update.mpr ⟨r, hr, by simp [hsel r hr]⟩
  rw [sumWhere_except hmem (hpf.trans hp), hf]
  congr 1
  simp only [Table.update, sumWhere_map]
  refine sumWhere_congr fun x hx => ?_
  rw [hsel x hx]
  by_cases hk : key x = key r
  · simp [hk, hf]
  · simp [hk]

theorem sumWhere_add (rows : List ρ) (p : ρ → Bool) (v w : ρ → M) :
    sumWhere rows p (fun r => v r + w r) = sumWhere rows p v + sumWhere rows p w := by
  simp [sumWhere, List.sum_map_add]

/-- A sum over a join. The key finds one row for each joined one, so summing group by
group counts nothing twice. -/
theorem sumWhere_join {γ : Type} (t : Table ι ρ key) (q : ρ → Bool) (rows : List γ)
    (p : γ → Bool) (group : γ → ι) (value : γ → M) :
    sumWhere rows (fun x => p x && t.rows.any fun r => decide (group x = key r) && q r) value =
      sumWhere t.rows q fun r =>
        sumWhere rows (fun x => p x && decide (group x = key r)) value := by
  induction rows with
  | nil => simp [sumWhere_eq_zero]
  | cons x rows ih =>
    simp only [sumWhere_cons, sumWhere_add, ih]
    congr 1
    by_cases hany : p x && t.rows.any fun r => decide (group x = key r) && q r
    · obtain ⟨hp, hr⟩ := Bool.and_eq_true_iff.mp hany
      obtain ⟨r, hr, hrx⟩ := List.any_eq_true.mp hr
      obtain ⟨hk, hq⟩ := Bool.and_eq_true_iff.mp hrx
      have hk : group x = key r := by simpa using hk
      have hrest : sumWhere t.rows (fun y => q y && !decide (key y = key r))
          (fun y => if p x && decide (group x = key y) then value x else 0) = 0 := by
        refine sumWhere_eq_zero fun y _ hy => ?_
        have hne : key y ≠ key r := by simpa using (Bool.and_eq_true_iff.mp hy).2
        simp [hk, Ne.symm hne]
      rw [if_pos hany, sumWhere_except (Table.mem_def.mpr hr) hq, hrest]
      simp [hp, hk]
    · rw [if_neg hany]
      refine (sumWhere_eq_zero fun r hr hq => ?_).symm
      refine if_neg fun hx => hany ?_
      obtain ⟨hp, hk⟩ := Bool.and_eq_true_iff.mp hx
      exact Bool.and_eq_true_iff.mpr ⟨hp, List.any_eq_true.mpr ⟨r, hr, by simp [hq, hk]⟩⟩

end sums

section naturals
variable {ρ : Type} {rows : List ρ} {p : ρ → Bool}

theorem sumWhere_eq_zero_iff {v : ρ → ℕ} :
    sumWhere rows p v = 0 ↔ ∀ r ∈ rows, p r = true → v r = 0 := by
  simp only [sumWhere, List.sum_eq_zero_iff, List.mem_map, List.mem_filter]
  constructor
  · exact fun h r hr hp => h _ ⟨r, ⟨hr, hp⟩, rfl⟩
  · rintro h _ ⟨r, ⟨hr, hp⟩, rfl⟩
    exact h r hr hp

theorem sumWhere_mono {q : ρ → Bool} {value : ρ → ℕ} (h : ∀ r ∈ rows, p r = true → q r = true) :
    sumWhere rows p value ≤ sumWhere rows q value := by
  rw [sumWhere_eq_sum, sumWhere_eq_sum]
  refine List.sum_le_sum fun r hr => ?_
  by_cases hp : p r = true
  · rw [if_pos hp, if_pos (h r hr hp)]
  · rw [if_neg hp]
    exact Nat.zero_le _

/-- The excesses on either side make up the difference of two sums. -/
theorem sumWhere_sub_add (c t : ρ → ℕ) :
    sumWhere rows p (fun r => c r - t r) + sumWhere rows p t =
      sumWhere rows p c + sumWhere rows p (fun r => t r - c r) := by
  rw [← sumWhere_add, ← sumWhere_add]
  refine sumWhere_congr fun r _ => ⟨rfl, fun _ => ?_⟩
  omega

/-- Flooring a difference of sums agrees with summing floored differences exactly when no
two rows differ in opposite directions. -/
theorem sumWhere_sub_iff (c t : ρ → ℕ) :
    sumWhere rows p c - sumWhere rows p t = sumWhere rows p (fun r => c r - t r) ↔
      (∀ r ∈ rows, p r = true → t r ≤ c r) ∨ ∀ r ∈ rows, p r = true → c r ≤ t r := by
  have hsplit := @sumWhere_sub_add _ rows p c t
  have hover : sumWhere rows p (fun r => t r - c r) = 0 ↔ ∀ r ∈ rows, p r = true → t r ≤ c r := by
    simp only [sumWhere_eq_zero_iff, Nat.sub_eq_zero_iff_le]
  have hunder : sumWhere rows p (fun r => c r - t r) = 0 ↔
      ∀ r ∈ rows, p r = true → c r ≤ t r := by
    simp only [sumWhere_eq_zero_iff, Nat.sub_eq_zero_iff_le]
  rw [← hover, ← hunder]
  omega

end naturals
end Akabbo.RowTable
