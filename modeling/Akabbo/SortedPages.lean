import Mathlib.Data.List.Sort
import Mathlib.Data.List.Nodup
import Mathlib.Data.List.Perm.Subperm

/-!
# Pages of lists that are sorted anew

A list may be sorted again for each of its pages, and elements that the comparator ties may come in
another order each time. What that does to the pages put together.
-/
namespace Akabbo.SortedPages

section sorted
variable {α : Type} (cmp : α → α → Ordering)

def Sorted (l : List α) : Prop := l.Pairwise fun a b => (cmp a b).isLE = true

/-- How many come before an element in any order, and how many may come in its place. -/
def ahead (l : List α) (a : α) : ℕ := l.countP fun b => cmp b a == .lt

def tied (l : List α) (a : α) : ℕ := l.countP fun b => cmp b a == .eq

variable {cmp} {l l' pre post : List α} {a b : α}

theorem ahead_perm (h : l.Perm l') : ahead cmp l a = ahead cmp l' a := h.countP_eq _

theorem tied_perm (h : l.Perm l') : tied cmp l a = tied cmp l' a := h.countP_eq _

theorem ahead_add_tied_le : ahead cmp l a + tied cmp l a ≤ l.length := by
  unfold ahead tied
  induction l with
  | nil => rfl
  | cons b l ih =>
    rw [List.countP_cons, List.countP_cons, List.length_cons]
    cases cmp b a <;> simp <;> omega

theorem length_le_countP_add {p q : α → Bool} (h : ∀ b ∈ l, p b = true ∨ q b = true) :
    l.length ≤ l.countP p + l.countP q := by
  induction l with
  | nil => exact Nat.zero_le _
  | cons b l ih =>
    have hrest := ih fun c hc => h c (List.mem_cons_of_mem _ hc)
    rw [List.countP_cons, List.countP_cons, List.length_cons]
    rcases h b List.mem_cons_self with hb | hb <;> rw [hb] <;> simp only [if_true] <;> omega

variable [Std.TransCmp cmp]

/-- An element of a sorted list stands somewhere among those it is tied with. -/
theorem position_bounds (h : Sorted cmp (pre ++ a :: post)) :
    ahead cmp (pre ++ a :: post) a ≤ pre.length ∧
      pre.length < ahead cmp (pre ++ a :: post) a + tied cmp (pre ++ a :: post) a := by
  obtain ⟨-, hpost, hcross⟩ := List.pairwise_append.mp h
  have hself : cmp a a = .eq := Std.ReflCmp.compare_self
  have hbehind : ∀ b ∈ a :: post, (cmp b a == .lt) = false := by
    intro b hb
    rcases List.mem_cons.mp hb with rfl | hb
    · rw [hself]
      rfl
    · have hle := (List.pairwise_cons.mp hpost).1 b hb
      rw [beq_eq_false_iff_ne]
      intro hlt
      exact Std.OrientedCmp.not_lt_of_isLE hle hlt
  have hbefore : ∀ b ∈ pre, (cmp b a == .lt) = true ∨ (cmp b a == .eq) = true := by
    intro b hb
    have hle := hcross b hb a List.mem_cons_self
    cases hcmp : cmp b a with
    | lt => exact .inl rfl
    | eq => exact .inr rfl
    | gt =>
      rw [hcmp] at hle
      cases hle
  have hnone : (a :: post).countP (fun b => cmp b a == .lt) = 0 :=
    List.countP_eq_zero.mpr fun b hb => by rw [hbehind b hb]; exact Bool.false_ne_true
  have hcount := length_le_countP_add hbefore
  have hone : 0 < (a :: post).countP fun b => cmp b a == .eq :=
    List.countP_pos_iff.mpr ⟨a, List.mem_cons_self, by rw [hself]; rfl⟩
  unfold ahead tied
  rw [List.countP_append, List.countP_append, hnone, Nat.add_zero]
  have hle := List.countP_le_length (p := fun b => cmp b a == .lt) (l := pre)
  omega

/-- What stands among the elements tied with another one is tied with it. -/
theorem tied_of_position (h : Sorted cmp (pre ++ b :: post))
    (hfrom : ahead cmp (pre ++ b :: post) a ≤ pre.length)
    (hto : pre.length < ahead cmp (pre ++ b :: post) a + tied cmp (pre ++ b :: post) a) :
    cmp b a = .eq := by
  obtain ⟨-, hpost, hcross⟩ := List.pairwise_append.mp h
  cases hcmp : cmp b a with
  | eq => rfl
  | lt =>
    -- all that come up to it are before the other one
    have hall : ∀ c ∈ pre ++ [b], (cmp c a == .lt) = true := by
      intro c hc
      rw [beq_iff_eq]
      rcases List.mem_append.mp hc with hc | hc
      · exact Std.TransCmp.lt_of_isLE_of_lt (hcross c hc b List.mem_cons_self) hcmp
      · rwa [List.mem_singleton.mp hc]
    have hcount : (pre ++ [b]).countP (fun c => cmp c a == .lt) = (pre ++ [b]).length :=
      List.countP_eq_length.mpr hall
    have hle : (pre ++ [b]).countP (fun c => cmp c a == .lt) ≤ ahead cmp (pre ++ b :: post) a :=
      List.Sublist.countP_le (by simp)
    rw [hcount, List.length_append, List.length_singleton] at hle
    omega
  | gt =>
    -- all from it on are behind the other one
    have hall : ∀ c ∈ b :: post, cmp c a = .gt := by
      intro c hc
      rcases List.mem_cons.mp hc with rfl | hc
      · exact hcmp
      · have hle := (List.pairwise_cons.mp hpost).1 c hc
        exact Std.OrientedCmp.gt_of_lt (Std.TransCmp.lt_of_lt_of_isLE
          (Std.OrientedCmp.lt_of_gt hcmp) hle)
    have hnone (o : Ordering) (ho : o ≠ .gt) : (b :: post).countP (fun c => cmp c a == o) = 0 :=
      List.countP_eq_zero.mpr fun c hc => by
        rw [hall c hc, beq_iff_eq]
        exact ho.symm
    have hle := @ahead_add_tied_le α cmp pre a
    unfold ahead tied at hto hle
    rw [List.countP_append, List.countP_append, hnone .lt nofun, hnone .eq nofun] at hto
    omega

end sorted

section pages
variable {α : Type} {cmp : α → α → Ordering} {l : List α} {a : α} {size k : ℕ}

def page (l : List α) (size k : ℕ) : List α := (l.drop (k * size)).take size

theorem mem_page : a ∈ page l size k ↔
    ∃ pre post, l = pre ++ a :: post ∧ k * size ≤ pre.length ∧ pre.length < (k + 1) * size := by
  unfold page
  rw [List.mem_iff_getElem?]
  constructor
  · rintro ⟨i, hi⟩
    rw [List.getElem?_take] at hi
    split_ifs at hi with hlt
    · rw [List.getElem?_drop] at hi
      obtain ⟨hbound, hget⟩ := List.getElem?_eq_some_iff.mp hi
      refine ⟨l.take (k * size + i), l.drop (k * size + i + 1), ?_, ?_⟩
      · rw [← hget, List.getElem_cons_drop, List.take_append_drop]
      · rw [List.length_take_of_le hbound.le, Nat.succ_mul]
        omega
  · rintro ⟨pre, post, rfl, hfrom, hto⟩
    refine ⟨pre.length - k * size, ?_⟩
    rw [Nat.succ_mul] at hto
    rw [List.getElem?_take, if_pos (by omega), List.getElem?_drop, Nat.add_sub_cancel' hfrom,
      List.getElem?_append_right le_rfl, Nat.sub_self]
    rfl

/-- The elements tied with this one begin on one page and end on another. -/
def Straddles (cmp : α → α → Ordering) (l : List α) (size : ℕ) (a : α) : Prop :=
  ∃ k, ahead cmp l a < (k + 1) * size ∧ (k + 1) * size < ahead cmp l a + tied cmp l a

variable [Std.TransCmp cmp]

/-- An element that is tied with none on another page has one page in every order. -/
theorem mem_page_iff {l' : List α} (hsorted : Sorted cmp l') (hperm : l'.Perm l)
    (hsize : 0 < size) (ha : a ∈ l) (hpage : ¬ Straddles cmp l size a) :
    a ∈ page l' size k ↔ k = ahead cmp l a / size := by
  have hposition {pre post : List α} (hl : l' = pre ++ a :: post) :
      pre.length / size = ahead cmp l a / size := by
    obtain ⟨hfrom, hto⟩ := position_bounds (hl ▸ hsorted)
    rw [← hl, ahead_perm hperm, tied_perm hperm] at hto
    rw [← hl, ahead_perm hperm] at hfrom
    by_contra hne
    have hlt : ahead cmp l a / size < pre.length / size :=
      lt_of_le_of_ne (Nat.div_le_div_right hfrom) fun h => hne h.symm
    obtain ⟨j, hj⟩ := Nat.exists_eq_succ_of_ne_zero (Nat.ne_zero_of_lt hlt)
    refine hpage ⟨j, ?_, ?_⟩
    · rw [← Nat.div_lt_iff_lt_mul hsize]
      omega
    · have hstart : (j + 1) * size ≤ pre.length := by
        rw [← Nat.le_div_iff_mul_le hsize]
        omega
      omega
  rw [mem_page]
  constructor
  · rintro ⟨pre, post, hl, hfrom, hto⟩
    rw [← hposition hl]
    exact (Nat.div_eq_of_lt_le hfrom hto).symm
  · rintro rfl
    obtain ⟨pre, post, hl⟩ := List.append_of_mem (hperm.symm.subset ha)
    refine ⟨pre, post, hl, ?_, ?_⟩
    · rw [← hposition hl]
      exact Nat.div_mul_le_self _ _
    · rw [← hposition hl]
      exact Nat.lt_mul_of_div_lt (Nat.lt_succ_self _) hsize

/-- Elements tied across a page boundary can change places there. -/
theorem exists_swap (hsorted : Sorted cmp l) {m : ℕ} (hfrom : ahead cmp l a < m + 1)
    (hto : m + 1 < ahead cmp l a + tied cmp l a) : ∃ pre x y post, l = pre ++ x :: y :: post ∧
      pre.length = m ∧ Sorted cmp (pre ++ y :: x :: post) := by
  have hlength := @ahead_add_tied_le α cmp l a
  have hsplit : l = l.take m ++ l[m] :: l[m + 1] :: l.drop (m + 2) := by
    rw [List.getElem_cons_drop, List.getElem_cons_drop, List.take_append_drop]
  have htake : (l.take m).length = m := List.length_take_of_le (by omega)
  obtain ⟨pre, hpre⟩ : ∃ pre, pre = l.take m := ⟨_, rfl⟩
  obtain ⟨x, hx⟩ : ∃ x, x = l[m] := ⟨_, rfl⟩
  obtain ⟨y, hy⟩ : ∃ y, y = l[m + 1] := ⟨_, rfl⟩
  obtain ⟨post, hpost⟩ : ∃ post, post = l.drop (m + 2) := ⟨_, rfl⟩
  rw [← hpre, ← hx, ← hy, ← hpost] at hsplit
  rw [← hpre] at htake
  have hsplit' : l = (pre ++ [x]) ++ y :: post := by
    rw [hsplit, List.append_assoc]
    rfl
  have htiedx : cmp x a = .eq := tied_of_position (hsplit ▸ hsorted)
    (by rw [← hsplit]; omega) (by rw [← hsplit]; omega)
  have htiedy : cmp y a = .eq := tied_of_position (hsplit' ▸ hsorted)
    (by rw [← hsplit', List.length_append, List.length_singleton]; omega)
    (by rw [← hsplit', List.length_append, List.length_singleton]; omega)
  have hyx : (cmp y x).isLE = true := by
    have heq : cmp y x = .eq := Std.TransCmp.eq_trans htiedy (Std.OrientedCmp.eq_symm htiedx)
    rw [heq]
    rfl
  refine ⟨pre, x, y, post, hsplit, htake, ?_⟩
  unfold Sorted at hsorted ⊢
  rw [hsplit] at hsorted
  simp only [List.pairwise_append, List.pairwise_cons, List.mem_cons, forall_eq_or_imp] at hsorted ⊢
  obtain ⟨hsorted, ⟨⟨-, hxpost⟩, hypost, hrest⟩, hcross⟩ := hsorted
  exact ⟨hsorted, ⟨⟨hyx, hypost⟩, hxpost, hrest⟩,
    fun c hc => ⟨(hcross c hc).2.1, (hcross c hc).1, (hcross c hc).2.2⟩⟩

theorem exists_sorted (l : List α) : ∃ l', Sorted cmp l' ∧ l'.Perm l := by
  have : Std.Total fun a b : α => (cmp a b).isLE = true := ⟨fun a b => by
    rw [← Std.OrientedCmp.isGE_iff_isLE (a := a)]
    cases cmp a b <;> simp⟩
  have : IsTrans α fun a b => (cmp a b).isLE = true := ⟨fun _ _ _ => Std.TransCmp.isLE_trans⟩
  exact ⟨_, List.pairwise_insertionSort (fun a b => (cmp a b).isLE = true) l,
    List.perm_insertionSort _ _⟩

/-- Elements that are tied with no other ones have one sorted order, and no others have. -/
theorem sorted_unique_iff (hnodup : l.Nodup) :
    (∀ l₁ l₂, Sorted cmp l₁ → l₁.Perm l → Sorted cmp l₂ → l₂.Perm l → l₁ = l₂) ↔
      ∀ a ∈ l, ∀ b ∈ l, cmp a b = .eq → a = b := by
  constructor
  · intro hunique a ha b hb htie
    by_contra hne
    obtain ⟨first, hfirst, hperm⟩ := @exists_sorted α cmp _ l
    have htwo : 2 ≤ tied cmp first a := by
      have hsub : [a, b].Subperm first :=
        (List.nodup_cons.mpr ⟨by simpa using hne, List.nodup_singleton b⟩).subperm fun c hc => by
          rcases List.mem_cons.mp hc with rfl | hc
          · exact hperm.symm.subset ha
          · exact hperm.symm.subset (List.mem_singleton.mp hc ▸ hb)
      have hself : cmp a a = .eq := Std.ReflCmp.compare_self
      have hcount : ([a, b].countP fun c => cmp c a == .eq) = 2 := by
        simp [hself, Std.OrientedCmp.eq_symm htie]
      exact hcount ▸ hsub.countP_le _
    obtain ⟨pre, x, y, post, hsplit, -, hswapped⟩ :=
      exists_swap hfirst (Nat.lt_succ_self (ahead cmp first a)) (by omega)
    have hswap : (pre ++ y :: x :: post).Perm first := by
      rw [hsplit]
      exact (List.Perm.swap x y post).append_left pre
    have hsame := hunique first _ hfirst hperm hswapped (hswap.trans hperm)
    rw [hsplit] at hsame
    have hxy := (List.cons.inj (List.append_cancel_left hsame)).1
    have hdistinct : (pre ++ x :: y :: post).Nodup := hsplit ▸ hperm.nodup_iff.mpr hnodup
    rw [hxy] at hdistinct
    have hcons := (List.nodup_append.mp hdistinct).2.1
    exact (List.nodup_cons.mp hcons).1 List.mem_cons_self
  · intro hties l₁ l₂ h₁ hperm₁ h₂ hperm₂
    refine (hperm₁.trans hperm₂.symm).eq_of_pairwise (fun a b ha hb hab hba => ?_) h₁ h₂
    exact hties a (hperm₁.subset ha) b (hperm₂.subset hb) (Std.OrientedCmp.isLE_antisymm hab hba)

/-- However each page is sorted, the pages make up the list exactly where no elements that are tied
begin on one page and end on another. -/
theorem pages_complete_iff (hnodup : l.Nodup) (hsize : 0 < size) {count : ℕ}
    (hcount : l.length ≤ count * size) :
    (∀ ls : ℕ → List α, (∀ k, (ls k).Perm l ∧ Sorted cmp (ls k)) →
      ((List.range count).flatMap fun k => page (ls k) size k).Perm l) ↔
      ∀ a ∈ l, ¬ Straddles cmp l size a := by
  constructor
  · rintro hcomplete a - ⟨k, hfrom, hto⟩
    obtain ⟨first, hfirst, hperm⟩ := @exists_sorted α cmp _ l
    obtain ⟨m, hm⟩ : ∃ m, (k + 1) * size = m + 1 :=
      Nat.exists_eq_succ_of_ne_zero (Nat.mul_ne_zero (Nat.succ_ne_zero k) hsize.ne')
    rw [hm, ← ahead_perm hperm] at hfrom hto
    rw [← tied_perm hperm] at hto
    obtain ⟨pre, x, y, post, hsplit, hlength, hswapped⟩ := exists_swap hfirst hfrom hto
    have hswap : (pre ++ y :: x :: post).Perm first := by
      rw [hsplit]
      exact (List.Perm.swap x y post).append_left pre
    have hstart : k * size + size = m + 1 := by rw [← hm, Nat.succ_mul]
    have hend : (k + 1 + 1) * size = m + 1 + size := by rw [Nat.succ_mul, hm]
    -- the last of one page is the first of the next one once the two are exchanged
    have hlast : x ∈ page first size k := by
      rw [mem_page]
      exact ⟨pre, y :: post, hsplit, by omega, by omega⟩
    have hnext : x ∈ page (pre ++ y :: x :: post) size (k + 1) := by
      rw [mem_page]
      refine ⟨pre ++ [y], post, by rw [List.append_assoc]; rfl, ?_, ?_⟩ <;>
        rw [List.length_append, List.length_singleton, hlength]
      · exact hm.le
      · omega
    have hbound := @ahead_add_tied_le α cmp first a
    rw [hperm.length_eq] at hbound
    have hk : k + 1 < count := by
      have hlt : (k + 1) * size < count * size := by omega
      exact Nat.lt_of_mul_lt_mul_right hlt
    have hpages := hcomplete (fun j => if j = k then first else pre ++ y :: x :: post) fun j => by
      split_ifs
      · exact ⟨hperm, hfirst⟩
      · exact ⟨hswap.trans hperm, hswapped⟩
    have hdisjoint := (List.nodup_flatMap.mp (hpages.nodup_iff.mpr hnodup)).2
    have hapart := List.pairwise_iff_getElem.mp hdisjoint k (k + 1) (by simp; omega) (by simpa) (by omega)
    simp only [List.getElem_range, Function.onFun, if_true, Nat.succ_ne_self, if_false] at hapart
    exact hapart hlast hnext
  · intro hpages ls hls
    have hmem (k : ℕ) (a : α) : a ∈ page (ls k) size k ↔ a ∈ l ∧ k = ahead cmp l a / size := by
      constructor
      · intro h
        have ha : a ∈ l := (hls k).1.subset (List.mem_of_mem_drop (List.mem_of_mem_take h))
        exact ⟨ha, (mem_page_iff (hls k).2 (hls k).1 hsize ha (hpages a ha)).mp h⟩
      · rintro ⟨ha, hk⟩
        exact (mem_page_iff (hls k).2 (hls k).1 hsize ha (hpages a ha)).mpr hk
    have hnodup' : ((List.range count).flatMap fun k => page (ls k) size k).Nodup := by
      refine List.nodup_flatMap.mpr ⟨fun k _ => ?_, ?_⟩
      · have hl := (hls k).1.nodup_iff.mpr hnodup
        exact hl.sublist ((List.take_sublist _ _).trans (List.drop_sublist _ _))
      · refine List.nodup_range.imp fun {j k} hne a hj hk => hne ?_
        rw [((hmem j a).mp hj).2, ((hmem k a).mp hk).2]
    refine (List.perm_ext_iff_of_nodup hnodup' hnodup).mpr fun a => ?_
    rw [List.mem_flatMap]
    constructor
    · rintro ⟨k, -, h⟩
      exact ((hmem k a).mp h).1
    · intro ha
      refine ⟨ahead cmp l a / size, List.mem_range.mpr ?_, (hmem _ a).mpr ⟨ha, rfl⟩⟩
      obtain ⟨first, hfirst, hperm⟩ := @exists_sorted α cmp _ l
      obtain ⟨pre, post, hsplit⟩ := List.append_of_mem (hperm.symm.subset ha)
      have hposition := (position_bounds (hsplit ▸ hfirst)).1
      rw [← hsplit, ahead_perm hperm] at hposition
      have hlength := hperm.length_eq
      rw [hsplit, List.length_append, List.length_cons] at hlength
      rw [Nat.div_lt_iff_lt_mul hsize]
      omega

end pages
end Akabbo.SortedPages
