import Akabbo.RegularExpressions

/-!
# Replacing every match of a pattern

The text is gone through once from left to right. At each position the preferred match is replaced,
or the character is kept.
-/
namespace Akabbo.GlobalReplacement
open RegularExpressions

variable {α : Type}

def position (before after : List α) : Cursor α := ⟨before, after, fun _ => none⟩

/-- `text.replace(r, new)` for a global pattern; a match that reads nothing is stepped over. -/
def replaceFrom (r : Regex α) (new : List α) : ℕ → List α → List α → List α
  | 0, _, _ => []
  | n + 1, before, after =>
    match (r.paths (position before after)).head?, after with
    | none, [] => []
    | none, c :: rest => c :: replaceFrom r new n (c :: before) rest
    | some _, [] => new
    | some d, c :: rest =>
      if d.after.length < (c :: rest).length then new ++ replaceFrom r new n d.before d.after
      else new ++ c :: replaceFrom r new n (c :: before) rest

def replaceAll (r : Regex α) (new text : List α) : List α :=
  replaceFrom r new (text.length + 1) [] text

theorem repeated_reads {next : Cursor α → List (Cursor α)}
    (h : ∀ c, ∀ d ∈ next c, ∃ x, c.after = x ++ d.after ∧ d.before = x.reverse ++ c.before)
    (isLazy : Bool) (n : ℕ) (c : Cursor α) : ∀ d ∈ repeated next isLazy n c,
      ∃ x, c.after = x ++ d.after ∧ d.before = x.reverse ++ c.before := by
  induction n generalizing c with
  | zero =>
    intro d hd
    obtain rfl := List.mem_singleton.mp hd
    exact ⟨[], rfl, rfl⟩
  | succ n ih =>
    intro d hd
    have hcases : d = c ∨ ∃ e ∈ next c, d ∈ repeated next isLazy n e := by
      cases isLazy
      · rcases List.mem_append.mp hd with hmore | hstop
        · obtain ⟨e, he, hd⟩ := List.mem_flatMap.mp hmore
          exact .inr ⟨e, (List.mem_filter.mp he).1, hd⟩
        · exact .inl (List.mem_singleton.mp hstop)
      · rcases List.mem_cons.mp hd with rfl | hmore
        · exact .inl rfl
        · obtain ⟨e, he, hd⟩ := List.mem_flatMap.mp hmore
          exact .inr ⟨e, (List.mem_filter.mp he).1, hd⟩
    rcases hcases with rfl | ⟨e, he, hd⟩
    · exact ⟨[], rfl, rfl⟩
    · obtain ⟨x, hafter, hbefore⟩ := h c e he
      obtain ⟨y, hafter', hbefore'⟩ := ih e d hd
      refine ⟨x ++ y, ?_, ?_⟩
      · rw [hafter, hafter', List.append_assoc]
      · rw [hbefore', hbefore, List.reverse_append, List.append_assoc]

/-- A path moves what it reads from what is ahead to what is behind. -/
theorem paths_reads {r : Regex α} {c d : Cursor α} (h : d ∈ r.paths c) :
    ∃ x, c.after = x ++ d.after ∧ d.before = x.reverse ++ c.before := by
  induction r generalizing c d with
  | empty =>
    obtain rfl := mem_empty.mp h
    exact ⟨[], rfl, rfl⟩
  | one p =>
    obtain ⟨a, -, hreads⟩ := mem_one.mp h
    exact ⟨[a], hreads.after, hreads.before⟩
  | seq r s hr hs =>
    obtain ⟨e, he, hd⟩ := mem_seq.mp h
    obtain ⟨x, hafter, hbefore⟩ := hr he
    obtain ⟨y, hafter', hbefore'⟩ := hs hd
    refine ⟨x ++ y, ?_, ?_⟩
    · rw [hafter, hafter', List.append_assoc]
    · rw [hbefore', hbefore, List.reverse_append, List.append_assoc]
  | alt r s hr hs => exact (mem_alt.mp h).elim hr hs
  | star isLazy r ih => exact repeated_reads (fun c d hd => ih hd) isLazy _ c d h
  | group i r ih =>
    obtain ⟨e, he, rfl⟩ := List.mem_map.mp h
    exact ih (d := e) he
  | notAhead r ih =>
    obtain ⟨-, rfl⟩ := mem_notAhead.mp h
    exact ⟨[], rfl, rfl⟩
  | boundary word =>
    obtain ⟨-, rfl⟩ := mem_boundary.mp h
    exact ⟨[], rfl, rfl⟩
  | start =>
    obtain ⟨-, rfl⟩ := mem_start.mp h
    exact ⟨[], rfl, rfl⟩
  | finish =>
    obtain ⟨-, rfl⟩ := mem_finish.mp h
    exact ⟨[], rfl, rfl⟩

/-- The pattern can read `x` at the end of `before`. -/
def Matches (r : Regex α) (before x after : List α) : Prop :=
  ∃ d ∈ r.paths (position before (x ++ after)), d.after = after

/-- The pattern reads `x` at the end of `before` before it would read anything else. -/
def Prefers (r : Regex α) (before x after : List α) : Prop :=
  ∃ d, (r.paths (position before (x ++ after))).head? = some d ∧ d.after = after

section matching
variable {r : Regex α} {before x after : List α}

theorem Prefers.matches (h : Prefers r before x after) : Matches r before x after := by
  obtain ⟨d, hd, hafter⟩ := h
  exact ⟨d, List.mem_of_mem_head? hd, hafter⟩

theorem Matches.ne_nil (h : Matches r before x after) :
    r.paths (position before (x ++ after)) ≠ [] := by
  obtain ⟨d, hd, -⟩ := h
  exact List.ne_nil_of_mem hd

theorem exists_matches (h : r.paths (position before after) ≠ []) :
    ∃ x rest, after = x ++ rest ∧ Matches r before x rest := by
  obtain ⟨d, hd⟩ := List.exists_mem_of_ne_nil _ h
  obtain ⟨x, hafter, -⟩ := paths_reads hd
  change after = x ++ d.after at hafter
  refine ⟨x, d.after, hafter, d, ?_, rfl⟩
  rwa [← hafter]

end matching

/-- The paths that read more come before those that read less. -/
def LongestFirst (paths : List (Cursor α)) : Prop :=
  paths.Pairwise fun d e => d.after.length < e.after.length

section longest
variable {r s : Regex α} {c d e : Cursor α}

theorem longestFirst_of_le_one {paths : List (Cursor α)} (h : paths.length ≤ 1) :
    LongestFirst paths := by
  cases paths with
  | nil => exact .nil
  | cons d paths =>
    obtain rfl : paths = [] := List.length_eq_zero_iff.mp (by simpa using h)
    exact List.pairwise_singleton _ d

theorem longestFirst_alt (hr : LongestFirst (r.paths c)) (hs : LongestFirst (s.paths c))
    (hcross : ∀ d ∈ r.paths c, ∀ e ∈ s.paths c, d.after.length < e.after.length) :
    LongestFirst ((Regex.alt r s).paths c) :=
  List.pairwise_append.mpr ⟨hr, hs, hcross⟩

theorem longestFirst_seq (hr : LongestFirst (r.paths c))
    (hs : ∀ d ∈ r.paths c, LongestFirst (s.paths d))
    (hcross : ∀ d ∈ r.paths c, ∀ e ∈ r.paths c, d.after.length < e.after.length →
      ∀ x ∈ s.paths d, ∀ y ∈ s.paths e, x.after.length < y.after.length) :
    LongestFirst ((Regex.seq r s).paths c) := by
  refine List.pairwise_flatMap.mpr ⟨hs, ?_⟩
  exact hr.imp_of_mem fun hd he hlt => hcross _ hd _ he hlt

theorem longestFirst_seq_of_le_one (hr : (r.paths c).length ≤ 1)
    (hs : ∀ d ∈ r.paths c, LongestFirst (s.paths d)) : LongestFirst ((Regex.seq r s).paths c) := by
  refine longestFirst_seq (longestFirst_of_le_one hr) hs fun d hd e he hlt => ?_
  have hsame : d = e := by
    cases hpaths : r.paths c with
    | nil =>
      rw [hpaths] at hd
      cases hd
    | cons f paths =>
      rw [hpaths] at hr hd he
      obtain rfl : paths = [] := List.length_eq_zero_iff.mp (by simpa using hr)
      rw [List.mem_singleton.mp hd, List.mem_singleton.mp he]
  rw [hsame] at hlt
  omega

/-- Before something that can be read more often comes what is read once more. -/
theorem longestFirst_repeated {next : Cursor α → List (Cursor α)}
    (h : ∀ c, (next c).length ≤ 1)
    (hreads : ∀ c, ∀ d ∈ next c, ∃ x, c.after = x ++ d.after ∧ d.before = x.reverse ++ c.before)
    (n : ℕ) (c : Cursor α) : LongestFirst (repeated next false n c) := by
  induction n generalizing c with
  | zero => exact List.pairwise_singleton _ c
  | succ n ih =>
    refine List.pairwise_append.mpr ⟨?_, List.pairwise_singleton _ c, ?_⟩
    · have hone : ((next c).filter fun d => d.after.length < c.after.length).length ≤ 1 :=
        Nat.le_trans (List.length_filter_le _ _) (h c)
      cases hmore : (next c).filter fun d => d.after.length < c.after.length with
      | nil => exact .nil
      | cons d more =>
        rw [hmore] at hone
        obtain rfl : more = [] := List.length_eq_zero_iff.mp (by simpa using hone)
        rw [List.flatMap_singleton]
        exact ih d
    · intro d hd e he
      obtain rfl := List.mem_singleton.mp he
      obtain ⟨f, hf, hd⟩ := List.mem_flatMap.mp hd
      obtain ⟨-, hshorter⟩ := List.mem_filter.mp hf
      obtain ⟨x, hafter, -⟩ := repeated_reads hreads false n f d hd
      have hle : d.after.length ≤ f.after.length := by
        rw [hafter, List.length_append]
        omega
      have hlt : f.after.length < e.after.length := by simpa using hshorter
      omega

theorem longestFirst_star (h : ∀ c, (r.paths c).length ≤ 1) (c : Cursor α) :
    LongestFirst ((Regex.star false r).paths c) :=
  longestFirst_repeated h (fun _ _ hd => paths_reads hd) _ c

theorem length_paths_seq (hr : ∀ c, (r.paths c).length ≤ 1) (hs : ∀ c, (s.paths c).length ≤ 1)
    (c : Cursor α) : ((Regex.seq r s).paths c).length ≤ 1 := by
  change ((r.paths c).flatMap s.paths).length ≤ 1
  have hone := hr c
  cases hpaths : r.paths c with
  | nil => simp
  | cons d paths =>
    rw [hpaths] at hone
    obtain rfl : paths = [] := List.length_eq_zero_iff.mp (by simpa using hone)
    rw [List.flatMap_singleton]
    exact hs d

theorem length_paths_one (p : α → Bool) (c : Cursor α) : ((Regex.one p).paths c).length ≤ 1 := by
  change (readOne p c).length ≤ 1
  unfold readOne
  split
  · exact Nat.zero_le 1
  · split
    · exact Nat.le_refl _
    · exact Nat.zero_le 1

theorem length_paths_boundary (word : α → Bool) (c : Cursor α) :
    ((Regex.boundary word).paths c).length ≤ 1 := by
  change (if c.before.head?.any word != c.after.head?.any word then [c] else []).length ≤ 1
  split
  · exact Nat.le_refl _
  · exact Nat.zero_le 1

/-- The preferred match is the longest where the paths are in order of their lengths. -/
theorem Prefers.longest {before x after y rest : List α}
    (horder : LongestFirst (r.paths (position before (x ++ after))))
    (h : Prefers r before x after) (hsame : x ++ after = y ++ rest)
    (hmatch : Matches r before y rest) : y.length ≤ x.length := by
  obtain ⟨d, hd, hafter⟩ := h
  obtain ⟨e, he, hrest⟩ := hmatch
  rw [← hsame] at he
  have hlength := congrArg List.length hsame
  rw [List.length_append, List.length_append] at hlength
  obtain ⟨paths, hpaths⟩ := List.head?_eq_some_iff.mp hd
  rw [LongestFirst, hpaths] at horder
  rw [hpaths] at he
  rcases List.mem_cons.mp he with rfl | he
  · rw [← hafter, ← hrest] at hlength
    omega
  · have hlt := (List.pairwise_cons.mp horder).1 e he
    rw [hafter, hrest] at hlt
    omega

end longest

/-- `r{n}`. -/
def times (r : Regex α) : ℕ → Regex α
  | 0 => .empty
  | n + 1 => .seq r (times r n)

/-- `r{0,n}`. -/
def upTo (r : Regex α) : ℕ → Regex α
  | 0 => .empty
  | n + 1 => (Regex.seq r (upTo r n)).optional

/-- `r{m,n}`. -/
def counted (r : Regex α) (m n : ℕ) : Regex α := .seq (times r m) (upTo r (n - m))

section counted
variable {r : Regex α} {p : α → Bool} {c d : Cursor α}

theorem mem_times {n : ℕ} : d ∈ (times (.one p) n).paths c ↔
    ∃ x, x.length = n ∧ (∀ a ∈ x, p a = true) ∧ Reads x c d := by
  induction n generalizing c with
  | zero =>
    rw [times, mem_empty]
    constructor
    · rintro rfl
      exact ⟨[], rfl, by simp, reads_nil.mpr rfl⟩
    · rintro ⟨x, hlength, -, hreads⟩
      rw [List.length_eq_zero_iff] at hlength
      rw [hlength] at hreads
      exact reads_nil.mp hreads
  | succ n ih =>
    rw [times, mem_seq]
    constructor
    · rintro ⟨e, he, hd⟩
      obtain ⟨a, ha, hfirst⟩ := mem_one.mp he
      obtain ⟨x, hlength, hx, hreads⟩ := ih.mp hd
      exact ⟨a :: x, by simp [hlength], List.forall_mem_cons.mpr ⟨ha, hx⟩, hfirst.trans hreads⟩
    · rintro ⟨x, hlength, hx, hreads⟩
      obtain ⟨a, x, rfl⟩ := List.exists_cons_of_ne_nil (l := x) (by rintro rfl; cases hlength)
      obtain ⟨ha, hx⟩ := List.forall_mem_cons.mp hx
      obtain ⟨e, hfirst, hrest⟩ := Reads.split (x := [a]) (y := x) hreads
      exact ⟨e, mem_one.mpr ⟨a, ha, hfirst⟩, ih.mpr ⟨x, by simpa using hlength, hx, hrest⟩⟩

theorem mem_upTo {n : ℕ} : d ∈ (upTo (.one p) n).paths c ↔
    ∃ x, x.length ≤ n ∧ (∀ a ∈ x, p a = true) ∧ Reads x c d := by
  induction n generalizing c with
  | zero =>
    rw [upTo, mem_empty]
    constructor
    · rintro rfl
      exact ⟨[], (Nat.le_refl _), by simp, reads_nil.mpr rfl⟩
    · rintro ⟨x, hlength, -, hreads⟩
      rw [Nat.le_zero, List.length_eq_zero_iff] at hlength
      rw [hlength] at hreads
      exact reads_nil.mp hreads
  | succ n ih =>
    rw [upTo, mem_optional, mem_seq]
    constructor
    · rintro (⟨e, he, hd⟩ | rfl)
      · obtain ⟨a, ha, hfirst⟩ := mem_one.mp he
        obtain ⟨x, hlength, hx, hreads⟩ := ih.mp hd
        exact ⟨a :: x, by simpa using hlength, List.forall_mem_cons.mpr ⟨ha, hx⟩,
          hfirst.trans hreads⟩
      · exact ⟨[], Nat.zero_le _, by simp, reads_nil.mpr rfl⟩
    · rintro ⟨x, hlength, hx, hreads⟩
      cases x with
      | nil => exact .inr (reads_nil.mp hreads)
      | cons a x =>
        obtain ⟨ha, hx⟩ := List.forall_mem_cons.mp hx
        obtain ⟨e, hfirst, hrest⟩ := Reads.split (x := [a]) (y := x) hreads
        exact .inl ⟨e, mem_one.mpr ⟨a, ha, hfirst⟩, ih.mpr ⟨x, by simpa using hlength, hx, hrest⟩⟩

theorem mem_counted {m n : ℕ} (hmn : m ≤ n) : d ∈ (counted (.one p) m n).paths c ↔
    ∃ x, (m ≤ x.length ∧ x.length ≤ n) ∧ (∀ a ∈ x, p a = true) ∧ Reads x c d := by
  rw [counted, mem_seq]
  constructor
  · rintro ⟨e, he, hd⟩
    obtain ⟨x, hlength, hx, hreads⟩ := mem_times.mp he
    obtain ⟨y, hlength', hy, hreads'⟩ := mem_upTo.mp hd
    refine ⟨x ++ y, ?_, ?_, hreads.trans hreads'⟩
    · rw [List.length_append]
      omega
    · intro a ha
      rcases List.mem_append.mp ha with ha | ha
      · exact hx a ha
      · exact hy a ha
  · rintro ⟨x, ⟨hleast, hmost⟩, hx, hreads⟩
    rw [← List.take_append_drop m x] at hreads
    obtain ⟨e, hfirst, hrest⟩ := hreads.split
    refine ⟨e, mem_times.mpr ⟨x.take m, by simp only [List.length_take]; omega, ?_, hfirst⟩,
      mem_upTo.mpr ⟨x.drop m, by simp only [List.length_drop]; omega, ?_, hrest⟩⟩
    · exact fun a ha => hx a (List.mem_of_mem_take ha)
    · exact fun a ha => hx a (List.mem_of_mem_drop ha)

/-- A repetition reads one text after the other. -/
theorem mem_repeated {next : Cursor α → List (Cursor α)} {P : List α → Prop}
    (h : ∀ c d, d ∈ next c ↔ ∃ x, P x ∧ Reads x c d) (hP : ∀ x, P x → x ≠ []) (n : ℕ)
    (hn : c.after.length ≤ n) : d ∈ repeated next false n c ↔
      ∃ xs : List (List α), (∀ x ∈ xs, P x) ∧ Reads xs.flatten c d := by
  induction n generalizing c with
  | zero =>
    have hnil : c.after = [] := List.length_eq_zero_iff.mp (Nat.le_zero.mp hn)
    rw [repeated, List.mem_singleton]
    constructor
    · rintro rfl
      exact ⟨[], by simp, reads_nil.mpr rfl⟩
    · rintro ⟨xs, -, hreads⟩
      have hflat : xs.flatten = [] := by
        have hafter := hreads.after
        rw [hnil] at hafter
        exact (List.append_eq_nil_iff.mp hafter.symm).1
      rw [hflat] at hreads
      exact reads_nil.mp hreads
  | succ n ih =>
    change d ∈ ((next c).filter fun e => e.after.length < c.after.length).flatMap
      (repeated next false n) ++ [c] ↔ _
    rw [List.mem_append, List.mem_singleton, List.mem_flatMap]
    constructor
    · rintro (⟨e, he, hd⟩ | rfl)
      · obtain ⟨he, hshorter⟩ := List.mem_filter.mp he
        obtain ⟨x, hx, hfirst⟩ := (h c e).mp he
        have hlt : e.after.length < c.after.length := by simpa using hshorter
        obtain ⟨xs, hxs, hrest⟩ := (ih (by omega)).mp hd
        exact ⟨x :: xs, List.forall_mem_cons.mpr ⟨hx, hxs⟩, hfirst.trans hrest⟩
      · exact ⟨[], by simp, reads_nil.mpr rfl⟩
    · rintro ⟨xs, hxs, hreads⟩
      cases xs with
      | nil => exact .inr (reads_nil.mp hreads)
      | cons x xs =>
        obtain ⟨hx, hxs⟩ := List.forall_mem_cons.mp hxs
        obtain ⟨e, hfirst, hrest⟩ := Reads.split (x := x) (y := xs.flatten) hreads
        have hpos := List.length_pos_iff.mpr (hP x hx)
        have hlength := congrArg List.length hfirst.after
        rw [List.length_append] at hlength
        have hlt : e.after.length < c.after.length := by omega
        exact .inl ⟨e, List.mem_filter.mpr ⟨(h c e).mpr ⟨x, hx, hfirst⟩, by simpa using hlt⟩,
          (ih (by omega)).mpr ⟨xs, hxs, hrest⟩⟩

theorem mem_star {P : List α → Prop} (h : ∀ c d, d ∈ r.paths c ↔ ∃ x, P x ∧ Reads x c d)
    (hP : ∀ x, P x → x ≠ []) : d ∈ (Regex.star false r).paths c ↔
      ∃ xs : List (List α), (∀ x ∈ xs, P x) ∧ Reads xs.flatten c d :=
  mem_repeated h hP _ (Nat.le_refl _)

theorem length_paths_times (h : ∀ c, (r.paths c).length ≤ 1) (n : ℕ) (c : Cursor α) :
    ((times r n).paths c).length ≤ 1 := by
  induction n generalizing c with
  | zero => exact Nat.le_refl _
  | succ n ih => exact length_paths_seq h ih c

theorem longestFirst_upTo (p : α → Bool) (n : ℕ) (c : Cursor α) :
    LongestFirst ((upTo (.one p) n).paths c) := by
  induction n generalizing c with
  | zero => exact longestFirst_of_le_one (Nat.le_refl _)
  | succ n ih =>
    refine longestFirst_alt (longestFirst_seq_of_le_one (length_paths_one p c) fun d _ => ih d)
      (longestFirst_of_le_one (Nat.le_refl _)) ?_
    intro d hd e he
    obtain rfl := mem_empty.mp he
    obtain ⟨f, hf, hd⟩ := mem_seq.mp hd
    obtain ⟨a, -, hreads⟩ := mem_one.mp hf
    obtain ⟨x, hafter, -⟩ := paths_reads hd
    rw [hreads.after, hafter, List.length_append, List.length_append, List.length_singleton]
    omega

theorem longestFirst_counted (p : α → Bool) (m n : ℕ) (c : Cursor α) :
    LongestFirst ((counted (.one p) m n).paths c) :=
  longestFirst_seq_of_le_one (length_paths_times (length_paths_one p) m c)
    fun d _ => longestFirst_upTo p (n - m) d

end counted

/-- A text is scanned up to some rest: what is kept is marked by itself, and each match by a gap. -/
inductive Scan (r : Regex α) : List α → List α → List α → List (Option α) → Prop
  | nil {before rest : List α} : Scan r before [] rest []
  | keep {before text rest : List α} {c : α} {marks : List (Option α)}
      (none : r.paths (position before (c :: (text ++ rest))) = [])
      (more : Scan r (c :: before) text rest marks) :
      Scan r before (c :: text) rest (some c :: marks)
  | take {before x text rest : List α} {marks : List (Option α)}
      (first : Prefers r before x (text ++ rest)) (nonempty : x ≠ [])
      (more : Scan r (x.reverse ++ before) text rest marks) :
      Scan r before (x ++ text) rest (none :: marks)

def fill (new : List α) : Option α → List α
  | none => new
  | some c => [c]

/-- What is written for the marks. -/
def written (new : List α) (marks : List (Option α)) : List α := marks.flatMap (fill new)

/-- The pattern always reads something. -/
def Proper (r : Regex α) : Prop := ∀ before after, ¬ Matches r before [] after

section scan
variable {r : Regex α} {new before text rest a b : List α} {marks A C : List (Option α)}

theorem scan_replaceFrom (hr : Proper r) (new : List α) (n : ℕ) (before after : List α)
    (hn : after.length < n) :
    ∃ marks, Scan r before after [] marks ∧
      replaceFrom r new n before after = written new marks := by
  induction n generalizing before after with
  | zero => omega
  | succ n ih =>
    cases hfirst : (r.paths (position before after)).head? with
    | none =>
      cases after with
      | nil => exact ⟨[], .nil, by simp [replaceFrom, hfirst, written]⟩
      | cons c rest =>
        obtain ⟨marks, hscan, hwritten⟩ := ih (c :: before) rest (by simpa using hn)
        refine ⟨some c :: marks, .keep ?_ hscan, ?_⟩
        · rw [List.append_nil]
          exact List.head?_eq_none_iff.mp hfirst
        · simp [replaceFrom, hfirst, hwritten, written, fill]
    | some d =>
      obtain ⟨x, hafter, hbefore⟩ := paths_reads (List.mem_of_mem_head? hfirst)
      change after = x ++ d.after at hafter
      change d.before = x.reverse ++ before at hbefore
      have hprefers : Prefers r before x d.after := ⟨d, by rw [← hafter]; exact hfirst, rfl⟩
      have hx : x ≠ [] := by
        rintro rfl
        exact hr before d.after hprefers.matches
      have hshorter : d.after.length < after.length := by
        have hpos := List.length_pos_iff.mpr hx
        rw [hafter, List.length_append]
        omega
      obtain ⟨marks, hscan, hwritten⟩ := ih d.before d.after (by omega)
      refine ⟨none :: marks, ?_, ?_⟩
      · rw [hafter]
        rw [hbefore] at hscan
        exact .take (by rwa [List.append_nil]) hx hscan
      · cases after with
        | nil => simp at hshorter
        | cons c rest =>
          have hstep : replaceFrom r new (n + 1) before (c :: rest) =
              new ++ replaceFrom r new n d.before d.after := by
            simp only [replaceFrom, hfirst]
            exact if_pos hshorter
          rw [hstep, hwritten]
          rfl

/-- The marks from which the replaced text is written. -/
theorem scan_replaceAll (hr : Proper r) (new text : List α) :
    ∃ marks, Scan r [] text [] marks ∧ replaceAll r new text = written new marks :=
  scan_replaceFrom hr new (text.length + 1) [] text (Nat.lt_succ_self _)

theorem replaceFrom_of_none (new : List α) (n : ℕ) (before after : List α) (hn : after.length < n)
    (h : ∀ a b, after = a ++ b → r.paths (position (a.reverse ++ before) b) = []) :
    replaceFrom r new n before after = after := by
  induction n generalizing before after with
  | zero => omega
  | succ n ih =>
    have hfirst : (r.paths (position before after)).head? = none :=
      List.head?_eq_none_iff.mpr (h [] after rfl)
    cases after with
    | nil => simp [replaceFrom, hfirst]
    | cons c rest =>
      have hrest : replaceFrom r new n (c :: before) rest = rest := by
        refine ih (c :: before) rest (by simpa using hn) fun a b hab => ?_
        have hhere := h (c :: a) b (by rw [hab]; rfl)
        simpa using hhere
      simp [replaceFrom, hfirst, hrest]

/-- A text without a match stays as it is. -/
theorem replaceAll_of_none {text : List α} (new : List α)
    (h : ∀ a b, text = a ++ b → r.paths (position a.reverse b) = []) :
    replaceAll r new text = text :=
  replaceFrom_of_none new (text.length + 1) [] text (Nat.lt_succ_self _) fun a b hab => by
    rw [List.append_nil]
    exact h a b hab

/-- Marks in two parts are those of a text in two parts. -/
theorem Scan.split (h : Scan r before text rest (A ++ C)) : ∃ a b, text = a ++ b ∧
    Scan r before a (b ++ rest) A ∧ Scan r (a.reverse ++ before) b rest C := by
  induction A generalizing before text with
  | nil => exact ⟨[], text, rfl, .nil, h⟩
  | cons mark A ih =>
    cases h with
    | keep hnone hmore =>
      rename_i text c
      obtain ⟨a, b, rfl, ha, hb⟩ := ih hmore
      rw [List.append_assoc] at hnone
      refine ⟨c :: a, b, rfl, .keep hnone ha, ?_⟩
      simpa using hb
    | take hfirst hx hmore =>
      rename_i x text
      obtain ⟨a, b, rfl, ha, hb⟩ := ih hmore
      rw [List.append_assoc] at hfirst
      refine ⟨x ++ a, b, by rw [List.append_assoc], .take hfirst hx ha, ?_⟩
      simpa using hb

/-- Where characters are kept, no match starts. -/
theorem Scan.kept {B : List α} (h : Scan r before text rest (B.map some)) :
    text = B ∧ ∀ x y, B = x ++ y → y ≠ [] →
      r.paths (position (x.reverse ++ before) (y ++ rest)) = [] := by
  induction B generalizing before text with
  | nil =>
    cases h
    refine ⟨rfl, fun x y hxy hy => ?_⟩
    obtain ⟨-, rfl⟩ := List.append_eq_nil_iff.mp hxy.symm
    exact absurd rfl hy
  | cons c B ih =>
    cases h with
    | keep hnone hmore =>
      obtain ⟨rfl, hrest⟩ := ih hmore
      refine ⟨rfl, fun x y hxy hy => ?_⟩
      cases x with
      | nil =>
        rw [List.nil_append] at hxy
        rw [← hxy]
        exact hnone
      | cons d x =>
        obtain ⟨rfl, rfl⟩ := List.cons.inj hxy
        have hhere := hrest x y rfl hy
        simpa using hhere

/-- Where no match starts, characters are kept. -/
theorem Scan.of_none {B : List α} (h : Scan r before (B ++ text) rest marks)
    (hnone : ∀ x y, B = x ++ y → y ≠ [] →
      r.paths (position (x.reverse ++ before) (y ++ (text ++ rest))) = []) :
    ∃ C, marks = B.map some ++ C ∧ Scan r (B.reverse ++ before) text rest C := by
  induction B generalizing before marks with
  | nil => exact ⟨marks, rfl, h⟩
  | cons c B ih =>
    have hhere := hnone [] (c :: B) rfl (List.cons_ne_nil _ _)
    generalize hall : c :: B ++ text = all at h
    cases h with
    | nil => cases hall
    | keep _ hmore =>
      rw [List.cons_append, List.cons.injEq] at hall
      obtain ⟨rfl, rfl⟩ := hall
      obtain ⟨C, rfl, hrest⟩ := ih hmore fun x y hxy hy => by
        have hlater := hnone (c :: x) y (by rw [hxy]; rfl) hy
        simpa using hlater
      exact ⟨C, rfl, by simpa using hrest⟩
    | take hfirst _ _ =>
      refine absurd ?_ hfirst.matches.ne_nil
      rw [← List.append_assoc, ← hall, List.append_assoc]
      exact hhere

end scan

section written
variable {new : List α} {B : List α}

/-- The replacement stands between two marks, which a part of the text does not contain. -/
structure Apart (new B : List α) : Prop where
  framed : ∃ o mid c, new = o :: (mid ++ [c]) ∧ o ∉ B ∧ c ∉ B
  other : ∃ x ∈ B, x ∉ new

theorem written_cons (mark : Option α) (marks : List (Option α)) :
    written new (mark :: marks) = fill new mark ++ written new marks := List.flatMap_cons

theorem written_append (A C : List (Option α)) :
    written new (A ++ C) = written new A ++ written new C := List.flatMap_append

theorem written_some (B : List α) : written new (B.map some) = B := by
  induction B with
  | nil => rfl
  | cons c B ih =>
    rw [List.map_cons, written_cons, ih]
    rfl

/-- A part at the start that does not begin as the replacement does is kept. -/
theorem kept_of_prefix {o : α} {tail : List α} (hnew : new = o :: tail) (ho : o ∉ B)
    {marks : List (Option α)} {b : List α} (h : written new marks = B ++ b) :
    ∃ C, marks = B.map some ++ C ∧ written new C = b := by
  induction B generalizing marks with
  | nil => exact ⟨marks, rfl, h⟩
  | cons c B ih =>
    cases marks with
    | nil => cases h
    | cons mark marks =>
      rw [written_cons] at h
      cases mark with
      | none =>
        rw [fill, hnew] at h
        have hfirst : o = c := (List.cons.inj h).1
        exact absurd (by simp [hfirst]) ho
      | some d =>
        obtain ⟨rfl, hrest⟩ := List.cons.inj h
        obtain ⟨C, rfl, hC⟩ := ih (fun hmem => ho (List.mem_cons_of_mem _ hmem)) hrest
        exact ⟨C, rfl, hC⟩

/-- A part that is apart from the replacement was kept. -/
theorem kept_of_written (hB : Apart new B) {marks : List (Option α)} {a b : List α}
    (h : written new marks = a ++ (B ++ b)) : ∃ A C, marks = A ++ (B.map some ++ C) ∧
      written new A = a ∧ written new C = b := by
  obtain ⟨o, mid, c, hnew, ho, hc⟩ := hB.framed
  obtain ⟨x, hxB, hxnew⟩ := hB.other
  induction marks generalizing a with
  | nil =>
    obtain ⟨-, hnil⟩ := List.append_eq_nil_iff.mp h.symm
    obtain ⟨rfl, -⟩ := List.append_eq_nil_iff.mp hnil
    cases hxB
  | cons mark marks ih =>
    cases a with
    | nil =>
      obtain ⟨C, hmarks, hC⟩ := kept_of_prefix hnew ho h
      exact ⟨[], C, hmarks, rfl, hC⟩
    | cons d a =>
      rw [written_cons] at h
      cases mark with
      | some e =>
        obtain ⟨rfl, hrest⟩ := List.cons.inj h
        obtain ⟨A, C, rfl, rfl, rfl⟩ := ih hrest
        exact ⟨some e :: A, C, rfl, rfl, rfl⟩
      | none =>
        rcases List.append_eq_append_iff.mp h with ⟨z, ha, hz⟩ | ⟨z, hfill, hz⟩
        · obtain ⟨A, C, rfl, hA, hC⟩ := ih hz
          exact ⟨none :: A, C, rfl, by rw [written_cons, hA, ha], hC⟩
        · change new = (d :: a) ++ z at hfill
          have hz' : B ++ b = z ++ written new marks := hz
          by_cases hnil : z = []
          · subst hnil
            obtain ⟨A, C, rfl, hA, hC⟩ := ih (a := []) hz'.symm
            refine ⟨none :: A, C, rfl, ?_, hC⟩
            rw [written_cons, hA]
            simpa [fill] using hfill
          · have hlast : new.getLast? = some c := by
              rw [hnew, ← List.cons_append, List.getLast?_concat]
            rw [hfill, List.getLast?_append_of_ne_nil _ hnil] at hlast
            rcases List.append_eq_append_iff.mp hz' with ⟨w, rfl, -⟩ | ⟨w, rfl, -⟩
            · refine absurd ?_ hxnew
              rw [hfill]
              simp [hxB]
            · exact absurd (List.mem_append_left _ (List.mem_of_getLast? hlast)) hc

end written

/-- Some match of the text shares a character with the part `B`. -/
def Touched (r : Regex α) (a B b : List α) : Prop :=
  ∃ before x after, a ++ (B ++ b) = before ++ (x ++ after) ∧ Matches r before.reverse x after ∧
    a.length < before.length + x.length ∧ before.length < a.length + B.length

/-- No match that starts inside the preferred one reads past its end. -/
def Covering (r : Regex α) : Prop :=
  ∀ before x y after z rest, Prefers r before (x ++ y) after → y ≠ [] → y ++ after = z ++ rest →
    Matches r (x.reverse ++ before) z rest → z.length ≤ y.length

section keeping
variable {r : Regex α} {before text rest : List α} {marks A C : List (Option α)}

/-- A match that starts in what is scanned ends there. -/
theorem Scan.ends_within {a : List α} (hr : Covering r) (h : Scan r before a rest A)
    {a' x after : List α} (hsame : a ++ rest = a' ++ (x ++ after)) (hstart : a'.length < a.length)
    (hmatch : Matches r (a'.reverse ++ before) x after) : a'.length + x.length ≤ a.length := by
  induction h generalizing a' with
  | nil => simp at hstart
  | keep hnone _ ih =>
    cases a' with
    | nil =>
      refine absurd ?_ hmatch.ne_nil
      rw [List.nil_append] at hsame
      rw [← hsame]
      exact hnone
    | cons d a' =>
      obtain ⟨rfl, hrest⟩ := List.cons.inj hsame
      have hend := ih hrest (by simpa using hstart) (by simpa using hmatch)
      simp only [List.length_cons]
      omega
  | take hfirst _ _ ih =>
    rename_i before x₀ text rest _ _ _
    rw [List.append_assoc] at hsame
    rcases List.append_eq_append_iff.mp hsame with ⟨w, rfl, hw⟩ | ⟨w, rfl, hw⟩
    · simp only [List.length_append] at hstart ⊢
      have hend := ih hw (by omega) (by simpa using hmatch)
      omega
    · by_cases hne : w = []
      · subst hne
        simp only [List.append_nil, List.length_append] at hstart hmatch ⊢
        have hend := @ih [] hw.symm (by simpa using hstart) (by simpa using hmatch)
        simp only [List.length_nil] at hend
        omega
      · have hend := hr before a' w (text ++ rest) x after hfirst hne hw.symm hmatch
        simp only [List.length_append]
        omega

theorem Scan.kept_at_start {B b : List α} (hr : Proper r)
    (h : Scan r before (B ++ b) rest marks)
    (hfree : ∀ a x after, B ++ (b ++ rest) = a ++ (x ++ after) →
      Matches r (a.reverse ++ before) x after → 0 < a.length + x.length → B.length ≤ a.length) :
    ∃ C, marks = B.map some ++ C ∧ Scan r (B.reverse ++ before) b rest C := by
  refine h.of_none fun x y hxy hy => ?_
  by_contra hsome
  obtain ⟨z, after, hz, hmatch⟩ := exists_matches hsome
  have hpos : 0 < z.length := by
    rw [List.length_pos_iff]
    rintro rfl
    exact hr _ _ hmatch
  have hend := hfree x z after (by rw [hxy, List.append_assoc, hz]) hmatch (by omega)
  have hypos := List.length_pos_iff.mpr hy
  rw [hxy, List.length_append] at hend
  omega

/-- A part that no match shares a character with is kept. -/
theorem Scan.kept_of_free {a B b : List α} (hr : Proper r) (hB : B ≠ [])
    (h : Scan r before text rest marks) (htext : text = a ++ (B ++ b))
    (hfree : ∀ a' x after, a ++ (B ++ (b ++ rest)) = a' ++ (x ++ after) →
      Matches r (a'.reverse ++ before) x after → a.length < a'.length + x.length →
      a.length + B.length ≤ a'.length) :
    ∃ A C, marks = A ++ (B.map some ++ C) ∧ Scan r before a (B ++ (b ++ rest)) A ∧
      Scan r (B.reverse ++ (a.reverse ++ before)) b rest C := by
  have hBpos := List.length_pos_iff.mpr hB
  induction h generalizing a with
  | nil =>
    obtain ⟨-, hnil⟩ := List.append_eq_nil_iff.mp htext.symm
    exact absurd (List.append_eq_nil_iff.mp hnil).1 hB
  | keep hnone hmore ih =>
    rename_i before text rest c marks
    cases a with
    | nil =>
      have hwhole : Scan r before (B ++ b) rest (some c :: marks) := htext ▸ .keep hnone hmore
      obtain ⟨C, hmarks, hC⟩ := hwhole.kept_at_start hr (by simpa using hfree)
      exact ⟨[], C, hmarks, .nil, hC⟩
    | cons d a =>
      obtain ⟨rfl, hrest⟩ := List.cons.inj htext
      obtain ⟨A, C, rfl, hA, hC⟩ := ih hrest fun a' x after hsame hmatch hlate => by
        have hfar := hfree (c :: a') x after (by rw [List.cons_append, hsame]; rfl)
          (by simpa using hmatch) (by simp only [List.length_cons]; omega)
        simp only [List.length_cons] at hfar
        omega
      refine ⟨some c :: A, C, rfl, .keep ?_ hA, by simpa using hC⟩
      change text = a ++ (B ++ b) at hrest
      rw [hrest] at hnone
      simpa using hnone
  | take hfirst hx hmore ih =>
    rename_i before x₀ text rest marks
    have hshort : x₀.length ≤ a.length := by
      by_contra hlong
      have hfar := hfree [] x₀ (text ++ rest)
        (by rw [List.nil_append, ← List.append_assoc x₀, htext]; simp) hfirst.matches
        (by simp only [List.length_nil]; omega)
      simp only [List.length_nil] at hfar
      omega
    obtain ⟨w, rfl⟩ : x₀ <+: a :=
      List.prefix_of_prefix_length_le (List.prefix_append x₀ text) (htext ▸ List.prefix_append a _)
        hshort
    have hw : text = w ++ (B ++ b) := by
      rw [List.append_assoc] at htext
      exact List.append_cancel_left htext
    obtain ⟨A, C, rfl, hA, hC⟩ := ih hw fun a' x after hsame hmatch hlate => by
      have hfar := hfree (x₀ ++ a') x after (by simp [hsame]) (by simpa using hmatch)
        (by simp only [List.length_append]; omega)
      simp only [List.length_append] at hfar
      omega
    refine ⟨none :: A, C, rfl, .take ?_ hx hA, by simpa using hC⟩
    rw [hw] at hfirst
    simpa using hfirst

end keeping

/-- Each match starts and ends with a character of a word, and no word goes on beyond it. -/
structure WordEdged (r : Regex α) (word : α → Bool) : Prop where
  first : ∀ {before x after}, Matches r before x after → x.head?.any word = true
  last : ∀ {before x after}, Matches r before x after → x.getLast?.any word = true
  start : ∀ {before x after}, Matches r before x after → before.head?.any word = false
  finish : ∀ {before x after}, Matches r before x after → after.head?.any word = false

section neighbours
variable {r : Regex α} {word : α → Bool} {new before a b rest : List α} {A C : List (Option α)}

/-- Behind a part that starts within a word stands the same character as before. -/
theorem Scan.getLast?_written (hr : WordEdged r word) (h : Scan r before a rest A)
    (hrest : rest.head?.any word = true) : (written new A).getLast? = a.getLast? := by
  rcases List.eq_nil_or_concat A with rfl | ⟨A, mark, rfl⟩
  · cases h
    rfl
  · rw [List.concat_eq_append] at h ⊢
    obtain ⟨a, b, rfl, -, hlast⟩ := h.split
    cases hlast with
    | keep hnone hmore =>
      cases hmore
      rw [written_append, List.getLast?_append, List.getLast?_append]
      rfl
    | take hfirst hx hmore =>
      cases hmore
      have hend := hr.finish hfirst.matches
      rw [List.nil_append, hrest] at hend
      cases hend

/-- Ahead of a part that ends within a word stands the same character as before. -/
theorem Scan.head?_written (hr : WordEdged r word) (h : Scan r before b rest C)
    (hbefore : before.head?.any word = true) : (written new C).head? = b.head? := by
  cases h with
  | nil => rfl
  | keep hnone hmore => rfl
  | take hfirst hx hmore =>
    have hstart := hr.start hfirst.matches
    rw [hbefore] at hstart
    cases hstart

end neighbours

section left
variable {r : Regex α} {word : α → Bool} {new text B a' b' : List α}

theorem exists_origin (hr : Proper r) (hB : Apart new B)
    (h : replaceAll r new text = a' ++ (B ++ b')) : ∃ a b A C, text = a ++ (B ++ b) ∧
      Scan r [] a (B ++ b) A ∧ Scan r a.reverse B b (B.map some) ∧
      Scan r (B.reverse ++ a.reverse) b [] C ∧ written new A = a' ∧ written new C = b' := by
  obtain ⟨marks, hscan, hwritten⟩ := scan_replaceAll hr new text
  rw [hwritten] at h
  obtain ⟨A, C, rfl, hA, hC⟩ := kept_of_written hB h
  obtain ⟨a, t, rfl, ha, ht⟩ := hscan.split
  obtain ⟨B', b, rfl, hB', hb⟩ := ht.split
  obtain ⟨rfl, -⟩ := hB'.kept
  simp only [List.append_nil] at ha hB' hb
  exact ⟨a, b, A, C, rfl, ha, hB', hb, hA, hC⟩

/-- A part that is left was there before, and no match starts within it. -/
theorem free_of_replaceAll (hr : Proper r) (hB : Apart new B)
    (h : replaceAll r new text = a' ++ (B ++ b')) : ∃ a b, text = a ++ (B ++ b) ∧
      ∀ x y, B = x ++ y → y ≠ [] → r.paths (position (x.reverse ++ a.reverse) (y ++ b)) = [] := by
  obtain ⟨a, b, A, C, htext, -, hkept, -, -, -⟩ := exists_origin hr hB h
  exact ⟨a, b, htext, hkept.kept.2⟩

/-- A part that starts and ends within words is left with its neighbours exactly where no match
touches it. -/
theorem left_iff (hr : Proper r) (hcover : Covering r) (hedged : WordEdged r word)
    (hB : Apart new B) (hhead : B.head?.any word = true) (hlast : B.getLast?.any word = true)
    (P : Option α → Option α → Prop) :
    (∃ a b, replaceAll r new text = a ++ (B ++ b) ∧ P a.getLast? b.head?) ↔
      ∃ a b, text = a ++ (B ++ b) ∧ P a.getLast? b.head? ∧ ¬ Touched r a B b := by
  have hne : B ≠ [] := by
    rintro rfl
    cases hhead
  have hhead' (b : List α) : (B ++ b).head?.any word = true := by
    rw [List.head?_append_of_ne_nil _ hne]
    exact hhead
  have hlast' (a : List α) : (B.reverse ++ a).head?.any word = true := by
    rw [List.head?_append_of_ne_nil _ (by simpa using hne), List.head?_reverse]
    exact hlast
  constructor
  · rintro ⟨a', b', h, hP⟩
    obtain ⟨a, b, A, C, rfl, ha, hkept, hb, rfl, rfl⟩ := exists_origin hr hB h
    rw [ha.getLast?_written hedged (hhead' b), hb.head?_written hedged (hlast' _)] at hP
    refine ⟨a, b, rfl, hP, ?_⟩
    rintro ⟨before, x, after, hsame, hmatch, hbegin, hend⟩
    rcases Nat.lt_or_ge before.length a.length with hstart | hstart
    · have := ha.ends_within hcover hsame hstart (by simpa using hmatch)
      omega
    · obtain ⟨w, rfl⟩ : a <+: before :=
        List.prefix_of_prefix_length_le (List.prefix_append a (B ++ b))
          (hsame ▸ List.prefix_append before _) hstart
      rw [List.append_assoc] at hsame
      have hrest : B ++ b = w ++ (x ++ after) := List.append_cancel_left hsame
      obtain ⟨y, rfl⟩ : w <+: B := by
        refine List.prefix_of_prefix_length_le (hrest ▸ List.prefix_append w (x ++ after))
          (List.prefix_append B b) ?_
        simp only [List.length_append] at hend
        omega
      have hy : y ≠ [] := by
        rintro rfl
        simp at hend
      rw [List.append_assoc] at hrest
      have hnone := hkept.kept.2 w y rfl hy
      rw [List.append_cancel_left hrest] at hnone
      refine hmatch.ne_nil ?_
      simpa using hnone
  · rintro ⟨a, b, rfl, hP, hfree⟩
    obtain ⟨marks, hscan, hwritten⟩ := scan_replaceAll hr new (a ++ (B ++ b))
    obtain ⟨A, C, rfl, ha, hb⟩ :=
      hscan.kept_of_free hr hne rfl fun a' x after hsame hmatch hbegin => by
        by_contra hend
        exact hfree ⟨a', x, after, by simpa using hsame, by simpa using hmatch, hbegin, by omega⟩
    rw [List.append_nil] at ha hb
    refine ⟨written new A, written new C, ?_, ?_⟩
    · rw [hwritten, written_append, written_append, written_some]
    · rwa [ha.getLast?_written hedged (by simpa using hhead' b), hb.head?_written hedged (hlast' _)]

end left

end Akabbo.GlobalReplacement
