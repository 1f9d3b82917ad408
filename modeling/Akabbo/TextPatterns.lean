import Akabbo.RegularExpressions
import Mathlib.Data.List.TakeWhile

/-!
# Text as JavaScript sees it

White space, digits and letters, and patterns that ignore the case of the letters they name.
-/
namespace Akabbo.TextPatterns
open RegularExpressions

/-- `\s`, which is also what `trim` takes off. -/
def isSpace (c : Char) : Bool :=
  let n := c.toNat
  (9 ≤ n && n ≤ 13) || n == 32 || n == 160 || n == 5760 || (8192 ≤ n && n ≤ 8202) ||
    n == 8232 || n == 8233 || n == 8239 || n == 8287 || n == 12288 || n == 65279

/-- What `.` does not match. -/
def isLineEnd (c : Char) : Bool := c.toNat == 10 || c.toNat == 13 || c.toNat == 8232 || c.toNat == 8233

/-- `\w`. -/
def isWord (c : Char) : Bool := c.isAlphanum || c == '_'

def trim (text : List Char) : List Char :=
  ((text.dropWhile isSpace).reverse.dropWhile isSpace).reverse

/-- `text.replace(/\s+/g, ' ')`. -/
def collapse : List Char → List Char
  | [] => []
  | c :: rest =>
    if isSpace c then
      match collapse rest with
      | ' ' :: more => ' ' :: more
      | more => ' ' :: more
    else c :: collapse rest

/-- `toLowerCase`, as far as it concerns ASCII letters: among the others only the Kelvin sign becomes
one. -/
def lowerChar (c : Char) : Char := if c.toNat = 8490 then 'k' else c.toLower

def toLowerCase (text : List Char) : List Char := text.map lowerChar

section trim
variable {lead core trail text : List Char}

/-- Neither end of a text is white space. -/
structure Inked (text : List Char) : Prop where
  first : ∀ a ∈ text.head?, isSpace a = false
  last : ∀ a ∈ text.getLast?, isSpace a = false

/-- On a list that is written out, reading every character decides. -/
theorem forall_mem_of_all {p : Char → Prop} [DecidablePred p] {x : List Char}
    (h : (x.all fun a => decide (p a)) = true) : ∀ a ∈ x, p a :=
  fun a ha => of_decide_eq_true (List.all_eq_true.mp h a ha)

theorem forall_mem_words_of_all {p : Char → Prop} [DecidablePred p] {words : List (List Char)}
    (h : (words.all fun word => word.all fun a => decide (p a)) = true) :
    ∀ word ∈ words, ∀ a ∈ word, p a :=
  fun word hword => forall_mem_of_all (List.all_eq_true.mp h word hword)

theorem inked_of_all {x : List Char} (h : (x.all fun a => !isSpace a) = true) : Inked x := by
  have hink : ∀ a ∈ x, isSpace a = false := fun a ha => by
    have hsome := List.all_eq_true.mp h a ha
    rwa [Bool.not_eq_true'] at hsome
  exact ⟨fun a ha => hink a (List.mem_of_mem_head? ha), fun a ha => hink a (List.mem_of_mem_getLast? ha)⟩

theorem dropWhile_inked (h : ∀ a ∈ text.head?, isSpace a = false) : text.dropWhile isSpace = text := by
  cases text with
  | nil => rfl
  | cons a text => exact List.dropWhile_cons_of_neg (by rw [h a rfl]; exact Bool.false_ne_true)

theorem trim_append (hlead : ∀ a ∈ lead, isSpace a = true) (htrail : ∀ a ∈ trail, isSpace a = true)
    (hne : core ≠ []) (hcore : Inked core) : trim (lead ++ core ++ trail) = core := by
  have hfirst : ∀ a ∈ (core ++ trail).head?, isSpace a = false := by
    rw [List.head?_append_of_ne_nil _ hne]
    exact hcore.first
  have hlast : ∀ a ∈ core.reverse.head?, isSpace a = false := by
    rw [List.head?_reverse]
    exact hcore.last
  unfold trim
  rw [List.append_assoc, List.dropWhile_append_of_pos hlead, dropWhile_inked hfirst,
    List.reverse_append, List.dropWhile_append_of_pos fun a ha => htrail a (List.mem_reverse.mp ha),
    dropWhile_inked hlast, List.reverse_reverse]

theorem trim_inked (hne : text ≠ []) (h : Inked text) : trim text = text := by
  have hself : trim ([] ++ text ++ []) = text := trim_append nofun nofun hne h
  simpa using hself

theorem inked_trim (text : List Char) : Inked (trim text) := by
  have hhead (text : List Char) : ∀ a ∈ (text.dropWhile isSpace).head?, isSpace a = false := by
    intro a ha
    have hnot := List.head?_dropWhile_not isSpace text
    rw [show (text.dropWhile isSpace).head? = some a from ha] at hnot
    simpa using hnot
  constructor
  · intro a ha
    unfold trim at ha
    rw [List.head?_reverse] at ha
    refine hhead text a ?_
    obtain ⟨rest, hrest⟩ := List.dropWhile_suffix (l := (text.dropWhile isSpace).reverse) isSpace
    have hlast : (text.dropWhile isSpace).reverse.getLast? = some a := by
      rw [← hrest, List.getLast?_append, show List.getLast? _ = some a from ha]
      rfl
    rwa [List.getLast?_reverse] at hlast
  · unfold trim
    rw [List.getLast?_reverse]
    exact hhead _

/-- A text is its white space about what trimming leaves. -/
theorem exists_trim (text : List Char) : ∃ lead trail, (∀ a ∈ lead, isSpace a = true) ∧
    (∀ a ∈ trail, isSpace a = true) ∧ text = lead ++ trim text ++ trail := by
  refine ⟨text.takeWhile isSpace, ((text.dropWhile isSpace).reverse.takeWhile isSpace).reverse,
    fun a ha => List.mem_takeWhile_imp ha,
    fun a ha => List.mem_takeWhile_imp (List.mem_reverse.mp ha), ?_⟩
  unfold trim
  rw [List.append_assoc, ← List.reverse_append, List.takeWhile_append_dropWhile,
    List.reverse_reverse, List.takeWhile_append_dropWhile]

end trim

section lower
variable {a : Char}

theorem toNat_toLower (a : Char) : a.toLower.toNat = a.toNat ∨
    65 ≤ a.toNat ∧ a.toNat ≤ 90 ∧ a.toLower.toNat = a.toNat + 32 := by
  unfold Char.toLower
  split
  · next h =>
    have hlow : 65 ≤ a.val.toNat := h.1
    have hhigh : a.val.toNat ≤ 90 := h.2
    have hstep : ('a'.val - 'A'.val).toNat = 32 := by decide
    refine .inr ⟨hlow, hhigh, ?_⟩
    change (a.val + ('a'.val - 'A'.val)).toNat = a.val.toNat + 32
    rw [UInt32.toNat_add]
    omega
  · exact .inl rfl

/-- Only letters change, and only into letters. -/
theorem lowerChar_eq_or (a : Char) : lowerChar a = a ∨
    (65 ≤ a.toNat ∧ a.toNat ≤ 90 ∨ a.toNat = 8490) ∧
      97 ≤ (lowerChar a).toNat ∧ (lowerChar a).toNat ≤ 122 := by
  unfold lowerChar
  by_cases hkelvin : a.toNat = 8490
  · rw [if_pos hkelvin]
    exact .inr ⟨.inr hkelvin, by decide⟩
  · rw [if_neg hkelvin]
    rcases toNat_toLower a with hsame | hupper
    · exact .inl (Char.toNat_inj.mp hsame)
    · refine .inr ⟨.inl ⟨hupper.1, hupper.2.1⟩, ?_⟩
      omega

theorem isSpace_lowerChar (a : Char) : isSpace (lowerChar a) = isSpace a := by
  rcases lowerChar_eq_or a with hsame | ⟨hbefore, hafter⟩
  · rw [hsame]
  · have hspace (b : Char) (h : 65 ≤ b.toNat ∧ b.toNat ≤ 122 ∨ b.toNat = 8490) :
        isSpace b = false := by
      unfold isSpace
      simp only [Bool.or_eq_false_iff, Bool.and_eq_false_iff, decide_eq_false_iff_not,
        beq_eq_false_iff_ne]
      omega
    rw [hspace _ (by omega), hspace a (by omega)]

theorem lowerChar_eq_iff {b : Char} (hb : b.toNat < 65) : lowerChar a = b ↔ a = b := by
  rcases lowerChar_eq_or a with hsame | ⟨hbefore, hafter⟩
  · rw [hsame]
  · constructor
    · rintro rfl
      omega
    · rintro rfl
      omega

theorem toNat_of_isDigit (h : a.isDigit = true) : 48 ≤ a.toNat ∧ a.toNat ≤ 57 := by
  simp only [Char.isDigit, Bool.and_eq_true, decide_eq_true_eq, ge_iff_le,
    UInt32.le_iff_toNat_le] at h
  exact h

theorem isSpace_of_isDigit (h : a.isDigit = true) : isSpace a = false := by
  have := toNat_of_isDigit h
  unfold isSpace
  simp only [Bool.or_eq_false_iff, Bool.and_eq_false_iff, decide_eq_false_iff_not,
    beq_eq_false_iff_ne]
  omega

theorem isAlpha_iff : a.isAlpha = true ↔
    65 ≤ a.toNat ∧ a.toNat ≤ 90 ∨ 97 ≤ a.toNat ∧ a.toNat ≤ 122 := by
  change (decide (65 ≤ a.val ∧ a.val ≤ 90) || (decide (97 ≤ a.val) && decide (a.val ≤ 122)))
    = true ↔ _
  simp only [Bool.or_eq_true, Bool.and_eq_true, decide_eq_true_eq, UInt32.le_iff_toNat_le]
  rfl

theorem isWord_iff : isWord a = true ↔ 48 ≤ a.toNat ∧ a.toNat ≤ 57 ∨ 65 ≤ a.toNat ∧ a.toNat ≤ 90 ∨
    97 ≤ a.toNat ∧ a.toNat ≤ 122 ∨ a.toNat = 95 := by
  have hline : a = '_' ↔ a.toNat = 95 := Char.toNat_inj.symm
  simp only [isWord, Char.isAlphanum, Char.isDigit, isAlpha_iff, Bool.or_eq_true, Bool.and_eq_true,
    decide_eq_true_eq, UInt32.le_iff_toNat_le, ge_iff_le, beq_iff_eq, hline]
  change ((65 ≤ a.toNat ∧ a.toNat ≤ 90 ∨ 97 ≤ a.toNat ∧ a.toNat ≤ 122) ∨
    48 ≤ a.toNat ∧ a.toNat ≤ 57) ∨ a.toNat = 95 ↔ _
  omega

theorem isWord_of_isDigit (h : a.isDigit = true) : isWord a = true :=
  isWord_iff.mpr (.inl (toNat_of_isDigit h))

theorem isWord_of_isSpace (h : isSpace a = true) : isWord a = false := by
  rw [Bool.eq_false_iff]
  intro hword
  rw [isWord_iff] at hword
  unfold isSpace at h
  simp only [Bool.or_eq_true, Bool.and_eq_true, decide_eq_true_eq, beq_iff_eq] at h
  omega

theorem lowerChar_of_isDigit (h : a.isDigit = true) : lowerChar a = a := by
  have hrange := toNat_of_isDigit h
  rcases lowerChar_eq_or a with hsame | ⟨hbefore, -⟩
  · exact hsame
  · omega

theorem isDigit_lowerChar (a : Char) : (lowerChar a).isDigit = a.isDigit := by
  rcases lowerChar_eq_or a with hsame | ⟨hbefore, hafter⟩
  · rw [hsame]
  · rw [Bool.eq_iff_iff]
    constructor
    · intro h
      have := toNat_of_isDigit h
      omega
    · intro h
      have := toNat_of_isDigit h
      omega

/-- Lower case is lower case already. -/
theorem toLower_lowerChar (a : Char) : (lowerChar a).toLower = lowerChar a := by
  rcases toNat_toLower (lowerChar a) with hsame | ⟨hlow, hhigh, -⟩
  · exact Char.toNat_inj.mp hsame
  · rcases lowerChar_eq_or a with hsame | ⟨-, hafter⟩
    · rw [hsame] at hlow hhigh
      have hlower : lowerChar a = a.toLower := if_neg (by omega)
      rcases toNat_toLower a with hself | hupper
      · rw [hlower] at hsame
        rw [hlower, hsame, hsame]
      · rw [← hlower, hsame] at hupper
        omega
    · omega

theorem toLower_of_isDigit (h : a.isDigit = true) : a.toLower = a := by
  have hrange := toNat_of_isDigit h
  rcases toNat_toLower a with hsame | hupper
  · exact Char.toNat_inj.mp hsame
  · omega

end lower

def digit : Regex Char := .one Char.isDigit

def space : Regex Char := .one isSpace

def nonSpace : Regex Char := .one fun c => !isSpace c

/-- `.`. -/
def dot : Regex Char := .one fun c => !isLineEnd c

def bound : Regex Char := .boundary isWord

def sign (c : Char) : Regex Char := .one fun a => a == c

/-- A lower-case letter in either case. -/
def letter (c : Char) : Regex Char := .one fun a => a.toLower == c

def literal (word : String) : Regex Char := Regex.all (word.toList.map letter)

section literals
variable {c d : Cursor Char}

theorem mem_sign {a : Char} : d ∈ (sign a).paths c ↔ Reads [a] c d := by
  refine mem_one.trans ⟨?_, fun h => ⟨a, by simp, h⟩⟩
  rintro ⟨b, hb, hreads⟩
  rw [beq_iff_eq] at hb
  rwa [← hb]

theorem mem_letter {a : Char} : d ∈ (letter a).paths c ↔ ∃ b, b.toLower = a ∧ Reads [b] c d :=
  mem_one.trans (exists_congr fun _ => and_congr_left fun _ => beq_iff_eq)

theorem mem_letters {word : List Char} : d ∈ (Regex.all (word.map letter)).paths c ↔
    ∃ x, x.map Char.toLower = word ∧ Reads x c d := by
  induction word generalizing c with
  | nil =>
    simp only [List.map_nil, Regex.all, mem_empty]
    constructor
    · intro h
      exact ⟨[], rfl, reads_nil.mpr h⟩
    · rintro ⟨x, hx, hreads⟩
      rw [List.map_eq_nil_iff] at hx
      exact reads_nil.mp (hx ▸ hreads)
  | cons a word ih =>
    have hcons : d ∈ (Regex.all ((a :: word).map letter)).paths c ↔
        ∃ e ∈ (letter a).paths c, d ∈ (Regex.all (word.map letter)).paths e := by
      cases word with
      | nil =>
        simp only [List.map_cons, List.map_nil, Regex.all, mem_empty]
        constructor
        · intro h
          exact ⟨d, h, rfl⟩
        · rintro ⟨e, he, rfl⟩
          exact he
      | cons b word => exact mem_seq
    rw [hcons]
    constructor
    · rintro ⟨e, he, hd⟩
      obtain ⟨b, hb, hfirst⟩ := mem_letter.mp he
      obtain ⟨x, hx, hrest⟩ := ih.mp hd
      exact ⟨b :: x, by rw [List.map_cons, hb, hx], hfirst.trans hrest⟩
    · rintro ⟨x, hx, hreads⟩
      obtain ⟨b, x, rfl⟩ := List.exists_cons_of_ne_nil (l := x) (by rintro rfl; cases hx)
      rw [List.map_cons, List.cons.injEq] at hx
      have hfirst : Reads [b] c ⟨b :: c.before, x ++ d.after, c.groups⟩ :=
        ⟨hreads.after, rfl, rfl⟩
      have hrest : Reads x ⟨b :: c.before, x ++ d.after, c.groups⟩ d :=
        ⟨rfl, by simpa using hreads.before, hreads.groups⟩
      exact ⟨_, mem_letter.mpr ⟨b, hx.1, hfirst⟩, ih.mpr ⟨x, hx.2, hrest⟩⟩

theorem mem_literal {word : String} : d ∈ (literal word).paths c ↔
    ∃ x, x.map Char.toLower = word.toList ∧ Reads x c d := mem_letters

end literals
end Akabbo.TextPatterns
