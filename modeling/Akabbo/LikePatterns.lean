import Mathlib.Data.List.Infix
import Mathlib.Tactic

/-!
# Patterns of SQL

A search for what starts with a text hands the text over as a pattern of LIKE, with nothing
escaped, and `%` after it.
-/
namespace Akabbo.LikePatterns

inductive Piece
  | run
  | one
  | char (c : Char)
  deriving DecidableEq, Repr

/-- `%` stands for any run of characters and `_` for any one; a backslash makes the character after
it stand for itself. -/
def pieces : List Char → List Piece
  | [] => []
  | c :: pattern =>
      if c = '%' then .run :: pieces pattern
      else if c = '_' then .one :: pieces pattern
      else if c = '\\' then
        match pattern with
        | [] => [.char c]
        | d :: pattern => .char d :: pieces pattern
      else .char c :: pieces pattern

def fits : List Piece → List Char → Bool
  | [], text => text.isEmpty
  | .run :: pieces, text => text.tails.any fun rest => fits pieces rest
  | .one :: pieces, text =>
      match text with
      | [] => false
      | _ :: text => fits pieces text
  | .char c :: pieces, text =>
      match text with
      | [] => false
      | d :: text => d == c && fits pieces text

def startsWith (text start : String) : Bool :=
  fits (pieces (start.toList ++ ['%'])) text.toList

/-- A character that stands for itself. -/
def IsPlain (c : Char) : Prop := c ≠ '%' ∧ c ≠ '_' ∧ c ≠ '\\'

section pieces
variable {p q text : List Char}

theorem pieces_append_of_plain (h : ∀ c ∈ p, IsPlain c) :
    pieces (p ++ q) = p.map Piece.char ++ pieces q := by
  induction p with
  | nil => rfl
  | cons c p ih =>
    obtain ⟨hrun, hone, hescape⟩ := h c List.mem_cons_self
    rw [List.cons_append, pieces.eq_def]
    dsimp only
    rw [if_neg hrun, if_neg hone, if_neg hescape, ih fun d hd => h d (List.mem_cons_of_mem _ hd)]
    rfl

/-- Characters that stand for themselves begin the text. -/
theorem fits_chars_append {pieces : List Piece} :
    fits (p.map Piece.char ++ pieces) text = true ↔ ∃ rest, text = p ++ rest ∧
      fits pieces rest = true := by
  induction p generalizing text with
  | nil => simp
  | cons c p ih =>
    rw [List.map_cons, List.cons_append]
    cases text with
    | nil => simp [fits]
    | cons d text =>
      simp only [fits, Bool.and_eq_true, beq_iff_eq, ih, List.cons_append, List.cons.injEq]
      constructor
      · rintro ⟨rfl, rest, rfl, hrest⟩
        exact ⟨rest, ⟨rfl, rfl⟩, hrest⟩
      · rintro ⟨rest, ⟨rfl, rfl⟩, hrest⟩
        exact ⟨rfl, rest, rfl, hrest⟩

theorem fits_run {rest : List Char} {pieces : List Piece} (h : fits pieces rest = true)
    (hsuffix : rest <:+ text) : fits (.run :: pieces) text = true := by
  rw [fits, List.any_eq_true]
  exact ⟨rest, (List.mem_tails _ _).mpr hsuffix, h⟩

/-- A pattern with no backslash fits its own text. -/
theorem fits_self (h : '\\' ∉ p) : fits (pieces (p ++ ['%'])) (p ++ q) = true := by
  induction p with
  | nil => exact fits_run (show fits [] [] = true from rfl) List.nil_suffix
  | cons c p ih =>
    have hrest := ih fun hmem => h (List.mem_cons_of_mem _ hmem)
    have hescape : c ≠ '\\' := fun hc => h (hc ▸ List.mem_cons_self)
    rw [List.cons_append, List.cons_append, pieces.eq_def]
    dsimp only
    split_ifs
    · exact fits_run hrest (List.suffix_cons _ _)
    · exact hrest
    · rw [fits]
      simp [hrest]

end pieces

theorem startsWith_iff {text start : String} (h : ∀ c ∈ start.toList, IsPlain c) :
    startsWith text start = true ↔ start.toList <+: text.toList := by
  unfold startsWith
  rw [pieces_append_of_plain h, fits_chars_append]
  constructor
  · rintro ⟨rest, hrest, -⟩
    exact ⟨rest, hrest.symm⟩
  · rintro ⟨rest, hrest⟩
    exact ⟨rest, hrest.symm, fits_run (show fits [] [] = true from rfl) List.nil_suffix⟩

/-- A text with no backslash begins its own continuations. -/
theorem startsWith_append {start : String} (h : '\\' ∉ start.toList) (rest : String) :
    startsWith (start ++ rest) start = true := by
  unfold startsWith
  rw [String.toList_append]
  exact fits_self h

/-- What starts with a text starts with the plain characters that begin the text. -/
theorem prefix_of_startsWith {text head rest : String} (hplain : ∀ c ∈ head.toList, IsPlain c)
    (h : startsWith text (head ++ rest) = true) : head.toList <+: text.toList := by
  unfold startsWith at h
  rw [String.toList_append, List.append_assoc, pieces_append_of_plain hplain,
    fits_chars_append] at h
  obtain ⟨tail, htail, -⟩ := h
  exact ⟨tail, htail.symm⟩

/-- `_` fits a space, and an escaped `_` only itself. -/
example : fits (pieces ['a', '_', '%']) ['a', ' ', 'b'] = true ∧
    fits (pieces ['a', '\\', '_', '%']) ['a', ' ', 'b'] = false := by decide

end Akabbo.LikePatterns
