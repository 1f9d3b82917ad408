import Mathlib.Data.List.Basic

/-!
# Comma-separated records

Text as RFC 4180 has it: fields with commas between them, on lines that end in a line feed, with or
without a carriage return before it. A field in quotes may hold anything, a quote as two of them.
-/
namespace Akabbo.CommaSeparated

/-- Where in a field a reader is. -/
inductive Position
  | start | bare | quoted | closed | carriage
  deriving DecidableEq, Repr

structure Reader where
  records : List (List (List Char)) := []
  fields : List (List Char) := []
  field : List Char := []
  position : Position := .start
  deriving DecidableEq, Repr

def Reader.endField (r : Reader) : Reader :=
  { records := r.records, fields := r.fields ++ [r.field] }

def Reader.endRecord (r : Reader) : Reader :=
  { records := r.records ++ [r.fields ++ [r.field]] }

def Reader.take (r : Reader) (c : Char) (position : Position) : Reader :=
  { r with field := r.field ++ [c], position }

/-- What a character outside quotes does. -/
def Reader.separate (r : Reader) (c : Char) : Option Reader :=
  if c = ',' then some r.endField
  else if c = '\n' then some r.endRecord
  else if c = '\r' then some { r with position := .carriage }
  else none

def isSpecial (c : Char) : Bool := c == '\x22' || c == ',' || c == '\n' || c == '\r'

def step (r : Reader) (c : Char) : Option Reader :=
  match r.position with
  | .start =>
    if c = '\x22' then some { r with position := .quoted }
    else if isSpecial c then r.separate c
    else some (r.take c .bare)
  | .bare => if isSpecial c then r.separate c else some (r.take c .bare)
  | .quoted => if c = '\x22' then some { r with position := .closed } else some (r.take c .quoted)
  -- a second quote is one of the field
  | .closed => if c = '\x22' then some (r.take c .quoted) else r.separate c
  | .carriage => if c = '\n' then some r.endRecord else none

/-- The records at the end of the text, where the last line may have ended or not. -/
def finish (r : Reader) : Option (List (List (List Char))) :=
  match r.position with
  | .quoted | .carriage => none
  | .start | .bare | .closed =>
    if r = { records := r.records } then some r.records else some r.endRecord.records

def readFrom (r : Reader) (text : List Char) : Option Reader := text.foldlM step r

def read (text : List Char) : Option (List (List (List Char))) := (readFrom {} text).bind finish

def double (c : Char) : List Char := if c = '\x22' then ['\x22', '\x22'] else [c]

def quote (field : List Char) : List Char := '\x22' :: field.flatMap double ++ ['\x22']

/-- How a field may be written. -/
inductive Written : List Char → List Char → Prop
  | bare {field : List Char} (h : ∀ c ∈ field, isSpecial c = false) : Written field field
  | quoted (field : List Char) : Written field (quote field)

theorem written_of_all {field : List Char} (h : (field.all fun c => !isSpecial c) = true) :
    Written field field :=
  .bare fun c hc => by
    have hplain := List.all_eq_true.mp h c hc
    rwa [Bool.not_eq_true'] at hplain

/-- A reader that has read one field of a record, or more. -/
def Between (r : Reader) (records : List (List (List Char))) (fields : List (List Char)) : Prop :=
  r.records = records ∧ r.fields ++ [r.field] = fields ∧
    (r.position = .start ∨ r.position = .bare ∨ r.position = .closed)

theorem readFrom_append (r : Reader) (a b : List Char) :
    readFrom r (a ++ b) = (readFrom r a).bind fun r => readFrom r b := List.foldlM_append

theorem readFrom_cons (r : Reader) (c : Char) (rest : List Char) :
    readFrom r (c :: rest) = (step r c).bind fun r => readFrom r rest := List.foldlM_cons

theorem readFrom_double (r : Reader) (h : r.position = .quoted) (field : List Char) :
    readFrom r (field.flatMap double) = some { r with field := r.field ++ field } := by
  induction field generalizing r with
  | nil =>
    rw [List.append_nil]
    rfl
  | cons c field ih =>
    have hstep : readFrom r (double c) = some (r.take c .quoted) := by
      unfold double
      split_ifs with hc
      · subst hc
        simp [readFrom, step, h, Reader.take]
      · simp [readFrom, step, h, hc]
    rw [List.flatMap_cons, readFrom_append, hstep, Option.bind_some, ih _ rfl]
    simp [Reader.take, h]

theorem readFrom_bare {field : List Char} (hplain : ∀ c ∈ field, isSpecial c = false) (r : Reader)
    (h : r.position = .start ∨ r.position = .bare) :
    ∃ position, (position = .start ∨ position = .bare) ∧
      readFrom r field = some { r with field := r.field ++ field, position } := by
  induction field generalizing r with
  | nil =>
    refine ⟨r.position, h, ?_⟩
    rw [List.append_nil]
    rfl
  | cons c field ih =>
    have hc := hplain c List.mem_cons_self
    have hquote : c ≠ '\x22' := by
      rintro rfl
      exact absurd hc (by decide)
    have hstep : step r c = some (r.take c .bare) := by
      unfold step
      rcases h with h | h
      · rw [h]
        simp [hc, hquote]
      · rw [h]
        simp [hc]
    obtain ⟨position, hposition, hread⟩ := ih (fun d hd => hplain d (List.mem_cons_of_mem _ hd))
      (r.take c .bare) (.inr rfl)
    refine ⟨position, hposition, ?_⟩
    rw [readFrom_cons, hstep, Option.bind_some, hread]
    simp [Reader.take]

theorem readFrom_written {field text : List Char} (hw : Written field text)
    (records : List (List (List Char))) (fields : List (List Char)) :
    ∃ r, readFrom { records, fields } text = some r ∧ Between r records (fields ++ [field]) := by
  cases hw with
  | bare hplain =>
    obtain ⟨position, hposition, hread⟩ := readFrom_bare hplain { records, fields } (.inl rfl)
    refine ⟨_, hread, rfl, by simp, ?_⟩
    exact hposition.imp_right .inl
  | quoted =>
    have hopen : step { records, fields } '\x22' = some { records, fields, position := .quoted } := rfl
    refine ⟨{ records, fields, field, position := .closed }, ?_, rfl, rfl, .inr (.inr rfl)⟩
    unfold quote
    rw [List.cons_append, readFrom_cons, hopen, Option.bind_some, readFrom_append,
      readFrom_double _ rfl, Option.bind_some]
    rfl

def line (fields : List (List Char)) : List Char := [','].intercalate fields

theorem step_comma {r : Reader} {records : List (List (List Char))} {fields : List (List Char)}
    (h : Between r records fields) : step r ',' = some { records, fields } := by
  obtain ⟨rfl, rfl, hposition⟩ := h
  unfold step
  rcases hposition with h | h | h <;> rw [h] <;> rfl

theorem step_newline {r : Reader} {records : List (List (List Char))} {fields : List (List Char)}
    (h : Between r records fields) : step r '\n' = some { records := records ++ [fields] } := by
  obtain ⟨rfl, rfl, hposition⟩ := h
  unfold step
  rcases hposition with h | h | h <;> rw [h] <;> rfl

theorem readFrom_line {record texts : List (List Char)} (hw : List.Forall₂ Written record texts)
    (hne : record ≠ []) (records : List (List (List Char))) (fields : List (List Char)) :
    ∃ r, readFrom { records, fields } (line texts) = some r ∧
      Between r records (fields ++ record) := by
  induction hw generalizing fields with
  | nil => exact absurd rfl hne
  | @cons field text record texts hfield hrest ih =>
    obtain ⟨r, hread, hr⟩ := readFrom_written hfield records fields
    cases hrest with
    | nil => exact ⟨r, by rwa [line, List.intercalate_singleton], hr⟩
    | cons hnext hmore =>
      obtain ⟨r', hread', hr'⟩ := ih (List.cons_ne_nil _ _) (fields ++ [field])
      refine ⟨r', ?_, by simpa using hr'⟩
      rw [line, List.intercalate_cons_cons, List.append_assoc, readFrom_append, hread,
        Option.bind_some, List.singleton_append, readFrom_cons, step_comma hr, Option.bind_some]
      exact hread'

def lines (records : List (List Char)) : List Char := ['\n'].intercalate records

theorem readFrom_lines {records texts : List (List (List Char))}
    (hw : List.Forall₂ (List.Forall₂ Written) records texts) (hrecords : ∀ r ∈ records, r ≠ [])
    (hne : records ≠ []) (done : List (List (List Char))) :
    ∃ r, readFrom { records := done } (lines (texts.map line)) = some r ∧
      ∃ last, records.getLast? = some last ∧ Between r (done ++ records.dropLast) last := by
  induction hw generalizing done with
  | nil => exact absurd rfl hne
  | @cons record text records texts hrecord hrest ih =>
    obtain ⟨r, hread, hr⟩ := readFrom_line hrecord (hrecords _ List.mem_cons_self) done []
    cases hrest with
    | nil =>
      refine ⟨r, by rwa [List.map_singleton, lines, List.intercalate_singleton], record, rfl, ?_⟩
      simpa using hr
    | cons hnext hmore =>
      obtain ⟨r', hread', last, hlast, hr'⟩ := ih
        (fun r hr => hrecords r (List.mem_cons_of_mem _ hr)) (List.cons_ne_nil _ _) (done ++ [record])
      refine ⟨r', ?_, last, ?_, ?_⟩
      · rw [List.map_cons, List.map_cons, lines, List.intercalate_cons_cons, List.append_assoc,
          readFrom_append, hread, Option.bind_some, List.singleton_append, readFrom_cons,
          step_newline hr, Option.bind_some]
        exact hread'
      · rw [List.getLast?_cons_cons]
        exact hlast
      · simpa using hr'

/-- Records of two fields and more are read as they were written. -/
theorem read_lines {records texts : List (List (List Char))}
    (hw : List.Forall₂ (List.Forall₂ Written) records texts) (hrecords : ∀ r ∈ records, 2 ≤ r.length)
    (hne : records ≠ []) : read (lines (texts.map line)) = some records := by
  obtain ⟨r, hread, last, hlast, hrecs, hfields, hposition⟩ := readFrom_lines hw
    (fun r hr => List.ne_nil_of_length_pos (by have := hrecords r hr; omega)) hne []
  have hlong := hrecords last (List.mem_of_getLast? hlast)
  have hfresh : r ≠ { records := r.records } := by
    intro h
    rw [← hfields, h] at hlong
    simp at hlong
  have hend : r.endRecord.records = records := by
    unfold Reader.endRecord
    rw [hrecs, hfields, List.nil_append]
    exact List.dropLast_append_getLast? last hlast
  unfold read
  rw [hread, Option.bind_some]
  unfold finish
  rcases hposition with h | h | h <;> rw [h] <;> dsimp only <;> rw [if_neg hfresh, hend]

end Akabbo.CommaSeparated
