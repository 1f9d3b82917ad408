import Mathlib.Algebra.Order.Ring.Rat

/-!
# Values of JSON as JavaScript uses them

Reading a field, falling back, iterating and turning into a key, each of which may throw.
-/
namespace Akabbo.JsonValues

/-- What `JSON.parse` may give; of the fields of one name the last one counts, and a numeral beyond
the range of numbers is infinite. -/
inductive JsonValue
  | null
  | bool (value : Bool)
  | number (value : ℚ)
  | infinity (negative : Bool)
  | string (value : String)
  | array (items : List JsonValue)
  | object (fields : List (String × JsonValue))

inductive Thrown
  | typeError | rangeError
  | rejected (message : String)
  deriving DecidableEq, Repr

namespace JsonValue

/-- `value.name`, for a name that nothing inherits; `undefined` is none. -/
def field (value : JsonValue) (name : String) : Option JsonValue :=
  match value with
  | .object fields => ((fields.filter fun entry => entry.1 == name).getLast?).map Prod.snd
  | _ => none

def get (value : JsonValue) (name : String) : Except Thrown (Option JsonValue) :=
  match value with
  | .null => .error .typeError
  | value => .ok (value.field name)

/-- `value ?? fallback`. -/
def orElse (value : Option JsonValue) (fallback : JsonValue) : JsonValue :=
  match value with
  | none | some .null => fallback
  | some value => value

def truthy : JsonValue → Bool
  | .null => false
  | .bool value => value
  | .number value => value != 0
  | .string value => value != ""
  | _ => true

/-- What `for … of` goes through. -/
def iterated : JsonValue → Except Thrown (List JsonValue)
  | .array items => .ok items
  | .string text => .ok (text.toList.map fun c => .string (String.ofList [c]))
  | _ => .error .typeError

section text
variable (numberText : ℚ → String)

mutual

/-- `String(value)`, where numbers print by `numberText`. -/
def toText : JsonValue → Except Thrown String
  | .null => .ok "null"
  | .bool value => .ok (if value then "true" else "false")
  | .number value => .ok (numberText value)
  | .infinity negative => .ok (if negative then "-Infinity" else "Infinity")
  | .string value => .ok value
  | .array items => (joined items).map (String.intercalate ",")
  | .object fields =>
    if fields.any fun entry => entry.1 == "toString" then .error .typeError
    else .ok "[object Object]"

def joined : List JsonValue → Except Thrown (List String)
  | [] => .ok []
  | .null :: items => (joined items).map ("" :: ·)
  | item :: items => do
    let text ← toText item
    (joined items).map (text :: ·)

end

/-- The name that a key stands for. -/
def keyText (key : Option JsonValue) : Except Thrown String :=
  match key with
  | none => .ok "undefined"
  | some key => toText numberText key

end text

end JsonValue

inductive Key
  | index (n : ℕ)
  | length
  | named
  deriving DecidableEq, Repr

/-- An array index is a number below 2^32 - 1 as it prints. -/
def keyOf (text : String) : Key :=
  let n := Nat.ofDigitChars 10 text.toList 0
  if text = "length" then .length
  else if Nat.toDigits 10 n = text.toList ∧ n < 2 ^ 32 - 1 then .index n
  else .named

/-- An array, with holes where nothing was written. -/
abbrev Sparse (α : Type) := List (Option α)

def setAt {α : Type} (xs : Sparse α) (n : ℕ) (a : α) : Sparse α :=
  if n < xs.length then xs.set n (some a)
  else xs ++ List.replicate (n - xs.length) none ++ [some a]

/-- `xs[key] = object`; an object is no length, and a name is read by nobody. -/
def assign {α : Type} (xs : Sparse α) (text : String) (a : α) : Except Thrown (Sparse α) :=
  match keyOf text with
  | .index n => .ok (setAt xs n a)
  | .length => .error .rangeError
  | .named => .ok xs

section sparse
variable {α : Type} {xs : Sparse α} {n : ℕ} {a : α}

theorem length_setAt : (setAt xs n a).length = max xs.length (n + 1) := by
  unfold setAt
  split_ifs with h
  · rw [List.length_set]
    omega
  · rw [List.length_append, List.length_append, List.length_replicate, List.length_singleton]
    omega

theorem getElem?_setAt_self : (setAt xs n a)[n]? = some (some a) := by
  unfold setAt
  split_ifs with h
  · rw [List.getElem?_set_self h]
  · rw [List.getElem?_append_right (by simp; omega)]
    have hzero : n - (xs ++ List.replicate (n - xs.length) none).length = 0 := by simp; omega
    rw [hzero]
    rfl

theorem getElem?_setAt_of_ne {i : ℕ} (hne : n ≠ i) (hi : i < xs.length) :
    (setAt xs n a)[i]? = xs[i]? := by
  unfold setAt
  split_ifs with h
  · rw [List.getElem?_set_ne hne]
  · rw [List.append_assoc, List.getElem?_append_left hi]

/-- An entry that is written to this place. -/
def writes {ε : Type} (key : ε → Except Thrown String) (i : ℕ) (entry : ε) : Bool :=
  match key entry with
  | .ok text => keyOf text == .index i
  | .error _ => false

/-- What one write leaves at a place that is there. -/
theorem assign_ok {text : String} {after : Sparse α} (h : assign xs text a = .ok after) {i : ℕ}
    (hi : i < xs.length) : xs.length ≤ after.length ∧
      after[i]? = if keyOf text = .index i then some (some a) else xs[i]? := by
  unfold assign at h
  cases hkey : keyOf text with
  | index n =>
    rw [hkey] at h
    obtain rfl := Except.ok.inj h
    refine ⟨by rw [length_setAt]; omega, ?_⟩
    by_cases hn : n = i
    · rw [if_pos (congrArg Key.index hn), ← hn, getElem?_setAt_self]
    · rw [if_neg (fun heq => hn (Key.index.inj heq)), getElem?_setAt_of_ne hn hi]
  | length =>
    rw [hkey] at h
    cases h
  | named =>
    rw [hkey] at h
    obtain rfl := Except.ok.inj h
    exact ⟨le_rfl, (if_neg nofun).symm⟩

section entries
variable {ε : Type} {key : ε → Except Thrown String} {value : ε → α} {entries : List ε}
  {before after : Sparse α}

/-- What a list of entries writes, one after the other. -/
def assignAll (key : ε → Except Thrown String) (value : ε → α) (entries : List ε)
    (before : Sparse α) : Except Thrown (Sparse α) :=
  entries.foldlM (fun xs entry => key entry >>= fun text => assign xs text (value entry)) before

theorem assignAll_cons {entry : ε} (h : assignAll key value (entry :: entries) before = .ok after) :
    ∃ text mid, key entry = .ok text ∧ assign before text (value entry) = .ok mid ∧
      assignAll key value entries mid = .ok after := by
  unfold assignAll at h
  rw [List.foldlM_cons] at h
  cases hkey : key entry with
  | error e =>
    rw [hkey] at h
    cases h
  | ok text =>
    rw [hkey] at h
    cases hmid : assign before text (value entry) with
    | error e =>
      change (assign before text (value entry) >>= _) = _ at h
      rw [hmid] at h
      cases h
    | ok mid =>
      change (assign before text (value entry) >>= _) = _ at h
      rw [hmid] at h
      exact ⟨text, mid, rfl, hmid, h⟩

/-- Each place holds what was last written to it, or what it held. -/
theorem getElem?_assignAll (h : assignAll key value entries before = .ok after) {i : ℕ}
    (hi : i < before.length) : before.length ≤ after.length ∧
      after[i]? = (((entries.filter (writes key i)).getLast?).map fun entry =>
        some (value entry)).or before[i]? := by
  induction entries generalizing before with
  | nil =>
    obtain rfl := Except.ok.inj h
    exact ⟨le_rfl, rfl⟩
  | cons entry entries ih =>
    obtain ⟨text, mid, hkey, hmid, hrest⟩ := assignAll_cons h
    obtain ⟨hlength, hplace⟩ := assign_ok hmid hi
    obtain ⟨hlength', hplace'⟩ := ih hrest (by omega)
    refine ⟨by omega, ?_⟩
    have hwrites : writes key i entry = decide (keyOf text = .index i) := by
      unfold writes
      rw [hkey]
      rfl
    rw [hplace', hplace]
    by_cases hindex : keyOf text = .index i
    · rw [List.filter_cons_of_pos (by rw [hwrites]; exact decide_eq_true hindex), if_pos hindex,
        List.getLast?_cons]
      cases (entries.filter (writes key i)).getLast? <;> rfl
    · rw [List.filter_cons_of_neg (by rw [hwrites]; simpa using hindex), if_neg hindex]

/-- No place is added where no entry is written beyond the last. -/
theorem length_assignAll (h : assignAll key value entries before = .ok after)
    (hin : ∀ entry ∈ entries, ∀ i, writes key i entry = true → i < before.length) :
    after.length = before.length := by
  induction entries generalizing before with
  | nil =>
    obtain rfl := Except.ok.inj h
    rfl
  | cons entry entries ih =>
    obtain ⟨text, mid, hkey, hmid, hrest⟩ := assignAll_cons h
    have hsame : mid.length = before.length := by
      unfold assign at hmid
      cases hindex : keyOf text with
      | index n =>
        rw [hindex] at hmid
        obtain rfl := Except.ok.inj hmid
        have hn := hin entry List.mem_cons_self n (by unfold writes; rw [hkey, ← hindex]; simp)
        rw [length_setAt]
        omega
      | length =>
        rw [hindex] at hmid
        cases hmid
      | named =>
        rw [hindex] at hmid
        obtain rfl := Except.ok.inj hmid
        rfl
    rw [ih hrest fun later hlater i hi => ?_, hsame]
    rw [hsame]
    exact hin later (List.mem_cons_of_mem _ hlater) i hi

end entries

end sparse

end Akabbo.JsonValues
