import Akabbo.Extraction
import Akabbo.TextPatterns

/-!
# The contracts of the extraction tools

The arguments of a tool call that reads a document are checked as a whole. Amounts lose all that is
no digit before anything else reads them.
-/
namespace Akabbo.ExtractionContracts
open TextPatterns LedgerState CaptureStaging Extraction

/-- A row of the list: an object by its fields, or a value that is none. -/
inductive RawRow
  | object (fields : List (String × ArgValue))
  | other
  deriving DecidableEq, Repr

inductive RawRows
  | missing
  | list (rows : List RawRow)
  | other
  deriving DecidableEq, Repr

/-- The arguments of the tool call: the field with the rows and the other fields. A call that is not
there has no fields. -/
structure RawResult where
  rows : RawRows := .missing
  fields : List (String × ArgValue) := []
  deriving DecidableEq, Repr

/-- `String(val).replace(/\D/g, '')`, and the same after the commas are taken out. -/
def digitsOnly (text : String) : String := String.ofList (text.toList.filter Char.isDigit)

def withoutCommas (text : String) : String := String.ofList (text.toList.filter (· != ','))

/-- `normalized || undefined`. -/
def orUndefined (text : String) : Option String := if text = "" then none else some text

def trimmed (text : String) : String := String.ofList (trim text.toList)

/-- A number from a range, as in `z.number().min(0).max(1)`. -/
def optionalNumber (low high : ℚ) (field : String) (fields : List (String × ArgValue)) :
    Option (Option ℚ) :=
  match fields.lookup field with
  | none => some none
  | some (.number value) => if low ≤ value ∧ value ≤ high then some (some value) else none
  | _ => none

/-- `z.string().trim().min(1)`. -/
def requiredTrimmed (field : String) (fields : List (String × ArgValue)) : Option String :=
  match fields.lookup field with
  | some (.text value) => orUndefined (trimmed value)
  | _ => none

def optionalTrimmed (field : String) (fields : List (String × ArgValue)) : Option (Option String) :=
  match fields.lookup field with
  | none => some none
  | some (.text value) => (orUndefined (trimmed value)).map some
  | _ => none

/-- `z.enum(...).optional().default(...)`. -/
def enumOr {α : Type} (named : String → Option α) (default : α) (field : String)
    (fields : List (String × ArgValue)) : Option α :=
  match fields.lookup field with
  | none => some default
  | some (.text value) => named value
  | _ => none

section contracts
variable (numberText : ℚ → String)

/-- The text of a `z.union([z.string(), z.number()])`. -/
def unionText : ArgValue → Option String
  | .text value => some value
  | .number value => some (numberText value)
  | _ => none

/-- A union that may be null or missing. -/
def nullableUnion (read : String → Option String) (field : String)
    (fields : List (String × ArgValue)) : Option (Option String) :=
  match fields.lookup field with
  | none => some none
  | some .null => some none
  | some (.text "") => some none
  | some value => (unionText numberText value).map read

def optionalUnion (read : String → Option String) (field : String)
    (fields : List (String × ArgValue)) : Option (Option String) :=
  match fields.lookup field with
  | none => some none
  | some value => (unionText numberText value).map read

def entryTypeNamed : String → Option PledgeType
  | "cash" => some .cash
  | "item" => some .item
  | "service" => some .service
  | _ => none

def entryStatusNamed : String → Option EntryStatus
  | "paid" => some .paid
  | "pledged" => some .pledged
  | "unknown" => some .unknown
  | _ => none

def entryRow : RawRow → Option ExtractedContributionEntry
  | .other => none
  | .object fields => do
      let name ← requiredTrimmed "name" fields
      let type ← enumOr entryTypeNamed .cash "type" fields
      let amount ← nullableUnion numberText (fun text => orUndefined (digitsOnly (withoutCommas text)))
        "amount" fields
      let description ← optionalTrimmed "description" fields
      let quantity ← nullableUnion numberText (fun text => some (trimmed text)) "quantity" fields
      let unit ← optionalTrimmed "unit" fields
      let status ← enumOr entryStatusNamed .unknown "status" fields
      let _ ← optionalFlag "is_partially_illegible" fields
      return { name, type, amount, description, quantity, unit, status }

/-- The rows as the schema of one row reads them; one that it rejects rejects all. -/
def readRows {α : Type} (row : RawRow → Option α) : RawRows → Option (List α)
  | .missing => some []
  | .list rows => rows.mapM row
  | .other => none

def extractContributionsResult (raw : RawResult) : Option (List ExtractedContributionEntry) := do
  let entries ← readRows (entryRow numberText) raw.rows
  let _ ← optionalTrimmed "notes" raw.fields
  return entries

def itemStatusNamed : String → Option ItemStatus
  | "covered" => some .covered
  | "pending" => some .pending
  | "partial" => some .partly
  | "unknown" => some .unknown
  | _ => none

/-- `z.string().optional()`, and `z.string().default(...)`, which passes the same values. -/
def anyText (field : String) (fields : List (String × ArgValue)) : Option (Option String) :=
  optionalText (fun _ => true) field fields

def itemRow : RawRow → Option ExtractedItem
  | .other => none
  | .object fields => do
      let name ← requiredText (fits 1 none) "name" fields
      let value ← fields.lookup "amount"
      let amount ← (unionText numberText value).map digitsOnly
      let quantity ← anyText "quantity" fields
      let _ ← optionalUnion numberText (fun text => some (digitsOnly text)) "unit_cost" fields
      let categoryContext ← anyText "category_context" fields
      let _ ← anyText "concept_type" fields
      let fulfillmentStatus ← enumOr itemStatusNamed .unknown "fulfillment_status" fields
      let _ ← optionalFlag "is_partially_illegible" fields
      return { name, amount, quantity, categoryContext, fulfillmentStatus }

def budgetFields (fields : List (String × ArgValue)) : Option (Option ℚ) := do
  let _ ← anyText "document_title" fields
  let _ ← anyText "currency" fields
  let confidence ← optionalNumber 0 1 "confidence" fields
  let _ ← anyText "notes" fields
  let _ ← anyText "inferred_event_type" fields
  let _ ← anyText "inferred_region" fields
  return confidence

def extractBudgetResult (raw : RawResult) : Option (List ExtractedItem × Option ℚ) := do
  let items ← readRows (itemRow numberText) raw.rows
  let confidence ← budgetFields raw.fields
  return (items, confidence)

/-- `parsed.success ? parsed.data.entries : []`. -/
def contributionAnswer (raw : RawResult) : Answer where
  entries := (extractContributionsResult numberText raw).getD []

def budgetAnswer (raw : RawResult) : Answer :=
  match extractBudgetResult numberText raw with
  | some (items, confidence) => { items, confidence }
  | none => {}

end contracts

section passed
variable {numberText : ℚ → String} {raw : RawRow} {entry : ExtractedContributionEntry}

theorem orUndefined_eq_some {text value : String} :
    orUndefined text = some value ↔ text ≠ "" ∧ value = text := by
  unfold orUndefined
  rw [Option.ite_none_left_eq_some, Option.some.injEq, eq_comm (a := text) (b := value)]

theorem isDigit_of_mem_digitsOnly {text : String} {a : Char} (h : a ∈ (digitsOnly text).toList) :
    a.isDigit = true := by
  unfold digitsOnly at h
  rw [String.toList_ofList] at h
  exact (List.mem_filter.mp h).2

theorem inked_of_orUndefined {text value : String} (h : orUndefined (trimmed text) = some value) :
    value.toList ≠ [] ∧ Inked value.toList := by
  obtain ⟨hne, rfl⟩ := orUndefined_eq_some.mp h
  unfold trimmed at hne ⊢
  rw [String.toList_ofList]
  exact ⟨fun hnil => hne (by rw [hnil]), inked_trim _⟩

theorem requiredTrimmed_inked {field value : String} {fields : List (String × ArgValue)}
    (h : requiredTrimmed field fields = some value) : value.toList ≠ [] ∧ Inked value.toList := by
  unfold requiredTrimmed at h
  split at h
  · exact inked_of_orUndefined h
  · cases h

theorem optionalTrimmed_inked {field value : String} {fields : List (String × ArgValue)}
    (h : optionalTrimmed field fields = some (some value)) :
    value.toList ≠ [] ∧ Inked value.toList := by
  unfold optionalTrimmed at h
  split at h
  · cases h
  · obtain ⟨value', hvalue, hsame⟩ := Option.map_eq_some_iff.mp h
    cases hsame
    exact inked_of_orUndefined hvalue
  · cases h

theorem nullableUnion_eq_some {read : String → Option String} {field value : String}
    {fields : List (String × ArgValue)}
    (h : nullableUnion numberText read field fields = some (some value)) :
    ∃ text, read text = some value := by
  unfold nullableUnion at h
  split at h
  · cases h
  · cases h
  · cases h
  · obtain ⟨text, -, hread⟩ := Option.map_eq_some_iff.mp h
    exact ⟨text, hread⟩

/-- What the contract promises of a row it lets through. -/
structure Admitted (entry : ExtractedContributionEntry) : Prop where
  name : entry.name.toList ≠ [] ∧ Inked entry.name.toList
  amount : ∀ amount ∈ entry.amount, amount.toList ≠ [] ∧ ∀ a ∈ amount.toList, a.isDigit = true
  description : ∀ text ∈ entry.description, text.toList ≠ [] ∧ Inked text.toList
  quantity : ∀ text ∈ entry.quantity, ∃ value, text = trimmed value
  unit : ∀ text ∈ entry.unit, text.toList ≠ [] ∧ Inked text.toList

theorem entryRow_admitted (h : entryRow numberText raw = some entry) : Admitted entry := by
  cases raw with
  | other => cases h
  | object fields =>
    simp only [entryRow, Option.bind_eq_bind, Option.bind_eq_some_iff, Option.pure_def,
      Option.some.injEq] at h
    obtain ⟨name, hname, type, -, amount, hamount, description, hdescription, quantity, hquantity,
      unit, hunit, status, -, flag, -, rfl⟩ := h
    refine ⟨requiredTrimmed_inked hname, ?_, ?_, ?_, ?_⟩
    · rintro text rfl
      obtain ⟨value, hvalue⟩ := nullableUnion_eq_some hamount
      obtain ⟨hne, rfl⟩ := orUndefined_eq_some.mp hvalue
      exact ⟨fun hnil => hne (String.toList_inj.mp (by rw [hnil]; rfl)),
        fun a => isDigit_of_mem_digitsOnly⟩
    · rintro text rfl
      exact optionalTrimmed_inked hdescription
    · rintro text rfl
      obtain ⟨value, hvalue⟩ := nullableUnion_eq_some hquantity
      exact ⟨value, (Option.some.inj hvalue).symm⟩
    · rintro text rfl
      exact optionalTrimmed_inked hunit

end passed
end Akabbo.ExtractionContracts
