import Mathlib.Data.List.Basic
import Mathlib.Data.Nat.Notation

/-!
# Parameters in a URL

The parameters of a query as `application/x-www-form-urlencoded`: names and values byte by byte in
UTF-8, pairs joined by ampersands, and the reader that takes them apart.
-/
namespace Akabbo.FormUrlencoded

def isPlain (b : UInt8) : Bool :=
  let n := b.toNat
  (48 ≤ n && n ≤ 57) || (65 ≤ n && n ≤ 90) || (97 ≤ n && n ≤ 122) ||
    n == 42 || n == 45 || n == 46 || n == 95

def hexDigit (n : ℕ) : Char := Char.ofNat (if n < 10 then 48 + n else 55 + n)

def hexValue (c : Char) : Option ℕ :=
  let n := c.toNat
  if 48 ≤ n ∧ n ≤ 57 then some (n - 48)
  else if 65 ≤ n ∧ n ≤ 70 then some (n - 55)
  else if 97 ≤ n ∧ n ≤ 102 then some (n - 87)
  else none

def encodeByte (b : UInt8) : List Char :=
  if b = 32 then ['+']
  else if isPlain b then [Char.ofNat b.toNat]
  else ['%', hexDigit (b.toNat / 16), hexDigit (b.toNat % 16)]

def decodeBytes : List Char → List UInt8
  | [] => []
  | '+' :: rest => 32 :: decodeBytes rest
  | '%' :: a :: b :: rest =>
    match hexValue a, hexValue b with
    | some x, some y => UInt8.ofNat (16 * x + y) :: decodeBytes rest
    | _, _ => 37 :: decodeBytes (a :: b :: rest)
  | c :: rest => String.utf8EncodeChar c ++ decodeBytes rest

theorem hexValue_hexDigit : ∀ n < 16, hexValue (hexDigit n) = some n := by decide

theorem plain_char : ∀ n < 256, isPlain (UInt8.ofNat n) = true → Char.ofNat n ≠ '+' ∧
    Char.ofNat n ≠ '%' ∧ String.utf8EncodeChar (Char.ofNat n) = [UInt8.ofNat n] := by decide +kernel

theorem decodeBytes_plain {c : Char} (hplus : c ≠ '+') (hpercent : c ≠ '%') (rest : List Char) :
    decodeBytes (c :: rest) = String.utf8EncodeChar c ++ decodeBytes rest := by
  rw [decodeBytes.eq_def]
  split
  · rename_i h
    cases h
  · rename_i h
    exact absurd (List.cons.inj h).1 hplus
  · rename_i h
    exact absurd (List.cons.inj h).1 hpercent
  · rename_i h
    rw [(List.cons.inj h).1, (List.cons.inj h).2]

theorem decodeBytes_encodeByte (b : UInt8) (rest : List Char) :
    decodeBytes (encodeByte b ++ rest) = b :: decodeBytes rest := by
  have hlt : b.toNat < 256 := b.toNat_lt
  unfold encodeByte
  split_ifs with hspace hplain
  · rw [hspace]
    rfl
  · obtain ⟨hplus, hpercent, hbyte⟩ := plain_char b.toNat hlt (by rwa [UInt8.ofNat_toNat])
    rw [List.singleton_append, decodeBytes_plain hplus hpercent, hbyte, UInt8.ofNat_toNat]
    rfl
  · have hhigh := hexValue_hexDigit (b.toNat / 16) (by omega)
    have hlow := hexValue_hexDigit (b.toNat % 16) (by omega)
    change (match hexValue (hexDigit (b.toNat / 16)), hexValue (hexDigit (b.toNat % 16)) with
      | some x, some y => UInt8.ofNat (16 * x + y) :: decodeBytes rest
      | _, _ => _) = _
    rw [hhigh, hlow]
    dsimp only
    rw [Nat.div_add_mod, UInt8.ofNat_toNat]

/-- What is written of a byte is no separator. -/
theorem separator_notMem : ∀ n < 256, '&' ∉ encodeByte (UInt8.ofNat n) ∧
    '=' ∉ encodeByte (UInt8.ofNat n) := by decide +kernel

def encode (text : List Char) : List Char := (text.flatMap String.utf8EncodeChar).flatMap encodeByte

/-- The text that the bytes are, if they are one. -/
def decode (text : List Char) : Option (List Char) :=
  (decodeBytes text).toByteArray.utf8Decode?.map Array.toList

theorem decodeBytes_flatMap (bytes : List UInt8) : decodeBytes (bytes.flatMap encodeByte) = bytes := by
  induction bytes with
  | nil => rfl
  | cons b bytes ih => rw [List.flatMap_cons, decodeBytes_encodeByte, ih]

theorem decode_encode (text : List Char) : decode (encode text) = some text := by
  unfold decode encode
  rw [decodeBytes_flatMap]
  have hbytes : (text.flatMap String.utf8EncodeChar).toByteArray = text.utf8Encode := rfl
  rw [hbytes, List.utf8Decode?_utf8Encode]
  rfl

theorem separator_notMem_encode (text : List Char) : '&' ∉ encode text ∧ '=' ∉ encode text := by
  have hbyte (b : UInt8) : '&' ∉ encodeByte b ∧ '=' ∉ encodeByte b := by
    have h := separator_notMem b.toNat b.toNat_lt
    rwa [UInt8.ofNat_toNat] at h
  unfold encode
  constructor
  · intro h
    obtain ⟨b, -, hb⟩ := List.mem_flatMap.mp h
    exact (hbyte b).1 hb
  · intro h
    obtain ⟨b, -, hb⟩ := List.mem_flatMap.mp h
    exact (hbyte b).2 hb

def writePair (p : String × String) : List Char := encode p.1.toList ++ '=' :: encode p.2.toList

def serialize (params : List (String × String)) : String :=
  String.ofList (['&'].intercalate (params.map writePair))

/-- A pair at its first equals sign; a pair that is no text is left out. -/
def readPair (part : List Char) : Option (String × String) := do
  let name ← decode (part.takeWhile (· != '='))
  let value ← decode ((part.dropWhile (· != '=')).drop 1)
  return (String.ofList name, String.ofList value)

def parse (text : String) : List (String × String) :=
  ((text.toList.splitOn '&').filter (· ≠ [])).filterMap readPair

theorem readPair_writePair (p : String × String) : readPair (writePair p) = some p := by
  have hname : ∀ c ∈ encode p.1.toList, (c != '=') = true := fun c hc =>
    bne_iff_ne.mpr fun h => (separator_notMem_encode _).2 (h ▸ hc)
  have hstop : (('=' : Char) != '=') = false := rfl
  unfold readPair writePair
  rw [List.takeWhile_append_of_pos hname, List.takeWhile_cons_of_neg (by simp), List.append_nil,
    List.dropWhile_append_of_pos hname, List.dropWhile_cons_of_neg (by simp), decode_encode]
  simp [decode_encode]

theorem parse_serialize (params : List (String × String)) : parse (serialize params) = params := by
  unfold parse serialize
  rw [String.toList_ofList]
  by_cases hnil : params = []
  · subst hnil
    rfl
  · have hsplit : (['&'].intercalate (params.map writePair)).splitOn '&' = params.map writePair := by
      refine List.splitOn_intercalate '&' ?_ (by simpa using hnil)
      refine List.forall_mem_map.mpr fun p _ hmem => ?_
      rcases List.mem_append.mp hmem with h | h
      · exact (separator_notMem_encode _).1 h
      · rcases List.mem_cons.mp h with h | h
        · cases h
        · exact (separator_notMem_encode _).1 h
    have hpairs : (params.map writePair).filter (· ≠ []) = params.map writePair := by
      refine List.filter_eq_self.mpr (List.forall_mem_map.mpr fun p _ => ?_)
      simp [writePair]
    rw [hsplit, hpairs, List.filterMap_map]
    have hread : readPair ∘ writePair = some := funext readPair_writePair
    rw [hread, List.filterMap_some]

end Akabbo.FormUrlencoded
