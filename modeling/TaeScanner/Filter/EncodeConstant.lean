/-
  TaeScanner.Filter.EncodeConstant

  Filter constants: DuckDB values, and their encoding in the format of stored
  elements.

    * a constant has the DuckDB type of the column, so `GetValue<T>` reads the
      number or the string the value holds, without a cast;
    * a BLOB is read through its text form, in which only regular characters
      stand for themselves;
    * the encoding of a date or a timestamp adds the epoch in the width of the
      type; on overflow, which the language leaves undefined, the model keeps
      the low bits.
-/

import TaeScanner.Filter.RowFilterSpec

namespace TaeScanner

open Lib

-- ============================================================================
-- DuckDB values
-- ============================================================================

/-- What a non-NULL value holds: `num` is an integer, the count of a date or a
    time, an unscaled decimal or the integer of a UUID. -/
inductive ValueData
  | bool (b : Bool)
  | num (i : Int)
  | real (bits : List Byte)
  | str (bs : List Byte)
  deriving DecidableEq, Repr

/-- `duckdb::Value`; no data is NULL. -/
structure Value where
  type : LogicalType
  data : Option ValueData
  deriving DecidableEq, Repr

/-- The values of a logical type: numbers fit their storage, and a string has a
    32-bit length. -/
def LogicalType.Holds : LogicalType → ValueData → Prop
  | boolean, .bool _ => True
  | tinyint, .num i => FitsSigned 1 i
  | smallint, .num i => FitsSigned 2 i
  | integer, .num i => FitsSigned 4 i
  | bigint, .num i => FitsSigned 8 i
  | utinyint, .num i => 0 ≤ i ∧ i < 256 ^ 1
  | usmallint, .num i => 0 ≤ i ∧ i < 256 ^ 2
  | uinteger, .num i => 0 ≤ i ∧ i < 256 ^ 4
  | ubigint, .num i => 0 ≤ i ∧ i < 256 ^ 8
  | float, .real bits => bits.length = 4
  | double, .real bits => bits.length = 8
  | decimal width _, .num i => FitsSigned (decimalPhysicalType width).size i
  | date, .num i => FitsSigned 4 i
  | timestamp, .num i => FitsSigned 8 i
  | time, .num i => FitsSigned 8 i
  | uuid, .num i => FitsSigned 16 i
  | varchar, .str bs => bs.length < 2 ^ 32
  | blob, .str bs => bs.length < 2 ^ 32
  | _, _ => False

/-- A non-NULL value of the type. -/
def Value.IsOf (val : Value) (ty : LogicalType) : Prop :=
  val.type = ty ∧ ∃ d, val.data = some d ∧ ty.Holds d

/-- The text form of a BLOB: `regular` tells the characters that are written as
    they are, all of them printable; any other byte becomes `\xNN`. -/
structure BlobText where
  regular : Byte → Bool
  regular_printable : ∀ b, regular b = true → 32 ≤ b.toNat ∧ b.toNat ≤ 126

/-- The character of a hexadecimal digit. -/
def hexDigit (n : Nat) : Byte := if n < 10 then BitVec.ofNat 8 (48 + n) else BitVec.ofNat 8 (55 + n)

namespace BlobText

/-- The text of one byte. -/
def escape (bt : BlobText) (b : Byte) : List Byte :=
  if bt.regular b then [b] else [92, 120, hexDigit (b.toNat / 16), hexDigit (b.toNat % 16)]

/-- `Blob::ToString`. -/
def text (bt : BlobText) (bs : List Byte) : List Byte := bs.flatMap bt.escape

/-- Printable ASCII but for the backslash and the quotes is regular. -/
def duckdb : BlobText where
  regular b := 32 ≤ b.toNat ∧ b.toNat ≤ 126 ∧ b ≠ 92 ∧ b ≠ 39 ∧ b ≠ 34
  regular_printable b h := by
    have hb := of_decide_eq_true h
    exact ⟨hb.1, hb.2.1⟩

end BlobText

namespace Value

/-- `GetValue<bool>`. -/
def getBool (val : Value) : Option Bool :=
  match val.data with
  | some (.bool b) => some b
  | _ => none

/-- `GetValue<T>` of an integer type, and `GetValueUnsafe`. -/
def getNum (val : Value) : Option Int :=
  match val.data with
  | some (.num i) => some i
  | _ => none

/-- `GetValue<float>` and `GetValue<double>`. -/
def getReal (val : Value) : Option (List Byte) :=
  match val.data with
  | some (.real bits) => some bits
  | _ => none

/-- `GetValue<std::string>`: a VARCHAR is its characters, a BLOB its text form. -/
def getString (bt : BlobText) (val : Value) : Option (List Byte) :=
  match val.type, val.data with
  | .varchar, some (.str bs) => some bs
  | .blob, some (.str bs) => some (bt.text bs)
  | _, _ => none

/-- The cell a value stands for. -/
def toCell (val : Value) : Cell :=
  match val.type, val.data with
  | _, none => none
  | _, some (.bool b) => some (.bool b)
  | .decimal _ scale, some (.num i) => some (.decimal i scale)
  | .uuid, some (.num i) => some (.uuid i)
  | _, some (.num i) => some (.int i)
  | _, some (.real bits) => some (.real bits)
  | _, some (.str bs) => some (.bytes bs)

end Value

-- ============================================================================
-- EncodeConstant
-- ============================================================================

/-- `UUID::ToBlob`, the inverse of `uuidFromBlob`. -/
def uuidToBlob (i : Int) : List Byte := (leBytes 16 (i + 2 ^ 127).toNat).reverse

/-- The fixed-width cases of `EncodeConstant`; types without one are refused. -/
def encodeFixed (val : Value) (oid : MOTypeOid) : Option (List Byte) :=
  match oid with
  | .bool => val.getBool.map fun b => if b then [1] else [0]
  | .int8 | .uint8 => val.getNum.map (leBytesInt 1)
  | .int16 | .uint16 => val.getNum.map (leBytesInt 2)
  | .int32 | .uint32 => val.getNum.map (leBytesInt 4)
  | .int64 | .uint64 => val.getNum.map (leBytesInt 8)
  | .float32 | .float64 => val.getReal
  | .date => val.getNum.map fun i => leBytesInt 4 (i + moUnixEpochDays)
  | .datetime | .timestamp => val.getNum.map fun i => leBytesInt 8 (i + moUnixEpochUsec)
  | .time => val.getNum.map (leBytesInt 8)
  | .decimal64 =>
      match val.type.internalType with
      | .int16 | .int32 | .int64 => val.getNum.map (leBytesInt 8)
      | _ => none
  | .decimal128 =>
      match val.type.internalType with
      | .int16 | .int32 | .int64 | .int128 => val.getNum.map (leBytesInt 16)
      | _ => none
  | .uuid => val.getNum.map uuidToBlob
  | _ => none

/-- Encode a DuckDB value as raw little-endian bytes; the length is 32 bits wide. -/
def encodeConstant (bt : BlobText) (val : Value) (oid : MOTypeOid) : Option EncodedConstant :=
  if isStringType oid then (val.getString bt).map fun s => ⟨s, s.length % 2 ^ 32⟩
  else if moTypeFixedSize oid ≤ 0 then none
  else (encodeFixed val oid).map fun bytes => ⟨bytes, (moTypeFixedSize oid).toNat⟩

theorem encodeConstant_string {bt : BlobText} {val : Value} {oid : MOTypeOid}
    (hstr : isStringType oid = true) :
    encodeConstant bt val oid = (val.getString bt).map fun s => ⟨s, s.length % 2 ^ 32⟩ := if_pos hstr

theorem encodeConstant_fixed {bt : BlobText} {val : Value} {oid : MOTypeOid}
    (hstr : isStringType oid = false) (hsize : 0 < moTypeFixedSize oid) :
    encodeConstant bt val oid
      = (encodeFixed val oid).map fun bytes => ⟨bytes, (moTypeFixedSize oid).toNat⟩ := by
  rw [encodeConstant, hstr, if_neg Bool.false_ne_true, if_neg (by omega)]

-- ============================================================================
-- The text form of a BLOB
-- ============================================================================

section Text
variable (bt : BlobText)

/-- The bytes that are not written as they are. -/
def BlobText.escaped (bs : List Byte) : Nat := bs.countP fun b => !bt.regular b

/-- An escape is three characters longer than its byte. -/
theorem BlobText.text_length (bs : List Byte) :
    (bt.text bs).length = bs.length + 3 * bt.escaped bs := by
  induction bs with
  | nil => rfl
  | cons b bs ih =>
      rw [BlobText.text, List.flatMap_cons, List.length_append, ← BlobText.text, ih,
        BlobText.escaped, BlobText.escaped, List.countP_cons, List.length_cons, BlobText.escape]
      cases bt.regular b <;> simp <;> omega

theorem BlobText.text_of_regular {bs : List Byte} (h : ∀ b ∈ bs, bt.regular b = true) :
    bt.text bs = bs := by
  induction bs with
  | nil => rfl
  | cons b bs ih =>
      have hb := h b (List.mem_cons_self ..)
      rw [BlobText.text, List.flatMap_cons, ← BlobText.text,
        ih fun x hx => h x (List.mem_cons_of_mem _ hx), BlobText.escape, if_pos hb]
      rfl

/-- A multiple of three below `3 * 2 ^ 32` is no multiple of `2 ^ 32` but zero. -/
theorem eq_zero_of_add_triple_mod {n e : Nat} (hn : n < 2 ^ 32) (he : e ≤ n)
    (hmod : (n + 3 * e) % 2 ^ 32 = n) : e = 0 := by
  have hdiv := Nat.mod_add_div (n + 3 * e) (2 ^ 32)
  rw [hmod] at hdiv
  have hmul : 2 ^ 32 * ((n + 3 * e) / 2 ^ 32) = 3 * e := Nat.add_left_cancel hdiv
  have hdvd : 3 ∣ (n + 3 * e) / 2 ^ 32 :=
    Nat.Coprime.dvd_of_dvd_mul_left (by decide) ⟨e, hmul⟩
  obtain ⟨k, hk⟩ := hdvd
  rw [hk, Nat.mul_left_comm] at hmul
  have hek : 2 ^ 32 * k = e := Nat.eq_of_mul_eq_mul_left (by decide) hmul
  rcases Nat.eq_zero_or_pos k with rfl | hpos
  · rw [← hek, Nat.mul_zero]
  · have hbig : 2 ^ 32 * 1 ≤ 2 ^ 32 * k := Nat.mul_le_mul_left _ hpos
    exact absurd (Nat.lt_of_le_of_lt (hek ▸ he) hn) (Nat.not_lt.mpr (by rwa [Nat.mul_one] at hbig))

/-- The text cut to its 32-bit length is the BLOB iff nothing is escaped. -/
theorem BlobText.take_text_eq_iff {bs : List Byte} (hlen : bs.length < 2 ^ 32) :
    (bt.text bs).take ((bt.text bs).length % 2 ^ 32) = bs ↔ ∀ b ∈ bs, bt.regular b = true := by
  have hnone : bt.escaped bs = 0 ↔ ∀ b ∈ bs, bt.regular b = true := by
    simp [BlobText.escaped]
  refine ⟨fun h => ?_, fun h => ?_⟩
  · have hcut := congrArg List.length h
    have hle : bt.escaped bs ≤ bs.length := List.countP_le_length
    rw [List.length_take, bt.text_length, Nat.min_eq_left (Nat.mod_le ..)] at hcut
    exact hnone.mp (eq_zero_of_add_triple_mod hlen hle hcut)
  · rw [bt.text_of_regular h, Nat.mod_eq_of_lt hlen, List.take_length]

end Text

end TaeScanner
