/-
  TaeScanner.Table.Column

  A decoded column of a block, the way the reader hands it to the fill and to
  the filters, and what its stored elements denote.

    * `element?`, `slot?` are the bounds-checked reads of the `data` buffer that
      both consumers make;
    * `isNullAt` is the bit both consumers extract from the null bitmap;
    * `storedValue?` is the value a stored element stands for, the common
      meaning that the fill and the filters are measured against.
-/

import TaeScanner.Table.SqlValue
import TaeScanner.Types

namespace TaeScanner

open Lib

-- ============================================================================
-- Decoded columns
-- ============================================================================

/-- A column of a block after decoding; `vecClass` is 0 for a FLAT vector (one
    element a row) and 1 for a CONSTANT vector (one element for all rows). -/
structure DecodedColumn where
  type : MOType
  rowCount : Nat
  data : List Byte
  area : List Byte := []
  nullBitmap : List (BitVec 64) := []
  nullCount : Nat := 0
  isSorted : Bool := false
  vecClass : Byte := 0
  deriving DecidableEq, Repr

namespace DecodedColumn

/-- The type OID of the column. -/
def kind (c : DecodedColumn) : MOTypeOid := c.type.kind

/-- Is the bit of a row set in the null bitmap? -/
def isNullAt (c : DecodedColumn) (row : Nat) : Bool :=
  match c.nullBitmap[row / 64]? with
  | some word => word.getLsbD (row % 64)
  | none => false

/-- The `size` bytes of the element of a row. -/
def element? (c : DecodedColumn) (size row : Nat) : Option (List Byte) :=
  slice? c.data (row * size) size

/-- The varlena slot of a row. -/
def slot? (c : DecodedColumn) (row : Nat) : Option Varlena :=
  if h : (row + 1) * varlenaSize ≤ c.data.length then
    some ⟨(c.data.drop (row * varlenaSize)).take varlenaSize, by
      rw [Nat.succ_mul] at h
      rw [List.length_take, List.length_drop]
      omega⟩
  else none

theorem element?_length {c : DecodedColumn} {size row : Nat} {bs : List Byte}
    (h : c.element? size row = some bs) : bs.length = size := slice?_length h

theorem element?_isSome {c : DecodedColumn} {size row : Nat} :
    (c.element? size row).isSome ↔ (row + 1) * size ≤ c.data.length := by
  rw [element?, slice?_isSome, Nat.succ_mul]

theorem slot?_isSome {c : DecodedColumn} {row : Nat} :
    (c.slot? row).isSome ↔ (row + 1) * varlenaSize ≤ c.data.length := by
  rw [slot?]
  split
  · next h => simp [h]
  · next h => simp [h]

end DecodedColumn

-- ============================================================================
-- What a stored element denotes
-- ============================================================================

/-- The string a slot refers to: inline, or a range of the area; `none` for a
    slot that is neither. -/
def Varlena.stored? (v : Varlena) (area : List Byte) : Option (List Byte) :=
  if v.isInline then some v.inlineData
  else if v.bigMarker = varlenaBigMarker then slice? area v.bigOffset v.bigLength
  else none

/-- A string cut into the bit patterns of `size`-byte elements. -/
def chunks (size : Nat) (bs : List Byte) : List (List Byte) :=
  (List.range (bs.length / size)).map (fun i => (bs.drop (i * size)).take size)

/-- `UUID::FromBlob`: the two big-endian halves become the halves of a
    `hugeint_t`, the sign bit of the upper one flipped. -/
def uuidFromBlob (bs : List Byte) : Int := (beNat bs : Int) - 2 ^ 127

/-- The value the bytes of a fixed-width element stand for. -/
def MOType.fixedValue (t : MOType) (bs : List Byte) : SqlValue :=
  match t.kind with
  | .bool => .bool (leNat bs ≠ 0)
  | .int8 | .int16 | .int32 | .int64 | .year | .time => .int (leInt bs)
  | .uint8 | .uint16 | .uint32 | .uint64 | .bit | .enum => .int (leNat bs)
  | .decimal64 | .decimal128 | .decimal256 => .decimal (leInt bs) t.scale
  | .date => .int (leInt bs - moUnixEpochDays)
  | .datetime | .timestamp => .int (leInt bs - moUnixEpochUsec)
  | .uuid => .uuid (uuidFromBlob bs)
  | _ => .real bs

/-- A stored bool is 0 or 1; the bytes of every other fixed-width type are a value. -/
def MOType.validBytes (t : MOType) (bs : List Byte) : Bool :=
  match t.kind with
  | .bool => leNat bs ≤ 1
  | _ => true

/-- The value a varlena of the type stands for: arrays are strings of numbers. -/
def MOType.varlenaValue (t : MOType) (bs : List Byte) : SqlValue :=
  match t.kind with
  | .arrayFloat32 => .list (chunks 4 bs)
  | .arrayFloat64 => .list (chunks 8 bs)
  | _ => .bytes bs

/-- The value the stored element of a row stands for; `none` when the buffers
    hold no well-formed element there. -/
def DecodedColumn.storedValue? (c : DecodedColumn) (row : Nat) : Option SqlValue :=
  if 0 < moTypeFixedSize c.kind then
    ((c.element? (moTypeFixedSize c.kind).toNat row).filter c.type.validBytes).map
      c.type.fixedValue
  else
    ((c.slot? row).bind fun v => v.stored? c.area).map c.type.varlenaValue

/-- The element of a row is well formed: it denotes a value, and a temporal one
    stays in its integer type when the epoch is subtracted. -/
structure DecodedColumn.WellFormedAt (c : DecodedColumn) (row : Nat) : Prop where
  denotes : (c.storedValue? row).isSome
  date_fits : c.kind = .date → ∀ bs, c.element? 4 row = some bs →
    FitsSigned 4 (leInt bs - moUnixEpochDays)
  timestamp_fits : c.kind = .datetime ∨ c.kind = .timestamp → ∀ bs, c.element? 8 row = some bs →
    FitsSigned 8 (leInt bs - moUnixEpochUsec)

namespace DecodedColumn

/-- A cell of a FLAT column: the value of the row unless its bit is set. -/
def cell? (c : DecodedColumn) (row : Nat) : Option Cell :=
  if c.isNullAt row then some none else (c.storedValue? row).map some

theorem storedValue?_fixed {c : DecodedColumn} {row size : Nat}
    (hsize : moTypeFixedSize c.kind = size) (hpos : 0 < size) :
    c.storedValue? row = ((c.element? size row).filter c.type.validBytes).map c.type.fixedValue := by
  rw [storedValue?, hsize, if_pos (by omega), Int.toNat_natCast]

theorem storedValue?_varlena {c : DecodedColumn} {row : Nat} (hsize : moTypeFixedSize c.kind = -1) :
    c.storedValue? row = ((c.slot? row).bind fun v => v.stored? c.area).map c.type.varlenaValue := by
  rw [storedValue?, hsize, if_neg (by omega)]

/-- A fixed-width row that denotes a value has all its bytes in the buffer. -/
theorem element?_of_storedValue? {c : DecodedColumn} {row size : Nat}
    (hsize : moTypeFixedSize c.kind = size) (hpos : 0 < size)
    (h : (c.storedValue? row).isSome) :
    ∃ bs, c.element? size row = some bs ∧ c.type.validBytes bs = true ∧
      c.storedValue? row = some (c.type.fixedValue bs) := by
  rw [storedValue?_fixed hsize hpos, Option.isSome_map] at h
  obtain ⟨bs, hbs⟩ := Option.isSome_iff_exists.mp h
  obtain ⟨hel, hvalid⟩ := Option.filter_eq_some_iff.mp hbs
  exact ⟨bs, hel, hvalid, by rw [storedValue?_fixed hsize hpos, hbs, Option.map_some]⟩

/-- A string row that denotes a value has a slot that refers to a string. -/
theorem slot?_of_storedValue? {c : DecodedColumn} {row : Nat} (hstr : isStringType c.kind = true)
    (h : (c.storedValue? row).isSome) :
    ∃ v s, c.slot? row = some v ∧ v.stored? c.area = some s ∧
      c.storedValue? row = some (.bytes s) := by
  have hsize : moTypeFixedSize c.kind = -1 := moTypeFixedSize_of_isStringType hstr
  rw [storedValue?_varlena hsize, Option.isSome_map] at h
  obtain ⟨s, hs⟩ := Option.isSome_iff_exists.mp h
  obtain ⟨v, hv, hvs⟩ := Option.bind_eq_some_iff.mp hs
  refine ⟨v, s, hv, hvs, ?_⟩
  rw [storedValue?_varlena hsize, hs, Option.map_some, MOType.varlenaValue]
  rw [kind] at hstr
  cases hk : c.type.kind <;> first | rfl | simp [hk, isStringType] at hstr

end DecodedColumn

end TaeScanner
