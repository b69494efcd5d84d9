/-
  TaeScanner.Types

  The MO type system as the scanner sees it: type OIDs, the 16-byte type
  descriptor, varlena slots, and the mapping to DuckDB logical types with the
  widths both sides store.
-/

import TaeScanner.Lib.ByteOrder
import TaeScanner.Lib.Wrap

namespace TaeScanner

open Lib

-- ============================================================================
-- MO type OIDs
-- ============================================================================

/-- The OIDs of MO types; `unknown` is a code the enumeration does not name. -/
inductive MOTypeOid
  | any | bool | bit
  | int8 | int16 | int32 | int64 | int128
  | uint8 | uint16 | uint32 | uint64 | uint128
  | float32 | float64
  | decimal64 | decimal128 | decimal256
  | date | time | datetime | timestamp | interval | year
  | char | varchar | json | uuid | binary | varbinary | enum
  | blob | text | datalink
  | TS | Rowid | Blockid | Objectid
  | arrayFloat32 | arrayFloat64
  | unknown
  deriving DecidableEq, Repr

/-- `static_cast<MOTypeOid>` of a byte. -/
def MOTypeOid.ofByte (oid : Byte) : MOTypeOid :=
  match oid.toNat with
  | 0 => .any
  | 10 => .bool
  | 11 => .bit
  | 20 => .int8
  | 21 => .int16
  | 22 => .int32
  | 23 => .int64
  | 24 => .int128
  | 25 => .uint8
  | 26 => .uint16
  | 27 => .uint32
  | 28 => .uint64
  | 29 => .uint128
  | 30 => .float32
  | 31 => .float64
  | 32 => .decimal64
  | 33 => .decimal128
  | 34 => .decimal256
  | 50 => .date
  | 51 => .time
  | 52 => .datetime
  | 53 => .timestamp
  | 54 => .interval
  | 55 => .year
  | 60 => .char
  | 61 => .varchar
  | 62 => .json
  | 63 => .uuid
  | 64 => .binary
  | 65 => .varbinary
  | 66 => .enum
  | 70 => .blob
  | 71 => .text
  | 72 => .datalink
  | 100 => .TS
  | 101 => .Rowid
  | 102 => .Blockid
  | 103 => .Objectid
  | 224 => .arrayFloat32
  | 225 => .arrayFloat64
  | _ => .unknown

/-- The MO type descriptor, 16 bytes on disk; `size`, `width` and `scale` are `int32`. -/
structure MOType where
  oid : Byte
  charset : Byte := 0
  notNull : Byte := 0
  dummy2 : Byte := 0
  size : Int := 0
  width : Int := 0
  scale : Int := 0
  deriving DecidableEq, Repr

/-- The OID a descriptor's byte is read as. -/
def MOType.kind (t : MOType) : MOTypeOid := MOTypeOid.ofByte t.oid

/-- Days and microseconds from 0001-01-01, where MO counts from, to the Unix epoch. -/
def moUnixEpochDays : Int := 719162
def moUnixEpochUsec : Int := 62135596800000000

-- ============================================================================
-- Varlena slots
-- ============================================================================

def varlenaSize : Nat := 24
def varlenaInlineMax : Nat := 23
def varlenaBigMarker : Nat := 0xFFFFFFFF

/-- A 24-byte varlena slot. -/
structure Varlena where
  data : List Byte
  length_eq : data.length = varlenaSize
  deriving DecidableEq

namespace Varlena

/-- The first byte tells an inline string from a reference into the area. -/
def isInline (v : Varlena) : Bool := leNat (v.data.take 1) ≤ varlenaInlineMax

def inlineLength (v : Varlena) : Nat := leNat (v.data.take 1)

def inlineData (v : Varlena) : List Byte := (v.data.drop 1).take v.inlineLength

/-- The 4 bytes a big slot starts with. -/
def bigMarker (v : Varlena) : Nat := leNat (v.data.take 4)

def bigOffset (v : Varlena) : Nat := leNat ((v.data.drop 4).take 4)

def bigLength (v : Varlena) : Nat := leNat ((v.data.drop 8).take 4)

theorem inlineData_length {v : Varlena} (h : v.isInline = true) :
    v.inlineData.length = v.inlineLength := by
  have hle : v.inlineLength ≤ varlenaInlineMax := by simpa [isInline, inlineLength] using h
  rw [inlineData, List.length_take, List.length_drop, v.length_eq]
  simp only [varlenaInlineMax, varlenaSize] at *
  omega

end Varlena

-- ============================================================================
-- DuckDB logical types
-- ============================================================================

/-- The DuckDB logical types the scanner produces. -/
inductive LogicalType
  | boolean | tinyint | smallint | integer | bigint
  | utinyint | usmallint | uinteger | ubigint
  | float | double
  | decimal (width scale : Nat)
  | date | timestamp | time
  | varchar | blob | uuid
  | list (child : LogicalType)
  deriving DecidableEq, Repr

/-- The physical types of the fixed-width logical types. -/
inductive PhysicalType
  | bool | int8 | int16 | int32 | int64 | uint8 | uint16 | uint32 | uint64
  | float | double | int128 | varchar | list
  deriving DecidableEq, Repr

/-- DECIMAL values are stored in the smallest integer that holds the width. -/
def decimalPhysicalType (width : Nat) : PhysicalType :=
  if width ≤ 4 then .int16
  else if width ≤ 9 then .int32
  else if width ≤ 18 then .int64
  else .int128

/-- `LogicalType::InternalType()`. -/
def LogicalType.internalType : LogicalType → PhysicalType
  | boolean => .bool
  | tinyint => .int8
  | smallint => .int16
  | integer => .int32
  | bigint => .int64
  | utinyint => .uint8
  | usmallint => .uint16
  | uinteger => .uint32
  | ubigint => .uint64
  | float => .float
  | double => .double
  | decimal width _ => decimalPhysicalType width
  | date => .int32
  | timestamp => .int64
  | time => .int64
  | varchar => .varchar
  | blob => .varchar
  | uuid => .int128
  | list _ => .list

/-- Bytes of one element of a flat vector (`string_t` and `list_entry_t` are 16 bytes). -/
def PhysicalType.size : PhysicalType → Nat
  | bool => 1
  | int8 => 1
  | uint8 => 1
  | int16 => 2
  | uint16 => 2
  | int32 => 4
  | uint32 => 4
  | float => 4
  | int64 => 8
  | uint64 => 8
  | double => 8
  | int128 => 16
  | varchar => 16
  | list => 16

/-- `LogicalType::DECIMAL(width, scale)`: both arguments narrow to `uint8_t`, and
    a width above 38 has no storage type. -/
def LogicalType.mkDecimal (width scale : Int) : Except String LogicalType :=
  let w := (width % 256).toNat
  if w ≤ 38 then .ok (.decimal w (scale % 256).toNat)
  else .error ("Decimal has a width of " ++ toString w ++
    " which is bigger than the maximum supported width of 38")

/-- The DuckDB type of an MO type. -/
def moTypeToDuckDB (t : MOType) : Except String LogicalType :=
  match t.kind with
  | .bool => .ok .boolean
  | .int8 => .ok .tinyint
  | .int16 => .ok .smallint
  | .int32 => .ok .integer
  | .int64 => .ok .bigint
  | .uint8 => .ok .utinyint
  | .uint16 => .ok .usmallint
  | .uint32 => .ok .uinteger
  | .uint64 => .ok .ubigint
  | .float32 => .ok .float
  | .float64 => .ok .double
  | .decimal64 => LogicalType.mkDecimal t.width t.scale
  | .decimal128 => LogicalType.mkDecimal t.width t.scale
  | .date => .ok .date
  | .datetime => .ok .timestamp
  | .timestamp => .ok .timestamp
  | .time => .ok .time
  | .year => .ok .smallint
  | .char | .varchar | .text | .json | .datalink => .ok .varchar
  | .blob | .binary | .varbinary => .ok .blob
  | .uuid => .ok .uuid
  | .bit => .ok .ubigint
  | .enum => .ok .usmallint
  | .arrayFloat32 => .ok (.list .float)
  | .arrayFloat64 => .ok (.list .double)
  | _ => .error ("unsupported MO type OID: " ++ toString t.oid.toNat)

/-- Fixed size in bytes of an MO type (-1 = varlena). -/
def moTypeFixedSize : MOTypeOid → Int
  | .bool | .int8 | .uint8 => 1
  | .int16 | .uint16 | .year | .enum => 2
  | .int32 | .uint32 | .date | .float32 => 4
  | .int64 | .uint64 | .float64 | .datetime | .timestamp | .time | .decimal64 | .bit => 8
  | .decimal128 | .uuid => 16
  | .decimal256 => 32
  | _ => -1

/-- Is this MO type OID a string/varlena type? -/
def isStringType : MOTypeOid → Bool
  | .char | .varchar | .text | .json | .datalink | .blob | .binary | .varbinary => true
  | _ => false

theorem moTypeFixedSize_of_isStringType {oid : MOTypeOid} (h : isStringType oid = true) :
    moTypeFixedSize oid = -1 := by
  cases oid <;> first | rfl | simp [isStringType] at h

/-- A type without a fixed size has the size -1. -/
theorem moTypeFixedSize_of_not_pos {oid : MOTypeOid} (h : ¬0 < moTypeFixedSize oid) :
    moTypeFixedSize oid = -1 := by
  cases oid <;> first | rfl | exact absurd (by decide) h

end TaeScanner
