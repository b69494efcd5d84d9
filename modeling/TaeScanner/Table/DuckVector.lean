/-
  TaeScanner.Table.DuckVector

  The part of DuckDB's vectors that the scanner writes to, as far as the code
  relies on it: a typed block of memory, a validity mask, and a vector kind
  that says how the cells are read off them.

    * `SetInvalid` only clears validity bits and `SetVectorType` sets the kind
      until it is set again; only `reset`, between two calls, undoes them;
    * `Slice` turns a vector into a dictionary over its current cells.
-/

import TaeScanner.Table.SqlValue
import TaeScanner.Types

namespace TaeScanner

open Lib

/-- `STANDARD_VECTOR_SIZE`. -/
def standardVectorSize : Nat := 2048

/-- How the cells of a vector are read; a dictionary keeps the cells it selected. -/
inductive VectorKind
  | flat
  | constant
  | dictionary (cells : List Cell)
  deriving DecidableEq, Repr

/-- A DuckDB vector.  Elements of fixed width live in `data`; a string and a
    list element are kept as what their 16-byte entries refer to. -/
structure DuckVector where
  type : LogicalType
  kind : VectorKind := .flat
  data : Nat → Byte := fun _ => 0
  strings : Nat → List Byte := fun _ => []
  lists : Nat → List (List Byte) := fun _ => []
  /-- The cleared bits of the validity mask. -/
  invalid : Nat → Bool := fun _ => false

/-- The value of a fixed-width element of the type, from its bytes. -/
def LogicalType.valueOf : LogicalType → List Byte → SqlValue
  | boolean, bs => .bool (leNat bs ≠ 0)
  | utinyint, bs | usmallint, bs | uinteger, bs | ubigint, bs => .int (leNat bs)
  | tinyint, bs | smallint, bs | integer, bs | bigint, bs => .int (leInt bs)
  | date, bs | timestamp, bs | time, bs => .int (leInt bs)
  | decimal _ scale, bs => .decimal (leInt bs) scale
  | uuid, bs => .uuid (leInt bs)
  | float, bs | double, bs | varchar, bs | blob, bs | list _, bs => .real bs

namespace DuckVector

-- ============================================================================
-- Reading
-- ============================================================================

/-- The width of an element of the vector. -/
def width (v : DuckVector) : Nat := v.type.internalType.size

/-- The bytes `[off, off + n)` of the vector's memory. -/
def bytesAt (v : DuckVector) (off n : Nat) : List Byte :=
  (List.range n).map fun k => v.data (off + k)

/-- The value of element `i`, at the vector's own element width. -/
def elemAt (v : DuckVector) (i : Nat) : SqlValue :=
  match v.type with
  | .varchar | .blob => .bytes (v.strings i)
  | .list _ => .list (v.lists i)
  | ty => ty.valueOf (v.bytesAt (i * v.width) v.width)

/-- What a query reads at position `i`. -/
def cell (v : DuckVector) (i : Nat) : Cell :=
  match v.kind with
  | .flat => if v.invalid i then none else some (v.elemAt i)
  | .constant => if v.invalid 0 then none else some (v.elemAt 0)
  | .dictionary cells => (cells[i]?).getD none

-- ============================================================================
-- Writing
-- ============================================================================

/-- `memcpy` into the vector's memory at byte offset `off`. -/
def writeBytes (v : DuckVector) (off : Nat) (bs : List Byte) : DuckVector :=
  { v with data := fun a => if off ≤ a then (bs[a - off]?).getD (v.data a) else v.data a }

/-- `StringVector::AddString` and the store of the entry it returns. -/
def setString (v : DuckVector) (i : Nat) (s : List Byte) : DuckVector :=
  { v with strings := Function.update v.strings i s }

/-- `ValidityMask::SetInvalid`. -/
def setInvalid (v : DuckVector) (i : Nat) : DuckVector :=
  { v with invalid := Function.update v.invalid i true }

/-- `SetVectorType(CONSTANT_VECTOR)`. -/
def setConstant (v : DuckVector) : DuckVector := { v with kind := .constant }

/-- `Slice`: a dictionary of the selected cells. -/
def slice (v : DuckVector) (sel : List Nat) : DuckVector :=
  { v with kind := .dictionary (sel.map v.cell) }

/-- The reset between two calls: flat and all valid, the memory as it is. -/
def reset (v : DuckVector) : DuckVector :=
  { v with kind := .flat, invalid := fun _ => false }

@[simp] theorem bytesAt_length (v : DuckVector) (off n : Nat) : (v.bytesAt off n).length = n := by
  simp [bytesAt]

theorem bytesAt_getElem? (v : DuckVector) (off n k : Nat) :
    (v.bytesAt off n)[k]? = if k < n then some (v.data (off + k)) else none := by
  rw [bytesAt]
  by_cases hk : k < n
  · simp [hk]
  · rw [if_neg hk, List.getElem?_eq_none]
    simpa using hk

/-- A range is the given bytes once every address of it is. -/
theorem bytesAt_eq (v : DuckVector) (off : Nat) (bs : List Byte)
    (h : ∀ k, k < bs.length → bs[k]? = some (v.data (off + k))) :
    v.bytesAt off bs.length = bs := by
  apply List.ext_getElem?
  intro k
  rw [bytesAt_getElem?]
  split
  · next hk => rw [h k hk]
  · next hk => rw [List.getElem?_eq_none (by omega)]

theorem bytesAt_congr {v w : DuckVector} {off n : Nat}
    (h : ∀ k, k < n → v.data (off + k) = w.data (off + k)) : v.bytesAt off n = w.bytesAt off n := by
  rw [bytesAt]
  apply List.map_congr_left
  intro k hk
  exact h k (List.mem_range.mp hk)

/-- The memory after a `memcpy`: the copied bytes in the window, unchanged outside. -/
theorem writeBytes_data_in (v : DuckVector) (off : Nat) {k : Nat} {bs : List Byte}
    (hk : k < bs.length) :
    (v.writeBytes off bs).data (off + k) = bs[k] := by
  show (if off ≤ off + k then (bs[off + k - off]?).getD _ else _) = _
  rw [if_pos (by omega), Nat.add_sub_cancel_left, List.getElem?_eq_getElem hk, Option.getD_some]

theorem writeBytes_data_out {v : DuckVector} {off a : Nat} {bs : List Byte}
    (ha : a < off ∨ off + bs.length ≤ a) : (v.writeBytes off bs).data a = v.data a := by
  show (if off ≤ a then (bs[a - off]?).getD _ else _) = _
  split
  · next hle => rw [List.getElem?_eq_none (by omega), Option.getD_none]
  · rfl

end DuckVector

-- ============================================================================
-- Flags
-- ============================================================================

/-- The part of a vector that decides how its memory is read: what earlier
    fills of a call may leave behind. -/
structure VectorFlags where
  kind : VectorKind
  invalid : Nat → Bool

namespace DuckVector

def flags (v : DuckVector) : VectorFlags := ⟨v.kind, v.invalid⟩

/-- The same memory under other flags. -/
def withFlags (v : DuckVector) (f : VectorFlags) : DuckVector :=
  { v with kind := f.kind, invalid := f.invalid }

section Flags
variable (v : DuckVector) (f g : VectorFlags)

@[simp] theorem withFlags_type : (v.withFlags f).type = v.type := rfl
@[simp] theorem withFlags_data : (v.withFlags f).data = v.data := rfl
@[simp] theorem withFlags_strings : (v.withFlags f).strings = v.strings := rfl
@[simp] theorem withFlags_flags : (v.withFlags f).flags = f := rfl
@[simp] theorem withFlags_kind : (v.withFlags f).kind = f.kind := rfl
@[simp] theorem withFlags_invalid : (v.withFlags f).invalid = f.invalid := rfl
@[simp] theorem withFlags_self : v.withFlags v.flags = v := rfl
@[simp] theorem withFlags_withFlags : (v.withFlags f).withFlags g = v.withFlags g := rfl
@[simp] theorem withFlags_elemAt (i : Nat) : (v.withFlags f).elemAt i = v.elemAt i := rfl

theorem reset_eq_withFlags : v.reset = v.withFlags ⟨.flat, fun _ => false⟩ := rfl

end Flags

end DuckVector

-- ============================================================================
-- Chunks
-- ============================================================================

/-- The output of a call: one vector a column, and the number of rows. -/
structure DataChunk where
  columns : List DuckVector
  cardinality : Nat := 0

namespace DataChunk

/-- `SetCardinality`: the count alone. -/
def setCardinality (c : DataChunk) (n : Nat) : DataChunk := { c with cardinality := n }

/-- `DataChunk::Slice`. -/
def slice (c : DataChunk) (sel : List Nat) : DataChunk :=
  ⟨c.columns.map (·.slice sel), sel.length⟩

/-- The reset before a call. -/
def reset (c : DataChunk) : DataChunk := ⟨c.columns.map (·.reset), 0⟩

/-- The cells a query reads at position `i`, one a column. -/
def row (c : DataChunk) (i : Nat) : List Cell := c.columns.map fun v => v.cell i

/-- The rows of a chunk. -/
def rows (c : DataChunk) : List (List Cell) := (List.range c.cardinality).map c.row

/-- Position `k` of a slice shows the cell it selected. -/
theorem slice_cell (v : DuckVector) (sel : List Nat) {k : Nat} (hk : k < sel.length) :
    (v.slice sel).cell k = v.cell sel[k] := by
  show ((sel.map v.cell)[k]?).getD none = _
  rw [List.getElem?_map, List.getElem?_eq_getElem hk]
  rfl

theorem slice_rows (c : DataChunk) (sel : List Nat) : (c.slice sel).rows = sel.map c.row := by
  apply List.ext_getElem
  · simp [rows, slice]
  · intro k h₁ h₂
    have hk : k < sel.length := by simpa using h₂
    simp only [rows, slice, row, List.getElem_map, List.getElem_range, List.map_map]
    apply List.map_congr_left
    intro v _
    exact slice_cell v sel hk

end DataChunk

end TaeScanner
