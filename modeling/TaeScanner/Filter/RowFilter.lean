/-
  TaeScanner.Filter.RowFilter

  Per-row filter evaluation: `RowPassesFilter` and `ApplyRowFilters`.

  A test is `none` when it would read the column's data outside its buffer.
  Constants are as long as their type, since the encoder resizes them, so
  loading one never leaves its bytes.
-/

import TaeScanner.Filter.Scalar
import TaeScanner.Table.Column
import TaeScanner.Table.DuckVector

namespace TaeScanner

open Lib

/-- A constant in the format of stored elements, and its length. -/
structure EncodedConstant where
  bytes : List Byte
  len : Nat
  deriving DecidableEq, Repr

/-- One comparison predicate on one column. -/
structure PushedFilter where
  /-- Index into the decoded columns. -/
  colIdx : Nat
  seqnum : Nat
  moTypeOid : Byte
  op : FilterOp
  constant : EncodedConstant := ⟨[], 0⟩
  /-- The values of an IN set. -/
  inValues : List EncodedConstant := []
  deriving DecidableEq, Repr

/-- The MO type the filter dispatches on. -/
def PushedFilter.kind (pf : PushedFilter) : MOTypeOid := MOTypeOid.ofByte pf.moTypeOid

-- ============================================================================
-- Strings
-- ============================================================================

/-- Where the string of a slot starts and how long it is; `none` when a big
    slot fails the 32-bit test against the size of the area. -/
def DecodedColumn.filterString? (col : DecodedColumn) (v : Varlena) : Option (List Byte × Nat) :=
  if v.isInline then some (v.data.drop 1, v.inlineLength)
  else if wrapAdd 32 v.bigOffset v.bigLength ≤ col.area.length then
    some (col.area.drop v.bigOffset, v.bigLength)
  else none

/-- `memcmp` with a buffer of which at least `n` bytes must be left. -/
def memcmp? (str const : List Byte) (n : Nat) : Option Ordering :=
  if n ≤ str.length then some (memcmp str const n) else none

/-- The three-way result of the common prefix, then of the lengths. -/
def tieByLength (cmp : Ordering) (strLen constLen : Nat) : Ordering :=
  if cmp = .eq ∧ strLen ≠ constLen then (if strLen < constLen then .lt else .gt) else cmp

-- ============================================================================
-- One filter
-- ============================================================================

/-- Is a fixed-width element equal to a value of an IN set? -/
def DecodedColumn.inHit (col : DecodedColumn) (oid : MOTypeOid) (row : Nat) (cp : List Byte) :
    Option Bool :=
  match oid with
  | .int8 | .uint8 | .bool => (col.element? 1 row).map fun rowPtr => rowPtr == cp.take 1
  | .decimal128 | .uuid => (col.element? 16 row).map fun rowPtr => memcmp rowPtr cp 16 == .eq
  | _ =>
      match scalarTypeOf oid with
      | some st => (col.element? st.size row).map fun rowPtr => scalarEq (st.load rowPtr) (st.load cp)
      | none => some false

/-- The IN_SET branch of `RowPassesFilter`. -/
def rowInSet (pf : PushedFilter) (col : DecodedColumn) (row : Nat) : Option Bool :=
  if isStringType pf.kind then
    match col.slot? row with
    | none => none
    | some v =>
        match col.filterString? v with
        | none => some true
        | some (str, strLen) =>
            pf.inValues.anyM fun value =>
              if value.len = strLen then (memcmp? str value.bytes strLen).map (· == .eq)
              else some false
  else if moTypeFixedSize pf.kind ≤ 0 then some true
  else pf.inValues.anyM fun value => col.inHit pf.kind row value.bytes

/-- The comparison branch of `RowPassesFilter`. -/
def rowCompare (pf : PushedFilter) (col : DecodedColumn) (row : Nat) : Option Bool :=
  if isStringType pf.kind then
    match col.slot? row with
    | none => none
    | some v =>
        match col.filterString? v with
        | none => some true
        | some (str, strLen) =>
            (memcmp? str pf.constant.bytes (min strLen pf.constant.len)).map fun cmp =>
              pf.op.ofOrdering (tieByLength cmp strLen pf.constant.len)
  else if moTypeFixedSize pf.kind ≤ 0 then some true
  else
    match pf.kind with
    | .uuid =>
        (col.element? 16 row).map fun rowPtr => pf.op.ofOrdering (memcmp rowPtr pf.constant.bytes 16)
    | oid =>
        match scalarTypeOf oid with
        | some st =>
            (col.element? st.size row).map fun rowPtr =>
              pf.op.compareScalar (st.load rowPtr) (st.load pf.constant.bytes)
        | none => some true

/-- The null flag the filter extracts. -/
def DecodedColumn.filterNull (col : DecodedColumn) (row : Nat) : Bool :=
  decide (row < col.rowCount) && col.isNullAt row

def rowPassesFilter (pf : PushedFilter) (col : DecodedColumn) (row : Nat) : Option Bool :=
  match pf.op with
  | .isNull => some (col.filterNull row)
  | .isNotNull => some (!col.filterNull row)
  | .inSet => if col.filterNull row then some false else rowInSet pf col row
  | _ => if col.filterNull row then some false else rowCompare pf col row

-- ============================================================================
-- All filters, all rows of a chunk
-- ============================================================================

/-- Does a row pass every filter?  The first filter it fails decides; a filter
    on a column that is not there is skipped. -/
def rowPassesFilters (filters : List PushedFilter) (cols : List DecodedColumn) (row : Nat) :
    Option Bool :=
  filters.allM fun pf =>
    match cols[pf.colIdx]? with
    | some col => rowPassesFilter pf col row
    | none => some true

/-- The selection vector `ApplyRowFilters` builds. -/
def passingRows (filters : List PushedFilter) (cols : List DecodedColumn)
    (rowCount srcOffset : Nat) : Option (List Nat) :=
  (List.range rowCount).filterM fun row => rowPassesFilters filters cols (srcOffset + row)

/-- Compact the chunk to the rows that pass; the second component is the new
    row count. -/
def applyRowFilters (filters : List PushedFilter) (cols : List DecodedColumn) (output : DataChunk)
    (rowCount srcOffset : Nat) : Option (DataChunk × Nat) :=
  if filters = [] then some (output, rowCount)
  else
    (passingRows filters cols rowCount srcOffset).map fun sel =>
      if sel.length = rowCount then (output, rowCount)
      else if sel.length = 0 then (output.setCardinality 0, 0)
      else (output.slice sel, sel.length)

end TaeScanner
