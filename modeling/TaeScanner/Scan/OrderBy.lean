/-
  TaeScanner.Scan.OrderBy

  ORDER BY pushdown: Init sorts the work units by a zone map bound of the order
  column and, under a row limit, keeps the first units that hold that many raw
  rows between them.

    * `std::sort` is a parameter: any permutation in which no later unit has to
      come before an earlier one;
    * the raw rows are counted before any filter and whatever their values, so
      the kept units need not hold the first rows of the answer.  They do
      exactly when every value behind the cut has enough values before it.
-/

import Mathlib.Data.List.Lex
import TaeScanner.Lib.SortedPrefix
import TaeScanner.Scan.Blocks
import TaeScanner.Scan.Init

namespace TaeScanner

open Lib

-- ============================================================================
-- The order of values
-- ============================================================================

/-- Values of one column are ordered as lists of integers. -/
abbrev OrderKey := List Int

/-- The order of IEEE numbers: zeros tie, and DuckDB puts NaN behind infinity. -/
def realKey (bs : List Byte) : Int :=
  let key := if bs.length = 4 then floatKey 8 23 (leNat bs) else floatKey 11 52 (leNat bs)
  key.getD (2 ^ 64)

/-- Where a value stands among the values of its column. -/
def SqlValue.orderKey : SqlValue → OrderKey
  | bool b => [b.toNat]
  | int i => [i]
  | real bits => [realKey bits]
  | decimal unscaled _ => [unscaled]
  | bytes bs => bs.map fun b => (b.toNat : Int)
  | uuid i => [i]
  | list items => items.map realKey

-- ============================================================================
-- Zone map value decoding
-- ============================================================================

/-- The scale of a DECIMAL type. -/
def LogicalType.scale : LogicalType → Int
  | decimal _ scale => scale
  | _ => 0

/-- `ZoneMapBytesToValue`; `none` is the NULL value. -/
def zoneMapBytesToValue (ptr : List Byte) (oid : MOTypeOid) (colType : LogicalType) : Option SqlValue :=
  match oid with
  | .int8 => some (.int (leInt (ptr.take 1)))
  | .int16 => some (.int (leInt (ptr.take 2)))
  | .int32 => some (.int (leInt (ptr.take 4)))
  | .int64 => some (.int (leInt (ptr.take 8)))
  | .uint8 => some (.int (leNat (ptr.take 1)))
  | .uint16 => some (.int (leNat (ptr.take 2)))
  | .uint32 => some (.int (leNat (ptr.take 4)))
  | .uint64 => some (.int (leNat (ptr.take 8)))
  | .float32 => some (.real (ptr.take 4))
  | .float64 => some (.real (ptr.take 8))
  | .bool => some (.bool (leNat (ptr.take 1) ≠ 0))
  | .date => some (.int (leInt (ptr.take 4) - moUnixEpochDays))
  | .datetime | .timestamp => some (.int (leInt (ptr.take 8) - moUnixEpochUsec))
  | .time => some (.int (leInt (ptr.take 8)))
  | .decimal64 => some (.decimal (leInt (ptr.take 8)) colType.scale)
  | .decimal128 => some (.decimal (leInt (ptr.take 16)) colType.scale)
  | .uuid => some (.uuid (uuidFromBlob (ptr.take 16)))
  | _ => none

/-- `ZoneMapBytesToString`. -/
def zoneMapBytesToString (ptr : List Byte) (len : Nat) : List Byte := ptr.take len

-- ============================================================================
-- Sorting the units
-- ============================================================================

/-- The order column: its seqnum, its stored type and its DuckDB type. -/
structure OrderColumn where
  seqnum : Nat
  moOid : MOTypeOid
  colType : LogicalType

/-- The column an ORDER BY names, if the manifest has it. -/
def TAEScanBindData.orderColumn? (bind : TAEScanBindData) (order : ScanOrderInfo) : Option OrderColumn :=
  (bind.allColSeqnums[order.columnIdx]?).bind fun seqnum =>
    (bind.allColMoOids[order.columnIdx]?).bind fun oid =>
      (bind.allColTypes[order.columnIdx]?).map fun colType =>
        ⟨seqnum, MOTypeOid.ofByte oid, colType⟩

/-- The sort key of a zone map. -/
def ScanOrderInfo.keyOf (order : ScanOrderInfo) (col : OrderColumn) (zm : ZoneMap) : Option SqlValue :=
  if order.useMinStat then
    if order.isString then some (.bytes (zoneMapBytesToString zm.minBuf zm.minLen))
    else zoneMapBytesToValue zm.minBuf col.moOid col.colType
  else
    if order.isString then some (.bytes (zoneMapBytesToString zm.maxBuf zm.maxLen))
    else zoneMapBytesToValue zm.maxBuf col.moOid col.colType

/-- A work unit and its key; a block without a zone map has the NULL key. -/
structure SortableUnit where
  unit : WorkUnit
  md : ObjectMeta
  key : Option SqlValue

/-- Read the key of a unit; `none` when the object's metadata cannot be read. -/
def sortableUnit (storage : Storage) (order : ScanOrderInfo) (col : OrderColumn) (wu : WorkUnit) :
    Option SortableUnit :=
  (storage.readMeta wu.objectIdx).map fun md =>
    ⟨wu, md, (md.getZoneMap wu.blockIdx col.seqnum).bind (order.keyOf col)⟩

/-- The comparator: NULLs go to the end regardless of direction. -/
def ScanOrderInfo.sortsBefore (order : ScanOrderInfo) (a b : SortableUnit) : Bool :=
  match a.key, b.key with
  | none, _ => false
  | some _, none => true
  | some x, some y =>
      if order.ascending then decide (x.orderKey < y.orderKey) else decide (y.orderKey < x.orderKey)

/-- `std::sort`: a permutation in which nothing sorts before an earlier element. -/
structure StdSort where
  sort : (SortableUnit → SortableUnit → Bool) → List SortableUnit → List SortableUnit
  perm : ∀ lt l, (sort lt l).Perm l
  sorted : ∀ (order : ScanOrderInfo) (l : List SortableUnit),
    (sort order.sortsBefore l).Pairwise fun a b => order.sortsBefore b a = false

-- ============================================================================
-- The row limit
-- ============================================================================

/-- The loop over the sorted units: keep units until they hold `rowLimit` rows. -/
def truncateUnits (rowLimit : Nat) : Nat → List SortableUnit → List SortableUnit
  | _, [] => []
  | rowsAvailable, su :: rest =>
      let rowsAvailable := rowsAvailable + su.md.blockRowCount su.unit.blockIdx
      if rowLimit ≤ rowsAvailable then [su] else su :: truncateUnits rowLimit rowsAvailable rest

/-- The ORDER BY pushdown of `TAEScanInit` on a column of the table. -/
def orderUnits (std : StdSort) (storage : Storage) (order : ScanOrderInfo) (col : OrderColumn)
    (units : List WorkUnit) : Option (List WorkUnit) :=
  (units.mapM (sortableUnit storage order col)).map fun sortable =>
    let sorted := std.sort order.sortsBefore sortable
    let kept := if 0 < order.rowLimit then truncateUnits order.rowLimit 0 sorted else sorted
    kept.map (·.unit)

-- ============================================================================
-- The answer of the query
-- ============================================================================

/-- The direction of the query: `x` is listed before `y` or ties with it. -/
def ScanOrderInfo.ComesFirst (order : ScanOrderInfo) (x y : OrderKey) : Prop :=
  if order.ascending then x ≤ y else y ≤ x

section ComesFirst
variable (order : ScanOrderInfo)

instance : DecidableRel order.ComesFirst := fun x y =>
  inferInstanceAs (Decidable (if order.ascending then x ≤ y else y ≤ x))

theorem ScanOrderInfo.comesFirst_asc (h : order.ascending = true) : order.ComesFirst = (· ≤ ·) := by
  funext x y
  exact if_pos h

theorem ScanOrderInfo.comesFirst_desc (h : order.ascending = false) : order.ComesFirst = (· ≥ ·) := by
  funext x y
  exact if_neg (by simp [h])

instance : IsTrans OrderKey order.ComesFirst := by
  cases h : order.ascending
  · rw [order.comesFirst_desc h]
    infer_instance
  · rw [order.comesFirst_asc h]
    infer_instance

instance : Std.Total order.ComesFirst := by
  cases h : order.ascending
  · rw [order.comesFirst_desc h]
    infer_instance
  · rw [order.comesFirst_asc h]
    infer_instance

instance : Std.Antisymm order.ComesFirst := by
  cases h : order.ascending
  · rw [order.comesFirst_desc h]
    infer_instance
  · rw [order.comesFirst_asc h]
    infer_instance

end ComesFirst

end TaeScanner
