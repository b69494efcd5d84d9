/-
  TaeScanner.Scan.State

  What a scan works on: the manifest data of the bind, the plan that Init derives
  from it and from the metadata of the objects, and the object storage as the
  reader presents it.
-/

import TaeScanner.Reader.ObjectMeta

namespace TaeScanner

open Lib

-- ============================================================================
-- Objects
-- ============================================================================

/-- The objects of a table as `TAEObjectReader` serves them; `none` is an
    exception.  `readBlock` returns one column for each seqnum asked for. -/
structure Storage where
  readMeta : Nat → Option ObjectMeta
  readBlock : Nat → Nat → List Nat → Option (List DecodedColumn)
  readBlock_length : ∀ {obj blk : Nat} {seqnums : List Nat} {cols : List DecodedColumn},
    readBlock obj blk seqnums = some cols → cols.length = seqnums.length

-- ============================================================================
-- Bind data
-- ============================================================================

structure TAEObjectInfo where
  filePath : String
  rows : Nat
  blocks : Nat
  sizeBytes : Nat := 0
  /-- Object-level zone map of the sort key column, if the manifest has one. -/
  sortKeyZm : Option ZoneMap := none
  deriving DecidableEq

structure ScanOrderInfo where
  columnIdx : Nat
  ascending : Bool
  /-- Sort by the min rather than by the max of the zone map. -/
  useMinStat : Bool
  isString : Bool
  /-- 0 = no limit. -/
  rowLimit : Nat
  deriving DecidableEq, Repr

structure TAEScanBindData where
  allColTypes : List LogicalType
  allColMoOids : List Byte
  allColSeqnums : List Nat
  objects : List TAEObjectInfo
  /-- -1 = unspecified. -/
  sortColumnIdx : Int := -1
  scanOrder : Option ScanOrderInfo := none

/-- One block within one object. -/
structure WorkUnit where
  objectIdx : Nat
  blockIdx : Nat
  deriving DecidableEq, Repr

-- ============================================================================
-- The plan of a scan
-- ============================================================================

/-- What an output column slot holds; a TAE column names its position among the
    decoded columns. -/
inductive OutputColumnInfo
  | taeColumn (taeColIdx decodedPos : Nat)
  | vcolFilename
  | vcolBlockId
  deriving DecidableEq, Repr

/-- The constant part of `TAEScanState`, fixed by Init.  Output slots and filters
    refer to columns that are read. -/
structure ScanPlan where
  objects : List TAEObjectInfo
  outputMap : List OutputColumnInfo
  readSeqnums : List Nat
  filters : List PushedFilter
  doSample : Bool := false
  workUnits : List WorkUnit
  output_read : ∀ {i taeColIdx decodedPos : Nat},
    outputMap[i]? = some (.taeColumn taeColIdx decodedPos) → decodedPos < readSeqnums.length
  filters_read : ∀ pf ∈ filters, readSeqnums[pf.colIdx]? = some pf.seqnum

/-- A query of one column refers to no other. -/
theorem oneColumn_output_read {i taeColIdx decodedPos : Nat}
    (h : [OutputColumnInfo.taeColumn 0 0][i]? = some (.taeColumn taeColIdx decodedPos)) :
    decodedPos < ([0] : List Nat).length := by
  cases i with
  | zero =>
      cases h
      exact Nat.succ_pos 0
  | succ i => cases h

theorem oneColumn_no_filters :
    ∀ pf ∈ ([] : List PushedFilter), ([0] : List Nat)[pf.colIdx]? = some pf.seqnum :=
  fun _ h => absurd h List.not_mem_nil

end TaeScanner
