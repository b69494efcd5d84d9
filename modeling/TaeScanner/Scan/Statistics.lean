/-
  TaeScanner.Scan.Statistics

  `TAEScanStatistics`: the minimum, the maximum and the NULLs of a column, merged
  from the zone maps of all blocks of all objects without reading any block.

    * the objects are opened by a path of the function's own, `data_dir + "/" +
      file_path`, where the scan joins the two as file system paths;
    * the check of a string value's UTF-8 is DuckDB's and stays a parameter.
-/

import TaeScanner.Lib.Extremes
import TaeScanner.Reader.ReadBlockSpec
import TaeScanner.Scan.OrderBy

namespace TaeScanner

open Lib

-- ============================================================================
-- Files
-- ============================================================================

/-- The object files, by path, as `TAEObjectReader` serves them; `none` is an
    exception.  A block that is read is a block of the metadata, and so are its
    columns. -/
structure ObjectFiles where
  readMeta : String → Option ObjectMeta
  readBlock : String → Nat → List Nat → Option (List DecodedColumn)
  readBlock_length : ∀ {path : String} {blk : Nat} {seqnums : List Nat} {cols : List DecodedColumn},
    readBlock path blk seqnums = some cols → cols.length = seqnums.length
  readBlock_inMeta : ∀ {path : String} {blk : Nat} {seqnums : List Nat} {cols : List DecodedColumn},
    readBlock path blk seqnums = some cols → ∃ md info, readMeta path = some md ∧
      md.blocks[blk]? = some info ∧ ∀ seqnum ∈ seqnums, seqnum < info.columns.length

/-- `std::filesystem::path(dir) / file`. -/
def joinPath (dir file : String) : String :=
  if file.toList.head? = some '/' then file
  else if dir.toList = [] ∨ dir.toList.getLast? = some '/' then dir ++ file
  else dir ++ "/" ++ file

/-- The path under which the scan opens an object. -/
def scanPath (dataDir : String) (info : TAEObjectInfo) : String := joinPath dataDir info.filePath

/-- The path under which the statistics open it. -/
def statisticsPath (dataDir : String) (info : TAEObjectInfo) : String :=
  dataDir ++ "/" ++ info.filePath

/-- The objects of a table as the scan sees them. -/
def ObjectFiles.storage (files : ObjectFiles) (dataDir : String) (objects : List TAEObjectInfo) :
    Storage where
  readMeta obj := (objects[obj]?).bind fun info => files.readMeta (scanPath dataDir info)
  readBlock obj blk seqnums :=
    (objects[obj]?).bind fun info => files.readBlock (scanPath dataDir info) blk seqnums
  readBlock_length := by
    intro obj blk seqnums cols h
    obtain ⟨info, -, hread⟩ := Option.bind_eq_some_iff.mp h
    exact files.readBlock_length hread

/-- The files of a file system, each of them opened, its metadata read, and then
    its blocks. -/
def ObjectFiles.ofContents (fs : FileSystem) (lz4 : LZ4) (sort : OffsetSort) (gapMax threshold : Nat)
    (contents : String → Option (List Byte)) : ObjectFiles where
  readMeta path := (contents path).bind fun file =>
    ((TAEObjectReader.open file threshold).readMeta fs lz4).2.toOption
  readBlock path blk seqnums := (contents path).bind fun file =>
    let opened := (TAEObjectReader.open file threshold).readMeta fs lz4
    opened.2.toOption.bind fun md => (opened.1.readBlock fs lz4 sort gapMax md blk seqnums).2.toOption
  readBlock_length := by
    intro path blk seqnums cols h
    obtain ⟨file, -, h⟩ := Option.bind_eq_some_iff.mp h
    obtain ⟨md, -, h⟩ := Option.bind_eq_some_iff.mp h
    exact (readBlock_ok_inMeta (toOption_eq_some.mp h)).1
  readBlock_inMeta := by
    intro path blk seqnums cols h
    obtain ⟨file, hfile, h⟩ := Option.bind_eq_some_iff.mp h
    obtain ⟨md, hmd, h⟩ := Option.bind_eq_some_iff.mp h
    obtain ⟨-, info, hinfo, hseqnums⟩ := readBlock_ok_inMeta (toOption_eq_some.mp h)
    exact ⟨md, info, by rw [hfile, Option.bind_some, hmd], hinfo, hseqnums⟩

-- ============================================================================
-- Zone map value decoding
-- ============================================================================

/-- What is left of a number in a signed integer of `n` bytes. -/
def wrapSigned (n : Nat) (i : Int) : Int := leInt (leBytesInt n i)

/-- A decoded zone map value as DuckDB's `Value` holds it: dates and timestamps are
    shifted in their integer type, and a decimal is stored at the width of its
    DuckDB type.  `none` is an exception: the type has no width and scale, or a
    64-bit decimal does not fit. -/
def heldValue (oid : MOTypeOid) (colType : LogicalType) (v : SqlValue) : Option SqlValue :=
  match oid, v with
  | .date, .int i => some (.int (wrapSigned 4 i))
  | .datetime, .int i => some (.int (wrapSigned 8 i))
  | .timestamp, .int i => some (.int (wrapSigned 8 i))
  | .decimal64, .decimal unscaled scale =>
      match colType with
      | .decimal width _ =>
          if FitsSigned (decimalPhysicalType width).size unscaled then some (.decimal unscaled scale)
          else none
      | _ => none
  | .decimal128, .decimal unscaled scale =>
      match colType with
      | .decimal width _ =>
          some (.decimal (wrapSigned (decimalPhysicalType width).size unscaled) scale)
      | _ => none
  | _, v => some v

-- ============================================================================
-- The merge
-- ============================================================================

/-- `has_stats` with `global_min` and `global_max`, and `has_nulls`. -/
structure MergedStatistics where
  range : Option (SqlValue × SqlValue) := none
  hasNulls : Bool := false
  deriving DecidableEq, Repr

/-- What the function returns of a column; the prefixes that string statistics
    keep of the two values are DuckDB's. -/
structure ColumnStatistics where
  min : SqlValue
  max : SqlValue
  hasNull : Bool
  deriving DecidableEq, Repr

section Merge
variable (isValidUtf8 : List Byte → Bool) (oid : MOTypeOid) (colType : LogicalType)

/-- The values of the min and of the max field.  The outer `none` is an exception,
    the inner one the NULL of a type that is not decoded.  The initialised bit is
    not looked at. -/
def ZoneMap.statistics (zm : ZoneMap) : Option (Option (SqlValue × SqlValue)) :=
  if isStringType oid then
    let lo := zoneMapBytesToString zm.minBuf zm.minLen
    let hi := zoneMapBytesToString zm.maxBuf zm.maxLen
    if isValidUtf8 lo && isValidUtf8 hi then some (some (.bytes lo, .bytes hi)) else none
  else
    match zoneMapBytesToValue zm.minBuf oid colType, zoneMapBytesToValue zm.maxBuf oid colType with
    | some lo, some hi =>
        (heldValue oid colType lo).bind fun lo =>
          (heldValue oid colType hi).map fun hi => some (lo, hi)
    | _, _ => some none

/-- The values and the NULLs of one column of one block. -/
def MergedStatistics.addColumn (m : MergedStatistics) (col : ColumnMetaInfo) : Option MergedStatistics :=
  match col.zoneMap.statistics isValidUtf8 oid colType with
  | none => none
  | some none => some m
  | some (some p) =>
      some ⟨widen SqlValue.orderKey m.range p, m.hasNulls || decide (0 < col.nullCnt)⟩

/-- One iteration of the loop over the blocks. -/
def MergedStatistics.addBlock (seqnum : Nat) (m : MergedStatistics) (blk : BlockInfo) :
    Option MergedStatistics :=
  match blk.columns[seqnum]? with
  | none => some m
  | some col => m.addColumn isValidUtf8 oid colType col

/-- One iteration of the loop over the objects. -/
def MergedStatistics.addObject (files : ObjectFiles) (dataDir : String) (seqnum : Nat)
    (m : MergedStatistics) (info : TAEObjectInfo) : Option MergedStatistics :=
  (files.readMeta (statisticsPath dataDir info)).bind fun md =>
    md.blocks.foldlM (MergedStatistics.addBlock isValidUtf8 oid colType seqnum) m

end Merge

/-- `MAX_OBJECTS_FOR_STATS`. -/
def maxObjectsForStats : Nat := 16

/-- `TAEScanStatistics`; `none` is a null pointer. -/
def taeScanStatistics (files : ObjectFiles) (isValidUtf8 : List Byte → Bool) (dataDir : String)
    (bind : TAEScanBindData) (columnIndex : Nat) : Option ColumnStatistics :=
  match bind.allColTypes[columnIndex]?, bind.allColMoOids[columnIndex]?,
    bind.allColSeqnums[columnIndex]? with
  | some colType, some moOid, some seqnum =>
      if maxObjectsForStats < bind.objects.length then none
      else
        (bind.objects.foldlM
          (MergedStatistics.addObject isValidUtf8 (MOTypeOid.ofByte moOid) colType files dataDir seqnum)
          {}).bind fun m =>
            m.range.bind fun (lo, hi) =>
              if colType.internalType = .list then none else some ⟨lo, hi, m.hasNulls⟩
  | _, _, _ => none

end TaeScanner
