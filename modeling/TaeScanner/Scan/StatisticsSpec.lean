/-
  TaeScanner.Scan.StatisticsSpec

  When the planner may rely on the statistics of a column.

    * the fold ends with the range of the fields of all zone maps it has seen
      (`taeScanStatistics_spec`), whether they are initialised or not;
    * a block is vouched for when its own zone map is initialised, is the one the
      fold has seen, and holds values that survive the conversion.  Its values lie
      in the range by themselves;
    * the values of the other blocks lie there only if some other block happens to
      cover them.
-/

import TaeScanner.Filter.StringZoneMap
import TaeScanner.Scan.ChunkResidue
import TaeScanner.Scan.OrderBySpec
import TaeScanner.Scan.Statistics

namespace TaeScanner

open Lib

-- ============================================================================
-- The values of a column
-- ============================================================================

/-- The MO type of a column, as far as the manifest gives it. -/
def columnType (moOid : Byte) (colType : LogicalType) : MOType :=
  { oid := moOid, scale := colType.scale }

@[simp] theorem columnType_kind (moOid : Byte) (colType : LogicalType) :
    (columnType moOid colType).kind = MOTypeOid.ofByte moOid := rfl

namespace DecodedColumn

/-- The element a row shows: a CONSTANT column has one for all rows. -/
def elementRow (c : DecodedColumn) (row : Nat) : Nat := if c.vecClass = 1 then 0 else row

/-- Is the row NULL? -/
def rowNull (c : DecodedColumn) (row : Nat) : Bool :=
  if c.vecClass = 1 then c.constantNull else decide (c.nullCount ≠ 0) && c.isNullAt row

/-- The value of a row, of a column of the given type. -/
def rowValue? (t : MOType) (c : DecodedColumn) (row : Nat) : Option SqlValue :=
  if isStringType t.kind then ((c.slot? (c.elementRow row)).bind c.slotString?).map .bytes
  else (c.element? (moTypeFixedSize t.kind).toNat (c.elementRow row)).map t.fixedValue

/-- A non-NULL value of the column. -/
def HasValue (t : MOType) (c : DecodedColumn) (v : SqlValue) : Prop :=
  ∃ row, row < c.rowCount ∧ c.rowNull row = false ∧ c.rowValue? t row = some v

/-- The NULLs of the column. -/
def nullRows (c : DecodedColumn) : Nat := (List.range c.rowCount).countP c.rowNull

end DecodedColumn

/-- The zone map bounds the non-NULL values of the column: its fields hold the cut
    bounds of strings, and bounds of the values of any other type. -/
def ZoneMap.BoundsColumn (t : MOType) (zm : ZoneMap) (col : DecodedColumn) : Prop :=
  if isStringType t.kind then
    ∃ lo hi, zm.Summarises lo hi ∧ ∀ s, col.HasValue t (.bytes s) → lo ≤ s ∧ s ≤ hi
  else
    let size := (moTypeFixedSize t.kind).toNat
    ∀ v, col.HasValue t v → (t.fixedValue (zm.minBuf.take size)).orderKey ≤ v.orderKey ∧
      v.orderKey ≤ (t.fixedValue (zm.maxBuf.take size)).orderKey

-- ============================================================================
-- What the scan and the statistics see
-- ============================================================================

/-- The meta of a column of a block. -/
def ObjectFiles.columnMeta? (files : ObjectFiles) (path : String) (blk seqnum : Nat) :
    Option ColumnMetaInfo :=
  (files.readMeta path).bind fun md => (md.blocks[blk]?).bind fun info => info.columns[seqnum]?

section Table
variable (files : ObjectFiles) (dataDir : String) (objects : List TAEObjectInfo) (seqnum : Nat)

/-- The scan reads the column in a block of an object. -/
def Scans (info : TAEObjectInfo) (blk : Nat) (col : DecodedColumn) : Prop :=
  ∃ (obj : Nat) (seqnums : List Nat) (cols : List DecodedColumn) (i : Nat), objects[obj]? = some info ∧
    (files.storage dataDir objects).readBlock obj blk seqnums = some cols ∧
    seqnums[i]? = some seqnum ∧ cols[i]? = some col

/-- The column metas the statistics meet. -/
def statisticsColumns : List ColumnMetaInfo :=
  objects.flatMap fun info =>
    match files.readMeta (statisticsPath dataDir info) with
    | some md => md.blocks.filterMap fun blk => blk.columns[seqnum]?
    | none => []

/-- The metadata is true: every initialised zone map bounds its column in its block,
    and every null count is the number of NULLs there. -/
structure MetadataTrue (t : MOType) : Prop where
  bounds : ∀ info blk col cm, Scans files dataDir objects seqnum info blk col →
    files.columnMeta? (scanPath dataDir info) blk seqnum = some cm → cm.zoneMap.isInited = true →
      cm.zoneMap.BoundsColumn t col
  nullCnt : ∀ info blk col cm, Scans files dataDir objects seqnum info blk col →
    files.columnMeta? (scanPath dataDir info) blk seqnum = some cm → cm.nullCnt = col.nullRows

/-- The 30 bytes that a max field can hold of a longer string. -/
def CutOf (m v : SqlValue) : Prop :=
  ∃ s : List Byte, v = .bytes s ∧ zmMaxLen < s.length ∧ m = .bytes (s.take zmMaxLen)

/-- The value lies in the range, up to a cut of the max of strings. -/
def ColumnStatistics.Admits (t : MOType) (st : ColumnStatistics) (v : SqlValue) : Prop :=
  st.min.orderKey ≤ v.orderKey ∧
    (v.orderKey ≤ st.max.orderKey ∨ isStringType t.kind = true ∧ CutOf st.max v)

/-- Every value the scan reads lies in the range, and without `hasNull` none is NULL. -/
structure ColumnStatistics.Sound (t : MOType) (st : ColumnStatistics) : Prop where
  values : ∀ info blk col v, Scans files dataDir objects seqnum info blk col → col.HasValue t v →
    st.Admits t v
  nulls : st.hasNull = false → ∀ info blk col row, Scans files dataDir objects seqnum info blk col →
    row < col.rowCount → col.rowNull row = false

-- ============================================================================
-- Blocks that are vouched for
-- ============================================================================

variable (isValidUtf8 : List Byte → Bool) (moOid : Byte) (colType : LogicalType)

/-- The ranges of the zone maps the statistics meet. -/
def statisticsRanges : List (SqlValue × SqlValue) :=
  (statisticsColumns files dataDir objects seqnum).filterMap fun cm =>
    (cm.zoneMap.statistics isValidUtf8 (MOTypeOid.ofByte moOid) colType).join

/-- The conversion of both fields keeps the values they stand for. -/
def ZoneMap.FieldsFit (oid : MOTypeOid) (colType : LogicalType) (zm : ZoneMap) : Prop :=
  ∀ buf ∈ [zm.minBuf, zm.maxBuf], ∀ v, zoneMapBytesToValue buf oid colType = some v →
    heldValue oid colType v = some v

/-- The zone map of the block is initialised and is met by the statistics, and its
    fields fit.  The max fields of strings must not exceed their 30 bytes anywhere. -/
structure Vouched (info : TAEObjectInfo) (cm : ColumnMetaInfo) : Prop where
  same_meta : files.readMeta (statisticsPath dataDir info) = files.readMeta (scanPath dataDir info)
  inited : cm.zoneMap.isInited = true
  fixed : isStringType (MOTypeOid.ofByte moOid) = false →
    cm.zoneMap.FieldsFit (MOTypeOid.ofByte moOid) colType
  string : isStringType (MOTypeOid.ofByte moOid) = true →
    ∀ other ∈ statisticsColumns files dataDir objects seqnum, other.zoneMap.maxLen ≤ zmMaxLen

/-- Some zone map covers the value from below, and some from above: by its max, or by
    the cut of the value as the greatest max. -/
def Covered (v : SqlValue) : Prop :=
  let ranges := statisticsRanges files dataDir objects seqnum isValidUtf8 moOid colType
  (∃ p ∈ ranges, p.1.orderKey ≤ v.orderKey) ∧
    ((∃ p ∈ ranges, v.orderKey ≤ p.2.orderKey) ∨
      isStringType (MOTypeOid.ofByte moOid) = true ∧
        ∃ p ∈ ranges, CutOf p.2 v ∧ ∀ q ∈ ranges, q.2.orderKey ≤ p.2.orderKey)

/-- The values of blocks that are not vouched for are covered, and the NULLs of
    objects whose metadata the statistics do not see are counted elsewhere. -/
structure OthersCovered : Prop where
  values : ∀ info blk col cm v, Scans files dataDir objects seqnum info blk col →
    files.columnMeta? (scanPath dataDir info) blk seqnum = some cm →
      ¬Vouched files dataDir objects seqnum moOid colType info cm →
        col.HasValue (columnType moOid colType) v →
          Covered files dataDir objects seqnum isValidUtf8 moOid colType v
  nulls : ∀ info blk col row, Scans files dataDir objects seqnum info blk col →
    files.readMeta (statisticsPath dataDir info) ≠ files.readMeta (scanPath dataDir info) →
      row < col.rowCount → col.rowNull row = true →
        ∃ cm ∈ statisticsColumns files dataDir objects seqnum, 0 < cm.nullCnt

end Table

-- ============================================================================
-- The fold
-- ============================================================================

section Fold
variable {isValidUtf8 : List Byte → Bool} {oid : MOTypeOid} {colType : LogicalType}

/-- The blocks contribute their columns. -/
theorem foldlM_addBlock (seqnum : Nat) (blocks : List BlockInfo) (m : MergedStatistics) :
    blocks.foldlM (MergedStatistics.addBlock isValidUtf8 oid colType seqnum) m
      = (blocks.filterMap fun blk => blk.columns[seqnum]?).foldlM
          (MergedStatistics.addColumn isValidUtf8 oid colType) m := by
  induction blocks generalizing m with
  | nil => rfl
  | cons blk blocks ih =>
      rw [List.foldlM_cons, MergedStatistics.addBlock]
      rw [List.filterMap_cons]
      cases blk.columns[seqnum]? with
      | none => exact ih m
      | some cm => exact bind_congr fun m' => ih m'

/-- The objects contribute the columns of all their blocks; all of them are opened. -/
theorem foldlM_addObject {files : ObjectFiles} {dataDir : String} {seqnum : Nat}
    {objects : List TAEObjectInfo} {m m' : MergedStatistics}
    (h : objects.foldlM (MergedStatistics.addObject isValidUtf8 oid colType files dataDir seqnum) m
      = some m') :
    (∀ info ∈ objects, ∃ md, files.readMeta (statisticsPath dataDir info) = some md) ∧
      (statisticsColumns files dataDir objects seqnum).foldlM
        (MergedStatistics.addColumn isValidUtf8 oid colType) m = some m' := by
  induction objects generalizing m with
  | nil => exact ⟨fun _ hinfo => absurd hinfo List.not_mem_nil, h⟩
  | cons info objects ih =>
      rw [List.foldlM_cons, Option.bind_eq_bind, Option.bind_eq_some_iff] at h
      obtain ⟨m₁, hinfo, hrest⟩ := h
      obtain ⟨md, hmd, hblocks⟩ := Option.bind_eq_some_iff.mp hinfo
      obtain ⟨hopened, hcolumns⟩ := ih hrest
      refine ⟨List.forall_mem_cons.mpr ⟨⟨md, hmd⟩, hopened⟩, ?_⟩
      rw [foldlM_addBlock] at hblocks
      rw [statisticsColumns, List.flatMap_cons, hmd, List.foldlM_append, hblocks]
      exact hcolumns

/-- The ranges widen the range, and the NULLs of decoded columns are counted. -/
theorem foldlM_addColumn {columns : List ColumnMetaInfo} {m m' : MergedStatistics}
    (h : columns.foldlM (MergedStatistics.addColumn isValidUtf8 oid colType) m = some m') :
    (∀ cm ∈ columns, ∃ r, cm.zoneMap.statistics isValidUtf8 oid colType = some r) ∧
      m'.range = (columns.filterMap fun cm =>
        (cm.zoneMap.statistics isValidUtf8 oid colType).join).foldl (widen SqlValue.orderKey) m.range ∧
      m'.hasNulls = (m.hasNulls || columns.any fun cm =>
        (cm.zoneMap.statistics isValidUtf8 oid colType).join.isSome && decide (0 < cm.nullCnt)) := by
  induction columns generalizing m with
  | nil =>
      obtain rfl := Option.some.inj h
      exact ⟨fun _ hcm => absurd hcm List.not_mem_nil, rfl, (Bool.or_false _).symm⟩
  | cons cm columns ih =>
      rw [List.foldlM_cons, Option.bind_eq_bind, Option.bind_eq_some_iff] at h
      obtain ⟨m₁, hcm, hrest⟩ := h
      obtain ⟨hsome, hrange, hnulls⟩ := ih hrest
      rw [List.any_cons, hrange, hnulls]
      rw [MergedStatistics.addColumn] at hcm
      split at hcm
      · cases hcm
      · next hnone =>
          obtain rfl := Option.some.inj hcm
          refine ⟨List.forall_mem_cons.mpr ⟨⟨none, hnone⟩, hsome⟩, ?_, ?_⟩
          · rw [List.filterMap_cons_none (by rw [hnone]; rfl)]
          · rw [hnone]
            rfl
      · next p hp =>
          obtain rfl := Option.some.inj hcm
          refine ⟨List.forall_mem_cons.mpr ⟨⟨some p, hp⟩, hsome⟩, ?_, ?_⟩
          · rw [List.filterMap_cons_some (by rw [hp]; rfl), List.foldl_cons]
          · rw [hp, Bool.or_assoc]
            rfl

/-- Whether a field is decoded depends on the type alone. -/
theorem zoneMapBytesToValue_isSome (ptr ptr' : List Byte) :
    (zoneMapBytesToValue ptr oid colType).isSome = (zoneMapBytesToValue ptr' oid colType).isSome := by
  unfold zoneMapBytesToValue
  cases oid <;> simp only [Option.isSome_some, Option.isSome_none]

/-- So either all zone maps have a range or none has. -/
theorem statistics_uniform {zm zm' : ZoneMap} {p : SqlValue × SqlValue}
    (h : zm.statistics isValidUtf8 oid colType = some (some p)) :
    zm'.statistics isValidUtf8 oid colType ≠ some none := by
  rw [ZoneMap.statistics] at h ⊢
  split at h
  · next hstr =>
      rw [if_pos hstr]
      simp only
      split
      · simp
      · simp
  · next hstr =>
      rw [if_neg hstr]
      split at h
      · next lo hi hlo hhi =>
          have hmin : (zoneMapBytesToValue zm'.minBuf oid colType).isSome := by
            rw [zoneMapBytesToValue_isSome _ zm.minBuf, hlo]
            rfl
          have hmax : (zoneMapBytesToValue zm'.maxBuf oid colType).isSome := by
            rw [zoneMapBytesToValue_isSome _ zm.maxBuf, hhi]
            rfl
          obtain ⟨lo', hlo'⟩ := Option.isSome_iff_exists.mp hmin
          obtain ⟨hi', hhi'⟩ := Option.isSome_iff_exists.mp hmax
          rw [hlo', hhi']
          intro hnone
          obtain ⟨x, -, hx⟩ := Option.bind_eq_some_iff.mp hnone
          obtain ⟨y, -, hy⟩ := Option.map_eq_some_iff.mp hx
          cases hy
      · cases h

/-- What the statistics of a column are: the range of all zone maps, each of which
    is decoded, and whether some null count is positive. -/
theorem taeScanStatistics_spec {files : ObjectFiles} {dataDir : String} {bind : TAEScanBindData}
    {columnIndex seqnum : Nat} {moOid : Byte} {st : ColumnStatistics}
    (htype : bind.allColTypes[columnIndex]? = some colType)
    (hoid : bind.allColMoOids[columnIndex]? = some moOid)
    (hseqnum : bind.allColSeqnums[columnIndex]? = some seqnum)
    (h : taeScanStatistics files isValidUtf8 dataDir bind columnIndex = some st) :
    (∀ cm ∈ statisticsColumns files dataDir bind.objects seqnum, ∃ p,
      cm.zoneMap.statistics isValidUtf8 (MOTypeOid.ofByte moOid) colType = some (some p)) ∧
    Spans SqlValue.orderKey
      (statisticsRanges files dataDir bind.objects seqnum isValidUtf8 moOid colType) st.min st.max ∧
    (st.hasNull = true ↔ ∃ cm ∈ statisticsColumns files dataDir bind.objects seqnum, 0 < cm.nullCnt) := by
  rw [taeScanStatistics] at h
  simp only [htype, hoid, hseqnum] at h
  split at h
  · cases h
  obtain ⟨m, hm, h⟩ := Option.bind_eq_some_iff.mp h
  obtain ⟨⟨lo, hi⟩, hrange, h⟩ := Option.bind_eq_some_iff.mp h
  simp only at h
  split at h
  · cases h
  obtain rfl := Option.some.inj h
  obtain ⟨hsome, hfold, hnulls⟩ := foldlM_addColumn (foldlM_addObject hm).2
  have hspans : RangeOf SqlValue.orderKey
      (statisticsRanges files dataDir bind.objects seqnum isValidUtf8 moOid colType)
      (some (lo, hi)) := by
    rw [← hrange, hfold]
    exact foldl_widen _
  have hall : ∀ cm ∈ statisticsColumns files dataDir bind.objects seqnum, ∃ p,
      cm.zoneMap.statistics isValidUtf8 (MOTypeOid.ofByte moOid) colType = some (some p) := by
    intro cm hcm
    obtain ⟨p, hp, -⟩ := hspans.lo_mem
    obtain ⟨first, -, hfirst⟩ := List.mem_filterMap.mp hp
    obtain ⟨r, hr⟩ := hsome cm hcm
    cases r with
    | none => exact absurd hr (statistics_uniform (Option.join_eq_some_iff.mp hfirst))
    | some p => exact ⟨p, hr⟩
  refine ⟨hall, hspans, ?_⟩
  rw [hnulls, Bool.false_or, List.any_eq_true]
  refine exists_congr fun cm => and_congr_right fun hcm => ?_
  obtain ⟨p, hp⟩ := hall cm hcm
  rw [hp]
  simp

end Fold

-- ============================================================================
-- Fields as values
-- ============================================================================

namespace SqlValue

/-- Strings are ordered by their unsigned bytes. -/
theorem bytes_lt_iff {a b : List Byte} : (bytes a).orderKey < (bytes b).orderKey ↔ a < b := by
  have hbyte : ∀ x y : Byte, x < y → (x.toNat : Int) < y.toNat := fun _ _ hlt =>
    Int.ofNat_lt.mpr (BitVec.lt_def.mp hlt)
  refine ⟨fun hkey => ?_, List.map_lt hbyte⟩
  apply List.not_le.mp
  intro hle
  exact absurd hkey (List.not_lt.mpr (List.map_le hbyte hle))

theorem bytes_le_iff {a b : List Byte} : (bytes a).orderKey ≤ (bytes b).orderKey ↔ a ≤ b := by
  rw [← not_lt, bytes_lt_iff, List.not_lt]

end SqlValue

/-- A string whose cut is no greater than a field of the cut's length is no greater
    itself, unless the field is the cut. -/
theorem le_or_cut {n : Nat} {s field : List Byte} (h : s.take n ≤ field) (hlen : field.length ≤ n) :
    s ≤ field ∨ n < s.length ∧ field = s.take n := by
  induction n generalizing s field with
  | zero =>
      have hnil : field = [] := List.length_eq_zero_iff.mp (Nat.le_zero.mp hlen)
      rw [hnil]
      cases s with
      | nil => exact Or.inl (List.le_refl _)
      | cons x xs => exact Or.inr ⟨Nat.succ_pos _, rfl⟩
  | succ n ih =>
      cases s with
      | nil => exact Or.inl (List.nil_le _)
      | cons x xs =>
        cases field with
        | nil => exact absurd (List.nil_lt_cons x (xs.take n)) (List.not_lt.mpr h)
        | cons y ys =>
          rw [List.take_succ_cons, List.cons_le_cons_iff] at h
          rw [List.cons_le_cons_iff]
          obtain hlt | ⟨rfl, hle⟩ := h
          · exact Or.inl (Or.inl hlt)
          · obtain hle | ⟨hlong, hcut⟩ := ih hle (Nat.le_of_succ_le_succ hlen)
            · exact Or.inl (Or.inr ⟨rfl, hle⟩)
            · refine Or.inr ⟨Nat.succ_lt_succ hlong, ?_⟩
              rw [hcut]
              rfl

section Fields
variable {isValidUtf8 : List Byte → Bool} {moOid : Byte} {colType : LogicalType} {zm : ZoneMap}
  {p : SqlValue × SqlValue}

/-- The two readers of fixed-width bytes agree. -/
theorem zoneMapBytesToValue_eq {ptr : List Byte} {v : SqlValue}
    (h : zoneMapBytesToValue ptr (MOTypeOid.ofByte moOid) colType = some v) :
    v = (columnType moOid colType).fixedValue
      (ptr.take (moTypeFixedSize (columnType moOid colType).kind).toNat) := by
  unfold MOType.fixedValue
  rw [columnType_kind]
  unfold zoneMapBytesToValue at h
  cases hoid : MOTypeOid.ofByte moOid <;> rw [hoid] at h <;>
    first
    | exact (Option.some.inj h).symm
    | exact absurd h (Option.some_ne_none v).symm

/-- The range of a zone map of strings is what its fields hold. -/
theorem statistics_string (hstr : isStringType (MOTypeOid.ofByte moOid) = true)
    (h : zm.statistics isValidUtf8 (MOTypeOid.ofByte moOid) colType = some (some p)) :
    p = (.bytes (zm.minBuf.take zm.minLen), .bytes (zm.maxBuf.take zm.maxLen)) := by
  rw [ZoneMap.statistics] at h
  rw [if_pos hstr] at h
  simp only at h
  split at h
  · exact (Option.some.inj (Option.some.inj h)).symm
  · cases h

/-- The range of a zone map of fixed-width values whose fields fit. -/
theorem statistics_fixed (hstr : isStringType (MOTypeOid.ofByte moOid) = false)
    (hfit : zm.FieldsFit (MOTypeOid.ofByte moOid) colType)
    (h : zm.statistics isValidUtf8 (MOTypeOid.ofByte moOid) colType = some (some p)) :
    let t := columnType moOid colType
    let size := (moTypeFixedSize t.kind).toNat
    p = (t.fixedValue (zm.minBuf.take size), t.fixedValue (zm.maxBuf.take size)) := by
  rw [ZoneMap.statistics] at h
  rw [hstr, if_neg Bool.false_ne_true] at h
  split at h
  · next lo hi hlo hhi =>
      rw [hfit _ List.mem_cons_self _ hlo, hfit _ (List.mem_cons_of_mem _ List.mem_cons_self) _ hhi] at h
      have hp : (lo, hi) = p := Option.some.inj (Option.some.inj h)
      rw [← hp, zoneMapBytesToValue_eq hlo, zoneMapBytesToValue_eq hhi]
  · cases h

end Fields

-- ============================================================================
-- Soundness
-- ============================================================================

section Soundness
variable {files : ObjectFiles} {dataDir : String} {objects : List TAEObjectInfo} {seqnum : Nat}
  {info : TAEObjectInfo} {blk : Nat} {col : DecodedColumn} {cm : ColumnMetaInfo}

/-- A relative file in a directory without a trailing separator is opened under one
    path by both. -/
theorem statisticsPath_eq_scanPath (hfile : info.filePath.toList.head? ≠ some '/')
    (hdir : ¬(dataDir.toList = [] ∨ dataDir.toList.getLast? = some '/')) :
    statisticsPath dataDir info = scanPath dataDir info := by
  rw [scanPath, joinPath, if_neg hfile, if_neg hdir, statisticsPath]

/-- A column that the scan reads has a meta where the scan opens the object. -/
theorem Scans.columnMeta (h : Scans files dataDir objects seqnum info blk col) :
    info ∈ objects ∧ ∃ cm, files.columnMeta? (scanPath dataDir info) blk seqnum = some cm := by
  obtain ⟨obj, seqnums, cols, i, hobj, hread, hseqnum, -⟩ := h
  refine ⟨List.mem_of_getElem? hobj, ?_⟩
  have hblock : files.readBlock (scanPath dataDir info) blk seqnums = some cols := by
    rw [← hread]
    show _ = (objects[obj]?).bind _
    rw [hobj, Option.bind_some]
  obtain ⟨md, blkInfo, hmd, hblk, hseqnums⟩ := files.readBlock_inMeta hblock
  have hlt := hseqnums seqnum (List.mem_of_getElem? hseqnum)
  refine ⟨blkInfo.columns[seqnum], ?_⟩
  rw [ObjectFiles.columnMeta?, hmd, Option.bind_some, hblk, Option.bind_some,
    List.getElem?_eq_getElem hlt]

/-- The statistics meet that meta if they open the same file. -/
theorem mem_statisticsColumns (hinfo : info ∈ objects)
    (hsame : files.readMeta (statisticsPath dataDir info) = files.readMeta (scanPath dataDir info))
    (hcm : files.columnMeta? (scanPath dataDir info) blk seqnum = some cm) :
    cm ∈ statisticsColumns files dataDir objects seqnum := by
  obtain ⟨md, hmd, hcm⟩ := Option.bind_eq_some_iff.mp hcm
  obtain ⟨blkInfo, hblk, hcol⟩ := Option.bind_eq_some_iff.mp hcm
  refine List.mem_flatMap.mpr ⟨info, hinfo, ?_⟩
  rw [hsame, hmd]
  exact List.mem_filterMap.mpr ⟨blkInfo, List.mem_of_getElem? hblk, hcol⟩

variable {isValidUtf8 : List Byte → Bool} {moOid : Byte} {colType : LogicalType}
  {st : ColumnStatistics} {v : SqlValue}

/-- The values of a fixed-width column of a block that is vouched for lie between the
    fields of its zone map. -/
theorem Vouched.admits_fixed
    (hstr : isStringType (MOTypeOid.ofByte moOid) = false)
    (hvouched : Vouched files dataDir objects seqnum moOid colType info cm)
    (hbounds : cm.zoneMap.BoundsColumn (columnType moOid colType) col)
    {p : SqlValue × SqlValue}
    (hp : cm.zoneMap.statistics isValidUtf8 (MOTypeOid.ofByte moOid) colType = some (some p))
    (hlo : st.min.orderKey ≤ p.1.orderKey) (hhi : p.2.orderKey ≤ st.max.orderKey)
    (hv : col.HasValue (columnType moOid colType) v) : st.Admits (columnType moOid colType) v := by
  rw [ZoneMap.BoundsColumn, columnType_kind, hstr, if_neg Bool.false_ne_true] at hbounds
  obtain ⟨hmin, hmax⟩ := hbounds v hv
  have hfields := statistics_fixed hstr (hvouched.fixed hstr) hp
  rw [hfields] at hlo hhi
  exact ⟨le_trans hlo hmin, Or.inl (le_trans hmax hhi)⟩

/-- A string between the two bounds that the fields are cut from lies between the fields,
    up to the cut. -/
theorem admits_bytes (hstr : isStringType (MOTypeOid.ofByte moOid) = true) {zm : ZoneMap} {lo hi s : List Byte}
    (hzm : zm.Summarises lo hi) (hlos : lo ≤ s) (hshi : s ≤ hi) {p : SqlValue × SqlValue}
    (hp : zm.statistics isValidUtf8 (MOTypeOid.ofByte moOid) colType = some (some p))
    (hlo : st.min.orderKey ≤ p.1.orderKey) (hhi : p.2.orderKey ≤ st.max.orderKey) {field : List Byte}
    (hmax : st.max = .bytes field) (hshort : field.length ≤ zmMaxLen) :
    st.Admits (columnType moOid colType) (.bytes s) := by
  rw [statistics_string hstr hp, hzm.min_eq] at hlo
  rw [statistics_string hstr hp, hzm.max_eq, hmax, SqlValue.bytes_le_iff] at hhi
  refine ⟨le_trans hlo (SqlValue.bytes_le_iff.mpr (List.le_trans (take_le lo zmMinLen) hlos)), ?_⟩
  have hcut : s.take zmMaxLen ≤ field := List.le_trans (take_le_take zmMaxLen hshi) hhi
  rw [hmax, SqlValue.bytes_le_iff]
  obtain hle | ⟨hlong, hfield⟩ := le_or_cut hcut hshort
  · exact Or.inl hle
  · exact Or.inr ⟨hstr, s, rfl, hlong, by rw [hfield]⟩

/-- The strings of a block that is vouched for lie between the fields of its zone
    map, up to the cut. -/
theorem Vouched.admits_string
    (hstr : isStringType (MOTypeOid.ofByte moOid) = true)
    (hbounds : cm.zoneMap.BoundsColumn (columnType moOid colType) col)
    {p : SqlValue × SqlValue}
    (hp : cm.zoneMap.statistics isValidUtf8 (MOTypeOid.ofByte moOid) colType = some (some p))
    (hlo : st.min.orderKey ≤ p.1.orderKey) (hhi : p.2.orderKey ≤ st.max.orderKey)
    {field : List Byte} (hmax : st.max = .bytes field) (hshort : field.length ≤ zmMaxLen)
    (hv : col.HasValue (columnType moOid colType) v) : st.Admits (columnType moOid colType) v := by
  rw [ZoneMap.BoundsColumn, columnType_kind, if_pos hstr] at hbounds
  obtain ⟨lo, hi, hzm, hvalues⟩ := hbounds
  have hbytes : ∃ s, v = .bytes s := by
    obtain ⟨row, -, -, hrow⟩ := hv
    rw [DecodedColumn.rowValue?, columnType_kind, if_pos hstr] at hrow
    obtain ⟨s, -, hs⟩ := Option.map_eq_some_iff.mp hrow
    exact ⟨s, hs.symm⟩
  obtain ⟨s, rfl⟩ := hbytes
  obtain ⟨hlos, hshi⟩ := hvalues s hv
  exact admits_bytes hstr hzm hlos hshi hp hlo hhi hmax hshort

/-- The range a column contributes. -/
theorem mem_statisticsRanges {q : SqlValue × SqlValue} :
    q ∈ statisticsRanges files dataDir objects seqnum isValidUtf8 moOid colType ↔
      ∃ cm ∈ statisticsColumns files dataDir objects seqnum,
        cm.zoneMap.statistics isValidUtf8 (MOTypeOid.ofByte moOid) colType = some (some q) := by
  rw [statisticsRanges, List.mem_filterMap]
  exact exists_congr fun _ => and_congr_right fun _ => Option.join_eq_some_iff

/-- The upper ends of ranges of strings are what the max fields hold. -/
theorem statisticsRanges_string (hstr : isStringType (MOTypeOid.ofByte moOid) = true)
    {q : SqlValue × SqlValue}
    (hq : q ∈ statisticsRanges files dataDir objects seqnum isValidUtf8 moOid colType) :
    ∃ cm ∈ statisticsColumns files dataDir objects seqnum,
      q.2 = .bytes (cm.zoneMap.maxBuf.take cm.zoneMap.maxLen) := by
  obtain ⟨cm, hcm, hstat⟩ := mem_statisticsRanges.mp hq
  exact ⟨cm, hcm, by rw [statistics_string hstr hstat]⟩

/-- A value is covered iff the smallest range around all ranges admits it. -/
theorem admits_iff_covered
    (hspans : Spans SqlValue.orderKey
      (statisticsRanges files dataDir objects seqnum isValidUtf8 moOid colType) st.min st.max) :
    st.Admits (columnType moOid colType) v ↔
      Covered files dataDir objects seqnum isValidUtf8 moOid colType v := by
  obtain ⟨plo, hplo, hlo⟩ := hspans.lo_mem
  obtain ⟨phi, hphi, hhi⟩ := hspans.hi_mem
  constructor
  · rintro ⟨hmin, hmax | ⟨hstr, hcut⟩⟩
    · exact ⟨⟨plo, hplo, hlo ▸ hmin⟩, Or.inl ⟨phi, hphi, hhi ▸ hmax⟩⟩
    · exact ⟨⟨plo, hplo, hlo ▸ hmin⟩, Or.inr ⟨hstr, phi, hphi, hhi ▸ hcut, hhi ▸ hspans.le_hi⟩⟩
  · rintro ⟨⟨p, hp, hpv⟩, hmax⟩
    refine ⟨le_trans (hspans.lo_le p hp) hpv, ?_⟩
    obtain ⟨q, hq, hvq⟩ | ⟨hstr, q, hq, hcut, hgreatest⟩ := hmax
    · exact Or.inl (le_trans hvq (hspans.le_hi q hq))
    · -- the greatest upper end is unique, since it is a string
      obtain ⟨_, -, hqs⟩ := statisticsRanges_string hstr hq
      obtain ⟨_, -, hps⟩ := statisticsRanges_string hstr hphi
      have hle := hgreatest phi hphi
      have hge := hspans.le_hi q hq
      rw [← hhi, hqs, hps, SqlValue.bytes_le_iff] at hge
      rw [hqs, hps, SqlValue.bytes_le_iff] at hle
      refine Or.inr ⟨hstr, ?_⟩
      rw [← hhi, hps, List.le_antisymm hle hge, ← hqs]
      exact hcut

/-- The statistics admit the values of a block that is vouched for. -/
theorem Vouched.admits
    (hvouched : Vouched files dataDir objects seqnum moOid colType info cm)
    (hscans : Scans files dataDir objects seqnum info blk col)
    (hcm : files.columnMeta? (scanPath dataDir info) blk seqnum = some cm)
    (htrue : MetadataTrue files dataDir objects seqnum (columnType moOid colType))
    (hall : ∀ cm ∈ statisticsColumns files dataDir objects seqnum, ∃ p,
      cm.zoneMap.statistics isValidUtf8 (MOTypeOid.ofByte moOid) colType = some (some p))
    (hspans : Spans SqlValue.orderKey
      (statisticsRanges files dataDir objects seqnum isValidUtf8 moOid colType) st.min st.max)
    (hv : col.HasValue (columnType moOid colType) v) :
    st.Admits (columnType moOid colType) v := by
  have hmet := mem_statisticsColumns hscans.columnMeta.1 hvouched.same_meta hcm
  have hbounds := htrue.bounds info blk col cm hscans hcm hvouched.inited
  obtain ⟨p, hp⟩ := hall cm hmet
  have hmem : p ∈ statisticsRanges files dataDir objects seqnum isValidUtf8 moOid colType :=
    mem_statisticsRanges.mpr ⟨cm, hmet, hp⟩
  have hlo := hspans.lo_le p hmem
  have hhi := hspans.le_hi p hmem
  cases hstr : isStringType (MOTypeOid.ofByte moOid) with
  | false => exact hvouched.admits_fixed hstr hbounds hp hlo hhi hv
  | true =>
      obtain ⟨q, hq, hmax⟩ := hspans.hi_mem
      obtain ⟨other, hother, hfield⟩ := statisticsRanges_string hstr hq
      have hshort : (other.zoneMap.maxBuf.take other.zoneMap.maxLen).length ≤ zmMaxLen :=
        Nat.le_trans (List.length_take_le ..) (hvouched.string hstr other hother)
      exact Vouched.admits_string hstr hbounds hp hlo hhi (hmax ▸ hfield) hshort hv

/-- A NULL in a block whose metadata the statistics see is counted. -/
theorem nullCnt_pos_of_null
    (hscans : Scans files dataDir objects seqnum info blk col)
    (hsame : files.readMeta (statisticsPath dataDir info) = files.readMeta (scanPath dataDir info))
    (htrue : MetadataTrue files dataDir objects seqnum (columnType moOid colType))
    {row : Nat} (hrow : row < col.rowCount) (hnull : col.rowNull row = true) :
    ∃ cm ∈ statisticsColumns files dataDir objects seqnum, 0 < cm.nullCnt := by
  obtain ⟨hinfo, cm, hcm⟩ := hscans.columnMeta
  refine ⟨cm, mem_statisticsColumns hinfo hsame hcm, ?_⟩
  rw [htrue.nullCnt info blk col cm hscans hcm]
  exact List.countP_pos_iff.mpr ⟨row, List.mem_range.mpr hrow, hnull⟩

end Soundness

/-- The statistics of a column are sound iff the values of the blocks that are not
    vouched for happen to be covered, and the NULLs of objects whose metadata the
    statistics do not see to be counted elsewhere. -/
theorem statistics_sound_iff {files : ObjectFiles} {isValidUtf8 : List Byte → Bool}
    {dataDir : String} {bind : TAEScanBindData} {columnIndex seqnum : Nat} {moOid : Byte}
    {colType : LogicalType} {st : ColumnStatistics}
    (htype : bind.allColTypes[columnIndex]? = some colType)
    (hoid : bind.allColMoOids[columnIndex]? = some moOid)
    (hseqnum : bind.allColSeqnums[columnIndex]? = some seqnum)
    (htrue : MetadataTrue files dataDir bind.objects seqnum (columnType moOid colType))
    (h : taeScanStatistics files isValidUtf8 dataDir bind columnIndex = some st) :
    st.Sound files dataDir bind.objects seqnum (columnType moOid colType) ↔
      OthersCovered files dataDir bind.objects seqnum isValidUtf8 moOid colType := by
  obtain ⟨hall, hspans, hnulls⟩ := taeScanStatistics_spec htype hoid hseqnum h
  constructor
  · rintro ⟨hvalues, hnone⟩
    refine ⟨fun info blk col cm v hscans _ _ hv =>
      (admits_iff_covered hspans).mp (hvalues info blk col v hscans hv), ?_⟩
    intro info blk col row hscans _ hrow hnull
    apply hnulls.mp
    apply Bool.of_not_eq_false
    intro hflag
    rw [hnone hflag info blk col row hscans hrow] at hnull
    exact Bool.false_ne_true hnull
  · rintro ⟨hcovered, hcounted⟩
    constructor
    · intro info blk col v hscans hv
      obtain ⟨-, cm, hcm⟩ := hscans.columnMeta
      by_cases hvouched : Vouched files dataDir bind.objects seqnum moOid colType info cm
      · exact hvouched.admits hscans hcm htrue hall hspans hv
      · exact (admits_iff_covered hspans).mpr (hcovered info blk col cm v hscans hcm hvouched hv)
    · intro hflag info blk col row hscans hrow
      apply Bool.of_not_eq_true
      intro hnull
      have hpos : ∃ cm ∈ statisticsColumns files dataDir bind.objects seqnum, 0 < cm.nullCnt := by
        by_cases hsame : files.readMeta (statisticsPath dataDir info)
            = files.readMeta (scanPath dataDir info)
        · exact nullCnt_pos_of_null hscans hsame htrue hrow hnull
        · exact hcounted info blk col row hscans hsame hrow hnull
      rw [hnulls.mpr hpos] at hflag
      exact Bool.false_ne_true hflag.symm

/-- The metadata of a block of one column. -/
def columnBlock (b : ZoneMap × DecodedColumn) : BlockInfo :=
  { rows := b.2.rowCount, columns := [{ zoneMap := b.1, nullCnt := b.2.nullRows }] }

/-- Every path leads to an object with these blocks of one column. -/
def blockFiles (blocks : List (ZoneMap × DecodedColumn)) : ObjectFiles where
  readMeta _ := some ⟨blocks.map columnBlock⟩
  readBlock _ blk seqnums :=
    (blocks[blk]?).bind fun b => if ∀ s ∈ seqnums, s = 0 then some (seqnums.map fun _ => b.2) else none
  readBlock_length := by
    intro path blk seqnums cols h
    obtain ⟨b, -, h⟩ := Option.bind_eq_some_iff.mp h
    obtain ⟨-, h⟩ := Option.ite_none_right_eq_some.mp h
    rw [← Option.some.inj h, List.length_map]
  readBlock_inMeta := by
    intro path blk seqnums cols h
    obtain ⟨b, hb, h⟩ := Option.bind_eq_some_iff.mp h
    obtain ⟨hzero, -⟩ := Option.ite_none_right_eq_some.mp h
    refine ⟨_, columnBlock b, rfl, ?_, fun s hs => ?_⟩
    · show (blocks.map columnBlock)[blk]? = _
      rw [List.getElem?_map, hb]
      rfl
    · rw [hzero s hs]
      exact Nat.one_pos

section BlockFiles
variable {blocks : List (ZoneMap × DecodedColumn)} {dataDir : String} {objects : List TAEObjectInfo}

/-- A scan reads the columns of the blocks. -/
theorem blockFiles_scans {info : TAEObjectInfo} {blk : Nat} {col : DecodedColumn}
    (h : Scans (blockFiles blocks) dataDir objects 0 info blk col) : ∃ b, blocks[blk]? = some b ∧ b.2 = col := by
  obtain ⟨obj, seqnums, cols, i, hobj, hread, hseqnum, hcol⟩ := h
  obtain ⟨info', -, hread⟩ := Option.bind_eq_some_iff.mp hread
  obtain ⟨b, hb, hread⟩ := Option.bind_eq_some_iff.mp hread
  obtain ⟨-, hcols⟩ := Option.ite_none_right_eq_some.mp hread
  refine ⟨b, hb, ?_⟩
  rw [← Option.some.inj hcols, List.getElem?_map, hseqnum] at hcol
  exact Option.some.inj hcol

/-- The null counts are right, and so are the zone maps if the initialised ones bound
    their columns. -/
theorem blockFiles_metadataTrue {t : MOType}
    (hbounds : ∀ b ∈ blocks, b.1.isInited = true → b.1.BoundsColumn t b.2) :
    MetadataTrue (blockFiles blocks) dataDir objects 0 t := by
  have hblock : ∀ info blk col cm, Scans (blockFiles blocks) dataDir objects 0 info blk col →
      (blockFiles blocks).columnMeta? (scanPath dataDir info) blk 0 = some cm →
        ∃ b ∈ blocks, b.2 = col ∧ cm = { zoneMap := b.1, nullCnt := b.2.nullRows } := by
    intro info blk col cm hscans hcm
    obtain ⟨b, hb, hcol⟩ := blockFiles_scans hscans
    refine ⟨b, List.mem_of_getElem? hb, hcol, ?_⟩
    obtain ⟨md, hmd, hcm⟩ := Option.bind_eq_some_iff.mp hcm
    obtain ⟨blkInfo, hblk, hcm⟩ := Option.bind_eq_some_iff.mp hcm
    rw [← Option.some.inj hmd, List.getElem?_map, hb] at hblk
    rw [← Option.some.inj hblk] at hcm
    exact (Option.some.inj hcm).symm
  constructor
  · intro info blk col cm hscans hcm hinited
    obtain ⟨b, hb, rfl, rfl⟩ := hblock info blk col cm hscans hcm
    exact hbounds b hb hinited
  · intro info blk col cm hscans hcm
    obtain ⟨b, -, rfl, rfl⟩ := hblock info blk col cm hscans hcm
    rfl

end BlockFiles

/-- The only value of a column of one row. -/
theorem byteColumn_hasValue {b : Byte} {v : SqlValue} :
    (byteColumn [b]).HasValue (columnType 22 .integer) v ↔ v = .int (leInt [b, 0, 0, 0]) := by
  constructor
  · rintro ⟨row, hrow, -, hv⟩
    obtain rfl : row = 0 := Nat.lt_one_iff.mp hrow
    exact (Option.some.inj hv).symm
  · rintro rfl
    exact ⟨0, Nat.one_pos, rfl, rfl⟩

theorem sevenZoneMap_boundsColumn :
    (int32ZoneMap 7 7).BoundsColumn (columnType 22 .integer) (byteColumn [7]) := by
  intro v hv
  rw [byteColumn_hasValue.mp hv]
  exact ⟨by decide, by decide⟩

/-- One object, sorted by nothing, whose blocks hold 7. -/
def statisticsBind : TAEScanBindData :=
  { allColTypes := [.integer], allColMoOids := [22], allColSeqnums := [0],
    objects := [{ filePath := "a.tae", rows := 2, blocks := 2 }] }

/-- A block of 7 under its zone map, and another value under one that is not initialised. -/
def sevenAnd (b : Byte) : ObjectFiles :=
  blockFiles [(int32ZoneMap 7 7, byteColumn [7]), (ZoneMap.zero, byteColumn [b])]

theorem sevenAnd_metadataTrue (b : Byte) :
    MetadataTrue (sevenAnd b) "data" statisticsBind.objects 0 (columnType 22 .integer) := by
  apply blockFiles_metadataTrue
  intro block hblock hinited
  rcases List.mem_pair.mp hblock with rfl | rfl
  · exact sevenZoneMap_boundsColumn
  · exact absurd hinited (show ¬ZoneMap.zero.isInited = true by decide)

/-- The 5 of the second block lies between the zeros of its own fields and the 7 of the
    first zone map. -/
theorem sevenAndFive_statistics :
    (⟨.int 0, .int 7, false⟩ : ColumnStatistics).Sound (sevenAnd 5) "data" statisticsBind.objects 0
      (columnType 22 .integer) := by
  have hstatistics : taeScanStatistics (sevenAnd 5) (fun _ => true) "data" statisticsBind 0 =
      some ⟨.int 0, .int 7, false⟩ := by decide
  apply (statistics_sound_iff rfl rfl rfl (sevenAnd_metadataTrue 5) hstatistics).mpr
  constructor
  · intro info blk col cm v hscans _ _ hv
    have hranges : statisticsRanges (sevenAnd 5) "data" statisticsBind.objects 0 (fun _ => true) 22 .integer =
        [(.int 7, .int 7), (.int 0, .int 0)] := by decide
    have hseven : leInt [7, 0, 0, 0] = 7 := by decide
    have hfive : leInt [5, 0, 0, 0] = 5 := by decide
    have hbetween : v = .int 7 ∨ v = .int 5 := by
      obtain ⟨b, hb, rfl⟩ := blockFiles_scans hscans
      rcases List.mem_pair.mp (List.mem_of_getElem? hb) with rfl | rfl
      · exact Or.inl (hseven ▸ byteColumn_hasValue.mp hv)
      · exact Or.inr (hfive ▸ byteColumn_hasValue.mp hv)
    rw [Covered, hranges]
    refine ⟨⟨_, List.mem_cons_of_mem _ List.mem_cons_self, ?_⟩, Or.inl ⟨_, List.mem_cons_self, ?_⟩⟩
    · rcases hbetween with rfl | rfl <;> decide
    · rcases hbetween with rfl | rfl <;> decide
  · intro info blk col row _ hpaths
    exact absurd rfl hpaths

/-- A second block, whose zone map is not initialised, holds 9: the zeros of its
    fields count as values, and 9 lies outside the range. -/
theorem uninitialisedBlock_unsound :
    MetadataTrue (sevenAnd 9) "data" statisticsBind.objects 0 (columnType 22 .integer) ∧
      taeScanStatistics (sevenAnd 9) (fun _ => true) "data" statisticsBind 0 = some ⟨.int 0, .int 7, false⟩ ∧
      ¬(⟨.int 0, .int 7, false⟩ : ColumnStatistics).Sound (sevenAnd 9) "data" statisticsBind.objects 0
        (columnType 22 .integer) := by
  refine ⟨sevenAnd_metadataTrue 9, by decide, fun hsound => ?_⟩
  have hscans : Scans (sevenAnd 9) "data" statisticsBind.objects 0 statisticsBind.objects[0] 1 (byteColumn [9]) :=
    ⟨0, [0], [byteColumn [9]], 0, rfl, rfl, rfl, rfl⟩
  have hadmits := hsound.values _ _ _ _ hscans (byteColumn_hasValue.mpr rfl)
  revert hadmits
  rintro ⟨-, hmax | ⟨hstr, -⟩⟩
  · exact absurd hmax (by decide)
  · exact absurd hstr (by decide)

end TaeScanner
