/-
  TaeScanner.Scan.WrittenStatistics

  The statistics of a column of written files, against the values it was written
  from.

    * the metas that the statistics merge are those of the written columns, with their
      zone maps and null counts;
    * a set zone map bounds the values of its column, as far as the planner decodes it;
    * so the range admits every value of the table, and a NULL anywhere is counted.
-/

import TaeScanner.Scan.DescribedRanges
import TaeScanner.Scan.ReturnedTable

namespace TaeScanner

open Lib

-- ============================================================================
-- Zone maps that were built
-- ============================================================================

section ZoneMaps
variable {col : ColumnInput} {zm : ZoneMap} (hzm : col.ZoneMapOk zm) (hinit : zm.isInited = true)
include hzm hinit

/-- The fields of UUIDs are whole. -/
theorem ColumnInput.ZoneMapOk.fieldsWhole : zm.FieldsWhole (MOTypeOid.ofByte col.moType) := by
  intro huuid
  cases hzm with
  | unset hunset => exact absurd (hinit.symm.trans hunset) (by decide)
  | notCompared _ hnot => exact absurd (Or.inr huuid) hnot
  | numbers _ _ hlo => exact absurd (Or.inr huuid) (not_isBytes_of_packedValue hlo)
  | strings _ hstr =>
      rw [huuid] at hstr
      cases hstr
  | uuids hbuild =>
      obtain ⟨hsum, hlo, hhi⟩ := buildZoneMapNumeric_summarises hbuild
      rw [hsum.minLen_eq, hsum.maxLen_eq, List.length_take, List.length_take, hlo, hhi]
      exact ⟨rfl, rfl⟩

/-- The max field of strings is no longer than its place. -/
theorem ColumnInput.ZoneMapOk.maxLen_le (hstr : isStringType (MOTypeOid.ofByte col.moType) = true) :
    zm.maxLen ≤ zmMaxLen := by
  cases hzm with
  | unset hunset => exact absurd (hinit.symm.trans hunset) (by decide)
  | notCompared _ hnot => exact absurd (Or.inl hstr) hnot
  | numbers _ _ hlo => exact absurd (Or.inl hstr) (not_isBytes_of_packedValue hlo)
  | strings hbuild _ hshort =>
      rw [← hbuild, (buildZoneMapString_summarises hshort).maxLen_eq]
      exact List.length_take_le ..
  | uuids _ huuid =>
      rw [huuid] at hstr
      cases hstr

end ZoneMaps

/-- A value that was written is stored in some row: its own, or the one of a CONSTANT. -/
theorem stored_of_cell {col : ColumnInput} {d : DecodedColumn} (h : col.decoded? = some d) (htyped : col.Typed)
    (harea : d.area.length < 2 ^ 32) {row : Nat} (hrow : row < d.rowCount) {v : SqlValue}
    (hcell : col.cell row = some v) :
    ∃ r < d.rowCount, d.isNullAt r = false ∧ d.storedValue? r = some v := by
  obtain ⟨hrows, -, -⟩ := decoded?_spec h
  cases hsource : col.source with
  | flat elemSize values nulls =>
      have hread := hcell
      rw [ColumnInput.Typed, hsource] at htyped
      rw [← Option.some_inj, ← cell?_flat hsource h htyped harea (by rw [hrows, hsource] at hrow; exact hrow),
        DecodedColumn.cell?] at hread
      cases hnull : d.isNullAt row with
      | true =>
          rw [hnull, if_pos rfl] at hread
          cases hread
      | false =>
          rw [hnull, if_neg Bool.false_ne_true] at hread
          obtain ⟨w, hw, hsome⟩ := Option.map_eq_some_iff.mp hread
          obtain rfl := Option.some.inj hsome
          exact ⟨row, hrow, hnull, hw⟩
  | constant elemSize value rowCount =>
      rcases constantNull_written hsource h htyped row with ⟨-, hnone⟩ | ⟨hnull, w, hw, hstored⟩
      · rw [hnone] at hcell
        cases hcell
      · obtain rfl := Option.some.inj (hcell.symm.trans hw)
        refine ⟨0, Nat.zero_lt_of_lt hrow, ?_, hstored⟩
        -- a set bit would make the constant NULL
        obtain ⟨-, hbit⟩ := constantNull_eq_false.mp hnull
        apply Bool.of_not_eq_true
        intro hset
        exact hbit ⟨Nat.pos_of_ne_zero ((isNullAt_written h 0).2 hset), hset⟩

-- ============================================================================
-- The metas of written columns
-- ============================================================================

namespace FileEnv

/-- The object files, by path. -/
def files (env : FileEnv) : ObjectFiles :=
  ObjectFiles.ofContents env.access.fs env.lz4 env.access.sort env.access.gapMax env.access.prefetchThreshold
    env.access.contents

section Metas
variable {env : FileEnv} {lz4Compress : List Byte → Option (List Byte)} {compress : Bool} {t : TableInput}
  {bind : TAEScanBindData} {seqnum : Nat} (h : FilesWritten env lz4Compress compress t.blocks)
  (hobjects : env.plan.objects = bind.objects)
include h hobjects

/-- Where the scan opens an object, the metadata of its blocks is found. -/
theorem files_readMeta {obj : Nat} {info : TAEObjectInfo} (hinfo : bind.objects[obj]? = some info) :
    ∃ md, env.files.readMeta (scanPath env.access.dataDir info) = some md ∧
      List.Forall₂ BlockInput.ParsesBack (t.blocks obj) md.blocks := by
  obtain ⟨md, hmd, hparses⟩ := readMeta_written h hobjects hinfo
  refine ⟨md, ?_, hparses⟩
  rw [← hmd]
  show _ = (env.plan.objects[obj]?).bind fun info => env.files.readMeta (scanPath env.access.dataDir info)
  rw [hobjects, hinfo, Option.bind_some]

/-- The meta of a written column. -/
theorem columnMeta_written {obj blk : Nat} {info : TAEObjectInfo} {col : ColumnInput}
    (hinfo : bind.objects[obj]? = some info) (hcol : t.column? obj blk seqnum = some col) :
    ∃ cm, env.files.columnMeta? (scanPath env.access.dataDir info) blk seqnum = some cm ∧
      cm.nullCnt = col.nulls.count true ∧ cm.zoneMap = col.zoneMap := by
  obtain ⟨md, hmd, hparses⟩ := files_readMeta h hobjects hinfo
  obtain ⟨block, hblock, hat⟩ := Option.bind_eq_some_iff.mp hcol
  obtain ⟨blkInfo, hblk, hback⟩ := getElem?_of_forall₂_left hparses hblock
  obtain ⟨cm, hcm, hnulls, hzone⟩ := getElem?_of_forall₂_left hback.columns hat
  refine ⟨cm, ?_, hnulls, hzone⟩
  rw [ObjectFiles.columnMeta?, hmd, Option.bind_some, hblk, Option.bind_some, hcm]

variable (hpaths : ∀ info ∈ bind.objects, statisticsPath env.access.dataDir info = scanPath env.access.dataDir info)
include hpaths

/-- Every meta that the statistics meet is one of a written column. -/
theorem column_of_statistics {cm : ColumnMetaInfo}
    (hcm : cm ∈ statisticsColumns env.files env.access.dataDir bind.objects seqnum) :
    ∃ obj blk col, t.column? obj blk seqnum = some col ∧ cm.zoneMap = col.zoneMap := by
  obtain ⟨info, hmem, hcm⟩ := List.mem_flatMap.mp hcm
  obtain ⟨obj, hinfo⟩ := List.mem_iff_getElem?.mp hmem
  obtain ⟨md, hmd, hparses⟩ := files_readMeta h hobjects hinfo
  rw [hpaths info hmem, hmd] at hcm
  obtain ⟨blkInfo, hblkInfo, hat⟩ := List.mem_filterMap.mp hcm
  obtain ⟨blk, hblk⟩ := List.mem_iff_getElem?.mp hblkInfo
  obtain ⟨block, hblock, hback⟩ := getElem?_of_forall₂ hparses hblk
  obtain ⟨col, hcol, -, hzone⟩ := getElem?_of_forall₂ hback.columns hat
  refine ⟨obj, blk, col, ?_, hzone⟩
  rw [TableInput.column?, hblock, Option.bind_some, hcol]

end Metas

end FileEnv

-- ============================================================================
-- What the statistics admit
-- ============================================================================

/-- The scale of a type orders nothing. -/
theorem fixedValue_orderKey (t t' : MOType) (hkind : t.kind = t'.kind) (bs : List Byte) :
    (t.fixedValue bs).orderKey = (t'.fixedValue bs).orderKey := by
  rw [MOType.fixedValue, MOType.fixedValue, hkind]
  cases t'.kind <;> rfl

/-- The statistics admit what a zone map bounds that they have merged. -/
theorem admits_of_boundsValue {isValidUtf8 : List Byte → Bool} {moOid : Byte} {colType : LogicalType}
    {st : ColumnStatistics} {zm : ZoneMap} {t : MOType} {v : SqlValue} (hkind : t.kind = MOTypeOid.ofByte moOid)
    (hv : zm.BoundsValue t v)
    (hfit : isStringType (MOTypeOid.ofByte moOid) = false → zm.FieldsFit (MOTypeOid.ofByte moOid) colType)
    {p : SqlValue × SqlValue} (hp : zm.statistics isValidUtf8 (MOTypeOid.ofByte moOid) colType = some (some p))
    (hlo : st.min.orderKey ≤ p.1.orderKey) (hhi : p.2.orderKey ≤ st.max.orderKey)
    (hmax : isStringType (MOTypeOid.ofByte moOid) = true → ∃ field, st.max = .bytes field ∧ field.length ≤ zmMaxLen) :
    st.Admits (columnType moOid colType) v := by
  rw [ZoneMap.BoundsValue, hkind] at hv
  cases hstr : isStringType (MOTypeOid.ofByte moOid) with
  | false =>
      rw [hstr, if_neg Bool.false_ne_true] at hv
      have hkey := fixedValue_orderKey t (columnType moOid colType) hkind
      rw [hkey, hkey] at hv
      rw [statistics_fixed hstr (hfit hstr) hp] at hlo hhi
      exact ⟨le_trans hlo hv.1, Or.inl (le_trans hv.2 hhi)⟩
  | true =>
      rw [hstr, if_pos rfl] at hv
      obtain ⟨lo, hi, s, hzm, rfl, hlos, hshi⟩ := hv
      obtain ⟨field, hfield, hshort⟩ := hmax hstr
      exact admits_bytes hstr hzm hlos hshi hp hlo hhi hfield hshort

/-- Every block has a zone map of the column, with fields that DuckDB's type holds, and
    its NULLs are counted. -/
structure TableInput.StatisticsOk (t : TableInput) (seqnum : Nat) (colType : LogicalType) : Prop where
  inited : ∀ {obj blk col}, t.column? obj blk seqnum = some col → col.zoneMap.isInited = true
  fits : ∀ {obj blk col}, t.column? obj blk seqnum = some col →
    isStringType (MOTypeOid.ofByte col.moType) = false →
      col.zoneMap.FieldsFit (MOTypeOid.ofByte col.moType) colType
  nulls : ∀ {obj blk col}, t.column? obj blk seqnum = some col → ∀ row < col.source.rowCount,
    col.cell row = none → true ∈ col.nulls

/-- **Statistics of written files are sound.**  What the planner is told of a column of a
    table that was written, from the metadata alone, admits every value of the table, and
    says that there are NULLs if there is one.  Both sides open the same files when these
    are relative to a directory that is named without a separator at its end. -/
theorem written_statistics_admit {env : FileEnv} {lz4Compress : List Byte → Option (List Byte)} {compress : Bool}
    {t : TableInput} {bind : TAEScanBindData} {isValidUtf8 : List Byte → Bool} {columnIndex seqnum : Nat}
    {moOid : Byte} {colType : LogicalType} {st : ColumnStatistics}
    (hfiles : FilesWritten env lz4Compress compress t.blocks) (hobjects : env.plan.objects = bind.objects)
    (ht : t.Ok bind)
    (hdir : ¬(env.access.dataDir.toList = [] ∨ env.access.dataDir.toList.getLast? = some '/'))
    (hrelative : ∀ info ∈ bind.objects, info.filePath.toList.head? ≠ some '/')
    (htype : bind.allColTypes[columnIndex]? = some colType) (hoid : bind.allColMoOids[columnIndex]? = some moOid)
    (hseqnum : bind.allColSeqnums[columnIndex]? = some seqnum)
    (hkind : (t.type seqnum).kind = MOTypeOid.ofByte moOid) (hcompared : (t.type seqnum).kind.IsCompared)
    (hok : t.StatisticsOk seqnum colType)
    (hst : taeScanStatistics env.files isValidUtf8 env.access.dataDir bind columnIndex = some st) {id : RowId}
    (hblock : Table.HasBlock bind id.objectIdx id.blockIdx) (hrow : id.row < t.rows id.objectIdx id.blockIdx) :
    ∃ cell, t.cell? id seqnum = some cell ∧ (cell = none → st.hasNull = true) ∧
      ∀ v, cell = some v → st.Admits (columnType moOid colType) v := by
  obtain ⟨hall, hspans, hnulls⟩ := taeScanStatistics_spec htype hoid hseqnum hst
  have hschema := List.mem_of_getElem? hseqnum
  have hpaths : ∀ info ∈ bind.objects,
      statisticsPath env.access.dataDir info = scanPath env.access.dataDir info :=
    fun info hmem => statisticsPath_eq_scanPath (hrelative info hmem) hdir
  -- the column of the row, as it was written, as it is decoded, and its meta
  obtain ⟨info, block, hinfo, -, hcols⟩ := ht.block hblock
  obtain ⟨col, -, hcol⟩ := hcols seqnum hschema
  obtain ⟨hdecoded, harea⟩ := FileEnv.column_decoded hfiles hobjects hinfo hcol
  obtain ⟨cm, hcm, hcount, hzone⟩ := FileEnv.columnMeta_written hfiles hobjects hinfo hcol
  have hmem := List.mem_of_getElem? hinfo
  have hmet : cm ∈ statisticsColumns env.files env.access.dataDir bind.objects seqnum :=
    mem_statisticsColumns hmem (by rw [hpaths info hmem]) hcm
  have hrowCount := ht.rows hschema hcol
  have hcolKind : ∀ {obj blk col}, t.column? obj blk seqnum = some col →
      MOTypeOid.ofByte col.moType = MOTypeOid.ofByte moOid := by
    intro obj blk col hcol
    rw [← hkind, ← ht.type hcol]
    rfl
  refine ⟨col.cell id.row, by rw [TableInput.cell?, hcol, Option.map_some], ?_, ?_⟩
  · intro hnone
    have hnull := hok.nulls hcol id.row (hrowCount ▸ hrow) hnone
    exact hnulls.mpr ⟨cm, hmet, hcount ▸ List.count_pos_iff.mpr hnull⟩
  · intro v hcell
    obtain ⟨hrows, -, htypeEq⟩ := decoded?_spec hdecoded
    have htyped := ht.typed hcol
    obtain ⟨r, hr, hnull, hstored⟩ :=
      stored_of_cell hdecoded htyped harea (by rw [hrows, hrowCount]; exact hrow) hcell
    have hinit := hok.inited hcol
    have hdescribes := (ht.zoneMap hcol).describes hdecoded htyped harea hinit
    have hdKind : (t.table.content id.objectIdx id.blockIdx seqnum).kind = MOTypeOid.ofByte moOid :=
      (decoded?_kind hdecoded).1.trans (hcolKind hcol)
    have hwhole := (ht.zoneMap hcol).fieldsWhole hinit
    rw [hcolKind hcol, ← hdKind] at hwhole
    have hbounds := hdescribes.boundsValue hr hnull hstored (by rw [hdKind, ← hkind]; exact hcompared) hwhole
    obtain ⟨p, hp⟩ := hall cm hmet
    have hrange := mem_statisticsRanges.mpr ⟨cm, hmet, hp⟩
    rw [hzone] at hp
    refine admits_of_boundsValue hdKind hbounds (fun hstr => ?_) hp (hspans.lo_le p hrange)
      (hspans.le_hi p hrange) fun hstr => ?_
    · rw [← hcolKind hcol] at hstr ⊢
      exact hok.fits hcol hstr
    · -- the greatest max field is that of a written column
      obtain ⟨q, hq, hmax⟩ := hspans.hi_mem
      obtain ⟨other, hother, hfield⟩ := statisticsRanges_string hstr hq
      obtain ⟨obj, blk, col', hcol', hzone'⟩ := FileEnv.column_of_statistics hfiles hobjects hpaths hother
      refine ⟨_, hmax ▸ hfield, Nat.le_trans (List.length_take_le ..) ?_⟩
      rw [hzone']
      exact (ht.zoneMap hcol').maxLen_le (hok.inited hcol') (hcolKind hcol' ▸ hstr)

theorem threeRows_statisticsOk : threeRows.StatisticsOk 0 .integer where
  inited hcol := by
    obtain ⟨rfl, -⟩ := threeRows_column hcol
    decide
  fits hcol _ := by
    obtain ⟨rfl, -⟩ := threeRows_column hcol
    exact fun _ _ _ _ => rfl
  nulls hcol _ _ _ := by
    obtain ⟨rfl, -⟩ := threeRows_column hcol
    exact List.mem_cons_of_mem _ List.mem_cons_self

/-- The statistics of 7, NULL and 8, at the NULL. -/
theorem written_statistics_admit_three :
    taeScanStatistics threeRowEnv.files (fun _ => true) threeRowEnv.access.dataDir threeRowBind 0 =
        some ⟨.int 7, .int 8, true⟩ ∧
      ∃ cell, threeRows.cell? ⟨0, 0, 1⟩ 0 = some cell ∧
        (cell = none → (⟨.int 7, .int 8, true⟩ : ColumnStatistics).hasNull = true) ∧
        ∀ v, cell = some v → (⟨.int 7, .int 8, true⟩ : ColumnStatistics).Admits (columnType 22 .integer) v := by
  have hst : taeScanStatistics threeRowEnv.files (fun _ => true) threeRowEnv.access.dataDir threeRowBind 0 =
      some ⟨.int 7, .int 8, true⟩ := by decide +kernel
  refine ⟨hst, written_statistics_admit threeRows_files rfl threeRows_ok ?_ ?_ rfl rfl rfl rfl (Or.inl rfl)
    threeRows_statisticsOk hst ⟨_, rfl, Nat.zero_lt_one⟩ (by decide)⟩
  · decide
  · intro info hinfo
    rw [List.mem_singleton.mp hinfo]
    decide

end TaeScanner
