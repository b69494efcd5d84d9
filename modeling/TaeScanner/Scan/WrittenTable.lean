/-
  TaeScanner.Scan.WrittenTable

  A table from the values it was written from to the rows of a query.

    * `TableInput` is what the objects of a table are built from;
    * the files hold what was built, raw or wrapped, and are opened, kept open and
      read by the threads of `OpenReaders`;
    * what they read is the table that was written, so the rows that are emitted
      are those whose written cells satisfy the query.
-/

import TaeScanner.Format.BuildZoneMap
import TaeScanner.Scan.OpenReaders
import TaeScanner.Scan.Select

namespace TaeScanner

open Lib

-- ============================================================================
-- Tables as they are written
-- ============================================================================

/-- The blocks that the objects are built from, and the type of each column. -/
structure TableInput where
  blocks : Nat → List BlockInput
  type : Nat → MOType

namespace TableInput
variable (t : TableInput)

/-- The column of a block under a seqnum. -/
def column? (obj blk seqnum : Nat) : Option ColumnInput := ((t.blocks obj)[blk]?).bind (·.columns[seqnum]?)

/-- The cell that is written. -/
def cell? (id : RowId) (seqnum : Nat) : Option Cell :=
  (t.column? id.objectIdx id.blockIdx seqnum).map (·.cell id.row)

def rows (obj blk : Nat) : Nat := ((t.blocks obj)[blk]?).elim 0 (·.rows)

/-- `SELECT .. WHERE ..` over the written cells. -/
def Selects (bind : TAEScanBindData) (input : InitInput) (id : RowId) : Prop :=
  Table.HasBlock bind id.objectIdx id.blockIdx ∧ id.row < t.rows id.objectIdx id.blockIdx ∧
    ∀ e seqnum moOid, input.Filters bind e seqnum moOid →
      ∃ cell, t.cell? id seqnum = some cell ∧ e.truth SqlValue.compare? cell = some true

/-- The columns as they are decoded. -/
def table : Table where
  rows := t.rows
  content := fun obj blk seqnum =>
    ((t.column? obj blk seqnum).bind ColumnInput.decoded?).getD
      { type := t.type seqnum, rowCount := 0, data := [] }
  type := t.type

/-- The manifest counts the blocks, each of which has the columns of the schema, with
    its rows, of their types, and with zone maps that enclose their values. -/
structure Ok (bind : TAEScanBindData) : Prop where
  blocks : ∀ {obj info}, bind.objects[obj]? = some info → (t.blocks obj).length = info.blocks
  columns : ∀ {obj blk seqnum : Nat} {block : BlockInput}, (t.blocks obj)[blk]? = some block → seqnum ∈ bind.allColSeqnums →
    seqnum < block.columns.length
  rows : ∀ {obj blk seqnum col}, seqnum ∈ bind.allColSeqnums → t.column? obj blk seqnum = some col →
    col.source.rowCount = t.rows obj blk
  type : ∀ {obj blk seqnum col}, t.column? obj blk seqnum = some col → col.vectorType = t.type seqnum
  typed : ∀ {obj blk seqnum col}, t.column? obj blk seqnum = some col → col.Typed
  zoneMap : ∀ {obj blk seqnum col}, t.column? obj blk seqnum = some col → col.ZoneMapOk col.zoneMap
  sortZoneMap : ∀ {obj info zm blk col}, bind.objects[obj]? = some info → info.sortKeyZm = some zm →
    t.column? obj blk bind.sortSeqnum = some col → col.ZoneMapOk zm

variable {t} {bind : TAEScanBindData}

/-- A block of the manifest has been written, with a column for each of the schema. -/
theorem Ok.block (ht : t.Ok bind) {obj blk : Nat} (hblock : Table.HasBlock bind obj blk) :
    ∃ info block, bind.objects[obj]? = some info ∧ (t.blocks obj)[blk]? = some block ∧
      ∀ seqnum ∈ bind.allColSeqnums, ∃ col, block.columns[seqnum]? = some col ∧
        t.column? obj blk seqnum = some col := by
  obtain ⟨info, hobj, hblk⟩ := hblock
  rw [← ht.blocks hobj] at hblk
  have hget := List.getElem?_eq_getElem hblk
  refine ⟨info, _, hobj, hget, fun seqnum hs => ?_⟩
  have hcol := List.getElem?_eq_getElem (ht.columns hget hs)
  refine ⟨_, hcol, ?_⟩
  rw [column?, hget, Option.bind_some, hcol]

end TableInput

/-- The files of a scan are those of the table: each object was built from its blocks
    and is stored raw or wrapped. -/
structure FilesWritten (env : FileEnv) (lz4Compress : List Byte → Option (List Byte)) (compress : Bool)
    (blocks : Nat → List BlockInput) : Prop where
  throws : env.access.fs.ThrowsPastEnd
  inverts : env.lz4.Inverts lz4Compress
  object : ∀ {obj info}, env.plan.objects[obj]? = some info → ∃ content file,
    buildObject lz4Compress compress (blocks obj) = some content ∧
      env.access.contents (scanPath env.access.dataDir info) = some file ∧ ObjectOf content file

-- ============================================================================
-- Opening what was written
-- ============================================================================

/-- Every column of an object that was built has been decoded, within the bounds of its
    length fields. -/
theorem decoded?_of_buildObject {lz4Compress : List Byte → Option (List Byte)} {compress : Bool}
    {blocks : List BlockInput} {file : List Byte} (h : buildObject lz4Compress compress blocks = some file)
    {block : BlockInput} (hblock : block ∈ blocks) {col : ColumnInput} (hcol : col ∈ block.columns) :
    ∃ d, col.decoded? = some d ∧ d.area.length < 2 ^ 32 := by
  obtain ⟨specs, hspecs, -⟩ := Option.bind_eq_some_iff.mp h
  obtain ⟨i, hi⟩ := List.mem_iff_getElem?.mp hblock
  obtain ⟨spec, -, hspec⟩ := getElem?_of_forall₂_left (mapM_eq_some.mp hspecs) hi
  obtain ⟨j, hj⟩ := List.mem_iff_getElem?.mp hcol
  obtain ⟨cspec, -, hcspec⟩ := getElem?_of_forall₂_left (BlockInput.spec_eq_some hspec).2 hj
  obtain ⟨d, hdecoded, -, harea⟩ := decodeVector_decoded hcspec
  exact ⟨d, hdecoded, harea⟩

namespace FileEnv
variable {env : FileEnv} {lz4Compress : List Byte → Option (List Byte)} {compress : Bool}
  {blocks : Nat → List BlockInput}

/-- A written object is opened with the metadata of its blocks, and each of its columns
    is decoded as it was built. -/
theorem openObject_written (h : FilesWritten env lz4Compress compress blocks) {obj : Nat}
    {info : TAEObjectInfo} (hinfo : env.plan.objects[obj]? = some info) :
    ∃ r md, env.openObject obj = some (r, md) ∧ List.Forall₂ BlockInput.ParsesBack (blocks obj) md.blocks ∧
      ∀ (blk : Nat) (block : BlockInput) (seqnums : List Nat) (cols : List DecodedColumn),
        (blocks obj)[blk]? = some block →
        List.Forall₂ (fun s d => ∃ col, block.columns[s]? = some col ∧ col.decoded? = some d) seqnums cols →
          (r.readBlock env.access.fs env.lz4 env.access.sort env.access.gapMax md blk seqnums).2 = .ok cols := by
  obtain ⟨content, file, hbuild, hfile, hobject⟩ := h.object hinfo
  obtain ⟨specs, hspecs, hcontent⟩ := Option.bind_eq_some_iff.mp hbuild
  have hrel := mapM_eq_some.mp hspecs
  obtain ⟨extents, metaExtent, metaBytes, hholds⟩ := buildFile_holds h.inverts hcontent
  -- the content opens as its own raw file
  have hraw : ObjectOf content content := by
    refine ⟨⟨.raw, rfl⟩, ?_, hobject.long, hobject.magic⟩
    have hsmall := hholds.small
    omega
  obtain ⟨r₀, res₀, hread₀, -, -, hres₀⟩ := hraw.readMeta h.throws env.lz4 env.access.prefetchThreshold
  obtain ⟨r₁, hread₁, -, -⟩ := readMeta_holds h.throws hholds env.access.prefetchThreshold
  obtain ⟨-, rfl⟩ := Prod.mk.inj (hread₀.symm.trans hread₁)
  obtain ⟨r, res, hread, hready, hstored, hres⟩ :=
    hobject.readMeta h.throws env.lz4 env.access.prefetchThreshold
  have hmd : res.toOption = some ⟨(specs.zip extents).map fun q => q.1.info q.2⟩ := hres.trans hres₀.symm
  refine ⟨r, ⟨(specs.zip extents).map fun q => q.1.info q.2⟩, ?_, ?_, ?_⟩
  · rw [openObject, hinfo, Option.bind_some, hfile, Option.bind_some]
    simp only [hread, hmd, Option.map_some]
  · exact forall₂_zip_map hrel hholds.hasExtents fun _ _ _ hspec hext => BlockInput.parsesBack hspec hext
  · intro blk block seqnums cols hblock hcols
    obtain ⟨spec, hspecAt, hspec⟩ := getElem?_of_forall₂_left hrel hblock
    have hfit := contentMeta_extentsFit (hres₀.symm.trans rfl)
    refine readBlock_holds h.throws hholds hready hstored rfl hfit hspecAt (hcols.imp fun s d hread => ?_)
    obtain ⟨col, hcol, hdecoded⟩ := hread
    obtain ⟨cspec, hcspecAt, hcspec⟩ := getElem?_of_forall₂_left (BlockInput.spec_eq_some hspec).2 hcol
    obtain ⟨d', hdecoded', hvector, -⟩ := decodeVector_decoded hcspec
    obtain rfl := Option.some.inj (hdecoded.symm.trans hdecoded')
    exact ⟨cspec, hcspecAt, hvector⟩

section Storage
variable {t : TableInput} {bind : TAEScanBindData} (h : FilesWritten env lz4Compress compress t.blocks)
  (hobjects : env.plan.objects = bind.objects) (ht : t.Ok bind)
include h hobjects

/-- A column of an object is decoded, and that is its content in the table. -/
theorem column_decoded {obj blk seqnum : Nat} {info : TAEObjectInfo} {col : ColumnInput}
    (hinfo : bind.objects[obj]? = some info) (hcol : t.column? obj blk seqnum = some col) :
    col.decoded? = some (t.table.content obj blk seqnum) ∧
      (t.table.content obj blk seqnum).area.length < 2 ^ 32 := by
  obtain ⟨block, hblock, hat⟩ := Option.bind_eq_some_iff.mp hcol
  obtain ⟨content, file, hbuild, -⟩ := h.object (hobjects ▸ hinfo)
  obtain ⟨d, hd, harea⟩ := decoded?_of_buildObject hbuild (List.mem_of_getElem? hblock) (List.mem_of_getElem? hat)
  have hcontent : t.table.content obj blk seqnum = d := by
    show ((t.column? obj blk seqnum).bind ColumnInput.decoded?).getD _ = d
    rw [hcol, Option.bind_some, hd, Option.getD_some]
  rw [hcontent]
  exact ⟨hd, harea⟩

/-- `ReadMeta` finds the blocks that were written. -/
theorem readMeta_written {obj : Nat} {info : TAEObjectInfo} (hinfo : bind.objects[obj]? = some info) :
    ∃ md, env.storage.readMeta obj = some md ∧ List.Forall₂ BlockInput.ParsesBack (t.blocks obj) md.blocks := by
  obtain ⟨r, md, hopen, hparses, -⟩ := openObject_written h (hobjects ▸ hinfo)
  refine ⟨md, ?_, hparses⟩
  rw [storage_readMeta, hopen]
  rfl

include ht

/-- `ReadBlock` returns the columns of the table. -/
theorem readBlock_written {obj blk : Nat} (hblock : Table.HasBlock bind obj blk) {seqnums : List Nat}
    (hseqs : ∀ s ∈ seqnums, s ∈ bind.allColSeqnums) :
    env.storage.readBlock obj blk seqnums = some (seqnums.map (t.table.content obj blk)) := by
  obtain ⟨info, block, hinfo, hget, hcols⟩ := ht.block hblock
  obtain ⟨r, md, hopen, -, hread⟩ := openObject_written h (hobjects ▸ hinfo)
  rw [storage_readBlock, hopen, Option.bind_some]
  refine toOption_eq_some.mpr (hread blk block seqnums _ hget ?_)
  rw [List.forall₂_map_right_iff, List.forall₂_same]
  intro s hs
  obtain ⟨col, hat, hcol⟩ := hcols s (hseqs s hs)
  exact ⟨col, hat, (column_decoded h hobjects hinfo hcol).1⟩

/-- The zone maps of the files describe what is decoded. -/
theorem zoneMaps_written : ZoneMapsDescribe bind env.storage t.table.content where
  block_counts := by
    intro obj info md hinfo hmd
    obtain ⟨md', hmd', hparses⟩ := readMeta_written h hobjects hinfo
    obtain rfl := Option.some.inj (hmd.symm.trans hmd')
    rw [ObjectMeta.blockCount, ← hparses.length_eq, ht.blocks hinfo]
  block_zoneMaps := by
    intro obj blk seqnum md zm hmd hzm hinit
    obtain ⟨info, hinfo⟩ : ∃ info, bind.objects[obj]? = some info := by
      rw [storage_readMeta, Option.map_eq_some_iff] at hmd
      obtain ⟨opened, hopen, -⟩ := hmd
      obtain ⟨info, hinfo, -⟩ := Option.bind_eq_some_iff.mp hopen
      exact ⟨info, hobjects ▸ hinfo⟩
    obtain ⟨md', hmd', hparses⟩ := readMeta_written h hobjects hinfo
    obtain rfl := Option.some.inj (hmd.symm.trans hmd')
    -- the meta of the column, and the column it was written for
    obtain ⟨blkInfo, hblk, hmeta⟩ := Option.bind_eq_some_iff.mp hzm
    obtain ⟨m, hm, rfl⟩ := Option.map_eq_some_iff.mp hmeta
    obtain ⟨block, hblock, hback⟩ := getElem?_of_forall₂ hparses hblk
    obtain ⟨col, hcol, -, hzone⟩ := getElem?_of_forall₂ hback.columns hm
    have hcolumn : t.column? obj blk seqnum = some col := by
      rw [TableInput.column?, hblock, Option.bind_some, hcol]
    obtain ⟨hdecoded, harea⟩ := column_decoded h hobjects hinfo hcolumn
    rw [hzone] at hinit ⊢
    exact (ht.zoneMap hcolumn).describes hdecoded (ht.typed hcolumn) harea hinit
  sort_zoneMaps := by
    intro obj info zm blk hinfo hzm hinit _
    cases hcolumn : t.column? obj blk bind.sortSeqnum with
    | none =>
        -- a column that was not written has no rows
        have hempty : ∀ row, ¬row < (t.table.content obj blk bind.sortSeqnum).rowCount := by
          intro row hrow
          have hnone : (t.table.content obj blk bind.sortSeqnum).rowCount = 0 := by
            show (((t.column? obj blk bind.sortSeqnum).bind ColumnInput.decoded?).getD _).rowCount = 0
            rw [hcolumn]
            rfl
          rw [hnone] at hrow
          exact Nat.not_lt_zero row hrow
        exact ⟨fun _ _ row hrow => absurd hrow (hempty row), fun _ row hrow => absurd hrow (hempty row)⟩
    | some col =>
        obtain ⟨hdecoded, harea⟩ := column_decoded h hobjects hinfo hcolumn
        exact (ht.sortZoneMap hinfo hzm hcolumn).describes hdecoded (ht.typed hcolumn) harea hinit

/-- The files hold the table, and all of it can be read. -/
theorem storage_written : TableStored bind env.storage t.table where
  meta_isSome := by
    intro obj info hinfo
    obtain ⟨md, hmd, -⟩ := readMeta_written h hobjects hinfo
    rw [hmd]
    rfl
  block_isSome := by
    intro obj blk seqnums hblock hseqs
    rw [readBlock_written h hobjects ht hblock hseqs]
    rfl
  readMeta := by
    intro obj info md hinfo hmd blk hblk
    obtain ⟨md', hmd', hparses⟩ := readMeta_written h hobjects hinfo
    obtain rfl := Option.some.inj (hmd.symm.trans hmd')
    rw [← ht.blocks hinfo] at hblk
    have hget := List.getElem?_eq_getElem hblk
    obtain ⟨blkInfo, hat, hback⟩ := getElem?_of_forall₂_left hparses hget
    show _ = ((t.blocks obj)[blk]?).elim 0 (·.rows)
    rw [ObjectMeta.blockRowCount, hat, hget]
    exact hback.rows
  readBlock := by
    intro obj blk seqnums cols hblock hseqs hcols
    exact Option.some.inj (hcols.symm.trans (readBlock_written h hobjects ht hblock hseqs))
  rowCount := by
    intro obj blk seqnum hblock hs
    obtain ⟨info, block, hinfo, -, hcols⟩ := ht.block hblock
    obtain ⟨col, -, hcolumn⟩ := hcols seqnum hs
    rw [(decoded?_spec (column_decoded h hobjects hinfo hcolumn).1).1]
    exact ht.rows hs hcolumn
  type := by
    intro obj blk seqnum
    show (((t.column? obj blk seqnum).bind ColumnInput.decoded?).getD _).type = t.type seqnum
    cases hcolumn : t.column? obj blk seqnum with
    | none => rfl
    | some col =>
        rw [Option.bind_some]
        cases hd : col.decoded? with
        | none => rfl
        | some d => exact (decoded?_spec hd).2.2.trans (ht.type hcolumn)
  zoneMaps := zoneMaps_written h hobjects ht

end Storage

end FileEnv

-- ============================================================================
-- Queries on what was written
-- ============================================================================

/-- The filtered columns were written as FLAT columns of types with a total order. -/
structure TableInput.QueryOk (t : TableInput) (tryGet : ColumnConstantComparison) (bt : BlobText)
    (bind : TAEScanBindData) (input : InitInput) : Prop extends QueryTyped tryGet bt bind input t.type where
  ordered : ∀ {e seqnum moOid}, input.Filters bind e seqnum moOid → (t.type seqnum).kind.isOrdered = true
  flat : ∀ {e seqnum moOid obj blk col}, input.Filters bind e seqnum moOid →
    t.column? obj blk seqnum = some col → col.vectorClass = 0

/-- A filtered column is one of the schema. -/
theorem InitInput.Filters.inSchema {bind : TAEScanBindData} {input : InitInput} {e : Expr} {seqnum : Nat}
    {moOid : Byte} (h : input.Filters bind e seqnum moOid) : seqnum ∈ bind.allColSeqnums := by
  obtain ⟨ci, -, hcol⟩ := h
  obtain ⟨id, -, -, hseqnum, -⟩ := tableColumn?_eq_some.mp hcol
  exact List.mem_of_getElem? hseqnum

/-- A column of class 0 was written by `build_vector`. -/
theorem ColumnInput.source_of_flat {col : ColumnInput} (h : col.vectorClass = 0) :
    ∃ elemSize values nulls, col.source = .flat elemSize values nulls := by
  cases hsource : col.source with
  | flat elemSize values nulls => exact ⟨elemSize, values, nulls, rfl⟩
  | constant elemSize value rowCount =>
      rw [vectorClass, hsource] at h
      cases h

section Queries
variable {tryGet : ColumnConstantComparison} {bt : BlobText} {std : StdSort} {bind : TAEScanBindData}
  {input : InitInput} {env : FileEnv} {t : TableInput} {lz4Compress : List Byte → Option (List Byte)}
  {compress : Bool} (h : FilesWritten env lz4Compress compress t.blocks)
  (hobjects : env.plan.objects = bind.objects) (ht : t.Ok bind) (hq : t.QueryOk tryGet bt bind input)
include h hobjects ht hq

/-- The cells of a filtered column, as they are read. -/
theorem filtered_cell {e : Expr} {seqnum : Nat} {moOid : Byte} (he : input.Filters bind e seqnum moOid)
    {obj blk row : Nat} (hblock : Table.HasBlock bind obj blk) (hrow : row < t.rows obj blk) :
    ∃ col, t.column? obj blk seqnum = some col ∧
      (t.table.content obj blk seqnum).cell? row = some (col.cell row) := by
  obtain ⟨info, block, hinfo, -, hcols⟩ := ht.block hblock
  obtain ⟨col, -, hcolumn⟩ := hcols seqnum he.inSchema
  obtain ⟨hdecoded, harea⟩ := FileEnv.column_decoded h hobjects hinfo hcolumn
  obtain ⟨elemSize, values, nulls, hsource⟩ := ColumnInput.source_of_flat (hq.flat he hcolumn)
  have htyped := ht.typed hcolumn
  have hcount := ht.rows he.inSchema hcolumn
  rw [ColumnInput.Typed, hsource] at htyped
  rw [hsource] at hcount
  refine ⟨col, hcolumn, cell?_flat hsource hdecoded htyped harea ?_⟩
  rw [show values.rowCount = t.rows obj blk from hcount]
  exact hrow

theorem queryOk_written : QueryOk tryGet bt bind input t.table where
  toQueryTyped := hq.toQueryTyped
  filterable := by
    intro e seqnum moOid obj blk he hblock
    obtain ⟨info, block, hinfo, -, hcols⟩ := ht.block hblock
    obtain ⟨col, -, hcolumn⟩ := hcols seqnum he.inSchema
    obtain ⟨hdecoded, harea⟩ := FileEnv.column_decoded h hobjects hinfo hcolumn
    obtain ⟨hrows, hclass, htype⟩ := decoded?_spec hdecoded
    obtain ⟨elemSize, values, nulls, hsource⟩ := ColumnInput.source_of_flat (hq.flat he hcolumn)
    have htyped := ht.typed hcolumn
    rw [ColumnInput.Typed, hsource] at htyped
    refine ⟨hclass.trans (hq.flat he hcolumn), ?_, fun row hrow => ?_⟩
    · rw [DecodedColumn.kind, htype, ht.type hcolumn]
      exact hq.ordered he
    · rw [hrows, hsource] at hrow
      obtain ⟨v, -, hstored⟩ := storedValue?_flat hsource hdecoded htyped harea hrow
      rw [hstored]
      rfl

/-- The rows that the query selects of what is read are those it selects of what was
    written. -/
theorem selects_written (id : RowId) : t.table.Selects bind input id ↔ t.Selects bind input id := by
  apply and_congr_right
  intro hblock
  apply and_congr_right
  intro hrow
  show (∀ e seqnum moOid, _ → _) ↔ ∀ e seqnum moOid, _ → _
  refine forall_congr' fun e => forall_congr' fun seqnum => forall_congr' fun moOid =>
    forall_congr' fun he => ?_
  obtain ⟨col, hcolumn, hcell⟩ := filtered_cell h hobjects ht hq he hblock hrow
  have hread : t.table.cell? id seqnum = t.cell? id seqnum := by
    rw [TableInput.cell?, hcolumn, Option.map_some]
    exact hcell
  rw [hread]

/-- The queue holds the rows that the query selects, each once. -/
theorem queueRows_written (hplan : InitPlan tryGet bt std bind input env.storage env.plan)
    (hsafe : ∀ pf ∈ env.plan.filters, pf.CutSafe) (hunlimited : bind.Unlimited) (hslow : env.fast = false) :
    env.scanEnv.queueRows.Nodup ∧ ∀ id, id ∈ env.scanEnv.queueRows ↔ t.Selects bind input id := by
  have hstored : TableStored bind env.scanEnv.storage t.table := FileEnv.storage_written h hobjects ht
  have hread := queryOk_written h hobjects ht hq
  refine ⟨queueRows_nodup hplan, fun id => ?_⟩
  rw [mem_queueRows_iff_selects hread hplan hslow hstored hsafe hunlimited]
  exact selects_written h hobjects ht hq id

end Queries

/-- **SELECT over written files.**  The objects of a table are built from their values
    and stored raw or wrapped, compressed or not.  When the threads of a scan are done
    with the files, they have emitted each row whose written cells satisfy all pushed
    expressions exactly once, and no other row; unless an expression asks `<>` of a
    string as long as the max field of a zone map. -/
theorem written_scan_selects {ι : Type} [DecidableEq ι] [Fintype ι] [Nonempty ι]
    {tryGet : ColumnConstantComparison} {bt : BlobText} {std : StdSort} {bind : TAEScanBindData}
    {input : InitInput} {env : FileEnv} {t : TableInput} {lz4Compress : List Byte → Option (List Byte)}
    {compress : Bool} {outputs : ι → DataChunk} {c : Config ι ScanShared FileThread ScanLog}
    (hfiles : FilesWritten env lz4Compress compress t.blocks) (ht : t.Ok bind)
    (hq : t.QueryOk tryGet bt bind input) (hplan : InitPlan tryGet bt std bind input env.storage env.plan)
    (hsafe : ∀ pf ∈ env.plan.filters, pf.CutSafe) (hunlimited : bind.Unlimited) (hslow : env.fast = false)
    (hsample : env.plan.doSample = false) (h : Reachable env.Step (FileEnv.start outputs) c)
    (hdone : ∀ i, (c.threads i).scan.finished = true) :
    c.log.2.Nodup ∧ ∀ id, id ∈ c.log.2 ↔ t.Selects bind input id := by
  have hrun : Reachable env.scanEnv.Step (env.scanEnv.start outputs) (c.mapThreads FileThread.scan) :=
    env.refines.reachable_map (FileEnv.start_kept outputs) h
  have hqueue : c.log.2 = env.scanEnv.queueRows := ScanEnv.emitted_of_finished hslow hsample hrun hdone
  rw [hqueue]
  exact queueRows_written hfiles hplan.objects ht hq hplan hsafe hunlimited hslow

-- ============================================================================
-- A written table of three rows
-- ============================================================================

/-- The zone map of the numbers 7 to 8. -/
def sevenToEight : ZoneMap :=
  (buildZoneMapNumeric (fun _ => none) 22 (.number 7) (.number 8) 4).getD .zero

/-- An INT column that holds 7, NULL and 8. -/
def threeInts : ColumnInput where
  moType := 22
  source := .flat 4 (.packed none [some 7, none, some 8]) [false, true, false]
  nulls := [false, true, false]
  zoneMap := sevenToEight

def threeRows : TableInput := ⟨fun _ => [{ rows := 3, columns := [threeInts] }], fun _ => { oid := 22, size := 4 }⟩

def threeRowBind : TAEScanBindData :=
  { allColTypes := [.integer], allColMoOids := [22], allColSeqnums := [0], sortColumnIdx := 0,
    objects := [{ filePath := "a.tae", rows := 3, blocks := 1, sortKeyZm := some sevenToEight }] }

def threeRowFile : List Byte := (buildObject literalBlock false (threeRows.blocks 0)).getD []

/-- A scan of the file under `x = 7`. -/
def threeRowEnv : FileEnv where
  plan := { equalsSevenEnv.plan with objects := threeRowBind.objects }
  lz4 := .literal
  access := oneFile threeRowFile 0 4096
  fast := false
  callAgain := false
  fast_only := nofun

theorem threeRowBind_object {obj : Nat} {info : TAEObjectInfo} (h : threeRowBind.objects[obj]? = some info) :
    info = { filePath := "a.tae", rows := 3, blocks := 1, sortKeyZm := some sevenToEight } := by
  cases obj with
  | zero => exact (Option.some.inj h).symm
  | succ n => cases h

theorem threeRows_column {obj blk seqnum : Nat} {col : ColumnInput}
    (h : threeRows.column? obj blk seqnum = some col) : col = threeInts ∧ threeRows.rows obj blk = 3 := by
  cases blk with
  | zero =>
      cases seqnum with
      | zero => exact ⟨(Option.some.inj h).symm, rfl⟩
      | succ n => cases h
  | succ n => cases h

theorem threeRows_files : FilesWritten threeRowEnv literalBlock false threeRows.blocks where
  throws := FileSystem.positional_throwsPastEnd
  inverts := LZ4.literal_inverts
  object := by
    intro obj info _
    have hsome : (buildObject literalBlock false (threeRows.blocks 0)).isSome = true := by decide +kernel
    obtain ⟨file, hfile⟩ := Option.isSome_iff_exists.mp hsome
    have hthis : threeRowFile = file := by rw [threeRowFile, hfile, Option.getD_some]
    have hlong : 12 ≤ threeRowFile.length := by decide +kernel
    have hmagic : leNat (threeRowFile.take 8) = objectMagic := by decide +kernel
    have hsmall : threeRowFile.length < 2 ^ 63 := by decide +kernel
    exact ⟨threeRowFile, threeRowFile, hthis ▸ hfile, rfl, ⟨.raw, rfl⟩, hsmall, hlong, hmagic⟩

/-- The zone map that was built encloses 7 and 8. -/
theorem threeInts_zoneMap : threeInts.ZoneMapOk sevenToEight := by
  have hsome : (buildZoneMapNumeric (fun _ => none) 22 (.number 7) (.number 8) 4).isSome = true := by decide
  obtain ⟨zm, hzm⟩ := Option.isSome_iff_exists.mp hsome
  have hthis : sevenToEight = zm := by rw [sevenToEight, hzm, Option.getD_some]
  refine .numbers (hthis ▸ hzm) rfl rfl trivial rfl trivial fun row hrow v hv => ?_
  have hrow' : row = 0 ∨ row = 1 ∨ row = 2 := by
    have hlt : row < 3 := hrow
    omega
  rcases hrow' with rfl | rfl | rfl
  · obtain rfl : SqlValue.int 7 = v := Option.some.inj hv
    decide
  · cases hv
  · obtain rfl : SqlValue.int 8 = v := Option.some.inj hv
    decide

theorem threeRows_ok : threeRows.Ok threeRowBind where
  blocks := by
    intro obj info hobj
    rw [threeRowBind_object hobj]
    rfl
  columns := by
    intro obj blk seqnum block hblock hs
    obtain rfl := List.mem_singleton.mp hs
    cases blk with
    | zero =>
        obtain rfl := Option.some.inj hblock
        exact Nat.zero_lt_one
    | succ n => cases hblock
  rows := by
    intro obj blk seqnum col _ hcol
    obtain ⟨rfl, hrows⟩ := threeRows_column hcol
    rw [hrows]
    rfl
  type := by
    intro obj blk seqnum col hcol
    obtain ⟨rfl, -⟩ := threeRows_column hcol
    rfl
  typed := by
    intro obj blk seqnum col hcol
    obtain ⟨rfl, -⟩ := threeRows_column hcol
    exact ⟨rfl, nofun⟩
  zoneMap := by
    intro obj blk seqnum col hcol
    obtain ⟨rfl, -⟩ := threeRows_column hcol
    exact threeInts_zoneMap
  sortZoneMap := by
    intro obj info zm blk col hobj hzm hcol
    obtain ⟨rfl, -⟩ := threeRows_column hcol
    rw [threeRowBind_object hobj] at hzm
    obtain rfl := Option.some.inj hzm
    exact threeInts_zoneMap

theorem threeRows_filters {e : Expr} {seqnum : Nat} {moOid : Byte}
    (h : equalsSevenInput.Filters threeRowBind e seqnum moOid) :
    e = .comparison .equal .columnRef (.constant (intConstant 7)) ∧ seqnum = 0 ∧ moOid = 22 := by
  obtain ⟨ci, hentry, hcol⟩ := h
  obtain ⟨rfl, rfl⟩ := Prod.mk.inj (List.mem_singleton.mp hentry)
  obtain ⟨rfl, rfl⟩ := Prod.mk.inj (Option.some.inj hcol)
  exact ⟨rfl, rfl, rfl⟩

theorem threeRows_queryOk : threeRows.QueryOk simpleComparison .duckdb threeRowBind equalsSevenInput where
  normalises := simpleComparison_normalises
  schema := ⟨rfl, List.nodup_singleton 0⟩
  fit := filterPositionsFit_of_short (by decide)
  moOid h := (threeRows_filters h).2.2.symm
  denotes := by
    intro e seqnum moOid h val hval c henc
    obtain ⟨rfl, rfl, rfl⟩ := threeRows_filters h
    obtain rfl := List.mem_singleton.mp hval
    obtain rfl := Option.some.inj henc
    exact ⟨⟨fun _ => ⟨rfl, rfl⟩, nofun⟩, by decide⟩
  ordered _ := rfl
  flat := by
    intro e seqnum moOid obj blk col _ hcol
    obtain ⟨rfl, -⟩ := threeRows_column hcol
    rfl

theorem threeRows_initPlan : InitPlan simpleComparison .duckdb insertionStdSort threeRowBind equalsSevenInput
    threeRowEnv.storage threeRowEnv.plan where
  columns := ⟨_, rfl, rfl, rfl, rfl⟩
  objects := rfl
  units := by
    have hunits : buildWorkUnits threeRowBind [sevenFilter] threeRowEnv.storage = [⟨0, 0⟩] := by decide +kernel
    exact congrArg some hunits

/-- One thread has read the file and emitted the 7. -/
theorem written_scan_selects_seven :
    ∃ c, Reachable threeRowEnv.Step (FileEnv.start oneOutput) c ∧ (c.threads ()).scan.finished = true ∧
      c.log.2.Nodup ∧ ∀ id, id ∈ c.log.2 ↔ threeRows.Selects threeRowBind equalsSevenInput id := by
  have hrun : ((FileEnv.start oneOutput).run (threeRowEnv.next (fun _ => true) 2) (List.replicate 5 ())).any
      (fun c => (c.threads ()).scan.finished) = true := by decide +kernel
  obtain ⟨c, hc, hfinished⟩ := (Option.any_eq_true _ _).mp hrun
  have hreach : Reachable threeRowEnv.Step (FileEnv.start oneOutput) c :=
    Reachable.run (fun _ _ _ _ _ h => FileEnv.step_of_next h) .start hc
  exact ⟨c, hreach, hfinished, written_scan_selects threeRows_files threeRows_ok threeRows_queryOk
    threeRows_initPlan (fun pf hpf hstr => by obtain rfl := List.mem_singleton.mp hpf; cases hstr) nofun rfl rfl
    hreach fun _ => hfinished⟩

end TaeScanner
