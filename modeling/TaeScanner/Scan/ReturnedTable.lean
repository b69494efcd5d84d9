/-
  TaeScanner.Scan.ReturnedTable

  From the values that were written to the cells that are returned.

    * a decoded column has the cells that were written, CONSTANT or FLAT, and its
      rows are well formed, so that the fill shows them;
    * an output slot is on the column, the path or the number of the block that its
      id names;
    * a returned chunk shows, in each slot that a call leaves clean, the cells of
      its rows as they were written.
-/

import TaeScanner.Scan.CleanOutput
import TaeScanner.Scan.WrittenTable

namespace TaeScanner

open Lib

-- ============================================================================
-- Written columns, as they are filled
-- ============================================================================

/-- The value that is stored for a row, NULL or not. -/
def ColumnInput.stored? (col : ColumnInput) (row : Nat) : Option SqlValue :=
  match col.source with
  | .flat _ values _ => values.value? col.moType row
  | .constant _ _ _ => col.cell row

/-- Temporal values fit their integer types when the epoch has been subtracted. -/
def ColumnInput.EpochFits (col : ColumnInput) : Prop :=
  ∀ row n, col.stored? row = some (.int n) →
    (MOTypeOid.ofByte col.moType = .date → FitsSigned 4 n) ∧
      (MOTypeOid.ofByte col.moType = .datetime ∨ MOTypeOid.ofByte col.moType = .timestamp → FitsSigned 8 n)

/-- The column is FLAT and has no NULL. -/
def ColumnInput.NotNull (col : ColumnInput) : Prop := col.vectorClass = 0 ∧ true ∉ col.source.nulls

/-- An element that denotes a value is well formed when the value fits. -/
theorem wellFormedAt_of_fits {d : DecodedColumn} {row : Nat} {v : SqlValue} (hstored : d.storedValue? row = some v)
    (hfits : ∀ n, v = .int n → (d.kind = .date → FitsSigned 4 n) ∧
      (d.kind = .datetime ∨ d.kind = .timestamp → FitsSigned 8 n)) : d.WellFormedAt row := by
  have hsome : (d.storedValue? row).isSome := by rw [hstored]; rfl
  -- the element of a fixed-width row is the one that denotes the value
  have helement : ∀ {size : Nat} {bs}, moTypeFixedSize d.kind = size → 0 < size → d.element? size row = some bs →
      v = d.type.fixedValue bs := by
    intro size bs hsize hpos hbs
    obtain ⟨bs', hbs', -, hvalue⟩ := DecodedColumn.element?_of_storedValue? hsize hpos hsome
    obtain rfl := Option.some.inj (hbs.symm.trans hbs')
    exact Option.some.inj (hstored.symm.trans hvalue)
  refine ⟨hsome, fun hkind bs hbs => ?_, fun hkind bs hbs => ?_⟩
  · apply (hfits _ _).1 hkind
    rw [helement (by rw [hkind]; rfl) (by decide) hbs, MOType.fixedValue, show d.type.kind = .date from hkind]
  · have hsize : moTypeFixedSize d.kind = (8 : Nat) := by rcases hkind with h | h <;> rw [h] <;> rfl
    apply (hfits _ _).2 hkind
    rw [helement hsize (by decide) hbs, MOType.fixedValue]
    rcases hkind with h | h
    · rw [show d.type.kind = .datetime from h]
    · rw [show d.type.kind = .timestamp from h]

section Columns
variable {col : ColumnInput} {d : DecodedColumn} {row : Nat}

theorem nullCount_written (h : col.decoded? = some d) : d.nullCount = col.source.nulls.count true := by
  obtain ⟨v, nsp, -, -, -, -, -, -, -, hnulls⟩ := decoded?_built h
  exact congrArg Prod.fst hnulls

/-- A CONSTANT column is NULL exactly when its cell is. -/
theorem constantNull_written {elemSize : Int} {value : ConstantValue} {rowCount : Nat}
    (hsource : col.source = .constant elemSize value rowCount) (h : col.decoded? = some d) (htyped : col.Typed)
    (row : Nat) :
    (d.constantNull = true ∧ col.cell row = none) ∨
      (d.constantNull = false ∧ ∃ v, col.cell row = some v ∧ d.storedValue? 0 = some v) := by
  have hvalue := storedValue?_constant hsource h htyped row
  cases hcell : col.cell row with
  | none =>
      rw [hcell] at hvalue
      have hnil : d.data = [] := hvalue
      exact Or.inl ⟨by rw [DecodedColumn.constantNull, decide_eq_true hnil, Bool.true_or], rfl⟩
  | some v =>
      rw [hcell] at hvalue
      obtain ⟨hdata, hstored, -⟩ := hvalue
      refine Or.inr ⟨constantNull_eq_false.mpr ⟨hdata, fun hbit => ?_⟩, v, rfl, hstored⟩
      -- only a NULL has bits set
      have hnull := (isNullAt_written h 0).1.symm.trans hbit.2
      have hclear : (((List.replicate rowCount false)[0]?).getD false) = false := by
        rw [List.getElem?_replicate]
        split <;> rfl
      rw [hsource] at hnull
      cases value with
      | null isVarchar =>
          rw [ColumnInput.cell, hsource] at hcell
          cases hcell
      | varchar s => exact absurd (hnull.symm.trans hclear) (by decide)
      | packed n => exact absurd (hnull.symm.trans hclear) (by decide)

/-- A decoded column has the cells that were written. -/
theorem rowCell_written (h : col.decoded? = some d) (htyped : col.Typed) (harea : d.area.length < 2 ^ 32)
    (hrow : row < d.rowCount) : d.rowCell row = col.cell row := by
  obtain ⟨hrows, hclass, -⟩ := decoded?_spec h
  rw [DecodedColumn.rowCell, hclass]
  cases hsource : col.source with
  | flat elemSize values nulls =>
      rw [hrows, hsource] at hrow
      rw [ColumnInput.Typed, hsource] at htyped
      have hcell := cell?_flat hsource h htyped harea hrow
      rw [ColumnInput.vectorClass, hsource, if_neg (show ¬(0 : Byte) = 1 by decide)]
      rw [DecodedColumn.cell?] at hcell
      cases hnull : d.isNullAt row with
      | true =>
          rw [hnull, if_pos rfl] at hcell
          rw [if_pos ⟨(isNullAt_written h row).2 hnull, rfl⟩]
          exact Option.some.inj hcell
      | false =>
          rw [hnull, if_neg Bool.false_ne_true] at hcell
          obtain ⟨v, hv, hvcell⟩ := Option.map_eq_some_iff.mp hcell
          rw [if_neg (fun hand => Bool.false_ne_true hand.2), hv, hvcell]
  | constant elemSize value rowCount =>
      rw [ColumnInput.vectorClass, hsource, if_pos rfl]
      rcases constantNull_written hsource h htyped row with ⟨hnull, hcell⟩ | ⟨hnull, v, hcell, hstored⟩
      · rw [hnull, if_pos rfl, hcell]
      · rw [hnull, if_neg Bool.false_ne_true, hcell, hstored]

/-- The rows that the fill reads of a decoded column are well formed. -/
theorem wellFormed_written (h : col.decoded? = some d) (htyped : col.Typed) (harea : d.area.length < 2 ^ 32)
    (hfits : col.EpochFits) :
    if d.vecClass = 1 then d.constantNull = false → d.WellFormedAt 0
    else ∀ r, r < d.rowCount → d.WellFormedAt r := by
  obtain ⟨hrows, hclass, -⟩ := decoded?_spec h
  have hkind : d.kind = MOTypeOid.ofByte col.moType := (decoded?_kind h).1
  rw [hclass]
  cases hsource : col.source with
  | flat elemSize values nulls =>
      rw [ColumnInput.vectorClass, hsource, if_neg (show ¬(0 : Byte) = 1 by decide)]
      rw [ColumnInput.Typed, hsource] at htyped
      intro r hr
      rw [hrows, hsource] at hr
      obtain ⟨v, hvalue, hstored⟩ := storedValue?_flat hsource h htyped harea hr
      apply wellFormedAt_of_fits hstored
      rintro n rfl
      rw [hkind]
      apply hfits r n
      rw [ColumnInput.stored?, hsource]
      exact hvalue
  | constant elemSize value rowCount =>
      rw [ColumnInput.vectorClass, hsource, if_pos rfl]
      intro hnot
      rcases constantNull_written hsource h htyped 0 with ⟨hnull, -⟩ | ⟨-, v, hcell, hstored⟩
      · exact absurd (hnull.symm.trans hnot) (by decide)
      · apply wellFormedAt_of_fits hstored
        rintro n rfl
        rw [hkind]
        apply hfits 0 n
        rw [ColumnInput.stored?, hsource]
        exact hcell

/-- The fill of a FLAT column without NULLs clears no validity bit. -/
theorem marks_written (h : col.decoded? = some d) (hnotNull : col.NotNull) :
    d.vecClass ≠ 1 ∧ ∀ count off i, d.marks count off i = false := by
  obtain ⟨hflat, hnulls⟩ := hnotNull
  have hcount : d.nullCount = 0 := (nullCount_written h).trans (List.count_eq_zero.mpr hnulls)
  constructor
  · rw [(decoded?_spec h).2.1, hflat]
    decide
  · intro count off i
    rw [DecodedColumn.marks, hcount]
    rfl

end Columns

-- ============================================================================
-- Output slots
-- ============================================================================

/-- The output slot is filled from its target. -/
def OutputColumnInfo.IsFor (readSeqnums : List Nat) : OutputColumnInfo → ColumnTarget → Prop
  | .taeColumn _ decodedPos, .physical seqnum => readSeqnums[decodedPos]? = some seqnum
  | .vcolFilename, .filePath => True
  | .vcolBlockId, .blockId => True
  | _, _ => False

section Slots
variable {tryGet : ColumnConstantComparison} {bt : BlobText} {bind : TAEScanBindData} {input : InitInput}
  {sc : ScanColumns} {o id : Nat} {target : ColumnTarget}

/-- Init fills a slot from what its id names. -/
theorem outputColumn_isFor {d : DecodedPositions} (hd : d.Records bind input.columnIds) {ci : Nat}
    {om : OutputColumnInfo} (hid : input.columnIds[ci]? = some id) (htarget : bind.target? id = some target)
    (hom : outputColumn d input.columnIds ci = .ok om) : om.IsFor d.readSeqnums target := by
  rw [outputColumn] at hom
  simp only [hid] at hom
  rw [TAEScanBindData.target?] at htarget
  by_cases hfile : id = vcolFilename
  · rw [if_pos hfile] at hom htarget
    obtain rfl := Except.ok.inj hom
    obtain rfl := Option.some.inj htarget
    trivial
  rw [if_neg hfile] at hom htarget
  by_cases hblock : id = vcolBlockId
  · rw [if_pos hblock] at hom htarget
    obtain rfl := Except.ok.inj hom
    obtain rfl := Option.some.inj htarget
    trivial
  rw [if_neg hblock] at hom htarget
  by_cases hvirtual : isVirtualColumn id = true
  · rw [if_pos hvirtual] at htarget
    cases htarget
  rw [if_neg hvirtual] at hom htarget
  have htable := isTableColumn_iff.mpr (Bool.eq_false_iff.mpr hvirtual)
  obtain ⟨hpos, seqnum, hseqnum, hread⟩ := hd.readSeqnum hid htable
  rw [hpos, Option.getD_some] at hom
  rw [hseqnum, Option.map_some] at htarget
  obtain rfl := Except.ok.inj hom
  obtain rfl := Option.some.inj htarget
  exact hread

theorem exists_slot (hproj : input.ProjectionOk) (h : initColumns tryGet bt bind input = .ok sc)
    (hslot : input.slotId? o = some id) (htarget : bind.target? id = some target) :
    ∃ om, sc.outputMap[o]? = some om ∧ om.IsFor sc.readSeqnums target := by
  obtain ⟨d, hd, hread, hmap, -⟩ := initColumns_eq_ok h
  obtain ⟨ci, hci, hid⟩ := slotId?_position hproj hslot
  obtain ⟨om, hom, hcolumn⟩ := getElem?_of_forall₂_left (mapM_eq_ok.mp hmap) hci
  rw [hread]
  exact ⟨om, hom, outputColumn_isFor (DecodedPositions.records hd) hid htarget hcolumn⟩

/-- Without pushed expressions there are no filters. -/
theorem filters_eq_nil (h : initColumns tryGet bt bind input = .ok sc) (hnone : input.filters = []) :
    sc.filters = [] := by
  obtain ⟨d, -, -, -, hfilters⟩ := initColumns_eq_ok h
  rw [hnone] at hfilters
  exact (Except.ok.inj hfilters).symm

end Slots

-- ============================================================================
-- What is returned
-- ============================================================================

namespace TableInput
variable (t : TableInput) (bind : TAEScanBindData) (input : InitInput)

/-- What a row has under a target: the cell that was written, the path of its object
    or the number of its block. -/
def shown? (id : RowId) : ColumnTarget → Option Cell
  | .physical seqnum => t.cell? id seqnum
  | .filePath => (bind.objects[id.objectIdx]?).map fun info => some (.bytes (pathBytes info.filePath))
  | .blockId => some (some (.int id.blockIdx))

/-- The type that DuckDB allocates for a target. -/
def targetType? : ColumnTarget → Option LogicalType
  | .physical seqnum => (moTypeToDuckDB (t.type seqnum)).toOption
  | .filePath => some .varchar
  | .blockId => some .integer

/-- The cells of the target survive the fill, and either no chunk is ever rejected or
    none can leave anything behind. -/
def Returnable : ColumnTarget → Prop
  | .physical seqnum => StrideMatches (t.type seqnum) ∧
      (∀ obj blk col, t.column? obj blk seqnum = some col → col.EpochFits) ∧
      ((input.filters = [] ∧ ∀ obj blk, Table.HasBlock bind obj blk → 0 < t.rows obj blk) ∨
        ∀ obj blk col, t.column? obj blk seqnum = some col → col.NotNull)
  | .filePath => True
  | .blockId => ∀ info ∈ bind.objects, info.blocks ≤ 2 ^ 31

end TableInput

section Returned
variable {tryGet : ColumnConstantComparison} {bt : BlobText} {std : StdSort} {bind : TAEScanBindData}
  {input : InitInput} {env : FileEnv} {t : TableInput} {lz4Compress : List Byte → Option (List Byte)}
  {compress : Bool} (hfiles : FilesWritten env lz4Compress compress t.blocks) (ht : t.Ok bind)
  (hplan : InitPlan tryGet bt std bind input env.storage env.plan) (hslow : env.fast = false)
include hfiles ht hplan hslow

/-- A queued window is one of a written block, under its decoded columns. -/
theorem queued_written {w : ChunkWindow} (hw : env.scanEnv.Queued w) :
    Table.HasBlock bind w.objectIdx w.blockIdx ∧
      w.cols = env.plan.readSeqnums.map (t.table.content w.objectIdx w.blockIdx) ∧
      w.srcOffset + w.chunkRows ≤ t.rows w.objectIdx w.blockIdx ∧
      (0 < t.rows w.objectIdx w.blockIdx → 0 < w.chunkRows) := by
  obtain ⟨hunit, blk, hblock, hcols, hle, hpos⟩ := hw
  have hserved : TableServed bind env.scanEnv.storage t.table :=
    (FileEnv.storage_written hfiles hplan.objects ht).toTableServed
  obtain ⟨hhas, rfl⟩ := unitBlock_served hserved hplan hslow hunit hblock
  exact ⟨hhas, hcols, hle, hpos⟩

/-- The column of a queued window that a slot is filled from, as it was written. -/
theorem window_column {w : ChunkWindow} (hw : env.scanEnv.Queued w) {decodedPos seqnum : Nat}
    (hread : env.plan.readSeqnums[decodedPos]? = some seqnum) :
    ∃ col d, t.column? w.objectIdx w.blockIdx seqnum = some col ∧ w.cols[decodedPos]? = some d ∧
      col.decoded? = some d ∧ col.Typed ∧ d.area.length < 2 ^ 32 ∧ d.type = t.type seqnum ∧
      d.rowCount = t.rows w.objectIdx w.blockIdx := by
  obtain ⟨hhas, hcols, -⟩ := queued_written hfiles ht hplan hslow hw
  obtain ⟨sc, hinit, hsc, -⟩ := hplan.columns
  have hschema : seqnum ∈ bind.allColSeqnums :=
    readSeqnums_inSchema hinit seqnum (hsc ▸ List.mem_of_getElem? hread)
  obtain ⟨info, block, hinfo, -, hblockCols⟩ := ht.block hhas
  obtain ⟨col, -, hcol⟩ := hblockCols seqnum hschema
  obtain ⟨hdecoded, harea⟩ := FileEnv.column_decoded hfiles hplan.objects hinfo hcol
  obtain ⟨hrows, -, htype⟩ := decoded?_spec hdecoded
  refine ⟨col, _, hcol, ?_, hdecoded, ht.typed hcol, harea, htype.trans (ht.type hcol),
    hrows.trans (ht.rows hschema hcol)⟩
  rw [hcols, List.getElem?_map, hread, Option.map_some]

section Target
variable {om : OutputColumnInfo} {target : ColumnTarget} (hfor : om.IsFor env.plan.readSeqnums target)
  (hreturn : t.Returnable bind input target)
include hfor hreturn

/-- A window that is filled from a target is filled faithfully. -/
theorem fillsFaithfully_written {ty : LogicalType} (hty : t.targetType? target = some ty) {w : ChunkWindow}
    (hw : env.scanEnv.Queued w) : w.FillsFaithfully om ty := by
  obtain ⟨⟨info, hinfo, hblk⟩, -, hle, -⟩ := queued_written hfiles ht hplan hslow hw
  cases om with
  | taeColumn taeColIdx decodedPos =>
      cases target with
      | physical seqnum =>
          obtain ⟨hstride, hfits, -⟩ := hreturn
          obtain ⟨col, d, hcol, hd, hdecoded, htyped, harea, htype, hrows⟩ :=
            window_column hfiles ht hplan hslow hw hfor
          have hwf := wellFormed_written hdecoded htyped harea (hfits _ _ _ hcol)
          refine ⟨d, hd, htype ▸ toOption_eq_some.mp hty, htype ▸ hstride, ?_⟩
          split at hwf
          · next hclass => rwa [if_pos hclass]
          · next hclass =>
              rw [if_neg hclass]
              exact fun r hr => hwf r (by omega)
      | filePath => exact hfor.elim
      | blockId => exact hfor.elim
  | vcolFilename =>
      cases target with
      | filePath => exact (Option.some.inj hty).symm
      | physical seqnum => exact hfor.elim
      | blockId => exact hfor.elim
  | vcolBlockId =>
      cases target with
      | blockId =>
          have hfew : info.blocks ≤ 2 ^ 31 := hreturn info (List.mem_of_getElem? hinfo)
          exact ⟨(Option.some.inj hty).symm, by omega⟩
      | physical seqnum => exact hfor.elim
      | filePath => exact hfor.elim

/-- The slot of a target is clean throughout a call. -/
theorem tidy_written : env.scanEnv.Tidy om := by
  cases om with
  | taeColumn taeColIdx decodedPos =>
      cases target with
      | physical seqnum =>
          obtain ⟨-, -, ⟨hnone, hpos⟩ | hnotNull⟩ := hreturn
          · obtain ⟨sc, hinit, -, -, hfilters⟩ := hplan.columns
            refine Or.inl ⟨hfilters.trans (filters_eq_nil hinit hnone), fun w hw => ?_⟩
            obtain ⟨hhas, -, -, hrows⟩ := queued_written hfiles ht hplan hslow hw
            exact hrows (hpos _ _ hhas)
          · refine Or.inr fun w hw => ?_
            obtain ⟨col, d, hcol, hd, hdecoded, -⟩ := window_column hfiles ht hplan hslow hw hfor
            obtain ⟨hclass, hmarks⟩ := marks_written hdecoded (hnotNull _ _ _ hcol)
            rw [ChunkWindow.isConstant, hd, Option.any_some, decide_eq_false hclass]
            refine ⟨rfl, fun i => ?_⟩
            simp only [ChunkWindow.marks, hd, Option.any_some, if_neg hclass]
            exact hmarks ..
      | filePath => exact hfor.elim
      | blockId => exact hfor.elim
  | vcolFilename => exact Or.inr fun w _ => ⟨rfl, fun _ => rfl⟩
  | vcolBlockId => exact Or.inr fun w _ => ⟨rfl, fun _ => rfl⟩

/-- The cell of a row in its block is the one that was written. -/
theorem ownsCell_written {id : RowId} {cell : Cell} (h : env.scanEnv.OwnsCell om id cell) :
    some cell = t.shown? bind id target := by
  obtain ⟨w, hw, hobj, hblk, ⟨-, hlt⟩, rfl⟩ := h
  obtain ⟨⟨info, hinfo, -⟩, -, hle, -⟩ := queued_written hfiles ht hplan hslow hw
  cases om with
  | taeColumn taeColIdx decodedPos =>
      cases target with
      | physical seqnum =>
          obtain ⟨col, d, hcol, hd, hdecoded, htyped, harea, -, hrows⟩ :=
            window_column hfiles ht hplan hslow hw hfor
          have hrow : id.row < d.rowCount := by omega
          show some ((w.cols[decodedPos]?).bind fun col => col.rowCell id.row) = t.cell? id seqnum
          rw [hd, Option.bind_some, rowCell_written hdecoded htyped harea hrow, TableInput.cell?, ← hobj, ← hblk,
            hcol, Option.map_some]
      | filePath => exact hfor.elim
      | blockId => exact hfor.elim
  | vcolFilename =>
      cases target with
      | filePath =>
          show some ((env.plan.objects[w.objectIdx]?).map _) = (bind.objects[id.objectIdx]?).map _
          rw [hplan.objects, ← hobj, hinfo]
          rfl
      | physical seqnum => exact hfor.elim
      | blockId => exact hfor.elim
  | vcolBlockId =>
      cases target with
      | blockId =>
          show some (some (SqlValue.int w.blockIdx)) = some (some (SqlValue.int id.blockIdx))
          rw [hblk]
      | physical seqnum => exact hfor.elim
      | filePath => exact hfor.elim

end Target

end Returned

/-- **A scan returns what was written.**  The objects of a table are built from their
    values and stored raw or wrapped, compressed or not, and threads scan them in any
    order.  In every state of every run a chunk that has been returned shows, in each
    output slot, the cells that its rows were written with, their paths and the
    numbers of their blocks, when the query has no filter or the column no NULL. -/
theorem written_scan_returns {ι : Type} [DecidableEq ι] {tryGet : ColumnConstantComparison} {bt : BlobText}
    {std : StdSort} {bind : TAEScanBindData} {input : InitInput} {env : FileEnv} {t : TableInput}
    {lz4Compress : List Byte → Option (List Byte)} {compress : Bool} {outputs : ι → DataChunk}
    {c : Config ι ScanShared FileThread ScanLog} (hfiles : FilesWritten env lz4Compress compress t.blocks)
    (ht : t.Ok bind) (hproj : input.ProjectionOk)
    (hplan : InitPlan tryGet bt std bind input env.storage env.plan) (hslow : env.fast = false)
    (hsample : env.plan.doSample = false) {o id : Nat} {target : ColumnTarget} (hslot : input.slotId? o = some id)
    (htarget : bind.target? id = some target) (hreturn : t.Returnable bind input target)
    (houtput : ∀ i, ∃ v, (outputs i).columns[o]? = some v ∧ t.targetType? target = some v.type)
    (h : Reachable env.Step (FileEnv.start outputs) c) {i : ι} {rows : List RowId}
    (hret : (c.threads i).scan.pc = .returned rows) :
    (c.threads i).scan.output.cardinality = rows.length ∧ ∃ v, (c.threads i).scan.output.columns[o]? = some v ∧
      ∀ p row, rows[p]? = some row → some (v.cell p) = t.shown? bind row target := by
  have hrun : Reachable env.scanEnv.Step (env.scanEnv.start outputs) (c.mapThreads FileThread.scan) :=
    env.refines.reachable_map (FileEnv.start_kept outputs) h
  obtain ⟨sc, hinit, hread, hmap, -⟩ := hplan.columns
  obtain ⟨om, hom, hfor⟩ := exists_slot hproj hinit hslot htarget
  rw [← hread] at hfor
  rw [← hmap] at hom
  obtain ⟨v₀, -, hty⟩ := houtput i
  have hslow' : env.scanEnv.fast = false := hslow
  obtain ⟨v, hv, -, hok⟩ := ScanEnv.reachable_hasColumn hslow' hsample
    (tidy_written hfiles ht hplan hslow hfor hreturn)
    (fun w hw => fillsFaithfully_written hfiles ht hplan hslow hfor hreturn hty hw) hom
    (fun j => by
      obtain ⟨u, hu, huty⟩ := houtput j
      exact ⟨u, hu, Option.some.inj (huty.symm.trans hty)⟩) hrun i
  refine ⟨(ScanEnv.reachable_chunkOk hrun i rows hret).2, v, hv, fun p row hrow => ?_⟩
  exact ownsCell_written hfiles ht hplan hslow hfor hreturn (hok.shows rows hret p row hrow)

-- ============================================================================
-- The three rows, without a filter
-- ============================================================================

/-- `SELECT x, filename, block_id`. -/
def allRowsInput : InitInput where
  columnIds := [0, vcolFilename, vcolBlockId]

def allRowsEnv : FileEnv where
  plan := {
    objects := threeRowBind.objects
    outputMap := [.taeColumn 0 0, .vcolFilename, .vcolBlockId]
    readSeqnums := [0]
    filters := []
    workUnits := [⟨0, 0⟩]
    output_read := fun {i taeColIdx decodedPos} h => by
      obtain ⟨rfl, rfl⟩ : 0 = taeColIdx ∧ 0 = decodedPos := by
        rcases i with _ | _ | _ | i <;> cases h
        exact ⟨rfl, rfl⟩
      exact Nat.zero_lt_one
    filters_read := oneColumn_no_filters }
  lz4 := .literal
  access := oneFile threeRowFile 0 4096
  fast := false
  callAgain := false
  fast_only := nofun

def threeOutputs : Unit → DataChunk := fun _ => ⟨[{ type := .integer }, { type := .varchar }, { type := .integer }], 0⟩

theorem allRowsEnv_files : FilesWritten allRowsEnv literalBlock false threeRows.blocks :=
  ⟨threeRows_files.throws, threeRows_files.inverts, threeRows_files.object⟩

theorem threeRows_returnable : threeRows.Returnable threeRowBind allRowsInput (.physical 0) := by
  refine ⟨by decide, fun obj blk col hcol row n _ => ?_, Or.inl ⟨rfl, fun obj blk hblock => ?_⟩⟩
  · obtain ⟨rfl, -⟩ := threeRows_column hcol
    exact ⟨fun h => absurd h (by decide), fun h => absurd h (by decide)⟩
  · obtain ⟨info, block, -, hget, -⟩ := threeRows_ok.block hblock
    rw [TableInput.rows, hget]
    obtain rfl := List.mem_singleton.mp (List.mem_of_getElem? hget)
    exact Nat.succ_pos 2

/-- One thread has returned 7, NULL and 8. -/
theorem written_scan_returns_three :
    ∃ c, Reachable allRowsEnv.Step (FileEnv.start threeOutputs) c ∧
      (c.threads ()).scan.pc = .returned [⟨0, 0, 0⟩, ⟨0, 0, 1⟩, ⟨0, 0, 2⟩] ∧
      (c.threads ()).scan.output.cardinality = 3 ∧ ∃ v, (c.threads ()).scan.output.columns[0]? = some v ∧
        ∀ p row, [RowId.mk 0 0 0, ⟨0, 0, 1⟩, ⟨0, 0, 2⟩][p]? = some row →
          some (v.cell p) = threeRows.shown? threeRowBind row (.physical 0) := by
  have hrun : ((FileEnv.start threeOutputs).run (allRowsEnv.next (fun _ => true) 2) (List.replicate 3 ())).any
      (fun c => (c.threads ()).scan.pc == .returned [⟨0, 0, 0⟩, ⟨0, 0, 1⟩, ⟨0, 0, 2⟩]) = true := by
    decide +kernel
  obtain ⟨c, hc, hret⟩ := (Option.any_eq_true _ _).mp hrun
  have hreach : Reachable allRowsEnv.Step (FileEnv.start threeOutputs) c :=
    Reachable.run (fun _ _ _ _ _ h => FileEnv.step_of_next h) .start hc
  have hrows := beq_iff_eq.mp hret
  have hplan : InitPlan simpleComparison .duckdb insertionStdSort threeRowBind allRowsInput allRowsEnv.storage
      allRowsEnv.plan := ⟨⟨_, rfl, rfl, rfl, rfl⟩, rfl, rfl⟩
  exact ⟨c, hreach, hrows, written_scan_returns allRowsEnv_files threeRows_ok (fun h => absurd rfl h) hplan rfl rfl
    (show allRowsInput.slotId? 0 = some 0 from rfl) (show threeRowBind.target? 0 = some (.physical 0) from rfl)
    threeRows_returnable (fun _ => ⟨_, rfl, rfl⟩) hreach hrows⟩

end TaeScanner
