/-
  TaeScanner.Scan.ProjectionSpec

  The columns of a scan are wired correctly: an output slot shows the column that
  `column_ids` names for it, and a filter is evaluated on the column at its own
  position and pruned with that column's zone maps.

    * the four index spaces meet in the columns `ReadBlock` returns, so a block is
      taken together with the read of its requested columns;
    * a filter refers to its column by the 16 low bits of a decoded position, the
      output slots refer to theirs by the whole position.

  Main results:
    * `filters_tested_iff`: the filters are on their own columns iff the 16 bits
      are enough to find them;
    * `exists_plan`: the columns of Init are those of a scan plan.
-/

import Mathlib.Algebra.Order.BigOperators.Group.List
import TaeScanner.Reader.ReadBlockSpec
import TaeScanner.Scan.Execute
import TaeScanner.Scan.Projection

namespace TaeScanner

open Lib

-- ============================================================================
-- Blocks that are read
-- ============================================================================

/-- A block, and what `ReadBlock` returns of it for the given seqnums. -/
structure BlockRead (seqnums : List Nat) where
  fs : FileSystem
  lz4 : LZ4
  sort : OffsetSort
  gapMax : Nat
  reader : TAEObjectReader
  md : ObjectMeta
  blockIdx : Nat
  blk : BlockInfo
  cols : List DecodedColumn
  throwsPastEnd : fs.ThrowsPastEnd
  ready : reader.Ready
  extentsFit : ∀ blk ∈ md.blocks, blk.ExtentsFit
  blk_eq : md.blocks[blockIdx]? = some blk
  read : (reader.readBlock fs lz4 sort gapMax md blockIdx seqnums).2 = .ok cols

namespace BlockRead
variable {seqnums : List Nat} (b : BlockRead seqnums)

/-- The column that the block stores under a seqnum. -/
def Holds (seqnum : Nat) (col : DecodedColumn) : Prop :=
  b.reader.readColumnAlone b.fs b.lz4 b.blk seqnum = .ok col

theorem Holds.unique {b : BlockRead seqnums} {seqnum : Nat} {col col' : DecodedColumn}
    (h : b.Holds seqnum col) (h' : b.Holds seqnum col') : col = col' :=
  Except.ok.inj (h.symm.trans h')

/-- The columns come back in the order of their seqnums. -/
theorem cols_eq : List.Forall₂ b.Holds seqnums b.cols := by
  have hread := ((readBlock_eq_ok_iff b.throwsPastEnd b.ready b.extentsFit).mp b.read).1
  rw [TAEObjectReader.readBlockAlone] at hread
  rw [b.blk_eq] at hread
  exact mapM_eq_ok.mp hread

/-- The column at a position is the one of the seqnum there. -/
theorem getElem?_cols {i seqnum : Nat} (h : seqnums[i]? = some seqnum) :
    ∃ col, b.Holds seqnum col ∧ b.cols[i]? = some col := by
  obtain ⟨col, hcol, hholds⟩ := getElem?_of_forall₂_left b.cols_eq h
  exact ⟨col, hholds, hcol⟩

/-- A window of the block, which is of some object. -/
def window (objectIdx srcOffset chunkRows : Nat) : ChunkWindow :=
  ⟨b.cols, objectIdx, b.blockIdx, srcOffset, chunkRows⟩

end BlockRead

-- ============================================================================
-- What the ids name
-- ============================================================================

/-- What an id of `column_ids` names. -/
inductive ColumnTarget
  | physical (seqnum : Nat)
  | filePath
  | blockId
  deriving DecidableEq, Repr

/-- `TAEScanGetVirtualColumns` for the virtual columns, the schema for the others. -/
def TAEScanBindData.target? (bind : TAEScanBindData) (id : Nat) : Option ColumnTarget :=
  if id = vcolFilename then some .filePath
  else if id = vcolBlockId then some .blockId
  else if isVirtualColumn id then none
  else (bind.allColSeqnums[id]?).map .physical

/-- What `ParseManifest` ensures of the columns. -/
structure TAEScanBindData.SchemaOk (bind : TAEScanBindData) : Prop where
  moOids_length : bind.allColMoOids.length = bind.allColSeqnums.length
  seqnums_nodup : bind.allColSeqnums.Nodup

/-- `projection_ids` is empty or leaves out some position. -/
def InitInput.ProjectionOk (input : InitInput) : Prop :=
  input.projectionIds ≠ [] → input.projectionIds.length < input.columnIds.length

/-- The id that an output slot is about. -/
def InitInput.slotId? (input : InitInput) (o : Nat) : Option Nat :=
  if input.projectionIds = [] then input.columnIds[o]?
  else (input.projectionIds[o]?).bind fun ci => input.columnIds[ci]?

/-- The seqnum and type of the table column at a position in `column_ids`. -/
def InitInput.tableColumn? (input : InitInput) (bind : TAEScanBindData) (ci : Nat) :
    Option (Nat × Byte) :=
  (input.columnIds[ci]?).bind fun id =>
    if isVirtualColumn id then none
    else (bind.allColSeqnums[id]?).bind fun seqnum => (bind.allColMoOids[id]?).map (seqnum, ·)

-- ============================================================================
-- Correct wiring
-- ============================================================================

/-- A slot shows its target: the rows of the window of the physical column, the
    path of the object, or the number of the block. -/
def BlockRead.Shows {seqnums : List Nat} (b : BlockRead seqnums) (objects : List TAEObjectInfo)
    (objectIdx srcOffset chunkRows : Nat) (v : DuckVector) (shown : Option DuckVector) :
    ColumnTarget → Prop
  | .physical seqnum => ∃ col, b.Holds seqnum col ∧ shown = fillColumn v col chunkRows srcOffset
  | .filePath => shown = (objects[objectIdx]?).map fun info =>
      v.fillStrings chunkRows (pathBytes info.filePath)
  | .blockId => shown = some (v.fillInt32 chunkRows b.blockIdx)

section Wired
variable (tryGet : ColumnConstantComparison) (bt : BlobText) (bind : TAEScanBindData)
  (input : InitInput) (sc : ScanColumns)

/-- Each output slot shows the column its id names, in every window of every block. -/
def OutputWired : Prop :=
  ∀ o id target, input.slotId? o = some id → bind.target? id = some target →
    ∃ om, sc.outputMap[o]? = some om ∧
      ∀ (b : BlockRead sc.readSeqnums) (plan : ScanPlan), plan.objects = bind.objects →
        ∀ objectIdx srcOffset chunkRows v,
          b.Shows bind.objects objectIdx srcOffset chunkRows v
            (plan.fillSlot (b.window objectIdx srcOffset chunkRows) om v) target

/-- The filters of one entry: none at the position of a virtual column, otherwise
    those of its expression on the table column there, pruned with its zone maps. -/
def EntryFilters (entry : Nat × Expr) (group : List PushedFilter) : Prop :=
  match input.tableColumn? bind entry.1 with
  | none => group = []
  | some (seqnum, moOid) =>
      (∃ colIdx, extractFilter tryGet bt colIdx seqnum moOid entry.2 [] = .ok group) ∧
        ∀ pf ∈ group, pf.seqnum = seqnum

/-- In every block a filter is evaluated on the column whose zone maps it is pruned
    with. -/
def FilterTested (pf : PushedFilter) : Prop :=
  ∀ b : BlockRead sc.readSeqnums, ∃ col, b.Holds pf.seqnum col ∧ b.cols[pf.colIdx]? = some col

/-- Output slots and filters are on their own columns. -/
structure Wired : Prop where
  slots : sc.outputMap.length =
    (if input.projectionIds = [] then input.columnIds else input.projectionIds).length
  output : OutputWired bind input sc
  entries : ∃ groups, sc.filters = groups.flatten ∧
    List.Forall₂ (EntryFilters tryGet bt bind input) input.filters groups
  tested : ∀ pf ∈ sc.filters, FilterTested sc pf

/-- The 16 low bits of the decoded position of a filtered column find that column. -/
def FilterPositionsFit : Prop :=
  ∀ entry ∈ input.filters, ∀ id, input.columnIds[entry.1]? = some id → isTableColumn id = true →
    entry.2.atoms ≠ [] → input.tableIds[input.tableRank entry.1 % 2 ^ 16]? = some id

end Wired

-- ============================================================================
-- The output slots
-- ============================================================================

section Init
variable {tryGet : ColumnConstantComparison} {bt : BlobText} {bind : TAEScanBindData} {input : InitInput}
  {sc : ScanColumns} {d : DecodedPositions}

/-- The three phases of a successful Init. -/
theorem initColumns_eq_ok (h : initColumns tryGet bt bind input = .ok sc) :
    ∃ d, decodedPositions bind input.columnIds = .ok d ∧ sc.readSeqnums = d.readSeqnums ∧
      input.outputPositions.mapM (outputColumn d input.columnIds) = .ok sc.outputMap ∧
      input.filters.foldlM (pushFilter tryGet bt bind d input.columnIds) [] = .ok sc.filters := by
  obtain ⟨d, hd, h⟩ := bind_eq_ok.mp h
  obtain ⟨outputMap, hmap, h⟩ := bind_eq_ok.mp h
  obtain ⟨filters, hfilters, h⟩ := bind_eq_ok.mp h
  obtain rfl := Except.ok.inj h
  exact ⟨d, hd, rfl, hmap, hfilters⟩

/-- The positions of the output slots are those the slots are about. -/
theorem outputPositions_eq (hproj : input.ProjectionOk) :
    input.outputPositions =
      if input.projectionIds = [] then List.range input.columnIds.length else input.projectionIds := by
  rw [InitInput.outputPositions, InitInput.hasProj]
  by_cases hnil : input.projectionIds = []
  · simp [hnil]
  · simp [hnil, hproj hnil]

theorem slotId?_position (hproj : input.ProjectionOk) {o id : Nat} (h : input.slotId? o = some id) :
    ∃ ci, input.outputPositions[o]? = some ci ∧ input.columnIds[ci]? = some id := by
  rw [outputPositions_eq hproj]
  rw [InitInput.slotId?] at h
  split at h
  · next hnil =>
      obtain ⟨ho, -⟩ := List.getElem?_eq_some_iff.mp h
      exact ⟨o, by rw [if_pos hnil, List.getElem?_range ho], h⟩
  · next hnil =>
      obtain ⟨ci, hci, hid⟩ := Option.bind_eq_some_iff.mp h
      exact ⟨ci, by rw [if_neg hnil, hci], hid⟩

/-- A column of the schema is read at its decoded position. -/
theorem DecodedPositions.Records.readSeqnum (h : d.Records bind input.columnIds) {ci id : Nat}
    (hid : input.columnIds[ci]? = some id) (htable : isTableColumn id = true) :
    d.decodedPos? ci = some (input.tableRank ci) ∧
      ∃ seqnum, bind.HasSeqnum id seqnum ∧ d.readSeqnums[input.tableRank ci]? = some seqnum := by
  obtain ⟨seqnum, hread, hseqnum⟩ :=
    getElem?_of_forall₂_left h.seqnums (getElem?_filter_countP hid htable)
  refine ⟨?_, seqnum, hseqnum, hread⟩
  rw [h.decodedPos hid, isTableColumn_iff.mp htable, if_neg Bool.false_ne_true]
  rfl

/-- An output slot shows what its id names. -/
theorem outputColumn_shows (hd : d.Records bind input.columnIds) {ci id : Nat} {om : OutputColumnInfo}
    {target : ColumnTarget} (hid : input.columnIds[ci]? = some id) (htarget : bind.target? id = some target)
    (hom : outputColumn d input.columnIds ci = .ok om) (b : BlockRead d.readSeqnums) {plan : ScanPlan}
    (hobjects : plan.objects = bind.objects) (objectIdx srcOffset chunkRows : Nat) (v : DuckVector) :
    b.Shows bind.objects objectIdx srcOffset chunkRows v
      (plan.fillSlot (b.window objectIdx srcOffset chunkRows) om v) target := by
  rw [outputColumn] at hom
  rw [TAEScanBindData.target?] at htarget
  simp only [hid] at hom
  by_cases hfile : id = vcolFilename
  · rw [if_pos hfile] at hom htarget
    obtain rfl := Except.ok.inj hom
    obtain rfl := Option.some.inj htarget
    show (plan.objects[objectIdx]?).map _ = _
    rw [hobjects]
    rfl
  · rw [if_neg hfile] at hom htarget
    by_cases hblock : id = vcolBlockId
    · rw [if_pos hblock] at hom htarget
      obtain rfl := Except.ok.inj hom
      obtain rfl := Option.some.inj htarget
      rfl
    · rw [if_neg hblock] at hom htarget
      cases hvirtual : isVirtualColumn id with
      | true =>
          rw [hvirtual, if_pos rfl] at htarget
          cases htarget
      | false =>
          rw [hvirtual, if_neg Bool.false_ne_true] at hom htarget
          obtain ⟨hpos, seqnum, hseqnum, hread⟩ := hd.readSeqnum hid (isTableColumn_iff.mpr hvirtual)
          rw [hpos, Option.getD_some] at hom
          obtain rfl := Except.ok.inj hom
          rw [hseqnum, Option.map_some] at htarget
          obtain rfl := Option.some.inj htarget
          obtain ⟨col, hholds, hcol⟩ := b.getElem?_cols hread
          refine ⟨col, hholds, ?_⟩
          rw [ScanPlan.fillSlot, BlockRead.window]
          simp only [hcol]

/-- Every output slot is on the column of its id. -/
theorem outputWired (hproj : input.ProjectionOk) (h : initColumns tryGet bt bind input = .ok sc) :
    OutputWired bind input sc := by
  intro o id target hslot htarget
  obtain ⟨d, hd, hread, hmap, -⟩ := initColumns_eq_ok h
  obtain ⟨ci, hci, hid⟩ := slotId?_position hproj hslot
  obtain ⟨om, hom, hcolumn⟩ := getElem?_of_forall₂_left (mapM_eq_ok.mp hmap) hci
  refine ⟨om, hom, ?_⟩
  rw [hread]
  intro b plan hobjects objectIdx srcOffset chunkRows v
  exact outputColumn_shows (DecodedPositions.records hd) hid htarget hcolumn b hobjects _ _ _ v

theorem outputMap_length (hproj : input.ProjectionOk) (h : initColumns tryGet bt bind input = .ok sc) :
    sc.outputMap.length =
      (if input.projectionIds = [] then input.columnIds else input.projectionIds).length := by
  obtain ⟨d, -, -, hmap, -⟩ := initColumns_eq_ok h
  rw [← (mapM_eq_ok.mp hmap).length_eq, outputPositions_eq hproj]
  split
  · exact List.length_range
  · rfl

-- ============================================================================
-- The filters
-- ============================================================================

/-- The filters that Init extracts for one entry. -/
def Pushed (tryGet : ColumnConstantComparison) (bt : BlobText) (bind : TAEScanBindData)
    (input : InitInput) (entry : Nat × Expr) (group : List PushedFilter) : Prop :=
  match input.tableColumn? bind entry.1 with
  | none => group = []
  | some (seqnum, moOid) => supportsFilterExpression tryGet entry.2 = true ∧
      List.Forall₂ (fun a pf =>
        atomFilter tryGet bt (input.tableRank entry.1 % 2 ^ 16) seqnum moOid a = .ok pf)
        entry.2.atoms group

/-- The step lemma of phase 3. -/
theorem pushFilter_eq_ok (hd : d.Records bind input.columnIds) {out out' : List PushedFilter}
    {entry : Nat × Expr} :
    pushFilter tryGet bt bind d input.columnIds out entry = .ok out' ↔
      ∃ group, Pushed tryGet bt bind input entry group ∧ out' = out ++ group := by
  have hskip : (Except.ok out : Except String (List PushedFilter)) = .ok out' ↔
      ∃ group, group = [] ∧ out' = out ++ group := by
    constructor
    · intro h
      exact ⟨[], rfl, by rw [List.append_nil, Except.ok.inj h]⟩
    · rintro ⟨group, rfl, rfl⟩
      rw [List.append_nil]
  unfold pushFilter Pushed InitInput.tableColumn?
  cases hid : input.columnIds[entry.1]? with
  | none => exact hskip
  | some id =>
      simp only [Option.bind_some]
      cases hvirtual : isVirtualColumn id with
      | true => exact hskip
      | false =>
          obtain ⟨hpos, seqnum, hseqnum, -⟩ := hd.readSeqnum hid (isTableColumn_iff.mpr hvirtual)
          rw [TAEScanBindData.HasSeqnum] at hseqnum
          simp only [Bool.false_eq_true, if_false, hpos, hseqnum, Option.bind_some]
          cases bind.allColMoOids[id]? with
          | none => exact hskip
          | some moOid =>
              simp only [Option.map_some, extractFilter_eq_ok, and_assoc, exists_and_left]

/-- The filters of Init are those of its entries, in order. -/
theorem filters_pushed (h : initColumns tryGet bt bind input = .ok sc) :
    ∃ groups, sc.filters = groups.flatten ∧
      List.Forall₂ (Pushed tryGet bt bind input) input.filters groups := by
  obtain ⟨d, hd, -, -, hfilters⟩ := initColumns_eq_ok h
  refine foldlM_invariant (fun done out => ∃ groups : List (List PushedFilter), out = groups.flatten ∧
    List.Forall₂ (Pushed tryGet bt bind input) done groups) ?_ ?_ hfilters
  · exact ⟨[], rfl, .nil⟩
  · rintro done entry out out' ⟨groups, rfl, hgroups⟩ hpush
    obtain ⟨group, hgroup, rfl⟩ := (pushFilter_eq_ok (DecodedPositions.records hd)).mp hpush
    refine ⟨groups ++ [group], ?_, List.rel_append hgroups (.cons hgroup .nil)⟩
    rw [List.flatten_append, List.flatten_singleton]

/-- The filters of an entry are on the table column at its position, which they look
    for at the 16 low bits of its decoded position. -/
theorem Pushed.column {entry : Nat × Expr} {group : List PushedFilter}
    (h : Pushed tryGet bt bind input entry group) {pf : PushedFilter} (hpf : pf ∈ group) :
    ∃ moOid, input.tableColumn? bind entry.1 = some (pf.seqnum, moOid) ∧ entry.2.atoms ≠ [] ∧
      pf.colIdx = input.tableRank entry.1 % 2 ^ 16 := by
  rw [Pushed] at h
  cases hcol : input.tableColumn? bind entry.1 with
  | none =>
      rw [hcol] at h
      rw [h] at hpf
      cases hpf
  | some col =>
      rw [hcol] at h
      obtain ⟨i, hi, rfl⟩ := List.getElem_of_mem hpf
      obtain ⟨a, ha, hatom⟩ := getElem?_of_forall₂ h.2 (List.getElem?_eq_getElem hi)
      obtain ⟨hidx, hseqnum, -⟩ := atomFilter_column _ _ _ _ _ hatom
      refine ⟨col.2, by rw [hseqnum], List.ne_nil_of_mem (List.mem_of_getElem? ha), hidx⟩

/-- Which filters belong to an entry, and which column they are pruned with. -/
theorem Pushed.entryFilters {entry : Nat × Expr} {group : List PushedFilter}
    (h : Pushed tryGet bt bind input entry group) : EntryFilters tryGet bt bind input entry group := by
  have hcolumn := fun pf (hpf : pf ∈ group) => h.column hpf
  rw [EntryFilters]
  rw [Pushed] at h
  cases hcol : input.tableColumn? bind entry.1 with
  | none =>
      rw [hcol] at h
      exact h
  | some col =>
      rw [hcol] at h
      refine ⟨⟨_, (extractFilter_eq_ok _ _ _ _ _).mpr ⟨h.1, group, h.2, rfl⟩⟩, fun pf hpf => ?_⟩
      obtain ⟨moOid, hpair, -⟩ := hcolumn pf hpf
      exact congrArg Prod.fst (Option.some.inj (hpair.symm.trans hcol))

/-- A table column with its seqnum and type. -/
theorem tableColumn?_eq_some {ci seqnum : Nat} {moOid : Byte} :
    input.tableColumn? bind ci = some (seqnum, moOid) ↔
      ∃ id, input.columnIds[ci]? = some id ∧ isTableColumn id = true ∧ bind.HasSeqnum id seqnum ∧
        bind.allColMoOids[id]? = some moOid := by
  unfold InitInput.tableColumn? TAEScanBindData.HasSeqnum
  rw [Option.bind_eq_some_iff]
  refine exists_congr fun id => and_congr_right fun _ => ?_
  cases hvirtual : isVirtualColumn id with
  | true => simp [isTableColumn, hvirtual]
  | false => simp [isTableColumn, hvirtual, Option.bind_eq_some_iff]

/-- A logical column of the schema is found by its seqnum. -/
theorem TAEScanBindData.SchemaOk.id_unique (h : bind.SchemaOk) {id id' seqnum : Nat}
    (hid : bind.HasSeqnum id seqnum) (hid' : bind.HasSeqnum id' seqnum) : id = id' := by
  obtain ⟨hlt, hget⟩ := List.getElem?_eq_some_iff.mp hid
  obtain ⟨hlt', hget'⟩ := List.getElem?_eq_some_iff.mp hid'
  exact (List.Nodup.getElem_inj_iff h.seqnums_nodup).mp (hget.trans hget'.symm)

/-- The filters find their own columns iff the 16 low bits do. -/
theorem filters_find_iff (hschema : bind.SchemaOk) (h : initColumns tryGet bt bind input = .ok sc) :
    (∀ pf ∈ sc.filters, sc.readSeqnums[pf.colIdx]? = some pf.seqnum) ↔ FilterPositionsFit input := by
  obtain ⟨d, hd, hread, -, -⟩ := initColumns_eq_ok h
  have hseqnums : List.Forall₂ bind.HasSeqnum input.tableIds sc.readSeqnums :=
    hread ▸ (DecodedPositions.records hd).seqnums
  obtain ⟨groups, hfilters, hgroups⟩ := filters_pushed h
  constructor
  · intro hfind entry hentry id hid htable hatoms
    -- the entry has a filter, which knows both the position and the seqnum
    obtain ⟨i, hi, rfl⟩ := List.getElem_of_mem hentry
    obtain ⟨group, hgroup, hpushed⟩ := getElem?_of_forall₂_left hgroups (List.getElem?_eq_getElem hi)
    obtain ⟨rank, hrank, hseqnum⟩ :=
      getElem?_of_forall₂_left hseqnums (getElem?_filter_countP hid htable)
    have hlt : id < bind.allColMoOids.length := by
      rw [hschema.moOids_length]
      exact (List.getElem?_eq_some_iff.mp hseqnum).1
    have hcol := tableColumn?_eq_some.mpr ⟨id, hid, htable, hseqnum, List.getElem?_eq_getElem hlt⟩
    obtain ⟨pf, hpf⟩ : ∃ pf, pf ∈ group := by
      have hfound := hpushed
      rw [Pushed] at hfound
      rw [hcol] at hfound
      refine List.exists_mem_of_ne_nil group fun hnil => hatoms ?_
      rw [hnil] at hfound
      exact List.forall₂_nil_right_iff.mp hfound.2
    obtain ⟨moOid, hown, -, hidx⟩ := hpushed.column hpf
    have hmem : pf ∈ sc.filters := by
      rw [hfilters]
      exact List.mem_flatten.mpr ⟨group, List.mem_of_getElem? hgroup, hpf⟩
    have hpos := hfind pf hmem
    rw [hidx] at hpos
    obtain ⟨id', hid', hseqnum'⟩ := getElem?_of_forall₂ hseqnums hpos
    rw [hid']
    have heq := congrArg Prod.fst (Option.some.inj (hown.symm.trans hcol))
    simp only at heq
    rw [heq] at hseqnum'
    rw [hschema.id_unique hseqnum' hseqnum]
  · intro hfit pf hpf
    rw [hfilters] at hpf
    obtain ⟨group, hgroup, hpf⟩ := List.mem_flatten.mp hpf
    obtain ⟨i, hi, rfl⟩ := List.getElem_of_mem hgroup
    obtain ⟨entry, hentry, hpushed⟩ := getElem?_of_forall₂ hgroups (List.getElem?_eq_getElem hi)
    obtain ⟨moOid, hcol, hatoms, hidx⟩ := hpushed.column hpf
    obtain ⟨id, hid, htable, hseqnum, -⟩ := tableColumn?_eq_some.mp hcol
    have hown := hfit entry (List.mem_of_getElem? hentry) id hid htable hatoms
    obtain ⟨seqnum, hpos, hseqnum'⟩ := getElem?_of_forall₂_left hseqnums hown
    rw [hidx, hpos, ← hseqnum, hseqnum']

end Init

-- ============================================================================
-- A block that tells one column from the others
-- ============================================================================

/-- A stored vector of one value. -/
def markedValue (mark : Byte) : List Byte :=
  [2, 0, 1, 0] ++ ({ oneValue with data := [mark, 0, 0, 0] } : VectorSections).layout

/-- A reader of a file with two values. -/
def markedReader : TAEObjectReader where
  file := bareHeader ++ (markedValue 0 ++ markedValue 1)
  prefetchThreshold := 0
  formatDetected := true

/-- A block of `n` columns, of which only that of `seqnum` holds the first value. -/
def markedBlock (n seqnum : Nat) : BlockInfo where
  rows := 1
  columns := (List.range n).map fun i =>
    { location := if i = seqnum then ⟨0, 64, 42, 42⟩ else ⟨0, 106, 42, 42⟩, zoneMap := .zero }

section Marked
variable {n seqnum seq : Nat} {mark : Byte}

theorem decodeColumn_markedValue {ext : Extent} (h : ext.isCompressed = false) :
    ∃ col, decodeColumn .refusing ext (markedValue mark) = .ok col ∧ col.data = [mark, 0, 0, 0] := by
  have hfits : ({ oneValue with data := [mark, 0, 0, 0] } : VectorSections).Fits :=
    ⟨rfl, show 1 < 2 ^ 32 by decide, show 4 < 2 ^ 32 by decide, show 0 < 2 ^ 32 by decide,
      show 0 < 2 ^ 32 by decide⟩
  have hdecode := decodeVector_layout hfits [] decodeNulls_nil
  rw [List.append_nil] at hdecode
  rw [markedValue, decodeColumn_plain h rfl rfl, hdecode]
  exact ⟨_, rfl, rfl⟩

theorem markedReader_ready : markedReader.Ready := by
  have hlen : markedReader.file.length = 148 := rfl
  exact ⟨rfl, by rw [hlen]; decide, Or.inl rfl⟩

theorem markedBlock_extentsFit : (markedBlock n seqnum).ExtentsFit := by
  intro col hcol
  obtain ⟨i, -, rfl⟩ := List.mem_map.mp hcol
  simp only
  split
  · exact ⟨by decide, by decide⟩
  · exact ⟨by decide, by decide⟩

/-- The columns of the block, by their marks. -/
theorem markedBlock_column (h : seq < n) : ∃ col, markedReader.readColumnAlone .positional .refusing
    (markedBlock n seqnum) seq = .ok col ∧ col.data = [if seq = seqnum then 0 else 1, 0, 0, 0] := by
  have hcol : (markedBlock n seqnum).columns[seq]? = some
      { location := if seq = seqnum then ⟨0, 64, 42, 42⟩ else ⟨0, 106, 42, 42⟩, zoneMap := .zero } := by
    simp [markedBlock, h]
  suffices hstores : ∃ col, Stores .refusing markedReader.content
      (if seq = seqnum then ⟨0, 64, 42, 42⟩ else ⟨0, 106, 42, 42⟩) col ∧
        col.data = [if seq = seqnum then 0 else 1, 0, 0, 0] by
    obtain ⟨col, hstores, hdata⟩ := hstores
    refine ⟨col, (readColumnAlone_eq_ok FileSystem.positional_throwsPastEnd markedReader_ready
      markedBlock_extentsFit).mpr ⟨_, hcol, hstores⟩, hdata⟩
  split
  · have hplain : (⟨0, 64, 42, 42⟩ : Extent).isCompressed = false := rfl
    obtain ⟨col, hdecode, hdata⟩ := decodeColumn_markedValue hplain
    exact ⟨col, ⟨markedValue 0, slice?_part rfl rfl, hdecode⟩, hdata⟩
  · have hplain : (⟨0, 106, 42, 42⟩ : Extent).isCompressed = false := rfl
    obtain ⟨col, hdecode, hdata⟩ := decodeColumn_markedValue hplain
    have hlast : slice? (bareHeader ++ markedValue 0 ++ markedValue 1) 106 42 = some (markedValue 1) :=
      slice?_suffix rfl rfl
    rw [List.append_assoc] at hlast
    exact ⟨col, ⟨markedValue 1, hlast, hdecode⟩, hdata⟩

/-- Short extents are read in short ranges. -/
theorem markedBlock_shortRanges {gapMax : Nat} {seqnums : List Nat} :
    (markedBlock n seqnum).ShortRanges gapMax seqnums := by
  intro reqs hreqs
  refine short_of_stop_lt fun req hreq => ?_
  obtain ⟨-, col, hcol, hoff, hlen⟩ := request_mem hreqs hreq
  obtain ⟨i, -, rfl⟩ := List.mem_map.mp (List.mem_of_getElem? hcol)
  rw [ReadReq.stop, hoff, hlen]
  simp only
  split
  · decide
  · decide

/-- Whatever columns are read, some block tells that of `seqnum` from the others. -/
theorem exists_marked_blockRead (seqnums : List Nat) (seqnum : Nat) : ∃ b : BlockRead seqnums,
    ∀ seq ∈ seqnum :: seqnums, ∀ col, b.Holds seq col →
      col.data = [if seq = seqnum then 0 else 1, 0, 0, 0] := by
  let blk := markedBlock ((seqnum :: seqnums).sum + 1) seqnum
  have hcolumn : ∀ seq ∈ seqnum :: seqnums,
      ∃ col, markedReader.readColumnAlone .positional .refusing blk seq = .ok col ∧
        col.data = [if seq = seqnum then 0 else 1, 0, 0, 0] := fun seq hseq =>
    markedBlock_column (Nat.lt_succ_of_le (List.le_sum_of_mem hseq))
  obtain ⟨cols, hcols⟩ := exists_mapM_ok.mpr fun seq hseq =>
    (hcolumn seq (List.mem_cons_of_mem seqnum hseq)).imp fun _ h => h.1
  have hfit : ∀ blk' ∈ (ObjectMeta.mk [blk]).blocks, blk'.ExtentsFit := by
    intro blk' hblk
    obtain rfl := List.mem_singleton.mp hblk
    exact markedBlock_extentsFit
  have hread : (markedReader.readBlock .positional .refusing .merge 0 ⟨[blk]⟩ 0 seqnums).2 = .ok cols := by
    refine (readBlock_eq_ok_iff FileSystem.positional_throwsPastEnd markedReader_ready hfit).mpr
      ⟨hcols, fun blk' hblk => ?_⟩
    obtain rfl := Option.some.inj hblk
    exact markedBlock_shortRanges
  refine ⟨⟨_, _, _, _, _, _, _, blk, cols, FileSystem.positional_throwsPastEnd, markedReader_ready, hfit,
    rfl, hread⟩, fun seq hseq col hholds => ?_⟩
  obtain ⟨col', hcol', hdata⟩ := hcolumn seq hseq
  rw [← hdata]
  exact congrArg DecodedColumn.data (Except.ok.inj (hholds.symm.trans hcol'))

end Marked

-- ============================================================================
-- Main results
-- ============================================================================

section Init
variable {tryGet : ColumnConstantComparison} {bt : BlobText} {bind : TAEScanBindData} {input : InitInput}
  {sc : ScanColumns}

/-- A filter is evaluated on its own column in every block iff it finds its seqnum
    among those that are read. -/
theorem filterTested_iff {pf : PushedFilter} :
    FilterTested sc pf ↔ sc.readSeqnums[pf.colIdx]? = some pf.seqnum := by
  constructor
  · intro htested
    obtain ⟨b, hmarked⟩ := exists_marked_blockRead sc.readSeqnums pf.seqnum
    obtain ⟨col, hown, hcol⟩ := htested b
    obtain ⟨seqnum, hseqnum, hholds⟩ := getElem?_of_forall₂ b.cols_eq hcol
    have hmark := hmarked pf.seqnum List.mem_cons_self col hown
    have hmark' := hmarked seqnum (List.mem_cons_of_mem _ (List.mem_of_getElem? hseqnum)) col hholds
    rw [if_pos rfl] at hmark
    rw [hmark] at hmark'
    rw [hseqnum]
    by_contra hne
    rw [if_neg fun heq => hne (congrArg some heq)] at hmark'
    exact absurd hmark' (by decide)
  · exact fun h b => b.getElem?_cols h

/-- Filters that are tested on their own columns pass a row iff each of them does. -/
theorem rowPassesFilters_tested (h : ∀ pf ∈ sc.filters, FilterTested sc pf)
    (b : BlockRead sc.readSeqnums) (row : Nat) :
    rowPassesFilters sc.filters b.cols row = some true ↔
      ∀ pf ∈ sc.filters, ∃ col, b.Holds pf.seqnum col ∧ rowPassesFilter pf col row = some true := by
  rw [rowPassesFilters]
  rw [allM_eq_true]
  refine forall₂_congr fun pf hpf => ?_
  obtain ⟨col, hholds, hcol⟩ := h pf hpf b
  rw [hcol]
  exact ⟨fun hpass => ⟨col, hholds, hpass⟩, fun ⟨col', hholds', hpass⟩ => hholds.unique hholds' ▸ hpass⟩

/-- Up to 2^16 columns the 16 bits are the whole position. -/
theorem filterPositionsFit_of_short (h : input.tableIds.length ≤ 2 ^ 16) : FilterPositionsFit input := by
  intro entry _ id hid htable _
  have hown : input.tableIds[input.tableRank entry.1]? = some id := getElem?_filter_countP hid htable
  have hlt := (List.getElem?_eq_some_iff.mp hown).1
  rwa [Nat.mod_eq_of_lt (Nat.lt_of_lt_of_le hlt h)]

/-- Init accepts columns of the schema and expressions that can be extracted. -/
theorem exists_initColumns (hids : ∀ id ∈ input.tableIds, id < bind.allColSeqnums.length)
    (hpositions : ∀ ci ∈ input.projectionIds, ci < input.columnIds.length)
    (hfilters : ∀ entry ∈ input.filters, ∀ colIdx seqnum moOid out,
      ∃ out', extractFilter tryGet bt colIdx seqnum moOid entry.2 out = .ok out') :
    ∃ sc, initColumns tryGet bt bind input = .ok sc := by
  obtain ⟨d, hd⟩ := DecodedPositions.exists_ok fun id hid htable =>
    hids id (List.mem_filter.mpr ⟨hid, htable⟩)
  obtain ⟨outputMap, hmap⟩ : ∃ om, input.outputPositions.mapM (outputColumn d input.columnIds)
      = .ok om := by
    refine exists_mapM_ok.mpr fun ci hci => ?_
    have hlt : ci < input.columnIds.length := by
      rw [InitInput.outputPositions] at hci
      split at hci
      · exact hpositions ci hci
      · exact List.mem_range.mp hci
    rw [outputColumn]
    rw [List.getElem?_eq_getElem hlt]
    simp only
    split
    · exact ⟨_, rfl⟩
    · split
      · exact ⟨_, rfl⟩
      · split
        · exact ⟨_, rfl⟩
        · exact ⟨_, rfl⟩
  obtain ⟨filters, hpush⟩ : ∃ filters,
      input.filters.foldlM (pushFilter tryGet bt bind d input.columnIds) [] = .ok filters := by
    refine exists_foldlM_ok fun entry hentry out => ?_
    rw [pushFilter]
    split
    · exact ⟨out, rfl⟩
    · split
      · exact ⟨out, rfl⟩
      · split
        · exact hfilters entry hentry _ _ _ out
        · exact ⟨out, rfl⟩
  refine ⟨⟨d.readSeqnums, outputMap, filters⟩, ?_⟩
  rw [initColumns]
  rw [hd, ok_bind, hmap, ok_bind, hpush]
  rfl

/-- An output slot refers to a column that is read. -/
theorem output_read (h : initColumns tryGet bt bind input = .ok sc) {i taeColIdx decodedPos : Nat}
    (hom : sc.outputMap[i]? = some (.taeColumn taeColIdx decodedPos)) :
    decodedPos < sc.readSeqnums.length := by
  obtain ⟨d, hd, hread, hmap, -⟩ := initColumns_eq_ok h
  obtain ⟨ci, -, hcolumn⟩ := getElem?_of_forall₂ (mapM_eq_ok.mp hmap) hom
  rw [outputColumn] at hcolumn
  cases hid : input.columnIds[ci]? with
  | none =>
      rw [hid] at hcolumn
      cases hcolumn
  | some id =>
      simp only [hid] at hcolumn
      split at hcolumn
      · cases hcolumn
      · split at hcolumn
        · cases hcolumn
        · split at hcolumn
          · cases hcolumn
          · next hvirtual =>
              have htable := isTableColumn_iff.mpr (Bool.eq_false_iff.mpr hvirtual)
              obtain ⟨hpos, seqnum, -, hseqnum⟩ := (DecodedPositions.records hd).readSeqnum hid htable
              rw [hpos, Option.getD_some] at hcolumn
              obtain ⟨-, rfl⟩ := OutputColumnInfo.taeColumn.inj (Except.ok.inj hcolumn)
              rw [hread]
              exact (List.getElem?_eq_some_iff.mp hseqnum).1

/-- Columns that Init wires correctly are those of a scan plan. -/
theorem exists_plan (hschema : bind.SchemaOk) (h : initColumns tryGet bt bind input = .ok sc)
    (hfit : FilterPositionsFit input) (doSample : Bool) (workUnits : List WorkUnit) :
    ∃ plan : ScanPlan, plan.objects = bind.objects ∧ plan.outputMap = sc.outputMap ∧
      plan.readSeqnums = sc.readSeqnums ∧ plan.filters = sc.filters ∧ plan.doSample = doSample ∧
      plan.workUnits = workUnits :=
  ⟨{ objects := bind.objects
     outputMap := sc.outputMap
     readSeqnums := sc.readSeqnums
     filters := sc.filters
     doSample := doSample
     workUnits := workUnits
     output_read := fun hom => output_read h hom
     filters_read := (filters_find_iff hschema h).mpr hfit }, rfl, rfl, rfl, rfl, rfl, rfl⟩

end Init

/-- Init wires output slots and filters to their own columns iff every filter finds
    its column at the 16 low bits of its decoded position. -/
theorem initColumns_wired_iff (tryGet : ColumnConstantComparison) (bt : BlobText)
    (bind : TAEScanBindData) (input : InitInput) (sc : ScanColumns) (hschema : bind.SchemaOk)
    (hproj : input.ProjectionOk) (h : initColumns tryGet bt bind input = .ok sc) :
    Wired tryGet bt bind input sc ↔ FilterPositionsFit input := by
  rw [← filters_find_iff hschema h]
  constructor
  · exact fun hwired pf hpf => filterTested_iff.mp (hwired.tested pf hpf)
  · intro hfind
    obtain ⟨groups, hfilters, hgroups⟩ := filters_pushed h
    refine ⟨outputMap_length hproj h, outputWired hproj h, ⟨groups, hfilters, ?_⟩, fun pf hpf => ?_⟩
    · exact hgroups.imp fun _ _ hpushed => hpushed.entryFilters
    · exact filterTested_iff.mpr (hfind pf hpf)

-- ============================================================================
-- Two columns
-- ============================================================================

/-- A schema of two INTEGER columns, stored under the seqnums 5 and 3. -/
def twoColumnBind : TAEScanBindData where
  allColTypes := [.integer, .integer]
  allColMoOids := [22, 22]
  allColSeqnums := [5, 3]
  objects := []

theorem twoColumnBind_schemaOk : twoColumnBind.SchemaOk := ⟨rfl, by decide⟩

/-- `x IS NULL`. -/
def isNullFilter : Expr := .operator .isNull [.columnRef]

theorem isNullFilter_extracts (colIdx seqnum : Nat) (moOid : Byte) (out : List PushedFilter) :
    ∃ out', extractFilter simpleComparison .duckdb colIdx seqnum moOid isNullFilter out = .ok out' :=
  ⟨_, rfl⟩

/-- Both columns and the file path are asked for, in another order, and the path and
    one of them are shown. -/
def reorderedInput : InitInput where
  columnIds := [1, vcolFilename, 0]
  projectionIds := [2, 1]
  filters := [(0, isNullFilter)]

theorem reordered_wired : ∃ sc,
    initColumns simpleComparison .duckdb twoColumnBind reorderedInput = .ok sc ∧
      sc.readSeqnums = [3, 5] ∧ Wired simpleComparison .duckdb twoColumnBind reorderedInput sc := by
  refine ⟨_, rfl, rfl, (initColumns_wired_iff _ _ _ _ _ twoColumnBind_schemaOk ?_ rfl).mpr ?_⟩
  · exact fun _ => show 2 < 3 by decide
  · exact filterPositionsFit_of_short (by decide)

/-- The first column 2^16 times, then the second one, which is filtered. -/
def wideInput : InitInput where
  columnIds := List.replicate (2 ^ 16) 0 ++ [1]
  filters := [(2 ^ 16, isNullFilter)]

theorem wideInput_tableIds : wideInput.tableIds = List.replicate (2 ^ 16) 0 ++ [1] := by
  have hzero : isTableColumn 0 = true := rfl
  have hone : isTableColumn 1 = true := rfl
  rw [InitInput.tableIds, wideInput, List.filter_append, List.filter_replicate_of_pos hzero,
    List.filter_cons_of_pos hone, List.filter_nil]

theorem wideInput_not_fit : ¬FilterPositionsFit wideInput := by
  intro hfit
  have hlast : wideInput.columnIds[2 ^ 16]? = some 1 := by
    rw [wideInput, List.getElem?_append_right (by rw [List.length_replicate]), List.length_replicate,
      Nat.sub_self]
    rfl
  have hrank : wideInput.tableRank (2 ^ 16) = 2 ^ 16 := by
    have htake : wideInput.columnIds.take (2 ^ 16) = List.replicate (2 ^ 16) 0 :=
      List.take_left' List.length_replicate
    rw [InitInput.tableRank, htake, List.countP_replicate]
    rfl
  have hfound := hfit _ (List.mem_singleton_self _) 1 hlast rfl (List.cons_ne_nil _ _)
  simp only at hfound
  rw [hrank, Nat.mod_self, wideInput_tableIds,
    List.getElem?_append_left (by rw [List.length_replicate]; exact Nat.two_pow_pos 16),
    List.getElem?_replicate_of_lt (Nat.two_pow_pos 16)] at hfound
  exact absurd (Option.some.inj hfound) (by decide)

/-- The filter on the second column is evaluated on the first one. -/
theorem wideInput_not_wired : ∃ sc,
    initColumns simpleComparison .duckdb twoColumnBind wideInput = .ok sc ∧
      ¬Wired simpleComparison .duckdb twoColumnBind wideInput sc := by
  obtain ⟨sc, hsc⟩ : ∃ sc, initColumns simpleComparison .duckdb twoColumnBind wideInput = .ok sc := by
    refine exists_initColumns ?_ (fun _ h => absurd h List.not_mem_nil) ?_
    · intro id hid
      rw [wideInput_tableIds, List.mem_append, List.mem_replicate, List.mem_singleton] at hid
      rcases hid with ⟨-, rfl⟩ | rfl
      · exact show 0 < 2 by decide
      · exact show 1 < 2 by decide
    · intro entry hentry colIdx seqnum moOid out
      obtain rfl := List.mem_singleton.mp hentry
      exact isNullFilter_extracts colIdx seqnum moOid out
  refine ⟨sc, hsc, fun hwired => wideInput_not_fit ?_⟩
  exact (filters_find_iff twoColumnBind_schemaOk hsc).mp fun pf hpf =>
    filterTested_iff.mp (hwired.tested pf hpf)

end TaeScanner
