/-
  TaeScanner.Scan.Select

  What a scan is for: of the rows of a table, those on which every pushed
  expression is TRUE.

    * a table is what the blocks hold, and `Selects` the WHERE clause over it;
    * Init wires and translates the expressions, prunes objects and blocks and
      queues the others; the threads claim, read, filter and emit them;
    * together they emit each selected row once, in every interleaving.
-/

import TaeScanner.Filter.ExtractSpec
import TaeScanner.Scan.KeptBlocks
import TaeScanner.Scan.OrderByKeys
import TaeScanner.Scan.Parallel
import TaeScanner.Scan.ProjectionSpec

namespace TaeScanner

open Lib

-- ============================================================================
-- Tables and queries
-- ============================================================================

/-- A table: the row counts of its blocks, the columns they hold under the seqnums,
    and the types of these. -/
structure Table where
  rows : Nat → Nat → Nat
  content : TableContent
  type : Nat → MOType

/-- The query filters the column of a seqnum by an expression. -/
def InitInput.Filters (input : InitInput) (bind : TAEScanBindData) (e : Expr) (seqnum : Nat)
    (moOid : Byte) : Prop :=
  ∃ ci, (ci, e) ∈ input.filters ∧ input.tableColumn? bind ci = some (seqnum, moOid)

namespace Table
variable (t : Table) (bind : TAEScanBindData) (input : InitInput) (id : RowId)

/-- The cell of a row in a column. -/
def cell? (seqnum : Nat) : Option Cell := (t.content id.objectIdx id.blockIdx seqnum).cell? id.row

/-- The block is one that the manifest lists. -/
def HasBlock (obj blk : Nat) : Prop := ∃ info, bind.objects[obj]? = some info ∧ blk < info.blocks

/-- Each pushed expression is TRUE on the cell of the column it filters. -/
def Where : Prop :=
  ∀ e seqnum moOid, input.Filters bind e seqnum moOid →
    ∃ cell, t.cell? id seqnum = some cell ∧ e.truth SqlValue.compare? cell = some true

/-- `SELECT .. WHERE ..` has the row in its result. -/
def Selects : Prop :=
  HasBlock bind id.objectIdx id.blockIdx ∧ id.row < t.rows id.objectIdx id.blockIdx ∧
    t.Where bind input id

end Table

/-- What can be read of the objects is the table: the columns of its blocks, metadata
    that counts their rows, and zone maps that describe them. -/
structure TableServed (bind : TAEScanBindData) (storage : Storage) (t : Table) : Prop where
  readMeta : ∀ {obj info md}, bind.objects[obj]? = some info → storage.readMeta obj = some md →
    ∀ blk < info.blocks, md.blockRowCount blk = t.rows obj blk
  readBlock : ∀ {obj blk seqnums cols}, Table.HasBlock bind obj blk →
    (∀ s ∈ seqnums, s ∈ bind.allColSeqnums) → storage.readBlock obj blk seqnums = some cols →
      cols = seqnums.map (t.content obj blk)
  rowCount : ∀ {obj blk s}, Table.HasBlock bind obj blk → s ∈ bind.allColSeqnums →
    (t.content obj blk s).rowCount = t.rows obj blk
  type : ∀ obj blk s, (t.content obj blk s).type = t.type s
  zoneMaps : ZoneMapsDescribe bind storage t.content

/-- The objects hold the table, and all of it can be read. -/
structure TableStored (bind : TAEScanBindData) (storage : Storage) (t : Table) : Prop
    extends TableServed bind storage t where
  meta_isSome : ∀ {obj info}, bind.objects[obj]? = some info → (storage.readMeta obj).isSome
  block_isSome : ∀ {obj blk seqnums}, Table.HasBlock bind obj blk →
    (∀ s ∈ seqnums, s ∈ bind.allColSeqnums) → (storage.readBlock obj blk seqnums).isSome

/-- The filtered columns are of the types that the filters dispatch on, the encoded
    constants are the constants of the expressions, and no filter is beyond the 16 bits
    of its index. -/
structure QueryTyped (tryGet : ColumnConstantComparison) (bt : BlobText) (bind : TAEScanBindData)
    (input : InitInput) (type : Nat → MOType) : Prop where
  normalises : tryGet.Normalises
  schema : bind.SchemaOk
  fit : FilterPositionsFit input
  moOid : ∀ {e seqnum moOid}, input.Filters bind e seqnum moOid → (type seqnum).oid = moOid
  denotes : ∀ {e seqnum moOid}, input.Filters bind e seqnum moOid →
    Denotes bt (type seqnum) (e.requiredConstants tryGet)

/-- The filtered columns are FLAT, and each of their elements denotes a value. -/
structure QueryOk (tryGet : ColumnConstantComparison) (bt : BlobText) (bind : TAEScanBindData)
    (input : InitInput) (t : Table) : Prop extends QueryTyped tryGet bt bind input t.type where
  filterable : ∀ {e seqnum moOid obj blk}, input.Filters bind e seqnum moOid →
    Table.HasBlock bind obj blk → FilterableColumn (t.content obj blk seqnum)

/-- `work_units` as Init leaves them; `none` is an exception. -/
def initWorkUnits? (std : StdSort) (bind : TAEScanBindData) (filters : List PushedFilter)
    (storage : Storage) : Option (List WorkUnit) :=
  let units := buildWorkUnits bind filters storage
  match bind.scanOrder with
  | none => some units
  | some order =>
      match bind.orderColumn? order with
      | none => some units
      | some col => orderUnits? std storage order col units

/-- The plan is that of a successful Init. -/
structure InitPlan (tryGet : ColumnConstantComparison) (bt : BlobText) (std : StdSort)
    (bind : TAEScanBindData) (input : InitInput) (storage : Storage) (plan : ScanPlan) : Prop where
  columns : ∃ sc, initColumns tryGet bt bind input = .ok sc ∧ plan.readSeqnums = sc.readSeqnums ∧
    plan.outputMap = sc.outputMap ∧ plan.filters = sc.filters
  objects : plan.objects = bind.objects
  units : initWorkUnits? std bind plan.filters storage = some plan.workUnits

/-- No LIMIT cuts the queue. -/
def TAEScanBindData.Unlimited (bind : TAEScanBindData) : Prop :=
  ∀ order, bind.scanOrder = some order → order.rowLimit = 0

-- ============================================================================
-- The queue
-- ============================================================================

section Queue
variable {std : StdSort} {bind : TAEScanBindData} {filters : List PushedFilter} {storage : Storage}

/-- A LIMIT keeps some of the units. -/
theorem truncateUnits_sublist (rowLimit rowsAvailable : Nat) (sorted : List SortableUnit) :
    (truncateUnits rowLimit rowsAvailable sorted).Sublist sorted := by
  have hsub := List.sublist_append_left (truncateUnits rowLimit rowsAvailable sorted)
    (droppedUnits rowLimit rowsAvailable sorted)
  rwa [truncateUnits_append_droppedUnits] at hsub

/-- The pushdown reorders the queue, and a limit cuts it. -/
theorem initWorkUnits?_queue {units : List WorkUnit}
    (h : initWorkUnits? std bind filters storage = some units) :
    units.Subperm (buildWorkUnits bind filters storage) ∧
      (bind.Unlimited → units.Perm (buildWorkUnits bind filters storage)) := by
  rw [initWorkUnits?] at h
  split at h
  · obtain rfl := Option.some.inj h
    exact ⟨.refl _, fun _ => .refl _⟩
  · next order horder =>
      split at h
      · obtain rfl := Option.some.inj h
        exact ⟨.refl _, fun _ => .refl _⟩
      · next col _ =>
          obtain ⟨sortable, hsortable, rfl⟩ := Option.map_eq_some_iff.mp (orderUnits_of_orderUnits? h)
          have hsorted := (std.perm order.sortsBefore sortable).map (·.unit)
          rw [sortableUnits_map_unit hsortable] at hsorted
          constructor
          · refine List.Subperm.trans ?_ hsorted.subperm
            split
            · exact ((truncateUnits_sublist _ _ _).map _).subperm
            · exact .refl _
          · intro hlimit
            have hunlimited : ¬0 < order.rowLimit := by rw [hlimit order horder]; exact Nat.lt_irrefl 0
            simp only [if_neg hunlimited]
            exact hsorted

/-- Only blocks that the manifest lists are queued, as long as it counts blocks like the
    objects. -/
theorem hasBlock_of_mem_buildWorkUnits {content : TableContent} (hzms : ZoneMapsDescribe bind storage content)
    {wu : WorkUnit} (h : wu ∈ buildWorkUnits bind filters storage) :
    Table.HasBlock bind wu.objectIdx wu.blockIdx := by
  obtain ⟨⟨info, obj⟩, hmem, hunit⟩ := List.mem_flatMap.mp h
  have hobj : bind.objects[obj]? = some info := List.mem_zipIdx_iff_getElem?.mp hmem
  have hall : wu ∈ allBlocks obj info → Table.HasBlock bind wu.objectIdx wu.blockIdx := by
    intro hwu
    obtain ⟨rfl, hblk⟩ := mem_allBlocks.mp hwu
    exact ⟨info, hobj, hblk⟩
  simp only [objectUnits, pruneObject] at hunit
  split at hunit
  · exact hall hunit
  · split at hunit
    · cases hunit
    · split at hunit
      · exact hall hunit
      · next md hmd =>
          obtain ⟨blk, hblk, rfl⟩ := List.mem_map.mp hunit
          have hcount := hzms.block_counts obj info md hobj hmd
          exact ⟨info, hobj, hcount ▸ List.mem_range.mp (List.mem_filter.mp hblk).1⟩

end Queue

-- ============================================================================
-- The filters
-- ============================================================================

section Where
variable {tryGet : ColumnConstantComparison} {bt : BlobText} {bind : TAEScanBindData} {input : InitInput}
  {storage : Storage} {t : Table} {sc : ScanColumns}

/-- What is read are columns of the schema. -/
theorem readSeqnums_inSchema (h : initColumns tryGet bt bind input = .ok sc) :
    ∀ s ∈ sc.readSeqnums, s ∈ bind.allColSeqnums := by
  intro s hs
  obtain ⟨d, hd, hread, -, -⟩ := initColumns_eq_ok h
  rw [hread] at hs
  obtain ⟨i, hi⟩ := List.mem_iff_getElem?.mp hs
  obtain ⟨id, -, hseqnum⟩ := getElem?_of_forall₂ (DecodedPositions.records hd).seqnums hi
  exact List.mem_of_getElem? hseqnum

/-- What is encoded for a constant has the length that comes with it. -/
theorem encodeConstant_len {val : Value} {type : MOType} {c : EncodedConstant}
    (h : encodeConstant bt val type.kind = some c) (hc : c.WellFormed type) : c.len = c.bytes.length := by
  cases hstr : isStringType type.kind with
  | true => exact hc.string hstr
  | false =>
      have hlen := (hc.fixed hstr).1
      rw [encodeConstant, hstr, if_neg Bool.false_ne_true] at h
      split at h
      · cases h
      · obtain ⟨bytes, -, rfl⟩ := Option.map_eq_some_iff.mp h
        show (moTypeFixedSize type.kind).toNat = bytes.length
        rw [← hlen, Int.toNat_natCast]

/-- The constants of a filter have their lengths. -/
theorem atomFilter_lengthsExact {a : Expr} {type : MOType} {colIdx seqnum : Nat} {pf : PushedFilter}
    (hden : Denotes bt type (a.atomConstants tryGet))
    (h : atomFilter tryGet bt colIdx seqnum type.oid a = .ok pf) : pf.LengthsExact := by
  have hwf := atomFilter_wellFormed hden h
  obtain ⟨hconst, hin⟩ := atomFilter_constants h
  constructor
  · intro hnull hnotNull hop
    obtain ⟨val, -, henc⟩ := hconst hnull hnotNull hop
    exact encodeConstant_len henc (hwf.constant hnull hnotNull hop)
  · intro hop e he
    obtain ⟨val, -, henc⟩ := hin hop e he
    exact encodeConstant_len henc (hwf.inValues hop e he)

/-- A filter that is pushed for an atom passes the rows on whose cells it is TRUE. -/
theorem atomFilter_passes (hq : QueryOk tryGet bt bind input t) {e a : Expr} {seqnum colIdx : Nat}
    {moOid : Byte} {pf : PushedFilter} (he : input.Filters bind e seqnum moOid) (ha : a ∈ e.atoms)
    (hsup : supportsFilterExpression tryGet a = true)
    (hatom : atomFilter tryGet bt colIdx seqnum moOid a = .ok pf) {col : DecodedColumn}
    (hcol : FilterableColumn col) (htype : col.type = t.type seqnum) {row : Nat} {cell : Cell}
    (hrow : row < col.rowCount) (hcell : col.cell? row = some cell) :
    rowPassesFilter pf col row = some true ↔ a.truth SqlValue.compare? cell = some true := by
  have hden : Denotes bt (t.type seqnum) (a.atomConstants tryGet) := fun val hval =>
    hq.denotes he val (List.mem_flatMap.mpr ⟨a, ha, hval⟩)
  rw [← hq.moOid he] at hatom
  have hwf : pf.WellFormed col.type := htype ▸ atomFilter_wellFormed hden hatom
  rw [← atomFilter_meaning hq.normalises compare?_swapsSides hsup hden hatom cell,
    rowPassesFilter_spec hcol hwf hrow, PushedFilter.holdsOn, hcell, Predicate.evalBy_compare?, htype,
    Option.some.injEq, decide_eq_true_iff]

/-- Every row of a filterable column has a cell. -/
theorem FilterableColumn.exists_cell {col : DecodedColumn} (h : FilterableColumn col) {row : Nat}
    (hrow : row < col.rowCount) : ∃ cell, col.cell? row = some cell := by
  rw [DecodedColumn.cell?]
  split
  · exact ⟨none, rfl⟩
  · obtain ⟨v, hv⟩ := Option.isSome_iff_exists.mp (h.elements row hrow)
    exact ⟨some v, by rw [hv, Option.map_some]⟩

/-- The filter is pushed for an atom of the query. -/
def PushedFor (tryGet : ColumnConstantComparison) (bt : BlobText) (bind : TAEScanBindData)
    (input : InitInput) (pf : PushedFilter) (e a : Expr) : Prop :=
  ∃ moOid colIdx, input.Filters bind e pf.seqnum moOid ∧ a ∈ e.atoms ∧
    supportsFilterExpression tryGet a = true ∧ atomFilter tryGet bt colIdx pf.seqnum moOid a = .ok pf

/-- Every filter of Init is pushed for an atom. -/
theorem pushedFor_of_mem (h : initColumns tryGet bt bind input = .ok sc) {pf : PushedFilter}
    (hpf : pf ∈ sc.filters) : ∃ e a, PushedFor tryGet bt bind input pf e a := by
  obtain ⟨groups, hfilters, hgroups⟩ := filters_pushed h
  rw [hfilters] at hpf
  obtain ⟨group, hgroup, hpf⟩ := List.mem_flatten.mp hpf
  obtain ⟨i, hi⟩ := List.mem_iff_getElem?.mp hgroup
  obtain ⟨⟨ci, e⟩, hentry, hpushed⟩ := getElem?_of_forall₂ hgroups hi
  obtain ⟨moOid, hcol, -, -⟩ := hpushed.column hpf
  rw [Pushed, hcol] at hpushed
  obtain ⟨j, hj⟩ := List.mem_iff_getElem?.mp hpf
  obtain ⟨a, ha, hatom⟩ := getElem?_of_forall₂ hpushed.2 hj
  have hmem := List.mem_of_getElem? ha
  exact ⟨e, a, moOid, _, ⟨ci, List.mem_of_getElem? hentry, hcol⟩, hmem,
    (supportsFilterExpression_iff tryGet e).mp hpushed.1 a hmem, hatom⟩

/-- What is known of a filter of Init: it is on a column that the query filters, and its
    constants are encoded for the type of that column. -/
theorem filter_typed (hq : QueryOk tryGet bt bind input t) (h : initColumns tryGet bt bind input = .ok sc)
    {pf : PushedFilter} (hpf : pf ∈ sc.filters) :
    (∃ e moOid, input.Filters bind e pf.seqnum moOid) ∧ pf.WellFormed (t.type pf.seqnum) ∧ pf.LengthsExact := by
  obtain ⟨e, a, moOid, colIdx, he, ha, -, hatom⟩ := pushedFor_of_mem h hpf
  rw [← hq.moOid he] at hatom
  have hden : Denotes bt (t.type pf.seqnum) (a.atomConstants tryGet) := fun val hval =>
    hq.denotes he val (List.mem_flatMap.mpr ⟨a, ha, hval⟩)
  exact ⟨⟨e, moOid, he⟩, atomFilter_wellFormed hden hatom, atomFilter_lengthsExact hden hatom⟩

/-- For every atom of the query a filter is pushed. -/
theorem exists_pushedFor (h : initColumns tryGet bt bind input = .ok sc) {e a : Expr} {seqnum : Nat}
    {moOid : Byte} (he : input.Filters bind e seqnum moOid) (ha : a ∈ e.atoms) :
    ∃ pf ∈ sc.filters, pf.seqnum = seqnum ∧ PushedFor tryGet bt bind input pf e a := by
  obtain ⟨groups, hfilters, hgroups⟩ := filters_pushed h
  obtain ⟨ci, hentry, hcol⟩ := he
  obtain ⟨i, hi⟩ := List.mem_iff_getElem?.mp hentry
  obtain ⟨group, hgroup, hpushed⟩ := getElem?_of_forall₂_left hgroups hi
  rw [Pushed, hcol] at hpushed
  obtain ⟨j, hj⟩ := List.mem_iff_getElem?.mp ha
  obtain ⟨pf, hpf, hatom⟩ := getElem?_of_forall₂_left hpushed.2 hj
  obtain ⟨-, rfl, -⟩ := atomFilter_column _ _ _ _ _ hatom
  have hsup := (supportsFilterExpression_iff tryGet e).mp hpushed.1 a ha
  refine ⟨pf, ?_, rfl, moOid, _, ⟨ci, hentry, hcol⟩, ha, hsup, hatom⟩
  rw [hfilters]
  exact List.mem_flatten.mpr ⟨group, List.mem_of_getElem? hgroup, List.mem_of_getElem? hpf⟩

/-- A filtered column has the row. -/
theorem filtered_row (hserved : TableServed bind storage t) {e : Expr} {seqnum : Nat} {moOid : Byte} (he : input.Filters bind e seqnum moOid)
    {obj blk row : Nat} (hblock : Table.HasBlock bind obj blk) (hrow : row < t.rows obj blk) :
    row < (t.content obj blk seqnum).rowCount := by
  obtain ⟨ci, -, hcol⟩ := he
  obtain ⟨id, -, -, hseqnum, -⟩ := tableColumn?_eq_some.mp hcol
  rw [hserved.rowCount hblock (List.mem_of_getElem? hseqnum)]
  exact hrow

section Rows
variable (hserved : TableServed bind storage t) (hq : QueryOk tryGet bt bind input t)
  (h : initColumns tryGet bt bind input = .ok sc)
include hserved hq h

/-- A row of a block passes each of the filters iff it satisfies the query. -/
theorem passes_each_iff_where {obj blk row : Nat} (hblock : Table.HasBlock bind obj blk)
    (hrow : row < t.rows obj blk) :
    (∀ pf ∈ sc.filters, rowPassesFilter pf (t.content obj blk pf.seqnum) row = some true) ↔
      t.Where bind input ⟨obj, blk, row⟩ := by
  have htest : ∀ {pf e a}, PushedFor tryGet bt bind input pf e a → ∀ {cell},
      t.cell? ⟨obj, blk, row⟩ pf.seqnum = some cell →
        (rowPassesFilter pf (t.content obj blk pf.seqnum) row = some true ↔
          a.truth SqlValue.compare? cell = some true) := by
    rintro pf e a ⟨moOid, colIdx, he, ha, hsup, hatom⟩ cell hcell
    exact atomFilter_passes hq he ha hsup hatom (hq.filterable he hblock) (hserved.type ..)
      (filtered_row hserved he hblock hrow) hcell
  constructor
  · intro hall e seqnum moOid he
    obtain ⟨cell, hcell⟩ := (hq.filterable he hblock).exists_cell (filtered_row hserved he hblock hrow)
    refine ⟨cell, hcell, (e.truth_iff _ cell).mpr fun a ha => ?_⟩
    obtain ⟨pf, hpf, rfl, hpushed⟩ := exists_pushedFor h he ha
    exact (htest hpushed hcell).mp (hall pf hpf)
  · intro hwhere pf hpf
    obtain ⟨e, a, hpushed⟩ := pushedFor_of_mem h hpf
    obtain ⟨moOid, colIdx, he, ha, -⟩ := id hpushed
    obtain ⟨cell, hcell, htrue⟩ := hwhere e pf.seqnum moOid he
    exact (htest hpushed hcell).mpr ((e.truth_iff _ cell).mp htrue a ha)

/-- A row of a block passes the filters on the columns that are read iff it satisfies
    the query. -/
theorem passes_iff_where {obj blk row : Nat} (hblock : Table.HasBlock bind obj blk)
    (hrow : row < t.rows obj blk) :
    rowPassesFilters sc.filters (sc.readSeqnums.map (t.content obj blk)) row = some true ↔
      t.Where bind input ⟨obj, blk, row⟩ := by
  have hwired := (filters_find_iff hq.schema h).mpr hq.fit
  rw [← passes_each_iff_where hserved hq h hblock hrow, rowPassesFilters, allM_eq_true]
  apply forall₂_congr
  intro pf hpf
  rw [List.getElem?_map, hwired pf hpf, Option.map_some]

/-- No zone map that describes the block of a selected row is rejected. -/
theorem keepsDescribed_of_where (hsafe : ∀ pf ∈ sc.filters, pf.CutSafe) {obj blk row : Nat}
    (hblock : Table.HasBlock bind obj blk) (hrow : row < t.rows obj blk)
    (hwhere : t.Where bind input ⟨obj, blk, row⟩) : KeepsDescribed sc.filters t.content obj blk := by
  intro pf hpf zm hzm
  have hpass := (passes_each_iff_where hserved hq h hblock hrow).mpr hwhere pf hpf
  obtain ⟨⟨e, moOid, he⟩, hwf, hexact⟩ := filter_typed hq h hpf
  rw [← hserved.type obj blk] at hwf
  cases zm with
  | none => rfl
  | some z =>
      exact evalFilterOnZoneMap_describes (hq.filterable he hblock) hwf hexact
        (hsafe pf hpf) (filtered_row hserved he hblock hrow) (hzm z rfl) hpass

end Rows

end Where

-- ============================================================================
-- Scans
-- ============================================================================

section Scan
variable {tryGet : ColumnConstantComparison} {bt : BlobText} {std : StdSort} {bind : TAEScanBindData}
  {input : InitInput} {env : ScanEnv} {t : Table}

/-- What is read of a block. -/
theorem openBlock_served {plan : ScanPlan} {storage : Storage} (hserved : TableServed bind storage t)
    (hread : ∀ s ∈ plan.readSeqnums, s ∈ bind.allColSeqnums) {obj blk : Nat}
    (hblock : Table.HasBlock bind obj blk) {md : ObjectMeta} (hmd : storage.readMeta obj = some md)
    {dec : DecodedBlock} (h : plan.openBlock storage md ⟨obj, blk⟩ = some dec) :
    dec = ⟨plan.readSeqnums.map (t.content obj blk), t.rows obj blk⟩ := by
  obtain ⟨cols, hcols, rfl⟩ := Option.map_eq_some_iff.mp h
  obtain rfl := hserved.readBlock hblock hread hcols
  have htotal : blockTotalRows md blk (plan.readSeqnums.map (t.content obj blk)) = t.rows obj blk := by
    cases hseqnums : plan.readSeqnums with
    | nil =>
        obtain ⟨info, hobj, hblk⟩ := hblock
        exact hserved.readMeta hobj hmd blk hblk
    | cons s rest => exact hserved.rowCount hblock (hread s (hseqnums ▸ List.mem_cons_self))
  rw [htotal]

/-- What a queued unit holds. -/
theorem unitBlock_served (hserved : TableServed bind env.storage t)
    (hplan : InitPlan tryGet bt std bind input env.storage env.plan) (hslow : env.fast = false)
    {wu : WorkUnit} (hmem : wu ∈ env.plan.workUnits) {dec : DecodedBlock}
    (hunit : env.unitBlock wu = some (some dec)) : Table.HasBlock bind wu.objectIdx wu.blockIdx ∧
      dec = ⟨env.plan.readSeqnums.map (t.content wu.objectIdx wu.blockIdx),
        t.rows wu.objectIdx wu.blockIdx⟩ := by
  obtain ⟨sc, hinit, hread, -, -⟩ := hplan.columns
  have hblock : Table.HasBlock bind wu.objectIdx wu.blockIdx :=
    hasBlock_of_mem_buildWorkUnits hserved.zoneMaps ((initWorkUnits?_queue hplan.units).1.subset hmem)
  rw [ScanEnv.unitBlock, hslow, if_neg Bool.false_ne_true, ScanPlan.unitBlock,
    Option.bind_eq_some_iff] at hunit
  obtain ⟨md, hmd, hunit⟩ := hunit
  split at hunit
  · cases hunit
  · obtain ⟨dec', hdec, hsome⟩ := Option.map_eq_some_iff.mp hunit
    obtain rfl := Option.some.inj hsome
    exact ⟨hblock, openBlock_served hserved (hread ▸ readSeqnums_inSchema hinit) hblock hmd hdec⟩

/-- What a unit holds that no filter rejects. -/
theorem unitBlock_stored (hstored : TableStored bind env.storage t) (hslow : env.fast = false)
    (hread : ∀ s ∈ env.plan.readSeqnums, s ∈ bind.allColSeqnums) {wu : WorkUnit}
    (hblock : Table.HasBlock bind wu.objectIdx wu.blockIdx)
    (hkept : ∀ md, env.storage.readMeta wu.objectIdx = some md → env.plan.skipsBlock md wu.blockIdx = false) :
    env.unitBlock wu = some (some ⟨env.plan.readSeqnums.map (t.content wu.objectIdx wu.blockIdx),
      t.rows wu.objectIdx wu.blockIdx⟩) := by
  have ⟨info, hobj, _⟩ := hblock
  obtain ⟨md, hmd⟩ := Option.isSome_iff_exists.mp (hstored.meta_isSome hobj)
  obtain ⟨cols, hcols⟩ := Option.isSome_iff_exists.mp (hstored.block_isSome hblock hread)
  have hopen : env.plan.openBlock env.storage md wu = some ⟨cols, blockTotalRows md wu.blockIdx cols⟩ := by
    rw [ScanPlan.openBlock, hcols, Option.map_some]
  have hdec := openBlock_served hstored.toTableServed hread hblock hmd hopen
  rw [ScanEnv.unitBlock, hslow, if_neg Bool.false_ne_true, ScanPlan.unitBlock, hmd, Option.bind_some, hkept md hmd,
    if_neg Bool.false_ne_true, hopen, hdec, Option.map_some]

section Plan
variable (hq : QueryOk tryGet bt bind input t)
  (hplan : InitPlan tryGet bt std bind input env.storage env.plan) (hslow : env.fast = false)
include hq hplan hslow

/-- A queued row that is delivered is one that the query selects. -/
theorem selects_of_delivers (hserved : TableServed bind env.storage t) {id : RowId} (h : env.Delivers id)
    (hmem : id.unit ∈ env.plan.workUnits) : t.Selects bind input id := by
  obtain ⟨sc, hinit, hread, -, hfilters⟩ := hplan.columns
  obtain ⟨dec, hunit, hrow, hpass⟩ := h
  obtain ⟨hblock, rfl⟩ := unitBlock_served hserved hplan hslow hmem hunit
  rw [hread, hfilters] at hpass
  exact ⟨hblock, hrow, (passes_iff_where hserved hq hinit hblock hrow).mp hpass⟩

section Safe
variable (hstored : TableStored bind env.storage t) (hsafe : ∀ pf ∈ env.plan.filters, pf.CutSafe)
include hstored hsafe

/-- A row that the query selects is delivered, and queued unless a LIMIT cuts the queue. -/
theorem delivers_of_selects (hunlimited : bind.Unlimited) {id : RowId} (h : t.Selects bind input id) :
    env.Delivers id ∧ id.unit ∈ env.plan.workUnits := by
  obtain ⟨hblock, hrow, hwhere⟩ := h
  obtain ⟨sc, hinit, hread, -, hfilters⟩ := hplan.columns
  have hschema : ∀ s ∈ env.plan.readSeqnums, s ∈ bind.allColSeqnums := hread ▸ readSeqnums_inSchema hinit
  have hserved := hstored.toTableServed
  have hpass := (passes_iff_where hserved hq hinit hblock hrow).mpr hwhere
  rw [hfilters] at hsafe
  have hkeeps := keepsDescribed_of_where hserved hq hinit hsafe hblock hrow hwhere
  rw [← hfilters] at hkeeps
  rw [← hread, ← hfilters] at hpass
  constructor
  · refine ⟨_, unitBlock_stored hstored hslow hschema hblock fun md hmd => ?_, hrow, hpass⟩
    have hpass : blockPassesFilters env.plan.filters (md.getZoneMap id.unit.blockIdx) = true :=
      hkeeps.blockPassesFilters hstored.zoneMaps hmd
    rw [ScanPlan.skipsBlock, hpass, Bool.not_true, Bool.and_false]
  · obtain ⟨info, hobj, hblk⟩ := hblock
    apply ((initWorkUnits?_queue hplan.units).2 hunlimited).mem_iff.mpr
    exact hkeeps.mem_buildWorkUnits hstored.zoneMaps hobj hblk

/-- The queue holds the rows that the query selects. -/
theorem mem_queueRows_iff_selects (hunlimited : bind.Unlimited) {id : RowId} :
    id ∈ env.queueRows ↔ t.Selects bind input id := by
  rw [ScanEnv.mem_queueRows]
  constructor
  · exact fun hid => selects_of_delivers hq hplan hslow hstored.toTableServed hid.1 hid.2
  · exact delivers_of_selects hq hplan hslow hstored hsafe hunlimited

end Safe

end Plan

/-- When all threads are done, the queue has been emitted. -/
theorem ScanEnv.emitted_of_finished {ι : Type} [DecidableEq ι] [Fintype ι] [Nonempty ι]
    {outputs : ι → DataChunk} {c : Config ι ScanShared ScanThread ScanLog} (hslow : env.fast = false)
    (hsample : env.plan.doSample = false) (h : Reachable env.Step (env.start outputs) c)
    (hdone : ∀ i, (c.threads i).finished = true) : c.log.2 = env.queueRows := by
  have hfinished := slow_finishedOk hslow hsample h
  rw [← reachable_log_eq hsample h]
  exact offered_of_finished h fun i => hfinished i (Or.inl (hdone i))

/-- Init queues no block twice, so no row is in the queue twice. -/
theorem queueRows_nodup (hplan : InitPlan tryGet bt std bind input env.storage env.plan) :
    env.queueRows.Nodup := by
  have hqueue : env.plan.workUnits.Nodup := by
    obtain ⟨kept, hkept, hsub⟩ := (initWorkUnits?_queue hplan.units).1
    exact hkept.nodup_iff.mp (hsub.nodup buildWorkUnits_nodup)
  rw [Multiset.nodup_iff_count_le_one]
  intro id
  by_cases hid : id ∈ env.queueRows
  · rw [ScanEnv.count_queueRows (ScanEnv.mem_queueRows.mp hid).1]
    exact List.nodup_iff_count_le_one.mp hqueue _
  · rw [Multiset.count_eq_zero.mpr hid]
    exact Nat.zero_le 1

/-- **A scan emits only selected rows.**  In every state of every run, whatever reads
    fail, whatever the sampler draws and wherever a LIMIT cuts the queue, the emitted
    rows satisfy all pushed expressions, and none has been emitted twice. -/
theorem scan_emits_selected {ι : Type} [DecidableEq ι] [Fintype ι] {outputs : ι → DataChunk}
    {c : Config ι ScanShared ScanThread ScanLog} (hserved : TableServed bind env.storage t)
    (hq : QueryOk tryGet bt bind input t) (hplan : InitPlan tryGet bt std bind input env.storage env.plan)
    (hslow : env.fast = false) (h : Reachable env.Step (env.start outputs) c) :
    c.log.2.Nodup ∧ ∀ id ∈ c.log.2, t.Selects bind input id := by
  obtain ⟨hemitted, hoffered⟩ := ScanEnv.reachable_emitted_le h
  have hle : c.log.2 ≤ env.queueRows := hemitted.trans hoffered
  refine ⟨Multiset.nodup_of_le hle (queueRows_nodup hplan), fun id hid => ?_⟩
  obtain ⟨hdelivers, hunit⟩ := ScanEnv.mem_queueRows.mp (Multiset.mem_of_le hle hid)
  exact selects_of_delivers hq hplan hslow hserved hdelivers hunit

/-- **A scan computes SELECT.**  Init and the parallel scan, over a table that the
    objects hold, have emitted each row that satisfies all pushed expressions exactly
    once, and no other row, when all threads are done; unless an expression asks `<>`
    of a string as long as the max field of a zone map. -/
theorem scan_selects {ι : Type} [DecidableEq ι] [Fintype ι] [Nonempty ι] {outputs : ι → DataChunk}
    {c : Config ι ScanShared ScanThread ScanLog} (hstored : TableStored bind env.storage t)
    (hq : QueryOk tryGet bt bind input t) (hplan : InitPlan tryGet bt std bind input env.storage env.plan)
    (hsafe : ∀ pf ∈ env.plan.filters, pf.CutSafe) (hunlimited : bind.Unlimited) (hslow : env.fast = false)
    (hsample : env.plan.doSample = false) (h : Reachable env.Step (env.start outputs) c)
    (hdone : ∀ i, (c.threads i).finished = true) :
    c.log.2.Nodup ∧ ∀ id, id ∈ c.log.2 ↔ t.Selects bind input id := by
  rw [ScanEnv.emitted_of_finished hslow hsample h hdone]
  exact ⟨queueRows_nodup hplan, fun id => mem_queueRows_iff_selects hq hplan hslow hstored hsafe hunlimited⟩

end Scan

-- ============================================================================
-- A table of two rows
-- ============================================================================

/-- One object, one block, and a column that holds 7 and 8. -/
def twoRows : DecodedColumn := { type := { oid := 22 }, rowCount := 2, data := leBytes 4 7 ++ leBytes 4 8 }

def twoRowTable : Table := ⟨fun _ _ => 2, fun _ _ _ => twoRows, fun _ => { oid := 22 }⟩

def twoRowBind : TAEScanBindData :=
  { allColTypes := [.integer], allColMoOids := [22], allColSeqnums := [0], sortColumnIdx := 0,
    objects := [{ filePath := "a.tae", rows := 2, blocks := 1, sortKeyZm := some (int32ZoneMap 7 8) }] }

def twoRowStorage : Storage where
  readMeta := fun _ => some ⟨[{ rows := 2, columns := [{ zoneMap := int32ZoneMap 7 8 }] }]⟩
  readBlock := fun _ _ seqnums => some (seqnums.map fun _ => twoRows)
  readBlock_length := by
    intro _ _ seqnums cols h
    rw [← Option.some.inj h, List.length_map]

/-- `SELECT x .. WHERE x = 7`. -/
def equalsSevenInput : InitInput where
  columnIds := [0]
  filters := [(0, .comparison .equal .columnRef (.constant (intConstant 7)))]

def equalsSevenEnv : ScanEnv where
  plan := {
    objects := twoRowBind.objects
    outputMap := [.taeColumn 0 0]
    readSeqnums := [0]
    filters := [sevenFilter]
    workUnits := [⟨0, 0⟩]
    output_read := @oneColumn_output_read
    filters_read := fun pf hpf => by
      obtain rfl := List.mem_singleton.mp hpf
      rfl }
  storage := twoRowStorage
  fast := false
  callAgain := false
  fast_only := nofun

theorem twoRowBind_object {obj : Nat} {info : TAEObjectInfo} (h : twoRowBind.objects[obj]? = some info) :
    obj = 0 ∧ info = { filePath := "a.tae", rows := 2, blocks := 1, sortKeyZm := some (int32ZoneMap 7 8) } := by
  cases obj with
  | zero => exact ⟨rfl, (Option.some.inj h).symm⟩
  | succ n => cases h

theorem twoRows_described : (int32ZoneMap 7 8).Describes twoRows := by
  refine ⟨?_, fun hbytes => by rcases hbytes with h | h <;> cases h⟩
  intro st hst row hrow _ bs hbs
  obtain rfl : st = .int 4 := (Option.some.inj hst).symm
  have hrow' : row = 0 ∨ row = 1 := Nat.le_one_iff_eq_zero_or_eq_one.mp (Nat.le_of_lt_succ hrow)
  rcases hrow' with rfl | rfl
  · obtain rfl : leBytes 4 7 = bs := Option.some.inj hbs
    decide
  · obtain rfl : leBytes 4 8 = bs := Option.some.inj hbs
    decide

theorem twoRowTable_stored : TableStored twoRowBind twoRowStorage twoRowTable where
  meta_isSome _ := rfl
  block_isSome _ _ := rfl
  readMeta := by
    intro obj info md hobj hmd blk hblk
    obtain ⟨-, rfl⟩ := twoRowBind_object hobj
    obtain rfl := Option.some.inj hmd
    obtain rfl : blk = 0 := Nat.lt_one_iff.mp hblk
    rfl
  readBlock _ _ h := (Option.some.inj h).symm
  rowCount _ _ := rfl
  type _ _ _ := rfl
  zoneMaps := by
    refine ⟨fun obj info md hobj hmd => ?_, fun {obj blk seqnum md zm} hmd hzm _ => ?_,
      fun {obj info zm blk} hobj hzm _ _ => ?_⟩
    · obtain ⟨-, rfl⟩ := twoRowBind_object hobj
      obtain rfl := Option.some.inj hmd
      rfl
    · obtain rfl := Option.some.inj hmd
      have hzone : zm = int32ZoneMap 7 8 := by
        rcases blk with _ | blk
        · rcases seqnum with _ | seqnum
          · exact (Option.some.inj hzm).symm
          · cases hzm
        · cases hzm
      rw [hzone]
      exact twoRows_described
    · obtain ⟨-, rfl⟩ := twoRowBind_object hobj
      obtain rfl := Option.some.inj hzm
      exact twoRows_described

theorem equalsSeven_filters {e : Expr} {seqnum : Nat} {moOid : Byte}
    (h : equalsSevenInput.Filters twoRowBind e seqnum moOid) :
    e = .comparison .equal .columnRef (.constant (intConstant 7)) ∧ seqnum = 0 ∧ moOid = 22 := by
  obtain ⟨ci, hentry, hcol⟩ := h
  obtain ⟨rfl, rfl⟩ := Prod.mk.inj (List.mem_singleton.mp hentry)
  obtain ⟨rfl, rfl⟩ := Prod.mk.inj (Option.some.inj hcol)
  exact ⟨rfl, rfl, rfl⟩

theorem equalsSeven_queryOk : QueryOk simpleComparison .duckdb twoRowBind equalsSevenInput twoRowTable where
  normalises := simpleComparison_normalises
  schema := ⟨rfl, List.nodup_singleton 0⟩
  fit := filterPositionsFit_of_short (by decide)
  moOid h := (equalsSeven_filters h).2.2.symm
  denotes := by
    intro e seqnum moOid h val hval c henc
    obtain ⟨rfl, rfl, rfl⟩ := equalsSeven_filters h
    obtain rfl := List.mem_singleton.mp hval
    obtain rfl := Option.some.inj henc
    exact ⟨⟨fun _ => ⟨rfl, rfl⟩, nofun⟩, by decide⟩
  filterable _ _ := by
    refine ⟨rfl, rfl, fun r hr => ?_⟩
    rcases Nat.le_one_iff_eq_zero_or_eq_one.mp (Nat.le_of_lt_succ hr) with rfl | rfl
    · rfl
    · rfl

theorem equalsSeven_initPlan (std : StdSort) :
    InitPlan simpleComparison .duckdb std twoRowBind equalsSevenInput twoRowStorage equalsSevenEnv.plan where
  columns := ⟨_, rfl, rfl, rfl, rfl⟩
  objects := rfl
  units := rfl

/-- The 7 has been emitted before the thread is done. -/
theorem scan_emits_selected_seven :
    ∃ c, (equalsSevenEnv.start oneOutput).run (equalsSevenEnv.next fun _ => true)
        (List.replicate 3 ()) = some c ∧
      c.log.2 = {⟨0, 0, 0⟩} ∧ (c.threads ()).finished = false ∧
      c.log.2.Nodup ∧ ∀ id ∈ c.log.2, twoRowTable.Selects twoRowBind equalsSevenInput id := by
  obtain ⟨c, hrun, hlog, hfinished⟩ : ∃ c, (equalsSevenEnv.start oneOutput).run
      (equalsSevenEnv.next fun _ => true) (List.replicate 3 ()) = some c ∧
        c.log.2 = {⟨0, 0, 0⟩} ∧ (c.threads ()).finished = false := ⟨_, rfl, rfl, rfl⟩
  have hreach : Reachable equalsSevenEnv.Step (equalsSevenEnv.start oneOutput) c :=
    Reachable.run (fun _ _ _ _ _ h => ⟨_, ScanEnv.stepThread_of_next h⟩) .start hrun
  exact ⟨c, hrun, hlog, hfinished, scan_emits_selected twoRowTable_stored.toTableServed equalsSeven_queryOk
    (equalsSeven_initPlan insertionStdSort) rfl hreach⟩

/-- One thread has emitted the 7 and not the 8. -/
theorem scan_selects_seven :
    ∃ c, (equalsSevenEnv.start oneOutput).run (equalsSevenEnv.next fun _ => true)
        (List.replicate 5 ()) = some c ∧
      c.log.2.Nodup ∧ ∀ id, id ∈ c.log.2 ↔ twoRowTable.Selects twoRowBind equalsSevenInput id := by
  obtain ⟨c, hrun, hfinished⟩ : ∃ c, (equalsSevenEnv.start oneOutput).run
      (equalsSevenEnv.next fun _ => true) (List.replicate 5 ()) = some c ∧
        (c.threads ()).finished = true := ⟨_, rfl, rfl⟩
  have hreach : Reachable equalsSevenEnv.Step (equalsSevenEnv.start oneOutput) c :=
    Reachable.run (fun _ _ _ _ _ h => ⟨_, ScanEnv.stepThread_of_next h⟩) .start hrun
  exact ⟨c, hrun, scan_selects twoRowTable_stored equalsSeven_queryOk (equalsSeven_initPlan insertionStdSort)
    (fun pf hpf hstr => by obtain rfl := List.mem_singleton.mp hpf; cases hstr) nofun rfl rfl hreach
    fun _ => hfinished⟩

end TaeScanner
