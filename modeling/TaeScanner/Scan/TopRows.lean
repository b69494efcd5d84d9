/-
  TaeScanner.Scan.TopRows

  ORDER BY .. LIMIT, from the pushdown in Init to the rows that are emitted.

    * the units are sorted by one bound of their blocks, and those behind the row
      limit are dropped;
    * when the blocks lie apart in the order column, as in a table that is sorted
      by it, the values of a dropped unit come behind those of each kept one;
    * the threads emit the rows of the kept units in some order, and the first of
      these rows are the first rows of the table.
-/

import TaeScanner.Scan.OrderedRanges
import TaeScanner.Scan.Progress

namespace TaeScanner

open Lib

-- ============================================================================
-- Tables whose blocks lie apart
-- ============================================================================

/-- The rows of a block, and those of the table in the order of the manifest. -/
def Table.blockRows (t : Table) (wu : WorkUnit) : List RowId :=
  (List.range (t.rows wu.objectIdx wu.blockIdx)).map (RowId.mk wu.objectIdx wu.blockIdx)

def Table.allRows (t : Table) (bind : TAEScanBindData) : List RowId := (listedUnits bind).flatMap t.blockRows

/-- The key a row is ordered by in a column; `none` for a NULL. -/
def Table.orderKey? (t : Table) (seqnum : Nat) (id : RowId) : Option OrderKey :=
  (t.cell? id seqnum).join.map (·.orderKey)

/-- The blocks of the table lie apart in the order column, which has no NULLs: each has
    a zone map, with fields that DuckDB's types hold, and the ranges of two of them do not
    meet. -/
structure BlocksApart (bind : TAEScanBindData) (storage : Storage) (order : ScanOrderInfo) (col : OrderColumn)
    (t : Table) : Prop where
  compared : col.moOid.IsCompared
  kind_eq : (t.type col.seqnum).kind = col.moOid
  isString_eq : order.isString = isStringType col.moOid
  notNull : ∀ {id}, Table.HasBlock bind id.objectIdx id.blockIdx → id.row < t.rows id.objectIdx id.blockIdx →
    ∃ v, t.cell? id col.seqnum = some (some v)
  zoneMap : ∀ {wu : WorkUnit}, Table.HasBlock bind wu.objectIdx wu.blockIdx →
    ∃ zm, unitZoneMap? storage col wu = some zm ∧ zm.isInited = true ∧ zm.FieldsWhole col.moOid ∧
      zm.FieldsFit col.moOid col.colType
  apart : ∀ {wu wu' : WorkUnit} {zm zm' : ZoneMap}, Table.HasBlock bind wu.objectIdx wu.blockIdx →
    Table.HasBlock bind wu'.objectIdx wu'.blockIdx → wu ≠ wu' → unitZoneMap? storage col wu = some zm →
      unitZoneMap? storage col wu' = some zm' → ∀ {r r'}, order.range? col zm = some r →
        order.range? col zm' = some r' → r.2 < r'.1 ∨ r'.2 < r.1

-- ============================================================================
-- The keys of a stored table
-- ============================================================================

/-- The keys of the rows of a block. -/
def Table.blockKeys (t : Table) (seqnum : Nat) (wu : WorkUnit) : List OrderKey :=
  (t.blockRows wu).filterMap (t.orderKey? seqnum)

theorem Table.mem_blockRows {t : Table} {wu : WorkUnit} {id : RowId} :
    id ∈ t.blockRows wu ↔ id.unit = wu ∧ id.row < t.rows wu.objectIdx wu.blockIdx := by
  rw [blockRows, List.mem_map]
  constructor
  · rintro ⟨row, hrow, rfl⟩
    exact ⟨rfl, List.mem_range.mp hrow⟩
  · rintro ⟨rfl, hrow⟩
    exact ⟨id.row, List.mem_range.mpr hrow, rfl⟩

section Keys
variable {bind : TAEScanBindData} {storage : Storage} {order : ScanOrderInfo} {col : OrderColumn} {t : Table}
  (hserved : TableServed bind storage t) (hapart : BlocksApart bind storage order col t)
  (hseqnum : col.seqnum ∈ bind.allColSeqnums)

include hapart in
/-- No row is left out of the keys. -/
theorem BlocksApart.blockKeys_length {wu : WorkUnit} (hblock : Table.HasBlock bind wu.objectIdx wu.blockIdx) :
    (t.blockKeys col.seqnum wu).length = t.rows wu.objectIdx wu.blockIdx := by
  rw [Table.blockKeys, List.filterMap_length_eq_length.mpr, Table.blockRows, List.length_map, List.length_range]
  intro id hid
  obtain ⟨rfl, hrow⟩ := Table.mem_blockRows.mp hid
  obtain ⟨v, hv⟩ := hapart.notNull hblock hrow
  rw [Table.orderKey?, hv]
  rfl

include hserved hapart hseqnum

/-- The zone map of a block bounds the values of its rows. -/
theorem BlocksApart.boundsKey {wu : WorkUnit} (hblock : Table.HasBlock bind wu.objectIdx wu.blockIdx) {zm : ZoneMap}
    (hzm : unitZoneMap? storage col wu = some zm) {key : OrderKey} (hkey : key ∈ t.blockKeys col.seqnum wu) :
    ∃ v : SqlValue, v.orderKey = key ∧ zm.BoundsValue (t.type col.seqnum) v := by
  rw [Table.blockKeys, List.mem_filterMap] at hkey
  obtain ⟨id, hid, hkey⟩ := hkey
  obtain ⟨rfl, hrow⟩ := Table.mem_blockRows.mp hid
  obtain ⟨v, hv⟩ := hapart.notNull hblock hrow
  rw [Table.orderKey?, hv] at hkey
  refine ⟨v, Option.some.inj hkey, ?_⟩
  obtain ⟨zm', hzm', hinit, hwhole, -⟩ := hapart.zoneMap hblock
  obtain rfl := Option.some.inj (hzm.symm.trans hzm')
  obtain ⟨md, hmd, hzone⟩ := Option.bind_eq_some_iff.mp hzm
  have hdescribes := hserved.zoneMaps.block_zoneMaps hmd hzone hinit
  have htype := hserved.type id.objectIdx id.blockIdx col.seqnum
  have hkind : (t.content id.objectIdx id.blockIdx col.seqnum).kind = col.moOid := by
    rw [DecodedColumn.kind, htype, hapart.kind_eq]
  -- a cell that is not NULL is what the column stores
  rw [Table.cell?, DecodedColumn.cell?] at hv
  split at hv
  · cases Option.some.inj hv
  · next hnull =>
      obtain ⟨v', hstored, hv⟩ := Option.map_eq_some_iff.mp hv
      obtain rfl := Option.some.inj hv
      rw [← htype]
      apply hdescribes.boundsValue _ (Bool.eq_false_iff.mpr hnull) hstored (hkind ▸ hapart.compared) (hkind ▸ hwhole)
      rw [hserved.rowCount hblock hseqnum]
      exact hrow

/-- Of two units, the values of the one that may stand in front come first. -/
theorem BlocksApart.comesFirst {a b : WorkUnit} (hblockA : Table.HasBlock bind a.objectIdx a.blockIdx)
    (hblockB : Table.HasBlock bind b.objectIdx b.blockIdx) (hne : a ≠ b) (hle : UnitLe storage order col a b)
    {x d : OrderKey} (hx : x ∈ t.blockKeys col.seqnum a) (hd : d ∈ t.blockKeys col.seqnum b) :
    order.ComesFirst x d := by
  obtain ⟨zm, hzm, -, -⟩ := hapart.zoneMap hblockA
  obtain ⟨zm', hzm', -, -⟩ := hapart.zoneMap hblockB
  obtain ⟨r, hr⟩ := range?_isSome zm hapart.compared hapart.isString_eq
  obtain ⟨r', hr'⟩ := range?_isSome zm' hapart.compared hapart.isString_eq
  obtain ⟨v, rfl, hv⟩ := hapart.boundsKey hserved hseqnum hblockA hzm hx
  obtain ⟨w, rfl, hw⟩ := hapart.boundsKey hserved hseqnum hblockB hzm' hd
  have hkeys : order.ComesFirst (if order.useMinStat then r.1 else r.2)
      (if order.useMinStat then r'.1 else r'.2) := by
    obtain ⟨keyA, hkeyA, hendA⟩ := keyOf_of_range? hr
    obtain ⟨keyB, hkeyB, hendB⟩ := keyOf_of_range? hr'
    rw [UnitLe, unitKey, hzm, Option.bind_some, hkeyA, unitKey, hzm', Option.bind_some, hkeyB] at hle
    rw [← hendA, ← hendB]
    exact hle
  have hfirst : order.RangeFirst r r' :=
    rangeFirst_of_apart (range_le hapart.kind_eq hapart.isString_eq hv hr)
      (range_le hapart.kind_eq hapart.isString_eq hw hr') (hapart.apart hblockA hblockB hne hzm hzm' hr hr') hkeys
  exact comesFirst_of_rangeFirst hapart.kind_eq hapart.kind_eq hapart.isString_eq hv hw hr hr' hfirst

/-- The fronts of the queued blocks suffice. -/
theorem BlocksApart.frontsSuffice {units : List WorkUnit} (hnodup : units.Nodup)
    (hblocks : ∀ wu ∈ units, Table.HasBlock bind wu.objectIdx wu.blockIdx)
    (hmeta : ∀ wu ∈ units, (storage.readMeta wu.objectIdx).isSome) :
    FrontsSuffice storage order col (t.blockKeys col.seqnum) units := by
  apply frontsSuffice_of_apart
  intro wu hwu _ w hw d hd
  obtain ⟨hmem, hle⟩ := List.mem_filter.mp hw
  obtain ⟨hne, hmem⟩ := hnodup.mem_erase_iff.mp hmem
  constructor
  · obtain ⟨md, hmd⟩ := Option.isSome_iff_exists.mp (hmeta w hmem)
    obtain ⟨info, hobj, hblk⟩ := hblocks w hmem
    rw [hapart.blockKeys_length (hblocks w hmem), rawRows, hmd]
    exact (hserved.readMeta hobj hmd _ hblk).symm
  · intro x hx
    exact hapart.comesFirst hserved hseqnum (hblocks w hmem) (hblocks wu hwu) hne (of_decide_eq_true hle) hx hd

end Keys

-- ============================================================================
-- Scans under a row limit
-- ============================================================================

section Scan
variable {tryGet : ColumnConstantComparison} {bt : BlobText} {std : StdSort} {bind : TAEScanBindData}
  {input : InitInput} {env : ScanEnv} {t : Table} {order : ScanOrderInfo} {col : OrderColumn}

theorem sum_map_coe {α β : Type} (f : α → List β) (l : List α) :
    (l.map fun a => (f a : Multiset β)).sum = (l.flatMap f : List β) := by
  induction l with
  | nil => rfl
  | cons a l ih =>
      rw [List.map_cons, List.sum_cons, ih, List.flatMap_cons]
      rfl

/-- Without filters a queued unit has all rows of its block. -/
theorem unitRows_stored (hstored : TableStored bind env.storage t) (hslow : env.fast = false)
    (hread : ∀ s ∈ env.plan.readSeqnums, s ∈ bind.allColSeqnums) (hnil : env.plan.filters = []) {wu : WorkUnit}
    (hblock : Table.HasBlock bind wu.objectIdx wu.blockIdx) : env.unitRows wu = t.blockRows wu := by
  have hkept : ∀ md, env.storage.readMeta wu.objectIdx = some md →
      env.plan.skipsBlock md wu.blockIdx = false := by
    intro md _
    rw [ScanPlan.skipsBlock, hnil]
    rfl
  have hunit := unitBlock_stored hstored hslow hread hblock hkept
  rw [ScanEnv.unitRows, hunit]
  show rowIds _ _ _ = _
  rw [ScanPlan.passingFrom_of_no_filters hnil, ← List.range_eq_range', Table.blockRows]
  rfl

/-- The queue has the first keys of the table. -/
theorem topN_queue {storage : Storage} {filters : List PushedFilter} {workUnits : List WorkUnit}
    (hserved : TableServed bind storage t) (hunits : initWorkUnits? std bind filters storage = some workUnits)
    (hnil : filters = []) (horder : bind.scanOrder = some order) (hcol : bind.orderColumn? order = some col)
    (hapart : BlocksApart bind storage order col t) :
    topN order.ComesFirst order.rowLimit (workUnits.flatMap (t.blockKeys col.seqnum)) =
      topN order.ComesFirst order.rowLimit ((listedUnits bind).flatMap (t.blockKeys col.seqnum)) := by
  have hseqnum : col.seqnum ∈ bind.allColSeqnums := by
    obtain ⟨seqnum, hget, hcol⟩ := Option.bind_eq_some_iff.mp hcol
    obtain ⟨oid, -, hcol⟩ := Option.bind_eq_some_iff.mp hcol
    obtain ⟨colType, -, rfl⟩ := Option.map_eq_some_iff.mp hcol
    exact List.mem_of_getElem? hget
  have hblocks : ∀ wu ∈ buildWorkUnits bind filters storage, Table.HasBlock bind wu.objectIdx wu.blockIdx :=
    fun wu hwu => hasBlock_of_mem_buildWorkUnits hserved.zoneMaps hwu
  simp only [initWorkUnits?, horder, hcol] at hunits
  have hordered := orderUnits_of_orderUnits? hunits
  have hlisted : buildWorkUnits bind filters storage = listedUnits bind := buildWorkUnits_of_no_filters hnil
  rw [← hlisted]
  obtain ⟨sortable, hsortable, -⟩ := Option.map_eq_some_iff.mp hordered
  have hmeta : ∀ wu ∈ buildWorkUnits bind filters storage, (storage.readMeta wu.objectIdx).isSome := by
    intro wu hwu
    have hsome := mapM_isSome_iff.mp (Option.isSome_of_eq_some hsortable) wu hwu
    rwa [sortableUnit, Option.isSome_map] at hsome
  obtain hzero | hlimit := Nat.eq_zero_or_pos order.rowLimit
  · rw [hzero, topN, topN, List.take_zero, List.take_zero]
  · have hfronts := hapart.frontsSuffice hserved hseqnum buildWorkUnits_nodup hblocks hmeta
    obtain ⟨kept, hkept, htop⟩ := (orderUnits_topN_iff hlimit hmeta).mpr hfronts std
    obtain rfl := Option.some.inj (hordered.symm.trans hkept)
    exact htop

/-- **ORDER BY .. LIMIT finds the first rows.**  When the blocks of the table lie apart in
    the order column, the rows that the threads emit, in whatever order they arrive, have
    the first values of the whole table among them. -/
theorem limited_scan_topRows {ι : Type} [DecidableEq ι] [Fintype ι] [Nonempty ι] {outputs : ι → DataChunk}
    {c : Config ι ScanShared ScanThread ScanLog} (hstored : TableStored bind env.storage t)
    (hplan : InitPlan tryGet bt std bind input env.storage env.plan) (hnil : env.plan.filters = [])
    (hslow : env.fast = false) (hsample : env.plan.doSample = false) (horder : bind.scanOrder = some order)
    (hcol : bind.orderColumn? order = some col) (hapart : BlocksApart bind env.storage order col t)
    (h : Reachable env.Step (env.start outputs) c) (hdone : ∀ i, (c.threads i).finished = true)
    {rows : List RowId} (hrows : (rows : Multiset RowId) = c.log.2) :
    topN order.ComesFirst order.rowLimit (rows.filterMap (t.orderKey? col.seqnum)) =
      topN order.ComesFirst order.rowLimit ((t.allRows bind).filterMap (t.orderKey? col.seqnum)) := by
  obtain ⟨sc, hinit, hread, -, -⟩ := hplan.columns
  -- the threads have emitted the rows of the queue
  have hqueue : (rows : Multiset RowId) = (env.plan.workUnits.flatMap t.blockRows : List RowId) := by
    rw [hrows, ScanEnv.emitted_of_finished hslow hsample h hdone, ScanEnv.queueRows, ← sum_map_coe]
    refine congrArg List.sum (List.map_congr_left fun wu hwu => ?_)
    exact unitRows_stored hstored hslow (hread ▸ readSeqnums_inSchema hinit) hnil
      (hasBlock_of_mem_buildWorkUnits hstored.zoneMaps ((initWorkUnits?_queue hplan.units).1.subset hwu))
  have hkeys := (Multiset.coe_eq_coe.mp hqueue).filterMap (t.orderKey? col.seqnum)
  rw [topN_perm hkeys, Table.allRows, List.filterMap_flatMap, List.filterMap_flatMap]
  exact topN_queue hstored.toTableServed hplan.units hnil horder hcol hapart

end Scan

-- ============================================================================
-- A table of two blocks
-- ============================================================================

/-- Blocks that hold 3 and 100, and 1 and 2. -/
def apartTable : Table :=
  ⟨fun _ _ => 2, fun _ blk _ => if blk = 0 then byteColumn [3, 100] else byteColumn [1, 2], fun _ => { oid := 22 }⟩

/-- `SELECT x .. ORDER BY x LIMIT 2`. -/
def apartBind : TAEScanBindData :=
  { allColTypes := [.integer], allColMoOids := [22], allColSeqnums := [0]
    objects := [{ filePath := "a.tae", rows := 4, blocks := 2 }], scanOrder := some ascLimitTwo }

/-- Only the second block is left in the queue. -/
def apartEnv : ScanEnv where
  plan := {
    objects := apartBind.objects
    outputMap := [.taeColumn 0 0]
    readSeqnums := [0]
    filters := []
    workUnits := [⟨0, 1⟩]
    output_read := @oneColumn_output_read
    filters_read := oneColumn_no_filters }
  storage := apartBlocks
  fast := false
  callAgain := false
  fast_only h := absurd h Bool.false_ne_true

theorem apartBind_block {obj blk : Nat} (h : Table.HasBlock apartBind obj blk) :
    obj = 0 ∧ (blk = 0 ∨ blk = 1) := by
  obtain ⟨info, hobj, hblk⟩ := h
  cases obj with
  | zero =>
      obtain rfl := Option.some.inj hobj
      exact ⟨rfl, Nat.le_one_iff_eq_zero_or_eq_one.mp (Nat.le_of_lt_succ hblk)⟩
  | succ n => cases hobj

theorem apartTable_stored : TableStored apartBind apartBlocks apartTable where
  meta_isSome _ := rfl
  block_isSome _ _ := rfl
  readMeta := by
    intro obj info md hobj hmd blk hblk
    obtain rfl := Option.some.inj hmd
    obtain ⟨rfl, rfl | rfl⟩ := apartBind_block ⟨info, hobj, hblk⟩
    · rfl
    · rfl
  readBlock _ _ h := (Option.some.inj h).symm
  rowCount hblock _ := by
    obtain ⟨rfl, rfl | rfl⟩ := apartBind_block hblock
    · rfl
    · rfl
  type _ blk _ := by
    show (if blk = 0 then byteColumn [3, 100] else byteColumn [1, 2]).type = _
    split
    · rfl
    · rfl
  zoneMaps := by
    refine ⟨fun obj info md hobj hmd => ?_, fun {obj blk seqnum md zm} hmd hzm _ => ?_,
      fun {obj info zm blk} hobj hzm _ _ => ?_⟩
    · obtain rfl := Option.some.inj hmd
      cases obj with
      | zero =>
          obtain rfl := Option.some.inj hobj
          rfl
      | succ n => cases hobj
    · obtain rfl := Option.some.inj hmd
      rcases seqnum with _ | seqnum
      · rcases blk with _ | _ | blk
        · obtain rfl := Option.some.inj hzm
          exact byteColumn_pair_described (by decide)
        · obtain rfl := Option.some.inj hzm
          exact byteColumn_pair_described (by decide)
        · cases hzm
      · rcases blk with _ | _ | blk <;> cases hzm
    · cases obj with
      | zero =>
          obtain rfl := Option.some.inj hobj
          cases hzm
      | succ n => cases hobj

theorem apartTable_apart : BlocksApart apartBind apartBlocks ascLimitTwo xColumn apartTable where
  compared := Or.inl rfl
  kind_eq := rfl
  isString_eq := rfl
  notNull {id} hblock hrow := by
    obtain ⟨obj, blk, row⟩ := id
    obtain ⟨rfl, rfl | rfl⟩ := apartBind_block hblock <;>
      obtain rfl | rfl := Nat.le_one_iff_eq_zero_or_eq_one.mp (Nat.le_of_lt_succ hrow) <;>
        exact ⟨_, rfl⟩
  zoneMap {wu} hblock := by
    obtain ⟨obj, blk⟩ := wu
    obtain ⟨rfl, rfl | rfl⟩ := apartBind_block hblock <;>
      exact ⟨_, rfl, rfl, (fun huuid => by cases huuid), fun _ _ _ _ => rfl⟩
  apart {wu wu' zm zm'} hblock hblock' hne hzm hzm' r r' hr hr' := by
    obtain ⟨obj, blk⟩ := wu
    obtain ⟨obj', blk'⟩ := wu'
    obtain ⟨rfl, rfl | rfl⟩ := apartBind_block hblock <;>
      obtain ⟨rfl, rfl | rfl⟩ := apartBind_block hblock' <;>
        obtain rfl := Option.some.inj hzm <;> obtain rfl := Option.some.inj hzm' <;>
          obtain rfl := Option.some.inj hr <;> obtain rfl := Option.some.inj hr'
    · exact absurd rfl hne
    · exact Or.inr (by decide)
    · exact Or.inl (by decide)
    · exact absurd rfl hne

theorem apartEnv_initPlan :
    InitPlan simpleComparison .duckdb insertionStdSort apartBind { columnIds := [0] } apartBlocks apartEnv.plan where
  columns := ⟨_, rfl, rfl, rfl, rfl⟩
  objects := rfl
  units := by decide

/-- The one thread finds 1 and 2. -/
theorem limited_scan_topRows_two :
    ∃ c, (apartEnv.start oneOutput).run (apartEnv.next fun _ => true) (List.replicate 5 ()) = some c ∧
      (([⟨0, 1, 0⟩, ⟨0, 1, 1⟩] : List RowId) : Multiset RowId) = c.log.2 ∧
      topN ascLimitTwo.ComesFirst 2 (([⟨0, 1, 0⟩, ⟨0, 1, 1⟩] : List RowId).filterMap (apartTable.orderKey? 0)) =
        topN ascLimitTwo.ComesFirst 2 ((apartTable.allRows apartBind).filterMap (apartTable.orderKey? 0)) := by
  obtain ⟨c, hrun, hlog, hfinished⟩ : ∃ c, (apartEnv.start oneOutput).run
      (apartEnv.next fun _ => true) (List.replicate 5 ()) = some c ∧
        (([⟨0, 1, 0⟩, ⟨0, 1, 1⟩] : List RowId) : Multiset RowId) = c.log.2 ∧
          (c.threads ()).finished = true := ⟨_, rfl, rfl, rfl⟩
  have hreach : Reachable apartEnv.Step (apartEnv.start oneOutput) c :=
    Reachable.run (fun _ _ _ _ _ h => ⟨_, ScanEnv.stepThread_of_next h⟩) .start hrun
  exact ⟨c, hrun, hlog, limited_scan_topRows apartTable_stored apartEnv_initPlan rfl rfl rfl rfl rfl
    apartTable_apart hreach (fun _ => hfinished) hlog⟩

end TaeScanner
