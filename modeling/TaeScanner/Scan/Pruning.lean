/-
  TaeScanner.Scan.Pruning

  Pruning is transparent.  The three layers (the manifest's sort key zone maps,
  the block zone maps at Init and again at Execute) share one evaluator, so a
  row that passes all filters is kept by each of them as soon as the zone maps
  bound the columns they belong to.
-/

import TaeScanner.Scan.Init

namespace TaeScanner

open Lib

/-- The column that block `blk` of object `obj` stores under a seqnum. -/
abbrev TableContent := Nat → Nat → Nat → DecodedColumn

/-- The zone maps of a table bound its columns, and its manifest counts blocks
    like the object files. -/
structure ZoneMapsBound (bind : TAEScanBindData) (storage : Storage) (content : TableContent) :
    Prop where
  block_counts : ∀ (obj : Nat) (info : TAEObjectInfo) (md : ObjectMeta),
    bind.objects[obj]? = some info → storage.readMeta obj = some md → md.blockCount = info.blocks
  block_zoneMaps : ∀ (obj blk seqnum : Nat) (md : ObjectMeta) (zm : ZoneMap),
    storage.readMeta obj = some md → md.getZoneMap blk seqnum = some zm → zm.isInited = true →
      zm.Bounds (content obj blk seqnum)
  sort_zoneMaps : ∀ (obj : Nat) (info : TAEObjectInfo) (zm : ZoneMap) (blk : Nat),
    bind.objects[obj]? = some info → info.sortKeyZm = some zm → zm.isInited = true →
      blk < info.blocks → zm.Bounds (content obj blk bind.sortSeqnum)

/-- Each filter is on a column that is read, of the filter's own type, one of the
    types compared as numbers. -/
structure FiltersOnNumbers (readSeqnums : List Nat) (filters : List PushedFilter)
    (content : TableContent) : Prop where
  wired : ∀ pf ∈ filters, readSeqnums[pf.colIdx]? = some pf.seqnum
  wellFormed : ∀ pf ∈ filters, ∀ obj blk, pf.WellFormed (content obj blk pf.seqnum).type
  number : ∀ pf ∈ filters, (scalarTypeOf pf.kind).isSome

/-- A row of the block passes every filter. -/
structure RowPasses (content : TableContent) (readSeqnums : List Nat) (filters : List PushedFilter)
    (obj blk row : Nat) : Prop where
  row_lt : ∀ s ∈ readSeqnums, row < (content obj blk s).rowCount
  passes : rowPassesFilters filters (readSeqnums.map (content obj blk)) row = some true

section Sound
variable {content : TableContent} {readSeqnums : List Nat} {filters : List PushedFilter}
  {obj blk row : Nat}

/-- A passing row passes each filter on the column the filter names. -/
theorem RowPasses.passes_filter (h : RowPasses content readSeqnums filters obj blk row)
    (hwired : FiltersOnNumbers readSeqnums filters content) {pf : PushedFilter} (hpf : pf ∈ filters) :
    row < (content obj blk pf.seqnum).rowCount ∧
      rowPassesFilter pf (content obj blk pf.seqnum) row = some true := by
  have hseq := hwired.wired pf hpf
  have hcol : (readSeqnums.map (content obj blk))[pf.colIdx]? = some (content obj blk pf.seqnum) := by
    rw [List.getElem?_map, hseq, Option.map_some]
  have hpass := allM_eq_true.mp h.passes pf hpf
  rw [hcol] at hpass
  exact ⟨h.row_lt pf.seqnum (List.mem_of_getElem? hseq), hpass⟩

/-- No zone map that bounds the filtered column rejects a passing row. -/
theorem RowPasses.evalFilterOnZoneMap (h : RowPasses content readSeqnums filters obj blk row)
    (hwired : FiltersOnNumbers readSeqnums filters content) {pf : PushedFilter} (hpf : pf ∈ filters)
    {zm : Option ZoneMap}
    (hzm : ∀ z, zm = some z → z.isInited = true → z.Bounds (content obj blk pf.seqnum)) :
    evalFilterOnZoneMap pf zm = true := by
  obtain ⟨hrow, hpass⟩ := h.passes_filter hwired hpf
  have hwf := hwired.wellFormed pf hpf obj blk
  cases zm with
  | none => rfl
  | some z =>
      obtain ⟨st, hst⟩ := Option.isSome_iff_exists.mp (hwired.number pf hpf)
      have hst' : scalarTypeOf (content obj blk pf.seqnum).kind = some st := by
        rw [← hst, hwf.kind_eq]
        rfl
      exact evalFilterOnZoneMap_sound hst' hwf hrow (hzm z rfl) hpass

/-- The per-block check, at Init and at Execute, keeps the block of the row. -/
theorem RowPasses.blockPassesFilters (h : RowPasses content readSeqnums filters obj blk row)
    (hwired : FiltersOnNumbers readSeqnums filters content) {bind : TAEScanBindData}
    {storage : Storage} (hbound : ZoneMapsBound bind storage content) {md : ObjectMeta}
    (hmd : storage.readMeta obj = some md) :
    blockPassesFilters filters (md.getZoneMap blk) = true := by
  refine List.all_eq_true.mpr fun pf hpf => ?_
  refine h.evalFilterOnZoneMap hwired hpf fun z hz hinit => ?_
  exact hbound.block_zoneMaps obj blk pf.seqnum md z hmd hz hinit

/-- The manifest check keeps the object of the row. -/
theorem RowPasses.not_manifestExcludes (h : RowPasses content readSeqnums filters obj blk row)
    (hwired : FiltersOnNumbers readSeqnums filters content) {bind : TAEScanBindData}
    {storage : Storage} (hbound : ZoneMapsBound bind storage content) {info : TAEObjectInfo}
    (hobj : bind.objects[obj]? = some info) (hblk : blk < info.blocks) :
    manifestExcludes filters bind.sortSeqnum info = false := by
  have hpass : zoneMapPassesFilters filters info.sortKeyZm bind.sortSeqnum = true := by
    refine List.all_eq_true.mpr fun pf hpf => ?_
    by_cases hseq : pf.seqnum = bind.sortSeqnum
    · rw [h.evalFilterOnZoneMap hwired hpf fun z hz hinit => ?_, Bool.or_true]
      rw [hseq]
      exact hbound.sort_zoneMaps obj info z blk hobj hz hinit hblk
    · simp [hseq]
  rw [manifestExcludes, hpass]
  simp

end Sound

/-- Pruning is transparent: a row that passes all filters lies in a block that
    every pruning layer keeps, no block is queued twice, and an object whose
    metadata cannot be read has all its manifest blocks queued unless the
    manifest zone map alone excluded it. -/
theorem pruning_transparent {bind : TAEScanBindData} {storage : Storage} {content : TableContent}
    {readSeqnums : List Nat} {filters : List PushedFilter}
    (hbound : ZoneMapsBound bind storage content)
    (hwired : FiltersOnNumbers readSeqnums filters content) :
    (∀ obj info blk row, bind.objects[obj]? = some info → blk < info.blocks →
      RowPasses content readSeqnums filters obj blk row →
        manifestExcludes filters bind.sortSeqnum info = false ∧
        (⟨obj, blk⟩ : WorkUnit) ∈ buildWorkUnits bind filters storage ∧
        ∀ md, storage.readMeta obj = some md → blockPassesFilters filters (md.getZoneMap blk) = true) ∧
    (buildWorkUnits bind filters storage).Nodup ∧
    (∀ obj info, bind.objects[obj]? = some info → storage.readMeta obj = none →
      manifestExcludes filters bind.sortSeqnum info = false →
        ∀ blk, blk < info.blocks → (⟨obj, blk⟩ : WorkUnit) ∈ buildWorkUnits bind filters storage) := by
  refine ⟨fun obj info blk row hobj hblk hrow => ?_, buildWorkUnits_nodup, ?_⟩
  · have hman := hrow.not_manifestExcludes hwired hbound hobj hblk
    have hkeep : ∀ md, storage.readMeta obj = some md →
        blockPassesFilters filters (md.getZoneMap blk) = true := fun md hmd =>
      hrow.blockPassesFilters hwired hbound hmd
    refine ⟨hman, (mem_buildWorkUnits hobj).mpr ?_, hkeep⟩
    rw [objectUnits, pruneObject]
    split
    · exact mem_allBlocks.mpr ⟨rfl, hblk⟩
    · rw [hman, if_neg Bool.false_ne_true]
      cases hmd : storage.readMeta obj with
      | none => exact mem_allBlocks.mpr ⟨rfl, hblk⟩
      | some md =>
          have hlt : blk < md.blockCount := by
            rw [hbound.block_counts obj info md hobj hmd]
            exact hblk
          refine List.mem_map.mpr ⟨blk, ?_, rfl⟩
          exact List.mem_filter.mpr ⟨List.mem_range.mpr hlt, hkeep md hmd⟩
  · intro obj info hobj hmd hman blk hblk
    refine (mem_buildWorkUnits hobj).mpr ?_
    rw [objectUnits, pruneObject]
    split
    · exact mem_allBlocks.mpr ⟨rfl, hblk⟩
    · rw [hman, if_neg Bool.false_ne_true, hmd]
      exact mem_allBlocks.mpr ⟨rfl, hblk⟩

/-- The initialised zone map of `int32` values between two bytes. -/
def int32ZoneMap (lo hi : Byte) : ZoneMap :=
  ⟨lo :: List.replicate 30 0 ++ hi :: List.replicate 30 0 ++ [0x80, 22], rfl⟩

/-- A table of one object, one block and one row, holding 7 and sorted by it. -/
def sevenColumn : DecodedColumn := { type := { oid := 22 }, rowCount := 1, data := leBytes 4 7 }

def sevenBind : TAEScanBindData :=
  { allColTypes := [.integer], allColMoOids := [22], allColSeqnums := [0], sortColumnIdx := 0,
    objects := [{ filePath := "a.tae", rows := 1, blocks := 1, sortKeyZm := some (int32ZoneMap 7 7) }] }

def sevenStorage : Storage where
  readMeta := fun _ => some ⟨[{ rows := 1, columns := [{ zoneMap := int32ZoneMap 7 7 }] }]⟩
  readBlock := fun _ _ seqnums => some (seqnums.map fun _ => sevenColumn)
  readBlock_length := by
    intro _ _ seqnums cols h
    rw [← Option.some.inj h, List.length_map]

def sevenFilter : PushedFilter :=
  { colIdx := 0, seqnum := 0, moTypeOid := 22, op := .equal, constant := ⟨leBytes 4 7, 4⟩ }

theorem sevenZoneMap_bounds : (int32ZoneMap 7 7).Bounds sevenColumn := by
  intro st hst row hrow _ bs hbs
  obtain rfl : st = .int 4 := (Option.some.inj hst).symm
  obtain rfl : row = 0 := Nat.lt_one_iff.mp hrow
  obtain rfl : leBytes 4 7 = bs := Option.some.inj hbs
  exact ⟨by decide, by decide⟩

/-- The block that holds 7 survives all three layers under `x = 7`. -/
theorem sevenBlock_kept :
    manifestExcludes [sevenFilter] sevenBind.sortSeqnum sevenBind.objects[0] = false ∧
      (⟨0, 0⟩ : WorkUnit) ∈ buildWorkUnits sevenBind [sevenFilter] sevenStorage ∧
      ∀ md, sevenStorage.readMeta 0 = some md →
        blockPassesFilters [sevenFilter] (md.getZoneMap 0) = true := by
  have hbound : ZoneMapsBound sevenBind sevenStorage (fun _ _ _ => sevenColumn) := by
    refine ⟨?_, ?_, ?_⟩
    · intro obj info md hobj hmd
      obtain rfl := Option.some.inj hmd
      cases obj with
      | zero => exact congrArg TAEObjectInfo.blocks (Option.some.inj hobj)
      | succ n => cases hobj
    · intro obj blk seqnum md zm hmd hzm _
      obtain rfl := Option.some.inj hmd
      have hseven : zm = int32ZoneMap 7 7 := by
        rcases blk with _ | blk <;> rcases seqnum with _ | seqnum <;> cases hzm
        rfl
      rw [hseven]
      exact sevenZoneMap_bounds
    · intro obj info zm blk hobj hzm _ _
      cases obj with
      | zero =>
          obtain rfl := Option.some.inj hobj
          obtain rfl := Option.some.inj hzm
          exact sevenZoneMap_bounds
      | succ n => cases hobj
  have hwired : FiltersOnNumbers [0] [sevenFilter] (fun _ _ _ => sevenColumn) := by
    refine ⟨fun pf hpf => ?_, fun pf hpf _ _ => ?_, fun pf hpf => ?_⟩ <;>
      obtain rfl := List.mem_singleton.mp hpf
    · rfl
    · exact ⟨rfl, fun _ _ _ => ⟨fun _ => ⟨by decide, by decide⟩, fun h => absurd h (by decide)⟩,
        fun h => absurd h (by decide)⟩
    · rfl
  refine (pruning_transparent hbound hwired).1 0 _ 0 0 rfl (by decide) ⟨fun s _ => ?_, by decide⟩
  exact Nat.one_pos

end TaeScanner
