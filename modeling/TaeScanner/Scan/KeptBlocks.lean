/-
  TaeScanner.Scan.KeptBlocks

  Pruning keeps the block of every row that passes, whatever the ordered types of
  the filtered columns.  Each of the three layers asks the same evaluator, so the
  block is kept as soon as no filter rejects a zone map that describes its column.
-/

import TaeScanner.Filter.DescribedColumns
import TaeScanner.Scan.Pruning

namespace TaeScanner

/-- The manifest counts blocks like those objects that can be read. -/
def BlockCountsAgree (bind : TAEScanBindData) (storage : Storage) : Prop :=
  ∀ (obj : Nat) (info : TAEObjectInfo) (md : ObjectMeta),
    bind.objects[obj]? = some info → storage.readMeta obj = some md → md.blockCount = info.blocks

/-- The zone maps of a table describe its columns, and its manifest counts blocks like
    the object files. -/
structure ZoneMapsDescribe (bind : TAEScanBindData) (storage : Storage) (content : TableContent) : Prop where
  block_counts : BlockCountsAgree bind storage
  block_zoneMaps : ∀ {obj blk seqnum : Nat} {md : ObjectMeta} {zm : ZoneMap}, storage.readMeta obj = some md →
    md.getZoneMap blk seqnum = some zm → zm.isInited = true → zm.Describes (content obj blk seqnum)
  sort_zoneMaps : ∀ {obj : Nat} {info : TAEObjectInfo} {zm : ZoneMap} {blk : Nat},
    bind.objects[obj]? = some info → info.sortKeyZm = some zm → zm.isInited = true → blk < info.blocks →
      zm.Describes (content obj blk bind.sortSeqnum)

section Layers
variable {bind : TAEScanBindData} {filters : List PushedFilter} {storage : Storage} {content : TableContent}
  {obj blk : Nat} {info : TAEObjectInfo} {md : ObjectMeta}

/-- No filter rejects a zone map that describes its column in the block. -/
def KeepsDescribed (filters : List PushedFilter) (content : TableContent) (obj blk : Nat) : Prop :=
  ∀ pf ∈ filters, ∀ zm : Option ZoneMap,
    (∀ z, zm = some z → z.isInited = true → z.Describes (content obj blk pf.seqnum)) →
      evalFilterOnZoneMap pf zm = true

/-- The per-block check, at Init and at Execute, keeps the block. -/
theorem KeepsDescribed.blockPassesFilters (h : KeepsDescribed filters content obj blk)
    (hzms : ZoneMapsDescribe bind storage content) (hmd : storage.readMeta obj = some md) :
    blockPassesFilters filters (md.getZoneMap blk) = true :=
  List.all_eq_true.mpr fun pf hpf => h pf hpf _ fun _ hz hinit => hzms.block_zoneMaps hmd hz hinit

/-- The manifest check keeps the object of the block. -/
theorem KeepsDescribed.not_manifestExcludes (h : KeepsDescribed filters content obj blk)
    (hzms : ZoneMapsDescribe bind storage content) (hobj : bind.objects[obj]? = some info)
    (hblk : blk < info.blocks) : manifestExcludes filters bind.sortSeqnum info = false := by
  have hpass : zoneMapPassesFilters filters info.sortKeyZm bind.sortSeqnum = true := by
    apply List.all_eq_true.mpr
    intro pf hpf
    by_cases hseq : pf.seqnum = bind.sortSeqnum
    · have hkeep : evalFilterOnZoneMap pf info.sortKeyZm = true := by
        apply h pf hpf
        intro z hz hinit
        rw [hseq]
        exact hzms.sort_zoneMaps hobj hz hinit hblk
      rw [hkeep, Bool.or_true]
    · rw [show (pf.seqnum != bind.sortSeqnum) = true from bne_iff_ne.mpr hseq, Bool.true_or]
  rw [manifestExcludes, hpass, Bool.not_true, Bool.and_false]

/-- The block is queued. -/
theorem KeepsDescribed.mem_buildWorkUnits (h : KeepsDescribed filters content obj blk)
    (hzms : ZoneMapsDescribe bind storage content) (hobj : bind.objects[obj]? = some info)
    (hblk : blk < info.blocks) : (⟨obj, blk⟩ : WorkUnit) ∈ buildWorkUnits bind filters storage := by
  apply (TaeScanner.mem_buildWorkUnits hobj).mpr
  rw [objectUnits, pruneObject]
  split
  · exact mem_allBlocks.mpr ⟨rfl, hblk⟩
  · rw [h.not_manifestExcludes hzms hobj hblk, if_neg Bool.false_ne_true]
    cases hmd : storage.readMeta obj with
    | none => exact mem_allBlocks.mpr ⟨rfl, hblk⟩
    | some md =>
        have hlt : blk < md.blockCount := by
          rw [hzms.block_counts obj info md hobj hmd]
          exact hblk
        apply List.mem_map.mpr
        exact ⟨blk, List.mem_filter.mpr ⟨List.mem_range.mpr hlt, h.blockPassesFilters hzms hmd⟩, rfl⟩

end Layers

end TaeScanner
