/-
  TaeScanner.Scan.Init

  The work queue of `TAEScanInit`: object-level pruning by the manifest's zone
  maps, block-level pruning by the metadata, and the exception path that queues
  every block of an object whose metadata cannot be read.
-/

import Mathlib.Data.List.Nodup
import TaeScanner.Scan.State

namespace TaeScanner

open Lib

/-- The seqnum of the manifest's sort column, `UINT16_MAX` when there is none. -/
def TAEScanBindData.sortSeqnum (bind : TAEScanBindData) : Nat :=
  if 0 ≤ bind.sortColumnIdx then (bind.allColSeqnums[bind.sortColumnIdx.toNat]?).getD 65535 else 65535

/-- Does the sort key zone map alone eliminate the object? -/
def manifestExcludes (filters : List PushedFilter) (sortSeqnum : Nat) (info : TAEObjectInfo) : Bool :=
  info.sortKeyZm.isSome && sortSeqnum != 65535
    && !zoneMapPassesFilters filters info.sortKeyZm sortSeqnum

/-- All blocks the manifest gives an object. -/
def allBlocks (obj : Nat) (info : TAEObjectInfo) : List WorkUnit :=
  (List.range info.blocks).map fun blk => ⟨obj, blk⟩

/-- What the visit of one object adds to the queue and to the counters. -/
structure ObjectPruning where
  units : List WorkUnit
  blocksSkipped : Nat
  objectsSkipped : Nat

/-- The loop body over the objects, when filters are present. -/
def pruneObject (filters : List PushedFilter) (sortSeqnum : Nat) (storage : Storage) (obj : Nat)
    (info : TAEObjectInfo) : ObjectPruning :=
  if manifestExcludes filters sortSeqnum info then ⟨[], info.blocks, 1⟩
  else
    match storage.readMeta obj with
    | none => ⟨allBlocks obj info, 0, 0⟩
    | some md =>
        let passing := (List.range md.blockCount).filter fun blk =>
          blockPassesFilters filters (md.getZoneMap blk)
        ⟨passing.map fun blk => ⟨obj, blk⟩, md.blockCount - passing.length,
          if passing.isEmpty then 1 else 0⟩

/-- The units an object contributes. -/
def objectUnits (bind : TAEScanBindData) (filters : List PushedFilter) (storage : Storage)
    (info : TAEObjectInfo) (obj : Nat) : List WorkUnit :=
  if filters = [] then allBlocks obj info
  else (pruneObject filters bind.sortSeqnum storage obj info).units

/-- `work_units` before any ordering: the objects in turn. -/
def buildWorkUnits (bind : TAEScanBindData) (filters : List PushedFilter) (storage : Storage) :
    List WorkUnit :=
  bind.objects.zipIdx.flatMap fun p => objectUnits bind filters storage p.1 p.2

/-- `blocks_skipped` and `objects_skipped` after Init. -/
def initSkipped (bind : TAEScanBindData) (filters : List PushedFilter) (storage : Storage) : Nat × Nat :=
  if filters = [] then (0, 0)
  else
    let visits := bind.objects.zipIdx.map fun p =>
      pruneObject filters bind.sortSeqnum storage p.2 p.1
    ((visits.map (·.blocksSkipped)).sum, (visits.map (·.objectsSkipped)).sum)

section Units
variable {bind : TAEScanBindData} {filters : List PushedFilter} {storage : Storage} {obj blk : Nat}
  {info : TAEObjectInfo}

@[simp] theorem mem_allBlocks {wu : WorkUnit} :
    wu ∈ allBlocks obj info ↔ wu.objectIdx = obj ∧ wu.blockIdx < info.blocks := by
  obtain ⟨o, b⟩ := wu
  simp only [allBlocks, List.mem_map, List.mem_range, WorkUnit.mk.injEq]
  constructor
  · rintro ⟨b', hb, rfl, rfl⟩
    exact ⟨rfl, hb⟩
  · rintro ⟨rfl, hb⟩
    exact ⟨b, hb, rfl, rfl⟩

theorem map_unit_nodup (obj : Nat) {bs : List Nat} (h : bs.Nodup) :
    (bs.map fun blk => WorkUnit.mk obj blk).Nodup :=
  h.map fun _ _ heq => congrArg WorkUnit.blockIdx heq

/-- An object contributes units of its own index, each once. -/
theorem objectUnits_own :
    (objectUnits bind filters storage info obj).Nodup ∧
      ∀ wu ∈ objectUnits bind filters storage info obj, wu.objectIdx = obj := by
  rw [objectUnits, pruneObject]
  have hall : (allBlocks obj info).Nodup ∧ ∀ wu ∈ allBlocks obj info, wu.objectIdx = obj :=
    ⟨map_unit_nodup obj List.nodup_range, fun wu hwu => (mem_allBlocks.mp hwu).1⟩
  split
  · exact hall
  · split
    · exact ⟨List.nodup_nil, fun wu hwu => absurd hwu List.not_mem_nil⟩
    · cases storage.readMeta obj with
      | none => exact hall
      | some md =>
          refine ⟨map_unit_nodup obj (List.nodup_range.filter _), fun wu hwu => ?_⟩
          obtain ⟨b, -, rfl⟩ := List.mem_map.mp hwu
          rfl

theorem mem_buildWorkUnits (hobj : bind.objects[obj]? = some info) :
    (⟨obj, blk⟩ : WorkUnit) ∈ buildWorkUnits bind filters storage ↔
      ⟨obj, blk⟩ ∈ objectUnits bind filters storage info obj := by
  rw [buildWorkUnits, List.mem_flatMap]
  constructor
  · rintro ⟨⟨info', obj'⟩, hmem, hunit⟩
    have hown : obj = obj' := (objectUnits_own.2 _ hunit)
    subst hown
    rw [List.mem_zipIdx_iff_getElem?, hobj] at hmem
    rwa [Option.some.inj hmem]
  · intro hunit
    exact ⟨(info, obj), List.mem_zipIdx_iff_getElem?.mpr hobj, hunit⟩

/-- No block is queued twice. -/
theorem buildWorkUnits_nodup : (buildWorkUnits bind filters storage).Nodup := by
  rw [buildWorkUnits, List.nodup_flatMap]
  refine ⟨fun p _ => objectUnits_own.1, ?_⟩
  have hidx : (bind.objects.zipIdx.map Prod.snd).Nodup := by
    rw [List.zipIdx_map_snd]
    exact List.nodup_range'
  rw [List.Nodup, List.pairwise_map] at hidx
  refine hidx.imp fun hne => ?_
  intro wu hwu hwu'
  exact hne ((objectUnits_own.2 wu hwu).symm.trans (objectUnits_own.2 wu hwu'))

end Units

end TaeScanner
