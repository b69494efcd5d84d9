/-
  TaeScanner.Scan.Blocks

  The rows of a queued block: what a scan finds in a unit once its object is
  open, and which of the rows pass the filters.
-/

import Mathlib.Data.Multiset.MapFold
import TaeScanner.Scan.State

namespace TaeScanner

open Lib

/-- A row of a block of an object. -/
structure RowId where
  objectIdx : Nat
  blockIdx : Nat
  row : Nat
  deriving DecidableEq, Repr

/-- The unit a row belongs to. -/
def RowId.unit (id : RowId) : WorkUnit := ⟨id.objectIdx, id.blockIdx⟩

/-- Rows of one block. -/
def rowIds (objectIdx blockIdx : Nat) (rows : List Nat) : Multiset RowId :=
  rows.map (RowId.mk objectIdx blockIdx)

/-- A block that has been read. -/
structure DecodedBlock where
  cols : List DecodedColumn
  totalRows : Nat

/-- The row count of a block: that of its first column, of the metadata when no
    column is read. -/
def blockTotalRows (md : ObjectMeta) (blockIdx : Nat) : List DecodedColumn → Nat
  | [] => md.blockRowCount blockIdx
  | col :: _ => col.rowCount

namespace ScanPlan
variable (plan : ScanPlan) (storage : Storage)

/-- Does some filter reject the zone maps of the block? -/
def skipsBlock (md : ObjectMeta) (blockIdx : Nat) : Bool :=
  !plan.filters.isEmpty && !blockPassesFilters plan.filters (md.getZoneMap blockIdx)

/-- Read the columns of a block; `none` is an exception. -/
def openBlock (md : ObjectMeta) (wu : WorkUnit) : Option DecodedBlock :=
  (storage.readBlock wu.objectIdx wu.blockIdx plan.readSeqnums).map fun cols =>
    ⟨cols, blockTotalRows md wu.blockIdx cols⟩

/-- What a unit holds for this scan: no block if the zone maps reject it. -/
def unitBlock (wu : WorkUnit) : Option (Option DecodedBlock) :=
  (storage.readMeta wu.objectIdx).bind fun md =>
    if plan.skipsBlock md wu.blockIdx then some none
    else (plan.openBlock storage md wu).map some

/-- Does the row pass all filters?  A test that would leave a buffer does not. -/
def passes (cols : List DecodedColumn) (row : Nat) : Bool :=
  rowPassesFilters plan.filters cols row == some true

/-- The passing rows of a window. -/
def passingFrom (cols : List DecodedColumn) (srcOffset count : Nat) : List Nat :=
  (List.range' srcOffset count).filter (plan.passes cols)

/-- The rows of a unit that pass the zone maps and the filters. -/
def unitRows (wu : WorkUnit) : List Nat :=
  match plan.unitBlock storage wu with
  | some (some blk) => plan.passingFrom blk.cols 0 blk.totalRows
  | _ => []

variable {plan storage}

/-- A block has a column for each seqnum that is read. -/
theorem openBlock_length {md : ObjectMeta} {wu : WorkUnit} {blk : DecodedBlock}
    (h : plan.openBlock storage md wu = some blk) : blk.cols.length = plan.readSeqnums.length := by
  obtain ⟨cols, hcols, rfl⟩ := Option.map_eq_some_iff.mp h
  exact storage.readBlock_length hcols

section Passing
variable {cols : List DecodedColumn} {srcOffset count : Nat}

theorem passes_iff {row : Nat} :
    plan.passes cols row = true ↔ rowPassesFilters plan.filters cols row = some true := beq_iff_eq

@[simp] theorem passingFrom_zero : plan.passingFrom cols srcOffset 0 = [] := rfl

/-- A window is the windows it is cut into. -/
theorem passingFrom_add (m : Nat) :
    plan.passingFrom cols srcOffset (count + m) =
      plan.passingFrom cols srcOffset count ++ plan.passingFrom cols (srcOffset + count) m := by
  rw [passingFrom, passingFrom, passingFrom, ← List.filter_append, List.range'_append_1]

theorem passingFrom_length_le : (plan.passingFrom cols srcOffset count).length ≤ count := by
  have hle := List.length_filter_le (plan.passes cols) (List.range' srcOffset count)
  rwa [List.length_range'] at hle

theorem mem_passingFrom {row : Nat} :
    row ∈ plan.passingFrom cols srcOffset count ↔
      (srcOffset ≤ row ∧ row < srcOffset + count) ∧ plan.passes cols row = true := by
  rw [passingFrom, List.mem_filter, List.mem_range'_1]

theorem passingFrom_nodup : (plan.passingFrom cols srcOffset count).Nodup := by
  have hrange : (List.range' srcOffset count).Nodup := List.nodup_range'
  exact hrange.filter _

/-- Without filters every row passes. -/
theorem passingFrom_of_no_filters (h : plan.filters = []) :
    plan.passingFrom cols srcOffset count = List.range' srcOffset count := by
  refine List.filter_eq_self.mpr fun row _ => ?_
  rw [passes_iff, h]
  rfl

end Passing

end ScanPlan

end TaeScanner
