/-
  TaeScanner.Table.ColumnFill

  Column fill helpers: copy decoded TAE columns into DuckDB vectors.

  Every helper is `none` when it would read outside the column's buffers.  The
  per-row loops over fixed-width elements differ in the element size and in
  what is stored for an element, so they are instances of `copyElements`.
-/

import TaeScanner.Lib.Loop
import TaeScanner.Table.Column
import TaeScanner.Table.DuckVector

namespace TaeScanner

open Lib

/-- `dst[i] = store(src[i])` for elements of `size` bytes. -/
def copyElements (size : Nat) (store : List Byte → List Byte) (out : DuckVector)
    (col : DecodedColumn) (count srcOffset : Nat) : Option DuckVector :=
  forRange count
    (fun i dst => (col.element? size (srcOffset + i)).map fun src =>
      dst.writeBytes (i * size) (store src))
    out

/-- One `memcpy` of the whole window; types without a fixed size are left alone. -/
def copyFixedColumn (out : DuckVector) (col : DecodedColumn) (count srcOffset : Nat) :
    Option DuckVector :=
  let elemSize := moTypeFixedSize col.kind
  if elemSize ≤ 0 then some out
  else
    (slice? col.data (srcOffset * elemSize.toNat) (count * elemSize.toNat)).map
      (out.writeBytes 0)

def dateFromMO (src : List Byte) : List Byte := leBytesInt 4 (leInt src - moUnixEpochDays)

def timestampFromMO (src : List Byte) : List Byte := leBytesInt 8 (leInt src - moUnixEpochUsec)

def uuidFromMO (src : List Byte) : List Byte := leBytesInt 16 (uuidFromBlob src)

def copyDateColumn : DuckVector → DecodedColumn → Nat → Nat → Option DuckVector :=
  copyElements 4 dateFromMO

def copyTimestampColumn : DuckVector → DecodedColumn → Nat → Nat → Option DuckVector :=
  copyElements 8 timestampFromMO

def copyUuidColumn : DuckVector → DecodedColumn → Nat → Nat → Option DuckVector :=
  copyElements 16 uuidFromMO

/-- The string a slot is filled with: a slot that is neither inline nor big is
    the empty string. -/
def DecodedColumn.slotString? (col : DecodedColumn) (v : Varlena) : Option (List Byte) :=
  if v.isInline then some v.inlineData
  else if v.bigMarker ≠ varlenaBigMarker then some []
  else slice? col.area v.bigOffset v.bigLength

def copyVarlenColumn (out : DuckVector) (col : DecodedColumn) (count srcOffset : Nat) :
    Option DuckVector :=
  forRange count
    (fun i dst => ((col.slot? (srcOffset + i)).bind col.slotString?).map (dst.setString i))
    out

/-- The loop only ever clears validity bits. -/
def setNullMask (out : DuckVector) (col : DecodedColumn) (count srcOffset : Nat) : DuckVector :=
  if col.nullCount = 0 then out
  else
    (List.range count).foldl
      (fun v i => if col.isNullAt (srcOffset + i) then v.setInvalid i else v)
      out

/-- Fill a CONSTANT_VECTOR from a single-element column. -/
def fillConstantColumn (out : DuckVector) (col : DecodedColumn) : Option DuckVector :=
  let out := out.setConstant
  -- constant NULL: no data
  if col.data = [] then some (out.setInvalid 0)
  else if 0 < col.nullCount ∧ col.isNullAt 0 then some (out.setInvalid 0)
  else
    match col.kind with
    | .date => (col.element? 4 0).map fun src => out.writeBytes 0 (dateFromMO src)
    | .datetime | .timestamp =>
        (col.element? 8 0).map fun src => out.writeBytes 0 (timestampFromMO src)
    | .char | .varchar | .blob | .text | .json | .binary | .varbinary | .datalink =>
        ((col.slot? 0).bind col.slotString?).map (out.setString 0)
    | .uuid => (col.element? 16 0).map fun src => out.writeBytes 0 (uuidFromMO src)
    | oid =>
        let elemSize := moTypeFixedSize oid
        if elemSize ≤ 0 then some out
        else (slice? col.data 0 elemSize.toNat).map (out.writeBytes 0)

/-- The per-row data of a FLAT column, by type. -/
def copyColumn (out : DuckVector) (col : DecodedColumn) (count srcOffset : Nat) :
    Option DuckVector :=
  match col.kind with
  | .date => copyDateColumn out col count srcOffset
  | .datetime | .timestamp => copyTimestampColumn out col count srcOffset
  | .char | .varchar | .blob | .text | .json | .binary | .varbinary | .datalink =>
      copyVarlenColumn out col count srcOffset
  | .uuid => copyUuidColumn out col count srcOffset
  | _ => copyFixedColumn out col count srcOffset

def fillColumn (out : DuckVector) (col : DecodedColumn) (count srcOffset : Nat) :
    Option DuckVector :=
  if col.vecClass = 1 then fillConstantColumn out col
  else (copyColumn out col count srcOffset).map fun v => setNullMask v col count srcOffset

-- ============================================================================
-- Flags: what a fill does to the kind and to the validity mask
-- ============================================================================

section Flags
variable (out : DuckVector) (f : VectorFlags) (col : DecodedColumn) (count srcOffset : Nat)

theorem copyElements_withFlags (size : Nat) (store : List Byte → List Byte) :
    copyElements size store (out.withFlags f) col count srcOffset
      = (copyElements size store out col count srcOffset).map (·.withFlags f) := by
  rw [copyElements]
  refine forRange_map (fun v : DuckVector => v.withFlags f) (fun i v => ?_)
  cases col.element? size (srcOffset + i) with
  | none => rfl
  | some src => rfl

theorem copyVarlenColumn_withFlags :
    copyVarlenColumn (out.withFlags f) col count srcOffset
      = (copyVarlenColumn out col count srcOffset).map (·.withFlags f) := by
  rw [copyVarlenColumn]
  refine forRange_map (fun v : DuckVector => v.withFlags f) (fun i v => ?_)
  cases (col.slot? (srcOffset + i)).bind col.slotString? with
  | none => rfl
  | some s => rfl

theorem copyFixedColumn_withFlags :
    copyFixedColumn (out.withFlags f) col count srcOffset
      = (copyFixedColumn out col count srcOffset).map (·.withFlags f) := by
  simp only [copyFixedColumn]
  split
  · rfl
  · cases slice? col.data _ _ with
    | none => rfl
    | some bs => rfl

/-- The data a flat fill writes does not depend on the flags, which it keeps. -/
theorem copyColumn_withFlags :
    copyColumn (out.withFlags f) col count srcOffset
      = (copyColumn out col count srcOffset).map (·.withFlags f) := by
  unfold copyColumn
  split
  · exact copyElements_withFlags ..
  · exact copyElements_withFlags ..
  · exact copyElements_withFlags ..
  · exact copyVarlenColumn_withFlags ..
  · exact copyVarlenColumn_withFlags ..
  · exact copyVarlenColumn_withFlags ..
  · exact copyVarlenColumn_withFlags ..
  · exact copyVarlenColumn_withFlags ..
  · exact copyVarlenColumn_withFlags ..
  · exact copyVarlenColumn_withFlags ..
  · exact copyVarlenColumn_withFlags ..
  · exact copyElements_withFlags ..
  · exact copyFixedColumn_withFlags ..

/-- The bits a flat fill clears. -/
def DecodedColumn.marks (col : DecodedColumn) (count srcOffset i : Nat) : Bool :=
  decide (col.nullCount ≠ 0) && decide (i < count) && col.isNullAt (srcOffset + i)

theorem marks_succ (n i : Nat) :
    col.marks (n + 1) srcOffset i
      = (col.marks n srcOffset i
          || (decide (col.nullCount ≠ 0) && decide (i = n) && col.isNullAt (srcOffset + n))) := by
  unfold DecodedColumn.marks
  rcases Nat.lt_trichotomy i n with hlt | heq | hgt
  · simp [Nat.lt_succ_of_lt hlt, hlt, Nat.ne_of_lt hlt]
  · simp [heq]
  · have hle : ¬ i < n + 1 := by omega
    simp [hle, Nat.lt_asymm hgt, Nat.ne_of_gt hgt]

theorem setNullMask_eq :
    setNullMask out col count srcOffset
      = out.withFlags ⟨out.kind, fun i => out.invalid i || col.marks count srcOffset i⟩ := by
  rw [setNullMask]
  by_cases hcount : col.nullCount = 0
  · rw [if_pos hcount]
    simp [DecodedColumn.marks, hcount, DuckVector.withFlags]
  · rw [if_neg hcount]
    -- after `count` rounds the mask holds the marks of the first `count` rows
    induction count with
    | zero => simp [DecodedColumn.marks, DuckVector.withFlags]
    | succ n ih =>
        rw [List.range_succ, List.foldl_append, ih, List.foldl_cons, List.foldl_nil]
        simp only [marks_succ]
        by_cases hbit : col.isNullAt (srcOffset + n) = true
        · rw [if_pos hbit, DuckVector.setInvalid]
          rw [DuckVector.withFlags]
          congr 1
          funext i
          by_cases hi : i = n
          · simp [hi, hbit, hcount]
          · simp [hi]
        · rw [if_neg hbit]
          simp [hbit]

end Flags

-- ============================================================================
-- Types: a fill writes into a vector as it was allocated
-- ============================================================================

section Types
variable {v w : DuckVector} {col : DecodedColumn} {count srcOffset : Nat}

theorem copyElements_type {size : Nat} {store : List Byte → List Byte}
    (h : copyElements size store v col count srcOffset = some w) : w.type = v.type := by
  apply forRange_keeps (fun u : DuckVector => u.type = v.type) ?_ rfl h
  intro i x y hx hy
  obtain ⟨src, -, rfl⟩ := Option.map_eq_some_iff.mp hy
  exact hx

theorem copyVarlenColumn_type (h : copyVarlenColumn v col count srcOffset = some w) : w.type = v.type := by
  apply forRange_keeps (fun u : DuckVector => u.type = v.type) ?_ rfl h
  intro i x y hx hy
  obtain ⟨s, -, rfl⟩ := Option.map_eq_some_iff.mp hy
  exact hx

theorem copyFixedColumn_type (h : copyFixedColumn v col count srcOffset = some w) : w.type = v.type := by
  simp only [copyFixedColumn] at h
  split at h
  · exact Option.some.inj h ▸ rfl
  · obtain ⟨bs, -, rfl⟩ := Option.map_eq_some_iff.mp h
    rfl

theorem copyColumn_type (h : copyColumn v col count srcOffset = some w) : w.type = v.type := by
  unfold copyColumn at h
  split at h
  · exact copyElements_type h
  · exact copyElements_type h
  · exact copyElements_type h
  · exact copyVarlenColumn_type h
  · exact copyVarlenColumn_type h
  · exact copyVarlenColumn_type h
  · exact copyVarlenColumn_type h
  · exact copyVarlenColumn_type h
  · exact copyVarlenColumn_type h
  · exact copyVarlenColumn_type h
  · exact copyVarlenColumn_type h
  · exact copyElements_type h
  · exact copyFixedColumn_type h

end Types

end TaeScanner
