/-
  TaeScanner.Scan.FillBounds

  When materialising a block stays inside the buffers of its columns.  A block is
  emitted in windows that are cut from the row count of its first column, and the
  fill of a window trusts that every other column has as many rows.

    * `DecodedColumn.Covers` is what the buffers have to hold, `CoversBlock` takes
      the vector class into account;
    * `EmitsFrom` are the windows of a loaded block, and `reachable_emitting` finds
      every window of a scan among them;
    * `block_fillsInside_iff` puts the two together.
-/

import TaeScanner.Reader.ReadBlockSpec
import TaeScanner.Scan.Parallel
import TaeScanner.Table.ColumnFillSpec

namespace TaeScanner

open Lib

-- ============================================================================
-- What the buffers have to hold
-- ============================================================================

/-- The string of a slot is inline, or empty for want of the marker, or a range of
    the area. -/
def Varlena.Inside (v : Varlena) (area : List Byte) : Prop :=
  v.isInline = true ∨ v.bigMarker ≠ varlenaBigMarker ∨ v.bigOffset + v.bigLength ≤ area.length

instance (v : Varlena) (area : List Byte) : Decidable (v.Inside area) :=
  inferInstanceAs (Decidable (_ ∨ _))

/-- The buffers hold the elements of the first `rows` rows. -/
structure DecodedColumn.Covers (col : DecodedColumn) (rows : Nat) : Prop where
  elements : 0 < moTypeFixedSize col.kind →
    rows * (moTypeFixedSize col.kind).toNat ≤ col.data.length
  slots : isStringType col.kind = true → rows * varlenaSize ≤ col.data.length
  strings : isStringType col.kind = true →
    ∀ r, r < rows → ∀ v, col.slot? r = some v → v.Inside col.area

/-- A CONSTANT column needs its one element, unless it is NULL; a FLAT one needs an
    element for every row of the block. -/
def DecodedColumn.CoversBlock (col : DecodedColumn) (rows : Nat) : Prop :=
  if col.vecClass = 1 then
    col.data = [] ∨ (0 < col.nullCount ∧ col.isNullAt 0 = true) ∨ col.Covers 1
  else col.Covers rows

section Fill
variable {out : DuckVector} {col : DecodedColumn} {count off rows size : Nat}

theorem slotString?_isSome {v : Varlena} : (col.slotString? v).isSome ↔ v.Inside col.area := by
  rw [DecodedColumn.slotString?, Varlena.Inside]
  by_cases hin : v.isInline = true
  · rw [if_pos hin]
    exact iff_of_true rfl (Or.inl hin)
  · rw [if_neg hin]
    by_cases hmarker : v.bigMarker = varlenaBigMarker
    · rw [if_neg (not_not.mpr hmarker), slice?_isSome]
      exact ⟨fun h => Or.inr (Or.inr h), fun h => (h.resolve_left hin).resolve_left (not_not.mpr hmarker)⟩
    · rw [if_pos hmarker]
      exact iff_of_true rfl (Or.inr (Or.inl hmarker))

/-- The row has a slot, and the slot a string. -/
theorem slotBind_isSome {row : Nat} : ((col.slot? row).bind col.slotString?).isSome ↔
    (row + 1) * varlenaSize ≤ col.data.length ∧
      ∀ v, col.slot? row = some v → v.Inside col.area := by
  rw [← DecodedColumn.slot?_isSome]
  cases hslot : col.slot? row with
  | none => exact iff_of_false (by simp) fun h => Bool.false_ne_true h.1
  | some v =>
      rw [Option.bind_some, slotString?_isSome]
      exact ⟨fun h => ⟨rfl, fun v' hv => Option.some.inj hv ▸ h⟩, fun h => h.2 v rfl⟩

/-- The rows of the fill specification are in bounds. -/
theorem inBounds_iff_covers : col.InBounds rows ↔ col.Covers rows := by
  constructor
  · rintro ⟨helem, hstr⟩
    refine ⟨helem, fun h => ?_, fun h r hr => (slotBind_isSome.mp (hstr h r hr)).2⟩
    cases rows with
    | zero =>
        rw [Nat.zero_mul]
        exact Nat.zero_le _
    | succ n => exact (slotBind_isSome.mp (hstr h n (Nat.lt_succ_self n))).1
  · rintro ⟨helem, hslots, hstrings⟩
    refine ⟨helem, fun h r hr => slotBind_isSome.mpr ⟨?_, hstrings h r hr⟩⟩
    exact Nat.le_trans (Nat.mul_le_mul_right _ hr) (hslots h)

theorem DecodedColumn.InBounds.mono (h : col.InBounds rows) (hle : count ≤ rows) : col.InBounds count :=
  ⟨fun hpos => Nat.le_trans (Nat.mul_le_mul_right _ hle) (h.1 hpos),
    fun hstr r hr => h.2 hstr r (Nat.lt_of_lt_of_le hr hle)⟩

-- ============================================================================
-- The fill of one window
-- ============================================================================

/-- The last element of a window that is not empty decides about all of them. -/
theorem copyElements_isSome_iff {store : List Byte → List Byte} (hcount : 0 < count) :
    (copyElements size store out col count off).isSome ↔ (off + count) * size ≤ col.data.length := by
  rw [copyElements]
  rw [forRange_isSome_iff]
  simp only [DecodedColumn.element?_isSome]
  constructor
  · intro h
    have hlast := h (count - 1) (by omega)
    rwa [show off + (count - 1) + 1 = off + count by omega] at hlast
  · intro h i hi
    exact Nat.le_trans (Nat.mul_le_mul_right size (show off + i + 1 ≤ off + count by omega)) h

theorem copyFixedColumn_isSome_iff (hsize : moTypeFixedSize col.kind = size) (hpos : 0 < size) :
    (copyFixedColumn out col count off).isSome ↔ (off + count) * size ≤ col.data.length := by
  simp only [copyFixedColumn, hsize, Int.toNat_natCast]
  rw [if_neg (by omega), Option.isSome_map, slice?_isSome, Nat.add_mul]

/-- Whatever the helper, a fixed-width window is filled iff its elements are there. -/
theorem copyColumn_fixed_isSome_iff (hsize : moTypeFixedSize col.kind = size) (hpos : 0 < size)
    (hcount : 0 < count) :
    (copyColumn out col count off).isSome ↔ (off + count) * size ≤ col.data.length := by
  have hsz : (moTypeFixedSize col.kind).toNat = size := by omega
  rw [copyColumn]
  cases hk : col.kind <;> simp only [hk, moTypeFixedSize] at hsize hsz
  case date =>
    subst hsz
    exact copyElements_isSome_iff hcount
  case datetime =>
    subst hsz
    exact copyElements_isSome_iff hcount
  case timestamp =>
    subst hsz
    exact copyElements_isSome_iff hcount
  case uuid =>
    subst hsz
    exact copyElements_isSome_iff hcount
  all_goals
    first
    | exact absurd hsize (by omega)
    | exact copyFixedColumn_isSome_iff (by rw [hk]; exact hsize) hpos

theorem copyColumn_string_isSome_iff (hstr : isStringType col.kind = true) :
    (copyColumn out col count off).isSome ↔
      ∀ i, i < count → ((col.slot? (off + i)).bind col.slotString?).isSome := by
  have hcopy : copyColumn out col count off = copyVarlenColumn out col count off := by
    rw [copyColumn]
    cases hk : col.kind <;> first | rfl | simp [hk, isStringType] at hstr
  rw [hcopy, copyVarlenColumn]
  exact forRange_isSome_iff

/-- A flat fill needs the rows of its window, and no others. -/
theorem copyColumn_isSome_of_inBounds (hin : col.InBounds (off + count)) :
    (copyColumn out col count off).isSome := by
  by_cases hpos : 0 < moTypeFixedSize col.kind
  · obtain ⟨w, hw, -⟩ := copyColumn_wrote out (Int.toNat_of_nonneg hpos.le).symm (by omega) hin
    rw [hw]
    rfl
  · cases hstr : isStringType col.kind with
    | true => exact (copyColumn_string_isSome_iff hstr).mpr fun i hi => hin.2 hstr _ (by omega)
    | false =>
        rw [copyColumn_other out (moTypeFixedSize_of_not_pos hpos) hstr]
        rfl

/-- The constant fill looks at the one element, unless the value is NULL. -/
theorem fillConstantColumn_isSome_iff : (fillConstantColumn out col).isSome ↔
    col.data = [] ∨ (0 < col.nullCount ∧ col.isNullAt 0 = true) ∨ col.InBounds 1 := by
  simp only [fillConstantColumn]
  by_cases hdata : col.data = []
  · rw [if_pos hdata]
    exact iff_of_true rfl (Or.inl hdata)
  rw [if_neg hdata]
  by_cases hnull : 0 < col.nullCount ∧ col.isNullAt 0 = true
  · rw [if_pos hnull]
    exact iff_of_true rfl (Or.inr (Or.inl hnull))
  rw [if_neg hnull]
  simp only [hdata, hnull, false_or]
  rw [DecodedColumn.InBounds]
  simp only [Nat.lt_one_iff, forall_eq]
  generalize (col.slot? 0).bind col.slotString? = str
  cases hk : col.kind <;>
    simp [moTypeFixedSize, isStringType, DecodedColumn.element?_isSome, slice?_isSome]

end Fill

-- ============================================================================
-- The windows of a block
-- ============================================================================

namespace TAEScanLocalState

/-- The states in which a thread fills a window of the block it has in `ls`: the
    first one in any case, another one as long as rows are pending. -/
inductive EmitsFrom (ls : TAEScanLocalState) : TAEScanLocalState → Prop
  | first : EmitsFrom ls ls
  | next {ls' : TAEScanLocalState} (h : EmitsFrom ls ls') (hpending : ls'.advance.hasPending = true) :
      EmitsFrom ls ls'.advance

/-- No fill of a window of the block leaves the buffers of its column. -/
def FillsInside (ls : TAEScanLocalState) : Prop :=
  ∀ ls', ls.EmitsFrom ls' → ∀ (pos : Nat) (col : DecodedColumn), ls'.pendingCols[pos]? = some col →
    ∀ out, (fillColumn out col ls'.window.chunkRows ls'.window.srcOffset).isSome

variable {ls ls' : TAEScanLocalState} {wu : WorkUnit} {blk : DecodedBlock} {row : Nat}

/-- A window shows the columns of the block, between the rows done and the end. -/
theorem EmitsFrom.of_load (h : (ls.load wu blk).EmitsFrom ls') :
    ls'.pendingCols = blk.cols ∧ ls'.pendingTotalRows = blk.totalRows ∧
      (ls'.pendingOffset = 0 ∨ ls'.pendingOffset < blk.totalRows) := by
  induction h with
  | first => exact ⟨rfl, rfl, Or.inl rfl⟩
  | @next ls' _ hpending ih =>
      obtain ⟨hcols, htotal, -⟩ := ih
      rcases advance_cases ls' with ⟨hadv, -⟩ | ⟨hadv, hmore⟩
      · rw [hadv] at hpending
        cases hpending
      · rw [hadv]
        exact ⟨hcols, htotal, Or.inr (htotal ▸ hmore)⟩

/-- The windows behind a window reach every row that is left. -/
theorem EmitsFrom.reaches (h : ls.EmitsFrom ls') (hlow : ls'.pendingOffset ≤ row)
    (hrow : row < ls'.pendingTotalRows) :
    ∃ ls'', ls.EmitsFrom ls'' ∧ ls''.window.srcOffset ≤ row ∧
      row < ls''.window.srcOffset + ls''.window.chunkRows := by
  -- the rows that are left become fewer
  induction hleft : ls'.pendingTotalRows - ls'.pendingOffset using Nat.strong_induction_on
    generalizing ls' with
  | _ left ih =>
      by_cases hin : row < ls'.pendingOffset + ls'.window.chunkRows
      · exact ⟨ls', h, hlow, hin⟩
      · have hpos : 0 < ls'.window.chunkRows := window_pos (decide_eq_true (by omega))
        rcases advance_cases ls' with ⟨-, hrest⟩ | ⟨hadv, hmore⟩
        · omega
        · have hnext : ls.EmitsFrom ls'.advance := h.next (by rw [hadv]; exact decide_eq_true hmore)
          rw [hadv] at hnext
          refine ih _ ?_ hnext ?_ hrow rfl
          · show ls'.pendingTotalRows - (ls'.pendingOffset + ls'.window.chunkRows) < left
            omega
          · show ls'.pendingOffset + ls'.window.chunkRows ≤ row
            omega

end TAEScanLocalState

-- ============================================================================
-- The windows of a scan
-- ============================================================================

namespace ScanEnv
variable {env : ScanEnv} {draws : Nat → Bool} {s s' : ScanShared} {th th' : ScanThread} {e : ScanLog}

/-- A thread that emits, or is going to, is at a window of a block of the queue. -/
def Emitting (env : ScanEnv) (th : ScanThread) : Prop :=
  th.pc = env.emitPc ∨ th.locals.hasPending = true →
    ∃ wu ∈ env.plan.workUnits, ∃ blk, env.unitBlock wu = some (some blk) ∧
      ∃ ls : TAEScanLocalState, (ls.load wu blk).EmitsFrom th.locals

/-- Every window of a scan is a window of a block it has read. -/
theorem reachable_emitting {ι : Type} [DecidableEq ι] {outputs : ι → DataChunk}
    {c : Config ι ScanShared ScanThread ScanLog} (h : Reachable env.Step (env.start outputs) c) (i : ι) :
    env.Emitting (c.threads i) := by
  refine reachable_whilePending (P := fun ls' => ∃ wu ∈ env.plan.workUnits, ∃ blk,
    env.unitBlock wu = some (some blk) ∧ ∃ ls : TAEScanLocalState, (ls.load wu blk).EmitsFrom ls') ?_ ?_ h i
  · exact fun ls wu hwu blk hblock => ⟨wu, hwu, blk, hblock, ls, .first⟩
  · -- behind a window comes the next one of the block
    rintro ls' ⟨wu, hwu, blk, hblock, ls, hls⟩ hpending
    exact ⟨wu, hwu, blk, hblock, ls, hls.next hpending⟩

end ScanEnv

-- ============================================================================
-- Main result
-- ============================================================================

section Block
variable {col : DecodedColumn} {rows count off : Nat}

theorem coversBlock_iff_inBounds : col.CoversBlock rows ↔
    if col.vecClass = 1 then
      col.data = [] ∨ (0 < col.nullCount ∧ col.isNullAt 0 = true) ∨ col.InBounds 1
    else col.InBounds rows := by
  rw [DecodedColumn.CoversBlock]
  rw [inBounds_iff_covers, inBounds_iff_covers]

/-- A column that covers the block fills every part of it. -/
theorem fillColumn_isSome_of_coversBlock (h : col.CoversBlock rows) (out : DuckVector)
    (hle : off + count ≤ rows) : (fillColumn out col count off).isSome := by
  rw [coversBlock_iff_inBounds] at h
  rw [fillColumn]
  by_cases hclass : col.vecClass = 1
  · rw [if_pos hclass] at h ⊢
    exact fillConstantColumn_isSome_iff.mpr h
  · rw [if_neg hclass] at h
    rw [if_neg hclass, Option.isSome_map]
    exact copyColumn_isSome_of_inBounds (h.mono hle)

/-- Only a column that covers the block is filled in all of its windows. -/
theorem coversBlock_of_windows {ls : TAEScanLocalState} {wu : WorkUnit} {blk : DecodedBlock}
    (out : DuckVector) (h : ∀ ls', (ls.load wu blk).EmitsFrom ls' →
      (fillColumn out col ls'.window.chunkRows ls'.window.srcOffset).isSome) :
    col.CoversBlock blk.totalRows := by
  rw [coversBlock_iff_inBounds]
  unfold fillColumn at h
  by_cases hclass : col.vecClass = 1
  · rw [if_pos hclass]
    have hfirst := h _ .first
    rw [if_pos hclass] at hfirst
    exact fillConstantColumn_isSome_iff.mp hfirst
  simp only [if_neg hclass, Option.isSome_map] at h
  rw [if_neg hclass]
  have hwindow : ∀ row, row < blk.totalRows → ∃ off count, off ≤ row ∧ row < off + count ∧
      off + count ≤ blk.totalRows ∧ (copyColumn out col count off).isSome := by
    intro row hrow
    have hfirst : (ls.load wu blk).EmitsFrom (ls.load wu blk) := .first
    obtain ⟨ls', hls, hlow, hhigh⟩ := hfirst.reaches (Nat.zero_le row) hrow
    refine ⟨_, _, hlow, hhigh, ?_, h ls' hls⟩
    obtain ⟨-, htotal, -⟩ := hls.of_load
    have hle : ls'.window.chunkRows ≤ ls'.pendingTotalRows - ls'.pendingOffset :=
      TAEScanLocalState.window_le
    change ls'.pendingOffset ≤ row at hlow
    show ls'.pendingOffset + ls'.window.chunkRows ≤ blk.totalRows
    omega
  constructor
  · intro hpos
    -- the window of the last row ends with the block
    cases htotal : blk.totalRows with
    | zero =>
        rw [Nat.zero_mul]
        exact Nat.zero_le _
    | succ n =>
        obtain ⟨off, count, hlow, hhigh, hend, hfill⟩ := hwindow n (by omega)
        have hin := (copyColumn_fixed_isSome_iff (Int.toNat_of_nonneg hpos.le).symm (by omega)
          (by omega)).mp hfill
        rwa [show off + count = n + 1 by omega] at hin
  · intro hstr row hrow
    obtain ⟨off, count, hlow, hhigh, -, hfill⟩ := hwindow row hrow
    have hin := (copyColumn_string_isSome_iff hstr).mp hfill (row - off) (by omega)
    rwa [show off + (row - off) = row by omega] at hin

/-- The fill of a block stays inside the buffers iff each column covers as many rows
    as the first column claims. -/
theorem block_fillsInside_iff (ls : TAEScanLocalState) (wu : WorkUnit) (md : ObjectMeta)
    (cols : List DecodedColumn) :
    (ls.load wu ⟨cols, blockTotalRows md wu.blockIdx cols⟩).FillsInside ↔
      ∀ col ∈ cols, col.CoversBlock (blockTotalRows md wu.blockIdx cols) := by
  generalize blockTotalRows md wu.blockIdx cols = total
  constructor
  · intro h col hcol
    obtain ⟨pos, hpos⟩ := List.mem_iff_getElem?.mp hcol
    have hfill : ∀ ls', (ls.load wu ⟨cols, total⟩).EmitsFrom ls' →
        (fillColumn { type := .boolean } col ls'.window.chunkRows ls'.window.srcOffset).isSome := by
      intro ls' hls
      apply h ls' hls pos col
      rw [hls.of_load.1]
      exact hpos
    exact coversBlock_of_windows _ hfill
  · intro h ls' hls pos col hcol out
    obtain ⟨hcols, htotal, hoff⟩ := hls.of_load
    rw [hcols] at hcol
    apply fillColumn_isSome_of_coversBlock (h col (List.mem_of_getElem? hcol)) out
    have hle : ls'.window.chunkRows ≤ ls'.pendingTotalRows - ls'.pendingOffset :=
      TAEScanLocalState.window_le
    rw [htotal] at hle
    show ls'.pendingOffset + ls'.window.chunkRows ≤ total
    simp only at hle hoff
    omega

end Block

-- ============================================================================
-- A column that is too short
-- ============================================================================

/-- A vector that claims two rows and has the data of one. -/
def shortData : VectorSections := { oneValue with length := 2 }

def shortDataEntry : List Byte := [2, 0, 1, 0] ++ shortData.layout

/-- A file of one column, and its metadata. -/
def shortDataReader : TAEObjectReader where
  file := bareHeader ++ shortDataEntry
  prefetchThreshold := 0
  formatDetected := true

def shortDataMeta : ObjectMeta :=
  ⟨[{ rows := 2, columns := [{ location := ⟨0, 64, 42, 42⟩, zoneMap := .zero }] }]⟩

def shortDataColumn : DecodedColumn :=
  { type := MOType.ofBytes shortData.type, rowCount := 2, data := [7, 0, 0, 0] }

/-- The file is read, and filling its first window leaves the data. -/
theorem shortData_outside : ∃ cols,
    (shortDataReader.readBlock .positional .refusing .merge 0 shortDataMeta 0 [0]).2 = .ok cols ∧
      ∀ (ls : TAEScanLocalState) (objectIdx : Nat),
        ¬(ls.load ⟨objectIdx, 0⟩ ⟨cols, blockTotalRows shortDataMeta 0 cols⟩).FillsInside := by
  have hready : shortDataReader.Ready := ⟨rfl, by decide, Or.inl rfl⟩
  have hfit : ∀ blk ∈ shortDataMeta.blocks, blk.ExtentsFit := by
    intro blk hblk col hcol
    obtain rfl := List.mem_singleton.mp hblk
    obtain rfl := List.mem_singleton.mp hcol
    exact ⟨show 64 < 2 ^ 32 by decide, show 42 < 2 ^ 32 by decide⟩
  have hdecode : decodeColumn .refusing ⟨0, 64, 42, 42⟩ shortDataEntry = .ok shortDataColumn := by
    rw [shortDataEntry, decodeColumn_plain rfl rfl rfl]
    decide +kernel
  have hstored : slice? shortDataReader.content 64 42 = some shortDataEntry := slice?_suffix rfl rfl
  have hcolumn : shortDataReader.readColumnAlone .positional .refusing
      { rows := 2, columns := [{ location := ⟨0, 64, 42, 42⟩, zoneMap := .zero }] } 0
        = .ok shortDataColumn :=
    (readColumnAlone_eq_ok FileSystem.positional_throwsPastEnd hready
      (hfit _ (List.mem_singleton_self _))).mpr ⟨_, rfl, shortDataEntry, hstored, hdecode⟩
  refine ⟨[shortDataColumn], ?_, fun ls objectIdx hinside => ?_⟩
  · refine (readBlock_eq_ok_iff FileSystem.positional_throwsPastEnd hready hfit).mpr ⟨?_, ?_⟩
    · exact mapM_eq_ok.mpr (.cons hcolumn .nil)
    · intro blk hblk reqs hreqs
      apply short_of_stop_lt
      intro req hreq
      obtain rfl := Option.some.inj hblk
      obtain rfl := Except.ok.inj hreqs
      obtain rfl := List.mem_singleton.mp hreq
      exact show 64 + 42 < 2 ^ 32 by decide
  · have hcovers := (block_fillsInside_iff ls ⟨objectIdx, 0⟩ shortDataMeta [shortDataColumn]).mp hinside
      shortDataColumn (List.mem_singleton_self _)
    rw [DecodedColumn.CoversBlock, if_neg (by decide)] at hcovers
    exact absurd (hcovers.elements (by decide)) (show ¬2 * 4 ≤ 4 by decide)

end TaeScanner
