/-
  TaeScanner.Filter.CellReads

  How the row filter reads a cell, beside how the fill reads it.

    * the filter takes a NULL from the bitmap alone, the fill only if the column has
      a positive null count;
    * the filter follows every slot that is not inline, the fill only those with the
      big marker, and takes the others for the empty string;
    * the filter compares the end of a slot's string with the size of the area in 32
      bits, so a sum that wraps can pass for a range inside the area.
-/

import TaeScanner.Filter.RowFilterSpec
import TaeScanner.Reader.DecodeVector
import TaeScanner.Table.ColumnFill

namespace TaeScanner

open Lib

-- ============================================================================
-- What the filter compares
-- ============================================================================

/-- The comparison of a string that starts `str` and has the given length. -/
def compareString (pf : PushedFilter) (str : List Byte) (strLen : Nat) : Option Bool :=
  if pf.op = .inSet then
    pf.inValues.anyM fun value =>
      if value.len = strLen then (memcmp? str value.bytes strLen).map (· == .eq) else some false
  else
    (memcmp? str pf.constant.bytes (min strLen pf.constant.len)).map fun cmp =>
      pf.op.ofOrdering (tieByLength cmp strLen pf.constant.len)

/-- The range of the area that the filter goes on to compare. -/
def comparedArea (pf : PushedFilter) (col : DecodedColumn) (row : Nat) : Option (Nat × Nat) :=
  if pf.op = .isNull ∨ pf.op = .isNotNull ∨ col.filterNull row = true then none
  else if isStringType pf.kind then
    (col.slot? row).bind fun v =>
      if v.isInline then none
      else if wrapAdd 32 v.bigOffset v.bigLength ≤ col.area.length then some (v.bigOffset, v.bigLength)
      else none
  else none

section Compared
variable {pf : PushedFilter} {col : DecodedColumn} {row : Nat} {v : Varlena}

/-- A string filter compares the string of the slot, or keeps the row. -/
theorem rowPassesFilter_slot (hnull : pf.op ≠ .isNull) (hnotNull : pf.op ≠ .isNotNull)
    (hrow : col.filterNull row = false) (hstr : isStringType pf.kind = true)
    (hslot : col.slot? row = some v) :
    rowPassesFilter pf col row =
      (col.filterString? v).elim (some true) fun s => compareString pf s.1 s.2 := by
  have hin : pf.op = .inSet → rowInSet pf col row =
      (col.filterString? v).elim (some true) fun s => compareString pf s.1 s.2 := by
    intro hset
    simp only [rowInSet, if_pos hstr, hslot, compareString, if_pos hset]
    cases hfs : col.filterString? v with
    | none => simp only [Option.elim_none]
    | some s => simp only [Option.elim_some]
  have hcmp : pf.op ≠ .inSet → rowCompare pf col row =
      (col.filterString? v).elim (some true) fun s => compareString pf s.1 s.2 := by
    intro hset
    simp only [rowCompare, if_pos hstr, hslot, compareString, if_neg hset]
    cases hfs : col.filterString? v with
    | none => simp only [Option.elim_none]
    | some s => simp only [Option.elim_some]
  rw [rowPassesFilter]
  rw [hrow]
  split
  · next hop => exact absurd hop hnull
  · next hop => exact absurd hop hnotNull
  · next hop => exact hin hop
  · next hop => exact hcmp hop

/-- A big slot is compared where the guard lets it through, and nowhere else. -/
theorem comparedArea_slot (hnull : pf.op ≠ .isNull) (hnotNull : pf.op ≠ .isNotNull)
    (hrow : col.filterNull row = false) (hstr : isStringType pf.kind = true)
    (hslot : col.slot? row = some v) (hbig : v.isInline = false) :
    comparedArea pf col row =
      if wrapAdd 32 v.bigOffset v.bigLength ≤ col.area.length then some (v.bigOffset, v.bigLength)
      else none := by
  have hguard : ¬(pf.op = .isNull ∨ pf.op = .isNotNull ∨ col.filterNull row = true) := by
    rw [hrow]
    rintro (h | h | h)
    · exact hnull h
    · exact hnotNull h
    · exact Bool.false_ne_true h
  rw [comparedArea, if_neg hguard, if_pos hstr, hslot, Option.bind_some, hbig,
    if_neg Bool.false_ne_true]

/-- Without such a range the row is kept, and with one its bytes decide. -/
theorem rowPassesFilter_comparedArea (hnull : pf.op ≠ .isNull) (hnotNull : pf.op ≠ .isNotNull)
    (hrow : col.filterNull row = false) (hstr : isStringType pf.kind = true)
    (hslot : col.slot? row = some v) (hbig : v.isInline = false) :
    rowPassesFilter pf col row =
      (comparedArea pf col row).elim (some true) fun range =>
        compareString pf (col.area.drop range.1) range.2 := by
  rw [rowPassesFilter_slot hnull hnotNull hrow hstr hslot,
    comparedArea_slot hnull hnotNull hrow hstr hslot hbig, DecodedColumn.filterString?, hbig,
    if_neg Bool.false_ne_true]
  split
  · rfl
  · rfl

theorem Varlena.bigOffset_lt (v : Varlena) : v.bigOffset < 2 ^ 32 := by
  have hlt := leNat_lt ((v.data.drop 4).take 4)
  rwa [List.length_take, List.length_drop, v.length_eq] at hlt

theorem Varlena.bigLength_lt (v : Varlena) : v.bigLength < 2 ^ 32 := by
  have hlt := leNat_lt ((v.data.drop 8).take 4)
  rwa [List.length_take, List.length_drop, v.length_eq] at hlt

/-- The guard of a big slot is sound iff the end of its string does not wrap in 32
    bits, or the wrapped end is past the area too, or the string is in the area. -/
theorem comparedArea_inside_iff (hnull : pf.op ≠ .isNull) (hnotNull : pf.op ≠ .isNotNull)
    (hrow : col.filterNull row = false) (hstr : isStringType pf.kind = true)
    (hslot : col.slot? row = some v) (hbig : v.isInline = false) :
    (∀ off len, comparedArea pf col row = some (off, len) → off + len ≤ col.area.length) ↔
      v.bigOffset + v.bigLength < 2 ^ 32 ∨
        col.area.length < v.bigOffset + v.bigLength - 2 ^ 32 ∨
        v.bigOffset + v.bigLength ≤ col.area.length := by
  have hoff := v.bigOffset_lt
  have hlen := v.bigLength_lt
  rw [comparedArea_slot hnull hnotNull hrow hstr hslot hbig]
  have hall : (∀ off len, (if wrapAdd 32 v.bigOffset v.bigLength ≤ col.area.length
        then some (v.bigOffset, v.bigLength) else none) = some (off, len) →
          off + len ≤ col.area.length) ↔
      (wrapAdd 32 v.bigOffset v.bigLength ≤ col.area.length →
        v.bigOffset + v.bigLength ≤ col.area.length) := by
    constructor
    · intro h hguard
      exact h _ _ (if_pos hguard)
    · intro h off len hsome
      obtain ⟨hguard, hrange⟩ := Option.ite_none_right_eq_some.mp hsome
      cases hrange
      exact h hguard
  rw [hall, wrapAdd]
  by_cases hwrap : v.bigOffset + v.bigLength < 2 ^ 32
  · rw [Nat.mod_eq_of_lt hwrap]
    exact iff_of_true id (Or.inl hwrap)
  · have hmod : (v.bigOffset + v.bigLength) % 2 ^ 32 = v.bigOffset + v.bigLength - 2 ^ 32 := by omega
    rw [hmod]
    omega

end Compared

/-- A big slot of 32 bytes at the offset 2^32 - 16. -/
def wrappingSlot : Varlena :=
  ⟨leBytes 4 varlenaBigMarker ++ leBytes 4 (2 ^ 32 - 16) ++ leBytes 4 32 ++ List.replicate 12 0, rfl⟩

/-- A VARCHAR column of one row. -/
def slotColumn (v : Varlena) (area : List Byte) : DecodedColumn :=
  { type := { oid := 61 }, rowCount := 1, data := v.data, area := area }

/-- `s = 'a'`. -/
def equalsFilter : PushedFilter :=
  { colIdx := 0, seqnum := 0, moTypeOid := 61, op := .equal, constant := ⟨[97], 1⟩ }

/-- The wrapped end of the slot is 16, past an area of 15 bytes. -/
theorem wrappingSlot_guard :
    wrappingSlot.bigOffset + wrappingSlot.bigLength - 2 ^ 32 = 16 ∧ ∀ off len,
      comparedArea equalsFilter (slotColumn wrappingSlot (List.replicate 15 0)) 0 = some (off, len) →
        off + len ≤ (slotColumn wrappingSlot (List.replicate 15 0)).area.length := by
  have hend : wrappingSlot.bigOffset + wrappingSlot.bigLength - 2 ^ 32 = 16 := by decide +kernel
  have hslot : (slotColumn wrappingSlot (List.replicate 15 0)).slot? 0 = some wrappingSlot := by decide +kernel
  refine ⟨hend, ?_⟩
  apply (comparedArea_inside_iff (by decide) (by decide) (by decide) (by decide) hslot (by decide +kernel)).mpr
  rw [hend]
  exact Or.inr (Or.inl (by decide))

/-- An area of 16 bytes lets it through. -/
theorem wrappingSlot_unguarded :
    ∃ off len, comparedArea equalsFilter (slotColumn wrappingSlot (List.replicate 16 0)) 0 = some (off, len) ∧
      ¬off + len ≤ (slotColumn wrappingSlot (List.replicate 16 0)).area.length :=
  ⟨2 ^ 32 - 16, 32, by decide +kernel, by decide⟩

-- ============================================================================
-- Filter and fill
-- ============================================================================

/-- The null flag of a row that the fill emits. -/
def DecodedColumn.fillNull (col : DecodedColumn) (row : Nat) : Bool :=
  decide (col.nullCount ≠ 0) && col.isNullAt row

/-- The bytes of a slot that the filter compares. -/
def DecodedColumn.comparedString? (col : DecodedColumn) (v : Varlena) : Option (List Byte) :=
  (col.filterString? v).bind fun s => slice? s.1 0 s.2

/-- Filter and fill read the cell alike: its NULL, and in a string column the bytes of
    its slot, which a NULL has none of to read. -/
structure DecodedColumn.ReadAlike (col : DecodedColumn) (row : Nat) : Prop where
  null : col.filterNull row = col.fillNull row
  string : col.filterNull row = false → isStringType col.kind = true → ∀ v, col.slot? row = some v →
    ∃ s, col.comparedString? v = some s ∧ col.slotString? v = some s

/-- A slot that both follow: an inline one, a big one inside the area, or one without
    the marker that is empty and starts inside the area. -/
def Varlena.FollowedAlike (v : Varlena) (area : List Byte) : Prop :=
  v.isInline = true ∨
    (v.bigMarker = varlenaBigMarker ∧ v.bigOffset + v.bigLength ≤ area.length) ∨
    (v.bigMarker ≠ varlenaBigMarker ∧ v.bigLength = 0 ∧ v.bigOffset ≤ area.length)

instance (v : Varlena) (area : List Byte) : Decidable (v.FollowedAlike area) :=
  inferInstanceAs (Decidable (_ ∨ _))

section Alike
variable {pf : PushedFilter} {col : DecodedColumn} {row : Nat} {v : Varlena} {s : List Byte}

/-- The flags of a window that starts out valid. -/
theorem setNullMask_fillNull {out : DuckVector} (hvalid : ∀ i, out.invalid i = false) {count off i : Nat}
    (hi : i < count) : (setNullMask out col count off).invalid i = col.fillNull (off + i) := by
  rw [setNullMask_eq]
  show (out.invalid i || col.marks count off i) = col.fillNull (off + i)
  rw [hvalid, Bool.false_or, DecodedColumn.marks, decide_eq_true hi, Bool.and_true]
  rfl

/-- What the filter answers depends on the compared bytes alone. -/
theorem rowPassesFilter_compared (hnull : pf.op ≠ .isNull) (hnotNull : pf.op ≠ .isNotNull)
    (hrow : col.filterNull row = false) (hstr : isStringType pf.kind = true)
    (hslot : col.slot? row = some v) (hs : col.comparedString? v = some s) :
    rowPassesFilter pf col row = compareString pf s s.length := by
  obtain ⟨⟨str, len⟩, hfilter, hslice⟩ := Option.bind_eq_some_iff.mp hs
  obtain ⟨hle, rfl⟩ := slice?_eq_some.mp hslice
  replace hle : len ≤ str.length := Nat.zero_add len ▸ hle
  have hlen : ((str.drop 0).take len).length = len := by
    rw [List.drop_zero, List.length_take]
    omega
  -- a comparison of at most `len` bytes does not see the rest
  have hmem : ∀ (c : List Byte) (n : Nat), n ≤ len →
      memcmp? str c n = memcmp? ((str.drop 0).take len) c n := by
    intro c n hn
    rw [memcmp?, memcmp?, hlen, if_pos (by omega), if_pos hn, List.drop_zero, memcmp_take_left str c hn]
  rw [rowPassesFilter_slot hnull hnotNull hrow hstr hslot, hfilter, Option.elim_some, compareString,
    compareString, hlen, hmem _ _ (Nat.min_le_left _ _)]
  simp only [hmem _ _ (Nat.le_refl len)]

theorem null_alike_iff (hrow : row < col.rowCount) :
    col.filterNull row = col.fillNull row ↔ (col.isNullAt row = true → col.nullCount ≠ 0) := by
  rw [DecodedColumn.filterNull, DecodedColumn.fillNull, decide_eq_true hrow, Bool.true_and]
  cases col.isNullAt row with
  | false => simp
  | true => simp

/-- The two readings of a slot. -/
theorem string_alike_iff :
    (∃ s, col.comparedString? v = some s ∧ col.slotString? v = some s) ↔ v.FollowedAlike col.area := by
  unfold DecodedColumn.comparedString? DecodedColumn.filterString? DecodedColumn.slotString?
    Varlena.FollowedAlike
  by_cases hin : v.isInline = true
  · have hlen : v.inlineLength ≤ (v.data.drop 1).length := by
      rw [← Varlena.inlineData_length hin, Varlena.inlineData, List.length_take]
      exact Nat.min_le_right _ _
    rw [if_pos hin, if_pos hin, Option.bind_some, slice?_of_le (by rwa [Nat.zero_add]), List.drop_zero]
    exact iff_of_true ⟨_, rfl, rfl⟩ (Or.inl hin)
  rw [if_neg hin, if_neg hin]
  -- what the filter compares of a slot that is not inline
  have hcompared : ∀ s, ((if wrapAdd 32 v.bigOffset v.bigLength ≤ col.area.length
        then some (col.area.drop v.bigOffset, v.bigLength) else none).bind fun s => slice? s.1 0 s.2)
          = some s ↔
      v.bigLength ≤ (col.area.drop v.bigOffset).length ∧
        wrapAdd 32 v.bigOffset v.bigLength ≤ col.area.length ∧
          s = (col.area.drop v.bigOffset).take v.bigLength := by
    intro s
    by_cases hguard : wrapAdd 32 v.bigOffset v.bigLength ≤ col.area.length
    · rw [if_pos hguard, Option.bind_some, slice?_eq_some, Nat.zero_add, List.drop_zero]
      exact and_congr_right fun _ => (and_iff_right hguard).symm
    · rw [if_neg hguard]
      exact iff_of_false (by simp) fun h => hguard h.2.1
  have hwrap : wrapAdd 32 v.bigOffset v.bigLength ≤ v.bigOffset + v.bigLength := Nat.mod_le _ _
  simp only [hcompared, List.length_drop]
  by_cases hmarker : v.bigMarker = varlenaBigMarker
  · rw [if_neg (not_not.mpr hmarker)]
    constructor
    · rintro ⟨s, -, hfill⟩
      exact Or.inr (Or.inl ⟨hmarker, (slice?_eq_some.mp hfill).1⟩)
    · rintro (h | ⟨-, hle⟩ | ⟨h, -⟩)
      · exact absurd h hin
      · exact ⟨_, ⟨by omega, by omega, rfl⟩, slice?_of_le hle⟩
      · exact absurd hmarker h
  · rw [if_pos hmarker]
    constructor
    · rintro ⟨s, ⟨hlen, hguard, hs⟩, hfill⟩
      obtain rfl := Option.some.inj hfill
      have hzero : v.bigLength = 0 := by
        have htake := congrArg List.length hs
        rw [List.length_take, List.length_drop, List.length_nil] at htake
        omega
      rw [hzero, wrapAdd_of_lt (by rw [Nat.add_zero]; exact v.bigOffset_lt)] at hguard
      exact Or.inr (Or.inr ⟨hmarker, hzero, hguard⟩)
    · rintro (h | ⟨h, -⟩ | ⟨-, hzero, hle⟩)
      · exact absurd h hin
      · exact absurd h hmarker
      · exact ⟨[], ⟨by omega, by omega, by rw [hzero, List.take_zero]⟩, rfl⟩

end Alike

/-- Filter and fill read a cell alike iff a set null bit comes with a positive null
    count, and both follow the slot of a string that is not NULL. -/
theorem cell_readAlike_iff {col : DecodedColumn} {row : Nat} (hrow : row < col.rowCount) :
    col.ReadAlike row ↔
      (col.isNullAt row = true → col.nullCount ≠ 0) ∧
        (col.isNullAt row = false → isStringType col.kind = true →
          ∀ v, col.slot? row = some v → v.FollowedAlike col.area) := by
  have hfilter : col.filterNull row = col.isNullAt row := by
    rw [DecodedColumn.filterNull, decide_eq_true hrow, Bool.true_and]
  rw [← null_alike_iff hrow, ← hfilter]
  constructor
  · rintro ⟨hnull, hstring⟩
    exact ⟨hnull, fun hnot hstr v hv => string_alike_iff.mp (hstring hnot hstr v hv)⟩
  · rintro ⟨hnull, hfollowed⟩
    exact ⟨hnull, fun hnot hstr v hv => string_alike_iff.mpr (hfollowed hnot hstr v hv)⟩

/-- A slot without the marker that refers to the one byte of its area. -/
def unmarkedSlot : Varlena := ⟨leBytes 4 24 ++ leBytes 4 0 ++ leBytes 4 1 ++ List.replicate 12 0, rfl⟩

/-- Two rows with that slot; the first is NULL, and is counted as the argument says. -/
def unmarkedColumn (nullCount : Nat) : DecodedColumn :=
  { type := { oid := 61 }, rowCount := 2, data := unmarkedSlot.data ++ unmarkedSlot.data, area := [65],
    nullBitmap := [1], nullCount := nullCount }

/-- The slot of a NULL does not matter. -/
theorem nullSlot_alike : (unmarkedColumn 1).ReadAlike 0 := by
  apply (cell_readAlike_iff (by decide)).mpr
  refine ⟨fun _ => by decide, fun hnot => ?_⟩
  exact absurd hnot (by decide +kernel)

/-- The same rows in a vector whose null section counts no NULL. -/
def unmarkedSections : VectorSections where
  vecClass := 0
  type := 61 :: List.replicate 15 0
  length := 2
  data := unmarkedSlot.data ++ unmarkedSlot.data
  area := [65]
  nsp := leBytes 8 0 ++ leBytes 8 2 ++ leBytes 8 8 ++ leBytes 8 1
  sorted := 0

/-- In the first row the filter sees a NULL where the query shows a value, and in the
    second it compares "A" where the query shows the empty string. -/
theorem unmarkedSections_not_alike :
    ∃ col, decodeVector unmarkedSections.layout = .ok col ∧
      (col.filterNull 0, col.fillNull 0) = (true, false) ∧ ¬col.ReadAlike 0 ∧
      (col.filterNull 1, col.fillNull 1) = (false, false) ∧ col.slot? 1 = some unmarkedSlot ∧
      (col.comparedString? unmarkedSlot, col.slotString? unmarkedSlot) = (some [65], some []) ∧
      ¬col.ReadAlike 1 := by
  let col : DecodedColumn := { unmarkedColumn 0 with type := MOType.ofBytes unmarkedSections.type }
  have hfirst : (col.filterNull 0, col.fillNull 0) = (true, false) := by decide +kernel
  have hsecond : (col.filterNull 1, col.fillNull 1) = (false, false) := by decide +kernel
  have hslot : col.slot? 1 = some unmarkedSlot := by decide +kernel
  have hstrings : (col.comparedString? unmarkedSlot, col.slotString? unmarkedSlot) = (some [65], some []) := by
    decide +kernel
  obtain ⟨hcompared, hshown⟩ := Prod.mk.inj hstrings
  refine ⟨col, by decide +kernel, hfirst, fun halike => ?_, hsecond, hslot, hstrings, fun halike => ?_⟩
  · have hnull := halike.null
    rw [(Prod.mk.inj hfirst).1, (Prod.mk.inj hfirst).2] at hnull
    exact Bool.noConfusion hnull
  · obtain ⟨s, hs, hs'⟩ := halike.string (Prod.mk.inj hsecond).1 (by decide) unmarkedSlot hslot
    rw [hcompared] at hs
    rw [hshown, ← hs] at hs'
    exact absurd hs' (by decide)

end TaeScanner
