/-
  TaeScanner.Filter.ConstantColumns

  CONSTANT against FLAT.  The fill branches on the vector class; the row filter
  does not, so a CONSTANT column answers like its FLAT twin only while no filter
  reads an element behind the first.  This module says when that is.
-/

import TaeScanner.Filter.ElementReads
import TaeScanner.Table.Materialise

namespace TaeScanner

open Lib

-- ============================================================================
-- The window a query sees
-- ============================================================================

/-- The rows a query reads of a window: the column filled into a reset vector,
    then the row filters. -/
def scanWindow (v : DuckVector) (col : DecodedColumn) (filters : List PushedFilter)
    (count off : Nat) : Option (List (List Cell)) := do
  let w ← fillColumn v.reset col count off
  let (out, _) ← applyRowFilters filters [col] ⟨[w], count⟩ count off
  return out.rows

/-- Both columns can be scanned, and give the same output rows. -/
def Indistinguishable (v : DuckVector) (c₁ c₂ : DecodedColumn) (filters : List PushedFilter)
    (count off : Nat) : Prop :=
  ∃ rows, scanWindow v c₁ filters count off = some rows ∧ scanWindow v c₂ filters count off = some rows

section Window
variable {v w : DuckVector} {col : DecodedColumn} {filters : List PushedFilter} {count off : Nat}
  {cell : Cell}

/-- A window that shows one cell everywhere is told by the number of rows kept. -/
theorem scanWindow_uniform (hfill : fillColumn v.reset col count off = some w)
    (hcells : ∀ p, p < count → w.cell p = cell) :
    scanWindow v col filters count off
      = (passingRows filters [col] count off).map fun sel => List.replicate sel.length [cell] := by
  rw [scanWindow]
  rw [hfill]
  show (applyRowFilters filters [col] ⟨[w], count⟩ count off).bind _ = _
  cases hsel : passingRows filters [col] count off with
  | none =>
      have hne : filters ≠ [] := by
        rintro rfl
        have hall : passingRows [] [col] count off = some ((List.range count).filter fun _ => true) :=
          filterM_of_some fun _ _ => rfl
        rw [hsel] at hall
        cases hall
      rw [applyRowFilters, if_neg hne, hsel]
      rfl
  | some sel =>
      obtain ⟨out, hout, hrows⟩ := applyRowFilters_of_passing
        (show (DataChunk.mk [w] count).cardinality = count from rfl) hsel
      rw [hout, Option.map_some]
      show some out.rows = _
      rw [hrows, Option.some.injEq, List.eq_replicate_iff, List.length_map]
      refine ⟨rfl, fun row hrow => ?_⟩
      obtain ⟨p, hp, rfl⟩ := List.mem_map.mp hrow
      obtain ⟨-, hfilter⟩ := filterM_eq_some.mp hsel
      rw [hfilter] at hp
      have hlt := List.mem_range.mp (List.mem_of_mem_filter hp)
      show [w.cell p] = [cell]
      rw [hcells p hlt]

/-- All rows are kept, or none, iff every row is answered so. -/
theorem passingRows_all_iff (b : Bool) {cols : List DecodedColumn} :
    (∃ sel, passingRows filters cols count off = some sel ∧ sel.length = if b then count else 0) ↔
      ∀ i, i < count → rowPassesFilters filters cols (off + i) = some b := by
  constructor
  · rintro ⟨sel, hsel, hlen⟩ i hi
    obtain ⟨hsome, hfilter⟩ := filterM_eq_some.mp hsel
    have hmem : i ∈ List.range count := List.mem_range.mpr hi
    obtain ⟨b', hb'⟩ := Option.isSome_iff_exists.mp (hsome i hmem)
    rw [hb']
    rw [hfilter] at hlen
    cases b with
    | true =>
        have hall := List.length_filter_eq_length_iff.mp
          (hlen.trans (by rw [List.length_range]; rfl)) i hmem
        rw [← hb', of_decide_eq_true hall]
    | false =>
        have hnil := List.filter_eq_nil_iff.mp (List.length_eq_zero_iff.mp hlen) i hmem
        cases b' with
        | true => exact absurd (decide_eq_true hb') hnil
        | false => rfl
  · intro h
    refine ⟨_, filterM_of_some (fun i hi => h i (List.mem_range.mp hi)), ?_⟩
    cases b <;> simp

theorem rowPassesFilters_singleton (hidx : ∀ pf ∈ filters, pf.colIdx = 0) (row : Nat) :
    rowPassesFilters filters [col] row = filters.allM fun pf => rowPassesFilter pf col row := by
  rw [rowPassesFilters]
  refine allM_congr fun pf hpf => ?_
  rw [hidx pf hpf]
  rfl

/-- A uniform window is the twin of another iff its rows are all answered as
    the other's are. -/
theorem indistinguishable_iff {c₁ c₂ : DecodedColumn} {w₁ w₂ : DuckVector} {b : Bool}
    (hfill₁ : fillColumn v.reset c₁ count off = some w₁) (hcells₁ : ∀ p, p < count → w₁.cell p = cell)
    (hfill₂ : fillColumn v.reset c₂ count off = some w₂) (hcells₂ : ∀ p, p < count → w₂.cell p = cell)
    (hrows₂ : ∀ i, i < count → rowPassesFilters filters [c₂] (off + i) = some b) :
    Indistinguishable v c₁ c₂ filters count off ↔
      ∀ i, i < count → rowPassesFilters filters [c₁] (off + i) = some b := by
  rw [Indistinguishable]
  rw [scanWindow_uniform hfill₁ hcells₁, scanWindow_uniform hfill₂ hcells₂]
  obtain ⟨sel₂, hsel₂, hlen₂⟩ := (passingRows_all_iff b).mpr hrows₂
  rw [← passingRows_all_iff b, hsel₂, ← hlen₂]
  constructor
  · rintro ⟨rows, h₁, h₂⟩
    obtain ⟨sel₁, hsel₁, rfl⟩ := Option.map_eq_some_iff.mp h₁
    have hrep := congrArg List.length (Option.some.inj h₂)
    exact ⟨sel₁, hsel₁, by simpa using hrep.symm⟩
  · rintro ⟨sel₁, hsel₁, hlen⟩
    refine ⟨List.replicate sel₁.length [cell], by rw [hsel₁]; rfl, ?_⟩
    rw [Option.map_some, hlen]

end Window

-- ============================================================================
-- The two encodings of a column
-- ============================================================================

/-- Bytes of one element of the type in `data`. -/
def MOType.slotWidth (t : MOType) : Nat :=
  if isStringType t.kind then varlenaSize else (moTypeFixedSize t.kind).toNat

/-- A CONSTANT vector of `n` rows showing `cell`: one element, or no data for NULL. -/
structure ConstantBlock (t : MOType) (n : Nat) (cell : Cell) (c : DecodedColumn) : Prop where
  type : c.type = t
  rows : c.rowCount = n
  constant : c.vecClass = 1
  value : ∀ x, cell = some x → c.data.length = t.slotWidth ∧ c.WellFormedAt 0 ∧
    c.storedValue? 0 = some x ∧ ∀ r, r < n → c.isNullAt r = false
  null : cell = none → c.data = []

/-- A FLAT vector of `n` rows, all of them `cell`. -/
structure FlatBlock (t : MOType) (n : Nat) (cell : Cell) (c : DecodedColumn) : Prop where
  type : c.type = t
  rows : c.rowCount = n
  flat : c.vecClass = 0
  elements : ∀ r, r < n → c.WellFormedAt r
  value : ∀ x, cell = some x → ∀ r, r < n → c.storedValue? r = some x ∧ c.isNullAt r = false
  null : cell = none → c.nullCount ≠ 0 ∧ ∀ r, r < n → c.isNullAt r = true

/-- A fill keeps the kind and the validity mask it finds. -/
theorem copyColumn_flags {u w : DuckVector} {col : DecodedColumn} {count off : Nat}
    (h : copyColumn u col count off = some w) : w.flags = u.flags := by
  have hself := copyColumn_withFlags u u.flags col count off
  rw [DuckVector.withFlags_self, h] at hself
  rw [Option.some.inj hself, DuckVector.withFlags_flags]

/-- A constant NULL is NULL at every position. -/
theorem DuckVector.constantNull_cell (v : DuckVector) (p : Nat) :
    (v.setConstant.setInvalid 0).cell p = none := by
  have hinvalid : (v.setConstant.setInvalid 0).invalid 0 = true := by simp [DuckVector.setInvalid]
  rw [DuckVector.cell]
  exact if_pos hinvalid

/-- A constant that is not NULL is filled like one flat row. -/
theorem fillConstantColumn_value {u : DuckVector} {col : DecodedColumn} (hdata : col.data ≠ [])
    (hnull : ¬ (0 < col.nullCount ∧ col.isNullAt 0 = true)) :
    fillConstantColumn u col = copyColumn u.setConstant col 1 0 := by
  rw [fillConstantColumn, if_neg hdata, if_neg hnull]
  rw [copyColumn]
  split <;>
    simp [copyDateColumn, copyTimestampColumn, copyUuidColumn, copyVarlenColumn, copyFixedColumn,
      copyElements, forRange_succ, *]

section Blocks
variable {t : MOType} {ty : LogicalType} {n count off : Nat} {x : SqlValue} {col : DecodedColumn}
  {v : DuckVector}

/-- Well-formed rows of a type with matching strides are filled faithfully. -/
theorem faithfulFill_of_strideMatches (hty : moTypeToDuckDB col.type = .ok v.type)
    (hm : StrideMatches col.type) (hflat : col.vecClass ≠ 1)
    (hwf : ∀ r, r < off + count → col.WellFormedAt r) : FaithfulFill v col count off :=
  (faithfulFill_iff hty hflat hwf).mpr (Or.inr hm) v rfl

/-- The element of a CONSTANT column is filled like that of a FLAT row. -/
theorem fillConstantColumn_elemAt {u : DuckVector} (hty : moTypeToDuckDB col.type = .ok u.type)
    (hm : StrideMatches col.type) (hdata : col.data ≠ [])
    (hnull : ¬ (0 < col.nullCount ∧ col.isNullAt 0 = true)) (hwf : col.WellFormedAt 0) :
    ∃ w, fillConstantColumn u col = some w ∧ col.storedValue? 0 = some (w.elemAt 0) := by
  -- the same single row, taken for a FLAT column
  have hfaithful : FaithfulFill u.setConstant { col with vecClass := 0 } 1 0 := by
    refine faithfulFill_of_strideMatches hty hm (show (0 : Byte) ≠ 1 by decide) fun r hr => ?_
    obtain rfl : r = 0 := by omega
    exact ⟨hwf.denotes, hwf.date_fits, hwf.timestamp_fits⟩
  obtain ⟨w', hw', hvals, -⟩ := hfaithful
  rw [fillColumn, if_neg (show ¬ (0 : Byte) = 1 by decide)] at hw'
  obtain ⟨w, hw, hmask⟩ := Option.map_eq_some_iff.mp hw'
  refine ⟨w, by rw [fillConstantColumn_value hdata hnull]; exact hw, ?_⟩
  have h0 := hvals 0 (by decide)
  rw [← hmask, setNullMask_eq, DuckVector.withFlags_elemAt] at h0
  exact h0

/-- The CONSTANT fill of a value shows it at every position. -/
theorem constant_fill_cells (hty : moTypeToDuckDB col.type = .ok v.type) (hm : StrideMatches col.type)
    (hclass : col.vecClass = 1) (hdata : col.data ≠ [])
    (hnull : ¬ (0 < col.nullCount ∧ col.isNullAt 0 = true)) (hwf : col.WellFormedAt 0) :
    ∃ w, fillColumn v.reset col count off = some w ∧ ∀ p, w.cell p = col.storedValue? 0 := by
  obtain ⟨w, hw, hshown⟩ := fillConstantColumn_elemAt
    (show moTypeToDuckDB col.type = .ok v.reset.type from hty) hm hdata hnull hwf
  have hcopy : copyColumn v.reset.setConstant col 1 0 = some w := by
    rw [← fillConstantColumn_value hdata hnull, hw]
  have hflags := copyColumn_flags hcopy
  have hkind : w.kind = .constant := congrArg VectorFlags.kind hflags
  have hinvalid : w.invalid = fun _ => false := congrArg VectorFlags.invalid hflags
  refine ⟨w, by rw [fillColumn, if_pos hclass, hw], fun p => ?_⟩
  rw [DuckVector.cell, hkind]
  simp only [hinvalid, Bool.false_eq_true, if_false]
  exact hshown.symm

theorem constant_value_cells (hty : moTypeToDuckDB t = .ok v.type) (hm : StrideMatches t)
    (hC : ConstantBlock t n (some x) col) (hn : 1 ≤ n) (hwidth : 0 < t.slotWidth) :
    ∃ w, fillColumn v.reset col count off = some w ∧ ∀ p, w.cell p = some x := by
  obtain ⟨hlen, hwf, hval, hnull⟩ := hC.value x rfl
  have hdata : col.data ≠ [] := by
    intro hnil
    rw [hnil] at hlen
    simp only [List.length_nil] at hlen
    omega
  have hbit : ¬ (0 < col.nullCount ∧ col.isNullAt 0 = true) := by simp [hnull 0 (by omega)]
  rw [← hval]
  exact constant_fill_cells (by rw [hC.type]; exact hty) (by rw [hC.type]; exact hm) hC.constant hdata
    hbit hwf

/-- The CONSTANT fill of NULL shows NULL at every position. -/
theorem constant_null_cells (hC : ConstantBlock t n none col) :
    ∃ w, fillColumn v.reset col count off = some w ∧ ∀ p, w.cell p = none := by
  refine ⟨v.reset.setConstant.setInvalid 0, ?_, DuckVector.constantNull_cell v.reset⟩
  rw [fillColumn, if_pos hC.constant, fillConstantColumn, if_pos (hC.null rfl)]

/-- A faithful FLAT fill shows NULL where the column has one, and the row's value
    everywhere else. -/
theorem flat_fill_cells (hclass : col.vecClass ≠ 1) (h : FaithfulFill v.reset col count off) :
    ∃ w, fillColumn v.reset col count off = some w ∧ ∀ p, p < count →
      w.cell p = if col.marks count off p then none else col.storedValue? (off + p) := by
  obtain ⟨w', hw', hvals, -⟩ := h
  obtain ⟨w, hw, hmask⟩ : ∃ w, copyColumn v.reset col count off = some w ∧
      w' = setNullMask w col count off := by
    rw [fillColumn, if_neg hclass] at hw'
    obtain ⟨w, hw, hmask⟩ := Option.map_eq_some_iff.mp hw'
    exact ⟨w, hw, hmask.symm⟩
  have hflags := copyColumn_flags hw
  have hkind : w.kind = .flat := congrArg VectorFlags.kind hflags
  have hinvalid : w.invalid = fun _ => false := congrArg VectorFlags.invalid hflags
  rw [setNullMask_eq] at hmask
  refine ⟨w', hw', fun p hp => ?_⟩
  rw [hvals p hp, hmask, DuckVector.cell, DuckVector.withFlags_kind, hkind]
  simp only [DuckVector.withFlags_invalid, hinvalid, Bool.false_or, DuckVector.withFlags_elemAt]

/-- The FLAT fill of copies of a cell shows it in the window. -/
theorem flat_cells {cell : Cell} (hty : moTypeToDuckDB t = .ok v.type) (hm : StrideMatches t)
    (hF : FlatBlock t n cell col) (hwin : off + count ≤ n) :
    ∃ w, fillColumn v.reset col count off = some w ∧ ∀ p, p < count → w.cell p = cell := by
  have hclass : col.vecClass ≠ 1 := by rw [hF.flat]; decide
  have hfaithful : FaithfulFill v.reset col count off :=
    faithfulFill_of_strideMatches (by rw [hF.type]; exact hty) (by rw [hF.type]; exact hm) hclass
      fun r hr => hF.elements r (by omega)
  obtain ⟨w, hw, hcells⟩ := flat_fill_cells hclass hfaithful
  refine ⟨w, hw, fun p hp => ?_⟩
  rw [hcells p hp]
  cases cell with
  | none =>
      obtain ⟨hcount, hbits⟩ := hF.null rfl
      have hmark : col.marks count off p = true := by
        simp [DecodedColumn.marks, hcount, hp, hbits (off + p) (by omega)]
      rw [hmark, if_pos rfl]
  | some x =>
      obtain ⟨hval, hbit⟩ := hF.value x rfl (off + p) (by omega)
      have hmark : col.marks count off p = false := by simp [DecodedColumn.marks, hbit]
      rw [hmark, if_neg Bool.false_ne_true, hval]

end Blocks

-- ============================================================================
-- When the encodings are indistinguishable
-- ============================================================================

/-- The answer of all filters on a non-NULL row, when no filter that reads the
    row's element is reached. -/
def readFreeAnswer (filters : List PushedFilter) : Option Bool := filters.allM (·.readFree?)

/-- The answer of all filters on a NULL row: only IS NULL lets it pass. -/
def nullAnswer (filters : List PushedFilter) : Bool := filters.all fun pf => pf.op = .isNull

/-- The condition on a CONSTANT block: for a value, the window is row 0 alone or
    no filter reads an element; for NULL, every row of the window has its bit
    set in the bitmap or is answered like a NULL without reading. -/
def ConstantScanSafe (c : DecodedColumn) (cell : Cell) (filters : List PushedFilter)
    (count off : Nat) : Prop :=
  match cell with
  | some _ => (∀ i, i < count → off + i = 0) ∨ (readFreeAnswer filters).isSome
  | none => ∀ i, i < count → c.isNullAt (off + i) = true ∨
      readFreeAnswer filters = some (nullAnswer filters)

section Blocks
variable {t : MOType} {n count off : Nat} {x : SqlValue} {c₁ c₂ : DecodedColumn}
  {filters : List PushedFilter} {row : Nat}

/-- A row whose bit is set is answered by the operators alone. -/
theorem rowPassesFilters_null (hidx : ∀ pf ∈ filters, pf.colIdx = 0) (hrow : row < c₁.rowCount)
    (hbit : c₁.isNullAt row = true) :
    rowPassesFilters filters [c₁] row = some (nullAnswer filters) := by
  rw [rowPassesFilters_singleton hidx]
  refine allM_of_some fun pf _ => ?_
  have hnull : c₁.filterNull row = true := by simp [DecodedColumn.filterNull, hrow, hbit]
  rw [rowPassesFilter]
  rw [hnull]
  cases pf.op <;> rfl

/-- A row without an element is answered read-free or not at all. -/
theorem rowPassesFilters_outside (hidx : ∀ pf ∈ filters, pf.colIdx = 0)
    (hwf : ∀ pf ∈ filters, pf.WellFormed c₁.type) (hnull : c₁.filterNull row = false)
    (hno : c₁.hasElement row = false) :
    rowPassesFilters filters [c₁] row = readFreeAnswer filters := by
  rw [rowPassesFilters_singleton hidx, readFreeAnswer]
  exact allM_congr fun pf hpf => rowPassesFilter_outside (hwf pf hpf).kind_eq hnull hno

/-- Rows with the same value are answered alike, and a read-free answer is that
    answer. -/
theorem rowPassesFilters_inside {r₁ r₂ : Nat} (hidx : ∀ pf ∈ filters, pf.colIdx = 0)
    (hwf : ∀ pf ∈ filters, pf.WellFormed c₁.type) (htype : c₁.type = c₂.type)
    (hfill : 0 < moTypeFixedSize c₁.kind ∨ isStringType c₁.kind = true)
    (hv₁ : c₁.storedValue? r₁ = some x) (hv₂ : c₂.storedValue? r₂ = some x)
    (hn₁ : c₁.filterNull r₁ = false) (hn₂ : c₂.filterNull r₂ = false) :
    ∃ b, rowPassesFilters filters [c₁] r₁ = some b ∧ rowPassesFilters filters [c₂] r₂ = some b ∧
      ∀ b', readFreeAnswer filters = some b' → b' = b := by
  rw [rowPassesFilters_singleton hidx, rowPassesFilters_singleton hidx]
  have hpoint : ∀ pf ∈ filters, ∃ b, rowPassesFilter pf c₁ r₁ = some b ∧
      rowPassesFilter pf c₂ r₂ = some b ∧ ∀ b', pf.readFree? = some b' → b' = b := fun pf hpf =>
    rowPassesFilter_inside htype hfill hv₁ hv₂ hn₁ hn₂ (hwf pf hpf)
  obtain ⟨b, hb⟩ : ∃ b, filters.allM (fun pf => rowPassesFilter pf c₁ r₁) = some b := by
    have hall : ∀ pf ∈ filters,
        rowPassesFilter pf c₁ r₁ = some ((rowPassesFilter pf c₁ r₁).getD false) := by
      intro pf hpf
      obtain ⟨b, hb, -⟩ := hpoint pf hpf
      rw [hb, Option.getD_some]
    exact ⟨_, allM_of_some hall⟩
  refine ⟨b, hb, allM_mono (fun pf hpf b' hb' => ?_) hb, fun b' hb' => ?_⟩
  · obtain ⟨b'', h₁, h₂, -⟩ := hpoint pf hpf
    rw [h₂, ← h₁, hb']
  · have hmono : filters.allM (fun pf => rowPassesFilter pf c₁ r₁) = some b' := by
      refine allM_mono (fun pf hpf a ha => ?_) hb'
      obtain ⟨b'', h₁, -, hfree⟩ := hpoint pf hpf
      rw [h₁, hfree a ha]
    exact Option.some.inj (hmono.symm.trans hb)

end Blocks

theorem hasElement_of_short {c : DecodedColumn} {row : Nat}
    (h : c.data.length < (row + 1) * c.type.slotWidth) : c.hasElement row = false := by
  rw [MOType.slotWidth] at h
  rw [DecodedColumn.hasElement, DecodedColumn.kind]
  split at h
  · next hstr =>
      rw [if_pos hstr, ← Bool.not_eq_true, DecodedColumn.slot?_isSome]
      omega
  · next hstr =>
      rw [if_neg hstr, ← Bool.not_eq_true, DecodedColumn.element?_isSome]
      omega

/-- The types the fill materialises are fixed-width or strings. -/
theorem fixed_or_string {t : MOType} {ty : LogicalType} (hty : moTypeToDuckDB t = .ok ty)
    (hm : StrideMatches t) : 0 < moTypeFixedSize t.kind ∨ isStringType t.kind = true := by
  rw [moTypeToDuckDB] at hty
  rw [StrideMatches] at hm
  cases hk : t.kind <;> simp [hk, moTypeFixedSize, isStringType] at hty hm ⊢

theorem slotWidth_pos {t : MOType} (h : 0 < moTypeFixedSize t.kind ∨ isStringType t.kind = true) :
    0 < t.slotWidth := by
  rw [MOType.slotWidth]
  split
  · decide
  · next hstr => exact Int.pos_iff_toNat_pos.mp (h.resolve_right hstr)

section Windows
variable {t : MOType} {n count off : Nat} {x : SqlValue} {c₁ c₂ : DecodedColumn}
  {filters : List PushedFilter} {v : DuckVector}

/-- A NULL block: the FLAT rows are answered by the operators alone, the CONSTANT ones
    too if their bit is set, and read-free otherwise. -/
theorem indistinguishable_null_iff (hfill : 0 < moTypeFixedSize t.kind ∨ isStringType t.kind = true)
    (hty : moTypeToDuckDB t = .ok v.type) (hm : StrideMatches t) (hC : ConstantBlock t n none c₁)
    (hF : FlatBlock t n none c₂) (hidx : ∀ pf ∈ filters, pf.colIdx = 0)
    (hwf : ∀ pf ∈ filters, pf.WellFormed c₁.type) (hwin : off + count ≤ n) :
    Indistinguishable v c₁ c₂ filters count off ↔ ConstantScanSafe c₁ none filters count off := by
  obtain ⟨w₁, hfill₁, hcells₁⟩ := constant_null_cells hC
  obtain ⟨w₂, hfill₂, hcells₂⟩ := flat_cells hty hm hF hwin
  have hrows₂ : ∀ i, i < count →
      rowPassesFilters filters [c₂] (off + i) = some (nullAnswer filters) := fun i hi =>
    rowPassesFilters_null hidx (by rw [hF.rows]; omega) ((hF.null rfl).2 (off + i) (by omega))
  rw [indistinguishable_iff hfill₁ (fun p _ => hcells₁ p) hfill₂ hcells₂ hrows₂]
  refine forall_congr' fun i => forall_congr' fun hi => ?_
  cases hbit : c₁.isNullAt (off + i) with
  | true =>
      have hrow := rowPassesFilters_null hidx (by rw [hC.rows]; omega) hbit
      exact ⟨fun _ => Or.inl rfl, fun _ => hrow⟩
  | false =>
      have hnull : c₁.filterNull (off + i) = false := by simp [DecodedColumn.filterNull, hbit]
      have hno : c₁.hasElement (off + i) = false := by
        apply hasElement_of_short
        rw [hC.null rfl, hC.type]
        exact Nat.mul_pos (Nat.succ_pos _) (slotWidth_pos hfill)
      rw [rowPassesFilters_outside hidx hwf hnull hno]
      simp

/-- A block of one value: every FLAT row is answered as row 0 of the CONSTANT column is,
    whose other rows have no element. -/
theorem indistinguishable_value_iff (hfill : 0 < moTypeFixedSize t.kind ∨ isStringType t.kind = true)
    (hty : moTypeToDuckDB t = .ok v.type) (hm : StrideMatches t) (hn : 1 ≤ n)
    (hC : ConstantBlock t n (some x) c₁) (hF : FlatBlock t n (some x) c₂)
    (hidx : ∀ pf ∈ filters, pf.colIdx = 0) (hwf : ∀ pf ∈ filters, pf.WellFormed c₁.type)
    (hwin : off + count ≤ n) :
    Indistinguishable v c₁ c₂ filters count off ↔ ConstantScanSafe c₁ (some x) filters count off := by
  obtain ⟨w₁, hfill₁, hcells₁⟩ := constant_value_cells hty hm hC hn (slotWidth_pos hfill)
  obtain ⟨w₂, hfill₂, hcells₂⟩ := flat_cells hty hm hF hwin
  obtain ⟨hlen, -, hval₁, hbits₁⟩ := hC.value x rfl
  have htype : c₁.type = c₂.type := by rw [hC.type, hF.type]
  have hkindfill : 0 < moTypeFixedSize c₁.kind ∨ isStringType c₁.kind = true := by
    rw [DecodedColumn.kind, hC.type]
    exact hfill
  have hnull : ∀ c : DecodedColumn, (∀ r, r < n → c.isNullAt r = false) → ∀ r, r < n →
      c.filterNull r = false := by
    intro c hbits r hr
    simp [DecodedColumn.filterNull, hbits r hr]
  have hnull₁ := hnull c₁ hbits₁
  have hnull₂ := hnull c₂ fun r hr => (hF.value x rfl r hr).2
  -- the answer of row 0 is the answer of every FLAT row
  obtain ⟨b, hb, hb₂, hfree⟩ := rowPassesFilters_inside hidx hwf htype hkindfill hval₁
    (hF.value x rfl 0 (by omega)).1 (hnull₁ 0 (by omega)) (hnull₂ 0 (by omega))
  have hrows₂ : ∀ i, i < count → rowPassesFilters filters [c₂] (off + i) = some b := by
    intro i hi
    obtain ⟨b', hb', hrow, -⟩ := rowPassesFilters_inside hidx hwf htype hkindfill hval₁
      (hF.value x rfl (off + i) (by omega)).1 (hnull₁ 0 (by omega)) (hnull₂ (off + i) (by omega))
    rw [hrow, ← hb', hb]
  have hrows₁ : ∀ i, i < count → off + i ≠ 0 →
      rowPassesFilters filters [c₁] (off + i) = readFreeAnswer filters := by
    intro i hi hne
    refine rowPassesFilters_outside hidx hwf (hnull₁ (off + i) (by omega)) ?_
    apply hasElement_of_short
    rw [hlen, hC.type]
    have hwidth : 0 < t.slotWidth := slotWidth_pos hfill
    have htwo : 2 * t.slotWidth ≤ (off + i + 1) * t.slotWidth :=
      Nat.mul_le_mul_right t.slotWidth (by omega)
    omega
  rw [indistinguishable_iff hfill₁ (fun p _ => hcells₁ p) hfill₂ hcells₂ hrows₂]
  constructor
  · intro hall
    by_cases hzero : ∀ i, i < count → off + i = 0
    · exact Or.inl hzero
    · push Not at hzero
      obtain ⟨i, hi, hne⟩ := hzero
      refine Or.inr ?_
      rw [← hrows₁ i hi hne, hall i hi]
      rfl
  · intro hsafe i hi
    by_cases hne : off + i = 0
    · rw [hne, hb]
    · have hsome : (readFreeAnswer filters).isSome := hsafe.resolve_left fun h => hne (h i hi)
      obtain ⟨b', hb'⟩ := Option.isSome_iff_exists.mp hsome
      rw [hrows₁ i hi hne, hb', hfree b' hb']

end Windows

/-- CONSTANT and FLAT are told apart by no query exactly when the scan of the
    CONSTANT block is safe: the filter path knows nothing of vector classes. -/
theorem constant_flat_indistinguishable_iff {t : MOType} {n : Nat} {cell : Cell}
    {c₁ c₂ : DecodedColumn} {filters : List PushedFilter} {count off : Nat} {v : DuckVector}
    (hty : moTypeToDuckDB t = .ok v.type) (hm : StrideMatches t) (hn : 1 ≤ n)
    (hC : ConstantBlock t n cell c₁) (hF : FlatBlock t n cell c₂)
    (hfilters : ∀ pf ∈ filters, pf.colIdx = 0 ∧ pf.WellFormed t) (hwin : off + count ≤ n) :
    Indistinguishable v c₁ c₂ filters count off ↔ ConstantScanSafe c₁ cell filters count off := by
  have hfill := fixed_or_string hty hm
  have hidx : ∀ pf ∈ filters, pf.colIdx = 0 := fun pf hpf => (hfilters pf hpf).1
  have hwf : ∀ pf ∈ filters, pf.WellFormed c₁.type := fun pf hpf => by
    rw [hC.type]
    exact (hfilters pf hpf).2
  cases cell with
  | none => exact indistinguishable_null_iff hfill hty hm hC hF hidx hwf hwin
  | some x => exact indistinguishable_value_iff hfill hty hm hn hC hF hidx hwf hwin

/-- Two rows of the `int32` value 7, in both encodings, and the filter `x = 7`. -/
def constantSeven : DecodedColumn :=
  { type := { oid := 22 }, rowCount := 2, data := leBytes 4 7, vecClass := 1 }

def flatSeven : DecodedColumn :=
  { type := { oid := 22 }, rowCount := 2, data := leBytes 4 7 ++ leBytes 4 7 }

def equalsSeven : PushedFilter :=
  { colIdx := 0, seqnum := 0, moTypeOid := 22, op := .equal, constant := ⟨leBytes 4 7, 4⟩ }

def sevenIsNotNull : PushedFilter := { colIdx := 0, seqnum := 0, moTypeOid := 22, op := .isNotNull }

theorem constantSeven_block : ConstantBlock { oid := 22 } 2 (some (.int 7)) constantSeven := by
  refine ⟨rfl, rfl, rfl, fun x hx => ?_, fun h => by cases h⟩
  obtain rfl := Option.some.inj hx
  refine ⟨rfl, ⟨by decide, fun h => absurd h (by decide), fun h => absurd h (by decide)⟩, by decide,
    fun r _ => rfl⟩

theorem flatSeven_block : FlatBlock { oid := 22 } 2 (some (.int 7)) flatSeven := by
  have hrow : ∀ r, r < 2 → flatSeven.storedValue? r = some (.int 7) := by
    intro r hr
    rcases (by omega : r = 0 ∨ r = 1) with rfl | rfl <;> decide
  refine ⟨rfl, rfl, rfl, fun r hr => ?_, fun x hx r hr => ?_, fun h => by cases h⟩
  · exact ⟨by rw [hrow r hr]; rfl, fun h => absurd h (by decide), fun h => absurd h (by decide)⟩
  · obtain rfl := Option.some.inj hx
    exact ⟨hrow r hr, rfl⟩

/-- Under `x = 7` the FLAT rows are both returned; on the CONSTANT column the
    test of row 1 reads behind the only element. -/
theorem constantSeven_distinguished :
    scanWindow { type := .integer } flatSeven [equalsSeven] 2 0
        = some [[some (.int 7)], [some (.int 7)]] ∧
      scanWindow { type := .integer } constantSeven [equalsSeven] 2 0 = none ∧
      ¬ Indistinguishable { type := .integer } constantSeven flatSeven [equalsSeven] 2 0 := by
  have hnone : scanWindow { type := .integer } constantSeven [equalsSeven] 2 0 = none := by decide
  refine ⟨by decide, hnone, ?_⟩
  rintro ⟨rows, h, -⟩
  rw [hnone] at h
  cases h

/-- Under IS NOT NULL, which reads no element, the encodings agree. -/
theorem sevenIsNotNull_indistinguishable :
    Indistinguishable { type := .integer } constantSeven flatSeven [sevenIsNotNull] 2 0 := by
  refine (constant_flat_indistinguishable_iff rfl (by decide) (by decide) constantSeven_block
    flatSeven_block ?_ (by decide)).mpr (Or.inr rfl)
  intro pf hpf
  obtain rfl := List.mem_singleton.mp hpf
  exact ⟨rfl, rfl, fun _ h => absurd rfl h, fun h => absurd h (by decide)⟩

end TaeScanner
