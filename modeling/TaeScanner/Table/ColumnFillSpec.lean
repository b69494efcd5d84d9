/-
  TaeScanner.Table.ColumnFillSpec

  What a fill writes.  `Wrote` describes the memory after the elements of a
  window were stored back to back, `WroteStrings` the strings; every helper of
  the fill has one lemma that gives one of the two.  The value read back is the
  stored one exactly when source and destination agree on the element width
  (`StrideMatches`).
-/

import TaeScanner.Table.ColumnFill

namespace TaeScanner

open Lib

-- ============================================================================
-- What was written
-- ============================================================================

/-- `w` is `v` after `g 0`, .., `g (count - 1)` were stored back to back. -/
structure Wrote (v w : DuckVector) (size count : Nat) (g : Nat → List Byte) : Prop where
  elems : ∀ i, i < count → w.bytesAt (i * size) size = g i
  past : ∀ a, count * size ≤ a → w.data a = v.data a
  rest : w = { v with data := w.data }

/-- `w` is `v` after `g 0`, .., `g (count - 1)` were added as its strings. -/
structure WroteStrings (v w : DuckVector) (count : Nat) (g : Nat → List Byte) : Prop where
  elems : ∀ i, i < count → w.strings i = g i
  past : ∀ i, count ≤ i → w.strings i = v.strings i
  rest : w = { v with strings := w.strings }

theorem Wrote.refl (v : DuckVector) (size : Nat) (g : Nat → List Byte) : Wrote v v size 0 g :=
  ⟨fun i hi => absurd hi (Nat.not_lt_zero i), fun _ _ => rfl, rfl⟩

/-- One more element stored behind the ones written so far. -/
theorem Wrote.snoc {v w : DuckVector} {size n : Nat} {g : Nat → List Byte}
    (h : Wrote v w size n g) (hlen : (g n).length = size) :
    Wrote v (w.writeBytes (n * size) (g n)) size (n + 1) g := by
  refine ⟨fun i hi => ?_, fun a ha => ?_, ?_⟩
  · rcases Nat.lt_succ_iff_lt_or_eq.mp hi with hlt | rfl
    · have hend : (i + 1) * size ≤ n * size := Nat.mul_le_mul_right size hlt
      rw [Nat.succ_mul] at hend
      rw [← h.elems i hlt]
      apply DuckVector.bytesAt_congr
      intro k hk
      exact DuckVector.writeBytes_data_out (Or.inl (by omega))
    · have hwin := DuckVector.bytesAt_eq (w.writeBytes (i * size) (g i)) (i * size) (g i) (fun k hk => by
          rw [DuckVector.writeBytes_data_in _ _ hk, List.getElem?_eq_getElem hk])
      rwa [hlen] at hwin
  · rw [Nat.succ_mul] at ha
    rw [DuckVector.writeBytes_data_out (Or.inr (by omega)), h.past a (by omega)]
  · rw [h.rest]
    rfl

theorem WroteStrings.refl (v : DuckVector) (g : Nat → List Byte) : WroteStrings v v 0 g :=
  ⟨fun i hi => absurd hi (Nat.not_lt_zero i), fun _ _ => rfl, rfl⟩

theorem WroteStrings.snoc {v w : DuckVector} {n : Nat} {g : Nat → List Byte}
    (h : WroteStrings v w n g) : WroteStrings v (w.setString n (g n)) (n + 1) g := by
  refine ⟨fun i hi => ?_, fun i hi => ?_, ?_⟩
  · show Function.update w.strings n (g n) i = g i
    by_cases hin : i = n
    · rw [hin, Function.update_self]
    · rw [Function.update_of_ne hin, h.elems i (by omega)]
  · show Function.update w.strings n (g n) i = v.strings i
    rw [Function.update_of_ne (by omega), h.past i (by omega)]
  · rw [h.rest]
    rfl

-- ============================================================================
-- The helpers
-- ============================================================================

/-- The bytes of an element that is there. -/
def DecodedColumn.elementD (c : DecodedColumn) (size row : Nat) : List Byte :=
  (c.element? size row).getD []

/-- The string a row is filled with, when its slot can be followed. -/
def DecodedColumn.stringD (c : DecodedColumn) (row : Nat) : List Byte :=
  ((c.slot? row).bind c.slotString?).getD []

section Helpers
variable {out : DuckVector} {col : DecodedColumn} {count off size : Nat}

theorem copyElements_wrote {store : List Byte → List Byte}
    (hstore : ∀ src, (store src).length = size)
    (hrows : ∀ i, i < count → (col.element? size (off + i)).isSome) :
    ∃ w, copyElements size store out col count off = some w ∧
      Wrote out w size count (fun i => store (col.elementD size (off + i))) := by
  refine forRange_invariant
    (fun n w => Wrote out w size n (fun i => store (col.elementD size (off + i))))
    (Wrote.refl ..) ?_
  intro i hi w hw
  obtain ⟨src, hsrc⟩ := Option.isSome_iff_exists.mp (hrows i hi)
  have hD : col.elementD size (off + i) = src := by rw [DecodedColumn.elementD, hsrc]; rfl
  refine ⟨w.writeBytes (i * size) (store src), by rw [hsrc, Option.map_some], ?_⟩
  rw [← hD]
  exact hw.snoc (hstore _)

/-- The `memcpy` of a window stores its elements one behind the other. -/
theorem copyFixedColumn_wrote (hsize : moTypeFixedSize col.kind = size) (hpos : 0 < size)
    (hwin : (off + count) * size ≤ col.data.length) :
    ∃ w, copyFixedColumn out col count off = some w ∧
      Wrote out w size count (fun i => col.elementD size (off + i)) := by
  have hsum : (off + count) * size = off * size + count * size := Nat.add_mul ..
  have hslice : slice? col.data (off * size) (count * size)
      = some ((col.data.drop (off * size)).take (count * size)) := slice?_of_le (by omega)
  have hlen : ((col.data.drop (off * size)).take (count * size)).length = count * size := by
    rw [List.length_take, List.length_drop]
    omega
  refine ⟨out.writeBytes 0 ((col.data.drop (off * size)).take (count * size)), ?_, ?_, ?_, rfl⟩
  · simp only [copyFixedColumn, hsize, Int.toNat_natCast]
    rw [if_neg (by omega), hslice, Option.map_some]
  · intro i hi
    have hend : (i + 1) * size ≤ count * size := Nat.mul_le_mul_right size hi
    have hrow : (off + i) * size = off * size + i * size := Nat.add_mul ..
    rw [Nat.succ_mul] at hend
    have hi' : col.elementD size (off + i) = (col.data.drop ((off + i) * size)).take size := by
      rw [DecodedColumn.elementD, DecodedColumn.element?, slice?_of_le (by omega), Option.getD_some]
    apply List.ext_getElem?
    intro k
    rw [DuckVector.bytesAt_getElem?, hi', List.getElem?_take]
    split
    · next hk =>
        have hin : i * size + k < ((col.data.drop (off * size)).take (count * size)).length := by
          omega
        have hdata := DuckVector.writeBytes_data_in out 0 hin
        rw [Nat.zero_add] at hdata
        rw [hdata, ← List.getElem?_eq_getElem hin, List.getElem?_take, if_pos (by omega),
          List.getElem?_drop, List.getElem?_drop]
        congr 1
        omega
    · rfl
  · intro a ha
    exact DuckVector.writeBytes_data_out (Or.inr (by omega))

theorem copyVarlenColumn_wrote
    (hrows : ∀ i, i < count → ((col.slot? (off + i)).bind col.slotString?).isSome) :
    ∃ w, copyVarlenColumn out col count off = some w ∧
      WroteStrings out w count (fun i => col.stringD (off + i)) := by
  refine forRange_invariant (fun n w => WroteStrings out w n (fun i => col.stringD (off + i)))
    (WroteStrings.refl ..) ?_
  intro i hi w hw
  obtain ⟨s, hs⟩ := Option.isSome_iff_exists.mp (hrows i hi)
  have hD : col.stringD (off + i) = s := by rw [DecodedColumn.stringD, hs]; rfl
  refine ⟨w.setString i s, by rw [hs, Option.map_some], ?_⟩
  rw [← hD]
  exact hw.snoc

end Helpers

-- ============================================================================
-- The data of a FLAT column
-- ============================================================================

/-- What the fill stores for an element of the type. -/
def MOType.written (t : MOType) (bs : List Byte) : List Byte :=
  match t.kind with
  | .date => dateFromMO bs
  | .datetime | .timestamp => timestampFromMO bs
  | .uuid => uuidFromMO bs
  | _ => bs

/-- All rows of the window have their bytes in the buffers of the column. -/
def DecodedColumn.InBounds (c : DecodedColumn) (rows : Nat) : Prop :=
  (0 < moTypeFixedSize c.kind → rows * (moTypeFixedSize c.kind).toNat ≤ c.data.length) ∧
  (isStringType c.kind = true → ∀ r, r < rows → ((c.slot? r).bind c.slotString?).isSome)

section Data
variable (out : DuckVector) {col : DecodedColumn} {count off size : Nat}

theorem element?_isSome_of_inBounds (hsize : moTypeFixedSize col.kind = size) (hpos : 0 < size)
    {rows row : Nat} (hin : col.InBounds rows) (hrow : row < rows) :
    (col.element? size row).isSome := by
  have hle := hin.1 (by omega)
  rw [hsize, Int.toNat_natCast] at hle
  rw [DecodedColumn.element?_isSome]
  exact Nat.le_trans (Nat.mul_le_mul_right size hrow) hle

/-- A fixed-width window is stored element by element. -/
theorem copyColumn_wrote (hsize : moTypeFixedSize col.kind = size) (hpos : 0 < size)
    (hin : col.InBounds (off + count)) :
    ∃ w, copyColumn out col count off = some w ∧
      Wrote out w size count (fun i => col.type.written (col.elementD size (off + i))) := by
  have hrows : ∀ i, i < count → (col.element? size (off + i)).isSome := fun i hi =>
    element?_isSome_of_inBounds hsize hpos hin (by omega)
  have hfixed : (off + count) * size ≤ col.data.length := by
    have hle := hin.1 (by omega)
    rwa [hsize, Int.toNat_natCast] at hle
  have hsz : (moTypeFixedSize col.kind).toNat = size := by omega
  unfold copyColumn MOType.written
  rw [show col.type.kind = col.kind from rfl]
  cases hk : col.kind <;> simp only [hk, moTypeFixedSize] at hsize hsz
  case date =>
    subst hsz
    exact copyElements_wrote (fun _ => leBytesInt_length ..) hrows
  case datetime =>
    subst hsz
    exact copyElements_wrote (fun _ => leBytesInt_length ..) hrows
  case timestamp =>
    subst hsz
    exact copyElements_wrote (fun _ => leBytesInt_length ..) hrows
  case uuid =>
    subst hsz
    exact copyElements_wrote (fun _ => leBytesInt_length ..) hrows
  all_goals
    first
    | exact absurd hsize (by omega)
    | exact copyFixedColumn_wrote (by rw [hk]; exact hsize) hpos hfixed

theorem copyColumn_string (hstr : isStringType col.kind = true) (hin : col.InBounds (off + count)) :
    ∃ w, copyColumn out col count off = some w ∧
      WroteStrings out w count (fun i => col.stringD (off + i)) := by
  have hrows : ∀ i, i < count → ((col.slot? (off + i)).bind col.slotString?).isSome := fun i hi =>
    hin.2 hstr (off + i) (by omega)
  have hcopy : copyColumn out col count off = copyVarlenColumn out col count off := by
    rw [copyColumn]
    cases hk : col.kind <;> first | rfl | simp [hk, isStringType] at hstr
  rw [hcopy]
  exact copyVarlenColumn_wrote hrows

/-- A type that is neither fixed-width nor a string is not filled at all. -/
theorem copyColumn_other (hsize : moTypeFixedSize col.kind = -1)
    (hstr : isStringType col.kind = false) : copyColumn out col count off = some out := by
  rw [copyColumn, copyFixedColumn]
  cases hk : col.kind <;> first | rfl | simp [hk, isStringType, moTypeFixedSize] at hstr hsize

end Data

-- ============================================================================
-- Element widths and values
-- ============================================================================

/-- The `uint8_t` a manifest width or scale is narrowed to. -/
def narrow8 (i : Int) : Int := i % 256

/-- Source and destination agree on the width of an element, and the scale
    survives its narrowing: DECIMAL vectors are 8 bytes wide only for widths
    10 to 18 and 16 bytes wide only for widths 19 to 38, and arrays of numbers
    have no fill. -/
def StrideMatches (t : MOType) : Prop :=
  match t.kind with
  | .decimal64 => 10 ≤ narrow8 t.width ∧ narrow8 t.width ≤ 18 ∧ narrow8 t.scale = t.scale
  | .decimal128 => 19 ≤ narrow8 t.width ∧ narrow8 t.width ≤ 38 ∧ narrow8 t.scale = t.scale
  | .arrayFloat32 | .arrayFloat64 => False
  | _ => True

instance (t : MOType) : Decidable (StrideMatches t) := by
  rw [StrideMatches]
  split <;> infer_instance

/-- The DuckDB type of a DECIMAL column. -/
theorem moTypeToDuckDB_decimal {t : MOType} {ty : LogicalType}
    (hk : t.kind = .decimal64 ∨ t.kind = .decimal128) (h : moTypeToDuckDB t = .ok ty) :
    narrow8 t.width ≤ 38 ∧ ty = .decimal (narrow8 t.width).toNat (narrow8 t.scale).toNat := by
  have hmk : moTypeToDuckDB t = LogicalType.mkDecimal t.width t.scale := by
    rw [moTypeToDuckDB]
    rcases hk with hk | hk <;> rw [hk]
  rw [hmk, LogicalType.mkDecimal] at h
  simp only [narrow8]
  split at h
  · next hle => exact ⟨by omega, by simpa using h.symm⟩
  · cases h

/-- The elements of the type live in the vector's own memory. -/
def LogicalType.IsFixed (ty : LogicalType) : Prop :=
  ty.internalType ≠ .varchar ∧ ty.internalType ≠ .list

theorem DuckVector.elemAt_fixed {v : DuckVector} (h : v.type.IsFixed) (i : Nat) :
    v.elemAt i = v.type.valueOf (v.bytesAt (i * v.width) v.width) := by
  obtain ⟨hstr, hlist⟩ := h
  rw [elemAt]
  cases hty : v.type <;> first | rfl | simp [hty, LogicalType.internalType] at hstr hlist

theorem decimalPhysicalType_isFixed (w : Nat) :
    decimalPhysicalType w ≠ .varchar ∧ decimalPhysicalType w ≠ .list := by
  rw [decimalPhysicalType]
  repeat' split
  all_goals exact ⟨by decide, by decide⟩

/-- A fixed-width MO type maps to a fixed-width DuckDB type. -/
theorem isFixed_of_moTypeToDuckDB {t : MOType} {ty : LogicalType}
    (h : moTypeToDuckDB t = .ok ty) (hpos : 0 < moTypeFixedSize t.kind) : ty.IsFixed := by
  by_cases hdec : t.kind = .decimal64 ∨ t.kind = .decimal128
  · obtain ⟨-, rfl⟩ := moTypeToDuckDB_decimal hdec h
    exact decimalPhysicalType_isFixed _
  · rw [moTypeToDuckDB] at h
    cases hk : t.kind <;>
      simp only [hk, moTypeFixedSize, reduceCtorEq, not_false_eq_true, or_self, or_true, true_or,
        not_true_eq_false, Except.ok.injEq] at h hpos hdec <;>
      first
      | (subst h; exact ⟨by decide, by decide⟩)
      | exact absurd hpos (by decide)

/-- With matching strides an element is as wide in the vector as in the column. -/
theorem width_of_strideMatches {t : MOType} {ty : LogicalType}
    (h : moTypeToDuckDB t = .ok ty) (hpos : 0 < moTypeFixedSize t.kind) (hm : StrideMatches t) :
    (ty.internalType.size : Int) = moTypeFixedSize t.kind := by
  by_cases hdec : t.kind = .decimal64 ∨ t.kind = .decimal128
  · obtain ⟨-, rfl⟩ := moTypeToDuckDB_decimal hdec h
    rw [StrideMatches] at hm
    show ((decimalPhysicalType (narrow8 t.width).toNat).size : Int) = _
    rw [decimalPhysicalType]
    rcases hdec with hk | hk
    · rw [hk] at hm ⊢
      obtain ⟨hlo, hhi, -⟩ := hm
      rw [if_neg (by omega), if_neg (by omega), if_pos (by omega)]
      rfl
    · rw [hk] at hm ⊢
      obtain ⟨hlo, hhi, -⟩ := hm
      rw [if_neg (by omega), if_neg (by omega), if_neg (by omega)]
      rfl
  · rw [moTypeToDuckDB] at h
    cases hk : t.kind <;>
      simp only [hk, moTypeFixedSize, reduceCtorEq, not_false_eq_true, or_self, or_true, true_or,
        not_true_eq_false, Except.ok.injEq] at h hpos hdec <;>
      first
      | (subst h; rfl)
      | exact absurd hpos (by decide)

/-- The stored form of an element reads back as the value it stands for. -/
theorem valueOf_written {t : MOType} {ty : LogicalType} {bs : List Byte}
    (h : moTypeToDuckDB t = .ok ty) (hm : StrideMatches t)
    (hdate : t.kind = .date → FitsSigned 4 (leInt bs - moUnixEpochDays))
    (hts : t.kind = .datetime ∨ t.kind = .timestamp → FitsSigned 8 (leInt bs - moUnixEpochUsec))
    (huuid : t.kind = .uuid → bs.length = 16) :
    ty.valueOf (t.written bs) = t.fixedValue bs := by
  by_cases hdec : t.kind = .decimal64 ∨ t.kind = .decimal128
  · obtain ⟨-, rfl⟩ := moTypeToDuckDB_decimal hdec h
    rw [StrideMatches] at hm
    rw [MOType.written, MOType.fixedValue]
    rcases hdec with hk | hk
    · rw [hk] at hm ⊢
      obtain ⟨-, -, hs⟩ := hm
      show SqlValue.decimal _ ((narrow8 t.scale).toNat : Int) = _
      rw [Int.toNat_of_nonneg (by rw [narrow8]; omega), hs]
    · rw [hk] at hm ⊢
      obtain ⟨-, -, hs⟩ := hm
      show SqlValue.decimal _ ((narrow8 t.scale).toNat : Int) = _
      rw [Int.toNat_of_nonneg (by rw [narrow8]; omega), hs]
  · rw [moTypeToDuckDB] at h
    rw [MOType.written, MOType.fixedValue]
    cases hk : t.kind <;>
      simp only [hk, reduceCtorEq, not_false_eq_true, or_self, or_true, true_or,
        not_true_eq_false, Except.ok.injEq] at h hdec
    case date =>
      subst h
      exact congrArg SqlValue.int (leInt_leBytesInt (hdate hk))
    case datetime =>
      subst h
      exact congrArg SqlValue.int (leInt_leBytesInt (hts (Or.inl hk)))
    case timestamp =>
      subst h
      exact congrArg SqlValue.int (leInt_leBytesInt (hts (Or.inr hk)))
    case uuid =>
      subst h
      refine congrArg SqlValue.uuid (leInt_leBytesInt ?_)
      have hlt := beNat_lt bs
      rw [huuid hk] at hlt
      rw [FitsSigned, uuidFromBlob]
      constructor <;> omega
    all_goals
      subst h
      rfl

end TaeScanner
