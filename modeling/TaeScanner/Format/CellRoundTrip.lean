/-
  TaeScanner.Format.CellRoundTrip

  Reading undoes writing, cell by cell.  `ObjectRoundTrip` returns the sections of
  the vectors that were built; this module reads the cells in them:

    * a bit of the null bitmap is an entry of the null list;
    * a slot refers to its string, inline or in the area;
    * a packed number denotes what was packed.
-/

import Mathlib.Data.List.Infix
import TaeScanner.Format.ObjectRoundTrip

namespace TaeScanner

open Lib

-- ============================================================================
-- Null bitmaps
-- ============================================================================

/-- The bit of a row. -/
def bitAt (words : List (BitVec 64)) (row : Nat) : Bool :=
  (words[row / 64]?).elim false (·.getLsbD (row % 64))

section Bitmap
variable {words : List (BitVec 64)} {nulls : List Bool} {row : Nat}

theorem isNullAt_eq_bitAt (col : DecodedColumn) (row : Nat) : col.isNullAt row = bitAt col.nullBitmap row := by
  rw [DecodedColumn.isNullAt, bitAt]
  cases col.nullBitmap[row / 64]? <;> rfl

theorem bitAt_outside (h : 64 * words.length ≤ row) : bitAt words row = false := by
  rw [bitAt, List.getElem?_eq_none (by omega)]
  rfl

/-- Setting one bit. -/
theorem bitAt_modify {i : Nat} (hrow : row < 64 * words.length) :
    bitAt (words.modify (i / 64) (· ||| BitVec.twoPow 64 (i % 64))) row =
      (bitAt words row || decide (i = row)) := by
  obtain ⟨w, hget⟩ : ∃ w, words[row / 64]? = some w :=
    ⟨_, List.getElem?_eq_getElem (show row / 64 < words.length by omega)⟩
  rw [bitAt, bitAt, List.getElem?_modify, hget]
  show (if i / 64 = row / 64 then w ||| BitVec.twoPow 64 (i % 64) else w).getLsbD (row % 64) =
    (w.getLsbD (row % 64) || decide (i = row))
  by_cases hword : i / 64 = row / 64
  · have hbit : i % 64 = row % 64 ↔ i = row := by omega
    rw [if_pos hword, BitVec.getLsbD_or, BitVec.getLsbD_twoPow, decide_eq_true (Nat.mod_lt i (by decide)),
      Bool.true_and, decide_eq_decide.mpr hbit]
  · have hne : i ≠ row := fun heq => hword (by rw [heq])
    rw [if_neg hword, decide_eq_false hne, Bool.or_false]

/-- Setting the bits of a list. -/
theorem bitAt_fold (l : List (Bool × Nat)) (hrow : row < 64 * words.length) :
    bitAt (l.foldl (fun words p =>
        if p.1 then words.modify (p.2 / 64) (· ||| BitVec.twoPow 64 (p.2 % 64)) else words) words) row =
      (bitAt words row || l.any fun p => p.1 && decide (p.2 = row)) := by
  induction l generalizing words with
  | nil => exact (Bool.or_false _).symm
  | cons p l ih =>
      rw [List.foldl_cons, List.any_cons]
      cases hp : p.1 with
      | false =>
          rw [if_neg Bool.false_ne_true, ih hrow]
          rfl
      | true =>
          rw [if_pos rfl, ih (by rwa [List.length_modify]), bitAt_modify hrow, Bool.true_and, Bool.or_assoc]

/-- The bitmap of a null list has its entries. -/
theorem bitAt_bitmapWords {rowCount : Nat} (hrow : row < 64 * ((rowCount + 63) / 64)) :
    bitAt (bitmapWords nulls rowCount) row = (nulls[row]?).getD false := by
  have hlen : (List.replicate ((rowCount + 63) / 64) (0 : BitVec 64)).length = (rowCount + 63) / 64 :=
    List.length_replicate
  have hzero : bitAt (List.replicate ((rowCount + 63) / 64) 0) row = false := by
    rw [bitAt, List.getElem?_replicate, if_pos (by omega)]
    exact BitVec.getLsbD_zero
  rw [bitmapWords, bitAt_fold _ (by rwa [hlen]), hzero, Bool.false_or]
  apply Bool.eq_iff_iff.mpr
  rw [List.any_eq_true]
  constructor
  · rintro ⟨⟨null, i⟩, hmem, hp⟩
    rw [Bool.and_eq_true, decide_eq_true_eq] at hp
    obtain ⟨rfl, rfl⟩ : null = true ∧ i = row := hp
    rw [List.mem_zipIdx_iff_getElem?.mp hmem]
    rfl
  · intro hnull
    cases hget : nulls[row]? with
    | none => rw [hget] at hnull; cases hnull
    | some null =>
        rw [hget] at hnull
        exact ⟨(null, row), List.mem_zipIdx_iff_getElem?.mpr hget, by simpa using hnull⟩

/-- Decoding a null section gives the null list back. -/
theorem bitAt_nullSection {rowCount : Nat} {nsp : List Byte} (h : buildNullBitmap nulls rowCount = some nsp)
    (row : Nat) : bitAt (nullSection nulls rowCount).2 row = (nulls[row]?).getD false ∧
      ((nulls[row]?).getD false = true → (nullSection nulls rowCount).1 ≠ 0) := by
  have hcount : (nulls[row]?).getD false = true → nulls.count true ≠ 0 := by
    intro hnull
    cases hget : nulls[row]? with
    | none => rw [hget] at hnull; cases hnull
    | some null =>
        rw [hget] at hnull
        obtain rfl : null = true := hnull
        exact Nat.ne_of_gt (List.count_pos_iff.mpr (List.mem_of_getElem? hget))
  refine ⟨?_, hcount⟩
  rw [nullSection]
  by_cases hzero : nulls.count true = 0
  · rw [if_pos hzero]
    exact (Bool.eq_false_iff.mpr fun hnull => hcount hnull hzero).symm
  · rw [if_neg hzero]
    by_cases hrow : row < 64 * ((rowCount + 63) / 64)
    · exact bitAt_bitmapWords hrow
    · -- a NULL behind the last word would have raised an exception
      rw [bitAt_outside (by rw [bitmapWords_length]; omega)]
      rw [buildNullBitmap] at h
      split at h
      · cases h
      · next hrest =>
          refine (Bool.eq_false_iff.mpr fun hnull => hrest ?_).symm
          cases hget : nulls[row]? with
          | none => rw [hget] at hnull; cases hnull
          | some null =>
              rw [hget] at hnull
              obtain rfl : null = true := hnull
              apply List.contains_iff_mem.mpr
              apply List.mem_of_getElem? (i := row - 64 * ((rowCount + 63) / 64))
              rw [List.getElem?_drop, Nat.add_sub_cancel' (Nat.le_of_not_lt hrow), hget]

end Bitmap

-- ============================================================================
-- Values
-- ============================================================================

/-- What a packed number denotes; a DECIMAL is written with scale 0. -/
def packedValue (oid : MOTypeOid) (v : Int) : Option SqlValue :=
  match oid with
  | .bool => some (.bool (v ≠ 0))
  | .int32 | .int64 => some (.int v)
  | .date => some (.int (v - moUnixEpochDays))
  | .datetime | .timestamp => some (.int (v - moUnixEpochUsec))
  | .decimal64 | .decimal128 => some (.decimal v 0)
  | .float64 => some (.real (leBytesInt 8 v))
  | _ => none

/-- The value that is written for a row of the type, NULL or not. -/
def ColumnValues.value? (oid : Byte) (row : Nat) : ColumnValues → Option SqlValue
  | varlena values => (values[row]?).map fun s => MOType.varlenaValue { oid := oid } (s.getD [])
  | raw _ elems => (elems[row]?).map (MOType.fixedValue { oid := oid })
  | packed _ values => (values[row]?).bind fun v => packedValue (MOTypeOid.ofByte oid) (v.getD 0)

/-- The values are of the type: strings of a varlena type, one element of its size for
    each, and numbers that the script packs by itself, in the range of a `hugeint_t`. -/
def ColumnValues.OfType (oid : Byte) : ColumnValues → Prop
  | varlena _ => ¬0 < moTypeFixedSize (MOTypeOid.ofByte oid)
  | raw len elems => elems.length = len ∧ 0 < moTypeFixedSize (MOTypeOid.ofByte oid) ∧ ∀ e ∈ elems,
      (e.length : Int) = moTypeFixedSize (MOTypeOid.ofByte oid) ∧ MOType.validBytes { oid := oid } e = true
  | packed packFmt values => packFmt = none ∧
      (MOTypeOid.ofByte oid = .decimal128 → ∀ v ∈ values, FitsSigned 16 (v.getD 0))

section Packed
variable {n : Nat} {oid : Byte} {e : List Byte}

/-- A packed number that fits is read back. -/
theorem packSigned_spec {v : Int} (h : packSigned n v = some e) (hn : 0 < n) :
    e = leBytesInt n v ∧ FitsSigned n v := by
  rw [packSigned] at h
  split at h
  · next hfits =>
      have hpow : 256 ^ n = 2 * 2 ^ (8 * n - 1) := by
        calc 256 ^ n = 2 ^ (8 * n) := (pow_mul 2 8 n).symm
          _ = 2 ^ (8 * n - 1 + 1) := by rw [Nat.sub_add_cancel (by omega)]
          _ = 2 * 2 ^ (8 * n - 1) := by rw [pow_succ, Nat.mul_comm]
      refine ⟨(Option.some.inj h).symm, ?_⟩
      rw [FitsSigned, hpow]
      push_cast
      generalize (2 : Int) ^ (8 * n - 1) = half at hfits
      omega
  · cases h

/-- An element that the script packs is of its type and denotes the number. -/
theorem packValue_spec {v : Int} (h : packValue (MOTypeOid.ofByte oid) none v = some e)
    (hfits : MOTypeOid.ofByte oid = .decimal128 → FitsSigned 16 v) :
    (e.length : Int) = moTypeFixedSize (MOTypeOid.ofByte oid) ∧ MOType.validBytes { oid := oid } e = true ∧
      packedValue (MOTypeOid.ofByte oid) v = some (MOType.fixedValue { oid := oid } e) := by
  rw [MOType.validBytes, MOType.fixedValue, MOType.kind]
  unfold packValue at h
  split at h
  case h_1 hoid =>
    obtain rfl := Option.some.inj h
    rw [hoid]
    by_cases hv : v = 0
    · rw [if_neg (not_not_intro hv), hv]
      exact ⟨rfl, rfl, rfl⟩
    · rw [if_pos hv]
      refine ⟨rfl, rfl, ?_⟩
      show some (SqlValue.bool (decide (v ≠ 0))) = _
      rw [decide_eq_true hv]
      rfl
  -- the numbers that `struct.pack` checks
  case h_2 hoid | h_3 hoid | h_4 hoid | h_5 hoid | h_6 hoid | h_7 hoid =>
    obtain ⟨rfl, hle⟩ := packSigned_spec h (by decide)
    rw [hoid, leInt_leBytesInt hle]
    exact ⟨rfl, rfl, rfl⟩
  case h_8 hoid =>
    obtain rfl := Option.some.inj h
    rw [hoid]
    exact ⟨rfl, rfl, rfl⟩
  case h_9 hoid =>
    obtain rfl := Option.some.inj h
    rw [hoid, leInt_leBytesInt (hfits hoid)]
    exact ⟨rfl, rfl, rfl⟩
  case h_10 => cases h

end Packed

-- ============================================================================
-- Slots
-- ============================================================================

section Slots
variable {area data area' : List Byte} {strings : List (List Byte)}

/-- The area grows by the long strings; every string has its slot. -/
theorem varlenaSections_spec (h : varlenaSections area strings = (data, area')) :
    area <+: area' ∧ data.length = strings.length * varlenaSize ∧ ∀ row s, strings[row]? = some s →
      ∃ areaLen ≤ area'.length, slice? data (row * varlenaSize) varlenaSize = some (varlenaSlot areaLen s) ∧
        (varlenaInlineMax < s.length → slice? area' areaLen s.length = some s) := by
  induction strings generalizing area data with
  | nil =>
      obtain ⟨rfl, rfl⟩ := Prod.mk.inj h
      exact ⟨List.prefix_rfl, (Nat.zero_mul _).symm, fun row s hs => by cases hs⟩
  | cons first rest ih =>
      rw [varlenaSections] at h
      simp only at h
      cases hrest : varlenaSections (if first.length ≤ varlenaInlineMax then area else area ++ first) rest with
      | mk data' area'' =>
          rw [hrest] at h
          obtain ⟨rfl, rfl⟩ := Prod.mk.inj h
          obtain ⟨hgrown, hlen, hslots⟩ := ih hrest
          have hwidth := varlenaSlot_length area.length first
          have harea : area <+: area'' := by
            refine List.IsPrefix.trans ?_ hgrown
            split
            · exact List.prefix_rfl
            · exact List.prefix_append area first
          refine ⟨harea, ?_, fun row s hs => ?_⟩
          · rw [List.length_append, hlen, hwidth, List.length_cons, Nat.succ_mul, Nat.add_comm]
          · cases row with
            | zero =>
                obtain rfl := Option.some.inj hs
                refine ⟨area.length, harea.length_le, ?_, fun hlong => ?_⟩
                · rw [Nat.zero_mul]
                  exact slice?_front hwidth
                · -- a long string is behind what the area had before
                  rw [if_neg (Nat.not_le.mpr hlong)] at hgrown
                  obtain ⟨more, rfl⟩ := hgrown
                  rw [List.append_assoc]
                  exact slice?_part rfl rfl
            | succ row =>
                obtain ⟨areaLen, hle, hslot, hlong⟩ := hslots row s hs
                refine ⟨areaLen, hle, ?_, hlong⟩
                rw [slice?_append_right (k := row * varlenaSize) (by rw [hwidth, Nat.succ_mul, Nat.add_comm])]
                exact hslot

/-- The slots of a column refer to the strings that were written. -/
theorem slot?_written {col : DecodedColumn} (h : varlenaSections [] strings = (col.data, col.area))
    (harea : col.area.length < 2 ^ 32) {row : Nat} {s : List Byte} (hs : strings[row]? = some s) :
    ((col.slot? row).bind fun v => v.stored? col.area) = some s := by
  obtain ⟨-, hlen, hslots⟩ := varlenaSections_spec h
  obtain ⟨areaLen, hle, hslot, hlong⟩ := hslots row s hs
  have hrow : row < strings.length := (List.getElem?_eq_some_iff.mp hs).1
  have hin : (row + 1) * varlenaSize ≤ col.data.length := by
    rw [hlen]
    exact Nat.mul_le_mul_right _ hrow
  obtain ⟨-, heq⟩ := slice?_eq_some.mp hslot
  have hshort : s.length < 2 ^ 32 := by
    by_cases hbig : varlenaInlineMax < s.length
    · have hend := (slice?_eq_some.mp (hlong hbig)).1
      omega
    · rw [varlenaInlineMax] at hbig
      omega
  rw [DecodedColumn.slot?, dif_pos hin, Option.bind_some]
  simp only [← heq]
  exact stored?_varlenaSlot (by omega) hshort hlong

end Slots

-- ============================================================================
-- Columns
-- ============================================================================

/-- The column as it is decoded. -/
def ColumnInput.decoded? (col : ColumnInput) : Option DecodedColumn :=
  (col.source.build col.moType).map fun (v : VectorSections) =>
    { type := MOType.ofBytes v.type, rowCount := v.length, data := v.data, area := v.area,
      nullBitmap := (nullSection col.source.nulls col.source.rowCount).2,
      nullCount := (nullSection col.source.nulls col.source.rowCount).1,
      isSorted := v.sorted != 0, vecClass := v.vecClass }

/-- The cell that is written for a row: a CONSTANT column has one for all rows. -/
def ColumnInput.cell (col : ColumnInput) (row : Nat) : Cell :=
  match col.source with
  | .flat _ values nulls => if (nulls[row]?).getD false then none else values.value? col.moType row
  | .constant _ (.null _) _ => none
  | .constant _ (.varchar s) _ => some (MOType.varlenaValue { oid := col.moType } s)
  | .constant _ (.packed v) _ => packedValue (MOTypeOid.ofByte col.moType) v

/-- The values of the column are of its type. -/
def ColumnInput.Typed (col : ColumnInput) : Prop :=
  match col.source with
  | .flat _ values _ => values.OfType col.moType
  | .constant _ (.varchar _) _ => ¬0 < moTypeFixedSize (MOTypeOid.ofByte col.moType)
  | .constant _ _ _ => True

/-- Only the OID and the scale of a type decide about its values. -/
theorem MOType.values_congr {t : MOType} (t' : MOType) (hkind : t.kind = t'.kind) (hscale : t.scale = t'.scale)
    (bs : List Byte) : t.fixedValue bs = t'.fixedValue bs ∧ t.validBytes bs = t'.validBytes bs ∧
      t.varlenaValue bs = t'.varlenaValue bs := by
  rw [fixedValue, fixedValue, validBytes, validBytes, varlenaValue, varlenaValue, hkind, hscale]
  exact ⟨rfl, rfl, rfl⟩

/-- A type that has elements of some length has them of a positive one. -/
theorem fixedSize_pos_of_length {oid : MOTypeOid} {e : List Byte} (h : (e.length : Int) = moTypeFixedSize oid) :
    0 < moTypeFixedSize oid := by
  by_contra hnot
  rw [moTypeFixedSize_of_not_pos hnot] at h
  omega

section Columns
variable {col : ColumnInput} {d : DecodedColumn} {row : Nat}

/-- A packed type descriptor reads back. -/
theorem packMoType_eq {oid : Byte} {size : Int} {type : List Byte} (h : packMoType oid size = some type) :
    MOType.ofBytes type = { oid := oid, size := size } := by
  rw [packMoType, Option.map_eq_some_iff] at h
  obtain ⟨bs, hbs, rfl⟩ := h
  obtain ⟨rfl, hfits⟩ := packSigned_spec hbs (by decide)
  have hwidth : ∀ i : Int, (leBytesInt 4 i).length = 4 := leBytesInt_length 4
  have hsize : leInt ((([oid, 0, 0, 0] ++ (leBytesInt 4 size ++ (leBytesInt 4 0 ++ leBytesInt 4 0))).drop 4).take 4) =
      size := by
    rw [List.drop_left' (show ([oid, 0, 0, 0] : List Byte).length = 4 from rfl), List.take_left' (hwidth _),
      leInt_leBytesInt hfits]
  have hrest : ([oid, 0, 0, 0] ++ (leBytesInt 4 size ++ (leBytesInt 4 0 ++ leBytesInt 4 0))).drop 8 =
      leBytesInt 4 0 ++ leBytesInt 4 0 := by
    rw [← List.append_assoc]
    exact List.drop_left' (by rw [List.length_append, hwidth]; rfl)
  have hlast : ([oid, 0, 0, 0] ++ (leBytesInt 4 size ++ (leBytesInt 4 0 ++ leBytesInt 4 0))).drop 12 =
      leBytesInt 4 0 := by
    rw [← List.append_assoc, ← List.append_assoc]
    exact List.drop_left' (by simp)
  have hzero : leInt (leBytesInt 4 0) = 0 := by decide
  rw [MOType.ofBytes, hsize, hrest, hlast, List.take_left' (hwidth 0), List.take_of_length_le (hwidth 0).le, hzero]
  rfl

/-- The type that is written: strings have the size of their slots. -/
def ColumnInput.vectorType (col : ColumnInput) : MOType :=
  { oid := col.moType,
    size :=
      match col.source with
      | .flat _ (.varlena _) _ => -24
      | .flat elemSize _ _ => elemSize
      | .constant _ (.varchar _) _ => -24
      | .constant elemSize (.null isVarchar) _ => if isVarchar then -24 else elemSize
      | .constant elemSize (.packed _) _ => elemSize }

/-- The class that is written. -/
def ColumnInput.vectorClass (col : ColumnInput) : Byte :=
  match col.source with
  | .flat _ _ _ => 0
  | .constant _ _ _ => 1

/-- The sections of a vector that was built, and the column they are decoded to. -/
theorem decoded?_built (h : col.decoded? = some d) :
    ∃ v nsp, col.source.build col.moType = some v ∧ buildNullBitmap col.source.nulls col.source.rowCount = some nsp ∧
      d.data = v.data ∧ d.area = v.area ∧ d.rowCount = v.length ∧ d.vecClass = v.vecClass ∧
      d.type = MOType.ofBytes v.type ∧
      (d.nullCount, d.nullBitmap) = nullSection col.source.nulls col.source.rowCount := by
  obtain ⟨v, hbuild, rfl⟩ := Option.map_eq_some_iff.mp h
  exact ⟨v, v.nsp, hbuild, (VectorSource.build_spec hbuild).2, rfl, rfl, rfl, rfl, rfl, rfl⟩

/-- The element sizes that the sections come with. -/
theorem dataSections_size {oid : Byte} {elemSize size : Int} {values : ColumnValues} {data area : List Byte}
    (h : dataSections oid elemSize values = some (data, area, size)) :
    size = (match values with | .varlena _ => -24 | _ => elemSize) := by
  cases values with
  | varlena strings =>
      obtain ⟨-, hrest⟩ := Prod.mk.inj (Option.some.inj h)
      exact (Prod.mk.inj hrest).2.symm
  | raw len elems =>
      obtain ⟨-, hrest⟩ := Prod.mk.inj (Option.some.inj h)
      exact (Prod.mk.inj hrest).2.symm
  | packed packFmt numbers =>
      obtain ⟨elems, -, hpair⟩ := Option.map_eq_some_iff.mp h
      exact (Prod.mk.inj (Prod.mk.inj hpair).2).2.symm

theorem constantSections_size {oid : Byte} {elemSize size : Int} {value : ConstantValue} {data : List Byte}
    (h : constantSections oid elemSize value = some (data, size)) :
    size = (match value with
      | .varchar _ => -24
      | .null isVarchar => if isVarchar then -24 else elemSize
      | .packed _ => elemSize) := by
  cases value with
  | null isVarchar => exact (Prod.mk.inj (Option.some.inj h)).2.symm
  | varchar s =>
      obtain ⟨-, hpair⟩ := Option.ite_none_right_eq_some.mp h
      exact (Prod.mk.inj (Option.some.inj hpair)).2.symm
  | packed v =>
      simp only [constantSections] at h
      split at h
      · obtain ⟨bs, -, hpair⟩ := Option.map_eq_some_iff.mp h
        exact (Prod.mk.inj hpair).2.symm
      · exact (Prod.mk.inj (Option.some.inj h)).2.symm
      · exact (Prod.mk.inj (Option.some.inj h)).2.symm
      · cases h

/-- The column is decoded with its rows, its class and its type. -/
theorem decoded?_spec (h : col.decoded? = some d) :
    d.rowCount = col.source.rowCount ∧ d.vecClass = col.vectorClass ∧ d.type = col.vectorType := by
  obtain ⟨v, nsp, hbuild, -, -, -, hrows, hclass, htype, -⟩ := decoded?_built h
  rw [hrows, hclass, htype, ColumnInput.vectorClass, ColumnInput.vectorType]
  cases hsource : col.source with
  | flat elemSize values nulls =>
      rw [hsource] at hbuild
      simp only [VectorSource.build, buildVector, Option.bind_eq_bind, Option.bind_eq_some_iff] at hbuild
      obtain ⟨⟨data, area, size⟩, hsections, nsp', -, type, hpack, hv⟩ := hbuild
      obtain rfl := Option.some.inj hv
      refine ⟨rfl, rfl, (packMoType_eq hpack).trans ?_⟩
      rw [dataSections_size hsections]
      cases values with
      | _ => rfl
  | constant elemSize value rowCount =>
      rw [hsource] at hbuild
      simp only [VectorSource.build, buildConstantVector, Option.bind_eq_bind, Option.bind_eq_some_iff] at hbuild
      obtain ⟨⟨data, size⟩, hsections, nsp', -, type, hpack, hv⟩ := hbuild
      obtain rfl := Option.some.inj hv
      refine ⟨rfl, rfl, (packMoType_eq hpack).trans ?_⟩
      rw [constantSections_size hsections]
      cases value with
      | _ => rfl

/-- The type has the OID of the column, and the scale 0. -/
theorem decoded?_kind (h : col.decoded? = some d) :
    d.type.kind = MOTypeOid.ofByte col.moType ∧ d.type.scale = 0 := by
  rw [(decoded?_spec h).2.2]
  exact ⟨rfl, rfl⟩

/-- A bit is set for a NULL, and then the NULLs are counted. -/
theorem isNullAt_written (h : col.decoded? = some d) (row : Nat) :
    d.isNullAt row = (col.source.nulls[row]?).getD false ∧ (d.isNullAt row = true → d.nullCount ≠ 0) := by
  obtain ⟨v, nsp, -, hnsp, -, -, -, -, -, hnulls⟩ := decoded?_built h
  have hcount : d.nullCount = (nullSection col.source.nulls col.source.rowCount).1 := congrArg Prod.fst hnulls
  have hbitmap : d.nullBitmap = (nullSection col.source.nulls col.source.rowCount).2 := congrArg Prod.snd hnulls
  obtain ⟨hbit, hpos⟩ := bitAt_nullSection hnsp row
  rw [isNullAt_eq_bitAt, hbitmap, hbit, hcount]
  exact ⟨rfl, hpos⟩

/-- Elements of the type's size denote their values. -/
theorem storedValue?_elements {oid : Byte} (hkind : d.type.kind = MOTypeOid.ofByte oid) (hscale : d.type.scale = 0)
    {elems : List (List Byte)} (hdata : d.data = elems.flatten)
    (hsize : 0 < moTypeFixedSize (MOTypeOid.ofByte oid)) (htyped : ∀ e ∈ elems,
      (e.length : Int) = moTypeFixedSize (MOTypeOid.ofByte oid) ∧ MOType.validBytes { oid := oid } e = true)
    {e : List Byte} (he : elems[row]? = some e) :
    d.storedValue? row = some (MOType.fixedValue { oid := oid } e) := by
  have hwidth : ∀ e ∈ elems, e.length = (moTypeFixedSize (MOTypeOid.ofByte oid)).toNat := fun e he => by
    have hlen := (htyped e he).1
    omega
  have hmem := List.mem_of_getElem? he
  have hrow : row < elems.length := (List.getElem?_eq_some_iff.mp he).1
  have hslice := slice?_flatten he
  rw [startOf_of_width hwidth (Nat.le_of_lt hrow), hwidth e hmem] at hslice
  obtain ⟨hfixed, hvalid, -⟩ := MOType.values_congr { oid := oid } hkind hscale e
  rw [DecodedColumn.storedValue?, DecodedColumn.kind, hkind, if_pos hsize, DecodedColumn.element?, hdata, hslice,
    Option.filter_some, hvalid, (htyped e hmem).2, if_pos rfl, Option.map_some, hfixed]

/-- The rows of a FLAT column denote the values that were written. -/
theorem storedValue?_flat {elemSize : Int} {values : ColumnValues} {nulls : List Bool}
    (hsource : col.source = .flat elemSize values nulls) (h : col.decoded? = some d)
    (htyped : values.OfType col.moType) (harea : d.area.length < 2 ^ 32) (hrow : row < values.rowCount) :
    ∃ v, values.value? col.moType row = some v ∧ d.storedValue? row = some v := by
  obtain ⟨v, nsp, hbuild, -, hdata, hareaeq, -, -, -, -⟩ := decoded?_built h
  obtain ⟨hkind, hscale⟩ := decoded?_kind h
  rw [hsource] at hbuild
  simp only [VectorSource.build, buildVector, Option.bind_eq_bind, Option.bind_eq_some_iff] at hbuild
  obtain ⟨⟨data, area, size⟩, hsections, nsp', -, type, -, hv⟩ := hbuild
  obtain rfl := Option.some.inj hv
  cases values with
  | varlena strings =>
      have hstrings : varlenaSections [] (strings.map (·.getD [])) = (d.data, d.area) := by
        rw [hdata, hareaeq]
        obtain ⟨rfl, rest⟩ := Prod.mk.inj (Option.some.inj hsections)
        obtain ⟨rfl, -⟩ := Prod.mk.inj rest
        rfl
      have hget : strings[row]? = some strings[row] := List.getElem?_eq_getElem hrow
      have hwritten : (strings.map (·.getD []))[row]? = some (strings[row].getD []) := by
        rw [List.getElem?_map, hget, Option.map_some]
      refine ⟨_, by rw [ColumnValues.value?, hget, Option.map_some], ?_⟩
      have hsize : ¬0 < moTypeFixedSize d.kind := by rwa [DecodedColumn.kind, hkind]
      rw [DecodedColumn.storedValue?, if_neg hsize, slot?_written hstrings harea hwritten, Option.map_some,
        (MOType.values_congr { oid := col.moType } hkind hscale _).2.2]
  | raw len elems =>
      obtain ⟨rfl, hsize, helems⟩ := htyped
      obtain ⟨hflat, -⟩ := Prod.mk.inj (Option.some.inj hsections)
      have hget : elems[row]? = some elems[row] := List.getElem?_eq_getElem hrow
      refine ⟨_, by rw [ColumnValues.value?, hget, Option.map_some], ?_⟩
      exact storedValue?_elements hkind hscale (hdata.trans hflat.symm) hsize helems hget
  | packed packFmt numbers =>
      obtain ⟨rfl, hfits⟩ := htyped
      obtain ⟨elems, hpacked, hflat⟩ := Option.map_eq_some_iff.mp hsections
      obtain ⟨hflat, -⟩ := Prod.mk.inj hflat
      have hall := mapM_eq_some.mp hpacked
      have helems : ∀ e ∈ elems, (e.length : Int) = moTypeFixedSize (MOTypeOid.ofByte col.moType) ∧
          MOType.validBytes { oid := col.moType } e = true := by
        intro e he
        obtain ⟨i, hi⟩ := List.mem_iff_getElem?.mp he
        obtain ⟨n, hn, hpack⟩ := getElem?_of_forall₂ hall hi
        obtain ⟨hlen, hvalid, -⟩ := packValue_spec hpack fun hoid => hfits hoid n (List.mem_of_getElem? hn)
        exact ⟨hlen, hvalid⟩
      have hget : numbers[row]? = some numbers[row] := List.getElem?_eq_getElem hrow
      obtain ⟨e, he, hpack⟩ := getElem?_of_forall₂_left hall hget
      obtain ⟨hlen, -, hvalue⟩ := packValue_spec hpack fun hoid => hfits hoid _ (List.mem_of_getElem? hget)
      refine ⟨_, by rw [ColumnValues.value?, hget, Option.bind_some, hvalue], ?_⟩
      exact storedValue?_elements hkind hscale (hdata.trans hflat.symm) (fixedSize_pos_of_length hlen) helems he

/-- A FLAT column has the cells that were written. -/
theorem cell?_flat {elemSize : Int} {values : ColumnValues} {nulls : List Bool}
    (hsource : col.source = .flat elemSize values nulls) (h : col.decoded? = some d)
    (htyped : values.OfType col.moType) (harea : d.area.length < 2 ^ 32) (hrow : row < values.rowCount) :
    d.cell? row = some (col.cell row) := by
  obtain ⟨hnull, -⟩ := isNullAt_written h row
  obtain ⟨v, hvalue, hstored⟩ := storedValue?_flat hsource h htyped harea hrow
  rw [hsource] at hnull
  replace hnull : d.isNullAt row = (nulls[row]?).getD false := hnull
  rw [DecodedColumn.cell?, ColumnInput.cell, hsource, hnull, hstored]
  show (if _ then _ else _) = some (if (nulls[row]?).getD false = true then none else values.value? col.moType row)
  rw [hvalue]
  split
  · rfl
  · rfl

/-- A packed constant is packed like a row. -/
theorem packValue_of_constant {oid : Byte} {elemSize size v : Int} {data : List Byte}
    (h : constantSections oid elemSize (.packed v) = some (data, size)) :
    packValue (MOTypeOid.ofByte oid) none v = some data ∧ MOTypeOid.ofByte oid ≠ .decimal128 := by
  simp only [constantSections] at h
  split at h
  · next hoid =>
      obtain ⟨bs, hbs, hpair⟩ := Option.map_eq_some_iff.mp h
      obtain ⟨rfl, -⟩ := Prod.mk.inj hpair
      rw [hoid]
      exact ⟨hbs, by decide⟩
  · next hoid =>
      obtain ⟨rfl, -⟩ := Prod.mk.inj (Option.some.inj h)
      rw [hoid]
      exact ⟨rfl, by decide⟩
  · next hoid =>
      obtain ⟨rfl, -⟩ := Prod.mk.inj (Option.some.inj h)
      rw [hoid]
      exact ⟨rfl, by decide⟩
  · cases h

/-- The bytes of an element in the data section: varlenas have slots. -/
def elementWidth (oid : MOTypeOid) : Nat :=
  if 0 < moTypeFixedSize oid then (moTypeFixedSize oid).toNat else varlenaSize

/-- A CONSTANT column has no data for NULL, and the element 0 for a value. -/
theorem storedValue?_constant {elemSize : Int} {value : ConstantValue} {rowCount : Nat}
    (hsource : col.source = .constant elemSize value rowCount) (h : col.decoded? = some d) (htyped : col.Typed)
    (row : Nat) :
    (col.cell row).elim (d.data = []) fun v => d.data ≠ [] ∧ d.storedValue? 0 = some v ∧
      d.data.length = elementWidth (MOTypeOid.ofByte col.moType) := by
  obtain ⟨v, nsp, hbuild, -, hdata, harea, -, -, -, -⟩ := decoded?_built h
  obtain ⟨hkind, hscale⟩ := decoded?_kind h
  rw [hsource] at hbuild
  simp only [VectorSource.build, buildConstantVector, Option.bind_eq_bind, Option.bind_eq_some_iff] at hbuild
  obtain ⟨⟨data, size⟩, hsections, nsp', -, type, -, hv⟩ := hbuild
  obtain rfl := Option.some.inj hv
  replace hdata : d.data = data := hdata
  replace harea : d.area = [] := harea
  rw [ColumnInput.cell, hsource]
  rw [ColumnInput.Typed, hsource] at htyped
  cases value with
  | null isVarchar =>
      obtain ⟨rfl, -⟩ := Prod.mk.inj (Option.some.inj hsections)
      exact hdata
  | varchar s =>
      obtain ⟨hshort, hpair⟩ := Option.ite_none_right_eq_some.mp hsections
      obtain ⟨rfl, -⟩ := Prod.mk.inj (Option.some.inj hpair)
      have hwritten : varlenaSections [] [s] = (d.data, d.area) := by
        rw [hdata, harea]
        show (varlenaSlot 0 s ++ [], if s.length ≤ varlenaInlineMax then [] else [] ++ s) = _
        rw [if_pos hshort, List.append_nil]
      have hwidth := varlenaSlot_length 0 s
      rw [← hdata] at hwidth
      refine ⟨fun hnil => ?_, ?_, ?_⟩
      · rw [hnil] at hwidth
        exact absurd hwidth (by decide)
      · have hsize : ¬0 < moTypeFixedSize d.kind := by rwa [DecodedColumn.kind, hkind]
        have harealen : d.area.length < 2 ^ 32 := by
          rw [harea]
          exact Nat.two_pow_pos 32
        have hfirst : [s][0]? = some s := rfl
        rw [DecodedColumn.storedValue?, if_neg hsize, slot?_written hwritten harealen hfirst,
          Option.map_some, (MOType.values_congr { oid := col.moType } hkind hscale _).2.2]
      · rw [elementWidth, if_neg htyped, hwidth]
  | packed number =>
      obtain ⟨hpacked, hoid⟩ := packValue_of_constant hsections
      obtain ⟨hlen, hvalid, hvalue⟩ := packValue_spec hpacked fun h => absurd h hoid
      have hsize := fixedSize_pos_of_length hlen
      show (packedValue (MOTypeOid.ofByte col.moType) number).elim _ _
      rw [hvalue]
      rw [← hdata] at hlen
      refine ⟨fun hnil => ?_, ?_, ?_⟩
      · rw [hnil] at hlen
        exact absurd hlen (Int.ne_of_lt hsize)
      · have hone : d.data = [data].flatten := by rw [hdata, List.flatten_singleton]
        refine storedValue?_elements hkind hscale hone hsize ?_ rfl
        intro e he
        obtain rfl := List.mem_singleton.mp he
        exact ⟨hdata ▸ hlen, hvalid⟩
      · rw [elementWidth, if_pos hsize, ← hlen, Int.toNat_natCast]

/-- Decoding undoes building. -/
theorem decodeVector_decoded {spec : ColumnSpec} (h : col.spec = some spec) :
    ∃ d, col.decoded? = some d ∧ decodeVector spec.vectorBytes = .ok d ∧ d.area.length < 2 ^ 32 := by
  simp only [ColumnInput.spec, Option.bind_eq_bind, Option.bind_eq_some_iff] at h
  obtain ⟨v, hbuild, bytes, hbytes, h⟩ := h
  obtain rfl := Option.some.inj h
  obtain ⟨⟨htype, -⟩, hnsp⟩ := VectorSource.build_spec hbuild
  rw [VectorSections.binary] at hbytes
  obtain ⟨⟨hlength, hdata, harea, hnsplen⟩, hlayout⟩ := Option.ite_none_right_eq_some.mp hbytes
  obtain rfl := Option.some.inj hlayout
  have hdecode := decodeVector_layout ⟨htype, hlength, hdata, harea, hnsplen⟩ []
    (decodeNulls_buildNullBitmap hnsp hnsplen)
  rw [List.append_nil] at hdecode
  refine ⟨_, ?_, hdecode, harea⟩
  rw [ColumnInput.decoded?, hbuild, Option.map_some]
  rfl

end Columns

end TaeScanner
