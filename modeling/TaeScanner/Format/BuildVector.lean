/-
  TaeScanner.Format.BuildVector

  The writer of the test data, `gen_test_data.py`, as far as a single column:
  null bitmaps, varlena slots, and the binary of FLAT and CONSTANT vectors.
  A builder is `none` where the script raises an exception.

    * a number is packed little-endian; a double is its bit pattern;
    * the script accepts values by type, raw elements, or strings, and the
      format string of `pack_fmt` is a parameter.
-/

import TaeScanner.Reader.DecodeVector

namespace TaeScanner

open Lib

-- ============================================================================
-- Null bitmaps
-- ============================================================================

/-- The words of the bitmap: one bit for each NULL. -/
def bitmapWords (nulls : List Bool) (rowCount : Nat) : List (BitVec 64) :=
  nulls.zipIdx.foldl
    (fun words p => if p.1 then words.modify (p.2 / 64) (· ||| BitVec.twoPow 64 (p.2 % 64)) else words)
    (List.replicate ((rowCount + 63) / 64) 0)

/-- The bytes of a null section: `[count i64][bitmap_len u64][data_size u64][words]`,
    nothing when there are no NULLs. -/
def nullBytes (nulls : List Bool) (rowCount : Nat) : List Byte :=
  if nulls.count true = 0 then []
  else
    let words := bitmapWords nulls rowCount
    leBytes 8 (nulls.count true) ++ (leBytes 8 words.length ++ (leBytes 8 (8 * words.length) ++
      bytesOfWords words))

/-- `build_null_bitmap`; a NULL behind the last word is outside of the bitmap. -/
def buildNullBitmap (nulls : List Bool) (rowCount : Nat) : Option (List Byte) :=
  if (nulls.drop (64 * ((rowCount + 63) / 64))).contains true then none
  else some (nullBytes nulls rowCount)

/-- The null count a section declares, and its words. -/
def nullSection (nulls : List Bool) (rowCount : Nat) : Nat × List (BitVec 64) :=
  (nulls.count true, if nulls.count true = 0 then [] else bitmapWords nulls rowCount)

theorem bitmapWords_length (nulls : List Bool) (rowCount : Nat) :
    (bitmapWords nulls rowCount).length = (rowCount + 63) / 64 := by
  have hfold : ∀ (l : List (Bool × Nat)) (words : List (BitVec 64)),
      (l.foldl (fun words p =>
        if p.1 then words.modify (p.2 / 64) (· ||| BitVec.twoPow 64 (p.2 % 64)) else words)
        words).length = words.length := by
    intro l
    induction l with
    | nil => exact fun _ => rfl
    | cons p l ih =>
        intro words
        rw [List.foldl_cons, ih]
        split
        · exact List.length_modify ..
        · rfl
  rw [bitmapWords, hfold, List.length_replicate]

/-- All NULLs are inside of the bitmap. -/
theorem buildNullBitmap_count_le {nulls : List Bool} {rowCount : Nat} {nsp : List Byte}
    (h : buildNullBitmap nulls rowCount = some nsp) :
    nulls.count true ≤ 64 * ((rowCount + 63) / 64) := by
  rw [buildNullBitmap] at h
  split at h
  · cases h
  · next hnone =>
      have hrest : (nulls.drop (64 * ((rowCount + 63) / 64))).count true = 0 :=
        List.count_eq_zero.mpr fun hmem => hnone (List.contains_iff_mem.mpr hmem)
      calc nulls.count true
          = (nulls.take (64 * ((rowCount + 63) / 64))).count true
              + (nulls.drop (64 * ((rowCount + 63) / 64))).count true := by
            rw [← List.count_append, List.take_append_drop]
        _ ≤ 64 * ((rowCount + 63) / 64) := by
            rw [hrest, Nat.add_zero]
            exact Nat.le_trans List.count_le_length (List.length_take_le ..)

theorem decodeNulls_buildNullBitmap {nulls : List Bool} {rowCount : Nat} {nsp : List Byte}
    (h : buildNullBitmap nulls rowCount = some nsp) (hlen : nsp.length < 2 ^ 32) :
    decodeNulls nsp = .ok (nullSection nulls rowCount) := by
  have hcount := buildNullBitmap_count_le h
  rw [buildNullBitmap] at h
  split at h
  · cases h
  obtain rfl := Option.some.inj h
  rw [nullBytes] at hlen ⊢
  rw [nullSection]
  split
  · next hzero => rw [hzero]; rfl
  · next hpos =>
      rw [if_neg hpos] at hlen
      simp only [List.length_append, leBytes_length, bytesOfWords_length, bitmapWords_length] at hlen
      exact decodeNulls_words _ _ _ (by omega) (by rw [bitmapWords_length]; omega)

-- ============================================================================
-- Varlena slots
-- ============================================================================

/-- The 24-byte slot of a string; a long one refers to the area at `areaLen`. -/
def varlenaSlot (areaLen : Nat) (encoded : List Byte) : List Byte :=
  if encoded.length ≤ varlenaInlineMax then
    BitVec.ofNat 8 encoded.length :: (encoded ++ List.replicate (varlenaInlineMax - encoded.length) 0)
  else
    leBytes 4 varlenaBigMarker ++ (leBytes 4 areaLen ++ (leBytes 4 encoded.length ++
      List.replicate 12 0))

theorem varlenaSlot_length (areaLen : Nat) (encoded : List Byte) :
    (varlenaSlot areaLen encoded).length = varlenaSize := by
  rw [varlenaSlot]
  split
  · next h =>
      rw [List.length_cons, List.length_append, List.length_replicate, varlenaSize]
      rw [varlenaInlineMax] at h ⊢
      omega
  · simp only [List.length_append, leBytes_length, List.length_replicate, varlenaSize]

theorem varlenaSlot_inline {areaLen : Nat} {encoded : List Byte}
    (h : encoded.length ≤ varlenaInlineMax) :
    varlenaSlot areaLen encoded = BitVec.ofNat 8 encoded.length ::
      (encoded ++ List.replicate (varlenaInlineMax - encoded.length) 0) :=
  if_pos h

theorem varlenaSlot_area {areaLen : Nat} {encoded : List Byte}
    (h : ¬encoded.length ≤ varlenaInlineMax) :
    varlenaSlot areaLen encoded = leBytes 4 varlenaBigMarker ++ (leBytes 4 areaLen ++
      (leBytes 4 encoded.length ++ List.replicate 12 0)) :=
  if_neg h

/-- The first byte of the slot of a short string is its length. -/
theorem varlenaSlot_first {areaLen : Nat} {encoded : List Byte}
    (h : encoded.length ≤ varlenaInlineMax) :
    leNat ((varlenaSlot areaLen encoded).take 1) = encoded.length := by
  rw [varlenaSlot_inline h, List.take_succ_cons, List.take_zero, leNat_cons, leNat_nil,
    BitVec.toNat_ofNat]
  rw [varlenaInlineMax] at h
  omega

theorem varlenaSlot_bigOffset {areaLen : Nat} {encoded : List Byte} (hlt : areaLen < 2 ^ 32)
    (h : ¬encoded.length ≤ varlenaInlineMax) :
    leNat (((varlenaSlot areaLen encoded).drop 4).take 4) = areaLen := by
  rw [varlenaSlot_area h, List.drop_left' (leBytes_length ..), List.take_left' (leBytes_length ..),
    leNat_leBytes_four hlt]

theorem varlenaSlot_bigLength {areaLen : Nat} {encoded : List Byte} (hlen : encoded.length < 2 ^ 32)
    (h : ¬encoded.length ≤ varlenaInlineMax) :
    leNat (((varlenaSlot areaLen encoded).drop 8).take 4) = encoded.length := by
  rw [varlenaSlot_area h, ← List.append_assoc,
    List.drop_left' (by rw [List.length_append, leBytes_length, leBytes_length]),
    List.take_left' (leBytes_length ..), leNat_leBytes_four hlen]

/-- A slot refers to the string it was made for. -/
theorem stored?_varlenaSlot {areaLen : Nat} {encoded area : List Byte} (hlt : areaLen < 2 ^ 32)
    (hlen : encoded.length < 2 ^ 32)
    (harea : varlenaInlineMax < encoded.length → slice? area areaLen encoded.length = some encoded) :
    (⟨varlenaSlot areaLen encoded, varlenaSlot_length ..⟩ : Varlena).stored? area = some encoded := by
  rw [Varlena.stored?]
  by_cases hshort : encoded.length ≤ varlenaInlineMax
  · have hin : (⟨varlenaSlot areaLen encoded, varlenaSlot_length ..⟩ : Varlena).isInline = true := by
      rw [Varlena.isInline, decide_eq_true_eq, varlenaSlot_first hshort]
      exact hshort
    rw [if_pos hin, Varlena.inlineData, Varlena.inlineLength, varlenaSlot_first hshort]
    change some (((varlenaSlot areaLen encoded).drop 1).take encoded.length) = _
    rw [varlenaSlot_inline hshort, List.drop_succ_cons, List.drop_zero, List.take_left]
  · have hfirst : leNat ((varlenaSlot areaLen encoded).take 1) = 255 := by
      rw [varlenaSlot_area hshort]
      rfl
    have hout : (⟨varlenaSlot areaLen encoded, varlenaSlot_length ..⟩ : Varlena).isInline = false := by
      rw [Varlena.isInline, hfirst]
      rfl
    have hmarker : leNat ((varlenaSlot areaLen encoded).take 4) = varlenaBigMarker := by
      rw [varlenaSlot_area hshort, List.take_left' (leBytes_length ..),
        leNat_leBytes_four (by decide)]
    rw [hout, if_neg Bool.false_ne_true, Varlena.bigMarker, hmarker, if_pos rfl, Varlena.bigOffset,
      Varlena.bigLength, varlenaSlot_bigOffset hlt hshort, varlenaSlot_bigLength hlen hshort]
    exact harea (Nat.lt_of_not_le hshort)

/-- The data and the area of a list of strings, behind what is already there. -/
def varlenaSections : List Byte → List (List Byte) → List Byte × List Byte
  | area, [] => ([], area)
  | area, encoded :: rest =>
      let area' := if encoded.length ≤ varlenaInlineMax then area else area ++ encoded
      let (data, area'') := varlenaSections area' rest
      (varlenaSlot area.length encoded ++ data, area'')

-- ============================================================================
-- Vectors
-- ============================================================================

/-- `struct.pack` of a signed number of `n` bytes; it raises when the number does
    not fit. -/
def packSigned (n : Nat) (v : Int) : Option (List Byte) :=
  if -2 ^ (8 * n - 1) ≤ v ∧ v < 2 ^ (8 * n - 1) then some (leBytesInt n v) else none

/-- `pack_mo_type`: the 16 bytes of a type descriptor without width and scale. -/
def packMoType (oid : Byte) (size : Int) : Option (List Byte) :=
  (packSigned 4 size).map fun size => [oid, 0, 0, 0] ++ (size ++ (leBytesInt 4 0 ++ leBytesInt 4 0))

/-- The rows of a column as the script takes them; a missing value is NULL. -/
inductive ColumnValues
  /-- `is_varchar`. -/
  | varlena (values : List (Option (List Byte)))
  /-- `raw_bytes_list`, beside a list of that many values. -/
  | raw (len : Nat) (elems : List (List Byte))
  /-- Numbers, packed by the type or by `pack_fmt`. -/
  | packed (packFmt : Option (Int → Option (List Byte))) (values : List (Option Int))

/-- `row_count = len(values)`. -/
def ColumnValues.rowCount : ColumnValues → Nat
  | varlena values => values.length
  | raw len _ => len
  | packed _ values => values.length

/-- One packed number. -/
def packValue (oid : MOTypeOid) (packFmt : Option (Int → Option (List Byte))) (v : Int) :
    Option (List Byte) :=
  match oid with
  | .bool => some [if v ≠ 0 then 1 else 0]
  | .int32 | .date => packSigned 4 v
  | .int64 | .datetime | .timestamp | .decimal64 => packSigned 8 v
  | .float64 => some (leBytesInt 8 v)
  | .decimal128 => some (leBytesInt 16 v)
  | _ => packFmt.bind (· v)

/-- The data bytes, the area bytes and the element size of a column. -/
def dataSections (oid : Byte) (elemSize : Int) : ColumnValues → Option (List Byte × List Byte × Int)
  | .varlena values =>
      let (data, area) := varlenaSections [] (values.map (·.getD []))
      some (data, area, -24)
  | .raw _ elems => some (elems.flatten, [], elemSize)
  | .packed packFmt values =>
      (values.mapM fun v => packValue (MOTypeOid.ofByte oid) packFmt (v.getD 0)).map fun elems =>
        (elems.flatten, [], elemSize)

/-- `build_vector`: a FLAT vector. -/
def buildVector (oid : Byte) (elemSize : Int) (values : ColumnValues) (nulls : List Bool) :
    Option VectorSections := do
  let (data, area, size) ← dataSections oid elemSize values
  let nsp ← buildNullBitmap nulls values.rowCount
  let type ← packMoType oid size
  return { vecClass := 0, type := type, length := values.rowCount, data := data, area := area,
           nsp := nsp, sorted := 0 }

/-- The value of a CONSTANT vector. -/
inductive ConstantValue
  | null (isVarchar : Bool)
  | varchar (s : List Byte)
  | packed (v : Int)

/-- The data bytes and the element size of a constant; only inline strings and
    three numeric types are supported. -/
def constantSections (oid : Byte) (elemSize : Int) : ConstantValue → Option (List Byte × Int)
  | .null isVarchar => some ([], if isVarchar then -24 else elemSize)
  | .varchar s => if s.length ≤ varlenaInlineMax then some (varlenaSlot 0 s, -24) else none
  | .packed v =>
      match MOTypeOid.ofByte oid with
      | .int32 => (packSigned 4 v).map fun data => (data, elemSize)
      | .float64 => some (leBytesInt 8 v, elemSize)
      | .bool => some ([if v ≠ 0 then 1 else 0], elemSize)
      | _ => none

/-- The null list of a constant: all rows or none. -/
def ConstantValue.nulls (rowCount : Nat) : ConstantValue → List Bool
  | .null _ => List.replicate rowCount true
  | _ => List.replicate rowCount false

/-- `build_constant_vector`: one value for all rows. -/
def buildConstantVector (oid : Byte) (elemSize : Int) (value : ConstantValue) (rowCount : Nat) :
    Option VectorSections := do
  let (data, size) ← constantSections oid elemSize value
  let nsp ← buildNullBitmap (value.nulls rowCount) rowCount
  let type ← packMoType oid size
  return { vecClass := 1, type := type, length := rowCount, data := data, area := [], nsp := nsp,
           sorted := 0 }

/-- The bytes of a vector; a length has to fit its 4 bytes. -/
def VectorSections.binary (v : VectorSections) : Option (List Byte) :=
  if v.length < 2 ^ 32 ∧ v.data.length < 2 ^ 32 ∧ v.area.length < 2 ^ 32 ∧ v.nsp.length < 2 ^ 32 then
    some v.layout
  else none

-- ============================================================================
-- Reading a vector back
-- ============================================================================

theorem packMoType_spec {oid : Byte} {size : Int} {type : List Byte} (h : packMoType oid size = some type) :
    type.length = 16 ∧ (MOType.ofBytes type).oid = oid := by
  rw [packMoType, Option.map_eq_some_iff] at h
  obtain ⟨bs, hbs, rfl⟩ := h
  have hlen : bs.length = 4 := by
    rw [packSigned] at hbs
    split at hbs
    · obtain rfl := Option.some.inj hbs
      exact leBytesInt_length 4 size
    · cases hbs
  refine ⟨?_, rfl⟩
  simp only [List.length_append, leBytesInt_length, List.length_cons, List.length_nil, hlen]

end TaeScanner
