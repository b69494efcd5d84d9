/-
  TaeScanner.Format.BuildZoneMap

  The zone maps of the test data, and when they describe the column they are
  written with.

    * a bound is packed by the width of an element, whatever the type; strings are
      cut to their fields, and the cut is not recorded;
    * the bounds are compared as machine numbers or byte strings, the cells as
      values, and the orders agree on what the type can hold;
    * so a zone map describes the decoded column when its values lie between the two
      values it was built from.
-/

import TaeScanner.Filter.DescribedColumns
import TaeScanner.Format.CellRoundTrip

namespace TaeScanner

open Lib

-- ============================================================================
-- The builder
-- ============================================================================

/-- A bound: a number, or the 16 bytes of a UUID. -/
inductive ZoneBound
  | number (v : Int)
  | bytes (bs : List Byte)

/-- The bytes of a bound, by the width of an element; `packFloat` packs a number as
    a float of 4 bytes.  For any other width nothing is packed. -/
def ZoneBound.pack (packFloat : Int → Option (List Byte)) (oid : MOTypeOid) (elemSize : Nat) :
    ZoneBound → Option (List Byte)
  | number v =>
      match elemSize with
      | 1 => packSigned 1 v
      | 4 => if oid = .float64 then packFloat v else packSigned 4 v
      | 8 => if oid = .float64 then some (leBytesInt 8 v) else packSigned 8 v
      | 16 => do
          -- both halves are masked and then packed as signed numbers
          let low ← packSigned 8 (v % 2 ^ 64)
          let high ← packSigned 8 (v / 2 ^ 64 % 2 ^ 64)
          return low ++ high
      | _ => some []
  | bytes bs =>
      match elemSize with
      | 16 => if bs.length = 16 then some bs else none
      | 1 | 4 | 8 => none
      | _ => some []

/-- The fields of a zone map, with their offsets. -/
def zoneMapFields (oid : Byte) (minLen maxLen : Nat) (minBytes maxBytes : List Byte) : List (Nat × List Byte) :=
  [(0, minBytes), (30, [BitVec.ofNat 8 minLen]), (31, maxBytes), (61, [BitVec.ofNat 8 maxLen]), (62, [0x80]),
    (63, [oid])]

section Fields
variable {oid : Byte} {minLen maxLen : Nat} {minBytes maxBytes : List Byte}

theorem zoneMapFields_in (oid : Byte) (minLen maxLen : Nat) (hmin : minBytes.length ≤ 30) (hmax : maxBytes.length ≤ 30) :
    ∀ f ∈ zoneMapFields oid minLen maxLen minBytes maxBytes,
      f.1 + f.2.length ≤ (List.replicate zmSize (0 : Byte)).length := by
  simp only [zoneMapFields, List.forall_mem_cons, List.length_singleton, List.length_replicate, zmSize]
  refine ⟨by omega, by omega, by omega, by omega, by omega, by omega, fun f hf => by cases hf⟩

theorem zoneMapFields_apart (oid : Byte) (minLen maxLen : Nat) (hmin : minBytes.length ≤ 30) (hmax : maxBytes.length ≤ 30) :
    (zoneMapFields oid minLen maxLen minBytes maxBytes).Pairwise
      fun f g => g.1 + g.2.length ≤ f.1 ∨ f.1 + f.2.length ≤ g.1 := by
  simp only [zoneMapFields, List.pairwise_cons, List.forall_mem_cons, List.length_singleton]
  refine ⟨⟨?_, ?_, ?_, ?_, ?_, nofun⟩, ⟨?_, ?_, ?_, ?_, nofun⟩, ⟨?_, ?_, ?_, nofun⟩, ⟨?_, ?_, nofun⟩,
    ⟨?_, nofun⟩, nofun, .nil⟩
  all_goals omega

/-- The zone map with the fields, and zeros between them. -/
def ZoneMap.ofFields (oid : Byte) (minLen maxLen : Nat) (minBytes maxBytes : List Byte)
    (hmin : minBytes.length ≤ 30) (hmax : maxBytes.length ≤ 30) : ZoneMap :=
  ⟨writeFields (List.replicate zmSize 0) (zoneMapFields oid minLen maxLen minBytes maxBytes), by
    rw [writeFields_length (zoneMapFields_in oid minLen maxLen hmin hmax), List.length_replicate]⟩

/-- A length of at most 30 leaves the other bits of its byte clear. -/
theorem lengthByte {n : Nat} (h : n ≤ 30) :
    (BitVec.ofNat 8 n &&& 0x1F).toNat = n ∧ (BitVec.ofNat 8 n &&& 0x80 != 0) = false := by
  have hall : ∀ n ≤ 30, (BitVec.ofNat 8 n &&& 0x1F).toNat = n ∧ (BitVec.ofNat 8 n &&& 0x80 != 0) = false := by
    decide
  exact hall n h

/-- Both bounds are found where the reader looks, the map is set and no cut is recorded. -/
theorem ZoneMap.ofFields_spec (hmin : minBytes.length ≤ 30) (hmax : maxBytes.length ≤ 30)
    (hminLen : minLen ≤ 30) (hmaxLen : maxLen ≤ 30) {zm : ZoneMap}
    (hzm : zm = ofFields oid minLen maxLen minBytes maxBytes hmin hmax) :
    zm.minBuf.take minBytes.length = minBytes ∧ zm.maxBuf.take maxBytes.length = maxBytes ∧
      zm.isInited = true ∧ zm.minLen = minLen ∧ zm.maxLen = maxLen ∧ zm.maxTruncated = false := by
  have hin := zoneMapFields_in oid minLen maxLen hmin hmax
  have hapart := zoneMapFields_apart oid minLen maxLen hmin hmax
  have hfield : ∀ {off n : Nat} {v : List Byte}, (off, v) ∈ zoneMapFields oid minLen maxLen minBytes maxBytes →
      v.length = n → slice? zm.data off n = some v := by
    intro off n v hmem hn
    rw [hzm]
    exact slice?_writeFields hin hapart hmem hn
  have hbyte : ∀ {off : Nat} {b : Byte}, (off, [b]) ∈ zoneMapFields oid minLen maxLen minBytes maxBytes →
      zm.byteAt off = b := by
    intro off b hmem
    have hhead := congrArg (fun bs : List Byte => bs[0]?) (slice?_eq_some.mp (hfield (n := 1) hmem rfl)).2
    rw [List.getElem?_take_of_lt Nat.one_pos, List.getElem?_drop, Nat.add_zero] at hhead
    rw [ZoneMap.byteAt, ← hhead]
    rfl
  have hlow : slice? zm.data 0 minBytes.length = some minBytes := hfield (by simp [zoneMapFields]) rfl
  have hhigh : slice? zm.data 31 maxBytes.length = some maxBytes := hfield (by simp [zoneMapFields]) rfl
  refine ⟨(slice?_eq_some.mp hlow).2.symm, (slice?_eq_some.mp hhigh).2.symm, ?_, ?_, ?_, ?_⟩
  · rw [ZoneMap.isInited, hbyte (b := 0x80) (by simp [zoneMapFields])]
    rfl
  · rw [ZoneMap.minLen, hbyte (b := BitVec.ofNat 8 minLen) (by simp [zoneMapFields]), (lengthByte hminLen).1]
  · rw [ZoneMap.maxLen, hbyte (b := BitVec.ofNat 8 maxLen) (by simp [zoneMapFields]), (lengthByte hmaxLen).1]
  · rw [ZoneMap.maxTruncated, hbyte (b := BitVec.ofNat 8 maxLen) (by simp [zoneMapFields]),
      (lengthByte hmaxLen).2]

end Fields

/-- `build_zone_map_numeric`. -/
def buildZoneMapNumeric (packFloat : Int → Option (List Byte)) (oid : Byte) (minVal maxVal : ZoneBound)
    (elemSize : Nat) : Option ZoneMap := do
  let minBytes ← minVal.pack packFloat (MOTypeOid.ofByte oid) elemSize
  let maxBytes ← maxVal.pack packFloat (MOTypeOid.ofByte oid) elemSize
  if h : minBytes.length ≤ 30 ∧ maxBytes.length ≤ 30 then
    return .ofFields oid (min elemSize 30) (min elemSize 30) minBytes maxBytes h.1 h.2
  else none

/-- `build_zone_map_string`, of strings that are encoded already.  Both are cut to their
    fields, and the cut of the max is not recorded. -/
def buildZoneMapString (oid : Byte) (minStr maxStr : List Byte) : ZoneMap :=
  let minBytes := minStr.take 30
  let maxBytes := maxStr.take 30
  .ofFields oid minBytes.length maxBytes.length minBytes maxBytes (List.length_take_le ..) (List.length_take_le ..)

section Builders
variable {packFloat : Int → Option (List Byte)} {oid : Byte} {zm : ZoneMap}

theorem buildZoneMapNumeric_spec {minVal maxVal : ZoneBound} {elemSize : Nat}
    (h : buildZoneMapNumeric packFloat oid minVal maxVal elemSize = some zm) :
    ∃ minBytes maxBytes, minVal.pack packFloat (MOTypeOid.ofByte oid) elemSize = some minBytes ∧
      maxVal.pack packFloat (MOTypeOid.ofByte oid) elemSize = some maxBytes ∧
      ∃ hmin hmax, zm = .ofFields oid (min elemSize 30) (min elemSize 30) minBytes maxBytes hmin hmax := by
  simp only [buildZoneMapNumeric, Option.bind_eq_bind, Option.bind_eq_some_iff] at h
  obtain ⟨minBytes, hmin, maxBytes, hmax, h⟩ := h
  obtain ⟨hlen, hzm⟩ := Option.dite_none_right_eq_some.mp h
  exact ⟨minBytes, maxBytes, hmin, hmax, hlen.1, hlen.2, (Option.some.inj hzm).symm⟩

/-- The zone map of strings has the layout the reader expects, unless the max is cut. -/
theorem buildZoneMapString_summarises {lo hi : List Byte} (hshort : hi.length ≤ zmMaxLen) :
    (buildZoneMapString oid lo hi).Summarises lo hi := by
  have hmin : (lo.take 30).length ≤ 30 := List.length_take_le ..
  have hmax : (hi.take 30).length ≤ 30 := List.length_take_le ..
  have hzm : buildZoneMapString oid lo hi = .ofFields oid _ _ _ _ hmin hmax := rfl
  obtain ⟨hlow, hhigh, hinit, hminLen, hmaxLen, hcut⟩ := ZoneMap.ofFields_spec hmin hmax hmin hmax hzm
  refine ⟨hinit, hminLen, ?_, hmaxLen, ?_, ?_⟩
  · rw [hminLen]
    exact hlow
  · rw [hmaxLen]
    exact hhigh
  · rw [hcut]
    exact (decide_eq_false (Nat.not_lt.mpr hshort)).symm

/-- So has the zone map of UUIDs. -/
theorem buildZoneMapNumeric_summarises {lo hi : List Byte}
    (h : buildZoneMapNumeric packFloat oid (.bytes lo) (.bytes hi) 16 = some zm) :
    zm.Summarises lo hi ∧ lo.length = 16 ∧ hi.length = 16 := by
  obtain ⟨minBytes, maxBytes, hpackMin, hpackMax, hmin, hmax, hzm⟩ := buildZoneMapNumeric_spec h
  obtain ⟨hlo, hminBytes⟩ := Option.ite_none_right_eq_some.mp hpackMin
  obtain ⟨hhi, hmaxBytes⟩ := Option.ite_none_right_eq_some.mp hpackMax
  obtain rfl := Option.some.inj hminBytes
  obtain rfl := Option.some.inj hmaxBytes
  obtain ⟨hlow, hhigh, hinit, hminLen, hmaxLen, hcut⟩ :=
    ZoneMap.ofFields_spec hmin hmax (Nat.min_le_right ..) (Nat.min_le_right ..) hzm
  rw [hlo] at hlow
  rw [hhi] at hhigh
  have hwholeLo : lo.take zmMinLen = lo := List.take_of_length_le hmin
  have hwholeHi : hi.take zmMaxLen = hi := List.take_of_length_le hmax
  refine ⟨⟨hinit, ?_, ?_, ?_, ?_, ?_⟩, hlo, hhi⟩
  · rw [hminLen, hwholeLo, hlo]
    rfl
  · rw [hminLen, hwholeLo]
    exact hlow
  · rw [hmaxLen, hwholeHi, hhi]
    rfl
  · rw [hmaxLen, hwholeHi]
    exact hhigh
  · rw [hcut]
    exact (decide_eq_false (Nat.not_lt.mpr hmax)).symm

end Builders

-- ============================================================================
-- Bounds as values
-- ============================================================================

/-- A number that the script can pack as a bound of the type, and is read as itself. -/
def BoundFits (oid : MOTypeOid) (v : Int) : Prop :=
  match oid with
  | .bool => v = 0 ∨ v = 1
  | .decimal128 => FitsSigned 16 v
  | _ => True

/-- The masked halves are those of the number. -/
theorem leInt_halves {v : Int} (h : FitsSigned 16 v) :
    leInt (leBytesInt 8 (v % 2 ^ 64) ++ leBytesInt 8 (v / 2 ^ 64 % 2 ^ 64)) = v := by
  have hsum : ((leNat (leBytesInt 8 (v % 2 ^ 64) ++ leBytesInt 8 (v / 2 ^ 64 % 2 ^ 64)) : Nat) : Int) =
      v % (256 ^ 16 : Nat) := by
    rw [leNat_append, leBytesInt_length]
    push_cast [leNat_leBytesInt]
    omega
  have hlen : (leBytesInt 8 (v % 2 ^ 64) ++ leBytesInt 8 (v / 2 ^ 64 % 2 ^ 64)).length = 16 := by
    rw [List.length_append, leBytesInt_length, leBytesInt_length]
  obtain ⟨hlo, hhi⟩ := h
  rw [leInt, hlen, hsum, Int.emod_bmod]
  exact Int.bmod_eq_of_le_mul_two (by omega) (by omega)

/-- A packed bound denotes the number, as an element of the type would. -/
theorem ZoneBound.pack_spec {packFloat : Int → Option (List Byte)} {oid : Byte} {elemSize : Nat} {v : Int}
    {bs : List Byte} {x : SqlValue} (h : (number v).pack packFloat (MOTypeOid.ofByte oid) elemSize = some bs)
    (hsize : (elemSize : Int) = moTypeFixedSize (MOTypeOid.ofByte oid))
    (hvalue : packedValue (MOTypeOid.ofByte oid) v = some x) (hfits : BoundFits (MOTypeOid.ofByte oid) v) :
    bs.length = elemSize ∧ MOType.validBytes { oid := oid } bs = true ∧
      MOType.fixedValue { oid := oid } bs = x := by
  rw [MOType.validBytes, MOType.fixedValue, MOType.kind]
  unfold packedValue at hvalue
  split at hvalue
  case h_1 hoid =>
    rw [hoid] at hsize hfits h ⊢
    obtain rfl : elemSize = 1 := Int.ofNat_inj.mp hsize
    obtain rfl := Option.some.inj hvalue
    obtain ⟨rfl, -⟩ := packSigned_spec h (by decide)
    rcases hfits with rfl | rfl
    · exact ⟨rfl, rfl, rfl⟩
    · exact ⟨rfl, rfl, rfl⟩
  case h_2 hoid | h_4 hoid =>
    rw [hoid] at hsize h ⊢
    obtain rfl : elemSize = 4 := Int.ofNat_inj.mp hsize
    obtain rfl := Option.some.inj hvalue
    obtain ⟨rfl, hle⟩ := packSigned_spec h (by decide)
    rw [leInt_leBytesInt hle]
    exact ⟨rfl, rfl, rfl⟩
  case h_3 hoid | h_5 hoid | h_6 hoid | h_7 hoid =>
    rw [hoid] at hsize h ⊢
    obtain rfl : elemSize = 8 := Int.ofNat_inj.mp hsize
    obtain rfl := Option.some.inj hvalue
    obtain ⟨rfl, hle⟩ := packSigned_spec h (by decide)
    rw [leInt_leBytesInt hle]
    exact ⟨rfl, rfl, rfl⟩
  case h_8 hoid =>
    rw [hoid] at hsize hfits h ⊢
    obtain rfl : elemSize = 16 := Int.ofNat_inj.mp hsize
    obtain rfl := Option.some.inj hvalue
    obtain ⟨low, hlow, hrest⟩ := Option.bind_eq_some_iff.mp h
    obtain ⟨high, hhigh, hbs⟩ := Option.bind_eq_some_iff.mp hrest
    obtain rfl := Option.some.inj hbs
    obtain ⟨rfl, -⟩ := packSigned_spec hlow (by decide)
    obtain ⟨rfl, -⟩ := packSigned_spec hhigh (by decide)
    rw [leInt_halves hfits]
    exact ⟨rfl, rfl, rfl⟩
  case h_9 hoid =>
    rw [hoid] at hsize h ⊢
    obtain rfl : elemSize = 8 := Int.ofNat_inj.mp hsize
    obtain rfl := Option.some.inj hvalue
    obtain rfl := Option.some.inj h
    exact ⟨rfl, rfl, rfl⟩
  case h_10 => cases hvalue

-- ============================================================================
-- The order of values
-- ============================================================================

/-- The number a value is ordered by; `none` for a NaN, and for a value that is not a
    number. -/
def SqlValue.key : SqlValue → Scalar
  | bool b => some b.toNat
  | int i => some i
  | decimal unscaled _ => some unscaled
  | real bits => if bits.length = 4 then floatKey 8 23 (leNat bits) else floatKey 11 52 (leNat bits)
  | _ => none

/-- The order of two values of one type; decimals have its scale. -/
def SqlValue.le (a b : SqlValue) : Bool := scalarLe a.key b.key

/-- Elements are loaded in the order of their values. -/
theorem scalarLe_load {t : MOType} {st : ScalarType} (hst : scalarTypeOf t.kind = some st) {a b : List Byte}
    (ha : a.length = st.size) (hb : b.length = st.size) (hva : t.validBytes a = true)
    (hvb : t.validBytes b = true) :
    scalarLe (st.load a) (st.load b) = (t.fixedValue a).le (t.fixedValue b) := by
  have hshift : ∀ x y z : Int, scalarLe (some x) (some y) = scalarLe (some (x - z)) (some (y - z)) := by
    intro x y z
    exact decide_eq_decide.mpr (sub_le_sub_iff_right z).symm
  -- a bool is its own number
  have hbool : ∀ bs : List Byte, leNat bs ≤ 1 → (leNat bs : Int) = (decide (leNat bs ≠ 0)).toNat := by
    intro bs hle
    rcases Nat.le_one_iff_eq_zero_or_eq_one.mp hle with h | h
    · rw [h]; rfl
    · rw [h]; rfl
  unfold ScalarType.load
  rw [List.take_of_length_le ha.le, List.take_of_length_le hb.le]
  unfold MOType.validBytes at hva hvb
  unfold MOType.fixedValue SqlValue.le
  cases hk : t.kind <;> simp only [hk, scalarTypeOf, Option.some.injEq, reduceCtorEq] at hst hva hvb <;>
    subst hst
  case bool =>
    show scalarLe (some (leNat a : Int)) (some (leNat b : Int)) = _
    rw [hbool a (of_decide_eq_true hva), hbool b (of_decide_eq_true hvb)]
    rfl
  case date => exact hshift _ _ _
  case datetime => exact hshift _ _ _
  case timestamp => exact hshift _ _ _
  case float32 =>
    show _ = scalarLe (if a.length = 4 then _ else _) (if b.length = 4 then _ else _)
    rw [if_pos (show a.length = 4 from ha), if_pos (show b.length = 4 from hb)]
    rfl
  case float64 =>
    show _ = scalarLe (if a.length = 4 then _ else _) (if b.length = 4 then _ else _)
    rw [if_neg (by rw [ha]; decide), if_neg (by rw [hb]; decide)]
    rfl
  all_goals rfl

-- ============================================================================
-- Zone maps of written columns
-- ============================================================================

/-- The zone map is not set, belongs to a type that is not compared, or was built from
    two values that enclose those of the column: two numbers, two strings of which the
    greater one is not cut, or two UUIDs. -/
inductive ColumnInput.ZoneMapOk (col : ColumnInput) (zm : ZoneMap) : Prop
  | unset (h : zm.isInited = false)
  | notCompared (hscalar : scalarTypeOf (MOTypeOid.ofByte col.moType) = none)
      (hbytes : ¬(MOTypeOid.ofByte col.moType).IsBytes)
  | numbers {packFloat : Int → Option (List Byte)} {elemSize : Nat} {lo hi : Int} {x y : SqlValue}
      (hbuild : buildZoneMapNumeric packFloat col.moType (.number lo) (.number hi) elemSize = some zm)
      (hsize : (elemSize : Int) = moTypeFixedSize (MOTypeOid.ofByte col.moType))
      (hlo : packedValue (MOTypeOid.ofByte col.moType) lo = some x) (hloFits : BoundFits (MOTypeOid.ofByte col.moType) lo)
      (hhi : packedValue (MOTypeOid.ofByte col.moType) hi = some y) (hhiFits : BoundFits (MOTypeOid.ofByte col.moType) hi)
      (hspan : ∀ row < col.source.rowCount, ∀ v, col.cell row = some v → x.le v = true ∧ v.le y = true)
  | strings {lo hi : List Byte} (hbuild : buildZoneMapString col.moType lo hi = zm)
      (hstr : isStringType (MOTypeOid.ofByte col.moType) = true) (hshort : hi.length ≤ zmMaxLen)
      (hspan : ∀ row < col.source.rowCount, ∀ s, col.cell row = some (.bytes s) → lo ≤ s ∧ s ≤ hi)
  | uuids {packFloat : Int → Option (List Byte)} {lo hi : List Byte}
      (hbuild : buildZoneMapNumeric packFloat col.moType (.bytes lo) (.bytes hi) 16 = some zm)
      (huuid : MOTypeOid.ofByte col.moType = .uuid)
      (hspan : ∀ row < col.source.rowCount, ∀ n, col.cell row = some (.uuid n) →
        uuidFromBlob lo ≤ n ∧ n ≤ uuidFromBlob hi)

/-- What the script packs is neither a string nor a UUID. -/
theorem not_isBytes_of_packedValue {oid : MOTypeOid} {v : Int} {x : SqlValue} (h : packedValue oid v = some x) :
    ¬oid.IsBytes := by
  rintro (hstr | rfl)
  · cases oid <;> simp only [packedValue, isStringType, reduceCtorEq, Bool.false_eq_true] at h hstr
  · cases h

theorem elementWidth_pos (oid : MOTypeOid) : 0 < elementWidth oid := by
  rw [elementWidth]
  split
  · omega
  · decide

section Columns
variable {col : ColumnInput} {d : DecodedColumn} {row : Nat} (h : col.decoded? = some d) (htyped : col.Typed)
  (harea : d.area.length < 2 ^ 32) (hrow : row < d.rowCount) (hnull : d.isNullAt row = false)
include h htyped harea hrow hnull

/-- A row that has an element holds the cell that was written for it. -/
theorem cell_of_inside (hin : (row + 1) * elementWidth d.kind ≤ d.data.length) :
    ∃ v, d.storedValue? row = some v ∧ col.cell row = some v := by
  obtain ⟨hrows, -, -⟩ := decoded?_spec h
  obtain ⟨hkind, -⟩ := decoded?_kind h
  have hpos := elementWidth_pos d.kind
  cases hsource : col.source with
  | flat elemSize values nulls =>
      rw [ColumnInput.Typed, hsource] at htyped
      rw [hrows, hsource] at hrow
      have hcell := cell?_flat hsource h htyped harea hrow
      rw [DecodedColumn.cell?, hnull, if_neg Bool.false_ne_true] at hcell
      obtain ⟨v, hv, hsome⟩ := Option.map_eq_some_iff.mp hcell
      exact ⟨v, hv, hsome.symm⟩
  | constant elemSize value rowCount =>
      have hconst := storedValue?_constant hsource h htyped row
      cases hcell : col.cell row with
      | none =>
          rw [hcell] at hconst
          rw [show d.data = [] from hconst, List.length_nil] at hin
          exact absurd (Nat.mul_pos (Nat.succ_pos row) hpos) (Nat.not_lt.mpr hin)
      | some v =>
          rw [hcell] at hconst
          obtain ⟨-, hv, hlen⟩ := hconst
          -- there is one element only
          have hone : d.data.length = 1 * elementWidth d.kind := by
            rw [hlen, Nat.one_mul, DecodedColumn.kind, hkind]
          rw [hone] at hin
          have hle := Nat.le_of_mul_le_mul_right hin hpos
          obtain rfl : row = 0 := by omega
          exact ⟨v, hv, rfl⟩

/-- An element that is not NULL is the cell of its row. -/
theorem cell_of_element {size : Nat} (hsize : moTypeFixedSize d.kind = size) (hpos : 0 < size) {bs : List Byte}
    (hbs : d.element? size row = some bs) :
    col.cell row = some (d.type.fixedValue bs) ∧ d.type.validBytes bs = true := by
  have hin := DecodedColumn.element?_isSome.mp (Option.isSome_iff_exists.mpr ⟨bs, hbs⟩)
  have hwidth : elementWidth d.kind = size := by
    rw [elementWidth, hsize, if_pos (Int.natCast_pos.mpr hpos), Int.toNat_natCast]
  rw [← hwidth] at hin
  obtain ⟨v, hv, hcell⟩ := cell_of_inside h htyped harea hrow hnull hin
  obtain ⟨bs', hbs', hvalid, hvalue⟩ :=
    DecodedColumn.element?_of_storedValue? hsize hpos (Option.isSome_iff_exists.mpr ⟨v, hv⟩)
  obtain rfl := Option.some.inj (hbs.symm.trans hbs')
  exact ⟨hcell.trans (hv.symm.trans hvalue), hvalid⟩

/-- The string of a slot that is not NULL is the cell of its row. -/
theorem cell_of_string (hstr : isStringType d.kind = true) {s : List Byte} (hs : d.bytes? row = some s) :
    col.cell row = some (.bytes s) := by
  rw [DecodedColumn.bytes?, if_pos hstr] at hs
  obtain ⟨slot, hslot, -⟩ := Option.bind_eq_some_iff.mp hs
  have hin := DecodedColumn.slot?_isSome.mp (Option.isSome_iff_exists.mpr ⟨slot, hslot⟩)
  have hwidth : elementWidth d.kind = varlenaSize := by
    rw [elementWidth, moTypeFixedSize_of_isStringType hstr]
    rfl
  rw [← hwidth] at hin
  obtain ⟨v, hv, hcell⟩ := cell_of_inside h htyped harea hrow hnull hin
  obtain ⟨slot', s', hslot', hs', hvalue⟩ :=
    DecodedColumn.slot?_of_storedValue? hstr (Option.isSome_iff_exists.mpr ⟨v, hv⟩)
  rw [hslot', Option.bind_some, hs'] at hs
  obtain rfl := Option.some.inj hs
  exact hcell.trans (hv.symm.trans hvalue)

omit hrow hnull

/-- A zone map that was built around the numbers of a column bounds what is decoded. -/
theorem ColumnInput.ZoneMapOk.bounds {zm : ZoneMap} (hzm : col.ZoneMapOk zm) (hinit : zm.isInited = true) :
    zm.Bounds d := by
  intro st hst row hrow hnull bs hbs
  obtain ⟨hrows, -, -⟩ := decoded?_spec h
  obtain ⟨hkind, hscale⟩ := decoded?_kind h
  obtain ⟨hsize, hpos⟩ := scalarTypeOf_size hst
  obtain ⟨hcell, hvalid⟩ := cell_of_element h htyped harea hrow hnull hsize hpos hbs
  have hlen := DecodedColumn.element?_length hbs
  replace hst : scalarTypeOf d.type.kind = some st := hst
  obtain ⟨hnotString, hnotUuid, -⟩ := numeric_kind (hkind ▸ hst)
  cases hzm with
  | unset hunset => exact absurd (hinit.symm.trans hunset) (by decide)
  | notCompared hnone _ =>
      rw [hkind, hnone] at hst
      cases hst
  | strings _ hstr _ _ => exact absurd (hnotString.symm.trans hstr) (by decide)
  | uuids _ huuid _ => exact absurd huuid hnotUuid
  | @numbers packFloat elemSize lo hi x y hbuild helem hlo hloFits hhi hhiFits hspan =>
      obtain ⟨hxv, hvy⟩ := hspan row (hrows ▸ hrow) _ hcell
      obtain ⟨minBytes, maxBytes, hpackMin, hpackMax, hmin, hmax, hzm⟩ := buildZoneMapNumeric_spec hbuild
      obtain ⟨hminBuf, hmaxBuf, -⟩ :=
        ZoneMap.ofFields_spec hmin hmax (Nat.min_le_right ..) (Nat.min_le_right ..) hzm
      obtain ⟨hminLen, hminValid, hminValue⟩ := ZoneBound.pack_spec hpackMin helem hlo hloFits
      obtain ⟨hmaxLen, hmaxValid, hmaxValue⟩ := ZoneBound.pack_spec hpackMax helem hhi hhiFits
      have hwidth : elemSize = st.size := by
        rw [DecodedColumn.kind, hkind] at hsize
        omega
      have hsame : ∀ bs, d.type.fixedValue bs = MOType.fixedValue { oid := col.moType } bs ∧
          d.type.validBytes bs = MOType.validBytes { oid := col.moType } bs := fun bs =>
        ⟨(MOType.values_congr _ hkind hscale bs).1, (MOType.values_congr _ hkind hscale bs).2.1⟩
      -- the load of a bound sees its bytes alone
      have hload : ∀ {buf bound : List Byte}, buf.take bound.length = bound → bound.length = elemSize →
          st.load buf = st.load bound := by
        intro buf bound htake hlen
        rw [ScalarType.load, ScalarType.load, ← hwidth, ← hlen, htake, List.take_length]
      constructor
      · rw [ZoneMap.getMin, hload hminBuf hminLen, scalarLe_load hst (hminLen.trans hwidth) hlen
          ((hsame _).2.trans hminValid) hvalid, (hsame minBytes).1, hminValue]
        exact hxv
      · rw [ZoneMap.getMax, hload hmaxBuf hmaxLen, scalarLe_load hst hlen (hmaxLen.trans hwidth) hvalid
          ((hsame _).2.trans hmaxValid), (hsame maxBytes).1, hmaxValue]
        exact hvy

/-- A zone map that was built around the values of a column describes what is decoded. -/
theorem ColumnInput.ZoneMapOk.describes {zm : ZoneMap} (hzm : col.ZoneMapOk zm) (hinit : zm.isInited = true) :
    zm.Describes d := by
  refine ⟨hzm.bounds h htyped harea hinit, fun hbytes => ?_⟩
  obtain ⟨hrows, -, -⟩ := decoded?_spec h
  have hkind : d.kind = MOTypeOid.ofByte col.moType := (decoded?_kind h).1
  rw [hkind] at hbytes
  cases hzm with
  | unset hunset => exact absurd (hinit.symm.trans hunset) (by decide)
  | notCompared _ hnot => exact absurd hbytes hnot
  | numbers _ _ hlo => exact absurd hbytes (not_isBytes_of_packedValue hlo)
  | @strings lo hi hbuild hstr hshort hspan =>
      intro row hrow hnull s hs
      refine ⟨lo, hi, hbuild ▸ buildZoneMapString_summarises hshort, ?_⟩
      exact hspan row (hrows ▸ hrow) s (cell_of_string h htyped harea hrow hnull (hkind ▸ hstr) hs)
  | @uuids packFloat lo hi hbuild huuid hspan =>
      obtain ⟨hzm, hlo, hhi⟩ := buildZoneMapNumeric_summarises hbuild
      intro row hrow hnull s hs
      refine ⟨lo, hi, hzm, ?_⟩
      rw [DecodedColumn.bytes?, hkind, huuid] at hs
      replace hs : d.element? 16 row = some s := hs
      have hlen := DecodedColumn.element?_length hs
      have hsize : moTypeFixedSize d.kind = (16 : Nat) := by rw [hkind, huuid]; rfl
      obtain ⟨hcell, -⟩ := cell_of_element h htyped harea hrow hnull hsize (by decide) hs
      have hvalue : d.type.fixedValue s = .uuid (uuidFromBlob s) := by
        rw [MOType.fixedValue, show d.type.kind = .uuid from hkind.trans huuid]
      rw [hvalue] at hcell
      obtain ⟨hlow, hhigh⟩ := hspan row (hrows ▸ hrow) _ hcell
      rw [uuidFromBlob, uuidFromBlob] at hlow hhigh
      rw [le_iff_beNat_le hlo hlen, le_iff_beNat_le hlen hhi]
      omega

end Columns

end TaeScanner
