/-
  TaeScanner.Scan.DescribedRanges

  What a zone map that describes a column says to ORDER BY and the statistics.

    * filters load the fields of a zone map as machine numbers, the planner decodes
      them as values; both see the same order;
    * the fields of UUIDs hold the bounds themselves, those of strings only the cuts
      of two bounds;
    * so a field bounds the values of the block, or is the cut of a bound.
-/

import TaeScanner.Filter.DescribedColumns
import TaeScanner.Scan.StatisticsSpec

namespace TaeScanner

open Lib

/-- Zone maps of the type are compared. -/
def MOTypeOid.IsCompared (oid : MOTypeOid) : Prop := (scalarTypeOf oid).isSome = true ∨ oid.IsBytes

/-- The value lies between the two fields of the zone map, or, as a string, between
    two bounds of which the fields hold the cuts. -/
def ZoneMap.BoundsValue (t : MOType) (zm : ZoneMap) (v : SqlValue) : Prop :=
  if isStringType t.kind then ∃ lo hi s, zm.Summarises lo hi ∧ v = .bytes s ∧ lo ≤ s ∧ s ≤ hi
  else
    (t.fixedValue (zm.minBuf.take (moTypeFixedSize t.kind).toNat)).orderKey ≤ v.orderKey ∧
      v.orderKey ≤ (t.fixedValue (zm.maxBuf.take (moTypeFixedSize t.kind).toNat)).orderKey

-- ============================================================================
-- Two readings of one order
-- ============================================================================

section Orders
variable {t : MOType} {a b : List Byte}

/-- Numbers are keys of one item. -/
theorem singleton_le {x y : Int} (h : x ≤ y) : ([x] : OrderKey) ≤ [y] := by
  obtain hlt | rfl := lt_or_eq_of_le h
  · exact le_of_lt (List.cons_lt_cons_iff.mpr (Or.inl hlt))
  · exact le_refl _

theorem realKey_le {x y : Scalar} (h : scalarLe x y = true) : x.getD (2 ^ 64) ≤ y.getD (2 ^ 64) := by
  cases x with
  | none => exact absurd h Bool.false_ne_true
  | some x =>
      cases y with
      | none => exact absurd h Bool.false_ne_true
      | some y => exact of_decide_eq_true h

/-- Elements that are loaded in an order denote values in that order. -/
theorem orderKey_le_of_scalarLe {st : ScalarType} (hst : scalarTypeOf t.kind = some st)
    (ha : a.length = st.size) (hb : b.length = st.size) (h : scalarLe (st.load a) (st.load b) = true) :
    (t.fixedValue a).orderKey ≤ (t.fixedValue b).orderKey := by
  rw [ScalarType.load, ScalarType.load, List.take_of_length_le ha.le, List.take_of_length_le hb.le] at h
  unfold MOType.fixedValue
  cases hk : t.kind <;> simp only [hk, scalarTypeOf, Option.some.injEq, reduceCtorEq] at hst <;> subst hst
  case bool =>
    have hle : (leNat a : Int) ≤ leNat b := of_decide_eq_true h
    apply singleton_le
    by_cases hzero : leNat a = 0
    · rw [hzero]
      exact Int.natCast_nonneg _
    · have hpos : leNat b ≠ 0 := by omega
      rw [decide_eq_true hzero, decide_eq_true hpos]
  case date | datetime | timestamp =>
    exact singleton_le (Int.sub_le_sub_right (of_decide_eq_true h) _)
  case float32 =>
    apply singleton_le
    rw [realKey, realKey, if_pos (show a.length = 4 from ha), if_pos (show b.length = 4 from hb)]
    exact realKey_le h
  case float64 =>
    apply singleton_le
    rw [realKey, realKey, if_neg (by rw [ha]; decide), if_neg (by rw [hb]; decide)]
    exact realKey_le h
  all_goals exact singleton_le (of_decide_eq_true h)

/-- UUIDs in the order of their bytes are in the order of their values. -/
theorem orderKey_le_of_uuid (huuid : t.kind = .uuid) (ha : a.length = 16) (hb : b.length = 16) (h : a ≤ b) :
    (t.fixedValue a).orderKey ≤ (t.fixedValue b).orderKey := by
  have hle := (le_iff_beNat_le ha hb).mp h
  rw [MOType.fixedValue, MOType.fixedValue, huuid]
  apply singleton_le
  rw [uuidFromBlob, uuidFromBlob]
  omega

/-- The planner decodes a field like an element, up to a scale that orders nothing. -/
theorem zoneMapBytesToValue_orderKey {ptr : List Byte} {colType : LogicalType} {v : SqlValue}
    (h : zoneMapBytesToValue ptr t.kind colType = some v) :
    v.orderKey = (t.fixedValue (ptr.take (moTypeFixedSize t.kind).toNat)).orderKey := by
  unfold MOType.fixedValue
  unfold zoneMapBytesToValue at h
  cases hk : t.kind <;> rw [hk] at h <;>
    first
    | exact absurd h (Option.some_ne_none v).symm
    | obtain rfl := Option.some.inj h
      rfl

end Orders

-- ============================================================================
-- Described columns
-- ============================================================================

/-- No number has more than 16 bytes. -/
theorem scalarTypeOf_size_le {oid : MOTypeOid} {st : ScalarType} (h : scalarTypeOf oid = some st) : st.size ≤ 16 := by
  cases oid <;> simp only [scalarTypeOf, Option.some.injEq, reduceCtorEq] at h <;> subst h <;> decide

theorem ZoneMap.minBuf_take_length (zm : ZoneMap) {n : Nat} (h : n ≤ 16) : (zm.minBuf.take n).length = n := by
  rw [List.length_take, ZoneMap.minBuf, zm.length_eq, zmSize]
  omega

theorem ZoneMap.maxBuf_take_length (zm : ZoneMap) {n : Nat} (h : n ≤ 16) : (zm.maxBuf.take n).length = n := by
  rw [List.length_take, ZoneMap.maxBuf, List.length_drop, zm.length_eq, zmSize]
  omega

/-- The fields of the zone map are as long as the bounds of the type. -/
def ZoneMap.FieldsWhole (zm : ZoneMap) (oid : MOTypeOid) : Prop :=
  oid = .uuid → zm.minLen = 16 ∧ zm.maxLen = 16

/-- A bound of UUIDs is what the field holds. -/
theorem take_of_field {field bound : List Byte} {len : Nat} (hlen : len = (bound.take 30).length)
    (hfield : field.take len = bound.take 30) (h16 : len = 16) : field.take 16 = bound ∧ bound.length = 16 := by
  have hbound : bound.length = 16 := by
    rw [List.length_take] at hlen
    omega
  rw [List.take_of_length_le (by omega : bound.length ≤ 30)] at hfield
  rw [h16] at hfield
  exact ⟨hfield, hbound⟩

section Described
variable {zm : ZoneMap} {col : DecodedColumn} {row : Nat} {v : SqlValue} (h : zm.Describes col)
  (hrow : row < col.rowCount) (hnull : col.isNullAt row = false) (hv : col.storedValue? row = some v)
include h hrow hnull hv

/-- The fields of numbers bound the values that the loads are of. -/
theorem ZoneMap.Describes.boundsNumber {st : ScalarType} (hst : scalarTypeOf col.kind = some st) :
    zm.BoundsValue col.type v := by
  obtain ⟨hsize, hpos⟩ := scalarTypeOf_size hst
  obtain ⟨bs, hbs, -, hvalue⟩ := DecodedColumn.element?_of_storedValue? hsize hpos (Option.isSome_of_eq_some hv)
  obtain rfl := Option.some.inj (hv.symm.trans hvalue)
  obtain ⟨hmin, hmax⟩ := h.numbers st hst row hrow hnull bs hbs
  have hle := scalarTypeOf_size_le hst
  have hlen := DecodedColumn.element?_length hbs
  -- a load sees the bytes of its size alone
  have hload : ∀ buf : List Byte, st.load (buf.take st.size) = st.load buf := by
    intro buf
    rw [ScalarType.load, ScalarType.load, List.take_take, Nat.min_self]
  have hnotString : isStringType col.type.kind = false := (numeric_kind hst).1
  have htoNat : (moTypeFixedSize col.type.kind).toNat = st.size := by
    rw [show moTypeFixedSize col.type.kind = st.size from hsize, Int.toNat_natCast]
  rw [ZoneMap.BoundsValue, hnotString, if_neg Bool.false_ne_true, htoNat]
  constructor
  · apply orderKey_le_of_scalarLe hst (zm.minBuf_take_length hle) hlen
    rw [hload]
    exact hmin
  · apply orderKey_le_of_scalarLe hst hlen (zm.maxBuf_take_length hle)
    rw [hload]
    exact hmax

theorem ZoneMap.Describes.boundsString (hstr : isStringType col.kind = true) : zm.BoundsValue col.type v := by
  obtain ⟨slot, s, hslot, hs, hvalue⟩ :=
    DecodedColumn.slot?_of_storedValue? hstr (Option.isSome_of_eq_some hv)
  obtain rfl := Option.some.inj (hv.symm.trans hvalue)
  have hbytes : col.bytes? row = some s := by
    rw [DecodedColumn.bytes?, if_pos hstr, hslot]
    exact hs
  obtain ⟨lo, hi, hzm, hlo, hhi⟩ := h.bytes (Or.inl hstr) row hrow hnull s hbytes
  rw [ZoneMap.BoundsValue, show isStringType col.type.kind = true from hstr, if_pos rfl]
  exact ⟨lo, hi, s, hzm, rfl, hlo, hhi⟩

theorem ZoneMap.Describes.boundsUuid (huuid : col.kind = .uuid) (hwhole : zm.FieldsWhole col.kind) :
    zm.BoundsValue col.type v := by
  have hsize : moTypeFixedSize col.kind = (16 : Nat) := by
    rw [huuid]
    rfl
  have hnotString : isStringType col.kind = false := by
    rw [huuid]
    rfl
  obtain ⟨bs, hbs, -, hvalue⟩ :=
    DecodedColumn.element?_of_storedValue? hsize (by decide) (Option.isSome_of_eq_some hv)
  obtain rfl := Option.some.inj (hv.symm.trans hvalue)
  have hbytes : col.bytes? row = some bs := by
    rw [DecodedColumn.bytes?, hnotString, if_neg Bool.false_ne_true]
    exact hbs
  obtain ⟨lo, hi, hzm, hlo, hhi⟩ := h.bytes (Or.inr huuid) row hrow hnull bs hbytes
  obtain ⟨hminLen, hmaxLen⟩ := hwhole huuid
  have hlen := DecodedColumn.element?_length hbs
  obtain ⟨hmin, hloLen⟩ := take_of_field hzm.minLen_eq hzm.min_eq hminLen
  obtain ⟨hmax, hhiLen⟩ := take_of_field hzm.maxLen_eq hzm.max_eq hmaxLen
  have htoNat : (moTypeFixedSize col.type.kind).toNat = 16 := by
    rw [show moTypeFixedSize col.type.kind = (16 : Nat) from hsize, Int.toNat_natCast]
  rw [ZoneMap.BoundsValue, show isStringType col.type.kind = false from hnotString, if_neg Bool.false_ne_true,
    htoNat, hmin, hmax]
  exact ⟨orderKey_le_of_uuid huuid hloLen hlen hlo, orderKey_le_of_uuid huuid hlen hhiLen hhi⟩

/-- A zone map that describes a column bounds its non-NULL values. -/
theorem ZoneMap.Describes.boundsValue (hcompared : col.kind.IsCompared) (hwhole : zm.FieldsWhole col.kind) :
    zm.BoundsValue col.type v := by
  obtain hnumber | hstr | huuid := hcompared
  · obtain ⟨st, hst⟩ := Option.isSome_iff_exists.mp hnumber
    exact h.boundsNumber hrow hnull hv hst
  · exact h.boundsString hrow hnull hv hstr
  · exact h.boundsUuid hrow hnull hv huuid hwhole

end Described

end TaeScanner
