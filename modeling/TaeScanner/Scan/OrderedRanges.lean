/-
  TaeScanner.Scan.OrderedRanges

  What the zone maps say to a row limit.

    * a zone map that describes the order column gives a range, of which the sort key
      is one end; all values of the block lie in it;
    * when the ranges of the units in front of a dropped one end before its own range
      begins, and no filter rejects their rows, dropping it is harmless;
    * in general it depends on how many values of the front come before those that
      are dropped.
-/

import TaeScanner.Scan.DescribedRanges
import TaeScanner.Scan.ReturnedCells

namespace TaeScanner

open Lib

/-- The keys of both ends of a zone map. -/
def ScanOrderInfo.range? (order : ScanOrderInfo) (col : OrderColumn) (zm : ZoneMap) :
    Option (OrderKey × OrderKey) :=
  ({ order with useMinStat := true }.keyOf col zm).bind fun lo =>
    ({ order with useMinStat := false }.keyOf col zm).map fun hi : SqlValue => (lo.orderKey, hi.orderKey)

/-- The first range ends before the second begins, in the direction of the query.  Those
    of numbers may touch, the cut ends of strings may not. -/
def ScanOrderInfo.RangeFirst (order : ScanOrderInfo) (r r' : OrderKey × OrderKey) : Prop :=
  if order.ascending then r.2 < r'.1 ∨ order.isString = false ∧ r.2 = r'.1
  else r'.2 < r.1 ∨ order.isString = false ∧ r'.2 = r.1

-- ============================================================================
-- Ranges and values
-- ============================================================================

section Ranges
variable {order : ScanOrderInfo} {col : OrderColumn} {t t' : MOType} {zm zm' : ZoneMap} {r r' : OrderKey × OrderKey}
  {v d : SqlValue}

/-- The range of a string column: the cuts that its fields hold. -/
theorem range?_string (hstr : order.isString = true) :
    order.range? col zm = some ((SqlValue.bytes (zm.minBuf.take zm.minLen)).orderKey,
      (SqlValue.bytes (zm.maxBuf.take zm.maxLen)).orderKey) := by
  simp only [ScanOrderInfo.range?, ScanOrderInfo.keyOf, hstr, if_true, Bool.false_eq_true, if_false, Option.bind_some,
    Option.map_some, zoneMapBytesToString]

/-- The range of any other column: the values of its fields. -/
theorem range?_fixed (hkind : t.kind = col.moOid) (hstr : order.isString = false) (h : order.range? col zm = some r) :
    r = ((t.fixedValue (zm.minBuf.take (moTypeFixedSize t.kind).toNat)).orderKey,
      (t.fixedValue (zm.maxBuf.take (moTypeFixedSize t.kind).toNat)).orderKey) := by
  simp only [ScanOrderInfo.range?, ScanOrderInfo.keyOf, hstr, if_true, Bool.false_eq_true, if_false, ← hkind,
    Option.bind_eq_some_iff, Option.map_eq_some_iff] at h
  obtain ⟨lo, hlo, hi, hhi, rfl⟩ := h
  rw [zoneMapBytesToValue_orderKey hlo, zoneMapBytesToValue_orderKey hhi]

section Typed
variable (hkind : t.kind = col.moOid) (hkind' : t'.kind = col.moOid)
  (hisString : order.isString = isStringType col.moOid)
include hkind hisString

/-- The values of numbers lie in the range. -/
theorem bounds_of_range? (hstr : order.isString = false) (hv : zm.BoundsValue t v)
    (hr : order.range? col zm = some r) : r.1 ≤ v.orderKey ∧ v.orderKey ≤ r.2 := by
  rw [ZoneMap.BoundsValue, hkind, ← hisString, hstr, if_neg Bool.false_ne_true, ← hkind] at hv
  rw [range?_fixed hkind hstr hr]
  exact hv

include hkind' in
/-- The values of a block whose range lies below another one lie below its values. -/
theorem lt_of_ranges_apart (hv : zm.BoundsValue t v) (hd : zm'.BoundsValue t' d)
    (hr : order.range? col zm = some r) (hr' : order.range? col zm' = some r') (hlt : r.2 < r'.1) :
    v.orderKey < d.orderKey := by
  cases hstr : order.isString with
  | false =>
      have hhi := (bounds_of_range? hkind hisString hstr hv hr).2
      have hlo := (bounds_of_range? hkind' hisString hstr hd hr').1
      exact lt_of_le_of_lt hhi (lt_of_lt_of_le hlt hlo)
  | true =>
      rw [ZoneMap.BoundsValue, hkind, ← hisString, hstr, if_pos rfl] at hv
      rw [ZoneMap.BoundsValue, hkind', ← hisString, hstr, if_pos rfl] at hd
      obtain ⟨lo, hi, s, hzm, rfl, hlo, hhi⟩ := hv
      obtain ⟨lo', hi', s', hzm', rfl, hlo', hhi'⟩ := hd
      rw [range?_string hstr] at hr hr'
      rw [← Option.some.inj hr, ← Option.some.inj hr', hzm.max_eq, hzm'.min_eq, SqlValue.bytes_lt_iff] at hlt
      rw [SqlValue.bytes_lt_iff]
      apply List.not_le.mp
      intro hle
      -- cutting the bounds would keep their order
      have hbounds : lo' ≤ hi := List.le_trans hlo' (List.le_trans hle hhi)
      exact List.not_le.mpr hlt (take_le_take 30 hbounds)

include hkind' in
/-- The same of ranges in the direction of the query, with ends of numbers that touch. -/
theorem comesFirst_of_rangeFirst (hv : zm.BoundsValue t v) (hd : zm'.BoundsValue t' d)
    (hr : order.range? col zm = some r) (hr' : order.range? col zm' = some r') (hfirst : order.RangeFirst r r') :
    order.ComesFirst v.orderKey d.orderKey := by
  rw [ScanOrderInfo.RangeFirst] at hfirst
  rw [ScanOrderInfo.ComesFirst]
  split
  · next hasc =>
      rw [if_pos hasc] at hfirst
      obtain hlt | ⟨hstr, heq⟩ := hfirst
      · exact le_of_lt (lt_of_ranges_apart hkind hkind' hisString hv hd hr hr' hlt)
      · have hhi := (bounds_of_range? hkind hisString hstr hv hr).2
        have hlo := (bounds_of_range? hkind' hisString hstr hd hr').1
        exact hhi.trans (heq ▸ hlo)
  · next hdesc =>
      rw [if_neg hdesc] at hfirst
      obtain hlt | ⟨hstr, heq⟩ := hfirst
      · exact le_of_lt (lt_of_ranges_apart hkind' hkind hisString hd hv hr' hr hlt)
      · have hhi := (bounds_of_range? hkind' hisString hstr hd hr').2
        have hlo := (bounds_of_range? hkind hisString hstr hv hr).1
        exact hhi.trans (heq ▸ hlo)

/-- A block with a value has a range. -/
theorem range_le (hv : zm.BoundsValue t v) (hr : order.range? col zm = some r) : r.1 ≤ r.2 := by
  rw [ZoneMap.BoundsValue, hkind] at hv
  cases hstr : isStringType col.moOid with
  | false =>
      rw [hstr, if_neg Bool.false_ne_true, ← hkind] at hv
      rw [range?_fixed hkind (hisString.trans hstr) hr]
      exact le_trans hv.1 hv.2
  | true =>
      rw [hstr, if_pos rfl] at hv
      obtain ⟨lo, hi, s, hzm, -, hlo, hhi⟩ := hv
      rw [range?_string (hisString.trans hstr)] at hr
      rw [← Option.some.inj hr, hzm.min_eq, hzm.max_eq, SqlValue.bytes_le_iff]
      exact take_le_take 30 (List.le_trans hlo hhi)

end Typed

/-- A zone map of a compared type has a range. -/
theorem range?_isSome (zm : ZoneMap) (hcompared : col.moOid.IsCompared)
    (hisString : order.isString = isStringType col.moOid) : ∃ r, order.range? col zm = some r := by
  cases hstr : isStringType col.moOid with
  | true => exact ⟨_, range?_string (hisString.trans hstr)⟩
  | false =>
      have hvalue : ∀ ptr, ∃ v, zoneMapBytesToValue ptr col.moOid col.colType = some v := by
        intro ptr
        obtain hnumber | hstr' | huuid := hcompared
        · unfold zoneMapBytesToValue
          cases hoid : col.moOid <;> rw [hoid] at hnumber <;>
            first
            | exact ⟨_, rfl⟩
            | exact absurd hnumber Bool.false_ne_true
        · rw [hstr'] at hstr
          cases hstr
        · rw [huuid]
          exact ⟨_, rfl⟩
      obtain ⟨lo, hlo⟩ := hvalue zm.minBuf
      obtain ⟨hi, hhi⟩ := hvalue zm.maxBuf
      simp only [ScanOrderInfo.range?, ScanOrderInfo.keyOf, hisString.trans hstr, if_true, Bool.false_eq_true,
        if_false, hlo, hhi, Option.bind_some, Option.map_some]
      exact ⟨_, rfl⟩

/-- The sort key is one end of the range. -/
theorem keyOf_of_range? (h : order.range? col zm = some r) :
    ∃ key, order.keyOf col zm = some key ∧ key.orderKey = if order.useMinStat then r.1 else r.2 := by
  obtain ⟨lo, hlo, h⟩ := Option.bind_eq_some_iff.mp h
  obtain ⟨hi, hhi, rfl⟩ := Option.map_eq_some_iff.mp h
  cases hmin : order.useMinStat with
  | true => exact ⟨lo, by rw [← hlo, ScanOrderInfo.keyOf, ScanOrderInfo.keyOf, hmin], rfl⟩
  | false => exact ⟨hi, by rw [← hhi, ScanOrderInfo.keyOf, ScanOrderInfo.keyOf, hmin], rfl⟩

/-- Ranges that do not meet stand in the order of their keys, whichever end these are. -/
theorem rangeFirst_of_apart (hle : r.1 ≤ r.2) (hle' : r'.1 ≤ r'.2) (hapart : r.2 < r'.1 ∨ r'.2 < r.1)
    (hkeys : order.ComesFirst (if order.useMinStat then r.1 else r.2) (if order.useMinStat then r'.1 else r'.2)) :
    order.RangeFirst r r' := by
  -- both ends of the lower range are below those of the upper one
  have hends : ∀ {p q : OrderKey × OrderKey}, p.1 ≤ p.2 → q.1 ≤ q.2 → p.2 < q.1 →
      (if order.useMinStat then p.1 else p.2) < if order.useMinStat then q.1 else q.2 := by
    intro p q hp hq hpq
    split
    · exact lt_of_le_of_lt hp hpq
    · exact lt_of_lt_of_le hpq hq
  rw [ScanOrderInfo.ComesFirst] at hkeys
  rw [ScanOrderInfo.RangeFirst]
  split
  · next hasc =>
      rw [if_pos hasc] at hkeys
      exact Or.inl (hapart.resolve_right fun hlt => absurd hkeys (not_le_of_gt (hends hle' hle hlt)))
  · next hdesc =>
      rw [if_neg hdesc] at hkeys
      exact Or.inl (hapart.resolve_left fun hlt => absurd hkeys (not_le_of_gt (hends hle hle' hlt)))

end Ranges

-- ============================================================================
-- The answer of the query
-- ============================================================================

/-- The order-column values a scan of a unit delivers, NULLs left out. -/
def ScanPlan.orderValues (plan : ScanPlan) (storage : Storage) (col : OrderColumn) (wu : WorkUnit) :
    List OrderKey :=
  match plan.unitBlock storage wu with
  | some (some blk) =>
      (plan.unitRows storage wu).filterMap fun row =>
        ((blk.cols[plan.readSeqnums.idxOf col.seqnum]?).bind fun c => c.rowCell row).map (·.orderKey)
  | _ => []

/-- The range of a unit's block. -/
def unitRange? (storage : Storage) (order : ScanOrderInfo) (col : OrderColumn) (wu : WorkUnit) :
    Option (OrderKey × OrderKey) :=
  (unitZoneMap? storage col wu).bind (order.range? col)

/-- The zone maps of the units bound the order column that the scan reads of them, which
    has no NULLs. -/
structure ScanPlan.OrderBounded (plan : ScanPlan) (storage : Storage) (order : ScanOrderInfo) (col : OrderColumn) :
    Prop where
  compared : col.moOid.IsCompared
  isString_eq : order.isString = isStringType col.moOid
  zoneMap : ∀ {wu blk c}, wu ∈ plan.workUnits → plan.unitBlock storage wu = some (some blk) →
    blk.cols[plan.readSeqnums.idxOf col.seqnum]? = some c →
      c.kind = col.moOid ∧ blk.totalRows ≤ c.rowCount ∧ (∀ row, row < c.rowCount → c.isNullAt row = false) ∧
        ∃ zm, unitZoneMap? storage col wu = some zm ∧ zm.FieldsWhole col.moOid ∧ zm.Describes c

/-- When a unit with a value can be dropped, no filter rejects a row of the units that
    can stand in its front, and the ranges of these end before its own begins. -/
def ScanPlan.RangesApart (plan : ScanPlan) (storage : Storage) (order : ScanOrderInfo) (col : OrderColumn) : Prop :=
  ∀ wu ∈ plan.workUnits, plan.orderValues storage col wu ≠ [] →
    order.rowLimit ≤ ((notBehind (UnitLe storage order col) wu plan.workUnits).map (rawRows storage)).sum →
      ∀ w ∈ notBehind (UnitLe storage order col) wu plan.workUnits,
        (plan.orderValues storage col w).length = rawRows storage w ∧
          ∀ r r', unitRange? storage order col w = some r → unitRange? storage order col wu = some r' →
            order.RangeFirst r r'

/-- A row that shows a value shows that of its element. -/
theorem DecodedColumn.storedValue?_of_rowCell {c : DecodedColumn} {row : Nat} {v : SqlValue}
    (h : c.rowCell row = some v) : c.storedValue? (c.elementRow row) = some v := by
  rw [rowCell] at h
  rw [elementRow]
  split at h
  · next hclass =>
      rw [if_pos hclass]
      exact (Option.ite_none_left_eq_some.mp h).2
  · next hclass =>
      rw [if_neg hclass]
      exact (Option.ite_none_left_eq_some.mp h).2

section RowLimit
variable {plan : ScanPlan} {storage : Storage} {order : ScanOrderInfo} {col : OrderColumn}

/-- A value that a unit delivers lies in the bounds of its zone map. -/
theorem ScanPlan.OrderBounded.boundsValue (h : plan.OrderBounded storage order col) {wu : WorkUnit}
    (hwu : wu ∈ plan.workUnits) {x : OrderKey} (hx : x ∈ plan.orderValues storage col wu) :
    ∃ zm t v, unitZoneMap? storage col wu = some zm ∧ t.kind = col.moOid ∧ zm.BoundsValue t v ∧
      v.orderKey = x := by
  rw [orderValues] at hx
  split at hx
  · next blk hblk =>
      obtain ⟨row, hrow, hx⟩ := List.mem_filterMap.mp hx
      obtain ⟨v, hv, rfl⟩ := Option.map_eq_some_iff.mp hx
      obtain ⟨c, hc, hv⟩ := Option.bind_eq_some_iff.mp hv
      obtain ⟨hkind, hrows, hnotNull, zm, hzm, hwhole, hdescribes⟩ := h.zoneMap hwu hblk hc
      rw [unitRows, hblk] at hrow
      have hlt : c.elementRow row < c.rowCount := by
        have hwindow := (mem_passingFrom.mp hrow).1.2
        rw [DecodedColumn.elementRow]
        split <;> omega
      have hbounds := hdescribes.boundsValue hlt (hnotNull _ hlt) (DecodedColumn.storedValue?_of_rowCell hv)
        (hkind ▸ h.compared) (hkind ▸ hwhole)
      exact ⟨zm, c.type, v, hzm, hkind, hbounds, rfl⟩
  · exact absurd hx List.not_mem_nil

/-- Blocks that lie apart have fronts that suffice. -/
theorem ScanPlan.OrderBounded.frontsSuffice (h : plan.OrderBounded storage order col)
    (hapart : plan.RangesApart storage order col) :
    FrontsSuffice storage order col (plan.orderValues storage col) plan.workUnits := by
  apply frontsSuffice_of_apart
  intro wu hwu hlimit w hw d hd
  obtain ⟨hall, hranges⟩ := hapart wu hwu (List.ne_nil_of_mem hd) hlimit w hw
  refine ⟨hall, fun x hx => ?_⟩
  have hwMem : w ∈ plan.workUnits := List.mem_of_mem_erase (List.mem_filter.mp hw).1
  obtain ⟨zm, t, v, hzm, hkind, hv, rfl⟩ := h.boundsValue hwMem hx
  obtain ⟨zm', t', v', hzm', hkind', hv', rfl⟩ := h.boundsValue hwu hd
  obtain ⟨r, hr⟩ := range?_isSome zm h.compared h.isString_eq
  obtain ⟨r', hr'⟩ := range?_isSome zm' h.compared h.isString_eq
  have hfirst := hranges r r' (by rw [unitRange?, hzm]; exact hr) (by rw [unitRange?, hzm']; exact hr')
  exact comesFirst_of_rangeFirst hkind hkind' h.isString_eq hv hv' hr hr' hfirst

end RowLimit

-- ============================================================================
-- Blocks apart, and blocks that overlap
-- ============================================================================

/-- Blocks that hold 3 and 100, and 1 and 2. -/
def apartBlocks : Storage where
  readMeta := fun _ => some ⟨[{ rows := 2, columns := [{ zoneMap := int32ZoneMap 3 100 }] },
    { rows := 2, columns := [{ zoneMap := int32ZoneMap 1 2 }] }]⟩
  readBlock := fun _ blk seqnums =>
    some (seqnums.map fun _ => if blk = 0 then byteColumn [3, 100] else byteColumn [1, 2])
  readBlock_length := by
    intro _ _ seqnums cols h
    rw [← Option.some.inj h, List.length_map]

theorem byteColumn_pair_described {lo hi : Byte} (hlo : leInt [lo, 0, 0, 0] ≤ leInt [hi, 0, 0, 0]) :
    (int32ZoneMap lo hi).Describes (byteColumn [lo, hi]) :=
  ⟨byteColumn_pair_bounds hlo, fun hbytes => hbytes.elim (fun h => by cases h) fun h => by cases h⟩

end TaeScanner
