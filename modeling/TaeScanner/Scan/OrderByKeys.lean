/-
  TaeScanner.Scan.OrderByKeys

  Building the sort keys of ORDER BY pushdown.  The key of a string column is a
  VARCHAR value made of a zone map field, and making one throws when the bytes are
  not valid UTF-8; nothing around it catches the exception.

    * the branch with its exceptions is `orderUnits?`; when it returns, it returns
      what `orderUnits` says;
    * a field holds the first 30 bytes of a value, so the key of a long value can be
      made iff the cut falls in front of a character.
-/

import TaeScanner.Filter.StringZoneMap
import TaeScanner.Lib.Utf8
import TaeScanner.Scan.OrderBySpec

namespace TaeScanner

open Lib

-- ============================================================================
-- The branch with its exceptions
-- ============================================================================

/-- `duckdb::Value(std::string)`; `none` is an exception. -/
def stringValue? (s : List Byte) : Option SqlValue := if IsUtf8 s then some (.bytes s) else none

/-- The sort key of a zone map; `none` is an exception, `some none` the NULL key. -/
def ScanOrderInfo.keyOf? (order : ScanOrderInfo) (col : OrderColumn) (zm : ZoneMap) :
    Option (Option SqlValue) :=
  if order.useMinStat then
    if order.isString then (stringValue? (zoneMapBytesToString zm.minBuf zm.minLen)).map some
    else some (zoneMapBytesToValue zm.minBuf col.moOid col.colType)
  else
    if order.isString then (stringValue? (zoneMapBytesToString zm.maxBuf zm.maxLen)).map some
    else some (zoneMapBytesToValue zm.maxBuf col.moOid col.colType)

/-- One iteration of the loop that reads the keys. -/
def sortableUnit? (storage : Storage) (order : ScanOrderInfo) (col : OrderColumn) (wu : WorkUnit) :
    Option SortableUnit :=
  (storage.readMeta wu.objectIdx).bind fun md =>
    match md.getZoneMap wu.blockIdx col.seqnum with
    | none => some ⟨wu, md, none⟩
    | some zm => (order.keyOf? col zm).map fun key => ⟨wu, md, key⟩

/-- The ORDER BY pushdown of `TAEScanInit` on a column of the table. -/
def orderUnits? (std : StdSort) (storage : Storage) (order : ScanOrderInfo) (col : OrderColumn)
    (units : List WorkUnit) : Option (List WorkUnit) :=
  (units.mapM (sortableUnit? storage order col)).map fun sortable =>
    let sorted := std.sort order.sortsBefore sortable
    let kept := if 0 < order.rowLimit then truncateUnits order.rowLimit 0 sorted else sorted
    kept.map (·.unit)

section Agrees
variable {std : StdSort} {storage : Storage} {order : ScanOrderInfo} {col : OrderColumn}

theorem keyOf_of_keyOf? {zm : ZoneMap} {key : Option SqlValue} (h : order.keyOf? col zm = some key) :
    order.keyOf col zm = key := by
  -- either field of the zone map
  have hfield : ∀ {s : List Byte} {v : Option SqlValue},
      (if order.isString then (stringValue? s).map some else some v) = some key →
        (if order.isString then some (.bytes s) else v) = key := by
    intro s v hs
    split at hs
    · rw [if_pos ‹_›]
      obtain ⟨w, hw, rfl⟩ := Option.map_eq_some_iff.mp hs
      exact (Option.ite_none_right_eq_some.mp hw).2
    · rw [if_neg ‹_›]
      exact Option.some.inj hs
  rw [ScanOrderInfo.keyOf?] at h
  rw [ScanOrderInfo.keyOf]
  split at h
  · rw [if_pos ‹_›]
    exact hfield h
  · rw [if_neg ‹_›]
    exact hfield h

theorem sortableUnit_of_sortableUnit? {wu : WorkUnit} {su : SortableUnit}
    (h : sortableUnit? storage order col wu = some su) : sortableUnit storage order col wu = some su := by
  obtain ⟨md, hmd, h⟩ := Option.bind_eq_some_iff.mp h
  rw [sortableUnit, hmd, Option.map_some]
  cases hzm : md.getZoneMap wu.blockIdx col.seqnum with
  | none =>
      rw [hzm] at h
      exact h
  | some zm =>
      rw [hzm] at h
      obtain ⟨key, hkey, rfl⟩ := Option.map_eq_some_iff.mp h
      rw [Option.bind_some, keyOf_of_keyOf? hkey]

/-- A pushdown that does not throw returns the units of `orderUnits`. -/
theorem orderUnits_of_orderUnits? {units kept : List WorkUnit}
    (h : orderUnits? std storage order col units = some kept) :
    orderUnits std storage order col units = some kept := by
  obtain ⟨sortable, hsortable, rfl⟩ := Option.map_eq_some_iff.mp h
  have hplain : units.mapM (sortableUnit storage order col) = some sortable :=
    mapM_eq_some.mpr ((mapM_eq_some.mp hsortable).imp fun _ _ => sortableUnit_of_sortableUnit?)
  rw [orderUnits, hplain, Option.map_some]

end Agrees

-- ============================================================================
-- The keys of string columns
-- ============================================================================

/-- The fields hold the first 30 bytes of the two values. -/
structure ZoneMap.HoldsCut (zm : ZoneMap) (lo hi : List Byte) : Prop where
  min_eq : zoneMapBytesToString zm.minBuf zm.minLen = lo.take zmMinLen
  max_eq : zoneMapBytesToString zm.maxBuf zm.maxLen = hi.take zmMaxLen

theorem ZoneMap.Summarises.holdsCut {zm : ZoneMap} {lo hi : List Byte} (h : zm.Summarises lo hi) :
    zm.HoldsCut lo hi := ⟨h.min_eq, h.max_eq⟩

/-- The value is short, or its 31st byte starts a character. -/
def CutsCleanly (s : List Byte) : Prop :=
  s.length ≤ zmMinLen ∨ ∃ b, s[zmMinLen]? = some b ∧ StartsChar b

section Keys
variable {std : StdSort} {storage : Storage} {order : ScanOrderInfo} {col : OrderColumn}

theorem stringValue?_isSome {s : List Byte} : (stringValue? s).isSome ↔ IsUtf8 s := by
  rw [stringValue?]
  split
  · next h => exact iff_of_true rfl h
  · next h => exact iff_of_false Bool.false_ne_true h

/-- The key of a zone map of valid strings. -/
theorem keyOf?_isSome_iff (horder : order.isString = true) {zm : ZoneMap} {lo hi : List Byte}
    (hzm : zm.HoldsCut lo hi) (hlo : IsUtf8 lo) (hhi : IsUtf8 hi) :
    (order.keyOf? col zm).isSome ↔ CutsCleanly (if order.useMinStat then lo else hi) := by
  rw [ScanOrderInfo.keyOf?, CutsCleanly]
  simp only [if_pos horder]
  split
  · rw [Option.isSome_map, stringValue?_isSome, hzm.min_eq]
    exact isUtf8_take_iff hlo
  · rw [Option.isSome_map, stringValue?_isSome, hzm.max_eq]
    exact isUtf8_take_iff hhi

theorem sortableUnit?_isSome_iff {wu : WorkUnit} (hmd : (storage.readMeta wu.objectIdx).isSome) :
    (sortableUnit? storage order col wu).isSome ↔
      ∀ zm, unitZoneMap? storage col wu = some zm → (order.keyOf? col zm).isSome := by
  obtain ⟨md, hmd⟩ := Option.isSome_iff_exists.mp hmd
  rw [sortableUnit?, unitZoneMap?, hmd, Option.bind_some, Option.bind_some]
  cases hzm : md.getZoneMap wu.blockIdx col.seqnum with
  | none => exact iff_of_true rfl fun zm h => by cases h
  | some zm =>
      rw [Option.isSome_map]
      exact ⟨fun h zm' hzm' => Option.some.inj hzm' ▸ h, fun h => h zm rfl⟩

/-- Over the blocks of a string column, whose values are valid, the pushdown throws no
    exception iff the bound that each key is made of is cut in front of a character. -/
theorem orderUnits?_isSome_iff (std : StdSort) (storage : Storage) (order : ScanOrderInfo)
    (col : OrderColumn) (units : List WorkUnit) (lo hi : WorkUnit → List Byte)
    (horder : order.isString = true)
    (hmeta : ∀ wu ∈ units, (storage.readMeta wu.objectIdx).isSome)
    (hvalid : ∀ wu ∈ units, IsUtf8 (lo wu) ∧ IsUtf8 (hi wu))
    (hcut : ∀ wu ∈ units, ∀ zm, unitZoneMap? storage col wu = some zm → zm.HoldsCut (lo wu) (hi wu)) :
    (orderUnits? std storage order col units).isSome ↔
      ∀ wu ∈ units, (unitZoneMap? storage col wu).isSome →
        CutsCleanly (if order.useMinStat then lo wu else hi wu) := by
  rw [orderUnits?, Option.isSome_map, mapM_isSome_iff]
  apply forall₂_congr
  intro wu hwu
  rw [sortableUnit?_isSome_iff (hmeta wu hwu)]
  cases hzm : unitZoneMap? storage col wu with
  | none => exact iff_of_true (fun zm h => by cases h) fun h => by cases h
  | some zm =>
      have hkey : (order.keyOf? col zm).isSome ↔ CutsCleanly _ :=
        keyOf?_isSome_iff horder (hcut wu hwu zm hzm) (hvalid wu hwu).1 (hvalid wu hwu).2
      rw [← hkey]
      exact ⟨fun h _ => h zm rfl, fun h zm' hzm' => Option.some.inj hzm' ▸ h rfl⟩

end Keys

-- ============================================================================
-- A cut inside a character
-- ============================================================================

/-- One block of one VARCHAR value, with the zone map given. -/
def stringStorage (value : List Byte) (zm : ZoneMap) : Storage where
  readMeta := fun _ => some ⟨[{ rows := 1, columns := [{ zoneMap := zm }] }]⟩
  readBlock := fun _ _ seqnums => some (seqnums.map fun _ =>
    { type := { oid := 61 }, rowCount := 1, area := value,
      data := leBytes 4 varlenaBigMarker ++ leBytes 4 0 ++ leBytes 4 value.length ++ List.replicate 12 0 })
  readBlock_length := by
    intro _ _ seqnums cols h
    rw [← Option.some.inj h, List.length_map]

def sColumn : OrderColumn := ⟨0, .varchar, .varchar⟩

/-- `ORDER BY s`, sorted by the min or by the max. -/
def orderByString (ascending useMinStat : Bool) (rowLimit : Nat) : ScanOrderInfo :=
  { columnIdx := 0, ascending, useMinStat, isString := true, rowLimit }

/-- The two bytes of one character. -/
def shortValue : List Byte := [0xC3, 0xA9]

def shortValueZoneMap : ZoneMap where
  data := [0xC3, 0xA9] ++ List.replicate 28 0 ++ [2] ++ [0xC3, 0xA9] ++ List.replicate 28 0 ++ [2, 0x80, 61]
  length_eq := rfl

/-- The same character behind 29 others. -/
def longValue : List Byte := List.replicate 29 97 ++ [0xC3, 0xA9]

def longValueZoneMap : ZoneMap where
  data := List.replicate 29 97 ++ [0xC3, 30] ++ List.replicate 29 97 ++ [0xC3, 0x9E, 0x80, 61]
  length_eq := rfl

theorem shortValue_isUtf8 : IsUtf8 shortValue := ⟨['é'], by decide +kernel⟩

theorem longValue_isUtf8 : IsUtf8 longValue := ⟨List.replicate 29 'a' ++ ['é'], by decide +kernel⟩

/-- A short value makes a key. -/
theorem shortValue_key :
    (orderUnits? insertionStdSort (stringStorage shortValue shortValueZoneMap) (orderByString true true 1)
      sColumn [⟨0, 0⟩]).isSome := by
  have hcut : ∀ wu ∈ [(⟨0, 0⟩ : WorkUnit)], ∀ zm,
      unitZoneMap? (stringStorage shortValue shortValueZoneMap) sColumn wu = some zm →
        zm.HoldsCut shortValue shortValue := by
    intro wu hwu zm hzm
    obtain rfl := List.mem_singleton.mp hwu
    obtain rfl := Option.some.inj hzm
    exact ⟨by decide +kernel, by decide +kernel⟩
  apply (orderUnits?_isSome_iff insertionStdSort _ _ sColumn [⟨0, 0⟩] (fun _ => shortValue)
    (fun _ => shortValue) rfl (fun _ _ => rfl) (fun _ _ => ⟨shortValue_isUtf8, shortValue_isUtf8⟩) hcut).mpr
  exact fun _ _ _ => Or.inl (by decide)

/-- The cut of a long value is half a character, and the scan fails to start. -/
theorem longValue_throws : IsUtf8 longValue ∧ longValueZoneMap.HoldsCut longValue longValue ∧
    ∀ (std : StdSort) (ascending useMinStat : Bool) (rowLimit : Nat),
      orderUnits? std (stringStorage longValue longValueZoneMap)
        (orderByString ascending useMinStat rowLimit) sColumn [⟨0, 0⟩] = none := by
  have hcut : longValueZoneMap.HoldsCut longValue longValue := ⟨by decide +kernel, by decide +kernel⟩
  refine ⟨longValue_isUtf8, hcut, fun std ascending useMinStat rowLimit => ?_⟩
  have hunclean : ¬CutsCleanly longValue := by
    rintro (hlen | ⟨b, hb, hstarts⟩)
    · exact absurd hlen (by decide)
    · obtain rfl : 0xA9 = b := Option.some.inj hb
      exact not_startsChar_of_continuation rfl hstarts
  have hkey : ((orderByString ascending useMinStat rowLimit).keyOf? sColumn longValueZoneMap).isSome =
      false := by
    rw [Bool.eq_false_iff, Ne, keyOf?_isSome_iff rfl hcut longValue_isUtf8 longValue_isUtf8, ite_self]
    exact hunclean
  rw [← Option.not_isSome_iff_eq_none, orderUnits?, Option.isSome_map, mapM_isSome_iff]
  intro hall
  have hunit := (sortableUnit?_isSome_iff rfl).mp (hall ⟨0, 0⟩ (List.mem_singleton_self _))
    longValueZoneMap rfl
  rw [hkey] at hunit
  cases hunit

end TaeScanner
