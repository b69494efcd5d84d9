/-
  TaeScanner.Filter.StringZoneMap

  Zone maps of strings.  The min and the max field hold the first 30 bytes of a
  lower and of an upper bound, and only a cut of the max is recorded.

    * cutting a lower bound leaves a lower bound, so the two tests against the
      min field are exact for the field and sound for the bound;
    * the two tests against the max field give a truncated max the benefit of
      the doubt, so they are sound too;
    * the test for `<>` compares the fields as if they were the bounds, which
      is wrong exactly when the constant is what is left of a cut max.
-/

import Mathlib.Data.Multiset.ZeroCons
import TaeScanner.Filter.ZoneMap

namespace TaeScanner

open Lib

/-- Bytes of the min and of the max value field. -/
def zmMinLen : Nat := 30
def zmMaxLen : Nat := 30

/-- The initialised zone map the layout prescribes for strings from `lo` to `hi`;
    the rest of the two fields is arbitrary. -/
structure ZoneMap.Summarises (zm : ZoneMap) (lo hi : List Byte) : Prop where
  inited : zm.isInited = true
  minLen_eq : zm.minLen = (lo.take zmMinLen).length
  min_eq : zm.minBuf.take zm.minLen = lo.take zmMinLen
  maxLen_eq : zm.maxLen = (hi.take zmMaxLen).length
  max_eq : zm.maxBuf.take zm.maxLen = hi.take zmMaxLen
  truncated_eq : zm.maxTruncated = decide (zmMaxLen < hi.length)

-- ============================================================================
-- The four one-sided tests
-- ============================================================================

section Tests
variable {zm : ZoneMap} {lo hi key : List Byte}

/-- Comparing a field is comparing the bytes it holds. -/
theorem memcmp_field {buf field : List Byte} {len : Nat} (hlen : len = field.length)
    (hfield : buf.take len = field) :
    memcmp buf key (min len key.length) = memcmp field key (min field.length key.length) := by
  rw [← memcmp_take_left buf key (Nat.min_le_left len key.length), hfield, hlen]

theorem ZoneMap.Summarises.anyLTString_iff (h : zm.Summarises lo hi) :
    zm.anyLTString key key.length = true ↔ lo.take zmMinLen < key := by
  rw [← compareOfLessAndEq_eq_lt, ← strCompare_eq_compare, ZoneMap.anyLTString,
    memcmp_field h.minLen_eq h.min_eq, strCompare, h.minLen_eq]
  cases memcmp (lo.take zmMinLen) key (min (lo.take zmMinLen).length key.length) with
  | lt => simp
  | gt => simp
  | eq => rw [decide_eq_true_eq, Nat.compare_eq_lt]

theorem ZoneMap.Summarises.anyLEString_iff (h : zm.Summarises lo hi) :
    zm.anyLEString key key.length = true ↔ lo.take zmMinLen ≤ key := by
  rw [← List.not_lt, ← compareOfLessAndEq_gt_iff, ← strCompare_eq_compare, ZoneMap.anyLEString,
    memcmp_field h.minLen_eq h.min_eq, strCompare, h.minLen_eq]
  cases memcmp (lo.take zmMinLen) key (min (lo.take zmMinLen).length key.length) with
  | lt => simp
  | gt => simp
  | eq => rw [decide_eq_true_eq, Nat.compare_eq_gt, Nat.not_lt]

/-- A max field that says less than the constant belongs to a smaller bound. -/
theorem ZoneMap.Summarises.max_lt_of_memcmp (h : zm.Summarises lo hi)
    (hlt : memcmp zm.maxBuf key (min zm.maxLen key.length) = .lt) : hi < key := by
  rw [memcmp_field h.maxLen_eq h.max_eq] at hlt
  have hshort : min (hi.take zmMaxLen).length key.length ≤ zmMaxLen := by
    rw [List.length_take]
    omega
  rw [memcmp_take_left hi key hshort] at hlt
  exact lt_of_memcmp_lt hlt

/-- A max field that is not cut and agrees with the constant as far as both go
    is ordered by the lengths. -/
theorem ZoneMap.Summarises.strCompare_max (h : zm.Summarises lo hi)
    (hcut : zm.maxTruncated = false)
    (heq : memcmp zm.maxBuf key (min zm.maxLen key.length) = .eq) :
    compareOfLessAndEq hi key = compare zm.maxLen key.length := by
  have hlen : hi.length ≤ zmMaxLen := by
    rw [h.truncated_eq, decide_eq_false_iff_not] at hcut
    omega
  have hfield : hi.take zmMaxLen = hi := List.take_of_length_le hlen
  rw [memcmp_field h.maxLen_eq h.max_eq, hfield] at heq
  rw [← strCompare_eq_compare, strCompare, heq, h.maxLen_eq, hfield]

theorem ZoneMap.Summarises.anyGTString_of_lt (h : zm.Summarises lo hi) (hlt : key < hi) :
    zm.anyGTString key key.length = true := by
  rw [ZoneMap.anyGTString]
  cases hcmp : memcmp zm.maxBuf key (min zm.maxLen key.length) with
  | gt => rfl
  | lt => exact absurd (h.max_lt_of_memcmp hcmp) (List.lt_asymm hlt)
  | eq =>
      cases hcut : zm.maxTruncated with
      | true => rfl
      | false =>
          have hlen := h.strCompare_max hcut hcmp
          rw [(compareOfLessAndEq_gt_iff hi key).mpr hlt, eq_comm, Nat.compare_eq_gt] at hlen
          simpa using hlen

theorem ZoneMap.Summarises.anyGEString_of_le (h : zm.Summarises lo hi) (hle : key ≤ hi) :
    zm.anyGEString key key.length = true := by
  rw [ZoneMap.anyGEString]
  cases hcmp : memcmp zm.maxBuf key (min zm.maxLen key.length) with
  | gt => rfl
  | lt => exact absurd (h.max_lt_of_memcmp hcmp) (List.not_lt.mpr hle)
  | eq =>
      cases hcut : zm.maxTruncated with
      | true => rfl
      | false =>
          have hlen := h.strCompare_max hcut hcmp
          have hne : compareOfLessAndEq hi key ≠ .lt := fun hlt =>
            List.not_lt.mpr hle (compareOfLessAndEq_eq_lt.mp hlt)
          rw [hlen, Ne, Nat.compare_eq_lt, Nat.not_lt] at hne
          simpa using hne

/-- The test for `<>` rejects the block iff both fields spell the constant. -/
theorem ZoneMap.Summarises.notEqual_rejects_iff (h : zm.Summarises lo hi) :
    zoneMapCheckString zm .notEqual key key.length = false ↔
      lo.take zmMinLen = key ∧ hi.take zmMaxLen = key := by
  have hfield : ∀ {buf field : List Byte} {len : Nat}, len = field.length →
      buf.take len = field → (memcmp buf key len = .eq ∧ len = key.length ↔ field = key) := by
    intro buf field len hlen hbuf
    constructor
    · rintro ⟨hcmp, hkey⟩
      rw [← memcmp_take_left buf key (Nat.le_refl len), hbuf] at hcmp
      exact (memcmp_full_eq_iff hlen.symm hkey.symm).mp hcmp
    · rintro rfl
      refine ⟨?_, hlen⟩
      rw [← memcmp_take_left buf _ (Nat.le_refl len), hbuf]
      exact (memcmp_full_eq_iff hlen.symm hlen.symm).mpr rfl
  have hmin := hfield h.minLen_eq h.min_eq
  have hmax := hfield h.maxLen_eq h.max_eq
  rw [← hmin, ← hmax, zoneMapCheckString, h.inited]
  simp only [Bool.not_true, Bool.false_eq_true, if_false]
  by_cases hlens : zm.minLen ≠ zm.maxLen ∨ zm.minLen ≠ key.length
  · simp only [hlens, if_true, Bool.true_eq_false, false_iff]
    omega
  · have hkey : zm.minLen = key.length ∧ zm.maxLen = key.length := by omega
    rw [if_neg hlens, hkey.1, hkey.2]
    simp

end Tests

-- ============================================================================
-- Soundness
-- ============================================================================

/-- Does a comparison or an IN filter select the string? -/
def PushedFilter.selects (pf : PushedFilter) (v : List Byte) : Bool :=
  match pf.op with
  | .inSet => pf.inValues.any fun e => e.bytes == v
  | op => op.ofOrdering (compareOfLessAndEq v pf.constant.bytes)

/-- What is left of the least and of the greatest value is the constant of a
    `<>`, and the greatest value was cut. -/
def PushedFilter.NotEqualOfCut (pf : PushedFilter) (lo hi : List Byte) : Prop :=
  pf.op = .notEqual ∧ lo.take zmMinLen = pf.constant.bytes ∧ hi.take zmMaxLen = pf.constant.bytes ∧
    zmMaxLen < hi.length

instance (pf : PushedFilter) (lo hi : List Byte) : Decidable (pf.NotEqualOfCut lo hi) :=
  inferInstanceAs (Decidable (_ ∧ _ ∧ _ ∧ _))

section Sound
variable {zm : ZoneMap} {lo hi v : List Byte} {pf : PushedFilter}

/-- A string between the bounds that satisfies a comparison other than `<>`
    keeps the block. -/
theorem zoneMapCheckString_sound (h : zm.Summarises lo hi) {op : FilterOp} {c : List Byte}
    (hop : op ≠ .notEqual) (hlo : lo ≤ v) (hhi : v ≤ hi)
    (hv : op.ofOrdering (compareOfLessAndEq v c) = true) :
    zoneMapCheckString zm op c c.length = true := by
  have hmin : lo.take zmMinLen ≤ v := List.le_trans (take_le lo zmMinLen) hlo
  have hlt : v < c → zm.anyLTString c c.length = true := fun hvc =>
    h.anyLTString_iff.mpr (List.lt_of_le_of_lt hmin hvc)
  have hle : v ≤ c → zm.anyLEString c c.length = true := fun hvc =>
    h.anyLEString_iff.mpr (List.le_trans hmin hvc)
  have hgt : c < v → zm.anyGTString c c.length = true := fun hvc =>
    h.anyGTString_of_lt (Std.lt_of_lt_of_le hvc hhi)
  have hge : c ≤ v → zm.anyGEString c c.length = true := fun hvc =>
    h.anyGEString_of_le (List.le_trans hvc hhi)
  unfold zoneMapCheckString
  rw [h.inited]
  simp only [Bool.not_true, Bool.false_eq_true, if_false]
  cases op <;> simp only [FilterOp.ofOrdering, beq_iff_eq, bne_iff_ne, ne_eq,
    compareOfLessAndEq_eq_iff, compareOfLessAndEq_eq_lt, compareOfLessAndEq_gt_iff, List.not_lt]
    at hv ⊢
  case equal =>
    rw [ZoneMap.containsKeyString, hge (hv ▸ List.le_refl _), hle (hv ▸ List.le_refl _)]
    rfl
  case notEqual => exact absurd rfl hop
  case greaterThan => exact hgt hv
  case greaterThanOrEqual => exact hge hv
  case lessThan => exact hlt hv
  case lessThanOrEqual => exact hle hv

/-- Where both cut bounds are the constant and the max is whole, all strings
    between them are the constant. -/
theorem eq_of_uncut_bounds {c : List Byte} (hlo : lo ≤ v) (hhi : v ≤ hi)
    (hmin : lo.take zmMinLen = c) (hmax : hi.take zmMaxLen = c) (hcut : ¬ zmMaxLen < hi.length) :
    v = c := by
  rw [List.take_of_length_le (Nat.not_lt.mp hcut)] at hmax
  have hcv : c ≤ v := hmin ▸ List.le_trans (take_le lo zmMinLen) hlo
  exact List.le_antisymm (hmax ▸ hhi) hcv

/-- String columns and UUIDs are tested as strings. -/
theorem zoneMapCheckScalar_string {oid : MOTypeOid} (hoid : isStringType oid = true ∨ oid = .uuid)
    (op : FilterOp) (e : EncodedConstant) :
    zoneMapCheckScalar zm op oid e = zoneMapCheckString zm op e.bytes e.len := by
  rcases hoid with hstr | rfl
  · exact if_pos hstr
  · rfl

/-- A selected string between the bounds keeps the block, unless the filter is a
    `<>` on the rest of a cut max. -/
theorem evalFilterOnZoneMap_string (h : zm.Summarises lo hi)
    (hoid : isStringType pf.kind = true ∨ pf.kind = .uuid)
    (hconst : pf.op ≠ .inSet → pf.constant.len = pf.constant.bytes.length)
    (hin : pf.op = .inSet → ∀ e ∈ pf.inValues, e.len = e.bytes.length) (hlo : lo ≤ v) (hhi : v ≤ hi)
    (hsel : pf.selects v = true) (hcut : ¬ pf.NotEqualOfCut lo hi) :
    evalFilterOnZoneMap pf (some zm) = true := by
  simp only [evalFilterOnZoneMap, h.inited, Bool.not_true, Bool.false_eq_true, if_false,
    zoneMapCheckScalar_string hoid]
  rw [PushedFilter.selects] at hsel
  cases hop : pf.op <;> simp only [hop] at hsel hconst hin ⊢ <;>
    try rw [hconst (by decide)]
  case inSet =>
    obtain ⟨e, he, heq⟩ := List.any_eq_true.mp hsel
    refine List.any_eq_true.mpr ⟨e, he, ?_⟩
    rw [hin trivial e he]
    refine zoneMapCheckString_sound h (by simp) hlo hhi ?_
    rw [beq_iff_eq] at heq
    simp [FilterOp.ofOrdering, (compareOfLessAndEq_eq_iff v e.bytes).mpr heq.symm]
  case notEqual =>
    rw [← Bool.not_eq_false, h.notEqual_rejects_iff]
    rintro ⟨hmin, hmax⟩
    have hwhole : ¬ zmMaxLen < hi.length := fun hlong => hcut ⟨hop, hmin, hmax, hlong⟩
    have heq : v = pf.constant.bytes := eq_of_uncut_bounds hlo hhi hmin hmax hwhole
    rw [FilterOp.ofOrdering, (compareOfLessAndEq_eq_iff v _).mpr heq] at hsel
    cases hsel
  all_goals exact zoneMapCheckString_sound h (by simp) hlo hhi hsel

end Sound

/-- String zone maps skip a block with a matching string exactly for a `<>` on
    the rest of a cut max.  The block's strings are any non-empty multiset, of
    which the zone map holds the cut least and greatest one. -/
theorem stringZoneMap_keeps_iff {zm : ZoneMap} {values : Multiset (List Byte)} {lo hi : List Byte}
    {pf : PushedFilter} (hoid : isStringType pf.kind = true ∨ pf.kind = .uuid)
    (hconst : pf.constant.len = pf.constant.bytes.length)
    (hin : ∀ e ∈ pf.inValues, e.len = e.bytes.length)
    (hlo : lo ∈ values ∧ ∀ v ∈ values, lo ≤ v) (hhi : hi ∈ values ∧ ∀ v ∈ values, v ≤ hi)
    (hzm : zm.Summarises lo hi) :
    ((∃ v ∈ values, pf.selects v = true) → evalFilterOnZoneMap pf (some zm) = true) ↔
      ¬ pf.NotEqualOfCut lo hi := by
  constructor
  · rintro hkeeps ⟨hop, hmin, hmax, hlong⟩
    -- the greatest string is longer than the constant, hence another one
    have hne : hi ≠ pf.constant.bytes := by
      rintro heq
      have hlen := congrArg List.length hmax
      rw [← heq, List.length_take] at hlen
      omega
    have hsel : pf.selects hi = true := by
      simpa [PushedFilter.selects, hop, FilterOp.ofOrdering, compareOfLessAndEq_eq_iff] using hne
    have hrejects := hzm.notEqual_rejects_iff.mpr ⟨hmin, hmax⟩
    have hkept := hkeeps ⟨hi, hhi.1, hsel⟩
    simp only [evalFilterOnZoneMap, hzm.inited, Bool.not_true, Bool.false_eq_true, if_false, hop,
      zoneMapCheckScalar_string hoid, hconst, hrejects] at hkept
  · rintro hcut ⟨v, hv, hsel⟩
    exact evalFilterOnZoneMap_string hzm hoid (fun _ => hconst) (fun _ => hin) (hlo.2 v hv) (hhi.2 v hv) hsel hcut

/-- The zone map of strings from `lo` to `hi`, the fields padded with zeros. -/
def stringZoneMap (lo hi : List Byte) : ZoneMap :=
  let minField := lo.take zmMinLen
  let maxField := hi.take zmMaxLen
  ⟨minField ++ List.replicate (zmMinLen - minField.length) 0 ++
      [BitVec.ofNat 8 minField.length] ++ maxField ++
      List.replicate (zmMaxLen - maxField.length) 0 ++
      [BitVec.ofNat 8 (maxField.length + if zmMaxLen < hi.length then 128 else 0), 0x80, 61], by
    simp only [List.length_append, List.length_replicate, List.length_cons,
      List.length_nil, minField, maxField, List.length_take, zmMinLen, zmMaxLen, zmSize]
    omega⟩

/-- 31 times the letter `x`. -/
def longString : List Byte := List.replicate 31 120

/-- `v <> 'xx…x'` for the first 30 bytes of the string. -/
def notThirty : PushedFilter :=
  { colIdx := 0, seqnum := 0, moTypeOid := 61, op := .notEqual,
    constant := ⟨List.replicate 30 120, 30⟩ }

theorem stringZoneMap_long : (stringZoneMap longString longString).Summarises longString longString :=
  ⟨by decide, by decide, by decide, by decide, by decide, by decide⟩

/-- A constant of 29 bytes is told from the long string. -/
theorem longString_kept_under_29 :
    evalFilterOnZoneMap { notThirty with constant := ⟨List.replicate 29 120, 29⟩ }
      (some (stringZoneMap longString longString)) = true := by
  have hmem : longString ∈ ({longString} : Multiset (List Byte)) := Multiset.mem_singleton_self _
  have hmin : ∀ v ∈ ({longString} : Multiset (List Byte)), longString ≤ v :=
    fun _ hv => Multiset.mem_singleton.mp hv ▸ List.le_refl _
  have hmax : ∀ v ∈ ({longString} : Multiset (List Byte)), v ≤ longString :=
    fun _ hv => Multiset.mem_singleton.mp hv ▸ List.le_refl _
  exact (stringZoneMap_keeps_iff (Or.inl rfl) rfl (fun _ he => absurd he List.not_mem_nil) ⟨hmem, hmin⟩
    ⟨hmem, hmax⟩ stringZoneMap_long).mpr (by decide) ⟨longString, hmem, by decide⟩

/-- The block that holds only the long string is skipped under `<>`, although
    the string is not the constant. -/
theorem longString_skipped :
    (stringZoneMap longString longString).Summarises longString longString ∧
      notThirty.selects longString = true ∧
      evalFilterOnZoneMap notThirty (some (stringZoneMap longString longString)) = false :=
  ⟨stringZoneMap_long, by decide, by decide⟩

end TaeScanner
