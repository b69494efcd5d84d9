/-
  TaeScanner.Filter.RowFilterSpec

  The row filter computes the SQL predicate.  A pushed filter stands for the
  predicate on the values its constants encode (`PushedFilter.predicate`); on a
  FLAT column of an ordered type, comparing stored bytes with encoded bytes
  decides it: numbers and dates through typed loads, UUIDs through `memcmp`,
  strings through `memcmp` and the lengths.
-/

import TaeScanner.Filter.RowFilter
import TaeScanner.Lib.Checks

namespace TaeScanner

open Lib

-- ============================================================================
-- The predicate of a filter
-- ============================================================================

/-- The types whose stored elements the filters order: all but floats, arrays,
    and the types the filters do not dispatch on. -/
def MOTypeOid.isOrdered : MOTypeOid → Bool
  | .bool | .int8 | .int16 | .int32 | .int64 | .uint8 | .uint16 | .uint32 | .uint64
  | .date | .time | .datetime | .timestamp | .decimal64 | .decimal128 | .uuid
  | .char | .varchar | .text | .json | .datalink | .blob | .binary | .varbinary => true
  | _ => false

/-- The value a constant encodes. -/
def EncodedConstant.value (e : EncodedConstant) (t : MOType) : SqlValue :=
  if isStringType t.kind then .bytes e.bytes else t.fixedValue e.bytes

/-- A constant in the stored format of the type. -/
structure EncodedConstant.WellFormed (e : EncodedConstant) (t : MOType) : Prop where
  fixed : isStringType t.kind = false →
    (e.bytes.length : Int) = moTypeFixedSize t.kind ∧ t.validBytes e.bytes = true
  string : isStringType t.kind = true → e.len = e.bytes.length

/-- The predicate a filter stands for on a column of the type. -/
def PushedFilter.predicate (pf : PushedFilter) (t : MOType) : Predicate :=
  match pf.op with
  | .equal => .compare .eq (pf.constant.value t)
  | .notEqual => .compare .ne (pf.constant.value t)
  | .greaterThan => .compare .gt (pf.constant.value t)
  | .greaterThanOrEqual => .compare .ge (pf.constant.value t)
  | .lessThan => .compare .lt (pf.constant.value t)
  | .lessThanOrEqual => .compare .le (pf.constant.value t)
  | .isNull => .isNull
  | .isNotNull => .isNotNull
  | .inSet => .isIn (pf.inValues.map (·.value t))

/-- A filter of the column's type, its constants in stored format. -/
structure PushedFilter.WellFormed (pf : PushedFilter) (t : MOType) : Prop where
  oid : pf.moTypeOid = t.oid
  constant : pf.op ≠ .isNull → pf.op ≠ .isNotNull → pf.op ≠ .inSet → pf.constant.WellFormed t
  inValues : pf.op = .inSet → ∀ e ∈ pf.inValues, e.WellFormed t

theorem PushedFilter.WellFormed.kind_eq {pf : PushedFilter} {t : MOType} (h : pf.WellFormed t) :
    pf.kind = t.kind := by
  rw [PushedFilter.kind, MOType.kind, h.oid]

-- ============================================================================
-- Fixed-width elements
-- ============================================================================

section Fixed
variable {t : MOType} {a b : List Byte}

theorem scalarTypeOf_of_isOrdered (hord : t.kind.isOrdered = true)
    (hstr : isStringType t.kind = false) (huuid : t.kind ≠ .uuid) :
    ∃ st, scalarTypeOf t.kind = some st := by
  cases hk : t.kind <;> simp [hk, MOTypeOid.isOrdered, isStringType, scalarTypeOf] at hord hstr huuid ⊢

/-- The order of two loaded scalars is the order of the values they denote. -/
theorem fixedValue_compare (hord : t.kind.isOrdered = true) {st : ScalarType}
    (hst : scalarTypeOf t.kind = some st) (ha : a.length = st.size) (hb : b.length = st.size)
    (hva : t.validBytes a = true) (hvb : t.validBytes b = true) :
    ∃ x y, st.load a = some x ∧ st.load b = some y ∧
      (t.fixedValue a).compare? (t.fixedValue b) = some (compare x y) := by
  have hla : a.take st.size = a := List.take_of_length_le (by omega)
  have hlb : b.take st.size = b := List.take_of_length_le (by omega)
  unfold ScalarType.load
  rw [hla, hlb]
  unfold MOType.validBytes at hva hvb
  unfold MOType.fixedValue
  have hsub : ∀ x y z : Int, compare (x - z) (y - z) = compare x y := by
    intro x y z
    simp only [compare, compareOfLessAndEq]
    simp
  have hcast : ∀ m n : Nat, compare (m : Int) (n : Int) = compare m n := by
    intro m n
    simp [compare, compareOfLessAndEq]
  cases hk : t.kind <;>
    simp only [hk, MOTypeOid.isOrdered, scalarTypeOf, Option.some.injEq, reduceCtorEq,
      Bool.false_eq_true] at hord hst hva hvb <;> subst hst
  case bool =>
    refine ⟨_, _, rfl, rfl, ?_⟩
    have ha1 : leNat a ≤ 1 := of_decide_eq_true hva
    have hb1 : leNat b ≤ 1 := of_decide_eq_true hvb
    rw [hcast]
    rcases (by omega : leNat a = 0 ∨ leNat a = 1) with h | h <;>
      rcases (by omega : leNat b = 0 ∨ leNat b = 1) with h' | h' <;> rw [h, h'] <;> rfl
  case decimal64 => exact ⟨_, _, rfl, rfl, congrArg some (compareDecimal_self_scale ..)⟩
  case decimal128 => exact ⟨_, _, rfl, rfl, congrArg some (compareDecimal_self_scale ..)⟩
  all_goals
    first
    | exact ⟨_, _, rfl, rfl, rfl⟩
    | exact ⟨_, _, rfl, rfl, congrArg some (hsub ..)⟩

/-- `memcmp` on stored UUIDs is the order of the integers DuckDB holds. -/
theorem uuid_compare (hk : t.kind = .uuid) (ha : a.length = 16) (hb : b.length = 16) :
    (t.fixedValue a).compare? (t.fixedValue b) = some (memcmp a b 16) := by
  unfold MOType.fixedValue
  rw [hk]
  show some (compare (uuidFromBlob a) (uuidFromBlob b)) = _
  rw [memcmp_eq_compare_beNat ha hb]
  unfold uuidFromBlob
  simp [compare, compareOfLessAndEq]

/-- Loading an ordered type forgets nothing. -/
theorem load_inj (hord : t.kind.isOrdered = true) {st : ScalarType}
    (hst : scalarTypeOf t.kind = some st) (ha : a.length = st.size) (hb : b.length = st.size) :
    st.load a = st.load b ↔ a = b := by
  have hint : (∃ n, st = .int n) ∨ ∃ n, st = .uint n := by
    cases hk : t.kind <;>
      simp only [hk, MOTypeOid.isOrdered, scalarTypeOf, Option.some.injEq, reduceCtorEq,
        Bool.false_eq_true] at hord hst <;>
      subst hst <;>
      first
      | exact Or.inl ⟨_, rfl⟩
      | exact Or.inr ⟨_, rfl⟩
  unfold ScalarType.load
  rw [List.take_of_length_le (by omega), List.take_of_length_le (by omega)]
  refine ⟨fun h => ?_, fun h => by rw [h]⟩
  rcases hint with ⟨n, rfl⟩ | ⟨n, rfl⟩
  · exact leInt_inj (by omega) (Option.some.inj h)
  · exact leNat_inj (by omega) (Int.ofNat_inj.mp (Option.some.inj h))

/-- An ordered type has no NaN. -/
theorem load_isSome (hord : t.kind.isOrdered = true) {st : ScalarType}
    (hst : scalarTypeOf t.kind = some st) (bs : List Byte) : ∃ x, st.load bs = some x := by
  cases hk : t.kind <;>
    simp only [hk, MOTypeOid.isOrdered, scalarTypeOf, Option.some.injEq, reduceCtorEq,
      Bool.false_eq_true] at hord hst <;>
    subst hst <;> exact ⟨_, rfl⟩

/-- Two stored elements denote equal values iff their bytes are equal. -/
theorem fixedValue_eq_iff (hord : t.kind.isOrdered = true) (hstr : isStringType t.kind = false)
    (ha : (a.length : Int) = moTypeFixedSize t.kind) (hb : (b.length : Int) = moTypeFixedSize t.kind)
    (hva : t.validBytes a = true) (hvb : t.validBytes b = true) :
    (t.fixedValue a).compare? (t.fixedValue b) = some .eq ↔ a = b := by
  by_cases huuid : t.kind = .uuid
  · rw [huuid] at ha hb
    have ha16 : a.length = 16 := Int.ofNat_inj.mp ha
    have hb16 : b.length = 16 := Int.ofNat_inj.mp hb
    rw [uuid_compare huuid ha16 hb16, Option.some.injEq, memcmp_full_eq_iff ha16 hb16]
  · obtain ⟨st, hst⟩ := scalarTypeOf_of_isOrdered hord hstr huuid
    obtain ⟨hsize, hpos⟩ := scalarTypeOf_size hst
    obtain ⟨x, y, hx, hy, hxy⟩ := fixedValue_compare hord hst (by omega) (by omega) hva hvb
    rw [hxy, Option.some.injEq, compare_eq_iff_eq, ← load_inj hord hst (by omega) (by omega), hx, hy,
      Option.some.injEq]

end Fixed

-- ============================================================================
-- Strings
-- ============================================================================

section Strings
variable {col : DecodedColumn} {v : Varlena} {s : List Byte}

/-- A slot that refers to a string is compared as that string. -/
theorem filterString?_of_stored? (h : v.stored? col.area = some s) :
    ∃ str, col.filterString? v = some (str, s.length) ∧ s.length ≤ str.length ∧
      str.take s.length = s := by
  rw [Varlena.stored?] at h
  rw [DecodedColumn.filterString?]
  split at h
  · next hin =>
      obtain rfl := Option.some.inj h
      have hlen := Varlena.inlineData_length hin
      refine ⟨v.data.drop 1, by rw [if_pos hin, hlen], ?_, ?_⟩
      · rw [Varlena.inlineData, List.length_take]
        exact Nat.min_le_right ..
      · rw [hlen]
        rfl
  · next hin =>
      split at h
      · obtain ⟨hle, rfl⟩ := slice?_eq_some.mp h
        have hlen : ((col.area.drop v.bigOffset).take v.bigLength).length = v.bigLength := by
          rw [List.length_take, List.length_drop]
          omega
        have hwrap : wrapAdd 32 v.bigOffset v.bigLength ≤ col.area.length :=
          Nat.le_trans (Nat.mod_le ..) hle
        refine ⟨col.area.drop v.bigOffset, by rw [if_neg hin, if_pos hwrap, hlen], ?_, ?_⟩
        · rw [List.length_take]
          exact Nat.min_le_right ..
        · rw [hlen]
      · cases h

/-- Common prefix, then lengths: the lexicographic order. -/
theorem tieByLength_memcmp (c : List Byte) {str : List Byte} (hle : s.length ≤ str.length)
    (htake : str.take s.length = s) :
    (memcmp? str c (min s.length c.length)).map (fun cmp => tieByLength cmp s.length c.length)
      = some (compareOfLessAndEq s c) := by
  have hmin : min s.length c.length ≤ s.length := Nat.min_le_left ..
  rw [memcmp?, if_pos (by omega), Option.map_some, ← memcmp_take_left str c hmin, htake,
    ← strCompare_eq_compare, strCompare, tieByLength]
  congr 1
  cases memcmp s c (min s.length c.length) with
  | lt => rfl
  | gt => rfl
  | eq =>
      simp only [true_and, Nat.compare_eq_ite_lt]
      rcases Nat.lt_trichotomy s.length c.length with h | h | h
      · simp [h, Nat.ne_of_lt h]
      · simp [h]
      · simp [h, Nat.ne_of_gt h, Nat.lt_asymm h]

/-- The test of an IN set: equal lengths and equal bytes. -/
theorem inSet_memcmp {str : List Byte} (hle : s.length ≤ str.length)
    (htake : str.take s.length = s) {e : EncodedConstant} (hlen : e.len = e.bytes.length) :
    (if e.len = s.length then (memcmp? str e.bytes s.length).map (· == .eq) else some false)
      = some (decide (compareOfLessAndEq s e.bytes = .eq)) := by
  simp only [compareOfLessAndEq_eq_iff]
  by_cases heq : e.len = s.length
  · have hiff : memcmp s e.bytes s.length = .eq ↔ s = e.bytes := memcmp_full_eq_iff rfl (by omega)
    rw [if_pos heq, memcmp?, if_pos hle, ← memcmp_take_left str e.bytes (Nat.le_refl s.length),
      htake, Option.map_some]
    congr 1
    rw [Bool.eq_iff_iff, beq_iff_eq, hiff, decide_eq_true_iff]
  · have hne : s ≠ e.bytes := by
      rintro rfl
      exact heq hlen
    simp [heq, hne]

end Strings

-- ============================================================================
-- One row
-- ============================================================================

section Row
variable {col : DecodedColumn} {pf : PushedFilter} {row : Nat} {v : SqlValue}

/-- The constant of a filter on strings is its bytes. -/
theorem EncodedConstant.value_string {e : EncodedConstant} {t : MOType}
    (hstr : isStringType t.kind = true) : e.value t = .bytes e.bytes := if_pos hstr

theorem EncodedConstant.value_fixed {e : EncodedConstant} {t : MOType}
    (hstr : isStringType t.kind = false) : e.value t = t.fixedValue e.bytes :=
  if_neg (Bool.eq_false_iff.mp hstr)

/-- A string row is compared by the lexicographic order. -/
theorem rowCompare_string (hstr : isStringType col.kind = true) (hkind : pf.kind = col.kind)
    (hconst : pf.constant.WellFormed col.type) (hval : col.storedValue? row = some v) :
    ∃ o, v.compare? (pf.constant.value col.type) = some o ∧
      rowCompare pf col row = some (pf.op.ofOrdering o) := by
  obtain ⟨slot, s, hslot, hs, hv⟩ := DecodedColumn.slot?_of_storedValue? hstr (by rw [hval]; rfl)
  obtain ⟨str, hfs, hle, htake⟩ := filterString?_of_stored? hs
  obtain rfl : v = .bytes s := Option.some.inj (hval.symm.trans hv)
  have hcmp := tieByLength_memcmp pf.constant.bytes hle htake
  obtain ⟨cmp, hcmp', htie⟩ := Option.map_eq_some_iff.mp hcmp
  refine ⟨compareOfLessAndEq s pf.constant.bytes, by rw [EncodedConstant.value_string hstr]; rfl, ?_⟩
  rw [rowCompare]
  simp only [hkind, hstr, if_true, hslot, hfs, hconst.string hstr, hcmp', Option.map_some, htie]

/-- A fixed-width row is compared by the order of its values. -/
theorem rowCompare_fixed (hord : col.kind.isOrdered = true) (hstr : isStringType col.kind = false)
    (hkind : pf.kind = col.kind) (hconst : pf.constant.WellFormed col.type)
    (hval : col.storedValue? row = some v) :
    ∃ o, v.compare? (pf.constant.value col.type) = some o ∧
      rowCompare pf col row = some (pf.op.ofOrdering o) := by
  have hsome : (col.storedValue? row).isSome := by rw [hval]; rfl
  obtain ⟨hclen, hcvalid⟩ := hconst.fixed hstr
  rw [EncodedConstant.value_fixed hstr]
  rw [rowCompare]
  rw [hkind, hstr, if_neg Bool.false_ne_true]
  by_cases huuid : col.kind = .uuid
  · have hsize : moTypeFixedSize col.kind = (16 : Nat) := by rw [huuid]; rfl
    obtain ⟨bs, hbs, hvalid, hv⟩ := DecodedColumn.element?_of_storedValue? hsize (by decide) hsome
    obtain rfl : v = col.type.fixedValue bs := Option.some.inj (hval.symm.trans hv)
    have hclen' : pf.constant.bytes.length = 16 := by
      have h : (pf.constant.bytes.length : Int) = moTypeFixedSize col.kind := hclen
      omega
    refine ⟨memcmp bs pf.constant.bytes 16, ?_, ?_⟩
    · exact uuid_compare huuid (DecodedColumn.element?_length hbs) hclen'
    · rw [if_neg (by omega), huuid]
      simp only [hbs, Option.map_some]
  · obtain ⟨st, hst⟩ : ∃ st, scalarTypeOf col.type.kind = some st :=
      scalarTypeOf_of_isOrdered hord hstr huuid
    obtain ⟨hsize, hpos⟩ := scalarTypeOf_size hst
    obtain ⟨bs, hbs, hvalid, hv⟩ := DecodedColumn.element?_of_storedValue? hsize hpos hsome
    obtain rfl : v = col.type.fixedValue bs := Option.some.inj (hval.symm.trans hv)
    obtain ⟨x, y, hx, hy, hxy⟩ := fixedValue_compare hord hst (DecodedColumn.element?_length hbs)
      (by omega) hvalid hcvalid
    refine ⟨compare x y, hxy, ?_⟩
    have hneg : ¬ moTypeFixedSize col.kind ≤ 0 := by
      have h : moTypeFixedSize col.kind = st.size := hsize
      omega
    rw [if_neg hneg]
    split
    · next h => exact absurd h huuid
    · rw [show scalarTypeOf col.kind = some st from hst]
      simp only [hbs, Option.map_some, hx, hy, compareScalar_some]

/-- The order between a stored value and a constant, as the comparison branch
    finds it. -/
theorem rowCompare_spec (hord : col.kind.isOrdered = true) (hkind : pf.kind = col.kind)
    (hconst : pf.constant.WellFormed col.type) (hval : col.storedValue? row = some v) :
    ∃ o, v.compare? (pf.constant.value col.type) = some o ∧
      rowCompare pf col row = some (pf.op.ofOrdering o) := by
  cases hstr : isStringType col.kind with
  | true => exact rowCompare_string hstr hkind hconst hval
  | false => exact rowCompare_fixed hord hstr hkind hconst hval

/-- A hit of a fixed-width IN test is equality of the bytes. -/
theorem inHit_eq (hord : col.kind.isOrdered = true) (hstr : isStringType col.kind = false)
    {a cp : List Byte} {size : Nat} (hsize : moTypeFixedSize col.kind = size)
    (ha : col.element? size row = some a) (hcp : cp.length = size) :
    col.inHit col.kind row cp = some (decide (a = cp)) := by
  have halen := DecodedColumn.element?_length ha
  -- the three ways the source tests for a hit
  have hbyte : moTypeFixedSize col.kind = (1 : Nat) →
      (col.element? 1 row).map (fun rowPtr => rowPtr == cp.take 1) = some (decide (a = cp)) := by
    intro h1
    obtain rfl : size = 1 := by omega
    rw [ha, Option.map_some, List.take_of_length_le (by omega), Bool.beq_eq_decide_eq]
  have hmem : moTypeFixedSize col.kind = (16 : Nat) →
      (col.element? 16 row).map (fun rowPtr => memcmp rowPtr cp 16 == .eq)
        = some (decide (a = cp)) := by
    intro h16
    obtain rfl : size = 16 := by omega
    have hiff : memcmp a cp 16 = .eq ↔ a = cp := memcmp_full_eq_iff halen hcp
    rw [ha, Option.map_some, Bool.beq_eq_decide_eq]
    exact congrArg some (decide_eq_decide.mpr hiff)
  have hscalar : ∀ st, scalarTypeOf col.type.kind = some st →
      (col.element? st.size row).map (fun rowPtr => scalarEq (st.load rowPtr) (st.load cp))
        = some (decide (a = cp)) := by
    intro st hst
    have hsz : (st.size : Int) = moTypeFixedSize col.kind := (scalarTypeOf_size hst).1.symm
    obtain rfl : size = st.size := by omega
    obtain ⟨x, hx⟩ := load_isSome hord hst a
    obtain ⟨y, hy⟩ := load_isSome hord hst cp
    have hinj : st.load a = st.load cp ↔ a = cp := load_inj hord hst halen hcp
    rw [hx, hy, Option.some.injEq] at hinj
    rw [ha, Option.map_some, hx, hy]
    exact congrArg some (decide_eq_decide.mpr hinj)
  unfold DecodedColumn.inHit
  split
  · next hk => exact hbyte (by rw [hk]; rfl)
  · next hk => exact hbyte (by rw [hk]; rfl)
  · next hk => exact hbyte (by rw [hk]; rfl)
  · next hk => exact hmem (by rw [hk]; rfl)
  · next hk => exact hmem (by rw [hk]; rfl)
  · next _ _ _ _ huuid =>
      obtain ⟨st, hst⟩ : ∃ st, scalarTypeOf col.type.kind = some st :=
        scalarTypeOf_of_isOrdered hord hstr huuid
      rw [show scalarTypeOf col.kind = some st from hst]
      exact hscalar st hst

theorem rowInSet_string (hstr : isStringType col.kind = true) (hkind : pf.kind = col.kind)
    (hconsts : ∀ e ∈ pf.inValues, e.WellFormed col.type) (hval : col.storedValue? row = some v) :
    rowInSet pf col row
      = some (pf.inValues.any fun e => decide (v.compare? (e.value col.type) = some .eq)) := by
  obtain ⟨slot, s, hslot, hs, hv⟩ := DecodedColumn.slot?_of_storedValue? hstr (by rw [hval]; rfl)
  obtain ⟨str, hfs, hle, htake⟩ := filterString?_of_stored? hs
  obtain rfl : v = .bytes s := Option.some.inj (hval.symm.trans hv)
  rw [rowInSet]
  simp only [hkind, hstr, if_true, hslot, hfs]
  refine anyM_of_some fun e he => ?_
  rw [inSet_memcmp hle htake ((hconsts e he).string hstr), EncodedConstant.value_string hstr]
  simp [SqlValue.compare?]

theorem rowInSet_fixed (hord : col.kind.isOrdered = true) (hstr : isStringType col.kind = false)
    (hkind : pf.kind = col.kind) (hconsts : ∀ e ∈ pf.inValues, e.WellFormed col.type)
    (hval : col.storedValue? row = some v) :
    rowInSet pf col row
      = some (pf.inValues.any fun e => decide (v.compare? (e.value col.type) = some .eq)) := by
  obtain ⟨size, hsize, hpos⟩ : ∃ size : Nat, moTypeFixedSize col.kind = size ∧ 0 < size := by
    by_cases huuid : col.kind = .uuid
    · exact ⟨16, by rw [huuid]; rfl, by decide⟩
    · obtain ⟨st, hst⟩ : ∃ st, scalarTypeOf col.type.kind = some st :=
        scalarTypeOf_of_isOrdered hord hstr huuid
      exact ⟨st.size, scalarTypeOf_size hst⟩
  obtain ⟨bs, hbs, hvalid, hv⟩ :=
    DecodedColumn.element?_of_storedValue? hsize hpos (by rw [hval]; rfl)
  obtain rfl : v = col.type.fixedValue bs := Option.some.inj (hval.symm.trans hv)
  have hbslen : (bs.length : Int) = moTypeFixedSize col.type.kind := by
    rw [DecodedColumn.element?_length hbs]
    exact hsize.symm
  rw [rowInSet, hkind, hstr, if_neg Bool.false_ne_true, if_neg (by omega)]
  refine anyM_of_some fun e he => ?_
  obtain ⟨hlen, hevalid⟩ := (hconsts e he).fixed hstr
  have hlen' : (e.bytes.length : Int) = moTypeFixedSize col.kind := hlen
  have hiff := fixedValue_eq_iff hord hstr hbslen hlen hvalid hevalid
  rw [inHit_eq hord hstr hsize hbs (by omega), EncodedConstant.value_fixed hstr]
  exact congrArg some (decide_eq_decide.mpr hiff.symm)

/-- The IN branch holds iff the stored value equals one of the constants. -/
theorem rowInSet_spec (hord : col.kind.isOrdered = true) (hkind : pf.kind = col.kind)
    (hconsts : ∀ e ∈ pf.inValues, e.WellFormed col.type) (hval : col.storedValue? row = some v) :
    rowInSet pf col row
      = some (pf.inValues.any fun e => decide (v.compare? (e.value col.type) = some .eq)) := by
  cases hstr : isStringType col.kind with
  | true => exact rowInSet_string hstr hkind hconsts hval
  | false => exact rowInSet_fixed hord hstr hkind hconsts hval

end Row

-- ============================================================================
-- The filter engine against SQL
-- ============================================================================

/-- A FLAT column of an ordered type with a well-formed element for every row. -/
structure FilterableColumn (col : DecodedColumn) : Prop where
  flat : col.vecClass = 0
  ordered : col.kind.isOrdered = true
  elements : ∀ r, r < col.rowCount → (col.storedValue? r).isSome

/-- The predicate of the filter is TRUE on the cell of the row. -/
def PushedFilter.holdsOn (pf : PushedFilter) (col : DecodedColumn) (row : Nat) : Bool :=
  match col.cell? row with
  | some cell => decide ((pf.predicate col.type).eval cell = some true)
  | none => false

/-- The rows of a window on which all predicates are TRUE, by position. -/
def sqlRows (filters : List PushedFilter) (cols : List DecodedColumn) (rowCount srcOffset : Nat) :
    List Nat :=
  (List.range rowCount).filter fun row =>
    filters.all fun pf => (cols[pf.colIdx]?).all fun col => pf.holdsOn col (srcOffset + row)

/-- On a value, every comparison filter asks the order it finds. -/
theorem predicate_eval_compare {pf : PushedFilter} {t : MOType} {v : SqlValue} {o : Ordering}
    (hnull : pf.op ≠ .isNull) (hnotNull : pf.op ≠ .isNotNull) (hin : pf.op ≠ .inSet)
    (ho : v.compare? (pf.constant.value t) = some o) :
    (pf.predicate t).eval (some v) = some (pf.op.ofOrdering o) := by
  unfold PushedFilter.predicate FilterOp.ofOrdering
  cases hop : pf.op <;> simp only [hop, ne_eq, not_true_eq_false] at hnull hnotNull hin <;>
    (simp only [Predicate.eval, SqlValue.test, ho, Option.map_some]; rfl)

theorem rowPassesFilter_spec {pf : PushedFilter} {col : DecodedColumn} {row : Nat}
    (hcol : FilterableColumn col) (hpf : pf.WellFormed col.type) (hrow : row < col.rowCount) :
    rowPassesFilter pf col row = some (pf.holdsOn col row) := by
  have hnull : col.filterNull row = col.isNullAt row := by
    rw [DecodedColumn.filterNull, decide_eq_true hrow, Bool.true_and]
  have hkind : pf.kind = col.kind := hpf.kind_eq
  obtain ⟨v, hv⟩ := Option.isSome_iff_exists.mp (hcol.elements row hrow)
  rw [rowPassesFilter, PushedFilter.holdsOn, DecodedColumn.cell?]
  rw [hnull, hv]
  cases hbit : col.isNullAt row with
  | true =>
      rw [PushedFilter.predicate]
      cases pf.op <;> rfl
  | false =>
      simp only [Bool.false_eq_true, if_false, Option.map_some]
      split
      · next hop => simp [PushedFilter.predicate, hop, Predicate.eval]
      · next hop => simp [PushedFilter.predicate, hop, Predicate.eval]
      · next hop =>
          rw [rowInSet_spec hcol.ordered hkind (hpf.inValues hop) hv, Option.some.injEq,
            Bool.eq_iff_iff, List.any_eq_true, decide_eq_true_iff, PushedFilter.predicate, hop,
            Predicate.isIn_true]
          simp [SqlValue.test, CompareOp.holds]
      · next h₁ h₂ h₃ =>
          obtain ⟨o, ho, hrow⟩ := rowCompare_spec hcol.ordered hkind (hpf.constant h₁ h₂ h₃) hv
          rw [hrow, predicate_eval_compare h₁ h₂ h₃ ho]
          simp

/-- The kept positions are the rows all predicates hold on. -/
theorem passingRows_spec {filters : List PushedFilter} {cols : List DecodedColumn}
    {rowCount srcOffset : Nat}
    (hfilters : ∀ pf ∈ filters, ∃ col, cols[pf.colIdx]? = some col ∧ FilterableColumn col ∧
      pf.WellFormed col.type ∧ srcOffset + rowCount ≤ col.rowCount) :
    passingRows filters cols rowCount srcOffset = some (sqlRows filters cols rowCount srcOffset) := by
  refine filterM_of_some fun row hrow => ?_
  have hlt : row < rowCount := List.mem_range.mp hrow
  refine allM_of_some fun pf hpf => ?_
  obtain ⟨col, hcol, hflat, hwf, hwin⟩ := hfilters pf hpf
  rw [hcol, Option.all_some]
  exact rowPassesFilter_spec hflat hwf (by omega)

/-- Compaction leaves the kept rows, in order. -/
theorem applyRowFilters_of_passing {filters : List PushedFilter} {cols : List DecodedColumn}
    {output : DataChunk} {rowCount srcOffset : Nat} {sel : List Nat}
    (hcard : output.cardinality = rowCount)
    (hsel : passingRows filters cols rowCount srcOffset = some sel) :
    ∃ out, applyRowFilters filters cols output rowCount srcOffset = some (out, sel.length) ∧
      out.rows = sel.map output.row := by
  obtain ⟨-, hfilter⟩ := filterM_eq_some.mp hsel
  rw [applyRowFilters]
  by_cases hnil : filters = []
  · have hall : sel = List.range rowCount := by
      rw [hfilter, List.filter_eq_self, hnil]
      intro row _
      rfl
    rw [if_pos hnil, hall, List.length_range]
    exact ⟨output, rfl, by rw [DataChunk.rows, hcard]⟩
  · rw [if_neg hnil, hsel, Option.map_some]
    by_cases hlen : sel.length = rowCount
    · have hall : sel = List.range rowCount := by
        rw [hfilter]
        apply List.filter_eq_self.mpr
        apply List.length_filter_eq_length_iff.mp
        rw [← hfilter, hlen, List.length_range]
      rw [if_pos hlen, hlen]
      exact ⟨output, rfl, by rw [DataChunk.rows, hcard, hall]⟩
    · rw [if_neg hlen]
      by_cases hzero : sel.length = 0
      · rw [if_pos hzero, hzero]
        exact ⟨_, rfl, by rw [List.length_eq_zero_iff.mp hzero]; rfl⟩
      · rw [if_neg hzero]
        exact ⟨_, rfl, DataChunk.slice_rows output sel⟩

/-- The row filter engine computes the SQL predicate: on FLAT columns of ordered
    types, a filter answers TRUE exactly on the rows whose value satisfies its
    predicate, and the output keeps, in order, exactly the rows of the window on
    which all filters are TRUE. -/
theorem rowFilters_compute_sql {filters : List PushedFilter} {cols : List DecodedColumn}
    {output : DataChunk} {rowCount srcOffset : Nat} (hcard : output.cardinality = rowCount)
    (hfilters : ∀ pf ∈ filters, ∃ col, cols[pf.colIdx]? = some col ∧ FilterableColumn col ∧
      pf.WellFormed col.type ∧ srcOffset + rowCount ≤ col.rowCount) :
    (∀ pf ∈ filters, ∀ col, cols[pf.colIdx]? = some col → ∀ row, row < col.rowCount →
      ∃ cell, col.cell? row = some cell ∧
        rowPassesFilter pf col row = some (decide ((pf.predicate col.type).eval cell = some true))) ∧
    ∃ out, applyRowFilters filters cols output rowCount srcOffset
        = some (out, (sqlRows filters cols rowCount srcOffset).length) ∧
      out.rows = (sqlRows filters cols rowCount srcOffset).map output.row := by
  refine ⟨fun pf hpf col hcol row hrow => ?_, ?_⟩
  · obtain ⟨col', hcol', hflat, hwf, -⟩ := hfilters pf hpf
    obtain rfl : col' = col := Option.some.inj (hcol'.symm.trans hcol)
    obtain ⟨cell, hcell⟩ : ∃ cell, col'.cell? row = some cell := by
      rw [DecodedColumn.cell?]
      split
      · exact ⟨_, rfl⟩
      · obtain ⟨v, hv⟩ := Option.isSome_iff_exists.mp (hflat.elements row hrow)
        exact ⟨some v, by rw [hv]; rfl⟩
    refine ⟨cell, hcell, ?_⟩
    rw [rowPassesFilter_spec hflat hwf hrow, PushedFilter.holdsOn, hcell]
  · exact applyRowFilters_of_passing hcard (passingRows_spec hfilters)

/-- `x >= 5` on the `int32` column 1, 7, NULL. -/
def int32Column : DecodedColumn :=
  { type := { oid := 22 }, rowCount := 3, nullBitmap := [4], nullCount := 1,
    data := leBytes 4 1 ++ leBytes 4 7 ++ leBytes 4 0 }

def atLeastFive : PushedFilter :=
  { colIdx := 0, seqnum := 0, moTypeOid := 22, op := .greaterThanOrEqual, constant := ⟨leBytes 4 5, 4⟩ }

theorem int32Column_filterable :
    FilterableColumn int32Column ∧ atLeastFive.WellFormed int32Column.type := by
  refine ⟨⟨rfl, rfl, fun r hr => ?_⟩, rfl, fun _ _ _ => ?_, fun h => absurd h (by decide)⟩
  · have hr' : r < 3 := hr
    rcases (by omega : r = 0 ∨ r = 1 ∨ r = 2) with rfl | rfl | rfl <;> decide
  · exact ⟨fun _ => ⟨by decide, by decide⟩, fun h => absurd h (by decide)⟩

/-- Only the row holding 7 is kept. -/
theorem atLeastFive_keeps :
    sqlRows [atLeastFive] [int32Column] 3 0 = [1] ∧
      ∃ out, applyRowFilters [atLeastFive] [int32Column] ⟨[{ type := .integer }], 3⟩ 3 0
          = some (out, (sqlRows [atLeastFive] [int32Column] 3 0).length) ∧
        out.rows = (sqlRows [atLeastFive] [int32Column] 3 0).map
          (DataChunk.row ⟨[{ type := .integer }], 3⟩) := by
  refine ⟨by decide, (rowFilters_compute_sql rfl ?_).2⟩
  intro pf hpf
  obtain rfl := List.mem_singleton.mp hpf
  exact ⟨int32Column, rfl, int32Column_filterable.1, int32Column_filterable.2, by decide⟩

end TaeScanner
