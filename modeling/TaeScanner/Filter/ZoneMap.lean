/-
  TaeScanner.Filter.ZoneMap

  Zone map evaluation for predicate pushdown: the 64-byte min/max summary of a
  column, the test whether a block or an object can hold a match, and its
  soundness for the types that are compared as numbers.

  Layout: min value in bytes 0..29, its length in the low bits of byte 30; max
  value in bytes 31..60, its length and the truncation bit in byte 61; the
  initialised bit in byte 62; the type in byte 63.
-/

import TaeScanner.Filter.RowFilterSpec

namespace TaeScanner

open Lib

def zmSize : Nat := 64

/-- A 64-byte zone map. -/
structure ZoneMap where
  data : List Byte
  length_eq : data.length = zmSize
  deriving DecidableEq

/-- A zone map of zeros, which is not initialised. -/
def ZoneMap.zero : ZoneMap := ⟨List.replicate zmSize 0, rfl⟩

namespace ZoneMap

def byteAt (zm : ZoneMap) (off : Nat) : Byte := (zm.data[off]?).getD 0

def isInited (zm : ZoneMap) : Bool := zm.byteAt 62 &&& 0x80 != 0

def minLen (zm : ZoneMap) : Nat := (zm.byteAt 30 &&& 0x1F).toNat
def maxLen (zm : ZoneMap) : Nat := (zm.byteAt 61 &&& 0x1F).toNat
def maxTruncated (zm : ZoneMap) : Bool := zm.byteAt 61 &&& 0x80 != 0

def minBuf (zm : ZoneMap) : List Byte := zm.data
def maxBuf (zm : ZoneMap) : List Byte := zm.data.drop 31

-- ============================================================================
-- Comparison functions
-- ============================================================================

def getMin (zm : ZoneMap) (st : ScalarType) : Scalar := st.load zm.minBuf
def getMax (zm : ZoneMap) (st : ScalarType) : Scalar := st.load zm.maxBuf

/-- Can this block contain values >= key?  (i.e., is max >= key?) -/
def anyGE (zm : ZoneMap) (st : ScalarType) (key : Scalar) : Bool := scalarLe key (zm.getMax st)

/-- Can this block contain values > key? -/
def anyGT (zm : ZoneMap) (st : ScalarType) (key : Scalar) : Bool := scalarLt key (zm.getMax st)

/-- Can this block contain values <= key?  (i.e., is min <= key?) -/
def anyLE (zm : ZoneMap) (st : ScalarType) (key : Scalar) : Bool := scalarLe (zm.getMin st) key

/-- Can this block contain values < key? -/
def anyLT (zm : ZoneMap) (st : ScalarType) (key : Scalar) : Bool := scalarLt (zm.getMin st) key

/-- Can this block contain the exact value key? (min <= key <= max) -/
def containsKey (zm : ZoneMap) (st : ScalarType) (key : Scalar) : Bool :=
  scalarLe (zm.getMin st) key && scalarLe key (zm.getMax st)

/-- String comparison: can block contain values >= key?  A truncated max of
    which key is an extension says nothing. -/
def anyGEString (zm : ZoneMap) (key : List Byte) (keyLen : Nat) : Bool :=
  match memcmp zm.maxBuf key (min zm.maxLen keyLen) with
  | .gt => true
  | .lt => false
  | .eq => zm.maxTruncated || decide (keyLen ≤ zm.maxLen)

/-- String comparison: can block contain values <= key? -/
def anyLEString (zm : ZoneMap) (key : List Byte) (keyLen : Nat) : Bool :=
  match memcmp zm.minBuf key (min zm.minLen keyLen) with
  | .lt => true
  | .gt => false
  | .eq => decide (zm.minLen ≤ keyLen)

/-- String comparison: can block contain values > key? -/
def anyGTString (zm : ZoneMap) (key : List Byte) (keyLen : Nat) : Bool :=
  match memcmp zm.maxBuf key (min zm.maxLen keyLen) with
  | .gt => true
  | .lt => false
  | .eq => zm.maxTruncated || decide (keyLen < zm.maxLen)

/-- String comparison: can block contain values < key? -/
def anyLTString (zm : ZoneMap) (key : List Byte) (keyLen : Nat) : Bool :=
  match memcmp zm.minBuf key (min zm.minLen keyLen) with
  | .lt => true
  | .gt => false
  | .eq => decide (zm.minLen < keyLen)

/-- String comparison: can block contain exact value? -/
def containsKeyString (zm : ZoneMap) (key : List Byte) (keyLen : Nat) : Bool :=
  zm.anyGEString key keyLen && zm.anyLEString key keyLen

end ZoneMap

-- ============================================================================
-- Predicate evaluation
-- ============================================================================

/-- `ZoneMapCheckFixed`: false only if the block definitely has no match. -/
def zoneMapCheckFixed (zm : ZoneMap) (op : FilterOp) (st : ScalarType) (constant : Scalar) : Bool :=
  if !zm.isInited then true
  else
    match op with
    | .equal => zm.containsKey st constant
    | .notEqual => !(scalarEq (zm.getMin st) constant && scalarEq (zm.getMax st) constant)
    | .greaterThan => zm.anyGT st constant
    | .greaterThanOrEqual => zm.anyGE st constant
    | .lessThan => zm.anyLT st constant
    | .lessThanOrEqual => zm.anyLE st constant
    | _ => true

def zoneMapCheckString (zm : ZoneMap) (op : FilterOp) (constant : List Byte) (constLen : Nat) : Bool :=
  if !zm.isInited then true
  else
    match op with
    | .equal => zm.containsKeyString constant constLen
    | .notEqual =>
        -- skip only if all values are the same string
        if zm.minLen ≠ zm.maxLen ∨ zm.minLen ≠ constLen then true
        else memcmp zm.minBuf constant constLen != .eq || memcmp zm.maxBuf constant constLen != .eq
    | .greaterThan => zm.anyGTString constant constLen
    | .greaterThanOrEqual => zm.anyGEString constant constLen
    | .lessThan => zm.anyLTString constant constLen
    | .lessThanOrEqual => zm.anyLEString constant constLen
    | _ => true

/-- Check if a single encoded scalar passes a zone-map test under `op`. -/
def zoneMapCheckScalar (zm : ZoneMap) (op : FilterOp) (oid : MOTypeOid) (e : EncodedConstant) : Bool :=
  if isStringType oid then zoneMapCheckString zm op e.bytes e.len
  else
    match oid with
    | .uuid => zoneMapCheckString zm op e.bytes e.len
    | _ =>
        match scalarTypeOf oid with
        | some st => zoneMapCheckFixed zm op st (st.load e.bytes)
        | none => true

def evalFilterOnZoneMap (pf : PushedFilter) (zm : Option ZoneMap) : Bool :=
  match zm with
  | none => true
  | some zm =>
      if !zm.isInited then true
      else
        match pf.op with
        | .isNull | .isNotNull => true
        | .inSet => pf.inValues.any fun e => zoneMapCheckScalar zm .equal pf.kind e
        | op => zoneMapCheckScalar zm op pf.kind pf.constant

/-- Check all pushed filters against a block's zone maps; false to skip. -/
def blockPassesFilters (filters : List PushedFilter) (getZoneMap : Nat → Option ZoneMap) : Bool :=
  filters.all fun f => evalFilterOnZoneMap f (getZoneMap f.seqnum)

/-- Check the filters on one seqnum against a zone map of its own. -/
def zoneMapPassesFilters (filters : List PushedFilter) (zm : Option ZoneMap) (targetSeqnum : Nat) :
    Bool :=
  filters.all fun f => f.seqnum != targetSeqnum || evalFilterOnZoneMap f zm

-- ============================================================================
-- Soundness on numbers
-- ============================================================================

/-- The zone map bounds the non-NULL values of the column. -/
def ZoneMap.Bounds (zm : ZoneMap) (col : DecodedColumn) : Prop :=
  ∀ st, scalarTypeOf col.kind = some st → ∀ row, row < col.rowCount → col.isNullAt row = false →
    ∀ bs, col.element? st.size row = some bs →
      scalarLe (zm.getMin st) (st.load bs) = true ∧ scalarLe (st.load bs) (zm.getMax st) = true

/-- A value between the bounds that satisfies the comparison keeps the block. -/
theorem zoneMapCheckFixed_sound {zm : ZoneMap} {op : FilterOp} {st : ScalarType} {v c : Scalar}
    (hmin : scalarLe (zm.getMin st) v = true) (hmax : scalarLe v (zm.getMax st) = true)
    (h : op.compareScalar v c = true) : zoneMapCheckFixed zm op st c = true := by
  unfold zoneMapCheckFixed
  split
  · rfl
  unfold ZoneMap.containsKey ZoneMap.anyGT ZoneMap.anyGE ZoneMap.anyLT ZoneMap.anyLE
  generalize zm.getMin st = lo at *
  generalize zm.getMax st = hi at *
  obtain ⟨l, x, rfl, rfl, hlx⟩ : ∃ l x, lo = some l ∧ v = some x ∧ l ≤ x := by
    cases lo <;> cases v <;> simp [scalarLe] at hmin ⊢
    exact hmin
  obtain ⟨u, rfl, hxu⟩ : ∃ u, hi = some u ∧ x ≤ u := by
    cases hi <;> simp [scalarLe] at hmax ⊢
    exact hmax
  cases c with
  | none =>
      cases op <;> simp [FilterOp.compareScalar, scalarEq, scalarLt, scalarLe] at h ⊢
  | some k =>
      cases op <;> simp only [FilterOp.compareScalar, scalarEq, scalarLt, scalarLe, Bool.not_eq_true',
        decide_eq_true_eq, decide_eq_false_iff_not, Bool.and_eq_true, Bool.and_eq_false_imp] at h ⊢ <;>
        omega

section Sound
variable {pf : PushedFilter} {col : DecodedColumn} {row : Nat} {st : ScalarType}

/-- A hit of an IN test is an equal loaded value. -/
theorem inHit_scalarEq (hst : scalarTypeOf col.kind = some st) {cp : List Byte}
    (hcp : cp.length = st.size) (h : col.inHit col.kind row cp = some true) :
    ∃ bs, col.element? st.size row = some bs ∧ scalarEq (st.load bs) (st.load cp) = true := by
  -- equal bytes of an integer type load to equal integers
  have hrefl : ∀ bs : List Byte, bs = cp → (∃ n, st = .int n ∨ st = .uint n) →
      scalarEq (st.load bs) (st.load cp) = true := by
    rintro bs rfl ⟨n, rfl | rfl⟩ <;> simp [ScalarType.load, ScalarType.decode, scalarEq]
  unfold DecodedColumn.inHit at h
  cases hk : col.kind <;> simp only [hk, scalarTypeOf, Option.some.injEq, reduceCtorEq] at hst h <;>
    subst hst <;> obtain ⟨bs, hbs, hhit⟩ := Option.map_eq_some_iff.mp h <;>
    refine ⟨bs, hbs, ?_⟩
  case decimal128 =>
    have hlen : bs.length = 16 := DecodedColumn.element?_length hbs
    have heq : bs = cp := (memcmp_full_eq_iff hlen hcp).mp (by simpa using hhit)
    exact hrefl bs heq ⟨16, Or.inl rfl⟩
  all_goals
    first
    | exact hhit
    | (rw [List.take_of_length_le (by rw [hcp]; exact Nat.le_refl 1)] at hhit
       exact hrefl bs (by simpa using hhit) ⟨1, by first | exact Or.inl rfl | exact Or.inr rfl⟩)

/-- The types with a number are neither strings nor UUIDs, and have a size. -/
theorem numeric_kind {oid : MOTypeOid} (hst : scalarTypeOf oid = some st) :
    isStringType oid = false ∧ oid ≠ .uuid ∧ ¬ moTypeFixedSize oid ≤ 0 := by
  have hsize := scalarTypeOf_size hst
  refine ⟨?_, ?_, by omega⟩
  · cases oid <;> first | rfl | simp [scalarTypeOf] at hst
  · rintro rfl
    simp [scalarTypeOf] at hst

/-- On a number the zone map is tested through the loaded constant. -/
theorem zoneMapCheckScalar_numeric {oid : MOTypeOid} (hst : scalarTypeOf oid = some st) (zm : ZoneMap)
    (op : FilterOp) (e : EncodedConstant) :
    zoneMapCheckScalar zm op oid e = zoneMapCheckFixed zm op st (st.load e.bytes) := by
  obtain ⟨hstr, huuid, -⟩ := numeric_kind hst
  unfold zoneMapCheckScalar
  rw [hstr, if_neg Bool.false_ne_true]
  split
  · next hk => exact absurd rfl huuid
  · rw [hst]

/-- A comparison that holds was made on the loaded value of the row. -/
theorem rowCompare_numeric (hst : scalarTypeOf col.kind = some st) (hkind : pf.kind = col.kind)
    (h : rowCompare pf col row = some true) : ∃ bs, col.element? st.size row = some bs ∧
      pf.op.compareScalar (st.load bs) (st.load pf.constant.bytes) = true := by
  obtain ⟨hstr, huuid, hsize⟩ := numeric_kind hst
  rw [rowCompare, hkind, hstr, if_neg Bool.false_ne_true, if_neg hsize] at h
  split at h
  · next hk => exact absurd hk huuid
  · rw [hst] at h
    exact Option.map_eq_some_iff.mp h

/-- An IN test that holds found the loaded value of the row among the constants. -/
theorem rowInSet_numeric (hst : scalarTypeOf col.kind = some st) (hkind : pf.kind = col.kind)
    (hin : ∀ e ∈ pf.inValues, e.WellFormed col.type) (h : rowInSet pf col row = some true) :
    ∃ e ∈ pf.inValues, ∃ bs, col.element? st.size row = some bs ∧
      scalarEq (st.load bs) (st.load e.bytes) = true := by
  obtain ⟨hstr, -, hsize⟩ := numeric_kind hst
  rw [rowInSet, hkind, hstr, if_neg Bool.false_ne_true, if_neg hsize] at h
  obtain ⟨e, he, hhit⟩ := exists_of_anyM h
  obtain ⟨hlen, -⟩ := (hin e he).fixed hstr
  have hlen' : e.bytes.length = st.size := by
    have hsz := (scalarTypeOf_size hst).1
    have h : (e.bytes.length : Int) = moTypeFixedSize col.kind := hlen
    omega
  exact ⟨e, he, inHit_scalarEq hst hlen' hhit⟩

/-- A row that passes a filter keeps every zone map that bounds its column. -/
theorem evalFilterOnZoneMap_sound {zm : ZoneMap} (hst : scalarTypeOf col.kind = some st)
    (hpf : pf.WellFormed col.type) (hrow : row < col.rowCount)
    (hbounds : zm.isInited = true → zm.Bounds col)
    (h : rowPassesFilter pf col row = some true) : evalFilterOnZoneMap pf (some zm) = true := by
  rw [evalFilterOnZoneMap]
  by_cases hinit : zm.isInited = true
  swap
  · simp [hinit]
  have hkind : pf.kind = col.kind := hpf.kind_eq
  have hcheck := zoneMapCheckScalar_numeric (hkind ▸ hst) zm
  simp only [hinit, Bool.not_true, Bool.false_eq_true, if_false, hcheck]
  -- the row's own value lies between the bounds
  have hwithin : ∀ bs, col.filterNull row = false → col.element? st.size row = some bs →
      scalarLe (zm.getMin st) (st.load bs) = true ∧ scalarLe (st.load bs) (zm.getMax st) = true := by
    intro bs hnull hbs
    rw [DecodedColumn.filterNull, decide_eq_true hrow, Bool.true_and] at hnull
    exact hbounds hinit st hst row hrow hnull bs hbs
  have hcompare : col.filterNull row = false → rowCompare pf col row = some true →
      zoneMapCheckFixed zm pf.op st (st.load pf.constant.bytes) = true := by
    intro hnull hcmp
    obtain ⟨bs, hbs, htest⟩ := rowCompare_numeric hst hkind hcmp
    obtain ⟨hmin, hmax⟩ := hwithin bs hnull hbs
    exact zoneMapCheckFixed_sound hmin hmax htest
  rw [rowPassesFilter] at h
  cases hop : pf.op <;> simp only [hop] at h hcompare ⊢
  case inSet =>
    split at h
    · cases h
    · next hnull =>
        obtain ⟨e, he, bs, hbs, heq⟩ := rowInSet_numeric hst hkind (hpf.inValues hop) h
        obtain ⟨hmin, hmax⟩ := hwithin bs (by simpa using hnull) hbs
        exact List.any_eq_true.mpr ⟨e, he, zoneMapCheckFixed_sound hmin hmax heq⟩
  all_goals
    split at h
    · cases h
    · next hnull => exact hcompare (by simpa using hnull) h

end Sound

end TaeScanner
