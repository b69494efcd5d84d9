/-
  TaeScanner.Filter.TemporalConstants

  Filters on dates and timestamps.  The encoding of a constant adds the epoch
  and the fill of a value subtracts it, so both sides of a comparison are
  shifted by the same amount, and the order is kept as long as neither shift
  leaves the integer type.  Stored values are not negative, so the subtraction
  never does; the addition does for the constants of the last two millennia of
  the type's range, infinity among them.
-/

import TaeScanner.Filter.EncodeConstant
import TaeScanner.Filter.ZoneMap
import TaeScanner.Table.ColumnFill

namespace TaeScanner

open Lib

/-- The MO types that count from another epoch than DuckDB. -/
inductive TemporalType
  | date
  | datetime
  | timestamp
  deriving DecidableEq, Repr

namespace TemporalType

def oid : TemporalType → MOTypeOid
  | date => .date
  | datetime => .datetime
  | timestamp => .timestamp

/-- The type of the column in DuckDB. -/
def duckType : TemporalType → LogicalType
  | date => .date
  | datetime => .timestamp
  | timestamp => .timestamp

def size : TemporalType → Nat
  | date => 4
  | datetime => 8
  | timestamp => 8

def epoch : TemporalType → Int
  | date => moUnixEpochDays
  | datetime => moUnixEpochUsec
  | timestamp => moUnixEpochUsec

/-- What the fill emits for a stored element. -/
def fromMO : TemporalType → List Byte → List Byte
  | date => dateFromMO
  | datetime => timestampFromMO
  | timestamp => timestampFromMO

/-- The DuckDB constant of a day or microsecond count. -/
def constant (t : TemporalType) (c : Int) : Value := ⟨t.duckType, some (.num c)⟩

theorem fromMO_eq (t : TemporalType) (bs : List Byte) :
    t.fromMO bs = leBytesInt t.size (leInt bs - t.epoch) := by
  cases t <;> rfl

theorem scalarTypeOf_oid (t : TemporalType) : scalarTypeOf t.oid = some (.int t.size) := by
  cases t <;> rfl

/-- The encoding of a constant is its shifted count. -/
theorem encodeConstant_eq (bt : BlobText) (t : TemporalType) (c : Int) :
    encodeConstant bt (t.constant c) t.oid = some ⟨leBytesInt t.size (c + t.epoch), t.size⟩ := by
  cases t <;> rfl

/-- A stored count is not negative, so subtracting the epoch stays in the type. -/
theorem sub_epoch_fits (t : TemporalType) {s : Int} (hs : 0 ≤ s) (hfits : FitsSigned t.size s) :
    FitsSigned t.size (s - t.epoch) := by
  obtain ⟨-, hhi⟩ := hfits
  cases t <;> simp only [FitsSigned, size, epoch, moUnixEpochDays, moUnixEpochUsec] at hhi ⊢ <;> omega

/-- Adding the epoch can only leave the type at the top. -/
theorem add_epoch_fits_iff (t : TemporalType) {c : Int} (hfits : FitsSigned t.size c) :
    FitsSigned t.size (c + t.epoch) ↔ 2 * (c + t.epoch) < (256 ^ t.size : Nat) := by
  obtain ⟨hlo, -⟩ := hfits
  refine ⟨fun h => h.2, fun h => ⟨?_, h⟩⟩
  have hpos : 0 ≤ t.epoch := by cases t <;> decide
  omega

end TemporalType

/-- Can a value between the bounds satisfy the comparison? -/
def FilterOp.meetsRange (op : FilterOp) (lo hi c : Int) : Bool :=
  match op with
  | .equal => lo ≤ c ∧ c ≤ hi
  | .notEqual => ¬ (lo = c ∧ hi = c)
  | .greaterThan => c < hi
  | .greaterThanOrEqual => c ≤ hi
  | .lessThan => lo < c
  | .lessThanOrEqual => lo ≤ c
  | _ => true

/-- On numbers `ZoneMapCheckFixed` is that test. -/
theorem zoneMapCheckFixed_some {zm : ZoneMap} {st : ScalarType} {lo hi : Int} (c : Int)
    (hinit : zm.isInited = true) (hmin : zm.getMin st = some lo) (hmax : zm.getMax st = some hi)
    (op : FilterOp) : zoneMapCheckFixed zm op st (some c) = op.meetsRange lo hi c := by
  unfold zoneMapCheckFixed ZoneMap.containsKey ZoneMap.anyGT ZoneMap.anyGE ZoneMap.anyLT ZoneMap.anyLE
  rw [hinit, hmin, hmax]
  cases op <;> simp [FilterOp.meetsRange, scalarEq, scalarLt, scalarLe, imp_iff_not_or]

-- ============================================================================
-- The shift
-- ============================================================================

/-- Filters with these constants on columns of the type answer as the emitted
    values do, at every row and on every zone map of stored values, and neither
    side of a comparison overflows. -/
structure TemporalType.KeepsOrder (bt : BlobText) (t : TemporalType) (cs : List Int) : Prop where
  add_fits : ∀ c ∈ cs, FitsSigned t.size (c + t.epoch)
  sub_fits : ∀ s, 0 ≤ s → FitsSigned t.size s → FitsSigned t.size (s - t.epoch)
  compares : ∀ (col : DecodedColumn) (row : Nat) (bs : List Byte) (pf : PushedFilter),
    col.kind = t.oid → col.element? t.size row = some bs → 0 ≤ leInt bs →
      col.filterNull row = false → pf.kind = t.oid → ∀ c ∈ cs,
        encodeConstant bt (t.constant c) t.oid = some pf.constant →
        pf.op ≠ .isNull → pf.op ≠ .isNotNull → pf.op ≠ .inSet →
          rowPassesFilter pf col row = some (pf.op.ofOrdering (compare (leInt (t.fromMO bs)) c))
  inSet : ∀ (col : DecodedColumn) (row : Nat) (bs : List Byte) (pf : PushedFilter),
    col.kind = t.oid → col.element? t.size row = some bs → 0 ≤ leInt bs →
      col.filterNull row = false → pf.kind = t.oid → pf.op = .inSet →
        cs.mapM (fun c => encodeConstant bt (t.constant c) t.oid) = some pf.inValues →
          rowPassesFilter pf col row = some (cs.any fun c => leInt (t.fromMO bs) == c)
  zones : ∀ (zm : ZoneMap) (lo hi : List Byte) (pf : PushedFilter), zm.isInited = true →
    zm.minBuf.take t.size = lo → zm.maxBuf.take t.size = hi → 0 ≤ leInt lo → 0 ≤ leInt hi →
      pf.kind = t.oid →
        (∀ c ∈ cs, encodeConstant bt (t.constant c) t.oid = some pf.constant →
          pf.op ≠ .isNull → pf.op ≠ .isNotNull → pf.op ≠ .inSet →
            evalFilterOnZoneMap pf (some zm)
              = pf.op.meetsRange (leInt (t.fromMO lo)) (leInt (t.fromMO hi)) c) ∧
        (pf.op = .inSet → cs.mapM (fun c => encodeConstant bt (t.constant c) t.oid) = some pf.inValues →
          evalFilterOnZoneMap pf (some zm)
            = cs.any fun c => FilterOp.equal.meetsRange (leInt (t.fromMO lo)) (leInt (t.fromMO hi)) c)

section Shift
variable {t : TemporalType} {bs : List Byte} {c : Int}

/-- The emitted count is the stored one less the epoch. -/
theorem leInt_fromMO (hlen : bs.length = t.size) (hs : 0 ≤ leInt bs) :
    leInt (t.fromMO bs) = leInt bs - t.epoch := by
  have hfits : FitsSigned t.size (leInt bs) := by
    have hpos : 0 < 256 ^ bs.length := Nat.pow_pos (by decide)
    have hlo := Int.le_bmod (x := (leNat bs : Int)) hpos
    have hhi := Int.bmod_lt (x := (leNat bs : Int)) hpos
    rw [← hlen]
    constructor <;> rw [leInt] <;> omega
  rw [t.fromMO_eq, leInt_leBytesInt (t.sub_epoch_fits hs hfits)]

/-- The shift keeps the order. -/
theorem compare_shift (x y e : Int) : compare (x - e) y = compare x (y + e) := by
  simp only [compare, compareOfLessAndEq]
  have hlt : x - e < y ↔ x < y + e := by omega
  have heq : x - e = y ↔ x = y + e := by omega
  simp only [hlt, heq]

theorem meetsRange_shift (op : FilterOp) (lo hi c e : Int) :
    op.meetsRange (lo - e) (hi - e) c = op.meetsRange lo hi (c + e) := by
  cases op <;> simp only [FilterOp.meetsRange, decide_eq_decide] <;> omega

/-- The encoded constant loads to the shifted count. -/
theorem load_encoded (hfits : FitsSigned t.size (c + t.epoch)) :
    (ScalarType.int t.size).load (leBytesInt t.size (c + t.epoch)) = some (c + t.epoch) := by
  rw [ScalarType.load, ScalarType.size, List.take_of_length_le (by rw [leBytesInt_length]),
    ScalarType.decode, leInt_leBytesInt hfits]

/-- An element of the type loads to its count. -/
theorem load_element (hlen : bs.length = t.size) :
    (ScalarType.int t.size).load bs = some (leInt bs) := by
  rw [ScalarType.load, ScalarType.size, List.take_of_length_le (Nat.le_of_eq hlen), ScalarType.decode]

/-- The two shifts cancel in a comparison. -/
theorem compareScalar_shifted (op : FilterOp) (hlen : bs.length = t.size) (hs : 0 ≤ leInt bs)
    (hfits : FitsSigned t.size (c + t.epoch)) :
    op.compareScalar ((ScalarType.int t.size).load bs)
        ((ScalarType.int t.size).load (leBytesInt t.size (c + t.epoch)))
      = op.ofOrdering (compare (leInt (t.fromMO bs)) c) := by
  rw [load_element hlen, load_encoded hfits, compareScalar_some, leInt_fromMO hlen hs, compare_shift]

/-- A comparison with an encoded constant compares the emitted value. -/
theorem rowCompare_temporal {col : DecodedColumn} {row : Nat} {pf : PushedFilter}
    (hbs : col.element? t.size row = some bs) (hs : 0 ≤ leInt bs)
    (hpf : pf.kind = t.oid) (hconst : pf.constant.bytes = leBytesInt t.size (c + t.epoch))
    (hfits : FitsSigned t.size (c + t.epoch)) :
    rowCompare pf col row = some (pf.op.ofOrdering (compare (leInt (t.fromMO bs)) c)) := by
  obtain ⟨hstr, huuid, hsize⟩ := numeric_kind t.scalarTypeOf_oid
  rw [rowCompare, hpf, hstr, if_neg Bool.false_ne_true, if_neg hsize]
  split
  · next hk => exact absurd hk huuid
  · rw [t.scalarTypeOf_oid]
    simp only [ScalarType.size, hbs, Option.map_some, hconst]
    rw [compareScalar_shifted pf.op (DecodedColumn.element?_length hbs) hs hfits]

/-- A value of an IN set is hit by the emitted value. -/
theorem inHit_temporal {col : DecodedColumn} {row : Nat} (hbs : col.element? t.size row = some bs)
    (hs : 0 ≤ leInt bs) (hfits : FitsSigned t.size (c + t.epoch)) :
    col.inHit t.oid row (leBytesInt t.size (c + t.epoch)) = some (leInt (t.fromMO bs) == c) := by
  have hload : scalarEq ((ScalarType.int t.size).load bs)
      ((ScalarType.int t.size).load (leBytesInt t.size (c + t.epoch))) = (leInt (t.fromMO bs) == c) := by
    rw [load_element (DecodedColumn.element?_length hbs), load_encoded hfits,
      leInt_fromMO (DecodedColumn.element?_length hbs) hs, scalarEq, Bool.eq_iff_iff,
      decide_eq_true_eq, beq_iff_eq]
    omega
  rw [← hload]
  cases t <;> (simp only [TemporalType.size] at hbs; simp only [DecodedColumn.inHit, TemporalType.oid,
    scalarTypeOf, ScalarType.size, hbs, Option.map_some, TemporalType.size])

end Shift

-- ============================================================================
-- When the order is kept
-- ============================================================================

section KeepsOrder
variable {bt : BlobText} {t : TemporalType} {cs : List Int}

/-- The encodings of a list of constants, in order. -/
theorem mapM_encodeConstant_temporal (bt : BlobText) (t : TemporalType) (cs : List Int) :
    cs.mapM (fun c => encodeConstant bt (t.constant c) t.oid)
      = some (cs.map fun c => ⟨leBytesInt t.size (c + t.epoch), t.size⟩) := by
  simp only [t.encodeConstant_eq bt]
  exact List.mapM_pure

/-- A zone map of stored values bounds the emitted ones. -/
theorem zoneMapCheckScalar_temporal {zm : ZoneMap} {lo hi : List Byte} {c : Int} (op : FilterOp)
    (hinit : zm.isInited = true) (hlo : zm.minBuf.take t.size = lo) (hhi : zm.maxBuf.take t.size = hi)
    (hlo0 : 0 ≤ leInt lo) (hhi0 : 0 ≤ leInt hi) (hfits : FitsSigned t.size (c + t.epoch))
    {e : EncodedConstant} (he : e.bytes = leBytesInt t.size (c + t.epoch)) :
    zoneMapCheckScalar zm op t.oid e
      = op.meetsRange (leInt (t.fromMO lo)) (leInt (t.fromMO hi)) c := by
  have hsize : t.size ≤ 8 := by cases t <;> decide
  have hlolen : lo.length = t.size := by
    rw [← hlo, List.length_take, ZoneMap.minBuf, zm.length_eq, zmSize]
    omega
  have hhilen : hi.length = t.size := by
    rw [← hhi, List.length_take, ZoneMap.maxBuf, List.length_drop, zm.length_eq, zmSize]
    omega
  have hmin : zm.getMin (.int t.size) = some (leInt lo) := by
    rw [ZoneMap.getMin, ScalarType.load, ScalarType.size, hlo, ScalarType.decode]
  have hmax : zm.getMax (.int t.size) = some (leInt hi) := by
    rw [ZoneMap.getMax, ScalarType.load, ScalarType.size, hhi, ScalarType.decode]
  rw [zoneMapCheckScalar_numeric t.scalarTypeOf_oid, he, load_encoded hfits,
    zoneMapCheckFixed_some _ hinit hmin hmax, leInt_fromMO hlolen hlo0, leInt_fromMO hhilen hhi0,
    meetsRange_shift]

/-- Without overflow, the filters answer as the emitted values do. -/
theorem TemporalType.keepsOrder_of_fits (hfits : ∀ c ∈ cs, FitsSigned t.size (c + t.epoch)) :
    t.KeepsOrder bt cs := by
  refine ⟨hfits, fun s hs hs' => t.sub_epoch_fits hs hs', ?_, ?_, ?_⟩
  · intro col row bs pf hcol hbs hs hnull hpf c hc henc hop₁ hop₂ hop₃
    rw [t.encodeConstant_eq, Option.some.injEq] at henc
    have hcmp := rowCompare_temporal hbs hs hpf (congrArg EncodedConstant.bytes henc).symm
      (hfits c hc)
    rw [rowPassesFilter]
    rw [hnull, hcmp]
    cases hop : pf.op <;> simp only [hop, ne_eq, not_true_eq_false] at hop₁ hop₂ hop₃ <;> rfl
  · intro col row bs pf hcol hbs hs hnull hpf hop henc
    obtain ⟨hstr, -, hsize⟩ := numeric_kind t.scalarTypeOf_oid
    rw [mapM_encodeConstant_temporal, Option.some.injEq] at henc
    rw [rowPassesFilter]
    rw [hop, hnull]
    simp only [Bool.false_eq_true, if_false]
    rw [rowInSet, hpf, hstr, if_neg Bool.false_ne_true, if_neg hsize, ← henc, anyM_map]
    exact anyM_of_some fun c hc => inHit_temporal hbs hs (hfits c hc)
  · intro zm lo hi pf hinit hlo hhi hlo0 hhi0 hpf
    refine ⟨fun c hc henc hop₁ hop₂ hop₃ => ?_, fun hop henc => ?_⟩
    · rw [t.encodeConstant_eq, Option.some.injEq] at henc
      have hcheck := zoneMapCheckScalar_temporal pf.op hinit hlo hhi hlo0 hhi0 (hfits c hc)
        (congrArg EncodedConstant.bytes henc).symm
      rw [evalFilterOnZoneMap]
      simp only [hinit, Bool.not_true, Bool.false_eq_true, if_false, hpf]
      rw [← hcheck]
    · rw [mapM_encodeConstant_temporal, Option.some.injEq] at henc
      rw [evalFilterOnZoneMap]
      simp only [hinit, Bool.not_true, Bool.false_eq_true, if_false, hpf, hop, ← henc, List.any_map]
      rw [Bool.eq_iff_iff, List.any_eq_true, List.any_eq_true]
      refine exists_congr fun c => and_congr_right fun hc => ?_
      show zoneMapCheckScalar _ _ _ _ = true ↔ _
      rw [zoneMapCheckScalar_temporal .equal hinit hlo hhi hlo0 hhi0 (hfits c hc) rfl]

/-- Filters on dates and timestamps keep the order exactly for constants that
    stay in the type when the epoch is added. -/
theorem temporal_order_kept_iff (bt : BlobText) (t : TemporalType) (cs : List Int)
    (hcs : ∀ c ∈ cs, t.duckType.Holds (.num c)) :
    t.KeepsOrder bt cs ↔ ∀ c ∈ cs, 2 * (c + t.epoch) < (256 ^ t.size : Nat) := by
  have htype : ∀ c ∈ cs, FitsSigned t.size c := by
    intro c hc
    have h := hcs c hc
    cases t <;> exact h
  constructor
  · intro h c hc
    exact (t.add_epoch_fits_iff (htype c hc)).mp (h.add_fits c hc)
  · intro h
    exact TemporalType.keepsOrder_of_fits fun c hc => (t.add_epoch_fits_iff (htype c hc)).mpr (h c hc)

end KeepsOrder

/-- One stored day, the Unix epoch. -/
def epochDay : DecodedColumn := { type := { oid := 50 }, rowCount := 1, data := leBytesInt 4 719162 }

/-- `x < DATE 'infinity'`; DuckDB's infinite date is the greatest `int32`. -/
def beforeInfinity : PushedFilter :=
  { colIdx := 0, seqnum := 0, moTypeOid := 50, op := .lessThan,
    constant := ⟨leBytesInt 4 (2147483647 + moUnixEpochDays), 4⟩ }

/-- 1970-01-01 and the first day of the year 2000 are told apart in either order. -/
theorem year2000_keepsOrder : TemporalType.date.KeepsOrder .duckdb [0, 10957] :=
  (temporal_order_kept_iff .duckdb .date [0, 10957] (by
    intro c hc
    simp only [List.mem_cons, List.not_mem_nil, or_false] at hc
    rcases hc with rfl | rfl <;> exact ⟨by decide, by decide⟩)).mpr (by decide)

/-- No day is before infinity: the encoded constant has wrapped around. -/
theorem infinity_loses_order :
    encodeConstant .duckdb (TemporalType.date.constant 2147483647) .date
        = some beforeInfinity.constant ∧
      rowPassesFilter beforeInfinity epochDay 0 = some false ∧
      compare (leInt (TemporalType.date.fromMO epochDay.data)) 2147483647 = .lt ∧
      ¬ TemporalType.date.KeepsOrder .duckdb [2147483647] := by
  refine ⟨rfl, by decide, by decide, fun h => ?_⟩
  exact absurd (h.add_fits 2147483647 (List.mem_singleton_self _)) (by decide)

end TaeScanner
