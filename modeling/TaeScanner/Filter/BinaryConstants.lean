/-
  TaeScanner.Filter.BinaryConstants

  Filters on BLOB columns.  The string branch of `EncodeConstant` serves VARCHAR
  and BLOB alike, but the string of a BLOB is its text form: a byte that is not
  a regular character reaches the filter as the four characters of its escape.

    * constants of regular characters compare as raw bytes, at every row and on
      every zone map;
    * any other constant is already wrong on a row that holds it.
-/

import TaeScanner.Filter.StringZoneMap
import TaeScanner.Filter.EncodeConstant
import TaeScanner.Format.BuildVector

namespace TaeScanner

open Lib

/-- The MO types that are BLOBs in DuckDB. -/
inductive BinaryType
  | blob
  | binary
  | varbinary
  deriving DecidableEq, Repr

namespace BinaryType

/-- The type code in files. -/
def code : BinaryType → Byte
  | blob => 70
  | binary => 64
  | varbinary => 65

def oid (t : BinaryType) : MOTypeOid := MOTypeOid.ofByte t.code

/-- The DuckDB constant of a byte string. -/
def constant (b : List Byte) : Value := ⟨.blob, some (.str b)⟩

theorem isStringType_oid (t : BinaryType) : isStringType t.oid = true := by
  cases t <;> rfl

/-- What the filter compares with is the text form. -/
theorem encodeConstant_eq (bt : BlobText) (t : BinaryType) (b : List Byte) :
    encodeConstant bt (constant b) t.oid = some ⟨bt.text b, (bt.text b).length % 2 ^ 32⟩ :=
  encodeConstant_string t.isStringType_oid

/-- A constant of regular characters is encoded as its bytes. -/
theorem encodeConstant_regular {bt : BlobText} (t : BinaryType) {b : List Byte}
    (hlen : b.length < 2 ^ 32) (h : ∀ x ∈ b, bt.regular x = true) :
    encodeConstant bt (constant b) t.oid = some ⟨b, b.length⟩ := by
  rw [t.encodeConstant_eq, bt.text_of_regular h, Nat.mod_eq_of_lt hlen]

end BinaryType

/-- Filters with these constants on columns of the type compare raw bytes at
    every row, and keep every block with a match of at most 30 bytes. -/
structure BinaryType.ComparesRaw (bt : BlobText) (t : BinaryType) (bs : List (List Byte)) : Prop where
  compares : ∀ (col : DecodedColumn) (row : Nat) (s : List Byte) (pf : PushedFilter),
    col.kind = t.oid → col.storedValue? row = some (.bytes s) → col.filterNull row = false →
      pf.kind = t.oid → ∀ b ∈ bs, encodeConstant bt (constant b) t.oid = some pf.constant →
        pf.op ≠ .isNull → pf.op ≠ .isNotNull → pf.op ≠ .inSet →
          rowPassesFilter pf col row = some (pf.op.ofOrdering (compareOfLessAndEq s b))
  inSet : ∀ (col : DecodedColumn) (row : Nat) (s : List Byte) (pf : PushedFilter),
    col.kind = t.oid → col.storedValue? row = some (.bytes s) → col.filterNull row = false →
      pf.kind = t.oid → pf.op = .inSet →
        bs.mapM (fun b => encodeConstant bt (constant b) t.oid) = some pf.inValues →
          rowPassesFilter pf col row = some (bs.any fun b => s == b)
  zones : ∀ (zm : ZoneMap) (lo hi s : List Byte) (pf : PushedFilter), zm.Summarises lo hi →
    lo ≤ s → s ≤ hi → s.length ≤ zmMaxLen → pf.kind = t.oid →
      (∀ b ∈ bs, encodeConstant bt (constant b) t.oid = some pf.constant →
        pf.op ≠ .isNull → pf.op ≠ .isNotNull → pf.op ≠ .inSet →
          pf.op.ofOrdering (compareOfLessAndEq s b) = true →
            evalFilterOnZoneMap pf (some zm) = true) ∧
      (pf.op = .inSet → bs.mapM (fun b => encodeConstant bt (constant b) t.oid) = some pf.inValues →
        s ∈ bs → evalFilterOnZoneMap pf (some zm) = true)

-- ============================================================================
-- Regular constants
-- ============================================================================

section Regular
variable {bt : BlobText} {t : BinaryType} {bs : List (List Byte)}

/-- Between the bounds of a `<>` on the rest of a cut max, only longer strings
    differ from the constant. -/
theorem eq_of_notEqualOfCut {lo hi s : List Byte} {pf : PushedFilter}
    (h : pf.NotEqualOfCut lo hi) (hlo : lo ≤ s) (hhi : s ≤ hi) (hs : s.length ≤ zmMaxLen) :
    s = pf.constant.bytes := by
  obtain ⟨-, hmin, hmax, -⟩ := h
  have hwhole : s.take zmMaxLen = s := List.take_of_length_le hs
  have hle : s ≤ pf.constant.bytes := hmax ▸ hwhole ▸ take_le_take zmMaxLen hhi
  have hge : pf.constant.bytes ≤ s := hmin ▸ List.le_trans (take_le lo zmMinLen) hlo
  exact List.le_antisymm hle hge

/-- The encodings of a list of regular constants, in order. -/
theorem mapM_encodeConstant_regular (hlen : ∀ b ∈ bs, b.length < 2 ^ 32)
    (hreg : ∀ b ∈ bs, ∀ x ∈ b, bt.regular x = true) :
    bs.mapM (fun b => encodeConstant bt (BinaryType.constant b) t.oid)
      = some (bs.map fun b => ⟨b, b.length⟩) := by
  induction bs with
  | nil => rfl
  | cons b bs ih =>
      rw [List.mapM_cons, t.encodeConstant_regular (hlen b (List.mem_cons_self ..))
        (hreg b (List.mem_cons_self ..)), ih (fun x hx => hlen x (List.mem_cons_of_mem _ hx))
        fun x hx => hreg x (List.mem_cons_of_mem _ hx)]
      rfl

/-- The encoding of one of the constants. -/
theorem encoded_regular (hlen : ∀ b ∈ bs, b.length < 2 ^ 32) (hreg : ∀ b ∈ bs, ∀ x ∈ b, bt.regular x = true)
    {b : List Byte} {e : EncodedConstant} (hb : b ∈ bs)
    (henc : encodeConstant bt (BinaryType.constant b) t.oid = some e) : e = ⟨b, b.length⟩ := by
  rw [t.encodeConstant_regular (hlen b hb) (hreg b hb)] at henc
  exact (Option.some.inj henc).symm

/-- The encodings of all of them. -/
theorem encodedList_regular (hlen : ∀ b ∈ bs, b.length < 2 ^ 32)
    (hreg : ∀ b ∈ bs, ∀ x ∈ b, bt.regular x = true) {es : List EncodedConstant}
    (henc : bs.mapM (fun b => encodeConstant bt (BinaryType.constant b) t.oid) = some es) :
    es = bs.map fun b => ⟨b, b.length⟩ := by
  rw [mapM_encodeConstant_regular hlen hreg] at henc
  exact (Option.some.inj henc).symm

/-- An encoded string belongs to a column of strings. -/
theorem wellFormed_regular {ty : MOType} (hstr : isStringType ty.kind = true) (b : List Byte) :
    (⟨b, b.length⟩ : EncodedConstant).WellFormed ty :=
  ⟨fun hno => absurd (hstr.symm.trans hno) (by decide), fun _ => rfl⟩

section Rows
variable {col : DecodedColumn} {row : Nat} {s : List Byte} {pf : PushedFilter}

/-- A comparison with a regular constant is one of raw bytes. -/
theorem rowPassesFilter_regular (hcol : col.kind = t.oid) (hval : col.storedValue? row = some (.bytes s))
    (hnull : col.filterNull row = false) (hpf : pf.kind = t.oid) {b : List Byte}
    (hc : pf.constant = ⟨b, b.length⟩) (hop₁ : pf.op ≠ .isNull) (hop₂ : pf.op ≠ .isNotNull)
    (hop₃ : pf.op ≠ .inSet) :
    rowPassesFilter pf col row = some (pf.op.ofOrdering (compareOfLessAndEq s b)) := by
  have hstr : isStringType col.kind = true := hcol ▸ t.isStringType_oid
  have hwf : pf.constant.WellFormed col.type := hc ▸ wellFormed_regular hstr b
  obtain ⟨o, ho, hrow⟩ := rowCompare_string hstr (hpf.trans hcol.symm) hwf hval
  rw [EncodedConstant.value_string hstr, hc] at ho
  obtain rfl : compareOfLessAndEq s b = o := Option.some.inj ho
  rw [rowPassesFilter]
  rw [hnull, ← hrow]
  cases hop : pf.op <;> simp only [hop, ne_eq, not_true_eq_false] at hop₁ hop₂ hop₃ <;> rfl

/-- An IN list of regular constants is one of raw bytes. -/
theorem rowPassesFilter_regular_in (hcol : col.kind = t.oid)
    (hval : col.storedValue? row = some (.bytes s)) (hnull : col.filterNull row = false)
    (hpf : pf.kind = t.oid) (hop : pf.op = .inSet) (hvs : pf.inValues = bs.map fun b => ⟨b, b.length⟩) :
    rowPassesFilter pf col row = some (bs.any fun b => s == b) := by
  have hstr : isStringType col.kind = true := hcol ▸ t.isStringType_oid
  have hwf : ∀ e ∈ pf.inValues, e.WellFormed col.type := by
    intro e he
    rw [hvs] at he
    obtain ⟨b, -, rfl⟩ := List.mem_map.mp he
    exact wellFormed_regular hstr b
  rw [rowPassesFilter]
  rw [hop, hnull]
  simp only [Bool.false_eq_true, if_false]
  rw [rowInSet_string hstr (hpf.trans hcol.symm) hwf hval, hvs, List.any_map, Option.some.injEq,
    Bool.eq_iff_iff, List.any_eq_true, List.any_eq_true]
  refine exists_congr fun b => and_congr_right fun _ => ?_
  simp [EncodedConstant.value_string hstr, SqlValue.compare?, compareOfLessAndEq_eq_iff]

end Rows

section Zones
variable {zm : ZoneMap} {lo hi s : List Byte} {pf : PushedFilter}

/-- A zone map with a match of a regular constant is kept. -/
theorem evalFilterOnZoneMap_regular (hzm : zm.Summarises lo hi) (hlo : lo ≤ s) (hhi : s ≤ hi)
    (hs : s.length ≤ zmMaxLen) (hpf : pf.kind = t.oid) {b : List Byte}
    (hc : pf.constant = ⟨b, b.length⟩) (hop₃ : pf.op ≠ .inSet)
    (hmatch : pf.op.ofOrdering (compareOfLessAndEq s b) = true) :
    evalFilterOnZoneMap pf (some zm) = true := by
  have hcut : ¬ pf.NotEqualOfCut lo hi := by
    intro h
    have heq := eq_of_notEqualOfCut h hlo hhi hs
    rw [hc] at heq
    rw [h.1, (compareOfLessAndEq_eq_iff s b).mpr heq] at hmatch
    cases hmatch
  have hsel : pf.selects s = true := by
    rw [PushedFilter.selects]
    rw [hc]
    split
    · next h => exact absurd h hop₃
    · exact hmatch
  exact evalFilterOnZoneMap_string hzm (Or.inl (hpf ▸ t.isStringType_oid)) (fun _ => by rw [hc])
    (fun h => absurd h hop₃) hlo hhi hsel hcut

/-- A zone map with a member of a list of regular constants is kept. -/
theorem evalFilterOnZoneMap_regular_in (hzm : zm.Summarises lo hi) (hlo : lo ≤ s) (hhi : s ≤ hi)
    (hpf : pf.kind = t.oid) (hop : pf.op = .inSet) (hvs : pf.inValues = bs.map fun b => ⟨b, b.length⟩)
    (hmem : s ∈ bs) : evalFilterOnZoneMap pf (some zm) = true := by
  have hcut : ¬ pf.NotEqualOfCut lo hi := fun h => absurd (hop.symm.trans h.1) (by decide)
  have hsel : pf.selects s = true := by
    rw [PushedFilter.selects]
    rw [hop, hvs]
    exact List.any_eq_true.mpr ⟨_, List.mem_map_of_mem hmem, beq_self_eq_true s⟩
  refine evalFilterOnZoneMap_string hzm (Or.inl (hpf ▸ t.isStringType_oid)) (fun h => absurd hop h)
    (fun _ e he => ?_) hlo hhi hsel hcut
  rw [hvs] at he
  obtain ⟨b, -, rfl⟩ := List.mem_map.mp he
  rfl

end Zones

theorem BinaryType.comparesRaw_of_regular (hlen : ∀ b ∈ bs, b.length < 2 ^ 32)
    (hreg : ∀ b ∈ bs, ∀ x ∈ b, bt.regular x = true) : t.ComparesRaw bt bs := by
  refine ⟨?_, ?_, ?_⟩
  · intro col row s pf hcol hval hnull hpf b hb henc
    exact rowPassesFilter_regular hcol hval hnull hpf (encoded_regular hlen hreg hb henc)
  · intro col row s pf hcol hval hnull hpf hop henc
    exact rowPassesFilter_regular_in hcol hval hnull hpf hop (encodedList_regular hlen hreg henc)
  · intro zm lo hi s pf hzm hlo hhi hs hpf
    constructor
    · intro b hb henc _ _
      exact evalFilterOnZoneMap_regular hzm hlo hhi hs hpf (encoded_regular hlen hreg hb henc)
    · intro hop henc
      exact evalFilterOnZoneMap_regular_in hzm hlo hhi hpf hop (encodedList_regular hlen hreg henc)

end Regular

-- ============================================================================
-- When BLOBs are compared as raw bytes
-- ============================================================================

section Exact
variable {bt : BlobText} {t : BinaryType}

/-- A column of one row that holds the byte string. -/
def BinaryType.column (t : BinaryType) (b : List Byte) : DecodedColumn :=
  { type := { oid := t.code }, rowCount := 1, data := varlenaSlot 0 b, area := b }

theorem BinaryType.column_slot? (t : BinaryType) (b : List Byte) :
    (t.column b).slot? 0 = some ⟨varlenaSlot 0 b, varlenaSlot_length ..⟩ := by
  have hlen := varlenaSlot_length 0 b
  rw [DecodedColumn.slot?]
  rw [dif_pos (by simp [BinaryType.column, hlen])]
  congr 2
  exact List.take_of_length_le (Nat.le_of_eq hlen)

theorem BinaryType.column_stored (t : BinaryType) {b : List Byte} (hlen : b.length < 2 ^ 32) :
    (⟨varlenaSlot 0 b, varlenaSlot_length ..⟩ : Varlena).stored? (t.column b).area = some b :=
  stored?_varlenaSlot (by decide) hlen fun _ => slice?_self b

/-- The row holds the byte string. -/
theorem BinaryType.column_storedValue? (t : BinaryType) {b : List Byte} (hlen : b.length < 2 ^ 32) :
    (t.column b).storedValue? 0 = some (.bytes b) := by
  have hsize : moTypeFixedSize (t.column b).kind = -1 :=
    moTypeFixedSize_of_isStringType t.isStringType_oid
  rw [DecodedColumn.storedValue?_varlena hsize, t.column_slot?, Option.bind_some,
    t.column_stored hlen, Option.map_some]
  cases t <;> rfl

/-- `x = b` for the constant as the encoder makes it. -/
def BinaryType.equals (bt : BlobText) (t : BinaryType) (b : List Byte) : PushedFilter :=
  { colIdx := 0, seqnum := 0, moTypeOid := t.code, op := .equal,
    constant := ⟨bt.text b, (bt.text b).length % 2 ^ 32⟩ }

/-- The comparison with a constant that may be longer than its length says finds
    equality only on the part of that length. -/
theorem take_eq_of_tieByLength {s c str : List Byte} {n : Nat} (hle : s.length ≤ str.length)
    (htake : str.take s.length = s) (hn : n ≤ c.length)
    (h : (memcmp? str c (min s.length n)).map (fun cmp => tieByLength cmp s.length n) = some .eq) :
    c.take n = s := by
  obtain ⟨cmp, hcmp, htie⟩ := Option.map_eq_some_iff.mp h
  have hboth : cmp = .eq ∧ s.length = n := by
    rw [tieByLength] at htie
    split at htie
    · split at htie <;> cases htie
    · next hno => exact ⟨htie, by simpa [htie] using hno⟩
  obtain ⟨rfl, rfl⟩ := hboth
  rw [Nat.min_self, memcmp?, if_pos hle, Option.some.injEq,
    memcmp_eq_iff hle hn, htake] at hcmp
  exact hcmp.symm

/-- A row passes `x = b` only if what the encoder left of `b` is the row's string. -/
theorem BinaryType.take_text_of_equals {b : List Byte} (hlen : b.length < 2 ^ 32)
    (h : rowPassesFilter (t.equals bt b) (t.column b) 0 = some true) :
    (bt.text b).take ((bt.text b).length % 2 ^ 32) = b := by
  obtain ⟨str, hfs, hle, htake⟩ := filterString?_of_stored? (t.column_stored hlen)
  have hnull : (t.column b).filterNull 0 = false := rfl
  have hrow : rowPassesFilter (t.equals bt b) (t.column b) 0
      = (memcmp? str (bt.text b) (min b.length ((bt.text b).length % 2 ^ 32))).map fun cmp =>
          FilterOp.equal.ofOrdering
            (tieByLength cmp b.length ((bt.text b).length % 2 ^ 32)) := by
    have hstr : isStringType (t.equals bt b).kind = true := t.isStringType_oid
    show (if (t.column b).filterNull 0 then some false else rowCompare (t.equals bt b) _ 0) = _
    rw [hnull, if_neg Bool.false_ne_true]
    rw [rowCompare]
    rw [if_pos hstr, t.column_slot?]
    simp only [hfs]
    rfl
  rw [hrow] at h
  obtain ⟨cmp, hcmp, heq⟩ := Option.map_eq_some_iff.mp h
  refine take_eq_of_tieByLength hle htake (Nat.mod_le ..) ?_
  rw [hcmp, Option.map_some, eq_of_beq heq]

/-- BLOB filters compare raw bytes exactly for constants of regular characters. -/
theorem binary_compares_raw_iff (bt : BlobText) (t : BinaryType) (bs : List (List Byte))
    (hbs : ∀ b ∈ bs, LogicalType.blob.Holds (.str b)) :
    t.ComparesRaw bt bs ↔ ∀ b ∈ bs, ∀ x ∈ b, bt.regular x = true := by
  constructor
  · intro h b hb
    have hlen : b.length < 2 ^ 32 := hbs b hb
    have hrow := h.compares (t.column b) 0 b (t.equals bt b) rfl (t.column_storedValue? hlen) rfl
      rfl b hb (t.encodeConstant_eq bt b) nofun nofun nofun
    rw [(compareOfLessAndEq_eq_iff b b).mpr rfl] at hrow
    exact (bt.take_text_eq_iff hlen).mp (BinaryType.take_text_of_equals hlen hrow)
  · exact BinaryType.comparesRaw_of_regular hbs

end Exact

/-- The constant `'abc'`. -/
theorem abc_compares_raw : BinaryType.blob.ComparesRaw .duckdb [[97, 98, 99]] :=
  (binary_compares_raw_iff .duckdb .blob [[97, 98, 99]] (by
    intro b hb
    rw [List.mem_singleton.mp hb]
    show 3 < 2 ^ 32
    decide)).mpr (by decide)

/-- `x = '\xFF'::BLOB` drops the row that holds the byte 255: the constant it is
    compared with is four characters long. -/
theorem byte255_dropped :
    encodeConstant .duckdb (BinaryType.constant [255]) .blob = some ⟨[92, 120, 70, 70], 4⟩ ∧
      (BinaryType.blob.column [255]).storedValue? 0 = some (.bytes [255]) ∧
      rowPassesFilter (BinaryType.blob.equals .duckdb [255]) (BinaryType.blob.column [255]) 0
        = some false ∧
      ¬ BinaryType.blob.ComparesRaw .duckdb [[255]] := by
  refine ⟨by decide, by decide, by decide, fun h => ?_⟩
  have hrow := h.compares (BinaryType.blob.column [255]) 0 [255]
    (BinaryType.blob.equals .duckdb [255]) rfl (by decide) rfl rfl [255]
    (List.mem_singleton_self _) (by decide) (by decide) (by decide) (by decide)
  exact absurd hrow (by decide)

end TaeScanner
