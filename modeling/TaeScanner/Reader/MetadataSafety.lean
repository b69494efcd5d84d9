/-
  TaeScanner.Reader.MetadataSafety

  Where `ParseMetadata` reads.

    * a block whose end is computed without wrap-around lies inside the DataMeta
      part, and so does everything the parser takes from it;
    * the range test adds two 32-bit fields of the file, so a block far outside
      can pass it, and the size of the index is a wrapped product, so the loop
      can leave the index.  The exact condition says when it does not.
-/

import TaeScanner.Lib.Checks
import TaeScanner.Reader.Metadata

namespace TaeScanner

open Lib

-- ============================================================================
-- Copies inside and outside
-- ============================================================================

section Copies
variable {buf dm : List Byte} {off n : Nat}

theorem readAt_of_le (h : off + n ≤ buf.length) :
    readAt buf off n = .ok ((buf.drop off).take n) := by
  rw [readAt, slice?_of_le h]

theorem readNat_of_le (h : off + n ≤ buf.length) :
    readNat buf off n = .ok (leNat ((buf.drop off).take n)) := by
  rw [readNat, readAt_of_le h]
  rfl

theorem readNat_of_gt (h : buf.length < off + n) : readNat buf off n = .error .badRange := by
  rw [readNat, readAt, slice?, if_neg (Nat.not_le.mpr h)]
  rfl

theorem readZoneMap_of_le (h : off + zmSize ≤ buf.length) : ∃ zm, readZoneMap buf off = .ok zm := by
  rw [readZoneMap]
  split
  · exact ⟨_, rfl⟩
  · next hnone =>
      rw [slice?_of_le h] at hnone
      cases hnone

/-- A computation that fails in no other way than by leaving a buffer. -/
def OnlyBadRange {α : Type} (x : Except ReadError α) : Prop := ∀ e, x = .error e → e = .badRange

theorem OnlyBadRange.bind {α β : Type} {x : Except ReadError α} {f : α → Except ReadError β}
    (hx : OnlyBadRange x) (hf : ∀ a, OnlyBadRange (f a)) : OnlyBadRange (x >>= f) := by
  cases x with
  | error e' =>
      intro e h
      exact hx e (congrArg Except.error (Except.error.inj h))
  | ok a => exact hf a

theorem OnlyBadRange.pure {α : Type} (a : α) : OnlyBadRange (Except.ok a) := nofun

theorem readAt_onlyBadRange : OnlyBadRange (readAt buf off n) := by
  intro e h
  rw [readAt] at h
  split at h
  · cases h
  · exact (Except.error.inj h).symm

theorem readNat_onlyBadRange : OnlyBadRange (readNat buf off n) := by
  intro e h
  rw [readNat] at h
  cases hread : readAt buf off n with
  | error e' =>
      rw [hread] at h
      exact readAt_onlyBadRange e (hread.trans (congrArg Except.error (Except.error.inj h)))
  | ok bytes =>
      rw [hread] at h
      cases h

theorem readZoneMap_onlyBadRange : OnlyBadRange (readZoneMap buf off) := by
  intro e h
  rw [readZoneMap] at h
  split at h
  · cases h
  · exact (Except.error.inj h).symm

theorem readNat_ok_le {v : Nat} (h : readNat buf off n = .ok v) : off + n ≤ buf.length := by
  by_contra hgt
  rw [readNat, readAt, slice?, if_neg hgt] at h
  cases h

theorem refuseIf_eq_ok {cond : Prop} [Decidable cond] {what : String} {u : Unit} :
    refuseIf cond what = .ok u ↔ ¬cond := by
  rw [refuseIf]
  split
  · next h => exact ⟨nofun, fun hno => absurd h hno⟩
  · next h => exact iff_of_true rfl h

/-- A check that does not refuse. -/
theorem refuseIf_bind_of_not {cond : Prop} [Decidable cond] (h : ¬cond) {what : String} {β : Type}
    {f : Unit → Except ReadError β} : (refuseIf cond what >>= f) = f () := by
  rw [refuseIf, if_neg h]
  rfl

/-- A check passes on to what follows it. -/
theorem refuseIf_bind {cond : Prop} [Decidable cond] {what : String} {β : Type}
    {f : Unit → Except ReadError β} (h : ¬cond → f () ≠ .error .badRange) :
    (refuseIf cond what >>= f) ≠ .error .badRange := by
  rw [refuseIf]
  split
  · exact nofun
  · next hno => exact h hno

theorem readZoneMap_ok_le {zm : ZoneMap} (h : readZoneMap buf off = .ok zm) :
    off + zmSize ≤ buf.length := by
  rw [readZoneMap] at h
  split at h
  · next hsome => exact (slice?_eq_some.mp hsome).1
  · cases h

end Copies

-- ============================================================================
-- Columns and blocks
-- ============================================================================

section Blocks
variable {dm : List Byte} {cm blkOffset blkLength : Nat}

/-- The end of the last field of a ColumnMeta that is parsed. -/
def cmParsedLen : Nat := cmZonemapOff + zmSize

/-- The end of the last field of a BlockHeader that is parsed. -/
def bhParsedLen : Nat := bhMaxSeqOff + 2

theorem parseColumn_onlyBadRange : OnlyBadRange (parseColumn dm cm) :=
  readAt_onlyBadRange.bind fun _ => readNat_onlyBadRange.bind fun _ =>
    readNat_onlyBadRange.bind fun _ => readNat_onlyBadRange.bind fun _ =>
      readAt_onlyBadRange.bind fun _ => readNat_onlyBadRange.bind fun _ =>
        readZoneMap_onlyBadRange.bind fun _ => OnlyBadRange.pure _

theorem parseColumn_ok_iff : (∃ col, parseColumn dm cm = .ok col) ↔ cm + cmParsedLen ≤ dm.length := by
  constructor
  · rintro ⟨col, h⟩
    rw [parseColumn] at h
    obtain ⟨_, -, h⟩ := bind_eq_ok.mp h
    obtain ⟨_, -, h⟩ := bind_eq_ok.mp h
    obtain ⟨_, -, h⟩ := bind_eq_ok.mp h
    obtain ⟨_, -, h⟩ := bind_eq_ok.mp h
    obtain ⟨_, -, h⟩ := bind_eq_ok.mp h
    obtain ⟨_, -, h⟩ := bind_eq_ok.mp h
    obtain ⟨zm, hzm, -⟩ := bind_eq_ok.mp h
    have hle := readZoneMap_ok_le hzm
    rw [cmParsedLen]
    omega
  · intro h
    simp only [cmParsedLen, cmZonemapOff, zmSize] at h
    obtain ⟨zm, hzm⟩ : ∃ zm, readZoneMap dm (cm + cmZonemapOff) = .ok zm :=
      readZoneMap_of_le (by simp only [cmZonemapOff, zmSize]; omega)
    rw [parseColumn]
    rw [readAt_of_le (by simp only [cmDataTypeOff]; omega), readNat_of_le (by simp only [cmIdxOff]; omega),
      readNat_of_le (by simp only [cmNdvOff]; omega), readNat_of_le (by simp only [cmNullCntOff]; omega),
      readAt_of_le (by simp only [cmLocationOff, extentLen]; omega),
      readNat_of_le (by simp only [cmChecksumOff]; omega), hzm]
    exact ⟨_, rfl⟩

/-- The number of columns that are parsed from a block. -/
def blockColumns (dm : List Byte) (blkOffset blkLength : Nat) : Nat :=
  parsedColumns blkLength (leNat ((dm.drop (blkOffset + bhMetaColCntOff)).take 2))

/-- The fields the parser takes from a block are in the buffer. -/
def BlockReadsFit (dm : List Byte) (blkOffset blkLength : Nat) : Prop :=
  blkOffset + bhParsedLen ≤ dm.length ∧ ∀ c < blockColumns dm blkOffset blkLength,
    blkOffset + blockHeaderSize + c * colMetaLen + cmParsedLen ≤ dm.length

/-- The header and the parsed column metas of a block are in the buffer. -/
def BlockFits (dm : List Byte) (blkOffset blkLength : Nat) : Prop :=
  blkOffset + blockHeaderSize + blockColumns dm blkOffset blkLength * colMetaLen ≤ dm.length

theorem parseBlockAt_onlyBadRange : OnlyBadRange (parseBlockAt dm blkOffset blkLength) := by
  refine readNat_onlyBadRange.bind fun _ => readNat_onlyBadRange.bind fun _ =>
    readNat_onlyBadRange.bind fun metaColCount => readNat_onlyBadRange.bind fun _ =>
      OnlyBadRange.bind ?_ fun _ => OnlyBadRange.pure _
  intro e h
  obtain ⟨c, -, -, hc⟩ := mapM_range_eq_error.mp h
  exact parseColumn_onlyBadRange e hc

theorem parseBlockAt_ok (h : BlockReadsFit dm blkOffset blkLength) :
    ∃ blk, parseBlockAt dm blkOffset blkLength = .ok blk := by
  obtain ⟨hheader, hcolumns⟩ := h
  simp only [bhParsedLen, bhMaxSeqOff] at hheader
  obtain ⟨columns, hcols⟩ := exists_mapM_ok.mpr fun c (hc : c ∈ List.range (blockColumns dm blkOffset blkLength)) =>
    parseColumn_ok_iff.mpr (hcolumns c (List.mem_range.mp hc))
  rw [parseBlockAt]
  rw [readNat_of_le (by simp only [bhRowsOff]; omega), readNat_of_le (by simp only [bhColCountOff]; omega),
    readNat_of_le (by simp only [bhMetaColCntOff]; omega),
    readNat_of_le (by simp only [bhMaxSeqOff]; omega)]
  refine ⟨_, bind_eq_ok.mpr ⟨_, rfl, bind_eq_ok.mpr ⟨_, rfl, bind_eq_ok.mpr ⟨_, rfl,
    bind_eq_ok.mpr ⟨_, rfl, bind_eq_ok.mpr ⟨columns, hcols, rfl⟩⟩⟩⟩⟩⟩

/-- A block is parsed if its fields are there, with the columns they ask for. -/
theorem parseBlockAt_eq_ok {blk : BlockInfo} (h : parseBlockAt dm blkOffset blkLength = .ok blk) :
    BlockReadsFit dm blkOffset blkLength ∧
      blk.columns.length = blockColumns dm blkOffset blkLength := by
  rw [parseBlockAt] at h
  obtain ⟨_, -, h⟩ := bind_eq_ok.mp h
  obtain ⟨_, -, h⟩ := bind_eq_ok.mp h
  obtain ⟨metaColCount, hmeta, h⟩ := bind_eq_ok.mp h
  obtain ⟨_, hmax, h⟩ := bind_eq_ok.mp h
  obtain ⟨columns, hcols, h⟩ := bind_eq_ok.mp h
  obtain rfl := Except.ok.inj h
  have hcount : parsedColumns blkLength metaColCount = blockColumns dm blkOffset blkLength := by
    rw [readNat_of_le (readNat_ok_le hmeta)] at hmeta
    rw [blockColumns, Except.ok.inj hmeta]
  rw [hcount] at hcols
  refine ⟨⟨?_, fun c hc => ?_⟩, ?_⟩
  · have hle := readNat_ok_le hmax
    rw [bhParsedLen]
    omega
  · exact parseColumn_ok_iff.mp (exists_mapM_ok.mp ⟨columns, hcols⟩ c (List.mem_range.mpr hc))
  · rw [← (mapM_eq_ok.mp hcols).length_eq, List.length_range]

theorem BlockFits.reads (h : BlockFits dm blkOffset blkLength) : BlockReadsFit dm blkOffset blkLength := by
  simp only [BlockFits, blockHeaderSize, colMetaLen] at h
  refine ⟨by simp only [bhParsedLen, bhMaxSeqOff]; omega, fun c hc => ?_⟩
  simp only [blockHeaderSize, colMetaLen, cmParsedLen, cmZonemapOff, zmSize]
  omega

/-- What is parsed from a block of `blkLength` bytes ends with the block. -/
theorem blockFits_of_le (hheader : blockHeaderSize ≤ blkLength)
    (h : blkOffset + blkLength ≤ dm.length) : BlockFits dm blkOffset blkLength := by
  have hcount : blockHeaderSize + blockColumns dm blkOffset blkLength * colMetaLen ≤ blkLength := by
    rw [blockColumns, parsedColumns]
    split
    · have hdiv := Nat.div_mul_le_self (blkLength - blockHeaderSize) colMetaLen
      omega
    · omega
  rw [BlockFits]
  omega

end Blocks

-- ============================================================================
-- The block index
-- ============================================================================

/-- What the checks before the loop guarantee. -/
structure DataMeta.Found (d : DataMeta) (buf : List Byte) : Prop where
  dm_le : d.dm.length ≤ buf.length
  index_le : d.index.length ≤ d.dm.length
  count : biBlockCountLen ≤ d.index.length

section Index
variable {buf dm : List Byte} {d : DataMeta} {b : Nat}

theorem findIndex_inside : findIndex dm ≠ .error .badRange := by
  refine refuseIf_bind fun hheader => ?_
  rw [readNat_of_le (by simp only [bhMetaColCntOff, blockHeaderSize] at hheader ⊢; omega)]
  refine refuseIf_bind fun hobj => refuseIf_bind fun hroom => ?_
  rw [readNat_of_le (by omega)]
  exact refuseIf_bind fun _ => nofun

theorem findIndex_found (h : findIndex dm = .ok d) :
    d.dm = dm ∧ d.index.length ≤ dm.length ∧ biBlockCountLen ≤ d.index.length := by
  obtain ⟨_, -, h⟩ := bind_eq_ok.mp h
  obtain ⟨objMetaColCount, -, h⟩ := bind_eq_ok.mp h
  obtain ⟨_, -, h⟩ := bind_eq_ok.mp h
  obtain ⟨_, hroom, h⟩ := bind_eq_ok.mp h
  obtain ⟨blockCount, -, h⟩ := bind_eq_ok.mp h
  obtain ⟨_, -, h⟩ := bind_eq_ok.mp h
  obtain rfl := Except.ok.inj h
  exact ⟨rfl, (List.length_drop ..).trans_le (Nat.sub_le ..), Nat.not_lt.mp (refuseIf_eq_ok.mp hroom)⟩

theorem findDataMeta_inside : findDataMeta buf ≠ .error .badRange := by
  refine refuseIf_bind fun hheader => ?_
  simp only [metaV3HeaderLen] at hheader
  rw [readNat_of_le (by simp only [mv3DataCountOff]; omega),
    readNat_of_le (by simp only [mv3DataOffsetOff]; omega)]
  change (if _ then _ else _) ≠ _
  split
  · exact nofun
  · refine refuseIf_bind fun _ => ?_
    intro h
    cases hindex : findIndex (buf.drop (leNat ((buf.drop mv3DataOffsetOff).take 4))) with
    | error e =>
        rw [hindex] at h
        obtain rfl := Except.error.inj h
        exact findIndex_inside hindex
    | ok d =>
        rw [hindex] at h
        cases h

theorem findDataMeta_found (h : findDataMeta buf = .ok (some d)) : d.Found buf := by
  obtain ⟨_, -, h⟩ := bind_eq_ok.mp h
  obtain ⟨dataMetaCount, -, h⟩ := bind_eq_ok.mp h
  obtain ⟨dataMetaOffset, -, h⟩ := bind_eq_ok.mp h
  split at h
  · cases h
  · obtain ⟨_, -, h⟩ := bind_eq_ok.mp h
    obtain ⟨d', hindex, h⟩ := bind_eq_ok.mp h
    obtain rfl : d' = d := Option.some.inj (Except.ok.inj h)
    obtain ⟨hdm, hle, hcount⟩ := findIndex_found hindex
    exact ⟨hdm ▸ (List.length_drop ..).trans_le (Nat.sub_le ..), hdm ▸ hle, hcount⟩

/-- The fields of an entry of the block index, at their exact places. -/
def DataMeta.blkOffset (d : DataMeta) (b : Nat) : Nat :=
  leNat ((d.index.drop (biBlockCountLen + b * biPosLen)).take 4)

def DataMeta.blkLength (d : DataMeta) (b : Nat) : Nat :=
  leNat ((d.index.drop (biBlockCountLen + b * biPosLen + 4)).take 4)

/-- The entry lies in the buffer. -/
def DataMeta.HasEntry (d : DataMeta) (b : Nat) : Prop :=
  biBlockCountLen + (b + 1) * biPosLen ≤ d.index.length

/-- The two checks on an entry pass. -/
def DataMeta.Passes (d : DataMeta) (b : Nat) : Prop :=
  wrapAdd 32 (d.blkOffset b) (d.blkLength b) ≤ d.dm.length ∧ blockHeaderSize ≤ d.blkLength b

/-- The end of the block is no 32-bit number. -/
def DataMeta.Wraps (d : DataMeta) (b : Nat) : Prop := 2 ^ 32 ≤ d.blkOffset b + d.blkLength b

/-- The place of an entry behind one that is there does not wrap. -/
theorem entry_place (hroom : biBlockCountLen + b * biPosLen ≤ d.index.length)
    (hlen : d.index.length < 2 ^ 32) :
    wrapAdd 32 biBlockCountLen (wrapMul 32 b biPosLen) = biBlockCountLen + b * biPosLen := by
  rw [wrapMul_of_lt (by omega), wrapAdd_of_lt (by omega)]

theorem parseBlock_noEntry (hroom : biBlockCountLen + b * biPosLen ≤ d.index.length)
    (hlen : d.index.length < 2 ^ 32) (hno : ¬d.HasEntry b) : d.parseBlock b = .error .badRange := by
  have hsecond : readNat d.index (biBlockCountLen + b * biPosLen + 4) 4 = .error .badRange := by
    apply readNat_of_gt
    simp only [DataMeta.HasEntry, biBlockCountLen, biPosLen] at hno ⊢
    omega
  simp only [DataMeta.parseBlock, entry_place hroom hlen]
  cases hfirst : readNat d.index (biBlockCountLen + b * biPosLen) 4 with
  | error e =>
      obtain rfl := readNat_onlyBadRange e hfirst
      rfl
  | ok blkOffset =>
      rw [hsecond]
      rfl

/-- An entry is refused, or its block is parsed. -/
theorem parseBlock_entry (hentry : d.HasEntry b) (hlen : d.index.length < 2 ^ 32) :
    (d.Passes b ∧ d.parseBlock b = parseBlockAt d.dm (d.blkOffset b) (d.blkLength b)) ∨
      (¬d.Passes b ∧ ∃ what, d.parseBlock b = .error (.runtime what)) := by
  have hplace : biBlockCountLen + b * biPosLen + 8 ≤ d.index.length := by
    simp only [DataMeta.HasEntry, biPosLen] at hentry ⊢
    omega
  have hroom : biBlockCountLen + b * biPosLen ≤ d.index.length := by omega
  have hparse : d.parseBlock b = (do
      refuseIf (d.dm.length < wrapAdd 32 (d.blkOffset b) (d.blkLength b))
        ("block " ++ toString b ++ " out of range")
      refuseIf (d.blkLength b < blockHeaderSize) ("block " ++ toString b ++ " header too small")
      parseBlockAt d.dm (d.blkOffset b) (d.blkLength b)) := by
    simp only [DataMeta.parseBlock, entry_place hroom hlen]
    rw [readNat_of_le (by omega), readNat_of_le (by omega)]
    rfl
  rw [hparse]
  unfold refuseIf
  by_cases hend : d.dm.length < wrapAdd 32 (d.blkOffset b) (d.blkLength b)
  · rw [if_pos hend]
    exact Or.inr ⟨fun h => absurd h.1 (Nat.not_le.mpr hend), _, rfl⟩
  · rw [if_neg hend]
    by_cases hheader : d.blkLength b < blockHeaderSize
    · rw [if_pos hheader]
      exact Or.inr ⟨fun h => absurd h.2 (Nat.not_le.mpr hheader), _, rfl⟩
    · rw [if_neg hheader]
      exact Or.inl ⟨⟨Nat.not_lt.mp hend, Nat.not_lt.mp hheader⟩, rfl⟩

end Index

-- ============================================================================
-- The loop
-- ============================================================================

/-- Every block before `b` is parsed. -/
def DataMeta.Reaches (d : DataMeta) (b : Nat) : Prop := ∀ j < b, ∃ blk, d.parseBlock j = .ok blk

section Loop
variable {buf : List Byte} {d : DataMeta} {b : Nat}

/-- The entry of a block that the loop reaches starts inside the index. -/
theorem entry_room (hfound : d.Found buf) (hlen : buf.length < 2 ^ 32) (hreach : d.Reaches b) :
    biBlockCountLen + b * biPosLen ≤ d.index.length := by
  have hindex : d.index.length < 2 ^ 32 :=
    Nat.lt_of_le_of_lt (Nat.le_trans hfound.index_le hfound.dm_le) hlen
  induction b with
  | zero =>
      have hcount := hfound.count
      omega
  | succ b ih =>
      have hroom := ih fun j hj => hreach j (Nat.lt_succ_of_lt hj)
      by_contra hno
      obtain ⟨blk, hblk⟩ := hreach b (Nat.lt_succ_self b)
      rw [parseBlock_noEntry hroom hindex hno] at hblk
      cases hblk

/-- What the parser does with a block that the loop reaches. -/
theorem parseBlock_cases (hfound : d.Found buf) (hlen : buf.length < 2 ^ 32) (hreach : d.Reaches b) :
    ((∃ blk, d.parseBlock b = .ok blk) ↔
      d.HasEntry b ∧ d.Passes b ∧ BlockReadsFit d.dm (d.blkOffset b) (d.blkLength b)) ∧
    (d.parseBlock b = .error .badRange ↔
      ¬d.HasEntry b ∨ (d.Passes b ∧ ¬BlockReadsFit d.dm (d.blkOffset b) (d.blkLength b))) := by
  have hindex : d.index.length < 2 ^ 32 :=
    Nat.lt_of_le_of_lt (Nat.le_trans hfound.index_le hfound.dm_le) hlen
  by_cases hentry : d.HasEntry b
  · rcases parseBlock_entry hentry hindex with ⟨hpass, hparse⟩ | ⟨hno, what, hparse⟩
    · rw [hparse]
      by_cases hfit : BlockReadsFit d.dm (d.blkOffset b) (d.blkLength b)
      · obtain ⟨blk, hblk⟩ := parseBlockAt_ok hfit
        rw [hblk]
        exact ⟨iff_of_true ⟨_, rfl⟩ ⟨hentry, hpass, hfit⟩,
          iff_of_false nofun fun h => h.elim (fun h => h hentry) fun h => h.2 hfit⟩
      · cases hblk : parseBlockAt d.dm (d.blkOffset b) (d.blkLength b) with
        | ok blk => exact absurd (parseBlockAt_eq_ok hblk).1 hfit
        | error e =>
            obtain rfl := parseBlockAt_onlyBadRange e hblk
            exact ⟨iff_of_false nofun fun h => hfit h.2.2, iff_of_true rfl (Or.inr ⟨hpass, hfit⟩)⟩
    · rw [hparse]
      exact ⟨iff_of_false nofun fun h => hno h.2.1,
        iff_of_false nofun fun h => h.elim (fun h => h hentry) fun h => hno h.1⟩
  · rw [parseBlock_noEntry (entry_room hfound hlen hreach) hindex hentry]
    exact ⟨iff_of_false nofun fun h => hentry h.1, iff_of_true rfl (Or.inl hentry)⟩

/-- A parsed block passed its checks and has the columns its fields ask for. -/
theorem parseBlock_ok (hfound : d.Found buf) (hlen : buf.length < 2 ^ 32) (hreach : d.Reaches b)
    {blk : BlockInfo} (h : d.parseBlock b = .ok blk) :
    d.Passes b ∧ blk.columns.length = blockColumns d.dm (d.blkOffset b) (d.blkLength b) := by
  have hindex : d.index.length < 2 ^ 32 :=
    Nat.lt_of_le_of_lt (Nat.le_trans hfound.index_le hfound.dm_le) hlen
  obtain ⟨hentry, hpass, -⟩ := (parseBlock_cases hfound hlen hreach).1.mp ⟨blk, h⟩
  rcases parseBlock_entry hentry hindex with ⟨-, hparse⟩ | ⟨hno, -⟩
  · exact ⟨hpass, (parseBlockAt_eq_ok (hparse ▸ h)).2⟩
  · exact absurd hpass hno

/-- A block that passes without wrap-around is where its entry says. -/
theorem DataMeta.Passes.fits (hpass : d.Passes b) (hwrap : ¬d.Wraps b) :
    BlockFits d.dm (d.blkOffset b) (d.blkLength b) := by
  have hsum := wrapAdd_of_lt (Nat.not_le.mp hwrap)
  exact blockFits_of_le hpass.2 (hsum ▸ hpass.1)

end Loop

-- ============================================================================
-- When parsing is safe
-- ============================================================================

/-- The parser throws, or reads inside the buffer only and leaves as many blocks
    as the index says, each inside the DataMeta part with its header and its
    parsed column metas. -/
structure ParsesSafely (buf : List Byte) : Prop where
  inside : parseMetadata buf ≠ .error .badRange
  blocks : ∀ md d, parseMetadata buf = .ok md → findDataMeta buf = .ok (some d) →
    md.blocks.length = d.blockCount ∧ ∀ b blk, md.blocks[b]? = some blk →
      d.blkOffset b + blockHeaderSize + blk.columns.length * colMetaLen ≤ d.dm.length

/-- The entries the loop reaches are in the buffer, and a block whose end wraps
    around is nevertheless inside the DataMeta part: what is read of it, and all
    of it if every block passes its checks. -/
structure DataMeta.InRange (d : DataMeta) : Prop where
  entries : ∀ b < d.blockCount, (∀ j < b, d.Passes j) → d.HasEntry b
  reads : ∀ b < d.blockCount, (∀ j ≤ b, d.Passes j) → d.Wraps b →
    BlockReadsFit d.dm (d.blkOffset b) (d.blkLength b)
  blocks : (∀ b < d.blockCount, d.Passes b) → ∀ b < d.blockCount, d.Wraps b →
    BlockFits d.dm (d.blkOffset b) (d.blkLength b)

section Safe
variable {buf : List Byte} {d : DataMeta}

theorem parseMetadata_some (h : findDataMeta buf = .ok (some d)) :
    parseMetadata buf = ((List.range d.blockCount).mapM d.parseBlock).map ObjectMeta.mk := by
  rw [parseMetadata, h]
  change (List.mapM d.parseBlock (List.range d.blockCount) >>= fun blks =>
    Except.ok (ObjectMeta.mk blks)) = _
  cases (List.range d.blockCount).mapM d.parseBlock with
  | error e => rfl
  | ok blks => rfl

/-- Reading leaves the buffer iff some block that the loop reaches makes it. -/
theorem parseMetadata_badRange_iff (h : findDataMeta buf = .ok (some d)) :
    parseMetadata buf = .error .badRange ↔
      ∃ b < d.blockCount, d.Reaches b ∧ d.parseBlock b = .error .badRange := by
  have hiff := mapM_range_eq_error (n := d.blockCount) (g := d.parseBlock) (e := .badRange)
  rw [parseMetadata_some h]
  refine Iff.trans ?_ hiff
  cases (List.range d.blockCount).mapM d.parseBlock with
  | error e => exact ⟨fun h => Except.error.inj h ▸ rfl, fun h => Except.error.inj h ▸ rfl⟩
  | ok blks => exact ⟨nofun, nofun⟩

/-- If no read leaves the buffer, the blocks before one are parsed as soon as
    they pass their checks. -/
theorem reaches_of_passes (hfound : d.Found buf) (hlen : buf.length < 2 ^ 32)
    (hinside : ∀ b < d.blockCount, d.Reaches b → d.parseBlock b ≠ .error .badRange) {b : Nat}
    (hb : b ≤ d.blockCount) (hpass : ∀ j < b, d.Passes j) : d.Reaches b := by
  induction b with
  | zero => exact fun j hj => absurd hj (Nat.not_lt_zero j)
  | succ b ih =>
      have hreach := ih (Nat.le_of_succ_le hb) fun j hj => hpass j (Nat.lt_succ_of_lt hj)
      obtain ⟨hok, hbad⟩ := parseBlock_cases hfound hlen hreach
      have hno := mt hbad.mpr (hinside b hb hreach)
      rw [not_or, not_not, not_and, not_not] at hno
      have hpb := hpass b (Nat.lt_succ_self b)
      intro j hj
      rcases Nat.lt_succ_iff_lt_or_eq.mp hj with hlt | rfl
      · exact hreach j hlt
      · exact hok.mpr ⟨hno.1, hpb, hno.2 hpb⟩

/-- All blocks of the result, and where they are. -/
theorem parseMetadata_blocks (h : findDataMeta buf = .ok (some d)) {md : ObjectMeta}
    (hmd : parseMetadata buf = .ok md) :
    d.Reaches d.blockCount ∧ md.blocks.length = d.blockCount ∧
      ∀ b blk, md.blocks[b]? = some blk → d.parseBlock b = .ok blk := by
  rw [parseMetadata_some h] at hmd
  cases hblks : (List.range d.blockCount).mapM d.parseBlock with
  | error e =>
      rw [hblks] at hmd
      cases hmd
  | ok blks =>
      rw [hblks] at hmd
      obtain rfl := Except.ok.inj hmd
      have hrel := mapM_eq_ok.mp hblks
      refine ⟨fun j hj => exists_mapM_ok.mp ⟨blks, hblks⟩ j (List.mem_range.mpr hj), ?_, ?_⟩
      · exact hrel.length_eq.symm.trans (List.length_range ..)
      · intro b blk hblk
        obtain ⟨x, hx, hparse⟩ := getElem?_of_forall₂ hrel hblk
        obtain ⟨hlt, rfl⟩ := List.getElem?_eq_some_iff.mp hx
        rwa [List.getElem_range] at hparse

/-- In range, the loop never leaves the buffer. -/
theorem parseBlock_inRange (hfound : d.Found buf) (hlen : buf.length < 2 ^ 32) (hrange : d.InRange)
    {b : Nat} (hb : b < d.blockCount) (hreach : d.Reaches b) : d.parseBlock b ≠ .error .badRange := by
  have hpass : ∀ j < b, d.Passes j := fun j hj => by
    obtain ⟨blk, hblk⟩ := hreach j hj
    exact (parseBlock_ok hfound hlen (fun i hi => hreach i (Nat.lt_trans hi hj)) hblk).1
  rw [Ne, (parseBlock_cases hfound hlen hreach).2]
  rintro (hno | ⟨hpb, hno⟩)
  · exact hno (hrange.entries b hb hpass)
  · by_cases hwrap : d.Wraps b
    · refine hno (hrange.reads b hb (fun j hj => ?_) hwrap)
      exact (Nat.lt_or_eq_of_le hj).elim (hpass j) fun h => h ▸ hpb
    · exact hno (hpb.fits hwrap).reads

/-- Parsing is memory safe exactly if the entries the loop reaches are in the
    buffer and no block passes the range test by wrapping around although it is
    outside. -/
theorem parseMetadata_safe_iff (buf : List Byte) (hlen : buf.length < 2 ^ 32) :
    ParsesSafely buf ↔ ∀ d, findDataMeta buf = .ok (some d) → d.InRange := by
  constructor
  · intro hsafe d hd
    have hfound := findDataMeta_found hd
    have hinside : ∀ b < d.blockCount, d.Reaches b → d.parseBlock b ≠ .error .badRange :=
      fun b hb hreach hbad =>
        hsafe.inside ((parseMetadata_badRange_iff hd).mpr ⟨b, hb, hreach, hbad⟩)
    have hreaches : ∀ b ≤ d.blockCount, (∀ j < b, d.Passes j) → d.Reaches b :=
      fun b hb hpass => reaches_of_passes hfound hlen hinside hb hpass
    refine ⟨fun b hb hpass => ?_, fun b hb hpass _ => ?_, fun hpass b hb _ => ?_⟩
    · have hreach := hreaches b (Nat.le_of_lt hb) hpass
      have hno := mt (parseBlock_cases hfound hlen hreach).2.mpr (hinside b hb hreach)
      exact not_not.mp fun hentry => hno (Or.inl hentry)
    · have hreach := hreaches b (Nat.le_of_lt hb) fun j hj => hpass j (Nat.le_of_lt hj)
      have hno := mt (parseBlock_cases hfound hlen hreach).2.mpr (hinside b hb hreach)
      exact not_not.mp fun hfit => hno (Or.inr ⟨hpass b (Nat.le_refl b), hfit⟩)
    · have hreach := hreaches d.blockCount (Nat.le_refl _) hpass
      obtain ⟨blks, hblks⟩ : ∃ blks, (List.range d.blockCount).mapM d.parseBlock = .ok blks :=
        exists_mapM_ok.mpr fun j hj => hreach j (List.mem_range.mp hj)
      have hmd : parseMetadata buf = .ok ⟨blks⟩ := by
        rw [parseMetadata_some hd, hblks]
        rfl
      obtain ⟨hcount, hplaces⟩ := hsafe.blocks _ d hmd hd
      obtain ⟨blk, hblk⟩ : ∃ blk, blks[b]? = some blk :=
        ⟨_, List.getElem?_eq_getElem (hcount.symm ▸ hb : b < blks.length)⟩
      have hparse := (parseMetadata_blocks hd hmd).2.2 b blk hblk
      have hb' := fun j (hj : j < b) => hreach j (Nat.lt_trans hj hb)
      rw [BlockFits, ← (parseBlock_ok hfound hlen hb' hparse).2]
      exact hplaces b blk hblk
  · intro hrange
    refine ⟨fun hbad => ?_, fun md d hmd hd => ?_⟩
    · cases hd : findDataMeta buf with
      | error e =>
          rw [parseMetadata, hd] at hbad
          obtain rfl := Except.error.inj hbad
          exact findDataMeta_inside hd
      | ok found =>
          cases found with
          | none =>
              rw [parseMetadata, hd] at hbad
              cases hbad
          | some d =>
              obtain ⟨b, hb, hreach, hbad⟩ := (parseMetadata_badRange_iff hd).mp hbad
              exact parseBlock_inRange (findDataMeta_found hd) hlen (hrange d hd) hb hreach hbad
    · have hfound := findDataMeta_found hd
      obtain ⟨hreach, hcount, hparse⟩ := parseMetadata_blocks hd hmd
      have hbefore : ∀ b ≤ d.blockCount, d.Reaches b :=
        fun b hb j hj => hreach j (Nat.lt_of_lt_of_le hj hb)
      have hpass : ∀ b < d.blockCount, d.Passes b := fun b hb => by
        obtain ⟨blk, hblk⟩ := hreach b hb
        exact (parseBlock_ok hfound hlen (hbefore b (Nat.le_of_lt hb)) hblk).1
      refine ⟨hcount, fun b blk hblk => ?_⟩
      have hb : b < d.blockCount := hcount ▸ (List.getElem?_eq_some_iff.mp hblk).1
      rw [(parseBlock_ok hfound hlen (hbefore b (Nat.le_of_lt hb)) (hparse b blk hblk)).2]
      by_cases hwrap : d.Wraps b
      · exact (hrange d hd).blocks hpass b hb hwrap
      · exact (hpass b hb).fits hwrap

/-- Without wrap-around the parser stays in range. -/
theorem DataMeta.inRange_of_noWrap (hindex : biBlockCountLen + d.blockCount * biPosLen ≤ d.index.length)
    (hblocks : ∀ b < d.blockCount, ¬d.Wraps b) : d.InRange := by
  refine ⟨fun b hb _ => ?_, fun b hb _ hwrap => absurd hwrap (hblocks b hb),
    fun _ b hb hwrap => absurd hwrap (hblocks b hb)⟩
  have hmul : (b + 1) * biPosLen ≤ d.blockCount * biPosLen := Nat.mul_le_mul_right _ hb
  rw [DataMeta.HasEntry]
  omega

end Safe

/-- Metadata with one block of no columns, whose entry is given; `pad` bytes follow
    the index. -/
def oneBlockMeta (blkOffset blkLength pad : Nat) : List Byte :=
  [1, 0, 32, 0, 0, 0] ++ List.replicate 26 0 ++ List.replicate 179 0 ++ leBytes 4 1 ++
    leBytes 4 blkOffset ++ leBytes 4 blkLength ++ List.replicate pad 0

/-- The block right behind the index. -/
theorem oneBlockMeta_safe : ParsesSafely (oneBlockMeta 191 179 179) := by
  refine (parseMetadata_safe_iff (oneBlockMeta 191 179 179) (by decide +kernel)).mpr fun d hd => ?_
  have hfound : findDataMeta (oneBlockMeta 191 179 179) = .ok (some
      ⟨(oneBlockMeta 191 179 179).drop 32, (oneBlockMeta 191 179 179).drop 211, 1⟩) := by
    decide +kernel
  obtain rfl := Option.some.inj (Except.ok.inj (hfound.symm.trans hd))
  refine DataMeta.inRange_of_noWrap (by decide +kernel) fun b hb => ?_
  obtain rfl : b = 0 := Nat.lt_one_iff.mp hb
  rw [DataMeta.Wraps]
  decide +kernel

/-- A block at `0xFFFFFF00` of length `0x200` ends at `0x100` in 32 bits, passes
    the range test, and is read far outside of the buffer. -/
theorem wrappingBlock_leaves_buffer :
    parseMetadata (oneBlockMeta 0xFFFFFF00 0x200 65) = .error .badRange ∧
      ¬ParsesSafely (oneBlockMeta 0xFFFFFF00 0x200 65) := by
  have hbad : parseMetadata (oneBlockMeta 0xFFFFFF00 0x200 65) = .error .badRange := by
    decide +kernel
  exact ⟨hbad, fun h => h.inside hbad⟩

end TaeScanner
