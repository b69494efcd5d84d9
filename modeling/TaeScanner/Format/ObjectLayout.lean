/-
  TaeScanner.Format.ObjectLayout

  `ParseMetadata` on metadata that was built: the parser finds each field where
  the builder wrote it.

    * one lemma for a column meta, one for a block, one for the whole buffer;
    * a part that lies in the DataMeta part at some offset is read field by field,
      so the offsets of the nested parts add up.
-/

import TaeScanner.Format.ObjectFile
import TaeScanner.Reader.MetadataSafety

namespace TaeScanner

open Lib

-- ============================================================================
-- Packed numbers
-- ============================================================================

section Pack
variable {n v : Nat} {bs : List Byte}

theorem pack_eq_some : pack n v = some bs ↔ v < 256 ^ n ∧ bs = leBytes n v := by
  rw [pack]
  split
  · next h => exact ⟨fun heq => ⟨h, (Option.some.inj heq).symm⟩, fun heq => congrArg some heq.2.symm⟩
  · next h => exact ⟨nofun, fun heq => absurd heq.1 h⟩

theorem leNat_leBytes_of_lt (h : v < 256 ^ n) : leNat (leBytes n v) = v := by
  rw [leNat_leBytes, Nat.mod_eq_of_lt h]

/-- A packed extent reads back. -/
theorem packExtent_spec {alg offset length originSize : Nat}
    (h : packExtent alg offset length originSize = some bs) :
    bs.length = extentLen ∧ Extent.ofBytes bs = ⟨BitVec.ofNat 8 alg, offset, length, originSize⟩ ∧
      offset < 2 ^ 32 ∧ length < 2 ^ 32 ∧ originSize < 2 ^ 32 := by
  simp only [packExtent, Option.bind_eq_bind, Option.bind_eq_some_iff, pack_eq_some] at h
  obtain ⟨_, ⟨halg, rfl⟩, _, ⟨hoffset, rfl⟩, _, ⟨hlength, rfl⟩, _, ⟨horigin, rfl⟩, h⟩ := h
  obtain rfl := Option.some.inj h
  have hwidth : ∀ m : Nat, (leBytes 4 m).length = 4 := leBytes_length 4
  have hone : (leBytes 1 alg).length = 1 := leBytes_length 1 alg
  refine ⟨?_, ?_, hoffset, hlength, horigin⟩
  · simp only [List.length_append, leBytes_length, extentLen]
  · have hdrop5 : (leBytes 1 alg ++ (leBytes 4 offset ++ (leBytes 4 length ++ leBytes 4 originSize))).drop 5
        = leBytes 4 length ++ leBytes 4 originSize := by
      rw [← List.append_assoc]
      exact List.drop_left' (by rw [List.length_append, hone, hwidth])
    have hdrop9 : (leBytes 1 alg ++ (leBytes 4 offset ++ (leBytes 4 length ++ leBytes 4 originSize))).drop 9
        = leBytes 4 originSize := by
      rw [← List.append_assoc, ← List.append_assoc]
      exact List.drop_left' (by rw [List.length_append, List.length_append, hone, hwidth, hwidth])
    rw [Extent.ofBytes]
    rw [List.drop_left' hone, hdrop5, hdrop9, List.take_left' (hwidth _), List.take_left' (hwidth _),
      List.take_of_length_le (Nat.le_of_eq (hwidth _)), leNat_leBytes_of_lt hoffset, leNat_leBytes_of_lt hlength,
      leNat_leBytes_of_lt horigin]
    rfl

end Pack

-- ============================================================================
-- Reading a part of a buffer
-- ============================================================================

section Part
variable {buf part f : List Byte} {base w off n : Nat}

theorem readNat_slice (hf : slice? buf off n = some f) : readNat buf off n = .ok (leNat f) := by
  rw [readNat, readAt, hf]
  rfl

theorem readAt_part (hpart : slice? buf base w = some part) (hf : slice? part off n = some f) :
    readAt buf (base + off) n = .ok f := by
  have hlen := slice?_length hpart
  have hin := (slice?_eq_some.mp hf).1
  rw [readAt, ← slice?_slice hpart (by omega), hf]

theorem readNat_part (hpart : slice? buf base w = some part) (hf : slice? part off n = some f) :
    readNat buf (base + off) n = .ok (leNat f) := by
  rw [readNat, readAt_part hpart hf]
  rfl

theorem readZoneMap_part {zm : ZoneMap} (hpart : slice? buf base w = some part)
    (hf : slice? part off zmSize = some zm.data) : readZoneMap buf (base + off) = .ok zm := by
  have hlen := slice?_length hpart
  have hin := (slice?_eq_some.mp hf).1
  have hslice : slice? buf (base + off) zmSize = some zm.data := by
    rw [← slice?_slice hpart (by omega), hf]
  rw [readZoneMap]
  split
  · next bytes hbytes =>
      obtain rfl := Option.some.inj (hbytes.symm.trans hslice)
      rfl
  · next hnone =>
      rw [hslice] at hnone
      cases hnone

end Part

-- ============================================================================
-- Column metas
-- ============================================================================

section ColumnMeta
variable {dataType : Byte} {idx ndv nullCnt : Nat} {extent bs dm : List Byte} {zm : ZoneMap} {cm : Nat}

theorem buildColMeta_eq_some (h : buildColMeta dataType idx ndv nullCnt extent zm = some bs) :
    (idx < 256 ^ 2 ∧ ndv < 256 ^ 4 ∧ nullCnt < 256 ^ 4) ∧
      bs = writeFields (List.replicate colMetaLen 0)
        (colMetaFields dataType (leBytes 2 idx) (leBytes 4 ndv) (leBytes 4 nullCnt) extent zm) := by
  simp only [buildColMeta, Option.bind_eq_bind, Option.bind_eq_some_iff, pack_eq_some] at h
  obtain ⟨_, ⟨hidx, rfl⟩, _, ⟨hndv, rfl⟩, _, ⟨hnull, rfl⟩, h⟩ := h
  exact ⟨⟨hidx, hndv, hnull⟩, (Option.some.inj h).symm⟩

/-- The fields lie in the column meta, apart from each other. -/
theorem colMetaFields_in (hextent : extent.length = extentLen) :
    ∀ f ∈ colMetaFields dataType (leBytes 2 idx) (leBytes 4 ndv) (leBytes 4 nullCnt) extent zm,
      f.1 + f.2.length ≤ (List.replicate colMetaLen (0 : Byte)).length := by
  simp only [colMetaFields, List.forall_mem_cons, List.length_replicate, leBytes_length, hextent,
    zm.length_eq, List.length_singleton]
  decide

theorem colMetaFields_apart (hextent : extent.length = extentLen) :
    (colMetaFields dataType (leBytes 2 idx) (leBytes 4 ndv) (leBytes 4 nullCnt) extent zm).Pairwise
      fun f g => g.1 + g.2.length ≤ f.1 ∨ f.1 + f.2.length ≤ g.1 := by
  simp only [colMetaFields, List.pairwise_cons, List.forall_mem_cons, leBytes_length, hextent,
    zm.length_eq, List.length_singleton]
  decide

theorem buildColMeta_length (h : buildColMeta dataType idx ndv nullCnt extent zm = some bs)
    (hextent : extent.length = extentLen) : bs.length = colMetaLen := by
  obtain ⟨-, rfl⟩ := buildColMeta_eq_some h
  rw [writeFields_length (colMetaFields_in hextent), List.length_replicate]

/-- Each field of a column meta reads back. -/
theorem colMeta_field (h : buildColMeta dataType idx ndv nullCnt extent zm = some bs)
    (hextent : extent.length = extentLen) {off n : Nat} {v : List Byte} (hn : v.length = n)
    (hv : (off, v) ∈ colMetaFields dataType (leBytes 2 idx) (leBytes 4 ndv) (leBytes 4 nullCnt) extent zm) :
    slice? bs off n = some v := by
  obtain ⟨-, rfl⟩ := buildColMeta_eq_some h
  exact slice?_writeFields (colMetaFields_in hextent) (colMetaFields_apart hextent) hv hn

/-- The checksum is left zero. -/
theorem colMeta_checksum (h : buildColMeta dataType idx ndv nullCnt extent zm = some bs)
    (hextent : extent.length = extentLen) : slice? bs cmChecksumOff 4 = some [0, 0, 0, 0] := by
  obtain ⟨-, rfl⟩ := buildColMeta_eq_some h
  have hzeros : slice? (List.replicate colMetaLen (0 : Byte)) cmChecksumOff 4 = some [0, 0, 0, 0] := by
    rw [slice?_of_le (by rw [List.length_replicate]; decide), List.drop_replicate, List.take_replicate]
    rfl
  rw [← hzeros]
  apply slice?_writeFields_gap (colMetaFields_in hextent)
  simp only [colMetaFields, List.forall_mem_cons, leBytes_length, hextent, zm.length_eq,
    List.length_singleton]
  decide

/-- A column meta that was built is parsed. -/
theorem parseColumn_built (h : buildColMeta dataType idx ndv nullCnt extent zm = some bs)
    (hextent : extent.length = extentLen) (hbs : slice? dm cm colMetaLen = some bs) :
    parseColumn dm cm = .ok {
      dataType := dataType, idx := idx, ndv := ndv, nullCnt := nullCnt,
      location := Extent.ofBytes extent, checksum := 0, zoneMap := zm } := by
  obtain ⟨⟨hidx, hndv, hnull⟩, -⟩ := buildColMeta_eq_some h
  have hfType : slice? bs cmDataTypeOff 1 = some [dataType] :=
    colMeta_field h hextent rfl (by simp [colMetaFields])
  have hfIdx : slice? bs cmIdxOff 2 = some (leBytes 2 idx) :=
    colMeta_field h hextent (leBytes_length ..) (by simp [colMetaFields])
  have hfNdv : slice? bs cmNdvOff 4 = some (leBytes 4 ndv) :=
    colMeta_field h hextent (leBytes_length ..) (by simp [colMetaFields])
  have hfNull : slice? bs cmNullCntOff 4 = some (leBytes 4 nullCnt) :=
    colMeta_field h hextent (leBytes_length ..) (by simp [colMetaFields])
  have hfLocation : slice? bs cmLocationOff extentLen = some extent :=
    colMeta_field h hextent hextent (by simp [colMetaFields])
  have hfZone : slice? bs cmZonemapOff zmSize = some zm.data :=
    colMeta_field h hextent zm.length_eq (by simp [colMetaFields])
  rw [parseColumn, readAt_part hbs hfType, readNat_part hbs hfIdx, readNat_part hbs hfNdv,
    readNat_part hbs hfNull, readAt_part hbs hfLocation, readNat_part hbs (colMeta_checksum h hextent),
    readZoneMap_part hbs hfZone, leNat_leBytes_of_lt hidx, leNat_leBytes_of_lt hndv,
    leNat_leBytes_of_lt hnull]
  rfl

end ColumnMeta

-- ============================================================================
-- Blocks
-- ============================================================================

section BlockHeader
variable {rows colCount : Nat} {bs dm : List Byte} {off : Nat}

theorem buildBlockHeader_eq_some (h : buildBlockHeader rows colCount = some bs) :
    (rows < 256 ^ 4 ∧ colCount < 256 ^ 2 ∧ colCount - 1 < 256 ^ 2) ∧
      bs = writeFields (List.replicate blockHeaderSize 0) (blockHeaderFields (leBytes 4 rows)
        (leBytes 2 colCount) (leBytes 2 colCount) (leBytes 2 (colCount - 1))) := by
  rw [buildBlockHeader] at h
  split at h
  · cases h
  · simp only [Option.bind_eq_bind, Option.bind_eq_some_iff, pack_eq_some] at h
    obtain ⟨_, ⟨hrows, rfl⟩, _, ⟨hcols, rfl⟩, _, ⟨hmax, rfl⟩, h⟩ := h
    exact ⟨⟨hrows, hcols, hmax⟩, (Option.some.inj h).symm⟩

theorem blockHeaderFields_in : ∀ f ∈ blockHeaderFields (leBytes 4 rows) (leBytes 2 colCount)
    (leBytes 2 colCount) (leBytes 2 (colCount - 1)),
    f.1 + f.2.length ≤ (List.replicate blockHeaderSize (0 : Byte)).length := by
  simp only [blockHeaderFields, List.forall_mem_cons, List.length_replicate, leBytes_length]
  decide

theorem blockHeaderFields_apart : (blockHeaderFields (leBytes 4 rows) (leBytes 2 colCount)
    (leBytes 2 colCount) (leBytes 2 (colCount - 1))).Pairwise
      fun f g => g.1 + g.2.length ≤ f.1 ∨ f.1 + f.2.length ≤ g.1 := by
  simp only [blockHeaderFields, List.pairwise_cons, List.forall_mem_cons, leBytes_length]
  decide

theorem buildBlockHeader_length (h : buildBlockHeader rows colCount = some bs) :
    bs.length = blockHeaderSize := by
  obtain ⟨-, rfl⟩ := buildBlockHeader_eq_some h
  rw [writeFields_length blockHeaderFields_in, List.length_replicate]

/-- Each field of a block header reads back. -/
theorem blockHeader_field (h : buildBlockHeader rows colCount = some bs) {off n : Nat} {v : List Byte}
    (hn : v.length = n) (hv : (off, v) ∈ blockHeaderFields (leBytes 4 rows) (leBytes 2 colCount)
      (leBytes 2 colCount) (leBytes 2 (colCount - 1))) : slice? bs off n = some v := by
  obtain ⟨-, rfl⟩ := buildBlockHeader_eq_some h
  exact slice?_writeFields blockHeaderFields_in blockHeaderFields_apart hv hn

/-- The fields of a block header that starts at `off`. -/
theorem readNat_blockHeader (h : buildBlockHeader rows colCount = some bs)
    (hbs : slice? dm off blockHeaderSize = some bs) :
    readNat dm (off + bhRowsOff) 4 = .ok rows ∧ readNat dm (off + bhColCountOff) 2 = .ok colCount ∧
      readNat dm (off + bhMetaColCntOff) 2 = .ok colCount ∧
      readNat dm (off + bhMaxSeqOff) 2 = .ok (colCount - 1) := by
  obtain ⟨⟨hrows, hcols, hmax⟩, -⟩ := buildBlockHeader_eq_some h
  have hfRows : slice? bs bhRowsOff 4 = some (leBytes 4 rows) :=
    blockHeader_field h (leBytes_length ..) (by simp [blockHeaderFields])
  have hfCols : slice? bs bhColCountOff 2 = some (leBytes 2 colCount) :=
    blockHeader_field h (leBytes_length ..) (by simp [blockHeaderFields])
  have hfMeta : slice? bs bhMetaColCntOff 2 = some (leBytes 2 colCount) :=
    blockHeader_field h (leBytes_length ..) (by simp [blockHeaderFields])
  have hfMax : slice? bs bhMaxSeqOff 2 = some (leBytes 2 (colCount - 1)) :=
    blockHeader_field h (leBytes_length ..) (by simp [blockHeaderFields])
  rw [readNat_part hbs hfRows, readNat_part hbs hfCols, readNat_part hbs hfMeta, readNat_part hbs hfMax,
    leNat_leBytes_of_lt hrows, leNat_leBytes_of_lt hcols, leNat_leBytes_of_lt hmax]
  exact ⟨rfl, rfl, rfl, rfl⟩

end BlockHeader

/-- The column meta that is parsed for a column. -/
def ColumnSpec.info (col : ColumnSpec) (extent : List Byte) (idx : Nat) : ColumnMetaInfo where
  dataType := col.moType
  idx := idx
  ndv := col.ndv
  nullCnt := col.nulls.count true
  location := Extent.ofBytes extent
  checksum := 0
  zoneMap := col.zoneMap

/-- The block that is parsed. -/
def BlockSpec.info (block : BlockSpec) (extents : List (List Byte)) : BlockInfo where
  rows := block.rows
  colCount := block.columns.length
  metaColCount := block.columns.length
  maxSeqnum := block.columns.length - 1
  columns := (block.columns.zip extents).zipIdx.map fun ((col, extent), i) => col.info extent i

/-- The extents of a block: one for each column, 13 bytes each. -/
structure BlockSpec.HasExtents (block : BlockSpec) (extents : List (List Byte)) : Prop where
  length_eq : extents.length = block.columns.length
  width : ∀ e ∈ extents, e.length = extentLen

section Block
variable {block : BlockSpec} {extents : List (List Byte)} {pbm dm : List Byte} {off : Nat}

theorem BlockSpec.HasExtents.getElem? (h : block.HasExtents extents) {c : Nat} {info : ColumnMetaInfo}
    (hinfo : (block.info extents).columns[c]? = some info) :
    ∃ col extent, (block.columns.zip extents).zipIdx[c]? = some ((col, extent), c) ∧
      extent.length = extentLen ∧ info = col.info extent c := by
  rw [BlockSpec.info, List.getElem?_map, Option.map_eq_some_iff] at hinfo
  obtain ⟨⟨⟨col, extent⟩, i⟩, hp, rfl⟩ := hinfo
  have hp' := hp
  rw [List.getElem?_zipIdx, Option.map_eq_some_iff] at hp'
  obtain ⟨p, hzip, heq⟩ := hp'
  obtain ⟨rfl, rfl⟩ := Prod.mk.inj heq
  rw [Nat.zero_add] at hp ⊢
  exact ⟨col, extent, hp, h.width _ (List.of_mem_zip (List.mem_of_getElem? hzip)).2, rfl⟩

/-- The parts of a block's metadata: the header, then column metas of one width. -/
theorem buildBlockMeta_eq_some (h : buildBlockMeta block extents = some pbm) (hext : block.HasExtents extents) :
    ∃ (bh : List Byte) (cms : List (List Byte)), buildBlockHeader block.rows block.columns.length = some bh ∧ pbm = bh ++ cms.flatten ∧
      cms.length = block.columns.length ∧ (∀ cm ∈ cms, cm.length = colMetaLen) ∧
      ∀ c col extent, (block.columns.zip extents).zipIdx[c]? = some ((col, extent), c) →
        ∃ cm, cms[c]? = some cm ∧
          buildColMeta col.moType c col.ndv (col.nulls.count true) extent col.zoneMap = some cm := by
  simp only [buildBlockMeta, Option.bind_eq_bind, Option.bind_eq_some_iff] at h
  obtain ⟨bh, hbh, cms, hcms, h⟩ := h
  have hrel := mapM_eq_some.mp hcms
  refine ⟨bh, cms, hbh, (Option.some.inj h).symm, ?_, fun cm hcm => ?_, fun c col extent hc => ?_⟩
  · rw [← hrel.length_eq, List.length_zipIdx, List.length_zip, hext.length_eq, Nat.min_self]
  · obtain ⟨i, hi⟩ := List.mem_iff_getElem?.mp hcm
    obtain ⟨⟨⟨col, extent⟩, k⟩, hp, hbuild⟩ := getElem?_of_forall₂ hrel hi
    have hmem := List.fst_mem_of_mem_zipIdx (List.mem_of_getElem? hp)
    exact buildColMeta_length hbuild (hext.width _ (List.of_mem_zip hmem).2)
  · obtain ⟨cm, hbuild, hcm⟩ := mapM_getElem? hcms hc
    exact ⟨cm, hcm, hbuild⟩

theorem buildBlockMeta_length (h : buildBlockMeta block extents = some pbm) (hext : block.HasExtents extents) :
    pbm.length = blockHeaderSize + block.columns.length * colMetaLen := by
  obtain ⟨bh, cms, hbh, rfl, hlen, hwidth, -⟩ := buildBlockMeta_eq_some h hext
  rw [List.length_append, buildBlockHeader_length hbh, flatten_length_of_width hwidth, hlen]

/-- A block that was built is parsed. -/
theorem parseBlockAt_built (h : buildBlockMeta block extents = some pbm) (hext : block.HasExtents extents)
    (hpbm : slice? dm off pbm.length = some pbm) :
    parseBlockAt dm off pbm.length = .ok (block.info extents) := by
  have hpbmlen := buildBlockMeta_length h hext
  obtain ⟨bh, cms, hbh, rfl, hlen, hwidth, hcms⟩ := buildBlockMeta_eq_some h hext
  have hbhlen := buildBlockHeader_length hbh
  have hheader : slice? dm off blockHeaderSize = some bh := by
    have hslice := slice?_slice hpbm (i := 0) (m := blockHeaderSize) (by omega)
    rw [Nat.add_zero] at hslice
    rw [← hslice, slice?_front hbhlen]
  obtain ⟨hrows, hcols, hmeta, hmax⟩ := readNat_blockHeader hbh hheader
  have hcount : parsedColumns (bh ++ cms.flatten).length block.columns.length = block.columns.length := by
    rw [parsedColumns, if_neg (by omega)]
  have hcolumns : (List.range block.columns.length).mapM
      (fun c => parseColumn dm (off + blockHeaderSize + c * colMetaLen)) = .ok (block.info extents).columns := by
    apply mapM_range_eq_ok
    · rw [BlockSpec.info, List.length_map, List.length_zipIdx, List.length_zip, hext.length_eq, Nat.min_self]
    · intro c info hinfo
      obtain ⟨col, extent, hp, hextent, rfl⟩ := hext.getElem? hinfo
      obtain ⟨cm, hcm, hbuild⟩ := hcms c col extent hp
      have hc : c < cms.length := (List.getElem?_eq_some_iff.mp hcm).1
      have hcmlen : cm.length = colMetaLen := hwidth cm (List.mem_of_getElem? hcm)
      apply parseColumn_built hbuild hextent
      have hflat := slice?_flatten hcm
      rw [startOf_of_width hwidth (Nat.le_of_lt hc), hcmlen] at hflat
      have hin := (slice?_eq_some.mp hflat).1
      rw [Nat.add_assoc, ← slice?_slice hpbm (by rw [List.length_append]; omega),
        slice?_append_right (by rw [hbhlen]), hflat]
  simp only [parseBlockAt, hrows, hcols, hmeta, hmax, bind, Except.bind, hcount, hcolumns]
  rfl

end Block

-- ============================================================================
-- The block index
-- ============================================================================

section Index
variable {pbms : List (List Byte)} {offset : Nat} {entries : List Byte}

theorem blockIndexEntries_length (h : blockIndexEntries offset pbms = some entries) :
    entries.length = pbms.length * biPosLen := by
  induction pbms generalizing offset entries with
  | nil =>
      obtain rfl := Option.some.inj h
      rw [List.length_nil, List.length_nil, Nat.zero_mul]
  | cons pbm pbms ih =>
      simp only [blockIndexEntries, Option.bind_eq_bind, Option.bind_eq_some_iff, pack_eq_some] at h
      obtain ⟨_, ⟨-, rfl⟩, _, ⟨-, rfl⟩, rest, hrest, h⟩ := h
      obtain rfl := Option.some.inj h
      rw [List.length_append, List.length_append, leBytes_length, leBytes_length, ih hrest,
        List.length_cons, biPosLen]
      omega

/-- An entry holds the place of its block, counted from where the first one starts. -/
theorem blockIndexEntries_entry (h : blockIndexEntries offset pbms = some entries) {b : Nat}
    {pbm : List Byte} (hb : pbms[b]? = some pbm) :
    (offset + startOf pbms b < 256 ^ 4 ∧ pbm.length < 256 ^ 4) ∧
      slice? entries (b * biPosLen) 4 = some (leBytes 4 (offset + startOf pbms b)) ∧
      slice? entries (b * biPosLen + 4) 4 = some (leBytes 4 pbm.length) := by
  induction pbms generalizing offset entries b with
  | nil => cases hb
  | cons first pbms ih =>
      simp only [blockIndexEntries, Option.bind_eq_bind, Option.bind_eq_some_iff, pack_eq_some] at h
      obtain ⟨_, ⟨hoff, rfl⟩, _, ⟨hlen, rfl⟩, rest, hrest, h⟩ := h
      obtain rfl := Option.some.inj h
      have hwidth : ∀ m : Nat, (leBytes 4 m).length = 4 := leBytes_length 4
      cases b with
      | zero =>
          obtain rfl := Option.some.inj hb
          rw [Nat.zero_mul, Nat.zero_add, show startOf (first :: pbms) 0 = 0 from rfl, Nat.add_zero]
          refine ⟨⟨hoff, hlen⟩, ?_, ?_⟩
          · exact slice?_front (hwidth _)
          · exact slice?_part (hwidth _) (hwidth _)
      | succ b =>
          obtain ⟨⟨hoff', hlen'⟩, hplace, hlength⟩ := ih hrest hb
          rw [startOf_succ_cons, ← Nat.add_assoc]
          have hskip : ∀ i, slice? (leBytes 4 offset ++ (leBytes 4 first.length ++ rest))
              ((b + 1) * biPosLen + i) 4 = slice? rest (b * biPosLen + i) 4 := by
            intro i
            rw [← List.append_assoc]
            apply slice?_append_right
            rw [List.length_append, hwidth, hwidth, biPosLen]
            omega
          refine ⟨⟨hoff', hlen'⟩, ?_, ?_⟩
          · rw [← hplace]
            exact hskip 0
          · rw [← hlength]
            exact hskip 4

end Index

-- ============================================================================
-- The whole metadata
-- ============================================================================

section Metadata
variable {blocks : List BlockSpec} {extents : List (List (List Byte))} {bs : List Byte}

/-- The parts of built metadata. -/
structure MetadataParts (blocks : List BlockSpec) (extents : List (List (List Byte))) where
  colCount : Nat
  rows : Nat
  objBlockHeader : List Byte
  objColMetas : List (List Byte)
  pbms : List (List Byte)
  entries : List Byte
  header_eq : buildBlockHeader rows colCount = some objBlockHeader
  colMetas_length : objColMetas.length = colCount
  colMetas_width : ∀ cm ∈ objColMetas, cm.length = colMetaLen
  pbms_eq : (blocks.zip extents).mapM (fun p => buildBlockMeta p.1 p.2) = some pbms
  count_lt : blocks.length < 256 ^ 4
  entries_eq : blockIndexEntries (blockHeaderSize + colCount * colMetaLen +
    (biBlockCountLen + blocks.length * biPosLen)) pbms = some entries
  blocks_ne : blocks ≠ []

namespace MetadataParts
variable (p : MetadataParts blocks extents)

/-- The header and the column metas of the object. -/
def object : List Byte := p.objBlockHeader ++ p.objColMetas.flatten

def index : List Byte := leBytes 4 blocks.length ++ p.entries

/-- The DataMeta part. -/
def dataMeta : List Byte := p.object ++ (p.index ++ p.pbms.flatten)

theorem object_length : p.object.length = blockHeaderSize + p.colCount * colMetaLen := by
  rw [object, List.length_append, buildBlockHeader_length p.header_eq,
    flatten_length_of_width p.colMetas_width, p.colMetas_length]

end MetadataParts

/-- Metadata that was built has its parts. -/
theorem buildMetadata_parts (h : buildMetadata blocks extents = some bs) :
    ∃ p : MetadataParts blocks extents, bs = packIoEntryHeader ioetObjMeta ++ (metaV3Header ++ p.dataMeta) := by
  simp only [buildMetadata, Option.bind_eq_bind, Option.bind_eq_some_iff, pack_eq_some] at h
  obtain ⟨first, hfirst, hdr, hhdr, cms, hcms, pbms, hpbms, _, ⟨hcount, rfl⟩, entries, hentries, h⟩ := h
  have hrel := mapM_eq_some.mp hcms
  have hlen : cms.length = first.columns.length := by rw [← hrel.length_eq, List.length_zipIdx]
  have hwidth : ∀ cm ∈ cms, cm.length = colMetaLen := by
    intro cm hcm
    obtain ⟨i, hi⟩ := List.mem_iff_getElem?.mp hcm
    obtain ⟨⟨col, c⟩, -, hbuild⟩ := getElem?_of_forall₂ hrel hi
    exact buildColMeta_length hbuild List.length_replicate
  have hne : blocks ≠ [] := by
    rintro rfl
    cases hfirst
  exact ⟨⟨_, _, hdr, cms, pbms, entries, hhdr, hlen, hwidth, hpbms, hcount, hentries, hne⟩,
    (Option.some.inj h).symm⟩

namespace MetadataParts
variable (p : MetadataParts blocks extents)

theorem pbms_length (hext : List.Forall₂ BlockSpec.HasExtents blocks extents) :
    p.pbms.length = blocks.length := by
  rw [← (mapM_eq_some.mp p.pbms_eq).length_eq, List.length_zip, hext.length_eq, Nat.min_self]

/-- The place of the first block fits its field, and so do all places in the index. -/
theorem index_lt (hext : List.Forall₂ BlockSpec.HasExtents blocks extents) :
    blockHeaderSize + p.colCount * colMetaLen + (biBlockCountLen + blocks.length * biPosLen) < 2 ^ 32 := by
  have hpos : 0 < p.pbms.length := by
    rw [p.pbms_length hext]
    exact List.length_pos_iff.mpr p.blocks_ne
  have hfirst := (blockIndexEntries_entry p.entries_eq (List.getElem?_eq_getElem hpos)).1.1
  rwa [show startOf p.pbms 0 = 0 from rfl, Nat.add_zero] at hfirst

theorem index_length (hext : List.Forall₂ BlockSpec.HasExtents blocks extents) :
    p.index.length = biBlockCountLen + blocks.length * biPosLen := by
  rw [index, List.length_append, leBytes_length, blockIndexEntries_length p.entries_eq, p.pbms_length hext,
    biBlockCountLen]

/-- The index is found behind the column metas of the object. -/
theorem findIndex_built (hext : List.Forall₂ BlockSpec.HasExtents blocks extents) :
    findIndex p.dataMeta = .ok ⟨p.dataMeta, p.index ++ p.pbms.flatten, blocks.length⟩ := by
  have hobj := p.object_length
  have hindex := p.index_length hext
  have hsmall := p.index_lt hext
  have hlen : p.dataMeta.length = p.object.length + (p.index.length + p.pbms.flatten.length) := by
    rw [dataMeta, List.length_append, List.length_append]
  have hheader : slice? p.dataMeta 0 blockHeaderSize = some p.objBlockHeader := by
    rw [dataMeta, object, List.append_assoc]
    exact slice?_front (buildBlockHeader_length p.header_eq)
  have hcols := (readNat_blockHeader p.header_eq hheader).2.2.1
  rw [Nat.zero_add] at hcols
  have hdrop : p.dataMeta.drop (blockHeaderSize + p.colCount * colMetaLen) = p.index ++ p.pbms.flatten :=
    List.drop_left' hobj
  have hcount : readNat (p.index ++ p.pbms.flatten) 0 biBlockCountLen = .ok blocks.length := by
    have hslice : slice? (p.index ++ p.pbms.flatten) 0 biBlockCountLen = some (leBytes 4 blocks.length) := by
      rw [index, List.append_assoc]
      exact slice?_front (leBytes_length ..)
    rw [readNat_slice hslice, leNat_leBytes_of_lt p.count_lt]
  have htotal : wrapAdd 32 biBlockCountLen (wrapMul 32 blocks.length biPosLen)
      = biBlockCountLen + blocks.length * biPosLen := by
    rw [wrapMul_of_lt (by omega), wrapAdd_of_lt (by omega)]
  rw [findIndex]
  rw [refuseIf_bind_of_not (by omega), hcols, ok_bind, refuseIf_bind_of_not (by omega), hdrop,
    refuseIf_bind_of_not (by rw [List.length_append]; omega), hcount, ok_bind,
    refuseIf_bind_of_not (by rw [htotal, List.length_append]; omega)]
  rfl

/-- A block is found where its entry says, and parsed. -/
theorem parseBlock_built (hext : List.Forall₂ BlockSpec.HasExtents blocks extents) {b : Nat}
    {q : BlockSpec × List (List Byte)} (hq : (blocks.zip extents)[b]? = some q) :
    (⟨p.dataMeta, p.index ++ p.pbms.flatten, blocks.length⟩ : DataMeta).parseBlock b
      = .ok (q.1.info q.2) := by
  have hobj := p.object_length
  have hindex := p.index_length hext
  have hsmall := p.index_lt hext
  obtain ⟨pbm, hbuild, hpbm⟩ := mapM_getElem? p.pbms_eq hq
  have hb : b < blocks.length := p.pbms_length hext ▸ (List.getElem?_eq_some_iff.mp hpbm).1
  have hqext : q.1.HasExtents q.2 := (List.forall₂_iff_zip.mp hext).2 (List.mem_of_getElem? hq)
  have hpbmlen := buildBlockMeta_length hbuild hqext
  obtain ⟨⟨hplace, hlength⟩, hplaceEntry, hlengthEntry⟩ := blockIndexEntries_entry p.entries_eq hpbm
  -- the block lies behind the index
  have hflat := slice?_flatten hpbm
  have hpart : slice? p.dataMeta (blockHeaderSize + p.colCount * colMetaLen +
      (biBlockCountLen + blocks.length * biPosLen) + startOf p.pbms b) pbm.length = some pbm := by
    rw [dataMeta, slice?_append_right (k := biBlockCountLen + blocks.length * biPosLen + startOf p.pbms b)
      (by omega), slice?_append_right (k := startOf p.pbms b) (by omega), hflat]
  have hin := (slice?_eq_some.mp hpart).1
  have hposOff : wrapAdd 32 biBlockCountLen (wrapMul 32 b biPosLen) = biBlockCountLen + b * biPosLen := by
    have hmul : b * biPosLen ≤ blocks.length * biPosLen := Nat.mul_le_mul_right _ (Nat.le_of_lt hb)
    rw [wrapMul_of_lt (by omega), wrapAdd_of_lt (by omega)]
  have hentry : ∀ {i : Nat} {f : List Byte}, slice? p.entries (b * biPosLen + i) 4 = some f →
      readNat (p.index ++ p.pbms.flatten) (biBlockCountLen + b * biPosLen + i) 4 = .ok (leNat f) := by
    intro i f hf
    have hfin := (slice?_eq_some.mp hf).1
    have hentries : p.index.length = 4 + p.entries.length := by
      rw [index, List.length_append, leBytes_length]
    apply readNat_slice
    rw [slice?_append_left (by rw [biBlockCountLen]; omega), index, Nat.add_assoc,
      slice?_append_right (k := b * biPosLen + i) (by rw [leBytes_length, biBlockCountLen]), hf]
  have hplaceRead := hentry (i := 0) hplaceEntry
  rw [Nat.add_zero, leNat_leBytes_of_lt hplace] at hplaceRead
  have hlengthRead := hentry hlengthEntry
  rw [leNat_leBytes_of_lt hlength] at hlengthRead
  have hwrap : wrapAdd 32 (blockHeaderSize + p.colCount * colMetaLen +
      (biBlockCountLen + blocks.length * biPosLen) + startOf p.pbms b) pbm.length ≤ p.dataMeta.length :=
    Nat.le_trans (Nat.mod_le ..) hin
  rw [DataMeta.parseBlock]
  simp only [hposOff]
  rw [hplaceRead, ok_bind, hlengthRead, ok_bind, refuseIf_bind_of_not (Nat.not_lt.mpr hwrap), refuseIf_bind_of_not (by omega)]
  exact parseBlockAt_built hbuild hqext hpart

end MetadataParts

/-- **Parsing undoes building.** -/
theorem parseMetadata_built (h : buildMetadata blocks extents = some bs)
    (hext : List.Forall₂ BlockSpec.HasExtents blocks extents) :
    ∃ body, bs = packIoEntryHeader ioetObjMeta ++ body ∧
      parseMetadata body = .ok ⟨(blocks.zip extents).map fun q => q.1.info q.2⟩ := by
  obtain ⟨p, rfl⟩ := buildMetadata_parts h
  refine ⟨_, rfl, ?_⟩
  have hv3 : metaV3Header.length = metaV3HeaderLen := rfl
  have hcountField : readNat (metaV3Header ++ p.dataMeta) mv3DataCountOff 2 = .ok 1 := by
    have hslice : slice? (metaV3Header ++ p.dataMeta) mv3DataCountOff 2 = some (leBytes 2 1) := by
      rw [slice?_append_left (by rw [hv3]; decide)]
      rfl
    rw [readNat_slice hslice]
    rfl
  have hoffsetField : readNat (metaV3Header ++ p.dataMeta) mv3DataOffsetOff 4 = .ok metaV3HeaderLen := by
    have hslice : slice? (metaV3Header ++ p.dataMeta) mv3DataOffsetOff 4
        = some (leBytes 4 metaV3HeaderLen) := by
      rw [slice?_append_left (by rw [hv3]; decide)]
      rfl
    rw [readNat_slice hslice]
    rfl
  have hfound : findDataMeta (metaV3Header ++ p.dataMeta)
      = .ok (some ⟨p.dataMeta, p.index ++ p.pbms.flatten, blocks.length⟩) := by
    have hobj := p.object_length
    have hlong : metaV3HeaderLen < (metaV3Header ++ p.dataMeta).length := by
      rw [MetadataParts.dataMeta, List.length_append, List.length_append, hv3, hobj, blockHeaderSize]
      omega
    have hdrop : (metaV3Header ++ p.dataMeta).drop metaV3HeaderLen = p.dataMeta := List.drop_left' hv3
    rw [findDataMeta]
    rw [refuseIf_bind_of_not (by omega), hcountField, ok_bind, hoffsetField, ok_bind, if_neg (by decide),
      refuseIf_bind_of_not (by omega), hdrop, p.findIndex_built hext]
    rfl
  have hblocks : (List.range blocks.length).mapM
      (⟨p.dataMeta, p.index ++ p.pbms.flatten, blocks.length⟩ : DataMeta).parseBlock
        = .ok ((blocks.zip extents).map fun q => q.1.info q.2) := by
    apply mapM_range_eq_ok
    · rw [List.length_map, List.length_zip, hext.length_eq, Nat.min_self]
    · intro b info hinfo
      rw [List.getElem?_map, Option.map_eq_some_iff] at hinfo
      obtain ⟨q, hq, rfl⟩ := hinfo
      exact p.parseBlock_built hext hq
  rw [parseMetadata_some hfound, hblocks]
  rfl

end Metadata

end TaeScanner
