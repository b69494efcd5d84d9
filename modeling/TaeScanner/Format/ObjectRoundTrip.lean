/-
  TaeScanner.Format.ObjectRoundTrip

  Reading undoes writing over the whole object format.

    1. a section that was appended is found behind its extent, whatever is
       appended later;
    2. a file that was built has its metadata and all columns behind their extents;
    3. `ReadMeta` parses the metadata, `ReadBlock` decodes the columns.
-/

import TaeScanner.Format.ObjectLayout
import TaeScanner.Reader.ReadBlockSpec

namespace TaeScanner

open Lib

-- ============================================================================
-- Sections
-- ============================================================================

/-- LZ4 decompression inverts LZ4 compression. -/
def LZ4.Inverts (lz4 : LZ4) (lz4Compress : List Byte → Option (List Byte)) : Prop :=
  ∀ data compressed, lz4Compress data = some compressed →
    lz4.decompressSafe compressed data.length = ((data.length : Int), data)

/-- The bytes that are stored at an extent, decompressed if needed. -/
def LZ4.unpack (lz4 : LZ4) (ext : Extent) (raw : List Byte) : Except ReadError (List Byte) :=
  if ext.isCompressed then lz4.decompress raw ext.originSize else .ok raw

/-- The buffer has the data behind an extent that was written as `extent`. -/
structure Stored (lz4 : LZ4) (buf extent data : List Byte) : Prop where
  width : extent.length = extentLen
  behind : headerSize ≤ (Extent.ofBytes extent).offset
  found : ∃ raw, slice? buf (Extent.ofBytes extent).offset (Extent.ofBytes extent).length = some raw ∧
    lz4.unpack (Extent.ofBytes extent) raw = .ok data

section Sections
variable {lz4 : LZ4} {lz4Compress : List Byte → Option (List Byte)} {compress : Bool}
variable {buf buf' data extent : List Byte}

theorem Stored.append (h : Stored lz4 buf extent data) (more : List Byte) :
    Stored lz4 (buf ++ more) extent data := by
  obtain ⟨raw, hraw, hunpack⟩ := h.found
  refine ⟨h.width, h.behind, raw, ?_, hunpack⟩
  rw [slice?_append_left (slice?_eq_some.mp hraw).1, hraw]

/-- What is decompressed is what was compressed. -/
theorem LZ4.Inverts.decompress (hinv : lz4.Inverts lz4Compress) {compressed : List Byte}
    (h : lz4Compress data = some compressed) : lz4.decompress compressed data.length = .ok data := by
  have hzero : ¬((data.length : Int) < 0 ∨ (data.length : Int) ≠ data.length) := by omega
  simp only [LZ4.decompress, hinv data compressed h, if_neg hzero]

/-- A section that was appended is stored at the end. -/
theorem appendSection_spec (hinv : lz4.Inverts lz4Compress) (hbuf : headerSize ≤ buf.length)
    (h : appendSection lz4Compress compress buf data = some (buf', extent)) :
    (∃ more, buf' = buf ++ more) ∧ Stored lz4 buf' extent data ∧ buf.length < 2 ^ 32 ∧
      (Extent.ofBytes extent).offset = buf.length ∧ buf'.length < 2 ^ 33 := by
  rw [appendSection] at h
  split at h
  · simp only [Option.bind_eq_bind, Option.bind_eq_some_iff] at h
    obtain ⟨compressed, hcompress, packed, hpack, h⟩ := h
    obtain ⟨rfl, rfl⟩ := Prod.mk.inj (Option.some.inj h)
    obtain ⟨hwidth, hext, hoff, hlen, -⟩ := packExtent_spec hpack
    refine ⟨⟨_, rfl⟩, ⟨hwidth, by rw [hext]; exact hbuf, compressed, ?_, ?_⟩, hoff, by rw [hext],
      by rw [List.length_append]; omega⟩
    · rw [hext]
      exact slice?_suffix rfl rfl
    · rw [hext]
      exact hinv.decompress hcompress
  · simp only [Option.bind_eq_bind, Option.bind_eq_some_iff] at h
    obtain ⟨packed, hpack, h⟩ := h
    obtain ⟨rfl, rfl⟩ := Prod.mk.inj (Option.some.inj h)
    obtain ⟨hwidth, hext, hoff, hlen, -⟩ := packExtent_spec hpack
    refine ⟨⟨_, rfl⟩, ⟨hwidth, by rw [hext]; exact hbuf, data, ?_, ?_⟩, hoff, by rw [hext],
      by rw [List.length_append]; omega⟩
    · rw [hext]
      exact slice?_suffix rfl rfl
    · rw [hext]
      rfl

/-- The extents of the columns of one block, each with its column behind it. -/
def ColumnsStored (lz4 : LZ4) (buf : List Byte) (cols : List ColumnSpec) (extents : List (List Byte)) : Prop :=
  List.Forall₂ (fun col extent => Stored lz4 buf extent (buildColDataExtent col.vectorBytes)) cols extents

theorem ColumnsStored.append {cols : List ColumnSpec} {extents : List (List Byte)}
    (h : ColumnsStored lz4 buf cols extents) (more : List Byte) :
    ColumnsStored lz4 (buf ++ more) cols extents :=
  h.imp fun _ _ hstored => hstored.append more

theorem writeColumns_spec (hinv : lz4.Inverts lz4Compress) {cols : List ColumnSpec}
    {extents : List (List Byte)} (hbuf : headerSize ≤ buf.length)
    (h : writeColumns lz4Compress compress buf cols = some (buf', extents)) :
    (∃ more, buf' = buf ++ more) ∧ ColumnsStored lz4 buf' cols extents := by
  induction cols generalizing buf extents with
  | nil =>
      obtain ⟨rfl, rfl⟩ := Prod.mk.inj (Option.some.inj h)
      exact ⟨⟨[], (List.append_nil _).symm⟩, .nil⟩
  | cons col cols ih =>
      simp only [writeColumns, Option.bind_eq_bind, Option.bind_eq_some_iff] at h
      obtain ⟨⟨buf₁, extent⟩, hfirst, ⟨buf₂, rest⟩, hrest, h⟩ := h
      obtain ⟨rfl, rfl⟩ := Prod.mk.inj (Option.some.inj h)
      obtain ⟨⟨more₁, rfl⟩, hstored, -, -⟩ := appendSection_spec hinv hbuf hfirst
      have hbuf₁ : headerSize ≤ (buf ++ more₁).length := by
        rw [List.length_append]
        omega
      obtain ⟨⟨more₂, rfl⟩, hcols⟩ := ih hbuf₁ hrest
      exact ⟨⟨more₁ ++ more₂, List.append_assoc ..⟩, .cons (hstored.append more₂) hcols⟩

/-- The extents of all blocks, each with its columns behind it. -/
def BlocksStored (lz4 : LZ4) (buf : List Byte) (blocks : List BlockSpec)
    (extents : List (List (List Byte))) : Prop :=
  List.Forall₂ (fun block exts => ColumnsStored lz4 buf block.columns exts) blocks extents

theorem BlocksStored.append {blocks : List BlockSpec} {extents : List (List (List Byte))}
    (h : BlocksStored lz4 buf blocks extents) (more : List Byte) :
    BlocksStored lz4 (buf ++ more) blocks extents :=
  h.imp fun _ _ hcols => hcols.append more

theorem writeBlocks_spec (hinv : lz4.Inverts lz4Compress) {blocks : List BlockSpec}
    {extents : List (List (List Byte))} (hbuf : headerSize ≤ buf.length)
    (h : writeBlocks lz4Compress compress buf blocks = some (buf', extents)) :
    (∃ more, buf' = buf ++ more) ∧ BlocksStored lz4 buf' blocks extents := by
  induction blocks generalizing buf extents with
  | nil =>
      obtain ⟨rfl, rfl⟩ := Prod.mk.inj (Option.some.inj h)
      exact ⟨⟨[], (List.append_nil _).symm⟩, .nil⟩
  | cons block blocks ih =>
      simp only [writeBlocks, Option.bind_eq_bind, Option.bind_eq_some_iff] at h
      obtain ⟨⟨buf₁, exts⟩, hfirst, ⟨buf₂, rest⟩, hrest, h⟩ := h
      obtain ⟨rfl, rfl⟩ := Prod.mk.inj (Option.some.inj h)
      obtain ⟨⟨more₁, rfl⟩, hcols⟩ := writeColumns_spec hinv hbuf hfirst
      have hbuf₁ : headerSize ≤ (buf ++ more₁).length := by
        rw [List.length_append]
        omega
      obtain ⟨⟨more₂, rfl⟩, hblocks⟩ := ih hbuf₁ hrest
      exact ⟨⟨more₁ ++ more₂, List.append_assoc ..⟩, .cons (hcols.append more₂) hblocks⟩

/-- Columns that are stored have extents of the right width. -/
theorem ColumnsStored.hasExtents {block : BlockSpec} {extents : List (List Byte)}
    (h : ColumnsStored lz4 buf block.columns extents) : block.HasExtents extents := by
  refine ⟨h.length_eq.symm, fun e he => ?_⟩
  obtain ⟨i, hi⟩ := List.mem_iff_getElem?.mp he
  obtain ⟨col, -, hstored⟩ := getElem?_of_forall₂ h hi
  exact hstored.width

-- ============================================================================
-- The file
-- ============================================================================

/-- What a built file holds. -/
structure FileHolds (lz4 : LZ4) (file : List Byte) (blocks : List BlockSpec)
    (extents : List (List (List Byte))) (metaExtent metaBytes : List Byte) : Prop where
  long : headerSize ≤ file.length
  small : file.length < 2 ^ 33
  magic : slice? file 0 8 = some (leBytes 8 objectMagic)
  extent_at : slice? file headerMetaExtentOff extentLen = some metaExtent
  meta_eq : buildMetadata blocks extents = some metaBytes
  meta_stored : Stored lz4 file metaExtent metaBytes
  columns : BlocksStored lz4 file blocks extents
  /-- The columns lie before the metadata, which starts at a 32-bit offset. -/
  columns_before : ∀ exts ∈ extents, ∀ e ∈ exts,
    (Extent.ofBytes e).offset + (Extent.ofBytes e).length ≤ (Extent.ofBytes metaExtent).offset
  meta_offset_lt : (Extent.ofBytes metaExtent).offset < 2 ^ 32

/-- Writing the header leaves the sections as they are. -/
theorem Stored.writeFields {fields : List (Nat × List Byte)} (h : Stored lz4 buf extent data)
    (hfields : ∀ f ∈ fields, f.1 + f.2.length ≤ headerSize) (hbuf : headerSize ≤ buf.length) :
    Stored lz4 (writeFields buf fields) extent data := by
  obtain ⟨raw, hraw, hunpack⟩ := h.found
  refine ⟨h.width, h.behind, raw, ?_, hunpack⟩
  rw [slice?_writeFields_gap, hraw]
  · exact fun f hf => Nat.le_trans (hfields f hf) hbuf
  · exact fun f hf => Or.inl (Nat.le_trans (hfields f hf) h.behind)

theorem buildFile_holds (hinv : lz4.Inverts lz4Compress) {blocks : List BlockSpec} {file : List Byte}
    (h : buildFile lz4Compress compress blocks = some file) :
    ∃ extents metaExtent metaBytes, FileHolds lz4 file blocks extents metaExtent metaBytes := by
  simp only [buildFile, Option.bind_eq_bind, Option.bind_eq_some_iff] at h
  obtain ⟨⟨body, extents⟩, hbody, metaBytes, hmeta, ⟨buf, metaExtent⟩, happend, h⟩ := h
  obtain rfl := Option.some.inj h
  have hheader : headerSize ≤ (List.replicate headerSize (0 : Byte)).length := by
    rw [List.length_replicate]
  obtain ⟨⟨more, rfl⟩, hblocks⟩ := writeBlocks_spec hinv hheader hbody
  have hbodylen : headerSize ≤ (List.replicate headerSize (0 : Byte) ++ more).length := by
    rw [List.length_append, List.length_replicate]
    omega
  obtain ⟨⟨more', rfl⟩, hstored, hsmall, hoff, hfilelen⟩ := appendSection_spec hinv hbodylen happend
  have hlen : headerSize ≤ (List.replicate headerSize (0 : Byte) ++ more ++ more').length := by
    rw [List.length_append]
    omega
  have hfields : ∀ f ∈ [(0, leBytes 8 objectMagic), (8, leBytes 2 1), (headerMetaExtentOff, metaExtent)],
      f.1 + f.2.length ≤ headerSize := by
    simp only [List.forall_mem_cons, leBytes_length, hstored.width]
    decide
  have hin : ∀ f ∈ [(0, leBytes 8 objectMagic), (8, leBytes 2 1), (headerMetaExtentOff, metaExtent)],
      f.1 + f.2.length ≤ (List.replicate headerSize (0 : Byte) ++ more ++ more').length :=
    fun f hf => Nat.le_trans (hfields f hf) hlen
  have hapart : [(0, leBytes 8 objectMagic), (8, leBytes 2 1), (headerMetaExtentOff, metaExtent)].Pairwise
      fun f g => g.1 + g.2.length ≤ f.1 ∨ f.1 + f.2.length ≤ g.1 := by
    simp only [List.pairwise_cons, List.forall_mem_cons, leBytes_length, hstored.width]
    decide
  have hlength := writeFields_length hin
  refine ⟨extents, metaExtent, metaBytes, by rwa [hlength], by rwa [hlength], ?_, ?_, hmeta, hstored.writeFields hfields hlen, ?_, ?_, ?_⟩
  · exact slice?_writeFields hin hapart (f := (0, leBytes 8 objectMagic)) (by simp) (leBytes_length ..)
  · exact slice?_writeFields hin hapart (f := (headerMetaExtentOff, metaExtent)) (by simp) hstored.width
  · exact (hblocks.append more').imp fun _ _ hcols => hcols.imp fun _ _ hcol => hcol.writeFields hfields hlen
  · intro exts hexts e he
    obtain ⟨i, hi⟩ := List.mem_iff_getElem?.mp hexts
    obtain ⟨block, -, hcols⟩ := getElem?_of_forall₂ hblocks hi
    obtain ⟨j, hj⟩ := List.mem_iff_getElem?.mp he
    obtain ⟨col, -, hcol⟩ := getElem?_of_forall₂ hcols hj
    obtain ⟨raw, hraw, -⟩ := hcol.found
    rw [hoff]
    exact (slice?_eq_some.mp hraw).1
  · rw [hoff]
    exact hsmall

-- ============================================================================
-- ReadMeta
-- ============================================================================

/-- An unpacked metadata section: its entry header, then what is parsed. -/
theorem parseMetaSection_unpacked {ext : Extent} {raw body : List Byte}
    (h : lz4.unpack ext raw = .ok (packIoEntryHeader ioetObjMeta ++ body)) :
    parseMetaSection lz4 ext raw = parseMetadata body := by
  have hlong : ¬(packIoEntryHeader ioetObjMeta ++ body).length < ioEntryHeaderLen := by
    rw [List.length_append, show (packIoEntryHeader ioetObjMeta).length = ioEntryHeaderLen from rfl]
    omega
  have htype : ¬leNat ((packIoEntryHeader ioetObjMeta ++ body).take 2) ≠ ioetObjMeta := not_not.mpr rfl
  rw [LZ4.unpack] at h
  cases hc : ext.isCompressed with
  | true =>
      rw [hc, if_pos rfl] at h
      simp only [parseMetaSection, hc, if_true, h, ok_bind]
      rw [refuseIf_bind_of_not hlong, refuseIf_bind_of_not htype]
      rfl
  | false =>
      rw [hc, if_neg Bool.false_ne_true] at h
      obtain rfl := Except.ok.inj h
      simp only [parseMetaSection, hc, Bool.false_eq_true, if_false, pure_bind]
      rw [refuseIf_bind_of_not hlong, refuseIf_bind_of_not htype]
      rfl

section Reading
variable {fs : FileSystem} {file metaExtent metaBytes : List Byte} {blocks : List BlockSpec}
variable {extents : List (List (List Byte))}

theorem FileHolds.hasExtents (h : FileHolds lz4 file blocks extents metaExtent metaBytes) :
    List.Forall₂ BlockSpec.HasExtents blocks extents :=
  h.columns.imp fun _ _ hcols => hcols.hasExtents

/-- The header of the file, as the first read returns it. -/
theorem FileHolds.header (h : FileHolds lz4 file blocks extents metaExtent metaBytes) :
    leNat (((file.drop 0).take headerSize).take 8) = objectMagic ∧
      (((file.drop 0).take headerSize).drop headerMetaExtentOff).take extentLen = metaExtent := by
  have hhdr : slice? file 0 headerSize = some ((file.drop 0).take headerSize) :=
    slice?_of_le (by rw [Nat.zero_add]; exact h.long)
  have hmagic : slice? ((file.drop 0).take headerSize) 0 8 = some (leBytes 8 objectMagic) := by
    rw [slice?_slice hhdr (by decide), Nat.zero_add, h.magic]
  have hextent : slice? ((file.drop 0).take headerSize) headerMetaExtentOff extentLen = some metaExtent := by
    rw [slice?_slice hhdr (by decide), Nat.zero_add, h.extent_at]
  obtain ⟨-, hmagic⟩ := slice?_eq_some.mp hmagic
  obtain ⟨-, hextent⟩ := slice?_eq_some.mp hextent
  refine ⟨?_, hextent.symm⟩
  rw [List.drop_zero] at hmagic
  rw [← hmagic]
  rfl

/-- `ReadMeta` on a built file. -/
theorem readMeta_holds (hfs : fs.ThrowsPastEnd) (h : FileHolds lz4 file blocks extents metaExtent metaBytes)
    (threshold : Nat) :
    ∃ r, (TAEObjectReader.open file threshold).readMeta fs lz4
        = (r, .ok ⟨(blocks.zip extents).map fun q => q.1.info q.2⟩) ∧ r.Ready ∧ r.content = file := by
  have hlong := h.long
  have hsmall := h.small
  obtain ⟨hmagic, hextent⟩ := h.header
  have hmagicFile : leNat (file.take 8) = objectMagic := by
    rw [← hmagic, List.drop_zero, List.take_take]
    rfl
  have hstores : TAEObjectReader.PhysicalFile .raw file file := rfl
  have hopen := TAEObjectReader.Tracks.open hstores (by omega) threshold
  obtain ⟨r₁, hread₁, ht₁, hdet₁⟩ := TAEObjectReader.readBytes_spec fs
    (show 12 ≤ file.length by simp only [headerSize] at hlong; omega) hmagicFile hopen (by decide)
    (show 0 + headerSize ≤ file.length by omega)
  obtain ⟨hready₁, hcontent₁⟩ := ht₁.ready hdet₁
  obtain ⟨hoff, hlen⟩ := Extent.ofBytes_lt metaExtent
  obtain ⟨r₂, res, hread₂, hcont, hres⟩ := TAEObjectReader.readBytes_ready hfs hready₁ hoff hlen
  obtain ⟨raw, hraw, hunpack⟩ := h.meta_stored.found
  obtain rfl := (hres raw).mpr (by rw [hcontent₁, hraw])
  obtain ⟨body, hbody, hparse⟩ := parseMetadata_built h.meta_eq h.hasExtents
  rw [hbody] at hunpack
  refine ⟨r₂, ?_, hcont.ready, hcont.content_eq.trans hcontent₁⟩
  rw [TAEObjectReader.readMeta]
  rw [hread₁]
  simp only [hmagic, hextent, ne_eq, not_true_eq_false, if_false, hread₂]
  rw [parseMetaSection_unpacked hunpack, hparse]

-- ============================================================================
-- ReadBlock
-- ============================================================================

/-- A column that was built is decoded as its vector. -/
theorem decodeColumn_unpacked {ext : Extent} {raw v : List Byte}
    (h : lz4.unpack ext raw = .ok (buildColDataExtent v)) : decodeColumn lz4 ext raw = decodeVector v :=
  decodeColumn_entry h rfl rfl

/-- The block that is parsed at a position, and its columns in the file. -/
theorem FileHolds.block (h : FileHolds lz4 file blocks extents metaExtent metaBytes) {b : Nat}
    {block : BlockSpec} (hblock : blocks[b]? = some block) :
    ∃ exts ∈ extents, ((blocks.zip extents).map fun q => q.1.info q.2)[b]? = some (block.info exts) ∧
      ColumnsStored lz4 file block.columns exts := by
  obtain ⟨exts, hexts, hcols⟩ := getElem?_of_forall₂ h.columns.flip hblock
  have hzip : (blocks.zip extents)[b]? = some (block, exts) :=
    List.getElem?_zip_eq_some.mpr ⟨hblock, hexts⟩
  refine ⟨exts, List.mem_of_getElem? hexts, ?_, hcols⟩
  rw [List.getElem?_map, hzip]
  rfl

theorem BlockSpec.info_columns {block : BlockSpec} {exts : List (List Byte)} {s : Nat} {col : ColumnSpec}
    {e : List Byte} (hcol : block.columns[s]? = some col) (he : exts[s]? = some e) :
    (block.info exts).columns[s]? = some (col.info e s) := by
  have hzip : (block.columns.zip exts)[s]? = some (col, e) := List.getElem?_zip_eq_some.mpr ⟨hcol, he⟩
  rw [BlockSpec.info, List.getElem?_map, List.getElem?_zipIdx, hzip, Nat.zero_add]
  rfl

/-- A parsed column has one of the extents. -/
theorem BlockSpec.info_location {block : BlockSpec} {exts : List (List Byte)} (hext : block.HasExtents exts)
    {s : Nat} {info : ColumnMetaInfo} (hinfo : (block.info exts).columns[s]? = some info) :
    ∃ e ∈ exts, info.location = Extent.ofBytes e := by
  obtain ⟨col, e, hp, -, rfl⟩ := hext.getElem? hinfo
  have hmem := List.fst_mem_of_mem_zipIdx (List.mem_of_getElem? hp)
  exact ⟨e, (List.of_mem_zip hmem).2, rfl⟩

/-- The columns of a block that was built are read, in the requested order. -/
theorem readBlock_holds {r : TAEObjectReader} {sort : OffsetSort} {gapMax : Nat} (hfs : fs.ThrowsPastEnd)
    (h : FileHolds lz4 file blocks extents metaExtent metaBytes) (hr : r.Ready) (hcontent : r.content = file)
    {md : ObjectMeta} (hmd : md = ⟨(blocks.zip extents).map fun q => q.1.info q.2⟩)
    (hfit : ∀ blk ∈ md.blocks, blk.ExtentsFit) {b : Nat} {block : BlockSpec} (hblock : blocks[b]? = some block)
    {seqnums : List Nat} {cols : List DecodedColumn}
    (hseqs : List.Forall₂ (fun s decoded => ∃ col, block.columns[s]? = some col ∧
      decodeVector col.vectorBytes = .ok decoded) seqnums cols) :
    (r.readBlock fs lz4 sort gapMax md b seqnums).2 = .ok cols := by
  obtain ⟨exts, hexts, hinfo, hcols⟩ := h.block hblock
  have hblk : md.blocks[b]? = some (block.info exts) := by rw [hmd, hinfo]
  have hblkfit := hfit _ (List.mem_of_getElem? hblk)
  apply (readBlock_eq_ok_iff hfs hr hfit).mpr
  refine ⟨?_, fun blk hblk' => ?_⟩
  · rw [TAEObjectReader.readBlockAlone, hblk]
    apply mapM_eq_ok.mpr
    refine hseqs.imp fun s decoded hread => ?_
    obtain ⟨col, hcol, hdecode⟩ := hread
    obtain ⟨e, he, hstored⟩ := getElem?_of_forall₂ hcols.flip hcol
    obtain ⟨raw, hraw, hunpack⟩ := hstored.found
    refine (readColumnAlone_eq_ok hfs hr hblkfit).mpr ⟨_, BlockSpec.info_columns hcol he, raw, ?_, ?_⟩
    · rw [hcontent]
      exact hraw
    · exact (decodeColumn_unpacked hunpack).trans hdecode
  · obtain rfl := Option.some.inj (hblk.symm.trans hblk')
    intro reqs hreqs
    -- all columns end before the metadata
    apply short_of_stop_lt
    intro req hreq
    obtain ⟨-, info, hcol, hoff, hlen⟩ := request_mem hreqs hreq
    obtain ⟨e, he, hlocation⟩ := BlockSpec.info_location hcols.hasExtents hcol
    have hbefore := h.columns_before exts hexts e he
    have hsmall := h.meta_offset_lt
    rw [ReadReq.stop, hoff, hlen, hlocation]
    omega

end Reading

-- ============================================================================
-- Vectors
-- ============================================================================

/-- The column as it is read is the vector that was built. -/
structure ColumnInput.ReadsBack (col : ColumnInput) (v : VectorSections) (decoded : DecodedColumn) : Prop where
  built : col.source.build col.moType = some v
  vecClass : decoded.vecClass = v.vecClass
  oid : decoded.type.oid = col.moType
  rowCount : decoded.rowCount = v.length
  data : decoded.data = v.data
  area : decoded.area = v.area
  nulls : (decoded.nullCount, decoded.nullBitmap) = nullSection col.source.nulls col.source.rowCount

theorem VectorSource.build_spec {oid : Byte} {source : VectorSource} {v : VectorSections}
    (h : source.build oid = some v) :
    (v.type.length = 16 ∧ (MOType.ofBytes v.type).oid = oid) ∧
      buildNullBitmap source.nulls source.rowCount = some v.nsp := by
  cases source with
  | flat elemSize values nulls =>
      simp only [VectorSource.build, buildVector, Option.bind_eq_bind, Option.bind_eq_some_iff] at h
      obtain ⟨⟨data, area, size⟩, -, nsp, hnsp, type, htype, h⟩ := h
      obtain rfl := Option.some.inj h
      exact ⟨packMoType_spec htype, hnsp⟩
  | constant elemSize value rowCount =>
      simp only [VectorSource.build, buildConstantVector, Option.bind_eq_bind, Option.bind_eq_some_iff] at h
      obtain ⟨⟨data, size⟩, -, nsp, hnsp, type, htype, h⟩ := h
      obtain rfl := Option.some.inj h
      exact ⟨packMoType_spec htype, hnsp⟩

/-- Decoding undoes `build_vector` and `build_constant_vector`. -/
theorem decodeVector_built {col : ColumnInput} {spec : ColumnSpec} (h : col.spec = some spec) :
    ∃ v decoded, decodeVector spec.vectorBytes = .ok decoded ∧ col.ReadsBack v decoded := by
  simp only [ColumnInput.spec, Option.bind_eq_bind, Option.bind_eq_some_iff] at h
  obtain ⟨v, hbuild, bytes, hbytes, h⟩ := h
  obtain rfl := Option.some.inj h
  obtain ⟨⟨htype, hoid⟩, hnsp⟩ := VectorSource.build_spec hbuild
  rw [VectorSections.binary] at hbytes
  split at hbytes
  · next hfits =>
      obtain rfl := Option.some.inj hbytes
      obtain ⟨hlength, hdata, harea, hnsplen⟩ := hfits
      have hdecode := decodeVector_layout ⟨htype, hlength, hdata, harea, hnsplen⟩ []
        (decodeNulls_buildNullBitmap hnsp hnsplen)
      rw [List.append_nil] at hdecode
      exact ⟨v, _, hdecode, ⟨hbuild, rfl, hoid, rfl, rfl, rfl, rfl⟩⟩
  · cases hbytes

-- ============================================================================
-- Reading undoes writing
-- ============================================================================

/-- The parsed block has the rows of the block that was written, and for each
    column its null count and zone map. -/
structure BlockInput.ParsesBack (block : BlockInput) (info : BlockInfo) : Prop where
  rows : info.rows = block.rows
  columns : List.Forall₂ (fun (col : ColumnInput) (m : ColumnMetaInfo) =>
    m.nullCnt = col.nulls.count true ∧ m.zoneMap = col.zoneMap) block.columns info.columns

/-- The parts of a column that its meta keeps. -/
theorem ColumnInput.spec_meta {col : ColumnInput} {spec : ColumnSpec} (h : col.spec = some spec) :
    spec.nulls = col.nulls ∧ spec.zoneMap = col.zoneMap := by
  simp only [ColumnInput.spec, Option.bind_eq_bind, Option.bind_eq_some_iff] at h
  obtain ⟨v, -, bytes, -, h⟩ := h
  obtain rfl := Option.some.inj h
  exact ⟨rfl, rfl⟩

theorem BlockInput.spec_eq_some {block : BlockInput} {spec : BlockSpec} (h : block.spec = some spec) :
    spec.rows = block.rows ∧
      List.Forall₂ (fun (col : ColumnInput) (s : ColumnSpec) => col.spec = some s) block.columns spec.columns := by
  simp only [BlockInput.spec, Option.bind_eq_bind, Option.bind_eq_some_iff] at h
  obtain ⟨cols, hcols, h⟩ := h
  obtain rfl := Option.some.inj h
  exact ⟨rfl, mapM_eq_some.mp hcols⟩

theorem BlockInput.parsesBack {block : BlockInput} {spec : BlockSpec} (h : block.spec = some spec)
    {exts : List (List Byte)} (hext : spec.HasExtents exts) : block.ParsesBack (spec.info exts) := by
  obtain ⟨hrows, hcols⟩ := BlockInput.spec_eq_some h
  refine ⟨hrows, ?_⟩
  have hlen : block.columns.length = (spec.info exts).columns.length := by
    rw [BlockSpec.info, List.length_map, List.length_zipIdx, List.length_zip, hext.length_eq, Nat.min_self,
      hcols.length_eq]
  refine List.forall₂_of_length_eq_of_get hlen fun i hi hi' => ?_
  obtain ⟨col, e, hp, -, hinfo⟩ := hext.getElem? (List.getElem?_eq_getElem hi')
  rw [List.getElem?_zipIdx, Option.map_eq_some_iff] at hp
  obtain ⟨p, hzip, heq⟩ := hp
  obtain ⟨rfl, -⟩ := Prod.mk.inj heq
  obtain ⟨input, hinput, hspec⟩ := getElem?_of_forall₂ hcols (List.getElem?_zip_eq_some.mp hzip).1
  obtain ⟨hnulls, hzone⟩ := ColumnInput.spec_meta hspec
  have hat : block.columns[i] = input := (List.getElem?_eq_some_iff.mp hinput).2
  rw [List.get_eq_getElem, List.get_eq_getElem, hinfo]
  simp only [hat, ColumnSpec.info]
  exact ⟨by rw [← hnulls], hzone⟩

/-- **Reading undoes writing.**  `ReadMeta` on a file that was built finds the
    blocks that were written; after that, and after any reads, `ReadBlock` returns
    the requested columns of any block as they were built, in the requested order. -/
theorem readBlock_buildObject (fs : FileSystem) (lz4 : LZ4) (sort : OffsetSort) (gapMax threshold : Nat)
    (lz4Compress : List Byte → Option (List Byte)) (compress : Bool) (blocks : List BlockInput)
    (file : List Byte) (hfs : fs.ThrowsPastEnd) (hinv : lz4.Inverts lz4Compress)
    (hbuild : buildObject lz4Compress compress blocks = some file) :
    ∃ r md, (TAEObjectReader.open file threshold).readMeta fs lz4 = (r, .ok md) ∧
      List.Forall₂ BlockInput.ParsesBack blocks md.blocks ∧
      ∀ r', r.Continues r' → ∀ b block seqnums, blocks[b]? = some block →
        (∀ s ∈ seqnums, s < block.columns.length) →
        r'.Continues (r'.readBlock fs lz4 sort gapMax md b seqnums).1 ∧
        ∃ cols, (r'.readBlock fs lz4 sort gapMax md b seqnums).2 = .ok cols ∧
          List.Forall₂ (fun s decoded => ∃ col v, block.columns[s]? = some col ∧
            ColumnInput.ReadsBack col v decoded) seqnums cols := by
  simp only [buildObject, Option.bind_eq_bind, Option.bind_eq_some_iff] at hbuild
  obtain ⟨specs, hspecs, hfile⟩ := hbuild
  have hrel := mapM_eq_some.mp hspecs
  obtain ⟨extents, metaExtent, metaBytes, hholds⟩ := buildFile_holds hinv hfile
  obtain ⟨r, hread, hready, hcontent⟩ := readMeta_holds hfs hholds threshold
  have hsmall := hholds.small
  have hfit := (readMeta_ready hfs (TAEObjectReader.opened_open (by omega) threshold) hread).2
  refine ⟨r, _, hread, ?_, ?_⟩
  · exact forall₂_zip_map hrel hholds.hasExtents fun _ _ _ hspec hext => BlockInput.parsesBack hspec hext
  · intro r' hcont b block seqnums hblock hseqs
    refine ⟨readBlock_continues hfs hcont.ready hfit, ?_⟩
    obtain ⟨spec, hspecAt, hspec⟩ := getElem?_of_forall₂ hrel.flip hblock
    obtain ⟨-, hcols⟩ := BlockInput.spec_eq_some hspec
    have hdecoded : ∀ s ∈ seqnums, ∃ decoded, (∃ col, spec.columns[s]? = some col ∧
        decodeVector col.vectorBytes = .ok decoded) ∧
        ∃ col v, block.columns[s]? = some col ∧ ColumnInput.ReadsBack col v decoded := by
      intro s hs
      have hcol := List.getElem?_eq_getElem (hseqs s hs)
      obtain ⟨cspec, hcspecAt, hcspec⟩ := getElem?_of_forall₂ hcols.flip hcol
      obtain ⟨v, decoded, hdecode, hback⟩ := decodeVector_built hcspec
      exact ⟨decoded, ⟨cspec, hcspecAt, hdecode⟩, _, v, hcol, hback⟩
    obtain ⟨cols, hall⟩ := exists_forall₂ hdecoded
    refine ⟨cols, ?_, hall.imp fun _ _ h => h.2⟩
    exact readBlock_holds hfs hholds hcont.ready (hcont.content_eq.trans hcontent) rfl hfit hspecAt
      (hall.imp fun _ _ h => h.1)

end Sections

-- ============================================================================
-- An object of two columns
-- ============================================================================

/-- An LZ4 block of literals only, which is all there is for short data. -/
def literalBlock (data : List Byte) : Option (List Byte) :=
  if data.length < 13 then some (BitVec.ofNat 8 (16 * data.length) :: data) else none

/-- A decompressor of such blocks. -/
def LZ4.literal : LZ4 where
  decompressSafe src capacity :=
    if src.tail.length = capacity ∧ src.head? = some (BitVec.ofNat 8 (16 * capacity)) then
      (capacity, src.tail)
    else (-1, List.replicate capacity 0)
  length_eq src capacity := by
    split
    · next h => exact h.1
    · exact List.length_replicate ..

theorem LZ4.literal_inverts : LZ4.literal.Inverts literalBlock := by
  intro data compressed h
  rw [literalBlock] at h
  split at h
  · obtain rfl := Option.some.inj h
    exact if_pos ⟨rfl, rfl⟩
  · cases h

/-- An INT column with a NULL and a constant string. -/
def twoColumns : List BlockInput :=
  [{ rows := 2, columns := [
    { moType := 22, source := .flat 4 (.packed none [some 7, none]) [false, true], nulls := [false, true] },
    { moType := 61, source := .constant (-24) (.varchar [104, 105]) 2 }] }]

def twoColumnFile : List Byte := (buildObject literalBlock false twoColumns).getD []

theorem twoColumnFile_built : buildObject literalBlock false twoColumns = some twoColumnFile := by
  have hsome : (buildObject literalBlock false twoColumns).isSome = true := by decide +kernel
  obtain ⟨file, hfile⟩ := Option.isSome_iff_exists.mp hsome
  rw [twoColumnFile, hfile, Option.getD_some]

/-- The two columns are read back, one of them twice. -/
theorem twoColumns_readBack :
    ∃ r md, (TAEObjectReader.open twoColumnFile 0).readMeta .positional .literal = (r, .ok md) ∧
      md.blocks.length = 1 ∧
      ∃ cols, (r.readBlock .positional .literal .merge 0 md 0 [1, 0, 1]).2 = .ok cols ∧ cols.length = 3 := by
  obtain ⟨r, md, hread, hblocks, hcolumns⟩ := readBlock_buildObject .positional .literal .merge 0 0
    literalBlock false twoColumns twoColumnFile FileSystem.positional_throwsPastEnd LZ4.literal_inverts
    twoColumnFile_built
  have hsmall : twoColumnFile.length < 2 ^ 63 := by decide +kernel
  have hready := (readMeta_ready FileSystem.positional_throwsPastEnd
    (TAEObjectReader.opened_open hsmall 0) hread).1
  obtain ⟨-, cols, hok, hback⟩ := hcolumns r ⟨hready, rfl⟩ 0 _ [1, 0, 1] rfl (by decide)
  exact ⟨r, md, hread, hblocks.length_eq.symm, cols, hok, hback.length_eq.symm⟩

end TaeScanner
