/-
  TaeScanner.Reader.Reuse

  A reader that is kept open and asked again.

    * `ReadMeta` leaves nothing to be found out: the prefetch has been tried and
      the format is known, so no later call changes the reader, failed ones
      included, and each answers as the first one would have;
    * what a reader answers depends on the content of its file alone, not on the
      physical format, the prefetch threshold or the way reads are merged.
-/

import TaeScanner.Reader.ReadBlockSpec

namespace TaeScanner

open Lib

namespace TAEObjectReader

-- ============================================================================
-- Settled readers
-- ============================================================================

/-- The prefetch has been tried and the format is known. -/
structure Settled (r : TAEObjectReader) : Prop where
  prefetched : r.prefetchAttempted = true
  detected : r.formatDetected = true

section Settled
variable (fs : FileSystem) (lz4 : LZ4) {r r' : TAEObjectReader}

theorem readRawBytes_settled (h : r.prefetchAttempted = true) (off n : Nat) :
    ∃ res, readRawBytes fs r off n = (r, res) := by
  have hpre : prefetch fs r = (r, .ok ()) := if_pos h
  rw [readRawBytes, hpre]
  simp only
  split
  · split
    · exact ⟨_, rfl⟩
    · exact ⟨_, rfl⟩
  · split
    · exact ⟨_, rfl⟩
    · exact ⟨_, rfl⟩

/-- A read leaves a settled reader as it is, also when it fails. -/
theorem readBytes_settled (h : r.Settled) (off n : Nat) : ∃ res, readBytes fs r off n = (r, res) := by
  have hdetect : detectCrcFormat fs r = (r, .ok ()) := if_pos h.detected
  rw [readBytes, hdetect]
  simp only
  split
  · exact readRawBytes_settled fs h.prefetched off n
  · obtain ⟨res, hread⟩ := readRawBytes_settled fs h.prefetched
      (wrapMul 64 (off / crcContentSize) crcBlockSize)
      (wrapSub 64 (min (wrapMul 64 (wrapAdd 64 (wrapSub 64 (wrapAdd 64 off n) 1 / crcContentSize) 1)
        crcBlockSize) r.fileSize) (wrapMul 64 (off / crcContentSize) crcBlockSize))
    rw [hread]
    cases res with
    | error e => exact ⟨_, rfl⟩
    | ok raw =>
        simp only
        split
        · exact ⟨_, rfl⟩
        · split
          · exact ⟨_, rfl⟩
          · exact ⟨_, rfl⟩

theorem readRanges_settled (h : r.Settled) (reads : List CoalescedRead) :
    ∃ res, r.readRanges fs reads = (r, res) := by
  induction reads with
  | nil => exact ⟨_, rfl⟩
  | cons cr reads ih =>
      obtain ⟨res, hread⟩ := readBytes_settled fs h cr.offset cr.length
      obtain ⟨rest, hrest⟩ := ih
      rw [readRanges, hread]
      cases res with
      | error e => exact ⟨_, rfl⟩
      | ok data =>
          simp only [hrest]
          cases rest with
          | error e => exact ⟨_, rfl⟩
          | ok datas => exact ⟨_, rfl⟩

/-- `ReadBlock` leaves a settled reader as it is. -/
theorem readBlock_settled (h : r.Settled) (sort : OffsetSort) (gapMax : Nat) (md : ObjectMeta)
    (blockIdx : Nat) (seqnums : List Nat) :
    (r.readBlock fs lz4 sort gapMax md blockIdx seqnums).1 = r := by
  rw [readBlock]
  split
  · rfl
  · split
    · rfl
    · next blk _ reqs _ =>
        obtain ⟨res, hread⟩ := readRanges_settled fs h (coalesce gapMax (sort.sort reqs)).reads
        rw [readSorted, hread]
        cases res with
        | error e => rfl
        | ok datas => rfl

/-- The first raw read tries the prefetch. -/
theorem readRawBytes_prefetched {off n : Nat} {bs : List Byte}
    (hok : readRawBytes fs r off n = (r', .ok bs)) :
    r'.prefetchAttempted = true ∧ r'.formatDetected = r.formatDetected := by
  have hpre : (prefetch fs r).1.prefetchAttempted = true ∧
      (prefetch fs r).1.formatDetected = r.formatDetected := by
    rw [prefetch]
    split
    · next h => exact ⟨h, rfl⟩
    · split
      · split
        · exact ⟨rfl, rfl⟩
        · exact ⟨rfl, rfl⟩
      · exact ⟨rfl, rfl⟩
  rw [readRawBytes] at hok
  generalize prefetch fs r = p at hpre hok
  obtain ⟨r₁, e | u⟩ := p
  · cases hok
  · obtain ⟨res, hsame⟩ : ∃ res, (r₁, res) = (r', (.ok bs : Except ReadError (List Byte))) := by
      simp only at hok
      split at hok
      · split at hok
        · exact ⟨_, hok⟩
        · exact ⟨_, hok⟩
      · split at hok
        · exact ⟨_, hok⟩
        · exact ⟨_, hok⟩
    obtain rfl := (Prod.mk.inj hsame).1
    exact hpre

/-- A read that succeeds settles the reader. -/
theorem readBytes_settles {off n : Nat} {bs : List Byte} (hok : readBytes fs r off n = (r', .ok bs)) :
    r'.Settled := by
  have hdetected : (detectCrcFormat fs r).1.formatDetected = true ∨
      ∃ e, (detectCrcFormat fs r).2 = .error e := by
    rw [detectCrcFormat]
    split
    · next h => exact Or.inl h
    · simp only
      split
      · exact Or.inl rfl
      · split
        · exact Or.inr ⟨_, rfl⟩
        · next hprobe =>
            have hdet := (readRawBytes_prefetched fs hprobe).2
            split
            · exact Or.inl hdet
            · split
              · exact Or.inl hdet
              · exact Or.inl hdet
  rw [readBytes] at hok
  generalize detectCrcFormat fs r = p at hdetected hok
  obtain ⟨r₁, e | u⟩ := p
  · cases hok
  replace hdetected : r₁.formatDetected = true := by
    obtain hdet | ⟨e, he⟩ := hdetected
    · exact hdet
    · cases he
  simp only at hok
  split at hok
  · obtain ⟨hpre, hdet⟩ := readRawBytes_prefetched fs hok
    exact ⟨hpre, hdet.trans hdetected⟩
  · split at hok
    · cases hok
    · next r₂ raw hread =>
        obtain ⟨hpre, hdet⟩ := readRawBytes_prefetched fs hread
        -- what is sliced out of the blocks does not concern the reader
        obtain ⟨res, hsame⟩ : ∃ res, (r₂, res) = (r', (.ok bs : Except ReadError (List Byte))) := by
          split at hok
          · exact ⟨_, hok⟩
          · split at hok
            · exact ⟨_, hok⟩
            · exact ⟨_, hok⟩
        obtain rfl := (Prod.mk.inj hsame).1
        exact ⟨hpre, hdet.trans hdetected⟩

/-- `ReadMeta` settles the reader. -/
theorem readMeta_settles {md : ObjectMeta} (hok : r.readMeta fs lz4 = (r', .ok md)) : r'.Settled := by
  rw [readMeta] at hok
  split at hok
  · cases hok
  · split at hok
    · cases hok
    · simp only at hok
      split at hok
      · cases hok
      · next hread =>
          obtain ⟨rfl, -⟩ := Prod.mk.inj hok
          exact readBytes_settles fs hread

/-- The extents of metadata that is read fit their fields. -/
theorem readMeta_extentsFit {md : ObjectMeta} {fs : FileSystem} {lz4 : LZ4}
    (hok : (r.readMeta fs lz4).2 = .ok md) : ∀ blk ∈ md.blocks, blk.ExtentsFit := by
  rw [readMeta] at hok
  split at hok
  · cases hok
  · split at hok
    · cases hok
    · simp only at hok
      split at hok
      · cases hok
      · obtain ⟨buf, hbuf⟩ := parseMetaSection_parses hok
        exact parseMetadata_extentsFit hbuf

end Settled

-- ============================================================================
-- Reading from the content
-- ============================================================================

end TAEObjectReader

/-- The metadata that a content holds, found without a reader. -/
def contentMeta (lz4 : LZ4) (content : List Byte) : Option ObjectMeta :=
  (slice? content 0 headerSize).bind fun hdr =>
    if leNat (hdr.take 8) ≠ objectMagic then none
    else
      let ext := Extent.ofBytes ((hdr.drop headerMetaExtentOff).take extentLen)
      (slice? content ext.offset ext.length).bind fun raw => (parseMetaSection lz4 ext raw).toOption

/-- The columns that a content holds for the seqnums of a block. -/
def ContentHolds (lz4 : LZ4) (content : List Byte) (md : ObjectMeta) (blockIdx : Nat)
    (seqnums : List Nat) (cols : List DecodedColumn) : Prop :=
  ∃ blk, md.blocks[blockIdx]? = some blk ∧
    List.Forall₂ (fun seq decoded => ∃ col, blk.columns[seq]? = some col ∧
      Stores lz4 content col.location decoded) seqnums cols

/-- The file of an object: raw or wrapped, and of a size the file system can count. -/
structure ObjectOf (content file : List Byte) : Prop where
  stored : ∃ layout, TAEObjectReader.PhysicalFile layout content file
  small : file.length < 2 ^ 63
  long : 12 ≤ content.length
  magic : leNat (content.take 8) = objectMagic

section Content
variable {fs : FileSystem} {lz4 : LZ4} {r : TAEObjectReader} {content file : List Byte}

/-- `ReadBlock` returns the columns that the content holds, as long as no merged range
    reaches 2^32 bytes. -/
theorem readBlock_eq_ok_content (hfs : fs.ThrowsPastEnd) (hr : r.Ready) {md : ObjectMeta}
    (hfit : ∀ blk ∈ md.blocks, blk.ExtentsFit) {sort : OffsetSort} {gapMax blockIdx : Nat}
    {seqnums : List Nat} {cols : List DecodedColumn} :
    (r.readBlock fs lz4 sort gapMax md blockIdx seqnums).2 = .ok cols ↔
      ContentHolds lz4 r.content md blockIdx seqnums cols ∧
        ∀ blk, md.blocks[blockIdx]? = some blk → blk.ShortRanges gapMax seqnums := by
  rw [readBlock_eq_ok_iff hfs hr hfit]
  apply and_congr_left
  intro _
  rw [TAEObjectReader.readBlockAlone, ContentHolds]
  cases hblk : md.blocks[blockIdx]? with
  | none =>
      constructor
      · intro h
        cases h
      · rintro ⟨_, h, -⟩
        cases h
  | some blk =>
      have hblkfit := hfit blk (List.mem_of_getElem? hblk)
      simp only [Option.some.injEq, exists_eq_left', mapM_eq_ok, readColumnAlone_eq_ok hfs hr hblkfit]

/-- The first read of an opened object finds its format. -/
theorem ObjectOf.detect (h : ObjectOf content file) (fs : FileSystem) (threshold : Nat) :
    ∃ r : TAEObjectReader, r.Ready ∧ r.content = content ∧
      ∀ off n, (TAEObjectReader.open file threshold).readBytes fs off n = r.readBytes fs off n := by
  obtain ⟨layout, hstored⟩ := h.stored
  obtain ⟨r, hdetect, htracks, -, hdetected⟩ := TAEObjectReader.detectCrcFormat_spec fs h.long h.magic
    (TAEObjectReader.Tracks.open hstored h.small threshold)
  obtain ⟨hready, hcontent⟩ := htracks.ready hdetected
  exact ⟨r, hready, hcontent, fun off n => TAEObjectReader.readBytes_detected hdetect hdetected⟩

/-- A logical read of a ready reader is a slice of its content. -/
theorem readBytes_eq_slice (hfs : fs.ThrowsPastEnd) (hr : r.Ready) (hcontent : r.content = content)
    {off n : Nat} (hoff : off < 2 ^ 32) (hn : n < 2 ^ 32) :
    ∃ r' res, r.readBytes fs off n = (r', res) ∧ r'.Ready ∧ r'.content = content ∧
      res.toOption = slice? content off n := by
  obtain ⟨r', res, hread, hcont, hres⟩ := TAEObjectReader.readBytes_ready hfs hr hoff hn
  rw [hcontent] at hres
  refine ⟨r', res, hread, hcont.ready, hcont.content_eq.trans hcontent, Option.ext fun bs => ?_⟩
  rw [toOption_eq_some, hres]

/-- `ReadMeta` on an object returns the metadata of its content, and leaves a reader
    over that content. -/
theorem ObjectOf.readMeta (h : ObjectOf content file) (hfs : fs.ThrowsPastEnd) (lz4 : LZ4)
    (threshold : Nat) : ∃ (r : TAEObjectReader) (res : Except ReadError ObjectMeta),
      (TAEObjectReader.open file threshold).readMeta fs lz4 = (r, res) ∧ r.Ready ∧
      r.content = content ∧ res.toOption = contentMeta lz4 content := by
  obtain ⟨r₀, hready₀, hcontent₀, hdetected⟩ := h.detect fs threshold
  obtain ⟨r₁, hdr, hreadHdr, hready₁, hcontent₁, hhdr⟩ := readBytes_eq_slice hfs hready₀ hcontent₀
    (show 0 < 2 ^ 32 by decide) (show headerSize < 2 ^ 32 by decide)
  rw [TAEObjectReader.readMeta, hdetected, hreadHdr, contentMeta, ← hhdr]
  cases hdr with
  | error e => exact ⟨r₁, _, rfl, hready₁, hcontent₁, rfl⟩
  | ok hdr =>
      simp only [Except.toOption, Option.bind_some]
      split
      · exact ⟨r₁, _, rfl, hready₁, hcontent₁, rfl⟩
      obtain ⟨hoff, hlen⟩ := Extent.ofBytes_lt ((hdr.drop headerMetaExtentOff).take extentLen)
      obtain ⟨r₂, raw, hreadRaw, hready₂, hcontent₂, hraw⟩ :=
        readBytes_eq_slice hfs hready₁ hcontent₁ hoff hlen
      simp only [hreadRaw, ← hraw]
      cases raw with
      | error e => exact ⟨r₂, _, rfl, hready₂, hcontent₂, rfl⟩
      | ok raw => exact ⟨r₂, _, rfl, hready₂, hcontent₂, rfl⟩

/-- The extents of a metadata section fit their fields. -/
theorem contentMeta_extentsFit {md : ObjectMeta} (h : contentMeta lz4 content = some md) :
    ∀ blk ∈ md.blocks, blk.ExtentsFit := by
  rw [contentMeta] at h
  obtain ⟨hdr, -, h⟩ := Option.bind_eq_some_iff.mp h
  split at h
  · cases h
  · obtain ⟨raw, -, hparse⟩ := Option.bind_eq_some_iff.mp h
    obtain ⟨buf, hbuf⟩ := parseMetaSection_parses (toOption_eq_some.mp hparse)
    exact parseMetadata_extentsFit hbuf

/-- In a content of less than 2^32 bytes no range of columns that it holds is too long. -/
theorem ContentHolds.shortRanges {md : ObjectMeta} {blockIdx : Nat} {seqnums : List Nat}
    {cols : List DecodedColumn} (h : ContentHolds lz4 content md blockIdx seqnums cols)
    (hsmall : content.length < 2 ^ 32) (gapMax : Nat) :
    ∀ blk, md.blocks[blockIdx]? = some blk → blk.ShortRanges gapMax seqnums := by
  intro blk hblk reqs hreqs
  apply short_of_stop_lt
  intro req hreq
  obtain ⟨hseq, info, hcol, hoff, hlen⟩ := request_mem hreqs hreq
  obtain ⟨blk', hblk', hcols⟩ := h
  obtain rfl := Option.some.inj (hblk.symm.trans hblk')
  obtain ⟨decoded, -, col, hcol', raw, hraw, -⟩ := getElem?_of_forall₂ hcols.flip hseq
  obtain rfl := Option.some.inj (hcol.symm.trans hcol')
  rw [ReadReq.stop, hoff, hlen]
  exact Nat.lt_of_le_of_lt (slice?_eq_some.mp hraw).1 hsmall

end Content

end TaeScanner
