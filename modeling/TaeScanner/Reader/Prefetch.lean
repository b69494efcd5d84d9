/-
  TaeScanner.Reader.Prefetch

  `PrefetchBlock`: the look-ahead advice that a scan gives for the next block of
  an object before it reads the current one.

    * advice goes to the kernel through a descriptor of its own, on Linux only,
      and changes nothing of the reader;
    * in the wrapped format a logical range is advised as the CRC blocks it
      touches, without the clamp to the file size that a read makes;
    * lengths reach the kernel as `off_t`; those of 32-bit extents fit.
-/

import TaeScanner.Reader.Reuse

namespace TaeScanner

open Lib

namespace TAEObjectReader

/-- `PrefetchRange`: the physical range that is advised, if any; `advises` says
    whether the advisory descriptor is open. -/
def prefetchRange (advises : Bool) (r : TAEObjectReader) (offset length : Nat) : Option (Nat × Nat) :=
  if r.prefetchBuf ≠ [] then none
  else if advises ∧ 0 < length then
    if r.crcBlockFormat then
      let firstBlock := offset / crcContentSize
      let lastBlock := wrapSub 64 (wrapAdd 64 offset length) 1 / crcContentSize
      let physOffset := wrapMul 64 firstBlock crcBlockSize
      some (physOffset, wrapSub 64 (wrapMul 64 (wrapAdd 64 lastBlock 1) crcBlockSize) physOffset)
    else some (offset, length)
  else none

/-- `PrefetchBlock`: the extents of the columns, one by one; a block or a column that
    is not there is passed over. -/
def prefetchBlock (advises : Bool) (r : TAEObjectReader) (md : ObjectMeta) (blockIdx : Nat)
    (seqnums : List Nat) : List (Nat × Nat) :=
  match md.blocks[blockIdx]? with
  | none => []
  | some blk =>
      seqnums.filterMap fun seq => (blk.columns[seq]?).bind fun col =>
        r.prefetchRange advises col.location.offset col.location.length

-- ============================================================================
-- What is advised
-- ============================================================================

/-- The files hold the same bytes in a range. -/
def SameBytes (file file' : List Byte) (range : Nat × Nat) : Prop :=
  ∀ p, range.1 ≤ p → p < range.1 + range.2 → file[p]? = file'[p]?

theorem SameBytes.take_drop {file file' : List Byte} {range : Nat × Nat} (h : SameBytes file file' range)
    {n : Nat} (hn : n ≤ range.2) : (file.drop range.1).take n = (file'.drop range.1).take n := by
  apply List.ext_getElem?
  intro i
  rw [List.getElem?_take, List.getElem?_take]
  split
  · rw [List.getElem?_drop, List.getElem?_drop]
    exact h _ (Nat.le_add_right _ _) (by omega)
  · rfl

/-- A reader of a file of the same length and format. -/
structure Resembles (r r' : TAEObjectReader) : Prop where
  length_eq : r'.file.length = r.file.length
  format_eq : r'.crcBlockFormat = r.crcBlockFormat

variable {r r' : TAEObjectReader} {off n : Nat}

/-- The advice for a range that is read from the file. -/
theorem prefetchRange_eq (hbuf : r.prefetchBuf = []) (hoff : off < 2 ^ 32) (hn : n < 2 ^ 32)
    (hpos : 0 < n) : r.prefetchRange true off n = some
      (if r.crcBlockFormat then (off / crcContentSize * crcBlockSize,
          ((off + n - 1) / crcContentSize + 1) * crcBlockSize - off / crcContentSize * crcBlockSize)
        else (off, n)) := by
  obtain ⟨hlastArg, hfirst, hlast, -⟩ := blocks_exact (by omega : 0 < off + n) (by omega)
  have hspan := blocks_le (by omega : 0 < off + n)
  have hend : ((off + n - 1) / crcContentSize + 1) * crcBlockSize < 2 ^ 64 := by
    simp only [crcContentSize, crcBlockSize]
    omega
  rw [prefetchRange, if_neg (not_not.mpr hbuf), if_pos ⟨rfl, hpos⟩]
  simp only [hlastArg, hfirst, hlast, wrapSub_of_le hend hspan]
  split
  · rfl
  · rfl

/-- The content of files of one length and format has one length. -/
theorem Resembles.content_length (h : r.Resembles r') : r'.content.length = r.content.length := by
  rw [content, content, h.format_eq]
  split
  · rw [stripCrc32Blocks_eq_unframe, stripCrc32Blocks_eq_unframe, unframe_length (by decide),
      unframe_length (by decide), h.length_eq]
  · exact h.length_eq

/-- The slice of the content that an extent names depends on the advised bytes only. -/
theorem slice?_content_advised (h : r.Resembles r') (hbuf : r.prefetchBuf = []) (hoff : off < 2 ^ 32)
    (hn : n < 2 ^ 32)
    (hsame : ∀ range, r.prefetchRange true off n = some range → SameBytes r.file r'.file range) :
    slice? r.content off n = slice? r'.content off n := by
  by_cases hin : off + n ≤ r.content.length
  swap
  · rw [slice?, slice?, h.content_length, if_neg hin, if_neg hin]
  rcases Nat.eq_zero_or_pos n with rfl | hpos
  · rw [slice?_of_le hin, slice?_of_le (h.content_length ▸ hin), List.take_zero, List.take_zero]
  have hadvised := hsame _ (prefetchRange_eq hbuf hoff hn hpos)
  rw [content, content, h.format_eq] at *
  cases hcrc : r.crcBlockFormat with
  | false =>
      rw [hcrc, if_neg Bool.false_ne_true] at hadvised hin
      simp only [Bool.false_eq_true, if_false]
      rw [slice?_of_le hin, slice?_of_le (h.length_eq ▸ hin), hadvised.take_drop (Nat.le_refl n)]
  | true =>
      rw [hcrc, if_pos rfl] at hadvised hin
      simp only [if_true]
      have hspan := blocks_le (by omega : 0 < off + n)
      -- the first block starts inside the file, as the extent does
      have hstart : off / crcContentSize * crcBlockSize ≤ r.file.length := by
        rw [stripCrc32Blocks_eq_unframe] at hin
        apply (mul_le_unframe_length (h := crcSize) (show 0 < crcContentSize by decide) r.file _).mp
        have hblock : off / crcContentSize * crcContentSize ≤ off := Nat.div_mul_le_self _ _
        exact hblock.trans ((Nat.le_add_right _ _).trans hin)
      have hstart' : off / crcContentSize * crcBlockSize ≤ r'.file.length := hstart.trans_eq h.length_eq.symm
      have hbytes := hadvised.take_drop (Nat.sub_le_sub_right (Nat.min_le_left _ r.file.length) _)
      rw [← slice?_strip_blocks (by omega) hstart, ← slice?_strip_blocks (by omega) hstart',
        h.length_eq, hbytes]

/-- Each byte of a physical range lies in a block that holds a byte of the extent. -/
def Touches (r : TAEObjectReader) (ext : Extent) (range : Nat × Nat) : Prop :=
  ∀ p, range.1 ≤ p → p < range.1 + range.2 →
    ∃ q, ext.offset ≤ q ∧ q < ext.offset + ext.length ∧
      if r.crcBlockFormat then p / crcBlockSize = q / crcContentSize else p = q

theorem touches_of_advised {advises : Bool} {ext : Extent} {range : Nat × Nat}
    (hoff : ext.offset < 2 ^ 32) (hlen : ext.length < 2 ^ 32)
    (hadvice : r.prefetchRange advises ext.offset ext.length = some range) : r.Touches ext range := by
  obtain ⟨hbuf, rfl, hpos⟩ : r.prefetchBuf = [] ∧ advises = true ∧ 0 < ext.length := by
    rw [prefetchRange] at hadvice
    split at hadvice
    · cases hadvice
    · next hbuf =>
        split at hadvice
        · next hopen => exact ⟨not_not.mp hbuf, hopen⟩
        · cases hadvice
  rw [prefetchRange_eq hbuf hoff hlen hpos, Option.some.injEq] at hadvice
  subst hadvice
  intro p hstart hstop
  split
  · next hcrc =>
      rw [if_pos hcrc] at hstart hstop
      -- the block's first byte, or the extent's when that comes later
      refine ⟨max ext.offset (p / crcBlockSize * crcContentSize), ?_⟩
      simp only [crcBlockSize, crcContentSize] at hstart hstop ⊢
      omega
  · next hraw =>
      rw [if_neg hraw] at hstart hstop
      exact ⟨p, hstart, hstop, rfl⟩

-- ============================================================================
-- A block ahead
-- ============================================================================

section Block
variable {fs fs' : FileSystem} {lz4 : LZ4} {md : ObjectMeta} {blockIdx : Nat} {seqnums : List Nat}

/-- The advised bytes decide which columns the content holds. -/
theorem contentHolds_advised (h : r.Resembles r') (hbuf : r.prefetchBuf = [])
    (hfit : ∀ blk ∈ md.blocks, blk.ExtentsFit)
    (hsame : ∀ range ∈ r.prefetchBlock true md blockIdx seqnums, SameBytes r.file r'.file range)
    (cols : List DecodedColumn) :
    ContentHolds lz4 r.content md blockIdx seqnums cols ↔
      ContentHolds lz4 r'.content md blockIdx seqnums cols := by
  rw [ContentHolds, ContentHolds]
  apply exists_congr
  intro blk
  apply and_congr_right
  intro hblk
  rw [prefetchBlock, hblk] at hsame
  have hcolumn : ∀ seq ∈ seqnums, ∀ col, blk.columns[seq]? = some col → ∀ decoded,
      Stores lz4 r.content col.location decoded ↔ Stores lz4 r'.content col.location decoded := by
    intro seq hseq col hcol decoded
    obtain ⟨hoff, hlen⟩ := (hfit blk (List.mem_of_getElem? hblk)).getElem? hcol
    rw [Stores, Stores, slice?_content_advised h hbuf hoff hlen]
    intro range hrange
    apply hsame
    rw [List.mem_filterMap]
    exact ⟨seq, hseq, by rw [hcol]; exact hrange⟩
  clear hsame
  induction seqnums generalizing cols with
  | nil => rw [List.forall₂_nil_left_iff, List.forall₂_nil_left_iff]
  | cons seq seqnums ih =>
      rw [List.forall₂_cons_left_iff, List.forall₂_cons_left_iff]
      simp only [ih _ fun s hs => hcolumn s (List.mem_cons_of_mem _ hs)]
      apply exists_congr
      intro decoded
      apply exists_congr
      intro rest
      apply and_congr_left
      intro _
      apply exists_congr
      intro col
      apply and_congr_right
      intro hcol
      exact hcolumn seq List.mem_cons_self col hcol decoded

/-- The look-ahead advises all that `ReadBlock` will need: two files of one length and
    format that agree on the advised ranges answer it with the same columns. -/
theorem prefetchBlock_covers (hfs : fs.ThrowsPastEnd) (hfs' : fs'.ThrowsPastEnd) (hr : r.Ready)
    (hr' : r'.Ready) (h : r.Resembles r') (hbuf : r.prefetchBuf = [])
    (hfit : ∀ blk ∈ md.blocks, blk.ExtentsFit)
    (hsame : ∀ range ∈ r.prefetchBlock true md blockIdx seqnums, SameBytes r.file r'.file range)
    (sort sort' : OffsetSort) (gapMax : Nat) (cols : List DecodedColumn) :
    (r.readBlock fs lz4 sort gapMax md blockIdx seqnums).2 = .ok cols ↔
      (r'.readBlock fs' lz4 sort' gapMax md blockIdx seqnums).2 = .ok cols := by
  rw [readBlock_eq_ok_content hfs hr hfit, readBlock_eq_ok_content hfs' hr' hfit,
    contentHolds_advised h hbuf hfit hsame]

/-- A reader of a file in which only the second of two columns is left. -/
def lastColumnReader : TAEObjectReader where
  file := List.replicate 106 0 ++ storedValue 0
  prefetchThreshold := 0
  formatDetected := true

/-- That column is read as from the whole file. -/
theorem prefetchBlock_covers_lastColumn :
    ∃ cols, ((adjacentReader 0).readBlock .positional .refusing .merge 0 (adjacentMeta 0) 0 [1]).2 = .ok cols ∧
      (lastColumnReader.readBlock .positional .refusing .merge 0 (adjacentMeta 0) 0 [1]).2 = .ok cols := by
  have hread : ((adjacentReader 0).readBlock .positional .refusing .merge 0 (adjacentMeta 0) 0
      [1]).2.toOption.isSome = true := by decide +kernel
  obtain ⟨cols, hsome⟩ := Option.isSome_iff_exists.mp hread
  have hcols := toOption_eq_some.mp hsome
  have hlength : lastColumnReader.file.length = 148 := rfl
  have hready : lastColumnReader.Ready := ⟨rfl, hlength.trans_lt (by decide), Or.inl rfl⟩
  have hlike : (adjacentReader 0).Resembles lastColumnReader := ⟨hlength, rfl⟩
  refine ⟨cols, hcols, (prefetchBlock_covers FileSystem.positional_throwsPastEnd
    FileSystem.positional_throwsPastEnd (adjacentReader_ready (by decide)) hready hlike rfl
    (adjacentMeta_extentsFit (by decide)) ?_ _ _ _ cols).mp hcols⟩
  intro range hrange p hstart hstop
  obtain rfl : range = (106, 42) := List.mem_singleton.mp hrange
  have hlast : ∀ i, i < 42 → (adjacentReader 0).file[106 + i]? = lastColumnReader.file[106 + i]? := by
    decide
  obtain ⟨i, rfl⟩ := Nat.exists_eq_add_of_le hstart
  exact hlast i (by omega)

/-- And no block more: each advised byte lies in a block that holds a byte of a
    requested column. -/
theorem prefetchBlock_tight {advises : Bool} (hfit : ∀ blk ∈ md.blocks, blk.ExtentsFit)
    {range : Nat × Nat} (hrange : range ∈ r.prefetchBlock advises md blockIdx seqnums) :
    ∃ blk, md.blocks[blockIdx]? = some blk ∧ ∃ seq ∈ seqnums, ∃ col, blk.columns[seq]? = some col ∧
      r.Touches col.location range := by
  rw [prefetchBlock] at hrange
  cases hblk : md.blocks[blockIdx]? with
  | none => rw [hblk] at hrange; cases hrange
  | some blk =>
      rw [hblk, List.mem_filterMap] at hrange
      obtain ⟨seq, hseq, hadvice⟩ := hrange
      cases hcol : blk.columns[seq]? with
      | none => rw [hcol] at hadvice; cases hadvice
      | some col =>
          rw [hcol, Option.bind_some] at hadvice
          obtain ⟨hoff, hlen⟩ := (hfit blk (List.mem_of_getElem? hblk)).getElem? hcol
          exact ⟨blk, rfl, seq, hseq, col, hcol, touches_of_advised hoff hlen hadvice⟩

end Block

end TAEObjectReader

end TaeScanner
