/-
  TaeScanner.Reader.OutOfRange

  Reads of ranges that the content does not have.

    * `readBytesSteps` lists what a read does on the way to its result: its 64-bit
      additions and subtractions, the ranges it cuts out of the cache, and the
      buffers it asks for;
    * on a raw file such a read fails cleanly;
    * on a wrapped file it does iff the first block of the range starts inside the
      file.  Otherwise the length of the physical range wraps, and with the file in
      the cache the wrapped end passes the bound test.
-/

import TaeScanner.Reader.ReadRange

namespace TaeScanner

open Lib

-- ============================================================================
-- Steps
-- ============================================================================

/-- What a read does besides its result. -/
inductive ReadStep
  | add (a b : Nat)
  | sub (a b : Nat)
  /-- The part of a cache of `size` bytes from `first` up to `last`. -/
  | cacheSlice (size first last : Nat)
  /-- A buffer that bytes of the file are read into. -/
  | buffer (size : Nat)
  /-- Room for the stripped bytes. -/
  | reserve (size : Nat)
  deriving DecidableEq, Repr

namespace ReadStep

/-- The 64-bit result is the exact one. -/
def NoWrap : ReadStep → Prop
  | add a b => a + b < 2 ^ 64
  | sub a b => b ≤ a
  | _ => True

/-- The cut does not end before it starts, nor past the end of the cache. -/
def InCache : ReadStep → Prop
  | cacheSlice size first last => first ≤ last ∧ last ≤ size
  | _ => True

def BufferWithin (limit : Nat) : ReadStep → Prop
  | buffer size => size ≤ limit
  | _ => True

def ReserveWithin (limit : Nat) : ReadStep → Prop
  | reserve size => size ≤ limit
  | _ => True

end ReadStep

namespace TAEObjectReader

/-- The steps of `ReadRawBytes`. -/
def readRawSteps (fs : FileSystem) (r : TAEObjectReader) (offset length : Nat) : List ReadStep :=
  (if !r.prefetchAttempted && r.fileSize ≤ r.prefetchThreshold then [.buffer r.fileSize] else []) ++
    match prefetch fs r with
    | (_, .error _) => []
    | (r, .ok _) =>
        (if r.prefetchBuf.isEmpty then [] else [.add offset length]) ++
          if !r.prefetchBuf.isEmpty && wrapAdd 64 offset length ≤ r.prefetchBuf.length then
            [.cacheSlice r.prefetchBuf.length offset (wrapAdd 64 offset length)]
          else [.buffer length]

/-- The steps of `DetectCrcFormat`. -/
def detectSteps (fs : FileSystem) (r : TAEObjectReader) : List ReadStep :=
  if r.formatDetected || r.fileSize < 12 then []
  else readRawSteps fs { r with formatDetected := true } 0 12

/-- The steps of `StripCrc32Blocks`; the subtraction of a header is guarded. -/
def stripSteps (raw : List Byte) : List ReadStep :=
  let numBlocks := (raw.length + crcBlockSize - 1) / crcBlockSize
  [.add raw.length crcBlockSize, .sub (wrapAdd 64 raw.length crcBlockSize) 1,
      .reserve (numBlocks * crcContentSize)] ++
    (List.range numBlocks).map fun b => .sub raw.length (b * crcBlockSize)

/-- Where the physical range of a wrapped read starts and ends. -/
def physStart (offset : Nat) : Nat := wrapMul 64 (offset / crcContentSize) crcBlockSize

def physEnd (fileSize offset length : Nat) : Nat :=
  let lastBlock := wrapSub 64 (wrapAdd 64 offset length) 1 / crcContentSize
  min (wrapMul 64 (wrapAdd 64 lastBlock 1) crcBlockSize) fileSize

/-- The steps after the raw read: stripping, and the test of the local range. -/
def localSteps (offset length : Nat) (raw : Except ReadError (List Byte)) : List ReadStep :=
  let contentStart := wrapMul 64 (offset / crcContentSize) crcContentSize
  match raw with
  | .error _ => []
  | .ok raw =>
      stripSteps raw ++ [.sub offset contentStart, .add (wrapSub 64 offset contentStart) length]

/-- The steps of `ReadBytes`. -/
def readBytesSteps (fs : FileSystem) (r : TAEObjectReader) (offset length : Nat) : List ReadStep :=
  detectSteps fs r ++
    match detectCrcFormat fs r with
    | (_, .error _) => []
    | (r, .ok _) =>
        if !r.crcBlockFormat then readRawSteps fs r offset length
        else
          let first := physStart offset
          let last := physEnd r.fileSize offset length
          [.add offset length, .sub (wrapAdd 64 offset length) 1,
              .add (wrapSub 64 (wrapAdd 64 offset length) 1 / crcContentSize) 1, .sub last first] ++
            (readRawSteps fs r first (wrapSub 64 last first) ++
              localSteps offset length (readRawBytes fs r first (wrapSub 64 last first)).2)

/-- The file is found to be wrapped. -/
def IsWrapped (fs : FileSystem) (r : TAEObjectReader) : Prop :=
  (detectCrcFormat fs r).2 = .ok () ∧ (detectCrcFormat fs r).1.crcBlockFormat = true

/-- A read throws, and on the way nothing wraps, the cache is cut properly, and no
    more is read at once than a wrapped file has. -/
structure FailsCleanly (fs : FileSystem) (r : TAEObjectReader) (offset length : Nat) : Prop where
  throws : ∃ what, (readBytes fs r offset length).2 = .error (.runtime what)
  noWrap : ∀ s ∈ readBytesSteps fs r offset length, s.NoWrap
  inCache : ∀ s ∈ readBytesSteps fs r offset length, s.InCache
  buffers : IsWrapped fs r → ∀ s ∈ readBytesSteps fs r offset length, s.BufferWithin r.fileSize

/-- The readers that logical reads of 32-bit ranges lead to. -/
inductive Reached (fs : FileSystem) (file : List Byte) (threshold : Nat) : TAEObjectReader → Prop
  | opened : Reached fs file threshold (TAEObjectReader.open file threshold)
  | read {r : TAEObjectReader} {offset length : Nat} : Reached fs file threshold r →
      offset < 2 ^ 32 → length < 2 ^ 32 → Reached fs file threshold (readBytes fs r offset length).1

/-- Where the blocks of a wrapped file that a range touches start, and where they end
    or the file does. -/
def firstByte (offset : Nat) : Nat := offset / crcContentSize * crcBlockSize

def endByte (fileSize offset length : Nat) : Nat :=
  min (((offset + length - 1) / crcContentSize + 1) * crcBlockSize) fileSize

/-- The number of these blocks. -/
def touchedBlocks (fileSize offset length : Nat) : Nat :=
  (endByte fileSize offset length - firstByte offset + crcBlockSize - 1) / crcBlockSize

-- ============================================================================
-- Readers over one file
-- ============================================================================

section Readers
variable (fs : FileSystem) (r : TAEObjectReader) (off n : Nat)

theorem prefetch_file : (prefetch fs r).1.file = r.file := by
  rw [prefetch]
  split
  · rfl
  · split
    · split
      · rfl
      · rfl
    · rfl

/-- A raw read changes the reader only by prefetching. -/
theorem readRawBytes_fst : (readRawBytes fs r off n).1 = (prefetch fs r).1 := by
  rw [readRawBytes]
  rcases prefetch fs r with ⟨r', e | u⟩
  · rfl
  · simp only
    split
    · split
      · rfl
      · rfl
    · split
      · rfl
      · rfl

theorem detectCrcFormat_file : (detectCrcFormat fs r).1.file = r.file := by
  rw [detectCrcFormat]
  split
  · rfl
  · simp only
    split
    · rfl
    · have hread := prefetch_file fs { r with formatDetected := true }
      rw [← readRawBytes_fst fs _ 0 12] at hread
      generalize readRawBytes fs { r with formatDetected := true } 0 12 = probed at hread ⊢
      rcases probed with ⟨r', e | probe⟩
      · exact hread
      · simp only
        split
        · exact hread
        · split
          · exact hread
          · exact hread

theorem readBytes_file : (readBytes fs r off n).1.file = r.file := by
  have hdetect := detectCrcFormat_file fs r
  rw [readBytes]
  generalize detectCrcFormat fs r = detected at hdetect ⊢
  rcases detected with ⟨r', e | u⟩
  · exact hdetect
  · simp only
    have hread : ∀ start len, (readRawBytes fs r' start len).1.file = r.file := by
      intro start len
      rw [readRawBytes_fst, prefetch_file]
      exact hdetect
    split
    · exact hread off n
    · have hraw := hread (wrapMul 64 (off / crcContentSize) crcBlockSize)
        (wrapSub 64 (min (wrapMul 64 (wrapAdd 64 (wrapSub 64 (wrapAdd 64 off n) 1 / crcContentSize) 1)
          crcBlockSize) r'.fileSize) (wrapMul 64 (off / crcContentSize) crcBlockSize))
      split
      · next heq =>
          rw [heq] at hraw
          exact hraw
      · next heq =>
          rw [heq] at hraw
          split
          · exact hraw
          · split
            · exact hraw
            · exact hraw

variable {fs r off n}

/-- Every reader has the file, and was just opened or has looked for the format. -/
theorem Reached.spec {file : List Byte} {threshold : Nat} (hfs : fs.ThrowsPastEnd)
    (hsmall : file.length < 2 ^ 63) (h : Reached fs file threshold r) :
    r.file = file ∧ (r.Opened ∨ r.Ready) := by
  induction h with
  | opened => exact ⟨rfl, Or.inl (opened_open hsmall threshold)⟩
  | @read r off n _ hoff hn ih =>
      refine ⟨(readBytes_file fs r off n).trans ih.1, Or.inr ?_⟩
      rcases ih.2 with hopened | hready
      · obtain ⟨r₁, res, hdetect, hready, -⟩ := detectCrcFormat_opened fs hopened
        cases res with
        | error e =>
            rw [readBytes, hdetect]
            exact hready
        | ok u =>
            obtain ⟨r₂, res, hread, hcont, -⟩ := readBytes_ready hfs hready hoff hn
            rw [readBytes_detected hdetect hready.detected, hread]
            exact hcont.ready
      · obtain ⟨r₂, res, hread, hcont, -⟩ := readBytes_ready hfs hready hoff hn
        rw [hread]
        exact hcont.ready

end Readers

-- ============================================================================
-- Clean steps
-- ============================================================================

section Steps
variable {fs : FileSystem} {r : TAEObjectReader} {off n : Nat}

/-- A step without fault, that reads no more than the file has at once. -/
structure StepOk (fileSize : Nat) (s : ReadStep) : Prop where
  noWrap : s.NoWrap
  inCache : s.InCache
  buffer : s.BufferWithin fileSize

/-- The steps of a raw read whose end does not wrap, unless it asks for more than the
    file has. -/
theorem readRawSteps_ok (hcache : r.prefetchBuf = [] ∨ r.prefetchBuf = r.file)
    (hsum : off + n < 2 ^ 64) :
    ∀ s ∈ readRawSteps fs r off n, s.NoWrap ∧ s.InCache ∧ (n ≤ r.fileSize → s.BufferWithin r.fileSize) ∧
      ∀ limit, s.ReserveWithin limit := by
  obtain ⟨r', hpre, hfile, hcache', -⟩ := prefetch_spec fs hcache
  intro s hs
  rw [readRawSteps, hpre] at hs
  rcases List.mem_append.mp hs with hs | hs
  · -- the prefetch buffer
    split at hs
    · obtain rfl := List.mem_singleton.mp hs
      exact ⟨trivial, trivial, fun _ => Nat.le_refl _, fun _ => trivial⟩
    · cases hs
  · rw [wrapAdd_of_lt hsum] at hs
    rcases List.mem_append.mp hs with hs | hs
    · split at hs
      · cases hs
      · obtain rfl := List.mem_singleton.mp hs
        exact ⟨hsum, trivial, fun _ => trivial, fun _ => trivial⟩
    · split at hs
      · next hcached =>
          obtain rfl := List.mem_singleton.mp hs
          rw [Bool.and_eq_true, decide_eq_true_eq] at hcached
          exact ⟨trivial, ⟨Nat.le_add_right _ _, hcached.2⟩, fun _ => trivial, fun _ => trivial⟩
      · obtain rfl := List.mem_singleton.mp hs
        exact ⟨trivial, trivial, fun hn => hn, fun _ => trivial⟩

/-- A raw read past the end whose end does not wrap throws. -/
theorem readRawBytes_past (hfs : fs.ThrowsPastEnd)
    (hcache : r.prefetchBuf = [] ∨ r.prefetchBuf = r.file) (hsum : off + n < 2 ^ 64)
    (hpast : r.file.length < off + n) :
    ∃ what, (readRawBytes fs r off n).2 = .error (.runtime what) := by
  obtain ⟨r', hpre, hfile, hcache', -⟩ := prefetch_spec fs hcache
  have hnot : ¬(!r'.prefetchBuf.isEmpty && decide (off + n ≤ r'.prefetchBuf.length)) = true := by
    rw [Bool.and_eq_true, decide_eq_true_eq]
    rintro ⟨hne, hle⟩
    rcases hcache' with hnil | hall
    · rw [hnil] at hne
      exact absurd hne (by decide)
    · rw [hall, hfile] at hle
      omega
  rw [readRawBytes, hpre]
  simp only [wrapAdd_of_lt hsum, if_neg hnot]
  split
  · exact ⟨_, rfl⟩
  · obtain ⟨what, hread⟩ := hfs r.file n off hpast
    exact ⟨what, by rw [hfile]; exact hread⟩

/-- The steps that look for the format. -/
theorem detectSteps_ok (hcache : r.prefetchBuf = [] ∨ r.prefetchBuf = r.file) :
    ∀ s ∈ detectSteps fs r, StepOk r.fileSize s ∧ ∀ limit, s.ReserveWithin limit := by
  intro s hs
  rw [detectSteps] at hs
  split at hs
  · cases hs
  · next hlarge =>
      rw [Bool.or_eq_true, decide_eq_true_eq, not_or, Nat.not_lt] at hlarge
      obtain ⟨hwrap, hcut, hbuffer, hreserve⟩ :=
        readRawSteps_ok (r := { r with formatDetected := true }) hcache (by decide) s hs
      exact ⟨⟨hwrap, hcut, hbuffer hlarge.2⟩, hreserve⟩

/-- The steps that strip a buffer. -/
theorem stripSteps_ok {raw : List Byte} (hsmall : raw.length < 2 ^ 63) (fileSize : Nat) :
    (∀ s ∈ stripSteps raw, StepOk fileSize s) ∧ ∀ limit,
      ((∀ s ∈ stripSteps raw, s.ReserveWithin limit) ↔
        (raw.length + crcBlockSize - 1) / crcBlockSize * crcContentSize ≤ limit) := by
  have hadd : raw.length + crcBlockSize < 2 ^ 64 := by
    simp only [crcBlockSize]
    omega
  have hblock : ∀ b ∈ List.range ((raw.length + crcBlockSize - 1) / crcBlockSize),
      b * crcBlockSize ≤ raw.length := by
    intro b hb
    have hlt := List.mem_range.mp hb
    simp only [crcBlockSize] at hlt ⊢
    omega
  have hsteps : ∀ P : ReadStep → Prop, (∀ s ∈ stripSteps raw, P s) ↔
      P (.add raw.length crcBlockSize) ∧ P (.sub (raw.length + crcBlockSize) 1) ∧
        P (.reserve ((raw.length + crcBlockSize - 1) / crcBlockSize * crcContentSize)) ∧
          ∀ b ∈ List.range ((raw.length + crcBlockSize - 1) / crcBlockSize),
            P (.sub raw.length (b * crcBlockSize)) := by
    intro P
    simp only [stripSteps, wrapAdd_of_lt hadd, List.cons_append, List.nil_append, List.forall_mem_cons,
      List.forall_mem_map]
  constructor
  · refine (hsteps _).mpr ⟨⟨hadd, trivial, trivial⟩, ⟨?_, trivial, trivial⟩, ⟨trivial, trivial, trivial⟩,
      fun b hb => ⟨hblock b hb, trivial, trivial⟩⟩
    show 1 ≤ raw.length + crcBlockSize
    simp only [crcBlockSize]
    omega
  · intro limit
    refine (hsteps _).trans ⟨fun h => h.2.2.1, fun h => ⟨trivial, trivial, h, fun _ _ => trivial⟩⟩

-- ============================================================================
-- Readers that have looked for the format
-- ============================================================================

/-- The physical range of 32-bit reads is computed without wrapping. -/
theorem phys_exact (hoff : off < 2 ^ 32) (hn : n < 2 ^ 32) (hpos : 0 < off + n) (fileSize : Nat) :
    physStart off = firstByte off ∧ physEnd fileSize off n = endByte fileSize off n ∧
      wrapAdd 64 off n = off + n ∧ wrapSub 64 (off + n) 1 = off + n - 1 := by
  have hadd : wrapAdd 64 off n = off + n := wrapAdd_of_lt (by omega)
  obtain ⟨hsub, hfirst, hlast, -⟩ := blocks_exact hpos (by omega)
  refine ⟨hfirst, ?_, hadd, hadd ▸ hsub⟩
  simp only [physEnd, hsub, hlast, endByte]

/-- The range does not end before it starts. -/
theorem firstByte_le_endByte {fileSize : Nat} (hpos : 0 < off + n) (hstart : firstByte off ≤ fileSize) :
    firstByte off ≤ endByte fileSize off n :=
  Nat.le_min.mpr ⟨blocks_le hpos, hstart⟩

theorem readBytesSteps_ready (hr : r.Ready) (off n : Nat) : readBytesSteps fs r off n =
    if !r.crcBlockFormat then readRawSteps fs r off n
    else
      [.add off n, .sub (wrapAdd 64 off n) 1,
          .add (wrapSub 64 (wrapAdd 64 off n) 1 / crcContentSize) 1,
          .sub (physEnd r.fileSize off n) (physStart off)] ++
        (readRawSteps fs r (physStart off) (wrapSub 64 (physEnd r.fileSize off n) (physStart off)) ++
          localSteps off n (readRawBytes fs r (physStart off)
            (wrapSub 64 (physEnd r.fileSize off n) (physStart off))).2) := by
  have hdetect : detectCrcFormat fs r = (r, .ok ()) := if_pos hr.detected
  have hnone : detectSteps fs r = [] := if_pos (by rw [hr.detected]; rfl)
  rw [readBytesSteps, hnone, hdetect]
  rfl

theorem isWrapped_ready (hr : r.Ready) : IsWrapped fs r ↔ r.crcBlockFormat = true := by
  have hdetect : detectCrcFormat fs r = (r, .ok ()) := if_pos hr.detected
  rw [IsWrapped, hdetect]
  exact and_iff_right rfl

/-- On a raw file a read past the end fails cleanly. -/
theorem failsCleanly_raw (hfs : fs.ThrowsPastEnd) (hr : r.Ready) (hcrc : r.crcBlockFormat = false)
    (hoff : off < 2 ^ 32) (hn : n < 2 ^ 32) (hout : r.content.length < off + n) :
    FailsCleanly fs r off n := by
  have hread : readBytes fs r off n = readRawBytes fs r off n := by
    simp only [readBytes, detectCrcFormat, hr.detected, hcrc, if_true, Bool.not_false]
  have hsteps : readBytesSteps fs r off n = readRawSteps fs r off n := by
    rw [readBytesSteps_ready hr, hcrc]
    rfl
  have hok : ∀ s ∈ readRawSteps fs r off n, _ := readRawSteps_ok hr.cache (by omega)
  rw [content, hcrc, if_neg Bool.false_ne_true] at hout
  refine ⟨?_, ?_, ?_, ?_⟩
  · rw [hread]
    exact readRawBytes_past hfs hr.cache (by omega) hout
  · rw [hsteps]
    exact fun s hs => (hok s hs).1
  · rw [hsteps]
    exact fun s hs => (hok s hs).2.1
  · intro hwrapped
    rw [isWrapped_ready hr, hcrc] at hwrapped
    exact absurd hwrapped Bool.false_ne_true

/-- The raw read of the touched blocks is inside the file. -/
theorem readRawBytes_touched (hfs : fs.ThrowsPastEnd) (hr : r.Ready) (hpos : 0 < off + n)
    (hstart : firstByte off ≤ r.fileSize) :
    ∃ raw : List Byte, raw.length = endByte r.fileSize off n - firstByte off ∧
      raw = (r.file.drop (firstByte off)).take (endByte r.fileSize off n - firstByte off) ∧
      (readRawBytes fs r (firstByte off) (endByte r.fileSize off n - firstByte off)).2 = .ok raw := by
  have hle := firstByte_le_endByte hpos hstart
  have hend : endByte r.fileSize off n ≤ r.file.length := Nat.min_le_right _ _
  obtain ⟨r', res, hread, -, -, hres⟩ := readRawBytes_ready hfs hr (firstByte off)
    (endByte r.fileSize off n - firstByte off)
  obtain rfl := (hres _).mpr (slice?_of_le (by omega))
  refine ⟨_, ?_, rfl, by rw [hread]⟩
  rw [List.length_take, List.length_drop]
  omega

/-- A wrapped file does not have the range, so neither do its touched blocks. -/
theorem readBytes_wrapped_throws (hfs : fs.ThrowsPastEnd) (hr : r.Ready) (hcrc : r.crcBlockFormat = true)
    (hoff : off < 2 ^ 32) (hn : n < 2 ^ 32) (hout : r.content.length < off + n)
    (hstart : firstByte off ≤ r.fileSize) :
    ∃ what, (readBytes fs r off n).2 = .error (.runtime what) := by
  have hsmall := hr.small
  have hpos : 0 < off + n := by omega
  have hfirst : off / crcContentSize * crcContentSize ≤ off := Nat.div_mul_le_self _ _
  have hle := firstByte_le_endByte hpos hstart
  have hend : endByte r.fileSize off n ≤ r.file.length := Nat.min_le_right _ _
  obtain ⟨hphys, hphysEnd, hadd, hsub⟩ := phys_exact hoff hn hpos r.fileSize
  obtain ⟨raw, -, hraw, hread⟩ := readRawBytes_touched hfs hr hpos hstart
  have hcount : wrapSub 64 (endByte r.fileSize off n) (firstByte off)
      = endByte r.fileSize off n - firstByte off := wrapSub_of_le (by omega) hle
  have hlocal : wrapSub 64 off (wrapMul 64 (off / crcContentSize) crcContentSize)
      = off - off / crcContentSize * crcContentSize := by
    rw [wrapMul_of_lt (by omega), wrapSub_of_le (by omega) hfirst]
  -- what is stripped ends before the range does
  have hshort : (stripCrc32Blocks raw).length < off - off / crcContentSize * crcContentSize + n := by
    have hslice : slice? (stripCrc32Blocks raw) (off - off / crcContentSize * crcContentSize) n
        = slice? (stripCrc32Blocks r.file) off n := by
      rw [hraw]
      exact slice?_strip_blocks hpos hstart
    have hmissing : slice? (stripCrc32Blocks r.file) off n = none := by
      rw [content, hcrc, if_pos rfl] at hout
      exact if_neg (Nat.not_le.mpr hout)
    by_contra hlong
    rw [hmissing, slice?_of_le (Nat.not_lt.mp hlong)] at hslice
    cases hslice
  have hresult : (readBytes fs r off n).2 = stripped? off n (stripCrc32Blocks raw)
      (off - off / crcContentSize * crcContentSize) := by
    rw [← hlocal]
    apply readBytes_crc_snd hr hcrc
    show (readRawBytes fs r (physStart off)
      (wrapSub 64 (physEnd r.fileSize off n) (physStart off))).2 = .ok raw
    rw [hphys, hphysEnd, hcount, hread]
  rw [hresult, stripped?, wrapAdd_of_lt (by omega), if_pos hshort]
  exact ⟨_, rfl⟩

/-- The steps of a read of a wrapped file whose touched blocks start inside the file. -/
theorem readBytesSteps_wrapped (hfs : fs.ThrowsPastEnd) (hr : r.Ready) (hcrc : r.crcBlockFormat = true)
    (hoff : off < 2 ^ 32) (hn : n < 2 ^ 32) (hpos : 0 < off + n) (hstart : firstByte off ≤ r.fileSize) :
    ∃ raw : List Byte, raw.length = endByte r.fileSize off n - firstByte off ∧
      readBytesSteps fs r off n =
        [.add off n, .sub (off + n) 1, .add ((off + n - 1) / crcContentSize) 1,
            .sub (endByte r.fileSize off n) (firstByte off)] ++
          (readRawSteps fs r (firstByte off) (endByte r.fileSize off n - firstByte off) ++
            (stripSteps raw ++ [.sub off (off / crcContentSize * crcContentSize),
              .add (off - off / crcContentSize * crcContentSize) n])) := by
  have hsmall := hr.small
  have hfirst : off / crcContentSize * crcContentSize ≤ off := Nat.div_mul_le_self _ _
  have hle := firstByte_le_endByte hpos hstart
  have hend : endByte r.fileSize off n ≤ r.file.length := Nat.min_le_right _ _
  obtain ⟨hphys, hphysEnd, hadd, hsub⟩ := phys_exact hoff hn hpos r.fileSize
  obtain ⟨raw, hlen, -, hread⟩ := readRawBytes_touched hfs hr hpos hstart
  have hcount : wrapSub 64 (endByte r.fileSize off n) (firstByte off)
      = endByte r.fileSize off n - firstByte off := wrapSub_of_le (by omega) hle
  refine ⟨raw, hlen, ?_⟩
  rw [readBytesSteps_ready hr, hcrc, hphys, hphysEnd, hadd, hsub, hcount, hread]
  simp only [Bool.not_true, Bool.false_eq_true, if_false, localSteps,
    wrapMul_of_lt (by omega : off / crcContentSize * crcContentSize < 2 ^ 64),
    wrapSub_of_le (by omega : off < 2 ^ 64) hfirst]

/-- They are in order, and they reserve room for the touched blocks. -/
theorem wrappedSteps_ok (hfs : fs.ThrowsPastEnd) (hr : r.Ready) (hcrc : r.crcBlockFormat = true)
    (hoff : off < 2 ^ 32) (hn : n < 2 ^ 32) (hpos : 0 < off + n) (hstart : firstByte off ≤ r.fileSize) :
    (∀ s ∈ readBytesSteps fs r off n, StepOk r.fileSize s) ∧
      ((∀ s ∈ readBytesSteps fs r off n, s.ReserveWithin r.fileSize) ↔
        touchedBlocks r.fileSize off n * crcContentSize ≤ r.fileSize) := by
  have hsmall := hr.small
  have hle := firstByte_le_endByte hpos hstart
  have hend : endByte r.fileSize off n ≤ r.file.length := Nat.min_le_right _ _
  have hfirst : off / crcContentSize * crcContentSize ≤ off := Nat.div_mul_le_self _ _
  have hlast : (off + n - 1) / crcContentSize + 1 < 2 ^ 64 := by
    simp only [crcContentSize]
    omega
  obtain ⟨raw, hlen, hsteps⟩ := readBytesSteps_wrapped hfs hr hcrc hoff hn hpos hstart
  have hrawSteps : ∀ s ∈ readRawSteps fs r (firstByte off) (endByte r.fileSize off n - firstByte off), _ :=
    readRawSteps_ok hr.cache (by omega)
  obtain ⟨hstrip, hreserve⟩ : (∀ s ∈ stripSteps raw, StepOk r.fileSize s) ∧ _ :=
    stripSteps_ok (by omega) r.fileSize
  rw [hsteps]
  constructor
  · simp only [List.forall_mem_append, List.forall_mem_cons]
    refine ⟨⟨⟨?_, trivial, trivial⟩, ⟨hpos, trivial, trivial⟩, ⟨hlast, trivial, trivial⟩,
      ⟨hle, trivial, trivial⟩, List.forall_mem_nil _⟩, ?_, hstrip, ⟨hfirst, trivial, trivial⟩,
      ⟨?_, trivial, trivial⟩, List.forall_mem_nil _⟩
    · show off + n < 2 ^ 64
      omega
    · intro s hs
      obtain ⟨hwrap, hcut, hbuffer, -⟩ := hrawSteps s hs
      exact ⟨hwrap, hcut, hbuffer (Nat.le_trans (Nat.sub_le _ _) hend)⟩
    · show off - off / crcContentSize * crcContentSize + n < 2 ^ 64
      omega
  · rw [hlen] at hreserve
    rw [touchedBlocks, ← hreserve]
    simp only [List.forall_mem_append, List.forall_mem_cons]
    exact ⟨fun h => h.2.2.1, fun h => ⟨⟨trivial, trivial, trivial, trivial, List.forall_mem_nil _⟩,
      fun s hs => (hrawSteps s hs).2.2.2 r.fileSize, h, trivial, trivial, List.forall_mem_nil _⟩⟩

/-- Where the touched blocks start past the end of the file, the physical range has a
    negative length. -/
theorem not_failsCleanly (hr : r.Ready) (hcrc : r.crcBlockFormat = true)
    (hoff : off < 2 ^ 32) (hn : n < 2 ^ 32) (hpos : 0 < off + n) (hstart : r.fileSize < firstByte off) :
    ¬FailsCleanly fs r off n := by
  intro hclean
  obtain ⟨hphys, hphysEnd, -, -⟩ := phys_exact hoff hn hpos r.fileSize
  have hsub : ReadStep.sub (endByte r.fileSize off n) (firstByte off) ∈ readBytesSteps fs r off n := by
    rw [readBytesSteps_ready hr, hcrc, hphys, hphysEnd]
    simp
  have hle : firstByte off ≤ endByte r.fileSize off n := hclean.noWrap _ hsub
  have hend : endByte r.fileSize off n ≤ r.fileSize := Nat.min_le_right _ _
  omega

/-- What holds of a ready reader. -/
theorem outOfRange_ready (hfs : fs.ThrowsPastEnd) (hr : r.Ready) (hoff : off < 2 ^ 32) (hn : n < 2 ^ 32)
    (hout : r.content.length < off + n) :
    (FailsCleanly fs r off n ↔ (IsWrapped fs r → firstByte off ≤ r.fileSize)) ∧
      (IsWrapped fs r → firstByte off ≤ r.fileSize →
        ((∀ s ∈ readBytesSteps fs r off n, s.ReserveWithin r.fileSize) ↔
          touchedBlocks r.fileSize off n * crcContentSize ≤ r.fileSize)) := by
  have hpos : 0 < off + n := by omega
  rw [isWrapped_ready hr]
  cases hcrc : r.crcBlockFormat with
  | false =>
      refine ⟨iff_of_true (failsCleanly_raw hfs hr hcrc hoff hn hout) ?_, ?_⟩
      · exact fun h => absurd h Bool.false_ne_true
      · exact fun h => absurd h Bool.false_ne_true
  | true =>
      refine ⟨⟨fun hclean _ => ?_, fun hstart => ?_⟩, fun _ hstart => ?_⟩
      · by_contra hlate
        exact not_failsCleanly hr hcrc hoff hn hpos (Nat.not_le.mp hlate) hclean
      · obtain ⟨hok, -⟩ := wrappedSteps_ok hfs hr hcrc hoff hn hpos (hstart rfl)
        exact ⟨readBytes_wrapped_throws hfs hr hcrc hoff hn hout (hstart rfl),
          fun s hs => (hok s hs).noWrap, fun s hs => (hok s hs).inCache,
          fun _ s hs => (hok s hs).buffer⟩
      · exact (wrappedSteps_ok hfs hr hcrc hoff hn hpos hstart).2

/-- A reader that was just opened reads like the one that has found the format. -/
theorem outOfRange_opened (hfs : fs.ThrowsPastEnd) (hr : r.Opened) (hoff : off < 2 ^ 32) (hn : n < 2 ^ 32)
    (hout : (detectCrcFormat fs r).1.content.length < off + n) :
    (FailsCleanly fs r off n ↔ (IsWrapped fs r → firstByte off ≤ r.fileSize)) ∧
      (IsWrapped fs r → firstByte off ≤ r.fileSize →
        ((∀ s ∈ readBytesSteps fs r off n, s.ReserveWithin r.fileSize) ↔
          touchedBlocks r.fileSize off n * crcContentSize ≤ r.fileSize)) := by
  obtain ⟨r₁, res, hdetect, hready, hfile, hruntime⟩ := detectCrcFormat_opened fs hr
  have hsteps : ∀ s ∈ detectSteps fs r, _ := detectSteps_ok (Or.inl hr.cache)
  cases res with
  | error e =>
      obtain ⟨what, rfl⟩ := hruntime e rfl
      have hnot : ¬IsWrapped fs r := by
        rw [IsWrapped, hdetect]
        rintro ⟨hok, -⟩
        cases hok
      have hall : readBytesSteps fs r off n = detectSteps fs r := by
        rw [readBytesSteps, hdetect]
        exact List.append_nil _
      refine ⟨iff_of_true ⟨⟨what, ?_⟩, ?_, ?_, ?_⟩ fun h => absurd h hnot, fun h => absurd h hnot⟩
      · rw [readBytes, hdetect]
      · rw [hall]
        exact fun s hs => (hsteps s hs).1.noWrap
      · rw [hall]
        exact fun s hs => (hsteps s hs).1.inCache
      · exact fun h => absurd h hnot
  | ok u =>
      have hagain : detectCrcFormat fs r₁ = (r₁, .ok ()) := if_pos hready.detected
      have hskip : readBytes fs r off n = readBytes fs r₁ off n :=
        readBytes_detected hdetect hready.detected
      have hall : readBytesSteps fs r off n = detectSteps fs r ++ readBytesSteps fs r₁ off n := by
        have hnone : detectSteps fs r₁ = [] := if_pos (by rw [hready.detected]; rfl)
        rw [readBytesSteps, readBytesSteps, hdetect, hagain, hnone]
        rfl
      have hsize : r₁.fileSize = r.fileSize := congrArg List.length hfile
      have hwrapped : IsWrapped fs r ↔ IsWrapped fs r₁ := by
        rw [IsWrapped, IsWrapped, hdetect, hagain]
      rw [hdetect] at hout
      obtain ⟨hclean, hreserve⟩ := outOfRange_ready hfs hready hoff hn hout
      rw [hsize, ← hwrapped] at hclean hreserve
      constructor
      · rw [← hclean]
        constructor
        · rintro ⟨hthrows, hwrap, hcut, hbuffers⟩
          rw [hall] at hwrap hcut hbuffers
          refine ⟨hskip ▸ hthrows, fun s hs => hwrap s (List.mem_append_right _ hs),
            fun s hs => hcut s (List.mem_append_right _ hs), fun h s hs => ?_⟩
          rw [hsize]
          exact hbuffers (hwrapped.mpr h) s (List.mem_append_right _ hs)
        · rintro ⟨hthrows, hwrap, hcut, hbuffers⟩
          rw [hsize, ← hwrapped] at hbuffers
          refine ⟨hskip ▸ hthrows, ?_, ?_, fun h => ?_⟩ <;> rw [hall, List.forall_mem_append]
          · exact ⟨fun s hs => (hsteps s hs).1.noWrap, hwrap⟩
          · exact ⟨fun s hs => (hsteps s hs).1.inCache, hcut⟩
          · exact ⟨fun s hs => (hsteps s hs).1.buffer, hbuffers h⟩
      · intro h hstart
        rw [← hreserve h hstart, hall, List.forall_mem_append]
        exact and_iff_right fun s hs => (hsteps s hs).2 r.fileSize

end Steps

/-- A read of a range that the content does not have fails cleanly iff the file is not
    wrapped or the first touched block starts inside it.  It then also reserves no
    more than the file has iff the content of the touched blocks would fit in it. -/
theorem readBytes_outOfRange_iff {fs : FileSystem} {file : List Byte} {threshold : Nat}
    {r : TAEObjectReader} {offset length : Nat} (hfs : fs.ThrowsPastEnd) (hsmall : file.length < 2 ^ 63)
    (hr : Reached fs file threshold r) (hoffset : offset < 2 ^ 32) (hlength : length < 2 ^ 32)
    (hout : (detectCrcFormat fs r).1.content.length < offset + length) :
    (FailsCleanly fs r offset length ↔ (IsWrapped fs r → firstByte offset ≤ file.length)) ∧
      (IsWrapped fs r → firstByte offset ≤ file.length →
        ((∀ s ∈ readBytesSteps fs r offset length, s.ReserveWithin file.length) ↔
          touchedBlocks file.length offset length * crcContentSize ≤ file.length)) := by
  obtain ⟨hfile, hstate⟩ := hr.spec hfs hsmall
  have hsize : r.fileSize = file.length := congrArg List.length hfile
  rw [← hsize]
  rcases hstate with hopened | hready
  · exact outOfRange_opened hfs hopened hoffset hlength hout
  · have hdetect : detectCrcFormat fs r = (r, .ok ()) := if_pos hready.detected
    rw [hdetect] at hout
    exact outOfRange_ready hfs hready hoffset hlength hout

/-- Twelve content bytes behind one checksum. -/
def wrapped12 : List Byte := [7, 7, 7, 7, 255, 255, 255, 255, 0, 0, 0, 0, 1, 2, 3, 4]

/-- A range that starts in the only block and ends past it fails cleanly, but for the
    capacity reserved to strip the block, which the file does not have. -/
theorem wrapped12_tail :
    FailsCleanly FileSystem.positional (TAEObjectReader.open wrapped12 16) 10 8 ∧
      ¬∀ s ∈ readBytesSteps FileSystem.positional (TAEObjectReader.open wrapped12 16) 10 8,
        s.ReserveWithin wrapped12.length := by
  obtain ⟨hclean, hreserve⟩ := @readBytes_outOfRange_iff FileSystem.positional wrapped12 16
    (TAEObjectReader.open wrapped12 16) 10 8 FileSystem.positional_throwsPastEnd (by decide) Reached.opened
    (by decide) (by decide) (by decide +kernel)
  have hwrapped : IsWrapped FileSystem.positional (TAEObjectReader.open wrapped12 16) :=
    ⟨by decide +kernel, by decide +kernel⟩
  refine ⟨hclean.mpr fun _ => by decide, fun hall => ?_⟩
  have hbound := (hreserve hwrapped (by decide)).mp hall
  exact absurd hbound (by decide)

/-- A range two blocks past the only one: the cache is cut from byte 4096 to byte 16. -/
theorem wrapped12_past :
    (readBytes FileSystem.positional (TAEObjectReader.open wrapped12 16) 4088 8).2 = .error .badRange ∧
      ReadStep.cacheSlice 16 4096 16
        ∈ readBytesSteps FileSystem.positional (TAEObjectReader.open wrapped12 16) 4088 8 ∧
      ¬FailsCleanly FileSystem.positional (TAEObjectReader.open wrapped12 16) 4088 8 := by
  have hresult : (readBytes FileSystem.positional (TAEObjectReader.open wrapped12 16) 4088 8).2
      = .error .badRange := by decide +kernel
  refine ⟨hresult, by decide +kernel, fun hclean => ?_⟩
  obtain ⟨what, hthrows⟩ := hclean.throws
  rw [hresult] at hthrows
  cases hthrows

end TAEObjectReader

end TaeScanner
