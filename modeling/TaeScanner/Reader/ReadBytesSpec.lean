/-
  TaeScanner.Reader.ReadBytesSpec

  Logical reads are faithful: whatever the physical layout of a file and
  whatever the prefetch threshold, a sequence of `readBytes` calls inside the
  content returns exactly the requested ranges of the content.

  `PhysicalFile layout content file` says what the two layouts mean;
  `Tracks` is the invariant of a reader over such a file, `readRawBytes_spec`,
  `detectCrcFormat_spec` and `readBytes_spec` say what one call does to it, and
  the run theorem follows by induction on the requests.
-/

import TaeScanner.Reader.ReadBytes

namespace TaeScanner

open Lib

namespace TAEObjectReader

/-- The two physical formats of an object file. -/
inductive Layout
  | raw
  | crcWrapped
  deriving DecidableEq, Repr

/-- `file` stores `content`: as it is, or cut every 2044 bytes with 4 arbitrary
    checksum bytes before each piece. -/
def PhysicalFile : Layout → List Byte → List Byte → Prop
  | .raw, content, file => file = content
  | .crcWrapped, content, file => Framed crcSize crcContentSize content file

/-- The reader invariant: the file stores the content and fits the `int64` sizes
    of the file system, the cache is empty or the whole file, and a detected
    format is the real one. -/
structure Tracks (layout : Layout) (content : List Byte) (r : TAEObjectReader) : Prop where
  stores : PhysicalFile layout content r.file
  small : r.file.length < 2 ^ 63
  cache : r.prefetchBuf = [] ∨ r.prefetchBuf = r.file
  format : r.formatDetected = true → r.crcBlockFormat = decide (layout = .crcWrapped)

variable (fs : FileSystem) {layout : Layout} {content : List Byte} {r : TAEObjectReader}

-- ============================================================================
-- Raw reads
-- ============================================================================

/-- Reading the whole file at the first call leaves nothing but a cache behind. -/
theorem prefetch_spec (hcache : r.prefetchBuf = [] ∨ r.prefetchBuf = r.file) :
    ∃ r', prefetch fs r = (r', .ok ()) ∧ r'.file = r.file ∧
      (r'.prefetchBuf = [] ∨ r'.prefetchBuf = r'.file) ∧
      r'.crcBlockFormat = r.crcBlockFormat ∧ r'.formatDetected = r.formatDetected := by
  rw [prefetch]
  split
  · exact ⟨r, rfl, rfl, hcache, rfl, rfl⟩
  · split
    · rw [fs.read_inside _ _ _ (by simp [fileSize])]
      exact ⟨_, rfl, rfl, Or.inr (by simp [fileSize]), rfl, rfl⟩
    · exact ⟨_, rfl, rfl, hcache, rfl, rfl⟩

/-- A raw read inside the file returns those bytes, cached or not. -/
theorem readRawBytes_spec (hsmall : r.file.length < 2 ^ 63)
    (hcache : r.prefetchBuf = [] ∨ r.prefetchBuf = r.file) (off n : Nat)
    (hle : off + n ≤ r.file.length) :
    ∃ r', readRawBytes fs r off n = (r', .ok ((r.file.drop off).take n)) ∧
      r'.file = r.file ∧ (r'.prefetchBuf = [] ∨ r'.prefetchBuf = r'.file) ∧
      r'.crcBlockFormat = r.crcBlockFormat ∧ r'.formatDetected = r.formatDetected := by
  obtain ⟨r', hpre, hfile, hcache', hcrc, hdet⟩ := prefetch_spec fs hcache
  refine ⟨r', ?_, hfile, hcache', hcrc, hdet⟩
  rw [readRawBytes, hpre]
  rw [← hfile] at hsmall hle ⊢
  have hadd : wrapAdd 64 off n = off + n := wrapAdd_of_lt (by omega)
  rcases hcache' with hnone | hall
  · have hvec : ¬ maxVectorSize < n := by rw [maxVectorSize]; omega
    simp only [hnone, List.isEmpty_nil, Bool.not_true, Bool.false_and, Bool.false_eq_true,
      if_false, hvec, fs.read_inside _ _ _ hle]
  · by_cases hempty : r'.file = []
    · have hvec : ¬ maxVectorSize < n := by rw [maxVectorSize]; omega
      simp only [hall, hempty, List.isEmpty_nil, Bool.not_true, Bool.false_and,
        Bool.false_eq_true, if_false, hvec]
      rw [fs.read_inside _ _ _ (by simpa [hempty] using hle)]
    · have hne : r'.file.isEmpty = false := by simpa using hempty
      simp only [hall, hne, Bool.not_false, Bool.true_and, hadd, decide_eq_true_eq, hle,
        if_true, slice?_of_le hle]

-- ============================================================================
-- Format detection
-- ============================================================================

/-- The first content bytes sit at offset 0 of a raw file and right after the
    first checksum of a wrapped one. -/
theorem PhysicalFile.first_bytes {file : List Byte} (hf : PhysicalFile layout content file)
    (hlen : 12 ≤ content.length) :
    12 ≤ file.length ∧ (layout = .raw → file = content) ∧
      (layout = .crcWrapped → (file.drop 4).take 8 = content.take 8) := by
  cases layout with
  | raw =>
      have heq : file = content := hf
      exact ⟨heq ▸ hlen, fun _ => heq, fun h => absurd h (by decide)⟩
  | crcWrapped =>
      have hframed : Framed crcSize crcContentSize content file := hf
      have hne : content ≠ [] := by rintro rfl; simp at hlen
      have hfile := hframed.length_le hne
      exact ⟨by omega, fun h => absurd h (by decide),
        fun _ => hframed.take_drop (by decide)⟩

/-- A checksum before the magic cannot itself look like the magic: bytes 4 to 7
    of a wrapped file are the low half of the magic, never zero. -/
theorem magic_not_at_zero {probe : List Byte} (hlen : probe.length = 12)
    (h4 : leNat ((probe.drop 4).take 8) = objectMagic) :
    leNat (probe.take 8) ≠ objectMagic := by
  intro h0
  have htake8 : probe.take 8 = probe.take 4 ++ (probe.drop 4).take 4 := by
    rw [← List.take_add]
  have hdrop8 : probe.drop 8 = (probe.drop 4).drop 4 := by rw [List.drop_drop]
  have hdrop4 : (probe.drop 4).take 8
      = (probe.drop 4).take 4 ++ (probe.drop 8).take 4 := by
    rw [hdrop8, ← List.take_add]
  have hl1 : (probe.take 4).length = 4 := by rw [List.length_take]; omega
  have hl2 : ((probe.drop 4).take 4).length = 4 := by
    rw [List.length_take, List.length_drop]; omega
  have hb1 := leNat_lt (probe.take 4)
  have hb2 := leNat_lt ((probe.drop 4).take 4)
  rw [htake8, leNat_append, hl1] at h0
  rw [hdrop4, leNat_append, hl2] at h4
  rw [hl1] at hb1
  rw [hl2] at hb2
  simp only [objectMagic] at h0 h4
  omega

theorem detectCrcFormat_spec (hlen : 12 ≤ content.length)
    (hmagic : leNat (content.take 8) = objectMagic) (ht : Tracks layout content r) :
    ∃ r', detectCrcFormat fs r = (r', .ok ()) ∧ Tracks layout content r' ∧
      r'.file = r.file ∧ r'.formatDetected = true := by
  rw [detectCrcFormat]
  by_cases hdet : r.formatDetected = true
  · rw [if_pos hdet]
    exact ⟨r, rfl, ht, rfl, hdet⟩
  rw [if_neg hdet]
  obtain ⟨hfile12, hraw, hwrapped⟩ := ht.stores.first_bytes hlen
  let r₀ : TAEObjectReader := { r with formatDetected := true }
  obtain ⟨r', hread, hfile, hcache, -, hdet'⟩ :=
    readRawBytes_spec fs (show r₀.file.length < 2 ^ 63 from ht.small) ht.cache 0 12
      (by simpa using hfile12)
  have hsize : ¬ r.file.length < 12 := by omega
  have hprobed : readRawBytes fs { r with formatDetected := true } 0 12
      = (r', .ok (r.file.take 12)) := hread
  simp only [fileSize, hsize, if_false, hprobed]
  have hprobe : (r.file.take 12).length = 12 := by rw [List.length_take]; omega
  have hstores : PhysicalFile layout content r'.file := hfile ▸ ht.stores
  have hsmall : r'.file.length < 2 ^ 63 := hfile ▸ ht.small
  cases layout with
  | raw =>
      have h0 : leNat ((r.file.take 12).take 8) = objectMagic := by
        rw [List.take_take, Nat.min_eq_left (by decide), hraw rfl, hmagic]
      rw [if_pos h0]
      exact ⟨_, rfl, ⟨hstores, hsmall, hcache, fun _ => rfl⟩, hfile, hdet'⟩
  | crcWrapped =>
      have h4 : leNat (((r.file.take 12).drop 4).take 8) = objectMagic := by
        rw [List.drop_take, List.take_take, Nat.min_eq_left (by decide), hwrapped rfl, hmagic]
      rw [if_neg (magic_not_at_zero hprobe h4), if_pos h4]
      exact ⟨_, rfl, ⟨hstores, hsmall, hcache, fun _ => rfl⟩, hfile, hdet'⟩

-- ============================================================================
-- Logical reads
-- ============================================================================

/-- The stripping loop removes the headers of a framed buffer. -/
theorem stripCrc32Blocks_eq_unframe (raw : List Byte) :
    stripCrc32Blocks raw = unframe crcSize crcContentSize raw := by
  rw [stripCrc32Blocks, unframe]
  apply List.flatMap_congr
  intro b _
  simp only [stripBlock, frameContent]
  have hoff : b * crcBlockSize = b * (crcSize + crcContentSize) := rfl
  rw [hoff]
  split
  · rw [List.drop_of_length_le (by omega), List.take_nil]
  · rw [List.take_eq_take_iff, List.length_drop]
    omega

/-- The 64-bit arithmetic on the blocks of a range is exact. -/
theorem blocks_exact {off n : Nat} (hpos : 0 < off + n) (hsum : off + n < 2 ^ 63) :
    wrapSub 64 (wrapAdd 64 off n) 1 = off + n - 1 ∧
      wrapMul 64 (off / crcContentSize) crcBlockSize = off / crcContentSize * crcBlockSize ∧
      wrapMul 64 (wrapAdd 64 ((off + n - 1) / crcContentSize) 1) crcBlockSize
        = ((off + n - 1) / crcContentSize + 1) * crcBlockSize ∧
      wrapMul 64 (off / crcContentSize) crcContentSize = off / crcContentSize * crcContentSize := by
  have hlocal : off / crcContentSize * crcContentSize ≤ off := Nat.div_mul_le_self _ _
  have hblocks : off / crcContentSize * crcBlockSize < 2 ^ 64 ∧
      (off + n - 1) / crcContentSize + 1 < 2 ^ 64 ∧
      ((off + n - 1) / crcContentSize + 1) * crcBlockSize < 2 ^ 64 := by
    simp only [crcContentSize, crcBlockSize]
    omega
  refine ⟨?_, wrapMul_of_lt hblocks.1, ?_, wrapMul_of_lt (by omega)⟩
  · rw [wrapAdd_of_lt (by omega), wrapSub_of_le (by omega) (by omega)]
  · rw [wrapAdd_of_lt hblocks.2.1, wrapMul_of_lt hblocks.2.2]

/-- The blocks of a range do not end before they start. -/
theorem blocks_le {off n : Nat} (hpos : 0 < off + n) :
    off / crcContentSize * crcBlockSize ≤ ((off + n - 1) / crcContentSize + 1) * crcBlockSize := by
  apply Nat.mul_le_mul_right
  rw [← Nat.add_div_right _ (by decide)]
  exact Nat.div_le_div_right (by simp only [crcContentSize]; omega)

/-- The physical block range of a wrapped read lies in the file, and its exact
    bounds are the ones the 64-bit arithmetic computes. -/
theorem wrapped_range {file : List Byte} (hf : Framed crcSize crcContentSize content file)
    (hsmall : file.length < 2 ^ 63) {off n : Nat} (hn : 1 ≤ n)
    (hle : off + n ≤ content.length) :
    off / crcContentSize * crcBlockSize < file.length ∧ content.length < 2 ^ 63 := by
  have hne : content ≠ [] := by rintro rfl; rw [List.length_nil] at hle; omega
  have hlen := hf.length_le hne
  have hstart : off / crcContentSize * crcContentSize ≤ off := Nat.div_mul_le_self _ _
  have htail : content.drop (off / crcContentSize * crcContentSize) ≠ [] := by
    rw [ne_eq, List.drop_eq_nil_iff]
    omega
  have hdrop := (hf.drop (off / crcContentSize)).length_le htail
  have hsize : crcSize + crcContentSize = crcBlockSize := rfl
  have hpos := List.length_pos_of_ne_nil htail
  rw [hsize, List.length_drop (l := file)] at hdrop
  omega

/-- On a raw file a logical read is a raw read. -/
theorem readBytes_raw (ht : Tracks .raw content r) (hdet : r.formatDetected = true)
    {off n : Nat} (hle : off + n ≤ content.length) :
    ∃ r', readBytes fs r off n = (r', .ok ((content.drop off).take n)) ∧
      Tracks .raw content r' ∧ r'.formatDetected = true := by
  have hfile : r.file = content := ht.stores
  have hcrc : r.crcBlockFormat = false := by simpa using ht.format hdet
  obtain ⟨r', hread, hfile', hcache', hcrc', hdet'⟩ :=
    readRawBytes_spec fs ht.small ht.cache off n (by rw [hfile]; exact hle)
  refine ⟨r', ?_, ⟨?_, ?_, hcache', ?_⟩, by rw [hdet', hdet]⟩
  · simp only [readBytes, detectCrcFormat, hdet, hcrc, Bool.not_false, if_true, hread, hfile]
  · rw [hfile']; exact ht.stores
  · rw [hfile']; exact ht.small
  · intro _; rw [hcrc', hcrc]; rfl

/-- What stripping some blocks of a file yields. -/
theorem strip_blocks (file : List Byte) (first last : Nat) :
    stripCrc32Blocks ((file.drop (first * crcBlockSize)).take
        (min ((last + 1) * crcBlockSize) file.length - first * crcBlockSize))
      = ((stripCrc32Blocks file).drop (first * crcContentSize)).take
          ((last + 1 - first) * crcContentSize) := by
  have hraw : (file.drop (first * crcBlockSize)).take
        (min ((last + 1) * crcBlockSize) file.length - first * crcBlockSize)
      = (file.drop (first * crcBlockSize)).take ((last + 1 - first) * crcBlockSize) := by
    rw [List.take_eq_take_iff, List.length_drop, Nat.sub_mul]
    omega
  rw [hraw, stripCrc32Blocks_eq_unframe, stripCrc32Blocks_eq_unframe]
  exact unframe_frames (by decide) file first (last + 1 - first)

/-- What stripping the touched blocks of a wrapped file yields. -/
theorem strip_touched {file : List Byte} (hf : Framed crcSize crcContentSize content file)
    (first last : Nat) :
    stripCrc32Blocks ((file.drop (first * crcBlockSize)).take
        (min ((last + 1) * crcBlockSize) file.length - first * crcBlockSize))
      = (content.drop (first * crcContentSize)).take
          ((last + 1 - first) * crcContentSize) := by
  rw [strip_blocks, stripCrc32Blocks_eq_unframe, hf.unframe_eq (by decide)]

/-- On a wrapped file a logical read is the range of the stripped blocks. -/
theorem readBytes_wrapped (ht : Tracks .crcWrapped content r) (hdet : r.formatDetected = true)
    {off n : Nat} (hn : 1 ≤ n) (hle : off + n ≤ content.length) :
    ∃ r', readBytes fs r off n = (r', .ok ((content.drop off).take n)) ∧
      Tracks .crcWrapped content r' ∧ r'.formatDetected = true := by
  have hsmall := ht.small
  have hcrc : r.crcBlockFormat = true := by simpa using ht.format hdet
  obtain ⟨hstart, hcontent⟩ := wrapped_range ht.stores hsmall hn hle
  obtain ⟨hlastArg, hfirst, hlast, hlocalMul⟩ := blocks_exact (by omega : 0 < off + n) (by omega)
  have hlocal : off / crcContentSize * crcContentSize ≤ off := Nat.div_mul_le_self _ _
  have hspan := blocks_le (by omega : 0 < off + n)
  have hcount : wrapSub 64
        (min (((off + n - 1) / crcContentSize + 1) * crcBlockSize) r.file.length)
        (off / crcContentSize * crcBlockSize)
      = min (((off + n - 1) / crcContentSize + 1) * crcBlockSize) r.file.length
        - off / crcContentSize * crcBlockSize :=
    wrapSub_of_le (by omega) (by omega)
  have hlocalSub : wrapSub 64 off (off / crcContentSize * crcContentSize)
      = off - off / crcContentSize * crcContentSize := wrapSub_of_le (by omega) hlocal
  obtain ⟨r', hread, hfile', hcache', hcrc', hdet'⟩ :=
    readRawBytes_spec fs hsmall ht.cache (off / crcContentSize * crcBlockSize)
      (min (((off + n - 1) / crcContentSize + 1) * crcBlockSize) r.file.length
        - off / crcContentSize * crcBlockSize) (by omega)
  have hslice := window_slice (by decide : 0 < crcContentSize) content hn hle
  rw [slice?_of_le hle, ← strip_touched ht.stores] at hslice
  have hroom := (slice?_eq_some.mp hslice).1
  refine ⟨r', ?_, ⟨?_, ?_, hcache', ?_⟩, by rw [hdet', hdet]⟩
  · simp only [readBytes, detectCrcFormat, hdet, hcrc, Bool.not_true, Bool.false_eq_true,
      if_true, if_false, hlastArg, fileSize, hlast, hfirst, hcount, hread, hlocalMul, hlocalSub,
      wrapAdd_of_lt (by omega : off - off / crcContentSize * crcContentSize + n < 2 ^ 64),
      gt_iff_lt, not_lt.mpr hroom, hslice]
  · rw [hfile']; exact ht.stores
  · rw [hfile']; exact ht.small
  · intro _; rw [hcrc', hcrc]; rfl

/-- A read goes on with the reader that has found the format. -/
theorem readBytes_detected {fs : FileSystem} {r r₁ : TAEObjectReader} {off n : Nat}
    (hdetect : detectCrcFormat fs r = (r₁, .ok ())) (hdet : r₁.formatDetected = true) :
    readBytes fs r off n = readBytes fs r₁ off n := by
  have hagain : detectCrcFormat fs r₁ = (r₁, .ok ()) := if_pos hdet
  rw [readBytes, hdetect, readBytes, hagain]

/-- One logical read inside the content returns its range and keeps the reader
    in step with the file. -/
theorem readBytes_spec (hlen : 12 ≤ content.length)
    (hmagic : leNat (content.take 8) = objectMagic) (ht : Tracks layout content r)
    {off n : Nat} (hn : 1 ≤ n) (hle : off + n ≤ content.length) :
    ∃ r', readBytes fs r off n = (r', .ok ((content.drop off).take n)) ∧
      Tracks layout content r' ∧ r'.formatDetected = true := by
  obtain ⟨r₁, hdetect, ht₁, -, hdet₁⟩ := detectCrcFormat_spec fs hlen hmagic ht
  rw [readBytes_detected hdetect hdet₁]
  cases layout with
  | raw => exact readBytes_raw fs ht₁ hdet₁ hle
  | crcWrapped => exact readBytes_wrapped fs ht₁ hdet₁ hn hle

-- ============================================================================
-- Sequences of reads
-- ============================================================================

theorem Tracks.open {file : List Byte} (hf : PhysicalFile layout content file)
    (hsmall : file.length < 2 ^ 63) (threshold : Nat) :
    Tracks layout content (TAEObjectReader.open file threshold) :=
  ⟨hf, hsmall, Or.inl rfl, fun h => absurd h (by simp [TAEObjectReader.open])⟩

theorem readAll_spec (hlen : 12 ≤ content.length)
    (hmagic : leNat (content.take 8) = objectMagic) (ht : Tracks layout content r)
    (reqs : List (Nat × Nat))
    (hreqs : ∀ q ∈ reqs, 1 ≤ q.2 ∧ q.1 + q.2 ≤ content.length) :
    (readAll fs r reqs).2 = reqs.map (fun q => .ok ((content.drop q.1).take q.2)) ∧
      Tracks layout content (readAll fs r reqs).1 ∧
      (reqs ≠ [] → (readAll fs r reqs).1.formatDetected = true) := by
  induction reqs generalizing r with
  | nil => exact ⟨rfl, ht, fun h => absurd rfl h⟩
  | cons q reqs ih =>
      obtain ⟨off, n⟩ := q
      obtain ⟨hn, hle⟩ := hreqs (off, n) (List.mem_cons_self ..)
      obtain ⟨r₁, hread, ht₁, hdet₁⟩ := readBytes_spec fs hlen hmagic ht hn hle
      obtain ⟨hres, ht₂, hdet₂⟩ := ih ht₁ fun q hq => hreqs q (List.mem_cons_of_mem _ hq)
      simp only [readAll, hread, List.map_cons, hres]
      refine ⟨trivial, ht₂, fun _ => ?_⟩
      rcases reqs with _ | ⟨q, qs⟩
      · exact hdet₁
      · exact hdet₂ (List.cons_ne_nil _ _)

/-- **Logical reads are faithful.**  Over a raw or a CRC-wrapped file, for every
    prefetch threshold and every sequence of reads inside the content, the format
    is detected correctly and each read returns exactly its range of the content. -/
theorem readAll_faithful (fs : FileSystem) (layout : Layout) (content file : List Byte)
    (threshold : Nat) (reqs : List (Nat × Nat)) (hlen : 12 ≤ content.length)
    (hmagic : leNat (content.take 8) = objectMagic)
    (hfile : PhysicalFile layout content file) (hsmall : file.length < 2 ^ 63)
    (hreqs : ∀ q ∈ reqs, 1 ≤ q.2 ∧ q.1 + q.2 ≤ content.length) :
    (readAll fs (TAEObjectReader.open file threshold) reqs).2
        = reqs.map (fun q => .ok ((content.drop q.1).take q.2)) ∧
      (reqs ≠ [] →
        (readAll fs (TAEObjectReader.open file threshold) reqs).1.crcBlockFormat
          = decide (layout = .crcWrapped)) := by
  obtain ⟨hres, ht, hdet⟩ :=
    readAll_spec fs hlen hmagic (Tracks.open hfile hsmall threshold) reqs hreqs
  exact ⟨hres, fun hne => ht.format (hdet hne)⟩

/-- Twelve content bytes behind one checksum, read without a cache. -/
theorem readAll_faithful_wrapped12 :
    (readAll FileSystem.positional
        (TAEObjectReader.open [7, 7, 7, 7, 255, 255, 255, 255, 0, 0, 0, 0, 1, 2, 3, 4] 0)
        [(8, 4), (0, 12), (3, 2)]).2
      = [.ok [1, 2, 3, 4], .ok [255, 255, 255, 255, 0, 0, 0, 0, 1, 2, 3, 4], .ok [255, 0]] :=
  (readAll_faithful FileSystem.positional .crcWrapped
    [255, 255, 255, 255, 0, 0, 0, 0, 1, 2, 3, 4]
    [7, 7, 7, 7, 255, 255, 255, 255, 0, 0, 0, 0, 1, 2, 3, 4] 0 [(8, 4), (0, 12), (3, 2)]
    (by decide) (by decide)
    (Framed.short (rfl : [7#8, 7, 7, 7].length = crcSize) (by decide) (by decide)) (by decide)
    (by decide)).1

end TAEObjectReader

end TaeScanner
