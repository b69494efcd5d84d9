/-
  TaeScanner.Reader.ReadRange

  What one logical read returns, inside the content and outside of it.  Over any
  file, whatever is cached, a read of a 32-bit range succeeds exactly when the
  range lies in the content, and then returns it.  Here the content of a wrapped
  file is what the stripping loop leaves of it.
-/

import TaeScanner.Reader.ReadBytesSpec

namespace TaeScanner

open Lib

/-- A positional read that reaches past the end throws. -/
def FileSystem.ThrowsPastEnd (fs : FileSystem) : Prop :=
  ∀ file n loc, file.length < loc + n → ∃ what, fs.read file n loc = .error (.runtime what)

theorem FileSystem.positional_throwsPastEnd : FileSystem.positional.ThrowsPastEnd := by
  intro file n loc h
  refine ⟨"Could not read all bytes from file", ?_⟩
  simp only [FileSystem.positional, slice?, if_neg (Nat.not_le.mpr h)]

namespace TAEObjectReader

/-- A reader that has found the format of its file: the cache is empty or the
    whole file, which fits the `int64` sizes of the file system. -/
structure Ready (r : TAEObjectReader) : Prop where
  detected : r.formatDetected = true
  small : r.file.length < 2 ^ 63
  cache : r.prefetchBuf = [] ∨ r.prefetchBuf = r.file

/-- The content bytes behind a reader. -/
def content (r : TAEObjectReader) : List Byte :=
  if r.crcBlockFormat then stripCrc32Blocks r.file else r.file

/-- A later state of the reader over the same content. -/
structure Continues (r r' : TAEObjectReader) : Prop where
  ready : r'.Ready
  content_eq : r'.content = r.content

variable {fs : FileSystem} {r : TAEObjectReader}

-- ============================================================================
-- Raw reads
-- ============================================================================

/-- A raw read of any range: the bytes, or an error if the file does not have them. -/
theorem readRawBytes_ready (hfs : fs.ThrowsPastEnd) (hr : r.Ready) (off n : Nat) :
    ∃ r' res, readRawBytes fs r off n = (r', res) ∧ r.Continues r' ∧
      r'.crcBlockFormat = r.crcBlockFormat ∧
      ∀ bs, res = .ok bs ↔ slice? r.file off n = some bs := by
  by_cases hin : off + n ≤ r.file.length
  · obtain ⟨r', hread, hfile, hcache, hcrc, hdet⟩ := readRawBytes_spec fs hr.small hr.cache off n hin
    refine ⟨r', _, hread, ⟨⟨hdet.trans hr.detected, hfile ▸ hr.small, hcache⟩, ?_⟩, hcrc, fun bs => ?_⟩
    · rw [content, content, hcrc, hfile]
    · rw [slice?_of_le hin]
      exact ⟨fun h => congrArg some (Except.ok.inj h), fun h => congrArg Except.ok (Option.some.inj h)⟩
  · obtain ⟨r', hpre, hfile, hcache, hcrc, hdet⟩ := prefetch_spec fs hr.cache
    have hnone : slice? r.file off n = none := if_neg hin
    have herr : ∃ e, readRawBytes fs r off n = (r', .error e) := by
      rw [readRawBytes, hpre]
      simp only
      split
      · next hcached =>
          -- the wrapped end is in the cache, the range itself is not
          rw [Bool.and_eq_true] at hcached
          have hne : r'.prefetchBuf ≠ [] := by
            intro hnil
            rw [hnil] at hcached
            exact absurd hcached.1 (by decide)
          rw [hcache.resolve_left hne, hfile, hnone]
          exact ⟨_, rfl⟩
      · split
        · exact ⟨_, rfl⟩
        · obtain ⟨what, hread⟩ := hfs r.file n off (Nat.not_le.mp hin)
          rw [hfile, hread]
          exact ⟨_, rfl⟩
    obtain ⟨e, herr⟩ := herr
    refine ⟨r', .error e, herr, ⟨⟨hdet.trans hr.detected, hfile ▸ hr.small, hcache⟩, ?_⟩, hcrc,
      fun bs => ?_⟩
    · rw [content, content, hcrc, hfile]
    · rw [hnone]
      simp only [reduceCtorEq]

-- ============================================================================
-- Logical reads
-- ============================================================================

/-- The end of a logical read: a range of the stripped bytes. -/
def stripped? (offset length : Nat) (stripped : List Byte) (localOffset : Nat) :
    Except ReadError (List Byte) :=
  if wrapAdd 64 localOffset length > stripped.length then
    .error (.runtime ("CRC read: offset " ++ toString offset ++ " + length " ++
      toString length ++ " exceeds stripped range (" ++ toString stripped.length ++ " bytes)"))
  else
    match slice? stripped localOffset length with
    | some bytes => .ok bytes
    | none => .error .badRange

theorem stripped?_ok {offset length localOffset : Nat} {stripped bs : List Byte}
    (h : localOffset + length < 2 ^ 64) :
    stripped? offset length stripped localOffset = .ok bs ↔
      slice? stripped localOffset length = some bs := by
  rw [stripped?]
  rw [wrapAdd_of_lt h]
  by_cases hle : localOffset + length ≤ stripped.length
  · rw [if_neg (by omega), slice?_of_le hle]
    exact ⟨fun h => congrArg some (Except.ok.inj h), fun h => congrArg Except.ok (Option.some.inj h)⟩
  · rw [if_pos (by omega), slice?, if_neg hle]
    simp only [reduceCtorEq]

/-- The stripped blocks that a range touches hold the range iff the content does. -/
theorem slice?_strip_blocks {file : List Byte} {off n : Nat} (hpos : 0 < off + n)
    (hstart : off / crcContentSize * crcBlockSize ≤ file.length) :
    slice? (stripCrc32Blocks ((file.drop (off / crcContentSize * crcBlockSize)).take
        (min (((off + n - 1) / crcContentSize + 1) * crcBlockSize) file.length
          - off / crcContentSize * crcBlockSize)))
        (off - off / crcContentSize * crcContentSize) n
      = slice? (stripCrc32Blocks file) off n := by
  have hfirst : off / crcContentSize * crcContentSize ≤ off := Nat.div_mul_le_self _ _
  have hcontent : off / crcContentSize * crcContentSize ≤ (stripCrc32Blocks file).length := by
    rw [stripCrc32Blocks_eq_unframe]
    exact (mul_le_unframe_length (by decide) file _).mpr hstart
  have hlast : off + n - 1 < ((off + n - 1) / crcContentSize + 1) * crcContentSize := by
    rw [Nat.mul_comm]
    exact Nat.lt_mul_div_succ _ (by decide)
  rw [strip_blocks]
  by_cases hle : off + n ≤ (stripCrc32Blocks file).length
  · apply slice?_window _ hfirst _ hle
    rw [Nat.sub_mul]
    omega
  · rw [slice?, slice?, if_neg hle, if_neg]
    rw [List.length_take, List.length_drop]
    omega

/-- On a wrapped file a logical read strips what a raw read returned. -/
theorem readBytes_crc (hr : r.Ready) (hcrc : r.crcBlockFormat = true) (off n : Nat) :
    readBytes fs r off n =
      (let physStart := wrapMul 64 (off / crcContentSize) crcBlockSize
       let lastBlock := wrapSub 64 (wrapAdd 64 off n) 1 / crcContentSize
       let physEnd := min (wrapMul 64 (wrapAdd 64 lastBlock 1) crcBlockSize) r.file.length
       match readRawBytes fs r physStart (wrapSub 64 physEnd physStart) with
       | (r, .error e) => (r, .error e)
       | (r, .ok raw) => (r, stripped? off n (stripCrc32Blocks raw)
           (wrapSub 64 off (wrapMul 64 (off / crcContentSize) crcContentSize)))) := by
  simp only [readBytes, detectCrcFormat, hr.detected, hcrc, if_true, Bool.not_true,
    Bool.false_eq_true, if_false, fileSize]
  obtain ⟨r', res, hread⟩ : ∃ r' res, readRawBytes fs r (wrapMul 64 (off / crcContentSize) crcBlockSize)
      (wrapSub 64 (min (wrapMul 64 (wrapAdd 64 (wrapSub 64 (wrapAdd 64 off n) 1 / crcContentSize) 1)
        crcBlockSize) r.file.length) (wrapMul 64 (off / crcContentSize) crcBlockSize)) = (r', res) :=
    ⟨_, _, rfl⟩
  simp only [hread]
  cases res with
  | error e => rfl
  | ok raw =>
      simp only [stripped?]
      split
      · rfl
      · cases slice? (stripCrc32Blocks raw)
            (wrapSub 64 off (wrapMul 64 (off / crcContentSize) crcContentSize)) n with
        | none => rfl
        | some bytes => rfl

/-- What it returns when the raw read returned. -/
theorem readBytes_crc_snd (hr : r.Ready) (hcrc : r.crcBlockFormat = true) {off n : Nat} {raw : List Byte}
    (hread : (readRawBytes fs r (wrapMul 64 (off / crcContentSize) crcBlockSize)
      (wrapSub 64 (min (wrapMul 64 (wrapAdd 64 (wrapSub 64 (wrapAdd 64 off n) 1 / crcContentSize) 1)
        crcBlockSize) r.file.length) (wrapMul 64 (off / crcContentSize) crcBlockSize))).2 = .ok raw) :
    (readBytes fs r off n).2 = stripped? off n (stripCrc32Blocks raw)
      (wrapSub 64 off (wrapMul 64 (off / crcContentSize) crcContentSize)) := by
  rw [readBytes_crc hr hcrc]
  simp only
  generalize readRawBytes fs r _ _ = p at hread ⊢
  rcases p with ⟨r', e | raw'⟩
  · cases hread
  · obtain rfl := Except.ok.inj hread
    rfl

/-- The physical range of an empty read at the start is inside the file. -/
theorem readBytes_zero (hfs : fs.ThrowsPastEnd) (hr : r.Ready) (hcrc : r.crcBlockFormat = true) :
    ∃ r' res, readBytes fs r 0 0 = (r', res) ∧ r.Continues r' ∧
      ∀ bs, res = .ok bs ↔ slice? r.content 0 0 = some bs := by
  have hsmall := hr.small
  have hempty : ∀ xs : List Byte, slice? xs 0 0 = some [] := fun xs => slice?_of_le (Nat.zero_le _)
  rw [readBytes_crc hr hcrc]
  simp only [Nat.zero_div, wrapMul, Nat.zero_mul, Nat.zero_mod,
    wrapSub_of_le (by decide : 0 < 2 ^ 64) (Nat.le_refl 0), Nat.sub_self]
  generalize hend : min ((wrapAdd 64 (wrapSub 64 (wrapAdd 64 0 0) 1 / crcContentSize) 1 * crcBlockSize)
    % 2 ^ 64) r.file.length = physEnd
  have hle : physEnd ≤ r.file.length := hend ▸ Nat.min_le_right ..
  rw [wrapSub_of_le (by omega) (Nat.zero_le _), Nat.sub_zero]
  obtain ⟨r', res, hread, hcont, -, hres⟩ := readRawBytes_ready hfs hr 0 physEnd
  obtain rfl := (hres _).mpr (slice?_of_le (by omega))
  rw [hread]
  refine ⟨r', _, rfl, hcont, fun bs => ?_⟩
  rw [stripped?_ok (by decide), hempty, hempty]

/-- A read of a wrapped file whose first block starts inside the file. -/
theorem readBytes_touched (hfs : fs.ThrowsPastEnd) (hr : r.Ready) (hcrc : r.crcBlockFormat = true)
    {off n : Nat} (hoff : off < 2 ^ 32) (hn : n < 2 ^ 32) (hpos : 0 < off + n)
    (hstart : off / crcContentSize * crcBlockSize ≤ r.file.length) :
    ∃ r' res, readBytes fs r off n = (r', res) ∧ r.Continues r' ∧
      ∀ bs, res = .ok bs ↔ slice? r.content off n = some bs := by
  have hsmall := hr.small
  have hlocal : off / crcContentSize * crcContentSize ≤ off := Nat.div_mul_le_self _ _
  have hspan := blocks_le hpos
  obtain ⟨hlastArg, hfirst, hlast, hlocalMul⟩ := blocks_exact hpos (by omega)
  rw [readBytes_crc hr hcrc, hlastArg]
  simp only [hfirst, hlast, hlocalMul, wrapSub_of_le (by omega : off < 2 ^ 64) hlocal]
  rw [wrapSub_of_le (by omega) (by omega)]
  obtain ⟨r', res, hread, hcont, -, hres⟩ := readRawBytes_ready hfs hr
    (off / crcContentSize * crcBlockSize)
    (min (((off + n - 1) / crcContentSize + 1) * crcBlockSize) r.file.length
      - off / crcContentSize * crcBlockSize)
  obtain rfl := (hres _).mpr (slice?_of_le (by omega))
  rw [hread]
  refine ⟨r', _, rfl, hcont, fun bs => ?_⟩
  rw [stripped?_ok (by omega), slice?_strip_blocks hpos hstart, content, hcrc, if_pos rfl]

/-- A read of a wrapped file whose first block is past the end.  The length of the
    physical range wraps, but no range from that start is in the file. -/
theorem readBytes_beyond (hfs : fs.ThrowsPastEnd) (hr : r.Ready) (hcrc : r.crcBlockFormat = true)
    {off n : Nat} (hoff : off < 2 ^ 32) (hn : n < 2 ^ 32) (hpos : 0 < off + n)
    (hstart : ¬off / crcContentSize * crcBlockSize ≤ r.file.length) :
    ∃ r' res, readBytes fs r off n = (r', res) ∧ r.Continues r' ∧
      ∀ bs, res = .ok bs ↔ slice? r.content off n = some bs := by
  have hlocal : off / crcContentSize * crcContentSize ≤ off := Nat.div_mul_le_self _ _
  obtain ⟨hlastArg, hfirst, hlast, -⟩ := blocks_exact hpos (by omega)
  rw [readBytes_crc hr hcrc, hlastArg]
  simp only [hfirst, hlast]
  have hoff' : (stripCrc32Blocks r.file).length < off := by
    have hlt : ¬off / crcContentSize * crcContentSize ≤ (stripCrc32Blocks r.file).length := by
      rw [stripCrc32Blocks_eq_unframe]
      exact mt (mul_le_unframe_length (by decide) r.file _).mp hstart
    omega
  obtain ⟨r', res, hread, hcont, -, hres⟩ := readRawBytes_ready hfs hr
    (off / crcContentSize * crcBlockSize)
    (wrapSub 64 (min (((off + n - 1) / crcContentSize + 1) * crcBlockSize) r.file.length)
      (off / crcContentSize * crcBlockSize))
  rw [hread]
  cases res with
  | ok raw =>
      have hsome := (hres raw).mp rfl
      rw [slice?, if_neg (by omega)] at hsome
      cases hsome
  | error e =>
      refine ⟨r', _, rfl, hcont, fun bs => iff_of_false (by simp only [reduceCtorEq, not_false_eq_true])
        fun h => ?_⟩
      rw [content, hcrc, if_pos rfl, slice?, if_neg (by omega)] at h
      cases h

/-- A logical read of a 32-bit range: the bytes, or an error if the content does
    not have them. -/
theorem readBytes_ready (hfs : fs.ThrowsPastEnd) (hr : r.Ready) {off n : Nat} (hoff : off < 2 ^ 32)
    (hn : n < 2 ^ 32) :
    ∃ r' res, readBytes fs r off n = (r', res) ∧ r.Continues r' ∧
      ∀ bs, res = .ok bs ↔ slice? r.content off n = some bs := by
  cases hcrc : r.crcBlockFormat with
  | false =>
      obtain ⟨r', res, hread, hcont, -, hres⟩ := readRawBytes_ready hfs hr off n
      refine ⟨r', res, ?_, hcont, fun bs => ?_⟩
      · simp only [readBytes, detectCrcFormat, hr.detected, hcrc, if_true, Bool.not_false, hread]
      · rw [hres, content, hcrc, if_neg Bool.false_ne_true]
  | true =>
      by_cases hzero : off + n = 0
      · obtain ⟨rfl, rfl⟩ : off = 0 ∧ n = 0 := by omega
        exact readBytes_zero hfs hr hcrc
      have hpos : 0 < off + n := Nat.pos_of_ne_zero hzero
      by_cases hstart : off / crcContentSize * crcBlockSize ≤ r.file.length
      · exact readBytes_touched hfs hr hcrc hoff hn hpos hstart
      · exact readBytes_beyond hfs hr hcrc hoff hn hpos hstart

/-- A reader that is in step with its file and has found the format is ready. -/
theorem Tracks.ready {layout : Layout} {content : List Byte} (ht : Tracks layout content r)
    (hdet : r.formatDetected = true) : r.Ready ∧ r.content = content := by
  have hformat := ht.format hdet
  have hstores := ht.stores
  refine ⟨⟨hdet, ht.small, ht.cache⟩, ?_⟩
  cases layout with
  | raw =>
      rw [TAEObjectReader.content, hformat]
      exact hstores
  | crcWrapped =>
      rw [TAEObjectReader.content, hformat, stripCrc32Blocks_eq_unframe]
      exact hstores.unframe_eq (by decide)

-- ============================================================================
-- The first read of an opened reader
-- ============================================================================

/-- A reader that was just opened. -/
structure Opened (r : TAEObjectReader) : Prop where
  undetected : r.formatDetected = false
  small : r.file.length < 2 ^ 63
  cache : r.prefetchBuf = []

theorem opened_open {file : List Byte} (hsmall : file.length < 2 ^ 63) (threshold : Nat) :
    Opened (TAEObjectReader.open file threshold) := ⟨rfl, hsmall, rfl⟩

/-- Looking for the format leaves a ready reader behind, and fails with an exception. -/
theorem detectCrcFormat_opened (fs : FileSystem) (h : r.Opened) :
    ∃ r' res, detectCrcFormat fs r = (r', res) ∧ r'.Ready ∧ r'.file = r.file ∧
      ∀ e, res = .error e → ∃ what, e = .runtime what := by
  simp only [detectCrcFormat, h.undetected, Bool.false_eq_true, if_false, fileSize]
  by_cases hsize : r.file.length < 12
  · simp only [hsize, if_true]
    exact ⟨_, _, rfl, ⟨rfl, h.small, Or.inl h.cache⟩, rfl, fun e he => ⟨_, (Except.error.inj he).symm⟩⟩
  · let r₀ : TAEObjectReader := { r with formatDetected := true }
    obtain ⟨r₁, hread, hfile, hcache, -, hdet⟩ := readRawBytes_spec (r := r₀) fs h.small
      (Or.inl h.cache) 0 12 (show 0 + 12 ≤ r.file.length by omega)
    have hprobed : readRawBytes fs { r with formatDetected := true } 0 12 = (r₁, _) := hread
    have hready : r₁.Ready := ⟨hdet, hfile ▸ h.small, hcache⟩
    have hok : ∀ e : ReadError, (.ok () : Except ReadError Unit) = .error e → ∃ what, e = .runtime what := by
      intro e he
      cases he
    simp only [hsize, if_false, hprobed]
    split
    · exact ⟨_, _, rfl, ⟨hready.detected, hready.small, hready.cache⟩, hfile, hok⟩
    · split
      · exact ⟨_, _, rfl, ⟨hready.detected, hready.small, hready.cache⟩, hfile, hok⟩
      · exact ⟨_, _, rfl, hready, hfile, fun e he => ⟨_, (Except.error.inj he).symm⟩⟩

/-- Once the format is found, the reader is ready. -/
theorem detectCrcFormat_ready (h : r.Opened) {r' : TAEObjectReader}
    (hok : detectCrcFormat fs r = (r', .ok ())) : r'.Ready := by
  obtain ⟨r₁, res, hdetect, hready, -⟩ := detectCrcFormat_opened fs h
  rw [hok] at hdetect
  exact (Prod.mk.inj hdetect).1 ▸ hready

/-- The first read of an opened reader finds the format. -/
theorem readBytes_opened (hfs : fs.ThrowsPastEnd) (h : r.Opened) {off n : Nat} (hoff : off < 2 ^ 32)
    (hn : n < 2 ^ 32) {r' : TAEObjectReader} {bs : List Byte}
    (hok : readBytes fs r off n = (r', .ok bs)) : r'.Ready := by
  cases hdetect : detectCrcFormat fs r with
  | mk r₁ res =>
      cases res with
      | error e =>
          rw [readBytes, hdetect] at hok
          cases hok
      | ok u =>
          have hready := detectCrcFormat_ready h hdetect
          obtain ⟨r₂, res, hread, hcont, -⟩ := readBytes_ready hfs hready hoff hn
          rw [readBytes_detected hdetect hready.detected, hread] at hok
          obtain ⟨rfl, -⟩ := Prod.mk.inj hok
          exact hcont.ready

end TAEObjectReader

end TaeScanner
