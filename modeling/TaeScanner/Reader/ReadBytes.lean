/-
  TaeScanner.Reader.ReadBytes

  The byte layer of the object reader: raw reads with the whole-file prefetch
  cache, detection of the CRC block format, and logical reads that strip the
  block headers of a wrapped file.

  The reader is threaded explicitly: every call returns the reader it leaves
  behind beside its result, also when it throws, because the cache and the
  detected format persist across calls.  64-bit offsets are natural numbers
  with the wrap-around of the source written out.
-/

import TaeScanner.Lib.Framing
import TaeScanner.Lib.Wrap

namespace TaeScanner

open Lib

-- ============================================================================
-- The file behind the reader
-- ============================================================================

/-- How a read can fail. -/
inductive ReadError
  /-- A C++ exception with its `what()` text. -/
  | runtime (what : String)
  /-- An iterator range that leaves the cache: undefined behaviour. -/
  | badRange
  deriving DecidableEq, Repr

/-- The positional read of DuckDB's file system: `read file nrBytes location`. -/
structure FileSystem where
  read : List Byte → Nat → Nat → Except ReadError (List Byte)
  /-- A positional read inside the file returns those bytes. -/
  read_inside : ∀ file n loc, loc + n ≤ file.length →
    read file n loc = .ok ((file.drop loc).take n)

/-- The file system that reads what is there and throws past the end. -/
def FileSystem.positional : FileSystem where
  read file n loc :=
    match slice? file loc n with
    | some bytes => .ok bytes
    | none => .error (.runtime "Could not read all bytes from file")
  read_inside file n loc h := by rw [slice?_of_le h]

/-- The state of a `TAEObjectReader` that reads depend on. -/
structure TAEObjectReader where
  /-- The bytes behind `file_handle_`; `file_size_` is their number. -/
  file : List Byte
  prefetchThreshold : Nat
  prefetchAttempted : Bool := false
  prefetchBuf : List Byte := []
  crcBlockFormat : Bool := false
  formatDetected : Bool := false
  deriving DecidableEq, Repr

/-- CRC32 block format: every 2048 bytes are `[4B CRC32][2044B content]`. -/
def crcBlockSize : Nat := 2048
def crcSize : Nat := 4
def crcContentSize : Nat := 2044

/-- The 8-byte magic at the start of an object. -/
def objectMagic : Nat := 0xFFFFFFFF

/-- The largest vector the allocator accepts. -/
def maxVectorSize : Nat := 2 ^ 63 - 1

namespace TAEObjectReader

/-- A freshly constructed reader over a file. -/
def «open» (file : List Byte) (threshold : Nat) : TAEObjectReader :=
  { file, prefetchThreshold := threshold }

def fileSize (r : TAEObjectReader) : Nat := r.file.length

-- ============================================================================
-- Raw reads
-- ============================================================================

/-- The prefetch of the first raw read: a file up to the threshold is read whole.
    The buffer is resized before the read, so a read that throws leaves zeros. -/
def prefetch (fs : FileSystem) (r : TAEObjectReader) :
    TAEObjectReader × Except ReadError Unit :=
  if r.prefetchAttempted then (r, .ok ())
  else if r.fileSize ≤ r.prefetchThreshold then
    match fs.read r.file r.fileSize 0 with
    | .ok bytes => ({ r with prefetchAttempted := true, prefetchBuf := bytes }, .ok ())
    | .error e =>
      ({ r with prefetchAttempted := true, prefetchBuf := List.replicate r.fileSize 0 }, .error e)
  else ({ r with prefetchAttempted := true }, .ok ())

/-- Raw physical bytes, from the cache when it covers the range. -/
def readRawBytes (fs : FileSystem) (r : TAEObjectReader) (offset length : Nat) :
    TAEObjectReader × Except ReadError (List Byte) :=
  match prefetch fs r with
  | (r, .error e) => (r, .error e)
  | (r, .ok _) =>
    if !r.prefetchBuf.isEmpty && wrapAdd 64 offset length ≤ r.prefetchBuf.length then
      match slice? r.prefetchBuf offset length with
      | some bytes => (r, .ok bytes)
      | none => (r, .error .badRange)
    else if maxVectorSize < length then
      (r, .error (.runtime "cannot create std::vector larger than max_size()"))
    else (r, fs.read r.file length offset)

/-- Decide between the raw and the CRC block format by the position of the magic. -/
def detectCrcFormat (fs : FileSystem) (r : TAEObjectReader) :
    TAEObjectReader × Except ReadError Unit :=
  if r.formatDetected then (r, .ok ())
  else
    let r := { r with formatDetected := true }
    if r.fileSize < 12 then
      (r, .error (.runtime ("file too small: " ++ toString r.fileSize)))
    else
      match readRawBytes fs r 0 12 with
      | (r, .error e) => (r, .error e)
      | (r, .ok probe) =>
        let magicAt0 := leNat (probe.take 8)
        let magicAt4 := leNat ((probe.drop 4).take 8)
        if magicAt0 = objectMagic then ({ r with crcBlockFormat := false }, .ok ())
        else if magicAt4 = objectMagic then ({ r with crcBlockFormat := true }, .ok ())
        else
          (r, .error (.runtime ("invalid TAE magic: neither raw (" ++ toString magicAt0 ++
            ") nor CRC-wrapped (" ++ toString magicAt4 ++ ")")))

-- ============================================================================
-- Logical reads
-- ============================================================================

/-- One iteration of the stripping loop, at physical offset `b * 2048`.  The loop
    of the source breaks when only (part of) a header remains; as that can only
    be in the last block, such an iteration contributes nothing. -/
def stripBlock (raw : List Byte) (b : Nat) : List Byte :=
  let off := b * crcBlockSize
  let remaining := raw.length - off
  if remaining ≤ crcSize then []
  else (raw.drop (off + crcSize)).take (min crcContentSize (remaining - crcSize))

/-- Contiguous content bytes of a raw buffer in `[4B CRC][2044B content]` format. -/
def stripCrc32Blocks (raw : List Byte) : List Byte :=
  (List.range ((raw.length + crcBlockSize - 1) / crcBlockSize)).flatMap (stripBlock raw)

/-- Logical content bytes.  For a wrapped file only the blocks that the range
    touches are read and stripped. -/
def readBytes (fs : FileSystem) (r : TAEObjectReader) (offset length : Nat) :
    TAEObjectReader × Except ReadError (List Byte) :=
  match detectCrcFormat fs r with
  | (r, .error e) => (r, .error e)
  | (r, .ok _) =>
    if !r.crcBlockFormat then readRawBytes fs r offset length
    else
      let firstBlock := offset / crcContentSize
      let lastBlock := wrapSub 64 (wrapAdd 64 offset length) 1 / crcContentSize
      let physStart := wrapMul 64 firstBlock crcBlockSize
      let physEnd := min (wrapMul 64 (wrapAdd 64 lastBlock 1) crcBlockSize) r.fileSize
      match readRawBytes fs r physStart (wrapSub 64 physEnd physStart) with
      | (r, .error e) => (r, .error e)
      | (r, .ok raw) =>
        let stripped := stripCrc32Blocks raw
        let contentStart := wrapMul 64 firstBlock crcContentSize
        let localOffset := wrapSub 64 offset contentStart
        if wrapAdd 64 localOffset length > stripped.length then
          (r, .error (.runtime ("CRC read: offset " ++ toString offset ++ " + length " ++
            toString length ++ " exceeds stripped range (" ++ toString stripped.length ++
            " bytes)")))
        else
          match slice? stripped localOffset length with
          | some bytes => (r, .ok bytes)
          | none => (r, .error .badRange)

/-- A sequence of logical reads on one reader, each with its own result. -/
def readAll (fs : FileSystem) (r : TAEObjectReader) :
    List (Nat × Nat) → TAEObjectReader × List (Except ReadError (List Byte))
  | [] => (r, [])
  | (offset, length) :: reqs =>
    let (r, result) := readBytes fs r offset length
    let (r, results) := readAll fs r reqs
    (r, result :: results)

end TAEObjectReader

end TaeScanner
