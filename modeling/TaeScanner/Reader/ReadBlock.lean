/-
  TaeScanner.Reader.ReadBlock

  `ReadBlock`: read the requested columns of a block.  The column extents are
  sorted by file offset, nearby reads are merged, the merged ranges are read, and
  the columns are sliced out of them.

    * `std::sort` may leave requests of one offset in any order, so the sort is a
      parameter;
    * the length of a merged range is 32 bits wide.
-/

import TaeScanner.Reader.DecodeVector
import TaeScanner.Reader.Metadata

namespace TaeScanner

open Lib

-- ============================================================================
-- Read requests
-- ============================================================================

structure ReadReq where
  /-- The original seqnum. -/
  seq : Nat
  /-- Position in the output vector. -/
  resultIdx : Nat
  offset : Nat
  length : Nat
  deriving DecidableEq, Repr

/-- `std::sort` by file offset. -/
structure OffsetSort where
  sort : List ReadReq → List ReadReq
  perm : ∀ reqs, (sort reqs).Perm reqs
  sorted : ∀ reqs, (sort reqs).Pairwise fun a b => a.offset ≤ b.offset

/-- One request for each seqnum. -/
def readRequests (blk : BlockInfo) (seqnums : List Nat) : Except ReadError (List ReadReq) :=
  seqnums.zipIdx.mapM fun (seq, i) =>
    match blk.columns[seq]? with
    | some col => .ok ⟨seq, i, col.location.offset, col.location.length⟩
    | none => .error (.runtime ("column seqnum " ++ toString seq ++ " out of range (block has " ++
        toString blk.columns.length ++ " columns)"))

-- ============================================================================
-- Coalescing
-- ============================================================================

/-- A merged range. -/
structure CoalescedRead where
  offset : Nat
  length : Nat
  deriving DecidableEq, Repr

/-- The merged ranges, and for each request the range it belongs to. -/
structure Coalesced where
  reads : List CoalescedRead := []
  reqToCoalesced : List Nat := []
  deriving DecidableEq, Repr

/-- A range of its own for the request. -/
def Coalesced.push (c : Coalesced) (req : ReadReq) : Coalesced where
  reads := c.reads ++ [⟨req.offset, req.length⟩]
  reqToCoalesced := c.reqToCoalesced ++ [c.reads.length]

/-- The last range, extended to cover the request. -/
def CoalescedRead.cover (last : CoalescedRead) (req : ReadReq) : CoalescedRead :=
  if last.offset + last.length < req.offset + req.length then
    { last with length := (req.offset + req.length - last.offset) % 2 ^ 32 }
  else last

/-- One iteration of the loop. -/
def Coalesced.add (gapMax : Nat) (c : Coalesced) (req : ReadReq) : Coalesced :=
  match c.reads.getLast? with
  | none => c.push req
  | some last =>
      -- the gap is 0 when the request starts inside the range
      if req.offset - (last.offset + last.length) ≤ gapMax then
        { reads := c.reads.dropLast ++ [last.cover req]
          reqToCoalesced := c.reqToCoalesced ++ [c.reads.length - 1] }
      else c.push req

/-- The loop over the sorted requests. -/
def coalesce (gapMax : Nat) (reqs : List ReadReq) : Coalesced := reqs.foldl (Coalesced.add gapMax) {}

-- ============================================================================
-- Reading and decoding
-- ============================================================================

/-- Issue the merged reads. -/
def TAEObjectReader.readRanges (fs : FileSystem) (r : TAEObjectReader) :
    List CoalescedRead → TAEObjectReader × Except ReadError (List (List Byte))
  | [] => (r, .ok [])
  | cr :: reads =>
    match r.readBytes fs cr.offset cr.length with
    | (r, .error e) => (r, .error e)
    | (r, .ok data) =>
      match readRanges fs r reads with
      | (r, .error e) => (r, .error e)
      | (r, .ok datas) => (r, .ok (data :: datas))

/-- A column from its stored bytes: decompress if needed, strip the
    IOEntryHeader, decode. -/
def decodeColumn (lz4 : LZ4) (ext : Extent) (raw : List Byte) : Except ReadError DecodedColumn := do
  let colData ← if ext.isCompressed then lz4.decompress raw ext.originSize else pure raw
  refuseIf (colData.length < ioEntryHeaderLen) "column data too small for IOEntryHeader"
  let type := leNat (colData.take 2)
  refuseIf (type ≠ ioetColData) ("expected IOET_ColData, got " ++ toString type)
  decodeVector (colData.drop ioEntryHeaderLen)

/-- Slice a column out of its merged range and decode it. -/
def sliceColumn (lz4 : LZ4) (ext : Extent) (cr : CoalescedRead) (data : List Byte) (req : ReadReq) :
    Except ReadError DecodedColumn := do
  let localOff := wrapSub 64 req.offset cr.offset
  refuseIf (data.length < wrapAdd 64 localOff ext.length) "column read overflow"
  decodeColumn lz4 ext (← readAt data localOff ext.length)

/-- One iteration of the decoding loop: the output position and the column.  A
    request always has its extent, its range and the bytes of the range. -/
def decodeRequest (lz4 : LZ4) (blk : BlockInfo) (reads : List CoalescedRead) (datas : List (List Byte))
    (req : ReadReq) (k : Nat) : Except ReadError (Nat × DecodedColumn) :=
  match blk.columns[req.seq]?, reads[k]?, datas[k]? with
  | some col, some cr, some data =>
      (sliceColumn lz4 col.location cr data req).map fun decoded => (req.resultIdx, decoded)
  | _, _, _ => .error .badRange

/-- A default-constructed column. -/
def DecodedColumn.empty : DecodedColumn := { type := { oid := 0 }, rowCount := 0, data := [] }

/-- The output vector, filled position by position. -/
def placeResults (n : Nat) (results : List (Nat × DecodedColumn)) : List DecodedColumn :=
  results.foldl (fun acc p => acc.set p.1 p.2) (List.replicate n .empty)

/-- The reads and the decoding of the sorted requests. -/
def TAEObjectReader.readSorted (fs : FileSystem) (lz4 : LZ4) (gapMax : Nat) (r : TAEObjectReader)
    (blk : BlockInfo) (n : Nat) (reqs : List ReadReq) :
    TAEObjectReader × Except ReadError (List DecodedColumn) :=
  let c := coalesce gapMax reqs
  match r.readRanges fs c.reads with
  | (r, .error e) => (r, .error e)
  | (r, .ok datas) =>
    (r, ((reqs.zip c.reqToCoalesced).mapM fun (req, k) => decodeRequest lz4 blk c.reads datas req k).map
      (placeResults n))

/-- `ReadBlock`. -/
def TAEObjectReader.readBlock (fs : FileSystem) (lz4 : LZ4) (sort : OffsetSort) (gapMax : Nat)
    (r : TAEObjectReader) (md : ObjectMeta) (blockIdx : Nat) (seqnums : List Nat) :
    TAEObjectReader × Except ReadError (List DecodedColumn) :=
  match md.blocks[blockIdx]? with
  | none => (r, .error (.runtime "block index out of range"))
  | some blk =>
    match readRequests blk seqnums with
    | .error e => (r, .error e)
    | .ok reqs => r.readSorted fs lz4 gapMax blk seqnums.length (sort.sort reqs)

end TaeScanner
