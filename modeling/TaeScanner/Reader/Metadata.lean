/-
  TaeScanner.Reader.Metadata

  `ParseMetadata` and `ReadMeta`.

  After the stripping of the IOEntryHeader the buffer is an objectMetaV3:
    [v3 header 32B], which points to DataMeta
    DataMeta:
      [BlockHeader 179B] [ColumnMeta 124B each] for the object
      [BlockIndex: blockCount 4B, then offset 4B and length 4B a block]
      [BlockHeader 179B] [ColumnMeta 124B each] for each block

    * a copy whose range leaves the buffer is `badRange`;
    * sums and products of 32-bit values wrap; a product with a 16-bit column
      count never does and is written as it is;
    * the allocation of the block list is taken to succeed.
-/

import TaeScanner.Lib.Fields
import TaeScanner.Reader.ObjectMeta
import TaeScanner.Reader.ReadBytes

namespace TaeScanner

open Lib

-- ============================================================================
-- Layout constants
-- ============================================================================

def metaV3HeaderLen : Nat := 32
def blockHeaderSize : Nat := 179
def colMetaLen : Nat := 124
def ioEntryHeaderLen : Nat := 4

/-- Field offsets of the v3 header. -/
def mv3DataCountOff : Nat := 0
def mv3DataOffsetOff : Nat := 2

/-- Field offsets of a BlockHeader. -/
def bhRowsOff : Nat := 36
def bhColCountOff : Nat := 40
def bhMetaColCntOff : Nat := 140
def bhMaxSeqOff : Nat := 142

/-- Field offsets of a ColumnMeta. -/
def cmDataTypeOff : Nat := 0
def cmIdxOff : Nat := 1
def cmNdvOff : Nat := 3
def cmNullCntOff : Nat := 7
def cmLocationOff : Nat := 11
def cmChecksumOff : Nat := 24
def cmZonemapOff : Nat := 28

def biBlockCountLen : Nat := 4
def biPosLen : Nat := 8

def extentLen : Nat := 13

-- ============================================================================
-- Checks and copies
-- ============================================================================

/-- `if (cond) throw std::runtime_error(what)`. -/
def refuseIf (cond : Prop) [Decidable cond] (what : String) : Except ReadError Unit :=
  if cond then .error (.runtime what) else .ok ()

/-- `memcpy` of `n` bytes at an offset. -/
def readAt (buf : List Byte) (off n : Nat) : Except ReadError (List Byte) :=
  match slice? buf off n with
  | some bytes => .ok bytes
  | none => .error .badRange

/-- `memcpy` into an unsigned integer of `n` bytes. -/
def readNat (buf : List Byte) (off n : Nat) : Except ReadError Nat := (readAt buf off n).map leNat

/-- The 13 bytes of an extent. -/
def Extent.ofBytes (bs : List Byte) : Extent where
  alg := (bs[0]?).getD 0
  offset := leNat ((bs.drop 1).take 4)
  length := leNat ((bs.drop 5).take 4)
  originSize := leNat ((bs.drop 9).take 4)

def readZoneMap (buf : List Byte) (off : Nat) : Except ReadError ZoneMap :=
  match h : slice? buf off zmSize with
  | some bytes => .ok ⟨bytes, slice?_length h⟩
  | none => .error .badRange

-- ============================================================================
-- ParseMetadata
-- ============================================================================

/-- What the loop over the blocks works on: the DataMeta part, the part from the
    block index on, and the number of blocks. -/
structure DataMeta where
  dm : List Byte
  index : List Byte
  blockCount : Nat
  deriving DecidableEq

/-- The DataMeta part: the block header of the object, its column metas, and the
    block index behind them. -/
def findIndex (dm : List Byte) : Except ReadError DataMeta := do
  refuseIf (dm.length < blockHeaderSize) "data meta too small for block header"
  let objMetaColCount ← readNat dm bhMetaColCntOff 2
  let objDataLen := blockHeaderSize + objMetaColCount * colMetaLen
  refuseIf (dm.length < objDataLen) "object data meta exceeds buffer"
  let bi := dm.drop objDataLen
  refuseIf (bi.length < biBlockCountLen) "no room for block index"
  let blockCount ← readNat bi 0 biBlockCountLen
  let biTotal := wrapAdd 32 biBlockCountLen (wrapMul 32 blockCount biPosLen)
  refuseIf (bi.length < biTotal) "block index exceeds buffer"
  return ⟨dm, bi, blockCount⟩

/-- `ParseMetadata` up to the loop; nothing when there is no DataMeta. -/
def findDataMeta (buf : List Byte) : Except ReadError (Option DataMeta) := do
  refuseIf (buf.length < metaV3HeaderLen) "metadata too small for v3 header"
  let dataMetaCount ← readNat buf mv3DataCountOff 2
  let dataMetaOffset ← readNat buf mv3DataOffsetOff 4
  if dataMetaCount = 0 then return none
  else
    refuseIf (buf.length ≤ dataMetaOffset) "data meta offset out of range"
    return some (← findIndex (buf.drop dataMetaOffset))

/-- One column meta, at `cm`. -/
def parseColumn (dm : List Byte) (cm : Nat) : Except ReadError ColumnMetaInfo := do
  let dataType ← readAt dm (cm + cmDataTypeOff) 1
  let idx ← readNat dm (cm + cmIdxOff) 2
  let ndv ← readNat dm (cm + cmNdvOff) 4
  let nullCnt ← readNat dm (cm + cmNullCntOff) 4
  let location ← readAt dm (cm + cmLocationOff) extentLen
  let checksum ← readNat dm (cm + cmChecksumOff) 4
  let zoneMap ← readZoneMap dm (cm + cmZonemapOff)
  return { dataType := (dataType[0]?).getD 0, idx := idx, ndv := ndv, nullCnt := nullCnt,
           location := Extent.ofBytes location, checksum := checksum, zoneMap := zoneMap }

/-- The number of columns that are parsed: all, or what fits. -/
def parsedColumns (blkLength metaColCount : Nat) : Nat :=
  if blkLength < blockHeaderSize + metaColCount * colMetaLen then
    (blkLength - blockHeaderSize) / colMetaLen
  else metaColCount

/-- A block that passed its checks. -/
def parseBlockAt (dm : List Byte) (blkOffset blkLength : Nat) : Except ReadError BlockInfo := do
  let rows ← readNat dm (blkOffset + bhRowsOff) 4
  let colCount ← readNat dm (blkOffset + bhColCountOff) 2
  let metaColCount ← readNat dm (blkOffset + bhMetaColCntOff) 2
  let maxSeqnum ← readNat dm (blkOffset + bhMaxSeqOff) 2
  let columns ← (List.range (parsedColumns blkLength metaColCount)).mapM fun c =>
    parseColumn dm (blkOffset + blockHeaderSize + c * colMetaLen)
  return { rows := rows, colCount := colCount, metaColCount := metaColCount, maxSeqnum := maxSeqnum,
           columns := columns }

/-- One iteration of the loop. -/
def DataMeta.parseBlock (d : DataMeta) (b : Nat) : Except ReadError BlockInfo := do
  let posOff := wrapAdd 32 biBlockCountLen (wrapMul 32 b biPosLen)
  let blkOffset ← readNat d.index posOff 4
  let blkLength ← readNat d.index (posOff + 4) 4
  refuseIf (d.dm.length < wrapAdd 32 blkOffset blkLength) ("block " ++ toString b ++ " out of range")
  refuseIf (blkLength < blockHeaderSize) ("block " ++ toString b ++ " header too small")
  parseBlockAt d.dm blkOffset blkLength

def parseMetadata (buf : List Byte) : Except ReadError ObjectMeta := do
  match ← findDataMeta buf with
  | none => return ⟨[]⟩
  | some d => return ⟨← (List.range d.blockCount).mapM d.parseBlock⟩

-- ============================================================================
-- ReadMeta
-- ============================================================================

/-- `LZ4_decompress_safe`: the return code, and the destination buffer it leaves. -/
structure LZ4 where
  decompressSafe : List Byte → Nat → Int × List Byte
  length_eq : ∀ src capacity, (decompressSafe src capacity).2.length = capacity

/-- `DecompressLZ4`. -/
def LZ4.decompress (lz4 : LZ4) (src : List Byte) (originSize : Nat) : Except ReadError (List Byte) :=
  let (decoded, dst) := lz4.decompressSafe src originSize
  if decoded < 0 ∨ decoded ≠ originSize then
    .error (.runtime ("LZ4 decompression failed: expected " ++ toString originSize ++ " got " ++
      toString decoded))
  else .ok dst

/-- The types of an IOEntryHeader. -/
def ioetObjMeta : Nat := 1
def ioetColData : Nat := 2

/-- Size of the object header, and the place of the meta extent in it. -/
def headerSize : Nat := 64
def headerMetaExtentOff : Nat := 10

/-- The steps of `ReadMeta` behind the second read: decompress if needed, strip
    the IOEntryHeader, parse. -/
def parseMetaSection (lz4 : LZ4) (ext : Extent) (raw : List Byte) : Except ReadError ObjectMeta := do
  let metaBuf ← if ext.isCompressed then lz4.decompress raw ext.originSize else pure raw
  refuseIf (metaBuf.length < ioEntryHeaderLen) "metadata too small"
  let type := leNat (metaBuf.take 2)
  refuseIf (type ≠ ioetObjMeta) ("expected IOET_ObjMeta, got " ++ toString type)
  parseMetadata (metaBuf.drop ioEntryHeaderLen)

/-- `ReadMeta`: the header, then the metadata extent. -/
def TAEObjectReader.readMeta (fs : FileSystem) (lz4 : LZ4) (r : TAEObjectReader) :
    TAEObjectReader × Except ReadError ObjectMeta :=
  match r.readBytes fs 0 headerSize with
  | (r, .error e) => (r, .error e)
  | (r, .ok hdr) =>
    if leNat (hdr.take 8) ≠ objectMagic then
      (r, .error (.runtime ("invalid TAE magic after CRC strip: " ++ toString (leNat (hdr.take 8)))))
    else
      let ext := Extent.ofBytes ((hdr.drop headerMetaExtentOff).take extentLen)
      match r.readBytes fs ext.offset ext.length with
      | (r, .error e) => (r, .error e)
      | (r, .ok raw) => (r, parseMetaSection lz4 ext raw)

end TaeScanner
