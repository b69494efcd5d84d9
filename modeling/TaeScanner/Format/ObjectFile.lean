/-
  TaeScanner.Format.ObjectFile

  The writer of the test data, `gen_test_data.py`, from a single column up to a
  whole object file: `build_block_header`, `build_col_meta`, `TAEFileBuilder`.
  A builder is `none` where the script raises an exception.

  File layout:
    [header 64B] [column data ...] [metadata]
  The header holds the extent of the metadata, a column meta the extent of its
  column.
-/

import TaeScanner.Format.BuildVector
import TaeScanner.Reader.Metadata

namespace TaeScanner

open Lib

-- ============================================================================
-- Low-level builders
-- ============================================================================

/-- `struct.pack` of an unsigned number of `n` bytes; it raises when the number
    does not fit. -/
def pack (n v : Nat) : Option (List Byte) := if v < 256 ^ n then some (leBytes n v) else none

/-- `pack_extent`. -/
def packExtent (alg offset length originSize : Nat) : Option (List Byte) := do
  let alg ← pack 1 alg
  let offset ← pack 4 offset
  let length ← pack 4 length
  let originSize ← pack 4 originSize
  return alg ++ (offset ++ (length ++ originSize))

/-- `pack_io_entry_header`, version 0. -/
def packIoEntryHeader (entryType : Nat) : List Byte := leBytes 2 entryType ++ leBytes 2 0

/-- `build_col_data_extent`. -/
def buildColDataExtent (vectorBytes : List Byte) : List Byte := packIoEntryHeader ioetColData ++ vectorBytes

/-- The fields of a BlockHeader and their places. -/
def blockHeaderFields (rows colCount metaColCount maxSeq : List Byte) : List (Nat × List Byte) :=
  [(bhRowsOff, rows), (bhColCountOff, colCount), (bhMetaColCntOff, metaColCount), (bhMaxSeqOff, maxSeq)]

/-- `build_block_header`; the largest seqnum of no columns does not pack. -/
def buildBlockHeader (rows colCount : Nat) : Option (List Byte) :=
  if colCount = 0 then none
  else do
    let rows ← pack 4 rows
    let cols ← pack 2 colCount
    let maxSeq ← pack 2 (colCount - 1)
    return writeFields (List.replicate blockHeaderSize 0) (blockHeaderFields rows cols cols maxSeq)

/-- The fields of a ColumnMeta and their places. -/
def colMetaFields (dataType : Byte) (idx ndv nullCnt locationExtent : List Byte) (zoneMap : ZoneMap) :
    List (Nat × List Byte) :=
  [(cmDataTypeOff, [dataType]), (cmIdxOff, idx), (cmNdvOff, ndv), (cmNullCntOff, nullCnt),
    (cmLocationOff, locationExtent), (cmZonemapOff, zoneMap.data)]

/-- `build_col_meta`. -/
def buildColMeta (dataType : Byte) (idx ndv nullCnt : Nat) (locationExtent : List Byte)
    (zoneMap : ZoneMap) : Option (List Byte) := do
  let idx ← pack 2 idx
  let ndv ← pack 4 ndv
  let nullCnt ← pack 4 nullCnt
  return writeFields (List.replicate colMetaLen 0)
    (colMetaFields dataType idx ndv nullCnt locationExtent zoneMap)

-- ============================================================================
-- TAEFileBuilder
-- ============================================================================

/-- A column as `add_block` takes it. -/
structure ColumnSpec where
  moType : Byte
  vectorBytes : List Byte
  nulls : List Bool := []
  ndv : Nat := 0
  zoneMap : ZoneMap := .zero

structure BlockSpec where
  rows : Nat
  columns : List ColumnSpec

section Builder
variable (lz4Compress : List Byte → Option (List Byte)) (compress : Bool)

/-- Append a section, compressed or as it is: the grown file and the extent. -/
def appendSection (buf data : List Byte) : Option (List Byte × List Byte) :=
  if compress then do
    let compressed ← lz4Compress data
    let extent ← packExtent 1 buf.length compressed.length data.length
    return (buf ++ compressed, extent)
  else do
    let extent ← packExtent 0 buf.length data.length data.length
    return (buf ++ data, extent)

/-- Phase 1 for the columns of one block: the grown file and the extents. -/
def writeColumns : List Byte → List ColumnSpec → Option (List Byte × List (List Byte))
  | buf, [] => some (buf, [])
  | buf, col :: cols => do
    let (buf, extent) ← appendSection lz4Compress compress buf (buildColDataExtent col.vectorBytes)
    let (buf, extents) ← writeColumns buf cols
    return (buf, extent :: extents)

/-- Phase 1: write column data blocks, record extents. -/
def writeBlocks : List Byte → List BlockSpec → Option (List Byte × List (List (List Byte)))
  | buf, [] => some (buf, [])
  | buf, block :: blocks => do
    let (buf, extents) ← writeColumns lz4Compress compress buf block.columns
    let (buf, rest) ← writeBlocks buf blocks
    return (buf, extents :: rest)

end Builder

/-- The header and the column metas of one block. -/
def buildBlockMeta (block : BlockSpec) (extents : List (List Byte)) : Option (List Byte) := do
  let bh ← buildBlockHeader block.rows block.columns.length
  let cms ← (block.columns.zip extents).zipIdx.mapM fun ((col, extent), i) =>
    buildColMeta col.moType i col.ndv (col.nulls.count true) extent col.zoneMap
  return bh ++ cms.flatten

/-- The entries of the BlockIndex: offset and length of each block, from `offset` on. -/
def blockIndexEntries : Nat → List (List Byte) → Option (List Byte)
  | _, [] => some []
  | offset, pbm :: pbms => do
    let off ← pack 4 offset
    let len ← pack 4 pbm.length
    let rest ← blockIndexEntries (offset + pbm.length) pbms
    return off ++ (len ++ rest)

/-- The objectMetaV3 header: one DataMeta, right behind it. -/
def metaV3Header : List Byte :=
  writeFields (List.replicate metaV3HeaderLen 0)
    [(mv3DataCountOff, leBytes 2 1), (mv3DataOffsetOff, leBytes 4 metaV3HeaderLen)]

/-- `_build_metadata`. -/
def buildMetadata (blocks : List BlockSpec) (extents : List (List (List Byte))) : Option (List Byte) := do
  let first ← blocks.head?
  let colCount := first.columns.length
  let objBlockHeader ← buildBlockHeader (blocks.map (·.rows)).sum colCount
  let objColMetas ← first.columns.zipIdx.mapM fun (col, c) =>
    buildColMeta col.moType c 0 0 (List.replicate extentLen 0) col.zoneMap
  let perBlockMetas ← (blocks.zip extents).mapM fun (block, extents) => buildBlockMeta block extents
  let objDataLen := blockHeaderSize + colCount * colMetaLen
  let biSize := biBlockCountLen + blocks.length * biPosLen
  let count ← pack 4 blocks.length
  let entries ← blockIndexEntries (objDataLen + biSize) perBlockMetas
  return packIoEntryHeader ioetObjMeta ++ (metaV3Header ++ ((objBlockHeader ++ objColMetas.flatten) ++
    ((count ++ entries) ++ perBlockMetas.flatten)))

/-- `TAEFileBuilder.build`. -/
def buildFile (lz4Compress : List Byte → Option (List Byte)) (compress : Bool) (blocks : List BlockSpec) :
    Option (List Byte) := do
  let (buf, extents) ← writeBlocks lz4Compress compress (List.replicate headerSize 0) blocks
  let metaBytes ← buildMetadata blocks extents
  let (buf, metaExtent) ← appendSection lz4Compress compress buf metaBytes
  -- Phase 3: magic, version and the extent of the metadata
  return writeFields buf [(0, leBytes 8 objectMagic), (8, leBytes 2 1), (headerMetaExtentOff, metaExtent)]

-- ============================================================================
-- From the values of the columns
-- ============================================================================

/-- What the vector of a column is built from. -/
inductive VectorSource
  | flat (elemSize : Int) (values : ColumnValues) (nulls : List Bool)
  | constant (elemSize : Int) (value : ConstantValue) (rowCount : Nat)

/-- The vector, by `build_vector` or `build_constant_vector`. -/
def VectorSource.build (oid : Byte) : VectorSource → Option VectorSections
  | flat elemSize values nulls => buildVector oid elemSize values nulls
  | constant elemSize value rowCount => buildConstantVector oid elemSize value rowCount

def VectorSource.nulls : VectorSource → List Bool
  | flat _ _ nulls => nulls
  | constant _ value rowCount => value.nulls rowCount

def VectorSource.rowCount : VectorSource → Nat
  | flat _ values _ => values.rowCount
  | constant _ _ rowCount => rowCount

/-- A column before its vector is built; `nulls` is what its meta counts. -/
structure ColumnInput where
  moType : Byte
  source : VectorSource
  nulls : List Bool := []
  ndv : Nat := 0
  zoneMap : ZoneMap := .zero

def ColumnInput.spec (col : ColumnInput) : Option ColumnSpec := do
  let v ← col.source.build col.moType
  let vectorBytes ← v.binary
  return { moType := col.moType, vectorBytes := vectorBytes, nulls := col.nulls, ndv := col.ndv,
           zoneMap := col.zoneMap }

structure BlockInput where
  rows : Nat
  columns : List ColumnInput

def BlockInput.spec (block : BlockInput) : Option BlockSpec := do
  return { rows := block.rows, columns := ← block.columns.mapM ColumnInput.spec }

/-- Build all vectors, then the file. -/
def buildObject (lz4Compress : List Byte → Option (List Byte)) (compress : Bool)
    (blocks : List BlockInput) : Option (List Byte) := do
  let specs ← blocks.mapM BlockInput.spec
  buildFile lz4Compress compress specs

end TaeScanner
