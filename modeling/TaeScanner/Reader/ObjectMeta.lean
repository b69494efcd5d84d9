/-
  TaeScanner.Reader.ObjectMeta

  The parsed metadata of an object: its blocks, and for each block the metas of
  its columns.
-/

import TaeScanner.Filter.ZoneMap

namespace TaeScanner

open Lib

/-- Locator of a contiguous region in the object file, 13 bytes on disk. -/
structure Extent where
  /-- 0 is not compressed, 1 is LZ4. -/
  alg : Byte
  offset : Nat
  /-- The stored length. -/
  length : Nat
  /-- The length after decompression. -/
  originSize : Nat
  deriving DecidableEq, Repr

def Extent.isCompressed (ext : Extent) : Bool := ext.alg == 1

/-- A parsed column meta. -/
structure ColumnMetaInfo where
  /-- MO type OID. -/
  dataType : Byte := 0
  idx : Nat := 0
  ndv : Nat := 0
  nullCnt : Nat := 0
  /-- Where the data of the column lies in the file. -/
  location : Extent := ⟨0, 0, 0, 0⟩
  checksum : Nat := 0
  zoneMap : ZoneMap
  deriving DecidableEq

structure BlockInfo where
  rows : Nat
  /-- User columns. -/
  colCount : Nat := 0
  /-- Metadata columns. -/
  metaColCount : Nat := 0
  maxSeqnum : Nat := 0
  /-- Indexed by seqnum. -/
  columns : List ColumnMetaInfo
  deriving DecidableEq

structure ObjectMeta where
  blocks : List BlockInfo
  deriving DecidableEq

namespace ObjectMeta

def blockCount (m : ObjectMeta) : Nat := m.blocks.length

def blockRowCount (m : ObjectMeta) (blockIdx : Nat) : Nat :=
  match m.blocks[blockIdx]? with
  | some blk => blk.rows
  | none => 0

/-- The zone map of a column of a block, if there is one. -/
def getZoneMap (m : ObjectMeta) (blockIdx seqnum : Nat) : Option ZoneMap :=
  (m.blocks[blockIdx]?).bind fun blk => (blk.columns[seqnum]?).map (·.zoneMap)

end ObjectMeta

end TaeScanner
