/-
  TaeScanner.Scan.Manifest

  `ParseManifestBytes`: manifest JSON parsing.  The manifest names the columns of a
  table and the objects that store it.

    * the JSON reader is a parameter;
    * a nonempty `data_root` is authoritative: the identity of the table is required,
      a root in the manifest has to match, and object paths are confined to it;
    * an exception is an error, and its text is the source's.
-/

import Mathlib.Data.List.Infix
import TaeScanner.Lib.Hex
import TaeScanner.Lib.Json
import TaeScanner.Lib.Paths
import TaeScanner.Lib.Utf8
import TaeScanner.Lib.Wrap
import TaeScanner.Scan.State

namespace TaeScanner

open Lib

deriving instance DecidableEq for TAEScanBindData

/-- The bind data with the parts that only the manifest parser fills. -/
structure ManifestBindData extends TAEScanBindData where
  dataDir : List Byte := []
  dbName : String := ""
  tableName : String := ""
  allColNames : List String := []
  allColWidths : List Int := []
  allColScales : List Int := []
  totalRows : Nat := 0
  totalBlocks : Nat := 0
  deriving DecidableEq

/-- Bind data as they are constructed. -/
def ManifestBindData.fresh : ManifestBindData where
  allColTypes := []
  allColMoOids := []
  allColSeqnums := []
  objects := []

/-- `if (cond) throw std::runtime_error(text)`. -/
def throwIf (cond : Prop) [Decidable cond] (text : String) : Except String Unit :=
  if cond then .error text else .ok ()

-- ============================================================================
-- Hex
-- ============================================================================

/-- Decode hex string to bytes.  Returns the empty vector on invalid input. -/
def hexDecode (hex : List Byte) : List Byte :=
  if hex.length % 2 ≠ 0 then [] else (hexPairs hex).getD []

-- ============================================================================
-- Identity and data directory
-- ============================================================================

/-- Database and table names. -/
def bindIdentity (dataRoot : List Byte) (root : Json) (bind : ManifestBindData) :
    Except String ManifestBindData := do
  let dbVal := root.get? "database"
  let tblVal := root.get? "table"
  throwIf
    ((dbVal.isSome ∧ ¬dbVal.any Json.isStr) ∨ (tblVal.isSome ∧ ¬tblVal.any Json.isStr) ∨
      (dataRoot ≠ [] ∧ (¬dbVal.any Json.isStr ∨ ¬tblVal.any Json.isStr)))
    "tae_scan: manifest database and table are required strings"
  .ok { bind with
    dbName := dbVal.elim bind.dbName Json.getStr
    tableName := tblVal.elim bind.tableName Json.getStr }

/-- Data directory from manifest (where object files are stored). -/
def bindDataDir (dataRoot : List Byte) (root : Json) (bind : ManifestBindData) :
    Except String ManifestBindData := do
  let dirVal := root.get? "data_dir"
  let dataDir := if dirVal.any Json.isStr then utf8Bytes (dirVal.elim "" Json.getStr) else bind.dataDir
  if dataRoot = [] then .ok { bind with dataDir := dataDir }
  else
    throwIf (dataDir ≠ [] ∧ dataDir ≠ dataRoot) "tae_scan: manifest data root mismatch"
    .ok { bind with dataDir := dataRoot }

-- ============================================================================
-- Columns
-- ============================================================================

/-- What one element of `columns` contributes to the six arrays. -/
structure ManifestColumn where
  name : String
  oid : Byte
  width : Int
  scale : Int
  seqnum : Nat
  type : LogicalType

/-- One round of the loop over `columns`, up to its `push_back`s. -/
def parseManifestColumn (seqnums : List Nat) (col : Json) : Except String ManifestColumn := do
  let name := col.get? "name"
  let oidVal := col.get? "oid"
  throwIf
    (¬col.isObj ∨ ¬name.any Json.isStr ∨ name.elim "" Json.text = "" ∨ ¬oidVal.any Json.isInt ∨
      oidVal.elim 0 Json.getInt < 0 ∨ 255 < oidVal.elim 0 Json.getInt)
    "tae_scan: invalid manifest column"
  let oid := BitVec.ofInt 8 (oidVal.elim 0 Json.getInt)
  let w := col.get? "width"
  let s := col.get? "scale"
  throwIf ((w.isSome ∧ ¬w.any Json.isInt) ∨ (s.isSome ∧ ¬s.any Json.isInt))
    "tae_scan: invalid column width or scale"
  let mt : MOType := { oid := oid, width := w.elim 0 Json.getInt, scale := s.elim 0 Json.getInt }
  let q := col.get? "seqnum"
  throwIf (q.isSome ∧ ¬q.any Json.isInt) "tae_scan: invalid column seqnum"
  let seq : Int := q.elim (seqnums.length : Int) Json.getInt
  throwIf (seq < 0 ∨ 65535 < seq ∨ seqnums.any fun (x : Nat) => decide ((x : Int) = seq))
    "tae_scan: invalid or duplicate column seqnum"
  let type ← moTypeToDuckDB mt
  .ok ⟨name.elim "" Json.getStr, oid, mt.width, mt.scale, seq.toNat % 2 ^ 16, type⟩

/-- The `push_back`s of a round. -/
def ManifestBindData.pushColumn (bind : ManifestBindData) (c : ManifestColumn) : ManifestBindData :=
  { bind with
    allColNames := bind.allColNames ++ [c.name]
    allColMoOids := bind.allColMoOids ++ [c.oid]
    allColWidths := bind.allColWidths ++ [c.width]
    allColScales := bind.allColScales ++ [c.scale]
    allColSeqnums := bind.allColSeqnums ++ [c.seqnum]
    allColTypes := bind.allColTypes ++ [c.type] }

def addColumn (bind : ManifestBindData) (col : Json) : Except String ManifestBindData :=
  (parseManifestColumn bind.allColSeqnums col).map bind.pushColumn

def bindColumns (emptyLegacyManifest : Bool) (root : Json) (bind : ManifestBindData) :
    Except String ManifestBindData := do
  let cols := root.get? "columns"
  throwIf (¬emptyLegacyManifest ∧ (¬cols.any Json.isArr ∨ 1024 < (cols.elim [] Json.elements).length))
    "tae_scan: invalid manifest columns"
  if emptyLegacyManifest then .ok bind else (cols.elim [] Json.elements).foldlM addColumn bind

-- ============================================================================
-- Objects
-- ============================================================================

def pathSep : Byte := 47
def pathDot : Byte := 46

/-- The parts of a relative `std::filesystem::path`: the names between separators,
    and an empty one behind a separator at the end. -/
def pathParts (path : List Byte) : List (List Byte) :=
  (path.splitOn pathSep).filter (· ≠ []) ++ if path.getLast? = some pathSep then [[]] else []

/-- The test on the path of an object under an authoritative root. -/
def unsafeObjectPath (path : List Byte) : Bool :=
  path.head? = some pathSep || path = [] || path.contains 92 || decide ([58, 47, 47] <:+: path) ||
    (pathParts path).contains [pathDot, pathDot]

/-- Hex-encoded 64-byte zone map for the sort key column; anything else is ignored. -/
def manifestZoneMap (zmVal : Option Json) : Option ZoneMap :=
  if zmVal.any Json.isStr then
    let zmBytes := hexDecode (utf8Bytes (zmVal.elim "" Json.text))
    if h : zmBytes.length = zmSize then some ⟨zmBytes, h⟩ else none
  else none

/-- One round of the loop over `objects`. -/
def parseManifestObject (dataRoot : List Byte) (obj : Json) : Except String TAEObjectInfo := do
  let pathVal := obj.get? "path"
  let rowsVal := obj.get? "rows"
  let blocksVal := obj.get? "blocks"
  throwIf
    (¬obj.isObj ∨ ¬pathVal.any Json.isStr ∨ ¬rowsVal.any Json.isUint ∨
      2 ^ 32 - 1 < rowsVal.elim 0 Json.getUint ∨ ¬blocksVal.any Json.isUint ∨
      2 ^ 32 - 1 < blocksVal.elim 0 Json.getUint)
    "tae_scan: invalid manifest object"
  let filePath := pathVal.elim "" Json.getStr
  throwIf (dataRoot ≠ [] ∧ unsafeObjectPath (utf8Bytes filePath)) "tae_scan: unsafe object path"
  let sz := obj.get? "size"
  throwIf (sz.isSome ∧ (¬sz.any Json.isUint ∨ 2 ^ 32 - 1 < sz.elim 0 Json.getUint))
    "tae_scan: invalid object size"
  .ok {
    filePath := filePath
    rows := rowsVal.elim 0 Json.getUint % 2 ^ 32
    blocks := blocksVal.elim 0 Json.getUint % 2 ^ 32
    sizeBytes := sz.elim 0 fun v => v.getUint % 2 ^ 32
    sortKeyZm := manifestZoneMap (obj.get? "zone_map") }

def bindObjects (emptyLegacyManifest : Bool) (dataRoot : List Byte) (root : Json) (bind : ManifestBindData) :
    Except String ManifestBindData := do
  let objs := root.get? "objects"
  throwIf (¬emptyLegacyManifest ∧ ¬objs.any Json.isArr) "tae_scan: invalid manifest objects"
  if emptyLegacyManifest then .ok bind
  else
    let infos ← (objs.elim [] Json.elements).mapM (parseManifestObject dataRoot)
    .ok { bind with objects := bind.objects ++ infos }

-- ============================================================================
-- Totals and sort column
-- ============================================================================

/-- Compute totals for cardinality/progress estimation, in 64 bits. -/
def bindTotals (bind : ManifestBindData) : ManifestBindData :=
  { bind with
    totalRows := bind.objects.foldl (fun total o => wrapAdd 64 total o.rows) 0
    totalBlocks := bind.objects.foldl (fun total o => wrapAdd 64 total o.blocks) 0 }

/-- Parse optional sort_column (the PK or sort key column name). -/
def bindSortColumn (root : Json) (bind : ManifestBindData) : ManifestBindData :=
  let sortCol := root.get? "sort_column"
  if sortCol.any Json.isStr then
    match bind.allColNames.idxOf? (sortCol.elim "" Json.getStr) with
    | some i => { bind with sortColumnIdx := i }
    | none => bind
  else bind

-- ============================================================================
-- The parser
-- ============================================================================

/-- `ParseManifestBytes`. -/
def parseManifestBytes (reader : JsonReader) (json dataRoot : List Byte) (bind : ManifestBindData) :
    Except String ManifestBindData := do
  throwIf (json = [] ∨ 64 <<< 20 < json.length) "tae_scan: manifest size outside limit"
  match reader.read json with
  | none => .error "tae_scan: invalid JSON in manifest"
  | some root =>
      throwIf (¬root.isObj) "tae_scan: manifest root must be an object"
      let emptyLegacyManifest := decide (dataRoot = []) && root.members.isEmpty
      let bind ← bindIdentity dataRoot root bind
      let bind ← bindDataDir dataRoot root bind
      let bind ← bindColumns emptyLegacyManifest root bind
      let bind ← bindObjects emptyLegacyManifest dataRoot root bind
      .ok (bindSortColumn root (bindTotals bind))

end TaeScanner
