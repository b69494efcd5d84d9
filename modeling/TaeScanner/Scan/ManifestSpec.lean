/-
  TaeScanner.Scan.ManifestSpec

  Three properties of the manifests that `ParseManifestBytes` accepts.

    * an authoritative root confines the objects;
    * the integers of a manifest are kept iff those of its columns have 32 bits;
    * the arrays of the bind data belong together, so an index of one of them is an
      index of all.
-/

import Mathlib.Algebra.Order.BigOperators.Group.List
import TaeScanner.Scan.Init
import TaeScanner.Scan.ManifestSource
import TaeScanner.Scan.OrderBy
import TaeScanner.Scan.ProjectionSpec

namespace TaeScanner

open Lib

-- ============================================================================
-- A manifest of two columns
-- ============================================================================

/-- 64 bytes in hexadecimal. -/
def sampleZoneMap : String := "0F" ++ String.ofList (List.replicate 126 '0')

def sampleManifest : Json :=
  .obj [
    ("database", .str "db"), ("table", .str "t"),
    ("columns", .arr [
      .obj [("name", .str "amount"), ("oid", .uint 32), ("width", .uint 12), ("scale", .uint 2), ("seqnum", .uint 7)],
      .obj [("name", .str "id"), ("oid", .uint 23)]]),
    ("objects", .arr [
      .obj [("path", .str "obj/0001"), ("rows", .uint 8192), ("blocks", .uint 1), ("size", .uint 4096),
        ("zone_map", .str sampleZoneMap)]]),
    ("sort_column", .str "id")]

/-- Its text. -/
def sampleManifestText : List Byte :=
  utf8Bytes ("\x7b\"database\":\"db\",\"table\":\"t\",\"columns\":["
    ++ "\x7b\"name\":\"amount\",\"oid\":32,\"width\":12,\"scale\":2,\"seqnum\":7\x7d,"
    ++ "\x7b\"name\":\"id\",\"oid\":23\x7d],"
    ++ "\"objects\":[\x7b\"path\":\"obj/0001\",\"rows\":8192,\"blocks\":1,\"size\":4096,"
    ++ "\"zone_map\":\"" ++ sampleZoneMap ++ "\"\x7d],\"sort_column\":\"id\"\x7d")

def sampleReader : JsonReader := .only sampleManifestText sampleManifest (by decide +kernel)

def sampleDataRoot : List Byte := utf8Bytes "/data"

/-- The bind data of the sample: the second column counts its seqnum. -/
def sampleBind : ManifestBindData where
  allColTypes := [.decimal 12 2, .bigint]
  allColMoOids := [32, 23]
  allColSeqnums := [7, 1]
  objects := [{
    filePath := "obj/0001", rows := 8192, blocks := 1, sizeBytes := 4096,
    sortKeyZm := manifestZoneMap (some (.str sampleZoneMap)) }]
  sortColumnIdx := 1
  dataDir := sampleDataRoot
  dbName := "db"
  tableName := "t"
  allColNames := ["amount", "id"]
  allColWidths := [12, 0]
  allColScales := [2, 0]
  totalRows := 8192
  totalBlocks := 1

theorem sampleManifest_read : sampleReader.read sampleManifestText = some sampleManifest :=
  JsonReader.only_read _

theorem sampleManifest_accepted :
    parseManifestBytes sampleReader sampleManifestText sampleDataRoot .fresh = .ok sampleBind := by
  decide +kernel

-- ============================================================================
-- Confinement
-- ============================================================================

/-- Where a data root is, from a current directory. -/
def rootPlace (cwd : Place Byte) (dataRoot : List Byte) : Place Byte :=
  walk pathDot (pathStart pathSep cwd dataRoot) (dataRoot.splitOn pathSep)

/-- The path of an object does not leave the root, and has no URL scheme. -/
structure Confined (dataRoot path : List Byte) : Prop where
  below : ∀ cwd, StaysBelow pathSep pathDot (rootPlace cwd dataRoot) path
  no_scheme : ¬[58, 47, 47] <:+: path

/-- The test on the path finds every way out. -/
theorem confined_of_safe {dataRoot path : List Byte} (h : unsafeObjectPath path = false) :
    Confined dataRoot path := by
  simp only [unsafeObjectPath, Bool.or_eq_false_iff, decide_eq_false_iff_not] at h
  obtain ⟨⟨⟨⟨hrel, -⟩, -⟩, hscheme⟩, hparts⟩ := h
  refine ⟨fun cwd => staysBelow_of_relative hrel fun hup => ?_, hscheme⟩
  have hmem : [pathDot, pathDot] ∈ pathParts path := by
    apply List.mem_append_left
    rw [List.mem_filter]
    exact ⟨hup, rfl⟩
  rw [List.contains_iff_mem.mpr hmem] at hparts
  cases hparts

/-- **Confinement.** -/
theorem parseManifestBytes_confined (reader : JsonReader) (json dataRoot : List Byte) (bind : ManifestBindData)
    (hroot : dataRoot ≠ []) (h : parseManifestBytes reader json dataRoot .fresh = .ok bind) :
    bind.dataDir = dataRoot ∧ ∀ o ∈ bind.objects, Confined dataRoot (utf8Bytes o.filePath) := by
  obtain ⟨-, root, cs, infos, -, source⟩ := manifestSource h
  refine ⟨source.dataDir hroot, fun o ho => ?_⟩
  rw [source.objects] at ho
  obtain ⟨i, hi⟩ := List.mem_iff_getElem?.mp ho
  obtain ⟨obj, -, hobj⟩ := getElem?_of_forall₂ source.sources hi
  exact confined_of_safe (hobj.safe hroot)

theorem sampleManifest_confined : sampleBind.dataDir = sampleDataRoot ∧
    ∀ o ∈ sampleBind.objects, Confined sampleDataRoot (utf8Bytes o.filePath) :=
  parseManifestBytes_confined sampleReader sampleManifestText sampleDataRoot sampleBind (by decide)
    sampleManifest_accepted

-- ============================================================================
-- Integers
-- ============================================================================

/-- The integer that is written is the one that is stored, and in range. -/
def Kept (v : Option Json) (lo hi stored : Int) : Prop :=
  ∀ n ∈ v.bind Json.int?, stored = n ∧ lo ≤ n ∧ n ≤ hi

/-- The integer that is written fits in 32 bits with a sign. -/
def IntFits (v : Option Json) : Prop := ∀ n ∈ v.bind Json.int?, FitsSigned 4 n

instance (v : Option Json) : Decidable (IntFits v) :=
  inferInstanceAs (Decidable (∀ n ∈ v.bind Json.int?, FitsSigned 4 n))

/-- Each integer of a manifest is stored as it is written. -/
structure IntegersKept (root : Json) (before bind : ManifestBindData) : Prop where
  oids : List.Forall₂ (fun (col : Json) (oid : Byte) => Kept (col.get? "oid") 0 255 oid.toNat)
    (manifestColumns root) (bind.allColMoOids.drop before.allColMoOids.length)
  widths : List.Forall₂ (fun (col : Json) (width : Int) => Kept (col.get? "width") (-2 ^ 31) (2 ^ 31 - 1) width)
    (manifestColumns root) (bind.allColWidths.drop before.allColWidths.length)
  scales : List.Forall₂ (fun (col : Json) (scale : Int) => Kept (col.get? "scale") (-2 ^ 31) (2 ^ 31 - 1) scale)
    (manifestColumns root) (bind.allColScales.drop before.allColScales.length)
  seqnums : List.Forall₂ (fun (col : Json) (seqnum : Nat) => Kept (col.get? "seqnum") 0 65535 seqnum)
    (manifestColumns root) (bind.allColSeqnums.drop before.allColSeqnums.length)
  objects : List.Forall₂ (fun (obj : Json) (o : TAEObjectInfo) =>
      Kept (obj.get? "rows") 0 (2 ^ 32 - 1) o.rows ∧ Kept (obj.get? "blocks") 0 (2 ^ 32 - 1) o.blocks ∧
        Kept (obj.get? "size") 0 (2 ^ 32 - 1) o.sizeBytes)
    (manifestObjects root) (bind.objects.drop before.objects.length)

/-- The integers of the columns fit in 32 bits. -/
def ColumnIntegersFit (root : Json) : Prop :=
  ∀ col ∈ manifestColumns root, IntFits (col.get? "oid") ∧ IntFits (col.get? "width") ∧
    IntFits (col.get? "scale") ∧ IntFits (col.get? "seqnum")

instance (root : Json) : Decidable (ColumnIntegersFit root) :=
  inferInstanceAs (Decidable (∀ col ∈ manifestColumns root, _))

section Integers
variable {v : Option Json} {missing stored lo hi : Int}

/-- The low bits of an integer are kept iff there are no others. -/
theorem ReadsInt.kept_iff (h : ReadsInt v missing stored) (hlo : lo ≤ stored) (hhi : stored ≤ hi) :
    Kept v lo hi stored ↔ IntFits v := by
  cases v with
  | none =>
      constructor
      · intro _ n hn
        cases hn
      · intro _ n hn
        cases hn
  | some w =>
      obtain ⟨n, hn, rfl⟩ := h.present w rfl
      have hbind : (some w).bind Json.int? = some n := hn
      have hiff := Json.getInt_eq_iff hn
      constructor
      · intro hkept n' hn'
        obtain rfl := Option.some.inj (hbind.symm.trans hn')
        exact hiff.mp (hkept n hbind).1
      · intro hfits n' hn'
        obtain rfl := Option.some.inj (hbind.symm.trans hn')
        have heq := hiff.mpr (hfits n hbind)
        exact ⟨heq, heq ▸ hlo, heq ▸ hhi⟩

/-- What is read of an integer has 32 bits. -/
theorem ReadsInt.range (h : ReadsInt v 0 stored) : -2 ^ 31 ≤ stored ∧ stored ≤ 2 ^ 31 - 1 := by
  cases v with
  | none =>
      rw [h.absent rfl]
      decide
  | some w =>
      obtain ⟨n, -, rfl⟩ := h.present w rfl
      obtain ⟨hlo, hhi⟩ := w.fitsSigned_getInt
      omega

theorem ReadsUint.kept {stored : Nat} (h : ReadsUint v stored) : Kept v 0 (2 ^ 32 - 1) stored := by
  obtain ⟨n, rfl, rfl, hlt⟩ := h
  intro m hm
  obtain rfl := Option.some.inj hm
  exact ⟨rfl, by omega, by omega⟩

/-- The integers of an object are kept. -/
theorem ObjectSource.kept {dataRoot : List Byte} {obj : Json} {info : TAEObjectInfo}
    (h : ObjectSource dataRoot obj info) :
    Kept (obj.get? "rows") 0 (2 ^ 32 - 1) info.rows ∧ Kept (obj.get? "blocks") 0 (2 ^ 32 - 1) info.blocks ∧
      Kept (obj.get? "size") 0 (2 ^ 32 - 1) info.sizeBytes := by
  refine ⟨h.rows.kept, h.blocks.kept, ?_⟩
  rcases h.size with ⟨hnone, -⟩ | hsize
  · rw [hnone]
    intro n hn
    cases hn
  · exact hsize.kept

/-- **Integers.** -/
theorem integersKept_iff (reader : JsonReader) (json dataRoot : List Byte) (root : Json)
    (before bind : ManifestBindData) (hread : reader.read json = some root)
    (h : parseManifestBytes reader json dataRoot before = .ok bind) :
    IntegersKept root before bind ↔ ColumnIntegersFit root := by
  obtain ⟨-, root', cs, infos, hread', source⟩ := manifestSource h
  obtain rfl := Option.some.inj (hread.symm.trans hread')
  have hcols := source.columns
  have hoids := hcols.stored_iff (K := fun col oid => Kept (col.get? "oid") 0 255 oid.toNat) source.moOids
    fun _ _ c hc => hc.oid.2.kept_iff (Int.natCast_nonneg _) (by omega)
  have hwidths := hcols.stored_iff (K := fun col width => Kept (col.get? "width") (-2 ^ 31) (2 ^ 31 - 1) width)
    source.widths fun _ _ c hc => hc.width.kept_iff hc.width.range.1 hc.width.range.2
  have hscales := hcols.stored_iff (K := fun col scale => Kept (col.get? "scale") (-2 ^ 31) (2 ^ 31 - 1) scale)
    source.scales fun _ _ c hc => hc.scale.kept_iff hc.scale.range.1 hc.scale.range.2
  have hseqnums := hcols.stored_iff (K := fun col seqnum => Kept (col.get? "seqnum") 0 65535 (seqnum : Nat))
    source.seqnums fun _ _ c hc => hc.seqnum.kept_iff (Int.natCast_nonneg _) (by have := hc.seqnum_lt; omega)
  have hobjects : bind.objects.drop before.objects.length = infos := by
    rw [source.objects, List.drop_left]
  constructor
  · intro hkept col hcol
    exact ⟨hoids.mp hkept.oids col hcol, hwidths.mp hkept.widths col hcol, hscales.mp hkept.scales col hcol,
      hseqnums.mp hkept.seqnums col hcol⟩
  · intro hfit
    constructor
    · exact hoids.mpr fun col hcol => (hfit col hcol).1
    · exact hwidths.mpr fun col hcol => (hfit col hcol).2.1
    · exact hscales.mpr fun col hcol => (hfit col hcol).2.2.1
    · exact hseqnums.mpr fun col hcol => (hfit col hcol).2.2.2
    · rw [hobjects]
      exact source.sources.imp fun _ _ hsource => hsource.kept

theorem sampleManifest_kept : IntegersKept sampleManifest .fresh sampleBind :=
  (integersKept_iff sampleReader sampleManifestText sampleDataRoot sampleManifest .fresh sampleBind
    sampleManifest_read sampleManifest_accepted).mpr (by decide +kernel)

/-- A manifest whose only column has the OID 2^32 + 23. -/
def wideManifest : Json :=
  .obj [("columns", .arr [.obj [("name", .str "c"), ("oid", .uint 4294967319)]]), ("objects", .arr [])]

def wideManifestText : List Byte :=
  utf8Bytes "\x7b\"columns\":[\x7b\"name\":\"c\",\"oid\":4294967319\x7d],\"objects\":[]\x7d"

def wideReader : JsonReader := .only wideManifestText wideManifest (by decide +kernel)

def wideBind : ManifestBindData where
  allColTypes := [.bigint]
  allColMoOids := [23]
  allColSeqnums := [0]
  objects := []
  allColNames := ["c"]
  allColWidths := [0]
  allColScales := [0]

/-- The OID is accepted as 23. -/
theorem wideOid_narrowed : parseManifestBytes wideReader wideManifestText [] .fresh = .ok wideBind ∧
    ¬IntegersKept wideManifest .fresh wideBind := by
  refine ⟨by decide +kernel, fun hkept => ?_⟩
  rcases hkept.oids with _ | ⟨hoid, -⟩
  have heq := (hoid 4294967319 rfl).1
  cases heq

end Integers

-- ============================================================================
-- Arrays
-- ============================================================================

/-- The lengths of the arrays that have an element for each column. -/
def ManifestBindData.arrayLengths (bind : ManifestBindData) : List Nat :=
  [bind.allColNames.length, bind.allColTypes.length, bind.allColMoOids.length, bind.allColWidths.length,
    bind.allColScales.length, bind.allColSeqnums.length]

/-- A zone map has 64 bytes, those that the manifest writes. -/
def ZoneMapWritten (obj : Json) (info : TAEObjectInfo) : Prop :=
  ∀ zm, info.sortKeyZm = some zm → zm.data.length = 64 ∧
    ∃ s, obj.get? "zone_map" = some (.str s) ∧ hexEncode zm.data = (utf8Bytes s).map lowerCase

/-- -1, or the first index of the name. -/
def FirstIndex (name? : Option String) (names : List String) (idx : Int) : Prop :=
  (idx = -1 ∧ ∀ name ∈ name?, name ∉ names) ∨
    ∃ (name : String) (i : Nat), name? = some name ∧ idx = i ∧ names[i]? = some name ∧
      ∀ j < i, names[j]? ≠ some name

/-- What the scan relies on in the bind data of a manifest. -/
structure BindOk (root : Json) (bind : ManifestBindData) : Prop where
  lengths : ∀ n ∈ bind.arrayLengths, n = bind.allColNames.length
  columns_le : bind.allColNames.length ≤ 1024
  seqnums_nodup : bind.allColSeqnums.Nodup
  totalRows : bind.totalRows = (bind.objects.map (·.rows)).sum
  totalRows_lt : bind.totalRows < 2 ^ 64
  totalBlocks : bind.totalBlocks = (bind.objects.map (·.blocks)).sum
  totalBlocks_lt : bind.totalBlocks < 2 ^ 64
  zoneMaps : List.Forall₂ ZoneMapWritten (manifestObjects root) bind.objects
  sortColumn : FirstIndex (sortColumnName root) bind.allColNames bind.sortColumnIdx

/-- An index that one array's length guards is an index of all of them, and so is
    that of the sort column. -/
structure IndexesInRange (bind : ManifestBindData) : Prop where
  guarded : ∀ i, ∀ n ∈ bind.arrayLengths, i < n → ∀ m ∈ bind.arrayLengths, i < m
  sortColumn : 0 ≤ bind.sortColumnIdx → ∀ m ∈ bind.arrayLengths, bind.sortColumnIdx.toNat < m

section Arrays
variable {obj root : Json} {info : TAEObjectInfo} {bind : ManifestBindData} {names : List String}

/-- What is decoded is encoded as the same text in lower case. -/
theorem hexEncode_hexDecode {text : List Byte} (h : hexDecode text ≠ []) :
    hexEncode (hexDecode text) = text.map lowerCase := by
  rw [hexDecode] at h ⊢
  split at h
  · exact absurd rfl h
  · rw [if_neg ‹_›]
    cases hpairs : hexPairs text with
    | none =>
        rw [hpairs] at h
        exact absurd rfl h
    | some bytes => exact hexEncode_hexPairs hpairs

/-- A zone map is taken from the text of the manifest. -/
theorem zoneMapWritten_of_eq (h : info.sortKeyZm = manifestZoneMap (obj.get? "zone_map")) :
    ZoneMapWritten obj info := by
  intro zm hzm
  refine ⟨zm.length_eq, ?_⟩
  rw [h, manifestZoneMap] at hzm
  split at hzm
  · obtain ⟨s, hs⟩ := Json.any_isStr.mp ‹_›
    rw [hs] at hzm ⊢
    obtain ⟨hlen, hzm⟩ := Option.dite_none_right_eq_some.mp hzm
    obtain rfl := Option.some.inj hzm
    exact ⟨s, rfl, hexEncode_hexDecode (List.ne_nil_of_length_pos (hlen ▸ Nat.succ_pos 63))⟩
  · cases hzm

/-- A sum over the objects of a manifest does not overflow. -/
theorem total_exact {objects : List TAEObjectInfo} {f : TAEObjectInfo → Nat} (hf : ∀ o ∈ objects, f o < 2 ^ 32)
    (hlen : objects.length ≤ 2 ^ 26) :
    objects.foldl (fun total o => wrapAdd 64 total (f o)) 0 = (objects.map f).sum ∧
      (objects.map f).sum < 2 ^ 64 := by
  have hsum : (objects.map f).sum ≤ (objects.map f).length • 2 ^ 32 := by
    apply List.sum_le_card_nsmul
    intro n hn
    obtain ⟨o, ho, rfl⟩ := List.mem_map.mp hn
    exact Nat.le_of_lt (hf o ho)
  rw [List.length_map, Nat.nsmul_eq_mul] at hsum
  have hlt : (objects.map f).sum < 2 ^ 64 := by omega
  refine ⟨?_, hlt⟩
  rw [foldl_wrapAdd (by rwa [Nat.zero_add]), Nat.zero_add]

theorem firstIndex_of_eq {idx : Int}
    (h : idx = (sortColumnIndex root names).elim (-1) fun i => (i : Int)) :
    FirstIndex (sortColumnName root) names idx := by
  rw [sortColumnIndex] at h
  cases hname : sortColumnName root with
  | none =>
      rw [hname] at h
      exact .inl ⟨h, fun name hmem => by cases hmem⟩
  | some name =>
      rw [hname, Option.bind_some] at h
      cases hidx : names.idxOf? name with
      | none =>
          rw [hidx] at h
          refine .inl ⟨h, fun name' hmem => ?_⟩
          obtain rfl := Option.some.inj hmem
          exact List.idxOf?_eq_none_iff.mp hidx
      | some i =>
          rw [hidx] at h
          obtain ⟨hlt, hget, hbefore⟩ := List.idxOf?_eq_some_iff.mp hidx
          refine .inr ⟨name, i, rfl, h, List.getElem?_eq_some_iff.mpr ⟨hlt, hget⟩, fun j hj hjname => ?_⟩
          obtain ⟨_, hjget⟩ := List.getElem?_eq_some_iff.mp hjname
          exact hbefore j hj hjget

theorem BindOk.indexesInRange (h : BindOk root bind) : IndexesInRange bind := by
  constructor
  · intro i n hn hi m hm
    rw [h.lengths n hn] at hi
    rwa [h.lengths m hm]
  · intro hidx m hm
    rw [h.lengths m hm]
    rcases h.sortColumn with ⟨hnone, -⟩ | ⟨name, i, -, hi, hget, -⟩
    · omega
    · obtain ⟨hlt, -⟩ := List.getElem?_eq_some_iff.mp hget
      omega

/-- **Arrays.** -/
theorem parseManifestBytes_bindOk (reader : JsonReader) (json dataRoot : List Byte) (root : Json)
    (bind : ManifestBindData) (hread : reader.read json = some root)
    (h : parseManifestBytes reader json dataRoot .fresh = .ok bind) :
    BindOk root bind ∧ IndexesInRange bind := by
  suffices hok : BindOk root bind from ⟨hok, hok.indexesInRange⟩
  obtain ⟨hsize, root', cs, infos, hread', source⟩ := manifestSource h
  obtain rfl := Option.some.inj (hread.symm.trans hread')
  have hnames : bind.allColNames.length = cs.length := by
    rw [source.names]
    exact List.length_map _
  have hcolumns : (manifestColumns root).length = cs.length := source.columns.length_eq
  have hobjects : bind.objects = infos := source.objects
  have hcount : bind.objects.length ≤ 2 ^ 26 :=
    calc bind.objects.length
      _ = (manifestObjects root).length := by rw [hobjects, source.sources.length_eq]
      _ ≤ root.size := root.memberElements_length_le "objects"
      _ ≤ json.length := reader.size_le hread
      _ ≤ 2 ^ 26 := hsize
  have hinfo : ∀ o ∈ bind.objects, ∃ obj, ObjectSource dataRoot obj o := by
    intro o ho
    obtain ⟨i, hi⟩ := List.mem_iff_getElem?.mp (hobjects ▸ ho)
    obtain ⟨obj, -, hobj⟩ := getElem?_of_forall₂ source.sources hi
    exact ⟨obj, hobj⟩
  have hrows := total_exact (f := (·.rows)) (fun o ho => (hinfo o ho).choose_spec.rows.lt) hcount
  have hblocks := total_exact (f := (·.blocks)) (fun o ho => (hinfo o ho).choose_spec.blocks.lt) hcount
  constructor
  · intro n hn
    rw [hnames]
    simp only [ManifestBindData.arrayLengths, source.names, source.types, source.moOids, source.widths,
      source.scales, source.seqnums, ManifestBindData.fresh, List.nil_append, List.length_map] at hn
    simpa using hn
  · rw [hnames, ← hcolumns]
    exact source.columns_le
  · rw [source.seqnums]
    exact source.columns.seqnums_nodup List.nodup_nil
  · exact source.totalRows.trans hrows.1
  · exact (source.totalRows.trans hrows.1).trans_lt hrows.2
  · exact source.totalBlocks.trans hblocks.1
  · exact (source.totalBlocks.trans hblocks.1).trans_lt hblocks.2
  · rw [hobjects]
    exact source.sources.imp fun _ _ hsource => zoneMapWritten_of_eq hsource.zoneMap
  · exact firstIndex_of_eq source.sortColumn

theorem sampleManifest_bindOk : BindOk sampleManifest sampleBind ∧ IndexesInRange sampleBind :=
  parseManifestBytes_bindOk sampleReader sampleManifestText sampleDataRoot sampleManifest sampleBind
    sampleManifest_read sampleManifest_accepted

/-- The schema that the columns of a scan are resolved in. -/
theorem BindOk.schemaOk (h : BindOk root bind) : bind.SchemaOk where
  moOids_length := by
    rw [h.lengths bind.allColMoOids.length (by simp [ManifestBindData.arrayLengths]),
      h.lengths bind.allColSeqnums.length (by simp [ManifestBindData.arrayLengths])]
  seqnums_nodup := h.seqnums_nodup

/-- A guarded index has a type, an OID and a seqnum. -/
theorem BindOk.exists_column (h : BindOk root bind) {i n : Nat} (hn : n ∈ bind.arrayLengths) (hlt : i < n) :
    ∃ colType moOid seqnum, bind.allColTypes[i]? = some colType ∧ bind.allColMoOids[i]? = some moOid ∧
      bind.allColSeqnums[i]? = some seqnum := by
  have hall := h.indexesInRange.guarded i n hn hlt
  refine ⟨_, _, _, List.getElem?_eq_getElem (hall _ ?_), List.getElem?_eq_getElem (hall _ ?_),
    List.getElem?_eq_getElem (hall _ ?_)⟩ <;> simp [ManifestBindData.arrayLengths]

/-- A column to order by is found when its OID is. -/
theorem BindOk.orderColumn_isSome (h : BindOk root bind) {order : ScanOrderInfo}
    (hlt : order.columnIdx < bind.allColMoOids.length) : (bind.orderColumn? order).isSome := by
  obtain ⟨colType, moOid, seqnum, htype, hoid, hseqnum⟩ :=
    h.exists_column (by simp [ManifestBindData.arrayLengths]) hlt
  rw [TAEScanBindData.orderColumn?, hseqnum, hoid, htype]
  rfl

/-- The object pruning of Init takes the seqnum of the sort column. -/
theorem BindOk.sortSeqnum (h : BindOk root bind) (hidx : 0 ≤ bind.sortColumnIdx) :
    bind.allColSeqnums[bind.sortColumnIdx.toNat]? = some bind.sortSeqnum := by
  have hlt := h.indexesInRange.sortColumn hidx bind.allColSeqnums.length
    (by simp [ManifestBindData.arrayLengths])
  rw [TAEScanBindData.sortSeqnum, if_pos hidx, List.getElem?_eq_getElem hlt]
  rfl

end Arrays

end TaeScanner
