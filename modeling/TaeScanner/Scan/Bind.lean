/-
  TaeScanner.Scan.Bind

  `TAEScanBind`: from the path and the bytes of a manifest to the bind data and the
  columns of the table.

    * the file is read by DuckDB's file system; its bytes are a parameter;
    * there is no authoritative root: the manifest's `data_dir` is taken as it is,
      and missing it, the objects are looked for beside the manifest;
    * a URL has no parent path, so a manifest behind one names its directory.
-/

import Mathlib.Data.List.DropRight
import TaeScanner.Scan.ManifestGrammar

namespace TaeScanner

open Lib

/-- The bind data, and the columns that are returned to DuckDB. -/
structure BoundTable where
  bindData : ManifestBindData
  names : List String
  returnTypes : List LogicalType

/-- `ParseManifest`, of the bytes of the file. -/
def parseManifest (reader : JsonReader) (file : List Byte) (bind : ManifestBindData) :
    Except String ManifestBindData := do
  throwIf (64 <<< 20 < file.length) "tae_scan: manifest exceeds limit"
  parseManifestBytes reader file [] bind

/-- Does the path start with `http://` or `https://`? -/
def isHttpPath (path : List Byte) : Bool :=
  (utf8Bytes "http://").isPrefixOf path || (utf8Bytes "https://").isPrefixOf path

/-- `std::filesystem::path(path).parent_path()`: the path without its last name and the
    separators before that.  A name under the root leaves the root, one separator however
    many stand there, and a path without a name stays as it is. -/
def parentPath (path : List Byte) : List Byte :=
  let dir := path.rdropWhile (· != pathSep)
  if path.all (· == pathSep) then path
  else if dir.all (· == pathSep) then dir.take 1
  else dir.rdropWhile (· == pathSep)

/-- `TAEScanBind`. -/
def taeScanBind (reader : JsonReader) (manifestPath file : List Byte) : Except String BoundTable := do
  let bind ← parseManifest reader file .fresh
  throwIf (bind.dataDir = [] ∧ isHttpPath manifestPath)
    "tae_scan: HTTP manifest must contain 'data_dir' field"
  let bind := { bind with dataDir := if bind.dataDir = [] then parentPath manifestPath else bind.dataDir }
  .ok ⟨bind, bind.allColNames, bind.allColTypes⟩

section ParentPath
variable {dir name : List Byte}

/-- What is left without the name ends with the separator before it. -/
theorem rdropWhile_name (dir : List Byte) (hname : pathSep ∉ name) :
    (dir ++ pathSep :: name).rdropWhile (· != pathSep) = dir ++ [pathSep] := by
  rw [List.append_cons]
  induction name using List.reverseRecOn with
  | nil =>
      rw [List.append_nil]
      exact List.rdropWhile_concat_neg _ _ _ (by simp)
  | append_singleton name b ih =>
      obtain ⟨hrest, hb⟩ : pathSep ∉ name ∧ pathSep ≠ b := by simpa using hname
      rw [← List.append_assoc, List.rdropWhile_concat_pos (· != pathSep) _ b (bne_iff_ne.mpr hb.symm)]
      exact ih hrest

/-- The parent path of a name in a directory is the directory. -/
theorem parentPath_append {last : Byte} (hdir : dir.getLast? = some last) (hlast : last ≠ pathSep)
    (hname : pathSep ∉ name) : parentPath (dir ++ pathSep :: name) = dir := by
  obtain ⟨front, rfl⟩ := List.getLast?_eq_some_iff.mp hdir
  have hdrop := rdropWhile_name (front ++ [last]) hname
  have hnamed : (front ++ [last] ++ pathSep :: name).all (· == pathSep) = false := by
    simp [hlast]
  have hnotRoot : (front ++ [last] ++ [pathSep]).all (· == pathSep) = false := by
    simp [hlast]
  simp only [parentPath, hdrop, hnamed, hnotRoot, Bool.false_eq_true, if_false]
  rw [List.rdropWhile_concat_pos (· == pathSep) _ pathSep (beq_self_eq_true pathSep)]
  exact List.rdropWhile_concat_neg _ _ _ (by simpa using hlast)

/-- The parent path of a name under the root is the root. -/
theorem parentPath_root (n : Nat) (hne : name ≠ []) (hname : pathSep ∉ name) :
    parentPath (List.replicate n pathSep ++ pathSep :: name) = [pathSep] := by
  have hdrop := rdropWhile_name (List.replicate n pathSep) hname
  have hnamed : (List.replicate n pathSep ++ pathSep :: name).all (· == pathSep) = false := by
    obtain ⟨b, rest, rfl⟩ := List.exists_cons_of_ne_nil hne
    have hb : b ≠ pathSep := fun h => hname (h ▸ List.mem_cons_self)
    simp [hb]
  have hroot : (List.replicate n pathSep ++ [pathSep]).all (· == pathSep) = true := by
    simp
  simp only [parentPath, hdrop, hnamed, hroot, Bool.false_eq_true, if_false, if_true]
  rw [← List.replicate_succ', List.replicate_succ, List.take_succ_cons, List.take_zero]

end ParentPath

section Bind
variable {reader : JsonReader} {file : List Byte}

/-- The size of the file is tested twice, to the same limit. -/
theorem parseManifest_eq_ok_iff {before bind : ManifestBindData} :
    parseManifest reader file before = .ok bind ↔ parseManifestBytes reader file [] before = .ok bind := by
  rw [parseManifest, throwIf_bind_eq_ok]
  constructor
  · exact fun h => h.2
  · intro h
    obtain ⟨-, hle, -⟩ := grammar_of_accepted h
    exact ⟨Nat.not_lt.mpr hle, h⟩

/-- **What Bind accepts.**  The bytes of a file bind a table iff a manifest of the form
    is read from them, which names its data directory when it lies behind a URL.  The
    columns that are returned are those of the manifest, in its order, and the objects
    are looked for in the directory it names, or beside it. -/
theorem taeScanBind_eq_ok_iff (reader : JsonReader) (manifestPath file : List Byte) (table : BoundTable) :
    taeScanBind reader manifestPath file = .ok table ↔ file ≠ [] ∧ file.length ≤ 2 ^ 26 ∧
      ∃ root cs infos bind, reader.read file = some root ∧ ManifestGrammar [] root .fresh bind cs infos ∧
        (isHttpPath manifestPath = true → namedDataDir root [] ≠ []) ∧
        table.bindData = { bind with
          dataDir := if namedDataDir root [] = [] then parentPath manifestPath else namedDataDir root [] } ∧
        table.names = cs.map (·.name) ∧ table.returnTypes = cs.map (·.type) := by
  rw [taeScanBind, bind_eq_ok]
  simp only [parseManifest_eq_ok_iff]
  -- the data directory and the columns are those of the form
  have hform : ∀ {root bind cs infos}, ManifestGrammar [] root .fresh bind cs infos →
      bind.dataDir = namedDataDir root [] ∧ bind.allColNames = cs.map (·.name) ∧
        bind.allColTypes = cs.map (·.type) := by
    intro root bind cs infos h
    refine ⟨h.dataDir.legacy rfl, ?_, ?_⟩
    · rw [h.stored, bindSortColumn_eq]
      exact List.nil_append _
    · rw [h.stored, bindSortColumn_eq]
      exact List.nil_append _
  constructor
  · rintro ⟨bind, hparse, hrest⟩
    obtain ⟨hhttp, htable⟩ := throwIf_bind_eq_ok.mp hrest
    obtain rfl := Except.ok.inj htable
    obtain ⟨hne, hle, root, cs, infos, hread, h⟩ := grammar_of_accepted hparse
    obtain ⟨hdir, hnames, htypes⟩ := hform h
    rw [hdir] at hhttp ⊢
    exact ⟨hne, hle, root, cs, infos, bind, hread, h, fun hurl hnil => hhttp ⟨hnil, hurl⟩, rfl, hnames, htypes⟩
  · rintro ⟨hne, hle, root, cs, infos, bind, hread, h, hhttp, hbind, hnames, htypes⟩
    obtain ⟨hdir, hbindNames, hbindTypes⟩ := hform h
    refine ⟨bind, h.accepted hne hle hread, throwIf_bind_eq_ok.mpr ⟨?_, ?_⟩⟩
    · rw [hdir]
      exact fun hand => hhttp hand.2 hand.1
    · rw [hdir, ← hbind, hbindNames, hbindTypes, ← hnames, ← htypes]

end Bind

/-- A manifest in a subdirectory, at the root, and without a directory. -/
example : parentPath (utf8Bytes "a/b//m.json") = utf8Bytes "a/b" ∧
    parentPath (utf8Bytes "//m.json") = utf8Bytes "/" ∧ parentPath (utf8Bytes "m.json") = [] := by decide +kernel

end TaeScanner
