/-
  TaeScanner.Scan.ManifestSource

  What `ParseManifestBytes` takes from a manifest that it accepts.

    * each round of a loop is described by the members it reads (`ColumnSource`,
      `ObjectSource`), the loops by their rounds, and the parser by its loops
      (`ManifestSource`);
    * the bind data may hold columns and objects before the call.
-/

import TaeScanner.Scan.Manifest

namespace TaeScanner

open Lib

-- ============================================================================
-- Members
-- ============================================================================

section Members
variable {β : Type} {cond : Prop} [Decidable cond] {text : String} {v : Option Json} {missing stored : Int}

theorem throwIf_bind_eq_ok {g : Unit → Except String β} {y : β} :
    (throwIf cond text >>= g) = .ok y ↔ ¬cond ∧ g () = .ok y := by
  by_cases hcond : cond
  · rw [throwIf, if_pos hcond]
    constructor
    · intro h
      cases h
    · exact fun h => absurd hcond h.1
  · rw [throwIf, if_neg hcond]
    exact ⟨fun h => ⟨hcond, h⟩, fun h => h.2⟩

/-- An integer that may be missing, read with `yyjson_get_int`. -/
structure ReadsInt (v : Option Json) (missing stored : Int) : Prop where
  absent : v = none → stored = missing
  present : ∀ w, v = some w → ∃ n, w.int? = some n ∧ stored = w.getInt

/-- An integer without a sign that has to be there, read with `yyjson_get_uint`. -/
def ReadsUint (v : Option Json) (stored : Nat) : Prop :=
  ∃ n, v = some (.uint n) ∧ stored = n.toNat ∧ stored < 2 ^ 32

theorem ReadsUint.lt {stored : Nat} (h : ReadsUint v stored) : stored < 2 ^ 32 := h.choose_spec.2.2

theorem ReadsInt.of_any (h : v.any Json.isInt = true) : ReadsInt v missing (v.elim missing Json.getInt) := by
  obtain ⟨w, n, rfl, hn⟩ := Json.any_isInt.mp h
  constructor
  · intro habsent
    cases habsent
  · intro w' hw'
    obtain rfl := Option.some.inj hw'
    exact ⟨n, hn, rfl⟩

theorem ReadsInt.of_check (h : ¬(v.isSome = true ∧ ¬v.any Json.isInt = true)) :
    ReadsInt v missing (v.elim missing Json.getInt) := by
  cases v with
  | none => exact ⟨fun _ => rfl, fun w hw => by cases hw⟩
  | some w => exact ReadsInt.of_any (by_contra fun hint => h ⟨rfl, hint⟩)

theorem ReadsUint.of_check (hu : v.any Json.isUint = true) (hle : ¬2 ^ 32 - 1 < v.elim 0 Json.getUint) :
    ReadsUint v (v.elim 0 Json.getUint % 2 ^ 32) := by
  obtain ⟨n, rfl⟩ := Json.any_isUint.mp hu
  have hlt : n.toNat < 2 ^ 32 := by
    have hn : ¬2 ^ 32 - 1 < n.toNat := hle
    omega
  have hmod : n.toNat % 2 ^ 32 = n.toNat := Nat.mod_eq_of_lt hlt
  exact ⟨n, rfl, hmod, hmod.trans_lt hlt⟩

end Members

-- ============================================================================
-- Columns
-- ============================================================================

/-- What a round of the loop over `columns` takes from its element. -/
structure ColumnSource (seqnums : List Nat) (col : Json) (c : ManifestColumn) : Prop where
  name : ∃ s, col.get? "name" = some (.str s) ∧ s ≠ "" ∧ c.name = (Json.str s).getStr
  oid : (col.get? "oid").isSome ∧ ReadsInt (col.get? "oid") 0 (c.oid.toNat : Int)
  width : ReadsInt (col.get? "width") 0 c.width
  scale : ReadsInt (col.get? "scale") 0 c.scale
  seqnum : ReadsInt (col.get? "seqnum") (seqnums.length : Int) (c.seqnum : Int)
  seqnum_lt : c.seqnum < 2 ^ 16
  seqnum_fresh : c.seqnum ∉ seqnums
  type : moTypeToDuckDB { oid := c.oid, width := c.width, scale := c.scale } = .ok c.type

/-- The rounds of the loop over `columns`, each with the seqnums of those before. -/
inductive ReadsColumns : List Nat → List Json → List ManifestColumn → Prop
  | nil (seqnums : List Nat) : ReadsColumns seqnums [] []
  | cons {seqnums : List Nat} {col : Json} {c : ManifestColumn} {cols : List Json} {cs : List ManifestColumn}
      (source : ColumnSource seqnums col c) (rest : ReadsColumns (seqnums ++ [c.seqnum]) cols cs) :
      ReadsColumns seqnums (col :: cols) (c :: cs)

/-- The bind data after some rounds. -/
def ManifestBindData.appendColumns (bind : ManifestBindData) (cs : List ManifestColumn) : ManifestBindData :=
  { bind with
    allColNames := bind.allColNames ++ cs.map (·.name)
    allColMoOids := bind.allColMoOids ++ cs.map (·.oid)
    allColWidths := bind.allColWidths ++ cs.map (·.width)
    allColScales := bind.allColScales ++ cs.map (·.scale)
    allColSeqnums := bind.allColSeqnums ++ cs.map (·.seqnum)
    allColTypes := bind.allColTypes ++ cs.map (·.type) }

section Columns
variable {seqnums : List Nat} {col : Json} {cols : List Json} {c : ManifestColumn} {cs : List ManifestColumn}
variable {bind bind' : ManifestBindData}

theorem appendColumns_nil : bind.appendColumns [] = bind := by
  simp only [ManifestBindData.appendColumns, List.map_nil, List.append_nil]

theorem appendColumns_cons : bind.appendColumns (c :: cs) = (bind.pushColumn c).appendColumns cs := by
  simp only [ManifestBindData.appendColumns, ManifestBindData.pushColumn, List.map_cons, List.append_assoc,
    List.singleton_append]

/-- The step lemma of the loop over `columns`. -/
theorem columnSource (h : parseManifestColumn seqnums col = .ok c) : ColumnSource seqnums col c := by
  rw [parseManifestColumn, throwIf_bind_eq_ok] at h
  obtain ⟨hcol, h⟩ := h
  rw [throwIf_bind_eq_ok] at h
  obtain ⟨hws, h⟩ := h
  rw [throwIf_bind_eq_ok] at h
  obtain ⟨hq, h⟩ := h
  rw [throwIf_bind_eq_ok] at h
  obtain ⟨hseq, h⟩ := h
  obtain ⟨type, htype, h⟩ := bind_eq_ok.mp h
  obtain rfl := Except.ok.inj h
  simp only [not_or, not_not] at hcol hws hseq
  obtain ⟨-, hname, hne, hoid, hlo, hhi⟩ := hcol
  obtain ⟨s, hs⟩ := Json.any_isStr.mp hname
  have hoidVal : ReadsInt (col.get? "oid") 0 ((col.get? "oid").elim 0 Json.getInt) := ReadsInt.of_any hoid
  have hseqVal : ReadsInt (col.get? "seqnum") (seqnums.length : Int)
      ((col.get? "seqnum").elim (seqnums.length : Int) Json.getInt) := ReadsInt.of_check hq
  generalize (col.get? "oid").elim 0 Json.getInt = oid at *
  generalize (col.get? "seqnum").elim (seqnums.length : Int) Json.getInt = seq at *
  obtain ⟨hseqLo, hseqHi, hfresh⟩ := hseq
  have hoidNat : ((BitVec.ofInt 8 oid).toNat : Int) = oid := by
    rw [BitVec.toNat_ofInt]
    omega
  have hseqNat : ((seq.toNat % 2 ^ 16 : Nat) : Int) = seq := by omega
  constructor
  · refine ⟨s, hs, ?_, ?_⟩
    · rwa [hs] at hne
    · rw [hs]
      rfl
  · refine ⟨?_, ?_⟩
    · exact Option.isSome_of_any hoid
    · rwa [hoidNat]
  · exact ReadsInt.of_check hws.1
  · exact ReadsInt.of_check hws.2
  · rwa [hseqNat]
  · exact Nat.mod_lt _ (Nat.two_pow_pos 16)
  · intro hmem
    apply hfresh
    rw [List.any_eq_true]
    exact ⟨_, hmem, decide_eq_true hseqNat⟩
  · exact htype

/-- The loop over `columns` appends what its rounds have read. -/
theorem readsColumns (h : cols.foldlM addColumn bind = .ok bind') :
    ∃ cs, ReadsColumns bind.allColSeqnums cols cs ∧ bind' = bind.appendColumns cs := by
  induction cols generalizing bind with
  | nil =>
      obtain rfl := Except.ok.inj h
      exact ⟨[], .nil _, appendColumns_nil.symm⟩
  | cons col cols ih =>
      rw [List.foldlM_cons, bind_eq_ok] at h
      obtain ⟨bind₁, hcol, hrest⟩ := h
      obtain ⟨c, hc, rfl⟩ := map_eq_ok.mp hcol
      obtain ⟨cs, hcs, rfl⟩ := ih hrest
      exact ⟨c :: cs, .cons (columnSource hc) hcs, appendColumns_cons.symm⟩

theorem ReadsColumns.length_eq (h : ReadsColumns seqnums cols cs) : cols.length = cs.length := by
  induction h with
  | nil => rfl
  | cons _ _ ih => rw [List.length_cons, List.length_cons, ih]

/-- A new seqnum is none of those before it, be it written or counted. -/
theorem ReadsColumns.seqnums_nodup (h : ReadsColumns seqnums cols cs) (hnodup : seqnums.Nodup) :
    (seqnums ++ cs.map (·.seqnum)).Nodup := by
  induction h with
  | nil => rwa [List.map_nil, List.append_nil]
  | @cons seqnums col c cols cs source rest ih =>
      have hnext : (seqnums ++ [c.seqnum]).Nodup := by
        refine List.nodup_append.mpr ⟨hnodup, List.pairwise_singleton _ _, fun x hx y hy hxy => ?_⟩
        obtain rfl := List.mem_singleton.mp hy
        exact source.seqnum_fresh (hxy ▸ hx)
      have hall := ih hnext
      rwa [List.append_assoc] at hall

/-- What holds of each round holds of the columns in step. -/
theorem ReadsColumns.forall₂ {R : Json → ManifestColumn → Prop} (h : ReadsColumns seqnums cols cs)
    (hR : ∀ seqnums col c, ColumnSource seqnums col c → R col c) : List.Forall₂ R cols cs := by
  induction h with
  | nil => exact .nil
  | cons source _ ih => exact .cons (hR _ _ _ source) ih

/-- One of the arrays, against a property of the columns. -/
theorem ReadsColumns.stored_iff {β : Type} {f : ManifestColumn → β} {old new : List β}
    {K : Json → β → Prop} {P : Json → Prop} (h : ReadsColumns seqnums cols cs) (hnew : new = old ++ cs.map f)
    (hiff : ∀ seqnums col c, ColumnSource seqnums col c → (K col (f c) ↔ P col)) :
    List.Forall₂ K cols (new.drop old.length) ↔ ∀ col ∈ cols, P col := by
  rw [hnew, List.drop_left, List.forall₂_map_right_iff]
  exact forall₂_iff_of_forall₂ (h.forall₂ hiff) fun _ _ hKP => hKP

end Columns

-- ============================================================================
-- Objects
-- ============================================================================

/-- What a round of the loop over `objects` takes from its element. -/
structure ObjectSource (dataRoot : List Byte) (obj : Json) (info : TAEObjectInfo) : Prop where
  path : ∃ s, obj.get? "path" = some (.str s) ∧ info.filePath = (Json.str s).getStr
  safe : dataRoot ≠ [] → unsafeObjectPath (utf8Bytes info.filePath) = false
  rows : ReadsUint (obj.get? "rows") info.rows
  blocks : ReadsUint (obj.get? "blocks") info.blocks
  size : (obj.get? "size" = none ∧ info.sizeBytes = 0) ∨ ReadsUint (obj.get? "size") info.sizeBytes
  zoneMap : info.sortKeyZm = manifestZoneMap (obj.get? "zone_map")

/-- The step lemma of the loop over `objects`. -/
theorem objectSource {dataRoot : List Byte} {obj : Json} {info : TAEObjectInfo}
    (h : parseManifestObject dataRoot obj = .ok info) : ObjectSource dataRoot obj info := by
  rw [parseManifestObject, throwIf_bind_eq_ok] at h
  obtain ⟨hobj, h⟩ := h
  rw [throwIf_bind_eq_ok] at h
  obtain ⟨hpath, h⟩ := h
  rw [throwIf_bind_eq_ok] at h
  obtain ⟨hsize, h⟩ := h
  obtain rfl := Except.ok.inj h
  simp only [not_or, not_not] at hobj
  obtain ⟨-, hstr, hrows, hrowsLe, hblocks, hblocksLe⟩ := hobj
  obtain ⟨s, hs⟩ := Json.any_isStr.mp hstr
  constructor
  · refine ⟨s, hs, ?_⟩
    rw [hs]
    rfl
  · intro hroot
    exact Bool.eq_false_iff.mpr fun hunsafe => hpath ⟨hroot, hunsafe⟩
  · exact ReadsUint.of_check hrows hrowsLe
  · exact ReadsUint.of_check hblocks hblocksLe
  · cases hsz : obj.get? "size" with
    | none => exact .inl ⟨rfl, rfl⟩
    | some w =>
        rw [hsz] at hsize
        have hfits : ¬(¬(some w).any Json.isUint ∨ 2 ^ 32 - 1 < (some w).elim 0 Json.getUint) :=
          fun hout => hsize ⟨rfl, hout⟩
        rw [not_or, not_not] at hfits
        exact .inr (ReadsUint.of_check hfits.1 hfits.2)
  · rfl

-- ============================================================================
-- Manifests
-- ============================================================================

def manifestColumns (root : Json) : List Json := (root.get? "columns").elim [] Json.elements

def manifestObjects (root : Json) : List Json := (root.get? "objects").elim [] Json.elements

/-- The sort column that a manifest names. -/
def sortColumnName (root : Json) : Option String :=
  if (root.get? "sort_column").any Json.isStr then
    some ((root.get? "sort_column").elim "" Json.getStr)
  else none

/-- The position of the sort column, when there is one. -/
def sortColumnIndex (root : Json) (names : List String) : Option Nat :=
  (sortColumnName root).bind fun name => names.idxOf? name

/-- What an accepted manifest leaves in the bind data. -/
structure ManifestSource (dataRoot : List Byte) (root : Json) (before bind : ManifestBindData)
    (cs : List ManifestColumn) (infos : List TAEObjectInfo) : Prop where
  columns : ReadsColumns before.allColSeqnums (manifestColumns root) cs
  columns_le : (manifestColumns root).length ≤ 1024
  names : bind.allColNames = before.allColNames ++ cs.map (·.name)
  moOids : bind.allColMoOids = before.allColMoOids ++ cs.map (·.oid)
  widths : bind.allColWidths = before.allColWidths ++ cs.map (·.width)
  scales : bind.allColScales = before.allColScales ++ cs.map (·.scale)
  seqnums : bind.allColSeqnums = before.allColSeqnums ++ cs.map (·.seqnum)
  types : bind.allColTypes = before.allColTypes ++ cs.map (·.type)
  sources : List.Forall₂ (ObjectSource dataRoot) (manifestObjects root) infos
  objects : bind.objects = before.objects ++ infos
  dataDir : dataRoot ≠ [] → bind.dataDir = dataRoot
  totalRows : bind.totalRows = bind.objects.foldl (fun total o => wrapAdd 64 total o.rows) 0
  totalBlocks : bind.totalBlocks = bind.objects.foldl (fun total o => wrapAdd 64 total o.blocks) 0
  sortColumn : bind.sortColumnIdx =
    (sortColumnIndex root bind.allColNames).elim before.sortColumnIdx fun i => (i : Int)

section Manifests
variable {reader : JsonReader} {json dataRoot : List Byte} {root : Json} {empty : Bool}
variable {before bind bind' : ManifestBindData}

theorem bindIdentity_eq_ok (h : bindIdentity dataRoot root bind = .ok bind') :
    ∃ dbName tableName, bind' = { bind with dbName := dbName, tableName := tableName } := by
  rw [bindIdentity, throwIf_bind_eq_ok] at h
  obtain rfl := Except.ok.inj h.2
  exact ⟨_, _, rfl⟩

theorem bindDataDir_eq_ok (h : bindDataDir dataRoot root bind = .ok bind') :
    ∃ dataDir, bind' = { bind with dataDir := dataDir } ∧ (dataRoot ≠ [] → dataDir = dataRoot) := by
  rw [bindDataDir] at h
  by_cases hroot : dataRoot = []
  · rw [if_pos hroot] at h
    obtain rfl := Except.ok.inj h
    exact ⟨_, rfl, fun hne => absurd hroot hne⟩
  · rw [if_neg hroot, throwIf_bind_eq_ok] at h
    obtain rfl := Except.ok.inj h.2
    exact ⟨_, rfl, fun _ => rfl⟩

/-- A manifest without members has no columns and no objects. -/
theorem get?_of_no_members (h : root.members.isEmpty = true) (name : String) : root.get? name = none := by
  rw [Json.get?, List.isEmpty_iff.mp h]
  rfl

theorem bindColumns_eq_ok (hempty : empty = true → root.members.isEmpty = true)
    (h : bindColumns empty root bind = .ok bind') :
    (manifestColumns root).length ≤ 1024 ∧
      ∃ cs, ReadsColumns bind.allColSeqnums (manifestColumns root) cs ∧ bind' = bind.appendColumns cs := by
  rw [bindColumns, throwIf_bind_eq_ok] at h
  obtain ⟨hcheck, h⟩ := h
  cases empty with
  | true =>
      obtain rfl := Except.ok.inj h
      rw [manifestColumns, get?_of_no_members (hempty rfl)]
      exact ⟨Nat.zero_le _, [], .nil _, appendColumns_nil.symm⟩
  | false =>
      have hle : ¬1024 < (manifestColumns root).length := fun hgt => hcheck ⟨Bool.false_ne_true, .inr hgt⟩
      exact ⟨Nat.le_of_not_lt hle, readsColumns h⟩

theorem bindObjects_eq_ok (hempty : empty = true → root.members.isEmpty = true)
    (h : bindObjects empty dataRoot root bind = .ok bind') :
    ∃ infos, List.Forall₂ (ObjectSource dataRoot) (manifestObjects root) infos ∧
      bind' = { bind with objects := bind.objects ++ infos } := by
  rw [bindObjects, throwIf_bind_eq_ok] at h
  obtain ⟨-, h⟩ := h
  cases empty with
  | true =>
      obtain rfl := Except.ok.inj h
      rw [manifestObjects, get?_of_no_members (hempty rfl)]
      exact ⟨[], .nil, by rw [List.append_nil]⟩
  | false =>
      obtain ⟨infos, hinfos, h⟩ := bind_eq_ok.mp h
      obtain rfl := Except.ok.inj h
      exact ⟨infos, (mapM_eq_ok.mp hinfos).imp fun _ _ => objectSource, rfl⟩

theorem bindSortColumn_eq : bindSortColumn root bind =
    { bind with sortColumnIdx :=
        (sortColumnIndex root bind.allColNames).elim bind.sortColumnIdx fun i => (i : Int) } := by
  rw [bindSortColumn, sortColumnIndex, sortColumnName]
  split
  · rw [Option.bind_some]
    cases bind.allColNames.idxOf? ((root.get? "sort_column").elim "" Json.getStr) <;> rfl
  · rfl

/-- What the parser accepts, and what it stores of it. -/
theorem manifestSource (h : parseManifestBytes reader json dataRoot before = .ok bind) :
    json.length ≤ 2 ^ 26 ∧ ∃ root cs infos, reader.read json = some root ∧
      ManifestSource dataRoot root before bind cs infos := by
  rw [parseManifestBytes, throwIf_bind_eq_ok] at h
  obtain ⟨hsize, h⟩ := h
  rw [not_or, Nat.not_lt] at hsize
  refine ⟨hsize.2, ?_⟩
  cases hread : reader.read json with
  | none =>
      rw [hread] at h
      cases h
  | some root =>
      rw [hread] at h
      obtain ⟨-, h⟩ := throwIf_bind_eq_ok.mp h
      obtain ⟨bind₁, hidentity, h⟩ := bind_eq_ok.mp h
      obtain ⟨bind₂, hdir, h⟩ := bind_eq_ok.mp h
      obtain ⟨bind₃, hcolumns, h⟩ := bind_eq_ok.mp h
      obtain ⟨bind₄, hobjects, h⟩ := bind_eq_ok.mp h
      obtain ⟨dbName, tableName, rfl⟩ := bindIdentity_eq_ok hidentity
      obtain ⟨dataDir, rfl, hdataDir⟩ := bindDataDir_eq_ok hdir
      have hempty : (decide (dataRoot = []) && root.members.isEmpty) = true → root.members.isEmpty = true :=
        fun hand => (Bool.and_eq_true_iff.mp hand).2
      obtain ⟨hle, cs, hcs, rfl⟩ := bindColumns_eq_ok hempty hcolumns
      obtain ⟨infos, hinfos, rfl⟩ := bindObjects_eq_ok hempty hobjects
      rw [bindSortColumn_eq] at h
      obtain rfl := Except.ok.inj h
      exact ⟨root, cs, infos, rfl, hcs, hle, rfl, rfl, rfl, rfl, rfl, rfl, hinfos, rfl, hdataDir, rfl, rfl, rfl⟩

end Manifests

end TaeScanner
