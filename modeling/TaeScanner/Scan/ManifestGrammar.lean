/-
  TaeScanner.Scan.ManifestGrammar

  Which manifests `ParseManifestBytes` accepts.

    * `ManifestSource` says what is taken from an accepted manifest; here each round,
      each loop and the whole parser accept whatever has that form;
    * a legacy manifest, without an authoritative root, may be the empty object;
    * so the form of the members decides about a document, and with it what the
      bind data become.
-/

import TaeScanner.Scan.ManifestSource

namespace TaeScanner

open Lib

-- ============================================================================
-- Members
-- ============================================================================

section Members
variable {v : Option Json} {missing stored : Int}

theorem ReadsInt.elim_eq (h : ReadsInt v missing stored) : v.elim missing Json.getInt = stored := by
  cases v with
  | none => exact (h.absent rfl).symm
  | some w =>
      obtain ⟨n, -, hstored⟩ := h.present w rfl
      exact hstored.symm

theorem ReadsInt.any_isInt (h : ReadsInt v missing stored) (hsome : v.isSome = true) :
    v.any Json.isInt = true := by
  obtain ⟨w, rfl⟩ := Option.isSome_iff_exists.mp hsome
  obtain ⟨n, hn, -⟩ := h.present w rfl
  exact Json.any_isInt.mpr ⟨w, n, rfl, hn⟩

/-- The test on an integer that may be missing. -/
theorem ReadsInt.check (h : ReadsInt v missing stored) : ¬(v.isSome = true ∧ ¬v.any Json.isInt = true) :=
  fun hbad => hbad.2 (h.any_isInt hbad.1)

theorem ReadsUint.any_isUint {stored : Nat} (h : ReadsUint v stored) : v.any Json.isUint = true := by
  obtain ⟨n, hn, -⟩ := h
  exact Json.any_isUint.mpr ⟨n, hn⟩

theorem ReadsUint.elim_eq {stored : Nat} (h : ReadsUint v stored) : v.elim 0 Json.getUint = stored := by
  obtain ⟨n, rfl, hn, -⟩ := h
  exact hn.symm

/-- Only an object has members. -/
theorem Json.isObj_of_get? {root : Json} {name : String} {w : Json} (h : root.get? name = some w) :
    root.isObj = true := by
  cases root with
  | obj members => rfl
  | _ => cases h

end Members

-- ============================================================================
-- Rounds
-- ============================================================================

section Rounds
variable {seqnums : List Nat} {col : Json} {c : ManifestColumn} {dataRoot : List Byte} {obj : Json}
  {info : TAEObjectInfo}

/-- A round of the loop over `columns` accepts exactly the columns of the form. -/
theorem parseManifestColumn_eq_ok_iff :
    parseManifestColumn seqnums col = .ok c ↔ ColumnSource seqnums col c := by
  refine ⟨columnSource, fun h => ?_⟩
  obtain ⟨⟨s, hs, hne, hname⟩, ⟨hoidSome, hoid⟩, hwidth, hscale, hseqnum, hlt, hfresh, htype⟩ := h
  have hoidEq := hoid.elim_eq
  have hseqEq := hseqnum.elim_eq
  have hoidLt := c.oid.isLt
  rw [parseManifestColumn, throwIf_bind_eq_ok]
  constructor
  · simp only [not_or, not_not]
    refine ⟨Json.isObj_of_get? hs, Json.any_isStr.mpr ⟨s, hs⟩, ?_, hoid.any_isInt hoidSome, ?_, ?_⟩
    · rw [hs]
      exact hne
    · omega
    · omega
  rw [throwIf_bind_eq_ok]
  refine ⟨not_or.mpr ⟨hwidth.check, hscale.check⟩, ?_⟩
  rw [throwIf_bind_eq_ok]
  refine ⟨hseqnum.check, ?_⟩
  rw [throwIf_bind_eq_ok]
  constructor
  · rw [hseqEq]
    simp only [not_or, Int.not_lt, Bool.not_eq_true]
    refine ⟨by omega, by omega, List.any_eq_false.mpr fun x hx heq => ?_⟩
    have hsame : x = c.seqnum := Int.ofNat_inj.mp (of_decide_eq_true heq)
    exact hfresh (hsame ▸ hx)
  · have hoidByte : BitVec.ofInt 8 (c.oid.toNat : Int) = c.oid := by
      rw [BitVec.ofInt_natCast, BitVec.ofNat_toNat, BitVec.setWidth_eq]
    apply bind_eq_ok.mpr
    refine ⟨c.type, ?_, ?_⟩
    · rw [hoidEq, hwidth.elim_eq, hscale.elim_eq, hoidByte]
      exact htype
    · rw [hoidEq, hwidth.elim_eq, hscale.elim_eq, hseqEq, hoidByte, Int.toNat_natCast, Nat.mod_eq_of_lt hlt, hs,
        Option.elim_some, ← hname]

/-- A round of the loop over `objects` accepts exactly the objects of the form. -/
theorem parseManifestObject_eq_ok_iff :
    parseManifestObject dataRoot obj = .ok info ↔ ObjectSource dataRoot obj info := by
  refine ⟨objectSource, fun h => ?_⟩
  obtain ⟨⟨s, hs, hpath⟩, hsafe, hrows, hblocks, hsize, hzm⟩ := h
  have hrowsLt := hrows.lt
  have hblocksLt := hblocks.lt
  rw [parseManifestObject, throwIf_bind_eq_ok]
  constructor
  · simp only [not_or, not_not, Nat.not_lt]
    refine ⟨Json.isObj_of_get? hs, Json.any_isStr.mpr ⟨s, hs⟩, hrows.any_isUint, ?_, hblocks.any_isUint, ?_⟩
    · rw [hrows.elim_eq]
      exact Nat.le_sub_one_of_lt hrowsLt
    · rw [hblocks.elim_eq]
      exact Nat.le_sub_one_of_lt hblocksLt
  rw [throwIf_bind_eq_ok]
  constructor
  · rintro ⟨hroot, hunsafe⟩
    rw [hs, Option.elim_some, ← hpath, hsafe hroot] at hunsafe
    cases hunsafe
  rw [throwIf_bind_eq_ok]
  constructor
  · rintro ⟨hsome, hbad⟩
    rcases hsize with ⟨hnone, -⟩ | huint
    · rw [hnone] at hsome
      cases hsome
    · rcases hbad with hnot | hbig
      · exact hnot huint.any_isUint
      · have hle := huint.lt
        rw [huint.elim_eq] at hbig
        omega
  · -- the size of an object is the last member that is read
    have hsizeEq : ((obj.get? "size").elim 0 fun v => v.getUint % 2 ^ 32) = info.sizeBytes := by
      rcases hsize with ⟨hnone, hzero⟩ | ⟨n, hn, hstored, hlt⟩
      · rw [hnone, hzero]
        rfl
      · rw [hn, Option.elim_some, Json.getUint, ← hstored, Nat.mod_eq_of_lt hlt]
    rw [hs, Option.elim_some, ← hpath, hrows.elim_eq, hblocks.elim_eq, Nat.mod_eq_of_lt hrowsLt,
      Nat.mod_eq_of_lt hblocksLt, hsizeEq, ← hzm]

end Rounds

-- ============================================================================
-- Loops
-- ============================================================================

section Loops
variable {seqnums : List Nat} {cols : List Json} {cs : List ManifestColumn} {bind bind' : ManifestBindData}

/-- The loop over `columns` accepts the columns of the form. -/
theorem ReadsColumns.foldlM_eq_ok (h : ReadsColumns seqnums cols cs) (hseqnums : bind.allColSeqnums = seqnums) :
    cols.foldlM addColumn bind = .ok (bind.appendColumns cs) := by
  induction h generalizing bind with
  | nil => rw [List.foldlM_nil, appendColumns_nil]; rfl
  | @cons seqnums col c cols cs source rest ih =>
      have hround : addColumn bind col = .ok (bind.pushColumn c) := by
        rw [addColumn, hseqnums, parseManifestColumn_eq_ok_iff.mpr source]
        rfl
      have hnext : (bind.pushColumn c).allColSeqnums = seqnums ++ [c.seqnum] := by
        rw [← hseqnums]
        rfl
      rw [List.foldlM_cons, hround, appendColumns_cons]
      exact ih hnext

/-- The loop over `columns`, exactly. -/
theorem foldlM_addColumn_eq_ok_iff : cols.foldlM addColumn bind = .ok bind' ↔
    ∃ cs, ReadsColumns bind.allColSeqnums cols cs ∧ bind' = bind.appendColumns cs := by
  refine ⟨readsColumns, ?_⟩
  rintro ⟨cs, hcs, rfl⟩
  exact hcs.foldlM_eq_ok rfl

end Loops

-- ============================================================================
-- Manifests
-- ============================================================================

/-- Without an authoritative root the empty object is a manifest. -/
def LegacyEmpty (dataRoot : List Byte) (root : Json) : Prop := dataRoot = [] ∧ root.members = []

/-- The name of the database or of the table. -/
structure NameSource (required : Prop) (v : Option Json) (before after : String) : Prop where
  absent : v = none → ¬required ∧ after = before
  present : ∀ w, v = some w → ∃ s, w = .str s ∧ after = w.getStr

/-- The data directory that the manifest names, or what was there before. -/
def namedDataDir (root : Json) (before : List Byte) : List Byte :=
  if (root.get? "data_dir").any Json.isStr then utf8Bytes ((root.get? "data_dir").elim "" Json.getStr) else before

/-- An authoritative root is the data directory, and a manifest that names one agrees. -/
structure DirSource (dataRoot : List Byte) (root : Json) (before after : List Byte) : Prop where
  legacy : dataRoot = [] → after = namedDataDir root before
  agrees : dataRoot ≠ [] → after = dataRoot ∧ (namedDataDir root before = [] ∨ namedDataDir root before = dataRoot)

/-- The form of a manifest, and the bind data it stands for. -/
structure ManifestGrammar (dataRoot : List Byte) (root : Json) (before bind : ManifestBindData)
    (cs : List ManifestColumn) (infos : List TAEObjectInfo) : Prop where
  isObj : root.isObj = true
  database : NameSource (dataRoot ≠ []) (root.get? "database") before.dbName bind.dbName
  table : NameSource (dataRoot ≠ []) (root.get? "table") before.tableName bind.tableName
  dataDir : DirSource dataRoot root before.dataDir bind.dataDir
  columnsArr : ¬LegacyEmpty dataRoot root → (root.get? "columns").any Json.isArr = true
  objectsArr : ¬LegacyEmpty dataRoot root → (root.get? "objects").any Json.isArr = true
  columns_le : (manifestColumns root).length ≤ 1024
  columns : ReadsColumns before.allColSeqnums (manifestColumns root) cs
  objects : List.Forall₂ (ObjectSource dataRoot) (manifestObjects root) infos
  stored : bind = bindSortColumn root (bindTotals
    { before.appendColumns cs with
      dbName := bind.dbName
      tableName := bind.tableName
      dataDir := bind.dataDir
      objects := before.objects ++ infos })

section Manifests
variable {dataRoot : List Byte} {root : Json} {empty : Bool} {before bind bind' : ManifestBindData}

/-- The tests on a name: it is a string, and there if it has to be. -/
theorem nameSource_iff {required : Prop} {v : Option Json} {old new : String} :
    NameSource required v old new ↔ (v.isSome = true → v.any Json.isStr = true) ∧
      (required → v.any Json.isStr = true) ∧ new = v.elim old Json.getStr := by
  cases v with
  | none =>
      constructor
      · intro h
        obtain ⟨hnot, hnew⟩ := h.absent rfl
        exact ⟨nofun, fun hreq => absurd hreq hnot, hnew⟩
      · rintro ⟨-, hreq, rfl⟩
        exact ⟨fun _ => ⟨fun hr => Bool.false_ne_true (hreq hr), rfl⟩, nofun⟩
  | some w =>
      constructor
      · intro h
        obtain ⟨s, hs, hnew⟩ := h.present w rfl
        have hstr : (some w).any Json.isStr = true := Json.any_isStr.mpr ⟨s, congrArg some hs⟩
        exact ⟨fun _ => hstr, fun _ => hstr, hnew⟩
      · rintro ⟨hstr, -, rfl⟩
        obtain ⟨s, hs⟩ := Json.any_isStr.mp (hstr rfl)
        obtain rfl := Option.some.inj hs
        refine ⟨nofun, fun w' hw' => ⟨s, ?_, ?_⟩⟩
        · exact (Option.some.inj hw').symm
        · rw [← Option.some.inj hw']
          rfl

theorem bindIdentity_eq_ok_iff : bindIdentity dataRoot root bind = .ok bind' ↔
    ∃ dbName tableName, NameSource (dataRoot ≠ []) (root.get? "database") bind.dbName dbName ∧
      NameSource (dataRoot ≠ []) (root.get? "table") bind.tableName tableName ∧
      bind' = { bind with dbName := dbName, tableName := tableName } := by
  rw [bindIdentity, throwIf_bind_eq_ok]
  simp only [nameSource_iff]
  constructor
  · rintro ⟨hcheck, h⟩
    obtain rfl := Except.ok.inj h
    refine ⟨_, _, ⟨fun hsome => ?_, fun hroot => ?_, rfl⟩, ⟨fun hsome => ?_, fun hroot => ?_, rfl⟩, rfl⟩
    · exact by_contra fun hnot => hcheck (.inl ⟨hsome, hnot⟩)
    · exact by_contra fun hnot => hcheck (.inr (.inr ⟨hroot, .inl hnot⟩))
    · exact by_contra fun hnot => hcheck (.inr (.inl ⟨hsome, hnot⟩))
    · exact by_contra fun hnot => hcheck (.inr (.inr ⟨hroot, .inr hnot⟩))
  · rintro ⟨dbName, tableName, ⟨hdb, hdbReq, rfl⟩, ⟨htbl, htblReq, rfl⟩, rfl⟩
    refine ⟨?_, rfl⟩
    rintro (⟨hsome, hnot⟩ | ⟨hsome, hnot⟩ | ⟨hroot, hnot | hnot⟩)
    · exact hnot (hdb hsome)
    · exact hnot (htbl hsome)
    · exact hnot (hdbReq hroot)
    · exact hnot (htblReq hroot)

theorem bindDataDir_eq_ok_iff : bindDataDir dataRoot root bind = .ok bind' ↔
    ∃ dataDir, DirSource dataRoot root bind.dataDir dataDir ∧ bind' = { bind with dataDir := dataDir } := by
  have hnamed : (if (root.get? "data_dir").any Json.isStr then
      utf8Bytes ((root.get? "data_dir").elim "" Json.getStr) else bind.dataDir) = namedDataDir root bind.dataDir := rfl
  simp only [bindDataDir, hnamed]
  by_cases hroot : dataRoot = []
  · rw [if_pos hroot]
    constructor
    · intro h
      obtain rfl := Except.ok.inj h
      exact ⟨_, ⟨fun _ => rfl, fun hne => absurd hroot hne⟩, rfl⟩
    · rintro ⟨dataDir, hdir, rfl⟩
      rw [hdir.legacy hroot]
  · rw [if_neg hroot, throwIf_bind_eq_ok]
    constructor
    · rintro ⟨hagrees, h⟩
      obtain rfl := Except.ok.inj h
      refine ⟨_, ⟨fun hnil => absurd hnil hroot, fun _ => ⟨rfl, ?_⟩⟩, rfl⟩
      rwa [not_and_or, not_not, not_not] at hagrees
    · rintro ⟨dataDir, hdir, rfl⟩
      obtain ⟨rfl, hagrees⟩ := hdir.agrees hroot
      refine ⟨?_, rfl⟩
      rwa [not_and_or, not_not, not_not]

theorem bindColumns_eq_ok_iff (hempty : empty = true ↔ LegacyEmpty dataRoot root) :
    bindColumns empty root bind = .ok bind' ↔
      (¬LegacyEmpty dataRoot root → (root.get? "columns").any Json.isArr = true) ∧
      (manifestColumns root).length ≤ 1024 ∧
      ∃ cs, ReadsColumns bind.allColSeqnums (manifestColumns root) cs ∧ bind' = bind.appendColumns cs := by
  rw [bindColumns, throwIf_bind_eq_ok, ← hempty]
  show ¬(¬empty = true ∧ (¬_ ∨ 1024 < (manifestColumns root).length)) ∧
    (if empty = true then .ok bind else (manifestColumns root).foldlM addColumn bind) = .ok bind' ↔ _
  cases empty with
  | true =>
      have hnone : manifestColumns root = [] := by
        rw [manifestColumns, get?_of_no_members (List.isEmpty_iff.mpr (hempty.mp rfl).2)]
        rfl
      rw [if_pos rfl, hnone]
      constructor
      · rintro ⟨-, h⟩
        obtain rfl := Except.ok.inj h
        exact ⟨fun hnot => absurd rfl hnot, Nat.zero_le _, [], .nil _, appendColumns_nil.symm⟩
      · rintro ⟨-, -, cs, hcs, rfl⟩
        cases hcs
        rw [appendColumns_nil]
        exact ⟨fun hand => hand.1 rfl, rfl⟩
  | false =>
      rw [if_neg Bool.false_ne_true, foldlM_addColumn_eq_ok_iff, ← and_assoc]
      apply and_congr_left'
      simp only [Bool.false_eq_true, not_false_eq_true, true_and, not_or, not_not, Nat.not_lt, forall_const]

theorem bindObjects_eq_ok_iff (hempty : empty = true ↔ LegacyEmpty dataRoot root) :
    bindObjects empty dataRoot root bind = .ok bind' ↔
      (¬LegacyEmpty dataRoot root → (root.get? "objects").any Json.isArr = true) ∧
      ∃ infos, List.Forall₂ (ObjectSource dataRoot) (manifestObjects root) infos ∧
        bind' = { bind with objects := bind.objects ++ infos } := by
  rw [bindObjects, throwIf_bind_eq_ok, ← hempty]
  show ¬(¬empty = true ∧ ¬_) ∧ (if empty = true then .ok bind else
    ((manifestObjects root).mapM (parseManifestObject dataRoot) >>= fun infos =>
      .ok { bind with objects := bind.objects ++ infos })) = .ok bind' ↔ _
  cases empty with
  | true =>
      have hnone : manifestObjects root = [] := by
        rw [manifestObjects, get?_of_no_members (List.isEmpty_iff.mpr (hempty.mp rfl).2)]
        rfl
      rw [if_pos rfl, hnone]
      constructor
      · rintro ⟨-, h⟩
        obtain rfl := Except.ok.inj h
        exact ⟨fun hnot => absurd rfl hnot, [], .nil, by rw [List.append_nil]⟩
      · rintro ⟨-, infos, hinfos, rfl⟩
        cases hinfos
        rw [List.append_nil]
        exact ⟨fun hand => hand.1 rfl, rfl⟩
  | false =>
      rw [if_neg Bool.false_ne_true, bind_eq_ok]
      simp only [Bool.false_eq_true, not_false_eq_true, true_and, not_not, forall_const, mapM_eq_ok,
        parseManifestObject_eq_ok_iff, Except.ok.injEq, eq_comm (b := bind')]

section Parser
variable {reader : JsonReader} {json : List Byte} {cs : List ManifestColumn} {infos : List TAEObjectInfo}

theorem legacyEmpty_iff :
    (decide (dataRoot = []) && root.members.isEmpty) = true ↔ LegacyEmpty dataRoot root := by
  rw [Bool.and_eq_true, decide_eq_true_eq, List.isEmpty_iff]
  rfl

/-- An accepted manifest has the form. -/
theorem grammar_of_accepted (h : parseManifestBytes reader json dataRoot before = .ok bind) :
    json ≠ [] ∧ json.length ≤ 2 ^ 26 ∧ ∃ root cs infos, reader.read json = some root ∧
      ManifestGrammar dataRoot root before bind cs infos := by
  obtain ⟨-, root, -, -, hread, -⟩ := manifestSource h
  rw [parseManifestBytes, throwIf_bind_eq_ok, hread, not_or, Nat.not_lt] at h
  obtain ⟨⟨hne, hle⟩, h⟩ := h
  obtain ⟨hobj, h⟩ := throwIf_bind_eq_ok.mp h
  obtain ⟨bind₁, hidentity, h⟩ := bind_eq_ok.mp h
  obtain ⟨bind₂, hdir, h⟩ := bind_eq_ok.mp h
  obtain ⟨bind₃, hcolumns, h⟩ := bind_eq_ok.mp h
  obtain ⟨bind₄, hobjects, h⟩ := bind_eq_ok.mp h
  obtain ⟨dbName, tableName, hdb, htbl, rfl⟩ := bindIdentity_eq_ok_iff.mp hidentity
  obtain ⟨dataDir, hdataDir, rfl⟩ := bindDataDir_eq_ok_iff.mp hdir
  obtain ⟨hcolsArr, hcolsLe, cs, hcs, rfl⟩ := (bindColumns_eq_ok_iff legacyEmpty_iff).mp hcolumns
  obtain ⟨hobjsArr, infos, hinfos, rfl⟩ := (bindObjects_eq_ok_iff legacyEmpty_iff).mp hobjects
  obtain rfl := Except.ok.inj h
  refine ⟨hne, hle, root, cs, infos, hread, ?_⟩
  rw [bindSortColumn_eq]
  exact ⟨not_not.mp hobj, hdb, htbl, hdataDir, hcolsArr, hobjsArr, hcolsLe, hcs, hinfos, bindSortColumn_eq.symm⟩

/-- A manifest of the form is accepted. -/
theorem ManifestGrammar.accepted (h : ManifestGrammar dataRoot root before bind cs infos) (hne : json ≠ [])
    (hle : json.length ≤ 2 ^ 26) (hread : reader.read json = some root) :
    parseManifestBytes reader json dataRoot before = .ok bind := by
  obtain ⟨hobj, hdb, htbl, hdir, hcolsArr, hobjsArr, hcolsLe, hcs, hinfos, hstored⟩ := h
  rw [parseManifestBytes, throwIf_bind_eq_ok, hread, not_or, Nat.not_lt]
  refine ⟨⟨hne, hle⟩, throwIf_bind_eq_ok.mpr ⟨not_not.mpr hobj, ?_⟩⟩
  apply bind_eq_ok.mpr
  refine ⟨_, bindIdentity_eq_ok_iff.mpr ⟨_, _, hdb, htbl, rfl⟩, ?_⟩
  apply bind_eq_ok.mpr
  refine ⟨_, bindDataDir_eq_ok_iff.mpr ⟨_, hdir, rfl⟩, ?_⟩
  apply bind_eq_ok.mpr
  refine ⟨_, (bindColumns_eq_ok_iff legacyEmpty_iff).mpr ⟨hcolsArr, hcolsLe, cs, hcs, rfl⟩, ?_⟩
  apply bind_eq_ok.mpr
  refine ⟨_, (bindObjects_eq_ok_iff legacyEmpty_iff).mpr ⟨hobjsArr, infos, hinfos, rfl⟩, ?_⟩
  exact congrArg Except.ok hstored.symm

end Parser

end Manifests

/-- **What the manifest parser accepts.**  A text of at most 64 MiB is accepted iff the
    reader reads an object of the form from it, and the form says what is stored. -/
theorem parseManifestBytes_eq_ok_iff (reader : JsonReader) (json dataRoot : List Byte)
    (before bind : ManifestBindData) :
    parseManifestBytes reader json dataRoot before = .ok bind ↔
      json ≠ [] ∧ json.length ≤ 2 ^ 26 ∧ ∃ root cs infos, reader.read json = some root ∧
        ManifestGrammar dataRoot root before bind cs infos :=
  ⟨grammar_of_accepted, fun ⟨hne, hle, _, _, _, hread, h⟩ => h.accepted hne hle hread⟩

end TaeScanner
