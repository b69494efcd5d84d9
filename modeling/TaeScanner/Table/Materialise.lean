/-
  TaeScanner.Table.Materialise

  Column materialisation: a fill is faithful when every element of the output
  vector, read at the vector's own width, is the value of its stored row and
  nothing behind the window is touched.  For the schemas the manifest accepts
  this holds, whatever the vector held before, exactly for the types whose
  strides match.
-/

import TaeScanner.Table.ColumnFillSpec

namespace TaeScanner

open Lib

/-- Memory, strings, list entries and validity bits from element `count` on are
    what they were. -/
structure WritesWithin (v w : DuckVector) (count : Nat) : Prop where
  data : ∀ a, count * v.width ≤ a → w.data a = v.data a
  strings : ∀ i, count ≤ i → w.strings i = v.strings i
  lists : ∀ i, count ≤ i → w.lists i = v.lists i
  invalid : ∀ i, count ≤ i → w.invalid i = v.invalid i

/-- The fill of a window into `v` stores the value of every row at its place. -/
def FaithfulFill (v : DuckVector) (col : DecodedColumn) (count off : Nat) : Prop :=
  ∃ w, fillColumn v col count off = some w ∧
    (∀ i, i < count → col.storedValue? (off + i) = some (w.elemAt i)) ∧
    WritesWithin v w count

-- ============================================================================
-- Well-formed rows are in bounds
-- ============================================================================

/-- A slot that refers to a string is filled with that string. -/
theorem slotString?_of_stored? {col : DecodedColumn} {v : Varlena} {s : List Byte}
    (h : v.stored? col.area = some s) : col.slotString? v = some s := by
  rw [Varlena.stored?] at h
  rw [DecodedColumn.slotString?]
  split at h
  · next hin => rw [if_pos hin, h]
  · next hin =>
      split at h
      · next hmark => rw [if_neg hin, if_neg (by simpa using hmark), h]
      · cases h

section WellFormed
variable {col : DecodedColumn} {ty : LogicalType} {count off size : Nat}

/-- Rows that have values are in bounds. -/
theorem inBounds_of_stored {rows : Nat} (h : ∀ r, r < rows → (col.storedValue? r).isSome) : col.InBounds rows := by
  refine ⟨fun hpos => ?_, fun hstr r hr => ?_⟩
  · cases rows with
    | zero => simp
    | succ n =>
        have hn : moTypeFixedSize col.kind = ((moTypeFixedSize col.kind).toNat : Int) := by omega
        obtain ⟨bs, hbs, -, -⟩ := DecodedColumn.element?_of_storedValue? hn (by omega) (h n (by omega))
        exact DecodedColumn.element?_isSome.mp (by rw [hbs]; rfl)
  · obtain ⟨v, s, hv, hs, -⟩ := DecodedColumn.slot?_of_storedValue? hstr (h r hr)
    rw [hv, Option.bind_some, slotString?_of_stored? hs]
    rfl

theorem inBounds_of_wellFormed {rows : Nat} (hwf : ∀ r, r < rows → col.WellFormedAt r) :
    col.InBounds rows := inBounds_of_stored fun r hr => (hwf r hr).denotes

/-- The value of a well-formed fixed-width row, from its bytes. -/
theorem storedValue?_elementD (hsize : moTypeFixedSize col.kind = size) (hpos : 0 < size) {row : Nat}
    (hwf : col.WellFormedAt row) :
    col.element? size row = some (col.elementD size row) ∧
      (col.elementD size row).length = size ∧
      col.storedValue? row = some (col.type.fixedValue (col.elementD size row)) := by
  obtain ⟨bs, hbs, -, hval⟩ := DecodedColumn.element?_of_storedValue? hsize hpos hwf.denotes
  have hD : col.elementD size row = bs := by rw [DecodedColumn.elementD, hbs]; rfl
  rw [hD]
  exact ⟨hbs, DecodedColumn.element?_length hbs, hval⟩

/-- The value of a well-formed string row, from its slot. -/
theorem storedValue?_stringD (hstr : isStringType col.kind = true) {row : Nat}
    (hwf : col.WellFormedAt row) : col.storedValue? row = some (.bytes (col.stringD row)) := by
  obtain ⟨v, s, hv, hs, hval⟩ := DecodedColumn.slot?_of_storedValue? hstr hwf.denotes
  have hD : col.stringD row = s := by
    rw [DecodedColumn.stringD, hv, Option.bind_some, slotString?_of_stored? hs]
    rfl
  rw [hval, hD]

/-- A FLAT column fills its data, then marks its NULLs. -/
theorem fillColumn_flat {v w : DuckVector} (hflat : col.vecClass ≠ 1)
    (h : copyColumn v col count off = some w) :
    fillColumn v col count off
      = some (w.withFlags ⟨w.kind, fun i => w.invalid i || col.marks count off i⟩) := by
  rw [fillColumn, if_neg hflat, h, Option.map_some, setNullMask_eq]

theorem marks_past {i : Nat} (hi : count ≤ i) : col.marks count off i = false := by
  have hlt : ¬ i < count := by omega
  simp [DecodedColumn.marks, hlt]

-- ============================================================================
-- Matching strides are enough
-- ============================================================================

theorem faithfulFill_fixed {v : DuckVector} (hty : moTypeToDuckDB col.type = .ok v.type)
    (hpos : 0 < moTypeFixedSize col.kind) (hm : StrideMatches col.type) (hflat : col.vecClass ≠ 1)
    (hwf : ∀ r, r < off + count → col.WellFormedAt r) : FaithfulFill v col count off := by
  have hwidth : (v.width : Int) = moTypeFixedSize col.kind := width_of_strideMatches hty hpos hm
  have hsize : moTypeFixedSize col.kind = (v.width : Int) := hwidth.symm
  have hw0 : 0 < v.width := by omega
  obtain ⟨w, hw, helems, hpast, hrest⟩ :=
    copyColumn_wrote v hsize hw0 (inBounds_of_wellFormed hwf)
  refine ⟨_, fillColumn_flat hflat hw, fun i hi => ?_, ?_⟩
  · have hrow := hwf (off + i) (by omega)
    obtain ⟨hel, hlen, hval⟩ := storedValue?_elementD hsize hw0 hrow
    have hwty : w.type = v.type := by rw [hrest]
    have hwwidth : w.width = v.width := by rw [DuckVector.width, hwty]; rfl
    have hfixed : w.type.IsFixed := by rw [hwty]; exact isFixed_of_moTypeToDuckDB hty hpos
    rw [DuckVector.withFlags_elemAt, DuckVector.elemAt_fixed hfixed, hwwidth, helems i hi, hwty,
      hval]
    refine congrArg some (valueOf_written hty hm (fun hk => ?_) (fun hk => ?_) (fun hk => ?_)).symm
    · have h4 : v.width = 4 := by
        rw [DecodedColumn.kind, hk] at hwidth
        exact Int.ofNat_inj.mp hwidth
      rw [h4] at hel ⊢
      exact hrow.date_fits hk _ hel
    · have h8 : v.width = 8 := by
        rcases hk with hk | hk <;> rw [DecodedColumn.kind, hk] at hwidth <;>
          exact Int.ofNat_inj.mp hwidth
      rw [h8] at hel ⊢
      exact hrow.timestamp_fits hk _ hel
    · rw [hlen]
      rw [DecodedColumn.kind, hk] at hwidth
      exact Int.ofNat_inj.mp hwidth
  · refine ⟨fun a ha => hpast a ha, fun i _ => ?_, fun i _ => ?_, fun i hi => ?_⟩
    · show w.strings i = v.strings i
      rw [hrest]
    · show w.lists i = v.lists i
      rw [hrest]
    · show (w.invalid i || col.marks count off i) = v.invalid i
      rw [marks_past hi, Bool.or_false, hrest]

theorem faithfulFill_string {v : DuckVector} (hty : moTypeToDuckDB col.type = .ok v.type)
    (hstr : isStringType col.kind = true) (hflat : col.vecClass ≠ 1)
    (hwf : ∀ r, r < off + count → col.WellFormedAt r) : FaithfulFill v col count off := by
  obtain ⟨w, hw, helems, hpast, hrest⟩ :=
    copyColumn_string v hstr (inBounds_of_wellFormed hwf)
  refine ⟨_, fillColumn_flat hflat hw, fun i hi => ?_, ?_⟩
  · have hwty : w.type = v.type := by rw [hrest]
    have hvarchar : v.type = .varchar ∨ v.type = .blob := by
      rw [moTypeToDuckDB] at hty
      rw [DecodedColumn.kind] at hstr
      cases hk : col.type.kind <;> rw [hk] at hty hstr <;>
        simp only [isStringType, Bool.false_eq_true, Except.ok.injEq] at hty hstr
      all_goals first | exact Or.inl hty.symm | exact Or.inr hty.symm
    rw [DuckVector.withFlags_elemAt, storedValue?_stringD hstr (hwf (off + i) (by omega)),
      ← helems i hi]
    rw [DuckVector.elemAt]
    rcases hvarchar with h | h <;> rw [hwty, h]
  · refine ⟨fun a _ => ?_, fun i hi => hpast i hi, fun i _ => ?_, fun i hi => ?_⟩
    · show w.data a = v.data a
      rw [hrest]
    · show w.lists i = v.lists i
      rw [hrest]
    · show (w.invalid i || col.marks count off i) = v.invalid i
      rw [marks_past hi, Bool.or_false, hrest]

-- ============================================================================
-- Mismatched strides are not
-- ============================================================================

/-- A vector whose memory holds one byte and whose lists hold one list. -/
def DuckVector.blank (ty : LogicalType) (b : Byte) (l : List (List Byte)) : DuckVector :=
  { type := ty, data := fun _ => b, lists := fun _ => l }

/-- What was written does not depend on what was there. -/
theorem Wrote.data_eq {v w v' w' : DuckVector} {n : Nat} {g : Nat → List Byte}
    (h : Wrote v w size n g) (h' : Wrote v' w' size n g) {a : Nat} (ha : a < n * size) :
    w.data a = w'.data a := by
  have hpos : 0 < size := Nat.pos_of_ne_zero (by rintro rfl; simp at ha)
  have hi : a / size < n := Nat.div_lt_of_lt_mul (by rwa [Nat.mul_comm] at ha)
  have hbytes : w.bytesAt (a / size * size) size = w'.bytesAt (a / size * size) size := by
    rw [h.elems _ hi, h'.elems _ hi]
  have hk := congrArg (fun bs => bs[a % size]?) hbytes
  simp only [DuckVector.bytesAt_getElem?, if_pos (Nat.mod_lt a hpos), Option.some.injEq] at hk
  rwa [Nat.div_add_mod'] at hk

/-- An array column is not filled, so it shows whatever lists were there. -/
theorem not_faithfulFill_array (hk : col.kind = .arrayFloat32 ∨ col.kind = .arrayFloat64)
    (hty : moTypeToDuckDB col.type = .ok ty) (hflat : col.vecClass ≠ 1) (hcount : 0 < count) :
    ¬ ∀ v : DuckVector, v.type = ty → FaithfulFill v col count off := by
  intro hall
  have hother : moTypeFixedSize col.kind = -1 ∧ isStringType col.kind = false := by
    rcases hk with hk | hk <;> rw [hk] <;> exact ⟨rfl, rfl⟩
  obtain ⟨child, rfl⟩ : ∃ child, ty = .list child := by
    rw [DecodedColumn.kind] at hk
    rw [moTypeToDuckDB] at hty
    rcases hk with hk | hk <;> rw [hk] at hty
    · exact ⟨.float, by simpa using hty.symm⟩
    · exact ⟨.double, by simpa using hty.symm⟩
  have hshown : ∀ l, col.storedValue? (off + 0) = some (.list l) := by
    intro l
    obtain ⟨w, hw, hvals, -⟩ := hall (DuckVector.blank (.list child) 0 l) rfl
    rw [fillColumn_flat hflat (copyColumn_other _ hother.1 hother.2)] at hw
    obtain rfl := Option.some.inj hw
    exact hvals 0 hcount
  have hbad := (hshown []).symm.trans (hshown [[]])
  simp at hbad

/-- The vector of a decimal column, holding one byte throughout. -/
def decimalBlank (t : MOType) (b : Byte) : DuckVector :=
  .blank (.decimal (narrow8 t.width).toNat (narrow8 t.scale).toNat) b []

theorem elemAt_of_decimalBlank {t : MOType} {b : Byte} {w : DuckVector} {n : Nat}
    {g : Nat → List Byte} (h : Wrote (decimalBlank t b) w size n g) (i : Nat) :
    w.elemAt i = .decimal (leInt (w.bytesAt (i * (decimalBlank t b).width) (decimalBlank t b).width))
      (narrow8 t.scale).toNat := by
  have hwty : w.type = (decimalBlank t b).type := by rw [h.rest]
  have hfixed : w.type.IsFixed := by rw [hwty]; exact decimalPhysicalType_isFixed _
  rw [DuckVector.elemAt_fixed hfixed, DuckVector.width, hwty]
  rfl

/-- The memory a faithful fill of a decimal vector leaves. -/
theorem decimalBlank_filled (hsize : moTypeFixedSize col.kind = size) (hpos : 0 < size)
    (hflat : col.vecClass ≠ 1) (hwf : ∀ r, r < off + count → col.WellFormedAt r) {b : Byte}
    (h : FaithfulFill (decimalBlank col.type b) col count off) :
    ∃ w, Wrote (decimalBlank col.type b) w size count
        (fun i => col.type.written (col.elementD size (off + i))) ∧
      (∀ i, i < count → col.storedValue? (off + i) = some (w.elemAt i)) ∧
      ∀ a, count * (decimalBlank col.type b).width ≤ a → w.data a = b := by
  obtain ⟨u, hu, hvals, hpast⟩ := h
  obtain ⟨w, hw, hwrote⟩ :=
    copyColumn_wrote (decimalBlank col.type b) hsize hpos (inBounds_of_wellFormed hwf)
  rw [fillColumn_flat hflat hw] at hu
  obtain rfl := Option.some.inj hu
  exact ⟨w, hwrote, hvals, fun a ha => hpast.data a ha⟩

/-- When the widths agree but the strides do not match, the scale was narrowed. -/
theorem scale_narrowed (hk : col.kind = .decimal64 ∨ col.kind = .decimal128)
    (hw38 : narrow8 col.type.width ≤ 38) (hm : ¬ StrideMatches col.type) (b : Byte)
    (heq : ((decimalBlank col.type b).width : Int) = moTypeFixedSize col.kind) :
    narrow8 col.type.scale ≠ col.type.scale := by
  intro hs
  apply hm
  have hwidth : ((decimalPhysicalType (narrow8 col.type.width).toNat).size : Int)
      = moTypeFixedSize col.kind := heq
  rw [StrideMatches]
  rw [DecodedColumn.kind] at hk hwidth
  have hlo : 0 ≤ narrow8 col.type.width := by rw [narrow8]; omega
  rw [decimalPhysicalType] at hwidth
  rcases hk with hk | hk <;> rw [hk] at hwidth ⊢ <;> simp only [moTypeFixedSize] at hwidth <;>
    (repeat' split at hwidth) <;> simp only [PhysicalType.size] at hwidth <;>
    refine ⟨?_, ?_, hs⟩ <;> omega

section Blanks
variable {t : MOType} {w₀ w₁ : DuckVector} {g : Nat → List Byte}

/-- A source wider than the vector's elements writes behind the window. -/
theorem wide_source_overruns (hw₀ : Wrote (decimalBlank t 0) w₀ size count g)
    (hw₁ : Wrote (decimalBlank t 1) w₁ size count g) (hcount : 0 < count)
    (hlt : (decimalBlank t 0).width < size)
    (hpast₀ : ∀ a, count * (decimalBlank t 0).width ≤ a → w₀.data a = 0)
    (hpast₁ : ∀ a, count * (decimalBlank t 0).width ≤ a → w₁.data a = 1) : False := by
  have hin : count * (decimalBlank t 0).width < count * size := Nat.mul_lt_mul_of_pos_left hlt hcount
  have hsame := hw₀.data_eq hw₁ hin
  rw [hpast₀ _ (Nat.le_refl _), hpast₁ _ (Nat.le_refl _)] at hsame
  exact absurd hsame (by decide)

/-- A source narrower than the vector's elements leaves bytes of the last one as they were. -/
theorem wide_vector_keeps (hw₀ : Wrote (decimalBlank t 0) w₀ size count g)
    (hw₁ : Wrote (decimalBlank t 1) w₁ size count g) (hcount : 0 < count)
    (hgt : size < (decimalBlank t 0).width)
    (hlast : w₀.elemAt (count - 1) = w₁.elemAt (count - 1)) : False := by
  have hwidth : (decimalBlank t 1).width = (decimalBlank t 0).width := rfl
  rw [elemAt_of_decimalBlank hw₀, elemAt_of_decimalBlank hw₁, hwidth] at hlast
  have hbytes := leInt_inj (by simp) (SqlValue.decimal.inj hlast).1
  have hbyte := congrArg (fun bs => bs[size]?) hbytes
  simp only [DuckVector.bytesAt_getElem?, if_pos hgt, Option.some.injEq] at hbyte
  have hstep : (count - 1) * size ≤ (count - 1) * (decimalBlank t 0).width :=
    Nat.mul_le_mul_left _ (Nat.le_of_lt hgt)
  have hlen : count * size = (count - 1) * size + size := by
    rw [← Nat.succ_mul, Nat.succ_eq_add_one, Nat.sub_add_cancel hcount]
  rw [hw₀.past _ (by omega), hw₁.past _ (by omega)] at hbyte
  exact absurd (show (0 : Byte) = 1 from hbyte) (by decide)

end Blanks

/-- A decimal column whose strides or scales differ is not filled faithfully. -/
theorem not_faithfulFill_decimal (hk : col.kind = .decimal64 ∨ col.kind = .decimal128)
    (hty : moTypeToDuckDB col.type = .ok ty) (hm : ¬ StrideMatches col.type)
    (hflat : col.vecClass ≠ 1) (hcount : 0 < count)
    (hwf : ∀ r, r < off + count → col.WellFormedAt r) :
    ¬ ∀ v : DuckVector, v.type = ty → FaithfulFill v col count off := by
  intro hall
  obtain ⟨size, hsize, hpos⟩ : ∃ size : Nat, moTypeFixedSize col.kind = size ∧ 0 < size := by
    rcases hk with hk | hk <;> rw [hk]
    · exact ⟨8, rfl, by decide⟩
    · exact ⟨16, rfl, by decide⟩
  obtain ⟨hw38, rfl⟩ := moTypeToDuckDB_decimal hk hty
  -- two vectors that differ only in what their memory held before
  obtain ⟨w₀, hw₀, hvals₀, hpast₀⟩ :=
    decimalBlank_filled hsize hpos hflat hwf (hall (decimalBlank col.type 0) rfl)
  obtain ⟨w₁, hw₁, hvals₁, hpast₁⟩ :=
    decimalBlank_filled hsize hpos hflat hwf (hall (decimalBlank col.type 1) rfl)
  rcases Nat.lt_trichotomy (decimalBlank col.type 0).width size with hlt | heq | hgt
  · exact wide_source_overruns hw₀ hw₁ hcount hlt hpast₀ hpast₁
  · -- equal widths: the value has the narrowed scale
    have hscale := scale_narrowed hk hw38 hm 0 (by rw [heq, hsize])
    obtain ⟨-, -, hval⟩ := storedValue?_elementD hsize hpos (hwf (off + 0) (by omega))
    have hfixed : ∀ bs, col.type.fixedValue bs = .decimal (leInt bs) col.type.scale := by
      intro bs
      rw [MOType.fixedValue]
      rw [DecodedColumn.kind] at hk
      rcases hk with hk | hk <;> rw [hk]
    rw [hvals₀ 0 hcount, elemAt_of_decimalBlank hw₀, hfixed] at hval
    have hs := (SqlValue.decimal.inj (Option.some.inj hval)).2
    rw [Int.toNat_of_nonneg (by rw [narrow8]; omega)] at hs
    exact hscale hs
  · have hlast := (hvals₀ (count - 1) (by omega)).symm.trans (hvals₁ (count - 1) (by omega))
    exact wide_vector_keeps hw₀ hw₁ hcount hgt (Option.some.inj hlast)

/-- No rows, nothing to write. -/
theorem faithfulFill_zero {v : DuckVector} (hflat : col.vecClass ≠ 1)
    (hwf : ∀ r, r < off → col.WellFormedAt r) : FaithfulFill v col 0 off := by
  have hin : col.InBounds (off + 0) := inBounds_of_wellFormed hwf
  have hcopy : copyColumn v col 0 off = some v := by
    by_cases hpos : 0 < moTypeFixedSize col.kind
    · have hn : moTypeFixedSize col.kind = ((moTypeFixedSize col.kind).toNat : Int) := by omega
      obtain ⟨w, hw, -, hpast, hrest⟩ := copyColumn_wrote v hn (by omega) hin
      have hdata : w.data = v.data := funext fun a => hpast a (by omega)
      rw [hw, hrest, hdata]
    · cases hstr : isStringType col.kind with
      | true =>
          obtain ⟨w, hw, -, hpast, hrest⟩ := copyColumn_string v hstr hin
          have hstrings : w.strings = v.strings := funext fun i => hpast i (by omega)
          rw [hw, hrest, hstrings]
      | false =>
          refine copyColumn_other v ?_ hstr
          cases hk : col.kind <;> simp [hk, moTypeFixedSize] at hpos ⊢
  refine ⟨_, fillColumn_flat hflat hcopy, fun i hi => absurd hi (Nat.not_lt_zero i), ?_⟩
  refine ⟨fun _ _ => rfl, fun _ _ => rfl, fun _ _ => rfl, fun i hi => ?_⟩
  show (v.invalid i || col.marks 0 off i) = v.invalid i
  rw [marks_past hi, Bool.or_false]

/-- A fill is faithful, whatever the vector held, iff there is nothing to fill
    or the strides match. -/
theorem faithfulFill_iff (hty : moTypeToDuckDB col.type = .ok ty) (hflat : col.vecClass ≠ 1)
    (hwf : ∀ r, r < off + count → col.WellFormedAt r) :
    (∀ v : DuckVector, v.type = ty → FaithfulFill v col count off) ↔
      count = 0 ∨ StrideMatches col.type := by
  constructor
  · intro hall
    by_contra hcon
    obtain ⟨hcount, hm⟩ := not_or.mp hcon
    have hpos : 0 < count := Nat.pos_of_ne_zero hcount
    have hkind : col.kind = .decimal64 ∨ col.kind = .decimal128 ∨
        col.kind = .arrayFloat32 ∨ col.kind = .arrayFloat64 := by
      rw [StrideMatches] at hm
      rw [DecodedColumn.kind]
      cases hk : col.type.kind <;> simp [hk] at hm ⊢
    rcases hkind with hk | hk | hk
    · exact not_faithfulFill_decimal (Or.inl hk) hty hm hflat hpos hwf hall
    · exact not_faithfulFill_decimal (Or.inr hk) hty hm hflat hpos hwf hall
    · exact not_faithfulFill_array hk hty hflat hpos hall
  · rintro (rfl | hm) v rfl
    · exact faithfulFill_zero hflat hwf
    · by_cases hpos : 0 < moTypeFixedSize col.kind
      · exact faithfulFill_fixed hty hpos hm hflat hwf
      · refine faithfulFill_string hty ?_ hflat hwf
        rw [moTypeToDuckDB] at hty
        rw [StrideMatches] at hm
        rw [DecodedColumn.kind] at hpos ⊢
        cases hk : col.type.kind <;> simp [hk, moTypeFixedSize, isStringType] at hty hm hpos ⊢

end WellFormed

-- ============================================================================
-- The declared type
-- ============================================================================

/-- A column read at the type the manifest declares. -/
def DecodedColumn.declaredAs (c : DecodedColumn) (t : MOType) : DecodedColumn := { c with type := t }

/-- A fill looks at the OID of a column and at nothing else of its type. -/
theorem fillColumn_declaredAs {col : DecodedColumn} {t : MOType} (h : col.type.oid = t.oid)
    (v : DuckVector) (count off : Nat) :
    fillColumn v (col.declaredAs t) count off = fillColumn v col count off := by
  have hkind : (col.declaredAs t).kind = col.kind := by
    show MOTypeOid.ofByte t.oid = MOTypeOid.ofByte col.type.oid
    rw [h]
  have hconst : fillConstantColumn v (col.declaredAs t) = fillConstantColumn v col := by
    rw [fillConstantColumn]
    rw [hkind]
    rfl
  have hcopy : copyColumn v (col.declaredAs t) count off = copyColumn v col count off := by
    rw [copyColumn, copyFixedColumn]
    rw [hkind]
    rfl
  rw [fillColumn]
  rw [hconst, hcopy]
  rfl

/-- Every fill of the window, whatever the vector of the declared type held,
    puts the value of row `off + i` at element `i` and touches nothing behind. -/
def Materialises (t : MOType) (ty : LogicalType) (col : DecodedColumn) (count off : Nat) : Prop :=
  ∀ v : DuckVector, v.type = ty → ∃ w, fillColumn v col count off = some w ∧
    (∀ i, i < count → (col.declaredAs t).storedValue? (off + i) = some (w.elemAt i)) ∧
    WritesWithin v w count

/-- A column of an accepted manifest type materialises exactly when its strides
    match: DECIMAL columns need a declared width of their own storage size (10
    to 18 for `decimal64`, 19 to 38 for `decimal128`, after narrowing) and a
    scale that fits a byte, and arrays of numbers never do. -/
theorem fillColumn_materialises_iff {t : MOType} {ty : LogicalType} {col : DecodedColumn}
    {count off : Nat} (hty : moTypeToDuckDB t = .ok ty) (hoid : col.type.oid = t.oid)
    (hflat : col.vecClass = 0) (hwf : ∀ r, r < col.rowCount → (col.declaredAs t).WellFormedAt r)
    (hwin : off + count ≤ col.rowCount) :
    Materialises t ty col count off ↔ count = 0 ∨ StrideMatches t := by
  have hclass : (col.declaredAs t).vecClass ≠ 1 := by
    show col.vecClass ≠ 1
    rw [hflat]
    decide
  have hrows : ∀ r, r < off + count → (col.declaredAs t).WellFormedAt r := fun r hr =>
    hwf r (by omega)
  have hiff : (∀ v : DuckVector, v.type = ty → FaithfulFill v (col.declaredAs t) count off) ↔
      count = 0 ∨ StrideMatches t := faithfulFill_iff hty hclass hrows
  rw [← hiff]
  unfold FaithfulFill Materialises
  simp only [fillColumn_declaredAs hoid]

/-- Two `decimal64` values declared DECIMAL(4,2), whose vector has 2-byte elements. -/
def decimal4Type : MOType := { oid := 32, width := 4, scale := 2 }

def decimal4Column : DecodedColumn :=
  { type := decimal4Type, rowCount := 2, data := leBytes 8 100 ++ leBytes 8 200 }

theorem decimal4Column_wellFormed {t : MOType} (hk : t.kind = .decimal64) {r : Nat} (hr : r < 2) :
    (decimal4Column.declaredAs t).WellFormedAt r := by
  have hkind : (decimal4Column.declaredAs t).kind = .decimal64 := hk
  refine ⟨?_, fun h => ?_, fun h => ?_⟩
  · have hsize : moTypeFixedSize (decimal4Column.declaredAs t).kind = (8 : Nat) := by rw [hkind]; rfl
    have hvalid : ∀ bs, (decimal4Column.declaredAs t).type.validBytes bs = true := by
      intro bs
      show t.validBytes bs = true
      rw [MOType.validBytes, hk]
    have hel : ∃ bs, decimal4Column.element? 8 r = some bs := by
      rcases (by omega : r = 0 ∨ r = 1) with rfl | rfl <;> exact ⟨_, rfl⟩
    obtain ⟨bs, hbs⟩ := hel
    have hbs' : (decimal4Column.declaredAs t).element? 8 r = some bs := hbs
    rw [DecodedColumn.storedValue?_fixed hsize (by decide), hbs', Option.filter_some_pos (hvalid bs)]
    rfl
  · rw [hkind] at h
    cases h
  · rw [hkind] at h
    rcases h with h | h <;> cases h

/-- The second value, 2.00, is filled as 0.00. -/
theorem decimal4Column_not_materialised :
    moTypeToDuckDB decimal4Type = .ok (.decimal 4 2) ∧
      (∀ r, r < decimal4Column.rowCount → (decimal4Column.declaredAs decimal4Type).WellFormedAt r) ∧
      ¬ Materialises decimal4Type (.decimal 4 2) decimal4Column 2 0 := by
  refine ⟨rfl, fun r hr => decimal4Column_wellFormed rfl hr, fun hall => ?_⟩
  obtain ⟨w, hw, hvals, -⟩ := hall { type := .decimal 4 2 } rfl
  have hshown : (fillColumn { type := .decimal 4 2 } decimal4Column 2 0).map (·.elemAt 1)
      = some (.decimal 0 2) := by decide
  rw [hw, Option.map_some] at hshown
  have hstored : (decimal4Column.declaredAs decimal4Type).storedValue? (0 + 1)
      = some (.decimal 200 2) := by decide
  rw [hvals 1 (by decide), Option.some.inj hshown] at hstored
  exact absurd hstored (by decide)

def decimal12Type : MOType := { oid := 32, width := 12, scale := 2 }

/-- Declared DECIMAL(12,2), the same two rows do materialise. -/
theorem decimal12_materialises :
    Materialises decimal12Type (.decimal 12 2) decimal4Column 2 0 :=
  (fillColumn_materialises_iff (show moTypeToDuckDB decimal12Type = .ok (.decimal 12 2) from rfl)
    rfl rfl (fun _ hr => decimal4Column_wellFormed rfl hr) (by decide)).mpr (Or.inr (by decide))

end TaeScanner
