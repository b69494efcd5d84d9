/-
  TaeScanner.Filter.DescribedColumns

  Zone maps of all ordered types against the rows of a column.

    * `ZoneMap` bounds numbers; strings and UUIDs are bounded as byte strings, of
      which the fields of a zone map hold the first 30 bytes;
    * a filter on such a column selects a row iff it selects the bytes of the row;
    * so a row that passes keeps the zone map, unless the filter asks `<>` of a
      constant that fills the max field.
-/

import TaeScanner.Filter.StringZoneMap

namespace TaeScanner

open Lib

-- ============================================================================
-- Columns of bytes
-- ============================================================================

/-- Strings and UUIDs are compared byte by byte. -/
def MOTypeOid.IsBytes (oid : MOTypeOid) : Prop := isStringType oid = true ∨ oid = .uuid

/-- The bytes that a string or a UUID is compared as. -/
def DecodedColumn.bytes? (c : DecodedColumn) (row : Nat) : Option (List Byte) :=
  if isStringType c.kind then (c.slot? row).bind fun v => v.stored? c.area else c.element? 16 row

/-- The zone map bounds the non-NULL values of the column, as they are compared. -/
structure ZoneMap.Describes (zm : ZoneMap) (col : DecodedColumn) : Prop where
  numbers : zm.Bounds col
  bytes : col.kind.IsBytes → ∀ row, row < col.rowCount → col.isNullAt row = false →
    ∀ s, col.bytes? row = some s → ∃ lo hi, zm.Summarises lo hi ∧ lo ≤ s ∧ s ≤ hi

/-- The constants have the lengths that they come with. -/
structure PushedFilter.LengthsExact (pf : PushedFilter) : Prop where
  constant : pf.op ≠ .isNull → pf.op ≠ .isNotNull → pf.op ≠ .inSet → pf.constant.len = pf.constant.bytes.length
  inValues : pf.op = .inSet → ∀ e ∈ pf.inValues, e.len = e.bytes.length

/-- The filter does not ask `<>` of a string that a cut max could be taken for. -/
def PushedFilter.CutSafe (pf : PushedFilter) : Prop :=
  isStringType pf.kind = true → pf.op = .notEqual → pf.constant.bytes.length ≠ zmMaxLen

/-- An ordered type that is not a number is one of bytes. -/
theorem isBytes_of_isOrdered {oid : MOTypeOid} (hord : oid.isOrdered = true) (hnone : scalarTypeOf oid = none) :
    oid.IsBytes := by
  cases oid <;> simp only [MOTypeOid.isOrdered, scalarTypeOf, reduceCtorEq, Bool.false_eq_true] at hord hnone <;>
    first
    | exact Or.inr rfl
    | exact Or.inl rfl

section Rows
variable {col : DecodedColumn} {pf : PushedFilter} {e : EncodedConstant} {row : Nat} {v : SqlValue}

/-- The order of the bytes is the order of the values they denote. -/
theorem compare?_bytes (hbytes : col.kind.IsBytes) (he : e.WellFormed col.type)
    (hv : col.storedValue? row = some v) : ∃ s, col.bytes? row = some s ∧
      v.compare? (e.value col.type) = some (compareOfLessAndEq s e.bytes) := by
  have hsome : (col.storedValue? row).isSome := by rw [hv]; rfl
  cases hstr : isStringType col.kind with
  | true =>
      obtain ⟨slot, s, hslot, hs, hvalue⟩ := DecodedColumn.slot?_of_storedValue? hstr hsome
      obtain rfl : v = .bytes s := Option.some.inj (hv.symm.trans hvalue)
      refine ⟨s, ?_, ?_⟩
      · rw [DecodedColumn.bytes?, if_pos hstr, hslot, Option.bind_some, hs]
      · rw [EncodedConstant.value_string hstr]
        rfl
  | false =>
      have huuid : col.kind = .uuid := hbytes.resolve_left (Bool.eq_false_iff.mp hstr)
      have hsize : moTypeFixedSize col.kind = (16 : Nat) := by rw [huuid]; rfl
      obtain ⟨bs, hbs, -, hvalue⟩ := DecodedColumn.element?_of_storedValue? hsize (by decide) hsome
      obtain rfl : v = col.type.fixedValue bs := Option.some.inj (hv.symm.trans hvalue)
      have hlen : bs.length = 16 := DecodedColumn.element?_length hbs
      have helen : e.bytes.length = 16 := by
        have h : (e.bytes.length : Int) = moTypeFixedSize col.kind := (he.fixed hstr).1
        omega
      refine ⟨bs, ?_, ?_⟩
      · rw [DecodedColumn.bytes?, hstr, if_neg Bool.false_ne_true, hbs]
      · rw [EncodedConstant.value_fixed hstr, uuid_compare huuid hlen helen, memcmp_whole hlen helen]

/-- A row that passes a comparison or an IN test is not NULL, and its bytes are
    selected. -/
theorem selects_of_rowPassesFilter (hcol : FilterableColumn col) (hpf : pf.WellFormed col.type)
    (hbytes : col.kind.IsBytes) (hnull : pf.op ≠ .isNull) (hnotNull : pf.op ≠ .isNotNull)
    (hrow : row < col.rowCount) (h : rowPassesFilter pf col row = some true) :
    col.isNullAt row = false ∧ ∃ s, col.bytes? row = some s ∧ pf.selects s = true := by
  have hfilterNull : col.filterNull row = col.isNullAt row := by
    rw [DecodedColumn.filterNull, decide_eq_true hrow, Bool.true_and]
  have hkind : pf.kind = col.kind := hpf.kind_eq
  obtain ⟨v, hv⟩ := Option.isSome_iff_exists.mp (hcol.elements row hrow)
  rw [rowPassesFilter, hfilterNull] at h
  split at h
  · next hop => exact absurd hop hnull
  · next hop => exact absurd hop hnotNull
  · next hop =>
      split at h
      · cases h
      · next hbit =>
          rw [rowInSet_spec hcol.ordered hkind (hpf.inValues hop) hv, Option.some.injEq, List.any_eq_true] at h
          obtain ⟨e, he, heq⟩ := h
          obtain ⟨s, hs, hcmp⟩ := compare?_bytes hbytes (hpf.inValues hop e he) hv
          rw [decide_eq_true_eq, hcmp, Option.some.injEq, compareOfLessAndEq_eq_iff] at heq
          refine ⟨Bool.eq_false_iff.mpr hbit, s, hs, ?_⟩
          rw [PushedFilter.selects, hop]
          exact List.any_eq_true.mpr ⟨e, he, beq_iff_eq.mpr heq.symm⟩
  · next hin =>
      split at h
      · cases h
      · next hbit =>
          have hconst := hpf.constant hnull hnotNull hin
          obtain ⟨o, ho, htest⟩ := rowCompare_spec hcol.ordered hkind hconst hv
          obtain ⟨s, hs, hcmp⟩ := compare?_bytes hbytes hconst hv
          rw [h, Option.some.injEq] at htest
          obtain rfl := Option.some.inj (ho.symm.trans hcmp)
          refine ⟨Bool.eq_false_iff.mpr hbit, s, hs, ?_⟩
          rw [PushedFilter.selects]
          split
          · next hop => exact absurd hop hin
          · exact htest.symm

/-- A row that passes a filter keeps every zone map that describes its column. -/
theorem evalFilterOnZoneMap_describes {zm : ZoneMap} (hcol : FilterableColumn col) (hpf : pf.WellFormed col.type)
    (hlens : pf.LengthsExact) (hsafe : pf.CutSafe) (hrow : row < col.rowCount)
    (hdescribes : zm.isInited = true → zm.Describes col) (h : rowPassesFilter pf col row = some true) :
    evalFilterOnZoneMap pf (some zm) = true := by
  cases hscalar : scalarTypeOf col.kind with
  | some st => exact evalFilterOnZoneMap_sound hscalar hpf hrow (fun hinit => (hdescribes hinit).numbers) h
  | none =>
      have hbytes := isBytes_of_isOrdered hcol.ordered hscalar
      have hkind : pf.kind = col.kind := hpf.kind_eq
      by_cases hinit : zm.isInited = true
      swap
      · simp [evalFilterOnZoneMap, hinit]
      by_cases hnull : pf.op = .isNull
      · simp [evalFilterOnZoneMap, hnull]
      by_cases hnotNull : pf.op = .isNotNull
      · simp [evalFilterOnZoneMap, hnotNull]
      obtain ⟨hbit, s, hs, hsel⟩ := selects_of_rowPassesFilter hcol hpf hbytes hnull hnotNull hrow h
      obtain ⟨lo, hi, hzm, hlo, hhi⟩ := (hdescribes hinit).bytes hbytes row hrow hbit s hs
      refine evalFilterOnZoneMap_string hzm (hkind ▸ hbytes) (hlens.constant hnull hnotNull) hlens.inValues
        hlo hhi hsel ?_
      rintro ⟨hop, -, hmax, hlong⟩
      -- a cut max has 30 bytes, a UUID has 16
      have hlen : pf.constant.bytes.length = zmMaxLen := by
        rw [← hmax, List.length_take]
        omega
      cases hstr : isStringType pf.kind with
      | true => exact hsafe hstr hop hlen
      | false =>
          have huuid : col.kind = .uuid := hbytes.resolve_left (Bool.eq_false_iff.mp (hkind ▸ hstr))
          have hfixed : isStringType col.type.kind = false := by
            rw [show col.type.kind = .uuid from huuid]
            rfl
          have hsize := ((hpf.constant hnull hnotNull (by rw [hop]; decide)).fixed hfixed).1
          rw [hlen, show col.type.kind = .uuid from huuid] at hsize
          exact absurd hsize (by decide)

end Rows

end TaeScanner
