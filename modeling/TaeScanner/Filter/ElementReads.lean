/-
  TaeScanner.Filter.ElementReads

  Which bytes a row filter reads, and what its answer depends on.  The filter
  does not look at the vector class: it reads element `row` of whatever column
  it is given.

    * a filter that reads no element has a fixed answer on a non-NULL row
      (`PushedFilter.readFree?`);
    * where the element is missing, that answer is all there is
      (`rowPassesFilter_outside`);
    * where it is there, the answer depends on the stored value alone
      (`rowPassesFilter_inside`).
-/

import TaeScanner.Filter.RowFilterSpec

namespace TaeScanner

open Lib

-- ============================================================================
-- Filters that read no element
-- ============================================================================

/-- Does the row filter load elements of the type at all? -/
def MOTypeOid.isLoaded (oid : MOTypeOid) : Bool := oid == .uuid || (scalarTypeOf oid).isSome

/-- The answer of a filter on a row that is not NULL, when the filter gives it
    without reading the row's element. -/
def PushedFilter.readFree? (pf : PushedFilter) : Option Bool :=
  match pf.op with
  | .isNull => some false
  | .isNotNull => some true
  | .inSet =>
      if isStringType pf.kind then none
      else if moTypeFixedSize pf.kind ≤ 0 then some true
      else if pf.inValues = [] ∨ pf.kind.isLoaded = false then some false
      else none
  | _ =>
      if isStringType pf.kind then none
      else if moTypeFixedSize pf.kind ≤ 0 ∨ pf.kind.isLoaded = false then some true
      else none

/-- The bytes the row filter looks at for a row of the type are all there. -/
def DecodedColumn.hasElement (col : DecodedColumn) (row : Nat) : Bool :=
  if isStringType col.kind then (col.slot? row).isSome
  else (col.element? (moTypeFixedSize col.kind).toNat row).isSome

section Outside
variable {col : DecodedColumn} {pf : PushedFilter} {row : Nat}

theorem element?_none_of_not_hasElement (hstr : isStringType col.kind = false)
    (hno : col.hasElement row = false) {size : Nat} (hsize : moTypeFixedSize col.kind = size) :
    col.element? size row = none := by
  rw [DecodedColumn.hasElement, hstr, if_neg Bool.false_ne_true, hsize, Int.toNat_natCast] at hno
  exact Option.isSome_eq_false_iff.mp hno |> Option.isNone_iff_eq_none.mp

/-- An IN test of a loaded type on a missing element has no answer; of any
    other type it is no hit. -/
theorem inHit_outside (hstr : isStringType col.kind = false) (hno : col.hasElement row = false)
    (cp : List Byte) :
    col.inHit col.kind row cp = if col.kind.isLoaded then none else some false := by
  -- a type whose element is loaded reads it
  have hloaded : ∀ (n : Nat) (test : List Byte → Bool), moTypeFixedSize col.kind = n →
      col.kind.isLoaded = true →
        (col.element? n row).map test = if col.kind.isLoaded then none else some false := by
    intro n test hn hload
    rw [element?_none_of_not_hasElement hstr hno hn, hload]
    rfl
  unfold DecodedColumn.inHit
  split
  · next hk => exact hloaded 1 _ (by rw [hk]; rfl) (by rw [hk]; rfl)
  · next hk => exact hloaded 1 _ (by rw [hk]; rfl) (by rw [hk]; rfl)
  · next hk => exact hloaded 1 _ (by rw [hk]; rfl) (by rw [hk]; rfl)
  · next hk => exact hloaded 16 _ (by rw [hk]; rfl) (by rw [hk]; rfl)
  · next hk => exact hloaded 16 _ (by rw [hk]; rfl) (by rw [hk]; rfl)
  · next _ _ _ _ huuid =>
      have huuid' : (col.kind == .uuid) = false := by simpa using huuid
      cases hst : scalarTypeOf col.kind with
      | none => rw [MOTypeOid.isLoaded, huuid', hst]; rfl
      | some st =>
          refine hloaded st.size _ (scalarTypeOf_size hst).1 ?_
          rw [MOTypeOid.isLoaded, hst, Option.isSome_some, Bool.or_true]

theorem rowInSet_outside (hkind : pf.kind = col.kind) (hstr : isStringType col.kind = false)
    (hno : col.hasElement row = false) : rowInSet pf col row =
      if moTypeFixedSize col.kind ≤ 0 then some true
      else if pf.inValues = [] ∨ col.kind.isLoaded = false then some false else none := by
  rw [rowInSet, hkind, hstr, if_neg Bool.false_ne_true]
  by_cases hsz : moTypeFixedSize col.kind ≤ 0
  · rw [if_pos hsz, if_pos hsz]
  rw [if_neg hsz, if_neg hsz]
  by_cases hnil : pf.inValues = []
  · rw [hnil, if_pos (Or.inl rfl)]
    rfl
  cases hload : col.kind.isLoaded with
  | true =>
      rw [if_neg (by simp [hnil])]
      refine anyM_none_of_ne_nil hnil fun e _ => ?_
      rw [inHit_outside hstr hno, if_pos hload]
  | false =>
      have hmiss : ∀ e ∈ pf.inValues, col.inHit col.kind row e.bytes = some false := by
        intro e _
        rw [inHit_outside hstr hno, hload]
        rfl
      rw [if_pos (Or.inr rfl), anyM_of_some hmiss]
      simp

theorem rowCompare_outside (hkind : pf.kind = col.kind) (hstr : isStringType col.kind = false)
    (hno : col.hasElement row = false) : rowCompare pf col row =
      if moTypeFixedSize col.kind ≤ 0 ∨ col.kind.isLoaded = false then some true else none := by
  rw [rowCompare, hkind, hstr, if_neg Bool.false_ne_true]
  by_cases hsz : moTypeFixedSize col.kind ≤ 0
  · rw [if_pos hsz, if_pos (Or.inl hsz)]
  rw [if_neg hsz]
  split
  · next hk =>
      have hsize : moTypeFixedSize col.kind = (16 : Nat) := by rw [hk]; rfl
      rw [element?_none_of_not_hasElement hstr hno hsize, if_neg (by rw [hk]; decide)]
      rfl
  · next huuid =>
      have huuid' : (col.kind == .uuid) = false := by simpa using huuid
      cases hst : scalarTypeOf col.kind with
      | none => rw [if_pos (Or.inr (by rw [MOTypeOid.isLoaded, huuid', hst]; rfl))]
      | some st =>
          rw [if_neg (by simp [hsz, MOTypeOid.isLoaded, hst])]
          show (col.element? st.size row).map _ = none
          rw [element?_none_of_not_hasElement hstr hno (scalarTypeOf_size hst).1]
          rfl

/-- Without an element, a filter answers only what it answers read-free. -/
theorem rowPassesFilter_outside (hkind : pf.kind = col.kind) (hnull : col.filterNull row = false)
    (hno : col.hasElement row = false) : rowPassesFilter pf col row = pf.readFree? := by
  rw [rowPassesFilter, PushedFilter.readFree?]
  rw [hnull, hkind]
  cases hstr : isStringType col.kind with
  | true =>
      have hslot : col.slot? row = none := by
        rw [DecodedColumn.hasElement, hstr, if_pos rfl] at hno
        exact Option.isNone_iff_eq_none.mp (Option.isSome_eq_false_iff.mp hno)
      cases hop : pf.op <;>
        simp [rowInSet, rowCompare, hkind, hstr, hslot]
  | false =>
      have hin := rowInSet_outside hkind hstr hno
      have hcmp := rowCompare_outside hkind hstr hno
      cases hop : pf.op <;> simp [hin, hcmp]

end Outside

-- ============================================================================
-- Filters on an element that is there
-- ============================================================================

/-- The hit of an IN test, from the bytes of the element. -/
def hitBytes (oid : MOTypeOid) (bs cp : List Byte) : Bool :=
  match oid with
  | .int8 | .uint8 | .bool => bs == cp.take 1
  | .decimal128 | .uuid => memcmp bs cp 16 == .eq
  | _ =>
      match scalarTypeOf oid with
      | some st => scalarEq (st.load bs) (st.load cp)
      | none => false

/-- The comparison, from the bytes of the element. -/
def compareBytes (pf : PushedFilter) (bs : List Byte) : Bool :=
  match pf.kind with
  | .uuid => pf.op.ofOrdering (memcmp bs pf.constant.bytes 16)
  | oid =>
      match scalarTypeOf oid with
      | some st => pf.op.compareScalar (st.load bs) (st.load pf.constant.bytes)
      | none => true

section Inside
variable {col : DecodedColumn} {pf : PushedFilter} {row size : Nat} {bs : List Byte}

theorem inHit_inside {oid : MOTypeOid} (hsize : moTypeFixedSize oid = size)
    (hel : col.element? size row = some bs) (cp : List Byte) :
    col.inHit oid row cp = some (hitBytes oid bs cp) := by
  have hsome : ∀ n : Nat, moTypeFixedSize oid = n → col.element? n row = some bs := by
    intro n hn
    obtain rfl : size = n := by omega
    exact hel
  cases oid <;> first | rfl | exact congrArg (Option.map _) (hsome _ rfl)

/-- A fixed-width filter answers from the bytes of the element. -/
theorem rowInSet_inside (hkind : pf.kind = col.kind) (hstr : isStringType col.kind = false)
    (hsize : moTypeFixedSize col.kind = size) (hpos : 0 < size)
    (hel : col.element? size row = some bs) :
    rowInSet pf col row = some (pf.inValues.any fun e => hitBytes col.kind bs e.bytes) := by
  rw [rowInSet, hkind, hstr, if_neg Bool.false_ne_true, if_neg (by omega)]
  exact anyM_of_some fun e _ => inHit_inside hsize hel e.bytes

theorem rowCompare_inside (hkind : pf.kind = col.kind) (hstr : isStringType col.kind = false)
    (hsize : moTypeFixedSize col.kind = size) (hpos : 0 < size)
    (hel : col.element? size row = some bs) : rowCompare pf col row = some (compareBytes pf bs) := by
  have hsome : ∀ n : Nat, moTypeFixedSize col.kind = n → col.element? n row = some bs := by
    intro n hn
    obtain rfl : size = n := by omega
    exact hel
  rw [rowCompare, compareBytes, hkind, hstr, if_neg Bool.false_ne_true, if_neg (by omega)]
  cases hk : col.kind <;> rw [hk] at hsome <;>
    first | rfl | exact congrArg (Option.map _) (hsome _ rfl)

/-- What a filter answers without reading is what it answers after reading. -/
theorem readFree?_inside (hstr : isStringType pf.kind = false) (hpos : 0 < moTypeFixedSize pf.kind)
    {b : Bool} (hfree : pf.readFree? = some b) (hnull : pf.op ≠ .isNull)
    (hnotNull : pf.op ≠ .isNotNull) :
    b = if pf.op = .inSet then pf.inValues.any fun e => hitBytes pf.kind bs e.bytes
        else compareBytes pf bs := by
  have hunloaded : pf.kind.isLoaded = false → scalarTypeOf pf.kind = none ∧ pf.kind ≠ .uuid := by
    intro h
    rw [MOTypeOid.isLoaded, Bool.or_eq_false_iff] at h
    exact ⟨Option.isNone_iff_eq_none.mp (Option.isSome_eq_false_iff.mp h.2), by simpa using h.1⟩
  have hmiss : pf.kind.isLoaded = false → ∀ cp, hitBytes pf.kind bs cp = false := by
    intro h cp
    obtain ⟨hst, huuid⟩ := hunloaded h
    unfold hitBytes
    cases hk : pf.kind <;> simp [hk, scalarTypeOf] at hst huuid ⊢
  have hcmp : pf.kind.isLoaded = false → compareBytes pf bs = true := by
    intro h
    obtain ⟨hst, huuid⟩ := hunloaded h
    unfold compareBytes
    split
    · next hk => exact absurd hk huuid
    · rw [hst]
  unfold PushedFilter.readFree? at hfree
  rw [hstr] at hfree
  have hneg : ¬ moTypeFixedSize pf.kind ≤ 0 := by omega
  cases hop : pf.op <;>
    simp only [hop, hneg, ne_eq, not_true_eq_false, Bool.false_eq_true, if_false, false_or,
      reduceCtorEq] at hfree hnull hnotNull ⊢
  case inSet =>
    split at hfree
    · next hor =>
        obtain rfl := Option.some.inj hfree
        rcases hor with hnil | hload
        · simp [hnil]
        · simp [hmiss hload]
    · cases hfree
  all_goals
    split at hfree
    · next hload =>
        obtain rfl := Option.some.inj hfree
        exact (hcmp hload).symm
    · cases hfree

end Inside

/-- The bytes of a fixed-width element are determined by its value. -/
theorem fixedValue_inj {t : MOType} {a b : List Byte} (hlen : a.length = b.length)
    (hva : t.validBytes a = true) (hvb : t.validBytes b = true)
    (h : t.fixedValue a = t.fixedValue b) : a = b := by
  have hbool : leNat a ≤ 1 → leNat b ≤ 1 → (decide (leNat a ≠ 0) = decide (leNat b ≠ 0)) →
      leNat a = leNat b := by
    intro ha hb hdec
    have hiff := decide_eq_decide.mp hdec
    omega
  have huuid : uuidFromBlob a = uuidFromBlob b → a.reverse = b.reverse := by
    intro hu
    unfold uuidFromBlob at hu
    exact leNat_inj (by simpa using hlen) (by unfold beNat at hu; omega)
  unfold MOType.fixedValue at h
  unfold MOType.validBytes at hva hvb
  cases hk : t.kind <;>
    simp only [hk, SqlValue.bool.injEq, SqlValue.int.injEq, SqlValue.decimal.injEq, and_true,
      SqlValue.uuid.injEq, SqlValue.real.injEq, Int.natCast_inj, Int.sub_left_inj] at h hva hvb
  case bool => exact leNat_inj hlen (hbool (of_decide_eq_true hva) (of_decide_eq_true hvb) h)
  case uuid => exact List.reverse_injective (huuid h)
  all_goals
    first
    | exact h
    | exact leInt_inj hlen h
    | exact leNat_inj hlen h

section SameValue
variable {c₁ c₂ : DecodedColumn} {pf : PushedFilter} {r₁ r₂ : Nat} {x : SqlValue}

/-- The answers of the branches that look at the element: `bi` for an IN set,
    `bc` for a comparison. -/
structure ElementAnswers (c₁ c₂ : DecodedColumn) (pf : PushedFilter) (r₁ r₂ : Nat) (bi bc : Bool) :
    Prop where
  inSet : pf.op = .inSet → rowInSet pf c₁ r₁ = some bi ∧ rowInSet pf c₂ r₂ = some bi
  compare : pf.op ≠ .isNull → pf.op ≠ .isNotNull → pf.op ≠ .inSet →
    rowCompare pf c₁ r₁ = some bc ∧ rowCompare pf c₂ r₂ = some bc
  readFree : ∀ b, pf.readFree? = some b → pf.op ≠ .isNull → pf.op ≠ .isNotNull →
    b = if pf.op = .inSet then bi else bc

theorem elementAnswers_string (htype : c₁.type = c₂.type) (hstr : isStringType c₁.kind = true)
    (hv₁ : c₁.storedValue? r₁ = some x) (hv₂ : c₂.storedValue? r₂ = some x)
    (hpf : pf.WellFormed c₁.type) : ∃ bi bc, ElementAnswers c₁ c₂ pf r₁ r₂ bi bc := by
  have hkind : pf.kind = c₁.kind := hpf.kind_eq
  have hkind₂ : pf.kind = c₂.kind := by rw [hkind, DecodedColumn.kind, DecodedColumn.kind, htype]
  have hord : ∀ k : MOTypeOid, isStringType k = true → k.isOrdered = true := by
    intro k hk
    cases k <;> first | rfl | simp [isStringType] at hk
  have hord₁ := hord _ hstr
  have hord₂ := hord c₂.kind (by rw [← hkind₂, hkind]; exact hstr)
  have hwf₂ : ∀ {e : EncodedConstant}, e.WellFormed c₁.type → e.WellFormed c₂.type := by
    intro e he
    rwa [← htype]
  have hcompare : ∃ bc, pf.op ≠ .isNull → pf.op ≠ .isNotNull → pf.op ≠ .inSet →
      rowCompare pf c₁ r₁ = some bc ∧ rowCompare pf c₂ r₂ = some bc := by
    by_cases hop : pf.op ≠ .isNull ∧ pf.op ≠ .isNotNull ∧ pf.op ≠ .inSet
    · have hconst := hpf.constant hop.1 hop.2.1 hop.2.2
      obtain ⟨o, ho, hrow⟩ := rowCompare_spec hord₁ hkind hconst hv₁
      obtain ⟨o', ho', hrow'⟩ := rowCompare_spec hord₂ hkind₂ (hwf₂ hconst) hv₂
      rw [← htype, ho] at ho'
      rw [← Option.some.inj ho'] at hrow'
      exact ⟨_, fun _ _ _ => ⟨hrow, hrow'⟩⟩
    · exact ⟨true, fun h₁ h₂ h₃ => absurd ⟨h₁, h₂, h₃⟩ hop⟩
  obtain ⟨bc, hbc⟩ := hcompare
  refine ⟨_, bc, fun hop => ⟨rowInSet_spec hord₁ hkind (hpf.inValues hop) hv₁, ?_⟩, hbc, ?_⟩
  · rw [rowInSet_spec hord₂ hkind₂ (fun e he => hwf₂ (hpf.inValues hop e he)) hv₂, htype]
  · intro b hfree hnull hnotNull
    rw [PushedFilter.readFree?] at hfree
    rw [hkind, hstr] at hfree
    cases hop : pf.op <;> simp [hop] at hfree hnull hnotNull

theorem elementAnswers_fixed (htype : c₁.type = c₂.type) (hstr : isStringType c₁.kind = false)
    (hpos : 0 < moTypeFixedSize c₁.kind) (hv₁ : c₁.storedValue? r₁ = some x)
    (hv₂ : c₂.storedValue? r₂ = some x) (hkind : pf.kind = c₁.kind) :
    ∃ bi bc, ElementAnswers c₁ c₂ pf r₁ r₂ bi bc := by
  have hkinds : c₂.kind = c₁.kind := by rw [DecodedColumn.kind, DecodedColumn.kind, htype]
  obtain ⟨size, hsize⟩ : ∃ size : Nat, moTypeFixedSize c₁.kind = size :=
    ⟨(moTypeFixedSize c₁.kind).toNat, by omega⟩
  have hsize₂ : moTypeFixedSize c₂.kind = size := by rw [hkinds, hsize]
  have hsz : 0 < size := by omega
  obtain ⟨bs, hbs, hvalid, hval⟩ :=
    DecodedColumn.element?_of_storedValue? hsize hsz (by rw [hv₁]; rfl)
  obtain ⟨bs₂, hbs₂, hvalid₂, hval₂⟩ :=
    DecodedColumn.element?_of_storedValue? hsize₂ hsz (by rw [hv₂]; rfl)
  have hsame : c₁.type.fixedValue bs = c₁.type.fixedValue bs₂ := by
    rw [hv₁] at hval
    rw [hv₂, ← htype] at hval₂
    exact (Option.some.inj hval).symm.trans (Option.some.inj hval₂)
  obtain rfl : bs = bs₂ := by
    refine fixedValue_inj ?_ hvalid (by rw [htype]; exact hvalid₂) hsame
    rw [DecodedColumn.element?_length hbs, DecodedColumn.element?_length hbs₂]
  refine ⟨pf.inValues.any fun e => hitBytes c₁.kind bs e.bytes, compareBytes pf bs,
    fun _ => ⟨rowInSet_inside hkind hstr hsize hsz hbs, ?_⟩,
    fun _ _ _ => ⟨rowCompare_inside hkind hstr hsize hsz hbs, ?_⟩, ?_⟩
  · rw [rowInSet_inside (hkind.trans hkinds.symm) (by rw [hkinds, hstr]) hsize₂ hsz hbs₂, hkinds]
  · exact rowCompare_inside (hkind.trans hkinds.symm) (by rw [hkinds, hstr]) hsize₂ hsz hbs₂
  · intro b hfree hnull hnotNull
    rw [← hkind]
    exact readFree?_inside (by rw [hkind, hstr]) (by rw [hkind]; exact hpos) hfree hnull hnotNull

/-- Where the element is there, a filter's answer depends on its value alone,
    and a read-free answer is that answer. -/
theorem rowPassesFilter_inside (htype : c₁.type = c₂.type)
    (hfill : 0 < moTypeFixedSize c₁.kind ∨ isStringType c₁.kind = true)
    (hv₁ : c₁.storedValue? r₁ = some x) (hv₂ : c₂.storedValue? r₂ = some x)
    (hn₁ : c₁.filterNull r₁ = false) (hn₂ : c₂.filterNull r₂ = false)
    (hpf : pf.WellFormed c₁.type) :
    ∃ b, rowPassesFilter pf c₁ r₁ = some b ∧ rowPassesFilter pf c₂ r₂ = some b ∧
      ∀ b', pf.readFree? = some b' → b' = b := by
  have hanswers : ∃ bi bc, ElementAnswers c₁ c₂ pf r₁ r₂ bi bc := by
    cases hstr : isStringType c₁.kind with
    | true => exact elementAnswers_string htype hstr hv₁ hv₂ hpf
    | false =>
        have hpos : 0 < moTypeFixedSize c₁.kind := hfill.resolve_right (by simp [hstr])
        exact elementAnswers_fixed htype hstr hpos hv₁ hv₂ hpf.kind_eq
  obtain ⟨bi, bc, hin, hcompare, hfree⟩ := hanswers
  unfold rowPassesFilter
  rw [hn₁, hn₂]
  by_cases hnull : pf.op = .isNull
  · refine ⟨false, by rw [hnull], by rw [hnull], fun b' hb' => ?_⟩
    rw [PushedFilter.readFree?, hnull] at hb'
    exact (Option.some.inj hb').symm
  · by_cases hnotNull : pf.op = .isNotNull
    · refine ⟨true, by rw [hnotNull]; rfl, by rw [hnotNull]; rfl, fun b' hb' => ?_⟩
      rw [PushedFilter.readFree?, hnotNull] at hb'
      exact (Option.some.inj hb').symm
    · by_cases hset : pf.op = .inSet
      · obtain ⟨h₁, h₂⟩ := hin hset
        refine ⟨bi, by rw [hset]; exact h₁, by rw [hset]; exact h₂, fun b' hb' => ?_⟩
        rw [hfree b' hb' hnull hnotNull, if_pos hset]
      · obtain ⟨h₁, h₂⟩ := hcompare hnull hnotNull hset
        refine ⟨bc, ?_, ?_, fun b' hb' => ?_⟩
        · split <;> first | contradiction | exact h₁
        · split <;> first | contradiction | exact h₂
        · rw [hfree b' hb' hnull hnotNull, if_neg hset]

end SameValue

end TaeScanner
