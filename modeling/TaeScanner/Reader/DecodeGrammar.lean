/-
  TaeScanner.Reader.DecodeGrammar

  Which buffers `DecodeVector` accepts, and what it makes of them.

    * the sections of a vector are unique in a buffer (`body_inj`), and a buffer
      without them is refused (`decodeVector_sections`);
    * the null section declares a number of words in a 64-bit size, which is
      narrowed before it is checked.  The check is the exact one unless the
      narrowed number fits where the declared one does not.
-/

import TaeScanner.Lib.Checks
import TaeScanner.Reader.DecodeVector

namespace TaeScanner

open Lib

-- ============================================================================
-- The grammar
-- ============================================================================

/-- The number of words a null section declares. -/
def declaredWords (nsp : List Byte) : Nat := leNat ((nsp.drop 16).take 8) / 8

/-- The words a null section with a header declares are there. -/
def NullsFit (nsp : List Byte) : Prop :=
  24 ≤ nsp.length → 24 + 8 * declaredWords nsp ≤ nsp.length

/-- The column is what the sections declare. -/
structure VectorSections.Declares (v : VectorSections) (col : DecodedColumn) : Prop where
  type : col.type = MOType.ofBytes v.type
  rowCount : col.rowCount = v.length
  vecClass : col.vecClass = v.vecClass
  data : col.data = v.data
  area : col.area = v.area
  nullCount : col.nullCount = if 24 ≤ v.nsp.length then leNat (v.nsp.take 8) else 0
  nullBitmap_length : col.nullBitmap.length = if 24 ≤ v.nsp.length then declaredWords v.nsp else 0
  nullBitmap_word : ∀ i < col.nullBitmap.length,
    col.nullBitmap[i]? = some (BitVec.ofNat 64 (leNat ((v.nsp.drop (24 + 8 * i)).take 8)))

/-- Decoding the buffer accepts the grammar and nothing else, yields what is declared,
    and never reads outside the buffer. -/
structure DecodesExactly (buf : List Byte) : Prop where
  accepts : (∃ col, decodeVector buf = .ok col) ↔
    ∃ (v : VectorSections) (rest : List Byte), v.Fits ∧ buf = v.body ++ rest ∧ NullsFit v.nsp
  declared : ∀ (col : DecodedColumn) (v : VectorSections) (rest : List Byte),
    decodeVector buf = .ok col → v.Fits → buf = v.body ++ rest → v.Declares col
  inside : decodeVector buf ≠ .error .badRange

/-- The check of the null section in 32 bits says what the exact one says. -/
def NarrowCheckAgrees (nsp : List Byte) : Prop :=
  24 ≤ nsp.length → (24 + 8 * declaredWords nsp) % 2 ^ 32 ≤ nsp.length →
    24 + 8 * declaredWords nsp ≤ nsp.length

-- ============================================================================
-- Sections
-- ============================================================================

/-- What stands behind its own length is determined. -/
theorem lengthPrefixed_inj {xs ys r r' : List Byte} (hx : xs.length < 2 ^ 32) (hy : ys.length < 2 ^ 32)
    (h : leBytes 4 xs.length ++ (xs ++ r) = leBytes 4 ys.length ++ (ys ++ r')) : xs = ys ∧ r = r' := by
  have hwidth : ∀ n : Nat, (leBytes 4 n).length = 4 := leBytes_length 4
  obtain ⟨hlen, htail⟩ := List.append_inj h ((hwidth _).trans (hwidth _).symm)
  have heq : xs.length = ys.length := by
    rw [← leNat_leBytes_four hx, hlen, leNat_leBytes_four hy]
  exact List.append_inj htail heq

/-- A buffer holds one vector at most. -/
theorem VectorSections.body_inj {v v' : VectorSections} (h : v.Fits) (h' : v'.Fits)
    {rest rest' : List Byte} (heq : v.body ++ rest = v'.body ++ rest') : v.nsp = v'.nsp := by
  have hwidth : ∀ n : Nat, (leBytes 4 n).length = 4 := leBytes_length 4
  simp only [body, List.append_assoc] at heq
  obtain ⟨-, heq⟩ := List.append_inj heq rfl
  obtain ⟨-, heq⟩ := List.append_inj heq (h.type_length.trans h'.type_length.symm)
  obtain ⟨-, heq⟩ := List.append_inj heq ((hwidth _).trans (hwidth _).symm)
  obtain ⟨-, heq⟩ := lengthPrefixed_inj h.data_lt h'.data_lt heq
  obtain ⟨-, heq⟩ := lengthPrefixed_inj h.area_lt h'.area_lt heq
  exact (lengthPrefixed_inj h.nsp_lt h'.nsp_lt heq).1

/-- The cursor takes what it asks for, or the buffer is refused. -/
theorem takeOr_step {β : Type _} {P : Prop} {what : String} {n : Nat} {p : List Byte}
    {k : List Byte × List Byte → Except ReadError β}
    (h : ∀ front rest, front.length = n → p = front ++ rest →
      P ∨ ∃ text, k (front, rest) = .error (.runtime text)) :
    P ∨ ∃ text, (takeOr what n p >>= k) = .error (.runtime text) := by
  by_cases hshort : p.length < n
  · exact Or.inr ⟨what, by rw [takeOr, takeFront, if_pos hshort]; rfl⟩
  · have hlen : (p.take n).length = n := by
      rw [List.length_take]
      omega
    rw [takeOr, takeFront, if_neg hshort, ok_bind]
    exact h _ _ hlen (List.take_append_drop n p).symm

/-- A field of four bytes is what is written for its number. -/
theorem leBytes_four {bs : List Byte} (h : bs.length = 4) : leBytes 4 (leNat bs) = bs ∧ leNat bs < 2 ^ 32 := by
  refine ⟨by rw [← h, leBytes_leNat], ?_⟩
  have hlt := leNat_lt bs
  rwa [h] at hlt

/-- A buffer that does not hold the sections is refused. -/
theorem decodeVector_sections (buf : List Byte) :
    (∃ v rest, VectorSections.Fits v ∧ buf = v.body ++ rest) ∨
      ∃ text, decodeVector buf = .error (.runtime text) := by
  rw [decodeVector]
  refine takeOr_step fun cls p₁ hcls h₁ => ?_
  refine takeOr_step fun type p₂ htype h₂ => ?_
  refine takeOr_step fun len p₃ hlen h₃ => ?_
  refine takeOr_step fun dataLen p₄ hdataLen h₄ => ?_
  refine takeOr_step fun data p₅ hdata h₅ => ?_
  refine takeOr_step fun areaLen p₆ hareaLen h₆ => ?_
  refine takeOr_step fun area p₇ harea h₇ => ?_
  refine takeOr_step fun nspLen p₈ hnspLen h₈ => ?_
  refine takeOr_step fun nsp p₉ hnsp h₉ => ?_
  left
  obtain ⟨c, rfl⟩ := List.length_eq_one_iff.mp hcls
  obtain ⟨hlenField, hlenLt⟩ := leBytes_four hlen
  obtain ⟨hdataField, hdataLt⟩ := leBytes_four hdataLen
  obtain ⟨hareaField, hareaLt⟩ := leBytes_four hareaLen
  obtain ⟨hnspField, hnspLt⟩ := leBytes_four hnspLen
  refine ⟨⟨c, type, leNat len, data, area, nsp, 0⟩, p₉, ⟨htype, hlenLt, ?_, ?_, ?_⟩, ?_⟩
  · exact hdata ▸ hdataLt
  · exact harea ▸ hareaLt
  · exact hnsp ▸ hnspLt
  · simp only [VectorSections.body, List.append_assoc, hlenField, hdata, hdataField, harea, hareaField,
      hnsp, hnspField, ← h₉, ← h₈, ← h₇, ← h₆, ← h₅, ← h₄, ← h₃, ← h₂, ← h₁]

-- ============================================================================
-- The null section
-- ============================================================================

section Nulls
variable {nsp : List Byte}

/-- What the check compares: the exact end of the words, narrowed. -/
theorem narrowed_end (n : Nat) : wrapAdd 32 24 (wrapMul 32 (n % 2 ^ 32) 8) = (24 + 8 * n) % 2 ^ 32 := by
  rw [wrapAdd, wrapMul, Nat.add_mod_mod, Nat.add_mod, Nat.mod_mul_mod, ← Nat.add_mod, Nat.mul_comm]

theorem decodeNulls_long (h : 24 ≤ nsp.length) : decodeNulls nsp =
    if nsp.length < (24 + 8 * declaredWords nsp) % 2 ^ 32 then .error (.runtime "nsp data overflow")
    else
      (slice? nsp 24 (wrapMul 32 (declaredWords nsp % 2 ^ 32) 8)).elim (.error .badRange) fun bytes =>
        .ok (leNat (nsp.take 8), words64 bytes ++
          List.replicate (declaredWords nsp % 2 ^ 32 - wrapMul 32 (declaredWords nsp % 2 ^ 32) 8 / 8) 0) := by
  have hwords : leNat ((nsp.drop 16).take 8) / 8 = declaredWords nsp := rfl
  rw [decodeNulls]
  rw [if_neg (Nat.not_lt.mpr h)]
  simp only [hwords, narrowed_end]
  cases slice? nsp 24 (wrapMul 32 (declaredWords nsp % 2 ^ 32) 8) with
  | none => rfl
  | some bytes => rfl

/-- Words that are there are read. -/
theorem decodeNulls_fits (h : 24 ≤ nsp.length) (hlt : nsp.length < 2 ^ 32)
    (hfit : 24 + 8 * declaredWords nsp ≤ nsp.length) : decodeNulls nsp =
      .ok (leNat (nsp.take 8), words64 ((nsp.drop 24).take (8 * declaredWords nsp))) := by
  have hwords : declaredWords nsp % 2 ^ 32 = declaredWords nsp := Nat.mod_eq_of_lt (by omega)
  have hcopied : wrapMul 32 (declaredWords nsp) 8 = 8 * declaredWords nsp := by
    rw [wrapMul_of_lt (by omega), Nat.mul_comm]
  rw [decodeNulls_long h, Nat.mod_eq_of_lt (by omega), if_neg (Nat.not_lt.mpr hfit), hwords, hcopied,
    slice?_of_le hfit]
  simp only [Option.elim_some, Nat.mul_div_cancel_left _ (by decide : 0 < 8), Nat.sub_self, List.replicate_zero,
    List.append_nil]

/-- More words than there are, by the narrowed number too, are refused. -/
theorem decodeNulls_refuses (h : 24 ≤ nsp.length)
    (hlong : nsp.length < (24 + 8 * declaredWords nsp) % 2 ^ 32) :
    decodeNulls nsp = .error (.runtime "nsp data overflow") := by
  rw [decodeNulls_long h, if_pos hlong]

/-- Otherwise the section is accepted, or words outside of it are read. -/
theorem decodeNulls_not_refused (h : 24 ≤ nsp.length)
    (hshort : (24 + 8 * declaredWords nsp) % 2 ^ 32 ≤ nsp.length) :
    (∃ nulls, decodeNulls nsp = .ok nulls) ∨ decodeNulls nsp = .error .badRange := by
  rw [decodeNulls_long h, if_neg (Nat.not_lt.mpr hshort)]
  cases slice? nsp 24 (wrapMul 32 (declaredWords nsp % 2 ^ 32) 8) with
  | none => exact Or.inr rfl
  | some bytes => exact Or.inl ⟨_, rfl⟩

/-- The words of a part of the section. -/
theorem words64_part {n : Nat} (hfit : 24 + 8 * n ≤ nsp.length) :
    (words64 ((nsp.drop 24).take (8 * n))).length = n ∧
      ∀ i < n, (words64 ((nsp.drop 24).take (8 * n)))[i]?
        = some (BitVec.ofNat 64 (leNat ((nsp.drop (24 + 8 * i)).take 8))) := by
  have hcount : ((nsp.drop 24).take (8 * n)).length / 8 = n := by
    rw [List.length_take, List.length_drop]
    omega
  refine ⟨by rw [words64, List.length_map, List.length_range, hcount], fun i hi => ?_⟩
  have hword : (((nsp.drop 24).take (8 * n)).drop (8 * i)).take 8 = (nsp.drop (24 + 8 * i)).take 8 := by
    rw [List.drop_take, List.take_take, List.drop_drop, Nat.min_eq_left (by omega)]
  rw [words64, hcount, List.getElem?_map, List.getElem?_range hi, Option.map_some, hword]

end Nulls

-- ============================================================================
-- Exactness
-- ============================================================================

/-- What a vector decodes to when its null section fits. -/
theorem decodeVector_declares {v : VectorSections} (h : v.Fits) (rest : List Byte)
    (hnulls : NullsFit v.nsp) :
    ∃ col, decodeVector (v.body ++ rest) = .ok col ∧ v.Declares col := by
  rw [decodeVector_body h]
  by_cases hlong : 24 ≤ v.nsp.length
  · have hfit := hnulls hlong
    obtain ⟨hlen, hword⟩ := words64_part hfit
    rw [decodeNulls_fits hlong h.nsp_lt hfit]
    refine ⟨_, rfl, rfl, rfl, rfl, rfl, rfl, ?_, ?_, ?_⟩
    · rw [if_pos hlong]
    · rw [if_pos hlong]
      exact hlen
    · intro i hi
      exact hword i (hlen ▸ hi)
  · have hskip : decodeNulls v.nsp = .ok (0, []) := if_pos (Nat.not_le.mp hlong)
    rw [hskip]
    refine ⟨_, rfl, rfl, rfl, rfl, rfl, rfl, ?_, ?_, ?_⟩
    · rw [if_neg hlong]
    · rw [if_neg hlong]
      rfl
    · intro i hi
      exact absurd hi (Nat.not_lt_zero i)

/-- A buffer outside of the grammar is refused exactly. -/
theorem DecodesExactly.of_refused {buf : List Byte} {text : String}
    (hrefused : decodeVector buf = .error (.runtime text))
    (hno : ∀ (v : VectorSections) (rest : List Byte), v.Fits → buf = v.body ++ rest → ¬NullsFit v.nsp) :
    DecodesExactly buf := by
  have hnot : ∀ col, decodeVector buf ≠ .ok col := by
    intro col hcol
    rw [hrefused] at hcol
    cases hcol
  refine ⟨⟨?_, ?_⟩, ?_, ?_⟩
  · rintro ⟨col, hcol⟩
    exact absurd hcol (hnot col)
  · rintro ⟨v, rest, hfits, heq, hfit⟩
    exact absurd hfit (hno v rest hfits heq)
  · intro col v rest hcol
    exact absurd hcol (hnot col)
  · rw [hrefused]
    intro h
    cases h

/-- Decoding is exact on a buffer iff the narrowed check of its null section, should
    it hold a vector, says what the exact one says. -/
theorem decodeVector_exact_iff (buf : List Byte) :
    DecodesExactly buf ↔ ∀ (v : VectorSections) (rest : List Byte), v.Fits → buf = v.body ++ rest →
      NarrowCheckAgrees v.nsp := by
  constructor
  · rintro ⟨haccepts, -, hinside⟩ v rest hfits rfl hlong hnarrow
    -- the check passes, so the buffer is accepted
    rw [decodeVector_body hfits] at hinside haccepts
    have hok : ∃ nulls, decodeNulls v.nsp = .ok nulls := by
      refine (decodeNulls_not_refused hlong hnarrow).resolve_right fun hbad => hinside ?_
      rw [hbad]
      rfl
    obtain ⟨nulls, hnulls⟩ := hok
    obtain ⟨v', rest', hfits', heq, hfit⟩ := haccepts.mp ⟨_, by rw [hnulls]; rfl⟩
    rw [VectorSections.body_inj hfits hfits' heq] at hlong ⊢
    exact hfit hlong
  · intro hagrees
    rcases decodeVector_sections buf with ⟨v, rest, hfits, rfl⟩ | ⟨text, hrefused⟩
    · by_cases hfit : NullsFit v.nsp
      · obtain ⟨col, hcol, -⟩ := decodeVector_declares hfits rest hfit
        refine ⟨⟨fun _ => ⟨v, rest, hfits, rfl, hfit⟩, fun _ => ⟨col, hcol⟩⟩, ?_, ?_⟩
        · intro col' v' rest' hcol' hfits' heq
          have hfit' : NullsFit v'.nsp := VectorSections.body_inj hfits hfits' heq ▸ hfit
          obtain ⟨col'', hcol'', hdeclares⟩ := decodeVector_declares hfits' rest' hfit'
          rw [← heq, hcol'] at hcol''
          exact Except.ok.inj hcol'' ▸ hdeclares
        · rw [hcol]
          intro h
          cases h
      · -- the exact check fails, and with it the narrowed one
        have hlong : 24 ≤ v.nsp.length := by
          by_contra hshort
          exact hfit fun hlong => absurd hlong hshort
        have hover : v.nsp.length < (24 + 8 * declaredWords v.nsp) % 2 ^ 32 := by
          by_contra hle
          exact hfit fun _ => hagrees v rest hfits rfl hlong (Nat.not_lt.mp hle)
        have hrefused : decodeVector (v.body ++ rest) = .error (.runtime "nsp data overflow") := by
          rw [decodeVector_body hfits, decodeNulls_refuses hlong hover]
          rfl
        refine .of_refused hrefused fun v' rest' hfits' heq hfit' => ?_
        exact absurd (VectorSections.body_inj hfits hfits' heq ▸ hfit') hfit
    · refine .of_refused hrefused fun v rest hfits heq hfit => ?_
      obtain ⟨col, hcol, -⟩ := decodeVector_declares hfits rest hfit
      rw [← heq, hrefused] at hcol
      cases hcol

/-- One row, and a null section that counts one NULL and declares 2^32 words. -/
def wideNulls : VectorSections where
  vecClass := 0
  type := 22 :: List.replicate 15 0
  length := 1
  data := leBytes 4 7
  area := []
  nsp := leBytes 8 1 ++ leBytes 8 1 ++ leBytes 8 (2 ^ 35)
  sorted := 0

/-- The number of words is narrowed to none, so the vector is accepted without a
    bitmap, and its NULL is lost. -/
theorem wideNulls_misread :
    (decodeVector wideNulls.layout).map (fun col => (col.nullCount, col.nullBitmap)) = .ok (1, []) ∧
      ¬DecodesExactly wideNulls.layout := by
  have hdecode : (decodeVector wideNulls.layout).map (fun col => (col.nullCount, col.nullBitmap))
      = .ok (1, []) := by decide +kernel
  refine ⟨hdecode, fun hexact => ?_⟩
  have hfits : wideNulls.Fits := ⟨by decide, by decide, by decide, by decide, by decide⟩
  obtain ⟨col, hcol, -⟩ := map_eq_ok.mp hdecode
  obtain ⟨v, rest, hfits', heq, hfit⟩ := hexact.accepts.mp ⟨col, hcol⟩
  have hbody : wideNulls.layout = wideNulls.body ++ [wideNulls.sorted] := by
    rw [← wideNulls.layout_append, List.append_nil]
  rw [hbody] at heq
  rw [← VectorSections.body_inj hfits hfits' heq] at hfit
  exact absurd (hfit (by decide)) (by decide +kernel)

end TaeScanner
