/-
  TaeScanner.Reader.DecodeVector

  `DecodeVector`: the MO vector binary format, read with a cursor.

  Vector layout:
    [class 1B] [Type 16B] [length 4B]
    [dataLen 4B] [data ...] [areaLen 4B] [area ...] [nspLen 4B] [nsp ...]
    [sorted 1B]
-/

import TaeScanner.Lib.Fields
import TaeScanner.Reader.ReadBytes
import TaeScanner.Table.Column

namespace TaeScanner

open Lib

/-- The 16 bytes of a type descriptor, copied from disk. -/
def MOType.ofBytes (bs : List Byte) : MOType where
  oid := (bs[0]?).getD 0
  charset := (bs[1]?).getD 0
  notNull := (bs[2]?).getD 0
  dummy2 := (bs[3]?).getD 0
  size := leInt ((bs.drop 4).take 4)
  width := leInt ((bs.drop 8).take 4)
  scale := leInt ((bs.drop 12).take 4)

/-- Fail unless `n` bytes are left under the cursor. -/
def takeOr (what : String) (n : Nat) (p : List Byte) : Except ReadError (List Byte × List Byte) :=
  takeFront (.runtime what) n p

/-- The null section, `[count int64][len uint64][dataSize uint64][uint64 words...]`;
    one shorter than its header is skipped.  The number of words is 32 bits wide,
    and so is the number of bytes that are checked and copied. -/
def decodeNulls (nsp : List Byte) : Except ReadError (Nat × List (BitVec 64)) :=
  if nsp.length < 24 then .ok (0, [])
  else
    let count := leNat (nsp.take 8)
    let dataSize := leNat ((nsp.drop 16).take 8)
    let words := dataSize / 8 % 2 ^ 32
    let copied := wrapMul 32 words 8
    if nsp.length < wrapAdd 32 24 copied then .error (.runtime "nsp data overflow")
    else
      match slice? nsp 24 copied with
      | some bytes => .ok (count, words64 bytes ++ List.replicate (words - copied / 8) 0)
      | none => .error .badRange

/-- Parse an MO vector. -/
def decodeVector (buf : List Byte) : Except ReadError DecodedColumn := do
  let (vecClass, p) ← takeOr "vector too short for class" 1 buf
  let (type, p) ← takeOr "vector too short for type" 16 p
  let (length, p) ← takeOr "vector too short for length" 4 p
  let (dataLen, p) ← takeOr "vector too short for dataLen" 4 p
  let (data, p) ← takeOr "vector data overflow" (leNat dataLen) p
  let (areaLen, p) ← takeOr "vector too short for areaLen" 4 p
  let (area, p) ← takeOr "vector area overflow" (leNat areaLen) p
  let (nspLen, p) ← takeOr "vector too short for nspLen" 4 p
  let (nsp, p) ← takeOr "vector nsp overflow" (leNat nspLen) p
  let (nullCount, nullBitmap) ← decodeNulls nsp
  .ok {
    type := MOType.ofBytes type
    rowCount := leNat length
    data := data
    area := area
    nullBitmap := nullBitmap
    nullCount := nullCount
    isSorted := (p.head?).any (· != 0)
    vecClass := (vecClass[0]?).getD 0 }

-- ============================================================================
-- Decoding what was laid out
-- ============================================================================

/-- The sections of a vector. -/
structure VectorSections where
  vecClass : Byte
  type : List Byte
  length : Nat
  data : List Byte
  area : List Byte
  nsp : List Byte
  sorted : Byte

/-- The sections in their order, each behind its length. -/
def VectorSections.layout (v : VectorSections) : List Byte :=
  [v.vecClass] ++ (v.type ++ (leBytes 4 v.length ++
    (leBytes 4 v.data.length ++ (v.data ++
      (leBytes 4 v.area.length ++ (v.area ++
        (leBytes 4 v.nsp.length ++ (v.nsp ++ [v.sorted]))))))))

/-- Lengths that their fields can hold. -/
structure VectorSections.Fits (v : VectorSections) : Prop where
  type_length : v.type.length = 16
  length_lt : v.length < 2 ^ 32
  data_lt : v.data.length < 2 ^ 32
  area_lt : v.area.length < 2 ^ 32
  nsp_lt : v.nsp.length < 2 ^ 32

/-- A 32-bit field holds what was written. -/
theorem leNat_leBytes_four {n : Nat} (h : n < 2 ^ 32) : leNat (leBytes 4 n) = n := by
  rw [leNat_leBytes, Nat.mod_eq_of_lt]
  exact h

/-- The sections up to the sorted flag, which may be missing. -/
def VectorSections.body (v : VectorSections) : List Byte :=
  [v.vecClass] ++ (v.type ++ (leBytes 4 v.length ++
    (leBytes 4 v.data.length ++ (v.data ++
      (leBytes 4 v.area.length ++ (v.area ++
        (leBytes 4 v.nsp.length ++ v.nsp)))))))

theorem VectorSections.layout_append (v : VectorSections) (rest : List Byte) :
    v.layout ++ rest = v.body ++ v.sorted :: rest := by
  simp only [layout, body, List.append_assoc, List.cons_append, List.nil_append]

/-- Decoding finds every section where the body put it, whatever follows; it then
    depends on the null section. -/
theorem decodeVector_body {v : VectorSections} (h : v.Fits) (rest : List Byte) :
    decodeVector (v.body ++ rest) = (decodeNulls v.nsp).map fun nulls => {
      type := MOType.ofBytes v.type, rowCount := v.length, data := v.data, area := v.area,
      nullBitmap := nulls.2, nullCount := nulls.1, isSorted := (rest.head?).any (· != 0),
      vecClass := v.vecClass } := by
  have hwidth : ∀ n : Nat, (leBytes 4 n).length = 4 := leBytes_length 4
  have hone : [v.vecClass].length = 1 := rfl
  simp only [decodeVector, takeOr, VectorSections.body, List.append_assoc, bind, Except.bind,
    takeFront_append hone, takeFront_append h.type_length, takeFront_append (hwidth _),
    leNat_leBytes_four h.length_lt, leNat_leBytes_four h.data_lt, leNat_leBytes_four h.area_lt,
    leNat_leBytes_four h.nsp_lt, takeFront_append rfl]
  cases decodeNulls v.nsp with
  | error e => rfl
  | ok nulls => rfl

/-- Decoding finds every section where the layout put it, whatever follows. -/
theorem decodeVector_layout {v : VectorSections} (h : v.Fits) (rest : List Byte) {nullCount : Nat}
    {nullBitmap : List (BitVec 64)} (hnulls : decodeNulls v.nsp = .ok (nullCount, nullBitmap)) :
    decodeVector (v.layout ++ rest) = .ok {
      type := MOType.ofBytes v.type, rowCount := v.length, data := v.data, area := v.area,
      nullBitmap := nullBitmap, nullCount := nullCount, isSorted := v.sorted != 0,
      vecClass := v.vecClass } := by
  rw [VectorSections.layout_append, decodeVector_body h, hnulls]
  rfl

/-- A null section of whole words behind its header is read as written. -/
theorem decodeNulls_words (count bitmapLen : Nat) (ws : List (BitVec 64)) (hcount : count < 2 ^ 64)
    (hws : 24 + 8 * ws.length < 2 ^ 32) :
    decodeNulls (leBytes 8 count ++ (leBytes 8 bitmapLen ++ (leBytes 8 (8 * ws.length) ++
      bytesOfWords ws))) = .ok (count, ws) := by
  have hwidth : ∀ n : Nat, (leBytes 8 n).length = 8 := leBytes_length 8
  have hfield : ∀ n : Nat, n < 2 ^ 64 → leNat (leBytes 8 n) = n := fun n hn => by
    rw [leNat_leBytes, Nat.mod_eq_of_lt]
    exact hn
  have hlen : (leBytes 8 count ++ (leBytes 8 bitmapLen ++ (leBytes 8 (8 * ws.length) ++
      bytesOfWords ws))).length = 24 + 8 * ws.length := by
    simp only [List.length_append, hwidth, bytesOfWords_length]
    omega
  have hcountField : (leBytes 8 count ++ (leBytes 8 bitmapLen ++ (leBytes 8 (8 * ws.length) ++
      bytesOfWords ws))).take 8 = leBytes 8 count := List.take_left' (hwidth _)
  have hsizeField : ((leBytes 8 count ++ (leBytes 8 bitmapLen ++ (leBytes 8 (8 * ws.length) ++
      bytesOfWords ws))).drop 16).take 8 = leBytes 8 (8 * ws.length) := by
    rw [← List.append_assoc, List.drop_left' (by rw [List.length_append, hwidth, hwidth]),
      List.take_left' (hwidth _)]
  have hwords : ws.length % 2 ^ 32 = ws.length := Nat.mod_eq_of_lt (by omega)
  have hcopied : wrapMul 32 ws.length 8 = 8 * ws.length := by
    rw [wrapMul_of_lt (by omega), Nat.mul_comm]
  have hbytes : slice? (leBytes 8 count ++ (leBytes 8 bitmapLen ++ (leBytes 8 (8 * ws.length) ++
      bytesOfWords ws))) 24 (8 * ws.length) = some (bytesOfWords ws) := by
    have hpre : (leBytes 8 count ++ (leBytes 8 bitmapLen ++ leBytes 8 (8 * ws.length))).length = 24 := by
      simp only [List.length_append, hwidth]
    have hpart := slice?_suffix hpre (bytesOfWords_length ws)
    simpa only [List.append_assoc] using hpart
  rw [decodeNulls]
  simp only [hlen, hcountField, hsizeField, hfield count hcount,
    hfield (8 * ws.length) (by omega), hwords, hcopied, wrapAdd_of_lt hws, hbytes,
    words64_bytesOfWords, Nat.lt_irrefl, if_false, Nat.mul_div_cancel_left _ (by decide : 0 < 8),
    Nat.sub_self, List.replicate_zero, List.append_nil]
  rw [if_neg (by omega)]

/-- Without a null section there are no NULLs. -/
theorem decodeNulls_nil : decodeNulls [] = .ok (0, []) := rfl

end TaeScanner
