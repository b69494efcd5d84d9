/-
  TaeScanner.Lib.Fields

  Reading the parts of a byte string that was put together from parts: a cursor
  that takes a length-checked front, and slices at a known offset.  A writer
  concatenates; each lemma here undoes one concatenation for a reader.
-/

import TaeScanner.Lib.Bytes

namespace TaeScanner.Lib

-- ============================================================================
-- The front of a buffer
-- ============================================================================

section Cursor
variable {α : Type _} {ε : Type _} {e : ε} {n : Nat} {xs rest p : List α}

/-- Take `n` elements off the front; `e` when fewer are left. -/
def takeFront (e : ε) (n : Nat) (p : List α) : Except ε (List α × List α) :=
  if p.length < n then .error e else .ok (p.take n, p.drop n)

theorem takeFront_append (h : xs.length = n) : takeFront e n (xs ++ rest) = .ok (xs, rest) := by
  rw [takeFront, if_neg (by rw [List.length_append]; omega), ← h, List.take_left, List.drop_left]

end Cursor

-- ============================================================================
-- Slices of concatenations
-- ============================================================================

section Slices
variable {α : Type _} {xs ys pre post : List α} {off n k : Nat}

theorem slice?_append_left (h : off + n ≤ xs.length) : slice? (xs ++ ys) off n = slice? xs off n := by
  rw [slice?_of_le h, slice?_of_le (by rw [List.length_append]; omega),
    List.drop_append_of_le_length (by omega), List.take_append_of_le_length]
  rw [List.length_drop]
  omega

theorem slice?_append_right (h : xs.length + k = off) : slice? (xs ++ ys) off n = slice? ys k n := by
  subst h
  by_cases hle : k + n ≤ ys.length
  · rw [slice?_of_le hle, slice?_of_le (by rw [List.length_append]; omega),
      List.drop_length_add_append]
  · rw [slice?, slice?, if_neg hle, if_neg (by rw [List.length_append]; omega)]

/-- The part between what was written before and what was written after it. -/
theorem slice?_part (hoff : pre.length = off) (hn : xs.length = n) :
    slice? (pre ++ (xs ++ post)) off n = some xs := by
  rw [slice?_append_right (k := 0) (by omega), slice?_append_left (by omega), slice?_of_le (by omega),
    List.drop_zero, ← hn, List.take_length]

/-- The last part. -/
theorem slice?_suffix (hoff : pre.length = off) (hn : xs.length = n) :
    slice? (pre ++ xs) off n = some xs := by
  have hpart : slice? (pre ++ (xs ++ [])) off n = some xs := slice?_part hoff hn
  rwa [List.append_nil] at hpart

/-- A slice of a slice. -/
theorem slice?_slice {s : List α} (h : slice? xs off n = some s) {i m : Nat} (him : i + m ≤ n) :
    slice? s i m = slice? xs (off + i) m := by
  obtain ⟨hle, rfl⟩ := slice?_eq_some.mp h
  have hlen : ((xs.drop off).take n).length = n := by
    rw [List.length_take, List.length_drop]
    omega
  rw [slice?_of_le (by omega), slice?_of_le (by omega), List.drop_take, List.take_take,
    List.drop_drop, Nat.min_eq_left (by omega)]

/-- A whole buffer is its own slice. -/
theorem slice?_self (xs : List α) : slice? xs 0 xs.length = some xs := by
  rw [slice?_of_le (by omega), List.drop_zero, List.take_length]

/-- The first part. -/
theorem slice?_front (hn : xs.length = n) : slice? (xs ++ ys) 0 n = some xs := by
  rw [slice?_append_left (by omega), ← hn, slice?_self]

end Slices

-- ============================================================================
-- Writing into a buffer
-- ============================================================================

section Overwrite
variable {α : Type _} {xs ys : List α} {off i n : Nat}

/-- The elements from `off` on, replaced by others. -/
def overwrite (xs : List α) (off : Nat) (ys : List α) : List α :=
  xs.take off ++ (ys ++ xs.drop (off + ys.length))

theorem overwrite_length (h : off + ys.length ≤ xs.length) : (overwrite xs off ys).length = xs.length := by
  simp only [overwrite, List.length_append, List.length_take, List.length_drop]
  omega

theorem slice?_overwrite_self (h : off ≤ xs.length) (hn : ys.length = n) :
    slice? (overwrite xs off ys) off n = some ys := by
  apply slice?_part _ hn
  rw [List.length_take]
  omega

/-- What lies before the place that was written. -/
theorem slice?_overwrite_before (h : i + n ≤ off) (hle : off + ys.length ≤ xs.length) :
    slice? (overwrite xs off ys) i n = slice? xs i n := by
  have htake : (xs.take off).length = off := by
    rw [List.length_take]
    omega
  calc slice? (overwrite xs off ys) i n
      = slice? (xs.take off) i n := slice?_append_left (by omega)
    _ = slice? (xs.take off ++ xs.drop off) i n := (slice?_append_left (by omega)).symm
    _ = slice? xs i n := by rw [List.take_append_drop]

/-- What lies behind the place that was written. -/
theorem slice?_overwrite_after (h : off + ys.length ≤ i) (hle : off + ys.length ≤ xs.length) :
    slice? (overwrite xs off ys) i n = slice? xs i n := by
  have hfront : (xs.take off ++ ys).length + (i - (off + ys.length)) = i := by
    rw [List.length_append, List.length_take]
    omega
  have htake : (xs.take (off + ys.length)).length + (i - (off + ys.length)) = i := by
    rw [List.length_take]
    omega
  calc slice? (overwrite xs off ys) i n
      = slice? ((xs.take off ++ ys) ++ xs.drop (off + ys.length)) i n := by
        rw [overwrite, List.append_assoc]
    _ = slice? (xs.drop (off + ys.length)) (i - (off + ys.length)) n := slice?_append_right hfront
    _ = slice? (xs.take (off + ys.length) ++ xs.drop (off + ys.length)) i n :=
        (slice?_append_right htake).symm
    _ = slice? xs i n := by rw [List.take_append_drop]

/-- Several fields written one after the other, each at its offset. -/
def writeFields (xs : List α) (fields : List (Nat × List α)) : List α :=
  fields.foldl (fun xs f => overwrite xs f.1 f.2) xs

variable {fields : List (Nat × List α)}

theorem writeFields_length (hin : ∀ f ∈ fields, f.1 + f.2.length ≤ xs.length) :
    (writeFields xs fields).length = xs.length := by
  induction fields generalizing xs with
  | nil => rfl
  | cons f fields ih =>
      rw [List.forall_mem_cons] at hin
      have hlen := overwrite_length hin.1
      exact (ih (fun g hg => hlen ▸ hin.2 g hg)).trans hlen

/-- What lies beside all fields is left as it was. -/
theorem slice?_writeFields_gap (hin : ∀ f ∈ fields, f.1 + f.2.length ≤ xs.length)
    (hgap : ∀ f ∈ fields, f.1 + f.2.length ≤ i ∨ i + n ≤ f.1) :
    slice? (writeFields xs fields) i n = slice? xs i n := by
  induction fields generalizing xs with
  | nil => rfl
  | cons f fields ih =>
      rw [List.forall_mem_cons] at hin hgap
      have hlen := overwrite_length hin.1
      refine (ih (fun g hg => hlen ▸ hin.2 g hg) hgap.2).trans ?_
      rcases hgap.1 with hbefore | hafter
      · exact slice?_overwrite_after hbefore hin.1
      · exact slice?_overwrite_before hafter hin.1

/-- A field that no later field touches reads back. -/
theorem slice?_writeFields (hin : ∀ f ∈ fields, f.1 + f.2.length ≤ xs.length)
    (hapart : fields.Pairwise fun f g => g.1 + g.2.length ≤ f.1 ∨ f.1 + f.2.length ≤ g.1)
    {f : Nat × List α} (hf : f ∈ fields) (hn : f.2.length = n) :
    slice? (writeFields xs fields) f.1 n = some f.2 := by
  subst hn
  induction fields generalizing xs with
  | nil => cases hf
  | cons g fields ih =>
      rw [List.forall_mem_cons] at hin
      rw [List.pairwise_cons] at hapart
      have hlen := overwrite_length hin.1
      have hin' : ∀ g' ∈ fields, g'.1 + g'.2.length ≤ (overwrite xs g.1 g.2).length :=
        fun g' hg' => hlen ▸ hin.2 g' hg'
      rcases List.mem_cons.mp hf with rfl | hf
      · exact (slice?_writeFields_gap hin' hapart.1).trans
          (slice?_overwrite_self (Nat.le_of_add_right_le hin.1) rfl)
      · exact ih hin' hapart.2 hf

end Overwrite

-- ============================================================================
-- Parts one behind the other
-- ============================================================================

section Parts
variable {α : Type _} {parts : List (List α)} {part : List α} {k w : Nat}

/-- Where a part of a concatenation starts. -/
def startOf (parts : List (List α)) (k : Nat) : Nat := ((parts.take k).map List.length).sum

theorem startOf_succ_cons : startOf (part :: parts) (k + 1) = part.length + startOf parts k := by
  rw [startOf, List.take_succ_cons, List.map_cons, List.sum_cons, startOf]

theorem slice?_flatten (h : parts[k]? = some part) :
    slice? parts.flatten (startOf parts k) part.length = some part := by
  induction parts generalizing k with
  | nil => cases h
  | cons first parts ih =>
      cases k with
      | zero =>
          obtain rfl := Option.some.inj h
          exact slice?_front rfl
      | succ k =>
          rw [startOf_succ_cons, List.flatten_cons, slice?_append_right rfl]
          exact ih h

/-- Parts of one width. -/
theorem startOf_of_width (hw : ∀ part ∈ parts, part.length = w) (hk : k ≤ parts.length) :
    startOf parts k = k * w := by
  induction parts generalizing k with
  | nil =>
      obtain rfl : k = 0 := Nat.le_zero.mp hk
      rw [Nat.zero_mul]
      rfl
  | cons first parts ih =>
      rw [List.forall_mem_cons] at hw
      cases k with
      | zero =>
          rw [Nat.zero_mul]
          rfl
      | succ k => rw [startOf_succ_cons, hw.1, ih hw.2 (Nat.le_of_succ_le_succ hk), Nat.succ_mul, Nat.add_comm]

theorem flatten_length_of_width (hw : ∀ part ∈ parts, part.length = w) :
    parts.flatten.length = parts.length * w := by
  have h := startOf_of_width hw (Nat.le_refl parts.length)
  rwa [startOf, List.take_length, ← List.length_flatten] at h

end Parts

-- ============================================================================
-- Words
-- ============================================================================

/-- The little-endian 64-bit words a byte string spells; a rest is dropped. -/
def words64 (bs : List Byte) : List (BitVec 64) :=
  (List.range (bs.length / 8)).map fun i => BitVec.ofNat 64 (leNat ((bs.drop (8 * i)).take 8))

/-- The bytes of a list of words. -/
def bytesOfWords (ws : List (BitVec 64)) : List Byte := ws.flatMap fun w => leBytes 8 w.toNat

theorem bytesOfWords_length (ws : List (BitVec 64)) : (bytesOfWords ws).length = 8 * ws.length := by
  induction ws with
  | nil => rfl
  | cons w ws ih =>
      rw [bytesOfWords, List.flatMap_cons, List.length_append, leBytes_length, ← bytesOfWords, ih,
        List.length_cons]
      omega

theorem words64_append {front : List Byte} (rest : List Byte) (h : front.length = 8) :
    words64 (front ++ rest) = BitVec.ofNat 64 (leNat front) :: words64 rest := by
  have hcount : (front ++ rest).length / 8 = rest.length / 8 + 1 := by
    rw [List.length_append, h]
    omega
  rw [words64, hcount, List.range_succ_eq_map, List.map_cons, List.map_map]
  congr 1
  · rw [Nat.mul_zero, List.drop_zero, ← h, List.take_left]
  · apply List.map_congr_left
    intro i _
    have hoff : 8 * (i + 1) = front.length + 8 * i := by omega
    show BitVec.ofNat 64 (leNat (((front ++ rest).drop (8 * (i + 1))).take 8)) = _
    rw [hoff, List.drop_length_add_append]

/-- Reading the words that were written. -/
theorem words64_bytesOfWords (ws : List (BitVec 64)) : words64 (bytesOfWords ws) = ws := by
  induction ws with
  | nil => rfl
  | cons w ws ih =>
      have hw : w.toNat < 256 ^ 8 := w.isLt
      rw [bytesOfWords, List.flatMap_cons, ← bytesOfWords, words64_append _ (leBytes_length ..), ih,
        leNat_leBytes, Nat.mod_eq_of_lt hw, BitVec.ofNat_toNat, BitVec.setWidth_eq]

end TaeScanner.Lib
