/-
  TaeScanner.Lib.ByteOrder

  `memcmp` and the orders it computes.  On the common prefix it agrees with the
  lexicographic order of byte strings, so comparing the common prefix and then
  the lengths is exactly that order (`strCompare_eq_compare`); on byte strings
  of one length it is the order of the big-endian numbers they spell
  (`memcmp_eq_compare_beNat`).
-/

import TaeScanner.Lib.Bytes

namespace TaeScanner.Lib

/-- `memcmp(a, b, n)`: the first difference among the first `n` bytes decides. -/
def memcmp : List Byte → List Byte → Nat → Ordering
  | a :: as, b :: bs, n + 1 =>
      if a.toNat < b.toNat then .lt
      else if b.toNat < a.toNat then .gt
      else memcmp as bs n
  | _, _, _ => .eq

/-- `memcmp` on the common length, ties broken by the lengths. -/
def strCompare (a b : List Byte) : Ordering :=
  match memcmp a b (min a.length b.length) with
  | .eq => compare a.length b.length
  | o => o

/-! ## Equality -/

/-- `memcmp` finds no difference iff the compared prefixes are equal. -/
theorem memcmp_eq_iff {a b : List Byte} {n : Nat} (ha : n ≤ a.length) (hb : n ≤ b.length) :
    memcmp a b n = .eq ↔ a.take n = b.take n := by
  induction n generalizing a b with
  | zero => cases a <;> cases b <;> simp [memcmp]
  | succ n ih =>
      cases a with
      | nil => simp at ha
      | cons x xs =>
        cases b with
        | nil => simp at hb
        | cons y ys =>
          have hxs : n ≤ xs.length := by simpa using ha
          have hys : n ≤ ys.length := by simpa using hb
          have hrec := ih hxs hys
          simp only [memcmp, List.take_succ_cons, List.cons.injEq]
          split
          · next hlt => simp only [reduceCtorEq, false_iff, not_and]; rintro rfl; omega
          · split
            · next hgt => simp only [reduceCtorEq, false_iff, not_and]; rintro rfl; omega
            · next hle hge =>
                have hxy : x = y := BitVec.eq_of_toNat_eq (by omega)
                simp only [hxy, true_and, hrec]

/-- On strings of the compared length, `memcmp` tests equality. -/
theorem memcmp_full_eq_iff {a b : List Byte} {n : Nat} (ha : a.length = n) (hb : b.length = n) :
    memcmp a b n = .eq ↔ a = b := by
  rw [memcmp_eq_iff (by omega) (by omega), List.take_of_length_le (by omega),
    List.take_of_length_le (by omega)]

/-- Only the first `n` bytes are looked at. -/
theorem memcmp_take_left (a b : List Byte) {n m : Nat} (h : n ≤ m) :
    memcmp (a.take m) b n = memcmp a b n := by
  induction n generalizing a b m with
  | zero => cases a <;> cases b <;> simp [memcmp]
  | succ n ih =>
      obtain ⟨k, rfl⟩ : ∃ k, m = k + 1 := ⟨m - 1, by omega⟩
      cases a with
      | nil => simp
      | cons x xs =>
          cases b with
          | nil => simp [memcmp]
          | cons y ys =>
              simp only [List.take_succ_cons, memcmp]
              rw [ih xs ys (by omega)]

/-! ## The lexicographic order -/

theorem strCompare_cons (x y : Byte) (xs ys : List Byte) :
    strCompare (x :: xs) (y :: ys)
      = if x.toNat < y.toNat then .lt
        else if y.toNat < x.toNat then .gt
        else strCompare xs ys := by
  unfold strCompare
  rw [List.length_cons, List.length_cons, Nat.succ_min_succ]
  by_cases hlt : x.toNat < y.toNat
  · simp [memcmp, hlt]
  · by_cases hgt : y.toNat < x.toNat
    · simp [memcmp, hlt, hgt]
    · simp only [memcmp, hlt, hgt, if_false]
      cases memcmp xs ys (min xs.length ys.length) with
      | lt => rfl
      | gt => rfl
      | eq => simp [Nat.compare_eq_ite_lt]

/-- Common prefix then lengths is the lexicographic order of byte strings. -/
theorem strCompare_eq_compare (a b : List Byte) :
    strCompare a b = compareOfLessAndEq a b := by
  induction a generalizing b with
  | nil =>
      cases b with
      | nil => simp [strCompare, memcmp, compareOfLessAndEq]
      | cons y ys => simp [strCompare, memcmp, compareOfLessAndEq, Nat.compare_eq_lt]
  | cons x xs ih =>
      cases b with
      | nil => simp [strCompare, memcmp, compareOfLessAndEq, Nat.compare_eq_gt]
      | cons y ys =>
          rw [strCompare_cons, ih]
          simp only [compareOfLessAndEq, List.cons_lt_cons_iff, List.cons.injEq, BitVec.lt_def]
          by_cases hlt : x.toNat < y.toNat
          · simp [hlt]
          · by_cases hgt : y.toNat < x.toNat
            · have hne : x ≠ y := by rintro rfl; omega
              simp [hlt, hgt, hne]
            · have hxy : x = y := BitVec.eq_of_toNat_eq (by omega)
              simp [hxy]

theorem compareOfLessAndEq_eq_iff (a b : List Byte) : compareOfLessAndEq a b = .eq ↔ a = b := by
  rw [compareOfLessAndEq]
  constructor
  · intro h
    split at h
    · cases h
    · split at h
      · assumption
      · cases h
  · rintro rfl
    rw [if_neg (List.lt_irrefl a), if_pos rfl]

theorem compareOfLessAndEq_gt_iff (a b : List Byte) : compareOfLessAndEq a b = .gt ↔ b < a := by
  rw [compareOfLessAndEq]
  by_cases hlt : a < b
  · simp [hlt, List.le_of_lt hlt]
  · by_cases heq : a = b
    · simp [heq, List.lt_irrefl b]
    · have hle : b ≤ a := List.not_lt.mp hlt
      have hgt : b < a := (List.le_iff_lt_or_eq.mp hle).resolve_right fun h => heq h.symm
      simp [hlt, heq, hgt]

/-! ## Prefixes -/

/-- A difference `memcmp` finds decides the order of the whole strings. -/
theorem lt_of_memcmp_lt {a b : List Byte} {n : Nat} (h : memcmp a b n = .lt) : a < b := by
  induction n generalizing a b with
  | zero => cases a <;> cases b <;> cases h
  | succ n ih =>
      cases a with
      | nil => cases h
      | cons x xs =>
        cases b with
        | nil => cases h
        | cons y ys =>
          simp only [memcmp] at h
          rw [List.cons_lt_cons_iff, BitVec.lt_def]
          split at h
          · next hlt => exact Or.inl hlt
          · split at h
            · cases h
            · next hle hge => exact Or.inr ⟨BitVec.eq_of_toNat_eq (by omega), ih h⟩

theorem compareOfLessAndEq_swap (a b : List Byte) :
    compareOfLessAndEq b a = (compareOfLessAndEq a b).swap :=
  compareOfLessAndEq_eq_swap (fun h₁ h₂ => List.le_antisymm h₁ h₂) (fun x y => List.le_total x y)
    List.not_le

/-- Cutting a string makes it no greater. -/
theorem take_le (a : List Byte) (n : Nat) : a.take n ≤ a := (List.take_prefix n a).le

/-- Cutting two strings at the same place keeps their order. -/
theorem take_le_take {a b : List Byte} (n : Nat) (h : a ≤ b) : a.take n ≤ b.take n := by
  induction n generalizing a b with
  | zero => exact List.le_refl _
  | succ n ih =>
      cases a with
      | nil => exact List.nil_le _
      | cons x xs =>
        cases b with
        | nil => exact absurd (List.nil_lt_cons x xs) (List.not_lt.mpr h)
        | cons y ys =>
          rw [List.take_succ_cons, List.take_succ_cons, List.cons_le_cons_iff]
          exact (List.cons_le_cons_iff.mp h).imp_right (And.imp_right ih)

/-! ## Big-endian numbers -/

/-- On strings of one length `memcmp` compares the big-endian numbers. -/
theorem memcmp_eq_compare_beNat {a b : List Byte} {n : Nat} (ha : a.length = n)
    (hb : b.length = n) : memcmp a b n = compare (beNat a) (beNat b) := by
  induction n generalizing a b with
  | zero =>
      rw [List.length_eq_zero_iff] at ha hb
      rw [ha, hb]
      rfl
  | succ n ih =>
      cases a with
      | nil => simp at ha
      | cons x xs =>
        cases b with
        | nil => simp at hb
        | cons y ys =>
          have hxs : xs.length = n := by simpa using ha
          have hys : ys.length = n := by simpa using hb
          have hbx := beNat_lt xs
          have hby := beNat_lt ys
          rw [hxs] at hbx
          rw [hys] at hby
          rw [memcmp, ih hxs hys, beNat_cons, beNat_cons, hxs, hys]
          by_cases hlt : x.toNat < y.toNat
          · have hstep : (x.toNat + 1) * 256 ^ n ≤ y.toNat * 256 ^ n :=
              Nat.mul_le_mul_right _ hlt
            rw [Nat.add_mul] at hstep
            rw [if_pos hlt, eq_comm, Nat.compare_eq_lt]
            omega
          · rw [if_neg hlt]
            by_cases hgt : y.toNat < x.toNat
            · have hstep : (y.toNat + 1) * 256 ^ n ≤ x.toNat * 256 ^ n :=
                Nat.mul_le_mul_right _ hgt
              rw [Nat.add_mul] at hstep
              rw [if_pos hgt, eq_comm, Nat.compare_eq_gt]
              omega
            · have hxy : x.toNat = y.toNat := by omega
              rw [if_neg hgt, hxy]
              simp only [Nat.compare_eq_ite_lt, Nat.add_lt_add_iff_left]

/-- On strings of one length `memcmp` decides their order. -/
theorem memcmp_whole {a b : List Byte} {n : Nat} (ha : a.length = n) (hb : b.length = n) :
    memcmp a b n = compareOfLessAndEq a b := by
  rw [← strCompare_eq_compare, strCompare, ha, hb, Nat.min_self]
  cases memcmp a b n with
  | lt => rfl
  | gt => rfl
  | eq => exact (Nat.compare_eq_eq.mpr rfl).symm

/-- Strings of one length are ordered like their big-endian numbers. -/
theorem le_iff_beNat_le {a b : List Byte} {n : Nat} (ha : a.length = n) (hb : b.length = n) :
    a ≤ b ↔ beNat a ≤ beNat b := by
  rw [← List.not_lt, ← compareOfLessAndEq_gt_iff, ← memcmp_whole ha hb, memcmp_eq_compare_beNat ha hb,
    Nat.compare_eq_gt, Nat.not_lt]

end TaeScanner.Lib
