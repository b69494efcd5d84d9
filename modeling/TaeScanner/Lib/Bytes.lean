/-
  TaeScanner.Lib.Bytes

  Little- and big-endian readings of byte strings, two's complement integers
  over them, and bounds-checked slices of a buffer.

  A machine integer of `n` bytes is its byte string of length `n`; `leNat` and
  `leInt` are the unsigned and the signed reading, `leBytes` and `leBytesInt`
  the writers.  Every reading is injective on byte strings of one length, which
  is what lets a comparison of raw bytes stand for a comparison of values.
-/

import Mathlib.Data.List.Basic
import Mathlib.Tactic.Ring
import Mathlib.Tactic.NormNum

namespace TaeScanner.Lib

/-- One byte of a buffer. -/
abbrev Byte := BitVec 8

/-! ## Unsigned little-endian readings -/

/-- The natural number whose little-endian digits are the given bytes. -/
def leNat : List Byte → Nat
  | [] => 0
  | b :: bs => b.toNat + 256 * leNat bs

@[simp] theorem leNat_nil : leNat [] = 0 := rfl

@[simp] theorem leNat_cons (b : Byte) (bs : List Byte) :
    leNat (b :: bs) = b.toNat + 256 * leNat bs := rfl

/-- The `n` low bytes of a natural number, least significant first. -/
def leBytes : Nat → Nat → List Byte
  | 0, _ => []
  | n + 1, x => BitVec.ofNat 8 x :: leBytes n (x / 256)

@[simp] theorem leBytes_length (n x : Nat) : (leBytes n x).length = n := by
  induction n generalizing x with
  | zero => rfl
  | succ n ih => simp only [leBytes, List.length_cons, ih]

theorem leNat_lt (bs : List Byte) : leNat bs < 256 ^ bs.length := by
  induction bs with
  | nil => simp
  | cons b bs ih =>
      have hb : b.toNat < 256 := b.isLt
      rw [leNat_cons, List.length_cons, Nat.pow_succ]
      omega

/-- Writing then reading keeps the value modulo the width. -/
theorem leNat_leBytes (n x : Nat) : leNat (leBytes n x) = x % 256 ^ n := by
  induction n generalizing x with
  | zero => simp [leBytes, Nat.mod_one]
  | succ n ih =>
      have hsplit : x % 256 ^ (n + 1) = x % 256 + 256 * (x / 256 % 256 ^ n) := by
        rw [Nat.pow_succ', Nat.mod_mul]
      rw [leBytes, leNat_cons, ih, BitVec.toNat_ofNat, hsplit]

/-- Reading then writing is the identity on byte strings of the width. -/
theorem leBytes_leNat (bs : List Byte) : leBytes bs.length (leNat bs) = bs := by
  induction bs with
  | nil => rfl
  | cons b bs ih =>
      have hb : b.toNat < 256 := b.isLt
      have hdiv : (b.toNat + 256 * leNat bs) / 256 = leNat bs := by omega
      have hlow : BitVec.ofNat 8 (b.toNat + 256 * leNat bs) = b := by
        apply BitVec.eq_of_toNat_eq
        rw [BitVec.toNat_ofNat]
        omega
      rw [List.length_cons, leNat_cons, leBytes, hdiv, hlow, ih]

theorem leNat_append (xs ys : List Byte) :
    leNat (xs ++ ys) = leNat xs + 256 ^ xs.length * leNat ys := by
  induction xs with
  | nil => simp
  | cons x xs ih =>
      rw [List.cons_append, leNat_cons, leNat_cons, ih, List.length_cons, Nat.pow_succ]
      ring

/-- Two byte strings of one length with the same reading are equal. -/
theorem leNat_inj {xs ys : List Byte} (hlen : xs.length = ys.length)
    (h : leNat xs = leNat ys) : xs = ys := by
  rw [← leBytes_leNat xs, ← leBytes_leNat ys, hlen, h]

/-! ## Signed little-endian readings -/

/-- The two's complement reading of a little-endian byte string. -/
def leInt (bs : List Byte) : Int := Int.bmod (leNat bs) (256 ^ bs.length)

/-- The `n`-byte two's complement form of an integer (low bits kept). -/
def leBytesInt (n : Nat) (i : Int) : List Byte := leBytes n (i % (256 ^ n : Nat)).toNat

@[simp] theorem leBytesInt_length (n : Nat) (i : Int) : (leBytesInt n i).length = n :=
  leBytes_length ..

/-- The integers an `n`-byte two's complement field can hold. -/
def FitsSigned (n : Nat) (i : Int) : Prop :=
  -((256 ^ n : Nat) : Int) ≤ 2 * i ∧ 2 * i < (256 ^ n : Nat)

instance (n : Nat) (i : Int) : Decidable (FitsSigned n i) :=
  inferInstanceAs (Decidable (_ ∧ _))

theorem leNat_leBytesInt (n : Nat) (i : Int) :
    (leNat (leBytesInt n i) : Int) = i % (256 ^ n : Nat) := by
  have hpos : (0 : Int) < (256 ^ n : Nat) := by exact_mod_cast Nat.pow_pos (by decide)
  have hlo := Int.emod_nonneg i (ne_of_gt hpos)
  have hhi := Int.emod_lt_of_pos i hpos
  rw [leBytesInt, leNat_leBytes, Nat.mod_eq_of_lt (by omega), Int.toNat_of_nonneg hlo]

/-- An integer in range survives being stored and read back. -/
theorem leInt_leBytesInt {n : Nat} {i : Int} (h : FitsSigned n i) :
    leInt (leBytesInt n i) = i := by
  obtain ⟨hlo, hhi⟩ := h
  have hpos : 0 < 256 ^ n := Nat.pow_pos (by decide)
  rw [leInt, leNat_leBytesInt, leBytesInt_length, Int.emod_bmod]
  exact Int.bmod_eq_of_le_mul_two (by omega) (by omega)

theorem leInt_inj {xs ys : List Byte} (hlen : xs.length = ys.length)
    (h : leInt xs = leInt ys) : xs = ys := by
  apply leNat_inj hlen
  have hx := leNat_lt xs
  have hy := leNat_lt ys
  rw [leInt, leInt, hlen, Int.bmod_eq_bmod_iff_bmod_sub_eq_zero] at h
  have hdvd : ((256 ^ ys.length : Nat) : Int) ∣ (leNat xs : Int) - leNat ys :=
    Int.dvd_of_bmod_eq_zero h
  rw [hlen] at hx
  obtain ⟨k, hk⟩ := hdvd
  have hk0 : k = 0 := by
    by_contra hne
    rcases lt_or_gt_of_ne hne with hneg | hpos
    · have : (256 ^ ys.length : Nat) * k ≤ (256 ^ ys.length : Nat) * (-1 : Int) :=
        Int.mul_le_mul_of_nonneg_left (by omega) (by omega)
      omega
    · have : (256 ^ ys.length : Nat) * (1 : Int) ≤ (256 ^ ys.length : Nat) * k :=
        Int.mul_le_mul_of_nonneg_left (by omega) (by omega)
      omega
  rw [hk0, Int.mul_zero] at hk
  omega

/-! ## Big-endian readings -/

/-- The natural number whose big-endian digits are the given bytes. -/
def beNat (bs : List Byte) : Nat := leNat bs.reverse

theorem beNat_cons (b : Byte) (bs : List Byte) :
    beNat (b :: bs) = b.toNat * 256 ^ bs.length + beNat bs := by
  rw [beNat, List.reverse_cons, leNat_append, List.length_reverse, beNat]
  simp only [leNat_cons, leNat_nil]
  ring

theorem beNat_lt (bs : List Byte) : beNat bs < 256 ^ bs.length := by
  simpa [beNat] using leNat_lt bs.reverse

/-! ## Bounds-checked slices -/

/-- The `n` elements of a buffer from offset `off`, or `none` when the range
    leaves the buffer. -/
def slice? {α : Type _} (buf : List α) (off n : Nat) : Option (List α) :=
  if off + n ≤ buf.length then some ((buf.drop off).take n) else none

section Slice
variable {α : Type _} {buf s : List α} {off n : Nat}

theorem slice?_of_le (h : off + n ≤ buf.length) :
    slice? buf off n = some ((buf.drop off).take n) := if_pos h

theorem slice?_eq_some : slice? buf off n = some s ↔
    off + n ≤ buf.length ∧ s = (buf.drop off).take n := by
  rw [slice?]
  split
  · next h => simp [h, eq_comm]
  · next h => simp [h]

theorem slice?_isSome : (slice? buf off n).isSome ↔ off + n ≤ buf.length := by
  simp [slice?]

theorem slice?_length (h : slice? buf off n = some s) : s.length = n := by
  obtain ⟨hle, rfl⟩ := slice?_eq_some.mp h
  rw [List.length_take, List.length_drop]
  omega

end Slice

end TaeScanner.Lib
