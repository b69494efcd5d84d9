/-
  TaeScanner.Lib.Wrap

  Unsigned machine arithmetic on natural numbers: sums, differences and
  products reduced modulo `2 ^ w`, with the side conditions under which they
  are the exact ones.
-/

import Mathlib.Algebra.BigOperators.Group.List.Basic
import Mathlib.Algebra.Ring.Nat

namespace TaeScanner.Lib

/-- Addition of `w`-bit unsigned integers. -/
def wrapAdd (w a b : Nat) : Nat := (a + b) % 2 ^ w

/-- Subtraction of `w`-bit unsigned integers. -/
def wrapSub (w a b : Nat) : Nat := (a + (2 ^ w - b % 2 ^ w)) % 2 ^ w

/-- Multiplication of `w`-bit unsigned integers. -/
def wrapMul (w a b : Nat) : Nat := a * b % 2 ^ w

theorem wrapAdd_of_lt {w a b : Nat} (h : a + b < 2 ^ w) : wrapAdd w a b = a + b :=
  Nat.mod_eq_of_lt h

theorem wrapMul_of_lt {w a b : Nat} (h : a * b < 2 ^ w) : wrapMul w a b = a * b :=
  Nat.mod_eq_of_lt h

theorem wrapSub_of_le {w a b : Nat} (ha : a < 2 ^ w) (h : b ≤ a) : wrapSub w a b = a - b := by
  rw [wrapSub, Nat.mod_eq_of_lt (by omega : b < 2 ^ w)]
  have hsum : a + (2 ^ w - b) = (a - b) + 2 ^ w := by omega
  rw [hsum, Nat.add_mod_right, Nat.mod_eq_of_lt (by omega)]

/-- A sum in a loop is exact when the whole sum fits. -/
theorem foldl_wrapAdd {α : Type _} {w start : Nat} {f : α → Nat} {xs : List α}
    (h : start + (xs.map f).sum < 2 ^ w) :
    xs.foldl (fun total x => wrapAdd w total (f x)) start = start + (xs.map f).sum := by
  induction xs generalizing start with
  | nil => rfl
  | cons x xs ih =>
      rw [List.map_cons, List.sum_cons, ← Nat.add_assoc] at h ⊢
      rw [List.foldl_cons, wrapAdd_of_lt (Nat.lt_of_le_of_lt (Nat.le_add_right _ _) h), ih h]

end TaeScanner.Lib
