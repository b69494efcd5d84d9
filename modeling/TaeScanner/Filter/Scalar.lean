/-
  TaeScanner.Filter.Scalar

  The machine types a filter compares with: typed loads of raw bytes, and the
  C++ comparison operators on what was loaded.  A float is compared through the
  sign-magnitude integer of its bit pattern, which has its order; a NaN
  compares like nothing.
-/

import TaeScanner.Types

namespace TaeScanner

open Lib

/-- The comparison operators of a pushed filter. -/
inductive FilterOp
  | equal | notEqual
  | greaterThan | greaterThanOrEqual
  | lessThan | lessThanOrEqual
  | isNull | isNotNull
  | inSet
  deriving DecidableEq, Repr

/-- The type argument of `CompareFixed` and `ZoneMapCheckFixed`. -/
inductive ScalarType
  | uint (size : Nat)
  | int (size : Nat)
  | float (expBits manBits : Nat)
  deriving DecidableEq, Repr

/-- A loaded value; `none` is a NaN. -/
abbrev Scalar := Option Int

/-- The order key of an IEEE bit pattern: its magnitude, negated under the sign
    bit, so that both zeros are 0; patterns above infinity are NaNs. -/
def floatKey (expBits manBits : Nat) (bits : Nat) : Scalar :=
  let magnitude := bits % 2 ^ (expBits + manBits)
  if (2 ^ expBits - 1) * 2 ^ manBits < magnitude then none
  else if bits / 2 ^ (expBits + manBits) % 2 = 1 then some (-magnitude) else some magnitude

namespace ScalarType

/-- `sizeof(T)`. -/
def size : ScalarType → Nat
  | uint n => n
  | int n => n
  | float expBits manBits => (1 + expBits + manBits) / 8

/-- The value of the bytes of a `T`. -/
def decode : ScalarType → List Byte → Scalar
  | uint _, bs => some (leNat bs)
  | int _, bs => some (leInt bs)
  | float expBits manBits, bs => floatKey expBits manBits (leNat bs)

/-- `*reinterpret_cast<const T *>(ptr)`. -/
def load (st : ScalarType) (ptr : List Byte) : Scalar := st.decode (ptr.take st.size)

end ScalarType

/-- The machine type an MO type is compared at; `none` for types that are
    compared as strings or not at all. -/
def scalarTypeOf : MOTypeOid → Option ScalarType
  | .bool => some (.uint 1)
  | .int8 => some (.int 1)
  | .int16 => some (.int 2)
  | .int32 | .date => some (.int 4)
  | .int64 | .datetime | .timestamp | .time | .decimal64 => some (.int 8)
  | .uint8 => some (.uint 1)
  | .uint16 => some (.uint 2)
  | .uint32 => some (.uint 4)
  | .uint64 => some (.uint 8)
  | .float32 => some (.float 8 23)
  | .float64 => some (.float 11 52)
  | .decimal128 => some (.int 16)
  | _ => none

/-- The stride of a compared element is the size of the type it is loaded as. -/
theorem scalarTypeOf_size {oid : MOTypeOid} {st : ScalarType} (h : scalarTypeOf oid = some st) :
    moTypeFixedSize oid = st.size ∧ 0 < st.size := by
  cases oid <;> simp only [scalarTypeOf, Option.some.injEq, reduceCtorEq] at h <;>
    subst h <;> exact ⟨rfl, by decide⟩

-- ============================================================================
-- The comparison operators
-- ============================================================================

def scalarEq : Scalar → Scalar → Bool
  | some a, some b => a = b
  | _, _ => false

def scalarLt : Scalar → Scalar → Bool
  | some a, some b => a < b
  | _, _ => false

def scalarLe : Scalar → Scalar → Bool
  | some a, some b => a ≤ b
  | _, _ => false

/-- `row_val op const_val`; operators that compare nothing hold. -/
def FilterOp.compareScalar (op : FilterOp) (row const : Scalar) : Bool :=
  match op with
  | .equal => scalarEq row const
  | .notEqual => !scalarEq row const
  | .greaterThan => scalarLt const row
  | .greaterThanOrEqual => scalarLe const row
  | .lessThan => scalarLt row const
  | .lessThanOrEqual => scalarLe row const
  | _ => true

/-- `cmp op 0` for a three-way result. -/
def FilterOp.ofOrdering (op : FilterOp) (cmp : Ordering) : Bool :=
  match op with
  | .equal => cmp == .eq
  | .notEqual => cmp != .eq
  | .greaterThan => cmp == .gt
  | .greaterThanOrEqual => cmp != .lt
  | .lessThan => cmp == .lt
  | .lessThanOrEqual => cmp != .gt
  | _ => true

/-- On numbers both ways of comparing agree. -/
theorem compareScalar_some (op : FilterOp) (a b : Int) :
    op.compareScalar (some a) (some b) = op.ofOrdering (compare a b) := by
  unfold FilterOp.compareScalar FilterOp.ofOrdering scalarEq scalarLt scalarLe
  rcases lt_trichotomy a b with h | h | h
  · have hne : ¬ a = b := by omega
    have hnle : ¬ b ≤ a := by omega
    rw [compare_lt_iff_lt.mpr h]
    cases op <;> simp [h, hne, hnle, h.le, h.not_gt]
  · rw [compare_eq_iff_eq.mpr h]
    cases op <;> simp [h]
  · have hne : ¬ a = b := by omega
    have hnle : ¬ a ≤ b := by omega
    rw [compare_gt_iff_gt.mpr h]
    cases op <;> simp [h, hne, hnle, h.le, h.not_gt]

end TaeScanner
