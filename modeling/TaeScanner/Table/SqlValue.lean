/-
  TaeScanner.Table.SqlValue

  What a query sees: values, cells that may be NULL, and the predicates a
  pushed filter stands for, under SQL's three-valued logic.  Nothing here
  mentions how a value is stored.
-/

import TaeScanner.Lib.ByteOrder

namespace TaeScanner

open Lib

-- ============================================================================
-- Values
-- ============================================================================

/-- A value of a table cell.  Dates are days and timestamps microseconds from
    the Unix epoch; a `decimal` is `unscaled * 10 ^ (-scale)`; a `real` is its
    IEEE bit pattern; a `uuid` is the 128-bit integer DuckDB orders it by; a
    `list` holds the bit patterns of its elements. -/
inductive SqlValue
  | bool (b : Bool)
  | int (i : Int)
  | real (bits : List Byte)
  | decimal (unscaled scale : Int)
  | bytes (bs : List Byte)
  | uuid (i : Int)
  | list (items : List (List Byte))
  deriving DecidableEq, Repr

/-- A cell is a value or NULL. -/
abbrev Cell := Option SqlValue

/-- The order of two decimals, brought to their larger scale. -/
def compareDecimal (u₁ s₁ u₂ s₂ : Int) : Ordering :=
  compare (u₁ * 10 ^ (s₂ - s₁).toNat) (u₂ * 10 ^ (s₁ - s₂).toNat)

/-- The order of two values of one kind; `none` where SQL has none to offer here. -/
def SqlValue.compare? : SqlValue → SqlValue → Option Ordering
  | bool a, bool b => some (compare a.toNat b.toNat)
  | int a, int b => some (compare a b)
  | decimal u₁ s₁, decimal u₂ s₂ => some (compareDecimal u₁ s₁ u₂ s₂)
  | bytes a, bytes b => some (compareOfLessAndEq a b)
  | uuid a, uuid b => some (compare a b)
  | _, _ => none

theorem compareDecimal_self_scale (u₁ u₂ s : Int) : compareDecimal u₁ s u₂ s = compare u₁ u₂ := by
  simp [compareDecimal]

-- ============================================================================
-- Predicates
-- ============================================================================

/-- The six comparisons. -/
inductive CompareOp
  | eq | ne | gt | ge | lt | le
  deriving DecidableEq, Repr

/-- Does an order between the two sides satisfy the comparison? -/
def CompareOp.holds : CompareOp → Ordering → Bool
  | eq, o => o == .eq
  | ne, o => o != .eq
  | gt, o => o == .gt
  | ge, o => o != .lt
  | lt, o => o == .lt
  | le, o => o != .gt

/-- A truth value of SQL; `none` is UNKNOWN. -/
abbrev Truth := Option Bool

/-- SQL's OR. -/
def Truth.or : Truth → Truth → Truth
  | some true, _ => some true
  | _, some true => some true
  | some false, some false => some false
  | _, _ => none

/-- The predicates on one column that the scan accepts. -/
inductive Predicate
  | compare (op : CompareOp) (c : SqlValue)
  | isIn (cs : List SqlValue)
  | isNull
  | isNotNull
  deriving DecidableEq, Repr

/-- `v op c`. -/
def SqlValue.test (op : CompareOp) (v c : SqlValue) : Truth := (v.compare? c).map op.holds

/-- The truth value of a predicate on a cell. -/
def Predicate.eval : Predicate → Cell → Truth
  | compare _ _, none => none
  | compare op c, some v => v.test op c
  | isIn _, none => none
  | isIn cs, some v => cs.foldr (fun c acc => Truth.or (v.test .eq c) acc) (some false)
  | isNull, cell => some cell.isNone
  | isNotNull, cell => some cell.isSome

/-- SQL's AND. -/
def Truth.and : Truth → Truth → Truth
  | some false, _ => some false
  | _, some false => some false
  | some true, some true => some true
  | _, _ => none

theorem Truth.and_eq_true {a b : Truth} :
    Truth.and a b = some true ↔ a = some true ∧ b = some true := by
  rcases a with _ | _ | _ <;> rcases b with _ | _ | _ <;> simp [Truth.and]

theorem Truth.or_eq_true {a b : Truth} : Truth.or a b = some true ↔ a = some true ∨ b = some true := by
  rcases a with _ | _ | _ <;> rcases b with _ | _ | _ <;> simp [Truth.or]

/-- `v IN (c₁, .., cₖ)` is TRUE iff `v` equals one of the constants. -/
theorem Predicate.isIn_true {cs : List SqlValue} {v : SqlValue} :
    (isIn cs).eval (some v) = some true ↔ ∃ c ∈ cs, v.test .eq c = some true := by
  show cs.foldr (fun c acc => Truth.or (v.test .eq c) acc) (some false) = some true ↔ _
  induction cs with
  | nil => simp
  | cons c cs ih => rw [List.foldr_cons, Truth.or_eq_true, ih, List.exists_mem_cons_iff]

-- ============================================================================
-- Predicates under another order
-- ============================================================================

/-- `v op c` under a given order of values; floats have one that `compare?` leaves out. -/
def SqlValue.testBy (cmp : SqlValue → SqlValue → Option Ordering) (op : CompareOp) (v c : SqlValue) :
    Truth := (cmp v c).map op.holds

/-- The truth value of a predicate on a cell under a given order. -/
def Predicate.evalBy (cmp : SqlValue → SqlValue → Option Ordering) : Predicate → Cell → Truth
  | compare _ _, none => none
  | compare op c, some v => v.testBy cmp op c
  | isIn _, none => none
  | isIn cs, some v => cs.foldr (fun c acc => Truth.or (v.testBy cmp .eq c) acc) (some false)
  | isNull, cell => some cell.isNone
  | isNotNull, cell => some cell.isSome

theorem Predicate.evalBy_compare? (p : Predicate) (cell : Cell) :
    p.evalBy SqlValue.compare? cell = p.eval cell := by
  cases p <;> cases cell <;> rfl

end TaeScanner
