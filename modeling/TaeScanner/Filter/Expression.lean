/-
  TaeScanner.Filter.Expression

  Pushed filter expressions: which ones the scan accepts, and their translation
  into `PushedFilter`s.

    * an expression is a tree over one column, `columnRef`; a node of any other
      class is `other`;
    * `TryGetColumnConstantComparison` is DuckDB's and stays a parameter: it
      finds the constant of a comparison and the comparison with the column on
      the left;
    * an accepted expression is the conjunction of its atoms, which is how the
      three recursive functions on expressions are related.
-/

import TaeScanner.Filter.EncodeConstant
import TaeScanner.Lib.Checks

namespace TaeScanner

open Lib

-- ============================================================================
-- Expressions
-- ============================================================================

/-- The comparisons among the expression types. -/
inductive ComparisonType
  | equal | notEqual | greaterThan | greaterThanOrEqual | lessThan | lessThanOrEqual
  | distinctFrom | notDistinctFrom
  deriving DecidableEq, Repr

/-- The same comparison with the sides exchanged. -/
def ComparisonType.flip : ComparisonType → ComparisonType
  | greaterThan => lessThan
  | greaterThanOrEqual => lessThanOrEqual
  | lessThan => greaterThan
  | lessThanOrEqual => greaterThanOrEqual
  | type => type

/-- The types of operator expressions the scan looks at. -/
inductive OperatorType
  | isNull | isNotNull | compareIn | other
  deriving DecidableEq, Repr

inductive Expr
  /-- An optional filter, which may be left out. -/
  | optional (child : Expr)
  /-- AND, or OR. -/
  | conjunction (isAnd : Bool) (children : List Expr)
  | comparison (type : ComparisonType) (left right : Expr)
  | operator (type : OperatorType) (children : List Expr)
  | constant (val : Value)
  /-- The filtered column. -/
  | columnRef
  | other

/-- `TryGetColumnConstantComparison` of a comparison: the constant, and the
    comparison of the column with it. -/
abbrev ColumnConstantComparison := ComparisonType → Expr → Expr → Option (Value × ComparisonType)

/-- What is found is the comparison, with the column on the left. -/
def ColumnConstantComparison.Normalises (tryGet : ColumnConstantComparison) : Prop :=
  ∀ type left right val type', tryGet type left right = some (val, type') →
    (left = .columnRef ∧ right = .constant val ∧ type' = type) ∨
    (left = .constant val ∧ right = .columnRef ∧ type' = type.flip)

/-- A comparison of the bare column with a constant, on either side. -/
def simpleComparison : ColumnConstantComparison
  | type, .columnRef, .constant val => some (val, type)
  | type, .constant val, .columnRef => some (val, type.flip)
  | _, _, _ => none

/-- `ConvertExprType`. -/
def convertExprType : ComparisonType → Option FilterOp
  | .equal => some .equal
  | .notEqual => some .notEqual
  | .greaterThan => some .greaterThan
  | .greaterThanOrEqual => some .greaterThanOrEqual
  | .lessThan => some .lessThan
  | .lessThanOrEqual => some .lessThanOrEqual
  | _ => none

/-- The value of a constant expression. -/
def Expr.constant? : Expr → Option Value
  | constant val => some val
  | _ => none

-- ============================================================================
-- SupportsFilterExpression
-- ============================================================================

section Supports
variable (tryGet : ColumnConstantComparison)

/-- The test of an operator expression; its first child must be the column. -/
def operatorSupported : OperatorType → List Expr → Bool
  | .isNull, [.columnRef] => true
  | .isNotNull, [.columnRef] => true
  | .compareIn, .columnRef :: values =>
      values.all (fun e => e.constant?.any fun val => val.data.isSome) && !values.isEmpty
  | _, _ => false

mutual

def supportsFilterExpression : Expr → Bool
  | .optional _ => true
  | .conjunction true children => supportsAll children
  | .comparison type left right =>
      match tryGet type left right with
      | some (val, comparison) => val.data.isSome && (convertExprType comparison).isSome
      | none => false
  | .operator type children => operatorSupported type children
  | _ => false

/-- The loop over the children of an AND. -/
def supportsAll : List Expr → Bool
  | [] => true
  | child :: children => supportsFilterExpression child && supportsAll children

end

end Supports

-- ============================================================================
-- ExtractExpression
-- ============================================================================

section Extract
variable (tryGet : ColumnConstantComparison) (bt : BlobText) (colIdx seqnum : Nat) (moTypeOid : Byte)

/-- The filter of a comparison. -/
def comparisonFilter (type : ComparisonType) (left right : Expr) : Except String PushedFilter :=
  match tryGet type left right with
  | none => .error "TAE cannot encode pushed comparison"
  | some (val, comparison) =>
      match convertExprType comparison, encodeConstant bt val (MOTypeOid.ofByte moTypeOid) with
      | some op, some constant =>
          .ok { colIdx := colIdx, seqnum := seqnum, moTypeOid := moTypeOid, op := op,
                constant := constant }
      | _, _ => .error "TAE cannot encode pushed comparison"

/-- A value of an IN list; the cast to a constant fails on any other expression. -/
def inValue (e : Expr) : Except String EncodedConstant :=
  match e.constant? with
  | none => .error "BoundConstantExpression expected"
  | some val =>
      match encodeConstant bt val (MOTypeOid.ofByte moTypeOid) with
      | some constant => .ok constant
      | none => .error "TAE cannot encode pushed IN value"

/-- The filter of an operator expression. -/
def operatorFilter (type : OperatorType) (children : List Expr) : Except String PushedFilter :=
  match type with
  | .isNull => .ok { colIdx := colIdx, seqnum := seqnum, moTypeOid := moTypeOid, op := .isNull }
  | .isNotNull => .ok { colIdx := colIdx, seqnum := seqnum, moTypeOid := moTypeOid, op := .isNotNull }
  | .compareIn => do
      let values ← (children.drop 1).mapM (inValue bt moTypeOid)
      return { colIdx := colIdx, seqnum := seqnum, moTypeOid := moTypeOid, op := .inSet,
               inValues := values }
  | .other => .error "TAE does not support this pushed expression"

/-- The filter of an expression that is neither optional nor an AND. -/
def atomFilter : Expr → Except String PushedFilter
  | .comparison type left right =>
      comparisonFilter tryGet bt colIdx seqnum moTypeOid type left right
  | .operator type children => operatorFilter bt colIdx seqnum moTypeOid type children
  | _ => .error "TAE does not support this pushed expression"

mutual

def extractExpression : Expr → List PushedFilter → Except String (List PushedFilter)
  | .optional _, out => .ok out
  | .conjunction true children, out => extractAll children out
  | e, out => (atomFilter tryGet bt colIdx seqnum moTypeOid e).map fun pf => out ++ [pf]

/-- The loop over the children of an AND. -/
def extractAll : List Expr → List PushedFilter → Except String (List PushedFilter)
  | [], out => .ok out
  | child :: children, out => do
      let out ← extractExpression child out
      extractAll children out

end

/-- `ExtractFilter`. -/
def extractFilter (e : Expr) (out : List PushedFilter) : Except String (List PushedFilter) :=
  if supportsFilterExpression tryGet e then
    extractExpression tryGet bt colIdx seqnum moTypeOid e out
  else .error "TAE does not support this pushed filter"

end Extract

/-- `TAEScanSupportsPushdownType` on the type of the column. -/
def supportsPushdownType : LogicalType → Bool
  | .tinyint | .smallint | .integer | .bigint
  | .utinyint | .usmallint | .uinteger | .ubigint
  | .float | .double | .boolean | .date | .timestamp | .varchar
  | .decimal _ _ | .uuid | .time | .blob => true
  | _ => false

-- ============================================================================
-- Atoms
-- ============================================================================

mutual

/-- The required conjuncts of an expression, in order. -/
def Expr.atoms : Expr → List Expr
  | .optional _ => []
  | .conjunction true children => atomsAll children
  | e => [e]

def atomsAll : List Expr → List Expr
  | [] => []
  | child :: children => child.atoms ++ atomsAll children

end

/-- An expression that is a conjunct by itself. -/
def Expr.isAtom : Expr → Bool
  | .optional _ => false
  | .conjunction true _ => false
  | _ => true

/-- The constants of an atom. -/
def Expr.atomConstants (tryGet : ColumnConstantComparison) : Expr → List Value
  | .comparison type left right => ((tryGet type left right).map Prod.fst).toList
  | .operator .compareIn children => (children.drop 1).filterMap Expr.constant?
  | _ => []

/-- The constants that are pushed: those outside of optional sub-expressions. -/
def Expr.requiredConstants (tryGet : ColumnConstantComparison) (e : Expr) : List Value :=
  e.atoms.flatMap (·.atomConstants tryGet)

section Atoms
variable (tryGet : ColumnConstantComparison) (bt : BlobText) (colIdx seqnum : Nat) (moTypeOid : Byte)

mutual

theorem isAtom_of_mem_atoms (e : Expr) : ∀ a ∈ e.atoms, a.isAtom = true := by
  cases e with
  | optional child => exact fun _ ha => absurd ha List.not_mem_nil
  | conjunction isAnd children =>
      cases isAnd with
      | true =>
          rw [Expr.atoms]
          exact isAtom_of_mem_atomsAll children
      | false => exact List.forall_mem_singleton.mpr rfl
  | comparison type left right => exact List.forall_mem_singleton.mpr rfl
  | operator type children => exact List.forall_mem_singleton.mpr rfl
  | constant val => exact List.forall_mem_singleton.mpr rfl
  | columnRef => exact List.forall_mem_singleton.mpr rfl
  | other => exact List.forall_mem_singleton.mpr rfl

theorem isAtom_of_mem_atomsAll (es : List Expr) : ∀ a ∈ atomsAll es, a.isAtom = true := by
  cases es with
  | nil => exact fun _ ha => absurd ha List.not_mem_nil
  | cons e es =>
      rw [atomsAll, List.forall_mem_append]
      exact ⟨isAtom_of_mem_atoms e, isAtom_of_mem_atomsAll es⟩

end

mutual

/-- An expression is accepted iff its atoms are. -/
theorem supportsFilterExpression_iff (e : Expr) :
    supportsFilterExpression tryGet e = true ↔
      ∀ a ∈ e.atoms, supportsFilterExpression tryGet a = true := by
  cases e with
  | optional child => simp [supportsFilterExpression, Expr.atoms]
  | conjunction isAnd children =>
      cases isAnd with
      | true =>
          rw [supportsFilterExpression, Expr.atoms]
          exact supportsAll_iff children
      | false => simp [Expr.atoms]
  | comparison type left right => simp [Expr.atoms]
  | operator type children => simp [Expr.atoms]
  | constant val => simp [Expr.atoms]
  | columnRef => simp [Expr.atoms]
  | other => simp [Expr.atoms]

theorem supportsAll_iff (es : List Expr) :
    supportsAll tryGet es = true ↔ ∀ a ∈ atomsAll es, supportsFilterExpression tryGet a = true := by
  cases es with
  | nil => simp [supportsAll, atomsAll]
  | cons e es =>
      rw [supportsAll, Bool.and_eq_true, supportsFilterExpression_iff e, supportsAll_iff es, atomsAll,
        List.forall_mem_append]

end

mutual

/-- Extraction appends the filters of the atoms. -/
theorem extractExpression_eq (e : Expr) (out : List PushedFilter) :
    extractExpression tryGet bt colIdx seqnum moTypeOid e out
      = (e.atoms.mapM (atomFilter tryGet bt colIdx seqnum moTypeOid)).map (out ++ ·) := by
  have hatom : ∀ a : Expr, (atomFilter tryGet bt colIdx seqnum moTypeOid a).map (fun pf => out ++ [pf])
      = (([a] : List Expr).mapM (atomFilter tryGet bt colIdx seqnum moTypeOid)).map (out ++ ·) := by
    intro a
    rw [List.mapM_cons, List.mapM_nil]
    cases atomFilter tryGet bt colIdx seqnum moTypeOid a <;> rfl
  cases e with
  | optional child =>
      rw [extractExpression, Expr.atoms, List.mapM_nil]
      exact congrArg Except.ok (List.append_nil out).symm
  | conjunction isAnd children =>
      cases isAnd with
      | true =>
          rw [extractExpression, Expr.atoms]
          exact extractAll_eq children out
      | false => exact hatom (.conjunction false children)
  | comparison type left right => exact hatom (.comparison type left right)
  | operator type children => exact hatom (.operator type children)
  | constant val => exact hatom (.constant val)
  | columnRef => exact hatom .columnRef
  | other => exact hatom .other

theorem extractAll_eq (es : List Expr) (out : List PushedFilter) :
    extractAll tryGet bt colIdx seqnum moTypeOid es out
      = ((atomsAll es).mapM (atomFilter tryGet bt colIdx seqnum moTypeOid)).map (out ++ ·) := by
  cases es with
  | nil =>
      rw [extractAll, atomsAll, List.mapM_nil]
      exact congrArg Except.ok (List.append_nil out).symm
  | cons e es =>
      rw [extractAll, atomsAll, List.mapM_append, extractExpression_eq e out]
      cases e.atoms.mapM (atomFilter tryGet bt colIdx seqnum moTypeOid) with
      | error msg => rfl
      | ok new =>
          show extractAll tryGet bt colIdx seqnum moTypeOid es (out ++ new) = _
          rw [extractAll_eq es]
          cases (atomsAll es).mapM (atomFilter tryGet bt colIdx seqnum moTypeOid) with
          | error msg => rfl
          | ok rest => exact congrArg Except.ok (List.append_assoc out new rest)

end

/-- An accepted expression is translated atom by atom. -/
theorem extractFilter_eq {e : Expr} (hsup : supportsFilterExpression tryGet e = true)
    (out : List PushedFilter) :
    extractFilter tryGet bt colIdx seqnum moTypeOid e out
      = (e.atoms.mapM (atomFilter tryGet bt colIdx seqnum moTypeOid)).map (out ++ ·) := by
  rw [extractFilter, if_pos hsup, extractExpression_eq]

/-- What is extracted is appended, one filter for each atom. -/
theorem extractFilter_eq_ok {e : Expr} {out out' : List PushedFilter} :
    extractFilter tryGet bt colIdx seqnum moTypeOid e out = .ok out' ↔
      supportsFilterExpression tryGet e = true ∧ ∃ group,
        List.Forall₂ (fun a pf => atomFilter tryGet bt colIdx seqnum moTypeOid a = .ok pf) e.atoms group ∧
          out' = out ++ group := by
  by_cases hsup : supportsFilterExpression tryGet e = true
  · rw [extractFilter_eq _ _ _ _ _ hsup]
    simp only [hsup, true_and, ← mapM_eq_ok]
    cases e.atoms.mapM (atomFilter tryGet bt colIdx seqnum moTypeOid) with
    | error msg => exact ⟨nofun, fun ⟨_, h, _⟩ => nomatch h⟩
    | ok group =>
        constructor
        · exact fun h => ⟨group, rfl, (Except.ok.inj h).symm⟩
        · rintro ⟨_, h, rfl⟩
          obtain rfl := Except.ok.inj h
          rfl
  · rw [extractFilter, if_neg hsup]
    exact ⟨nofun, fun h => absurd h.1 hsup⟩

/-- A filter is on the column it is extracted for. -/
theorem atomFilter_column {a : Expr} {pf : PushedFilter}
    (h : atomFilter tryGet bt colIdx seqnum moTypeOid a = .ok pf) :
    pf.colIdx = colIdx ∧ pf.seqnum = seqnum ∧ pf.moTypeOid = moTypeOid := by
  unfold atomFilter at h
  split at h
  · unfold comparisonFilter at h
    split at h
    · cases h
    · split at h
      · obtain rfl := Except.ok.inj h
        exact ⟨rfl, rfl, rfl⟩
      · cases h
  · unfold operatorFilter at h
    split at h
    · obtain rfl := Except.ok.inj h
      exact ⟨rfl, rfl, rfl⟩
    · obtain rfl := Except.ok.inj h
      exact ⟨rfl, rfl, rfl⟩
    · obtain ⟨values, -, h⟩ := bind_eq_ok.mp h
      obtain rfl := Except.ok.inj h
      exact ⟨rfl, rfl, rfl⟩
    · cases h
  · cases h

end Atoms

end TaeScanner
