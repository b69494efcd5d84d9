/-
  TaeScanner.Filter.ExtractSpec

  What the pushed filters of an expression say.

    * meaning: the filters hold on exactly the cells on which the expression,
      its optional parts replaced by TRUE, is TRUE.  The order of values is a
      parameter, since the translation does not depend on it;
    * coverage: whether an accepted expression can be translated depends on the
      type of the column only, and the test of the type misses the types that
      DuckDB reads as another integer or decimal type.
-/

import TaeScanner.Filter.Expression
import TaeScanner.Lib.Checks

namespace TaeScanner

open Lib

-- ============================================================================
-- The truth value of an expression
-- ============================================================================

/-- The value of a side of a comparison. -/
def Expr.operand (cell : Cell) : Expr → Cell
  | columnRef => cell
  | constant val => val.toCell
  | _ => none

section Truth
variable (cmp : SqlValue → SqlValue → Option Ordering)

/-- `a type b`; only the two DISTINCT comparisons see a NULL. -/
def ComparisonType.evalBy : ComparisonType → Cell → Cell → Truth
  | equal, some a, some b => a.testBy cmp .eq b
  | notEqual, some a, some b => a.testBy cmp .ne b
  | greaterThan, some a, some b => a.testBy cmp .gt b
  | greaterThanOrEqual, some a, some b => a.testBy cmp .ge b
  | lessThan, some a, some b => a.testBy cmp .lt b
  | lessThanOrEqual, some a, some b => a.testBy cmp .le b
  | distinctFrom, some a, some b => a.testBy cmp .ne b
  | distinctFrom, a, b => some (a.isSome || b.isSome)
  | notDistinctFrom, some a, some b => a.testBy cmp .eq b
  | notDistinctFrom, a, b => some (a.isNone && b.isNone)
  | _, _, _ => none

/-- `x IN (e₁, .., eₖ)`. -/
def inTruth (x cell : Cell) (values : List Expr) : Truth :=
  values.foldr (fun e acc => Truth.or (ComparisonType.equal.evalBy cmp x (e.operand cell)) acc)
    (some false)

mutual

/-- The truth value on a cell of an expression, each optional sub-expression
    replaced by TRUE; no other class of expression is a predicate here. -/
def Expr.truth (cell : Cell) : Expr → Truth
  | .optional _ => some true
  | .conjunction isAnd children => if isAnd then truthAll cell children else truthAny cell children
  | .comparison type left right => type.evalBy cmp (left.operand cell) (right.operand cell)
  | .operator .isNull [e] => some (e.operand cell).isNone
  | .operator .isNotNull [e] => some (e.operand cell).isSome
  | .operator .compareIn (e :: values) => inTruth cmp (e.operand cell) cell values
  | _ => none

def truthAll (cell : Cell) : List Expr → Truth
  | [] => some true
  | child :: children => Truth.and (child.truth cell) (truthAll cell children)

def truthAny (cell : Cell) : List Expr → Truth
  | [] => some false
  | child :: children => Truth.or (child.truth cell) (truthAny cell children)

end

mutual

/-- An expression is TRUE iff its atoms are. -/
theorem Expr.truth_iff (cell : Cell) (e : Expr) :
    e.truth cmp cell = some true ↔ ∀ a ∈ e.atoms, a.truth cmp cell = some true := by
  cases e with
  | optional child => simp [Expr.truth, Expr.atoms]
  | conjunction isAnd children =>
      cases isAnd with
      | true =>
          rw [Expr.truth, if_pos rfl, Expr.atoms]
          exact truthAll_iff cell children
      | false => simp [Expr.atoms]
  | comparison type left right => simp [Expr.atoms]
  | operator type children => simp [Expr.atoms]
  | constant val => simp [Expr.atoms]
  | columnRef => simp [Expr.atoms]
  | other => simp [Expr.atoms]

theorem truthAll_iff (cell : Cell) (es : List Expr) :
    truthAll cmp cell es = some true ↔ ∀ a ∈ atomsAll es, a.truth cmp cell = some true := by
  cases es with
  | nil => simp [truthAll, atomsAll]
  | cons e es =>
      rw [truthAll, Truth.and_eq_true, Expr.truth_iff cell e, truthAll_iff cell es, atomsAll,
        List.forall_mem_append]

end

end Truth

-- ============================================================================
-- Meaning
-- ============================================================================

/-- An order of values that does not depend on the side. -/
def SwapsSides (cmp : SqlValue → SqlValue → Option Ordering) : Prop :=
  ∀ a b, cmp b a = (cmp a b).map Ordering.swap

theorem compare?_swapsSides : SwapsSides SqlValue.compare? := by
  intro a b
  cases a <;> cases b <;> simp only [SqlValue.compare?, Option.map_some, Option.map_none,
    Option.some.injEq]
  case bool x y => cases x <;> cases y <;> rfl
  case int x y => exact (Int.compare_swap x y).symm
  case decimal u₁ s₁ u₂ s₂ => exact (Int.compare_swap _ _).symm
  case uuid x y => exact (Int.compare_swap x y).symm
  case bytes x y =>
    exact compareOfLessAndEq_swap x y

/-- The encoding of each constant is the constant, in the format of stored elements. -/
def Denotes (bt : BlobText) (t : MOType) (vals : List Value) : Prop :=
  ∀ val ∈ vals, ∀ c, encodeConstant bt val t.kind = some c →
    c.WellFormed t ∧ val.toCell = some (c.value t)

section Meaning
variable {tryGet : ColumnConstantComparison} {bt : BlobText} {t : MOType} {colIdx seqnum : Nat}
variable {cmp : SqlValue → SqlValue → Option Ordering}

theorem evalBy_flip (hswap : SwapsSides cmp) (type : ComparisonType) (a b : Cell) :
    type.flip.evalBy cmp a b = type.evalBy cmp b a := by
  cases a with
  | none =>
      cases b with
      | none => cases type <;> rfl
      | some b => cases type <;> rfl
  | some a =>
      cases b with
      | none => cases type <;> rfl
      | some b =>
          have hba : cmp b a = (cmp a b).map Ordering.swap := hswap a b
          cases type <;> simp only [ComparisonType.flip, ComparisonType.evalBy, SqlValue.testBy, hba] <;>
            (rcases cmp a b with _ | _ | _ | _ <;> rfl)

/-- What is found in a comparison has its truth value. -/
theorem evalBy_of_normalises (hnorm : tryGet.Normalises) (hswap : SwapsSides cmp)
    {type type' : ComparisonType} {left right : Expr} {val : Value}
    (h : tryGet type left right = some (val, type')) (cell : Cell) :
    type.evalBy cmp (left.operand cell) (right.operand cell) = type'.evalBy cmp cell val.toCell := by
  rcases hnorm _ _ _ _ _ h with ⟨rfl, rfl, rfl⟩ | ⟨rfl, rfl, rfl⟩
  · rfl
  · rw [evalBy_flip hswap]
    rfl

/-- A converted comparison with a constant is the predicate of its filter. -/
theorem evalBy_predicate {type : ComparisonType} {op : FilterOp} {pf : PushedFilter}
    (hop : convertExprType type = some op) (hpf : pf.op = op) (cell : Cell) :
    type.evalBy cmp cell (some (pf.constant.value t)) = (pf.predicate t).evalBy cmp cell := by
  rw [PushedFilter.predicate]
  cases type <;> simp only [convertExprType, Option.some.injEq, reduceCtorEq] at hop <;>
    (rw [hpf, ← hop]; cases cell <;> rfl)

/-- The filter of a comparison holds where the comparison is TRUE. -/
theorem comparisonFilter_meaning (hnorm : tryGet.Normalises) (hswap : SwapsSides cmp)
    {type : ComparisonType} {left right : Expr} {pf : PushedFilter}
    (hden : Denotes bt t ((Expr.comparison type left right).atomConstants tryGet))
    (h : comparisonFilter tryGet bt colIdx seqnum t.oid type left right = .ok pf) (cell : Cell) :
    (pf.predicate t).evalBy cmp cell = (Expr.comparison type left right).truth cmp cell := by
  rw [comparisonFilter] at h
  split at h
  · cases h
  · next val comparison hget =>
      split at h
      · next op constant hop henc =>
          obtain rfl := (Except.ok.inj h).symm
          have hval : val.toCell = some (constant.value t) := by
            refine (hden val ?_ constant henc).2
            rw [Expr.atomConstants, hget]
            exact List.mem_singleton_self _
          rw [Expr.truth, evalBy_of_normalises hnorm hswap hget, hval]
          exact (evalBy_predicate hop rfl cell).symm
      · cases h

/-- A value of an IN list is a constant that can be encoded. -/
theorem inValue_ok {e : Expr} {c : EncodedConstant} :
    inValue bt t.oid e = .ok c ↔
      ∃ val, e = .constant val ∧ encodeConstant bt val t.kind = some c := by
  constructor
  · intro h
    rw [inValue] at h
    split at h
    · cases h
    · next val hval =>
        have he : e = .constant val := by
          cases e <;> simp only [Expr.constant?, reduceCtorEq, Option.some.injEq] at hval
          rw [hval]
        split at h
        · next constant henc =>
            obtain rfl := Except.ok.inj h
            exact ⟨val, he, henc⟩
        · cases h
  · rintro ⟨val, rfl, henc⟩
    rw [MOType.kind] at henc
    simp only [inValue, Expr.constant?, henc]

/-- Values of an IN list and their encodings test alike. -/
theorem inTruth_some {values : List Expr} {es : List EncodedConstant}
    (h : List.Forall₂ (fun e c => inValue bt t.oid e = .ok c) values es)
    (hden : Denotes bt t (values.filterMap Expr.constant?)) (cell : Cell) (v : SqlValue) :
    inTruth cmp (some v) cell values
      = (Predicate.isIn (es.map (·.value t))).evalBy cmp (some v) := by
  induction h with
  | nil => rfl
  | @cons e c values es hec _ ih =>
      obtain ⟨val, rfl, henc⟩ := inValue_ok.mp hec
      have hcell := (hden val (List.mem_cons_self ..) c henc).2
      have hrest := ih fun v hv => hden v (List.mem_cons_of_mem _ hv)
      rw [inTruth] at hrest ⊢
      rw [List.foldr_cons, hrest, Expr.operand, hcell]
      rfl

/-- An IN list is never TRUE on NULL. -/
theorem inTruth_none (cell : Cell) (values : List Expr) : inTruth cmp none cell values ≠ some true := by
  induction values with
  | nil => exact nofun
  | cons e values ih =>
      intro h
      rw [inTruth, List.foldr_cons, Truth.or_eq_true] at h
      rcases h with h | h
      · cases h
      · exact ih h

/-- The filter of an accepted operator expression holds where it is TRUE. -/
theorem operatorFilter_meaning {type : OperatorType} {children : List Expr} {pf : PushedFilter}
    (hsup : operatorSupported type children = true)
    (hden : Denotes bt t ((Expr.operator type children).atomConstants tryGet))
    (h : operatorFilter bt colIdx seqnum t.oid type children = .ok pf) (cell : Cell) :
    (pf.predicate t).evalBy cmp cell = some true ↔
      (Expr.operator type children).truth cmp cell = some true := by
  unfold operatorSupported at hsup
  split at hsup
  · obtain rfl := Except.ok.inj h
    rfl
  · obtain rfl := Except.ok.inj h
    rfl
  · next values =>
      cases hvalues : values.mapM (inValue bt t.oid) with
      | error msg =>
          rw [operatorFilter, List.drop_succ_cons, List.drop_zero, hvalues] at h
          cases h
      | ok es =>
          rw [operatorFilter, List.drop_succ_cons, List.drop_zero, hvalues] at h
          obtain rfl := Except.ok.inj h
          rw [Expr.truth]
          cases cell with
          | none => exact ⟨nofun, fun htrue => absurd htrue (inTruth_none _ _)⟩
          | some v =>
              show (Predicate.isIn (es.map (·.value t))).evalBy cmp (some v) = some true ↔ _
              rw [← inTruth_some (mapM_eq_ok.mp hvalues) hden (some v) v]
              rfl
  · cases hsup

/-- The filter of an accepted atom holds where the atom is TRUE. -/
theorem atomFilter_meaning (hnorm : tryGet.Normalises) (hswap : SwapsSides cmp) {a : Expr}
    {pf : PushedFilter} (hsup : supportsFilterExpression tryGet a = true)
    (hden : Denotes bt t (a.atomConstants tryGet))
    (h : atomFilter tryGet bt colIdx seqnum t.oid a = .ok pf) (cell : Cell) :
    (pf.predicate t).evalBy cmp cell = some true ↔ a.truth cmp cell = some true := by
  cases a with
  | comparison type left right =>
      rw [comparisonFilter_meaning hnorm hswap hden h]
  | operator type children => exact operatorFilter_meaning hsup hden h cell
  | optional child => cases h
  | conjunction isAnd children => cases h
  | constant val => cases h
  | columnRef => cases h
  | other => cases h

theorem inValues_wellFormed {values : List Expr} {es : List EncodedConstant}
    (h : List.Forall₂ (fun e c => inValue bt t.oid e = .ok c) values es)
    (hden : Denotes bt t (values.filterMap Expr.constant?)) : ∀ c ∈ es, c.WellFormed t := by
  induction h with
  | nil => exact fun _ hc => absurd hc List.not_mem_nil
  | @cons e c values es hec _ ih =>
      obtain ⟨val, rfl, henc⟩ := inValue_ok.mp hec
      have hhead := (hden val (List.mem_cons_self ..) c henc).1
      exact List.forall_mem_cons.mpr ⟨hhead, ih fun v hv => hden v (List.mem_cons_of_mem _ hv)⟩

/-- The constants of a filter are encoded constants of the atom. -/
theorem atomFilter_constants {a : Expr} {pf : PushedFilter}
    (h : atomFilter tryGet bt colIdx seqnum t.oid a = .ok pf) :
    (pf.op ≠ .isNull → pf.op ≠ .isNotNull → pf.op ≠ .inSet →
      ∃ val ∈ a.atomConstants tryGet, encodeConstant bt val t.kind = some pf.constant) ∧
    (pf.op = .inSet → ∀ c ∈ pf.inValues, ∃ val ∈ a.atomConstants tryGet, encodeConstant bt val t.kind = some c) := by
  cases a with
  | comparison type left right =>
      change comparisonFilter tryGet bt colIdx seqnum t.oid type left right = .ok pf at h
      rw [comparisonFilter] at h
      split at h
      · cases h
      · next val comparison hget =>
          split at h
          · next op constant hop henc =>
              obtain rfl := Except.ok.inj h
              refine ⟨fun _ _ _ => ⟨val, ?_, henc⟩, fun hin => ?_⟩
              · rw [Expr.atomConstants, hget]
                exact List.mem_singleton_self _
              · cases comparison <;> cases hop <;> cases hin
          · cases h
  | operator type children =>
      cases type with
      | isNull =>
          obtain rfl := Except.ok.inj h
          exact ⟨fun hno => absurd rfl hno, nofun⟩
      | isNotNull =>
          obtain rfl := Except.ok.inj h
          exact ⟨fun _ hno => absurd rfl hno, nofun⟩
      | compareIn =>
          change operatorFilter bt colIdx seqnum t.oid .compareIn children = .ok pf at h
          rw [operatorFilter] at h
          cases hvalues : (children.drop 1).mapM (inValue bt t.oid) with
          | error msg =>
              rw [hvalues] at h
              cases h
          | ok es =>
              rw [hvalues] at h
              obtain rfl := Except.ok.inj h
              refine ⟨fun _ _ hno => absurd rfl hno, fun _ c hc => ?_⟩
              obtain ⟨i, hi⟩ := List.mem_iff_getElem?.mp hc
              obtain ⟨e, he, hvalue⟩ := getElem?_of_forall₂ (mapM_eq_ok.mp hvalues) hi
              obtain ⟨val, rfl, henc⟩ := inValue_ok.mp hvalue
              exact ⟨val, List.mem_filterMap.mpr ⟨_, List.mem_of_getElem? he, rfl⟩, henc⟩
      | other => cases h
  | optional child => cases h
  | conjunction isAnd children => cases h
  | constant val => cases h
  | columnRef => cases h
  | other => cases h

/-- The filter of an atom is well formed. -/
theorem atomFilter_wellFormed {a : Expr} {pf : PushedFilter}
    (hden : Denotes bt t (a.atomConstants tryGet))
    (h : atomFilter tryGet bt colIdx seqnum t.oid a = .ok pf) : pf.WellFormed t := by
  cases a with
  | comparison type left right =>
      change comparisonFilter tryGet bt colIdx seqnum t.oid type left right = .ok pf at h
      rw [comparisonFilter] at h
      split at h
      · cases h
      · next val comparison hget =>
          split at h
          · next op constant hop henc =>
              have hmem : val ∈ (Expr.comparison type left right).atomConstants tryGet := by
                rw [Expr.atomConstants, hget]
                exact List.mem_singleton_self _
              have hconst := (hden val hmem constant henc).1
              obtain rfl := Except.ok.inj h
              refine ⟨rfl, fun _ _ _ => hconst, fun hin => ?_⟩
              cases comparison <;> cases hop <;> cases hin
          · cases h
  | operator type children =>
      cases type with
      | isNull =>
          obtain rfl := Except.ok.inj h
          exact ⟨rfl, fun hno => absurd rfl hno, nofun⟩
      | isNotNull =>
          obtain rfl := Except.ok.inj h
          exact ⟨rfl, fun _ hno => absurd rfl hno, nofun⟩
      | compareIn =>
          change operatorFilter bt colIdx seqnum t.oid .compareIn children = .ok pf at h
          rw [operatorFilter] at h
          cases hvalues : (children.drop 1).mapM (inValue bt t.oid) with
          | error msg =>
              rw [hvalues] at h
              cases h
          | ok es =>
              rw [hvalues] at h
              obtain rfl := Except.ok.inj h
              refine ⟨rfl, fun _ _ hno => absurd rfl hno, fun _ => ?_⟩
              exact inValues_wellFormed (mapM_eq_ok.mp hvalues) hden
      | other => cases h
  | optional child => cases h
  | conjunction isAnd children => cases h
  | constant val => cases h
  | columnRef => cases h
  | other => cases h

/-- Extraction preserves meaning: the filters it appends hold together on exactly
    the cells on which the expression is TRUE, and on a column of an ordered type
    the row test finds exactly those rows. -/
theorem extractFilter_preserves_meaning (hnorm : tryGet.Normalises) {e : Expr}
    (hden : Denotes bt t (e.requiredConstants tryGet)) {out out' : List PushedFilter}
    (h : extractFilter tryGet bt colIdx seqnum t.oid e out = .ok out') :
    ∃ new, out' = out ++ new ∧
      (∀ cmp, SwapsSides cmp → ∀ cell : Cell,
        (∀ pf ∈ new, (pf.predicate t).evalBy cmp cell = some true) ↔ e.truth cmp cell = some true) ∧
      ∀ (col : DecodedColumn) (row : Nat) (cell : Cell), FilterableColumn col → col.type = t →
        row < col.rowCount → col.cell? row = some cell →
          ((∀ pf ∈ new, rowPassesFilter pf col row = some true) ↔
            e.truth SqlValue.compare? cell = some true) := by
  have hsup : supportsFilterExpression tryGet e = true := by
    by_contra hno
    rw [extractFilter, if_neg hno] at h
    cases h
  rw [extractFilter_eq tryGet bt colIdx seqnum t.oid hsup] at h
  cases hnew : e.atoms.mapM (atomFilter tryGet bt colIdx seqnum t.oid) with
  | error msg =>
      rw [hnew] at h
      cases h
  | ok new =>
      rw [hnew] at h
      have hatoms := (supportsFilterExpression_iff tryGet e).mp hsup
      have hsub : ∀ a ∈ e.atoms, Denotes bt t (a.atomConstants tryGet) :=
        fun a ha val hval => hden val (List.mem_flatMap.mpr ⟨a, ha, hval⟩)
      -- filters and atoms correspond one to one, in order
      have hpairs := mapM_eq_ok.mp hnew
      have hmeaning : ∀ cmp, SwapsSides cmp → ∀ cell : Cell,
          (∀ pf ∈ new, (pf.predicate t).evalBy cmp cell = some true) ↔
            e.truth cmp cell = some true := by
        intro cmp hswap cell
        rw [e.truth_iff]
        exact forall_mem_iff_of_forall₂ hpairs fun a ha pf hpf =>
          atomFilter_meaning hnorm hswap (hatoms a ha) (hsub a ha) hpf cell
      refine ⟨new, (Except.ok.inj h).symm, hmeaning, fun col row cell hcol htype hrow hcell => ?_⟩
      rw [← hmeaning SqlValue.compare? compare?_swapsSides cell]
      have hwf : ∀ pf ∈ new, pf.WellFormed col.type := by
        refine (forall_mem_iff_of_forall₂ hpairs (P := fun _ => True) fun a ha pf hpf => ?_).mpr
          fun _ _ => trivial
        exact iff_of_true (htype ▸ atomFilter_wellFormed (hsub a ha) hpf) trivial
      refine forall₂_congr fun pf hpf => ?_
      rw [rowPassesFilter_spec hcol (hwf pf hpf) hrow, PushedFilter.holdsOn, hcell,
        Predicate.evalBy_compare?, htype, Option.some.injEq, decide_eq_true_iff]

end Meaning

theorem simpleComparison_normalises : ColumnConstantComparison.Normalises simpleComparison := by
  intro type left right val type' h
  unfold simpleComparison at h
  split at h
  · obtain ⟨rfl, rfl⟩ := Prod.mk.inj (Option.some.inj h)
    exact Or.inl ⟨rfl, rfl, rfl⟩
  · obtain ⟨rfl, rfl⟩ := Prod.mk.inj (Option.some.inj h)
    exact Or.inr ⟨rfl, rfl, rfl⟩
  · cases h

/-- An INTEGER constant. -/
def intConstant (i : Int) : Value := ⟨.integer, some (.num i)⟩

/-- `5 < x AND optional(x = 7) AND (x IN (6, 9) AND x IS NOT NULL)`. -/
def nestedFilter : Expr :=
  .conjunction true
    [.comparison .lessThan (.constant (intConstant 5)) .columnRef,
     .optional (.comparison .equal .columnRef (.constant (intConstant 7))),
     .conjunction true
       [.operator .compareIn [.columnRef, .constant (intConstant 6), .constant (intConstant 9)],
        .operator .isNotNull [.columnRef]]]

/-- The filters of the nested expression: the optional part has none. -/
theorem nestedFilter_extracted :
    ∃ out', extractFilter simpleComparison .duckdb 0 3 22 nestedFilter [] = .ok out' ∧
      out'.map (·.op) = [.greaterThan, .inSet, .isNotNull] ∧
      ∀ cell : Cell, (∀ pf ∈ out', (pf.predicate { oid := 22 }).evalBy SqlValue.compare? cell = some true)
        ↔ nestedFilter.truth SqlValue.compare? cell = some true := by
  have hden : Denotes .duckdb { oid := 22 } (nestedFilter.requiredConstants simpleComparison) := by
    have hconsts : nestedFilter.requiredConstants simpleComparison = [5, 6, 9].map intConstant := rfl
    rw [hconsts]
    intro val hval c henc
    simp only [List.map_cons, List.map_nil, List.mem_cons, List.not_mem_nil, or_false] at hval
    rcases hval with rfl | rfl | rfl <;>
      (obtain rfl := Option.some.inj henc; exact ⟨⟨fun _ => ⟨rfl, rfl⟩, nofun⟩, by decide⟩)
  have hrun : ∃ out', extractFilter simpleComparison .duckdb 0 3 22 nestedFilter [] = .ok out' ∧
      out'.map (·.op) = [.greaterThan, .inSet, .isNotNull] := ⟨_, rfl, rfl⟩
  obtain ⟨out', hout, hops⟩ := hrun
  obtain ⟨new, rfl, hmeaning, -⟩ :=
    extractFilter_preserves_meaning (t := { oid := 22 }) simpleComparison_normalises hden hout
  exact ⟨_, hout, hops, hmeaning SqlValue.compare? compare?_swapsSides⟩

-- ============================================================================
-- Coverage
-- ============================================================================

/-- Can the encoder encode the constants of a column of the type?  The types
    without a case are missing, and a DECIMAL64 whose width asks for 128 bits. -/
def MOType.encodable (t : MOType) : Bool :=
  match t.kind with
  | .year | .enum | .bit => false
  | .decimal64 => t.width % 256 ≤ 18
  | _ => true

section Coverage
variable {tryGet : ColumnConstantComparison} {bt : BlobText} {t : MOType} {ty : LogicalType}

/-- The width of a DECIMAL type decides which integers its values are. -/
theorem decimal_internalType {w s : Int} (h : LogicalType.mkDecimal w s = .ok ty) :
    (∃ width scale, ty = .decimal width scale) ∧
      (ty.internalType = .int128 ↔ 18 < w % 256) ∧
      (ty.internalType = .int16 ∨ ty.internalType = .int32 ∨ ty.internalType = .int64 ∨
        ty.internalType = .int128) := by
  unfold LogicalType.mkDecimal at h
  simp only at h
  split at h
  · obtain rfl := Except.ok.inj h
    have hpos : 0 ≤ w % 256 := Int.emod_nonneg w (by decide)
    refine ⟨⟨_, _, rfl⟩, ?_, ?_⟩ <;> simp only [LogicalType.internalType, decimalPhysicalType]
    · split
      · simp; omega
      · split
        · simp; omega
        · split
          · simp; omega
          · simp; omega
    · split
      · exact Or.inl rfl
      · split
        · exact Or.inr (Or.inl rfl)
        · split
          · exact Or.inr (Or.inr (Or.inl rfl))
          · exact Or.inr (Or.inr (Or.inr rfl))
  · cases h

/-- The constants of a DECIMAL column are unscaled integers. -/
theorem decimal_num {w s : Int} (h : LogicalType.mkDecimal w s = .ok ty) {d : ValueData}
    (hd : ty.Holds d) : ∃ i, d = .num i := by
  obtain ⟨⟨width, scale, rfl⟩, -⟩ := decimal_internalType h
  cases d with
  | num i => exact ⟨i, rfl⟩
  | bool b => exact hd.elim
  | real bits => exact hd.elim
  | str bs => exact hd.elim

/-- A DECIMAL64 constant is encoded unless it has 128 bits. -/
theorem encodeConstant_decimal64 {w s : Int} {val : Value} {i : Int}
    (h : LogicalType.mkDecimal w s = .ok val.type) (hd : val.data = some (.num i)) :
    (encodeConstant bt val .decimal64).isSome ↔ w % 256 ≤ 18 := by
  obtain ⟨-, hwide, htypes⟩ := decimal_internalType h
  rw [encodeConstant_fixed rfl (by decide), Option.isSome_map, encodeFixed, Value.getNum, hd]
  rcases htypes with ht | ht | ht | ht <;> rw [ht] at hwide ⊢ <;> simp at hwide ⊢ <;> omega

/-- A DECIMAL128 constant is always encoded. -/
theorem encodeConstant_decimal128 {w s : Int} {val : Value} {i : Int}
    (h : LogicalType.mkDecimal w s = .ok val.type) (hd : val.data = some (.num i)) :
    (encodeConstant bt val .decimal128).isSome := by
  obtain ⟨-, -, htypes⟩ := decimal_internalType h
  rw [encodeConstant_fixed rfl (by decide), Option.isSome_map, encodeFixed, Value.getNum, hd]
  rcases htypes with ht | ht | ht | ht <;> rw [ht] <;> rfl

/-- A non-NULL constant of the column's DuckDB type is encoded iff the type's
    constants can be. -/
theorem encodeConstant_isSome_iff (hty : moTypeToDuckDB t = .ok ty)
    (hpush : supportsPushdownType ty = true) {val : Value} (hval : val.IsOf ty) :
    (encodeConstant bt val t.kind).isSome ↔ t.encodable = true := by
  obtain ⟨rfl, d, hd, hholds⟩ := hval
  rw [moTypeToDuckDB] at hty
  rw [MOType.encodable]
  cases hk : t.kind <;> simp only [hk, reduceCtorEq, Except.ok.injEq] at hty
  case decimal64 =>
    obtain ⟨i, rfl⟩ := decimal_num hty hholds
    rw [encodeConstant_decimal64 hty hd, decide_eq_true_iff]
  case decimal128 =>
    obtain ⟨i, rfl⟩ := decimal_num hty hholds
    exact iff_of_true (encodeConstant_decimal128 hty hd) rfl
  case arrayFloat32 =>
    rw [← hty] at hpush
    cases hpush
  case arrayFloat64 =>
    rw [← hty] at hpush
    cases hpush
  -- the other types have one DuckDB type and one kind of constant each
  all_goals
    rw [← hty] at hholds
    cases d <;> first
      | exact hholds.elim
      | simp [encodeConstant, isStringType, moTypeFixedSize, encodeFixed, Value.getBool,
          Value.getNum, Value.getReal, Value.getString, hd, ← hty]

/-- The values of an accepted IN list are translated iff they are encoded. -/
theorem inValues_isOk_iff {values : List Expr}
    (hconst : values.all (fun e => e.constant?.any fun val => val.data.isSome) = true) :
    (∃ es, values.mapM (inValue bt t.oid) = .ok es) ↔
      ∀ val ∈ values.filterMap Expr.constant?, (encodeConstant bt val t.kind).isSome := by
  rw [exists_mapM_ok]
  simp only [inValue_ok, List.mem_filterMap]
  constructor
  · rintro h val ⟨e, he, hval⟩
    obtain ⟨c, val', rfl, henc⟩ := h e he
    obtain rfl : val' = val := Option.some.inj hval
    rw [henc]
    rfl
  · intro h e he
    have hany := List.all_eq_true.mp hconst e he
    obtain ⟨val, rfl⟩ : ∃ val, e = .constant val := by
      cases e with
      | constant val => exact ⟨val, rfl⟩
      | _ => cases hany
    obtain ⟨c, hc⟩ := Option.isSome_iff_exists.mp (h val ⟨_, he, rfl⟩)
    exact ⟨c, val, rfl, hc⟩

/-- An accepted atom is translated iff its constants are encoded. -/
theorem atomFilter_isOk_iff {colIdx seqnum : Nat} {a : Expr} (ha : a.isAtom = true)
    (hsup : supportsFilterExpression tryGet a = true) :
    (∃ pf, atomFilter tryGet bt colIdx seqnum t.oid a = .ok pf) ↔
      ∀ val ∈ a.atomConstants tryGet, (encodeConstant bt val t.kind).isSome := by
  cases a with
  | comparison type left right =>
      rw [supportsFilterExpression] at hsup
      rw [atomFilter, comparisonFilter, Expr.atomConstants]
      cases hget : tryGet type left right with
      | none =>
          rw [hget] at hsup
          cases hsup
      | some found =>
          obtain ⟨val, comparison⟩ := found
          simp only [hget, Bool.and_eq_true] at hsup
          obtain ⟨op, hop⟩ := Option.isSome_iff_exists.mp hsup.2
          simp only [Option.map_some, Option.toList_some, List.mem_singleton, forall_eq, hop]
          change _ ↔ (encodeConstant bt val (MOTypeOid.ofByte t.oid)).isSome
          cases encodeConstant bt val (MOTypeOid.ofByte t.oid) with
          | none => exact ⟨nofun, nofun⟩
          | some c => exact iff_of_true ⟨_, rfl⟩ rfl
  | operator type children =>
      rw [supportsFilterExpression] at hsup
      unfold operatorSupported at hsup
      split at hsup
      · exact iff_of_true ⟨_, rfl⟩ fun _ hval => absurd hval List.not_mem_nil
      · exact iff_of_true ⟨_, rfl⟩ fun _ hval => absurd hval List.not_mem_nil
      · next values =>
          rw [Bool.and_eq_true] at hsup
          rw [Expr.atomConstants, List.drop_succ_cons, List.drop_zero, ← inValues_isOk_iff hsup.1,
            atomFilter, operatorFilter, List.drop_succ_cons, List.drop_zero]
          cases values.mapM (inValue bt t.oid) with
          | error msg => exact ⟨nofun, nofun⟩
          | ok es => exact iff_of_true ⟨_, rfl⟩ ⟨_, rfl⟩
      · cases hsup
  | optional child => cases ha
  | conjunction isAnd children =>
      cases isAnd with
      | true => cases ha
      | false => cases hsup
  | constant val => cases hsup
  | columnRef => cases hsup
  | other => cases hsup

/-- An accepted expression is translated iff its required constants are encoded. -/
theorem extractFilter_isOk_iff {colIdx seqnum : Nat} {e : Expr} (out : List PushedFilter)
    (hsup : supportsFilterExpression tryGet e = true) :
    (∃ out', extractFilter tryGet bt colIdx seqnum t.oid e out = .ok out') ↔
      ∀ val ∈ e.requiredConstants tryGet, (encodeConstant bt val t.kind).isSome := by
  have hatoms := (supportsFilterExpression_iff tryGet e).mp hsup
  have hmap : (∃ out', extractFilter tryGet bt colIdx seqnum t.oid e out = .ok out') ↔
      ∃ new, e.atoms.mapM (atomFilter tryGet bt colIdx seqnum t.oid) = .ok new := by
    rw [extractFilter_eq tryGet bt colIdx seqnum t.oid hsup]
    cases e.atoms.mapM (atomFilter tryGet bt colIdx seqnum t.oid) with
    | error msg => exact ⟨nofun, nofun⟩
    | ok new => exact iff_of_true ⟨_, rfl⟩ ⟨_, rfl⟩
  rw [hmap, exists_mapM_ok]
  simp only [Expr.requiredConstants, List.forall_mem_flatMap]
  exact forall₂_congr fun a ha => atomFilter_isOk_iff (isAtom_of_mem_atoms e a ha) (hatoms a ha)

/-- On a column of a supported type, an accepted expression over its constants is
    translated exactly if the constants can be encoded or there are none. -/
theorem supported_filter_extracts_iff (hty : moTypeToDuckDB t = .ok ty)
    (hpush : supportsPushdownType ty = true) {e : Expr}
    (hsup : supportsFilterExpression tryGet e = true)
    (hconst : ∀ val ∈ e.requiredConstants tryGet, val.IsOf ty) (colIdx seqnum : Nat)
    (out : List PushedFilter) :
    (∃ out', extractFilter tryGet bt colIdx seqnum t.oid e out = .ok out') ↔
      t.encodable = true ∨ e.requiredConstants tryGet = [] := by
  have henc : ∀ val ∈ e.requiredConstants tryGet,
      ((encodeConstant bt val t.kind).isSome ↔ t.encodable = true) :=
    fun val hval => encodeConstant_isSome_iff hty hpush (hconst val hval)
  rw [extractFilter_isOk_iff out hsup, forall₂_congr henc]
  cases hvals : e.requiredConstants tryGet with
  | nil => exact iff_of_true (fun _ hval => absurd hval List.not_mem_nil) (Or.inr rfl)
  | cons val vals =>
      rw [or_iff_left (List.cons_ne_nil val vals)]
      exact ⟨fun h => h val (List.mem_cons_self ..), fun h _ _ => h⟩

end Coverage

/-- `x = 2000` on the column. -/
def isYear2000 : Expr := .comparison .equal .columnRef (.constant ⟨.smallint, some (.num 2000)⟩)

/-- It is translated for an INT16 column. -/
theorem int16_extracts :
    ∃ out', extractFilter simpleComparison .duckdb 0 0 21 isYear2000 [] = .ok out' :=
  (supported_filter_extracts_iff (t := { oid := 21 }) rfl rfl rfl
    (List.forall_mem_singleton.mpr ⟨rfl, _, rfl, by decide, by decide⟩) 0 0 []).mpr (Or.inl rfl)

/-- A YEAR column is a SMALLINT in DuckDB, a supported type, but the accepted
    comparison with the year 2000 throws. -/
theorem year_throws :
    moTypeToDuckDB { oid := 55 } = .ok .smallint ∧ supportsPushdownType .smallint = true ∧
      supportsFilterExpression simpleComparison isYear2000 = true ∧
      (⟨.smallint, some (.num 2000)⟩ : Value).IsOf .smallint ∧
      extractFilter simpleComparison .duckdb 0 0 55 isYear2000 []
        = .error "TAE cannot encode pushed comparison" :=
  ⟨rfl, rfl, rfl, ⟨rfl, _, rfl, by decide, by decide⟩, rfl⟩

end TaeScanner
