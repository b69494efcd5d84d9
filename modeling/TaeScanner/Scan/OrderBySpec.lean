/-
  TaeScanner.Scan.OrderBySpec

  When ORDER BY pushdown keeps the answer.

    * a unit is dropped when the units in front of it in the sorted queue hold as
      many raw rows as the limit asks for;
    * what stands in front of it are the units whose key sorts before its own, and
      some of those that tie with it, as `std::sort` puts these in any order;
    * dropping is harmless exactly when, in front of each such unit, that many values
      come before each of its own.
-/

import Mathlib.Algebra.Order.BigOperators.Group.List
import TaeScanner.Lib.SortedFronts
import TaeScanner.Scan.OrderBy
import TaeScanner.Scan.Pruning

namespace TaeScanner

open Lib

-- ============================================================================
-- The cut
-- ============================================================================

/-- The raw rows of the unit's block. -/
def SortableUnit.rows (su : SortableUnit) : Nat := su.md.blockRowCount su.unit.blockIdx

/-- The units that the truncation loop leaves out. -/
def droppedUnits (rowLimit : Nat) : Nat → List SortableUnit → List SortableUnit
  | _, [] => []
  | rowsAvailable, su :: rest =>
      if rowLimit ≤ rowsAvailable + su.rows then rest else droppedUnits rowLimit (rowsAvailable + su.rows) rest

section Cut
variable {rowLimit rowsAvailable : Nat} {sorted front rest : List SortableUnit} {su : SortableUnit}

theorem truncateUnits_cons :
    truncateUnits rowLimit rowsAvailable (su :: rest) =
      if rowLimit ≤ rowsAvailable + su.rows then [su]
      else su :: truncateUnits rowLimit (rowsAvailable + su.rows) rest := rfl

theorem droppedUnits_cons :
    droppedUnits rowLimit rowsAvailable (su :: rest) =
      if rowLimit ≤ rowsAvailable + su.rows then rest
      else droppedUnits rowLimit (rowsAvailable + su.rows) rest := rfl

theorem truncateUnits_append_droppedUnits :
    truncateUnits rowLimit rowsAvailable sorted ++ droppedUnits rowLimit rowsAvailable sorted = sorted := by
  induction sorted generalizing rowsAvailable with
  | nil => rfl
  | cons su rest ih =>
      rw [truncateUnits_cons, droppedUnits_cons]
      split
      · rfl
      · rw [List.cons_append, ih]

/-- A unit is dropped iff the units in front of it hold `rowLimit` raw rows. -/
theorem rows_front_iff (h : rowsAvailable < rowLimit) (hsorted : sorted = front ++ su :: rest) :
    rowLimit ≤ rowsAvailable + (front.map (·.rows)).sum ↔
      ∃ between, front = truncateUnits rowLimit rowsAvailable sorted ++ between ∧
        droppedUnits rowLimit rowsAvailable sorted = between ++ su :: rest := by
  induction front generalizing rowsAvailable sorted with
  | nil =>
      rw [List.nil_append] at hsorted
      rw [hsorted, truncateUnits_cons]
      refine iff_of_false (by simpa using h) ?_
      rintro ⟨between, hfront, -⟩
      split at hfront <;> cases hfront
  | cons first front ih =>
      rw [List.cons_append] at hsorted
      rw [hsorted, truncateUnits_cons, droppedUnits_cons, List.map_cons, List.sum_cons, ← Nat.add_assoc]
      split
      · next hreached =>
          exact iff_of_true (hreached.trans (Nat.le_add_right _ _)) ⟨front, rfl, rfl⟩
      · next hshort =>
          rw [ih (Nat.lt_of_not_le hshort) rfl]
          simp only [List.cons_append, List.cons.injEq, true_and]

/-- The kept units give the first values iff in front of each dropped one there are
    enough values before its own. -/
theorem topN_truncateUnits_iff {order : ScanOrderInfo} (hlimit : 0 < order.rowLimit)
    {values : SortableUnit → List OrderKey} :
    topN order.ComesFirst order.rowLimit ((truncateUnits order.rowLimit 0 sorted).flatMap values) =
        topN order.ComesFirst order.rowLimit (sorted.flatMap values) ↔
      ∀ front su rest, sorted = front ++ su :: rest → order.rowLimit ≤ (front.map (·.rows)).sum →
        ∀ d ∈ values su, order.rowLimit ≤ countUpTo order.ComesFirst d (front.flatMap values) := by
  have hall : sorted.flatMap values = (truncateUnits order.rowLimit 0 sorted).flatMap values ++
      (droppedUnits order.rowLimit 0 sorted).flatMap values := by
    rw [← List.flatMap_append, truncateUnits_append_droppedUnits]
  have hdropped : (∀ d ∈ (droppedUnits order.rowLimit 0 sorted).flatMap values, order.rowLimit ≤
        countUpTo order.ComesFirst d ((truncateUnits order.rowLimit 0 sorted).flatMap values)) ↔
      ∀ su ∈ droppedUnits order.rowLimit 0 sorted, ∀ d ∈ values su, order.rowLimit ≤
        countUpTo order.ComesFirst d ((truncateUnits order.rowLimit 0 sorted).flatMap values) := by
    simp only [List.mem_flatMap, forall_exists_index, and_imp]
    exact ⟨fun h su hsu d hd => h d su hsu hd, fun h d su hsu hd => h su hsu d hd⟩
  rw [hall, topN_append_eq_iff, hdropped, forall_le_countUpTo_flatMap_iff]
  constructor
  · intro h front su rest hsorted hrows
    rw [← Nat.zero_add (List.sum _), rows_front_iff hlimit hsorted] at hrows
    obtain ⟨between, rfl, hbetween⟩ := hrows
    exact h between su rest hbetween
  · intro h between su rest hbetween
    have hsorted : sorted = truncateUnits order.rowLimit 0 sorted ++ between ++ su :: rest := by
      rw [List.append_assoc, ← hbetween, truncateUnits_append_droppedUnits]
    have hrows := (rows_front_iff hlimit hsorted).mpr ⟨between, rfl, hbetween⟩
    rw [Nat.zero_add] at hrows
    exact h _ su rest hsorted hrows

end Cut

-- ============================================================================
-- The keys of the units
-- ============================================================================

/-- The key may stand in front of the other in the sorted queue; NULLs go to the end. -/
def ScanOrderInfo.KeyLe (order : ScanOrderInfo) : Option SqlValue → Option SqlValue → Prop
  | _, none => True
  | none, some _ => False
  | some x, some y => order.ComesFirst x.orderKey y.orderKey

section KeyLe
variable (order : ScanOrderInfo)

instance : DecidableRel order.KeyLe
  | _, none => .isTrue trivial
  | none, some _ => .isFalse id
  | some x, some y => inferInstanceAs (Decidable (order.ComesFirst x.orderKey y.orderKey))

instance : IsTrans (Option SqlValue) order.KeyLe where
  trans
    | _, _, none, _, _ => trivial
    | _, none, some _, _, h => absurd h id
    | none, some _, some _, h, _ => absurd h id
    | some _, some _, some _, hxy, hyz => trans_of order.ComesFirst hxy hyz

instance : Std.Total order.KeyLe where
  total
    | _, none => Or.inl trivial
    | none, some _ => Or.inr trivial
    | some x, some y => total_of order.ComesFirst x.orderKey y.orderKey

/-- The comparator says which key must not stand in front. -/
theorem ScanOrderInfo.sortsBefore_eq_false {order : ScanOrderInfo} {a b : SortableUnit} :
    order.sortsBefore b a = false ↔ order.KeyLe a.key b.key := by
  unfold sortsBefore KeyLe ComesFirst
  cases b.key <;> cases a.key <;> simp

instance : IsTrans SortableUnit fun a b => order.sortsBefore b a = false where
  trans a b c hab hbc := by
    rw [ScanOrderInfo.sortsBefore_eq_false] at hab hbc ⊢
    exact trans_of order.KeyLe hab hbc

instance : Std.Total fun a b : SortableUnit => order.sortsBefore b a = false where
  total a b := by
    rw [ScanOrderInfo.sortsBefore_eq_false, ScanOrderInfo.sortsBefore_eq_false]
    exact total_of order.KeyLe a.key b.key

end KeyLe

/-- An insertion sort as the library's sort. -/
def insertionStdSort : StdSort where
  sort := fun lt l => l.insertionSort fun a b => lt b a = false
  perm := fun _ l => List.perm_insertionSort _ l
  sorted := fun _ l => List.pairwise_insertionSort _ l

/-- Whatever arrangement of ties is asked for, some sort makes it. -/
theorem exists_stdSort {order : ScanOrderInfo} {l sorted : List SortableUnit} (hperm : sorted.Perm l)
    (hsorted : sorted.Pairwise fun a b => order.sortsBefore b a = false) :
    ∃ std : StdSort, std.sort order.sortsBefore l = sorted := by
  classical
  refine ⟨⟨fun lt l' => if lt = order.sortsBefore ∧ l' = l then sorted else insertionStdSort.sort lt l',
    fun lt l' => ?_, fun order' l' => ?_⟩, if_pos ⟨rfl, rfl⟩⟩
  · split
    · next h => exact h.2 ▸ hperm
    · exact insertionStdSort.perm lt l'
  · split
    · next h => exact h.1 ▸ hsorted
    · exact insertionStdSort.sorted order' l'

/-- The zone map of a unit's block. -/
def unitZoneMap? (storage : Storage) (col : OrderColumn) (wu : WorkUnit) : Option ZoneMap :=
  (storage.readMeta wu.objectIdx).bind fun md => md.getZoneMap wu.blockIdx col.seqnum

/-- The sort key of a unit. -/
def unitKey (storage : Storage) (order : ScanOrderInfo) (col : OrderColumn) (wu : WorkUnit) : Option SqlValue :=
  (unitZoneMap? storage col wu).bind (order.keyOf col)

/-- The raw rows of a unit's block, by the metadata of its object. -/
def rawRows (storage : Storage) (wu : WorkUnit) : Nat :=
  (storage.readMeta wu.objectIdx).elim 0 fun md => md.blockRowCount wu.blockIdx

/-- The unit may stand in front of the other in the sorted queue. -/
def UnitLe (storage : Storage) (order : ScanOrderInfo) (col : OrderColumn) (a b : WorkUnit) : Prop :=
  order.KeyLe (unitKey storage order col a) (unitKey storage order col b)

section Units
variable {storage : Storage} {order : ScanOrderInfo} {col : OrderColumn} {units : List WorkUnit}

instance : DecidableRel (UnitLe storage order col) := fun a b =>
  inferInstanceAs (Decidable (order.KeyLe (unitKey storage order col a) (unitKey storage order col b)))

instance : IsTrans WorkUnit (UnitLe storage order col) where
  trans _ _ _ hab hbc := trans_of order.KeyLe hab hbc

instance : Std.Total (UnitLe storage order col) where
  total _ _ := total_of order.KeyLe _ _

/-- A unit with its key and its raw rows. -/
theorem sortableUnit_eq_some {wu : WorkUnit} {su : SortableUnit}
    (h : sortableUnit storage order col wu = some su) :
    su.unit = wu ∧ su.key = unitKey storage order col wu ∧ su.rows = rawRows storage wu := by
  obtain ⟨md, hmd, rfl⟩ := Option.map_eq_some_iff.mp h
  refine ⟨rfl, ?_, ?_⟩
  · rw [unitKey, unitZoneMap?, hmd, Option.bind_some]
  · rw [rawRows, hmd]
    rfl

/-- The units that keys are read of are the units. -/
theorem sortableUnits_map_unit {sortable : List SortableUnit}
    (h : units.mapM (sortableUnit storage order col) = some sortable) : sortable.map (·.unit) = units := by
  have hrel := mapM_eq_some.mp h
  clear h
  induction hrel with
  | nil => rfl
  | cons hunit _ ih => rw [List.map_cons, ih, (sortableUnit_eq_some hunit).1]

/-- The keys of units whose metadata can be read. -/
theorem sortableUnits_exist (order : ScanOrderInfo) (col : OrderColumn)
    (h : ∀ wu ∈ units, (storage.readMeta wu.objectIdx).isSome) :
    ∃ sortable, units.mapM (sortableUnit storage order col) = some sortable := by
  apply Option.isSome_iff_exists.mp
  rw [mapM_isSome_iff]
  intro wu hwu
  rw [sortableUnit, Option.isSome_map]
  exact h wu hwu

/-- The units of the queue, in an arrangement of their keys. -/
theorem mem_sortable {sortable : List SortableUnit} (h : units.mapM (sortableUnit storage order col) = some sortable)
    {su : SortableUnit} (hsu : su ∈ sortable) : sortableUnit storage order col su.unit = some su := by
  obtain ⟨i, hi⟩ := List.mem_iff_getElem?.mp hsu
  obtain ⟨wu, -, hsome⟩ := getElem?_of_forall₂ (mapM_eq_some.mp h) hi
  rw [(sortableUnit_eq_some hsome).1]
  exact hsome

end Units

-- ============================================================================
-- The fronts of the units
-- ============================================================================

/-- The front is too short for the unit behind it to be dropped, or `rowLimit` of its
    values come before each value of the unit. -/
def FrontSuffices (storage : Storage) (order : ScanOrderInfo) (values : WorkUnit → List OrderKey)
    (front : List WorkUnit) (wu : WorkUnit) : Prop :=
  order.rowLimit ≤ (front.map (rawRows storage)).sum →
    ∀ d ∈ values wu, order.rowLimit ≤ countUpTo order.ComesFirst d (front.flatMap values)

/-- So it is for each unit, whichever of those that tie with it stand in its front. -/
def FrontsSuffice (storage : Storage) (order : ScanOrderInfo) (col : OrderColumn)
    (values : WorkUnit → List OrderKey) (units : List WorkUnit) : Prop :=
  ∀ wu ∈ units, ∀ tied ∈ (tiedWith (UnitLe storage order col) wu units).sublists,
    FrontSuffices storage order values (sortedBefore (UnitLe storage order col) wu units ++ tied) wu

instance (storage : Storage) (order : ScanOrderInfo) (values : WorkUnit → List OrderKey)
    (front : List WorkUnit) (wu : WorkUnit) : Decidable (FrontSuffices storage order values front wu) :=
  inferInstanceAs (Decidable (_ → _))

instance (storage : Storage) (order : ScanOrderInfo) (col : OrderColumn)
    (values : WorkUnit → List OrderKey) (units : List WorkUnit) :
    Decidable (FrontsSuffice storage order col values units) :=
  inferInstanceAs (Decidable (∀ wu ∈ units, ∀ tied ∈ (tiedWith (UnitLe storage order col) wu units).sublists, _))

section Fronts
variable {storage : Storage} {order : ScanOrderInfo} {col : OrderColumn} {units : List WorkUnit}
  {values : WorkUnit → List OrderKey}

theorem FrontSuffices.perm {front front' : List WorkUnit} {wu : WorkUnit} (hperm : front.Perm front')
    (h : FrontSuffices storage order values front wu) : FrontSuffices storage order values front' wu := by
  intro hrows d hd
  rw [← (hperm.map (rawRows storage)).sum_eq] at hrows
  rw [← countUpTo_perm (hperm.flatMap_right values)]
  exact h hrows d hd

/-- The units in the order of one sort. -/
theorem sortedUnits (std : StdSort) {sortable : List SortableUnit}
    (h : units.mapM (sortableUnit storage order col) = some sortable) :
    ((std.sort order.sortsBefore sortable).map (·.unit)).Perm units ∧
      ((std.sort order.sortsBefore sortable).map (·.unit)).Pairwise (UnitLe storage order col) := by
  have hperm := std.perm order.sortsBefore sortable
  refine ⟨sortableUnits_map_unit h ▸ hperm.map _, List.pairwise_map.mpr ?_⟩
  refine (std.sorted order sortable).imp_of_mem fun {a b} ha hb hab => ?_
  have hkeyA := (sortableUnit_eq_some (mem_sortable h (hperm.mem_iff.mp ha))).2.1
  have hkeyB := (sortableUnit_eq_some (mem_sortable h (hperm.mem_iff.mp hb))).2.1
  rwa [ScanOrderInfo.sortsBefore_eq_false, hkeyA, hkeyB] at hab

/-- The pushdown under one sort: the answer is kept iff each unit's front suffices. -/
theorem orderUnits_topN (std : StdSort) (values : WorkUnit → List OrderKey) (hlimit : 0 < order.rowLimit)
    {sortable : List SortableUnit} (h : units.mapM (sortableUnit storage order col) = some sortable) :
    ∃ kept, orderUnits std storage order col units = some kept ∧
      (topN order.ComesFirst order.rowLimit (kept.flatMap values) =
          topN order.ComesFirst order.rowLimit (units.flatMap values) ↔
        ∀ front wu rest, (std.sort order.sortsBefore sortable).map (·.unit) = front ++ wu :: rest →
          FrontSuffices storage order values front wu) := by
  have hunit : ∀ su ∈ std.sort order.sortsBefore sortable, su.rows = rawRows storage su.unit := fun su hsu =>
    (sortableUnit_eq_some (mem_sortable h ((std.perm _ _).mem_iff.mp hsu))).2.2
  have hall := topN_perm (r := order.ComesFirst) (n := order.rowLimit) ((sortedUnits std h).1.flatMap_right values)
  generalize hsorted : std.sort order.sortsBefore sortable = sorted at hunit hall
  refine ⟨(truncateUnits order.rowLimit 0 sorted).map (·.unit), ?_, ?_⟩
  · rw [orderUnits, h, Option.map_some, hsorted]
    exact congrArg (fun l => some (List.map SortableUnit.unit l)) (if_pos hlimit)
  · rw [← hall, List.flatMap_map, List.flatMap_map, topN_truncateUnits_iff hlimit]
    have hrows : ∀ {front su rest}, sorted = front ++ su :: rest →
        ((front.map (·.unit)).map (rawRows storage)).sum = (front.map (·.rows)).sum := by
      rintro front su rest rfl
      rw [List.map_map]
      exact congrArg List.sum (List.map_congr_left fun x hx => (hunit x (List.mem_append_left _ hx)).symm)
    constructor
    · intro hfront front wu rest hqueue
      obtain ⟨front, tail, hsplit, rfl, htail⟩ := List.map_eq_append_iff.mp hqueue
      obtain ⟨su, rest, rfl, rfl, rfl⟩ := List.map_eq_cons_iff.mp htail
      intro hlimitRows
      rw [hrows hsplit] at hlimitRows
      rw [List.flatMap_map]
      exact hfront front su rest hsplit hlimitRows
    · intro hfront front su rest hsplit
      rw [← hrows hsplit]
      intro hlimitRows
      have hunits : sorted.map (·.unit) = front.map (·.unit) ++ su.unit :: rest.map (·.unit) := by
        rw [hsplit, List.map_append, List.map_cons]
      have hsuffices := hfront _ _ _ hunits hlimitRows
      rwa [List.flatMap_map] at hsuffices

/-- ORDER BY pushdown gives the first values whatever `std::sort` does with ties, iff
    the fronts of all units suffice. -/
theorem orderUnits_topN_iff (hlimit : 0 < order.rowLimit)
    (hmeta : ∀ wu ∈ units, (storage.readMeta wu.objectIdx).isSome) :
    (∀ std, ∃ kept, orderUnits std storage order col units = some kept ∧
        topN order.ComesFirst order.rowLimit (kept.flatMap values) =
          topN order.ComesFirst order.rowLimit (units.flatMap values)) ↔
      FrontsSuffice storage order col values units := by
  obtain ⟨sortable, hsortable⟩ := sortableUnits_exist order col hmeta
  rw [FrontsSuffice, ← forall_front_iff (P := FrontSuffices storage order values) FrontSuffices.perm]
  constructor
  · intro h front wu rest hperm hsorted
    -- a sort that arranges the units so
    obtain ⟨sorted, hrel, hsortedPerm⟩ := List.perm_comp_forall₂ hperm (mapM_eq_some.mp hsortable)
    have hunits := sortableUnits_map_unit (mapM_eq_some.mpr hrel)
    have hkey : ∀ su ∈ sorted, su.key = unitKey storage order col su.unit := fun su hsu =>
      (sortableUnit_eq_some (mem_sortable hsortable (hsortedPerm.mem_iff.mp hsu))).2.1
    obtain ⟨std, hstd⟩ : ∃ std : StdSort, std.sort order.sortsBefore sortable = sorted := by
      apply exists_stdSort hsortedPerm
      rw [← hunits, List.pairwise_map] at hsorted
      refine hsorted.imp_of_mem fun {a b} ha hb hab => ?_
      rw [ScanOrderInfo.sortsBefore_eq_false, hkey a ha, hkey b hb]
      exact hab
    obtain ⟨kept, hkept, htop⟩ := h std
    obtain ⟨kept', hkept', hiff⟩ := orderUnits_topN std values hlimit hsortable
    obtain rfl := Option.some.inj (hkept.symm.trans hkept')
    rw [hstd, hunits] at hiff
    exact hiff.mp htop front wu rest rfl
  · intro h std
    obtain ⟨hperm, hsorted⟩ := sortedUnits std hsortable
    obtain ⟨kept, hkept, hiff⟩ := orderUnits_topN std values hlimit hsortable
    refine ⟨kept, hkept, hiff.mpr fun front wu rest hsplit => ?_⟩
    rw [hsplit] at hperm hsorted
    exact h front wu rest hperm hsorted

/-- Where the values of all units that can stand in front of a dropped one come before
    its own, and are as many as their raw rows, the fronts suffice. -/
theorem frontsSuffice_of_apart (h : ∀ wu ∈ units,
      order.rowLimit ≤ ((notBehind (UnitLe storage order col) wu units).map (rawRows storage)).sum →
        ∀ w ∈ notBehind (UnitLe storage order col) wu units, ∀ d ∈ values wu,
          (values w).length = rawRows storage w ∧ ∀ x ∈ values w, order.ComesFirst x d) :
    FrontsSuffice storage order col values units := by
  intro wu hwu tied htied hrows d hd
  obtain ⟨front, hperm, hsub⟩ := front_subperm hwu htied
  rw [← countUpTo_perm (hperm.flatMap_right values)]
  rw [← (hperm.map (rawRows storage)).sum_eq] at hrows
  have hlimit := hrows.trans ((hsub.map (rawRows storage)).sum_le_sum fun _ _ => Nat.zero_le _)
  -- every value of the front counts
  have hall : countUpTo order.ComesFirst d (front.flatMap values) = (front.map (rawRows storage)).sum := by
    rw [countUpTo, List.countP_eq_length.mpr, List.length_flatMap]
    · exact congrArg List.sum (List.map_congr_left fun w hw => (h wu hwu hlimit w (hsub.subset hw) d hd).1)
    · intro x hx
      obtain ⟨w, hw, hx⟩ := List.mem_flatMap.mp hx
      exact decide_eq_true ((h wu hwu hlimit w (hsub.subset hw) d hd).2 x hx)
  rw [hall]
  exact hrows

end Fronts

-- ============================================================================
-- Two blocks
-- ============================================================================

/-- A block of `int32` values below 256, with the zone map of its bounds. -/
def byteColumn (values : List Byte) : DecodedColumn :=
  { type := { oid := 22 }, rowCount := values.length, data := values.flatMap fun b => [b, 0, 0, 0] }

def xColumn : OrderColumn := ⟨0, .int32, .integer⟩

/-- `ORDER BY x ASC LIMIT 2`. -/
def ascLimitTwo : ScanOrderInfo :=
  { columnIdx := 0, ascending := true, useMinStat := true, isString := false, rowLimit := 2 }

theorem byteColumn_pair_bounds {lo hi : Byte} (hlo : leInt [lo, 0, 0, 0] ≤ leInt [hi, 0, 0, 0]) :
    (int32ZoneMap lo hi).Bounds (byteColumn [lo, hi]) := by
  intro st hst row hrow _ bs hbs
  obtain rfl : st = .int 4 := (Option.some.inj hst).symm
  have hmin : (int32ZoneMap lo hi).getMin (.int 4) = some (leInt [lo, 0, 0, 0]) := rfl
  have hmax : (int32ZoneMap lo hi).getMax (.int 4) = some (leInt [hi, 0, 0, 0]) := rfl
  have hrow' : row = 0 ∨ row = 1 := by
    have h2 : row < 2 := hrow
    omega
  rw [hmin, hmax]
  rcases hrow' with rfl | rfl
  · obtain rfl : [lo, 0, 0, 0] = bs := Option.some.inj hbs
    exact ⟨decide_eq_true le_rfl, decide_eq_true hlo⟩
  · obtain rfl : [hi, 0, 0, 0] = bs := Option.some.inj hbs
    exact ⟨decide_eq_true hlo, decide_eq_true le_rfl⟩

end TaeScanner
