/-
  TaeScanner.Scan.ChunkResidue

  What the rejected chunks of a call leave behind.  A call goes on filling the
  same output after a chunk of which no row is returned, and neither the fill
  nor the filter takes back what it did to a vector: cleared validity bits stay
  cleared, a vector made CONSTANT or a dictionary stays one until its kind is
  set again.  A returned cell is that of its own row exactly when the residue
  of the column does not change it.
-/

import TaeScanner.Filter.ConstantColumns
import TaeScanner.Scan.ExecuteSpec

namespace TaeScanner

open Lib

-- ============================================================================
-- The flags of a fill
-- ============================================================================

/-- The NULL of a CONSTANT column. -/
def DecodedColumn.constantNull (col : DecodedColumn) : Bool :=
  decide (col.data = []) || (decide (0 < col.nullCount) && col.isNullAt 0)

namespace ChunkWindow
variable (w : ChunkWindow)

/-- Is the output column filled from a CONSTANT column? -/
def isConstant : OutputColumnInfo → Bool
  | .taeColumn _ decodedPos => (w.cols[decodedPos]?).any fun col => decide (col.vecClass = 1)
  | .vcolFilename | .vcolBlockId => false

/-- The validity bits the fill of an output column clears. -/
def marks (om : OutputColumnInfo) (i : Nat) : Bool :=
  match om with
  | .taeColumn _ decodedPos =>
      (w.cols[decodedPos]?).any fun col =>
        if col.vecClass = 1 then decide (i = 0) && col.constantNull
        else col.marks w.chunkRows w.srcOffset i
  | .vcolFilename | .vcolBlockId => false

/-- The flags after the fill of an output column. -/
def fillFlags (om : OutputColumnInfo) (f : VectorFlags) : VectorFlags :=
  ⟨if w.isConstant om then .constant else f.kind, fun i => f.invalid i || w.marks om i⟩

end ChunkWindow

section FillFlags
variable (v : DuckVector) (f : VectorFlags)

theorem constantNull_eq_false {col : DecodedColumn} :
    col.constantNull = false ↔ col.data ≠ [] ∧ ¬ (0 < col.nullCount ∧ col.isNullAt 0 = true) := by
  simp [DecodedColumn.constantNull]

theorem fillConstantColumn_null {col : DecodedColumn} (h : col.constantNull = true) :
    fillConstantColumn v col = some (v.setConstant.setInvalid 0) := by
  rw [fillConstantColumn]
  by_cases hdata : col.data = []
  · rw [if_pos hdata]
  · rw [if_neg hdata, if_pos (by simpa [DecodedColumn.constantNull, hdata] using h)]

/-- A CONSTANT fill writes the same memory whatever the flags, makes the vector
    CONSTANT and clears at most bit 0. -/
theorem fillConstantColumn_withFlags (col : DecodedColumn) :
    fillConstantColumn (v.withFlags f) col =
      (fillConstantColumn v col).map fun v' =>
        v'.withFlags ⟨.constant, fun i => f.invalid i || (decide (i = 0) && col.constantNull)⟩ := by
  cases hnull : col.constantNull with
  | true =>
      rw [fillConstantColumn_null _ hnull, fillConstantColumn_null _ hnull, Option.map_some]
      refine congrArg some (congrArg (v.withFlags ⟨.constant, ·⟩) (funext fun i => ?_))
      show Function.update f.invalid 0 true i = _
      by_cases hi : i = 0
      · simp [hi]
      · simp [hi]
  | false =>
      obtain ⟨hdata, hbit⟩ := constantNull_eq_false.mp hnull
      have hset : ∀ u : DuckVector, u.setConstant = u.withFlags ⟨.constant, u.invalid⟩ := fun _ => rfl
      rw [fillConstantColumn_value hdata hbit, fillConstantColumn_value hdata hbit, hset, hset,
        DuckVector.withFlags_withFlags, copyColumn_withFlags, copyColumn_withFlags, Option.map_map]
      simp [Function.comp_def]

/-- The fill of an output column writes the same memory whatever the flags. -/
theorem fillSlot_withFlags (plan : ScanPlan) (w : ChunkWindow) (om : OutputColumnInfo) :
    plan.fillSlot w om (v.withFlags f) =
      (plan.fillSlot w om v).map fun v' => v'.withFlags (w.fillFlags om f) := by
  have hkeep : w.isConstant om = false → w.marks om = (fun _ => false) → w.fillFlags om f = f := by
    intro hconst hmarks
    rw [ChunkWindow.fillFlags, hconst, hmarks]
    simp
  cases om with
  | taeColumn taeColIdx decodedPos =>
      unfold ScanPlan.fillSlot
      cases hcol : w.cols[decodedPos]? with
      | none =>
          have hf := hkeep (by simp [ChunkWindow.isConstant, hcol])
            (by funext i; simp [ChunkWindow.marks, hcol])
          simp only [hcol, hf]
          rfl
      | some col =>
          simp only [hcol, fillColumn]
          by_cases hclass : col.vecClass = 1
          · rw [if_pos hclass, if_pos hclass, fillConstantColumn_withFlags]
            simp [ChunkWindow.fillFlags, ChunkWindow.isConstant, ChunkWindow.marks, hcol, hclass]
          · rw [if_neg hclass, if_neg hclass, copyColumn_withFlags, Option.map_map, Option.map_map]
            refine congrArg (fun g => Option.map g _) (funext fun u => ?_)
            simp only [Function.comp_apply, setNullMask_eq, ChunkWindow.fillFlags,
              ChunkWindow.isConstant, ChunkWindow.marks, hcol, Option.any_some, if_neg hclass,
              decide_eq_false hclass, Bool.false_eq_true, if_false]
            rfl
  | vcolFilename =>
      rw [hkeep rfl rfl]
      unfold ScanPlan.fillSlot
      cases plan.objects[w.objectIdx]? with
      | none => rfl
      | some info => rfl
  | vcolBlockId =>
      rw [hkeep rfl rfl]
      rfl

end FillFlags

-- ============================================================================
-- What a filled column shows
-- ============================================================================

/-- What a column with flags `f` shows at position `k` after a fill whose rows have
    the cells `own`. -/
def VectorFlags.shown (f : VectorFlags) (constant : Bool) (own : Nat → Cell) (k : Nat) : Cell :=
  if constant then (if f.invalid 0 then none else own k)
  else
    match f.kind with
    | .flat => if f.invalid k then none else own k
    | .constant => if f.invalid 0 then none else own 0
    | .dictionary cells => (cells[k]?).getD none

/-- The flags of a reset vector. -/
def VectorFlags.clean : VectorFlags := ⟨.flat, fun _ => false⟩

/-- The cell of position `k` of a window, filled into a reset vector. -/
def ScanPlan.freshCell (plan : ScanPlan) (w : ChunkWindow) (om : OutputColumnInfo) (v : DuckVector)
    (k : Nat) : Cell :=
  match plan.fillSlot w om v.reset with
  | some own => own.cell k
  | none => none

/-- The cells of one memory under two flags. -/
theorem cell_shown (u : DuckVector) (constant : Bool) (m : Nat → Bool) (f : VectorFlags) (k : Nat) :
    (u.withFlags ⟨if constant then .constant else f.kind, fun i => f.invalid i || m i⟩).cell k =
      f.shown constant (u.withFlags ⟨if constant then .constant else .flat, m⟩).cell k := by
  have hor : ∀ (a b : Bool) (c : Cell),
      (if (a || b) = true then none else c) =
        if a = true then none else if b = true then none else c := by
    intro a b c
    cases a <;> rfl
  rw [DuckVector.cell, VectorFlags.shown]
  cases constant with
  | true => exact hor _ _ _
  | false =>
      simp only [Bool.false_eq_true, if_false, DuckVector.withFlags_kind, DuckVector.withFlags_invalid,
        DuckVector.withFlags_elemAt]
      cases f.kind with
      | flat => exact hor _ _ _
      | constant => exact hor _ _ _
      | dictionary cells => rfl

/-- A fill shows the fresh cells through the flags it found. -/
theorem fillSlot_cell {plan : ScanPlan} {w : ChunkWindow} {om : OutputColumnInfo} {v v' : DuckVector}
    (h : plan.fillSlot w om v = some v') (k : Nat) :
    v'.cell k = v.flags.shown (w.isConstant om) (plan.freshCell w om v) k ∧
      v'.flags = w.fillFlags om v.flags := by
  have hself := fillSlot_withFlags v v.flags plan w om
  rw [DuckVector.withFlags_self, h, Option.map_some] at hself
  have hflags : v'.flags = w.fillFlags om v.flags := congrArg DuckVector.flags (Option.some.inj hself)
  have hfresh : ∀ k, plan.freshCell w om v k = (v'.withFlags (w.fillFlags om .clean)).cell k := by
    intro k
    rw [ScanPlan.freshCell, DuckVector.reset_eq_withFlags, fillSlot_withFlags, h, Option.map_some]
    rfl
  refine ⟨?_, hflags⟩
  rw [Option.some.inj hself, ChunkWindow.fillFlags, cell_shown]
  refine congrArg (fun own => VectorFlags.shown v.flags (w.isConstant om) own k) (funext fun i => ?_)
  rw [hfresh, ChunkWindow.fillFlags]
  simp [VectorFlags.clean]

-- ============================================================================
-- The chunks of a call
-- ============================================================================

/-- What one chunk does to a column: how it fills it, the cells of its rows, and
    the selection the filter slices it by, if it does. -/
structure ChunkEffect where
  constant : Bool
  marks : Nat → Bool
  own : Nat → Cell
  sliced : Option (List Nat)

/-- The flags a column is left with. -/
def VectorFlags.after (f : VectorFlags) (e : ChunkEffect) : VectorFlags where
  kind :=
    match e.sliced with
    | some sel => .dictionary (sel.map (f.shown e.constant e.own))
    | none => if e.constant then .constant else f.kind
  invalid := fun i => f.invalid i || e.marks i

/-- The flags a call's rejected chunks leave behind. -/
def residue (effects : List ChunkEffect) : VectorFlags := effects.foldl VectorFlags.after .clean

theorem foldl_after_invalid (effects : List ChunkEffect) (f : VectorFlags) (i : Nat) :
    (effects.foldl VectorFlags.after f).invalid i = (f.invalid i || effects.any (·.marks i)) := by
  induction effects generalizing f with
  | nil => exact (Bool.or_false _).symm
  | cons e effects ih =>
      rw [List.foldl_cons, ih, List.any_cons, ← Bool.or_assoc]
      rfl

/-- Cleared bits stay cleared. -/
theorem residue_invalid (effects : List ChunkEffect) (i : Nat) :
    (residue effects).invalid i = effects.any (·.marks i) := by
  rw [residue, foldl_after_invalid]
  exact Bool.false_or _

/-- A vector stays flat while no chunk is CONSTANT or sliced. -/
theorem residue_kind_flat {effects : List ChunkEffect}
    (h : ∀ e ∈ effects, e.constant = false ∧ e.sliced = none) : (residue effects).kind = .flat := by
  suffices hfold : ∀ f : VectorFlags, f.kind = .flat →
      (effects.foldl VectorFlags.after f).kind = .flat from hfold .clean rfl
  induction effects with
  | nil => exact fun f hf => hf
  | cons e effects ih =>
      intro f hf
      obtain ⟨hconst, hsliced⟩ := h e List.mem_cons_self
      refine ih (fun e' he' => h e' (List.mem_cons_of_mem e he')) (f.after e) ?_
      simp only [VectorFlags.after, hsliced, hconst, Bool.false_eq_true, if_false, hf]

/-- When what is left behind does not change the cell of position `k`.  A CONSTANT
    fill has the kind set again, so only bit 0 counts; a FLAT fill keeps the kind it
    finds. -/
def OwnShown (f : VectorFlags) (constant : Bool) (own : Nat → Cell) (k : Nat) : Prop :=
  if constant then f.invalid 0 = true → own k = none
  else
    match f.kind with
    | .flat => f.invalid k = true → own k = none
    | .constant => if f.invalid 0 then own k = none else own k = own 0
    | .dictionary cells => own k = (cells[k]?).getD none

/-- The condition is exact. -/
theorem shown_eq_iff {f : VectorFlags} {constant : Bool} {own : Nat → Cell} {k : Nat} :
    f.shown constant own k = own k ↔ OwnShown f constant own k := by
  have hmask : ∀ (b : Bool) (c : Cell), (if b = true then none else c) = c ↔ (b = true → c = none) := by
    intro b c
    cases b with
    | true => exact ⟨fun h _ => h.symm, fun h => (h rfl).symm⟩
    | false => exact ⟨fun _ h => absurd h (by decide), fun _ => rfl⟩
  rw [VectorFlags.shown, OwnShown]
  cases constant with
  | true => exact hmask _ _
  | false =>
      simp only [Bool.false_eq_true, if_false]
      cases f.kind with
      | flat => exact hmask _ _
      | constant =>
          show (if f.invalid 0 = true then none else own 0) = own k ↔
            if f.invalid 0 = true then own k = none else own k = own 0
          split
          · exact eq_comm
          · exact eq_comm
      | dictionary cells => exact eq_comm

/-- The condition looks at the cells of positions 0 and `k` alone. -/
theorem ownShown_congr {f : VectorFlags} {constant : Bool} {own own' : Nat → Cell} {k : Nat}
    (hzero : own 0 = own' 0) (hk : own k = own' k) :
    OwnShown f constant own k ↔ OwnShown f constant own' k := by
  rw [OwnShown, OwnShown, hzero, hk]

/-- A bit left cleared by some chunk hides every cell but NULL. -/
theorem invalid_imp_iff {effects : List ChunkEffect} {i : Nat} {q : Prop} :
    ((residue effects).invalid i = true → q) ↔ ∀ e ∈ effects, e.marks i = true → q := by
  rw [residue_invalid, List.any_eq_true]
  exact ⟨fun h e he hm => h ⟨e, he, hm⟩, fun h ⟨e, he, hm⟩ => h e he hm⟩

/-- A FLAT fill after chunks that were neither CONSTANT nor sliced: the position must
    not have been NULL in any of them. -/
theorem ownShown_flat_iff {effects : List ChunkEffect} {own : Nat → Cell} {k : Nat}
    (h : ∀ e ∈ effects, e.constant = false ∧ e.sliced = none) :
    OwnShown (residue effects) false own k ↔ ∀ e ∈ effects, e.marks k = true → own k = none := by
  rw [← invalid_imp_iff, OwnShown, if_neg Bool.false_ne_true, residue_kind_flat h]

/-- A CONSTANT fill: position 0 must not have been NULL in any earlier chunk. -/
theorem ownShown_constant_iff {effects : List ChunkEffect} {own : Nat → Cell} {k : Nat} :
    OwnShown (residue effects) true own k ↔ ∀ e ∈ effects, e.marks 0 = true → own k = none := by
  rw [← invalid_imp_iff, OwnShown, if_pos rfl]

namespace ScanPlan
variable (plan : ScanPlan)

/-- The selection `ApplyRowFilters` slices the chunk by: none when all rows of the
    window pass, or none does. -/
def filterSlice (w : ChunkWindow) : Option (List Nat) :=
  let sel := (plan.windowRows w).map (· - w.srcOffset)
  if sel.length = w.chunkRows ∨ sel.length = 0 then none else some sel

/-- What is returned of a chunk, in positions of the window. -/
def keptPositions (w : ChunkWindow) (sample : Option (List Nat)) : List Nat :=
  (plan.keptRows w sample).map (· - w.srcOffset)

/-- A slice of a column, if there is one. -/
def sliceBy (sel : Option (List Nat)) (v : DuckVector) : DuckVector :=
  match sel with
  | some sel => v.slice sel
  | none => v

/-- The effects of rejected chunks on one output column. -/
def columnEffects (om : OutputColumnInfo) : List ChunkWindow → DuckVector → List ChunkEffect
  | [], _ => []
  | w :: ws, v =>
      ⟨w.isConstant om, w.marks om, plan.freshCell w om v, plan.filterSlice w⟩ ::
        columnEffects om ws (sliceBy (plan.filterSlice w) ((plan.fillSlot w om v).getD v))

/-- The chunks of a call that are rejected, by the filters or by the sampler. -/
def rejectChunks : List (ChunkWindow × (Nat → Bool)) → DataChunk → Option DataChunk
  | [], output => some output
  | (w, draws) :: rest, output =>
      match plan.emitWindow draws w output with
      | some (out, .filtered) => rejectChunks rest out
      | some (out, .unsampled) => rejectChunks rest out
      | _ => none

variable {plan} {w : ChunkWindow} {draws : Nat → Bool} {output out filled : DataChunk}

/-- Each output column is filled on its own. -/
theorem fillOutput_column (h : plan.fillOutput w output = some filled) {j : Nat} {om : OutputColumnInfo}
    {v : DuckVector} (hom : plan.outputMap[j]? = some om) (hv : output.columns[j]? = some v) :
    ∃ v', plan.fillSlot w om v = some v' ∧ filled.columns[j]? = some v' := by
  obtain ⟨columns, hcols, rfl⟩ := Option.map_eq_some_iff.mp h
  have hzip : (plan.outputMap.zip output.columns)[j]? = some (om, v) := by
    rw [List.getElem?_zip_eq_some]
    exact ⟨hom, hv⟩
  exact mapM_getElem? hcols hzip

/-- The filter selects the passing rows of the window. -/
theorem passingRows_positions {sel : List Nat}
    (h : passingRows plan.filters w.cols w.chunkRows w.srcOffset = some sel) :
    (plan.windowRows w).map (· - w.srcOffset) = sel := by
  rw [windowRows, ← passingRows_eq h, List.map_map]
  have hid : ((fun x => x - w.srcOffset) ∘ fun x => w.srcOffset + x) = id := by
    funext x
    exact Nat.add_sub_cancel_left w.srcOffset x
  rw [hid, List.map_id]

/-- `ApplyRowFilters` slices by the passing rows, or leaves the columns alone. -/
theorem applyRowFilters_columns {n : Nat}
    (h : applyRowFilters plan.filters w.cols filled w.chunkRows w.srcOffset = some (out, n)) :
    out.columns = filled.columns.map (sliceBy (plan.filterSlice w)) := by
  have hnone : ∀ c : DataChunk, c.columns.map (sliceBy none) = c.columns := fun c => List.map_id _
  rw [applyRowFilters] at h
  split at h
  · next hnil =>
      obtain ⟨rfl, -⟩ := Prod.mk.inj (Option.some.inj h)
      have hall : plan.filterSlice w = none := by
        refine if_pos (Or.inl ?_)
        rw [List.length_map, windowRows, passingFrom_of_no_filters hnil, List.length_range']
      rw [hall, hnone]
  · obtain ⟨sel, hsel, hout⟩ := Option.map_eq_some_iff.mp h
    have hpos : plan.filterSlice w =
        if sel.length = w.chunkRows ∨ sel.length = 0 then none else some sel := by
      rw [filterSlice, passingRows_positions hsel]
    rw [hpos]
    split at hout
    · next hall =>
        obtain ⟨rfl, -⟩ := Prod.mk.inj hout
        rw [if_pos (Or.inl hall), hnone]
    · next hsome =>
        split at hout
        · next hzero =>
            obtain ⟨rfl, -⟩ := Prod.mk.inj hout
            rw [if_pos (Or.inr hzero), hnone]
            rfl
        · next hpos =>
            obtain ⟨rfl, -⟩ := Prod.mk.inj hout
            rw [if_neg (not_or.mpr ⟨hsome, hpos⟩)]
            rfl

/-- A sliced column shows the selected cells. -/
theorem slice_cell_of_getElem? {v : DuckVector} {sel : List Nat} {p k : Nat} (h : sel[p]? = some k) :
    (v.slice sel).cell p = v.cell k := by
  obtain ⟨hp, rfl⟩ := List.getElem?_eq_some_iff.mp h
  exact DataChunk.slice_cell v sel hp

/-- After the filter a column shows the passing rows, in order. -/
theorem filterSlice_cell {v : DuckVector} {q k : Nat}
    (h : ((plan.windowRows w).map (· - w.srcOffset))[q]? = some k) :
    (sliceBy (plan.filterSlice w) v).cell q = v.cell k := by
  by_cases hslice : ((plan.windowRows w).map (· - w.srcOffset)).length = w.chunkRows ∨
      ((plan.windowRows w).map (· - w.srcOffset)).length = 0
  swap
  · rw [filterSlice, if_neg hslice]
    exact slice_cell_of_getElem? h
  rw [filterSlice, if_pos hslice]
  obtain ⟨hq, hk⟩ := List.getElem?_eq_some_iff.mp h
  rcases hslice with hall | hzero
  · -- all rows pass, so the positions are those of the window
    have hrows : plan.windowRows w = List.range' w.srcOffset w.chunkRows := by
      refine List.filter_eq_self.mpr (List.length_filter_eq_length_iff.mp ?_)
      rw [List.length_map] at hall
      rw [List.length_range']
      exact hall
    have hpos : q = k := by
      rw [← hk, List.getElem_map]
      simp only [hrows, List.getElem_range', Nat.one_mul]
      omega
    rw [hpos]
    rfl
  · omega

theorem emitWindow_bind {exit : ChunkExit} (h : plan.emitWindow draws w output = some (out, exit)) :
    ∃ filled mid n, plan.fillOutput w output = some filled ∧
      applyRowFilters plan.filters w.cols filled w.chunkRows w.srcOffset = some (mid, n) ∧
      out.columns = mid.columns.map
        (sliceBy (match exit with | .emitted sample => sample | _ => none)) := by
  obtain ⟨filled, hfill, h⟩ := Option.bind_eq_some_iff.mp h
  obtain ⟨⟨mid, n⟩, happly, hexit⟩ := Option.map_eq_some_iff.mp h
  have hnone : mid.columns = mid.columns.map (sliceBy none) := (List.map_id _).symm
  refine ⟨filled, mid, n, hfill, happly, ?_⟩
  simp only at hexit
  split at hexit
  · obtain ⟨rfl, rfl⟩ := Prod.mk.inj hexit
    exact hnone
  · split at hexit
    · split at hexit
      · obtain ⟨rfl, rfl⟩ := Prod.mk.inj hexit
        exact hnone
      · obtain ⟨rfl, rfl⟩ := Prod.mk.inj hexit
        rfl
    · obtain ⟨rfl, rfl⟩ := Prod.mk.inj hexit
      exact hnone

section Columns
variable {j : Nat} {om : OutputColumnInfo} {v : DuckVector} {exit : ChunkExit}

/-- What a window does to one output column. -/
theorem emitWindow_column (h : plan.emitWindow draws w output = some (out, exit))
    (hom : plan.outputMap[j]? = some om) (hv : output.columns[j]? = some v) :
    ∃ v', plan.fillSlot w om v = some v' ∧ out.columns[j]? = some
      (sliceBy (match exit with | .emitted sample => sample | _ => none)
        (sliceBy (plan.filterSlice w) v')) := by
  obtain ⟨filled, mid, n, hfill, happly, hcols⟩ := emitWindow_bind h
  obtain ⟨v', hslot, hv'⟩ := fillOutput_column hfill hom hv
  refine ⟨v', hslot, ?_⟩
  rw [hcols, applyRowFilters_columns happly, List.getElem?_map, List.getElem?_map, hv']
  rfl

/-- A rejected chunk leaves its effect on the flags of the column. -/
theorem flags_after {v' : DuckVector} (h : plan.fillSlot w om v = some v') :
    (sliceBy (plan.filterSlice w) v').flags =
      v.flags.after ⟨w.isConstant om, w.marks om, plan.freshCell w om v, plan.filterSlice w⟩ := by
  have hflags := (fillSlot_cell h 0).2
  rw [VectorFlags.after]
  cases plan.filterSlice w with
  | none => exact hflags
  | some sel =>
      have hcells : v'.cell = v.flags.shown (w.isConstant om) (plan.freshCell w om v) :=
        funext fun k => (fillSlot_cell h k).1
      have hinvalid : v'.invalid = fun i => v.flags.invalid i || w.marks om i :=
        congrArg VectorFlags.invalid hflags
      show VectorFlags.mk (.dictionary (sel.map v'.cell)) v'.invalid = _
      rw [hcells, hinvalid]

/-- The run lemma: rejected chunks leave the effects of each of them. -/
theorem rejectChunks_flags {rejected : List (ChunkWindow × (Nat → Bool))}
    (h : plan.rejectChunks rejected output = some out) (hom : plan.outputMap[j]? = some om)
    (hv : output.columns[j]? = some v) :
    ∃ last, out.columns[j]? = some last ∧
      last.flags =
        (plan.columnEffects om (rejected.map Prod.fst) v).foldl VectorFlags.after v.flags := by
  induction rejected generalizing output v with
  | nil =>
      obtain rfl := Option.some.inj h
      exact ⟨v, hv, rfl⟩
  | cons chunk rest ih =>
      obtain ⟨w, draws⟩ := chunk
      -- the column after the first chunk, of which no row is returned
      obtain ⟨next, hrest, v', hslot, hnext⟩ : ∃ next, plan.rejectChunks rest next = some out ∧
          ∃ v', plan.fillSlot w om v = some v' ∧
            next.columns[j]? = some (sliceBy (plan.filterSlice w) v') := by
        rw [rejectChunks] at h
        split at h
        · next next hwin => exact ⟨next, h, emitWindow_column hwin hom hv⟩
        · next next hwin => exact ⟨next, h, emitWindow_column hwin hom hv⟩
        · cases h
      obtain ⟨last, hlast, hflags⟩ := ih hrest hnext
      refine ⟨last, hlast, ?_⟩
      rw [hflags, flags_after hslot, List.map_cons, columnEffects, hslot, List.foldl_cons]
      rfl

/-- A returned cell is a cell of the filled column. -/
theorem emitted_cell {sample : Option (List Nat)}
    (h : plan.emitWindow draws w output = some (out, .emitted sample))
    (hom : plan.outputMap[j]? = some om) (hv : output.columns[j]? = some v) :
    ∃ v' shown, plan.fillSlot w om v = some v' ∧ out.columns[j]? = some shown ∧
      ∀ p k, (plan.keptPositions w sample)[p]? = some k → shown.cell p = v'.cell k := by
  obtain ⟨v', hslot, hshown⟩ := emitWindow_column h hom hv
  refine ⟨v', _, hslot, hshown, fun p k hp => ?_⟩
  cases sample with
  | none => exact filterSlice_cell hp
  | some sel =>
      obtain ⟨-, hsel, -⟩ := emitWindow_cases h
      have hlt : ∀ q ∈ sel, q < (plan.windowRows w).length := by
        rw [hsel]
        exact fun q hq => List.mem_range.mp (List.mem_filter.mp hq).1
      rw [keptPositions, keptRows, List.getElem?_map, filterMap_getElem?_getElem? hlt] at hp
      obtain ⟨r, hr, rfl⟩ := Option.map_eq_some_iff.mp hp
      obtain ⟨q, hq, hrow⟩ := Option.bind_eq_some_iff.mp hr
      show ((sliceBy (plan.filterSlice w) v').slice sel).cell p = _
      rw [slice_cell_of_getElem? hq]
      refine filterSlice_cell ?_
      rw [List.getElem?_map, hrow]
      rfl

end Columns

end ScanPlan

end TaeScanner
