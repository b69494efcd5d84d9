/-
  TaeScanner.Scan.CleanOutput

  Columns of which a call never returns a wrong cell.  The output of a call is
  reused from one rejected chunk to the next, and `ReturnedCells` says what that can
  do to a returned cell; this module says when it does nothing, in every run:

    * a column is tidy when no rejected chunk leaves anything behind in it;
    * during a call a tidy column is as after a reset, so that what is returned
      are the cells of the rows themselves.
-/

import TaeScanner.Scan.ReturnedCells

namespace TaeScanner

open Lib

-- ============================================================================
-- Types
-- ============================================================================

section Types
variable {plan : ScanPlan} {w : ChunkWindow} {om : OutputColumnInfo} {v v' : DuckVector}

theorem fillColumn_type {col : DecodedColumn} {count off : Nat} (h : fillColumn v col count off = some v') :
    v'.type = v.type := by
  rw [fillColumn] at h
  split at h
  · cases hnull : col.constantNull with
    | true =>
        rw [fillConstantColumn_null _ hnull] at h
        exact Option.some.inj h ▸ rfl
    | false =>
        obtain ⟨hdata, hbit⟩ := constantNull_eq_false.mp hnull
        rw [fillConstantColumn_value hdata hbit] at h
        show v'.type = v.setConstant.type
        exact copyColumn_type h
  · obtain ⟨u, hu, rfl⟩ := Option.map_eq_some_iff.mp h
    rw [setNullMask_eq, DuckVector.withFlags_type]
    exact copyColumn_type hu

/-- A fill writes into a vector as it was allocated. -/
theorem fillSlot_type (h : plan.fillSlot w om v = some v') : v'.type = v.type := by
  unfold ScanPlan.fillSlot at h
  split at h
  · split at h
    · exact fillColumn_type h
    · exact Option.some.inj h ▸ rfl
  · obtain ⟨info, -, rfl⟩ := Option.map_eq_some_iff.mp h
    rfl
  · exact Option.some.inj h ▸ rfl

@[simp] theorem sliceBy_type (sel : Option (List Nat)) (v : DuckVector) :
    (ScanPlan.sliceBy sel v).type = v.type := by
  cases sel <;> rfl

/-- A fill into a clean vector shows the fresh cells. -/
theorem fillSlot_clean (h : plan.fillSlot w om v = some v') (hclean : v.flags = .clean) (k : Nat) :
    v'.cell k = plan.freshCell w om v k := by
  rw [(fillSlot_cell h k).1, hclean, VectorFlags.shown]
  cases w.isConstant om <;> rfl

end Types

-- ============================================================================
-- Queued windows
-- ============================================================================

namespace ScanEnv
variable {env : ScanEnv} {draws : Nat → Bool} {s s' : ScanShared} {th th' : ScanThread} {e : ScanLog}

/-- A window of a queued block, which has rows unless the block has none. -/
def Queued (env : ScanEnv) (w : ChunkWindow) : Prop :=
  ⟨w.objectIdx, w.blockIdx⟩ ∈ env.plan.workUnits ∧
    ∃ blk, env.unitBlock ⟨w.objectIdx, w.blockIdx⟩ = some (some blk) ∧ w.cols = blk.cols ∧
      w.srcOffset + w.chunkRows ≤ blk.totalRows ∧ (0 < blk.totalRows → 0 < w.chunkRows)

/-- What a thread is about to emit is a window of a queued block. -/
theorem reachable_queued {ι : Type} [DecidableEq ι] {outputs : ι → DataChunk}
    {c : Config ι ScanShared ScanThread ScanLog} (h : Reachable env.Step (env.start outputs) c) (i : ι) :
    env.WhilePending (fun ls => env.Queued ls.window) (c.threads i) := by
  -- the block of a pending state, and where its next window begins
  have hpending := reachable_whilePending (P := fun ls =>
    ⟨ls.pendingObjectIdx, ls.pendingBlockIdx⟩ ∈ env.plan.workUnits ∧
      ∃ blk, env.unitBlock ⟨ls.pendingObjectIdx, ls.pendingBlockIdx⟩ = some (some blk) ∧
        ls.pendingCols = blk.cols ∧ ls.pendingTotalRows = blk.totalRows ∧
        (ls.pendingOffset < blk.totalRows ∨ ls.pendingOffset = 0)) ?_ ?_ h i
  · intro hbusy
    obtain ⟨hunit, blk, hblock, hcols, htotal, hoff⟩ := hpending hbusy
    have hsize : 0 < standardVectorSize := Nat.succ_pos _
    refine ⟨hunit, blk, hblock, hcols, ?_, fun hrows => ?_⟩
    · show (c.threads i).locals.pendingOffset +
        min ((c.threads i).locals.pendingTotalRows - (c.threads i).locals.pendingOffset) standardVectorSize ≤ _
      omega
    · show 0 < min ((c.threads i).locals.pendingTotalRows - (c.threads i).locals.pendingOffset) standardVectorSize
      omega
  · exact fun ls wu hwu blk hblock => ⟨hwu, blk, hblock, rfl, rfl, Or.inr rfl⟩
  · rintro ls ⟨hunit, blk, hblock, hcols, htotal, -⟩ hmore
    rcases TAEScanLocalState.advance_cases ls with ⟨hadv, -⟩ | ⟨hadv, hlt⟩
    · rw [hadv] at hmore
      cases hmore
    · rw [hadv]
      exact ⟨hunit, blk, hblock, hcols, htotal, Or.inl (htotal ▸ hlt)⟩

-- ============================================================================
-- Tidy columns
-- ============================================================================

/-- Nothing is left behind in the column by a chunk that is rejected: no window is
    rejected, as there is no filter and each has rows, or none is CONSTANT or NULL. -/
def Tidy (env : ScanEnv) (om : OutputColumnInfo) : Prop :=
  (env.plan.filters = [] ∧ ∀ w, env.Queued w → 0 < w.chunkRows) ∨
    ∀ w, env.Queued w → w.isConstant om = false ∧ ∀ i, w.marks om i = false

/-- The cell that a row has in its block. -/
def OwnsCell (env : ScanEnv) (om : OutputColumnInfo) (id : RowId) (cell : Cell) : Prop :=
  ∃ w, env.Queued w ∧ w.objectIdx = id.objectIdx ∧ w.blockIdx = id.blockIdx ∧
    (w.srcOffset ≤ id.row ∧ id.row < w.srcOffset + w.chunkRows) ∧ cell = env.plan.ownCell w om id.row

/-- What holds of an output column between two steps. -/
structure ColumnOk (env : ScanEnv) (om : OutputColumnInfo) (th : ScanThread) (v : DuckVector) : Prop where
  clean : th.pc.busy = true → v.flags = .clean
  shows : ∀ rows, th.pc = .returned rows → ∀ p id, rows[p]? = some id → env.OwnsCell om id (v.cell p)

section Columns
variable {om : OutputColumnInfo} {ty : LogicalType} {j : Nat}

/-- The output column, of the type that it was allocated with. -/
def HasColumn (env : ScanEnv) (om : OutputColumnInfo) (ty : LogicalType) (j : Nat) (th : ScanThread) : Prop :=
  ∃ v, th.output.columns[j]? = some v ∧ v.type = ty ∧ env.ColumnOk om th v

/-- A thread that neither returns rows nor touches its output. -/
theorem HasColumn.keep (h : env.HasColumn om ty j th) {th' : ScanThread}
    (hout : th'.output.columns = th.output.columns) (hbusy : th'.pc.busy = true → th.pc.busy = true)
    (hret : ∀ rows, th'.pc = .returned rows → rows = []) : env.HasColumn om ty j th' := by
  obtain ⟨v, hv, hty, hok⟩ := h
  refine ⟨v, by rw [hout, hv], hty, fun hb => hok.clean (hbusy hb), ?_⟩
  intro rows hrows p id hid
  rw [hret rows hrows] at hid
  cases hid

/-- A rejected window leaves a tidy column clean. -/
theorem Tidy.flags_eq (htidy : env.Tidy om) {w : ChunkWindow} (hw : env.Queued w)
    (hrows : env.plan.windowRows w = []) {v v' : DuckVector} (hslot : env.plan.fillSlot w om v = some v')
    (hclean : v.flags = .clean) : v'.flags = .clean := by
  rw [(fillSlot_cell hslot 0).2, hclean]
  rcases htidy with ⟨hfilters, hpos⟩ | hplain
  · -- without filters all rows of a window pass
    rw [ScanPlan.windowRows, ScanPlan.passingFrom_of_no_filters hfilters] at hrows
    have hlen := congrArg List.length hrows
    rw [List.length_range'] at hlen
    exact absurd hlen (Nat.ne_of_gt (hpos w hw))
  · obtain ⟨hconst, hmarks⟩ := hplain w hw
    rw [ChunkWindow.fillFlags, hconst]
    show VectorFlags.mk _ (fun i => false || w.marks om i) = _
    simp only [hmarks, Bool.or_false]
    rfl

/-- A window that is returned shows the cells of its rows. -/
theorem ownsCell_of_emitted (hw : env.Queued th.locals.window) {v v' : DuckVector}
    (hclean : v.flags = .clean) (hslot : env.plan.fillSlot th.locals.window om v = some v')
    (hfill : th.locals.window.FillsFaithfully om v.type) {row : Nat}
    (hrow : row ∈ env.plan.windowRows th.locals.window) :
    env.OwnsCell om ⟨th.locals.pendingObjectIdx, th.locals.pendingBlockIdx, row⟩
      (v'.cell (row - th.locals.window.srcOffset)) := by
  obtain ⟨⟨hle, hlt⟩, -⟩ := ScanPlan.mem_passingFrom.mp hrow
  refine ⟨th.locals.window, hw, rfl, rfl, ⟨hle, hlt⟩, ?_⟩
  rw [fillSlot_clean hslot hclean, freshCell_eq_ownCell hslot hfill (by omega), Nat.add_sub_cancel' hle]

section Steps
variable (hslow : env.fast = false) (hsample : env.plan.doSample = false) (htidy : env.Tidy om)
  (hfill : ∀ w, env.Queued w → w.FillsFaithfully om ty) (hom : env.plan.outputMap[j]? = some om)
include hslow hsample htidy hfill hom

/-- The step lemma. -/
theorem Move.hasColumn (hw : env.WhilePending (fun ls => env.Queued ls.window) th)
    (hok : env.HasColumn om ty j th) (h : env.Move draws s th s' th' e) : env.HasColumn om ty j th' := by
  have hbusy : ∀ {pc}, th.pc = pc → pc.busy = true → th.pc.busy = true := fun hpc hb => hpc ▸ hb
  cases h with
  | call hidle =>
      obtain ⟨v, hv, hty, -⟩ := hok
      refine ⟨v.reset, ?_, hty, fun _ => rfl, fun rows hrows => ?_⟩
      · show (th.output.columns.map _)[j]? = _
        rw [List.getElem?_map, hv, Option.map_some]
      · exact absurd hrows (Pc.ne_of_busy entryPc_busy rfl)
  | resume hpc =>
      exact hok.keep rfl (fun _ => hbusy hpc entryPc_busy) fun rows hrows =>
        absurd hrows (Pc.ne_of_busy emitPc_busy rfl)
  | exhausted => exact hok.keep rfl (fun hb => by cases hb) fun rows hrows => (Pc.returned.inj hrows).symm
  | unreadable => exact hok.keep rfl (fun hb => by cases hb) fun rows hrows => by cases hrows
  | skipped hpc =>
      exact hok.keep rfl id fun rows hrows =>
        absurd (hpc.symm.trans hrows) (Pc.ne_of_busy entryPc_busy rfl)
  | loaded hpc =>
      exact hok.keep rfl (fun _ => hbusy hpc entryPc_busy) fun rows hrows =>
        absurd hrows (Pc.ne_of_busy emitPc_busy rfl)
  | failed => exact hok.keep rfl (fun hb => by cases hb) fun rows hrows => by cases hrows
  | @filtered output hpc hwin hrows =>
      obtain ⟨v, hv, hty, hcol⟩ := hok
      obtain ⟨v', hslot, hv'⟩ := ScanPlan.emitWindow_column hwin hom hv
      have hnone : env.plan.filterSlice th.locals.window = none := if_pos (Or.inr (by rw [hrows]; rfl))
      rw [hnone] at hv'
      refine ⟨v', hv', (fillSlot_type hslot).trans hty, fun _ => ?_, fun rows hret => ?_⟩
      · exact htidy.flags_eq (hw (Or.inl hpc)) hrows hslot (hcol.clean (hbusy hpc emitPc_busy))
      · exact absurd hret (Pc.ne_of_busy (filteredPc_busy _) rfl)
  | unsampled _ _ hs => exact absurd (hs.symm.trans hsample) (by decide)
  | unsampledLast _ _ hs => exact absurd (hs.symm.trans hsample) (by decide)
  | @emitted output kept hpc hwin hsub _ hempty =>
      have hne : kept ≠ [] := fun hnil => absurd ((hempty hnil).symm.trans hslow) (by decide)
      obtain ⟨sample, hemit, hkept⟩ := hwin hne
      obtain ⟨v, hv, hty, hcol⟩ := hok
      obtain ⟨v', shown, hslot, hshown, hcells⟩ := ScanPlan.emitted_cell hemit hom hv
      have hclean := hcol.clean (hbusy hpc emitPc_busy)
      have hqueued := hw (Or.inl hpc)
      refine ⟨shown, hshown, ?_, (fun hb => by cases hb), fun rows hret p id hid => ?_⟩
      · obtain ⟨u, hu, hout⟩ := ScanPlan.emitWindow_column hemit hom hv
        rw [Option.some.inj (hshown.symm.trans hout), sliceBy_type, sliceBy_type, fillSlot_type hu, hty]
      · obtain rfl := Pc.returned.inj hret
        rw [List.getElem?_map] at hid
        obtain ⟨row, hrow, rfl⟩ := Option.map_eq_some_iff.mp hid
        -- the position of the row in the window
        have hpos : (env.plan.keptPositions th.locals.window sample)[p]? =
            some (row - th.locals.window.srcOffset) := by
          rw [ScanPlan.keptPositions, ← hkept, List.getElem?_map, hrow, Option.map_some]
        rw [hcells p _ hpos]
        exact ownsCell_of_emitted hqueued hclean hslot (hty ▸ hfill _ hqueued)
          (hsub.subset (List.mem_of_getElem? hrow))

/-- The run lemma: in every state of every run, a tidy column that is filled faithfully
    shows the cells of the rows that were returned. -/
theorem reachable_hasColumn {ι : Type} [DecidableEq ι] {outputs : ι → DataChunk}
    {c : Config ι ScanShared ScanThread ScanLog}
    (houtput : ∀ i, ∃ v, (outputs i).columns[j]? = some v ∧ v.type = ty)
    (h : Reachable env.Step (env.start outputs) c) (i : ι) : env.HasColumn om ty j (c.threads i) := by
  have hrun := h.restrict (fun _ th => env.ThreadOk th ∧
    env.WhilePending (fun ls => env.Queued ls.window) th)
    fun hc i => ⟨reachable_threadOk hc i, reachable_queued hc i⟩
  refine hrun.invariant (fun _ th => env.HasColumn om ty j th) (fun i => ?_) ?_ ?_ i
  · obtain ⟨v, hv, hty⟩ := houtput i
    exact ⟨v, hv, hty, (fun hb => by cases hb), fun rows hrows => by cases hrows⟩
  · rintro s th s' th' e hok ⟨⟨hthread, hw⟩, draws, hstep⟩
    exact (move_of_step hthread hstep).hasColumn hslow hsample htidy hfill hom hw hok
  · intro s th s' th' e u _ hu _
    exact hu

end Steps

end Columns

end ScanEnv

end TaeScanner
