/-
  TaeScanner.Scan.ReturnedCells

  The cells of a returned chunk.  A call may fill any number of chunks before the
  one it returns, all into the same output; this module follows a call from its
  reset output to the chunk it returns, and says when a returned cell is that of
  its own row.

    * `ownCell` is the cell a row has in its own decoded column;
    * `Call` is a thread inside a call, with the chunks it has rejected so far;
    * `OwnShown` is the condition on the rejected chunks, by cases of how the
      returned chunk is filled and what they left behind.
-/

import TaeScanner.Scan.ChunkResidue
import TaeScanner.Scan.Parallel

namespace TaeScanner

open Lib

-- ============================================================================
-- Own cells
-- ============================================================================

/-- The cell of a row in its decoded column. -/
def DecodedColumn.rowCell (col : DecodedColumn) (row : Nat) : Cell :=
  if col.vecClass = 1 then (if col.constantNull then none else col.storedValue? 0)
  else if col.nullCount ≠ 0 ∧ col.isNullAt row = true then none else col.storedValue? row

namespace ScanPlan
variable (plan : ScanPlan)

/-- The cell a row of the window has in an output column. -/
def ownCell (w : ChunkWindow) (om : OutputColumnInfo) (row : Nat) : Cell :=
  match om with
  | .taeColumn _ decodedPos => (w.cols[decodedPos]?).bind fun col => col.rowCell row
  | .vcolFilename => (plan.objects[w.objectIdx]?).map fun info => .bytes (pathBytes info.filePath)
  | .vcolBlockId => some (.int w.blockIdx)

end ScanPlan

/-- The window has a column of well-formed rows for the output column, of a type
    that the fill materialises; the virtual columns are VARCHAR and INTEGER. -/
def ChunkWindow.FillsFaithfully (w : ChunkWindow) (om : OutputColumnInfo) (ty : LogicalType) : Prop :=
  match om with
  | .taeColumn _ decodedPos => ∃ col, w.cols[decodedPos]? = some col ∧
      moTypeToDuckDB col.type = .ok ty ∧ StrideMatches col.type ∧
      if col.vecClass = 1 then col.constantNull = false → col.WellFormedAt 0
      else ∀ r, r < w.srcOffset + w.chunkRows → col.WellFormedAt r
  | .vcolFilename => ty = .varchar
  | .vcolBlockId => ty = .integer ∧ w.blockIdx < 2 ^ 31

section OwnCells
variable {plan : ScanPlan} {w : ChunkWindow} {v : DuckVector} {k : Nat}

/-- The elements of equal parts. -/
theorem replicate_flatten_getElem? {α : Type} {n i j : Nat} {part : List α} (hi : i < n)
    (hj : j < part.length) :
    (List.replicate n part).flatten[i * part.length + j]? = part[j]? := by
  induction n generalizing i with
  | zero => exact absurd hi (Nat.not_lt_zero i)
  | succ n ih =>
      rw [List.replicate_succ, List.flatten_cons]
      cases i with
      | zero => rw [Nat.zero_mul, Nat.zero_add, List.getElem?_append_left hj]
      | succ i =>
          have hsum : (i + 1) * part.length + j = part.length + (i * part.length + j) := by
            rw [Nat.succ_mul]
            omega
          rw [hsum, List.getElem?_append_right (Nat.le_add_right _ _), Nat.add_sub_cancel_left,
            ih (Nat.lt_of_succ_lt_succ hi)]

/-- `std::fill_n` stores the number at every position of the window. -/
theorem fillInt32_elemAt {count blockIdx : Nat} (hty : v.type = .integer) (hk : k < count)
    (hblock : blockIdx < 2 ^ 31) : (v.fillInt32 count blockIdx).elemAt k = .int blockIdx := by
  have hlen : (leBytesInt 4 (blockIdx : Int)).length = 4 := leBytesInt_length ..
  have hread : (v.fillInt32 count blockIdx).bytesAt (k * 4) 4 = leBytesInt 4 blockIdx := by
    rw [← hlen]
    refine DuckVector.bytesAt_eq _ _ _ fun j hj => ?_
    have hpart := replicate_flatten_getElem? hk hj
    rw [List.getElem?_eq_getElem hj] at hpart ⊢
    obtain ⟨hin, hbyte⟩ := List.getElem?_eq_some_iff.mp hpart
    have hdata := DuckVector.writeBytes_data_in v 0 hin
    rw [Nat.zero_add, hbyte] at hdata
    exact congrArg some hdata.symm
  have htype : (v.fillInt32 count blockIdx).type = .integer := hty
  rw [DuckVector.elemAt_fixed (by rw [htype]; exact ⟨by decide, by decide⟩), DuckVector.width, htype]
  show SqlValue.int (leInt ((v.fillInt32 count blockIdx).bytesAt (k * 4) 4)) = _
  rw [hread, leInt_leBytesInt ⟨by omega, by omega⟩]

/-- `std::fill_n` stores the string at every position of the window. -/
theorem fillStrings_elemAt {count : Nat} {s : List Byte} (hty : v.type = .varchar) (hk : k < count) :
    (v.fillStrings count s).elemAt k = .bytes s := by
  have htype : (v.fillStrings count s).type = .varchar := hty
  rw [DuckVector.elemAt, htype]
  exact congrArg SqlValue.bytes (if_pos hk)

/-- A window that is filled faithfully shows, in a reset vector, the cells of its rows. -/
theorem freshCell_eq_ownCell {om : OutputColumnInfo} {v' : DuckVector}
    (hfill : plan.fillSlot w om v = some v') (hfaithful : w.FillsFaithfully om v.type)
    (hk : k < w.chunkRows) :
    plan.freshCell w om v k = plan.ownCell w om (w.srcOffset + k) := by
  unfold ScanPlan.freshCell ScanPlan.ownCell
  cases om with
  | taeColumn taeColIdx decodedPos =>
      obtain ⟨col, hcol, hty, hm, hwf⟩ := hfaithful
      have hslot : plan.fillSlot w (.taeColumn taeColIdx decodedPos) v.reset =
          fillColumn v.reset col w.chunkRows w.srcOffset := by
        rw [ScanPlan.fillSlot, hcol]
      simp only [hslot, hcol, Option.bind_some, DecodedColumn.rowCell]
      by_cases hclass : col.vecClass = 1
      · rw [if_pos hclass] at hwf ⊢
        cases hnull : col.constantNull with
        | true =>
            rw [fillColumn, if_pos hclass, fillConstantColumn_null _ hnull, if_pos rfl]
            exact DuckVector.constantNull_cell v.reset k
        | false =>
            obtain ⟨hdata, hbit⟩ := constantNull_eq_false.mp hnull
            obtain ⟨u, hu, hcells⟩ := constant_fill_cells hty hm hclass hdata hbit (hwf hnull)
            rw [hu, if_neg Bool.false_ne_true]
            exact hcells k
      · rw [if_neg hclass] at hwf ⊢
        obtain ⟨u, hu, hcells⟩ :=
          flat_fill_cells hclass (faithfulFill_of_strideMatches hty hm hclass hwf)
        rw [hu]
        refine (hcells k hk).trans ?_
        simp [DecodedColumn.marks, hk]
  | vcolFilename =>
      obtain ⟨info, hinfo, -⟩ := Option.map_eq_some_iff.mp hfill
      have htype : v.type = .varchar := hfaithful
      simp only [ScanPlan.fillSlot, hinfo, Option.map_some]
      exact congrArg some (fillStrings_elemAt htype hk)
  | vcolBlockId =>
      obtain ⟨htype, hblock⟩ := hfaithful
      have hreset : v.reset.type = .integer := htype
      exact congrArg some (fillInt32_elemAt hreset hk hblock)

end OwnCells

-- ============================================================================
-- Calls without sampling
-- ============================================================================

section Unsampled
variable {plan : ScanPlan} {om : OutputColumnInfo} {output mid : DataChunk}

/-- The effects of rejected chunks are those of their windows. -/
theorem forall_columnEffects (P : Bool → (Nat → Bool) → Option (List Nat) → Prop)
    {ws : List ChunkWindow} {v : DuckVector} :
    (∀ e ∈ plan.columnEffects om ws v, P e.constant e.marks e.sliced) ↔
      ∀ w ∈ ws, P (w.isConstant om) (w.marks om) (plan.filterSlice w) := by
  induction ws generalizing v with
  | nil => exact ⟨fun _ w hw => absurd hw List.not_mem_nil, fun _ e he => absurd he List.not_mem_nil⟩
  | cons w ws ih => rw [ScanPlan.columnEffects, List.forall_mem_cons, List.forall_mem_cons, ih]

/-- Without sampling, the rejected chunks are those the filters reject. -/
theorem filterSlice_of_rejected (hsample : plan.doSample = false)
    {rejected : List (ChunkWindow × (Nat → Bool))} (h : plan.rejectChunks rejected output = some mid) :
    ∀ w ∈ rejected.map Prod.fst, plan.filterSlice w = none := by
  induction rejected generalizing output with
  | nil => exact fun w hw => absurd hw List.not_mem_nil
  | cons chunk rest ih =>
      obtain ⟨w, draws⟩ := chunk
      rw [ScanPlan.rejectChunks] at h
      split at h
      · next out hwin =>
          have hrows : plan.windowRows w = [] := ScanPlan.emitWindow_cases hwin
          intro w' hw'
          rcases List.mem_cons.mp hw' with rfl | hrest
          · exact if_pos (Or.inr (by rw [hrows]; rfl))
          · exact ih h w' hrest
      · next out hwin =>
          have hcase := (ScanPlan.emitWindow_cases hwin).1
          exact absurd (hcase.symm.trans hsample) (by decide)
      · cases h

/-- Without sampling, and as long as no rejected chunk was CONSTANT, a cell of a FLAT
    column is shown unless one of them had a NULL at its position. -/
theorem ownShown_unsampled_iff (hsample : plan.doSample = false)
    {rejected : List (ChunkWindow × (Nat → Bool))} (h : plan.rejectChunks rejected output = some mid)
    (hflat : ∀ w ∈ rejected.map Prod.fst, w.isConstant om = false) {v : DuckVector}
    {own : Nat → Cell} {k : Nat} :
    OwnShown (residue (plan.columnEffects om (rejected.map Prod.fst) v)) false own k ↔
      ∀ w ∈ rejected.map Prod.fst, w.marks om k = true → own k = none := by
  have hplain : ∀ e ∈ plan.columnEffects om (rejected.map Prod.fst) v,
      e.constant = false ∧ e.sliced = none := by
    have hwindows := filterSlice_of_rejected hsample h
    exact (forall_columnEffects fun constant _ sliced => constant = false ∧ sliced = none).mpr
      fun w hw => ⟨hflat w hw, hwindows w hw⟩
  rw [ownShown_flat_iff hplain]
  exact forall_columnEffects fun _ marks _ => marks k = true → own k = none

end Unsampled

-- ============================================================================
-- Calls
-- ============================================================================

/-- A call that is under way: the output it was given, the chunks it has filled and
    rejected, and the thread. -/
inductive ScanEnv.Call (env : ScanEnv) :
    DataChunk → List (ChunkWindow × (Nat → Bool)) → ScanThread → Prop
  | enter {s s' : ScanShared} {th th' : ScanThread} {draws : Nat → Bool} {e : ScanLog}
      (hok : env.ThreadOk th) (hidle : th.pc.busy = false)
      (hstep : env.stepThread s th draws = some ⟨s', th', e⟩) : Call env th.output [] th'
  /-- A step through `next_block`. -/
  | next {given : DataChunk} {rejected : List (ChunkWindow × (Nat → Bool))} {s s' : ScanShared}
      {th th' : ScanThread} {draws : Nat → Bool} {e : ScanLog} (hcall : Call env given rejected th)
      (hpc : th.pc = env.entryPc) (hstep : env.stepThread s th draws = some ⟨s', th', e⟩)
      (hbusy : th'.pc.busy = true) : Call env given rejected th'
  /-- A chunk of which no row is returned. -/
  | reject {given : DataChunk} {rejected : List (ChunkWindow × (Nat → Bool))} {s s' : ScanShared}
      {th th' : ScanThread} {draws : Nat → Bool} {e : ScanLog} (hcall : Call env given rejected th)
      (hpc : th.pc = env.emitPc) (hstep : env.stepThread s th draws = some ⟨s', th', e⟩)
      (hbusy : th'.pc.busy = true) : Call env given (rejected ++ [(th.locals.window, draws)]) th'

theorem rejectChunks_append {plan : ScanPlan} {first last : List (ChunkWindow × (Nat → Bool))}
    {output mid : DataChunk} (h : plan.rejectChunks first output = some mid) :
    plan.rejectChunks (first ++ last) output = plan.rejectChunks last mid := by
  induction first generalizing output with
  | nil =>
      obtain rfl := Option.some.inj h
      rfl
  | cons chunk first ih =>
      obtain ⟨w, draws⟩ := chunk
      rw [List.cons_append, ScanPlan.rejectChunks]
      rw [ScanPlan.rejectChunks] at h
      split at h
      · exact ih h
      · exact ih h
      · cases h

namespace ScanEnv
variable {env : ScanEnv} {given : DataChunk} {rejected : List (ChunkWindow × (Nat → Bool))}
  {s s' : ScanShared} {th th' : ScanThread} {draws : Nat → Bool} {e : ScanLog}

/-- What holds throughout a call: its output is the one it was given, reset, after the
    rejected chunks. -/
theorem Call.output_eq (h : env.Call given rejected th) :
    env.ThreadOk th ∧ env.plan.rejectChunks rejected given.reset = some th.output := by
  induction h with
  | @enter s s' th th' draws e hok hidle hstep =>
      have hmove := move_of_step hok hstep
      refine ⟨hmove.threadOk hok, ?_⟩
      have hentry : th.pc ≠ env.entryPc := (Pc.ne_of_busy entryPc_busy hidle).symm
      have hemit : th.pc ≠ env.emitPc := ne_emitPc_of_idle hidle
      cases hmove <;> first | rfl | contradiction
  | @next given rejected s s' th th' draws e _ hpc hstep hbusy ih =>
      obtain ⟨hok, hout⟩ := ih
      have hmove := move_of_step hok hstep
      refine ⟨hmove.threadOk hok, ?_⟩
      have hemit : th.pc ≠ env.emitPc := hpc ▸ entryPc_ne_emitPc
      cases hmove with
      | call hidle => exact absurd hpc (Pc.ne_of_busy entryPc_busy hidle).symm
      | resume => exact hout
      | exhausted => cases hbusy
      | unreadable => cases hbusy
      | skipped => exact hout
      | loaded => exact hout
      | _ => contradiction
  | @reject given rejected s s' th th' draws e _ hpc hstep hbusy ih =>
      obtain ⟨hok, hout⟩ := ih
      have hmove := move_of_step hok hstep
      refine ⟨hmove.threadOk hok, ?_⟩
      have hentry : th.pc ≠ env.entryPc := fun h => entryPc_ne_emitPc (h.symm.trans hpc)
      rw [rejectChunks_append hout]
      cases hmove with
      | call hidle => exact absurd hpc (ne_emitPc_of_idle hidle)
      | failed => cases hbusy
      | filtered _ hwin =>
          rw [ScanPlan.rejectChunks, hwin]
          rfl
      | unsampled _ hwin =>
          rw [ScanPlan.rejectChunks, hwin]
          rfl
      | unsampledLast => cases hbusy
      | emitted => cases hbusy
      | _ => contradiction

/-- Every thread of a run that is busy is in a call. -/
theorem reachable_call {ι : Type} [DecidableEq ι] {outputs : ι → DataChunk}
    {c : Config ι ScanShared ScanThread ScanLog} (h : Reachable env.Step (env.start outputs) c) (i : ι)
    (hbusy : (c.threads i).pc.busy = true) :
    ∃ given rejected, env.Call given rejected (c.threads i) := by
  suffices hinv : ∀ i, env.ThreadOk (c.threads i) ∧ ((c.threads i).pc.busy = true →
      ∃ given rejected, env.Call given rejected (c.threads i)) from (hinv i).2 hbusy
  refine h.invariant (fun _ th => env.ThreadOk th ∧ (th.pc.busy = true →
    ∃ given rejected, env.Call given rejected th)) (fun j => ⟨start_threadOk outputs j, ?_⟩) ?_ ?_
  · exact fun hstart => by cases hstart
  · rintro s th s' th' e ⟨hok, hcall⟩ ⟨draws, hstep⟩
    refine ⟨(move_of_step hok hstep).threadOk hok, fun hbusy' => ?_⟩
    cases hpc : th.pc.busy with
    | false => exact ⟨_, _, .enter hok hpc hstep⟩
    | true =>
        obtain ⟨given, rejected, hcall⟩ := hcall hpc
        rcases hok.path hpc with hentry | hemit
        · exact ⟨_, _, .next hcall hentry hstep hbusy'⟩
        · exact ⟨_, _, .reject hcall hemit hstep hbusy'⟩
  · intro s th s' th' e u _ hu _
    exact hu

/-- A step that returns rows emits the window of the thread. -/
theorem emitWindow_of_returned (hok : env.ThreadOk th)
    (hstep : env.stepThread s th draws = some ⟨s', th', e⟩) {rows : List RowId}
    (hret : th'.pc = .returned rows) (hne : rows ≠ []) :
    ∃ sample,
      env.plan.emitWindow draws th.locals.window th.output = some (th'.output, .emitted sample) ∧
      rows = (env.plan.keptRows th.locals.window sample).map
        (RowId.mk th.locals.pendingObjectIdx th.locals.pendingBlockIdx) := by
  cases move_of_step hok hstep with
  | emitted hpc hwin =>
      obtain rfl := Pc.returned.inj hret
      obtain ⟨sample, hemit, hkept⟩ := hwin fun hnil => hne (by rw [hnil]; rfl)
      exact ⟨sample, hemit, congrArg _ hkept⟩
  | call => exact absurd hret (Pc.ne_of_busy entryPc_busy rfl)
  | resume => exact absurd hret (Pc.ne_of_busy emitPc_busy rfl)
  | exhausted => exact absurd (Pc.returned.inj hret).symm hne
  | unreadable => cases hret
  | skipped hpc => exact absurd (hpc.symm.trans hret) (Pc.ne_of_busy entryPc_busy rfl)
  | loaded => exact absurd hret (Pc.ne_of_busy emitPc_busy rfl)
  | failed => cases hret
  | filtered => exact absurd hret (Pc.ne_of_busy (filteredPc_busy _) rfl)
  | unsampled => exact absurd hret (Pc.ne_of_busy emitPc_busy rfl)
  | unsampledLast => exact absurd (Pc.returned.inj hret).symm hne

/-- Returned rows are rows of the window. -/
theorem keptRows_sublist {plan : ScanPlan} {w : ChunkWindow} {output out : DataChunk}
    {sample : Option (List Nat)} (h : plan.emitWindow draws w output = some (out, .emitted sample)) :
    (plan.keptRows w sample).Sublist (plan.windowRows w) := by
  have hcase := ScanPlan.emitWindow_cases h
  cases sample with
  | none => exact List.Sublist.refl _
  | some sel => exact (ScanPlan.keptRows_sample hcase.2.1).1

/-- A returned cell is what its row shows in a reset vector exactly when what the
    rejected chunks of the call left behind does not change it; for a column that the
    fill materialises, that is the cell the row has in its own decoded column. -/
theorem returned_cell_own_iff {rows : List RowId} {p obj blk k j : Nat} {om : OutputColumnInfo}
    {v : DuckVector} (hcall : env.Call given rejected th)
    (hstep : env.stepThread s th draws = some ⟨s', th', e⟩) (hret : th'.pc = .returned rows)
    (hrow : rows[p]? = some ⟨obj, blk, th.locals.window.srcOffset + k⟩)
    (hom : env.plan.outputMap[j]? = some om) (hv : given.columns[j]? = some v) :
    ∃ u shown, th.output.columns[j]? = some u ∧ th'.output.columns[j]? = some shown ∧
      (shown.cell p = env.plan.freshCell th.locals.window om u k ↔
        OwnShown (residue (env.plan.columnEffects om (rejected.map Prod.fst) v.reset))
          (th.locals.window.isConstant om) (env.plan.freshCell th.locals.window om u) k) ∧
      (th.locals.window.FillsFaithfully om u.type →
        (shown.cell p = env.plan.ownCell th.locals.window om (th.locals.window.srcOffset + k) ↔
          OwnShown (residue (env.plan.columnEffects om (rejected.map Prod.fst) v.reset))
            (th.locals.window.isConstant om)
            (fun i => env.plan.ownCell th.locals.window om (th.locals.window.srcOffset + i)) k)) := by
  obtain ⟨hok, hout⟩ := hcall.output_eq
  have hne : rows ≠ [] := by
    rintro rfl
    cases hrow
  obtain ⟨sample, hemit, hrows⟩ := emitWindow_of_returned hok hstep hret hne
  -- the position of the row in the window
  obtain ⟨row, hkept, hid⟩ : ∃ row, (env.plan.keptRows th.locals.window sample)[p]? = some row ∧
      RowId.mk th.locals.pendingObjectIdx th.locals.pendingBlockIdx row =
        ⟨obj, blk, th.locals.window.srcOffset + k⟩ := by
    rw [hrows, List.getElem?_map] at hrow
    exact Option.map_eq_some_iff.mp hrow
  obtain rfl : row = th.locals.window.srcOffset + k := congrArg RowId.row hid
  have hpos : (env.plan.keptPositions th.locals.window sample)[p]? = some k := by
    rw [ScanPlan.keptPositions, List.getElem?_map, hkept, Option.map_some, Nat.add_sub_cancel_left]
  have hlt : k < th.locals.window.chunkRows := by
    have hmem := (keptRows_sublist hemit).subset (List.mem_of_getElem? hkept)
    have hwindow := (ScanPlan.mem_passingFrom.mp hmem).1.2
    omega
  -- the column before and after the window
  have hreset : given.reset.columns[j]? = some v.reset := by
    show (given.columns.map _)[j]? = _
    rw [List.getElem?_map, hv, Option.map_some]
  obtain ⟨u, hu, hflags⟩ := ScanPlan.rejectChunks_flags hout hom hreset
  obtain ⟨u', shown, hslot, hshown, hcells⟩ := ScanPlan.emitted_cell hemit hom hu
  have hresidue : u.flags = residue (env.plan.columnEffects om (rejected.map Prod.fst) v.reset) :=
    hflags
  have hfresh : shown.cell p = env.plan.freshCell th.locals.window om u k ↔
      OwnShown u.flags (th.locals.window.isConstant om)
        (env.plan.freshCell th.locals.window om u) k := by
    rw [hcells p k hpos, (fillSlot_cell hslot k).1]
    exact shown_eq_iff
  rw [hresidue] at hfresh
  refine ⟨u, shown, hu, hshown, hfresh, fun hfaithful => ?_⟩
  have hown : ∀ i, i < th.locals.window.chunkRows → env.plan.freshCell th.locals.window om u i =
      env.plan.ownCell th.locals.window om (th.locals.window.srcOffset + i) := fun i hi =>
    freshCell_eq_ownCell hslot hfaithful hi
  rw [← hown k hlt, hfresh]
  exact ownShown_congr (hown 0 (Nat.zero_lt_of_lt hlt)) (hown k hlt)

end ScanEnv

-- ============================================================================
-- A rejected row before a returned one
-- ============================================================================

/-- One object, a block for each column. -/
def columnStorage (blocks : List DecodedColumn) : Storage where
  readMeta := fun _ => some ⟨blocks.map fun col => { rows := col.rowCount, columns := [] }⟩
  readBlock := fun _ blk seqnums => (blocks[blk]?).map fun col => seqnums.map fun _ => col
  readBlock_length := by
    intro _ blk seqnums cols h
    obtain ⟨col, -, rfl⟩ := Option.map_eq_some_iff.mp h
    exact List.length_map _

/-- A scan of the column under `x = 7`. -/
def sevenPlan (blocks : List DecodedColumn) : ScanPlan where
  objects := [{ filePath := "a.tae", rows := blocks.length, blocks := blocks.length }]
  outputMap := [.taeColumn 0 0]
  readSeqnums := [0]
  filters := [equalsSeven]
  workUnits := (List.range blocks.length).map (WorkUnit.mk 0)
  output_read := @oneColumn_output_read
  filters_read := by
    intro pf hpf
    obtain rfl := List.mem_singleton.mp hpf
    rfl

abbrev sevenEnv (blocks : List DecodedColumn) : ScanEnv where
  plan := sevenPlan blocks
  storage := columnStorage blocks
  fast := false
  callAgain := false
  fast_only := fun h => absurd h (by decide)

/-- A block of one `int32` row. -/
def intBlock (n : Nat) : DecodedColumn :=
  { type := { oid := 22 }, rowCount := 1, data := leBytes 4 n }

def nullBlock : DecodedColumn :=
  { type := { oid := 22 }, rowCount := 1, data := leBytes 4 0, nullBitmap := [1], nullCount := 1 }

/-- The window of a block of one row. -/
def rowWindow (blockIdx : Nat) (col : DecodedColumn) : ChunkWindow := ⟨[col], 0, blockIdx, 0, 1⟩

/-- A step, by the parts of its result. -/
theorem ScanEnv.stepThread_parts (env : ScanEnv) (draws : Nat → Bool) (s : ScanShared) (th : ScanThread)
    (r : ScanStepResult) (h : env.stepThread s th draws = some r) :
    env.stepThread s th draws = some ⟨r.shared, r.thread, r.log⟩ := h

/-- The NULL of the rejected row hides the 7 of the returned one. -/
theorem nullBlock_hides_seven : ∃ th s' th' e shown,
    (sevenEnv [nullBlock, intBlock 7]).Call (oneOutput ()) [(rowWindow 0 nullBlock, fun _ => true)] th ∧
      (sevenEnv [nullBlock, intBlock 7]).stepThread {} th (fun _ => true) = some ⟨s', th', e⟩ ∧
      th'.pc = .returned [⟨0, 1, 0⟩] ∧ th'.output.columns[0]? = some shown ∧ shown.cell 0 = none ∧
      (sevenPlan [nullBlock, intBlock 7]).ownCell th.locals.window (.taeColumn 0 0) 0
        = some (.int 7) := by
  have hstep := ScanEnv.stepThread_parts (sevenEnv [nullBlock, intBlock 7]) fun _ => true
  have hentered := ScanEnv.Call.enter (ScanEnv.start_threadOk oneOutput ()) rfl (hstep {} _ _ rfl)
  have hloaded := hentered.next rfl (hstep {} _ _ rfl) rfl
  have hrejected := hloaded.reject rfl (hstep {} _ _ rfl) rfl
  have hnext := hrejected.next rfl (hstep ⟨1, 0, 0, 0⟩ _ _ rfl) rfl
  exact ⟨_, _, _, _, _, hnext, rfl, rfl, rfl, rfl, rfl⟩

/-- After a rejected row that is not NULL, the 7 is shown. -/
theorem intBlock_shows_seven : ∃ th s' th' e shown,
    (sevenEnv [intBlock 5, intBlock 7]).Call (oneOutput ())
        [(rowWindow 0 (intBlock 5), fun _ => true)] th ∧
      (sevenEnv [intBlock 5, intBlock 7]).stepThread {} th (fun _ => true) = some ⟨s', th', e⟩ ∧
      th'.pc = .returned [⟨0, 1, 0⟩] ∧ th'.output.columns[0]? = some shown ∧
      shown.cell 0 = some (.int 7) := by
  have hstep := ScanEnv.stepThread_parts (sevenEnv [intBlock 5, intBlock 7]) fun _ => true
  have hentered := ScanEnv.Call.enter (ScanEnv.start_threadOk oneOutput ()) rfl (hstep {} _ _ rfl)
  have hloaded := hentered.next rfl (hstep {} _ _ rfl) rfl
  have hrejected := hloaded.reject rfl (hstep {} _ _ rfl) rfl
  have hnext := hrejected.next rfl (hstep ⟨1, 0, 0, 0⟩ _ _ rfl) rfl
  obtain ⟨u, shown, hu, hshown, -, hown⟩ := ScanEnv.returned_cell_own_iff hnext (hstep {} _ _ rfl) rfl
    (show [RowId.mk 0 1 0][0]? = some (RowId.mk 0 1 (0 + 0)) from rfl)
    (show _ = some (.taeColumn 0 0) from rfl)
    (show [DuckVector.mk .integer .flat _ _ _ _][0]? = some _ from rfl)
  refine ⟨_, _, _, _, shown, hnext, hstep {} _ _ rfl, rfl, hshown, (hown ?_).mpr ?_⟩
  · obtain rfl := Option.some.inj hu
    refine ⟨intBlock 7, rfl, rfl, by decide, ?_⟩
    rw [if_neg (by decide)]
    intro r hr
    obtain rfl : r = 0 := Nat.lt_one_iff.mp hr
    exact ⟨by decide, fun h => absurd h (by decide), fun h => absurd h (by decide)⟩
  · exact fun h => absurd h (by decide)

end TaeScanner
