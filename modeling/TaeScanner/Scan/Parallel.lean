/-
  TaeScanner.Scan.Parallel

  The parallel scan, for every work queue, every number of threads and every
  interleaving of their calls: calls end, empty chunks mean the end, and every
  row that passes the zone maps and the filters is emitted exactly once.
-/

import TaeScanner.Scan.Conservation

namespace TaeScanner

open Lib

namespace ScanEnv

-- ============================================================================
-- Runs
-- ============================================================================

section Runs
variable {ι : Type} {env : ScanEnv} {outputs : ι → DataChunk}
  {c : Config ι ScanShared ScanThread ScanLog}

/-- After Init: nothing claimed, no thread called. -/
def start (_env : ScanEnv) (outputs : ι → DataChunk) : Config ι ScanShared ScanThread ScanLog :=
  ⟨{}, fun i => { output := outputs i }, 0⟩

/-- All rows the scan has to deliver. -/
def queueRows (env : ScanEnv) : Multiset RowId := (env.plan.workUnits.map env.unitRows).sum

theorem start_threadOk (outputs : ι → DataChunk) (i : ι) :
    env.ThreadOk ((env.start outputs).threads i) :=
  ⟨(fun hbusy => by cases hbusy), fun obj md hreader => by cases hreader⟩

variable [DecidableEq ι]

theorem reachable_threadOk (h : Reachable env.Step (env.start outputs) c) (i : ι) :
    env.ThreadOk (c.threads i) := by
  refine h.invariant (fun _ th => env.ThreadOk th) (start_threadOk outputs) ?_ ?_ i
  · rintro s th s' th' e hok ⟨draws, hstep⟩
    exact (move_of_step hok hstep).threadOk hok
  · intro s th s' th' e u _ hu _
    exact hu

/-- The steps of a run are moves. -/
theorem reachable_move (h : Reachable env.Step (env.start outputs) c) {i : ι} {s' : ScanShared}
    {th' : ScanThread} {e : ScanLog} (hstep : env.Step c.shared (c.threads i) s' th' e) :
    ∃ draws, env.Move draws c.shared (c.threads i) s' th' e := by
  obtain ⟨draws, hrun⟩ := hstep
  exact ⟨draws, move_of_step (reachable_threadOk h i) hrun⟩

/-- The ledger of a run. -/
theorem reachable_ledger [Fintype ι] (h : Reachable env.Step (env.start outputs) c) :
    env.queueRows = env.poolRows c.shared + ∑ i, env.heldRows (c.threads i) + c.log.1 := by
  have hlaw := h.conserves (fun _ th => env.ThreadOk th) env.poolRows env.heldRows
    (AddMonoidHom.fst (Multiset RowId) (Multiset RowId)) (fun hc i => reachable_threadOk hc i)
    (fun s th s' th' e hok hstep => by
      obtain ⟨draws, hrun⟩ := hstep
      exact (move_of_step hok hrun).ledger)
  have hheld : ∑ i, env.heldRows ((env.start outputs).threads i) = 0 :=
    Finset.sum_eq_zero fun i _ => heldRows_of_not_pending rfl
  rw [hheld] at hlaw
  exact ((add_zero _).trans (add_zero _)).symm.trans hlaw

/-- `rows_emitted` is the number of emitted rows. -/
theorem reachable_rowsEmitted (h : Reachable env.Step (env.start outputs) c) :
    c.shared.rowsEmitted = Multiset.card c.log.2 := by
  induction h with
  | start => rfl
  | next hc hstep ih =>
      obtain ⟨draws, hmove⟩ := reachable_move hc hstep
      rw [Config.advance_shared, Config.advance_log, hmove.rowsEmitted, ih]
      exact (Multiset.card_add _ _).symm

/-- Without sampling, the emitted rows are the offered ones. -/
theorem reachable_log_eq (hsample : env.plan.doSample = false)
    (h : Reachable env.Step (env.start outputs) c) : c.log.1 = c.log.2 := by
  induction h with
  | start => rfl
  | next hc hstep ih =>
      obtain ⟨draws, hmove⟩ := reachable_move hc hstep
      rw [Config.advance_log, Prod.fst_add, Prod.snd_add, ih, hmove.log_eq hsample]

/-- In every run the emitted rows are offered ones, and these are in the queue. -/
theorem reachable_emitted_le [Fintype ι] (h : Reachable env.Step (env.start outputs) c) :
    c.log.2 ≤ c.log.1 ∧ c.log.1 ≤ env.queueRows := by
  constructor
  · induction h with
    | start => exact le_refl _
    | next hc hstep ih =>
        obtain ⟨draws, hmove⟩ := reachable_move hc hstep
        rw [Config.advance_log, Prod.snd_add, Prod.fst_add]
        exact add_le_add ih hmove.log_le
  · rw [reachable_ledger h]
    exact Multiset.le_add_left _ _

theorem reachable_chunkOk (h : Reachable env.Step (env.start outputs) c) (i : ι) :
    ChunkOk (c.threads i) := by
  refine h.invariant (fun _ th => env.ThreadOk th ∧ ChunkOk th) (fun j => ?_) ?_ ?_ i |>.2
  · exact ⟨start_threadOk outputs j, fun rows hrows => by cases hrows⟩
  · rintro s th s' th' e ⟨hok, -⟩ ⟨draws, hstep⟩
    have hmove := move_of_step hok hstep
    exact ⟨hmove.threadOk hok, hmove.chunkOk⟩
  · intro s th s' th' e u _ hu _
    exact hu

/-- Empty chunks mean the end in a run whose steps return one only at the end. -/
theorem reachable_finishedOk {step : ScanShared → ScanThread → ScanShared → ScanThread → ScanLog → Prop}
    (hsub : ∀ s th s' th' e, step s th s' th' e → env.Step s th s' th' e)
    (hempty : ∀ s th s' th' e, env.ThreadOk th → step s th s' th' e → th'.pc = .returned [] →
      env.Exhausted s' th')
    (h : Reachable step (env.start outputs) c) (i : ι) : env.FinishedOk c.shared (c.threads i) := by
  refine h.invariant (fun s th => env.ThreadOk th ∧ env.FinishedOk s th) (fun j => ?_) ?_ ?_ i |>.2
  · refine ⟨start_threadOk outputs j, ?_⟩
    rintro (hfin | hret)
    · cases hfin
    · cases hret
  · rintro s th s' th' e ⟨hok, hfin⟩ hstep
    obtain ⟨draws, hrun⟩ := hsub _ _ _ _ _ hstep
    have hmove := move_of_step hok hrun
    exact ⟨hmove.threadOk hok, hmove.finishedOk hfin (hempty _ _ _ _ _ hok hstep)⟩
  · rintro s th s' th' e u ⟨hok, -⟩ ⟨huok, hufin⟩ hstep
    obtain ⟨draws, hrun⟩ := hsub _ _ _ _ _ hstep
    exact ⟨huok, hufin.mono (move_of_step hok hrun).nextWorkUnit_le⟩

/-- Once every thread is done, every row of the queue has been offered. -/
theorem offered_of_finished [Fintype ι] [Nonempty ι] (h : Reachable env.Step (env.start outputs) c)
    (hdone : ∀ i, env.Exhausted c.shared (c.threads i)) : c.log.1 = env.queueRows := by
  have hheld : ∑ i, env.heldRows (c.threads i) = 0 :=
    Finset.sum_eq_zero fun i _ => heldRows_of_not_pending (hdone i).1
  obtain ⟨i⟩ := ‹Nonempty ι›
  rw [reachable_ledger h, hheld, poolRows_exhausted (hdone i).2, zero_add, zero_add]

/-- A call uses up a budget, so it ends. -/
theorem call_bounded (h : Reachable env.Step (env.start outputs) c) {i : ι} {n : Nat}
    {c' : Config ι ScanShared ScanThread ScanLog}
    (hcall : Stretch env.Step (fun th => th.pc.busy = true) i c n c') :
    n ≤ env.budget c.shared (c.threads i) := by
  refine hcall.bounded env.budget (fun _ th => env.ThreadOk th) (fun hc' j => ?_) ?_ ?_
  · refine hc'.invariant (fun _ th => env.ThreadOk th) (reachable_threadOk h) ?_ ?_ j
    · rintro s th s' th' e hok ⟨draws, hstep⟩
      exact (move_of_step hok hstep).threadOk hok
    · intro s th s' th' e u _ hu _
      exact hu
  · rintro s th s' th' e hok ⟨draws, hstep⟩ hbusy
    exact (move_of_step hok hstep).budget_lt hbusy
  · rintro s th s' th' e u hok ⟨draws, hstep⟩
    exact budget_mono (move_of_step hok hstep).nextWorkUnit_le

/-- A thread inside a call can always make a step. -/
theorem step_of_busy (env : ScanEnv) (s : ScanShared) {th : ScanThread} (h : th.pc.busy = true) :
    ∃ s' th' e, env.Step s th s' th' e := by
  have hstep : ∃ r, env.stepThread s th (fun _ => false) = some r := by
    rw [stepThread]
    cases hpc : th.pc <;> first | exact ⟨_, rfl⟩ | (rw [hpc] at h; cases h)
  obtain ⟨⟨s', th', e⟩, hr⟩ := hstep
  exact ⟨s', th', e, fun _ => false, hr⟩

end Runs

-- ============================================================================
-- No thread faults when reads succeed
-- ============================================================================

section Reads
variable {env : ScanEnv} {draws : Nat → Bool} {s s' : ScanShared} {th th' : ScanThread} {e : ScanLog}

/-- Object reads succeed, and the decoded columns of a block hold its rows. -/
structure Readable (env : ScanEnv) : Prop where
  units : ∀ wu ∈ env.plan.workUnits, (env.unitBlock wu).isSome
  objects : ∀ wu ∈ env.plan.workUnits, wu.objectIdx < env.plan.objects.length
  filters : ∀ wu ∈ env.plan.workUnits, ∀ blk, env.unitBlock wu = some (some blk) →
    ∀ row < blk.totalRows, (rowPassesFilters env.plan.filters blk.cols row).isSome
  columns : ∀ wu ∈ env.plan.workUnits, ∀ blk, env.unitBlock wu = some (some blk) →
    ∀ col ∈ blk.cols, ∀ (v : DuckVector) (off n : Nat), off + n ≤ blk.totalRows →
      (fillColumn v col n off).isSome

/-- `P` holds of the block that a thread emits, or is going to. -/
def WhilePending (env : ScanEnv) (P : TAEScanLocalState → Prop) (th : ScanThread) : Prop :=
  th.pc = env.emitPc ∨ th.locals.hasPending = true → P th.locals

section Pending
variable {P : TAEScanLocalState → Prop}

/-- What holds after a window holds of what is then pending. -/
theorem WhilePending.advance (hadvance : ∀ ls, P ls → ls.advance.hasPending = true → P ls.advance)
    (hok : env.WhilePending P th) (hpc : th.pc = env.emitPc) {pc : Pc} {output : DataChunk} {finished : Bool}
    (hmore : pc = env.emitPc → th.locals.advance.hasPending = true) :
    env.WhilePending P ⟨pc, th.locals.advance, output, finished⟩ := by
  intro h
  apply hadvance _ (hok (Or.inl hpc))
  rcases h with h | h
  · exact hmore h
  · exact h

/-- The step lemma: blocks of queued units are loaded, and emitted window by window. -/
theorem Move.whilePending
    (hload : ∀ ls, ∀ wu ∈ env.plan.workUnits, ∀ blk, env.unitBlock wu = some (some blk) →
      P (TAEScanLocalState.load ls wu blk))
    (hadvance : ∀ ls, P ls → ls.advance.hasPending = true → P ls.advance)
    (hok : env.WhilePending P th) (h : env.Move draws s th s' th' e) : env.WhilePending P th' := by
  cases h with
  | call => exact fun h => hok (Or.inr (h.resolve_left entryPc_ne_emitPc))
  | resume _ hpending => exact fun _ => hok (Or.inr hpending)
  | exhausted _ hpending => exact fun h => hok (Or.inr (h.resolve_left (ne_emitPc_of_idle rfl)))
  | unreadable _ _ _ _ hlocals =>
      intro h
      have hpending := h.resolve_left (ne_emitPc_of_idle rfl)
      exact absurd (hpending.symm.trans hlocals) (by decide)
  | skipped hpc hpending =>
      intro h
      have hmore : th.locals.hasPending = true := h.resolve_left (hpc ▸ entryPc_ne_emitPc)
      exact absurd (hmore.symm.trans hpending) (by decide)
  | @loaded wu blk _ _ _ _ hunit hblock => exact fun _ => hload _ wu (List.mem_of_getElem? hunit) blk hblock
  | failed hpc => exact fun _ => hok (Or.inl hpc)
  | filtered hpc =>
      refine hok.advance hadvance hpc fun h => ?_
      by_contra hnot
      rw [if_neg hnot] at h
      exact entryPc_ne_emitPc h
  | unsampled hpc _ _ _ _ hpending => exact hok.advance hadvance hpc fun _ => hpending
  | unsampledLast hpc => exact hok.advance hadvance hpc fun h => absurd h (ne_emitPc_of_idle rfl)
  | emitted hpc => exact hok.advance hadvance hpc fun h => absurd h (ne_emitPc_of_idle rfl)

/-- The run lemma. -/
theorem reachable_whilePending {ι : Type} [DecidableEq ι] {outputs : ι → DataChunk}
    {c : Config ι ScanShared ScanThread ScanLog}
    (hload : ∀ ls, ∀ wu ∈ env.plan.workUnits, ∀ blk, env.unitBlock wu = some (some blk) →
      P (TAEScanLocalState.load ls wu blk))
    (hadvance : ∀ ls, P ls → ls.advance.hasPending = true → P ls.advance)
    (h : Reachable env.Step (env.start outputs) c) (i : ι) : env.WhilePending P (c.threads i) := by
  have hrun := h.restrict (fun _ th => env.ThreadOk th) fun hc => reachable_threadOk hc
  refine hrun.invariant (fun _ th => env.WhilePending P th) (fun j => ?_) ?_ ?_ i
  · -- nothing is pending at the start
    rintro (h | h)
    · exact absurd h (ne_emitPc_of_idle rfl)
    · cases h
  · rintro s th s' th' e hpending ⟨hok, draws, hstep⟩
    exact (move_of_step hok hstep).whilePending hload hadvance hpending
  · intro s th s' th' e u _ hu _
    exact hu

end Pending

/-- The pending block is the block of a queued unit. -/
def PendingOk (env : ScanEnv) (th : ScanThread) : Prop :=
  th.pc = env.emitPc ∨ th.locals.hasPending = true →
    ∃ wu ∈ env.plan.workUnits, ∃ blk, env.unitBlock wu = some (some blk) ∧
      th.locals.pendingCols = blk.cols ∧ th.locals.pendingTotalRows = blk.totalRows ∧
      th.locals.pendingOffset ≤ blk.totalRows ∧ th.locals.pendingObjectIdx = wu.objectIdx

theorem reachable_pendingOk {ι : Type} [DecidableEq ι] {outputs : ι → DataChunk}
    {c : Config ι ScanShared ScanThread ScanLog} (h : Reachable env.Step (env.start outputs) c) (i : ι) :
    env.PendingOk (c.threads i) := by
  refine reachable_whilePending (P := fun ls => ∃ wu ∈ env.plan.workUnits, ∃ blk,
    env.unitBlock wu = some (some blk) ∧ ls.pendingCols = blk.cols ∧ ls.pendingTotalRows = blk.totalRows ∧
      ls.pendingOffset ≤ blk.totalRows ∧ ls.pendingObjectIdx = wu.objectIdx) ?_ ?_ h i
  · exact fun ls wu hwu blk hblock => ⟨wu, hwu, blk, hblock, rfl, rfl, Nat.zero_le _, rfl⟩
  · -- what is pending after a window belongs to the same block
    rintro ls ⟨wu, hwu, blk, hblock, hcols, htotal, -, hobj⟩ hpending
    refine ⟨wu, hwu, blk, hblock, ?_⟩
    rcases TAEScanLocalState.advance_cases ls with ⟨hadv, -⟩ | ⟨hadv, hlt⟩
    · rw [hadv] at hpending
      cases hpending
    · rw [hadv]
      exact ⟨hcols, htotal, by rw [← htotal]; exact hlt.le, hobj⟩

/-- A window of a readable block can be filled and filtered. -/
theorem Readable.window (hread : env.Readable) (hok : env.PendingOk th) (hpc : th.pc = env.emitPc)
    (draws : Nat → Bool) :
    (env.plan.fillOutput th.locals.window th.output).isSome ∧
      (env.plan.emitWindow draws th.locals.window th.output).isSome := by
  obtain ⟨wu, hwu, blk, hblock, hcols, htotal, hoff, hobj⟩ := hok (Or.inl hpc)
  have hchunk : th.locals.window.chunkRows ≤ th.locals.pendingTotalRows - th.locals.pendingOffset :=
    TAEScanLocalState.window_le
  have hwin : th.locals.window.srcOffset + th.locals.window.chunkRows ≤ blk.totalRows := by
    show th.locals.pendingOffset + _ ≤ _
    omega
  have hfill : (env.plan.fillOutput th.locals.window th.output).isSome := by
    rw [ScanPlan.fillOutput, Option.isSome_map]
    refine mapM_isSome fun p _ => ?_
    unfold ScanPlan.fillSlot
    split
    · split
      · next col hcol =>
          have hmem : col ∈ blk.cols := hcols ▸ List.mem_of_getElem? hcol
          exact hread.columns wu hwu blk hblock col hmem _ _ _ hwin
      · rfl
    · rw [Option.isSome_map, isSome_getElem?]
      show th.locals.pendingObjectIdx < _
      rw [hobj]
      exact hread.objects wu hwu
    · rfl
  refine ⟨hfill, ?_⟩
  obtain ⟨filled, hfilled⟩ := Option.isSome_iff_exists.mp hfill
  rw [ScanPlan.emitWindow, hfilled, Option.bind_some, Option.isSome_map, applyRowFilters]
  split
  · rfl
  · rw [Option.isSome_map]
    have hrows : ∀ row ∈ List.range th.locals.window.chunkRows,
        (rowPassesFilters env.plan.filters th.locals.window.cols
          (th.locals.window.srcOffset + row)).isSome := by
      intro row hrow
      have hlt := List.mem_range.mp hrow
      show (rowPassesFilters _ th.locals.pendingCols _).isSome
      rw [hcols]
      exact hread.filters wu hwu blk hblock _ (by omega)
    rw [passingRows, filterM_eq_some.mpr ⟨hrows, rfl⟩]
    rfl

theorem Move.not_faulted (hread : env.Readable) (hok : env.PendingOk th)
    (h : env.Move draws s th s' th' e) : th'.pc ≠ .faulted := by
  cases h with
  | call => exact Pc.ne_of_busy entryPc_busy rfl
  | resume => exact Pc.ne_of_busy emitPc_busy rfl
  | unreadable _ _ hunit hblock =>
      have hsome := hread.units _ (List.mem_of_getElem? hunit)
      rw [hblock] at hsome
      cases hsome
  | skipped hpc => exact hpc ▸ Pc.ne_of_busy entryPc_busy rfl
  | loaded => exact Pc.ne_of_busy emitPc_busy rfl
  | failed hpc hnone =>
      obtain ⟨hfill, hemit⟩ := hread.window hok hpc draws
      rcases hnone with hnone | hnone
      · rw [hnone] at hfill
        cases hfill
      · rw [hnone] at hemit
        cases hemit
  | filtered => exact Pc.ne_of_busy (filteredPc_busy _) rfl
  | unsampled => exact Pc.ne_of_busy emitPc_busy rfl
  | exhausted => exact fun h => by cases h
  | unsampledLast => exact fun h => by cases h
  | emitted => exact fun h => by cases h

/-- No call ends in an exception. -/
theorem reachable_not_faulted {ι : Type} [DecidableEq ι] {outputs : ι → DataChunk}
    {c : Config ι ScanShared ScanThread ScanLog} (hread : env.Readable)
    (h : Reachable env.Step (env.start outputs) c) (i : ι) : (c.threads i).pc ≠ .faulted := by
  have hrun := h.restrict (fun _ th => env.ThreadOk th ∧ env.PendingOk th)
    fun hc j => ⟨reachable_threadOk hc j, reachable_pendingOk hc j⟩
  refine hrun.invariant (fun _ th => th.pc ≠ .faulted) (fun j h => by cases h) ?_ ?_ i
  · rintro s th s' th' e - ⟨⟨hok, hpending⟩, draws, hstep⟩
    exact (move_of_step hok hstep).not_faulted hread hpending
  · intro s th s' th' e u _ hu _
    exact hu

end Reads

-- ============================================================================
-- Exactly once
-- ============================================================================

section Rows
variable {env : ScanEnv}

/-- The row passes the zone maps of its block and all row filters. -/
def Delivers (env : ScanEnv) (id : RowId) : Prop :=
  ∃ blk, env.unitBlock (id.unit) = some (some blk) ∧ id.row < blk.totalRows ∧
    rowPassesFilters env.plan.filters blk.cols id.row = some true

theorem mem_rowIds {obj blk : Nat} {rows : List Nat} {id : RowId} :
    id ∈ rowIds obj blk rows ↔ id.objectIdx = obj ∧ id.blockIdx = blk ∧ id.row ∈ rows := by
  obtain ⟨o, b, r⟩ := id
  simp only [rowIds, Multiset.mem_coe, List.mem_map, RowId.mk.injEq]
  constructor
  · rintro ⟨r', hr, rfl, rfl, rfl⟩
    exact ⟨rfl, rfl, hr⟩
  · rintro ⟨rfl, rfl, hr⟩
    exact ⟨r, hr, rfl, rfl, rfl⟩

theorem mem_unitRows {wu : WorkUnit} {id : RowId} :
    id ∈ env.unitRows wu ↔ id.unit = wu ∧ env.Delivers id := by
  constructor
  · intro hmem
    rw [unitRows] at hmem
    split at hmem
    · next blk hblock =>
        obtain ⟨hobj, hblk, hrow⟩ := mem_rowIds.mp hmem
        obtain ⟨⟨-, hlt⟩, hpass⟩ := ScanPlan.mem_passingFrom.mp hrow
        have hunit : id.unit = wu := by rw [RowId.unit, hobj, hblk]
        exact ⟨hunit, blk, hunit ▸ hblock, by omega, ScanPlan.passes_iff.mp hpass⟩
    · exact absurd hmem (Multiset.notMem_zero id)
  · rintro ⟨rfl, blk, hblock, hlt, hpass⟩
    rw [unitRows, hblock]
    refine mem_rowIds.mpr ⟨rfl, rfl, ScanPlan.mem_passingFrom.mpr ⟨⟨Nat.zero_le _, by omega⟩, ?_⟩⟩
    exact ScanPlan.passes_iff.mpr hpass

theorem unitRows_nodup (wu : WorkUnit) : (env.unitRows wu).Nodup := by
  rw [unitRows]
  split
  · refine Multiset.coe_nodup.mpr (ScanPlan.passingFrom_nodup.map fun r r' h => ?_)
    exact congrArg RowId.row h
  · exact Multiset.nodup_zero

/-- A row is in the queue as often as its unit is. -/
theorem count_queueRows {id : RowId} (h : env.Delivers id) :
    env.queueRows.count id = env.plan.workUnits.count (id.unit) := by
  rw [queueRows]
  induction env.plan.workUnits with
  | nil => rfl
  | cons wu units ih =>
      rw [List.map_cons, List.sum_cons, Multiset.count_add, ih, List.count_cons, Nat.add_comm]
      congr 1
      by_cases hunit : wu = id.unit
      · rw [if_pos (beq_iff_eq.mpr hunit)]
        exact Multiset.count_eq_one_of_mem (unitRows_nodup wu) (mem_unitRows.mpr ⟨hunit.symm, h⟩)
      · rw [if_neg (fun hbeq => hunit (beq_iff_eq.mp hbeq))]
        exact Multiset.count_eq_zero.mpr fun hmem => hunit (mem_unitRows.mp hmem).1.symm

/-- The queue holds the rows that pass, of its units. -/
theorem mem_queueRows {id : RowId} :
    id ∈ env.queueRows ↔ env.Delivers id ∧ id.unit ∈ env.plan.workUnits := by
  rw [queueRows]
  induction env.plan.workUnits with
  | nil => simp
  | cons wu units ih =>
      rw [List.map_cons, List.sum_cons, Multiset.mem_add, mem_unitRows, ih, List.mem_cons]
      constructor
      · rintro (⟨rfl, h⟩ | ⟨h, hunit⟩)
        · exact ⟨h, Or.inl rfl⟩
        · exact ⟨h, Or.inr hunit⟩
      · rintro ⟨h, rfl | hunit⟩
        · exact Or.inl ⟨rfl, h⟩
        · exact Or.inr ⟨h, hunit⟩

end Rows

/-- In the slow path without sampling, empty chunks mean the end. -/
theorem slow_finishedOk {ι : Type} [DecidableEq ι] {env : ScanEnv} {outputs : ι → DataChunk}
    {c : Config ι ScanShared ScanThread ScanLog} (hslow : env.fast = false)
    (hsample : env.plan.doSample = false) (h : Reachable env.Step (env.start outputs) c) (i : ι) :
    env.FinishedOk c.shared (c.threads i) := by
  refine reachable_finishedOk (fun _ _ _ _ _ hstep => hstep) ?_ h i
  rintro s th s' th' e hok ⟨draws, hstep⟩ hret
  refine (move_of_step hok hstep).exhausted_of_empty hret ?_ ?_
  · rintro ⟨hs, -⟩
    exact absurd (hs.symm.trans hsample) (by decide)
  · intro hfast
    exact absurd (hfast.symm.trans hslow) (by decide)

/-- What a scan guarantees in the state `c`. -/
structure Guarantees {ι : Type} [DecidableEq ι] (env : ScanEnv)
    (c : Config ι ScanShared ScanThread ScanLog) : Prop where
  /-- A call goes on until it ends, after a bounded number of steps. -/
  progress : ∀ i, (c.threads i).pc.busy = true →
    ∃ s' th' e, env.Step c.shared (c.threads i) s' th' e
  bounded : ∀ i n c', Stretch env.Step (fun th => th.pc.busy = true) i c n c' →
    n ≤ env.budget c.shared (c.threads i)
  /-- It ends by returning if object reads succeed. -/
  not_faulted : env.Readable → ∀ i, (c.threads i).pc ≠ .faulted
  /-- A returned chunk has at most `standardVectorSize` rows. -/
  chunk : ∀ i, ChunkOk (c.threads i)
  /-- An empty chunk means that no pending row and no unclaimed unit is left. -/
  empty : ∀ i, (c.threads i).pc = .returned [] → env.Exhausted c.shared (c.threads i)
  /-- `rows_emitted` is the number of emitted rows. -/
  rowsEmitted : c.shared.rowsEmitted = Multiset.card c.log.2
  /-- When all threads are finished, each row that passes has been emitted once
      for each time its unit is queued, and nothing else has been. -/
  exactly_once : (∀ i, (c.threads i).finished = true) → ∀ id,
    (env.Delivers id → c.log.2.count id = env.plan.workUnits.count (id.unit)) ∧
      (id ∈ c.log.2 → env.Delivers id ∧ id.unit ∈ env.plan.workUnits)
  /-- In particular once, as Init queues no unit twice. -/
  once : env.plan.workUnits.Nodup → (∀ i, (c.threads i).finished = true) → ∀ id,
    env.Delivers id → id.unit ∈ env.plan.workUnits → c.log.2.count id = 1

/-- The parallel scan emits exactly once, in every interleaving. -/
theorem parallel_scan_exactly_once {ι : Type} [DecidableEq ι] [Fintype ι] [Nonempty ι] {env : ScanEnv}
    {outputs : ι → DataChunk} {c : Config ι ScanShared ScanThread ScanLog}
    (hslow : env.fast = false) (hsample : env.plan.doSample = false)
    (h : Reachable env.Step (env.start outputs) c) : env.Guarantees c := by
  have hfinished := slow_finishedOk hslow hsample h
  have hrows : (∀ i, (c.threads i).finished = true) → c.log.2 = env.queueRows := by
    intro hall
    rw [← reachable_log_eq hsample h]
    exact offered_of_finished h fun i => hfinished i (Or.inl (hall i))
  refine ⟨fun i => step_of_busy env _, fun i n c' => call_bounded h,
    fun hread => reachable_not_faulted hread h, reachable_chunkOk h, fun i hret => hfinished i (Or.inr hret), reachable_rowsEmitted h, ?_, ?_⟩
  · intro hall id
    rw [hrows hall]
    exact ⟨count_queueRows, mem_queueRows.mp⟩
  · intro hnodup hall id hid hunit
    rw [hrows hall, count_queueRows hid]
    exact List.count_eq_one_of_mem hnodup hunit

-- ============================================================================
-- A run
-- ============================================================================

/-- The steps of a scan whose sampler draws `draws` in every window. -/
def next (env : ScanEnv) (draws : Nat → Bool) (s : ScanShared) (th : ScanThread) :
    Option (ScanShared × ScanThread × ScanLog) :=
  (env.stepThread s th draws).map fun r => (r.shared, r.thread, r.log)

theorem stepThread_of_next {env : ScanEnv} {draws : Nat → Bool} {s s' : ScanShared}
    {th th' : ScanThread} {e : ScanLog} (h : env.next draws s th = some (s', th', e)) :
    env.stepThread s th draws = some ⟨s', th', e⟩ := by
  obtain ⟨r, hr, heq⟩ := Option.map_eq_some_iff.mp h
  obtain ⟨rfl, rfl, rfl⟩ : r.shared = s' ∧ r.thread = th' ∧ r.log = e := by
    simpa only [Prod.mk.injEq] using heq
  exact hr

end ScanEnv

/-- One object with blocks of the given sizes, and one column of zeros. -/
def plainStorage (blockRows : List Nat) : Storage where
  readMeta := fun _ => some ⟨blockRows.map fun n => { rows := n, columns := [] }⟩
  readBlock := fun _ blk seqnums => (blockRows[blk]?).map fun n =>
    seqnums.map fun _ => { type := { oid := 22 }, rowCount := n, data := List.replicate (4 * n) 0 }
  readBlock_length := by
    intro _ blk seqnums cols h
    obtain ⟨n, -, rfl⟩ := Option.map_eq_some_iff.mp h
    exact List.length_map _

/-- A scan of the column, all blocks queued. -/
def plainPlan (blockRows : List Nat) (doSample : Bool) : ScanPlan where
  objects := [{ filePath := "a.tae", rows := blockRows.sum, blocks := blockRows.length }]
  outputMap := [.taeColumn 0 0]
  readSeqnums := [0]
  filters := []
  doSample := doSample
  workUnits := (List.range blockRows.length).map (WorkUnit.mk 0)
  output_read := @oneColumn_output_read
  filters_read := oneColumn_no_filters

def plainEnv (blockRows : List Nat) (doSample : Bool) : ScanEnv where
  plan := plainPlan blockRows doSample
  storage := plainStorage blockRows
  fast := false
  callAgain := false
  fast_only := fun h => absurd h (by decide)

/-- One thread with one output column. -/
def oneOutput : Unit → DataChunk := fun _ => ⟨[{ type := .integer }], 0⟩

/-- A thread that scans two blocks alone, to its end. -/
theorem plainEnv_scanned :
    ∃ c, ((plainEnv [2, 1] false).start oneOutput).run ((plainEnv [2, 1] false).next fun _ => true)
        (List.replicate 8 ()) = some c ∧
      (c.threads ()).finished = true ∧ (plainEnv [2, 1] false).Guarantees c := by
  obtain ⟨c, hrun, hfinished⟩ : ∃ c,
      ((plainEnv [2, 1] false).start oneOutput).run ((plainEnv [2, 1] false).next fun _ => true)
        (List.replicate 8 ()) = some c ∧ (c.threads ()).finished = true := ⟨_, rfl, rfl⟩
  have hreach : Reachable (plainEnv [2, 1] false).Step ((plainEnv [2, 1] false).start oneOutput) c :=
    Reachable.run (fun _ _ _ _ _ h => ⟨_, ScanEnv.stepThread_of_next h⟩) .start hrun
  exact ⟨c, hrun, hfinished, ScanEnv.parallel_scan_exactly_once rfl rfl hreach⟩

end TaeScanner
