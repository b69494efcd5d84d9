/-
  TaeScanner.Scan.FastPath

  The metadata fast path against the real scan.  The fast path derives the rows
  of a block from the totals of its object: blocks of 8192 rows with the rest in
  the last one, or an even spread of a small object.  Where the blocks of the
  object files have these sizes and none is empty, both paths emit the same
  rows.
-/

import TaeScanner.Scan.Parallel

namespace TaeScanner

open Lib

namespace ScanPlan
variable (plan : ScanPlan)

/-- The query needs no column, no filter and no sampling. -/
def NeedsNoData : Prop := plan.readSeqnums = [] ∧ plan.filters = [] ∧ plan.doSample = false

/-- A scan that takes the fast path. -/
def fastEnv (storage : Storage) (callAgain : Bool) (h : plan.NeedsNoData) : ScanEnv where
  plan := plan
  storage := storage
  fast := true
  callAgain := callAgain
  fast_only := fun _ => h

/-- A scan that takes the slow path. -/
def slowEnv (storage : Storage) (callAgain : Bool) : ScanEnv where
  plan := plan
  storage := storage
  fast := false
  callAgain := callAgain
  fast_only := fun h => by cases h

/-- What a query of the virtual columns sees of a row. -/
def virtualRow (id : RowId) : Option String × Int :=
  ((plan.objects[id.objectIdx]?).map (·.filePath), leInt (leBytesInt 4 id.blockIdx))

/-- The queued blocks can be read, have as many rows as `ManifestBlockRowCount`
    derives, and are not empty. -/
def RegularBlocks (storage : Storage) : Prop :=
  ∀ wu ∈ plan.workUnits, ∃ info md, plan.objects[wu.objectIdx]? = some info ∧
    storage.readMeta wu.objectIdx = some md ∧
    (storage.readBlock wu.objectIdx wu.blockIdx []).isSome ∧
    md.blockRowCount wu.blockIdx = manifestBlockRowCount info wu.blockIdx ∧
    0 < md.blockRowCount wu.blockIdx

end ScanPlan

namespace ScanEnv

section Fast
variable {env : ScanEnv} {draws : Nat → Bool} {s s' : ScanShared} {th th' : ScanThread} {e : ScanLog}

/-- No queued unit is known to be empty. -/
def NoEmptyBlock (env : ScanEnv) : Prop :=
  ∀ wu ∈ env.plan.workUnits, ∀ blk, env.unitBlock wu = some (some blk) → 0 < blk.totalRows

/-- A thread that is about to emit has rows to emit. -/
def EmitsRows (env : ScanEnv) (th : ScanThread) : Prop :=
  th.pc = env.emitPc → th.locals.hasPending = true

theorem Move.emitsRows (hne : env.NoEmptyBlock) (h : env.Move draws s th s' th' e) :
    env.EmitsRows th' := by
  intro hpc'
  cases h with
  | call => exact absurd hpc' entryPc_ne_emitPc
  | resume _ hpending => exact hpending
  | exhausted => exact absurd hpc' (ne_emitPc_of_idle rfl)
  | unreadable => exact absurd hpc' (ne_emitPc_of_idle rfl)
  | skipped hpc => exact absurd (hpc.symm.trans hpc') entryPc_ne_emitPc
  | loaded _ _ hunit hblock => exact decide_eq_true (hne _ (List.mem_of_getElem? hunit) _ hblock)
  | failed => exact absurd hpc' (ne_emitPc_of_idle rfl)
  | filtered =>
      by_contra hnot
      have hentry : (if th.locals.advance.hasPending = true then env.emitPc else env.entryPc) =
          env.emitPc := hpc'
      rw [if_neg hnot] at hentry
      exact entryPc_ne_emitPc hentry
  | unsampled _ _ _ _ _ hpending => exact hpending
  | unsampledLast => exact absurd hpc' (ne_emitPc_of_idle rfl)
  | emitted => exact absurd hpc' (ne_emitPc_of_idle rfl)

/-- A run of the fast path over non-empty blocks offers all rows. -/
theorem offered_of_fast_run {ι : Type} [DecidableEq ι] [Fintype ι] [Nonempty ι]
    {outputs : ι → DataChunk} {c : Config ι ScanShared ScanThread ScanLog} (hfast : env.fast = true)
    (hne : env.NoEmptyBlock) (h : Reachable env.Step (env.start outputs) c)
    (hall : ∀ i, (c.threads i).finished = true) : c.log.1 = env.queueRows := by
  have hemits : ∀ {c : Config ι ScanShared ScanThread ScanLog},
      Reachable env.Step (env.start outputs) c → ∀ i, env.EmitsRows (c.threads i) := by
    intro c hc i
    refine (hc.invariant (fun _ th => env.ThreadOk th ∧ env.EmitsRows th) (fun j => ?_) ?_ ?_ i).2
    · exact ⟨start_threadOk outputs j, fun hpc => absurd hpc (ne_emitPc_of_idle rfl)⟩
    · rintro s th s' th' e ⟨hok, -⟩ ⟨draws, hstep⟩
      have hmove := move_of_step hok hstep
      exact ⟨hmove.threadOk hok, hmove.emitsRows hne⟩
    · intro s th s' th' e u _ hu _
      exact hu
  have hfinished : ∀ i, env.FinishedOk c.shared (c.threads i) := by
    refine reachable_finishedOk (fun _ _ _ _ _ hstep => hstep.2) ?_
      (h.restrict (fun _ th => env.EmitsRows th) hemits)
    rintro s th s' th' e hok ⟨hrows, draws, hstep⟩ hret
    refine (move_of_step hok hstep).exhausted_of_empty hret ?_ fun _ hpc => ?_
    · rintro ⟨hsample, -⟩
      exact absurd (hsample.symm.trans (env.fast_only hfast).2.2) (by decide)
    · -- every row of a non-empty window is emitted
      have hpos := TAEScanLocalState.window_pos (hrows hpc)
      rw [ScanPlan.windowRows, ScanPlan.passingFrom_of_no_filters (env.fast_only hfast).2.1]
      intro hnil
      have hlen := congrArg List.length hnil
      rw [List.length_range'] at hlen
      exact absurd hlen (Nat.ne_of_gt hpos)
  exact offered_of_finished h fun i => hfinished i (Or.inl (hall i))

end Fast

end ScanEnv

namespace ScanPlan
variable {plan : ScanPlan} {storage : Storage} {callAgain : Bool}

/-- Over regular blocks, both paths see the same block behind a unit. -/
theorem RegularBlocks.unitBlock (hreg : plan.RegularBlocks storage) (hdata : plan.NeedsNoData)
    (callAgain callAgain' : Bool) {wu : WorkUnit} (hwu : wu ∈ plan.workUnits) :
    ∃ blk, (plan.fastEnv storage callAgain hdata).unitBlock wu = some (some blk) ∧
      (plan.slowEnv storage callAgain').unitBlock wu = some (some blk) ∧ 0 < blk.totalRows := by
  obtain ⟨info, md, hobj, hmd, hread, hrows, hpos⟩ := hreg wu hwu
  refine ⟨⟨[], manifestBlockRowCount info wu.blockIdx⟩, ?_, ?_, hrows ▸ hpos⟩
  · show (plan.objects[wu.objectIdx]?).map _ = _
    rw [hobj]
    rfl
  · show plan.unitBlock storage wu = _
    obtain ⟨cols, hcols⟩ := Option.isSome_iff_exists.mp hread
    have hnil : cols = [] := List.length_eq_zero_iff.mp (storage.readBlock_length hcols)
    have hskip : plan.skipsBlock md wu.blockIdx = false := by
      rw [skipsBlock, hdata.2.1]
      rfl
    rw [ScanPlan.unitBlock, hmd, Option.bind_some, hskip, if_neg Bool.false_ne_true, openBlock,
      hdata.1, hcols, hnil, ← hrows]
    rfl

/-- The fast path agrees with the real scan over regular blocks: complete runs of
    either path emit the same rows. -/
theorem fast_agrees_with_slow {ι κ : Type} [DecidableEq ι] [Fintype ι] [Nonempty ι] [DecidableEq κ]
    [Fintype κ] [Nonempty κ] {callAgain' : Bool} {outputs : ι → DataChunk} {outputs' : κ → DataChunk}
    {fast : Config ι ScanShared ScanThread ScanLog} {slow : Config κ ScanShared ScanThread ScanLog}
    (hdata : plan.NeedsNoData) (hreg : plan.RegularBlocks storage)
    (hfast : Reachable (plan.fastEnv storage callAgain hdata).Step
      ((plan.fastEnv storage callAgain hdata).start outputs) fast)
    (hfastEnd : ∀ i, (fast.threads i).finished = true)
    (hslow : Reachable (plan.slowEnv storage callAgain').Step
      ((plan.slowEnv storage callAgain').start outputs') slow)
    (hslowEnd : ∀ i, (slow.threads i).finished = true) :
    fast.log.2.map plan.virtualRow = slow.log.2.map plan.virtualRow := by
  have hne : (plan.fastEnv storage callAgain hdata).NoEmptyBlock := by
    intro wu hwu blk hblock
    obtain ⟨blk', hblock', -, hpos⟩ := hreg.unitBlock hdata callAgain callAgain' hwu
    rw [hblock] at hblock'
    obtain rfl := Option.some.inj (Option.some.inj hblock')
    exact hpos
  have hunits : ∀ wu ∈ plan.workUnits, (plan.fastEnv storage callAgain hdata).unitRows wu =
      (plan.slowEnv storage callAgain').unitRows wu := by
    intro wu hwu
    obtain ⟨blk, hf, hs, -⟩ := hreg.unitBlock hdata callAgain callAgain' hwu
    rw [ScanEnv.unitRows, ScanEnv.unitRows, hf, hs]
    rfl
  have hqueue : (plan.fastEnv storage callAgain hdata).queueRows =
      (plan.slowEnv storage callAgain').queueRows := by
    rw [ScanEnv.queueRows, ScanEnv.queueRows]
    exact congrArg List.sum (List.map_congr_left hunits)
  have hfastLog : fast.log.2 = (plan.fastEnv storage callAgain hdata).queueRows := by
    rw [← ScanEnv.reachable_log_eq hdata.2.2 hfast]
    exact ScanEnv.offered_of_fast_run rfl hne hfast hfastEnd
  have hslowLog : slow.log.2 = (plan.slowEnv storage callAgain').queueRows := by
    rw [← ScanEnv.reachable_log_eq hdata.2.2 hslow]
    exact ScanEnv.offered_of_finished hslow fun i =>
      ScanEnv.slow_finishedOk rfl hdata.2.2 hslow i (Or.inl (hslowEnd i))
  rw [hfastLog, hslowLog, hqueue]

end ScanPlan

-- ============================================================================
-- Two blocks
-- ============================================================================

/-- A query of `block_id` alone. -/
def blockIdPlan (blockRows : List Nat) : ScanPlan where
  objects := [{ filePath := "a.tae", rows := blockRows.sum, blocks := blockRows.length }]
  outputMap := [.vcolBlockId]
  readSeqnums := []
  filters := []
  workUnits := (List.range blockRows.length).map (WorkUnit.mk 0)
  output_read := by
    intro i taeColIdx decodedPos h
    cases i with
    | zero => cases h
    | succ i => cases h
  filters_read := fun _ h => absurd h List.not_mem_nil

theorem blockIdPlan_needsNoData (blockRows : List Nat) : (blockIdPlan blockRows).NeedsNoData :=
  ⟨rfl, rfl, rfl⟩

abbrev blockIdFast (blockRows : List Nat) : ScanEnv :=
  (blockIdPlan blockRows).fastEnv (plainStorage blockRows) false (blockIdPlan_needsNoData blockRows)

abbrev blockIdSlow (blockRows : List Nat) : ScanEnv :=
  (blockIdPlan blockRows).slowEnv (plainStorage blockRows) false

/-- Three rows in blocks of 2 and 1: the fast path spreads them as 1 and 2. -/
theorem blockIdFast_miscounts :
    ∃ fast slow, Reachable (blockIdFast [2, 1]).Step ((blockIdFast [2, 1]).start oneOutput) fast ∧
      Reachable (blockIdSlow [2, 1]).Step ((blockIdSlow [2, 1]).start oneOutput) slow ∧
      (fast.threads ()).finished = true ∧ (slow.threads ()).finished = true ∧
      fast.log.2.map (blockIdPlan [2, 1]).virtualRow ≠
        slow.log.2.map (blockIdPlan [2, 1]).virtualRow := by
  obtain ⟨fast, hrun, hfinished, hlog⟩ : ∃ c,
      ((blockIdFast [2, 1]).start oneOutput).run ((blockIdFast [2, 1]).next fun _ => true)
        (List.replicate 8 ()) = some c ∧ (c.threads ()).finished = true ∧
      c.log.2 = rowIds 0 0 [0] + rowIds 0 1 [0, 1] := ⟨_, rfl, rfl, rfl⟩
  obtain ⟨slow, hrun', hfinished', hlog'⟩ : ∃ c,
      ((blockIdSlow [2, 1]).start oneOutput).run ((blockIdSlow [2, 1]).next fun _ => true)
        (List.replicate 8 ()) = some c ∧ (c.threads ()).finished = true ∧
      c.log.2 = rowIds 0 0 [0, 1] + rowIds 0 1 [0] := ⟨_, rfl, rfl, rfl⟩
  refine ⟨fast, slow, Reachable.run (fun _ _ _ _ _ h => ⟨_, ScanEnv.stepThread_of_next h⟩) .start hrun,
    Reachable.run (fun _ _ _ _ _ h => ⟨_, ScanEnv.stepThread_of_next h⟩) .start hrun', hfinished,
    hfinished', ?_⟩
  rw [hlog, hlog']
  decide

/-- Three rows in blocks of 1 and 2, as the fast path spreads them. -/
theorem blockIdFast_agrees :
    ∃ fast slow, ((blockIdFast [1, 2]).start oneOutput).run ((blockIdFast [1, 2]).next fun _ => true)
        (List.replicate 8 ()) = some fast ∧
      ((blockIdSlow [1, 2]).start oneOutput).run ((blockIdSlow [1, 2]).next fun _ => true)
        (List.replicate 8 ()) = some slow ∧
      fast.log.2.map (blockIdPlan [1, 2]).virtualRow =
        slow.log.2.map (blockIdPlan [1, 2]).virtualRow := by
  obtain ⟨fast, hrun, hfinished⟩ : ∃ c,
      ((blockIdFast [1, 2]).start oneOutput).run ((blockIdFast [1, 2]).next fun _ => true)
        (List.replicate 8 ()) = some c ∧ (c.threads ()).finished = true := ⟨_, rfl, rfl⟩
  obtain ⟨slow, hrun', hfinished'⟩ : ∃ c,
      ((blockIdSlow [1, 2]).start oneOutput).run ((blockIdSlow [1, 2]).next fun _ => true)
        (List.replicate 8 ()) = some c ∧ (c.threads ()).finished = true := ⟨_, rfl, rfl⟩
  have hreg : (blockIdPlan [1, 2]).RegularBlocks (plainStorage [1, 2]) := by
    intro wu hwu
    have hwu' : wu = ⟨0, 0⟩ ∨ wu = ⟨0, 1⟩ := by simpa [blockIdPlan, List.range_succ] using hwu
    rcases hwu' with rfl | rfl
    · exact ⟨_, _, rfl, rfl, rfl, rfl, by decide⟩
    · exact ⟨_, _, rfl, rfl, rfl, rfl, by decide⟩
  have hreach : Reachable (blockIdFast [1, 2]).Step ((blockIdFast [1, 2]).start oneOutput) fast :=
    Reachable.run (fun _ _ _ _ _ h => ⟨_, ScanEnv.stepThread_of_next h⟩) .start hrun
  have hreach' : Reachable (blockIdSlow [1, 2]).Step ((blockIdSlow [1, 2]).start oneOutput) slow :=
    Reachable.run (fun _ _ _ _ _ h => ⟨_, ScanEnv.stepThread_of_next h⟩) .start hrun'
  exact ⟨fast, slow, hrun, hrun', ScanPlan.fast_agrees_with_slow (blockIdPlan_needsNoData [1, 2]) hreg
    hreach (fun _ => hfinished) hreach' (fun _ => hfinished')⟩

end TaeScanner
