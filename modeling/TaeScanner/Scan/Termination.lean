/-
  TaeScanner.Scan.Termination

  Scans end.  When a thread is not called again after its first empty chunk, no
  schedule goes on forever, whatever the files hold:

    * a step uses up what the queue and its thread are worth, three for each row that
      is left to emit and some for the place in the round from one call to the next;
    * the work counter passes the end of the queue once for each thread at most;
    * where no thread can make a step, each of them is finished or has faulted;
    * on written files none faults, so that every schedule ends, and ends with the rows
      that the query selects.
-/

import Mathlib.Data.Fintype.Card
import TaeScanner.Scan.FillBounds
import TaeScanner.Scan.ReturnedTable

namespace TaeScanner

open Lib

-- ============================================================================
-- What a thread is worth
-- ============================================================================

/-- A window of a pending block leaves fewer rows behind. -/
theorem TAEScanLocalState.advance_remaining_lt {ls : TAEScanLocalState} (h : ls.hasPending = true) :
    ls.advance.pendingTotalRows - ls.advance.pendingOffset < ls.pendingTotalRows - ls.pendingOffset := by
  have hlt : ls.pendingOffset < ls.pendingTotalRows := of_decide_eq_true h
  have hpos := window_pos h
  rcases advance_cases ls with ⟨hadv, -⟩ | ⟨hadv, -⟩
  · rw [hadv]
    exact Nat.sub_pos_of_lt hlt
  · rw [hadv]
    show ls.pendingTotalRows - (ls.pendingOffset + ls.window.chunkRows) < _
    omega

namespace ScanEnv
variable {env : ScanEnv} {draws : Nat → Bool} {s s' : ScanShared} {th th' : ScanThread} {e : ScanLog}

/-- The steps that remain in the round from one call to the next. -/
def roundSteps (env : ScanEnv) (th : ScanThread) : Nat :=
  -- a block without rows sends the thread back to claim another one
  if th.pc = env.emitPc then (if th.locals.hasPending then 1 else 4)
  else if th.pc = env.entryPc then 2
  else if th.pc = .faulted ∨ th.finished = true then 0 else 3

/-- The steps a thread can still make without claiming a unit, with three for each row:
    its window is emitted, and the next call comes back to the block. -/
def threadSteps (env : ScanEnv) (th : ScanThread) : Nat :=
  3 * (th.locals.pendingTotalRows - th.locals.pendingOffset) + env.roundSteps th

theorem roundSteps_emitPc (h : th.pc = env.emitPc) :
    env.roundSteps th = if th.locals.hasPending then 1 else 4 := if_pos h

theorem roundSteps_entryPc (h : th.pc = env.entryPc) : env.roundSteps th = 2 := by
  rw [roundSteps, if_neg (h ▸ entryPc_ne_emitPc), if_pos h]

theorem threadSteps_entryPc (h : th.pc = env.entryPc) (hpending : th.locals.hasPending = false) :
    env.threadSteps th = 2 := by
  rw [threadSteps, roundSteps_entryPc h, TAEScanLocalState.remaining_of_not_pending hpending]

theorem roundSteps_idle (h : th.pc.busy = false) :
    env.roundSteps th = if th.pc = .faulted ∨ th.finished = true then 0 else 3 := by
  rw [roundSteps, if_neg (ne_emitPc_of_idle h), if_neg (Pc.ne_of_busy entryPc_busy h).symm]

theorem roundSteps_idle_le (h : th.pc.busy = false) : env.roundSteps th ≤ 3 := by
  rw [roundSteps_idle h]
  split
  · exact Nat.zero_le _
  · exact Nat.le_refl _

/-- A step of the round that leaves the block alone. -/
theorem threadSteps_lt {pc : Pc} {output : DataChunk} {finished : Bool}
    (hround : env.roundSteps ⟨pc, th.locals, output, finished⟩ < env.roundSteps th) :
    env.threadSteps ⟨pc, th.locals, output, finished⟩ < env.threadSteps th := Nat.add_lt_add_left hround _

/-- A window uses up what the thread was worth when it emitted it. -/
theorem threadSteps_advance (hpc : th.pc = env.emitPc) {pc : Pc} {output : DataChunk} {finished : Bool}
    (hle : env.roundSteps ⟨pc, th.locals.advance, output, finished⟩ ≤ 3) :
    env.threadSteps ⟨pc, th.locals.advance, output, finished⟩ < env.threadSteps th := by
  rw [threadSteps, threadSteps, roundSteps_emitPc hpc]
  cases hpending : th.locals.hasPending with
  | true =>
      have hlt := TAEScanLocalState.advance_remaining_lt hpending
      rw [if_pos rfl]
      show 3 * (th.locals.advance.pendingTotalRows - th.locals.advance.pendingOffset) + _ < _
      omega
  | false =>
      have hnone := TAEScanLocalState.remaining_of_not_pending (advance_of_not_pending hpending)
      rw [if_neg Bool.false_ne_true]
      show 3 * (th.locals.advance.pendingTotalRows - th.locals.advance.pendingOffset) + _ < _
      omega

theorem poolCost_exhausted (h : env.plan.workUnits.length ≤ s.nextWorkUnit) : env.poolCost s = 0 := by
  rw [poolCost, unclaimed, List.drop_eq_nil_of_le h]
  rfl

theorem unitCost_pos (env : ScanEnv) (wu : WorkUnit) : 0 < env.unitCost wu := by
  rw [unitCost]
  split
  · exact Nat.succ_pos _
  · exact Nat.succ_pos _

/-- A claim takes the cost of the unit from the queue. -/
theorem uses_of_claim {wu : WorkUnit} (hpc : th.pc = env.entryPc) (hpending : th.locals.hasPending = false)
    (hunit : env.plan.workUnits[s.nextWorkUnit]? = some wu) (hnext : s'.nextWorkUnit = s.nextWorkUnit + 1)
    (hworth : env.threadSteps th' < 3 * env.unitCost wu + 2) :
    3 * env.poolCost s' + env.threadSteps th' < 3 * env.poolCost s + env.threadSteps th := by
  rw [poolCost_claim hunit hnext, threadSteps_entryPc hpc hpending]
  omega

/-- The step lemma: every step uses up something of what the queue and the thread are
    worth. -/
theorem Move.uses_steps (honce : env.callAgain = false) (h : env.Move draws s th s' th' e) :
    3 * env.poolCost s' + env.threadSteps th' < 3 * env.poolCost s + env.threadSteps th := by
  cases h with
  | call hidle hok hrecall =>
      have hleft : ¬(th.pc = .faulted ∨ th.finished = true) := by
        rintro (hfault | hfin)
        · exact hok hfault
        · rcases hrecall with hagain | hnot
          · exact absurd (hagain.symm.trans honce) (by decide)
          · exact absurd (hfin.symm.trans hnot) (by decide)
      refine Nat.add_lt_add_left (threadSteps_lt ?_) _
      rw [roundSteps_entryPc rfl, roundSteps_idle hidle, if_neg hleft]
      decide
  | resume hpc hpending =>
      refine Nat.add_lt_add_left (threadSteps_lt ?_) _
      rw [roundSteps_emitPc rfl, roundSteps_entryPc hpc, if_pos hpending]
      decide
  | exhausted hpc hpending hlast =>
      rw [poolCost_exhausted hlast, poolCost_exhausted (Nat.le_succ_of_le hlast)]
      refine Nat.add_lt_add_left (threadSteps_lt ?_) _
      rw [roundSteps_idle rfl, roundSteps_entryPc hpc, if_pos (Or.inr rfl)]
      decide
  | @unreadable wu _ locals hpc hpending hunit _ hlocals =>
      refine uses_of_claim hpc hpending hunit rfl ?_
      rw [threadSteps, roundSteps_idle rfl, if_pos (Or.inl rfl), TAEScanLocalState.remaining_of_not_pending hlocals]
      omega
  | @skipped wu md hpc hpending hunit =>
      refine uses_of_claim hpc hpending hunit rfl ?_
      have hpos := unitCost_pos env wu
      refine lt_of_eq_of_lt (threadSteps_entryPc hpc hpending) ?_
      omega
  | @loaded wu blk _ reader hpc hpending hunit hblock =>
      refine uses_of_claim hpc hpending hunit rfl ?_
      rw [threadSteps, roundSteps_emitPc rfl, unitCost, hblock]
      show 3 * (blk.totalRows - 0) + _ < 3 * (blk.totalRows + 3) + 2
      split
      · omega
      · omega
  | failed hpc =>
      refine Nat.add_lt_add_left (threadSteps_lt ?_) _
      rw [roundSteps_idle rfl, roundSteps_emitPc hpc, if_pos (Or.inl rfl)]
      split
      · decide
      · decide
  | filtered hpc =>
      refine Nat.add_lt_add_left (threadSteps_advance hpc ?_) _
      cases hpending : th.locals.advance.hasPending with
      | true =>
          rw [if_pos rfl, roundSteps_emitPc rfl, if_pos hpending]
          decide
      | false =>
          rw [if_neg Bool.false_ne_true, roundSteps_entryPc rfl]
          decide
  | unsampled hpc _ _ _ _ hpending =>
      refine Nat.add_lt_add_left (threadSteps_advance hpc ?_) _
      rw [roundSteps_emitPc rfl, if_pos hpending]
      decide
  | unsampledLast hpc => exact Nat.add_lt_add_left (threadSteps_advance hpc (roundSteps_idle_le rfl)) _
  | emitted hpc => exact Nat.add_lt_add_left (threadSteps_advance hpc (roundSteps_idle_le rfl)) _

-- ============================================================================
-- Runs
-- ============================================================================

/-- A thread that is finished is outside of a call. -/
theorem Move.finished_idle (honce : env.callAgain = false) (hidle : th.finished = true → th.pc.busy = false)
    (h : env.Move draws s th s' th' e) : th'.finished = true → th'.pc.busy = false := by
  intro hfin
  -- a thread inside a call is not finished
  have hbusy : ∀ {pc : Pc}, th.pc = pc → pc.busy = true → th.finished ≠ true := by
    rintro pc rfl hpc hfinished
    exact absurd (hpc.symm.trans (hidle hfinished)) (by decide)
  cases h with
  | call _ _ hrecall =>
      rcases hrecall with hagain | hnot
      · exact absurd (hagain.symm.trans honce) (by decide)
      · exact absurd (hfin.symm.trans hnot) (by decide)
  | resume hpc => exact absurd hfin (hbusy hpc entryPc_busy)
  | exhausted => rfl
  | unreadable => rfl
  | skipped hpc => exact absurd hfin (hbusy hpc entryPc_busy)
  | loaded hpc => exact absurd hfin (hbusy hpc entryPc_busy)
  | failed => rfl
  | filtered hpc => exact absurd hfin (hbusy hpc emitPc_busy)
  | unsampled hpc => exact absurd hfin (hbusy hpc emitPc_busy)
  | unsampledLast => rfl
  | emitted => rfl

/-- A thread passes the end of the queue when it is finished. -/
theorem Move.counts_passes (hidle : th.finished = true → th.pc.busy = false)
    (h : env.Move draws s th s' th' e) :
    s'.nextWorkUnit - env.plan.workUnits.length + (if th'.finished = true then 0 else 1) ≤
      s.nextWorkUnit - env.plan.workUnits.length + (if th.finished = true then 0 else 1) := by
  -- a claim stays within the queue
  have hclaim : ∀ {wu : WorkUnit}, env.plan.workUnits[s.nextWorkUnit]? = some wu →
      s.nextWorkUnit + 1 - env.plan.workUnits.length = s.nextWorkUnit - env.plan.workUnits.length := by
    intro wu hunit
    have hlt := (List.getElem?_eq_some_iff.mp hunit).1
    omega
  have hless : ∀ {old new : Bool}, (old = true → new = true) →
      (if new = true then 0 else 1) ≤ if old = true then 0 else 1 := by
    intro old new himp
    cases old with
    | false => cases new <;> decide
    | true => rw [himp rfl]
  cases h with
  | exhausted hpc =>
      have hnot : ¬th.finished = true := by
        intro hfin
        exact absurd (entryPc_busy.symm.trans (hpc ▸ hidle hfin)) (by decide)
      rw [if_pos rfl, if_neg hnot]
      show s.nextWorkUnit + 1 - _ + 0 ≤ _
      omega
  | unreadable _ _ hunit => exact Nat.add_le_add_right (hclaim hunit).le _
  | skipped _ _ hunit => exact Nat.add_le_add_right (hclaim hunit).le _
  | loaded _ _ hunit => exact Nat.add_le_add_right (hclaim hunit).le _
  | emitted => exact Nat.add_le_add_left (hless fun hfin => by rw [hfin]; rfl) _
  | unsampledLast => exact Nat.add_le_add_left (hless fun _ => rfl) _
  | _ => exact Nat.le_refl _

section Runs
variable {ι : Type} [DecidableEq ι] {outputs : ι → DataChunk} {c : Config ι ScanShared ScanThread ScanLog}

theorem reachable_finished_idle (honce : env.callAgain = false) (h : Reachable env.Step (env.start outputs) c)
    (i : ι) : (c.threads i).finished = true → (c.threads i).pc.busy = false := by
  have hrun := h.restrict (fun _ th => env.ThreadOk th) fun hc => reachable_threadOk hc
  refine hrun.invariant (fun _ th => th.finished = true → th.pc.busy = false) (fun _ _ => rfl) ?_ ?_ i
  · rintro s th s' th' e hidle ⟨hok, draws, hstep⟩
    exact (move_of_step hok hstep).finished_idle honce hidle
  · intro s th s' th' e u _ hu _
    exact hu

/-- A run is no longer than what the queue and the threads are worth at its start. -/
theorem run_le [Fintype ι] (honce : env.callAgain = false) {n : Nat} (h : Run env.Step (env.start outputs) n c) :
    n ≤ 3 * (env.poolCost {} + Fintype.card ι) := by
  have hbound := h.bounded (fun _ th => env.ThreadOk th) (fun s => 3 * env.poolCost s) env.threadSteps 1
    (fun hc => reachable_threadOk hc) fun s th s' th' e hok hstep => by
      obtain ⟨draws, hrun⟩ := hstep
      have hlt := (move_of_step hok hrun).uses_steps honce
      omega
  -- a thread that has not been called is worth the call alone
  have hfresh : ∑ i : ι, env.threadSteps ((env.start outputs).threads i) = Fintype.card ι * 3 := by
    apply Finset.sum_const_nat
    intro i _
    rw [threadSteps, roundSteps_idle rfl]
    rfl
  rw [hfresh] at hbound
  have hpool : (env.start outputs).shared = {} := rfl
  rw [hpool] at hbound
  omega

/-- The work counter passes the end of the queue once for each thread at most. -/
theorem nextWorkUnit_le [Fintype ι] (honce : env.callAgain = false) {n : Nat}
    (h : Run env.Step (env.start outputs) n c) :
    c.shared.nextWorkUnit ≤ env.plan.workUnits.length + Fintype.card ι := by
  have hbound := h.bounded (fun _ th => env.ThreadOk th ∧ (th.finished = true → th.pc.busy = false))
    (fun s => s.nextWorkUnit - env.plan.workUnits.length) (fun th => if th.finished = true then 0 else 1) 0
    (fun hc i => ⟨reachable_threadOk hc i, reachable_finished_idle honce hc i⟩)
    fun s th s' th' e hok hstep => by
      obtain ⟨draws, hrun⟩ := hstep
      rw [Nat.zero_add]
      exact (move_of_step hok.1 hrun).counts_passes hok.2
  have hfresh : ∑ i : ι, (if ((env.start outputs).threads i).finished = true then 0 else 1) = Fintype.card ι * 1 :=
    Finset.sum_const_nat fun _ _ => rfl
  rw [hfresh] at hbound
  have hstart : (env.start outputs).shared.nextWorkUnit = 0 := rfl
  rw [hstart] at hbound
  omega

/-- Where no thread can make a step, each one is finished or has faulted. -/
theorem stuck_iff (honce : env.callAgain = false) (h : Reachable env.Step (env.start outputs) c) :
    c.Stuck env.Step ↔ ∀ i, (c.threads i).finished = true ∨ (c.threads i).pc = .faulted := by
  constructor
  · intro hstuck i
    by_contra hnot
    obtain ⟨hfin, hfault⟩ := not_or.mp hnot
    cases hbusy : (c.threads i).pc.busy with
    | true =>
        obtain ⟨s', th', e, hstep⟩ := step_of_busy env c.shared hbusy
        exact hstuck i s' th' e hstep
    | false =>
        -- DuckDB calls a thread that is not finished
        have hcall : (env.callAgain || !(c.threads i).finished) = true := by
          rw [Bool.eq_false_iff.mpr hfin, Bool.not_false, Bool.or_true]
        have hstep : env.stepThread c.shared (c.threads i) (fun _ => false) =
            some (env.call c.shared (c.threads i)) := by
          rw [stepThread]
          cases hpc : (c.threads i).pc with
          | ready => exact if_pos hcall
          | returned rows => exact if_pos hcall
          | faulted => exact absurd hpc hfault
          | _ =>
              rw [hpc] at hbusy
              cases hbusy
        exact hstuck i _ _ _ ⟨_, hstep⟩
  · rintro hdone i s' th' e ⟨draws, hstep⟩
    rw [stepThread] at hstep
    rcases hdone i with hfin | hfault
    · have hidle := reachable_finished_idle honce h i hfin
      have hnever : ¬(env.callAgain || !(c.threads i).finished) = true := by
        rw [honce, hfin]
        decide
      cases hpc : (c.threads i).pc with
      | ready =>
          rw [hpc] at hstep
          rw [if_neg hnever] at hstep
          cases hstep
      | returned rows =>
          rw [hpc] at hstep
          rw [if_neg hnever] at hstep
          cases hstep
      | faulted =>
          rw [hpc] at hstep
          cases hstep
      | _ =>
          rw [hpc] at hidle
          cases hidle
    · rw [hfault] at hstep
      cases hstep

end Runs

/-- **Every scan ends.**  Whatever the files hold and whatever the sampler draws, slow path
    or fast, a run of a scan whose threads are not called again after an empty chunk has
    a bounded number of steps, with the work counter no further behind the queue than
    there are threads.  It goes on until each thread is finished or has faulted. -/
theorem scan_ends {ι : Type} [DecidableEq ι] [Fintype ι] {outputs : ι → DataChunk}
    {c : Config ι ScanShared ScanThread ScanLog} {n : Nat} (honce : env.callAgain = false)
    (h : Run env.Step (env.start outputs) n c) :
    n ≤ 3 * (env.poolCost {} + Fintype.card ι) ∧
      c.shared.nextWorkUnit ≤ env.plan.workUnits.length + Fintype.card ι ∧
        (c.Stuck env.Step ↔ ∀ i, (c.threads i).finished = true ∨ (c.threads i).pc = .faulted) :=
  ⟨run_le honce h, nextWorkUnit_le honce h, stuck_iff honce h.reachable⟩

/-- A thread that scans two blocks alone is done after eight steps. -/
theorem scan_ends_two :
    ∃ c, Run (plainEnv [2, 1] false).Step ((plainEnv [2, 1] false).start oneOutput) 8 c ∧
      8 ≤ 3 * ((plainEnv [2, 1] false).poolCost {} + 1) ∧ c.shared.nextWorkUnit ≤ 2 + 1 ∧
        (c.Stuck (plainEnv [2, 1] false).Step ↔
          ∀ i, (c.threads i).finished = true ∨ (c.threads i).pc = .faulted) := by
  obtain ⟨c, hrun⟩ : ∃ c, ((plainEnv [2, 1] false).start oneOutput).run ((plainEnv [2, 1] false).next fun _ => true)
      (List.replicate 8 ()) = some c := ⟨_, rfl⟩
  have hsteps : Run (plainEnv [2, 1] false).Step ((plainEnv [2, 1] false).start oneOutput) (0 + 8) c :=
    Run.of_run (fun _ _ _ _ _ h => ⟨_, stepThread_of_next h⟩) .start hrun
  exact ⟨c, hsteps, scan_ends rfl hsteps⟩

end ScanEnv

-- ============================================================================
-- Tables that are read
-- ============================================================================

section Tables
variable {tryGet : ColumnConstantComparison} {bt : BlobText} {std : StdSort} {bind : TAEScanBindData}
  {input : InitInput} {t : Table} {sc : ScanColumns}

/-- Every filter has an answer on every row. -/
theorem rowPassesFilters_isSome {storage : Storage} (hserved : TableServed bind storage t)
    (hq : QueryOk tryGet bt bind input t) (h : initColumns tryGet bt bind input = .ok sc) {obj blk row : Nat}
    (hblock : Table.HasBlock bind obj blk) (hrow : row < t.rows obj blk) :
    (rowPassesFilters sc.filters (sc.readSeqnums.map (t.content obj blk)) row).isSome := by
  have hwired := (filters_find_iff hq.schema h).mpr hq.fit
  rw [rowPassesFilters, allM_of_some (b := fun pf => pf.holdsOn (t.content obj blk pf.seqnum) row)]
  · rfl
  · intro pf hpf
    obtain ⟨⟨e, moOid, he⟩, hwf, -⟩ := filter_typed hq h hpf
    rw [← hserved.type obj blk] at hwf
    rw [List.getElem?_map, hwired pf hpf, Option.map_some]
    exact rowPassesFilter_spec (hq.filterable he hblock) hwf (filtered_row hserved he hblock hrow)

variable {env : ScanEnv}

/-- Reads succeed on a table whose columns cover their blocks. -/
theorem readable_stored (hstored : TableStored bind env.storage t) (hq : QueryOk tryGet bt bind input t)
    (hplan : InitPlan tryGet bt std bind input env.storage env.plan) (hslow : env.fast = false)
    (hcovers : ∀ {obj blk s}, Table.HasBlock bind obj blk → s ∈ bind.allColSeqnums →
      (t.content obj blk s).CoversBlock (t.rows obj blk)) : env.Readable := by
  obtain ⟨sc, hinit, hread, -, hfilters⟩ := hplan.columns
  have hserved := hstored.toTableServed
  have hschema : ∀ s ∈ env.plan.readSeqnums, s ∈ bind.allColSeqnums := hread ▸ readSeqnums_inSchema hinit
  have hblocks : ∀ wu ∈ env.plan.workUnits, Table.HasBlock bind wu.objectIdx wu.blockIdx := fun wu hwu =>
    hasBlock_of_mem_buildWorkUnits hserved.zoneMaps ((initWorkUnits?_queue hplan.units).1.subset hwu)
  constructor
  · intro wu hwu
    have hblock := hblocks wu hwu
    have ⟨info, hobj, _⟩ := hblock
    obtain ⟨md, hmd⟩ := Option.isSome_iff_exists.mp (hstored.meta_isSome hobj)
    rw [ScanEnv.unitBlock, hslow, if_neg Bool.false_ne_true, ScanPlan.unitBlock, hmd, Option.bind_some]
    split
    · rfl
    · rw [Option.isSome_map, ScanPlan.openBlock, Option.isSome_map]
      exact hstored.block_isSome hblock hschema
  · intro wu hwu
    obtain ⟨info, hobj, -⟩ := hblocks wu hwu
    rw [hplan.objects]
    exact (List.getElem?_eq_some_iff.mp hobj).1
  · intro wu hwu blk hunit row hrow
    obtain ⟨hblock, rfl⟩ := unitBlock_served hserved hplan hslow hwu hunit
    rw [hread, hfilters]
    exact rowPassesFilters_isSome hserved hq hinit hblock hrow
  · intro wu hwu blk hunit col hcol out off n hle
    obtain ⟨hblock, rfl⟩ := unitBlock_served hserved hplan hslow hwu hunit
    obtain ⟨s, hs, rfl⟩ := List.mem_map.mp hcol
    exact fillColumn_isSome_of_coversBlock (hcovers hblock (hschema s hs)) out hle

/-- A queue costs three for each unit, and the rows of its blocks. -/
theorem poolCost_le (hserved : TableServed bind env.storage t)
    (hplan : InitPlan tryGet bt std bind input env.storage env.plan) (hslow : env.fast = false) :
    env.poolCost {} ≤ (env.plan.workUnits.map fun wu => t.rows wu.objectIdx wu.blockIdx + 3).sum := by
  rw [ScanEnv.poolCost]
  apply List.sum_le_sum
  intro wu hwu
  rw [ScanEnv.unitCost]
  split
  · next blk hunit =>
      obtain ⟨-, rfl⟩ := unitBlock_served hserved hplan hslow hwu hunit
      exact Nat.le_refl _
  · exact Nat.le_add_left 3 _

end Tables

-- ============================================================================
-- Written files
-- ============================================================================

/-- A decoded column covers its block. -/
theorem coversBlock_written {col : ColumnInput} {d : DecodedColumn} (h : col.decoded? = some d)
    (htyped : col.Typed) (harea : d.area.length < 2 ^ 32) : d.CoversBlock d.rowCount := by
  obtain ⟨hrows, hclass, -⟩ := decoded?_spec h
  rw [coversBlock_iff_inBounds, hclass]
  cases hsource : col.source with
  | flat elemSize values nulls =>
      rw [ColumnInput.vectorClass, hsource, if_neg (show ¬(0 : Byte) = 1 by decide)]
      rw [ColumnInput.Typed, hsource] at htyped
      apply inBounds_of_stored
      intro r hr
      rw [hrows, hsource] at hr
      obtain ⟨v, -, hstored⟩ := storedValue?_flat hsource h htyped harea hr
      rw [hstored]
      rfl
  | constant elemSize value rowCount =>
      rw [ColumnInput.vectorClass, hsource, if_pos rfl]
      rcases constantNull_written hsource h htyped 0 with ⟨hnull, -⟩ | ⟨-, v, -, hstored⟩
      · by_cases hdata : d.data = []
        · exact Or.inl hdata
        · refine Or.inr (Or.inl ?_)
          by_contra hnot
          exact absurd (hnull.symm.trans (constantNull_eq_false.mpr ⟨hdata, hnot⟩)) (by decide)
      · refine Or.inr (Or.inr (inBounds_of_stored fun r hr => ?_))
        obtain rfl := Nat.lt_one_iff.mp hr
        rw [hstored]
        rfl

/-- Reads succeed on written files. -/
theorem readable_written {tryGet : ColumnConstantComparison} {bt : BlobText} {std : StdSort}
    {bind : TAEScanBindData} {input : InitInput} {env : FileEnv} {t : TableInput}
    {lz4Compress : List Byte → Option (List Byte)} {compress : Bool}
    (hfiles : FilesWritten env lz4Compress compress t.blocks) (ht : t.Ok bind)
    (hq : t.QueryOk tryGet bt bind input) (hplan : InitPlan tryGet bt std bind input env.storage env.plan)
    (hslow : env.fast = false) : env.scanEnv.Readable := by
  have hstored : TableStored bind env.scanEnv.storage t.table :=
    FileEnv.storage_written hfiles hplan.objects ht
  refine readable_stored hstored (queryOk_written hfiles hplan.objects ht hq) hplan hslow ?_
  intro obj blk s hblock hs
  obtain ⟨info, block, hinfo, -, hcols⟩ := ht.block hblock
  obtain ⟨col, -, hcol⟩ := hcols s hs
  obtain ⟨hdecoded, harea⟩ := FileEnv.column_decoded hfiles hplan.objects hinfo hcol
  have hcovers := coversBlock_written hdecoded (ht.typed hcol) harea
  rwa [(decoded?_spec hdecoded).1, ht.rows hs hcol] at hcovers

/-- **SELECT ends, with its rows.**  On written files no schedule of the threads makes more
    steps than nine for each queued block, three for each of its rows and three for each
    thread; no step is an exception; and where none is left to make, each row whose
    written cells satisfy the query has been emitted exactly once, and no other row. -/
theorem written_scan_completes {ι : Type} [DecidableEq ι] [Fintype ι] [Nonempty ι]
    {tryGet : ColumnConstantComparison} {bt : BlobText} {std : StdSort} {bind : TAEScanBindData}
    {input : InitInput} {env : FileEnv} {t : TableInput} {lz4Compress : List Byte → Option (List Byte)}
    {compress : Bool} {outputs : ι → DataChunk} {c : Config ι ScanShared FileThread ScanLog} {n : Nat}
    (hfiles : FilesWritten env lz4Compress compress t.blocks) (ht : t.Ok bind)
    (hq : t.QueryOk tryGet bt bind input) (hplan : InitPlan tryGet bt std bind input env.storage env.plan)
    (hsafe : ∀ pf ∈ env.plan.filters, pf.CutSafe) (hunlimited : bind.Unlimited) (hslow : env.fast = false)
    (hsample : env.plan.doSample = false) (honce : env.callAgain = false)
    (h : Run env.Step (FileEnv.start outputs) n c) :
    n ≤ 3 * ((env.plan.workUnits.map fun wu => t.rows wu.objectIdx wu.blockIdx + 3).sum + Fintype.card ι) ∧
      (∀ i, (c.threads i).scan.pc ≠ .faulted) ∧
        (c.Stuck env.Step → c.log.2.Nodup ∧ ∀ id, id ∈ c.log.2 ↔ t.Selects bind input id) := by
  have hrun : Run env.scanEnv.Step (env.scanEnv.start outputs) n (c.mapThreads FileThread.scan) :=
    env.refines.run_map (FileEnv.start_kept outputs) h
  have hstored : TableStored bind env.scanEnv.storage t.table :=
    FileEnv.storage_written hfiles hplan.objects ht
  have hsound : ∀ i, (c.threads i).scan.pc ≠ .faulted :=
    ScanEnv.reachable_not_faulted (readable_written hfiles ht hq hplan hslow) hrun.reachable
  refine ⟨?_, hsound, fun hstuck => ?_⟩
  · calc n ≤ 3 * (env.scanEnv.poolCost {} + Fintype.card ι) := ScanEnv.run_le honce hrun
      _ ≤ _ := Nat.mul_le_mul_left 3
        (Nat.add_le_add_right (poolCost_le hstored.toTableServed hplan hslow) _)
  · have hkept := env.refines.reachable_keeps (FileEnv.start_kept outputs) h.reachable
    have hdone : ∀ i, (c.threads i).scan.finished = true := fun i =>
      ((ScanEnv.stuck_iff honce hrun.reachable).mp (env.refines.stuck_map hkept hstuck) i).resolve_right (hsound i)
    have hqueue : c.log.2 = env.scanEnv.queueRows :=
      ScanEnv.emitted_of_finished hslow hsample hrun.reachable hdone
    rw [hqueue]
    exact queueRows_written hfiles hplan.objects ht hq hplan hsafe hunlimited hslow

/-- One thread has made the five steps of its scan. -/
theorem written_scan_completes_seven :
    ∃ c, Run threeRowEnv.Step (FileEnv.start oneOutput) 5 c ∧ (c.threads ()).scan.finished = true ∧
      5 ≤ 3 * ((([⟨0, 0⟩] : List WorkUnit).map fun wu => threeRows.rows wu.objectIdx wu.blockIdx + 3).sum + 1) ∧
        (∀ i, (c.threads i).scan.pc ≠ .faulted) ∧
          (c.Stuck threeRowEnv.Step →
            c.log.2.Nodup ∧ ∀ id, id ∈ c.log.2 ↔ threeRows.Selects threeRowBind equalsSevenInput id) := by
  have hrun : ((FileEnv.start oneOutput).run (threeRowEnv.next (fun _ => true) 2) (List.replicate 5 ())).any
      (fun c => (c.threads ()).scan.finished) = true := by decide +kernel
  obtain ⟨c, hc, hfinished⟩ := (Option.any_eq_true _ _).mp hrun
  have hsteps : Run threeRowEnv.Step (FileEnv.start oneOutput) (0 + (List.replicate 5 ()).length) c :=
    Run.of_run (fun _ _ _ _ _ h => FileEnv.step_of_next h) .start hc
  rw [List.length_replicate] at hsteps
  exact ⟨c, hsteps, hfinished, written_scan_completes threeRows_files threeRows_ok threeRows_queryOk
    threeRows_initPlan (fun pf hpf hstr => by obtain rfl := List.mem_singleton.mp hpf; cases hstr) nofun rfl rfl
    rfl hsteps⟩

end TaeScanner
