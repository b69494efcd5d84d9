/-
  TaeScanner.Scan.Sampling

  Bernoulli sampling inside the scan.  An empty chunk is the end-of-scan signal,
  and `emit_chunk` also returns one when the sampler rejects all passing rows of
  a block's last window.  A run in which that never happens while units are left
  offers every passing row to the sampler exactly once; one such step loses the
  thread's share of what is left.
-/

import TaeScanner.Scan.Parallel

namespace TaeScanner

open Lib

namespace ScanEnv

/-- A step whose draws do not reject all passing rows of a block's last window
    while units are left. -/
def CarefulStep (env : ScanEnv) (s : ScanShared) (th : ScanThread) (s' : ScanShared)
    (th' : ScanThread) (e : ScanLog) : Prop :=
  ∃ draws, env.stepThread s th draws = some ⟨s', th', e⟩ ∧ ¬ env.SamplerEndsEarly draws s th

/-- A sampler that keeps every row is careful. -/
theorem not_samplerEndsEarly (env : ScanEnv) (s : ScanShared) (th : ScanThread) :
    ¬ env.SamplerEndsEarly (fun _ => true) s th := by
  rintro ⟨-, -, hrows, hdraws, -⟩
  have hreject : true = false := hdraws 0 (List.length_pos_iff.mpr hrows)
  cases hreject

section Sampling
variable {env : ScanEnv} {draws : Nat → Bool} {s s' : ScanShared} {th th' : ScanThread} {e : ScanLog}

/-- The one step that loses blocks: it ends the thread's scan with units left. -/
theorem step_of_samplerEndsEarly (hearly : env.SamplerEndsEarly draws s th)
    (hstep : env.stepThread s th draws = some ⟨s', th', e⟩) :
    th'.pc = .faulted ∨ th'.pc = .returned [] ∧ th'.finished = true ∧ ¬ env.Exhausted s' th' := by
  obtain ⟨hsample, hpc, hrows, hdraws, hpending, hleft⟩ := hearly
  have hemit : env.emitChunk s th draws = ⟨s', th', e⟩ := by
    rw [stepThread, hpc] at hstep
    exact Option.some.inj hstep
  rw [emitChunk] at hemit
  cases hwin : env.plan.emitWindow draws th.locals.window th.output with
  | none =>
      simp only [hwin] at hemit
      obtain ⟨-, rfl, -⟩ := ScanStepResult.mk.inj hemit
      exact Or.inl rfl
  | some res =>
      obtain ⟨output, exit⟩ := res
      have hcase := ScanPlan.emitWindow_cases hwin
      cases exit with
      | filtered => exact absurd hcase hrows
      | unsampled =>
          simp only [hwin, hpending, Bool.false_eq_true, if_false] at hemit
          obtain ⟨rfl, rfl, -⟩ := ScanStepResult.mk.inj hemit
          exact Or.inr ⟨rfl, rfl, fun hend => Nat.not_le_of_lt hleft hend.2⟩
      | emitted sample =>
          cases sample with
          | none => exact absurd (hsample.symm.trans hcase.1) (by decide)
          | some sel =>
              -- rows that are all rejected leave no sample
              obtain ⟨-, hsel, hne, -⟩ := hcase
              refine absurd ?_ hne
              rw [hsel]
              refine List.filter_eq_nil_iff.mpr fun k hk => ?_
              rw [hdraws k (List.mem_range.mp hk)]
              exact Bool.false_ne_true

/-- Sampling loses no block: unless a sampler rejects all of a block's last window
    while units are left, an empty chunk is returned only at the end, and every
    row that passes is offered to the sampler once for each time its unit is
    queued. -/
theorem sampling_loses_no_block {ι : Type} [DecidableEq ι] [Fintype ι] [Nonempty ι] {env : ScanEnv}
    {outputs : ι → DataChunk} {c : Config ι ScanShared ScanThread ScanLog}
    (hsample : env.plan.doSample = true) (h : Reachable env.CarefulStep (env.start outputs) c) :
    (∀ i, (c.threads i).pc = .returned [] → env.Exhausted c.shared (c.threads i)) ∧
      ((∀ i, (c.threads i).finished = true) → ∀ id,
        (env.Delivers id → c.log.1.count id = env.plan.workUnits.count id.unit) ∧
          (id ∈ c.log.1 → env.Delivers id ∧ id.unit ∈ env.plan.workUnits)) := by
  have hsub : ∀ s th s' th' e, env.CarefulStep s th s' th' e → env.Step s th s' th' e := by
    rintro s th s' th' e ⟨draws, hstep, -⟩
    exact ⟨draws, hstep⟩
  have hfinished : ∀ i, env.FinishedOk c.shared (c.threads i) := by
    refine reachable_finishedOk hsub ?_ h
    rintro s th s' th' e hok ⟨draws, hstep, hcareful⟩ hret
    refine (move_of_step hok hstep).exhausted_of_empty hret hcareful fun hfast => ?_
    exact absurd (hfast.symm.trans (slow_of_sample hsample)) (by decide)
  refine ⟨fun i hret => hfinished i (Or.inr hret), fun hall id => ?_⟩
  rw [offered_of_finished (h.mono hsub) fun i => hfinished i (Or.inl (hall i))]
  exact ⟨count_queueRows, mem_queueRows.mp⟩

end Sampling

end ScanEnv

-- ============================================================================
-- Two blocks of one row
-- ============================================================================

/-- A sampler that rejects the first block's only row ends the scan, and the row
    of the second block is never offered to it. -/
theorem plainEnv_sampler_ends_early :
    ∃ c, Reachable (plainEnv [1, 1] true).Step ((plainEnv [1, 1] true).start oneOutput) c ∧
      (c.threads ()).pc = .returned [] ∧ ¬ (plainEnv [1, 1] true).Exhausted c.shared (c.threads ()) ∧
      (∀ s' th' e, ¬ (plainEnv [1, 1] true).Step c.shared (c.threads ()) s' th' e) ∧
      (plainEnv [1, 1] true).Delivers ⟨0, 1, 0⟩ ∧ c.log.1.count ⟨0, 1, 0⟩ = 0 := by
  obtain ⟨c, hrun, hpc, hnext, hfin, hlog⟩ : ∃ c,
      ((plainEnv [1, 1] true).start oneOutput).run ((plainEnv [1, 1] true).next fun _ => false)
        (List.replicate 3 ()) = some c ∧ (c.threads ()).pc = .returned [] ∧
      c.shared.nextWorkUnit = 1 ∧ (c.threads ()).finished = true ∧
      c.log.1 = rowIds 0 0 [0] := ⟨_, rfl, rfl, rfl, rfl, rfl⟩
  refine ⟨c, Reachable.run (fun _ _ _ _ _ h => ⟨_, ScanEnv.stepThread_of_next h⟩) .start hrun, hpc,
    ?_, ?_, ?_, ?_⟩
  · rintro ⟨-, hall⟩
    rw [hnext] at hall
    exact absurd hall (by decide)
  · rintro s' th' e ⟨draws, hstep⟩
    rw [ScanEnv.stepThread, hpc, hfin] at hstep
    cases hstep
  · exact ⟨_, rfl, by decide, rfl⟩
  · rw [hlog]
    decide

/-- A sampler that keeps both rows has been offered both. -/
theorem plainEnv_sampled :
    ∃ c, ((plainEnv [1, 1] true).start oneOutput).run ((plainEnv [1, 1] true).next fun _ => true)
        (List.replicate 8 ()) = some c ∧
      (∀ i, (c.threads i).pc = .returned [] →
        (plainEnv [1, 1] true).Exhausted c.shared (c.threads i)) ∧
      ∀ id, (plainEnv [1, 1] true).Delivers id →
        c.log.1.count id = (plainEnv [1, 1] true).plan.workUnits.count id.unit := by
  obtain ⟨c, hrun, hfinished⟩ : ∃ c,
      ((plainEnv [1, 1] true).start oneOutput).run ((plainEnv [1, 1] true).next fun _ => true)
        (List.replicate 8 ()) = some c ∧ (c.threads ()).finished = true := ⟨_, rfl, rfl⟩
  have hreach : Reachable (plainEnv [1, 1] true).CarefulStep
      ((plainEnv [1, 1] true).start oneOutput) c := by
    refine Reachable.run (fun s th _ _ _ h => ?_) .start hrun
    exact ⟨_, ScanEnv.stepThread_of_next h, ScanEnv.not_samplerEndsEarly _ s th⟩
  obtain ⟨hempty, hoffered⟩ := ScanEnv.sampling_loses_no_block rfl hreach
  exact ⟨c, hrun, hempty, fun id => (hoffered (fun _ => hfinished) id).1⟩

end TaeScanner
