/-
  TaeScanner.Scan.Progress

  What DuckDB is told about a scan: the row count the optimiser plans with, the
  percentage of a running scan, and the metrics of a profile.

    * the counters are those of Init and those of the threads: every block of the
      table is counted, still unclaimed, or cut off by a LIMIT;
    * the row count of the manifest bounds what any run emits, and is what a run
      without filters, sampling and LIMIT emits in the end.
-/

import Mathlib.Algebra.Order.Field.Rat
import Mathlib.Tactic.FieldSimp
import Mathlib.Tactic.Linarith
import TaeScanner.Scan.FastPath
import TaeScanner.Scan.Manifest
import TaeScanner.Scan.ManifestRows
import TaeScanner.Scan.Select

namespace TaeScanner

open Lib

-- ============================================================================
-- The callbacks
-- ============================================================================

/-- `NodeStatistics`: an estimate of the rows of a scan, and a bound on them. -/
structure NodeStatistics where
  estimatedCardinality : Nat
  maxCardinality : Nat
  deriving DecidableEq, Repr

/-- `TAEScanCardinality`. -/
def taeScanCardinality (bind : ManifestBindData) : NodeStatistics := ⟨bind.totalRows, bind.totalRows⟩

/-- `blocks_scanned` and `blocks_skipped`, which Init has started to count. -/
def ScanShared.blocksDone (s : ScanShared) (skippedAtInit : Nat) : Nat :=
  s.blocksScanned + (skippedAtInit + s.blocksSkipped)

/-- `TAEScanProgress`, in exact arithmetic. -/
def taeScanProgress (bind : ManifestBindData) (skippedAtInit : Nat) (s : ScanShared) : ℚ :=
  if bind.totalBlocks = 0 then 100 else (s.blocksDone skippedAtInit : ℚ) / bind.totalBlocks * 100

structure OperatorMetrics where
  rowsScanned : Nat
  rowGroupsScanned : Nat
  deriving DecidableEq, Repr

/-- `TAEScanGetMetrics`. -/
def taeScanGetMetrics (s : ScanShared) : OperatorMetrics := ⟨s.rowsEmitted, s.blocksScanned⟩

-- ============================================================================
-- The counters of a run
-- ============================================================================

/-- The blocks the threads have counted. -/
def ScanShared.opened (s : ScanShared) : Nat := s.blocksScanned + s.blocksSkipped

namespace ScanEnv
variable {env : ScanEnv} {draws : Nat → Bool} {s s' : ScanShared} {th : ScanThread}

/-- What a claim adds to the counters: in the slow path one, if the object opens. -/
def opens (env : ScanEnv) (wu : WorkUnit) : Nat :=
  if env.fast = false ∧ (env.storage.readMeta wu.objectIdx).isSome then 1 else 0

/-- What the units that are left will add. -/
def blocksLeft (env : ScanEnv) (s : ScanShared) : Nat := ((env.unclaimed s).map env.opens).sum

/-- A step moves blocks from what is left to what is counted. -/
structure Counted (env : ScanEnv) (s s' : ScanShared) : Prop where
  ledger : s.opened + env.blocksLeft s = s'.opened + env.blocksLeft s'
  mono : s.opened ≤ s'.opened

/-- A step that touches none of the counters. -/
theorem counted_of_eq (hopened : s'.opened = s.opened) (hnext : s'.nextWorkUnit = s.nextWorkUnit) :
    env.Counted s s' := by
  refine ⟨?_, Nat.le_of_eq hopened.symm⟩
  rw [hopened, blocksLeft, blocksLeft, unclaimed, unclaimed, hnext]

/-- A step that claims a unit and counts it. -/
theorem counted_of_claim {wu : WorkUnit} (hunit : env.plan.workUnits[s.nextWorkUnit]? = some wu)
    (hnext : s'.nextWorkUnit = s.nextWorkUnit + 1) (hopened : s'.opened = s.opened + env.opens wu) :
    env.Counted s s' := by
  obtain ⟨hlt, hget⟩ := List.getElem?_eq_some_iff.mp hunit
  have hleft : env.blocksLeft s = env.opens wu + env.blocksLeft s' := by
    rw [blocksLeft, unclaimed, List.drop_eq_getElem_cons hlt, hget, List.map_cons, List.sum_cons, ← hnext]
    rfl
  constructor
  · rw [hleft, hopened, Nat.add_assoc]
  · rw [hopened]
    exact Nat.le_add_right _ _

/-- The claim that finds no unit. -/
theorem counted_finish (hlast : env.plan.workUnits[s.nextWorkUnit]? = none) :
    env.Counted s (finish s th).shared := by
  have hle := List.getElem?_eq_none_iff.mp hlast
  have hnone : env.blocksLeft s = 0 := by rw [blocksLeft, unclaimed, List.drop_eq_nil_of_le hle]; rfl
  have hnone' : env.blocksLeft (finish s th).shared = 0 := by
    rw [blocksLeft, unclaimed]
    show ((env.plan.workUnits.drop (s.nextWorkUnit + 1)).map env.opens).sum = 0
    rw [List.drop_eq_nil_of_le (Nat.le_succ_of_le hle)]
    rfl
  refine ⟨?_, le_refl _⟩
  rw [hnone, hnone']
  rfl

/-- Processing a unit counts its block as scanned or as skipped. -/
theorem openUnit_counts (hok : env.ThreadOk th) (hslow : env.fast = false) (s : ScanShared) (wu : WorkUnit) :
    (env.openUnit s th wu).shared.nextWorkUnit = s.nextWorkUnit ∧
      (env.openUnit s th wu).shared.opened = s.opened + env.opens wu := by
  rw [openUnit, hok.openReader wu, opens]
  cases hmd : env.storage.readMeta wu.objectIdx with
  | none => exact ⟨rfl, by simp⟩
  | some md =>
      rw [if_pos ⟨hslow, rfl⟩]
      have hscanned : ({ s with blocksScanned := s.blocksScanned + 1 } : ScanShared).opened = s.opened + 1 := by
        show s.blocksScanned + 1 + s.blocksSkipped = s.blocksScanned + s.blocksSkipped + 1
        omega
      simp only
      split
      · exact ⟨rfl, rfl⟩
      · split
        · exact ⟨rfl, hscanned⟩
        · split
          · exact ⟨rfl, hscanned⟩
          · exact ⟨rfl, hscanned⟩

theorem nextBlock_counted (hok : env.ThreadOk th) (hslow : env.fast = false) :
    env.Counted s (env.nextBlock s th).shared := by
  rw [nextBlock]
  split
  · exact counted_of_eq rfl rfl
  · split
    · next hlast => exact counted_finish hlast
    · next wu hunit =>
        obtain ⟨hnext, hopened⟩ := openUnit_counts hok hslow { s with nextWorkUnit := s.nextWorkUnit + 1 } wu
        exact counted_of_claim hunit hnext hopened

/-- The fast path claims units and counts nothing. -/
theorem nextBlockFast_counted (hfast : env.fast = true) :
    env.Counted s (env.nextBlockFast s th).shared := by
  have hopens : ∀ wu, env.opens wu = 0 := by
    intro wu
    rw [opens, hfast]
    rfl
  rw [nextBlockFast]
  split
  · exact counted_of_eq rfl rfl
  · split
    · next hlast => exact counted_finish hlast
    · next wu hunit =>
        simp only
        split <;> exact counted_of_claim hunit rfl (by rw [hopens]; rfl)

/-- `emit_chunk` leaves the counters of the blocks alone. -/
theorem emitChunk_counted : env.Counted s (env.emitChunk s th draws).shared := by
  rw [emitChunk]
  simp only
  split
  · exact counted_of_eq rfl rfl
  · exact counted_of_eq rfl rfl
  · split <;> exact counted_of_eq rfl rfl
  · exact counted_of_eq rfl rfl

theorem emitChunkFast_counted : env.Counted s (env.emitChunkFast s th).shared := by
  rw [emitChunkFast]
  split <;> exact counted_of_eq rfl rfl

/-- The step lemma. -/
theorem stepThread_counted (hok : env.ThreadOk th) {r : ScanStepResult}
    (h : env.stepThread s th draws = some r) : env.Counted s r.shared := by
  have hsame : env.Counted s s := counted_of_eq rfl rfl
  rw [stepThread] at h
  split at h
  · split at h
    · obtain rfl := Option.some.inj h
      exact hsame
    · cases h
  · split at h
    · obtain rfl := Option.some.inj h
      exact hsame
    · cases h
  · next hpc =>
      obtain rfl := Option.some.inj h
      exact nextBlock_counted hok (hok.slow (Or.inl hpc))
  · obtain rfl := Option.some.inj h
    exact emitChunk_counted
  · next hpc =>
      obtain rfl := Option.some.inj h
      exact nextBlockFast_counted (hok.fast (Or.inl hpc))
  · obtain rfl := Option.some.inj h
    exact emitChunkFast_counted
  · cases h

section Runs
variable {ι : Type} [DecidableEq ι] {outputs : ι → DataChunk} {c c' : Config ι ScanShared ScanThread ScanLog}

/-- The run lemma: the counters and what is left make up the queue. -/
theorem reachable_opened (h : Reachable env.Step (env.start outputs) c) :
    c.shared.opened + env.blocksLeft c.shared = (env.plan.workUnits.map env.opens).sum := by
  induction h with
  | start => exact Nat.zero_add _
  | next hc hstep ih =>
      obtain ⟨draws, hrun⟩ := hstep
      rw [← ih]
      exact (stepThread_counted (reachable_threadOk hc _) hrun).ledger.symm

/-- A counter never goes back. -/
theorem opened_mono (h : Reachable env.Step (env.start outputs) c) (h' : Reachable env.Step c c') :
    c.shared.opened ≤ c'.shared.opened := by
  induction h' with
  | start => exact le_refl _
  | next hc hstep ih =>
      obtain ⟨draws, hrun⟩ := hstep
      exact ih.trans (stepThread_counted (reachable_threadOk (h.trans hc) _) hrun).mono

end Runs

end ScanEnv

-- ============================================================================
-- The blocks of the table
-- ============================================================================

/-- All blocks that the manifest lists. -/
def listedUnits (bind : TAEScanBindData) : List WorkUnit :=
  bind.objects.zipIdx.flatMap fun p => allBlocks p.2 p.1

section Blocks
variable {bind : TAEScanBindData} {filters : List PushedFilter} {storage : Storage}

theorem map_objects {β : Type} (f : TAEObjectInfo → β) :
    bind.objects.map f = bind.objects.zipIdx.map fun p => f p.1 := by
  conv_lhs => rw [← List.zipIdx_map_fst 0 bind.objects, List.map_map]
  rfl

/-- A sum over the blocks, object by object. -/
theorem sum_listedUnits (f : WorkUnit → Nat) :
    ((listedUnits bind).map f).sum =
      (bind.objects.zipIdx.map fun p => ((List.range p.1.blocks).map fun blk => f ⟨p.2, blk⟩).sum).sum := by
  rw [listedUnits, List.map_flatMap, List.flatMap_def, List.sum_flatten, List.map_map]
  refine congrArg List.sum (List.map_congr_left fun p _ => ?_)
  show ((allBlocks p.2 p.1).map f).sum = _
  rw [allBlocks, List.map_map]
  rfl

theorem length_listedUnits : (listedUnits bind).length = (bind.objects.map (·.blocks)).sum := by
  rw [listedUnits, List.length_flatMap, map_objects]
  refine congrArg List.sum (List.map_congr_left fun p _ => ?_)
  rw [allBlocks, List.length_map, List.length_range]

/-- The visit of an object queues some of its blocks and counts the others. -/
theorem pruneObject_counts {obj : Nat} {info : TAEObjectInfo} {sortSeqnum : Nat}
    (hcount : ∀ md, storage.readMeta obj = some md → md.blockCount = info.blocks) :
    (pruneObject filters sortSeqnum storage obj info).blocksSkipped +
        (pruneObject filters sortSeqnum storage obj info).units.length = info.blocks ∧
      (pruneObject filters sortSeqnum storage obj info).units.Sublist (allBlocks obj info) := by
  have hall : (allBlocks obj info).length = info.blocks := by
    rw [allBlocks, List.length_map, List.length_range]
  rw [pruneObject]
  split
  · exact ⟨rfl, List.nil_sublist _⟩
  · cases hmd : storage.readMeta obj with
    | none => exact ⟨(Nat.zero_add _).trans hall, .refl _⟩
    | some md =>
        have hblocks := hcount md hmd
        have hle := List.length_filter_le (fun blk => blockPassesFilters filters (md.getZoneMap blk))
          (List.range md.blockCount)
        rw [List.length_range] at hle
        constructor
        · show md.blockCount - _ + (List.map _ _).length = _
          rw [List.length_map]
          omega
        · rw [allBlocks, ← hblocks]
          exact List.filter_sublist.map _

/-- Without filters every block is queued. -/
theorem buildWorkUnits_of_no_filters (hnil : filters = []) :
    buildWorkUnits bind filters storage = listedUnits bind := by
  rw [buildWorkUnits, listedUnits]
  refine congrArg (List.flatMap · _) (funext fun p => ?_)
  rw [objectUnits, if_pos hnil]

/-- What Init skips and what it queues are the blocks of the table. -/
theorem blocks_accounted (filters : List PushedFilter) (hcounts : BlockCountsAgree bind storage) :
    (initSkipped bind filters storage).1 + (buildWorkUnits bind filters storage).length =
        (bind.objects.map (·.blocks)).sum ∧
      (buildWorkUnits bind filters storage).Sublist (listedUnits bind) := by
  have hobj : ∀ p ∈ bind.objects.zipIdx, ∀ md, storage.readMeta p.2 = some md → md.blockCount = p.1.blocks :=
    fun p hp md hmd => hcounts p.2 p.1 md (List.mem_zipIdx_iff_getElem?.mp hp) hmd
  by_cases hnil : filters = []
  · rw [buildWorkUnits_of_no_filters hnil, initSkipped, if_pos hnil, length_listedUnits]
    exact ⟨Nat.zero_add _, .refl _⟩
  · have hunits : buildWorkUnits bind filters storage =
        bind.objects.zipIdx.flatMap fun p => (pruneObject filters bind.sortSeqnum storage p.2 p.1).units := by
      rw [buildWorkUnits]
      refine congrArg (List.flatMap · _) (funext fun p => ?_)
      rw [objectUnits, if_neg hnil]
    have hskipped : (initSkipped bind filters storage).1 = (bind.objects.zipIdx.map fun p =>
        (pruneObject filters bind.sortSeqnum storage p.2 p.1).blocksSkipped).sum := by
      rw [initSkipped, if_neg hnil]
      simp only [List.map_map]
      rfl
    constructor
    · rw [← length_listedUnits, hunits, listedUnits, hskipped, List.length_flatMap, List.length_flatMap,
        ← List.sum_map_add]
      refine congrArg List.sum (List.map_congr_left fun p hp => ?_)
      show (pruneObject _ _ _ _ _).blocksSkipped + _ = _
      rw [(pruneObject_counts (hobj p hp)).1, allBlocks, List.length_map, List.length_range]
    · rw [hunits]
      exact List.Sublist.flatMap_right _ fun p hp => (pruneObject_counts (hobj p hp)).2

end Blocks

-- ============================================================================
-- Progress
-- ============================================================================

section Percentage
variable {bind : ManifestBindData} {skippedAtInit : Nat} {s s' : ScanShared}

theorem taeScanProgress_nonneg : 0 ≤ taeScanProgress bind skippedAtInit s := by
  rw [taeScanProgress]
  split
  · norm_num
  · exact mul_nonneg (div_nonneg (Nat.cast_nonneg _) (Nat.cast_nonneg _)) (by norm_num)

theorem taeScanProgress_mono (h : s.blocksDone skippedAtInit ≤ s'.blocksDone skippedAtInit) :
    taeScanProgress bind skippedAtInit s ≤ taeScanProgress bind skippedAtInit s' := by
  rw [taeScanProgress, taeScanProgress]
  split
  · exact le_refl _
  · gcongr

/-- The percentage is 100 when all blocks are counted, and below it before. -/
theorem taeScanProgress_full (h : s.blocksDone skippedAtInit ≤ bind.totalBlocks) :
    taeScanProgress bind skippedAtInit s ≤ 100 ∧ (bind.totalBlocks ≠ 0 →
      (taeScanProgress bind skippedAtInit s = 100 ↔ s.blocksDone skippedAtInit = bind.totalBlocks)) := by
  rw [taeScanProgress]
  by_cases hzero : bind.totalBlocks = 0
  · rw [if_pos hzero]
    exact ⟨le_refl _, fun hne => absurd hzero hne⟩
  · have hpos : (0 : ℚ) < bind.totalBlocks := Nat.cast_pos.mpr (Nat.pos_of_ne_zero hzero)
    have hle : (s.blocksDone skippedAtInit : ℚ) ≤ bind.totalBlocks := Nat.cast_le.mpr h
    rw [if_neg hzero]
    constructor
    · have hone := div_le_one_of_le₀ hle hpos.le
      linarith
    · intro _
      rw [← Nat.cast_inj (R := ℚ)]
      constructor
      · intro hfull
        have hone : (s.blocksDone skippedAtInit : ℚ) / bind.totalBlocks = 1 := by linarith
        exact (div_eq_one_iff_eq hpos.ne').mp hone
      · intro hall
        rw [hall, div_self hpos.ne', one_mul]

end Percentage

/-- What the percentage tells in a state of a run and in a later one. -/
structure ProgressOk (bind : ManifestBindData) (env : ScanEnv) (percent percent' : ℚ) (s : ScanShared) :
    Prop where
  nonneg : 0 ≤ percent
  le_hundred : percent ≤ 100
  /-- It never goes back. -/
  mono : percent ≤ percent'
  /-- It is 100 as soon as every block is skipped or claimed, and never if a LIMIT cut some. -/
  full_iff : env.fast = false → (∀ wu ∈ env.plan.workUnits, (env.storage.readMeta wu.objectIdx).isSome) →
    bind.totalBlocks ≠ 0 → (percent = 100 ↔ env.unclaimed s = [] ∧
      env.plan.workUnits.length =
        (buildWorkUnits bind.toTAEScanBindData env.plan.filters env.storage).length)
  /-- A scan of row counts does not report any. -/
  fast : env.fast = true → bind.totalBlocks ≠ 0 → percent = 0

section Progress
variable {ι : Type} [DecidableEq ι] {std : StdSort} {bind : ManifestBindData} {env : ScanEnv}
  {outputs : ι → DataChunk} {c c' : Config ι ScanShared ScanThread ScanLog}

theorem ScanEnv.sum_opens_le (units : List WorkUnit) : (units.map env.opens).sum ≤ units.length := by
  have hle := List.sum_le_card_nsmul (units.map env.opens) 1 ?_
  · rwa [List.length_map, Nat.nsmul_eq_mul, Nat.mul_one] at hle
  · intro n hn
    obtain ⟨wu, -, rfl⟩ := List.mem_map.mp hn
    rw [opens]
    split <;> decide

theorem ScanEnv.sum_opens_eq (hslow : env.fast = false) {units : List WorkUnit}
    (hmeta : ∀ wu ∈ units, (env.storage.readMeta wu.objectIdx).isSome) :
    (units.map env.opens).sum = units.length := by
  have hone : units.map env.opens = units.map fun _ => 1 :=
    List.map_congr_left fun wu hwu => if_pos ⟨hslow, hmeta wu hwu⟩
  rw [hone, List.map_const', List.sum_replicate, Nat.nsmul_eq_mul, Nat.mul_one]

/-- Every block is counted, left, or lost to a LIMIT or to an object that does not open. -/
theorem blocksDone_add (hcounts : BlockCountsAgree bind.toTAEScanBindData env.storage)
    (hunits : initWorkUnits? std bind.toTAEScanBindData env.plan.filters env.storage = some env.plan.workUnits)
    (h : Reachable env.Step (env.start outputs) c) :
    c.shared.blocksDone (initSkipped bind.toTAEScanBindData env.plan.filters env.storage).1 +
        env.blocksLeft c.shared +
        ((buildWorkUnits bind.toTAEScanBindData env.plan.filters env.storage).length -
          (env.plan.workUnits.map env.opens).sum) = (bind.objects.map (·.blocks)).sum ∧
      env.plan.workUnits.length ≤ (buildWorkUnits bind.toTAEScanBindData env.plan.filters env.storage).length := by
  have hrun := ScanEnv.reachable_opened h
  have htable := (blocks_accounted env.plan.filters hcounts).1
  have hopens : (env.plan.workUnits.map env.opens).sum ≤ _ := ScanEnv.sum_opens_le _
  have hqueue := (initWorkUnits?_queue hunits).1.length_le
  rw [ScanShared.opened] at hrun
  rw [ScanShared.blocksDone]
  omega

/-- **Progress is a percentage.**  It stays between 0 and 100, never goes back, and
    reaches 100 exactly when all blocks of the table have been skipped or claimed. -/
theorem progress_ok (htotal : bind.totalBlocks = (bind.objects.map (·.blocks)).sum)
    (hcounts : BlockCountsAgree bind.toTAEScanBindData env.storage)
    (hunits : initWorkUnits? std bind.toTAEScanBindData env.plan.filters env.storage = some env.plan.workUnits)
    (h : Reachable env.Step (env.start outputs) c) (h' : Reachable env.Step c c') :
    let skipped := (initSkipped bind.toTAEScanBindData env.plan.filters env.storage).1
    ProgressOk bind env (taeScanProgress bind skipped c.shared) (taeScanProgress bind skipped c'.shared)
      c.shared := by
  intro skipped
  obtain ⟨hdone, hqueue⟩ := blocksDone_add hcounts hunits h
  change c.shared.blocksDone skipped + _ + _ = _ at hdone
  rw [← htotal] at hdone
  have hle : c.shared.blocksDone skipped ≤ bind.totalBlocks := by omega
  have hopens : (env.plan.workUnits.map env.opens).sum ≤ _ := ScanEnv.sum_opens_le _
  refine ⟨taeScanProgress_nonneg, (taeScanProgress_full hle).1, ?_, ?_, ?_⟩
  · apply taeScanProgress_mono
    have hmono := ScanEnv.opened_mono h h'
    rw [ScanShared.opened, ScanShared.opened] at hmono
    rw [ScanShared.blocksDone, ScanShared.blocksDone]
    omega
  · intro hslow hmeta hne
    have hqueued := ScanEnv.sum_opens_eq hslow hmeta
    have hleft : env.blocksLeft c.shared = (env.unclaimed c.shared).length :=
      ScanEnv.sum_opens_eq hslow fun wu hwu => hmeta wu (List.mem_of_mem_drop hwu)
    rw [(taeScanProgress_full hle).2 hne, ← List.length_eq_zero_iff, ← hleft]
    omega
  · intro hfast hne
    have hnone : (env.plan.workUnits.map env.opens).sum = 0 := by
      apply List.sum_eq_zero
      intro n hn
      obtain ⟨wu, -, rfl⟩ := List.mem_map.mp hn
      rw [ScanEnv.opens, hfast]
      rfl
    have hcounted := ScanEnv.reachable_opened h
    have hskipped : skipped = 0 := by
      show (initSkipped _ _ _).1 = 0
      rw [initSkipped, if_pos (env.fast_only hfast).2.1]
    have hzero : c.shared.blocksDone skipped = 0 := by
      rw [ScanShared.opened] at hcounted
      rw [ScanShared.blocksDone]
      omega
    rw [taeScanProgress, if_neg hne, hzero, Nat.cast_zero, zero_div, zero_mul]

end Progress

-- ============================================================================
-- Cardinality
-- ============================================================================

/-- The blocks have these many rows, and the manifest counts them for each object. -/
structure RowCountsAgree (bind : TAEScanBindData) (env : ScanEnv) (rows : WorkUnit → Nat) : Prop where
  manifest : ∀ {obj info}, bind.objects[obj]? = some info →
    ((List.range info.blocks).map fun blk => rows ⟨obj, blk⟩).sum = info.rows
  units : ∀ wu ∈ env.plan.workUnits, ∀ blk, env.unitBlock wu = some (some blk) → blk.totalRows = rows wu

section RowCounts
variable {bind : TAEScanBindData} {env : ScanEnv} {rows : WorkUnit → Nat}

/-- In the slow path the counts are those of the table. -/
theorem rowCountsAgree_of_served {t : Table} (hserved : TableServed bind env.storage t)
    (hslow : env.fast = false) (hread : ∀ s ∈ env.plan.readSeqnums, s ∈ bind.allColSeqnums)
    (hlisted : ∀ wu ∈ env.plan.workUnits, Table.HasBlock bind wu.objectIdx wu.blockIdx)
    (hmanifest : ∀ {obj info}, bind.objects[obj]? = some info →
      ((List.range info.blocks).map (t.rows obj)).sum = info.rows) :
    RowCountsAgree bind env fun wu => t.rows wu.objectIdx wu.blockIdx := by
  refine ⟨hmanifest, fun wu hwu blk hblk => ?_⟩
  rw [ScanEnv.unitBlock, hslow, if_neg Bool.false_ne_true, ScanPlan.unitBlock,
    Option.bind_eq_some_iff] at hblk
  obtain ⟨md, hmd, hblk⟩ := hblk
  split at hblk
  · cases hblk
  · obtain ⟨dec, hdec, hsome⟩ := Option.map_eq_some_iff.mp hblk
    obtain rfl := Option.some.inj hsome
    rw [openBlock_served hserved hread (hlisted wu hwu) hmd hdec]

/-- In the fast path they are what the manifest deals out. -/
theorem rowCountsAgree_of_dealt (hfast : env.fast = true) (hobjects : env.plan.objects = bind.objects)
    (hdealt : ∀ info ∈ bind.objects, info.DealsOutRows) :
    RowCountsAgree bind env fun wu =>
      ((bind.objects[wu.objectIdx]?).map (manifestBlockRowCount · wu.blockIdx)).getD 0 := by
  constructor
  · intro obj info hobj
    simp only [hobj, Option.map_some, Option.getD_some]
    exact (hdealt info (List.mem_of_getElem? hobj)).sum_eq
  · intro wu _ blk hblk
    rw [ScanEnv.unitBlock, if_pos hfast, hobjects] at hblk
    obtain ⟨info, hinfo, hsome⟩ := Option.map_eq_some_iff.mp hblk
    obtain rfl := Option.some.inj hsome
    rw [hinfo]
    rfl

/-- A unit delivers at most the rows of its block, and without filters all of them. -/
theorem RowCountsAgree.card_unitRows (hagree : RowCountsAgree bind env rows) {wu : WorkUnit}
    (hwu : wu ∈ env.plan.workUnits) : Multiset.card (env.unitRows wu) ≤ rows wu ∧
      (env.plan.filters = [] → (env.unitBlock wu).isSome → Multiset.card (env.unitRows wu) = rows wu) := by
  rw [ScanEnv.unitRows]
  cases hblock : env.unitBlock wu with
  | none => exact ⟨Nat.zero_le _, fun _ h => absurd h Bool.false_ne_true⟩
  | some found =>
      cases found with
      | none =>
          refine ⟨Nat.zero_le _, fun hnil _ => ?_⟩
          -- no filter, so no zone map is rejected
          exfalso
          rw [ScanEnv.unitBlock] at hblock
          split at hblock
          · obtain ⟨info, -, hsome⟩ := Option.map_eq_some_iff.mp hblock
            cases hsome
          · rw [ScanPlan.unitBlock, Option.bind_eq_some_iff] at hblock
            obtain ⟨md, -, hfound⟩ := hblock
            rw [ScanPlan.skipsBlock, hnil, List.isEmpty_nil, Bool.not_true, Bool.false_and,
              if_neg Bool.false_ne_true] at hfound
            obtain ⟨dec, -, hsome⟩ := Option.map_eq_some_iff.mp hfound
            cases hsome
      | some blk =>
          show Multiset.card (rowIds _ _ _) ≤ _ ∧ (_ → _ → Multiset.card (rowIds _ _ _) = _)
          rw [rowIds_card, ← hagree.units wu hwu blk hblock]
          refine ⟨ScanPlan.passingFrom_length_le, fun hnil _ => ?_⟩
          rw [ScanPlan.passingFrom_of_no_filters hnil, List.length_range']

theorem card_queueRows (env : ScanEnv) :
    Multiset.card env.queueRows = (env.plan.workUnits.map fun wu => Multiset.card (env.unitRows wu)).sum := by
  rw [ScanEnv.queueRows]
  have hcard := map_list_sum (Multiset.cardHom (α := RowId)) (env.plan.workUnits.map env.unitRows)
  rwa [List.map_map] at hcard

/-- The blocks that the manifest lists have the rows that it counts. -/
theorem RowCountsAgree.sum_listedUnits (hagree : RowCountsAgree bind env rows) :
    ((listedUnits bind).map rows).sum = (bind.objects.map (·.rows)).sum := by
  rw [TaeScanner.sum_listedUnits, map_objects]
  refine congrArg List.sum (List.map_congr_left fun p hp => ?_)
  exact hagree.manifest (List.mem_zipIdx_iff_getElem?.mp hp)

end RowCounts

section Cardinality
variable {ι : Type} [DecidableEq ι] [Fintype ι] {std : StdSort} {bind : ManifestBindData} {env : ScanEnv}
  {rows : WorkUnit → Nat} {outputs : ι → DataChunk} {c : Config ι ScanShared ScanThread ScanLog}

/-- The queue has no more rows than the manifest counts. -/
theorem card_queueRows_le (htotal : bind.totalRows = (bind.objects.map (·.rows)).sum)
    (hcounts : BlockCountsAgree bind.toTAEScanBindData env.storage)
    (hunits : initWorkUnits? std bind.toTAEScanBindData env.plan.filters env.storage = some env.plan.workUnits)
    (hagree : RowCountsAgree bind.toTAEScanBindData env rows) :
    Multiset.card env.queueRows ≤ bind.totalRows := by
  obtain ⟨kept, hkept, hsub⟩ := (initWorkUnits?_queue hunits).1
  have hlisted := (blocks_accounted env.plan.filters hcounts).2
  rw [htotal, ← hagree.sum_listedUnits, card_queueRows]
  calc (env.plan.workUnits.map fun wu => Multiset.card (env.unitRows wu)).sum
      ≤ (env.plan.workUnits.map rows).sum :=
        List.sum_le_sum fun wu hwu => (hagree.card_unitRows hwu).1
    _ = (kept.map rows).sum := ((hkept.map rows).sum_eq).symm
    _ ≤ ((listedUnits bind.toTAEScanBindData).map rows).sum :=
        ((hsub.trans hlisted).map rows).sum_le_sum fun _ _ => Nat.zero_le _

/-- Without filters and LIMIT it has as many. -/
theorem card_queueRows_total (htotal : bind.totalRows = (bind.objects.map (·.rows)).sum)
    (hunits : initWorkUnits? std bind.toTAEScanBindData env.plan.filters env.storage = some env.plan.workUnits)
    (hagree : RowCountsAgree bind.toTAEScanBindData env rows) (hnil : env.plan.filters = [])
    (hunlimited : bind.Unlimited) (hread : ∀ wu ∈ env.plan.workUnits, (env.unitBlock wu).isSome) :
    Multiset.card env.queueRows = bind.totalRows := by
  have hall : (env.plan.workUnits.map fun wu => Multiset.card (env.unitRows wu)) =
      env.plan.workUnits.map rows :=
    List.map_congr_left fun wu hwu => (hagree.card_unitRows hwu).2 hnil (hread wu hwu)
  have hqueue := (initWorkUnits?_queue hunits).2 hunlimited
  rw [buildWorkUnits_of_no_filters hnil] at hqueue
  rw [card_queueRows, hall, htotal, ← hagree.sum_listedUnits]
  exact (hqueue.map rows).sum_eq

/-- **The manifest bounds the scan.**  No run emits more rows than the optimiser was
    told, and a complete run without filters, sampling and LIMIT emits as many. -/
theorem cardinality_bounds_scan [Nonempty ι] {t : Table}
    (htotal : bind.totalRows = (bind.objects.map (·.rows)).sum)
    (hserved : TableServed bind.toTAEScanBindData env.storage t)
    (hmanifest : ∀ {obj info}, bind.objects[obj]? = some info →
      ((List.range info.blocks).map (t.rows obj)).sum = info.rows)
    (hunits : initWorkUnits? std bind.toTAEScanBindData env.plan.filters env.storage = some env.plan.workUnits)
    (hread : ∀ s ∈ env.plan.readSeqnums, s ∈ bind.allColSeqnums) (hslow : env.fast = false)
    (h : Reachable env.Step (env.start outputs) c) :
    (taeScanGetMetrics c.shared).rowsScanned ≤ (taeScanCardinality bind).maxCardinality ∧
      (env.plan.filters = [] → env.plan.doSample = false → bind.Unlimited →
        (∀ wu ∈ env.plan.workUnits, (env.unitBlock wu).isSome) → (∀ i, (c.threads i).finished = true) →
          (taeScanGetMetrics c.shared).rowsScanned = (taeScanCardinality bind).estimatedCardinality) := by
  show c.shared.rowsEmitted ≤ bind.totalRows ∧ (_ → _ → _ → _ → _ → c.shared.rowsEmitted = bind.totalRows)
  have hagree := rowCountsAgree_of_served hserved hslow hread
    (fun wu hwu => hasBlock_of_mem_buildWorkUnits hserved.zoneMaps
      ((initWorkUnits?_queue hunits).1.subset hwu)) hmanifest
  rw [ScanEnv.reachable_rowsEmitted h]
  constructor
  · obtain ⟨hemitted, hoffered⟩ := ScanEnv.reachable_emitted_le h
    exact (Multiset.card_le_card (hemitted.trans hoffered)).trans
      (card_queueRows_le htotal hserved.zoneMaps.block_counts hunits hagree)
  · intro hnil hsample hunlimited hblocks hdone
    have hfinished := ScanEnv.slow_finishedOk hslow hsample h
    rw [← ScanEnv.reachable_log_eq hsample h,
      ScanEnv.offered_of_finished h fun i => hfinished i (Or.inl (hdone i))]
    exact card_queueRows_total htotal hunits hagree hnil hunlimited hblocks

/-- **`count(*)` counts the table.**  A complete run of the fast path emits as many
    rows as the manifest has, when the blocks it deals them out to are not empty. -/
theorem count_star_total [Nonempty ι] (htotal : bind.totalRows = (bind.objects.map (·.rows)).sum)
    (hobjects : env.plan.objects = bind.objects) (hdealt : ∀ info ∈ bind.objects, info.DealsOutRows)
    (hunits : initWorkUnits? std bind.toTAEScanBindData env.plan.filters env.storage = some env.plan.workUnits)
    (hunlimited : bind.Unlimited) (hfast : env.fast = true)
    (hne : ∀ info ∈ bind.objects, ∀ blk < info.blocks, 0 < manifestBlockRowCount info blk)
    (h : Reachable env.Step (env.start outputs) c) (hdone : ∀ i, (c.threads i).finished = true) :
    (taeScanGetMetrics c.shared).rowsScanned = (taeScanCardinality bind).estimatedCardinality := by
  show c.shared.rowsEmitted = bind.totalRows
  obtain ⟨-, hnil, hsample⟩ := env.fast_only hfast
  have hfound : ∀ wu ∈ env.plan.workUnits, ∃ info ∈ bind.objects, wu.blockIdx < info.blocks ∧
      env.unitBlock wu = some (some ⟨[], manifestBlockRowCount info wu.blockIdx⟩) := by
    intro wu hwu
    have hmem := (initWorkUnits?_queue hunits).1.subset hwu
    rw [buildWorkUnits_of_no_filters hnil] at hmem
    obtain ⟨⟨info, obj⟩, hobj, hunit⟩ := List.mem_flatMap.mp hmem
    obtain ⟨rfl, hlt⟩ := mem_allBlocks.mp hunit
    have hget : bind.objects[wu.objectIdx]? = some info := List.mem_zipIdx_iff_getElem?.mp hobj
    refine ⟨info, List.mem_of_getElem? hget, hlt, ?_⟩
    rw [ScanEnv.unitBlock, if_pos hfast, hobjects, hget, Option.map_some]
  have hrows : env.NoEmptyBlock := by
    intro wu hwu blk hblk
    obtain ⟨info, hinfo, hlt, hblock⟩ := hfound wu hwu
    obtain rfl := Option.some.inj (Option.some.inj (hblk.symm.trans hblock))
    exact hne info hinfo _ hlt
  have hblocks : ∀ wu ∈ env.plan.workUnits, (env.unitBlock wu).isSome := by
    intro wu hwu
    obtain ⟨info, -, -, hblock⟩ := hfound wu hwu
    rw [hblock]
    rfl
  rw [ScanEnv.reachable_rowsEmitted h, ← ScanEnv.reachable_log_eq hsample h,
    ScanEnv.offered_of_fast_run hfast hrows h hdone]
  exact card_queueRows_total htotal hunits (rowCountsAgree_of_dealt hfast hobjects hdealt) hnil hunlimited hblocks

end Cardinality

-- ============================================================================
-- Two blocks
-- ============================================================================

/-- The manifest of `plainStorage`. -/
def plainBind (blockRows : List Nat) : ManifestBindData :=
  { allColTypes := [.integer], allColMoOids := [22], allColSeqnums := [0],
    objects := [{ filePath := "a.tae", rows := blockRows.sum, blocks := blockRows.length }],
    totalRows := blockRows.sum, totalBlocks := blockRows.length }

theorem plainBind_object {blockRows : List Nat} {obj : Nat} {info : TAEObjectInfo}
    (h : (plainBind blockRows).objects[obj]? = some info) :
    obj = 0 ∧ info = { filePath := "a.tae", rows := blockRows.sum, blocks := blockRows.length } := by
  cases obj with
  | zero => exact ⟨rfl, (Option.some.inj h).symm⟩
  | succ n => cases h

theorem plainBind_blockCounts (blockRows : List Nat) :
    BlockCountsAgree (plainBind blockRows).toTAEScanBindData (plainStorage blockRows) := by
  intro obj info md hobj hmd
  obtain ⟨-, rfl⟩ := plainBind_object hobj
  obtain rfl := Option.some.inj hmd
  exact List.length_map _

/-- Without filters and an order all blocks are queued. -/
theorem plainBind_units (blockRows : List Nat) (storage : Storage) :
    initWorkUnits? insertionStdSort (plainBind blockRows).toTAEScanBindData [] storage =
      some ((List.range blockRows.length).map (WorkUnit.mk 0)) := by
  show some (buildWorkUnits _ [] storage) = _
  rw [buildWorkUnits_of_no_filters rfl, listedUnits]
  exact congrArg some (List.append_nil _)

theorem plainBind_half {s : ScanShared} (h : s.blocksDone 0 = 1) :
    taeScanProgress (plainBind [2, 1]) 0 s = 50 := by
  have htotal : (plainBind [2, 1]).totalBlocks = 2 := rfl
  rw [taeScanProgress, htotal, h]
  norm_num

/-- One of two blocks is claimed. -/
theorem progress_half :
    ∃ c c', ((plainEnv [2, 1] false).start oneOutput).run ((plainEnv [2, 1] false).next fun _ => true)
        (List.replicate 2 ()) = some c ∧
      c.run ((plainEnv [2, 1] false).next fun _ => true) (List.replicate 6 ()) = some c' ∧
      taeScanProgress (plainBind [2, 1]) 0 c.shared = 50 ∧
      ProgressOk (plainBind [2, 1]) (plainEnv [2, 1] false) (taeScanProgress (plainBind [2, 1]) 0 c.shared)
        (taeScanProgress (plainBind [2, 1]) 0 c'.shared) c.shared := by
  obtain ⟨c, c', hrun, hrun', hhalf⟩ : ∃ c c', ((plainEnv [2, 1] false).start oneOutput).run
      ((plainEnv [2, 1] false).next fun _ => true) (List.replicate 2 ()) = some c ∧
        c.run ((plainEnv [2, 1] false).next fun _ => true) (List.replicate 6 ()) = some c' ∧
        c.shared.blocksDone 0 = 1 := ⟨_, _, rfl, rfl, rfl⟩
  have hreach : Reachable (plainEnv [2, 1] false).Step ((plainEnv [2, 1] false).start oneOutput) c :=
    Reachable.run (fun _ _ _ _ _ h => ⟨_, ScanEnv.stepThread_of_next h⟩) .start hrun
  have hreach' : Reachable (plainEnv [2, 1] false).Step c c' :=
    Reachable.run (fun _ _ _ _ _ h => ⟨_, ScanEnv.stepThread_of_next h⟩) .start hrun'
  exact ⟨c, c', hrun, hrun', plainBind_half hhalf,
    progress_ok rfl (plainBind_blockCounts [2, 1]) (plainBind_units [2, 1] _) hreach hreach'⟩

/-- The blocks of `plainStorage`, under one seqnum. -/
def plainTable (blockRows : List Nat) : Table where
  rows := fun _ blk => blockRows[blk]?.getD 0
  content := fun _ blk _ =>
    { type := { oid := 22 }, rowCount := blockRows[blk]?.getD 0,
      data := List.replicate (4 * blockRows[blk]?.getD 0) 0 }
  type := fun _ => { oid := 22 }

theorem plainTable_served (blockRows : List Nat) :
    TableServed (plainBind blockRows).toTAEScanBindData (plainStorage blockRows) (plainTable blockRows) where
  readMeta := by
    intro obj info md hobj hmd blk hblk
    obtain rfl := Option.some.inj hmd
    rw [ObjectMeta.blockRowCount, List.getElem?_map]
    show _ = blockRows[blk]?.getD 0
    cases blockRows[blk]? <;> rfl
  readBlock := by
    intro obj blk seqnums cols hblock _ h
    obtain ⟨n, hn, rfl⟩ := Option.map_eq_some_iff.mp h
    refine List.map_congr_left fun _ _ => ?_
    simp only [plainTable, hn, Option.getD_some]
  rowCount _ _ := rfl
  type _ _ _ := rfl
  zoneMaps := by
    refine ⟨plainBind_blockCounts blockRows, fun {obj blk seqnum md zm} hmd hzm _ => ?_,
      fun {obj info zm blk} hobj hzm _ _ => ?_⟩
    · -- no block has a zone map
      obtain rfl := Option.some.inj hmd
      rw [ObjectMeta.getZoneMap, List.getElem?_map] at hzm
      cases hblk : blockRows[blk]? with
      | none => rw [hblk] at hzm; cases hzm
      | some n => rw [hblk] at hzm; cases hzm
    · obtain ⟨-, rfl⟩ := plainBind_object hobj
      cases hzm

/-- All three rows of the two blocks are emitted. -/
theorem cardinality_three :
    ∃ c, ((plainEnv [2, 1] false).start oneOutput).run ((plainEnv [2, 1] false).next fun _ => true)
        (List.replicate 8 ()) = some c ∧
      (taeScanGetMetrics c.shared).rowsScanned ≤ (taeScanCardinality (plainBind [2, 1])).maxCardinality ∧
      (taeScanGetMetrics c.shared).rowsScanned =
        (taeScanCardinality (plainBind [2, 1])).estimatedCardinality := by
  obtain ⟨c, hrun, hfinished⟩ : ∃ c,
      ((plainEnv [2, 1] false).start oneOutput).run ((plainEnv [2, 1] false).next fun _ => true)
        (List.replicate 8 ()) = some c ∧ (c.threads ()).finished = true := ⟨_, rfl, rfl⟩
  have hreach : Reachable (plainEnv [2, 1] false).Step ((plainEnv [2, 1] false).start oneOutput) c :=
    Reachable.run (fun _ _ _ _ _ h => ⟨_, ScanEnv.stepThread_of_next h⟩) .start hrun
  have hmanifest : ∀ {obj info}, (plainBind [2, 1]).objects[obj]? = some info →
      ((List.range info.blocks).map ((plainTable [2, 1]).rows obj)).sum = info.rows := by
    intro obj info hobj
    obtain ⟨-, rfl⟩ := plainBind_object hobj
    rfl
  have hread : ∀ s ∈ (plainEnv [2, 1] false).plan.readSeqnums, s ∈ (plainBind [2, 1]).allColSeqnums :=
    fun s hs => hs
  obtain ⟨hle, heq⟩ := cardinality_bounds_scan rfl (plainTable_served [2, 1]) hmanifest
    (plainBind_units [2, 1] _) hread rfl hreach
  refine ⟨c, hrun, hle, heq rfl rfl nofun ?_ fun _ => hfinished⟩
  intro wu hwu
  have hwu' : wu = ⟨0, 0⟩ ∨ wu = ⟨0, 1⟩ := by
    simpa [plainEnv, plainPlan, List.range_succ] using hwu
  rcases hwu' with rfl | rfl
  · rfl
  · rfl

/-- Three rows that the fast path spreads as 1 and 2. -/
theorem count_star_three :
    ∃ c, ((blockIdFast [2, 1]).start oneOutput).run ((blockIdFast [2, 1]).next fun _ => true)
        (List.replicate 8 ()) = some c ∧
      (taeScanGetMetrics c.shared).rowsScanned =
        (taeScanCardinality (plainBind [2, 1])).estimatedCardinality := by
  obtain ⟨c, hrun, hfinished⟩ : ∃ c,
      ((blockIdFast [2, 1]).start oneOutput).run ((blockIdFast [2, 1]).next fun _ => true)
        (List.replicate 8 ()) = some c ∧ (c.threads ()).finished = true := ⟨_, rfl, rfl⟩
  have hreach : Reachable (blockIdFast [2, 1]).Step ((blockIdFast [2, 1]).start oneOutput) c :=
    Reachable.run (fun _ _ _ _ _ h => ⟨_, ScanEnv.stepThread_of_next h⟩) .start hrun
  have hobject : ∀ info ∈ (plainBind [2, 1]).objects,
      info = { filePath := "a.tae", rows := 3, blocks := 2 } := fun info hinfo => List.mem_singleton.mp hinfo
  refine ⟨c, hrun, count_star_total rfl rfl ?_ (plainBind_units [2, 1] _) nofun rfl ?_ hreach fun _ => hfinished⟩
  · intro info hinfo
    rw [hobject info hinfo]
    exact ⟨by decide, by decide, by decide⟩
  · intro info hinfo
    rw [hobject info hinfo]
    decide

end TaeScanner
