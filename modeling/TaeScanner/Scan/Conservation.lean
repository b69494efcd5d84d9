/-
  TaeScanner.Scan.Conservation

  The ledger of a scan.  In every interleaving the rows of the queued units are
  split between the units no thread has claimed, the blocks the threads hold,
  and the rows offered so far; and a call uses up a budget that no other thread
  refills.
-/

import TaeScanner.Lib.Interleaving
import TaeScanner.Scan.ExecuteSpec

namespace TaeScanner

open Lib

@[simp] theorem rowIds_nil (obj blk : Nat) : rowIds obj blk [] = 0 := rfl

@[simp] theorem rowIds_append (obj blk : Nat) (rows rows' : List Nat) :
    rowIds obj blk (rows ++ rows') = rowIds obj blk rows + rowIds obj blk rows' := by
  simp only [rowIds, List.map_append, Multiset.coe_add]

@[simp] theorem rowIds_card (obj blk : Nat) (rows : List Nat) :
    Multiset.card (rowIds obj blk rows) = rows.length := by
  simp [rowIds]

-- ============================================================================
-- The pending block
-- ============================================================================

namespace TAEScanLocalState
variable {ls : TAEScanLocalState}

theorem remaining_of_not_pending (h : ls.hasPending = false) :
    ls.pendingTotalRows - ls.pendingOffset = 0 := by
  have hle := of_decide_eq_false h
  omega

theorem window_le : ls.window.chunkRows ≤ ls.pendingTotalRows - ls.pendingOffset := Nat.min_le_left _ _

theorem window_le_vectorSize : ls.window.chunkRows ≤ standardVectorSize := Nat.min_le_right _ _

/-- A window of a pending block has rows. -/
theorem window_pos (h : ls.hasPending = true) : 0 < ls.window.chunkRows := by
  have hlt : ls.pendingOffset < ls.pendingTotalRows := of_decide_eq_true h
  have hsize : 0 < standardVectorSize := Nat.succ_pos _
  show 0 < min (ls.pendingTotalRows - ls.pendingOffset) standardVectorSize
  omega

/-- Advancing either clears the block, when the window was its rest, or moves on. -/
theorem advance_cases (ls : TAEScanLocalState) :
    (ls.advance = { ls with pendingCols := [], pendingTotalRows := 0, pendingOffset := 0 } ∧
      ls.window.chunkRows = ls.pendingTotalRows - ls.pendingOffset) ∨
    (ls.advance = { ls with pendingOffset := ls.pendingOffset + ls.window.chunkRows } ∧
      ls.pendingOffset + ls.window.chunkRows < ls.pendingTotalRows) := by
  have hle : ls.window.chunkRows ≤ ls.pendingTotalRows - ls.pendingOffset := window_le
  by_cases hend : ls.pendingTotalRows ≤ ls.pendingOffset + ls.window.chunkRows
  · exact Or.inl ⟨if_pos hend, by omega⟩
  · exact Or.inr ⟨if_neg hend, by omega⟩

@[simp] theorem advance_reader : ls.advance.reader = ls.reader := by
  rcases advance_cases ls with ⟨h, -⟩ | ⟨h, -⟩ <;> rw [h]

end TAEScanLocalState

/-- A label inside a call is none of those outside. -/
theorem Pc.ne_of_busy {pc pc' : Pc} (h : pc.busy = true) (h' : pc'.busy = false) : pc ≠ pc' := by
  rintro rfl
  exact absurd (h.symm.trans h') (by decide)

namespace ScanEnv
variable {env : ScanEnv} {draws : Nat → Bool} {s s' : ScanShared} {th th' : ScanThread} {e : ScanLog}

/-- A thread without pending rows holds none. -/
theorem heldRows_of_not_pending (h : th.locals.hasPending = false) : env.heldRows th = 0 := by
  rw [heldRows, TAEScanLocalState.remaining_of_not_pending h]
  rfl

/-- A window takes its passing rows from what the thread holds. -/
theorem heldRows_advance {pc : Pc} {output : DataChunk} {finished : Bool} :
    env.heldRows th =
      env.heldRows ⟨pc, th.locals.advance, output, finished⟩ +
        rowIds th.locals.pendingObjectIdx th.locals.pendingBlockIdx
          (env.plan.windowRows th.locals.window) := by
  show rowIds _ _ (env.plan.passingFrom _ _ (th.locals.pendingTotalRows - th.locals.pendingOffset)) =
    rowIds _ _ _ + rowIds _ _ (env.plan.passingFrom th.locals.pendingCols th.locals.pendingOffset
      th.locals.window.chunkRows)
  rcases TAEScanLocalState.advance_cases th.locals with ⟨hadv, hrest⟩ | ⟨hadv, hmore⟩
  · rw [hadv, hrest]
    exact (zero_add _).symm
  · have hsplit : th.locals.pendingTotalRows - th.locals.pendingOffset =
        th.locals.window.chunkRows +
          (th.locals.pendingTotalRows - (th.locals.pendingOffset + th.locals.window.chunkRows)) := by
      omega
    rw [hadv, hsplit, ScanPlan.passingFrom_add, rowIds_append, add_comm]

/-- Claiming a unit takes its rows from the pool. -/
theorem poolRows_claim {wu : WorkUnit} (hunit : env.plan.workUnits[s.nextWorkUnit]? = some wu)
    (hnext : s'.nextWorkUnit = s.nextWorkUnit + 1) :
    env.poolRows s = env.unitRows wu + env.poolRows s' := by
  obtain ⟨hlt, hget⟩ := List.getElem?_eq_some_iff.mp hunit
  rw [poolRows, unclaimed, List.drop_eq_getElem_cons hlt, hget, List.map_cons, List.sum_cons, ← hnext]
  rfl

theorem poolRows_exhausted (h : env.plan.workUnits.length ≤ s.nextWorkUnit) : env.poolRows s = 0 := by
  rw [poolRows, unclaimed, List.drop_eq_nil_of_le h]
  rfl

/-- A block just loaded is held as a whole. -/
theorem heldRows_load {wu : WorkUnit} {blk : DecodedBlock} {locals : TAEScanLocalState} {pc : Pc}
    {output : DataChunk} {finished : Bool} (hblock : env.unitBlock wu = some (some blk)) :
    env.heldRows ⟨pc, locals.load wu blk, output, finished⟩ = env.unitRows wu := by
  rw [unitRows, hblock]
  rfl

theorem unitRows_of_no_block {wu : WorkUnit} (h : ∀ blk, env.unitBlock wu ≠ some (some blk)) :
    env.unitRows wu = 0 := by
  rw [unitRows]
  split
  · next blk hblk => exact absurd hblk (h blk)
  · rfl

/-- A claim moves the rows of the unit from the pool to the thread. -/
theorem ledger_claim {wu : WorkUnit} (hunit : env.plan.workUnits[s.nextWorkUnit]? = some wu)
    (hnext : s'.nextWorkUnit = s.nextWorkUnit + 1) (hpending : th.locals.hasPending = false)
    (hheld : env.heldRows th' = env.unitRows wu) :
    env.poolRows s + env.heldRows th = env.poolRows s' + env.heldRows th' + (0 : Multiset RowId) := by
  rw [poolRows_claim hunit hnext, heldRows_of_not_pending hpending, hheld, add_zero, add_zero, add_comm]

-- ============================================================================
-- What every move preserves
-- ============================================================================

theorem Move.threadOk (hok : env.ThreadOk th) (h : env.Move draws s th s' th' e) :
    env.ThreadOk th' := by
  have hadvance : ∀ obj md, th.locals.advance.reader = some (obj, md) →
      env.storage.readMeta obj = some md := by
    rw [TAEScanLocalState.advance_reader]
    exact hok.reader
  cases h with
  | call => exact ⟨fun _ => Or.inl rfl, hok.reader⟩
  | resume => exact ⟨fun _ => Or.inr rfl, hok.reader⟩
  | exhausted => exact ⟨(fun h => by cases h), hok.reader⟩
  | unreadable _ _ _ _ _ hreader => exact ⟨(fun h => by cases h), hreader⟩
  | skipped hpc _ _ _ hmd =>
      refine ⟨fun _ => Or.inl hpc, fun obj md hreader => ?_⟩
      obtain ⟨rfl, rfl⟩ := Prod.mk.inj (Option.some.inj hreader)
      exact hmd
  | loaded _ _ _ _ hreader => exact ⟨fun _ => Or.inr rfl, hreader⟩
  | failed => exact ⟨(fun h => by cases h), hok.reader⟩
  | filtered =>
      refine ⟨fun _ => ?_, hadvance⟩
      show (if _ then _ else _) = _ ∨ (if _ then _ else _) = _
      split
      · exact Or.inr rfl
      · exact Or.inl rfl
  | unsampled => exact ⟨fun _ => Or.inr rfl, hadvance⟩
  | unsampledLast => exact ⟨(fun h => by cases h), hadvance⟩
  | emitted => exact ⟨(fun h => by cases h), hadvance⟩

/-- The ledger: a row leaves the pool for its thread, and its thread for the log. -/
theorem Move.ledger (h : env.Move draws s th s' th' e) :
    env.poolRows s + env.heldRows th = env.poolRows s' + env.heldRows th' + e.1 := by
  cases h with
  | call => exact (add_zero _).symm
  | resume => exact (add_zero _).symm
  | exhausted _ hpending hlast =>
      have hempty : env.poolRows { s with nextWorkUnit := s.nextWorkUnit + 1 } = 0 :=
        poolRows_exhausted (Nat.le_succ_of_le hlast)
      rw [hempty, poolRows_exhausted hlast]
      exact (add_zero _).symm
  | unreadable _ hpending hunit hblock hlocals =>
      refine ledger_claim hunit rfl hpending ?_
      rw [unitRows_of_no_block (by rw [hblock]; simp)]
      exact heldRows_of_not_pending hlocals
  | skipped _ hpending hunit hblock =>
      refine ledger_claim hunit rfl hpending ?_
      rw [unitRows_of_no_block (by rw [hblock]; simp)]
      exact heldRows_of_not_pending hpending
  | loaded _ hpending hunit hblock => exact ledger_claim hunit rfl hpending (heldRows_load hblock)
  | failed => exact (add_zero _).symm
  | filtered _ _ hrows =>
      rw [heldRows_advance, hrows, rowIds_nil, add_zero]
      exact (add_zero _).symm
  | unsampled => rw [heldRows_advance, add_assoc]
  | unsampledLast => rw [heldRows_advance, add_assoc]
  | emitted => rw [heldRows_advance, add_assoc]; rfl

/-- Without sampling, what is offered is emitted. -/
theorem Move.log_eq (hsample : env.plan.doSample = false) (h : env.Move draws s th s' th' e) :
    e.1 = e.2 := by
  cases h with
  | unsampled _ _ hs => exact absurd (hs.symm.trans hsample) (by decide)
  | unsampledLast _ _ hs => exact absurd (hs.symm.trans hsample) (by decide)
  | emitted _ _ _ hall => rw [hall hsample]
  | _ => rfl

/-- Only what is offered is emitted. -/
theorem Move.log_le (h : env.Move draws s th s' th' e) : e.2 ≤ e.1 := by
  cases h with
  | unsampled => exact Multiset.zero_le _
  | unsampledLast => exact Multiset.zero_le _
  | emitted _ _ hsub => exact Multiset.coe_le.mpr (hsub.map _).subperm
  | _ => exact le_refl _

/-- `rows_emitted` counts the emitted rows. -/
theorem Move.rowsEmitted (h : env.Move draws s th s' th' e) :
    s'.rowsEmitted = s.rowsEmitted + Multiset.card e.2 := by
  cases h with
  | emitted => rw [rowIds_card]
  | _ => rfl

theorem Move.nextWorkUnit_le (h : env.Move draws s th s' th' e) : s.nextWorkUnit ≤ s'.nextWorkUnit := by
  cases h <;> first | exact Nat.le_refl _ | exact Nat.le_succ _

@[simp] theorem entryPc_busy : env.entryPc.busy = true := by
  rw [entryPc]
  split <;> rfl

@[simp] theorem emitPc_busy : env.emitPc.busy = true := by
  rw [emitPc]
  split <;> rfl

theorem entryPc_ne_emitPc : env.entryPc ≠ env.emitPc := by
  rw [entryPc, emitPc]
  split <;> decide

theorem ne_emitPc_of_idle {pc : Pc} (h : pc.busy = false) : pc ≠ env.emitPc :=
  (Pc.ne_of_busy emitPc_busy h).symm

/-- A chunk that is filtered out does not end the call. -/
theorem filteredPc_busy (pending : Bool) :
    (if pending = true then env.emitPc else env.entryPc).busy = true := by
  split
  · exact emitPc_busy
  · exact entryPc_busy

/-- A returned chunk has at most `standardVectorSize` rows. -/
def ChunkOk (th : ScanThread) : Prop :=
  ∀ rows, th.pc = .returned rows → rows.length ≤ standardVectorSize ∧ th.output.cardinality = rows.length

theorem Move.chunkOk (h : env.Move draws s th s' th' e) : ChunkOk th' := by
  intro rows hrows
  cases h with
  | call => exact absurd hrows (Pc.ne_of_busy entryPc_busy rfl)
  | resume => exact absurd hrows (Pc.ne_of_busy emitPc_busy rfl)
  | exhausted =>
      obtain rfl := Pc.returned.inj hrows
      exact ⟨Nat.zero_le _, rfl⟩
  | unreadable => cases hrows
  | skipped hpc => exact absurd (hpc.symm.trans hrows) (Pc.ne_of_busy entryPc_busy rfl)
  | loaded => exact absurd hrows (Pc.ne_of_busy emitPc_busy rfl)
  | failed => cases hrows
  | filtered => exact absurd hrows (Pc.ne_of_busy (filteredPc_busy _) rfl)
  | unsampled => exact absurd hrows (Pc.ne_of_busy emitPc_busy rfl)
  | unsampledLast =>
      obtain rfl := Pc.returned.inj hrows
      exact ⟨Nat.zero_le _, rfl⟩
  | emitted _ _ hsub _ _ hcard =>
      obtain rfl := Pc.returned.inj hrows
      rw [List.length_map]
      exact ⟨hsub.length_le.trans (ScanPlan.passingFrom_length_le.trans
        TAEScanLocalState.window_le_vectorSize), hcard⟩

-- ============================================================================
-- The end of a thread's scan
-- ============================================================================

/-- The thread has no pending rows and every unit has been claimed. -/
def Exhausted (env : ScanEnv) (s : ScanShared) (th : ScanThread) : Prop :=
  th.locals.hasPending = false ∧ env.plan.workUnits.length ≤ s.nextWorkUnit

/-- A thread that received an empty chunk has nothing left to do. -/
def FinishedOk (env : ScanEnv) (s : ScanShared) (th : ScanThread) : Prop :=
  th.finished = true ∨ th.pc = .returned [] → env.Exhausted s th

/-- The sampler rejects the passing rows of a block's last window while units
    are left. -/
def SamplerEndsEarly (env : ScanEnv) (draws : Nat → Bool) (s : ScanShared) (th : ScanThread) : Prop :=
  env.plan.doSample = true ∧ th.pc = .emitChunk ∧ env.plan.windowRows th.locals.window ≠ [] ∧
    (∀ k < (env.plan.windowRows th.locals.window).length, draws k = false) ∧
    th.locals.advance.hasPending = false ∧ s.nextWorkUnit < env.plan.workUnits.length

theorem FinishedOk.mono (hok : env.FinishedOk s th) (hle : s.nextWorkUnit ≤ s'.nextWorkUnit) :
    env.FinishedOk s' th := fun h => ⟨(hok h).1, (hok h).2.trans hle⟩

theorem advance_of_not_pending {ls : TAEScanLocalState} (h : ls.hasPending = false) :
    ls.advance.hasPending = false := by
  have hle : ¬ ls.pendingOffset < ls.pendingTotalRows := of_decide_eq_false h
  rcases TAEScanLocalState.advance_cases ls with ⟨hadv, -⟩ | ⟨hadv, hmore⟩
  · rw [hadv]
    rfl
  · omega

/-- A window with rows belongs to a pending block. -/
theorem hasPending_of_windowRows (h : env.plan.windowRows th.locals.window ≠ []) :
    th.locals.hasPending = true := by
  by_contra hpending
  have hzero := TAEScanLocalState.remaining_of_not_pending (Bool.eq_false_iff.mpr hpending)
  have hle : th.locals.window.chunkRows ≤ _ := TAEScanLocalState.window_le
  have hrows : th.locals.window.chunkRows = 0 := by omega
  exact h (by rw [ScanPlan.windowRows, hrows, ScanPlan.passingFrom_zero])

/-- Once empty chunks mean the end, they mean it for good. -/
theorem Move.finishedOk (hok : env.FinishedOk s th)
    (hempty : th'.pc = .returned [] → env.Exhausted s' th') (h : env.Move draws s th s' th' e) :
    env.FinishedOk s' th' := by
  rintro (hfin | hret)
  swap
  · exact hempty hret
  cases h with
  | call => exact hok (Or.inl hfin)
  | resume _ hpending => exact absurd hpending (by rw [(hok (Or.inl hfin)).1]; decide)
  | exhausted _ hpending hlast => exact ⟨hpending, Nat.le_succ_of_le hlast⟩
  | unreadable _ _ _ _ hlocals => exact ⟨hlocals, Nat.le_succ_of_le (hok (Or.inl hfin)).2⟩
  | skipped _ hpending => exact ⟨hpending, Nat.le_succ_of_le (hok (Or.inl hfin)).2⟩
  | loaded _ _ hunit =>
      obtain ⟨hlt, -⟩ := List.getElem?_eq_some_iff.mp hunit
      exact absurd (hok (Or.inl hfin)).2 (Nat.not_le_of_lt hlt)
  | failed => exact hok (Or.inl hfin)
  | filtered => exact ⟨advance_of_not_pending (hok (Or.inl hfin)).1, (hok (Or.inl hfin)).2⟩
  | unsampled _ _ _ hrows =>
      exact absurd (hasPending_of_windowRows hrows) (by rw [(hok (Or.inl hfin)).1]; decide)
  | unsampledLast => exact hempty rfl
  | @emitted output kept =>
      rcases (Bool.or_eq_true _ _).mp hfin with hold | hnil
      · exact ⟨advance_of_not_pending (hok (Or.inl hold)).1, (hok (Or.inl hold)).2⟩
      · obtain rfl : kept = [] := List.isEmpty_iff.mp hnil
        exact hempty rfl

/-- Sampling takes the slow path. -/
theorem slow_of_sample (h : env.plan.doSample = true) : env.fast = false := by
  by_contra hfast
  have hnone := (env.fast_only (Bool.not_eq_false _ ▸ hfast)).2.2
  exact absurd (h.symm.trans hnone) (by decide)

/-- An empty chunk means the end, unless the sampler ends early or the fast path
    meets an empty block. -/
theorem Move.exhausted_of_empty (h : env.Move draws s th s' th' e) (hret : th'.pc = .returned [])
    (hsampler : ¬ env.SamplerEndsEarly draws s th)
    (hfast : env.fast = true → th.pc = env.emitPc → env.plan.windowRows th.locals.window ≠ []) :
    env.Exhausted s' th' := by
  cases h with
  | call => exact absurd hret (Pc.ne_of_busy entryPc_busy rfl)
  | resume => exact absurd hret (Pc.ne_of_busy emitPc_busy rfl)
  | exhausted _ hpending hlast => exact ⟨hpending, Nat.le_succ_of_le hlast⟩
  | unreadable => cases hret
  | skipped hpc => exact absurd (hpc.symm.trans hret) (Pc.ne_of_busy entryPc_busy rfl)
  | loaded => exact absurd hret (Pc.ne_of_busy emitPc_busy rfl)
  | failed => cases hret
  | filtered => exact absurd hret (Pc.ne_of_busy (filteredPc_busy _) rfl)
  | unsampled => exact absurd hret (Pc.ne_of_busy emitPc_busy rfl)
  | unsampledLast hpc _ hsample hrows hdraws hpending =>
      refine ⟨hpending, Nat.not_lt.mp fun hleft => hsampler ?_⟩
      exact ⟨hsample, hpc.trans (pc_slow (slow_of_sample hsample)).2, hrows, hdraws, hpending, hleft⟩
  | @emitted output kept hpc _ _ hall hempty =>
      have hnil : kept = [] := List.map_eq_nil_iff.mp (Pc.returned.inj hret)
      have hf := hempty hnil
      exact absurd ((hall (env.fast_only hf).2.2).symm.trans hnil) (hfast hf hpc)

-- ============================================================================
-- The budget of a call
-- ============================================================================

/-- The steps a unit can cost: its claim, and one for each of its rows at most. -/
def unitCost (env : ScanEnv) (wu : WorkUnit) : Nat :=
  match env.unitBlock wu with
  | some (some blk) => blk.totalRows + 3
  | _ => 3

/-- The cost of the units no thread has claimed. -/
def poolCost (env : ScanEnv) (s : ScanShared) : Nat := ((env.unclaimed s).map env.unitCost).sum

/-- Where a thread stands in the round from one claim to the next. -/
def pcRank (env : ScanEnv) (pc : Pc) (pending : Bool) : Nat :=
  if pc = env.emitPc then 2 else if pc = env.entryPc then (if pending then 3 else 1) else 4

/-- The steps a thread can still make inside its call. -/
def budget (env : ScanEnv) (s : ScanShared) (th : ScanThread) : Nat :=
  env.poolCost s + (th.locals.pendingTotalRows - th.locals.pendingOffset) +
    env.pcRank th.pc th.locals.hasPending

@[simp] theorem pcRank_emitPc (pending : Bool) : env.pcRank env.emitPc pending = 2 := if_pos rfl

@[simp] theorem pcRank_entryPc (pending : Bool) :
    env.pcRank env.entryPc pending = if pending then 3 else 1 := by
  rw [pcRank, if_neg entryPc_ne_emitPc, if_pos rfl]

theorem pcRank_idle {pc : Pc} (h : pc.busy = false) (pending : Bool) : env.pcRank pc pending = 4 := by
  have hne : pc ≠ env.emitPc ∧ pc ≠ env.entryPc := by
    constructor <;> (rintro rfl; simp at h)
  rw [pcRank, if_neg hne.1, if_neg hne.2]

/-- Claiming a unit takes its cost from the pool. -/
theorem poolCost_claim {wu : WorkUnit} (hunit : env.plan.workUnits[s.nextWorkUnit]? = some wu)
    (hnext : s'.nextWorkUnit = s.nextWorkUnit + 1) :
    env.poolCost s = env.unitCost wu + env.poolCost s' := by
  obtain ⟨hlt, hget⟩ := List.getElem?_eq_some_iff.mp hunit
  rw [poolCost, unclaimed, List.drop_eq_getElem_cons hlt, hget, List.map_cons, List.sum_cons, ← hnext]
  rfl

/-- The other threads do not refill the budget. -/
theorem budget_mono (hle : s.nextWorkUnit ≤ s'.nextWorkUnit) : env.budget s' th ≤ env.budget s th := by
  obtain ⟨k, hk⟩ := Nat.exists_eq_add_of_le hle
  have hdrop : env.unclaimed s' = (env.unclaimed s).drop k := by
    rw [unclaimed, unclaimed, List.drop_drop, hk]
  have hsplit : (((env.unclaimed s).take k).map env.unitCost).sum + env.poolCost s' =
      env.poolCost s := by
    rw [poolCost, poolCost, hdrop, ← List.sum_append, ← List.map_append, List.take_append_drop]
  rw [budget, budget]
  omega

/-- What is left of a block shrinks when a window is passed that is not its last. -/
theorem advance_remaining {ls : TAEScanLocalState} (h : ls.advance.hasPending = true) :
    ls.advance.pendingTotalRows - ls.advance.pendingOffset < ls.pendingTotalRows - ls.pendingOffset := by
  have hpending : ls.hasPending = true := by
    by_contra hnot
    rw [advance_of_not_pending (Bool.eq_false_iff.mpr hnot)] at h
    cases h
  have hpos := TAEScanLocalState.window_pos hpending
  rcases TAEScanLocalState.advance_cases ls with ⟨hadv, -⟩ | ⟨hadv, hmore⟩
  · rw [hadv] at h
    cases h
  · rw [hadv]
    show ls.pendingTotalRows - (ls.pendingOffset + ls.window.chunkRows) < _
    omega

/-- A step inside a call uses up some of the budget. -/
theorem Move.budget_lt (hbusy : th'.pc.busy = true) (h : env.Move draws s th s' th' e) :
    env.budget s' th' < env.budget s th := by
  cases h with
  | call hidle =>
      rw [budget, budget, pcRank_idle hidle]
      show _ + _ + env.pcRank env.entryPc th.locals.hasPending < _
      rw [pcRank_entryPc]
      refine Nat.add_lt_add_left ?_ _
      split <;> decide
  | resume hpc hpending =>
      rw [budget, budget, hpc, hpending, pcRank_entryPc]
      show _ + _ + env.pcRank env.emitPc _ < _
      rw [pcRank_emitPc, if_pos rfl]
      exact Nat.lt_succ_self _
  | exhausted => cases hbusy
  | unreadable => cases hbusy
  | @skipped wu md hpc hpending hunit hblock =>
      have hcost : env.unitCost wu = 3 := by rw [unitCost, hblock]
      have hpool : env.poolCost s = env.unitCost wu + env.poolCost
          { s with nextWorkUnit := s.nextWorkUnit + 1, blocksSkipped := s.blocksSkipped + 1 } :=
        poolCost_claim hunit rfl
      rw [budget, budget, hpool, hcost]
      show env.poolCost _ + (th.locals.pendingTotalRows - th.locals.pendingOffset) +
        env.pcRank th.pc th.locals.hasPending < _
      omega
  | @loaded wu blk scanned reader hpc hpending hunit hblock =>
      have hcost : env.unitCost wu = blk.totalRows + 3 := by rw [unitCost, hblock]
      have hpool : env.poolCost s = env.unitCost wu + env.poolCost
          { s with nextWorkUnit := s.nextWorkUnit + 1, blocksScanned := scanned } :=
        poolCost_claim hunit rfl
      rw [budget, budget, hpool, hcost, hpc, hpending, pcRank_entryPc]
      show env.poolCost _ + (blk.totalRows - 0) + env.pcRank env.emitPc _ < _
      rw [pcRank_emitPc, if_neg Bool.false_ne_true]
      omega
  | failed => cases hbusy
  | filtered hpc =>
      rw [budget, budget, hpc, pcRank_emitPc]
      show _ + (th.locals.advance.pendingTotalRows - th.locals.advance.pendingOffset) +
        env.pcRank (if _ then _ else _) th.locals.advance.hasPending < _
      by_cases hpending : th.locals.advance.hasPending = true
      · have hless := advance_remaining hpending
        rw [if_pos hpending, pcRank_emitPc]
        omega
      · have hzero := TAEScanLocalState.remaining_of_not_pending (Bool.eq_false_iff.mpr hpending)
        rw [if_neg hpending, pcRank_entryPc, if_neg hpending]
        omega
  | unsampled hpc _ _ _ _ hpending =>
      have hless := advance_remaining hpending
      rw [budget, budget, hpc, pcRank_emitPc, pcRank_emitPc]
      show _ + (th.locals.advance.pendingTotalRows - th.locals.advance.pendingOffset) + 2 < _
      omega
  | unsampledLast => cases hbusy
  | emitted => cases hbusy

end ScanEnv

end TaeScanner
