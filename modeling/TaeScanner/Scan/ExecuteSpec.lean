/-
  TaeScanner.Scan.ExecuteSpec

  What a step of a thread can do.  `Move` lists the cases once, in terms of the
  rows of the queued blocks; the invariants of the scan are read off it.
-/

import TaeScanner.Filter.RowFilterSpec
import TaeScanner.Scan.Execute

namespace TaeScanner

open Lib

-- ============================================================================
-- One window
-- ============================================================================

/-- The selection of `ApplyRowFilters` is the passing rows, relative to the window. -/
theorem passingRows_eq {plan : ScanPlan} {cols : List DecodedColumn} {n off : Nat} {sel : List Nat}
    (h : passingRows plan.filters cols n off = some sel) :
    sel.map (off + ·) = plan.passingFrom cols off n := by
  obtain ⟨-, rfl⟩ := filterM_eq_some.mp h
  rw [ScanPlan.passingFrom, List.range'_eq_map_range, List.filter_map]
  refine congrArg (List.map _) (List.filter_congr fun row _ => ?_)
  show decide (_ = some true) = (_ == some true)
  rw [beq_eq_decide]

/-- `ApplyRowFilters` counts the passing rows. -/
theorem applyRowFilters_count {plan : ScanPlan} {cols : List DecodedColumn} {out out' : DataChunk}
    {n off k : Nat} (hcard : out.cardinality = n)
    (h : applyRowFilters plan.filters cols out n off = some (out', k)) :
    k = (plan.passingFrom cols off n).length ∧ out'.cardinality = k := by
  obtain ⟨sel, hsel⟩ : ∃ sel, passingRows plan.filters cols n off = some sel := by
    by_cases hnil : plan.filters = []
    · rw [hnil]
      exact ⟨(List.range n).filter fun _ => true, filterM_of_some fun _ _ => rfl⟩
    · rw [applyRowFilters, if_neg hnil] at h
      obtain ⟨sel, hsel, -⟩ := Option.map_eq_some_iff.mp h
      exact ⟨sel, hsel⟩
  obtain ⟨out₂, happly, hrows⟩ := applyRowFilters_of_passing hcard hsel
  obtain ⟨rfl, rfl⟩ := Prod.mk.inj (Option.some.inj (happly.symm.trans h))
  refine ⟨by rw [← passingRows_eq hsel, List.length_map], ?_⟩
  have hlen := congrArg List.length hrows
  rwa [DataChunk.rows, List.length_map, List.length_range, List.length_map] at hlen

namespace ScanPlan
variable {plan : ScanPlan} {draws : Nat → Bool} {w : ChunkWindow} {output out : DataChunk}

theorem fillOutput_cardinality (h : plan.fillOutput w output = some out) :
    out.cardinality = w.chunkRows := by
  obtain ⟨columns, -, rfl⟩ := Option.map_eq_some_iff.mp h
  rfl

/-- How a window can end: which rows passed, and what the sampler did to them. -/
theorem emitWindow_cases {exit : ChunkExit} (h : plan.emitWindow draws w output = some (out, exit)) :
    match exit with
    | .filtered => plan.windowRows w = []
    | .unsampled => plan.doSample = true ∧ plan.windowRows w ≠ [] ∧
        ∀ k < (plan.windowRows w).length, draws k = false
    | .emitted none => plan.doSample = false ∧ plan.windowRows w ≠ [] ∧
        out.cardinality = (plan.windowRows w).length
    | .emitted (some sel) => plan.doSample = true ∧
        sel = (List.range (plan.windowRows w).length).filter draws ∧ sel ≠ [] ∧
        out.cardinality = sel.length := by
  obtain ⟨filled, hfill, h⟩ := Option.bind_eq_some_iff.mp h
  obtain ⟨⟨out₁, k⟩, happly, hexit⟩ := Option.map_eq_some_iff.mp h
  obtain ⟨hk, hcard⟩ := applyRowFilters_count (fillOutput_cardinality hfill) happly
  change k = (plan.windowRows w).length at hk
  simp only at hexit
  split at hexit
  · next hzero =>
      obtain ⟨-, rfl⟩ := Prod.mk.inj hexit
      exact List.length_eq_zero_iff.mp (hk.symm.trans hzero)
  next hpos =>
  have hne : plan.windowRows w ≠ [] := fun hnil => hpos (by rw [hk, hnil]; rfl)
  split at hexit
  · next hsample =>
      split at hexit
      · next hsel =>
          obtain ⟨-, rfl⟩ := Prod.mk.inj hexit
          refine ⟨hsample, hne, fun i hi => ?_⟩
          have hnot := List.filter_eq_nil_iff.mp hsel i (List.mem_range.mpr (hk ▸ hi))
          exact Bool.eq_false_iff.mpr hnot
      · next hsel =>
          obtain ⟨rfl, rfl⟩ := Prod.mk.inj hexit
          refine ⟨hsample, by rw [hk], hsel, rfl⟩
  · next hsample =>
      obtain ⟨rfl, rfl⟩ := Prod.mk.inj hexit
      exact ⟨Bool.eq_false_iff.mpr hsample, hne, hcard.trans hk⟩

/-- Without filters and sampling, a window with rows is returned as it is filled. -/
theorem emitWindow_of_no_filters (hfilters : plan.filters = []) (hsample : plan.doSample = false)
    (hfill : plan.fillOutput w output = some out) (hrows : 0 < w.chunkRows) :
    plan.emitWindow draws w output = some (out, .emitted none) := by
  rw [emitWindow, hfill, Option.bind_some, applyRowFilters, if_pos hfilters, Option.map_some]
  simp only [if_neg (Nat.ne_of_gt hrows), hsample, Bool.false_eq_true, if_false]

/-- Looking up positions inside a list finds as many elements. -/
theorem filterMap_getElem?_length {α : Type} {l : List α} {ks : List Nat} (h : ∀ k ∈ ks, k < l.length) :
    (ks.filterMap fun k => l[k]?).length = ks.length := by
  induction ks with
  | nil => rfl
  | cons k ks ih =>
      have hk : k < l.length := h k List.mem_cons_self
      rw [List.filterMap_cons_some (List.getElem?_eq_getElem hk), List.length_cons, List.length_cons,
        ih fun j hj => h j (List.mem_cons_of_mem k hj)]

theorem filterMap_getElem?_getElem? {α : Type} {l : List α} {ks : List Nat} (h : ∀ k ∈ ks, k < l.length)
    (p : Nat) : (ks.filterMap fun k => l[k]?)[p]? = (ks[p]?).bind fun k => l[k]? := by
  induction ks generalizing p with
  | nil => rfl
  | cons k ks ih =>
      have hk : k < l.length := h k List.mem_cons_self
      have hhead : (fun k => l[k]?) k = some l[k] := List.getElem?_eq_getElem hk
      rw [List.filterMap_cons_some hhead]
      cases p with
      | zero => exact hhead.symm
      | succ p => exact ih (fun j hj => h j (List.mem_cons_of_mem k hj)) p

theorem filterMap_getElem?_range {α : Type} (l : List α) :
    ((List.range l.length).filterMap fun k => l[k]?) = l := by
  induction l with
  | nil => rfl
  | cons x xs ih =>
      have hhead : (fun k => (x :: xs)[k]?) 0 = some x := rfl
      rw [List.length_cons, List.range_succ_eq_map, List.filterMap_cons_some hhead, List.filterMap_map]
      exact congrArg (x :: ·) ih

/-- A sample returns one row for each position, in the order of the rows that pass. -/
theorem keptRows_sample {sel : List Nat}
    (h : sel = (List.range (plan.windowRows w).length).filter draws) :
    (plan.keptRows w (some sel)).Sublist (plan.windowRows w) ∧
      (plan.keptRows w (some sel)).length = sel.length := by
  subst h
  constructor
  · have hfilter : ((List.range (plan.windowRows w).length).filter draws).Sublist
        (List.range (plan.windowRows w).length) := List.filter_sublist
    have hsub := hfilter.filterMap fun k => (plan.windowRows w)[k]?
    rwa [filterMap_getElem?_range] at hsub
  · refine filterMap_getElem?_length fun k hk => ?_
    exact List.mem_range.mp (List.mem_filter.mp hk).1

end ScanPlan

-- ============================================================================
-- The rows of the queue
-- ============================================================================

namespace ScanEnv
variable (env : ScanEnv)

/-- What a unit holds: in the fast path, as many rows as the manifest says. -/
def unitBlock (wu : WorkUnit) : Option (Option DecodedBlock) :=
  if env.fast then
    (env.plan.objects[wu.objectIdx]?).map fun info => some ⟨[], manifestBlockRowCount info wu.blockIdx⟩
  else env.plan.unitBlock env.storage wu

/-- The rows of a unit that the scan has to deliver. -/
def unitRows (wu : WorkUnit) : Multiset RowId :=
  match env.unitBlock wu with
  | some (some blk) =>
      rowIds wu.objectIdx wu.blockIdx (env.plan.passingFrom blk.cols 0 blk.totalRows)
  | _ => 0

/-- The units no thread has claimed. -/
def unclaimed (s : ScanShared) : List WorkUnit := env.plan.workUnits.drop s.nextWorkUnit

/-- The rows of the units no thread has claimed. -/
def poolRows (s : ScanShared) : Multiset RowId := ((env.unclaimed s).map env.unitRows).sum

/-- The rows a thread has claimed and not yet emitted. -/
def heldRows (th : ScanThread) : Multiset RowId :=
  rowIds th.locals.pendingObjectIdx th.locals.pendingBlockIdx
    (env.plan.passingFrom th.locals.pendingCols th.locals.pendingOffset
      (th.locals.pendingTotalRows - th.locals.pendingOffset))

/-- The label a call starts at, and the one that emits. -/
def entryPc : Pc := if env.fast then .nextBlockFast else .nextBlock
def emitPc : Pc := if env.fast then .emitChunkFast else .emitChunk

/-- What holds of a thread between two steps: a thread that is called is on the
    path of its calls, and its reader holds the metadata of its object. -/
structure ThreadOk (th : ScanThread) : Prop where
  path : th.pc.busy = true → th.pc = env.entryPc ∨ th.pc = env.emitPc
  reader : ∀ obj md, th.locals.reader = some (obj, md) → env.storage.readMeta obj = some md

-- ============================================================================
-- The moves
-- ============================================================================

/-- The steps of a thread. -/
inductive Move (draws : Nat → Bool) (s : ScanShared) (th : ScanThread) :
    ScanShared → ScanThread → ScanLog → Prop
  /-- DuckDB calls the thread. -/
  | call (hidle : th.pc.busy = false) (hok : th.pc ≠ .faulted)
      (hrecall : env.callAgain = true ∨ th.finished = false) :
      Move draws s th s { th with pc := env.entryPc, output := th.output.reset } 0
  /-- A call continues with the pending block of an earlier one. -/
  | resume (hpc : th.pc = env.entryPc) (hpending : th.locals.hasPending = true) :
      Move draws s th s { th with pc := env.emitPc } 0
  /-- No unit is left. -/
  | exhausted (hpc : th.pc = env.entryPc) (hpending : th.locals.hasPending = false)
      (hlast : env.plan.workUnits.length ≤ s.nextWorkUnit) :
      Move draws s th { s with nextWorkUnit := s.nextWorkUnit + 1 }
        { th with pc := .returned [], output := th.output.setCardinality 0, finished := true } 0
  /-- A unit is claimed that cannot be read. -/
  | unreadable {wu : WorkUnit} {scanned : Nat} {locals : TAEScanLocalState}
      (hpc : th.pc = env.entryPc) (hpending : th.locals.hasPending = false)
      (hunit : env.plan.workUnits[s.nextWorkUnit]? = some wu) (hblock : env.unitBlock wu = none)
      (hlocals : locals.hasPending = false)
      (hreader : ∀ obj md, locals.reader = some (obj, md) → env.storage.readMeta obj = some md) :
      Move draws s th { s with nextWorkUnit := s.nextWorkUnit + 1, blocksScanned := scanned }
        { th with pc := .faulted, locals := locals } 0
  /-- A unit is claimed whose zone maps are rejected. -/
  | skipped {wu : WorkUnit} {md : ObjectMeta} (hpc : th.pc = env.entryPc)
      (hpending : th.locals.hasPending = false)
      (hunit : env.plan.workUnits[s.nextWorkUnit]? = some wu)
      (hblock : env.unitBlock wu = some none) (hmd : env.storage.readMeta wu.objectIdx = some md) :
      Move draws s th
        { s with nextWorkUnit := s.nextWorkUnit + 1, blocksSkipped := s.blocksSkipped + 1 }
        { th with locals := { th.locals with reader := some (wu.objectIdx, md) } } 0
  /-- A unit is claimed and its block becomes the pending one. -/
  | loaded {wu : WorkUnit} {blk : DecodedBlock} {scanned : Nat} {reader : Option (Nat × ObjectMeta)}
      (hpc : th.pc = env.entryPc) (hpending : th.locals.hasPending = false)
      (hunit : env.plan.workUnits[s.nextWorkUnit]? = some wu)
      (hblock : env.unitBlock wu = some (some blk))
      (hreader : ∀ obj md, reader = some (obj, md) → env.storage.readMeta obj = some md) :
      Move draws s th { s with nextWorkUnit := s.nextWorkUnit + 1, blocksScanned := scanned }
        { th with
          pc := env.emitPc, locals := { th.locals with reader := reader }.load wu blk } 0
  /-- A read of the pending block leaves its buffers. -/
  | failed (hpc : th.pc = env.emitPc)
      (hread : env.plan.fillOutput th.locals.window th.output = none ∨
        env.plan.emitWindow draws th.locals.window th.output = none) :
      Move draws s th s { th with pc := .faulted } 0
  /-- No row of the window passes. -/
  | filtered {output : DataChunk} (hpc : th.pc = env.emitPc)
      (hwin : env.plan.emitWindow draws th.locals.window th.output = some (output, .filtered))
      (hrows : env.plan.windowRows th.locals.window = []) :
      Move draws s th s
        { th with
          pc := if th.locals.advance.hasPending then env.emitPc else env.entryPc,
          locals := th.locals.advance, output := output } 0
  /-- The sampler rejects all rows of a window that is not the block's last. -/
  | unsampled {output : DataChunk} (hpc : th.pc = env.emitPc)
      (hwin : env.plan.emitWindow draws th.locals.window th.output = some (output, .unsampled))
      (hsample : env.plan.doSample = true)
      (hrows : env.plan.windowRows th.locals.window ≠ [])
      (hdraws : ∀ k < (env.plan.windowRows th.locals.window).length, draws k = false)
      (hpending : th.locals.advance.hasPending = true) :
      Move draws s th s { th with pc := env.emitPc, locals := th.locals.advance, output := output }
        (rowIds th.locals.pendingObjectIdx th.locals.pendingBlockIdx
          (env.plan.windowRows th.locals.window), 0)
  /-- The sampler rejects all rows of a block's last window. -/
  | unsampledLast {output : DataChunk} (hpc : th.pc = env.emitPc)
      (hwin : env.plan.emitWindow draws th.locals.window th.output = some (output, .unsampled))
      (hsample : env.plan.doSample = true)
      (hrows : env.plan.windowRows th.locals.window ≠ [])
      (hdraws : ∀ k < (env.plan.windowRows th.locals.window).length, draws k = false)
      (hpending : th.locals.advance.hasPending = false) :
      Move draws s th s
        { th with
          pc := .returned [], locals := th.locals.advance, output := output.setCardinality 0,
          finished := true }
        (rowIds th.locals.pendingObjectIdx th.locals.pendingBlockIdx
          (env.plan.windowRows th.locals.window), 0)
  /-- A chunk is returned. -/
  | emitted {output : DataChunk} {kept : List Nat} (hpc : th.pc = env.emitPc)
      (hwin : kept ≠ [] → ∃ sample,
        env.plan.emitWindow draws th.locals.window th.output = some (output, .emitted sample) ∧
          kept = env.plan.keptRows th.locals.window sample)
      (hsub : kept.Sublist (env.plan.windowRows th.locals.window))
      (hall : env.plan.doSample = false → kept = env.plan.windowRows th.locals.window)
      (hempty : kept = [] → env.fast = true) (hcard : output.cardinality = kept.length) :
      Move draws s th { s with rowsEmitted := s.rowsEmitted + kept.length }
        { th with
          pc := .returned (kept.map
            (RowId.mk th.locals.pendingObjectIdx th.locals.pendingBlockIdx)),
          locals := th.locals.advance, output := output,
          finished := th.finished || kept.isEmpty }
        (rowIds th.locals.pendingObjectIdx th.locals.pendingBlockIdx
          (env.plan.windowRows th.locals.window),
         rowIds th.locals.pendingObjectIdx th.locals.pendingBlockIdx kept)

-- ============================================================================
-- Every step is a move
-- ============================================================================

section Inversion
variable {env} {draws : Nat → Bool} {s : ScanShared} {th : ScanThread}

/-- The reader serves the metadata of the unit's object. -/
theorem ThreadOk.openReader (hok : env.ThreadOk th) (wu : WorkUnit) :
    env.openReader th wu = env.storage.readMeta wu.objectIdx := by
  rw [ScanEnv.openReader]
  split
  · next obj md hreader =>
      split
      · next hobj => rw [← hobj, hok.reader obj md hreader]
      · rfl
  · rfl

theorem pc_slow (hslow : env.fast = false) : env.entryPc = .nextBlock ∧ env.emitPc = .emitChunk := by
  rw [entryPc, emitPc, hslow]
  exact ⟨rfl, rfl⟩

theorem pc_fast (hfast : env.fast = true) :
    env.entryPc = .nextBlockFast ∧ env.emitPc = .emitChunkFast := by
  rw [entryPc, emitPc, hfast]
  exact ⟨rfl, rfl⟩

/-- A unit just claimed is handled by what it holds. -/
theorem openUnit_move (hok : env.ThreadOk th) (hslow : env.fast = false) (hpc : th.pc = .nextBlock)
    (hpending : th.locals.hasPending = false) {wu : WorkUnit}
    (hunit : env.plan.workUnits[s.nextWorkUnit]? = some wu) :
    env.Move draws s th
      (env.openUnit { s with nextWorkUnit := s.nextWorkUnit + 1 } th wu).shared
      (env.openUnit { s with nextWorkUnit := s.nextWorkUnit + 1 } th wu).thread
      (env.openUnit { s with nextWorkUnit := s.nextWorkUnit + 1 } th wu).log := by
  have hentry : th.pc = env.entryPc := hpc.trans (pc_slow hslow).1.symm
  have hemit : env.emitPc = .emitChunk := (pc_slow hslow).2
  have hblock : env.unitBlock wu = env.plan.unitBlock env.storage wu := by
    rw [unitBlock, hslow, if_neg Bool.false_ne_true]
  rw [openUnit]
  rw [hok.openReader wu]
  cases hmd : env.storage.readMeta wu.objectIdx with
  | none =>
      refine .unreadable hentry hpending hunit ?_ hpending hok.reader
      rw [hblock, ScanPlan.unitBlock, hmd, Option.bind_none]
  | some md =>
      have hreader : ∀ obj md', some (wu.objectIdx, md) = some (obj, md') →
          env.storage.readMeta obj = some md' := by
        rintro obj md' h
        obtain ⟨rfl, rfl⟩ := Prod.mk.inj (Option.some.inj h)
        exact hmd
      rw [ScanPlan.unitBlock, hmd, Option.bind_some] at hblock
      by_cases hskip : env.plan.skipsBlock md wu.blockIdx = true
      · rw [if_pos hskip] at hblock
        simp only [if_pos hskip]
        exact .skipped hentry hpending hunit hblock hmd
      rw [if_neg hskip] at hblock
      simp only [if_neg hskip]
      cases hopen : env.plan.openBlock env.storage md wu with
      | none =>
          rw [hopen, Option.map_none] at hblock
          exact .unreadable hentry hpending hunit hblock hpending hreader
      | some blk =>
          rw [hopen, Option.map_some] at hblock
          -- a block without columns is one of which no column is read
          have hcols : ¬(blk.cols = [] ∧ env.plan.readSeqnums ≠ []) := by
            rintro ⟨hnil, hne⟩
            have hlen := ScanPlan.openBlock_length hopen
            rw [hnil] at hlen
            exact hne (List.length_eq_zero_iff.mp hlen.symm)
          simp only [if_neg hcols, ← hemit]
          exact .loaded hentry hpending hunit hblock hreader

/-- `next_block` emits what is pending, or claims a unit. -/
theorem nextBlock_move (hok : env.ThreadOk th) (hslow : env.fast = false) (hpc : th.pc = .nextBlock) :
    env.Move draws s th (env.nextBlock s th).shared (env.nextBlock s th).thread
      (env.nextBlock s th).log := by
  have hentry : th.pc = env.entryPc := hpc.trans (pc_slow hslow).1.symm
  rw [nextBlock]
  by_cases hpending : th.locals.hasPending = true
  · rw [if_pos hpending, ← (pc_slow hslow).2]
    exact .resume hentry hpending
  rw [if_neg hpending]
  replace hpending := Bool.eq_false_iff.mpr hpending
  cases hunit : env.plan.workUnits[s.nextWorkUnit]? with
  | none => exact .exhausted hentry hpending (List.getElem?_eq_none_iff.mp hunit)
  | some wu => exact openUnit_move hok hslow hpc hpending hunit

theorem nextBlockFast_move (hok : env.ThreadOk th) (hfast : env.fast = true)
    (hpc : th.pc = .nextBlockFast) :
    env.Move draws s th (env.nextBlockFast s th).shared (env.nextBlockFast s th).thread
      (env.nextBlockFast s th).log := by
  have hentry : th.pc = env.entryPc := hpc.trans (pc_fast hfast).1.symm
  have hemit : env.emitPc = .emitChunkFast := (pc_fast hfast).2
  rw [nextBlockFast]
  by_cases hpending : th.locals.hasPending = true
  · rw [if_pos hpending, ← hemit]
    exact .resume hentry hpending
  rw [if_neg hpending]
  replace hpending := Bool.eq_false_iff.mpr hpending
  cases hunit : env.plan.workUnits[s.nextWorkUnit]? with
  | none => exact .exhausted hentry hpending (List.getElem?_eq_none_iff.mp hunit)
  | some wu =>
      have hblock : env.unitBlock wu = (env.plan.objects[wu.objectIdx]?).map fun info =>
          some ⟨[], manifestBlockRowCount info wu.blockIdx⟩ := by
        rw [unitBlock, if_pos hfast]
      cases hobj : env.plan.objects[wu.objectIdx]? with
      | none =>
          rw [hobj, Option.map_none] at hblock
          simp only [hobj]
          exact .unreadable hentry hpending hunit hblock hpending hok.reader
      | some info =>
          rw [hobj, Option.map_some] at hblock
          simp only [hobj, ← hemit]
          exact .loaded hentry hpending hunit hblock hok.reader

/-- `emit_chunk` ends in one of five ways. -/
theorem emitChunk_move (hslow : env.fast = false) (hpc : th.pc = .emitChunk) :
    env.Move draws s th (env.emitChunk s th draws).shared (env.emitChunk s th draws).thread
      (env.emitChunk s th draws).log := by
  have hemit : th.pc = env.emitPc := hpc.trans (pc_slow hslow).2.symm
  unfold emitChunk
  cases hwin : env.plan.emitWindow draws th.locals.window th.output with
  | none =>
      simp only [hwin]
      exact .failed hemit (Or.inr hwin)
  | some res =>
      obtain ⟨output, exit⟩ := res
      have hcase := ScanPlan.emitWindow_cases hwin
      cases exit with
      | filtered =>
          simp only [hwin, ← (pc_slow hslow).1, ← (pc_slow hslow).2]
          exact .filtered hemit hwin hcase
      | unsampled =>
          obtain ⟨hsample, hne, hdraws⟩ := hcase
          simp only [hwin]
          by_cases hpending : th.locals.advance.hasPending = true
          · simp only [if_pos hpending, ← (pc_slow hslow).2]
            exact .unsampled hemit hwin hsample hne hdraws hpending
          · simp only [if_neg hpending]
            exact .unsampledLast hemit hwin hsample hne hdraws (Bool.eq_false_iff.mpr hpending)
      | emitted sample =>
          simp only [hwin]
          cases sample with
          | none =>
              obtain ⟨-, hne, hcard⟩ := hcase
              exact .emitted hemit (fun _ => ⟨none, hwin, rfl⟩) (List.Sublist.refl _) (fun _ => rfl)
                (fun h => absurd h hne) hcard
          | some sel =>
              obtain ⟨hsample, hsel, hne, hcard⟩ := hcase
              obtain ⟨hsub, hlen⟩ := ScanPlan.keptRows_sample hsel
              refine .emitted hemit (fun _ => ⟨some sel, hwin, rfl⟩) hsub
                (fun h => absurd (hsample.symm.trans h) (by decide)) ?_ (hcard.trans hlen.symm)
              intro hnil
              rw [hnil] at hlen
              exact absurd (List.length_eq_zero_iff.mp hlen.symm) hne

theorem emitChunkFast_move (hfast : env.fast = true) (hpc : th.pc = .emitChunkFast) :
    env.Move draws s th (env.emitChunkFast s th).shared (env.emitChunkFast s th).thread
      (env.emitChunkFast s th).log := by
  have hemit : th.pc = env.emitPc := hpc.trans (pc_fast hfast).2.symm
  unfold emitChunkFast
  cases hfill : env.plan.fillOutput th.locals.window th.output with
  | none =>
      simp only [hfill]
      exact .failed hemit (Or.inl hfill)
  | some output =>
      simp only [hfill]
      obtain ⟨-, hfilters, hsample⟩ := env.fast_only hfast
      have hlen : (env.plan.windowRows th.locals.window).length = th.locals.window.chunkRows := by
        rw [ScanPlan.windowRows, ScanPlan.passingFrom_of_no_filters hfilters, List.length_range']
      refine .emitted hemit (fun hne => ⟨none, ?_, rfl⟩) (List.Sublist.refl _) (fun _ => rfl)
        (fun _ => hfast) ((ScanPlan.fillOutput_cardinality hfill).trans hlen.symm)
      exact ScanPlan.emitWindow_of_no_filters hfilters hsample hfill
        (hlen ▸ List.length_pos_iff.mpr hne)

/-- A thread is only ever on the path of its calls. -/
theorem ThreadOk.slow (hok : env.ThreadOk th) (hpc : th.pc = .nextBlock ∨ th.pc = .emitChunk) :
    env.fast = false := by
  by_contra hfast
  have hbusy : th.pc.busy = true := by rcases hpc with h | h <;> rw [h] <;> rfl
  obtain ⟨hentry, hemit⟩ := pc_fast (Bool.not_eq_false _ ▸ hfast)
  rcases hok.path hbusy with h | h <;> rcases hpc with h' | h' <;> simp [h', hentry, hemit] at h

theorem ThreadOk.fast (hok : env.ThreadOk th)
    (hpc : th.pc = .nextBlockFast ∨ th.pc = .emitChunkFast) : env.fast = true := by
  by_contra hslow
  have hbusy : th.pc.busy = true := by rcases hpc with h | h <;> rw [h] <;> rfl
  obtain ⟨hentry, hemit⟩ := pc_slow (Bool.eq_false_iff.mpr hslow)
  rcases hok.path hbusy with h | h <;> rcases hpc with h' | h' <;> simp [h', hentry, hemit] at h

/-- A thread between two calls can only be called. -/
theorem call_move (hidle : th.pc.busy = false) (hpc : th.pc ≠ .faulted)
    (hrecall : (env.callAgain || !th.finished) = true) :
    env.Move draws s th (env.call s th).shared (env.call s th).thread (env.call s th).log := by
  refine .call hidle hpc ?_
  rcases (Bool.or_eq_true _ _).mp hrecall with h | h
  · exact Or.inl h
  · exact Or.inr (by simpa using h)

/-- Every step of a thread is a move. -/
theorem move_of_step {s' : ScanShared} {th' : ScanThread} {e : ScanLog} (hok : env.ThreadOk th)
    (h : env.stepThread s th draws = some ⟨s', th', e⟩) : env.Move draws s th s' th' e := by
  -- a step that runs `r` ends where `r` does
  have hrun : ∀ r : ScanStepResult, some r = some ⟨s', th', e⟩ →
      env.Move draws s th r.shared r.thread r.log → env.Move draws s th s' th' e := by
    intro r hr hmove
    obtain rfl := Option.some.inj hr
    exact hmove
  rw [stepThread] at h
  cases hpc : th.pc with
  | ready =>
      simp only [hpc] at h
      split at h
      · next hrecall => exact hrun _ h (call_move (by rw [hpc]; rfl) (by rw [hpc]; simp) hrecall)
      · cases h
  | returned rows =>
      simp only [hpc] at h
      split at h
      · next hrecall => exact hrun _ h (call_move (by rw [hpc]; rfl) (by rw [hpc]; simp) hrecall)
      · cases h
  | nextBlock =>
      simp only [hpc] at h
      exact hrun _ h (nextBlock_move hok (hok.slow (Or.inl hpc)) hpc)
  | emitChunk =>
      simp only [hpc] at h
      exact hrun _ h (emitChunk_move (hok.slow (Or.inr hpc)) hpc)
  | nextBlockFast =>
      simp only [hpc] at h
      exact hrun _ h (nextBlockFast_move hok (hok.fast (Or.inl hpc)) hpc)
  | emitChunkFast =>
      simp only [hpc] at h
      exact hrun _ h (emitChunkFast_move (hok.fast (Or.inr hpc)) hpc)
  | faulted =>
      simp only [hpc] at h
      cases h

end Inversion

end ScanEnv

end TaeScanner
