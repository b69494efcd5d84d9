/-
  TaeScanner.Scan.OpenReaders

  The scan on its object files.  A thread keeps the reader of the last object it
  opened, with its cache and the format it has detected, and asks it for all the
  following units of that object; before it reads a block it advises the kernel
  of the next one.

    * only `next_block` reads files, the other labels are those of `Execute`;
    * the peek at the work counter is an access of its own: other threads may
      have claimed units in the meantime;
    * the threads' readers refine the storage of `Execute`, where each unit is
      read as if its object were opened for it.
-/

import TaeScanner.Format.ObjectRoundTrip
import TaeScanner.Lib.Simulation
import TaeScanner.Reader.Prefetch
import TaeScanner.Scan.Parallel
import TaeScanner.Scan.Statistics

namespace TaeScanner

open Lib

-- ============================================================================
-- Threads with readers
-- ============================================================================

/-- How the object files are reached. -/
structure FileAccess where
  fs : FileSystem
  sort : OffsetSort
  gapMax : Nat
  prefetchThreshold : Nat
  /-- Advisory descriptors can be opened. -/
  advises : Bool
  dataDir : String
  contents : String → Option (List Byte)

/-- A scan on object files. -/
structure FileEnv where
  plan : ScanPlan
  lz4 : LZ4
  access : FileAccess
  fast : Bool
  callAgain : Bool
  fast_only : fast = true → plan.readSeqnums = [] ∧ plan.filters = [] ∧ plan.doSample = false

/-- A thread of that scan. -/
structure FileThread where
  scan : ScanThread
  /-- The reader behind the object and the metadata of the local state. -/
  reader : Option TAEObjectReader := none
  /-- The ranges that the kernel was advised of. -/
  advised : List (Nat × Nat) := []

structure FileStepResult where
  shared : ScanShared
  thread : FileThread
  log : ScanLog := 0

/-- The step as the storage sees it. -/
def FileStepResult.scan (res : FileStepResult) : ScanStepResult :=
  ⟨res.shared, res.thread.scan, res.log⟩

namespace FileEnv
variable (env : FileEnv)

/-- The files as a storage that opens an object for each read. -/
def storage : Storage :=
  (ObjectFiles.ofContents env.access.fs env.lz4 env.access.sort env.access.gapMax
    env.access.prefetchThreshold env.access.contents).storage env.access.dataDir env.plan.objects

/-- The scan on that storage. -/
def scanEnv : ScanEnv where
  plan := env.plan
  storage := env.storage
  fast := env.fast
  callAgain := env.callAgain
  fast_only := env.fast_only

/-- Open an object and read its metadata; `none` is an exception. -/
def openObject (objectIdx : Nat) : Option (TAEObjectReader × ObjectMeta) :=
  (env.plan.objects[objectIdx]?).bind fun info =>
    (env.access.contents (scanPath env.access.dataDir info)).bind fun file =>
      let opened := (TAEObjectReader.open file env.access.prefetchThreshold).readMeta env.access.fs env.lz4
      opened.2.toOption.map fun md => (opened.1, md)

variable (s : ScanShared) (th : FileThread)

/-- The reader of a unit's object: reuse it if it is the same object. -/
def openReader (wu : WorkUnit) : Option (TAEObjectReader × ObjectMeta) :=
  match th.scan.locals.reader, th.reader with
  | some (objectIdx, md), some r =>
      if objectIdx = wu.objectIdx then some (r, md) else env.openObject wu.objectIdx
  | _, _ => env.openObject wu.objectIdx

/-- The look-ahead at the unit that the work counter points to. -/
def lookAhead (peek : Nat) (r : TAEObjectReader) (md : ObjectMeta) (wu : WorkUnit) : List (Nat × Nat) :=
  match env.plan.workUnits[peek]? with
  | some next =>
      if next.objectIdx = wu.objectIdx then
        r.prefetchBlock env.access.advises md next.blockIdx env.plan.readSeqnums
      else []
  | none => []

/-- Process a unit just claimed. -/
def openUnit (wu : WorkUnit) (peek : Nat) : FileStepResult :=
  match env.openReader th wu with
  | none => ⟨s, { th with scan := { th.scan with pc := .faulted } }, 0⟩
  | some (r, md) =>
      let locals := { th.scan.locals with reader := some (wu.objectIdx, md) }
      if env.plan.skipsBlock md wu.blockIdx then
        ⟨{ s with blocksSkipped := s.blocksSkipped + 1 },
          { th with scan := { th.scan with locals := locals }, reader := some r }, 0⟩
      else
        let s := { s with blocksScanned := s.blocksScanned + 1 }
        let advised := th.advised ++ env.lookAhead peek r md wu
        match r.readBlock env.access.fs env.lz4 env.access.sort env.access.gapMax md wu.blockIdx
            env.plan.readSeqnums with
        | (r, .error _) =>
            ⟨s, ⟨{ th.scan with locals := locals, pc := .faulted }, some r, advised⟩, 0⟩
        | (r, .ok cols) =>
            if cols = [] ∧ env.plan.readSeqnums ≠ [] then
              ⟨s, ⟨{ th.scan with locals := locals }, some r, advised⟩, 0⟩
            else
              let blk : DecodedBlock := ⟨cols, blockTotalRows md wu.blockIdx cols⟩
              ⟨s, ⟨{ th.scan with locals := locals.load wu blk, pc := .emitChunk }, some r, advised⟩, 0⟩

/-- `next_block`. -/
def nextBlock (peek : Nat) : FileStepResult :=
  if th.scan.locals.hasPending then ⟨s, { th with scan := { th.scan with pc := .emitChunk } }, 0⟩
  else
    match env.plan.workUnits[s.nextWorkUnit]? with
    | none =>
        let r := ScanEnv.finish s th.scan
        ⟨r.shared, { th with scan := r.thread }, r.log⟩
    | some wu => env.openUnit { s with nextWorkUnit := s.nextWorkUnit + 1 } th wu peek

/-- The next step of a thread; `none` if it makes none. -/
def stepThread (draws : Nat → Bool) (peek : Nat) : Option FileStepResult :=
  match th.scan.pc with
  | .nextBlock => some (env.nextBlock s th peek)
  -- no other label opens or reads a file
  | _ => (env.scanEnv.stepThread s th.scan draws).map fun r =>
      ⟨r.shared, { th with scan := r.thread }, r.log⟩

/-- A thread makes a step, whatever the sampler draws and wherever the work counter
    stands when it is looked at again. -/
def Step (s : ScanShared) (th : FileThread) (s' : ScanShared) (th' : FileThread) (e : ScanLog) : Prop :=
  ∃ draws peek, s'.nextWorkUnit ≤ peek ∧ env.stepThread s th draws peek = some ⟨s', th', e⟩

/-- Nothing is claimed and no thread has been called. -/
def start {ι : Type} (outputs : ι → DataChunk) : Config ι ScanShared FileThread ScanLog :=
  ⟨{}, fun i => { scan := { output := outputs i } }, 0⟩

-- ============================================================================
-- The kept reader
-- ============================================================================

/-- The reader that is kept is the one that opening its object leaves. -/
def Kept (th : FileThread) : Prop :=
  ∀ objectIdx md, th.scan.locals.reader = some (objectIdx, md) →
    ∃ r, th.reader = some r ∧ env.openObject objectIdx = some (r, md)

section Kept
variable {env s th}

theorem storage_readMeta (objectIdx : Nat) :
    env.storage.readMeta objectIdx = (env.openObject objectIdx).map Prod.snd := by
  show (env.plan.objects[objectIdx]?).bind _ = _
  rw [openObject, Option.map_bind]
  apply Option.bind_congr
  intro info _
  show (env.access.contents _).bind _ = _
  rw [Function.comp_apply, Option.map_bind]
  apply Option.bind_congr
  intro file _
  simp only [Function.comp_apply]
  generalize (TAEObjectReader.open file _).readMeta env.access.fs env.lz4 = opened
  obtain ⟨r, e | md⟩ := opened
  · rfl
  · rfl

theorem storage_readBlock (objectIdx blk : Nat) (seqnums : List Nat) :
    env.storage.readBlock objectIdx blk seqnums = (env.openObject objectIdx).bind fun p =>
      (p.1.readBlock env.access.fs env.lz4 env.access.sort env.access.gapMax p.2 blk
        seqnums).2.toOption := by
  show (env.plan.objects[objectIdx]?).bind _ = _
  rw [openObject, Option.bind_assoc]
  apply Option.bind_congr
  intro info _
  show (env.access.contents _).bind _ = _
  rw [Option.bind_assoc]
  apply Option.bind_congr
  intro file _
  generalize (TAEObjectReader.open file _).readMeta env.access.fs env.lz4 = opened
  obtain ⟨r, e | md⟩ := opened
  · rfl
  · rfl

/-- Opening an object leaves nothing to be found out. -/
theorem openObject_settled {objectIdx : Nat} {r : TAEObjectReader} {md : ObjectMeta}
    (h : env.openObject objectIdx = some (r, md)) : r.Settled := by
  obtain ⟨info, -, h⟩ := Option.bind_eq_some_iff.mp h
  obtain ⟨file, -, h⟩ := Option.bind_eq_some_iff.mp h
  obtain ⟨md', hmd, hpair⟩ := Option.map_eq_some_iff.mp h
  obtain ⟨rfl, rfl⟩ := Prod.mk.inj hpair
  exact TAEObjectReader.readMeta_settles _ _ (Prod.ext rfl (toOption_eq_some.mp hmd))

theorem openObject_extentsFit {objectIdx : Nat} {r : TAEObjectReader} {md : ObjectMeta}
    (h : env.openObject objectIdx = some (r, md)) : ∀ blk ∈ md.blocks, blk.ExtentsFit := by
  obtain ⟨info, -, h⟩ := Option.bind_eq_some_iff.mp h
  obtain ⟨file, -, h⟩ := Option.bind_eq_some_iff.mp h
  obtain ⟨md', hmd, hpair⟩ := Option.map_eq_some_iff.mp h
  obtain ⟨-, rfl⟩ := Prod.mk.inj hpair
  exact TAEObjectReader.readMeta_extentsFit (toOption_eq_some.mp hmd)

/-- Reusing the reader makes no difference to opening the object again. -/
theorem Kept.openReader (h : env.Kept th) (wu : WorkUnit) :
    env.openReader th wu = env.openObject wu.objectIdx := by
  rw [FileEnv.openReader]
  split
  · next objectIdx md r hreader hkept =>
      split
      · next hsame =>
          obtain ⟨r', hr', hopen⟩ := h _ _ hreader
          obtain rfl := Option.some.inj (hkept.symm.trans hr')
          rw [← hsame, hopen]
      · rfl
  · rfl

theorem Kept.scanEnv_openReader (h : env.Kept th) (wu : WorkUnit) :
    env.scanEnv.openReader th.scan wu = (env.openObject wu.objectIdx).map Prod.snd := by
  have hopen : env.scanEnv.storage.readMeta wu.objectIdx = (env.openObject wu.objectIdx).map Prod.snd :=
    storage_readMeta _
  rw [ScanEnv.openReader]
  split
  · next objectIdx md hreader =>
      split
      · next hsame =>
          obtain ⟨r, -, hobject⟩ := h _ _ hreader
          rw [← hsame, hobject]
          rfl
      · exact hopen
  · exact hopen

/-- A thread that keeps the reader of the object it has just opened. -/
theorem kept_of_open {r : TAEObjectReader} {md : ObjectMeta} {objectIdx : Nat}
    (hopen : env.openObject objectIdx = some (r, md)) {th : FileThread}
    (hreader : th.reader = some r) (hlocals : th.scan.locals.reader = some (objectIdx, md)) :
    env.Kept th := by
  intro objectIdx' md' hsome
  obtain ⟨rfl, rfl⟩ := Prod.mk.inj (Option.some.inj (hlocals.symm.trans hsome))
  exact ⟨r, hreader, hopen⟩

/-- Only the object that is open decides about the kept reader. -/
theorem Kept.of_reader_eq {th' : FileThread} (h : env.Kept th) (hreader : th'.reader = th.reader)
    (hlocals : th'.scan.locals.reader = th.scan.locals.reader) : env.Kept th' := by
  intro objectIdx md hsome
  rw [hreader]
  exact h objectIdx md (hlocals.symm.trans hsome)

theorem Kept.openUnit (h : env.Kept th) (s : ScanShared) (wu : WorkUnit) (peek : Nat) :
    (env.openUnit s th wu peek).scan = env.scanEnv.openUnit s th.scan wu ∧
      env.Kept (env.openUnit s th wu peek).thread := by
  rw [FileEnv.openUnit, h.openReader, ScanEnv.openUnit, h.scanEnv_openReader]
  cases hopen : env.openObject wu.objectIdx with
  | none => exact ⟨rfl, h⟩
  | some opened =>
      obtain ⟨r, md⟩ := opened
      have hread := TAEObjectReader.readBlock_settled env.access.fs env.lz4 (openObject_settled hopen)
        env.access.sort env.access.gapMax md wu.blockIdx env.plan.readSeqnums
      have hblock : env.scanEnv.plan.openBlock env.scanEnv.storage md wu =
          ((r.readBlock env.access.fs env.lz4 env.access.sort env.access.gapMax md wu.blockIdx
            env.plan.readSeqnums).2.toOption).map
              fun cols => ⟨cols, blockTotalRows md wu.blockIdx cols⟩ := by
        show (env.storage.readBlock _ _ _).map _ = _
        rw [storage_readBlock, hopen]
        rfl
      simp only [Option.map_some, hblock]
      generalize r.readBlock env.access.fs env.lz4 env.access.sort env.access.gapMax md wu.blockIdx
        env.plan.readSeqnums = res at hread
      show _ = (if env.plan.skipsBlock md wu.blockIdx then _ else _) ∧ _
      split
      · exact ⟨rfl, kept_of_open hopen rfl rfl⟩
      · obtain ⟨r', e | cols⟩ := res
        · obtain rfl : r' = r := hread
          exact ⟨rfl, kept_of_open hopen rfl rfl⟩
        · obtain rfl : r' = r := hread
          simp only [Except.toOption, Option.map_some]
          show _ = (if cols = [] ∧ env.plan.readSeqnums ≠ [] then _ else _) ∧ _
          split
          · exact ⟨rfl, kept_of_open hopen rfl rfl⟩
          · exact ⟨rfl, kept_of_open hopen rfl rfl⟩

theorem Kept.nextBlock (h : env.Kept th) (s : ScanShared) (peek : Nat) :
    (env.nextBlock s th peek).scan = env.scanEnv.nextBlock s th.scan ∧
      env.Kept (env.nextBlock s th peek).thread := by
  rw [FileEnv.nextBlock, ScanEnv.nextBlock]
  split
  · exact ⟨rfl, h.of_reader_eq rfl rfl⟩
  · show (FileStepResult.scan (match env.plan.workUnits[s.nextWorkUnit]? with | none => _ | some wu => _)) =
      (match env.plan.workUnits[s.nextWorkUnit]? with | none => _ | some wu => _) ∧ _
    cases env.plan.workUnits[s.nextWorkUnit]? with
    | none => exact ⟨rfl, h.of_reader_eq rfl rfl⟩
    | some wu => exact h.openUnit _ wu peek

end Kept

end FileEnv

-- ============================================================================
-- Steps
-- ============================================================================

/-- No label but `next_block` opens an object. -/
theorem ScanEnv.stepThread_reader {env : ScanEnv} {s : ScanShared} {th : ScanThread} {draws : Nat → Bool}
    {res : ScanStepResult} (hpc : th.pc ≠ .nextBlock) (h : env.stepThread s th draws = some res) :
    res.thread.locals.reader = th.locals.reader := by
  have hcall : (if env.callAgain || !th.finished then some (env.call s th) else none) = some res →
      res.thread.locals.reader = th.locals.reader := by
    intro h
    obtain ⟨-, hsome⟩ := Option.ite_none_right_eq_some.mp h
    obtain rfl := Option.some.inj hsome
    rfl
  rw [stepThread] at h
  cases hth : th.pc with
  | ready => exact hcall (by rwa [hth] at h)
  | returned rows => exact hcall (by rwa [hth] at h)
  | nextBlock => exact absurd hth hpc
  | faulted => rw [hth] at h; cases h
  | emitChunk =>
      rw [hth] at h
      obtain rfl := Option.some.inj h
      rw [emitChunk]
      split
      · rfl
      · exact th.locals.advance_reader
      · split
        · exact th.locals.advance_reader
        · exact th.locals.advance_reader
      · exact th.locals.advance_reader
  | nextBlockFast =>
      rw [hth] at h
      obtain rfl := Option.some.inj h
      rw [nextBlockFast]
      split
      · rfl
      · split
        · rfl
        · simp only
          split
          · rfl
          · rfl
  | emitChunkFast =>
      rw [hth] at h
      obtain rfl := Option.some.inj h
      rw [emitChunkFast]
      split
      · rfl
      · exact th.locals.advance_reader

namespace FileEnv

section Runs
variable {env : FileEnv} {s : ScanShared} {th : FileThread}

/-- A step on the kept reader is the step on the storage. -/
theorem Kept.stepThread (h : env.Kept th) (s : ScanShared) (draws : Nat → Bool) (peek : Nat) :
    (env.stepThread s th draws peek).map FileStepResult.scan = env.scanEnv.stepThread s th.scan draws := by
  rw [FileEnv.stepThread]
  split
  · next hpc =>
      rw [ScanEnv.stepThread, hpc]
      exact congrArg some (h.nextBlock s peek).1
  · rw [Option.map_map]
    exact Option.map_id' ..

theorem Kept.step (h : env.Kept th) {draws : Nat → Bool} {peek : Nat} {res : FileStepResult}
    (hstep : env.stepThread s th draws peek = some res) : env.Kept res.thread := by
  rw [FileEnv.stepThread] at hstep
  split at hstep
  · obtain rfl := Option.some.inj hstep
    exact (h.nextBlock s peek).2
  · next hpc =>
      obtain ⟨res, hres, rfl⟩ := Option.map_eq_some_iff.mp hstep
      exact h.of_reader_eq rfl (ScanEnv.stepThread_reader hpc hres)

/-- Threads with readers refine the threads on the storage. -/
theorem refines (env : FileEnv) : Refines env.Step env.scanEnv.Step FileThread.scan env.Kept where
  keeps := by
    rintro s t s' t' e hkept ⟨draws, peek, -, hstep⟩
    exact hkept.step hstep
  forward := by
    rintro s t s' t' e hkept ⟨draws, peek, -, hstep⟩
    refine ⟨draws, ?_⟩
    rw [← hkept.stepThread s draws peek, hstep]
    rfl
  backward := by
    rintro s t s' u e hkept ⟨draws, hstep⟩
    rw [← hkept.stepThread s draws s'.nextWorkUnit] at hstep
    obtain ⟨⟨s', t', e⟩, hres, hscan⟩ := Option.map_eq_some_iff.mp hstep
    cases hscan
    exact ⟨t', ⟨draws, s'.nextWorkUnit, Nat.le_refl _, hres⟩, rfl⟩

theorem start_kept {ι : Type} (outputs : ι → DataChunk) (i : ι) : env.Kept ((start outputs).threads i) :=
  nofun

/-- A scan that keeps its readers open, with their caches and the look-ahead, has
    exactly the runs of the scan that opens the object of each unit anew. -/
theorem reachable_iff {ι : Type} [DecidableEq ι] (env : FileEnv) (outputs : ι → DataChunk)
    (d : Config ι ScanShared ScanThread ScanLog) :
    Reachable env.scanEnv.Step (env.scanEnv.start outputs) d ↔
      ∃ c, Reachable env.Step (start outputs) c ∧ c.mapThreads FileThread.scan = d :=
  env.refines.runs_iff (start_kept outputs)

end Runs

end FileEnv

-- ============================================================================
-- The look-ahead
-- ============================================================================

namespace FileEnv

/-- All advice was about a queued unit. -/
def AdvisesQueued (env : FileEnv) (th : FileThread) : Prop :=
  ∀ range ∈ th.advised, ∃ wu ∈ env.plan.workUnits, ∃ r md, env.openObject wu.objectIdx = some (r, md) ∧
    range ∈ r.prefetchBlock env.access.advises md wu.blockIdx env.plan.readSeqnums

section Advice
variable {env : FileEnv} {th : FileThread}

theorem lookAhead_queued {wu : WorkUnit} {r : TAEObjectReader} {md : ObjectMeta}
    (hopen : env.openObject wu.objectIdx = some (r, md)) {peek : Nat} {range : Nat × Nat}
    (hrange : range ∈ env.lookAhead peek r md wu) :
    ∃ wu ∈ env.plan.workUnits, ∃ r md, env.openObject wu.objectIdx = some (r, md) ∧
      range ∈ r.prefetchBlock env.access.advises md wu.blockIdx env.plan.readSeqnums := by
  rw [lookAhead] at hrange
  split at hrange
  · next ahead hahead =>
      split at hrange
      · next hsame => exact ⟨ahead, List.mem_of_getElem? hahead, r, md, hsame ▸ hopen, hrange⟩
      · cases hrange
  · cases hrange

theorem AdvisesQueued.openUnit (h : env.AdvisesQueued th) (hkept : env.Kept th) (s : ScanShared)
    (wu : WorkUnit) (peek : Nat) : env.AdvisesQueued (env.openUnit s th wu peek).thread := by
  rw [FileEnv.openUnit, hkept.openReader]
  cases hopen : env.openObject wu.objectIdx with
  | none => exact h
  | some opened =>
      obtain ⟨r, md⟩ := opened
      have hnew : ∀ range ∈ th.advised ++ env.lookAhead peek r md wu, _ := fun range hrange =>
        (List.mem_append.mp hrange).elim (h range) (lookAhead_queued hopen)
      simp only
      split
      · exact h
      · split
        · exact hnew
        · split
          · exact hnew
          · exact hnew

theorem AdvisesQueued.step (h : env.AdvisesQueued th) (hkept : env.Kept th) {s : ScanShared}
    {draws : Nat → Bool} {peek : Nat} {res : FileStepResult}
    (hstep : env.stepThread s th draws peek = some res) : env.AdvisesQueued res.thread := by
  rw [FileEnv.stepThread] at hstep
  split at hstep
  · obtain rfl := Option.some.inj hstep
    rw [nextBlock]
    split
    · exact h
    · split
      · exact h
      · exact h.openUnit hkept _ _ peek
  · obtain ⟨_, -, rfl⟩ := Option.map_eq_some_iff.mp hstep
    exact h

/-- In every run the kernel is advised of nothing but the blocks that hold bytes of the
    columns the plan reads, of queued units. -/
theorem advice_confined {ι : Type} [DecidableEq ι] (outputs : ι → DataChunk)
    {c : Config ι ScanShared FileThread ScanLog} (h : Reachable env.Step (start outputs) c) (i : ι)
    {range : Nat × Nat} (hrange : range ∈ (c.threads i).advised) :
    ∃ wu ∈ env.plan.workUnits, ∃ r md blk, env.openObject wu.objectIdx = some (r, md) ∧
      md.blocks[wu.blockIdx]? = some blk ∧ ∃ seq ∈ env.plan.readSeqnums, ∃ col,
        blk.columns[seq]? = some col ∧ r.Touches col.location range := by
  have hinv := h.invariant (fun _ th => env.Kept th ∧ env.AdvisesQueued th)
    (fun j => ⟨start_kept outputs j, nofun⟩)
    (fun s th s' th' e hth ⟨draws, peek, _, hstep⟩ => ⟨hth.1.step hstep, hth.2.step hth.1 hstep⟩)
    (fun _ _ _ _ _ _ _ hu _ => hu) i
  obtain ⟨wu, hwu, r, md, hopen, hadvised⟩ := hinv.2 range hrange
  obtain ⟨blk, hblk, hcolumn⟩ := TAEObjectReader.prefetchBlock_tight (openObject_extentsFit hopen) hadvised
  exact ⟨wu, hwu, r, md, blk, hopen, hblk, hcolumn⟩

/-- A thread without pending rows claims the next unit. -/
theorem step_openUnit {s : ScanShared} {wu : WorkUnit} (hpc : th.scan.pc = .nextBlock)
    (hpending : th.scan.locals.hasPending = false) (hwu : env.plan.workUnits[s.nextWorkUnit]? = some wu)
    {peek : Nat} {res : FileStepResult}
    (hres : res = env.openUnit { s with nextWorkUnit := s.nextWorkUnit + 1 } th wu peek)
    (hpeek : res.shared.nextWorkUnit ≤ peek) : env.Step s th res.shared res.thread res.log := by
  refine ⟨fun _ => true, peek, hpeek, ?_⟩
  rw [stepThread, hpc, nextBlock, hpending, if_neg Bool.false_ne_true, hwu, hres]

/-- A block that is read takes advice for the next one first. -/
theorem openUnit_advised {r : TAEObjectReader} {md : ObjectMeta} {wu : WorkUnit}
    (hopen : env.openReader th wu = some (r, md)) (hskip : env.plan.skipsBlock md wu.blockIdx = false)
    (s : ScanShared) (peek : Nat) :
    (env.openUnit s th wu peek).shared.nextWorkUnit = s.nextWorkUnit ∧
      (env.openUnit s th wu peek).thread.advised = th.advised ++ env.lookAhead peek r md wu := by
  rw [FileEnv.openUnit, hopen]
  simp only [hskip, Bool.false_eq_true, if_false]
  split
  · exact ⟨rfl, rfl⟩
  · split
    · exact ⟨rfl, rfl⟩
    · exact ⟨rfl, rfl⟩

end Advice

end FileEnv

namespace FileEnv

/-- The step for one outcome of the draws and of the peek. -/
def next (env : FileEnv) (draws : Nat → Bool) (peek : Nat) (s : ScanShared) (th : FileThread) :
    Option (ScanShared × FileThread × ScanLog) :=
  ((env.stepThread s th draws peek).filter fun r => decide (r.shared.nextWorkUnit ≤ peek)).map fun r =>
    (r.shared, r.thread, r.log)

theorem step_of_next {env : FileEnv} {draws : Nat → Bool} {peek : Nat} {s s' : ScanShared}
    {th th' : FileThread} {e : ScanLog} (h : env.next draws peek s th = some (s', th', e)) :
    env.Step s th s' th' e := by
  obtain ⟨r, hr, hres⟩ := Option.map_eq_some_iff.mp h
  obtain ⟨hstep, hpeek⟩ := Option.filter_eq_some_iff.mp hr
  obtain ⟨rfl, hrest⟩ := Prod.mk.inj hres
  obtain ⟨rfl, rfl⟩ := Prod.mk.inj hrest
  exact ⟨draws, peek, of_decide_eq_true hpeek, hstep⟩

end FileEnv

/-- Access to one file under every path. -/
def oneFile (file : List Byte) (gapMax threshold : Nat) : FileAccess where
  fs := .positional
  sort := .merge
  gapMax := gapMax
  prefetchThreshold := threshold
  advises := true
  dataDir := "data"
  contents _ := some file

/-- A scan of the first column of a small object. -/
def oneFileEnv (blockRows : List Nat) (access : FileAccess) : FileEnv where
  plan := plainPlan blockRows false
  lz4 := .literal
  access := access
  fast := false
  callAgain := false
  fast_only := nofun

/-- An object of two blocks. -/
def twoBlockFile : List Byte := (buildObject literalBlock false (twoColumns ++ twoColumns)).getD []

/-- Before the first block is read, the column of the second one is advised. -/
theorem advice_confined_twoBlocks :
    ∃ wu ∈ (plainPlan [2, 2] false).workUnits, ∃ r md blk,
      (oneFileEnv [2, 2] (oneFile twoBlockFile 0 0)).openObject wu.objectIdx = some (r, md) ∧
      md.blocks[wu.blockIdx]? = some blk ∧ ∃ seq ∈ [0], ∃ col, blk.columns[seq]? = some col ∧
        r.Touches col.location (204, 78) := by
  let env := oneFileEnv [2, 2] (oneFile twoBlockFile 0 0)
  have hopened : (env.openObject 0).map (fun p => env.lookAhead 1 p.1 p.2 ⟨0, 0⟩) = some [(204, 78)] := by
    decide +kernel
  obtain ⟨⟨r, md⟩, hopen, hahead⟩ := Option.map_eq_some_iff.mp hopened
  obtain ⟨c, hc, hshared, hthread⟩ : ∃ c, Reachable env.Step (FileEnv.start oneOutput) c ∧ c.shared = {} ∧
      c.threads () = { scan := { pc := .nextBlock, output := (oneOutput ()).reset } } :=
    ⟨_, .next (i := ()) .start ⟨fun _ => true, 0, Nat.le_refl 0, rfl⟩, rfl, rfl⟩
  have hreader : env.openReader (c.threads ()) ⟨0, 0⟩ = some (r, md) := by
    rw [hthread]
    exact hopen
  obtain ⟨hclaimed, hadvised⟩ := FileEnv.openUnit_advised hreader rfl
    { c.shared with nextWorkUnit := c.shared.nextWorkUnit + 1 } 1
  have hpeek : c.shared.nextWorkUnit + 1 = 1 := by rw [hshared]
  have hread := hc.next (FileEnv.step_openUnit (by rw [hthread]) (by rw [hthread]; rfl)
    (by rw [hshared]; rfl) rfl (hclaimed.trans hpeek).le)
  apply FileEnv.advice_confined oneOutput hread ()
  rw [Config.advance_self, hadvised, hahead]
  exact List.mem_append_right _ (List.mem_singleton_self _)

-- ============================================================================
-- The same objects, stored otherwise
-- ============================================================================

/-- The files hold these contents of a plan's objects, raw or wrapped, and no columns
    that are read together make a range of 2^32 bytes. -/
structure FileAccess.Serves (access : FileAccess) (lz4 : LZ4) (plan : ScanPlan)
    (contents : Nat → List Byte) : Prop where
  throws : access.fs.ThrowsPastEnd
  object : ∀ {objectIdx : Nat} {info : TAEObjectInfo}, plan.objects[objectIdx]? = some info →
    ∃ file, access.contents (scanPath access.dataDir info) = some file ∧
      ObjectOf (contents objectIdx) file
  short : ∀ {objectIdx blockIdx : Nat} {md : ObjectMeta} {cols : List DecodedColumn},
    contentMeta lz4 (contents objectIdx) = some md →
    ContentHolds lz4 (contents objectIdx) md blockIdx plan.readSeqnums cols →
    ∀ blk, md.blocks[blockIdx]? = some blk → blk.ShortRanges access.gapMax plan.readSeqnums

namespace FileEnv

section Serves
variable {env : FileEnv} {contents : Nat → List Byte}

/-- An object is opened with the metadata of its content. -/
theorem openObject_content (h : env.access.Serves env.lz4 env.plan contents) {objectIdx : Nat}
    {info : TAEObjectInfo} (hinfo : env.plan.objects[objectIdx]? = some info) :
    ∃ r : TAEObjectReader, r.Ready ∧ r.content = contents objectIdx ∧
      env.openObject objectIdx = (contentMeta env.lz4 (contents objectIdx)).map fun md => (r, md) := by
  obtain ⟨file, hfile, hobject⟩ := h.object hinfo
  obtain ⟨r, res, hread, hready, hcontent, hres⟩ :=
    hobject.readMeta h.throws env.lz4 env.access.prefetchThreshold
  refine ⟨r, hready, hcontent, ?_⟩
  rw [openObject, hinfo, Option.bind_some, hfile, Option.bind_some, hread, ← hres]

theorem openObject_missing {objectIdx : Nat} (h : env.plan.objects[objectIdx]? = none) :
    env.openObject objectIdx = none := by
  rw [openObject, h, Option.bind_none]

theorem storage_readMeta_content (h : env.access.Serves env.lz4 env.plan contents) (objectIdx : Nat) :
    env.storage.readMeta objectIdx =
      (env.plan.objects[objectIdx]?).bind fun _ => contentMeta env.lz4 (contents objectIdx) := by
  rw [storage_readMeta]
  cases hinfo : env.plan.objects[objectIdx]? with
  | none => rw [openObject_missing hinfo, Option.map_none, Option.bind_none]
  | some info =>
      obtain ⟨r, -, -, hopen⟩ := openObject_content h hinfo
      rw [hopen, Option.map_map, Option.bind_some]
      exact Option.map_id' ..

theorem storage_readBlock_content (h : env.access.Serves env.lz4 env.plan contents)
    {objectIdx blockIdx : Nat} {cols : List DecodedColumn} :
    env.storage.readBlock objectIdx blockIdx env.plan.readSeqnums = some cols ↔
      ∃ info md, env.plan.objects[objectIdx]? = some info ∧
        contentMeta env.lz4 (contents objectIdx) = some md ∧
        ContentHolds env.lz4 (contents objectIdx) md blockIdx env.plan.readSeqnums cols := by
  rw [storage_readBlock, Option.bind_eq_some_iff]
  constructor
  · rintro ⟨⟨r', md⟩, hopen, hread⟩
    cases hinfo : env.plan.objects[objectIdx]? with
    | none =>
        rw [openObject_missing hinfo] at hopen
        cases hopen
    | some info =>
        obtain ⟨r, hready, hcontent, hobject⟩ := openObject_content h hinfo
        obtain ⟨md', hmd, hpair⟩ := Option.map_eq_some_iff.mp (hobject.symm.trans hopen)
        obtain ⟨rfl, rfl⟩ := Prod.mk.inj hpair
        have hholds := (readBlock_eq_ok_content h.throws hready (contentMeta_extentsFit hmd)).mp
          (toOption_eq_some.mp hread)
        exact ⟨info, md', rfl, hmd, hcontent ▸ hholds.1⟩
  · rintro ⟨info, md, hinfo, hmd, hholds⟩
    obtain ⟨r, hready, hcontent, hobject⟩ := openObject_content h hinfo
    refine ⟨(r, md), by rw [hobject, hmd, Option.map_some], toOption_eq_some.mpr ?_⟩
    apply (readBlock_eq_ok_content h.throws hready (contentMeta_extentsFit hmd)).mpr
    rw [hcontent]
    exact ⟨hholds, h.short hmd hholds⟩

/-- Two ways to serve the same contents read the same. -/
theorem storage_eq_of_serves {access : FileAccess} (h : env.access.Serves env.lz4 env.plan contents)
    (h' : access.Serves env.lz4 env.plan contents) (objectIdx blockIdx : Nat) :
    ({ env with access := access } : FileEnv).storage.readMeta objectIdx = env.storage.readMeta objectIdx ∧
      ({ env with access := access } : FileEnv).storage.readBlock objectIdx blockIdx env.plan.readSeqnums =
        env.storage.readBlock objectIdx blockIdx env.plan.readSeqnums := by
  have hserves : ({ env with access := access } : FileEnv).access.Serves env.lz4 env.plan contents := h'
  constructor
  · rw [storage_readMeta_content h]
    exact storage_readMeta_content hserves objectIdx
  · apply Option.ext
    intro cols
    rw [storage_readBlock_content h]
    exact storage_readBlock_content hserves

end Serves

end FileEnv

-- ============================================================================
-- Scans on storages that read the same
-- ============================================================================

/-- A scan looks at the metadata and at the columns of its plan, at nothing else. -/
theorem ScanEnv.stepThread_congr (env : ScanEnv) (storage : Storage)
    (hmeta : ∀ objectIdx, storage.readMeta objectIdx = env.storage.readMeta objectIdx)
    (hblock : ∀ objectIdx blockIdx, storage.readBlock objectIdx blockIdx env.plan.readSeqnums =
      env.storage.readBlock objectIdx blockIdx env.plan.readSeqnums)
    (s : ScanShared) (th : ScanThread) (draws : Nat → Bool) :
    ({ env with storage := storage } : ScanEnv).stepThread s th draws = env.stepThread s th draws := by
  have hreader : ∀ wu, ({ env with storage := storage } : ScanEnv).openReader th wu = env.openReader th wu := by
    intro wu
    rw [openReader, openReader]
    simp only [hmeta]
  have hopen : ∀ md wu, env.plan.openBlock storage md wu = env.plan.openBlock env.storage md wu := by
    intro md wu
    rw [ScanPlan.openBlock, ScanPlan.openBlock, hblock]
  have hunit : ∀ s wu, ({ env with storage := storage } : ScanEnv).openUnit s th wu = env.openUnit s th wu := by
    intro s wu
    rw [openUnit, openUnit, hreader]
    simp only [hopen]
  rw [stepThread, stepThread]
  split
  · rfl
  · rfl
  · rw [nextBlock, nextBlock]
    simp only [hunit]
  · rfl
  · rfl
  · rfl
  · rfl

/-- **How objects are stored does not matter.**  Two ways to reach files with the same
    contents, raw or wrapped, cached or not, with ranges merged over any gaps, have
    the same runs. -/
theorem FileEnv.access_irrelevant {ι : Type} [DecidableEq ι] (env : FileEnv) (access : FileAccess)
    (contents : Nat → List Byte) (h : env.access.Serves env.lz4 env.plan contents)
    (h' : access.Serves env.lz4 env.plan contents) (outputs : ι → DataChunk)
    (d : Config ι ScanShared ScanThread ScanLog) :
    (∃ c, Reachable env.Step (start outputs) c ∧ c.mapThreads FileThread.scan = d) ↔
      ∃ c, Reachable ({ env with access := access } : FileEnv).Step (start outputs) c ∧
        c.mapThreads FileThread.scan = d := by
  have hread := storage_eq_of_serves h h'
  have hstep : ({ env with access := access } : FileEnv).scanEnv.Step = env.scanEnv.Step := by
    funext s th s' th' e
    apply propext
    apply exists_congr
    intro draws
    have hthread : ({ env with access := access } : FileEnv).scanEnv.stepThread s th draws =
        env.scanEnv.stepThread s th draws :=
      env.scanEnv.stepThread_congr ({ env with access := access } : FileEnv).storage (fun obj => (hread obj 0).1) (fun obj blk => (hread obj blk).2) s th draws
    rw [hthread]
  have hruns := env.refines.runs_iff (start_kept outputs) (d := d)
  have hruns' := ({ env with access := access } : FileEnv).refines.runs_iff (start_kept outputs) (d := d)
  rw [← hruns, ← hruns', hstep]

theorem oneFile_serves {file : List Byte} (gapMax threshold : Nat) (h : ObjectOf twoColumnFile file) :
    (oneFile file gapMax threshold).Serves .literal (plainPlan [2] false) fun _ => twoColumnFile where
  throws := FileSystem.positional_throwsPastEnd
  object _ := ⟨file, rfl, h⟩
  short _ hholds := hholds.shortRanges (by decide +kernel) gapMax

/-- A thread that has claimed the block of the object as it was built and cached, and one
    of the object behind a checksum and read in pieces. -/
theorem access_irrelevant_twoColumns :
    ∃ c, Reachable (oneFileEnv [2] (oneFile twoColumnFile 0 4096)).Step (FileEnv.start oneOutput) c ∧
      c.shared.nextWorkUnit = 1 ∧
      ∃ c', Reachable (oneFileEnv [2] (oneFile ([1, 2, 3, 4] ++ twoColumnFile) 64 0)).Step
          (FileEnv.start oneOutput) c' ∧ c'.mapThreads FileThread.scan = c.mapThreads FileThread.scan := by
  have hlong : 12 ≤ twoColumnFile.length := by decide +kernel
  have hmagic : leNat (twoColumnFile.take 8) = objectMagic := by decide +kernel
  have hshort : twoColumnFile.length < crcContentSize := by decide +kernel
  have hsmall : crcContentSize < 2 ^ 63 := by decide
  have hraw : ObjectOf twoColumnFile twoColumnFile :=
    ⟨⟨.raw, rfl⟩, hshort.trans hsmall, hlong, hmagic⟩
  have hframed : Framed crcSize crcContentSize twoColumnFile ([1, 2, 3, 4] ++ twoColumnFile) :=
    Framed.short rfl (Nat.lt_of_lt_of_le (by decide) hlong) hshort
  have hwrapped : ObjectOf twoColumnFile ([1, 2, 3, 4] ++ twoColumnFile) := by
    refine ⟨⟨.crcWrapped, hframed⟩, ?_, hlong, hmagic⟩
    calc ([1, 2, 3, 4] ++ twoColumnFile : List Byte).length
        = ([1, 2, 3, 4] : List Byte).length + twoColumnFile.length := List.length_append
      _ < ([1, 2, 3, 4] : List Byte).length + crcContentSize := Nat.add_lt_add_left hshort _
      _ < 2 ^ 63 := by decide
  let env := oneFileEnv [2] (oneFile twoColumnFile 0 4096)
  obtain ⟨c, hc, hshared, hthread⟩ : ∃ c, Reachable env.Step (FileEnv.start oneOutput) c ∧ c.shared = {} ∧
      c.threads () = { scan := { pc := .nextBlock, output := (oneOutput ()).reset } } :=
    ⟨_, .next (i := ()) .start ⟨fun _ => true, 0, Nat.le_refl 0, rfl⟩, rfl, rfl⟩
  have hclaimed : ((env.openUnit { c.shared with nextWorkUnit := c.shared.nextWorkUnit + 1 }
      (c.threads ()) ⟨0, 0⟩ 1).shared.nextWorkUnit = 1) := by
    rw [hshared, hthread]
    decide +kernel
  have hread := hc.next (FileEnv.step_openUnit (by rw [hthread]) (by rw [hthread]; rfl)
    (by rw [hshared]; rfl) rfl hclaimed.le)
  refine ⟨_, hread, hclaimed, ?_⟩
  apply (FileEnv.access_irrelevant env (oneFile ([1, 2, 3, 4] ++ twoColumnFile) 64 0) (fun _ => twoColumnFile)
    (oneFile_serves 0 4096 hraw) (oneFile_serves 64 0 hwrapped) oneOutput _).mp
  exact ⟨_, hread, rfl⟩

end TaeScanner
