/-
  TaeScanner.Scan.Execute

  `TAEScanExecute`, cut into steps: parallel scan with atomic work dispatch.
  Blocks are larger than an output chunk, so a thread buffers the decoded block
  in its local state and emits windows of at most `standardVectorSize` rows,
  one or more for each call.

    * a step is what a thread does between two labels of the code, and makes at
      most one access to the shared work counter;
    * the labels are `next_block` and `emit_chunk` of the slow path and their
      counterparts of the fast path, which emits row counts of the manifest
      without reading anything;
    * an exception, and a read that leaves a buffer, end in `faulted`.
-/

import Mathlib.Algebra.Group.Prod
import TaeScanner.Lib.Wrap
import TaeScanner.Scan.Blocks
import TaeScanner.Table.ColumnFill

namespace TaeScanner

open Lib

-- ============================================================================
-- One window of a block
-- ============================================================================

/-- The rows of a block that one pass through `emit_chunk` handles. -/
structure ChunkWindow where
  cols : List DecodedColumn
  objectIdx : Nat
  blockIdx : Nat
  srcOffset : Nat
  chunkRows : Nat

/-- `std::fill_n` of one string. -/
def DuckVector.fillStrings (v : DuckVector) (count : Nat) (s : List Byte) : DuckVector :=
  { v with strings := fun i => if i < count then s else v.strings i }

/-- `std::fill_n` of one `int32_t`. -/
def DuckVector.fillInt32 (v : DuckVector) (count : Nat) (i : Int) : DuckVector :=
  v.writeBytes 0 (List.replicate count (leBytesInt 4 i)).flatten

/-- The characters of a file path. -/
def pathBytes (path : String) : List Byte := path.toUTF8.toList.map (·.toBitVec)

namespace ScanPlan
variable (plan : ScanPlan)

/-- Fill one output column. -/
def fillSlot (w : ChunkWindow) (om : OutputColumnInfo) (v : DuckVector) : Option DuckVector :=
  match om with
  | .taeColumn _ decodedPos =>
      match w.cols[decodedPos]? with
      | some col => fillColumn v col w.chunkRows w.srcOffset
      | none => some v
  | .vcolFilename =>
      (plan.objects[w.objectIdx]?).map fun info => v.fillStrings w.chunkRows (pathBytes info.filePath)
  | .vcolBlockId => some (v.fillInt32 w.chunkRows w.blockIdx)

/-- Set the row count and fill all output columns. -/
def fillOutput (w : ChunkWindow) (output : DataChunk) : Option DataChunk :=
  ((plan.outputMap.zip output.columns).mapM fun p => plan.fillSlot w p.1 p.2).map fun columns =>
    ⟨columns, w.chunkRows⟩

/-- How a pass through `emit_chunk` ends; positions are relative to the rows
    that passed the filters. -/
inductive ChunkExit
  /-- All rows are filtered out. -/
  | filtered
  /-- Rows pass the filters, and the sampler rejects them all. -/
  | unsampled
  /-- The chunk is returned; `none` when there is no sampling. -/
  | emitted (sample : Option (List Nat))
  deriving DecidableEq, Repr

/-- `emit_chunk` on the output: fill, filter and sample; `draws i` is the
    outcome of the Bernoulli test of the `i`-th row that passes the filters. -/
def emitWindow (draws : Nat → Bool) (w : ChunkWindow) (output : DataChunk) :
    Option (DataChunk × ChunkExit) :=
  (plan.fillOutput w output).bind fun filled =>
    (applyRowFilters plan.filters w.cols filled w.chunkRows w.srcOffset).map
      fun (out, filteredCount) =>
        if filteredCount = 0 then (out, .filtered)
        else if plan.doSample then
          let sel := (List.range filteredCount).filter draws
          if sel = [] then (out, .unsampled) else (out.slice sel, .emitted (some sel))
        else (out, .emitted none)

/-- The rows of the window that pass the filters. -/
def windowRows (w : ChunkWindow) : List Nat := plan.passingFrom w.cols w.srcOffset w.chunkRows

/-- The rows of the window that are returned under a sample. -/
def keptRows (w : ChunkWindow) : Option (List Nat) → List Nat
  | none => plan.windowRows w
  | some sel => sel.filterMap fun k => (plan.windowRows w)[k]?

end ScanPlan

-- ============================================================================
-- The fast path's row counts
-- ============================================================================

def rowsPerBlock : Nat := 8192

/-- `ManifestBlockRowCount`, in 64-bit arithmetic. -/
def manifestBlockRowCount (obj : TAEObjectInfo) (blockIdx : Nat) : Nat :=
  if obj.blocks ≤ 1 then obj.rows
  else if obj.rows ≤ rowsPerBlock then
    let perBlock := obj.rows / obj.blocks
    if blockIdx + 1 < obj.blocks then perBlock else obj.rows - (obj.blocks - 1) * perBlock
  else if blockIdx + 1 < obj.blocks then rowsPerBlock
  else wrapSub 64 obj.rows ((obj.blocks - 1) * rowsPerBlock)

-- ============================================================================
-- States
-- ============================================================================

/-- The part of the global state that changes. -/
structure ScanShared where
  nextWorkUnit : Nat := 0
  blocksScanned : Nat := 0
  blocksSkipped : Nat := 0
  rowsEmitted : Nat := 0
  deriving DecidableEq, Repr

structure TAEScanLocalState where
  /-- The object that is open, and its metadata. -/
  reader : Option (Nat × ObjectMeta) := none
  pendingCols : List DecodedColumn := []
  pendingTotalRows : Nat := 0
  pendingOffset : Nat := 0
  pendingObjectIdx : Nat := 4294967295
  pendingBlockIdx : Nat := 0

namespace TAEScanLocalState
variable (ls : TAEScanLocalState)

def hasPending : Bool := ls.pendingOffset < ls.pendingTotalRows

/-- The window the next pass through `emit_chunk` handles. -/
def window : ChunkWindow where
  cols := ls.pendingCols
  objectIdx := ls.pendingObjectIdx
  blockIdx := ls.pendingBlockIdx
  srcOffset := ls.pendingOffset
  chunkRows := min (ls.pendingTotalRows - ls.pendingOffset) standardVectorSize

/-- Store a decoded block for chunked emission. -/
def load (wu : WorkUnit) (blk : DecodedBlock) : TAEScanLocalState :=
  { ls with
    pendingCols := blk.cols, pendingTotalRows := blk.totalRows, pendingOffset := 0,
    pendingObjectIdx := wu.objectIdx, pendingBlockIdx := wu.blockIdx }

/-- Advance the offset; a block fully emitted clears the pending state. -/
def advance : TAEScanLocalState :=
  let pendingOffset := ls.pendingOffset + ls.window.chunkRows
  if ls.pendingTotalRows ≤ pendingOffset then
    { ls with pendingCols := [], pendingTotalRows := 0, pendingOffset := 0 }
  else { ls with pendingOffset := pendingOffset }

end TAEScanLocalState

/-- Where a thread stands. -/
inductive Pc
  /-- Not called yet. -/
  | ready
  | nextBlock
  | emitChunk
  | nextBlockFast
  | emitChunkFast
  /-- The last call has returned a chunk with these rows. -/
  | returned (rows : List RowId)
  | faulted
  deriving DecidableEq, Repr

/-- A thread inside a call. -/
def Pc.busy : Pc → Bool
  | nextBlock | emitChunk | nextBlockFast | emitChunkFast => true
  | ready | returned _ | faulted => false

structure ScanThread where
  pc : Pc := .ready
  locals : TAEScanLocalState := {}
  output : DataChunk
  /-- The thread has received an empty chunk. -/
  finished : Bool := false

/-- The rows that were offered to the sampler or, without one, to the query, and
    the rows that were emitted. -/
abbrev ScanLog := Multiset RowId × Multiset RowId

-- ============================================================================
-- Steps
-- ============================================================================

/-- What a scan runs on.  The fast path is only for queries that need no column,
    no filter and no sampling. -/
structure ScanEnv where
  plan : ScanPlan
  storage : Storage
  /-- Calls take the fast path. -/
  fast : Bool
  /-- A thread that received an empty chunk may be called again. -/
  callAgain : Bool
  fast_only : fast = true → plan.readSeqnums = [] ∧ plan.filters = [] ∧ plan.doSample = false

structure ScanStepResult where
  shared : ScanShared
  thread : ScanThread
  log : ScanLog := 0

namespace ScanEnv
variable (env : ScanEnv) (s : ScanShared) (th : ScanThread)

/-- DuckDB calls with a reset output. -/
def call : ScanStepResult :=
  ⟨s, { th with pc := if env.fast then .nextBlockFast else .nextBlock, output := th.output.reset }, 0⟩

/-- No unit is left: return the empty chunk. -/
def finish : ScanStepResult :=
  ⟨{ s with nextWorkUnit := s.nextWorkUnit + 1 },
    { th with pc := .returned [], output := th.output.setCardinality 0, finished := true }, 0⟩

/-- The metadata of a unit's object: reuse the reader if it is the same object. -/
def openReader (wu : WorkUnit) : Option ObjectMeta :=
  match th.locals.reader with
  | some (objectIdx, md) => if objectIdx = wu.objectIdx then some md else env.storage.readMeta wu.objectIdx
  | none => env.storage.readMeta wu.objectIdx

/-- Process a unit just claimed. -/
def openUnit (wu : WorkUnit) : ScanStepResult :=
  match env.openReader th wu with
  | none => ⟨s, { th with pc := .faulted }, 0⟩
  | some md =>
      let locals := { th.locals with reader := some (wu.objectIdx, md) }
      if env.plan.skipsBlock md wu.blockIdx then
        ⟨{ s with blocksSkipped := s.blocksSkipped + 1 }, { th with locals := locals }, 0⟩
      else
        let s := { s with blocksScanned := s.blocksScanned + 1 }
        match env.plan.openBlock env.storage md wu with
        | none => ⟨s, { th with locals := locals, pc := .faulted }, 0⟩
        | some blk =>
            if blk.cols = [] ∧ env.plan.readSeqnums ≠ [] then ⟨s, { th with locals := locals }, 0⟩
            else ⟨s, { th with locals := locals.load wu blk, pc := .emitChunk }, 0⟩

/-- `next_block`: emit the pending rows of a previous call, or claim units until
    one has a block to emit. -/
def nextBlock : ScanStepResult :=
  if th.locals.hasPending then ⟨s, { th with pc := .emitChunk }, 0⟩
  else
    match env.plan.workUnits[s.nextWorkUnit]? with
    | none => finish s th
    | some wu => env.openUnit { s with nextWorkUnit := s.nextWorkUnit + 1 } th wu

/-- The same in the fast path, with the row count of the manifest. -/
def nextBlockFast : ScanStepResult :=
  if th.locals.hasPending then ⟨s, { th with pc := .emitChunkFast }, 0⟩
  else
    match env.plan.workUnits[s.nextWorkUnit]? with
    | none => finish s th
    | some wu =>
        let s := { s with nextWorkUnit := s.nextWorkUnit + 1 }
        match env.plan.objects[wu.objectIdx]? with
        | none => ⟨s, { th with pc := .faulted }, 0⟩
        | some info =>
            ⟨s, { th with
              locals := th.locals.load wu ⟨[], manifestBlockRowCount info wu.blockIdx⟩,
              pc := .emitChunkFast }, 0⟩

/-- Return a chunk of rows of the window; an empty one ends the thread's scan. -/
def emit (w : ChunkWindow) (output : DataChunk) (offered kept : List Nat) : ScanStepResult :=
  ⟨{ s with rowsEmitted := s.rowsEmitted + kept.length },
    { th with
      pc := .returned (kept.map (RowId.mk w.objectIdx w.blockIdx)), locals := th.locals.advance,
      output := output, finished := th.finished || kept.isEmpty },
    (rowIds w.objectIdx w.blockIdx offered, rowIds w.objectIdx w.blockIdx kept)⟩

/-- `emit_chunk`. -/
def emitChunk (draws : Nat → Bool) : ScanStepResult :=
  let w := th.locals.window
  let locals := th.locals.advance
  match env.plan.emitWindow draws w th.output with
  | none => ⟨s, { th with pc := .faulted }, 0⟩
  | some (output, .filtered) =>
      let pc := if locals.hasPending then .emitChunk else .nextBlock
      ⟨s, { th with pc := pc, locals := locals, output := output }, 0⟩
  | some (output, .unsampled) =>
      let offered := rowIds w.objectIdx w.blockIdx (env.plan.windowRows w)
      if locals.hasPending then
        ⟨s, { th with pc := .emitChunk, locals := locals, output := output }, (offered, 0)⟩
      else
        ⟨s, { th with
          pc := .returned [], locals := locals, output := output.setCardinality 0,
          finished := true }, (offered, 0)⟩
  | some (output, .emitted sample) =>
      emit s th w output (env.plan.windowRows w) (env.plan.keptRows w sample)

/-- `emit_chunk_fast`: virtual columns only, and no row is left out. -/
def emitChunkFast : ScanStepResult :=
  let w := th.locals.window
  match env.plan.fillOutput w th.output with
  | none => ⟨s, { th with pc := .faulted }, 0⟩
  | some output => emit s th w output (env.plan.windowRows w) (env.plan.windowRows w)

/-- The next step of a thread; `none` if it makes none. -/
def stepThread (draws : Nat → Bool) : Option ScanStepResult :=
  match th.pc with
  | .ready | .returned _ => if env.callAgain || !th.finished then some (env.call s th) else none
  | .nextBlock => some (env.nextBlock s th)
  | .emitChunk => some (env.emitChunk s th draws)
  | .nextBlockFast => some (env.nextBlockFast s th)
  | .emitChunkFast => some (env.emitChunkFast s th)
  | .faulted => none

/-- A thread makes a step, whatever the sampler draws. -/
def Step (s : ScanShared) (th : ScanThread) (s' : ScanShared) (th' : ScanThread) (e : ScanLog) : Prop :=
  ∃ draws, env.stepThread s th draws = some ⟨s', th', e⟩

end ScanEnv

end TaeScanner
