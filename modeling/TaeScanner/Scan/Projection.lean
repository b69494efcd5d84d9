/-
  TaeScanner.Scan.Projection

  Phases 1 to 3 of `TAEScanInit`: which columns are read, what each output slot
  shows, and which column each pushed filter is evaluated on.

  Index spaces:
    * output slots, which `projection_ids` maps to
    * positions in `column_ids`, each of which holds
    * a logical column of the schema or a virtual column; the logical columns are
      read at their decoded positions, in order, under
    * the physical seqnums of the schema.
-/

import TaeScanner.Filter.Expression
import TaeScanner.Scan.Init

namespace TaeScanner

open Lib

-- ============================================================================
-- Column ids
-- ============================================================================

/-- `VIRTUAL_COLUMN_START`. -/
def virtualColumnStart : Nat := 2 ^ 63

def vcolFilename : Nat := 9223372036854775808
def vcolBlockId : Nat := 9223372036854775809

def isVirtualColumn (id : Nat) : Bool := decide (virtualColumnStart ≤ id)

/-- A column of the schema. -/
def isTableColumn (id : Nat) : Bool := !isVirtualColumn id

/-- `TableFunctionInitInput`, as far as the columns go. -/
structure InitInput where
  columnIds : List Nat
  projectionIds : List Nat := []
  /-- The pushed filters, keyed by a position in `columnIds`. -/
  filters : List (Nat × Expr) := []

-- ============================================================================
-- Phase 1: the columns to read
-- ============================================================================

/-- `col_ids_to_decoded`, where `none` is `UINT64_MAX`, and `read_seqnums`. -/
structure DecodedPositions where
  colIdsToDecoded : List (Option Nat) := []
  readSeqnums : List Nat := []
  deriving DecidableEq, Repr

/-- One iteration of the loop over `column_ids`. -/
def DecodedPositions.add (bind : TAEScanBindData) (d : DecodedPositions) (id : Nat) :
    Except String DecodedPositions :=
  if isVirtualColumn id then .ok { d with colIdsToDecoded := d.colIdsToDecoded ++ [none] }
  else
    match bind.allColSeqnums[id]? with
    | none => .error "tae_scan: logical column outside schema"
    | some seqnum => .ok ⟨d.colIdsToDecoded ++ [some d.readSeqnums.length], d.readSeqnums ++ [seqnum]⟩

def decodedPositions (bind : TAEScanBindData) (columnIds : List Nat) : Except String DecodedPositions :=
  columnIds.foldlM (DecodedPositions.add bind) {}

/-- The decoded position of a position in `column_ids`. -/
def DecodedPositions.decodedPos? (d : DecodedPositions) (ci : Nat) : Option Nat :=
  d.colIdsToDecoded[ci]?.join

-- ============================================================================
-- Phase 2: the output slots
-- ============================================================================

/-- Does `projection_ids` decide the output? -/
def InitInput.hasProj (input : InitInput) : Bool :=
  !input.projectionIds.isEmpty && decide (input.projectionIds.length < input.columnIds.length)

/-- The position in `column_ids` that each output slot shows. -/
def InitInput.outputPositions (input : InitInput) : List Nat :=
  if input.hasProj then input.projectionIds else List.range input.columnIds.length

/-- One iteration of the loop over the output slots.  A position outside of
    `column_ids` fails in the checked access. -/
def outputColumn (d : DecodedPositions) (columnIds : List Nat) (ci : Nat) :
    Except String OutputColumnInfo :=
  match columnIds[ci]? with
  | none => .error ("Attempted to access index " ++ toString ci ++ " within vector of size " ++
      toString columnIds.length)
  | some id =>
      if id = vcolFilename then .ok .vcolFilename
      else if id = vcolBlockId then .ok .vcolBlockId
      else if isVirtualColumn id then .ok .vcolFilename
      else .ok (.taeColumn id ((d.decodedPos? ci).getD (2 ^ 64 - 1)))

-- ============================================================================
-- Phase 3: the filters
-- ============================================================================

section Filters
variable (tryGet : ColumnConstantComparison) (bt : BlobText) (bind : TAEScanBindData)

/-- One iteration of the loop over the pushed filters.  The decoded position
    narrows to `uint16_t`. -/
def pushFilter (d : DecodedPositions) (columnIds : List Nat) (out : List PushedFilter)
    (entry : Nat × Expr) : Except String (List PushedFilter) :=
  match columnIds[entry.1]? with
  | none => .ok out
  | some id =>
      if isVirtualColumn id then .ok out
      else
        match bind.allColMoOids[id]?, bind.allColSeqnums[id]?, d.decodedPos? entry.1 with
        | some moOid, some seqnum, some decodedPos =>
            extractFilter tryGet bt (decodedPos % 2 ^ 16) seqnum moOid entry.2 out
        | _, _, _ => .ok out

/-- What phases 1 to 3 leave in `TAEScanState`. -/
structure ScanColumns where
  readSeqnums : List Nat
  outputMap : List OutputColumnInfo
  filters : List PushedFilter

/-- Phases 1 to 3 of `TAEScanInit`. -/
def initColumns (input : InitInput) : Except String ScanColumns := do
  let d ← decodedPositions bind input.columnIds
  let outputMap ← input.outputPositions.mapM (outputColumn d input.columnIds)
  let filters ← input.filters.foldlM (pushFilter tryGet bt bind d input.columnIds) []
  return ⟨d.readSeqnums, outputMap, filters⟩

end Filters

-- ============================================================================
-- Decoded positions
-- ============================================================================

/-- The columns of the schema among `column_ids`. -/
def InitInput.tableIds (input : InitInput) : List Nat := input.columnIds.filter isTableColumn

/-- The columns of the schema before a position in `column_ids`. -/
def InitInput.tableRank (input : InitInput) (ci : Nat) : Nat :=
  (input.columnIds.take ci).countP isTableColumn

/-- The seqnum of a logical column. -/
def TAEScanBindData.HasSeqnum (bind : TAEScanBindData) (id seqnum : Nat) : Prop :=
  bind.allColSeqnums[id]? = some seqnum

theorem isTableColumn_iff {id : Nat} : isTableColumn id = true ↔ isVirtualColumn id = false := by
  rw [isTableColumn, Bool.not_eq_true']

/-- What phase 1 has recorded of the ids it has seen. -/
structure DecodedPositions.Records (bind : TAEScanBindData) (ids : List Nat) (d : DecodedPositions) :
    Prop where
  seqnums : List.Forall₂ bind.HasSeqnum (ids.filter isTableColumn) d.readSeqnums
  positions : d.colIdsToDecoded.length = ids.length
  decodedPos : ∀ {ci id : Nat}, ids[ci]? = some id → d.decodedPos? ci =
    if isVirtualColumn id then none else some ((ids.take ci).countP isTableColumn)

namespace DecodedPositions
variable {bind : TAEScanBindData} {ids : List Nat} {d d' : DecodedPositions} {id ci : Nat}

/-- A new entry leaves those before it alone. -/
theorem decodedPos?_append {entry : Option Nat} {readSeqnums : List Nat} :
    decodedPos? ⟨d.colIdsToDecoded ++ [entry], readSeqnums⟩ ci =
      if ci = d.colIdsToDecoded.length then entry else d.decodedPos? ci := by
  unfold decodedPos?
  simp only
  rcases Nat.lt_trichotomy ci d.colIdsToDecoded.length with hlt | rfl | hgt
  · rw [List.getElem?_append_left hlt, if_neg (Nat.ne_of_lt hlt)]
  · rw [List.getElem?_concat_length, if_pos rfl, Option.join_some]
  · rw [List.getElem?_eq_none (by simp only [List.length_append, List.length_singleton]; omega),
      List.getElem?_eq_none (Nat.le_of_lt hgt), if_neg (Nat.ne_of_gt hgt)]

/-- The step lemma of phase 1. -/
theorem Records.add (h : d.Records bind ids) (hadd : d.add bind id = .ok d') :
    d'.Records bind (ids ++ [id]) := by
  -- the entry of the new id, and those of the ids before it
  have hpos : ∀ (entry : Option Nat) (readSeqnums : List Nat),
      entry = (if isVirtualColumn id then none else some (ids.countP isTableColumn)) →
      ∀ {ci id' : Nat}, (ids ++ [id])[ci]? = some id' →
        decodedPos? ⟨d.colIdsToDecoded ++ [entry], readSeqnums⟩ ci =
          if isVirtualColumn id' then none else some (((ids ++ [id]).take ci).countP isTableColumn) := by
    intro entry readSeqnums hentry ci id' hid'
    rw [decodedPos?_append, h.positions]
    rcases Nat.lt_trichotomy ci ids.length with hlt | rfl | hgt
    · rw [List.getElem?_append_left hlt] at hid'
      rw [if_neg (Nat.ne_of_lt hlt), h.decodedPos hid', List.take_append_of_le_length (Nat.le_of_lt hlt)]
    · rw [List.getElem?_concat_length] at hid'
      obtain rfl := Option.some.inj hid'
      rw [if_pos rfl, hentry, List.take_left]
    · rw [List.getElem?_eq_none (by simp only [List.length_append, List.length_singleton]; omega)]
        at hid'
      cases hid'
  rw [DecodedPositions.add] at hadd
  cases hvirtual : isVirtualColumn id with
  | true =>
      rw [hvirtual, if_pos rfl] at hadd
      obtain rfl := Except.ok.inj hadd
      refine ⟨?_, by simp only [List.length_append, h.positions, List.length_singleton],
        hpos none d.readSeqnums (by rw [hvirtual, if_pos rfl])⟩
      rw [List.filter_append, List.filter_cons_of_neg (by simp [isTableColumn, hvirtual]),
        List.filter_nil, List.append_nil]
      exact h.seqnums
  | false =>
      rw [hvirtual, if_neg Bool.false_ne_true] at hadd
      cases hseqnum : bind.allColSeqnums[id]? with
      | none =>
          rw [hseqnum] at hadd
          cases hadd
      | some seqnum =>
          rw [hseqnum] at hadd
          obtain rfl := Except.ok.inj hadd
          refine ⟨?_, by simp only [List.length_append, h.positions, List.length_singleton],
            hpos _ _ ?_⟩
          · rw [List.filter_append, List.filter_cons_of_pos (isTableColumn_iff.mpr hvirtual),
              List.filter_nil]
            exact List.rel_append h.seqnums (.cons hseqnum .nil)
          · rw [hvirtual, if_neg Bool.false_ne_true, ← h.seqnums.length_eq,
              List.countP_eq_length_filter]

/-- Phase 1 reads the columns of the schema in order. -/
theorem records (h : decodedPositions bind ids = .ok d) : d.Records bind ids := by
  refine foldlM_invariant (fun done d => d.Records bind done) ?_ ?_ h
  · exact ⟨.nil, rfl, fun hid => nomatch hid⟩
  · exact fun done id d d' hd hadd => hd.add hadd

/-- Phase 1 accepts columns of the schema. -/
theorem exists_ok (h : ∀ id ∈ ids, isTableColumn id = true → id < bind.allColSeqnums.length) :
    ∃ d, decodedPositions bind ids = .ok d := by
  refine exists_foldlM_ok fun id hid d => ?_
  rw [DecodedPositions.add]
  cases hvirtual : isVirtualColumn id with
  | true => exact ⟨_, rfl⟩
  | false =>
      have hlt := h id hid (isTableColumn_iff.mpr hvirtual)
      rw [List.getElem?_eq_getElem hlt]
      exact ⟨_, rfl⟩

end DecodedPositions

end TaeScanner
