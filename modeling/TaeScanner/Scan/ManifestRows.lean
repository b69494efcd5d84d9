/-
  TaeScanner.Scan.ManifestRows

  `ManifestBlockRowCount`: the rows of an object, dealt out to its blocks without
  reading the object.

    * every block but the last one gets the same share (`blockShare`), and the last
      one what is left, by an unsigned subtraction;
    * this deals out the rows of the object exactly when the other blocks do not get
      more than there is, which nothing checks when the manifest is parsed.
-/

import TaeScanner.Scan.Execute

namespace TaeScanner

open Lib

/-- The rows of every block but the last one. -/
def TAEObjectInfo.blockShare (obj : TAEObjectInfo) : Nat :=
  if obj.rows ≤ rowsPerBlock then obj.rows / obj.blocks else rowsPerBlock

/-- What is subtracted from the rows for the last block. -/
def TAEObjectInfo.rowsBeforeLast (obj : TAEObjectInfo) : Nat := (obj.blocks - 1) * obj.blockShare

/-- The blocks deal out the rows of the object: none has more than there is, the
    subtraction does not wrap, and together they have them all. -/
structure TAEObjectInfo.DealsOutRows (obj : TAEObjectInfo) : Prop where
  le_rows : ∀ b < obj.blocks, manifestBlockRowCount obj b ≤ obj.rows
  no_wrap : obj.rowsBeforeLast ≤ obj.rows
  sum_eq : ((List.range obj.blocks).map (manifestBlockRowCount obj)).sum = obj.rows

/-- An object of more than one full block has enough rows to fill all blocks but the
    last one. -/
def TAEObjectInfo.FillsBlocks (obj : TAEObjectInfo) : Prop :=
  rowsPerBlock < obj.rows → (obj.blocks - 1) * rowsPerBlock ≤ obj.rows

section Rows
variable {obj : TAEObjectInfo}

/-- The branches of the source, as one. -/
theorem manifestBlockRowCount_eq (hblocks : 1 ≤ obj.blocks) (hrows : obj.rows < 2 ^ 32) {b : Nat}
    (hb : b < obj.blocks) :
    manifestBlockRowCount obj b =
      if b + 1 < obj.blocks then obj.blockShare else wrapSub 64 obj.rows obj.rowsBeforeLast := by
  rw [manifestBlockRowCount, TAEObjectInfo.rowsBeforeLast, TAEObjectInfo.blockShare]
  by_cases hone : obj.blocks ≤ 1
  · have hlast : ¬b + 1 < obj.blocks := by omega
    have hzero : obj.blocks - 1 = 0 := by omega
    rw [if_pos hone, if_neg hlast, hzero, Nat.zero_mul, wrapSub_of_le (by omega) (Nat.zero_le _)]
    rfl
  rw [if_neg hone]
  by_cases hsmall : obj.rows ≤ rowsPerBlock
  · have hshare : (obj.blocks - 1) * (obj.rows / obj.blocks) ≤ obj.rows := by
      calc (obj.blocks - 1) * (obj.rows / obj.blocks)
          ≤ obj.blocks * (obj.rows / obj.blocks) := Nat.mul_le_mul_right _ (Nat.sub_le _ _)
        _ ≤ obj.rows := Nat.mul_div_le _ _
    rw [if_pos hsmall, if_pos hsmall, wrapSub_of_le (by omega) hshare]
  · rw [if_neg hsmall, if_neg hsmall]

/-- What is dealt out before the last block is no more than there is, unless an
    object of more than one full block has too many of them. -/
theorem rowsBeforeLast_le_iff : obj.rowsBeforeLast ≤ obj.rows ↔ obj.FillsBlocks := by
  rw [TAEObjectInfo.rowsBeforeLast, TAEObjectInfo.blockShare, TAEObjectInfo.FillsBlocks]
  by_cases hsmall : obj.rows ≤ rowsPerBlock
  · rw [if_pos hsmall]
    refine ⟨fun _ hlarge => absurd hsmall (Nat.not_le.mpr hlarge), fun _ => ?_⟩
    calc (obj.blocks - 1) * (obj.rows / obj.blocks)
        ≤ obj.blocks * (obj.rows / obj.blocks) := Nat.mul_le_mul_right _ (Nat.sub_le _ _)
      _ ≤ obj.rows := Nat.mul_div_le _ _
  · rw [if_neg hsmall]
    exact ⟨fun hle _ => hle, fun hfills => hfills (Nat.not_le.mp hsmall)⟩

/-- Equal shares and a rest add up. -/
theorem sum_map_share (n share rest : Nat) :
    ((List.range (n + 1)).map fun b => if b + 1 < n + 1 then share else rest).sum
      = n * share + rest := by
  have hshares : (List.range n).map (fun b => if b + 1 < n + 1 then share else rest)
      = List.replicate n share := by
    rw [← List.length_range (n := n), ← List.map_const', List.length_range]
    apply List.map_congr_left
    intro b hb
    exact if_pos (Nat.succ_lt_succ (List.mem_range.mp hb))
  rw [List.range_succ, List.map_append, List.sum_append, hshares, List.sum_replicate_nat]
  simp

end Rows

/-- The blocks of an object deal out its rows iff the object fills its blocks. -/
theorem manifestRows_dealt_iff {obj : TAEObjectInfo} (hblocks : 1 ≤ obj.blocks)
    (hblocks32 : obj.blocks < 2 ^ 32) (hrows : obj.rows < 2 ^ 32) :
    obj.DealsOutRows ↔ obj.FillsBlocks := by
  rw [← rowsBeforeLast_le_iff]
  refine ⟨TAEObjectInfo.DealsOutRows.no_wrap, fun hle => ?_⟩
  have hlast : wrapSub 64 obj.rows obj.rowsBeforeLast = obj.rows - obj.rowsBeforeLast :=
    wrapSub_of_le (by omega) hle
  refine ⟨fun b hb => ?_, hle, ?_⟩
  · rw [manifestBlockRowCount_eq hblocks hrows hb, hlast]
    split
    · next hnot =>
        -- there are at least two blocks, so a share is one of those before the last
        have hone : 1 * obj.blockShare ≤ obj.rowsBeforeLast :=
          Nat.mul_le_mul_right _ (by omega)
        omega
    · exact Nat.sub_le _ _
  · obtain ⟨n, hn⟩ : ∃ n, obj.blocks = n + 1 := ⟨obj.blocks - 1, by omega⟩
    have hmap : (List.range obj.blocks).map (manifestBlockRowCount obj)
        = (List.range (n + 1)).map fun b =>
            if b + 1 < n + 1 then obj.blockShare else obj.rows - obj.rowsBeforeLast := by
      rw [hn]
      apply List.map_congr_left
      intro b hb
      rw [manifestBlockRowCount_eq hblocks hrows (hn ▸ List.mem_range.mp hb), hlast, hn]
    have hbefore : obj.rowsBeforeLast = n * obj.blockShare := by
      rw [TAEObjectInfo.rowsBeforeLast, hn, Nat.add_sub_cancel]
    rw [hmap, sum_map_share, ← hbefore]
    omega

/-- Two blocks for 10000 rows. -/
theorem twoBlocks_dealt : ({ filePath := "a.tae", rows := 10000, blocks := 2 } : TAEObjectInfo).DealsOutRows :=
  (manifestRows_dealt_iff (by decide) (by decide) (by decide)).mpr fun _ => by decide

/-- Three blocks for 8193 rows: the first two get 16384 of them, and the last one
    2^64 - 8191. -/
theorem threeBlocks_not_dealt :
    let obj : TAEObjectInfo := { filePath := "a.tae", rows := 8193, blocks := 3 }
    manifestBlockRowCount obj 2 = 2 ^ 64 - 8191 ∧ ¬obj.DealsOutRows := by
  intro obj
  refine ⟨by decide, fun h => ?_⟩
  exact absurd (h.le_rows 2 (by decide)) (by decide)

end TaeScanner
