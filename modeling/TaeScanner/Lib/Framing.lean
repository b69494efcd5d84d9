/-
  TaeScanner.Lib.Framing

  Content stored in fixed-size frames: the content is cut every `c` elements
  and each piece is preceded by a header of `h` elements, so the file consists
  of frames of `h + c` elements, the last one possibly short.

  `Framed h c content file` relates the two; `unframe h c` removes the headers
  frame by frame, of any file.  A file can be cut at frame boundaries, so a reader
  may fetch only the frames that a content range touches: `unframe_frames` and
  `window_slice` are the two facts such a reader needs.
-/

import TaeScanner.Lib.Bytes

namespace TaeScanner.Lib

variable {α : Type _} {h c : Nat}

/-- `file` is `content` cut every `c` elements, each piece behind a header of
    `h` arbitrary elements. -/
inductive Framed (h c : Nat) : List α → List α → Prop
  | nil : Framed h c [] []
  | short {hdr piece : List α} (hh : hdr.length = h) (hpos : 0 < piece.length)
      (hlt : piece.length < c) : Framed h c piece (hdr ++ piece)
  | full {hdr piece content file : List α} (hh : hdr.length = h) (hc : piece.length = c)
      (rest : Framed h c content file) : Framed h c (piece ++ content) (hdr ++ piece ++ file)

/-- The content of frame `b` of a file. -/
def frameContent (h c : Nat) (file : List α) (b : Nat) : List α :=
  (file.drop (b * (h + c) + h)).take c

/-- Remove the headers of all frames. -/
def unframe (h c : Nat) (file : List α) : List α :=
  (List.range ((file.length + (h + c) - 1) / (h + c))).flatMap (frameContent h c file)

/-! ## Removing the headers -/

theorem unframe_nil (hpos : 0 < h + c) : unframe h c ([] : List α) = [] := by
  have hzero : (0 + (h + c) - 1) / (h + c) = 0 := Nat.div_eq_of_lt (by omega)
  rw [unframe, List.length_nil, hzero, List.range_zero, List.flatMap_nil]

/-- The first frame, and the rest of the file. -/
theorem unframe_step (hpos : 0 < h + c) {file : List α} (hne : file ≠ []) :
    unframe h c file = (file.drop h).take c ++ unframe h c (file.drop (h + c)) := by
  have hlen := List.length_pos_of_ne_nil hne
  have hcount : (file.length + (h + c) - 1) / (h + c)
      = ((file.drop (h + c)).length + (h + c) - 1) / (h + c) + 1 := by
    rw [List.length_drop, ← Nat.add_div_right _ hpos]
    by_cases hshort : file.length < h + c
    · rw [Nat.sub_eq_zero_of_le (Nat.le_of_lt hshort), Nat.div_eq_of_lt_le (k := 1) (by omega) (by omega),
        eq_comm]
      exact Nat.div_eq_of_lt_le (by omega) (by omega)
    · congr 1
      omega
  rw [unframe, hcount, List.range_succ_eq_map, List.flatMap_cons, List.flatMap_map, unframe]
  congr 1
  · rw [frameContent, Nat.zero_mul, Nat.zero_add]
  · apply List.flatMap_congr
    intro b _
    rw [frameContent, frameContent, List.drop_drop, Nat.succ_eq_add_one, Nat.succ_mul]
    congr 2
    omega

theorem Framed.unframe_eq (hpos : 0 < h + c) {content file : List α}
    (hf : Framed h c content file) : unframe h c file = content := by
  induction hf with
  | nil => exact unframe_nil hpos
  | @short hdr piece hh hlen hlt =>
      have hne : hdr ++ piece ≠ [] := List.append_ne_nil_of_right_ne_nil _ (List.ne_nil_of_length_pos hlen)
      have hrest : (hdr ++ piece).drop (h + c) = [] :=
        List.drop_of_length_le (by rw [List.length_append, hh]; omega)
      rw [unframe_step hpos hne, hrest, unframe_nil hpos, List.append_nil, ← hh, List.drop_left,
        List.take_of_length_le (Nat.le_of_lt hlt)]
  | @full hdr piece content file hh hc rest ih =>
      have hlen : (hdr ++ piece).length = h + c := by rw [List.length_append, hh, hc]
      have hne : hdr ++ piece ++ file ≠ [] := by
        apply List.ne_nil_of_length_pos
        rw [List.length_append]
        omega
      have hpiece : ((hdr ++ piece ++ file).drop h).take c = piece := by
        rw [List.append_assoc, ← hh, List.drop_left, ← hc, List.take_left]
      rw [unframe_step hpos hne, hpiece, ← hlen, List.drop_left, ih]

/-! ## Cutting at frame boundaries -/

theorem Framed.drop {content file : List α} (hf : Framed h c content file)
    (k : Nat) : Framed h c (content.drop (k * c)) (file.drop (k * (h + c))) := by
  induction k generalizing content file with
  | zero => simpa using hf
  | succ k ih =>
      cases hf with
      | nil => simpa using Framed.nil
      | short hh hlen hlt =>
          have hk : c ≤ (k + 1) * c := Nat.le_mul_of_pos_left c (Nat.succ_pos k)
          have hkb : h + c ≤ (k + 1) * (h + c) := Nat.le_mul_of_pos_left _ (Nat.succ_pos k)
          rw [List.drop_of_length_le (by omega),
            List.drop_of_length_le (by rw [List.length_append]; omega)]
          exact Framed.nil
      | full hh hc rest =>
          rename_i hdr piece content file
          have hk : (k + 1) * c = piece.length + k * c := by rw [hc]; ring
          have hkb : (k + 1) * (h + c) = (hdr ++ piece).length + k * (h + c) := by
            rw [List.length_append, hh, hc]; ring
          rw [hk, hkb, List.drop_length_add_append, List.drop_length_add_append]
          exact ih rest

/-- The first content elements follow the first header. -/
theorem Framed.take_drop {content file : List α} (hf : Framed h c content file) {m : Nat}
    (hm : m ≤ c) : (file.drop h).take m = content.take m := by
  cases hf with
  | nil => simp
  | short hh _ _ => rw [← hh, List.drop_left]
  | full hh hc rest =>
      rw [List.append_assoc, ← hh, List.drop_left, List.take_append_of_le_length (by omega),
        List.take_append_of_le_length (by omega)]

/-- A file with content holds at least one header besides the content. -/
theorem Framed.length_le {content file : List α} (hf : Framed h c content file)
    (hne : content ≠ []) : content.length + h ≤ file.length := by
  induction hf with
  | nil => exact absurd rfl hne
  | short hh _ _ => rw [List.length_append]; omega
  | full hh hc rest ih =>
      rename_i hdr piece content file
      simp only [List.length_append]
      rcases List.eq_nil_or_concat content with hnil | ⟨_, _, hcat⟩
      · rw [hnil, List.length_nil]; omega
      · have := ih (by simp [hcat])
        omega

/-! ## Arbitrary files

A file need not end with a frame that has content; what is left of a header
contributes nothing. -/

/-- Every whole frame holds `c` elements, the rest what its header leaves. -/
theorem unframe_length (hpos : 0 < h + c) (file : List α) :
    (unframe h c file).length = file.length / (h + c) * c + (file.length % (h + c) - h) := by
  induction hn : file.length using Nat.strong_induction_on generalizing file with
  | _ n ih =>
      subst hn
      by_cases hne : file = []
      · rw [hne, unframe_nil hpos]
        simp
      · rw [unframe_step hpos hne, List.length_append, List.length_take, List.length_drop]
        have hlen := List.length_pos_of_ne_nil hne
        have hdrop : (file.drop (h + c)).length = file.length - (h + c) := List.length_drop ..
        rw [ih _ (by omega) _ rfl, hdrop]
        by_cases hshort : file.length < h + c
        · rw [Nat.sub_eq_zero_of_le (Nat.le_of_lt hshort), Nat.div_eq_of_lt hshort,
            Nat.mod_eq_of_lt hshort, Nat.zero_div, Nat.zero_mod]
          omega
        · rw [Nat.div_eq_sub_div hpos (Nat.not_lt.mp hshort), Nat.mod_eq_sub_mod (Nat.not_lt.mp hshort),
            Nat.succ_mul]
          omega

/-- Content that reaches the end of `k` frames is a file that does. -/
theorem mul_le_unframe_length (hc : 0 < c) (file : List α) (k : Nat) :
    k * c ≤ (unframe h c file).length ↔ k * (h + c) ≤ file.length := by
  have hpos : 0 < h + c := by omega
  have hrest : file.length % (h + c) < h + c := Nat.mod_lt _ hpos
  have hquot : (unframe h c file).length / c = file.length / (h + c) := by
    have hpart : (file.length % (h + c) - h) / c = 0 := Nat.div_eq_of_lt (by omega)
    rw [unframe_length hpos, Nat.mul_comm, Nat.mul_add_div hc, hpart, Nat.add_zero]
  rw [← Nat.le_div_iff_mul_le hc, ← Nat.le_div_iff_mul_le hpos, hquot]

theorem unframe_drop (hpos : 0 < h + c) (file : List α) (k : Nat) :
    unframe h c (file.drop (k * (h + c))) = (unframe h c file).drop (k * c) := by
  induction k generalizing file with
  | zero => rw [Nat.zero_mul, Nat.zero_mul, List.drop_zero, List.drop_zero]
  | succ k ih =>
      by_cases hne : file = []
      · rw [hne, List.drop_nil, unframe_nil hpos, List.drop_nil]
      · have hstep : file.drop ((k + 1) * (h + c)) = (file.drop (h + c)).drop (k * (h + c)) := by
          rw [List.drop_drop, Nat.succ_mul, Nat.add_comm]
        rw [unframe_step hpos hne, hstep, ih]
        by_cases hfull : h + c ≤ file.length
        · have hpiece : ((file.drop h).take c).length = c := by
            rw [List.length_take, List.length_drop]
            omega
          have hsplit : (k + 1) * c = ((file.drop h).take c).length + k * c := by
            rw [hpiece, Nat.succ_mul, Nat.add_comm]
          rw [hsplit, List.drop_length_add_append]
        · have hnil : file.drop (h + c) = [] := List.drop_of_length_le (by omega)
          have hpiece : ((file.drop h).take c).length ≤ (k + 1) * c := by
            have hk : c ≤ (k + 1) * c := Nat.le_mul_of_pos_left c (Nat.succ_pos k)
            rw [List.length_take]
            omega
          rw [hnil, unframe_nil hpos, List.drop_nil, List.append_nil, List.drop_of_length_le hpiece]

theorem unframe_take (hpos : 0 < h + c) (file : List α) (k : Nat) :
    unframe h c (file.take (k * (h + c))) = (unframe h c file).take (k * c) := by
  induction k generalizing file with
  | zero => rw [Nat.zero_mul, Nat.zero_mul, List.take_zero, List.take_zero, unframe_nil hpos]
  | succ k ih =>
      by_cases hne : file = []
      · rw [hne, List.take_nil, unframe_nil hpos, List.take_nil]
      · have hne' : file.take ((k + 1) * (h + c)) ≠ [] := by
          have hlen := List.length_pos_of_ne_nil hne
          have hk : h + c ≤ (k + 1) * (h + c) := Nat.le_mul_of_pos_left _ (Nat.succ_pos k)
          rw [ne_eq, List.take_eq_nil_iff]
          exact not_or.mpr ⟨by omega, hne⟩
        have hsucc : (k + 1) * (h + c) = (h + c) + k * (h + c) := by rw [Nat.succ_mul, Nat.add_comm]
        rw [unframe_step hpos hne, unframe_step hpos hne', hsucc, List.drop_take, List.drop_take,
          Nat.add_sub_cancel_left, ih, List.take_take, Nat.min_eq_left (by omega)]
        by_cases hfull : h + c ≤ file.length
        · have hpiece : ((file.drop h).take c).length = c := by
            rw [List.length_take, List.length_drop]
            omega
          rw [Nat.succ_mul, Nat.add_comm (k * c) c, List.take_append, hpiece,
            List.take_of_length_le (l := (file.drop h).take c) (by omega), Nat.add_sub_cancel_left]
        · have hnil : file.drop (h + c) = [] := List.drop_of_length_le (by omega)
          have hpiece : ((file.drop h).take c).length ≤ (k + 1) * c := by
            have hk : c ≤ (k + 1) * c := Nat.le_mul_of_pos_left c (Nat.succ_pos k)
            rw [List.length_take]
            omega
          rw [hnil, unframe_nil hpos, List.take_nil, List.append_nil, List.take_of_length_le hpiece]

/-- Stripping some frames of any file yields their content. -/
theorem unframe_frames (hpos : 0 < h + c) (file : List α) (first k : Nat) :
    unframe h c ((file.drop (first * (h + c))).take (k * (h + c)))
      = ((unframe h c file).drop (first * c)).take (k * c) := by
  rw [unframe_take hpos, unframe_drop hpos]

/-- A slice of a window of a buffer is a slice of the buffer. -/
theorem slice?_window (buf : List α) {start width off n : Nat} (hs : start ≤ off)
    (hw : off + n ≤ start + width) (hle : off + n ≤ buf.length) :
    slice? ((buf.drop start).take width) (off - start) n = slice? buf off n := by
  have hlen : ((buf.drop start).take width).length = min width (buf.length - start) := by
    rw [List.length_take, List.length_drop]
  rw [slice?_of_le hle, slice?_of_le (by omega), List.drop_take, List.take_take,
    List.drop_drop, Nat.min_eq_left (by omega), Nat.add_sub_cancel' hs]

/-- A content range lies inside the content of the frames it touches, at its
    own offset less that of the first frame. -/
theorem window_slice (hpos : 0 < c) (content : List α) {off n : Nat}
    (hn : 1 ≤ n) (hle : off + n ≤ content.length) :
    slice? ((content.drop (off / c * c)).take (((off + n - 1) / c + 1 - off / c) * c))
        (off - off / c * c) n
      = slice? content off n := by
  have hfirst : off / c * c ≤ off := Nat.div_mul_le_self off c
  have hmono : off / c ≤ (off + n - 1) / c := Nat.div_le_div_right (by omega)
  have hlast : off + n - 1 < ((off + n - 1) / c + 1) * c := by
    rw [Nat.mul_comm]
    exact Nat.lt_mul_div_succ _ hpos
  apply slice?_window content hfirst _ hle
  rw [Nat.sub_mul]
  have hspan : off / c * c ≤ ((off + n - 1) / c + 1) * c := Nat.mul_le_mul_right c (by omega)
  generalize off / c * c = a at *
  generalize ((off + n - 1) / c + 1) * c = b at *
  omega

end TaeScanner.Lib
