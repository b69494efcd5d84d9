/-
  TaeScanner.Lib.SortedPrefix

  The first `n` elements of a sorted list.

  A sorted list is known by its counting function: how many of its elements
  come before a given one.  The counting function of a prefix is the smaller of
  that count and the length asked for, so the prefix of a longer list is the
  prefix of the shorter one exactly when every element added already has `n`
  elements before it.
-/

import Mathlib.Data.List.Sort

namespace TaeScanner.Lib

variable {α : Type} (r : α → α → Prop) [DecidableRel r]

/-- The first `n` elements of the sorted list. -/
def topN (n : Nat) (l : List α) : List α := (l.insertionSort r).take n

/-- How many elements come before `d` or tie with it. -/
def countUpTo (d : α) (l : List α) : Nat := l.countP fun x => decide (r x d)

section CountUpTo
variable {r}

theorem countUpTo_perm {l l' : List α} (h : l.Perm l') (d : α) : countUpTo r d l = countUpTo r d l' :=
  h.countP_eq _

@[simp] theorem countUpTo_append (d : α) (l l' : List α) :
    countUpTo r d (l ++ l') = countUpTo r d l + countUpTo r d l' := List.countP_append

@[simp] theorem countUpTo_sort (d : α) (l : List α) :
    countUpTo r d (l.insertionSort r) = countUpTo r d l := countUpTo_perm (List.perm_insertionSort r l) d

theorem countUpTo_pos {d : α} {l : List α} : 0 < countUpTo r d l ↔ ∃ x ∈ l, r x d := by
  simp [countUpTo]

/-- More elements come before a later one. -/
theorem countUpTo_mono [IsTrans α r] {d e : α} (h : r d e) (l : List α) :
    countUpTo r d l ≤ countUpTo r e l := by
  refine List.countP_mono_left fun x _ hx => ?_
  exact decide_eq_true (trans_of r (of_decide_eq_true hx) h)

/-- Elements that each have `n` others before them do not count up to `n`. -/
theorem min_countUpTo_append [IsTrans α r] {n : Nat} {kept more : List α}
    (h : ∀ x ∈ more, n ≤ countUpTo r x kept) (d : α) :
    min n (countUpTo r d (kept ++ more)) = min n (countUpTo r d kept) := by
  rw [countUpTo_append]
  rcases Nat.eq_zero_or_pos (countUpTo r d more) with hzero | hpos
  · rw [hzero, Nat.add_zero]
  · -- one of them comes before `d`, and `n` kept ones before that
    obtain ⟨x, hx, hxd⟩ := countUpTo_pos.mp hpos
    have hn : n ≤ countUpTo r d kept := (h x hx).trans (countUpTo_mono hxd kept)
    omega

/-- To have `n` elements of the kept lists before each element of the dropped ones is
    to have `n` elements before it in the lists in front of its own. -/
theorem forall_le_countUpTo_flatMap_iff [IsTrans α r] {β : Type} {values : β → List α} {n : Nat}
    {kept dropped : List β} :
    (∀ b ∈ dropped, ∀ d ∈ values b, n ≤ countUpTo r d (kept.flatMap values)) ↔
      ∀ between b rest, dropped = between ++ b :: rest → ∀ d ∈ values b,
        n ≤ countUpTo r d ((kept ++ between).flatMap values) := by
  constructor
  · rintro h between b rest rfl d hd
    refine (h b (List.mem_append_right _ List.mem_cons_self) d hd).trans ?_
    rw [List.flatMap_append, countUpTo_append]
    exact Nat.le_add_right _ _
  · intro h
    induction dropped generalizing kept with
    | nil => exact fun b hb => absurd hb List.not_mem_nil
    | cons b dropped ih =>
        have hb : ∀ d ∈ values b, n ≤ countUpTo r d (kept.flatMap values) := by
          intro d hd
          have hfirst := h [] b dropped rfl d hd
          rwa [List.append_nil] at hfirst
        -- the others have `b` in front of them too
        have hrest : ∀ c ∈ dropped, ∀ d ∈ values c, n ≤ countUpTo r d ((kept ++ [b]).flatMap values) := by
          apply ih
          intro between c rest hsplit d hd
          have hc := h (b :: between) c rest (congrArg (b :: ·) hsplit) d hd
          rwa [List.append_cons] at hc
        intro c hc d hd
        obtain rfl | hc := List.mem_cons.mp hc
        · exact hb d hd
        · have hcount := hrest c hc d hd
          rw [List.flatMap_append, List.flatMap_singleton] at hcount
          have hmin := min_countUpTo_append hb d
          omega

/-- The counting function of a prefix. -/
theorem countUpTo_take [IsTrans α r] {l : List α} (hl : l.Pairwise r) (n : Nat) (d : α) :
    countUpTo r d (l.take n) = min n (countUpTo r d l) := by
  induction l generalizing n with
  | nil => simp [countUpTo]
  | cons x xs ih =>
      obtain ⟨hx, hxs⟩ := List.pairwise_cons.mp hl
      by_cases hxd : r x d
      · cases n with
        | zero => simp [countUpTo]
        | succ n =>
            have hrec := ih hxs n
            simp only [countUpTo, List.take_succ_cons, List.countP_cons_of_pos, hxd,
              decide_true] at hrec ⊢
            omega
      · -- every later element is beyond `d` too
        have hzero : countUpTo r d (x :: xs) = 0 := by
          refine Nat.eq_zero_of_not_pos fun hpos => ?_
          obtain ⟨y, hy, hyd⟩ := countUpTo_pos.mp hpos
          rcases List.mem_cons.mp hy with rfl | hy
          · exact hxd hyd
          · exact hxd (trans_of r (hx y hy) hyd)
        have hle : countUpTo r d ((x :: xs).take n) ≤ countUpTo r d (x :: xs) :=
          (List.take_sublist n (x :: xs)).countP_le
        omega

/-- The head of a sorted list comes before anything that some element comes before. -/
theorem head_before [Std.Refl r] [IsTrans α r] {x d : α} {xs : List α} (hl : (x :: xs).Pairwise r)
    (hd : 0 < countUpTo r d (x :: xs)) : r x d := by
  obtain ⟨z, hz, hzd⟩ := countUpTo_pos.mp hd
  rcases List.mem_cons.mp hz with rfl | hz
  · exact hzd
  · exact trans_of r ((List.pairwise_cons.mp hl).1 z hz) hzd

/-- Sorted lists with the same counting function are equal. -/
theorem eq_of_countUpTo_eq [Std.Refl r] [Std.Antisymm r] [IsTrans α r] {l l' : List α}
    (hl : l.Pairwise r) (hl' : l'.Pairwise r) (h : ∀ d, countUpTo r d l = countUpTo r d l') :
    l = l' := by
  have hself : ∀ (x : α) (xs : List α), 0 < countUpTo r x (x :: xs) := fun x xs =>
    countUpTo_pos.mpr ⟨x, List.mem_cons_self, refl_of r x⟩
  induction l generalizing l' with
  | nil =>
      cases l' with
      | nil => rfl
      | cons y ys => exact absurd (h y ▸ hself y ys) (by simp [countUpTo])
  | cons x xs ih =>
      cases l' with
      | nil => exact absurd (h x ▸ hself x xs) (by simp [countUpTo])
      | cons y ys =>
          -- each head comes before the other
          have hxy : r x y := head_before hl (h y ▸ hself y ys)
          have hyx : r y x := head_before hl' (h x ▸ hself x xs)
          obtain rfl : x = y := antisymm_of r hxy hyx
          refine congrArg (x :: ·) ?_
          refine ih (List.pairwise_cons.mp hl).2 (List.pairwise_cons.mp hl').2 fun d => ?_
          have hd := h d
          simp only [countUpTo, List.countP_cons] at hd ⊢
          omega

end CountUpTo

section TopN
variable {r} [IsTrans α r] [Std.Total r]

theorem countUpTo_topN (n : Nat) (l : List α) (d : α) :
    countUpTo r d (topN r n l) = min n (countUpTo r d l) := by
  rw [topN, countUpTo_take (List.pairwise_insertionSort r l), countUpTo_sort]

variable [Std.Antisymm r]

/-- Equal prefixes are equal counts up to `n`. -/
theorem topN_eq_iff {n : Nat} {l l' : List α} :
    topN r n l = topN r n l' ↔ ∀ d, min n (countUpTo r d l) = min n (countUpTo r d l') := by
  constructor
  · intro h d
    rw [← countUpTo_topN, ← countUpTo_topN, h]
  · intro h
    have hsorted : ∀ l : List α, (topN r n l).Pairwise r := fun l =>
      (List.pairwise_insertionSort r l).sublist (List.take_sublist _ _)
    refine eq_of_countUpTo_eq (hsorted l) (hsorted l') fun d => ?_
    rw [countUpTo_topN, countUpTo_topN]
    exact h d

/-- The order of the elements does not matter. -/
theorem topN_perm {n : Nat} {l l' : List α} (h : l.Perm l') : topN r n l = topN r n l' :=
  topN_eq_iff.mpr fun d => by rw [countUpTo_perm h]

/-- Elements can be dropped iff each has `n` kept elements before it. -/
theorem topN_append_eq_iff {n : Nat} {kept dropped : List α} :
    topN r n kept = topN r n (kept ++ dropped) ↔ ∀ d ∈ dropped, n ≤ countUpTo r d kept := by
  rw [topN_eq_iff]
  constructor
  · intro h d hd
    have hpos : 0 < countUpTo r d dropped := countUpTo_pos.mpr ⟨d, hd, refl_of r d⟩
    have hmin := h d
    rw [countUpTo_append] at hmin
    omega
  · exact fun h x => (min_countUpTo_append h x).symm

end TopN

end TaeScanner.Lib
