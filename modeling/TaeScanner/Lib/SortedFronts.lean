/-
  TaeScanner.Lib.SortedFronts

  What may stand in front of an element when a list is sorted.

  A sort that is not stable puts elements that tie in any order.  So the front of
  an element is made of all that sort before it and of any choice of the others
  that tie with it, and each such choice is the front in some sorted arrangement.
-/

import Mathlib.Data.List.Sort
import Mathlib.Data.List.Sublists

namespace TaeScanner.Lib

section Fronts
variable {α : Type} [DecidableEq α] (le : α → α → Prop) [DecidableRel le]

/-- The elements that sort before `a`. -/
def sortedBefore (a : α) (l : List α) : List α := l.filter fun x => ¬le a x

/-- The other elements that tie with `a`. -/
def tiedWith (a : α) (l : List α) : List α := (l.erase a).filter fun x => le x a ∧ le a x

/-- The other elements that need not sort behind `a`. -/
def notBehind (a : α) (l : List α) : List α := (l.erase a).filter fun x => le x a

variable {le} {l front rest tied : List α} {a : α}

/-- An element does not sort before itself. -/
theorem sortedBefore_erase [Std.Refl le] (ha : a ∈ l) :
    (sortedBefore le a l).Perm (sortedBefore le a (l.erase a)) := by
  have hperm := (List.perm_cons_erase ha).filter fun x => decide ¬le a x
  rwa [List.filter_cons_of_neg (by simpa using refl_of le a)] at hperm

/-- Every front is a part of what need not sort behind `a`. -/
theorem front_subperm [Std.Total le] (ha : a ∈ l) (htied : tied ∈ (tiedWith le a l).sublists) :
    (sortedBefore le a l ++ tied).Subperm (notBehind le a l) := by
  have hsplit := (List.filter_append_perm (fun x => decide ¬le a x) (notBehind le a l)).subperm
  refine List.Subperm.trans ?_ hsplit
  have hbefore : (sortedBefore le a l).Perm ((notBehind le a l).filter fun x => decide ¬le a x) := by
    rw [notBehind, List.filter_filter]
    refine (sortedBefore_erase ha).trans (List.Perm.of_eq (List.filter_congr fun x _ => ?_))
    by_cases hle : le a x
    · simp [hle]
    · simp [hle, (total_of le a x).resolve_left hle]
  have htie : tied.Sublist ((notBehind le a l).filter fun x => !decide ¬le a x) := by
    refine (List.mem_sublists.mp htied).trans ?_
    rw [notBehind, List.filter_filter, tiedWith]
    apply List.monotone_filter_right
    intro x hx
    have hboth := of_decide_eq_true hx
    simp [hboth.1, hboth.2]
  exact hbefore.subperm.append htie.subperm

/-- In a sorted arrangement an element stands behind all that sort before it and some
    that tie with it. -/
theorem front_of_sorted [Std.Refl le] (hperm : (front ++ a :: rest).Perm l)
    (hsorted : (front ++ a :: rest).Pairwise le) :
    ∃ tied ∈ (tiedWith le a l).sublists, front.Perm (sortedBefore le a l ++ tied) := by
  obtain ⟨-, hrest, hcross⟩ := List.pairwise_append.mp hsorted
  have hfront : ∀ x ∈ front, le x a := fun x hx => hcross x hx a List.mem_cons_self
  -- what sorts before `a` is in front of it
  have hbefore : (front.filter fun x => decide ¬le a x).Perm (sortedBefore le a l) := by
    have hbehind : ((a :: rest).filter fun x => decide ¬le a x) = [] := by
      apply List.filter_eq_nil_iff.mpr
      intro y hy
      have hle : le a y := by
        obtain rfl | hy := List.mem_cons.mp hy
        · exact refl_of le y
        · exact (List.pairwise_cons.mp hrest).1 y hy
      simpa using hle
    have h := hperm.filter fun x => decide ¬le a x
    rwa [List.filter_append, hbehind, List.append_nil] at h
  -- the rest of the front ties with it
  have hties : (front.filter fun x => decide (le a x)) =
      front.filter fun x => decide (le x a ∧ le a x) := by
    apply List.filter_congr
    intro x hx
    rw [decide_eq_decide]
    exact (and_iff_right (hfront x hx)).symm
  have herase : (front ++ rest).Perm (l.erase a) := by
    have h := (List.perm_middle.symm.trans hperm).erase a
    rwa [List.erase_cons_head] at h
  have hsub : (front.filter fun x => decide (le x a ∧ le a x)).Subperm (tiedWith le a l) := by
    have h := herase.filter fun x => decide (le x a ∧ le a x)
    rw [List.filter_append] at h
    exact (List.sublist_append_left _ _).subperm.trans h.subperm
  obtain ⟨tied, htied, hsublist⟩ := hsub
  refine ⟨tied, List.mem_sublists.mpr hsublist, ?_⟩
  have hsplit := (List.filter_append_perm (fun x => decide ¬le a x) front).symm
  refine hsplit.trans (hbefore.append ?_)
  simpa [hties] using htied.symm

/-- Each choice of the elements that tie stands in front in some sorted arrangement. -/
theorem sorted_of_front [IsTrans α le] [Std.Total le] (ha : a ∈ l)
    (htied : tied ∈ (tiedWith le a l).sublists) :
    ∃ front rest, (front ++ a :: rest).Perm l ∧ (front ++ a :: rest).Pairwise le ∧
      front.Perm (sortedBefore le a l ++ tied) := by
  have hties : ∀ x ∈ tied, le x a ∧ le a x := by
    intro x hx
    have hmem := (List.mem_sublists.mp htied).subset hx
    exact of_decide_eq_true (List.mem_filter.mp hmem).2
  -- the others, none of which sorts before `a`
  obtain ⟨others, hothers⟩ : ∃ others, ((l.erase a).filter fun x => decide (le a x)).Perm (tied ++ others) := by
    apply List.Sublist.exists_perm_append
    refine (List.mem_sublists.mp htied).trans ?_
    apply List.monotone_filter_right
    intro x hx
    exact decide_eq_true (of_decide_eq_true hx).2
  have hbehind : ∀ x ∈ others, le a x := by
    intro x hx
    have hmem := hothers.mem_iff.mpr (List.mem_append_right _ hx)
    exact of_decide_eq_true (List.mem_filter.mp hmem).2
  have hfront : ∀ x ∈ sortedBefore le a l ++ tied, le x a := by
    intro x hx
    obtain hx | hx := List.mem_append.mp hx
    · have hnot : ¬le a x := of_decide_eq_true (List.mem_filter.mp hx).2
      exact (total_of le a x).resolve_left hnot
    · exact (hties x hx).1
  refine ⟨(sortedBefore le a l ++ tied).insertionSort le, others.insertionSort le, ?_, ?_,
    List.perm_insertionSort le _⟩
  · have hall : l.Perm (a :: (sortedBefore le a l ++ (tied ++ others))) := by
      refine (List.perm_cons_erase ha).trans (List.Perm.cons a ?_)
      have hsplit := (List.filter_append_perm (fun x => decide ¬le a x) (l.erase a)).symm
      refine hsplit.trans ((sortedBefore_erase ha).symm.append ?_)
      simpa using hothers
    refine List.Perm.trans ?_ hall.symm
    refine (List.perm_middle).trans (List.Perm.cons a ?_)
    rw [← List.append_assoc]
    exact (List.perm_insertionSort le _).append (List.perm_insertionSort le _)
  · refine List.pairwise_append.mpr ⟨List.pairwise_insertionSort le _, List.pairwise_cons.mpr ⟨?_,
      List.pairwise_insertionSort le _⟩, ?_⟩
    · intro y hy
      exact hbehind y ((List.perm_insertionSort le _).mem_iff.mp hy)
    · intro x hx y hy
      have hxa := hfront x ((List.perm_insertionSort le _).mem_iff.mp hx)
      obtain rfl | hy := List.mem_cons.mp hy
      · exact hxa
      · exact trans_of le hxa (hbehind y ((List.perm_insertionSort le _).mem_iff.mp hy))

/-- What is asked of every element and its front, in every sorted arrangement. -/
theorem forall_front_iff [IsTrans α le] [Std.Total le] {P : List α → α → Prop}
    (hP : ∀ {front front' a}, front.Perm front' → P front a → P front' a) :
    (∀ front a rest, (front ++ a :: rest).Perm l → (front ++ a :: rest).Pairwise le → P front a) ↔
      ∀ a ∈ l, ∀ tied ∈ (tiedWith le a l).sublists, P (sortedBefore le a l ++ tied) a := by
  constructor
  · intro h a ha tied htied
    obtain ⟨front, rest, hperm, hsorted, hfront⟩ := sorted_of_front ha htied
    exact hP hfront (h front a rest hperm hsorted)
  · intro h front a rest hperm hsorted
    obtain ⟨tied, htied, hfront⟩ := front_of_sorted hperm hsorted
    have ha : a ∈ l := hperm.mem_iff.mp (List.mem_append_right _ List.mem_cons_self)
    exact hP hfront.symm (h a ha tied htied)

end Fronts

end TaeScanner.Lib
