/-
  TaeScanner.Lib.Extremes

  The least and the greatest of the values that a loop meets.  The values come in
  pairs, a lower and an upper bound of something; the first pair starts the range
  and each later one widens it, by the tests `x < least` and `greatest < x`.  A
  key in a linear order says where a value stands.
-/

import TaeScanner.Lib.Loop
import Mathlib.Order.Lattice

namespace TaeScanner.Lib

section Extremes
variable {α β : Type _} [LinearOrder β] (key : α → β)

/-- Widen a range to a pair of bounds. -/
def widen (range : Option (α × α)) (p : α × α) : Option (α × α) :=
  match range with
  | none => some p
  | some (lo, hi) =>
      some (if key p.1 < key lo then p.1 else lo, if key hi < key p.2 then p.2 else hi)

/-- The range from `lo` to `hi` is the smallest one around the pairs. -/
structure Spans (pairs : List (α × α)) (lo hi : α) : Prop where
  lo_mem : ∃ p ∈ pairs, p.1 = lo
  hi_mem : ∃ p ∈ pairs, p.2 = hi
  lo_le : ∀ p ∈ pairs, key lo ≤ key p.1
  le_hi : ∀ p ∈ pairs, key p.2 ≤ key hi

/-- The range of the pairs met so far; there is none before the first. -/
def RangeOf (pairs : List (α × α)) : Option (α × α) → Prop
  | none => pairs = []
  | some (lo, hi) => Spans key pairs lo hi

variable {key} {pairs : List (α × α)} {lo hi : α}

/-- One more pair widens the range. -/
theorem Spans.widen (h : Spans key pairs lo hi) (p : α × α) :
    Spans key (pairs ++ [p]) (if key p.1 < key lo then p.1 else lo)
      (if key hi < key p.2 then p.2 else hi) := by
  obtain ⟨plo, hplo, hlo⟩ := h.lo_mem
  obtain ⟨phi, hphi, hhi⟩ := h.hi_mem
  have hlast : p ∈ pairs ++ [p] := List.mem_append_right _ (List.mem_singleton_self p)
  refine ⟨?_, ?_, ?_, ?_⟩
  · split
    · exact ⟨p, hlast, rfl⟩
    · exact ⟨plo, List.mem_append_left _ hplo, hlo⟩
  · split
    · exact ⟨p, hlast, rfl⟩
    · exact ⟨phi, List.mem_append_left _ hphi, hhi⟩
  · rw [List.forall_mem_append, List.forall_mem_singleton]
    split
    · next hlt => exact ⟨fun q hq => le_trans (le_of_lt hlt) (h.lo_le q hq), le_refl _⟩
    · next hle => exact ⟨h.lo_le, not_lt.mp hle⟩
  · rw [List.forall_mem_append, List.forall_mem_singleton]
    split
    · next hlt => exact ⟨fun q hq => le_trans (h.le_hi q hq) (le_of_lt hlt), le_refl _⟩
    · next hle => exact ⟨h.le_hi, not_lt.mp hle⟩

/-- The step lemma. -/
theorem RangeOf.widen {range : Option (α × α)} (h : RangeOf key pairs range) (p : α × α) :
    RangeOf key (pairs ++ [p]) (widen key range p) := by
  cases range with
  | none =>
      have hnil : pairs = [] := h
      have hself : p ∈ [p] := List.mem_singleton_self p
      rw [hnil]
      exact ⟨⟨p, hself, rfl⟩, ⟨p, hself, rfl⟩, List.forall_mem_singleton.mpr (le_refl _),
        List.forall_mem_singleton.mpr (le_refl _)⟩
  | some range => exact Spans.widen h p

/-- The run lemma: the loop ends with the range of all pairs. -/
theorem foldl_widen (pairs : List (α × α)) : RangeOf key pairs (pairs.foldl (widen key) none) :=
  foldl_invariant (RangeOf key) rfl fun _ p _ _ _ hdone => hdone.widen p

end Extremes

end TaeScanner.Lib
