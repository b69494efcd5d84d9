/-
  TaeScanner.Reader.Coalescing

  The merged ranges of the sorted requests.

    * a request never starts before its range, whatever wraps around;
    * as long as no range reaches 2^32 bytes, every request lies in its range and
      every range ends with one of its requests;
    * when a range does reach 2^32 bytes, its length wraps around and the request
      that reached it is left sticking out.

  Which ranges there are does not depend on the order: one starts at every offset
  that all requests from smaller offsets leave a wider gap to.
-/

import TaeScanner.Lib.Loop
import TaeScanner.Reader.ReadBlock

namespace TaeScanner

open Lib

/-- One past the last byte. -/
def ReadReq.stop (req : ReadReq) : Nat := req.offset + req.length

def CoalescedRead.stop (cr : CoalescedRead) : Nat := cr.offset + cr.length

-- ============================================================================
-- One iteration
-- ============================================================================

section Step
variable {gapMax : Nat} {c : Coalesced} {last : CoalescedRead} {req : ReadReq}

@[simp] theorem cover_offset : (last.cover req).offset = last.offset := by
  rw [CoalescedRead.cover]
  split
  · rfl
  · rfl

theorem cover_length_lt (h : last.length < 2 ^ 32) : (last.cover req).length < 2 ^ 32 := by
  rw [CoalescedRead.cover]
  split
  · exact Nat.mod_lt _ (by decide)
  · exact h

/-- Short of 2^32 bytes the range is extended to the end of the request. -/
theorem cover_stop (h : req.stop < last.offset + 2 ^ 32) :
    (last.cover req).stop = max last.stop req.stop := by
  unfold ReadReq.stop at h
  unfold CoalescedRead.cover CoalescedRead.stop ReadReq.stop
  split
  · next hlt =>
      show last.offset + (req.offset + req.length - last.offset) % 2 ^ 32 = _
      rw [Nat.mod_eq_of_lt (by omega)]
      omega
  · next hge => omega

/-- The request gets a range of its own, behind a wide gap, or the last range. -/
theorem add_cases (gapMax : Nat) (c : Coalesced) (req : ReadReq) :
    (c.add gapMax req = c.push req ∧
      ∀ last, c.reads.getLast? = some last → last.stop + gapMax < req.offset) ∨
    ∃ front last, c.reads = front ++ [last] ∧ req.offset ≤ last.stop + gapMax ∧
      c.add gapMax req = ⟨front ++ [last.cover req], c.reqToCoalesced ++ [front.length]⟩ := by
  rw [Coalesced.add]
  cases hlast : c.reads.getLast? with
  | none => exact Or.inl ⟨rfl, nofun⟩
  | some last =>
      simp only
      split
      · next hgap =>
          have hreads := List.dropLast_append_getLast? last hlast
          refine Or.inr ⟨c.reads.dropLast, last, hreads.symm, ?_, ?_⟩
          · rw [CoalescedRead.stop]
            omega
          · rw [List.length_dropLast]
      · next hgap =>
          refine Or.inl ⟨rfl, fun last' h => ?_⟩
          obtain rfl := Option.some.inj h
          rw [CoalescedRead.stop]
          omega

/-- Replacing the last element changes one lookup. -/
theorem getElem?_replace_last {α : Type _} {front : List α} {last x : α} (last' : α) {k : Nat}
    (h : (front ++ [last])[k]? = some x) :
    (front ++ [last'])[k]? = some x ∨ x = last ∧ (front ++ [last'])[k]? = some last' := by
  rcases Nat.lt_or_ge k front.length with hlt | hge
  · rw [List.getElem?_append_left hlt] at h
    exact Or.inl (by rw [List.getElem?_append_left hlt, h])
  · have hindex : k = front.length := by
      have hlen := (List.getElem?_eq_some_iff.mp h).1
      rw [List.length_append, List.length_singleton] at hlen
      omega
    rw [hindex, List.getElem?_concat_length] at h
    exact Or.inr ⟨(Option.some.inj h).symm, by rw [hindex, List.getElem?_concat_length]⟩

/-- Every request done has a range, and the two are related. -/
structure Coalesced.Maps (c : Coalesced) (done : List ReadReq)
    (P : CoalescedRead → ReadReq → Prop) : Prop where
  length_eq : done.length = c.reqToCoalesced.length
  mapped : ∀ p ∈ done.zip c.reqToCoalesced, ∃ cr, c.reads[p.2]? = some cr ∧ P cr p.1

variable {done : List ReadReq} {P : CoalescedRead → ReadReq → Prop}

theorem Coalesced.Maps.push (h : c.Maps done P) (hreq : P ⟨req.offset, req.length⟩ req) :
    (c.push req).Maps (done ++ [req]) P := by
  refine ⟨by simp [Coalesced.push, h.length_eq], fun p hp => ?_⟩
  rw [Coalesced.push, List.zip_append h.length_eq, List.mem_append] at hp
  rcases hp with hp | hp
  · obtain ⟨cr, hcr, hP⟩ := h.mapped p hp
    refine ⟨cr, ?_, hP⟩
    rw [Coalesced.push, List.getElem?_append_left (List.getElem?_eq_some_iff.mp hcr).1, hcr]
  · obtain rfl := List.mem_singleton.mp hp
    exact ⟨_, List.getElem?_concat_length .., hreq⟩

theorem Coalesced.Maps.cover {front : List CoalescedRead} (h : c.Maps done P)
    (hreads : c.reads = front ++ [last]) (hkeep : ∀ q, P last q → P (last.cover req) q)
    (hreq : P (last.cover req) req) :
    Coalesced.Maps ⟨front ++ [last.cover req], c.reqToCoalesced ++ [front.length]⟩ (done ++ [req]) P := by
  refine ⟨by simp [h.length_eq], fun p hp => ?_⟩
  rw [List.zip_append h.length_eq, List.mem_append] at hp
  rcases hp with hp | hp
  · obtain ⟨cr, hcr, hP⟩ := h.mapped p hp
    rw [hreads] at hcr
    rcases getElem?_replace_last (last.cover req) hcr with hsame | ⟨rfl, hnew⟩
    · exact ⟨cr, hsame, hP⟩
    · exact ⟨_, hnew, hkeep _ hP⟩
  · obtain rfl := List.mem_singleton.mp hp
    exact ⟨_, List.getElem?_concat_length .., hreq⟩

end Step

-- ============================================================================
-- Where the ranges start
-- ============================================================================

section Starts
variable (gapMax : Nat) (reqs : List ReadReq)

/-- A merged range starts at `s`: a request is there, and all requests from
    smaller offsets end more than a gap before. -/
structure RangeStart (s : Nat) : Prop where
  mem : ∃ req ∈ reqs, req.offset = s
  gap : ∀ req ∈ reqs, req.offset < s → req.stop + gapMax < s

/-- The request ends less than 2^32 bytes behind the start of its range. -/
def ReadReq.Short (req : ReadReq) : Prop :=
  ∃ s, RangeStart gapMax reqs s ∧ s ≤ req.offset ∧ req.stop < s + 2 ^ 32

variable {gapMax reqs}

theorem RangeStart.congr {reqs' : List ReadReq} (h : ∀ req, req ∈ reqs ↔ req ∈ reqs') {s : Nat} :
    RangeStart gapMax reqs s ↔ RangeStart gapMax reqs' s := by
  refine ⟨fun ⟨⟨req, hreq, hs⟩, hgap⟩ => ⟨⟨req, (h req).mp hreq, hs⟩, fun q hq => ?_⟩,
    fun ⟨⟨req, hreq, hs⟩, hgap⟩ => ⟨⟨req, (h req).mpr hreq, hs⟩, fun q hq => ?_⟩⟩
  · exact hgap q ((h q).mpr hq)
  · exact hgap q ((h q).mp hq)

theorem ReadReq.Short.congr {reqs' : List ReadReq} (h : ∀ req, req ∈ reqs ↔ req ∈ reqs') {req : ReadReq} :
    req.Short gapMax reqs ↔ req.Short gapMax reqs' := by
  simp only [ReadReq.Short, RangeStart.congr h]

/-- Below 2^32 bytes every request is short: a range starts at the smallest offset. -/
theorem short_of_stop_lt (h : ∀ req ∈ reqs, req.stop < 2 ^ 32) : ∀ req ∈ reqs, req.Short gapMax reqs := by
  intro req hreq
  have hex : ∃ s, ∃ q ∈ reqs, q.offset = s := ⟨_, req, hreq, rfl⟩
  refine ⟨Nat.find hex, ⟨Nat.find_spec hex, fun q hq hlt => ?_⟩, Nat.find_le ⟨req, hreq, rfl⟩, ?_⟩
  · exact absurd ⟨q, hq, rfl⟩ (Nat.find_min hex hlt)
  · have hstop := h req hreq
    omega

end Starts

-- ============================================================================
-- The invariants of the loop
-- ============================================================================

/-- What holds whatever wraps around. -/
structure Coalesced.Sane (done : List ReadReq) (c : Coalesced) : Prop where
  starts : c.Maps done fun cr req => cr.offset ≤ req.offset
  length_lt : ∀ cr ∈ c.reads, cr.length < 2 ^ 32
  offset_mem : ∀ cr ∈ c.reads, ∃ req ∈ done, req.offset = cr.offset

/-- What holds as long as nothing has wrapped around. -/
structure Coalesced.Exact (gapMax : Nat) (all done : List ReadReq) (c : Coalesced) : Prop where
  covers : c.Maps done fun cr req => req.stop ≤ cr.stop
  ends : ∀ cr ∈ c.reads, ∃ req ∈ done, req.stop = cr.stop
  nil : c.reads = [] → done = []
  start : ∀ last, c.reads.getLast? = some last → RangeStart gapMax all last.offset
  furthest : ∀ last, c.reads.getLast? = some last → ∀ req ∈ done, req.stop ≤ last.stop
  latest : ∀ last, c.reads.getLast? = some last →
    ∀ req ∈ done, RangeStart gapMax all req.offset → req.offset ≤ last.offset

/-- Some request ends 2^32 bytes or more behind the start of its range. -/
def Coalesced.Wrapped (done : List ReadReq) (c : Coalesced) : Prop :=
  ∃ p ∈ done.zip c.reqToCoalesced, ∃ cr, c.reads[p.2]? = some cr ∧ cr.offset + 2 ^ 32 ≤ p.1.stop

section Invariants
variable {gapMax : Nat} {c : Coalesced} {done rest all : List ReadReq} {req : ReadReq}
variable {front : List CoalescedRead} {last : CoalescedRead}

-- ----------------------------------------------------------------------------
-- Sane
-- ----------------------------------------------------------------------------

theorem Coalesced.Sane.push (h : c.Sane done) (hlen : req.length < 2 ^ 32) :
    (c.push req).Sane (done ++ [req]) where
  starts := h.starts.push (Nat.le_refl _)
  length_lt := forall_mem_concat.mpr ⟨h.length_lt, hlen⟩
  offset_mem := forall_mem_concat.mpr ⟨fun cr hcr => exists_mem_concat.mpr (Or.inl (h.offset_mem cr hcr)),
    exists_mem_concat.mpr (Or.inr rfl)⟩

theorem Coalesced.Sane.cover (h : c.Sane done) (hreads : c.reads = front ++ [last])
    (hsorted : ∀ q ∈ done, q.offset ≤ req.offset) :
    Coalesced.Sane (done ++ [req])
      ⟨front ++ [last.cover req], c.reqToCoalesced ++ [front.length]⟩ := by
  obtain ⟨hfrontLen, hlastLen⟩ := forall_mem_concat.mp (hreads ▸ h.length_lt)
  obtain ⟨hfrontOff, p, hp, hpoff⟩ := forall_mem_concat.mp (hreads ▸ h.offset_mem)
  have hstart : last.offset ≤ req.offset := hpoff ▸ hsorted p hp
  refine ⟨?_, forall_mem_concat.mpr ⟨hfrontLen, cover_length_lt hlastLen⟩,
    forall_mem_concat.mpr ⟨fun cr hcr => exists_mem_concat.mpr (Or.inl (hfrontOff cr hcr)), ?_⟩⟩
  · apply h.starts.cover hreads
    · intro q hq
      rw [cover_offset]
      exact hq
    · rw [cover_offset]
      exact hstart
  · rw [cover_offset]
    exact exists_mem_concat.mpr (Or.inl ⟨p, hp, hpoff⟩)

-- ----------------------------------------------------------------------------
-- Wrapped
-- ----------------------------------------------------------------------------

theorem Coalesced.Wrapped.push (h : c.Wrapped done) (hlen : done.length = c.reqToCoalesced.length) :
    (c.push req).Wrapped (done ++ [req]) := by
  obtain ⟨p, hp, cr, hcr, hout⟩ := h
  refine ⟨p, ?_, cr, ?_, hout⟩
  · rw [Coalesced.push, List.zip_append hlen]
    exact List.mem_append_left _ hp
  · rw [Coalesced.push, List.getElem?_append_left (List.getElem?_eq_some_iff.mp hcr).1, hcr]

theorem Coalesced.Wrapped.cover (h : c.Wrapped done) (hlen : done.length = c.reqToCoalesced.length)
    (hreads : c.reads = front ++ [last]) :
    Coalesced.Wrapped (done ++ [req])
      ⟨front ++ [last.cover req], c.reqToCoalesced ++ [front.length]⟩ := by
  obtain ⟨p, hp, cr, hcr, hout⟩ := h
  have hzip : p ∈ (done ++ [req]).zip (c.reqToCoalesced ++ [front.length]) := by
    rw [List.zip_append hlen]
    exact List.mem_append_left _ hp
  rw [hreads] at hcr
  rcases getElem?_replace_last (last.cover req) hcr with hsame | ⟨rfl, hnew⟩
  · exact ⟨p, hzip, cr, hsame, hout⟩
  · refine ⟨p, hzip, cr.cover req, hnew, ?_⟩
    rw [cover_offset]
    exact hout

-- ----------------------------------------------------------------------------
-- Exact
-- ----------------------------------------------------------------------------

/-- A request behind a wide gap starts a range. -/
theorem Coalesced.Exact.rangeStart (h : c.Exact gapMax all done) (hall : all = done ++ req :: rest)
    (hrest : ∀ q ∈ rest, req.offset ≤ q.offset)
    (hgap : ∀ last, c.reads.getLast? = some last → last.stop + gapMax < req.offset) :
    RangeStart gapMax all req.offset := by
  subst hall
  refine ⟨⟨req, by simp, rfl⟩, fun q hq hlt => ?_⟩
  rcases List.mem_append.mp hq with hq | hq
  · cases hreads : c.reads.getLast? with
    | none =>
        rw [h.nil (List.getLast?_eq_none_iff.mp hreads)] at hq
        cases hq
    | some last =>
        have hstop := h.furthest last hreads q hq
        have hwide := hgap last hreads
        omega
  · rcases List.mem_cons.mp hq with rfl | hq
    · omega
    · have hlater := hrest q hq
      omega

theorem Coalesced.Exact.push (h : c.Exact gapMax all done)
    (hsorted : ∀ q ∈ done, q.offset ≤ req.offset) (hstart : RangeStart gapMax all req.offset)
    (hgap : ∀ last, c.reads.getLast? = some last → last.stop + gapMax < req.offset) :
    (c.push req).Exact gapMax all (done ++ [req]) := by
  have hlast : ∀ last, (c.push req).reads.getLast? = some last → last = ⟨req.offset, req.length⟩ := by
    intro last hlast
    rw [Coalesced.push, List.getLast?_concat] at hlast
    exact (Option.some.inj hlast).symm
  refine ⟨h.covers.push (Nat.le_refl _), forall_mem_concat.mpr ⟨fun cr hcr => ?_, ?_⟩, fun hnil => ?_,
    fun last hl => ?_, fun last hl => forall_mem_concat.mpr ⟨fun q hq => ?_, ?_⟩,
    fun last hl => forall_mem_concat.mpr ⟨fun q hq _ => ?_, fun _ => ?_⟩⟩
  · exact exists_mem_concat.mpr (Or.inl (h.ends cr hcr))
  · exact exists_mem_concat.mpr (Or.inr rfl)
  · exact absurd hnil (List.append_ne_nil_of_right_ne_nil _ (List.cons_ne_nil _ _))
  · rw [hlast last hl]
    exact hstart
  · rw [hlast last hl]
    cases hreads : c.reads.getLast? with
    | none =>
        rw [h.nil (List.getLast?_eq_none_iff.mp hreads)] at hq
        cases hq
    | some old =>
        have hstop := h.furthest old hreads q hq
        have hwide := hgap old hreads
        show q.stop ≤ req.offset + req.length
        omega
  · rw [hlast last hl]
    exact Nat.le_refl _
  · rw [hlast last hl]
    exact hsorted q hq
  · rw [hlast last hl]

/-- No range starts between the last range and a request that joins it. -/
theorem Coalesced.Exact.rangeStart_le (h : c.Exact gapMax all done) (hall : all = done ++ req :: rest)
    (hsorted : all.Pairwise fun a b => a.offset ≤ b.offset) (hlast : c.reads.getLast? = some last)
    (hgap : req.offset ≤ last.stop + gapMax) {s : Nat} (hs : RangeStart gapMax all s)
    (hle : s ≤ req.offset) : s ≤ last.offset := by
  obtain ⟨⟨q, hq, rfl⟩, hwide⟩ := hs
  subst hall
  obtain ⟨-, htail, hcross⟩ := List.pairwise_append.mp hsorted
  rcases List.mem_append.mp hq with hdone | hrest
  · exact h.latest last hlast q hdone ⟨⟨q, hq, rfl⟩, hwide⟩
  · have hsame : q.offset = req.offset := by
      rcases List.mem_cons.mp hrest with rfl | hrest
      · rfl
      · exact Nat.le_antisymm hle ((List.pairwise_cons.mp htail).1 q hrest)
    -- the request that ends the range: no gap behind it, so it starts there too
    have hmem : last ∈ c.reads := List.mem_of_getLast? hlast
    obtain ⟨p, hp, hstop⟩ := h.ends last hmem
    have hbefore : p.offset ≤ req.offset := hcross p hp req List.mem_cons_self
    rcases Nat.lt_or_ge p.offset q.offset with hlt | hge
    · have hclear := hwide p (List.mem_append_left _ hp) hlt
      omega
    · have hequal : p.offset = q.offset := by omega
      rw [← hequal]
      refine h.latest last hlast p hp ⟨⟨p, List.mem_append_left _ hp, rfl⟩, ?_⟩
      rw [hequal]
      exact hwide

theorem Coalesced.Exact.cover (h : c.Exact gapMax all done) (hall : all = done ++ req :: rest)
    (hsorted : all.Pairwise fun a b => a.offset ≤ b.offset) (hreads : c.reads = front ++ [last])
    (hgap : req.offset ≤ last.stop + gapMax) (hshort : req.stop < last.offset + 2 ^ 32) :
    Coalesced.Exact gapMax all (done ++ [req])
      ⟨front ++ [last.cover req], c.reqToCoalesced ++ [front.length]⟩ := by
  have hlast : c.reads.getLast? = some last := by rw [hreads, List.getLast?_concat]
  have hstop : (last.cover req).stop = max last.stop req.stop := cover_stop hshort
  have hnew : ∀ new, (front ++ [last.cover req]).getLast? = some new → new = last.cover req := by
    intro new hn
    rw [List.getLast?_concat] at hn
    exact (Option.some.inj hn).symm
  obtain ⟨hfront, q, hq, hend⟩ := forall_mem_concat.mp (hreads ▸ h.ends)
  refine ⟨?_, forall_mem_concat.mpr ⟨fun cr hcr => ?_, ?_⟩, fun hnil => ?_, fun new hn => ?_,
    fun new hn => forall_mem_concat.mpr ⟨fun q hq => ?_, ?_⟩,
    fun new hn => forall_mem_concat.mpr ⟨fun q hq hstart => ?_, fun hstart => ?_⟩⟩
  · apply h.covers.cover hreads
    · intro q hq
      rw [hstop]
      exact Nat.le_trans hq (Nat.le_max_left ..)
    · rw [hstop]
      exact Nat.le_max_right ..
  · exact exists_mem_concat.mpr (Or.inl (hfront cr hcr))
  · rw [hstop]
    rcases Nat.le_total last.stop req.stop with hle | hle
    · exact exists_mem_concat.mpr (Or.inr (Nat.max_eq_right hle).symm)
    · exact exists_mem_concat.mpr (Or.inl ⟨q, hq, hend.trans (Nat.max_eq_left hle).symm⟩)
  · exact absurd hnil (List.append_ne_nil_of_right_ne_nil _ (List.cons_ne_nil _ _))
  · rw [hnew new hn, cover_offset]
    exact h.start last hlast
  · rw [hnew new hn, hstop]
    exact Nat.le_trans (h.furthest last hlast q hq) (Nat.le_max_left ..)
  · rw [hnew new hn, hstop]
    exact Nat.le_max_right ..
  · rw [hnew new hn, cover_offset]
    exact h.latest last hlast q hq hstart
  · rw [hnew new hn, cover_offset]
    exact h.rangeStart_le hall hsorted hlast hgap hstart (Nat.le_refl _)

end Invariants

-- ============================================================================
-- The loop
-- ============================================================================

/-- Either nothing has wrapped around, and every request done is short, or a
    request sticks out of its range, and it is not short. -/
structure Coalesced.Inv (gapMax : Nat) (all done : List ReadReq) (c : Coalesced) : Prop where
  sane : c.Sane done
  run : c.Exact gapMax all done ∧ (∀ req ∈ done, req.Short gapMax all) ∨
    c.Wrapped done ∧ ∃ req ∈ done, ¬req.Short gapMax all

theorem Coalesced.Inv.step {gapMax : Nat} {all done rest : List ReadReq} {req : ReadReq} {c : Coalesced}
    (hsorted : all.Pairwise fun a b => a.offset ≤ b.offset) (hlen : ∀ q ∈ all, q.length < 2 ^ 32)
    (hall : all = done ++ req :: rest) (h : c.Inv gapMax all done) :
    (c.add gapMax req).Inv gapMax all (done ++ [req]) := by
  have hsorted' := hsorted
  rw [hall] at hsorted'
  obtain ⟨-, htail, hcross⟩ := List.pairwise_append.mp hsorted'
  have hbefore : ∀ q ∈ done, q.offset ≤ req.offset := fun q hq => hcross q hq req List.mem_cons_self
  have hafter : ∀ q ∈ rest, req.offset ≤ q.offset := (List.pairwise_cons.mp htail).1
  have hreqlen : req.length < 2 ^ 32 := hlen req (by rw [hall]; simp)
  have hmaps := h.sane.starts.length_eq
  rcases add_cases gapMax c req with ⟨hadd, hgap⟩ | ⟨front, last, hreads, hgap, hadd⟩
  · rw [hadd]
    refine ⟨h.sane.push hreqlen, ?_⟩
    rcases h.run with ⟨hexact, hshort⟩ | ⟨hwrapped, q, hq, hlong⟩
    · have hstart := hexact.rangeStart hall hafter hgap
      refine Or.inl ⟨hexact.push hbefore hstart hgap, forall_mem_concat.mpr ⟨hshort, ?_⟩⟩
      refine ⟨_, hstart, Nat.le_refl _, ?_⟩
      rw [ReadReq.stop]
      omega
    · exact Or.inr ⟨hwrapped.push hmaps, q, List.mem_append_left _ hq, hlong⟩
  · rw [hadd]
    refine ⟨h.sane.cover hreads hbefore, ?_⟩
    rcases h.run with ⟨hexact, hshort⟩ | ⟨hwrapped, q, hq, hlong⟩
    · have hlast : c.reads.getLast? = some last := by rw [hreads, List.getLast?_concat]
      rcases Nat.lt_or_ge req.stop (last.offset + 2 ^ 32) with hlt | hge
      · refine Or.inl ⟨hexact.cover hall hsorted hreads hgap hlt, forall_mem_concat.mpr ⟨hshort, ?_⟩⟩
        obtain ⟨p, hp, hpoff⟩ := h.sane.offset_mem last (List.mem_of_getLast? hlast)
        exact ⟨_, hexact.start last hlast, hpoff ▸ hbefore p hp, hlt⟩
      · refine Or.inr ⟨⟨(req, front.length), ?_, last.cover req, List.getElem?_concat_length .., ?_⟩,
          req, List.mem_append_right _ (List.mem_singleton_self _), ?_⟩
        · rw [List.zip_append hmaps]
          exact List.mem_append_right _ (List.mem_singleton_self _)
        · rw [cover_offset]
          exact hge
        · rintro ⟨s, hs, hle, hstop⟩
          have hsle := hexact.rangeStart_le hall hsorted hlast hgap hs hle
          omega
    · exact Or.inr ⟨hwrapped.cover hmaps hreads, q, List.mem_append_left _ hq, hlong⟩

theorem coalesce_inv {gapMax : Nat} {all : List ReadReq}
    (hsorted : all.Pairwise fun a b => a.offset ≤ b.offset) (hlen : ∀ q ∈ all, q.length < 2 ^ 32) :
    (coalesce gapMax all).Inv gapMax all all := by
  refine foldl_invariant (fun done (c : Coalesced) => c.Inv gapMax all done) ?_ ?_
  · exact ⟨⟨⟨rfl, nofun⟩, nofun, nofun⟩,
      Or.inl ⟨⟨⟨rfl, nofun⟩, nofun, fun _ => rfl, nofun, nofun, nofun⟩, nofun⟩⟩
  · intro done req rest c hall hc
    exact hc.step hsorted hlen hall

end TaeScanner
