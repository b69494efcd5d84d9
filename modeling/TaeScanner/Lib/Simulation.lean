/-
  TaeScanner.Lib.Simulation

  Threads with more state than a system needs, over the same shared state.  The
  richer threads are related to the plain ones by an abstraction of their
  states:

    * when each of their steps is one of the plain ones, their runs are runs of
      the plain threads;
    * when in addition they can follow each plain step, they have no other runs, and
      get stuck only where the plain threads do.
-/

import TaeScanner.Lib.Interleaving

namespace TaeScanner.Lib

variable {ι σ τ τ' ε : Type}

/-- A configuration seen through an abstraction of the thread states. -/
def Config.mapThreads (f : τ → τ') (c : Config ι σ τ ε) : Config ι σ τ' ε :=
  ⟨c.shared, fun i => f (c.threads i), c.log⟩

section MapThreads
variable (f : τ → τ') (c : Config ι σ τ ε)

theorem Config.mapThreads_advance [DecidableEq ι] [AddCommMonoid ε] (i : ι) (s : σ) (t : τ) (e : ε) :
    (c.advance i s t e).mapThreads f = (c.mapThreads f).advance i s (f t) e := by
  have hthreads : (fun j => f (Function.update c.threads i t j)) =
      Function.update (fun j => f (c.threads j)) i (f t) :=
    funext fun j => Function.apply_update (fun _ => f) c.threads i t j
  exact congrArg (fun threads => Config.mk s threads (c.log + e)) hthreads

end MapThreads

/-- The steps of the richer threads are exactly those of the plain ones, as long as
    `I` holds of the thread, which its own steps preserve. -/
structure Refines (step : σ → τ → σ → τ → ε → Prop) (step' : σ → τ' → σ → τ' → ε → Prop)
    (f : τ → τ') (I : τ → Prop) : Prop where
  keeps : ∀ {s t s' t' e}, I t → step s t s' t' e → I t'
  forward : ∀ {s t s' t' e}, I t → step s t s' t' e → step' s (f t) s' (f t') e
  backward : ∀ {s t s' u e}, I t → step' s (f t) s' u e → ∃ t', step s t s' t' e ∧ f t' = u

section Refines
variable [DecidableEq ι] [AddCommMonoid ε] {step : σ → τ → σ → τ → ε → Prop}
  {step' : σ → τ' → σ → τ' → ε → Prop} {f : τ → τ'} {I : τ → Prop} {init c : Config ι σ τ ε}

/-- The thread invariant holds in every run. -/
theorem Refines.reachable_keeps (h : Refines step step' f I) (hinit : ∀ i, I (init.threads i))
    (hc : Reachable step init c) : ∀ i, I (c.threads i) :=
  hc.invariant (fun _ t => I t) hinit (fun _ _ _ _ _ ht hstep => h.keeps ht hstep)
    fun _ _ _ _ _ _ _ hu _ => hu

/-- Runs of the richer threads are runs of the plain ones. -/
theorem Refines.reachable_map (h : Refines step step' f I) (hinit : ∀ i, I (init.threads i))
    (hc : Reachable step init c) : Reachable step' (init.mapThreads f) (c.mapThreads f) := by
  induction hc with
  | start => exact .start
  | @next c i s t e hc hstep ih =>
      rw [Config.mapThreads_advance]
      exact .next ih (h.forward (h.reachable_keeps hinit hc i) hstep)

/-- And they have no other runs. -/
theorem Refines.runs_iff (h : Refines step step' f I) (hinit : ∀ i, I (init.threads i))
    {d : Config ι σ τ' ε} :
    Reachable step' (init.mapThreads f) d ↔ ∃ c, Reachable step init c ∧ c.mapThreads f = d := by
  constructor
  · intro hd
    induction hd with
    | start => exact ⟨init, .start, rfl⟩
    | @next d i s u e _ hstep ih =>
        obtain ⟨c, hc, rfl⟩ := ih
        obtain ⟨t, ht, rfl⟩ := h.backward (h.reachable_keeps hinit hc i) hstep
        exact ⟨c.advance i s t e, .next hc ht, Config.mapThreads_advance ..⟩
  · rintro ⟨c, hc, rfl⟩
    exact h.reachable_map hinit hc

/-- Step by step. -/
theorem Refines.run_map (h : Refines step step' f I) (hinit : ∀ i, I (init.threads i)) {n : Nat}
    (hc : Run step init n c) : Run step' (init.mapThreads f) n (c.mapThreads f) := by
  induction hc with
  | start => exact .start
  | @next n c i s t e hc hstep ih =>
      rw [Config.mapThreads_advance]
      exact .next ih (h.forward (h.reachable_keeps hinit hc.reachable i) hstep)

omit [DecidableEq ι] [AddCommMonoid ε] in
/-- The plain threads are stuck where the richer ones are. -/
theorem Refines.stuck_map (h : Refines step step' f I) (hI : ∀ i, I (c.threads i)) (hstuck : c.Stuck step) :
    (c.mapThreads f).Stuck step' := by
  intro i s u e hstep
  obtain ⟨t, ht, -⟩ := h.backward (hI i) hstep
  exact hstuck i s t e ht

end Refines

end TaeScanner.Lib
