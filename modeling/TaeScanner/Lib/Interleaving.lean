/-
  TaeScanner.Lib.Interleaving

  Threads over a shared state, stepping in any order.  A thread's step reads and
  writes the shared state and its own state and adds to a log; nothing else is
  known of it, so the rules below are those of any such system:

    * an invariant of the shared state and one thread holds in every reachable
      configuration, when a thread's own steps and those of the others keep it;
    * what every step only moves between a pool, the threads and the log is
      conserved;
    * a thread whose steps use up a budget that the other threads do not
      refill takes boundedly many of them;
    * a system whose steps use up what its pool and its threads are worth makes
      boundedly many of them in all; steps that come for free only keep what is left
      below it.
-/

import Mathlib.Algebra.BigOperators.Group.Finset.Basic
import Mathlib.Algebra.Group.Prod
import Mathlib.Data.Fintype.Basic
import Mathlib.Tactic.Abel

namespace TaeScanner.Lib

/-- A shared state, the states of the threads, and what has been observed. -/
structure Config (ι σ τ ε : Type) where
  shared : σ
  threads : ι → τ
  log : ε

variable {ι σ τ ε : Type} [DecidableEq ι] [AddCommMonoid ε]

/-- Thread `i` makes a step. -/
def Config.advance (c : Config ι σ τ ε) (i : ι) (s : σ) (t : τ) (e : ε) : Config ι σ τ ε :=
  ⟨s, Function.update c.threads i t, c.log + e⟩

/-- The configurations that some interleaving of the threads' steps leads to. -/
inductive Reachable (step : σ → τ → σ → τ → ε → Prop) (init : Config ι σ τ ε) :
    Config ι σ τ ε → Prop
  | start : Reachable step init init
  | next {c : Config ι σ τ ε} {i : ι} {s : σ} {t : τ} {e : ε} : Reachable step init c →
      step c.shared (c.threads i) s t e → Reachable step init (c.advance i s t e)

/-- A stretch of a run in which thread `i` makes `n` steps and stays busy. -/
inductive Stretch (step : σ → τ → σ → τ → ε → Prop) (busy : τ → Prop) (i : ι)
    (init : Config ι σ τ ε) : Nat → Config ι σ τ ε → Prop
  | start : Stretch step busy i init 0 init
  | own {n : Nat} {c : Config ι σ τ ε} {s : σ} {t : τ} {e : ε} : Stretch step busy i init n c →
      step c.shared (c.threads i) s t e → busy t → Stretch step busy i init (n + 1) (c.advance i s t e)
  | other {n : Nat} {c : Config ι σ τ ε} {j : ι} {s : σ} {t : τ} {e : ε} : j ≠ i →
      Stretch step busy i init n c → step c.shared (c.threads j) s t e →
      Stretch step busy i init n (c.advance j s t e)

/-- A run of `n` steps, of any threads. -/
inductive Run (step : σ → τ → σ → τ → ε → Prop) (init : Config ι σ τ ε) : Nat → Config ι σ τ ε → Prop
  | start : Run step init 0 init
  | next {n : Nat} {c : Config ι σ τ ε} {i : ι} {s : σ} {t : τ} {e : ε} : Run step init n c →
      step c.shared (c.threads i) s t e → Run step init (n + 1) (c.advance i s t e)

/-- No thread can make a step. -/
def Config.Stuck (step : σ → τ → σ → τ → ε → Prop) (c : Config ι σ τ ε) : Prop :=
  ∀ i s t e, ¬step c.shared (c.threads i) s t e

section Advance
variable (c : Config ι σ τ ε) (i : ι) (s : σ) (t : τ) (e : ε)

@[simp] theorem Config.advance_shared : (c.advance i s t e).shared = s := rfl
@[simp] theorem Config.advance_log : (c.advance i s t e).log = c.log + e := rfl
@[simp] theorem Config.advance_self : (c.advance i s t e).threads i = t := Function.update_self ..

theorem Config.advance_other {j : ι} (h : j ≠ i) : (c.advance i s t e).threads j = c.threads j :=
  Function.update_of_ne h ..

/-- The threads other than `i` hold what they held. -/
theorem Config.sum_others [Fintype ι] {M : Type} [AddCommMonoid M] (held : τ → M) :
    ∑ j ∈ Finset.univ.erase i, held ((c.advance i s t e).threads j) =
      ∑ j ∈ Finset.univ.erase i, held (c.threads j) :=
  Finset.sum_congr rfl fun j hj => by rw [Config.advance_other _ _ _ _ _ (Finset.ne_of_mem_erase hj)]

end Advance

section Rules
variable {step : σ → τ → σ → τ → ε → Prop} {init c : Config ι σ τ ε}

/-- Runs can be continued. -/
theorem Reachable.trans {c' : Config ι σ τ ε} (h : Reachable step init c) (h' : Reachable step c c') :
    Reachable step init c' := by
  induction h' with
  | start => exact h
  | next _ hstep ih => exact .next ih hstep

/-- A step relation that allows more steps reaches more. -/
theorem Reachable.mono {step' : σ → τ → σ → τ → ε → Prop}
    (hsub : ∀ s t s' t' e, step s t s' t' e → step' s t s' t' e) (h : Reachable step init c) :
    Reachable step' init c := by
  induction h with
  | start => exact .start
  | next _ hstep ih => exact .next ih (hsub _ _ _ _ _ hstep)

/-- An invariant of the reachable configurations can be assumed of every step. -/
theorem Reachable.restrict (I : σ → τ → Prop)
    (hI : ∀ {c}, Reachable step init c → ∀ i, I c.shared (c.threads i)) (h : Reachable step init c) :
    Reachable (fun s t s' t' e => I s t ∧ step s t s' t' e) init c := by
  induction h with
  | start => exact .start
  | next hc hstep ih => exact .next ih ⟨hI hc _, hstep⟩

/-- The invariant rule. -/
theorem Reachable.invariant (I : σ → τ → Prop) (hinit : ∀ i, I init.shared (init.threads i))
    (hown : ∀ s t s' t' e, I s t → step s t s' t' e → I s' t')
    (hother : ∀ s t s' t' e u, I s t → I s u → step s t s' t' e → I s' u)
    (h : Reachable step init c) : ∀ i, I c.shared (c.threads i) := by
  induction h with
  | start => exact hinit
  | @next c i s t e _ hstep ih =>
      intro j
      by_cases hj : j = i
      · subst hj
        rw [Config.advance_self]
        exact hown _ _ _ _ _ (ih j) hstep
      · rw [Config.advance_other _ _ _ _ _ hj]
        exact hother _ _ _ _ _ _ (ih i) (ih j) hstep

/-- The conservation rule: what a step takes from the pool it adds to its
    thread or to the log. -/
theorem Reachable.conserves {M : Type} [AddCommMonoid M] [Fintype ι] (I : σ → τ → Prop)
    (pool : σ → M) (held : τ → M) (logged : ε →+ M)
    (hI : ∀ {c}, Reachable step init c → ∀ i, I c.shared (c.threads i))
    (hstep : ∀ s t s' t' e, I s t → step s t s' t' e →
      pool s + held t = pool s' + held t' + logged e)
    (h : Reachable step init c) :
    pool init.shared + ∑ i, held (init.threads i) + logged init.log =
      pool c.shared + ∑ i, held (c.threads i) + logged c.log := by
  induction h with
  | start => rfl
  | @next c i s t e hc hs ih =>
      rw [ih]
      have hmove := hstep _ _ _ _ _ (hI hc i) hs
      rw [← Finset.add_sum_erase Finset.univ (fun j => held (c.threads j)) (Finset.mem_univ i),
        ← Finset.add_sum_erase Finset.univ (fun j => held ((c.advance i s t e).threads j))
          (Finset.mem_univ i), Config.sum_others, Config.advance_self, Config.advance_shared,
        Config.advance_log, map_add, ← add_assoc, ← add_assoc, hmove]
      abel

/-- The budget rule: a busy thread makes no more steps than its budget. -/
theorem Stretch.bounded {busy : τ → Prop} {i : ι} {n : Nat} (budget : σ → τ → Nat)
    (I : σ → τ → Prop) (hI : ∀ {c}, Reachable step init c → ∀ j, I c.shared (c.threads j))
    (hown : ∀ s t s' t' e, I s t → step s t s' t' e → busy t' → budget s' t' < budget s t)
    (hother : ∀ s t s' t' e u, I s t → step s t s' t' e → budget s' u ≤ budget s u)
    (h : Stretch step busy i init n c) : n ≤ budget init.shared (init.threads i) := by
  suffices hsum : Reachable step init c ∧
      n + budget c.shared (c.threads i) ≤ budget init.shared (init.threads i) by omega
  induction h with
  | start => exact ⟨.start, by omega⟩
  | @own n c s t e _ hstep hbusy ih =>
      obtain ⟨hc, hle⟩ := ih
      refine ⟨.next hc hstep, ?_⟩
      have hlt := hown _ _ _ _ _ (hI hc i) hstep hbusy
      rw [Config.advance_self, Config.advance_shared]
      omega
  | @other n c j s t e hj _ hstep ih =>
      obtain ⟨hc, hle⟩ := ih
      refine ⟨.next hc hstep, ?_⟩
      have hmono := hother _ _ _ _ _ (c.threads i) (hI hc j) hstep
      rw [Config.advance_other _ _ _ _ _ (Ne.symm hj), Config.advance_shared]
      omega

theorem Run.reachable {n : Nat} (h : Run step init n c) : Reachable step init c := by
  induction h with
  | start => exact .start
  | next _ hstep ih => exact .next ih hstep

/-- The ranking rule: what the pool and the threads are worth pays a price for every step. -/
theorem Run.bounded [Fintype ι] (I : σ → τ → Prop) (pool : σ → Nat) (rank : τ → Nat) (price : Nat)
    (hI : ∀ {c}, Reachable step init c → ∀ i, I c.shared (c.threads i))
    (hstep : ∀ s t s' t' e, I s t → step s t s' t' e → price + (pool s' + rank t') ≤ pool s + rank t) {n : Nat}
    (h : Run step init n c) :
    n * price + (pool c.shared + ∑ i, rank (c.threads i)) ≤ pool init.shared + ∑ i, rank (init.threads i) := by
  induction h with
  | start => rw [Nat.zero_mul, Nat.zero_add]
  | @next n c i s t e hrun hs ih =>
      have hle := hstep _ _ _ _ _ (hI hrun.reachable i) hs
      rw [← Finset.add_sum_erase Finset.univ (fun j => rank (c.threads j)) (Finset.mem_univ i)] at ih
      rw [← Finset.add_sum_erase Finset.univ (fun j => rank ((c.advance i s t e).threads j)) (Finset.mem_univ i),
        Config.sum_others, Config.advance_self, Config.advance_shared, Nat.succ_mul]
      omega

end Rules

section Schedules
variable {next : σ → τ → Option (σ × τ × ε)} {step : σ → τ → σ → τ → ε → Prop}

/-- Run a schedule: the threads named make their next step in turn. -/
def Config.run (next : σ → τ → Option (σ × τ × ε)) :
    List ι → Config ι σ τ ε → Option (Config ι σ τ ε)
  | [], c => some c
  | i :: is, c => (next c.shared (c.threads i)).bind fun r => (c.advance i r.1 r.2.1 r.2.2).run next is

/-- A schedule that runs leads to a reachable configuration. -/
theorem Reachable.run {init c c' : Config ι σ τ ε} {is : List ι}
    (hnext : ∀ s t s' t' e, next s t = some (s', t', e) → step s t s' t' e)
    (hc : Reachable step init c) (h : c.run next is = some c') : Reachable step init c' := by
  induction is generalizing c with
  | nil =>
      obtain rfl := Option.some.inj h
      exact hc
  | cons i is ih =>
      obtain ⟨⟨s, t, e⟩, hr, hrest⟩ := Option.bind_eq_some_iff.mp h
      exact ih (.next hc (hnext _ _ _ _ _ hr)) hrest

/-- And it is a run of as many steps as it names threads. -/
theorem Run.of_run {init c c' : Config ι σ τ ε} {n : Nat} {is : List ι}
    (hnext : ∀ s t s' t' e, next s t = some (s', t', e) → step s t s' t' e) (hc : Run step init n c)
    (h : c.run next is = some c') : Run step init (n + is.length) c' := by
  induction is generalizing n c with
  | nil =>
      obtain rfl := Option.some.inj h
      exact hc
  | cons i is ih =>
      obtain ⟨⟨s, t, e⟩, hr, hrest⟩ := Option.bind_eq_some_iff.mp h
      have hrun := ih (hc.next (hnext _ _ _ _ _ hr)) hrest
      rwa [List.length_cons, Nat.add_comm is.length, ← Nat.add_assoc]

end Schedules

end TaeScanner.Lib
