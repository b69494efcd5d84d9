/-
  TaeScanner.Lib.Paths

  Paths as texts with a separator, resolved component by component: an empty or a
  "." component stays where it is, ".." steps up, every other one steps down.  A
  path is confined when no beginning of it leads out of the place it starts at.
-/

import Mathlib.Data.List.Basic

namespace TaeScanner.Lib

variable {α : Type _} [DecidableEq α]

/-- A place in the tree: the names from its top down. -/
abbrev Place (α : Type _) := List (List α)

/-- One component. -/
def stepInto (dot : α) (place : Place α) (component : List α) : Place α :=
  if component = [] ∨ component = [dot] then place
  else if component = [dot, dot] then place.dropLast
  else place ++ [component]

def walk (dot : α) (place : Place α) (components : List (List α)) : Place α :=
  components.foldl (stepInto dot) place

/-- Where the resolution of a path starts: an absolute path replaces the root. -/
def pathStart (sep : α) (root : Place α) (path : List α) : Place α :=
  if path.head? = some sep then [] else root

/-- The path stays at or below the root, however many of its components are taken. -/
def StaysBelow (sep dot : α) (root : Place α) (path : List α) : Prop :=
  ∀ k, root <+: walk dot (pathStart sep root path) ((path.splitOn sep).take k)

section Below
variable {sep dot : α} {root place : Place α} {components : List (List α)}

theorem prefix_stepInto {component : List α} (h : root <+: place) (hc : component ≠ [dot, dot]) :
    root <+: stepInto dot place component := by
  rw [stepInto]
  rw [if_neg hc]
  split
  · exact h
  · exact h.trans (List.prefix_append _ _)

/-- Without a step up there is no way out. -/
theorem prefix_walk (h : root <+: place) (hup : [dot, dot] ∉ components) :
    root <+: walk dot place components := by
  induction components generalizing place with
  | nil => exact h
  | cons c components ih =>
      rw [List.mem_cons, not_or] at hup
      exact ih (prefix_stepInto h (Ne.symm hup.1)) hup.2

theorem staysBelow_of_relative {path : List α} (hrel : path.head? ≠ some sep)
    (hup : [dot, dot] ∉ path.splitOn sep) : StaysBelow sep dot root path := by
  intro k
  rw [pathStart, if_neg hrel]
  apply prefix_walk (List.prefix_rfl)
  intro hmem
  exact hup (List.mem_of_mem_take hmem)

end Below

end TaeScanner.Lib
