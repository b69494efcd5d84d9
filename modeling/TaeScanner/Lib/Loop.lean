/-
  TaeScanner.Lib.Loop

  Counted loops that may fail: `forRange n body a` runs `body 0`, ..,
  `body (n - 1)` on an accumulator and stops at the first `none`.  The rules
  are the ones a verification needs: an invariant indexed by the number of
  rounds done, its partial-correctness form, and commutation with a map the
  body does not see.
-/

namespace TaeScanner.Lib

variable {α : Type _}

/-- `for (i = 0; i < n; i++) a = body i a`, failing as soon as a round fails. -/
def forRange : Nat → (Nat → α → Option α) → α → Option α
  | 0, _, a => some a
  | n + 1, body, a => (forRange n body a).bind (body n)

section Rules
variable {n : Nat} {body : Nat → α → Option α} {a b : α}

@[simp] theorem forRange_zero : forRange 0 body a = some a := rfl

theorem forRange_succ : forRange (n + 1) body a = (forRange n body a).bind (body n) := rfl

/-- Total correctness: an invariant every round re-establishes holds at the end,
    and no round fails. -/
theorem forRange_invariant (I : Nat → α → Prop) (hinit : I 0 a)
    (hround : ∀ i, i < n → ∀ x, I i x → ∃ y, body i x = some y ∧ I (i + 1) y) :
    ∃ y, forRange n body a = some y ∧ I n y := by
  induction n with
  | zero => exact ⟨a, rfl, hinit⟩
  | succ n ih =>
      obtain ⟨x, hx, hIx⟩ := ih (fun i hi => hround i (by omega))
      obtain ⟨y, hy, hIy⟩ := hround n (by omega) x hIx
      exact ⟨y, by rw [forRange_succ, hx, Option.bind_some, hy], hIy⟩

/-- Rounds that fail on their own input alone all have to succeed. -/
theorem forRange_isSome_iff {γ : Type _} {g : Nat → Option γ} {f : Nat → α → γ → α} :
    (forRange n (fun i x => (g i).map (f i x)) a).isSome ↔ ∀ i, i < n → (g i).isSome := by
  induction n with
  | zero => exact iff_of_true rfl fun i hi => absurd hi (Nat.not_lt_zero i)
  | succ n ih =>
      rw [forRange_succ, Nat.forall_lt_succ_right, ← ih]
      cases forRange n (fun i x => (g i).map (f i x)) a with
      | none => simp
      | some x => rw [Option.bind_some, Option.isSome_map, Option.isSome_some, eq_self, true_and]

/-- What every round keeps is kept by a loop that ends. -/
theorem forRange_keeps (I : α → Prop) (hround : ∀ i x y, I x → body i x = some y → I y) (ha : I a)
    (h : forRange n body a = some b) : I b := by
  induction n generalizing b with
  | zero => exact Option.some.inj h ▸ ha
  | succ n ih =>
      obtain ⟨x, hx, hy⟩ := Option.bind_eq_some_iff.mp h
      exact hround n x b (ih hx) hy

/-- A map every round commutes with commutes with the loop. -/
theorem forRange_map (g : α → α) (h : ∀ i x, body i (g x) = (body i x).map g) :
    forRange n body (g a) = (forRange n body a).map g := by
  induction n with
  | zero => rfl
  | succ n ih =>
      rw [forRange_succ, forRange_succ, ih]
      cases forRange n body a with
      | none => rfl
      | some x => exact h n x

end Rules

/-- What holds of all elements after a new last one. -/
theorem forall_mem_concat {α : Type _} {P : α → Prop} {xs : List α} {x : α} :
    (∀ y ∈ xs ++ [x], P y) ↔ (∀ y ∈ xs, P y) ∧ P x := by
  rw [List.forall_mem_append, List.forall_mem_singleton]

/-- What holds of some element after a new last one. -/
theorem exists_mem_concat {α : Type _} {P : α → Prop} {xs : List α} {x : α} :
    (∃ y ∈ xs ++ [x], P y) ↔ (∃ y ∈ xs, P y) ∨ P x := by
  simp only [List.mem_append, List.mem_singleton, or_and_right, exists_or, exists_eq_left]

/-- An invariant of a loop over a list may speak of what is done and what is left. -/
theorem foldl_invariant {β γ : Type _} {f : γ → β → γ} {init : γ} {all : List β}
    (I : List β → γ → Prop) (hinit : I [] init)
    (hstep : ∀ done x rest c, all = done ++ x :: rest → I done c → I (done ++ [x]) (f c x)) :
    I all (all.foldl f init) := by
  have hrun : ∀ rest done c, all = done ++ rest → I done c → I all (rest.foldl f c) := by
    intro rest
    induction rest with
    | nil =>
        intro done c hall hc
        rw [List.append_nil] at hall
        exact hall ▸ hc
    | cons x rest ih =>
        intro done c hall hc
        have hnext : all = (done ++ [x]) ++ rest := by rw [hall, List.append_assoc]; rfl
        exact ih (done ++ [x]) (f c x) hnext (hstep done x rest c hall hc)
  exact hrun all [] init rfl hinit

-- ============================================================================
-- Filling a list position by position
-- ============================================================================

section Fill
variable {β : Type _} {results : List (Nat × β)} {acc : List β}

theorem foldl_set_length : (results.foldl (fun acc p => acc.set p.1 p.2) acc).length = acc.length := by
  induction results generalizing acc with
  | nil => rfl
  | cons p results ih => rw [List.foldl_cons, ih, List.length_set]

/-- A position that is not written keeps its element. -/
theorem foldl_set_of_notMem {i : Nat} (h : i ∉ results.map (·.1)) :
    (results.foldl (fun acc p => acc.set p.1 p.2) acc)[i]? = acc[i]? := by
  induction results generalizing acc with
  | nil => rfl
  | cons p results ih =>
      rw [List.map_cons, List.mem_cons, not_or] at h
      rw [List.foldl_cons, ih h.2, List.getElem?_set_ne (Ne.symm h.1)]

/-- A position that is written once holds what was written. -/
theorem foldl_set_of_mem (hnodup : (results.map (·.1)).Nodup) {p : Nat × β} (hp : p ∈ results)
    (hlt : p.1 < acc.length) :
    (results.foldl (fun acc p => acc.set p.1 p.2) acc)[p.1]? = some p.2 := by
  induction results generalizing acc with
  | nil => cases hp
  | cons q results ih =>
      rw [List.map_cons, List.nodup_cons] at hnodup
      rw [List.foldl_cons]
      rcases List.mem_cons.mp hp with rfl | hp
      · rw [foldl_set_of_notMem hnodup.1, List.getElem?_set_self hlt]
      · exact ih hnodup.2 hp (by rwa [List.length_set])

end Fill

-- ============================================================================
-- The elements a filter keeps
-- ============================================================================

/-- An element that is kept stands behind the elements kept before it. -/
theorem getElem?_filter_countP {keep : α → Bool} {xs : List α} {i : Nat} {x : α} (hx : xs[i]? = some x)
    (hkeep : keep x = true) : (xs.filter keep)[(xs.take i).countP keep]? = some x := by
  obtain ⟨hi, rfl⟩ := List.getElem?_eq_some_iff.mp hx
  have hsplit : xs.filter keep
      = (xs.take i).filter keep ++ xs[i] :: (xs.drop (i + 1)).filter keep := by
    rw [← List.filter_cons_of_pos hkeep, ← List.drop_eq_getElem_cons hi, ← List.filter_append,
      List.take_append_drop]
  rw [hsplit, List.countP_eq_length_filter, List.getElem?_append_right (Nat.le_refl _), Nat.sub_self]
  rfl

end TaeScanner.Lib
