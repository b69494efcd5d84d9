/-
  TaeScanner.Lib.Checks

  Tests over a list that may fail to have an answer.  `allM`, `anyM`, `filterM`
  and `mapM` in `Option` run from the front; these are their rules when every
  test answers, and what an answer says about the tests that were run.
-/

import Mathlib.Data.List.Forall2

namespace TaeScanner.Lib

variable {α : Type} {p : α → Option Bool} {b : α → Bool} {x : α} {xs : List α}

section All

theorem allM_cons_true (h : p x = some true) : (x :: xs).allM p = xs.allM p := by
  simp [List.allM, h]

theorem allM_cons_false (h : p x = some false) : (x :: xs).allM p = some false := by
  simp [List.allM, h]

theorem allM_cons_none (h : p x = none) : (x :: xs).allM p = none := by
  simp [List.allM, h]

/-- When every test answers, all of them hold or not. -/
theorem allM_of_some (h : ∀ x ∈ xs, p x = some (b x)) : xs.allM p = some (xs.all b) := by
  induction xs with
  | nil => rfl
  | cons x xs ih =>
      have hx := h x (List.mem_cons_self ..)
      have hxs := ih fun y hy => h y (List.mem_cons_of_mem x hy)
      cases hb : b x with
      | true =>
          rw [hb] at hx
          rw [allM_cons_true hx, hxs, List.all_cons, hb, Bool.true_and]
      | false =>
          rw [hb] at hx
          rw [allM_cons_false hx, List.all_cons, hb, Bool.false_and]

/-- Answers that refine each other test by test do so for the whole list. -/
theorem allM_mono {q : α → Option Bool} (h : ∀ x ∈ xs, ∀ c, p x = some c → q x = some c) {c : Bool}
    (hp : xs.allM p = some c) : xs.allM q = some c := by
  induction xs with
  | nil => exact hp
  | cons x xs ih =>
      have hx := h x (List.mem_cons_self ..)
      rcases hpx : p x with _ | _ | _
      · rw [allM_cons_none hpx] at hp
        cases hp
      · rw [allM_cons_false hpx] at hp
        rw [allM_cons_false (hx _ hpx), hp]
      · rw [allM_cons_true hpx] at hp
        rw [allM_cons_true (hx _ hpx)]
        exact ih (fun y hy => h y (List.mem_cons_of_mem x hy)) hp

theorem allM_congr {q : α → Option Bool} (h : ∀ x ∈ xs, p x = q x) : xs.allM p = xs.allM q := by
  induction xs with
  | nil => rfl
  | cons x xs ih =>
      have hxs := ih fun y hy => h y (List.mem_cons_of_mem x hy)
      simp only [List.allM, h x (List.mem_cons_self ..), hxs]

theorem allM_eq_true : xs.allM p = some true ↔ ∀ x ∈ xs, p x = some true := by
  induction xs with
  | nil => simp [List.allM]
  | cons x xs ih =>
      rw [List.forall_mem_cons]
      rcases hx : p x with _ | _ | _
      · rw [allM_cons_none hx]
        simp
      · rw [allM_cons_false hx]
        simp
      · rw [allM_cons_true hx, ih]
        simp

end All

/-- When every test answers, one of them holds or none. -/
theorem anyM_of_some (h : ∀ x ∈ xs, p x = some (b x)) : xs.anyM p = some (xs.any b) := by
  induction xs with
  | nil => rfl
  | cons x xs ih =>
      have hx := h x (List.mem_cons_self ..)
      have hxs := ih fun y hy => h y (List.mem_cons_of_mem x hy)
      rw [List.anyM_cons, hx, hxs, List.any_cons]
      cases b x <;> rfl

/-- A disjunction over an image asks the preimages. -/
theorem anyM_map {β : Type _} (f : β → α) (ys : List β) :
    (ys.map f).anyM p = ys.anyM fun y => p (f y) := by
  induction ys with
  | nil => rfl
  | cons y ys ih => simp only [List.map_cons, List.anyM, ih]

/-- A positive answer is some test's positive answer. -/
theorem exists_of_anyM (h : xs.anyM p = some true) : ∃ x ∈ xs, p x = some true := by
  induction xs with
  | nil => cases h
  | cons x xs ih =>
      rw [List.anyM_cons] at h
      rcases hx : p x with _ | _ | _
      · rw [hx] at h
        cases h
      · rw [hx] at h
        obtain ⟨y, hy, hpy⟩ := ih h
        exact ⟨y, List.mem_cons_of_mem x hy, hpy⟩
      · exact ⟨x, List.mem_cons_self .., hx⟩

/-- Tests without an answer give none, if there is one to run. -/
theorem anyM_none_of_ne_nil (hne : xs ≠ []) (h : ∀ x ∈ xs, p x = none) : xs.anyM p = none := by
  cases xs with
  | nil => exact absurd rfl hne
  | cons x xs => rw [List.anyM_cons, h x (List.mem_cons_self ..)]; rfl

section Filter

theorem filterAuxM_eq (acc : List α) :
    xs.filterAuxM p acc = (xs.filterAuxM p []).map (· ++ acc) := by
  induction xs generalizing acc with
  | nil => rfl
  | cons x xs ih =>
      rw [List.filterAuxM, List.filterAuxM]
      rcases p x with _ | _ | _
      · rfl
      · show xs.filterAuxM p acc = (xs.filterAuxM p []).map (· ++ acc)
        exact ih acc
      · show xs.filterAuxM p (x :: acc) = (xs.filterAuxM p [x]).map (· ++ acc)
        rw [ih (x :: acc), ih [x], Option.map_map]
        congr 1
        funext l
        simp

theorem filterM_cons :
    (x :: xs).filterM p
      = (p x).bind fun keep => (xs.filterM p).map fun l => if keep then x :: l else l := by
  rw [List.filterM]
  rw [List.filterAuxM]
  rcases p x with _ | _ | _
  · rfl
  · show (xs.filterAuxM p []).bind _ = ((xs.filterAuxM p []).bind _).map _
    cases xs.filterAuxM p [] <;> rfl
  · show (xs.filterAuxM p [x]).bind _ = ((xs.filterAuxM p []).bind _).map _
    rw [filterAuxM_eq [x]]
    cases xs.filterAuxM p [] with
    | none => rfl
    | some l => exact congrArg some List.reverse_concat

/-- The kept elements, when every test answers. -/
theorem filterM_eq_some {l : List α} :
    xs.filterM p = some l ↔
      (∀ x ∈ xs, (p x).isSome) ∧ l = xs.filter fun x => decide (p x = some true) := by
  induction xs generalizing l with
  | nil =>
      refine ⟨fun h => ⟨fun x hx => absurd hx List.not_mem_nil, (Option.some.inj h).symm⟩, ?_⟩
      rintro ⟨-, rfl⟩
      rfl
  | cons x xs ih =>
      rw [filterM_cons, Option.bind_eq_some_iff, List.forall_mem_cons]
      constructor
      · rintro ⟨keep, hx, hl⟩
        obtain ⟨tail, htail, rfl⟩ := Option.map_eq_some_iff.mp hl
        obtain ⟨hxs, rfl⟩ := ih.mp htail
        refine ⟨⟨by rw [hx]; rfl, hxs⟩, ?_⟩
        rw [List.filter_cons, hx]
        cases keep <;> rfl
      · rintro ⟨⟨hx, hxs⟩, rfl⟩
        obtain ⟨keep, hkeep⟩ := Option.isSome_iff_exists.mp hx
        refine ⟨keep, hkeep, ?_⟩
        rw [ih.mpr ⟨hxs, rfl⟩, Option.map_some, List.filter_cons, hkeep]
        cases keep <;> rfl

theorem filterM_of_some (h : ∀ x ∈ xs, p x = some (b x)) : xs.filterM p = some (xs.filter b) := by
  refine filterM_eq_some.mpr ⟨fun x hx => by rw [h x hx]; rfl, ?_⟩
  apply List.filter_congr
  intro x hx
  rw [h x hx]
  cases b x <;> rfl

end Filter

section Collect
variable {β : Type _} {f : α → Option β}

/-- Collecting succeeds when every element does, in step with the elements. -/
theorem mapM_eq_some {ys : List β} :
    xs.mapM f = some ys ↔ List.Forall₂ (fun x y => f x = some y) xs ys := by
  induction xs generalizing ys with
  | nil =>
      rw [List.mapM_nil, List.forall₂_nil_left_iff]
      exact ⟨fun h => (Option.some.inj h).symm, fun h => congrArg some h.symm⟩
  | cons x xs ih =>
      rw [List.mapM_cons, List.forall₂_cons_left_iff]
      constructor
      · intro h
        obtain ⟨y, hy, h⟩ := Option.bind_eq_some_iff.mp h
        obtain ⟨zs, hzs, h⟩ := Option.bind_eq_some_iff.mp h
        exact ⟨y, zs, hy, ih.mp hzs, (Option.some.inj h).symm⟩
      · rintro ⟨y, zs, hy, hzs, rfl⟩
        rw [hy, ih.mpr hzs]
        rfl

/-- The element collected at a position is that of the element there. -/
theorem mapM_getElem? {ys : List β} (h : xs.mapM f = some ys) {i : Nat} (hx : xs[i]? = some x) :
    ∃ y, f x = some y ∧ ys[i]? = some y := by
  have hrel := mapM_eq_some.mp h
  induction hrel generalizing i with
  | nil => cases hx
  | @cons z y zs ys hzy htail ih =>
      cases i with
      | zero =>
          obtain rfl : z = x := Option.some.inj hx
          exact ⟨y, hzy, rfl⟩
      | succ i => exact ih (mapM_eq_some.mpr htail) hx

theorem mapM_isSome (h : ∀ x ∈ xs, (f x).isSome) : (xs.mapM f).isSome := by
  induction xs with
  | nil => rfl
  | cons x xs ih =>
      obtain ⟨y, hy⟩ := Option.isSome_iff_exists.mp (h x List.mem_cons_self)
      obtain ⟨ys, hys⟩ := Option.isSome_iff_exists.mp (ih fun z hz => h z (List.mem_cons_of_mem x hz))
      rw [List.mapM_cons, hy, hys]
      rfl

theorem mapM_isSome_iff : (xs.mapM f).isSome ↔ ∀ x ∈ xs, (f x).isSome := by
  refine ⟨fun h x hx => ?_, mapM_isSome⟩
  obtain ⟨ys, hys⟩ := Option.isSome_iff_exists.mp h
  obtain ⟨i, hi⟩ := List.mem_iff_getElem?.mp hx
  obtain ⟨y, hy, -⟩ := mapM_getElem? hys hi
  rw [hy]
  rfl

end Collect

section Fallible
variable {β ε : Type _} {f : α → Except ε β}

/-- A sequence of two computations succeeds iff both do, one after the other. -/
theorem bind_eq_ok {γ : Type _} {x : Except ε γ} {g : γ → Except ε β} {y : β} :
    (x >>= g) = .ok y ↔ ∃ a, x = .ok a ∧ g a = .ok y := by
  cases x with
  | error e => exact ⟨nofun, fun h => nomatch h.choose_spec.1⟩
  | ok a => exact ⟨fun h => ⟨a, rfl, h⟩, fun ⟨_, ha, h⟩ => Except.ok.inj ha ▸ h⟩

/-- A computation that succeeds hands its result on. -/
theorem ok_bind {γ : Type _} {a : γ} {g : γ → Except ε β} : ((Except.ok a : Except ε γ) >>= g) = g a := rfl

/-- The image of a result that may be an error. -/
theorem map_eq_ok {γ : Type _} {x : Except ε γ} {g : γ → β} {y : β} :
    x.map g = .ok y ↔ ∃ a, x = .ok a ∧ g a = y := by
  cases x with
  | error e => exact ⟨nofun, fun h => nomatch h.choose_spec.1⟩
  | ok a => exact ⟨fun h => ⟨a, rfl, Except.ok.inj h⟩, fun ⟨_, ha, h⟩ => Except.ok.inj ha ▸ congrArg _ h⟩

theorem toOption_eq_some {γ : Type _} {x : Except ε γ} {a : γ} : x.toOption = some a ↔ x = .ok a := by
  cases x with
  | error e => exact ⟨nofun, nofun⟩
  | ok b => exact ⟨fun h => congrArg _ (Option.some.inj h), fun h => congrArg _ (Except.ok.inj h)⟩

/-- Collecting results that may be errors, in step with the elements. -/
theorem mapM_eq_ok {ys : List β} :
    xs.mapM f = .ok ys ↔ List.Forall₂ (fun x y => f x = .ok y) xs ys := by
  induction xs generalizing ys with
  | nil =>
      rw [List.mapM_nil, List.forall₂_nil_left_iff]
      exact ⟨fun h => (Except.ok.inj h).symm, fun h => congrArg Except.ok h.symm⟩
  | cons x xs ih =>
      rw [List.mapM_cons, List.forall₂_cons_left_iff]
      constructor
      · intro h
        cases hx : f x with
        | error e =>
            rw [hx] at h
            cases h
        | ok y =>
            cases hxs : xs.mapM f with
            | error e =>
                rw [hx, hxs] at h
                cases h
            | ok zs =>
                rw [hx, hxs] at h
                exact ⟨y, zs, rfl, ih.mp hxs, (Except.ok.inj h).symm⟩
      · rintro ⟨y, zs, hy, hzs, rfl⟩
        rw [hy, ih.mpr hzs]
        rfl

/-- Lists in step agree on what holds of all their elements. -/
theorem forall_mem_iff_of_forall₂ {R : α → β → Prop} {P : α → Prop} {Q : β → Prop} {ys : List β}
    (h : List.Forall₂ R xs ys) (hiff : ∀ x ∈ xs, ∀ y, R x y → (Q y ↔ P x)) :
    (∀ y ∈ ys, Q y) ↔ ∀ x ∈ xs, P x := by
  induction h with
  | nil => exact ⟨fun _ _ hx => absurd hx List.not_mem_nil, fun _ _ hy => absurd hy List.not_mem_nil⟩
  | @cons x y xs ys hxy _ ih =>
      rw [List.forall_mem_cons, List.forall_mem_cons, hiff x (List.mem_cons_self ..) y hxy,
        ih fun z hz => hiff z (List.mem_cons_of_mem x hz)]

/-- Of related elements, a second relation that depends only on the first ones. -/
theorem forall₂_iff_of_forall₂ {R S : α → β → Prop} {P : α → Prop} {ys : List β}
    (h : List.Forall₂ R xs ys) (hiff : ∀ x y, R x y → (S x y ↔ P x)) :
    List.Forall₂ S xs ys ↔ ∀ x ∈ xs, P x := by
  induction h with
  | nil => exact ⟨fun _ _ hx => absurd hx List.not_mem_nil, fun _ => .nil⟩
  | @cons x y xs ys hxy _ ih => rw [List.forall₂_cons, List.forall_mem_cons, hiff x y hxy, ih]

/-- Lists in step have the images in common that related elements have. -/
theorem map_eq_map_of_forall₂ {γ : Type _} {R : α → β → Prop} {ys : List β} {g : α → γ} {k : β → γ}
    (h : List.Forall₂ R xs ys) (hgk : ∀ x y, R x y → g x = k y) : xs.map g = ys.map k := by
  induction h with
  | nil => rfl
  | cons hxy _ ih => rw [List.map_cons, List.map_cons, hgk _ _ hxy, ih]

/-- A list in step with one all of whose elements have a partner. -/
theorem exists_forall₂ {R : α → β → Prop} (h : ∀ x ∈ xs, ∃ y, R x y) : ∃ ys, List.Forall₂ R xs ys := by
  induction xs with
  | nil => exact ⟨[], .nil⟩
  | cons x xs ih =>
      rw [List.forall_mem_cons] at h
      obtain ⟨y, hy⟩ := h.1
      obtain ⟨ys, hys⟩ := ih h.2
      exact ⟨y :: ys, .cons hy hys⟩

/-- Two relations, one after the other, over lists in step. -/
theorem forall₂_zip_map {γ δ : Type _} {R : α → β → Prop} {S : β → γ → Prop} {T : α → δ → Prop}
    {g : β × γ → δ} {ys : List β} {zs : List γ} (hR : List.Forall₂ R xs ys) (hS : List.Forall₂ S ys zs)
    (hT : ∀ x y z, R x y → S y z → T x (g (y, z))) : List.Forall₂ T xs ((ys.zip zs).map g) := by
  induction hR generalizing zs with
  | nil => exact .nil
  | cons hxy _ ih =>
      cases hS with
      | cons hyz hS => exact .cons (hT _ _ _ hxy hyz) (ih hS)

/-- Lists in step, position by position. -/
theorem getElem?_of_forall₂ {R : α → β → Prop} {ys : List β} (h : List.Forall₂ R xs ys) {i : Nat}
    {y : β} (hy : ys[i]? = some y) : ∃ x, xs[i]? = some x ∧ R x y := by
  induction h generalizing i with
  | nil => cases hy
  | @cons x y' xs ys hxy _ ih =>
      cases i with
      | zero => exact ⟨x, rfl, Option.some.inj hy ▸ hxy⟩
      | succ i => exact ih hy

/-- The same from the other list. -/
theorem getElem?_of_forall₂_left {R : α → β → Prop} {ys : List β} (h : List.Forall₂ R xs ys) {i : Nat}
    (hx : xs[i]? = some x) : ∃ y, ys[i]? = some y ∧ R x y := by
  obtain ⟨hi, rfl⟩ := List.getElem?_eq_some_iff.mp hx
  have hlt : i < ys.length := h.length_eq ▸ hi
  exact ⟨ys[i], List.getElem?_eq_getElem hlt, h.get hi hlt⟩

/-- Collecting succeeds iff every element does. -/
theorem exists_mapM_ok : (∃ ys, xs.mapM f = .ok ys) ↔ ∀ x ∈ xs, ∃ y, f x = .ok y := by
  simp only [mapM_eq_ok]
  induction xs with
  | nil => exact ⟨fun _ _ hx => absurd hx List.not_mem_nil, fun _ => ⟨[], .nil⟩⟩
  | cons x xs ih =>
      rw [List.forall_mem_cons, ← ih]
      constructor
      · rintro ⟨_, _ | ⟨hy, hys⟩⟩
        exact ⟨⟨_, hy⟩, _, hys⟩
      · rintro ⟨⟨y, hy⟩, ys, hys⟩
        exact ⟨y :: ys, .cons hy hys⟩

/-- Collecting over a range, index by index. -/
theorem mapM_range_eq_ok {n : Nat} {g : Nat → Except ε β} {ys : List β} (hlen : ys.length = n)
    (h : ∀ i y, ys[i]? = some y → g i = .ok y) : (List.range n).mapM g = .ok ys := by
  apply mapM_eq_ok.mpr
  refine List.forall₂_of_length_eq_of_get (by rw [List.length_range, hlen]) fun i hi hi' => ?_
  rw [List.get_eq_getElem, List.get_eq_getElem, List.getElem_range]
  exact h i _ (List.getElem?_eq_getElem hi')

/-- Collecting over a range fails at the first index that does. -/
theorem mapM_range_eq_error {n : Nat} {g : Nat → Except ε β} {e : ε} :
    (List.range n).mapM g = .error e ↔ ∃ i < n, (∀ j < i, ∃ y, g j = .ok y) ∧ g i = .error e := by
  induction n generalizing e with
  | zero => exact ⟨nofun, fun ⟨_, hi, _⟩ => absurd hi (Nat.not_lt_zero _)⟩
  | succ n ih =>
      have hok : (∀ j < n, ∃ y, g j = .ok y) ↔ ∃ ys, (List.range n).mapM g = .ok ys := by
        rw [exists_mapM_ok]
        simp only [List.mem_range]
      rw [List.range_succ, List.mapM_append]
      cases hfront : (List.range n).mapM g with
      | error e' =>
          obtain ⟨i, hi, hbefore, hgi⟩ := ih.mp hfront
          constructor
          · intro h
            obtain rfl : e' = e := Except.error.inj h
            exact ⟨i, Nat.lt_succ_of_lt hi, hbefore, hgi⟩
          · rintro ⟨k, hk, hbefore', hgk⟩
            rcases Nat.lt_succ_iff_lt_or_eq.mp hk with hlt | rfl
            · obtain rfl := Except.error.inj (hfront.symm.trans (ih.mpr ⟨k, hlt, hbefore', hgk⟩))
              rfl
            · obtain ⟨ys, hys⟩ := hok.mp hbefore'
              rw [hfront] at hys
              cases hys
      | ok ys =>
          have hbefore := hok.mpr ⟨ys, hfront⟩
          have hlast : ([n].mapM g >>= fun zs => pure (ys ++ zs)) = .error e ↔ g n = .error e := by
            rw [List.mapM_cons, List.mapM_nil]
            cases g n with
            | error e' => exact ⟨fun h => Except.error.inj h ▸ rfl, fun h => Except.error.inj h ▸ rfl⟩
            | ok y => exact ⟨nofun, nofun⟩
          change ([n].mapM g >>= fun zs => pure (ys ++ zs)) = .error e ↔ _
          rw [hlast]
          constructor
          · exact fun h => ⟨n, Nat.lt_succ_self n, hbefore, h⟩
          · rintro ⟨k, hk, -, hgk⟩
            rcases Nat.lt_succ_iff_lt_or_eq.mp hk with hlt | rfl
            · obtain ⟨y, hy⟩ := hbefore k hlt
              rw [hy] at hgk
              cases hgk
            · exact hgk

/-- An invariant of a loop over a list that may stop with an error. -/
theorem foldlM_invariant {γ : Type _} {step : γ → α → Except ε γ} {init out : γ}
    (I : List α → γ → Prop) (hinit : I [] init)
    (hstep : ∀ done x c c', I done c → step c x = .ok c' → I (done ++ [x]) c')
    (h : xs.foldlM step init = .ok out) : I xs out := by
  have hrun : ∀ rest done c, I done c → rest.foldlM step c = .ok out → I (done ++ rest) out := by
    intro rest
    induction rest with
    | nil =>
        intro done c hc hout
        obtain rfl := Except.ok.inj hout
        rwa [List.append_nil]
    | cons x rest ih =>
        intro done c hc hout
        rw [List.foldlM_cons, bind_eq_ok] at hout
        obtain ⟨c', hx, hrest⟩ := hout
        have hnext := ih (done ++ [x]) c' (hstep done x c c' hc hx) hrest
        rwa [List.append_assoc] at hnext
  exact hrun xs [] init hinit h

/-- A loop none of whose steps can fail reaches its end. -/
theorem exists_foldlM_ok {γ : Type _} {step : γ → α → Except ε γ} {init : γ}
    (hstep : ∀ x ∈ xs, ∀ c, ∃ c', step c x = .ok c') : ∃ out, xs.foldlM step init = .ok out := by
  induction xs generalizing init with
  | nil => exact ⟨init, rfl⟩
  | cons x xs ih =>
      rw [List.forall_mem_cons] at hstep
      obtain ⟨c', hx⟩ := hstep.1 init
      obtain ⟨out, hout⟩ : ∃ out, xs.foldlM step c' = .ok out := ih hstep.2
      exact ⟨out, by rw [List.foldlM_cons, hx, ok_bind, hout]⟩

end Fallible
end TaeScanner.Lib
