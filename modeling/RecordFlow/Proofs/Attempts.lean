import Mathlib.Data.List.Forall2

/-!
# Attempts one after another

What is done item by item and may fail succeeds if every attempt does, and else ends with the error
of the first that fails.
-/

namespace RecordFlow

variable {α β ε : Type}

theorem ok_bind (a : α) (f : α → Except ε β) : (Except.ok a >>= f) = f a := rfl

theorem bind_eq_ok_iff {x : Except ε α} {f : α → Except ε β} {y : β} :
    (x >>= f) = .ok y ↔ ∃ a, x = .ok a ∧ f a = .ok y := by
  cases x <;> simp [bind, Except.bind]

/-- After a check, what follows is done if the check passes. -/
theorem check_bind_eq_ok_iff {check : Except ε Unit} {x : Except ε β} {y : β} :
    (check >>= fun _ => x) = .ok y ↔ check = .ok () ∧ x = .ok y := by
  rw [bind_eq_ok_iff]
  exact ⟨fun ⟨_, hcheck, hx⟩ => ⟨hcheck, hx⟩, fun ⟨hcheck, hx⟩ => ⟨(), hcheck, hx⟩⟩

/-- What is made of a result fails only if there is none. -/
theorem bind_pure_eq_error_iff {x : Except ε α} {f : α → β} {e : ε} :
    (do let a ← x; pure (f a)) = Except.error e ↔ x = .error e := by
  cases x <;> simp [bind, Except.bind, pure, Except.pure]

theorem map_eq_ok_iff {x : Except ε α} {f : α → β} {y : β} :
    x.map f = .ok y ↔ ∃ a, x = .ok a ∧ f a = y := by
  cases x <;> simp [Except.map]

theorem map_eq_error_iff {x : Except ε α} {f : α → β} {e : ε} :
    x.map f = .error e ↔ x = .error e := by
  cases x <;> simp [Except.map]

/-- Results of a list of attempts, all of which succeed. -/
theorem mapM_eq_ok_iff {f : α → Except ε β} {xs : List α} {ys : List β} :
    xs.mapM f = .ok ys ↔ List.Forall₂ (fun x y => f x = .ok y) xs ys := by
  induction xs generalizing ys with
  | nil => cases ys <;> simp [pure, Except.pure]
  | cons x xs ih =>
    rw [List.mapM_cons, bind_eq_ok_iff]
    simp only [bind_eq_ok_iff]
    constructor
    · rintro ⟨y, hy, ys, hys, ⟨⟩⟩
      exact .cons hy (ih.1 hys)
    · intro h
      cases h with
      | cons hy hys => exact ⟨_, hy, _, ih.2 hys, rfl⟩

theorem exists_mapM_eq_ok_iff {f : α → Except ε β} {xs : List α} :
    (∃ ys, xs.mapM f = .ok ys) ↔ ∀ x ∈ xs, ∃ y, f x = .ok y := by
  simp only [mapM_eq_ok_iff]
  induction xs with
  | nil => exact iff_of_true ⟨[], .nil⟩ nofun
  | cons x xs ih =>
    rw [List.forall_mem_cons, ← ih]
    constructor
    · rintro ⟨_, _ | ⟨hy, hys⟩⟩
      exact ⟨⟨_, hy⟩, _, hys⟩
    · rintro ⟨⟨_, hy⟩, _, hys⟩
      exact ⟨_, .cons hy hys⟩

/-- The error of a list of attempts is that of the first that fails. -/
theorem mapM_eq_error_iff {f : α → Except ε β} {xs : List α} {e : ε} :
    xs.mapM f = .error e ↔
      ∃ before x after, xs = before ++ x :: after ∧ (∀ y ∈ before, ∃ v, f y = .ok v) ∧
        f x = .error e := by
  induction xs with
  | nil => simp [pure, Except.pure]
  | cons x xs ih =>
    rw [List.mapM_cons]
    cases hx : f x with
    | error e' =>
      constructor
      · rintro ⟨⟩
        exact ⟨[], x, xs, rfl, nofun, hx⟩
      · rintro ⟨before, y, after, hxs, hbefore, hy⟩
        cases before with
        | nil =>
          cases hxs
          cases hx.symm.trans hy
          rfl
        | cons z before =>
          cases hxs
          obtain ⟨v, hv⟩ := hbefore x List.mem_cons_self
          rw [hx] at hv
          cases hv
    | ok v =>
      refine bind_pure_eq_error_iff.trans (ih.trans ⟨?_, ?_⟩)
      · rintro ⟨before, y, after, rfl, hbefore, hy⟩
        refine ⟨x :: before, y, after, rfl, ?_, hy⟩
        rintro z (_ | ⟨_, hz⟩)
        · exact ⟨v, hx⟩
        · exact hbefore z hz
      · rintro ⟨before, y, after, hxs, hbefore, hy⟩
        cases before with
        | nil =>
          cases hxs
          rw [hx] at hy
          cases hy
        | cons z before =>
          cases hxs
          exact ⟨before, y, after, rfl, fun z hz => hbefore z (List.mem_cons_of_mem _ hz), hy⟩

/-- Attempts that come out alike on every item come out alike on the list. -/
theorem mapM_congr {f g : α → Except ε β} {xs : List α} (h : ∀ x ∈ xs, f x = g x) :
    xs.mapM f = xs.mapM g := by
  induction xs with
  | nil => rfl
  | cons x xs ih =>
    obtain ⟨hx, hxs⟩ := List.forall_mem_cons.1 h
    rw [List.mapM_cons, List.mapM_cons, hx, ih hxs]

/-! ## Attempts by position -/

theorem mapM_eq_ok_iff_getElem? {f : α → Except ε β} {xs : List α} {ys : List β} :
    xs.mapM f = .ok ys ↔
      ys.length = xs.length ∧
        ∀ (i : Nat) x, xs[i]? = some x → ∃ y, ys[i]? = some y ∧ f x = .ok y := by
  rw [mapM_eq_ok_iff, List.forall₂_iff_get]
  constructor
  · rintro ⟨hlength, h⟩
    refine ⟨hlength.symm, fun i x hx => ?_⟩
    obtain ⟨hi, rfl⟩ := List.getElem?_eq_some_iff.1 hx
    exact ⟨ys[i], List.getElem?_eq_getElem (hlength ▸ hi), h i hi (hlength ▸ hi)⟩
  · rintro ⟨hlength, h⟩
    refine ⟨hlength.symm, fun i hi hj => ?_⟩
    obtain ⟨y, hy, hf⟩ := h i xs[i] (List.getElem?_eq_getElem hi)
    obtain ⟨_, rfl⟩ := List.getElem?_eq_some_iff.1 hy
    exact hf

theorem mapM_eq_error_iff_getElem? {f : α → Except ε β} {xs : List α} {e : ε} :
    xs.mapM f = .error e ↔
      ∃ (i : Nat) (x : α), xs[i]? = some x ∧
        (∀ (j : Nat) y, j < i → xs[j]? = some y → ∃ v, f y = .ok v) ∧ f x = .error e := by
  rw [mapM_eq_error_iff]
  constructor
  · rintro ⟨before, x, after, rfl, hbefore, hx⟩
    refine ⟨before.length, x, by simp, fun j y hj hy => ?_, hx⟩
    rw [List.getElem?_append_left hj] at hy
    exact hbefore y (List.mem_of_getElem? hy)
  · rintro ⟨i, x, hx, hbefore, hf⟩
    obtain ⟨hi, rfl⟩ := List.getElem?_eq_some_iff.1 hx
    refine ⟨xs.take i, xs[i], xs.drop (i + 1), ?_, fun y hy => ?_, hf⟩
    · rw [← List.drop_eq_getElem_cons hi, List.take_append_drop]
    · obtain ⟨j, hj⟩ := List.mem_iff_getElem?.1 hy
      obtain ⟨hlt, -⟩ := List.getElem?_eq_some_iff.1 hj
      rw [List.length_take] at hlt
      rw [List.getElem?_take_of_lt (by omega)] at hj
      exact hbefore j y (by omega) hj

/-! ## Checks -/

/-- Checking one item after another is trying each and forgetting the results. -/
theorem forM_eq_mapM (check : α → Except ε Unit) (xs : List α) :
    xs.forM check = (xs.mapM check).map fun _ => () := by
  induction xs with
  | nil => rfl
  | cons x xs ih =>
    rw [List.mapM_cons]
    show (check x >>= fun _ => xs.forM check) = _
    rw [ih]
    cases check x with
    | error e => rfl
    | ok u => cases xs.mapM check <;> rfl

theorem forM_eq_ok_iff {check : α → Except ε Unit} {xs : List α} :
    xs.forM check = .ok () ↔ ∀ x ∈ xs, check x = .ok () := by
  induction xs with
  | nil => exact iff_of_true rfl nofun
  | cons x xs ih =>
    rw [List.forall_mem_cons, ← ih]
    exact check_bind_eq_ok_iff

theorem forM_eq_error_iff {check : α → Except ε Unit} {xs : List α} {e : ε} :
    xs.forM check = .error e ↔
      ∃ before x after, xs = before ++ x :: after ∧ (∀ y ∈ before, check y = .ok ()) ∧
        check x = .error e := by
  have hforget : xs.forM check = .error e ↔ xs.mapM check = .error e := by
    rw [forM_eq_mapM]
    cases xs.mapM check <;> simp [Except.map]
  have hunit : ∀ y, (∃ u, check y = .ok u) ↔ check y = .ok () :=
    fun y => ⟨fun ⟨(), h⟩ => h, fun h => ⟨(), h⟩⟩
  rw [hforget, mapM_eq_error_iff]
  simp only [hunit]

end RecordFlow
