import Mathlib.Data.List.Forall2

/-!
# Operations that may fail

An operation that may fail is carried out after another one, or on the elements of a list one after
the other. It succeeds on a list exactly when it succeeds on every element, and then gives the list
of results.
-/

namespace HorizonPlanner

section

variable {α β ε : Type} {f : α → Except ε β} {xs : List α}

/-- Two operations in a row succeed exactly when the first one does and the second one does on its
result. -/
theorem bind_eq_ok_iff {x : Except ε α} {y : β} :
    (x >>= f) = .ok y ↔ ∃ a, x = .ok a ∧ f a = .ok y := by
  cases x with
  | error e => exact ⟨fun h => (by cases h), fun ⟨_, h, _⟩ => (by cases h)⟩
  | ok a => exact ⟨fun h => ⟨a, rfl, h⟩, fun ⟨_, h, hy⟩ => (by cases h; exact hy)⟩

/-- A series of operations that fails has a first one that does, after others that succeed. -/
theorem exists_of_foldlM_eq_error {σ : Type} {g : σ → α → Except ε σ} {s : σ} {e : ε}
    (h : xs.foldlM g s = .error e) :
    ∃ before x after t, xs = before ++ x :: after ∧ before.foldlM g s = .ok t ∧
      g t x = .error e := by
  induction xs generalizing s with
  | nil => cases h
  | cons x rest ih =>
    rw [List.foldlM_cons] at h
    cases hx : g s x with
    | error e' =>
      rw [hx] at h
      cases h
      exact ⟨[], x, rest, s, rfl, rfl, hx⟩
    | ok t =>
      rw [hx] at h
      obtain ⟨before, y, after, u, rfl, hbefore, hy⟩ := ih h
      exact ⟨x :: before, y, after, u, rfl, by rw [List.foldlM_cons, hx]; exact hbefore, hy⟩

/-- The results of a traversal belong to the elements, one to one. -/
theorem mapM_eq_ok_iff {ys : List β} :
    xs.mapM f = .ok ys ↔ List.Forall₂ (fun x y => f x = .ok y) xs ys := by
  induction xs generalizing ys with
  | nil =>
    rw [List.mapM_nil, List.forall₂_nil_left_iff]
    exact ⟨fun h => by cases h; rfl, fun h => by cases h; rfl⟩
  | cons x rest ih =>
    rw [List.mapM_cons]
    cases hx : f x with
    | error e =>
      refine ⟨fun h => (by cases h), fun h => ?_⟩
      cases h with
      | cons hy _ => simp [hx] at hy
    | ok y =>
      cases hrest : rest.mapM f with
      | error e =>
        refine ⟨fun h => (by cases h), fun h => ?_⟩
        cases h with
        | cons _ hys => simp [ih.mpr hys] at hrest
      | ok zs =>
        constructor
        · intro h
          cases h
          exact .cons hx (ih.mp hrest)
        · intro h
          cases h with
          | cons hy hys =>
            rw [hx] at hy
            rw [ih.mpr hys] at hrest
            cases hy
            cases hrest
            rfl

/-- A traversal succeeds exactly when the operation succeeds on every element. -/
theorem exists_mapM_eq_ok_iff : (∃ ys, xs.mapM f = .ok ys) ↔ ∀ x ∈ xs, ∃ y, f x = .ok y := by
  simp only [mapM_eq_ok_iff]
  constructor
  · rintro ⟨ys, h⟩
    induction h with
    | nil => simp
    | cons hxy _ ih => simpa [hxy] using ih
  · intro h
    induction xs with
    | nil => exact ⟨[], .nil⟩
    | cons x rest ih =>
      obtain ⟨y, hy⟩ := h x (by simp)
      obtain ⟨ys, hys⟩ := ih fun z hz => h z (by simp [hz])
      exact ⟨y :: ys, .cons hy hys⟩

/-- An operation with known results gives the list of these. -/
theorem mapM_eq_ok_map {g : α → β} (h : ∀ x ∈ xs, f x = .ok (g x)) :
    xs.mapM f = .ok (xs.map g) := by
  rw [mapM_eq_ok_iff, List.forall₂_map_right_iff, List.forall₂_same]
  exact h

/-- The results are those of the elements. -/
theorem mem_of_mapM_eq_ok {ys : List β} (h : xs.mapM f = .ok ys) {y : β} :
    y ∈ ys ↔ ∃ x ∈ xs, f x = .ok y := by
  rw [mapM_eq_ok_iff] at h
  induction h with
  | nil => simp
  | cons hxy _ ih => simp [ih, hxy, eq_comm]

end

end HorizonPlanner
