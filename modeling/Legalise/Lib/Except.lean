import Mathlib

/-!
This module contains the inversion rules for computations in `Except` that return normally.
-/

namespace Except

variable {ε α β : Type}

theorem bind_eq_ok_iff (x : Except ε α) (f : α → Except ε β) (b : β)
    : x >>= f = .ok b ↔ ∃ a, x = .ok a ∧ f a = .ok b := by
  cases x with
  | error e => simp [bind, Except.bind]
  | ok a => simp [bind, Except.bind]

@[simp]
theorem bind_eq_ok_eq (x : Except ε α) (f : α → Except ε β) (b : β)
    : (x >>= f = .ok b) = ∃ a, x = .ok a ∧ f a = .ok b :=
  propext (bind_eq_ok_iff x f b)

theorem pure_eq_ok_iff (a b : α) : (pure a : Except ε α) = .ok b ↔ a = b := by
  simp [pure, Except.pure]

@[simp]
theorem pure_eq_ok_eq (a b : α) : ((pure a : Except ε α) = .ok b) = (a = b) :=
  propext (pure_eq_ok_iff a b)

@[simp]
theorem map_eq_ok_iff (f : α → β) (x : Except ε α) (b : β)
    : f <$> x = .ok b ↔ ∃ a, x = .ok a ∧ f a = b := by
  cases x with
  | error e => simp [Functor.map, Except.map]
  | ok a => simp [Functor.map, Except.map]

theorem bind_eq_error_iff (x : Except ε α) (f : α → Except ε β) (e : ε)
    : x >>= f = .error e ↔ x = .error e ∨ ∃ a, x = .ok a ∧ f a = .error e := by
  cases x with
  | error e => simp [bind, Except.bind]
  | ok a => simp [bind, Except.bind]

theorem isOk_iff (x : Except ε α) : x.isOk = true ↔ ∃ a, x = .ok a := by
  cases x <;> simp [Except.isOk, Except.toBool]

theorem toOption_eq_some_iff (x : Except ε α) (a : α) : x.toOption = some a ↔ x = .ok a := by
  cases x <;> simp [Except.toOption]

/--
What stops a loop over a list stops one of its steps.
-/
theorem of_foldlM_eq_error {P : ε → Prop} {f : β → α → Except ε β} (h : ∀ b a e, f b a = .error e → P e)
    {xs : List α} {b : β} {e : ε} (hrun : xs.foldlM f b = .error e) : P e := by
  induction xs generalizing b with
  | nil => cases hrun
  | cons x xs ih =>
    rw [List.foldlM_cons, bind_eq_error_iff] at hrun
    rcases hrun with hstep | ⟨b', _, hrest⟩
    . exact h b x e hstep
    . exact ih hrest

theorem of_forM_eq_error {P : ε → Prop} {f : α → Except ε Unit} (h : ∀ a e, f a = .error e → P e)
    {xs : List α} {e : ε} (hrun : xs.forM f = .error e) : P e := by
  induction xs with
  | nil => cases hrun
  | cons x xs ih =>
    rw [List.forM, bind_eq_error_iff] at hrun
    rcases hrun with hstep | ⟨_, _, hrest⟩
    . exact h x e hstep
    . exact ih hrest

theorem of_mapM_eq_error {P : ε → Prop} {f : α → Except ε β} {xs : List α} (h : ∀ x ∈ xs, ∀ e, f x = .error e → P e)
    {e : ε} (hrun : xs.mapM f = .error e) : P e := by
  induction xs with
  | nil => cases hrun
  | cons x xs ih =>
    rw [List.mapM_cons, bind_eq_error_iff] at hrun
    rcases hrun with hstep | ⟨_, _, hrest⟩
    . exact h x List.mem_cons_self e hstep
    . rw [bind_eq_error_iff] at hrest
      rcases hrest with hrest | ⟨_, _, hpure⟩
      . exact ih (fun x hx => h x (List.mem_cons_of_mem _ hx)) hrest
      . cases hpure

/--
A function runs over a whole list exactly if it returns normally on every element.
-/
theorem mapM_eq_ok_iff (f : α → Except ε β) (xs : List α) (ys : List β)
    : xs.mapM f = .ok ys ↔ List.Forall₂ (fun x y => f x = .ok y) xs ys := by
  induction xs generalizing ys with
  | nil => cases ys <;> simp
  | cons x xs ih =>
    rw [List.mapM_cons]
    cases ys <;> simp [ih]

theorem mapM_isOk_iff (f : α → Except ε β) (xs : List α)
    : (∃ ys, xs.mapM f = .ok ys) ↔ ∀ x ∈ xs, ∃ y, f x = .ok y := by
  induction xs with
  | nil => simp
  | cons x xs ih =>
    simp only [List.mapM_cons, bind_eq_ok_iff, pure_eq_ok_iff, List.forall_mem_cons, ← ih]
    constructor
    . rintro ⟨_, y, hy, ys, hys, _⟩
      exact ⟨⟨y, hy⟩, ys, hys⟩
    . rintro ⟨⟨y, hy⟩, ys, hys⟩
      exact ⟨_, y, hy, ys, hys, rfl⟩

/--
The results of a function that runs over a whole list are its results on the elements.
-/
theorem mem_iff_of_mapM_eq_ok {f : α → Except ε β} {xs : List α} {ys : List β}
    (h : xs.mapM f = .ok ys) (y : β) : y ∈ ys ↔ ∃ x ∈ xs, f x = .ok y := by
  rw [mapM_eq_ok_iff] at h
  induction h with
  | nil => simp
  | @cons x z xs ys hx _ ih =>
    rw [List.mem_cons, ih]
    constructor
    . rintro (rfl | ⟨x', hx', hy⟩)
      . exact ⟨x, List.mem_cons_self, hx⟩
      . exact ⟨x', List.mem_cons_of_mem _ hx', hy⟩
    . rintro ⟨x', hx', hy⟩
      cases List.mem_cons.mp hx' with
      | inl heq =>
        rw [heq, hx, Except.ok.injEq] at hy
        exact .inl hy.symm
      | inr hx' => exact .inr ⟨x', hx', hy⟩

end Except
