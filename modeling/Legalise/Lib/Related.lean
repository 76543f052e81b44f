import Mathlib

/-!
This module contains lists of which the elements are related in pairs.
-/

namespace Related

variable {α β γ : Type} {R P : α → β → Prop} {xs : List α} {ys : List β}

/--
A property of related elements that depends on the first ones only holds of all pairs, if it holds of all first ones.
-/
theorem forall₂_iff_forall {Q : α → Prop} (h : List.Forall₂ R xs ys) (hiff : ∀ x ∈ xs, ∀ y, R x y → (P x y ↔ Q x))
    : List.Forall₂ P xs ys ↔ ∀ x ∈ xs, Q x := by
  induction h with
  | nil => simp
  | @cons x y xs ys hxy _ ih =>
    rw [List.forall₂_cons, List.forall_mem_cons, hiff x List.mem_cons_self y hxy,
      ih fun x hx => hiff x (List.mem_cons_of_mem _ hx)]

theorem exists_left (h : List.Forall₂ R xs ys) {y : β} (hy : y ∈ ys) : ∃ x ∈ xs, R x y := by
  induction h with
  | nil => cases hy
  | @cons x z xs ys hxz _ ih =>
    rcases List.mem_cons.mp hy with rfl | hy
    . exact ⟨x, List.mem_cons_self, hxz⟩
    . have ⟨x', hx', hR⟩ := ih hy
      exact ⟨x', List.mem_cons_of_mem _ hx', hR⟩

/--
What related elements have in common is the same along both lists.
-/
theorem map_eq_map {f : α → γ} {g : β → γ} (h : List.Forall₂ R xs ys) (heq : ∀ x y, R x y → f x = g y)
    : xs.map f = ys.map g := by
  induction h with
  | nil => rfl
  | cons hxy _ ih => rw [List.map_cons, List.map_cons, heq _ _ hxy, ih]

end Related
