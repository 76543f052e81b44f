import Mathlib

/-!
This module contains lists without repetitions.
-/

variable {α κ β : Type}

/--
Distinct values per key are distinct as pairs with their keys.
-/
theorem nodup_map_prod [DecidableEq κ] {key : α → κ} {f : α → β} {xs : List α}
    (h : ∀ k, ((xs.filter fun x => key x = k).map f).Nodup)
    : (xs.map fun x => (key x, f x)).Nodup := by
  apply List.pairwise_map.mpr
  induction xs with
  | nil => exact .nil
  | cons x xs ih =>
    constructor
    . intro y hy heq
      rw [Prod.mk.injEq] at heq
      have hx := h (key x)
      rw [List.filter_cons_of_pos (by simp), List.map_cons, List.nodup_cons] at hx
      exact hx.left (List.mem_map.mpr ⟨y, List.mem_filter.mpr ⟨hy, by simp [heq.left]⟩, heq.right.symm⟩)
    . apply ih
      intro k
      have hk := h k
      by_cases hx : key x = k
      . rw [List.filter_cons_of_pos (by simpa using hx), List.map_cons, List.nodup_cons] at hk
        exact hk.right
      . rwa [List.filter_cons_of_neg (by simpa using hx)] at hk

/--
A part of a list without repetitions is as long as the list if it is all of it.
-/
theorem length_eq_iff_subset {xs ys : List α} (hxs : xs.Nodup) (hys : ys.Nodup)
    (hsub : xs ⊆ ys) : xs.length = ys.length ↔ ys ⊆ xs := by
  constructor
  . intro hlength
    exact ((List.subperm_of_subset hxs hsub).perm_of_length_le hlength.ge).symm.subset
  . intro hsup
    exact ((List.perm_ext_iff_of_nodup hxs hys).mpr fun a => ⟨@hsub a, @hsup a⟩).length_eq

/--
At most one element has a given key.
-/
theorem filter_key_eq [DecidableEq κ] {key : α → κ} {xs : List α} (h : (xs.map key).Nodup) (k : κ)
    : xs.filter (fun x => k = key x) = [] ∨ ∃ x, xs.filter (fun x => k = key x) = [x] := by
  have hkeys : ((xs.filter fun x => k = key x).map key).Nodup :=
    List.Nodup.sublist (List.filter_sublist.map key) h
  have hall : (xs.filter fun x => k = key x).map key
      = List.replicate (xs.filter fun x => k = key x).length k := by
    rw [List.eq_replicate_iff]
    refine ⟨List.length_map .., ?_⟩
    intro k' hk'
    have ⟨x, hx, hkey⟩ := List.mem_map.mp hk'
    have := (List.mem_filter.mp hx).right
    rw [← hkey]
    exact (of_decide_eq_true this).symm
  rw [hall, List.nodup_replicate] at hkeys
  match hfilter : xs.filter fun x => k = key x with
  | [] => exact .inl rfl
  | [x] => exact .inr ⟨x, rfl⟩
  | x :: y :: ys => simp [hfilter] at hkeys

/--
Elements that are each replaced by at most one with the same value keep their order.
-/
theorem map_flatMap_sublist {γ : Type} {f : α → List β} {g : β → γ} {h : α → γ}
    (hf : ∀ x, List.Sublist ((f x).map g) [h x]) (xs : List α)
    : List.Sublist ((xs.flatMap f).map g) (xs.map h) := by
  induction xs with
  | nil => exact .slnil
  | cons x xs ih =>
    rw [List.flatMap_cons, List.map_append, List.map_cons]
    exact (hf x).append ih
