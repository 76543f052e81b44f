import Mathlib

/-!
This module contains dictionaries as lists of items in the order of their first assignment, and what an assignment
does to the values and the keys.
-/

namespace Assign

variable {κ α : Type} [DecidableEq κ] {key : κ} {d : List (κ × α)}

/--
Assign the value of a key, which keeps its place if it has one.
-/
def assign (key : κ) (value : α) (d : List (κ × α)) : List (κ × α) :=
  if d.any fun item => item.fst = key then
    d.map fun item => if item.fst = key then (key, value) else item
  else d ++ [(key, value)]

theorem any_key_iff (key : κ) (d : List (κ × α))
    : (d.any fun item => item.fst = key) = true ↔ key ∈ d.map Prod.fst := by
  simp [List.any_eq_true]

theorem assign_eq_append (h : key ∉ d.map Prod.fst) (value : α)
    : assign key value d = d ++ [(key, value)] := by
  unfold assign
  rw [if_neg]
  rw [any_key_iff]
  exact h

theorem keys_replace (key : κ) (value : α) (d : List (κ × α))
    : (d.map fun item => if item.fst = key then (key, value) else item).map Prod.fst = d.map Prod.fst := by
  rw [List.map_map]
  refine List.map_congr_left fun item _ => ?_
  dsimp only [Function.comp]
  split
  . next h => exact h.symm
  . rfl

theorem keys_assign (key : κ) (value : α) (d : List (κ × α))
    : (assign key value d).map Prod.fst
        = if key ∈ d.map Prod.fst then d.map Prod.fst else d.map Prod.fst ++ [key] := by
  unfold assign
  simp only [any_key_iff]
  split
  . exact keys_replace key value d
  . rw [List.map_append, List.map_singleton]

/--
The keys stay distinct.
-/
theorem nodup_assign (h : (d.map Prod.fst).Nodup) (key : κ) (value : α) : ((assign key value d).map Prod.fst).Nodup := by
  rw [keys_assign]
  split
  . exact h
  . next hkey =>
    rw [List.nodup_append]
    refine ⟨h, List.nodup_singleton _, ?_⟩
    rintro other hother _ hmem rfl
    rw [List.mem_singleton.mp hmem] at hother
    exact hkey hother

section Lookup

variable [BEq κ] [LawfulBEq κ]

theorem lookup_replace (key name : κ) (value : α) (d : List (κ × α))
    : (d.map fun item => if item.fst = key then (key, value) else item).lookup name
        = if name = key then (d.lookup key).map fun _ => value else d.lookup name := by
  induction d with
  | nil => simp
  | cons item d ih =>
    obtain ⟨other, v⟩ := item
    rw [List.map_cons]
    by_cases hother : other = key
    . subst hother
      by_cases hname : name = other
      . subst hname
        simp
      . rw [if_neg hname] at ih ⊢
        simp [List.lookup_cons, beq_false_of_ne hname, ih]
    . by_cases hname : name = other
      . subst hname
        simp [hother]
      . rw [if_neg hother, List.lookup_cons, beq_false_of_ne hname, List.lookup_cons,
          beq_false_of_ne (Ne.symm hother), List.lookup_cons, beq_false_of_ne hname]
        exact ih

theorem lookup_assign (key name : κ) (value : α) (d : List (κ × α))
    : (assign key value d).lookup name = if name = key then some value else d.lookup name := by
  unfold assign
  split
  . next hany =>
    rw [lookup_replace]
    split
    . have hsome : d.lookup key ≠ none := by
        rw [Ne, List.lookup_eq_none_iff]
        intro hnone
        have ⟨item, hmem, hkey⟩ := List.mem_map.mp ((any_key_iff key d).mp hany)
        have := hnone item hmem
        rw [hkey] at this
        simp at this
      have ⟨old, hold⟩ := Option.ne_none_iff_exists'.mp hsome
      rw [hold, Option.map_some]
    . rfl
  . next hany =>
    rw [any_key_iff] at hany
    rw [List.lookup_append]
    by_cases hkey : name = key
    . subst hkey
      have hnone : d.lookup name = none := by
        rw [List.lookup_eq_none_iff]
        intro item hitem
        have hne : name ≠ item.fst := by
          intro heq
          exact hany (List.mem_map.mpr ⟨item, hitem, heq.symm⟩)
        simp [hne]
      simp [hnone]
    . simp [List.lookup_cons, beq_false_of_ne hkey, hkey]

end Lookup

end Assign
