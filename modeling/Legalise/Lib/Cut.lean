import Mathlib

/-!
This module contains the cutting of a list at the first occurrence of a word.
-/

namespace Cut

open List

variable {α : Type} [DecidableEq α] {w s t a b : List α}

/--
What stands before and after the first occurrence of a word.
-/
def cut (w : List α) : List α → Option (List α × List α)
  | [] => if w = [] then some ([], []) else none
  | c :: s => if w <+: c :: s then some ([], (c :: s).drop w.length) else (cut w s).map fun (a, b) => (c :: a, b)

theorem cut_of_isPrefix (h : w <+: s) : cut w s = some ([], s.drop w.length) := by
  cases s with
  | nil => simp [cut, prefix_nil.mp h]
  | cons c s => rw [cut, if_pos h]

theorem cut_append_self (w t : List α) : cut w (w ++ t) = some ([], t) := by
  rw [cut_of_isPrefix (prefix_append w t), drop_left]

theorem cut_cons_of_not_isPrefix {c : α} (h : ¬ w <+: c :: s)
    : cut w (c :: s) = (cut w s).map fun (a, b) => (c :: a, b) := by
  rw [cut, if_neg h]

/--
The parts that are cut, with the word between them, are the whole.
-/
theorem eq_of_cut (h : cut w s = some (a, b)) : s = a ++ w ++ b := by
  induction s generalizing a b with
  | nil =>
    unfold cut at h
    split at h
    . next hw =>
      cases h
      rw [hw]
      rfl
    . cases h
  | cons c s ih =>
    by_cases hw : w <+: c :: s
    . rw [cut_of_isPrefix hw] at h
      cases h
      exact (prefix_iff_eq_append.mp hw).symm
    . rw [cut_cons_of_not_isPrefix hw, Option.map_eq_some_iff] at h
      have ⟨(a', b'), hcut, heq⟩ := h
      cases heq
      rw [ih hcut]
      rfl

theorem cut_eq_none_iff : cut w s = none ↔ ¬ w <:+: s := by
  induction s with
  | nil =>
    unfold cut
    by_cases hw : w = [] <;> simp [hw]
  | cons c s ih =>
    rw [infix_cons_iff, not_or, ← ih]
    by_cases hw : w <+: c :: s
    . simp [cut_of_isPrefix hw, hw]
    . simp [cut_cons_of_not_isPrefix hw, hw]

/--
An occurrence in the first part of a text stays the first one, whatever follows.
-/
theorem cut_append (h : cut w s = some (a, b)) (t : List α) : cut w (s ++ t) = some (a, b ++ t) := by
  induction s generalizing a b with
  | nil =>
    have heq := (eq_of_cut h).symm
    simp only [append_eq_nil_iff] at heq
    have ⟨⟨ha, hw⟩, hb⟩ := heq
    rw [ha, hw, hb, cut_of_isPrefix nil_prefix]
    rfl
  | cons c s ih =>
    by_cases hw : w <+: c :: s
    . rw [cut_of_isPrefix hw] at h
      cases h
      rw [cut_of_isPrefix (hw.trans (prefix_append _ t)), drop_append_of_le_length hw.length_le]
    . rw [cut_cons_of_not_isPrefix hw, Option.map_eq_some_iff] at h
      have ⟨(a', b'), hcut, heq⟩ := h
      cases heq
      have hlength : w.length ≤ s.length := by
        rw [eq_of_cut hcut]
        simp only [length_append]
        omega
      have hnot : ¬ w <+: c :: (s ++ t) := by
        intro hlonger
        refine hw (prefix_of_prefix_length_le hlonger (prefix_append (c :: s) t) ?_)
        simp only [length_cons]
        omega
      rw [cons_append, cut_cons_of_not_isPrefix hnot, ih hcut]
      rfl

/--
A text without the word, whose last element is none of the word, is what a cut at the word right behind it leaves.
-/
theorem cut_append_separator {c : α} (hs : ¬ w <:+: s) (hc : c ∉ w) (hw : w ≠ []) (t : List α)
    : cut w (s ++ c :: (w ++ t)) = some (s ++ [c], t) := by
  induction s with
  | nil =>
    have hnot : ¬ w <+: c :: (w ++ t) := by
      cases w with
      | nil => exact absurd rfl hw
      | cons x w =>
        intro h
        exact hc (by rw [(cons_prefix_cons.mp h).left]; exact mem_cons_self)
    rw [nil_append, cut_cons_of_not_isPrefix hnot, cut_append_self]
    rfl
  | cons x s ih =>
    rw [infix_cons_iff, not_or] at hs
    have hnot : ¬ w <+: x :: s ++ c :: (w ++ t) := by
      intro h
      rcases prefix_or_prefix_of_prefix h (prefix_append (x :: s) _) with hshort | ⟨rest, hrest⟩
      . exact hs.left hshort
      . rw [← hrest, prefix_append_right_inj] at h
        cases rest with
        | nil =>
          rw [append_nil] at hrest
          exact hs.left (by rw [hrest])
        | cons y rest =>
          refine hc ?_
          rw [← (cons_prefix_cons.mp h).left, ← hrest]
          exact mem_append_right _ mem_cons_self
    rw [cons_append] at hnot ⊢
    rw [cut_cons_of_not_isPrefix hnot, ih hs.right]
    rfl

/--
The number of places where a word stands in a text, overlapping ones included.
-/
def occurrences (w s : List α) : Nat :=
  (List.range (s.length + 1)).countP fun i => w <+: s.drop i

theorem isInfix_of_occurrences_pos (h : 0 < occurrences w s) : w <:+: s := by
  have ⟨i, _, hprefix⟩ := countP_pos_iff.mp h
  rw [decide_eq_true_eq] at hprefix
  exact hprefix.isInfix.trans (drop_suffix i s).isInfix

end Cut
