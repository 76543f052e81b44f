import Legalise.Lib.Cut

/-!
This module contains streams of frames that a word ends each, and a reader that gets the stream in chunks.
-/

namespace Framing

open Cut

variable {α : Type} [DecidableEq α] (w : List α)

/--
The complete frames of a buffer, and what is left of it.
-/
def split (buffer : List α) : List (List α) × List α :=
  if _ : w = [] then ([], buffer)
  else
    match _ : cut w buffer with
    | none => ([], buffer)
    | some (frame, rest) =>
      let (frames, left) := split rest
      (frame :: frames, left)
termination_by buffer.length
decreasing_by
  have := List.length_pos_of_ne_nil (show w ≠ [] by assumption)
  rw [eq_of_cut (show cut w buffer = some (frame, rest) by assumption), List.length_append, List.length_append]
  omega

variable {w} {s t frame rest : List α}

theorem split_of_cut_eq_none (h : cut w s = none) : split w s = ([], s) := by
  unfold split
  split
  . rfl
  . split
    . rfl
    . next hcut => rw [h] at hcut; contradiction

theorem split_of_cut (hw : w ≠ []) (h : cut w s = some (frame, rest))
    : split w s = (frame :: (split w rest).fst, (split w rest).snd) := by
  conv => lhs; unfold split
  rw [dif_neg hw]
  split
  . next hcut => rw [h] at hcut; contradiction
  . next hcut =>
    rw [h] at hcut
    cases hcut
    rfl

/--
What is left of a buffer is read on when more of the stream has come.
-/
theorem split_append (hw : w ≠ []) (s t : List α)
    : split w (s ++ t)
        = ((split w s).fst ++ (split w ((split w s).snd ++ t)).fst, (split w ((split w s).snd ++ t)).snd) := by
  fun_induction split w s with
  | case1 s h => exact absurd h hw
  | case2 s _ hcut => rfl
  | case3 s _ frame rest hcut frames left heq ih =>
    rw [split_of_cut hw (cut_append hcut t), ih, heq]
    rfl

/--
The stream of some frames is split into these frames, if none of them holds the word that ends it.
-/
theorem split_flatMap (hw : w ≠ []) {frames : List (List α)}
    (h : ∀ frame ∈ frames, ∀ rest, cut w (frame ++ w ++ rest) = some (frame, rest))
    : split w (frames.flatMap fun frame => frame ++ w) = (frames, []) := by
  induction frames with
  | nil =>
    have hcut : cut w [] = none := by
      simp [cut, hw]
    exact split_of_cut_eq_none hcut
  | cons frame frames ih =>
    rw [List.flatMap_cons, split_of_cut hw (h frame (by simp) _), ih fun f hf => h f (by simp [hf])]

end Framing
