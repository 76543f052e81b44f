import Mathlib

/-!
This module contains the greedy choice of disjoint intervals from a sorted list, and the rewriting of
a text at disjoint intervals from right to left.
-/

namespace Sweep

variable {α κ τ γ : Type}

section StableSort

variable [LinearOrder κ] {key : α → κ}

/--
The stable sort by a key.
-/
def sortBy (key : α → κ) (xs : List α) : List α :=
  xs.insertionSort fun a b => key a ≤ key b

theorem perm_sortBy (xs : List α) : (sortBy key xs).Perm xs :=
  List.perm_insertionSort _ _

@[simp]
theorem mem_sortBy {xs : List α} {x : α} : x ∈ sortBy key xs ↔ x ∈ xs :=
  (perm_sortBy xs).mem_iff

theorem pairwise_sortBy (xs : List α) : (sortBy key xs).Pairwise fun a b => key a ≤ key b := by
  have : Std.Total fun a b => key a ≤ key b := ⟨fun a b => le_total (key a) (key b)⟩
  have : IsTrans α fun a b => key a ≤ key b := ⟨fun _ _ _ => le_trans⟩
  exact List.pairwise_insertionSort _ xs

/--
A list in strictly ascending order is what sorting makes of its elements.
-/
theorem sortBy_eq {xs ys : List α} (hperm : ys.Perm xs) (hsorted : ys.Pairwise fun a b => key a < key b)
    : sortBy key xs = ys := by
  have hinj : ∀ a ∈ ys, ∀ b ∈ ys, key a = key b → a = b := by
    apply List.inj_on_of_nodup_map
    rw [List.Nodup, List.pairwise_map]
    exact hsorted.imp fun h => ne_of_lt h
  apply List.Perm.eq_of_pairwise ?_ (pairwise_sortBy xs) (hsorted.imp le_of_lt)
  . exact (perm_sortBy xs).trans hperm.symm
  . intro a b ha hb hab hba
    have ha : a ∈ ys := hperm.mem_iff.mpr (mem_sortBy.mp ha)
    exact hinj a ha b hb (le_antisymm hab hba)

/--
With distinct keys, what is sorted to the same list has the same elements.
-/
theorem sortBy_eq_iff_perm {xs ys : List α} (hkeys : (xs.map key).Nodup)
    : sortBy key xs = sortBy key ys ↔ xs.Perm ys := by
  constructor
  . intro h
    exact (perm_sortBy xs).symm.trans (h ▸ perm_sortBy ys)
  . intro hperm
    apply List.Perm.eq_of_pairwise ?_ (pairwise_sortBy xs) (pairwise_sortBy ys)
    . exact (perm_sortBy xs).trans (hperm.trans (perm_sortBy ys).symm)
    . intro a b ha hb hab hba
      exact List.inj_on_of_nodup_map hkeys (mem_sortBy.mp ha)
        (hperm.mem_iff.mpr (mem_sortBy.mp hb)) (le_antisymm hab hba)

/--
A map that keeps the keys can be applied after sorting.
-/
theorem map_sortBy {β : Type} (key' : β → κ) {f : α → β} (h : ∀ a, key' (f a) = key a) (xs : List α)
    : (sortBy key xs).map f = sortBy key' (xs.map f) := by
  unfold sortBy
  apply List.map_insertionSort
  intro a _ b _
  rw [h, h]

end StableSort

section Greedy

variable [LinearOrder τ] (start stop : α → τ)

/--
Keep an interval unless it starts before the end of the one kept last.
-/
def sweep : τ → List α → List α
  | _, [] => []
  | last, x :: xs => if start x < last then sweep last xs else x :: sweep (stop x) xs

variable {start stop}

theorem sweep_sublist (last : τ) (xs : List α) : (sweep start stop last xs).Sublist xs := by
  induction xs generalizing last with
  | nil => exact List.Sublist.refl _
  | cons x xs ih =>
    unfold sweep
    split
    . exact (ih last).cons x
    . exact (ih (stop x)).cons_cons x

theorem le_start_of_mem_sweep {xs : List α} (hproper : ∀ x ∈ xs, start x ≤ stop x) {last : τ} {s : α}
    (hs : s ∈ sweep start stop last xs) : last ≤ start s := by
  induction xs generalizing last with
  | nil => cases hs
  | cons x xs ih =>
    have htail : ∀ y ∈ xs, start y ≤ stop y := fun y hy => hproper y (by simp [hy])
    unfold sweep at hs
    split at hs
    . exact ih htail hs
    . next hx =>
      cases List.mem_cons.mp hs with
      | inl heq =>
        rw [heq]
        exact not_lt.mp hx
      | inr hs =>
        calc
          last ≤ start x := not_lt.mp hx
          _ ≤ stop x := hproper x (by simp)
          _ ≤ start s := ih htail hs

theorem pairwise_sweep {xs : List α} (hproper : ∀ x ∈ xs, start x ≤ stop x) (last : τ)
    : (sweep start stop last xs).Pairwise fun a b => stop a ≤ start b := by
  induction xs generalizing last with
  | nil => exact List.Pairwise.nil
  | cons x xs ih =>
    have htail : ∀ y ∈ xs, start y ≤ stop y := fun y hy => hproper y (by simp [hy])
    unfold sweep
    split
    . exact ih htail last
    . rw [List.pairwise_cons]
      refine ⟨?_, ih htail (stop x)⟩
      intro s hs
      exact le_start_of_mem_sweep htail hs

/--
Of every interval the start lies in an interval that is kept, which is the interval itself or one
before it.
-/
theorem exists_mem_sweep {R : α → α → Prop} {xs : List α} (hproper : ∀ x ∈ xs, start x < stop x)
    (hsorted : xs.Pairwise fun a b => start a ≤ start b) (hR : xs.Pairwise R) {last : τ} {r : α}
    (hr : r ∈ xs)
    : start r < last
        ∨
      ∃ s ∈ sweep start stop last xs, (s = r ∨ R s r) ∧ start s ≤ start r ∧ start r < stop s := by
  induction xs generalizing last with
  | nil => cases hr
  | cons x xs ih =>
    rw [List.pairwise_cons] at hsorted hR
    have htail : ∀ y ∈ xs, start y < stop y := fun y hy => hproper y (by simp [hy])
    unfold sweep
    cases List.mem_cons.mp hr with
    | inl heq =>
      subst heq
      split
      . next hlt => exact .inl hlt
      . exact .inr ⟨r, by simp, .inl rfl, le_refl _, hproper r (by simp)⟩
    | inr hr =>
      split
      . exact ih htail hsorted.right hR.right hr
      . -- the interval just kept is the one that a later one can start in
        cases @ih htail hsorted.right hR.right (stop x) hr with
        | inl hlt => exact .inr ⟨x, by simp, .inr (hR.left r hr), hsorted.left r hr, hlt⟩
        | inr hkept =>
          have ⟨s, hs, hrest⟩ := hkept
          exact .inr ⟨s, by simp [hs], hrest⟩

end Greedy

section Reading

variable [LinearOrder τ] [LinearOrder κ] {start stop : α → τ} {key : α → κ}

/--
Of the intervals that start from a position on, the first listed one with the least key.
-/
def next (start : α → τ) (key : α → κ) (xs : List α) (pos : τ) : Option α :=
  (xs.filter fun x => pos ≤ start x).argmin key

end Reading

section Rewrite

/--
What comes in place of an interval of a text.
-/
structure Piece (γ : Type) where
  start : Nat
  stop : Nat
  new : List γ

/--
`text[start:stop] = new`
-/
def splice (p : Piece γ) (text : List γ) : List γ :=
  text.take p.start ++ p.new ++ text.drop (max p.start p.stop)

/--
The text from a position on, with the pieces in place of their intervals.
-/
def weave (text : List γ) : Nat → List (Piece γ) → List γ
  | pos, [] => text.drop pos
  | pos, p :: ps => (text.take p.start).drop pos ++ p.new ++ weave text p.stop ps

/--
Rewriting from right to left puts every piece in place of its own interval.
-/
theorem foldr_splice (text : List γ) {ps : List (Piece γ)} {pos : Nat} (hpos : pos ≤ text.length)
    (hproper : ∀ p ∈ ps, pos ≤ p.start ∧ p.start < p.stop ∧ p.start < text.length)
    (hdisjoint : ps.Pairwise fun a b => a.stop ≤ b.start)
    : ps.foldr splice text = text.take pos ++ weave text pos ps := by
  induction ps generalizing pos with
  | nil => simp [weave]
  | cons p ps ih =>
    rw [List.pairwise_cons] at hdisjoint
    have ⟨hle, hlt, hlen⟩ := hproper p (by simp)
    have hhead : text.take p.start = text.take pos ++ (text.take p.start).drop pos := by
      have := List.take_append_drop pos (text.take p.start)
      rwa [List.take_take, min_eq_left hle, eq_comm] at this
    have hmax : max p.start p.stop = p.stop := by omega
    rw [List.foldr_cons]
    cases ps with
    | nil =>
      simp only [List.foldr_nil, splice, weave, hmax]
      conv => lhs; rw [hhead]
      simp
    | cons q qs =>
      have hq : p.stop ≤ q.start := hdisjoint.left q (by simp)
      have hqlen : q.start < text.length := (hproper q (by simp)).right.right
      rw [@ih p.stop (by omega)]
      . have htake : (text.take p.stop).length = p.stop := by
          rw [List.length_take]
          omega
        unfold splice
        rw [hmax, List.drop_left' htake, List.take_append_of_le_length (by omega), List.take_take,
          min_eq_left (le_of_lt hlt)]
        conv => lhs; rw [hhead]
        simp [weave]
      . intro r hr
        have := hproper r (by simp [hr])
        exact ⟨hdisjoint.left r hr, this.right⟩
      . exact hdisjoint.right

/--
The piece that puts an interval of the text back in place of what came for it.
-/
def undo (text : List γ) (p : Piece γ) : Piece γ where
  start := p.start
  stop := p.start + p.new.length
  new := (text.take p.stop).drop p.start

/--
Undoing the pieces from left to right gives the text back, since everything before a piece is in its old
place by then.
-/
theorem foldl_splice_undo (text : List γ) {ps : List (Piece γ)} {pos : Nat}
    (hproper : ∀ p ∈ ps, pos ≤ p.start ∧ p.start ≤ p.stop ∧ p.stop ≤ text.length)
    (hdisjoint : ps.Pairwise fun a b => a.stop ≤ b.start)
    : ps.foldl (fun chars p => splice (undo text p) chars) (text.take pos ++ weave text pos ps) = text := by
  induction ps generalizing pos with
  | nil => simp [weave]
  | cons p ps ih =>
    rw [List.pairwise_cons] at hdisjoint
    have ⟨hle, hlt, hlen⟩ := hproper p (by simp)
    have hhead : text.take pos ++ (text.take p.start).drop pos = text.take p.start := by
      have := List.take_append_drop pos (text.take p.start)
      rwa [List.take_take, min_eq_left hle] at this
    have hback : text.take p.start ++ (text.take p.stop).drop p.start = text.take p.stop := by
      have := List.take_append_drop p.start (text.take p.stop)
      rwa [List.take_take, min_eq_left hlt] at this
    have hlength : (text.take p.start).length = p.start := by
      rw [List.length_take]
      omega
    have hwoven : text.take pos ++ weave text pos (p :: ps) = text.take p.start ++ (p.new ++ weave text p.stop ps) := by
      rw [weave, List.append_assoc, ← List.append_assoc, hhead]
    have hsplice : splice (undo text p) (text.take pos ++ weave text pos (p :: ps))
        = text.take p.stop ++ weave text p.stop ps := by
      have hmax : max p.start (p.start + p.new.length) = (text.take p.start ++ p.new).length := by
        rw [List.length_append, hlength]
        omega
      rw [hwoven]
      unfold splice undo
      dsimp only
      rw [List.take_left' hlength, hback, hmax, ← List.append_assoc, List.drop_left]
    rw [List.foldl_cons, hsplice]
    refine ih (fun q hq => ?_) hdisjoint.right
    exact ⟨hdisjoint.left q hq, (hproper q (by simp [hq])).right⟩

theorem weave_eq_drop_append {text : List γ} {pos m : Nat} (hpos : pos ≤ m) {ps : List (Piece γ)}
    (h : ∀ p ∈ ps, m ≤ p.start)
    : weave text pos ps = (text.take m).drop pos ++ weave text m ps := by
  have hsplit {n : Nat} (hn : m ≤ n) : (text.take n).drop pos = (text.take m).drop pos ++ (text.take n).drop m := by
    have htake := List.take_append_drop (m - pos) ((text.take n).drop pos)
    rw [List.drop_drop, Nat.add_sub_cancel' hpos, List.take_drop, Nat.add_sub_cancel' hpos, List.take_take,
      min_eq_left hn] at htake
    exact htake.symm
  cases ps with
  | nil =>
    have := @hsplit (max m text.length) (le_max_left _ _)
    rwa [List.take_of_length_le (le_max_right _ _)] at this
  | cons p ps =>
    unfold weave
    rw [hsplit (h p (by simp))]
    simp only [List.append_assoc]

/--
Pieces on both sides of a position do not meet.
-/
theorem weave_append {text : List γ} {pos m : Nat} (hpos : pos ≤ m) {ps qs : List (Piece γ)}
    (hps : ∀ p ∈ ps, p.start ≤ p.stop ∧ p.stop ≤ m) (hqs : ∀ q ∈ qs, m ≤ q.start)
    : weave text pos (ps ++ qs) = weave (text.take m) pos ps ++ weave text m qs := by
  induction ps generalizing pos with
  | nil => exact weave_eq_drop_append hpos hqs
  | cons p ps ih =>
    have ⟨hproper, hstop⟩ := hps p (by simp)
    show (text.take p.start).drop pos ++ p.new ++ weave text p.stop (ps ++ qs)
      = ((text.take m).take p.start).drop pos ++ p.new ++ weave (text.take m) p.stop ps ++ weave text m qs
    rw [ih hstop fun other hother => hps other (by simp [hother]), List.take_take,
      min_eq_left (hproper.trans hstop)]
    simp only [List.append_assoc]

end Rewrite

end Sweep
