import Mathlib

/-!
This module contains runs of a machine that takes one input after the other: what holds in all states of a
run, and which steps of the run are to blame if it does not.
-/

namespace Runs

variable {S O : Type} {exec : S → O → S} {Inv P : S → Prop} {Good Allowed : S → O → Prop}

theorem foldl_invariant (hstep : ∀ s o, Allowed s o → Inv s → Inv (exec s o)) {s : S} (h : Inv s)
    {os : List O} (hallowed : ∀ earlier o, earlier ++ [o] <+: os → Allowed (earlier.foldl exec s) o)
    : Inv (os.foldl exec s) := by
  induction os using List.reverseRecOn with
  | nil => exact h
  | append_singleton os o ih =>
    rw [List.foldl_append]
    refine hstep _ o (hallowed os o (List.prefix_refl _)) (ih ?_)
    exact fun earlier o hbegin => hallowed earlier o (hbegin.trans (List.prefix_append _ _))

/--
If a good step is one that keeps a property, then the property holds in all states of a run if and only if
all steps of the run are good.
-/
theorem holds_iff_good_of_allowed (hinv : ∀ s o, Allowed s o → Inv s → Inv (exec s o))
    (hstep : ∀ s o, Allowed s o → Inv s → P s → (P (exec s o) ↔ Good s o)) {s : S} (hs : Inv s) (h : P s)
    {os : List O} (hallowed : ∀ earlier o, earlier ++ [o] <+: os → Allowed (earlier.foldl exec s) o)
    : (∀ earlier, earlier <+: os → P (earlier.foldl exec s))
        ↔ ∀ earlier o, earlier ++ [o] <+: os → Good (earlier.foldl exec s) o := by
  have hinvAt (earlier : List O) (hbegin : earlier <+: os) : Inv (earlier.foldl exec s) :=
    foldl_invariant hinv hs (fun before o hbefore => hallowed before o (hbefore.trans hbegin))
  constructor
  . intro hholds earlier o hbegin
    have hearlier := (List.prefix_append _ _).trans hbegin
    have hafter := hholds (earlier ++ [o]) hbegin
    rw [List.foldl_append] at hafter
    exact (hstep _ o (hallowed earlier o hbegin) (hinvAt earlier hearlier) (hholds earlier hearlier)).mp hafter
  . intro hgood earlier
    induction earlier using List.reverseRecOn with
    | nil => exact fun _ => h
    | append_singleton earlier o ih =>
      intro hbegin
      have hearlier := (List.prefix_append _ _).trans hbegin
      rw [List.foldl_append]
      exact (hstep _ o (hallowed earlier o hbegin) (hinvAt earlier hearlier) (ih hearlier)).mpr
        (hgood earlier o hbegin)

theorem holds_iff_good (hinv : ∀ s o, Inv s → Inv (exec s o))
    (hstep : ∀ s o, Inv s → P s → (P (exec s o) ↔ Good s o)) {s : S} (hs : Inv s) (h : P s)
    (os : List O)
    : (∀ earlier, earlier <+: os → P (earlier.foldl exec s))
        ↔ ∀ earlier o, earlier ++ [o] <+: os → Good (earlier.foldl exec s) o := by
  refine @holds_iff_good_of_allowed S O exec Inv P Good (fun _ _ => True) ?_ ?_ s hs h os ?_
  . exact fun s o _ => hinv s o
  . exact fun s o _ => hstep s o
  . exact fun _ _ _ => trivial

/--
The steps of a run, checked one after the other.
-/
def Steps (exec : S → O → S) (Allowed : S → O → Prop) : S → List O → Prop
  | _, [] => True
  | s, o :: os => Allowed s o ∧ Steps exec Allowed (exec s o) os

theorem Steps.of_prefix {s : S} {os : List O} (h : Steps exec Allowed s os) {earlier : List O} {o : O}
    (hbegin : earlier ++ [o] <+: os) : Allowed (earlier.foldl exec s) o := by
  induction earlier generalizing s os with
  | nil =>
    cases os with
    | nil => simp at hbegin
    | cons first os =>
      rw [List.nil_append, List.cons_prefix_cons] at hbegin
      exact hbegin.left ▸ h.left
  | cons first earlier ih =>
    cases os with
    | nil => simp at hbegin
    | cons other os =>
      rw [List.cons_append, List.cons_prefix_cons] at hbegin
      obtain ⟨rfl, hrest⟩ := hbegin
      exact ih h.right hrest

end Runs
