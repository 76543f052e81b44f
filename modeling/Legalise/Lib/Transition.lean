import Mathlib

/-!
This module contains transition systems: what holds initially and is kept by every step holds in all
reachable states, and what every step only extends is extended along every run.
-/

namespace Transition

variable {S : Type} {Init : S → Prop} {Step : S → S → Prop}

/--
A state that some run ends in.
-/
inductive Reachable (Init : S → Prop) (Step : S → S → Prop) : S → Prop where
  | init {s : S} (h : Init s) : Reachable Init Step s
  | step {s t : S} (hs : Reachable Init Step s) (h : Step s t) : Reachable Init Step t

theorem Reachable.invariant {Inv : S → Prop} (hinit : ∀ s, Init s → Inv s)
    (hstep : ∀ s t, Inv s → Step s t → Inv t) {s : S} (h : Reachable Init Step s) : Inv s := by
  induction h with
  | init h => exact hinit _ h
  | step _ h ih => exact hstep _ _ ih h

theorem Reachable.trans {s t : S} (hs : Reachable Init Step s)
    (h : Relation.ReflTransGen Step s t) : Reachable Init Step t := by
  induction h with
  | refl => exact hs
  | tail _ hstep ih => exact .step ih hstep

/--
What every step from a reachable state keeps or raises is kept or raised by every run.
-/
theorem Reachable.monotone {α : Type} [Preorder α] {f : S → α}
    (hstep : ∀ s t, Reachable Init Step s → Step s t → f s ≤ f t) {s t : S}
    (hs : Reachable Init Step s) (h : Relation.ReflTransGen Step s t) : f s ≤ f t := by
  induction h with
  | refl => exact le_refl _
  | tail h hlast ih => exact le_trans ih (hstep _ _ (hs.trans h) hlast)

/--
The states at which the statements of a reader see the system: any number of steps may lie between
two of them.
-/
structure Schedule (Init : S → Prop) (Step : S → S → Prop) where
  state : Nat → S
  reachable_zero : Reachable Init Step (state 0)
  steps : ∀ i, Relation.ReflTransGen Step (state i) (state (i + 1))

namespace Schedule

theorem reachable (σ : Schedule Init Step) (i : Nat) : Reachable Init Step (σ.state i) := by
  induction i with
  | zero => exact σ.reachable_zero
  | succ i ih => exact ih.trans (σ.steps i)

theorem monotone {α : Type} [Preorder α] (σ : Schedule Init Step) {f : S → α}
    (hstep : ∀ s t, Reachable Init Step s → Step s t → f s ≤ f t) {i j : Nat} (hij : i ≤ j)
    : f (σ.state i) ≤ f (σ.state j) := by
  induction hij with
  | refl => exact le_refl _
  | step _ ih => exact le_trans ih ((σ.reachable _).monotone hstep (σ.steps _))

end Schedule

end Transition
