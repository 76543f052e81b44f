import Mathlib

/-!
This module contains where a window is cut: at its last boundary of the best kind that it has, or at its
end.
-/

namespace Breaks

section LastWhere

variable {p : Nat → Bool} {lo hi i : Nat}

/--
The last position of a range with a property.
-/
def lastWhere (p : Nat → Bool) (lo hi : Nat) : Option Nat :=
  (List.range' lo (hi - lo)).reverse.find? p

theorem lastWhere_eq_none_iff : lastWhere p lo hi = none ↔ ∀ j, lo ≤ j → j < hi → p j = false := by
  unfold lastWhere
  rw [List.find?_eq_none]
  simp only [List.mem_reverse, List.mem_range'_1, Bool.not_eq_true]
  constructor
  . intro h j hlo hhi
    exact h j (by omega)
  . intro h j hj
    exact h j hj.left (by omega)

theorem lastWhere_eq_some_iff
    : lastWhere p lo hi = some i
        ↔
      lo ≤ i ∧ i < hi ∧ p i = true ∧ ∀ j, i < j → j < hi → p j = false := by
  induction hcount : hi - lo generalizing hi with
  | zero =>
    have hnone : lastWhere p lo hi = none := by
      rw [lastWhere_eq_none_iff]
      intro j hlo hhi
      omega
    rw [hnone]
    constructor
    . exact fun h => nomatch h
    . intro ⟨hlo, hhi, _⟩
      omega
  | succ count ih =>
    have hstep : lastWhere p lo hi = if p (hi - 1) then some (hi - 1) else lastWhere p lo (hi - 1) := by
      have hrange : List.range' lo (hi - lo) = List.range' lo (hi - 1 - lo) ++ [hi - 1] := by
        rw [show hi - lo = (hi - 1 - lo) + 1 by omega, List.range'_concat]
        congr 2
        omega
      unfold lastWhere
      rw [hrange, List.reverse_append, List.reverse_singleton, List.singleton_append, List.find?_cons]
      split <;> simp_all
    rw [hstep]
    split
    . next htop =>
      constructor
      . intro h
        injection h with h
        subst h
        exact ⟨by omega, by omega, htop, fun j hij hj => by omega⟩
      . intro ⟨_, hhi, _, hlast⟩
        by_contra hne
        have hlt : i < hi - 1 := by
          have : hi - 1 ≠ i := fun heq => hne (congrArg some heq)
          omega
        rw [hlast (hi - 1) hlt (by omega)] at htop
        contradiction
    . next htop =>
      rw [@ih (hi - 1) (by omega)]
      constructor
      . intro ⟨hlo, hhi, hp, hlast⟩
        refine ⟨hlo, by omega, hp, ?_⟩
        intro j hij hj
        by_cases heq : j = hi - 1
        . rw [heq]
          simpa using htop
        . exact hlast j hij (by omega)
      . intro ⟨hlo, hhi, hp, hlast⟩
        have hne : i ≠ hi - 1 := by
          rintro rfl
          exact htop hp
        exact ⟨hlo, by omega, hp, fun j hij hj => hlast j hij (by omega)⟩

theorem lastWhere_congr {q : Nat → Bool} {hi' : Nat}
    (h : ∀ j, lo ≤ j → ((j < hi ∧ p j = true) ↔ (j < hi' ∧ q j = true)))
    : lastWhere p lo hi = lastWhere q lo hi' := by
  have hfalse {j : Nat} (hj : lo ≤ j) : (j < hi → p j = false) ↔ (j < hi' → q j = false) := by
    have hnot (n : Nat) (b : Bool) : (j < n → b = false) ↔ ¬ (j < n ∧ b = true) := by
      simp
    rw [hnot, hnot]
    exact not_congr (h j hj)
  cases hq : lastWhere q lo hi' with
  | none =>
    rw [lastWhere_eq_none_iff] at hq ⊢
    exact fun j hlo => (hfalse hlo).mpr (hq j hlo)
  | some i =>
    rw [lastWhere_eq_some_iff] at hq ⊢
    have ⟨hlo, hhi, hin, hafter⟩ := hq
    have hp := (h i hlo).mpr ⟨hhi, hin⟩
    exact ⟨hlo, hp.left, hp.right, fun j hij => (hfalse (by omega)).mpr (hafter j hij)⟩

theorem lastWhere_shift (p : Nat → Bool) (lo hi : Nat)
    : (lastWhere (fun r => p (lo + r)) 0 (hi - lo)).map (fun r => lo + r) = lastWhere p lo hi := by
  have hrange : List.range' lo (hi - lo) = (List.range' 0 (hi - lo)).map fun r => lo + r := by
    rw [List.map_add_range', Nat.add_zero]
  unfold lastWhere
  rw [hrange, ← List.map_reverse, List.find?_map, Nat.sub_zero]
  rfl

end LastWhere

section Best

/--
A kind of boundary: where the boundary that starts at a position ends, if there is one.
-/
abbrev Kind := Nat → Option Nat

/--
The end of the last boundary of a kind in a window.
-/
def lastIn (kind : Kind) (lo hi : Nat) : Option Nat :=
  (lastWhere (fun s => (kind s).any fun stop => stop ≤ hi) lo hi).bind kind

/--
The cut of a window, for kinds in order of preference.
-/
def best : List Kind → Nat → Nat → Nat
  | [], _, hi => hi
  | kind :: kinds, lo, hi => (lastIn kind lo hi).getD (best kinds lo hi)

/--
Of two boundaries of two kinds the one that starts later does not end earlier.
-/
def Before (kind other : Kind) : Prop :=
  ∀ s s' e e', s < s' → kind s = some e → other s' = some e' → e ≤ e'

/--
Boundaries that are not empty and do not lie in each other.
-/
structure Ordered (kinds : List Kind) : Prop where
  proper : ∀ kind ∈ kinds, ∀ s e, kind s = some e → s < e
  self : ∀ kind ∈ kinds, Before kind kind
  pairs : kinds.Pairwise Before

variable {kind : Kind} {kinds : List Kind} {lo hi lo' hi' e : Nat}

theorem Ordered.tail (h : Ordered (kind :: kinds)) : Ordered kinds where
  proper other hother := h.proper other (List.mem_cons_of_mem _ hother)
  self other hother := h.self other (List.mem_cons_of_mem _ hother)
  pairs := (List.pairwise_cons.mp h.pairs).right

theorem lastIn_eq_some (h : lastIn kind lo hi = some e)
    : ∃ s, lo ≤ s ∧ s < hi ∧ kind s = some e ∧ e ≤ hi
        ∧ ∀ t f, s < t → t < hi → kind t = some f → hi < f := by
  unfold lastIn at h
  rw [Option.bind_eq_some_iff] at h
  have ⟨s, hlast, he⟩ := h
  rw [lastWhere_eq_some_iff] at hlast
  have ⟨hlo, hhi, hin, hafter⟩ := hlast
  refine ⟨s, hlo, hhi, he, by simpa [he] using hin, ?_⟩
  intro t f hst ht hf
  have := hafter t hst ht
  simpa [hf] using this

theorem lastIn_eq_none (h : lastIn kind lo hi = none) {t f : Nat} (hlo : lo ≤ t) (hhi : t < hi)
    (hf : kind t = some f) : hi < f := by
  unfold lastIn at h
  cases hlast : lastWhere (fun s => (kind s).any fun stop => stop ≤ hi) lo hi with
  | none =>
    rw [lastWhere_eq_none_iff] at hlast
    have := hlast t hlo hhi
    simpa [hf] using this
  | some s =>
    have hin := (lastWhere_eq_some_iff.mp hlast).right.right.left
    rw [hlast, Option.bind_some] at h
    simp [h] at hin

theorem best_le (kinds : List Kind) (lo hi : Nat) : best kinds lo hi ≤ hi := by
  induction kinds with
  | nil => exact le_refl _
  | cons kind kinds ih =>
    unfold best
    cases h : lastIn kind lo hi with
    | none => exact ih
    | some e =>
      have ⟨_, _, _, _, hle, _⟩ := lastIn_eq_some h
      exact hle

theorem lt_best (h : Ordered kinds) (hlt : lo < hi) : lo < best kinds lo hi := by
  induction kinds with
  | nil => exact hlt
  | cons kind kinds ih =>
    unfold best
    cases hlast : lastIn kind lo hi with
    | none => exact ih h.tail
    | some e =>
      have ⟨s, hlo, _, he, _, _⟩ := lastIn_eq_some hlast
      exact Nat.lt_of_le_of_lt hlo (h.proper kind (by simp) s e he)

/--
A boundary that starts before the window of other kinds does not end after its cut.
-/
theorem le_best_of_before (hbefore : ∀ other ∈ kinds, Before kind other) {s : Nat} (hs : s < lo)
    (he : kind s = some e) (hle : e ≤ hi) : e ≤ best kinds lo hi := by
  induction kinds with
  | nil => exact hle
  | cons other kinds ih =>
    unfold best
    cases hlast : lastIn other lo hi with
    | none => exact ih fun third hthird => hbefore third (List.mem_cons_of_mem _ hthird)
    | some f =>
      have ⟨t, hlo, _, hf, _, _⟩ := lastIn_eq_some hlast
      exact hbefore other (by simp) s t e f (by omega) he hf

/--
A window further on is not cut earlier.
-/
theorem best_mono (h : Ordered kinds) (hlo : lo ≤ lo') (hhi : hi ≤ hi')
    : best kinds lo hi ≤ best kinds lo' hi' := by
  induction kinds with
  | nil => exact hhi
  | cons kind kinds ih =>
    have hself := h.self kind (by simp)
    unfold best
    cases hlast' : lastIn kind lo' hi' with
    | some e' =>
      have ⟨s', hlo', hs', he', _, hlatest⟩ := lastIn_eq_some hlast'
      cases hlast : lastIn kind lo hi with
      | some e =>
        have ⟨s, _, hs, he, hle, _⟩ := lastIn_eq_some hlast
        show e ≤ e'
        rcases Nat.lt_trichotomy s s' with hlt | rfl | hgt
        . exact hself s s' e e' hlt he he'
        . rw [he] at he'
          injection he' with heq
          omega
        . have := hlatest s e hgt (by omega) he
          omega
      | none =>
        -- This boundary is not in the first window, so it ends after that window.
        show best kinds lo hi ≤ e'
        have hbest := best_le kinds lo hi
        have hproper := h.proper kind (by simp) s' e' he'
        by_cases hin : s' < hi
        . have := lastIn_eq_none hlast (hlo.trans hlo') hin he'
          omega
        . omega
    | none =>
      cases hlast : lastIn kind lo hi with
      | some e =>
        have ⟨s, _, hs, he, hle, _⟩ := lastIn_eq_some hlast
        have hstart : s < lo' := by
          by_contra hin
          have := lastIn_eq_none hlast' (not_lt.mp hin) (by omega) he
          omega
        exact le_best_of_before (List.pairwise_cons.mp h.pairs).left hstart he (hle.trans hhi)
      | none => exact ih h.tail

end Best

end Breaks
