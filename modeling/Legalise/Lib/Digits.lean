import Mathlib

/-!
This module contains digits of a fixed width: the numbers below a power of the base are written with
leading zeros, and the writing is injective and keeps the order.
-/

/--
The last `width` digits of a number, the most significant one first.
-/
def fixedDigits (base : Nat) : Nat → Nat → List Nat
  | 0, _ => []
  | width + 1, n => fixedDigits base width (n / base) ++ [n % base]

variable {base : Nat}

@[simp]
theorem length_fixedDigits (width n : Nat) : (fixedDigits base width n).length = width := by
  induction width generalizing n with
  | zero => rfl
  | succ width ih => simp [fixedDigits, ih]

theorem lt_base_of_mem_fixedDigits (hbase : 0 < base) {width n d : Nat}
    (hd : d ∈ fixedDigits base width n) : d < base := by
  induction width generalizing n with
  | zero => contradiction
  | succ width ih =>
    rw [fixedDigits, List.mem_append, List.mem_singleton] at hd
    cases hd with
    | inl hd => exact ih hd
    | inr hd => exact hd ▸ Nat.mod_lt n hbase

@[simp]
theorem fixedDigits_zero (width : Nat) : fixedDigits base width 0 = List.replicate width 0 := by
  induction width with
  | zero => rfl
  | succ width ih => rw [fixedDigits, Nat.zero_div, ih, Nat.zero_mod, List.replicate_succ']

/--
The number that digits are written for.
-/
def ofFixedDigits (base : Nat) (ds : List Nat) : Nat :=
  ds.foldl (fun n d => n * base + d) 0

theorem ofFixedDigits_fixedDigits {width n : Nat} (hn : n < base ^ width) :
    ofFixedDigits base (fixedDigits base width n) = n := by
  induction width generalizing n with
  | zero =>
    have : n = 0 := by simpa using hn
    rw [this]
    rfl
  | succ width ih =>
    have hdiv : n / base < base ^ width := by
      apply Nat.div_lt_of_lt_mul
      rwa [Nat.pow_succ, Nat.mul_comm] at hn
    have := ih hdiv
    unfold ofFixedDigits at this ⊢
    rw [fixedDigits, List.foldl_append, this, List.foldl_cons, List.foldl_nil]
    exact Nat.div_add_mod' n base

theorem fixedDigits_inj {width m n : Nat} (hm : m < base ^ width) (hn : n < base ^ width)
    (heq : fixedDigits base width m = fixedDigits base width n) : m = n := by
  rw [← ofFixedDigits_fixedDigits hm, ← ofFixedDigits_fixedDigits hn, heq]

/--
`Nat.toDigits` without leading zeros, filled up with zeros from the left.
-/
theorem map_digitChar_fixedDigits (hbase : 1 < base) {width n : Nat} (hwidth : 0 < width)
    (hn : n < base ^ width)
    : (fixedDigits base width n).map Nat.digitChar
        = List.replicate (width - (Nat.toDigits base n).length) '0' ++ Nat.toDigits base n := by
  induction width generalizing n with
  | zero => contradiction
  | succ width ih =>
    rw [fixedDigits, List.map_append, List.map_singleton]
    by_cases hlt : n < base
    . rw [Nat.div_eq_of_lt hlt, Nat.mod_eq_of_lt hlt, Nat.toDigits_of_lt_base hlt, fixedDigits_zero,
        List.map_replicate]
      rfl
    . have hle : base ≤ n := by omega
      have hdiv : n / base < base ^ width := by
        apply Nat.div_lt_of_lt_mul
        rwa [Nat.pow_succ, Nat.mul_comm] at hn
      have hwidth : 0 < width := by
        apply Nat.pos_of_ne_zero
        intro hzero
        rw [hzero, Nat.pow_zero, Nat.lt_one_iff, Nat.div_eq_zero_iff] at hdiv
        omega
      rw [ih hwidth hdiv, Nat.toDigits_of_base_le hbase hle, List.length_append,
        List.length_singleton, List.append_assoc, Nat.add_sub_add_right]

theorem fixedDigits_eq_map_range (width n : Nat)
    : fixedDigits base width n
        = (List.range width).map fun i => n / base ^ (width - 1 - i) % base := by
  induction width generalizing n with
  | zero => rfl
  | succ width ih =>
    rw [fixedDigits, ih, List.range_succ, List.map_append, List.map_singleton]
    congr 1
    . apply List.map_congr_left
      intro i hi
      have hi := List.mem_range.mp hi
      have : width + 1 - 1 - i = (width - 1 - i) + 1 := by omega
      rw [Nat.div_div_eq_div_mul, this, Nat.pow_succ, Nat.mul_comm base]
    . simp

/--
Every digit in the squared base is two digits.
-/
theorem fixedDigits_two_mul (width n : Nat)
    : fixedDigits base (2 * width) n
        = (fixedDigits (base * base) width n).flatMap fun d => [d / base, d % base] := by
  induction width generalizing n with
  | zero => rfl
  | succ width ih =>
    have : 2 * (width + 1) = 2 * width + 1 + 1 := by omega
    rw [this, fixedDigits, fixedDigits, ih, Nat.div_div_eq_div_mul, fixedDigits, List.flatMap_append,
      List.append_assoc, List.flatMap_singleton, Nat.mod_mul_right_div_self, Nat.mod_mul_right_mod]
    rfl

/--
One more digit stands in front of the last `width` ones.
-/
theorem fixedDigits_succ_eq_cons (width n : Nat)
    : fixedDigits base (width + 1) n = n / base ^ width % base :: fixedDigits base width n := by
  rw [fixedDigits_eq_map_range, fixedDigits_eq_map_range, List.range_succ_eq_map, List.map_cons,
    List.map_map]
  congr 1
  apply List.map_congr_left
  intro i hi
  have := List.mem_range.mp hi
  simp only [Function.comp_apply]
  have : width + 1 - 1 - i.succ = width - 1 - i := by omega
  rw [this]
