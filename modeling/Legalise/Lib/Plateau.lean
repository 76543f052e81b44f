import Mathlib

/-!
This module contains the replacement of long runs of one element in a list, and the cap on the length of such runs.
-/

namespace Plateau

variable {α : Type} [DecidableEq α] (x : α)

/--
What becomes of a run.
-/
def replaced (least : Nat) (w : List α) (n : Nat) : List α :=
  if least ≤ n then w else List.replicate n x

/--
Every run of at least `least` elements becomes `w`, after `n` elements of a run.
-/
def replaceFrom (least : Nat) (w : List α) : Nat → List α → List α
  | n, [] => replaced x least w n
  | n, c :: s =>
    if c = x then replaceFrom least w (n + 1) s
    else replaced x least w n ++ c :: replaceFrom least w 0 s

def replaceRuns (least : Nat) (w s : List α) : List α :=
  replaceFrom x least w 0 s

/--
Of every run at most `limit` elements are kept, after `n` kept elements of a run.
-/
def capFrom (limit : Nat) : Nat → List α → List α
  | _, [] => []
  | n, c :: s =>
    if c = x then
      if n < limit then c :: capFrom limit (n + 1) s else capFrom limit n s
    else c :: capFrom limit 0 s

def cap (limit : Nat) (s : List α) : List α :=
  capFrom x limit 0 s

/--
The kept elements of a run at the end of a list.
-/
def pending (limit : Nat) : Nat → List α → Nat
  | n, [] => n
  | n, c :: s => if c = x then pending limit (min (n + 1) limit) s else pending limit 0 s

variable {x}

/--
Replacing the runs that are too long by one that is not is a cap.
-/
theorem replaceFrom_eq {least limit : Nat} (hleast : limit ≤ least) (hlimit : least ≤ limit + 1) (n : Nat) (s : List α)
    : replaceFrom x least (List.replicate limit x) n s
        = List.replicate (min n limit) x ++ capFrom x limit (min n limit) s := by
  have hreplaced (n : Nat) : replaced x least (List.replicate limit x) n = List.replicate (min n limit) x := by
    unfold replaced
    split
    . rw [Nat.min_eq_right (by omega)]
    . rw [Nat.min_eq_left (by omega)]
  induction s generalizing n with
  | nil => rw [replaceFrom, hreplaced, capFrom, List.append_nil]
  | cons c s ih =>
    rw [replaceFrom, capFrom]
    by_cases hc : c = x
    . rw [if_pos hc, if_pos hc, ih, hc]
      by_cases hn : n < limit
      . rw [if_pos (by omega), Nat.min_eq_left (by omega), Nat.min_eq_left (by omega), List.replicate_succ',
          List.append_assoc, List.singleton_append]
      . rw [if_neg (by omega), Nat.min_eq_right (by omega), Nat.min_eq_right (by omega)]
    . rw [if_neg hc, if_neg hc, hreplaced, ih]
      simp

theorem replaceRuns_eq {least limit : Nat} (hleast : limit ≤ least) (hlimit : least ≤ limit + 1) (s : List α)
    : replaceRuns x least (List.replicate limit x) s = cap x limit s := by
  unfold replaceRuns cap
  rw [replaceFrom_eq hleast hlimit]
  simp

/--
Elements that are no part of a run separate what is replaced.
-/
theorem replaceFrom_append_cons (least : Nat) (w : List α) {c : α} (hc : c ≠ x) (n : Nat) (s t : List α)
    : replaceFrom x least w n (s ++ c :: t) = replaceFrom x least w n s ++ c :: replaceFrom x least w 0 t := by
  induction s generalizing n with
  | nil =>
    rw [List.nil_append, replaceFrom.eq_def x least w n (c :: t), replaceFrom.eq_def x least w n []]
    simp [hc]
  | cons d s ih =>
    rw [List.cons_append, replaceFrom, replaceFrom]
    split
    . rw [ih]
    . rw [ih, List.append_assoc, List.cons_append]

/--
A run ends where other elements follow.
-/
theorem replaceFrom_of_not_mem {least : Nat} (hleast : 0 < least) {w tag : List α} (htag : x ∉ tag) (hne : tag ≠ [])
    (n : Nat) (t : List α)
    : replaceFrom x least w n (tag ++ t) = replaced x least w n ++ (tag ++ replaceFrom x least w 0 t) := by
  induction tag generalizing n with
  | nil => exact (hne rfl).elim
  | cons c tag ih =>
    rw [List.mem_cons, not_or] at htag
    rw [List.cons_append, replaceFrom, if_neg (Ne.symm htag.left)]
    cases tag with
    | nil => rfl
    | cons d tag =>
      have hzero : replaced x least w 0 = [] := by
        unfold replaced
        rw [if_neg (by omega)]
        rfl
      rw [ih htag.right (by simp), hzero]
      rfl

theorem replaceRuns_append_of_not_mem {least : Nat} (hleast : 0 < least) {w tag : List α} (htag : x ∉ tag)
    (hne : tag ≠ []) (s t : List α)
    : replaceRuns x least w (s ++ (tag ++ t)) = replaceRuns x least w s ++ (tag ++ replaceRuns x least w t) := by
  cases tag with
  | nil => exact (hne rfl).elim
  | cons c tag =>
    have hsplit := replaceFrom_of_not_mem (w := w) hleast htag hne 0 t
    rw [List.mem_cons, not_or] at htag
    unfold replaceRuns
    rw [List.cons_append, replaceFrom_append_cons least w (Ne.symm htag.left)]
    rw [List.cons_append, replaceFrom, if_neg (Ne.symm htag.left)] at hsplit
    rw [List.append_cancel_left hsplit]

theorem capFrom_append (limit : Nat) (n : Nat) (hn : n ≤ limit) (s t : List α)
    : capFrom x limit n (s ++ t) = capFrom x limit n s ++ capFrom x limit (pending x limit n s) t := by
  induction s generalizing n with
  | nil => rfl
  | cons c s ih =>
    rw [List.cons_append, capFrom, capFrom, pending]
    by_cases hc : c = x
    . rw [if_pos hc, if_pos hc, if_pos hc]
      by_cases hlt : n < limit
      . rw [if_pos hlt, if_pos hlt, ih (n + 1) (by omega), Nat.min_eq_left (by omega), List.cons_append]
      . rw [if_neg hlt, if_neg hlt, ih n hn, Nat.min_eq_right (by omega), show n = limit by omega]
    . rw [if_neg hc, if_neg hc, if_neg hc, ih 0 (by omega), List.cons_append]

/--
An inner cap that lets more through changes nothing.
-/
theorem capFrom_capFrom {limit j k : Nat} (hjk : j ≤ k) (hk : k ≤ limit) (s : List α)
    : capFrom x limit k (capFrom x limit j s) = capFrom x limit k s := by
  induction s generalizing j k with
  | nil => rfl
  | cons c s ih =>
    rw [capFrom.eq_def x limit j, capFrom.eq_def x limit k (c :: s)]
    dsimp only
    by_cases hc : c = x
    . rw [if_pos hc, if_pos hc]
      by_cases hj : j < limit
      . rw [if_pos hj, capFrom, if_pos hc]
        by_cases hlt : k < limit
        . rw [if_pos hlt, if_pos hlt, ih (by omega) (by omega)]
        . rw [if_neg hlt, if_neg hlt, ih (by omega) hk]
      . rw [if_neg hj, if_neg (by omega), ih hjk hk]
    . rw [if_neg hc, if_neg hc, capFrom, if_neg hc, ih (Nat.le_refl 0) (by omega)]

theorem pending_le {limit n : Nat} (hn : n ≤ limit) (s : List α) : pending x limit n s ≤ limit := by
  induction s generalizing n with
  | nil => exact hn
  | cons c s ih =>
    rw [pending]
    split
    . exact ih (Nat.min_le_right _ _)
    . exact ih (Nat.zero_le _)

theorem pending_capFrom {limit n : Nat} (hn : n ≤ limit) (s : List α)
    : pending x limit n (capFrom x limit n s) = pending x limit n s := by
  induction s generalizing n with
  | nil => rfl
  | cons c s ih =>
    rw [capFrom, pending.eq_def x limit n (c :: s)]
    dsimp only
    by_cases hc : c = x
    . rw [if_pos hc, if_pos hc]
      by_cases hlt : n < limit
      . rw [if_pos hlt, pending, if_pos hc, Nat.min_eq_left (by omega), ih (by omega)]
      . rw [if_neg hlt, Nat.min_eq_right (by omega), ih hn, show n = limit by omega]
    . rw [if_neg hc, if_neg hc, pending, if_neg hc, ih (Nat.zero_le _)]

/--
What is capped in parts is capped again as a whole.
-/
theorem cap_append_cap (limit : Nat) (s t : List α)
    : cap x limit (cap x limit s ++ cap x limit t) = cap x limit (s ++ t) := by
  unfold cap
  rw [capFrom_append limit 0 (Nat.zero_le _), capFrom_append limit 0 (Nat.zero_le _),
    capFrom_capFrom (Nat.le_refl 0) (Nat.zero_le _), pending_capFrom (Nat.zero_le _),
    capFrom_capFrom (Nat.zero_le _) (pending_le (Nat.zero_le _) s)]

theorem cap_cap (limit : Nat) (s : List α) : cap x limit (cap x limit s) = cap x limit s :=
  capFrom_capFrom (Nat.le_refl 0) (Nat.zero_le _) s

theorem cap_cap_append (limit : Nat) (s t : List α) : cap x limit (cap x limit s ++ t) = cap x limit (s ++ t) := by
  rw [← cap_append_cap limit (cap x limit s) t, cap_cap, cap_append_cap]

theorem cap_append_cap_append (limit : Nat) (s t u : List α)
    : cap x limit (s ++ (cap x limit t ++ u)) = cap x limit (s ++ (t ++ u)) := by
  rw [← cap_append_cap limit s (cap x limit t ++ u), ← cap_append_cap limit s (t ++ u), cap_cap_append limit t u]

theorem pending_concat {limit : Nat} {c : α} (hc : c ≠ x) (n : Nat) (s : List α)
    : pending x limit n (s ++ [c]) = 0 := by
  induction s generalizing n with
  | nil => rw [List.nil_append, pending, if_neg hc, pending]
  | cons d s ih =>
    rw [List.cons_append, pending]
    split <;> exact ih _

/--
After an element that is no part of a run, a new run is counted.
-/
theorem cap_append_of_last {limit : Nat} {s : List α} (h : ∀ c, s.getLast? = some c → c ≠ x) (t : List α)
    : cap x limit (s ++ t) = cap x limit s ++ cap x limit t := by
  unfold cap
  rw [capFrom_append limit 0 (Nat.zero_le _)]
  have hpending : pending x limit 0 s = 0 := by
    cases s using List.reverseRecOn with
    | nil => rfl
    | append_singleton s c =>
      have hc := h c List.getLast?_concat
      exact pending_concat hc 0 s
  rw [hpending]

/--
A cap keeps the first and the last element that is no part of a run.
-/
theorem cap_cons_of_ne {limit : Nat} {c : α} (hc : c ≠ x) (s : List α) : cap x limit (c :: s) = c :: cap x limit s := by
  unfold cap
  rw [capFrom, if_neg hc]

theorem cap_concat_of_ne {limit : Nat} {c : α} (hc : c ≠ x) (s : List α)
    : cap x limit (s ++ [c]) = cap x limit s ++ [c] := by
  unfold cap
  rw [capFrom_append limit 0 (Nat.zero_le _), capFrom, if_neg hc]
  rfl

theorem cap_replicate {limit n : Nat} (hn : n ≤ limit) : cap x limit (List.replicate n x) = List.replicate n x := by
  have h (k : Nat) (hk : k + n ≤ limit) : capFrom x limit k (List.replicate n x) = List.replicate n x := by
    induction n generalizing k with
    | zero => rfl
    | succ n ih =>
      rw [List.replicate_succ, capFrom, if_pos rfl, if_pos (by omega), ih (by omega) (k + 1) (by omega)]
  exact h 0 (by omega)

end Plateau
