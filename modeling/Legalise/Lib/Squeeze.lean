import Mathlib

/-!
This module contains texts whose runs of blanks are squeezed to one blank each, and the chunks of the text that the
elements of the squeezed text stand for.
-/

namespace Squeeze

variable {α : Type} (p : α → Bool) (blank : α)

/--
One blank for every run of blanks. `run` says whether the text comes right after a blank.
-/
def squeezeFrom : Bool → List α → List α
  | _, [] => []
  | run, x :: s =>
    if p x then if run then squeezeFrom true s else blank :: squeezeFrom true s
    else x :: squeezeFrom false s

def squeeze (s : List α) : List α :=
  squeezeFrom p blank false s

/--
A chunk: one element that is not blank, or a run of blanks.
-/
structure IsChunk (c : List α) : Prop where
  ne_nil : c ≠ []
  all_or : c.all p = true ∨ ∃ x, p x = false ∧ c = [x]

/--
What a chunk is squeezed to.
-/
def face (c : List α) : α :=
  if c.all p then blank else c.head?.getD blank

/--
Chunks of a text, where no run of blanks goes on in the next chunk.
-/
structure Chunked (cs : List (List α)) : Prop where
  isChunk : ∀ c ∈ cs, IsChunk p c
  isChain : cs.IsChain fun a b => ¬ (a.all p = true ∧ b.all p = true)

variable {p blank}

theorem squeezeFrom_cons (run : Bool) (x : α) (s : List α)
    : squeezeFrom p blank run (x :: s)
        = if p x then if run then squeezeFrom p blank true s else blank :: squeezeFrom p blank true s
          else x :: squeezeFrom p blank false s := rfl

theorem squeezeFrom_true {s : List α} (h : ∀ x, s.head? = some x → p x = false)
    : squeezeFrom p blank true s = squeeze p blank s := by
  unfold squeeze
  cases s with
  | nil => rfl
  | cons x s => simp [squeezeFrom, h x rfl]

theorem squeezeFrom_of_all {s : List α} (h : s.all p = true) : squeezeFrom p blank true s = [] := by
  induction s with
  | nil => rfl
  | cons x s ih =>
    rw [List.all_cons, Bool.and_eq_true] at h
    simp [squeezeFrom, h.left, ih h.right]

/--
A text in front is squeezed on its own, up to what comes of the blanks behind it.
-/
theorem squeezeFrom_append (run : Bool) (s t : List α)
    : squeezeFrom p blank run (s ++ t)
        = squeezeFrom p blank run s ++ squeezeFrom p blank ((s.getLast?.map p).getD run) t := by
  induction s generalizing run with
  | nil => rfl
  | cons x s ih =>
    have hlast : ((x :: s).getLast?.map p).getD run = (s.getLast?.map p).getD (p x) := by
      cases s with
      | nil => rfl
      | cons y s => rw [List.getLast?_cons_cons, List.getLast?_cons]; rfl
    rw [hlast, List.cons_append, squeezeFrom_cons run x (s ++ t), squeezeFrom_cons run x s]
    cases hx : p x with
    | true => cases run <;> simp [ih]
    | false => simp [ih]

theorem squeeze_append {s t : List α} (h : ∀ x, t.head? = some x → p x = false)
    : squeeze p blank (s ++ t) = squeeze p blank s ++ squeeze p blank t := by
  unfold squeeze
  rw [squeezeFrom_append]
  congr 1
  cases hrun : (s.getLast?.map p).getD false with
  | true => exact squeezeFrom_true h
  | false => rfl

theorem squeeze_append_of_last {s t : List α} (h : ∀ x, s.getLast? = some x → p x = false)
    : squeeze p blank (s ++ t) = squeeze p blank s ++ squeeze p blank t := by
  unfold squeeze
  rw [squeezeFrom_append]
  cases hlast : s.getLast? with
  | none => rfl
  | some x => simp [h x hlast]

section Chunks

variable {c : List α} {cs : List (List α)}

theorem IsChunk.squeeze (h : IsChunk p c) : squeeze p blank c = [face p blank c] := by
  unfold Squeeze.squeeze face
  rcases h.all_or with hall | ⟨x, hx, heq⟩
  . cases c with
    | nil => exact absurd rfl h.ne_nil
    | cons x c =>
      have hx := hall
      rw [List.all_cons, Bool.and_eq_true] at hx
      rw [if_pos hall, squeezeFrom, if_pos hx.left, if_neg Bool.false_ne_true, squeezeFrom_of_all hx.right]
  . rw [heq]
    simp [squeezeFrom, hx]

theorem Chunked.tail (h : Chunked p (c :: cs)) : Chunked p cs :=
  ⟨fun d hd => h.isChunk d (by simp [hd]), h.isChain.tail⟩

theorem Chunked.of_isInfix {part : List (List α)} (h : Chunked p cs) (hpart : part <:+: cs) : Chunked p part :=
  ⟨fun d hd => h.isChunk d (hpart.subset hd), List.IsChain.infix h.isChain hpart⟩

/--
The squeezed text has one element for every chunk.
-/
theorem Chunked.squeeze_flatten (h : Chunked p cs) : squeeze p blank cs.flatten = cs.map (face p blank) := by
  induction cs with
  | nil => rfl
  | cons c cs ih =>
    have hc := h.isChunk c (by simp)
    have hcs := ih h.tail
    rw [List.flatten_cons, List.map_cons, ← hcs]
    rcases hc.all_or with hall | ⟨x, hx, heq⟩
    . rw [squeeze_append, hc.squeeze]
      . rfl
      . intro y hy
        cases cs with
        | nil => cases hy
        | cons d cs =>
          have hd := h.isChunk d (by simp)
          have hchain := (List.isChain_cons_cons.mp h.isChain).left
          rcases hd.all_or with hdall | ⟨z, hz, hzeq⟩
          . exact absurd ⟨hall, hdall⟩ hchain
          . rw [hzeq] at hy
            cases hy
            exact hz
    . rw [squeeze_append_of_last, hc.squeeze]
      . rfl
      . intro y hy
        rw [heq] at hy
        cases hy
        exact hx

theorem flatten_take_drop (cs : List (List α)) (a n : Nat)
    : (cs.flatten.take (cs.take (a + n)).flatten.length).drop (cs.take a).flatten.length
        = ((cs.drop a).take n).flatten := by
  have hall : cs.flatten = (cs.take (a + n)).flatten ++ (cs.drop (a + n)).flatten := by
    rw [← List.flatten_append, List.take_append_drop]
  have hpart : (cs.take (a + n)).flatten = (cs.take a).flatten ++ ((cs.drop a).take n).flatten := by
    rw [List.take_add, List.flatten_append]
  rw [hall, List.take_left, hpart, List.drop_left]

theorem length_flatten_take_le {cs : List (List α)} {a b : Nat} (h : a ≤ b)
    : (cs.take a).flatten.length ≤ (cs.take b).flatten.length := by
  have hpart : cs.take a <+: cs.take b := List.take_prefix_take_left h
  exact hpart.sublist.flatten.length_le

theorem Chunked.length_flatten_take_lt {a b : Nat} (h : Chunked p cs) (hab : a < b) (hb : b ≤ cs.length)
    : (cs.take a).flatten.length < (cs.take b).flatten.length := by
  have hnext : (cs.take a).flatten.length < (cs.take (a + 1)).flatten.length := by
    have hpos := List.length_pos_of_ne_nil (h.isChunk _ (List.getElem_mem (show a < cs.length by omega))).ne_nil
    rw [List.take_succ_eq_append_getElem (by omega), List.flatten_append, List.flatten_singleton, List.length_append]
    omega
  exact hnext.trans_le (length_flatten_take_le hab)

/--
Where the chunks start in a text, after `n` elements in front of them.
-/
def starts (n : Nat) (cs : List (List α)) : List Nat :=
  (List.range cs.length).map fun k => n + (cs.take k).flatten.length

/--
Where they end.
-/
def stops (n : Nat) (cs : List (List α)) : List Nat :=
  (List.range cs.length).map fun k => n + (cs.take (k + 1)).flatten.length

theorem starts_concat (n : Nat) (cs : List (List α)) (c : List α)
    : starts n (cs ++ [c]) = starts n cs ++ [n + cs.flatten.length] := by
  unfold starts
  rw [List.length_append, List.length_singleton, List.range_succ, List.map_append, List.map_singleton, List.take_left]
  congr 1
  apply List.map_congr_left
  intro k hk
  rw [List.take_append_of_le_length (le_of_lt (List.mem_range.mp hk))]

theorem stops_concat (n : Nat) (cs : List (List α)) (c : List α)
    : stops n (cs ++ [c]) = stops n cs ++ [n + (cs ++ [c]).flatten.length] := by
  unfold stops
  rw [List.length_append, List.length_singleton, List.range_succ, List.map_append, List.map_singleton,
    List.take_of_length_le (by simp)]
  congr 1
  apply List.map_congr_left
  intro k hk
  rw [List.take_append_of_le_length (List.mem_range.mp hk)]

theorem starts_getElem? {n k : Nat} {cs : List (List α)} (hk : k < cs.length)
    : (starts n cs)[k]? = some (n + (cs.take k).flatten.length) := by
  simp [starts, hk]

theorem stops_getElem? {n k : Nat} {cs : List (List α)} (hk : k < cs.length)
    : (stops n cs)[k]? = some (n + (cs.take (k + 1)).flatten.length) := by
  simp [stops, hk]

end Chunks

end Squeeze
