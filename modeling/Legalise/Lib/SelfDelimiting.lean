import Mathlib

/-!
This module contains self-delimiting encodings: encodings that can be read back from the front of a
longer list, whatever follows. Length prefixes give such an encoding for lists that may contain any
symbol, and rows of a fixed number of self-delimiting fields are again injective.
-/

variable {α β : Type}

/--
An encoding is self-delimiting if two encodings, each followed by some rest, are only equal if both
the encoded values and the rests are.
-/
def SelfDelimiting (enc : β → List α) : Prop :=
  ∀ (a b : β) (r s : List α), enc a ++ r = enc b ++ s → a = b ∧ r = s

namespace SelfDelimiting

/--
A fixed word in front of every encoded value keeps the encoding self-delimiting.
-/
theorem append_left {enc : β → List α} (h : SelfDelimiting enc) (word : List α) :
    SelfDelimiting (fun b => word ++ enc b) := by
  intro a b r s hab
  simp only [List.append_assoc, List.append_cancel_left_eq] at hab
  exact h a b r s hab

/--
Rows of equally many self-delimiting fields can be read back field by field.
-/
theorem flatMap_append_inj {enc : β → List α} (h : SelfDelimiting enc) {xs ys : List β}
    (hlen : xs.length = ys.length) {r s : List α}
    (heq : xs.flatMap enc ++ r = ys.flatMap enc ++ s) : xs = ys ∧ r = s := by
  induction xs generalizing ys with
  | nil =>
    have hys : ys = [] := List.length_eq_zero_iff.mp hlen.symm
    subst hys
    exact ⟨rfl, by simpa using heq⟩
  | cons x xs ih =>
    cases ys with
    | nil => simp at hlen
    | cons y ys =>
      simp only [List.flatMap_cons, List.append_assoc] at heq
      have ⟨hxy, hrest⟩ := h x y _ _ heq
      have ⟨hxs, hrs⟩ := ih (by simpa using hlen) hrest
      exact ⟨by rw [hxy, hxs], hrs⟩

end SelfDelimiting

theorem intercalate_cons_eq_flatMap (sep title : List α) (parts : List (List α)) :
    sep.intercalate (title :: parts) = title ++ parts.flatMap (fun part => sep ++ part) := by
  induction parts generalizing title with
  | nil => simp
  | cons part parts ih =>
    rw [List.intercalate_cons_cons, ih]
    simp

/--
Joining a title and equally many self-delimiting fields with a separator is injective in the fields.
-/
theorem SelfDelimiting.intercalate_inj {enc : β → List α} (h : SelfDelimiting enc)
    (sep title : List α) {xs ys : List β} (hlen : xs.length = ys.length)
    (heq : sep.intercalate (title :: xs.map enc) = sep.intercalate (title :: ys.map enc)) :
    xs = ys := by
  rw [intercalate_cons_eq_flatMap, intercalate_cons_eq_flatMap, List.append_cancel_left_eq,
    List.flatMap_map, List.flatMap_map] at heq
  have := (h.append_left sep).flatMap_append_inj hlen (r := []) (s := []) (by rw [heq])
  exact this.left


section LengthPrefixed

/--
Write the length of a list with `digits`, then the separator `sep`, then the list itself. A missing
list is written as the word `missing` and the separator.
-/
def lengthPrefixed (digits : Nat → List α) (missing : List α) (sep : α) : Option (List α) → List α
  | none => missing ++ [sep]
  | some xs => digits xs.length ++ sep :: xs

theorem append_cons_inj_of_notMem {xs ys r s : List α} {sep : α} (hx : sep ∉ xs) (hy : sep ∉ ys)
    (heq : xs ++ sep :: r = ys ++ sep :: s) : xs = ys ∧ r = s := by
  induction xs generalizing ys with
  | nil =>
    cases ys with
    | nil => simpa using heq
    | cons y ys =>
      simp only [List.nil_append, List.cons_append, List.cons.injEq] at heq
      simp [heq.left] at hy
  | cons x xs ih =>
    cases ys with
    | nil =>
      simp only [List.nil_append, List.cons_append, List.cons.injEq] at heq
      simp [heq.left] at hx
    | cons y ys =>
      simp only [List.cons_append, List.cons.injEq] at heq
      simp only [List.mem_cons, not_or] at hx hy
      have ⟨hxy, hrs⟩ := ih hx.right hy.right heq.right
      exact ⟨by rw [heq.left, hxy], hrs⟩

variable {digits : Nat → List α} {missing : List α} {sep : α}

/--
The length prefix alone decides how much is read, so the listed symbols may contain anything, the
separator and digits included.
-/
theorem lengthPrefixed_selfDelimiting (hinj : Function.Injective digits)
    (hdigits : ∀ n, sep ∉ digits n) (hmissing : sep ∉ missing) (hne : ∀ n, digits n ≠ missing) :
    SelfDelimiting (lengthPrefixed digits missing sep) := by
  intro a b r s heq
  cases a with
  | none =>
    cases b with
    | none => simpa [lengthPrefixed] using heq
    | some ys =>
      simp only [lengthPrefixed, List.append_assoc, List.cons_append, List.nil_append] at heq
      have ⟨hlen, _⟩ := append_cons_inj_of_notMem hmissing (hdigits _) heq
      exact absurd hlen.symm (hne _)
  | some xs =>
    cases b with
    | none =>
      simp only [lengthPrefixed, List.append_assoc, List.cons_append, List.nil_append] at heq
      have ⟨hlen, _⟩ := append_cons_inj_of_notMem (hdigits _) hmissing heq
      exact absurd hlen (hne _)
    | some ys =>
      simp only [lengthPrefixed, List.append_assoc, List.cons_append] at heq
      have ⟨hdig, hrest⟩ := append_cons_inj_of_notMem (hdigits _) (hdigits _) heq
      have ⟨hxy, hrs⟩ := List.append_inj hrest (hinj hdig)
      exact ⟨by rw [hxy], hrs⟩

end LengthPrefixed
