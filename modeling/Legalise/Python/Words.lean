import Legalise.Lib.Words
import Legalise.Python.Web

/-!
This module contains the methods of Python's `str` that are about words, and substrings as slices.
-/

namespace PyStr

/--
`text.split()`
-/
def split (s : PyStr) : List PyStr :=
  Words.words isSpace s

/--
`part in s`
-/
def isIn (part s : PyStr) : Bool :=
  (find part s 0).isSome

/--
`str.lower`, where every character has one character as its lower case, whatever its neighbours are. There are no
cases of whitespace.
-/
structure CharLower where
  unit : CodePoint → CodePoint
  isSpace_unit : ∀ c, isSpace (unit c) = isSpace c

def CharLower.lower (L : CharLower) (s : PyStr) : PyStr :=
  s.map L.unit

theorem isIn_iff (part s : PyStr) : isIn part s = true ↔ part <:+: s := by
  unfold isIn
  rw [Option.isSome_iff_ne_none, ne_eq, find_eq_none_iff]
  constructor
  . intro h
    simp only [Nat.zero_le, true_imp_iff, not_forall, Bool.not_eq_false] at h
    have ⟨i, hat⟩ := h
    unfold isAt at hat
    rw [Bool.and_eq_true, List.isPrefixOf_iff_prefix] at hat
    exact hat.right.isInfix.trans (List.drop_suffix i s).isInfix
  . rintro ⟨front, back, rfl⟩ h
    have hnot := h front.length (Nat.zero_le _)
    have hat : isAt part (front ++ part ++ back) front.length = true := by
      unfold isAt
      rw [List.append_assoc, List.drop_left, Bool.and_eq_true, List.isPrefixOf_iff_prefix, decide_eq_true_eq]
      exact ⟨by simp, List.prefix_append _ _⟩
    rw [hat] at hnot
    cases hnot

/--
The substrings are the slices.
-/
theorem isInfix_iff_slice (part s : PyStr) : part <:+: s ↔ ∃ i j, i ≤ j ∧ slice s i j = part := by
  constructor
  . rintro ⟨front, back, rfl⟩
    refine ⟨front.length, front.length + part.length, by omega, ?_⟩
    unfold slice
    rw [List.append_assoc, List.take_length_add_append, List.take_left, List.drop_left]
  . rintro ⟨i, j, _, rfl⟩
    exact (List.drop_suffix i _).isInfix.trans (List.take_prefix j s).isInfix

theorem slice_map (f : CodePoint → CodePoint) (s : PyStr) (i j : Nat)
    : slice (s.map f) i j = (slice s i j).map f := by
  unfold slice
  rw [List.map_drop, List.map_take]

namespace CharLower

/--
The words of a text in lower case are its words, each in lower case.
-/
theorem split_lower (L : CharLower) (s : PyStr) : split (L.lower s) = (split s).map L.lower :=
  Words.words_map L.isSpace_unit s

theorem isSpace_lowerAscii (c : CodePoint) : isSpace (Web.lowerAscii c) = isSpace c := by
  unfold Web.lowerAscii
  split
  . next hletter =>
    have hall : ((py "ABCDEFGHIJKLMNOPQRSTUVWXYZ").all fun c =>
        isSpace ⟨(c.val + 32) % 0x110000, by omega⟩ = isSpace c) = true := by
      decide +kernel
    rw [List.all_eq_true] at hall
    simpa using hall c hletter
  . rfl

/--
The lower case of the letters of English.
-/
def ascii : CharLower where
  unit := Web.lowerAscii
  isSpace_unit := isSpace_lowerAscii

end CharLower

end PyStr
