import Legalise.Lib.Breaks
import Legalise.Python.Text

/-!
This module contains searches from the right and the matches of a regular expression.
-/

namespace PyStr

open Breaks

/--
`text.rfind(part, start, stop)`, where `none` stands for `-1`.
-/
def rfind (part s : PyStr) (start stop : Nat) : Option Nat :=
  lastWhere (isAt part s) start (stop + 1 - part.length)

/--
The ends of the matches that `finditer` yields for a pattern that matches no empty text. The pattern is given
by the length of its match at the front of a text. Matches do not overlap, so the rest of a match is skipped.
-/
def matchEnds (matchAt : PyStr → Option Nat) : Nat → Nat → PyStr → List Nat
  | _, _, [] => []
  | pos, skip + 1, _ :: s => matchEnds matchAt (pos + 1) skip s
  | pos, 0, c :: s =>
    match matchAt (c :: s) with
    | some length => (pos + length) :: matchEnds matchAt (pos + 1) (length - 1) s
    | none => matchEnds matchAt (pos + 1) 0 s

variable {matchAt : PyStr → Option Nat}

/--
If no match starts inside of another one, then there is a match wherever the pattern matches.
-/
theorem matchEnds_eq (hnested : ∀ s m, matchAt s = some m → ∀ r, 0 < r → r < m → matchAt (s.drop r) = none)
    (pos skip : Nat) (s : PyStr) (hskip : ∀ r < skip, matchAt (s.drop r) = none)
    : matchEnds matchAt pos skip s
        = (List.range s.length).filterMap fun r => (matchAt (s.drop r)).map fun length => pos + r + length := by
  induction s generalizing pos skip with
  | nil => simp [matchEnds]
  | cons c s ih =>
    have hrest : (List.range (c :: s).length).filterMap
          (fun r => (matchAt ((c :: s).drop r)).map fun length => pos + r + length)
        = ((matchAt (c :: s)).map fun length => pos + length).toList
          ++ (List.range s.length).filterMap fun r =>
            (matchAt (s.drop r)).map fun length => pos + 1 + r + length := by
      have hshift : (fun r => (matchAt (s.drop r)).map fun length => pos + (r + 1) + length)
          = fun r => (matchAt (s.drop r)).map fun length => pos + 1 + r + length := by
        funext r
        rw [show pos + (r + 1) = pos + 1 + r by omega]
      rw [List.length_cons, List.range_succ_eq_map, List.filterMap_cons, List.filterMap_map]
      simp only [List.drop_zero, Nat.add_zero]
      cases matchAt (c :: s) <;> simp [hshift]
    rw [hrest]
    cases skip with
    | succ skip =>
      have hnone : matchAt (c :: s) = none := hskip 0 (by omega)
      rw [hnone, matchEnds, ih]
      . rfl
      . exact fun r hr => hskip (r + 1) (by omega)
    | zero =>
      cases hmatch : matchAt (c :: s) with
      | none =>
        rw [matchEnds, hmatch, ih]
        . rfl
        . exact fun r hr => absurd hr (Nat.not_lt_zero r)
      | some length =>
        have htail := ih (pos + 1) (length - 1) fun r hr => hnested _ _ hmatch (r + 1) (by omega) (by omega)
        rw [matchEnds, hmatch]
        exact congrArg (List.cons (pos + length)) htail

/--
The last match is at the last position where the pattern matches.
-/
theorem getLast?_matchEnds
    (hnested : ∀ s m, matchAt s = some m → ∀ r, 0 < r → r < m → matchAt (s.drop r) = none) (s : PyStr)
    : (matchEnds matchAt 0 0 s).getLast?
        = (lastWhere (fun r => (matchAt (s.drop r)).isSome) 0 s.length).bind fun r =>
          (matchAt (s.drop r)).map fun length => r + length := by
  rw [matchEnds_eq hnested 0 0 s (fun r hr => absurd hr (Nat.not_lt_zero r)), List.getLast?_filterMap]
  unfold lastWhere
  rw [Nat.sub_zero, ← List.range_eq_range']
  induction (List.range s.length).reverse with
  | nil => rfl
  | cons r rs ih =>
    rw [List.findSome?_cons, List.find?_cons, ih]
    cases hmatch : matchAt (s.drop r) <;> simp [hmatch]

end PyStr
