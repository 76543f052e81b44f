import Legalise.Postgres.Value

/-!
This module contains how Python reads back the timestamps that it writes, and what the text of a uuid consists of.
-/

/--
A number of exactly `width` decimal digits at the front of a text.
-/
def readDigits (width : Nat) (s : PyStr) : Option (Nat × PyStr) :=
  if width ≤ s.length ∧ (s.take width).all (· ∈ py "0123456789") then
    some (ofFixedDigits 10 ((s.take width).map digitVal), s.drop width)
  else none

/--
A character at the front of a text.
-/
def readPoint (c : CodePoint) : PyStr → Option PyStr
  | [] => none
  | d :: s => if d = c then some s else none

theorem readPoint_cons (c : CodePoint) (s : PyStr) : readPoint c (c :: s) = some s := by
  simp [readPoint]

theorem digitPoint_mem {d : Nat} (hd : d < 10) : digitPoint d ∈ py "0123456789" := by
  have : ∀ d < 10, digitPoint d ∈ py "0123456789" := by
    decide
  exact this d hd

theorem readDigits_zfill {width n : Nat} (hwidth : 0 < width) (hn : n < 10 ^ width) (rest : PyStr)
    : readDigits width (zfill width (pyNat n) ++ rest) = some (n, rest) := by
  have htext : zfill width (pyNat n) = (fixedDigits 10 width n).map digitPoint :=
    zfill_digitsText (by omega) hwidth hn
  have hlength : ((fixedDigits 10 width n).map digitPoint).length = width := by simp
  have hdigits : ((fixedDigits 10 width n).map digitPoint).all (· ∈ py "0123456789") = true := by
    rw [List.all_eq_true]
    intro c hc
    have ⟨d, hd, heq⟩ := List.mem_map.mp hc
    rw [← heq]
    simpa using digitPoint_mem (lt_base_of_mem_fixedDigits (by omega) hd)
  unfold readDigits
  rw [htext, List.take_left' hlength, List.drop_left' hlength, if_pos ⟨by simp, hdigits⟩,
    map_digitVal_digitPoint (by omega) (by omega), ofFixedDigits_fixedDigits hn]

namespace Uuid

/--
`text.replace(part, "")`
-/
def removeAll (part : PyStr) : PyStr → PyStr
  | [] => []
  | c :: s =>
    if _h : part ≠ [] ∧ part.isPrefixOf (c :: s) then removeAll part ((c :: s).drop part.length)
    else c :: removeAll part s
  termination_by s => s.length
  decreasing_by
    . have := List.length_pos_iff.mpr _h.left
      simp only [List.length_drop, List.length_cons]
      omega
    . simp

/--
`text.strip("{}")`
-/
def stripBraces (s : PyStr) : PyStr :=
  (s.dropWhile (· ∈ py "\x7b\x7d")).rdropWhile (· ∈ py "\x7b\x7d")

/--
The value of a hex digit of either case.
-/
def hexDigit? (c : CodePoint) : Option Nat :=
  if c ∈ py "0123456789abcdef" then some (digitVal c)
  else if c ∈ py "ABCDEF" then some (10 + (py "ABCDEF").idxOf c)
  else none

/--
A text without the first character of a part does not contain the part.
-/
theorem removeAll_eq_self {c : CodePoint} {part s : PyStr} (hs : c ∉ s)
    : removeAll (c :: part) s = s := by
  induction s with
  | nil => rw [removeAll]
  | cons d s ih =>
    have hne : ¬ (c :: part).isPrefixOf (d :: s) := by
      simp only [List.isPrefixOf, Bool.and_eq_true, beq_iff_eq, not_and]
      intro heq
      simp [heq] at hs
    rw [removeAll, dif_neg (by simpa using hne), ih (fun hmem => hs (by simp [hmem]))]

theorem mem_str {u : Uuid} {c : CodePoint} (hc : c ∈ u.str) : c ∈ py "0123456789abcdef-" := by
  have hhex : ∀ c ∈ zfill 32 (digitsText 16 u.int), c ∈ py "0123456789abcdef-" := by
    rw [hex_eq]
    intro c hc
    have ⟨d, hd, heq⟩ := List.mem_map.mp hc
    have : ∀ d < 16, digitPoint d ∈ py "0123456789abcdef-" := by
      decide
    rw [← heq]
    exact this d (lt_base_of_mem_fixedDigits (by omega) hd)
  have hhyphen : ∀ c ∈ py "-", c ∈ py "0123456789abcdef-" := by
    intro c hc
    have : c = CodePoint.ofChar '-' := by simpa [py] using hc
    rw [this]
    decide
  unfold str at hc
  simp only [List.mem_append] at hc
  rcases hc with (((((((hc | hc) | hc) | hc) | hc) | hc) | hc) | hc) | hc
  . exact hhex c (List.mem_of_mem_take hc)
  . exact hhyphen c hc
  . exact hhex c (List.mem_of_mem_drop (List.mem_of_mem_take hc))
  . exact hhyphen c hc
  . exact hhex c (List.mem_of_mem_drop (List.mem_of_mem_take hc))
  . exact hhyphen c hc
  . exact hhex c (List.mem_of_mem_drop (List.mem_of_mem_take hc))
  . exact hhyphen c hc
  . exact hhex c (List.mem_of_mem_drop hc)

theorem stripBraces_str (u : Uuid) : stripBraces u.str = u.str := by
  have hne : ∀ c ∈ u.str, c ∉ py "\x7b\x7d" := by
    intro c hc hbrace
    have hall : (py "0123456789abcdef-").all (fun c => c ∉ py "\x7b\x7d") = true := by
      decide
    rw [List.all_eq_true] at hall
    simpa [hbrace] using hall c (mem_str hc)
  have hdrop : u.str.dropWhile (· ∈ py "\x7b\x7d") = u.str := by
    cases hstr : u.str with
    | nil => rfl
    | cons c s =>
      rw [hstr] at hne
      rw [List.dropWhile_cons_of_neg (by simpa using hne c (by simp))]
  unfold stripBraces
  rw [hdrop, List.rdropWhile_eq_self_iff]
  intro hnil
  simpa using hne _ (List.getLast_mem hnil)

theorem filter_str (u : Uuid)
    : u.str.filter (· ≠ CodePoint.ofChar '-') = zfill 32 (digitsText 16 u.int) := by
  have hhex : ∀ c ∈ zfill 32 (digitsText 16 u.int), c ≠ CodePoint.ofChar '-' := by
    rw [hex_eq]
    intro c hc
    have ⟨d, hd, heq⟩ := List.mem_map.mp hc
    have : ∀ d < 16, digitPoint d ≠ CodePoint.ofChar '-' := by
      decide
    rw [← heq]
    exact this d (lt_base_of_mem_fixedDigits (by omega) hd)
  have hpart (part : PyStr) (hpart : part ⊆ zfill 32 (digitsText 16 u.int))
      : part.filter (· ≠ CodePoint.ofChar '-') = part := by
    rw [List.filter_eq_self]
    intro c hc
    simpa using hhex c (hpart hc)
  have hhyphen : (py "-").filter (· ≠ CodePoint.ofChar '-') = [] := by
    decide
  unfold str
  simp only [List.filter_append, hhyphen, List.append_nil]
  rw [hpart _ (List.take_subset _ _),
    hpart _ (List.Subset.trans (List.take_subset _ _) (List.drop_subset _ _)),
    hpart _ (List.Subset.trans (List.take_subset _ _) (List.drop_subset _ _)),
    hpart _ (List.Subset.trans (List.take_subset _ _) (List.drop_subset _ _)),
    hpart _ (List.drop_subset _ _)]
  simp only [List.append_assoc]
  exact slices_eq _

end Uuid

namespace Timestamp

/--
A number and the character after it.
-/
def readField (width : Nat) (after : CodePoint) (s : PyStr) : Option (Nat × PyStr) := do
  let (n, s) ← readDigits width s
  let s ← readPoint after s
  return (n, s)

/--
The microseconds after a point, which may be missing.
-/
def readFraction (s : PyStr) : Option (Nat × PyStr) :=
  match readPoint (CodePoint.ofChar '.') s with
  | some s => readDigits 6 s
  | none => some (0, s)

/--
`datetime.fromisoformat(text)` of a text in the form that `isoformat` writes in UTC. The other forms
that Python reads are not written anywhere.
-/
def fromisoformat (s : PyStr) : Option Timestamp := do
  let (year, s) ← readField 4 (CodePoint.ofChar '-') s
  let (month, s) ← readField 2 (CodePoint.ofChar '-') s
  let (day, s) ← readField 2 (CodePoint.ofChar 'T') s
  let (hour, s) ← readField 2 (CodePoint.ofChar ':') s
  let (minute, s) ← readField 2 (CodePoint.ofChar ':') s
  let (second, s) ← readDigits 2 s
  let (microsecond, s) ← readFraction s
  if s = py "+00:00" then ofFields? year month day hour minute second microsecond else none

theorem readField_zfill {width n : Nat} (hwidth : 0 < width) (hn : n < 10 ^ width)
    (after : CodePoint) (rest : PyStr)
    : readField width after (zfill width (pyNat n) ++ (after :: rest)) = some (n, rest) := by
  simp [readField, readDigits_zfill hwidth hn, readPoint_cons]

theorem readFraction_isoformat {n : Nat} (hn : n < 1000000)
    : readFraction ((if n = 0 then [] else py "." ++ zfill 6 (pyNat n)) ++ py "+00:00")
        = some (n, py "+00:00") := by
  have hnone : readPoint (CodePoint.ofChar '.') ([] ++ py "+00:00") = none := by
    decide
  unfold readFraction
  by_cases hzero : n = 0
  . rw [if_pos hzero, hnone, hzero]
    rfl
  . have hpoint : py "." ++ zfill 6 (pyNat n) ++ py "+00:00"
        = CodePoint.ofChar '.' :: (zfill 6 (pyNat n) ++ py "+00:00") := rfl
    rw [if_neg hzero, hpoint, readPoint_cons]
    exact readDigits_zfill (by omega) hn _

theorem day_le (t : Timestamp) : t.day ≤ 31 := by
  have hday := t.day_mem.right
  unfold daysInMonth at hday
  split_ifs at hday <;> omega

theorem fromisoformat_isoformat (t : Timestamp) : fromisoformat t.isoformat = some t := by
  have hyear := t.year_mem
  have hmonth := t.month_mem
  have hday := t.day_le
  have hhour := t.hour_lt
  have hminute := t.minute_lt
  have hsecond := t.second_lt
  have hmicrosecond := t.microsecond_lt
  have hfields : ofFields? t.year t.month t.day t.hour t.minute t.second t.microsecond = some t := by
    unfold ofFields?
    rw [dif_pos ⟨t.year_mem, t.month_mem, t.day_mem, t.hour_lt, t.minute_lt, t.second_lt,
      t.microsecond_lt⟩]
  have htext : t.isoformat
      = zfill 4 (pyNat t.year) ++ (CodePoint.ofChar '-' :: (zfill 2 (pyNat t.month)
        ++ (CodePoint.ofChar '-' :: (zfill 2 (pyNat t.day) ++ (CodePoint.ofChar 'T'
        :: (zfill 2 (pyNat t.hour) ++ (CodePoint.ofChar ':' :: (zfill 2 (pyNat t.minute)
        ++ (CodePoint.ofChar ':' :: (zfill 2 (pyNat t.second)
        ++ ((if t.microsecond = 0 then [] else py "." ++ zfill 6 (pyNat t.microsecond))
        ++ py "+00:00"))))))))))) := by
    unfold isoformat afterYear
    simp only [List.append_assoc]
    rfl
  unfold fromisoformat
  rw [htext, readField_zfill (by omega) (by omega)]
  simp only [Option.bind_eq_bind, Option.bind_some]
  rw [readField_zfill (by omega) (by omega)]
  simp only [Option.bind_some]
  rw [readField_zfill (by omega) (by omega)]
  simp only [Option.bind_some]
  rw [readField_zfill (by omega) (by omega)]
  simp only [Option.bind_some]
  rw [readField_zfill (by omega) (by omega)]
  simp only [Option.bind_some]
  rw [readDigits_zfill (by omega) (by omega)]
  simp only [Option.bind_some]
  rw [readFraction_isoformat hmicrosecond]
  simp only [Option.bind_some, if_true, hfields]

end Timestamp
