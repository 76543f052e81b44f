import Legalise.Python.Parse

/-!
This module contains methods of Python's `str`: trimming, searching, replacing, and the reading of
numbers and uuids.
-/

namespace PyStr

/--
The characters that `str.isspace` accepts, which `str.strip` trims and `\s` matches.
-/
def spaces : List Nat :=
  [0x09, 0x0a, 0x0b, 0x0c, 0x0d, 0x1c, 0x1d, 0x1e, 0x1f, 0x20, 0x85, 0xa0, 0x1680, 0x2000, 0x2001,
    0x2002, 0x2003, 0x2004, 0x2005, 0x2006, 0x2007, 0x2008, 0x2009, 0x200a, 0x2028, 0x2029, 0x202f,
    0x205f, 0x3000]

def isSpace (c : CodePoint) : Bool :=
  spaces.contains c.val

/--
`text.lstrip(chars)`, where `p` decides whether a character is one of `chars`.
-/
def lstripOf (p : CodePoint → Bool) (s : PyStr) : PyStr :=
  s.dropWhile p

/--
`text.rstrip(chars)`
-/
def rstripOf (p : CodePoint → Bool) (s : PyStr) : PyStr :=
  s.rdropWhile p

/--
`text.strip(chars)`
-/
def stripOf (p : CodePoint → Bool) (s : PyStr) : PyStr :=
  rstripOf p (lstripOf p s)

/--
`text.strip()`
-/
def strip (s : PyStr) : PyStr :=
  stripOf isSpace s

/--
`text[start:stop]` for offsets that are not negative.
-/
def slice (s : PyStr) (start stop : Nat) : PyStr :=
  (s.take stop).drop start

/--
The part stands in the text at a position.
-/
def isAt (part s : PyStr) (i : Nat) : Bool :=
  i ≤ s.length && part.isPrefixOf (s.drop i)

/--
`text.find(part, start)`, where `none` stands for `-1`.
-/
def find (part s : PyStr) (start : Nat) : Option Nat :=
  (List.range' start (s.length + 1 - start)).find? (isAt part s)

/--
`text.replace(old, new, 1)`
-/
def replaceFirst (old new s : PyStr) : PyStr :=
  match find old s 0 with
  | some i => s.take i ++ new ++ s.drop (i + old.length)
  | none => s

theorem find_eq_some_iff {part s : PyStr} {start i : Nat}
    : find part s start = some i
        ↔
      start ≤ i ∧ isAt part s i = true ∧ ∀ j, start ≤ j → j < i → isAt part s j = false := by
  unfold find
  rw [List.find?_range'_eq_some]
  constructor
  . rintro ⟨hat, hmem, hbefore⟩
    rw [List.mem_range'_1] at hmem
    refine ⟨hmem.left, hat, ?_⟩
    intro j hj hji
    simpa using hbefore j hj hji
  . rintro ⟨hle, hat, hbefore⟩
    have hlen : i ≤ s.length := by
      unfold isAt at hat
      simp only [Bool.and_eq_true, decide_eq_true_eq] at hat
      exact hat.left
    refine ⟨hat, List.mem_range'_1.mpr (by omega), ?_⟩
    intro j hj hji
    simpa using hbefore j hj hji

theorem find_eq_none_iff {part s : PyStr} {start : Nat}
    : find part s start = none ↔ ∀ i, start ≤ i → isAt part s i = false := by
  unfold find
  rw [List.find?_eq_none]
  constructor
  . intro h i hi
    by_cases hlen : i ≤ s.length
    . have := h i (List.mem_range'_1.mpr (by omega))
      simpa using this
    . simp [isAt, hlen]
  . intro h i hi
    simpa using h i (List.mem_range'_1.mp hi).left

theorem isAt_iff {part s : PyStr} {i : Nat}
    : isAt part s i = true ↔ i ≤ s.length ∧ slice s i (i + part.length) = part := by
  unfold isAt slice
  rw [Bool.and_eq_true, decide_eq_true_eq, List.isPrefixOf_iff_prefix, List.prefix_iff_eq_take,
    List.drop_take, Nat.add_sub_cancel_left, eq_comm]

section Numbers

/--
The zeros of the scripts that have decimal digits.
-/
def decimalZeros : List Nat :=
  [0x30, 0x660, 0x6f0, 0x7c0, 0x966, 0x9e6, 0xa66, 0xae6, 0xb66, 0xbe6, 0xc66, 0xce6, 0xd66, 0xde6,
    0xe50, 0xed0, 0xf20, 0x1040, 0x1090, 0x17e0, 0x1810, 0x1946, 0x19d0, 0x1a80, 0x1a90, 0x1b50,
    0x1bb0, 0x1c40, 0x1c50, 0xa620, 0xa8d0, 0xa900, 0xa9d0, 0xa9f0, 0xaa50, 0xabf0, 0xff10, 0x104a0,
    0x10d30, 0x11066, 0x110f0, 0x11136, 0x111d0, 0x112f0, 0x11450, 0x114d0, 0x11650, 0x116c0,
    0x11730, 0x118e0, 0x11950, 0x11c50, 0x11d50, 0x11da0, 0x11f50, 0x16a60, 0x16ac0, 0x16b50,
    0x1d7ce, 0x1d7d8, 0x1d7e2, 0x1d7ec, 0x1d7f6, 0x1e140, 0x1e2f0, 0x1e4f0, 0x1e950, 0x1fbf0]

/--
The value of a decimal digit of any script.
-/
def decimal? (c : CodePoint) : Option Nat :=
  (decimalZeros.find? fun first => first ≤ c.val && c.val < first + 10).map fun first => c.val - first

/--
How `int` reads a character: spaces and decimal digits of any script become the ones of ASCII, and
any other character outside of ASCII is refused.
-/
def asciiPoint (c : CodePoint) : CodePoint :=
  if c.val < 127 then c
  else if isSpace c then CodePoint.ofChar ' '
  else
    match decimal? c with
    | some d => digitPoint d
    | none => CodePoint.ofChar '?'

/--
The characters that `int` skips at the ends of a number.
-/
def isBlank (c : CodePoint) : Bool :=
  c ∈ py " \t\n\r\x0b\x0c"

def hexValue? (base : Nat) (c : CodePoint) : Option Nat :=
  (Uuid.hexDigit? c).bind fun d => if d < base then some d else none

/--
Digits with single underscores between them, after the value of the digits before.
-/
def readDigitsFrom (base : Nat) : Nat → PyStr → Option Nat
  | value, [] => some value
  | value, [c] => (hexValue? base c).map fun d => value * base + d
  | value, c :: d :: s =>
    if c = CodePoint.ofChar '_' then
      (hexValue? base d).bind fun d => readDigitsFrom base (value * base + d) s
    else
      (hexValue? base c).bind fun c => readDigitsFrom base (value * base + c) (d :: s)

/--
At least one digit, of which the first one stands right at the start.
-/
def readNumber (base : Nat) : PyStr → Option Nat
  | [] => none
  | c :: s => (hexValue? base c).bind fun c => readDigitsFrom base c s

/--
The prefix `0x`, after which an underscore may stand, of a number in base 16.
-/
def dropBasePrefix (base : Nat) (s : PyStr) : PyStr :=
  if base = 16 ∧ (s.take 2 = py "0x" ∨ s.take 2 = py "0X") then
    if s.drop 2 |>.head? |> (· = some (CodePoint.ofChar '_')) then s.drop 3 else s.drop 2
  else s

/--
`int(text, base)`, where `none` stands for a `ValueError`.
-/
def toInt (base : Nat) (s : PyStr) : Option Int :=
  match stripOf isBlank (s.map asciiPoint) with
  | [] => none
  | c :: rest =>
    if c = CodePoint.ofChar '-' then
      (readNumber base (dropBasePrefix base rest)).map fun n => - (n : Int)
    else if c = CodePoint.ofChar '+' then
      (readNumber base (dropBasePrefix base rest)).map fun n => (n : Int)
    else (readNumber base (dropBasePrefix base (c :: rest))).map fun n => (n : Int)

example : toInt 16 (py " f") = some 15 := by decide

theorem mem_digits_of_isDigit {c : Char} (h : c.isDigit = true) : c ∈ "0123456789".toList := by
  have hlist : ∀ n, n < 58 → 48 ≤ n → Char.ofNat n ∈ "0123456789".toList := by
    decide
  have hbounds : 48 ≤ c.toNat ∧ c.toNat < 58 := by
    simp only [Char.isDigit, Bool.and_eq_true, decide_eq_true_eq, ge_iff_le, UInt32.le_iff_toNat_le] at h
    have hle : c.val.toNat ≤ 57 := h.right
    exact ⟨h.left, Nat.lt_succ_of_le hle⟩
  have := hlist c.toNat hbounds.right hbounds.left
  rwa [Char.ofNat_toNat] at this

/--
What holds of a character that `int` takes for a digit wherever it stands in a number.
-/
structure ReadsAs (base : Nat) (c : CodePoint) (d : Nat) : Prop where
  ascii : asciiPoint c = c
  blank : isBlank c = false
  value : hexValue? base c = some d
  notMem : c ∉ py "-+_xX"

instance (base : Nat) (c : CodePoint) (d : Nat) : Decidable (ReadsAs base c d) :=
  decidable_of_iff
    (asciiPoint c = c ∧ isBlank c = false ∧ hexValue? base c = some d ∧ c ∉ py "-+_xX")
    ⟨fun h => ⟨h.left, h.right.left, h.right.right.left, h.right.right.right⟩,
      fun h => ⟨h.ascii, h.blank, h.value, h.notMem⟩⟩

theorem ReadsAs.ne {base d : Nat} {c other : CodePoint} (h : ReadsAs base c d) (hother : other ∈ py "-+_xX")
    : c ≠ other := by
  intro heq
  exact h.notMem (heq ▸ hother)

theorem readDigitsFrom_of_readsAs {base : Nat} {s : PyStr} {ds : List Nat} (h : List.Forall₂ (ReadsAs base) s ds)
    (value : Nat) : readDigitsFrom base value s = some (ds.foldl (fun n d => n * base + d) value) := by
  induction h generalizing value with
  | nil => simp [readDigitsFrom]
  | cons hc hs ih =>
    cases hs with
    | nil => simp [readDigitsFrom, hc.value]
    | cons _ _ => simp [readDigitsFrom, hc.ne (show CodePoint.ofChar '_' ∈ _ by decide), hc.value, ih]

theorem mem_pyNat {c : CodePoint} {n : Nat} (h : c ∈ pyNat n)
    : ∃ d : Char, d.isDigit = true ∧ c = CodePoint.ofChar d := by
  have ⟨d, hd, heq⟩ := List.mem_map.mp h
  exact ⟨d, Nat.isDigit_of_mem_toDigits (by omega) (by omega) hd, heq.symm⟩

theorem stripOf_eq_self {p : CodePoint → Bool} {s : PyStr} (h : ∀ c ∈ s, p c = false) : stripOf p s = s := by
  have hdrop : ∀ s : PyStr, (∀ c ∈ s, p c = false) → s.dropWhile p = s := by
    intro s h
    cases s with
    | nil => rfl
    | cons c s => rw [List.dropWhile_cons, h c List.mem_cons_self]; rfl
  unfold stripOf rstripOf lstripOf List.rdropWhile
  rw [hdrop s h, hdrop s.reverse (fun c hc => h c (List.mem_reverse.mp hc)), List.reverse_reverse]

theorem points_of_readsAs {base : Nat} {s : PyStr} {ds : List Nat} (h : List.Forall₂ (ReadsAs base) s ds)
    : s.map asciiPoint = s ∧ ∀ c ∈ s, isBlank c = false := by
  induction h with
  | nil => simp
  | cons hc _ ih => simpa [hc.ascii, hc.blank, ih.left] using ih.right

theorem dropBasePrefix_of_readsAs {base : Nat} {s : PyStr} {ds : List Nat}
    (h : List.Forall₂ (ReadsAs base) s ds) : dropBasePrefix base s = s := by
  unfold dropBasePrefix
  rw [if_neg]
  rintro ⟨-, hx⟩
  cases h with
  | nil => simp [py] at hx
  | cons _ hs =>
    cases hs with
    | nil => simp [py] at hx
    | cons hd _ =>
      rcases hx with hx | hx
      . exact hd.ne (by decide) (List.cons.inj (List.cons.inj hx).right).left
      . exact hd.ne (by decide) (List.cons.inj (List.cons.inj hx).right).left

/--
Digits are read as the number that they are.
-/
theorem toInt_of_readsAs {base : Nat} {s : PyStr} {ds : List Nat} (h : List.Forall₂ (ReadsAs base) s ds)
    (hne : s ≠ []) : toInt base s = some (ofFixedDigits base ds : Int) := by
  obtain ⟨hpoints, hblank⟩ := points_of_readsAs h
  have hprefix := dropBasePrefix_of_readsAs h
  unfold toInt
  rw [hpoints, stripOf_eq_self hblank]
  cases h with
  | nil => contradiction
  | cons hc hs =>
    have hread := readDigitsFrom_of_readsAs hs
    simp only [hc.ne (show CodePoint.ofChar '-' ∈ _ by decide), hc.ne (show CodePoint.ofChar '+' ∈ _ by decide),
      if_false, hprefix, readNumber, hc.value, Option.bind_some, hread]
    simp [ofFixedDigits]

theorem readsAs_digitPoint {base d : Nat} (hbase : base ≤ 16) (hd : d < base) : ReadsAs base (digitPoint d) d := by
  have hall : ∀ d < 16, ReadsAs 16 (digitPoint d) d := by
    decide +kernel
  have h := hall d (by omega)
  have hvalue : hexValue? base (digitPoint d) = some d := by
    have hdigit := h.value
    simp only [hexValue?, Option.bind_eq_some_iff, Option.ite_none_right_eq_some, Option.some.injEq] at hdigit ⊢
    obtain ⟨_, hdigit, -, rfl⟩ := hdigit
    exact ⟨_, hdigit, hd, rfl⟩
  exact ⟨h.ascii, h.blank, hvalue, h.notMem⟩

/--
A number is read as it was written, also if it was filled up with zeros.
-/
theorem toInt_zfill {base width n : Nat} (hbase : 1 < base) (hbase' : base ≤ 16) (hwidth : 0 < width)
    (hn : n < base ^ width) : toInt base (zfill width (digitsText base n)) = some (n : Int) := by
  have hdigits : List.Forall₂ (ReadsAs base) ((fixedDigits base width n).map digitPoint) (fixedDigits base width n) := by
    rw [List.forall₂_map_left_iff, List.forall₂_same]
    intro d hd
    exact readsAs_digitPoint hbase' (lt_base_of_mem_fixedDigits (by omega) hd)
  have hne : (fixedDigits base width n).map digitPoint ≠ [] := by
    rw [← List.length_pos_iff]
    simpa using hwidth
  rw [zfill_digitsText hbase hwidth hn, toInt_of_readsAs hdigits hne, ofFixedDigits_fixedDigits hn]

theorem toInt_pyNat (n : Nat) : toInt 10 (pyNat n) = some (n : Int) := by
  have hlength : 0 < (pyNat n).length := List.length_pos_iff.mpr (pyNat_ne_nil n)
  have hn : n < 10 ^ (pyNat n).length :=
    (Nat.length_toDigits_le_iff (by omega) hlength).mp (by simp [pyNat])
  have htext : zfill (pyNat n).length (digitsText 10 n) = pyNat n := by
    simp [zfill, digitsText, pyNat]
  rw [← htext, toInt_zfill (by omega) (by omega) hlength hn]

end Numbers

end PyStr

namespace Uuid

/--
`uuid.UUID(text)`, where `none` stands for a `ValueError`.
-/
def ofText? (s : PyStr) : Option Uuid := do
  let hex := (stripBraces (removeAll (py "uuid:") (removeAll (py "urn:") s))).filter (· ≠ CodePoint.ofChar '-')
  let n ← if hex.length = 32 then PyStr.toInt 16 hex else none
  if h : n.toNat < 2 ^ 128 then some ⟨n.toNat, h⟩ else none

theorem ofText?_str (u : Uuid) : ofText? u.str = some u := by
  have hnone (c : CodePoint) (hc : c ∉ py "0123456789abcdef-") : c ∉ u.str := by
    intro hmem
    exact hc (mem_str hmem)
  have hurn : removeAll (py "urn:") u.str = u.str :=
    removeAll_eq_self (hnone (CodePoint.ofChar 'u') (by decide))
  have huuid : removeAll (py "uuid:") u.str = u.str :=
    removeAll_eq_self (hnone (CodePoint.ofChar 'u') (by decide))
  have hlength : (zfill 32 (digitsText 16 u.int)).length = 32 := by
    rw [hex_eq]
    simp
  have hint : PyStr.toInt 16 (zfill 32 (digitsText 16 u.int)) = some (u.int : Int) := by
    apply PyStr.toInt_zfill
    . omega
    . omega
    . omega
    . have := u.int_lt
      norm_num at this ⊢
      exact this
  unfold ofText?
  rw [hurn, huuid, stripBraces_str, filter_str]
  simp only [hlength, hint, if_true, Option.bind_eq_bind, Option.bind_some, Int.toNat_natCast]
  rw [dif_pos u.int_lt]

end Uuid
