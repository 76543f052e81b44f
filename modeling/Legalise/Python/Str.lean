import Legalise.Lib.Digits
import Legalise.Lib.SelfDelimiting

/-!
This module contains the part of Python's `str` that the repository uses. A Python string is a
sequence of code points and, unlike a Lean `String`, may hold lone surrogates.
-/

/--
A Unicode code point, surrogates included.
-/
abbrev CodePoint := Fin 0x110000

/--
Python's `str`.
-/
abbrev PyStr := List CodePoint

instance CodePoint.neZero : NeZero 0x110000 := ⟨by decide⟩

instance : LawfulBEq CodePoint := inferInstance

instance : LawfulBEq PyStr := inferInstance

def CodePoint.ofChar (c : Char) : CodePoint :=
  ⟨c.toNat, by
    have hvalid := c.valid
    unfold UInt32.isValidChar Nat.isValidChar at hvalid
    show c.val.toNat < 0x110000
    omega⟩

theorem CodePoint.ofChar_injective : Function.Injective CodePoint.ofChar := by
  intro a b hab
  have := congrArg (fun c : CodePoint => c.val) hab
  exact Char.toNat_inj.mp this

/--
A string literal of the source.
-/
def py (s : String) : PyStr := s.toList.map CodePoint.ofChar

/--
`str(n)` of a non-negative `int`.
-/
def pyNat (n : Nat) : PyStr := (Nat.toDigits 10 n).map CodePoint.ofChar

/--
`str(n)` of an `int`.
-/
def pyInt : Int → PyStr
  | .ofNat n => pyNat n
  | .negSucc n => py "-" ++ pyNat (n + 1)

theorem Nat.toDigits_injective {b : Nat} (hb : 1 < b) (hb' : b ≤ 10) :
    Function.Injective (Nat.toDigits b) := by
  intro m n hmn
  have := congrArg (fun ds => Nat.ofDigitChars b ds 0) hmn
  simpa [Nat.ofDigitChars_toDigits hb hb'] using this

theorem pyNat_injective : Function.Injective pyNat := by
  intro m n hmn
  apply Nat.toDigits_injective (b := 10) (by omega) (by omega)
  exact CodePoint.ofChar_injective.list_map hmn

theorem ofChar_notMem_pyNat {c : Char} (hc : c.isDigit = false) (n : Nat) :
    CodePoint.ofChar c ∉ pyNat n := by
  intro hmem
  have ⟨d, hd, hdc⟩ := List.mem_map.mp hmem
  have hdigit := Nat.isDigit_of_mem_toDigits (by omega) (by omega) hd
  rw [CodePoint.ofChar_injective hdc, hc] at hdigit
  contradiction

theorem pyNat_ne_nil (n : Nat) : pyNat n ≠ [] := by
  simp [pyNat, Nat.toDigits_ne_nil]

section Utf8

/--
`text.encode("utf-8")` raises `UnicodeEncodeError` exactly on texts with a surrogate.
-/
def Utf8Encodable (s : PyStr) : Prop :=
  ∀ c ∈ s, ¬ (0xD800 ≤ c.val ∧ c.val ≤ 0xDFFF)

instance (s : PyStr) : Decidable (Utf8Encodable s) :=
  List.decidableBAll _ s

@[simp]
theorem utf8Encodable_nil : Utf8Encodable [] := by
  simp [Utf8Encodable]

@[simp]
theorem utf8Encodable_append (s t : PyStr)
    : Utf8Encodable (s ++ t) ↔ Utf8Encodable s ∧ Utf8Encodable t := by
  simp only [Utf8Encodable, List.mem_append, or_imp, forall_and]

@[simp]
theorem utf8Encodable_flatten (parts : List PyStr)
    : Utf8Encodable parts.flatten ↔ ∀ part ∈ parts, Utf8Encodable part := by
  induction parts with
  | nil => simp
  | cons part parts ih => simp [ih]

theorem Utf8Encodable.subset {s t : PyStr} (h : Utf8Encodable t) (hst : s ⊆ t) : Utf8Encodable s := by
  intro c hc
  exact h c (hst hc)

theorem Utf8Encodable.take {s : PyStr} (h : Utf8Encodable s) (n : Nat) : Utf8Encodable (s.take n) :=
  h.subset (List.take_subset n s)

theorem Utf8Encodable.drop {s : PyStr} (h : Utf8Encodable s) (n : Nat) : Utf8Encodable (s.drop n) :=
  h.subset (List.drop_subset n s)

theorem utf8Encodable_map_ofChar (cs : List Char) : Utf8Encodable (cs.map CodePoint.ofChar) := by
  intro c hc
  have ⟨d, _, hd⟩ := List.mem_map.mp hc
  have hvalid := d.valid
  unfold UInt32.isValidChar Nat.isValidChar at hvalid
  have : c.val = d.val.toNat := by rw [← hd]; rfl
  omega

@[simp]
theorem utf8Encodable_py (s : String) : Utf8Encodable (py s) :=
  utf8Encodable_map_ofChar s.toList

@[simp]
theorem utf8Encodable_pyNat (n : Nat) : Utf8Encodable (pyNat n) :=
  utf8Encodable_map_ofChar _

@[simp]
theorem utf8Encodable_pyInt (n : Int) : Utf8Encodable (pyInt n) := by
  cases n <;> simp [pyInt]

end Utf8

/--
`sep.join(parts)`
-/
def join (sep : PyStr) (parts : List PyStr) : PyStr :=
  sep.intercalate parts

theorem utf8Encodable_join {sep : PyStr} (hsep : Utf8Encodable sep) {parts : List PyStr}
    (hparts : ∀ part ∈ parts, Utf8Encodable part) : Utf8Encodable (join sep parts) := by
  unfold join
  cases parts with
  | nil => simp
  | cons part parts =>
    rw [intercalate_cons_eq_flatMap, List.flatMap_def]
    simp only [utf8Encodable_append, utf8Encodable_flatten, List.mem_map, forall_exists_index,
      and_imp, forall_apply_eq_imp_iff₂]
    refine ⟨hparts part (by simp), ?_⟩
    intro other hother
    exact ⟨hsep, hparts other (by simp [hother])⟩

section Zfill

/--
`s.zfill(width)` of a text without a sign, which is also how `%0{width}d` and `%0{width}x` fill up.
-/
def zfill (width : Nat) (s : PyStr) : PyStr :=
  List.replicate (width - s.length) (CodePoint.ofChar '0') ++ s

/--
The digits of `n` in a base up to 16, at least one and without leading zeros.
-/
def digitsText (base n : Nat) : PyStr :=
  (Nat.toDigits base n).map CodePoint.ofChar

def digitPoint (d : Nat) : CodePoint :=
  CodePoint.ofChar (Nat.digitChar d)

theorem zfill_digitsText {base width n : Nat} (hbase : 1 < base) (hwidth : 0 < width)
    (hn : n < base ^ width)
    : zfill width (digitsText base n) = (fixedDigits base width n).map digitPoint := by
  have := congrArg (List.map CodePoint.ofChar) (map_digitChar_fixedDigits hbase hwidth hn)
  rw [List.map_map, List.map_append, List.map_replicate] at this
  unfold zfill
  rw [digitsText, List.length_map, ← this]
  rfl

@[simp]
theorem utf8Encodable_zfill_digitsText (width base n : Nat)
    : Utf8Encodable (zfill width (digitsText base n)) := by
  unfold zfill digitsText
  rw [utf8Encodable_append, ← List.map_replicate]
  exact ⟨utf8Encodable_map_ofChar _, utf8Encodable_map_ofChar _⟩

/--
A number with enough digits is not filled up.
-/
theorem zfill_digitsText_of_le {base width n : Nat} (hbase : 1 < base) (hwidth : 0 < width)
    (hn : base ^ (width - 1) ≤ n) : zfill width (digitsText base n) = digitsText base n := by
  have hlen : width ≤ (digitsText base n).length := by
    unfold digitsText
    rw [List.length_map]
    by_contra hlt
    have hone : 0 < width - 1 := by
      have : 0 < (Nat.toDigits base n).length := Nat.length_toDigits_pos
      omega
    have := (Nat.length_toDigits_le_iff hbase hone (n := n)).mp (by omega)
    omega
  unfold zfill
  rw [Nat.sub_eq_zero_of_le hlen]
  rfl

/--
The value of a digit in a base up to 16.
-/
def digitVal (c : CodePoint) : Nat :=
  (py "0123456789abcdef").idxOf c

theorem digitVal_digitPoint {d : Nat} (hd : d < 16) : digitVal (digitPoint d) = d := by
  have : ∀ d < 16, digitVal (digitPoint d) = d := by
    decide
  exact this d hd

theorem map_digitVal_digitPoint {base : Nat} (hbase : 0 < base) (hbase' : base ≤ 16) (width n : Nat)
    : ((fixedDigits base width n).map digitPoint).map digitVal = fixedDigits base width n := by
  rw [List.map_map]
  conv => rhs; rw [← List.map_id (fixedDigits base width n)]
  apply List.map_congr_left
  intro d hd
  exact digitVal_digitPoint (Nat.lt_of_lt_of_le (lt_base_of_mem_fixedDigits hbase hd) hbase')

theorem map_digitPoint_inj {base : Nat} (hbase : 0 < base) (hbase' : base ≤ 16) {width m n : Nat}
    (hm : m < base ^ width) (hn : n < base ^ width)
    (heq : (fixedDigits base width m).map digitPoint = (fixedDigits base width n).map digitPoint)
    : m = n := by
  apply fixedDigits_inj hm hn
  rw [← map_digitVal_digitPoint hbase hbase', heq, map_digitVal_digitPoint hbase hbase']

end Zfill

section Hex

/--
The character class `[0-9a-f]`.
-/
def IsHexDigit (c : CodePoint) : Prop :=
  c ∈ py "0123456789abcdef"

instance (c : CodePoint) : Decidable (IsHexDigit c) :=
  inferInstanceAs (Decidable (c ∈ py "0123456789abcdef"))

theorem isHexDigit_digitPoint {d : Nat} (hd : d < 16) : IsHexDigit (digitPoint d) := by
  have : ∀ d < 16, digitPoint d ∈ py "0123456789abcdef" := by
    decide
  exact this d hd

theorem utf8Encodable_of_isHexDigit {s : PyStr} (h : ∀ c ∈ s, IsHexDigit c) : Utf8Encodable s := by
  intro c hc
  exact utf8Encodable_py "0123456789abcdef" c (h c hc)

end Hex
