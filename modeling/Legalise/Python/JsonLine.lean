import Legalise.Python.JsonAscii
import Legalise.Python.Web

/-!
This module contains `json.dumps(obj)`: the text of a value on one line, with every code point out of ASCII escaped.
-/

namespace JsonText

/--
The characters of ASCII that are neither control characters nor a newline.
-/
def Printable (s : PyStr) : Prop :=
  ∀ c ∈ s, 0x20 ≤ c.val ∧ c.val < 0x7f

instance (s : PyStr) : Decidable (Printable s) :=
  List.decidableBAll _ s

section DumpsLine

variable (R : PyRepr)

mutual

def dumpsLine : Json → PyStr
  | .null => py "null"
  | .bool true => py "true"
  | .bool false => py "false"
  | .int n => pyInt n
  | .float x => dumpsFloat R x
  | .str s => dumpsAsciiStr s
  | .list [] => [openBracket, closeBracket]
  | .list (v :: vs) => openBracket :: (dumpsLine v ++ dumpsLineItems vs ++ [closeBracket])
  | .dict [] => [openBrace, closeBrace]
  | .dict ((key, v) :: items) =>
    openBrace :: (dumpsAsciiStr key ++ py ": " ++ dumpsLine v ++ dumpsLinePairs items ++ [closeBrace])

/--
The items of a list after the first one.
-/
def dumpsLineItems : List Json → PyStr
  | [] => []
  | v :: vs => py ", " ++ dumpsLine v ++ dumpsLineItems vs

/--
The items of a dictionary after the first one.
-/
def dumpsLinePairs : List (PyStr × Json) → PyStr
  | [] => []
  | (key, v) :: items => py ", " ++ dumpsAsciiStr key ++ py ": " ++ dumpsLine v ++ dumpsLinePairs items

end

end DumpsLine

section Printable

theorem printable_append {s t : PyStr} : Printable (s ++ t) ↔ Printable s ∧ Printable t := by
  unfold Printable
  rw [List.forall_mem_append]

theorem printable_cons {c : CodePoint} {s : PyStr} : Printable (c :: s) ↔ (0x20 ≤ c.val ∧ c.val < 0x7f) ∧ Printable s := by
  unfold Printable
  rw [List.forall_mem_cons]

theorem printable_nil : Printable [] := by
  simp [Printable]

theorem printable_pyNat (n : Nat) : Printable (pyNat n) := by
  have hdigits : ("0123456789".toList.all fun c => Printable [CodePoint.ofChar c]) = true := by
    decide
  simp only [List.all_eq_true, decide_eq_true_eq] at hdigits
  intro c hc
  have ⟨d, hd, heq⟩ := PyStr.mem_pyNat hc
  exact hdigits d (PyStr.mem_digits_of_isDigit hd) c (by simp [heq])

theorem printable_pyInt (n : Int) : Printable (pyInt n) := by
  cases n with
  | ofNat n => exact printable_pyNat n
  | negSucc n => exact printable_append.mpr ⟨by decide, printable_pyNat (n + 1)⟩

theorem printable_unicodeEscape {n : Nat} (hn : n < 0x10000) : Printable (unicodeEscape n) := by
  have hhex : ∀ d < 16, 0x20 ≤ (digitPoint d).val ∧ (digitPoint d).val < 0x7f := by
    decide
  unfold unicodeEscape
  rw [zfill_digitsText (by omega) (by omega) hn]
  refine printable_cons.mpr ⟨by decide, printable_cons.mpr ⟨by decide, fun c hc => ?_⟩⟩
  have ⟨d, hd, heq⟩ := List.mem_map.mp hc
  rw [← heq]
  exact hhex d (lt_base_of_mem_fixedDigits (by omega) hd)

theorem printable_escapeAscii (c : CodePoint) : Printable (escapeAscii c) := by
  have hshort : (shortEscapes.all fun item => Printable [backslash, item.snd]) = true := by
    decide
  simp only [List.all_eq_true, decide_eq_true_eq] at hshort
  unfold escapeAscii
  split
  . next letter hlookup => exact hshort _ (Web.mem_of_lookup hlookup)
  . split
    . next hplain => exact printable_cons.mpr ⟨hplain, printable_nil⟩
    . split
      . next hsmall => exact printable_unicodeEscape hsmall
      . refine printable_append.mpr ⟨printable_unicodeEscape ?_, printable_unicodeEscape ?_⟩ <;> omega

theorem printable_dumpsAsciiStr (s : PyStr) : Printable (dumpsAsciiStr s) := by
  refine printable_cons.mpr ⟨by decide, printable_append.mpr ⟨fun c hc => ?_, by decide⟩⟩
  have ⟨d, _, hd⟩ := List.mem_flatMap.mp hc
  exact printable_escapeAscii d c hd

variable {R : PyRepr}

mutual

/--
The text of a value is printable, if those of floats are.
-/
theorem printable_dumpsLine (hR : ∀ x, Printable (dumpsFloat R x)) : ∀ v, Printable (dumpsLine R v)
  | .null => by unfold dumpsLine; decide
  | .bool true => by unfold dumpsLine; decide
  | .bool false => by unfold dumpsLine; decide
  | .int n => by unfold dumpsLine; exact printable_pyInt n
  | .float x => by unfold dumpsLine; exact hR x
  | .str s => by unfold dumpsLine; exact printable_dumpsAsciiStr s
  | .list [] => by unfold dumpsLine; decide
  | .list (v :: vs) => by
    unfold dumpsLine
    rw [printable_cons, printable_append, printable_append]
    exact ⟨by decide, ⟨printable_dumpsLine hR v, printable_dumpsLineItems hR vs⟩, by decide⟩
  | .dict [] => by unfold dumpsLine; decide
  | .dict ((key, v) :: items) => by
    unfold dumpsLine
    rw [printable_cons, printable_append, printable_append, printable_append, printable_append]
    exact ⟨by decide, ⟨⟨⟨printable_dumpsAsciiStr key, by decide⟩, printable_dumpsLine hR v⟩,
      printable_dumpsLinePairs hR items⟩, by decide⟩

theorem printable_dumpsLineItems (hR : ∀ x, Printable (dumpsFloat R x)) : ∀ vs, Printable (dumpsLineItems R vs)
  | [] => printable_nil
  | v :: vs => by
    unfold dumpsLineItems
    rw [printable_append, printable_append]
    exact ⟨⟨by decide, printable_dumpsLine hR v⟩, printable_dumpsLineItems hR vs⟩

theorem printable_dumpsLinePairs (hR : ∀ x, Printable (dumpsFloat R x)) : ∀ items, Printable (dumpsLinePairs R items)
  | [] => printable_nil
  | (key, v) :: items => by
    unfold dumpsLinePairs
    rw [printable_append, printable_append, printable_append, printable_append]
    exact ⟨⟨⟨⟨by decide, printable_dumpsAsciiStr key⟩, by decide⟩, printable_dumpsLine hR v⟩,
      printable_dumpsLinePairs hR items⟩

end

/--
A dictionary stands between braces.
-/
theorem dumpsLine_dict (items : Dict) : ∃ body, dumpsLine R (.dict items) = openBrace :: (body ++ [closeBrace]) := by
  cases items with
  | nil => exact ⟨[], rfl⟩
  | cons item items =>
    have ⟨key, v⟩ := item
    exact ⟨_, by rw [dumpsLine]⟩

theorem printable_dumpsFloat_quoted (x : PyFloat) : Printable (dumpsFloat .quoted x) := by
  cases x with
  | finite q => exact printable_append.mpr ⟨printable_append.mpr ⟨printable_pyInt q.num, by decide⟩, printable_pyNat q.den⟩
  | negZero => decide
  | inf negative => cases negative <;> decide
  | nan => decide

end Printable

end JsonText
