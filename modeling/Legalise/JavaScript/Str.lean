import Mathlib

/-!
This module contains the part of JavaScript's strings that the repository uses. They are sequences of UTF-16 code
units.
-/

namespace JavaScript

/--
A UTF-16 code unit.
-/
abbrev CodeUnit := Fin 0x10000

instance CodeUnit.neZero : NeZero 0x10000 := ⟨by decide⟩

/--
A JavaScript string.
-/
abbrev JsString := List CodeUnit

/--
A string literal of the source.
-/
def js (s : String) : JsString :=
  s.toList.map fun c => Fin.ofNat 0x10000 c.toNat

def space : CodeUnit := 0x20

/--
The character class `\s`, which is also what `trim` removes.
-/
def isSpace (c : CodeUnit) : Bool :=
  c.val ∈ [0x09, 0x0A, 0x0B, 0x0C, 0x0D, 0x20, 0xA0, 0x1680, 0x2028, 0x2029, 0x202F, 0x205F, 0x3000, 0xFEFF]
    || 0x2000 ≤ c.val && c.val ≤ 0x200A

def trimEnd (text : JsString) : JsString :=
  text.rdropWhile isSpace

def trim (text : JsString) : JsString :=
  trimEnd (text.dropWhile isSpace)

theorem isSpace_space : isSpace space = true := by
  decide

theorem trimEnd_isPrefix (text : JsString) : trimEnd text <+: text :=
  List.rdropWhile_prefix _ _

end JavaScript
