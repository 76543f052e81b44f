import Legalise.Python.Hashlib
import Legalise.Python.Words

/-!
This module contains the check whether a quote is found in the text of a document, and that it is exact up to case and
whitespace: a quote is found exactly if a slice of the body is normalised to the same text.
-/

namespace SourceAnchors

open PyStr

section Anchors

variable (lower : PyStr → PyStr)

/--
`normalize_for_match`
-/
def normalizeForMatch (text : PyStr) : PyStr :=
  join (py " ") (split (lower text))

/--
`quote_found_in_source`
-/
def quoteFoundInSource (quote bodyText : PyStr) : Bool :=
  let q := normalizeForMatch lower quote
  if q = [] then false else isIn q (normalizeForMatch lower bodyText)

end Anchors

variable (L : CharLower)

theorem normalizeForMatch_eq_reflow (lower : PyStr → PyStr) (text : PyStr)
    : normalizeForMatch lower text = Words.reflow isSpace 0x20 (lower text) := by
  rfl

/--
What stands in a normalised body is what the slices of the body are normalised to.
-/
theorem normalizeForMatch_infix_iff (quote body : PyStr)
    : normalizeForMatch L.lower quote <:+: normalizeForMatch L.lower body
        ↔
      ∃ i j, i ≤ j ∧ normalizeForMatch L.lower (slice body i j) = normalizeForMatch L.lower quote := by
  have hblank : isSpace 0x20 = true := by
    decide
  simp only [normalizeForMatch_eq_reflow]
  rw [Words.reflow_infix_iff hblank]
  constructor
  . rintro ⟨s, hs, hsame⟩
    have ⟨i, j, hij, hslice⟩ := (isInfix_iff_slice s _).mp hs
    refine ⟨i, j, hij, ?_⟩
    rw [← hsame, ← hslice]
    unfold CharLower.lower
    rw [slice_map]
  . rintro ⟨i, j, hij, hsame⟩
    refine ⟨_, ?_, hsame⟩
    unfold CharLower.lower
    rw [← slice_map]
    exact (isInfix_iff_slice _ _).mpr ⟨i, j, hij, rfl⟩

/--
A text with other whitespace between its words, or with its letters in another case.
-/
inductive Rewritten : PyStr → PyStr → Prop
  | reflowed {s t : PyStr} (h : split s = split t) : Rewritten s t
  | recased {s t : PyStr} (h : L.lower s = L.lower t) : Rewritten s t
  | trans {s t u : PyStr} (h : Rewritten s t) (h' : Rewritten t u) : Rewritten s u

variable {L}

theorem Rewritten.normalizeForMatch_eq {s t : PyStr} (h : Rewritten L s t)
    : normalizeForMatch L.lower s = normalizeForMatch L.lower t := by
  induction h with
  | reflowed h =>
    unfold normalizeForMatch
    rw [L.split_lower, L.split_lower, h]
  | recased h =>
    unfold normalizeForMatch
    rw [h]
  | trans _ _ ih ih' => rw [ih, ih']

variable (L)

/--
The check is exact, and neither case nor the flow of the text matters on either side.
-/
theorem quoteFoundInSource_iff (quote body : PyStr)
    : (quoteFoundInSource L.lower quote body = true
          ↔
        normalizeForMatch L.lower quote ≠ []
          ∧ ∃ i j, i ≤ j ∧ normalizeForMatch L.lower (slice body i j) = normalizeForMatch L.lower quote)
        ∧ ∀ quote' body', Rewritten L quote quote' → Rewritten L body body' →
          quoteFoundInSource L.lower quote' body' = quoteFoundInSource L.lower quote body := by
  constructor
  . unfold quoteFoundInSource
    dsimp only
    rw [← normalizeForMatch_infix_iff]
    split
    . next hempty => simp [hempty]
    . next hne => simp [hne, isIn_iff]
  . intro quote' body' hquote hbody
    unfold quoteFoundInSource
    rw [hquote.normalizeForMatch_eq, hbody.normalizeForMatch_eq]

example : quoteFoundInSource CharLower.ascii.lower (py "ms khan on") (py "dismissed  Ms Khan\n on 12 March") = true := by
  decide +kernel

end SourceAnchors
