import Legalise.Rendering.ExportText

/-!
This module contains the text that the HTML of a document shows.
-/

namespace Rendering

open PyStr Web

variable (env : Env)

section Shown

/--
A piece of HTML has a certain text, up to whitespace.
-/
def Shown (html : Html) (text : PyStr) : Prop :=
  ∃ shown, Reads html.text shown ∧ inked shown = inked text

theorem Shown.nil : Shown (.lit []) [] :=
  ⟨[], Reads.nil, rfl⟩

theorem Shown.append {a b : Html} {text text' : PyStr} (ha : Shown a text) (hb : Shown b text')
    : Shown (a.append b) (text ++ text') := by
  have ⟨shown, hreads, hinked⟩ := ha
  have ⟨shown', hreads', hinked'⟩ := hb
  refine ⟨shown ++ shown', hreads.append hreads', ?_⟩
  rw [inked_append, inked_append, hinked, hinked']

theorem Shown.htmlText {html : Html} {text : PyStr} (h : Shown html text)
    : inked (htmlText html.text) = inked text := by
  have ⟨_, hreads, hinked⟩ := h
  rw [hreads.htmlText_eq, hinked]

/--
An element around a piece of HTML.
-/
theorem Shown.elem (inside inside' : PyStr) {html : Html} {text : PyStr} (h : Shown html text)
    (hinside : CodePoint.ofChar '>' ∉ inside) (hinside' : CodePoint.ofChar '>' ∉ inside')
    : Shown (html.between (CodePoint.ofChar '<' :: inside ++ [CodePoint.ofChar '>'])
        (CodePoint.ofChar '<' :: inside' ++ [CodePoint.ofChar '>'])) text := by
  have ⟨shown, hreads, hinked⟩ := h
  exact ⟨shown, hreads.between inside inside' hinside hinside', hinked⟩

end Shown

section Items

variable (type : NodeType) {content : List EditorNode}

end Items

section Blocks

def NodeType.textAlign : NodeType → Option PyStr
  | .paragraph textAlign => textAlign
  | .heading _ textAlign => textAlign
  | _ => none

end Blocks

end Rendering
