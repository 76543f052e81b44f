import Legalise.Rendering.Html

/-!
This module contains the text of a piece of HTML: what remains when its tags are dropped and its
entities are replaced by the characters they stand for.
-/

namespace Rendering

open PyStr Web

section HtmlText

/--
The text outside of tags, where the flag says whether a tag is open.
-/
def dropTags : Bool → PyStr → PyStr
  | _, [] => []
  | true, c :: s => dropTags (c ≠ CodePoint.ofChar '>') s
  | false, c :: s => if c = CodePoint.ofChar '<' then dropTags true s else c :: dropTags false s

/--
The entities that `html.escape` writes, replaced by their characters.
-/
def unescape (s : PyStr) : PyStr :=
  match s with
  | [] => []
  | c :: s =>
    match entities.find? fun item => item.snd.isPrefixOf (c :: s) with
    | some item => item.fst :: unescape (s.drop (item.snd.length - 1))
    | none => c :: unescape s
  termination_by s.length
  decreasing_by
    all_goals
      simp only [List.length_drop, List.length_cons]
      omega

def htmlText (s : PyStr) : PyStr :=
  unescape (dropTags false s)

/--
In front of anything, a piece of HTML has a certain text.
-/
def Reads (s text : PyStr) : Prop :=
  ∀ rest, htmlText (s ++ rest) = text ++ htmlText rest

theorem Reads.htmlText_eq {s text : PyStr} (h : Reads s text) : htmlText s = text := by
  have := h []
  rw [List.append_nil] at this
  rw [this]
  simp [htmlText, dropTags, unescape]

theorem Reads.nil : Reads [] [] :=
  fun _ => rfl

theorem Reads.append {s t text text' : PyStr} (hs : Reads s text) (ht : Reads t text')
    : Reads (s ++ t) (text ++ text') := by
  intro rest
  rw [List.append_assoc, hs, ht, List.append_assoc]

/--
A tag has no text.
-/
theorem Reads.tag {inside : PyStr} (h : CodePoint.ofChar '>' ∉ inside)
    : Reads (CodePoint.ofChar '<' :: inside ++ [CodePoint.ofChar '>']) [] := by
  have hinside : ∀ inside rest : PyStr, CodePoint.ofChar '>' ∉ inside →
      dropTags true (inside ++ CodePoint.ofChar '>' :: rest) = dropTags false rest := by
    intro inside rest h
    induction inside with
    | nil => simp [dropTags]
    | cons c inside ih =>
      simp only [List.mem_cons, not_or] at h
      have hc : c ≠ CodePoint.ofChar '>' := fun heq => h.left heq.symm
      simp only [List.cons_append, dropTags, hc, ne_eq, not_false_eq_true, decide_true]
      exact ih h.right
  intro rest
  unfold htmlText
  simp only [List.cons_append, List.append_assoc, List.nil_append, dropTags, if_true]
  rw [hinside inside rest h]

/--
An entity in front of anything is the first one that is found.
-/
theorem unescape_entity {item : CodePoint × PyStr} (hitem : item ∈ entities) (s : PyStr)
    : unescape (item.snd ++ s) = item.fst :: unescape s := by
  simp only [entities, List.mem_cons, List.not_mem_nil, or_false] at hitem
  rcases hitem with rfl | rfl | rfl | rfl | rfl
  all_goals
    show unescape (_ :: _) = _
    rw [unescape]
    rfl

theorem unescape_escapePoint (c : CodePoint) (s : PyStr)
    : unescape (escapePoint c ++ s) = c :: unescape s := by
  unfold escapePoint
  cases hlookup : entities.lookup c with
  | some entity => exact unescape_entity (mem_of_lookup hlookup) s
  | none =>
    have hheads : (entities.all fun item => item.snd.head? = some (CodePoint.ofChar '&')) = true := by
      decide
    have hampersand : (entities.lookup (CodePoint.ofChar '&')).isSome = true := by
      decide
    simp only [List.all_eq_true, decide_eq_true_eq] at hheads
    have hfind : entities.find? (fun item => item.snd.isPrefixOf (c :: s)) = none := by
      rw [List.find?_eq_none]
      intro item hitem hmatch
      have ⟨rest, hrest⟩ := List.isPrefixOf_iff_prefix.mp hmatch
      have hhead := hheads item hitem
      have hc : c = CodePoint.ofChar '&' := by
        have := congrArg List.head? hrest
        rw [List.head?_append, hhead] at this
        simpa using this.symm
      rw [← hc, hlookup] at hampersand
      contradiction
    show unescape (c :: s) = _
    rw [unescape, hfind]

theorem unescape_escape (s rest : PyStr) : unescape (escape s ++ rest) = s ++ unescape rest := by
  induction s with
  | nil => rfl
  | cons c s ih =>
    show unescape (escapePoint c ++ escape s ++ rest) = _
    rw [List.append_assoc, unescape_escapePoint, ih]
    rfl

/--
An escaped text is read as it was.
-/
theorem Reads.escape (s : PyStr) : Reads (escape s) s := by
  have houtside : ∀ s rest : PyStr, CodePoint.ofChar '<' ∉ s →
      dropTags false (s ++ rest) = s ++ dropTags false rest := by
    intro s rest h
    induction s with
    | nil => rfl
    | cons c s ih =>
      simp only [List.mem_cons, not_or] at h
      have hc : c ≠ CodePoint.ofChar '<' := fun heq => h.left heq.symm
      simp only [List.cons_append, dropTags, hc, if_false, ih h.right]
  intro rest
  have hlt : CodePoint.ofChar '<' ∉ Web.escape s := fun hmem => notMarkup_of_mem_escape hmem (by decide)
  unfold htmlText
  rw [houtside _ _ hlt, unescape_escape]

end HtmlText

end Rendering
