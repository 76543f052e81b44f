import Legalise.Rendering.HtmlText
import Legalise.Rendering.Schema

/-!
This module contains which text of a document the HTML and the Word renderer keep.
-/

namespace Rendering

open PyStr Web

variable (env : Env)

section Ink

/--
A text without its whitespace.
-/
def inked (s : PyStr) : PyStr :=
  s.filter fun c => !isSpace c

@[simp]
theorem inked_append (s t : PyStr) : inked (s ++ t) = inked s ++ inked t := by
  simp [inked]

theorem inked_flatten (parts : List PyStr) : inked parts.flatten = (parts.map inked).flatten := by
  induction parts with
  | nil => rfl
  | cons part parts ih => simp [ih]

theorem inked_eq_nil {s : PyStr} (h : ∀ c ∈ s, isSpace c = true) : inked s = [] := by
  unfold inked
  rw [List.filter_eq_nil_iff]
  intro c hc
  simp [h c hc]

@[simp]
theorem inked_strip (s : PyStr) : inked (strip s) = inked s := by
  have hdrop : ∀ s : PyStr, inked (s.dropWhile isSpace) = inked s := by
    intro s
    conv => rhs; rw [← List.takeWhile_append_dropWhile (p := isSpace) (l := s), inked_append]
    rw [inked_eq_nil fun c hc => List.mem_takeWhile_imp hc, List.nil_append]
  have hreverse : ∀ s : PyStr, inked s.reverse = (inked s).reverse := by
    intro s
    simp [inked]
  unfold strip stripOf rstripOf lstripOf List.rdropWhile
  rw [hreverse, hdrop, hreverse, List.reverse_reverse, hdrop]

theorem inked_join_tab (parts : List PyStr) : inked (join (py "\t") parts) = inked parts.flatten := by
  have htab : inked (py "\t") = [] := by
    decide
  unfold join
  cases parts with
  | nil => rfl
  | cons part parts =>
    rw [intercalate_cons_eq_flatMap, inked_append, List.flatten_cons, inked_append]
    congr 1
    induction parts with
    | nil => rfl
    | cons other parts ih => simp [htab, ih]

/--
What is kept and what is lost of a text make up the whole.
-/
structure Parts (all kept lost : PyStr) : Prop where
  length : kept.length + lost.length = all.length
  eq : lost = [] → kept = all

theorem Parts.whole (s : PyStr) : Parts s s [] :=
  ⟨by simp, fun _ => rfl⟩

theorem Parts.none (s : PyStr) : Parts s [] s :=
  ⟨by simp, fun h => h.symm⟩

theorem Parts.append {a k l a' k' l' : PyStr} (h : Parts a k l) (h' : Parts a' k' l')
    : Parts (a ++ a') (k ++ k') (l ++ l') := by
  constructor
  . have := h.length
    have := h'.length
    simp only [List.length_append]
    omega
  . intro hnil
    rw [List.append_eq_nil_iff] at hnil
    rw [h.eq hnil.left, h'.eq hnil.right]

/--
Everything is kept exactly if nothing is lost.
-/
theorem Parts.eq_iff {all kept lost : PyStr} (h : Parts all kept lost) : kept = all ↔ lost = [] := by
  constructor
  . rintro rfl
    have := h.length
    exact List.length_eq_zero_iff.mp (by omega)
  . exact h.eq

end Ink

section Lookup

variable (type : NodeType) (content : List EditorNode)

theorem get_content : (EditorNode.branch type content).toDict.get (py "content")
    = if content.isEmpty then .null else .list (jsonList content) := by
  cases content <;> cases type <;> rfl

theorem iterOrEmpty_content
    : iterOrEmpty ((EditorNode.branch type content).toDict.get (py "content"))
        = .ok (jsonList content) := by
  rw [get_content]
  cases content <;> rfl

theorem isKind_branch (kind : String) : isKind (EditorNode.branch type content).toDict kind
    = decide (type.name = py kind) := by
  show Json.pyEq (.str type.name) (.str (py kind)) = _
  rw [Bool.eq_iff_iff, Json.pyEq_str_iff, decide_eq_true_iff, Json.str.injEq]

theorem NodeType.name_ne_leaf
    : type.name ≠ py "text" ∧ type.name ≠ py "hardBreak" ∧ type.name ≠ py "image" := by
  cases type <;> simp only [NodeType.name] <;> decide

theorem inSet_branch (names : List String)
    : inSet ((EditorNode.branch type content).toDict.get (py "type")) names
        = .ok (names.any fun name => type.name = py name) := by
  show Except.ok (names.any fun name => Json.pyEq (.str type.name) (.str (py name))) = _
  congr 1
  congr 1
  funext name
  rw [Bool.eq_iff_iff, Json.pyEq_str_iff, decide_eq_true_iff, Json.str.injEq]

end Lookup

section Html

theorem Reads.between (inside inside' : PyStr) {s text : PyStr} (h : Reads s text)
    (hinside : CodePoint.ofChar '>' ∉ inside) (hinside' : CodePoint.ofChar '>' ∉ inside')
    : Reads ((CodePoint.ofChar '<' :: inside ++ [CodePoint.ofChar '>']) ++ s
        ++ (CodePoint.ofChar '<' :: inside' ++ [CodePoint.ofChar '>'])) text := by
  have := ((Reads.tag hinside).append h).append (Reads.tag hinside')
  simpa using this

theorem greater_notMem_escape (s : PyStr) : CodePoint.ofChar '>' ∉ escape s := by
  intro hmem
  exact notMarkup_of_mem_escape hmem (by decide)

theorem rgbFromHex_optional (color : Option PyStr)
    : ∃ rgb, rgbFromHex (optional color) = .ok rgb := by
  unfold rgbFromHex
  cases color with
  | none => exact ⟨_, rfl⟩
  | some color =>
    split
    . exact ⟨_, rfl⟩
    . exact ⟨_, rfl⟩

/--
A mark that the schema allows changes nothing about the text.
-/
theorem wrapMark_reads (mark : Mark) {s text : PyStr} (h : Reads s text)
    : ∃ out, wrapMark env s (.dict mark.toDict) = .ok out ∧ Reads out text := by
  cases mark with
  | bold =>
    refine ⟨_, rfl, ?_⟩
    exact h.between (py "strong") (py "/strong") (by decide) (by decide)
  | italic =>
    refine ⟨_, rfl, ?_⟩
    exact h.between (py "em") (py "/em") (by decide) (by decide)
  | underline =>
    refine ⟨_, rfl, ?_⟩
    exact h.between (py "u") (py "/u") (by decide) (by decide)
  | highlight =>
    refine ⟨_, rfl, ?_⟩
    exact h.between (py "mark") (py "/mark") (by decide) (by decide)
  | strike => exact ⟨s, rfl, h⟩
  | code => exact ⟨s, rfl, h⟩
  | link attrs => exact ⟨s, rfl, h⟩
  | textStyle color =>
    have ⟨rgb, hrgb⟩ := rgbFromHex_optional color
    show ∃ out, (rgbFromHex (optional color) >>= _) = .ok out ∧ _
    rw [hrgb]
    cases rgb with
    | none => exact ⟨s, rfl, h⟩
    | some rgb =>
      refine ⟨_, rfl, ?_⟩
      have hcolor := greater_notMem_escape ((optional color).toStr env.R)
      have hstyle : CodePoint.ofChar '>' ∉ py "span style=\"color:" := by
        decide
      have hquote : CodePoint.ofChar '>' ∉ py "\"" := by
        decide
      have := h.between (py "span style=\"color:" ++ escape ((optional color).toStr env.R) ++ py "\"")
        (py "/span") (by simp [hcolor, hstyle, hquote]) (by decide)
      simpa [py] using this

theorem foldlM_wrapMark_reads (marks : List Mark) {s text : PyStr} (h : Reads s text)
    : ∃ out, (marks.map fun mark => Json.dict mark.toDict).foldlM (wrapMark env) s = .ok out
        ∧ Reads out text := by
  induction marks generalizing s with
  | nil => exact ⟨s, rfl, h⟩
  | cons mark marks ih =>
    have ⟨out, hout, hreads⟩ := wrapMark_reads env mark h
    have ⟨out', hout', hreads'⟩ := ih hreads
    refine ⟨out', ?_, hreads'⟩
    rw [List.map_cons, List.foldlM_cons, hout]
    exact hout'

/--
The JSON of a text, whose keys are read by the renderers.
-/
theorem get_text (s : PyStr) (marks : List Mark)
    : (EditorNode.text s marks).toDict.get (py "text") = .str s := by
  cases marks <;> rfl

theorem iterOrEmpty_marks (s : PyStr) (marks : List Mark)
    : iterOrEmpty ((EditorNode.text s marks).toDict.get (py "marks"))
        = .ok (marks.map fun mark => .dict mark.toDict) := by
  cases marks <;> rfl

theorem toStr_orElse (s : PyStr) : (orElse (.str s) (.str [])).toStr env.R = s := by
  cases s <;> rfl

theorem textHtml_reads (s : PyStr) (marks : List Mark)
    : ∃ html, textHtml env (EditorNode.text s marks).toDict = .ok html ∧ Reads html.text s := by
  have ⟨out, hout, hreads⟩ := foldlM_wrapMark_reads env marks (Reads.escape s)
  refine ⟨.lit out, ?_, hreads⟩
  unfold textHtml
  rw [get_text, toStr_orElse, iterOrEmpty_marks]
  rw [Except.bind_eq_ok_iff]
  refine ⟨_, rfl, ?_⟩
  rw [hout]
  rfl

/--
A node that is neither a text nor a line break is rendered by its content.
-/
theorem inlineNode_branch (type : NodeType) (content : List EditorNode)
    : inlineNode env (EditorNode.branch type content).toDict
        = if content.isEmpty then .ok (.lit []) else inlineNodes env (jsonList content) := by
  rw [inlineNode]
  simp only [isKind_branch, type.name_ne_leaf, decide_false, Bool.false_eq_true, if_false]
  split
  . next heq =>
    rw [get_content] at heq
    cases content with
    | nil => contradiction
    | cons node nodes =>
      simp only [List.isEmpty_cons, Bool.false_eq_true, if_false, Json.list.injEq] at heq
      rw [← heq]
      rfl
  . next hne =>
    cases content with
    | nil => rfl
    | cons node nodes => exact absurd (get_content type (node :: nodes)) (hne _)

mutual

/--
Inline rendering keeps all text, whatever the nodes are.
-/
theorem inlineNode_reads (node : EditorNode)
    : ∃ html, inlineNode env node.toDict = .ok html ∧ Reads html.text node.allText := by
  cases node with
  | text s marks =>
    have ⟨html, hhtml, hreads⟩ := textHtml_reads env s marks
    refine ⟨html, ?_, hreads⟩
    have htype : isKind (EditorNode.text s marks).toDict "text" = true := rfl
    rw [inlineNode, if_pos htype, hhtml]
  | hardBreak =>
    refine ⟨.lit (py "<br/>"), ?_, @Reads.tag (py "br/") (by decide)⟩
    have htext : ¬ isKind EditorNode.hardBreak.toDict "text" = true := by decide
    have htype : isKind EditorNode.hardBreak.toDict "hardBreak" = true := rfl
    rw [inlineNode, if_neg htext, if_pos htype]
    rfl
  | branch type content =>
    have ⟨html, hhtml, hreads⟩ := inlineNodes_reads content
    rw [inlineNode_branch]
    cases content with
    | nil => exact ⟨.lit [], rfl, Reads.nil⟩
    | cons node nodes => exact ⟨html, hhtml, hreads⟩

theorem inlineNodes_reads (nodes : List EditorNode)
    : ∃ html, inlineNodes env (jsonList nodes) = .ok html ∧ Reads html.text (textList nodes) := by
  cases nodes with
  | nil => exact ⟨.lit [], by rw [jsonList, inlineNodes]; rfl, Reads.nil⟩
  | cons node nodes =>
    have ⟨html, hhtml, hreads⟩ := inlineNode_reads node
    have ⟨tail, htail, hreads'⟩ := inlineNodes_reads nodes
    refine ⟨html.append tail, ?_, hreads.append hreads'⟩
    rw [jsonList, inlineNodes, hhtml, Except.bind_eq_ok_iff]
    refine ⟨html, rfl, ?_⟩
    rw [htail]
    rfl

end

end Html

section PlainText

theorem checked_taskItem (done : Bool) (content : List EditorNode)
    : checked (EditorNode.branch (.taskItem done) content).toDict = .ok done := by
  cases done <;> cases content <;> rfl

/--
What is added around the texts of the children is whitespace, apart from the marker of a task.
-/
theorem plainTextOf_inked (type : NodeType) (content : List EditorNode) (children : List PyStr)
    : ∃ text, plainTextOf (EditorNode.branch type content).toDict children = .ok text
        ∧ inked text = inked (type.marker ++ children.flatten) := by
  have hnewline : inked (py "\n") = [] := by
    decide
  have hstrips : ∀ texts : List PyStr, inked (texts.map strip).flatten = inked texts.flatten := by
    intro texts
    rw [inked_flatten, inked_flatten, List.map_map]
    congr 2
    funext text
    exact inked_strip text
  unfold plainTextOf
  rw [isKind_branch, inSet_branch, isKind_branch]
  cases type with
  | taskItem done =>
    refine ⟨taskMarker done ++ strip children.flatten ++ py "\n", ?_, ?_⟩
    . rw [if_pos (by rfl), checked_taskItem]
      rfl
    . simp [hnewline, NodeType.marker]
  | paragraph _ => exact ⟨_, rfl, by simp [hnewline, NodeType.marker]⟩
  | heading _ _ => exact ⟨_, rfl, by simp [hnewline, NodeType.marker]⟩
  | listItem => exact ⟨_, rfl, by simp [hnewline, NodeType.marker]⟩
  | tableRow =>
    refine ⟨_, rfl, ?_⟩
    rw [inked_join_tab, hstrips]
    rfl
  | _ => exact ⟨_, rfl, rfl⟩

mutual

/--
The plain text of a node keeps all text.
-/
theorem plainText_inked (node : EditorNode)
    : ∃ text, plainText env node.toDict = .ok text ∧ inked text = inked node.markedText := by
  cases node with
  | text s marks =>
    refine ⟨s, ?_, rfl⟩
    have htype : isKind (EditorNode.text s marks).toDict "text" = true := rfl
    rw [plainText, if_pos htype, get_text, toStr_orElse]
    rfl
  | hardBreak =>
    refine ⟨py "\n", ?_, by decide⟩
    have htext : ¬ isKind EditorNode.hardBreak.toDict "text" = true := by decide
    have htype : isKind EditorNode.hardBreak.toDict "hardBreak" = true := rfl
    rw [plainText, if_neg htext, if_pos htype]
    rfl
  | branch type content =>
    have ⟨texts, htexts, hinked⟩ := plainTexts_inked content
    have ⟨text, htext, heq⟩ := plainTextOf_inked type content texts
    refine ⟨text, ?_, ?_⟩
    . rw [plainText]
      simp only [isKind_branch, type.name_ne_leaf, decide_false, Bool.false_eq_true, if_false]
      split
      . next heq =>
        have hitems := get_content type content
        rw [heq] at hitems
        cases content with
        | nil => contradiction
        | cons node nodes =>
          simp only [List.isEmpty_cons, Bool.false_eq_true, if_false, Json.list.injEq] at hitems
          rw [hitems, htexts]
          exact htext
      . next hne =>
        cases content with
        | nil =>
          rw [jsonList, plainTexts] at htexts
          cases htexts
          rw [get_content]
          exact htext
        | cons node nodes => exact absurd (get_content type (node :: nodes)) (hne _)
    . rw [heq, inked_append, hinked]
      simp [EditorNode.markedText]

theorem plainTexts_inked (nodes : List EditorNode)
    : ∃ texts, plainTexts env (jsonList nodes) = .ok texts
        ∧ inked texts.flatten = inked (markedList nodes) := by
  cases nodes with
  | nil =>
    refine ⟨[], ?_, rfl⟩
    rw [jsonList, plainTexts]
    rfl
  | cons node nodes =>
    have ⟨text, htext, hinked⟩ := plainText_inked node
    have ⟨texts, htexts, hinked'⟩ := plainTexts_inked nodes
    refine ⟨text :: texts, ?_, ?_⟩
    . rw [jsonList, plainTexts, htext, Except.bind_eq_ok_iff]
      refine ⟨text, rfl, ?_⟩
      rw [htexts]
      rfl
    . simp [hinked, hinked', markedList]

end

end PlainText

end Rendering
