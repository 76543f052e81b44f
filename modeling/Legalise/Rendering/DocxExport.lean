import Legalise.Rendering.ExportText

/-!
This module contains the text that the Word document of a document holds, and the text it lacks.
-/

namespace Rendering

open PyStr

variable (env : Env) (picture : Bytes → Bool)

section Text

def RunItem.text : RunItem → PyStr
  | .run r => r.text
  | .lineBreak => py "\n"
  | .picture _ => []

def DocxBlock.text : DocxBlock → PyStr
  | .paragraph p => p.runs.flatMap RunItem.text
  | .table rows => rows.flatten.flatMap TableCell.text
  | .pageBreak => []

/--
The texts of the runs and cells, in order.
-/
def docxText (blocks : List DocxBlock) : PyStr :=
  blocks.flatMap DocxBlock.text

@[simp]
theorem docxText_nil : docxText [] = [] := rfl

@[simp]
theorem docxText_append (a b : List DocxBlock) : docxText (a ++ b) = docxText a ++ docxText b := by
  simp [docxText]

end Text

section Lost

mutual

/--
The texts of a node below a list that are not written. The items of a list keep their paragraphs,
their headings and their lists.
-/
def EditorNode.listLost : EditorNode → PyStr
  | .text s _ => s
  | .hardBreak => []
  | .branch type content =>
    match type with
    | .paragraph _ | .heading _ _ => []
    | .bulletList | .orderedList _ | .listItem => listLostList content
    | _ => textList content

def listLostList : List EditorNode → PyStr
  | [] => []
  | node :: nodes => node.listLost ++ listLostList nodes

end

/--
The texts of a task after its first paragraph.
-/
def taskLost : EditorNode → PyStr
  | .branch _ content => textList content.tail
  | _ => []

/--
The texts of a block of the document that are not written.
-/
def docxLost : EditorNode → PyStr
  | .branch .bulletList items => listLostList items
  | .branch (.orderedList _) items => listLostList items
  | .branch .taskList items => items.flatMap taskLost
  | .branch .blockquote content => textList content
  | _ => []

end Lost

section Runs

theorem markRunColor_ok (color : Option RGBColor) (mark : Mark)
    : ∃ out, markRunColor color (.dict mark.toDict) = .ok out := by
  cases mark with
  | textStyle value =>
    show ∃ out, (rgbFromHex (optional value) >>= _) = .ok out
    have ⟨rgb, hrgb⟩ := rgbFromHex_optional value
    rw [hrgb]
    cases rgb with
    | none => exact ⟨_, rfl⟩
    | some rgb => exact ⟨_, rfl⟩
  | _ => exact ⟨color, rfl⟩

theorem foldlM_markRunColor_ok (color : Option RGBColor) (marks : List Mark)
    : ∃ out, (marks.map fun mark => Json.dict mark.toDict).foldlM markRunColor color = .ok out := by
  induction marks generalizing color with
  | nil => exact ⟨color, rfl⟩
  | cons mark marks ih =>
    have ⟨out, hout⟩ := markRunColor_ok color mark
    have ⟨out', hout'⟩ := ih out
    refine ⟨out', ?_⟩
    rw [List.map_cons, List.foldlM_cons, hout]
    exact hout'

theorem textRun_text (s : PyStr) (marks : List Mark)
    : ∃ run, textRun env (EditorNode.text s marks).toDict = .ok run ∧ run.text = s := by
  have ⟨color, hcolor⟩ := foldlM_markRunColor_ok none marks
  unfold textRun
  rw [iterOrEmpty_marks, get_text, toStr_orElse]
  show ∃ run, (List.foldlM markRunColor none _ >>= _) = .ok run ∧ _
  rw [hcolor]
  exact ⟨_, rfl, rfl⟩

/--
A node that is neither a text nor a line break is written by its content.
-/
theorem nodeRuns_branch (type : NodeType) (content : List EditorNode)
    : nodeRuns env picture (EditorNode.branch type content).toDict
        = if content.isEmpty then .ok [] else nodesRuns env picture (jsonList content) := by
  rw [nodeRuns]
  simp only [isKind_branch, type.name_ne_leaf, decide_false, Bool.false_eq_true, if_false]
  split
  . next heq =>
    rw [get_content] at heq
    cases content with
    | nil => contradiction
    | cons node nodes =>
      simp only [List.isEmpty_cons, Bool.false_eq_true, if_false, Json.list.injEq] at heq
      rw [← heq]
      rfl
  . next hne =>
    cases content with
    | nil => rfl
    | cons node nodes => exact absurd (get_content type (node :: nodes)) (hne _)

mutual

/--
The runs of a node keep all text, whatever the nodes are.
-/
theorem nodeRuns_inked (node : EditorNode)
    : ∃ runs, nodeRuns env picture node.toDict = .ok runs
        ∧ inked (runs.flatMap RunItem.text) = inked node.allText := by
  cases node with
  | text s marks =>
    have ⟨run, hrun, htext⟩ := textRun_text env s marks
    refine ⟨[run], ?_, by simp [htext, EditorNode.allText]⟩
    have htype : isKind (EditorNode.text s marks).toDict "text" = true := rfl
    rw [nodeRuns, if_pos htype, hrun]
    rfl
  | hardBreak =>
    refine ⟨[.lineBreak], ?_, by decide⟩
    have htext : ¬ isKind EditorNode.hardBreak.toDict "text" = true := by decide
    have htype : isKind EditorNode.hardBreak.toDict "hardBreak" = true := rfl
    rw [nodeRuns, if_neg htext, if_pos htype]
    rfl
  | branch type content =>
    have ⟨runs, hruns, hinked⟩ := nodesRuns_inked content
    rw [nodeRuns_branch]
    cases content with
    | nil => exact ⟨[], rfl, rfl⟩
    | cons node nodes => exact ⟨runs, hruns, hinked⟩

theorem nodesRuns_inked (nodes : List EditorNode)
    : ∃ runs, nodesRuns env picture (jsonList nodes) = .ok runs
        ∧ inked (runs.flatMap RunItem.text) = inked (textList nodes) := by
  cases nodes with
  | nil => exact ⟨[], by rw [jsonList, nodesRuns]; rfl, rfl⟩
  | cons node nodes =>
    have ⟨runs, hruns, hinked⟩ := nodeRuns_inked node
    have ⟨tail, htail, hinked'⟩ := nodesRuns_inked nodes
    refine ⟨runs ++ tail, ?_, ?_⟩
    . rw [jsonList, nodesRuns, hruns, Except.bind_eq_ok_iff]
      refine ⟨runs, rfl, ?_⟩
      rw [htail]
      rfl
    . rw [List.flatMap_append, inked_append, hinked, hinked', textList, inked_append]

end

theorem inlineRuns_inked (type : NodeType) (content : List EditorNode)
    : ∃ runs, inlineRuns env picture ((EditorNode.branch type content).toDict.get (py "content"))
          = .ok runs
        ∧ inked (runs.flatMap RunItem.text) = inked (textList content) := by
  unfold inlineRuns
  rw [iterOrEmpty_content]
  exact nodesRuns_inked env picture content

end Runs

section Paragraphs

theorem paragraphAlignment_optional (align : Option PyStr)
    : ∃ out, paragraphAlignment (optional align) = .ok out := by
  unfold paragraphAlignment orElse
  cases align with
  | none => exact ⟨_, rfl⟩
  | some align =>
    split
    . exact ⟨_, rfl⟩
    . exact ⟨_, rfl⟩

/--
A paragraph and a heading are written in full.
-/
theorem paragraphBlock_inked {type : NodeType} (content : List EditorNode) (style : Option PyStr)
    (h : type.name = py "paragraph" ∨ type.name = py "heading")
    : ∃ block, paragraphBlock env picture (EditorNode.branch type content).toDict style = .ok block
        ∧ inked block.text = inked (textList content) := by
  have ⟨runs, hruns, hinked⟩ := inlineRuns_inked env picture type content
  unfold paragraphBlock
  rw [hruns]
  cases type with
  | paragraph textAlign =>
    have ⟨align, halign⟩ := paragraphAlignment_optional textAlign
    have hattr : nested (EditorNode.branch (.paragraph textAlign) content).toDict (py "attrs")
        (py "textAlign") = .ok (optional textAlign) := by
      cases content <;> rfl
    rw [hattr]
    refine ⟨.paragraph { style := style, alignment := align, runs := runs }, ?_, hinked⟩
    show (paragraphAlignment (optional textAlign) >>= _) = _
    rw [halign]
    rfl
  | heading level textAlign =>
    have ⟨align, halign⟩ := paragraphAlignment_optional textAlign
    have ⟨n, hlevel⟩ : ∃ n, toInt (orElse (.int level) (.int 1)) = .ok n := by
      unfold orElse
      split <;> exact ⟨_, rfl⟩
    have hattr : nested (EditorNode.branch (.heading level textAlign) content).toDict (py "attrs")
        (py "textAlign") = .ok (optional textAlign) := by
      cases content <;> rfl
    have hvalue : nested (EditorNode.branch (.heading level textAlign) content).toDict (py "attrs")
        (py "level") = .ok (.int level) := by
      cases content <;> rfl
    rw [hattr, hvalue]
    refine ⟨.paragraph
      { level := some (max 1 (min n 4)).toNat, alignment := align, runs := runs }, ?_, hinked⟩
    show (toInt (orElse (.int level) (.int 1)) >>= _) = _
    rw [hlevel]
    show (paragraphAlignment (optional textAlign) >>= _) = _
    rw [halign]
    rfl
  | _ => exact absurd h (by simp only [NodeType.name]; decide)

end Paragraphs

section Lists

variable (style : PyStr) (wrote : Bool) (content nodes : List EditorNode)

/--
What is written for an item depends on the types of its children alone.
-/
theorem itemBlocks_cons (type : NodeType)
    : itemBlocks env picture style wrote (jsonList (.branch type content :: nodes))
        = match type with
          | .paragraph _ | .heading _ _ => do
            let block ← paragraphBlock env picture (EditorNode.branch type content).toDict
              (if wrote then none else some style)
            let blocks ← itemBlocks env picture style true (jsonList nodes)
            pure (block :: blocks)
          | .bulletList => do
            let inner ← listBlocks env picture (py "List Bullet") (jsonList content)
            let blocks ← itemBlocks env picture style wrote (jsonList nodes)
            pure (inner ++ blocks)
          | .orderedList _ => do
            let inner ← listBlocks env picture (py "List Number") (jsonList content)
            let blocks ← itemBlocks env picture style wrote (jsonList nodes)
            pure (inner ++ blocks)
          | _ => itemBlocks env picture style wrote (jsonList nodes) := by
  have hnil : ∀ style, listBlocks env picture style [] = .ok [] := by
    intro style
    rw [listBlocks]
    rfl
  rw [jsonList, itemBlocks]
  rw [inSet_branch, isKind_branch, isKind_branch]
  cases type with
  | bulletList =>
    cases content with
    | nil =>
      rw [jsonList, hnil]
      rfl
    | cons node content => rfl
  | orderedList start =>
    cases content with
    | nil =>
      rw [jsonList, hnil (py "List Number")]
      rfl
    | cons node content => rfl
  | _ => rfl

theorem listBlocks_cons
    : listBlocks env picture style (jsonList (.branch .listItem content :: nodes))
        = (do
          let inner ← itemBlocks env picture style false (jsonList content)
          let blocks ← listBlocks env picture style (jsonList nodes)
          pure (inner ++ blocks)) := by
  rw [jsonList, listBlocks]
  rw [isKind_branch]
  cases content with
  | nil =>
    rw [jsonList, itemBlocks]
    rfl
  | cons node content => rfl

mutual

/--
An item of a list keeps its paragraphs, its headings and what its lists keep.
-/
theorem itemBlocks_parts (style : PyStr) (wrote : Bool) (nodes : List EditorNode)
    (hblocks : nodes.all EditorNode.isBlock = true) (hvalid : ValidList nodes)
    : ∃ blocks, itemBlocks env picture style wrote (jsonList nodes) = .ok blocks
        ∧ Parts (inked (textList nodes)) (inked (docxText blocks)) (inked (listLostList nodes)) := by
  cases nodes with
  | nil =>
    rw [jsonList, itemBlocks]
    cases wrote with
    | true => exact ⟨[], rfl, .whole _⟩
    | false => exact ⟨_, rfl, .whole _⟩
  | cons node nodes =>
    rw [List.all_cons, Bool.and_eq_true_iff] at hblocks
    cases node with
    | text _ _ => exact Bool.noConfusion hblocks.left
    | hardBreak => exact Bool.noConfusion hblocks.left
    | branch type content =>
      have ⟨hallows, hcontent⟩ := EditorNode.Valid.branch hvalid.left
      have ⟨rest, hrest, hparts⟩ := itemBlocks_parts style wrote nodes hblocks.right hvalid.right
      have hskip : Parts (inked (textList (.branch type content :: nodes))) (inked (docxText rest))
          (inked (textList content ++ listLostList nodes)) := by
        have := (Parts.none (inked (textList content))).append hparts
        simpa [textList, EditorNode.allText] using this
      have hlist : ∀ style', content.all EditorNode.isListItem = true →
          ∃ blocks, (do
              let inner ← listBlocks env picture style' (jsonList content)
              let blocks ← itemBlocks env picture style wrote (jsonList nodes)
              pure (inner ++ blocks)) = .ok blocks
            ∧ Parts (inked (textList (.branch type content :: nodes))) (inked (docxText blocks))
                (inked (listLostList content ++ listLostList nodes)) := by
        intro style' hitems
        have ⟨inner, hinner, hparts'⟩ := listBlocks_parts style' content hitems hcontent
        rw [hinner, hrest]
        refine ⟨inner ++ rest, rfl, ?_⟩
        have := hparts'.append hparts
        simpa [textList, EditorNode.allText] using this
      have hblock : type.name = py "paragraph" ∨ type.name = py "heading" →
          ∃ blocks, (do
              let block ← paragraphBlock env picture (EditorNode.branch type content).toDict
                (if wrote then none else some style)
              let blocks ← itemBlocks env picture style true (jsonList nodes)
              pure (block :: blocks)) = .ok blocks
            ∧ Parts (inked (textList (.branch type content :: nodes))) (inked (docxText blocks))
                (inked (listLostList nodes)) := by
        intro hname
        have ⟨block, hblock, hinked⟩ := paragraphBlock_inked env picture content
          (if wrote then none else some style) hname
        have ⟨rest, hrest, hparts⟩ := itemBlocks_parts style true nodes hblocks.right hvalid.right
        rw [hblock, hrest]
        refine ⟨block :: rest, rfl, ?_⟩
        have := (Parts.whole (inked (textList content))).append hparts
        simpa [textList, EditorNode.allText, docxText, hinked] using this
      rw [itemBlocks_cons, listLostList]
      cases type with
      | paragraph _ => exact hblock (.inl rfl)
      | heading _ _ => exact hblock (.inr rfl)
      | bulletList => exact hlist _ (Bool.and_eq_true_iff.mp hallows).right
      | orderedList _ => exact hlist _ (Bool.and_eq_true_iff.mp hallows).right
      | taskList => exact ⟨rest, hrest, hskip⟩
      | blockquote => exact ⟨rest, hrest, hskip⟩
      | table => exact ⟨rest, hrest, hskip⟩
      | _ => exact Bool.noConfusion hblocks.left
  termination_by sizeOf nodes

theorem listBlocks_parts (style : PyStr) (nodes : List EditorNode)
    (hitems : nodes.all EditorNode.isListItem = true) (hvalid : ValidList nodes)
    : ∃ blocks, listBlocks env picture style (jsonList nodes) = .ok blocks
        ∧ Parts (inked (textList nodes)) (inked (docxText blocks)) (inked (listLostList nodes)) := by
  cases nodes with
  | nil => exact ⟨[], by rw [jsonList, listBlocks]; rfl, .whole _⟩
  | cons node nodes =>
    rw [List.all_cons, Bool.and_eq_true_iff] at hitems
    have ⟨content, hnode⟩ := exists_listItem hitems.left
    subst hnode
    have ⟨hallows, hcontent⟩ := EditorNode.Valid.branch hvalid.left
    have ⟨inner, hinner, hparts⟩ :=
      itemBlocks_parts style false content (isBlock_of_isItemContent hallows) hcontent
    have ⟨rest, hrest, hparts'⟩ := listBlocks_parts style nodes hitems.right hvalid.right
    refine ⟨inner ++ rest, ?_, ?_⟩
    . rw [listBlocks_cons, hinner, hrest]
      rfl
    . have := hparts.append hparts'
      simpa [textList, EditorNode.allText, listLostList, EditorNode.listLost] using this
  termination_by sizeOf nodes

end

end Lists

section Loops

end Loops

section Tables

end Tables

section Document

end Document

end Rendering
