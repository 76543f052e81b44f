import Legalise.Rendering.Html

/-!
This module contains the rendering of the editor's JSON as a Word document, which is the sequence of
paragraphs and tables that are added to it.
-/

namespace Rendering

open PyStr

/--
A run of text. Formats that are not set are inherited.
-/
structure Run where
  text : PyStr
  bold : Option Bool := none
  italic : Option Bool := none
  underline : Option Bool := none
  highlight : Bool := false
  color : Option RGBColor := none
  deriving DecidableEq

inductive RunItem where
  | run (r : Run)
  | lineBreak
  | picture (bytes : Bytes)
  deriving DecidableEq

/--
A paragraph in a named style, or a heading of a level.
-/
structure Paragraph where
  style : Option PyStr := none
  level : Option Nat := none
  alignment : Option PyStr := none
  runs : List RunItem := []
  deriving DecidableEq

structure TableCell where
  text : PyStr
  bold : Bool
  deriving DecidableEq

inductive DocxBlock where
  | paragraph (p : Paragraph)
  | table (rows : List (List TableCell))
  | pageBreak
  deriving DecidableEq

section Comments

end Comments

section ResolvedText

end ResolvedText

variable (env : Env) (picture : Bytes → Bool)

section Inline

/--
`str(mark.get("type"))` of the marks that are dictionaries.
-/
def markTypes (marks : List Json) : List PyStr :=
  marks.filterMap fun mark =>
    match mark with
    | .dict mark => some ((Dict.get mark (py "type")).toStr env.R)
    | _ => none

/--
One round of the loop that sets the colour of a run.
-/
def markRunColor (color : Option RGBColor) (mark : Json) : Except RenderError (Option RGBColor) := do
  match mark with
  | .dict mark =>
    if isKind mark "textStyle" then
      let value ← nested mark (py "attrs") (py "color")
      match ← rgbFromHex value with
      | some rgb => pure (some rgb)
      | none => pure color
    else pure color
  | _ => pure color

def textRun (node : Dict) : Except RenderError RunItem := do
  let marks ← iterOrEmpty (node.get (py "marks"))
  let types := markTypes env marks
  let color ← marks.foldlM markRunColor none
  pure
    (.run
      { text := (orElse (node.get (py "text")) (.str [])).toStr env.R
        bold := some (types.contains (py "bold"))
        italic := some (types.contains (py "italic"))
        underline := some (types.contains (py "underline"))
        highlight := types.contains (py "highlight")
        color := color })

/--
The picture of an image, or its label in italics. A picture that is refused leaves an empty run behind.
-/
def imageRuns (node : Dict) : Except RenderError (List RunItem) := do
  let attrs := orElse (node.get (py "attrs")) (.dict [])
  let src ← imageSrc attrs
  let label ← imageLabel env node
  let placeholder : RunItem :=
    .run { text := py "[image: " ++ label ++ py "]", italic := some true }
  match ← documentAssetKeyFromSrc env.netlocOk src env.context with
  | none => pure [placeholder]
  | some key =>
    match env.storage key with
    | .unreadable => pure [placeholder]
    | .raised => .error .storageError
    | .data bytes =>
      if picture bytes then pure [.picture bytes] else pure [.run { text := [] }, placeholder]

mutual

/--
One round of the loop of `_add_tiptap_inline_content`.
-/
def nodeRuns (node : Dict) : Except RenderError (List RunItem) := do
  if isKind node "text" then
    let run ← textRun env node
    pure [run]
  else if isKind node "hardBreak" then pure [.lineBreak]
  else if isKind node "image" then imageRuns env picture node
  else
    match _h : node.get (py "content") with
    | .list items => nodesRuns items
    | _ => pure []
  termination_by sizeOf node
  decreasing_by exact sizeOf_lt_of_get _h

def nodesRuns (nodes : List Json) : Except RenderError (List RunItem) := do
  match nodes with
  | [] => pure []
  | .dict node :: rest =>
    let runs ← nodeRuns node
    let tail ← nodesRuns rest
    pure (runs ++ tail)
  | _ :: _ => .error .attributeError
  termination_by sizeOf nodes

end

/--
`_add_tiptap_inline_content`
-/
def inlineRuns (nodes : Json) : Except RenderError (List RunItem) := do
  let nodes ← iterOrEmpty nodes
  nodesRuns env picture nodes

end Inline

section Paragraphs

/--
`_paragraph_alignment`, where a value that cannot be hashed is refused.
-/
def paragraphAlignment (value : Json) : Except RenderError (Option PyStr) := do
  let known ← inSet (orElse value (.str [])) ["left", "center", "right"]
  pure (if known then str? value else none)

/--
`_add_tiptap_paragraph`
-/
def paragraphBlock (node : Dict) (style : Option PyStr) : Except RenderError DocxBlock := do
  if isKind node "heading" then
    let value ← nested node (py "attrs") (py "level")
    let level ← toInt (orElse value (.int 1))
    let align ← nested node (py "attrs") (py "textAlign")
    let alignment ← paragraphAlignment align
    let runs ← inlineRuns env picture (node.get (py "content"))
    pure (.paragraph { level := some (max 1 (min level 4)).toNat, alignment := alignment, runs := runs })
  else
    let align ← nested node (py "attrs") (py "textAlign")
    let alignment ← paragraphAlignment align
    let runs ← inlineRuns env picture (node.get (py "content"))
    pure (.paragraph { style := style, alignment := alignment, runs := runs })

mutual

/--
The loop of `_add_tiptap_list_item`, where `wrote` says whether a paragraph was written.
-/
def itemBlocks (style : PyStr) (wrote : Bool) (children : List Json)
    : Except RenderError (List DocxBlock) := do
  match children with
  | [] => pure (if wrote then [] else [.paragraph { style := some style }])
  | .dict child :: rest =>
    if ← inSet (Dict.get child (py "type")) ["paragraph", "heading"] then
      let block ← paragraphBlock env picture child (if wrote then none else some style)
      let blocks ← itemBlocks style true rest
      pure (block :: blocks)
    else if isKind child "bulletList" then
      let inner ←
        match _h : Dict.get child (py "content") with
        | .list items => listBlocks (py "List Bullet") items
        | value =>
          noDicts value
          pure []
      let blocks ← itemBlocks style wrote rest
      pure (inner ++ blocks)
    else if isKind child "orderedList" then
      let inner ←
        match _h : Dict.get child (py "content") with
        | .list items => listBlocks (py "List Number") items
        | value =>
          noDicts value
          pure []
      let blocks ← itemBlocks style wrote rest
      pure (inner ++ blocks)
    else itemBlocks style wrote rest
  | _ :: rest => itemBlocks style wrote rest
  termination_by sizeOf children
  decreasing_by
    all_goals simp_wf
    all_goals first
      | omega
      | have := sizeOf_lt_of_get _h
        omega

/--
The loop of `_add_tiptap_list`.
-/
def listBlocks (style : PyStr) (children : List Json) : Except RenderError (List DocxBlock) := do
  match children with
  | [] => pure []
  | .dict item :: rest =>
    if isKind item "listItem" then
      let inner ←
        match _h : Dict.get item (py "content") with
        | .list items => itemBlocks style false items
        | value =>
          noDicts value
          pure [.paragraph { style := some style }]
      let blocks ← listBlocks style rest
      pure (inner ++ blocks)
    else listBlocks style rest
  | _ :: rest => listBlocks style rest
  termination_by sizeOf children
  decreasing_by
    all_goals simp_wf
    all_goals first
      | omega
      | have := sizeOf_lt_of_get _h
        omega

end

end Paragraphs

section Tables

def tableCell (cell : Dict) : Except RenderError TableCell := do
  let text ← cellText env cell
  pure ⟨text, isKind cell "tableHeader"⟩

/--
A row of cells, filled up with empty ones.
-/
def tableRow (columns : Nat) (cells : List Dict) : Except RenderError (List TableCell) := do
  let cells ← (cells.take columns).mapM (tableCell env)
  pure (cells ++ List.replicate (columns - cells.length) ⟨[], false⟩)

end Tables

section Document

end Document

end Rendering
