import Legalise.Rendering.Docx

/-!
This module contains the documents that the schema of the editor allows, their JSON and their text.
-/

namespace Rendering

open PyStr

section Nodes

inductive Mark where
  | bold
  | italic
  | underline
  | strike
  | code
  | highlight
  | link (attrs : Dict)
  | textStyle (color : Option PyStr)

/--
The types of the nodes with content, and their attributes.
-/
inductive NodeType where
  | paragraph (textAlign : Option PyStr)
  | heading (level : Nat) (textAlign : Option PyStr)
  | bulletList
  | orderedList (start : Nat)
  | listItem
  | taskList
  | taskItem (checked : Bool)
  | blockquote
  | table
  | tableRow
  | tableCell (attrs : Dict)
  | tableHeader (attrs : Dict)

inductive EditorNode where
  | text (s : PyStr) (marks : List Mark)
  | hardBreak
  | branch (type : NodeType) (content : List EditorNode)

end Nodes

section Schema

def NodeType.isBlock : NodeType → Bool
  | .paragraph _ | .heading _ _ | .bulletList | .orderedList _ | .taskList | .blockquote | .table => true
  | _ => false

namespace EditorNode

def isInline : EditorNode → Bool
  | .branch _ _ => false
  | _ => true

def isBlock : EditorNode → Bool
  | .branch type _ => type.isBlock
  | _ => false

def isParagraph : EditorNode → Bool
  | .branch (.paragraph _) _ => true
  | _ => false

def isListItem : EditorNode → Bool
  | .branch .listItem _ => true
  | _ => false

def isTaskItem : EditorNode → Bool
  | .branch (.taskItem _) _ => true
  | _ => false

def isTableRow : EditorNode → Bool
  | .branch .tableRow _ => true
  | _ => false

def isTableCell : EditorNode → Bool
  | .branch (.tableCell _) _ | .branch (.tableHeader _) _ => true
  | _ => false

end EditorNode

/--
The content `paragraph block*` of an item.
-/
def isItemContent : List EditorNode → Bool
  | [] => false
  | node :: nodes => node.isParagraph && nodes.all EditorNode.isBlock

/--
The content expressions of the schema.
-/
def NodeType.allows (type : NodeType) (content : List EditorNode) : Bool :=
  match type with
  | .paragraph _ | .heading _ _ => content.all EditorNode.isInline
  | .bulletList | .orderedList _ => !content.isEmpty && content.all EditorNode.isListItem
  | .taskList => !content.isEmpty && content.all EditorNode.isTaskItem
  | .listItem | .taskItem _ => isItemContent content
  | .blockquote | .tableCell _ | .tableHeader _ =>
    !content.isEmpty && content.all EditorNode.isBlock
  | .table => !content.isEmpty && content.all EditorNode.isTableRow
  | .tableRow => content.all EditorNode.isTableCell

mutual

def EditorNode.Valid : EditorNode → Prop
  | .branch type content => type.allows content = true ∧ ValidList content
  | _ => True

def ValidList : List EditorNode → Prop
  | [] => True
  | node :: nodes => node.Valid ∧ ValidList nodes

end

theorem EditorNode.Valid.branch {type : NodeType} {content : List EditorNode}
    (h : (EditorNode.branch type content).Valid) : type.allows content = true ∧ ValidList content := by
  unfold EditorNode.Valid at h
  exact h

theorem ValidList.mem {nodes : List EditorNode} (h : ValidList nodes) {node : EditorNode}
    (hmem : node ∈ nodes) : node.Valid := by
  induction nodes with
  | nil => contradiction
  | cons other nodes ih =>
    cases List.mem_cons.mp hmem with
    | inl heq => exact heq ▸ h.left
    | inr hrest => exact ih h.right hrest

theorem isBlock_of_isItemContent {nodes : List EditorNode} (h : isItemContent nodes = true)
    : nodes.all EditorNode.isBlock = true := by
  cases nodes with
  | nil => rfl
  | cons node nodes =>
    have ⟨hparagraph, hblocks⟩ := Bool.and_eq_true_iff.mp h
    have hblock : node.isBlock = true := by
      cases node with
      | branch type content => cases type <;> first | contradiction | rfl
      | _ => contradiction
    rw [List.all_cons, hblock, hblocks]
    rfl

theorem exists_listItem {node : EditorNode} (h : node.isListItem = true)
    : ∃ content, node = .branch .listItem content := by
  cases node with
  | branch type content => cases type <;> first | contradiction | exact ⟨content, rfl⟩
  | _ => contradiction

end Schema

section Text

mutual

/--
The texts of the text nodes, in document order.
-/
def EditorNode.allText : EditorNode → PyStr
  | .text s _ => s
  | .hardBreak => []
  | .branch _ content => textList content

def textList : List EditorNode → PyStr
  | [] => []
  | node :: nodes => node.allText ++ textList nodes

end

/--
What is written in front of the text of a node.
-/
def NodeType.marker : NodeType → PyStr
  | .taskItem checked => taskMarker checked
  | _ => []

mutual

/--
The texts with the marker of each task in front of it, as in a cell of a table.
-/
def EditorNode.markedText : EditorNode → PyStr
  | .text s _ => s
  | .hardBreak => []
  | .branch type content => type.marker ++ markedList content

def markedList : List EditorNode → PyStr
  | [] => []
  | node :: nodes => node.markedText ++ markedList nodes

end

end Text

section ToJson

def optional (value : Option PyStr) : Json :=
  match value with
  | some s => .str s
  | none => .null

def Mark.type : Mark → PyStr
  | .bold => py "bold"
  | .italic => py "italic"
  | .underline => py "underline"
  | .strike => py "strike"
  | .code => py "code"
  | .highlight => py "highlight"
  | .link _ => py "link"
  | .textStyle _ => py "textStyle"

def Mark.toDict (mark : Mark) : Dict :=
  (py "type", .str mark.type) ::
    match mark with
    | .link attrs => [(py "attrs", .dict attrs)]
    | .textStyle color => [(py "attrs", .dict [(py "color", optional color)])]
    | _ => []

def NodeType.name : NodeType → PyStr
  | .paragraph _ => py "paragraph"
  | .heading _ _ => py "heading"
  | .bulletList => py "bulletList"
  | .orderedList _ => py "orderedList"
  | .listItem => py "listItem"
  | .taskList => py "taskList"
  | .taskItem _ => py "taskItem"
  | .blockquote => py "blockquote"
  | .table => py "table"
  | .tableRow => py "tableRow"
  | .tableCell _ => py "tableCell"
  | .tableHeader _ => py "tableHeader"

/--
The attributes of a node, if its type has any.
-/
def NodeType.attrs : NodeType → Option Dict
  | .paragraph textAlign => some [(py "textAlign", optional textAlign)]
  | .heading level textAlign => some [(py "textAlign", optional textAlign), (py "level", .int level)]
  | .orderedList start => some [(py "start", .int start), (py "type", .null)]
  | .taskItem checked => some [(py "checked", .bool checked)]
  | .tableCell attrs => some attrs
  | .tableHeader attrs => some attrs
  | _ => none

def attrsItem (type : NodeType) : Dict :=
  match type.attrs with
  | some attrs => [(py "attrs", .dict attrs)]
  | none => []

/--
An item with a list, which is left out if the list is empty.
-/
def listEntry (key : PyStr) (items : List Json) : Dict :=
  if items.isEmpty then [] else [(key, .list items)]

mutual

def EditorNode.toDict : EditorNode → Dict
  | .text s marks =>
    [(py "type", .str (py "text"))] ++ listEntry (py "marks") (marks.map fun mark => .dict mark.toDict)
      ++ [(py "text", .str s)]
  | .hardBreak => [(py "type", .str (py "hardBreak"))]
  | .branch type content =>
    [(py "type", .str type.name)] ++ attrsItem type ++ listEntry (py "content") (jsonList content)

def jsonList : List EditorNode → List Json
  | [] => []
  | node :: nodes => .dict node.toDict :: jsonList nodes

end

end ToJson

end Rendering
