import Legalise.Lib.Except
import Legalise.Postgres.Value
import Legalise.Rendering.Assets

/-!
This module contains the rendering of the editor's JSON as HTML.
-/

namespace Rendering

open PyStr Web

/--
What the renderers are run with: Python's `repr`, `str.lower` and the check of network locations, the
object storage, and the document whose assets may be read.
-/
structure Env where
  R : PyRepr
  lower : PyStr → PyStr
  netlocOk : PyStr → Bool
  storage : PyStr → StorageRead
  context : Option DocumentAssetContext

/--
An environment for concrete runs, in which nothing is stored.
-/
def emptyStorage : Env where
  R := .quoted
  lower := fun s => s
  netlocOk := fun _ => true
  storage := fun _ => .unreadable
  context := none

/--
A piece of HTML and the storage keys that were read for it.
-/
structure Html where
  text : PyStr
  reads : List PyStr
  deriving DecidableEq

namespace Html

/--
A piece of HTML that nothing was read for.
-/
def lit (text : PyStr) : Html := ⟨text, []⟩

def append (a b : Html) : Html := ⟨a.text ++ b.text, a.reads ++ b.reads⟩

/--
A piece of HTML between two literals.
-/
def between (before : PyStr) (a : Html) (after : PyStr) : Html :=
  ⟨before ++ a.text ++ after, a.reads⟩

end Html

theorem sizeOf_lt_of_get {node : Dict} {key : PyStr} {items : List Json}
    (h : node.get key = .list items) : sizeOf items < sizeOf node := by
  cases Dict.get_mem_or_null node key with
  | inl hnull =>
    rw [hnull] at h
    contradiction
  | inr hitem =>
    have ⟨item, hmem, hget⟩ := hitem
    have hlt := List.sizeOf_lt_of_mem hmem
    have hsnd : sizeOf item.snd < sizeOf item := by
      cases item
      simp only [Prod.mk.sizeOf_spec]
      omega
    have hitems : sizeOf items < sizeOf item.snd := by
      rw [← hget, h]
      simp only [Json.list.sizeOf_spec]
      omega
    omega

/--
`node.get("type") == kind`
-/
def isKind (node : Dict) (kind : String) : Bool :=
  (node.get (py "type")).pyEq (.str (py kind))

/--
`value in {...}` for a set of texts, which has to hash the value.
-/
def inSet (value : Json) (names : List String) : Except RenderError Bool :=
  match value with
  | .list _ => .error .typeError
  | .dict _ => .error .typeError
  | value => .ok (names.any fun name => value.pyEq (.str (py name)))

variable (env : Env)

section PlainText

/--
The truth of `(node.get("attrs") or {}).get("checked")`
-/
def checked (node : Dict) : Except RenderError Bool := do
  let value ← nested node (py "attrs") (py "checked")
  pure value.truthy

def taskMarker (checked : Bool) : PyStr :=
  if checked then py "[x] " else py "[ ] "

/--
`attrs.get("alt") or attrs.get("src") or "image"`
-/
def imageLabel (node : Dict) : Except RenderError PyStr := do
  let alt ← nested node (py "attrs") (py "alt")
  let src ← nested node (py "attrs") (py "src")
  pure ((orElse alt (orElse src (.str (py "image")))).toStr env.R)

/--
A loop over the dictionaries in `value or []`, for a value that is not a list, meets none.
-/
def noDicts (value : Json) : Except RenderError Unit :=
  match value with
  | .dict _ => .ok ()
  | .str _ => .ok ()
  | value => if value.truthy then .error .typeError else .ok ()

/--
The text of a node whose children have the given texts.
-/
def plainTextOf (node : Dict) (children : List PyStr) : Except RenderError PyStr := do
  if isKind node "taskItem" then
    let done ← checked node
    pure (taskMarker done ++ strip children.flatten ++ py "\n")
  else if ← inSet (node.get (py "type")) ["paragraph", "heading", "listItem"] then
    pure (children.flatten ++ py "\n")
  else if isKind node "tableRow" then pure (join (py "\t") (children.map strip))
  else pure children.flatten

mutual

/--
`_plain_text_from_tiptap_node`
-/
def plainText (node : Dict) : Except RenderError PyStr := do
  if isKind node "text" then pure ((orElse (node.get (py "text")) (.str [])).toStr env.R)
  else if isKind node "hardBreak" then pure (py "\n")
  else if isKind node "image" then
    let label ← imageLabel env node
    pure (py "[image: " ++ label ++ py "]\n")
  else
    match _h : node.get (py "content") with
    | .list items =>
      let children ← plainTexts items
      plainTextOf node children
    | value =>
      noDicts value
      plainTextOf node []
  termination_by sizeOf node
  decreasing_by exact sizeOf_lt_of_get _h

/--
The texts of the dictionaries in a list.
-/
def plainTexts (nodes : List Json) : Except RenderError (List PyStr) := do
  match nodes with
  | [] => pure []
  | .dict node :: rest =>
    let text ← plainText node
    let texts ← plainTexts rest
    pure (text :: texts)
  | _ :: rest => plainTexts rest
  termination_by sizeOf nodes

end

/--
`re.sub(r"\n{2,}", "\n", text)`, where `run` says whether the last character was a newline.
-/
def collapseNewlines : Bool → PyStr → PyStr
  | _, [] => []
  | run, c :: s =>
    if c = CodePoint.ofChar '\n' then
      if run then collapseNewlines true s else c :: collapseNewlines true s
    else c :: collapseNewlines false s

def cellText (cell : Dict) : Except RenderError PyStr := do
  let text ← plainText env cell
  pure (collapseNewlines false (strip text))

end PlainText

section Inline

/--
The values that a loop over `value or []` visits.
-/
def iterOrEmpty (value : Json) : Except RenderError (List Json) :=
  match (orElse value (.list [])).iter with
  | .ok items => .ok items
  | .error _ => .error .typeError

/--
`attrs.get("src") if isinstance(attrs.get("src"), str) else None`
-/
def imageSrc (attrs : Json) : Except RenderError (Option PyStr) := do
  let src ← getAttr attrs (py "src")
  pure (str? src)

def imageDataUri (attrs : Json) : Except RenderError (Option PyStr × List PyStr) := do
  let src ← imageSrc attrs
  match ← documentAssetKeyFromSrc env.netlocOk src env.context with
  | none => pure (none, [])
  | some key =>
    match env.storage key with
    | .unreadable => pure (none, [key])
    | .raised => .error .storageError
    | .data bytes =>
      let mimeType := mimeFromFilename env.lower (src.getD key)
      let encoded := Base64.encode Base64.standard bytes
      pure (some (py "data:" ++ mimeType ++ py ";base64," ++ encoded), [key])

def imageHtml (node : Dict) : Except RenderError Html := do
  let attrs := orElse (node.get (py "attrs")) (.dict [])
  let alt ← getAttr attrs (py "alt")
  let alt := escape ((orElse alt (.str (py "image"))).toStr env.R)
  let (dataUri, reads) ← imageDataUri env attrs
  match dataUri with
  | some uri => pure ⟨py "<img src=\"" ++ uri ++ py "\" alt=\"" ++ alt ++ py "\" />", reads⟩
  | none => pure ⟨py "<em class=\"image-placeholder\">[image: " ++ alt ++ py "]</em>", reads⟩

/--
One round of the loop over the marks of a text.
-/
def wrapMark (text : PyStr) (mark : Json) : Except RenderError PyStr := do
  match mark with
  | .dict mark =>
    if isKind mark "bold" then pure (py "<strong>" ++ text ++ py "</strong>")
    else if isKind mark "italic" then pure (py "<em>" ++ text ++ py "</em>")
    else if isKind mark "underline" then pure (py "<u>" ++ text ++ py "</u>")
    else if isKind mark "highlight" then pure (py "<mark>" ++ text ++ py "</mark>")
    else if isKind mark "textStyle" then
      let color ← nested mark (py "attrs") (py "color")
      match ← rgbFromHex color with
      | none => pure text
      | some _ =>
        pure (py "<span style=\"color:" ++ escape (color.toStr env.R) ++ py "\">" ++ text
          ++ py "</span>")
    else pure text
  | _ => pure text

def textHtml (node : Dict) : Except RenderError Html := do
  let text := escape ((orElse (node.get (py "text")) (.str [])).toStr env.R)
  let marks ← iterOrEmpty (node.get (py "marks"))
  let text ← marks.foldlM (wrapMark env) text
  pure (.lit text)

mutual

/--
One round of the loop of `_tiptap_inline_html`.
-/
def inlineNode (node : Dict) : Except RenderError Html := do
  if isKind node "text" then textHtml env node
  else if isKind node "hardBreak" then pure (.lit (py "<br/>"))
  else if isKind node "image" then imageHtml env node
  else
    match _h : node.get (py "content") with
    | .list items => inlineNodes items
    | _ => pure (.lit [])
  termination_by sizeOf node
  decreasing_by exact sizeOf_lt_of_get _h

def inlineNodes (nodes : List Json) : Except RenderError Html := do
  match nodes with
  | [] => pure (.lit [])
  | .dict node :: rest =>
    let html ← inlineNode node
    let tail ← inlineNodes rest
    pure (html.append tail)
  | _ :: _ => .error .attributeError
  termination_by sizeOf nodes

end

/--
`_tiptap_inline_html`
-/
def inlineHtml (nodes : Json) : Except RenderError Html := do
  let nodes ← iterOrEmpty nodes
  inlineNodes env nodes

end Inline

section Block

def htmlAttrs (attrs : List (PyStr × PyStr)) : PyStr :=
  let pairs := (attrs.filter fun attr => !attr.snd.isEmpty).map fun attr =>
    attr.fst ++ py "=\"" ++ escape attr.snd ++ py "\""
  if pairs.isEmpty then [] else py " " ++ join (py " ") pairs

/--
`attrs.get("textAlign") if attrs.get("textAlign") in {...} else None`
-/
def alignment (attrs : Json) : Except RenderError (Option PyStr) := do
  let value ← getAttr attrs (py "textAlign")
  let known ← inSet value ["left", "center", "right"]
  pure (if known then str? value else none)

def alignAttr (align : Option PyStr) : PyStr :=
  match align with
  | some align => htmlAttrs [(py "style", py "text-align:" ++ align)]
  | none => htmlAttrs []

def Html.concat (items : List Html) : Html :=
  items.foldr Html.append (.lit [])

/--
The items of a list, where anything else among its children is left out.
-/
def listItems (node : Dict) : Except RenderError Html := do
  let children ← iterOrEmpty (node.get (py "content"))
  let items ← children.mapM fun child => do
    match child with
    | .dict item =>
      if isKind item "listItem" then
        let html ← inlineHtml env (Dict.get item (py "content"))
        pure (html.between (py "<li>") (py "</li>"))
      else pure (.lit [])
    | _ => pure (.lit [])
  pure (Html.concat items)

def taskItems (node : Dict) : Except RenderError Html := do
  let children ← iterOrEmpty (node.get (py "content"))
  let items ← children.mapM fun child => do
    match child with
    | .dict item =>
      if isKind item "taskItem" then
        let done ← checked item
        let box := if done then py "x" else py " "
        let html ← inlineHtml env (Dict.get item (py "content"))
        pure (html.between (py "<li><span class=\"task-box\">[" ++ box ++ py "]</span> ") (py "</li>"))
      else pure (.lit [])
    | _ => pure (.lit [])
  pure (Html.concat items)

def tableCells (row : Dict) : Except RenderError Html := do
  let children ← iterOrEmpty (row.get (py "content"))
  let cells ← children.mapM fun child => do
    match child with
    | .dict cell =>
      let tag := if isKind cell "tableHeader" then py "th" else py "td"
      let text ← cellText env cell
      pure (.lit (py "<" ++ tag ++ py ">" ++ escape text ++ py "</" ++ tag ++ py ">"))
    | _ => pure (.lit [])
  pure (Html.concat cells)

def tableRows (node : Dict) : Except RenderError Html := do
  let children ← iterOrEmpty (node.get (py "content"))
  let rows ← children.mapM fun child => do
    match child with
    | .dict row =>
      if isKind row "tableRow" then
        let cells ← tableCells env row
        pure (cells.between (py "<tr>") (py "</tr>"))
      else pure (.lit [])
    | _ => pure (.lit [])
  pure (Html.concat rows)

/--
`_tiptap_block_html`
-/
def blockHtml (node : Dict) : Except RenderError Html := do
  let attrs := orElse (node.get (py "attrs")) (.dict [])
  let align ← alignment attrs
  if isKind node "paragraph" then
    let html ← inlineHtml env (node.get (py "content"))
    pure (html.between (py "<p" ++ alignAttr align ++ py ">") (py "</p>"))
  else if isKind node "heading" then
    let value ← getAttr attrs (py "level")
    let level ← toInt (orElse value (.int 2))
    let level := pyInt (max 1 (min level 4))
    let html ← inlineHtml env (node.get (py "content"))
    pure (html.between (py "<h" ++ level ++ alignAttr align ++ py ">") (py "</h" ++ level ++ py ">"))
  else if isKind node "bulletList" then
    let items ← listItems env node
    pure (items.between (py "<ul>") (py "</ul>"))
  else if isKind node "orderedList" then
    let items ← listItems env node
    pure (items.between (py "<ol>") (py "</ol>"))
  else if isKind node "taskList" then
    let items ← taskItems env node
    pure (items.between (py "<ul class=\"task-list\">") (py "</ul>"))
  else if isKind node "image" then
    let html ← inlineHtml env (.list [.dict node])
    pure (html.between (py "<figure>") (py "</figure>"))
  else if isKind node "table" then
    let rows ← tableRows env node
    pure (rows.between (py "<table>") (py "</table>"))
  else pure (.lit [])

end Block

section Page

/--
`re.split(r"\n{2,}", text)`, given the part before and how many newlines came after it.
-/
def splitParts : PyStr → Nat → PyStr → List PyStr
  | part, newlines, [] =>
    if 2 ≤ newlines then [part, []] else [part ++ List.replicate newlines (CodePoint.ofChar '\n')]
  | part, newlines, c :: s =>
    if c = CodePoint.ofChar '\n' then splitParts part (newlines + 1) s
    else if 2 ≤ newlines then part :: splitParts [c] 0 s
    else splitParts (part ++ List.replicate newlines (CodePoint.ofChar '\n') ++ [c]) 0 s

def fallbackHtml (text : PyStr) : Html :=
  .lit (((splitParts [] 0 text).filter fun part => !(strip part).isEmpty).flatMap fun part =>
    py "<p>" ++ escape part ++ py "</p>")

/--
The blocks of a document, where anything that is not a dictionary is left out.
-/
def blocksHtml (nodes : List Json) : Except RenderError Html := do
  let blocks ← nodes.mapM fun node =>
    match node with
    | .dict node => blockHtml env node
    | _ => pure (.lit [])
  pure (Html.concat blocks)

/--
`_render_tiptap_html_body`, where the JSON of a version may be missing.
-/
def renderHtmlBody (bodyJson : Option Dict) (fallbackText : PyStr) : Except RenderError Html :=
  match bodyJson with
  | none => pure (fallbackHtml fallbackText)
  | some bodyJson =>
    if isKind bodyJson "doc" then
      match bodyJson.get (py "content") with
      | .list nodes => blocksHtml env nodes
      | _ => pure (fallbackHtml fallbackText)
    else pure (fallbackHtml fallbackText)

structure DocumentVersion where
  versionNumber : Nat
  resolvedText : Option PyStr
  resolvedJson : Option Dict

structure DocumentComment where
  quoteText : Option PyStr
  body : PyStr
  status : PyStr
  createdAt : Timestamp
  resolvedAt : Option Timestamp

/--
`now.strftime("%Y-%m-%d %H:%M UTC")`
-/
def renderedAt (now : Timestamp) : PyStr :=
  pyNat now.year ++ py "-" ++ zfill 2 (pyNat now.month) ++ py "-" ++ zfill 2 (pyNat now.day) ++ py " "
    ++ zfill 2 (pyNat now.hour) ++ py ":" ++ zfill 2 (pyNat now.minute) ++ py " UTC"

def commentsHtml (comments : List DocumentComment) : PyStr :=
  comments.flatMap fun comment =>
    py "<li><strong>" ++ escape comment.status ++ py "</strong> " ++ escape comment.body ++ py "</li>"

def commentsSection (comments : List DocumentComment) : PyStr :=
  if (commentsHtml comments).isEmpty then []
  else
    py "<section><h2>Review notes</h2><ul>" ++ commentsHtml comments ++ py "</ul></section>"

def pageStyle : PyStr := py "<style>
  @page \x7b size: A4; margin: 22mm 18mm; \x7d
  body \x7b font-family: Inter, Helvetica, Arial, sans-serif; font-size: 11pt; line-height: 1.5; color: #1f2124; \x7d
  h1 \x7b font-size: 22pt; margin: 0 0 8pt; \x7d
  h2 \x7b font-size: 14pt; margin: 18pt 0 6pt; border-bottom: 1px solid #d4d4d4; padding-bottom: 4pt; \x7d
  h3 \x7b font-size: 12pt; margin: 14pt 0 5pt; \x7d
  .meta \x7b font-family: \"Courier New\", monospace; font-size: 9pt; color: #5d5e61; margin-bottom: 16pt; \x7d
  p \x7b margin: 0 0 9pt; \x7d
  mark \x7b background: #fff1a8; padding: 0 1pt; \x7d
  img \x7b max-width: 100%; height: auto; margin: 8pt 0; \x7d
  figure \x7b margin: 10pt 0; \x7d
  table \x7b border-collapse: collapse; width: 100%; margin: 10pt 0; font-size: 10pt; \x7d
  th, td \x7b border: 1px solid #d4d4d4; padding: 5pt 7pt; text-align: left; vertical-align: top; \x7d
  th \x7b background: #f3f3f3; font-weight: 600; \x7d
  ul, ol \x7b padding-left: 18pt; \x7d
  li \x7b margin-bottom: 5pt; \x7d
  .task-list \x7b list-style: none; padding-left: 0; \x7d
  .task-box \x7b font-family: \"Courier New\", monospace; color: #5d5e61; \x7d
  .image-placeholder \x7b color: #5d5e61; \x7d
  footer \x7b margin-top: 24pt; padding-top: 6pt; border-top: 1px solid #d4d4d4; font-family: \"Courier New\", monospace; font-size: 9pt; color: #5d5e61; \x7d
</style>
"

/--
The page around the body, with a title that is escaped already.
-/
def page (title version at' body comments : PyStr) : PyStr :=
  py "<!doctype html>\n<html lang=\"en\">\n<head>\n<meta charset=\"utf-8\" />\n<title>" ++ title
    ++ py " v" ++ version ++ py "</title>\n" ++ pageStyle ++ py "</head>\n<body>\n  <h1>" ++ title
    ++ py "</h1>\n  <div class=\"meta\">version: " ++ version ++ py " · rendered: " ++ at'
    ++ py "</div>\n  <main>" ++ body ++ py "</main>\n  " ++ comments
    ++ py "\n  <footer>Legalise document export · " ++ at' ++ py "</footer>\n</body>\n</html>"

/--
`_render_document_version_html`
-/
def renderDocumentVersionHtml (title : PyStr) (version : DocumentVersion)
    (comments : List DocumentComment) (now : Timestamp) : Except RenderError Html := do
  let body ← renderHtmlBody env version.resolvedJson (version.resolvedText.getD [])
  pure
    ⟨page (escape title) (pyNat version.versionNumber) (renderedAt now) body.text
      (commentsSection comments), body.reads⟩

end Page

end Rendering
