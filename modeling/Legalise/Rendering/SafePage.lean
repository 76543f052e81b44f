import Legalise.Rendering.RenderedColors

/-!
This module contains what a rendered page consists of, whatever is stored in the document.
-/

namespace Rendering

open PyStr Web

variable {env : Env}

def commentNode (comment : DocumentComment) : Node :=
  .elem (py "li") []
    [.elem (py "strong") [] [.text comment.status], .text (py " "), .text comment.body]

/--
The section below the body, if there are comments.
-/
def commentNodes (comments : List DocumentComment) : List Node :=
  if comments.isEmpty then []
  else
    [.elem (py "section") []
      [.elem (py "h2") [] [.text (py "Review notes")], .elem (py "ul") [] (comments.map commentNode)]]

/--
A page is the template around elements of the renderer's own, with every stored text escaped, and was
rendered from assets of its document.
-/
structure SafePage (env : Env) (title : PyStr) (version : DocumentVersion)
    (comments : List DocumentComment) (now : Timestamp) (html : Html) : Prop where
  markup : ∃ body, AllowedList body
    ∧ html.text = page (escape title) (pyNat version.versionNumber) (renderedAt now)
        (serializeList body) (serializeList (commentNodes comments))
  reads : ∀ key ∈ html.reads, ∃ context, env.context = some context ∧ UnderAssets context key

section Page

theorem serializeList_commentNodes (comments : List DocumentComment)
    : serializeList (commentNodes comments) = commentsSection comments := by
  have hcomments : ∀ comments : List DocumentComment,
      serializeList (comments.map commentNode) = commentsHtml comments := by
    intro comments
    induction comments with
    | nil => rfl
    | cons comment comments ih =>
      have hspace : escape (py " ") = py " " := by decide
      rw [List.map_cons, serializeList, ih]
      simp only [commentNode, commentsHtml, Node.serialize, serializeList, hspace, List.flatMap_cons]
      simp [attrsText, py]
  unfold commentNodes commentsSection
  rw [← hcomments]
  cases comments with
  | nil => rfl
  | cons comment comments =>
    have hne : (serializeList ((comment :: comments).map commentNode)).isEmpty = false := by
      simp [commentNode, Node.serialize, serializeList, py]
    have hnotes : escape (py "Review notes") = py "Review notes" := by decide
    rw [hne]
    simp only [List.isEmpty_cons, Bool.false_eq_true, if_false, Node.serialize, serializeList, hnotes]
    simp [attrsText, py]

theorem page_body_inj {title version rendered body body' comments : PyStr}
    (h : page title version rendered body comments = page title version rendered body' comments)
    : body = body' := by
  unfold page at h
  simp only [List.append_cancel_right_eq, List.append_cancel_left_eq] at h
  exact h

end Page

section Main

variable {title : PyStr} {version : DocumentVersion} {comments : List DocumentComment}
  {now : Timestamp} {html : Html}

theorem renderDocumentVersionHtml_eq_ok
    (h : renderDocumentVersionHtml env title version comments now = .ok html)
    : ∃ body, renderHtmlBody env version.resolvedJson (version.resolvedText.getD []) = .ok body
        ∧ html.text = page (escape title) (pyNat version.versionNumber) (renderedAt now) body.text
            (commentsSection comments)
        ∧ html.reads = body.reads := by
  unfold renderDocumentVersionHtml at h
  simp only [Except.bind_eq_ok_iff, Except.pure_eq_ok_iff] at h
  obtain ⟨body, hbody, hhtml⟩ := h
  rw [← hhtml]
  exact ⟨body, hbody, rfl, rfl⟩

theorem SafePage.of_hexColors (h : renderDocumentVersionHtml env title version comments now = .ok html)
    (hcolors : HexColors (bodyColors version.resolvedJson))
    : SafePage env title version comments now html := by
  have ⟨body, hbody, htext, hreads⟩ := renderDocumentVersionHtml_eq_ok h
  have hfragment := renderHtmlBody_fragment hbody hcolors
  have ⟨forest, hforest, heq⟩ := hfragment.markup
  constructor
  . refine ⟨forest, hforest, ?_⟩
    rw [htext, heq, serializeList_commentNodes]
  . rw [hreads]
    exact hfragment.reads

theorem SafePage.hexColors (h : renderDocumentVersionHtml env title version comments now = .ok html)
    (hsafe : SafePage env title version comments now html)
    : HexColors (bodyColors version.resolvedJson) := by
  have ⟨body, hbody, htext, _⟩ := renderDocumentVersionHtml_eq_ok h
  have ⟨forest, hforest, heq⟩ := hsafe.markup
  rw [htext, serializeList_commentNodes] at heq
  apply hexColors_of_markup ⟨forest, hforest, page_body_inj heq⟩ (renderHtmlBody_shows hbody)

/--
A page that is returned consists of the renderer's own elements exactly if every colour that it shows
and that was read as hexadecimal numbers has six hexadecimal digits.
-/
theorem safePage_iff (h : renderDocumentVersionHtml env title version comments now = .ok html)
    : SafePage env title version comments now html
        ↔
      HexColors (bodyColors version.resolvedJson) := by
  constructor
  . exact fun hsafe => hsafe.hexColors h
  . exact SafePage.of_hexColors h

end Main

section Runs

def coloredText (color : PyStr) : Dict :=
  [(py "type", .str (py "text")), (py "text", .str (py "a")),
    (py "marks", .list [.dict [(py "type", .str (py "textStyle")),
      (py "attrs", .dict [(py "color", .str color)])]])]

def coloredParagraph (color : PyStr) : Dict :=
  [(py "type", .str (py "paragraph")), (py "content", .list [.dict (coloredText color)])]

/--
A version whose document is one paragraph with a text in a colour.
-/
def coloredVersion (color : PyStr) : DocumentVersion where
  versionNumber := 1
  resolvedText := none
  resolvedJson := some
    [(py "type", .str (py "doc")), (py "content", .list [.dict (coloredParagraph color)])]

def newYear : Timestamp :=
  .newYear

theorem exists_render_colored {color : PyStr}
    (h : (textHtml emptyStorage (coloredText color)).toBool = true)
    : ∃ html, renderDocumentVersionHtml emptyStorage (py "a") (coloredVersion color) [] newYear
        = .ok html := by
  have ⟨text, htext⟩ : ∃ text, textHtml emptyStorage (coloredText color) = .ok text := by
    cases hcase : textHtml emptyStorage (coloredText color) with
    | error e =>
      rw [hcase] at h
      contradiction
    | ok text => exact ⟨text, rfl⟩
  have hnode : inlineNode emptyStorage (coloredText color) = .ok text := by
    have htype : isKind (coloredText color) "text" = true := rfl
    rw [inlineNode, if_pos htype, htext]
  have hinline : inlineHtml emptyStorage (Dict.get (coloredParagraph color) (py "content"))
      = .ok (text.append (.lit [])) := by
    show inlineNodes emptyStorage [.dict (coloredText color)] = _
    simp [inlineNodes, hnode]
  have hblock : blockHtml emptyStorage (coloredParagraph color)
      = .ok ((text.append (.lit [])).between (py "<p>") (py "</p>")) := by
    show (inlineHtml emptyStorage (Dict.get (coloredParagraph color) (py "content")) >>= _) = _
    rw [hinline]
    rfl
  have hbody : renderHtmlBody emptyStorage (coloredVersion color).resolvedJson []
      = .ok (Html.concat [(text.append (.lit [])).between (py "<p>") (py "</p>")]) := by
    show blocksHtml emptyStorage [.dict (coloredParagraph color)] = _
    simp [blocksHtml, hblock]
  unfold renderDocumentVersionHtml
  show ∃ html, (renderHtmlBody emptyStorage (coloredVersion color).resolvedJson [] >>= _) = .ok html
  rw [hbody]
  exact ⟨_, rfl⟩

theorem bodyColors_colored (color : PyStr)
    : bodyColors (coloredVersion color).resolvedJson = [color] := by
  show inlineListColors [.dict (coloredText color)] ++ [] = _
  have htype : isKind (coloredText color) "text" = true := rfl
  rw [inlineListColors, inlineColors, if_pos htype, inlineListColors]
  rfl

/--
A colour whose digits are written with signs gets into the page.
-/
theorem not_safePage_signedColor
    : ∃ html, renderDocumentVersionHtml emptyStorage (py "a") (coloredVersion (py "+f+f+f")) [] newYear
          = .ok html
        ∧ ¬ SafePage emptyStorage (py "a") (coloredVersion (py "+f+f+f")) [] newYear html := by
  have ⟨html, hhtml⟩ := @exists_render_colored (py "+f+f+f") (by decide +kernel)
  refine ⟨html, hhtml, ?_⟩
  intro hsafe
  have hcolors := hsafe.hexColors hhtml
  rw [bodyColors_colored] at hcolors
  have hhex := hcolors (py "+f+f+f") (by simp) (by decide +kernel)
  have hplus : CodePoint.ofChar '+' ∉ py "0123456789abcdefABCDEF" := by
    decide
  exact hplus (hhex.right _ (by decide +kernel))

theorem safePage_iff_redText
    : ∃ html, renderDocumentVersionHtml emptyStorage (py "a") (coloredVersion (py "#ff0000")) [] newYear
          = .ok html
        ∧ (SafePage emptyStorage (py "a") (coloredVersion (py "#ff0000")) [] newYear html
          ↔ HexColors (bodyColors (coloredVersion (py "#ff0000")).resolvedJson)) := by
  have ⟨html, hhtml⟩ := @exists_render_colored (py "#ff0000") (by decide +kernel)
  exact ⟨html, hhtml, safePage_iff hhtml⟩

end Runs

end Rendering
