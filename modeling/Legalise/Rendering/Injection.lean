import Legalise.Rendering.Markup

/-!
This module contains that the HTML renderer writes well-nested elements of its own and reads assets of
the rendered document only, provided that the colours it lets through are hexadecimal.
-/

namespace Rendering

open PyStr Web

variable {env : Env}

section Colors

/--
The items of a list, and of anything else none.
-/
def listOf : Json → List Json
  | .list items => items
  | _ => []

/--
The colour of a mark of the kind `textStyle`.
-/
def markColor : Json → Option PyStr
  | .dict mark =>
    if isKind mark "textStyle" then
      match nested mark (py "attrs") (py "color") with
      | .ok (.str color) => some color
      | _ => none
    else none
  | _ => none

def textColors (node : Dict) : List PyStr :=
  (listOf (node.get (py "marks"))).filterMap markColor

mutual

/--
The colours of the texts that a node is rendered with.
-/
def inlineColors (node : Dict) : List PyStr :=
  if isKind node "text" then textColors node
  else if isKind node "hardBreak" || isKind node "image" then []
  else
    match _h : node.get (py "content") with
    | .list items => inlineListColors items
    | _ => []
  termination_by sizeOf node
  decreasing_by exact sizeOf_lt_of_get _h

def inlineListColors (nodes : List Json) : List PyStr :=
  match nodes with
  | [] => []
  | .dict node :: rest => inlineColors node ++ inlineListColors rest
  | _ :: _ => []
  termination_by sizeOf nodes

end

def contentColors (node : Dict) : List PyStr :=
  inlineListColors (listOf (node.get (py "content")))

/--
The colours of the children of a kind.
-/
def itemColors (kind : String) (node : Dict) : List PyStr :=
  (listOf (node.get (py "content"))).flatMap fun child =>
    match child with
    | .dict item => if isKind item kind then contentColors item else []
    | _ => []

def blockColors (node : Dict) : List PyStr :=
  if isKind node "paragraph" || isKind node "heading" then contentColors node
  else if isKind node "bulletList" || isKind node "orderedList" then itemColors "listItem" node
  else if isKind node "taskList" then itemColors "taskItem" node
  else []

/--
The colours of the texts that the body of a page is rendered with.
-/
def bodyColors (bodyJson : Option Dict) : List PyStr :=
  match bodyJson with
  | none => []
  | some bodyJson =>
    if isKind bodyJson "doc" then
      (listOf (bodyJson.get (py "content"))).flatMap fun node =>
        match node with
        | .dict node => blockColors node
        | _ => []
    else []

/--
The colours of a list that the renderer lets through have six hexadecimal digits.
-/
def HexColors (colors : List PyStr) : Prop :=
  ∀ color ∈ colors, (rgbFromStr color).isSome = true → SixHex color

theorem HexColors.of_subset {a b : List PyStr} (h : HexColors b) (hsub : a ⊆ b) : HexColors a :=
  fun color hcolor => h color (hsub hcolor)

end Colors

section Markup

/--
Text that writes a list of trees of the renderer's own elements.
-/
def Markup (s : PyStr) : Prop :=
  ∃ forest, AllowedList forest ∧ s = serializeList forest

theorem Markup.nil : Markup [] := ⟨[], .nil, rfl⟩

theorem Markup.escape (s : PyStr) : Markup (escape s) :=
  ⟨[.text s], .cons (.text s) .nil, by simp [serializeList, Node.serialize]⟩

theorem Markup.append {a b : PyStr} (ha : Markup a) (hb : Markup b) : Markup (a ++ b) := by
  have ⟨f, hf, heqf⟩ := ha
  have ⟨g, hg, heqg⟩ := hb
  refine ⟨f ++ g, hf.append hg, ?_⟩
  rw [serializeList_append, heqf, heqg]

theorem Markup.elem {name : PyStr} {attrs : List (PyStr × PyStr)} {s : PyStr}
    (h : AllowedElement name attrs) (hs : Markup s)
    : Markup (py "<" ++ name ++ attrsText attrs ++ py ">" ++ s ++ py "</" ++ name ++ py ">") := by
  have ⟨forest, hforest, heq⟩ := hs
  refine ⟨[.elem name attrs forest], .cons (.elem h hforest) .nil, ?_⟩
  simp [serializeList, Node.serialize, heq]

theorem Markup.void {name : PyStr} {attrs : List (PyStr × PyStr)} (h : AllowedVoid name attrs)
    : Markup (py "<" ++ name ++ attrsText attrs ++ (if attrs.isEmpty then py "/>" else py " />")) :=
  ⟨[.void name attrs], .cons (.void h) .nil, by simp [serializeList, Node.serialize]⟩

/--
An element whose tags are given as they stand in the source.
-/
theorem Markup.tagged {name : PyStr} {attrs : List (PyStr × PyStr)} {opening closing s : PyStr}
    (h : AllowedElement name attrs) (hopening : opening = py "<" ++ name ++ attrsText attrs ++ py ">")
    (hclosing : closing = py "</" ++ name ++ py ">") (hs : Markup s)
    : Markup (opening ++ s ++ closing) := by
  have := Markup.elem h hs
  rw [hopening, hclosing]
  simpa using this

theorem Markup.plain (name : PyStr) {opening closing s : PyStr} (h : name ∈ plainTags)
    (hopening : opening = py "<" ++ name ++ py ">") (hclosing : closing = py "</" ++ name ++ py ">")
    (hs : Markup s) : Markup (opening ++ s ++ closing) := by
  apply Markup.tagged (.plain h) ?_ hclosing hs
  simpa [attrsText] using hopening

/--
A piece of HTML that only the assets of the rendered document were read for.
-/
structure Fragment (env : Env) (html : Html) : Prop where
  markup : Markup html.text
  reads : ∀ key ∈ html.reads, ∃ context, env.context = some context ∧ UnderAssets context key

theorem Fragment.lit {s : PyStr} (h : Markup s) : Fragment env (.lit s) :=
  ⟨h, by simp [Html.lit]⟩

theorem Fragment.append {a b : Html} (ha : Fragment env a) (hb : Fragment env b)
    : Fragment env (a.append b) := by
  refine ⟨ha.markup.append hb.markup, ?_⟩
  intro key hkey
  cases List.mem_append.mp hkey with
  | inl h => exact ha.reads key h
  | inr h => exact hb.reads key h

theorem Fragment.concat {items : List Html} (h : ∀ item ∈ items, Fragment env item)
    : Fragment env (Html.concat items) := by
  induction items with
  | nil => exact .lit .nil
  | cons item items ih =>
    apply Fragment.append (h item (by simp))
    exact ih fun other hother => h other (by simp [hother])

theorem Fragment.between {before after : PyStr} {html : Html} (h : Fragment env html)
    (hbetween : Markup html.text → Markup (before ++ html.text ++ after))
    : Fragment env (html.between before after) :=
  ⟨hbetween h.markup, h.reads⟩

end Markup

section Inline

theorem rgbFromHex_eq_some {value : Json} {rgb : RGBColor} (h : rgbFromHex value = .ok (some rgb))
    : ∃ s, value = .str s ∧ rgbFromStr s = some rgb := by
  unfold rgbFromHex at h
  split at h
  . split at h
    . next s _ =>
      injection h with h
      exact ⟨s, rfl, h⟩
    . contradiction
  . injection h; contradiction

theorem escape_color (color : PyStr)
    : py "<span style=\"color:" ++ escape color ++ py "\">"
        =
      py "<" ++ py "span" ++ attrsText [(py "style", py "color:" ++ color)] ++ py ">" := by
  have : escape (py "color:") = py "color:" := by
    decide
  simp only [attrsText, List.flatMap_cons, List.flatMap_nil, escape_append, this, List.append_nil]
  simp [py]

theorem wrapMark_markup {text out : PyStr} {mark : Json} (h : wrapMark env text mark = .ok out)
    (htext : Markup text)
    (hcolor : ∀ color, markColor mark = some color → (rgbFromStr color).isSome = true → SixHex color)
    : Markup out := by
  unfold wrapMark at h
  split at h
  . next mark =>
    split at h
    . rw [Except.pure_eq_ok_iff] at h
      rw [← h]
      exact .plain (py "strong") (by decide) rfl rfl htext
    split at h
    . rw [Except.pure_eq_ok_iff] at h
      rw [← h]
      exact .plain (py "em") (by decide) rfl rfl htext
    split at h
    . rw [Except.pure_eq_ok_iff] at h
      rw [← h]
      exact .plain (py "u") (by decide) rfl rfl htext
    split at h
    . rw [Except.pure_eq_ok_iff] at h
      rw [← h]
      exact .plain (py "mark") (by decide) rfl rfl htext
    split at h
    . next hstyle =>
      simp only [Except.bind_eq_ok_iff] at h
      obtain ⟨color, hget, rgb, hrgb, hout⟩ := h
      cases rgb with
      | none =>
        rw [Except.pure_eq_ok_iff] at hout
        rw [← hout]
        exact htext
      | some rgb =>
        rw [Except.pure_eq_ok_iff] at hout
        obtain ⟨s, hs, hsome⟩ := rgbFromHex_eq_some hrgb
        subst hs
        have hhex : SixHex s := by
          apply hcolor s
          . simp [markColor, hstyle, hget]
          . simp [hsome]
        rw [← hout]
        exact .tagged (.color hhex) (escape_color s) rfl htext
    . rw [Except.pure_eq_ok_iff] at h
      rw [← h]
      exact htext
  . rw [Except.pure_eq_ok_iff] at h
    rw [← h]
    exact htext

theorem foldlM_wrapMark_markup {marks : List Json} {text out : PyStr}
    (h : marks.foldlM (wrapMark env) text = .ok out) (htext : Markup text)
    (hcolors : HexColors (marks.filterMap markColor)) : Markup out := by
  induction marks generalizing text with
  | nil =>
    rw [List.foldlM_nil, Except.pure_eq_ok_iff] at h
    rw [← h]
    exact htext
  | cons mark marks ih =>
    rw [List.foldlM_cons, Except.bind_eq_ok_iff] at h
    have ⟨next, hnext, hrest⟩ := h
    have hmarkup : Markup next := by
      apply wrapMark_markup hnext htext
      intro color hcolor
      exact hcolors color (by simp [hcolor])
    apply ih hrest hmarkup
    apply hcolors.of_subset
    intro color hcolor
    have ⟨other, hother, heq⟩ := List.mem_filterMap.mp hcolor
    exact List.mem_filterMap.mpr ⟨other, by simp [hother], heq⟩

/--
What a loop visits beyond the items of a list are texts.
-/
theorem iterOrEmpty_eq_ok {value : Json} {items : List Json} (h : iterOrEmpty value = .ok items)
    : items = listOf value ∨ (listOf value = [] ∧ ∀ item ∈ items, ∃ s, item = .str s) := by
  unfold iterOrEmpty orElse at h
  split at h
  . next items' hiter =>
    injection h with h
    subst h
    split at hiter
    . next htruthy =>
      cases value with
      | list xs =>
        injection hiter with hiter
        exact .inl hiter.symm
      | dict entries =>
        injection hiter with hiter
        refine .inr ⟨rfl, ?_⟩
        intro item hitem
        rw [← hiter] at hitem
        have ⟨e, _, heq⟩ := List.mem_map.mp hitem
        exact ⟨e.fst, heq.symm⟩
      | str s =>
        injection hiter with hiter
        refine .inr ⟨rfl, ?_⟩
        intro item hitem
        rw [← hiter] at hitem
        have ⟨c, _, heq⟩ := List.mem_map.mp hitem
        exact ⟨[c], heq.symm⟩
      | _ => contradiction
    . next hfalsy =>
      injection hiter with hiter
      subst hiter
      cases value with
      | list xs =>
        cases xs with
        | nil => exact .inl rfl
        | cons => simp [Json.truthy] at hfalsy
      | _ => exact .inr ⟨rfl, by simp⟩
  . contradiction

theorem textHtml_fragment {node : Dict} {html : Html} (h : textHtml env node = .ok html)
    (hcolors : HexColors (textColors node)) : Fragment env html := by
  unfold textHtml at h
  simp only [Except.bind_eq_ok_iff, Except.pure_eq_ok_iff] at h
  obtain ⟨marks, hmarks, text, htext, hhtml⟩ := h
  rw [← hhtml]
  apply Fragment.lit
  apply foldlM_wrapMark_markup htext (.escape _)
  cases iterOrEmpty_eq_ok hmarks with
  | inl heq =>
    rw [heq]
    exact hcolors
  | inr hother =>
    intro color hcolor
    obtain ⟨mark, hmark, heq⟩ := List.mem_filterMap.mp hcolor
    obtain ⟨s, hs⟩ := hother.right mark hmark
    rw [hs] at heq
    contradiction

/--
The URIs of the renderer have no character that is escaped.
-/
theorem escape_dataUri {mimeType : PyStr} (h : mimeType ∈ knownMimeTypes) (bytes : Bytes)
    : escape (dataUri mimeType bytes) = dataUri mimeType bytes := by
  have hmimes : (knownMimeTypes.all fun m => m.all fun c => c ∉ entities.map Prod.fst) = true := by
    decide
  have hletters : ((Base64.standard ++ [Base64.padding]).all fun c => c ∉ entities.map Prod.fst)
      = true := by
    decide
  have hliterals : ((py "data:" ++ py ";base64,").all fun c => c ∉ entities.map Prod.fst) = true := by
    decide
  simp only [List.all_eq_true, decide_eq_true_eq] at hmimes hletters hliterals
  apply escape_eq_self
  intro c hc
  unfold dataUri at hc
  simp only [List.mem_append] at hc
  rcases hc with ((hc | hc) | hc) | hc
  . exact hliterals c (List.mem_append_left _ hc)
  . exact hmimes mimeType h c hc
  . exact hliterals c (List.mem_append_right _ hc)
  . apply hletters
    cases Base64.mem_of_mem_encode hc with
    | inl hpadding => simp [hpadding]
    | inr hletter => exact List.mem_append_left _ hletter

theorem mimeFromFilename_mem (lower : PyStr → PyStr) (filename : PyStr)
    : mimeFromFilename lower filename ∈ knownMimeTypes := by
  unfold mimeFromFilename knownMimeTypes
  cases hlookup : mimeTypes.lookup (lower (suffix filename)) with
  | none => exact List.mem_cons_self
  | some mimeType =>
    apply List.mem_cons_of_mem
    exact List.mem_map_of_mem (mem_of_lookup hlookup)

theorem imageDataUri_eq_ok {attrs : Json} {uri : Option PyStr} {reads : List PyStr}
    (h : imageDataUri env attrs = .ok (uri, reads))
    : (∀ u, uri = some u → ∃ mimeType ∈ knownMimeTypes, ∃ bytes, u = dataUri mimeType bytes)
        ∧ ∀ key ∈ reads, ∃ context, env.context = some context ∧ UnderAssets context key := by
  unfold imageDataUri at h
  simp only [Except.bind_eq_ok_iff] at h
  obtain ⟨src, hsrc, key, hkey, hread⟩ := h
  cases key with
  | none =>
    rw [Except.pure_eq_ok_iff, Prod.mk.injEq] at hread
    simp [← hread.left, ← hread.right]
  | some key =>
    have hunder := underAssets_of_src hkey
    dsimp only at hread
    split at hread
    . rw [Except.pure_eq_ok_iff, Prod.mk.injEq] at hread
      simpa [← hread.left, ← hread.right] using hunder
    . contradiction
    . next bytes _ =>
      rw [Except.pure_eq_ok_iff, Prod.mk.injEq] at hread
      rw [← hread.left, ← hread.right]
      constructor
      . intro u hu
        injection hu with hu
        exact ⟨_, mimeFromFilename_mem _ _, bytes, hu.symm⟩
      . intro other hother
        rw [List.mem_singleton.mp hother]
        exact hunder

theorem imageHtml_fragment {node : Dict} {html : Html} (h : imageHtml env node = .ok html)
    : Fragment env html := by
  unfold imageHtml at h
  simp only [Except.bind_eq_ok_iff] at h
  obtain ⟨alt, _, ⟨uri, reads⟩, huri, hhtml⟩ := h
  obtain ⟨hdata, hreads⟩ := imageDataUri_eq_ok huri
  generalize (orElse alt (.str (py "image"))).toStr env.R = label at hhtml
  cases uri with
  | none =>
    rw [Except.pure_eq_ok_iff] at hhtml
    rw [← hhtml]
    refine ⟨?_, hreads⟩
    have htext : escape (py "[image: " ++ label ++ py "]")
        = py "[image: " ++ escape label ++ py "]" := by
      simp only [escape_append]
      rfl
    have : Markup (py "<em class=\"image-placeholder\">" ++ escape (py "[image: " ++ label ++ py "]")
        ++ py "</em>") := .tagged .placeholder rfl rfl (.escape _)
    rw [htext] at this
    simpa [py] using this
  | some uri =>
    obtain ⟨mimeType, hmime, bytes, heq⟩ := hdata uri rfl
    rw [Except.pure_eq_ok_iff] at hhtml
    rw [← hhtml]
    refine ⟨?_, hreads⟩
    have := Markup.void (.img hmime bytes label)
    rw [heq]
    simpa [attrsText, escape_dataUri hmime, py] using this

mutual

theorem inlineNode_fragment {node : Dict} {html : Html} (h : inlineNode env node = .ok html)
    (hcolors : HexColors (inlineColors node)) : Fragment env html := by
  rw [inlineNode] at h
  rw [inlineColors] at hcolors
  split at h
  . next htext =>
    rw [if_pos htext] at hcolors
    exact textHtml_fragment h hcolors
  next htext =>
  rw [if_neg htext] at hcolors
  split at h
  . rw [Except.pure_eq_ok_iff] at h
    rw [← h]
    exact .lit (.void .br)
  next hbreak =>
  split at h
  . exact imageHtml_fragment h
  next himage =>
  rw [if_neg (by simp [hbreak, himage])] at hcolors
  split at h
  . next items hitems =>
    have := sizeOf_lt_of_get hitems
    apply inlineNodes_fragment h
    rw [hitems] at hcolors
    exact hcolors
  . rw [Except.pure_eq_ok_iff] at h
    rw [← h]
    exact .lit .nil
  termination_by sizeOf node

theorem inlineNodes_fragment {nodes : List Json} {html : Html} (h : inlineNodes env nodes = .ok html)
    (hcolors : HexColors (inlineListColors nodes)) : Fragment env html := by
  match nodes with
  | [] =>
    rw [inlineNodes, Except.pure_eq_ok_iff] at h
    rw [← h]
    exact .lit .nil
  | .dict node :: rest =>
    rw [inlineNodes] at h
    rw [inlineListColors] at hcolors
    simp only [Except.bind_eq_ok_iff, Except.pure_eq_ok_iff] at h
    have ⟨first, hfirst, tail, htail, hhtml⟩ := h
    rw [← hhtml]
    apply Fragment.append
    . exact inlineNode_fragment hfirst (hcolors.of_subset (List.subset_append_left _ _))
    . exact inlineNodes_fragment htail (hcolors.of_subset (List.subset_append_right _ _))
  | .null :: _ | .bool _ :: _ | .int _ :: _ | .float _ :: _ | .str _ :: _ | .list _ :: _ =>
    simp [inlineNodes] at h
  termination_by sizeOf nodes

end

theorem inlineHtml_fragment {value : Json} {html : Html} (h : inlineHtml env value = .ok html)
    (hcolors : HexColors (inlineListColors (listOf value))) : Fragment env html := by
  unfold inlineHtml at h
  rw [Except.bind_eq_ok_iff] at h
  have ⟨nodes, hnodes, hhtml⟩ := h
  cases iterOrEmpty_eq_ok hnodes with
  | inl heq =>
    rw [heq] at hhtml
    exact inlineNodes_fragment hhtml hcolors
  | inr hother =>
    cases nodes with
    | nil => exact inlineNodes_fragment hhtml (by simp [inlineListColors, HexColors])
    | cons node rest =>
      have ⟨s, hs⟩ := hother.right node (by simp)
      rw [hs] at hhtml
      simp [inlineNodes] at hhtml

end Inline

section Block

theorem isKind_of_ne {node : Dict} {kind other : String} (h : isKind node kind = true)
    (hne : py other ≠ py kind) : isKind node other = false := by
  unfold isKind at h ⊢
  rw [(Json.pyEq_str_iff _ _).mp h, Bool.eq_false_iff]
  intro heq
  injection (Json.pyEq_str_iff _ _).mp heq with heq
  exact hne heq.symm

theorem concat_mapM_fragment {f : Json → Except RenderError Html} {children : List Json}
    {items : List Html} (h : children.mapM f = .ok items)
    (hf : ∀ child ∈ children, ∀ html, f child = .ok html → Fragment env html)
    : Fragment env (Html.concat items) := by
  rw [Except.mapM_eq_ok_iff] at h
  apply Fragment.concat
  induction h with
  | nil => simp
  | cons hfirst _ ih =>
    intro item hitem
    cases List.mem_cons.mp hitem with
    | inl heq => exact heq ▸ hf _ (by simp) _ hfirst
    | inr hrest => exact ih (fun child hchild => hf child (by simp [hchild])) item hrest

/--
The colours of an item that a loop visits are colours of the node.
-/
theorem contentColors_subset_itemColors {node item : Dict} {kind : String} {children : List Json}
    (h : iterOrEmpty (node.get (py "content")) = .ok children) (hitem : Json.dict item ∈ children)
    (hkind : isKind item kind = true) : contentColors item ⊆ itemColors kind node := by
  have hlist : Json.dict item ∈ listOf (node.get (py "content")) := by
    cases iterOrEmpty_eq_ok h with
    | inl heq => rwa [← heq]
    | inr hother =>
      have ⟨s, hs⟩ := hother.right _ hitem
      contradiction
  intro color hcolor
  apply List.mem_flatMap.mpr
  refine ⟨.dict item, hlist, ?_⟩
  simpa [hkind] using hcolor

theorem listItems_fragment {node : Dict} {html : Html} (h : listItems env node = .ok html)
    (hcolors : HexColors (itemColors "listItem" node)) : Fragment env html := by
  unfold listItems at h
  simp only [Except.bind_eq_ok_iff, Except.pure_eq_ok_iff] at h
  have ⟨children, hchildren, items, hitems, hhtml⟩ := h
  rw [← hhtml]
  apply concat_mapM_fragment hitems
  intro child hchild out hout
  split at hout
  . next item =>
    split at hout
    . next hkind =>
      simp only [Except.bind_eq_ok_iff, Except.pure_eq_ok_iff] at hout
      have ⟨inner, hinner, heq⟩ := hout
      rw [← heq]
      have hsub := contentColors_subset_itemColors hchildren hchild hkind
      apply Fragment.between (inlineHtml_fragment hinner (hcolors.of_subset hsub))
      exact .plain (py "li") (by decide) rfl rfl
    . rw [Except.pure_eq_ok_iff] at hout
      rw [← hout]
      exact .lit .nil
  . rw [Except.pure_eq_ok_iff] at hout
    rw [← hout]
    exact .lit .nil

theorem taskBox_markup (done : Bool)
    : Markup (py "<span class=\"task-box\">[" ++ (if done then py "x" else py " ") ++ py "]</span> ") := by
  have hbox : Markup (py "<span class=\"task-box\">"
      ++ escape (py "[" ++ (if done then py "x" else py " ") ++ py "]") ++ py "</span>") :=
    .tagged .taskBox rfl rfl (.escape _)
  have := hbox.append (.escape (py " "))
  cases done <;> exact this

theorem taskItems_fragment {node : Dict} {html : Html} (h : taskItems env node = .ok html)
    (hcolors : HexColors (itemColors "taskItem" node)) : Fragment env html := by
  unfold taskItems at h
  simp only [Except.bind_eq_ok_iff, Except.pure_eq_ok_iff] at h
  have ⟨children, hchildren, items, hitems, hhtml⟩ := h
  rw [← hhtml]
  apply concat_mapM_fragment hitems
  intro child hchild out hout
  split at hout
  . next item =>
    split at hout
    . next hkind =>
      simp only [Except.bind_eq_ok_iff, Except.pure_eq_ok_iff] at hout
      have ⟨done, _, inner, hinner, heq⟩ := hout
      rw [← heq]
      have hsub := contentColors_subset_itemColors hchildren hchild hkind
      apply Fragment.between (inlineHtml_fragment hinner (hcolors.of_subset hsub))
      intro hmarkup
      have : Markup (py "<li>" ++ (py "<span class=\"task-box\">[" ++ (if done then py "x" else py " ")
          ++ py "]</span> " ++ inner.text) ++ py "</li>") :=
        .plain (py "li") (by decide) rfl rfl ((taskBox_markup done).append hmarkup)
      simpa [py] using this
    . rw [Except.pure_eq_ok_iff] at hout
      rw [← hout]
      exact .lit .nil
  . rw [Except.pure_eq_ok_iff] at hout
    rw [← hout]
    exact .lit .nil

theorem tableCells_fragment {row : Dict} {html : Html} (h : tableCells env row = .ok html)
    : Fragment env html := by
  unfold tableCells at h
  simp only [Except.bind_eq_ok_iff, Except.pure_eq_ok_iff] at h
  have ⟨children, _, cells, hcells, hhtml⟩ := h
  rw [← hhtml]
  apply concat_mapM_fragment hcells
  intro child hchild out hout
  split at hout
  . next cell =>
    simp only [Except.bind_eq_ok_iff, Except.pure_eq_ok_iff] at hout
    have ⟨text, _, heq⟩ := hout
    rw [← heq]
    apply Fragment.lit
    have htag : (if isKind cell "tableHeader" then py "th" else py "td") ∈ plainTags := by
      split <;> decide
    have := Markup.plain _ htag rfl rfl (.escape text)
    simpa using this
  . rw [Except.pure_eq_ok_iff] at hout
    rw [← hout]
    exact .lit .nil

theorem tableRows_fragment {node : Dict} {html : Html} (h : tableRows env node = .ok html)
    : Fragment env html := by
  unfold tableRows at h
  simp only [Except.bind_eq_ok_iff, Except.pure_eq_ok_iff] at h
  have ⟨children, _, rows, hrows, hhtml⟩ := h
  rw [← hhtml]
  apply concat_mapM_fragment hrows
  intro child _ out hout
  split at hout
  . split at hout
    . simp only [Except.bind_eq_ok_iff, Except.pure_eq_ok_iff] at hout
      have ⟨cells, hcells, heq⟩ := hout
      rw [← heq]
      apply Fragment.between (tableCells_fragment hcells)
      exact .plain (py "tr") (by decide) rfl rfl
    . rw [Except.pure_eq_ok_iff] at hout
      rw [← hout]
      exact .lit .nil
  . rw [Except.pure_eq_ok_iff] at hout
    rw [← hout]
    exact .lit .nil

theorem inSet_eq_true {value : Json} {names : List String} (h : inSet value names = .ok true)
    : ∃ name ∈ names, value = .str (py name) := by
  unfold inSet at h
  split at h
  . contradiction
  . contradiction
  . injection h with h
    obtain ⟨name, hname, heq⟩ := List.any_eq_true.mp h
    exact ⟨name, hname, (Json.pyEq_str_iff _ _).mp heq⟩

theorem alignment_eq_ok {attrs : Json} {align : Option PyStr} (h : alignment attrs = .ok align)
    : align = none ∨ ∃ a ∈ [py "left", py "center", py "right"], align = some a := by
  unfold alignment at h
  simp only [Except.bind_eq_ok_iff, Except.pure_eq_ok_iff] at h
  have ⟨value, _, known, hknown, heq⟩ := h
  cases known with
  | false => exact .inl heq.symm
  | true =>
    have ⟨name, hname, hvalue⟩ := inSet_eq_true hknown
    refine .inr ⟨py name, ?_, ?_⟩
    . exact List.mem_map_of_mem (f := py) hname
    . rw [← heq, hvalue]
      rfl

theorem Markup.aligned (name : PyStr) {s : PyStr} {align : Option PyStr} (hname : name ∈ alignedTags)
    (halign : align = none ∨ ∃ a ∈ [py "left", py "center", py "right"], align = some a)
    (hs : Markup s)
    : Markup (py "<" ++ name ++ alignAttr align ++ py ">" ++ s ++ py "</" ++ name ++ py ">") := by
  have hplain : ∀ name ∈ alignedTags, name ∈ plainTags := by
    intro name hmem
    exact List.mem_of_mem_take (i := 5) hmem
  cases halign with
  | inl hnone =>
    rw [hnone]
    exact Markup.elem (.plain (hplain name hname)) hs
  | inr hsome =>
    have ⟨a, ha, heq⟩ := hsome
    have hattr : alignAttr (some a) = attrsText [(py "style", py "text-align:" ++ a)] := by
      simp [alignAttr, htmlAttrs, attrsText, join, py]
    rw [heq, hattr]
    exact Markup.elem (.aligned hname ha) hs

theorem headingTag_mem (n : Int) : py "h" ++ pyInt (max 1 (min n 4)) ∈ alignedTags := by
  have hlevels : ∀ k ∈ [(1 : Int), 2, 3, 4], py "h" ++ pyInt k ∈ alignedTags := by
    decide
  have hmem : max 1 (min n 4) ∈ [(1 : Int), 2, 3, 4] := by
    simp only [List.mem_cons, List.not_mem_nil, or_false]
    omega
  exact hlevels _ hmem

theorem blockHtml_fragment {node : Dict} {html : Html} (h : blockHtml env node = .ok html)
    (hcolors : HexColors (blockColors node)) : Fragment env html := by
  unfold blockHtml at h
  unfold blockColors at hcolors
  rw [Except.bind_eq_ok_iff] at h
  obtain ⟨align, halign, hblock⟩ := h
  have halign := alignment_eq_ok halign
  split at hblock
  . next hkind =>
    simp only [Except.bind_eq_ok_iff, Except.pure_eq_ok_iff] at hblock
    obtain ⟨inner, hinner, heq⟩ := hblock
    rw [if_pos (by simp [hkind])] at hcolors
    rw [← heq]
    apply Fragment.between (inlineHtml_fragment hinner hcolors)
    intro hmarkup
    have := Markup.aligned (py "p") (by decide) halign hmarkup
    simpa [py] using this
  next hparagraph =>
  split at hblock
  . next hkind =>
    simp only [Except.bind_eq_ok_iff, Except.pure_eq_ok_iff] at hblock
    obtain ⟨value, _, level, _, inner, hinner, heq⟩ := hblock
    rw [if_pos (by simp [hkind])] at hcolors
    rw [← heq]
    apply Fragment.between (inlineHtml_fragment hinner hcolors)
    intro hmarkup
    have := Markup.aligned _ (headingTag_mem level) halign hmarkup
    simpa [py] using this
  next hheading =>
  rw [if_neg (by simp [hparagraph, hheading])] at hcolors
  split at hblock
  . next hkind =>
    simp only [Except.bind_eq_ok_iff, Except.pure_eq_ok_iff] at hblock
    obtain ⟨items, hitems, heq⟩ := hblock
    rw [if_pos (by simp [hkind])] at hcolors
    rw [← heq]
    apply Fragment.between (listItems_fragment hitems hcolors)
    exact .plain (py "ul") (by decide) rfl rfl
  next hbullet =>
  split at hblock
  . next hkind =>
    simp only [Except.bind_eq_ok_iff, Except.pure_eq_ok_iff] at hblock
    obtain ⟨items, hitems, heq⟩ := hblock
    rw [if_pos (by simp [hkind])] at hcolors
    rw [← heq]
    apply Fragment.between (listItems_fragment hitems hcolors)
    exact .plain (py "ol") (by decide) rfl rfl
  next hordered =>
  rw [if_neg (by simp [hbullet, hordered])] at hcolors
  split at hblock
  . next hkind =>
    simp only [Except.bind_eq_ok_iff, Except.pure_eq_ok_iff] at hblock
    obtain ⟨items, hitems, heq⟩ := hblock
    rw [if_pos hkind] at hcolors
    rw [← heq]
    apply Fragment.between (taskItems_fragment hitems hcolors)
    exact .tagged .taskList rfl rfl
  split at hblock
  . next himage =>
    simp only [Except.bind_eq_ok_iff, Except.pure_eq_ok_iff] at hblock
    obtain ⟨inner, hinner, heq⟩ := hblock
    rw [← heq]
    have hnone : inlineListColors (listOf (.list [.dict node])) = [] := by
      have htext : isKind node "text" = false := isKind_of_ne himage (by decide)
      simp [listOf, inlineListColors, inlineColors, htext, himage]
    apply Fragment.between (inlineHtml_fragment hinner (by rw [hnone]; simp [HexColors]))
    exact .plain (py "figure") (by decide) rfl rfl
  split at hblock
  . simp only [Except.bind_eq_ok_iff, Except.pure_eq_ok_iff] at hblock
    obtain ⟨rows, hrows, heq⟩ := hblock
    rw [← heq]
    apply Fragment.between (tableRows_fragment hrows)
    exact .plain (py "table") (by decide) rfl rfl
  . rw [Except.pure_eq_ok_iff] at hblock
    rw [← hblock]
    exact .lit .nil

theorem fallbackHtml_fragment (text : PyStr) : Fragment env (fallbackHtml text) := by
  apply Fragment.lit
  induction (splitParts [] 0 text).filter fun part => !(strip part).isEmpty with
  | nil => exact .nil
  | cons part parts ih =>
    rw [List.flatMap_cons]
    exact (Markup.plain (py "p") (by decide) rfl rfl (.escape part)).append ih

theorem renderHtmlBody_fragment {bodyJson : Option Dict} {fallbackText : PyStr} {html : Html}
    (h : renderHtmlBody env bodyJson fallbackText = .ok html) (hcolors : HexColors (bodyColors bodyJson))
    : Fragment env html := by
  unfold renderHtmlBody at h
  unfold bodyColors at hcolors
  split at h
  . rw [Except.pure_eq_ok_iff] at h
    rw [← h]
    exact fallbackHtml_fragment _
  next bodyJson =>
  dsimp only at hcolors
  split at h
  . next hdoc =>
    rw [if_pos hdoc] at hcolors
    split at h
    . next nodes hnodes =>
      unfold blocksHtml at h
      simp only [Except.bind_eq_ok_iff, Except.pure_eq_ok_iff] at h
      have ⟨blocks, hblocks, hhtml⟩ := h
      rw [← hhtml]
      apply concat_mapM_fragment hblocks
      intro child hchild out hout
      split at hout
      . next node =>
        apply blockHtml_fragment hout
        apply hcolors.of_subset
        intro color hcolor
        rw [hnodes]
        exact List.mem_flatMap.mpr ⟨.dict node, hchild, hcolor⟩
      . rw [Except.pure_eq_ok_iff] at hout
        rw [← hout]
        exact .lit .nil
    . rw [Except.pure_eq_ok_iff] at h
      rw [← h]
      exact fallbackHtml_fragment _
  . rw [Except.pure_eq_ok_iff] at h
    rw [← h]
    exact fallbackHtml_fragment _

end Block

end Rendering
