import Legalise.Rendering.Injection

/-!
This module contains where a colour stands in the rendered HTML: behind the one opening tag that a
colour is written into.
-/

namespace Rendering

open PyStr Web

variable {env : Env}

/--
The start of the tag that a colour is written into.
-/
def spanStyle : PyStr := py "<span style=\"color:"

def colorTag (color : PyStr) : PyStr :=
  spanStyle ++ escape color ++ py "\">"

section Strict

/--
After every start of a colour tag there is a colour of six hexadecimal digits up to the next quotation
mark.
-/
def StrictColors (s : PyStr) : Prop :=
  ∀ before after, s = before ++ spanStyle ++ after →
    ∃ color rest, SixHex color ∧ after = escape color ++ py "\"" ++ rest

def lessThan : CodePoint := CodePoint.ofChar '<'

theorem StrictColors.nil : StrictColors [] := by
  intro before after h
  simp [spanStyle, py] at h

/--
A tag cannot start inside of a text without a less-than sign.
-/
theorem StrictColors.text_append {a b : PyStr} (ha : lessThan ∉ a) (hb : StrictColors b)
    : StrictColors (a ++ b) := by
  intro before after h
  rw [List.append_assoc] at h
  cases List.append_eq_append_iff.mp h with
  | inl hsplit =>
    have ⟨middle, hbefore, hrest⟩ := hsplit
    exact hb middle after (by rw [hrest, List.append_assoc])
  | inr hsplit =>
    have ⟨middle, hsub, hrest⟩ := hsplit
    cases middle with
    | nil => exact hb [] after (by simpa using hrest.symm)
    | cons c middle =>
      have hc : c = lessThan := by
        have := congrArg List.head? hrest
        simpa [spanStyle, py, lessThan] using this.symm
      exact absurd (by rw [hsub, hc]; simp) ha

/--
A tag starts either at the less-than sign or after the text behind it.
-/
theorem StrictColors.tag_append {a b : PyStr} (ha : lessThan ∉ a) (hb : StrictColors b)
    (hstart : ∀ after, lessThan :: a ++ b = spanStyle ++ after →
      ∃ color rest, SixHex color ∧ after = escape color ++ py "\"" ++ rest)
    : StrictColors (lessThan :: a ++ b) := by
  intro before after h
  cases before with
  | nil => exact hstart after h
  | cons c before =>
    simp only [List.cons_append, List.cons.injEq] at h
    exact hb.text_append ha before after h.right

/--
A tag that differs from the colour tag in its first characters does not start one.
-/
theorem ne_spanStyle (start : PyStr) {a after : PyStr} (hlength : start.length ≤ spanStyle.length)
    (hne : start.isPrefixOf spanStyle = false) : start ++ a ≠ spanStyle ++ after := by
  intro h
  have hstart : start <+: spanStyle := by
    apply List.prefix_of_prefix_length_le ?_ (List.prefix_append spanStyle after) hlength
    rw [← h]
    exact List.prefix_append start a
  rw [Bool.eq_false_iff] at hne
  exact hne (List.isPrefixOf_iff_prefix.mpr hstart)

theorem lessThan_notMem_escape (s : PyStr) : lessThan ∉ escape s := by
  intro h
  exact notMarkup_of_mem_escape h (by decide)

def attrNames : List PyStr := [py "style", py "class", py "src", py "alt"]

def tagNames : List PyStr := plainTags ++ [py "span", py "br", py "img"]

theorem lessThan_notMem_attrsText {attrs : List (PyStr × PyStr)}
    (h : ∀ attr ∈ attrs, attr.fst ∈ attrNames) : lessThan ∉ attrsText attrs := by
  have hnames : (attrNames.all fun name => lessThan ∉ py " " ++ name ++ py "=\"") = true := by
    decide
  simp only [List.all_eq_true, decide_eq_true_eq] at hnames
  intro hmem
  have ⟨attr, hattr, hin⟩ := List.mem_flatMap.mp hmem
  simp only [List.mem_append] at hin
  have hname := hnames attr.fst (h attr hattr)
  simp only [List.mem_append, not_or] at hname
  rcases hin with (((hin | hin) | hin) | hin) | hin
  . exact hname.left.left hin
  . exact hname.left.right hin
  . exact hname.right hin
  . exact lessThan_notMem_escape _ hin
  . exact absurd hin (by decide)

theorem AllowedElement.names {name : PyStr} {attrs : List (PyStr × PyStr)}
    (h : AllowedElement name attrs) : name ∈ tagNames ∧ ∀ attr ∈ attrs, attr.fst ∈ attrNames := by
  have hstyle : py "style" ∈ attrNames := by decide
  have hclass : py "class" ∈ attrNames := by decide
  cases h with
  | plain hname => exact ⟨List.mem_append_left _ hname, by simp⟩
  | aligned hname halign =>
    refine ⟨List.mem_append_left _ (List.mem_of_mem_take (i := 5) hname), ?_⟩
    simpa using hstyle
  | taskList => exact ⟨by decide, by simpa using hclass⟩
  | taskBox => exact ⟨by decide, by simpa using hclass⟩
  | placeholder => exact ⟨by decide, by simpa using hclass⟩
  | color hcolor => exact ⟨by decide, by simpa using hstyle⟩

theorem AllowedVoid.names {name : PyStr} {attrs : List (PyStr × PyStr)}
    (h : AllowedVoid name attrs) : name ∈ tagNames ∧ ∀ attr ∈ attrs, attr.fst ∈ attrNames := by
  cases h with
  | br => exact ⟨by decide, by simp⟩
  | img hmime bytes alt =>
    have hsrc : py "src" ∈ attrNames := by decide
    have halt : py "alt" ∈ attrNames := by decide
    exact ⟨by decide, by simp [hsrc, halt]⟩

theorem lessThan_notMem_tagName {name : PyStr} (h : name ∈ tagNames) : lessThan ∉ name := by
  have hnames : (tagNames.all fun name => lessThan ∉ name) = true := by
    decide
  simp only [List.all_eq_true, decide_eq_true_eq] at hnames
  exact hnames name h

/--
The only opening tag that starts like a colour tag is one with an allowed colour.
-/
theorem AllowedElement.start {name a after : PyStr} {attrs : List (PyStr × PyStr)}
    (h : AllowedElement name attrs)
    (heq : py "<" ++ name ++ attrsText attrs ++ py ">" ++ a = spanStyle ++ after)
    : ∃ color rest, SixHex color ∧ after = escape color ++ py "\"" ++ rest := by
  cases h with
  | plain hname =>
    have hplain : (plainTags.all fun name => (py "<" ++ name ++ py ">").length ≤ spanStyle.length
        ∧ (py "<" ++ name ++ py ">").isPrefixOf spanStyle = false) = true := by
      decide
    simp only [List.all_eq_true, decide_eq_true_eq] at hplain
    obtain ⟨hlength, hne⟩ := hplain name hname
    exact absurd (by simpa [attrsText] using heq) (@ne_spanStyle _ a after hlength hne)
  | aligned hname halign =>
    have haligned : (alignedTags.all fun name => (py "<" ++ name ++ py " ").length ≤ spanStyle.length
        ∧ (py "<" ++ name ++ py " ").isPrefixOf spanStyle = false) = true := by
      decide
    simp only [List.all_eq_true, decide_eq_true_eq] at haligned
    obtain ⟨hlength, hne⟩ := haligned name hname
    simp only [attrsText, List.flatMap_cons, List.append_assoc] at heq
    rw [← List.append_assoc, ← List.append_assoc] at heq
    exact absurd heq (ne_spanStyle _ hlength hne)
  | taskList => exact absurd heq (ne_spanStyle (py "<ul c") (by decide) (by decide))
  | taskBox => exact absurd heq (ne_spanStyle (py "<span c") (by decide) (by decide))
  | placeholder => exact absurd heq (ne_spanStyle (py "<em c") (by decide) (by decide))
  | color hcolor =>
    rw [← escape_color] at heq
    refine ⟨_, py ">" ++ a, hcolor, ?_⟩
    simpa [spanStyle, py] using heq.symm

theorem lessThan_notMem_opening {name : PyStr} {attrs : List (PyStr × PyStr)} {closing : PyStr}
    (h : name ∈ tagNames ∧ ∀ attr ∈ attrs, attr.fst ∈ attrNames) (hclosing : lessThan ∉ closing)
    : lessThan ∉ name ++ attrsText attrs ++ closing := by
  simp only [List.mem_append, not_or]
  exact ⟨⟨lessThan_notMem_tagName h.left, lessThan_notMem_attrsText h.right⟩, hclosing⟩

mutual

theorem Allowed.strictColors {node : Node} (h : Allowed node) {rest : PyStr} (hrest : StrictColors rest)
    : StrictColors (node.serialize ++ rest) := by
  cases h with
  | text s =>
    rw [Node.serialize]
    exact hrest.text_append (lessThan_notMem_escape s)
  | @void name attrs hvoid =>
    rw [Node.serialize]
    have hclosing : lessThan ∉ (if attrs.isEmpty then py "/>" else py " />") := by
      split <;> decide
    apply StrictColors.tag_append (lessThan_notMem_opening hvoid.names hclosing) hrest
    intro after heq
    -- neither of the two tags has the letters of a colour tag
    cases hvoid with
    | br => exact absurd heq (ne_spanStyle (py "<br") (by decide) (by decide))
    | img => exact absurd heq (ne_spanStyle (py "<img") (by decide) (by decide))
  | @elem name attrs children helem hchildren =>
    rw [Node.serialize]
    have hname := lessThan_notMem_tagName helem.names.left
    have hclose : StrictColors (py "</" ++ name ++ py ">" ++ rest) := by
      apply StrictColors.tag_append (a := py "/" ++ name ++ py ">") ?_ hrest
      . intro after heq
        exact absurd heq (ne_spanStyle (py "</") (by decide) (by decide))
      . simp only [List.mem_append, not_or]
        exact ⟨⟨by decide, hname⟩, by decide⟩
    have hinner := AllowedList.strictColors hchildren hclose
    have hopen : lessThan ∉ name ++ attrsText attrs ++ py ">" :=
      lessThan_notMem_opening helem.names (by decide)
    have := StrictColors.tag_append hopen hinner (fun after heq => helem.start heq)
    simpa [py, lessThan] using this

theorem AllowedList.strictColors {nodes : List Node} (h : AllowedList nodes) {rest : PyStr}
    (hrest : StrictColors rest) : StrictColors (serializeList nodes ++ rest) := by
  cases h with
  | nil =>
    rw [serializeList]
    exact hrest
  | cons hnode hnodes =>
    rw [serializeList, List.append_assoc]
    exact hnode.strictColors (hnodes.strictColors hrest)

end

theorem Markup.strictColors {s : PyStr} (h : Markup s) : StrictColors s := by
  have ⟨forest, hforest, heq⟩ := h
  have := hforest.strictColors .nil
  rwa [List.append_nil, ← heq] at this

end Strict

section Occurrence

/--
The colours that the renderer lets through stand in a piece of HTML.
-/
def Shows (colors : List PyStr) (s : PyStr) : Prop :=
  ∀ color ∈ colors, (rgbFromStr color).isSome = true → colorTag color <:+: s

theorem Shows.nil (s : PyStr) : Shows [] s := by
  intro color hcolor
  contradiction

theorem Shows.of_infix {colors : List PyStr} {s t : PyStr} (h : Shows colors s) (hst : s <:+: t)
    : Shows colors t :=
  fun color hcolor haccepted => (h color hcolor haccepted).trans hst

theorem Shows.append {c d : List PyStr} {s t : PyStr} (hs : Shows c s) (ht : Shows d t)
    : Shows (c ++ d) (s ++ t) := by
  intro color hcolor haccepted
  cases List.mem_append.mp hcolor with
  | inl h => exact (hs color h haccepted).trans (List.prefix_append s t).isInfix
  | inr h => exact (ht color h haccepted).trans (List.suffix_append s t).isInfix

theorem Shows.between {colors : List PyStr} {html : Html} (h : Shows colors html.text)
    (before after : PyStr) : Shows colors (html.between before after).text :=
  h.of_infix (List.infix_append before html.text after)

/--
What the children of a node show, the whole node shows.
-/
theorem Shows.concat_mapM {f : Json → Except RenderError Html} {children : List Json}
    {items : List Html} (h : children.mapM f = .ok items) {colorsOf : Json → List PyStr}
    (hf : ∀ child ∈ children, ∀ html, f child = .ok html → Shows (colorsOf child) html.text)
    : Shows (children.flatMap colorsOf) (Html.concat items).text := by
  rw [Except.mapM_eq_ok_iff] at h
  induction h with
  | nil => exact .nil _
  | cons hfirst _ ih =>
    rw [List.flatMap_cons]
    apply Shows.append (hf _ (by simp) _ hfirst)
    exact ih fun child hchild => hf child (by simp [hchild])

theorem rgbFromHex_of_accepted {color : PyStr} (h : (rgbFromStr color).isSome = true)
    : rgbFromHex (.str color) = .ok (rgbFromStr color) := by
  have hne : color ≠ [] := by
    rintro rfl
    contradiction
  unfold rgbFromHex
  rw [if_pos (by simpa [Json.truthy] using hne)]

theorem infix_tagged (opening text closing : PyStr) : text <:+: opening ++ text ++ closing :=
  List.infix_append opening text closing

/--
A mark keeps the text inside of its tags, and a colour mark adds its tag.
-/
theorem wrapMark_shows {text out : PyStr} {mark : Json} (h : wrapMark env text mark = .ok out)
    : text <:+: out ∧ Shows (markColor mark).toList out := by
  have hsame : ∀ s, (pure text : Except RenderError PyStr) = .ok s → text <:+: s := by
    intro s hs
    rw [Except.pure_eq_ok_iff] at hs
    rw [hs]
  have hwrap : ∀ opening closing, (pure (opening ++ text ++ closing) : Except RenderError PyStr) = .ok out →
      text <:+: out := by
    intro opening closing hs
    rw [Except.pure_eq_ok_iff] at hs
    rw [← hs]
    exact infix_tagged opening text closing
  unfold wrapMark at h
  unfold markColor
  cases mark with
  | dict mark =>
    dsimp only at h ⊢
    by_cases hstyle : isKind mark "textStyle" = true
    . have hkinds : ∀ kind, py kind ≠ py "textStyle" → isKind mark kind = false :=
        fun kind hne => isKind_of_ne hstyle hne
      rw [if_neg (by simp [hkinds "bold" (by decide)]), if_neg (by simp [hkinds "italic" (by decide)]),
        if_neg (by simp [hkinds "underline" (by decide)]),
        if_neg (by simp [hkinds "highlight" (by decide)]), if_pos hstyle] at h
      simp only [Except.bind_eq_ok_iff] at h
      obtain ⟨color, hget, rgb, hrgb, hout⟩ := h
      cases rgb with
      | none =>
        refine ⟨hsame out hout, ?_⟩
        simp only [hstyle, if_true, hget]
        cases color with
        | str s =>
          intro other hother haccepted
          have hs : other = s := by simpa using hother
          rw [hs] at haccepted
          rw [rgbFromHex_of_accepted haccepted] at hrgb
          injection hrgb with hrgb
          simp [hrgb] at haccepted
        | _ => exact .nil _
      | some rgb =>
        obtain ⟨s, hs, _⟩ := rgbFromHex_eq_some hrgb
        subst hs
        refine ⟨hwrap _ _ hout, ?_⟩
        rw [Except.pure_eq_ok_iff] at hout
        simp only [hstyle, if_true, hget]
        intro other hother _
        have hother : other = s := by simpa using hother
        rw [hother, ← hout]
        exact (List.prefix_append (colorTag s) (text ++ py "</span>")).isInfix.trans
          (by simp [colorTag, spanStyle])
    . have hstyle : isKind mark "textStyle" = false := by simpa using hstyle
      simp only [hstyle]
      refine ⟨?_, .nil _⟩
      repeat' split at h
      all_goals first | exact hwrap _ _ h | exact hsame _ h
  | _ => exact ⟨hsame out h, .nil _⟩

theorem foldlM_wrapMark_shows {marks : List Json} {text out : PyStr}
    (h : marks.foldlM (wrapMark env) text = .ok out)
    : text <:+: out ∧ Shows (marks.filterMap markColor) out := by
  induction marks generalizing text with
  | nil =>
    rw [List.foldlM_nil, Except.pure_eq_ok_iff] at h
    rw [h]
    exact ⟨List.infix_rfl, .nil _⟩
  | cons mark marks ih =>
    rw [List.foldlM_cons, Except.bind_eq_ok_iff] at h
    have ⟨next, hnext, hrest⟩ := h
    have ⟨hpart, hshows⟩ := wrapMark_shows hnext
    have ⟨htail, hmarks⟩ := ih hrest
    refine ⟨hpart.trans htail, ?_⟩
    intro color hcolor haccepted
    have ⟨other, hother, heq⟩ := List.mem_filterMap.mp hcolor
    cases List.mem_cons.mp hother with
    | inl hfirst => exact (hshows color (by simp [← hfirst, heq]) haccepted).trans htail
    | inr hmem => exact hmarks color (List.mem_filterMap.mpr ⟨other, hmem, heq⟩) haccepted

theorem textHtml_shows {node : Dict} {html : Html} (h : textHtml env node = .ok html)
    : Shows (textColors node) html.text := by
  unfold textHtml at h
  simp only [Except.bind_eq_ok_iff, Except.pure_eq_ok_iff] at h
  obtain ⟨marks, hmarks, text, htext, hhtml⟩ := h
  rw [← hhtml]
  unfold textColors
  cases iterOrEmpty_eq_ok hmarks with
  | inl heq =>
    rw [← heq]
    exact (foldlM_wrapMark_shows htext).right
  | inr hother =>
    rw [hother.left]
    exact .nil _

mutual

theorem inlineNode_shows {node : Dict} {html : Html} (h : inlineNode env node = .ok html)
    : Shows (inlineColors node) html.text := by
  rw [inlineNode] at h
  rw [inlineColors]
  split at h
  . next htext =>
    rw [if_pos htext]
    exact textHtml_shows h
  next htext =>
  rw [if_neg htext]
  split at h
  . next hbreak =>
    rw [if_pos (by simp [hbreak])]
    exact .nil _
  next hbreak =>
  split at h
  . next himage =>
    rw [if_pos (by simp [himage])]
    exact .nil _
  next himage =>
  rw [if_neg (by simp [hbreak, himage])]
  generalize hcontent : node.get (py "content") = content at h ⊢
  cases content with
  | list items =>
    have := sizeOf_lt_of_get hcontent
    exact inlineNodes_shows h
  | _ => exact .nil _
  termination_by sizeOf node

theorem inlineNodes_shows {nodes : List Json} {html : Html} (h : inlineNodes env nodes = .ok html)
    : Shows (inlineListColors nodes) html.text := by
  match nodes with
  | [] =>
    rw [inlineListColors]
    exact .nil _
  | .dict node :: rest =>
    rw [inlineNodes] at h
    rw [inlineListColors]
    simp only [Except.bind_eq_ok_iff, Except.pure_eq_ok_iff] at h
    have ⟨first, hfirst, tail, htail, hhtml⟩ := h
    rw [← hhtml]
    exact (inlineNode_shows hfirst).append (inlineNodes_shows htail)
  | .null :: _ | .bool _ :: _ | .int _ :: _ | .float _ :: _ | .str _ :: _ | .list _ :: _ =>
    simp [inlineNodes] at h
  termination_by sizeOf nodes

end

theorem inlineHtml_shows {value : Json} {html : Html} (h : inlineHtml env value = .ok html)
    : Shows (inlineListColors (listOf value)) html.text := by
  unfold inlineHtml at h
  rw [Except.bind_eq_ok_iff] at h
  have ⟨nodes, hnodes, hhtml⟩ := h
  cases iterOrEmpty_eq_ok hnodes with
  | inl heq =>
    rw [← heq]
    exact inlineNodes_shows hhtml
  | inr hother =>
    rw [hother.left, inlineListColors]
    exact .nil _

/--
The colours of a child that is an item of a kind.
-/
def itemColor (kind : String) : Json → List PyStr
  | .dict item => if isKind item kind then contentColors item else []
  | _ => []

theorem Shows.items {kind : String} {node : Dict} {children : List Json} {s : PyStr}
    (h : iterOrEmpty (node.get (py "content")) = .ok children)
    (hshows : Shows (children.flatMap (itemColor kind)) s) : Shows (itemColors kind node) s := by
  unfold itemColors
  cases iterOrEmpty_eq_ok h with
  | inl heq =>
    rw [← heq]
    exact hshows
  | inr hother =>
    rw [hother.left]
    exact .nil _

theorem listItems_shows {node : Dict} {html : Html} (h : listItems env node = .ok html)
    : Shows (itemColors "listItem" node) html.text := by
  unfold listItems at h
  simp only [Except.bind_eq_ok_iff, Except.pure_eq_ok_iff] at h
  have ⟨children, hchildren, items, hitems, hhtml⟩ := h
  rw [← hhtml]
  apply Shows.items hchildren
  apply Shows.concat_mapM hitems
  intro child _ out hout
  split at hout
  . next item _ =>
    split at hout
    . next hkind =>
      simp only [Except.bind_eq_ok_iff, Except.pure_eq_ok_iff] at hout
      have ⟨inner, hinner, heq⟩ := hout
      rw [← heq, itemColor, if_pos hkind]
      exact (inlineHtml_shows hinner).between _ _
    . next hkind =>
      rw [itemColor, if_neg hkind]
      exact .nil _
  . next hother =>
    unfold itemColor
    split
    . next item _ => exact absurd rfl (hother item)
    . exact .nil _

theorem taskItems_shows {node : Dict} {html : Html} (h : taskItems env node = .ok html)
    : Shows (itemColors "taskItem" node) html.text := by
  unfold taskItems at h
  simp only [Except.bind_eq_ok_iff, Except.pure_eq_ok_iff] at h
  have ⟨children, hchildren, items, hitems, hhtml⟩ := h
  rw [← hhtml]
  apply Shows.items hchildren
  apply Shows.concat_mapM hitems
  intro child _ out hout
  split at hout
  . next item _ =>
    split at hout
    . next hkind =>
      simp only [Except.bind_eq_ok_iff, Except.pure_eq_ok_iff] at hout
      have ⟨done, _, inner, hinner, heq⟩ := hout
      rw [← heq, itemColor, if_pos hkind]
      exact (inlineHtml_shows hinner).between _ _
    . next hkind =>
      rw [itemColor, if_neg hkind]
      exact .nil _
  . next hother =>
    unfold itemColor
    split
    . next item _ => exact absurd rfl (hother item)
    . exact .nil _

theorem blockHtml_shows {node : Dict} {html : Html} (h : blockHtml env node = .ok html)
    : Shows (blockColors node) html.text := by
  unfold blockHtml at h
  unfold blockColors
  rw [Except.bind_eq_ok_iff] at h
  have ⟨align, _, hblock⟩ := h
  split at hblock
  . next hkind =>
    simp only [Except.bind_eq_ok_iff, Except.pure_eq_ok_iff] at hblock
    have ⟨inner, hinner, heq⟩ := hblock
    rw [if_pos (by simp [hkind]), ← heq]
    exact (inlineHtml_shows hinner).between _ _
  next hparagraph =>
  split at hblock
  . next hkind =>
    simp only [Except.bind_eq_ok_iff, Except.pure_eq_ok_iff] at hblock
    have ⟨value, _, level, _, inner, hinner, heq⟩ := hblock
    rw [if_pos (by simp [hkind]), ← heq]
    exact (inlineHtml_shows hinner).between _ _
  next hheading =>
  rw [if_neg (by simp [hparagraph, hheading])]
  split at hblock
  . next hkind =>
    simp only [Except.bind_eq_ok_iff, Except.pure_eq_ok_iff] at hblock
    have ⟨items, hitems, heq⟩ := hblock
    rw [if_pos (by simp [hkind]), ← heq]
    exact (listItems_shows hitems).between _ _
  next hbullet =>
  split at hblock
  . next hkind =>
    simp only [Except.bind_eq_ok_iff, Except.pure_eq_ok_iff] at hblock
    have ⟨items, hitems, heq⟩ := hblock
    rw [if_pos (by simp [hkind]), ← heq]
    exact (listItems_shows hitems).between _ _
  next hordered =>
  rw [if_neg (by simp [hbullet, hordered])]
  split at hblock
  . next hkind =>
    simp only [Except.bind_eq_ok_iff, Except.pure_eq_ok_iff] at hblock
    have ⟨items, hitems, heq⟩ := hblock
    rw [if_pos hkind, ← heq]
    exact (taskItems_shows hitems).between _ _
  next htask =>
  rw [if_neg htask]
  exact .nil _

theorem renderHtmlBody_shows {bodyJson : Option Dict} {fallbackText : PyStr} {html : Html}
    (h : renderHtmlBody env bodyJson fallbackText = .ok html)
    : Shows (bodyColors bodyJson) html.text := by
  unfold renderHtmlBody at h
  unfold bodyColors
  cases bodyJson with
  | none => exact .nil _
  | some bodyJson =>
  dsimp only at h ⊢
  split at h
  . next hdoc =>
    rw [if_pos hdoc]
    split at h
    . next nodes hnodes =>
      unfold blocksHtml at h
      simp only [Except.bind_eq_ok_iff, Except.pure_eq_ok_iff] at h
      have ⟨blocks, hblocks, hhtml⟩ := h
      rw [← hhtml, hnodes]
      apply Shows.concat_mapM hblocks
      intro child _ out hout
      cases child with
      | dict node => exact blockHtml_shows hout
      | _ => exact .nil _
    . next hother =>
      have : listOf (bodyJson.get (py "content")) = [] := by
        unfold listOf
        split
        . next items hitems => exact absurd hitems (hother items)
        . rfl
      rw [this]
      exact .nil _
  . next hdoc =>
    rw [if_neg hdoc]
    exact .nil _

end Occurrence

section Converse

/--
A character of a text stays when the text is trimmed, or it is one of those that are trimmed.
-/
theorem mem_cleanedColor {color : PyStr} {c : CodePoint} (hc : c ∈ color)
    : isSpace c = true ∨ c = CodePoint.ofChar '#' ∨ c ∈ cleanedColor color := by
  by_cases hspace : isSpace c = true
  . exact .inl hspace
  by_cases hhash : c = CodePoint.ofChar '#'
  . exact .inr (.inl hhash)
  refine .inr (.inr ?_)
  have hdrop : ∀ (p : CodePoint → Bool) (s : PyStr), p c = false → c ∈ s → c ∈ s.dropWhile p := by
    intro p s hp hmem
    rw [← List.takeWhile_append_dropWhile (p := p) (l := s)] at hmem
    cases List.mem_append.mp hmem with
    | inl htake =>
      have := List.mem_takeWhile_imp htake
      simp [hp] at this
    | inr hrest => exact hrest
  have hrdrop : ∀ (p : CodePoint → Bool) (s : PyStr), p c = false → c ∈ s → c ∈ s.rdropWhile p := by
    intro p s hp hmem
    unfold List.rdropWhile
    rw [List.mem_reverse]
    exact hdrop p s.reverse hp (List.mem_reverse.mpr hmem)
  have hspace : isSpace c = false := by simpa using hspace
  apply hdrop _ _ (by simpa using hhash)
  apply hrdrop _ _ hspace
  exact hdrop _ _ hspace hc

/--
A colour of six hexadecimal digits has no character that is escaped.
-/
theorem SixHex.notMem_entities {color : PyStr} (h : SixHex color)
    : ∀ c ∈ color, c ∉ entities.map Prod.fst := by
  have hspaces : ((entities.map Prod.fst).all fun c => !isSpace c) = true := by
    decide
  have hothers : ((py "#0123456789abcdefABCDEF").all fun c => c ∉ entities.map Prod.fst) = true := by
    decide
  simp only [List.all_eq_true, decide_eq_true_eq] at hspaces hothers
  intro c hc hentity
  rcases mem_cleanedColor hc with hspace | hhash | hdigit
  . simpa [hspace] using hspaces c hentity
  . exact hothers c (by rw [hhash]; exact List.mem_cons_self) hentity
  . exact hothers c (List.mem_cons_of_mem _ (h.right c hdigit)) hentity

/--
The first character of every entity is one that is escaped itself.
-/
theorem eq_of_escape_eq {s t : PyStr} (ht : ∀ c ∈ t, c ∉ entities.map Prod.fst) (h : escape s = t)
    : s = t := by
  have hampersand : (entities.all fun item => CodePoint.ofChar '&' ∈ item.snd) = true := by
    decide
  simp only [List.all_eq_true, decide_eq_true_eq] at hampersand
  have hplain : ∀ c ∈ s, c ∉ entities.map Prod.fst := by
    intro c hc hentity
    cases hlookup : entities.lookup c with
    | none =>
      rw [List.lookup_eq_none_iff] at hlookup
      have ⟨item, hitem, heq⟩ := List.mem_map.mp hentity
      simpa [heq] using hlookup item hitem
    | some entity =>
      have hmem : CodePoint.ofChar '&' ∈ escape s := by
        apply List.mem_flatMap.mpr
        refine ⟨c, hc, ?_⟩
        unfold escapePoint
        rw [hlookup]
        exact hampersand _ (mem_of_lookup hlookup)
      rw [h] at hmem
      exact ht _ hmem (by decide)
  rw [← h, escape_eq_self hplain]

/--
Texts in front of their first quotation mark are equal.
-/
theorem eq_of_append_quote {a b rest rest' : PyStr} {quote : CodePoint} (ha : quote ∉ a) (hb : quote ∉ b)
    (h : a ++ quote :: rest = b ++ quote :: rest') : a = b := by
  have htake : ∀ s tail : PyStr, quote ∉ s → (s ++ quote :: tail).takeWhile (· ≠ quote) = s := by
    intro s tail hs
    rw [List.takeWhile_append_of_pos]
    . simp
    . intro c hc
      have : c ≠ quote := by
        rintro rfl
        exact hs hc
      simpa using this
  rw [← htake a rest ha, h, htake b rest' hb]

/--
Text that writes elements of the renderer's own shows allowed colours only.
-/
theorem hexColors_of_markup {colors : List PyStr} {s : PyStr} (hmarkup : Markup s)
    (hshows : Shows colors s) : HexColors colors := by
  have hquote : ∀ color, CodePoint.ofChar '"' ∉ escape color := by
    intro color hmem
    exact notMarkup_of_mem_escape hmem (by decide)
  intro color hcolor haccepted
  have ⟨before, after, heq⟩ := hshows color hcolor haccepted
  have hsplit : s = before ++ spanStyle ++ (escape color ++ py "\">" ++ after) := by
    rw [← heq, colorTag]
    simp only [List.append_assoc]
  have ⟨other, rest, hhex, hafter⟩ := hmarkup.strictColors before _ hsplit
  have hsame : escape color = escape other := by
    apply @eq_of_append_quote _ _ (py ">" ++ after) rest (CodePoint.ofChar '"') (hquote color)
      (hquote other)
    simpa [py] using hafter
  rw [escape_eq_self hhex.notMem_entities] at hsame
  rw [eq_of_escape_eq hhex.notMem_entities hsame]
  exact hhex

end Converse

end Rendering
