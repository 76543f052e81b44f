import Legalise.DocumentEdit.EditorText
import Legalise.Lib.Plateau

/-!
This module contains the way of a text into the document editor and back: the HTML that the editor is opened with, the
document that it is parsed to, and the text that is saved.
-/

namespace EditorText

open JavaScript Plateau

def newline : CodeUnit := 0x0A

def blankLine : JsString := [newline, newline]

section Html

/--
`value.replaceAll(c, w)`
-/
def replaceAll (c : CodeUnit) (w value : JsString) : JsString :=
  value.flatMap fun d => if d = c then w else [d]

def escapeHtml (value : JsString) : JsString :=
  replaceAll 0x22 (js "&quot;")
    (replaceAll 0x3E (js "&gt;") (replaceAll 0x3C (js "&lt;") (replaceAll 0x26 (js "&amp;") value)))

/--
`text.slice(start, end)`, where `none` stands for `undefined`.
-/
def slice (text : JsString) (start stop : Option Nat) : JsString :=
  ((stop.map text.take).getD text).drop (start.getD 0)

/--
`/\n{2,}/.test(text)`
-/
def hasBlankLine : JsString → Bool
  | c :: d :: text => (c = newline && d = newline) || hasBlankLine (d :: text)
  | _ => false

/--
`range.end <= range.start`, which is false if one of them is `undefined`.
-/
def TextRange.isEmpty (range : TextRange) : Bool :=
  match range.start, range.stop with
  | some start, some stop => stop ≤ start
  | _, _ => false

def openMark : JsString := js "<mark data-source-anchor=\"true\">"

def closeMark : JsString := js "</mark>"

def escapeWithOptionalMark (text : JsString) (range : Option TextRange) : JsString :=
  match range with
  | none => escapeHtml text
  | some range =>
    if range.isEmpty then escapeHtml text
    else
      let matched := slice text range.start range.stop
      if hasBlankLine matched then escapeHtml text
      else
        escapeHtml (slice text (some 0) range.start) ++ openMark ++ escapeHtml matched ++ closeMark
          ++ escapeHtml (slice text range.stop none)

variable (L : LowerCase)

def findNormalizedRange (text : JsString) (needle : Option JsString) : Option TextRange :=
  (findNormalizedRanges L text needle).head?

def textToEditorHtml (text : JsString) (sourceHighlight : Option JsString) : JsString :=
  let trimmed := trim text
  if trimmed = [] then js "<p></p>"
  else
    let range := findNormalizedRange L trimmed sourceHighlight
    let html := replaceAll newline (js "<br />")
      (replaceRuns newline 2 (js "</p><p>") (escapeWithOptionalMark trimmed range))
    js "<p>" ++ html ++ js "</p>"

end Html

section Nodes

inductive BlockType where
  | doc
  | paragraph
  | heading
  | taskItem (checked : Bool)
  | listItem
  | tableCell
  | tableHeader
  | tableRow
  | table
  | other

/--
A node of the document of the editor.
-/
inductive Node where
  | text (text : JsString) (marked : Bool)
  | hardBreak
  | image (alt : Option JsString)
  | block (type : BlockType) (content : List Node)

mutual

def plainTextFromNode : Node → JsString
  | .text text _ => text
  | .hardBreak => [newline]
  | .image alt =>
    match alt with
    | some (c :: alt) => js "[image: " ++ c :: alt ++ js "]" ++ blankLine
    | _ => js "[image]" ++ blankLine
  | .block type content =>
    let texts := plainTextsFromNodes content
    match type with
    | .paragraph => texts.flatten ++ blankLine
    | .heading => texts.flatten ++ blankLine
    | .taskItem checked => (if checked then js "[x]" else js "[ ]") ++ [space] ++ trimEnd texts.flatten ++ [newline]
    | .listItem => trimEnd texts.flatten ++ [newline]
    | .tableCell => trim texts.flatten
    | .tableHeader => trim texts.flatten
    | .tableRow => (texts.intersperse [0x09]).flatten ++ [newline]
    | .table => texts.flatten ++ [newline]
    | .doc => texts.flatten
    | .other => texts.flatten

def plainTextsFromNodes : List Node → List JsString
  | [] => []
  | node :: nodes => plainTextFromNode node :: plainTextsFromNodes nodes

end

def editorJsonToPlainText (json : Node) : JsString :=
  trim (replaceRuns newline 3 blankLine (plainTextFromNode json))

end Nodes

section Parser

inductive Token where
  | openP
  | closeP
  | br
  | openMark
  | closeMark
  | unit (c : CodeUnit)
  deriving DecidableEq

/--
The tags and the character references that the parser knows.
-/
def spellings : List (JsString × Token) :=
  [
    (js "<p>", .openP),
    (js "</p>", .closeP),
    (js "<br />", .br),
    (openMark, .openMark),
    (closeMark, .closeMark),
    (js "&amp;", .unit 0x26),
    (js "&lt;", .unit 0x3C),
    (js "&gt;", .unit 0x3E),
    (js "&quot;", .unit 0x22)
  ]

/--
The tokens of an HTML text after some units that belong to the last one. What is no tag and no reference is text.
-/
def tokens : Nat → JsString → List Token
  | _, [] => []
  | skip + 1, _ :: html => tokens skip html
  | 0, c :: html =>
    match spellings.find? fun spelling => spelling.fst.isPrefixOf (c :: html) with
    | some spelling => spelling.snd :: tokens (spelling.fst.length - 1) html
    | none => .unit c :: tokens 0 html

/--
The parser: the paragraphs that are closed, the content of the open one, and whether text is marked.
-/
structure ParseState where
  done : List Node
  opened : Option (List Node)
  marked : Bool

/--
Text goes on in the last node if it has the same marks.
-/
def pushUnit (content : List Node) (marked : Bool) (c : CodeUnit) : List Node :=
  match content.getLast? with
  | some (.text text m) =>
    if m = marked then content.dropLast ++ [.text (text ++ [c]) m] else content ++ [.text [c] marked]
  | _ => content ++ [.text [c] marked]

def ParseState.close (st : ParseState) : ParseState :=
  match st.opened with
  | some content => { st with done := st.done ++ [.block .paragraph content], opened := none }
  | none => st

def parseToken (st : ParseState) : Token → ParseState
  | .openP => { st.close with opened := some [] }
  | .closeP => st.close
  | .br => { st with opened := some (st.opened.getD [] ++ [.hardBreak]) }
  | .openMark => { st with marked := true }
  | .closeMark => { st with marked := false }
  | .unit c => { st with opened := some (pushUnit (st.opened.getD []) st.marked c) }

/--
The editor's parser: each `p` element is a paragraph, `br` is a hard break, and `mark` marks its text.
-/
def parseHtml (html : JsString) : Node :=
  .block .doc ((tokens 0 html).foldl parseToken ⟨[], none, false⟩).close.done

end Parser

section Tokens

/--
The units that a unit is escaped to.
-/
def escapeUnit (c : CodeUnit) : JsString :=
  if c = 0x26 then js "&amp;"
  else if c = 0x3C then js "&lt;"
  else if c = 0x3E then js "&gt;"
  else if c = 0x22 then js "&quot;"
  else [c]

theorem escapeHtml_eq (value : JsString) : escapeHtml value = value.flatMap escapeUnit := by
  unfold escapeHtml replaceAll
  rw [List.flatMap_assoc, List.flatMap_assoc, List.flatMap_assoc]
  congr 1
  funext c
  unfold escapeUnit
  by_cases hamp : c = 0x26
  . subst hamp
    decide
  . by_cases hlt : c = 0x3C
    . subst hlt
      decide
    . by_cases hgt : c = 0x3E
      . subst hgt
        decide
      . simp [hamp, hlt, hgt]

theorem tokens_skip (w rest : JsString) : tokens w.length (w ++ rest) = tokens 0 rest := by
  induction w with
  | nil => rfl
  | cons c w ih => rw [List.length_cons, List.cons_append, tokens, ih]

/--
A spelling is read as its token.
-/
theorem tokens_spelling {w : JsString} {token : Token} (h : (w, token) ∈ spellings) (rest : JsString)
    : tokens 0 (w ++ rest) = token :: tokens 0 rest := by
  have hne : ∀ spelling ∈ spellings, spelling.fst ≠ [] := by
    decide
  -- No spelling begins with another one.
  have hcode : ∀ a ∈ spellings, ∀ b ∈ spellings, a.fst.isPrefixOf b.fst = true → a = b := by
    decide
  cases w with
  | nil => exact (hne _ h rfl).elim
  | cons c w =>
    have hfind : (spellings.find? fun spelling => spelling.fst.isPrefixOf (c :: (w ++ rest)))
        = some (c :: w, token) := by
      cases hfound : spellings.find? fun spelling => spelling.fst.isPrefixOf (c :: (w ++ rest)) with
      | none =>
        have := List.find?_eq_none.mp hfound _ h
        rw [← List.cons_append, List.isPrefixOf_iff_prefix] at this
        exact (this (List.prefix_append _ _)).elim
      | some found =>
        have hmem := List.mem_of_find?_eq_some hfound
        have hprefix := List.find?_some hfound
        rw [← List.cons_append, List.isPrefixOf_iff_prefix] at hprefix
        rcases List.prefix_or_prefix_of_prefix hprefix (List.prefix_append (c :: w) rest) with hle | hle
        . rw [hcode _ hmem _ h (List.isPrefixOf_iff_prefix.mpr hle)]
        . rw [hcode _ h _ hmem (List.isPrefixOf_iff_prefix.mpr hle)]
    rw [List.cons_append, tokens, hfind]
    dsimp only
    rw [List.length_cons, Nat.add_sub_cancel, tokens_skip]

/--
Units that are no markup are read as they are.
-/
theorem tokens_unit {c : CodeUnit} (hlt : c ≠ 0x3C) (hamp : c ≠ 0x26) (rest : JsString)
    : tokens 0 (c :: rest) = .unit c :: tokens 0 rest := by
  have hheads : ∀ spelling ∈ spellings, spelling.fst.head? = some 0x3C ∨ spelling.fst.head? = some 0x26 := by
    decide
  have hfind : (spellings.find? fun spelling => spelling.fst.isPrefixOf (c :: rest)) = none := by
    rw [List.find?_eq_none]
    intro spelling hspelling hprefix
    rw [List.isPrefixOf_iff_prefix] at hprefix
    have hhead := hheads spelling hspelling
    cases hw : spelling.fst with
    | nil =>
      rw [hw] at hhead
      simp at hhead
    | cons d w =>
      rw [hw] at hprefix hhead
      rw [(List.cons_prefix_cons.mp hprefix).left] at hhead
      simp only [List.head?_cons, Option.some.injEq] at hhead
      rcases hhead with h | h
      . exact hlt h
      . exact hamp h
  rw [tokens, hfind]

theorem tokens_escapeUnit (c : CodeUnit) (rest : JsString)
    : tokens 0 (escapeUnit c ++ rest) = .unit c :: tokens 0 rest := by
  unfold escapeUnit
  split
  . next h => rw [h]; exact tokens_spelling (by decide) rest
  . split
    . next h => rw [h]; exact tokens_spelling (by decide) rest
    . split
      . next h => rw [h]; exact tokens_spelling (by decide) rest
      . split
        . next h => rw [h]; exact tokens_spelling (by decide) rest
        . next hamp hlt _ _ => exact tokens_unit hlt hamp rest

/--
The HTML of a text, after some line breaks.
-/
def lineHtml (n : Nat) (text : JsString) : JsString :=
  replaceAll newline (js "<br />") (replaceFrom newline 2 (js "</p><p>") n (escapeHtml text))

def breakTokens (n : Nat) : List Token :=
  if 2 ≤ n then [.closeP, .openP] else List.replicate n .br

/--
The tokens of a text: single line breaks are breaks, and more of them end the paragraph.
-/
def lineTokens : Nat → JsString → List Token
  | n, [] => breakTokens n
  | n, c :: text =>
    if c = newline then lineTokens (n + 1) text else breakTokens n ++ .unit c :: lineTokens 0 text

theorem replaceAll_append (c : CodeUnit) (w s t : JsString)
    : replaceAll c w (s ++ t) = replaceAll c w s ++ replaceAll c w t :=
  List.flatMap_append

theorem replaceAll_of_not_mem {c : CodeUnit} {s : JsString} (h : c ∉ s) (w : JsString) : replaceAll c w s = s := by
  unfold replaceAll
  have : s.flatMap (fun d => if d = c then w else [d]) = s.flatMap fun d => [d] := by
    refine List.flatMap_congr fun d hd => ?_
    rw [if_neg]
    rintro rfl
    exact h hd
  rw [this, List.flatMap_singleton']

theorem tokens_breaks (n : Nat) (rest : JsString)
    : tokens 0 (replaceAll newline (js "<br />") (replaced newline 2 (js "</p><p>") n) ++ rest)
        = breakTokens n ++ tokens 0 rest := by
  unfold replaced breakTokens
  split
  . rw [replaceAll_of_not_mem (by decide), show js "</p><p>" = js "</p>" ++ js "<p>" by decide, List.append_assoc,
      @tokens_spelling (js "</p>") .closeP (by decide), @tokens_spelling (js "<p>") .openP (by decide)]
    rfl
  . next hn =>
    match n, hn with
    | 0, _ => rfl
    | 1, _ => exact tokens_spelling (by decide) rest
    | n + 2, hn => omega

theorem escapeUnit_of_ne {c : CodeUnit} (h : c ≠ newline) : newline ∉ escapeUnit c ∧ escapeUnit c ≠ [] := by
  unfold escapeUnit
  split
  . decide
  . split
    . decide
    . split
      . decide
      . split
        . decide
        . exact ⟨by simpa using h.symm, by simp⟩

theorem tokens_lineHtml (n : Nat) (text rest : JsString)
    : tokens 0 (lineHtml n text ++ rest) = lineTokens n text ++ tokens 0 rest := by
  unfold lineHtml
  rw [escapeHtml_eq]
  induction text generalizing n with
  | nil => exact tokens_breaks n rest
  | cons c text ih =>
    rw [List.flatMap_cons, lineTokens]
    split
    . next h =>
      rw [h]
      exact ih (n + 1)
    . next h =>
      have ⟨hnewline, hne⟩ := escapeUnit_of_ne h
      rw [replaceFrom_of_not_mem (by omega) hnewline hne, replaceAll_append, replaceAll_append,
        replaceAll_of_not_mem hnewline, List.append_assoc, List.append_assoc, tokens_breaks, tokens_escapeUnit, ih 0]
      simp

end Tokens

section Texts

/--
The text of some nodes that follow each other.
-/
def plainText (nodes : List Node) : JsString :=
  (plainTextsFromNodes nodes).flatten

@[simp]
theorem plainText_nil : plainText [] = [] :=
  rfl

theorem plainText_append (a b : List Node) : plainText (a ++ b) = plainText a ++ plainText b := by
  unfold plainText
  induction a with
  | nil => rfl
  | cons node a ih =>
    rw [List.cons_append, plainTextsFromNodes, plainTextsFromNodes, List.flatten_cons, List.flatten_cons, ih,
      List.append_assoc]

theorem plainText_singleton (node : Node) : plainText [node] = plainTextFromNode node := by
  simp [plainText, plainTextsFromNodes]

theorem plainText_pushUnit (content : List Node) (marked : Bool) (c : CodeUnit)
    : plainText (pushUnit content marked c) = plainText content ++ [c] := by
  unfold pushUnit
  split
  . next text m hlast =>
    split
    . have hcontent := List.dropLast_append_getLast? _ hlast
      rw [plainText_append, plainText_singleton]
      conv => rhs; rw [← hcontent, plainText_append, plainText_singleton]
      simp [plainTextFromNode]
    . rw [plainText_append, plainText_singleton]
      rfl
  . rw [plainText_append, plainText_singleton]
    rfl

/--
The text that is read so far.
-/
def ParseState.plain (st : ParseState) : JsString :=
  plainText st.done ++ plainText (st.opened.getD [])

/--
In an open paragraph, some tokens add a text and leave a paragraph open.
-/
def Adds (added : List Token) (text : JsString) : Prop :=
  ∀ st : ParseState, st.opened.isSome →
    (added.foldl parseToken st).opened.isSome ∧ (added.foldl parseToken st).plain = st.plain ++ text

theorem Adds.append {a b : List Token} {s t : JsString} (ha : Adds a s) (hb : Adds b t) : Adds (a ++ b) (s ++ t) := by
  intro st hst
  have ⟨hopened, hplain⟩ := ha st hst
  have ⟨hopened', hplain'⟩ := hb _ hopened
  rw [List.foldl_append]
  exact ⟨hopened', by rw [hplain', hplain, List.append_assoc]⟩

theorem adds_nil : Adds [] [] := by
  intro st hst
  exact ⟨hst, by simp⟩

theorem adds_unit (c : CodeUnit) : Adds [.unit c] [c] := by
  intro st hst
  refine ⟨rfl, ?_⟩
  simp only [List.foldl_cons, List.foldl_nil, parseToken, ParseState.plain, Option.getD_some, plainText_pushUnit,
    List.append_assoc]

theorem adds_br : Adds [.br] [newline] := by
  intro st hst
  refine ⟨rfl, ?_⟩
  simp only [List.foldl_cons, List.foldl_nil, parseToken, ParseState.plain, Option.getD_some, plainText_append,
    List.append_assoc]
  rfl

theorem adds_mark {token : Token} (h : token = .openMark ∨ token = .closeMark) : Adds [token] [] := by
  intro st hst
  rcases h with rfl | rfl <;> exact ⟨hst, by simp [parseToken, ParseState.plain]⟩

theorem ParseState.plain_close {st : ParseState} (h : st.opened.isSome)
    : plainText st.close.done = st.plain ++ blankLine := by
  have ⟨content, hcontent⟩ := Option.isSome_iff_exists.mp h
  unfold ParseState.close ParseState.plain
  rw [hcontent]
  dsimp only
  rw [plainText_append, plainText_singleton, plainTextFromNode, List.append_assoc]
  rfl

theorem ParseState.close_close (st : ParseState) : st.close.close = st.close := by
  cases hopened : st.opened <;> simp [ParseState.close, hopened]

theorem adds_breakTokens (n : Nat) : Adds (breakTokens n) (replaced newline 2 blankLine n) := by
  unfold breakTokens replaced
  split
  . intro st hst
    refine ⟨rfl, ?_⟩
    have := st.plain_close hst
    simp only [List.foldl_cons, List.foldl_nil, parseToken, ParseState.plain, Option.getD_some, plainText_nil,
      List.append_nil, st.close_close]
    exact this
  . induction n with
    | zero => exact adds_nil
    | succ n ih =>
      rw [List.replicate_succ, List.replicate_succ]
      exact adds_br.append (ih (by omega))

theorem adds_lineTokens (n : Nat) (text : JsString)
    : Adds (lineTokens n text) (replaceFrom newline 2 blankLine n text) := by
  induction text generalizing n with
  | nil => exact adds_breakTokens n
  | cons c text ih =>
    rw [lineTokens, replaceFrom]
    split
    . exact ih (n + 1)
    . exact (adds_breakTokens n).append ((adds_unit c).append (ih 0))

/--
What is saved of a paragraph's HTML.
-/
theorem editorJsonToPlainText_parseHtml {html : JsString} {inner : List Token} {text : JsString}
    (hinner : ∀ rest, tokens 0 (html ++ rest) = inner ++ tokens 0 rest) (hadds : Adds inner text)
    : editorJsonToPlainText (parseHtml (js "<p>" ++ html ++ js "</p>"))
        = trim (replaceRuns newline 3 blankLine (text ++ blankLine)) := by
  have htokens : tokens 0 (js "<p>" ++ html ++ js "</p>") = .openP :: (inner ++ [.closeP]) := by
    rw [List.append_assoc, @tokens_spelling (js "<p>") .openP (by decide), hinner]
    rfl
  have hplain := hadds ⟨[], some [], false⟩ rfl
  unfold editorJsonToPlainText parseHtml
  rw [htokens, List.foldl_cons, List.foldl_append]
  have hstart : parseToken ⟨[], none, false⟩ .openP = ⟨[], some [], false⟩ :=
    rfl
  rw [hstart]
  generalize inner.foldl parseToken ⟨[], some [], false⟩ = st at hplain
  have hdone : (([.closeP] : List Token).foldl parseToken st).close.done = st.close.done := by
    have ⟨content, hcontent⟩ := Option.isSome_iff_exists.mp hplain.left
    simp [parseToken, ParseState.close, hcontent]
  rw [hdone, plainTextFromNode]
  congr 2
  change plainText st.close.done = _
  rw [st.plain_close hplain.left, hplain.right]
  rfl

end Texts

end EditorText
