import Legalise.DocumentEdit.EditorHtml

/-!
This module contains what is saved of a text that is opened in the document editor, and exactly when that is the text.
-/

namespace EditorText

open JavaScript Plateau

section Table

variable {L : LowerCase}

/--
Each entry has a start and an end, and there are entries as soon as there is normalised text.
-/
theorem length_mapText (text : JsString)
    : (mapText L text).starts.length = (mapText L text).ends.length
        ∧ ((mapText L text).normalised ≠ [] → (mapText L text).ends ≠ []) := by
  induction text using List.reverseRecOn with
  | nil => exact ⟨rfl, fun h => absurd rfl h⟩
  | append_singleton text ch ih =>
    rw [mapText_concat]
    generalize mapText L text = m at ih
    have ⟨hlength, hne⟩ := ih
    unfold mapUnit
    dsimp only
    split
    . split
      . exact ih
      . next hnormalised =>
        have hends : 0 < m.ends.length := by
          refine List.length_pos_of_ne_nil (hne ?_)
          rintro hnil
          exact hnormalised (by rw [hnil]; rfl)
        split
        . refine ⟨?_, by simp⟩
          simp only [List.length_append, List.length_dropLast, List.length_singleton]
          omega
        . exact ⟨by simp [hlength], by simp⟩
    . exact ⟨by simp [hlength], by simp⟩

variable (L) in
/--
Where the first match begins in the searchable text.
-/
def firstIndex (text needle : JsString) : Option Nat :=
  if (normalise L needle).length < 3 then none
  else
    (Cut.cut (normalise L needle) (trimEnd (mapText L text).normalised)).map fun parts => parts.fst.length

theorem findNormalizedRange_some (text needle : JsString)
    : findNormalizedRange L text (some needle)
        = (firstIndex L text needle).map fun index =>
          ⟨(mapText L text).starts[index]?, (mapText L text).ends[index + (normalise L needle).length - 1]?⟩ := by
  unfold findNormalizedRange findNormalizedRanges firstIndex
  dsimp only
  split
  . rfl
  . next hlength =>
    rw [List.head?_map]
    congr 1
    unfold indices
    split
    . next hnil =>
      have hcut : Cut.cut (normalise L needle) (trimEnd (mapText L text).normalised) = none := by
        rw [hnil, Cut.cut_eq_none_iff, List.infix_nil]
        intro hneedle
        rw [hneedle] at hlength
        exact hlength (by decide)
      rw [hcut]
      rfl
    . cases Cut.cut (normalise L needle) (trimEnd (mapText L text).normalised) with
      | none => rfl
      | some parts => simp

end Table

section Written

/--
The text between the tags that the editor is opened with.
-/
def written (text : JsString) (range : Option TextRange) : JsString :=
  match range with
  | none => text
  | some range =>
    if range.isEmpty || hasBlankLine (slice text range.start range.stop) then text
    else slice text (some 0) range.start ++ (slice text range.start range.stop ++ slice text range.stop none)

theorem written_of_stop {text : JsString} {start stop : Nat}
    : written text (some ⟨some start, some stop⟩) = text := by
  unfold written TextRange.isEmpty
  dsimp only
  split
  . rfl
  . next h =>
    simp only [Bool.or_eq_true, decide_eq_true_eq, not_or] at h
    have htake : slice text (some 0) (some start) = (text.take stop).take start := by
      simp only [slice, Option.map_some, Option.getD_some, List.drop_zero, List.take_take]
      rw [Nat.min_eq_left (by omega)]
    rw [htake]
    simp only [slice, Option.map_some, Option.map_none, Option.getD_some, Option.getD_none]
    rw [← List.append_assoc, List.take_append_drop, List.take_append_drop]

/--
A match with an undefined end writes the text again.
-/
theorem written_of_none {text : JsString} {start : Option Nat} (h : hasBlankLine (slice text start none) = false)
    : written text (some ⟨start, none⟩) = text ++ text
        ∨ written text (some ⟨start, none⟩) = text ++ (text ++ text) := by
  have hempty : TextRange.isEmpty ⟨start, none⟩ = false := by
    cases start <;> rfl
  unfold written
  dsimp only
  rw [hempty, h]
  cases start with
  | none =>
    right
    simp [slice]
  | some start =>
    left
    simp [slice, ← List.append_assoc]

theorem written_of_hasBlankLine {text : JsString} {range : TextRange}
    (h : hasBlankLine (slice text range.start range.stop) = true) : written text (some range) = text := by
  simp [written, h]

theorem replaceRuns_blankLine {least : Nat} (hleast : 2 ≤ least) (hlimit : least ≤ 3) (s : JsString)
    : replaceRuns newline least blankLine s = cap newline 2 s :=
  @replaceRuns_eq _ _ newline least 2 hleast hlimit s

/--
The tokens between the tags of the first paragraph.
-/
theorem exists_tokens (text : JsString) (range : Option TextRange)
    : ∃ inner added, Adds inner added
        ∧ (∀ rest, tokens 0 (replaceAll newline (js "<br />")
            (replaceRuns newline 2 (js "</p><p>") (escapeWithOptionalMark text range)) ++ rest)
              = inner ++ tokens 0 rest)
        ∧ cap newline 2 (added ++ blankLine) = cap newline 2 (written text range ++ blankLine) := by
  have hcap (s : JsString) : replaceFrom newline 2 blankLine 0 s = cap newline 2 s :=
    replaceRuns_blankLine (by omega) (by omega) s
  have hplain : ∃ inner added, Adds inner added
      ∧ (∀ rest, tokens 0 (replaceAll newline (js "<br />")
          (replaceRuns newline 2 (js "</p><p>") (escapeHtml text)) ++ rest) = inner ++ tokens 0 rest)
      ∧ cap newline 2 (added ++ blankLine) = cap newline 2 (text ++ blankLine) := by
    refine ⟨lineTokens 0 text, _, adds_lineTokens 0 text, fun rest => tokens_lineHtml 0 text rest, ?_⟩
    rw [hcap, cap_cap_append]
  unfold escapeWithOptionalMark written
  cases range with
  | none => exact hplain
  | some range =>
    dsimp only
    cases hempty : range.isEmpty with
    | true => simpa using hplain
    | false =>
      cases hblank : hasBlankLine (slice text range.start range.stop) with
      | true => simpa using hplain
      | false =>
        generalize slice text (some 0) range.start = before
        generalize slice text range.start range.stop = matched
        generalize slice text range.stop none = after
        have hopen : newline ∉ openMark ∧ openMark ≠ [] := by
          decide
        have hclose : newline ∉ closeMark ∧ closeMark ≠ [] := by
          decide
        refine ⟨lineTokens 0 before ++ ([.openMark] ++ (lineTokens 0 matched ++ ([.closeMark] ++ lineTokens 0 after))),
          _, (adds_lineTokens 0 before).append ((adds_mark (.inl rfl)).append ((adds_lineTokens 0 matched).append
            ((adds_mark (.inr rfl)).append (adds_lineTokens 0 after)))), ?_, ?_⟩
        . intro rest
          have hhtml : replaceAll newline (js "<br />") (replaceRuns newline 2 (js "</p><p>")
              (escapeHtml before ++ openMark ++ escapeHtml matched ++ closeMark ++ escapeHtml after))
                = lineHtml 0 before ++ (openMark ++ (lineHtml 0 matched ++ (closeMark ++ lineHtml 0 after))) := by
            simp only [List.append_assoc]
            rw [replaceRuns_append_of_not_mem (by omega) hopen.left hopen.right,
              replaceRuns_append_of_not_mem (by omega) hclose.left hclose.right]
            simp only [replaceAll_append, replaceAll_of_not_mem hopen.left, replaceAll_of_not_mem hclose.left]
            rfl
          simp only [Bool.false_eq_true, if_false]
          rw [hhtml]
          simp only [List.append_assoc]
          rw [tokens_lineHtml, @tokens_spelling openMark .openMark (by decide), tokens_lineHtml,
            @tokens_spelling closeMark .closeMark (by decide), tokens_lineHtml]
          rfl
        . simp only [hcap, List.nil_append, List.append_assoc, cap_cap_append, cap_append_cap_append, Bool.or_self,
            Bool.false_eq_true, if_false]
          rw [← List.append_assoc before, cap_append_cap_append, List.append_assoc]

end Written

section Saved

/--
No space at either end.
-/
def Tight (text : JsString) : Prop :=
  (∀ c, text.head? = some c → isSpace c = false) ∧ ∀ c, text.getLast? = some c → isSpace c = false

theorem tight_trim (text : JsString) : Tight (trim text) :=
  ⟨fun _ h => head?_trim h, fun _ h => getLast?_trim h⟩

theorem Tight.append {s t : JsString} (hs : Tight s) (ht : Tight t) : Tight (s ++ t) := by
  constructor
  . intro c hc
    rw [List.head?_append, Option.or_eq_some_iff] at hc
    rcases hc with hc | ⟨_, hc⟩
    . exact hs.left c hc
    . exact ht.left c hc
  . intro c hc
    rw [List.getLast?_append, Option.or_eq_some_iff] at hc
    rcases hc with hc | ⟨_, hc⟩
    . exact ht.right c hc
    . exact hs.right c hc

theorem Tight.ne_newline {text : JsString} (h : Tight text)
    : (∀ c, text.head? = some c → c ≠ newline) ∧ ∀ c, text.getLast? = some c → c ≠ newline := by
  constructor
  . rintro c hc rfl
    exact absurd (h.left _ hc) (by decide)
  . rintro c hc rfl
    exact absurd (h.right _ hc) (by decide)

theorem Tight.trimEnd_append {text : JsString} (h : Tight text) {spaces : JsString}
    (hspaces : ∀ c ∈ spaces, isSpace c = true) : trimEnd (text ++ spaces) = text := by
  unfold trimEnd
  induction spaces using List.reverseRecOn with
  | nil =>
    rw [List.append_nil, List.rdropWhile_eq_self_iff]
    intro hne
    simp [h.right _ (List.getLast?_eq_some_getLast hne)]
  | append_singleton spaces c ih =>
    rw [← List.append_assoc, List.rdropWhile_concat_pos _ _ _ (hspaces c (by simp))]
    exact ih fun d hd => hspaces d (by simp [hd])

/--
Spaces after a text without spaces at its ends are trimmed.
-/
theorem Tight.trim_append {text : JsString} (h : Tight text) (hne : text ≠ []) {spaces : JsString}
    (hspaces : ∀ c ∈ spaces, isSpace c = true) : trim (text ++ spaces) = text := by
  have hstart : (text ++ spaces).dropWhile isSpace = text ++ spaces := by
    cases text with
    | nil => exact absurd rfl hne
    | cons c text =>
      have hc : isSpace c = false := h.left c rfl
      rw [List.cons_append, List.dropWhile_cons_of_neg (by simp [hc])]
  unfold trim
  rw [hstart, h.trimEnd_append hspaces]

theorem Tight.cap {text : JsString} (h : Tight text) : Tight (cap newline 2 text) := by
  constructor
  . intro c hc
    cases text with
    | nil => cases hc
    | cons d text =>
      rw [cap_cons_of_ne (h.ne_newline.left d rfl)] at hc
      cases hc
      exact h.left _ rfl
  . intro c hc
    cases text using List.reverseRecOn with
    | nil => cases hc
    | append_singleton text d =>
      have hd : (text ++ [d]).getLast? = some d := by
        simp
      rw [cap_concat_of_ne (h.ne_newline.right d hd), List.getLast?_concat] at hc
      cases hc
      exact h.right _ hd

theorem Tight.cap_ne_nil {text : JsString} (h : Tight text) (hne : text ≠ []) : Plateau.cap newline 2 text ≠ [] := by
  cases text with
  | nil => exact absurd rfl hne
  | cons c text =>
    rw [cap_cons_of_ne (h.ne_newline.left c rfl)]
    simp

variable (L : LowerCase)

/--
What is saved is the written text with its runs of newlines cut to two.
-/
theorem editorJsonToPlainText_textToEditorHtml {text : JsString} {sourceHighlight : Option JsString}
    (hne : trim text ≠ [])
    (htight : Tight (written (trim text) (findNormalizedRange L (trim text) sourceHighlight)))
    (hwritten : written (trim text) (findNormalizedRange L (trim text) sourceHighlight) ≠ [])
    : editorJsonToPlainText (parseHtml (textToEditorHtml L text sourceHighlight))
        = cap newline 2 (written (trim text) (findNormalizedRange L (trim text) sourceHighlight)) := by
  have ⟨inner, added, hadds, htokens, hcap⟩ :=
    exists_tokens (trim text) (findNormalizedRange L (trim text) sourceHighlight)
  unfold textToEditorHtml
  dsimp only
  rw [if_neg hne, editorJsonToPlainText_parseHtml htokens hadds]
  have hblank : blankLine = List.replicate 2 newline :=
    rfl
  rw [replaceRuns_blankLine (by omega) (by omega), hcap, cap_append_of_last htight.ne_newline.right, hblank, cap_replicate (Nat.le_refl 2)]
  exact htight.cap.trim_append (htight.cap_ne_nil hwritten) fun c hc => by
    rw [List.eq_of_mem_replicate hc]
    decide

/--
Opening and saving keeps the text.
-/
def SavesText (text : JsString) (sourceHighlight : Option JsString) : Prop :=
  editorJsonToPlainText (parseHtml (textToEditorHtml L text sourceHighlight))
    = replaceRuns newline 2 blankLine (trim text)

/--
A first match ends where the table of ends has an entry, unless a blank line follows its start.
-/
def EndsInTable (text : JsString) (sourceHighlight : Option JsString) : Prop :=
  ∀ needle, sourceHighlight = some needle → ∀ index, firstIndex L (trim text) needle = some index →
    index + (normalise L needle).length ≤ (mapText L (trim text)).ends.length
      ∨ hasBlankLine ((trim text).drop ((mapText L (trim text)).starts[index]?.getD 0)) = true

theorem three_le_of_firstIndex {text needle : JsString} {index : Nat} (h : firstIndex L text needle = some index)
    : 3 ≤ (normalise L needle).length := by
  unfold firstIndex at h
  split at h
  . contradiction
  . omega

variable {L} in
/--
The text is written once exactly if the first match ends in the table.
-/
theorem written_cases (text : JsString) (sourceHighlight : Option JsString)
    : (EndsInTable L text sourceHighlight
          ∧ written (trim text) (findNormalizedRange L (trim text) sourceHighlight) = trim text)
        ∨ ¬ EndsInTable L text sourceHighlight
          ∧ ∃ rest, (rest = trim text ∨ rest = trim text ++ trim text)
            ∧ written (trim text) (findNormalizedRange L (trim text) sourceHighlight) = trim text ++ rest := by
  cases sourceHighlight with
  | none => exact .inl ⟨fun needle h => (by cases h), rfl⟩
  | some needle =>
    rw [findNormalizedRange_some]
    cases hindex : firstIndex L (trim text) needle with
    | none =>
      refine .inl ⟨fun needle' heq index h => ?_, rfl⟩
      cases heq
      rw [hindex] at h
      contradiction
    | some index =>
      have hthree := three_le_of_firstIndex L hindex
      have hlength := (length_mapText (L := L) (trim text)).left
      rw [Option.map_some]
      by_cases hend : index + (normalise L needle).length ≤ (mapText L (trim text)).ends.length
      . left
        refine ⟨fun needle' heq index' h => ?_, ?_⟩
        . cases heq
          rw [hindex] at h
          cases h
          exact .inl hend
        . rw [List.getElem?_eq_getElem (by omega), List.getElem?_eq_getElem (by omega)]
          exact written_of_stop
      . have hstop : (mapText L (trim text)).ends[index + (normalise L needle).length - 1]? = none := by
          rw [List.getElem?_eq_none_iff]
          omega
        rw [hstop]
        cases hblank : hasBlankLine (slice (trim text) (mapText L (trim text)).starts[index]? none) with
        | true =>
          left
          refine ⟨fun needle' heq index' h => ?_, written_of_hasBlankLine hblank⟩
          cases heq
          rw [hindex] at h
          cases h
          exact .inr hblank
        | false =>
          right
          constructor
          . intro h
            rcases h needle rfl index hindex with h | h
            . exact hend h
            . unfold slice at hblank
              rw [Option.map_none, Option.getD_none, h] at hblank
              contradiction
          . rcases written_of_none hblank with h | h
            . exact ⟨_, .inl rfl, h⟩
            . exact ⟨_, .inr rfl, h⟩

/--
Opening and saving keeps the text exactly if the first match of the highlight, where it is lower-cased, ends within
the table of the units of the text.
-/
theorem savesText_iff (text : JsString) (sourceHighlight : Option JsString)
    :
    SavesText L text sourceHighlight
      ↔
    EndsInTable L text sourceHighlight := by
  unfold SavesText
  rw [replaceRuns_blankLine (by omega) (by omega)]
  by_cases hne : trim text = []
  . have hends : EndsInTable L text sourceHighlight := by
      intro needle _ index hindex
      have hthree := three_le_of_firstIndex L hindex
      unfold firstIndex at hindex
      rw [if_neg (by omega), Option.map_eq_some_iff] at hindex
      have ⟨parts, hcut, _⟩ := hindex
      have hsplit := Cut.eq_of_cut hcut
      rw [hne] at hsplit
      have hlength := congrArg List.length hsplit
      simp only [mapText, List.zipIdx_nil, List.foldl_nil, Mapping.empty, trimEnd, List.rdropWhile_nil, List.length_nil,
        List.length_append] at hlength
      omega
    unfold textToEditorHtml
    dsimp only
    rw [hne, if_pos rfl]
    refine iff_of_true ?_ hends
    decide +kernel
  . have htight := tight_trim text
    rcases written_cases (L := L) text sourceHighlight with ⟨hends, hwritten⟩ | ⟨hends, rest, hrest, hwritten⟩
    . refine iff_of_true ?_ hends
      rw [editorJsonToPlainText_textToEditorHtml L hne (by rw [hwritten]; exact htight) (by rw [hwritten]; exact hne),
        hwritten]
    . have hrestTight : Tight rest := by
        rcases hrest with rfl | rfl
        . exact htight
        . exact htight.append htight
      have hrestNe : rest ≠ [] := by
        rcases hrest with rfl | rfl
        . exact hne
        . simp [hne]
      refine iff_of_false ?_ hends
      rw [editorJsonToPlainText_textToEditorHtml L hne (by rw [hwritten]; exact htight.append hrestTight)
        (by rw [hwritten]; simp [hne]), hwritten, cap_append_of_last htight.ne_newline.right]
      intro heq
      rw [List.append_right_eq_self] at heq
      exact hrestTight.cap_ne_nil hrestNe heq

/--
A match ends in the table if each unit has one unit as its lower case.
-/
theorem endsInTable_of_one {text : JsString} {sourceHighlight : Option JsString}
    (hone : ∀ c ∈ trim text, isSpace c = false → ∃ d, L.toLowerCase [c] = [d])
    : EndsInTable L text sourceHighlight := by
  intro needle _ index hindex
  left
  have hthree := three_le_of_firstIndex L hindex
  obtain ⟨lead, cs, hmapped⟩ := mapped_mapText hone
  have hlength : (mapText L (trim text)).ends.length = (mapText L (trim text)).normalised.length := by
    simp [hmapped.ends, hmapped.normalised, Squeeze.stops]
  unfold firstIndex at hindex
  rw [if_neg (by omega), Option.map_eq_some_iff] at hindex
  obtain ⟨parts, hcut, hparts⟩ := hindex
  have hsplit := congrArg List.length (Cut.eq_of_cut hcut)
  have hprefix := (trimEnd_isPrefix (mapText L (trim text)).normalised).length_le
  simp only [List.length_append] at hsplit
  omega

end Saved

section Examples

example : editorJsonToPlainText (parseHtml (textToEditorHtml lowerCase (js "a < b\n\n\nsee \"Lease\" & co\nend ")
    (some (js "lease")))) = js "a < b\n\nsee \"Lease\" & co\nend" := by
  decide +kernel

/--
A highlight behind dotted capital Is has no range, and the text is written three times.
-/
theorem dottedI_not_savesText
    : editorJsonToPlainText (parseHtml (textToEditorHtml lowerCase (js "\u0130\u0130\u0130 abc") (some (js "abc"))))
          = js "\u0130\u0130\u0130 abc\u0130\u0130\u0130 abc\u0130\u0130\u0130 abc"
        ∧ ¬ SavesText lowerCase (js "\u0130\u0130\u0130 abc") (some (js "abc")) := by
  have hsaved : editorJsonToPlainText
      (parseHtml (textToEditorHtml lowerCase (js "\u0130\u0130\u0130 abc") (some (js "abc"))))
        = js "\u0130\u0130\u0130 abc\u0130\u0130\u0130 abc\u0130\u0130\u0130 abc" := by
    decide +kernel
  refine ⟨hsaved, ?_⟩
  unfold SavesText
  rw [hsaved]
  decide +kernel

end Examples

end EditorText
