import Legalise.JavaScript.Str
import Legalise.Lib.Cut
import Legalise.Lib.Squeeze

/-!
This module contains the search of the document editor, which normalises whitespace and case and maps its matches
back to the text, and when these matches are true and complete.
-/

namespace EditorText

open JavaScript Squeeze

section Search

/--
`toLowerCase` of the language, which may change the length of a text and look at what stands around a character. It
keeps spaces and makes none.
-/
structure LowerCase where
  toLowerCase : JsString → JsString
  space : ∀ c, isSpace c = true → toLowerCase [c] = [c]
  word : ∀ c, isSpace c = false → ∀ d ∈ toLowerCase [c], isSpace d = false

/--
`text.replace(/\s+/g, " ")`
-/
def collapse (text : JsString) : JsString :=
  squeeze isSpace space text

variable (L : LowerCase)

def normalise (text : JsString) : JsString :=
  L.toLowerCase (collapse (trim text))

/--
The normalised text, and for each entry of the two lists where it comes from.
-/
structure Mapping where
  normalised : JsString
  starts : List Nat
  ends : List Nat

def Mapping.empty : Mapping :=
  ⟨[], [], []⟩

/--
One round of the loop over the code units.
-/
def mapUnit (m : Mapping) (unit : CodeUnit × Nat) : Mapping :=
  let (ch, i) := unit
  if isSpace ch then
    if m.normalised.length = 0 then m
    else if m.normalised.getLast? = some space then { m with ends := m.ends.dropLast ++ [i + 1] }
    else ⟨m.normalised ++ [space], m.starts ++ [i], m.ends ++ [i + 1]⟩
  else ⟨m.normalised ++ L.toLowerCase [ch], m.starts ++ [i], m.ends ++ [i + 1]⟩

def mapText (text : JsString) : Mapping :=
  text.zipIdx.foldl (mapUnit L) .empty

/--
A range, where `none` stands for `undefined`.
-/
structure TextRange where
  start : Option Nat
  stop : Option Nat
  deriving DecidableEq

/--
The indices that the search loop finds, where `rest` is what follows `start` in the searchable text.
-/
def indices (target : JsString) (start : Nat) (rest : JsString) : List Nat :=
  if rest = [] then []
  else
    match Cut.cut target rest with
    | none => []
    | some (left, _) =>
      let step := left.length + max target.length 1
      (start + left.length) :: indices target (start + step) (rest.drop step)
termination_by rest.length
decreasing_by
  have := List.length_pos_of_ne_nil (by assumption)
  rw [List.length_drop]
  omega

def findNormalizedRanges (text : JsString) (needle : Option JsString) : List TextRange :=
  match needle with
  | none => []
  | some needle =>
    let target := normalise L needle
    if target.length < 3 then []
    else
      let m := mapText L text
      (indices target 0 (trimEnd m.normalised)).map fun index =>
        ⟨m.starts[index]?, m.ends[index + target.length - 1]?⟩

end Search

section Mapping

variable {L : LowerCase} {text : JsString}

/--
Every unit of the text has one unit as its lower case, and every slice of the collapsed text is lower-cased unit by
unit.
-/
structure UnitByUnit (L : LowerCase) (text : JsString) : Prop where
  one : ∀ c ∈ text, isSpace c = false → ∃ d, L.toLowerCase [c] = [d]
  each : ∀ s, s <:+: collapse text → L.toLowerCase s = s.flatMap fun c => L.toLowerCase [c]

/--
The lower case of a unit that has one.
-/
def LowerCase.unit (L : LowerCase) (c : CodeUnit) : CodeUnit :=
  (L.toLowerCase [c]).head?.getD c

theorem LowerCase.unit_of_isSpace {c : CodeUnit} (h : isSpace c = true) : L.unit c = c := by
  simp [LowerCase.unit, L.space c h]

theorem LowerCase.isSpace_unit (L : LowerCase) (c : CodeUnit) : isSpace (L.unit c) = isSpace c := by
  cases hc : isSpace c with
  | true => rw [L.unit_of_isSpace hc, hc]
  | false =>
    unfold LowerCase.unit
    cases hlower : L.toLowerCase [c] with
    | nil => exact hc
    | cons d rest => exact L.word c hc d (by rw [hlower]; exact List.mem_cons_self)

/--
What the loop has made of a text: after some spaces, each chunk has its entry.
-/
structure Mapped (L : LowerCase) (text lead : JsString) (cs : List JsString) (m : Mapping) : Prop where
  lead_all : lead.all isSpace = true
  text_eq : text = lead ++ cs.flatten
  chunked : Chunked isSpace cs
  first : ∀ c, cs.head? = some c → c.all isSpace = false
  normalised : m.normalised = cs.map fun c => L.unit (face isSpace space c)
  starts : m.starts = starts lead.length cs
  ends : m.ends = stops lead.length cs

theorem all_of_isSpace_face {c : JsString} (h : IsChunk isSpace c) : isSpace (face isSpace space c) = c.all isSpace := by
  unfold face
  rcases h.all_or with hall | ⟨x, hx, heq⟩
  . rw [if_pos hall, hall, isSpace_space]
  . rw [heq]
    simp [hx]

theorem Mapped.concat {lead ch : JsString} {cs : List JsString} {m : Mapping} (h : Mapped L text lead cs m)
    (hch : IsChunk isSpace ch) (hlast : ∀ c, cs.getLast? = some c → c.all isSpace = true → ch.all isSpace = false)
    (hfirst : cs = [] → ch.all isSpace = false)
    : Mapped L (text ++ ch) lead (cs ++ [ch]) ⟨m.normalised ++ [L.unit (face isSpace space ch)],
        m.starts ++ [text.length], m.ends ++ [text.length + ch.length]⟩ := by
  have hlength : lead.length + cs.flatten.length = text.length := by
    rw [h.text_eq, List.length_append]
  refine ⟨h.lead_all, ?_, ⟨?_, ?_⟩, ?_, ?_, ?_, ?_⟩
  . rw [List.flatten_append, List.flatten_singleton, ← List.append_assoc, ← h.text_eq]
  . intro c hc
    rcases List.mem_append.mp hc with hc | hc
    . exact h.chunked.isChunk c hc
    . rw [List.mem_singleton.mp hc]
      exact hch
  . rw [List.isChain_append]
    refine ⟨h.chunked.isChain, List.isChain_singleton _, ?_⟩
    intro a ha b hb
    rw [List.head?_singleton, Option.mem_some_iff] at hb
    rintro ⟨hall, hball⟩
    rw [← hb, hlast a ha hall] at hball
    contradiction
  . intro c hc
    cases cs with
    | nil =>
      cases hc
      exact hfirst rfl
    | cons d cs => exact h.first c hc
  . rw [h.normalised, List.map_append, List.map_singleton]
  . rw [h.starts, starts_concat, hlength]
  . rw [h.ends, stops_concat, List.flatten_append, List.flatten_singleton, List.length_append, ← Nat.add_assoc,
      hlength]

/--
A space after a run of spaces makes the run longer.
-/
theorem Mapped.extend {lead c : JsString} {cs : List JsString} {m : Mapping} {ch : CodeUnit}
    (h : Mapped L text lead (cs ++ [c]) m) (hc : c.all isSpace = true) (hch : isSpace ch = true)
    : Mapped L (text ++ [ch]) lead (cs ++ [c ++ [ch]]) { m with ends := m.ends.dropLast ++ [text.length + 1] } := by
  have hall : (c ++ [ch]).all isSpace = true := by
    simp only [List.all_append, hc, List.all_cons, hch, List.all_nil, Bool.and_self]
  have hlength : lead.length + (cs ++ [c]).flatten.length = text.length := by
    rw [h.text_eq, List.length_append]
  refine ⟨h.lead_all, ?_, ⟨?_, ?_⟩, ?_, ?_, ?_, ?_⟩
  . rw [h.text_eq]
    simp
  . intro d hd
    rcases List.mem_append.mp hd with hd | hd
    . exact h.chunked.isChunk d (by simp [hd])
    . rw [List.mem_singleton.mp hd]
      exact ⟨by simp, .inl hall⟩
  . have hchain := h.chunked.isChain
    rw [List.isChain_append] at hchain ⊢
    refine ⟨hchain.left, List.isChain_singleton _, ?_⟩
    intro a ha b hb
    rw [List.head?_singleton, Option.mem_some_iff] at hb
    rintro ⟨haall, _⟩
    exact hchain.right.right a ha c (by simp) ⟨haall, hc⟩
  . intro d hd
    cases cs with
    | nil =>
      have := h.first c rfl
      rw [hc] at this
      contradiction
    | cons e cs => exact h.first d hd
  . rw [h.normalised, List.map_append, List.map_append, List.map_singleton, List.map_singleton]
    unfold face
    rw [if_pos hc, if_pos hall]
  . rw [h.starts, starts_concat, starts_concat]
  . rw [h.ends, stops_concat, stops_concat, List.dropLast_concat, ← hlength]
    simp
    omega

theorem mapped_mapUnit {lead : JsString} {cs : List JsString} {m : Mapping} {ch : CodeUnit}
    (h : Mapped L text lead cs m) (hone : isSpace ch = false → ∃ d, L.toLowerCase [ch] = [d])
    : ∃ lead' cs', Mapped L (text ++ [ch]) lead' cs' (mapUnit L m (ch, text.length)) := by
  unfold mapUnit
  dsimp only
  split
  . next hch =>
    have hblank : IsChunk isSpace [ch] := ⟨by simp, .inl (by simpa using hch)⟩
    have hface : L.unit (face isSpace space [ch]) = space := by
      simp [face, hch, L.unit_of_isSpace isSpace_space]
    cases cs using List.reverseRecOn with
    | nil =>
      have hlead := h.text_eq
      rw [List.flatten_nil, List.append_nil] at hlead
      have hall : (lead ++ [ch]).all isSpace = true := by
        simp [h.lead_all, hch]
      rw [if_pos (by simp [h.normalised])]
      refine ⟨lead ++ [ch], [], hall, by simp [hlead], h.chunked, h.first, h.normalised, h.starts, h.ends⟩
    | append_singleton cs c =>
      have hc := h.chunked.isChunk c (by simp)
      have hlast : m.normalised.getLast? = some (L.unit (face isSpace space c)) := by
        rw [h.normalised]
        simp
      rw [if_neg (by simp [h.normalised]), hlast]
      by_cases hall : c.all isSpace = true
      . have hspace : L.unit (face isSpace space c) = space := by
          simp [face, hall, L.unit_of_isSpace isSpace_space]
        rw [if_pos (congrArg some hspace)]
        exact ⟨lead, _, h.extend hall hch⟩
      . have hspace : L.unit (face isSpace space c) ≠ space := by
          intro heq
          have hisSpace := L.isSpace_unit (face isSpace space c)
          rw [heq, isSpace_space, all_of_isSpace_face hc] at hisSpace
          exact hall hisSpace.symm
        rw [if_neg fun heq => hspace (Option.some.inj heq), ← hface]
        refine ⟨lead, _, h.concat hblank ?_ ?_⟩
        . intro d hd hdall
          rw [List.getLast?_concat, Option.some.injEq] at hd
          exact absurd (hd ▸ hdall) hall
        . intro hnil
          exact absurd hnil (by simp)
  . next hch =>
    rw [Bool.not_eq_true] at hch
    have hword : IsChunk isSpace [ch] := ⟨by simp, .inr ⟨ch, hch, rfl⟩⟩
    have ⟨d, hd⟩ := hone hch
    have hface : L.toLowerCase [ch] = [L.unit (face isSpace space [ch])] := by
      simp [face, hch, LowerCase.unit, hd]
    have hnot : [ch].all isSpace = false := by
      simp [hch]
    rw [hface]
    exact ⟨lead, _, h.concat hword (fun _ _ _ => hnot) fun _ => hnot⟩

theorem mapText_concat (text : JsString) (ch : CodeUnit)
    : mapText L (text ++ [ch]) = mapUnit L (mapText L text) (ch, text.length) := by
  unfold mapText
  rw [List.zipIdx_append, List.foldl_append]
  simp

theorem mapped_mapText (h : ∀ c ∈ text, isSpace c = false → ∃ d, L.toLowerCase [c] = [d])
    : ∃ lead cs, Mapped L text lead cs (mapText L text) := by
  induction text using List.reverseRecOn with
  | nil =>
    refine ⟨[], [], rfl, rfl, ⟨?_, List.isChain_nil⟩, ?_, rfl, rfl, rfl⟩
    . intro c hc
      contradiction
    . intro c hc
      contradiction
  | append_singleton text ch ih =>
    have ⟨lead, cs, hmapped⟩ := ih fun c hc => h c (by simp [hc])
    rw [mapText_concat]
    exact mapped_mapUnit hmapped (h ch (by simp))

end Mapping

section Indices

variable {target : JsString}

/--
Every index is one of an occurrence, and the next one comes after it.
-/
theorem of_mem_indices (start : Nat) (rest : JsString)
    : (∀ i ∈ indices target start rest, start ≤ i ∧ target <+: rest.drop (i - start))
        ∧ (indices target start rest).Pairwise fun i j => i + target.length ≤ j := by
  fun_induction indices target start rest with
  | case1 => simp
  | case2 => simp
  | case3 start rest hne left right hcut step ih =>
    have ⟨hmem, hpairwise⟩ := ih
    constructor
    . intro i hi
      rcases List.mem_cons.mp hi with heq | hi
      . rw [heq, Nat.add_sub_cancel_left, Cut.eq_of_cut hcut, List.append_assoc, List.drop_left]
        exact ⟨Nat.le_add_right _ _, List.prefix_append _ _⟩
      . have ⟨hle, hprefix⟩ := hmem i hi
        rw [List.drop_drop] at hprefix
        have hsub : step + (i - (start + step)) = i - start := by
          omega
        rw [hsub] at hprefix
        exact ⟨by omega, hprefix⟩
    . rw [List.pairwise_cons]
      refine ⟨fun j hj => ?_, hpairwise⟩
      have hle := (hmem j hj).left
      have hstep : step = left.length + max target.length 1 := rfl
      omega

theorem indices_ne_nil {start : Nat} {rest : JsString} (hne : target ≠ []) (h : target <:+: rest)
    : indices target start rest ≠ [] := by
  unfold indices
  have hrest : rest ≠ [] := by
    rintro rfl
    exact hne (List.infix_nil.mp h)
  rw [if_neg hrest]
  cases hcut : Cut.cut target rest with
  | none => exact absurd h (Cut.cut_eq_none_iff.mp hcut)
  | some parts => simp

theorem prefix_trimEnd_append {text : JsString} (h : ∀ c, text.getLast? = some c → isSpace c = false) (rest : JsString)
    : text <+: trimEnd (text ++ rest) := by
  unfold trimEnd
  induction rest using List.reverseRecOn with
  | nil =>
    have hself : text.rdropWhile isSpace = text := by
      rw [List.rdropWhile_eq_self_iff]
      intro hne
      rw [Bool.not_eq_true]
      exact h _ (List.getLast?_eq_some_getLast hne)
    rw [List.append_nil, hself]
  | append_singleton rest c ih =>
    rw [← List.append_assoc, List.rdropWhile_concat]
    split
    . exact ih
    . exact (List.prefix_append text rest).trans (List.prefix_append _ _)

end Indices

section Faithful

variable {L : LowerCase} {text lead needle : JsString} {cs : List JsString} {m : Mapping}

theorem Mapped.head?_flatten (h : Mapped L text lead cs m) {x : CodeUnit} (hx : cs.flatten.head? = some x)
    : isSpace x = false := by
  cases cs with
  | nil => cases hx
  | cons c cs =>
    have hc := h.chunked.isChunk c (by simp)
    rcases hc.all_or with hall | ⟨y, hy, heq⟩
    . rw [h.first c rfl] at hall
      contradiction
    . rw [heq] at hx
      cases hx
      exact hy

theorem Mapped.collapse_eq (h : Mapped L text lead cs m)
    : collapse text = collapse lead ++ cs.map (face isSpace space) := by
  rw [← h.chunked.squeeze_flatten]
  conv => lhs; rw [h.text_eq]
  exact squeeze_append fun x hx => h.head?_flatten hx

/--
Slices of the collapsed text are lower-cased as the loop does it.
-/
theorem Mapped.toLowerCase_eq (h : Mapped L text lead cs m) (hunits : UnitByUnit L text) {s : JsString}
    (hs : s <:+: cs.map (face isSpace space)) : L.toLowerCase s = s.map L.unit := by
  have hunit : ∀ c ∈ s, L.toLowerCase [c] = [L.unit c] := by
    intro c hc
    cases hspace : isSpace c with
    | true => rw [L.space c hspace, L.unit_of_isSpace hspace]
    | false =>
      have ⟨chunk, hchunk, heq⟩ := List.mem_map.mp (hs.subset hc)
      have hall : chunk.all isSpace = false := by
        rw [← all_of_isSpace_face (h.chunked.isChunk chunk hchunk), heq, hspace]
      rcases (h.chunked.isChunk chunk hchunk).all_or with hblank | ⟨x, hx, hxeq⟩
      . rw [hall] at hblank
        contradiction
      . have hc : x = c := by
          rw [← heq, hxeq]
          simp [face, hx]
        have hmem : c ∈ text := by
          rw [h.text_eq, ← hc]
          apply List.mem_append_right
          exact List.mem_flatten.mpr ⟨chunk, hchunk, by simp [hxeq]⟩
        have ⟨d, hd⟩ := hunits.one c hmem hspace
        simp [LowerCase.unit, hd]
  have hinfix : s <:+: collapse text := by
    rw [h.collapse_eq]
    exact hs.trans (List.suffix_append _ _).isInfix
  rw [hunits.each s hinfix, List.flatMap_def, List.map_congr_left hunit, ← List.flatMap_def]
  exact List.flatMap_pure_eq_map L.unit s

/--
The range of some entries, which collapses to what the entries stand for.
-/
theorem Mapped.slice_eq (h : Mapped L text lead cs m) {index count : Nat} (hcount : 0 < count)
    (hlength : index + count ≤ cs.length)
    : ∃ start stop, m.starts[index]? = some start ∧ m.ends[index + count - 1]? = some stop
        ∧ start = lead.length + (cs.take index).flatten.length
        ∧ stop = lead.length + (cs.take (index + count)).flatten.length
        ∧ collapse ((text.take stop).drop start) = ((cs.map (face isSpace space)).drop index).take count := by
  refine ⟨_, _, ?_, ?_, rfl, rfl, ?_⟩
  . rw [h.starts]
    exact starts_getElem? (by omega)
  . have hsub : index + count - 1 + 1 = index + count := by
      omega
    rw [h.ends, stops_getElem? (by omega), hsub]
  . conv => lhs; arg 1; rw [h.text_eq]
    rw [List.take_length_add_append, List.drop_length_add_append, flatten_take_drop, ← List.map_drop, ← List.map_take]
    refine (h.chunked.of_isInfix ?_).squeeze_flatten
    exact (List.take_prefix _ _).isInfix.trans (List.drop_suffix _ _).isInfix

variable (L text needle) in
/--
Matches that are true and complete: ranges of the text in increasing order that do not overlap, each of a slice that
normalises to the needle, and at least one if there is such a slice.
-/
structure Faithful : Prop where
  bounded : ∀ r ∈ findNormalizedRanges L text (some needle),
    ∃ start stop, r = ⟨some start, some stop⟩ ∧ start < stop ∧ stop ≤ text.length
  increasing : (findNormalizedRanges L text (some needle)).Pairwise fun r s =>
    ∀ stop ∈ r.stop, ∀ start ∈ s.start, stop ≤ start
  matching : ∀ r ∈ findNormalizedRanges L text (some needle), ∀ start ∈ r.start, ∀ stop ∈ r.stop,
    L.toLowerCase (collapse ((text.take stop).drop start)) = normalise L needle
  complete : (∃ start stop, normalise L ((text.take stop).drop start) = normalise L needle)
    → findNormalizedRanges L text (some needle) ≠ []

/--
An index of the searchable text stands for a range of the text.
-/
theorem Mapped.of_index (h : Mapped L text lead cs m) (hunits : UnitByUnit L text) {target : JsString}
    (hne : 0 < target.length) {index : Nat} (hindex : target <+: (trimEnd m.normalised).drop index)
    : ∃ start stop, m.starts[index]? = some start ∧ m.ends[index + target.length - 1]? = some stop
        ∧ start = lead.length + (cs.take index).flatten.length
        ∧ stop = lead.length + (cs.take (index + target.length)).flatten.length
        ∧ index + target.length ≤ cs.length
        ∧ L.toLowerCase (collapse ((text.take stop).drop start)) = target := by
  have hprefix : target <+: ((cs.map (face isSpace space)).drop index).map L.unit := by
    have hnormalised : m.normalised = cs.map (L.unit ∘ face isSpace space) := h.normalised
    rw [List.map_drop, List.map_map, ← hnormalised]
    exact hindex.trans ((trimEnd_isPrefix m.normalised).drop index)
  have hlength : index + target.length ≤ cs.length := by
    have := hprefix.length_le
    simp only [List.length_map, List.length_drop] at this
    omega
  have ⟨start, stop, hstart, hstop, hstartEq, hstopEq, hslice⟩ := h.slice_eq hne hlength
  refine ⟨start, stop, hstart, hstop, hstartEq, hstopEq, hlength, ?_⟩
  rw [hslice, h.toLowerCase_eq hunits, List.map_take]
  . exact (List.prefix_iff_eq_take.mp hprefix).symm
  . exact (List.take_prefix _ _).isInfix.trans (List.drop_suffix _ _).isInfix

/--
A slice without spaces at its ends is collapsed where it stands.
-/
theorem Mapped.collapse_infix (h : Mapped L text lead cs m) {before after u : JsString} (hne : u ≠ [])
    (hhead : ∀ c, u.head? = some c → isSpace c = false) (hlast : ∀ c, u.getLast? = some c → isSpace c = false)
    (htext : text = before ++ u ++ after) : collapse u <:+: cs.map (face isSpace space) := by
  have hlead : lead <+: before := by
    have hprefix : lead <+: before ++ (u ++ after) := by
      rw [← List.append_assoc, ← htext, h.text_eq]
      exact List.prefix_append _ _
    rcases List.prefix_or_prefix_of_prefix hprefix (List.prefix_append before _) with hshort | ⟨rest, hrest⟩
    . exact hshort
    . rw [← hrest, List.prefix_append_right_inj] at hprefix
      cases rest with
      | nil => rw [← hrest, List.append_nil]
      | cons x rest =>
        cases u with
        | nil => exact absurd rfl hne
        | cons c u =>
          have hx : x = c := (List.cons_prefix_cons.mp hprefix).left
          have hall := List.all_eq_true.mp h.lead_all x (by rw [← hrest]; simp)
          rw [hx, hhead c rfl] at hall
          contradiction
  have ⟨rest, hrest⟩ := hlead
  have hflatten : cs.flatten = rest ++ (u ++ after) := by
    have := h.text_eq.symm.trans htext
    rw [← hrest, List.append_assoc, List.append_assoc] at this
    exact List.append_cancel_left this
  rw [← h.chunked.squeeze_flatten, hflatten, squeeze_append, squeeze_append_of_last hlast]
  . exact ⟨collapse rest, collapse after, by simp [collapse]⟩
  . intro c hc
    cases u with
    | nil => exact absurd rfl hne
    | cons d u => exact hhead c hc

theorem head?_trim {s : JsString} {c : CodeUnit} (h : (trim s).head? = some c) : isSpace c = false := by
  have ⟨rest, hrest⟩ := trimEnd_isPrefix (s.dropWhile isSpace)
  have hdrop := List.head?_dropWhile_not isSpace s
  cases htrim : trim s with
  | nil => rw [htrim] at h; cases h
  | cons d u =>
    rw [htrim] at h
    unfold trim at htrim
    rw [htrim] at hrest
    rw [← hrest] at hdrop
    cases h
    simpa using hdrop

theorem getLast?_trim {s : JsString} {c : CodeUnit} (h : (trim s).getLast? = some c) : isSpace c = false := by
  have hself : trimEnd (trim s) = trim s := List.rdropWhile_idempotent _ _
  unfold trimEnd at hself
  rw [List.rdropWhile_eq_self_iff] at hself
  have hne : trim s ≠ [] := by
    intro hnil
    rw [hnil] at h
    cases h
  rw [List.getLast?_eq_some_getLast hne] at h
  cases h
  simpa using hself hne

/--
The last unit of a collapsed text without spaces at its end.
-/
theorem getLast?_collapse {u : JsString} (h : ∀ c, u.getLast? = some c → isSpace c = false)
    : (collapse u).getLast? = u.getLast? := by
  cases u using List.reverseRecOn with
  | nil => rfl
  | append_singleton u c =>
    have hc : isSpace c = false := h c (by simp)
    have hone : squeeze isSpace space [c] = [c] := by
      simp [squeeze, squeezeFrom, hc]
    unfold collapse
    rw [squeeze_append, hone, List.getLast?_concat, List.getLast?_concat]
    intro d hd
    cases hd
    exact hc

theorem infix_trim (s : JsString) : trim s <:+: s :=
  (trimEnd_isPrefix _).isInfix.trans (List.dropWhile_suffix _).isInfix

/--
A slice that normalises to a target shows that the target is in the searchable text.
-/
theorem Mapped.infix_searchable (h : Mapped L text lead cs m) (hunits : UnitByUnit L text) {s : JsString}
    (hs : s <:+: text) (hne : normalise L s ≠ []) : normalise L s <:+: trimEnd m.normalised := by
  have htrim : trim s ≠ [] := by
    intro hnil
    refine hne ?_
    unfold normalise
    rw [hnil]
    exact hunits.each [] List.nil_infix
  have ⟨before, after, htext⟩ := (infix_trim s).trans hs
  have hinfix := h.collapse_infix htrim (fun c hc => head?_trim hc) (fun c hc => getLast?_trim hc) htext.symm
  have hnormalise : normalise L s = (collapse (trim s)).map L.unit := h.toLowerCase_eq hunits hinfix
  have hlast : ∀ c, ((collapse (trim s)).map L.unit).getLast? = some c → isSpace c = false := by
    intro c hc
    rw [List.getLast?_map, getLast?_collapse fun c hc => getLast?_trim hc, Option.map_eq_some_iff] at hc
    have ⟨d, hd, heq⟩ := hc
    rw [← heq, L.isSpace_unit]
    exact getLast?_trim hd
  have ⟨front, back, heq⟩ := hinfix
  have hnormalised : m.normalised
      = (front.map L.unit ++ (collapse (trim s)).map L.unit) ++ back.map L.unit := by
    have : m.normalised = (cs.map (face isSpace space)).map L.unit := by
      rw [h.normalised, List.map_map]
      rfl
    rw [this, ← heq, List.map_append, List.map_append]
  rw [hnormalise, hnormalised]
  refine List.IsInfix.trans (List.suffix_append (front.map L.unit) _).isInfix (prefix_trimEnd_append ?_ _).isInfix
  intro c hc
  rw [List.getLast?_append] at hc
  cases hback : ((collapse (trim s)).map L.unit).getLast? with
  | none =>
    rw [List.getLast?_eq_none_iff] at hback
    exact absurd (hnormalise.trans hback) hne
  | some last =>
    rw [hback] at hc
    cases hc
    exact hlast c hback

/--
The matches are true and complete if the text is lower-cased unit by unit.
-/
theorem faithful_of_unitByUnit (hlength : 3 ≤ (normalise L needle).length) (hunits : UnitByUnit L text)
    : Faithful L text needle := by
  have ⟨lead, cs, hmapped⟩ := mapped_mapText hunits.one
  have hfind : findNormalizedRanges L text (some needle)
      = (indices (normalise L needle) 0 (trimEnd (mapText L text).normalised)).map fun index =>
        ⟨(mapText L text).starts[index]?, (mapText L text).ends[index + (normalise L needle).length - 1]?⟩ := by
    unfold findNormalizedRanges
    dsimp only
    rw [if_neg (by omega)]
  have ⟨hmem, hpairwise⟩ := @of_mem_indices (normalise L needle) 0 (trimEnd (mapText L text).normalised)
  have hindex (index : Nat) (hi : index ∈ indices (normalise L needle) 0 (trimEnd (mapText L text).normalised)) :=
    @Mapped.of_index L text lead cs _ hmapped hunits _ (Nat.lt_of_lt_of_le (by omega) hlength) index
      (hmem index hi).right
  have hrange {r : TextRange} (hr : r ∈ findNormalizedRanges L text (some needle))
      : ∃ index ∈ indices (normalise L needle) 0 (trimEnd (mapText L text).normalised),
        r = ⟨(mapText L text).starts[index]?, (mapText L text).ends[index + (normalise L needle).length - 1]?⟩ := by
    rw [hfind] at hr
    have ⟨index, hi, heq⟩ := List.mem_map.mp hr
    exact ⟨index, hi, heq.symm⟩
  refine ⟨?_, ?_, ?_, ?_⟩
  . intro r hr
    have ⟨index, hi, heq⟩ := hrange hr
    have ⟨start, stop, hstart, hstop, hstartEq, hstopEq, hle, _⟩ := hindex index hi
    refine ⟨start, stop, by rw [heq, hstart, hstop], ?_, ?_⟩
    . have := hmapped.chunked.length_flatten_take_lt (show index < index + (normalise L needle).length by omega) hle
      omega
    . have hall := @length_flatten_take_le CodeUnit cs _ _ hle
      rw [List.take_length] at hall
      have htext := congrArg List.length hmapped.text_eq
      rw [List.length_append] at htext
      omega
  . rw [hfind, List.pairwise_map]
    refine hpairwise.imp_of_mem ?_
    intro i j hi hj hij stop hstop start hstart
    have ⟨_, stop', _, hstop', _, hstopEq, _, _⟩ := hindex i hi
    have ⟨start', _, hstart', _, hstartEq, _, _, _⟩ := hindex j hj
    rw [hstop'] at hstop
    rw [hstart'] at hstart
    cases hstop
    cases hstart
    have := @length_flatten_take_le CodeUnit cs _ _ hij
    omega
  . intro r hr start hstart stop hstop
    have ⟨index, hi, heq⟩ := hrange hr
    have ⟨start', stop', hstart', hstop', _, _, _, hmatch⟩ := hindex index hi
    rw [heq] at hstart hstop
    rw [hstart'] at hstart
    rw [hstop'] at hstop
    cases hstart
    cases hstop
    exact hmatch
  . rintro ⟨start, stop, hslice⟩
    rw [hfind]
    have hne : normalise L needle ≠ [] := by
      intro hnil
      rw [hnil] at hlength
      contradiction
    have hinfix := @Mapped.infix_searchable L text lead cs _ hmapped hunits ((text.take stop).drop start) ?_ ?_
    . rw [hslice] at hinfix
      simpa using indices_ne_nil hne hinfix
    . exact (List.drop_suffix _ _).isInfix.trans (List.take_prefix _ _).isInfix
    . rw [hslice]
      exact hne

end Faithful

section Examples

/--
The lower case of a letter of English, or of the dotted capital I, which takes two units.
-/
def lowerUnit (c : CodeUnit) : JsString :=
  if 0x41 ≤ c.val ∧ c.val ≤ 0x5A then [c + 0x20]
  else if c = 0x130 then [0x69, 0x307]
  else [c]

theorem isSpace_eq_false {c : CodeUnit} (h : 0x61 ≤ c.val ∧ c.val ≤ 0x7A) : isSpace c = false := by
  simp [isSpace]
  omega

theorem lowerUnit_of_isSpace {c : CodeUnit} (h : isSpace c = true) : lowerUnit c = [c] := by
  unfold lowerUnit
  rw [if_neg, if_neg]
  . rintro rfl
    revert h
    decide
  . intro hletter
    simp [isSpace] at h
    omega

def lowerCase : LowerCase where
  toLowerCase s := s.flatMap lowerUnit
  space c h := by
    rw [List.flatMap_singleton, lowerUnit_of_isSpace h]
  word c h d hd := by
    rw [List.flatMap_singleton] at hd
    unfold lowerUnit at hd
    split at hd
    . next hletter =>
      rw [List.mem_singleton.mp hd]
      apply isSpace_eq_false
      have : (c + 0x20 : CodeUnit).val = c.val + 0x20 := by
        rw [Fin.val_add]
        omega
      omega
    . split at hd
      . rcases List.mem_pair.mp hd with rfl | rfl <;> decide
      . rw [List.mem_singleton.mp hd]
        exact h

/--
Behind a dotted capital I, every match ends one unit too late.
-/
theorem dottedI_not_faithful
    : normalise lowerCase (js "lease") = js "lease"
        ∧ findNormalizedRanges lowerCase (js "\u0130zmir leases") (some (js "lease")) = [⟨some 7, some 12⟩]
        ∧ ((js "\u0130zmir leases").take 12).drop 7 = js "eases"
        ∧ ¬ Faithful lowerCase (js "\u0130zmir leases") (js "lease") := by
  have hfind : findNormalizedRanges lowerCase (js "\u0130zmir leases") (some (js "lease")) = [⟨some 7, some 12⟩] := by
    decide +kernel
  refine ⟨by decide +kernel, hfind, by decide +kernel, fun h => ?_⟩
  have hmatch := h.matching ⟨some 7, some 12⟩ (by rw [hfind]; exact List.mem_cons_self) 7 rfl 12 rfl
  revert hmatch
  decide +kernel

theorem unitByUnit_lines : UnitByUnit lowerCase (js "Line one\nline two") := by
  have hone : ((js "Line one\nline two").all fun c => (lowerCase.toLowerCase [c]).length = 1) = true := by
    decide +kernel
  simp only [List.all_eq_true, decide_eq_true_eq] at hone
  refine ⟨fun c hc _ => List.length_eq_one_iff.mp (hone c hc), fun s _ => ?_⟩
  simp [lowerCase]

theorem faithful_of_unitByUnit_lines : Faithful lowerCase (js "Line one\nline two") (js "one line") :=
  faithful_of_unitByUnit (by decide +kernel) unitByUnit_lines

end Examples

end EditorText
