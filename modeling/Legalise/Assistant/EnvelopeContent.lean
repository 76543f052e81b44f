import Legalise.Python.JsonText
import Legalise.Python.Text

/-!
This module contains what the assistant shows of a reply while it streams: the value of the envelope's
`content` field, decoded from the text that has arrived.
-/

namespace EnvelopeContent

open PyStr JsonText

section Search

def fieldName : PyStr :=
  py "\"content\""

/--
What stands behind a match of `_CONTENT_FIELD_RE` at the front of a text.
-/
def matchField (s : PyStr) : Option PyStr :=
  if fieldName.isPrefixOf s then
    match (s.drop fieldName.length).dropWhile isSpace with
    | [] => none
    | c :: s =>
      if c = colon then
        match s.dropWhile isSpace with
        | [] => none
        | d :: s => if d = quoteMark then some s else none
      else none
  else none

/--
What stands behind the first match in a text.
-/
def searchField : PyStr → Option PyStr
  | [] => none
  | c :: s =>
    match matchField (c :: s) with
    | some rest => some rest
    | none => searchField s

end Search

section Decode

/--
`_JSON_STRING_ESCAPES`
-/
def jsonStringEscapes : List (CodePoint × CodePoint) :=
  [
    (quoteMark, quoteMark),
    (backslash, backslash),
    (0x2f, 0x2f),
    (0x62, 0x08),
    (0x66, 0x0c),
    (0x6e, 0x0a),
    (0x72, 0x0d),
    (0x74, 0x09)
  ]

def replacement : CodePoint := 0xfffd

/--
`chr(code)`, where `none` stands for a `ValueError`.
-/
def chr (code : Int) : Option CodePoint :=
  if h : 0 ≤ code ∧ code < 0x110000 then some ⟨code.toNat, by omega⟩ else none

/--
The low surrogate of a second escape.
-/
def lowSurrogate (lowEsc : PyStr) : Option Int :=
  if [backslash, smallU].isPrefixOf lowEsc then
    (toInt 16 (lowEsc.drop 2)).filter fun low => 0xdc00 ≤ low ∧ low ≤ 0xdfff
  else none

/--
What a round of the loop does: it stops, goes on behind what it has decoded, or raises.
-/
inductive Round where
  | stop
  | next (out rest : PyStr)
  | raise
  deriving DecidableEq

/--
A round behind `\u`.
-/
def unicodeRound (s : PyStr) : Round :=
  if s.length < 4 then .stop
  else
    match toInt 16 (s.take 4) with
    | none => .next [] (s.drop 4)
    | some code =>
      if 0xd800 ≤ code ∧ code ≤ 0xdbff then
        if s.length < 10 then .stop
        else
          match lowSurrogate ((s.drop 4).take 6) with
          | some low =>
            match chr (0x10000 + (code - 0xd800) * 0x400 + (low - 0xdc00)) with
            | some c => .next [c] (s.drop 10)
            | none => .raise
          | none => .next [replacement] (s.drop 4)
      else if 0xdc00 ≤ code ∧ code ≤ 0xdfff then .next [replacement] (s.drop 4)
      else
        match chr code with
        | some c => .next [c] (s.drop 4)
        | none => .raise

/--
One round of the loop. What is incomplete at the end of the text is held back.
-/
def decodeRound : PyStr → Round
  | [] => .stop
  | ch :: s =>
    if ch = quoteMark then .stop
    else if ch ≠ backslash then .next [ch] s
    else
      match s with
      | [] => .stop
      | esc :: s =>
        if esc ≠ smallU then .next [(jsonStringEscapes.lookup esc).getD esc] s else unicodeRound s

theorem length_lt_of_unicodeRound {s out rest : PyStr} (h : unicodeRound s = .next out rest)
    : rest.length < s.length := by
  unfold unicodeRound at h
  split at h
  . cases h
  . next hfour =>
    have hdrop (n : Nat) (hn : 0 < n) : (s.drop n).length < s.length := by
      rw [List.length_drop]
      omega
    split at h
    . injection h with _ hrest
      exact hrest ▸ hdrop 4 (by omega)
    . split at h
      . split at h
        . cases h
        . split at h
          . split at h
            . injection h with _ hrest
              exact hrest ▸ hdrop 10 (by omega)
            . cases h
          . injection h with _ hrest
            exact hrest ▸ hdrop 4 (by omega)
      . split at h
        . injection h with _ hrest
          exact hrest ▸ hdrop 4 (by omega)
        . split at h
          . injection h with _ hrest
            exact hrest ▸ hdrop 4 (by omega)
          . cases h

theorem length_lt_of_decodeRound {raw out rest : PyStr} (h : decodeRound raw = .next out rest)
    : rest.length < raw.length := by
  unfold decodeRound at h
  split at h
  . cases h
  . split at h
    . cases h
    . split at h
      . injection h with _ hrest
        rw [← hrest]
        simp
      . split at h
        . cases h
        . split at h
          . injection h with _ hrest
            rw [← hrest]
            simp only [List.length_cons]
            omega
          . have := length_lt_of_unicodeRound h
            simp only [List.length_cons]
            omega

inductive ValueError where
  /-- "chr() arg not in range(0x110000)" -/
  | chrRange
  deriving DecidableEq

/--
The loop over the text behind the field's opening quote.
-/
def decode (raw : PyStr) : Except ValueError PyStr :=
  match _hround : decodeRound raw with
  | .stop => .ok []
  | .raise => .error .chrRange
  | .next out rest => (decode rest).map fun more => out ++ more
termination_by raw.length
decreasing_by exact length_lt_of_decodeRound (by assumption)

/--
`_partial_envelope_content`
-/
def partialEnvelopeContent (raw : PyStr) : Except ValueError PyStr :=
  match searchField raw with
  | none => .ok []
  | some rest => decode rest

theorem decode_of_stop {raw : PyStr} (h : decodeRound raw = .stop) : decode raw = .ok [] := by
  rw [decode]
  split <;> simp_all

theorem decode_of_raise {raw : PyStr} (h : decodeRound raw = .raise) : decode raw = .error .chrRange := by
  rw [decode]
  split <;> simp_all

theorem decode_of_next {raw out rest : PyStr} (h : decodeRound raw = .next out rest)
    : decode raw = (decode rest).map fun more => out ++ more := by
  rw [decode]
  split <;> simp_all

end Decode

section Extension

/--
A match in a text stays one, and what follows the text follows what stood behind it.
-/
theorem matchField_eq_some_iff {s rest : PyStr}
    : matchField s = some rest
        ↔
      ∃ before after, (∀ c ∈ before ++ after, isSpace c = true)
        ∧ s = fieldName ++ (before ++ colon :: (after ++ quoteMark :: rest)) := by
  have hcolon : isSpace colon = false := by decide
  have hquote : isSpace quoteMark = false := by decide
  constructor
  . intro h
    unfold matchField at h
    split at h
    . next hname =>
      split at h
      . cases h
      . next c t hbefore =>
        split at h
        . next hc =>
          split at h
          . cases h
          . next d u hafter =>
            split at h
            . next hd =>
              injection h with h
              subst hc hd h
              have hsplit := List.takeWhile_append_dropWhile (p := isSpace) (l := s.drop fieldName.length)
              have hsplit' := List.takeWhile_append_dropWhile (p := isSpace) (l := t)
              refine ⟨(s.drop fieldName.length).takeWhile isSpace, t.takeWhile isSpace, ?_, ?_⟩
              . intro c hc
                rcases List.mem_append.mp hc with hc | hc <;> exact List.mem_takeWhile_imp hc
              . rw [hafter] at hsplit'
                rw [hbefore, ← hsplit'] at hsplit
                have hwhole := List.prefix_iff_eq_append.mp (List.isPrefixOf_iff_prefix.mp hname)
                rw [← hsplit] at hwhole
                exact hwhole.symm
            . cases h
        . cases h
    . cases h
  . rintro ⟨before, after, hspaces, rfl⟩
    have hbefore : (before ++ colon :: (after ++ quoteMark :: rest)).dropWhile isSpace
        = colon :: (after ++ quoteMark :: rest) := by
      rw [List.dropWhile_append_of_pos fun c hc => hspaces c (List.mem_append_left _ hc), List.dropWhile_cons, hcolon]
      rfl
    have hafter : (after ++ quoteMark :: rest).dropWhile isSpace = quoteMark :: rest := by
      rw [List.dropWhile_append_of_pos fun c hc => hspaces c (List.mem_append_right _ hc), List.dropWhile_cons, hquote]
      rfl
    unfold matchField
    rw [if_pos (List.isPrefixOf_iff_prefix.mpr (List.prefix_append _ _)), List.drop_left, hbefore]
    dsimp only
    rw [if_pos rfl, hafter]
    rfl

theorem matchField_append {s rest : PyStr} (h : matchField s = some rest) (more : PyStr)
    : matchField (s ++ more) = some (rest ++ more) := by
  rw [matchField_eq_some_iff] at h ⊢
  obtain ⟨before, after, hspaces, rfl⟩ := h
  exact ⟨before, after, hspaces, by simp⟩

theorem count_fieldName : fieldName.count quoteMark = 2 := by
  decide

theorem count_of_searchField {s rest : PyStr} (h : searchField s = some rest) : 3 ≤ s.count quoteMark := by
  induction s with
  | nil => cases h
  | cons c s ih =>
    unfold searchField at h
    split at h
    . next hmatch =>
      have ⟨before, after, _, heq⟩ := matchField_eq_some_iff.mp hmatch
      rw [heq]
      simp only [List.count_append, List.count_cons, count_fieldName, beq_self_eq_true, if_true]
      omega
    . have := ih h
      rw [List.count_cons]
      omega

/--
The first match stays the first one. What was no match for want of text holds at most two quotes, so there is
no match behind it.
-/
theorem searchField_append {s rest : PyStr} (h : searchField s = some rest) (more : PyStr)
    : searchField (s ++ more) = some (rest ++ more) := by
  induction s with
  | nil => cases h
  | cons c s ih =>
    unfold searchField at h
    rw [List.cons_append, searchField]
    split at h
    . next hmatch =>
      injection h with h
      have hlonger := matchField_append hmatch more
      rw [List.cons_append] at hlonger
      rw [hlonger, h]
    . next hnone =>
      have hstill : matchField (c :: (s ++ more)) = none := by
        rw [Option.eq_none_iff_forall_ne_some]
        intro rest' hsome
        have ⟨before, after, hspaces, heq⟩ := matchField_eq_some_iff.mp hsome
        have hassoc : fieldName ++ (before ++ colon :: (after ++ quoteMark :: rest'))
            = (fieldName ++ (before ++ colon :: after) ++ [quoteMark]) ++ rest' := by
          simp
        rw [← List.cons_append, hassoc, List.append_eq_append_iff] at heq
        rcases heq with ⟨tail, hshort, _⟩ | ⟨tail, hlong, _⟩
        . cases htail : tail.reverse with
          | nil =>
            rw [List.reverse_eq_nil_iff.mp htail, List.append_nil] at hshort
            have : matchField (c :: s) = some [] :=
              matchField_eq_some_iff.mpr ⟨before, after, hspaces, by rw [← hshort]; simp⟩
            rw [hnone] at this
            cases this
          | cons last init =>
            have hsplit : tail = init.reverse ++ [last] := by
              rw [← List.reverse_cons, ← htail, List.reverse_reverse]
            have hends : (fieldName ++ (before ++ colon :: after)) ++ [quoteMark] = (c :: s ++ init.reverse) ++ [last] := by
              rw [hshort, hsplit, List.append_assoc]
            have hinit := (List.append_inj' hends rfl).left
            have hcount := congrArg (List.count quoteMark) hinit
            have hnoquote {t : PyStr} (ht : ∀ c ∈ t, isSpace c = true) : t.count quoteMark = 0 := by
              rw [List.count_eq_zero]
              intro hmem
              have hspace := ht _ hmem
              revert hspace
              decide
            have hbefore := hnoquote fun c hc => hspaces c (List.mem_append_left _ hc)
            have hafter := hnoquote fun c hc => hspaces c (List.mem_append_right _ hc)
            have hthree := count_of_searchField h
            simp only [List.count_append, List.count_cons, count_fieldName, hbefore, hafter] at hcount
            have hcolon : (colon == quoteMark) = false := by decide
            rw [hcolon] at hcount
            simp only [Bool.false_eq_true, if_false] at hcount
            omega
        . have : matchField (c :: s) = some tail :=
            matchField_eq_some_iff.mpr ⟨before, after, hspaces, by rw [hlong]; simp⟩
          rw [hnone] at this
          cases this
      rw [hstill]
      exact ih h

theorem unicodeRound_next_append {s out rest : PyStr} (h : unicodeRound s = .next out rest) (more : PyStr)
    : unicodeRound (s ++ more) = .next out (rest ++ more) := by
  unfold unicodeRound at h
  split at h
  . cases h
  . next hfour =>
    have hlength : ¬ (s ++ more).length < 4 := by
      rw [List.length_append]
      omega
    have htake : (s ++ more).take 4 = s.take 4 := List.take_append_of_le_length (by omega)
    have hdrop : (s ++ more).drop 4 = s.drop 4 ++ more := List.drop_append_of_le_length (by omega)
    unfold unicodeRound
    rw [if_neg hlength, htake, hdrop]
    cases hcode : toInt 16 (s.take 4) with
    | none =>
      rw [hcode] at h
      injection h with hout hrest
      rw [← hout, ← hrest]
    | some code =>
      rw [hcode] at h
      dsimp only at h ⊢
      by_cases hhigh : 0xd800 ≤ code ∧ code ≤ 0xdbff
      . rw [if_pos hhigh] at h ⊢
        split at h
        . cases h
        . next hten =>
          have hlength' : ¬ (s ++ more).length < 10 := by
            rw [List.length_append]
            omega
          have htake' : (s.drop 4 ++ more).take 6 = (s.drop 4).take 6 :=
            List.take_append_of_le_length (by rw [List.length_drop]; omega)
          have hdrop' : (s ++ more).drop 10 = s.drop 10 ++ more := List.drop_append_of_le_length (by omega)
          rw [if_neg hlength', htake', hdrop']
          cases hlow : lowSurrogate ((s.drop 4).take 6) with
          | none =>
            rw [hlow] at h
            injection h with hout hrest
            rw [← hout, ← hrest]
          | some low =>
            rw [hlow] at h
            dsimp only at h ⊢
            cases hchr : chr (0x10000 + (code - 0xd800) * 0x400 + (low - 0xdc00)) with
            | none =>
              rw [hchr] at h
              cases h
            | some c =>
              rw [hchr] at h
              injection h with hout hrest
              rw [← hout, ← hrest]
      . rw [if_neg hhigh] at h ⊢
        split at h
        . next hlow =>
          rw [if_pos hlow]
          injection h with hout hrest
          rw [← hout, ← hrest]
        . next hlow =>
          rw [if_neg hlow]
          cases hchr : chr code with
          | none =>
            rw [hchr] at h
            cases h
          | some c =>
            rw [hchr] at h
            injection h with hout hrest
            rw [← hout, ← hrest]

theorem decodeRound_next_append {raw out rest : PyStr} (h : decodeRound raw = .next out rest) (more : PyStr)
    : decodeRound (raw ++ more) = .next out (rest ++ more) := by
  cases raw with
  | nil => cases h
  | cons ch s =>
    rw [List.cons_append]
    unfold decodeRound at h ⊢
    dsimp only at h ⊢
    by_cases hquote : ch = quoteMark
    . rw [if_pos hquote] at h
      cases h
    . rw [if_neg hquote] at h ⊢
      by_cases hplain : ch ≠ backslash
      . rw [if_pos hplain] at h ⊢
        injection h with hout hrest
        rw [← hout, ← hrest]
      . rw [if_neg hplain] at h ⊢
        cases s with
        | nil => cases h
        | cons esc s =>
          rw [List.cons_append]
          dsimp only at h ⊢
          by_cases hletter : esc ≠ smallU
          . rw [if_pos hletter] at h ⊢
            injection h with hout hrest
            rw [← hout, ← hrest]
          . rw [if_neg hletter] at h ⊢
            exact unicodeRound_next_append h more

end Extension

end EnvelopeContent
