import Legalise.Assistant.EnvelopeGrowth
import Legalise.Lib.Assign
import Legalise.Python.JsonRoundTrip

/-!
This module contains that what the streamer shows of a reply is the content of the envelope that is parsed
from the complete reply.
-/

namespace EnvelopeContent

open PyStr JsonText

section Streamer

/--
`_EnvelopeContentStreamer`
-/
structure Streamer where
  raw : PyStr := []
  emitted : Nat := 0

/--
`feed`, with the texts of the `model.delta` events.
-/
def Streamer.feed (s : Streamer) (chunk : PyStr) : Except ValueError (Streamer × List PyStr) := do
  let raw := s.raw ++ chunk
  let content ← partialEnvelopeContent raw
  if s.emitted < content.length then
    return ({ raw := raw, emitted := content.length }, [content.drop s.emitted])
  else return ({ s with raw := raw }, [])

def feedAll (s : Streamer) : List PyStr → Except ValueError (Streamer × List PyStr)
  | [] => .ok (s, [])
  | chunk :: chunks => do
    let (s, deltas) ← s.feed chunk
    let (s, more) ← feedAll s chunks
    return (s, deltas ++ more)

/--
What is shown after some chunks.
-/
def shownAfter (chunks : List PyStr) : Except ValueError PyStr :=
  (feedAll {} chunks).map fun (_, deltas) => deltas.flatten

/--
What is shown grows up to a text.
-/
structure Delivers (chunks : List PyStr) (text : PyStr) : Prop where
  begins : ∀ earlier, earlier <+: chunks → ∃ shown, shownAfter earlier = .ok shown ∧ shown <+: text
  keeps : ∀ earlier later, earlier <+: later → later <+: chunks →
    ∃ shown longer, shownAfter earlier = .ok shown ∧ shownAfter later = .ok longer ∧ shown <+: longer
  ends : shownAfter chunks = .ok text

theorem Streamer.feed_eq {raw chunk content longer : PyStr} (h : partialEnvelopeContent raw = .ok content)
    (hlonger : partialEnvelopeContent (raw ++ chunk) = .ok longer)
    : ∃ deltas, Streamer.feed ⟨raw, content.length⟩ chunk = .ok (⟨raw ++ chunk, longer.length⟩, deltas)
        ∧ content ++ deltas.flatten = longer := by
  have ⟨tail, htail⟩ := partialEnvelopeContent_mono h hlonger
  have hlength : longer.length = content.length + tail.length := by
    rw [← htail, List.length_append]
  unfold Streamer.feed
  dsimp only
  rw [hlonger]
  by_cases hgrown : content.length < longer.length
  . refine ⟨[longer.drop content.length], ?_, ?_⟩
    . show (if content.length < longer.length then _ else _) = _
      rw [if_pos hgrown]
      rfl
    . rw [← htail, List.drop_left]
      simp
  . have hnil : tail = [] := List.eq_nil_of_length_eq_zero (by omega)
    refine ⟨[], ?_, ?_⟩
    . show (if content.length < longer.length then _ else _) = _
      rw [if_neg hgrown, show longer.length = content.length by omega]
      rfl
    . rw [← htail, hnil]
      rfl

theorem isOk_of_append {raw more content : PyStr} (h : partialEnvelopeContent (raw ++ more) = .ok content)
    : ∃ c, partialEnvelopeContent raw = .ok c :=
  (isOk_partialEnvelopeContent_iff raw).mpr ((isOk_partialEnvelopeContent_iff _).mp ⟨content, h⟩).of_append

theorem feedAll_eq {raw content longer : PyStr} (chunks : List PyStr) (h : partialEnvelopeContent raw = .ok content)
    (hlonger : partialEnvelopeContent (raw ++ chunks.flatten) = .ok longer)
    : ∃ s deltas, feedAll ⟨raw, content.length⟩ chunks = .ok (s, deltas) ∧ content ++ deltas.flatten = longer := by
  induction chunks generalizing raw content with
  | nil =>
    rw [List.flatten_nil, List.append_nil, h] at hlonger
    injection hlonger with hlonger
    exact ⟨_, [], rfl, by simpa using hlonger⟩
  | cons chunk chunks ih =>
    rw [List.flatten_cons, ← List.append_assoc] at hlonger
    have ⟨middle, hmiddle⟩ := isOk_of_append hlonger
    have ⟨deltas, hfeed, hcontent⟩ := Streamer.feed_eq h hmiddle
    have ⟨s, more, hrest, hmore⟩ := ih hmiddle hlonger
    refine ⟨s, deltas ++ more, ?_, ?_⟩
    . rw [feedAll, hfeed]
      show (feedAll _ chunks >>= _) = _
      rw [hrest]
      rfl
    . rw [List.flatten_append, ← List.append_assoc, hcontent, hmore]

/--
What is shown after some chunks is what is decoded from their text.
-/
theorem shownAfter_eq {chunks : List PyStr} {content : PyStr}
    (h : partialEnvelopeContent chunks.flatten = .ok content) : shownAfter chunks = .ok content := by
  have ⟨s, deltas, hfeed, hcontent⟩ := @feedAll_eq [] [] content chunks rfl h
  unfold shownAfter
  rw [show ({} : Streamer) = ⟨[], ([] : PyStr).length⟩ from rfl, hfeed]
  exact congrArg Except.ok hcontent

theorem delivers {chunks : List PyStr} {content : PyStr} (h : partialEnvelopeContent chunks.flatten = .ok content)
    : Delivers chunks content := by
  have hshown (earlier : List PyStr) (hbegin : earlier <+: chunks)
      : ∃ shown, shownAfter earlier = .ok shown ∧ partialEnvelopeContent earlier.flatten = .ok shown := by
    obtain ⟨rest, rfl⟩ := hbegin
    rw [List.flatten_append] at h
    have ⟨shown, hok⟩ := isOk_of_append h
    exact ⟨shown, shownAfter_eq hok, hok⟩
  have hkeeps (earlier later : List PyStr) (hbegin : earlier <+: later) (hlater : later <+: chunks)
      : ∃ shown longer, shownAfter earlier = .ok shown ∧ shownAfter later = .ok longer ∧ shown <+: longer := by
    have ⟨shown, hok, hdecoded⟩ := hshown earlier (hbegin.trans hlater)
    have ⟨longer, hok', hdecoded'⟩ := hshown later hlater
    obtain ⟨rest, rfl⟩ := hbegin
    rw [List.flatten_append] at hdecoded'
    exact ⟨shown, longer, hok, hok', partialEnvelopeContent_mono hdecoded hdecoded'⟩
  constructor
  . intro earlier hbegin
    have ⟨shown, longer, hok, hok', hprefix⟩ := hkeeps earlier chunks hbegin (List.prefix_refl _)
    rw [shownAfter_eq h] at hok'
    injection hok' with hok'
    exact ⟨shown, hok, hok' ▸ hprefix⟩
  . exact hkeeps
  . exact shownAfter_eq h

end Streamer

section Strings

theorem readsAs_of_hexVal? {c : CodePoint} {d : Nat} (h : hexVal? c = some d) : ReadsAs 16 c d := by
  have hsmall : ((List.finRange 0x67).all fun n : Fin 0x67 =>
      (hexVal? (n.castLE (by decide))).all fun d => ReadsAs 16 (n.castLE (by decide)) d) = true := by
    decide +kernel
  rw [List.all_eq_true] at hsmall
  have hlt : c.val < 0x67 := by
    unfold hexVal? isDigit at h
    simp only [Bool.and_eq_true, decide_eq_true_eq] at h
    split at h
    . omega
    . split at h
      . omega
      . split at h
        . omega
        . cases h
  have hcheck := hsmall ⟨c.val, hlt⟩ (List.mem_finRange _)
  have hsame : (Fin.castLE (by decide) (⟨c.val, hlt⟩ : Fin 0x67) : CodePoint) = c := rfl
  rw [hsame, h] at hcheck
  simpa using hcheck

/--
Four hex digits are read as the number that they are in JSON.
-/
theorem toInt_of_scanHex4 {s rest : PyStr} {n : Nat} (h : scanHex4 s = some (n, rest))
    : 4 ≤ s.length ∧ s.drop 4 = rest ∧ toInt 16 (s.take 4) = some (n : Int) := by
  unfold scanHex4 at h
  split at h
  . next a b c d s =>
    simp only [Option.bind_eq_bind, Option.bind_eq_some_iff, Option.pure_def, Option.some.injEq, Prod.mk.injEq] at h
    have ⟨a', ha, b', hb, c', hc, d', hd, hn, hrest⟩ := h
    have hdigits : List.Forall₂ (ReadsAs 16) [a, b, c, d] [a', b', c', d'] :=
      .cons (readsAs_of_hexVal? ha) (.cons (readsAs_of_hexVal? hb) (.cons (readsAs_of_hexVal? hc)
        (.cons (readsAs_of_hexVal? hd) .nil)))
    refine ⟨by simp, hrest, ?_⟩
    rw [← hn]
    exact toInt_of_readsAs hdigits (by simp)
  . cases h

theorem ofNat_eq_of_chr {n : Nat} (h : n < 0x110000) : chr (n : Int) = some (Fin.ofNat 0x110000 n) := by
  unfold chr
  rw [dif_pos (by omega)]
  congr 1
  apply Fin.ext
  simp [Nat.mod_eq_of_lt h]

/--
A scanned `\u` escape that is no lone surrogate is decoded in one round.
-/
theorem unicodeRound_of_scanUnicode {s rest : PyStr} {c : CodePoint} (h : scanUnicode s = some (c, rest))
    (hc : ¬ (0xd800 ≤ c.val ∧ c.val ≤ 0xdfff)) : unicodeRound s = .next [c] rest := by
  unfold scanUnicode at h
  simp only [Option.bind_eq_bind, Option.bind_eq_some_iff] at h
  obtain ⟨⟨high, after⟩, hhigh, hrest⟩ := h
  obtain ⟨hfour, hafter, hcode⟩ := toInt_of_scanHex4 hhigh
  have hbound := toInt_lt (by decide) hcode
  have hlength : (s.take 4).length = 4 := by
    rw [List.length_take]
    omega
  rw [hlength] at hbound
  have hlone (hsurrogate : 0xd800 ≤ high ∧ high ≤ 0xdfff) (heq : c = Fin.ofNat _ high) : False := by
    refine hc ?_
    rw [heq]
    simp only [Fin.val_ofNat]
    omega
  dsimp only at hrest
  unfold unicodeRound
  rw [if_neg (by omega), hcode]
  dsimp only
  by_cases hrange : 0xd800 ≤ high ∧ high ≤ 0xdbff
  . by_cases hescape : after.take 2 = [backslash, smallU]
    . rw [if_pos (by simp [hrange, hescape])] at hrest
      simp only [Option.bind_eq_some_iff] at hrest
      obtain ⟨⟨low, after'⟩, hlow, hpair⟩ := hrest
      obtain ⟨hfour', hafter', hcode'⟩ := toInt_of_scanHex4 hlow
      have hten : ¬ s.length < 10 := by
        rw [List.length_drop, ← hafter, List.length_drop] at hfour'
        omega
      dsimp only at hpair
      split at hpair
      . next hlowRange =>
        simp only [Bool.and_eq_true, decide_eq_true_eq] at hlowRange
        simp only [Option.pure_def, Option.some.injEq, Prod.mk.injEq] at hpair
        have hlowSurrogate : lowSurrogate ((s.drop 4).take 6) = some (low : Int) := by
          have hstart : [backslash, smallU].isPrefixOf ((s.drop 4).take 6) = true := by
            rw [List.isPrefixOf_iff_prefix, List.prefix_iff_eq_take, List.take_take, hafter]
            exact hescape.symm
          have hvalue : ((s.drop 4).take 6).drop 2 = (after.drop 2).take 4 := by
            rw [List.drop_take, hafter]
          unfold lowSurrogate
          rw [if_pos hstart, hvalue, hcode', Option.filter_some, if_pos]
          simp only [Bool.decide_and, Bool.and_eq_true, decide_eq_true_eq]
          omega
        have hsum : (0x10000 : Int) + (high - 0xd800) * 0x400 + (low - 0xdc00)
            = ((0x10000 + (high - 0xd800) * 0x400 + (low - 0xdc00) : Nat) : Int) := by
          omega
        rw [if_pos (by omega), if_neg hten, hlowSurrogate]
        dsimp only
        rw [hsum, ofNat_eq_of_chr (by omega)]
        dsimp only
        rw [hpair.left, ← hpair.right, ← hafter', ← hafter, List.drop_drop, List.drop_drop]
      . simp only [Option.pure_def, Option.some.injEq, Prod.mk.injEq] at hpair
        exact (hlone (by omega) hpair.left.symm).elim
    . rw [if_neg (by simp [hescape])] at hrest
      simp only [Option.pure_def, Option.some.injEq, Prod.mk.injEq] at hrest
      exact (hlone (by omega) hrest.left.symm).elim
  . rw [if_neg (by simp only [Bool.and_eq_true, decide_eq_true_eq]; exact fun h => hrange h.left)] at hrest
    simp only [Option.pure_def, Option.some.injEq, Prod.mk.injEq] at hrest
    have hplain : ¬ (0xdc00 ≤ high ∧ high ≤ 0xdfff) := fun hlow => hlone (by omega) hrest.left.symm
    rw [if_neg (by omega), if_neg (by omega), ofNat_eq_of_chr (by omega)]
    dsimp only
    rw [hrest.left, ← hrest.right, hafter]

theorem getD_lookup_jsonStringEscapes {letter c : CodePoint} (h : letterEscapes.lookup letter = some c)
    : (jsonStringEscapes.lookup letter).getD letter = c := by
  have hall : (letterEscapes.all fun item => (jsonStringEscapes.lookup item.fst).getD item.fst = item.snd) = true := by
    decide
  rw [List.all_eq_true] at hall
  have ⟨before, after, hsplit, _⟩ := List.lookup_eq_some_iff.mp h
  simpa using hall (letter, c) (by rw [hsplit]; simp)

theorem decodeRound_of_scanChar {ch c : CodePoint} {s rest : PyStr} (hquote : ch ≠ quoteMark)
    (h : scanChar (ch :: s) = some (c, rest)) (hc : ¬ (0xd800 ≤ c.val ∧ c.val ≤ 0xdfff))
    : decodeRound (ch :: s) = .next [c] rest := by
  unfold scanChar at h
  dsimp only at h
  unfold decodeRound
  dsimp only
  rw [if_neg hquote]
  by_cases hplain : ch ≠ backslash
  . rw [if_neg hplain] at h
    split at h
    . cases h
    . injection h with h
      injection h with hchar hrest
      rw [if_pos hplain, hchar, hrest]
  . rw [if_pos (not_not.mp hplain)] at h
    rw [if_neg hplain]
    cases s with
    | nil => cases h
    | cons letter s =>
      dsimp only at h ⊢
      by_cases hletter : letter ≠ smallU
      . rw [if_neg hletter] at h
        rw [if_pos hletter]
        cases hlookup : letterEscapes.lookup letter with
        | none =>
          rw [hlookup] at h
          cases h
        | some d =>
          rw [hlookup] at h
          injection h with h
          injection h with hchar hrest
          rw [getD_lookup_jsonStringEscapes hlookup, hchar, hrest]
      . rw [if_pos (not_not.mp hletter)] at h
        rw [if_neg hletter]
        exact unicodeRound_of_scanUnicode h hc

/--
A scanned string without surrogates is decoded as it is parsed, whatever follows it.
-/
theorem decode_of_scanString {fuel : Nat} {s text rest : PyStr} (h : scanString fuel s = some (text, rest))
    (htext : Utf8Encodable text) (after : PyStr) : decode (s ++ after) = .ok text := by
  induction fuel generalizing s text rest with
  | zero => cases h
  | succ fuel ih =>
    cases s with
    | nil => cases h
    | cons ch s =>
      unfold scanString at h
      split at h
      . next hquote =>
        injection h with h
        injection h with htext _
        rw [hquote, ← htext]
        exact decode_of_stop rfl
      . next hquote =>
        simp only [Option.bind_eq_bind, Option.bind_eq_some_iff, Option.pure_def, Option.some.injEq] at h
        obtain ⟨⟨c, middle⟩, hchar, ⟨cs, rest'⟩, hrest, heq⟩ := h
        injection heq with heq _
        dsimp only at hrest heq
        rw [← heq] at htext ⊢
        have hround := decodeRound_of_scanChar hquote hchar (htext c List.mem_cons_self)
        rw [decode_of_next (decodeRound_next_append hround after),
          ih hrest (htext.subset (List.subset_cons_self c cs))]
        rfl

end Strings

section Members

variable (parseFloat : PyStr → Option PyFloat)

/--
The text of an object behind its opening brace.
-/
def insideObject (s : PyStr) : Option PyStr :=
  match skipWs s with
  | [] => none
  | c :: s => if c = openBrace then some (skipWs s) else none

/--
The members of a text that is a JSON object, as they stand in it.
-/
def loadsMembers (s : PyStr) : Option (List (PyStr × Json)) := do
  let inside ← insideObject s
  let (pairs, rest) ← scanPairs parseFloat s.length inside
  if skipWs rest = [] then return pairs else none

theorem loadsMembers_eq_some_iff {s : PyStr} {pairs : List (PyStr × Json)}
    : loadsMembers parseFloat s = some pairs
        ↔
      ∃ inside rest, insideObject s = some inside ∧ scanPairs parseFloat s.length inside = some (pairs, rest)
        ∧ skipWs rest = [] := by
  unfold loadsMembers
  simp only [Option.bind_eq_bind, Option.bind_eq_some_iff, Option.pure_def]
  constructor
  . rintro ⟨inside, hinside, ⟨pairs', rest⟩, hscan, h⟩
    dsimp only at h
    split at h
    . next hrest =>
      injection h with h
      exact ⟨inside, rest, hinside, h ▸ hscan, hrest⟩
    . cases h
  . rintro ⟨inside, rest, hinside, hscan, hrest⟩
    exact ⟨inside, hinside, (pairs, rest), hscan, if_pos hrest⟩

/--
`json.loads` keeps of the members what `dict` keeps of them.
-/
theorem loads_of_members {s : PyStr} {pairs : List (PyStr × Json)} (h : loadsMembers parseFloat s = some pairs)
    : loads parseFloat s = some (.dict (dictOf pairs)) := by
  have ⟨inside, rest, hinside, hscan, hrest⟩ := (loadsMembers_eq_some_iff parseFloat).mp h
  unfold insideObject at hinside
  unfold loads
  split at hinside
  . cases hinside
  . next c t hopen =>
    split at hinside
    . next hc =>
      injection hinside with hinside
      rw [hopen, scanOnce, if_neg (by rw [hc]; decide), if_pos hc, hinside]
      cases inside with
      | nil =>
        unfold scanPairs at hscan
        split at hscan <;> simp_all
      | cons d inside =>
        have hclose : d ≠ closeBrace := by
          rintro rfl
          unfold scanPairs at hscan
          split at hscan
          . cases hscan
          . contradiction
          . next heq =>
            rw [← (List.cons.inj heq).left, if_neg (by decide)] at hscan
            cases hscan
        dsimp only
        rw [if_neg hclose, hscan]
        exact if_pos hrest
    . cases hinside

/--
The value of a key in `dict(pairs)` is that of the last member with the key.
-/
theorem lookup_dictOf (pairs : List (PyStr × Json)) (key : PyStr)
    : (dictOf pairs).lookup key = pairs.reverse.lookup key := by
  unfold dictOf
  induction pairs using List.reverseRecOn with
  | nil => rfl
  | append_singleton pairs pair ih =>
    rw [List.foldl_append, List.foldl_cons, List.foldl_nil, List.reverse_append, List.reverse_singleton,
      List.singleton_append]
    generalize pairs.foldl _ [] = d at ih ⊢
    obtain ⟨name, value⟩ := pair
    dsimp only
    split
    . next hsome =>
      rw [Assign.lookup_replace]
      by_cases hkey : key = name
      . have ⟨old, hold⟩ := Option.isSome_iff_exists.mp hsome
        rw [if_pos hkey, hold, hkey, Dict.lookup_cons_self, Option.map_some]
      . rw [if_neg hkey, Dict.lookup_cons_of_ne hkey, ih]
    . next hnone =>
      rw [Option.not_isSome_iff_eq_none] at hnone
      rw [List.lookup_append]
      by_cases hkey : key = name
      . rw [hkey, hnone, Dict.lookup_cons_self, Dict.lookup_cons_self, Option.none_or]
      . rw [Dict.lookup_cons_of_ne hkey, Dict.lookup_cons_of_ne hkey, ih, List.lookup_nil, Option.or_none]

theorem scanOnce_str {fuel : Nat} {s text rest : PyStr} (h : scanOnce parseFloat fuel s = some (.str text, rest))
    : ∃ body, s = quoteMark :: body ∧ scanString (body.length + 1) body = some (text, rest) := by
  cases fuel with
  | zero => cases h
  | succ fuel =>
    cases s with
    | nil => cases h
    | cons c s =>
      rw [scanOnce.eq_def] at h
      dsimp only at h
      split at h
      . next hquote =>
        simp only [Option.bind_eq_bind, Option.bind_eq_some_iff, Option.pure_def, Option.some.injEq, Prod.mk.injEq,
          Json.str.injEq] at h
        obtain ⟨⟨text', rest'⟩, hscan, htext, hrest⟩ := h
        exact ⟨s, by rw [hquote], by rw [hscan, ← htext, ← hrest]⟩
      . split at h
        . split at h
          . cases h
          . split at h
            . cases h
            . simp [Option.bind_eq_some_iff] at h
        . split at h
          . split at h
            . cases h
            . split at h
              . cases h
              . simp [Option.bind_eq_some_iff] at h
          . split at h
            . next constant hfind =>
              have hmem := List.mem_of_find?_eq_some hfind
              simp only [constants, List.mem_cons, List.not_mem_nil, or_false] at hmem
              rcases hmem with rfl | rfl | rfl | rfl | rfl | rfl <;> cases h
            . unfold scanNumber at h
              simp only [Option.bind_eq_bind, Option.bind_eq_some_iff] at h
              obtain ⟨_, _, h⟩ := h
              split at h
              . cases h
              . simp [Option.bind_eq_some_iff] at h

/--
How the first member of an object is read.
-/
theorem scanPairs_cons {fuel : Nat} {s rest : PyStr} {key : PyStr} {value : Json} {others : List (PyStr × Json)}
    (h : scanPairs parseFloat fuel s = some ((key, value) :: others, rest))
    : ∃ fuel name afterKey afterColon behind, s = quoteMark :: name
        ∧ scanString (name.length + 1) name = some (key, afterKey) ∧ skipWs afterKey = colon :: afterColon
        ∧ scanOnce parseFloat fuel (skipWs afterColon) = some (value, behind) := by
  cases fuel with
  | zero => cases h
  | succ fuel =>
    cases s with
    | nil => cases h
    | cons c s =>
      rw [scanPairs.eq_def] at h
      dsimp only at h
      split at h
      . next hquote =>
        simp only [Option.bind_eq_bind, Option.bind_eq_some_iff] at h
        have ⟨(key', afterKey), hkey, h⟩ := h
        dsimp only at h
        split at h
        . cases h
        . next d afterColon hafter =>
          split at h
          . next hcolon =>
            simp only [Option.bind_eq_some_iff] at h
            have ⟨(value', behind), hvalue, h⟩ := h
            have hpair : key' = key ∧ value' = value := by
              dsimp only at h
              split at h
              . cases h
              . split at h
                . simp only [Option.pure_def, Option.some.injEq, Prod.mk.injEq, List.cons.injEq] at h
                  exact h.left.left
                . split at h
                  . simp only [Option.bind_eq_some_iff, Option.pure_def, Option.some.injEq, Prod.mk.injEq,
                      List.cons.injEq] at h
                    have ⟨_, _, h, _⟩ := h
                    exact h.left
                  . cases h
            refine ⟨fuel, s, afterKey, afterColon, behind, by rw [hquote], ?_, ?_, ?_⟩
            . rw [hkey, hpair.left]
            . rw [hafter, hcolon]
            . rw [hvalue, hpair.right]
          . cases h
      . cases h

end Members

section Search

theorem isSpace_of_isWs {c : CodePoint} (h : isWs c = true) : isSpace c = true := by
  unfold isWs at h
  simp only [Bool.or_eq_true, decide_eq_true_eq] at h
  rcases h with ((rfl | rfl) | rfl) | rfl <;> decide

theorem dropWhile_isSpace_of_skipWs {s t : PyStr} {c : CodePoint} (h : skipWs s = c :: t) (hc : isSpace c = false)
    : s.dropWhile isSpace = c :: t := by
  unfold skipWs at h
  have hspaces : ∀ d ∈ s.takeWhile isWs, isSpace d = true :=
    fun d hd => isSpace_of_isWs (List.mem_takeWhile_imp hd)
  rw [← List.takeWhile_append_dropWhile (p := isWs) (l := s), List.dropWhile_append_of_pos hspaces, h,
    List.dropWhile_cons_of_neg (by simp [hc])]

theorem quoteMark_notMem_takeWhile (s : PyStr) : quoteMark ∉ s.takeWhile isWs := by
  intro h
  have := List.mem_takeWhile_imp h
  revert this
  decide

/--
There is no match where there is no quote.
-/
theorem searchField_append_of_notMem {before : PyStr} (h : quoteMark ∉ before) (s : PyStr)
    : searchField (before ++ s) = searchField s := by
  induction before with
  | nil => rfl
  | cons c before ih =>
    rw [List.mem_cons, not_or] at h
    have hnone : matchField (c :: (before ++ s)) = none := by
      unfold matchField
      rw [if_neg]
      rw [List.isPrefixOf_iff_prefix]
      intro hname
      exact h.left (List.cons_prefix_cons.mp hname).left
    rw [List.cons_append, searchField, hnone]
    exact ih h.right

theorem searchField_of_match {s rest : PyStr} (h : matchField s = some rest) : searchField s = some rest := by
  cases s with
  | nil => cases h
  | cons c s => rw [searchField, h]

theorem insideObject_eq_some_iff {s inside : PyStr}
    : insideObject s = some inside ↔ ∃ t, skipWs s = openBrace :: t ∧ skipWs t = inside := by
  unfold insideObject
  constructor
  . intro h
    split at h
    . cases h
    . next c t hskip =>
      split at h
      . next hc =>
        injection h with h
        exact ⟨t, by rw [hskip, hc], h⟩
      . cases h
  . rintro ⟨t, hskip, hinside⟩
    rw [hskip]
    dsimp only
    rw [if_pos rfl, hinside]

/--
No quote stands in front of the first member of an object.
-/
theorem eq_append_inside {s inside : PyStr} (h : insideObject s = some inside)
    : ∃ front, quoteMark ∉ front ∧ s = front ++ inside := by
  have ⟨t, hskip, hinside⟩ := insideObject_eq_some_iff.mp h
  refine ⟨s.takeWhile isWs ++ openBrace :: t.takeWhile isWs, ?_, ?_⟩
  . rw [List.mem_append, List.mem_cons]
    rintro (hmem | hbrace | hmem)
    . exact quoteMark_notMem_takeWhile s hmem
    . revert hbrace
      decide
    . exact quoteMark_notMem_takeWhile t hmem
  . rw [← hinside, List.append_assoc, List.cons_append]
    unfold skipWs at hskip ⊢
    rw [List.takeWhile_append_dropWhile, ← hskip, List.takeWhile_append_dropWhile]

end Search

section Envelopes

variable {parseFloat : PyStr → Option PyFloat}

def contentKey : PyStr :=
  py "content"

/--
A reply that is a JSON object whose first member is `content` with a text without lone surrogates. What stands in
front of the object has no quote.
-/
structure Envelope (parseFloat : PyStr → Option PyFloat) where
  before : PyStr
  object : PyStr
  after : PyStr
  first : PyStr
  others : List (PyStr × Json)
  noQuote : quoteMark ∉ before
  members : loadsMembers parseFloat object = some ((contentKey, .str first) :: others)
  encodable : Utf8Encodable first

namespace Envelope

def text (e : Envelope parseFloat) : PyStr :=
  e.before ++ e.object ++ e.after

/--
The name of the first member is written without escapes.
-/
def SpelledOut (e : Envelope parseFloat) : Prop :=
  ∃ inside, insideObject e.object = some inside ∧ fieldName <+: inside

/--
The value of the last member with the name.
-/
def lastContent (e : Envelope parseFloat) : Json :=
  (e.others.reverse.lookup contentKey).getD (.str e.first)

/--
The text that is shown of the chunks grows up to the `content` that is parsed from the object.
-/
def Streams (e : Envelope parseFloat) (chunks : List PyStr) : Prop :=
  ∃ record text, loads parseFloat e.object = some (.dict record)
    ∧ List.lookup contentKey record = some (.str text) ∧ Delivers chunks text

theorem streams_iff_lastContent (e : Envelope parseFloat) (chunks : List PyStr)
    : e.Streams chunks ↔ ∃ text, e.lastContent = .str text ∧ Delivers chunks text := by
  have hlookup : List.lookup contentKey (dictOf ((contentKey, .str e.first) :: e.others)) = some e.lastContent := by
    rw [lookup_dictOf, List.reverse_cons, List.lookup_append, Dict.lookup_cons_self]
    unfold lastContent
    cases e.others.reverse.lookup contentKey <;> rfl
  unfold Streams
  rw [loads_of_members parseFloat e.members]
  constructor
  . rintro ⟨record, text, hrecord, htext, hdelivers⟩
    injection hrecord with hrecord
    injection hrecord with hrecord
    rw [← hrecord, hlookup] at htext
    injection htext with htext
    exact ⟨text, htext, hdelivers⟩
  . rintro ⟨text, htext, hdelivers⟩
    exact ⟨_, text, rfl, by rw [hlookup, htext], hdelivers⟩

/--
What is shown is one text only.
-/
theorem delivers_iff {chunks : List PyStr} {content : PyStr} (h : partialEnvelopeContent chunks.flatten = .ok content)
    (text : PyStr) : Delivers chunks text ↔ text = content := by
  constructor
  . intro hdelivers
    have hends := hdelivers.ends
    rw [shownAfter_eq h] at hends
    injection hends with hends
    exact hends.symm
  . rintro rfl
    exact delivers h

theorem streams_iff_eq {e : Envelope parseFloat} {chunks : List PyStr} (h : chunks.flatten = e.text) {content : PyStr}
    (hcontent : partialEnvelopeContent e.text = .ok content) : e.Streams chunks ↔ e.lastContent = .str content := by
  rw [streams_iff_lastContent]
  constructor
  . rintro ⟨text, htext, hdelivers⟩
    rw [← h] at hcontent
    rw [htext, (delivers_iff hcontent text).mp hdelivers]
  . intro hlast
    exact ⟨content, hlast, delivers (by rw [h, hcontent])⟩

/--
The streamer finds the first member if its name is written out, and decodes it as it is parsed.
-/
theorem partialEnvelopeContent_of_spelledOut {e : Envelope parseFloat} (h : e.SpelledOut)
    : partialEnvelopeContent e.text = .ok e.first := by
  have ⟨inside, hinside, tail, htail⟩ := h
  have ⟨inside', rest, hinside', hscan, _⟩ := (loadsMembers_eq_some_iff parseFloat).mp e.members
  rw [hinside] at hinside'
  injection hinside' with hinside'
  have ⟨front, hfront, hobject⟩ := eq_append_inside hinside
  rw [← hinside'] at hscan
  have ⟨fuel, name, afterKey, afterColon, behind, hname, hkey, hcolon, hvalue⟩ := scanPairs_cons parseFloat hscan
  have ⟨body, hbody, hfirst⟩ := scanOnce_str parseFloat hvalue
  have htailKey : afterKey = tail := by
    have hwritten : name = contentKey.flatMap escape ++ [quoteMark] ++ tail := by
      rw [← htail] at hname
      exact (List.cons.inj hname).right.symm
    rw [hwritten, scanString_dumpsStr] at hkey
    simp only [Option.some.injEq, Prod.mk.injEq] at hkey
    exact hkey.right.symm
  have hmatch : matchField inside = some body := by
    unfold matchField
    rw [← htail, if_pos (List.isPrefixOf_iff_prefix.mpr (List.prefix_append _ _)), List.drop_left, ← htailKey,
      dropWhile_isSpace_of_skipWs hcolon (by decide)]
    dsimp only
    rw [if_pos rfl, dropWhile_isSpace_of_skipWs hbody (by decide)]
    rfl
  have hsearch : searchField e.text = some (body ++ e.after) := by
    unfold text
    rw [hobject, List.append_assoc, searchField_append_of_notMem e.noQuote, List.append_assoc,
      searchField_append_of_notMem hfront]
    exact searchField_of_match (matchField_append hmatch e.after)
  unfold partialEnvelopeContent
  rw [hsearch]
  exact decode_of_scanString hfirst e.encodable e.after

/--
The text that is shown grows up to the parsed one if and only if no later member named `content` has another
value, where the name of the first one is written out. Where it is not, and there is no other field to match, nothing
is shown.
-/
theorem streams_iff (e : Envelope parseFloat) (chunks : List PyStr) (h : chunks.flatten = e.text)
    : (e.SpelledOut → (e.Streams chunks ↔ e.lastContent = .str e.first))
        ∧ (searchField e.text = none → (e.Streams chunks ↔ e.lastContent = .str [])) := by
  constructor
  . intro hspelled
    exact streams_iff_eq h (partialEnvelopeContent_of_spelledOut hspelled)
  . intro hnone
    refine streams_iff_eq h ?_
    unfold partialEnvelopeContent
    rw [hnone]

/--
Members whose values are texts.
-/
def textMembers (pairs : List (PyStr × Json)) : Option (List (PyStr × PyStr)) :=
  pairs.mapM fun
    | (key, .str text) => some (key, text)
    | _ => none

theorem eq_of_textMembers {pairs : List (PyStr × Json)} {texts : List (PyStr × PyStr)}
    (h : textMembers pairs = some texts) : pairs = texts.map fun item => (item.fst, .str item.snd) := by
  unfold textMembers at h
  induction pairs generalizing texts with
  | nil =>
    cases h
    rfl
  | cons pair pairs ih =>
    rw [List.mapM_cons] at h
    simp only [Option.bind_eq_bind, Option.bind_eq_some_iff, Option.pure_def, Option.some.injEq] at h
    have ⟨item, hitem, rest, hrest, heq⟩ := h
    split at hitem
    . cases hitem
      rw [← heq, List.map_cons, ← ih hrest]
    . cases hitem

/--
The reply is the text of an object with these texts, and the first one is the content.
-/
def ofTexts (object first : PyStr) (others : List (PyStr × PyStr))
    (hmembers : (loadsMembers (fun _ => none) object).bind textMembers = some ((contentKey, first) :: others))
    (hfirst : Utf8Encodable first) : Envelope fun _ => none where
  before := []
  object := object
  after := []
  first := first
  others := others.map fun item => (item.fst, .str item.snd)
  noQuote := by simp
  members := by
    have ⟨pairs, hpairs, htexts⟩ := Option.bind_eq_some_iff.mp hmembers
    rw [hpairs, eq_of_textMembers htexts, List.map_cons]
  encodable := hfirst

/--
`{"content": "hi"}`
-/
def greeting : Envelope fun _ => none :=
  ofTexts (py "\x7b\"content\": \"hi\"\x7d") (py "hi") [] (by decide +kernel) (by decide)

theorem spelledOut_of_decide {e : Envelope parseFloat} (h : ((insideObject e.object).any fieldName.isPrefixOf) = true)
    : e.SpelledOut := by
  cases hinside : insideObject e.object with
  | none =>
    rw [hinside] at h
    cases h
  | some inside =>
    rw [hinside] at h
    exact ⟨inside, hinside, List.isPrefixOf_iff_prefix.mp h⟩

theorem streams_greeting : greeting.Streams [py "\x7b\"cont", py "ent\": \"h", py "i\"\x7d"] :=
  ((streams_iff greeting _ (by decide +kernel)).left (spelledOut_of_decide (by decide +kernel))).mpr rfl

/--
`{"content": "a", "content": "b"}`
-/
def repeated : Envelope fun _ => none :=
  ofTexts (py "\x7b\"content\": \"a\", \"content\": \"b\"\x7d") (py "a") [(contentKey, py "b")] (by decide +kernel)
    (by decide)

/--
A name that is repeated is shown with its first value, and parsed with its last one.
-/
theorem not_streams
    : ¬ ∀ (e : Envelope fun _ => none) (chunks : List PyStr), chunks.flatten = e.text → e.Streams chunks := by
  intro h
  have hspelled : repeated.SpelledOut := spelledOut_of_decide (by decide +kernel)
  have hflatten : [repeated.text].flatten = repeated.text := List.flatten_singleton
  have hsame := (streams_iff_eq hflatten (partialEnvelopeContent_of_spelledOut hspelled)).mp
    (h repeated [repeated.text] hflatten)
  have hlast : repeated.lastContent = .str (py "b") := by
    have hothers : repeated.others = [(contentKey, .str (py "b"))] := rfl
    unfold lastContent
    rw [hothers, List.reverse_singleton, Dict.lookup_cons_self, Option.getD_some]
  rw [hlast] at hsame
  have hdiffer : py "b" ≠ py "a" := by
    decide
  exact hdiffer (Json.str.inj hsame)

end Envelope

end Envelopes

end EnvelopeContent
