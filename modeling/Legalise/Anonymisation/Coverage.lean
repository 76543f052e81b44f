import Legalise.Anonymisation.Basic

/-!
This module contains what anonymisation replaces: disjoint intervals, one around the first character
of every identified span.
-/

namespace Anonymisation

open PyStr Sweep Assign

variable (R : PyRepr) (upper : PyStr → PyStr)

/--
A span that is not empty and starts inside of the text.
-/
def ProperSpan (text : PyStr) (s : AnalysedSpan) : Prop :=
  s.start < s.stop ∧ s.start < text.length

def Covers (s : AnalysedSpan) (p : Nat) : Prop :=
  s.start ≤ p ∧ p < s.stop

instance (s : AnalysedSpan) (p : Nat) : Decidable (Covers s p) :=
  inferInstanceAs (Decidable (s.start ≤ p ∧ p < s.stop))

/--
A position lies inside an interval that is replaced.
-/
def Replaced (kept : List AnalysedSpan) (p : Nat) : Prop :=
  ∃ s ∈ kept, Covers s p

instance (kept : List AnalysedSpan) (p : Nat) : Decidable (Replaced kept p) :=
  inferInstanceAs (Decidable (∃ s ∈ kept, Covers s p))

/--
A text was redacted at some of the identified spans, and what remains of the other ones lies beyond
the end of a replaced span that comes before them and holds their first character.
-/
structure Redaction (text : PyStr) (identified kept : List AnalysedSpan) (redacted : PyStr) : Prop where
  subset : ∀ s ∈ kept, s ∈ identified
  rewritten : ∃ pieces : List (Piece CodePoint),
    (pieces.map fun p => (p.start, p.stop)) = (kept.reverse.map fun s => (s.start, s.stop))
      ∧ pieces.Pairwise (fun p q => p.stop ≤ q.start)
      ∧ redacted = weave text 0 pieces
  accounted : ∀ r ∈ identified, ∀ p, Covers r p →
    Replaced kept p ∨ ∃ s ∈ kept, s.key ≤ r.key ∧ Covers s r.start ∧ s.stop ≤ p

section DeOverlap

variable {text : PyStr} {spans : List AnalysedSpan}

theorem AnalysedSpan.start_le_of_key_le {s r : AnalysedSpan} (h : s.key ≤ r.key) : s.start ≤ r.start := by
  cases Prod.Lex.le_iff.mp h with
  | inl hlt => exact le_of_lt hlt
  | inr heq => exact le_of_eq heq.left

/--
The spans kept by the sweep, from left to right.
-/
def kept (spans : List AnalysedSpan) : List AnalysedSpan :=
  sweep (fun s => (s.start : Int)) (fun s => (s.stop : Int)) (-1) (sortBy AnalysedSpan.key spans)

theorem mem_of_mem_kept {s : AnalysedSpan} (hs : s ∈ kept spans) : s ∈ spans :=
  mem_sortBy.mp ((sweep_sublist _ _).mem hs)

theorem pairwise_kept (hproper : ∀ s ∈ spans, s.start < s.stop)
    : (kept spans).Pairwise fun a b => a.stop ≤ b.start := by
  have hle : ∀ s ∈ sortBy AnalysedSpan.key spans, (s.start : Int) ≤ s.stop := by
    intro s hs
    exact Int.ofNat_le.mpr (le_of_lt (hproper s (mem_sortBy.mp hs)))
  exact (pairwise_sweep hle (-1)).imp fun h => Int.ofNat_le.mp h

theorem pairwise_start_kept (hproper : ∀ s ∈ spans, s.start < s.stop)
    : (kept spans).Pairwise fun a b => a.start < b.start := by
  apply List.Pairwise.imp_of_mem ?_ (pairwise_kept hproper)
  intro a b ha _ hab
  exact Nat.lt_of_lt_of_le (hproper a (mem_of_mem_kept ha)) hab

theorem deOverlap_eq_reverse (hproper : ∀ s ∈ spans, s.start < s.stop)
    : deOverlap spans = (kept spans).reverse := by
  apply sortBy_eq
  . exact List.reverse_perm _
  . rw [List.pairwise_reverse]
    exact (pairwise_start_kept hproper).imp fun h => h

/--
Of every span the first character lies in a kept one that does not come after it.
-/
theorem exists_mem_kept (hproper : ∀ s ∈ spans, s.start < s.stop) {r : AnalysedSpan} (hr : r ∈ spans)
    : ∃ s ∈ kept spans, s.key ≤ r.key ∧ Covers s r.start := by
  have hsorted : (sortBy AnalysedSpan.key spans).Pairwise fun a b => a.key ≤ b.key :=
    pairwise_sortBy spans
  have hstarts : (sortBy AnalysedSpan.key spans).Pairwise fun a b => (a.start : Int) ≤ b.start :=
    hsorted.imp fun h => Int.ofNat_le.mpr (AnalysedSpan.start_le_of_key_le h)
  have hlt : ∀ s ∈ sortBy AnalysedSpan.key spans, (s.start : Int) < s.stop := by
    intro s hs
    exact Int.ofNat_lt.mpr (hproper s (mem_sortBy.mp hs))
  cases @exists_mem_sweep _ _ _ _ _ _ _ hlt hstarts hsorted (-1) _ (mem_sortBy.mpr hr) with
  | inl hneg => omega
  | inr hkept =>
    have ⟨s, hs, hbefore, hstart, hstop⟩ := hkept
    refine ⟨s, hs, ?_, Int.ofNat_le.mp hstart, Int.ofNat_lt.mp hstop⟩
    cases hbefore with
    | inl heq => rw [heq]
    | inr hle => exact hle

end DeOverlap

section Tokenise

variable {text : PyStr}

theorem spanTokens_assignToken (a : Assignment) (span : AnalysedSpan)
    : ∃ token, (assignToken upper a span).spanTokens = a.spanTokens ++ [(span, token)] := by
  unfold assignToken
  dsimp only
  split
  . exact ⟨_, rfl⟩
  . exact ⟨_, rfl⟩

/--
Every span gets a token.
-/
theorem map_fst_spanTokens (spans : List AnalysedSpan) (a : Assignment)
    : (spans.foldl (assignToken upper) a).spanTokens.map Prod.fst
        =
      a.spanTokens.map Prod.fst ++ spans := by
  induction spans generalizing a with
  | nil => simp
  | cons span spans ih =>
    have ⟨token, htoken⟩ := spanTokens_assignToken upper a span
    rw [List.foldl_cons, ih, htoken]
    simp

def payloadOf (pair : AnalysedSpan × PyStr) : SpanPayload where
  start := pair.fst.start
  stop := pair.fst.stop
  token := pair.snd
  original := pair.fst.original
  entityType := pair.fst.entityType

/--
Disjoint spans are replaced at their own places, and the mapping lists them from left to right, in
whatever order they are given.
-/
theorem tokenise_eq {spans ordered : List AnalysedSpan} (hordered : sortBy AnalysedSpan.start spans = ordered)
    (hspans : ∀ s ∈ ordered, ProperSpan text s) (hdisjoint : ordered.Pairwise fun a b => a.stop ≤ b.start)
    (existing : Option Json)
    : let pairs := (assignTokens R upper spans existing).spanTokens
      pairs.map Prod.fst = ordered
        ∧ (tokenise R upper text spans existing).fst = weave text 0 (pairs.map pieceOf)
        ∧ (tokenise R upper text spans existing).snd.spans = pairs.map payloadOf := by
  have hstarts : ordered.Pairwise fun a b => a.start < b.start := by
    apply List.Pairwise.imp_of_mem ?_ hdisjoint
    intro a b ha _ hab
    exact Nat.lt_of_lt_of_le (hspans a ha).left hab
  have hfst : (assignTokens R upper spans existing).spanTokens.map Prod.fst = ordered := by
    unfold assignTokens
    rw [map_fst_spanTokens, hordered]
    rfl
  generalize hpairs : (assignTokens R upper spans existing).spanTokens = pairs at hfst ⊢
  rw [← hfst, List.pairwise_map] at hstarts
  have hdescending : sortBy (fun pair : AnalysedSpan × PyStr => OrderDual.toDual pair.fst.start) pairs
      = pairs.reverse := by
    apply sortBy_eq (List.reverse_perm _)
    rw [List.pairwise_reverse]
    exact hstarts.imp fun h => h
  have hascending : sortBy (fun pair : AnalysedSpan × PyStr => pair.fst.start) pairs.reverse = pairs :=
    sortBy_eq (List.reverse_perm _).symm hstarts
  have hpieces : (pairs.map pieceOf).Pairwise fun p q => p.stop ≤ q.start := by
    rw [← hfst, List.pairwise_map] at hdisjoint
    rw [List.pairwise_map]
    exact hdisjoint
  refine ⟨hfst, ?_⟩
  unfold tokenise
  split
  . next hempty =>
    rw [List.isEmpty_iff] at hempty
    have hnil : pairs = [] := by
      rw [hempty] at hordered
      rw [← hordered] at hfst
      exact List.map_eq_nil_iff.mp hfst
    simp [hnil, weave]
  . dsimp only
    rw [hpairs, hdescending, hascending]
    refine ⟨?_, rfl⟩
    rw [List.foldl_reverse, ← List.foldr_map (f := pieceOf) (g := splice),
      foldr_splice text (Nat.zero_le _) ?_ hpieces]
    . simp
    . intro p hp
      obtain ⟨pair, hpair, heq⟩ := List.mem_map.mp hp
      have hmem : pair.fst ∈ ordered := by
        rw [← hfst]
        exact List.mem_map_of_mem hpair
      rw [← heq]
      exact ⟨Nat.zero_le _, hspans pair.fst hmem⟩

/--
Spans in order that are given from right to left.
-/
theorem sortBy_start_reverse {spans : List AnalysedSpan} (hspans : ∀ s ∈ spans, ProperSpan text s)
    (hdisjoint : spans.Pairwise fun a b => a.stop ≤ b.start)
    : sortBy AnalysedSpan.start spans.reverse = spans := by
  apply sortBy_eq (List.reverse_perm _).symm
  apply List.Pairwise.imp_of_mem ?_ hdisjoint
  intro a b ha _ hab
  exact Nat.lt_of_lt_of_le (hspans a ha).left hab

theorem tokenise_reverse {spans : List AnalysedSpan} (hspans : ∀ s ∈ spans, ProperSpan text s)
    (hdisjoint : spans.Pairwise fun a b => a.stop ≤ b.start) (existing : Option Json)
    : ∃ pieces : List (Piece CodePoint),
        (pieces.map fun p => (p.start, p.stop)) = (spans.map fun s => (s.start, s.stop))
          ∧ pieces.Pairwise (fun p q => p.stop ≤ q.start)
          ∧ (tokenise R upper text spans.reverse existing).fst = weave text 0 pieces := by
  have ⟨hfst, hwoven, _⟩ := tokenise_eq R upper (sortBy_start_reverse hspans hdisjoint) hspans hdisjoint existing
  generalize (assignTokens R upper spans.reverse existing).spanTokens = pairs at hfst hwoven
  refine ⟨_, ?_, ?_, hwoven⟩
  . rw [← hfst, List.map_map, List.map_map]
    rfl
  . rw [← hfst, List.pairwise_map] at hdisjoint
    rw [List.pairwise_map]
    exact hdisjoint

/--
De-overlapping and tokenising redacts the spans, also if equal intervals were listed only once before.
-/
theorem redaction_deOverlap {identified spans : List AnalysedSpan} (hsub : spans ⊆ identified)
    (hspans : ∀ s ∈ identified, ProperSpan text s)
    (hlisted : ∀ r ∈ identified, ∃ s ∈ spans, s.key = r.key ∧ s.stop = r.stop) (existing : Option Json)
    : Redaction text identified (deOverlap spans)
        (tokenise R upper text (deOverlap spans) existing).fst := by
  have hproper : ∀ s ∈ spans, s.start < s.stop := fun s hs => (hspans s (hsub hs)).left
  rw [deOverlap_eq_reverse hproper]
  constructor
  . intro s hs
    exact hsub (mem_of_mem_kept (List.mem_reverse.mp hs))
  . rw [List.reverse_reverse]
    apply tokenise_reverse
    . intro s hs
      exact hspans s (hsub (mem_of_mem_kept hs))
    . exact pairwise_kept hproper
  . intro r hr p hp
    have ⟨r', hr', hkey, hstop⟩ := hlisted r hr
    have ⟨s, hs, hle, hcovers⟩ := exists_mem_kept hproper hr'
    have hstart : r'.start = r.start :=
      le_antisymm (AnalysedSpan.start_le_of_key_le (le_of_eq hkey))
        (AnalysedSpan.start_le_of_key_le (le_of_eq hkey.symm))
    rw [hkey] at hle
    rw [hstart] at hcovers
    by_cases hin : p < s.stop
    . exact .inl ⟨s, List.mem_reverse.mpr hs, le_trans hcovers.left hp.left, hin⟩
    . exact .inr ⟨s, List.mem_reverse.mpr hs, hle, hcovers, not_lt.mp hin⟩

end Tokenise

section Presidio

/--
The spans that Presidio returns with a text that is not blank.
-/
def presidioSpans (text : PyStr) (results : List RecognizerResult) : List AnalysedSpan :=
  (results.map (spanOf text)).filter fun s => !(strip s.original).isEmpty

theorem proper_of_mem_presidioSpans {text : PyStr} {results : List RecognizerResult}
    {s : AnalysedSpan} (hs : s ∈ presidioSpans text results) : ProperSpan text s := by
  have ⟨hmem, hblank⟩ := List.mem_filter.mp hs
  have ⟨r, _, heq⟩ := List.mem_map.mp hmem
  have hne : slice text r.start r.stop ≠ [] := by
    rintro hnil
    simp [← heq, spanOf, hnil, strip, stripOf, lstripOf, rstripOf] at hblank
  have hlen := List.length_pos_iff.mpr hne
  unfold slice at hlen
  rw [List.length_drop, List.length_take] at hlen
  rw [← heq]
  show r.start < r.stop ∧ r.start < text.length
  omega

theorem analyse_eq (text : PyStr) (results : List RecognizerResult)
    : analyse text results = deOverlap (presidioSpans text results) := by
  unfold analyse
  split
  . next hempty =>
    have hnil : text = [] := List.isEmpty_iff.mp hempty
    cases hspans : presidioSpans text results with
    | nil => rfl
    | cons s spans =>
      have hs : s ∈ presidioSpans text results := by
        rw [hspans]
        exact List.mem_cons_self
      have := (proper_of_mem_presidioSpans hs).right
      simp [hnil] at this
  . rfl

theorem redaction_analyse (text : PyStr) (results : List RecognizerResult) (existing : Option Json)
    : Redaction text (presidioSpans text results) (analyse text results)
        (tokenise R upper text (analyse text results) existing).fst := by
  rw [analyse_eq]
  apply redaction_deOverlap R upper (List.Subset.refl _)
  . intro s hs
    exact proper_of_mem_presidioSpans hs
  . intro r hr
    exact ⟨r, hr, rfl, rfl⟩

end Presidio

section Claude

variable {text : PyStr}

theorem mem_addSpan_foldl (spans out : List AnalysedSpan)
    : (∀ s ∈ spans.foldl addSpan out, s ∈ out ∨ s ∈ spans)
        ∧ out ⊆ spans.foldl addSpan out
        ∧ ∀ r ∈ spans, ∃ s ∈ spans.foldl addSpan out, s.start = r.start ∧ s.stop = r.stop := by
  induction spans generalizing out with
  | nil => simp
  | cons r spans ih =>
    have ⟨hfrom, hsub, hlisted⟩ := ih (addSpan out r)
    have hout : out ⊆ addSpan out r := by
      unfold addSpan
      split <;> simp
    refine ⟨?_, fun s hs => hsub (hout hs), ?_⟩
    . intro s hs
      cases hfrom s hs with
      | inl hadd =>
        unfold addSpan at hadd
        split at hadd
        . exact .inl hadd
        . simp only [List.mem_append, List.mem_singleton] at hadd
          cases hadd with
          | inl h => exact .inl h
          | inr h => exact .inr (by simp [h])
      | inr h => exact .inr (by simp [h])
    . intro r' hr'
      cases List.mem_cons.mp hr' with
      | inr h => exact hlisted r' h
      | inl heq =>
        subst heq
        unfold addSpan at hsub
        split at hsub
        . next hany =>
          have ⟨s, hs, hsame⟩ := List.any_eq_true.mp hany
          simp only [Bool.and_eq_true, beq_iff_eq] at hsame
          refine ⟨s, ?_, hsame⟩
          rw [List.foldl_cons, addSpan, if_pos hany]
          exact hsub hs
        . next hany =>
          refine ⟨r', ?_, rfl, rfl⟩
          rw [List.foldl_cons, addSpan, if_neg hany]
          exact hsub (by simp)

/--
Spans of one score are redacted, each interval once.
-/
theorem redaction_addSpan {identified : List AnalysedSpan} {score : ℚ}
    (hspans : ∀ s ∈ identified, ProperSpan text s) (hscore : ∀ s ∈ identified, s.score = score)
    (existing : Option Json)
    : Redaction text identified (deOverlap (identified.foldl addSpan []))
        (tokenise R upper text (deOverlap (identified.foldl addSpan [])) existing).fst := by
  have ⟨hfrom, _, hlisted⟩ := mem_addSpan_foldl identified []
  have hsub : identified.foldl addSpan [] ⊆ identified := by
    intro s hs
    simpa using hfrom s hs
  apply redaction_deOverlap R upper hsub hspans
  intro r hr
  have ⟨s, hs, hstart, hstop⟩ := hlisted r hr
  refine ⟨s, hs, ?_, hstop⟩
  unfold AnalysedSpan.key
  rw [hstart, hscore s (hsub hs), hscore r hr]

theorem verifiedSpan_eq_some {e : SpanEntry} {s : AnalysedSpan}
    (h : verifiedSpan upper text e = some s) : ProperSpan text s ∧ s.score = 9 / 10 := by
  unfold verifiedSpan at h
  simp only [Option.bind_eq_bind, Option.bind_eq_some_iff] at h
  have ⟨start, _, stop, _, hrest⟩ := h
  split at hrest
  . contradiction
  . next hvalid =>
    split at hrest
    . contradiction
    . simp only [not_or, not_lt, not_le] at hvalid
      injection hrest with heq
      rw [← heq]
      refine ⟨?_, rfl⟩
      show start.toNat < stop.toNat ∧ start.toNat < text.length
      omega

/--
The hits counted for an original: occurrences that do not overlap, taken from left to right, fifty at
most.
-/
structure CountedHits (text original : PyStr) (start limit : Nat) (hits : List Nat) : Prop where
  occurrence : ∀ i ∈ hits, start ≤ i ∧ isAt original text i = true
  disjoint : hits.Pairwise fun i j => i + original.length ≤ j
  atMost : hits.length ≤ limit
  complete : ∀ i, start ≤ i → isAt original text i = true →
    (∃ j ∈ hits, j ≤ i ∧ i < j + original.length)
      ∨ (hits.length = limit ∧ ∀ j ∈ hits, j + original.length ≤ i)

theorem countedHits (text original : PyStr) (limit start : Nat)
    : CountedHits text original start limit (literalHits text original limit start) := by
  induction limit generalizing start with
  | zero => constructor <;> simp [literalHits]
  | succ limit ih =>
    unfold literalHits
    split
    . next hnone =>
      rw [find_eq_none_iff] at hnone
      constructor
      . simp
      . simp
      . simp
      . intro i hi hat
        rw [hnone i hi] at hat
        contradiction
    . next idx hidx =>
      have ⟨hle, hat, hbefore⟩ := find_eq_some_iff.mp hidx
      have hits := ih (idx + original.length)
      constructor
      . intro i hi
        cases List.mem_cons.mp hi with
        | inl heq => exact heq ▸ ⟨hle, hat⟩
        | inr htail =>
          have := hits.occurrence i htail
          exact ⟨by omega, this.right⟩
      . rw [List.pairwise_cons]
        exact ⟨fun i hi => (hits.occurrence i hi).left, hits.disjoint⟩
      . simpa using hits.atMost
      . intro i hi hiat
        have hidxle : idx ≤ i := by
          by_contra hlt
          rw [hbefore i hi (by omega)] at hiat
          contradiction
        by_cases hin : i < idx + original.length
        . exact .inl ⟨idx, by simp, hidxle, hin⟩
        . cases hits.complete i (by omega) hiat with
          | inl hlater =>
            have ⟨j, hj, hrest⟩ := hlater
            exact .inl ⟨j, by simp [hj], hrest⟩
          | inr hfull =>
            refine .inr ⟨by simp [hfull.left], ?_⟩
            intro j hj
            cases List.mem_cons.mp hj with
            | inl heq => omega
            | inr htail => exact hfull.right j htail

theorem proper_of_mem_literalSpans {t : TokenEntry} {s : AnalysedSpan}
    (hs : s ∈ literalSpans upper text t) : ProperSpan text s ∧ s.score = 9 / 10 := by
  unfold literalSpans at hs
  split at hs
  . cases hs
  . next hlong =>
    have ⟨i, hi, heq⟩ := List.mem_map.mp hs
    have hat := ((countedHits text t.original maxHits 0).occurrence i hi).right
    rw [isAt_iff] at hat
    have hslice := congrArg List.length hat.right
    unfold slice at hslice
    rw [List.length_drop, List.length_take] at hslice
    rw [← heq]
    refine ⟨?_, rfl⟩
    show i < i + t.original.length ∧ i < text.length
    omega

/--
The spans that an envelope names: the ones whose offsets verify, or else the counted occurrences of
the originals with two characters or more.
-/
def claudeSpans (envelope : AnonymisationEnvelope) (text : PyStr) : List AnalysedSpan :=
  if (entrySpans upper envelope text).isEmpty then
    (envelope.tokens.getD []).flatMap (literalSpans upper text)
  else entrySpans upper envelope text

theorem spansFromClaude_eq (envelope : AnonymisationEnvelope) (text : PyStr)
    : spansFromClaude upper envelope text
        =
      deOverlap ((claudeSpans upper envelope text).foldl addSpan []) := by
  have ⟨hfrom, _, hlisted⟩ := mem_addSpan_foldl (entrySpans upper envelope text) []
  unfold spansFromClaude claudeSpans
  dsimp only
  cases hspans : entrySpans upper envelope text with
  | nil => rfl
  | cons r spans =>
    rw [hspans] at hlisted
    have ⟨s, hs, _⟩ := hlisted r (by simp)
    have hne : ((r :: spans).foldl addSpan []).isEmpty = false := by
      cases hout : (r :: spans).foldl addSpan [] with
      | nil => simp [hout] at hs
      | cons => rfl
    rw [hne]
    rfl

theorem proper_of_mem_claudeSpans {envelope : AnonymisationEnvelope} {s : AnalysedSpan}
    (hs : s ∈ claudeSpans upper envelope text) : ProperSpan text s ∧ s.score = 9 / 10 := by
  unfold claudeSpans at hs
  split at hs
  . have ⟨t, _, ht⟩ := List.mem_flatMap.mp hs
    exact proper_of_mem_literalSpans upper ht
  . have ⟨e, _, he⟩ := List.mem_filterMap.mp hs
    exact verifiedSpan_eq_some upper he

theorem redaction_spansFromClaude (envelope : AnonymisationEnvelope) (text : PyStr)
    (existing : Option Json)
    : Redaction text (claudeSpans upper envelope text) (spansFromClaude upper envelope text)
        (tokenise R upper text (spansFromClaude upper envelope text) existing).fst := by
  rw [spansFromClaude_eq]
  apply redaction_addSpan R upper
  . exact fun s hs => (proper_of_mem_claudeSpans upper hs).left
  . exact fun s hs => (proper_of_mem_claudeSpans upper hs).right

end Claude

end Anonymisation
