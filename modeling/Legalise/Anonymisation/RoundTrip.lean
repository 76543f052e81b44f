import Legalise.Anonymisation.TokenStability
import Legalise.Lib.Runs

/-!
This module contains that a redacted text can be undone with its mapping, and that the mapping counts its
tokens.
-/

namespace Anonymisation

open PyStr Sweep Assign

variable (R : PyRepr) (upper : PyStr → PyStr)

section Spans

/--
Disjoint spans inside of a text, each with what the text has there, in any order.
-/
structure SpanSet (text : PyStr) where
  spans : List AnalysedSpan
  inside : ∀ s ∈ spans, s.start < s.stop ∧ s.stop ≤ text.length
  literal : ∀ s ∈ spans, slice text s.start s.stop = s.original
  disjoint : spans.Pairwise fun a b => a.stop ≤ b.start ∨ b.stop ≤ a.start

/--
What replaces the token of a listed span by its original. It stands at the offset of the original once
everything before it is restored.
-/
def restorePiece (p : SpanPayload) : Piece CodePoint where
  start := p.start
  stop := p.start + p.token.length
  new := p.original

/--
The replacement, from left to right, of the listed tokens by their originals.
-/
def restore (redacted : PyStr) (spans : List SpanPayload) : PyStr :=
  spans.foldl (fun chars p => splice (restorePiece p) chars) redacted

def tokenPiece (p : SpanPayload) : Piece CodePoint where
  start := p.start
  stop := p.stop
  new := p.token

/--
The redacted text has the listed tokens between the gaps of the text, the listed spans are the given ones
in the order of the text, and the mapping restores the text and counts the tokens.
-/
structure Tokenised (text : PyStr) (spans : List AnalysedSpan) (redacted : PyStr) (m : Mapping) : Prop where
  interleaved : redacted = weave text 0 (m.spans.map tokenPiece)
  listed : (m.spans.map fun p => (p.start, p.stop, p.original, p.entityType))
    = (sortBy AnalysedSpan.start spans).map fun s => (s.start, s.stop, s.original, s.entityType)
  restored : restore redacted m.spans = text
  tokens : ∀ p ∈ m.spans, p.token ∈ m.tokens.map Prod.fst
  counted : ∀ item ∈ m.tokens, item.snd.occurrences = m.spans.countP fun p => p.token = item.fst
  shared : ∀ p ∈ m.spans, ∀ q ∈ m.spans,
    p.token = q.token ↔ prefixFor upper p.entityType = prefixFor upper q.entityType ∧ p.original = q.original

variable {text : PyStr} (s : SpanSet text)

theorem SpanSet.named : ∀ span ∈ s.spans, span.original ≠ [] := by
  intro span hspan hnil
  have ⟨hlt, hle⟩ := s.inside span hspan
  have hlength := congrArg List.length (s.literal span hspan)
  rw [hnil] at hlength
  simp only [slice, List.length_drop, List.length_take, List.length_nil] at hlength
  omega

theorem SpanSet.pairwise_sortBy
    : (sortBy AnalysedSpan.start s.spans).Pairwise fun a b => a.stop ≤ b.start := by
  have hdisjoint : (sortBy AnalysedSpan.start s.spans).Pairwise
      fun a b => a.stop ≤ b.start ∨ b.stop ≤ a.start := by
    rw [List.Perm.pairwise_iff (fun h => h.symm) (perm_sortBy s.spans)]
    exact s.disjoint
  refine List.Pairwise.imp_of_mem ?_ (hdisjoint.and (Sweep.pairwise_sortBy s.spans))
  intro a b _ hb ⟨hor, hstart⟩
  have := (s.inside b (mem_sortBy.mp hb)).left
  omega

end Spans

section Counting

variable {upper}

/--
Every token is counted as often as a span got it.
-/
structure Counted (a : Assignment) : Prop where
  tokens : ∀ pair ∈ a.spanTokens, pair.snd ∈ a.metas.map Prod.fst
  counted : ∀ item ∈ a.metas, item.snd.occurrences = a.spanTokens.countP fun pair => pair.snd = item.fst

theorem map_fst_countToken (token : PyStr) (metas : List (PyStr × TokenMeta))
    : (countToken token metas).map Prod.fst = metas.map Prod.fst := by
  unfold countToken
  rw [List.map_map]
  apply List.map_congr_left
  intro item _
  simp only [Function.comp_apply]
  split <;> rfl

theorem Counted.assignToken {a : Assignment} (h : Counted a) (hconsistent : Consistent upper a)
    (span : AnalysedSpan) : Counted (assignToken upper a span) := by
  have ⟨token, metas, hspans, hmetas, htoken, hcases⟩ := assignToken_eq upper hconsistent span
  have hkeys : a.metas.map Prod.fst ⊆ metas.map Prod.fst := by
    rcases hcases with rfl | ⟨_, rfl⟩
    . exact List.Subset.refl _
    . simp
  -- The entries before the count, of which a new one has no span yet.
  have hbefore : ∀ item ∈ metas, item.snd.occurrences = a.spanTokens.countP fun pair => pair.snd = item.fst := by
    rcases hcases with rfl | ⟨hunused, rfl⟩
    . exact h.counted
    . intro item hitem
      rcases List.mem_append.mp hitem with hold | hnew
      . exact h.counted item hold
      . rw [List.mem_singleton.mp hnew, eq_comm, List.countP_eq_zero]
        intro pair hpair
        rw [decide_eq_true_eq]
        intro (heq : pair.snd = token)
        exact hunused (heq ▸ h.tokens pair hpair)
  constructor
  . intro pair hpair
    rw [hmetas, map_fst_countToken]
    rw [hspans, List.mem_append, List.mem_singleton] at hpair
    rcases hpair with hold | rfl
    . exact hkeys (h.tokens pair hold)
    . exact htoken
  . intro item hitem
    rw [hmetas] at hitem
    have ⟨old, hold, heq⟩ := List.mem_map.mp hitem
    have hcount := hbefore old hold
    rw [hspans, List.countP_append, List.countP_singleton]
    split at heq
    . next hsame =>
      subst heq
      simp [hcount, hsame]
    . next hother =>
      subst heq
      have hne : token ≠ old.fst := fun heq => hother heq.symm
      simp [hcount, hne]

theorem occurrences_knownTokens (existing : Option Json)
    : ∀ item ∈ knownTokens R existing, item.snd.occurrences = 0 := by
  have hassign (item : PyStr × Dict) (metas : List (PyStr × TokenMeta)) (known : TokenMeta)
      (hknown : known.occurrences = 0) (h : ∀ item ∈ metas, item.snd.occurrences = 0)
      : ∀ other ∈ assign item.fst known metas, other.snd.occurrences = 0 := by
    intro other hother
    unfold assign at hother
    split at hother
    . have ⟨old, hold, heq⟩ := List.mem_map.mp hother
      split at heq
      . rw [← heq]
        exact hknown
      . rw [← heq]
        exact h old hold
    . rcases List.mem_append.mp hother with hold | hnew
      . exact h other hold
      . rw [List.mem_singleton.mp hnew]
        exact hknown
  unfold knownTokens
  generalize hstart : ([] : List (PyStr × TokenMeta)) = metas
  have hnone : ∀ item ∈ metas, item.snd.occurrences = 0 := by
    simp [← hstart]
  clear hstart
  induction mappingTokens existing generalizing metas with
  | nil => exact hnone
  | cons item items ih => exact ih _ (hassign item metas _ rfl hnone)

theorem counted_assignTokens {existing : Option Json} (hnumbered : Numbered (storedEntries R upper existing))
    {spans : List AnalysedSpan} (hnamed : ∀ s ∈ spans, s.original ≠ [])
    : Counted (assignTokens R upper spans existing) := by
  have hstart : Consistent upper ⟨seedCounters R upper existing, knownTokens R existing, []⟩ := by
    constructor
    . rw [knownTokens_entries R upper hnumbered]
      exact hnumbered
    . rw [knownTokens_entries R upper hnumbered]
      exact seedCounters_tracks R upper hnumbered
  have hrun := @Runs.foldl_invariant Assignment AnalysedSpan (assignToken upper)
    (fun a => Consistent upper a ∧ Counted a) (fun _ span => span.original ≠ [])
    (fun a span hnamed h => ⟨(assignToken_consistent upper h.left hnamed).left, h.right.assignToken h.left span⟩)
    ⟨seedCounters R upper existing, knownTokens R existing, []⟩
    ⟨hstart, by simp, by simpa using occurrences_knownTokens R existing⟩ (sortBy AnalysedSpan.start spans)
    (fun earlier span hbegin => hnamed span (mem_sortBy.mp (hbegin.subset (by simp))))
  exact hrun.right

end Counting

section Histories

/--
Whatever the runs before found, the stored tokens are numbered.
-/
theorem History.numbered_stored {existing : Option Json} {uses : List Entry} {ok : Option Json → Run → Prop}
    (h : History R upper ok existing uses) : Numbered (storedEntries R upper existing) := by
  induction h with
  | start => constructor <;> simp [storedEntries, mappingTokens]
  | run _ r _ hstored ih =>
    refine Numbered.perm ?_ (hstored.entries R upper)
    unfold tokenise
    split
    . constructor <;> simp
    . exact (assignTokens_spec R upper ih r.named).left

end Histories

/--
After any earlier runs, tokenising disjoint spans can be undone, and its tokens are counted and shared as
they should be.
-/
theorem tokenised_of_history {existing : Option Json} {uses : List Entry}
    (h : History R upper (fun _ _ => True) existing uses) (text : PyStr) (s : SpanSet text)
    : Tokenised upper text s.spans (tokenise R upper text s.spans existing).fst
        (tokenise R upper text s.spans existing).snd := by
  have hnumbered := h.numbered_stored
  have hproper : ∀ span ∈ sortBy AnalysedSpan.start s.spans, ProperSpan text span := by
    intro span hspan
    have ⟨hlt, hle⟩ := s.inside span (mem_sortBy.mp hspan)
    exact ⟨hlt, Nat.lt_of_lt_of_le hlt hle⟩
  have ⟨hfst, hwoven, hpayload⟩ := tokenise_eq R upper rfl hproper s.pairwise_sortBy existing
  have hcounted := counted_assignTokens R hnumbered s.named
  have ⟨hassigned, _, hused⟩ := assignTokens_spec R upper hnumbered s.named
  -- The entries of the mapping, where a run without spans has neither.
  have htokens : (tokenise R upper text s.spans existing).snd.tokens = (assignTokens R upper s.spans existing).metas
      ∨ (tokenise R upper text s.spans existing).snd.tokens = []
        ∧ (assignTokens R upper s.spans existing).spanTokens = [] := by
    unfold tokenise
    split
    . next hempty =>
      refine .inr ⟨rfl, ?_⟩
      rw [List.isEmpty_iff.mp hempty] at hfst ⊢
      exact List.map_eq_nil_iff.mp hfst
    . exact .inl rfl
  generalize (tokenise R upper text s.spans existing).fst = redacted at hwoven ⊢
  generalize (tokenise R upper text s.spans existing).snd = m at hpayload htokens ⊢
  generalize assignTokens R upper s.spans existing = a at *
  have hpieces : m.spans.map tokenPiece = a.spanTokens.map pieceOf := by
    rw [hpayload, List.map_map]
    rfl
  have hin (pair : AnalysedSpan × PyStr) (hpair : pair ∈ a.spanTokens) : pair.fst ∈ s.spans := by
    rw [← @mem_sortBy _ _ _ AnalysedSpan.start, ← hfst]
    exact List.mem_map_of_mem hpair
  constructor
  . rw [hpieces]
    exact hwoven
  . rw [hpayload, ← hfst, List.map_map, List.map_map]
    rfl
  . have hundo : restore redacted m.spans
        = (a.spanTokens.map pieceOf).foldl (fun chars p => splice (undo text p) chars) redacted := by
      unfold restore
      rw [hpayload, List.foldl_map, List.foldl_map]
      apply List.foldl_ext
      intro chars pair hpair
      have hpiece : restorePiece (payloadOf pair) = undo text (pieceOf pair) := by
        unfold restorePiece payloadOf undo pieceOf
        dsimp only
        rw [← s.literal pair.fst (hin pair hpair)]
        rfl
      rw [hpiece]
    have hback := @foldl_splice_undo CodePoint text (a.spanTokens.map pieceOf) 0 ?_ ?_
    . rw [hundo, hwoven]
      simpa using hback
    . intro p hp
      have ⟨pair, hpair, heq⟩ := List.mem_map.mp hp
      have ⟨hlt, hle⟩ := s.inside pair.fst (hin pair hpair)
      rw [← heq]
      exact ⟨Nat.zero_le _, le_of_lt hlt, hle⟩
    . rw [List.pairwise_map]
      have := s.pairwise_sortBy
      rwa [← hfst, List.pairwise_map] at this
  . intro p hp
    rw [hpayload] at hp
    have ⟨pair, hpair, heq⟩ := List.mem_map.mp hp
    rcases htokens with htokens | ⟨_, hnil⟩
    . rw [htokens, ← heq]
      exact hcounted.tokens pair hpair
    . rw [hnil] at hpair
      cases hpair
  . intro item hitem
    rcases htokens with htokens | ⟨htokens, _⟩
    . rw [htokens] at hitem
      rw [hcounted.counted item hitem, hpayload, List.countP_map]
      rfl
    . rw [htokens] at hitem
      cases hitem
  . intro p hp q hq
    rw [hpayload] at hp hq
    have ⟨pair, hpair, hp⟩ := List.mem_map.mp hp
    have ⟨other, hother, hq⟩ := List.mem_map.mp hq
    have hstable := hassigned.stable _ (hused pair hpair) _ (hused other hother)
    rw [← hp, ← hq]
    exact hstable.symm

/--
A text with a name of an earlier run and a new one, which is listed first.
-/
def annAndBob : SpanSet (py "Ann met Bob") where
  spans := [⟨8, 11, py "PERSON", 9 / 10, py "Bob"⟩, ⟨0, 3, py "PERSON", 9 / 10, py "Ann"⟩]
  inside := by decide
  literal := by decide
  disjoint := by decide

theorem tokenised_annAndBob
    : let stored := some (mappingJson (tokenise .quoted id (py "Ann") (nameRun (py "Ann") (by decide)).spans none).snd)
      Tokenised id (py "Ann met Bob") annAndBob.spans
        (tokenise .quoted id (py "Ann met Bob") annAndBob.spans stored).fst
        (tokenise .quoted id (py "Ann met Bob") annAndBob.spans stored).snd :=
  tokenised_of_history .quoted id
    ((History.start).run (nameRun (py "Ann") (by decide)) trivial (storedAs_mappingJson _)) _ annAndBob

end Anonymisation
