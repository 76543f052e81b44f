import Legalise.Anonymisation.Coverage
import Legalise.Anonymisation.Tokens

/-!
This module contains when the tokens of a document stay the same over its anonymisation runs.
-/

namespace Anonymisation

open PyStr Sweep Assign

variable (R : PyRepr) (upper : PyStr → PyStr)

section Runs

/--
What one run hands to `tokenise`: the document's text and spans that have a text of their own.
-/
structure Run where
  text : PyStr
  spans : List AnalysedSpan
  named : ∀ s ∈ spans, s.original ≠ []

theorem original_ne_nil_of_mem_analyse {text : PyStr} {results : List RecognizerResult} {s : AnalysedSpan}
    (hs : s ∈ analyse text results) : s.original ≠ [] := by
  have hmem := (redaction_analyse ⟨fun _ => [], id⟩ id text results none).subset s hs
  have hblank := (List.mem_filter.mp hmem).right
  intro hnil
  simp [hnil, strip, stripOf, lstripOf, rstripOf] at hblank

theorem original_ne_nil_of_mem_spansFromClaude {text : PyStr} {envelope : AnonymisationEnvelope}
    {s : AnalysedSpan} (hs : s ∈ spansFromClaude upper envelope text) : s.original ≠ [] := by
  have hmem := (redaction_spansFromClaude ⟨fun _ => [], id⟩ upper envelope text none).subset s hs
  unfold claudeSpans at hmem
  split at hmem
  . have ⟨t, _, ht⟩ := List.mem_flatMap.mp hmem
    unfold literalSpans at ht
    split at ht
    . contradiction
    . next hlength =>
      have ⟨idx, _, heq⟩ := List.mem_map.mp ht
      intro hnil
      rw [← heq] at hnil
      simp [show t.original = [] from hnil] at hlength
  . have ⟨e, _, he⟩ := List.mem_filterMap.mp hmem
    unfold verifiedSpan at he
    simp only [Option.bind_eq_bind, Option.bind_eq_some_iff] at he
    have ⟨start, _, stop, _, hspan⟩ := he
    split at hspan
    . contradiction
    . next hguard =>
      split at hspan
      . contradiction
      . injection hspan with heq
        intro hnil
        rw [← heq] at hnil
        exact hguard (.inl (by simp [show e.original = [] from hnil]))

/--
The run of Presidio, which drops blank spans.
-/
def Run.presidio (text : PyStr) (results : List RecognizerResult) : Run where
  text := text
  spans := analyse text results
  named := fun _ => original_ne_nil_of_mem_analyse

/--
The run of the model.
-/
def Run.claude (text : PyStr) (envelope : AnonymisationEnvelope) : Run where
  text := text
  spans := spansFromClaude upper envelope text
  named := fun _ => original_ne_nil_of_mem_spansFromClaude upper

end Runs

section Storage

def metaDict (info : TokenMeta) : Dict :=
  [(py "entity_type", .str info.entityType), (py "original", .str info.original),
    (py "occurrences", .int info.occurrences)]

def payloadDict (p : SpanPayload) : Dict :=
  [(py "start", .int p.start), (py "end", .int p.stop), (py "token", .str p.token),
    (py "original", .str p.original), (py "entity_type", .str p.entityType)]

/--
The mapping as it is written to the column.
-/
def mappingJson (m : Mapping) : Json :=
  .dict [(py "tokens", .dict (m.tokens.map fun item => (item.fst, .dict (metaDict item.snd)))),
    (py "spans", .list (m.spans.map fun p => .dict (payloadDict p)))]

/--
A mapping as the column gives it back, where the keys of an object may come in another order.
-/
def StoredAs (m : Mapping) (stored : Json) : Prop :=
  ∃ (mapping : Dict) (infos : List (PyStr × Dict)) (items : List (PyStr × TokenMeta)),
    stored = .dict mapping
      ∧ Dict.get mapping (py "tokens") = .dict (infos.map fun info => (info.fst, .dict info.snd))
      ∧ items.Perm m.tokens
      ∧ List.Forall₂ (fun info item => info.fst = item.fst ∧ info.snd.Perm (metaDict item.snd)) infos items

theorem storedAs_mappingJson (m : Mapping) : StoredAs m (mappingJson m) := by
  refine ⟨_, m.tokens.map fun item => (item.fst, metaDict item.snd), m.tokens, rfl, ?_, .refl _, ?_⟩
  . rw [List.map_map]
    rfl
  . rw [List.forall₂_map_left_iff, List.forall₂_same]
    intro item _
    exact ⟨rfl, .refl _⟩

theorem metaText_of_perm {info : Dict} {m : TokenMeta} (h : info.Perm (metaDict m))
    : metaText R info (py "entity_type") = m.entityType
        ∧ metaText R info (py "original") = m.original := by
  have hnodup : (info.map Prod.fst).Nodup := by
    rw [(h.map Prod.fst).nodup_iff]
    show [py "entity_type", py "original", py "occurrences"].Nodup
    decide
  have hmem := fun item => (h.mem_iff (a := item)).mpr
  unfold metaText Dict.getD
  rw [Dict.lookup_eq_some_of_mem hnodup (hmem (py "entity_type", .str m.entityType) (by simp [metaDict])),
    Dict.lookup_eq_some_of_mem hnodup (hmem (py "original", .str m.original) (by simp [metaDict]))]
  exact ⟨rfl, rfl⟩

/--
A stored mapping has the entries of the mapping.
-/
theorem StoredAs.entries {m : Mapping} {stored : Json} (h : StoredAs m stored)
    : (storedEntries R upper (some stored)).Perm (m.tokens.map (entryOf upper)) := by
  have ⟨mapping, infos, items, hstored, htokens, hperm, hinfos⟩ := h
  have hread : mappingTokens (some stored) = infos := by
    rw [hstored]
    simp only [mappingTokens, htokens]
    rw [List.filterMap_map]
    exact List.filterMap_some
  have hentries : infos.map (storedEntry R upper) = items.map (entryOf upper) := by
    clear htokens hperm hread
    induction hinfos with
    | nil => rfl
    | cons hhead _ ih =>
      have ⟨htype, horiginal⟩ := metaText_of_perm R hhead.right
      rw [List.map_cons, List.map_cons, ih]
      simp [storedEntry, entryOf, hhead.left, htype, horiginal]
  unfold storedEntries
  rw [hread, hentries]
  exact hperm.map _

end Storage

section History

/--
The tokens that a run put in place of its spans.
-/
def usesOf (m : Mapping) : List Entry :=
  m.spans.map fun p => ⟨p.token, prefixFor upper p.entityType, p.original⟩

/--
The runs on a document, each one with the mapping that the run before it stored, and the tokens they
used.
-/
inductive History (ok : Option Json → Run → Prop) : Option Json → List Entry → Prop where
  | start : History ok none []
  | run {existing : Option Json} {uses : List Entry} (h : History ok existing uses) (r : Run)
    (hok : ok existing r) {stored : Json}
    (hstored : StoredAs (tokenise R upper r.text r.spans existing).snd stored)
    : History ok (some stored) (uses ++ usesOf upper (tokenise R upper r.text r.spans existing).snd)

/--
A pair has the same token everywhere, and a token stands for one pair.
-/
def Stable (uses : List Entry) : Prop :=
  ∀ u ∈ uses, ∀ v ∈ uses, (u.kind = v.kind ∧ u.original = v.original) ↔ u.token = v.token

/--
A run that finds nothing comes before any token was given.
-/
def FindsOrFirst (existing : Option Json) (r : Run) : Prop :=
  r.spans = [] → mappingTokens existing = []

theorem assignTokens_spec {spans : List AnalysedSpan} {existing : Option Json}
    (hnumbered : Numbered (storedEntries R upper existing)) (hnamed : ∀ s ∈ spans, s.original ≠ [])
    : Numbered ((assignTokens R upper spans existing).metas.map (entryOf upper))
        ∧ storedEntries R upper existing
          ⊆ (assignTokens R upper spans existing).metas.map (entryOf upper)
        ∧ ∀ pair ∈ (assignTokens R upper spans existing).spanTokens,
          spanEntry upper pair ∈ (assignTokens R upper spans existing).metas.map (entryOf upper) := by
  have hloop : ∀ (spans : List AnalysedSpan) (a : Assignment), Consistent upper a →
      (∀ s ∈ spans, s.original ≠ []) →
      (∀ pair ∈ a.spanTokens, spanEntry upper pair ∈ a.metas.map (entryOf upper)) →
      Consistent upper (spans.foldl (assignToken upper) a)
        ∧ a.metas.map (entryOf upper) ⊆ (spans.foldl (assignToken upper) a).metas.map (entryOf upper)
        ∧ ∀ pair ∈ (spans.foldl (assignToken upper) a).spanTokens,
          spanEntry upper pair ∈ (spans.foldl (assignToken upper) a).metas.map (entryOf upper) := by
    intro spans
    induction spans with
    | nil => exact fun a hconsistent _ hused => ⟨hconsistent, List.Subset.refl _, hused⟩
    | cons span spans ih =>
      intro a hconsistent hnamed hused
      have ⟨hnext, hsub, token, hspanTokens, htoken⟩ :=
        assignToken_consistent upper hconsistent (hnamed span List.mem_cons_self)
      have hused' : ∀ pair ∈ (assignToken upper a span).spanTokens,
          spanEntry upper pair ∈ (assignToken upper a span).metas.map (entryOf upper) := by
        intro pair hpair
        rw [hspanTokens, List.mem_append, List.mem_singleton] at hpair
        cases hpair with
        | inl hold => exact hsub (hused pair hold)
        | inr hlast => exact hlast ▸ htoken
      have ⟨hlast, hsub', hused''⟩ := ih _ hnext (fun s hs => hnamed s (List.mem_cons_of_mem _ hs)) hused'
      exact ⟨hlast, fun e he => hsub' (hsub he), hused''⟩
  have hentries := knownTokens_entries R upper hnumbered
  have hstart : Consistent upper ⟨seedCounters R upper existing, knownTokens R existing, []⟩ := by
    constructor
    . rw [hentries]
      exact hnumbered
    . rw [hentries]
      exact seedCounters_tracks R upper hnumbered
  have ⟨hlast, hsub, hused⟩ := hloop (sortBy AnalysedSpan.start spans) _ hstart
    (fun s hs => hnamed s (mem_sortBy.mp hs)) (by simp)
  rw [hentries] at hsub
  exact ⟨hlast.numbered, hsub, hused⟩

/--
A run keeps the tokens it was given and uses tokens of its mapping.
-/
theorem tokenise_spec {r : Run} {existing : Option Json}
    (hnumbered : Numbered (storedEntries R upper existing)) (hok : FindsOrFirst existing r)
    : Numbered ((tokenise R upper r.text r.spans existing).snd.tokens.map (entryOf upper))
        ∧ storedEntries R upper existing
          ⊆ (tokenise R upper r.text r.spans existing).snd.tokens.map (entryOf upper)
        ∧ usesOf upper (tokenise R upper r.text r.spans existing).snd
          ⊆ (tokenise R upper r.text r.spans existing).snd.tokens.map (entryOf upper) := by
  unfold tokenise
  split
  . next hempty =>
    have hnone := hok (List.isEmpty_iff.mp hempty)
    refine ⟨?_, ?_, ?_⟩
    . constructor <;> simp
    . simp [storedEntries, hnone]
    . simp [usesOf]
  . have ⟨hnumbered', hsub, hused⟩ := assignTokens_spec R upper hnumbered r.named
    refine ⟨hnumbered', hsub, ?_⟩
    intro e he
    simp only [usesOf, List.mem_map] at he
    have ⟨p, ⟨pair, hpair, hp⟩, heq⟩ := he
    have hpair := mem_sortBy.mp (mem_sortBy.mp hpair)
    rw [← heq, ← hp]
    exact hused pair hpair

/--
The stored tokens are numbered, and every token that was used is stored.
-/
theorem History.numbered {existing : Option Json} {uses : List Entry}
    (h : History R upper FindsOrFirst existing uses)
    : Numbered (storedEntries R upper existing) ∧ uses ⊆ storedEntries R upper existing := by
  induction h with
  | start =>
    refine ⟨?_, by simp⟩
    constructor <;> simp [storedEntries, mappingTokens]
  | run h r hok hstored ih =>
    have ⟨hnumbered, hkept, hused⟩ := tokenise_spec R upper ih.left hok
    have hperm := hstored.entries R upper
    refine ⟨hnumbered.perm hperm, ?_⟩
    intro e he
    rw [hperm.mem_iff]
    cases List.mem_append.mp he with
    | inl hold => exact hkept (ih.right hold)
    | inr hnew => exact hused hnew

theorem Numbered.stable {entries : List Entry} (h : Numbered entries) : Stable entries := by
  intro e he f hf
  constructor
  . intro hpair
    exact h.pairs e he f hf hpair.left hpair.right
  . intro htoken
    have := List.inj_on_of_nodup_map h.tokens he hf htoken
    rw [this]
    exact ⟨rfl, rfl⟩

theorem stable_of_history {existing : Option Json} {uses : List Entry}
    (h : History R upper FindsOrFirst existing uses) : Stable uses := by
  have ⟨hnumbered, hsub⟩ := h.numbered
  intro u hu v hv
  exact hnumbered.stable u (hsub hu) v (hsub hv)

/--
A run on a text that is a name.
-/
def nameRun (name : PyStr) (h : name ≠ []) : Run where
  text := name
  spans := [⟨0, name.length, py "PERSON", 9 / 10, name⟩]
  named := by simp [h]

def emptyRun : Run where
  text := py "No names."
  spans := []
  named := by simp

/--
A run that finds nothing stores an empty mapping, after which the numbers start again.
-/
theorem not_stable_afterEmptyRun
    : ∃ existing uses, History .quoted id (fun _ _ => True) existing uses ∧ ¬ Stable uses := by
  have hstart : History .quoted id (fun _ _ => True) none [] := .start
  have hfirst := hstart.run (nameRun (py "Ann") (by decide)) trivial (storedAs_mappingJson _)
  have hempty := hfirst.run emptyRun trivial (storedAs_mappingJson _)
  have hlast := hempty.run (nameRun (py "Bob") (by decide)) trivial (storedAs_mappingJson _)
  refine ⟨_, _, hlast, ?_⟩
  intro hstable
  have hann : (⟨py "[PARTY_1]", py "PARTY", py "Ann"⟩ : Entry)
      ∈ usesOf id (tokenise .quoted id (py "Ann") (nameRun (py "Ann") (by decide)).spans none).snd := by
    decide +kernel
  have hbob : (⟨py "[PARTY_1]", py "PARTY", py "Bob"⟩ : Entry)
      ∈ usesOf id (tokenise .quoted id (py "Bob") (nameRun (py "Bob") (by decide)).spans
        (some (mappingJson ⟨[], []⟩))).snd := by
    decide +kernel
  have hne : py "Ann" ≠ py "Bob" := by
    decide
  have := (hstable _ (List.mem_append_left _ (List.mem_append_left _ (List.mem_append_right _ hann)))
    _ (List.mem_append_right _ hbob)).mpr rfl
  exact hne this.right

/--
A second text of the document, which names another person before the one that is known.
-/
def twoNamesRun : Run where
  text := py "Bob, Ann"
  spans := [⟨5, 8, py "PERSON", 9 / 10, py "Ann"⟩, ⟨0, 3, py "PERSON", 9 / 10, py "Bob"⟩]
  named := by decide

/--
The known name keeps its token in the second run.
-/
theorem stable_of_history_twoRuns
    : ∃ existing uses, History .quoted id FindsOrFirst existing uses
        ∧ Stable uses
        ∧ uses = [⟨py "[PARTY_1]", py "PARTY", py "Ann"⟩, ⟨py "[PARTY_2]", py "PARTY", py "Bob"⟩,
          ⟨py "[PARTY_1]", py "PARTY", py "Ann"⟩] := by
  have hstart : History .quoted id FindsOrFirst none [] := .start
  have hfirst := hstart.run (nameRun (py "Ann") (by decide)) (fun h => by contradiction) (storedAs_mappingJson _)
  have hlast := hfirst.run twoNamesRun (fun h => by contradiction) (storedAs_mappingJson _)
  exact ⟨_, _, hlast, stable_of_history .quoted id hlast, by decide +kernel⟩

end History

end Anonymisation
