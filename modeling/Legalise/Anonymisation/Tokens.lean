import Legalise.Anonymisation.Basic

/-!
This module contains how tokens are numbered: the counters and the cache that are read from a stored
mapping, and what one run adds to them.
-/

namespace Anonymisation

open PyStr Sweep Assign

section Suffix

/--
The token `[PREFIX_n]`
-/
def tokenText (kind : PyStr) (n : Nat) : PyStr :=
  py "[" ++ kind ++ py "_" ++ pyNat n ++ py "]"

def kinds : List PyStr :=
  entityPrefixMap.map Prod.snd ++ [py "ENTITY"]

theorem prefixFor_mem_kinds (upper : PyStr → PyStr) (entityType : PyStr)
    : prefixFor upper entityType ∈ kinds := by
  unfold prefixFor kinds
  cases hlookup : entityPrefixMap.lookup (upper entityType) with
  | none => simp
  | some kind =>
    have ⟨before, after, hsplit, _⟩ := List.lookup_eq_some_iff.mp hlookup
    rw [hsplit]
    simp

theorem stripOf_between {p : CodePoint → Bool} {a b : CodePoint} {s : PyStr} (ha : p a = true)
    (hb : p b = true) (hs : ∀ c ∈ s, p c = false) : stripOf p (a :: s ++ [b]) = s := by
  have hleft : (a :: s ++ [b]).dropWhile p = (s ++ [b]).dropWhile p := by
    simp [ha]
  have hdrop : ∀ s : PyStr, (∀ c ∈ s, p c = false) → s ≠ [] → ∀ t, (s ++ t).dropWhile p = s ++ t := by
    intro s hs hne t
    cases s with
    | nil => contradiction
    | cons c s => simp [hs c List.mem_cons_self]
  unfold stripOf rstripOf lstripOf List.rdropWhile
  rw [hleft]
  cases s with
  | nil => simp [hb]
  | cons c s =>
    rw [hdrop _ hs (by simp), List.reverse_append]
    have hreverse : ∀ d ∈ (c :: s).reverse, p d = false := fun d hd => hs d (List.mem_reverse.mp hd)
    have := hdrop _ hreverse (by simp) []
    rw [List.append_nil] at this
    simp only [List.reverse_cons, List.reverse_nil, List.nil_append, List.singleton_append,
      List.dropWhile_cons, hb, if_true]
    simp only [List.reverse_cons] at this
    rw [this]
    simp

theorem tokenSuffix_tokenText {kind : PyStr} (hkind : kind ∈ kinds) (n : Nat)
    : tokenSuffix (tokenText kind n) = pyNat n := by
  have hclean : (kinds.all fun kind => kind.all fun c =>
      !(decide (c ∈ py "[]")) && decide (c ≠ CodePoint.ofChar '_')) = true := by
    decide
  rw [List.all_eq_true] at hclean
  have hclean := List.all_eq_true.mp (hclean kind hkind)
  have hdigits : ∀ c ∈ pyNat n, c ∉ py "[]" ∧ c ≠ CodePoint.ofChar '_' := by
    have hlist : ("0123456789".toList.all fun d =>
        CodePoint.ofChar d ∉ py "[]" ∧ CodePoint.ofChar d ≠ CodePoint.ofChar '_') = true := by
      decide
    simp only [List.all_eq_true, decide_eq_true_eq] at hlist
    intro c hc
    have ⟨d, hd, heq⟩ := mem_pyNat hc
    rw [heq]
    exact hlist d (mem_digits_of_isDigit hd)
  have hstrip : stripOf (· ∈ py "[]") (tokenText kind n) = kind ++ py "_" ++ pyNat n := by
    have hinside : ∀ c ∈ kind ++ py "_" ++ pyNat n, decide (c ∈ py "[]") = false := by
      intro c hc
      rw [decide_eq_false_iff_not]
      simp only [List.mem_append] at hc
      rcases hc with (hc | hc) | hc
      . have := hclean c hc
        simp at this
        exact this.left
      . have heq : c = CodePoint.ofChar '_' := by
          simpa [py] using hc
        rw [heq]
        decide
      . exact (hdigits c hc).left
    have := stripOf_between (p := (· ∈ py "[]")) (a := CodePoint.ofChar '[') (b := CodePoint.ofChar ']')
      (by decide) (by decide) hinside
    simpa [tokenText, py] using this
  unfold tokenSuffix
  rw [hstrip]
  unfold List.rtakeWhile
  rw [List.reverse_append, List.takeWhile_append_of_pos]
  . simp [py]
  . intro c hc
    simpa using (hdigits c (List.mem_reverse.mp hc)).right

theorem toInt_tokenSuffix {kind : PyStr} (hkind : kind ∈ kinds) (n : Nat)
    : toInt 10 (tokenSuffix (tokenText kind n)) = some (n : Int) := by
  rw [tokenSuffix_tokenText hkind, toInt_pyNat]

theorem tokenText_inj {kind kind' : PyStr} (hkind : kind ∈ kinds) (hkind' : kind' ∈ kinds) {m n : Nat}
    (h : tokenText kind m = tokenText kind' n) : kind = kind' ∧ m = n := by
  have hsuffix := congrArg tokenSuffix h
  rw [tokenSuffix_tokenText hkind, tokenSuffix_tokenText hkind'] at hsuffix
  have hnumber := pyNat_injective hsuffix
  subst hnumber
  unfold tokenText at h
  simp only [List.append_assoc, List.append_cancel_left_eq, List.append_cancel_right_eq] at h
  exact ⟨h, rfl⟩

end Suffix

section Entries

/--
A token and the pair of a prefix and an original that it stands for.
-/
structure Entry where
  token : PyStr
  kind : PyStr
  original : PyStr
  deriving DecidableEq

variable (upper : PyStr → PyStr)

def entryOf (item : PyStr × TokenMeta) : Entry :=
  ⟨item.fst, prefixFor upper item.snd.entityType, item.snd.original⟩

def spanEntry (pair : AnalysedSpan × PyStr) : Entry :=
  ⟨pair.snd, prefixFor upper pair.fst.entityType, pair.fst.original⟩

/--
Tokens that are numbered by prefix, with one token for every pair.
-/
structure Numbered (entries : List Entry) : Prop where
  tokens : (entries.map Entry.token).Nodup
  pairs : ∀ e ∈ entries, ∀ f ∈ entries, e.kind = f.kind → e.original = f.original → e.token = f.token
  shape : ∀ e ∈ entries, e.kind ∈ kinds ∧ ∃ n, e.token = tokenText e.kind n
  named : ∀ e ∈ entries, e.original ≠ []

/--
The cache finds the token of every pair, and the counters are past the numbers in use.
-/
structure Tracks (c : Counters) (entries : List Entry) : Prop where
  cache : ∀ kind original token,
    c.cache.lookup (kind, original) = some token ↔ ⟨token, kind, original⟩ ∈ entries
  past : ∀ e ∈ entries, ∀ n, e.token = tokenText e.kind n →
    ∃ idx : Nat, c.counters.lookup e.kind = some (idx : Int) ∧ n < idx
  natural : ∀ kind idx, c.counters.lookup kind = some idx → 0 ≤ idx

theorem Tracks.nil : Tracks ⟨[], []⟩ [] := by
  constructor <;> simp

/--
A new pair under a number that is not in use.
-/
theorem Tracks.snoc {c : Counters} {entries : List Entry} (h : Tracks c entries) {e : Entry} {n next : Nat}
    (hnew : ∀ f ∈ entries, f.kind = e.kind → f.original ≠ e.original)
    (hkind : e.kind ∈ kinds) (htoken : e.token = tokenText e.kind n) (hn : n < next)
    (hnext : ∀ idx, c.counters.lookup e.kind = some idx → idx ≤ (next : Int))
    : Tracks ⟨assign e.kind (next : Int) c.counters, assign (e.kind, e.original) e.token c.cache⟩
        (entries ++ [e]) := by
  constructor
  . intro kind original token
    dsimp only
    rw [lookup_assign, List.mem_append, List.mem_singleton]
    split
    . next heq =>
      injection heq with hkind horiginal
      subst hkind horiginal
      constructor
      . intro hsome
        injection hsome with hsome
        exact .inr (by rw [← hsome])
      . intro hmem
        cases hmem with
        | inl hold => exact absurd rfl (hnew ⟨token, e.kind, e.original⟩ hold rfl)
        | inr hlast => rw [← hlast]
    . next hne =>
      rw [h.cache]
      constructor
      . exact .inl
      . intro hmem
        cases hmem with
        | inl hold => exact hold
        | inr hlast => exact absurd (by rw [← hlast]) hne
  . intro f hf m hm
    dsimp only
    rw [lookup_assign]
    cases List.mem_append.mp hf with
    | inl hold =>
      have ⟨idx, hlookup, hlt⟩ := h.past f hold m hm
      split
      . next hkind =>
        have := hnext idx (hkind ▸ hlookup)
        exact ⟨next, rfl, by omega⟩
      . exact ⟨idx, hlookup, hlt⟩
    | inr hlast =>
      rw [List.mem_singleton] at hlast
      subst hlast
      rw [if_pos rfl]
      rw [htoken] at hm
      have := (tokenText_inj hkind hkind hm).right
      exact ⟨next, rfl, by omega⟩
  . intro kind idx hlookup
    dsimp only at hlookup
    rw [lookup_assign] at hlookup
    split at hlookup
    . injection hlookup with hlookup
      omega
    . exact h.natural kind idx hlookup

theorem Numbered.snoc {entries : List Entry} (h : Numbered entries) {e : Entry} {n : Nat}
    (hnew : ∀ f ∈ entries, f.kind = e.kind → f.original ≠ e.original)
    (htoken : e.token = tokenText e.kind n) (hunused : e.token ∉ entries.map Entry.token)
    (hkind : e.kind ∈ kinds) (hnamed : e.original ≠ []) : Numbered (entries ++ [e]) := by
  constructor
  . rw [List.map_append, List.nodup_append]
    refine ⟨h.tokens, by simp, ?_⟩
    intro token hmem other hother
    simp only [List.map_cons, List.map_nil, List.mem_singleton] at hother
    subst hother
    exact fun heq => hunused (heq ▸ hmem)
  . intro f hf g hg hkinds horiginals
    rw [List.mem_append, List.mem_singleton] at hf hg
    rcases hf with hf | hf <;> rcases hg with hg | hg
    . exact h.pairs f hf g hg hkinds horiginals
    . subst hg
      exact absurd horiginals (hnew f hf hkinds)
    . subst hf
      exact absurd horiginals.symm (hnew g hg hkinds.symm)
    . rw [hf, hg]
  . intro f hf
    cases List.mem_append.mp hf with
    | inl hold => exact h.shape f hold
    | inr hlast =>
      rw [List.mem_singleton] at hlast
      exact hlast ▸ ⟨hkind, n, htoken⟩
  . intro f hf
    cases List.mem_append.mp hf with
    | inl hold => exact h.named f hold
    | inr hlast =>
      rw [List.mem_singleton] at hlast
      exact hlast ▸ hnamed

theorem Numbered.of_append {entries more : List Entry} (h : Numbered (entries ++ more)) : Numbered entries := by
  constructor
  . have := h.tokens
    rw [List.map_append, List.nodup_append] at this
    exact this.left
  . intro e he f hf
    exact h.pairs e (List.mem_append_left _ he) f (List.mem_append_left _ hf)
  . intro e he
    exact h.shape e (List.mem_append_left _ he)
  . intro e he
    exact h.named e (List.mem_append_left _ he)

theorem Numbered.perm {entries other : List Entry} (h : Numbered entries) (hperm : other.Perm entries)
    : Numbered other := by
  constructor
  . exact (hperm.map _).nodup_iff.mpr h.tokens
  . intro e he f hf
    exact h.pairs e (hperm.mem_iff.mp he) f (hperm.mem_iff.mp hf)
  . intro e he
    exact h.shape e (hperm.mem_iff.mp he)
  . intro e he
    exact h.named e (hperm.mem_iff.mp he)

end Entries

section Seed

variable (R : PyRepr) (upper : PyStr → PyStr)

/--
The entries of a stored mapping.
-/
def storedEntry (item : PyStr × Dict) : Entry :=
  ⟨item.fst, prefixFor upper (metaText R item.snd (py "entity_type")), metaText R item.snd (py "original")⟩

def storedEntries (existing : Option Json) : List Entry :=
  (mappingTokens existing).map (storedEntry R upper)

theorem seedToken_tracks {c : Counters} {entries : List Entry} {item : PyStr × Dict}
    (h : Tracks c entries) (hnumbered : Numbered (entries ++ [storedEntry R upper item]))
    : Tracks (seedToken R upper c item.fst item.snd) (entries ++ [storedEntry R upper item]) := by
  have hlast : storedEntry R upper item ∈ entries ++ [storedEntry R upper item] := by
    simp
  have ⟨hkind, n, htoken⟩ := hnumbered.shape _ hlast
  have hnamed : metaText R item.snd (py "original") ≠ [] := hnumbered.named _ hlast
  have hnew : ∀ f ∈ entries, f.kind = (storedEntry R upper item).kind →
      f.original ≠ (storedEntry R upper item).original := by
    intro f hf hkinds horiginals
    have heq := hnumbered.pairs f (List.mem_append_left _ hf) _ hlast hkinds horiginals
    have hnodup := hnumbered.tokens
    rw [List.map_append, List.nodup_append] at hnodup
    exact hnodup.right.right _ (List.mem_map_of_mem hf) _ (by simp) heq
  have hnumber : toInt 10 (tokenSuffix item.fst) = some (n : Int) := by
    have := toInt_tokenSuffix hkind n
    rwa [← htoken] at this
  have ⟨next, hnext⟩ : ∃ next : Nat, (next : Int)
      = max ((c.counters.lookup (storedEntry R upper item).kind).getD 0) (n + 1) := by
    exact ⟨_, Int.toNat_of_nonneg (by omega)⟩
  unfold seedToken
  simp only [hnumber, List.isEmpty_iff, hnamed, if_false]
  have hlt : n < next := by omega
  have := h.snoc hnew hkind htoken hlt (by
    intro idx hidx
    rw [hidx] at hnext
    simp only [Option.getD_some] at hnext
    omega)
  rw [hnext] at this
  exact this

theorem seedCounters_tracks {existing : Option Json} (h : Numbered (storedEntries R upper existing))
    : Tracks (seedCounters R upper existing) (storedEntries R upper existing) := by
  unfold seedCounters storedEntries at *
  -- The counters track the entries that were read, which are a part of all entries.
  have hloop : ∀ (items : List (PyStr × Dict)) (c : Counters) (entries : List Entry), Tracks c entries →
      Numbered (entries ++ items.map (storedEntry R upper)) →
      Tracks (items.foldl (fun c item => seedToken R upper c item.fst item.snd) c)
        (entries ++ items.map (storedEntry R upper)) := by
    intro items
    induction items with
    | nil =>
      intro c entries htracks _
      simpa using htracks
    | cons item items ih =>
      intro c entries htracks hnumbered
      rw [List.map_cons, List.append_cons] at hnumbered ⊢
      exact ih _ _ (seedToken_tracks R upper htracks hnumbered.of_append) hnumbered
  exact hloop _ _ [] Tracks.nil h

theorem knownTokens_entries {existing : Option Json} (h : Numbered (storedEntries R upper existing))
    : (knownTokens R existing).map (entryOf upper) = storedEntries R upper existing := by
  unfold knownTokens storedEntries at *
  have hloop : ∀ (items : List (PyStr × Dict)) (metas : List (PyStr × TokenMeta)),
      (metas.map Prod.fst ++ items.map Prod.fst).Nodup →
      (items.foldl (fun metas item => assign item.fst
        ⟨metaText R item.snd (py "entity_type"), metaText R item.snd (py "original"), 0⟩ metas) metas).map
          (entryOf upper)
        = metas.map (entryOf upper) ++ items.map (storedEntry R upper) := by
    intro items
    induction items with
    | nil => simp
    | cons item items ih =>
      intro metas hnodup
      have hnew : item.fst ∉ metas.map Prod.fst := by
        intro hmem
        rw [List.nodup_append] at hnodup
        exact hnodup.right.right _ hmem _ (by simp) rfl
      rw [List.foldl_cons, assign_eq_append hnew, ih _ (by simpa using hnodup)]
      simp [entryOf, storedEntry]
  have hnodup : ((mappingTokens existing).map Prod.fst).Nodup := by
    have := h.tokens
    rw [List.map_map] at this
    exact this
  simpa using hloop _ [] (by simpa using hnodup)

end Seed

section Loop

variable (upper : PyStr → PyStr)

/--
The state of the loop over the spans: every token is numbered, and the counters track them.
-/
structure Consistent (a : Assignment) : Prop where
  numbered : Numbered (a.metas.map (entryOf upper))
  tracks : Tracks a.counters (a.metas.map (entryOf upper))

theorem entries_countToken (token : PyStr) (metas : List (PyStr × TokenMeta))
    : (countToken token metas).map (entryOf upper) = metas.map (entryOf upper) := by
  unfold countToken
  rw [List.map_map]
  apply List.map_congr_left
  intro item _
  simp only [Function.comp_apply]
  split <;> rfl

/--
The next number of a prefix is not in use.
-/
theorem Consistent.fresh {a : Assignment} (h : Consistent upper a) {kind : PyStr} (hkind : kind ∈ kinds)
    : ∃ idx : Nat, (idx : Int) = (a.counters.counters.lookup kind).getD 1
        ∧ tokenText kind idx ∉ a.metas.map Prod.fst := by
  obtain ⟨idx, hidx⟩ : ∃ idx : Nat, (idx : Int) = (a.counters.counters.lookup kind).getD 1 := by
    refine ⟨_, Int.toNat_of_nonneg ?_⟩
    cases hcounter : a.counters.counters.lookup kind with
    | none => decide
    | some n => exact h.tracks.natural _ _ hcounter
  refine ⟨idx, hidx, ?_⟩
  intro hmem
  have ⟨item, hitem, heq⟩ := List.mem_map.mp hmem
  have hentry := List.mem_map_of_mem (f := entryOf upper) hitem
  have ⟨hfkind, n, hn⟩ := h.numbered.shape _ hentry
  have ⟨hkinds, hnumbers⟩ := tokenText_inj hfkind hkind (hn.symm.trans heq)
  have ⟨next, hnext, hlt⟩ := h.tracks.past _ hentry n hn
  rw [hkinds] at hnext
  rw [hnext] at hidx
  simp only [Option.getD_some] at hidx
  omega

theorem Consistent.isSome_lookup {a : Assignment} (h : Consistent upper a) {kind original token : PyStr}
    (hlookup : a.counters.cache.lookup (kind, original) = some token) : (a.metas.lookup token).isSome = true := by
  have ⟨item, hitem, heq⟩ := List.mem_map.mp ((h.tracks.cache _ _ _).mp hlookup)
  have htoken : item.fst = token := congrArg Entry.token heq
  rw [← Option.ne_none_iff_isSome, ne_eq, List.lookup_eq_none_iff]
  intro hnone
  have := hnone item hitem
  simp [htoken] at this

/--
A span is counted at its token, which is a token that is there or a new one at the end.
-/
theorem assignToken_eq {a : Assignment} (h : Consistent upper a) (span : AnalysedSpan)
    : ∃ token metas, (assignToken upper a span).spanTokens = a.spanTokens ++ [(span, token)]
        ∧ (assignToken upper a span).metas = countToken token metas
        ∧ token ∈ metas.map Prod.fst
        ∧ (metas = a.metas ∨ token ∉ a.metas.map Prod.fst
          ∧ metas = a.metas ++ [(token, ⟨span.entityType, span.original, 0⟩)]) := by
  unfold assignToken
  dsimp only
  cases hlookup : a.counters.cache.lookup (prefixFor upper span.entityType, span.original) with
  | some token =>
    have hfound := h.isSome_lookup upper hlookup
    simp only [hfound, if_true]
    refine ⟨token, a.metas, rfl, rfl, ?_, .inl rfl⟩
    have ⟨item, hitem, heq⟩ := List.mem_map.mp ((h.tracks.cache _ _ _).mp hlookup)
    exact List.mem_map.mpr ⟨item, hitem, congrArg Entry.token heq⟩
  | none =>
    have ⟨idx, hidx, hunused⟩ := h.fresh upper (prefixFor_mem_kinds upper span.entityType)
    rw [← hidx]
    refine ⟨tokenText (prefixFor upper span.entityType) idx, _, rfl, rfl, ?_, .inr ⟨hunused, ?_⟩⟩
    . show tokenText (prefixFor upper span.entityType) idx ∈ (assign (tokenText _ idx) _ a.metas).map Prod.fst
      rw [assign_eq_append hunused]
      simp
    . exact assign_eq_append hunused _

/--
A span gets the token of its pair, which is a new one if the pair has none.
-/
theorem assignToken_consistent {a : Assignment} (h : Consistent upper a) {span : AnalysedSpan}
    (hnamed : span.original ≠ [])
    : Consistent upper (assignToken upper a span)
        ∧ a.metas.map (entryOf upper) ⊆ (assignToken upper a span).metas.map (entryOf upper)
        ∧ ∃ token, (assignToken upper a span).spanTokens = a.spanTokens ++ [(span, token)]
          ∧ spanEntry upper (span, token) ∈ (assignToken upper a span).metas.map (entryOf upper) := by
  have hkind := prefixFor_mem_kinds upper span.entityType
  unfold assignToken
  dsimp only
  cases hlookup : a.counters.cache.lookup (prefixFor upper span.entityType, span.original) with
  | some token =>
    have hmem := (h.tracks.cache _ _ _).mp hlookup
    have hfound := h.isSome_lookup upper hlookup
    simp only [hfound, if_true, entries_countToken]
    refine ⟨⟨?_, ?_⟩, List.Subset.refl _, token, rfl, hmem⟩
    . simp only [entries_countToken]
      exact h.numbered
    . simp only [entries_countToken]
      exact h.tracks
  | none =>
    have ⟨idx, hidx, hunused'⟩ := h.fresh upper hkind
    have htoken : py "[" ++ prefixFor upper span.entityType ++ py "_" ++ pyInt (idx : Int) ++ py "]"
        = tokenText (prefixFor upper span.entityType) idx := rfl
    have hnew : ∀ f ∈ a.metas.map (entryOf upper), f.kind = prefixFor upper span.entityType →
        f.original ≠ span.original := by
      intro f hf hkinds horiginals
      have := (h.tracks.cache f.kind f.original f.token).mpr hf
      rw [hkinds, horiginals, hlookup] at this
      contradiction
    have hunused : tokenText (prefixFor upper span.entityType) idx
        ∉ (a.metas.map (entryOf upper)).map Entry.token := by
      rw [List.map_map]
      exact hunused'
    simp only [← hidx, htoken, assign_eq_append hunused', entries_countToken]
    let e : Entry :=
      ⟨tokenText (prefixFor upper span.entityType) idx, prefixFor upper span.entityType, span.original⟩
    have hentries : (a.metas ++ [(tokenText (prefixFor upper span.entityType) idx,
        (⟨span.entityType, span.original, 0⟩ : TokenMeta))]).map (entryOf upper)
          = a.metas.map (entryOf upper) ++ [e] := by
      rw [List.map_append]
      rfl
    refine ⟨⟨?_, ?_⟩, ?_, _, rfl, ?_⟩
    . simp only [entries_countToken, hentries]
      exact h.numbered.snoc (e := e) hnew rfl hunused hkind hnamed
    . simp only [entries_countToken, hentries]
      have := h.tracks.snoc (e := e) hnew hkind rfl (Nat.lt_succ_self idx) (by
        intro n hn
        rw [hn] at hidx
        simp only [Option.getD_some] at hidx
        omega)
      exact this
    . rw [hentries]
      exact List.subset_append_left _ _
    . rw [hentries]
      simp [spanEntry, e]

end Loop

end Anonymisation
