import Legalise.Retrieval.Search

/-!
This module contains what becomes of a search whose vector path fails: the hits of the keyword query are fused, but a
statement that the database rejects leaves a failed transaction behind.
-/

namespace Retrieval

open PyStr Sweep Assign Aborting

section Fusion

/--
The scores and the candidates are those of the same chunks, and the candidates are those that were added.
-/
structure Tally.Of (candidates : List Candidate) (t : Tally) : Prop where
  keys : t.scores.map Prod.fst = t.candidates.map Prod.fst
  nodup : (t.candidates.map Prod.fst).Nodup
  added : ∀ item ∈ t.candidates, item.snd.chunkId = item.fst ∧ item.snd ∈ candidates

theorem mem_assign {κ α : Type} [DecidableEq κ] {key : κ} {value : α} {d : List (κ × α)} {item : κ × α}
    (h : item ∈ assign key value d) : item = (key, value) ∨ item ∈ d := by
  unfold assign at h
  split at h
  . have ⟨old, hold, heq⟩ := List.mem_map.mp h
    split at heq
    . exact .inl heq.symm
    . exact .inr (heq ▸ hold)
  . rw [List.mem_append, List.mem_singleton] at h
    exact h.symm

theorem Tally.Of.add {candidates : List Candidate} {t : Tally} (h : t.Of candidates) {item : Candidate × Nat}
    (hitem : item.fst ∈ candidates) : (t.add item).Of candidates where
  keys := by
    unfold Tally.add
    rw [keys_assign, keys_assign, h.keys]
  nodup := nodup_assign h.nodup _ _
  added := by
    intro other hother
    rcases mem_assign hother with rfl | hother
    . exact ⟨rfl, hitem⟩
    . exact h.added other hother

theorem Tally.Of.addAll {candidates : List Candidate} {t : Tally} (h : t.Of candidates) {items : List (Candidate × Nat)}
    (hitems : ∀ item ∈ items, item.fst ∈ candidates) : (items.foldl Tally.add t).Of candidates := by
  induction items generalizing t with
  | nil => exact h
  | cons item items ih =>
    rw [List.forall_mem_cons] at hitems
    exact ih (h.add hitems.left) hitems.right

theorem tally_of (rankedLists : List (List Candidate)) : (tally rankedLists).Of rankedLists.flatten := by
  have hall : ∀ (lists : List (List Candidate)) (t : Tally), t.Of rankedLists.flatten → lists ⊆ rankedLists →
      (lists.foldl (fun t rankedList => (rankedList.zipIdx 1).foldl Tally.add t) t).Of rankedLists.flatten := by
    intro lists
    induction lists with
    | nil => exact fun t h _ => h
    | cons rankedList lists ih =>
      intro t h hsub
      refine ih _ (h.addAll fun item hitem => ?_) fun l hl => hsub (List.mem_cons_of_mem _ hl)
      have hmem : item.fst ∈ rankedList := by
        have := List.mem_map_of_mem (f := Prod.fst) hitem
        rwa [List.zipIdx_map_fst] at this
      exact List.mem_flatten.mpr ⟨rankedList, hsub List.mem_cons_self, hmem⟩
  refine hall rankedLists ⟨[], []⟩ ⟨rfl, List.nodup_nil, ?_⟩ fun l hl => hl
  intro item hitem
  cases hitem

/--
The hits are of distinct chunks among the candidates.
-/
def DistinctChunks (candidates : List Candidate) (hits : List RetrievalHit) : Prop :=
  ∃ chosen : List Candidate, (∀ c ∈ chosen, c ∈ candidates) ∧ (chosen.map Candidate.chunkId).Nodup
    ∧ List.Forall₂ (fun hit c => ∃ score, hit = c.hit score) hits chosen

theorem length_fuse_le (vectorHits keywordHits : List Candidate) (k : Nat)
    : (fuse vectorHits keywordHits k).length ≤ k := by
  unfold fuse ranked
  exact (List.length_filterMap_le _ _).trans (List.length_take_le _ _)

/--
What is looked up for scored chunks.
-/
theorem Tally.Of.lookup {candidates : List Candidate} {t : Tally} (h : t.Of candidates) {chunkId : Uuid} {c : Candidate}
    (hlookup : t.candidates.lookup chunkId = some c) : c.chunkId = chunkId ∧ c ∈ candidates := by
  have ⟨before, after, hsplit, _⟩ := List.lookup_eq_some_iff.mp hlookup
  exact h.added (chunkId, c) (by rw [hsplit]; simp)

theorem distinctChunks_hits {candidates : List Candidate} {t : Tally} (h : t.Of candidates) {items : List (Uuid × ℚ)}
    (hitems : (items.map Prod.fst).Nodup)
    : DistinctChunks candidates
        (items.filterMap fun item => (t.candidates.lookup item.fst).map fun c => c.hit item.snd) := by
  have hmem : ∀ c ∈ items.filterMap fun item => t.candidates.lookup item.fst, c ∈ candidates := by
    intro c hc
    have ⟨item, _, hlookup⟩ := List.mem_filterMap.mp hc
    exact (h.lookup hlookup).right
  refine ⟨items.filterMap fun item => t.candidates.lookup item.fst, hmem, ?_, ?_⟩
  . have hsublist : ((items.filterMap fun item => t.candidates.lookup item.fst).map Candidate.chunkId).Sublist
        (items.map Prod.fst) := by
      clear hitems hmem
      induction items with
      | nil => exact List.Sublist.refl _
      | cons item items ih =>
        cases hlookup : t.candidates.lookup item.fst with
        | none =>
          simp only [List.filterMap_cons, hlookup]
          exact ih.cons _
        | some c =>
          simp only [List.filterMap_cons, hlookup, List.map_cons, (h.lookup hlookup).left]
          exact ih.cons_cons _
    exact hitems.sublist hsublist
  . clear hitems hmem
    induction items with
    | nil => exact .nil
    | cons item items ih =>
      cases hlookup : t.candidates.lookup item.fst with
      | none =>
        simp only [List.filterMap_cons, hlookup, Option.map_none]
        exact ih
      | some c =>
        simp only [List.filterMap_cons, hlookup, Option.map_some]
        exact .cons ⟨_, rfl⟩ ih

theorem distinctChunks_fuse (vectorHits keywordHits : List Candidate) (k : Nat)
    : DistinctChunks (vectorHits ++ keywordHits) (fuse vectorHits keywordHits k) := by
  have htally := tally_of [vectorHits, keywordHits]
  have hflatten : [vectorHits, keywordHits].flatten = vectorHits ++ keywordHits := by
    simp
  rw [hflatten] at htally
  refine distinctChunks_hits htally ?_
  have hscores : ((tally [vectorHits, keywordHits]).scores.map Prod.fst).Nodup := by
    rw [htally.keys]
    exact htally.nodup
  exact (((perm_sortBy _).map Prod.fst).nodup_iff.mpr hscores).sublist ((List.take_sublist _ _).map Prod.fst)

end Fusion

section VectorFailure

variable (engine : Engine) (db : Database) (path : VectorPath) (matterId : Uuid) (query : PyStr) (k : Int)

/--
The embedding call or the vector query fails.
-/
def VectorPath.Fails : Prop :=
  ∀ queryVector, path.embed query = some queryVector → path.vectorQuery queryVector ≠ .runs

/--
The database rejects the vector query.
-/
def VectorPath.Rejected : Prop :=
  ∃ queryVector, path.embed query = some queryVector ∧ path.vectorQuery queryVector = .rejected

/--
The search finds what the keyword query alone finds, and the next statement on the session succeeds.
-/
structure Degrades (s : Session) : Prop where
  found : ∃ hits, ((searchDocuments engine db path matterId query k).run s).fst = .ok hits
    ∧ hits = fuse [] (keywordHits engine db matterId query (poolSize k)) k.toNat
    ∧ hits.length ≤ k ∧ DistinctChunks (keywordHits engine db matterId query (poolSize k)) hits
  next : ∀ rows : List (List Json),
    ((Tx.statement Fault.aborted (.ok rows)).run ((searchDocuments engine db path matterId query k).run s).snd).fst
      = .ok rows

variable {engine db path matterId query k}

theorem keywordHits_blank (hquery : strip query = []) (limit : Nat) : keywordHits engine db matterId query limit = [] := by
  unfold keywordHits
  have hnone : ((searchable db matterId).filter fun chunk => engine.isMatch query chunk.text) = [] := by
    rw [List.filter_eq_nil_iff]
    intro chunk _
    rw [engine.isMatch_blank query chunk.text hquery]
    simp
  rw [hnone]
  simp [sortBy]

theorem fuse_nil (k : Nat) : fuse [] [] k = [] := by
  simp [fuse, ranked, tally, sortBy]

/--
How a failing vector path leaves the session.
-/
theorem vectorPath_of_fails (hfails : path.Fails query) {s : Session} (hs : s.failed = false) (limit : Nat)
    : ∃ e s', (embedQuery path query >>= fun queryVector => vectorCandidates engine db path matterId queryVector limit).run s
        = (.error e, s') ∧ (s'.failed = false ↔ ¬ path.Rejected query) := by
  cases hembed : path.embed query with
  | none =>
    have hraise : (embedQuery path query).run s = (.error .embedding, s) := by
      unfold embedQuery
      rw [hembed]
      rfl
    refine ⟨_, s, Tx.run_bind_of_error hraise _, iff_of_true hs ?_⟩
    rintro ⟨queryVector, hsome, _⟩
    rw [hembed] at hsome
    cases hsome
  | some queryVector =>
    have hreturn : (embedQuery path query).run s = (.ok queryVector, s) := by
      unfold embedQuery
      rw [hembed]
      rfl
    rw [Tx.run_bind_of_ok hreturn]
    unfold vectorCandidates
    cases hquery : path.vectorQuery queryVector with
    | runs => exact (hfails queryVector hembed hquery).elim
    | unavailable =>
      refine ⟨_, s, rfl, iff_of_true hs ?_⟩
      rintro ⟨other, hsome, hrejected⟩
      rw [hembed, Option.some.injEq] at hsome
      rw [← hsome, hquery] at hrejected
      cases hrejected
    | rejected =>
      refine ⟨_, _, Tx.run_statement_error hs _ _, iff_of_false (by simp) ?_⟩
      exact not_not.mpr ⟨queryVector, hembed, hquery⟩

/--
A search whose vector path fails is the fusion of the keyword hits alone.
-/
theorem searchDocuments_of_fails (hk : 0 < k) (hquery : strip query ≠ []) (hfails : path.Fails query) {s : Session}
    (hs : s.failed = false)
    : ∃ s', (searchDocuments engine db path matterId query k).run s
        = (.ok (fuse [] (keywordHits engine db matterId query (poolSize k)) k.toNat), s')
        ∧ (s'.failed = false ↔ ¬ path.Rejected query) := by
  have ⟨e, s', hpath, hfailed⟩ := @vectorPath_of_fails engine db path matterId query hfails s hs (poolSize k)
  refine ⟨s', ?_, hfailed⟩
  unfold searchDocuments
  rw [if_neg (not_or.mpr ⟨by omega, hquery⟩)]
  have hkeyword : (keywordCandidates engine db matterId query (poolSize k)).run s
      = (.ok (keywordHits engine db matterId query (poolSize k)), s) := Tx.run_statement_ok hs _ _
  rw [Tx.run_bind_of_ok hkeyword, Tx.run_bind_of_ok (Tx.run_orElse_of_error hpath _), Tx.run_pure]

/--
A failure of the vector path degrades the search, and nothing more, if and only if it is not the database that
rejects the vector query.
-/
theorem degrades_iff (s : Session) (hs : s.failed = false) (hk : 0 < k) (hfails : path.Fails query)
    : Degrades engine db path matterId query k s ↔ strip query = [] ∨ ¬ path.Rejected query := by
  have hshape : ∀ candidates, (fuse [] candidates k.toNat).length ≤ k
      ∧ DistinctChunks candidates (fuse [] candidates k.toNat) := by
    intro candidates
    refine ⟨?_, by simpa using distinctChunks_fuse [] candidates k.toNat⟩
    have := length_fuse_le [] candidates k.toNat
    omega
  by_cases hquery : strip query = []
  . refine iff_of_true ?_ (.inl hquery)
    have hsearch : (searchDocuments engine db path matterId query k).run s = (.ok [], s) := by
      unfold searchDocuments
      rw [if_pos (.inr hquery)]
      rfl
    have hnothing : fuse [] (keywordHits engine db matterId query (poolSize k)) k.toNat = [] := by
      rw [keywordHits_blank hquery, fuse_nil]
    constructor
    . rw [hsearch]
      exact ⟨[], rfl, hnothing.symm, hnothing ▸ hshape _⟩
    . intro rows
      rw [hsearch]
      exact (Tx.run_statement_ok_iff s _ _).mpr hs
  . have ⟨s', hsearch, hfailed⟩ := @searchDocuments_of_fails engine db path matterId query k hk hquery hfails s hs
    rw [or_iff_right hquery, ← hfailed]
    constructor
    . rintro ⟨_, hnext⟩
      rw [hsearch] at hnext
      exact (Tx.run_statement_ok_iff s' _ _).mp (hnext [])
    . intro hs'
      constructor
      . rw [hsearch]
        exact ⟨_, rfl, rfl, hshape _⟩
      . intro rows
        rw [hsearch]
        exact (Tx.run_statement_ok_iff s' _ _).mpr hs'

end VectorFailure

section Examples

/--
A full-text search for equal texts.
-/
def equality : Engine where
  isMatch query text := strip query ≠ [] ∧ query = text
  tsRank _ _ := 0
  cosineDistance _ _ := 0
  isMatch_blank query text h := by simp [h]

def letter : Database where
  chunks := [⟨Uuid.ofNat 1, Uuid.ofNat 2, Uuid.ofNat 3, 0, py "notice", 0, 6, none⟩]
  indexStatus _ := some indexIndexed

/--
No embeddings backend.
-/
def keyless : VectorPath where
  embed _ := none
  vectorQuery _ := .runs

/--
The database rejects the vector operator.
-/
def rejecting : VectorPath where
  embed _ := some []
  vectorQuery _ := .rejected

theorem degrades_keyless : Degrades equality letter keyless (Uuid.ofNat 3) (py "notice") 8 ⟨false⟩ := by
  have hfails : keyless.Fails (py "notice") := by
    intro queryVector h
    cases h
  have hrejected : ¬ keyless.Rejected (py "notice") := by
    rintro ⟨queryVector, h, _⟩
    cases h
  exact (degrades_iff ⟨false⟩ rfl (by decide) hfails).mpr (.inr hrejected)

/--
The statement after a rejected vector query fails.
-/
theorem not_degrades
    : ¬ ∀ (engine : Engine) (db : Database) (path : VectorPath) (matterId : Uuid) (query : PyStr) (k : Int) (s : Session),
      s.failed = false → 0 < k → path.Fails query → Degrades engine db path matterId query k s := by
  intro h
  have hfails : rejecting.Fails (py "notice") := by
    intro queryVector _ hruns
    cases hruns
  have hdegrades := h equality letter rejecting (Uuid.ofNat 3) (py "notice") 8 ⟨false⟩ rfl (by decide) hfails
  have ⟨s, hsearch, hfailed⟩ := @searchDocuments_of_fails equality letter rejecting (Uuid.ofNat 3) (py "notice") 8
    (by decide) (by decide) hfails ⟨false⟩ rfl
  have hnext := hdegrades.next []
  rw [hsearch, Tx.run_statement_ok_iff, hfailed] at hnext
  exact hnext ⟨[], rfl, rfl⟩

end Examples

end Retrieval
