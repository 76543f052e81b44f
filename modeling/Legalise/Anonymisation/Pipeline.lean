import Legalise.Anonymisation.Coverage

/-!
This module contains the anonymisation of a document by one of the engines, and when the automatic
choice redacts everything that Presidio finds.
-/

namespace Anonymisation

open PyStr Sweep Assign

inductive Engine where
  | presidio
  | claude
  | auto
  deriving DecidableEq

section Engines

variable (R : PyRepr) (upper : PyStr → PyStr) (parseModelJson : PyStr → Option AnonymisationEnvelope)
  (text : PyStr) (existing : Option Json)

end Engines

section TokenCount

variable (R : PyRepr) (upper : PyStr → PyStr) (existing : Option Json)

/--
The pairs of a prefix and an original for which the stored mapping has no token.
-/
def newPairs (spans : List AnalysedSpan) : Finset (PyStr × PyStr) :=
  ((spans.map fun s => (prefixFor upper s.entityType, s.original)).filter fun pair =>
    ((seedCounters R upper existing).cache.lookup pair).isNone).toFinset

/--
How many of the pairs have a prefix.
-/
def numberOf (pairs : Finset (PyStr × PyStr)) (kind : PyStr) : Nat :=
  (pairs.filter fun pair => pair.fst = kind).card

/--
The token of a prefix that comes so many numbers after the next one of the stored mapping.
-/
def nextToken (kind : PyStr) (i : Nat) : PyStr :=
  py "[" ++ kind ++ py "_" ++ pyInt (((seedCounters R upper existing).counters.lookup kind).getD 1 + i) ++ py "]"

/--
The tokens with the next numbers of every prefix, one for each of the pairs.
-/
def nextTokens (pairs : Finset (PyStr × PyStr)) : Finset PyStr :=
  (pairs.image Prod.fst).biUnion fun kind =>
    (Finset.range (numberOf pairs kind)).image (nextToken R upper existing kind)

/--
How many tokens there are for some spans besides those of the stored mapping. Without a span there is none.
-/
def tokenCount (spans : List AnalysedSpan) : Nat :=
  if spans.isEmpty then 0
  else (((knownTokens R existing).map Prod.fst).toFinset
    ∪ nextTokens R upper existing (newPairs R upper existing spans)).card

variable {existing}

theorem numberOf_insert {pairs : Finset (PyStr × PyStr)} {pair : PyStr × PyStr} (h : pair ∉ pairs) (kind : PyStr)
    : numberOf (insert pair pairs) kind = numberOf pairs kind + if pair.fst = kind then 1 else 0 := by
  unfold numberOf
  rw [Finset.filter_insert]
  split
  . rw [Finset.card_insert_of_notMem fun hmem => h (Finset.mem_of_mem_filter _ hmem)]
  . rfl

theorem mem_nextTokens {pairs : Finset (PyStr × PyStr)} {token : PyStr}
    : token ∈ nextTokens R upper existing pairs
        ↔ ∃ kind, ∃ i < numberOf pairs kind, token = nextToken R upper existing kind i := by
  unfold nextTokens
  simp only [Finset.mem_biUnion, Finset.mem_image, Finset.mem_range]
  constructor
  . rintro ⟨kind, _, i, hi, heq⟩
    exact ⟨kind, i, hi, heq.symm⟩
  . rintro ⟨kind, i, hi, heq⟩
    have hpos : 0 < numberOf pairs kind := by omega
    obtain ⟨pair, hpair⟩ := Finset.card_pos.mp hpos
    rw [Finset.mem_filter] at hpair
    exact ⟨kind, ⟨pair, hpair⟩, i, hi, heq.symm⟩

theorem nextTokens_insert {pairs : Finset (PyStr × PyStr)} {pair : PyStr × PyStr} (h : pair ∉ pairs)
    : nextTokens R upper existing (insert pair pairs)
        = insert (nextToken R upper existing pair.fst (numberOf pairs pair.fst))
          (nextTokens R upper existing pairs) := by
  ext token
  rw [Finset.mem_insert, mem_nextTokens, mem_nextTokens]
  constructor
  . rintro ⟨kind, i, hi, heq⟩
    rw [numberOf_insert h] at hi
    by_cases hlast : pair.fst = kind ∧ i = numberOf pairs kind
    . left
      rw [heq, hlast.left, hlast.right]
    . right
      refine ⟨kind, i, ?_, heq⟩
      split at hi
      . next hkind =>
        have hne : i ≠ numberOf pairs kind := fun hi => hlast ⟨hkind, hi⟩
        omega
      . exact hi
  . rintro (heq | ⟨kind, i, hi, heq⟩)
    . refine ⟨pair.fst, numberOf pairs pair.fst, ?_, heq⟩
      rw [numberOf_insert h, if_pos rfl]
      exact Nat.lt_succ_self _
    . refine ⟨kind, i, ?_, heq⟩
      rw [numberOf_insert h]
      omega

/--
The loop that assigns the tokens, after some of the spans.
-/
structure Tallied (existing : Option Json) (spans : List AnalysedSpan) (a : Assignment) : Prop where
  counters : ∀ kind, (a.counters.counters.lookup kind).getD 1
    = ((seedCounters R upper existing).counters.lookup kind).getD 1
      + (numberOf (newPairs R upper existing spans) kind : Int)
  cache : ∀ pair, a.counters.cache.lookup pair = none
    ↔ (seedCounters R upper existing).cache.lookup pair = none ∧ pair ∉ newPairs R upper existing spans
  cached : ∀ pair token, a.counters.cache.lookup pair = some token → token ∈ a.metas.map Prod.fst
  nodup : (a.metas.map Prod.fst).Nodup
  keys : (a.metas.map Prod.fst).toFinset
    = ((knownTokens R existing).map Prod.fst).toFinset ∪ nextTokens R upper existing (newPairs R upper existing spans)

theorem keys_countToken (token : PyStr) (metas : List (PyStr × TokenMeta))
    : (countToken token metas).map Prod.fst = metas.map Prod.fst := by
  unfold countToken
  rw [List.map_map]
  refine List.map_congr_left fun item _ => ?_
  rw [Function.comp_apply]
  split <;> rfl

theorem newPairs_concat (spans : List AnalysedSpan) (s : AnalysedSpan)
    : newPairs R upper existing (spans ++ [s])
        = if (seedCounters R upper existing).cache.lookup (prefixFor upper s.entityType, s.original) = none then
            insert (prefixFor upper s.entityType, s.original) (newPairs R upper existing spans)
          else newPairs R upper existing spans := by
  unfold newPairs
  rw [List.map_append, List.filter_append, List.toFinset_append, List.map_singleton]
  split
  . next hnone =>
    rw [List.filter_cons_of_pos (by rw [hnone]; rfl), List.filter_nil, List.toFinset_cons, List.toFinset_nil,
      LawfulSingleton.insert_empty_eq, Finset.union_comm, Finset.insert_eq]
  . next hsome =>
    rw [List.filter_cons_of_neg (by rw [Option.isNone_iff_eq_none]; exact hsome), List.filter_nil, List.toFinset_nil,
      Finset.union_empty]

theorem Tallied.step {spans : List AnalysedSpan} {a : Assignment} (h : Tallied R upper existing spans a)
    (s : AnalysedSpan) : Tallied R upper existing (spans ++ [s]) (assignToken upper a s) := by
  unfold assignToken
  dsimp only
  split
  . next hnone =>
    -- A new pair takes the next number of its prefix.
    have hnew := (h.cache _).mp hnone
    have hpairs : newPairs R upper existing (spans ++ [s])
        = insert (prefixFor upper s.entityType, s.original) (newPairs R upper existing spans) := by
      rw [newPairs_concat, if_pos hnew.left]
    constructor
    . intro kind
      dsimp only
      rw [lookup_assign, hpairs, numberOf_insert hnew.right]
      split
      . next heq =>
        rw [Option.getD_some, h.counters, if_pos heq.symm, heq]
        push_cast
        omega
      . next hne => rw [h.counters, if_neg (Ne.symm hne), Nat.add_zero]
    . intro pair
      dsimp only
      rw [lookup_assign, hpairs, Finset.mem_insert, not_or]
      split
      . next heq => simp [heq]
      . next hne =>
        rw [h.cache]
        tauto
    . intro pair token htoken
      dsimp only at htoken ⊢
      rw [keys_countToken, keys_assign]
      rw [lookup_assign] at htoken
      split at htoken
      . next heq =>
        rw [← Option.some.inj htoken]
        split
        . assumption
        . simp
      . have := h.cached pair token htoken
        split
        . assumption
        . exact List.mem_append_left _ this
    . rw [keys_countToken]
      exact nodup_assign h.nodup _ _
    . rw [keys_countToken, keys_assign, hpairs, nextTokens_insert R upper hnew.right, nextToken, ← h.counters,
        Finset.union_insert, ← h.keys]
      split
      . next hin => exact (Finset.insert_eq_of_mem (List.mem_toFinset.mpr hin)).symm
      . rw [List.toFinset_append, Finset.union_comm]
        rfl
  . next token htoken =>
    have hin := h.cached _ _ htoken
    have hsome : (a.metas.lookup token).isSome = true := by
      rw [← Option.ne_none_iff_isSome, Ne, List.lookup_eq_none_iff]
      intro hnone
      obtain ⟨item, hitem, heq⟩ := List.mem_map.mp hin
      simpa [heq] using hnone item hitem
    have hpairs : newPairs R upper existing (spans ++ [s]) = newPairs R upper existing spans := by
      rw [newPairs_concat]
      split
      . next hseed =>
        refine Finset.insert_eq_of_mem ?_
        by_contra hnot
        have := (h.cache _).mpr ⟨hseed, hnot⟩
        rw [htoken] at this
        cases this
      . rfl
    rw [if_pos hsome]
    constructor
    . rw [hpairs]
      exact h.counters
    . rw [hpairs]
      exact h.cache
    . dsimp only
      rw [keys_countToken]
      exact h.cached
    . dsimp only
      rw [keys_countToken]
      exact h.nodup
    . dsimp only
      rw [keys_countToken, hpairs]
      exact h.keys

end TokenCount

section Redacts

variable (R : PyRepr) (upper : PyStr → PyStr) (parseModelJson : PyStr → Option AnonymisationEnvelope)
  {text : PyStr} (existing : Option Json)

end Redacts

section Runs

end Runs

end Anonymisation
