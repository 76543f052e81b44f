import Mathlib

/-!
This module contains keyset pagination. A sorted list is read in pages, and every page after the
first one holds what comes after the last element of the page before. The elements may be spread over
several sources, each of which is asked for at most one element more than a page holds.
-/

namespace Keyset

variable {α κ σ C P ε : Type} [LinearOrder κ]

section Merge

/--
The first elements of a list that are in some part of it are among the first elements of that part.
-/
theorem take_filter_isPrefix (p : α → Bool) (n : Nat) (xs : List α)
    : (xs.take n).filter p <+: (xs.filter p).take n := by
  rw [List.prefix_take_iff]
  constructor
  . conv =>
      rhs
      rw [← List.take_append_drop n xs, List.filter_append]
    exact List.prefix_append _ _
  . calc
      ((xs.take n).filter p).length ≤ (xs.take n).length := List.length_filter_le _ _
      _ ≤ n := List.length_take_le _ _

/--
A part of a list that has its first elements begins with them.
-/
theorem take_filter_eq_take {p : α → Bool} {n : Nat} {xs : List α}
    (h : ∀ x ∈ xs.take n, p x = true) : (xs.filter p).take n = xs.take n := by
  have hsplit : xs.filter p = xs.take n ++ (xs.drop n).filter p := by
    conv =>
      lhs
      rw [← List.take_append_drop n xs, List.filter_append]
    rw [List.filter_eq_self.mpr h]
  by_cases hn : n ≤ xs.length
  . rw [hsplit, List.take_append_of_le_length (by simp [hn]), List.take_take, min_self]
  . have hall : xs.take n = xs := List.take_of_length_le (by omega)
    rw [hall] at h
    rw [List.filter_eq_self.mpr h]

theorem length_lt_iff_of_take_eq {n : Nat} {xs ys : List α}
    (h : xs.take (n + 1) = ys.take (n + 1)) : n < xs.length ↔ n < ys.length := by
  have := congrArg List.length h
  simp only [List.length_take] at this
  omega

def sortByKey (key : α → κ) (xs : List α) : List α :=
  xs.mergeSort fun a b => key a ≤ key b

variable {key : α → κ}

theorem mem_sortByKey {xs : List α} {x : α} : x ∈ sortByKey key xs ↔ x ∈ xs := by
  simp [sortByKey]

theorem pairwise_le_sortByKey (xs : List α) : (sortByKey key xs).Pairwise fun a b => key a ≤ key b := by
  have := @List.pairwise_mergeSort _ (fun a b : α => decide (key a ≤ key b))
    (by
      intro a b c hab hbc
      simp only [decide_eq_true_eq] at hab hbc ⊢
      exact hab.trans hbc)
    (by
      intro a b
      simp only [Bool.or_eq_true, decide_eq_true_eq]
      exact le_total _ _) xs
  simpa [sortByKey] using this

/--
With distinct keys there is only one sorted order.
-/
theorem eq_sortByKey {xs ys : List α} (hkeys : (xs.map key).Nodup) (hperm : List.Perm ys xs)
    (hsorted : ys.Pairwise fun a b => key a ≤ key b) : ys = sortByKey key xs := by
  apply List.Perm.eq_of_pairwise ?_ hsorted (pairwise_le_sortByKey xs)
  . exact hperm.trans (List.mergeSort_perm _ _).symm
  . intro a b ha hb hab hba
    exact List.inj_on_of_nodup_map hkeys (hperm.mem_iff.mp ha) (mem_sortByKey.mp hb)
      (le_antisymm hab hba)

theorem sortByKey_filter {xs : List α} (hkeys : (xs.map key).Nodup) (p : α → Bool)
    : sortByKey key (xs.filter p) = (sortByKey key xs).filter p := by
  symm
  apply eq_sortByKey (List.Nodup.sublist (List.filter_sublist.map key) hkeys)
  . exact (List.mergeSort_perm xs _).filter p
  . exact (pairwise_le_sortByKey xs).filter p

/--
A map that keeps the order of the keys can be applied after sorting.
-/
theorem map_sortByKey {β μ : Type} [LinearOrder μ] (key' : β → μ) {f : α → β}
    (h : ∀ a b, key a ≤ key b ↔ key' (f a) ≤ key' (f b)) (xs : List α)
    : (sortByKey key xs).map f = sortByKey key' (xs.map f) := by
  unfold sortByKey
  apply List.map_mergeSort
  intro a _ b _
  simp [h a b]

theorem pairwise_lt_sortByKey {xs : List α} (hkeys : (xs.map key).Nodup)
    : (sortByKey key xs).Pairwise fun a b => key a < key b := by
  have hperm : List.Perm ((sortByKey key xs).map key) (xs.map key) :=
    (List.mergeSort_perm xs _).map key
  have hne := List.pairwise_map.mp (hperm.nodup_iff.mpr hkeys)
  exact (pairwise_le_sortByKey xs).imp₂ (fun _ _ hle hne => lt_of_le_of_ne hle hne) hne

/--
A part of the elements is sorted as it stands in the sorted list of all of them.
-/
theorem sortByKey_eq_filter [DecidableEq α] {xs ys : List α} (hkeys : (xs.map key).Nodup)
    (hys : (ys.map key).Nodup) (hsub : ys ⊆ xs)
    : sortByKey key ys = (sortByKey key xs).filter fun x => x ∈ ys := by
  symm
  apply eq_sortByKey hys
  . apply (List.perm_ext_iff_of_nodup ?_ hys.of_map).mpr
    . intro x
      simp only [List.mem_filter, mem_sortByKey, decide_eq_true_eq, and_iff_right_iff_imp]
      exact @hsub x
    . exact ((List.mergeSort_perm xs _).nodup_iff.mpr hkeys.of_map).filter _
  . exact (pairwise_le_sortByKey xs).filter _

/--
The first elements of all sources together are among the first elements of every single one.
-/
theorem take_sortByKey_flatMap (sources : List σ) (rows : σ → List α)
    (hkeys : ((sources.flatMap rows).map key).Nodup) (n : Nat)
    : (sortByKey key (sources.flatMap fun source => (sortByKey key (rows source)).take n)).take n
        = (sortByKey key (sources.flatMap rows)).take n := by
  classical
  have hpulled : List.Sublist
      (sources.flatMap fun source => ((sortByKey key (rows source)).take n).map key)
      (sources.flatMap fun source => (sortByKey key (rows source)).map key) := by
    induction sources with
    | nil => exact .slnil
    | cons source sources ih =>
      rw [List.flatMap_cons, List.flatMap_cons]
      apply List.Sublist.append ((List.take_sublist _ _).map key)
      apply ih
      rw [List.flatMap_cons, List.map_append] at hkeys
      exact hkeys.of_append_right
  have hall : List.Perm (sources.flatMap fun source => (sortByKey key (rows source)).map key)
      ((sources.flatMap rows).map key) := by
    rw [List.map_flatMap]
    exact List.Perm.flatMap_left sources fun source _ => (List.mergeSort_perm _ _).map key
  have hpulls : ((sources.flatMap fun source => (sortByKey key (rows source)).take n).map key).Nodup := by
    rw [List.map_flatMap]
    exact (hall.nodup_iff.mpr hkeys).sublist hpulled
  have hsub : (sources.flatMap fun source => (sortByKey key (rows source)).take n)
      ⊆ sources.flatMap rows := by
    intro x hx
    have ⟨source, hsource, hx⟩ := List.mem_flatMap.mp hx
    exact List.mem_flatMap.mpr ⟨source, hsource, mem_sortByKey.mp (List.mem_of_mem_take hx)⟩
  rw [sortByKey_eq_filter hkeys hpulls hsub]
  apply take_filter_eq_take
  intro x hx
  have ⟨source, hsource, hxsource⟩ := List.mem_flatMap.mp (mem_sortByKey.mp (List.mem_of_mem_take hx))
  have hsourceSub : rows source ⊆ sources.flatMap rows := by
    intro y hy
    exact List.mem_flatMap.mpr ⟨source, hsource, hy⟩
  have hsourceKeys : ((rows source).map key).Nodup := by
    have : List.Sublist (rows source) (sources.map rows).flatten :=
      List.sublist_flatten_of_mem (List.mem_map.mpr ⟨source, hsource, rfl⟩)
    exact List.Nodup.sublist (this.map key) hkeys
  have hfirst : x ∈ ((sortByKey key (sources.flatMap rows)).take n).filter fun x => x ∈ rows source :=
    List.mem_filter.mpr ⟨hx, by simpa using hxsource⟩
  have hpart := (take_filter_isPrefix _ n _).subset hfirst
  rw [← sortByKey_eq_filter hkeys hsourceKeys hsourceSub] at hpart
  simpa using ⟨source, hsource, hpart⟩

end Merge

section Walk

/--
Pages are fetched until one of them names no next cursor.
-/
inductive Walk (fetch : Option C → Except ε P) (next : P → Option C) : Option C → List P → Prop where
  | last {cursor : Option C} {page : P} (hfetch : fetch cursor = .ok page) (hnext : next page = none)
    : Walk fetch next cursor [page]
  | more {cursor : Option C} {page : P} {cursor' : C} {pages : List P}
    (hfetch : fetch cursor = .ok page) (hnext : next page = some cursor')
    (hpages : Walk fetch next (some cursor') pages) : Walk fetch next cursor (page :: pages)

variable {fetch : Option C → Except ε P} {next : P → Option C}

/--
There is only one way to walk.
-/
theorem Walk.unique {cursor : Option C} {pages pages' : List P} (h : Walk fetch next cursor pages)
    (h' : Walk fetch next cursor pages') : pages = pages' := by
  induction h generalizing pages' with
  | last hfetch hnext =>
    cases h' with
    | last hfetch' hnext' =>
      rw [hfetch, Except.ok.injEq] at hfetch'
      rw [hfetch']
    | more hfetch' hnext' hpages' =>
      rw [hfetch, Except.ok.injEq] at hfetch'
      rw [← hfetch', hnext] at hnext'
      contradiction
  | more hfetch hnext hpages ih =>
    cases h' with
    | last hfetch' hnext' =>
      rw [hfetch, Except.ok.injEq] at hfetch'
      rw [← hfetch', hnext] at hnext'
      contradiction
    | more hfetch' hnext' hpages' =>
      rw [hfetch, Except.ok.injEq] at hfetch'
      rw [← hfetch', hnext, Option.some.injEq] at hnext'
      rw [← hnext'] at hpages'
      rw [hfetch', ih hpages']

/--
A page holds the first elements of what is left, and names the last one of them if that is not all.
-/
structure IsPage (next : P → Option C) (entries : P → List α) (encode : α → C) (limit : Nat)
    (rest : List α) (page : P) : Prop where
  entries : entries page = rest.take limit
  next : next page
    = if limit < rest.length then (rest.take limit).getLast?.map encode else none

variable {entries : P → List α} {encode : α → C} {key : α → κ} {all : List α} {limit : Nat}

/--
What comes after an element of a sorted list.
-/
theorem filter_lt_eq {before after : List α} {x : α}
    (hsorted : (before ++ x :: after).Pairwise fun a b => key a < key b)
    : (before ++ x :: after).filter (fun y => key x < key y) = after := by
  rw [List.pairwise_append, List.pairwise_cons] at hsorted
  have ⟨_, ⟨hafter, _⟩, hbefore⟩ := hsorted
  rw [List.filter_append, List.filter_cons_of_neg (by simp)]
  have hnone : before.filter (fun y => key x < key y) = [] := by
    rw [List.filter_eq_nil_iff]
    intro y hy
    simpa using (hbefore y hy x (by simp)).le
  have hself : after.filter (fun y => key x < key y) = after := by
    rw [List.filter_eq_self]
    intro y hy
    simpa using hafter y hy
  rw [hnone, hself, List.nil_append]

/--
From any place in the list on, the pages put together are the rest of the list, and all but the last
one are full.
-/
theorem exists_walk_of_suffix (hlimit : 0 < limit)
    (hsorted : all.Pairwise fun a b => key a < key b)
    (hfetch : ∀ x ∈ all, ∃ page, fetch (some (encode x)) = .ok page
      ∧ IsPage next entries encode limit (all.filter fun y => key x < key y) page)
    {before rest : List α} (hsplit : before ++ rest = all) {cursor : Option C} {page : P}
    (hpage : fetch cursor = .ok page) (his : IsPage next entries encode limit rest page)
    : ∃ pages, Walk fetch next cursor pages
        ∧ pages.flatMap entries = rest
        ∧ ∀ page ∈ pages.dropLast, (entries page).length = limit := by
  -- The list gets shorter with every page, as a page is never empty unless it is the last one.
  induction hn : rest.length using Nat.strong_induction_on generalizing before rest cursor page with
  | _ n ih =>
    by_cases hmore : limit < rest.length
    . have hnext := his.next
      rw [if_pos hmore] at hnext
      cases hlast : (rest.take limit).getLast? with
      | none =>
        have := congrArg List.length (List.getLast?_eq_none_iff.mp hlast)
        simp only [List.length_take, List.length_nil] at this
        omega
      | some x =>
        rw [hlast, Option.map_some] at hnext
        have ⟨front, hfront⟩ := List.getLast?_eq_some_iff.mp hlast
        have hall : all = (before ++ front) ++ x :: rest.drop limit := by
          rw [← hsplit]
          conv =>
            lhs
            rw [← List.take_append_drop limit rest, hfront]
          simp
        have ⟨page', hpage', his'⟩ := hfetch x (by simp [hall])
        have hrest : (all.filter fun y => key x < key y) = rest.drop limit := by
          rw [hall] at hsorted ⊢
          exact filter_lt_eq hsorted
        rw [hrest] at his'
        have ⟨pages, hwalk, hflat, hfull⟩ := ih (rest.drop limit).length
          (by simp only [List.length_drop]; omega)
          (show (before ++ rest.take limit) ++ rest.drop limit = all by
            rw [List.append_assoc, List.take_append_drop, hsplit]) hpage' his' rfl
        refine ⟨page :: pages, .more hpage hnext hwalk, ?_, ?_⟩
        . rw [List.flatMap_cons, his.entries, hflat, List.take_append_drop]
        . have hne : pages ≠ [] := by
            rintro rfl
            cases hwalk
          intro other hother
          rw [List.dropLast_cons_of_ne_nil hne, List.mem_cons] at hother
          cases hother with
          | inl heq =>
            rw [heq, his.entries, List.length_take]
            omega
          | inr hother => exact hfull other hother
    . refine ⟨[page], .last hpage (by rw [his.next, if_neg hmore]), ?_, by simp⟩
      rw [List.flatMap_singleton, his.entries]
      exact List.take_of_length_le (by omega)

theorem exists_walk (hlimit : 0 < limit) (hsorted : all.Pairwise fun a b => key a < key b)
    (hfirst : ∃ page, fetch none = .ok page ∧ IsPage next entries encode limit all page)
    (hfetch : ∀ x ∈ all, ∃ page, fetch (some (encode x)) = .ok page
      ∧ IsPage next entries encode limit (all.filter fun y => key x < key y) page)
    : ∃ pages, Walk fetch next none pages
        ∧ pages.flatMap entries = all
        ∧ ∀ page ∈ pages.dropLast, (entries page).length = limit := by
  have ⟨page, hpage, his⟩ := hfirst
  exact exists_walk_of_suffix hlimit hsorted hfetch (List.nil_append all) hpage his

end Walk

end Keyset
