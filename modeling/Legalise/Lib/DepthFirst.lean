import Mathlib

/-!
This module contains depth-first search for the cycles of a directed graph, where the recursion may run out of
frames. A search that reports no cycle leaves its nodes in an order in which every edge leads backwards, so that
there is none, and a search that fails has followed a path of as many nodes as there are frames.
-/

namespace DepthFirst

open Relation

variable {V : Type}

/--
The nodes that are done, and the cycles found so far.
-/
structure Search (V : Type) where
  visited : List V
  cycles : List (List V)

/--
A walk along edges that ends where it starts.
-/
def ClosedWalk (succ : V → List V) (c : List V) : Prop :=
  ∃ v walk, c = v :: (walk ++ [v]) ∧ List.IsChain (fun a b => b ∈ succ a) c

/--
Every edge from a node of the list leads to an earlier node of the list.
-/
inductive Ordered (succ : V → List V) : List V → Prop where
  | nil : Ordered succ []
  | snoc {vs : List V} {v : V} (h : Ordered succ vs) (hv : ∀ w ∈ succ v, w ∈ vs)
    : Ordered succ (vs ++ [v])

variable {succ : V → List V}

theorem ClosedWalk.transGen {c : List V} (h : ClosedWalk succ c)
    : ∃ v ∈ c, TransGen (fun a b => b ∈ succ a) v v := by
  have ⟨v, walk, hc, hchain⟩ := h
  have hreach (vs : List V) (a b : V) (hvs : List.IsChain (fun a b => b ∈ succ a) (a :: (vs ++ [b])))
      : TransGen (fun a b => b ∈ succ a) a b := by
    induction vs generalizing a with
    | nil => exact .single (by simpa using hvs)
    | cons x vs ih =>
      rw [List.cons_append, List.isChain_cons_cons] at hvs
      exact .head hvs.left (ih x hvs.right)
  rw [hc] at hchain ⊢
  exact ⟨v, by simp, hreach walk v v hchain⟩

theorem succ_ne_nil_of_mem_path {path : List V} {last : V}
    (h : List.IsChain (fun a b => b ∈ succ a) (path ++ [last])) {v : V} (hv : v ∈ path) : succ v ≠ [] := by
  induction path with
  | nil => contradiction
  | cons a path ih =>
    rw [List.cons_append, List.isChain_cons] at h
    cases List.mem_cons.mp hv with
    | inl heq =>
      subst heq
      have hsome : (path ++ [last]).head? ≠ none := by simp
      obtain ⟨b, hb⟩ := Option.ne_none_iff_exists'.mp hsome
      exact List.ne_nil_of_mem (h.left b hb)
    | inr hv => exact ih h.right hv

/--
Every node of a closed walk has a successor.
-/
theorem ClosedWalk.succ_ne_nil {c : List V} (h : ClosedWalk succ c) {v : V} (hv : v ∈ c)
    : succ v ≠ [] := by
  obtain ⟨u, walk, hc, hchain⟩ := h
  have hv : v ∈ u :: walk := by
    rw [hc] at hv
    simp only [List.mem_cons, List.mem_append, List.not_mem_nil, or_false] at hv ⊢
    tauto
  rw [hc] at hchain
  exact @succ_ne_nil_of_mem_path _ _ (u :: walk) u hchain v hv

namespace Ordered

theorem closed {vs : List V} (h : Ordered succ vs) {v w : V} (hv : v ∈ vs)
    (hvw : ReflTransGen (fun a b => b ∈ succ a) v w) : w ∈ vs := by
  have hstep {a b : V} (ha : a ∈ vs) (hab : b ∈ succ a) : b ∈ vs := by
    clear hvw hv
    induction h with
    | nil => contradiction
    | @snoc vs v h hsucc ih =>
      cases List.mem_append.mp ha with
      | inl ha => exact List.mem_append_left _ (ih ha)
      | inr ha =>
        rw [List.mem_singleton.mp ha] at hab
        exact List.mem_append_left _ (hsucc b hab)
  induction hvw with
  | refl => exact hv
  | tail _ hlast ih => exact hstep ih hlast

theorem acyclic {vs : List V} (h : Ordered succ vs) {v : V} (hv : v ∈ vs)
    : ¬ TransGen (fun a b => b ∈ succ a) v v := by
  induction h with
  | nil => contradiction
  | @snoc vs u h hsucc ih =>
    intro hcycle
    have ⟨w, hvw, hwv⟩ := TransGen.head'_iff.mp hcycle
    by_cases hold : v ∈ vs
    . exact ih hold hcycle
    . cases List.mem_append.mp hv with
      | inl hv => exact hold hv
      | inr hv =>
        rw [List.mem_singleton.mp hv] at hvw
        exact hold (h.closed (hsucc w hvw) hwv)

end Ordered

variable [DecidableEq V]

/--
Visit a node below the nodes on the stack. A node that is on the stack already closes a cycle. Without a frame for it
the visit fails.
-/
def dfs (succ : V → List V) : Nat → List V → Search V → V → Option (Search V)
  | 0, _, _, _ => none
  | frames + 1, stack, s, node =>
    if node ∈ s.visited then some s
    else if node ∈ stack then
      some { s with cycles := s.cycles ++ [stack.drop (stack.idxOf node) ++ [node]] }
    else do
      let s ← (succ node).foldlM (dfs succ frames (stack ++ [node])) s
      return { s with visited := s.visited ++ [node] }

/--
Visit the given nodes one after the other.
-/
def search (succ : V → List V) (frames : Nat) (nodes : List V) : Option (Search V) :=
  nodes.foldlM (dfs succ frames []) ⟨[], []⟩

section Visits

mutual

/--
A visit that ends, whatever the number of frames.
-/
inductive Visits (succ : V → List V) : List V → Search V → V → Search V → Prop where
  | visited {stack : List V} {s : Search V} {node : V} (h : node ∈ s.visited) : Visits succ stack s node s
  | closing {stack : List V} {s : Search V} {node : V} (h : node ∉ s.visited) (hstack : node ∈ stack)
    : Visits succ stack s node { s with cycles := s.cycles ++ [stack.drop (stack.idxOf node) ++ [node]] }
  | descend {stack : List V} {s t : Search V} {node : V} (h : node ∉ s.visited) (hstack : node ∉ stack)
      (hall : VisitsAll succ (stack ++ [node]) s (succ node) t)
    : Visits succ stack s node { t with visited := t.visited ++ [node] }

inductive VisitsAll (succ : V → List V) : List V → Search V → List V → Search V → Prop where
  | nil {stack : List V} {s : Search V} : VisitsAll succ stack s [] s
  | cons {stack : List V} {s t u : Search V} {node : V} {nodes : List V} (h : Visits succ stack s node t)
      (hall : VisitsAll succ stack t nodes u) : VisitsAll succ stack s (node :: nodes) u

end

theorem VisitsAll.of_foldlM {stack : List V} {visit : Search V → V → Option (Search V)}
    (h : ∀ s node t, visit s node = some t → Visits succ stack s node t) {nodes : List V} {s t : Search V}
    (hrun : nodes.foldlM visit s = some t) : VisitsAll succ stack s nodes t := by
  induction nodes generalizing s with
  | nil =>
    cases hrun
    exact .nil
  | cons node nodes ih =>
    rw [List.foldlM_cons, Option.bind_eq_bind, Option.bind_eq_some_iff] at hrun
    obtain ⟨u, hfirst, hrest⟩ := hrun
    exact .cons (h s node u hfirst) (ih hrest)

theorem visits_of_dfs {frames : Nat} {stack : List V} {s t : Search V} {node : V}
    (h : dfs succ frames stack s node = some t) : Visits succ stack s node t := by
  induction frames generalizing stack s node t with
  | zero => cases h
  | succ frames ih =>
    unfold dfs at h
    split at h
    . next hvisited =>
      cases h
      exact .visited hvisited
    . next hvisited =>
      split at h
      . next hstack =>
        cases h
        exact .closing hvisited hstack
      . next hstack =>
        rw [Option.bind_eq_bind, Option.bind_eq_some_iff] at h
        obtain ⟨u, hall, heq⟩ := h
        cases heq
        exact .descend hvisited hstack (VisitsAll.of_foldlM (fun _ _ _ => ih) hall)

theorem visitsAll_of_search {frames : Nat} {nodes : List V} {t : Search V} (h : search succ frames nodes = some t)
    : VisitsAll succ [] ⟨[], []⟩ nodes t :=
  VisitsAll.of_foldlM (fun _ _ _ => visits_of_dfs) h

end Visits

section Soundness

mutual

/--
Every reported cycle is a closed walk.
-/
theorem Visits.sound {stack : List V} {s t : Search V} {node : V}
    (hstack : List.IsChain (fun a b => b ∈ succ a) (stack ++ [node])) (hs : ∀ c ∈ s.cycles, ClosedWalk succ c)
    : Visits succ stack s node t → ∀ c ∈ t.cycles, ClosedWalk succ c
  | .visited _ => hs
  | .closing _ hmem => by
    intro c hc
    cases List.mem_append.mp hc with
    | inl hc => exact hs c hc
    | inr hc =>
      -- The stack from the node on leads from the node to the node.
      rw [List.mem_singleton.mp hc]
      have hlt := List.idxOf_lt_length_of_mem hmem
      have hdrop : stack.drop (stack.idxOf node) = node :: stack.drop (stack.idxOf node + 1) := by
        rw [List.drop_eq_getElem_cons hlt, List.getElem_idxOf]
      have hchain : List.IsChain (fun a b => b ∈ succ a) (stack.drop (stack.idxOf node) ++ [node]) := by
        have := hstack.drop (stack.idxOf node)
        rwa [List.drop_append_of_le_length (le_of_lt hlt)] at this
      exact ⟨node, stack.drop (stack.idxOf node + 1), by rw [hdrop]; rfl, hchain⟩
  | .descend _ _ hall => by
    have hbelow (next : V) (hnext : next ∈ succ node)
        : List.IsChain (fun a b => b ∈ succ a) ((stack ++ [node]) ++ [next]) := by
      rw [List.isChain_append]
      refine ⟨hstack, by simp, fun a ha b hb => ?_⟩
      have ha : node = a := by simpa using ha
      have hb : next = b := by simpa using hb
      rw [← ha, ← hb]
      exact hnext
    exact fun c hc => hall.sound hbelow hs c hc

theorem VisitsAll.sound {stack nodes : List V} {s t : Search V}
    (hstack : ∀ node ∈ nodes, List.IsChain (fun a b => b ∈ succ a) (stack ++ [node]))
    (hs : ∀ c ∈ s.cycles, ClosedWalk succ c)
    : VisitsAll succ stack s nodes t → ∀ c ∈ t.cycles, ClosedWalk succ c
  | .nil => hs
  | .cons h hall => by
    rw [List.forall_mem_cons] at hstack
    exact hall.sound hstack.right (h.sound hstack.left hs)

end

theorem search_sound {frames : Nat} {nodes : List V} {t : Search V} (h : search succ frames nodes = some t)
    : ∀ c ∈ t.cycles, ClosedWalk succ c :=
  (visitsAll_of_search h).sound (by simp) (by simp)

end Soundness

section SelfLoops

mutual

/--
Nothing that was reported is forgotten, and a node on the stack is not done before the visit that has put it there
ends.
-/
theorem Visits.keeps {stack : List V} {s t : Search V} {node : V}
    : Visits succ stack s node t → s.cycles ⊆ t.cycles ∧ ∀ v ∈ stack, v ∉ s.visited → v ∉ t.visited
  | .visited _ => ⟨List.Subset.refl _, fun _ _ hv => hv⟩
  | .closing _ _ => ⟨List.subset_append_left _ _, fun _ _ hv => hv⟩
  | .descend _ hstack hall => by
    refine ⟨hall.keeps.left, fun v hv hnew => ?_⟩
    have hrest := hall.keeps.right v (List.mem_append_left _ hv) hnew
    have hne : v ≠ node := fun h => hstack (h ▸ hv)
    simpa using ⟨hrest, hne⟩

theorem VisitsAll.keeps {stack nodes : List V} {s t : Search V}
    : VisitsAll succ stack s nodes t → s.cycles ⊆ t.cycles ∧ ∀ v ∈ stack, v ∉ s.visited → v ∉ t.visited
  | .nil => ⟨List.Subset.refl _, fun _ _ hv => hv⟩
  | .cons h hall =>
    ⟨List.Subset.trans h.keeps.left hall.keeps.left,
      fun v hv hnew => hall.keeps.right v hv (h.keeps.right v hv hnew)⟩

end

theorem VisitsAll.selfLoop {v : V} {nodes : List V} {s t : Search V} (h : VisitsAll succ [v] s nodes t)
    (hv : v ∈ nodes) (hs : v ∉ s.visited) : [v, v] ∈ t.cycles := by
  induction nodes generalizing s with
  | nil => contradiction
  | cons node nodes ih =>
    cases h with
    | cons hfirst hall =>
      cases List.mem_cons.mp hv with
      | inl heq =>
        subst heq
        refine hall.keeps.left ?_
        cases hfirst with
        | visited hvisited => contradiction
        | closing _ _ => simp
        | descend _ hstack _ => simp at hstack
      | inr hv => exact ih hall hv (hfirst.keeps.right v (by simp) hs)

/--
The search reports an edge from its first node to itself.
-/
theorem selfLoop_mem_search {v : V} (hv : v ∈ succ v) {frames : Nat} {nodes : List V} {t : Search V}
    (h : search succ frames (v :: nodes) = some t) : [v, v] ∈ t.cycles := by
  cases visitsAll_of_search h with
  | cons hfirst hall =>
    refine hall.keeps.left ?_
    cases hfirst with
    | visited hvisited => simp at hvisited
    | closing _ hstack => simp at hstack
    | descend hvisited _ hnext => exact hnext.selfLoop hv hvisited

end SelfLoops

section Completeness

/--
What a visit does that reports no cycle: the order is kept, nothing is forgotten, and the node is done.
-/
structure Quiet (succ : V → List V) (s t : Search V) (nodes : List V) : Prop where
  ordered : Ordered succ s.visited → Ordered succ t.visited
  subset : s.visited ⊆ t.visited
  done : nodes ⊆ t.visited

mutual

theorem Visits.quiet {stack : List V} {s t : Search V} {node : V}
    : Visits succ stack s node t → t.cycles = [] → Quiet succ s t [node]
  | .visited hvisited => fun _ => ⟨id, List.Subset.refl _, by simpa using hvisited⟩
  | .closing _ _ => fun h => by simp at h
  | .descend _ _ hall => fun h => by
    have hloop := hall.quiet h
    refine ⟨fun hordered => ?_, ?_, by simp⟩
    . exact (hloop.ordered hordered).snoc fun w hw => hloop.done hw
    . exact List.Subset.trans hloop.subset (List.subset_append_left _ _)

/--
A loop that reports no cycle has none in its earlier visits either.
-/
theorem VisitsAll.quiet {stack nodes : List V} {s t : Search V}
    : VisitsAll succ stack s nodes t → t.cycles = [] → Quiet succ s t nodes
  | .nil => fun _ => ⟨id, List.Subset.refl _, List.nil_subset _⟩
  | .cons h hall => fun hcycles => by
    have hrest := hall.quiet hcycles
    have hfirst := h.quiet (List.subset_nil.mp (hcycles ▸ hall.keeps.left))
    refine ⟨hrest.ordered ∘ hfirst.ordered, List.Subset.trans hfirst.subset hrest.subset, ?_⟩
    exact List.cons_subset.mpr ⟨hrest.subset (hfirst.done (by simp)), hrest.done⟩

end

/--
A search that ends reports a cycle exactly if the graph has one.
-/
theorem search_cycles_eq_nil_iff {nodes : List V} (hnodes : ∀ v, succ v ≠ [] → v ∈ nodes) {frames : Nat}
    {t : Search V} (h : search succ frames nodes = some t)
    : t.cycles = [] ↔ ∀ v, ¬ TransGen (fun a b => b ∈ succ a) v v := by
  constructor
  . intro hnone v hcycle
    have hquiet := (visitsAll_of_search h).quiet hnone
    obtain ⟨w, hvw, _⟩ := TransGen.head'_iff.mp hcycle
    have hmem : v ∈ nodes := hnodes v (List.ne_nil_of_mem hvw)
    exact (hquiet.ordered .nil).acyclic (hquiet.done hmem) hcycle
  . intro hnone
    rw [List.eq_nil_iff_forall_not_mem]
    intro c hc
    obtain ⟨v, _, hcycle⟩ := (search_sound h c hc).transGen
    exact hnone v hcycle

end Completeness

section Frames

/--
A walk from a node over so many distinct nodes, with one more edge at its end.
-/
def LongPath (succ : V → List V) (n : Nat) (node : V) : Prop :=
  ∃ path last, path.length = n ∧ path.Nodup ∧ (path ++ [last]).head? = some node
    ∧ List.IsChain (fun a b => b ∈ succ a) (path ++ [last])

omit [DecidableEq V] in
theorem exists_of_foldlM_eq_none {visit : Search V → V → Option (Search V)} {nodes : List V} {s : Search V}
    (h : nodes.foldlM visit s = none) : ∃ node ∈ nodes, ∃ s, visit s node = none := by
  induction nodes generalizing s with
  | nil => cases h
  | cons node nodes ih =>
    rw [List.foldlM_cons] at h
    cases hfirst : visit s node with
    | none => exact ⟨node, List.mem_cons_self, s, hfirst⟩
    | some t =>
      rw [hfirst] at h
      obtain ⟨other, hother, hnone⟩ := ih h
      exact ⟨other, List.mem_cons_of_mem _ hother, hnone⟩

/--
A visit that fails has used its frames up on nodes that were not on the stack.
-/
theorem exists_path_of_dfs_eq_none {frames : Nat} {stack : List V} {s : Search V} {node : V}
    (h : dfs succ frames stack s node = none)
    : ∃ path last, path.length = frames ∧ (path.Nodup ∧ ∀ v ∈ path, v ∉ stack)
        ∧ (path ++ [last]).head? = some node ∧ List.IsChain (fun a b => b ∈ succ a) (path ++ [last]) := by
  induction frames generalizing stack s node with
  | zero => exact ⟨[], node, rfl, by simp, rfl, by simp⟩
  | succ frames ih =>
    unfold dfs at h
    split at h
    . contradiction
    . split at h
      . contradiction
      . next hstack =>
        rw [Option.bind_eq_bind, Option.bind_eq_none_iff] at h
        have hnone : (succ node).foldlM (dfs succ frames (stack ++ [node])) s = none := by
          rw [Option.eq_none_iff_forall_ne_some]
          intro t ht
          cases h t ht
        obtain ⟨next, hnext, s', hnone⟩ := exists_of_foldlM_eq_none hnone
        obtain ⟨path, last, hlength, ⟨hnodup, hnew⟩, hhead, hchain⟩ := ih hnone
        refine ⟨node :: path, last, by rw [List.length_cons, hlength], ⟨?_, ?_⟩, rfl, ?_⟩
        . exact List.nodup_cons.mpr ⟨fun hmem => hnew node hmem (by simp), hnodup⟩
        . rw [List.forall_mem_cons]
          exact ⟨hstack, fun v hv hmem => hnew v hv (List.mem_append_left _ hmem)⟩
        . rw [List.cons_append, List.isChain_cons]
          refine ⟨fun b hb => ?_, hchain⟩
          rw [hhead] at hb
          cases hb
          exact hnext

/--
A search that fails has followed a path through all its frames.
-/
theorem exists_longPath_of_search {frames : Nat} {nodes : List V} (h : search succ frames nodes = none)
    : ∃ node ∈ nodes, LongPath succ frames node := by
  obtain ⟨node, hnode, s, hnone⟩ := exists_of_foldlM_eq_none h
  obtain ⟨path, last, hlength, ⟨hnodup, _⟩, hhead, hchain⟩ := exists_path_of_dfs_eq_none hnone
  exact ⟨node, hnode, path, last, hlength, hnodup, hhead, hchain⟩

omit [DecidableEq V] in
/--
A path is no longer than the list of the nodes with successors.
-/
theorem LongPath.le {nodes : List V} (hnodes : ∀ v, succ v ≠ [] → v ∈ nodes) {n : Nat} {node : V}
    (h : LongPath succ n node) : n ≤ nodes.length := by
  obtain ⟨path, last, hlength, hnodup, _, hchain⟩ := h
  rw [← hlength]
  have hsub : path ⊆ nodes := fun v hv => hnodes v (succ_ne_nil_of_mem_path hchain hv)
  exact (hnodup.subperm hsub).length_le

/--
A visit fails if the first edges lead along a path of new nodes through all its frames.
-/
theorem dfs_eq_none {path stack : List V} {last node : V} {s : Search V} (hnodup : path.Nodup)
    (hstack : ∀ v ∈ path, v ∉ stack) (hs : ∀ v ∈ path, v ∉ s.visited) (hhead : (path ++ [last]).head? = some node)
    (hchain : List.IsChain (fun a b => (succ a).head? = some b) (path ++ [last]))
    : dfs succ path.length stack s node = none := by
  induction path generalizing stack node with
  | nil => rfl
  | cons v path ih =>
    cases hhead
    rw [List.nodup_cons] at hnodup
    rw [List.forall_mem_cons] at hstack hs
    rw [List.cons_append, List.isChain_cons] at hchain
    obtain ⟨next, hnext⟩ := Option.ne_none_iff_exists'.mp (show (path ++ [last]).head? ≠ none by simp)
    obtain ⟨others, hsucc⟩ := List.head?_eq_some_iff.mp (hchain.left next hnext)
    have hbelow : ∀ u ∈ path, u ∉ stack ++ [v] := by
      intro u hu hmem
      cases List.mem_append.mp hmem with
      | inl hmem => exact hstack.right u hu hmem
      | inr hmem => exact hnodup.left (List.mem_singleton.mp hmem ▸ hu)
    rw [List.length_cons, dfs, if_neg hs.left, if_neg hstack.left, hsucc, List.foldlM_cons,
      ih hnodup.right hbelow hs.right hnext hchain.right]
    rfl

end Frames

end DepthFirst
