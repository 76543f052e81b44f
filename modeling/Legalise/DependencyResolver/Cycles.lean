import Legalise.DependencyResolver.Basic

/-!
This module contains what the resolver's search for cycles finds, compared with the graph of all modules
that the tested manifest depends on.
-/

namespace DependencyResolver

open Relation DepthFirst

section Discovery

theorem nodup_discoverModules (scanned : List DiscoveredModule)
    : ((discoverModules scanned).map DiscoveredModule.moduleId).Nodup := by
  unfold discoverModules
  refine List.foldlRecOn scanned _
    (motive := fun seen : List DiscoveredModule => (seen.map DiscoveredModule.moduleId).Nodup) List.nodup_nil ?_
  intro seen hseen entry _
  split
  . exact hseen
  . next hnew =>
    rw [List.map_append]
    exact hseen.append (List.nodup_singleton _) (by simpa using hnew)

end Discovery

section Graph

variable (discovered : List DiscoveredModule) (manifest : Manifest)

/--
The module that is discovered under an id.
-/
def discoveredAs (id : PyStr) : Option DiscoveredModule :=
  discovered.find? fun entry => entry.moduleId = id

/--
The ids that a discovered module requires.
-/
def discoveredRequires (id : PyStr) : Option (List PyStr) :=
  (discoveredAs discovered id).map fun entry => requiredIds entry.manifest.requires

/--
The edges of the whole graph: the tested manifest's own requirements, and those of the discovered
modules.
-/
def requires (id : PyStr) : List PyStr :=
  if id = manifest.id then requiredIds manifest.requires
  else (discoveredRequires discovered id).getD []

/--
A module that the tested manifest depends on, or the tested one, depends on itself.
-/
def Cyclic : Prop :=
  ∃ v, ReflTransGen (fun a b => b ∈ requires discovered manifest a) manifest.id v
    ∧ TransGen (fun a b => b ∈ requires discovered manifest a) v v

/--
The edges among the tested manifest and its direct requirements, where a discovered module with the id
of the tested manifest stands in for it.
-/
def nearRequires (id : PyStr) : List PyStr :=
  if id = manifest.id then
    (discoveredRequires discovered id).getD (requiredIds manifest.requires)
  else if id ∈ requiredIds manifest.requires then (discoveredRequires discovered id).getD []
  else []

/--
The keys of the graph that is searched: the tested manifest, and its direct requirements that are discovered.
-/
def nearKeys : List PyStr :=
  manifest.id :: (discovered.filter fun entry =>
    entry.moduleId ∈ requiredIds manifest.requires ∧ entry.moduleId ≠ manifest.id).map DiscoveredModule.moduleId

/--
The manifests that the resolver reads are those of the direct requirements and the one with the id of
the tested manifest. None of them may be a v1 manifest.
-/
def NoV1 : Prop :=
  ∀ entry ∈ discovered,
    entry.moduleId ∈ requiredIds manifest.requires ∨ entry.moduleId = manifest.id →
      entry.sourceKind = .v2

theorem read_eq_ok_iff (entry : DiscoveredModule) (m : Manifest)
    : entry.read = .ok m ↔ entry.sourceKind = .v2 ∧ entry.manifest = m := by
  unfold DiscoveredModule.read
  cases entry.sourceKind <;> simp

theorem lookup_setEdges (graph : List (PyStr × List PyStr)) (key : PyStr) (edges : List PyStr)
    (id : PyStr)
    : (setEdges graph key edges).lookup id = if id = key then some edges else graph.lookup id := by
  unfold setEdges
  split
  . next hmem =>
    induction graph with
    | nil => simp at hmem
    | cons item graph ih =>
      have ⟨name, value⟩ := item
      rw [List.map_cons, List.mem_cons] at hmem
      rw [List.map_cons]
      by_cases hname : name = key
      . subst hname
        rw [if_pos rfl, List.lookup_cons, List.lookup_cons]
        by_cases hid : id = name
        . simp [hid]
        . rw [beq_false_of_ne hid, if_neg hid]
          by_cases hrest : name ∈ graph.map Prod.fst
          . rw [ih hrest, if_neg hid]
          . have hsame : graph.map (fun item =>
                if item.fst = name then (name, edges) else item) = graph := by
              refine List.map_congr_left (fun item hitem => ?_) |>.trans (List.map_id graph)
              have hne : item.fst ≠ name := fun h => hrest (List.mem_map.mpr ⟨item, hitem, h⟩)
              rw [if_neg hne]
              rfl
            rw [hsame]
      . rw [if_neg hname, List.lookup_cons, List.lookup_cons]
        have hrest : key ∈ graph.map Prod.fst := hmem.resolve_left (Ne.symm hname)
        rw [ih hrest]
        by_cases hid : id = name
        . simp [hid, hname]
        . rw [beq_false_of_ne hid]
  . next hmem =>
    rw [List.lookup_append]
    by_cases hid : id = key
    . subst hid
      have hnone : graph.lookup id = none := by
        rw [List.lookup_eq_none_iff]
        intro item hitem
        rw [bne_iff_ne]
        rintro rfl
        exact hmem (List.mem_map.mpr ⟨item, hitem, rfl⟩)
      simp [hnone]
    . rw [if_neg hid]
      simp [List.lookup_cons, beq_false_of_ne hid]

theorem keys_setEdges (graph : List (PyStr × List PyStr)) (key : PyStr) (edges : List PyStr)
    : (setEdges graph key edges).map Prod.fst
      = if key ∈ graph.map Prod.fst then graph.map Prod.fst else graph.map Prod.fst ++ [key] := by
  unfold setEdges
  split
  . rw [List.map_map]
    refine List.map_congr_left fun item _ => ?_
    rw [Function.comp_apply]
    split
    . next h => exact h.symm
    . rfl
  . rw [List.map_append]
    rfl

theorem mem_keys_of_neighbours_ne_nil {graph : List (PyStr × List PyStr)} {id : PyStr}
    (h : neighbours graph id ≠ []) : id ∈ graph.map Prod.fst := by
  unfold neighbours at h
  cases hlookup : graph.lookup id with
  | none => simp [hlookup] at h
  | some edges =>
    have := List.lookup_eq_some_iff.mp hlookup
    have ⟨before, after, hgraph, _⟩ := this
    simp [hgraph]

theorem discoveredRequires_concat {entry : DiscoveredModule}
    (hnodup : ((discovered ++ [entry]).map DiscoveredModule.moduleId).Nodup) (id : PyStr)
    : discoveredRequires (discovered ++ [entry]) id
        = if id = entry.moduleId then some (requiredIds entry.manifest.requires)
          else discoveredRequires discovered id := by
  unfold discoveredRequires discoveredAs
  rw [List.find?_append]
  by_cases hid : id = entry.moduleId
  . subst hid
    have hnone : discovered.find? (fun other => other.moduleId = entry.moduleId) = none := by
      rw [List.find?_eq_none]
      intro other hother hsame
      rw [List.map_append, List.nodup_append'] at hnodup
      refine hnodup.right.right (List.mem_map.mpr ⟨other, hother, rfl⟩) ?_
      simpa using hsame
    simp [hnone]
  . have hid' : ¬ entry.moduleId = id := fun h => hid h.symm
    simp [hid, hid']

theorem nearKeys_concat {entry : DiscoveredModule}
    (hnodup : ((discovered ++ [entry]).map DiscoveredModule.moduleId).Nodup)
    (hentry : entry.moduleId ∈ requiredIds manifest.requires ∨ entry.moduleId = manifest.id)
    : (if entry.moduleId ∈ nearKeys discovered manifest then nearKeys discovered manifest
        else nearKeys discovered manifest ++ [entry.moduleId])
      = nearKeys (discovered ++ [entry]) manifest := by
  have hnew : ∀ other ∈ discovered, other.moduleId ≠ entry.moduleId := by
    intro other hother hsame
    rw [List.map_append, List.nodup_append'] at hnodup
    refine hnodup.right.right (List.mem_map.mpr ⟨other, hother, rfl⟩) ?_
    simpa using hsame
  unfold nearKeys
  rw [List.filter_append]
  by_cases hroot : entry.moduleId = manifest.id
  . simp [hroot]
  . have hdirect := hentry.resolve_right hroot
    have hmem : entry.moduleId ∉ manifest.id :: (discovered.filter fun other =>
        other.moduleId ∈ requiredIds manifest.requires ∧ other.moduleId ≠ manifest.id).map
          DiscoveredModule.moduleId := by
      rw [List.mem_cons, not_or]
      refine ⟨hroot, fun hmem => ?_⟩
      obtain ⟨other, hother, hsame⟩ := List.mem_map.mp hmem
      exact hnew other (List.mem_filter.mp hother).left hsame
    rw [if_neg hmem, List.filter_cons_of_pos (by simpa using ⟨hdirect, hroot⟩)]
    simp

/--
Without v1 manifests the graph is that of the near requirements, with the tested manifest in front.
-/
theorem buildGraph_eq_ok_of_noV1
    (hnodup : (discovered.map DiscoveredModule.moduleId).Nodup) (h : NoV1 discovered manifest)
    : ∃ graph, buildGraph discovered manifest = .ok graph
        ∧ graph.map Prod.fst = nearKeys discovered manifest
        ∧ ∀ id, neighbours graph id = nearRequires discovered manifest id := by
  unfold buildGraph
  dsimp only
  induction discovered using List.reverseRecOn with
  | nil =>
    refine ⟨_, rfl, rfl, fun id => ?_⟩
    unfold neighbours nearRequires discoveredRequires discoveredAs
    by_cases hid : id = manifest.id
    . simp [hid]
    . simp [List.lookup_cons, beq_false_of_ne hid, hid]
  | append_singleton discovered entry ih =>
    have hnodup' : (discovered.map DiscoveredModule.moduleId).Nodup := by
      rw [List.map_append] at hnodup
      exact hnodup.of_append_left
    have ⟨graph, hgraph, hkeys, hnear⟩ := ih hnodup' fun other hother => h other (by simp [hother])
    rw [List.foldlM_append, hgraph]
    simp only [List.foldlM_cons, List.foldlM_nil, Except.bind_eq_ok_iff, Except.pure_eq_ok_iff]
    by_cases hskip : entry.moduleId ∉ requiredIds manifest.requires ∧ entry.moduleId ≠ manifest.id
    . refine ⟨graph, ⟨graph, rfl, graph, by rw [if_pos hskip]; rfl, rfl⟩, ?_, fun id => ?_⟩
      . rw [hkeys, nearKeys, nearKeys, List.filter_append, List.filter_cons_of_neg (by simp [hskip.left]),
          List.filter_nil, List.append_nil]
      rw [hnear]
      unfold nearRequires
      rw [discoveredRequires_concat discovered hnodup]
      by_cases hid : id = entry.moduleId
      . rw [hid, if_neg hskip.right, if_neg hskip.right, if_neg hskip.left, if_neg hskip.left]
      . rw [if_neg hid]
    . have hread : entry.read = .ok entry.manifest := by
        rw [read_eq_ok_iff]
        refine ⟨h entry (by simp) ?_, rfl⟩
        by_cases hmem : entry.moduleId ∈ requiredIds manifest.requires
        . exact .inl hmem
        . exact .inr (by_contra fun hne => hskip ⟨hmem, hne⟩)
      refine ⟨setEdges graph entry.moduleId (requiredIds entry.manifest.requires),
        ⟨graph, rfl, _, ?_, rfl⟩, ?_, fun id => ?_⟩
      . rw [if_neg hskip, Except.bind_eq_ok_iff]
        exact ⟨_, hread, rfl⟩
      . rw [keys_setEdges, hkeys]
        exact nearKeys_concat discovered manifest hnodup (by tauto)
      . unfold neighbours
        rw [lookup_setEdges]
        unfold nearRequires
        rw [discoveredRequires_concat discovered hnodup]
        by_cases hid : id = entry.moduleId
        . rw [if_pos hid, if_pos hid]
          subst hid
          by_cases hroot : entry.moduleId = manifest.id
          . simp [hroot]
          . have hmem : entry.moduleId ∈ requiredIds manifest.requires :=
              by_contra fun hmem => hskip ⟨hmem, hroot⟩
            rw [if_neg hroot, if_pos hmem]
        . rw [if_neg hid, if_neg hid]
          exact hnear id

theorem noV1_of_buildGraph_eq_ok {graph : List (PyStr × List PyStr)}
    (h : buildGraph discovered manifest = .ok graph) : NoV1 discovered manifest := by
  unfold buildGraph at h
  dsimp only at h
  induction discovered using List.reverseRecOn generalizing graph with
  | nil => simp [NoV1]
  | append_singleton discovered entry ih =>
    rw [List.foldlM_append, Except.bind_eq_ok_iff] at h
    have ⟨before, hbefore, hlast⟩ := h
    intro other hother hread
    cases List.mem_append.mp hother with
    | inl hold => exact ih hbefore other hold hread
    | inr hnew =>
      rw [List.mem_singleton.mp hnew] at hread ⊢
      have hkept : ¬ (entry.moduleId ∉ requiredIds manifest.requires
          ∧ entry.moduleId ≠ manifest.id) := by tauto
      rw [List.foldlM_cons, if_neg hkept, Except.bind_eq_ok_iff] at hlast
      have ⟨_, hturn, _⟩ := hlast
      rw [Except.bind_eq_ok_iff] at hturn
      have ⟨m, hm, _⟩ := hturn
      exact ((read_eq_ok_iff entry m).mp hm).left

end Graph

section Detection

theorem mem_of_mem_dedupCycles {seen cycles : List (List PyStr)} {c : List PyStr}
    (h : c ∈ dedupCycles seen cycles) : c ∈ cycles := by
  induction cycles generalizing seen with
  | nil => exact h
  | cons first cycles ih =>
    unfold dedupCycles at h
    dsimp only at h
    split at h
    . exact List.mem_cons_of_mem _ (ih h)
    . cases List.mem_cons.mp h with
      | inl h => exact h ▸ List.mem_cons_self
      | inr h => exact List.mem_cons_of_mem _ (ih h)

theorem exists_perm_mem_dedupCycles {seen cycles : List (List PyStr)} {c : List PyStr}
    (h : c ∈ cycles) (hseen : (c.mergeSort fun a b => a ≤ b) ∉ seen)
    : ∃ c' ∈ dedupCycles seen cycles, c'.Perm c := by
  induction cycles generalizing seen with
  | nil => contradiction
  | cons first cycles ih =>
    unfold dedupCycles
    dsimp only
    split
    . next hfirst =>
      cases List.mem_cons.mp h with
      | inl h => exact absurd (h ▸ hfirst) hseen
      | inr h => exact ih h hseen
    . next hfirst =>
      by_cases hkey : (c.mergeSort fun a b => a ≤ b) = first.mergeSort fun a b => a ≤ b
      . refine ⟨first, List.mem_cons_self, ?_⟩
        have := List.mergeSort_perm first fun a b => a ≤ b
        exact this.symm.trans (hkey ▸ List.mergeSort_perm c fun a b => a ≤ b)
      . have hne : c ≠ first := fun heq => hkey (by rw [heq])
        have ⟨c', hc', hperm⟩ := ih ((List.mem_cons.mp h).resolve_left hne)
          (List.not_mem_cons_of_ne_of_not_mem hkey hseen)
        exact ⟨c', List.mem_cons_of_mem _ hc', hperm⟩

variable {frames : Nat} {graph : List (PyStr × List PyStr)} {cycles : List (List PyStr)}

theorem search_of_detectCycles (h : detectCycles frames graph = .ok cycles)
    : ∃ t, search (neighbours graph) frames (graph.map Prod.fst) = some t
        ∧ cycles = dedupCycles [] t.cycles := by
  unfold detectCycles at h
  cases hsearch : search (neighbours graph) frames (graph.map Prod.fst) with
  | none =>
    rw [hsearch] at h
    cases h
  | some t =>
    rw [hsearch] at h
    exact ⟨t, rfl, (Except.ok.inj h).symm⟩

theorem detectCycles_isOk_iff
    : (∃ cycles, detectCycles frames graph = .ok cycles)
      ↔ search (neighbours graph) frames (graph.map Prod.fst) ≠ none := by
  unfold detectCycles
  cases search (neighbours graph) frames (graph.map Prod.fst) <;> simp

theorem detectCycles_sound (h : detectCycles frames graph = .ok cycles) {c : List PyStr} (hc : c ∈ cycles)
    : ClosedWalk (neighbours graph) c := by
  obtain ⟨t, hsearch, hcycles⟩ := search_of_detectCycles h
  rw [hcycles] at hc
  exact search_sound hsearch c (mem_of_mem_dedupCycles hc)

theorem detectCycles_eq_nil_iff (h : detectCycles frames graph = .ok cycles)
    : cycles = [] ↔ ∀ v, ¬ TransGen (fun a b => b ∈ neighbours graph a) v v := by
  have hkeys (v : PyStr) (hv : neighbours graph v ≠ []) : v ∈ graph.map Prod.fst :=
    mem_keys_of_neighbours_ne_nil hv
  obtain ⟨t, hsearch, hcycles⟩ := search_of_detectCycles h
  rw [← search_cycles_eq_nil_iff hkeys hsearch, hcycles]
  constructor
  . intro hnil
    rw [List.eq_nil_iff_forall_not_mem]
    intro c hc
    obtain ⟨c', hc', _⟩ := exists_perm_mem_dedupCycles hc List.not_mem_nil
    rw [hnil] at hc'
    exact List.not_mem_nil hc'
  . intro hnil
    rw [hnil]
    rfl

/--
A search that runs out of frames has followed a path through all of them.
-/
theorem longPath_of_detectCycles {e : PyErr} (h : detectCycles frames graph = .error e)
    : e = .recursionError ∧ ∃ key ∈ graph.map Prod.fst, LongPath (neighbours graph) frames key := by
  unfold detectCycles at h
  cases hsearch : search (neighbours graph) frames (graph.map Prod.fst) with
  | none =>
    rw [hsearch] at h
    cases h
    exact ⟨rfl, exists_longPath_of_search hsearch⟩
  | some t =>
    rw [hsearch] at h
    cases h

/--
The search fails only along a path of distinct modules that is as long as there are frames, so never if there are more
frames than keys. A search that returns reports no cycle exactly if none can be reached from the keys of the map, and
what it reports are closed walks.
-/
theorem detectCycles_spec (frames : Nat) (graph : List (PyStr × List PyStr))
    : (∀ e, detectCycles frames graph = .error e →
          e = .recursionError ∧ ∃ key ∈ graph.map Prod.fst, LongPath (neighbours graph) frames key)
        ∧ (graph.length < frames → ∃ cycles, detectCycles frames graph = .ok cycles)
        ∧ ∀ cycles, detectCycles frames graph = .ok cycles →
          (cycles = []
              ↔
            ¬ ∃ key ∈ graph.map Prod.fst, ∃ v, ReflTransGen (fun a b => b ∈ neighbours graph a) key v
              ∧ TransGen (fun a b => b ∈ neighbours graph a) v v)
            ∧ ∀ c ∈ cycles, ClosedWalk (neighbours graph) c := by
  have hkeys (v : PyStr) (hv : neighbours graph v ≠ []) : v ∈ graph.map Prod.fst :=
    mem_keys_of_neighbours_ne_nil hv
  refine ⟨fun e h => longPath_of_detectCycles h, fun hframes => ?_, fun cycles h => ⟨?_, ?_⟩⟩
  . cases h : detectCycles frames graph with
    | ok cycles => exact ⟨cycles, rfl⟩
    | error e =>
      obtain ⟨_, key, _, hpath⟩ := longPath_of_detectCycles h
      have hle := hpath.le hkeys
      rw [List.length_map] at hle
      omega
  . rw [detectCycles_eq_nil_iff h]
    constructor
    . rintro hnone ⟨_, _, v, _, hcycle⟩
      exact hnone v hcycle
    . intro hnone v hcycle
      -- A node of a cycle has a neighbour, so it is a key itself.
      obtain ⟨w, hvw, _⟩ := TransGen.head'_iff.mp hcycle
      exact hnone ⟨v, hkeys v (List.ne_nil_of_mem hvw), v, .refl, hcycle⟩
  . exact fun c hc => detectCycles_sound h hc

/--
A module that requires the second one, which requires the first one twice and one that is not in the map.
-/
theorem detectCycles_spec_two
    : let graph := [(py "a", [py "b"]), (py "b", [py "c", py "a", py "a"])]
      detectCycles 1000 graph = .ok [[py "a", py "b", py "a"]]
        ∧ ClosedWalk (neighbours graph) [py "a", py "b", py "a"] := by
  intro graph
  -- The repeated edge closes the same cycle twice.
  have hsearch : search (neighbours graph) 1000 (graph.map Prod.fst)
      = some ⟨[py "c", py "b", py "a"], List.replicate 2 [py "a", py "b", py "a"]⟩ := rfl
  have hreturned : detectCycles 1000 graph = .ok [[py "a", py "b", py "a"]] := by
    rw [detectCycles, hsearch]
    simp [dedupCycles, List.replicate]
  exact ⟨hreturned, ((detectCycles_spec 1000 graph).right.right _ hreturned).right _ List.mem_cons_self⟩

/--
So many modules, each of which requires the next one.
-/
def chainOf (n : Nat) : List (PyStr × List PyStr) :=
  (List.range n).map fun i => (pyNat i, [pyNat (i + 1)])

theorem neighbours_chainOf {n i : Nat} (hi : i < n) : neighbours (chainOf n) (pyNat i) = [pyNat (i + 1)] := by
  have hlookup : (chainOf n).lookup (pyNat i) = some [pyNat (i + 1)] := by
    unfold chainOf
    induction n with
    | zero => contradiction
    | succ n ih =>
      rw [List.range_succ, List.map_append, List.lookup_append]
      by_cases hlt : i < n
      . rw [ih hlt]
        rfl
      . have heq : i = n := by omega
        have hnone : ((List.range n).map fun i => (pyNat i, [pyNat (i + 1)])).lookup (pyNat i) = none := by
          rw [List.lookup_eq_none_iff]
          intro item hitem
          obtain ⟨j, hj, hitem⟩ := List.mem_map.mp hitem
          rw [← hitem, bne_iff_ne]
          intro hsame
          have := pyNat_injective hsame
          have := List.mem_range.mp hj
          omega
        rw [hnone, heq]
        simp
  rw [neighbours, hlookup]
  rfl

/--
A chain of as many modules as there are frames is not searched to its end.
-/
theorem detectCycles_chainOf (n : Nat) : detectCycles (n + 1) (chainOf (n + 1)) = .error .recursionError := by
  have hhead : ((List.range (n + 1)).map pyNat ++ [pyNat (n + 1)]).head? = some (pyNat 0) := by
    rw [List.range_succ_eq_map]
    rfl
  have hchain : List.IsChain (fun a b => (neighbours (chainOf (n + 1)) a).head? = some b)
      ((List.range (n + 1)).map pyNat ++ [pyNat (n + 1)]) := by
    have hsucc : (List.range (n + 1)).map pyNat ++ [pyNat (n + 1)] = (List.range (n + 2)).map pyNat := by
      rw [List.range_succ (n := n + 1), List.map_append]
      rfl
    rw [hsucc, List.isChain_map, List.isChain_range_succ]
    intro i hi
    rw [neighbours_chainOf hi]
    rfl
  have hfirst : dfs (neighbours (chainOf (n + 1))) ((List.range (n + 1)).map pyNat).length [] ⟨[], []⟩ (pyNat 0)
      = none :=
    dfs_eq_none (List.nodup_range.map pyNat_injective) (by simp) (by simp) hhead hchain
  rw [List.length_map, List.length_range] at hfirst
  unfold detectCycles search
  have hkeys : (chainOf (n + 1)).map Prod.fst = pyNat 0 :: (List.range n).map fun i => pyNat (i + 1) := by
    unfold chainOf
    rw [List.map_map, List.range_succ_eq_map, List.map_cons, List.map_map]
    rfl
  rw [hkeys, List.foldlM_cons, hfirst]
  rfl

theorem not_forall_detectCycles_eq_ok
    : ¬ ∀ graph, ∃ cycles, detectCycles 1000 graph = .ok cycles := by
  intro h
  obtain ⟨cycles, hcycles⟩ := h (chainOf 1000)
  rw [detectCycles_chainOf 999] at hcycles
  cases hcycles

/--
An edge from the first node of the graph to itself is reported.
-/
theorem selfLoop_mem_detectCycles (h : detectCycles frames graph = .ok cycles) {v : PyStr} {rest : List PyStr}
    (hkeys : graph.map Prod.fst = v :: rest) (hv : v ∈ neighbours graph v) : [v, v] ∈ cycles := by
  obtain ⟨t, hsearch, hcycles⟩ := search_of_detectCycles h
  rw [hkeys] at hsearch
  obtain ⟨c, hc, hperm⟩ := exists_perm_mem_dedupCycles (selfLoop_mem_search hv hsearch) List.not_mem_nil
  rw [show [v, v] = List.replicate 2 v from rfl, List.perm_replicate] at hperm
  rw [hcycles]
  exact hperm.subst (motive := fun c => c ∈ _) hc

end Detection

section Resolution

variable {V : Type} [LinearOrder V] (packaging : Packaging V)
  (installed : List (PyStr × PyStr)) (discovered : List DiscoveredModule)

/--
The versions of a module that are installed or discovered.
-/
def available (moduleId : PyStr) : List PyStr :=
  installedVersions installed moduleId
    ++ (discovered.filter fun entry => entry.moduleId = moduleId).flatMap fun entry =>
      match entry.manifest.version with
      | .str v => [v]
      | _ => []

/--
Some required module has no available version that satisfies its constraint.
-/
def Unmet (manifest : Manifest) : Prop :=
  ∃ req ∈ manifest.requires, ∃ moduleId spec, requirement? req = some (moduleId, spec)
    ∧ ∀ version ∈ available installed discovered moduleId,
      matchesSpec packaging spec version ≠ .ok true

/--
Every constraint that is compared with a version is a text.
-/
def SpecsAreTexts (manifest : Manifest) : Prop :=
  ∀ req ∈ manifest.requires, ∀ moduleId spec, requirement? req = some (moduleId, spec) →
    ∀ version ∈ available installed discovered moduleId,
      ∃ b, matchesSpec packaging spec version = .ok b

theorem discoverableVersions_eq_ok {moduleId : PyStr}
    (h : ∀ entry ∈ discovered, entry.moduleId = moduleId → entry.sourceKind = .v2)
    : discoverableVersions discovered moduleId
        = .ok ((discovered.filter fun entry => entry.moduleId = moduleId).flatMap fun entry =>
          match entry.manifest.version with
          | .str v => [v]
          | _ => []) := by
  unfold discoverableVersions
  rw [Except.bind_eq_ok_iff]
  refine ⟨(discovered.filter fun entry => entry.moduleId = moduleId).map fun entry =>
    match entry.manifest.version with
    | .str v => [v]
    | _ => [], ?_, ?_⟩
  . rw [Except.mapM_eq_ok_iff, List.forall₂_map_right_iff, List.forall₂_same]
    intro entry hentry
    rw [List.mem_filter, decide_eq_true_eq] at hentry
    rw [Except.bind_eq_ok_iff]
    exact ⟨entry.manifest, (read_eq_ok_iff _ _).mpr ⟨h entry hentry.left hentry.right, rfl⟩, rfl⟩
  . rw [Except.pure_eq_ok_iff]
    rfl

theorem mem_requiredIds {requires : List Json} {req : Json} {moduleId : PyStr} {spec : Json}
    (hreq : req ∈ requires) (h : requirement? req = some (moduleId, spec))
    : moduleId ∈ requiredIds requires :=
  List.mem_map.mpr ⟨(moduleId, spec), List.mem_filterMap.mpr ⟨req, hreq, h⟩, rfl⟩

variable {packaging installed discovered}

/--
The choice returns if every comparison does. The requirement is missing exactly if no version satisfies
it.
-/
theorem chooseVersion_isOk_iff (moduleId : PyStr) (spec : Json) (versions : List PyStr)
    : (∃ resolution, chooseVersion packaging moduleId spec versions = .ok resolution)
        ↔ ∀ version ∈ versions, ∃ b, matchesSpec packaging spec version = .ok b := by
  have hcompare : (∀ version ∈ versions, ∃ b, matchesSpec packaging spec version = .ok b)
      ↔ ∃ matched, versions.mapM (fun version => do
          return (version, ← matchesSpec packaging spec version)) = Except.ok matched := by
    rw [Except.mapM_isOk_iff]
    refine forall₂_congr fun version _ => ?_
    simp only [Except.bind_eq_ok_iff, Except.pure_eq_ok_iff]
    constructor
    . rintro ⟨b, hb⟩
      exact ⟨(version, b), b, hb, rfl⟩
    . rintro ⟨_, b, hb, _⟩
      exact ⟨b, hb⟩
  rw [hcompare]
  unfold chooseVersion
  split
  . next hempty =>
    rw [List.isEmpty_iff.mp hempty]
    exact iff_of_true ⟨_, rfl⟩ ⟨[], rfl⟩
  . constructor
    . rintro ⟨resolution, h⟩
      rw [Except.bind_eq_ok_iff] at h
      obtain ⟨matched, hmatched, _⟩ := h
      exact ⟨matched, hmatched⟩
    . rintro ⟨matched, hmatched⟩
      by_cases hmatching : ((matched.filter Prod.snd).map Prod.fst).isEmpty
      . exact ⟨_, (Except.bind_eq_ok_iff _ _ _).mpr ⟨matched, hmatched, if_pos hmatching⟩⟩
      . exact ⟨_, (Except.bind_eq_ok_iff _ _ _).mpr ⟨matched, hmatched, if_neg hmatching⟩⟩

theorem chooseVersion_missing_iff {moduleId : PyStr} {spec : Json} {versions : List PyStr}
    {resolution : Resolution}
    (h : chooseVersion packaging moduleId spec versions = .ok resolution)
    : (∃ dependency, resolution = .missing dependency)
        ↔ ∀ version ∈ versions, matchesSpec packaging spec version ≠ .ok true := by
  unfold chooseVersion at h
  split at h
  . next hempty =>
    rw [Except.pure_eq_ok_iff] at h
    rw [List.isEmpty_iff.mp hempty]
    exact iff_of_true ⟨_, h.symm⟩ (by simp)
  . rw [Except.bind_eq_ok_iff] at h
    have ⟨matched, hmatched, h⟩ := h
    have hnone : ((matched.filter Prod.snd).map Prod.fst).isEmpty = true
        ↔ ∀ version ∈ versions, matchesSpec packaging spec version ≠ .ok true := by
      rw [List.isEmpty_iff, List.map_eq_nil_iff, List.filter_eq_nil_iff]
      simp only [Except.mem_iff_of_mapM_eq_ok hmatched, Except.bind_eq_ok_iff,
        Except.pure_eq_ok_iff]
      constructor
      . intro hall version hversion hsatisfied
        exact hall (version, true) ⟨version, hversion, true, hsatisfied, rfl⟩ rfl
      . rintro hall ⟨_, b⟩ ⟨version, hversion, b', hb, hpair⟩ htrue
        rw [Prod.mk.injEq] at hpair
        have htrue : b = true := htrue
        rw [hpair.right, htrue] at hb
        exact hall version hversion hb
    rw [← hnone]
    dsimp only at h
    split at h
    . next hempty =>
      rw [Except.pure_eq_ok_iff] at h
      exact iff_of_true ⟨_, h.symm⟩ hempty
    . next hsome =>
      rw [Except.pure_eq_ok_iff] at h
      refine iff_of_false ?_ hsome
      rintro ⟨dependency, hdependency⟩
      rw [← h] at hdependency
      contradiction

/--
A requirement of modules that are not v1, as the choice among the available versions.
-/
theorem resolveRequirement_eq (packaging : Packaging V) (installed : List (PyStr × PyStr)) {req : Json} {moduleId : PyStr} {spec : Json}
    (hreq : requirement? req = some (moduleId, spec))
    (hv2 : ∀ entry ∈ discovered, entry.moduleId = moduleId → entry.sourceKind = .v2)
    : ∃ versions, resolveRequirement packaging installed discovered req
          = chooseVersion packaging moduleId spec versions
        ∧ ∀ version, version ∈ versions ↔ version ∈ available installed discovered moduleId := by
  refine ⟨((available installed discovered moduleId).dedup).mergeSort fun a b => a ≤ b, ?_,
    fun version => by rw [List.mem_mergeSort, List.mem_dedup]⟩
  unfold resolveRequirement
  rw [hreq]
  dsimp only
  rw [discoverableVersions_eq_ok discovered hv2]
  rfl

theorem resolveDependencies_eq_ok_iff (frames : Nat) (manifest : Manifest) (result : ResolutionResult)
    : resolveDependencies packaging installed discovered frames manifest = .ok result
        ↔ ∃ resolutions graph,
          manifest.requires.mapM (resolveRequirement packaging installed discovered)
            = .ok resolutions
          ∧ buildGraph discovered manifest = .ok graph
          ∧ detectCycles frames graph = .ok result.cycles
          ∧ result.missing = resolutions.filterMap Resolution.missing?
          ∧ result.satisfied = resolutions.filterMap Resolution.satisfied?
          ∧ result.isSatisfied = (result.missing.isEmpty && result.cycles.isEmpty) := by
  unfold resolveDependencies
  simp only [Except.bind_eq_ok_iff, Except.pure_eq_ok_iff]
  constructor
  . rintro ⟨resolutions, hresolutions, graph, hgraph, cycles, hcycles, h⟩
    refine ⟨resolutions, graph, hresolutions, hgraph, ?_⟩
    rw [← h]
    exact ⟨hcycles, rfl, rfl, rfl⟩
  . rintro ⟨resolutions, graph, hresolutions, hgraph, hcycles, hmissing, hsatisfied, his⟩
    refine ⟨resolutions, hresolutions, graph, hgraph, result.cycles, hcycles, ?_⟩
    cases result
    simp only at hmissing hsatisfied his
    rw [his, hmissing, hsatisfied]

/--
Whatever the resolver reads can be read.
-/
structure Readable (packaging : Packaging V) (installed : List (PyStr × PyStr))
    (discovered : List DiscoveredModule) (manifest : Manifest) : Prop where
  noV1 : NoV1 discovered manifest
  specs : SpecsAreTexts packaging installed discovered manifest

/--
The search through the near requirements ends within the frames that the recursion limit leaves.
-/
def Fits (frames : Nat) (discovered : List DiscoveredModule) (manifest : Manifest) : Prop :=
  search (nearRequires discovered manifest) frames (nearKeys discovered manifest) ≠ none

theorem nearRequires_ne_nil {v : PyStr} (h : nearRequires discovered manifest v ≠ [])
    : v ∈ nearKeys discovered manifest := by
  unfold nearRequires at h
  unfold nearKeys
  rw [List.mem_cons]
  split at h
  . next hroot => exact .inl hroot
  . next hroot =>
    refine .inr ?_
    split at h
    . next hdirect =>
      unfold discoveredRequires at h
      cases hfound : discoveredAs discovered v with
      | none => simp [hfound] at h
      | some entry =>
        have hid : entry.moduleId = v := by simpa using List.find?_some hfound
        refine List.mem_map.mpr ⟨entry, List.mem_filter.mpr ⟨List.mem_of_find?_eq_some hfound, ?_⟩, hid⟩
        simpa [hid] using ⟨hdirect, hroot⟩
    . contradiction

/--
More frames than modules that are read are enough.
-/
theorem Fits.of_length_lt {frames : Nat} (h : (nearKeys discovered manifest).length < frames)
    : Fits frames discovered manifest := by
  intro hnone
  obtain ⟨node, _, hpath⟩ := exists_longPath_of_search hnone
  have := hpath.le fun v => nearRequires_ne_nil
  omega

theorem resolveDependencies_isOk_iff
    (hnodup : (discovered.map DiscoveredModule.moduleId).Nodup) (frames : Nat) (manifest : Manifest)
    : (∃ result, resolveDependencies packaging installed discovered frames manifest = .ok result)
        ↔ Readable packaging installed discovered manifest ∧ Fits frames discovered manifest := by
  have hspecs (hnoV1 : NoV1 discovered manifest) {req : Json} (hmem : req ∈ manifest.requires)
      {moduleId : PyStr} {spec : Json} (hreq : requirement? req = some (moduleId, spec))
      : (∃ resolution, resolveRequirement packaging installed discovered req = .ok resolution)
        ↔ ∀ version ∈ available installed discovered moduleId,
          ∃ b, matchesSpec packaging spec version = .ok b := by
    have ⟨versions, heq, hversions⟩ := resolveRequirement_eq packaging installed hreq
      fun entry hentry hid =>
        hnoV1 entry hentry (.inl (hid ▸ mem_requiredIds hmem hreq))
    rw [heq, chooseVersion_isOk_iff]
    simp only [hversions]
  have hfits (hnoV1 : NoV1 discovered manifest) {graph : List (PyStr × List PyStr)}
      (hgraph : buildGraph discovered manifest = .ok graph)
      : (∃ cycles, detectCycles frames graph = .ok cycles) ↔ Fits frames discovered manifest := by
    have ⟨graph', hgraph', hkeys, hnear⟩ := buildGraph_eq_ok_of_noV1 discovered manifest hnodup hnoV1
    rw [hgraph, Except.ok.injEq] at hgraph'
    rw [detectCycles_isOk_iff, hgraph', hkeys, funext hnear]
    rfl
  constructor
  . rintro ⟨result, h⟩
    have ⟨resolutions, graph, hresolutions, hgraph, hcycles, _⟩ :=
      (resolveDependencies_eq_ok_iff frames manifest result).mp h
    have hnoV1 := noV1_of_buildGraph_eq_ok discovered manifest hgraph
    refine ⟨⟨hnoV1, fun req hmem moduleId spec hreq => ?_⟩, ?_⟩
    . exact (hspecs hnoV1 hmem hreq).mp ((Except.mapM_isOk_iff _ _).mp ⟨_, hresolutions⟩ req hmem)
    . exact (hfits hnoV1 hgraph).mp ⟨_, hcycles⟩
  . rintro ⟨⟨hnoV1, htexts⟩, hfit⟩
    have ⟨graph, hgraph, _⟩ := buildGraph_eq_ok_of_noV1 discovered manifest hnodup hnoV1
    have ⟨resolutions, hresolutions⟩ := (Except.mapM_isOk_iff
      (resolveRequirement packaging installed discovered) manifest.requires).mpr (by
        intro req hmem
        cases hreq : requirement? req with
        | none =>
          unfold resolveRequirement
          rw [hreq]
          exact ⟨_, rfl⟩
        | some requirement =>
          have ⟨moduleId, spec⟩ := requirement
          exact (hspecs hnoV1 hmem hreq).mpr (htexts req hmem moduleId spec hreq))
    have ⟨cycles, hcycles⟩ := (hfits hnoV1 hgraph).mpr hfit
    let missing := resolutions.filterMap Resolution.missing?
    let result : ResolutionResult := {
      isSatisfied := missing.isEmpty && cycles.isEmpty
      missing := missing
      cycles := cycles
      satisfied := resolutions.filterMap Resolution.satisfied?
    }
    exact ⟨result, (resolveDependencies_eq_ok_iff frames manifest result).mpr
      ⟨resolutions, graph, hresolutions, hgraph, hcycles, rfl, rfl, rfl⟩⟩

/--
Something is missing exactly if some requirement is unmet.
-/
theorem missing_ne_nil_iff {manifest : Manifest} (hnoV1 : NoV1 discovered manifest)
    {resolutions : List Resolution}
    (h : manifest.requires.mapM (resolveRequirement packaging installed discovered)
      = .ok resolutions)
    : resolutions.filterMap Resolution.missing? ≠ []
      ↔ Unmet packaging installed discovered manifest := by
  have hsome : resolutions.filterMap Resolution.missing? ≠ []
      ↔ ∃ resolution ∈ resolutions, ∃ dependency, resolution = .missing dependency := by
    rw [ne_eq, List.filterMap_eq_nil_iff]
    constructor
    . intro hne
      by_contra hnot
      refine hne fun resolution hresolution => ?_
      cases resolution with
      | missing dependency => exact absurd ⟨_, hresolution, dependency, rfl⟩ hnot
      | passedOver | satisfied moduleId version => rfl
    . rintro ⟨_, hresolution, dependency, rfl⟩ hall
      exact absurd (hall _ hresolution) (by simp [Resolution.missing?])
  rw [hsome]
  simp only [Except.mem_iff_of_mapM_eq_ok h]
  unfold Unmet
  have hmissing {req : Json} (hmem : req ∈ manifest.requires) {moduleId : PyStr} {spec : Json}
      (hreq : requirement? req = some (moduleId, spec)) {resolution : Resolution}
      (hresolution : resolveRequirement packaging installed discovered req = .ok resolution)
      : (∃ dependency, resolution = .missing dependency)
        ↔ ∀ version ∈ available installed discovered moduleId,
          matchesSpec packaging spec version ≠ .ok true := by
    have ⟨versions, heq, hversions⟩ := resolveRequirement_eq packaging installed hreq
      fun entry hentry hid =>
        hnoV1 entry hentry (.inl (hid ▸ mem_requiredIds hmem hreq))
    rw [heq] at hresolution
    rw [chooseVersion_missing_iff hresolution]
    simp only [hversions]
  constructor
  . rintro ⟨resolution, ⟨req, hmem, hresolution⟩, hdependency⟩
    cases hreq : requirement? req with
    | none =>
      unfold resolveRequirement at hresolution
      rw [hreq] at hresolution
      have ⟨dependency, hdependency⟩ := hdependency
      dsimp only at hresolution
      rw [hdependency, Except.pure_eq_ok_iff] at hresolution
      contradiction
    | some requirement =>
      have ⟨moduleId, spec⟩ := requirement
      exact ⟨req, hmem, moduleId, spec, hreq, (hmissing hmem hreq hresolution).mp hdependency⟩
  . rintro ⟨req, hmem, moduleId, spec, hreq, hunmet⟩
    have ⟨resolution, hresolution⟩ := (Except.mapM_isOk_iff _ _).mp ⟨_, h⟩ req hmem
    exact ⟨resolution, ⟨req, hmem, hresolution⟩, (hmissing hmem hreq hresolution).mpr hunmet⟩

end Resolution

section Blocking

variable {V : Type} [LinearOrder V] (packaging : Packaging V)
  (installed : List (PyStr × PyStr)) (discovered : List DiscoveredModule) (frames : Nat) (manifest : Manifest)

/--
A manifest that depends on a cycle is reported as unsatisfied, and only cycles that the tested manifest
depends on are reported.
-/
structure BlocksCycles : Prop where
  blocked : Cyclic discovered manifest →
    ∃ result, resolveDependencies packaging installed discovered frames manifest = .ok result
      ∧ result.isSatisfied = false
  real : ∀ result, resolveDependencies packaging installed discovered frames manifest = .ok result →
    ∀ c ∈ result.cycles, ClosedWalk (requires discovered manifest) c
      ∧ ∀ v ∈ c, ReflTransGen (fun a b => b ∈ requires discovered manifest a) manifest.id v

/--
If there is a cycle, all manifests that are read can be read, the search through them fits into the frames, and some
requirement is unmet or a cycle closes among the tested manifest and its direct requirements. And a discovered module
with the id of the tested manifest requires itself only if the tested manifest does.
-/
structure ClosesNearby : Prop where
  near : Cyclic discovered manifest →
    (Readable packaging installed discovered manifest ∧ Fits frames discovered manifest)
      ∧ (Unmet packaging installed discovered manifest
        ∨ ∃ v, TransGen (fun a b => b ∈ nearRequires discovered manifest a) v v)
  self : Readable packaging installed discovered manifest → Fits frames discovered manifest →
    manifest.id ∈ nearRequires discovered manifest manifest.id →
      manifest.id ∈ requiredIds manifest.requires

variable {packaging installed discovered frames manifest}

/--
The modules of a cycle among the near requirements are the tested manifest and its direct requirements,
so that the stand-in for the tested manifest adds no edge to it but the one to itself.
-/
theorem requires_of_nearCycle
    (hself : manifest.id ∈ nearRequires discovered manifest manifest.id →
      manifest.id ∈ requiredIds manifest.requires)
    {a b : PyStr} (hab : b ∈ nearRequires discovered manifest a)
    (hb : nearRequires discovered manifest b ≠ []) : b ∈ requires discovered manifest a := by
  have hnear : b = manifest.id ∨ b ∈ requiredIds manifest.requires := by
    by_contra hnot
    rw [not_or] at hnot
    exact hb (by rw [nearRequires, if_neg hnot.left, if_neg hnot.right])
  by_cases ha : a = manifest.id
  . rw [requires, if_pos ha]
    cases hnear with
    | inl hroot =>
      rw [ha, hroot] at hab
      exact hroot ▸ hself hab
    | inr hdirect => exact hdirect
  . rw [nearRequires, if_neg ha] at hab
    rw [requires, if_neg ha]
    split at hab
    . exact hab
    . contradiction

theorem closedWalk_requires
    (hself : manifest.id ∈ nearRequires discovered manifest manifest.id →
      manifest.id ∈ requiredIds manifest.requires)
    {c : List PyStr} (h : ClosedWalk (nearRequires discovered manifest) c)
    : ClosedWalk (requires discovered manifest) c
      ∧ ∀ v ∈ c, ReflTransGen (fun a b => b ∈ requires discovered manifest a) manifest.id v := by
  have hsucc (v : PyStr) (hv : v ∈ c) : nearRequires discovered manifest v ≠ [] := h.succ_ne_nil hv
  constructor
  . have ⟨v, walk, hc, hchain⟩ := h
    refine ⟨v, walk, hc, ?_⟩
    refine List.IsChain.imp_of_mem_imp (fun a b _ hb hab => ?_) hchain
    exact requires_of_nearCycle hself hab (hsucc b hb)
  . intro v hv
    by_cases hroot : v = manifest.id
    . exact hroot ▸ .refl
    . have hdirect : v ∈ requiredIds manifest.requires := by
        by_contra hnot
        exact hsucc v hv (by rw [nearRequires, if_neg hroot, if_neg hnot])
      exact .single (by rw [requires, if_pos rfl]; exact hdirect)

/--
The resolver blocks cycles, and reports no other, if and only if a cycle closes nearby wherever there is one. The
search fits whenever there are more frames than modules that are read.
-/
theorem blocksCycles_iff (packaging : Packaging V) (installed : List (PyStr × PyStr))
    (scanned : List DiscoveredModule) (frames : Nat) (manifest : Manifest)
    : (BlocksCycles packaging installed (discoverModules scanned) frames manifest
          ↔ ClosesNearby packaging installed (discoverModules scanned) frames manifest)
        ∧ ((nearKeys (discoverModules scanned) manifest).length < frames →
          Fits frames (discoverModules scanned) manifest) := by
  refine ⟨?_, Fits.of_length_lt⟩
  have hnodup := nodup_discoverModules scanned
  generalize discoverModules scanned = discovered at hnodup
  -- What a run that returns has found.
  have hresult (result : ResolutionResult)
      (h : resolveDependencies packaging installed discovered frames manifest = .ok result)
      : (Readable packaging installed discovered manifest ∧ Fits frames discovered manifest)
        ∧ (result.isSatisfied = false
          ↔ Unmet packaging installed discovered manifest
            ∨ ∃ v, TransGen (fun a b => b ∈ nearRequires discovered manifest a) v v)
        ∧ (∀ c ∈ result.cycles, ClosedWalk (nearRequires discovered manifest) c)
        ∧ (manifest.id ∈ nearRequires discovered manifest manifest.id →
          [manifest.id, manifest.id] ∈ result.cycles) := by
    have hreturns := (resolveDependencies_isOk_iff hnodup frames manifest).mp ⟨result, h⟩
    have hreadable := hreturns.left
    have ⟨graph, hgraph, hkeys, hnear⟩ :=
      buildGraph_eq_ok_of_noV1 discovered manifest hnodup hreadable.noV1
    have ⟨resolutions, graph', hresolutions, hgraph', hcycles, hmissing, _, his⟩ :=
      (resolveDependencies_eq_ok_iff frames manifest result).mp h
    rw [hgraph, Except.ok.injEq] at hgraph'
    subst hgraph'
    have hsame : neighbours graph = nearRequires discovered manifest := funext hnear
    refine ⟨hreturns, ?_, ?_, ?_⟩
    . rw [his, Bool.and_eq_false_iff, ← missing_ne_nil_iff hreadable.noV1 hresolutions, ← hmissing,
        List.isEmpty_eq_false_iff, List.isEmpty_eq_false_iff, ne_eq, ne_eq,
        detectCycles_eq_nil_iff hcycles, hsame]
      simp only [not_forall, not_not]
    . exact fun c hc => hsame ▸ detectCycles_sound hcycles hc
    . exact fun hself => selfLoop_mem_detectCycles hcycles hkeys (hnear _ ▸ hself)
  constructor
  . intro h
    constructor
    . intro hcyclic
      have ⟨result, hok, hunsatisfied⟩ := h.blocked hcyclic
      have ⟨hreturns, hsatisfied, _⟩ := hresult result hok
      exact ⟨hreturns, hsatisfied.mp hunsatisfied⟩
    . intro hreadable hfits hself
      have ⟨result, hok⟩ := (resolveDependencies_isOk_iff hnodup frames manifest).mpr ⟨hreadable, hfits⟩
      have ⟨_, _, _, hreported⟩ := hresult result hok
      have ⟨⟨v, walk, hc, hchain⟩, _⟩ := h.real result hok _ (hreported hself)
      have hchain : manifest.id ∈ requires discovered manifest manifest.id := by
        simpa using hchain
      rwa [requires, if_pos rfl] at hchain
  . intro h
    constructor
    . intro hcyclic
      have ⟨hreturns, hnear⟩ := h.near hcyclic
      have ⟨result, hok⟩ := (resolveDependencies_isOk_iff hnodup frames manifest).mpr hreturns
      have ⟨_, hsatisfied, _⟩ := hresult result hok
      exact ⟨result, hok, hsatisfied.mpr hnear⟩
    . intro result hok c hc
      have ⟨⟨hreadable, hfits⟩, _, hwalks, _⟩ := hresult result hok
      exact closedWalk_requires (h.self hreadable hfits) (hwalks c hc)

end Blocking

section Example

/--
A library that knows one version.
-/
def examplePackaging : Packaging Nat where
  version _ := some 0
  specifierSet _ := some fun _ => true

def exampleManifest (id dependency : String) : Manifest where
  id := py id
  version := .str (py "1.0.0")
  requires := [.dict [(py "module_id", .str (py dependency))]]

def exampleModule (id dependency : String) : DiscoveredModule where
  moduleId := py id
  sourceKind := .v2
  manifest := exampleManifest id dependency

/--
A cycle of three modules is not found: the requirements of the third one are not read.
-/
theorem cycle_of_three_not_blocked
    : ¬ BlocksCycles examplePackaging [] (discoverModules [exampleModule "b" "c", exampleModule "c" "a"])
        1000 (exampleManifest "a" "b") := by
  intro h
  have hcyclic : Cyclic (discoverModules [exampleModule "b" "c", exampleModule "c" "a"])
      (exampleManifest "a" "b") := by
    have hedge (v w : PyStr) (hmem : (requires
          (discoverModules [exampleModule "b" "c", exampleModule "c" "a"])
          (exampleManifest "a" "b") v).elem w = true)
        : w ∈ requires (discoverModules [exampleModule "b" "c", exampleModule "c" "a"])
          (exampleManifest "a" "b") v := List.elem_iff.mp hmem
    refine ⟨py "a", .refl, .head (b := py "b") ?_ (.head (b := py "c") ?_ (.single ?_))⟩
    . exact hedge _ _ (by decide +kernel)
    . exact hedge _ _ (by decide +kernel)
    . exact hedge _ _ (by decide +kernel)
  have ⟨result, hresult, hunsatisfied⟩ := h.blocked hcyclic
  have hsatisfied : (resolveDependencies examplePackaging []
      (discoverModules [exampleModule "b" "c", exampleModule "c" "a"])
      1000 (exampleManifest "a" "b")).toOption.map (fun result => result.isSatisfied) = some true := by
    decide +kernel
  rw [hresult] at hsatisfied
  have hsatisfied : result.isSatisfied = true := by simpa [Except.toOption] using hsatisfied
  rw [hsatisfied] at hunsatisfied
  contradiction

end Example

end DependencyResolver
