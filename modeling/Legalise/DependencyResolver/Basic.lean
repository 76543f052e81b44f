import Legalise.Lib.DepthFirst
import Legalise.Lib.Except
import Legalise.Python.Json

/-!
This module contains the resolver of module dependencies: which version satisfies each requirement, and
the graph in which it looks for cycles.
-/

namespace DependencyResolver

/--
What the resolver reads of a manifest.
-/
structure Manifest where
  id : PyStr
  version : Json
  requires : List Json

inductive SourceKind where
  | v2
  | v1ModuleJson
  deriving DecidableEq

/--
A module that discovery has found. The manifest of a v1 module is the one that the shim derives.
-/
structure DiscoveredModule where
  moduleId : PyStr
  sourceKind : SourceKind
  manifest : Manifest

/--
`discover_modules`: of the entries with one id the earliest one.
-/
def discoverModules (scanned : List DiscoveredModule) : List DiscoveredModule :=
  scanned.foldl (fun seen entry =>
    if entry.moduleId ∈ seen.map DiscoveredModule.moduleId then seen else seen ++ [entry]) []

/--
The manifest that the resolver reads. For a v1 module it calls the shim with arguments that the shim
does not take, which raises a `TypeError`.
-/
def DiscoveredModule.read (entry : DiscoveredModule) : Except PyErr Manifest :=
  match entry.sourceKind with
  | .v2 => .ok entry.manifest
  | .v1ModuleJson => .error .typeError

/--
The part of the `packaging` library that is used: `Version(text)`, and `SpecifierSet(text)` as the
versions it contains. Neither accepts every text.
-/
structure Packaging (V : Type) where
  version : PyStr → Option V
  specifierSet : PyStr → Option (V → Bool)

structure MissingDependency where
  moduleId : PyStr
  requiredVersionSpec : Json
  availableVersions : List PyStr
  reason : PyStr

structure ResolutionResult where
  isSatisfied : Bool
  missing : List MissingDependency
  cycles : List (List PyStr)
  satisfied : List (PyStr × PyStr)

/--
The id and the version constraint of an element of a `requires` array. Elements that name no module are
passed over.
-/
def requirement? : Json → Option (PyStr × Json)
  | .dict req =>
    match Dict.get req (py "module_id") with
    | .str moduleId =>
      let version := Dict.getD req (py "version") (.str [])
      some (moduleId, if version.truthy then version else .str [])
    | _ => none
  | _ => none

/--
The ids in a `requires` array.
-/
def requiredIds (requires : List Json) : List PyStr :=
  (requires.filterMap requirement?).map Prod.fst

section Versions

variable {V : Type} [LinearOrder V] (packaging : Packaging V)

/--
`_matches_spec`
-/
def matchesSpec (spec : Json) (versionStr : PyStr) : Except PyErr Bool :=
  if !spec.truthy then .ok true
  else
    match packaging.version versionStr with
    | none => .ok false
    | some version =>
      match spec with
      | .str spec =>
        match packaging.specifierSet spec with
        | none => .ok false
        | some specSet => .ok (specSet version)
      | _ => .error .typeError

/--
The highest version, the first one of equals, or the last text if some text is no version.
-/
def best (matching : List PyStr) : Option PyStr :=
  match matching.mapM fun text => (packaging.version text).map fun v => (v, text) with
  | none => matching.getLast?
  | some [] => none
  | some (first :: rest) =>
    some (rest.foldl (fun best next => if best.fst < next.fst then next else best) first).snd

end Versions

section Resolve

variable {V : Type} [LinearOrder V] (packaging : Packaging V)
  (installed : List (PyStr × PyStr)) (discovered : List DiscoveredModule)

/--
`_installed_versions`, given the ids and versions of the installed rows.
-/
def installedVersions (moduleId : PyStr) : List PyStr :=
  (installed.filter fun row => row.fst = moduleId).map Prod.snd

/--
`_discoverable_versions`
-/
def discoverableVersions (moduleId : PyStr) : Except PyErr (List PyStr) := do
  let versions ← (discovered.filter fun entry => entry.moduleId = moduleId).mapM fun entry => do
    let manifest ← entry.read
    return match manifest.version with
      | .str v => [v]
      | _ => []
  return versions.flatten

inductive Resolution where
  | passedOver
  | missing (dependency : MissingDependency)
  | satisfied (moduleId version : PyStr)

def Resolution.missing? : Resolution → Option MissingDependency
  | .missing dependency => some dependency
  | _ => none

def Resolution.satisfied? : Resolution → Option (PyStr × PyStr)
  | .satisfied moduleId version => some (moduleId, version)
  | _ => none

/--
The choice among the versions of a required module.
-/
def chooseVersion (moduleId : PyStr) (spec : Json) (allVersions : List PyStr)
    : Except PyErr Resolution := do
  if allVersions.isEmpty then return .missing ⟨moduleId, spec, [], py "not_found"⟩
  let matched ← allVersions.mapM fun version => do
    return (version, ← matchesSpec packaging spec version)
  let matching := (matched.filter Prod.snd).map Prod.fst
  if matching.isEmpty then
    return .missing ⟨moduleId, spec, allVersions, py "version_unsatisfied"⟩
  return .satisfied moduleId ((best packaging matching).getD [])

/--
One turn of the loop over the requirements.
-/
def resolveRequirement (req : Json) : Except PyErr Resolution := do
  match requirement? req with
  | none => return .passedOver
  | some (moduleId, spec) =>
    let discoverable ← discoverableVersions discovered moduleId
    chooseVersion packaging moduleId spec
      (((installedVersions installed moduleId ++ discoverable).dedup).mergeSort fun a b => a ≤ b)

/--
`graph[key] = edges`
-/
def setEdges (graph : List (PyStr × List PyStr)) (key : PyStr) (edges : List PyStr)
    : List (PyStr × List PyStr) :=
  if key ∈ graph.map Prod.fst then
    graph.map fun item => if item.fst = key then (key, edges) else item
  else graph ++ [(key, edges)]

/--
`_build_graph_for_cycle_check`
-/
def buildGraph (manifest : Manifest) : Except PyErr (List (PyStr × List PyStr)) :=
  let directDeps := requiredIds manifest.requires
  discovered.foldlM (fun graph entry => do
    if entry.moduleId ∉ directDeps ∧ entry.moduleId ≠ manifest.id then return graph
    let depManifest ← entry.read
    return setEdges graph entry.moduleId (requiredIds depManifest.requires)
  ) [(manifest.id, directDeps)]

/--
`graph.get(node, [])`
-/
def neighbours (graph : List (PyStr × List PyStr)) (node : PyStr) : List PyStr :=
  (graph.lookup node).getD []

/--
Of the cycles through the same modules the first one, besides those that were seen.
-/
def dedupCycles (seen : List (List PyStr)) : List (List PyStr) → List (List PyStr)
  | [] => []
  | c :: cycles =>
    let key := c.mergeSort fun a b => a ≤ b
    if key ∈ seen then dedupCycles seen cycles else c :: dedupCycles (key :: seen) cycles

/--
`_detect_cycles`, where the recursion limit of the interpreter leaves so many frames to `dfs`.
-/
def detectCycles (frames : Nat) (graph : List (PyStr × List PyStr)) : Except PyErr (List (List PyStr)) :=
  match DepthFirst.search (neighbours graph) frames (graph.map Prod.fst) with
  | none => .error .recursionError
  | some search => .ok (dedupCycles [] search.cycles)

def resolveDependencies (frames : Nat) (manifest : Manifest) : Except PyErr ResolutionResult := do
  let resolutions ←
    manifest.requires.mapM (resolveRequirement packaging installed discovered)
  let missing := resolutions.filterMap Resolution.missing?
  let graph ← buildGraph discovered manifest
  let cycles ← detectCycles frames graph
  return {
    isSatisfied := missing.isEmpty && cycles.isEmpty
    missing := missing
    cycles := cycles
    satisfied := resolutions.filterMap Resolution.satisfied?
  }

end Resolve

end DependencyResolver
