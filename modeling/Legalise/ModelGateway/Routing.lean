import Legalise.Python.Json

/-!
This module contains the routing of the model gateway: which of the registered providers serves a model id
under a privilege posture.
-/

namespace ModelGateway

/--
`PrivilegePosture`
-/
inductive PrivilegePosture where
  | aCleared
  | bMixed
  | cPaused
  deriving DecidableEq

def PrivilegePosture.value : PrivilegePosture → PyStr
  | .aCleared => py "A_cleared"
  | .bMixed => py "B_mixed"
  | .cPaused => py "C_paused"

def keyedProviders : List PyStr :=
  [py "anthropic", py "openai", py "openrouter"]

def providerForModel (modelId : PyStr) : Option PyStr :=
  if modelId = [] then none
  else if py "/" <:+: modelId then some (py "openrouter")
  else if py "claude-" <+: modelId then some (py "anthropic")
  else if py "gpt-" <+: modelId then some (py "openai")
  else if modelId ∈ keyedProviders then some modelId
  else none

/--
A provider. `default_model` is not an attribute of all of them.
-/
structure Provider where
  name : PyStr
  defaultModel : Option PyStr := none
  deriving DecidableEq

def stubEcho : Provider where
  name := py "stub-echo"

/--
The registered providers under their names. The stub is always one of them.
-/
structure Gateway where
  providers : List Provider
  names : (providers.map Provider.name).Nodup
  stub : py "stub-echo" ∈ providers.map Provider.name

namespace Gateway

def initial : Gateway where
  providers := [stubEcho]
  names := List.nodup_singleton _
  stub := List.mem_singleton_self _

def replace (provider other : Provider) : Provider :=
  if other.name = provider.name then provider else other

theorem name_replace (provider other : Provider) : (replace provider other).name = other.name := by
  unfold replace
  split
  . next h => exact h.symm
  . rfl

/--
`register`
-/
def register (g : Gateway) (provider : Provider) : Gateway :=
  if h : provider.name ∈ g.providers.map Provider.name then
    have hnames : (g.providers.map (replace provider)).map Provider.name = g.providers.map Provider.name := by
      rw [List.map_map]
      exact List.map_congr_left fun other _ => name_replace provider other
    {
      providers := g.providers.map (replace provider)
      names := by
        rw [hnames]
        exact g.names
      stub := by
        rw [hnames]
        exact g.stub
    }
  else
    {
      providers := g.providers ++ [provider]
      names := by
        rw [List.map_append]
        exact g.names.append (List.nodup_singleton _) (by simpa using h)
      stub := by
        rw [List.map_append]
        exact List.mem_append_left _ g.stub
    }

/--
`self._providers.get(name)`
-/
def get? (g : Gateway) (name : PyStr) : Option Provider :=
  g.providers.find? fun provider => provider.name = name

theorem isSome_get?_iff (g : Gateway) (name : PyStr)
    : (g.get? name).isSome ↔ name ∈ g.providers.map Provider.name := by
  simp [get?]

theorem name_get? {g : Gateway} {name : PyStr} {provider : Provider} (h : g.get? name = some provider)
    : provider.name = name := by
  simpa using List.find?_some h

/--
`self._providers["stub-echo"]`
-/
def getStub (g : Gateway) : Provider :=
  (g.get? (py "stub-echo")).get ((g.isSome_get?_iff _).mpr g.stub)

theorem name_getStub (g : Gateway) : g.getStub.name = py "stub-echo" :=
  name_get? (Option.some_get _).symm

/--
An id that obviously leaves the tenant.
-/
def isFrontier (requested : PyStr) : Bool :=
  py "claude-" <+: requested || py "gpt-" <+: requested || py "/" <:+: requested

def selectByName (g : Gateway) (requested : PyStr) : Provider :=
  match (providerForModel requested).bind g.get? with
  | some provider => provider
  | none => (g.get? requested).getD g.getStub

/--
`_select_provider`
-/
def selectProvider (g : Gateway) (requested : PyStr) (posture : PrivilegePosture) : Provider :=
  match posture, g.get? (py "ollama") with
  | .bMixed, some localProvider => if isFrontier requested then localProvider else g.selectByName requested
  | _, _ => g.selectByName requested

/--
`is_keyed_provider`
-/
def isKeyedProvider (name : PyStr) : Bool :=
  name ∈ keyedProviders

theorem providerForModel_of_not_isFrontier {requested : PyStr} (h : isFrontier requested = false)
    : providerForModel requested = if requested ∈ keyedProviders then some requested else none := by
  simp only [isFrontier, Bool.or_eq_false_iff, decide_eq_false_iff_not] at h
  unfold providerForModel
  rw [if_neg h.right, if_neg h.left.left, if_neg h.left.right]
  by_cases hempty : requested = []
  . rw [if_pos hempty, hempty]
    rfl
  . rw [if_neg hempty]

/--
Under `B_mixed` with a local provider, the only ids that a keyed provider serves are the names of the keyed
providers.
-/
theorem isKeyedProvider_selectProvider_bMixed {g : Gateway} (hlocal : (g.get? (py "ollama")).isSome)
    (requested : PyStr)
    : isKeyedProvider (g.selectProvider requested .bMixed).name = true
        ↔ requested ∈ keyedProviders ∧ (g.get? requested).isSome := by
  have ⟨localProvider, hollama⟩ := Option.isSome_iff_exists.mp hlocal
  unfold selectProvider
  rw [hollama]
  dsimp only
  by_cases hfrontier : isFrontier requested = true
  . rw [if_pos hfrontier, name_get? hollama]
    refine iff_of_false (by decide) ?_
    rintro ⟨hkeyed, _⟩
    have hnone : ∀ name ∈ keyedProviders, isFrontier name = false := by decide
    rw [hnone requested hkeyed] at hfrontier
    contradiction
  . rw [if_neg hfrontier]
    rw [Bool.not_eq_true] at hfrontier
    unfold selectByName
    rw [providerForModel_of_not_isFrontier hfrontier]
    by_cases hkeyed : requested ∈ keyedProviders
    . rw [if_pos hkeyed, Option.bind_some]
      cases hget : g.get? requested with
      | some provider => simp [isKeyedProvider, name_get? hget, hkeyed]
      | none =>
        refine iff_of_false ?_ (by simp)
        simp only [Option.getD_none, name_getStub]
        decide
    . rw [if_neg hkeyed, Option.bind_none]
      refine iff_of_false ?_ (fun h => hkeyed h.left)
      cases hget : g.get? requested with
      | some provider => simpa [isKeyedProvider, name_get? hget] using hkeyed
      | none =>
        simp only [Option.getD_none, name_getStub]
        decide

end Gateway

end ModelGateway
