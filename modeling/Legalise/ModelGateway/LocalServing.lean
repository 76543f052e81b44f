import Legalise.ModelGateway.Call

/-!
This module contains when the prompts of matters with mixed privilege stay with the local provider, and that
nothing is sent for paused matters.
-/

namespace ModelGateway

open Capabilities (GrantTable)

/--
What is promised of a call on a matter if a local provider is registered.
-/
structure StaysLocal (W : World) (args : CallArgs) (outcome : ProviderOutcome) (matterId : Uuid) : Prop where
  mixed : W.postures matterId = some .bMixed
    → ∀ sent ∈ sentOf (call W args outcome).trace, Gateway.isKeyedProvider sent.provider = false
  paused : W.postures matterId = some .cPaused → sentOf (call W args outcome).trace = []

/--
The call asks for a registered provider with a key by its bare name, and has the grant and the key for it.
-/
structure AsksByBareName (W : World) (args : CallArgs) : Prop where
  keyed : requested W args ∈ keyedProviders
  registered : (W.gateway.get? (requested W args)).isSome
  mayInvoke : mayInvoke W args = true
  keyAvailable : keyAvailable W args (requested W args) = true

section Local

variable {W : World} {args : CallArgs} {matterId : Uuid}

/--
A keyed provider keeps the name that it is asked for by.
-/
theorem name_selectProvider_of_keyed {g : Gateway} {name : PyStr} (hkeyed : name ∈ keyedProviders)
    (hregistered : (g.get? name).isSome) : (g.selectProvider name .bMixed).name = name := by
  have ⟨provider, hprovider⟩ := Option.isSome_iff_exists.mp hregistered
  have hfrontier : ∀ other ∈ keyedProviders, Gateway.isFrontier other = false := by decide
  have hbyName : g.selectByName name = provider := by
    unfold Gateway.selectByName
    rw [Gateway.providerForModel_of_not_isFrontier (hfrontier name hkeyed), if_pos hkeyed, Option.bind_some,
      hprovider]
  unfold Gateway.selectProvider
  cases g.get? (py "ollama") with
  | none =>
    dsimp only
    rw [hbyName, Gateway.name_get? hprovider]
  | some localProvider =>
    dsimp only
    rw [hfrontier name hkeyed, if_neg Bool.false_ne_true, hbyName, Gateway.name_get? hprovider]

theorem keyed_served_iff (hmatter : args.matterId = some matterId) (hlocal : (W.gateway.get? (py "ollama")).isSome)
    (hmixed : W.postures matterId = some .bMixed)
    : (∃ provider, servingProvider W args = some provider ∧ Gateway.isKeyedProvider provider.name = true)
        ↔ AsksByBareName W args := by
  have hposture : posture? W args = some .bMixed := by
    unfold posture?
    rw [hmatter]
    exact hmixed
  unfold servingProvider
  rw [hposture, Option.bind_some]
  dsimp only
  have hkeyed := Gateway.isKeyedProvider_selectProvider_bMixed hlocal (requested W args)
  constructor
  . rintro ⟨provider, hserving, hprovider⟩
    split at hserving
    . next hserves =>
      cases hserving
      have ⟨hname, hregistered⟩ := hkeyed.mp hprovider
      have hkey := hserves.right.right
      rw [name_selectProvider_of_keyed hname hregistered] at hkey
      exact ⟨hname, hregistered, hserves.right.left, hkey⟩
    . cases hserving
  . intro h
    refine ⟨_, if_pos ⟨by decide, h.mayInvoke, ?_⟩, hkeyed.mpr ⟨h.keyed, h.registered⟩⟩
    rw [name_selectProvider_of_keyed h.keyed h.registered]
    exact h.keyAvailable

theorem sentOf_call_of_paused (hmatter : args.matterId = some matterId) (hpaused : W.postures matterId = some .cPaused)
    (outcome : ProviderOutcome) : sentOf (call W args outcome).trace = [] := by
  have hposture : posture? W args = some .cPaused := by
    unfold posture?
    rw [hmatter]
    exact hpaused
  rw [sentOf_call]
  unfold servingProvider
  rw [hposture]
  simp

end Local

/--
If a local provider is registered, then a call on a matter stays local exactly if it does not ask for a provider
with a key by its bare name. On a paused matter nothing is sent.
-/
theorem staysLocal_iff_not_asksByBareName (W : World) (args : CallArgs) (outcome : ProviderOutcome)
    (matterId : Uuid) (hmatter : args.matterId = some matterId)
    (hlocal : (W.gateway.get? (py "ollama")).isSome)
    : StaysLocal W args outcome matterId
        ↔ (W.postures matterId = some .bMixed → ¬ AsksByBareName W args) := by
  constructor
  . intro h hmixed hasks
    have ⟨provider, hserving, hkeyed⟩ := (keyed_served_iff hmatter hlocal hmixed).mpr hasks
    have hlocalOnly := h.mixed hmixed
    rw [sentOf_call, hserving] at hlocalOnly
    have hnot := hlocalOnly _ (List.mem_singleton_self _)
    rw [hkeyed] at hnot
    contradiction
  . intro h
    refine ⟨fun hmixed sent hsent => ?_, fun hpaused => sentOf_call_of_paused hmatter hpaused outcome⟩
    rw [sentOf_call] at hsent
    cases hserving : servingProvider W args with
    | none =>
      rw [hserving] at hsent
      cases hsent
    | some provider =>
      rw [hserving] at hsent
      rw [List.mem_singleton.mp hsent, ← Bool.not_eq_true]
      intro hkeyed
      exact h hmixed ((keyed_served_iff hmatter hlocal hmixed).mp ⟨provider, hserving, hkeyed⟩)

section BareName

/--
A deployment with a local model, whose user has a key for Anthropic.
-/
def mixedWorld : World where
  R := .quoted
  gateway := (Gateway.initial.register { name := py "ollama" }).register { name := py "anthropic" }
  settings := {
    defaultModelId := py "claude-opus-4-7", environment := py "production", allowServerKeyFallback := false
  }
  sha256 := .plain
  postures _ := some .bMixed
  grants := .empty
  userKeys _ provider := .ok (if provider = py "anthropic" then some (py "sk-ant") else none)

/--
A turn on a matter that was created with the default model id `anthropic`.
-/
def bareNameCall : CallArgs where
  call := 0
  matterId := some (Uuid.ofNat 1)
  actorId := some (Uuid.ofNat 2)
  prompt := py "privileged"
  model := some (py "anthropic")
  posture := some .bMixed

theorem bareNameCall_not_staysLocal
    : ¬ StaysLocal mixedWorld bareNameCall (.returned (py "reply") 1 1 none none) (Uuid.ofNat 1) := by
  intro h
  have hmixed := h.mixed rfl
  revert hmixed
  decide +kernel

theorem staysLocal_iff_not_asksByBareName_mixedWorld
    : StaysLocal mixedWorld bareNameCall (.returned (py "reply") 1 1 none none) (Uuid.ofNat 1)
        ↔ (mixedWorld.postures (Uuid.ofNat 1) = some .bMixed → ¬ AsksByBareName mixedWorld bareNameCall) :=
  staysLocal_iff_not_asksByBareName mixedWorld bareNameCall _ (Uuid.ofNat 1) rfl (by decide)

end BareName

end ModelGateway
