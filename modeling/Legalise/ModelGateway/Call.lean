import Legalise.ModelGateway.Routing
import Legalise.Python.Hashlib
import Legalise.Requests.Basic

/-!
This module contains one call of the model gateway: the posture of the matter, the grant of a module, the key
of the user, the provider, and the audit row of every way in which it ends.
-/

namespace ModelGateway

open Capabilities (GrantTable)
open Requests (AuditRow Err Fault Request auditFailure auditLog query requireCapability)

structure Settings where
  defaultModelId : PyStr
  environment : PyStr
  allowServerKeyFallback : Bool

def devEnvironments : List PyStr :=
  [py "development", py "dev", py "local"]

def Settings.fallbackAllowed (settings : Settings) : Bool :=
  settings.environment ∈ devEnvironments && settings.allowServerKeyFallback

/--
What a call finds: the registered providers, the settings, the postures of the matters, the grants, and the
decrypted keys of the users. A key that cannot be decrypted raises.
-/
structure World where
  R : PyRepr
  gateway : Gateway
  settings : Settings
  sha256 : Sha256
  postures : Uuid → Option PrivilegePosture
  grants : GrantTable
  userKeys : Uuid → PyStr → Except Fault (Option PyStr)

/--
The arguments of a call, and its number.
-/
structure CallArgs where
  call : Nat
  matterId : Option Uuid
  actorId : Option Uuid
  prompt : PyStr
  model : Option PyStr := none
  posture : Option PrivilegePosture := none
  resourceType : Option PyStr := none
  resourceId : Option PyStr := none
  payload : Option Dict := none
  callerModule : Option PyStr := none

/--
How a provider ends: it returns a text with its token counts and what it reports about the upstream, it
raises `ProviderUpstreamError`, or it raises something else.
-/
inductive ProviderOutcome where
  | returned (text : PyStr) (tokensIn tokensOut : Int) (servedModel upstreamProvider : Option PyStr)
  | upstreamError (code provider : PyStr) (upstreamStatus : Option Int)
  | raised (fault : Fault)

def ProviderOutcome.tokens : ProviderOutcome → Int
  | .returned _ tokensIn tokensOut _ _ => tokensIn + tokensOut
  | _ => 0

structure ModelResult where
  text : PyStr
  modelUsed : PyStr
  promptHash : PyStr
  responseHash : PyStr
  tokensIn : Int
  tokensOut : Int
  provider : PyStr

def ModelResult.tokenCount (result : ModelResult) : Int :=
  result.tokensIn + result.tokensOut

section Call

variable (W : World) (args : CallArgs)

/--
`_sha`: the text is encoded first.
-/
def sha (text : PyStr) : Request PyStr :=
  if Utf8Encodable text then pure (W.sha256.hexdigest text) else Traced.raise (.valueError (py "utf-8"))

/--
The posture that the call is made under. That of the matter wins over the argument.
-/
def effectivePosture : Request PrivilegePosture :=
  match args.matterId with
  | some matterId => do
    query
    match W.postures matterId with
    | some posture => pure posture
    | none => Traced.raise (.privilegePaused (py "matter not found for matter_id=" ++ matterId.str))
  | none => pure (args.posture.getD .bMixed)

/--
The `(plugin, skill)` that a call is attributed to.
-/
def attribution : Option (PyStr × PyStr) :=
  args.payload.bind fun payload =>
    if (Dict.get payload (py "plugin")).truthy && (Dict.get payload (py "skill")).truthy then
      some ((Dict.get payload (py "plugin")).toStr W.R, (Dict.get payload (py "skill")).toStr W.R)
    else none

/--
The grant of `model.invoke`, if the call is attributed to a module.
-/
def requireModelInvoke : Request Unit :=
  match args.actorId, attribution W args with
  | some actorId, some (plugin, skill) =>
    requireCapability W.grants actorId plugin skill (py "model.invoke") none
  | _, _ => pure ()

/--
`model or settings.default_model_id`
-/
def requested : PyStr :=
  match args.model with
  | some model => if model = [] then W.settings.defaultModelId else model
  | none => W.settings.defaultModelId

/--
The `model` that is passed on to a keyed provider.
-/
def passedModel (provider : Provider) : Option PyStr :=
  if Gateway.isKeyedProvider provider.name && requested W args ≠ provider.name then some (requested W args)
  else none

def servedModel (provider : Provider) : PyStr :=
  let nonempty (value : Option PyStr) : Option PyStr := value.filter (· ≠ [])
  ((nonempty (passedModel W args provider)).or (nonempty provider.defaultModel)).getD provider.name

/--
The payload of an audit row, under which that of the caller wins.
-/
def rowPayload (own : Dict) : Dict :=
  AdviceBoundary.update own (args.payload.getD [])

def keyMissingRow (posture : PrivilegePosture) (provider : Provider) : AuditRow where
  action := py "module." ++ (args.callerModule.filter (· ≠ [])).getD (py "unknown") ++ py ".model.key_missing"
  actorId := args.actorId
  matterId := args.matterId
  module := some ((args.callerModule.filter (· ≠ [])).getD (py "unknown"))
  resourceType := args.resourceType
  resourceId := args.resourceId
  modelUsed := some provider.name
  payload := rowPayload args [
    (py "requested_model", .str (requested W args)),
    (py "posture", .str posture.value),
    (py "provider", .str provider.name),
    (py "error", .dict [(py "code", .str (py "key_missing")), (py "provider", .str provider.name)])
  ]

def callErrorRow (posture : PrivilegePosture) (provider : Provider) (promptHash code upstream : PyStr)
    (upstreamStatus : Option Int) : AuditRow where
  action := py "model.call.error"
  actorId := args.actorId
  matterId := args.matterId
  module := args.callerModule
  resourceType := args.resourceType
  resourceId := args.resourceId
  modelUsed := some (servedModel W args provider)
  promptHash := some promptHash
  call := some args.call
  payload := rowPayload args [
    (py "requested_model", .str (requested W args)),
    (py "provider", .str provider.name),
    (py "posture", .str posture.value),
    (py "error", .dict [
      (py "code", .str code), (py "provider", .str upstream),
      (py "upstream_status", (upstreamStatus.map Json.int).getD .null)
    ])
  ]

def callRow (posture : PrivilegePosture) (result : ModelResult) (upstreamProvider : Option PyStr) : AuditRow where
  action := py "model.call"
  actorId := args.actorId
  matterId := args.matterId
  module := args.callerModule
  resourceType := args.resourceType
  resourceId := args.resourceId
  modelUsed := some result.modelUsed
  promptHash := some result.promptHash
  responseHash := some result.responseHash
  tokenCount := some result.tokenCount
  call := some args.call
  payload := rowPayload args ([
    (py "requested_model", .str (requested W args)),
    (py "provider", .str result.provider),
    (py "posture", .str posture.value)
  ] ++ ((upstreamProvider.filter (· ≠ [])).map fun upstream =>
    (py "upstream_provider", Json.str upstream)).toList)

/--
The key that is passed to a keyed provider. Without one the provider uses the key of the server, where this is
allowed.
-/
def resolveKey (posture : PrivilegePosture) (provider : Provider) : Request (Option PyStr) :=
  if Gateway.isKeyedProvider provider.name then do
    let userKey ← match args.actorId with
      | some actorId => do
        query
        Requests.ofFault (W.userKeys actorId provider.name)
      | none => pure none
    match userKey with
    | some key => pure (some key)
    | none =>
      if W.settings.fallbackAllowed then pure none
      else do
        auditFailure (keyMissingRow W args posture provider)
        Traced.raise (.providerKeyMissing provider.name)
  else pure none

/--
The provider is entered, and every way in which it ends.
-/
def enterProvider (posture : PrivilegePosture) (provider : Provider) (key : Option PyStr) (outcome : ProviderOutcome)
    : Request ModelResult := do
  Traced.issue (.send {
    call := args.call, provider := provider.name, prompt := args.prompt, tokens := outcome.tokens
  })
  match outcome with
  | .returned text tokensIn tokensOut reported upstreamProvider => do
    -- `mark_user_key_used`
    if args.actorId.isSome && key.isSome then query
    let promptHash ← sha W args.prompt
    let responseHash ← sha W text
    let result : ModelResult := {
      text := text
      modelUsed := ((if provider.name = py "openrouter" then reported else none).filter (· ≠ [])).getD
        (servedModel W args provider)
      promptHash := promptHash
      responseHash := responseHash
      tokensIn := tokensIn
      tokensOut := tokensOut
      provider := provider.name
    }
    auditLog (callRow W args posture result (if provider.name = py "openrouter" then upstreamProvider else none))
    return result
  | .upstreamError code upstream upstreamStatus => do
    let promptHash ← sha W args.prompt
    auditFailure (callErrorRow W args posture provider promptHash code upstream upstreamStatus)
    Traced.raise (.providerUpstream code upstream upstreamStatus)
  | .raised fault => Traced.raise (.fault fault)

/--
`ModelGateway.call`, if the provider ends with this outcome once it is entered.
-/
def call (outcome : ProviderOutcome) : Request ModelResult := do
  let posture ← effectivePosture W args
  if posture = .cPaused then
    Traced.raise (.privilegePaused (py "AI is paused on this matter. Resume AI from the matter's Overview to continue."))
  else
    requireModelInvoke W args
    let provider := W.gateway.selectProvider (requested W args) posture
    let key ← resolveKey W args posture provider
    enterProvider W args posture provider key outcome

/--
The posture that `effectivePosture` finds.
-/
def posture? : Option PrivilegePosture :=
  match args.matterId with
  | some matterId => W.postures matterId
  | none => some (args.posture.getD .bMixed)

/--
The call is not attributed to a module, or the module may invoke models.
-/
def mayInvoke : Bool :=
  match args.actorId, attribution W args with
  | some actorId, some (plugin, skill) =>
    (Capabilities.requireCapability W.grants actorId plugin skill (py "model.invoke") none).isOk
  | _, _ => true

/--
The key that the actor has saved for a provider.
-/
def savedKey (name : PyStr) : Except Fault (Option PyStr) :=
  match args.actorId with
  | some actorId => W.userKeys actorId name
  | none => .ok none

/--
The provider is entered with the key of the actor, or may do without.
-/
def keyAvailable (name : PyStr) : Bool :=
  !Gateway.isKeyedProvider name
    || match savedKey W args name with
      | .ok (some _) => true
      | .ok none => W.settings.fallbackAllowed
      | .error _ => false

/--
The provider that a call enters, if it enters one.
-/
def servingProvider : Option Provider :=
  (posture? W args).bind fun posture =>
    let provider := W.gateway.selectProvider (requested W args) posture
    if posture ≠ .cPaused ∧ mayInvoke W args ∧ keyAvailable W args provider.name then some provider else none

end Call

section Sent

variable {W : World} {args : CallArgs}

open Requests (Cmd SentCall)

/--
The prompts that a trace hands to providers.
-/
def sentOf (commands : List Cmd) : List SentCall :=
  commands.filterMap fun
    | .send call => some call
    | _ => none

@[simp]
theorem sentOf_nil : sentOf [] = [] := rfl

theorem sentOf_append (commands rest : List Cmd) : sentOf (commands ++ rest) = sentOf commands ++ sentOf rest :=
  List.filterMap_append

theorem sentOf_bind_of_ok {α β : Type} {x : Request α} {a : α} (h : x.result = .ok a) (f : α → Request β)
    : sentOf (x >>= f).trace = sentOf x.trace ++ sentOf (f a).trace := by
  rw [Traced.bind_of_ok h, sentOf_append]

theorem sentOf_bind_of_error {α β : Type} {x : Request α} {e : Err} (h : x.result = .error e) (f : α → Request β)
    : sentOf (x >>= f).trace = sentOf x.trace := by
  rw [Traced.bind_of_error h]

variable (W args) in
theorem effectivePosture_spec
    : sentOf (effectivePosture W args).trace = [] ∧ (effectivePosture W args).result.toOption = posture? W args := by
  unfold effectivePosture posture? query
  cases args.matterId with
  | none => exact ⟨rfl, rfl⟩
  | some matterId =>
    dsimp only
    cases W.postures matterId <;> exact ⟨rfl, rfl⟩

theorem requireCapability_spec (grants : GrantTable) (userId : Uuid) (plugin skill capability : PyStr)
    (matterId : Option Uuid)
    : sentOf (requireCapability grants userId plugin skill capability matterId).trace = []
        ∧ (requireCapability grants userId plugin skill capability matterId).result.isOk
          = (Capabilities.requireCapability grants userId plugin skill capability matterId).isOk := by
  unfold requireCapability query Requests.add Requests.commit
  cases Capabilities.requireCapability grants userId plugin skill capability matterId <;> exact ⟨rfl, rfl⟩

variable (W args) in
theorem requireModelInvoke_spec
    : sentOf (requireModelInvoke W args).trace = []
        ∧ (requireModelInvoke W args).result.isOk = mayInvoke W args := by
  unfold requireModelInvoke mayInvoke
  cases args.actorId with
  | none => exact ⟨rfl, rfl⟩
  | some actorId =>
    cases attribution W args with
    | none => exact ⟨rfl, rfl⟩
    | some pair => exact requireCapability_spec ..

variable (W args) in
theorem resolveKey_spec (posture : PrivilegePosture) (provider : Provider)
    : sentOf (resolveKey W args posture provider).trace = []
        ∧ (resolveKey W args posture provider).result.isOk = keyAvailable W args provider.name := by
  unfold resolveKey keyAvailable savedKey query auditFailure
  cases Gateway.isKeyedProvider provider.name with
  | false => exact ⟨rfl, rfl⟩
  | true =>
    cases args.actorId with
    | none => cases W.settings.fallbackAllowed <;> exact ⟨rfl, rfl⟩
    | some actorId =>
      dsimp only
      cases W.userKeys actorId provider.name with
      | error e => exact ⟨rfl, rfl⟩
      | ok key =>
        cases key with
        | some key => exact ⟨rfl, rfl⟩
        | none => cases W.settings.fallbackAllowed <;> exact ⟨rfl, rfl⟩

theorem enterProvider_spec (posture : PrivilegePosture) (provider : Provider) (key : Option PyStr)
    (outcome : ProviderOutcome)
    : sentOf (enterProvider W args posture provider key outcome).trace = [{
        call := args.call, provider := provider.name, prompt := args.prompt, tokens := outcome.tokens
      }] := by
  unfold enterProvider sha query auditLog auditFailure Requests.add
  cases outcome with
  | returned text tokensIn tokensOut reported upstreamProvider =>
    by_cases hkey : (args.actorId.isSome && key.isSome) = true <;>
      by_cases hprompt : Utf8Encodable args.prompt <;>
      by_cases htext : Utf8Encodable text <;>
      simp only [hkey, hprompt, htext, if_true, if_false] <;> rfl
  | upstreamError code upstream upstreamStatus =>
    by_cases hprompt : Utf8Encodable args.prompt <;> simp only [hprompt, if_true, if_false] <;> rfl
  | raised fault => rfl

/--
A call hands its prompt to the serving provider, and to no other.
-/
theorem sentOf_call (outcome : ProviderOutcome)
    : sentOf (call W args outcome).trace = ((servingProvider W args).map fun provider => {
        call := args.call, provider := provider.name, prompt := args.prompt, tokens := outcome.tokens
      }).toList := by
  obtain ⟨hpostureSent, hposture⟩ := effectivePosture_spec W args
  unfold call servingProvider
  cases hfound : (effectivePosture W args).result with
  | error e =>
    rw [hfound] at hposture
    rw [sentOf_bind_of_error hfound, hpostureSent, ← hposture]
    rfl
  | ok posture =>
    rw [hfound] at hposture
    rw [sentOf_bind_of_ok hfound, hpostureSent, ← hposture, List.nil_append]
    simp only [Except.toOption, Option.bind_some]
    by_cases hpaused : posture = .cPaused
    . simp [hpaused]
    . rw [if_neg hpaused]
      obtain ⟨hgrantSent, hgrant⟩ := requireModelInvoke_spec W args
      cases hinvoke : (requireModelInvoke W args).result with
      | error e =>
        rw [hinvoke] at hgrant
        rw [sentOf_bind_of_error hinvoke, hgrantSent]
        simp [← hgrant, Except.isOk, Except.toBool]
      | ok _ =>
        rw [hinvoke] at hgrant
        rw [sentOf_bind_of_ok hinvoke, hgrantSent, List.nil_append]
        obtain ⟨hkeySent, hkey⟩ := resolveKey_spec W args posture
          (W.gateway.selectProvider (requested W args) posture)
        cases hresolve : (resolveKey W args posture
          (W.gateway.selectProvider (requested W args) posture)).result with
        | error e =>
          rw [hresolve] at hkey
          rw [sentOf_bind_of_error hresolve, hkeySent]
          simp [← hkey, Except.isOk, Except.toBool]
        | ok key =>
          rw [hresolve] at hkey
          rw [sentOf_bind_of_ok hresolve, hkeySent, enterProvider_spec, List.nil_append, if_pos]
          . rfl
          . exact ⟨hpaused, hgrant.symm, hkey.symm⟩

end Sent

end ModelGateway
