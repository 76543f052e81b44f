import Legalise.Lib.Except
import Legalise.ModelGateway.Call
import Legalise.Requests.Plain

/-!
This module contains what a call of the gateway does to the session of its caller: it is quiet, or it ends with
one row on another connection.
-/

namespace ModelGateway

open LockingSession Session
open Requests (Cmd Err Fault Plain Request Row Unrefused)

section Trace

variable (W : World) (args : CallArgs)

/--
A keyed provider, for which the actor has no key and the key of the server may not be used.
-/
def keyMissing (name : PyStr) : Bool :=
  Gateway.isKeyedProvider name
    && match savedKey W args name with
      | .ok none => !W.settings.fallbackAllowed
      | _ => false

/--
The call is let through to a provider whose key is missing.
-/
def FailsForKey : Prop :=
  ∃ posture, posture? W args = some posture ∧ posture ≠ .cPaused ∧ mayInvoke W args = true
    ∧ keyMissing W args (W.gateway.selectProvider (requested W args) posture).name = true

/--
The call enters a provider, which ends with an upstream error.
-/
def FailsUpstream (outcome : ProviderOutcome) : Prop :=
  (servingProvider W args).isSome ∧ Utf8Encodable args.prompt
    ∧ ∃ code provider upstreamStatus, outcome = .upstreamError code provider upstreamStatus

/--
The failures that the gateway writes down on another connection.
-/
def FailsOnRecord (outcome : ProviderOutcome) : Prop :=
  FailsForKey W args ∨ FailsUpstream W args outcome

variable {W : World} {args : CallArgs}

/--
The trace only reads, and ends with one audit row of the matter, which is added or written on another connection.
-/
def EndsWith (write : Row → Cmd) (args : CallArgs) (commands : List Cmd) : Prop :=
  ∃ before row, commands = before ++ [write (.audit row)] ∧ Reads before ∧ row.matterId = args.matterId

theorem EndsWith.append {write : Row → Cmd} {commands rest : List Cmd} (h : EndsWith write args rest)
    (hreads : Reads commands) : EndsWith write args (commands ++ rest) := by
  have ⟨before, row, heq, hbefore, hmatter⟩ := h
  exact ⟨commands ++ before, row, by rw [heq, List.append_assoc], reads_append.mpr ⟨hreads, hbefore⟩, hmatter⟩

variable (W args) in
theorem reads_effectivePosture : Reads (effectivePosture W args).trace := by
  unfold effectivePosture Requests.query
  cases args.matterId with
  | none => exact reads_nil
  | some matterId =>
    dsimp only
    cases W.postures matterId <;> simp

theorem sha_cases (text : PyStr)
    : (Utf8Encodable text ∧ sha W text = pure (W.sha256.hexdigest text))
        ∨ (¬ Utf8Encodable text ∧ sha W text = Traced.raise (.valueError (py "utf-8"))) := by
  unfold sha
  by_cases h : Utf8Encodable text
  . exact .inl ⟨h, if_pos h⟩
  . exact .inr ⟨h, if_neg h⟩

theorem encodable_of_sha {text hash : PyStr} (h : (sha W text).result = .ok hash) : Utf8Encodable text := by
  by_contra hnot
  unfold sha at h
  rw [if_neg hnot] at h
  cases h

theorem plain_sha (text : PyStr) : Plain (sha W text) := by
  rcases sha_cases (W := W) text with ⟨_, h⟩ | ⟨_, h⟩ <;> rw [h]
  . exact .pure _
  . exact .fault _

theorem plain_effectivePosture : Plain (effectivePosture W args) := by
  unfold effectivePosture
  cases args.matterId with
  | none => exact .pure _
  | some matterId =>
    refine Plain.query.bind fun _ _ => ?_
    cases W.postures matterId with
    | some posture => exact .pure posture
    | none => exact .of_error rfl (.privilegePaused _)

theorem sameConnection_sha (text : PyStr) : SameConnection (sha W text).trace := by
  rcases sha_cases (W := W) text with ⟨_, h⟩ | ⟨_, h⟩ <;> rw [h] <;> exact sameConnection_nil

theorem plain_requireModelInvoke : Plain (requireModelInvoke W args) := by
  unfold requireModelInvoke
  split
  . exact .requireCapability ..
  . exact .pure ()

theorem reads_requireModelInvoke {u : Unit} (h : (requireModelInvoke W args).result = .ok u)
    : Reads (requireModelInvoke W args).trace := by
  unfold requireModelInvoke at h ⊢
  generalize args.actorId = actorId at h ⊢
  generalize attribution W args = attributed at h ⊢
  rcases actorId with _ | actorId
  . exact reads_nil
  . rcases attributed with _ | ⟨plugin, skill⟩
    . exact reads_nil
    . exact Requests.reads_requireCapability h

theorem sameConnection_requireModelInvoke : SameConnection (requireModelInvoke W args).trace := by
  unfold requireModelInvoke
  split
  . exact Requests.sameConnection_requireCapability _ _ _ _ _ _
  . exact sameConnection_nil

variable (W args) in
/--
The key is found or not needed, cannot be read, or is missing.
-/
theorem resolveKey_cases (posture : PrivilegePosture) (provider : Provider)
    : (keyMissing W args provider.name = false ∧ Reads (resolveKey W args posture provider).trace
        ∧ ((∃ key, (resolveKey W args posture provider).result = .ok key)
          ∨ ∃ fault, (resolveKey W args posture provider).result = .error (.fault fault)))
      ∨ (keyMissing W args provider.name = true
        ∧ EndsWith .outOfBand args (resolveKey W args posture provider).trace
        ∧ (resolveKey W args posture provider).result = .error (.providerKeyMissing provider.name)) := by
  unfold resolveKey keyMissing savedKey Requests.query Requests.auditFailure
  cases Gateway.isKeyedProvider provider.name with
  | false => exact .inl ⟨rfl, reads_nil, .inl ⟨none, rfl⟩⟩
  | true =>
    cases args.actorId with
    | none =>
      cases W.settings.fallbackAllowed with
      | true => exact .inl ⟨rfl, reads_nil, .inl ⟨none, rfl⟩⟩
      | false => exact .inr ⟨rfl, ⟨[], keyMissingRow W args posture provider, rfl, reads_nil, rfl⟩, rfl⟩
    | some actorId =>
      dsimp only
      cases W.userKeys actorId provider.name with
      | error fault => exact .inl ⟨rfl, reads_query_cons.mpr reads_nil, .inr ⟨fault, rfl⟩⟩
      | ok key =>
        cases key with
        | some key => exact .inl ⟨rfl, reads_query_cons.mpr reads_nil, .inl ⟨some key, rfl⟩⟩
        | none =>
          cases W.settings.fallbackAllowed with
          | true => exact .inl ⟨rfl, reads_query_cons.mpr reads_nil, .inl ⟨none, rfl⟩⟩
          | false =>
            exact .inr ⟨rfl,
              ⟨[.query], keyMissingRow W args posture provider, rfl, reads_query_cons.mpr reads_nil, rfl⟩, rfl⟩

theorem plain_resolveKey (posture : PrivilegePosture) (provider : Provider)
    : Plain (resolveKey W args posture provider) := by
  rcases resolveKey_cases W args posture provider with ⟨_, hreads, ⟨key, hkey⟩ | ⟨fault, hfault⟩⟩ | ⟨_, _, hmissing⟩
  . exact .of_ok hkey hreads.quiet
  . exact .of_error hfault (.fault fault)
  . exact .of_error hmissing (.providerKeyMissing _)

theorem plain_send (call : Requests.SentCall) : Plain (Traced.issue (.send call) : Request Unit) :=
  .of_ok rfl (by simp)

/--
However the provider ends, the gateway refuses nothing.
-/
theorem plain_enterProvider (posture : PrivilegePosture) (provider : Provider) (key : Option PyStr)
    (outcome : ProviderOutcome) : Plain (enterProvider W args posture provider key outcome) := by
  unfold enterProvider
  refine (plain_send _).bind fun _ _ => ?_
  cases outcome with
  | returned text tokensIn tokensOut reported upstreamProvider =>
    have hrow : Plain (do
        let promptHash ← sha W args.prompt
        let responseHash ← sha W text
        let result : ModelResult := {
          text := text
          modelUsed := ((if provider.name = py "openrouter" then reported else none).filter (· ≠ [])).getD
            (servedModel W args provider)
          promptHash := promptHash
          responseHash := responseHash
          tokensIn := tokensIn
          tokensOut := tokensOut
          provider := provider.name
        }
        Requests.auditLog (callRow W args posture result
          (if provider.name = py "openrouter" then upstreamProvider else none))
        return result) :=
      (plain_sha _).bind fun _ _ => (plain_sha _).bind fun _ _ => (Plain.auditLog _).bind fun _ _ => .pure _
    by_cases hkey : (args.actorId.isSome && key.isSome) = true
    . simp only [if_pos hkey]
      exact Plain.query.bind fun _ _ => hrow
    . simp only [if_neg hkey]
      exact hrow
  | upstreamError code upstream upstreamStatus =>
    refine (plain_sha _).bind fun _ _ => ?_
    exact .of_error rfl (.providerUpstream code upstream upstreamStatus)
  | raised fault => exact .fault _

theorem plain_call (outcome : ProviderOutcome) : Plain (call W args outcome) := by
  unfold call
  refine plain_effectivePosture.bind fun posture _ => ?_
  split
  . exact .of_error rfl (.privilegePaused _)
  . refine plain_requireModelInvoke.bind fun _ _ => ?_
    exact (plain_resolveKey _ _).bind fun _ _ => plain_enterProvider _ _ _ _

/--
A provider that does not end with an upstream error, or whose prompt has no hash.
-/
theorem sameConnection_enterProvider (posture : PrivilegePosture) (provider : Provider) (key : Option PyStr)
    {outcome : ProviderOutcome}
    (h : ¬ (Utf8Encodable args.prompt ∧ ∃ code upstream upstreamStatus,
      outcome = .upstreamError code upstream upstreamStatus))
    : SameConnection (enterProvider W args posture provider key outcome).trace := by
  unfold enterProvider
  refine Requests.sameConnection_bind (by simp [SameConnection]) fun _ _ => ?_
  cases outcome with
  | returned text tokensIn tokensOut reported upstreamProvider =>
    have hrow : SameConnection (do
        let promptHash ← sha W args.prompt
        let responseHash ← sha W text
        let result : ModelResult := {
          text := text
          modelUsed := ((if provider.name = py "openrouter" then reported else none).filter (· ≠ [])).getD
            (servedModel W args provider)
          promptHash := promptHash
          responseHash := responseHash
          tokensIn := tokensIn
          tokensOut := tokensOut
          provider := provider.name
        }
        Requests.auditLog (callRow W args posture result
          (if provider.name = py "openrouter" then upstreamProvider else none))
        return result : Request ModelResult).trace :=
      Requests.sameConnection_bind (sameConnection_sha _) fun _ _ =>
        Requests.sameConnection_bind (sameConnection_sha _) fun _ _ =>
          Requests.sameConnection_bind (Requests.sameConnection_add _) fun _ _ => sameConnection_nil
    by_cases hkey : (args.actorId.isSome && key.isSome) = true
    . simp only [if_pos hkey]
      exact Requests.sameConnection_bind Requests.sameConnection_query fun _ _ => hrow
    . simp only [if_neg hkey]
      exact hrow
  | upstreamError code upstream upstreamStatus =>
    rcases sha_cases (W := W) args.prompt with ⟨hencodable, _⟩ | ⟨_, hsha⟩
    . exact absurd ⟨hencodable, code, upstream, upstreamStatus, rfl⟩ h
    . simp only [hsha]
      exact sameConnection_nil
  | raised fault => exact sameConnection_nil

/--
Unless it fails on record, a call stays on the connection of its caller.
-/
theorem sameConnection_call {outcome : ProviderOutcome} (h : ¬ FailsOnRecord W args outcome)
    : SameConnection (call W args outcome).trace := by
  unfold call
  refine Requests.sameConnection_bind (reads_effectivePosture W args).quiet.sameConnection fun posture hfound => ?_
  have hposture : posture? W args = some posture := by
    rw [← (effectivePosture_spec W args).right, hfound]
    rfl
  split
  . exact sameConnection_nil
  . next hpaused =>
    refine Requests.sameConnection_bind sameConnection_requireModelInvoke fun _ hgranted => ?_
    have hinvoke : mayInvoke W args = true := by
      rw [← (requireModelInvoke_spec W args).right, hgranted]
      rfl
    rcases resolveKey_cases W args posture (W.gateway.selectProvider (requested W args) posture)
      with ⟨_, hreads, _⟩ | ⟨hmissing, _, _⟩
    . refine Requests.sameConnection_bind hreads.quiet.sameConnection fun key hkey => ?_
      refine sameConnection_enterProvider _ _ _ fun hupstream => h (.inr ⟨?_, hupstream⟩)
      have havailable := (resolveKey_spec W args posture (W.gateway.selectProvider (requested W args) posture)).right
      rw [hkey] at havailable
      unfold servingProvider
      rw [hposture, Option.bind_some, if_pos ⟨hpaused, hinvoke, havailable.symm⟩]
      rfl
    . exact absurd (.inl ⟨posture, hposture, hpaused, hinvoke, hmissing⟩) h

theorem endsOutOfBand_enterProvider (posture : PrivilegePosture) (provider : Provider) (key : Option PyStr)
    (hencodable : Utf8Encodable args.prompt) (code upstream : PyStr) (upstreamStatus : Option Int)
    : EndsWith .outOfBand args
          (enterProvider W args posture provider key (.upstreamError code upstream upstreamStatus)).trace := by
  unfold enterProvider Requests.auditFailure
  have hsha : sha W args.prompt = pure (W.sha256.hexdigest args.prompt) := if_pos hencodable
  simp only [hsha]
  refine ⟨[.send {
    call := args.call, provider := provider.name, prompt := args.prompt
    tokens := (ProviderOutcome.upstreamError code upstream upstreamStatus).tokens
  }], callErrorRow W args posture provider (W.sha256.hexdigest args.prompt) code upstream upstreamStatus, rfl, ?_,
    rfl⟩
  simp

theorem EndsWith.bind {write : Row → Cmd} {α β : Type} {x : Request α} {f : α → Request β} {a : α}
    (hreads : Reads x.trace) (hresult : x.result = .ok a) (h : EndsWith write args (f a).trace)
    : EndsWith write args (x >>= f).trace := by
  rw [Traced.bind_of_ok hresult]
  exact h.append hreads

/--
A call whose provider is entered ends as that lets it end, and has only read before.
-/
theorem call_of_servingProvider {provider : Provider} (h : servingProvider W args = some provider)
    (outcome : ProviderOutcome)
    : ∃ posture key rest, Reads rest
        ∧ call W args outcome = {
          trace := (effectivePosture W args).trace
            ++ (rest ++ (enterProvider W args posture provider key outcome).trace)
          result := (enterProvider W args posture provider key outcome).result
        } := by
  have ⟨posture, hposture, hprovider⟩ := Option.bind_eq_some_iff.mp h
  rw [Option.ite_none_right_eq_some] at hprovider
  obtain ⟨⟨hpaused, hinvoke, havailable⟩, hprovider⟩ := hprovider
  rw [Option.some.injEq] at hprovider
  have hfound : (effectivePosture W args).result = .ok posture :=
    (Except.toOption_eq_some_iff _ _).mp ((effectivePosture_spec W args).right.trans hposture)
  have ⟨u, hgranted⟩ : ∃ u, (requireModelInvoke W args).result = .ok u :=
    (Except.isOk_iff _).mp ((requireModelInvoke_spec W args).right.trans hinvoke)
  have ⟨key, hkey⟩ : ∃ key, (resolveKey W args posture
      (W.gateway.selectProvider (requested W args) posture)).result = .ok key :=
    (Except.isOk_iff _).mp ((resolveKey_spec W args _ _).right.trans havailable)
  have hreads : Reads (resolveKey W args posture (W.gateway.selectProvider (requested W args) posture)).trace := by
    rcases resolveKey_cases W args posture (W.gateway.selectProvider (requested W args) posture)
      with ⟨_, hreads, _⟩ | ⟨_, _, hmissing⟩
    . exact hreads
    . rw [hmissing] at hkey
      cases hkey
  refine ⟨posture, key, _, reads_append.mpr ⟨reads_requireModelInvoke hgranted, hreads⟩, ?_⟩
  unfold call
  rw [Traced.bind_of_ok hfound, if_neg hpaused, Traced.bind_of_ok hgranted]
  dsimp only
  rw [Traced.bind_of_ok hkey, hprovider]
  simp only [List.append_assoc]

/--
A call that fails on record looks up the posture, and ends with the row on another connection.
-/
theorem endsOutOfBand_call {outcome : ProviderOutcome} (h : FailsOnRecord W args outcome)
    : ∃ rest, (call W args outcome).trace = (effectivePosture W args).trace ++ rest
        ∧ EndsWith .outOfBand args rest := by
  rcases h with ⟨posture, hposture, hpaused, hinvoke, hfails⟩
    | ⟨hserving, hencodable, code, upstream, upstreamStatus, rfl⟩
  . have hfound : (effectivePosture W args).result = .ok posture :=
      (Except.toOption_eq_some_iff _ _).mp ((effectivePosture_spec W args).right.trans hposture)
    have ⟨u, hgranted⟩ : ∃ u, (requireModelInvoke W args).result = .ok u :=
      (Except.isOk_iff _).mp ((requireModelInvoke_spec W args).right.trans hinvoke)
    unfold call
    rw [Traced.bind_of_ok hfound, if_neg hpaused]
    refine ⟨_, rfl, .bind (reads_requireModelInvoke hgranted) hgranted ?_⟩
    rcases resolveKey_cases W args posture (W.gateway.selectProvider (requested W args) posture)
      with ⟨hmissing, _, _⟩ | ⟨_, hends, hkey⟩
    . rw [hmissing] at hfails
      cases hfails
    . rw [Traced.bind_of_error hkey]
      exact hends
  . have ⟨provider, hprovider⟩ := Option.isSome_iff_exists.mp hserving
    have ⟨posture, key, rest, hreads, hcall⟩ := call_of_servingProvider hprovider
      (.upstreamError code upstream upstreamStatus)
    rw [hcall]
    exact ⟨_, rfl, (endsOutOfBand_enterProvider posture provider key hencodable _ _ _).append hreads⟩

/--
The call enters a provider that returns the text, and the prompt and the text have hashes.
-/
def Returns (W : World) (args : CallArgs) (outcome : ProviderOutcome) (text : PyStr) : Prop :=
  (servingProvider W args).isSome ∧ Utf8Encodable args.prompt ∧ Utf8Encodable text
    ∧ ∃ tokensIn tokensOut served upstream, outcome = .returned text tokensIn tokensOut served upstream

theorem result_enterProvider (posture : PrivilegePosture) (provider : Provider) (key : Option PyStr)
    {outcome : ProviderOutcome} {result : ModelResult}
    (h : (enterProvider W args posture provider key outcome).result = .ok result)
    : Utf8Encodable args.prompt ∧ Utf8Encodable result.text
        ∧ ∃ tokensIn tokensOut served upstream,
          outcome = .returned result.text tokensIn tokensOut served upstream := by
  unfold enterProvider at h
  rw [Traced.result_bind_eq_ok_iff] at h
  obtain ⟨_, _, h⟩ := h
  cases outcome with
  | returned text tokensIn tokensOut served upstream =>
    have hshas : ∃ promptHash, (sha W args.prompt).result = .ok promptHash ∧ ∃ responseHash,
        (sha W text).result = .ok responseHash ∧ result.text = text := by
      by_cases hkey : (args.actorId.isSome && key.isSome) = true
      . simp only [if_pos hkey, Traced.result_bind_eq_ok_iff] at h
        obtain ⟨_, _, promptHash, hprompt, responseHash, htext, _, _, h⟩ := h
        cases h
        exact ⟨promptHash, hprompt, responseHash, htext, rfl⟩
      . simp only [if_neg hkey, Traced.result_bind_eq_ok_iff] at h
        obtain ⟨promptHash, hprompt, responseHash, htext, _, _, h⟩ := h
        cases h
        exact ⟨promptHash, hprompt, responseHash, htext, rfl⟩
    obtain ⟨_, hprompt, _, htext, heq⟩ := hshas
    refine ⟨encodable_of_sha hprompt, heq ▸ encodable_of_sha htext, tokensIn, tokensOut, served, upstream, by rw [heq]⟩
  | upstreamError code upstream upstreamStatus =>
    simp only [Traced.result_bind_eq_ok_iff] at h
    obtain ⟨_, _, _, _, h⟩ := h
    cases h
  | raised fault => cases h

theorem enterProvider_returned (posture : PrivilegePosture) (provider : Provider) (key : Option PyStr)
    (hprompt : Utf8Encodable args.prompt) {text : PyStr} (htext : Utf8Encodable text) (tokensIn tokensOut : Int)
    (served upstream : Option PyStr)
    : EndsWith .add args
          (enterProvider W args posture provider key (.returned text tokensIn tokensOut served upstream)).trace
        ∧ ∃ result, (enterProvider W args posture provider key
          (.returned text tokensIn tokensOut served upstream)).result = .ok result ∧ result.text = text := by
  have hshaPrompt : sha W args.prompt = pure (W.sha256.hexdigest args.prompt) := if_pos hprompt
  have hshaText : sha W text = pure (W.sha256.hexdigest text) := if_pos htext
  unfold enterProvider Requests.query Requests.auditLog Requests.add
  by_cases hkey : (args.actorId.isSome && key.isSome) = true
  . simp only [hkey, if_true, hshaPrompt, hshaText]
    refine ⟨⟨[.send _, .query], _, rfl, by simp, rfl⟩, _, rfl, rfl⟩
  . simp only [hkey, hshaPrompt, hshaText]
    refine ⟨⟨[.send _], _, rfl, by simp, rfl⟩, _, rfl, rfl⟩

/--
A call returns a text exactly if its provider does and the hashes are there.
-/
theorem call_returns_iff {outcome : ProviderOutcome} {text : PyStr}
    : (∃ result, (call W args outcome).result = .ok result ∧ result.text = text) ↔ Returns W args outcome text := by
  constructor
  . rintro ⟨result, hresult, rfl⟩
    unfold call at hresult
    obtain ⟨posture, hposture, hresult⟩ := Traced.result_bind_eq_ok_iff.mp hresult
    have hfound : posture? W args = some posture := by
      rw [← (effectivePosture_spec W args).right, hposture]
      rfl
    split at hresult
    . cases hresult
    . next hpaused =>
      obtain ⟨u, hgranted, hresult⟩ := Traced.result_bind_eq_ok_iff.mp hresult
      obtain ⟨key, hkey, hresult⟩ := Traced.result_bind_eq_ok_iff.mp hresult
      have hinvoke : mayInvoke W args = true := by
        rw [← (requireModelInvoke_spec W args).right, hgranted]
        rfl
      have havailable := (resolveKey_spec W args posture (W.gateway.selectProvider (requested W args) posture)).right
      rw [hkey] at havailable
      refine ⟨?_, result_enterProvider _ _ _ hresult⟩
      unfold servingProvider
      rw [hfound, Option.bind_some, if_pos ⟨hpaused, hinvoke, havailable.symm⟩]
      rfl
  . rintro ⟨hserving, hprompt, htext, tokensIn, tokensOut, served, upstream, rfl⟩
    have ⟨provider, hprovider⟩ := Option.isSome_iff_exists.mp hserving
    have ⟨posture, key, _, _, hcall⟩ := call_of_servingProvider hprovider
      (.returned text tokensIn tokensOut served upstream)
    rw [hcall]
    exact (enterProvider_returned posture provider key hprompt htext _ _ _ _).right

/--
A call that returns looks up the posture, and ends with the row that it adds.
-/
theorem endsAdding_call {outcome : ProviderOutcome} {text : PyStr} (h : Returns W args outcome text)
    : ∃ rest, (call W args outcome).trace = (effectivePosture W args).trace ++ rest ∧ EndsWith .add args rest := by
  obtain ⟨hserving, hprompt, htext, tokensIn, tokensOut, served, upstream, rfl⟩ := h
  have ⟨provider, hprovider⟩ := Option.isSome_iff_exists.mp hserving
  have ⟨posture, key, rest, hreads, hcall⟩ := call_of_servingProvider hprovider
    (.returned text tokensIn tokensOut served upstream)
  rw [hcall]
  exact ⟨_, rfl, (enterProvider_returned posture provider key hprompt htext _ _ _ _).left.append hreads⟩

/--
A call on a matter is safe, unless it fails on record while a row of the matter has not been committed.
-/
theorem safe_call_iff {s : Requests.RequestSession} (hs : s.waiting = false) {matterId : Uuid}
    (hmatter : args.matterId = some matterId) (outcome : ProviderOutcome)
    : s.Safe Row.scope (call W args outcome).trace
        ↔ ¬ (FailsOnRecord W args outcome ∧ Uncommitted Row.scope s (some matterId)) := by
  by_cases hfails : FailsOnRecord W args outcome
  . have ⟨rest, htrace, before, row, hrest, hreads, hrow⟩ := endsOutOfBand_call hfails
    have hposture : (effectivePosture W args).trace = [.query] := by
      unfold effectivePosture Requests.query
      rw [hmatter]
      dsimp only
      cases W.postures matterId <;> rfl
    have hscope : Row.scope (.audit row) = some (some matterId) := by rw [← hmatter, ← hrow]; rfl
    rw [htrace, hposture, hrest, List.singleton_append, safe_query_reads_outOfBand_iff hs hreads hscope]
    simp only [hfails, true_and]
  . refine iff_of_true (safe_of_sameConnection (sameConnection_call hfails)) fun h => hfails h.left

end Trace

end ModelGateway
