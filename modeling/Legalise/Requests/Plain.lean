import Legalise.Requests.Basic

/-!
This module contains the parts of a request that refuse nothing but a capability, and those that do not write on
another connection.
-/

namespace Requests

open Capabilities (GrantTable CapabilityDenied)
open LockingSession Session

variable {α β : Type}

/--
The part returns without a commit, and a capability that it denies is committed last. It raises no refusal of a
gate.
-/
structure Plain (x : Request α) : Prop where
  quiet : ∀ a, x.result = .ok a → Quiet x.trace
  denied : ∀ denied, x.result = .error (.capabilityDenied denied)
    → ∃ before, Quiet before ∧ x.trace = before ++ [.add (deniedRow denied), .commit]
  posture : ∀ result, x.result ≠ .error (.postureBlocked result)
  advice : ∀ decisionId gateState, x.result ≠ .error (.adviceBoundaryDenied decisionId gateState)

/--
A part that returns a value without commands that end the transaction.
-/
theorem Plain.of_ok {x : Request α} {a : α} (hresult : x.result = .ok a) (hquiet : Quiet x.trace) : Plain x where
  quiet _ _ := hquiet
  denied _ h := by
    rw [hresult] at h
    cases h
  posture _ h := by
    rw [hresult] at h
    cases h
  advice _ _ h := by
    rw [hresult] at h
    cases h

theorem Plain.pure (a : α) : Plain (pure a : Request α) :=
  .of_ok rfl quiet_nil

theorem Plain.query : Plain query :=
  .of_ok rfl (by simp [Requests.query])

theorem Plain.add (row : Row) : Plain (add row) :=
  .of_ok rfl (by simp [Requests.add])

theorem Plain.auditLog (entry : AuditRow) : Plain (auditLog entry) :=
  .add _

/--
What is raised is no refusal.
-/
inductive Unrefused : Err → Prop where
  | privilegePaused (message : PyStr) : Unrefused (.privilegePaused message)
  | providerKeyMissing (provider : PyStr) : Unrefused (.providerKeyMissing provider)
  | providerUpstream (code provider : PyStr) (upstreamStatus : Option Int)
    : Unrefused (.providerUpstream code provider upstreamStatus)
  | capabilityNotDeclared (moduleId capabilityId : PyStr) : Unrefused (.capabilityNotDeclared moduleId capabilityId)
  | fault (fault : Fault) : Unrefused (.fault fault)

theorem Plain.of_error {x : Request α} {e : Err} (hresult : x.result = .error e) (he : Unrefused e) : Plain x where
  quiet _ h := by
    rw [hresult] at h
    cases h
  denied _ h := by
    rw [hresult] at h
    cases h
    cases he
  posture _ h := by
    rw [hresult] at h
    cases h
    cases he
  advice _ _ h := by
    rw [hresult] at h
    cases h
    cases he

theorem Plain.fault (fault : Fault) : Plain (Traced.raise (.fault fault) : Request α) :=
  .of_error rfl (.fault fault)

theorem Plain.ofFault (result : Except Fault α) : Plain (ofFault result) := by
  cases result with
  | ok a => exact .of_ok rfl quiet_nil
  | error fault => exact .of_error rfl (.fault fault)

theorem Plain.bind {x : Request α} {f : α → Request β} (hx : Plain x) (hf : ∀ a, x.result = .ok a → Plain (f a))
    : Plain (x >>= f) := by
  cases h : x.result with
  | ok a =>
    rw [Traced.bind_of_ok h]
    have hquiet := hx.quiet a h
    have hfa := hf a h
    constructor
    . intro b hb
      exact quiet_append.mpr ⟨hquiet, hfa.quiet b hb⟩
    . intro denied hdenied
      have ⟨before, hbefore, htrace⟩ := hfa.denied denied hdenied
      refine ⟨x.trace ++ before, quiet_append.mpr ⟨hquiet, hbefore⟩, ?_⟩
      dsimp only
      rw [htrace, List.append_assoc]
    . exact hfa.posture
    . exact hfa.advice
  | error e =>
    rw [Traced.bind_of_error h]
    constructor
    . intro b hb
      cases hb
    . intro denied hdenied
      cases hdenied
      exact hx.denied denied h
    . intro result hresult
      cases hresult
      exact hx.posture result h
    . intro decisionId gateState hresult
      cases hresult
      exact hx.advice decisionId gateState h

theorem Plain.requireCapability (grants : GrantTable) (userId : Uuid) (plugin skill capability : PyStr)
    (matterId : Option Uuid) : Plain (requireCapability grants userId plugin skill capability matterId) := by
  unfold Requests.requireCapability
  refine Plain.query.bind fun _ _ => ?_
  cases Capabilities.requireCapability grants userId plugin skill capability matterId with
  | ok _ => exact .pure ()
  | error denied =>
    constructor
    . intro _ h
      cases h
    . intro other h
      cases h
      exact ⟨[], quiet_nil, rfl⟩
    . intro _ h
      cases h
    . intro _ _ h
      cases h

theorem sameConnection_bind {x : Request α} {f : α → Request β} (hx : SameConnection x.trace)
    (hf : ∀ a, x.result = .ok a → SameConnection (f a).trace) : SameConnection (x >>= f).trace := by
  cases h : x.result with
  | ok a =>
    rw [Traced.bind_of_ok h]
    exact sameConnection_append.mpr ⟨hx, hf a h⟩
  | error e =>
    rw [Traced.bind_of_error h]
    exact hx

/--
A sequence is safe exactly if its first part is, and what follows is safe from there.
-/
theorem safe_bind {s : RequestSession} {x : Request α} {f : α → Request β}
    : s.Safe Row.scope (x >>= f).trace
        ↔
      s.Safe Row.scope x.trace
        ∧ ∀ a, x.result = .ok a → (s.run Row.scope x.trace).Safe Row.scope (f a).trace := by
  cases h : x.result with
  | ok a =>
    rw [Traced.bind_of_ok h, safe_append]
    simp
  | error e =>
    rw [Traced.bind_of_error h]
    simp

/--
A part is as safe as its beginning, if the rest of it stays on the connection.
-/
theorem safe_bind_iff {s : RequestSession} {x : Request α} {f : α → Request β}
    (hf : ∀ a, x.result = .ok a → SameConnection (f a).trace)
    : s.Safe Row.scope (x >>= f).trace ↔ s.Safe Row.scope x.trace :=
  safe_bind.trans (and_iff_left fun a h => safe_of_sameConnection (hf a h))

theorem sameConnection_query : SameConnection query.trace := by
  simp [SameConnection, query]

theorem sameConnection_add (row : Row) : SameConnection (add row).trace := by
  simp [SameConnection, add]

theorem sameConnection_commit : SameConnection commit.trace := by
  simp [SameConnection, commit]

theorem sameConnection_ofFault (result : Except Fault α) : SameConnection (ofFault result).trace :=
  sameConnection_nil

theorem sameConnection_requireCapability (grants : GrantTable) (userId : Uuid) (plugin skill capability : PyStr)
    (matterId : Option Uuid)
    : SameConnection (requireCapability grants userId plugin skill capability matterId).trace := by
  unfold requireCapability
  refine sameConnection_bind sameConnection_query fun _ _ => ?_
  cases Capabilities.requireCapability grants userId plugin skill capability matterId with
  | ok _ => exact sameConnection_nil
  | error denied =>
    exact sameConnection_bind (sameConnection_add _) fun _ _ =>
      sameConnection_bind sameConnection_commit fun _ _ => sameConnection_nil

theorem reads_requireCapability {grants : GrantTable} {userId : Uuid} {plugin skill capability : PyStr}
    {matterId : Option Uuid} {u : Unit}
    (h : (requireCapability grants userId plugin skill capability matterId).result = .ok u)
    : Reads (requireCapability grants userId plugin skill capability matterId).trace := by
  unfold requireCapability query add commit at h ⊢
  cases hcheck : Capabilities.requireCapability grants userId plugin skill capability matterId with
  | ok _ => exact reads_query_cons.mpr reads_nil
  | error denied =>
    simp only [hcheck] at h
    cases h

/--
A capability is required successfully exactly if it is granted.
-/
theorem isOk_requireCapability (grants : GrantTable) (userId : Uuid) (plugin skill capability : PyStr)
    (matterId : Option Uuid)
    : (requireCapability grants userId plugin skill capability matterId).result.isOk
        = (Capabilities.requireCapability grants userId plugin skill capability matterId).isOk := by
  unfold requireCapability query add commit
  cases Capabilities.requireCapability grants userId plugin skill capability matterId <;> rfl

end Requests
