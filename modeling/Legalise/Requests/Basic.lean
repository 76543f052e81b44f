import Legalise.AdviceBoundary.Gate
import Legalise.Capabilities.Grants
import Legalise.Lib.LockingSession

/-!
This module contains what the requests of the workspace do to their sessions: the rows that they write, the
exceptions that leave them, and the checks of grants and audit calls that all of them share.
-/

namespace Requests

open AuditReconstruction (AdviceBoundaryDecision)
open Capabilities (GrantTable CapabilityDenied)
open LockingSession (Command Session)

/--
A row of `audit_entries`. The gateway call that it is about is not a column.
-/
structure AuditRow extends AuditLog where
  modelUsed : Option PyStr := none
  promptHash : Option PyStr := none
  responseHash : Option PyStr := none
  tokenCount : Option Int := none
  call : Option Nat := none

inductive Role where
  | user
  | assistant
  deriving DecidableEq

/--
A retrieved passage that a reply rests on.
-/
structure AssistantSource where
  documentId : Uuid
  title : PyStr
  snippet : PyStr
  charStart : Int
  charEnd : Int
  score : PyFloat

structure SuggestedAction where
  type : PyStr
  label : PyStr
  params : List (PyStr × PyStr)

/--
A row of `assistant_messages`.
-/
structure AssistantMessage where
  threadId : Uuid
  role : Role
  content : PyStr
  suggestedActions : List SuggestedAction := []
  sources : List AssistantSource := []
  modelUsed : Option PyStr := none
  promptHash : Option PyStr := none
  responseHash : Option PyStr := none
  tokenCount : Option Int := none

/--
What a request writes. `rollingSummary` is the update of a thread.
-/
inductive Row where
  | audit (entry : AuditRow)
  | decision (decision : AdviceBoundaryDecision)
  | message (message : AssistantMessage)
  | rollingSummary (threadId : Uuid) (summary : PyStr)
  | artifact (id : Uuid)

/--
The scope whose lock the insert of a row takes: the matter of an audit row, or the workspace.
-/
def Row.scope : Row → Option (Option Uuid)
  | .audit entry => some entry.matterId
  | _ => none

/--
A prompt that has been handed to a provider, with the tokens that it reports for it.
-/
structure SentCall where
  call : Nat
  provider : PyStr
  prompt : PyStr
  tokens : Int

/--
`PostureGateResult`
-/
structure PostureGateResult where
  allowed : Bool
  posture : PyStr
  requiredRole : PyStr
  actorRole : Option PyStr
  reason : Option PyStr := none

/--
The exceptions that no part of the workspace raises on purpose to refuse something: a `ValueError`, or any
other type.
-/
inductive Fault where
  | valueError (message : PyStr)
  | other

inductive Err where
  | privilegePaused (message : PyStr)
  | providerKeyMissing (provider : PyStr)
  | providerUpstream (code provider : PyStr) (upstreamStatus : Option Int)
  | capabilityDenied (denied : CapabilityDenied)
  | postureBlocked (result : PostureGateResult)
  | adviceBoundaryDenied (decisionId : Uuid) (gateState : Dict)
  | capabilityNotDeclared (moduleId capabilityId : PyStr)
  | entrypointResolution (message : PyStr)
  | fault (fault : Fault)

def Err.valueError (message : PyStr) : Err :=
  .fault (.valueError message)

abbrev Cmd := Command Row SentCall

abbrev RequestSession := Session Row SentCall

/--
A part of a request.
-/
abbrev Request := Traced Cmd Err

/--
`session.execute`, `session.scalar` and `session.flush`
-/
def query : Request Unit := Traced.issue .query

def commit : Request Unit := Traced.issue .commit

/--
`session.add`
-/
def add (row : Row) : Request Unit := Traced.issue (.add row)

/--
`audit.log`
-/
def auditLog (entry : AuditRow) : Request Unit := add (.audit entry)

/--
`audit_failure`, which is also `audit_out_of_band`
-/
def auditFailure (entry : AuditRow) : Request Unit := Traced.issue (.outOfBand (.audit entry))

/--
A part that issues no commands and raises no refusal.
-/
def ofFault {α : Type} (result : Except Fault α) : Request α :=
  Traced.lift (result.mapError .fault)

/--
The audit row of a denied capability.
-/
def deniedRow (denied : CapabilityDenied) : Row :=
  .audit { denied.audit with }

/--
`require_capability`, which commits its row before it raises.
-/
def requireCapability (grants : GrantTable) (userId : Uuid) (plugin skill capability : PyStr)
    (matterId : Option Uuid) : Request Unit := do
  query
  match Capabilities.requireCapability grants userId plugin skill capability matterId with
  | .ok () => pure ()
  | .error denied => do
    add (deniedRow denied)
    commit
    Traced.raise (.capabilityDenied denied)

end Requests
