import Legalise.Audit.Log
import Legalise.Signing.Basic
import Legalise.TrustCeremony.Document

/-!
This module contains the state machine of the trust ceremony.
-/

namespace TrustCeremony

open Signing

inductive CeremonyState where
  | discovered
  | inspected
  | signatureChecked
  | publisherChecked
  | permissionsReviewed
  | gatesReviewed
  | granted
  | enabled
  | rejectedByUser
  | signatureFailed
  | publisherBlocked
  | permissionDenied
  | sandboxProfileMissing
  deriving DecidableEq

namespace CeremonyState

def value : CeremonyState → PyStr
  | .discovered => py "discovered"
  | .inspected => py "inspected"
  | .signatureChecked => py "signature_checked"
  | .publisherChecked => py "publisher_checked"
  | .permissionsReviewed => py "permissions_reviewed"
  | .gatesReviewed => py "gates_reviewed"
  | .granted => py "granted"
  | .enabled => py "enabled"
  | .rejectedByUser => py "rejected_by_user"
  | .signatureFailed => py "signature_failed"
  | .publisherBlocked => py "publisher_blocked"
  | .permissionDenied => py "permission_denied"
  | .sandboxProfileMissing => py "sandbox_profile_missing"

def terminalFailures : List CeremonyState :=
  [.rejectedByUser, .signatureFailed, .publisherBlocked, .permissionDenied, .sandboxProfileMissing]

/--
No action goes on from here.
-/
def final (state : CeremonyState) : Bool :=
  state ∈ terminalFailures || state = .enabled

end CeremonyState

inductive Action where
  | trust
  | reject
  | grant
  deriving DecidableEq

structure HistoryEntry where
  state : CeremonyState
  action : PyStr
  payload : Option Dict

/--
An install ceremony in the memory of the process. The signature status is the one on the permission card.
-/
structure Ceremony where
  id : Uuid
  module : ModuleDocument
  state : CeremonyState
  fastPath : Bool
  permissionCard : PermissionCard
  signatureStatus : SignatureStatus
  actorUserId : Uuid
  history : List HistoryEntry := []
  persisted : Bool := false

def Ceremony.moduleId (ceremony : Ceremony) : PyStr :=
  ceremony.module.manifest.id

def statusValue : SignatureStatus → PyStr
  | .verified => py "verified"
  | .structureVerified => py "structure_verified"
  | .unsigned => py "unsigned"
  | .invalid => py "invalid"
  | .unknownPublisher => py "unknown_publisher"

/--
`_emit_state_transition`: the entry of the history, and the audit row that the session gets.
-/
def emitStateTransition (ceremony : Ceremony) (action : PyStr) (payload : Option Dict)
    : Ceremony × AuditLog :=
  (
    { ceremony with history := ceremony.history ++ [⟨ceremony.state, action, payload⟩] },
    {
      action := action
      actorId := some ceremony.actorUserId
      module := some (py "core.trust_ceremony")
      resourceType := some (py "install_ceremony")
      resourceId := some ceremony.id.str
      payload :=
        [(py "ceremony_id", .str ceremony.id.str), (py "state", .str ceremony.state.value)]
          ++ payload.getD [] ++ [(py "module_id", .str ceremony.moduleId)]
    }
  )

section Start

variable (verify : Dict → Option PyStr → Except SigningError SignatureResult)
variable (isVerifiedPublisher : PyStr → Bool)

/--
The fast path takes a verified signature of a verified publisher.
-/
def startCeremony (id : Uuid) (module : ModuleDocument) (actorUserId : Uuid) (signature : Option PyStr)
    : Except SigningError (Ceremony × AuditLog) := do
  let card := buildPermissionCard isVerifiedPublisher module.manifest
  let sigResult ← verify module.document signature
  let fastPath := sigResult.status = .verified && card.publisherVerified
  return emitStateTransition
    {
      id := id
      module := module
      state := .discovered
      fastPath := fastPath
      permissionCard := card
      signatureStatus := sigResult.status
      actorUserId := actorUserId
    }
    (py "module.discovered")
    (some [
      (py "publisher", .str card.publisher),
      (py "publisher_verified", .bool card.publisherVerified),
      (py "signature_status", .str (statusValue sigResult.status)),
      (py "fast_path", .bool fastPath)
    ])

end Start

/--
`_next_state`, with the text of the `InvalidCeremonyTransition`.
-/
def nextState (ceremony : Ceremony) (action : Action) : Except PyStr CeremonyState :=
  if action = .grant then
    if ceremony.state = .granted then .ok .enabled
    else
      .error (py "action='grant' is only valid from state='granted', current state='"
        ++ ceremony.state.value ++ py "'")
  else if ceremony.fastPath then
    .ok <| match ceremony.state with
      | .discovered => .publisherChecked
      | .publisherChecked => .permissionsReviewed
      | .permissionsReviewed => .granted
      | .granted => .enabled
      | current => current
  else
    .ok <| match ceremony.state with
      | .discovered => .inspected
      | .inspected => .signatureChecked
      | .signatureChecked => .publisherChecked
      | .publisherChecked => .permissionsReviewed
      | .permissionsReviewed => .gatesReviewed
      | .gatesReviewed => .granted
      | .granted => .enabled
      | current => current

def auditForState : CeremonyState → PyStr
  | .inspected => py "module.manifest.inspected"
  | .signatureChecked => py "module.signature.checked"
  | .publisherChecked => py "module.publisher.checked"
  | .permissionsReviewed => py "module.permissions.reviewed"
  | .gatesReviewed => py "module.permissions.reviewed"
  | .granted => py "module.grant.created"
  | .enabled => py "module.enabled"
  | _ => py "module.state_transition"

/--
`advance_ceremony` of a known ceremony: the ceremony as it is in memory afterwards, and the audit rows
that the session gets.
-/
def advanceCeremony (ceremony : Ceremony) (action : Action) : Except PyStr (Ceremony × List AuditLog) :=
  if ceremony.state.final then .ok (ceremony, [])
  else if action = .reject then
    let (ceremony, row) := emitStateTransition { ceremony with state := .rejectedByUser }
      (py "module.denied") (some [(py "reason", .str (py "rejected_by_user"))])
    .ok (ceremony, [row])
  else do
    let next ← nextState ceremony action
    let (ceremony, row) := emitStateTransition { ceremony with state := next } (auditForState next) none
    return (ceremony, [row])

end TrustCeremony
