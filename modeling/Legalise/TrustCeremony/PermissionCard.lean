import Legalise.AdviceBoundary.Gate
import Legalise.Lib.Sweep

/-!
This module contains v2 manifests and the permission card that the trust ceremony renders from one.
-/

namespace TrustCeremony

open AdviceBoundary

section Manifest

inductive CapabilityKind where
  | skill
  | tool
  | workflow
  | provider
  | gate
  deriving DecidableEq

inductive CapabilityScope where
  | matter
  | workspace
  | global
  deriving DecidableEq

inductive ModelAccess where
  | none
  | optional
  | required
  | delegated
  deriving DecidableEq

inductive AdviceTier where
  | factualExtraction
  | legalInformation
  | draftAdvice
  | supervisedLegalAdvice
  | approvedFinalAdvice
  deriving DecidableEq

inductive Visibility where
  | firstParty
  | community
  | firmPrivate
  | example
  | partnerTrack
  deriving DecidableEq

def AdviceTier.text : AdviceTier → PyStr
  | .factualExtraction => adviceTierFactualExtraction
  | .legalInformation => adviceTierLegalInformation
  | .draftAdvice => adviceTierDraftAdvice
  | .supervisedLegalAdvice => adviceTierSupervisedLegalAdvice
  | .approvedFinalAdvice => adviceTierApprovedFinalAdvice

/--
The members of `data_movement`, all of which may be missing.
-/
structure DataMovement where
  sendsDocumentBody : Option Bool := none
  sendsDocumentBinary : Option Bool := none
  sendsMatterMetadata : Option Bool := none
  externalDestinations : Option (List PyStr) := none
  localOnly : Option Bool := none
  deriving DecidableEq

/--
A capability of a manifest that the schema accepts.
-/
structure Capability where
  id : PyStr
  kind : CapabilityKind
  scope : CapabilityScope
  reads : List PyStr
  writes : List PyStr
  modelAccess : ModelAccess
  externalNetwork : Bool
  dataMovement : DataMovement
  gates : List PyStr
  uiSlot : PyStr
  adviceTierMax : AdviceTier
  auditEvents : List PyStr
  deriving DecidableEq

/--
A dependency on another module, with a version range and a capability.
-/
structure Dependency where
  moduleId : PyStr
  version : Option PyStr := none
  capability : Option PyStr := none
  deriving DecidableEq

/--
A manifest that the schema accepts.
-/
structure Manifest where
  id : PyStr
  name : PyStr
  version : PyStr
  publisher : PyStr
  visibility : Visibility
  capabilities : List Capability
  capabilities_ne_nil : capabilities ≠ []
  requires : List Dependency := []
  signedBy : Option PyStr := none
  sourceUrl : Option PyStr := none
  deriving DecidableEq

end Manifest

section Aggregates

/--
`sorted(set(xs))`
-/
def sortedSet (xs : List PyStr) : List PyStr :=
  Sweep.sortBy id xs.dedup

@[simp]
theorem mem_sortedSet {xs : List PyStr} {x : PyStr} : x ∈ sortedSet xs ↔ x ∈ xs := by
  simp [sortedSet]

structure DataMovementSummary where
  sendsDocumentBody : Bool
  sendsDocumentBinary : Bool
  sendsMatterMetadata : Bool
  externalDestinations : List PyStr
  localOnly : Bool

variable (manifest : Manifest)

/--
Whether some capability has a flag of `data_movement` set.
-/
def anyFlag (flag : DataMovement → Option Bool) : Bool :=
  manifest.capabilities.any fun cap => (flag cap.dataMovement).getD false

def allDestinations : List PyStr :=
  manifest.capabilities.flatMap fun cap => cap.dataMovement.externalDestinations.getD []

/--
`_aggregate_data_movement`
-/
def aggregateDataMovement : DataMovementSummary where
  sendsDocumentBody := anyFlag manifest DataMovement.sendsDocumentBody
  sendsDocumentBinary := anyFlag manifest DataMovement.sendsDocumentBinary
  sendsMatterMetadata := anyFlag manifest DataMovement.sendsMatterMetadata
  externalDestinations := sortedSet (allDestinations manifest)
  localOnly :=
    manifest.capabilities.all (fun cap => cap.dataMovement.localOnly != some false)
      && (allDestinations manifest).isEmpty

/--
`_aggregate_gates`
-/
def aggregateGates : List PyStr :=
  sortedSet (manifest.capabilities.flatMap Capability.gates)

/--
`_aggregate_audit_events`
-/
def aggregateAuditEvents : List PyStr :=
  sortedSet (manifest.capabilities.flatMap Capability.auditEvents)

def tierOrder : List AdviceTier :=
  [.factualExtraction, .legalInformation, .draftAdvice, .supervisedLegalAdvice, .approvedFinalAdvice]

/--
`_highest_tier` of the trust ceremony.
-/
def highestTier : AdviceTier :=
  manifest.capabilities.foldl (fun highest cap =>
    if tierOrder.idxOf highest < tierOrder.idxOf cap.adviceTierMax then cap.adviceTierMax else highest)
    .factualExtraction

end Aggregates

section Card

structure CardCapability where
  id : PyStr
  kind : CapabilityKind
  scope : CapabilityScope
  reads : List PyStr
  writes : List PyStr
  modelAccess : ModelAccess
  externalNetwork : Bool
  adviceTierMax : AdviceTier
  uiSlot : PyStr
  deriving DecidableEq

/--
The signature status is filled in later.
-/
structure PermissionCard where
  moduleId : PyStr
  moduleName : PyStr
  publisher : PyStr
  publisherVerified : Bool
  visibility : Visibility
  version : PyStr
  capabilities : List CardCapability
  dataMovementSummary : DataMovementSummary
  gates : List PyStr
  adviceTierMax : AdviceTier
  auditEvents : List PyStr
  dependencies : List Dependency

def Capability.onCard (cap : Capability) : CardCapability where
  id := cap.id
  kind := cap.kind
  scope := cap.scope
  reads := cap.reads
  writes := cap.writes
  modelAccess := cap.modelAccess
  externalNetwork := cap.externalNetwork
  adviceTierMax := cap.adviceTierMax
  uiSlot := cap.uiSlot

def buildPermissionCard (isVerifiedPublisher : PyStr → Bool) (manifest : Manifest) : PermissionCard where
  moduleId := manifest.id
  moduleName := manifest.name
  publisher := manifest.publisher
  publisherVerified := isVerifiedPublisher manifest.publisher
  visibility := manifest.visibility
  version := manifest.version
  capabilities := manifest.capabilities.map Capability.onCard
  dataMovementSummary := aggregateDataMovement manifest
  gates := aggregateGates manifest
  adviceTierMax := highestTier manifest
  auditEvents := aggregateAuditEvents manifest
  dependencies := manifest.requires

end Card

section Snapshot

/--
A capability of a permission snapshot. The card leaves out the gates and the data movement.
-/
structure SnapshotCapability where
  capability : CardCapability
  gates : Option (List PyStr) := none
  dataMovement : Option DataMovement := none

/--
What the diff of permissions reads. The permissions of an installed module have the summaries of the
card, a manifest as it stands has none of them.
-/
structure Snapshot where
  dataMovement : Option DataMovementSummary := none
  gates : Option (List PyStr) := none
  adviceTierMax : Option AdviceTier := none
  auditEvents : Option (List PyStr) := none
  capabilities : List SnapshotCapability

/--
The `permissions_snapshot` of an installed module.
-/
def PermissionCard.snapshot (card : PermissionCard) : Snapshot where
  dataMovement := some card.dataMovementSummary
  gates := some card.gates
  adviceTierMax := some card.adviceTierMax
  auditEvents := some card.auditEvents
  capabilities := card.capabilities.map fun cap => { capability := cap }

def Manifest.asSnapshot (manifest : Manifest) : Snapshot where
  capabilities := manifest.capabilities.map fun cap =>
    { capability := cap.onCard, gates := some cap.gates, dataMovement := some cap.dataMovement }

end Snapshot

end TrustCeremony
