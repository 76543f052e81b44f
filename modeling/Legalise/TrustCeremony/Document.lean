import Legalise.TrustCeremony.PermissionCard

/-!
This module contains the reading of manifests: the members of a JSON document that the repository looks
at, as far as the schema accepts them.
-/

namespace TrustCeremony

section Members

def text? : Json → Option PyStr
  | .str s => some s
  | _ => none

def bool? : Json → Option Bool
  | .bool b => some b
  | _ => none

def texts? : Json → Option (List PyStr)
  | .list vs => vs.mapM text?
  | _ => none

/--
A member out of an `enum`.
-/
def oneOf {α : Type} (values : List (PyStr × α)) (v : Json) : Option α := do
  let s ← text? v
  values.lookup s

def member {α : Type} (read : Json → Option α) (document : Dict) (key : PyStr) : Option α := do
  let v ← List.lookup key document
  read v

/--
A member that is not required.
-/
def optionalMember {α : Type} (read : Json → Option α) (document : Dict) (key : PyStr)
    : Option (Option α) :=
  match List.lookup key document with
  | some v => (read v).map some
  | none => some none

end Members

section Enums

def kinds : List (PyStr × CapabilityKind) :=
  [
    (py "skill", .skill), (py "tool", .tool), (py "workflow", .workflow), (py "provider", .provider),
    (py "gate", .gate)
  ]

def scopes : List (PyStr × CapabilityScope) :=
  [(py "matter", .matter), (py "workspace", .workspace), (py "global", .global)]

def modelAccesses : List (PyStr × ModelAccess) :=
  [
    (py "none", .none), (py "optional", .optional), (py "required", .required),
    (py "delegated", .delegated)
  ]

def adviceTiers : List (PyStr × AdviceTier) :=
  tierOrder.map fun tier => (tier.text, tier)

def visibilities : List (PyStr × Visibility) :=
  [
    (py "first_party", .firstParty), (py "community", .community), (py "firm_private", .firmPrivate),
    (py "example", .example), (py "partner_track", .partnerTrack)
  ]

end Enums

section Read

def readDataMovement : Json → Option DataMovement
  | .dict d => do
    let sendsDocumentBody ← optionalMember bool? d (py "sends_document_body")
    let sendsDocumentBinary ← optionalMember bool? d (py "sends_document_binary")
    let sendsMatterMetadata ← optionalMember bool? d (py "sends_matter_metadata")
    let externalDestinations ← optionalMember texts? d (py "external_destinations")
    let localOnly ← optionalMember bool? d (py "local_only")
    return {
      sendsDocumentBody := sendsDocumentBody
      sendsDocumentBinary := sendsDocumentBinary
      sendsMatterMetadata := sendsMatterMetadata
      externalDestinations := externalDestinations
      localOnly := localOnly
    }
  | _ => none

def readUiSlot : Json → Option PyStr
  | .dict d => member text? d (py "slot")
  | _ => none

def readCapability : Json → Option Capability
  | .dict d => do
    let id ← member text? d (py "id")
    let kind ← member (oneOf kinds) d (py "kind")
    let scope ← member (oneOf scopes) d (py "scope")
    let reads ← member texts? d (py "reads")
    let writes ← member texts? d (py "writes")
    let modelAccess ← member (oneOf modelAccesses) d (py "model_access")
    let externalNetwork ← member bool? d (py "external_network")
    let dataMovement ← member readDataMovement d (py "data_movement")
    let gates ← member texts? d (py "gates")
    let uiSlot ← member readUiSlot d (py "ui")
    let adviceTierMax ← member (oneOf adviceTiers) d (py "advice_tier_max")
    let auditEvents ← member texts? d (py "audit_events")
    return {
      id := id
      kind := kind
      scope := scope
      reads := reads
      writes := writes
      modelAccess := modelAccess
      externalNetwork := externalNetwork
      dataMovement := dataMovement
      gates := gates
      uiSlot := uiSlot
      adviceTierMax := adviceTierMax
      auditEvents := auditEvents
    }
  | _ => none

def readDependency : Json → Option Dependency
  | .dict d => do
    let moduleId ← member text? d (py "module_id")
    let version ← optionalMember text? d (py "version")
    let capability ← optionalMember text? d (py "capability")
    return { moduleId := moduleId, version := version, capability := capability }
  | _ => none

def listOf {α : Type} (read : Json → Option α) : Json → Option (List α)
  | .list vs => vs.mapM read
  | _ => none

/--
The manifest that a document is, unless one of the members that are read breaks the schema.
-/
def readManifest (document : Dict) : Option Manifest := do
  let id ← member text? document (py "id")
  let name ← member text? document (py "name")
  let version ← member text? document (py "version")
  let publisher ← member text? document (py "publisher")
  let visibility ← member (oneOf visibilities) document (py "visibility")
  let capabilities ← member (listOf readCapability) document (py "capabilities")
  let requires ← optionalMember (listOf readDependency) document (py "requires")
  let signedBy ← optionalMember text? document (py "signed_by")
  let sourceUrl ← optionalMember text? document (py "source_url")
  if h : capabilities ≠ [] then
    return {
      id := id
      name := name
      version := version
      publisher := publisher
      visibility := visibility
      capabilities := capabilities
      capabilities_ne_nil := h
      requires := requires.getD []
      signedBy := signedBy
      sourceUrl := sourceUrl
    }
  else none

end Read

/--
A document that has been validated, with the manifest it is.
-/
structure ModuleDocument where
  document : Dict
  manifest : Manifest
  readManifest_eq : readManifest document = some manifest

end TrustCeremony
