import Legalise.Capabilities.Grants
import Legalise.GrantsLifecycle.Expansion
import Legalise.TrustCeremony.Ceremony

/-!
This module contains the installed modules, the requests that write them and the requests that drive
install ceremonies. A ceremony lives in the memory of the process, everything else in the database, and a
request that fails rolls back what it has not committed.
-/

namespace Modules

open Signing TrustCeremony GrantsLifecycle

section Tables

/--
A row of `installed_modules`. Moments are counted in microseconds.
-/
structure InstalledModule where
  id : Uuid
  moduleId : PyStr
  version : PyStr
  publisher : PyStr
  visibility : Visibility
  signatureStatus : SignatureStatus
  signedBy : Option PyStr
  verifiedAt : Option Nat
  installPath : PyStr
  manifestSnapshot : ModuleDocument
  permissionsSnapshot : Snapshot
  installedAt : Nat
  installedByUserId : Uuid
  enabled : Bool

/--
The columns of `uq_installed_modules_module_id_version`.
-/
def InstalledModule.key (row : InstalledModule) : PyStr × PyStr :=
  (row.moduleId, row.version)

structure InstalledTable where
  rows : List InstalledModule
  ids : (rows.map InstalledModule.id).Nodup
  keys : (rows.map InstalledModule.key).Nodup

namespace InstalledTable

def empty : InstalledTable where
  rows := []
  ids := List.nodup_nil
  keys := List.nodup_nil

/--
The table with other rows, unless they violate a constraint.
-/
def write? (rows : List InstalledModule) : Option InstalledTable :=
  if h : (rows.map InstalledModule.id).Nodup ∧ (rows.map InstalledModule.key).Nodup then
    some ⟨rows, h.left, h.right⟩
  else none

/--
Set some columns of one row.
-/
def set? (t : InstalledTable) (id : Uuid) (set : InstalledModule → InstalledModule)
    : Option InstalledTable :=
  write? (t.rows.map fun row => if row.id = id then set row else row)

/--
The rows of a module that no other one of its rows is newer than.
-/
def newest (t : InstalledTable) (moduleId : PyStr) : List InstalledModule :=
  t.rows.filter fun row =>
    row.moduleId = moduleId
      && t.rows.all fun other => other.moduleId ≠ moduleId || other.installedAt ≤ row.installedAt

/--
`ORDER BY installed_at DESC LIMIT 1`, which may return any of the newest rows.
-/
def first? (t : InstalledTable) (moduleId : PyStr) (pick : Nat) : Option InstalledModule :=
  (t.newest moduleId)[pick % (t.newest moduleId).length]?

end InstalledTable

/--
The ceremonies are in the memory of the process, the rest is committed.
-/
structure State where
  ceremonies : List Ceremony
  installed : InstalledTable
  grants : Capabilities.GrantTable
  audit : List AuditLog

/--
`_CEREMONIES[ceremony.id] = ceremony`
-/
def put (ceremonies : List Ceremony) (ceremony : Ceremony) : List Ceremony :=
  if ceremony.id ∈ ceremonies.map Ceremony.id then
    ceremonies.map fun c => if c.id = ceremony.id then ceremony else c
  else ceremonies ++ [ceremony]

def find? (ceremonies : List Ceremony) (id : Uuid) : Option Ceremony :=
  ceremonies.find? fun c => c.id = id

end Tables

/--
What the requests rely on: the keys and hashes of the signatures, the registry of publishers, the rules of
the schema for members that are not read, the import of entrypoints and the resolution of dependencies.
-/
structure Host where
  ed25519 : Ed25519
  sha256 : Bytes → Bytes
  repr : PyRepr
  registry : Registry
  accepts : Dict → Bool
  entrypointResolves : Dict → Bool
  dependenciesResolve : List InstalledModule → Dict → Bool

namespace Host

variable (host : Host)

def verify : Dict → Option PyStr → Except SigningError SignatureResult :=
  verifyManifestSignature host.ed25519 host.sha256 host.repr host.registry

/--
`validate_manifest_v2`
-/
def validate (document : Dict) : Option ModuleDocument :=
  match h : readManifest document with
  | some manifest => if host.accepts document then some ⟨document, manifest, h⟩ else none
  | none => none

end Host

/--
What a request returns: the response, with the moment of the admission if there was one, the answer to a
refused request, or nothing but an exception.
-/
inductive Outcome where
  | ceremony (ceremony : Ceremony) (admittedAt : Option Nat)
  | updated (moduleId newVersion : PyStr) (report : ExpansionReport) (ceremony : Option Ceremony)
  | revoked (moduleId : PyStr)
  | http (status : Nat) (error : PyStr)
  | raised
  | databaseError

/--
The user of a request.
-/
structure User where
  id : Uuid
  isSuperuser : Bool

/--
Where the database fails: on the flush of the installed row, or on the commit.
-/
inductive Fault where
  | flush
  | commit
  deriving DecidableEq

section Requests

variable (host : Host) (s : State) (user : User)

/--
The checks that a new manifest goes through before anything is written.
-/
def admissible (document : Dict) : Except PyStr ModuleDocument :=
  match host.validate document with
  | none => .error (py "invalid_manifest")
  | some module =>
    if !host.entrypointResolves document then .error (py "entrypoint_unresolvable")
    else if !host.dependenciesResolve s.installed.rows document then
      .error (py "dependencies_unsatisfied")
    else .ok module

/--
`start_ceremony`. The ceremony is registered before the request commits.
-/
def register (module : ModuleDocument) (signature : Option PyStr) (ceremonyId : Uuid)
    : Except SigningError (State × Ceremony × AuditLog) := do
  let (ceremony, row) ←
    startCeremony host.verify (isVerifiedPublisher host.registry) ceremonyId module user.id signature
  return ({ s with ceremonies := put s.ceremonies ceremony }, ceremony, row)

def startInstall (document : Dict) (signature : Option PyStr) (ceremonyId : Uuid) (fault : Option Fault)
    : State × Outcome :=
  if !user.isSuperuser then (s, .http 403 (py "admin_required"))
  else
    match admissible host s document with
    | .error error => (s, .http 422 error)
    | .ok module =>
      match register host s user module signature ceremonyId with
      | .error _ => (s, .raised)
      | .ok (s, ceremony, row) =>
        if fault = some .commit then (s, .databaseError)
        else ({ s with audit := s.audit ++ [row] }, .ceremony ceremony none)

/--
The columns that a re-admission sets.
-/
def refreshRow (ceremony : Ceremony) (row : InstalledModule) : InstalledModule :=
  {
    row with
    signatureStatus := ceremony.signatureStatus
    manifestSnapshot := ceremony.module
    permissionsSnapshot := ceremony.permissionCard.snapshot
    installPath :=
      match ceremony.module.manifest.sourceUrl with
      | some url => if url.isEmpty then row.installPath else url
      | none => row.installPath
    installedByUserId := user.id
    enabled := true
  }

def newRow (ceremony : Ceremony) (rowId : Uuid) (now : Nat) : InstalledModule :=
  let manifest := ceremony.module.manifest
  {
    id := rowId
    moduleId := manifest.id
    version := manifest.version
    publisher := manifest.publisher
    visibility := manifest.visibility
    signatureStatus := ceremony.signatureStatus
    signedBy := manifest.signedBy
    verifiedAt := if ceremony.fastPath then some now else none
    installPath :=
      match manifest.sourceUrl with
      | some url => if url.isEmpty then py "<inline>" else url
      | none => py "<inline>"
    manifestSnapshot := ceremony.module
    permissionsSnapshot := ceremony.permissionCard.snapshot
    installedAt := now
    installedByUserId := user.id
    enabled := true
  }

/--
The row that a ceremony refreshes.
-/
def sameVersion? (t : InstalledTable) (ceremony : Ceremony) : Option InstalledModule :=
  t.rows.find? fun row =>
    row.key = (ceremony.module.manifest.id, ceremony.module.manifest.version)

/--
`_persist_install`
-/
def persistInstall (t : InstalledTable) (ceremony : Ceremony) (rowId : Uuid) (now : Nat)
    : Option InstalledTable :=
  match sameVersion? t ceremony with
  | some existing => t.set? existing.id (refreshRow user ceremony)
  | none => InstalledTable.write? (t.rows ++ [newRow user ceremony rowId now])

/--
The row of a refused transition, which is committed on its own.
-/
def ceremonyRejected (ceremonyId : Uuid) (action : Action) (message : PyStr) : AuditLog where
  action := py "module.ceremony.rejected"
  actorId := some user.id
  module := some (py "core.trust_ceremony")
  payload := [
    (py "ceremony_id", .str ceremonyId.str),
    (
      py "requested_action",
      .str (match action with
        | .trust => py "trust"
        | .reject => py "reject"
        | .grant => py "grant")
    ),
    (py "reason", .str (py "invalid_transition")),
    (py "message", .str message)
  ]

/--
The request after the ceremony has been advanced: the install is persisted once, and then everything is
committed.
-/
def commitAdvance (ceremony : Ceremony) (audit : List AuditLog) (rowId : Uuid) (now : Nat)
    (fault : Option Fault) : State × Outcome :=
  let advanced := { s with ceremonies := put s.ceremonies ceremony }
  if ceremony.state = .enabled ∧ ceremony.persisted = false then
    if fault = some .flush then (advanced, .databaseError)
    else
      match persistInstall user s.installed ceremony rowId now with
      | none => (advanced, .databaseError)
      | some installed =>
        let persisted := { ceremony with persisted := true }
        let advanced := { s with ceremonies := put s.ceremonies persisted }
        if fault = some .commit then (advanced, .databaseError)
        else
          (
            { advanced with installed := installed, audit := s.audit ++ audit },
            .ceremony persisted (some now)
          )
  else if fault = some .commit then (advanced, .databaseError)
  else ({ advanced with audit := s.audit ++ audit }, .ceremony ceremony none)

def advanceInstall (ceremonyId : Uuid) (action : Action) (rowId : Uuid) (now : Nat)
    (fault : Option Fault) : State × Outcome :=
  if !user.isSuperuser then (s, .http 403 (py "admin_required"))
  else
    match find? s.ceremonies ceremonyId with
    | none => (s, .http 404 (py "ceremony_not_found"))
    | some ceremony =>
      match advanceCeremony ceremony action with
      | .error message =>
        if fault = some .commit then (s, .databaseError)
        else
          (
            { s with audit := s.audit ++ [ceremonyRejected user ceremonyId action message] },
            .http 409 (py "invalid_ceremony_transition")
          )
      | .ok (ceremony, audit) => commitAdvance s user ceremony audit rowId now fault

def getInstall (ceremonyId : Uuid) : State × Outcome :=
  match find? s.ceremonies ceremonyId with
  | none => (s, .http 404 (py "ceremony_not_found"))
  | some ceremony => (s, .ceremony ceremony none)

def moduleUpdated (moduleId : PyStr) (module : ModuleDocument) : AuditLog where
  action := py "module.updated"
  actorId := some user.id
  module := some moduleId
  resourceType := some (py "installed_module")
  resourceId := some moduleId
  payload :=
    [(py "new_version", .str module.manifest.version), (py "expansion_detected", .bool false)]

/--
The columns that an update in place sets.
-/
def updateRow (isVerifiedPublisher : PyStr → Bool) (module : ModuleDocument) (row : InstalledModule)
    : InstalledModule :=
  {
    row with
    version := module.manifest.version
    manifestSnapshot := module
    permissionsSnapshot := (buildPermissionCard isVerifiedPublisher module.manifest).snapshot
  }

/--
`update_module_endpoint`. Without an expansion the newest row gets the new manifest in place.
-/
def updateModule (moduleId : PyStr) (newManifest : Dict) (signature : Option PyStr) (ceremonyId : Uuid)
    (pick : Nat) (fault : Option Fault) : State × Outcome :=
  if !user.isSuperuser then (s, .http 403 (py "admin_required"))
  else
    match s.installed.first? moduleId pick with
    | none => (s, .http 404 (py "module_not_installed"))
    | some existing =>
      if (Dict.get newManifest (py "id")).pyEq (.str moduleId) = false then
        (s, .http 422 (py "module_id_mismatch"))
      else
        match admissible host s newManifest with
        | .error error => (s, .http 422 error)
        | .ok module =>
          let report := detectExpansion existing.permissionsSnapshot module.manifest.asSnapshot
          if requiresReprompt report then
            match register host s user module signature ceremonyId with
            | .error _ => (s, .raised)
            | .ok (s, ceremony, row) =>
              if fault = some .commit then (s, .databaseError)
              else
                ({ s with audit := s.audit ++ [row] },
                  .updated moduleId module.manifest.version report (some ceremony))
          else
            match s.installed.set? existing.id
              (updateRow (isVerifiedPublisher host.registry) module) with
            | none => (s, .databaseError)
            | some installed =>
              if fault = some .commit then (s, .databaseError)
              else
                (
                  { s with installed := installed, audit := s.audit ++ [moduleUpdated user moduleId module] },
                  .updated moduleId module.manifest.version report none
                )

/--
`revoke_module_endpoint`: all rows of the module are disabled, and its grants are deleted.
-/
def revokeModule (moduleId : PyStr) (fault : Option Fault) : State × Outcome :=
  let rows := s.installed.rows.filter fun row => row.moduleId = moduleId
  match Capabilities.revokeModule s.grants host.repr user.id user.isSuperuser moduleId rows.length with
  | .error (.http status _) =>
    (s, .http status (if status = 403 then py "admin_required" else py "module_not_installed"))
  | .error _ => (s, .raised)
  | .ok (grants, audit) =>
    match InstalledTable.write? (s.installed.rows.map fun row =>
      if row.moduleId = moduleId then { row with enabled := false } else row) with
    | none => (s, .databaseError)
    | some installed =>
      if fault = some .commit then (s, .databaseError)
      else
        ({ s with installed := installed, grants := grants, audit := s.audit ++ audit }, .revoked moduleId)

end Requests

/--
A request with its user. The ids, the moments and the faults are what the run of the request meets.
-/
inductive Request where
  | startInstall (user : User) (document : Dict) (signature : Option PyStr) (ceremonyId : Uuid)
    (fault : Option Fault)
  | advanceInstall (user : User) (ceremonyId : Uuid) (action : Action) (rowId : Uuid) (now : Nat)
    (fault : Option Fault)
  | getInstall (ceremonyId : Uuid)
  | updateModule (user : User) (moduleId : PyStr) (newManifest : Dict) (signature : Option PyStr)
    (ceremonyId : Uuid) (pick : Nat) (fault : Option Fault)
  | revokeModule (user : User) (moduleId : PyStr) (fault : Option Fault)

def exec (host : Host) (s : State) : Request → State × Outcome
  | .startInstall user document signature ceremonyId fault =>
    startInstall host s user document signature ceremonyId fault
  | .advanceInstall user ceremonyId action rowId now fault =>
    advanceInstall s user ceremonyId action rowId now fault
  | .getInstall ceremonyId => getInstall s ceremonyId
  | .updateModule user moduleId newManifest signature ceremonyId pick fault =>
    updateModule host s user moduleId newManifest signature ceremonyId pick fault
  | .revokeModule user moduleId fault => revokeModule host s user moduleId fault

section Invocation

def invokableKinds : List CapabilityKind :=
  [.skill, .tool, .workflow]

/--
The row that an invocation dispatches a capability of: the newest one of the module if it is enabled and
declares the capability for matters.
-/
def dispatched (t : InstalledTable) (moduleId capabilityId : PyStr) (pick : Nat) : Option InstalledModule := do
  let installed ← t.first? moduleId pick
  if installed.enabled then
    let declaration ←
      installed.manifestSnapshot.manifest.capabilities.find? fun cap => cap.id = capabilityId
    if declaration.scope = .matter ∧ declaration.kind ∈ invokableKinds then return installed else none
  else none

end Invocation

end Modules
