import Legalise.Audit.Log
import Legalise.AuditReconstruction.Basic

/-!
This module contains the table of capability grants, the runtime check that reads it, and the operations
that write it.
-/

namespace Capabilities

def scopeTypeWorkspace : PyStr := py "workspace"

def scopeTypeMatter : PyStr := py "matter"

/--
A row of `workspace_skill_capability_grants`.
-/
structure Grant where
  id : Uuid
  userId : Uuid
  plugin : PyStr
  skill : PyStr
  capability : PyStr
  grantedByUserId : Option Uuid := none
  capabilityVersion : Option PyStr := none
  grantedAtModuleVersion : Option PyStr := none
  grantedPermissionsSnapshot : Option Dict := none
  scopeType : PyStr
  scopeId : Option Uuid

/--
The columns of `uq_grant_user_plugin_skill_cap_scope`, in which two `NULL`s are not distinct.
-/
structure Key where
  userId : Uuid
  plugin : PyStr
  skill : PyStr
  capability : PyStr
  scopeType : PyStr
  scopeId : Option Uuid
  deriving DecidableEq

def Grant.key (g : Grant) : Key :=
  ⟨g.userId, g.plugin, g.skill, g.capability, g.scopeType, g.scopeId⟩

/--
The check constraints and the lengths of the columns.
-/
structure Grant.Fits (g : Grant) : Prop where
  pairing : g.scopeType = scopeTypeMatter ↔ g.scopeId.isSome = true
  vocabulary : g.scopeType = scopeTypeWorkspace ∨ g.scopeType = scopeTypeMatter
  plugin : g.plugin.length ≤ 128
  skill : g.skill.length ≤ 128
  capability : g.capability.length ≤ 256
  capabilityVersion : (g.capabilityVersion.getD []).length ≤ 32
  grantedAtModuleVersion : (g.grantedAtModuleVersion.getD []).length ≤ 32

theorem Grant.fits_iff (g : Grant)
    : g.Fits ↔
        (g.scopeType = scopeTypeMatter ↔ g.scopeId.isSome = true)
          ∧ (g.scopeType = scopeTypeWorkspace ∨ g.scopeType = scopeTypeMatter)
          ∧ g.plugin.length ≤ 128 ∧ g.skill.length ≤ 128 ∧ g.capability.length ≤ 256
          ∧ (g.capabilityVersion.getD []).length ≤ 32
          ∧ (g.grantedAtModuleVersion.getD []).length ≤ 32 := by
  constructor
  . exact fun h => ⟨h.pairing, h.vocabulary, h.plugin, h.skill, h.capability, h.capabilityVersion,
      h.grantedAtModuleVersion⟩
  . rintro ⟨h₁, h₂, h₃, h₄, h₅, h₆, h₇⟩
    exact ⟨h₁, h₂, h₃, h₄, h₅, h₆, h₇⟩

instance (g : Grant) : Decidable g.Fits :=
  decidable_of_iff' _ g.fits_iff

/--
The rows of the table under its constraints.
-/
structure GrantTable where
  rows : List Grant
  ids : (rows.map Grant.id).Nodup
  keys : (rows.map Grant.key).Nodup
  fits : ∀ g ∈ rows, g.Fits

namespace GrantTable

def empty : GrantTable where
  rows := []
  ids := List.nodup_nil
  keys := List.nodup_nil
  fits := by simp

/--
`INSERT`, unless a constraint is violated.
-/
def insert? (t : GrantTable) (g : Grant) : Option GrantTable :=
  if h : g.Fits ∧ g.id ∉ t.rows.map Grant.id ∧ g.key ∉ t.rows.map Grant.key then
    some {
      rows := t.rows ++ [g]
      ids := by
        rw [List.map_append]
        exact t.ids.append (List.nodup_singleton _) (by simpa using h.right.left)
      keys := by
        rw [List.map_append]
        exact t.keys.append (List.nodup_singleton _) (by simpa using h.right.right)
      fits := fun g' hg' => by
        cases List.mem_append.mp hg' with
        | inl hold => exact t.fits g' hold
        | inr hnew => exact List.mem_singleton.mp hnew ▸ h.left
    }
  else none

/--
`DELETE` of all rows but those that are kept.
-/
def keep (t : GrantTable) (kept : Grant → Bool) : GrantTable where
  rows := t.rows.filter kept
  ids := t.ids.sublist (List.filter_sublist.map _)
  keys := t.keys.sublist (List.filter_sublist.map _)
  fits g hg := t.fits g (List.mem_of_mem_filter hg)

def delete (t : GrantTable) (g : Grant) : GrantTable :=
  t.keep fun g' => g'.id ≠ g.id

end GrantTable

inductive GrantError where
  | database
  | python (e : PyErr)
  | valueError (message : PyStr)
  | capabilityScopeUnsupported (capabilityId : PyStr) (capabilityScope : Json)
  | http (status : Nat) (detail : Dict)
  | matterHasActiveJobs (activeCount : Nat)
  | storageDelete

/--
The exception of a denied call, with the audit row that is committed before it is raised.
-/
structure CapabilityDenied where
  userId : Uuid
  plugin : PyStr
  skill : PyStr
  capability : PyStr
  audit : AuditLog

section Check

variable (t : GrantTable) (userId : Uuid) (plugin skill capability : PyStr)

/--
The filter on user, plugin, skill and capability that the check and `revoke` share.
-/
def Grant.isFor (g : Grant) : Bool :=
  g.userId = userId && g.plugin = plugin && g.skill = skill && g.capability = capability

/--
The filter on the scope: the workspace, or one matter.
-/
def Grant.isAt (g : Grant) : Option Uuid → Bool
  | none => g.scopeType = scopeTypeWorkspace && g.scopeId.isNone
  | some matterId => g.scopeType = scopeTypeMatter && g.scopeId = some matterId

def requireCapability (matterId : Option Uuid) : Except CapabilityDenied Unit :=
  if t.rows.any fun g => g.isFor userId plugin skill capability && g.isAt matterId then .ok ()
  else
    .error {
      userId := userId
      plugin := plugin
      skill := skill
      capability := capability
      audit := {
        action := py "module.capability.denied"
        actorId := some userId
        matterId := matterId
        module := some plugin
        resourceType := some (py "capability")
        resourceId := some (plugin ++ py ":" ++ skill ++ py ":" ++ capability)
        payload := [
          (py "plugin", .str plugin),
          (py "skill", .str skill),
          (py "capability", .str capability),
          (py "matter_id", (matterId.map fun m => Json.str m.str).getD .null),
          (py "scope", .str (if matterId.isSome then scopeTypeMatter else scopeTypeWorkspace))
        ]
      }
    }

/--
`grant`. The row gets its id before the insert, which does nothing if the key is there.
-/
def grant (id : Uuid) (grantedByUserId : Option Uuid) (scopeType : Option PyStr)
    (scopeId : Option Uuid) : Except GrantError GrantTable :=
  let effectiveScopeType :=
    match scopeType with
    | some scopeType => if scopeType.isEmpty then scopeTypeWorkspace else scopeType
    | none => scopeTypeWorkspace
  let effectiveScopeId := if effectiveScopeType = scopeTypeMatter then scopeId else none
  let row : Grant := {
    id := id
    userId := userId
    plugin := plugin
    skill := skill
    capability := capability
    grantedByUserId := grantedByUserId
    scopeType := effectiveScopeType
    scopeId := effectiveScopeId
  }
  if row.Fits ∧ row.key ∈ t.rows.map Grant.key then .ok t
  else
    match t.insert? row with
    | some t => .ok t
    | none => .error .database

/--
`grant_many`, with the id that the row of each capability would get.
-/
def grantMany (capabilities : List PyStr) (newId : PyStr → Uuid) (grantedByUserId : Option Uuid)
    : Except GrantError GrantTable :=
  capabilities.foldlM (fun t capability =>
    grant t userId plugin skill capability (newId capability) grantedByUserId none none) t

/--
`revoke`. Without an order the database may return the matching rows in any order, so any of them may
be the first one.
-/
def revoke (pick : Nat) : GrantTable :=
  let rows := t.rows.filter fun g => g.isFor userId plugin skill capability
  match rows[pick % rows.length]? with
  | none => t
  | some row => t.delete row

end Check

structure InstalledModule where
  moduleId : PyStr
  version : PyStr
  manifestSnapshot : Dict

/--
`value or []`, iterated over.
-/
def iterOrEmpty (value : Json) : Except PyErr (List Json) :=
  if value.truthy then value.iter else .ok []

/--
The strings among the elements of `value or []`.
-/
def stringsOf (value : Json) : Except PyErr (List PyStr) := do
  let elements ← iterOrEmpty value
  return elements.filterMap fun c =>
    match c with
    | .str s => some s
    | _ => none

/--
`_find_capability_declaration`
-/
def findCapabilityDeclaration (manifest : Dict) (capabilityId : PyStr)
    : Except PyErr (Option Dict) := do
  let caps ← iterOrEmpty (Dict.get manifest (py "capabilities"))
  go caps
where
  go : List Json → Except PyErr (Option Dict)
    | [] => .ok none
    | cap :: caps => do
      let cap ← cap.asDict
      if (Dict.get cap (py "id")).pyEq (.str capabilityId) then return some cap
      go caps

/--
The capability strings that a declaration asks for.
-/
def capabilityStrings (capability : Dict) : Except PyErr (List PyStr) := do
  let reads ← stringsOf (Dict.get capability (py "reads"))
  let writes ← stringsOf (Dict.get capability (py "writes"))
  return reads ++ writes

/--
A column of text takes a string or `None`.
-/
def textColumn : Json → Except GrantError (Option PyStr)
  | .null => .ok none
  | .str s => .ok (some s)
  | _ => .error .database

structure GrantCreationResult where
  created : List Grant
  existing : List Grant
  parentCapabilityId : PyStr

section Matter

variable (R : PyRepr) (t : GrantTable) (userId matterId : Uuid)

/--
One turn of the loop over the capability strings: the table, the created rows and the existing ones. The
select flushes the rows that were added before it.
-/
def addGrant (installed : InstalledModule) (capabilityId : PyStr) (capability : Dict)
    (newId : PyStr → Uuid) (state : GrantTable × List Grant × List Grant) (capString : PyStr)
    : Except GrantError (GrantTable × List Grant × List Grant) := do
  let (t, created, existing) := state
  let same (g : Grant) : Bool :=
    g.isFor userId installed.moduleId capabilityId capString && g.isAt (some matterId)
  match t.rows.find? same with
  | some row => return (t, created, existing ++ [row])
  | none =>
    let capabilityVersion ← textColumn (Dict.get installed.manifestSnapshot (py "schema_version"))
    let orEmpty (key : PyStr) : Json :=
      if (Dict.get capability key).truthy then Dict.get capability key else .list []
    let row : Grant := {
      id := newId capString
      userId := userId
      plugin := installed.moduleId
      skill := capabilityId
      capability := capString
      grantedByUserId := some userId
      capabilityVersion := capabilityVersion
      grantedAtModuleVersion := some installed.version
      grantedPermissionsSnapshot := some [
        (py "matter_id", .str matterId.str),
        (py "capability_id", .str capabilityId),
        (py "parent_reads", orEmpty (py "reads")),
        (py "parent_writes", orEmpty (py "writes"))
      ]
      scopeType := scopeTypeMatter
      scopeId := some matterId
    }
    match t.insert? row with
    | some t => return (t, created ++ [row], existing)
    | none => .error .database

def grantCreated (installed : InstalledModule) (capabilityId : PyStr) (row : Grant) : AuditLog where
  action := py "module.grant.created"
  actorId := some userId
  matterId := some matterId
  module := some installed.moduleId
  resourceType := some (py "capability_grant")
  resourceId := some row.id.str
  payload := [
    (py "module_id", .str installed.moduleId),
    (py "capability_id", .str capabilityId),
    (py "granted_capability", .str row.capability),
    (py "scope_type", .str scopeTypeMatter),
    (py "scope_id", .str matterId.str),
    (py "module_version", .str installed.version)
  ]

/--
`create_grants_for_capability`
-/
def createGrantsForCapability (installed : InstalledModule) (capabilityId : PyStr)
    (newId : PyStr → Uuid)
    : Except GrantError (GrantTable × GrantCreationResult × List AuditLog) := do
  let capability? ←
    (findCapabilityDeclaration installed.manifestSnapshot capabilityId).mapError .python
  match capability? with
  | none =>
    .error (.valueError (
      py "capability " ++ R.str capabilityId ++ py " not declared in module "
        ++ R.str installed.moduleId ++ py " v" ++ installed.version
    ))
  | some capability =>
    let capabilityScope := Dict.getD capability (py "scope") (.str scopeTypeWorkspace)
    if !capabilityScope.pyEq (.str scopeTypeMatter) then
      .error (.capabilityScopeUnsupported capabilityId capabilityScope)
    else
      let strings ← (capabilityStrings capability).mapError .python
      let (t, created, existing) ←
        strings.foldlM (addGrant userId matterId installed capabilityId capability newId)
          (t, [], [])
      return (
        t, ⟨created, existing, capabilityId⟩,
        created.map (grantCreated userId matterId installed capabilityId)
      )

/--
`revoke_grant`: the deleted row and the audit row, if the caller has such a grant on the matter.
-/
def revokeGrant (grantId : Uuid) : GrantTable × Option (Grant × AuditLog) :=
  match t.rows.find? fun g => g.id = grantId && g.userId = userId && g.isAt (some matterId) with
  | none => (t, none)
  | some row =>
    (
      t.delete row,
      some (
        row,
        {
          action := py "module.grant.revoked"
          actorId := some userId
          matterId := some matterId
          module := some row.plugin
          resourceType := some (py "capability_grant")
          resourceId := some grantId.str
          payload := [
            (py "module_id", .str row.plugin),
            (
              py "capability_id",
              Dict.get (row.grantedPermissionsSnapshot.getD []) (py "capability_id")
            ),
            (py "granted_capability", .str row.capability),
            (py "scope_type", .str scopeTypeMatter),
            (py "scope_id", .str matterId.str),
            (py "reason", .str (py "explicit_revoke"))
          ]
        }
      )
    )

end Matter

section Cascades

variable (t : GrantTable)

/--
The detail of the error that `require_admin` raises.
-/
def adminRequired (actionLabel : PyStr) : Dict :=
  [
    (py "error", .str (py "admin_required")),
    (py "message", .str (actionLabel ++ py " requires workspace administrator privileges"))
  ]

/--
`revoke_module_endpoint`, as far as the grants go. The grants of the plugin are deleted once for every
installed row of the module.
-/
def revokeModule (R : PyRepr) (userId : Uuid) (isSuperuser : Bool) (moduleId : PyStr)
    (installedRows : Nat) : Except GrantError (GrantTable × List AuditLog) :=
  if !isSuperuser then .error (.http 403 (adminRequired (py "module revoke")))
  else if installedRows = 0 then
    .error (.http 404 [
      (py "error", .str (py "module_not_installed")),
      (py "message", .str (py "module " ++ R.str moduleId ++ py " is not installed"))
    ])
  else
    let (t, revokedGrants) := (List.range installedRows).foldl (fun (t, revokedGrants) _ =>
      (
        t.keep fun g => g.plugin ≠ moduleId,
        revokedGrants + (t.rows.filter fun g => g.plugin = moduleId).length
      )) (t, (0 : Nat))
    .ok (
      t,
      {
        action := py "module.disabled"
        actorId := some userId
        module := some moduleId
        resourceType := some (py "installed_module")
        resourceId := some moduleId
        payload := [(py "revoked_grants", .int revokedGrants)]
      } :: if revokedGrants = 0 then [] else [
        {
          action := py "module.grant.revoked"
          actorId := some userId
          module := some moduleId
          resourceType := some (py "capability_grant")
          resourceId := some moduleId
          payload := [(py "count", .int revokedGrants)]
        }
      ]
    )

/--
The matter that is deleted, and what the queries about its jobs return.
-/
structure Deletion where
  matterId : Uuid
  slug : PyStr
  title : PyStr
  actorId : Option Uuid
  action : PyStr := py "matter.deleted"
  payload : Dict := []
  warnWithoutExport : Bool := true
  activeCount : Nat
  exportCount : Nat
  storageDeleted : Bool

/--
The audit rows that a deletion writes before the grants are revoked.
-/
def Deletion.audit (d : Deletion) : List AuditLog :=
  {
    action := d.action
    actorId := d.actorId
    matterId := some d.matterId
    resourceType := some (py "matter")
    resourceId := some d.slug
    payload := d.payload.foldl (fun payload item => Dict.set payload item.fst item.snd) [
      (py "title", .str d.title),
      (py "had_export", .bool (0 < d.exportCount)),
      (py "export_count", .int d.exportCount)
    ]
  } :: if d.warnWithoutExport && d.exportCount = 0 then [
    {
      action := py "matter.deleted_without_export"
      actorId := d.actorId
      matterId := some d.matterId
      resourceType := some (py "matter")
      resourceId := some d.slug
      payload := [
        (py "warning", .str (py "Matter deleted without a prior successful export."))
      ]
    }
  ] else []

/--
`tombstone_matter`, as far as the grants and the audit rows go.
-/
def tombstoneMatter (d : Deletion) : Except GrantError (GrantTable × List AuditLog) :=
  if 0 < d.activeCount then .error (.matterHasActiveJobs d.activeCount)
  else if !d.storageDeleted then .error .storageDelete
  else
    let revokedCount := (t.rows.filter fun g => g.isAt (some d.matterId)).length
    .ok (
      t.keep fun g => !g.isAt (some d.matterId),
      d.audit ++ if revokedCount = 0 then [] else [
        {
          action := py "module.grant.revoked"
          actorId := d.actorId
          matterId := some d.matterId
          resourceType := some (py "capability_grant")
          resourceId := some d.slug
          payload := [
            (py "count", .int revokedCount), (py "reason", .str (py "matter_archived"))
          ]
        }
      ]
    )

end Cascades

end Capabilities
