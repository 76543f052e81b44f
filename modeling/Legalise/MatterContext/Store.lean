import Legalise.Capabilities.Grants
import Legalise.Lib.Except

/-!
This module contains the store of matter context items: the table, and the calls that write, supersede and
read items.
-/

namespace MatterContext

open Capabilities (GrantTable requireCapability)

structure MatterContextSchema where
  id : Uuid
  nameSpace : PyStr
  version : PyStr
  jsonSchema : Dict
  registeredAt : Nat

/--
An error of `Draft202012Validator.iter_errors`.
-/
structure ValidationError where
  message : PyStr
  path : List Json
  validator : PyStr

/--
What a call finds in the other tables, in the order of a scan, and the validator, whose errors are in the
order of their paths.
-/
structure Env where
  grants : GrantTable
  schemas : List MatterContextSchema
  schemaErrors : Dict → Dict → List ValidationError

structure MatterContextItem where
  id : Uuid
  matterId : Uuid
  nameSpace : PyStr
  schemaId : Uuid
  schemaVersion : PyStr
  payload : Dict
  sourceType : Option PyStr
  sourceId : Option PyStr
  createdByUserId : Uuid
  createdByModuleId : Option PyStr
  createdAt : Nat
  supersededById : Option Uuid := none

/--
The lengths of the columns.
-/
def MatterContextItem.fits (item : MatterContextItem) : Bool :=
  item.nameSpace.length ≤ 128 && item.schemaVersion.length ≤ 32 && (item.sourceType.getD []).length ≤ 32
    && (item.sourceId.getD []).length ≤ 64 && (item.createdByModuleId.getD []).length ≤ 128

structure ItemTable where
  rows : List MatterContextItem
  ids : (rows.map MatterContextItem.id).Nodup

namespace ItemTable

def empty : ItemTable where
  rows := []
  ids := List.nodup_nil

/--
`INSERT`, unless a constraint is violated.
-/
def insert? (t : ItemTable) (item : MatterContextItem) : Option ItemTable :=
  if h : item.id ∉ t.rows.map MatterContextItem.id ∧ item.fits then
    some {
      rows := t.rows ++ [item]
      ids := by
        rw [List.map_append]
        exact t.ids.append (List.nodup_singleton _) (by simpa using h.left)
    }
  else none

end ItemTable

/--
Set the pointer of one row.
-/
def point (id newId : Uuid) (item : MatterContextItem) : MatterContextItem :=
  if item.id = id then { item with supersededById := some newId } else item

@[simp]
theorem id_point (id newId : Uuid) (item : MatterContextItem) : (point id newId item).id = item.id := by
  unfold point
  split <;> rfl

@[simp]
theorem matterId_point (id newId : Uuid) (item : MatterContextItem)
    : (point id newId item).matterId = item.matterId := by
  unfold point
  split <;> rfl

@[simp]
theorem nameSpace_point (id newId : Uuid) (item : MatterContextItem)
    : (point id newId item).nameSpace = item.nameSpace := by
  unfold point
  split <;> rfl

@[simp]
theorem schemaVersion_point (id newId : Uuid) (item : MatterContextItem)
    : (point id newId item).schemaVersion = item.schemaVersion := by
  unfold point
  split <;> rfl

def ItemTable.point (t : ItemTable) (id newId : Uuid) : ItemTable where
  rows := t.rows.map (MatterContext.point id newId)
  ids := by simpa [Function.comp_def] using t.ids

/--
The payload of `Phase1Blocked`.
-/
inductive Blocked where
  | capabilityDenied (capability : PyStr)
  | schemaViolation (gateState : Dict)

def Blocked.toDict : Blocked → Dict
  | .capabilityDenied capability =>
    [
      (py "status", .str (py "blocked")), (py "blocked_reason", .str (py "capability_denied")),
      (py "denied_capability", .str capability)
    ]
  | .schemaViolation gateState =>
    [
      (py "status", .str (py "blocked")), (py "blocked_reason", .str (py "schema_violation")),
      (py "gate_state", .dict gateState)
    ]

/--
`Phase1Blocked` comes with the audit rows that are committed with it.
-/
inductive StoreError where
  | phase1Blocked (blocked : Blocked) (audit : List AuditLog)
  | itemNotFound (message : PyStr)
  | valueError (message : PyStr)
  | database

def capabilityRead (nameSpace : PyStr) : PyStr :=
  py "matter.context." ++ nameSpace ++ py ".read"

def capabilityWrite (nameSpace : PyStr) : PyStr :=
  py "matter.context." ++ nameSpace ++ py ".write"

def text? (value : Option PyStr) : Json :=
  (value.map Json.str).getD .null

/--
`audit_phase1` of the primitive `matter_context`.
-/
def auditPhase1 (action : PyStr) (actorId matterId : Uuid) (moduleId capabilityId resourceId : Option PyStr)
    (payload : Dict) (blocked : Option Blocked) : AuditLog where
  action := action
  actorId := some actorId
  matterId := some matterId
  module := some (py "core.matter_context")
  resourceType := some (py "matter_context_item")
  resourceId := resourceId
  payload :=
    let composed := payload
      ++ (moduleId.map fun moduleId => (py "module_id", Json.str moduleId)).toList
      ++ (capabilityId.map fun capabilityId => (py "capability_id", Json.str capabilityId)).toList
    ((blocked.map Blocked.toDict).getD []).foldl (fun d item => d.set item.fst item.snd) composed

/--
`check_or_block` with `plugin = "core"` and `skill = "matter_context"`.
-/
def checkOrBlock (env : Env) (userId : Uuid) (capability blockAction : PyStr) (matterId : Uuid)
    : Except StoreError Unit :=
  match requireCapability env.grants userId (py "core") (py "matter_context") capability none with
  | .ok () => .ok ()
  | .error denied =>
    .error (.phase1Blocked (.capabilityDenied capability) [
      denied.audit,
      auditPhase1 blockAction userId matterId (some (py "core")) (some capability) none []
        (some (.capabilityDenied capability))
    ])

section Registry

variable (env : Env) (nameSpace : PyStr)

/--
`load_schema` by namespace and version.
-/
def loadSchema (version : PyStr) : Option MatterContextSchema :=
  env.schemas.find? fun schema => schema.nameSpace = nameSpace && schema.version = version

def latestVersionForNamespace : Option PyStr :=
  let rows := env.schemas.filter fun schema => schema.nameSpace = nameSpace
  ((rows.mergeSort fun a b => b.registeredAt ≤ a.registeredAt).head?).map MatterContextSchema.version

end Registry

/--
The arguments of `write_item`, the id of the new row and the time of its insert.
-/
structure WriteItem where
  matterId : Uuid
  nameSpace : PyStr
  payload : Dict
  userId : Uuid
  schemaVersion : Option PyStr := none
  sourceType : Option PyStr := none
  sourceId : Option PyStr := none
  createdByModuleId : Option PyStr := none
  newId : Uuid
  now : Nat

section Write

variable (env : Env) (request : WriteItem)

def blockWrite (gateState payload : Dict) : StoreError :=
  let blocked := Blocked.schemaViolation gateState
  .phase1Blocked blocked [
    auditPhase1 (py "matter_context.write.blocked") request.userId request.matterId
      request.createdByModuleId (some (capabilityWrite request.nameSpace)) none payload (some blocked)
  ]

def resolveSchema : Except StoreError MatterContextSchema :=
  let nameSpace := (py "namespace", Json.str request.nameSpace)
  let notFound (version : PyStr) : Except StoreError MatterContextSchema :=
    if request.nameSpace.isEmpty then
      .error (.valueError (py "either schema_id or namespace must be supplied"))
    else
      match loadSchema env request.nameSpace version with
      | some schema => .ok schema
      | none =>
        .error (blockWrite request
          [
            nameSpace, (py "schema_version", text? request.schemaVersion),
            (py "error", .str (py "schema_not_found"))
          ]
          [nameSpace, (py "schema_version", text? request.schemaVersion)])
  match request.schemaVersion with
  | some version => notFound version
  | none =>
    match latestVersionForNamespace env request.nameSpace with
    | none =>
      .error (blockWrite request [nameSpace, (py "error", .str (py "no_schema_registered"))] [nameSpace])
    | some version => notFound version

def ValidationError.toDict (e : ValidationError) : Json :=
  .dict [
    (py "message", .str e.message), (py "path", .list e.path), (py "validator", .str e.validator)
  ]

/--
`write_item` up to the insert of the row.
-/
def newItem : Except StoreError MatterContextItem := do
  checkOrBlock env request.userId (capabilityWrite request.nameSpace) (py "matter_context.write.blocked")
    request.matterId
  let schema ← resolveSchema env request
  let errors := env.schemaErrors schema.jsonSchema request.payload
  if errors ≠ [] then
    throw (blockWrite request
      [
        (py "namespace", .str request.nameSpace), (py "schema_id", .str schema.id.str),
        (py "schema_version", .str schema.version), (py "errors", .list (errors.map (·.toDict)))
      ]
      [(py "namespace", .str request.nameSpace), (py "schema_version", .str schema.version)])
  return {
    id := request.newId
    matterId := request.matterId
    nameSpace := request.nameSpace
    schemaId := schema.id
    schemaVersion := schema.version
    payload := request.payload
    sourceType := request.sourceType
    sourceId := request.sourceId
    createdByUserId := request.userId
    createdByModuleId := request.createdByModuleId
    createdAt := request.now
  }

def createdAudit (item : MatterContextItem) : AuditLog :=
  auditPhase1 (py "matter_context.item.created") request.userId request.matterId request.createdByModuleId
    (some (capabilityWrite request.nameSpace)) (some item.id.str)
    [
      (py "namespace", .str request.nameSpace), (py "schema_id", .str item.schemaId.str),
      (py "schema_version", .str item.schemaVersion), (py "source_type", text? request.sourceType),
      (py "source_id", text? request.sourceId)
    ]
    none

def writeItem (t : ItemTable) : Except StoreError (ItemTable × MatterContextItem × List AuditLog) := do
  let item ← newItem env request
  match t.insert? item with
  | none => throw .database
  | some t => return (t, item, [createdAudit request item])

end Write

/--
A successful write adds one row at the end, with no pointer.
-/
structure Written (t t' : ItemTable) (request : WriteItem) (new : MatterContextItem) : Prop where
  rows : t'.rows = t.rows ++ [new]
  fresh : new.id ∉ t.rows.map MatterContextItem.id
  pointer : new.supersededById = none
  matterId : new.matterId = request.matterId
  nameSpace : new.nameSpace = request.nameSpace

theorem ItemTable.rows_of_insert? {t t' : ItemTable} {item : MatterContextItem} (h : t.insert? item = some t')
    : t'.rows = t.rows ++ [item] ∧ item.id ∉ t.rows.map MatterContextItem.id := by
  unfold insert? at h
  split at h
  . next hnew =>
    rw [← Option.some.inj h]
    exact ⟨rfl, hnew.left⟩
  . next => cases h

theorem fields_of_newItem {env : Env} {request : WriteItem} {item : MatterContextItem}
    (h : newItem env request = .ok item)
    : item.supersededById = none ∧ item.matterId = request.matterId ∧ item.nameSpace = request.nameSpace := by
  unfold newItem at h
  have ⟨_, _, h⟩ := (Except.bind_eq_ok_iff _ _ _).mp h
  have ⟨schema, _, h⟩ := (Except.bind_eq_ok_iff _ _ _).mp h
  dsimp only at h
  split at h
  . cases h
  . rw [Except.pure_eq_ok_iff] at h
    rw [← h]
    exact ⟨rfl, rfl, rfl⟩

theorem written_of_writeItem {env : Env} {request : WriteItem} {t t' : ItemTable} {new : MatterContextItem}
    {audit : List AuditLog} (h : writeItem env request t = .ok (t', new, audit)) : Written t t' request new := by
  unfold writeItem at h
  have ⟨item, hitem, h⟩ := (Except.bind_eq_ok_iff _ _ _).mp h
  have ⟨hpointer, hmatterId, hnameSpace⟩ := fields_of_newItem hitem
  cases hinsert : t.insert? item with
  | none =>
    rw [hinsert] at h
    cases h
  | some inserted =>
    rw [hinsert, Except.pure_eq_ok_iff, Prod.mk.injEq, Prod.mk.injEq] at h
    obtain ⟨rfl, rfl, _⟩ := h
    have ⟨hrows, hfresh⟩ := ItemTable.rows_of_insert? hinsert
    exact ⟨hrows, hfresh, hpointer, hmatterId, hnameSpace⟩

def loadItem (t : ItemTable) (matterId itemId : Uuid) : Except StoreError MatterContextItem :=
  match t.rows.find? fun item => item.id = itemId && item.matterId = matterId with
  | some item => .ok item
  | none =>
    .error (.itemNotFound
      (py "item " ++ itemId.str ++ py " not found under matter " ++ matterId.str))

/--
The arguments of `supersede_item` apart from the matter and the item, the id of the new row and the time of
its insert.
-/
structure SupersedeItem where
  newPayload : Dict
  userId : Uuid
  reason : Option PyStr := none
  schemaVersion : Option PyStr := none
  sourceType : Option PyStr := none
  sourceId : Option PyStr := none
  supersededByModuleId : Option PyStr := none
  newId : Uuid
  now : Nat

/--
The `write_item` of a supersession.
-/
def SupersedeItem.write (request : SupersedeItem) (old : MatterContextItem) : WriteItem where
  matterId := old.matterId
  nameSpace := old.nameSpace
  payload := request.newPayload
  userId := request.userId
  schemaVersion :=
    match request.schemaVersion with
    | some version => some (if version.isEmpty then old.schemaVersion else version)
    | none => some old.schemaVersion
  sourceType := request.sourceType
  sourceId := request.sourceId
  createdByModuleId := request.supersededByModuleId
  newId := request.newId
  now := request.now

/--
`supersede_item` after it has loaded the old item. The pointer of the row is set whatever it is by then.
-/
def supersedeItem (env : Env) (t : ItemTable) (old : MatterContextItem) (request : SupersedeItem)
    : Except StoreError (ItemTable × MatterContextItem × List AuditLog) := do
  let (t, new, audit) ← writeItem env (request.write old) t
  return (t.point old.id new.id, new, audit ++ [
    auditPhase1 (py "matter_context.item.superseded") request.userId old.matterId
      request.supersededByModuleId none (some old.id.str)
      [
        (py "namespace", .str old.nameSpace), (py "superseded_by_id", .str new.id.str),
        (py "reason", text? request.reason)
      ]
      none
  ])

theorem written_of_supersedeItem {env : Env} {t t' : ItemTable} {old new : MatterContextItem}
    {request : SupersedeItem} {audit : List AuditLog} (h : supersedeItem env t old request = .ok (t', new, audit))
    : ∃ inserted, Written t inserted (request.write old) new ∧ t' = inserted.point old.id new.id := by
  unfold supersedeItem at h
  have ⟨⟨inserted, item, _⟩, hwrite, h⟩ := (Except.bind_eq_ok_iff _ _ _).mp h
  rw [Except.pure_eq_ok_iff, Prod.mk.injEq, Prod.mk.injEq] at h
  obtain ⟨rfl, rfl, _⟩ := h
  exact ⟨inserted, written_of_writeItem hwrite, rfl⟩

theorem mem_of_loadItem {t : ItemTable} {matterId itemId : Uuid} {item : MatterContextItem}
    (h : loadItem t matterId itemId = .ok item) : item ∈ t.rows := by
  unfold loadItem at h
  split at h
  . next found hfound =>
    rw [← Except.ok.inj h]
    exact List.mem_of_find?_eq_some hfound
  . next => cases h

/--
The arguments of `read_items`.
-/
structure ReadItems where
  matterId : Uuid
  nameSpace : PyStr
  userId : Uuid
  schemaVersion : Option PyStr := none
  sourceType : Option PyStr := none
  includeSuperseded : Bool := false
  limit : Nat := 200

/--
The `WHERE` clause of a read.
-/
def ReadItems.selects (request : ReadItems) (item : MatterContextItem) : Bool :=
  item.matterId = request.matterId && item.nameSpace = request.nameSpace
    && (request.includeSuperseded || item.supersededById.isNone)
    && request.schemaVersion.all (fun version => item.schemaVersion = version)
    && request.sourceType.all (fun sourceType => item.sourceType = some sourceType)

/--
`read_items` of the rows in the order of a scan, which decides between rows of the same time.
-/
def readItems (env : Env) (scan : List MatterContextItem) (request : ReadItems)
    : Except StoreError (List MatterContextItem) := do
  checkOrBlock env request.userId (capabilityRead request.nameSpace) (py "matter_context.read.blocked")
    request.matterId
  return ((scan.filter request.selects).mergeSort fun a b => b.createdAt ≤ a.createdAt).take request.limit

end MatterContext
