import Legalise.AuditReconstruction.Cursor
import Legalise.Audit.Tables
import Legalise.Lib.Assign
import Legalise.Lib.Keyset

/-!
This module contains the reconstruction of the timeline of a matter: one query for each source, the
merge in memory, and the cursor of the next page.
-/

namespace Dict

/--
What is left of the dictionary after `d.pop(key, None)`.
-/
def pop (d : Dict) (key : PyStr) : Dict :=
  d.filter fun item => item.fst ≠ key

/--
`d[key] = value`
-/
def set (d : Dict) (key : PyStr) (value : Json) : Dict :=
  if (List.lookup key d).isSome then d.map fun item => if item.fst = key then (key, value) else item
  else d ++ [(key, value)]

theorem get_eq_null {d : Dict} {key : PyStr} (h : key ∉ d.map Prod.fst) : d.get key = .null := by
  have : List.lookup key d = none := by
    rw [List.lookup_eq_none_iff]
    intro item hitem
    rw [bne_iff_ne]
    rintro rfl
    exact h (List.mem_map_of_mem hitem)
  unfold get getD
  rw [this, Option.getD_none]

theorem get_set (d : Dict) (key name : PyStr) (value : Json)
    : (d.set key value).get name = if name = key then value else d.get name := by
  unfold set get getD
  split
  . next hsome =>
    have ⟨old, hold⟩ := Option.isSome_iff_exists.mp hsome
    rw [Assign.lookup_replace, hold]
    split <;> rfl
  . next hnone =>
    rw [List.lookup_append]
    by_cases hname : name = key
    . subst hname
      rw [Option.not_isSome_iff_eq_none.mp hnone]
      simp
    . rw [if_neg hname, lookup_cons_of_ne hname]
      simp

end Dict

namespace AuditReconstruction

open Keyset

structure StateMachineDefinition where
  id : Uuid
  definitionKey : PyStr

structure StateMachineInstance where
  id : Uuid
  definitionId : Uuid
  ownerScope : PyStr
  ownerId : PyStr

structure StateMachineTransition where
  id : Uuid
  instanceId : Uuid
  fromState : PyStr
  toState : PyStr
  actorId : Option Uuid
  moduleId : Option PyStr
  capabilityId : Option PyStr
  reason : Option PyStr
  extraMetadata : Dict
  gateState : Dict
  status : PyStr
  occurredAt : Timestamp

structure AdviceBoundaryDecision where
  id : Uuid
  outputId : PyStr
  fromTier : Option PyStr
  toTier : PyStr
  actorUserId : Option Uuid
  actorRole : Option PyStr
  moduleId : Option PyStr
  capabilityId : Option PyStr
  declaredTierMax : Option PyStr
  gateState : Dict
  status : PyStr
  decidedAt : Timestamp

/--
The tables that the timeline is read from. The columns that hold dictionaries are `jsonb` objects.
-/
structure TimelineTables where
  auditEntries : List AuditEntry
  definitions : List StateMachineDefinition
  instances : List StateMachineInstance
  transitions : List StateMachineTransition
  decisions : List AdviceBoundaryDecision
  auditEntries_id : (auditEntries.map AuditEntry.id).Nodup
  definitions_id : (definitions.map StateMachineDefinition.id).Nodup
  instances_id : (instances.map StateMachineInstance.id).Nodup
  transitions_id : (transitions.map StateMachineTransition.id).Nodup
  decisions_id : (decisions.map AdviceBoundaryDecision.id).Nodup
  payload_isDict : ∀ entry ∈ auditEntries, ∃ items, entry.payload.value = .dict items

/--
The parameters of a request that select rows.
-/
structure Filters where
  matterId : Option Uuid
  since : Option Timestamp := none
  untilTs : Option Timestamp := none
  invocationId : Option PyStr := none
  action : Option PyStr := none

/--
`(occurred_at, SOURCE_ORDER[source], source_row_id)` of a cursor.
-/
structure CursorKey where
  occurredAt : Timestamp
  order : Nat
  rowId : PyStr

abbrev Key := Nat ×ₗ Nat ×ₗ PyStr

def CursorKey.key (k : CursorKey) : Key :=
  toLex (k.occurredAt.rank, toLex (k.order, k.rowId))

def entrySortKey (entry : TimelineEntry) : Key :=
  toLex (entry.occurredAt.rank, toLex (entry.source.order, entry.sourceRowId))

/--
A `uuid` column is ordered as the texts of its values are.
-/
def cursorPredicate (cursorKey : Option CursorKey) (self : Source) (ts : Timestamp) (id : Uuid)
    : Bool :=
  match cursorKey with
  | none => true
  | some k =>
    if k.order < self.order then k.occurredAt.rank ≤ ts.rank
    else if self.order < k.order then k.occurredAt.rank < ts.rank
    else
      k.occurredAt.rank < ts.rank
        || ts.rank = k.occurredAt.rank && (Uuid.ofText? k.rowId).any fun row => row.str < id.str

def Filters.window (filters : Filters) (ts : Timestamp) : Bool :=
  (filters.since.all fun since => since.rank ≤ ts.rank)
    && filters.untilTs.all fun untilTs => ts.rank ≤ untilTs.rank

section Query

variable {α : Type}

/--
`SELECT .. WHERE .. ORDER BY ts, id LIMIT limit`
-/
def select (ts : α → Timestamp) (id : α → Uuid) (wheres : α → Bool) (limit : Nat) (rows : List α)
    : List α :=
  (sortByKey (κ := Nat ×ₗ PyStr) (fun row => toLex ((ts row).rank, (id row).str))
    (rows.filter wheres)).take limit

end Query

def str? (id : Option Uuid) : Json :=
  match id with
  | some id => .str id.str
  | none => .null

def text? (s : Option PyStr) : Json :=
  match s with
  | some s => .str s
  | none => .null

/--
`dict(r.payload or {})`
-/
def payloadDict : Json → Dict
  | .dict items => items
  | _ => []

/--
A column is added to the payload unless it is null.
-/
def surface (d : Dict) (key : PyStr) (value : Option Json) : Dict :=
  match value with
  | some value => d.set key value
  | none => d

def auditToEntry (r : AuditEntry) : TimelineEntry :=
  let payload := payloadDict r.payload.value
  let moduleId := payload.get (py "module_id")
  let payload := payload.pop (py "module_id")
  let capabilityId := payload.get (py "capability_id")
  let payload := payload.pop (py "capability_id")
  let payload :=
    match r.costMicros with
    | some costMicros =>
      (payload.set (py "cost_micros") (.int costMicros)).set (py "currency")
        (text? (r.currency.map PgText.val))
    | none => payload
  let payload := surface payload (py "tokens_in") (r.tokensIn.map .int)
  let payload := surface payload (py "tokens_out") (r.tokensOut.map .int)
  let payload := surface payload (py "provider") (r.provider.map fun s => .str s.val)
  let payload := surface payload (py "model_id") (r.modelId.map fun s => .str s.val)
  {
    source := .audit
    occurredAt := r.timestamp
    action := r.action.val
    actor := [(py "user_id", str? r.actorId)]
    matterId := r.matterId.map Uuid.str
    moduleId := if moduleId.truthy then moduleId else text? (r.module.map PgText.val)
    capabilityId := capabilityId
    payload := payload
    refs := [
      (py "audit_entry_id", .str r.id.str),
      (py "resource_type", text? (r.resourceType.map PgText.val)),
      (py "resource_id", text? (r.resourceId.map PgText.val))
    ]
    sourceRowId := r.id.str
  }

def stateMachineActionPrefix : PyStr := py "state_machine.transition."

def adviceBoundaryActionPrefix : PyStr := py "advice_boundary.decision."

def smtToEntry (t : StateMachineTransition) (definitionKey : PyStr) (matterId : Uuid)
    : TimelineEntry where
  source := .stateMachine
  occurredAt := t.occurredAt
  action := stateMachineActionPrefix ++ t.status
  actor := [(py "user_id", str? t.actorId)]
  matterId := some matterId.str
  moduleId := text? t.moduleId
  capabilityId := text? t.capabilityId
  payload := [
    (py "definition_key", .str definitionKey),
    (py "from_state", .str t.fromState),
    (py "to_state", .str t.toState),
    (py "reason", text? t.reason),
    (py "extra_metadata", .dict t.extraMetadata),
    (py "gate_state", .dict t.gateState),
    (py "status", .str t.status)
  ]
  refs := [(py "transition_id", .str t.id.str), (py "instance_id", .str t.instanceId.str)]
  sourceRowId := t.id.str

def abdToEntry (r : AdviceBoundaryDecision) (matterId : Uuid) : TimelineEntry where
  source := .adviceBoundary
  occurredAt := r.decidedAt
  action := adviceBoundaryActionPrefix ++ r.status
  actor := [(py "user_id", str? r.actorUserId), (py "role", text? r.actorRole)]
  matterId := some matterId.str
  moduleId := text? r.moduleId
  capabilityId := text? r.capabilityId
  payload := [
    (py "output_id", .str r.outputId),
    (py "from_tier", text? r.fromTier),
    (py "to_tier", .str r.toTier),
    (py "declared_tier_max", text? r.declaredTierMax),
    (py "gate_state", .dict r.gateState),
    (py "status", .str r.status)
  ]
  refs := [(py "advice_boundary_decision_id", .str r.id.str)]
  sourceRowId := r.id.str

/--
The status that an action filter asks a source for: `none` if it asks for no row of the source, and
`some none` if there is no filter.
-/
def statusFilter (actionPrefix : PyStr) : Option PyStr → Option (Option PyStr)
  | none => some none
  | some action =>
    if actionPrefix.isPrefixOf action then some (some (action.drop actionPrefix.length)) else none

/--
`StateMachineTransition` joined with its instance and the definition of that.
-/
def TimelineTables.joinedTransitions (db : TimelineTables)
    : List (StateMachineTransition × StateMachineInstance × StateMachineDefinition) :=
  db.transitions.flatMap fun t =>
    (db.instances.filter fun i => t.instanceId = i.id).flatMap fun i =>
      (db.definitions.filter fun d => i.definitionId = d.id).map fun d => (t, i, d)

/--
`column ->> key`: a string as it is, and anything else as the text that Postgres writes for it.
-/
def astext (otherText : Json → PyStr) (value : Json) : Option PyStr :=
  match value with
  | .null => none
  | .str s => some s
  | value => some (otherText value)

variable (otherText : Json → PyStr) (parseFloat : PyStr → Option PyFloat)

def queryAuditRows (db : TimelineTables) (filters : Filters) (cursorKey : Option CursorKey)
    (limit : Nat) : List TimelineEntry :=
  let wheres (r : AuditEntry) : Bool :=
    r.matterId = filters.matterId
      && filters.window r.timestamp
      && (filters.action.all fun action => r.action.val = action)
      && (filters.invocationId.all fun invocationId =>
        astext otherText ((payloadDict r.payload.value).get (py "invocation_id")) = some invocationId)
      && cursorPredicate cursorKey .audit r.timestamp r.id
  (select AuditEntry.timestamp AuditEntry.id wheres limit db.auditEntries).map auditToEntry

def queryStateMachineRows (db : TimelineTables) (filters : Filters) (cursorKey : Option CursorKey)
    (limit : Nat) : List TimelineEntry :=
  match filters.matterId, filters.invocationId, statusFilter stateMachineActionPrefix filters.action with
  | some matterId, none, some status =>
    let wheres (row : StateMachineTransition × StateMachineInstance × StateMachineDefinition) : Bool :=
      row.snd.fst.ownerScope = py "matter"
        && row.snd.fst.ownerId = matterId.str
        && filters.window row.fst.occurredAt
        && (status.all fun status => row.fst.status = status)
        && cursorPredicate cursorKey .stateMachine row.fst.occurredAt row.fst.id
    (select (fun row => row.fst.occurredAt) (fun row => row.fst.id) wheres limit
      db.joinedTransitions).map fun row => smtToEntry row.fst row.snd.snd.definitionKey matterId
  | _, _, _ => []

def queryAdviceBoundaryRows (db : TimelineTables) (filters : Filters) (cursorKey : Option CursorKey)
    (limit : Nat) : List TimelineEntry :=
  match filters.matterId, statusFilter adviceBoundaryActionPrefix filters.action with
  | some matterId, some status =>
    let wheres (r : AdviceBoundaryDecision) : Bool :=
      astext otherText (r.gateState.get (py "matter_id")) = some matterId.str
        && filters.window r.decidedAt
        && (status.all fun status => r.status = status)
        && (filters.invocationId.all fun invocationId => r.outputId = invocationId)
        && cursorPredicate cursorKey .adviceBoundary r.decidedAt r.id
    (select AdviceBoundaryDecision.decidedAt AdviceBoundaryDecision.id wheres limit
      db.decisions).map fun r => abdToEntry r matterId
  | _, _ => []

/--
`_QUERY_FNS[src]`
-/
def query (db : TimelineTables) (filters : Filters) (cursorKey : Option CursorKey) (limit : Nat)
    : Source → List TimelineEntry
  | .audit => queryAuditRows otherText db filters cursorKey limit
  | .stateMachine => queryStateMachineRows db filters cursorKey limit
  | .adviceBoundary => queryAdviceBoundaryRows otherText db filters cursorKey limit

structure ReconstructionPage where
  entries : List TimelineEntry
  nextCursor : Option PyStr
  totalInWindowEstimate : Nat

def maxLimit : Nat := 500

/--
The sources in the order in which the set is iterated over.
-/
def checkSources : Option (List PyStr) → Except ValueError (List Source)
  | none => .ok Source.valid
  | some sources =>
    let unknown := sources.filter fun source => (Source.ofName? source).isNone
    if unknown = [] then .ok (sources.filterMap Source.ofName?)
    else .error (.unknownSources (unknown.mergeSort fun a b => a ≤ b))

def cursorKey (decoded : Decoded) : Except ValueError CursorKey :=
  match Source.ofName? decoded.source with
  | some source => .ok ⟨decoded.occurredAt, source.order, decoded.sourceRowId⟩
  | none => .error (.unknownCursorSource decoded.source)

def checkCursor : Option PyStr → Except ValueError (Option CursorKey)
  | none => .ok none
  | some cursor => do
    let decoded ← decodeCursor parseFloat cursor
    let key ← cursorKey decoded
    return some key

/--
Strictly after the cursor.
-/
def isAfter (cursorKey : Option CursorKey) (entry : TimelineEntry) : Bool :=
  cursorKey.all fun k => k.key < entrySortKey entry

/--
The page and its cursor, cut off what was pulled from the sources.
-/
def pageOf (limit : Nat) (pulls : List TimelineEntry) : ReconstructionPage :=
  if limit < pulls.length then
    ⟨pulls.take limit, (pulls.take limit).getLast?.map encodeCursor, pulls.length⟩
  else ⟨pulls, none, pulls.length⟩

def reconstruct (db : TimelineTables) (filters : Filters) (sources : Option (List PyStr))
    (cursor : Option PyStr) (limit : Int) : Except ValueError ReconstructionPage :=
  if limit ≤ 0 ∨ maxLimit < limit then .error (.limitOutOfRange limit)
  else do
    let sources ← checkSources sources
    let cursorKey ← checkCursor parseFloat cursor
    let pulls := sources.flatMap (query otherText db filters cursorKey (limit.toNat + 1))
    let pulls := sortByKey entrySortKey pulls
    -- The queries leave out what is not after the cursor already.
    let pulls := pulls.filter (isAfter cursorKey)
    return pageOf limit.toNat pulls

end AuditReconstruction
