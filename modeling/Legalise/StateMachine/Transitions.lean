import Legalise.AuditReconstruction.Basic
import Legalise.Capabilities.Grants
import Legalise.StateMachine.Definition

/-!
This module contains the runtime of state machines: a request for a transition is checked against the
definition, the grants and the gates, and ends in one row.
-/

namespace StateMachine

open AuditReconstruction (StateMachineTransition)
open Capabilities (GrantTable requireCapability)

def transitionStatusCompleted : PyStr := py "completed"

def transitionStatusBlocked : PyStr := py "blocked"

def transitionStatusFailed : PyStr := py "failed"

inductive BlockedReason where
  | capabilityDenied
  | gateBlocked
  | invalidTransition
  | schemaViolation
  | roleDenied
  | missingInput
  | tierExceeded
  | tierDisallowed

def BlockedReason.value : BlockedReason → PyStr
  | .capabilityDenied => py "capability_denied"
  | .gateBlocked => py "gate_blocked"
  | .invalidTransition => py "invalid_transition"
  | .schemaViolation => py "schema_violation"
  | .roleDenied => py "role_denied"
  | .missingInput => py "missing_input"
  | .tierExceeded => py "tier_exceeded"
  | .tierDisallowed => py "tier_disallowed"

structure BlockedPayload where
  blockedReason : BlockedReason
  deniedCapability : Option PyStr := none
  gateState : Option Dict := none

def BlockedPayload.toDict (blocked : BlockedPayload) : Dict :=
  [(py "status", .str (py "blocked")), (py "blocked_reason", .str blocked.blockedReason.value)]
    ++ (blocked.deniedCapability.map fun capability =>
      (py "denied_capability", Json.str capability)).toList
    ++ (blocked.gateState.map fun gateState => (py "gate_state", Json.dict gateState)).toList

/--
An instance as a session holds it.
-/
structure Instance where
  id : Uuid
  definitionId : Uuid
  definitionVersion : PyStr
  currentState : PyStr

/--
The arguments of a call of `request_transition`.
-/
structure Request where
  toState : PyStr
  userId : Option Uuid
  actorId : Option Uuid := none
  moduleId : Option PyStr := none
  reason : Option PyStr := none
  extraMetadata : Option Dict := none

def Request.actor (r : Request) : Option Uuid :=
  r.actorId.or r.userId

/--
How a gate handler ends: it returns, it raises `Phase1Blocked`, or it raises something else.
-/
inductive GateOutcome where
  | allowed (result : Dict)
  | blocked (payload : BlockedPayload)
  | raised (detail : PyStr)

/--
What a request finds around it: the grants, the registered gate handlers, and the id and the time of its row.
-/
structure Env where
  grants : GrantTable
  gateHandlers : PyStr → Option (Instance → Transition → Request → GateOutcome)
  rowId : Uuid
  now : Timestamp

inductive Raised where
  | phase1Blocked (payload : BlockedPayload)
  | phase1Failed (message : PyStr)

/--
The end of a request: the row that it appends, the audit rows, and what it raises.
-/
structure Outcome where
  row : StateMachineTransition
  audit : List AuditLog
  raised : Option Raised

section Request

variable (R : PyRepr) (definition : Definition) (env : Env) (inst : Instance) (r : Request)

/--
`_append_transition`
-/
def appendTransition (capabilityId : Option PyStr) (gateState : Dict) (status : PyStr)
    : StateMachineTransition where
  id := env.rowId
  instanceId := inst.id
  fromState := inst.currentState
  toState := r.toState
  actorId := r.actor
  moduleId := r.moduleId
  capabilityId := capabilityId
  reason := r.reason
  extraMetadata := r.extraMetadata.getD []
  gateState := gateState
  status := status
  occurredAt := env.now

/--
`audit_phase1` of the primitive `state_machine`.
-/
def auditPhase1 (action : PyStr) (actorId : Option Uuid) (moduleId capabilityId resourceId : Option PyStr)
    (payload : Dict) (blocked : Option BlockedPayload) : AuditLog where
  action := action
  actorId := actorId
  module := some (py "core.state_machine")
  resourceType := some (py "state_machine_transition")
  resourceId := resourceId
  payload :=
    let composed := ((moduleId.map fun moduleId => (py "module_id", Json.str moduleId)).toList
      ++ (capabilityId.map fun capabilityId => (py "capability_id", Json.str capabilityId)).toList
      ).foldl (fun d item => d.set item.fst item.snd) payload
    ((blocked.map BlockedPayload.toDict).getD []).foldl (fun d item => d.set item.fst item.snd) composed

/--
`_emit_outcome_audit`
-/
def emitOutcomeAudit (action : PyStr) (row : StateMachineTransition) (capabilityId : Option PyStr)
    (blocked : Option BlockedPayload) (extraPayload : Dict) : AuditLog :=
  let payload : Dict := extraPayload.foldl (fun d item => d.set item.fst item.snd) [
    (py "instance_id", .str inst.id.str),
    (py "transition_id", .str row.id.str),
    (py "from_state", .str row.fromState),
    (py "to_state", .str row.toState),
    (py "definition_id", .str inst.definitionId.str),
    (py "definition_version", .str inst.definitionVersion)
  ]
  auditPhase1 action r.actor r.moduleId capabilityId (some row.id.str) payload blocked

/--
`extra_payload`
-/
def Request.extraPayload : Dict :=
  match r.reason with
  | some reason => if reason = [] then [] else [(py "reason", .str reason)]
  | none => []

/--
A request that is blocked: its row holds the payload.
-/
def block (capabilityId : Option PyStr) (blocked : BlockedPayload) : Outcome :=
  let row := appendTransition env inst r capabilityId blocked.toDict transitionStatusBlocked
  {
    row := row
    audit := [emitOutcomeAudit inst r (py "state_machine.transition.blocked") row capabilityId (some blocked)
      r.extraPayload]
    raised := some (.phase1Blocked blocked)
  }

/--
A request whose gate handler raises.
-/
def fail (gateId detail : PyStr) : Outcome :=
  let row := appendTransition env inst r none [
    (py "error", .str (py "gate_handler_failed")),
    (py "gate", .str gateId),
    (py "detail", .str detail)
  ] transitionStatusFailed
  {
    row := row
    audit := [emitOutcomeAudit inst r (py "state_machine.transition.failed") row none none
      [(py "error", .str (py "gate_handler_failed")), (py "gate", .str gateId)]]
    raised := some (.phase1Failed (py "gate " ++ R.str gateId ++ py " handler raised: " ++ detail))
  }

/--
One capability that the transition requires. The denial by `check_or_block` has its own audit rows.
-/
def checkOrBlock (capability : PyStr) : Except Outcome Unit :=
  let blocked : BlockedPayload :=
    { blockedReason := .capabilityDenied, deniedCapability := some capability }
  match r.userId with
  | none => .error (block env inst r (some capability) blocked)
  | some userId =>
    match requireCapability env.grants userId (py "core") (py "state_machine") capability none with
    | .ok () => .ok ()
    | .error denied =>
      .error {
        row := appendTransition env inst r (some capability) blocked.toDict transitionStatusBlocked
        audit := [
          denied.audit,
          auditPhase1 (py "state_machine.transition.blocked") (r.actor.or (some userId)) (some (py "core"))
            (some capability) (some inst.id.str) [] (some blocked)
        ]
        raised := some (.phase1Blocked blocked)
      }

/--
One gate of the transition.
-/
def runGate (transition : Transition) (gateId : PyStr) : Except Outcome Dict :=
  match env.gateHandlers gateId with
  | none =>
    .error (block env inst r none {
      blockedReason := .gateBlocked
      gateState := some [(py "gate", .str gateId), (py "error", .str (py "gate_not_registered"))]
    })
  | some handler =>
    match handler inst transition r with
    | .allowed result => .ok result
    | .blocked payload => .error (block env inst r none payload)
    | .raised detail => .error (fail R env inst r gateId detail)

def complete (gateState : Dict) : Outcome :=
  let row := appendTransition env inst r none gateState transitionStatusCompleted
  {
    row := row
    audit := [emitOutcomeAudit inst r (py "state_machine.transition.completed") row none none r.extraPayload]
    raised := none
  }

/--
The checks of a request. What stops it is the error.
-/
def checkTransition : Except Outcome Dict :=
  match findTransition definition inst.currentState r.toState with
  | none =>
    .error (block env inst r none {
      blockedReason := .invalidTransition
      gateState := some [
        (py "from_state", .str inst.currentState),
        (py "to_state", .str r.toState),
        (py "definition_id", .str inst.definitionId.str)
      ]
    })
  | some transition => do
    transition.requiredCapabilities.forM (checkOrBlock env inst r)
    transition.gates.foldlM
      (fun accumulated gateId => do
        let result ← runGate R env inst r transition gateId
        return accumulated.set gateId (.dict result))
      []

/--
`request_transition` of an instance that the session holds.
-/
def requestTransition : Outcome :=
  match checkTransition R definition env inst r with
  | .ok gateState => complete env inst r gateState
  | .error outcome => outcome

end Request

section Lemmas

variable {R : PyRepr} {definition : Definition} {env : Env} {inst : Instance} {r : Request}

/--
A row of a request: it leaves from the state that the session holds.
-/
structure IsRowOf (inst : Instance) (r : Request) (row : StateMachineTransition) : Prop where
  fromState : row.fromState = inst.currentState
  toState : row.toState = r.toState

theorem isRowOf_appendTransition (env : Env) (capabilityId : Option PyStr) (gateState : Dict) (status : PyStr)
    : IsRowOf inst r (appendTransition env inst r capabilityId gateState status) := ⟨rfl, rfl⟩

/--
What stops a request appends a row of it that is not completed.
-/
def Stops (inst : Instance) (r : Request) (outcome : Outcome) : Prop :=
  IsRowOf inst r outcome.row ∧ outcome.row.status ≠ transitionStatusCompleted

theorem stops_block (capabilityId : Option PyStr) (blocked : BlockedPayload)
    : Stops inst r (block env inst r capabilityId blocked) :=
  ⟨isRowOf_appendTransition .., by simp [block, appendTransition]; decide⟩

theorem stops_fail (gateId detail : PyStr) : Stops inst r (fail R env inst r gateId detail) :=
  ⟨isRowOf_appendTransition .., by simp [fail, appendTransition]; decide⟩

theorem stops_checkOrBlock {capability : PyStr} {outcome : Outcome}
    (h : checkOrBlock env inst r capability = .error outcome) : Stops inst r outcome := by
  unfold checkOrBlock at h
  split at h
  . cases h
    exact stops_block ..
  . split at h
    . contradiction
    . cases h
      exact ⟨isRowOf_appendTransition .., by simp [appendTransition]; decide⟩

theorem stops_runGate {transition : Transition} {gateId : PyStr} {outcome : Outcome}
    (h : runGate R env inst r transition gateId = .error outcome) : Stops inst r outcome := by
  unfold runGate at h
  split at h
  . cases h
    exact stops_block ..
  . split at h
    . contradiction
    . cases h
      exact stops_block ..
    . cases h
      exact stops_fail ..

theorem checkTransition_eq_error {outcome : Outcome}
    (h : checkTransition R definition env inst r = .error outcome) : Stops inst r outcome := by
  unfold checkTransition at h
  split at h
  . cases h
    exact stops_block ..
  . rw [Except.bind_eq_error_iff] at h
    rcases h with hcapability | ⟨_, _, hgate⟩
    . exact Except.of_forM_eq_error (fun _ _ => stops_checkOrBlock) hcapability
    . refine Except.of_foldlM_eq_error (fun accumulated gateId outcome hstep => ?_) hgate
      rw [Except.bind_eq_error_iff] at hstep
      rcases hstep with hstep | ⟨_, _, hreturn⟩
      . exact stops_runGate hstep
      . cases hreturn

/--
Every request appends one row from the state that the session holds, and completes only transitions of the
definition.
-/
theorem requestTransition_row
    : IsRowOf inst r (requestTransition R definition env inst r).row
        ∧ ((requestTransition R definition env inst r).row.status = transitionStatusCompleted
          → definition.Declares inst.currentState r.toState) := by
  unfold requestTransition
  split
  . next gateState h =>
    refine ⟨isRowOf_appendTransition .., fun _ => ?_⟩
    unfold checkTransition at h
    split at h
    . contradiction
    . next transition htransition => exact declares_of_findTransition htransition
  . next outcome h =>
    have hstops := checkTransition_eq_error h
    exact ⟨hstops.left, fun hcompleted => absurd hcompleted hstops.right⟩

end Lemmas

end StateMachine
