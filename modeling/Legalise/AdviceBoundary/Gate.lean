import Legalise.AuditReconstruction.Basic

/-!
This module contains the advice boundary: the tiers, the rules for moving between them, and the gate
that decides on a call and writes one decision row for it.
-/

namespace AdviceBoundary

open AuditReconstruction

def adviceTierFactualExtraction : PyStr := py "factual_extraction"

def adviceTierLegalInformation : PyStr := py "legal_information"

def adviceTierDraftAdvice : PyStr := py "draft_advice"

def adviceTierSupervisedLegalAdvice : PyStr := py "supervised_legal_advice"

def adviceTierApprovedFinalAdvice : PyStr := py "approved_final_advice"

/--
`_TIER_RANK`
-/
def tierRanks : List (PyStr × Nat) :=
  [
    (adviceTierFactualExtraction, 1),
    (adviceTierLegalInformation, 2),
    (adviceTierDraftAdvice, 3),
    (adviceTierSupervisedLegalAdvice, 4),
    (adviceTierApprovedFinalAdvice, 5)
  ]

/--
`ROLE_REQUIREMENTS`, whose keys are also the `ALLOWED_TRANSITIONS`.
-/
def roleRequirements : List ((PyStr × PyStr) × List PyStr) :=
  [
    ((adviceTierFactualExtraction, adviceTierLegalInformation), [py "any_authenticated"]),
    ((adviceTierFactualExtraction, adviceTierDraftAdvice), [py "any_authenticated"]),
    ((adviceTierLegalInformation, adviceTierDraftAdvice), [py "any_authenticated"]),
    ((adviceTierDraftAdvice, adviceTierSupervisedLegalAdvice), [py "qualified_solicitor"]),
    (
      (adviceTierSupervisedLegalAdvice, adviceTierApprovedFinalAdvice),
      [py "qualified_solicitor", py "workspace_admin"]
    )
  ]

def allowedTransitions : List (PyStr × PyStr) :=
  [
    (adviceTierFactualExtraction, adviceTierLegalInformation),
    (adviceTierFactualExtraction, adviceTierDraftAdvice),
    (adviceTierLegalInformation, adviceTierDraftAdvice),
    (adviceTierDraftAdvice, adviceTierSupervisedLegalAdvice),
    (adviceTierSupervisedLegalAdvice, adviceTierApprovedFinalAdvice)
  ]

def terminalTiers : List PyStr := [adviceTierApprovedFinalAdvice]

def initialTierRoleRequirements : List (PyStr × List PyStr) :=
  [
    (adviceTierFactualExtraction, [py "any_authenticated"]),
    (adviceTierLegalInformation, [py "any_authenticated"]),
    (adviceTierDraftAdvice, [py "any_authenticated"])
  ]

def initialTierIsPermitted (tier : PyStr) : Bool :=
  tier ∈ initialTierRoleRequirements.map Prod.fst

/--
`assert_tier` does not raise.
-/
def isTier (value : PyStr) : Bool :=
  value ∈ tierRanks.map Prod.fst

/--
The text of the `InvalidTierError`.
-/
def invalidTierMessage (R : PyRepr) (value : PyStr) : PyStr :=
  let valid := ((tierRanks.map Prod.fst).mergeSort fun a b => a ≤ b).map Json.str
  py "unknown advice tier " ++ R.str value ++ py "; valid: " ++ (Json.list valid).repr R

/--
`tier_rank` of a tier.
-/
def tierRank (tier : PyStr) : Nat :=
  (tierRanks.lookup tier).getD 0

def isTerminalTier (tier : PyStr) : Bool :=
  tier ∈ terminalTiers

def isAllowedTransition (fromTier toTier : PyStr) : Bool :=
  (fromTier, toTier) ∈ allowedTransitions

def roleSatisfies (actorRole : Option PyStr) (requirementSet : List PyStr) : Bool :=
  match actorRole with
  | none => false
  | some actorRole => py "any_authenticated" ∈ requirementSet || actorRole ∈ requirementSet

inductive BlockedReason where
  | invalidTransition
  | roleDenied
  | tierExceeded
  | tierDisallowed

def BlockedReason.value : BlockedReason → PyStr
  | .invalidTransition => py "invalid_transition"
  | .roleDenied => py "role_denied"
  | .tierExceeded => py "tier_exceeded"
  | .tierDisallowed => py "tier_disallowed"

structure BlockedPayload where
  blockedReason : BlockedReason
  deniedCapability : Option PyStr := none
  gateState : Option Dict

/--
`d.update(other)`
-/
def update (d other : Dict) : Dict :=
  other.foldl (fun d item => d.set item.fst item.snd) d

def BlockedPayload.toDict (blocked : BlockedPayload) : Dict :=
  [(py "status", .str (py "blocked")), (py "blocked_reason", .str blocked.blockedReason.value)]
    ++ (blocked.deniedCapability.map fun capability =>
      (py "denied_capability", Json.str capability)).toList
    ++ (blocked.gateState.map fun gateState => (py "gate_state", Json.dict gateState)).toList

def blockedToDecisionGateState (blocked : BlockedPayload) : Dict :=
  let out : Dict :=
    [(py "status", .str (py "blocked")), (py "blocked_reason", .str blocked.blockedReason.value)]
      ++ (blocked.deniedCapability.map fun capability =>
        (py "denied_capability", Json.str capability)).toList
  match blocked.gateState with
  | some gateState => update out gateState
  | none => out

/--
The arguments of a call of `check`.
-/
structure Call where
  outputId : PyStr
  requestedTier : PyStr
  fromTier : Option PyStr := none
  declaredTierMax : Option PyStr := none
  actorUserId : Option Uuid := none
  actorRole : Option PyStr := none
  moduleId : Option PyStr := none
  capabilityId : Option PyStr := none
  matterId : Option Uuid := none

/--
What a branch of `check` returns and writes into the decision row and into the audit row.
-/
structure Verdict where
  allowed : Bool
  status : PyStr
  gateState : Dict
  action : PyStr
  blocked : Option BlockedPayload

def Verdict.ofBlocked (status action : PyStr) (blocked : BlockedPayload) : Verdict where
  allowed := false
  status := status
  gateState := blockedToDecisionGateState blocked
  action := action
  blocked := some blocked

/--
The tiers of a call in the order in which they are asserted.
-/
def Call.tiers (call : Call) : List PyStr :=
  call.requestedTier :: (call.fromTier.toList ++ call.declaredTierMax.toList)

/--
The set of roles, one of which the actor needs.
-/
def Call.roleRequirement (call : Call) : List PyStr :=
  match call.fromTier with
  | some fromTier => (roleRequirements.lookup (fromTier, call.requestedTier)).getD []
  | none => (initialTierRoleRequirements.lookup call.requestedTier).getD []

def failed (R : PyRepr) (tier : PyStr) : Verdict where
  allowed := false
  status := py "failed"
  gateState := [
    (py "error", .str (py "invalid_tier")), (py "detail", .str (invalidTierMessage R tier))
  ]
  action := py "advice_boundary.check.failed"
  blocked := none

def blockedTerminal (call : Call) (fromTier : PyStr) : Verdict :=
  .ofBlocked (py "blocked") (py "advice_boundary.check.blocked") {
    blockedReason := .tierDisallowed
    gateState := some [
      (py "from_tier", .str fromTier),
      (py "to_tier", .str call.requestedTier),
      (py "reason", .str (py "from_tier_is_terminal"))
    ]
  }

def blockedTransition (call : Call) (fromTier : PyStr) : Verdict :=
  .ofBlocked (py "blocked") (py "advice_boundary.check.blocked") {
    blockedReason := .invalidTransition
    gateState := some [
      (py "from_tier", .str fromTier),
      (py "to_tier", .str call.requestedTier),
      (py "reason", .str (py "transition_not_allowed"))
    ]
  }

def blockedInitialTier (call : Call) : Verdict :=
  .ofBlocked (py "blocked") (py "advice_boundary.check.blocked") {
    blockedReason := .invalidTransition
    gateState := some [
      (py "to_tier", .str call.requestedTier),
      (py "reason", .str (py "tier_not_permitted_as_initial")),
      (py "max_initial_tier", .str adviceTierDraftAdvice)
    ]
  }

def deniedRole (call : Call) : Verdict :=
  .ofBlocked (py "denied") (py "advice_boundary.check.denied") {
    blockedReason := .roleDenied
    gateState := some [
      (py "actor_role", text? call.actorRole),
      (py "required", .list ((call.roleRequirement.mergeSort fun a b => a ≤ b).map .str)),
      (py "from_tier", text? call.fromTier),
      (py "to_tier", .str call.requestedTier)
    ]
  }

def deniedTierExceeded (call : Call) (declaredTierMax : PyStr) : Verdict :=
  .ofBlocked (py "denied") (py "advice_boundary.check.denied") {
    blockedReason := .tierExceeded
    gateState := some [
      (py "requested_tier", .str call.requestedTier),
      (py "declared_tier_max", .str declaredTierMax),
      (py "reason", .str (py "requested_tier_exceeds_declared_max"))
    ]
  }

def completed (call : Call) : Verdict where
  allowed := true
  status := py "completed"
  gateState :=
    let success : Dict := [
      (py "allowed", .bool true),
      (py "declared_tier_max_supplied", .bool call.declaredTierMax.isSome)
    ]
    match call.matterId with
    | some matterId => success.set (py "matter_id") (.str matterId.str)
    | none => success
  action := py "advice_boundary.check.completed"
  blocked := none

/--
The role check and the ceiling, once the transition is allowed.
-/
def verdictOnActor (firmRoleGatesEnabled : Bool) (call : Call) : Verdict :=
  if !firmRoleGatesEnabled || roleSatisfies call.actorRole call.roleRequirement then
    match call.declaredTierMax with
    | some declaredTierMax =>
      if tierRank declaredTierMax < tierRank call.requestedTier then
        deniedTierExceeded call declaredTierMax
      else completed call
    | none => completed call
  else deniedRole call

variable (R : PyRepr) (firmRoleGatesEnabled : Bool)

def verdict (call : Call) : Verdict :=
  match call.tiers.find? fun tier => !isTier tier with
  | some tier => failed R tier
  | none =>
    match call.fromTier with
    | some fromTier =>
      if isTerminalTier fromTier then blockedTerminal call fromTier
      else if isAllowedTransition fromTier call.requestedTier then
        verdictOnActor firmRoleGatesEnabled call
      else blockedTransition call fromTier
    | none =>
      if initialTierIsPermitted call.requestedTier then verdictOnActor firmRoleGatesEnabled call
      else blockedInitialTier call

/--
The row of `_append_decision`, whose id and time are set when it is made.
-/
def decisionRow (call : Call) (id : Uuid) (decidedAt : Timestamp) : AdviceBoundaryDecision where
  id := id
  outputId := call.outputId
  fromTier := call.fromTier
  toTier := call.requestedTier
  actorUserId := call.actorUserId
  actorRole := call.actorRole
  moduleId := call.moduleId
  capabilityId := call.capabilityId
  declaredTierMax := call.declaredTierMax
  gateState := (verdict R firmRoleGatesEnabled call).gateState
  status := (verdict R firmRoleGatesEnabled call).status
  decidedAt := decidedAt

/--
The arguments that `_emit` logs an audit row with. The matter is not one of them.
-/
structure Emitted where
  action : PyStr
  actorId : Option Uuid
  module : PyStr
  resourceType : PyStr
  resourceId : PyStr
  payload : Dict

def emit (action : PyStr) (decision : AdviceBoundaryDecision) (blocked : Option BlockedPayload)
    : Emitted where
  action := action
  actorId := decision.actorUserId
  module := py "core.advice_boundary"
  resourceType := py "advice_boundary_decision"
  resourceId := decision.id.str
  payload :=
    let payload : Dict := [
      (py "output_id", .str decision.outputId),
      (py "from_tier", text? decision.fromTier),
      (py "to_tier", .str decision.toTier),
      (py "actor_role", text? decision.actorRole),
      (py "declared_tier_max", text? decision.declaredTierMax)
    ]
    let payload := surface payload (py "module_id") (decision.moduleId.map .str)
    let payload := surface payload (py "capability_id") (decision.capabilityId.map .str)
    match blocked with
    | some blocked => update payload blocked.toDict
    | none => payload

/--
What `check` returns, together with the rows it has added to the session.
-/
structure Checked where
  allowed : Bool
  decision : AdviceBoundaryDecision
  emitted : Emitted

def check (call : Call) (id : Uuid) (decidedAt : Timestamp) : Checked :=
  let decision := decisionRow R firmRoleGatesEnabled call id decidedAt
  let v := verdict R firmRoleGatesEnabled call
  {
    allowed := v.allowed
    decision := decision
    emitted := emit v.action decision v.blocked
  }

end AdviceBoundary
