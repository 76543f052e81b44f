import Legalise.ModelGateway.Call
import Legalise.Python.Text

/-!
This module contains the runtime of prompt modules: the gates, the grants, the documents, the call of the
gateway and the artifact, in the order of an invocation.
-/

namespace Invocations

open AdviceBoundary (roleSatisfies)
open ModelGateway (ModelResult)
open Requests (AuditRow Err Fault PostureGateResult Request auditFailure auditLog query requireCapability)

structure Matter where
  id : Uuid
  privilegePosture : PyStr
  defaultModelId : PyStr

structure InvocationContext where
  actorUserId : Uuid
  actorRole : Option PyStr
  invocationId : Uuid

/--
The declaration of a capability in the manifest.
-/
structure Declaration where
  id : PyStr
  reads : List PyStr
  writes : List PyStr
  gates : List PyStr
  adviceTierMax : Option PyStr

/--
An installed module that is run from its instructions. A reference is a path with its content.
-/
structure PromptModule where
  moduleId : PyStr
  instructions : Option PyStr
  references : List (PyStr × PyStr)

structure Document where
  id : Uuid
  filename : PyStr
  sha256 : PyStr
  extractedText : Option PyStr

structure DocumentBlock where
  handle : PyStr
  documentId : PyStr
  filename : PyStr
  sha256 : PyStr
  bodyText : PyStr

/--
What an invocation finds: the grants, the documents of the matter, the setting of the firm role gates, and the id
and time of its decision row. `optionsText` is the JSON text of the options in a prompt, `outputOf` is the parse of a
reply with its source anchors, and `artifact` is how the upload of the artifact ends.
-/
structure Env where
  R : PyRepr
  grants : Capabilities.GrantTable
  documents : Uuid → Option Document
  firmRoleGatesEnabled : Bool
  decisionId : Uuid
  decidedAt : Timestamp
  optionsText : Dict → PyStr
  outputOf : PyStr → List DocumentBlock → Except Fault PyStr
  artifact : Except Fault Uuid

section PostureGate

/--
`POSTURE_POLICY`
-/
def posturePolicy : List (PyStr × PyStr) :=
  [(py "A_cleared", py "any_authenticated"), (py "B_mixed", py "qualified_solicitor")]

/--
`_evaluate_posture`
-/
def evaluatePosture (posture : PyStr) (actorRole : Option PyStr) (firmRoleGatesEnabled : Bool)
    : PostureGateResult :=
  if posture = py "C_paused" then
    {
      allowed := false, posture := posture, requiredRole := py "matter_paused", actorRole := actorRole
      reason := some (py "posture_paused")
    }
  else
    match posturePolicy.lookup posture with
    | none =>
      {
        allowed := false, posture := posture, requiredRole := py "unknown_posture", actorRole := actorRole
        reason := some (py "unknown_posture")
      }
    | some requirement =>
      let requirement := if firmRoleGatesEnabled then requirement else py "any_authenticated"
      if roleSatisfies actorRole [requirement] then
        { allowed := true, posture := posture, requiredRole := requirement, actorRole := actorRole }
      else
        {
          allowed := false, posture := posture, requiredRole := requirement, actorRole := actorRole
          reason := some (py "posture_gate_failed")
        }

def gateState (result : PostureGateResult) (firmRoleGatesEnabled : Bool) : Dict :=
  [
    (py "gate", .str (py "privilege_posture")),
    (py "posture", .str result.posture),
    (py "required_role", .str result.requiredRole),
    (py "actor_role", (result.actorRole.map Json.str).getD .null),
    (py "reason", .str (result.reason.getD [])),
    (py "firm_role_gates_enabled", .bool firmRoleGatesEnabled),
    (py "policy_mode", .str (
      if firmRoleGatesEnabled then py "firm_role_gates_enforced" else py "firm_role_gates_dormant"))
  ]

def postureBlockedRow (matter : Matter) (context : InvocationContext) (moduleId capabilityId : PyStr)
    (result : PostureGateResult) (firmRoleGatesEnabled : Bool) : AuditRow where
  action := py "posture_gate.check.blocked"
  actorId := some context.actorUserId
  matterId := some matter.id
  module := some (py "core.posture_gate")
  resourceType := some (py "matter")
  resourceId := some matter.id.str
  payload := [
    (py "module_id", .str moduleId),
    (py "capability_id", .str capabilityId),
    (py "status", .str (py "blocked")),
    (py "blocked_reason", .str (py "gate_blocked")),
    (py "gate_state", .dict (gateState result firmRoleGatesEnabled))
  ]

end PostureGate

section Run

variable (env : Env) (module : PromptModule) (declaration : Declaration) (matter : Matter)
  (context : InvocationContext) (args : Dict)

def evaluation : PostureGateResult :=
  evaluatePosture matter.privilegePosture context.actorRole env.firmRoleGatesEnabled

/--
The posture gate, if the capability declares it: `check_posture`, whose row is written on its own.
-/
def postureGate : Request Unit :=
  if py "privilege_posture" ∈ declaration.gates ∧ (evaluation env matter context).allowed = false then do
    auditFailure (postureBlockedRow matter context module.moduleId declaration.id (evaluation env matter context)
      env.firmRoleGatesEnabled)
    Traced.raise (.postureBlocked (evaluation env matter context))
  else pure ()

/--
`_coerce_document_ids`
-/
def coerceDocumentIds : Except Fault (List Uuid) :=
  let raw := match Dict.get args (py "document_ids"), Dict.get args (py "document_id") with
    | .list values, _ => values
    | _, .null => []
    | _, value => [value]
  raw.mapM fun value =>
    match Uuid.ofText? (value.toStr env.R) with
    | some id => .ok id
    | none => .error (.valueError (py "invalid document id " ++ value.repr env.R))

def loadDocument (idx : Nat) (documentId : Uuid) : Request DocumentBlock := do
  query
  match env.documents documentId with
  | none =>
    Traced.raise (.valueError
      (py "document " ++ documentId.str ++ py " not found in matter " ++ matter.id.str))
  | some document => do
    query
    return {
      handle := py "D" ++ pyNat idx
      documentId := document.id.str
      filename := document.filename
      sha256 := document.sha256
      bodyText := document.extractedText.getD []
    }

/--
`_load_documents`
-/
def loadDocuments : Nat → List Uuid → Request (List DocumentBlock)
  | _, [] => pure []
  | idx, documentId :: documentIds => do
    let block ← loadDocument env matter idx documentId
    let blocks ← loadDocuments (idx + 1) documentIds
    return block :: blocks

/--
One declared grant after the other.
-/
def requireGrants : List PyStr → Request Unit
  | [] => pure ()
  | capability :: capabilities => do
    requireCapability env.grants context.actorUserId module.moduleId declaration.id capability (some matter.id)
    requireGrants capabilities

/--
The documents that the caller asks for, behind the grants to read.
-/
def readDocuments (documentIds : List Uuid) : Request (List DocumentBlock) :=
  if documentIds = [] then pure []
  else if declaration.reads = [] then
    Traced.raise (.valueError (py "document id(s) supplied but this capability declares no reads"))
  else do
    requireGrants env module declaration matter context declaration.reads
    loadDocuments env matter 1 documentIds

def adviceTierMax : PyStr :=
  (declaration.adviceTierMax.filter (· ≠ [])).getD AdviceBoundary.adviceTierDraftAdvice

def adviceCall : AdviceBoundary.Call where
  outputId := context.invocationId.str
  requestedTier := adviceTierMax declaration
  declaredTierMax := some (adviceTierMax declaration)
  actorUserId := some context.actorUserId
  actorRole := context.actorRole
  moduleId := some module.moduleId
  capabilityId := some declaration.id
  matterId := some matter.id

def adviceCheck : AdviceBoundary.Checked :=
  AdviceBoundary.check env.R env.firmRoleGatesEnabled (adviceCall module declaration matter context)
    env.decisionId env.decidedAt

/--
The audit row of the gate, which does not name the matter.
-/
def adviceRow (checked : AdviceBoundary.Checked) : AuditRow where
  action := checked.emitted.action
  actorId := checked.emitted.actorId
  module := some checked.emitted.module
  resourceType := some checked.emitted.resourceType
  resourceId := some checked.emitted.resourceId
  payload := checked.emitted.payload

/--
`advice_boundary_check`, which leaves its rows to the transaction of the caller.
-/
def adviceGate : Request Unit := do
  let checked := adviceCheck env module declaration matter context
  Requests.add (.decision checked.decision)
  query
  auditLog (adviceRow checked)
  if checked.allowed then pure ()
  else Traced.raise (.adviceBoundaryDenied checked.decision.id checked.decision.gateState)

/--
`audit_phase1` of the primitive `capability`.
-/
def capabilityRow (action : PyStr) (payload : Dict) : AuditRow where
  action := action
  actorId := some context.actorUserId
  matterId := some matter.id
  module := some (py "core.capability")
  payload := AdviceBoundary.update payload [
    (py "module_id", .str module.moduleId), (py "capability_id", .str declaration.id)
  ]

def invokedRow (documentIds : List Uuid) : AuditRow :=
  capabilityRow module declaration matter context (py "module.capability.invoked") [
    (py "invocation_id", .str context.invocationId.str),
    (py "runtime", .str (py "prompt")),
    (py "document_ids", .list (documentIds.map fun id => .str id.str))
  ]

def completedRow (artifactId : Uuid) : AuditRow :=
  capabilityRow module declaration matter context (py "module.capability.completed") [
    (py "invocation_id", .str context.invocationId.str),
    (py "artifact_id", .str artifactId.str),
    (py "artifact_kind", .str (py "skill_response"))
  ]

/--
The `model_id` of the response.
-/
def modelId (result : ModelResult) : PyStr :=
  if result.modelUsed = [] then matter.defaultModelId else result.modelUsed

/--
The row of `audit_emit_model_invoked`.
-/
def modelInvokedRow (result : ModelResult) : AuditRow where
  action := py "model.invoked"
  actorId := some context.actorUserId
  matterId := some matter.id
  module := some module.moduleId
  modelUsed := some (modelId matter result)
  tokenCount := some result.tokenCount
  payload := [
    (py "module_id", .str module.moduleId),
    (py "capability_id", .str declaration.id),
    (py "model_id", .str (modelId matter result)),
    (py "provider", .str (if result.provider = [] then result.modelUsed else result.provider)),
    (py "tokens_in", .int result.tokensIn),
    (py "tokens_out", .int result.tokensOut),
    (py "cost_micros", .null),
    (py "currency", .null),
    (py "invocation_id", .str context.invocationId.str)
  ]

/--
`args.get("input") or args.get("question")`
-/
def userInput : Json :=
  if (Dict.get args (py "input")).truthy then Dict.get args (py "input") else Dict.get args (py "question")

/--
`extra_args`
-/
def extraArgs : Dict :=
  args.filter fun item =>
    item.fst ∉ [py "input", py "question", py "document_ids", py "document_id"]
      && !item.snd.isNone && !item.snd.pyEq (.str [])

/--
`_build_prompt`
-/
def buildPrompt (blocks : List DocumentBlock) : PyStr :=
  join (py "\n") (
    [py "Skill: " ++ module.moduleId ++ py " / " ++ declaration.id]
      ++ (module.references.filter fun reference => reference.snd ≠ []).map (fun reference =>
        py "\n--- reference: " ++ reference.fst ++ py " ---\n" ++ reference.snd)
      ++ blocks.map (fun block =>
        py "\n--- document " ++ block.handle ++ py " ---\nid: " ++ block.documentId ++ py "\nfilename: "
          ++ block.filename ++ py "\n"
          ++ (if block.bodyText = [] then py "(no extracted text available for this document)"
            else block.bodyText))
      ++ (if (userInput args).truthy then
          [py "\n--- request ---\n" ++ (userInput args).toStr env.R]
        else [])
      ++ (if extraArgs args = [] then []
        else [py "\n--- request options ---\n" ++ env.optionsText (extraArgs args)])
      ++ (if blocks = [] then []
        else [
          py "\n--- citing sources (optional) ---\nIf your answer relies on the documents above, you may reply as "
            ++ py "JSON: \x7b\"output\": \"<your answer>\", \"claims\": [\x7b\"text\": \"<claim>\", "
            ++ py "\"source_handles\": [\"D1\"], \"quote\": \"<verbatim excerpt>\"\x7d]\x7d. Otherwise reply normally."
        ]))

/--
`write_artifact`: the upload, and the insert of the row.
-/
def writeArtifact : Request Uuid :=
  match env.artifact with
  | .error fault => Traced.raise (.fault fault)
  | .ok id => do
    Requests.add (.artifact id)
    query
    return id

/--
What an invocation does before the provider is called, up to the prompt.
-/
def beforeProvider : Request (PyStr × List DocumentBlock) := do
  if declaration.id = [] then Traced.raise (.valueError (py "prompt capability declaration missing id"))
  else if (module.instructions.getD []) = [] then
    Traced.raise (.valueError (py "prompt runtime requires entrypoint.instructions in the manifest"))
  else
    postureGate env module declaration matter context
    let documentIds ← Requests.ofFault (coerceDocumentIds env args)
    let blocks ← readDocuments env module declaration matter context documentIds
    adviceGate env module declaration matter context
    auditLog (invokedRow module declaration matter context documentIds)
    return (buildPrompt env module declaration args blocks, blocks)

/--
What an invocation does with the reply.
-/
def afterProvider (blocks : List DocumentBlock) (result : ModelResult) : Request (Uuid × PyStr) := do
  let output ← Requests.ofFault (env.outputOf result.text blocks)
  auditLog (modelInvokedRow module declaration matter context result)
  requireGrants env module declaration matter context declaration.writes
  let artifactId ← writeArtifact env
  auditLog (completedRow module declaration matter context artifactId)
  return (artifactId, output)

/--
`run_prompt_capability`
-/
def runPromptCapability (providerCall : PyStr → Request ModelResult) : Request (Uuid × PyStr) := do
  let (prompt, blocks) ← beforeProvider env module declaration matter context args
  let result ← providerCall prompt
  afterProvider env module declaration matter context blocks result

end Run

end Invocations
