import Legalise.Assistant.Context
import Legalise.Invocations.Refusals

/-!
This module contains a turn of the assistant: the budget guard, the call of the model, the answers without a model,
the tool loop, and the rolling summary.
-/

namespace Assistant

open Invocations (Matter PromptModule Declaration)
open ModelGateway (CallArgs ModelResult PrivilegePosture ProviderOutcome)
open Requests (AssistantMessage AssistantSource AuditRow Err Fault Request Row SuggestedAction auditFailure auditLog commit
  query)

structure ToolCall where
  moduleId : PyStr
  capabilityId : PyStr
  args : Dict

/--
`AssistantResponseEnvelope`
-/
structure Envelope where
  content : PyStr
  suggestedActions : List SuggestedAction
  toolCalls : List ToolCall

/--
How a tool runs: from its instructions, or by a class of its module.
-/
inductive Runtime where
  | prompt (module : PromptModule) (declaration : Declaration)
  | native (invoke : Dict → Request Dict)

structure AssistantToolSpec where
  moduleId : PyStr
  capabilityId : PyStr
  runtime : Runtime

/--
The messages of a matter in the order of their times, and the rolling summaries of its threads.
-/
structure Store where
  messages : List AssistantMessage
  summaries : Uuid → Option PyStr

/--
What a turn is asked and what it finds. `userMessageId` and `replyId` are the keys of its two rows, `outcome` is how the
provider ends the call of each number, `parse` is `parse_model_json`, `resultOf` is the result of a prompt module as a
dictionary, `toolJson` is the text of `json.dumps` for the final prompt, and `documentSummary` is the extract that
answers without a model.
-/
structure Turn where
  W : ModelGateway.World
  env : Invocations.Env
  matterTokenBudget : Int
  contextTokenBudget : Int
  matter : Matter
  actorId : Uuid
  actorRole : Option PyStr
  threadId : Uuid
  content : PyStr
  selectedDocumentIds : List Uuid
  selectedDocuments : List (Document × Option PyStr)
  hits : List RetrievalHit
  filenames : Uuid → Option PyStr
  sections : Sections
  tools : List AssistantToolSpec
  userMessageId : Uuid
  replyId : Uuid
  invocationId : Uuid
  outcome : Nat → ProviderOutcome
  parse : PyStr → Option Envelope
  resultOf : Uuid × PyStr → Dict
  toolJson : ToolCall → Uuid → Dict → PyStr
  documentSummary : PyStr → List Snippet → Option (PyStr × List SuggestedAction)

section Reading

variable (turn : Turn) (store : Store)

/--
`_matter_token_usage`
-/
def matterTokenUsage : Int :=
  (store.messages.map fun message => message.tokenCount.getD 0).sum

def threadMessages (store : Store) (threadId : Uuid) : List AssistantMessage :=
  store.messages.filter fun message => message.threadId = threadId

/--
`_load_history`
-/
def loadHistory : List AssistantMessage :=
  let messages := threadMessages store turn.threadId
  messages.drop (messages.length - historyMessageLimit)

def summaryForContext : Option PyStr :=
  if historyMessageLimit < (threadMessages store turn.threadId).length then store.summaries turn.threadId else none

def retrievalUsed : Bool :=
  turn.selectedDocumentIds.isEmpty

def retrievalHits : List RetrievalHit :=
  if retrievalUsed turn then turn.hits else []

def snippets : List Snippet :=
  if retrievalUsed turn then loadRetrievedSnippets turn.filenames turn.hits
  else loadSelectedSnippets turn.selectedDocuments

def messageSources : List AssistantSource :=
  buildSources (snippets turn) (retrievalHits turn)

def prompt : PyStr :=
  assemblePrompt turn.sections (loadHistory turn store) (snippets turn) (retrievalUsed turn) turn.content
    turn.contextTokenBudget (summaryForContext turn store)

def parsePosture : Except Fault PrivilegePosture :=
  let value := turn.matter.privilegePosture
  if value = PrivilegePosture.aCleared.value then .ok .aCleared
  else if value = PrivilegePosture.bMixed.value then .ok .bMixed
  else if value = PrivilegePosture.cPaused.value then .ok .cPaused
  else .error (.valueError (turn.W.R.str value ++ py " is not a valid PrivilegePosture"))

end Reading

section Rows

variable (turn : Turn)

def userMessage : AssistantMessage where
  threadId := turn.threadId
  role := .user
  content := turn.content

def auditRow (action : PyStr) (payload : Dict) : AuditRow where
  action := action
  actorId := some turn.actorId
  matterId := some turn.matter.id
  module := some (py "assistant")
  resourceType := some (py "assistant_message")
  resourceId := some turn.replyId.str
  payload := payload

/--
The row of `_audit_retrieval_search`.
-/
def retrievalSearchRow (queryHash : PyStr) : AuditRow where
  action := py "retrieval.search"
  actorId := some turn.actorId
  matterId := some turn.matter.id
  module := some (py "assistant")
  resourceType := some (py "matter")
  resourceId := some turn.matter.id.str
  promptHash := some queryHash
  payload := [
    (py "source", .str (py "retrieval")),
    (py "query_char_len", .int turn.content.length),
    (py "k", .int retrievalK),
    (py "hit_count", .int turn.hits.length),
    (py "document_ids", .list (((turn.hits.map fun hit => hit.documentId.str).dedup.mergeSort fun a b => a ≤ b).map
      .str))
  ]

def budgetMessage (used : Int) : AssistantMessage where
  threadId := turn.threadId
  role := .assistant
  content := py "This matter has reached its configured token budget (" ++ pyInt used ++ py " tokens used of "
    ++ pyInt turn.matterTokenBudget ++ py "). Continue in a new matter, or ask whoever runs this workspace to raise "
    ++ py "LEGALISE_MATTER_TOKEN_BUDGET."
  modelUsed := some (py "budget-guard")
  tokenCount := some 0

def budgetRow (used : Int) : AuditRow :=
  auditRow turn (py "assistant.budget.exceeded") [
    (py "used", .int used), (py "budget", .int turn.matterTokenBudget)
  ]

/--
The reply of a turn that no model has answered.
-/
def deterministicMessage (content : PyStr) (actions : List SuggestedAction) (sources : List AssistantSource)
    (modelUsed : PyStr) : AssistantMessage where
  threadId := turn.threadId
  role := .assistant
  content := content
  suggestedActions := actions
  sources := sources
  modelUsed := some modelUsed
  tokenCount := some 0

def deterministicRow (store : Store) (actions : List SuggestedAction) (kind : PyStr) : AuditRow :=
  auditRow turn (py "module.assistant.message") [
    (py "suggested_action_count", .int actions.length),
    (py "history_message_count", .int (loadHistory turn store).length),
    (py "context_token_budget", .int turn.contextTokenBudget),
    (py "selected_document_count", .int turn.selectedDocumentIds.length),
    (py "parse_failed", .bool false),
    (py "deterministic", .str kind)
  ]

/--
What a turn makes of the replies of its models.
-/
structure Composed where
  content : PyStr
  actions : List SuggestedAction
  result : ModelResult
  parseFailed : Bool := false
  toolCallCount : Nat := 0
  toolResult : Option Dict := none
  toolFailed : Bool := false

/--
The reply of a model.
-/
def replyMessage (composed : Composed) : AssistantMessage where
  threadId := turn.threadId
  role := .assistant
  content := composed.content
  suggestedActions := composed.actions
  sources := messageSources turn
  modelUsed := some composed.result.modelUsed
  promptHash := some composed.result.promptHash
  responseHash := some composed.result.responseHash
  tokenCount := some composed.result.tokenCount

def replyRow (store : Store) (composed : Composed) : AuditRow :=
  auditRow turn (py "module.assistant.message") [
    (py "suggested_action_count", .int composed.actions.length),
    (py "history_message_count", .int (loadHistory turn store).length),
    (py "context_token_budget", .int turn.contextTokenBudget),
    (py "selected_document_count", .int turn.selectedDocumentIds.length),
    (py "parse_failed", .bool composed.parseFailed),
    (py "tool_call_count", .int composed.toolCallCount),
    (py "tool_invocation_id", (composed.toolResult.map fun _ => Json.str turn.invocationId.str).getD .null),
    (py "tool_result", (composed.toolResult.map Json.dict).getD .null),
    (py "tool_failed", .bool composed.toolFailed)
  ]

def summaryRow (result : ModelResult) (older : Nat) (hadPrior : Bool) : AuditRow where
  action := py "assistant.summary.updated"
  actorId := some turn.actorId
  matterId := some turn.matter.id
  module := some (py "assistant")
  resourceType := some (py "assistant_thread")
  resourceId := some turn.threadId.str
  tokenCount := some result.tokenCount
  payload := [(py "older_turn_count", .int older), (py "had_prior_summary", .bool hadPrior)]

end Rows

section Calls

variable (turn : Turn) (store : Store)

/--
The arguments of a call of the gateway that the assistant makes itself. `tool` is what the call after a tool adds to the
payload.
-/
def assistantArgs (number : Nat) (callPrompt stage resourceType resourceId : PyStr) (tool : Dict)
    (posture : PrivilegePosture) : CallArgs where
  call := number
  matterId := some turn.matter.id
  actorId := some turn.actorId
  prompt := callPrompt
  model := some turn.matter.defaultModelId
  posture := some posture
  resourceType := some resourceType
  resourceId := some resourceId
  payload := some ([(py "stage", .str stage), (py "module", .str (py "assistant"))] ++ tool)
  callerModule := some (py "assistant")

def assistantCall (number : Nat) (callPrompt stage resourceType resourceId : PyStr) (tool : Dict)
    : Request ModelResult := do
  let posture ← Requests.ofFault (parsePosture turn)
  ModelGateway.call turn.W (assistantArgs turn number callPrompt stage resourceType resourceId tool posture)
    (turn.outcome number)

/--
`_make_assistant_provider_call`
-/
def toolArgs (spec : AssistantToolSpec) (callPrompt : PyStr) : CallArgs where
  call := 1
  matterId := some turn.matter.id
  actorId := some turn.actorId
  prompt := callPrompt
  model := some turn.matter.defaultModelId
  callerModule := some spec.moduleId
  payload := some [
    (py "capability_id", .str spec.capabilityId),
    (py "invocation_id", .str turn.invocationId.str),
    (py "source", .str (py "assistant_tool_loop"))
  ]

/--
`_normalise_tool_args`
-/
def normaliseToolArgs (call : ToolCall) : Dict :=
  let has (key : PyStr) (args : Dict) : Bool := key ∈ args.map Prod.fst
  let args :=
    if turn.selectedDocumentIds ≠ [] ∧ !has (py "document_ids") call.args ∧ !has (py "document_id") call.args then
      call.args ++ [(py "document_ids", .list (turn.selectedDocumentIds.map fun id => .str id.str))]
    else call.args
  if !has (py "input") args ∧ !has (py "question") args then args ++ [(py "input", .str turn.content)] else args

/--
`_tool_index(tools).get(...)`
-/
def findTool (call : ToolCall) : Option AssistantToolSpec :=
  (turn.tools.filter fun spec => spec.moduleId = call.moduleId ∧ spec.capabilityId = call.capabilityId).getLast?

def invocationContext : Invocations.InvocationContext where
  actorUserId := turn.actorId
  actorRole := turn.actorRole
  invocationId := turn.invocationId

/--
`dispatch_capability` for a tool.
-/
def dispatchTool (spec : AssistantToolSpec) (args : Dict) : Request Dict :=
  match spec.runtime with
  | .native invoke => invoke args
  | .prompt module declaration =>
    if declaration.id = [] then
      Traced.raise (.capabilityNotDeclared spec.moduleId (py "<missing-id>"))
    else do
      let result ← Invocations.runPromptCapability turn.env module declaration turn.matter (invocationContext turn) args
        fun callPrompt => ModelGateway.call turn.W (toolArgs turn spec callPrompt) (turn.outcome 1)
      return turn.resultOf result

/--
`_dispatch_assistant_tool`
-/
def dispatchAssistantTool (call : ToolCall) : Request Dict :=
  match findTool turn call with
  | none =>
    Traced.raise (.valueError (py "tool is not installed or not chat-runnable: " ++ call.moduleId ++ py "/"
      ++ call.capabilityId))
  | some spec => dispatchTool turn spec (normaliseToolArgs turn call)

/--
`_final_tool_prompt`
-/
def finalToolPrompt (call : ToolCall) (result : Dict) : PyStr :=
  join (py "\n") [
    prompt turn store,
    [],
    py "## Tool result",
    turn.toolJson call turn.invocationId result,
    [],
    py "Write the final assistant reply as JSON only. Do not request another tool. Mention the useful result and "
      ++ py "include a suggested action to view Activity when the run produced an invocation_id."
  ]

def toolFailureMessage : Err → PyStr
  | .capabilityDenied _ =>
    py "I couldn't run that skill: this matter doesn't grant it the permission it needs. Check Activity for the "
      ++ py "failed run."
  | .postureBlocked result =>
    if result.reason = some (py "posture_paused") then
      py "I couldn't run that skill: AI is paused on this matter. Resume AI from the matter's Overview first."
    else py "I couldn't run that skill: your role doesn't allow skill runs on this matter."
  | .adviceBoundaryDenied _ _ =>
    py "I couldn't run that skill: it goes beyond what this workspace may advise on. Check Activity for the failed run."
  | .capabilityNotDeclared moduleId capabilityId =>
    py "I couldn't run that skill: capability " ++ turn.W.R.str capabilityId ++ py " not declared in module "
      ++ turn.W.R.str moduleId
  | .entrypointResolution message => py "I couldn't run that skill: " ++ message
  | .fault (.valueError message) => py "I couldn't run that skill: " ++ message
  | _ => py "I couldn't run that skill. Check Activity for the failed run."

/--
`PROVIDER_HTTP_EXCEPTIONS`
-/
def isProviderHttpException : Err → Bool
  | .privilegePaused _ | .providerKeyMissing _ | .providerUpstream _ _ _ => true
  | _ => false

end Calls

section Run

variable (turn : Turn) (store : Store)

/--
The rows at the end of a turn, which commits them.
-/
def persist (message : AssistantMessage) (entry : AuditRow) : Request AssistantMessage := do
  Requests.add (.message message)
  query
  auditLog entry
  commit
  -- `refresh` of the two rows
  query
  query
  return message

/--
The turn of a matter whose budget is used up.
-/
def refuseForBudget : Request AssistantMessage := do
  Requests.add (.message (userMessage turn))
  query
  persist (budgetMessage turn (matterTokenUsage store)) (budgetRow turn (matterTokenUsage store))

/--
`_keyless_retrieval_answer`, if there is a source.
-/
def keylessAnswer (top : AssistantSource) : PyStr × List SuggestedAction :=
  let sources := messageSources turn
  let documents := (sources.map AssistantSource.documentId).dedup.length
  (
    py "No model key is configured, so I can't write an answer that reasons over the matter. Below are the passages most "
      ++ py "relevant to your question — " ++ pyNat sources.length ++ py " from " ++ pyNat documents ++ py " "
      ++ (if documents = 1 then py "document" else py "documents")
      ++ py ", retrieved from this matter's own documents. Review them directly, or add a model key in Settings → "
      ++ py "API Keys to get a written answer.",
    [{ type := py "view_document", label := py "Open document", params := [(py "document_id", top.documentId.str)] }]
  )

def noModelAnswer : PyStr :=
  py "No model key is configured, so I can't write an answer, and this matter has no indexed passages relevant to your "
    ++ py "question to show instead. Your message is saved. Add a model key in Settings → API Keys to get a written "
    ++ py "answer."

/--
The answer without a key: an extract, the passages, or neither.
-/
def answerWithoutKey : Request AssistantMessage :=
  match turn.documentSummary turn.content (snippets turn) with
  | some (content, actions) =>
    persist (deterministicMessage turn content actions [] (py "deterministic-summary"))
      (deterministicRow turn store actions (py "document_summary"))
  | none =>
    match messageSources turn with
    | [] =>
      persist (deterministicMessage turn noModelAnswer [] [] (py "no-model"))
        (deterministicRow turn store [] (py "no_model"))
    | top :: _ =>
      let (content, actions) := keylessAnswer turn top
      persist (deterministicMessage turn content actions (messageSources turn) (py "deterministic-summary"))
        (deterministicRow turn store actions (py "keyless_retrieval"))

def openActivity (params : List (PyStr × PyStr)) : SuggestedAction where
  type := py "view_audit"
  label := py "Open Activity"
  params := params

/--
What the payload of the call after a tool says about the tool.
-/
def toolPayload (call : ToolCall) : Dict := [
  (py "tool_module_id", .str call.moduleId),
  (py "tool_capability_id", .str call.capabilityId),
  (py "tool_invocation_id", .str turn.invocationId.str)
]

/--
The call that words the final reply.
-/
def finalReply (call : ToolCall) (toolResult : Dict) : Request Composed := do
  let final ← assistantCall turn 2 (finalToolPrompt turn store call toolResult) (py "assistant.final")
    (py "assistant_message") turn.userMessageId.str (toolPayload turn call)
  match turn.parse final.text with
  | some envelope =>
    return { content := envelope.content, actions := envelope.suggestedActions, result := final }
  | none =>
    return {
      content := py "The skill ran, but I couldn't structure the final reply. Open Activity to inspect the run."
      actions := [openActivity [(py "invocation_id", turn.invocationId.str)]]
      result := final
    }

/--
What a provider raises in the tool loop is raised again, and anything else becomes the reply.
-/
def toolFailed (result : ModelResult) (e : Err) : Request Composed :=
  if isProviderHttpException e then Traced.raise e
  else pure { content := toolFailureMessage turn e, actions := [openActivity []], result := result, toolFailed := true }

/--
The tool loop.
-/
def toolLoop (call : ToolCall) (result : ModelResult) : Request Composed := do
  match ← Traced.attempt (dispatchAssistantTool turn call) with
  | .error e => toolFailed turn result e
  | .ok toolResult =>
    match ← Traced.attempt (finalReply turn store call toolResult) with
    | .error e =>
      let composed ← toolFailed turn result e
      return { composed with toolResult := some toolResult }
    | .ok composed => return { composed with toolResult := some toolResult }

def stubEcho : PyStr := py "stub-echo"

/--
The reply and what it rests on.
-/
def composeReply (result : ModelResult) : Request Composed :=
  if turn.matter.defaultModelId = stubEcho then
    pure {
      content := result.text ++ py "\n\nDemo model — this echoes your message back; it does not reason. Pick a real "
        ++ py "model in the matter's settings to chat about the matter."
      actions := []
      result := result
    }
  else
    match turn.parse result.text with
    | none =>
      pure {
        content := py "I couldn't structure that response. Try rephrasing your message, or check the model settings on "
          ++ py "this matter."
        actions := []
        result := result
        parseFailed := true
      }
    | some envelope =>
      match envelope.toolCalls with
      | [] => pure { content := envelope.content, actions := envelope.suggestedActions, result := result }
      | call :: calls => do
        let composed ← toolLoop turn store call result
        return { composed with toolCallCount := calls.length + 1 }

/--
The turns that have left the window, once this turn is committed.
-/
def olderMessages (reply : AssistantMessage) : List AssistantMessage :=
  let messages := threadMessages store turn.threadId ++ [userMessage turn, reply]
  messages.take (messages.length - historyMessageLimit)

def summaryPrompt (reply : AssistantMessage) : PyStr :=
  join (py "\n") (
    (match (store.summaries turn.threadId).filter (· ≠ []) with
      | some prior => [py "## Prior summary", prior, []]
      | none => [])
    ++ [py "## Older turns now leaving the window", formatHistory (olderMessages turn store reply)])

/--
`_refresh_rolling_summary`
-/
def refreshRollingSummary (reply : AssistantMessage) : Request Unit := do
  query
  if olderMessages turn store reply = [] then pure ()
  else do
    query
    match ← Traced.attempt (assistantCall turn 3 (summaryPrompt turn store reply) (py "assistant.summary")
      (py "assistant_thread") turn.threadId.str []) with
    | .error _ => pure ()
    | .ok result =>
      let summary := truncate result.text rollingSummaryCharBudget
      if summary = [] then pure ()
      else do
        Requests.add (.rollingSummary turn.threadId summary)
        query
        auditLog (summaryRow turn result (olderMessages turn store reply).length
          ((store.summaries turn.threadId).getD [] ≠ []))
        commit

/--
The reply of a model that has been asked.
-/
def answerWithModel (result : ModelResult) : Request AssistantMessage := do
  let composed ← composeReply turn store result
  let reply ← persist (replyMessage turn composed) (replyRow turn store composed)
  refreshRollingSummary turn store reply
  return reply

/--
What a turn reads before it asks a model.
-/
def loadContext : Request Unit := do
  -- the history, the chronology and its total, the index, the outputs, the thread and its count, the passages
  query
  if retrievalUsed turn then do
    let queryHash ← ModelGateway.sha turn.W turn.content
    auditFailure (retrievalSearchRow turn queryHash)
  -- the tools
  query

/--
A turn of a matter whose budget is not used up.
-/
def answerTurn : Request AssistantMessage := do
  loadContext turn
  Requests.add (.message (userMessage turn))
  query
  match ← Traced.attempt (assistantCall turn 0 (prompt turn store) (py "assistant") (py "assistant_message")
      turn.userMessageId.str []) with
  | .ok result => answerWithModel turn store result
  | .error (.providerKeyMissing _) => answerWithoutKey turn store
  | .error e => Traced.raise e

/--
The budget guard: the matter has a budget, and its recorded tokens use it up.
-/
def budgetUsedUp : Bool :=
  decide (0 < turn.matterTokenBudget ∧ turn.matterTokenBudget ≤ matterTokenUsage store)

/--
`run_assistant_turn`
-/
def runAssistantTurn : Request AssistantMessage := do
  if 0 < turn.matterTokenBudget then query
  if budgetUsedUp turn store then refuseForBudget turn store else answerTurn turn store

end Run

end Assistant
