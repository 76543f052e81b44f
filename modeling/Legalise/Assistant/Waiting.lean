import Legalise.Assistant.Turn
import Legalise.Invocations.Waiting

/-!
This module contains when a turn of the assistant waits for a lock that it holds itself: exactly if its tool does, or
the call that words the final reply fails on record, after the row of the first call has been added.
-/

namespace Assistant

open Invocations (Granted ReachesProvider inputBlocks inputPrompt)
open LockingSession Session
open ModelGateway (CallArgs FailsOnRecord ModelResult PrivilegePosture Returns)
open Requests (AssistantMessage AuditRow Cmd Request RequestSession Row safe_bind safe_bind_iff sameConnection_bind)

section Conditions

variable (turn : Turn) (store : Store)

/--
The turn comes as far as its first call, and a model replies with the text.
-/
structure RepliesWith (text : PyStr) : Prop where
  budget : budgetUsedUp turn store = false
  context : retrievalUsed turn = true → Utf8Encodable turn.content
  returns : ∃ posture, parsePosture turn = .ok posture
    ∧ Returns turn.W
      (assistantArgs turn 0 (prompt turn store) (py "assistant") (py "assistant_message") turn.userMessageId.str []
        posture) (turn.outcome 0) text

/--
The reply of the model asks for a tool.
-/
def AsksFor (call : ToolCall) : Prop :=
  turn.matter.defaultModelId ≠ stubEcho
    ∧ ∃ text envelope, RepliesWith turn store text ∧ turn.parse text = some envelope
      ∧ envelope.toolCalls.head? = some call

/--
A session with one row of the matter, which is pending.
-/
def recorded : RequestSession :=
  { Session.fresh with
    pending := [.audit { action := py "model.call", matterId := some turn.matter.id, payload := [] }] }

/--
The tool waits for a lock of the turn: a prompt module whose call fails on record, or a class that does so by itself.
-/
def ToolWaits (call : ToolCall) : Prop :=
  ∃ spec, findTool turn call = some spec
    ∧ match spec.runtime with
      | .prompt module declaration =>
        ReachesProvider turn.env module declaration turn.matter (invocationContext turn) (normaliseToolArgs turn call)
          ∧ FailsOnRecord turn.W (toolArgs turn spec (inputPrompt turn.env module declaration
            (normaliseToolArgs turn call))) (turn.outcome 1)
      | .native invoke => ¬ (recorded turn).Safe Row.scope (invoke (normaliseToolArgs turn call)).trace

/--
The tool returns, and leaves a row of the matter that is not committed.
-/
def ToolReturns (call : ToolCall) (toolResult : Dict) : Prop :=
  ∃ spec, findTool turn call = some spec
    ∧ match spec.runtime with
      | .prompt module declaration =>
        ∃ text output artifactId,
          ReachesProvider turn.env module declaration turn.matter (invocationContext turn) (normaliseToolArgs turn call)
            ∧ Returns turn.W (toolArgs turn spec (inputPrompt turn.env module declaration
              (normaliseToolArgs turn call))) (turn.outcome 1) text
            ∧ turn.env.outputOf text (inputBlocks turn.env (normaliseToolArgs turn call)) = .ok output
            ∧ Granted turn.env module declaration turn.matter (invocationContext turn) declaration.writes
            ∧ turn.env.artifact = .ok artifactId
            ∧ toolResult = turn.resultOf (artifactId, output)
      | .native invoke =>
        (invoke (normaliseToolArgs turn call)).result = .ok toolResult
          ∧ Uncommitted Row.scope ((recorded turn).run Row.scope (invoke (normaliseToolArgs turn call)).trace)
            (some turn.matter.id)

/--
The tool returns, and the call that words the final reply fails on record.
-/
def FinalWaits (call : ToolCall) : Prop :=
  ∃ toolResult posture, ToolReturns turn call toolResult ∧ parsePosture turn = .ok posture
    ∧ FailsOnRecord turn.W (assistantArgs turn 2 (finalToolPrompt turn store call toolResult) (py "assistant.final")
      (py "assistant_message") turn.userMessageId.str (toolPayload turn call) posture) (turn.outcome 2)

end Conditions

section Calls

variable {turn : Turn} {s : RequestSession} {number : Nat} {callPrompt stage resourceType resourceId : PyStr}
  {tool : Dict}

theorem assistantCall_of_ok {posture : PrivilegePosture} (h : parsePosture turn = .ok posture)
    : assistantCall turn number callPrompt stage resourceType resourceId tool
        = ModelGateway.call turn.W (assistantArgs turn number callPrompt stage resourceType resourceId tool posture)
          (turn.outcome number) := by
  unfold assistantCall
  rw [h]
  rfl

theorem assistantCall_of_error {fault : Requests.Fault} (h : parsePosture turn = .error fault)
    : assistantCall turn number callPrompt stage resourceType resourceId tool = Traced.raise (.fault fault) := by
  unfold assistantCall
  rw [h]
  rfl

/--
A call of the assistant waits exactly if it fails on record while a row of the matter has not been committed.
-/
theorem safe_assistantCall_iff (hs : s.waiting = false)
    : s.Safe Row.scope (assistantCall turn number callPrompt stage resourceType resourceId tool).trace
        ↔ ∀ posture, parsePosture turn = .ok posture
          → ¬ (FailsOnRecord turn.W (assistantArgs turn number callPrompt stage resourceType resourceId tool posture)
              (turn.outcome number)
            ∧ Uncommitted Row.scope s (some turn.matter.id)) := by
  cases h : parsePosture turn with
  | error fault =>
    rw [assistantCall_of_error h]
    exact iff_of_true trivial fun _ hok => by cases hok
  | ok posture =>
    rw [assistantCall_of_ok h, ModelGateway.safe_call_iff hs rfl]
    simp

theorem assistantCall_returns_iff {text : PyStr}
    : (∃ result, (assistantCall turn number callPrompt stage resourceType resourceId tool).result = .ok result
          ∧ result.text = text)
        ↔ ∃ posture, parsePosture turn = .ok posture
          ∧ Returns turn.W (assistantArgs turn number callPrompt stage resourceType resourceId tool posture)
            (turn.outcome number) text := by
  cases h : parsePosture turn with
  | error fault =>
    rw [assistantCall_of_error h]
    simp
  | ok posture =>
    rw [assistantCall_of_ok h, ModelGateway.call_returns_iff]
    simp

end Calls

section Persisting

variable {turn : Turn} {store : Store} {s : RequestSession}

theorem sameConnection_persist (message : AssistantMessage) (entry : AuditRow)
    : SameConnection (persist message entry).trace := by
  simp [persist, SameConnection, Requests.add, Requests.auditLog, Requests.query, Requests.commit]

/--
The rows at the end of a turn are committed, so that it holds no lock afterwards.
-/
theorem idle_persist (hs : s.waiting = false) (message : AssistantMessage) (entry : AuditRow)
    : (s.run Row.scope (persist message entry).trace).Idle := by
  have htrace : (persist message entry).trace
      = [.add (.message message), .query, .add (.audit entry)] ++ ([.commit] ++ [.query, .query]) := rfl
  have hquiet : Quiet ([.add (.message message), .query, .add (.audit entry)] : List Cmd) := by simp
  rw [htrace, run_append, run_append]
  have hcommit := (undisturbed_run Row.scope hs hquiet).waiting
  exact (@idle_commit _ _ _ _ Row.scope _ hcommit).run_of_reads (by simp)

/--
The call for the rolling summary comes after the commit.
-/
theorem safe_refreshRollingSummary (h : s.Idle) (reply : AssistantMessage)
    : s.Safe Row.scope (refreshRollingSummary turn store reply).trace := by
  have hquery {u : RequestSession} (hu : u.Idle) : (u.run Row.scope Requests.query.trace).Idle :=
    hu.run_of_reads (by simp [Requests.query])
  unfold refreshRollingSummary
  refine safe_bind.mpr ⟨safe_of_sameConnection Requests.sameConnection_query, fun _ _ => ?_⟩
  split
  . exact trivial
  . refine safe_bind.mpr ⟨safe_of_sameConnection Requests.sameConnection_query, fun _ _ => ?_⟩
    have hidle := hquery (hquery h)
    refine (safe_bind_iff fun result _ => ?_).mpr ?_
    . cases result with
      | error e => exact sameConnection_nil
      | ok result =>
        dsimp only
        split
        . exact sameConnection_nil
        . simp [SameConnection, Requests.add, Requests.auditLog, Requests.query, Requests.commit]
    . exact (safe_assistantCall_iff hidle.waiting).mpr fun posture _ hfails => hidle.not_uncommitted _ hfails.right

/--
Once the reply is composed, a turn does not wait any more.
-/
theorem safe_answerWithModel_iff (hs : s.waiting = false) (result : ModelResult)
    : s.Safe Row.scope (answerWithModel turn store result).trace
        ↔ s.Safe Row.scope (composeReply turn store result).trace := by
  unfold answerWithModel
  rw [safe_bind]
  refine and_iff_left_of_imp fun hsafe composed _ => ?_
  have hwaiting := waiting_run hs hsafe
  refine safe_bind.mpr ⟨safe_of_sameConnection (sameConnection_persist _ _), fun reply _ => ?_⟩
  refine (safe_bind_iff fun _ _ => sameConnection_nil).mpr ?_
  exact safe_refreshRollingSummary (idle_persist hwaiting _ _) reply

theorem sameConnection_answerWithoutKey : SameConnection (answerWithoutKey turn store).trace := by
  unfold answerWithoutKey
  split
  . exact sameConnection_persist _ _
  . split <;> exact sameConnection_persist _ _

end Persisting

section Tools

variable {turn : Turn} {store : Store} {s : RequestSession} {call : ToolCall} {result : ModelResult}

theorem trace_toolFailed (e : Requests.Err) : (toolFailed turn result e).trace = [] := by
  unfold toolFailed
  split <;> rfl

theorem safe_finalReply_iff {toolResult : Dict}
    : s.Safe Row.scope (finalReply turn store call toolResult).trace
        ↔ s.Safe Row.scope (assistantCall turn 2 (finalToolPrompt turn store call toolResult) (py "assistant.final")
          (py "assistant_message") turn.userMessageId.str (toolPayload turn call)).trace := by
  unfold finalReply
  refine safe_bind_iff fun final _ => ?_
  split <;> exact sameConnection_nil

/--
The tool loop waits with the tool, or with the call after it.
-/
theorem safe_toolLoop_iff
    : s.Safe Row.scope (toolLoop turn store call result).trace
        ↔ s.Safe Row.scope (dispatchAssistantTool turn call).trace
          ∧ ∀ toolResult, (dispatchAssistantTool turn call).result = .ok toolResult
            → (s.run Row.scope (dispatchAssistantTool turn call).trace).Safe Row.scope
              (finalReply turn store call toolResult).trace := by
  unfold toolLoop
  rw [safe_bind, Traced.trace_attempt, Traced.result_attempt]
  refine and_congr_right fun _ => ?_
  constructor
  . intro h toolResult hok
    have hfinal := h _ rfl
    rw [hok] at hfinal
    exact (safe_bind.mp hfinal).left
  . rintro h _ ⟨⟩
    cases hdispatch : (dispatchAssistantTool turn call).result with
    | error e =>
      dsimp only
      rw [trace_toolFailed]
      trivial
    | ok toolResult =>
      refine (safe_bind_iff fun composed _ => ?_).mpr (h toolResult hdispatch)
      cases composed with
      | error e =>
        have hfailed : SameConnection (toolFailed turn result e).trace := by
          rw [trace_toolFailed]
          exact sameConnection_nil
        exact sameConnection_bind hfailed fun _ _ => sameConnection_nil
      | ok composed => exact sameConnection_nil

/--
Only a reply that asks for a tool may wait.
-/
theorem safe_composeReply_iff
    : s.Safe Row.scope (composeReply turn store result).trace
        ↔ ∀ envelope call, turn.matter.defaultModelId ≠ stubEcho → turn.parse result.text = some envelope
          → envelope.toolCalls.head? = some call → s.Safe Row.scope (toolLoop turn store call result).trace := by
  unfold composeReply
  by_cases hstub : turn.matter.defaultModelId = stubEcho
  . rw [if_pos hstub]
    exact iff_of_true trivial fun _ _ hnot => absurd hstub hnot
  . rw [if_neg hstub]
    cases hparse : turn.parse result.text with
    | none => exact iff_of_true trivial fun _ _ _ hsome => by cases hsome
    | some envelope =>
      dsimp only
      cases hcalls : envelope.toolCalls with
      | nil =>
        refine iff_of_true trivial ?_
        rintro _ call _ ⟨⟩ hhead
        rw [hcalls] at hhead
        cases hhead
      | cons call calls =>
        dsimp only
        rw [safe_bind_iff fun _ _ => sameConnection_nil]
        constructor
        . rintro h _ other _ ⟨⟩ hhead
          rw [hcalls, List.head?_cons, Option.some.injEq] at hhead
          exact hhead ▸ h
        . intro h
          exact h envelope call hstub rfl (by rw [hcalls]; rfl)

end Tools

section Dispatch

variable {turn : Turn} {s : RequestSession} {call : ToolCall}

theorem sameLocks_recorded (hs : s.waiting = false) (hflushed : locks Row.scope s.flushed = ∅)
    (hpending : locks Row.scope s.pending = {some turn.matter.id}) : SameLocks Row.scope s (recorded turn) := by
  refine ⟨hs, ?_, ?_⟩
  . rw [hflushed]
    simp [locks, recorded, fresh]
  . rw [hpending]
    ext needed
    simp [locks, recorded, Row.scope, eq_comm]

/--
After the row of the first call, a tool waits in the two ways that a tool waits.
-/
theorem safe_dispatchAssistantTool_iff (hs : SameLocks Row.scope s (recorded turn))
    : s.Safe Row.scope (dispatchAssistantTool turn call).trace ↔ ¬ ToolWaits turn call := by
  have hfree : ∀ held ∈ s.flushed, held.scope ≠ some (some turn.matter.id) := by
    intro held hmem hscope
    have hlocks : some turn.matter.id ∈ locks Row.scope (recorded turn).flushed := by
      rw [← hs.flushed]
      exact ⟨held, hmem, hscope⟩
    simp [locks, recorded, fresh] at hlocks
  unfold dispatchAssistantTool ToolWaits
  cases findTool turn call with
  | none => exact iff_of_true trivial (by simp)
  | some spec =>
    simp only [Option.some.injEq, exists_eq_left']
    unfold dispatchTool
    cases spec.runtime with
    | native invoke =>
      dsimp only
      rw [not_not]
      exact hs.safe_iff _
    | prompt module declaration =>
      dsimp only
      by_cases hnamed : declaration.id = []
      . rw [if_pos hnamed]
        exact iff_of_true trivial fun h => h.left.left.named hnamed
      . rw [if_neg hnamed, safe_bind_iff fun _ _ => sameConnection_nil]
        exact Invocations.safe_runPromptCapability_iff hs.waiting hfree fun _ => rfl

/--
After the row of the first call, a tool returns with a row that is not committed in the two ways that it does.
-/
theorem dispatchAssistantTool_returns_iff (hs : SameLocks Row.scope s (recorded turn)) {toolResult : Dict}
    : (dispatchAssistantTool turn call).result = .ok toolResult
          ∧ Uncommitted Row.scope (s.run Row.scope (dispatchAssistantTool turn call).trace) (some turn.matter.id)
        ↔ ToolReturns turn call toolResult := by
  unfold dispatchAssistantTool ToolReturns
  cases findTool turn call with
  | none => exact iff_of_false (by simp) (by simp)
  | some spec =>
    simp only [Option.some.injEq, exists_eq_left']
    unfold dispatchTool
    cases spec.runtime with
    | native invoke =>
      dsimp only
      rw [(hs.run _).uncommitted_iff]
    | prompt module declaration =>
      dsimp only
      have hreturns (value : Uuid × PyStr) := @Invocations.runPromptCapability_returns_iff turn.W turn.env module
        declaration turn.matter (invocationContext turn) (normaliseToolArgs turn call) (toolArgs turn spec)
        (turn.outcome 1) value
      by_cases hnamed : declaration.id = []
      . rw [if_pos hnamed]
        refine iff_of_false (by simp) ?_
        rintro ⟨_, _, _, hreaches, _⟩
        exact hreaches.left.named hnamed
      . rw [if_neg hnamed]
        constructor
        . rintro ⟨hok, _⟩
          obtain ⟨value, hvalue, hresult⟩ := Traced.result_bind_eq_ok_iff.mp hok
          obtain ⟨hreaches, text, htext, houtput, hgranted, hartifact⟩ := (hreturns value).mp hvalue
          cases hresult
          exact ⟨text, value.snd, value.fst, hreaches, htext, houtput, hgranted, hartifact, rfl⟩
        . rintro ⟨text, output, artifactId, hreaches, htext, houtput, hgranted, hartifact, rfl⟩
          have hvalue := (hreturns (artifactId, output)).mpr ⟨hreaches, text, htext, houtput, hgranted, hartifact⟩
          refine ⟨Traced.result_bind_eq_ok_iff.mpr ⟨_, hvalue, rfl⟩, ?_⟩
          rw [Traced.bind_of_ok hvalue, Traced.trace_pure, List.append_nil]
          exact (Invocations.uncommitted_runPromptCapability hs.waiting hvalue).right

end Dispatch

section Run

variable {turn : Turn} {store : Store} {s : RequestSession}

/--
The search is written down on another connection before the turn has any row.
-/
theorem loadContext_of_idle (h : s.Idle)
    : s.Safe Row.scope (loadContext turn).trace ∧ (s.run Row.scope (loadContext turn).trace).Idle := by
  have hquery {u : RequestSession} (hu : u.Idle) : (u.exec Row.scope .query).Idle :=
    @Idle.run_of_reads _ _ _ _ Row.scope _ hu [.query] (by simp)
  unfold loadContext
  by_cases hused : retrievalUsed turn = true
  . simp only [if_pos hused]
    rcases ModelGateway.sha_cases (W := turn.W) turn.content with ⟨_, hsha⟩ | ⟨_, hsha⟩ <;> rw [hsha]
    . refine ⟨⟨by simp, fun row _ => (hquery h).holds_eq_false row, by simp, trivial⟩, ?_⟩
      exact hquery ((hquery h).exec_outOfBand _)
    . exact ⟨safe_of_sameConnection (by simp [SameConnection, Requests.query]), hquery h⟩
  . simp only [if_neg hused]
    exact ⟨safe_of_sameConnection (by simp [SameConnection, Requests.query]), hquery (hquery h)⟩

theorem loadContext_returns_iff
    : (loadContext turn).result = .ok () ↔ (retrievalUsed turn = true → Utf8Encodable turn.content) := by
  unfold loadContext
  by_cases hused : retrievalUsed turn = true
  . simp only [if_pos hused]
    rcases ModelGateway.sha_cases (W := turn.W) turn.content with ⟨hencodable, hsha⟩ | ⟨hnot, hsha⟩ <;> rw [hsha]
    . exact iff_of_true rfl fun _ => hencodable
    . refine iff_of_false ?_ fun h => hnot (h hused)
      rintro ⟨⟩
  . simp only [if_neg hused]
    exact iff_of_true rfl fun h => absurd h hused

/--
What a first call that returns leaves: its row is pending, and the turn holds no lock.
-/
theorem sameLocks_assistantCall (h : s.Idle) {callPrompt stage resourceType resourceId : PyStr} {tool : Dict}
    {result : ModelResult}
    (hresult : (assistantCall turn 0 callPrompt stage resourceType resourceId tool).result = .ok result)
    : SameLocks Row.scope (s.run Row.scope ([.add (.message (userMessage turn)), .query]
        ++ (assistantCall turn 0 callPrompt stage resourceType resourceId tool).trace)) (recorded turn) := by
  obtain ⟨posture, hposture, hreturns⟩ := assistantCall_returns_iff.mp ⟨result, hresult, rfl⟩
  obtain ⟨rest, htrace, before, row, hrest, hreads, hmatter⟩ := ModelGateway.endsAdding_call hreturns
  have hlookup : (ModelGateway.effectivePosture turn.W
      (assistantArgs turn 0 callPrompt stage resourceType resourceId tool posture)).trace = [.query] := by
    unfold ModelGateway.effectivePosture
    dsimp only [assistantArgs]
    cases turn.W.postures turn.matter.id <;> rfl
  rw [assistantCall_of_ok hposture, htrace, hlookup, hrest, run_append, List.singleton_append]
  have hadded := undisturbed_run Row.scope h.waiting
    (show Quiet [.add (.message (userMessage turn)), .query] by simp)
  obtain ⟨sent, hrun⟩ := @run_query_reads_add _ _ _ _ Row.scope _ hadded.waiting _ hreads (.audit row)
  rw [hrun]
  refine sameLocks_recorded hadded.waiting ?_ ?_
  . simp [exec_add h.waiting, exec_query, h.waiting, h.flushed, h.pending, locks, Row.scope]
  . rw [locks_singleton]
    ext needed
    simp [Row.scope, hmatter, assistantArgs, eq_comm]

/--
After the row of the first call, the tool loop waits in its tool or in the call after it.
-/
theorem safe_toolLoop_recorded_iff (hs : SameLocks Row.scope s (recorded turn)) {call : ToolCall} {result : ModelResult}
    : s.Safe Row.scope (toolLoop turn store call result).trace
        ↔ ¬ ToolWaits turn call ∧ ¬ FinalWaits turn store call := by
  rw [safe_toolLoop_iff, safe_dispatchAssistantTool_iff hs]
  refine and_congr_right fun hnot => ?_
  have hwaiting : (s.run Row.scope (dispatchAssistantTool turn call).trace).waiting = false :=
    waiting_run hs.waiting ((safe_dispatchAssistantTool_iff hs).mpr hnot)
  simp only [safe_finalReply_iff, safe_assistantCall_iff hwaiting]
  constructor
  . rintro h ⟨toolResult, posture, hreturns, hposture, hfails⟩
    obtain ⟨hok, huncommitted⟩ := (dispatchAssistantTool_returns_iff hs).mpr hreturns
    exact h toolResult hok posture hposture ⟨hfails, huncommitted⟩
  . intro h toolResult hok posture hposture hboth
    exact h ⟨toolResult, posture, (dispatchAssistantTool_returns_iff hs).mp ⟨hok, hboth.right⟩, hposture, hboth.left⟩

theorem repliesWith_iff {text : PyStr}
    : RepliesWith turn store text
        ↔ budgetUsedUp turn store = false ∧ (loadContext turn).result = .ok ()
          ∧ ∃ result, (assistantCall turn 0 (prompt turn store) (py "assistant") (py "assistant_message")
              turn.userMessageId.str []).result
              = .ok result
            ∧ result.text = text := by
  rw [loadContext_returns_iff, assistantCall_returns_iff]
  exact ⟨fun h => ⟨h.budget, h.context, h.returns⟩, fun h => ⟨h.left, h.right.left, h.right.right⟩⟩

/--
From an idle session, the call of a turn is made before it has any row of the matter.
-/
theorem safe_firstCall (h : s.Idle) {callPrompt stage resourceType resourceId : PyStr} {tool : Dict}
    : (s.run Row.scope [.add (.message (userMessage turn)), .query]).Safe Row.scope
        (assistantCall turn 0 callPrompt stage resourceType resourceId tool).trace := by
  have hadded := undisturbed_run Row.scope h.waiting
    (show Quiet [.add (.message (userMessage turn)), .query] by simp)
  refine (safe_assistantCall_iff hadded.waiting).mpr ?_
  rintro posture _ ⟨_, huncommitted⟩
  simp [Uncommitted, exec_add h.waiting, exec_query, h.waiting, h.flushed, h.pending, Row.scope] at huncommitted

theorem safe_answerWithModel_recorded_iff (hs : SameLocks Row.scope s (recorded turn)) (result : ModelResult)
    : s.Safe Row.scope (answerWithModel turn store result).trace
        ↔ ∀ envelope call, turn.matter.defaultModelId ≠ stubEcho → turn.parse result.text = some envelope
          → envelope.toolCalls.head? = some call → ¬ ToolWaits turn call ∧ ¬ FinalWaits turn store call := by
  rw [safe_answerWithModel_iff hs.waiting, safe_composeReply_iff]
  simp only [safe_toolLoop_recorded_iff hs]

/--
A turn whose budget is not used up waits exactly if its reply asks for a tool that waits, or is followed by a call
that does.
-/
theorem safe_answerTurn_iff (h : s.Idle) (hbudget : budgetUsedUp turn store = false)
    : s.Safe Row.scope (answerTurn turn store).trace
        ↔ ∀ call, AsksFor turn store call → ¬ ToolWaits turn call ∧ ¬ FinalWaits turn store call := by
  obtain ⟨hsafe, hidle⟩ := @loadContext_of_idle turn s h
  unfold answerTurn
  rw [safe_bind, and_iff_right hsafe]
  cases hcontext : (loadContext turn).result with
  | error e =>
    refine iff_of_true (fun _ hok => by cases hok) ?_
    rintro call ⟨_, text, envelope, hreplies, _⟩
    rw [repliesWith_iff, hcontext] at hreplies
    cases hreplies.right.left
  | ok u =>
    have hreplies {text : PyStr} : RepliesWith turn store text
        ↔ ∃ result, (assistantCall turn 0 (prompt turn store) (py "assistant") (py "assistant_message")
              turn.userMessageId.str []).result
            = .ok result
          ∧ result.text = text := by
      rw [repliesWith_iff, hcontext, and_iff_right hbudget, and_iff_right rfl]
    generalize s.run Row.scope (loadContext turn).trace = s at hidle
    simp only [forall_const, Requests.add, Requests.query, Traced.issue_bind, Traced.attempt_bind]
    change s.Safe Row.scope ([.add (.message (userMessage turn)), .query] ++ (_ ++ _)) ↔ _
    rw [safe_append, safe_append, and_iff_right (safe_of_sameConnection (by simp [SameConnection])),
      and_iff_right (safe_firstCall hidle), ← run_append]
    unfold AsksFor
    cases hresult : (assistantCall turn 0 (prompt turn store) (py "assistant") (py "assistant_message")
              turn.userMessageId.str []).result with
    | error e =>
      refine iff_of_true ?_ ?_
      . split
        . contradiction
        . exact safe_of_sameConnection sameConnection_answerWithoutKey
        . exact trivial
      . rintro call ⟨_, text, envelope, hnever, _⟩
        rw [hreplies, hresult] at hnever
        obtain ⟨_, hok, _⟩ := hnever
        cases hok
    | ok result =>
      have hthis {text : PyStr} : RepliesWith turn store text ↔ result.text = text := by
        rw [hreplies, hresult]
        simp
      dsimp only
      rw [safe_answerWithModel_recorded_iff (sameLocks_assistantCall hidle hresult)]
      simp only [hthis]
      constructor
      . rintro h call ⟨hmodel, _, envelope, rfl, hparse, hhead⟩
        exact h envelope call hmodel hparse hhead
      . intro h envelope call hmodel hparse hhead
        exact h call ⟨hmodel, _, envelope, rfl, hparse, hhead⟩

/--
A whole turn waits for itself exactly if its reply asks for a tool that waits, or is followed by a call that does.
-/
theorem safe_runAssistantTurn_iff
    : (fresh : RequestSession).Safe Row.scope (runAssistantTurn turn store).trace
        ↔ ∀ call, AsksFor turn store call → ¬ ToolWaits turn call ∧ ¬ FinalWaits turn store call := by
  have hturn {u : RequestSession} (hu : u.Idle)
      : u.Safe Row.scope (if budgetUsedUp turn store then refuseForBudget turn store
          else answerTurn turn store).trace
        ↔ ∀ call, AsksFor turn store call → ¬ ToolWaits turn call ∧ ¬ FinalWaits turn store call := by
    cases hbudget : budgetUsedUp turn store with
    | true =>
      refine iff_of_true ?_ ?_
      . refine safe_of_sameConnection ?_
        refine sameConnection_bind (Requests.sameConnection_add _) fun _ _ => ?_
        exact sameConnection_bind Requests.sameConnection_query fun _ _ => sameConnection_persist _ _
      . rintro call ⟨_, text, envelope, hreplies, _⟩
        exact absurd (hreplies.budget.symm.trans hbudget) Bool.false_ne_true
    | false => exact safe_answerTurn_iff hu hbudget
  unfold runAssistantTurn
  by_cases hpositive : 0 < turn.matterTokenBudget
  . simp only [if_pos hpositive]
    have hread : ((fresh : RequestSession).run Row.scope Requests.query.trace).Idle :=
      idle_fresh.run_of_reads (by simp [Requests.query])
    rw [safe_bind, and_iff_right (safe_of_sameConnection Requests.sameConnection_query)]
    exact ⟨fun h => (hturn hread).mp (h () rfl), fun h _ _ => (hturn hread).mpr h⟩
  . simp only [if_neg hpositive]
    exact hturn idle_fresh

end Run

/--
A request never waits for itself, if and only if no call that is made on top of a row of the matter fails on record:
not the call of a prompt module, and neither that of the tool of a turn nor the one after it.
-/
theorem neverWaits_iff (W : ModelGateway.World) (env : Invocations.Env) (module : Invocations.PromptModule)
    (declaration : Invocations.Declaration) (matter : Invocations.Matter) (context : Invocations.InvocationContext)
    (args : Dict) (outcome : ModelGateway.ProviderOutcome) (turn : Turn) (store : Store)
    : ((fresh : RequestSession).Safe Row.scope
            (Invocations.dispatchCapability W env module declaration matter context args outcome).trace
          ↔ ¬ (ReachesProvider env module declaration matter context args
            ∧ FailsOnRecord W (Invocations.providerArgs module declaration matter context
              (inputPrompt env module declaration args)) outcome))
        ∧ ((fresh : RequestSession).Safe Row.scope (runAssistantTurn turn store).trace
          ↔ ∀ call, AsksFor turn store call → ¬ ToolWaits turn call ∧ ¬ FinalWaits turn store call) :=
  ⟨Invocations.safe_dispatchCapability_iff, safe_runAssistantTurn_iff⟩

section Memo

open Invocations (clearedMatter memoModule openEnv openWorld solicitorContext supervisedDeclaration)

/--
The memo, at a tier that an output may start with.
-/
def memoDeclaration : Invocations.Declaration :=
  { supervisedDeclaration with adviceTierMax := none }

def opusMatter : Invocations.Matter :=
  { clearedMatter with defaultModelId := py "claude-opus-4-7" }

/--
A deployment with Anthropic, and the key that every user has saved for it.
-/
def anthropicWorld (key : Option PyStr) : ModelGateway.World :=
  { openWorld with
    gateway := ModelGateway.Gateway.initial.register { name := py "anthropic" }
    userKeys := fun _ _ => .ok key }

def memoCall : ToolCall where
  moduleId := memoModule.moduleId
  capabilityId := memoDeclaration.id
  args := []

/--
A turn whose model asks for the memo, and is then rate limited.
-/
def memoTurn : Turn where
  W := anthropicWorld (some (py "sk-ant"))
  env := openEnv
  matterTokenBudget := 0
  contextTokenBudget := 6000
  matter := opusMatter
  actorId := Uuid.ofNat 2
  actorRole := some (py "qualified_solicitor")
  threadId := Uuid.ofNat 9
  content := py "Draft a memo."
  selectedDocumentIds := []
  selectedDocuments := []
  hits := []
  filenames _ := none
  sections := { matterFacts := [], documentIndex := [], chronology := [], outputs := [], tools := [] }
  tools := [{
    moduleId := memoModule.moduleId
    capabilityId := memoDeclaration.id
    runtime := .prompt memoModule memoDeclaration
  }]
  userMessageId := Uuid.ofNat 10
  replyId := Uuid.ofNat 11
  invocationId := Uuid.ofNat 12
  outcome
    | 0 => .returned (py "memo") 5 1 none none
    | _ => .upstreamError (py "provider_rate_limited") (py "anthropic") (some 429)
  parse _ := some { content := py "I will draft it.", suggestedActions := [], toolCalls := [memoCall] }
  resultOf _ := []
  toolJson _ _ _ := []
  documentSummary _ _ := none

theorem memo_waits
    : ¬ (fresh : RequestSession).Safe Row.scope (Invocations.dispatchCapability (anthropicWorld none) openEnv memoModule
          memoDeclaration opusMatter solicitorContext [] (.raised .other)).trace
        ∧ ¬ (fresh : RequestSession).Safe Row.scope (runAssistantTurn memoTurn
          { messages := [], summaries := fun _ => none }).trace := by
  have hmemo : ((fresh : RequestSession).run Row.scope (Invocations.dispatchCapability (anthropicWorld none) openEnv
      memoModule memoDeclaration opusMatter solicitorContext [] (.raised .other)).trace).waiting = true := by
    decide +kernel
  have hturn : ((fresh : RequestSession).run Row.scope (runAssistantTurn memoTurn
      { messages := [], summaries := fun _ => none }).trace).waiting = true := by
    decide +kernel
  constructor
  . intro hsafe
    exact Bool.false_ne_true ((waiting_run rfl hsafe).symm.trans hmemo)
  . intro hsafe
    exact Bool.false_ne_true ((waiting_run rfl hsafe).symm.trans hturn)

end Memo

end Assistant
