import Legalise.Invocations.Gates
import Legalise.ModelGateway.CallTrace

/-!
This module contains the endpoint of an invocation and what its refusals leave behind: every refusal of the posture
gate and of a grant, and none of the advice gate.
-/

namespace Invocations

open LockingSession Session
open ModelGateway (ModelResult ProviderOutcome)
open Requests (Cmd Err Plain Request RequestSession Row)

section Endpoint

variable (W : ModelGateway.World) (env : Env) (module : PromptModule) (declaration : Declaration) (matter : Matter)
  (context : InvocationContext) (args : Dict)

/--
The call of the gateway that `make_provider_call` makes.
-/
def providerArgs (prompt : PyStr) : ModelGateway.CallArgs where
  call := 0
  matterId := some matter.id
  actorId := some context.actorUserId
  prompt := prompt
  model := some matter.defaultModelId
  callerModule := some module.moduleId
  payload := some [
    (py "capability_id", .str declaration.id), (py "invocation_id", .str context.invocationId.str)
  ]

/--
`dispatch_capability` of a module whose runtime is `prompt`.
-/
def dispatchCapability (outcome : ProviderOutcome) : Request (Uuid × PyStr) :=
  if declaration.id = [] then
    Traced.raise (.capabilityNotDeclared module.moduleId (py "<missing-id>"))
  else
    runPromptCapability env module declaration matter context args fun prompt =>
      ModelGateway.call W (providerArgs module declaration matter context prompt) outcome

/--
`invoke_capability_endpoint` from the dispatch on. An exception leaves without a commit.
-/
def invokeCapability (outcome : ProviderOutcome) : Request (Uuid × PyStr) := do
  let result ← dispatchCapability W env module declaration matter context args outcome
  Requests.commit
  return result

/--
The session of the request after the response.
-/
def afterResponse (outcome : ProviderOutcome) : RequestSession :=
  ((Session.fresh : RequestSession).run Row.scope
    (invokeCapability W env module declaration matter context args outcome).trace).close Row.scope

/--
A refusal has its rows among the committed ones.
-/
def RefusalRecorded (outcome : ProviderOutcome) : Prop :=
  let committed := (afterResponse W env module declaration matter context args outcome).committed
  match (invokeCapability W env module declaration matter context args outcome).result with
  | .error (.postureBlocked result) =>
    .audit (postureBlockedRow matter context module.moduleId declaration.id result env.firmRoleGatesEnabled)
      ∈ committed
  | .error (.capabilityDenied denied) => Requests.deniedRow denied ∈ committed
  | .error (.adviceBoundaryDenied _ _) =>
    .decision (adviceCheck env module declaration matter context).decision ∈ committed
      ∧ .audit (adviceRow (adviceCheck env module declaration matter context)) ∈ committed
  | _ => True

end Endpoint

section Recorded

variable {W : ModelGateway.World} {env : Env} {module : PromptModule} {declaration : Declaration} {matter : Matter}
  {context : InvocationContext} {args : Dict} {outcome : ProviderOutcome}

theorem committed_close {s : RequestSession} : (s.close Row.scope).committed = s.committed := by
  unfold Session.close Session.exec
  split <;> rfl

/--
What a quiet trace leaves behind is gone when the session is closed.
-/
theorem committed_of_quiet {commands : List Cmd} (h : Quiet commands)
    : (((Session.fresh : RequestSession).run Row.scope commands).close Row.scope).committed = [] := by
  rw [committed_close]
  exact (undisturbed_run Row.scope rfl h).committed

/--
A capability that is denied in a plain request is committed.
-/
theorem mem_committed_of_denied {commands before : List Cmd} {row : Row} (hquiet : Quiet before)
    (htrace : commands = before ++ [.add row, .commit])
    : row ∈ (((Session.fresh : RequestSession).run Row.scope commands).close Row.scope).committed := by
  rw [committed_close, htrace, run_append]
  exact mem_committed_add_commit (undisturbed_run Row.scope rfl hquiet).waiting row

theorem plain_writeArtifact : Plain (writeArtifact env) := by
  unfold writeArtifact
  cases env.artifact with
  | error fault => exact .fault fault
  | ok id => exact (Plain.add _).bind fun _ _ => Plain.query.bind fun _ _ => .pure id

theorem plain_afterProvider (blocks : List DocumentBlock) (result : ModelResult)
    : Plain (afterProvider env module declaration matter context blocks result) := by
  unfold afterProvider
  refine (Plain.ofFault _).bind fun _ _ => (Plain.auditLog _).bind fun _ _ => ?_
  refine (plain_requireGrants _).bind fun _ _ => plain_writeArtifact.bind fun _ _ => ?_
  exact (Plain.auditLog _).bind fun _ _ => .pure _

/--
How the dispatch ends: the posture gate blocks, the advice gate denies, or the request is plain.
-/
theorem dispatchCapability_cases
    : (PostureBlocks env declaration matter context
        ∧ ¬ RefusedByAdviceGate env module declaration matter context args
        ∧ dispatchCapability W env module declaration matter context args outcome = {
          trace := [.outOfBand (.audit (postureBlockedRow matter context module.moduleId declaration.id
            (evaluation env matter context) env.firmRoleGatesEnabled))]
          result := .error (.postureBlocked (evaluation env matter context))
        })
      ∨ (RefusedByAdviceGate env module declaration matter context args
        ∧ Quiet (dispatchCapability W env module declaration matter context args outcome).trace
        ∧ ∃ decisionId gateState, (dispatchCapability W env module declaration matter context args outcome).result
          = .error (.adviceBoundaryDenied decisionId gateState))
      ∨ (¬ RefusedByAdviceGate env module declaration matter context args
        ∧ Plain (dispatchCapability W env module declaration matter context args outcome)) := by
  unfold dispatchCapability
  by_cases hnamed : declaration.id = []
  . rw [if_pos hnamed]
    exact .inr (.inr ⟨fun h => h.left.named hnamed, .of_error rfl (.capabilityNotDeclared _ _)⟩)
  . rw [if_neg hnamed]
    unfold runPromptCapability
    have happroach := approach_beforeProvider env module declaration matter context args
    generalize beforeProvider env module declaration matter context args = x at happroach
    cases happroach with
    | stopped hnot hplain hsame hraises =>
      exact .inr (.inr ⟨fun h => hnot h.left, hplain.bind fun a h => absurd h (hraises a)⟩)
    | blocked hblocks => exact .inl ⟨hblocks, fun h => h.left.posture hblocks, rfl⟩
    | denied hrefused hquiet =>
      exact .inr (.inl ⟨hrefused, quiet_append.mpr ⟨hquiet, quiet_adviceTrace⟩, _, _, rfl⟩)
    | prompts hreaches hquiet =>
      refine .inr (.inr ⟨fun h => ?_, ?_⟩)
      . exact Bool.false_ne_true (h.right.symm.trans hreaches.right)
      . refine (Plain.of_ok rfl (quiet_append.mpr ⟨hquiet, by simp⟩)).bind fun _ _ => ?_
        exact (ModelGateway.plain_call _).bind fun _ _ => plain_afterProvider _ _

theorem afterResponse_of_error {e : Err}
    (h : (dispatchCapability W env module declaration matter context args outcome).result = .error e)
    : (invokeCapability W env module declaration matter context args outcome).result = .error e
        ∧ afterResponse W env module declaration matter context args outcome
          = ((Session.fresh : RequestSession).run Row.scope
            (dispatchCapability W env module declaration matter context args outcome).trace).close Row.scope := by
  unfold afterResponse invokeCapability
  rw [Traced.bind_of_error h]
  exact ⟨rfl, rfl⟩

theorem result_invokeCapability_of_ok {value : Uuid × PyStr}
    (h : (dispatchCapability W env module declaration matter context args outcome).result = .ok value)
    : (invokeCapability W env module declaration matter context args outcome).result = .ok value := by
  unfold invokeCapability
  rw [Traced.bind_of_ok h]
  rfl

/--
A refusal of the posture gate has been written on another connection, where no lock is in the way.
-/
theorem recorded_of_blocked
    (h : dispatchCapability W env module declaration matter context args outcome = {
      trace := [.outOfBand (.audit (postureBlockedRow matter context module.moduleId declaration.id
        (evaluation env matter context) env.firmRoleGatesEnabled))]
      result := .error (.postureBlocked (evaluation env matter context))
    })
    : RefusalRecorded W env module declaration matter context args outcome := by
  have ⟨hresult, hafter⟩ := afterResponse_of_error
    (congrArg Traced.result h : (dispatchCapability W env module declaration matter context args outcome).result = _)
  unfold RefusalRecorded
  rw [hresult, hafter, h]
  exact List.mem_singleton_self _

/--
A plain dispatch leaves no refusal but a denied capability, which it has committed.
-/
theorem recorded_of_plain (h : Plain (dispatchCapability W env module declaration matter context args outcome))
    : RefusalRecorded W env module declaration matter context args outcome := by
  unfold RefusalRecorded
  cases hresult : (dispatchCapability W env module declaration matter context args outcome).result with
  | ok value =>
    rw [result_invokeCapability_of_ok hresult]
    trivial
  | error e =>
    have ⟨hinvoke, hafter⟩ := afterResponse_of_error hresult
    rw [hinvoke, hafter]
    cases e with
    | capabilityDenied denied =>
      have ⟨before, hquiet, htrace⟩ := h.denied denied hresult
      exact mem_committed_of_denied hquiet htrace
    | postureBlocked result => exact absurd hresult (h.posture result)
    | adviceBoundaryDenied decisionId gateState => exact absurd hresult (h.advice decisionId gateState)
    | _ => trivial

/--
The rows of a refusal of the advice gate go with the transaction.
-/
theorem not_recorded_of_denied {decisionId : Uuid} {gateState : Dict}
    (hquiet : Quiet (dispatchCapability W env module declaration matter context args outcome).trace)
    (hresult : (dispatchCapability W env module declaration matter context args outcome).result
      = .error (.adviceBoundaryDenied decisionId gateState))
    : ¬ RefusalRecorded W env module declaration matter context args outcome := by
  have ⟨hinvoke, hafter⟩ := afterResponse_of_error hresult
  unfold RefusalRecorded
  rw [hinvoke, hafter, committed_of_quiet hquiet]
  exact fun h => List.not_mem_nil h.left

end Recorded

/--
The refusals of an invocation are recorded, if and only if it is not the advice gate that refuses.
-/
theorem refusalRecorded_iff_not_refusedByAdviceGate (W : ModelGateway.World) (env : Env) (module : PromptModule)
    (declaration : Declaration) (matter : Matter) (context : InvocationContext) (args : Dict)
    (outcome : ProviderOutcome)
    : RefusalRecorded W env module declaration matter context args outcome
        ↔ ¬ RefusedByAdviceGate env module declaration matter context args := by
  rcases @dispatchCapability_cases W env module declaration matter context args outcome
    with ⟨_, hnot, hblocked⟩ | ⟨hrefused, hquiet, decisionId, gateState, hresult⟩ | ⟨hnot, hplain⟩
  . exact iff_of_true (recorded_of_blocked hblocked) hnot
  . exact iff_of_false (not_recorded_of_denied hquiet hresult) fun h => h hrefused
  . exact iff_of_true (recorded_of_plain hplain) hnot

section AdviceGate

/--
A workspace that is in no one's way.
-/
def openWorld : ModelGateway.World where
  R := .quoted
  gateway := ModelGateway.Gateway.initial
  settings := { defaultModelId := py "claude", environment := py "production", allowServerKeyFallback := false }
  sha256 := .plain
  postures _ := some .aCleared
  grants := .empty
  userKeys _ _ := .ok none

def openEnv : Env where
  R := .quoted
  grants := .empty
  documents _ := none
  firmRoleGatesEnabled := false
  decisionId := Uuid.ofNat 7
  decidedAt := .endOfFebruary
  optionsText _ := py "\x7b\x7d"
  outputOf text _ := .ok text
  artifact := .ok (Uuid.ofNat 8)

def memoModule : PromptModule where
  moduleId := py "memo"
  instructions := some (py "Draft a memo.")
  references := []

/--
The manifest allows this capability a tier that no output may start with.
-/
def supervisedDeclaration : Declaration where
  id := py "memo.write"
  reads := []
  writes := []
  gates := []
  adviceTierMax := some AdviceBoundary.adviceTierSupervisedLegalAdvice

def clearedMatter : Matter where
  id := Uuid.ofNat 1
  privilegePosture := py "A_cleared"
  defaultModelId := py "claude"

def solicitorContext : InvocationContext where
  actorUserId := Uuid.ofNat 2
  actorRole := some (py "qualified_solicitor")
  invocationId := Uuid.ofNat 3

theorem supervisedTier_not_refusalRecorded
    : ¬ RefusalRecorded openWorld openEnv memoModule supervisedDeclaration clearedMatter solicitorContext []
        (.raised .other) := by
  have hreaches : ReachesAdviceGate openEnv memoModule supervisedDeclaration clearedMatter solicitorContext [] :=
    ⟨by decide, by decide, by decide +kernel, [], rfl, .inl rfl⟩
  rcases @dispatchCapability_cases openWorld openEnv memoModule supervisedDeclaration clearedMatter solicitorContext []
    (.raised .other) with ⟨hblocks, _⟩ | ⟨_, hquiet, _, _, hresult⟩ | ⟨hnot, _⟩
  . exact absurd hblocks hreaches.posture
  . exact not_recorded_of_denied hquiet hresult
  . exact absurd ⟨hreaches, by decide +kernel⟩ hnot

end AdviceGate

end Invocations
