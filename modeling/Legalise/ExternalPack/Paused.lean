import Legalise.Assistant.Turn
import Legalise.Matters.Frame

/-!
This module contains invocations and turns on a matter that is paused: they hand no prompt to a provider and write no
artifact.
-/

namespace ExternalPack

open Invocations (Declaration PromptModule InvocationContext Env)
open LockingSession (Session)
open Matters (privilegePaused)
open ModelGateway (CallArgs ModelResult PrivilegePosture ProviderOutcome World)
open Requests (AuditRow Cmd Request Row)

section Confines

/--
A row that is no artifact.
-/
def NoArtifact : Row → Prop
  | .artifact _ => False
  | _ => True

/--
A part of a request that writes no artifact and hands no prompt to a provider.
-/
def Confines {α : Type} (x : Request α) : Prop :=
  ∀ command ∈ x.trace, Session.Confined NoArtifact command

variable {α β : Type}

theorem confines_bind {x : Request α} {f : α → Request β} (hx : Confines x)
    (hf : ∀ a, x.result = .ok a → Confines (f a)) : Confines (x >>= f) :=
  Traced.forall_mem_trace_bind hx hf

theorem confines_of_trace_nil {x : Request α} (h : x.trace = []) : Confines x := by
  unfold Confines
  rw [h]
  simp

theorem confines_pure (a : α) : Confines (pure a) :=
  confines_of_trace_nil rfl

theorem confines_raise (e : Requests.Err) : Confines (Traced.raise e : Request α) :=
  confines_of_trace_nil rfl

theorem confines_ofFault (result : Except Requests.Fault α) : Confines (Requests.ofFault result) :=
  confines_of_trace_nil rfl

theorem confines_issue {command : Cmd} (h : Session.Confined NoArtifact command)
    : Confines (Traced.issue command : Request Unit) :=
  List.forall_mem_singleton.mpr h

theorem confines_query : Confines Requests.query :=
  confines_issue trivial

theorem confines_commit : Confines Requests.commit :=
  confines_issue trivial

theorem confines_add {row : Row} (h : NoArtifact row) : Confines (Requests.add row) :=
  confines_issue h

theorem confines_auditLog (entry : AuditRow) : Confines (Requests.auditLog entry) :=
  confines_issue trivial

theorem confines_auditFailure (entry : AuditRow) : Confines (Requests.auditFailure entry) :=
  confines_issue trivial

theorem confines_attempt {x : Request α} (h : Confines x) : Confines (Traced.attempt x) := h

theorem confines_requireCapability (grants : Capabilities.GrantTable) (userId : Uuid) (plugin skill capability : PyStr)
    (matterId : Option Uuid)
    : Confines (Requests.requireCapability grants userId plugin skill capability matterId) := by
  unfold Requests.requireCapability
  refine confines_bind confines_query fun _ _ => ?_
  split
  . exact confines_pure ()
  . refine confines_bind (confines_add trivial) fun _ _ => ?_
    exact confines_bind confines_commit fun _ _ => confines_raise _

end Confines

section Gateway

variable {W : World} {args : CallArgs}

/--
The gateway raises for a paused matter, before anything else.
-/
theorem call_of_paused (hmatter : args.matterId.bind W.postures = some .cPaused) (outcome : ProviderOutcome)
    : Confines (ModelGateway.call W args outcome)
        ∧ ∃ message, (ModelGateway.call W args outcome).result = .error (.privilegePaused message) := by
  have ⟨matterId, hid, hposture⟩ := Option.bind_eq_some_iff.mp hmatter
  have heffective : ModelGateway.effectivePosture W args = { trace := [.query], result := .ok .cPaused } := by
    unfold ModelGateway.effectivePosture Requests.query
    rw [hid]
    dsimp only
    rw [hposture]
    rfl
  unfold ModelGateway.call
  rw [heffective]
  exact ⟨List.forall_mem_singleton.mpr trivial, _, rfl⟩

end Gateway

section Invocations

open Invocations

variable {env : Env} {module : PromptModule} {declaration : Declaration} {matter : Invocations.Matter}
  {context : InvocationContext} {args : Dict}

theorem confines_postureGate : Confines (postureGate env module declaration matter context) := by
  unfold postureGate
  split
  . exact confines_bind (confines_auditFailure _) fun _ _ => confines_raise _
  . exact confines_pure ()

theorem confines_requireGrants (capabilities : List PyStr)
    : Confines (requireGrants env module declaration matter context capabilities) := by
  induction capabilities with
  | nil => exact confines_pure ()
  | cons capability capabilities ih => exact confines_bind (confines_requireCapability _ _ _ _ _ _) fun _ _ => ih

theorem confines_loadDocument (idx : Nat) (documentId : Uuid) : Confines (loadDocument env matter idx documentId) := by
  refine confines_bind confines_query fun _ _ => ?_
  split
  . exact confines_raise _
  . exact confines_bind confines_query fun _ _ => confines_pure _

theorem confines_loadDocuments (idx : Nat) (documentIds : List Uuid)
    : Confines (loadDocuments env matter idx documentIds) := by
  induction documentIds generalizing idx with
  | nil => exact confines_pure _
  | cons documentId documentIds ih =>
    refine confines_bind (confines_loadDocument idx documentId) fun _ _ => ?_
    exact confines_bind (ih (idx + 1)) fun _ _ => confines_pure _

theorem confines_readDocuments (documentIds : List Uuid)
    : Confines (readDocuments env module declaration matter context documentIds) := by
  unfold readDocuments
  split
  . exact confines_pure _
  . split
    . exact confines_raise _
    . exact confines_bind (confines_requireGrants _) fun _ _ => confines_loadDocuments 1 documentIds

theorem confines_adviceGate : Confines (adviceGate env module declaration matter context) := by
  refine confines_bind (confines_add trivial) fun _ _ => ?_
  refine confines_bind confines_query fun _ _ => ?_
  refine confines_bind (confines_auditLog _) fun _ _ => ?_
  split
  . exact confines_pure ()
  . exact confines_raise _

theorem confines_beforeProvider : Confines (beforeProvider env module declaration matter context args) := by
  unfold beforeProvider
  split
  . exact confines_raise _
  . split
    . exact confines_raise _
    . refine confines_bind confines_postureGate fun _ _ => ?_
      refine confines_bind (confines_ofFault _) fun documentIds _ => ?_
      refine confines_bind (confines_readDocuments documentIds) fun blocks _ => ?_
      refine confines_bind confines_adviceGate fun _ _ => ?_
      exact confines_bind (confines_auditLog _) fun _ _ => confines_pure _

theorem confines_invokeCapability {W : World} {outcome : ProviderOutcome}
    (hpaused : W.postures matter.id = some .cPaused)
    : Confines (invokeCapability W env module declaration matter context args outcome) := by
  refine confines_bind ?_ fun _ _ => confines_bind confines_commit fun _ _ => confines_pure _
  unfold dispatchCapability
  split
  . exact confines_raise _
  . refine confines_bind confines_beforeProvider fun pair _ => ?_
    have ⟨prompt, blocks⟩ := pair
    -- the call raises, so that nothing comes after it
    have ⟨hcall, message, hresult⟩ := @call_of_paused W (providerArgs module declaration matter context prompt)
      hpaused outcome
    refine confines_bind hcall fun result hok => ?_
    rw [hresult] at hok
    cases hok

/--
`check_posture`, and `PostureBlocked` if it does not allow the run.
-/
def checkPosture (env : Env) (module : PromptModule) (declaration : Declaration) (matter : Invocations.Matter)
    (context : InvocationContext) : Request Unit :=
  if (evaluation env matter context).allowed then pure ()
  else do
    Requests.auditFailure (postureBlockedRow matter context module.moduleId declaration.id
      (evaluation env matter context) env.firmRoleGatesEnabled)
    Traced.raise (.postureBlocked (evaluation env matter context))

/--
`invoke_capability_endpoint` of a module with an entry class. `work` is what `invoke` of the class does for a matter.
-/
def invokeNative (module : PromptModule) (declaration : Declaration) (matter : Invocations.Matter)
    (work : Invocations.Matter → Request Dict) : Request Dict := do
  if declaration.id = [] then
    Traced.raise (.capabilityNotDeclared module.moduleId (py "<missing-id>"))
  else
    let result ← work matter
    Requests.commit
    return result

/--
An entry class that checks the posture of the matter before anything else, as those of the bundled modules do.
-/
def ChecksPostureFirst (env : Env) (module : PromptModule) (declaration : Declaration) (context : InvocationContext)
    (work : Invocations.Matter → Request Dict) : Prop :=
  ∀ matter, ∃ rest : Request Dict, work matter = do
    checkPosture env module declaration matter context
    rest

theorem allowed_of_paused (hpaused : matter.privilegePosture = privilegePaused)
    : (evaluation env matter context).allowed = false := by
  unfold evaluation evaluatePosture
  rw [if_pos (show matter.privilegePosture = py "C_paused" from hpaused)]

theorem confines_checkPosture (hpaused : matter.privilegePosture = privilegePaused)
    : Confines (checkPosture env module declaration matter context)
        ∧ (checkPosture env module declaration matter context).result
          = .error (.postureBlocked (evaluation env matter context)) := by
  unfold checkPosture
  rw [allowed_of_paused hpaused]
  exact ⟨confines_bind (confines_auditFailure _) fun _ _ => confines_raise _, rfl⟩

theorem confines_invokeNative (hpaused : matter.privilegePosture = privilegePaused)
    {work : Invocations.Matter → Request Dict} (hchecks : ChecksPostureFirst env module declaration context work)
    : Confines (invokeNative module declaration matter work) := by
  unfold invokeNative
  split
  . exact confines_raise _
  . have ⟨rest, hwork⟩ := hchecks matter
    have ⟨hcheck, hblocked⟩ := @confines_checkPosture env module declaration matter context hpaused
    rw [hwork]
    -- the check raises, so that nothing comes after it
    refine confines_bind (confines_bind hcheck fun _ hok => ?_) fun _ _ => ?_
    . rw [hblocked] at hok
      cases hok
    . exact confines_bind confines_commit fun _ _ => confines_pure _

end Invocations

section Turns

open Assistant

variable {turn : Turn} {store : Store}

theorem confines_persist (message : Requests.AssistantMessage) (entry : AuditRow)
    : Confines (persist message entry) := by
  refine confines_bind (confines_add trivial) fun _ _ => ?_
  refine confines_bind confines_query fun _ _ => ?_
  refine confines_bind (confines_auditLog entry) fun _ _ => ?_
  refine confines_bind confines_commit fun _ _ => ?_
  refine confines_bind confines_query fun _ _ => ?_
  exact confines_bind confines_query fun _ _ => confines_pure _

theorem confines_refuseForBudget : Confines (refuseForBudget turn store) := by
  refine confines_bind (confines_add trivial) fun _ _ => ?_
  exact confines_bind confines_query fun _ _ => confines_persist _ _

theorem confines_sha (W : World) (text : PyStr) : Confines (ModelGateway.sha W text) := by
  unfold ModelGateway.sha
  split
  . exact confines_pure _
  . exact confines_raise _

theorem confines_loadContext : Confines (loadContext turn) := by
  unfold loadContext
  refine confines_bind confines_query fun _ _ => ?_
  split
  . refine confines_bind (confines_sha _ _) fun _ _ => ?_
    exact confines_bind (confines_auditFailure _) fun _ _ => confines_query
  . exact confines_query

/--
The first call of a turn raises, with an exception that is raised again.
-/
theorem assistantCall_of_paused (hmatter : turn.W.postures turn.matter.id = some .cPaused)
    (hpaused : turn.matter.privilegePosture = privilegePaused) (number : Nat)
    (callPrompt stage resourceType resourceId : PyStr) (tool : Dict)
    : Confines (assistantCall turn number callPrompt stage resourceType resourceId tool)
        ∧ ∃ message, (assistantCall turn number callPrompt stage resourceType resourceId tool).result
          = .error (.privilegePaused message) := by
  have hparse : parsePosture turn = .ok .cPaused := by
    unfold parsePosture
    rw [hpaused]
    rfl
  unfold assistantCall
  rw [hparse]
  exact @call_of_paused turn.W (assistantArgs turn number callPrompt stage resourceType resourceId tool .cPaused)
    hmatter (turn.outcome number)

theorem confines_runAssistantTurn (hmatter : turn.W.postures turn.matter.id = some .cPaused)
    (hpaused : turn.matter.privilegePosture = privilegePaused) : Confines (runAssistantTurn turn store) := by
  have hanswer : Confines (answerTurn turn store) := by
    refine confines_bind confines_loadContext fun _ _ => ?_
    refine confines_bind (confines_add trivial) fun _ _ => ?_
    refine confines_bind confines_query fun _ _ => ?_
    have ⟨hcall, message, hresult⟩ := @assistantCall_of_paused turn hmatter hpaused 0 (prompt turn store)
      (py "assistant") (py "assistant_message") turn.userMessageId.str []
    refine confines_bind (confines_attempt hcall) fun result hok => ?_
    rw [Traced.result_attempt, hresult, Except.ok.injEq] at hok
    rw [← hok]
    exact confines_raise _
  have hguard : Confines (if budgetUsedUp turn store then refuseForBudget turn store else answerTurn turn store) := by
    split
    . exact confines_refuseForBudget
    . exact hanswer
  unfold runAssistantTurn
  by_cases hbudget : 0 < turn.matterTokenBudget
  . rw [if_pos hbudget]
    exact confines_bind confines_query fun _ _ => hguard
  . rw [if_neg hbudget]
    exact hguard

end Turns

end ExternalPack
