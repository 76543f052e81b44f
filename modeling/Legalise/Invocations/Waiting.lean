import Legalise.Invocations.Refusals

/-!
This module contains when an invocation waits for a lock that it holds itself: exactly if its call of the gateway
fails on record, after the row of the invocation has been added.
-/

namespace Invocations

open LockingSession Session
open ModelGateway (CallArgs FailsOnRecord ModelResult ProviderOutcome)
open Requests (Cmd Err Plain Request RequestSession Row sameConnection_bind)

section Prompt

variable {W : ModelGateway.World} {env : Env} {module : PromptModule} {declaration : Declaration} {matter : Matter}
  {context : InvocationContext} {args : Dict} {callArgs : PyStr → CallArgs} {outcome : ProviderOutcome}
  {s : RequestSession}

theorem sameConnection_writeArtifact : SameConnection (writeArtifact env).trace := by
  unfold writeArtifact
  cases env.artifact with
  | error fault => exact sameConnection_nil
  | ok id =>
    exact sameConnection_bind (Requests.sameConnection_add _) fun _ _ =>
      sameConnection_bind Requests.sameConnection_query fun _ _ => sameConnection_nil

theorem sameConnection_afterProvider (blocks : List DocumentBlock) (result : ModelResult)
    : SameConnection (afterProvider env module declaration matter context blocks result).trace := by
  unfold afterProvider
  refine sameConnection_bind (Requests.sameConnection_ofFault _) fun _ _ => ?_
  refine sameConnection_bind (Requests.sameConnection_add _) fun _ _ => ?_
  refine sameConnection_bind (sameConnection_requireGrants _) fun _ _ => ?_
  refine sameConnection_bind sameConnection_writeArtifact fun _ _ => ?_
  exact sameConnection_bind (Requests.sameConnection_add _) fun _ _ => sameConnection_nil

/--
A row of the posture gate is safe, as long as the session holds no lock of the matter.
-/
theorem safe_blocked_of_free {row : Requests.AuditRow} (hrow : row.matterId = some matter.id)
    (hfree : ∀ held ∈ s.flushed, held.scope ≠ some (some matter.id))
    : s.Safe Row.scope [.outOfBand (.audit row)] := by
  refine ⟨fun other heq => ?_, trivial⟩
  cases heq
  refine Bool.eq_false_iff.mpr fun hheld => ?_
  have hscope : Row.scope (.audit row) = some (some matter.id) := congrArg some hrow
  have ⟨held, hmem, hsame⟩ := (holds_iff hscope).mp hheld
  exact hfree held hmem hsame

/--
From any session that holds no lock of the matter, a prompt module waits exactly if it hands its prompt to the
gateway and the call fails on record: the row of the invocation is in the way.
-/
theorem safe_runPromptCapability_iff (hs : s.waiting = false)
    (hfree : ∀ held ∈ s.flushed, held.scope ≠ some (some matter.id))
    (hcall : ∀ prompt, (callArgs prompt).matterId = some matter.id)
    : s.Safe Row.scope (runPromptCapability env module declaration matter context args fun prompt =>
        ModelGateway.call W (callArgs prompt) outcome).trace
        ↔ ¬ (ReachesProvider env module declaration matter context args
          ∧ FailsOnRecord W (callArgs (inputPrompt env module declaration args)) outcome) := by
  unfold runPromptCapability
  have happroach := approach_beforeProvider env module declaration matter context args
  generalize beforeProvider env module declaration matter context args = x at happroach
  cases happroach with
  | stopped hnot hplain hsame hraises =>
    refine iff_of_true (safe_of_sameConnection ?_) fun h => hnot h.left.left
    exact sameConnection_bind hsame fun a h => absurd h (hraises a)
  | blocked hblocks =>
    exact iff_of_true (safe_blocked_of_free rfl hfree) fun h => h.left.left.posture hblocks
  | denied hrefused hquiet =>
    refine iff_of_true (safe_of_sameConnection (quiet_append.mpr ⟨hquiet, quiet_adviceTrace⟩).sameConnection) ?_
    exact fun h => Bool.false_ne_true (hrefused.right.symm.trans h.left.right)
  | @prompts before documentIds hreaches hquiet =>
    have hbefore : Quiet (before ++ [Command.add (.audit (invokedRow module declaration matter context documentIds))]
        : List Cmd) := quiet_append.mpr ⟨hquiet, by simp⟩
    have huncommitted : Uncommitted Row.scope (s.run Row.scope (before
        ++ [.add (.audit (invokedRow module declaration matter context documentIds))])) (some matter.id) :=
      ⟨_, mem_uncommitted_run hs hbefore (List.mem_append_right _ (List.mem_singleton_self _)), rfl⟩
    rw [Traced.bind_of_ok rfl, safe_append, and_iff_right (safe_of_sameConnection hbefore.sameConnection),
      Requests.safe_bind_iff fun _ _ => sameConnection_afterProvider _ _,
      ModelGateway.safe_call_iff (undisturbed_run Row.scope hs hbefore).waiting (hcall _)]
    simp only [huncommitted, hreaches, and_true, true_and]

theorem writeArtifact_returns_iff {artifactId : Uuid}
    : (writeArtifact env).result = .ok artifactId ↔ env.artifact = .ok artifactId := by
  unfold writeArtifact
  cases env.artifact with
  | error fault => simp
  | ok id =>
    constructor
    all_goals
      rintro ⟨⟩
      rfl

theorem afterProvider_returns_iff {blocks : List DocumentBlock} {result : ModelResult} {value : Uuid × PyStr}
    : (afterProvider env module declaration matter context blocks result).result = .ok value
        ↔
      env.outputOf result.text blocks = .ok value.snd
        ∧ Granted env module declaration matter context declaration.writes
        ∧ env.artifact = .ok value.fst := by
  unfold afterProvider
  simp only [Traced.result_bind_eq_ok_iff, ← requireGrants_returns_iff, ← writeArtifact_returns_iff]
  constructor
  . rintro ⟨output, houtput, _, _, u, hgranted, artifactId, hartifact, _, _, heq⟩
    cases heq
    refine ⟨?_, ⟨u, hgranted⟩, hartifact⟩
    cases hof : env.outputOf result.text blocks with
    | error fault =>
      rw [hof] at houtput
      cases houtput
    | ok other =>
      rw [hof] at houtput
      cases houtput
      rfl
  . rintro ⟨houtput, ⟨u, hgranted⟩, hartifact⟩
    exact ⟨value.snd, by rw [houtput]; rfl, (), rfl, u, hgranted, value.fst, hartifact, (), rfl, rfl⟩

/--
A prompt module returns exactly if its call does, and nothing stops what it does with the reply.
-/
theorem runPromptCapability_returns_iff {value : Uuid × PyStr}
    : (runPromptCapability env module declaration matter context args fun prompt =>
        ModelGateway.call W (callArgs prompt) outcome).result = .ok value
        ↔
      ReachesProvider env module declaration matter context args
        ∧ ∃ text, ModelGateway.Returns W (callArgs (inputPrompt env module declaration args)) outcome text
          ∧ env.outputOf text (inputBlocks env args) = .ok value.snd
          ∧ Granted env module declaration matter context declaration.writes
          ∧ env.artifact = .ok value.fst := by
  unfold runPromptCapability
  have happroach := approach_beforeProvider env module declaration matter context args
  generalize beforeProvider env module declaration matter context args = x at happroach
  rw [Traced.result_bind_eq_ok_iff]
  cases happroach with
  | stopped hnot hplain hsame hraises =>
    refine iff_of_false ?_ fun h => hnot h.left.left
    rintro ⟨a, ha, _⟩
    exact hraises a ha
  | blocked hblocks =>
    refine iff_of_false ?_ fun h => h.left.left.posture hblocks
    rintro ⟨a, ha, _⟩
    cases ha
  | denied hrefused hquiet =>
    refine iff_of_false ?_ fun h => Bool.false_ne_true (hrefused.right.symm.trans h.left.right)
    rintro ⟨a, ha, _⟩
    cases ha
  | @prompts before documentIds hreaches hquiet =>
    simp only [hreaches, true_and, ← ModelGateway.call_returns_iff]
    constructor
    . rintro ⟨_, ⟨⟩, hrest⟩
      obtain ⟨result, hresult, hafter⟩ := Traced.result_bind_eq_ok_iff.mp hrest
      exact ⟨result.text, ⟨result, hresult, rfl⟩, afterProvider_returns_iff.mp hafter⟩
    . rintro ⟨_, ⟨result, hresult, rfl⟩, hafter⟩
      exact ⟨_, rfl, Traced.result_bind_eq_ok_iff.mpr ⟨result, hresult, afterProvider_returns_iff.mpr hafter⟩⟩

/--
A prompt module that returns leaves a row of the matter that is not yet committed.
-/
theorem uncommitted_runPromptCapability (hs : s.waiting = false) {value : Uuid × PyStr}
    (h : (runPromptCapability env module declaration matter context args fun prompt =>
      ModelGateway.call W (callArgs prompt) outcome).result = .ok value)
    : Quiet (runPromptCapability env module declaration matter context args fun prompt =>
          ModelGateway.call W (callArgs prompt) outcome).trace
        ∧ Uncommitted Row.scope (s.run Row.scope (runPromptCapability env module declaration matter context args
          fun prompt => ModelGateway.call W (callArgs prompt) outcome).trace) (some matter.id) := by
  unfold runPromptCapability at h ⊢
  have happroach := approach_beforeProvider env module declaration matter context args
  generalize beforeProvider env module declaration matter context args = x at happroach h ⊢
  have ⟨pair, hpair, hafter⟩ := Traced.result_bind_eq_ok_iff.mp h
  cases happroach with
  | stopped hnot hplain hsame hraises => exact absurd hpair (hraises pair)
  | blocked hblocks => cases hpair
  | denied hrefused hquiet => cases hpair
  | @prompts before documentIds hreaches hquiet =>
    cases hpair
    have hplain : Plain (do
        let result ← ModelGateway.call W (callArgs (inputPrompt env module declaration args)) outcome
        afterProvider env module declaration matter context (inputBlocks env args) result) :=
      (ModelGateway.plain_call _).bind fun _ _ => plain_afterProvider _ _
    rw [Traced.bind_of_ok rfl]
    have hbefore : Quiet (before ++ [Command.add (.audit (invokedRow module declaration matter context documentIds))]
        : List Cmd) := quiet_append.mpr ⟨hquiet, by simp⟩
    have hall := quiet_append.mpr ⟨hbefore, hplain.quiet value hafter⟩
    refine ⟨hall, .audit (invokedRow module declaration matter context documentIds), mem_uncommitted_run hs hall ?_,
      rfl⟩
    exact List.mem_append_left _ (List.mem_append_right _ (List.mem_singleton_self _))

/--
A dispatched prompt module waits in a request of its own exactly if its call fails on record.
-/
theorem safe_dispatchCapability_iff
    : (Session.fresh : RequestSession).Safe Row.scope
          (dispatchCapability W env module declaration matter context args outcome).trace
        ↔ ¬ (ReachesProvider env module declaration matter context args
          ∧ FailsOnRecord W (providerArgs module declaration matter context
            (inputPrompt env module declaration args)) outcome) := by
  unfold dispatchCapability
  by_cases hnamed : declaration.id = []
  . rw [if_pos hnamed]
    exact iff_of_true trivial fun h => h.left.left.named hnamed
  . rw [if_neg hnamed]
    exact safe_runPromptCapability_iff rfl (fun _ h => absurd h List.not_mem_nil) fun _ => rfl

end Prompt

end Invocations
