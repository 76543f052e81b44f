import Legalise.Invocations.PromptRuntime
import Legalise.Lib.Except
import Legalise.Requests.Plain

/-!
This module contains how far an invocation comes on its way to the provider: it is stopped, blocked by the
posture gate, denied by the advice gate, or builds its prompt.
-/

namespace Invocations

open LockingSession Session
open Requests (Cmd Err Plain Request Row requireCapability sameConnection_bind)

section Conditions

variable (env : Env) (module : PromptModule) (declaration : Declaration) (matter : Matter)
  (context : InvocationContext) (args : Dict)

/--
The actor holds these grants of the capability for the matter.
-/
def Granted (capabilities : List PyStr) : Prop :=
  ∀ capability ∈ capabilities, (Capabilities.requireCapability env.grants context.actorUserId module.moduleId
    declaration.id capability (some matter.id)).isOk = true

/--
The invocation may read these documents, and they are there.
-/
def Readable (documentIds : List Uuid) : Prop :=
  documentIds = [] ∨ declaration.reads ≠ []
    ∧ Granted env module declaration matter context declaration.reads
    ∧ ∀ documentId ∈ documentIds, (env.documents documentId).isSome

def PostureBlocks : Prop :=
  py "privilege_posture" ∈ declaration.gates ∧ (evaluation env matter context).allowed = false

instance : Decidable (PostureBlocks env declaration matter context) :=
  inferInstanceAs (Decidable (_ ∧ _))

/--
Nothing stops the invocation before the advice gate.
-/
structure ReachesAdviceGate : Prop where
  named : declaration.id ≠ []
  instructed : module.instructions.getD [] ≠ []
  posture : ¬ PostureBlocks env declaration matter context
  documents : ∃ documentIds, coerceDocumentIds env args = .ok documentIds
    ∧ Readable env module declaration matter context documentIds

/--
The documents of a prompt, as they stand in the matter.
-/
def blocksFrom : Nat → List Uuid → List DocumentBlock
  | _, [] => []
  | idx, documentId :: documentIds =>
    ((env.documents documentId).map fun document => {
      handle := py "D" ++ pyNat idx
      documentId := document.id.str
      filename := document.filename
      sha256 := document.sha256
      bodyText := document.extractedText.getD []
    }).toList ++ blocksFrom (idx + 1) documentIds

def inputBlocks : List DocumentBlock :=
  match coerceDocumentIds env args with
  | .ok documentIds => blocksFrom env 1 documentIds
  | .error _ => []

/--
The prompt of an invocation that comes as far as the provider.
-/
def inputPrompt : PyStr :=
  buildPrompt env module declaration args (inputBlocks env args)

/--
The advice gate refuses the invocation.
-/
def RefusedByAdviceGate : Prop :=
  ReachesAdviceGate env module declaration matter context args
    ∧ (adviceCheck env module declaration matter context).allowed = false

/--
The invocation hands its prompt to the gateway.
-/
def ReachesProvider : Prop :=
  ReachesAdviceGate env module declaration matter context args
    ∧ (adviceCheck env module declaration matter context).allowed = true

end Conditions

section Parts

variable {env : Env} {module : PromptModule} {declaration : Declaration} {matter : Matter}
  {context : InvocationContext} {args : Dict}

theorem plain_requireGrants (capabilities : List PyStr)
    : Plain (requireGrants env module declaration matter context capabilities) := by
  induction capabilities with
  | nil => exact .pure ()
  | cons capability capabilities ih => exact (Plain.requireCapability ..).bind fun _ _ => ih

theorem sameConnection_requireGrants (capabilities : List PyStr)
    : SameConnection (requireGrants env module declaration matter context capabilities).trace := by
  induction capabilities with
  | nil => exact sameConnection_nil
  | cons capability capabilities ih =>
    exact sameConnection_bind (Requests.sameConnection_requireCapability _ _ _ _ _ _) fun _ _ => ih

/--
The loop returns exactly if every grant is held.
-/
theorem requireGrants_returns_iff (capabilities : List PyStr)
    : (∃ u, (requireGrants env module declaration matter context capabilities).result = .ok u)
        ↔ Granted env module declaration matter context capabilities := by
  unfold Granted
  induction capabilities with
  | nil => exact iff_of_true ⟨(), rfl⟩ (by simp)
  | cons capability capabilities ih =>
    rw [List.forall_mem_cons, ← ih, ← Requests.isOk_requireCapability, Except.isOk_iff]
    simp only [requireGrants, Traced.result_bind_eq_ok_iff]
    constructor
    . rintro ⟨u, a, ha, hu⟩
      exact ⟨⟨a, ha⟩, u, hu⟩
    . rintro ⟨⟨a, ha⟩, u, hu⟩
      exact ⟨u, a, ha, hu⟩

theorem plain_loadDocument (idx : Nat) (documentId : Uuid) : Plain (loadDocument env matter idx documentId) := by
  refine Plain.query.bind fun _ _ => ?_
  cases env.documents documentId with
  | none => exact .fault _
  | some document => exact Plain.query.bind fun _ _ => .pure _

theorem sameConnection_loadDocument (idx : Nat) (documentId : Uuid)
    : SameConnection (loadDocument env matter idx documentId).trace := by
  refine sameConnection_bind Requests.sameConnection_query fun _ _ => ?_
  cases env.documents documentId with
  | none => exact sameConnection_nil
  | some document => exact sameConnection_bind Requests.sameConnection_query fun _ _ => sameConnection_nil

variable (matter) in
theorem loadDocument_returns_iff (idx : Nat) (documentId : Uuid)
    : (∃ block, (loadDocument env matter idx documentId).result = .ok block)
        ↔ (env.documents documentId).isSome := by
  unfold loadDocument Requests.query
  cases env.documents documentId with
  | none => exact iff_of_false (fun ⟨_, h⟩ => by cases h) (by simp)
  | some document => exact iff_of_true ⟨_, rfl⟩ rfl

theorem plain_loadDocuments (idx : Nat) (documentIds : List Uuid)
    : Plain (loadDocuments env matter idx documentIds) := by
  induction documentIds generalizing idx with
  | nil => exact .pure _
  | cons documentId documentIds ih =>
    exact (plain_loadDocument idx documentId).bind fun _ _ => (ih _).bind fun _ _ => .pure _

theorem sameConnection_loadDocuments (idx : Nat) (documentIds : List Uuid)
    : SameConnection (loadDocuments env matter idx documentIds).trace := by
  induction documentIds generalizing idx with
  | nil => exact sameConnection_nil
  | cons documentId documentIds ih =>
    exact sameConnection_bind (sameConnection_loadDocument idx documentId) fun _ _ =>
      sameConnection_bind (ih _) fun _ _ => sameConnection_nil

variable (matter) in
theorem loadDocuments_returns_iff (idx : Nat) (documentIds : List Uuid)
    : (∃ blocks, (loadDocuments env matter idx documentIds).result = .ok blocks)
        ↔ ∀ documentId ∈ documentIds, (env.documents documentId).isSome := by
  induction documentIds generalizing idx with
  | nil => exact iff_of_true ⟨[], rfl⟩ (by simp)
  | cons documentId documentIds ih =>
    rw [List.forall_mem_cons, ← ih (idx + 1), ← loadDocument_returns_iff matter idx]
    simp only [loadDocuments, Traced.result_bind_eq_ok_iff]
    constructor
    . rintro ⟨_, block, hblock, blocks, hblocks, _⟩
      exact ⟨⟨block, hblock⟩, blocks, hblocks⟩
    . rintro ⟨⟨block, hblock⟩, blocks, hblocks⟩
      exact ⟨_, block, hblock, blocks, hblocks, rfl⟩

theorem loadDocument_result {idx : Nat} {documentId : Uuid} {block : DocumentBlock}
    (h : (loadDocument env matter idx documentId).result = .ok block)
    : blocksFrom env idx [documentId] = [block] := by
  unfold loadDocument Requests.query at h
  unfold blocksFrom
  cases hdocument : env.documents documentId with
  | none =>
    rw [hdocument] at h
    cases h
  | some document =>
    rw [hdocument] at h
    cases h
    rfl

theorem blocksFrom_cons (idx : Nat) (documentId : Uuid) (documentIds : List Uuid)
    : blocksFrom env idx (documentId :: documentIds)
        = blocksFrom env idx [documentId] ++ blocksFrom env (idx + 1) documentIds := by
  simp [blocksFrom]

theorem loadDocuments_result {idx : Nat} {documentIds : List Uuid} {blocks : List DocumentBlock}
    (h : (loadDocuments env matter idx documentIds).result = .ok blocks)
    : blocks = blocksFrom env idx documentIds := by
  induction documentIds generalizing idx blocks with
  | nil =>
    cases h
    rfl
  | cons documentId documentIds ih =>
    have ⟨block, hblock, hafter⟩ := Traced.result_bind_eq_ok_iff.mp h
    have ⟨rest, hrest, hblocks⟩ := Traced.result_bind_eq_ok_iff.mp hafter
    cases hblocks
    rw [blocksFrom_cons, loadDocument_result hblock, ← ih hrest]
    rfl

theorem plain_readDocuments (documentIds : List Uuid)
    : Plain (readDocuments env module declaration matter context documentIds) := by
  unfold readDocuments
  split
  . exact .pure _
  . split
    . exact .fault _
    . exact (plain_requireGrants _).bind fun _ _ => plain_loadDocuments _ _

theorem sameConnection_readDocuments (documentIds : List Uuid)
    : SameConnection (readDocuments env module declaration matter context documentIds).trace := by
  unfold readDocuments
  split
  . exact sameConnection_nil
  . split
    . exact sameConnection_nil
    . exact sameConnection_bind (sameConnection_requireGrants _) fun _ _ => sameConnection_loadDocuments _ _

theorem readDocuments_returns_iff (documentIds : List Uuid)
    : (∃ blocks, (readDocuments env module declaration matter context documentIds).result = .ok blocks)
        ↔ Readable env module declaration matter context documentIds := by
  unfold readDocuments Readable
  by_cases hnone : documentIds = []
  . rw [if_pos hnone]
    exact iff_of_true ⟨[], rfl⟩ (.inl hnone)
  . rw [if_neg hnone]
    by_cases hreads : declaration.reads = []
    . rw [if_pos hreads]
      exact iff_of_false (fun ⟨_, h⟩ => by cases h) fun h => h.elim hnone fun h => h.left hreads
    . rw [if_neg hreads, ← requireGrants_returns_iff, ← loadDocuments_returns_iff matter 1]
      simp only [Traced.result_bind_eq_ok_iff, hnone, hreads, false_or, ne_eq, not_false_eq_true, true_and]
      constructor
      . rintro ⟨blocks, u, hu, hblocks⟩
        exact ⟨⟨u, hu⟩, blocks, hblocks⟩
      . rintro ⟨⟨u, hu⟩, blocks, hblocks⟩
        exact ⟨blocks, u, hu, hblocks⟩

theorem readDocuments_result {documentIds : List Uuid} {blocks : List DocumentBlock}
    (h : (readDocuments env module declaration matter context documentIds).result = .ok blocks)
    : blocks = blocksFrom env 1 documentIds := by
  unfold readDocuments at h
  split at h
  . next hnone =>
    cases h
    rw [hnone]
    rfl
  . split at h
    . cases h
    . have ⟨_, _, hload⟩ := Traced.result_bind_eq_ok_iff.mp h
      exact loadDocuments_result hload

/--
The rows that the advice gate leaves to the transaction.
-/
def adviceTrace (env : Env) (module : PromptModule) (declaration : Declaration) (matter : Matter)
    (context : InvocationContext) : List Cmd :=
  [
    .add (.decision (adviceCheck env module declaration matter context).decision),
    .query,
    .add (.audit (adviceRow (adviceCheck env module declaration matter context)))
  ]

theorem quiet_adviceTrace : Quiet (adviceTrace env module declaration matter context) := by
  simp [adviceTrace]

theorem adviceGate_of_allowed (h : (adviceCheck env module declaration matter context).allowed = true)
    : adviceGate env module declaration matter context
        = { trace := adviceTrace env module declaration matter context, result := .ok () } := by
  unfold adviceGate
  simp only [h]
  rfl

theorem adviceGate_of_not_allowed (h : (adviceCheck env module declaration matter context).allowed = false)
    : adviceGate env module declaration matter context
        = {
          trace := adviceTrace env module declaration matter context
          result := .error (.adviceBoundaryDenied (adviceCheck env module declaration matter context).decision.id
            (adviceCheck env module declaration matter context).decision.gateState)
        } := by
  unfold adviceGate
  simp only [h]
  rfl

end Parts

section Cases

variable (env : Env) (module : PromptModule) (declaration : Declaration) (matter : Matter)
  (context : InvocationContext) (args : Dict)

/--
How far an invocation comes before the provider is called.
-/
inductive Approach : Request (PyStr × List DocumentBlock) → Prop where
  | stopped {x : Request (PyStr × List DocumentBlock)}
      (hnot : ¬ ReachesAdviceGate env module declaration matter context args) (hplain : Plain x)
      (hsame : SameConnection x.trace) (hraises : ∀ a, x.result ≠ .ok a) : Approach x
  | blocked (hblocks : PostureBlocks env declaration matter context)
      : Approach {
        trace := [.outOfBand (.audit (postureBlockedRow matter context module.moduleId declaration.id
          (evaluation env matter context) env.firmRoleGatesEnabled))]
        result := .error (.postureBlocked (evaluation env matter context))
      }
  | denied {before : List Cmd} (hrefused : RefusedByAdviceGate env module declaration matter context args)
      (hquiet : Quiet before)
      : Approach {
        trace := before ++ adviceTrace env module declaration matter context
        result := .error (.adviceBoundaryDenied (adviceCheck env module declaration matter context).decision.id
          (adviceCheck env module declaration matter context).decision.gateState)
      }
  | prompts {before : List Cmd} {documentIds : List Uuid}
      (hreaches : ReachesProvider env module declaration matter context args) (hquiet : Quiet before)
      : Approach {
        trace := before ++ [.add (.audit (invokedRow module declaration matter context documentIds))]
        result := .ok (inputPrompt env module declaration args, inputBlocks env args)
      }

variable {env module declaration matter context args}

theorem postureGate_of_not_blocks (h : ¬ PostureBlocks env declaration matter context)
    : postureGate env module declaration matter context = pure () := if_neg h

variable (env module declaration matter context args) in
/--
The inversion of all that an invocation does before it calls the provider.
-/
theorem approach_beforeProvider
    : Approach env module declaration matter context args
        (beforeProvider env module declaration matter context args) := by
  unfold beforeProvider
  by_cases hnamed : declaration.id = []
  . rw [if_pos hnamed]
    exact .stopped (fun h => h.named hnamed) (.fault _) sameConnection_nil (by simp [Requests.Err.valueError])
  . rw [if_neg hnamed]
    by_cases hinstructed : module.instructions.getD [] = []
    . rw [if_pos hinstructed]
      exact .stopped (fun h => h.instructed hinstructed) (.fault _) sameConnection_nil
        (by simp [Requests.Err.valueError])
    . rw [if_neg hinstructed]
      by_cases hblocks : PostureBlocks env declaration matter context
      . have hgate : postureGate env module declaration matter context
            = {
              trace := [.outOfBand (.audit (postureBlockedRow matter context module.moduleId declaration.id
                (evaluation env matter context) env.firmRoleGatesEnabled))]
              result := .error (.postureBlocked (evaluation env matter context))
            } := if_pos hblocks
        rw [Traced.bind_of_error (by rw [hgate]), hgate]
        exact .blocked hblocks
      . rw [postureGate_of_not_blocks hblocks, Traced.pure_bind]
        cases hids : coerceDocumentIds env args with
        | error fault =>
          refine .stopped (fun h => ?_) (.fault fault) sameConnection_nil fun _ h => by cases h
          have ⟨documentIds, hok, _⟩ := h.documents
          rw [hids] at hok
          cases hok
        | ok documentIds =>
          have hbind {β : Type} (f : List Uuid → Request β) : (Requests.ofFault (.ok documentIds) >>= f) = f documentIds :=
            rfl
          rw [hbind]
          cases hread : (readDocuments env module declaration matter context documentIds).result with
          | error e =>
            have hnone (blocks : List DocumentBlock)
                : (readDocuments env module declaration matter context documentIds).result ≠ .ok blocks := by
              rw [hread]
              simp
            refine .stopped (fun h => ?_) ?_ ?_ ?_
            . have ⟨others, hok, hreadable⟩ := h.documents
              rw [hids, Except.ok.injEq] at hok
              rw [← hok, ← readDocuments_returns_iff] at hreadable
              exact hreadable.elim hnone
            . exact (plain_readDocuments documentIds).bind fun blocks h => absurd h (hnone blocks)
            . exact sameConnection_bind (sameConnection_readDocuments documentIds) fun blocks h =>
                absurd h (hnone blocks)
            . intro a h
              have ⟨blocks, hblocks, _⟩ := Traced.result_bind_eq_ok_iff.mp h
              exact hnone blocks hblocks
          | ok blocks =>
            have hreaches : ReachesAdviceGate env module declaration matter context args :=
              ⟨hnamed, hinstructed, hblocks, documentIds, hids, readDocuments_returns_iff _ |>.mp ⟨blocks, hread⟩⟩
            have hquiet := (plain_readDocuments documentIds).quiet blocks hread
            rw [Traced.bind_of_ok hread]
            cases hallowed : (adviceCheck env module declaration matter context).allowed with
            | false =>
              rw [adviceGate_of_not_allowed hallowed]
              exact .denied ⟨hreaches, hallowed⟩ hquiet
            | true =>
              rw [adviceGate_of_allowed hallowed]
              have hblocks : blocks = inputBlocks env args := by
                unfold inputBlocks
                rw [hids]
                exact readDocuments_result hread
              have hprompts : Approach env module declaration matter context args {
                  trace := ((readDocuments env module declaration matter context documentIds).trace
                    ++ adviceTrace env module declaration matter context)
                    ++ [.add (.audit (invokedRow module declaration matter context documentIds))]
                  result := .ok (inputPrompt env module declaration args, inputBlocks env args)
                } := .prompts ⟨hreaches, hallowed⟩ (quiet_append.mpr ⟨hquiet, quiet_adviceTrace⟩)
              rw [List.append_assoc] at hprompts
              unfold inputPrompt at hprompts
              rw [← hblocks] at hprompts
              exact hprompts

end Cases

end Invocations
