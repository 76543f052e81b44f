import Legalise.Audit.Log
import Legalise.Lib.Runs
import Legalise.Rendering.Assets
import Legalise.Requests.Basic
import Legalise.Signoff.Basic

/-!
This module contains concurrent requests to save one assistant reply as a draft, and when there is one draft that all
of them answer with.
-/

namespace SaveDraft

open Rendering (sanitiseFilename)
open Requests (Role)
open Signoff (MatterArtifact)

section Payload

/--
A row of `assistant_messages`.
-/
structure AssistantMessage where
  id : Uuid
  matterId : Uuid
  threadId : Option Uuid
  role : Role
  content : PyStr
  sources : List Json
  modelUsed : Option PyStr
  promptHash : Option PyStr
  responseHash : Option PyStr

structure Matter where
  id : Uuid
  slug : PyStr
  createdById : Uuid
  status : PyStr

def chatDraftKind : PgText := ⟨py "chat_draft", by decide⟩
def saveDraftModuleId : PgText := ⟨py "assistant", by decide⟩
def saveDraftCapabilityId : PgText := ⟨py "assistant.save_draft", by decide⟩

def statusArchived : PyStr := py "archived"

def textOrNull (s : Option PyStr) : Json :=
  (s.map Json.str).getD .null

/--
The anchor of the source at an index.
-/
def sourceAnchor (i : Nat) (source : Dict) : Json :=
  .dict [
    (py "id", .str (py "src-" ++ pyNat (i + 1))),
    (py "source_type", .str (py "document")),
    (py "document_id", Dict.get source (py "document_id")),
    (py "filename", Dict.get source (py "title")),
    (py "label", Dict.get source (py "title")),
    (py "quote", Dict.get source (py "snippet"))
  ]

def draftPayload (message : AssistantMessage) : Json :=
  let sources := message.sources.filterMap fun
    | .dict source => some source
    | _ => none
  .dict [
    (py "output", .str message.content),
    (py "model_id", textOrNull message.modelUsed),
    (py "saved_from", .str (py "assistant_message")),
    (py "source_message_id", .str message.id.str),
    (py "thread_id", textOrNull (message.threadId.map Uuid.str)),
    (py "prompt_hash", textOrNull message.promptHash),
    (py "response_hash", textOrNull message.responseHash),
    (py "sources", .list (sources.map .dict)),
    (py "source_anchors", .list (sources.mapIdx sourceAnchor))
  ]

def artifactKey (userId matterId artifactId : Uuid) (capabilityId kind : PyStr) : PyStr :=
  py "users/" ++ userId.str ++ py "/matters/" ++ matterId.str ++ py "/artifacts/" ++ sanitiseFilename capabilityId
    ++ py "/" ++ artifactId.str ++ py "_" ++ sanitiseFilename kind ++ py ".json"

/--
The row that `write_artifact` inserts for a reply.
-/
def newArtifact (matter : Matter) (message : AssistantMessage) (userId artifactId : Uuid) : MatterArtifact where
  id := artifactId
  matterId := matter.id
  moduleId := saveDraftModuleId
  capabilityId := saveDraftCapabilityId
  invocationId := message.id
  kind := chatDraftKind
  storagePath := artifactKey matter.createdById matter.id artifactId saveDraftCapabilityId.val chatDraftKind.val
  createdById := some userId

def savedLog (message : AssistantMessage) (artifact : MatterArtifact) : AuditLog where
  action := py "assistant.draft.saved"
  actorId := artifact.createdById
  matterId := some artifact.matterId
  module := some saveDraftModuleId.val
  resourceType := some (py "matter_artifact")
  resourceId := some artifact.id.str
  payload := [
    (py "source_message_id", .str message.id.str),
    (py "thread_id", textOrNull (message.threadId.map Uuid.str)),
    (py "model_used", textOrNull message.modelUsed),
    (py "prompt_hash", textOrNull message.promptHash),
    (py "response_hash", textOrNull message.responseHash),
    (py "source_count", .int message.sources.length),
    (py "kind", .str chatDraftKind.val)
  ]

end Payload

section Machine

inductive Answer where
  | matterNotFound (slug : PyStr)
  | messageNotFound
  | notAssistant
  | saved (artifactId : Uuid) (kind : PyStr) (alreadyExisted : Bool)
  | integrityError
  | commitFailed

/--
The answers of the requests that get past the checks.
-/
def Answer.isPast : Answer → Bool
  | .matterNotFound _ => false
  | .messageNotFound => false
  | .notAssistant => false
  | _ => true

/--
Where a request is. `inserted` and `logged` have flushed their rows.
-/
inductive Phase where
  | idle
  | missed (matter : Matter) (userId : Uuid)
  | stored (artifact : MatterArtifact)
  | inserted (artifact : MatterArtifact)
  | logged (artifact : MatterArtifact) (log : AuditLog)
  | ended (answer : Answer)

structure StoredObject where
  request : Nat
  key : PyStr
  content : Bytes

/--
The committed drafts of one reply and their audit rows, the objects that the requests have written, the requests, and
the one that holds the entry of the reply in the unique index.
-/
structure State where
  drafts : List MatterArtifact
  audit : List AuditLog
  objects : List StoredObject
  phases : Nat → Phase
  holder : Option Nat

/--
The statements of the requests.
-/
inductive Event where
  | select (request : Nat) (slug : PyStr) (userId : Uuid)
  | putBytes (request : Nat) (artifactId : Uuid)
  | insert (request : Nat)
  | log (request : Nat)
  | commit (request : Nat) (fails : Bool)

namespace State

def initial : State where
  drafts := []
  audit := []
  objects := []
  phases _ := .idle
  holder := none

def setPhase (s : State) (t : Nat) (phase : Phase) : State :=
  { s with phases := Function.update s.phases t phase }

end State

/--
`resolve_owned_open_matter`
-/
def resolveOwnedOpenMatter (matters : List Matter) (slug : PyStr) (userId : Uuid) : Option Matter :=
  matters.find? fun matter => matter.slug = slug ∧ matter.createdById = userId ∧ matter.status ≠ statusArchived

/--
A row that a request for the reply finds.
-/
def IsDraft (message : AssistantMessage) (artifact : MatterArtifact) : Prop :=
  artifact.invocationId = message.id ∧ artifact.kind = chatDraftKind ∧ artifact.matterId = message.matterId

instance (message : AssistantMessage) (artifact : MatterArtifact) : Decidable (IsDraft message artifact) :=
  inferInstanceAs (Decidable (_ ∧ _ ∧ _))

variable (serialise : Json → Bytes) (matters : List Matter) (message : AssistantMessage)

/--
The checks of a request and its search for a draft.
-/
def select (s : State) (slug : PyStr) (userId : Uuid) : Phase :=
  match resolveOwnedOpenMatter matters slug userId with
  | none => .ended (.matterNotFound slug)
  | some matter =>
    if message.matterId ≠ matter.id then .ended .messageNotFound
    else if message.role ≠ .assistant then .ended .notAssistant
    else
      match s.drafts.find? fun artifact => IsDraft message artifact with
      | some existing => .ended (.saved existing.id existing.kind.val true)
      | none => .missed matter userId

def exec (s : State) : Event → State
  | .select t slug userId =>
    match s.phases t with
    | .idle => s.setPhase t (select matters message s slug userId)
    | _ => s
  | .putBytes t artifactId =>
    match s.phases t with
    | .missed matter userId =>
      let artifact := newArtifact matter message userId artifactId
      let object : StoredObject := ⟨t, artifact.storagePath, serialise (draftPayload message)⟩
      { s.setPhase t (.stored artifact) with objects := s.objects ++ [object] }
    | _ => s
  | .insert t =>
    match s.phases t with
    | .stored artifact =>
      -- the insert waits for the request that has flushed a row with the same key
      if s.holder.isSome then s
      else if s.drafts.any fun draft => draft.invocationId = artifact.invocationId ∧ draft.kind = artifact.kind then
        s.setPhase t (.ended .integrityError)
      else { s.setPhase t (.inserted artifact) with holder := some t }
    | _ => s
  | .log t =>
    match s.phases t with
    | .inserted artifact => s.setPhase t (.logged artifact (savedLog message artifact))
    | _ => s
  | .commit t fails =>
    match s.phases t with
    | .logged artifact log =>
      if fails then { s.setPhase t (.ended .commitFailed) with holder := none }
      else
        {
          s.setPhase t (.ended (.saved artifact.id artifact.kind.val false)) with
          drafts := s.drafts ++ [artifact]
          audit := s.audit ++ [log]
          holder := none
        }
    | _ => s

end Machine

/--
What is promised of a state. The objects of requests that are still going on are left out.
-/
structure OneDraft (s : State) : Prop where
  drafts : s.drafts.length ≤ 1
  audit : s.audit.length ≤ 1
  answers : ∀ t answer, s.phases t = .ended answer → answer.isPast = true → answer ≠ .commitFailed
    → ∃ draft alreadyExisted, s.drafts = [draft] ∧ answer = .saved draft.id draft.kind.val alreadyExisted
  objects : ∀ object ∈ s.objects, ∀ answer, s.phases object.request = .ended answer
    → ∃ draft ∈ s.drafts, draft.storagePath = object.key

/--
No draft has been committed when a request inserts its own, and no commit fails.
-/
def Undisturbed (s : State) : Event → Prop
  | .insert t => ∀ artifact, s.phases t = .stored artifact → s.drafts = []
  | .commit t fails => ∀ artifact log, s.phases t = .logged artifact log → fails = false
  | _ => True

section Moves

/--
A statement that does nothing: an insert waits for the holder, and a commit is none if there is nothing to commit.
-/
def Waits (s : State) : Event → Prop
  | .insert t => ∀ artifact, s.phases t = .stored artifact → s.holder ≠ none
  | .commit t _ => ∀ artifact log, s.phases t ≠ .logged artifact log
  | _ => True

variable (message : AssistantMessage)

/--
What a statement can do.
-/
inductive Moves (s : State) : Event → State → Prop where
  | stay {event} (hwaits : Waits s event)
    : Moves s event s
  | refused {t slug userId answer} (hidle : s.phases t = .idle) (hanswer : answer.isPast = false)
    : Moves s (.select t slug userId) (s.setPhase t (.ended answer))
  | found {t slug userId draft} (hidle : s.phases t = .idle) (hdraft : draft ∈ s.drafts)
    : Moves s (.select t slug userId) (s.setPhase t (.ended (.saved draft.id draft.kind.val true)))
  | missed {t slug userId matter} (hidle : s.phases t = .idle) (hmatter : message.matterId = matter.id)
    : Moves s (.select t slug userId) (s.setPhase t (.missed matter userId))
  | stored {t artifactId matter userId content} (hmissed : s.phases t = .missed matter userId)
    : Moves s (.putBytes t artifactId)
        { s.setPhase t (.stored (newArtifact matter message userId artifactId)) with
          objects := s.objects ++ [⟨t, (newArtifact matter message userId artifactId).storagePath, content⟩] }
  | lost {t artifact} (hstored : s.phases t = .stored artifact) (hholder : s.holder = none)
      (hclash : ∃ draft ∈ s.drafts, draft.invocationId = artifact.invocationId ∧ draft.kind = artifact.kind)
    : Moves s (.insert t) (s.setPhase t (.ended .integrityError))
  | inserted {t artifact} (hstored : s.phases t = .stored artifact) (hholder : s.holder = none)
      (hfree : ∀ draft ∈ s.drafts, ¬ (draft.invocationId = artifact.invocationId ∧ draft.kind = artifact.kind))
    : Moves s (.insert t) { s.setPhase t (.inserted artifact) with holder := some t }
  | logged {t artifact} (hinserted : s.phases t = .inserted artifact)
    : Moves s (.log t) (s.setPhase t (.logged artifact (savedLog message artifact)))
  | failed {t artifact log} (hlogged : s.phases t = .logged artifact log)
    : Moves s (.commit t true) { s.setPhase t (.ended .commitFailed) with holder := none }
  | committed {t artifact log} (hlogged : s.phases t = .logged artifact log)
    : Moves s (.commit t false)
        { s.setPhase t (.ended (.saved artifact.id artifact.kind.val false)) with
          drafts := s.drafts ++ [artifact], audit := s.audit ++ [log], holder := none }

variable {message} {serialise : Json → Bytes} {matters : List Matter} {s : State}

theorem moves_select {t : Nat} (hidle : s.phases t = .idle) (slug : PyStr) (userId : Uuid)
    : Moves message s (.select t slug userId) (s.setPhase t (select matters message s slug userId)) := by
  unfold select
  split
  . exact .refused hidle rfl
  . next matter _ =>
    split
    . exact .refused hidle rfl
    . next hmatter =>
      split
      . exact .refused hidle rfl
      . split
        . next existing hfind => exact .found hidle (List.mem_of_find?_eq_some hfind)
        . exact .missed hidle (not_not.mp hmatter)

theorem moves_insert (t : Nat) : Moves message s (.insert t) (exec serialise matters message s (.insert t)) := by
  unfold exec
  dsimp only
  split
  . next artifact hstored =>
    split
    . next hholder =>
      refine .stay fun _ _ hnone => ?_
      rw [hnone] at hholder
      contradiction
    . next hholder =>
      rw [Option.not_isSome_iff_eq_none] at hholder
      split
      . next hclash => exact .lost hstored hholder (by simpa using hclash)
      . next hfree => exact .inserted hstored hholder (by simpa using hfree)
  . next hphase => exact .stay fun artifact hstored => absurd hstored (hphase artifact)

theorem moves_exec (s : State) (event : Event) : Moves message s event (exec serialise matters message s event) := by
  cases event with
  | select t slug userId =>
    unfold exec
    dsimp only
    split
    . next hidle => exact moves_select hidle slug userId
    . exact .stay trivial
  | putBytes t artifactId =>
    unfold exec
    dsimp only
    split
    . next hmissed => exact .stored hmissed
    . exact .stay trivial
  | insert t => exact moves_insert t
  | log t =>
    unfold exec
    dsimp only
    split
    . next hinserted => exact .logged hinserted
    . exact .stay trivial
  | commit t fails =>
    unfold exec
    dsimp only
    split
    . next hlogged =>
      cases fails with
      | true => exact .failed hlogged
      | false => exact .committed hlogged
    . next hphase => exact .stay hphase

end Moves

section Invariant

variable {message : AssistantMessage} {s s' : State} {event : Event}

def Phase.artifact? : Phase → Option MatterArtifact
  | .stored artifact => some artifact
  | .inserted artifact => some artifact
  | .logged artifact _ => some artifact
  | _ => none

/--
Whether a request has flushed its rows and not committed them.
-/
def Phase.isFlushed : Phase → Bool
  | .inserted _ => true
  | .logged _ _ => true
  | _ => false

/--
Only a request that is over, or one that has a row for it, has written an object.
-/
def Phase.Wrote (key : PyStr) : Phase → Prop
  | .idle => False
  | .missed _ _ => False
  | .ended _ => True
  | .stored artifact => artifact.storagePath = key
  | .inserted artifact => artifact.storagePath = key
  | .logged artifact _ => artifact.storagePath = key

structure Inv (message : AssistantMessage) (s : State) : Prop where
  drafts : ∀ draft ∈ s.drafts, IsDraft message draft
  audit : s.audit.length = s.drafts.length
  artifacts : ∀ t artifact, (s.phases t).artifact? = some artifact → IsDraft message artifact
  matters : ∀ t matter userId, s.phases t = .missed matter userId → message.matterId = matter.id
  objects : ∀ object ∈ s.objects, (s.phases object.request).Wrote object.key
  written : ∀ t artifact, (s.phases t).artifact? = some artifact
    → ∃ object ∈ s.objects, object.request = t ∧ object.key = artifact.storagePath
  holder : ∀ t, (s.phases t).isFlushed = true ↔ s.holder = some t
  free : s.holder ≠ none → s.drafts = []

theorem inv_initial (message : AssistantMessage) : Inv message .initial where
  drafts _ h := by cases h
  audit := rfl
  artifacts _ _ h := by cases h
  matters _ _ _ h := by cases h
  objects _ h := by cases h
  written _ _ h := by cases h
  holder t := by simp [State.initial, Phase.isFlushed]
  free h := absurd rfl h

theorem phases_setPhase (s : State) (t u : Nat) (phase : Phase)
    : (s.setPhase t phase).phases u = if u = t then phase else s.phases u :=
  Function.update_apply s.phases t phase u

/--
A request goes on with the row that it has, if any, and nothing is committed or written.
-/
theorem Inv.move (h : Inv message s) {t : Nat} {phase : Phase} {holder : Option Nat}
    (hartifact : ∀ artifact, phase.artifact? = some artifact → (s.phases t).artifact? = some artifact)
    (hmatter : ∀ matter userId, phase = .missed matter userId → message.matterId = matter.id)
    (hwrote : ∀ object ∈ s.objects, object.request = t → phase.Wrote object.key)
    (hholder : ∀ u, (if u = t then phase else s.phases u).isFlushed = true ↔ holder = some u)
    (hfree : holder ≠ none → s.drafts = [])
    : Inv message { s.setPhase t phase with holder := holder } where
  drafts := h.drafts
  audit := h.audit
  artifacts u artifact hu := by
    dsimp only at hu
    rw [phases_setPhase] at hu
    split at hu
    . exact h.artifacts t artifact (hartifact artifact hu)
    . exact h.artifacts u artifact hu
  matters u matter userId hu := by
    dsimp only at hu
    rw [phases_setPhase] at hu
    split at hu
    . exact hmatter matter userId hu
    . exact h.matters u matter userId hu
  objects object hobject := by
    dsimp only
    rw [phases_setPhase]
    split
    . next heq => exact hwrote object hobject heq
    . exact h.objects object hobject
  written u artifact hu := by
    dsimp only at hu
    rw [phases_setPhase] at hu
    split at hu
    . next heq => exact heq ▸ h.written t artifact (hartifact artifact hu)
    . exact h.written u artifact hu
  holder u := by
    dsimp only
    rw [phases_setPhase]
    exact hholder u
  free := hfree

/--
The holder stays the holder as long as its phase and that of the request are flushed or not as before.
-/
theorem Inv.holder_of_isFlushed_eq (h : Inv message s) {t : Nat} {phase : Phase}
    (hflushed : phase.isFlushed = (s.phases t).isFlushed) (u : Nat)
    : (if u = t then phase else s.phases u).isFlushed = true ↔ s.holder = some u := by
  split
  . next heq => rw [hflushed, heq, h.holder]
  . exact h.holder u

/--
A request that ends before it has flushed its row, or with it.
-/
theorem Inv.setEnded (h : Inv message s) {t : Nat} (hflushed : (s.phases t).isFlushed = false) (answer : Answer)
    : Inv message (s.setPhase t (.ended answer)) :=
  h.move (fun _ heq => by cases heq) (fun _ _ heq => by cases heq) (fun _ _ _ => trivial)
    (h.holder_of_isFlushed_eq hflushed.symm) h.free

theorem Inv.setEnded_of_isFlushed (h : Inv message s) {t : Nat} (hflushed : (s.phases t).isFlushed = true)
    (answer : Answer) : Inv message { s.setPhase t (.ended answer) with holder := none } := by
  refine h.move (fun _ heq => by cases heq) (fun _ _ heq => by cases heq) (fun _ _ _ => trivial) (fun u => ?_)
    fun hne => absurd rfl hne
  have ht := (h.holder t).mp hflushed
  split
  . simp [Phase.isFlushed]
  . next hne =>
    rw [h.holder u, ht]
    simp [Ne.symm hne]

theorem isDraft_newArtifact {matter : Matter} (h : message.matterId = matter.id) (userId artifactId : Uuid)
    : IsDraft message (newArtifact matter message userId artifactId) :=
  ⟨rfl, rfl, h.symm⟩

/--
A request has written its object.
-/
theorem Inv.store (h : Inv message s) {t : Nat} {matter : Matter} {userId : Uuid}
    (hmissed : s.phases t = .missed matter userId) (artifactId : Uuid) (content : Bytes)
    : Inv message { s.setPhase t (.stored (newArtifact matter message userId artifactId)) with
        objects := s.objects ++ [⟨t, (newArtifact matter message userId artifactId).storagePath, content⟩] } where
  drafts := h.drafts
  audit := h.audit
  artifacts u artifact hu := by
    dsimp only at hu
    rw [phases_setPhase] at hu
    split at hu
    . cases hu
      exact isDraft_newArtifact (h.matters t matter userId hmissed) userId artifactId
    . exact h.artifacts u artifact hu
  matters u matter userId hu := by
    dsimp only at hu
    rw [phases_setPhase] at hu
    split at hu
    . cases hu
    . exact h.matters u matter userId hu
  objects object hobject := by
    dsimp only
    rw [phases_setPhase]
    rcases List.mem_append.mp hobject with hold | hnew
    . split
      . next heq =>
        have hwrote := h.objects object hold
        rw [heq, hmissed] at hwrote
        exact hwrote.elim
      . exact h.objects object hold
    . rw [List.mem_singleton.mp hnew, if_pos rfl]
      exact rfl
  written u artifact hu := by
    dsimp only at hu ⊢
    rw [phases_setPhase] at hu
    split at hu
    . next heq =>
      cases hu
      exact ⟨_, List.mem_append_right _ (List.mem_singleton_self _), heq.symm, rfl⟩
    . have ⟨object, hmem, hobject⟩ := h.written u artifact hu
      exact ⟨object, List.mem_append_left _ hmem, hobject⟩
  holder u := by
    dsimp only
    rw [phases_setPhase]
    exact h.holder_of_isFlushed_eq (by rw [hmissed]; rfl) u
  free := h.free

theorem Inv.moves (h : Inv message s) (hmoves : Moves message s event s') : Inv message s' := by
  cases hmoves with
  | stay => exact h
  | refused hidle => exact h.setEnded (by rw [hidle]; rfl) _
  | found hidle => exact h.setEnded (by rw [hidle]; rfl) _
  | missed hidle hmatter =>
    refine h.move (fun _ heq => by cases heq) (fun _ _ heq => ?_) (fun object hobject heq => ?_)
      (h.holder_of_isFlushed_eq (by rw [hidle]; rfl)) h.free
    . cases heq
      exact hmatter
    . have hwrote := h.objects object hobject
      rw [heq, hidle] at hwrote
      exact hwrote
  | stored hmissed => exact h.store hmissed _ _
  | lost hstored => exact h.setEnded (by rw [hstored]; rfl) _
  | @inserted t artifact hstored hholder hfree =>
    have hartifact : (s.phases t).artifact? = some artifact := by
      rw [hstored]
      rfl
    refine h.move (fun _ heq => heq ▸ hartifact) (fun _ _ heq => by cases heq) (fun object hobject heq => ?_)
      (fun u => ?_) fun _ => ?_
    . have hwrote := h.objects object hobject
      rw [heq, hstored] at hwrote
      exact hwrote
    . split
      . next heq => simp [heq, Phase.isFlushed]
      . next hne =>
        rw [h.holder u, hholder]
        simp [Ne.symm hne]
    . -- a draft of the reply has the key of the row
      have hdraft := h.artifacts t artifact hartifact
      refine List.eq_nil_iff_forall_not_mem.mpr fun draft hmem => hfree draft hmem ?_
      have hother := h.drafts draft hmem
      exact ⟨hother.left.trans hdraft.left.symm, hother.right.left.trans hdraft.right.left.symm⟩
  | logged hinserted =>
    refine h.move (fun _ heq => by rw [hinserted]; exact heq) (fun _ _ heq => by cases heq)
      (fun object hobject heq => ?_) (h.holder_of_isFlushed_eq (by rw [hinserted]; rfl)) h.free
    have hwrote := h.objects object hobject
    rw [heq, hinserted] at hwrote
    exact hwrote
  | failed hlogged => exact h.setEnded_of_isFlushed (by rw [hlogged]; rfl) _
  | @committed t artifact log hlogged =>
    have hend := h.setEnded_of_isFlushed (t := t) (by rw [hlogged]; rfl)
      (.saved artifact.id artifact.kind.val false)
    refine ⟨fun draft hmem => ?_, ?_, hend.artifacts, hend.matters, hend.objects, hend.written, hend.holder,
      fun hne => absurd rfl hne⟩
    . rcases List.mem_append.mp hmem with hold | hnew
      . exact h.drafts draft hold
      . rw [List.mem_singleton.mp hnew]
        exact h.artifacts t artifact (by rw [hlogged]; rfl)
    . rw [List.length_append, List.length_append, h.audit]
      rfl

/--
Nothing is committed while a request has flushed its row.
-/
theorem Inv.drafts_eq_nil (h : Inv message s) {t : Nat} (hflushed : (s.phases t).isFlushed = true)
    : s.drafts = [] := by
  refine h.free ?_
  rw [(h.holder t).mp hflushed]
  simp

theorem length_drafts_moves (hinv : Inv message s) (h : s.drafts.length ≤ 1) (hmoves : Moves message s event s')
    : s'.drafts.length ≤ 1 := by
  cases hmoves with
  | committed hlogged =>
    dsimp only
    rw [hinv.drafts_eq_nil (by rw [hlogged]; rfl)]
    simp
  | _ => exact h

/--
Whatever is lost or fails, the unique index lets one draft in at most, with one audit row.
-/
theorem oneDraftRow (serialise : Json → Bytes) (matters : List Matter) (message : AssistantMessage)
    (events : List Event)
    : (events.foldl (exec serialise matters message) .initial).drafts.length ≤ 1
        ∧ (events.foldl (exec serialise matters message) .initial).audit.length
          = (events.foldl (exec serialise matters message) .initial).drafts.length := by
  have ⟨hinv, hlength⟩ := @Runs.foldl_invariant State Event (exec serialise matters message)
    (fun s => Inv message s ∧ s.drafts.length ≤ 1) (fun _ _ => True)
    (fun s event _ h => ⟨h.left.moves (moves_exec s event), length_drafts_moves h.left h.right (moves_exec s event)⟩)
    .initial ⟨inv_initial message, by simp [State.initial]⟩ events fun _ _ _ => trivial
  exact ⟨hlength, hinv.audit⟩

end Invariant

section Promise

variable {message : AssistantMessage} {s s' : State} {event : Event}

/--
A request goes on or ends, and nothing is committed or written.
-/
theorem OneDraft.move (h : OneDraft s) {t : Nat} {phase : Phase} {holder : Option Nat}
    (hanswer : ∀ answer, phase = .ended answer → answer.isPast = true → answer ≠ .commitFailed
      → ∃ draft alreadyExisted, s.drafts = [draft] ∧ answer = .saved draft.id draft.kind.val alreadyExisted)
    (hobject : ∀ object ∈ s.objects, object.request = t → ∀ answer, phase = .ended answer
      → ∃ draft ∈ s.drafts, draft.storagePath = object.key)
    : OneDraft { s.setPhase t phase with holder := holder } where
  drafts := h.drafts
  audit := h.audit
  answers u answer hu := by
    dsimp only at hu
    rw [phases_setPhase] at hu
    split at hu
    . exact hanswer answer hu
    . exact h.answers u answer hu
  objects object hmem answer hended := by
    dsimp only at hended
    rw [phases_setPhase] at hended
    split at hended
    . next heq => exact hobject object hmem heq answer hended
    . exact h.objects object hmem answer hended

/--
A request that has written nothing yet.
-/
theorem Inv.request_ne (h : Inv message s) {t : Nat} (hidle : s.phases t = .idle) {object : StoredObject}
    (hobject : object ∈ s.objects) : object.request ≠ t := by
  intro heq
  have hwrote := h.objects object hobject
  rw [heq, hidle] at hwrote
  exact hwrote

theorem undisturbed_of_waits (hinv : Inv message s) (hwaits : Waits s event) : Undisturbed s event := by
  cases event with
  | insert t => exact fun artifact hstored => hinv.free (hwaits artifact hstored)
  | commit t fails => exact fun artifact log hlogged => absurd hlogged (hwaits artifact log)
  | _ => trivial

/--
A step keeps the promise if and only if it is an undisturbed one.
-/
theorem oneDraft_moves_iff (hinv : Inv message s) (h : OneDraft s) (hmoves : Moves message s event s')
    : OneDraft s' ↔ Undisturbed s event := by
  cases hmoves with
  | stay hwaits => exact iff_of_true h (undisturbed_of_waits hinv hwaits)
  | refused hidle hanswer =>
    refine iff_of_true (h.move (fun answer heq hpast _ => ?_) fun object hobject heq => ?_) trivial
    . cases heq
      rw [hanswer] at hpast
      contradiction
    . exact absurd heq (hinv.request_ne hidle hobject)
  | @found t slug userId draft hidle hdraft =>
    refine iff_of_true (h.move (fun answer heq _ _ => ?_) fun object hobject heq => ?_) trivial
    . cases heq
      have hone : s.drafts = [draft] := by
        have ⟨only, honly⟩ := List.length_eq_one_iff.mp (le_antisymm h.drafts (List.length_pos_of_mem hdraft))
        rw [honly, List.mem_singleton] at hdraft
        rw [honly, hdraft]
      exact ⟨draft, true, hone, rfl⟩
    . exact absurd heq (hinv.request_ne hidle hobject)
  | missed => exact iff_of_true (h.move (fun _ heq => by cases heq) fun _ _ _ _ heq => by cases heq) trivial
  | @stored t artifactId matter userId content hmissed =>
    have hmove : OneDraft (s.setPhase t (.stored (newArtifact matter message userId artifactId))) :=
      h.move (fun _ heq => by cases heq) fun _ _ _ _ heq => by cases heq
    refine iff_of_true ⟨hmove.drafts, hmove.audit, hmove.answers, fun object hobject answer hended => ?_⟩ trivial
    rcases List.mem_append.mp hobject with hold | hnew
    . exact hmove.objects object hold answer hended
    . rw [List.mem_singleton.mp hnew] at hended
      dsimp only at hended
      rw [phases_setPhase, if_pos rfl] at hended
      cases hended
  | @lost t artifact hstored _ hclash =>
    have ⟨draft, hmem, _⟩ := hclash
    refine iff_of_false (fun h' => ?_) fun hgood => ?_
    . have ⟨_, _, _, hanswer⟩ := h'.answers t .integrityError (by rw [phases_setPhase, if_pos rfl]) rfl
        (fun heq => by cases heq)
      cases hanswer
    . rw [hgood artifact hstored] at hmem
      cases hmem
  | @inserted t artifact hstored hholder hfree =>
    refine iff_of_true (h.move (fun _ heq => by cases heq) fun _ _ _ _ heq => by cases heq) fun _ _ => ?_
    exact (hinv.moves (.inserted hstored hholder hfree)).free (by simp)
  | logged => exact iff_of_true (h.move (fun _ heq => by cases heq) fun _ _ _ _ heq => by cases heq) trivial
  | @failed t artifact log hlogged =>
    refine iff_of_false (fun h' => ?_) fun hgood => ?_
    . -- the object of the request is left behind
      have ⟨object, hmem, hrequest, _⟩ := hinv.written t artifact (by rw [hlogged]; rfl)
      have ⟨draft, hdraft, _⟩ := h'.objects object hmem .commitFailed
        (by dsimp only; rw [phases_setPhase, if_pos hrequest])
      have hnil : s.drafts = [] := hinv.drafts_eq_nil (by rw [hlogged]; rfl)
      have hdraft : draft ∈ s.drafts := hdraft
      rw [hnil] at hdraft
      cases hdraft
    . exact absurd (hgood artifact log hlogged) (by simp)
  | @committed t artifact log hlogged =>
    have hnil : s.drafts = [] := hinv.drafts_eq_nil (by rw [hlogged]; rfl)
    refine iff_of_true ⟨?_, ?_, fun u answer hu hpast hcommit => ?_, fun object hobject answer hended => ?_⟩
      fun _ _ _ => rfl
    . simp [hnil]
    . have haudit := hinv.audit
      rw [hnil] at haudit
      simp [List.length_eq_zero_iff.mp haudit]
    . dsimp only at hu
      rw [phases_setPhase] at hu
      split at hu
      . cases hu
        exact ⟨artifact, false, by simp [hnil], rfl⟩
      . have ⟨draft, _, hdraft, _⟩ := h.answers u answer hu hpast hcommit
        rw [hnil] at hdraft
        cases hdraft
    . dsimp only at hended
      rw [phases_setPhase] at hended
      split at hended
      . next heq =>
        have hwrote := hinv.objects object hobject
        rw [heq, hlogged] at hwrote
        exact ⟨artifact, by simp, hwrote⟩
      . have ⟨draft, hdraft, _⟩ := h.objects object hobject answer hended
        rw [hnil] at hdraft
        cases hdraft

theorem oneDraft_initial : OneDraft .initial where
  drafts := by simp [State.initial]
  audit := by simp [State.initial]
  answers _ _ h := by cases h
  objects _ h := by cases h

end Promise

/--
However the requests are interleaved, the promise is kept in all states if and only if no request inserts a row when a
draft is committed already, and no commit fails.
-/
theorem oneDraft_iff_undisturbed (serialise : Json → Bytes) (matters : List Matter) (message : AssistantMessage)
    (events : List Event)
    : (∀ earlier, earlier <+: events → OneDraft (earlier.foldl (exec serialise matters message) .initial))
        ↔ ∀ earlier event, earlier ++ [event] <+: events
          → Undisturbed (earlier.foldl (exec serialise matters message) .initial) event :=
  @Runs.holds_iff_good State Event (exec serialise matters message) (Inv message) OneDraft Undisturbed
    (fun s event hinv => hinv.moves (moves_exec s event))
    (fun s event hinv h => oneDraft_moves_iff hinv h (moves_exec s event))
    .initial (inv_initial message) oneDraft_initial events

section DoubleClick

def letterReply : AssistantMessage where
  id := Uuid.ofNat 1
  matterId := Uuid.ofNat 2
  threadId := some (Uuid.ofNat 3)
  role := .assistant
  content := py "Dear Sirs"
  sources := []
  modelUsed := none
  promptHash := none
  responseHash := none

def openMatter : Matter := ⟨Uuid.ofNat 2, py "acme-v-bolt", Uuid.ofNat 4, py "open"⟩

/--
Two requests have both read that there is no draft. The second one inserts when the first one has committed.
-/
theorem doubleClick_not_oneDraft : ¬ ∀ earlier, earlier <+: [
      .select 0 (py "acme-v-bolt") (Uuid.ofNat 4), .select 1 (py "acme-v-bolt") (Uuid.ofNat 4),
      .putBytes 0 (Uuid.ofNat 5), .putBytes 1 (Uuid.ofNat 6),
      .insert 0, .log 0, .commit 0 false, .insert 1
    ] → OneDraft (earlier.foldl (exec (fun _ => []) [openMatter] letterReply) .initial) := by
  intro h
  have hlast := h _ (List.prefix_refl _)
  have hended := hlast.answers 1 .integrityError rfl rfl (fun heq => by cases heq)
  have ⟨_, _, _, hanswer⟩ := hended
  cases hanswer

end DoubleClick

end SaveDraft
