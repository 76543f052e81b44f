import Legalise.Python.Text
import Legalise.Lib.Except
import Legalise.Signoff.Basic

/-!
This module contains the service of supervisor reviews: opening a review of an artifact and deciding it.
-/

namespace Reviews

open Signoff (MatterArtifact Objects SignoffError loadArtifactBytes)

inductive ReviewState where
  | pending
  | approved
  | rejected
  | changesRequested
  | overridden
  deriving DecidableEq

def ReviewState.str : ReviewState → PyStr
  | .pending => py "pending"
  | .approved => py "approved"
  | .rejected => py "rejected"
  | .changesRequested => py "changes_requested"
  | .overridden => py "overridden"

/--
The keys of `_DECISION_MAP`.
-/
inductive Decision where
  | approve
  | reject
  | requestChanges
  | override
  deriving DecidableEq

namespace Decision

def str : Decision → PyStr
  | .approve => py "approve"
  | .reject => py "reject"
  | .requestChanges => py "request_changes"
  | .override => py "override"

def ofStr? (s : PyStr) : Option Decision :=
  [approve, reject, requestChanges, override].find? fun decision => decision.str = s

def targetState : Decision → ReviewState
  | .approve => .approved
  | .reject => .rejected
  | .requestChanges => .changesRequested
  | .override => .overridden

def action : Decision → PyStr
  | .approve => py "review.approved"
  | .reject => py "review.rejected"
  | .requestChanges => py "review.changes_requested"
  | .override => py "review.overridden"

def noteRequired : Decision → Bool
  | .approve => false
  | .reject | .requestChanges | .override => true

theorem targetState_ne_pending (decision : Decision) : decision.targetState ≠ .pending := by
  cases decision <;> decide

end Decision

def reviewEligibleKinds : List PyStr :=
  [py "findings_pack", py "skill_response", py "chat_draft"]

structure User where
  id : Uuid
  isSuperuser : Bool

/--
A row of `matter_reviews`. Moments are counted in microseconds.
-/
structure MatterReview where
  id : Uuid
  matterId : Uuid
  artifactId : Uuid
  invocationId : Uuid
  moduleId : PyStr
  capabilityId : PyStr
  kind : PyStr
  artifactHash : PyStr
  state : ReviewState := .pending
  requestedById : Uuid
  requestedAt : Int
  decidedById : Option Uuid := none
  decidedAt : Option Int := none
  note : Option PyStr := none

inductive ReviewError where
  | notEligible (message : PyStr)
  | alreadyPending (message : PyStr)
  | invalidReviewDecision (message : PyStr)
  | invalidReviewTransition (message : PyStr)
  | reviewerIsAuthor (message : PyStr)
  | noteRequired (message : PyStr)
  | artifact (e : SignoffError)

/--
What `decide_review` changes in a review, and what its audit row says about it.
-/
structure DecisionRow where
  review : MatterReview
  userId : Uuid
  decision : Decision
  note : Option PyStr
  selfReviewOverride : Bool
  decidedAt : Int

/--
The audit rows of reviews.
-/
inductive ReviewAudit where
  | requested (review : MatterReview)
  | decided (row : DecisionRow)

def MatterReview.payload (review : MatterReview) : Dict :=
  [
    (py "review_id", .str review.id.str),
    (py "artifact_id", .str review.artifactId.str),
    (py "invocation_id", .str review.invocationId.str),
    (py "artifact_hash", .str review.artifactHash),
    (py "kind", .str review.kind)
  ]

def ReviewAudit.log : ReviewAudit → AuditLog
  | .requested review => {
    action := py "review.requested"
    actorId := some review.requestedById
    matterId := some review.matterId
    module := some review.moduleId
    resourceType := some (py "matter_review")
    resourceId := some review.id.str
    payload := review.payload
  }
  | .decided row => {
    action := row.decision.action
    actorId := some row.userId
    matterId := some row.review.matterId
    module := some row.review.moduleId
    resourceType := some (py "matter_review")
    resourceId := some row.review.id.str
    payload := row.review.payload ++ [
      (py "decision", .str row.decision.str),
      (py "note", (row.note.map Json.str).getD .null),
      (py "self_review_superuser_override", .bool row.selfReviewOverride)
    ]
  }

/--
The first part of `request_review`: no review of the artifact may be pending.
-/
def checkRequest (artifact : MatterArtifact) (reviews : List MatterReview) : Except ReviewError Unit :=
  if artifact.kind.val ∉ reviewEligibleKinds then
    .error (.notEligible (py "artifact kind '" ++ artifact.kind.val ++ py "' is not review-eligible"))
  else if reviews.any fun review => review.artifactId = artifact.id && review.state = .pending then
    .error (.alreadyPending (py "a pending review already exists for artifact " ++ artifact.id.str))
  else .ok ()

/--
The second part of `request_review`: the row that is inserted.
-/
def newReview (digest : Bytes → PyStr) (objects : Objects) (artifact : MatterArtifact) (user : User) (newId : Uuid)
    (now : Int) : Except ReviewError MatterReview := do
  let content ← (loadArtifactBytes objects artifact.storagePath).mapError .artifact
  return {
    id := newId
    matterId := artifact.matterId
    artifactId := artifact.id
    invocationId := artifact.invocationId
    moduleId := artifact.moduleId.val
    capabilityId := artifact.capabilityId.val
    kind := artifact.kind.val
    artifactHash := digest content
    requestedById := user.id
    requestedAt := now
  }

/--
`clean_note`
-/
def cleanNote (note : Option PyStr) : PyStr :=
  PyStr.strip (note.getD [])

def isAuthor (artifact : MatterArtifact) (review : MatterReview) (user : User) : Bool :=
  user.id = review.requestedById || some user.id = artifact.createdById

/--
`decide_review` of a review as the session has loaded it, up to the update.
-/
def decideReview (artifact : MatterArtifact) (review : MatterReview) (user : User) (decision : PyStr)
    (note : Option PyStr) (now : Int) : Except ReviewError DecisionRow :=
  match Decision.ofStr? decision with
  | none => .error (.invalidReviewDecision (py "unknown decision '" ++ decision ++ py "'"))
  | some verb =>
    if review.state ≠ .pending then
      .error (.invalidReviewTransition
        (py "review " ++ review.id.str ++ py " is already " ++ review.state.str))
    else if verb.noteRequired && cleanNote note = [] then
      .error (.noteRequired (py "decision '" ++ decision ++ py "' requires a note"))
    else if isAuthor artifact review user && !user.isSuperuser then
      .error (.reviewerIsAuthor (py "reviewer must differ from the author/requester"))
    else
      .ok {
        review := review
        userId := user.id
        decision := verb
        note := if cleanNote note = [] then none else some (cleanNote note)
        selfReviewOverride := isAuthor artifact review user
        decidedAt := now
      }

/--
The columns that the update of a decision writes. A note that is still `None` is not one of them.
-/
def DecisionRow.update (row : DecisionRow) (review : MatterReview) : MatterReview :=
  if review.id = row.review.id then
    {
      review with
      state := row.decision.targetState
      decidedById := some row.userId
      decidedAt := some row.decidedAt
      note := row.note.or review.note
    }
  else review

section Lemmas

variable {artifact : MatterArtifact} {review : MatterReview} {user : User} {row : DecisionRow}

@[simp]
theorem id_update (row : DecisionRow) (review : MatterReview) : (row.update review).id = review.id := by
  unfold DecisionRow.update
  split <;> rfl

@[simp]
theorem requestedById_update (row : DecisionRow) (review : MatterReview)
    : (row.update review).requestedById = review.requestedById := by
  unfold DecisionRow.update
  split <;> rfl

theorem update_of_ne (h : review.id ≠ row.review.id) : row.update review = review :=
  if_neg h

/--
The user of a decision is neither the requester nor the creator, or the row says that a superuser has
overridden this.
-/
def Separated (artifact : MatterArtifact) (requestedById : Uuid) (row : DecisionRow) : Prop :=
  row.selfReviewOverride = true
    ∨ row.userId ≠ requestedById ∧ some row.userId ≠ artifact.createdById

theorem decideReview_eq_ok {decision : PyStr} {note : Option PyStr} {now : Int}
    (h : decideReview artifact review user decision note now = .ok row)
    : row.review = review ∧ Separated artifact review.requestedById row := by
  unfold decideReview at h
  split at h
  . contradiction
  . split at h
    . contradiction
    . split at h
      . contradiction
      . split at h
        . contradiction
        . cases h
          refine ⟨rfl, ?_⟩
          by_cases hauthor : isAuthor artifact review user = true
          . exact .inl hauthor
          . right
            simpa [isAuthor] using hauthor

theorem newReview_eq_ok {digest : Bytes → PyStr} {objects : Objects} {newId : Uuid} {now : Int}
    (h : newReview digest objects artifact user newId now = .ok review)
    : review.id = newId ∧ review.state = .pending ∧ review.decidedById = none ∧ review.note = none := by
  unfold newReview at h
  simp only [Except.bind_eq_ok_iff, Except.pure_eq_ok_iff] at h
  obtain ⟨_, _, h⟩ := h
  subst h
  exact ⟨rfl, rfl, rfl, rfl⟩

end Lemmas

end Reviews
