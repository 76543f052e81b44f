import Legalise.Python.JsonUnicode
import Legalise.Python.Hashlib
import Legalise.Audit.Log

/-!
This module contains the sign-off of artifacts: the requests that open the sign surface and that record a
decision, and the labels of an export.
-/

namespace Signoff

/--
`json.loads` of bytes. Which encodings it detects is its own business.
-/
structure JsonReader where
  loads : Bytes → Option Json
  distinctKeys : ∀ data v, loads data = some v → v.DistinctKeys

/--
The reader of UTF-8.
-/
def JsonReader.utf8 (parseFloat : PyStr → Option PyFloat) : JsonReader where
  loads := JsonText.loadsBytes parseFloat
  distinctKeys _ _ := JsonText.distinctKeys_loadsBytes

/--
The runtime and the settings.
-/
structure Env where
  R : PyRepr
  sha256 : Sha256
  json : JsonReader
  signoffAuthorMustDiffer : Bool

structure MatterArtifact where
  id : Uuid
  matterId : Uuid
  moduleId : PgText
  capabilityId : PgText
  invocationId : Uuid
  kind : PgText
  storagePath : PyStr
  createdById : Option Uuid

inductive Decision where
  | signed
  | signedWithObservations
  | rejected
  deriving DecidableEq

namespace Decision

def str : Decision → PyStr
  | .signed => py "signed"
  | .signedWithObservations => py "signed_with_observations"
  | .rejected => py "rejected"

/--
`SIGNOFF_DECISIONS`
-/
def ofStr? (s : PyStr) : Option Decision :=
  [signed, signedWithObservations, rejected].find? fun decision => decision.str = s

/--
`SIGNOFF_REASONING_REQUIRED`
-/
def reasoningRequired (decision : Decision) : Bool :=
  decision = .signedWithObservations || decision = .rejected

/--
`SIGNOFF_AFFIRMATIVE`
-/
def affirmative (decision : Decision) : Bool :=
  decision = .signed || decision = .signedWithObservations

/--
`SIGNOFF_ACTION_BY_DECISION`
-/
def action : Decision → PyStr
  | .signed => py "output.signed"
  | .signedWithObservations => py "output.signed_with_observations"
  | .rejected => py "output.sign_rejected"

end Decision

/--
A row of `matter_signoffs`. Moments are counted in microseconds.
-/
structure MatterSignoff where
  id : Uuid
  matterId : Uuid
  artifactId : Uuid
  invocationId : Uuid
  moduleId : PgText
  capabilityId : PgText
  kind : PgText
  artifactHash : PyStr
  decision : Decision
  reasoning : Option PyStr
  signerId : Uuid
  signedAt : Int

structure AuditEntry extends AuditLog where
  timestamp : Int

/--
The errors of a request.
-/
inductive SignoffError where
  | artifactNotFound (artifactId : Uuid)
  | invalidSignoffDecision (message : PyStr)
  | reasoningRequired (message : PyStr)
  | authorCannotSign
  | artifactBytesUnavailable (message : PyStr)
  | jsonDecodeError
  | unicodeEncodeError
  | integrityError
  deriving DecidableEq

/--
The objects of the storage.
-/
abbrev Objects := PyStr → Option Bytes

/--
The tables `matter_signoffs` and `audit_entries`, and the storage.
-/
structure State where
  signoffs : List MatterSignoff := []
  auditEntries : List AuditEntry := []
  objects : Objects

section Review

def reviewOpenedAction : PyStr :=
  py "output.review.opened"

/--
The row of the first open of an artifact's sign surface.
-/
def reviewOpenedLog (artifact : MatterArtifact) (userId : Uuid) : AuditLog where
  action := reviewOpenedAction
  actorId := some userId
  matterId := some artifact.matterId
  module := some artifact.moduleId.val
  resourceType := some (py "matter_artifact")
  resourceId := some artifact.id.str
  payload :=
    [
      (py "artifact_id", .str artifact.id.str),
      (py "invocation_id", .str artifact.invocationId.str),
      (py "kind", .str artifact.kind.val)
    ]

def isReviewOpened (userId artifactId : Uuid) (entry : AuditEntry) : Bool :=
  entry.action = reviewOpenedAction && entry.actorId = some userId
    && entry.resourceType = some (py "matter_artifact") && entry.resourceId = some artifactId.str

/--
Nothing is written if the signer has opened the artifact before.
-/
def recordReviewOpened (entries : List AuditEntry) (artifact : MatterArtifact) (userId : Uuid) (now : Int)
    : List AuditEntry :=
  if entries.any (isReviewOpened userId artifact.id) then entries
  else entries ++ [⟨reviewOpenedLog artifact userId, now⟩]

/--
The entry of `review_opened_at_map` for a signer and an artifact.
-/
def reviewOpenedAt (entries : List AuditEntry) (userId artifactId : Uuid) : Option Int :=
  ((entries.filter (isReviewOpened userId artifactId)).map AuditEntry.timestamp).min?

def reviewLatencySeconds (openedAt : Option Int) (signedAt : Int) : Option Int :=
  openedAt.bind fun openedAt =>
    if signedAt - openedAt < 0 then none else some ((signedAt - openedAt) / 1000000)

/--
`text.split()`
-/
def split (s : PyStr) : List PyStr :=
  (s.splitOnP PyStr.isSpace).filter (· ≠ [])

mutual

/--
The words of all strings of a payload that are values.
-/
def countPayloadWords : Json → Nat
  | .str s => (split s).length
  | .dict items => countDictWords items
  | .list vs => countListWords vs
  | _ => 0

def countDictWords : List (PyStr × Json) → Nat
  | [] => 0
  | (_, v) :: items => countPayloadWords v + countDictWords items

def countListWords : List Json → Nat
  | [] => 0
  | v :: vs => countPayloadWords v + countListWords vs

end

def implausibleSpeedFloorSeconds : ℚ := 120

/--
A quarter of ten minutes for every thousand words.
-/
def implausibleSpeedSecondsPerWord : ℚ := 10 * 60 / 1000 * (1 / 4)

def implausibleSpeedThresholdSeconds (wordCount : Nat) : ℚ :=
  max implausibleSpeedFloorSeconds (wordCount * implausibleSpeedSecondsPerWord)

def implausibleSpeed (reviewSeconds : Option Int) (payload : Json) : Bool :=
  match reviewSeconds with
  | some seconds => seconds < implausibleSpeedThresholdSeconds (countPayloadWords payload)
  | none => false

end Review

section Hash

/--
New artifacts store a key, legacy rows stored an absolute path.
-/
def isLegacyPath (storagePath : PyStr) : Bool :=
  (py "/").isPrefixOf storagePath

def loadArtifactBytes (objects : Objects) (storagePath : PyStr) : Except SignoffError Bytes :=
  if isLegacyPath storagePath then
    .error (.artifactBytesUnavailable (py "legacy local-fs artifact: " ++ storagePath))
  else
    match objects storagePath with
    | some data => .ok data
    | none => .error (.artifactBytesUnavailable (py "artifact object missing: " ++ storagePath))

/--
`json.loads(load_artifact_bytes(artifact.storage_path))`
-/
def loadPayload (E : Env) (objects : Objects) (artifact : MatterArtifact) : Except SignoffError Json := do
  let data ← loadArtifactBytes objects artifact.storagePath
  match E.json.loads data with
  | some payload => return payload
  | none => throw .jsonDecodeError

/--
What is hashed: the artifact's id and kind and its payload.
-/
def canonicalPayload (artifactId : Uuid) (kind : PyStr) (payload : Json) : Json :=
  .dict [(py "artifact_id", .str artifactId.str), (py "kind", .str kind), (py "payload", payload)]

def canonicalPayloadHash (E : Env) (artifact : MatterArtifact) (payload : Json) : Except SignoffError PyStr :=
  let canonical := JsonText.dumpsCanonicalRaw E.R (canonicalPayload artifact.id artifact.kind.val payload)
  if Utf8Encodable canonical then .ok (E.sha256.hexdigest canonical) else .error .unicodeEncodeError

def computeSignoffHash (E : Env) (objects : Objects) (artifact : MatterArtifact) : Except SignoffError PyStr := do
  let payload ← loadPayload E objects artifact
  canonicalPayloadHash E artifact payload

end Hash

section Create

/--
A request to record a decision, with the id and the moment that the server gives to it.
-/
structure CreateSignoff where
  matterId : Uuid
  artifactId : Uuid
  userId : Uuid
  decision : PyStr
  reasoning : Option PyStr
  id : Uuid
  now : Int

/--
What a decision adds to the tables, and the payload that it was made on.
-/
structure CreatedSignoff where
  row : MatterSignoff
  entry : AuditEntry
  payload : Json

def strOrNull : Option PyStr → Json
  | some s => .str s
  | none => .null

def intOrNull : Option Int → Json
  | some n => .int n
  | none => .null

def createSignoff (E : Env) (s : State) (artifact : MatterArtifact) (request : CreateSignoff)
    : Except SignoffError CreatedSignoff := do
  let some decision := Decision.ofStr? request.decision
    | throw (.invalidSignoffDecision (py "unknown decision '" ++ request.decision ++ py "'"))
  let cleanReasoning := PyStr.strip (request.reasoning.getD [])
  if decision.reasoningRequired && cleanReasoning = [] then
    throw (.reasoningRequired (py "decision '" ++ request.decision ++ py "' requires reasoning"))
  let signerIsAuthor : Bool := artifact.createdById = some request.userId
  if E.signoffAuthorMustDiffer && signerIsAuthor && decision.affirmative then
    throw .authorCannotSign
  let payload ← loadPayload E s.objects artifact
  let artifactHash ← canonicalPayloadHash E artifact payload
  let opened := reviewOpenedAt s.auditEntries request.userId artifact.id
  let reviewSeconds := reviewLatencySeconds opened request.now
  let reasoning := if cleanReasoning = [] then none else some cleanReasoning
  if s.signoffs.any fun row => row.id = request.id then
    throw .integrityError
  let row : MatterSignoff :=
    {
      id := request.id,
      matterId := request.matterId,
      artifactId := artifact.id,
      invocationId := artifact.invocationId,
      moduleId := artifact.moduleId,
      capabilityId := artifact.capabilityId,
      kind := artifact.kind,
      artifactHash,
      decision,
      reasoning,
      signerId := request.userId,
      signedAt := request.now
    }
  let log : AuditLog :=
    {
      action := decision.action,
      actorId := some request.userId,
      matterId := some request.matterId,
      module := some artifact.moduleId.val,
      resourceType := some (py "matter_signoff"),
      resourceId := some request.id.str,
      payload :=
        [
          (py "signoff_id", .str request.id.str),
          (py "artifact_id", .str artifact.id.str),
          (py "invocation_id", .str artifact.invocationId.str),
          (py "artifact_hash", .str artifactHash),
          (py "kind", .str artifact.kind.val),
          (py "decision", .str request.decision),
          (py "reasoning", strOrNull reasoning),
          (py "signer_is_author", .bool signerIsAuthor),
          (py "review_seconds", intOrNull reviewSeconds),
          (py "implausible_speed", .bool (implausibleSpeed reviewSeconds payload))
        ]
    }
  return ⟨row, ⟨log, request.now⟩, payload⟩

/--
`POST /{slug}/signoffs`: the artifact is looked up in the matter.
-/
def createSignoffEndpoint (E : Env) (artifacts : List MatterArtifact) (s : State) (request : CreateSignoff)
    : Except SignoffError CreatedSignoff := do
  let some artifact := artifacts.find? fun a => a.id = request.artifactId && a.matterId = request.matterId
    | throw (.artifactNotFound request.artifactId)
  createSignoff E s artifact request

end Create

end Signoff
