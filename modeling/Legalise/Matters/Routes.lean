import Legalise.Capabilities.Grants
import Legalise.Jobs.MatterDeletion
import Legalise.Python.Bytes

/-!
This module contains the routes under `/api/matters/{slug}` that write: uploads, reindexing, the posture, the model,
closing and deleting.
-/

namespace Matters

open Capabilities (GrantTable GrantError Deletion tombstoneMatter)
open Jobs (Job createJob updateStatus)

section Data

def statusOpen : PyStr := py "open"
def statusClosed : PyStr := py "closed"
def statusArchived : PyStr := py "archived"

def privilegeCleared : PyStr := py "A_cleared"
def privilegeMixed : PyStr := py "B_mixed"
def privilegePaused : PyStr := py "C_paused"

/--
`sorted(PRIVILEGE_VALUES)`
-/
def privilegeValues : List PyStr := [privilegeCleared, privilegeMixed, privilegePaused]

/--
`sorted(TAG_VALUES)`
-/
def tagValues : List PyStr := [py "cleared", py "disclosure", py "draft", py "signed"]

/--
The ids of `_CATALOG`.
-/
def catalogIds : List PyStr :=
  [
    py "claude-sonnet-5", py "claude-opus-4-8", py "claude-sonnet-4-6", py "claude-haiku-4-5", py "claude-opus-4-7",
    py "gpt-5", py "gpt-5-mini", py "anthropic/claude-sonnet-5", py "openai/gpt-5", py "deepseek/deepseek-r1",
    py "ollama", py "stub-echo"
  ]

def isKnownModel (modelId : PyStr) : Bool :=
  modelId ∈ catalogIds

structure Matter where
  id : Uuid
  slug : PyStr
  title : PyStr
  createdById : Uuid
  status : PyStr
  privilegePosture : PyStr
  defaultModelId : PyStr
  closedAt : Option Timestamp

/--
The columns of `uq_matters_owner_slug`.
-/
def Matter.key (m : Matter) : Uuid × PyStr :=
  (m.createdById, m.slug)

structure ExtractResult where
  extractedText : PyStr
  extractionMethod : PyStr
  charCount : Int
  pageCount : Option Int
  errorReason : Option PyStr

/--
A row of `documents` with the body that is extracted from it.
-/
structure Document where
  id : Uuid
  matterId : Uuid
  filename : PyStr
  mimeType : PyStr
  sizeBytes : Nat
  sha256 : PyStr
  storageUri : PyStr
  tag : Option PyStr
  fromDisclosure : Bool
  disclosureProceedingsRef : Option PyStr
  uploadedById : Uuid
  body : ExtractResult
  indexStatus : PyStr

/--
A row of `document_versions` of the kind `upload`.
-/
structure DocumentVersion where
  documentId : Uuid
  versionNumber : Nat
  createdById : Uuid
  storageUri : PyStr
  filename : PyStr
  mimeType : PyStr
  sizeBytes : Nat
  sha256 : PyStr

/--
What is committed.
-/
structure Database where
  matters : List Matter
  ids : (matters.map Matter.id).Nodup
  keys : (matters.map Matter.key).Nodup
  documents : List Document
  versions : List DocumentVersion
  jobs : List Job
  grants : GrantTable
  audit : List AuditLog

/--
The update of the columns of a matter that are not in a constraint.
-/
structure MatterUpdate where
  apply : Matter → Matter
  id : ∀ m, (apply m).id = m.id
  key : ∀ m, (apply m).key = m.key

namespace Database

theorem map_update {α : Type} (column : Matter → α) (matters : List Matter) (id : Uuid) (update : MatterUpdate)
    (hcolumn : ∀ m, column (update.apply m) = column m)
    : (matters.map fun m => if m.id = id then update.apply m else m).map column = matters.map column := by
  rw [List.map_map]
  apply List.map_congr_left
  intro m _
  rw [Function.comp_apply]
  split
  . exact hcolumn m
  . rfl

def update (db : Database) (id : Uuid) (update : MatterUpdate) : Database :=
  {
    db with
    matters := db.matters.map fun m => if m.id = id then update.apply m else m
    ids := by rw [map_update Matter.id db.matters id update update.id]; exact db.ids
    keys := by rw [map_update Matter.key db.matters id update update.key]; exact db.keys
  }

/--
`select(Matter).where(Matter.slug == slug, Matter.created_by_id == user.id)`
-/
def matter? (db : Database) (userId : Uuid) (slug : PyStr) : Option Matter :=
  db.matters.find? fun m => m.key = (userId, slug)

end Database

end Data

section Errors

structure HttpError where
  status : Nat
  detail : Json

def textOrNull (s : Option PyStr) : Json :=
  (s.map Json.str).getD .null

def matterNotFound (slug : PyStr) : HttpError :=
  ⟨404, .str (py "matter not found: " ++ slug)⟩

/--
The envelope of `http_error`.
-/
def httpError (status : Nat) (error message : PyStr) (detail : Dict) : HttpError :=
  ⟨status, .dict ([(py "error", .str error), (py "message", .str message)] ++ detail)⟩

def limitExceeded (limit : PyStr) (current maximum : Int) : HttpError :=
  ⟨429, .dict [
    (py "error", .str (py "evaluation_limit_reached")), (py "limit", .str limit), (py "current", .int current),
    (py "max", .int maximum),
    (py "message", .str (py "Hosted evaluation limit reached. Legalise is open source; self-hosting removes hosted limits."))
  ]⟩

def matterArchived : HttpError :=
  ⟨409, .dict [
    (py "error", .str (py "matter_archived")),
    (py "message", .str (py "A deleted (archived) matter cannot be closed."))
  ]⟩

end Errors

section Upload

/--
`MIME_TO_FORMAT`
-/
def mimeToFormat : List (PyStr × PyStr) :=
  [
    (py "application/pdf", py "pdf"),
    (py "application/vnd.openxmlformats-officedocument.wordprocessingml.document", py "docx"),
    (py "application/msword", py "doc"), (py "text/plain", py "text"), (py "text/markdown", py "text"),
    (py "application/rtf", py "rtf"), (py "text/rtf", py "rtf")
  ]

/--
`sorted(ALLOWED_UPLOAD_MIMES)`
-/
def allowedUploadMimes : List PyStr :=
  [
    py "application/msword", py "application/pdf", py "application/rtf",
    py "application/vnd.openxmlformats-officedocument.wordprocessingml.document", py "text/markdown",
    py "text/plain", py "text/rtf"
  ]

def maxUploadBytes : Nat := 25 * 1024 * 1024

def sniffFormat (head : Bytes) : Option PyStr :=
  if ([0x25, 0x50, 0x44, 0x46, 0x2D] : Bytes) <+: head then some (py "pdf")
  else if ([0x50, 0x4B, 0x03, 0x04] : Bytes) <+: head then some (py "docx")
  else if ([0xD0, 0xCF, 0x11, 0xE0, 0xA1, 0xB1, 0x1A, 0xE1] : Bytes) <+: head then some (py "doc")
  else if ([0x7B, 0x5C, 0x72, 0x74, 0x66] : Bytes) <+: head then some (py "rtf")
  else (Utf8.decode head).map fun _ => py "text"

/--
An upload: the form, the ids that are drawn for it, and how the object storage and the queue answer.
-/
structure Upload where
  filename : Option PyStr
  contentType : Option PyStr
  contents : Bytes
  tag : Option PyStr
  fromDisclosure : Bool
  disclosureProceedingsRef : Option PyStr
  documentId : Uuid
  jobId : Uuid
  storageError : Option (PyStr × PyStr)
  queueError : Option PyStr
  now : Timestamp

/--
The settings and the code of libraries.
-/
structure Env where
  R : PyRepr
  documentsPerMatter : Int
  totalStorageBytesPerUser : Int
  embeddingBackend : PyStr
  sha256 : Bytes → PyStr
  extract : Bytes → PyStr → PyStr → ExtractResult
  indexDocument : Document → PyStr

variable (E : Env)

/--
The checks of the form, which come before the limits.
-/
def validateForm (u : Upload) : Except HttpError Unit := do
  if let some tag := u.tag then
    if tag ∉ tagValues then
      throw ⟨400, .str (py "tag must be one of " ++ (Json.list (tagValues.map .str)).repr E.R)⟩
  if u.contentType.getD [] ∉ allowedUploadMimes then
    throw ⟨415, .dict [
      (py "error", .str (py "unsupported_mime")), (py "got", textOrNull u.contentType),
      (py "allowed", .list (allowedUploadMimes.map .str))
    ]⟩
  if maxUploadBytes < u.contents.length then
    throw ⟨413, .dict [
      (py "error", .str (py "upload_too_large")), (py "max_bytes", .int maxUploadBytes),
      (py "got_bytes", .int u.contents.length)
    ]⟩

def checkDocumentUpload (db : Database) (userId matterId : Uuid) (contentLength : Nat) : Except HttpError Unit := do
  let current := (db.documents.filter fun d => d.matterId = matterId).length
  if E.documentsPerMatter ≤ current then
    throw (limitExceeded (py "documents_per_matter") current E.documentsPerMatter)
  let live := (db.matters.filter fun m => m.createdById = userId ∧ m.status ≠ statusArchived).map Matter.id
  let used := ((db.documents.filter fun d => d.matterId ∈ live).map Document.sizeBytes).sum
  if E.totalStorageBytesPerUser < used + contentLength then
    throw (limitExceeded (py "total_storage_bytes_per_user") used E.totalStorageBytesPerUser)

def validateMagicBytes (u : Upload) : Except HttpError Unit :=
  let declared := List.lookup (u.contentType.getD []) mimeToFormat
  let inferred := sniffFormat (u.contents.take 1024)
  if inferred.isNone ∨ declared ≠ inferred then
    .error ⟨415, .dict [
      (py "error", .str (py "magic_byte_mismatch")), (py "declared_mime", textOrNull u.contentType),
      (py "declared_format", textOrNull declared), (py "inferred_format", textOrNull inferred)
    ]⟩
  else .ok ()

def uploadedKey (userId matterId documentId : Uuid) (sha256 : PyStr) : PyStr :=
  py "users/" ++ userId.str ++ py "/matters/" ++ matterId.str ++ py "/documents/" ++ documentId.str ++ py "/" ++ sha256

def newDocument (userId : Uuid) (m : Matter) (u : Upload) : Document :=
  let filename := u.filename.filter (· ≠ []) |>.getD (py "untitled")
  let mimeType := u.contentType.getD (py "application/octet-stream")
  {
    id := u.documentId
    matterId := m.id
    filename := filename
    mimeType := mimeType
    sizeBytes := u.contents.length
    sha256 := E.sha256 u.contents
    storageUri := uploadedKey userId m.id u.documentId (E.sha256 u.contents)
    tag := u.tag
    fromDisclosure := u.fromDisclosure
    disclosureProceedingsRef := u.disclosureProceedingsRef
    uploadedById := userId
    body := E.extract u.contents mimeType filename
    indexStatus := py "pending"
  }

def Document.version (d : Document) : DocumentVersion where
  documentId := d.id
  versionNumber := 1
  createdById := d.uploadedById
  storageUri := d.storageUri
  filename := d.filename
  mimeType := d.mimeType
  sizeBytes := d.sizeBytes
  sha256 := d.sha256

/--
The audit rows of an upload before those of its job.
-/
def Document.uploadLogs (d : Document) : List AuditLog :=
  let log (action : PyStr) (module : Option PyStr) (payload : Dict) : AuditLog :=
    {
      action := action, actorId := some d.uploadedById, matterId := some d.matterId, module := module,
      resourceType := some (py "document"), resourceId := some d.id.str, payload := payload
    }
  let ingestion := some (py "document_ingestion")
  [
    log (py "document.upload") none [
      (py "filename", .str d.filename), (py "sha256", .str d.sha256), (py "tag", textOrNull d.tag),
      (py "from_disclosure", .bool d.fromDisclosure)
    ],
    if d.body.extractionMethod = py "failed" then
      log (py "document.text_extraction_failed") ingestion [
        (py "reason", textOrNull d.body.errorReason), (py "mime_type", .str d.mimeType)
      ]
    else
      log (py "document.text_extracted") ingestion [
        (py "method", .str d.body.extractionMethod), (py "char_count", .int d.body.charCount),
        (py "page_count", (d.body.pageCount.map Json.int).getD .null), (py "mime_type", .str d.mimeType)
      ]
  ]

end Upload

section Routes

variable (E : Env) (db : Database) (userId : Uuid) (slug : PyStr)

/--
A log of a request about the matter itself.
-/
def matterLog (m : Matter) (action : PyStr) (module : Option PyStr) (payload : Dict) : AuditLog where
  action := action
  actorId := some userId
  matterId := some m.id
  module := module
  resourceType := some (py "matter")
  resourceId := some m.slug
  payload := payload

/--
The answer of a request: what is committed when it is over, and the status of its response.
-/
abbrev Answer := Database × Except HttpError Nat

def resolveOwnedOpenMatter : Except HttpError Matter :=
  match db.matters.find? fun m => m.key = (userId, slug) ∧ m.status ≠ statusArchived with
  | some m => .ok m
  | none => .error (matterNotFound slug)

/--
The checks of an upload in their order.
-/
def checkUpload (u : Upload) : Except HttpError Matter := do
  let m ← resolveOwnedOpenMatter db userId slug
  validateForm E u
  checkDocumentUpload E db userId m.id u.contents.length
  validateMagicBytes u
  return m

/--
An upload that has got past its checks. The failure of a write to the storage is audited on its own, and the failure
of the queue comes after the commit.
-/
def storeUpload (m : Matter) (u : Upload) : Answer :=
  let d := newDocument E userId m u
  match u.storageError with
  | some (backend, code) =>
    let log : AuditLog := {
      action := py "storage.put_bytes.failed"
      actorId := some userId
      matterId := some m.id
      module := some (py "storage")
      resourceType := some (py "document")
      resourceId := some d.id.str
      payload := [
        (py "storage_key", .str d.storageUri), (py "backend", .str backend), (py "error_code", .str code)
      ]
    }
    ({ db with audit := db.audit ++ [log] }, .error (httpError 502 (py "storage_write_failed")
      (py "The document could not be saved. Try uploading it again.")
      [(py "storage_key", .str d.storageUri), (py "backend", .str backend)]))
  | none =>
    let (job, log) := createJob u.jobId m.id userId (py "index") [(py "document_id", .str d.id.str)]
    let db : Database := {
      db with
      documents := db.documents ++ [d]
      versions := db.versions ++ [d.version]
      jobs := db.jobs ++ [job]
      audit := db.audit ++ d.uploadLogs ++ [log]
    }
    match u.queueError with
    | none => (db, .ok 201)
    | some typeName =>
      let (failed, log) := updateStatus u.now job .failed {
        errorCode := some (py "enqueue_failed")
        errorMessage := some (py "Failed to enqueue index job: " ++ typeName)
      }
      (
        {
          db with
          jobs := db.jobs.map fun row => if row.id = job.id then failed else row
          audit := db.audit ++ [log]
        },
        .error ⟨503, .dict [
          (py "error", .str (py "job_enqueue_failed")), (py "job_id", .str job.id.str),
          (py "message", .str (py "The job couldn't be queued. Try again — the failed "
            ++ py "attempt does not count against your active jobs."))
        ]⟩
      )

def uploadDocument (u : Upload) : Answer :=
  match checkUpload E db userId slug u with
  | .error e => (db, .error e)
  | .ok m => storeUpload E db userId m u

/--
`reindex_documents`, with the status that each document of the matter gets.
-/
def reindexDocuments : Answer :=
  match resolveOwnedOpenMatter db userId slug with
  | .error e => (db, .error e)
  | .ok m =>
    let documents := db.documents.map fun d => if d.matterId = m.id then { d with indexStatus := E.indexDocument d } else d
    let count (status : PyStr) : Json :=
      .int (documents.filter fun d => d.matterId = m.id ∧ d.indexStatus = status).length
    let log := matterLog userId m (py "matter.reindexed") (some (py "retrieval")) [
      (py "indexed", count (py "indexed")), (py "empty", count (py "empty")), (py "failed", count (py "failed")),
      (py "embedding_backend", .str E.embeddingBackend)
    ]
    ({ db with documents := documents, audit := db.audit ++ [log] }, .ok 200)

def setPosture (posture : PyStr) : MatterUpdate where
  apply m := { m with privilegePosture := posture }
  id _ := rfl
  key _ := rfl

def setModel (modelId : PyStr) : MatterUpdate where
  apply m := { m with defaultModelId := modelId }
  id _ := rfl
  key _ := rfl

def setClosed (now : Timestamp) : MatterUpdate where
  apply m := { m with status := statusClosed, closedAt := some now }
  id _ := rfl
  key _ := rfl

def setArchived : MatterUpdate where
  apply m := { m with status := statusArchived }
  id _ := rfl
  key _ := rfl

/--
An update of a matter with the audit row of its change.
-/
def change (m : Matter) (update : MatterUpdate) (action : PyStr) (payload : Dict) : Answer :=
  ({ db.update m.id update with audit := db.audit ++ [matterLog userId m action none payload] }, .ok 200)

def setPrivilegePosture (posture : PyStr) : Answer :=
  if posture ∉ privilegeValues then
    (db, .error ⟨400, .str (py "privilege_posture must be one of " ++ (Json.list (privilegeValues.map .str)).repr E.R)⟩)
  else
    match db.matter? userId slug with
    | none => (db, .error (matterNotFound slug))
    | some m =>
      if m.privilegePosture = posture then (db, .ok 200)
      else change db userId m (setPosture posture) (py "privilege.set")
        [(py "from", .str m.privilegePosture), (py "to", .str posture)]

def updateMatter (modelId : PyStr) : Answer :=
  if !isKnownModel modelId then (db, .error ⟨422, .str (py "unknown model id: " ++ modelId)⟩)
  else
    match db.matter? userId slug with
    | none => (db, .error (matterNotFound slug))
    | some m =>
      if m.status = statusArchived then (db, .error (matterNotFound slug))
      else if m.defaultModelId = modelId then (db, .ok 200)
      else change db userId m (setModel modelId) (py "matter.model.changed")
        [(py "from", .str m.defaultModelId), (py "to", .str modelId)]

def closeMatter (now : Timestamp) : Answer :=
  match db.matter? userId slug with
  | none => (db, .error (matterNotFound slug))
  | some m =>
    if m.status = statusArchived then (db, .error matterArchived)
    else if m.status = statusClosed then (db, .ok 200)
    else change db userId m (setClosed now) (py "matter.closed") [(py "from", .str m.status)]

def deletion (m : Matter) (storageDeleted : Bool) : Deletion where
  matterId := m.id
  slug := m.slug
  title := m.title
  actorId := some userId
  activeCount := Jobs.MatterDeletion.activeCount m.id db.jobs
  exportCount := (db.jobs.filter fun job => job.matterId = m.id ∧ job.kind = py "export" ∧ job.status = .succeeded).length
  storageDeleted := storageDeleted

def deleteMatter (storageDeleted : Bool) : Answer :=
  match db.matter? userId slug with
  | none => (db, .error (matterNotFound slug))
  | some m =>
    if m.status = statusArchived then (db, .error (matterNotFound slug))
    else
      match tombstoneMatter db.grants (deletion db userId m storageDeleted) with
      | .error (.matterHasActiveJobs activeCount) =>
        (db, .error ⟨409, .dict [
          (py "error", .str (py "matter_has_active_jobs")), (py "active_job_count", .int activeCount),
          (py "message", .str (py "This matter has active jobs. Wait for them to complete "
            ++ py "or cancel them before deleting the matter."))
        ]⟩)
      | .error _ =>
        (db, .error ⟨502, .dict [
          (py "error", .str (py "matter_storage_delete_failed")), (py "matter_slug", .str m.slug),
          (py "message", .str (py "Failed to delete matter storage objects. The matter "
            ++ py "has NOT been archived; please retry. If the error persists, contact the operator."))
        ]⟩)
      | .ok (grants, logs) => ({ db.update m.id setArchived with grants := grants, audit := db.audit ++ logs }, .ok 204)

/--
A request to one of the routes, with what the outside world does during it.
-/
inductive Request where
  | uploadDocument (u : Upload)
  | reindexDocuments
  | setPrivilegePosture (posture : PyStr)
  | updateMatter (modelId : PyStr)
  | closeMatter (now : Timestamp)
  | deleteMatter (storageDeleted : Bool)

def handle : Request → Answer
  | .uploadDocument u => uploadDocument E db userId slug u
  | .reindexDocuments => reindexDocuments E db userId slug
  | .setPrivilegePosture posture => setPrivilegePosture E db userId slug posture
  | .updateMatter modelId => updateMatter db userId slug modelId
  | .closeMatter now => closeMatter db userId slug now
  | .deleteMatter storageDeleted => deleteMatter db userId slug storageDeleted

end Routes

/--
An environment with the default limits, in which every file is a text of four characters.
-/
def plainEnv : Env where
  R := .quoted
  documentsPerMatter := 50
  totalStorageBytesPerUser := 500 * 1024 * 1024
  embeddingBackend := py "stub"
  sha256 _ := py "00"
  extract _ _ _ := ⟨py "text", py "plain", 4, none, none⟩
  indexDocument _ := py "indexed"

end Matters
