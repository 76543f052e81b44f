import Legalise.DocumentVersions.Basic
import Legalise.Lib.Assign
import Legalise.Python.Words

/-!
This module contains the requests about a document that save versions of it, and the runs of such requests.
-/

namespace DocumentVersions

open Matters (ExtractResult HttpError uploadedKey mimeToFormat sniffFormat maxUploadBytes)

/--
The code of libraries.
-/
structure Env where
  R : PyRepr
  readers : Readers
  sha256 : Bytes → PyStr

variable (E : Env)

section UserEdits

/--
A saved text: its editor document and notes, and the id that is drawn for its version.
-/
structure UserEdit where
  actorId : Uuid
  versionId : Uuid
  resolvedText : PyStr
  resolvedJson : Option Json
  notes : Option PyStr

/--
`notes or default`
-/
def notesOr (notes : Option PyStr) (default : PyStr) : PyStr :=
  (notes.filter (· ≠ [])).getD default

def createUserEditVersion (s : State) (r : UserEdit) (auditSource : PyStr)
    : Except Failure (State × DocumentVersion) := do
  let contents ← (Utf8.encode r.resolvedText).elim (.error .unicode) .ok
  let v : DocumentVersion := {
    id := r.versionId
    versionNumber := nextVersionNumber s
    kind := .userEdit
    createdById := r.actorId
    filename := some s.document.filename
    mimeType := some (py "text/plain")
    sizeBytes := some contents.length
    sha256 := some (E.sha256 contents)
    notes := some (notesOr r.notes (py "Edited in Legalise document editor"))
    resolvedText := some r.resolvedText
    resolvedJson := r.resolvedJson
  }
  let t ← insertVersion s v
  return (log t (auditRow s (py "document.version.saved") (py "document_editor") (py "document_version") v.id.str
    r.actorId [
      (py "document_id", .str s.document.id.str), (py "version_number", .int v.versionNumber),
      (py "kind", .str v.kind.str), (py "char_count", .int r.resolvedText.length),
      (py "rich_json", .bool r.resolvedJson.isSome), (py "source", .str auditSource)
    ]), v)

def postManualDocumentVersion (s : State) (r : UserEdit) : Except Failure (State × DocumentVersion) := do
  loadOwnedDocument s r.actorId
  createUserEditVersion E s r (py "manual")

/--
A commit of the working draft.
-/
structure DraftCommit where
  actorId : Uuid
  versionId : Uuid
  notes : Option PyStr
  clearDraft : Bool
  expectedVersionCounter : Option Nat

def workingDraftEmpty : Failure :=
  .http ⟨422, .dict [
    (py "error", .str (py "working_draft_empty")),
    (py "message", .str (py "There is no working draft text to save as a version."))
  ]⟩

def workingDraftConflict (message : PyStr) (draft : Option WorkingDraft) : Failure :=
  .http ⟨409, .dict [
    (py "error", .str (py "working_draft_conflict")), (py "message", .str message),
    (py "current_version_counter", .int ((draft.map (·.versionCounter)).getD 0)),
    (py "current_client_id", Matters.textOrNull (draft.bind (·.clientId)))
  ]⟩

def commitConflict : PyStr :=
  py "The shared draft changed before this version save. Reload the document before saving again."

def saveConflict : PyStr :=
  py "The shared draft changed before this save. Reload the document before saving again."

/--
The draft that a commit saves.
-/
def draftToCommit (s : State) (r : DraftCommit) : Except Failure WorkingDraft :=
  match s.draft with
  | none => .error workingDraftEmpty
  | some draft =>
    if PyStr.strip draft.plainText = [] then .error workingDraftEmpty
    else if r.expectedVersionCounter.any (· ≠ draft.versionCounter) then
      .error (workingDraftConflict commitConflict (some draft))
    else .ok draft

def postDocumentWorkingDraftCommit (s : State) (r : DraftCommit) : Except Failure (State × DocumentVersion) := do
  loadOwnedDocument s r.actorId
  let draft ← draftToCommit s r
  let notes := notesOr r.notes (py "Saved working draft from Legalise document editor")
  let (t, v) ← createUserEditVersion E s ⟨r.actorId, r.versionId, draft.plainText, draft.editorJson, some notes⟩
    (py "working_draft")
  return (if r.clearDraft then { t with draft := none } else t, v)

/--
A write of the working draft.
-/
structure DraftUpsert where
  actorId : Uuid
  plainText : PyStr
  editorJson : Option Json
  baseVersionId : Option Uuid
  clientId : Option PyStr
  expectedVersionCounter : Option Nat

def invalidBaseVersion : Failure :=
  .http ⟨422, .dict [
    (py "error", .str (py "invalid_base_version")),
    (py "message", .str (py "The draft base version does not belong to this document."))
  ]⟩

/--
The draft that a write leaves.
-/
def writtenDraft (s : State) (r : DraftUpsert) : Except Failure WorkingDraft :=
  let written (versionCounter : Nat) : WorkingDraft :=
    ⟨r.plainText, r.editorJson, r.baseVersionId, versionCounter, r.clientId, r.actorId⟩
  if r.baseVersionId.any fun id => id ∉ s.versions.map (·.id) then .error invalidBaseVersion
  else
    match s.draft with
    | none =>
      if r.expectedVersionCounter.any (· ≠ 0) then .error (workingDraftConflict saveConflict none) else .ok (written 1)
    | some draft =>
      if r.expectedVersionCounter.any (· ≠ draft.versionCounter) then
        .error (workingDraftConflict saveConflict (some draft))
      else .ok (written (draft.versionCounter + 1))

def putDocumentWorkingDraft (s : State) (r : DraftUpsert) : Except Failure (State × WorkingDraft) := do
  loadOwnedDocument s r.actorId
  let draft ← writtenDraft s r
  return ({ s with draft := some draft }, draft)

end UserEdits

section Files

/--
How the object storage answers, where a failure has the backend and the code of its error.
-/
abbrev StorageFault := Option (PyStr × PyStr)

/--
A replacement file.
-/
structure VersionUpload where
  actorId : Uuid
  versionId : Uuid
  filename : Option PyStr
  contentType : Option PyStr
  contents : Bytes
  notes : Option PyStr
  storageFault : StorageFault

def validateUpload (contentType : Option PyStr) (contents : Bytes) : Except Failure PyStr := do
  let mime := contentType.getD []
  match mimeToFormat.lookup mime with
  | none =>
    throw (.http ⟨415, .dict [
      (py "error", .str (py "unsupported_mime")), (py "got", Matters.textOrNull contentType),
      (py "allowed", .list (Matters.allowedUploadMimes.map .str))
    ]⟩)
  | some declared =>
    if maxUploadBytes < contents.length then
      throw (.http ⟨413, .dict [
        (py "error", .str (py "upload_too_large")), (py "max_bytes", .int maxUploadBytes),
        (py "got_bytes", .int contents.length)
      ]⟩)
    let inferred := sniffFormat (contents.take 1024)
    if inferred ≠ some declared then
      throw (.http ⟨415, .dict [
        (py "error", .str (py "magic_byte_mismatch")), (py "declared_mime", .str mime),
        (py "declared_format", .str declared), (py "inferred_format", Matters.textOrNull inferred)
      ]⟩)
    return mime

def fileKey (s : State) (actorId : Uuid) (contents : Bytes) : PyStr :=
  uploadedKey actorId s.matter.id s.document.id (E.sha256 contents)

/--
`storage.put_bytes`, which no rollback takes back.
-/
def putBytes (s : State) (key : PyStr) (contents : Bytes) : State :=
  { s with files := Assign.assign key contents s.files }

/--
`body.extracted_text`, `body.extraction_method` and so on.
-/
def setBody (s : State) (body : ExtractResult) : State :=
  { s with body := some body }

/--
The active file of the document.
-/
def setFile (s : State) (filename mimeType : PyStr) (sizeBytes : Nat) (sha256 storageUri : PyStr) : State :=
  {
    s with
    document := {
      s.document with
      filename := filename, mimeType := mimeType, sizeBytes := sizeBytes, sha256 := sha256,
      storageUri := some storageUri
    }
  }

def intOrNull (n : Option Int) : Json :=
  (n.map Json.int).getD .null

/--
`name or doc.filename or "untitled"`
-/
def uploadName (s : State) (filename : Option PyStr) : PyStr :=
  ((filename.filter (· ≠ [])) <|> (some s.document.filename).filter (· ≠ [])).getD (py "untitled")

def storageWriteFailed (message key backend : PyStr) : Failure :=
  .http ⟨502, .dict [
    (py "error", .str (py "storage_write_failed")), (py "message", .str message), (py "storage_key", .str key),
    (py "backend", .str backend)
  ]⟩

/--
The audit row of `audit_storage_write_failure`, which is committed on its own.
-/
def storageWriteFailedLog (s : State) (actorId : Uuid) (resourceType resourceId key : PyStr) (fault : PyStr × PyStr)
    (extra : PyStr) : AuditLog :=
  auditRow s (py "storage.put_bytes.failed") (py "storage") resourceType resourceId actorId [
    (py "storage_key", .str key), (py "backend", .str fault.fst), (py "error_code", .str fault.snd),
    (extra, .bool true)
  ]

/--
The part of an upload after the file is stored.
-/
def saveUpload (s : State) (r : VersionUpload) (mime key : PyStr) : Except Failure (State × DocumentVersion) := do
  let filename := uploadName s r.filename
  let sha := E.sha256 r.contents
  let result := extract E.readers r.contents mime filename
  let v : DocumentVersion := {
    id := r.versionId
    versionNumber := nextVersionNumber s
    kind := .upload
    createdById := r.actorId
    storageUri := some key
    filename := some filename
    mimeType := some mime
    sizeBytes := some r.contents.length
    sha256 := some sha
    notes := some (notesOr r.notes (py "Uploaded replacement file: " ++ filename))
    resolvedText := if result.extractionMethod = methodFailed then none else some result.extractedText
  }
  let t ← insertVersion s v
  let t := setBody (setFile t filename mime r.contents.length sha key) result
  let row (action resourceType resourceId module : PyStr) (payload : Dict) : AuditLog :=
    auditRow s action module resourceType resourceId r.actorId payload
  return ({
    t with
    audit := t.audit ++ [
      row (py "document.version.uploaded") (py "document_version") v.id.str (py "document_editor") [
        (py "document_id", .str s.document.id.str), (py "version_number", .int v.versionNumber),
        (py "filename", .str filename), (py "sha256", .str sha), (py "mime_type", .str mime),
        (py "size_bytes", .int r.contents.length)
      ],
      row (if result.extractionMethod = methodFailed then py "document.text_extraction_failed"
          else py "document.text_extracted") (py "document") s.document.id.str (py "document_ingestion") [
        (py "version_id", .str v.id.str), (py "version_number", .int v.versionNumber),
        (py "method", .str result.extractionMethod), (py "char_count", .int result.charCount),
        (py "page_count", intOrNull result.pageCount), (py "mime_type", .str mime),
        (py "reason", Matters.textOrNull result.errorReason)
      ]
    ]
  }, v)

def postUploadDocumentVersion (s : State) (r : VersionUpload) : State × Except Failure DocumentVersion :=
  match do loadOwnedDocument s r.actorId; validateUpload r.contentType r.contents with
  | .error e => (s, .error e)
  | .ok mime =>
    let key := fileKey E s r.actorId r.contents
    match r.storageFault with
    | some fault =>
      (log s (storageWriteFailedLog s r.actorId (py "document") s.document.id.str key fault (py "version_upload")),
        .error (storageWriteFailed (py "This version could not be saved. Try again.") key fault.fst))
    | none =>
      let s := putBytes s key r.contents
      transact s (saveUpload E s r mime key)

/--
A restore of a saved version.
-/
structure Restore where
  actorId : Uuid
  sourceId : Uuid
  versionId : Uuid
  notes : Option PyStr
  storageFault : StorageFault

/--
What a restore makes active.
-/
structure Restored where
  filename : PyStr
  mimeType : PyStr
  storageUri : PyStr
  sizeBytes : Nat
  sha256 : PyStr
  resolvedText : Option PyStr
  extractionMethod : PyStr
  pageCount : Option Int
  errorReason : Option PyStr

def originalUnavailable : Failure :=
  .http ⟨410, .dict [
    (py "error", .str (py "document_version_original_unavailable")),
    (py "message", .str (py "This saved version points to a file that is no longer available."))
  ]⟩

/--
`value or default`
-/
def textOr (value : Option PyStr) (default : PyStr) : PyStr :=
  (value.filter (· ≠ [])).getD default

def sourceName (s : State) (source : DocumentVersion) : PyStr :=
  textOr source.filename s.document.filename

def sourceMime (s : State) (source : DocumentVersion) : PyStr :=
  textOr source.mimeType (textOr (some s.document.mimeType) (py "application/octet-stream"))

/--
A version with a file: its text is extracted again.
-/
def restoredFile (s : State) (source : DocumentVersion) (uri : PyStr) (contents : Bytes) : Restored :=
  let filename := sourceName s source
  let mimeType := sourceMime s source
  let result := extract E.readers contents mimeType filename
  {
    filename := filename
    mimeType := mimeType
    storageUri := uri
    sizeBytes := contents.length
    sha256 := E.sha256 contents
    resolvedText := if result.extractionMethod = methodFailed then source.resolvedText else some result.extractedText
    extractionMethod := result.extractionMethod
    pageCount := result.pageCount
    errorReason := result.errorReason
  }

/--
`filename.rsplit(".", 1)[0]`
-/
def beforeLastDot (filename : PyStr) : PyStr :=
  match PyStr.rfind (py ".") filename 0 filename.length with
  | some i => filename.take i
  | none => filename

def restoredName (s : State) (source : DocumentVersion) : PyStr :=
  let filename := sourceName s source
  if endsWith (py ".txt") (E.readers.lower filename) then filename
  else beforeLastDot filename ++ py "-v" ++ pyNat source.versionNumber ++ py ".txt"

/--
A version without a file: its text becomes one.
-/
def restoredText (s : State) (r : Restore) (source : DocumentVersion) (contents : Bytes) : Restored where
  filename := restoredName E s source
  mimeType := py "text/plain"
  storageUri := fileKey E s r.actorId contents
  sizeBytes := contents.length
  sha256 := E.sha256 contents
  resolvedText := source.resolvedText
  extractionMethod := py "passthrough"
  pageCount := none
  errorReason := none

def saveRestored (s : State) (r : Restore) (source : DocumentVersion) (a : Restored)
    : Except Failure (State × DocumentVersion) := do
  let v : DocumentVersion := {
    id := r.versionId
    versionNumber := nextVersionNumber s
    kind := .restored
    createdById := r.actorId
    storageUri := some a.storageUri
    filename := some a.filename
    mimeType := some a.mimeType
    sizeBytes := some a.sizeBytes
    sha256 := some a.sha256
    notes := some (notesOr r.notes (py "Restored from v" ++ pyNat source.versionNumber))
    resolvedText := a.resolvedText
    resolvedJson := source.resolvedJson
  }
  let text := a.resolvedText.getD []
  let t ← insertVersion s v
  let t := setBody (setFile t a.filename a.mimeType a.sizeBytes a.sha256 a.storageUri)
    ⟨text, a.extractionMethod, text.length, a.pageCount, a.errorReason⟩
  return (log t (auditRow s (py "document.version.restored") (py "document_editor") (py "document_version") v.id.str
    r.actorId [
      (py "document_id", .str s.document.id.str), (py "restored_version_number", .int v.versionNumber),
      (py "source_version_id", .str source.id.str), (py "source_version_number", .int source.versionNumber),
      (py "filename", .str a.filename), (py "sha256", .str a.sha256), (py "mime_type", .str a.mimeType),
      (py "size_bytes", .int a.sizeBytes)
    ]), v)

def storageReadFailedLog (s : State) (actorId : Uuid) (source : DocumentVersion) (uri : PyStr)
    (fault : PyStr × PyStr) : AuditLog :=
  auditRow s (py "storage.get_bytes.failed") (py "storage") (py "document_version") source.id.str actorId [
    (py "storage_key", .str uri), (py "backend", .str fault.fst), (py "error_code", .str fault.snd),
    (py "restore", .bool true)
  ]

/--
The version that a restore takes as its source.
-/
def restoreSource (s : State) (r : Restore) : Except Failure DocumentVersion := do
  loadOwnedDocument s r.actorId
  match s.versions.find? (·.id = r.sourceId) with
  | none => throw (.http ⟨404, .str (py "document version not found")⟩)
  | some source =>
    if source.storageUri.getD [] = [] ∧ source.resolvedText.getD [] = [] then
      throw (.http ⟨422, .str (py "document version has no restorable content")⟩)
    return source

def postRestoreDocumentVersion (s : State) (r : Restore) : State × Except Failure DocumentVersion :=
  match restoreSource s r with
  | .error e => (s, .error e)
  | .ok source =>
    match source.storageUri.filter (· ≠ []) with
    | some uri =>
      match r.storageFault with
      | some fault => (log s (storageReadFailedLog s r.actorId source uri fault), .error originalUnavailable)
      | none =>
        match s.files.lookup uri with
        | none => (s, .error originalUnavailable)
        | some contents => transact s (saveRestored s r source (restoredFile E s source uri contents))
    | none =>
      match Utf8.encode (source.resolvedText.getD []) with
      | none => (s, .error .unicode)
      | some contents =>
        let a := restoredText E s r source contents
        match r.storageFault with
        | some fault =>
          (log s (storageWriteFailedLog s r.actorId (py "document_version") source.id.str a.storageUri fault
            (py "restore")),
            .error (storageWriteFailed (py "Failed to store restored document version.") a.storageUri fault.fst))
        | none =>
          let s := putBytes s a.storageUri contents
          transact s (saveRestored s r source a)

end Files

section Index

def indexIndexed : PyStr := py "indexed"
def indexEmpty : PyStr := py "empty"
def indexFailed : PyStr := py "failed"
def indexPending : PyStr := py "pending"

def setIndex (s : State) (status : PyStr) (chunks : List Retrieval.Chunk) : State :=
  { s with document := { s.document with indexStatus := status }, chunks := chunks }

def defaultTargetChars : Int := 2000

def defaultOverlapChars : Int := 200

/--
The chunks of the extracted body.
-/
def bodyChunks (s : State) : Except Retrieval.ChunkError (List Retrieval.Chunk) :=
  Retrieval.chunkText ((s.body.map (·.extractedText)).getD []) defaultTargetChars defaultOverlapChars

/--
A run of the index, whose embeddings may fail. The old chunks are deleted before the embeddings are asked for, and the
caller commits either way.
-/
def indexDocument (s : State) (embeds : Bool) : State :=
  match bodyChunks s with
  | .error _ => setIndex s indexFailed s.chunks
  | .ok [] => setIndex s indexEmpty []
  | .ok (c :: cs) => if embeds then setIndex s indexIndexed (c :: cs) else setIndex s indexFailed []

end Index

section Runs

inductive Request where
  | propose (r : EditInstruction)
  | manual (r : UserEdit)
  | putDraft (r : DraftUpsert)
  | commitDraft (r : DraftCommit)
  | upload (r : VersionUpload)
  | restore (r : Restore)
  | resolve (editId : Uuid) (d : Decision)
  | resolveAll (versionId : Uuid) (d : Decision)
  | index (embeds : Bool)

def exec (s : State) : Request → State
  | .propose r => (transact s (proposeEdits E.R s r)).fst
  | .manual r => (transact s (postManualDocumentVersion E s r)).fst
  | .putDraft r => (transact s (putDocumentWorkingDraft s r)).fst
  | .commitDraft r => (transact s (postDocumentWorkingDraftCommit E s r)).fst
  | .upload r => (postUploadDocumentVersion E s r).fst
  | .restore r => (postRestoreDocumentVersion E s r).fst
  | .resolve editId d => (transact s (resolveEdit s editId d)).fst
  | .resolveAll versionId d => (transact s (resolveBulk s versionId d)).fst
  | .index embeds => indexDocument s embeds

/--
The first upload of a document.
-/
structure FirstUpload where
  matter : Matter
  actorId : Uuid
  documentId : Uuid
  versionId : Uuid
  filename : PyStr
  mimeType : PyStr
  contents : Bytes

/--
The state that the first upload leaves.
-/
def uploaded (u : FirstUpload) : State :=
  let sha := E.sha256 u.contents
  let key := uploadedKey u.actorId u.matter.id u.documentId sha
  {
    matter := u.matter
    document := ⟨u.documentId, u.filename, u.mimeType, u.contents.length, sha, some key, indexPending⟩
    versions := [{
      id := u.versionId
      versionNumber := 1
      kind := .upload
      createdById := u.actorId
      storageUri := some key
      filename := some u.filename
      mimeType := some u.mimeType
      sizeBytes := some u.contents.length
      sha256 := some sha
    }]
    edits := []
    body := some (extract E.readers u.contents u.mimeType u.filename)
    draft := none
    chunks := []
    files := [(key, u.contents)]
    audit := []
  }

/--
The state after some requests.
-/
def run (u : FirstUpload) (requests : List Request) : State :=
  requests.foldl (exec E) (uploaded E u)

end Runs

section Examples

/--
Readers that find no text in PDF and DOCX files, and a digest without collisions.
-/
def plainEnv : Env where
  R := .quoted
  readers := {
    lower := PyStr.CharLower.ascii.lower
    pypdf := fun _ => ([], none, some (py "pdf_read_error"))
    pdfplumber := fun _ => ([], none)
    docx := fun _ => none
  }
  sha256 contents := contents.flatMap fun b => (fixedDigits 16 2 b.val).map digitPoint

def owner : Uuid := Uuid.ofNat 100

/--
A document with a text.
-/
def lease : FirstUpload where
  matter := ⟨Uuid.ofNat 200, owner, false⟩
  actorId := owner
  documentId := Uuid.ofNat 300
  versionId := Uuid.ofNat 1
  filename := py "lease.txt"
  mimeType := py "text/plain"
  contents := (py "The tenant pays.").flatMap Utf8.encodePoint

/--
A model that proposes one edit.
-/
def proposal (version edit : Nat) (deleted inserted : String) : Request :=
  .propose {
    actorId := owner
    mode := py "tighten"
    versionId := Uuid.ofNat version
    instructionHash := py "00"
    reply := fun _ => some {
      modelUsed := py "stub-echo"
      changes := some [({
        deletedText := .str (py deleted), insertedText := .str (py inserted), contextBefore := .str [],
        contextAfter := .str []
      }, Uuid.ofNat edit, py "c1")]
    }
  }

def manualSave (version : Nat) (text : String) : Request :=
  .manual ⟨owner, Uuid.ofNat version, py text, none, none⟩

def decision (accept : Bool) (version : Nat) : Decision where
  actorId := owner
  accept := accept
  newVersionId := Uuid.ofNat version
  order := ⟨id, fun _ => .refl _⟩

end Examples

end DocumentVersions
