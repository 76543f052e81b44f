import Legalise.DocumentEdit.Substitution
import Legalise.DocumentVersions.Extraction
import Legalise.Retrieval.Chunking

/-!
This module contains the versions of a document, the edits that hang on them and the text that is current.
-/

namespace DocumentVersions

open DocumentEdit (Edit EditStatus applyAllAccepted)
open Matters (ExtractResult HttpError)

section Data

inductive VersionKind where
  | upload
  | assistantEdit
  | userAccept
  | userReject
  | userEdit
  | restored
  deriving DecidableEq

def VersionKind.str : VersionKind → PyStr
  | .upload => py "upload"
  | .assistantEdit => py "assistant_edit"
  | .userAccept => py "user_accept"
  | .userReject => py "user_reject"
  | .userEdit => py "user_edit"
  | .restored => py "restored"

structure DocumentVersion where
  id : Uuid
  versionNumber : Nat
  kind : VersionKind
  createdById : Uuid
  storageUri : Option PyStr := none
  filename : Option PyStr := none
  mimeType : Option PyStr := none
  sizeBytes : Option Nat := none
  sha256 : Option PyStr := none
  notes : Option PyStr := none
  resolvedText : Option PyStr := none
  resolvedJson : Option Json := none

/--
A row of `document_edits`.
-/
structure EditRow extends Edit where
  versionId : Uuid
  changeId : PyStr
  resolvedById : Option Uuid

structure Document where
  id : Uuid
  filename : PyStr
  mimeType : PyStr
  sizeBytes : Nat
  sha256 : PyStr
  storageUri : Option PyStr
  indexStatus : PyStr

structure Matter where
  id : Uuid
  createdById : Uuid
  archived : Bool

/--
A row of `document_working_drafts`.
-/
structure WorkingDraft where
  plainText : PyStr
  editorJson : Option Json
  baseVersionId : Option Uuid
  versionCounter : Nat
  clientId : Option PyStr
  updatedById : Uuid

/--
The rows of one document and what is stored for it. `body` is the extracted body, `versions` and `edits` are in the
order of their creation.
-/
structure State where
  matter : Matter
  document : Document
  versions : List DocumentVersion
  edits : List EditRow
  body : Option ExtractResult
  draft : Option WorkingDraft
  chunks : List Retrieval.Chunk
  files : List (PyStr × Bytes)
  audit : List AuditLog

end Data

section Failures

inductive Failure where
  | http (error : HttpError)
  | lookup (message : PyStr)
  | value (message : PyStr)
  | alreadyResolved
  | unicode
  | integrity
  | provider

def documentNotFound : Failure :=
  .http ⟨404, .str (py "document not found")⟩

/--
One transaction: what it has written is rolled back if it fails.
-/
def transact {α : Type} (s : State) (result : Except Failure (State × α)) : State × Except Failure α :=
  match result with
  | .ok (t, a) => (t, .ok a)
  | .error e => (s, .error e)

end Failures

section Texts

variable (s : State)

/--
`select(func.coalesce(func.max(DocumentVersion.version_number), 0))`
-/
def maxVersionNumber : Nat :=
  (s.versions.map (·.versionNumber)).max?.getD 0

def nextVersionNumber : Nat :=
  maxVersionNumber s + 1

/--
The version with the greatest number among those with a `resolved_text`.
-/
def latestTextVersion : Option DocumentVersion :=
  (s.versions.filter (·.resolvedText.isSome)).argmax (·.versionNumber)

def getBaseText : PyStr :=
  match latestTextVersion s with
  | some v => v.resolvedText.getD []
  | none => (s.body.map (·.extractedText)).getD []

/--
The constraints of `document_versions`: the id is new, and so is the number.
-/
def insertVersion (v : DocumentVersion) : Except Failure State :=
  if s.versions.any fun w => w.id = v.id || w.versionNumber = v.versionNumber then .error .integrity
  else .ok { s with versions := s.versions ++ [v] }

def log (row : AuditLog) : State :=
  { s with audit := s.audit ++ [row] }

/--
A row of the matter's audit log.
-/
def auditRow (action module resourceType resourceId : PyStr) (actorId : Uuid) (payload : Dict) : AuditLog where
  action := action
  actorId := some actorId
  matterId := some s.matter.id
  module := some module
  resourceType := some resourceType
  resourceId := some resourceId
  payload := payload

def loadOwnedDocument (actorId : Uuid) : Except Failure Unit :=
  if s.matter.createdById ≠ actorId ∨ s.matter.archived then .error documentNotFound else .ok ()

end Texts

section Propose

def editModes : List PyStr :=
  [py "tighten", py "rewrite", py "summarise", py "free-text", py "uk-jurisdiction-sweep"]

def maxBodyChars : Nat := 32000

def truncate (text : PyStr) : PyStr × Bool :=
  if text.length ≤ maxBodyChars then (text, false)
  else (text.take (maxBodyChars - 200) ++ py "\n\n[... truncated for context window ...]", true)

/--
An entry of the model's envelope, where a field that is absent is `None`.
-/
structure ChangeEntry where
  deletedText : Json := .null
  insertedText : Json := .null
  contextBefore : Json := .null
  contextAfter : Json := .null

/--
The reply of the model: the entries with the ids that are drawn for their rows, or none if it does not parse.
-/
structure ModelReply where
  modelUsed : PyStr
  changes : Option (List (ChangeEntry × Uuid × PyStr))

/--
An edit instruction: the ids that are drawn for it, and what the model answers to a prompt with a body text, if it
answers.
-/
structure EditInstruction where
  actorId : Uuid
  mode : PyStr
  versionId : Uuid
  instructionHash : PyStr
  reply : PyStr → Option ModelReply

def ChangeEntry.row (R : PyRepr) (versionId : Uuid) (change : ChangeEntry × Uuid × PyStr) : EditRow where
  id := change.snd.fst
  deletedText := change.fst.deletedText.toStr R
  insertedText := change.fst.insertedText.toStr R
  contextBefore := (change.fst.contextBefore.toStr R).take 2000
  contextAfter := (change.fst.contextAfter.toStr R).take 2000
  status := .pending
  versionId := versionId
  changeId := change.snd.snd
  resolvedById := none

/--
The body text that the prompt is made from, before it is truncated.
-/
def promptBody (s : State) : Except Failure PyStr :=
  match s.body with
  | some body =>
    if body.extractionMethod = methodFailed ∨ body.extractedText = [] then
      .error (.value (py "document body not available for editing"))
    else .ok body.extractedText
  | none => .error (.value (py "document body not available for editing"))

def checkInstruction (R : PyRepr) (s : State) (r : EditInstruction) : Except Failure PyStr :=
  if r.mode ∉ editModes then .error (.value (py "unknown mode: " ++ R.str r.mode))
  else if s.matter.createdById ≠ r.actorId ∨ s.matter.archived then .error (.lookup (py "document not found"))
  else promptBody s

def proposeEdits (R : PyRepr) (s : State) (r : EditInstruction) : Except Failure (State × DocumentVersion) := do
  let body ← checkInstruction R s r
  let (bodyText, truncated) := truncate body
  let reply ← (r.reply bodyText).elim (.error .provider) .ok
  let v : DocumentVersion := {
    id := r.versionId
    versionNumber := nextVersionNumber s
    kind := .assistantEdit
    createdById := r.actorId
    notes := some (py "edit-instruction mode=" ++ r.mode ++ py " model=" ++ reply.modelUsed)
  }
  let rows := ((reply.changes.getD []).take 50).map (ChangeEntry.row R r.versionId)
  let s ← insertVersion s v
  if (rows.map (·.id)).Nodup ∧ ∀ row ∈ rows, row.id ∉ s.edits.map (·.id) then
    let s := log { s with edits := s.edits ++ rows } (auditRow s (py "document.edit_instruction.invoked")
      (py "document_edit") (py "document") s.document.id.str r.actorId [
        (py "mode", .str r.mode), (py "instruction_hash", .str r.instructionHash), (py "version_id", .str v.id.str),
        (py "pending_count", .int rows.length), (py "parse_ok", .bool reply.changes.isSome),
        (py "truncated", .bool truncated)
      ])
    return (s, v)
  else throw .integrity

end Propose

section Resolve

/--
The order in which a query without `ORDER BY` returns its rows.
-/
structure RowOrder where
  arrange : List EditRow → List EditRow
  perm : ∀ rows, (arrange rows).Perm rows

/--
A decision: who takes it, what it is, and the id and the order that are drawn for it.
-/
structure Decision where
  actorId : Uuid
  accept : Bool
  newVersionId : Uuid
  order : RowOrder

def Decision.status (d : Decision) : EditStatus :=
  if d.accept then .accepted else .rejected

def statusText : EditStatus → PyStr
  | .pending => py "pending"
  | .accepted => py "accepted"
  | .rejected => py "rejected"

def editsOf (s : State) (versionId : Uuid) : List EditRow :=
  s.edits.filter (·.versionId = versionId)

def pendingCount (s : State) (versionId : Uuid) : Nat :=
  ((editsOf s versionId).filter (·.status = .pending)).length

/--
The rows about the accepted edits that were skipped.
-/
def skippedLogs (s : State) (v new : DocumentVersion) (actorId : Uuid) (results : List (EditRow × PyStr))
    : List AuditLog :=
  (results.filter fun result => (py "skipped").isPrefixOf result.snd).map fun result =>
    auditRow s (py "document.edit.resolution_skipped") (py "document_edit") (py "document_edit") result.fst.id.str
      actorId [
        (py "version_id", .str v.id.str), (py "new_version_id", .str new.id.str), (py "reason", .str result.snd)
      ]

/--
The closing version of a version without pending edits.
-/
def closingVersion (s : State) (v : DocumentVersion) (d : Decision) : DocumentVersion :=
  let edits := d.order.arrange (editsOf s v.id)
  let accepted := edits.filter (·.status = .accepted)
  let rejectedCount := (edits.filter (·.status = .rejected)).length
  let (resolvedText, statuses) := applyAllAccepted (getBaseText s) (accepted.map (·.toEdit))
  let skipped := (statuses.filter fun status => (py "skipped").isPrefixOf status).length
  {
    id := d.newVersionId
    versionNumber := maxVersionNumber s + 1
    kind := if accepted = [] then .userReject else .userAccept
    createdById := d.actorId
    notes := some (py "resolved version_id=" ++ v.id.str ++ py " accepted=" ++ pyNat accepted.length
      ++ py " rejected=" ++ pyNat rejectedCount ++ py " skipped=" ++ pyNat skipped)
    resolvedText := some resolvedText
  }

def closingLogs (s : State) (v new : DocumentVersion) (d : Decision) : List AuditLog :=
  let edits := d.order.arrange (editsOf s v.id)
  let accepted := edits.filter (·.status = .accepted)
  let (resolvedText, statuses) := applyAllAccepted (getBaseText s) (accepted.map (·.toEdit))
  skippedLogs s v new d.actorId (accepted.zip statuses)
    ++ [auditRow s (py "document.version.resolved") (py "document_edit") (py "document_version") new.id.str d.actorId [
      (py "source_version_id", .str v.id.str), (py "kind", .str new.kind.str),
      (py "accepted_count", .int accepted.length),
      (py "rejected_count", .int (edits.filter (·.status = .rejected)).length),
      (py "skipped_count", .int (statuses.filter fun status => (py "skipped").isPrefixOf status).length),
      (py "resolved_text_length", .int resolvedText.length)
    ]]

def maybeCloseVersion (s : State) (v : DocumentVersion) (d : Decision)
    : Except Failure (State × Option DocumentVersion) :=
  if 0 < pendingCount s v.id then .ok (s, none)
  -- A newer version is taken for the closing one.
  else if v.versionNumber < maxVersionNumber s then .ok (s, none)
  else do
    let new := closingVersion s v d
    let t ← insertVersion s new
    return ({ t with audit := t.audit ++ closingLogs s v new d }, some new)

/--
`UPDATE document_edits SET status = ..., resolved_by_id = ... WHERE ...` with the condition that the row is pending.
-/
def updatePending (s : State) (d : Decision) (chosen : EditRow → Bool) : State :=
  {
    s with
    edits := s.edits.map fun row =>
      if chosen row && row.status = .pending then
        { row with status := d.status, resolvedById := some d.actorId }
      else row
  }

def editAction (d : Decision) : PyStr :=
  py "document.edit." ++ statusText d.status

def resolutionLog (s : State) (v : DocumentVersion) (d : Decision) (row : EditRow) : AuditLog :=
  auditRow s (editAction d) (py "document_edit") (py "document_edit") row.id.str d.actorId [
    (py "version_id", .str v.id.str), (py "document_id", .str s.document.id.str), (py "change_id", .str row.changeId)
  ]

def bulkResolutionLog (s : State) (v : DocumentVersion) (d : Decision) (row : EditRow) : AuditLog :=
  auditRow s (editAction d) (py "document_edit") (py "document_edit") row.id.str d.actorId [
    (py "version_id", .str v.id.str), (py "document_id", .str s.document.id.str), (py "bulk", .bool true)
  ]

def resolveEdit (s : State) (editId : Uuid) (d : Decision)
    : Except Failure (State × EditRow × Option DocumentVersion) :=
  match s.edits.find? (·.id = editId) with
  | none => .error (.lookup (py "edit not found"))
  | some row =>
    match s.versions.find? (·.id = row.versionId) with
    | none => .error (.lookup (py "edit not found"))
    | some v =>
      if s.matter.createdById ≠ d.actorId then .error (.lookup (py "edit not found"))
      else if row.status ≠ .pending then .error .alreadyResolved
      else do
        let t := log (updatePending s d (·.id = editId)) (resolutionLog s v d row)
        let (t, new) ← maybeCloseVersion t v d
        return (t, { row with status := d.status, resolvedById := some d.actorId }, new)

/--
The version that a bulk decision points at if it closes none.
-/
def standIn (s : State) (v : DocumentVersion) (d : Decision) : Except Failure (State × DocumentVersion) :=
  match latestTextVersion s with
  | some latest => .ok (s, latest)
  | none => do
    let new : DocumentVersion := {
      id := d.newVersionId
      versionNumber := nextVersionNumber s
      kind := if d.accept then .userAccept else .userReject
      createdById := d.actorId
      notes := some (py "bulk " ++ (if d.accept then py "accept_all" else py "reject_all")
        ++ py " on already-resolved version " ++ v.id.str)
      resolvedText := some (getBaseText s)
    }
    let t ← insertVersion s new
    return (t, new)

def resolveBulk (s : State) (versionId : Uuid) (d : Decision) : Except Failure (State × Nat × DocumentVersion) :=
  match s.versions.find? (·.id = versionId) with
  | none => .error (.lookup (py "version not found"))
  | some v =>
    if s.matter.createdById ≠ d.actorId then .error (.lookup (py "version not found"))
    else do
      let affected := d.order.arrange ((editsOf s versionId).filter (·.status = .pending))
      let t := updatePending s d (·.versionId = versionId)
      let t := { t with audit := t.audit ++ affected.map (bulkResolutionLog s v d) }
      let (t, closing) ← maybeCloseVersion t v d
      match closing with
      | some new => return (t, affected.length, new)
      | none =>
        let (t, other) ← standIn t v d
        return (t, affected.length, other)

end Resolve

end DocumentVersions
