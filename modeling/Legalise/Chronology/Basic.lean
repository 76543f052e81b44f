import Legalise.Assistant.Context
import Legalise.Postgres.Value
import Legalise.Python.Words

/-!
This module contains the chronology of a matter: the build, which lets a model propose dated events from the documents,
the decisions on proposed events, and what a reader is shown of the events.
-/

namespace Chronology

open PyStr Sweep

section Rows

structure Date where
  year : Nat
  month : Nat
  day : Nat
  deriving DecidableEq

def Date.rank (d : Date) : Nat :=
  (d.year * 13 + d.month) * 32 + d.day

/--
A document, with the text of its extracted body.
-/
structure Document where
  id : Uuid
  filename : PyStr
  uploadedAt : Timestamp
  fromDisclosure : Bool
  disclosureProceedingsRef : Option PyStr
  extractedText : Option PyStr

inductive EventStatus where
  | proposed
  | accepted
  | rejected
  deriving DecidableEq

structure Event where
  id : Uuid
  eventDate : Date
  description : PyStr
  significance : Nat
  sourceDocIds : List Uuid
  privFlag : Bool
  status : EventStatus
  deriving DecidableEq

/--
The documents and the events of a matter. Both have primary keys.
-/
structure Matter where
  documents : List Document
  events : List Event
  documentIds : (documents.map Document.id).Nodup
  eventIds : (events.map Event.id).Nodup

end Rows

section Build

/--
`_MAX_DOCUMENTS`
-/
def maxDocuments : Nat := 40

def perDocumentCharBudget : Nat := 3000 * 4

def defaultSignificance : Nat := 3

/--
`_load_documents_with_bodies`: the newest documents that have a text.
-/
def loadDocumentsWithBodies (documents : List Document) : List (Document × PyStr) :=
  ((sortBy (fun d => OrderDual.toDual d.uploadedAt.rank) documents).take maxDocuments).filterMap fun doc =>
    let text := doc.extractedText.getD []
    if strip text = [] then none else some (doc, Assistant.truncate text perDocumentCharBudget)

/--
`_build_prompt`
-/
def buildPrompt (documents : List (Document × PyStr)) : PyStr :=
  join (py "\n") ([py "## Documents", []]
    ++ documents.flatMap (fun item => [py "[doc:" ++ item.fst.id.str ++ py "] " ++ item.fst.filename, item.snd, []])
    ++ [py "Extract the chronology now. Return JSON only matching the documented shape."])

/--
`_ProposedEventRaw`
-/
structure ProposedEventRaw where
  eventDate : Option PyStr
  description : Option PyStr
  sourceDocumentId : Option PyStr

inductive Fault where
  | providerKeyMissing
  | providerUpstreamError
  | privilegePaused
  | structuredOutputError
  /-- The flush of the new rows fails. -/
  | databaseError
  | unexpected
  deriving DecidableEq

/--
How texts are read: `parse_model_json` into the rows of the envelope, `date.fromisoformat`, and `str.lower`.
-/
structure Reader where
  parseModelJson : PyStr → Except Fault (List ProposedEventRaw)
  fromisoformat : PyStr → Option Date
  lower : PyStr → PyStr

/--
A valid row: a date, a description and perhaps a source.
-/
structure Row where
  eventDate : Date
  description : PyStr
  sourceDocId : Option Uuid

variable (reader : Reader)

def coerceEvent (knownDocs : List Uuid) (raw : ProposedEventRaw) : Option Row := do
  let eventDate ← raw.eventDate.filter (· ≠ [])
  let description ← raw.description.filter (· ≠ [])
  let description := strip description
  if description = [] then none
  else do
    let eventDate ← reader.fromisoformat (strip eventDate)
    let sourceDocId := do
      let text ← raw.sourceDocumentId.filter (· ≠ [])
      (Uuid.ofText? (strip text)).filter (· ∈ knownDocs)
    return ⟨eventDate, description, sourceDocId⟩

/--
`_coerce_events`
-/
def coerceEvents (knownDocs : List Uuid) (events : List ProposedEventRaw) : List Row :=
  events.filterMap (coerceEvent reader knownDocs)

/--
`_key`
-/
def key (d : Date) (desc : PyStr) : Date × PyStr :=
  (d, reader.lower (join (py " ") (split desc)))

def Row.key (row : Row) : Date × PyStr :=
  Chronology.key reader row.eventDate row.description

def Event.key (event : Event) : Date × PyStr :=
  Chronology.key reader event.eventDate event.description

/--
The loop over the valid rows: those that are new, and the number of the others.
-/
def propose : List (Date × PyStr) → List Row → List Row × Nat
  | _, [] => ([], 0)
  | seenKeys, row :: rows =>
    if row.key reader ∈ seenKeys then
      let (created, duplicates) := propose seenKeys rows
      (created, duplicates + 1)
    else
      let (created, duplicates) := propose (row.key reader :: seenKeys) rows
      (row :: created, duplicates)

def Row.event (row : Row) (id : Uuid) : Event where
  id := id
  eventDate := row.eventDate
  description := row.description
  significance := defaultSignificance
  sourceDocIds := row.sourceDocId.toList
  privFlag := false
  status := .proposed

structure BuildResult where
  events : List Event
  documentCount : Nat
  parseFailed : Bool := false
  error : Option Fault := none
  duplicatesSkipped : Nat := 0

/--
What a build finds outside: what the gateway answers to a prompt, and the ids of the new rows.
-/
structure Call where
  gateway : PyStr → Except Fault PyStr
  newId : Nat → Uuid

/--
The database takes new rows if their texts can be stored and their ids are new.
-/
def Flushes (existing created : List Event) : Prop :=
  (∀ event ∈ created, Utf8Encodable event.description ∧ (0 : CodePoint) ∉ event.description)
    ∧ ((existing ++ created).map Event.id).Nodup

instance (existing created : List Event) : Decidable (Flushes existing created) := by
  unfold Flushes
  infer_instance

def newEvents (call : Call) (rows : List Row) : List Event :=
  rows.zipIdx.map fun item => item.fst.event (call.newId item.snd)

/--
`build_chronology`: its result, and the matter with the new events.
-/
def buildChronology (call : Call) (matter : Matter) : Except Fault (BuildResult × Matter) :=
  let documents := loadDocumentsWithBodies matter.documents
  if documents = [] then .ok ({ events := [], documentCount := 0 }, matter)
  else
    match call.gateway (buildPrompt documents) with
    | .error error =>
      if error ∈ [.providerKeyMissing, .providerUpstreamError, .privilegePaused] then
        .ok ({ events := [], documentCount := documents.length, error := some error }, matter)
      else .error error
    | .ok text =>
      match reader.parseModelJson text with
      | .error error =>
        if error = .structuredOutputError then
          .ok ({ events := [], documentCount := documents.length, parseFailed := true }, matter)
        else .error error
      | .ok envelope =>
        let coerced := coerceEvents reader (documents.map fun item => item.fst.id) envelope
        let (rows, duplicates) := propose reader (matter.events.map (Event.key reader)) coerced
        let created := newEvents call rows
        if h : Flushes matter.events created then
          .ok ({ events := created, documentCount := documents.length, duplicatesSkipped := duplicates },
            { matter with events := matter.events ++ created, eventIds := h.right })
        else .error .databaseError

end Build

section Router

structure ChronologyEventRead where
  id : Uuid
  eventDate : Date
  description : PyStr
  significance : Nat
  sourceDocIds : List Uuid
  sourceDocFilenames : List PyStr
  privFlag : Bool
  status : EventStatus
  fromDisclosure : Bool
  proceedingsRefs : List PyStr
  redacted : Bool

/--
`REDACTED_DESCRIPTION`
-/
def redactedDescription : PyStr :=
  py "[withheld pending CPR 31.22 acknowledgement]"

structure GateState where
  required : Bool
  confirmed : Bool
  confirmedAt : Option Timestamp
  taintedEventCount : Nat

/--
`docs_by_id`
-/
def docsById (documents : List Document) (id : Uuid) : Option Document :=
  documents.find? fun doc => doc.id = id

/--
`_event_is_tainted`
-/
def eventIsTainted (documents : List Document) (event : Event) : Bool :=
  event.sourceDocIds.any fun id => (docsById documents id).any Document.fromDisclosure

/--
`_event_to_read`
-/
def eventToRead (documents : List Document) (redactTainted : Bool) (event : Event) : ChronologyEventRead :=
  let sourceDocs := event.sourceDocIds.filterMap (docsById documents)
  let fromDisclosure := sourceDocs.any Document.fromDisclosure
  if redactTainted && fromDisclosure then
    {
      id := event.id, eventDate := event.eventDate, description := redactedDescription
      significance := event.significance, sourceDocIds := event.sourceDocIds, sourceDocFilenames := []
      privFlag := event.privFlag, status := event.status, fromDisclosure := true, proceedingsRefs := []
      redacted := true
    }
  else
    {
      id := event.id, eventDate := event.eventDate, description := event.description
      significance := event.significance, sourceDocIds := event.sourceDocIds
      sourceDocFilenames := sourceDocs.map Document.filename
      privFlag := event.privFlag, status := event.status, fromDisclosure := fromDisclosure
      proceedingsRefs := sourceDocs.filterMap fun doc => doc.disclosureProceedingsRef.filter (· ≠ [])
      redacted := false
    }

/--
`_gate_state`, given when the user has confirmed the undertaking last.
-/
def gateState (confirmedAt : Option Timestamp) (taintedCount : Nat) : GateState :=
  let confirmedAt := if taintedCount > 0 then confirmedAt else none
  {
    required := taintedCount > 0, confirmed := confirmedAt.isSome, confirmedAt := confirmedAt
    taintedEventCount := taintedCount
  }

/--
The events that a response shows, redacted unless the undertaking is confirmed.
-/
def readEvents (confirmedAt : Option Timestamp) (documents : List Document) (events : List Event)
    : List ChronologyEventRead :=
  let gate := gateState confirmedAt (events.countP (eventIsTainted documents))
  events.map (eventToRead documents (gate.required && !gate.confirmed))

/--
`get_chronology`: its events, in the order of their dates.
-/
def getChronology (confirmedAt : Option Timestamp) (matter : Matter) : List ChronologyEventRead :=
  readEvents confirmedAt matter.documents (sortBy (fun event => event.eventDate.rank) matter.events)

/--
The `statement_of_facts_variant` of a response.
-/
def statementOfFacts (reads : List ChronologyEventRead) : List ChronologyEventRead :=
  reads.filter fun read => !read.privFlag

/--
`_set_event_status`
-/
def setEventStatus (eventId : Uuid) (newStatus : EventStatus) (matter : Matter) : Matter where
  documents := matter.documents
  events := matter.events.map fun event => if event.id = eventId then { event with status := newStatus } else event
  documentIds := matter.documentIds
  eventIds := by
    have hids : (matter.events.map fun event => if event.id = eventId then { event with status := newStatus } else event).map
        Event.id = matter.events.map Event.id := by
      rw [List.map_map]
      refine List.map_congr_left fun event _ => ?_
      dsimp only [Function.comp]
      split <;> rfl
    rw [hids]
    exact matter.eventIds

/--
`delete_document`
-/
def deleteDocument (documentId : Uuid) (matter : Matter) : Matter where
  documents := matter.documents.filter fun doc => doc.id ≠ documentId
  events := matter.events
  documentIds := matter.documentIds.sublist (List.filter_sublist.map _)
  eventIds := matter.eventIds

end Router

section Runs

/--
What the users of a matter do.
-/
inductive Step where
  | build (call : Call)
  | decide (eventId : Uuid) (status : EventStatus)
  | deleteDocument (documentId : Uuid)
  | read

variable (reader : Reader)

/--
The matter after a step. A build that raises is rolled back.
-/
def exec (matter : Matter) : Step → Matter
  | .build call =>
    match buildChronology reader call matter with
    | .ok (_, matter) => matter
    | .error _ => matter
  | .decide eventId status => setEventStatus eventId status matter
  | .deleteDocument documentId => deleteDocument documentId matter
  | .read => matter

def run (matter : Matter) (steps : List Step) : Matter :=
  steps.foldl (exec reader) matter

end Runs

end Chronology
