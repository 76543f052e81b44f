import Legalise.Lib.Sweep
import Legalise.Python.Text
import Legalise.Requests.Basic

/-!
This module contains what a turn of the assistant puts together before it asks a model: the passages, the sources
that are stored with the reply, and the prompt.
-/

namespace Assistant

open Requests (AssistantMessage AssistantSource)

def charsPerToken : Nat := 4

/--
`_HISTORY_MESSAGE_LIMIT`
-/
def historyMessageLimit : Nat := 20

def perDocumentCharBudget : Nat := 3000 * charsPerToken

def defaultContextTokenBudget : Int := 12000

def rollingSummaryCharBudget : Nat := 1500 * charsPerToken

/--
`_RETRIEVAL_K`
-/
def retrievalK : Nat := 8

def sourceSnippetChars : Nat := 240

/--
`_truncate`
-/
def truncate (text : PyStr) (charBudget : Nat) : PyStr :=
  if charBudget = 0 then []
  else if text.length ≤ charBudget then text
  else PyStr.rstripOf PyStr.isSpace (text.take charBudget) ++ py "…"

structure RetrievalHit where
  documentId : Uuid
  chunkIndex : Int
  text : PyStr
  charStart : Int
  charEnd : Int
  score : PyFloat

structure Document where
  id : Uuid
  filename : PyStr

/--
A document with the text of it that goes into the prompt.
-/
structure Snippet where
  document : Document
  text : PyStr

/--
The documents of the hits, in the order of their best one.
-/
def groupedIds (hits : List RetrievalHit) : List Uuid :=
  (hits.map RetrievalHit.documentId).eraseDups

def passageSeparator : PyStr := py "\n…\n"

/--
The hits of one document, joined in reading order.
-/
def joinedHits (hits : List RetrievalHit) : PyStr :=
  join passageSeparator
    (((Sweep.sortBy RetrievalHit.chunkIndex hits).filter fun hit => hit.text ≠ []).map RetrievalHit.text)

/--
`_load_retrieved_snippets`, once the hits are found.
-/
def loadRetrievedSnippets (filenames : Uuid → Option PyStr) (hits : List RetrievalHit) : List Snippet :=
  (groupedIds hits).filterMap fun documentId =>
    (filenames documentId).map fun filename => {
      document := { id := documentId, filename := filename }
      text := truncate (joinedHits (hits.filter fun hit => hit.documentId = documentId)) perDocumentCharBudget
    }

/--
`_load_selected_snippets`, once the documents are found with their extracted text.
-/
def loadSelectedSnippets (documents : List (Document × Option PyStr)) : List Snippet :=
  documents.map fun item => { document := item.fst, text := truncate (item.snd.getD []) perDocumentCharBudget }

/--
`titles.get(document_id)`
-/
def titleOf (snippets : List Snippet) (documentId : Uuid) : Option PyStr :=
  (snippets.filter fun snippet => snippet.document.id = documentId).getLast?.map fun snippet =>
    snippet.document.filename

/--
`_build_sources`
-/
def buildSources (snippets : List Snippet) (hits : List RetrievalHit) : List AssistantSource :=
  hits.filterMap fun hit =>
    (titleOf snippets hit.documentId).map fun title => {
      documentId := hit.documentId
      title := title
      snippet := truncate hit.text sourceSnippetChars
      charStart := hit.charStart
      charEnd := hit.charEnd
      score := hit.score
    }

section Prompt

/--
The sections of the prompt that are set before and after the documents.
-/
structure Sections where
  matterFacts : PyStr
  documentIndex : PyStr
  chronology : PyStr
  outputs : PyStr
  tools : PyStr

def retrievedDocsNote : PyStr :=
  py "Passages retrieved as most relevant to the new user message, searched across the whole matter. Only indexed "
    ++ py "documents are searchable; documents still pending or failed indexing are not shown here."

def selectedDocsNote : PyStr :=
  py "Full extracted text of the documents the user attached."

/--
`_format_documents`
-/
def formatDocuments (snippets : List Snippet) : PyStr :=
  if snippets = [] then py "(no documents)"
  else
    join (py "\n\n") (snippets.map fun snippet =>
      py "[doc:" ++ snippet.document.id.str ++ py "] " ++ snippet.document.filename ++ py "\n"
        ++ (if snippet.text = [] then py "(no extracted body)" else snippet.text))

/--
`_format_history`
-/
def formatHistory (history : List AssistantMessage) : PyStr :=
  if history = [] then py "(no prior turns)"
  else
    join (py "\n") (history.map fun message =>
      (match message.role with
        | .user => py "User"
        | .assistant => py "Assistant") ++ py ": " ++ message.content)

/--
The sections before the text of the documents.
-/
def headSections (sections : Sections) (retrievalUsed : Bool) : List PyStr :=
  [
    py "## Matter", sections.matterFacts, [],
    py "## Document index", sections.documentIndex, [],
    py "## Chronology", sections.chronology, [],
    py "## Outputs", sections.outputs, [],
    py "## Documents", if retrievalUsed then retrievedDocsNote else selectedDocsNote
  ]

/--
The sections after the text of the documents.
-/
def tailSections (sections : Sections) (history : List AssistantMessage) (rollingSummary : Option PyStr)
    : List PyStr :=
  [[], py "## Tools", sections.tools]
    ++ (match rollingSummary.filter (· ≠ []) with
      | some summary =>
        [[], py "## Summary of earlier conversation", truncate summary rollingSummaryCharBudget]
      | none => [])
    ++ [[], py "## Conversation so far", formatHistory history]

/--
What is put after the truncated context.
-/
def promptTail (userContent : PyStr) : PyStr :=
  join (py "\n") [
    [], py "## New user message", userContent, [], py "Respond with JSON only matching the documented envelope."
  ]

/--
The context before it is truncated.
-/
def fullContext (sections : Sections) (history : List AssistantMessage) (snippets : List Snippet)
    (retrievalUsed : Bool) (rollingSummary : Option PyStr) : PyStr :=
  join (py "\n")
    (headSections sections retrievalUsed ++ [formatDocuments snippets] ++ tailSections sections history rollingSummary)

def contextCharBudget (tokenBudget : Int) : Nat :=
  (max 1 tokenBudget).toNat * charsPerToken

/--
`_assemble_prompt`
-/
def assemblePrompt (sections : Sections) (history : List AssistantMessage) (snippets : List Snippet)
    (retrievalUsed : Bool) (userContent : PyStr) (tokenBudget : Int) (rollingSummary : Option PyStr) : PyStr :=
  truncate (fullContext sections history snippets retrievalUsed rollingSummary) (contextCharBudget tokenBudget)
    ++ promptTail userContent

end Prompt

end Assistant
