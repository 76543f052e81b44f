import Legalise.Lib.Aborting
import Legalise.Lib.Assign
import Legalise.Lib.Sweep
import Legalise.Postgres.Value
import Legalise.Python.Text

/-!
This module contains the hybrid search over the indexed chunks of a matter: the keyword query, the optional vector
query, and the fusion of their hits by reciprocal rank.
-/

namespace Retrieval

open PyStr Sweep Assign Aborting

section Fusion

/--
`_Candidate`
-/
structure Candidate where
  chunkId : Uuid
  documentId : Uuid
  chunkIndex : Int
  text : PyStr
  charStart : Int
  charEnd : Int

/--
One retrieved chunk with its fused score.
-/
structure RetrievalHit where
  documentId : Uuid
  chunkIndex : Int
  text : PyStr
  charStart : Int
  charEnd : Int
  score : ℚ

def rrfK : ℚ := 60

def candidatePool : Int := 40

def Candidate.hit (c : Candidate) (score : ℚ) : RetrievalHit where
  documentId := c.documentId
  chunkIndex := c.chunkIndex
  text := c.text
  charStart := c.charStart
  charEnd := c.charEnd
  score := score

/--
The scores and the candidates, by the ids of the chunks.
-/
structure Tally where
  scores : List (Uuid × ℚ)
  candidates : List (Uuid × Candidate)

def Tally.add (t : Tally) (item : Candidate × Nat) : Tally where
  scores := assign item.fst.chunkId ((t.scores.lookup item.fst.chunkId).getD 0 + 1 / (rrfK + item.snd)) t.scores
  candidates := assign item.fst.chunkId item.fst t.candidates

def tally (rankedLists : List (List Candidate)) : Tally :=
  rankedLists.foldl (fun t rankedList => (rankedList.zipIdx 1).foldl Tally.add t) ⟨[], []⟩

/--
The best scores, the highest one first. Chunks of one score keep their order.
-/
def ranked (t : Tally) (k : Nat) : List (Uuid × ℚ) :=
  (sortBy (fun item => OrderDual.toDual item.snd) t.scores).take k

/--
`_fuse`
-/
def fuse (vectorHits keywordHits : List Candidate) (k : Nat) : List RetrievalHit :=
  let t := tally [vectorHits, keywordHits]
  (ranked t k).filterMap fun item => (t.candidates.lookup item.fst).map fun c => c.hit item.snd

end Fusion

section Queries

structure DocumentChunk where
  id : Uuid
  documentId : Uuid
  matterId : Uuid
  chunkIndex : Int
  text : PyStr
  charStart : Int
  charEnd : Int
  embedding : Option (List PyFloat)

/--
The chunks, and the index status of the documents.
-/
structure Database where
  chunks : List DocumentChunk
  indexStatus : Uuid → Option PyStr

/--
The full-text search and the vector operator of the database. A query without words matches nothing.
-/
structure Engine where
  isMatch : PyStr → PyStr → Bool
  tsRank : PyStr → PyStr → ℚ
  cosineDistance : List PyFloat → List PyFloat → ℚ
  isMatch_blank : ∀ query text, strip query = [] → isMatch query text = false

def indexIndexed : PyStr :=
  py "indexed"

def rowToCandidate (row : DocumentChunk) : Candidate where
  chunkId := row.id
  documentId := row.documentId
  chunkIndex := row.chunkIndex
  text := row.text
  charStart := row.charStart
  charEnd := row.charEnd

variable (engine : Engine) (db : Database) (matterId : Uuid)

/--
The chunks of the matter whose document is indexed.
-/
def searchable : List DocumentChunk :=
  db.chunks.filter fun chunk => chunk.matterId = matterId ∧ db.indexStatus chunk.documentId = some indexIndexed

/--
The rows of `_KEYWORD_SQL`
-/
def keywordHits (query : PyStr) (limit : Nat) : List Candidate :=
  ((sortBy (fun chunk => OrderDual.toDual (engine.tsRank query chunk.text))
    ((searchable db matterId).filter fun chunk => engine.isMatch query chunk.text)).take limit).map rowToCandidate

/--
The rows of the vector query.
-/
def vectorHits (queryVector : List PyFloat) (limit : Nat) : List Candidate :=
  ((sortBy Prod.snd ((searchable db matterId).filterMap fun chunk =>
    chunk.embedding.map fun embedding => (chunk, engine.cosineDistance embedding queryVector))).take limit).map
    fun item => rowToCandidate item.fst

end Queries

section Search

inductive Fault where
  /-- The embeddings backend is not available. -/
  | embedding
  /-- The statement cannot be built or sent. -/
  | bindings
  /-- The database answers the statement with an error. -/
  | database
  /-- "current transaction is aborted, commands ignored until end of transaction block" -/
  | aborted
  deriving DecidableEq

/--
How the vector query ends.
-/
inductive VectorQuery where
  | runs
  | unavailable
  | rejected
  deriving DecidableEq

/--
The optional path: the embedding of a text, if the backend gives one, and how the query for it ends.
-/
structure VectorPath where
  embed : PyStr → Option (List PyFloat)
  vectorQuery : List PyFloat → VectorQuery

variable (engine : Engine) (db : Database) (path : VectorPath) (matterId : Uuid)

/--
`embeddings.embed_query`
-/
def embedQuery (query : PyStr) : Tx Fault (List PyFloat) :=
  match path.embed query with
  | none => Tx.raise .embedding
  | some queryVector => pure queryVector

/--
`_vector_candidates`
-/
def vectorCandidates (queryVector : List PyFloat) (limit : Nat) : Tx Fault (List Candidate) :=
  match path.vectorQuery queryVector with
  | .runs => Tx.statement .aborted (.ok (vectorHits engine db matterId queryVector limit))
  | .unavailable => Tx.raise .bindings
  | .rejected => Tx.statement .aborted (.error .database)

/--
`_keyword_candidates`
-/
def keywordCandidates (query : PyStr) (limit : Nat) : Tx Fault (List Candidate) :=
  Tx.statement .aborted (.ok (keywordHits engine db matterId query limit))

/--
How many candidates are pulled from each list.
-/
def poolSize (k : Int) : Nat :=
  (max k candidatePool).toNat

/--
`search_documents`
-/
def searchDocuments (query : PyStr) (k : Int) : Tx Fault (List RetrievalHit) :=
  if k ≤ 0 ∨ strip query = [] then pure []
  else do
    let keywordHits ← keywordCandidates engine db matterId query (poolSize k)
    let vectorHits ← Tx.orElse (do
      let queryVector ← embedQuery path query
      vectorCandidates engine db path matterId queryVector (poolSize k)) []
    return fuse vectorHits keywordHits k.toNat

end Search

end Retrieval
