import Legalise.Lib.Assign
import Legalise.Lib.Sweep
import Legalise.Python.Json
import Legalise.Python.Text

/-!
This module contains the anonymisation of a text: the spans that Presidio or the model's envelope
name, and their replacement by tokens.
-/

namespace Anonymisation

open PyStr Sweep Assign

/--
Engine-agnostic span shape used by `tokenise`.
-/
structure AnalysedSpan where
  start : Nat
  stop : Nat
  entityType : PyStr
  score : ℚ
  original : PyStr
  deriving DecidableEq

/--
What `AnalyzerEngine.analyze` returns for a text.
-/
structure RecognizerResult where
  start : Nat
  stop : Nat
  entityType : PyStr
  score : ℚ
  deriving DecidableEq

/--
The key `(s.start, -s.score)`
-/
def AnalysedSpan.key (s : AnalysedSpan) : Nat ×ₗ ℚ :=
  toLex (s.start, -s.score)

/--
The loop that keeps a span unless it starts before the end of the one kept last, and the order from
right to left.
-/
def deOverlap (spans : List AnalysedSpan) : List AnalysedSpan :=
  let deduped := sweep (fun s => (s.start : Int)) (fun s => (s.stop : Int)) (-1)
    (sortBy AnalysedSpan.key spans)
  sortBy (fun s => OrderDual.toDual s.start) deduped

section Presidio

def spanOf (text : PyStr) (r : RecognizerResult) : AnalysedSpan where
  start := r.start
  stop := r.stop
  entityType := r.entityType
  score := r.score
  original := slice text r.start r.stop

/--
`analyse`, given what the engine returns for the text.
-/
def analyse (text : PyStr) (results : List RecognizerResult) : List AnalysedSpan :=
  if text.isEmpty then []
  else deOverlap ((results.map (spanOf text)).filter fun s => !(strip s.original).isEmpty)

end Presidio

section Claude

/--
An entry of the envelope's `spans`. Offsets are integers, texts or missing.
-/
structure SpanEntry where
  start : Option (Int ⊕ PyStr)
  stop : Option (Int ⊕ PyStr)
  original : PyStr
  entityType : PyStr

structure TokenEntry where
  original : PyStr
  entityType : PyStr

/--
The envelope after validation, where a key of the model's answer may be null.
-/
structure AnonymisationEnvelope where
  tokens : Option (List TokenEntry)
  spans : Option (List SpanEntry)

/--
`int(offset)`, where `none` stands for a `TypeError` or a `ValueError`.
-/
def offset : Option (Int ⊕ PyStr) → Option Int
  | none => none
  | some (.inl n) => some n
  | some (.inr s) => toInt 10 s

variable (upper : PyStr → PyStr)

/--
The span of an entry whose offsets verify against the text.
-/
def verifiedSpan (text : PyStr) (e : SpanEntry) : Option AnalysedSpan := do
  let start ← offset e.start
  let stop ← offset e.stop
  if e.original.isEmpty ∨ start < 0 ∨ stop ≤ start ∨ text.length < stop then none
  else if slice text start.toNat stop.toNat ≠ e.original then none
  else
    some
      { start := start.toNat, stop := stop.toNat, entityType := upper e.entityType, score := 9 / 10,
        original := e.original }

/--
Add a span unless there is one with its offsets.
-/
def addSpan (out : List AnalysedSpan) (s : AnalysedSpan) : List AnalysedSpan :=
  if out.any fun o => o.start == s.start && o.stop == s.stop then out else out ++ [s]

/--
The `while hits < 50` loop from a position on.
-/
def literalHits (text original : PyStr) : Nat → Nat → List Nat
  | 0, _ => []
  | hits + 1, start =>
    match find original text start with
    | none => []
    | some idx => idx :: literalHits text original hits (idx + original.length)

def maxHits : Nat := 50

def literalSpan (t : TokenEntry) (idx : Nat) : AnalysedSpan where
  start := idx
  stop := idx + t.original.length
  entityType := upper t.entityType
  score := 9 / 10
  original := t.original

/--
The spans at the literal occurrences of a token's original.
-/
def literalSpans (text : PyStr) (t : TokenEntry) : List AnalysedSpan :=
  if t.original.length < 2 then []
  else (literalHits text t.original maxHits 0).map (literalSpan upper t)

/--
The spans of the envelope's entries whose offsets verify, in their order.
-/
def entrySpans (envelope : AnonymisationEnvelope) (text : PyStr) : List AnalysedSpan :=
  (envelope.spans.getD []).filterMap (verifiedSpan upper text)

def spansFromClaude (envelope : AnonymisationEnvelope) (text : PyStr) : List AnalysedSpan :=
  let out := (entrySpans upper envelope text).foldl addSpan []
  if out.isEmpty then
    deOverlap (((envelope.tokens.getD []).flatMap (literalSpans upper text)).foldl addSpan [])
  else deOverlap out

end Claude

section Tokenise

def entityPrefixMap : List (PyStr × PyStr) :=
  [(py "PERSON", py "PARTY"), (py "ORG", py "ORG"), (py "ORGANIZATION", py "ORG"),
    (py "LOCATION", py "ADDRESS"), (py "GPE", py "ADDRESS"), (py "DATE_TIME", py "DATE"),
    (py "DATE", py "DATE"), (py "EMAIL_ADDRESS", py "EMAIL"), (py "PHONE_NUMBER", py "PHONE"),
    (py "UK_NHS", py "NHS"), (py "UK_NINO", py "NI"), (py "MONEY", py "AMOUNT")]

variable (R : PyRepr) (upper : PyStr → PyStr)

def prefixFor (entityType : PyStr) : PyStr :=
  (entityPrefixMap.lookup (upper entityType)).getD (py "ENTITY")

structure TokenMeta where
  entityType : PyStr
  original : PyStr
  occurrences : Nat
  deriving DecidableEq

structure Counters where
  counters : List (PyStr × Int)
  cache : List ((PyStr × PyStr) × PyStr)

/--
The part of a token after its last underscore, without the square brackets.
-/
def tokenSuffix (token : PyStr) : PyStr :=
  (stripOf (· ∈ py "[]") token).rtakeWhile (· ≠ CodePoint.ofChar '_')

/--
The entries of a persisted mapping that are dictionaries.
-/
def mappingTokens (existing : Option Json) : List (PyStr × Dict) :=
  match existing with
  | some (.dict mapping) =>
    match Dict.get mapping (py "tokens") with
    | .dict tokens =>
      tokens.filterMap fun item =>
        match item.snd with
        | .dict info => some (item.fst, info)
        | _ => none
    | _ => []
  | _ => []

def metaText (info : Dict) (key : PyStr) : PyStr :=
  (Dict.getD info key (.str [])).toStr R

/--
One round of the loop of `_seed_counters`.
-/
def seedToken (c : Counters) (token : PyStr) (info : Dict) : Counters :=
  let kind := prefixFor upper (metaText R info (py "entity_type"))
  match toInt 10 (tokenSuffix token) with
  | none => c
  | some suffix =>
    let original := metaText R info (py "original")
    { counters := assign kind (max ((c.counters.lookup kind).getD 0) (suffix + 1)) c.counters
      cache := if original.isEmpty then c.cache else assign (kind, original) token c.cache }

def seedCounters (existing : Option Json) : Counters :=
  (mappingTokens existing).foldl (fun c item => seedToken R upper c item.fst item.snd) ⟨[], []⟩

/--
The tokens of an earlier run, not counted yet.
-/
def knownTokens (existing : Option Json) : List (PyStr × TokenMeta) :=
  (mappingTokens existing).foldl
    (fun metas item =>
      assign item.fst
        ⟨metaText R item.snd (py "entity_type"), metaText R item.snd (py "original"), 0⟩ metas)
    []

structure Assignment where
  counters : Counters
  metas : List (PyStr × TokenMeta)
  spanTokens : List (AnalysedSpan × PyStr)

/--
`tokens_meta[token]["occurrences"] += 1`
-/
def countToken (token : PyStr) (metas : List (PyStr × TokenMeta)) : List (PyStr × TokenMeta) :=
  metas.map fun item =>
    if item.fst = token then (item.fst, { item.snd with occurrences := item.snd.occurrences + 1 })
    else item

/--
One round of the loop that assigns a token to every span.
-/
def assignToken (a : Assignment) (span : AnalysedSpan) : Assignment :=
  let kind := prefixFor upper span.entityType
  let fresh : TokenMeta := ⟨span.entityType, span.original, 0⟩
  match a.counters.cache.lookup (kind, span.original) with
  | none =>
    let idx := (a.counters.counters.lookup kind).getD 1
    let token := py "[" ++ kind ++ py "_" ++ pyInt idx ++ py "]"
    { counters :=
        { counters := assign kind (idx + 1) a.counters.counters
          cache := assign (kind, span.original) token a.counters.cache }
      metas := countToken token (assign token fresh a.metas)
      spanTokens := a.spanTokens ++ [(span, token)] }
  | some token =>
    let metas := if (a.metas.lookup token).isSome then a.metas else a.metas ++ [(token, fresh)]
    { a with metas := countToken token metas, spanTokens := a.spanTokens ++ [(span, token)] }

def assignTokens (spans : List AnalysedSpan) (existing : Option Json) : Assignment :=
  (sortBy AnalysedSpan.start spans).foldl (assignToken upper)
    ⟨seedCounters R upper existing, knownTokens R existing, []⟩

def pieceOf (pair : AnalysedSpan × PyStr) : Piece CodePoint where
  start := pair.fst.start
  stop := pair.fst.stop
  new := pair.snd

structure SpanPayload where
  start : Nat
  stop : Nat
  token : PyStr
  original : PyStr
  entityType : PyStr
  deriving DecidableEq

structure Mapping where
  tokens : List (PyStr × TokenMeta)
  spans : List SpanPayload

/--
Replace each analyser span with a stable token.
-/
def tokenise (text : PyStr) (spans : List AnalysedSpan) (existing : Option Json) : PyStr × Mapping :=
  if spans.isEmpty then (text, ⟨[], []⟩)
  else
    let a := assignTokens R upper spans existing
    let spanTokens := sortBy (fun pair => OrderDual.toDual pair.fst.start) a.spanTokens
    let redacted := spanTokens.foldl (fun chars pair => splice (pieceOf pair) chars) text
    let payload := (sortBy (fun pair => pair.fst.start) spanTokens).map fun pair =>
      ⟨pair.fst.start, pair.fst.stop, pair.snd, pair.fst.original, pair.fst.entityType⟩
    (redacted, ⟨a.metas, payload⟩)

end Tokenise

end Anonymisation
