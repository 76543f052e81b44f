import Legalise.Lib.Except
import Legalise.Python.Bytes
import Legalise.Python.JsonOrder

/-!
This module contains the normalisation of an export of another workspace: the two shapes of a Mike export, the choice of
the current version of a document, the bytes that are matched to it and the grade of its hash.
-/

namespace ExternalPack

section Shapes

inductive Author where
  | human
  | assistant
  | unknown
  deriving DecidableEq

inductive HashOrigin where
  | verifiedAtSource
  | attestedAtIngest
  | claimedBySource
  deriving DecidableEq

/--
What `isinstance(value, int)` accepts.
-/
inductive VersionNumber where
  | int (n : Int)
  | bool (b : Bool)
  deriving DecidableEq

def VersionNumber.value : VersionNumber → Int
  | .int n => n
  | .bool b => if b then 1 else 0

def VersionNumber.str : VersionNumber → PyStr
  | .int n => pyInt n
  | .bool b => if b then py "True" else py "False"

structure NormalisedVersion where
  externalId : Option PyStr
  versionNumber : Option VersionNumber
  source : Option PyStr
  author : Author
  provenance : PyStr
  filename : Option PyStr
  createdAt : Option PyStr
  contentSha256 : Option PyStr
  deriving DecidableEq

structure NormalisedEdit where
  externalId : Option PyStr
  versionId : Option PyStr
  changeId : Option PyStr
  deletedText : Option PyStr
  insertedText : Option PyStr
  contextBefore : Option PyStr
  contextAfter : Option PyStr
  status : Option PyStr
  resolvedAt : Option PyStr
  deriving DecidableEq

structure NormalisedDocument where
  externalId : Option PyStr
  filename : PyStr
  sha256 : Option PyStr
  hashOrigin : Option HashOrigin
  ingestSha256 : Option PyStr
  sourceSha256 : Option PyStr
  hashMismatch : Bool
  sizeBytes : Option Nat
  currentVersion : Option NormalisedVersion
  versions : List NormalisedVersion
  editTrail : List NormalisedEdit
  deriving DecidableEq

structure NormalisedPack where
  adapter : PyStr
  source : PyStr
  exportedAt : Option PyStr
  sourceUser : Option Dict
  documents : List NormalisedDocument
  sourceProject : Option Dict

structure Counts where
  documents : Nat
  versions : Nat
  edits : Nat
  verifiedAtSource : Nat
  attestedAtIngest : Nat
  claimedBySource : Nat
  unhashed : Nat
  hashMismatches : Nat

def NormalisedPack.counts (pack : NormalisedPack) : Counts where
  documents := pack.documents.length
  versions := (pack.documents.map fun d => d.versions.length).sum
  edits := (pack.documents.map fun d => d.editTrail.length).sum
  verifiedAtSource := pack.documents.countP fun d => d.hashOrigin = some .verifiedAtSource
  attestedAtIngest := pack.documents.countP fun d => d.hashOrigin = some .attestedAtIngest
  claimedBySource := pack.documents.countP fun d => d.hashOrigin = some .claimedBySource
  unhashed := pack.documents.countP fun d => d.sha256 = none
  hashMismatches := pack.documents.countP fun d => d.hashMismatch

end Shapes

/--
What leaves `normalise_export` instead of a pack.
-/
inductive Refusal where
  | unknownAdapter
  | malformedExport
  | typeError
  deriving DecidableEq

section Fields

/--
`_s`: a string that is not empty.
-/
def s (row : Dict) (key : PyStr) : Option PyStr :=
  match row.get key with
  | .str v => if v = [] then none else some v
  | _ => none

/--
`_i`
-/
def i (row : Dict) (key : PyStr) : Option VersionNumber :=
  match row.get key with
  | .int n => some (.int n)
  | .bool b => some (.bool b)
  | _ => none

/--
`[r for r in values if isinstance(r, dict)]`
-/
def dicts (values : List Json) : List Dict :=
  values.filterMap fun v =>
    match v with
    | .dict items => some items
    | _ => none

def mikeSourceMap : List (PyStr × Author × PyStr) :=
  [
    (py "upload", .human, py "uploaded"),
    (py "user_upload", .human, py "uploaded"),
    (py "assistant_edit", .assistant, py "assistant_edit"),
    (py "user_accept", .human, py "human_accepted"),
    (py "user_reject", .human, py "human_rejected"),
    (py "generated", .assistant, py "generated")
  ]

def normaliseVersion (row : Dict) : NormalisedVersion :=
  let source := s row (py "source")
  let (author, provenance) := (List.lookup (source.getD []) mikeSourceMap).getD
    (.unknown, py "unrecognised:" ++ source.getD (py "None"))
  {
    externalId := s row (py "id")
    versionNumber := i row (py "version_number")
    source := source
    author := author
    provenance := provenance
    filename := s row (py "filename")
    createdAt := s row (py "created_at")
    contentSha256 := s row (py "content_sha256")
  }

def normaliseEdit (row : Dict) : NormalisedEdit where
  externalId := s row (py "id")
  versionId := s row (py "version_id")
  changeId := s row (py "change_id")
  deletedText := s row (py "deleted_text")
  insertedText := s row (py "inserted_text")
  contextBefore := s row (py "context_before")
  contextAfter := s row (py "context_after")
  status := s row (py "status")
  resolvedAt := s row (py "resolved_at")

end Fields

section Match

/--
An extension: a point and at least one character, with no further point.
-/
def isExtension (name : PyStr) : Bool :=
  match name with
  | [] => false
  | c :: rest => c = CodePoint.ofChar '.' && !rest.isEmpty && CodePoint.ofChar '.' ∉ rest

/--
The groups of `^(?P<stem>.*?)(?P<ext>\.[^.]+)?$`: the shortest stem in front of an extension or of the end. The stem has
no line break, and the end may be in front of a last line break.
-/
def splitName : PyStr → Option (PyStr × PyStr)
  | [] => some ([], [])
  | c :: rest =>
    if isExtension (c :: rest) then some ([], c :: rest)
    else if c = CodePoint.ofChar '\n' then
      if rest = [] then some ([], []) else none
    else (splitName rest).map fun groups => (c :: groups.fst, groups.snd)

def editedName (filename number : PyStr) : PyStr :=
  let (stem, ext) := (splitName filename).getD (filename, [])
  stem ++ py " [Edited V" ++ number ++ py "]" ++ ext

/--
The names under which a ZIP may hold the bytes of a document.
-/
def candidates (filename : PyStr) (current : Option NormalisedVersion) : List PyStr :=
  match current with
  | none => [filename]
  | some version =>
    match version.versionNumber with
    | none => [filename]
    | some number =>
      if version.source = some (py "assistant_edit") ∧ number.value ≠ 0 then [editedName filename number.str, filename]
      else [filename]

/--
The entry of the ZIP that `_match_bytes` takes the bytes from.
-/
def matchedEntry (files : List (PyStr × Bytes)) (filename : PyStr) (current : Option NormalisedVersion) : Option PyStr :=
  (candidates filename current).find? fun name => (List.lookup name files).isSome

def matchBytes (files : List (PyStr × Bytes)) (filename : PyStr) (current : Option NormalisedVersion) : Option Bytes :=
  (matchedEntry files filename current).bind fun name => List.lookup name files

end Match

section Document

variable (sha256Hex : Bytes → PyStr)

/--
`r.get("version_number") or 0`
-/
def sortKey (row : Dict) : Json :=
  let v := row.get (py "version_number")
  if v.truthy then v else .int 0

/--
The version with the wanted id, or else the last one. A wanted id that is missing is that of a version without one.
-/
def currentVersion (wanted : Option PyStr) (versions : List NormalisedVersion) : Option NormalisedVersion :=
  (versions.find? fun v => v.externalId = wanted).or versions.getLast?

def documentFilename (raw : Dict) (current : Option NormalisedVersion) : PyStr :=
  ((current.bind NormalisedVersion.filename).or (s raw (py "name"))).getD
    (py "document-" ++ (s raw (py "id")).getD (py "unknown"))

/--
The canonical hash of a document, the claim that it makes, and whether a claim of the source has failed.
-/
def grade (sourceSha256 ingestSha256 : Option PyStr) : Option PyStr × Option HashOrigin × Bool :=
  match sourceSha256, ingestSha256 with
  | some source, some ingest =>
    if ingest = source then (some source, some .verifiedAtSource, false)
    else (some ingest, some .attestedAtIngest, true)
  | none, some ingest => (some ingest, some .attestedAtIngest, false)
  | some source, none => (some source, some .claimedBySource, false)
  | none, none => (none, none, false)

/--
`_normalise_document` after the version rows are sorted.
-/
def assemble (files : List (PyStr × Bytes)) (raw : Dict) (versions : List NormalisedVersion) (editRows : List Dict)
    : NormalisedDocument :=
  let current := currentVersion (s raw (py "current_version_id")) versions
  let filename := documentFilename raw current
  let data := matchBytes files filename current
  let graded := grade (current.bind NormalisedVersion.contentSha256) (data.map sha256Hex)
  {
    externalId := s raw (py "id")
    filename := filename
    sha256 := graded.fst
    hashOrigin := graded.snd.fst
    ingestSha256 := data.map sha256Hex
    sourceSha256 := current.bind NormalisedVersion.contentSha256
    hashMismatch := graded.snd.snd
    sizeBytes := data.map List.length
    currentVersion := current
    versions := versions
    editTrail := editRows.map normaliseEdit
  }

def normaliseDocument (files : List (PyStr × Bytes)) (raw : Dict) (versionRows editRows : List Dict)
    : Except Refusal NormalisedDocument :=
  match Json.sorted sortKey versionRows with
  | none => .error .typeError
  | some rows => .ok (assemble sha256Hex files raw (rows.map normaliseVersion) editRows)

end Document

section Export

/--
The rows of a nested list, `raw.get(key) or []`. Only what can be iterated over has rows.
-/
def nestedRows (raw : Dict) (key : PyStr) : Except Refusal (List Dict) :=
  let v := raw.get key
  if v.truthy then
    match v.iter with
    | .ok values => .ok (dicts values)
    | .error _ => .error .typeError
  else .ok []

/--
The rows of a table of the account export that name a document.
-/
def tableRows (exported : Dict) (table : PyStr) (raw : Dict) : List Dict :=
  match s raw (py "id"), exported.get table with
  | some docId, .list values => (dicts values).filter fun row => s row (py "document_id") = some docId
  | _, _ => []

def isManifest (exported : Dict) : Bool :=
  (List.lookup (py "manifest_version") exported).isSome

/--
The version rows and the edit rows of a document.
-/
def documentRows (exported raw : Dict) : Except Refusal (List Dict × List Dict) :=
  if isManifest exported then do
    let versionRows ← nestedRows raw (py "versions")
    let editRows ← nestedRows raw (py "edits")
    return (versionRows, editRows)
  else .ok (tableRows exported (py "document_versions") raw, tableRows exported (py "document_edits") raw)

def dict? : Json → Option Dict
  | .dict items => some items
  | _ => none

variable (sha256Hex : Bytes → PyStr)

def mike : PyStr := py "mike"

/--
`MikeAdapter.normalise`, in which the two shapes differ in where the rows of a document are.
-/
def normalise (exported : Json) (files : List (PyStr × Bytes)) : Except Refusal NormalisedPack :=
  match exported with
  | .dict fields =>
    match Dict.get fields (py "documents") with
    | .list docsRaw => do
      let documents ← (dicts docsRaw).mapM fun raw => do
        let (versionRows, editRows) ← documentRows fields raw
        normaliseDocument sha256Hex files raw versionRows editRows
      return {
        adapter := mike
        source := mike
        exportedAt := s fields (py "exported_at")
        sourceUser := if isManifest fields then none else dict? (Dict.get fields (py "user"))
        documents := documents
        sourceProject := if isManifest fields then dict? (Dict.get fields (py "project")) else none
      }
    | _ => .error .malformedExport
  | _ => .error .malformedExport

def normaliseExport (adapterName : PyStr) (exported : Json) (files : List (PyStr × Bytes))
    : Except Refusal NormalisedPack :=
  if adapterName = mike then normalise sha256Hex exported files else .error .unknownAdapter

end Export

section Rows

/--
What a `for` loop over `value or []` visits, if it is allowed to.
-/
def items : Json → List Json
  | .list values => values
  | _ => []

/--
`value or []` can be iterated over.
-/
def Iterates : Json → Prop
  | .list _ => True
  | .dict _ => True
  | .str _ => True
  | v => v.truthy = false

instance (v : Json) : Decidable (Iterates v) := by
  cases v <;> (unfold Iterates; infer_instance)

theorem dicts_strs {α : Type} (f : α → PyStr) (xs : List α) : dicts (xs.map fun x => .str (f x)) = [] := by
  unfold dicts
  rw [List.filterMap_map, List.filterMap_eq_nil_iff]
  intro x _
  rfl

theorem nestedRows_eq (raw : Dict) (key : PyStr)
    : nestedRows raw key = if Iterates (raw.get key) then .ok (dicts (items (raw.get key))) else .error .typeError := by
  unfold nestedRows
  dsimp only
  cases raw.get key with
  | null => rfl
  | bool b => cases b <;> rfl
  | int n =>
    by_cases hn : n = 0
    . simp [Json.truthy, Iterates, items, dicts, hn]
    . simp [Json.truthy, Iterates, Json.iter, hn]
  | float x =>
    by_cases hx : x.value? = some 0
    . simp [Json.truthy, Iterates, items, dicts, hx]
    . simp [Json.truthy, Iterates, Json.iter, hx]
  | str v =>
    cases v with
    | nil => rfl
    | cons c v =>
      show Except.ok (dicts ((c :: v).map fun c => .str [c])) = _
      rw [dicts_strs]
      rfl
  | list values =>
    cases values <;> simp [Json.truthy, Iterates, Json.iter, items, dicts]
  | dict fields =>
    cases fields with
    | nil => rfl
    | cons field fields =>
      show Except.ok (dicts ((field :: fields).map fun item => .str item.fst)) = _
      rw [dicts_strs]
      rfl

/--
The version rows of a document whose lists can be iterated over.
-/
def versionRows (exported raw : Dict) : List Dict :=
  if isManifest exported then dicts (items (raw.get (py "versions")))
  else tableRows exported (py "document_versions") raw

def editRows (exported raw : Dict) : List Dict :=
  if isManifest exported then dicts (items (raw.get (py "edits")))
  else tableRows exported (py "document_edits") raw

/--
The lists of a document in a manifest can be iterated over.
-/
def Nested (exported raw : Dict) : Prop :=
  isManifest exported = true → Iterates (raw.get (py "versions")) ∧ Iterates (raw.get (py "edits"))

instance (exported raw : Dict) : Decidable (Nested exported raw) := by
  unfold Nested
  infer_instance

theorem documentRows_eq (exported raw : Dict)
    : documentRows exported raw
        = if Nested exported raw then .ok (versionRows exported raw, editRows exported raw) else .error .typeError := by
  unfold documentRows versionRows editRows Nested
  rw [nestedRows_eq, nestedRows_eq]
  by_cases hmanifest : isManifest exported = true
  . simp only [hmanifest, if_true, true_implies]
    by_cases hversions : Iterates (raw.get (py "versions"))
    . by_cases hedits : Iterates (raw.get (py "edits"))
      . simp [hversions, hedits, bind, Except.bind, pure, Except.pure]
      . simp [hversions, hedits, bind, Except.bind]
    . simp [hversions, bind, Except.bind]
  . simp [hmanifest]

variable {sha256Hex : Bytes → PyStr} {files : List (PyStr × Bytes)}

/--
The document of an object is assembled from its rows if these can be read and sorted.
-/
def documentOf (sha256Hex : Bytes → PyStr) (files : List (PyStr × Bytes)) (exported raw : Dict)
    : Except Refusal NormalisedDocument := do
  let (versionRows, editRows) ← documentRows exported raw
  normaliseDocument sha256Hex files raw versionRows editRows

theorem documentOf_eq (exported raw : Dict)
    : documentOf sha256Hex files exported raw
        = if Nested exported raw then
            normaliseDocument sha256Hex files raw (versionRows exported raw) (editRows exported raw)
          else .error .typeError := by
  unfold documentOf
  rw [documentRows_eq]
  split <;> rfl

/--
An export is normalised if it is an object with a list of documents, and each object in it is.
-/
theorem normalise_eq_ok {exported : Json} {pack : NormalisedPack} (h : normalise sha256Hex exported files = .ok pack)
    : ∃ fields docsRaw, exported = .dict fields ∧ Dict.get fields (py "documents") = .list docsRaw
        ∧ List.Forall₂ (fun raw doc => documentOf sha256Hex files fields raw = .ok doc) (dicts docsRaw)
          pack.documents := by
  unfold normalise at h
  split at h
  . next fields =>
    split at h
    . next docsRaw hdocs =>
      rw [Except.bind_eq_ok_iff] at h
      have ⟨documents, hdocuments, hpack⟩ := h
      cases hpack
      exact ⟨fields, docsRaw, rfl, hdocs, (Except.mapM_eq_ok_iff _ _ _).mp hdocuments⟩
    . cases h
  . cases h

theorem documentOf_isOk_iff (exported raw : Dict)
    : (∃ doc, documentOf sha256Hex files exported raw = .ok doc)
        ↔
      Nested exported raw ∧ Json.Comparable ((versionRows exported raw).map sortKey) := by
  rw [documentOf_eq, ← Json.sorted_isSome_iff]
  unfold normaliseDocument
  by_cases hnested : Nested exported raw
  . cases hsorted : Json.sorted sortKey (versionRows exported raw) <;> simp [hnested]
  . simp [hnested]

theorem documentOf_eq_error {exported raw : Dict} {e : Refusal} (h : documentOf sha256Hex files exported raw = .error e)
    : e = .typeError := by
  rw [documentOf_eq] at h
  unfold normaliseDocument at h
  split at h
  . split at h <;> cases h
    rfl
  . cases h
    rfl

/--
What a document is, once its version rows are sorted.
-/
theorem documentOf_eq_ok {exported raw : Dict} {doc : NormalisedDocument}
    (h : documentOf sha256Hex files exported raw = .ok doc)
    : ∃ rows, Json.sorted sortKey (versionRows exported raw) = some rows
        ∧ doc = assemble sha256Hex files raw (rows.map normaliseVersion) (editRows exported raw) := by
  rw [documentOf_eq] at h
  unfold normaliseDocument at h
  split at h
  . split at h
    . cases h
    . next rows hrows =>
      cases h
      exact ⟨rows, hrows, rfl⟩
  . cases h

theorem normalise_isOk_iff {fields : Dict} {docsRaw : List Json} (h : Dict.get fields (py "documents") = .list docsRaw)
    : (∃ pack, normalise sha256Hex (.dict fields) files = .ok pack)
        ↔
      ∀ raw ∈ dicts docsRaw, ∃ doc, documentOf sha256Hex files fields raw = .ok doc := by
  rw [← Except.mapM_isOk_iff]
  unfold normalise
  simp only [h, Except.bind_eq_ok_iff, Except.pure_eq_ok_iff]
  constructor
  . rintro ⟨_, documents, hdocuments, _⟩
    exact ⟨documents, hdocuments⟩
  . rintro ⟨documents, hdocuments⟩
    exact ⟨_, documents, hdocuments, rfl⟩

/--
Only an export that is no object with a list of documents is malformed.
-/
theorem normalise_eq_error {exported : Json} {e : Refusal} (h : normalise sha256Hex exported files = .error e)
    : e = .malformedExport
        ∨ e = .typeError ∧ ∃ fields docsRaw, exported = .dict fields ∧ Dict.get fields (py "documents") = .list docsRaw
    := by
  unfold normalise at h
  split at h
  . next fields =>
    split at h
    . next docsRaw hdocs =>
      rw [Except.bind_eq_error_iff] at h
      rcases h with h | ⟨documents, _, h⟩
      . exact .inr ⟨Except.of_mapM_eq_error (fun raw _ e he => documentOf_eq_error he) h, fields, docsRaw, rfl, hdocs⟩
      . cases h
    . cases h
      exact .inl rfl
  . cases h
    exact .inl rfl

theorem normalise_of_list {fields : Dict} {docsRaw : List Json} (h : Dict.get fields (py "documents") = .list docsRaw)
    {e : Refusal} (herror : normalise sha256Hex (.dict fields) files = .error e) : e = .typeError := by
  unfold normalise at herror
  simp only [h] at herror
  rw [Except.bind_eq_error_iff] at herror
  rcases herror with herror | ⟨documents, _, herror⟩
  . exact Except.of_mapM_eq_error (fun raw _ e he => documentOf_eq_error he) herror
  . cases herror

/--
The objects in the list of documents.
-/
def documentsOf (fields : Dict) : List Dict :=
  dicts (items (fields.get (py "documents")))

theorem documents_of_normalise {fields : Dict} {pack : NormalisedPack}
    (h : normalise sha256Hex (.dict fields) files = .ok pack)
    : List.Forall₂ (fun raw doc => documentOf sha256Hex files fields raw = .ok doc) (documentsOf fields)
      pack.documents := by
  have ⟨fields', docsRaw, hfields, hdocs, hforall⟩ := normalise_eq_ok h
  rw [Json.dict.injEq] at hfields
  subst hfields
  unfold documentsOf
  rw [hdocs]
  exact hforall

end Rows

end ExternalPack
