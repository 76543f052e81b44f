import Legalise.DocumentVersions.Ledger
import Legalise.Lib.Runs

/-!
This module contains the readers of the current text of a document: what edits are proposed against, and what the
snapshot of the document engine is made from.
-/

namespace DocumentVersions

variable {E : Env} {s t : State}

section Proposals

/--
What an instruction puts in front of the model, before it is truncated, is the text that its edits are applied to.
-/
def ProposesAgainstCurrent (s : State) : Prop :=
  ∀ body, promptBody s = .ok body → body = getBaseText s

/--
A version with the text is added by a manual save, by a commit of the working draft or by the end of a proposal.
-/
def SavesBeside (s t : State) (text : PyStr) : Prop :=
  ∃ v, t.versions = s.versions ++ [v] ∧ v.resolvedText = some text
    ∧ (v.kind = .userEdit ∨ v.kind = .userAccept ∨ v.kind = .userReject)

/--
If the extracted body is readable, then a text that is saved beside it is the same.
-/
def SavesSameText (s t : State) : Prop :=
  ∀ text, SavesBeside s t text → ∀ body, promptBody s = .ok body → text = body

theorem promptBody_eq_ok_iff {text : PyStr}
    : promptBody s = .ok text
        ↔ ∃ body, s.body = some body ∧ body.extractionMethod ≠ methodFailed ∧ body.extractedText ≠ []
          ∧ body.extractedText = text := by
  unfold promptBody
  cases s.body with
  | none => simp
  | some body =>
    dsimp only
    split
    . next hnot =>
      simp only [reduceCtorEq, Option.some.injEq, exists_eq_left', false_iff, not_and]
      intro hmethod htext
      rcases hnot with hnot | hnot <;> contradiction
    . next hreadable =>
      rw [not_or] at hreadable
      simp [hreadable]

theorem promptBody_congr (h : t.body = s.body) : promptBody t = promptBody s := by
  unfold promptBody
  rw [h]

theorem savesBeside_iff {v : DocumentVersion} {text : PyStr} (new : Inserted s t v)
    : SavesBeside s t text
        ↔ v.resolvedText = some text ∧ (v.kind = .userEdit ∨ v.kind = .userAccept ∨ v.kind = .userReject) := by
  unfold SavesBeside
  rw [new.versions]
  simp

theorem not_savesBeside {text : PyStr} (h : t.versions = s.versions) : ¬ SavesBeside s t text := by
  rintro ⟨v, hversions, _⟩
  rw [h] at hversions
  simp at hversions

/--
A text that is saved beside the body is what is proposed against if it is the same.
-/
theorem proposesAgainstCurrent_iff_of_saved {v : DocumentVersion} {text : PyStr} (new : Inserted s t v)
    (htext : v.resolvedText = some text) (hkind : v.kind = .userEdit ∨ v.kind = .userAccept ∨ v.kind = .userReject)
    (hbody : t.body = s.body) : ProposesAgainstCurrent t ↔ SavesSameText s t := by
  have hsaves (other : PyStr) : SavesBeside s t other ↔ text = other := by
    rw [savesBeside_iff new, htext, Option.some.injEq]
    exact and_iff_left hkind
  unfold ProposesAgainstCurrent SavesSameText
  rw [new.getBaseText_of_some htext, promptBody_congr hbody]
  constructor
  . intro h other hother body hprompt
    rw [← (hsaves other).mp hother, h body hprompt]
  . intro h body hprompt
    exact (h text ((hsaves text).mpr rfl) body hprompt).symm

/--
A step that saves no text beside the body keeps what is proposed against.
-/
theorem savesSameText_of_not (h : ∀ text, ¬ SavesBeside s t text) : SavesSameText s t :=
  fun text hsaves => absurd hsaves (h text)

theorem proposesAgainstCurrent_congr (hbase : getBaseText t = getBaseText s) (hbody : t.body = s.body)
    (h : ProposesAgainstCurrent s) : ProposesAgainstCurrent t := by
  unfold ProposesAgainstCurrent
  rw [hbase, promptBody_congr hbody]
  exact h

theorem getBaseText_congr (hversions : t.versions = s.versions) (hbody : t.body = s.body)
    : getBaseText t = getBaseText s := by
  unfold getBaseText latestTextVersion
  rw [hversions, hbody]

theorem proposesAgainstCurrent_step {made : Option (Decision × (EditRow → Bool))} (effect : Effect made s t) (h : ProposesAgainstCurrent s)
    : ProposesAgainstCurrent t ↔ SavesSameText s t := by
  have hkeep (hversions : t.versions = s.versions) (hbody : t.body = s.body)
      : ProposesAgainstCurrent t ↔ SavesSameText s t :=
    iff_of_true (proposesAgainstCurrent_congr (getBaseText_congr hversions hbody) hbody h)
      (savesSameText_of_not fun _ => not_savesBeside hversions)
  cases effect with
  | quiet versions edits body => exact hkeep versions body
  | proposed v rows new kind text edits pending nodup freshIds body =>
    refine iff_of_true (proposesAgainstCurrent_congr (new.getBaseText_of_none text body) body h)
      (savesSameText_of_not fun other => ?_)
    simp [savesBeside_iff new, text]
  | saved v new kind text edits body =>
    have ⟨text, htext⟩ := Option.isSome_iff_exists.mp text
    exact proposesAgainstCurrent_iff_of_saved new htext (.inl kind) body
  | uploaded v result new kind text edits body =>
    refine iff_of_true ?_ (savesSameText_of_not fun other => by simp [savesBeside_iff new, kind])
    intro prompt hprompt
    have ⟨result', hbody, hmethod, _, heq⟩ := promptBody_eq_ok_iff.mp hprompt
    rw [body, Option.some.injEq] at hbody
    subst hbody
    rw [if_neg hmethod] at text
    rw [new.getBaseText_of_some text, heq]
  | restored v result new kind text edits body =>
    refine iff_of_true ?_ (savesSameText_of_not fun other => by simp [savesBeside_iff new, kind])
    intro prompt hprompt
    have ⟨result', hbody, _, hne, heq⟩ := promptBody_eq_ok_iff.mp hprompt
    rw [body, Option.some.injEq] at hbody
    subst hbody
    cases hresolved : v.resolvedText with
    | none =>
      rw [hresolved] at text
      contradiction
    | some saved =>
      rw [hresolved] at text
      rw [new.getBaseText_of_some hresolved, ← heq, text]
      rfl
  | decided v d chosen made decided versions blocked => exact hkeep versions decided.body
  | closed v d chosen made decided none latest new =>
    refine proposesAgainstCurrent_iff_of_saved new rfl (.inr ?_) decided.body
    unfold closingVersion
    dsimp only
    split
    . exact .inr rfl
    . exact .inl rfl
  | stoodIn v w d chosen made decided new kind text bare blocked =>
    exact proposesAgainstCurrent_iff_of_saved new text (.inr kind) decided.body

theorem proposesAgainstCurrent_uploaded (u : FirstUpload) : ProposesAgainstCurrent (uploaded E u) := by
  intro prompt hprompt
  have ⟨body, hbody, _, _, heq⟩ := promptBody_eq_ok_iff.mp hprompt
  have hbase : getBaseText (uploaded E u) = ((uploaded E u).body.map (·.extractedText)).getD [] := rfl
  rw [hbase, hbody, ← heq]
  rfl

variable (E) in
/--
Edits are proposed against the current text in all states of a run if and only if the run saves no other text beside
a body that is readable.
-/
theorem proposesAgainstCurrent_iff (u : FirstUpload) (requests : List Request)
    : (∀ earlier, earlier <+: requests → ProposesAgainstCurrent (run E u earlier))
        ↔ ∀ earlier r, earlier ++ [r] <+: requests → SavesSameText (run E u earlier) (exec E (run E u earlier) r) :=
  @Runs.holds_iff_good State Request (exec E) Ledger ProposesAgainstCurrent (fun s r => SavesSameText s (exec E s r))
    (fun _ r h => ledger_exec h r) (fun _ r h => proposesAgainstCurrent_step (effect_exec h.editIds r))
    (uploaded E u) (ledger_uploaded u) (proposesAgainstCurrent_uploaded u) requests

/--
A manual save leaves the extracted body behind.
-/
theorem not_proposesAgainstCurrent_manualSave
    : ¬ ∀ earlier, earlier <+: [manualSave 2 "The lessee pays."]
        → ProposesAgainstCurrent (run plainEnv lease earlier) := by
  intro h
  have hbody : (run plainEnv lease [manualSave 2 "The lessee pays."]).body.map (fun body =>
      (body.extractionMethod, body.extractedText)) = some (py "passthrough", py "The tenant pays.") := by
    decide +kernel
  have ⟨body, hbody, heq⟩ := Option.map_eq_some_iff.mp hbody
  rw [Prod.mk.injEq] at heq
  have hprompt : promptBody (run plainEnv lease [manualSave 2 "The lessee pays."]) = .ok (py "The tenant pays.") :=
    promptBody_eq_ok_iff.mpr ⟨body, hbody, by rw [heq.left]; decide, by rw [heq.right]; decide, heq.right⟩
  have hafter := h [manualSave 2 "The lessee pays."] (List.prefix_refl _) _ hprompt
  revert hafter
  decide +kernel

end Proposals

section Snapshots

structure DocumentBlock where
  id : PyStr
  type : PyStr
  ordinal : Nat
  text : PyStr
  deriving DecidableEq

/--
`text.split(separator)`, where `skip` counts what is left of a separator and `part` is the current part.
-/
def splitFrom (separator : PyStr) : Nat → PyStr → PyStr → List PyStr
  | _, part, [] => [part]
  | skip + 1, part, _ :: text => splitFrom separator skip part text
  | 0, part, c :: text =>
    if separator.isPrefixOf (c :: text) then part :: splitFrom separator (separator.length - 1) [] text
    else splitFrom separator 0 (part ++ [c]) text

def splitOn (separator text : PyStr) : List PyStr :=
  splitFrom separator 0 [] text

/--
`text.replace(old, new)`
-/
def replaced (old new text : PyStr) : PyStr :=
  join new (splitOn old text)

/--
Blocks that are numbered from one on.
-/
def numbered (ids : Nat → PyStr) (type : PyStr) (start : Nat) (texts : List PyStr) : List DocumentBlock :=
  (texts.zipIdx start).map fun (text, i) => ⟨ids i, type, i, text⟩

def paragraphId (n : Nat) : PyStr :=
  py "p" ++ pyNat n

def blocksFromText (text : PyStr) : List DocumentBlock :=
  let parts := (splitOn (py "\n\n") (replaced (py "\r\n") (py "\n") text)).map PyStr.strip
  numbered paragraphId (py "paragraph") 1 (parts.filter (· ≠ []))

/--
What python-docx reads: the texts of the paragraphs, and those of the cells of each row of each table.
-/
structure DocxContent where
  paragraphs : List PyStr
  tables : List (List (List PyStr))

/--
The cells of the tables with their ids.
-/
def tableCells (tables : List (List (List PyStr))) : List (PyStr × PyStr) :=
  (tables.zipIdx 1).flatMap fun (rows, table) =>
    (rows.zipIdx 1).flatMap fun (cells, row) =>
      (cells.zipIdx 1).map fun (text, cell) =>
        (py "t" ++ pyNat table ++ py "r" ++ pyNat row ++ py "c" ++ pyNat cell, PyStr.strip text)

def blocksFromDocx (content : DocxContent) : List DocumentBlock :=
  let paragraphs := numbered paragraphId (py "paragraph") 1 ((content.paragraphs.map PyStr.strip).filter (· ≠ []))
  let cells := (tableCells content.tables).filter (·.snd ≠ [])
  let blocks := paragraphs ++ (cells.zipIdx (paragraphs.length + 1)).map fun ((id, text), ordinal) =>
    ⟨id, py "table_cell", ordinal, text⟩
  blocks.filter (PyStr.strip ·.text ≠ [])

structure DocumentSnapshot where
  source : PyStr
  sourceVersion : Option DocumentVersion
  extractionMethod : Option PyStr
  blocks : List DocumentBlock
  text : PyStr
  notes : List PyStr

inductive EngineError where
  | notFound
  | unavailable (message : PyStr)

/--
What a reader gets of the stored file: nothing if the storage fails. `docx` has no result where python-docx raises an
exception.
-/
structure DocxReader where
  stored : PyStr → Option Bytes
  docx : Bytes → Option DocxContent

def snapshotOf (source : PyStr) (version : Option DocumentVersion) (method : Option PyStr)
    (blocks : List DocumentBlock) (notes : List PyStr) : DocumentSnapshot :=
  ⟨source, version, method, blocks, join (py "\n\n") (blocks.map (·.text)), notes⟩

def isDocx (E : Env) (document : Document) : Bool :=
  endsWith (py ".docx") (E.readers.lower document.filename) || document.mimeType = docxMime

/--
The blocks of the stored file, or a note why there are none.
-/
def originalBlocks (E : Env) (D : DocxReader) (s : State) : Except (List PyStr) (List DocumentBlock) :=
  match s.document.storageUri.filter (· ≠ []) with
  | none => .error []
  | some uri =>
    if isDocx E s.document then
      match D.stored uri with
      | none => .error [py "original DOCX unavailable; using extracted body"]
      | some contents =>
        match (D.docx contents).map blocksFromDocx with
        | none => .error [py "original DOCX could not be parsed; using extracted body"]
        | some [] => .error [py "original DOCX had no readable blocks"]
        | some blocks => .ok blocks
    else .error []

/--
The snapshot of the extracted body.
-/
def bodySnapshot (s : State) (notes : List PyStr) : Except EngineError DocumentSnapshot :=
  match s.body with
  | none => .error (.unavailable (py "document body not available"))
  | some body =>
    if body.extractionMethod = methodFailed ∨ PyStr.strip body.extractedText = [] then
      .error (.unavailable (py "document body not available"))
    else
      let blocks := blocksFromText body.extractedText
      if blocks = [] then .error (.unavailable (py "document has no readable text"))
      else .ok (snapshotOf (py "extracted_body") none (some body.extractionMethod) blocks notes)

/--
The snapshot of what was uploaded.
-/
def fallbackSnapshot (E : Env) (D : DocxReader) (s : State) : Except EngineError DocumentSnapshot :=
  match originalBlocks E D s with
  | .ok blocks => .ok (snapshotOf (py "original_docx") none (some (py "python-docx")) blocks [])
  | .error notes => bodySnapshot s notes

def loadDocumentSnapshot (E : Env) (D : DocxReader) (s : State) (actorId : Uuid)
    : Except EngineError DocumentSnapshot :=
  if s.matter.createdById ≠ actorId ∨ s.matter.archived then .error .notFound
  else
    match latestTextVersion s with
    | none => fallbackSnapshot E D s
    | some v =>
      if v.resolvedText.getD [] = [] then fallbackSnapshot E D s
      else
        let blocks := blocksFromText (v.resolvedText.getD [])
        if blocks = [] then .error (.unavailable (py "document has no readable text"))
        else .ok (snapshotOf (py "latest_version") (some v) none blocks [])

/--
The stored file has blocks.
-/
def OriginalReadable (E : Env) (D : DocxReader) (s : State) : Prop :=
  ∃ blocks, originalBlocks E D s = .ok blocks

/--
The extracted body has blocks.
-/
def BodyReadable (s : State) : Prop :=
  ∃ body, s.body = some body ∧ body.extractionMethod ≠ methodFailed ∧ PyStr.strip body.extractedText ≠ []
    ∧ blocksFromText body.extractedText ≠ []

/--
The owner gets the blocks of the current text, or is told that there are none.
-/
def SeesCurrentText (E : Env) (D : DocxReader) (s : State) (actorId : Uuid) : Prop :=
  (∃ message, loadDocumentSnapshot E D s actorId = .error (.unavailable message))
    ∨ ∃ snapshot, loadDocumentSnapshot E D s actorId = .ok snapshot ∧ snapshot.blocks = blocksFromText (getBaseText s)

variable {D : DocxReader}

theorem bodySnapshot_cases (s : State) (notes : List PyStr)
    : (BodyReadable s ∧ ∃ snapshot, bodySnapshot s notes = .ok snapshot ∧ snapshot.blocks ≠ [])
        ∨ (¬ BodyReadable s ∧ ∃ message, bodySnapshot s notes = .error (.unavailable message)) := by
  unfold bodySnapshot BodyReadable
  cases s.body with
  | none => exact .inr ⟨by simp, _, rfl⟩
  | some body =>
    dsimp only
    split
    . next hnot =>
      refine .inr ⟨?_, _, rfl⟩
      rintro ⟨other, hother, hmethod, hstrip, _⟩
      cases hother
      exact hnot.elim hmethod hstrip
    . next hreadable =>
      rw [not_or] at hreadable
      split
      . next hblocks => exact .inr ⟨by simp [hblocks], _, rfl⟩
      . next hblocks => exact .inl ⟨⟨body, rfl, hreadable.left, hreadable.right, hblocks⟩, _, rfl, hblocks⟩

theorem originalBlocks_ne_nil {blocks : List DocumentBlock} (h : originalBlocks E D s = .ok blocks) : blocks ≠ [] := by
  unfold originalBlocks at h
  split at h
  . contradiction
  . split at h
    . split at h
      . contradiction
      . split at h
        . contradiction
        . contradiction
        . next hne _ =>
          cases h
          rintro rfl
          exact hne rfl
    . contradiction

/--
A fallback has blocks, or there are none to be had.
-/
theorem fallbackSnapshot_cases (E : Env) (D : DocxReader) (s : State)
    : ((OriginalReadable E D s ∨ BodyReadable s)
          ∧ ∃ snapshot, fallbackSnapshot E D s = .ok snapshot ∧ snapshot.blocks ≠ [])
        ∨ (¬ (OriginalReadable E D s ∨ BodyReadable s)
          ∧ ∃ message, fallbackSnapshot E D s = .error (.unavailable message)) := by
  unfold fallbackSnapshot OriginalReadable
  cases horiginal : originalBlocks E D s with
  | ok blocks => exact .inl ⟨.inl ⟨blocks, rfl⟩, _, rfl, originalBlocks_ne_nil horiginal⟩
  | error notes =>
    dsimp only
    rcases bodySnapshot_cases s notes with ⟨hbody, hsnapshot⟩ | ⟨hbody, hmessage⟩
    . exact .inl ⟨.inr hbody, hsnapshot⟩
    . exact .inr ⟨by simp [hbody], hmessage⟩

theorem blocksFromText_nil : blocksFromText [] = [] := by
  decide

theorem loadDocumentSnapshot_eq {actorId : Uuid} (howner : loadOwnedDocument s actorId = .ok ())
    {v : DocumentVersion} (hlatest : latestTextVersion s = some v)
    : loadDocumentSnapshot E D s actorId =
      if getBaseText s = [] then fallbackSnapshot E D s
      else if blocksFromText (getBaseText s) = [] then .error (.unavailable (py "document has no readable text"))
      else .ok (snapshotOf (py "latest_version") (some v) none (blocksFromText (getBaseText s)) []) := by
  have hallowed : ¬ (s.matter.createdById ≠ actorId ∨ s.matter.archived) := by
    intro hnot
    unfold loadOwnedDocument at howner
    rw [if_pos hnot] at howner
    contradiction
  unfold loadDocumentSnapshot getBaseText
  rw [if_neg hallowed, hlatest]

/--
An owner sees the current text of a document with a saved text unless this is empty while an older text is there to
fall back to.
-/
theorem seesCurrentText_iff (E : Env) (D : DocxReader) (s : State) (actorId : Uuid)
    (howner : loadOwnedDocument s actorId = .ok ()) (hsaved : latestTextVersion s ≠ none)
    : SeesCurrentText E D s actorId ↔ getBaseText s ≠ [] ∨ ¬ (OriginalReadable E D s ∨ BodyReadable s) := by
  have ⟨v, hlatest⟩ := Option.ne_none_iff_exists'.mp hsaved
  unfold SeesCurrentText
  rw [loadDocumentSnapshot_eq howner hlatest]
  split
  . next hempty =>
    rw [hempty, blocksFromText_nil]
    rcases fallbackSnapshot_cases E D s with ⟨hreadable, snapshot, heq, hblocks⟩ | ⟨hreadable, message, heq⟩
    . rw [heq]
      refine iff_of_false ?_ (by simp [hreadable])
      rintro (⟨_, herror⟩ | ⟨other, hother, hnil⟩)
      . contradiction
      . cases hother
        exact hblocks hnil
    . exact iff_of_true (.inl ⟨message, heq⟩) (.inr hreadable)
  . next htext =>
    refine iff_of_true ?_ (.inl htext)
    split
    . exact .inl ⟨_, rfl⟩
    . exact .inr ⟨_, rfl, rfl⟩

/--
A storage that fails.
-/
def noStorage : DocxReader :=
  ⟨fun _ => none, fun _ => none⟩

theorem seesCurrentText_manualSave
    : SeesCurrentText plainEnv noStorage (run plainEnv lease [manualSave 2 "The lessee pays."]) owner
        ↔ getBaseText (run plainEnv lease [manualSave 2 "The lessee pays."]) ≠ []
          ∨ ¬ (OriginalReadable plainEnv noStorage (run plainEnv lease [manualSave 2 "The lessee pays."])
            ∨ BodyReadable (run plainEnv lease [manualSave 2 "The lessee pays."])) := by
  refine seesCurrentText_iff plainEnv noStorage _ owner ?_ ?_
  . rfl
  . have hsome : (latestTextVersion (run plainEnv lease [manualSave 2 "The lessee pays."])).isSome = true := by
      decide +kernel
    exact Option.isSome_iff_ne_none.mp hsome

/--
The whole text is deleted by an edit that is accepted.
-/
def deletingRun : List Request :=
  [proposal 2 10 "The tenant pays." "", .resolve (Uuid.ofNat 10) (decision true 3)]

/--
The deleted text is seen.
-/
theorem not_seesCurrentText_deletingRun
    : (latestTextVersion (run plainEnv lease deletingRun)).isSome = true ∧ getBaseText (run plainEnv lease deletingRun) = []
        ∧ ¬ SeesCurrentText plainEnv noStorage (run plainEnv lease deletingRun) owner := by
  refine ⟨by decide +kernel, by decide +kernel, ?_⟩
  have hblocks : (loadDocumentSnapshot plainEnv noStorage (run plainEnv lease deletingRun) owner).toOption.map
      (·.blocks) = some [⟨py "p1", py "paragraph", 1, py "The tenant pays."⟩] := by
    decide +kernel
  have hnone : blocksFromText (getBaseText (run plainEnv lease deletingRun)) = [] := by
    decide +kernel
  unfold SeesCurrentText
  rw [hnone]
  rintro (⟨_, herror⟩ | ⟨snapshot, hsnapshot, hnil⟩)
  . rw [herror] at hblocks
    contradiction
  . rw [hsnapshot] at hblocks
    rw [Except.toOption, Option.map_some, hnil] at hblocks
    contradiction

end Snapshots

end DocumentVersions
