import Legalise.DocumentVersions.Ledger
import Legalise.Lib.Runs
import Legalise.Retrieval.ChunkCover

/-!
This module contains which requests replace the extracted body, and when the chunks of the index are still those of
the body.
-/

namespace DocumentVersions

variable {E : Env} {s t : State}

section Bodies

/--
The id of a new version is not in use.
-/
def isFresh (s : State) (id : Uuid) : Bool :=
  s.versions.all (·.id ≠ id)

/--
The text that a request makes the extracted body.
-/
def replacedText (E : Env) (s : State) : Request → Option PyStr
  | .upload r =>
    match do loadOwnedDocument s r.actorId; validateUpload r.contentType r.contents with
    | .error _ => none
    | .ok mime =>
      if r.storageFault = none ∧ isFresh s r.versionId then
        some (extract E.readers r.contents mime (uploadName s r.filename)).extractedText
      else none
  | .restore r =>
    match restoreSource s r with
    | .error _ => none
    | .ok source =>
      if r.storageFault = none ∧ isFresh s r.versionId then
        match source.storageUri.filter (· ≠ []) with
        | some uri =>
          (s.files.lookup uri).map fun contents => (restoredFile E s source uri contents).resolvedText.getD []
        | none => (Utf8.encode (source.resolvedText.getD [])).map fun _ => source.resolvedText.getD []
      else none
  | _ => none

theorem isFresh_iff {id : Uuid} : isFresh s id = true ↔ ∀ v ∈ s.versions, v.id ≠ id := by
  simp [isFresh]

/--
An insert with the next number succeeds if the id is new.
-/
theorem insertVersion_eq {v : DocumentVersion} (hnumber : v.versionNumber = nextVersionNumber s)
    : insertVersion s v =
      if isFresh s v.id then .ok { s with versions := s.versions ++ [v] } else .error .integrity := by
  by_cases hfresh : isFresh s v.id = true
  . rw [if_pos hfresh, insertVersion_eq_ok_iff]
    refine ⟨fun w hw => ⟨isFresh_iff.mp hfresh w hw, fun heq => ?_⟩, rfl⟩
    have := le_maxVersionNumber hw
    unfold nextVersionNumber at hnumber
    omega
  . rw [if_neg hfresh]
    rw [isFresh_iff] at hfresh
    push Not at hfresh
    have ⟨w, hw, hid⟩ := hfresh
    unfold insertVersion
    rw [if_pos]
    exact List.any_eq_true.mpr ⟨w, hw, by simp [hid]⟩

/--
The body, the chunks and the document are not touched.
-/
structure SameIndex (s t : State) : Prop where
  body : t.body = s.body
  chunks : t.chunks = s.chunks
  document : t.document = s.document

theorem SameIndex.refl (s : State) : SameIndex s s :=
  ⟨rfl, rfl, rfl⟩

/--
No file is touched either, and a version that is added has none.
-/
structure Beside (s t : State) : Prop extends SameIndex s t where
  files : t.files = s.files
  unfiled : ∀ v ∈ t.versions, v ∈ s.versions ∨ v.storageUri = none

theorem Beside.refl (s : State) : Beside s s :=
  ⟨.refl s, rfl, fun _ hv => .inl hv⟩

theorem Beside.trans {u : State} (hst : Beside s t) (htu : Beside t u) : Beside s u := by
  refine ⟨⟨htu.body.trans hst.body, htu.chunks.trans hst.chunks, htu.document.trans hst.document⟩,
    htu.files.trans hst.files, fun v hv => ?_⟩
  rcases htu.unfiled v hv with hv | hnone
  . exact hst.unfiled v hv
  . exact .inr hnone

theorem beside_transact {α : Type} {result : Except Failure (State × α)}
    (h : ∀ t a, result = .ok (t, a) → Beside s t) : Beside s (transact s result).fst := by
  unfold transact
  split
  . next t a => exact h t a rfl
  . exact .refl s

theorem beside_insertVersion {v : DocumentVersion} (h : insertVersion s v = .ok t) (hnone : v.storageUri = none)
    : Beside s t := by
  rw [eq_of_insertVersion h]
  refine ⟨⟨rfl, rfl, rfl⟩, rfl, fun w hw => ?_⟩
  rcases List.mem_append.mp hw with hw | hw
  . exact .inl hw
  . rw [List.mem_singleton.mp hw]
    exact .inr hnone

/--
What is changed without the versions, the files, the body, the chunks and the document.
-/
theorem Beside.congr {u : State} (h : Beside s t) (hsame : SameIndex t u) (hfiles : u.files = t.files)
    (hversions : u.versions = t.versions) : Beside s u :=
  h.trans ⟨hsame, hfiles, fun _ hv => .inl (hversions ▸ hv)⟩

theorem beside_proposeEdits {R : PyRepr} {r : EditInstruction} {v : DocumentVersion}
    (h : proposeEdits R s r = .ok (t, v)) : Beside s t := by
  unfold proposeEdits at h
  simp only [Except.bind_eq_ok_iff] at h
  obtain ⟨body, _, reply, _, u, hinsert, hrest⟩ := h
  split at hrest
  . cases hrest
    exact (beside_insertVersion hinsert rfl).congr ⟨rfl, rfl, rfl⟩ rfl rfl
  . contradiction

theorem beside_createUserEditVersion {r : UserEdit} {source : PyStr} {v : DocumentVersion}
    (h : createUserEditVersion E s r source = .ok (t, v)) : Beside s t := by
  unfold createUserEditVersion at h
  simp only [Except.bind_eq_ok_iff] at h
  obtain ⟨contents, _, u, hinsert, hrest⟩ := h
  cases hrest
  exact (beside_insertVersion hinsert rfl).congr ⟨rfl, rfl, rfl⟩ rfl rfl

theorem beside_maybeCloseVersion {v : DocumentVersion} {d : Decision} {new : Option DocumentVersion}
    (h : maybeCloseVersion s v d = .ok (t, new)) : Beside s t := by
  rcases maybeCloseVersion_eq_ok_iff.mp h with ⟨_, rfl, _⟩ | ⟨_, _, _, u, hinsert, rfl⟩
  . exact .refl t
  . exact (beside_insertVersion hinsert rfl).congr ⟨rfl, rfl, rfl⟩ rfl rfl

theorem beside_standIn {v w : DocumentVersion} {d : Decision} (h : standIn s v d = .ok (t, w)) : Beside s t := by
  unfold standIn at h
  split at h
  . cases h
    exact .refl s
  . simp only [Except.bind_eq_ok_iff, Except.pure_eq_ok_iff] at h
    obtain ⟨u, hinsert, heq⟩ := h
    cases heq
    exact beside_insertVersion hinsert rfl

theorem beside_decided {d : Decision} {chosen : EditRow → Bool} {rows : List AuditLog}
    (h : Beside { updatePending s d chosen with audit := s.audit ++ rows } t) : Beside s t :=
  ⟨⟨h.body, h.chunks, h.document⟩, h.files, h.unfiled⟩

theorem beside_resolveEdit {editId : Uuid} {d : Decision} {result : EditRow} {new : Option DocumentVersion}
    (h : resolveEdit s editId d = .ok (t, result, new)) : Beside s t := by
  have ⟨_, row, v, _, _, _, _, _, hclose⟩ := resolveEdit_eq_ok h
  exact beside_decided (beside_maybeCloseVersion hclose)

theorem beside_resolveBulk {versionId : Uuid} {d : Decision} {count : Nat} {pointed : DocumentVersion}
    (h : resolveBulk s versionId d = .ok (t, count, pointed)) : Beside s t := by
  have ⟨_, v, u, closing, _, _, hclose, _, hpointed⟩ := resolveBulk_eq_ok h
  have hu : Beside s u := beside_decided (beside_maybeCloseVersion hclose)
  rcases hpointed with ⟨_, rfl⟩ | ⟨_, hstandIn⟩
  . exact hu
  . exact hu.trans (beside_standIn hstandIn)

/--
A request about files or the index.
-/
def Request.isAboutFiles : Request → Bool
  | .upload _ => true
  | .restore _ => true
  | .index _ => true
  | _ => false

theorem beside_exec (s : State) {r : Request} (h : r.isAboutFiles = false) : Beside s (exec E s r) := by
  cases r with
  | propose r => exact beside_transact fun t v h => beside_proposeEdits h
  | manual r =>
    refine beside_transact fun t v h => ?_
    unfold postManualDocumentVersion at h
    simp only [Except.bind_eq_ok_iff] at h
    obtain ⟨_, _, hsave⟩ := h
    exact beside_createUserEditVersion hsave
  | putDraft r =>
    refine beside_transact fun t draft h => ?_
    unfold putDocumentWorkingDraft at h
    simp only [Except.bind_eq_ok_iff] at h
    obtain ⟨_, _, written, _, hrest⟩ := h
    cases hrest
    exact (Beside.refl s).congr ⟨rfl, rfl, rfl⟩ rfl rfl
  | commitDraft r =>
    refine beside_transact fun t v h => ?_
    unfold postDocumentWorkingDraftCommit at h
    simp only [Except.bind_eq_ok_iff] at h
    obtain ⟨_, _, draft, _, ⟨u, v'⟩, hsave, hrest⟩ := h
    cases hrest
    have hu := beside_createUserEditVersion hsave
    split
    . exact hu.congr ⟨rfl, rfl, rfl⟩ rfl rfl
    . exact hu
  | resolve editId d => exact beside_transact fun t a h => beside_resolveEdit h
  | resolveAll versionId d => exact beside_transact fun t a h => beside_resolveBulk h
  | upload r => contradiction
  | restore r => contradiction
  | index embeds => contradiction

/--
The body has a new text, and the index is not touched.
-/
structure Replaced (s t : State) (text : PyStr) : Prop where
  body : t.body.map (·.extractedText) = some text
  chunks : t.chunks = s.chunks
  indexStatus : t.document.indexStatus = s.document.indexStatus

/--
An upload succeeds if the id of its version is new, and replaces the body then.
-/
theorem saveUpload_cases (E : Env) (s : State) (r : VersionUpload) (mime key : PyStr)
    : (isFresh s r.versionId = true ∧ ∃ t v, saveUpload E s r mime key = .ok (t, v)
          ∧ Replaced s t (extract E.readers r.contents mime (uploadName s r.filename)).extractedText)
        ∨ (isFresh s r.versionId = false ∧ saveUpload E s r mime key = .error .integrity) := by
  unfold saveUpload
  dsimp only
  rw [insertVersion_eq rfl]
  dsimp only
  cases isFresh s r.versionId with
  | true => exact .inl ⟨rfl, _, _, rfl, rfl, rfl, rfl⟩
  | false => exact .inr ⟨rfl, rfl⟩

theorem saveRestored_cases (s : State) (r : Restore) (source : DocumentVersion) (a : Restored)
    : (isFresh s r.versionId = true ∧ ∃ t v, saveRestored s r source a = .ok (t, v)
          ∧ v.resolvedText = a.resolvedText ∧ Replaced s t (a.resolvedText.getD [])
          ∧ t.document.storageUri = some a.storageUri ∧ t.document.sha256 = a.sha256
          ∧ t.document.sizeBytes = a.sizeBytes ∧ t.files = s.files)
        ∨ (isFresh s r.versionId = false ∧ saveRestored s r source a = .error .integrity) := by
  unfold saveRestored
  dsimp only
  rw [insertVersion_eq rfl]
  dsimp only
  cases isFresh s r.versionId with
  | true => exact .inl ⟨rfl, _, _, rfl, rfl, ⟨rfl, rfl, rfl⟩, rfl, rfl, rfl, rfl⟩
  | false => exact .inr ⟨rfl, rfl⟩

/--
The outcome of a request for the body and the index, if it is not the index that is built.
-/
def BodyOutcome (s t : State) (text : Option PyStr) : Prop :=
  (∃ new, text = some new ∧ Replaced s t new) ∨ (text = none ∧ SameIndex s t)

theorem bodyOutcome_upload (s : State) (r : VersionUpload)
    : BodyOutcome s (postUploadDocumentVersion E s r).fst (replacedText E s (.upload r)) := by
  unfold postUploadDocumentVersion replacedText
  dsimp only
  generalize (do loadOwnedDocument s r.actorId; validateUpload r.contentType r.contents) = checked
  cases checked with
  | error e => exact .inr ⟨rfl, .refl s⟩
  | ok mime =>
    dsimp only
    cases r.storageFault with
    | some fault =>
      rw [if_neg (by simp)]
      exact .inr ⟨rfl, ⟨rfl, rfl, rfl⟩⟩
    | none =>
      dsimp only
      rcases saveUpload_cases E (putBytes s (fileKey E s r.actorId r.contents) r.contents) r mime
          (fileKey E s r.actorId r.contents) with ⟨hfresh, t, v, heq, hreplaced⟩ | ⟨hstale, heq⟩
      . rw [if_pos ⟨rfl, hfresh⟩, heq]
        exact .inl ⟨_, rfl, hreplaced.body, hreplaced.chunks, hreplaced.indexStatus⟩
      . have hstale : isFresh s r.versionId = false := hstale
        rw [if_neg (by simp [hstale]), heq]
        exact .inr ⟨rfl, ⟨rfl, rfl, rfl⟩⟩

theorem bodyOutcome_restore (s : State) (r : Restore)
    : BodyOutcome s (postRestoreDocumentVersion E s r).fst (replacedText E s (.restore r)) := by
  unfold postRestoreDocumentVersion replacedText
  dsimp only
  cases restoreSource s r with
  | error e => exact .inr ⟨rfl, .refl s⟩
  | ok source =>
    dsimp only
    have hsaved (files : List (PyStr × Bytes)) (a : Restored) (text : PyStr) (htext : a.resolvedText.getD [] = text)
        : BodyOutcome s (transact { s with files := files } (saveRestored { s with files := files } r source a)).fst
          (if isFresh s r.versionId then some text else none) := by
      subst htext
      rcases saveRestored_cases { s with files := files } r source a with ⟨hfresh, t, v, heq, _, hreplaced, _⟩ | ⟨hstale, heq⟩
      . have hfresh : isFresh s r.versionId = true := hfresh
        rw [if_pos hfresh, heq]
        exact .inl ⟨_, rfl, hreplaced.body, hreplaced.chunks, hreplaced.indexStatus⟩
      . have hstale : isFresh s r.versionId = false := hstale
        rw [hstale, heq]
        exact .inr ⟨rfl, ⟨rfl, rfl, rfl⟩⟩
    cases source.storageUri.filter (· ≠ []) with
    | some uri =>
      dsimp only
      cases r.storageFault with
      | some fault =>
        rw [if_neg (by simp)]
        exact .inr ⟨rfl, ⟨rfl, rfl, rfl⟩⟩
      | none =>
        dsimp only
        cases s.files.lookup uri with
        | none => exact .inr ⟨by simp, .refl s⟩
        | some contents =>
          have houtcome := hsaved s.files (restoredFile E s source uri contents) _ rfl
          simpa using houtcome
    | none =>
      dsimp only
      cases Utf8.encode (source.resolvedText.getD []) with
      | none => exact .inr ⟨by simp, .refl s⟩
      | some contents =>
        dsimp only
        cases r.storageFault with
        | some fault =>
          rw [if_neg (by simp)]
          exact .inr ⟨rfl, ⟨rfl, rfl, rfl⟩⟩
        | none =>
          have houtcome := hsaved (putBytes s (restoredText E s r source contents).storageUri contents).files
            (restoredText E s r source contents) _ rfl
          rw [Option.map_some]
          simp only [true_and]
          exact houtcome

/--
A request that does not build the index replaces the body with a text, or leaves the body and the index as they are.
-/
theorem bodyOutcome_exec (s : State) (r : Request) (hindex : ∀ embeds, r ≠ .index embeds)
    : BodyOutcome s (exec E s r) (replacedText E s r) := by
  cases r with
  | upload r => exact bodyOutcome_upload s r
  | restore r => exact bodyOutcome_restore s r
  | index embeds => exact absurd rfl (hindex embeds)
  | propose r => exact .inr ⟨rfl, (beside_exec s rfl).toSameIndex⟩
  | manual r => exact .inr ⟨rfl, (beside_exec s rfl).toSameIndex⟩
  | putDraft r => exact .inr ⟨rfl, (beside_exec s rfl).toSameIndex⟩
  | commitDraft r => exact .inr ⟨rfl, (beside_exec s rfl).toSameIndex⟩
  | resolve editId d => exact .inr ⟨rfl, (beside_exec s rfl).toSameIndex⟩
  | resolveAll versionId d => exact .inr ⟨rfl, (beside_exec s rfl).toSameIndex⟩

end Bodies

section Index

def bodyText (s : State) : PyStr :=
  (s.body.map (·.extractedText)).getD []

/--
The chunks are those of the extracted body, and so is every text that a citation gives.
-/
structure DescribesBody (s : State) : Prop where
  chunks : bodyChunks s = .ok s.chunks
  slices : ∀ c ∈ s.chunks, c.text = PyStr.slice (bodyText s) c.charStart c.charEnd

/--
An index that is said to be built describes the body.
-/
def IndexCurrent (s : State) : Prop :=
  s.document.indexStatus = indexIndexed → DescribesBody s

/--
A request that gives the body of an indexed document a new text gives it one with the same chunks.
-/
def KeepsChunks (E : Env) (s : State) (r : Request) : Prop :=
  s.document.indexStatus = indexIndexed → ∀ text, replacedText E s r = some text
    → Retrieval.chunkText text defaultTargetChars defaultOverlapChars = bodyChunks s

theorem describesBody_iff : DescribesBody s ↔ bodyChunks s = .ok s.chunks := by
  refine ⟨fun h => h.chunks, fun h => ⟨h, fun c hc => ?_⟩⟩
  have ⟨chunks, hchunks, hcovers⟩ := Retrieval.covers_chunkText (bodyText s) defaultTargetChars defaultOverlapChars
    (by decide)
  have heq : chunks = s.chunks := by
    unfold bodyChunks at h
    unfold bodyText at hchunks
    rw [h] at hchunks
    exact (Except.ok.inj hchunks).symm
  subst heq
  refine (hcovers fun hblank => ?_).slices c hc
  have hnone : Retrieval.chunkText (bodyText s) defaultTargetChars defaultOverlapChars = .ok [] := by
    unfold Retrieval.chunkText
    rw [if_neg (by decide), if_pos hblank]
  rw [hnone] at hchunks
  rw [← Except.ok.inj hchunks] at hc
  contradiction

theorem bodyChunks_eq (s : State)
    : bodyChunks s = Retrieval.chunkText (bodyText s) defaultTargetChars defaultOverlapChars :=
  rfl

/--
What a run of the index leaves is current.
-/
theorem indexCurrent_indexDocument (s : State) (embeds : Bool) : IndexCurrent (indexDocument s embeds) := by
  intro hindexed
  have hbody (status : PyStr) (chunks : List Retrieval.Chunk) : bodyChunks (setIndex s status chunks) = bodyChunks s :=
    rfl
  rw [describesBody_iff]
  unfold indexDocument at hindexed ⊢
  cases hchunks : bodyChunks s with
  | error e =>
    rw [hchunks] at hindexed
    exact absurd hindexed (by decide : indexFailed ≠ indexIndexed)
  | ok chunks =>
    rw [hchunks] at hindexed
    cases chunks with
    | nil => exact absurd hindexed (by decide : indexEmpty ≠ indexIndexed)
    | cons c cs =>
      cases embeds with
      | true => exact hchunks
      | false => exact absurd hindexed (by decide : indexFailed ≠ indexIndexed)

theorem indexCurrent_step (s : State) (r : Request) (h : IndexCurrent s)
    : IndexCurrent (exec E s r) ↔ KeepsChunks E s r := by
  by_cases hindex : ∃ embeds, r = .index embeds
  . have ⟨embeds, heq⟩ := hindex
    subst heq
    exact iff_of_true (indexCurrent_indexDocument s embeds) fun _ text htext => by contradiction
  . push Not at hindex
    unfold IndexCurrent KeepsChunks
    simp only [describesBody_iff] at h ⊢
    unfold IndexCurrent at h
    simp only [describesBody_iff] at h
    rcases bodyOutcome_exec (E := E) s r hindex with ⟨new, htext, hreplaced⟩ | ⟨htext, hsame⟩
    . have hbody : bodyText (exec E s r) = new := by
        unfold bodyText
        rw [hreplaced.body]
        rfl
      rw [hreplaced.indexStatus, bodyChunks_eq (exec E s r), hbody, hreplaced.chunks, htext]
      constructor
      . intro hafter hindexed text heq
        cases heq
        rw [hafter hindexed, h hindexed]
      . intro hkeeps hindexed
        rw [hkeeps hindexed new rfl, h hindexed]
    . have hbody : bodyText (exec E s r) = bodyText s := by
        unfold bodyText
        rw [hsame.body]
      rw [hsame.document, bodyChunks_eq (exec E s r), hbody, hsame.chunks, htext]
      exact iff_of_true h fun _ text heq => by contradiction

theorem indexCurrent_uploaded (u : FirstUpload) : IndexCurrent (uploaded E u) :=
  fun hindexed => absurd hindexed (by decide : indexPending ≠ indexIndexed)

variable (E) in
/--
The index describes the body in all states of a run if and only if no request of the run gives the body of an indexed
document a text with other chunks.
-/
theorem indexCurrent_iff (u : FirstUpload) (requests : List Request)
    : (∀ earlier, earlier <+: requests → IndexCurrent (run E u earlier))
        ↔ ∀ earlier r, earlier ++ [r] <+: requests → KeepsChunks E (run E u earlier) r :=
  @Runs.holds_iff_good State Request (exec E) (fun _ => True) IndexCurrent (KeepsChunks E)
    (fun _ _ _ => trivial) (fun s r _ => indexCurrent_step s r) (uploaded E u) trivial (indexCurrent_uploaded u) requests

/--
A replacement file with the text.
-/
def replacement (version : Nat) (text : String) : Request :=
  .upload {
    actorId := owner
    versionId := Uuid.ofNat version
    filename := some (py "lease.txt")
    contentType := some (py "text/plain")
    contents := (py text).flatMap Utf8.encodePoint
    notes := none
    storageFault := none
  }

/--
The chunks of the old text stay, and so does the status.
-/
theorem not_indexCurrent_replacement
    : ¬ ∀ earlier, earlier <+: [.index true, replacement 2 "The lessee pays."]
        → IndexCurrent (run plainEnv lease earlier) := by
  intro h
  have hafter := h _ (List.prefix_refl _) (by decide +kernel)
  have hslices := hafter.slices ⟨0, py "The tenant pays.", 0, 16⟩ (by decide +kernel)
  revert hslices
  decide +kernel

end Index

end DocumentVersions
