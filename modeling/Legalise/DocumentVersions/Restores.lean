import Legalise.DocumentVersions.Indexed

/-!
This module contains the stored files of a document, which are kept under their digests, and what a restore of a saved
version makes active.
-/

namespace DocumentVersions

open Matters (uploadedKey)

variable {E : Env} {s t : State} {v w : DocumentVersion}

section Restore

/--
A restore makes the text of its source the text of the new version and of the body, and its file is the stored one.
-/
structure Faithful (E : Env) (t : State) (v w : DocumentVersion) : Prop where
  text : w.resolvedText = v.resolvedText
  body : t.body.map (·.extractedText) = v.resolvedText
  file : ∃ uri contents, t.document.storageUri = some uri ∧ t.files.lookup uri = some contents
    ∧ t.document.sha256 = E.sha256 contents ∧ t.document.sizeBytes = contents.length

/--
The version has a text, and if it has a file, then reading this again fails or gives the text.
-/
def Rereads (E : Env) (s : State) (v : DocumentVersion) : Prop :=
  v.resolvedText ≠ none
    ∧ ∀ uri contents, v.storageUri.filter (· ≠ []) = some uri → s.files.lookup uri = some contents
      → (extract E.readers contents (sourceMime s v) (sourceName s v)).extractionMethod = methodFailed
        ∨ v.resolvedText = some (extract E.readers contents (sourceMime s v) (sourceName s v)).extractedText

theorem lookup_putBytes (key : PyStr) (contents : Bytes) : (putBytes s key contents).files.lookup key = some contents := by
  unfold putBytes
  dsimp only
  rw [Assign.lookup_assign, if_pos rfl]

/--
What a restore that succeeds has made of its source.
-/
theorem restored_eq_ok {r : Restore} (hsource : restoreSource s r = .ok v)
    (h : postRestoreDocumentVersion E s r = (t, .ok w))
    : ∃ a contents, w.resolvedText = a.resolvedText ∧ t.body.map (·.extractedText) = some (a.resolvedText.getD [])
        ∧ t.document.storageUri = some a.storageUri ∧ t.files.lookup a.storageUri = some contents
        ∧ t.document.sha256 = E.sha256 contents ∧ t.document.sizeBytes = contents.length
        ∧ ((∃ uri, v.storageUri.filter (· ≠ []) = some uri ∧ s.files.lookup uri = some contents
            ∧ a = restoredFile E s v uri contents)
          ∨ (v.storageUri.filter (· ≠ []) = none ∧ a.resolvedText = v.resolvedText)) := by
  have hsaved {u : State} {a : Restored} (hok : transact u (saveRestored u r v a) = (t, .ok w))
      : w.resolvedText = a.resolvedText ∧ Replaced u t (a.resolvedText.getD []) ∧ t.document.storageUri = some a.storageUri
        ∧ t.document.sha256 = a.sha256 ∧ t.document.sizeBytes = a.sizeBytes ∧ t.files = u.files := by
    rcases saveRestored_cases u r v a with ⟨_, t', w', heq, hrest⟩ | ⟨_, heq⟩
    . rw [heq] at hok
      cases hok
      exact hrest
    . rw [heq] at hok
      cases hok
  unfold postRestoreDocumentVersion at h
  rw [hsource] at h
  dsimp only at h
  cases huri : v.storageUri.filter (· ≠ []) with
  | some uri =>
    rw [huri] at h
    dsimp only at h
    cases hfault : r.storageFault with
    | some fault =>
      rw [hfault] at h
      cases h
    | none =>
      rw [hfault] at h
      dsimp only at h
      cases hfile : s.files.lookup uri with
      | none =>
        rw [hfile] at h
        cases h
      | some contents =>
        rw [hfile] at h
        have ⟨htext, hreplaced, hstored, hsha, hsize, hfiles⟩ := hsaved h
        exact ⟨restoredFile E s v uri contents, contents, htext, hreplaced.body, hstored, by rw [hfiles]; exact hfile,
          hsha, hsize, .inl ⟨uri, rfl, hfile, rfl⟩⟩
  | none =>
    rw [huri] at h
    dsimp only at h
    cases hencode : Utf8.encode (v.resolvedText.getD []) with
    | none =>
      rw [hencode] at h
      cases h
    | some contents =>
      rw [hencode] at h
      dsimp only at h
      cases hfault : r.storageFault with
      | some fault =>
        rw [hfault] at h
        cases h
      | none =>
        rw [hfault] at h
        have ⟨htext, hreplaced, hstored, hsha, hsize, hfiles⟩ := hsaved h
        exact ⟨restoredText E s r v contents, contents, htext, hreplaced.body, hstored,
          by rw [hfiles]; exact lookup_putBytes _ _, hsha, hsize, .inr ⟨rfl, rfl⟩⟩

/--
A restore is faithful if it saves the text of its source.
-/
theorem faithful_iff_of_made {a : Restored} {contents : Bytes} (htext : w.resolvedText = a.resolvedText)
    (hbody : t.body.map (·.extractedText) = some (a.resolvedText.getD []))
    (hstored : t.document.storageUri = some a.storageUri) (hlookup : t.files.lookup a.storageUri = some contents)
    (hsha : t.document.sha256 = E.sha256 contents) (hsize : t.document.sizeBytes = contents.length)
    : Faithful E t v w ↔ v.resolvedText ≠ none ∧ a.resolvedText = v.resolvedText := by
  constructor
  . intro hf
    refine ⟨fun hnone => ?_, htext.symm.trans hf.text⟩
    have := hf.body
    rw [hbody, hnone] at this
    contradiction
  . rintro ⟨hsome, hsame⟩
    have ⟨text, hsome⟩ := Option.ne_none_iff_exists'.mp hsome
    refine ⟨htext.trans hsame, ?_, _, contents, hstored, hlookup, hsha, hsize⟩
    rw [hbody, hsame, hsome]
    rfl

/--
A file gives its version the same text if reading it fails or gives the text.
-/
theorem restoredFile_text_iff (uri : PyStr) (contents : Bytes)
    : (restoredFile E s v uri contents).resolvedText = v.resolvedText
        ↔ (extract E.readers contents (sourceMime s v) (sourceName s v)).extractionMethod = methodFailed
          ∨ v.resolvedText = some (extract E.readers contents (sourceMime s v) (sourceName s v)).extractedText := by
  unfold restoredFile
  dsimp only
  split
  . next hfailed => exact iff_of_true rfl (.inl hfailed)
  . next hread =>
    rw [or_iff_right hread]
    exact eq_comm

theorem faithful_of_rereads {r : Restore} (hsource : restoreSource s r = .ok v)
    (h : postRestoreDocumentVersion E s r = (t, .ok w)) (hrereads : Rereads E s v) : Faithful E t v w := by
  have ⟨a, contents, htext, hbody, hstored, hlookup, hsha, hsize, hmade⟩ := restored_eq_ok hsource h
  refine (faithful_iff_of_made htext hbody hstored hlookup hsha hsize).mpr ⟨hrereads.left, ?_⟩
  rcases hmade with ⟨uri, huri, hfile, rfl⟩ | ⟨_, hsame⟩
  . exact (restoredFile_text_iff uri contents).mpr (hrereads.right uri contents huri hfile)
  . exact hsame

theorem rereads_of_faithful {r : Restore} (hsource : restoreSource s r = .ok v)
    (h : postRestoreDocumentVersion E s r = (t, .ok w)) (hfaithful : Faithful E t v w) : Rereads E s v := by
  have ⟨a, contents, htext, hbody, hstored, hlookup, hsha, hsize, hmade⟩ := restored_eq_ok hsource h
  have ⟨hsome, hsame⟩ := (faithful_iff_of_made htext hbody hstored hlookup hsha hsize).mp hfaithful
  refine ⟨hsome, fun uri' contents' huri' hfile' => ?_⟩
  rcases hmade with ⟨uri, huri, hfile, rfl⟩ | ⟨hnone, _⟩
  . cases huri.symm.trans huri'
    cases hfile.symm.trans hfile'
    exact (restoredFile_text_iff _ _).mp hsame
  . cases hnone.symm.trans huri'

/--
A restore is faithful if and only if its source has a text, which its file still gives where the file can be read.
-/
theorem faithful_iff_rereads (E : Env) (s t : State) (r : Restore) (v w : DocumentVersion)
    (hsource : restoreSource s r = .ok v) (h : postRestoreDocumentVersion E s r = (t, .ok w))
    : Faithful E t v w ↔ Rereads E s v :=
  ⟨rereads_of_faithful hsource h, faithful_of_rereads hsource h⟩

/--
A restore of a version under a new id.
-/
def restoring (source version : Nat) : Restore :=
  ⟨owner, Uuid.ofNat source, Uuid.ofNat version, none, none⟩

theorem eq_ok_of_map {ε α β : Type} {f : α → β} {result : Except ε α} {b : β} (h : result.toOption.map f = some b)
    : ∃ a, result = .ok a ∧ f a = b := by
  cases result with
  | ok a => exact ⟨a, rfl, Option.some.inj h⟩
  | error e => contradiction

theorem exists_eq_of_snd {α β : Type} {p : α × β} {b : β} (h : p.snd = b) : ∃ a, p = (a, b) :=
  ⟨p.fst, by rw [← h]⟩

/--
A manual version is restored.
-/
theorem faithful_iff_rereads_manualSave
    : ∃ t v w, restoreSource (run plainEnv lease [manualSave 2 "The lessee pays."]) (restoring 2 3) = .ok v
        ∧ postRestoreDocumentVersion plainEnv (run plainEnv lease [manualSave 2 "The lessee pays."]) (restoring 2 3)
          = (t, .ok w)
        ∧ (Faithful plainEnv t v w ↔ Rereads plainEnv (run plainEnv lease [manualSave 2 "The lessee pays."]) v) := by
  have hsource : (restoreSource (run plainEnv lease [manualSave 2 "The lessee pays."]) (restoring 2 3)).toOption.map
      (·.id) = some (Uuid.ofNat 2) := by
    decide +kernel
  have hrestored : (postRestoreDocumentVersion plainEnv (run plainEnv lease [manualSave 2 "The lessee pays."])
      (restoring 2 3)).snd.toOption.map (·.id) = some (Uuid.ofNat 3) := by
    decide +kernel
  have ⟨v, hsource, _⟩ := eq_ok_of_map hsource
  have ⟨w, hrestored, _⟩ := eq_ok_of_map hrestored
  have ⟨t, hpost⟩ := exists_eq_of_snd hrestored
  exact ⟨t, v, w, hsource, hpost, faithful_iff_rereads plainEnv _ t (restoring 2 3) v w hsource hpost⟩

/--
A text that starts with a blank is restored, and the restored version is restored again.
-/
def restoredOnce : State :=
  run plainEnv lease [manualSave 2 " The lessee pays.", .restore (restoring 2 3)]

/--
The blank is stripped by the second restore.
-/
theorem not_faithful_restoredTwice
    : ∃ t v w, restoreSource restoredOnce (restoring 3 4) = .ok v
        ∧ postRestoreDocumentVersion plainEnv restoredOnce (restoring 3 4) = (t, .ok w)
        ∧ ¬ Faithful plainEnv t v w := by
  have hsource : (restoreSource restoredOnce (restoring 3 4)).toOption.map (·.resolvedText)
      = some (some (py " The lessee pays.")) := by
    decide +kernel
  have hrestored : (postRestoreDocumentVersion plainEnv restoredOnce (restoring 3 4)).snd.toOption.map (·.resolvedText)
      = some (some (py "The lessee pays.")) := by
    decide +kernel
  have ⟨v, hsource, hbefore⟩ := eq_ok_of_map hsource
  have ⟨w, hrestored, hafter⟩ := eq_ok_of_map hrestored
  have ⟨t, hpost⟩ := exists_eq_of_snd hrestored
  refine ⟨t, v, w, hsource, hpost, fun hfaithful => ?_⟩
  have htext := hfaithful.text
  rw [hbefore, hafter] at htext
  revert htext
  decide

end Restore

section Storage

/--
The file of a version is stored under its digest, with the digest and the size that the version records. The text of an
upload is what its file gives.
-/
structure Addressed (E : Env) (s : State) (v : DocumentVersion) (uri : PyStr) (contents : Bytes) : Prop where
  key : ∃ userId matterId documentId, uri = uploadedKey userId matterId documentId (E.sha256 contents)
  lookup : s.files.lookup uri = some contents
  sha256 : v.sha256 = some (E.sha256 contents)
  sizeBytes : v.sizeBytes = some contents.length
  kind : v.kind = .upload ∨ v.kind = .restored
  upload : v.kind = .upload → v.resolvedText ≠ none → ∃ mime name, v.mimeType = some mime ∧ v.filename = some name
    ∧ mime ≠ [] ∧ name ≠ [] ∧ (extract E.readers contents mime name).extractionMethod ≠ methodFailed
    ∧ v.resolvedText = some (extract E.readers contents mime name).extractedText

/--
No version has lost its file.
-/
def ContentAddressed (E : Env) (s : State) : Prop :=
  ∀ v ∈ s.versions, ∀ uri, v.storageUri = some uri → ∃ contents, Addressed E s v uri contents

theorem length_str (u : Uuid) : u.str.length = 36 := by
  rw [Uuid.str_eq_out]
  unfold Uuid.out
  rw [List.length_flatMap]
  simp only [List.length_append, apply_ite List.length, List.length_cons, List.length_nil]
  decide

/--
A key has the digest of its file.
-/
theorem uploadedKey_inj {a b a' b' c c' : Uuid} {x y : PyStr} (h : uploadedKey a b c x = uploadedKey a' b' c' y)
    : x = y := by
  unfold uploadedKey at h
  refine (List.append_inj h ?_).right
  simp only [List.length_append, length_str]

/--
What is stored later does not change a file.
-/
theorem Addressed.keep (hsha : Function.Injective E.sha256) {uri : PyStr} {contents : Bytes}
    (h : Addressed E s v uri contents)
    (hfiles : t.files = s.files ∨ ∃ u actorId new, t.files = Assign.assign (fileKey E u actorId new) new s.files)
    : Addressed E t v uri contents := by
  refine ⟨h.key, ?_, h.sha256, h.sizeBytes, h.kind, h.upload⟩
  rcases hfiles with hfiles | ⟨u, actorId, new, hfiles⟩
  . rw [hfiles]
    exact h.lookup
  . rw [hfiles, Assign.lookup_assign]
    split
    . next heq =>
      have ⟨userId, matterId, documentId, hkey⟩ := h.key
      rw [hkey] at heq
      unfold fileKey at heq
      rw [hsha (uploadedKey_inj heq)]
    . exact h.lookup

theorem contentAddressed_of (hsha : Function.Injective E.sha256) (h : ContentAddressed E s)
    (hfiles : t.files = s.files ∨ ∃ u actorId new, t.files = Assign.assign (fileKey E u actorId new) new s.files)
    (hversions : ∀ v ∈ t.versions,
      v ∈ s.versions ∨ ∀ uri, v.storageUri = some uri → ∃ contents, Addressed E t v uri contents)
    : ContentAddressed E t := by
  intro v hv uri huri
  rcases hversions v hv with hv | hnew
  . have ⟨contents, haddressed⟩ := h v hv uri huri
    exact ⟨contents, haddressed.keep hsha hfiles⟩
  . exact hnew uri huri

theorem mem_of_lookup {key value : PyStr} {d : List (PyStr × PyStr)} (h : d.lookup key = some value)
    : key ∈ d.map Prod.fst := by
  have ⟨pair, hmem, hkey⟩ := List.lookup_isSome_iff.mp (Option.isSome_of_eq_some h)
  rw [LawfulBEq.eq_of_beq hkey]
  exact List.mem_map_of_mem hmem

theorem mime_ne_nil {contentType : Option PyStr} {contents : Bytes} {mime : PyStr}
    (h : validateUpload contentType contents = .ok mime) : mime ≠ [] := by
  unfold validateUpload at h
  dsimp only at h
  cases hlookup : Matters.mimeToFormat.lookup (contentType.getD []) with
  | none =>
    rw [hlookup] at h
    contradiction
  | some declared =>
    have hmime : mime = contentType.getD [] := by
      rw [hlookup] at h
      dsimp only at h
      split at h
      . contradiction
      . split at h
        . contradiction
        . cases h
          rfl
    have hmem := mem_of_lookup hlookup
    rw [hmime]
    rintro hnil
    rw [hnil] at hmem
    revert hmem
    decide

theorem uploadName_ne_nil (s : State) (filename : Option PyStr) : uploadName s filename ≠ [] := by
  have hne {name : Option PyStr} {text : PyStr} (h : name.filter (· ≠ []) = some text) : text ≠ [] := by
    simpa using (Option.filter_eq_some_iff.mp h).right
  unfold uploadName
  cases hname : filename.filter (· ≠ []) with
  | some name => exact hne hname
  | none =>
    cases hdocument : (some s.document.filename).filter (· ≠ []) with
    | some name => exact hne hdocument
    | none => decide

theorem contentAddressed_upload (hsha : Function.Injective E.sha256) (h : ContentAddressed E s) (r : VersionUpload)
    : ContentAddressed E (postUploadDocumentVersion E s r).fst := by
  unfold postUploadDocumentVersion
  cases hchecked : (do loadOwnedDocument s r.actorId; validateUpload r.contentType r.contents) with
  | error e => exact h
  | ok mime =>
    dsimp only
    have hmime : mime ≠ [] := by
      simp only [Except.bind_eq_ok_iff] at hchecked
      obtain ⟨_, _, hvalid⟩ := hchecked
      exact mime_ne_nil hvalid
    cases r.storageFault with
    | some fault => exact contentAddressed_of hsha h (.inl rfl) fun _ hv => .inl hv
    | none =>
      dsimp only
      unfold transact
      split
      . next t v hsave =>
        unfold saveUpload at hsave
        simp only [Except.bind_eq_ok_iff] at hsave
        obtain ⟨u, hinsert, hrest⟩ := hsave
        have hu := eq_of_insertVersion hinsert
        cases hrest
        refine contentAddressed_of hsha h (.inr ⟨s, r.actorId, r.contents, ?_⟩) ?_
        . rw [hu]
          rfl
        . intro w hw
          rw [hu] at hw
          rcases List.mem_append.mp hw with hw | hw
          . exact .inl hw
          . right
            rw [List.mem_singleton.mp hw]
            intro uri huri
            rw [← Option.some.inj huri]
            refine ⟨r.contents, ⟨_, _, _, rfl⟩, ?_, rfl, rfl, .inl rfl, ?_⟩
            . rw [hu]
              exact lookup_putBytes _ _
            . intro _ htext
              refine ⟨mime, _, rfl, rfl, hmime, uploadName_ne_nil _ _, ?_, ?_⟩
              . intro hfailed
                refine htext ?_
                dsimp only
                rw [if_pos hfailed]
              . dsimp only at htext ⊢
                split at htext
                . exact absurd rfl htext
                . next hread => rw [if_neg hread]
      . exact contentAddressed_of hsha h (.inr ⟨s, r.actorId, r.contents, rfl⟩) fun _ hv => .inl hv

theorem mem_of_restoreSource {r : Restore} (h : restoreSource s r = .ok v) : v ∈ s.versions := by
  unfold restoreSource at h
  simp only [Except.bind_eq_ok_iff] at h
  obtain ⟨_, _, hfound⟩ := h
  cases hfind : s.versions.find? (·.id = r.sourceId) with
  | none =>
    rw [hfind] at hfound
    contradiction
  | some source =>
    rw [hfind] at hfound
    dsimp only at hfound
    split at hfound
    . contradiction
    . cases hfound
      exact List.mem_of_find?_eq_some hfind

theorem contentAddressed_restore (hsha : Function.Injective E.sha256) (h : ContentAddressed E s) (r : Restore)
    : ContentAddressed E (postRestoreDocumentVersion E s r).fst := by
  unfold postRestoreDocumentVersion
  cases hsource : restoreSource s r with
  | error e => exact h
  | ok source =>
    dsimp only
    cases huri : source.storageUri.filter (· ≠ []) with
    | some uri =>
      dsimp only
      cases r.storageFault with
      | some fault => exact contentAddressed_of hsha h (.inl rfl) fun _ hv => .inl hv
      | none =>
        dsimp only
        cases hfile : s.files.lookup uri with
        | none => exact h
        | some contents =>
          dsimp only
          unfold transact
          split
          . next t v hsave =>
            unfold saveRestored at hsave
            simp only [Except.bind_eq_ok_iff] at hsave
            obtain ⟨u, hinsert, hrest⟩ := hsave
            have hu := eq_of_insertVersion hinsert
            cases hrest
            rw [hu]
            refine contentAddressed_of hsha h (.inl rfl) fun w hw => ?_
            rcases List.mem_append.mp hw with hw | hw
            . exact .inl hw
            . right
              rw [List.mem_singleton.mp hw]
              intro uri' huri'
              rw [← Option.some.inj huri']
              obtain ⟨contents', haddressed⟩ := h source (mem_of_restoreSource hsource) uri
                (Option.filter_eq_some_iff.mp huri).left
              have heq : contents' = contents := Option.some.inj (haddressed.lookup.symm.trans hfile)
              subst heq
              exact ⟨contents', haddressed.key, hfile, rfl, rfl, .inr rfl, fun hkind => by contradiction⟩
          . exact h
    | none =>
      dsimp only
      cases Utf8.encode (source.resolvedText.getD []) with
      | none => exact h
      | some contents =>
        dsimp only
        cases r.storageFault with
        | some fault => exact contentAddressed_of hsha h (.inl rfl) fun _ hv => .inl hv
        | none =>
          dsimp only
          unfold transact
          split
          . next t v hsave =>
            unfold saveRestored at hsave
            simp only [Except.bind_eq_ok_iff] at hsave
            obtain ⟨u, hinsert, hrest⟩ := hsave
            have hu := eq_of_insertVersion hinsert
            cases hrest
            rw [hu]
            refine contentAddressed_of hsha h (.inr ⟨s, r.actorId, contents, rfl⟩) fun w hw => ?_
            rcases List.mem_append.mp hw with hw | hw
            . exact .inl hw
            . right
              rw [List.mem_singleton.mp hw]
              intro uri huri
              rw [← Option.some.inj huri]
              exact ⟨contents, ⟨_, _, _, rfl⟩, lookup_putBytes _ _, rfl, rfl, .inr rfl, fun hkind => by contradiction⟩
          . exact contentAddressed_of hsha h (.inr ⟨s, r.actorId, contents, rfl⟩) fun _ hv => .inl hv

theorem contentAddressed_exec (hsha : Function.Injective E.sha256) (h : ContentAddressed E s) (r : Request)
    : ContentAddressed E (exec E s r) := by
  have hbeside (hr : r.isAboutFiles = false) : ContentAddressed E (exec E s r) := by
    have beside := beside_exec (E := E) s hr
    refine contentAddressed_of hsha h (.inl beside.files) fun v hv => ?_
    rcases beside.unfiled v hv with hv | hnone
    . exact .inl hv
    . refine .inr fun uri huri => ?_
      rw [hnone] at huri
      contradiction
  cases r with
  | upload r => exact contentAddressed_upload hsha h r
  | restore r => exact contentAddressed_restore hsha h r
  | index embeds =>
    have hindex : (indexDocument s embeds).files = s.files ∧ (indexDocument s embeds).versions = s.versions := by
      unfold indexDocument
      split
      . exact ⟨rfl, rfl⟩
      . exact ⟨rfl, rfl⟩
      . split <;> exact ⟨rfl, rfl⟩
    exact contentAddressed_of hsha h (.inl hindex.left) fun v hv => .inl (hindex.right ▸ hv)
  | propose r => exact hbeside rfl
  | manual r => exact hbeside rfl
  | putDraft r => exact hbeside rfl
  | commitDraft r => exact hbeside rfl
  | resolve editId d => exact hbeside rfl
  | resolveAll versionId d => exact hbeside rfl

theorem contentAddressed_uploaded (u : FirstUpload) : ContentAddressed E (uploaded E u) := by
  intro v hv uri huri
  rw [List.mem_singleton.mp hv] at huri ⊢
  rw [← Option.some.inj huri]
  exact ⟨u.contents, ⟨_, _, _, rfl⟩, by simp [uploaded], rfl, rfl, .inl rfl, fun _ htext => absurd rfl htext⟩

theorem contentAddressed_run (hsha : Function.Injective E.sha256) (u : FirstUpload) (requests : List Request)
    : ContentAddressed E (run E u requests) := by
  induction requests using List.reverseRecOn with
  | nil => exact contentAddressed_uploaded u
  | append_singleton requests r ih =>
    rw [run_concat]
    exact contentAddressed_exec hsha ih r

theorem textOr_some {text : PyStr} (h : text ≠ []) (default : PyStr) : textOr (some text) default = text := by
  unfold textOr
  rw [Option.filter_some, if_pos (decide_eq_true h)]
  rfl

/--
A version that is not a restored one and has a text gives it again.
-/
theorem rereads_of_contentAddressed (h : ContentAddressed E s) (hv : v ∈ s.versions) (hkind : v.kind ≠ .restored)
    (htext : v.resolvedText ≠ none) : Rereads E s v := by
  refine ⟨htext, fun uri contents huri hfile => ?_⟩
  have ⟨contents', haddressed⟩ := h v hv uri (Option.filter_eq_some_iff.mp huri).left
  cases haddressed.lookup.symm.trans hfile
  have ⟨mime, name, hmime, hname, hmimeNe, hnameNe, _, hsame⟩ :=
    haddressed.upload (haddressed.kind.resolve_right hkind) htext
  have hsourceMime : sourceMime s v = mime := by
    unfold sourceMime
    rw [hmime, textOr_some hmimeNe]
  have hsourceName : sourceName s v = name := by
    unfold sourceName
    rw [hname, textOr_some hnameNe]
  rw [hsourceMime, hsourceName]
  exact .inr hsame

/--
No stored file is lost or changed: what a version of a run has stored stays under the key that it records, with the
digest and the size that it records.
-/
theorem files_kept (E : Env) (hsha : Function.Injective E.sha256) (u : FirstUpload) (requests more : List Request)
    : ∀ v ∈ (run E u requests).versions, ∀ uri, v.storageUri = some uri → ∃ contents,
      (run E u requests).files.lookup uri = some contents ∧ (run E u (requests ++ more)).files.lookup uri = some contents
        ∧ v.sha256 = some (E.sha256 contents) ∧ v.sizeBytes = some contents.length := by
  intro v hv uri huri
  have ⟨contents, hbefore⟩ := contentAddressed_run hsha u requests v hv uri huri
  have ⟨contents', hafter⟩ := contentAddressed_run hsha u (requests ++ more) v
    ((prefix_versions u requests more).subset hv) uri huri
  have heq : contents' = contents := hsha (Option.some.inj (hafter.sha256.symm.trans hbefore.sha256))
  subst heq
  exact ⟨contents', hbefore.lookup, hafter.lookup, hbefore.sha256, hbefore.sizeBytes⟩

/--
In every run, a saved version with a text that was not restored itself is restored faithfully.
-/
theorem saved_restoredFaithfully (E : Env) (hsha : Function.Injective E.sha256) (u : FirstUpload)
    (requests : List Request) (r : Restore) (t : State) (v w : DocumentVersion)
    (hsource : restoreSource (run E u requests) r = .ok v)
    (h : postRestoreDocumentVersion E (run E u requests) r = (t, .ok w))
    (hkind : v.kind ≠ .restored) (htext : v.resolvedText ≠ none) : Faithful E t v w :=
  faithful_of_rereads hsource h
    (rereads_of_contentAddressed (contentAddressed_run hsha u requests) (mem_of_restoreSource hsource) hkind htext)

theorem sha256_plainEnv_injective : Function.Injective plainEnv.sha256 := by
  have hdelimiting : SelfDelimiting fun b : Byte => (fixedDigits 16 2 b.val).map digitPoint := by
    intro a b r s hab
    have ⟨hdigits, hrest⟩ := List.append_inj hab (by simp)
    have hlt (b : Byte) : b.val < 16 ^ 2 := by omega
    exact ⟨Fin.ext (map_digitPoint_inj (by omega) (by omega) (hlt a) (hlt b) hdigits), hrest⟩
  intro s t hst
  have hlen : s.length = t.length := by
    have := congrArg List.length hst
    simp only [plainEnv, List.length_flatMap, List.length_map, length_fixedDigits, List.map_const',
      List.sum_replicate, smul_eq_mul] at this
    omega
  have := @SelfDelimiting.flatMap_append_inj _ _ _ hdelimiting s t hlen [] [] (by
    rw [List.append_nil, List.append_nil]
    exact hst)
  exact this.left

theorem files_kept_lease
    : ∃ v ∈ (run plainEnv lease [manualSave 2 "The lessee pays."]).versions, ∃ uri, v.storageUri = some uri
        ∧ ∃ contents, (run plainEnv lease [manualSave 2 "The lessee pays."]).files.lookup uri = some contents
          ∧ (run plainEnv lease ([manualSave 2 "The lessee pays."] ++ [replacement 3 "Rent."])).files.lookup uri
            = some contents
          ∧ v.sha256 = some (plainEnv.sha256 contents) ∧ v.sizeBytes = some contents.length := by
  have hstored : ∃ v ∈ (run plainEnv lease [manualSave 2 "The lessee pays."]).versions, v.storageUri.isSome := by
    decide +kernel
  have ⟨v, hv, hsome⟩ := hstored
  have ⟨uri, huri⟩ := Option.isSome_iff_exists.mp hsome
  exact ⟨v, hv, uri, huri, files_kept plainEnv sha256_plainEnv_injective lease [manualSave 2 "The lessee pays."]
    [replacement 3 "Rent."] v hv uri huri⟩

/--
A replacement file is restored after a manual save.
-/
theorem saved_restoredFaithfully_replacement
    : ∃ t v w, restoreSource (run plainEnv lease [replacement 2 " Rent. ", manualSave 3 "Pay."]) (restoring 2 4) = .ok v
        ∧ postRestoreDocumentVersion plainEnv (run plainEnv lease [replacement 2 " Rent. ", manualSave 3 "Pay."])
          (restoring 2 4) = (t, .ok w)
        ∧ Faithful plainEnv t v w := by
  have hsource : (restoreSource (run plainEnv lease [replacement 2 " Rent. ", manualSave 3 "Pay."])
      (restoring 2 4)).toOption.map (fun v => (v.kind, v.resolvedText)) = some (.upload, some (py "Rent.")) := by
    decide +kernel
  have hrestored : (postRestoreDocumentVersion plainEnv (run plainEnv lease [replacement 2 " Rent. ", manualSave 3 "Pay."])
      (restoring 2 4)).snd.toOption.map (·.id) = some (Uuid.ofNat 4) := by
    decide +kernel
  have ⟨v, hsource, hv⟩ := eq_ok_of_map hsource
  have ⟨w, hrestored, _⟩ := eq_ok_of_map hrestored
  have ⟨t, hpost⟩ := exists_eq_of_snd hrestored
  rw [Prod.mk.injEq] at hv
  exact ⟨t, v, w, hsource, hpost, saved_restoredFaithfully plainEnv sha256_plainEnv_injective lease _ (restoring 2 4) t v w
    hsource hpost (by rw [hv.left]; decide) (by rw [hv.right]; decide)⟩

end Storage

end DocumentVersions
