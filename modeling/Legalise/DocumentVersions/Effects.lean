import Legalise.DocumentVersions.Requests
import Legalise.Lib.Except

/-!
This module contains what each request does to the versions, the edits and the body of a document.
-/

namespace DocumentVersions

variable {E : Env} {s t : State} {decision : Option (Decision × (EditRow → Bool))}

section Insert

/--
One version is added, with a new id and the next number.
-/
structure Inserted (s t : State) (v : DocumentVersion) : Prop where
  versions : t.versions = s.versions ++ [v]
  number : v.versionNumber = maxVersionNumber s + 1
  fresh : ∀ w ∈ s.versions, w.id ≠ v.id

theorem insertVersion_eq_ok_iff {v : DocumentVersion}
    : insertVersion s v = .ok t
        ↔ (∀ w ∈ s.versions, w.id ≠ v.id ∧ w.versionNumber ≠ v.versionNumber)
          ∧ t = { s with versions := s.versions ++ [v] } := by
  unfold insertVersion
  have hany : (s.versions.any fun w => w.id = v.id || w.versionNumber = v.versionNumber) = true
      ↔ ¬ ∀ w ∈ s.versions, w.id ≠ v.id ∧ w.versionNumber ≠ v.versionNumber := by
    simp only [List.any_eq_true, Bool.or_eq_true, decide_eq_true_eq]
    grind
  split
  . next h =>
    have := hany.mp h
    simp [this]
  . next h =>
    rw [hany, not_not] at h
    constructor
    . intro hok
      cases hok
      exact ⟨h, rfl⟩
    . rintro ⟨_, rfl⟩
      rfl

theorem inserted_of_insertVersion {v : DocumentVersion} (h : insertVersion s v = .ok t)
    (hnumber : v.versionNumber = maxVersionNumber s + 1) : Inserted s t v := by
  have ⟨hfresh, heq⟩ := insertVersion_eq_ok_iff.mp h
  refine ⟨by rw [heq], hnumber, fun w hw => (hfresh w hw).left⟩

theorem le_maxVersionNumber {v : DocumentVersion} (h : v ∈ s.versions) : v.versionNumber ≤ maxVersionNumber s := by
  unfold maxVersionNumber
  have hmem : v.versionNumber ∈ s.versions.map (·.versionNumber) := List.mem_map_of_mem h
  cases hmax : (s.versions.map (·.versionNumber)).max? with
  | none =>
    rw [List.max?_eq_none_iff] at hmax
    rw [hmax] at hmem
    contradiction
  | some n => exact (List.max?_eq_some_iff.mp hmax).right _ hmem

end Insert

section Effect

/--
The edits of one version that are decided: pending ones that are chosen get the status of the decision.
-/
structure Decided (s t : State) (v : DocumentVersion) (d : Decision) (chosen : EditRow → Bool) : Prop where
  owner : d.actorId = s.matter.createdById
  version : v ∈ s.versions
  edits : t.edits = (updatePending s d chosen).edits
  own : ∀ row ∈ s.edits, chosen row = true → row.status = .pending → row.versionId = v.id
  body : t.body = s.body

/--
What a request with a decision on the chosen edits, or with none, does to the versions, the edits and the body.
-/
inductive Effect (decision : Option (Decision × (EditRow → Bool))) (s t : State) : Prop where
  | quiet (versions : t.versions = s.versions) (edits : t.edits = s.edits) (body : t.body = s.body)
  | proposed (v : DocumentVersion) (rows : List EditRow) (new : Inserted s t v) (kind : v.kind = .assistantEdit)
    (text : v.resolvedText = none) (edits : t.edits = s.edits ++ rows)
    (pending : ∀ row ∈ rows, row.status = .pending ∧ row.versionId = v.id)
    (nodup : (rows.map (·.id)).Nodup) (freshIds : ∀ row ∈ rows, row.id ∉ s.edits.map (·.id)) (body : t.body = s.body)
  | saved (v : DocumentVersion) (new : Inserted s t v) (kind : v.kind = .userEdit) (text : v.resolvedText.isSome)
    (edits : t.edits = s.edits) (body : t.body = s.body)
  | uploaded (v : DocumentVersion) (result : Matters.ExtractResult) (new : Inserted s t v) (kind : v.kind = .upload)
    (text : v.resolvedText = if result.extractionMethod = methodFailed then none else some result.extractedText)
    (edits : t.edits = s.edits) (body : t.body = some result)
  | restored (v : DocumentVersion) (result : Matters.ExtractResult) (new : Inserted s t v) (kind : v.kind = .restored)
    (text : result.extractedText = v.resolvedText.getD []) (edits : t.edits = s.edits) (body : t.body = some result)
  | decided (v : DocumentVersion) (d : Decision) (chosen : EditRow → Bool) (made : decision = some (d, chosen))
    (decided : Decided s t v d chosen)
    (versions : t.versions = s.versions)
    (blocked : 0 < pendingCount t v.id ∨ v.versionNumber < maxVersionNumber s)
  | closed (v : DocumentVersion) (d : Decision) (chosen : EditRow → Bool) (made : decision = some (d, chosen))
    (decided : Decided s t v d chosen)
    (none : pendingCount t v.id = 0) (latest : v.versionNumber = maxVersionNumber s)
    (new : Inserted s t (closingVersion (updatePending s d chosen) v d))
  | stoodIn (v w : DocumentVersion) (d : Decision) (chosen : EditRow → Bool) (made : decision = some (d, chosen))
    (decided : Decided s t v d chosen)
    (new : Inserted s t w) (kind : w.kind = .userAccept ∨ w.kind = .userReject)
    (text : w.resolvedText = some (getBaseText s)) (bare : latestTextVersion s = Option.none)
    (blocked : 0 < pendingCount t v.id ∨ v.versionNumber < maxVersionNumber s)

@[simp]
theorem maxVersionNumber_updatePending (d : Decision) (chosen : EditRow → Bool)
    : maxVersionNumber (updatePending s d chosen) = maxVersionNumber s :=
  rfl

@[simp]
theorem getBaseText_updatePending (d : Decision) (chosen : EditRow → Bool)
    : getBaseText (updatePending s d chosen) = getBaseText s :=
  rfl

theorem inserted_nextVersionNumber {v : DocumentVersion} (h : insertVersion s v = .ok t)
    (hnumber : v.versionNumber = nextVersionNumber s) : Inserted s t v :=
  inserted_of_insertVersion h hnumber

/--
What an insert leaves alone.
-/
theorem eq_of_insertVersion {v : DocumentVersion} (h : insertVersion s v = .ok t)
    : t = { s with versions := s.versions ++ [v] } :=
  (insertVersion_eq_ok_iff.mp h).right

theorem effect_proposeEdits {R : PyRepr} {r : EditInstruction} {v : DocumentVersion}
    (h : proposeEdits R s r = .ok (t, v)) : Effect decision s t := by
  unfold proposeEdits at h
  simp only [Except.bind_eq_ok_iff] at h
  obtain ⟨body, _, reply, _, u, hinsert, hrest⟩ := h
  split at hrest
  . next hids =>
    cases hrest
    have heq := eq_of_insertVersion hinsert
    have hnew := inserted_nextVersionNumber hinsert rfl
    refine .proposed _ _ ⟨hnew.versions, hnew.number, hnew.fresh⟩ rfl rfl ?_ ?_ hids.left ?_ ?_
    . simp [log, heq]
    . intro row hrow
      obtain ⟨change, _, hchange⟩ := List.mem_map.mp hrow
      rw [← hchange]
      exact ⟨rfl, rfl⟩
    . have hold := hids.right
      rw [heq] at hold
      exact hold
    . simp [log, heq]
  . contradiction

theorem effect_createUserEditVersion {r : UserEdit} {source : PyStr} {v : DocumentVersion}
    (h : createUserEditVersion E s r source = .ok (t, v)) : Effect decision s t := by
  unfold createUserEditVersion at h
  simp only [Except.bind_eq_ok_iff] at h
  obtain ⟨contents, _, u, hinsert, hrest⟩ := h
  cases hrest
  have heq := eq_of_insertVersion hinsert
  have hnew := inserted_nextVersionNumber hinsert rfl
  exact .saved _ ⟨hnew.versions, hnew.number, hnew.fresh⟩ rfl rfl (by simp [log, heq]) (by simp [log, heq])

theorem effect_saveUpload {files : List (PyStr × Bytes)} {r : VersionUpload} {mime key : PyStr} {v : DocumentVersion}
    (h : saveUpload E { s with files := files } r mime key = .ok (t, v)) : Effect decision s t := by
  unfold saveUpload at h
  simp only [Except.bind_eq_ok_iff] at h
  obtain ⟨u, hinsert, hrest⟩ := h
  cases hrest
  have heq := eq_of_insertVersion hinsert
  have hnew := inserted_nextVersionNumber hinsert rfl
  exact .uploaded _ (extract E.readers r.contents mime (uploadName s r.filename))
    ⟨hnew.versions, hnew.number, hnew.fresh⟩ rfl rfl (by simp [setBody, setFile, heq]) rfl

theorem effect_saveRestored {files : List (PyStr × Bytes)} {r : Restore} {source : DocumentVersion} {a : Restored}
    {v : DocumentVersion} (h : saveRestored { s with files := files } r source a = .ok (t, v)) : Effect decision s t := by
  unfold saveRestored at h
  simp only [Except.bind_eq_ok_iff] at h
  obtain ⟨u, hinsert, hrest⟩ := h
  cases hrest
  have heq := eq_of_insertVersion hinsert
  have hnew := inserted_nextVersionNumber hinsert rfl
  exact .restored _ _ ⟨hnew.versions, hnew.number, hnew.fresh⟩ rfl rfl (by simp [log, setBody, setFile, heq]) rfl

/--
A version is closed once none of its edits is pending, unless there is a newer one.
-/
theorem maybeCloseVersion_eq_ok_iff {v : DocumentVersion} {d : Decision} {new : Option DocumentVersion}
    : maybeCloseVersion s v d = .ok (t, new)
        ↔ ((0 < pendingCount s v.id ∨ v.versionNumber < maxVersionNumber s) ∧ t = s ∧ new = none)
          ∨ (pendingCount s v.id = 0 ∧ maxVersionNumber s ≤ v.versionNumber ∧ new = some (closingVersion s v d)
            ∧ ∃ u, insertVersion s (closingVersion s v d) = .ok u
              ∧ t = { u with audit := u.audit ++ closingLogs s v (closingVersion s v d) d }) := by
  unfold maybeCloseVersion
  split
  . next hpending =>
    simp only [Except.ok.injEq, Prod.mk.injEq]
    constructor
    . rintro ⟨rfl, rfl⟩
      exact .inl ⟨.inl hpending, rfl, rfl⟩
    . rintro (⟨_, rfl, rfl⟩ | ⟨hnone, _⟩)
      . exact ⟨rfl, rfl⟩
      . omega
  . next hpending =>
    split
    . next hnewer =>
      simp only [Except.ok.injEq, Prod.mk.injEq]
      constructor
      . rintro ⟨rfl, rfl⟩
        exact .inl ⟨.inr hnewer, rfl, rfl⟩
      . rintro (⟨_, rfl, rfl⟩ | ⟨_, hle, _⟩)
        . exact ⟨rfl, rfl⟩
        . omega
    . next hlatest =>
      simp only [Except.bind_eq_ok_iff, Except.pure_eq_ok_iff, Prod.mk.injEq]
      constructor
      . rintro ⟨u, hinsert, rfl, rfl⟩
        exact .inr ⟨by omega, by omega, rfl, u, hinsert, rfl⟩
      . rintro (⟨hor, _⟩ | ⟨_, _, rfl, u, hinsert, rfl⟩)
        . omega
        . exact ⟨u, hinsert, rfl, rfl⟩

theorem pendingCount_congr {versionId : Uuid} (h : t.edits = s.edits) : pendingCount t versionId = pendingCount s versionId := by
  unfold pendingCount editsOf
  rw [h]

/--
A decision on edits of a version that is perhaps closed by it.
-/
theorem effect_maybeCloseVersion {v : DocumentVersion} {d : Decision} {chosen : EditRow → Bool} {rows : List AuditLog}
    {new : Option DocumentVersion} (howner : d.actorId = s.matter.createdById) (hv : v ∈ s.versions)
    (hown : ∀ row ∈ s.edits, chosen row = true → row.status = .pending → row.versionId = v.id)
    (h : maybeCloseVersion { updatePending s d chosen with audit := s.audit ++ rows } v d = .ok (t, new))
    : (new = none ∧ Decided s t v d chosen ∧ t.versions = s.versions
          ∧ (0 < pendingCount t v.id ∨ v.versionNumber < maxVersionNumber s))
        ∨ (new = some (closingVersion (updatePending s d chosen) v d) ∧ Decided s t v d chosen
          ∧ pendingCount t v.id = 0 ∧ v.versionNumber = maxVersionNumber s
          ∧ Inserted s t (closingVersion (updatePending s d chosen) v d)) := by
  rcases maybeCloseVersion_eq_ok_iff.mp h with ⟨hor, rfl, rfl⟩ | ⟨hnone, hle, rfl, u, hinsert, rfl⟩
  . exact .inl ⟨rfl, ⟨howner, hv, rfl, hown, rfl⟩, rfl, hor⟩
  . right
    have heq := eq_of_insertVersion hinsert
    have hnew := inserted_of_insertVersion hinsert rfl
    have hle' : v.versionNumber ≤ maxVersionNumber s := le_maxVersionNumber hv
    have hmax : maxVersionNumber s ≤ v.versionNumber := hle
    refine ⟨rfl, ⟨howner, hv, ?_, hown, ?_⟩, ?_, Nat.le_antisymm hle' hmax, ⟨?_, hnew.number, hnew.fresh⟩⟩
    . rw [heq]
    . rw [heq]
      rfl
    . rw [← hnone]
      exact pendingCount_congr (by rw [heq])
    . exact hnew.versions

/--
What a decision on one edit does.
-/
theorem resolveEdit_eq_ok {editId : Uuid} {d : Decision} {result : EditRow} {new : Option DocumentVersion}
    (h : resolveEdit s editId d = .ok (t, result, new))
    : d.actorId = s.matter.createdById
        ∧ ∃ row v, row ∈ s.edits ∧ row.id = editId ∧ row.status = .pending ∧ v ∈ s.versions ∧ v.id = row.versionId
        ∧ maybeCloseVersion { updatePending s d (·.id = editId) with audit := s.audit ++ [resolutionLog s v d row] } v d
          = .ok (t, new) := by
  unfold resolveEdit at h
  cases hrow : s.edits.find? (·.id = editId) with
  | none => simp [hrow] at h
  | some row =>
    rw [hrow] at h
    dsimp only at h
    cases hv : s.versions.find? (·.id = row.versionId) with
    | none => simp [hv] at h
    | some v =>
      rw [hv] at h
      dsimp only at h
      split at h
      . contradiction
      . next howner =>
        split at h
        . contradiction
        . next hpending =>
          simp only [Except.bind_eq_ok_iff, Except.pure_eq_ok_iff] at h
          obtain ⟨⟨u, closing⟩, hclose, heq⟩ := h
          cases heq
          exact ⟨(not_not.mp howner).symm, row, v, List.mem_of_find?_eq_some hrow, by simpa using List.find?_some hrow,
            not_not.mp hpending, List.mem_of_find?_eq_some hv, by simpa using List.find?_some hv, hclose⟩

/--
What a decision on all edits of a version does.
-/
theorem resolveBulk_eq_ok {versionId : Uuid} {d : Decision} {count : Nat} {pointed : DocumentVersion}
    (h : resolveBulk s versionId d = .ok (t, count, pointed))
    : d.actorId = s.matter.createdById
        ∧ ∃ v u closing, v ∈ s.versions ∧ v.id = versionId
        ∧ maybeCloseVersion {
            updatePending s d (·.versionId = versionId) with
            audit := s.audit ++ (d.order.arrange ((editsOf s versionId).filter (·.status = .pending))).map
              (bulkResolutionLog s v d)
          } v d = .ok (u, closing)
        ∧ count = pendingCount s versionId
        ∧ ((closing = some pointed ∧ t = u) ∨ (closing = none ∧ standIn u v d = .ok (t, pointed))) := by
  unfold resolveBulk at h
  cases hv : s.versions.find? (·.id = versionId) with
  | none => simp [hv] at h
  | some v =>
    rw [hv] at h
    dsimp only at h
    split at h
    . contradiction
    . next howner =>
      simp only [Except.bind_eq_ok_iff] at h
      obtain ⟨⟨u, closing⟩, hclose, hrest⟩ := h
      have hcount : (d.order.arrange ((editsOf s versionId).filter (·.status = .pending))).length
          = pendingCount s versionId := by
        rw [(d.order.perm _).length_eq]
        rfl
      refine ⟨(not_not.mp howner).symm, v, u, closing, List.mem_of_find?_eq_some hv, by simpa using List.find?_some hv,
        hclose, ?_⟩
      cases closing with
      | some new =>
        cases hrest
        exact ⟨hcount, .inl ⟨rfl, rfl⟩⟩
      | none =>
        simp only [Except.bind_eq_ok_iff, Except.pure_eq_ok_iff] at hrest
        obtain ⟨⟨t', other⟩, hother, heq⟩ := hrest
        cases heq
        exact ⟨hcount, .inr ⟨rfl, hother⟩⟩

/--
The version that a bulk decision points at without closing one.
-/
theorem standIn_eq_ok {v w : DocumentVersion} {d : Decision} (h : standIn s v d = .ok (t, w))
    : (latestTextVersion s = some w ∧ t = s)
        ∨ (latestTextVersion s = none ∧ Inserted s t w ∧ (w.kind = .userAccept ∨ w.kind = .userReject)
          ∧ w.resolvedText = some (getBaseText s) ∧ t.edits = s.edits ∧ t.body = s.body) := by
  unfold standIn at h
  split at h
  . next latest hlatest =>
    cases h
    exact .inl ⟨hlatest, rfl⟩
  . next hnone =>
    simp only [Except.bind_eq_ok_iff, Except.pure_eq_ok_iff] at h
    obtain ⟨u, hinsert, heq⟩ := h
    cases heq
    have hu := eq_of_insertVersion hinsert
    refine .inr ⟨hnone, inserted_nextVersionNumber hinsert rfl, ?_, rfl, by rw [hu], by rw [hu]⟩
    dsimp only
    split
    . exact .inl rfl
    . exact .inr rfl

theorem effect_resolveEdit {editId : Uuid} {d : Decision} {result : EditRow} {new : Option DocumentVersion}
    (hids : (s.edits.map (·.id)).Nodup) (h : resolveEdit s editId d = .ok (t, result, new))
    : Effect (some (d, (·.id = editId))) s t := by
  have ⟨howner, row, v, hrow, hid, _, hv, hversion, hclose⟩ := resolveEdit_eq_ok h
  have hown : ∀ other ∈ s.edits, decide (other.id = editId) = true → other.status = .pending
      → other.versionId = v.id := by
    intro other hother hchosen _
    have : other = row := by
      apply List.inj_on_of_nodup_map hids hother hrow
      rw [hid]
      exact of_decide_eq_true hchosen
    rw [this, hversion]
  rcases effect_maybeCloseVersion howner hv hown hclose with ⟨_, hdecided, hversions, hor⟩ | ⟨_, hdecided, hnone, hlatest, hnew⟩
  . exact .decided v d _ rfl hdecided hversions hor
  . exact .closed v d _ rfl hdecided hnone hlatest hnew

theorem effect_resolveBulk {versionId : Uuid} {d : Decision} {count : Nat} {pointed : DocumentVersion}
    (h : resolveBulk s versionId d = .ok (t, count, pointed)) : Effect (some (d, (·.versionId = versionId))) s t := by
  have ⟨howner, v, u, closing, hv, hversion, hclose, _, hpointed⟩ := resolveBulk_eq_ok h
  have hown : ∀ row ∈ s.edits, decide (row.versionId = versionId) = true → row.status = .pending
      → row.versionId = v.id := by
    intro row _ hchosen _
    rw [hversion]
    exact of_decide_eq_true hchosen
  rcases effect_maybeCloseVersion howner hv hown hclose with ⟨hnone, hdecided, hversions, hor⟩ | ⟨hsome, hdecided, hnone, hlatest, hnew⟩
  . rcases hpointed with ⟨heq, _⟩ | ⟨_, hstandIn⟩
    . rw [hnone] at heq
      contradiction
    . rcases standIn_eq_ok hstandIn with ⟨_, heq⟩ | ⟨hbare, hnew, hkind, htext, hedits, hbody⟩
      . rw [heq]
        exact .decided v d _ rfl hdecided hversions hor
      . have hlatest : latestTextVersion u = latestTextVersion s := by
          unfold latestTextVersion
          rw [hversions]
        have hbase : getBaseText u = getBaseText s := by
          unfold getBaseText
          rw [hlatest, hdecided.body]
        have hmax : maxVersionNumber u = maxVersionNumber s := by
          unfold maxVersionNumber
          rw [hversions]
        refine .stoodIn v pointed d _ rfl ⟨howner, hv, ?_, hdecided.own, ?_⟩ ⟨?_, ?_, ?_⟩ hkind ?_ ?_ ?_
        . rw [hedits, hdecided.edits]
        . rw [hbody, hdecided.body]
        . rw [hnew.versions, hversions]
        . rw [hnew.number, hmax]
        . rw [← hversions]
          exact hnew.fresh
        . rw [htext, hbase]
        . rw [← hlatest, hbare]
        . rw [pendingCount_congr hedits]
          exact hor
  . rcases hpointed with ⟨_, heq⟩ | ⟨heq, _⟩
    . rw [heq]
      exact .closed v d _ rfl hdecided hnone hlatest hnew
    . rw [hsome] at heq
      contradiction

theorem effect_refl (s : State) : Effect decision s s :=
  .quiet rfl rfl rfl

/--
The working draft has no part in it.
-/
theorem Effect.withDraft (h : Effect decision s t) (draft : Option WorkingDraft) : Effect decision s { t with draft := draft } := by
  cases h with
  | quiet versions edits body => exact .quiet versions edits body
  | proposed v rows new kind text edits pending nodup freshIds body =>
    exact .proposed v rows ⟨new.versions, new.number, new.fresh⟩ kind text edits pending nodup freshIds body
  | saved v new kind text edits body => exact .saved v ⟨new.versions, new.number, new.fresh⟩ kind text edits body
  | uploaded v result new kind text edits body =>
    exact .uploaded v result ⟨new.versions, new.number, new.fresh⟩ kind text edits body
  | restored v result new kind text edits body =>
    exact .restored v result ⟨new.versions, new.number, new.fresh⟩ kind text edits body
  | decided v d chosen made decided versions blocked =>
    exact .decided v d chosen made ⟨decided.owner, decided.version, decided.edits, decided.own, decided.body⟩ versions blocked
  | closed v d chosen made decided none latest new =>
    exact .closed v d chosen made ⟨decided.owner, decided.version, decided.edits, decided.own, decided.body⟩ none latest
      ⟨new.versions, new.number, new.fresh⟩
  | stoodIn v w d chosen made decided new kind text bare blocked =>
    exact .stoodIn v w d chosen made ⟨decided.owner, decided.version, decided.edits, decided.own, decided.body⟩
      ⟨new.versions, new.number, new.fresh⟩ kind text bare blocked

theorem effect_transact {α : Type} {result : Except Failure (State × α)}
    (h : ∀ t a, result = .ok (t, a) → Effect decision s t) : Effect decision s (transact s result).fst := by
  unfold transact
  split
  . next t a => exact h t a rfl
  . exact effect_refl s

/--
The decision of a request and the edits that it is about.
-/
def Request.decisionOn : Request → Option (Decision × (EditRow → Bool))
  | .resolve editId d => some (d, (·.id = editId))
  | .resolveAll versionId d => some (d, (·.versionId = versionId))
  | _ => none

theorem effect_exec (hids : (s.edits.map (·.id)).Nodup) (r : Request) : Effect r.decisionOn s (exec E s r) := by
  cases r with
  | propose r => exact effect_transact fun t v h => effect_proposeEdits h
  | manual r =>
    refine effect_transact fun t v h => ?_
    unfold postManualDocumentVersion at h
    simp only [Except.bind_eq_ok_iff] at h
    obtain ⟨_, _, hsave⟩ := h
    exact effect_createUserEditVersion hsave
  | putDraft r =>
    refine effect_transact fun t draft h => ?_
    unfold putDocumentWorkingDraft at h
    simp only [Except.bind_eq_ok_iff] at h
    obtain ⟨_, _, written, _, hrest⟩ := h
    cases hrest
    exact .quiet rfl rfl rfl
  | commitDraft r =>
    refine effect_transact fun t v h => ?_
    unfold postDocumentWorkingDraftCommit at h
    simp only [Except.bind_eq_ok_iff] at h
    obtain ⟨_, _, draft, _, ⟨u, v'⟩, hsave, hrest⟩ := h
    cases hrest
    have heffect : Effect none s u := effect_createUserEditVersion hsave
    split
    . exact heffect.withDraft none
    . exact heffect
  | upload r =>
    unfold exec postUploadDocumentVersion
    dsimp only
    split
    . exact effect_refl s
    . next mime _ =>
      split
      . exact .quiet rfl rfl rfl
      . unfold transact
        split
        . next t v h => exact effect_saveUpload h
        . exact .quiet rfl rfl rfl
  | restore r =>
    unfold exec postRestoreDocumentVersion
    dsimp only
    split
    . exact effect_refl s
    . split
      . split
        . exact .quiet rfl rfl rfl
        . split
          . exact effect_refl s
          . exact effect_transact fun t v h => effect_saveRestored h
      . split
        . exact effect_refl s
        . split
          . exact .quiet rfl rfl rfl
          . unfold transact
            split
            . next t v h => exact effect_saveRestored h
            . exact .quiet rfl rfl rfl
  | resolve editId d => exact effect_transact fun t a h => effect_resolveEdit hids h
  | resolveAll versionId d => exact effect_transact fun t a h => effect_resolveBulk h
  | index embeds =>
    unfold exec indexDocument
    dsimp only
    split
    . exact .quiet rfl rfl rfl
    . exact .quiet rfl rfl rfl
    . split <;> exact .quiet rfl rfl rfl

end Effect

end DocumentVersions
