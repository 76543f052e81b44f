import Legalise.DocumentVersions.Effects

/-!
This module contains the history of a document: its versions are numbered in the order of their creation and are never
changed, and its edits are decided once.
-/

namespace DocumentVersions

variable {E : Env} {s t : State} {decision : Option (Decision × (EditRow → Bool))}

section History

/--
Versions have the numbers from one on, ids are distinct, and edits hang on proposals, which have no text.
-/
structure Ledger (s : State) : Prop where
  numbers : s.versions.map (·.versionNumber) = List.range' 1 s.versions.length
  ids : (s.versions.map (·.id)).Nodup
  editIds : (s.edits.map (·.id)).Nodup
  hang : ∀ row ∈ s.edits, ∃ v ∈ s.versions, v.id = row.versionId ∧ v.kind = .assistantEdit
  textless : ∀ v ∈ s.versions, v.kind = .assistantEdit → v.resolvedText = none

theorem Ledger.maxVersionNumber_eq (h : Ledger s) : maxVersionNumber s = s.versions.length := by
  unfold maxVersionNumber
  rw [h.numbers]
  cases hlength : s.versions.length with
  | zero => rfl
  | succ n =>
    have : (List.range' 1 (n + 1)).max? = some (n + 1) := by
      rw [List.max?_eq_some_iff]
      constructor
      . rw [List.mem_range'_1]
        omega
      . intro m hm
        rw [List.mem_range'_1] at hm
        omega
    rw [this]
    rfl

theorem Ledger.eq_of_id (h : Ledger s) {v w : DocumentVersion} (hv : v ∈ s.versions) (hw : w ∈ s.versions)
    (heq : v.id = w.id) : v = w :=
  List.inj_on_of_nodup_map h.ids hv hw heq

theorem Ledger.eq_of_editId (h : Ledger s) {a b : EditRow} (ha : a ∈ s.edits) (hb : b ∈ s.edits)
    (heq : a.id = b.id) : a = b :=
  List.inj_on_of_nodup_map h.editIds ha hb heq

/--
The part of the ledger that is about versions.
-/
theorem Inserted.numbers {v : DocumentVersion} (h : Ledger s) (new : Inserted s t v)
    : t.versions.map (·.versionNumber) = List.range' 1 t.versions.length := by
  rw [new.versions, List.map_append, List.map_singleton, List.length_append, List.length_singleton,
    List.range'_1_concat, h.numbers, new.number, h.maxVersionNumber_eq, Nat.add_comm]

theorem Inserted.ids {v : DocumentVersion} (h : Ledger s) (new : Inserted s t v)
    : (t.versions.map (·.id)).Nodup := by
  rw [new.versions, List.map_append, List.map_singleton, List.nodup_append]
  refine ⟨h.ids, List.nodup_singleton _, ?_⟩
  rintro id hid _ hmem heq
  rw [List.mem_singleton.mp hmem] at heq
  have ⟨w, hw, hwid⟩ := List.mem_map.mp hid
  exact new.fresh w hw (hwid.trans heq)

theorem Inserted.mem {v w : DocumentVersion} (new : Inserted s t v) (hw : w ∈ s.versions) : w ∈ t.versions := by
  rw [new.versions]
  exact List.mem_append_left _ hw

theorem Inserted.mem_iff {v w : DocumentVersion} (new : Inserted s t v) : w ∈ t.versions ↔ w ∈ s.versions ∨ w = v := by
  rw [new.versions, List.mem_append, List.mem_singleton]

theorem ids_updatePending (d : Decision) (chosen : EditRow → Bool)
    : (updatePending s d chosen).edits.map (·.id) = s.edits.map (·.id) := by
  unfold updatePending
  rw [List.map_map]
  refine List.map_congr_left fun row _ => ?_
  dsimp only [Function.comp]
  split <;> rfl

/--
The edits after a decision hang where they did.
-/
theorem versionId_of_mem_updatePending {d : Decision} {chosen : EditRow → Bool} {row : EditRow}
    (h : row ∈ (updatePending s d chosen).edits) : ∃ old ∈ s.edits, old.versionId = row.versionId := by
  have ⟨old, hold, heq⟩ := List.mem_map.mp h
  refine ⟨old, hold, ?_⟩
  rw [← heq]
  split <;> rfl

theorem ledger_of_inserted {v : DocumentVersion} (h : Ledger s) (new : Inserted s t v)
    (htext : v.kind = .assistantEdit → v.resolvedText = none) (hids : (t.edits.map (·.id)).Nodup)
    (hhang : ∀ row ∈ t.edits, ∃ w ∈ t.versions, w.id = row.versionId ∧ w.kind = .assistantEdit) : Ledger t := by
  refine ⟨new.numbers h, new.ids h, hids, hhang, ?_⟩
  intro w hw hkind
  rcases new.mem_iff.mp hw with hw | rfl
  . exact h.textless w hw hkind
  . exact htext hkind

theorem Decided.hang {v : DocumentVersion} {d : Decision} {chosen : EditRow → Bool} (h : Ledger s)
    (decided : Decided s t v d chosen) (hversions : ∀ w ∈ s.versions, w ∈ t.versions)
    : ∀ row ∈ t.edits, ∃ w ∈ t.versions, w.id = row.versionId ∧ w.kind = .assistantEdit := by
  intro row hrow
  rw [decided.edits] at hrow
  have ⟨old, hold, heq⟩ := versionId_of_mem_updatePending hrow
  have ⟨w, hw, hid, hkind⟩ := h.hang old hold
  exact ⟨w, hversions w hw, hid.trans heq, hkind⟩

theorem Decided.editIds {v : DocumentVersion} {d : Decision} {chosen : EditRow → Bool} (h : Ledger s)
    (decided : Decided s t v d chosen) : (t.edits.map (·.id)).Nodup := by
  rw [decided.edits, ids_updatePending]
  exact h.editIds

theorem ledger_of_effect (h : Ledger s) (effect : Effect decision s t) : Ledger t := by
  -- Edits that are not touched hang on the same versions, which are all kept.
  have hhang (hedits : t.edits = s.edits) (hversions : ∀ w ∈ s.versions, w ∈ t.versions)
      : ∀ row ∈ t.edits, ∃ w ∈ t.versions, w.id = row.versionId ∧ w.kind = .assistantEdit := by
    intro row hrow
    rw [hedits] at hrow
    have ⟨w, hw, hid⟩ := h.hang row hrow
    exact ⟨w, hversions w hw, hid⟩
  have hids (hedits : t.edits = s.edits) : (t.edits.map (·.id)).Nodup := by
    rw [hedits]
    exact h.editIds
  cases effect with
  | quiet versions edits body =>
    refine ⟨by rw [versions]; exact h.numbers, by rw [versions]; exact h.ids, hids edits, ?_, ?_⟩
    . exact hhang edits fun w hw => by rw [versions]; exact hw
    . rw [versions]
      exact h.textless
  | proposed v rows new kind text edits pending nodup freshIds body =>
    refine ledger_of_inserted h new (fun _ => text) ?_ ?_
    . rw [edits, List.map_append, List.nodup_append]
      refine ⟨h.editIds, nodup, ?_⟩
      rintro id hid _ hmem rfl
      have ⟨row, hrow, heq⟩ := List.mem_map.mp hmem
      exact freshIds row hrow (heq ▸ hid)
    . intro row hrow
      rw [edits] at hrow
      rcases List.mem_append.mp hrow with hrow | hrow
      . have ⟨w, hw, hid⟩ := h.hang row hrow
        exact ⟨w, new.mem hw, hid⟩
      . exact ⟨v, new.mem_iff.mpr (.inr rfl), (pending row hrow).right.symm, kind⟩
  | saved v new kind text edits body =>
    exact ledger_of_inserted h new (by simp [kind]) (hids edits) (hhang edits fun w hw => new.mem hw)
  | uploaded v result new kind text edits body =>
    exact ledger_of_inserted h new (by simp [kind]) (hids edits) (hhang edits fun w hw => new.mem hw)
  | restored v result new kind text edits body =>
    exact ledger_of_inserted h new (by simp [kind]) (hids edits) (hhang edits fun w hw => new.mem hw)
  | decided v d chosen made decided versions blocked =>
    refine ⟨by rw [versions]; exact h.numbers, by rw [versions]; exact h.ids, decided.editIds h, ?_, ?_⟩
    . exact decided.hang h fun w hw => by rw [versions]; exact hw
    . rw [versions]
      exact h.textless
  | closed v d chosen made decided none latest new =>
    refine ledger_of_inserted h new ?_ (decided.editIds h) (decided.hang h fun w hw => new.mem hw)
    unfold closingVersion
    dsimp only
    split <;> simp
  | stoodIn v w d chosen made decided new kind text bare blocked =>
    refine ledger_of_inserted h new ?_ (decided.editIds h) (decided.hang h fun w hw => new.mem hw)
    rcases kind with hkind | hkind <;> simp [hkind]

theorem ledger_uploaded (u : FirstUpload) : Ledger (uploaded E u) := by
  refine ⟨rfl, ?_, ?_, ?_, ?_⟩ <;> simp [uploaded]

theorem ledger_exec (h : Ledger s) (r : Request) : Ledger (exec E s r) :=
  ledger_of_effect h (effect_exec h.editIds r)

theorem run_concat (u : FirstUpload) (requests : List Request) (r : Request)
    : run E u (requests ++ [r]) = exec E (run E u requests) r := by
  unfold run
  rw [List.foldl_append]
  rfl

theorem ledger_run (u : FirstUpload) (requests : List Request) : Ledger (run E u requests) := by
  induction requests using List.reverseRecOn with
  | nil => exact ledger_uploaded u
  | append_singleton requests r ih =>
    rw [run_concat]
    exact ledger_exec ih r

theorem effect_run (u : FirstUpload) (requests : List Request) (r : Request)
    : Effect r.decisionOn (run E u requests) (run E u (requests ++ [r])) := by
  rw [run_concat]
  exact effect_exec (ledger_run u requests).editIds r

/--
A request adds at most one version and leaves the others as they are.
-/
theorem versions_of_effect (effect : Effect decision s t)
    : t.versions = s.versions ∨ ∃ v, Inserted s t v := by
  cases effect with
  | quiet versions => exact .inl versions
  | proposed v rows new => exact .inr ⟨v, new⟩
  | saved v new => exact .inr ⟨v, new⟩
  | uploaded v result new => exact .inr ⟨v, new⟩
  | restored v result new => exact .inr ⟨v, new⟩
  | decided v d chosen made decided versions => exact .inl versions
  | closed v d chosen made decided none latest new => exact .inr ⟨_, new⟩
  | stoodIn v w d chosen made decided new => exact .inr ⟨w, new⟩

theorem prefix_versions (u : FirstUpload) (requests more : List Request)
    : (run E u requests).versions <+: (run E u (requests ++ more)).versions := by
  induction more using List.reverseRecOn with
  | nil => rw [List.append_nil]
  | append_singleton more r ih =>
    rw [← List.append_assoc]
    rcases versions_of_effect (effect_run u (requests ++ more) r) with heq | ⟨v, new⟩
    . rw [heq]
      exact ih
    . rw [new.versions]
      exact ih.trans (List.prefix_append _ _)

end History

section Texts

/--
A new version with a text is the latest one with a text, and one without a text changes nothing.
-/
theorem Inserted.latestTextVersion_eq {v : DocumentVersion} (new : Inserted s t v)
    : latestTextVersion t = if v.resolvedText.isSome then some v else latestTextVersion s := by
  unfold latestTextVersion
  rw [new.versions, List.filter_append]
  split
  . next htext =>
    rw [List.filter_cons, if_pos htext, List.filter_nil, List.argmax_concat]
    cases hlatest : (s.versions.filter (·.resolvedText.isSome)).argmax (·.versionNumber) with
    | none => rfl
    | some w =>
      have hw := List.mem_of_mem_filter (List.argmax_mem hlatest)
      have hlt : w.versionNumber < v.versionNumber := by
        have := le_maxVersionNumber hw
        rw [new.number]
        omega
      dsimp only
      rw [if_pos hlt]
  . next htext =>
    rw [List.filter_cons, if_neg htext, List.filter_nil, List.append_nil]

theorem Inserted.getBaseText_of_some {v : DocumentVersion} {text : PyStr} (new : Inserted s t v)
    (htext : v.resolvedText = some text) : getBaseText t = text := by
  unfold getBaseText
  rw [new.latestTextVersion_eq, htext]
  simp [htext]

theorem Inserted.getBaseText_of_none {v : DocumentVersion} (new : Inserted s t v) (htext : v.resolvedText = none)
    (hbody : t.body = s.body) : getBaseText t = getBaseText s := by
  unfold getBaseText
  rw [new.latestTextVersion_eq, htext, hbody]
  rfl

end Texts

section Record

/--
The row records a decision on an edit.
-/
def isDecision (row : AuditLog) : Bool :=
  row.action = py "document.edit.accepted" || row.action = py "document.edit.rejected"

/--
What the audit log records about an edit: the decisions on it and who took them.
-/
def decisionsOn (audit : List AuditLog) (editId : Uuid) : List (PyStr × Option Uuid) :=
  (audit.filter fun row => isDecision row && row.resourceId = some editId.str).map fun row => (row.action, row.actorId)

/--
What a row of the edits says about its decision.
-/
def EditRow.decided (row : EditRow) : Option (PyStr × Option Uuid) :=
  if row.status = .pending then none else some (py "document.edit." ++ statusText row.status, row.resolvedById)

/--
The log records the decisions that the edits show, each of them once.
-/
def Recorded (s : State) : Prop :=
  ∀ editId, decisionsOn s.audit editId = (s.edits.filter (·.id = editId)).filterMap EditRow.decided

theorem decisionsOn_append (a b : List AuditLog) (editId : Uuid)
    : decisionsOn (a ++ b) editId = decisionsOn a editId ++ decisionsOn b editId := by
  simp [decisionsOn]

theorem decisionsOn_of_other {rows : List AuditLog} (h : ∀ row ∈ rows, isDecision row = false) (editId : Uuid)
    : decisionsOn rows editId = [] := by
  unfold decisionsOn
  rw [List.map_eq_nil_iff, List.filter_eq_nil_iff]
  intro row hrow
  simp [h row hrow]

/--
A step that records no decision and decides nothing.
-/
theorem Recorded.of_quiet (h : Recorded s) {rows : List AuditLog} (haudit : t.audit = s.audit ++ rows)
    (hrows : ∀ row ∈ rows, isDecision row = false) (hedits : t.edits = s.edits) : Recorded t := by
  intro editId
  rw [haudit, hedits, decisionsOn_append, decisionsOn_of_other hrows, List.append_nil]
  exact h editId

/--
The decisions that a step records are those that it takes.
-/
theorem Recorded.of_decided (h : Recorded s) (hids : (s.edits.map (·.id)).Nodup) {d : Decision}
    {chosen : EditRow → Bool} {taken rows : List AuditLog} {decided : List EditRow}
    (hperm : decided.Perm (s.edits.filter fun row => chosen row && row.status = .pending))
    (htaken : ∀ editId, decisionsOn taken editId
      = (decided.filter (·.id = editId)).map fun _ => (editAction d, some d.actorId))
    (hrows : ∀ row ∈ rows, isDecision row = false) (haudit : t.audit = s.audit ++ taken ++ rows)
    (hedits : t.edits = (updatePending s d chosen).edits) : Recorded t := by
  intro editId
  rw [haudit, hedits, decisionsOn_append, decisionsOn_append, decisionsOn_of_other hrows, List.append_nil, h editId,
    htaken editId]
  have hsame : (updatePending s d chosen).edits.filter (·.id = editId)
      = (s.edits.filter (·.id = editId)).map fun row =>
        if chosen row && row.status = .pending then
          { row with status := d.status, resolvedById := some d.actorId } else row := by
    unfold updatePending
    rw [List.filter_map]
    congr 1
    apply List.filter_congr
    intro row _
    dsimp only [Function.comp]
    split <;> rfl
  rw [hsame]
  have hdecided : (decided.filter (·.id = editId)).length
      = ((s.edits.filter (·.id = editId)).filter fun row => chosen row && row.status = .pending).length := by
    rw [(hperm.filter _).length_eq, List.filter_filter, List.filter_filter]
    congr 1
    apply List.filter_congr
    intro row _
    rw [Bool.and_comm]
  -- There is one row with the id, or none.
  cases hfilter : s.edits.filter (·.id = editId) with
  | nil =>
    rw [hfilter] at hdecided
    have hnil := List.length_eq_zero_iff.mp hdecided
    rw [hnil]
    rfl
  | cons row rest =>
    have hrest : rest = [] := by
      have hnodup : ((s.edits.filter (·.id = editId)).map (·.id)).Nodup :=
        (List.filter_sublist.map _).nodup hids
      rw [hfilter, List.map_cons, List.nodup_cons] at hnodup
      cases rest with
      | nil => rfl
      | cons other rest =>
        have hmem (x : EditRow) (hx : x ∈ row :: other :: rest) : x.id = editId := by
          rw [← hfilter] at hx
          simpa using (List.mem_filter.mp hx).right
        refine absurd ?_ hnodup.left
        rw [hmem row (by simp), List.map_cons, hmem other (by simp)]
        exact List.mem_cons_self
    subst hrest
    rw [hfilter] at hdecided
    by_cases hrow : (chosen row && decide (row.status = .pending)) = true
    . have hpending : row.status = .pending := by
        rw [Bool.and_eq_true, decide_eq_true_eq] at hrow
        exact hrow.right
      rw [List.filter_cons, if_pos hrow, List.filter_nil, List.length_singleton] at hdecided
      have ⟨other, hother⟩ := List.length_eq_one_iff.mp hdecided
      have hstatus : d.status ≠ .pending := by
        unfold Decision.status
        split <;> simp
      rw [hother, List.map_singleton, List.map_singleton, if_pos hrow]
      simp [EditRow.decided, hpending, hstatus, editAction]
    . rw [List.filter_cons, if_neg hrow, List.filter_nil, List.length_nil] at hdecided
      rw [List.length_eq_zero_iff.mp hdecided, List.map_singleton, if_neg hrow, List.map_nil, List.append_nil]

theorem isDecision_auditRow {action module resourceType resourceId : PyStr} {actorId : Uuid} {payload : Dict}
    (h : action ∉ [py "document.edit.accepted", py "document.edit.rejected"])
    : isDecision (auditRow s action module resourceType resourceId actorId payload) = false := by
  unfold isDecision auditRow
  simpa using h

theorem recorded_proposeEdits {R : PyRepr} {r : EditInstruction} {v : DocumentVersion} (hrec : Recorded s)
    (h : proposeEdits R s r = .ok (t, v)) : Recorded t := by
  unfold proposeEdits at h
  simp only [Except.bind_eq_ok_iff] at h
  obtain ⟨_, _, reply, _, u, hinsert, hrest⟩ := h
  split at hrest
  . cases hrest
    rw [eq_of_insertVersion hinsert]
    intro editId
    unfold log
    dsimp only
    have hpending : ∀ row ∈ ((reply.changes.getD []).take 50).map (ChangeEntry.row R r.versionId), row.decided = none := by
      intro row hrow
      obtain ⟨change, _, hchange⟩ := List.mem_map.mp hrow
      rw [← hchange]
      rfl
    have hnew : ((((reply.changes.getD []).take 50).map (ChangeEntry.row R r.versionId)).filter
        (·.id = editId)).filterMap EditRow.decided = [] := by
      rw [List.filterMap_eq_nil_iff]
      exact fun row hrow => hpending row (List.mem_of_mem_filter hrow)
    rw [decisionsOn_append, List.filter_append, List.filterMap_append, hnew, hrec editId]
    refine congrArg (_ ++ ·) (decisionsOn_of_other (fun row hrow => ?_) editId)
    rw [List.mem_singleton.mp hrow]
    exact isDecision_auditRow (by decide)
  . contradiction

theorem recorded_createUserEditVersion {r : UserEdit} {source : PyStr} {v : DocumentVersion} (hrec : Recorded s)
    (h : createUserEditVersion E s r source = .ok (t, v)) : Recorded t := by
  unfold createUserEditVersion at h
  simp only [Except.bind_eq_ok_iff] at h
  obtain ⟨_, _, u, hinsert, hrest⟩ := h
  cases hrest
  rw [eq_of_insertVersion hinsert]
  refine hrec.of_quiet rfl ?_ rfl
  intro row hrow
  rw [List.mem_singleton.mp hrow]
  exact isDecision_auditRow (by decide)

theorem recorded_saveUpload {r : VersionUpload} {mime key : PyStr} {v : DocumentVersion} (hrec : Recorded s)
    (h : saveUpload E s r mime key = .ok (t, v)) : Recorded t := by
  unfold saveUpload at h
  simp only [Except.bind_eq_ok_iff] at h
  obtain ⟨u, hinsert, hrest⟩ := h
  cases hrest
  rw [eq_of_insertVersion hinsert]
  refine hrec.of_quiet rfl ?_ rfl
  intro row hrow
  rcases List.mem_pair.mp hrow with rfl | rfl
  . exact isDecision_auditRow (by decide)
  . refine isDecision_auditRow ?_
    split <;> decide

theorem recorded_saveRestored {r : Restore} {source : DocumentVersion} {a : Restored} {v : DocumentVersion}
    (hrec : Recorded s) (h : saveRestored s r source a = .ok (t, v)) : Recorded t := by
  unfold saveRestored at h
  simp only [Except.bind_eq_ok_iff] at h
  obtain ⟨u, hinsert, hrest⟩ := h
  cases hrest
  rw [eq_of_insertVersion hinsert]
  refine hrec.of_quiet rfl ?_ rfl
  intro row hrow
  rw [List.mem_singleton.mp hrow]
  exact isDecision_auditRow (by decide)

/--
The rows about a closing version record no decisions.
-/
theorem isDecision_closingLogs {v new : DocumentVersion} {d : Decision}
    : ∀ row ∈ closingLogs s v new d, isDecision row = false := by
  intro row hrow
  unfold closingLogs at hrow
  rcases List.mem_append.mp hrow with hrow | hrow
  . unfold skippedLogs at hrow
    have ⟨result, _, heq⟩ := List.mem_map.mp hrow
    rw [← heq]
    exact isDecision_auditRow (by decide)
  . rw [List.mem_singleton.mp hrow]
    exact isDecision_auditRow (by decide)

theorem isDecision_editAction (d : Decision) {row : AuditLog} (h : row.action = editAction d)
    : isDecision row = true := by
  unfold isDecision
  rw [h]
  unfold editAction Decision.status
  split <;> decide

/--
What is recorded of some rows that are decided.
-/
theorem decisionsOn_map {d : Decision} {decided : List EditRow} {log : EditRow → AuditLog}
    (haction : ∀ row, (log row).action = editAction d) (hactor : ∀ row, (log row).actorId = some d.actorId)
    (hresource : ∀ row, (log row).resourceId = some row.id.str) (editId : Uuid)
    : decisionsOn (decided.map log) editId
        = (decided.filter (·.id = editId)).map fun _ => (editAction d, some d.actorId) := by
  unfold decisionsOn
  rw [List.filter_map, List.map_map]
  have hfilter : decided.filter ((fun row => isDecision row && decide (row.resourceId = some editId.str)) ∘ log)
      = decided.filter (·.id = editId) := by
    apply List.filter_congr
    intro row _
    dsimp only [Function.comp]
    rw [isDecision_editAction d (haction row), hresource, Bool.true_and, decide_eq_decide, Option.some.injEq]
    exact Uuid.str_injective.eq_iff
  rw [hfilter]
  refine List.map_congr_left fun row _ => ?_
  rw [Function.comp_apply, haction, hactor]

theorem recorded_maybeCloseVersion {v : DocumentVersion} {d : Decision} {chosen : EditRow → Bool}
    {taken : List AuditLog} {decided : List EditRow} {new : Option DocumentVersion} (h : Recorded s)
    (hids : (s.edits.map (·.id)).Nodup)
    (hperm : decided.Perm (s.edits.filter fun row => chosen row && row.status = .pending))
    (htaken : ∀ editId, decisionsOn taken editId
      = (decided.filter (·.id = editId)).map fun _ => (editAction d, some d.actorId))
    (hclose : maybeCloseVersion { updatePending s d chosen with audit := s.audit ++ taken } v d = .ok (t, new))
    : Recorded t := by
  rcases maybeCloseVersion_eq_ok_iff.mp hclose with ⟨_, rfl, _⟩ | ⟨_, _, _, u, hinsert, rfl⟩
  . exact @Recorded.of_decided _ _ h hids d chosen taken [] decided hperm htaken (by simp) (by simp) rfl
  . rw [eq_of_insertVersion hinsert]
    exact h.of_decided hids hperm htaken isDecision_closingLogs rfl rfl

theorem recorded_transact {α : Type} {result : Except Failure (State × α)} (hrec : Recorded s)
    (h : ∀ t a, result = .ok (t, a) → Recorded t) : Recorded (transact s result).fst := by
  unfold transact
  split
  . next t a => exact h t a rfl
  . exact hrec

theorem recorded_resolveEdit {editId : Uuid} {d : Decision} {result : EditRow} {new : Option DocumentVersion}
    (hrec : Recorded s) (hids : (s.edits.map (·.id)).Nodup) (h : resolveEdit s editId d = .ok (t, result, new))
    : Recorded t := by
  have ⟨_, row, v, hrow, hid, hpending, _, _, hclose⟩ := resolveEdit_eq_ok h
  subst hid
  have hfilter : s.edits.filter (fun other => decide (other.id = row.id) && other.status = .pending) = [row] := by
    have hnodup : (s.edits.filter fun other => decide (other.id = row.id) && other.status = .pending).Nodup :=
      (List.Nodup.of_map _ hids).filter _
    refine List.perm_singleton.mp ((List.perm_ext_iff_of_nodup hnodup (List.nodup_singleton row)).mpr fun other => ?_)
    simp only [List.mem_filter, Bool.and_eq_true, decide_eq_true_eq, List.mem_singleton]
    constructor
    . rintro ⟨hother, heq, _⟩
      exact List.inj_on_of_nodup_map hids hother hrow heq
    . rintro rfl
      exact ⟨hrow, rfl, hpending⟩
  refine @recorded_maybeCloseVersion _ _ v d _ _ [row] new hrec hids (by rw [hfilter]) ?_ hclose
  exact @decisionsOn_map d [row] (resolutionLog s v d) (fun _ => rfl) (fun _ => rfl) fun _ => rfl

theorem Recorded.congr (h : Recorded s) (haudit : t.audit = s.audit) (hedits : t.edits = s.edits) : Recorded t := by
  intro editId
  rw [haudit, hedits]
  exact h editId

theorem recorded_standIn {v w : DocumentVersion} {d : Decision} (hrec : Recorded s) (h : standIn s v d = .ok (t, w))
    : Recorded t := by
  unfold standIn at h
  split at h
  . cases h
    exact hrec
  . simp only [Except.bind_eq_ok_iff, Except.pure_eq_ok_iff] at h
    obtain ⟨u, hinsert, heq⟩ := h
    cases heq
    rw [eq_of_insertVersion hinsert]
    exact hrec.congr rfl rfl

theorem recorded_resolveBulk {versionId : Uuid} {d : Decision} {count : Nat} {pointed : DocumentVersion}
    (hrec : Recorded s) (hids : (s.edits.map (·.id)).Nodup) (h : resolveBulk s versionId d = .ok (t, count, pointed))
    : Recorded t := by
  have ⟨_, v, u, closing, _, _, hclose, _, hpointed⟩ := resolveBulk_eq_ok h
  have hperm : (d.order.arrange ((editsOf s versionId).filter (·.status = .pending))).Perm
      (s.edits.filter fun row => decide (row.versionId = versionId) && row.status = .pending) := by
    refine (d.order.perm _).trans (List.Perm.of_eq ?_)
    unfold editsOf
    rw [List.filter_filter]
    apply List.filter_congr
    intro row _
    rw [Bool.and_comm]
  have hu : Recorded u :=
    recorded_maybeCloseVersion hrec hids hperm
      (@decisionsOn_map d _ (bulkResolutionLog s v d) (fun _ => rfl) (fun _ => rfl) fun _ => rfl) hclose
  rcases hpointed with ⟨_, rfl⟩ | ⟨_, hstandIn⟩
  . exact hu
  . exact recorded_standIn hu hstandIn

/--
The failure of the object storage is recorded at once.
-/
theorem recorded_log {row : AuditLog} (hrec : Recorded s) (h : isDecision row = false) : Recorded (log s row) :=
  hrec.of_quiet rfl (by simpa using h) rfl

theorem recorded_exec (hrec : Recorded s) (hids : (s.edits.map (·.id)).Nodup) (r : Request)
    : Recorded (exec E s r) := by
  cases r with
  | propose r => exact recorded_transact hrec fun t v h => recorded_proposeEdits hrec h
  | manual r =>
    refine recorded_transact hrec fun t v h => ?_
    unfold postManualDocumentVersion at h
    simp only [Except.bind_eq_ok_iff] at h
    obtain ⟨_, _, hsave⟩ := h
    exact recorded_createUserEditVersion hrec hsave
  | putDraft r =>
    refine recorded_transact hrec fun t draft h => ?_
    unfold putDocumentWorkingDraft at h
    simp only [Except.bind_eq_ok_iff] at h
    obtain ⟨_, _, written, _, hrest⟩ := h
    cases hrest
    exact hrec.congr rfl rfl
  | commitDraft r =>
    refine recorded_transact hrec fun t v h => ?_
    unfold postDocumentWorkingDraftCommit at h
    simp only [Except.bind_eq_ok_iff] at h
    obtain ⟨_, _, draft, _, ⟨u, v'⟩, hsave, hrest⟩ := h
    cases hrest
    have hu := recorded_createUserEditVersion hrec hsave
    split
    . exact hu.congr rfl rfl
    . exact hu
  | upload r =>
    unfold exec postUploadDocumentVersion
    dsimp only
    split
    . exact hrec
    . split
      . exact recorded_log hrec (isDecision_auditRow (by decide))
      . have hput (key : PyStr) : Recorded (putBytes s key r.contents) := hrec.congr rfl rfl
        exact recorded_transact (hput _) fun t v h => recorded_saveUpload (hput _) h
  | restore r =>
    unfold exec postRestoreDocumentVersion
    dsimp only
    split
    . exact hrec
    . next source _ =>
      split
      . split
        . exact recorded_log hrec (isDecision_auditRow (by decide))
        . split
          . exact hrec
          . exact recorded_transact hrec fun t v h => recorded_saveRestored hrec h
      . split
        . exact hrec
        . split
          . exact recorded_log hrec (isDecision_auditRow (by decide))
          . have hput (key : PyStr) (contents : Bytes) : Recorded (putBytes s key contents) := hrec.congr rfl rfl
            exact recorded_transact (hput _ _) fun t v h => recorded_saveRestored (hput _ _) h
  | resolve editId d => exact recorded_transact hrec fun t a h => recorded_resolveEdit hrec hids h
  | resolveAll versionId d => exact recorded_transact hrec fun t a h => recorded_resolveBulk hrec hids h
  | index embeds =>
    unfold exec indexDocument
    dsimp only
    split
    . exact hrec.congr rfl rfl
    . exact hrec.congr rfl rfl
    . split <;> exact hrec.congr rfl rfl

theorem recorded_run (u : FirstUpload) (requests : List Request) : Recorded (run E u requests) := by
  induction requests using List.reverseRecOn with
  | nil => exact fun _ => rfl
  | append_singleton requests r ih =>
    rw [run_concat]
    exact recorded_exec ih (ledger_run u requests).editIds r

end Record

section Decisions

/--
An edit keeps what it proposes, and a decision on it stays.
-/
structure Later (a b : EditRow) : Prop where
  id : b.id = a.id
  versionId : b.versionId = a.versionId
  delta : (b.deletedText, b.insertedText, b.contextBefore, b.contextAfter)
    = (a.deletedText, a.insertedText, a.contextBefore, a.contextAfter)
  final : a.status ≠ .pending → b = a

theorem Later.refl (a : EditRow) : Later a a :=
  ⟨rfl, rfl, rfl, fun _ => rfl⟩

theorem Later.trans {a b c : EditRow} (hab : Later a b) (hbc : Later b c) : Later a c := by
  refine ⟨hbc.id.trans hab.id, hbc.versionId.trans hab.versionId, hbc.delta.trans hab.delta, fun h => ?_⟩
  have heq := hab.final h
  rw [heq] at hbc
  exact hbc.final h

theorem exists_later_of_effect (effect : Effect decision s t) {row : EditRow} (hrow : row ∈ s.edits)
    : ∃ later ∈ t.edits, Later row later := by
  have hkept (h : t.edits = s.edits) : ∃ later ∈ t.edits, Later row later :=
    ⟨row, by rw [h]; exact hrow, .refl row⟩
  have hdecided {v : DocumentVersion} {d : Decision} {chosen : EditRow → Bool} (h : Decided s t v d chosen)
      : ∃ later ∈ t.edits, Later row later := by
    rw [h.edits]
    refine ⟨_, List.mem_map_of_mem hrow, ?_⟩
    split
    . next hchosen =>
      rw [Bool.and_eq_true, decide_eq_true_eq] at hchosen
      exact ⟨rfl, rfl, rfl, fun hne => absurd hchosen.right hne⟩
    . exact .refl row
  cases effect with
  | quiet versions edits => exact hkept edits
  | proposed v rows new kind text edits =>
    exact ⟨row, by rw [edits]; exact List.mem_append_left _ hrow, .refl row⟩
  | saved v new kind text edits => exact hkept edits
  | uploaded v result new kind text edits => exact hkept edits
  | restored v result new kind text edits => exact hkept edits
  | decided v d chosen made decided => exact hdecided decided
  | closed v d chosen made decided => exact hdecided decided
  | stoodIn v w d chosen made decided => exact hdecided decided

theorem exists_later_run (u : FirstUpload) (requests more : List Request) {row : EditRow}
    (hrow : row ∈ (run E u requests).edits) : ∃ later ∈ (run E u (requests ++ more)).edits, Later row later := by
  induction more using List.reverseRecOn with
  | nil =>
    rw [List.append_nil]
    exact ⟨row, hrow, .refl row⟩
  | append_singleton more r ih =>
    have ⟨mid, hmid, hlater⟩ := ih
    rw [← List.append_assoc]
    have ⟨later, hmem, hlater'⟩ := exists_later_of_effect (effect_run u (requests ++ more) r) hmid
    exact ⟨later, hmem, hlater.trans hlater'⟩

variable (E) in
/--
History is only added to: versions have the numbers from one on in the order of their creation, and later requests
neither change nor remove one.
-/
theorem versions_appendOnly (u : FirstUpload) (requests more : List Request)
    : (run E u requests).versions <+: (run E u (requests ++ more)).versions
        ∧ (run E u requests).versions.map (·.versionNumber) = List.range' 1 (run E u requests).versions.length
        ∧ ((run E u requests).versions.map (·.id)).Nodup :=
  ⟨prefix_versions u requests more, (ledger_run u requests).numbers, (ledger_run u requests).ids⟩

/--
The decision about one edit.
-/
theorem decisionsOn_of_mem (hrec : Recorded s) (hids : (s.edits.map (·.id)).Nodup) {row : EditRow}
    (hrow : row ∈ s.edits) : decisionsOn s.audit row.id = row.decided.toList := by
  have hfilter : s.edits.filter (·.id = row.id) = [row] := by
    have hnodup : (s.edits.filter (·.id = row.id)).Nodup := (List.Nodup.of_map _ hids).filter _
    refine List.perm_singleton.mp ((List.perm_ext_iff_of_nodup hnodup (List.nodup_singleton row)).mpr fun other => ?_)
    simp only [List.mem_filter, decide_eq_true_eq, List.mem_singleton]
    constructor
    . rintro ⟨hother, heq⟩
      exact List.inj_on_of_nodup_map hids hother hrow heq
    . rintro rfl
      exact ⟨hrow, rfl⟩
  rw [hrec row.id, hfilter, List.filterMap_cons, List.filterMap_nil]
  cases row.decided <;> rfl

variable (E) in
/--
Every edit is decided at most once and for good, and the audit log records exactly the decision that the edit shows.
-/
theorem edits_decidedOnce (u : FirstUpload) (requests more : List Request)
    : ∀ row ∈ (run E u requests).edits, ∃ later ∈ (run E u (requests ++ more)).edits,
      Later row later ∧ decisionsOn (run E u (requests ++ more)).audit row.id = later.decided.toList := by
  intro row hrow
  have ⟨later, hmem, hlater⟩ := exists_later_run u requests more hrow
  refine ⟨later, hmem, hlater, ?_⟩
  rw [← hlater.id]
  exact decisionsOn_of_mem (recorded_run u (requests ++ more)) (ledger_run u (requests ++ more)).editIds hmem

def accepting : Request :=
  .resolve (Uuid.ofNat 10) (DocumentVersions.decision true 3)

theorem edits_decidedOnce_accepted
    : ∃ row ∈ (run plainEnv lease [proposal 2 10 "tenant" "lessee"]).edits,
        ∃ later ∈ (run plainEnv lease ([proposal 2 10 "tenant" "lessee"] ++ [accepting])).edits,
          Later row later
            ∧ decisionsOn (run plainEnv lease ([proposal 2 10 "tenant" "lessee"] ++ [accepting])).audit row.id
              = later.decided.toList := by
  have hproposed : ∃ row ∈ (run plainEnv lease [proposal 2 10 "tenant" "lessee"]).edits, row.id = Uuid.ofNat 10 := by
    decide +kernel
  have ⟨row, hrow, _⟩ := hproposed
  exact ⟨row, hrow, edits_decidedOnce plainEnv lease _ _ row hrow⟩

end Decisions

end DocumentVersions
