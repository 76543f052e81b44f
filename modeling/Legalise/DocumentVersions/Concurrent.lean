import Legalise.DocumentVersions.Closing
import Legalise.Lib.SerialLock

/-!
This module contains decisions about one version that are taken at the same time, and why they have the outcome of
decisions that are taken one after the other.
-/

namespace DocumentVersions

open SerialLock

variable {E : Env} {s t : State} {v : DocumentVersion} {d : Decision} {T : Type}

section Calls

/--
A decision about one edit or about all edits of a version.
-/
inductive Call where
  | one (editId : Uuid) (d : Decision)
  | all (versionId : Uuid) (d : Decision)

def Call.decision : Call → Decision
  | .one _ d => d
  | .all _ d => d

def Call.request : Call → Request
  | .one editId d => .resolve editId d
  | .all versionId d => .resolveAll versionId d

/--
What a transaction has written: the edits that an update has changed, a version, or rows of the audit log.
-/
inductive Write where
  | status (ids : List Uuid) (d : Decision)
  | closing (v : DocumentVersion)
  | standIn (v : DocumentVersion)
  | audit (rows : List AuditLog)

def Write.apply (s : State) : Write → State
  | .status ids d =>
    {
      s with
      edits := s.edits.map fun row =>
        if row.id ∈ ids then { row with status := d.status, resolvedById := some d.actorId } else row
    }
  | .closing v => { s with versions := s.versions ++ [v] }
  | .standIn v => { s with versions := s.versions ++ [v] }
  | .audit rows => { s with audit := s.audit ++ rows }

/--
The first read of a call: the version that it is about, if the actor may decide.
-/
def authorise (s : State) : Call → Except Failure DocumentVersion
  | .one editId d =>
    match s.edits.find? (·.id = editId) with
    | none => .error (.lookup (py "edit not found"))
    | some row =>
      match s.versions.find? (·.id = row.versionId) with
      | none => .error (.lookup (py "edit not found"))
      | some v => if s.matter.createdById ≠ d.actorId then .error (.lookup (py "edit not found")) else .ok v
  | .all versionId d =>
    match s.versions.find? (·.id = versionId) with
    | none => .error (.lookup (py "version not found"))
    | some v => if s.matter.createdById ≠ d.actorId then .error (.lookup (py "version not found")) else .ok v

/--
`UPDATE document_edits ... WHERE status = 'pending' RETURNING ...`, and the rows about what it returns.
-/
def updateEdits (v : DocumentVersion) (call : Call) (s : State) : Except Failure (List Write) :=
  match call with
  | .one editId d =>
    match s.edits.find? fun row => decide (row.id = editId) && row.status = .pending with
    | none => .error .alreadyResolved
    | some row => .ok [.status [editId] d, .audit [resolutionLog s v d row]]
  | .all versionId d =>
    let affected := d.order.arrange ((editsOf s versionId).filter (·.status = .pending))
    .ok [.status (affected.map (·.id)) d, .audit (affected.map (bulkResolutionLog s v d))]

/--
The closing of the version, and the version that a bulk decision points at otherwise.
-/
def closeVersion (v : DocumentVersion) (call : Call) (s : State) : Except Failure (List Write) := do
  let (_, closing) ← maybeCloseVersion s v call.decision
  match closing, call with
  | some new, _ => return [.closing new, .audit (closingLogs s v new call.decision)]
  | none, .one _ _ => return []
  | none, .all _ d =>
    let (_, w) ← standIn s v d
    return if (latestTextVersion s).isSome then [] else [.standIn w]

/--
`pg_advisory_xact_lock` is taken on the version after the first read.
-/
def resolution (calls : T → Call) : Program State Write DocumentVersion Failure Uuid T where
  apply := Write.apply
  begins t s := authorise s (calls t)
  key v := v.id
  statements t v := [updateEdits v (calls t), closeVersion v (calls t)]

end Calls

section Serial

variable {calls : T → Call}

theorem view_cons (s : State) (write : Write) (writes : List Write)
    : (resolution calls).view s (write :: writes) = (resolution calls).view (write.apply s) writes :=
  rfl

@[simp]
theorem view_nil (s : State) : (resolution calls).view s [] = s :=
  rfl

theorem authorise_one_eq_ok_iff {editId : Uuid}
    : authorise s (.one editId d) = .ok v
        ↔ ∃ row, s.edits.find? (·.id = editId) = some row ∧ s.versions.find? (·.id = row.versionId) = some v
          ∧ s.matter.createdById = d.actorId := by
  unfold authorise
  constructor
  . intro h
    dsimp only at h
    split at h
    . contradiction
    . next row hrow =>
      split at h
      . contradiction
      . next w hw =>
        split at h
        . contradiction
        . next howner =>
          cases h
          exact ⟨row, hrow, hw, not_not.mp howner⟩
  . rintro ⟨row, hrow, hv, howner⟩
    dsimp only
    rw [hrow]
    dsimp only
    rw [hv]
    dsimp only
    rw [if_neg (not_not.mpr howner)]

theorem authorise_all_eq_ok_iff {versionId : Uuid}
    : authorise s (.all versionId d) = .ok v
        ↔ s.versions.find? (·.id = versionId) = some v ∧ s.matter.createdById = d.actorId := by
  unfold authorise
  constructor
  . intro h
    dsimp only at h
    split at h
    . contradiction
    . next w hw =>
      split at h
      . contradiction
      . next howner =>
        cases h
        exact ⟨hw, not_not.mp howner⟩
  . rintro ⟨hv, howner⟩
    dsimp only
    rw [hv]
    dsimp only
    rw [if_neg (not_not.mpr howner)]

/--
A write keeps what a call has read.
-/
theorem authorise_apply {call : Call} (h : authorise s call = .ok v) (write : Write)
    : authorise (write.apply s) call = .ok v := by
  have hversions {id : Uuid} (hfind : s.versions.find? (·.id = id) = some v)
      : (write.apply s).versions.find? (·.id = id) = some v := by
    cases write with
    | status ids d => exact hfind
    | audit rows => exact hfind
    | closing w =>
      unfold Write.apply
      rw [List.find?_append, hfind]
      rfl
    | standIn w =>
      unfold Write.apply
      rw [List.find?_append, hfind]
      rfl
  have hmatter : (write.apply s).matter = s.matter := by
    cases write <;> rfl
  cases call with
  | one editId d =>
    have ⟨row, hrow, hv, howner⟩ := authorise_one_eq_ok_iff.mp h
    have hedits : ∃ row', (write.apply s).edits.find? (·.id = editId) = some row' ∧ row'.versionId = row.versionId := by
      cases write with
      | closing w => exact ⟨row, hrow, rfl⟩
      | standIn w => exact ⟨row, hrow, rfl⟩
      | audit rows => exact ⟨row, hrow, rfl⟩
      | status ids d' =>
        unfold Write.apply
        dsimp only
        rw [List.find?_map]
        have hsame : ((fun row : EditRow => decide (row.id = editId)) ∘ fun row =>
            if row.id ∈ ids then { row with status := d'.status, resolvedById := some d'.actorId } else row)
            = fun row => decide (row.id = editId) := by
          funext other
          dsimp only [Function.comp]
          split <;> rfl
        rw [hsame, hrow]
        refine ⟨_, rfl, ?_⟩
        dsimp only
        split <;> rfl
    have ⟨row', hrow', hversion⟩ := hedits
    refine authorise_one_eq_ok_iff.mpr ⟨row', hrow', ?_, by rw [hmatter]; exact howner⟩
    rw [hversion]
    exact hversions hv
  | all versionId d =>
    have ⟨hv, howner⟩ := authorise_all_eq_ok_iff.mp h
    exact authorise_all_eq_ok_iff.mpr ⟨hversions hv, by rw [hmatter]; exact howner⟩

theorem authorise_view {call : Call} (writes : List Write) (h : authorise s call = .ok v)
    : authorise ((resolution calls).view s writes) call = .ok v := by
  induction writes generalizing s with
  | nil => exact h
  | cons write writes ih =>
    rw [view_cons]
    exact ih (authorise_apply h write)

/--
An update of distinct rows that are chosen and pending is the conditional one.
-/
theorem apply_status {ids : List Uuid} {chosen : EditRow → Bool}
    (hids : ∀ row ∈ s.edits, row.id ∈ ids ↔ chosen row = true ∧ row.status = .pending)
    : Write.apply s (.status ids d) = updatePending s d chosen := by
  unfold Write.apply updatePending
  dsimp only
  congr 1
  refine List.map_congr_left fun row hrow => ?_
  by_cases hmem : row.id ∈ ids
  . have ⟨hchosen, hpending⟩ := (hids row hrow).mp hmem
    rw [if_pos hmem, if_pos (by simp [hchosen, hpending])]
  . rw [if_neg hmem, if_neg]
    intro hchosen
    rw [Bool.and_eq_true, decide_eq_true_eq] at hchosen
    exact hmem ((hids row hrow).mpr hchosen)

/--
The update of one edit finds it pending.
-/
theorem updateEdits_one_eq_ok {editId : Uuid} {writes : List Write} (h : Ledger s)
    (hupdate : updateEdits v (.one editId d) s = .ok writes)
    : ∃ row, s.edits.find? (·.id = editId) = some row ∧ row.status = .pending
        ∧ writes = [.status [editId] d, .audit [resolutionLog s v d row]]
        ∧ (resolution calls).view s writes
          = { updatePending s d (·.id = editId) with audit := s.audit ++ [resolutionLog s v d row] } := by
  unfold updateEdits at hupdate
  dsimp only at hupdate
  split at hupdate
  . contradiction
  . next row hrow =>
    cases hupdate
    have hmem := List.mem_of_find?_eq_some hrow
    have hsome := List.find?_some hrow
    rw [Bool.and_eq_true, decide_eq_true_eq, decide_eq_true_eq] at hsome
    have hsame (other : EditRow) (hother : other ∈ s.edits) (heq : other.id = editId) : other = row :=
      h.eq_of_editId hother hmem (heq.trans hsome.left.symm)
    refine ⟨row, ?_, hsome.right, rfl, ?_⟩
    . cases hfind : s.edits.find? (·.id = editId) with
      | none =>
        rw [List.find?_eq_none] at hfind
        exact absurd (decide_eq_true hsome.left) (hfind row hmem)
      | some other =>
        rw [hsame other (List.mem_of_find?_eq_some hfind) (of_decide_eq_true (List.find?_some hfind :))]
    . rw [view_cons, @apply_status s d [editId] (·.id = editId)]
      . rfl
      . intro other hother
        rw [List.mem_singleton, decide_eq_true_eq]
        constructor
        . intro heq
          rw [hsame other hother heq]
          exact hsome
        . exact And.left

/--
The update of all edits of a version.
-/
theorem view_updateEdits_all {versionId : Uuid} {writes : List Write} (h : Ledger s)
    (hupdate : updateEdits v (.all versionId d) s = .ok writes)
    : (resolution calls).view s writes = {
          updatePending s d (·.versionId = versionId) with
          audit := s.audit ++ (d.order.arrange ((editsOf s versionId).filter (·.status = .pending))).map
            (bulkResolutionLog s v d)
        } := by
  unfold updateEdits at hupdate
  cases hupdate
  rw [view_cons, @apply_status s d _ (·.versionId = versionId)]
  . rfl
  . intro row hrow
    rw [decide_eq_true_eq]
    constructor
    . intro hid
      have ⟨other, hother, heq⟩ := List.mem_map.mp hid
      rw [(d.order.perm _).mem_iff, List.mem_filter, mem_editsOf, decide_eq_true_eq] at hother
      rw [← h.eq_of_editId hother.left.left hrow heq]
      exact ⟨hother.left.right, hother.right⟩
    . rintro ⟨hversion, hpending⟩
      refine List.mem_map.mpr ⟨row, ?_, rfl⟩
      rw [(d.order.perm _).mem_iff, List.mem_filter, mem_editsOf, decide_eq_true_eq]
      exact ⟨⟨hrow, hversion⟩, hpending⟩

/--
What a closing writes.
-/
theorem closeVersion_eq_ok {call : Call} {writes : List Write} (h : closeVersion v call s = .ok writes)
    : (∃ new, writes = [.closing new, .audit (closingLogs s v new call.decision)]
          ∧ maybeCloseVersion s v call.decision = .ok ((resolution calls).view s writes, some new))
        ∨ (maybeCloseVersion s v call.decision = .ok (s, none)
          ∧ ((∃ editId d, call = .one editId d ∧ writes = [])
            ∨ ∃ versionId d w, call = .all versionId d ∧ (writes = [] ∨ writes = [.standIn w])
              ∧ standIn s v d = .ok ((resolution calls).view s writes, w))) := by
  unfold closeVersion at h
  simp only [Except.bind_eq_ok_iff] at h
  obtain ⟨⟨t, closing⟩, hclose, hrest⟩ := h
  cases closing with
  | some new =>
    cases hrest
    refine .inl ⟨new, rfl, ?_⟩
    rw [hclose]
    rcases maybeCloseVersion_eq_ok_iff.mp hclose with ⟨_, _, hnone⟩ | ⟨_, _, hsome, u, hinsert, ht⟩
    . contradiction
    . cases hsome
      rw [ht, eq_of_insertVersion hinsert]
      rfl
  | none =>
    have hsame : t = s := by
      rcases maybeCloseVersion_eq_ok_iff.mp hclose with ⟨_, ht, _⟩ | ⟨_, _, hsome, _⟩
      . exact ht
      . contradiction
    subst hsame
    refine .inr ⟨hclose, ?_⟩
    cases call with
    | one editId d =>
      cases hrest
      exact .inl ⟨editId, d, rfl, rfl⟩
    | all versionId d =>
      simp only [Except.bind_eq_ok_iff] at hrest
      obtain ⟨⟨u, w⟩, hstandIn, hwrites⟩ := hrest
      refine .inr ⟨versionId, d, w, rfl, ?_⟩
      rcases standIn_eq_ok hstandIn with ⟨hlatest, rfl⟩ | ⟨hnone, _⟩
      . rw [hlatest] at hwrites
        cases hwrites
        exact ⟨.inl rfl, hstandIn⟩
      . rw [hnone] at hwrites
        cases hwrites
        refine ⟨.inr rfl, ?_⟩
        rw [hstandIn]
        unfold standIn at hstandIn
        rw [hnone] at hstandIn
        simp only [Except.bind_eq_ok_iff, Except.pure_eq_ok_iff] at hstandIn
        obtain ⟨u', hinsert, heq⟩ := hstandIn
        cases heq
        rw [eq_of_insertVersion hinsert]
        rfl

theorem serial_eq_ok {i : T} {writes : List Write}
    (hserial : (resolution calls).serial i s = .ok (v, writes))
    : ∃ first more, writes = first ++ more ∧ authorise s (calls i) = .ok v ∧ updateEdits v (calls i) s = .ok first
        ∧ closeVersion v (calls i) ((resolution calls).view s first) = .ok more := by
  obtain ⟨hbegins, hexecute⟩ := serial_eq_ok_iff.mp hserial
  unfold resolution at hexecute
  simp only [Program.execute, Except.bind_eq_ok_iff] at hexecute
  obtain ⟨first, hfirst, more, hmore, heq⟩ := hexecute
  cases heq
  exact ⟨first, more, rfl, hbegins, hfirst, hmore⟩

theorem view_append (s : State) (first more : List Write)
    : (resolution calls).view s (first ++ more) = (resolution calls).view ((resolution calls).view s first) more :=
  List.foldl_append

/--
A transaction that is alone does what its request does.
-/
theorem exec_of_serial {i : T} {writes : List Write} (h : Ledger s)
    (hserial : (resolution calls).serial i s = .ok (v, writes))
    : exec E s (calls i).request = (resolution calls).view s writes := by
  have ⟨first, more, heq, hauthorise, hupdate, hclose⟩ := serial_eq_ok hserial
  subst heq
  rw [view_append]
  cases hcall : calls i with
  | one editId d =>
    rw [hcall] at hauthorise hupdate hclose
    have ⟨row, hrow, hpending, _, hview⟩ := @updateEdits_one_eq_ok s v d T calls editId first h hupdate
    have ⟨row', hrow', hv, howner⟩ := authorise_one_eq_ok_iff.mp hauthorise
    cases hrow.symm.trans hrow'
    rw [hview] at hclose ⊢
    have hclosed : ∃ new, maybeCloseVersion
        { updatePending s d (·.id = editId) with audit := s.audit ++ [resolutionLog s v d row] } v d
        = .ok ((resolution calls).view
          { updatePending s d (·.id = editId) with audit := s.audit ++ [resolutionLog s v d row] } more, new) := by
      rcases @closeVersion_eq_ok _ v T calls _ _ hclose with ⟨new, _, hok⟩ | ⟨hok, ⟨_, _, _, heq⟩ | ⟨_, _, _, heq, _⟩⟩
      . exact ⟨_, hok⟩
      . rw [heq]
        exact ⟨_, hok⟩
      . contradiction
    have ⟨new, hclosed⟩ := hclosed
    unfold Call.request exec resolveEdit
    dsimp only
    rw [hrow]
    dsimp only
    rw [hv]
    dsimp only
    rw [if_neg (not_not.mpr howner), if_neg (not_not.mpr hpending)]
    have hlog : log (updatePending s d (·.id = editId)) (resolutionLog s v d row)
        = { updatePending s d (·.id = editId) with audit := s.audit ++ [resolutionLog s v d row] } := rfl
    rw [hlog, hclosed]
    rfl
  | all versionId d =>
    rw [hcall] at hauthorise hupdate hclose
    have hview := @view_updateEdits_all s v d T calls versionId first h hupdate
    have ⟨hv, howner⟩ := authorise_all_eq_ok_iff.mp hauthorise
    rw [hview] at hclose ⊢
    unfold Call.request exec resolveBulk
    dsimp only
    rw [hv]
    dsimp only
    rw [if_neg (not_not.mpr howner)]
    rcases @closeVersion_eq_ok _ v T calls _ _ hclose with ⟨new, _, hok⟩ | ⟨hok, ⟨_, _, heq, _⟩ | ⟨_, _, w, heq, _, hstandIn⟩⟩
    . have hok : maybeCloseVersion _ v d = _ := hok
      rw [show (updatePending s d (·.versionId = versionId)).audit = s.audit from rfl, hok]
      rfl
    . contradiction
    . cases heq
      have hok : maybeCloseVersion _ v d = _ := hok
      rw [show (updatePending s d (·.versionId = versionId)).audit = s.audit from rfl, hok]
      simp only [bind, Except.bind]
      rw [hstandIn]
      rfl

end Serial

section History

/--
The edits that an update of the transaction has changed.
-/
def affected (writes : List Write) : List Uuid :=
  writes.flatMap fun
    | .status ids _ => ids
    | _ => []

/--
The versions that close the decided one.
-/
def closings (writes : List Write) : List DocumentVersion :=
  writes.filterMap fun
    | .closing v => some v
    | _ => none

/--
The call is about the version.
-/
def Call.IsOn (call : Call) (s : State) (v : DocumentVersion) : Prop :=
  match call with
  | .one editId _ => ∀ row ∈ s.edits, row.id = editId → row.versionId = v.id
  | .all versionId _ => versionId = v.id

variable {calls : T → Call}

/--
What a transaction does that is alone.
-/
structure Alone (s t : State) (v : DocumentVersion) (call : Call) (writes : List Write) : Prop where
  edits : t.edits = s.edits.map fun row =>
    if row.id ∈ affected writes then
      { row with status := call.decision.status, resolvedById := some call.decision.actorId }
    else row
  pending : ∀ id ∈ affected writes, ∃ row ∈ s.edits, row.id = id ∧ row.status = .pending
  one : ∀ editId d, call = .one editId d → affected writes = [editId]
  closings : closings writes = [] ∨ ((closings writes).length = 1 ∧ v.versionNumber = maxVersionNumber s
    ∧ v.versionNumber < maxVersionNumber t)
  versions : s.versions <+: t.versions

theorem maxVersionNumber_mono (h : s.versions <+: t.versions) : maxVersionNumber s ≤ maxVersionNumber t := by
  rcases List.eq_nil_or_concat s.versions with hnil | _
  . unfold maxVersionNumber
    rw [hnil]
    exact Nat.zero_le _
  . unfold maxVersionNumber
    cases hmax : (s.versions.map (·.versionNumber)).max? with
    | none => exact Nat.zero_le _
    | some n =>
      have ⟨v, hv, hn⟩ := List.mem_map.mp (List.max?_eq_some_iff.mp hmax).left
      have := @le_maxVersionNumber t v (h.subset hv)
      unfold maxVersionNumber at this
      rw [← hn]
      exact this

theorem maxVersionNumber_concat {w : DocumentVersion} (h : t.versions = s.versions ++ [w])
    (hw : w.versionNumber = maxVersionNumber s + 1) : maxVersionNumber s < maxVersionNumber t := by
  have hmem : w ∈ t.versions := by
    rw [h]
    exact List.mem_append_right _ (List.mem_singleton_self w)
  have := le_maxVersionNumber hmem
  omega

/--
What is written by an update.
-/
theorem affected_updateEdits {call : Call} {first : List Write} (h : Ledger s)
    (hupdate : updateEdits v call s = .ok first)
    : (∃ ids rows, first = [.status ids call.decision, .audit rows])
        ∧ (∀ id ∈ affected first, ∃ row ∈ s.edits, row.id = id ∧ row.status = .pending)
        ∧ ∀ editId d, call = .one editId d → affected first = [editId] := by
  cases call with
  | one editId d =>
    have ⟨row, hrow, hpending, heq, _⟩ := @updateEdits_one_eq_ok s v d Unit (fun _ => .one editId d) editId first h hupdate
    subst heq
    refine ⟨⟨_, _, rfl⟩, fun id hid => ?_, fun editId' d' hcall => ?_⟩
    . have hid : id = editId := by simpa [affected] using hid
      exact ⟨row, List.mem_of_find?_eq_some hrow, by rw [hid]; exact of_decide_eq_true (List.find?_some hrow :), hpending⟩
    . cases hcall
      rfl
  | all versionId d =>
    unfold updateEdits at hupdate
    cases hupdate
    refine ⟨⟨_, _, rfl⟩, fun id hid => ?_, fun editId' d' hcall => by contradiction⟩
    have hid : id ∈ (d.order.arrange ((editsOf s versionId).filter (·.status = .pending))).map (·.id) := by
      simpa [affected] using hid
    have ⟨row, hrow, heq⟩ := List.mem_map.mp hid
    rw [(d.order.perm _).mem_iff, List.mem_filter, mem_editsOf, decide_eq_true_eq] at hrow
    exact ⟨row, hrow.left.left, heq, hrow.right⟩

/--
What is written by a closing.
-/
theorem closings_closeVersion {call : Call} {more : List Write} (hv : v ∈ s.versions)
    (hclose : closeVersion v call s = .ok more)
    : affected more = [] ∧ ((resolution calls).view s more).edits = s.edits
        ∧ s.versions <+: ((resolution calls).view s more).versions
        ∧ (closings more = [] ∨ ((closings more).length = 1 ∧ v.versionNumber = maxVersionNumber s
          ∧ v.versionNumber < maxVersionNumber ((resolution calls).view s more))) := by
  rcases @closeVersion_eq_ok s v T calls _ _ hclose with ⟨new, rfl, hok⟩ | ⟨_, ⟨_, _, _, rfl⟩ | ⟨_, _, w, _, hwrites, _⟩⟩
  . refine ⟨rfl, rfl, List.prefix_append _ _, .inr ⟨rfl, ?_⟩⟩
    rcases maybeCloseVersion_eq_ok_iff.mp hok with ⟨_, _, hnone⟩ | ⟨_, hlatest, hsome, _⟩
    . contradiction
    . have hle := le_maxVersionNumber hv
      have heq : v.versionNumber = maxVersionNumber s := by omega
      refine ⟨heq, ?_⟩
      rw [heq]
      refine @maxVersionNumber_concat s _ new rfl ?_
      cases hsome
      rfl
  . exact ⟨rfl, rfl, List.prefix_refl _, .inl rfl⟩
  . rcases hwrites with rfl | rfl
    . exact ⟨rfl, rfl, List.prefix_refl _, .inl rfl⟩
    . exact ⟨rfl, rfl, List.prefix_append _ _, .inl rfl⟩

theorem alone_of_serial {i : T} {writes : List Write} (h : Ledger s) (hv : v ∈ s.versions)
    (hserial : (resolution calls).serial i s = .ok (v, writes))
    : Alone s ((resolution calls).view s writes) v (calls i) writes := by
  have ⟨first, more, heq, _, hupdate, hclose⟩ := serial_eq_ok hserial
  subst heq
  have ⟨⟨ids, rows, hfirst⟩, hpending, hone⟩ := affected_updateEdits h hupdate
  have hversions : ((resolution calls).view s first).versions = s.versions := by
    rw [hfirst]
    rfl
  have hmax : maxVersionNumber ((resolution calls).view s first) = maxVersionNumber s := by
    unfold maxVersionNumber
    rw [hversions]
  have ⟨hnone, hedits, hgrows, hclosings⟩ :=
    @closings_closeVersion _ v T calls _ _ (by rw [hversions]; exact hv) hclose
  have haffected : affected (first ++ more) = affected first := by
    unfold affected at hnone ⊢
    rw [List.flatMap_append, hnone, List.append_nil]
  have hclosing : closings (first ++ more) = closings more := by
    rw [hfirst]
    rfl
  rw [view_append]
  refine ⟨?_, ?_, ?_, ?_, ?_⟩
  . rw [hedits, haffected, hfirst]
    have hids : affected [.status ids (calls i).decision, .audit rows] = ids := by simp [affected]
    rw [hids]
    rfl
  . rw [haffected]
    exact hpending
  . rw [haffected]
    exact hone
  . rw [hclosing]
    rw [hmax] at hclosings
    exact hclosings
  . rw [← hversions]
    exact hgrows

/--
What all transactions about the version rely on.
-/
structure Shared (calls : T → Call) (v : DocumentVersion) (s : State) : Prop where
  ledger : Ledger s
  version : v ∈ s.versions
  calls : ∀ i, (calls i).IsOn s v

theorem Shared.eq_of_authorise (h : Shared calls v s) {i : T} {w : DocumentVersion}
    (hauthorise : authorise s (calls i) = .ok w) : w = v := by
  have hon := h.calls i
  cases hcall : calls i with
  | one editId d =>
    rw [hcall] at hauthorise hon
    have ⟨row, hrow, hw, _⟩ := authorise_one_eq_ok_iff.mp hauthorise
    have hid := hon row (List.mem_of_find?_eq_some hrow) (of_decide_eq_true (List.find?_some hrow :))
    exact h.ledger.eq_of_id (List.mem_of_find?_eq_some hw) h.version ((of_decide_eq_true (List.find?_some hw :)).trans hid)
  | all versionId d =>
    rw [hcall] at hauthorise hon
    have ⟨hw, _⟩ := authorise_all_eq_ok_iff.mp hauthorise
    have hon : versionId = v.id := hon
    exact h.ledger.eq_of_id (List.mem_of_find?_eq_some hw) h.version ((of_decide_eq_true (List.find?_some hw :)).trans hon)

theorem Shared.serial (h : Shared calls v s) {i : T} {w : DocumentVersion} {writes : List Write}
    (hserial : (resolution calls).serial i s = .ok (w, writes))
    : w = v ∧ Alone s ((resolution calls).view s writes) v (calls i) writes
        ∧ Shared calls v ((resolution calls).view s writes) := by
  have ⟨_, _, _, hauthorise, _⟩ := serial_eq_ok hserial
  have heq := h.eq_of_authorise hauthorise
  subst heq
  have halone := alone_of_serial h.ledger h.version hserial
  refine ⟨rfl, halone, ?_, halone.versions.subset h.version, fun j => ?_⟩
  . rw [← @exec_of_serial ⟨.quoted, plainEnv.readers, plainEnv.sha256⟩ s w T calls i writes h.ledger hserial]
    exact ledger_exec h.ledger _
  . have hon := h.calls j
    cases hcall : calls j with
    | all versionId d =>
      rw [hcall] at hon
      exact hon
    | one editId d =>
      rw [hcall] at hon
      intro row hrow hid
      rw [halone.edits] at hrow
      have ⟨old, hold, heq⟩ := List.mem_map.mp hrow
      have hkept : old.id = row.id ∧ old.versionId = row.versionId := by
        rw [← heq]
        split <;> exact ⟨rfl, rfl⟩
      rw [← hkept.right]
      exact hon old hold (hkept.left.trans hid)

theorem oneLock (v : DocumentVersion) : OneLock (resolution calls) v.id (Shared calls v) where
  key s i w h hbegins := by
    rw [h.eq_of_authorise hbegins]
    rfl
  invariant s i w writes h hserial := (h.serial hserial).right.right
  stable s i w j w' writes h hbegins hserial := authorise_view writes hbegins

/--
What the committed transactions, one after the other, have done to the edits and to the versions.
-/
structure History (calls : T → Call) (v : DocumentVersion) (s t : State)
    (order : List (T × DocumentVersion × List Write)) : Prop where
  shared : Shared calls v t
  decided : ∀ entry ∈ order, ∀ row ∈ t.edits, row.id ∈ affected entry.2.2
    → row.status = (calls entry.1).decision.status ∧ row.resolvedById = some (calls entry.1).decision.actorId
  disjoint : order.Pairwise fun a b => ∀ id ∈ affected a.2.2, id ∉ affected b.2.2
  one : ∀ entry ∈ order, ∀ editId d, calls entry.1 = .one editId d → affected entry.2.2 = [editId]
  later : ∀ row ∈ s.edits, ∃ later ∈ t.edits, Later row later
    ∧ ((∀ entry ∈ order, row.id ∉ affected entry.2.2) → later = row)
  closings : order.flatMap (fun entry => closings entry.2.2) = []
    ∨ ((order.flatMap fun entry => closings entry.2.2).length = 1 ∧ v.versionNumber < maxVersionNumber t)

theorem History.concat {order : List (T × DocumentVersion × List Write)} (h : History calls v s t order) {i : T}
    {w : DocumentVersion} {writes : List Write} (hserial : (resolution calls).serial i t = .ok (w, writes))
    : History calls v s ((resolution calls).view t writes) (order ++ [(i, w, writes)]) := by
  have ⟨heq, halone, hshared⟩ := h.shared.serial hserial
  subst heq
  have hdecidedNot {entry : T × DocumentVersion × List Write} (hentry : entry ∈ order) {id : Uuid}
      (hid : id ∈ affected entry.2.2) : id ∉ affected writes := by
    intro hnew
    have ⟨row, hrow, hrowId, hpending⟩ := halone.pending id hnew
    have ⟨hstatus, _⟩ := h.decided entry hentry row hrow (by rw [hrowId]; exact hid)
    rw [hpending] at hstatus
    exact (calls entry.1).decision.status_ne_pending hstatus.symm
  refine ⟨hshared, ?_, ?_, ?_, ?_, ?_⟩
  . intro entry hentry row hrow hid
    rw [halone.edits] at hrow
    have ⟨old, hold, heq⟩ := List.mem_map.mp hrow
    have hsame : old.id = row.id := by
      rw [← heq]
      split <;> rfl
    rcases List.mem_append.mp hentry with hentry | hentry
    . rw [if_neg (by rw [hsame]; exact hdecidedNot hentry hid)] at heq
      rw [← heq] at hid ⊢
      exact h.decided entry hentry old hold hid
    . rw [List.mem_singleton.mp hentry] at hid ⊢
      rw [if_pos (by rw [hsame]; exact hid)] at heq
      rw [← heq]
      exact ⟨rfl, rfl⟩
  . rw [List.pairwise_append]
    refine ⟨h.disjoint, List.pairwise_singleton _ _, fun a ha b hb id hid => ?_⟩
    rw [List.mem_singleton.mp hb]
    exact hdecidedNot ha hid
  . intro entry hentry editId d hcall
    rcases List.mem_append.mp hentry with hentry | hentry
    . exact h.one entry hentry editId d hcall
    . rw [List.mem_singleton.mp hentry] at hcall ⊢
      exact halone.one editId d hcall
  . intro row hrow
    have ⟨later, hlater, hsame, hkept⟩ := h.later row hrow
    refine ⟨_, by rw [halone.edits]; exact List.mem_map_of_mem hlater, hsame.trans ?_, fun hnone => ?_⟩
    . split
      . next hmem =>
        have ⟨other, hother, hid, hpending⟩ := halone.pending _ hmem
        rw [h.shared.ledger.eq_of_editId hother hlater hid] at hpending
        exact ⟨rfl, rfl, rfl, fun hne => absurd hpending hne⟩
      . exact .refl later
    . rw [if_neg]
      . exact hkept fun entry hentry => hnone entry (List.mem_append_left _ hentry)
      . rw [hsame.id]
        exact hnone _ (List.mem_append_right _ (List.mem_singleton_self _))
  . rw [List.flatMap_append, List.flatMap_singleton]
    rcases h.closings with hnil | ⟨hlength, hlt⟩
    . rw [hnil, List.nil_append]
      rcases halone.closings with hnone | ⟨hone, _, hlt⟩
      . exact .inl hnone
      . exact .inr ⟨hone, hlt⟩
    . right
      have hnone : DocumentVersions.closings writes = [] := by
        refine halone.closings.resolve_right ?_
        rintro ⟨_, heq, _⟩
        omega
      rw [hnone, List.append_nil]
      exact ⟨hlength, hlt.trans_le (maxVersionNumber_mono halone.versions)⟩

theorem history_of_serial {order : List (T × DocumentVersion × List Write)} (h : Shared calls v s)
    (hserial : Serial (resolution calls) s order t)
    : History calls v s t order
        ∧ t = (order.map fun entry => (calls entry.1).request).foldl (exec E) s := by
  induction hserial with
  | nil =>
    refine ⟨⟨h, ?_, .nil, ?_, fun row hrow => ⟨row, hrow, .refl row, fun _ => rfl⟩, .inl rfl⟩, rfl⟩
    . intro entry hentry
      contradiction
    . intro entry hentry
      contradiction
  | concat before last ih =>
    have ⟨hhistory, heq⟩ := ih
    refine ⟨hhistory.concat last, ?_⟩
    rw [List.map_append, List.foldl_append, ← heq, ← @exec_of_serial E _ _ T calls _ _ hhistory.shared.ledger last]
    rfl

end History

section Outcomes

variable {calls : T → Call}

/--
The outcome of concurrent decisions about one version.
-/
structure ResolvedOnce [DecidableEq T] (calls : T → Call) (s : State)
    (σ : System State Write DocumentVersion Failure Uuid T) : Prop where
  /-- An edit has one audit row if it is decided, with its status and its actor, and none otherwise. -/
  recorded : ∀ row ∈ σ.db.edits, decisionsOn σ.db.audit row.id = row.decided.toList
  /-- A pending edit has stayed so, or it has the status of exactly one committed call. -/
  decided : ∀ row ∈ s.edits, row.status = .pending → ∃ later ∈ σ.db.edits, Later row later
    ∧ ((later.status = .pending ∧ ∀ i v writes, σ.phase i = .committed v writes → row.id ∉ affected writes)
      ∨ ∃ i v writes, σ.phase i = .committed v writes ∧ row.id ∈ affected writes
        ∧ later.status = (calls i).decision.status ∧ later.resolvedById = some (calls i).decision.actorId
        ∧ ∀ j v' writes', σ.phase j = .committed v' writes' → row.id ∈ affected writes' → j = i)
  /-- A call about one edit that has committed has decided it. -/
  one : ∀ i v writes editId d, calls i = .one editId d → σ.phase i = .committed v writes → affected writes = [editId]
  /-- A call about one edit fails if the edit is decided when it gets the lock. -/
  refused : ∀ i v editId d, calls i = .one editId d
    → σ.phase i = .running v ((resolution calls).statements i v) []
    → (∀ row ∈ σ.db.edits, row.id = editId → row.status ≠ .pending)
      → ((resolution calls).advance σ i).phase i = .failed .alreadyResolved
  /-- At most one version closes the decided one. -/
  closings : ∀ i j v w writes writes', σ.phase i = .committed v writes → σ.phase j = .committed w writes'
    → closings writes ≠ [] → closings writes' ≠ [] → i = j ∧ (closings writes).length = 1
  numbers : (σ.db.versions.map (·.versionNumber)).Nodup

theorem recorded_foldl (hledger : Ledger s) (h : Recorded s) (requests : List Request)
    : Recorded (requests.foldl (exec E) s) := by
  induction requests generalizing s with
  | nil => exact h
  | cons r requests ih => exact ih (ledger_exec hledger r) (recorded_exec h hledger.editIds r)

theorem refused_of_decided [DecidableEq T] {σ : System State Write DocumentVersion Failure Uuid T} {i : T}
    {editId : Uuid} (hcall : calls i = .one editId d)
    (hphase : σ.phase i = .running v ((resolution calls).statements i v) [])
    (hdecided : ∀ row ∈ σ.db.edits, row.id = editId → row.status ≠ .pending)
    : ((resolution calls).advance σ i).phase i = .failed .alreadyResolved := by
  have hnone : σ.db.edits.find? (fun row => decide (row.id = editId) && row.status = .pending) = none := by
    rw [List.find?_eq_none]
    intro row hrow hfound
    rw [Bool.and_eq_true, decide_eq_true_eq, decide_eq_true_eq] at hfound
    exact hdecided row hrow hfound.left hfound.right
  have hupdate : updateEdits v (calls i) ((resolution calls).view σ.db []) = .error .alreadyResolved := by
    rw [hcall, view_nil]
    unfold updateEdits
    dsimp only
    rw [hnone]
  unfold Program.advance
  rw [hphase]
  unfold resolution at hupdate ⊢
  dsimp only at hupdate ⊢
  rw [hupdate]
  exact phase_move _ _ _ _ |>.trans (if_pos rfl)

/--
Two entries with something in common are the same.
-/
theorem eq_of_flatMap_length {α β : Type} {f : α → List β} {l : List α} (hlength : (l.flatMap f).length ≤ 1) {a b : α}
    (ha : a ∈ l) (hb : b ∈ l) (hfa : f a ≠ []) (hfb : f b ≠ []) : a = b ∧ (f a).length = 1 := by
  induction l with
  | nil => contradiction
  | cons c l ih =>
    rw [List.flatMap_cons, List.length_append] at hlength
    have hpos {x : α} (hx : f x ≠ []) : 0 < (f x).length := List.length_pos_iff.mpr hx
    have htail {x : α} (hx : x ∈ l) : (f x).length ≤ (l.flatMap f).length := by
      have ⟨before, after, heq⟩ := List.append_of_mem hx
      rw [heq, List.flatMap_append, List.flatMap_cons, List.length_append, List.length_append]
      omega
    rcases List.mem_cons.mp ha with rfl | ha'
    . have := hpos hfa
      rcases List.mem_cons.mp hb with rfl | hb'
      . exact ⟨rfl, by omega⟩
      . have := hpos hfb
        have := htail hb'
        omega
    . rcases List.mem_cons.mp hb with rfl | hb'
      . have := hpos hfa
        have := hpos hfb
        have := htail ha'
        omega
      . exact ih (by omega) ha' hb'

theorem resolvedOnce_of_explains [DecidableEq T] {σ : System State Write DocumentVersion Failure Uuid T}
    {order : List (T × DocumentVersion × List Write)} (hshared : Shared calls v s) (hrecorded : Recorded s)
    (h : Explains (resolution calls) s σ order) : ResolvedOnce calls s σ := by
  have ⟨hhistory, hfold⟩ := @history_of_serial plainEnv s _ v T calls order hshared h.serial
  have hrec : Recorded σ.db := by
    rw [hfold]
    exact recorded_foldl hshared.ledger hrecorded _
  have hids := hhistory.shared.ledger.editIds
  refine ⟨fun row hrow => decisionsOn_of_mem hrec hids hrow, ?_, ?_, ?_, ?_, ?_⟩
  . intro row hrow hpending
    have ⟨later, hlater, hsame, hkept⟩ := hhistory.later row hrow
    refine ⟨later, hlater, hsame, ?_⟩
    by_cases hnone : ∀ entry ∈ order, row.id ∉ affected entry.2.2
    . left
      refine ⟨by rw [hkept hnone]; exact hpending, fun i w writes hphase => ?_⟩
      exact hnone (i, w, writes) ((h.committed i w writes).mpr hphase)
    . right
      push Not at hnone
      have ⟨⟨i, w, writes⟩, hentry, hid⟩ := hnone
      have ⟨hstatus, hactor⟩ := hhistory.decided _ hentry later hlater (by rw [hsame.id]; exact hid)
      refine ⟨i, w, writes, (h.committed i w writes).mp hentry, hid, hstatus, hactor, fun j w' writes' hphase hid' => ?_⟩
      have hentry' := (h.committed j w' writes').mpr hphase
      by_contra hne
      have hsymm : Std.Symm fun a b : T × DocumentVersion × List Write =>
          ∀ id ∈ affected a.2.2, id ∉ affected b.2.2 :=
        ⟨fun a b hab id hb ha => hab id ha hb⟩
      exact hhistory.disjoint.forall hentry hentry' (fun heq => hne (congrArg Prod.fst heq).symm) _ hid hid'
  . intro i w writes editId d hcall hphase
    exact hhistory.one (i, w, writes) ((h.committed i w writes).mpr hphase) editId d hcall
  . intro i w editId d hcall hphase hdecided
    exact refused_of_decided hcall hphase hdecided
  . intro i j w w' writes writes' hi hj hclosing hclosing'
    have hlength : (order.flatMap fun entry => closings entry.2.2).length ≤ 1 := by
      rcases hhistory.closings with hnil | ⟨hone, _⟩
      . rw [hnil]
        exact Nat.zero_le _
      . omega
    have ⟨heq, hone⟩ := eq_of_flatMap_length hlength ((h.committed i w writes).mpr hi) ((h.committed j w' writes').mpr hj)
      hclosing hclosing'
    exact ⟨congrArg Prod.fst heq, hone⟩
  . rw [hhistory.shared.ledger.numbers]
    exact List.nodup_range'

variable (E) in
/--
Decisions about one version that are taken at the same time, in any interleaving of their first reads, locks, updates,
closings, commits and rollbacks, decide every edit at most once and close the version at most once.
-/
theorem resolvedOnce_run [DecidableEq T] (u : FirstUpload) (requests : List Request) (v : DocumentVersion)
    (calls : T → Call) (events : List (T × Action)) (hv : v ∈ (run E u requests).versions)
    (hcalls : ∀ i, (calls i).IsOn (run E u requests) v)
    : ResolvedOnce calls (run E u requests) ((resolution calls).run (run E u requests) events) := by
  have hshared : Shared calls v (run E u requests) := ⟨ledger_run u requests, hv, hcalls⟩
  have ⟨order, hexplains⟩ := explains_run (oneLock v) hshared events
  exact resolvedOnce_of_explains hshared (recorded_run u requests) hexplains

variable (E) in
/--
What is committed in any interleaving is what the committed calls do one after the other in some order.
-/
theorem concurrent_serializable [DecidableEq T] (u : FirstUpload) (requests : List Request) (v : DocumentVersion)
    (calls : T → Call) (events : List (T × Action)) (hv : v ∈ (run E u requests).versions)
    (hcalls : ∀ i, (calls i).IsOn (run E u requests) v)
    : ∃ order : List T, order.Nodup
        ∧ (∀ i, i ∈ order ↔ ∃ w writes, ((resolution calls).run (run E u requests) events).phase i = .committed w writes)
        ∧ ((resolution calls).run (run E u requests) events).db
          = run E u (requests ++ order.map fun i => (calls i).request) := by
  have hshared : Shared calls v (run E u requests) := ⟨ledger_run u requests, hv, hcalls⟩
  have ⟨order, hexplains⟩ := explains_run (oneLock v) hshared events
  have ⟨_, hfold⟩ := @history_of_serial E _ _ v T calls order hshared hexplains.serial
  refine ⟨order.map Prod.fst, hexplains.nodup, fun i => ?_, ?_⟩
  . rw [List.mem_map]
    constructor
    . rintro ⟨⟨_, w, writes⟩, hentry, rfl⟩
      exact ⟨w, writes, (hexplains.committed _ w writes).mp hentry⟩
    . rintro ⟨w, writes, hphase⟩
      exact ⟨(i, w, writes), (hexplains.committed i w writes).mpr hphase, rfl⟩
  . rw [hfold]
    unfold run
    rw [List.foldl_append, List.map_map]
    rfl

/--
Two calls about one edit of a proposal.
-/
def twoCalls : Bool → Call
  | false => .one (Uuid.ofNat 10) (decision true 3)
  | true => .all (Uuid.ofNat 2) (decision false 4)

/--
Both calls read first, and the second one waits for the lock of the first.
-/
def twoEvents : List (Bool × Action) :=
  [(false, .advance), (true, .advance), (false, .advance), (true, .advance), (false, .advance), (false, .advance),
    (false, .advance), (true, .advance), (true, .advance), (true, .advance), (true, .advance)]

theorem isOn_twoCalls : ∃ v ∈ (run plainEnv lease [proposal 2 10 "tenant" "lessee"]).versions,
    ∀ i, (twoCalls i).IsOn (run plainEnv lease [proposal 2 10 "tenant" "lessee"]) v := by
  have hversion : ∃ v ∈ (run plainEnv lease [proposal 2 10 "tenant" "lessee"]).versions, v.id = Uuid.ofNat 2 := by
    decide +kernel
  have hedits : ∀ row ∈ (run plainEnv lease [proposal 2 10 "tenant" "lessee"]).edits, row.versionId = Uuid.ofNat 2 := by
    decide +kernel
  have ⟨v, hv, hid⟩ := hversion
  refine ⟨v, hv, fun i => ?_⟩
  cases i with
  | false => exact fun row hrow _ => (hedits row hrow).trans hid.symm
  | true => exact hid.symm

theorem resolvedOnce_twoCalls
    : ResolvedOnce twoCalls (run plainEnv lease [proposal 2 10 "tenant" "lessee"])
      ((resolution twoCalls).run (run plainEnv lease [proposal 2 10 "tenant" "lessee"]) twoEvents) := by
  have ⟨v, hv, hcalls⟩ := isOn_twoCalls
  exact resolvedOnce_run plainEnv lease [proposal 2 10 "tenant" "lessee"] v twoCalls twoEvents hv hcalls

theorem serializable_twoCalls
    : ∃ order : List Bool, order.Nodup
        ∧ (∀ i, i ∈ order ↔ ∃ w writes, ((resolution twoCalls).run
          (run plainEnv lease [proposal 2 10 "tenant" "lessee"]) twoEvents).phase i = .committed w writes)
        ∧ ((resolution twoCalls).run (run plainEnv lease [proposal 2 10 "tenant" "lessee"]) twoEvents).db
          = run plainEnv lease ([proposal 2 10 "tenant" "lessee"] ++ order.map fun i => (twoCalls i).request) := by
  have ⟨v, hv, hcalls⟩ := isOn_twoCalls
  exact concurrent_serializable plainEnv lease [proposal 2 10 "tenant" "lessee"] v twoCalls twoEvents hv hcalls

example : getBaseText ((resolution twoCalls).run (run plainEnv lease [proposal 2 10 "tenant" "lessee"]) twoEvents).db
    = py "The lessee pays." := by
  decide +kernel

end Outcomes

end DocumentVersions
