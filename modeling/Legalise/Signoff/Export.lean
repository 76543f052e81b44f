import Legalise.Signoff.Basic
import Legalise.Lib.Sweep

/-!
This module contains the current sign-off of every artifact and the labels of an export.
-/

namespace Signoff

section Current

/--
The order of the rows, from the earliest to the latest.
-/
def MatterSignoff.key (row : MatterSignoff) : Int ×ₗ Nat :=
  toLex (row.signedAt, row.id.int)

/--
All sign-offs of a matter, newest first.
-/
def listSignoffs (signoffs : List MatterSignoff) (matterId : Uuid) : List MatterSignoff :=
  Sweep.sortBy (fun row => OrderDual.toDual row.key) (signoffs.filter fun row => row.matterId = matterId)

/--
The loop of `current_signoff_ids`: the artifacts seen so far and the ids found so far.
-/
def scanCurrent : List Uuid → List Uuid → List MatterSignoff → List Uuid
  | _, current, [] => current
  | seen, current, row :: rows =>
    if seen.contains row.artifactId then scanCurrent seen current rows
    else scanCurrent (row.artifactId :: seen) (row.id :: current) rows

def currentSignoffIds (rows : List MatterSignoff) : List Uuid :=
  scanCurrent [] [] rows

/--
`{s.artifact_id: s for s in rows if s.id in current_ids}`, where the last row of an artifact counts.
-/
def currentByArtifact (rows : List MatterSignoff) (artifactId : Uuid) : Option MatterSignoff :=
  (rows.filter fun row => (currentSignoffIds rows).contains row.id).reverse.find? fun row =>
    row.artifactId = artifactId

theorem mem_scanCurrent {seen current : List Uuid} {rows : List MatterSignoff} {id : Uuid}
    : id ∈ scanCurrent seen current rows
        ↔
      id ∈ current ∨ ∃ before row after, rows = before ++ row :: after ∧ row.id = id
        ∧ row.artifactId ∉ seen ∧ ∀ other ∈ before, other.artifactId ≠ row.artifactId := by
  induction rows generalizing seen current with
  | nil => simp [scanCurrent]
  | cons row rows ih =>
    unfold scanCurrent
    by_cases hseen : row.artifactId ∈ seen
    . rw [if_pos (by simpa using hseen), ih]
      refine or_congr_right ?_
      constructor
      . rintro ⟨before, found, after, rfl, hid, hnew, hbefore⟩
        refine ⟨row :: before, found, after, rfl, hid, hnew, ?_⟩
        rw [List.forall_mem_cons]
        exact ⟨fun heq => hnew (heq ▸ hseen), hbefore⟩
      . rintro ⟨before, found, after, hrows, hid, hnew, hbefore⟩
        cases before with
        | nil =>
          rw [List.nil_append, List.cons.injEq] at hrows
          exact absurd (hrows.left ▸ hseen) hnew
        | cons first before =>
          rw [List.cons_append, List.cons.injEq] at hrows
          exact ⟨before, found, after, hrows.right, hid, hnew, fun other h => hbefore other (by simp [h])⟩
    . rw [if_neg (by simpa using hseen), ih, List.mem_cons, or_assoc, or_left_comm]
      refine or_congr_right ?_
      constructor
      . rintro (rfl | ⟨before, found, after, rfl, hid, hnew, hbefore⟩)
        . exact ⟨[], row, rows, rfl, rfl, hseen, by simp⟩
        . rw [List.mem_cons, not_or] at hnew
          refine ⟨row :: before, found, after, rfl, hid, hnew.right, ?_⟩
          rw [List.forall_mem_cons]
          exact ⟨fun heq => hnew.left heq.symm, hbefore⟩
      . rintro ⟨before, found, after, hrows, hid, hnew, hbefore⟩
        cases before with
        | nil =>
          rw [List.nil_append, List.cons.injEq] at hrows
          exact .inl (by rw [hrows.left, hid])
        | cons first before =>
          rw [List.cons_append, List.cons.injEq] at hrows
          rw [List.forall_mem_cons] at hbefore
          refine .inr ⟨before, found, after, hrows.right, hid, ?_, hbefore.right⟩
          rw [List.mem_cons, not_or]
          exact ⟨fun heq => hbefore.left (by rw [← hrows.left, heq]), hnew⟩

/--
The scan finds the first row of every artifact.
-/
theorem mem_currentSignoffIds {rows : List MatterSignoff} {id : Uuid}
    : id ∈ currentSignoffIds rows
        ↔
      ∃ before row after, rows = before ++ row :: after ∧ row.id = id
        ∧ ∀ other ∈ before, other.artifactId ≠ row.artifactId := by
  unfold currentSignoffIds
  rw [mem_scanCurrent]
  simp

variable {signoffs : List MatterSignoff} {matterId : Uuid}

theorem mem_listSignoffs {row : MatterSignoff}
    : row ∈ listSignoffs signoffs matterId ↔ row ∈ signoffs ∧ row.matterId = matterId := by
  unfold listSignoffs
  simp

theorem pairwise_listSignoffs
    : (listSignoffs signoffs matterId).Pairwise fun a b => b.key ≤ a.key :=
  @Sweep.pairwise_sortBy _ _ _ (fun row : MatterSignoff => OrderDual.toDual row.key) _

theorem nodup_listSignoffs (hids : (signoffs.map MatterSignoff.id).Nodup)
    : ((listSignoffs signoffs matterId).map MatterSignoff.id).Nodup := by
  have hperm := (@Sweep.perm_sortBy _ _ _ (fun row : MatterSignoff => OrderDual.toDual row.key)
    (signoffs.filter fun row => row.matterId = matterId)).map MatterSignoff.id
  exact hperm.nodup_iff.mpr (hids.sublist (List.filter_sublist.map _))

theorem id_eq_of_key_eq {a b : MatterSignoff} (h : a.key = b.key) : a.id = b.id := by
  unfold MatterSignoff.key at h
  rw [toLex_inj, Prod.mk.injEq] at h
  have ⟨_, h⟩ := h
  cases ha : a.id
  cases hb : b.id
  simpa [ha, hb] using h

/--
A sign-off of a matter is current if and only if it is the greatest of its artifact.
-/
theorem mem_currentSignoffIds_listSignoffs (hids : (signoffs.map MatterSignoff.id).Nodup)
    {row : MatterSignoff} (hrow : row ∈ listSignoffs signoffs matterId)
    : row.id ∈ currentSignoffIds (listSignoffs signoffs matterId)
        ↔
      ∀ other ∈ listSignoffs signoffs matterId, other.artifactId = row.artifactId → other.key ≤ row.key := by
  have hnodup := @nodup_listSignoffs signoffs matterId hids
  have hsorted := @pairwise_listSignoffs signoffs matterId
  generalize listSignoffs signoffs matterId = rows at hrow hnodup hsorted ⊢
  rw [mem_currentSignoffIds]
  constructor
  . rintro ⟨before, found, after, hrows, hid, hbefore⟩ other hother heq
    have : found = row := List.inj_on_of_nodup_map hnodup (by simp [hrows]) hrow hid
    subst this
    rw [hrows, List.pairwise_append, List.pairwise_cons] at hsorted
    rw [hrows, List.mem_append, List.mem_cons] at hother
    rcases hother with hother | rfl | hother
    . exact absurd heq (hbefore other hother)
    . exact le_refl _
    . exact hsorted.right.left.left other hother
  . intro hgreatest
    have ⟨before, after, hrows⟩ := List.append_of_mem hrow
    refine ⟨before, row, after, hrows, rfl, ?_⟩
    intro other hother heq
    have hmem : other ∈ rows := by simp [hrows, hother]
    rw [hrows, List.pairwise_append] at hsorted
    have hle := hsorted.right.right other hother row (by simp)
    have hid := id_eq_of_key_eq (le_antisymm (hgreatest other hmem heq) hle)
    rw [hrows, List.map_append, List.nodup_append] at hnodup
    exact hnodup.right.right _ (List.mem_map_of_mem hother) _ (by simp) hid

/--
The label of an artifact names its greatest sign-off, and there is one if and only if the artifact has a
sign-off.
-/
theorem currentByArtifact_eq_some_iff (hids : (signoffs.map MatterSignoff.id).Nodup) {artifactId : Uuid}
    {row : MatterSignoff}
    : currentByArtifact (listSignoffs signoffs matterId) artifactId = some row
        ↔
      row ∈ listSignoffs signoffs matterId ∧ row.artifactId = artifactId
        ∧ ∀ other ∈ listSignoffs signoffs matterId, other.artifactId = artifactId → other.key ≤ row.key := by
  have hcurrent {row : MatterSignoff} (h : row ∈ listSignoffs signoffs matterId) :=
    mem_currentSignoffIds_listSignoffs hids h
  have hnodup := @nodup_listSignoffs signoffs matterId hids
  unfold currentByArtifact
  constructor
  . intro h
    have hmem := List.mem_of_find?_eq_some h
    have hartifact := List.find?_some h
    rw [List.mem_reverse, List.mem_filter, List.contains_iff_mem] at hmem
    rw [decide_eq_true_eq] at hartifact
    refine ⟨hmem.left, hartifact, ?_⟩
    exact hartifact ▸ (hcurrent hmem.left).mp hmem.right
  . rintro ⟨hrow, rfl, hgreatest⟩
    cases hfind : List.find? (fun other => decide (other.artifactId = row.artifactId))
        ((listSignoffs signoffs matterId).filter fun row =>
          (currentSignoffIds (listSignoffs signoffs matterId)).contains row.id).reverse with
    | none =>
      rw [List.find?_eq_none] at hfind
      refine absurd (hfind row ?_) (by simp)
      rw [List.mem_reverse, List.mem_filter, List.contains_iff_mem]
      exact ⟨hrow, (hcurrent hrow).mpr hgreatest⟩
    | some found =>
      have hmem := List.mem_of_find?_eq_some hfind
      have hartifact := List.find?_some hfind
      rw [List.mem_reverse, List.mem_filter, List.contains_iff_mem] at hmem
      rw [decide_eq_true_eq] at hartifact
      have hle := (hcurrent hmem.left).mp hmem.right row hrow hartifact.symm
      have hid := id_eq_of_key_eq (le_antisymm (hgreatest found hmem.left hartifact) hle)
      rw [List.inj_on_of_nodup_map hnodup hmem.left hrow hid]

theorem exists_currentByArtifact (hids : (signoffs.map MatterSignoff.id).Nodup) {artifactId : Uuid}
    {row : MatterSignoff} (hrow : row ∈ listSignoffs signoffs matterId) (h : row.artifactId = artifactId)
    : ∃ current, currentByArtifact (listSignoffs signoffs matterId) artifactId = some current := by
  have ⟨current, hmem, hgreatest⟩ := Finset.exists_max_image
    (((listSignoffs signoffs matterId).filter fun row => row.artifactId = artifactId).map
      MatterSignoff.key).toFinset id
    ⟨row.key, List.mem_toFinset.mpr (List.mem_map_of_mem (List.mem_filter.mpr ⟨hrow, by simpa using h⟩))⟩
  rw [List.mem_toFinset] at hmem
  have ⟨current, hmem, hkey⟩ := List.mem_map.mp hmem
  rw [List.mem_filter, decide_eq_true_eq] at hmem
  refine ⟨current, (currentByArtifact_eq_some_iff hids).mpr ⟨hmem.left, hmem.right, ?_⟩⟩
  intro other hother heq
  rw [hkey]
  exact hgreatest other.key (List.mem_toFinset.mpr
    (List.mem_map_of_mem (List.mem_filter.mpr ⟨hother, by simpa using heq⟩)))

end Current

section Labels

/--
The metadata of an artifact in an export: what the sign-offs say about it.
-/
structure ArtifactEntry where
  id : Uuid
  moduleId : PyStr
  capabilityId : PyStr
  invocationId : Uuid
  kind : PyStr
  createdById : Option Uuid
  signoffStatus : PyStr
  signedById : Option Uuid
  signedAt : Option Int
  signoffHash : Option PyStr
  signoffHashMatches : Option Bool

/--
The entry of an artifact before its bytes are looked at.
-/
def metadataEntry (artifact : MatterArtifact) (current : Option MatterSignoff) : ArtifactEntry where
  id := artifact.id
  moduleId := artifact.moduleId.val
  capabilityId := artifact.capabilityId.val
  invocationId := artifact.invocationId
  kind := artifact.kind.val
  createdById := artifact.createdById
  signoffStatus := (current.map fun row => row.decision.str).getD (py "unsigned")
  signedById := current.map MatterSignoff.signerId
  signedAt := current.map MatterSignoff.signedAt
  signoffHash := current.map MatterSignoff.artifactHash
  signoffHashMatches := none

/--
The entry of an artifact, with its id if its bytes are unavailable.
-/
def exportArtifact (E : Env) (objects : Objects) (artifact : MatterArtifact) (current : Option MatterSignoff)
    : Except SignoffError (ArtifactEntry × Option Uuid) :=
  let entry := metadataEntry artifact current
  match loadArtifactBytes objects artifact.storagePath, current with
  | .error (.artifactBytesUnavailable _), _ => .ok (entry, some artifact.id)
  | .error e, _ => .error e
  | .ok _, none => .ok (entry, none)
  | .ok _, some row =>
    match computeSignoffHash E objects artifact with
    | .error (.artifactBytesUnavailable _) => .ok (entry, some artifact.id)
    | .error e => .error e
    | .ok hash => .ok ({ entry with signoffHashMatches := some (hash = row.artifactHash) }, none)

/--
The loop over the artifacts of a matter: the entries, and the artifacts without bytes.
-/
def exportArtifacts (E : Env) (objects : Objects) (current : Uuid → Option MatterSignoff)
    : List MatterArtifact → Except SignoffError (List ArtifactEntry × List Uuid)
  | [] => .ok ([], [])
  | artifact :: artifacts => do
    let (entry, unavailable) ← exportArtifact E objects artifact (current artifact.id)
    let (entries, unavailables) ← exportArtifacts E objects current artifacts
    return (entry :: entries, unavailable.toList ++ unavailables)

/--
The labels in `build_matter_export`.
-/
def matterExport (E : Env) (artifacts : List MatterArtifact) (s : State) (matterId : Uuid)
    : Except SignoffError (List ArtifactEntry × List Uuid) :=
  exportArtifacts E s.objects (currentByArtifact (listSignoffs s.signoffs matterId))
    (artifacts.filter fun artifact => artifact.matterId = matterId)

/--
The `is_current` of a sign-off in `signoffs.json`.
-/
def isCurrent (s : State) (matterId : Uuid) (row : MatterSignoff) : Bool :=
  (currentSignoffIds (listSignoffs s.signoffs matterId)).contains row.id

variable {E : Env} {objects : Objects} {current : Uuid → Option MatterSignoff}

/--
An export has an entry for every artifact, in their order, if none of them is refused.
-/
theorem exportArtifacts_eq_ok {artifacts : List MatterArtifact} {entryOf : MatterArtifact → ArtifactEntry × Option Uuid}
    (h : ∀ artifact ∈ artifacts, exportArtifact E objects artifact (current artifact.id) = .ok (entryOf artifact))
    : exportArtifacts E objects current artifacts
        = .ok (artifacts.map fun artifact => (entryOf artifact).fst,
            artifacts.filterMap fun artifact => (entryOf artifact).snd) := by
  induction artifacts with
  | nil => rfl
  | cons artifact artifacts ih =>
    rw [List.forall_mem_cons] at h
    rw [exportArtifacts, h.left, ih h.right]
    cases hsnd : (entryOf artifact).snd <;> simp [hsnd, pure, Except.pure, bind, Except.bind]

end Labels

end Signoff
