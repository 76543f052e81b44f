import Legalise.Lib.Runs
import Legalise.Matters.Routes

/-!
This module contains the requests of its owner to a matter that is deleted, and which of them are refused.
-/

namespace Matters

section Run

/--
A run of requests: what is committed, and the requests with the responses they got.
-/
structure Run where
  db : Database
  answers : List (Request × Except HttpError Nat)

def Run.start (db : Database) : Run := ⟨db, []⟩

def Run.exec (E : Env) (userId : Uuid) (slug : PyStr) (s : Run) (r : Request) : Run :=
  let (db, response) := handle E s.db userId slug r
  ⟨db, s.answers ++ [(r, response)]⟩

/--
The responses of a deleted matter.
-/
def Refused : Request → Except HttpError Nat → Prop
  | .closeMatter _, .error e => e.status = 409
  | _, .error e => e.status = 404
  | _, .ok _ => False

/--
The row of a matter, its documents with their versions, and its audit rows.
-/
structure Unchanged (m : Matter) (before after : Database) : Prop where
  row : (after.matters.filter fun other => other.id = m.id) = before.matters.filter fun other => other.id = m.id
  documents : (after.documents.filter fun d => d.matterId = m.id) = before.documents.filter fun d => d.matterId = m.id
  versions : ∀ d ∈ before.documents, d.matterId = m.id
    → (after.versions.filter fun v => v.documentId = d.id) = before.versions.filter fun v => v.documentId = d.id
  audit : (after.audit.filter fun log => log.matterId = some m.id) = before.audit.filter fun log => log.matterId = some m.id

/--
What is promised of a matter that is deleted.
-/
structure Inert (m : Matter) (db : Database) (s : Run) : Prop where
  refused : ∀ answer ∈ s.answers, Refused answer.fst answer.snd
  unchanged : Unchanged m db s.db

/--
The requests whose route looks at the status of the matter. The route of the posture does not, and that of the model
looks at the model first.
-/
def Request.IsGuarded : Request → Prop
  | .setPrivilegePosture _ => False
  | .updateMatter modelId => isKnownModel modelId = true
  | _ => True

end Run

section Lookup

variable {E : Env} {db : Database} {m : Matter}

theorem Unchanged.refl (m : Matter) (db : Database) : Unchanged m db db :=
  ⟨rfl, rfl, fun _ _ _ => rfl, rfl⟩

theorem Unchanged.mem {after : Database} (h : Unchanged m db after) (hm : m ∈ db.matters) : m ∈ after.matters := by
  have hfilter : m ∈ db.matters.filter fun other => other.id = m.id := by
    simp [hm]
  rw [← h.row] at hfilter
  exact List.mem_of_mem_filter hfilter

theorem matter?_eq_some (hm : m ∈ db.matters) : db.matter? m.createdById m.slug = some m := by
  unfold Database.matter?
  have hfind : (db.matters.find? fun other => other.key = (m.createdById, m.slug)).isSome = true := by
    rw [List.find?_isSome]
    exact ⟨m, hm, by simp [Matter.key]⟩
  have ⟨found, hfound⟩ := Option.isSome_iff_exists.mp hfind
  rw [hfound]
  have hkey := List.find?_some hfound
  rw [decide_eq_true_eq] at hkey
  rw [List.inj_on_of_nodup_map db.keys (List.mem_of_find?_eq_some hfound) hm hkey]

theorem resolveOwnedOpenMatter_eq_error (hm : m ∈ db.matters) (harchived : m.status = statusArchived)
    : resolveOwnedOpenMatter db m.createdById m.slug = .error (matterNotFound m.slug) := by
  unfold resolveOwnedOpenMatter
  have hfind : (db.matters.find? fun other => other.key = (m.createdById, m.slug) ∧ other.status ≠ statusArchived)
      = none := by
    rw [List.find?_eq_none]
    intro other hother hmatch
    simp only [decide_eq_true_eq] at hmatch
    have heq := List.inj_on_of_nodup_map db.keys hother hm hmatch.left
    rw [heq] at hmatch
    exact hmatch.right harchived
  rw [hfind]

/--
A guarded request is refused and commits nothing.
-/
theorem handle_of_isGuarded (hm : m ∈ db.matters) (harchived : m.status = statusArchived) {r : Request}
    (hguarded : r.IsGuarded)
    : (handle E db m.createdById m.slug r).fst = db ∧ Refused r (handle E db m.createdById m.slug r).snd := by
  cases r with
  | uploadDocument u =>
    unfold handle uploadDocument checkUpload
    dsimp only
    rw [resolveOwnedOpenMatter_eq_error hm harchived]
    exact ⟨rfl, rfl⟩
  | reindexDocuments =>
    unfold handle reindexDocuments
    dsimp only
    rw [resolveOwnedOpenMatter_eq_error hm harchived]
    exact ⟨rfl, rfl⟩
  | setPrivilegePosture posture => exact hguarded.elim
  | updateMatter modelId =>
    have hknown : isKnownModel modelId = true := hguarded
    unfold handle updateMatter
    dsimp only
    rw [if_neg (by simp [hknown]), matter?_eq_some hm]
    dsimp only
    rw [if_pos harchived]
    exact ⟨rfl, rfl⟩
  | closeMatter now =>
    unfold handle closeMatter
    dsimp only
    rw [matter?_eq_some hm]
    dsimp only
    rw [if_pos harchived]
    exact ⟨rfl, rfl⟩
  | deleteMatter storageDeleted =>
    unfold handle deleteMatter
    dsimp only
    rw [matter?_eq_some hm]
    dsimp only
    rw [if_pos harchived]
    exact ⟨rfl, rfl⟩

/--
Any other request gets another response.
-/
theorem not_refused_of_not_isGuarded (hm : m ∈ db.matters) {r : Request} (hguarded : ¬ r.IsGuarded)
    : ¬ Refused r (handle E db m.createdById m.slug r).snd := by
  cases r with
  | setPrivilegePosture posture =>
    unfold handle setPrivilegePosture
    dsimp only
    split
    . exact fun h => absurd (show (400 : Nat) = 404 from h) (by decide)
    . rw [matter?_eq_some hm]
      dsimp only
      split <;> exact fun h => h
  | updateMatter modelId =>
    have hunknown : isKnownModel modelId = false := Bool.eq_false_iff.mpr hguarded
    unfold handle updateMatter
    dsimp only
    rw [if_pos (by simp [hunknown])]
    exact fun h => absurd (show (422 : Nat) = 404 from h) (by decide)
  | uploadDocument u => exact absurd trivial hguarded
  | reindexDocuments => exact absurd trivial hguarded
  | closeMatter now => exact absurd trivial hguarded
  | deleteMatter storageDeleted => exact absurd trivial hguarded

theorem inert_exec_iff {s : Run} (hm : m ∈ db.matters) (harchived : m.status = statusArchived) (h : Inert m db s)
    (r : Request) : Inert m db (s.exec E m.createdById m.slug r) ↔ r.IsGuarded := by
  have hmem := h.unchanged.mem hm
  constructor
  . intro h'
    by_contra hguarded
    refine @not_refused_of_not_isGuarded E s.db m hmem r hguarded (h'.refused (r, _) ?_)
    exact List.mem_append_right _ (List.mem_singleton_self _)
  . intro hguarded
    have ⟨hdb, hrefused⟩ := @handle_of_isGuarded E s.db m hmem harchived r hguarded
    unfold Run.exec
    refine ⟨fun answer hanswer => ?_, ?_⟩
    . rcases List.mem_append.mp hanswer with hold | hnew
      . exact h.refused answer hold
      . rw [List.mem_singleton.mp hnew]
        exact hrefused
    . dsimp only
      rw [hdb]
      exact h.unchanged

end Lookup

/--
A deleted matter is inert for a run of requests of its owner if and only if none of them sets the posture, or the
model to one that is not in the catalog.
-/
theorem inert_iff_isGuarded (E : Env) (db : Database) (m : Matter) (hm : m ∈ db.matters)
    (harchived : m.status = statusArchived) (requests : List Request)
    : (∀ earlier, earlier <+: requests → Inert m db (earlier.foldl (Run.exec E m.createdById m.slug) (.start db)))
        ↔ ∀ r ∈ requests, r.IsGuarded := by
  have hiff := @Runs.holds_iff_good Run Request (Run.exec E m.createdById m.slug) (fun _ => True) (Inert m db)
    (fun _ r => r.IsGuarded) (fun _ _ _ => trivial) (fun s r _ h => inert_exec_iff hm harchived h r)
    (.start db) trivial ⟨fun _ h => absurd h List.not_mem_nil, Unchanged.refl m db⟩ requests
  rw [hiff]
  constructor
  . intro h r hr
    have ⟨before, after, heq⟩ := List.append_of_mem hr
    exact h before r ⟨after, by simp [heq]⟩
  . intro h earlier r hbegin
    exact h r (hbegin.subset (by simp))

section Lifted

/--
A matter that was deleted when its posture was paused.
-/
def deletedMatter : Matter where
  id := Uuid.ofNat 1
  slug := py "acme-v-bolt"
  title := py "Acme v Bolt"
  createdById := Uuid.ofNat 2
  status := statusArchived
  privilegePosture := privilegePaused
  defaultModelId := py "stub-echo"
  closedAt := none

def deletedDatabase : Database where
  matters := [deletedMatter]
  ids := List.nodup_singleton _
  keys := List.nodup_singleton _
  documents := []
  versions := []
  jobs := []
  grants := .empty
  audit := []

theorem inert_iff_isGuarded_deleted
    : (∀ earlier, earlier <+: [.reindexDocuments, .deleteMatter true]
        → Inert deletedMatter deletedDatabase
          (earlier.foldl (Run.exec plainEnv deletedMatter.createdById deletedMatter.slug) (.start deletedDatabase)))
        ↔ ∀ r ∈ [Request.reindexDocuments, .deleteMatter true], r.IsGuarded :=
  inert_iff_isGuarded plainEnv deletedDatabase deletedMatter (List.mem_singleton_self _) rfl _

/--
The owner lifts the posture of the deleted matter: the response is 200, the row changes, and an audit row is added.
-/
theorem liftedPosture_not_inert
    : ¬ ∀ earlier, earlier <+: [.setPrivilegePosture privilegeCleared]
      → Inert deletedMatter deletedDatabase
        (earlier.foldl (Run.exec plainEnv deletedMatter.createdById deletedMatter.slug) (.start deletedDatabase)) := by
  intro h
  have hunchanged := (h _ (List.prefix_refl _)).unchanged.audit
  have hlength := congrArg List.length hunchanged
  revert hlength
  decide +kernel

end Lifted

end Matters
