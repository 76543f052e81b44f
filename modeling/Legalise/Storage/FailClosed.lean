import Legalise.Storage.S3
import Legalise.Capabilities.Grants

/-!
This module contains the deletions of matters and documents, whose objects are purged before anything is
committed, and when no object outlives a committed deletion.
-/

namespace Storage

open Capabilities (GrantTable Deletion tombstoneMatter)

def matterPrefix (userId matterId : Uuid) : PyStr :=
  py "users/" ++ userId.str ++ py "/matters/" ++ matterId.str ++ py "/"

def documentPrefix (userId matterId documentId : Uuid) : PyStr :=
  py "users/" ++ userId.str ++ py "/matters/" ++ matterId.str ++ py "/documents/" ++ documentId.str ++ py "/"

structure Document where
  id : Uuid
  filename : PyStr
  sha256 : PyStr
  deriving DecidableEq

/--
The objects, and what is committed about one matter.
-/
structure System where
  bucket : Bucket
  archived : Bool
  documents : List Document
  grants : GrantTable
  audit : List AuditLog

section Delete

variable (R : PyRepr) (client : S3Client)

/--
`tombstone_matter` of a live matter, followed by the commit of its caller, which may fail. The storage flag of
the deletion is the outcome of the purge.
-/
def deleteMatter (s : System) (ownerId : Uuid) (d : Deletion) (commits : Bool) : System :=
  if s.archived || 0 < d.activeCount then s
  else
    let (bucket, result) := deletePrefix R client s.bucket (matterPrefix ownerId d.matterId)
    match tombstoneMatter s.grants { d with storageDeleted := result.isOk } with
    | .ok (grants, audit) =>
      if commits then
        { s with bucket := bucket, archived := true, grants := grants, audit := s.audit ++ audit }
      else { s with bucket := bucket }
    | .error _ => { s with bucket := bucket }

def documentDeleted (userId matterId : Uuid) (doc : Document) : AuditLog where
  action := py "document.deleted"
  actorId := some userId
  matterId := some matterId
  resourceType := some (py "document")
  resourceId := some doc.id.str
  payload := [(py "filename", .str doc.filename), (py "sha256", .str doc.sha256)]

/--
`delete_document` of an owned document, with its commit, which may fail.
-/
def deleteDocument (s : System) (userId matterId : Uuid) (doc : Document) (commits : Bool) : System :=
  if s.archived || doc ∉ s.documents then s
  else
    let (bucket, result) := deletePrefix R client s.bucket (documentPrefix userId matterId doc.id)
    if result.isOk && commits then
      {
        s with
        bucket := bucket
        documents := s.documents.filter fun other => other.id ≠ doc.id
        audit := s.audit ++ [documentDeleted userId matterId doc]
      }
    else { s with bucket := bucket }

end Delete

section FailClosed

variable (R : PyRepr) (client : S3Client) (b : Bucket) (keyPrefix : PyStr)

/--
One of the objects that were there under the prefix has survived.
-/
def Survives (after : Bucket) : Prop :=
  ∃ key ∈ b.keysUnder keyPrefix, key ∈ after.keys

/--
A purge that returns normally leaves no listed key, and a deletion that purges the prefix commits nothing if
an object survives.
-/
structure FailClosed : Prop where
  purge : ∀ keys after n, listKeys client b keyPrefix = .ok keys
    → deletePrefix R client b keyPrefix = (after, .ok n) → ∀ key ∈ keys, key ∉ after.keys
  matter : ∀ (s : System) ownerId d commits, s.bucket = b → matterPrefix ownerId d.matterId = keyPrefix
    → s.archived = false →
      ((deleteMatter R client s ownerId d commits).archived = true
        → ¬ Survives b keyPrefix (deleteMatter R client s ownerId d commits).bucket)
      ∧ (Survives b keyPrefix (deleteMatter R client s ownerId d commits).bucket
        → (deleteMatter R client s ownerId d commits).archived = false
          ∧ (deleteMatter R client s ownerId d commits).audit = s.audit)
  document : ∀ (s : System) userId matterId doc commits, s.bucket = b
    → documentPrefix userId matterId doc.id = keyPrefix
    → Survives b keyPrefix (deleteDocument R client s userId matterId doc commits).bucket
    → (deleteDocument R client s userId matterId doc commits).documents = s.documents
      ∧ (deleteDocument R client s userId matterId doc commits).audit = s.audit

/--
If the listing returns, then one of the calls that delete the listed keys raises, or none of them reports an
error for a key.
-/
def NoSilentFailure : Prop :=
  ∀ keys, listKeys client b keyPrefix = .ok keys →
    (∃ i batch, (batches keys)[i]? = some batch ∧ client.raises i batch)
      ∨ ∀ (i : Nat) batch, (batches keys)[i]? = some batch → ∀ key ∈ batch, key ∉ client.failed i batch

variable {R client b keyPrefix}

/--
The purge returns normally with a listed key left exactly if none of its calls raises and one of them
reports a key.
-/
theorem purge_iff_noSilentFailure
    : (∀ keys after n, listKeys client b keyPrefix = .ok keys
          → deletePrefix R client b keyPrefix = (after, .ok n) → ∀ key ∈ keys, key ∉ after.keys)
        ↔ NoSilentFailure client b keyPrefix := by
  have hraises (keys : List PyStr) := deleteBatches_ok_iff client 0 b 0 (batches keys)
  simp only [Nat.zero_add] at hraises
  constructor
  . intro h keys hkeys
    by_cases hany : ∃ i batch, (batches keys)[i]? = some batch ∧ client.raises i batch
    . exact .inl hany
    . right
      intro i batch hbatch key hkey hfailed
      push Not at hany
      have ⟨after, n, hdelete⟩ := (hraises keys).mpr hany
      have hmem : key ∈ keys := by
        have ⟨j, hj, _⟩ := (mem_batch_iff hbatch key).mp hkey
        exact List.mem_of_getElem? hj
      have hpurge : deletePrefix R client b keyPrefix = (after, .ok n) := by
        unfold deletePrefix
        simp only [hkeys, if_neg (List.ne_nil_of_mem hmem), hdelete, Except.mapError]
      refine h keys after n hkeys hpurge key hmem ?_
      rw [mem_of_deleteBatches_iff (nodup_of_listKeys hkeys) hdelete hbatch hkey]
      exact ⟨(List.mem_filter.mp ((mem_listKeys_iff hkeys key).mp hmem)).left, hfailed⟩
  . intro h keys after n hkeys hpurge key hmem hafter
    unfold deletePrefix at hpurge
    simp only [hkeys, if_neg (List.ne_nil_of_mem hmem)] at hpurge
    cases hdelete : deleteBatches client 0 b 0 (batches keys) with
    | mk after' result =>
      cases result with
      | error e => simp [hdelete, Except.mapError] at hpurge
      | ok n' =>
        simp only [hdelete, Except.mapError, Prod.mk.injEq] at hpurge
        obtain ⟨rfl, _⟩ := hpurge
        have ⟨i, batch, hbatch, hkey⟩ := exists_batch hmem
        rw [mem_of_deleteBatches_iff (nodup_of_listKeys hkeys) hdelete hbatch hkey] at hafter
        rcases h keys hkeys with ⟨i', batch', hbatch', hraise⟩ | hall
        . exact (hraises keys).mp ⟨_, _, hdelete⟩ i' batch' hbatch' hraise
        . exact hall i batch hbatch key hkey hafter.right

theorem isOk_listKeys_of_deletePrefix {after : Bucket} {n : Nat}
    (h : deletePrefix R client b keyPrefix = (after, .ok n)) : ∃ keys, listKeys client b keyPrefix = .ok keys := by
  unfold deletePrefix at h
  cases hkeys : listKeys client b keyPrefix with
  | error e => simp [hkeys] at h
  | ok keys => exact ⟨keys, rfl⟩

/--
A purge that returns normally has removed all objects that were there.
-/
theorem not_survives (h : NoSilentFailure client b keyPrefix) {after : Bucket} {n : Nat}
    (hpurge : deletePrefix R client b keyPrefix = (after, .ok n)) : ¬ Survives b keyPrefix after := by
  have ⟨keys, hkeys⟩ := isOk_listKeys_of_deletePrefix hpurge
  rintro ⟨key, hkey, hafter⟩
  exact purge_iff_noSilentFailure.mpr h keys after n hkeys hpurge key ((mem_listKeys_iff hkeys key).mpr hkey) hafter

/--
What a deletion commits, if anything, it commits after a purge that has returned normally.
-/
theorem deleteMatter_cases (R : PyRepr) (client : S3Client) (s : System) (ownerId : Uuid) (d : Deletion) (commits : Bool)
    : ((deleteMatter R client s ownerId d commits).archived = s.archived
          ∧ (deleteMatter R client s ownerId d commits).audit = s.audit)
        ∨ ∃ n, deletePrefix R client s.bucket (matterPrefix ownerId d.matterId)
          = ((deleteMatter R client s ownerId d commits).bucket, .ok n) := by
  unfold deleteMatter
  split
  . exact .inl ⟨rfl, rfl⟩
  . next hlive =>
    cases hpurge : deletePrefix R client s.bucket (matterPrefix ownerId d.matterId) with
    | mk after result =>
      dsimp only
      cases result with
      | error e =>
        left
        simp only [Bool.or_eq_true, decide_eq_true_eq, not_or] at hlive
        simp [tombstoneMatter, Except.isOk, Except.toBool, hlive.right]
      | ok n =>
        cases htombstone : tombstoneMatter s.grants { d with storageDeleted := (Except.ok n : Except DeleteError Nat).isOk } with
        | error e => exact .inl ⟨rfl, rfl⟩
        | ok result =>
          cases commits with
          | false => exact .inl ⟨rfl, rfl⟩
          | true => exact .inr ⟨n, rfl⟩

theorem deleteDocument_cases (R : PyRepr) (client : S3Client) (s : System) (userId matterId : Uuid) (doc : Document) (commits : Bool)
    : ((deleteDocument R client s userId matterId doc commits).documents = s.documents
          ∧ (deleteDocument R client s userId matterId doc commits).audit = s.audit)
        ∨ ∃ n, deletePrefix R client s.bucket (documentPrefix userId matterId doc.id)
          = ((deleteDocument R client s userId matterId doc commits).bucket, .ok n) := by
  unfold deleteDocument
  split
  . exact .inl ⟨rfl, rfl⟩
  . cases hpurge : deletePrefix R client s.bucket (documentPrefix userId matterId doc.id) with
    | mk after result =>
      dsimp only
      cases result with
      | error e => exact .inl ⟨rfl, rfl⟩
      | ok n =>
        cases commits with
        | false => exact .inl ⟨rfl, rfl⟩
        | true => exact .inr ⟨n, rfl⟩

/--
Deletions are fail-closed exactly if no reply that reports a key goes unnoticed.
-/
theorem failClosed_iff (R : PyRepr) (client : S3Client) (b : Bucket) (keyPrefix : PyStr)
    : FailClosed R client b keyPrefix ↔ NoSilentFailure client b keyPrefix := by
  constructor
  . exact fun h => purge_iff_noSilentFailure.mp h.purge
  . intro h
    refine ⟨purge_iff_noSilentFailure.mpr h, ?_, ?_⟩
    . rintro s ownerId d commits rfl rfl hlive
      rcases deleteMatter_cases R client s ownerId d commits with ⟨hsame, haudit⟩ | ⟨n, hpurge⟩
      . rw [hsame, hlive]
        exact ⟨fun h => (by cases h), fun _ => ⟨rfl, haudit⟩⟩
      . have hgone := not_survives h hpurge
        exact ⟨fun _ => hgone, fun hsurvives => absurd hsurvives hgone⟩
    . rintro s userId matterId doc commits rfl rfl hsurvives
      rcases deleteDocument_cases R client s userId matterId doc commits with hsame | ⟨n, hpurge⟩
      . exact hsame
      . exact absurd hsurvives (not_survives h hpurge)

/--
A client that lists all keys on one page and reports an error for every key that it is asked to delete.
-/
def S3Client.refusing : S3Client where
  list b keyPrefix := .ok [some (b.keysUnder keyPrefix)]
  reply _ batch := .returned batch
  list_complete b keyPrefix pages h := by
    rw [← Except.ok.inj h]
    simp

theorem not_failClosed
    : ¬ ∀ (client : S3Client) (b : Bucket) (keyPrefix : PyStr), FailClosed .quoted client b keyPrefix := by
  intro h
  let b : Bucket := { objects := [(py "users/u/matters/m/file", [])], nodup := List.nodup_singleton _ }
  have hkeys : listKeys .refusing b (py "users/u/matters/m/")
      = .ok (b.keysUnder (py "users/u/matters/m/")) := by
    simp [listKeys, S3Client.refusing]
  have hmem : py "users/u/matters/m/file" ∈ b.keysUnder (py "users/u/matters/m/") := by
    decide +kernel
  have ⟨i, batch, hbatch, hkey⟩ := exists_batch hmem
  rcases purge_iff_noSilentFailure.mp (h .refusing b _).purge _ hkeys with ⟨_, _, _, _, _, hraise⟩ | hall
  . cases hraise
  . exact hall i batch hbatch _ hkey hkey

end FailClosed

end Storage
