import Legalise.Python.Bytes
import Legalise.Postgres.Value

/-!
This module contains the object store, its client, and the deletion of all objects under a prefix.
-/

namespace Storage

structure Bucket where
  objects : List (PyStr × Bytes)
  nodup : (objects.map Prod.fst).Nodup

namespace Bucket

def keys (b : Bucket) : List PyStr :=
  b.objects.map Prod.fst

def keysUnder (b : Bucket) (keyPrefix : PyStr) : List PyStr :=
  b.keys.filter fun key => keyPrefix.isPrefixOf key

def delete (b : Bucket) (keys : List PyStr) : Bucket where
  objects := b.objects.filter fun object => object.1 ∉ keys
  nodup := b.nodup.sublist (List.filter_sublist.map _)

@[simp]
theorem mem_keys_delete_iff (b : Bucket) (deleted : List PyStr) (key : PyStr)
    : key ∈ (b.delete deleted).keys ↔ key ∈ b.keys ∧ key ∉ deleted := by
  simp only [keys, delete, List.mem_map, List.mem_filter, decide_eq_true_eq]
  constructor
  . rintro ⟨object, ⟨hobject, hkept⟩, rfl⟩
    exact ⟨⟨object, hobject, rfl⟩, hkept⟩
  . rintro ⟨⟨object, hobject, rfl⟩, hkept⟩
    exact ⟨object, ⟨hobject, hkept⟩, rfl⟩

end Bucket

/--
What the client raises, with `str(exc)`.
-/
inductive S3Error where
  | clientError (text : PyStr)
  | endpointConnectionError (text : PyStr)
  | osError (text : PyStr)
  | other (text : PyStr)

/--
How a call of `delete_objects` ends: it raises after some of the keys have been removed, or it returns and
reports the keys that have not been removed.
-/
inductive DeleteReply where
  | raised (error : S3Error) (removed : List PyStr)
  | returned (failed : List PyStr)

/--
The client: the pages of a listing, each of them with `Contents` or without, and the reply to each call of
`delete_objects` of a purge. A listing that does not raise has all keys.
-/
structure S3Client where
  list : Bucket → PyStr → Except S3Error (List (Option (List PyStr)))
  reply : Nat → List PyStr → DeleteReply
  list_complete : ∀ b keyPrefix pages, list b keyPrefix = .ok pages →
    (pages.flatMap fun page => page.getD []).Perm (b.keysUnder keyPrefix)

/--
`StorageDeleteError`, or what is not caught.
-/
inductive DeleteError where
  | storageDelete (message key backend errorCode : PyStr)
  | uncaught (error : S3Error)

section Delete

variable (R : PyRepr) (client : S3Client)

/--
`list_keys`
-/
def listKeys (b : Bucket) (keyPrefix : PyStr) : Except S3Error (List PyStr) := do
  let pages ← client.list b keyPrefix
  return pages.flatMap fun page => page.getD []

def deleteObjects (call : Nat) (b : Bucket) (batch : List PyStr) : Bucket × Except S3Error (List PyStr) :=
  match client.reply call batch with
  | .raised error removed => (b.delete (batch.filter (· ∈ removed)), .error error)
  | .returned failed => (b.delete (batch.filter (· ∉ failed)), .ok failed)

/--
`keys[i : i + 1000]` for each `i` in `range(0, len(keys), 1000)`.
-/
def batches (keys : List PyStr) : List (List PyStr) :=
  (List.range ((keys.length + 999) / 1000)).map fun i => (keys.drop (1000 * i)).take 1000

/--
The loop over the batches. What a call returns is not looked at.
-/
def deleteBatches (call : Nat) (b : Bucket) (deleted : Nat) : List (List PyStr) → Bucket × Except S3Error Nat
  | [] => (b, .ok deleted)
  | batch :: rest =>
    match deleteObjects client call b batch with
    | (b, .error error) => (b, .error error)
    | (b, .ok _) => deleteBatches (call + 1) b (deleted + batch.length) rest

def listError (keyPrefix : PyStr) : S3Error → DeleteError
  | .clientError text => failed text (py "boto_client_error")
  | .endpointConnectionError text => failed text (py "network_error")
  | .osError text => failed text (py "network_error")
  | .other text => .uncaught (.other text)
where
  failed (text errorCode : PyStr) : DeleteError :=
    .storageDelete (py "S3 delete_prefix list failed for prefix " ++ R.str keyPrefix ++ py ": " ++ text)
      keyPrefix (py "s3") errorCode

def batchError (keyPrefix : PyStr) : S3Error → DeleteError
  | .clientError text =>
    .storageDelete (py "S3 delete_prefix batch-delete failed for prefix " ++ R.str keyPrefix ++ py ": " ++ text)
      keyPrefix (py "s3") (py "boto_client_error")
  | .endpointConnectionError text => network text
  | .osError text => network text
  | .other text => .uncaught (.other text)
where
  network (text : PyStr) : DeleteError :=
    .storageDelete (py "S3 delete_prefix network error for prefix " ++ R.str keyPrefix ++ py ": " ++ text)
      keyPrefix (py "s3") (py "network_error")

def deletePrefix (b : Bucket) (keyPrefix : PyStr) : Bucket × Except DeleteError Nat :=
  match listKeys client b keyPrefix with
  | .error error => (b, .error (listError R keyPrefix error))
  | .ok keys =>
    if keys = [] then (b, .ok 0)
    else
      let (b, result) := deleteBatches client 0 b 0 (batches keys)
      (b, result.mapError (batchError R keyPrefix))

end Delete

section Lemmas

variable {client : S3Client}

theorem mem_listKeys_iff {b : Bucket} {keyPrefix : PyStr} {keys : List PyStr}
    (h : listKeys client b keyPrefix = .ok keys) (key : PyStr) : key ∈ keys ↔ key ∈ b.keysUnder keyPrefix := by
  unfold listKeys at h
  cases hlist : client.list b keyPrefix with
  | error e =>
    rw [hlist] at h
    cases h
  | ok pages =>
    rw [hlist] at h
    rw [← Except.ok.inj h]
    exact (client.list_complete b keyPrefix pages hlist).mem_iff

/--
The key at a position is in the batch with a thousandth of its number.
-/
theorem mem_batch_iff {keys : List PyStr} {i : Nat} {batch : List PyStr} (h : (batches keys)[i]? = some batch)
    (key : PyStr) : key ∈ batch ↔ ∃ j, keys[j]? = some key ∧ j / 1000 = i := by
  unfold batches at h
  rw [List.getElem?_map, Option.map_eq_some_iff] at h
  obtain ⟨i', hi', rfl⟩ := h
  obtain ⟨hlt, rfl⟩ := List.getElem?_eq_some_iff.mp hi'
  rw [List.getElem_range, List.mem_iff_getElem?]
  simp only [List.getElem?_take, List.getElem?_drop]
  constructor
  . rintro ⟨k, hk⟩
    split at hk
    . exact ⟨1000 * i + k, hk, by omega⟩
    . cases hk
  . rintro ⟨j, hj, rfl⟩
    refine ⟨j % 1000, ?_⟩
    rw [if_pos (Nat.mod_lt _ (by decide)), Nat.div_add_mod]
    exact hj

theorem exists_batch {keys : List PyStr} {key : PyStr} (h : key ∈ keys)
    : ∃ (i : Nat) (batch : List PyStr), (batches keys)[i]? = some batch ∧ key ∈ batch := by
  have ⟨j, hj⟩ := List.mem_iff_getElem?.mp h
  have ⟨hlt, _⟩ := List.getElem?_eq_some_iff.mp hj
  have hbatch : ∃ batch, (batches keys)[j / 1000]? = some batch := by
    unfold batches
    rw [List.getElem?_map, List.getElem?_range (by omega)]
    exact ⟨_, rfl⟩
  have ⟨batch, hbatch⟩ := hbatch
  exact ⟨j / 1000, batch, hbatch, (mem_batch_iff hbatch key).mpr ⟨j, hj, rfl⟩⟩

theorem batch_unique {keys : List PyStr} (hnodup : keys.Nodup) {i i' : Nat} {batch batch' : List PyStr}
    (h : (batches keys)[i]? = some batch) (h' : (batches keys)[i']? = some batch') {key : PyStr}
    (hkey : key ∈ batch) (hkey' : key ∈ batch') : i = i' := by
  have ⟨j, hj, hdiv⟩ := (mem_batch_iff h key).mp hkey
  have ⟨j', hj', hdiv'⟩ := (mem_batch_iff h' key).mp hkey'
  have ⟨hlt, heq⟩ := List.getElem?_eq_some_iff.mp hj
  have ⟨hlt', heq'⟩ := List.getElem?_eq_some_iff.mp hj'
  have hsame : j = j' := (hnodup.getElem_inj_iff).mp (heq.trans heq'.symm)
  omega

/--
What a call reports as not removed.
-/
def S3Client.failed (client : S3Client) (call : Nat) (batch : List PyStr) : List PyStr :=
  match client.reply call batch with
  | .raised _ _ => []
  | .returned failed => failed

/--
A call raises.
-/
def S3Client.raises (client : S3Client) (call : Nat) (batch : List PyStr) : Prop :=
  ∃ error removed, client.reply call batch = .raised error removed

/--
The loop returns normally exactly if no call raises, and then the keys are left that are in no batch or
that are reported for each batch that they are in.
-/
theorem deleteBatches_ok_iff (client : S3Client) (call : Nat) (b : Bucket) (deleted : Nat) (parts : List (List PyStr))
    : (∃ b' n, deleteBatches client call b deleted parts = (b', .ok n))
        ↔ ∀ i batch, parts[i]? = some batch → ¬ client.raises (call + i) batch := by
  induction parts generalizing call b deleted with
  | nil => simp [deleteBatches]
  | cons batch rest ih =>
    have hsplit : (∀ i batch', (batch :: rest)[i]? = some batch' → ¬ client.raises (call + i) batch')
        ↔ ¬ client.raises call batch
          ∧ ∀ i batch', rest[i]? = some batch' → ¬ client.raises (call + 1 + i) batch' := by
      constructor
      . intro h
        refine ⟨h 0 batch rfl, fun i batch' hbatch' => ?_⟩
        have := h (i + 1) batch' (by simpa using hbatch')
        rwa [show call + 1 + i = call + (i + 1) by omega]
      . rintro ⟨hfirst, hrest⟩ i batch' hbatch'
        cases i with
        | zero =>
          simp only [List.getElem?_cons_zero, Option.some.injEq] at hbatch'
          rwa [← hbatch']
        | succ i =>
          have := hrest i batch' (by simpa using hbatch')
          rwa [show call + (i + 1) = call + 1 + i by omega]
    rw [hsplit]
    unfold deleteBatches deleteObjects S3Client.raises
    cases hreply : client.reply call batch with
    | raised error removed => simp
    | returned failed =>
      simp only [reduceCtorEq, exists_false, not_false_eq_true, true_and]
      exact ih (call + 1) _ _

theorem mem_deleteBatches_iff {call : Nat} {b b' : Bucket} {deleted n : Nat} {parts : List (List PyStr)}
    (h : deleteBatches client call b deleted parts = (b', .ok n)) (key : PyStr)
    : key ∈ b'.keys ↔ key ∈ b.keys
        ∧ ∀ i batch, parts[i]? = some batch → key ∈ batch → key ∈ client.failed (call + i) batch := by
  induction parts generalizing call b deleted with
  | nil =>
    simp only [deleteBatches, Prod.mk.injEq] at h
    simp [← h.left]
  | cons batch rest ih =>
    unfold deleteBatches deleteObjects at h
    cases hreply : client.reply call batch with
    | raised error removed => simp [hreply] at h
    | returned failed =>
      simp only [hreply] at h
      rw [ih h, Bucket.mem_keys_delete_iff, and_assoc]
      refine and_congr_right fun _ => ?_
      have hfailed : client.failed call batch = failed := by simp [S3Client.failed, hreply]
      constructor
      . rintro ⟨hfirst, hrest⟩ i batch' hbatch' hkey
        cases i with
        | zero =>
          simp only [List.getElem?_cons_zero, Option.some.injEq] at hbatch'
          subst hbatch'
          simp only [List.mem_filter, decide_eq_true_eq, not_and, not_not] at hfirst
          rw [Nat.add_zero, hfailed]
          exact hfirst hkey
        | succ i =>
          have := hrest i batch' (by simpa using hbatch') hkey
          rwa [show call + (i + 1) = call + 1 + i by omega]
      . intro hall
        constructor
        . simp only [List.mem_filter, decide_eq_true_eq, not_and, not_not]
          intro hkey
          exact hfailed ▸ hall 0 batch rfl hkey
        . intro i batch' hbatch' hkey
          have := hall (i + 1) batch' (by simpa using hbatch') hkey
          rwa [show call + 1 + i = call + (i + 1) by omega]

theorem nodup_of_listKeys {b : Bucket} {keyPrefix : PyStr} {keys : List PyStr}
    (h : listKeys client b keyPrefix = .ok keys) : keys.Nodup := by
  unfold listKeys at h
  cases hlist : client.list b keyPrefix with
  | error e =>
    rw [hlist] at h
    cases h
  | ok pages =>
    rw [hlist] at h
    rw [← Except.ok.inj h, (client.list_complete b keyPrefix pages hlist).nodup_iff]
    exact b.nodup.filter _

/--
A listed key is left after a loop that returns normally exactly if it is reported.
-/
theorem mem_of_deleteBatches_iff {b b' : Bucket} {keys : List PyStr} {n : Nat} (hnodup : keys.Nodup)
    (h : deleteBatches client 0 b 0 (batches keys) = (b', .ok n)) {i : Nat} {batch : List PyStr}
    (hbatch : (batches keys)[i]? = some batch) {key : PyStr} (hkey : key ∈ batch)
    : key ∈ b'.keys ↔ key ∈ b.keys ∧ key ∈ client.failed i batch := by
  rw [mem_deleteBatches_iff h]
  refine and_congr_right fun _ => ?_
  simp only [Nat.zero_add]
  constructor
  . exact fun hall => hall i batch hbatch hkey
  . intro hfailed i' batch' hbatch' hkey'
    have heq := batch_unique hnodup hbatch hbatch' hkey hkey'
    subst heq
    rwa [← Option.some.inj (hbatch.symm.trans hbatch')]

end Lemmas

end Storage
