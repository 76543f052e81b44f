import Legalise.Lib.Except
import Legalise.Postgres.Value
import Legalise.Python.Bytes

/-!
This module contains the keys of the users, encrypted with AES-GCM under a master key, and the tool that
re-encrypts them under another one.
-/

namespace KeyRotation

section Cipher

structure MasterKey where
  bytes : Bytes
  length_eq : bytes.length = 32
  deriving DecidableEq

/--
AES-GCM without associated data. Decryption fails under any other key than that of the encryption.
-/
structure AesGcm where
  encrypt : MasterKey → Bytes → Bytes → Bytes
  decrypt : MasterKey → Bytes → Bytes → Option Bytes
  decrypt_encrypt : ∀ key nonce plaintext, decrypt key nonce (encrypt key nonce plaintext) = some plaintext
  decrypt_of_ne : ∀ {key other : MasterKey}, other ≠ key → ∀ nonce plaintext,
    decrypt other nonce (encrypt key nonce plaintext) = none

/--
The key in front of the plaintext, for concrete runs.
-/
def AesGcm.plain : AesGcm where
  encrypt key _ plaintext := key.bytes ++ plaintext
  decrypt key _ ciphertext := if ciphertext.take 32 = key.bytes then some (ciphertext.drop 32) else none
  decrypt_encrypt key nonce plaintext := by
    simp [← key.length_eq]
  decrypt_of_ne {key other} hne nonce plaintext := by
    have hbytes : key.bytes ≠ other.bytes := by
      intro h
      cases key
      cases other
      simp_all
    simp [← key.length_eq, hbytes]

variable (A : AesGcm)

inductive DecryptError where
  | invalidTag
  | unicodeDecodeError
  deriving DecidableEq

/--
`_decrypt_with`
-/
def decryptWith (ciphertext nonce : Bytes) (key : MasterKey) : Except DecryptError PyStr :=
  match A.decrypt key nonce ciphertext with
  | none => .error .invalidTag
  | some plaintext => ((Utf8.decode plaintext).map Except.ok).getD (.error .unicodeDecodeError)

/--
`_encrypt_with`, with the nonce that `os.urandom` returns, unless the text cannot be encoded.
-/
def encryptWith (plaintext : PyStr) (key : MasterKey) (nonce : Bytes) : Option Bytes :=
  (Utf8.encode plaintext).map fun data => A.encrypt key nonce data

end Cipher

section Table

structure UserApiKey where
  id : Uuid
  userId : Uuid
  provider : PyStr
  ciphertext : Bytes
  nonce : Bytes
  deriving DecidableEq

/--
The columns of `uq_user_api_keys_user_provider`.
-/
def UserApiKey.owner (row : UserApiKey) : Uuid × PyStr :=
  (row.userId, row.provider)

structure KeyTable where
  rows : List UserApiKey
  ids : (rows.map UserApiKey.id).Nodup
  owners : (rows.map UserApiKey.owner).Nodup

/--
Set the ciphertext and the nonce of one row.
-/
def setKey (id : Uuid) (ciphertext nonce : Bytes) (row : UserApiKey) : UserApiKey :=
  if row.id = id then { row with ciphertext := ciphertext, nonce := nonce } else row

@[simp]
theorem id_setKey (id : Uuid) (ciphertext nonce : Bytes) (row : UserApiKey)
    : (setKey id ciphertext nonce row).id = row.id := by
  unfold setKey
  split <;> rfl

@[simp]
theorem owner_setKey (id : Uuid) (ciphertext nonce : Bytes) (row : UserApiKey)
    : (setKey id ciphertext nonce row).owner = row.owner := by
  unfold setKey
  split <;> rfl

def KeyTable.update (t : KeyTable) (id : Uuid) (ciphertext nonce : Bytes) : KeyTable where
  rows := t.rows.map (setKey id ciphertext nonce)
  ids := by simpa [Function.comp_def] using t.ids
  owners := by simpa [Function.comp_def] using t.owners

end Table

section Rotate

variable (A : AesGcm)

/--
The plaintexts of the selected rows, if all of them decrypt.
-/
def preflight (oldKey : MasterKey) (selected : List UserApiKey) : Except DecryptError (List (Uuid × PyStr)) :=
  selected.mapM fun row => (fun plaintext => (row.id, plaintext)) <$> decryptWith A row.ciphertext row.nonce oldKey

/--
One batch, which is one transaction. It is rolled back if a plaintext cannot be encoded.
-/
def rotateChunk (newKey : MasterKey) (urandom : Uuid → Bytes) (t : KeyTable) (chunk : List (Uuid × PyStr))
    : Option KeyTable :=
  chunk.foldlM (fun t (id, plaintext) =>
    (encryptWith A plaintext newKey (urandom id)).map fun ciphertext => t.update id ciphertext (urandom id)) t

/--
The batches up to a point where the run is interrupted, or all of them.
-/
def rotateBatches (newKey : MasterKey) (batchSize : Nat) (urandom : Uuid → Bytes)
    : Nat → KeyTable → List (Uuid × PyStr) → KeyTable
  | 0, t, _ => t
  | batches + 1, t, plaintexts =>
    if plaintexts = [] then t
    else
      match rotateChunk A newKey urandom t (plaintexts.take batchSize) with
      | some t => rotateBatches newKey batchSize urandom batches t (plaintexts.drop batchSize)
      | none => t

/--
A run of the tool, with the order in which its query returns the rows, the nonces that it draws and the
number of batches that it commits before it is interrupted.
-/
structure Run where
  oldKey : MasterKey
  newKey : MasterKey
  dryRun : Bool
  batchSize : Nat
  select : List UserApiKey → List UserApiKey
  select_perm : ∀ rows, (select rows).Perm rows
  urandom : Uuid → Bytes
  batches : Nat

/--
`_rotate`: the table that a run leaves.
-/
def rotate (run : Run) (t : KeyTable) : KeyTable :=
  match preflight A run.oldKey (run.select t.rows) with
  | .error _ => t
  | .ok plaintexts =>
    if run.dryRun then t else rotateBatches A run.newKey run.batchSize run.urandom run.batches t plaintexts

end Rotate

end KeyRotation
