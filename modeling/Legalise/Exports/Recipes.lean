import Legalise.Exports.Lemmas

/-!
This module contains the agreement of the three hash recipes: that of the trigger, that of the
application, and that of the offline verifier on the entries it reads back from an export.
-/

namespace Exports

open AuditChain ExportChainVerifier

variable {R : PyRepr}

/--
The texts that the three recipes hash for an audit entry and its chain row. The offline verifier
reads them off the exported form of the row, and takes the matter and the id of the link from the
audit entry, as the trigger does.
-/
structure RecipesAgree (R : PyRepr) (row : ChainRow) (exported : Dict) : Prop where
  entryTrigger : auditChainEntryCanonical row.entry = row.canonical.canonical
  entryOffline : entryText R exported = row.canonical.canonical
  entryEncodable : Utf8Encodable (entryText R exported)
  linkTrigger
    : auditChainLinkCanonical row.chain.chainVersion row.chain.scope.scopeType
        row.chain.scope.matterId row.chain.scopeSequence row.chain.auditEntryId
        (row.chain.previousChainHash.map fun hash => bpcharText hash.val)
        (bpcharText row.chain.entryHash.val)
      = chainLinkCanonical row.chain.chainVersion row.chain.scope.scopeType row.chain.scope.matterId
        row.chain.scopeSequence row.chain.auditEntryId (row.chain.previousChainHash.map PgHash.val)
        row.chain.entryHash.val
  linkOffline : ∃ fields,
    linkFields R exported row.chain.entryHash.val = .ok fields
      ∧ linkText fields
        = auditChainLinkCanonical row.chain.chainVersion row.chain.scope.scopeType
          row.entry.matterId row.chain.scopeSequence row.entry.id
          (row.chain.previousChainHash.map fun hash => bpcharText hash.val)
          (bpcharText row.chain.entryHash.val)
      ∧ Utf8Encodable (linkText fields)
      ∧ (row.chain.auditEntryId = row.entry.id → row.chain.scope.matterId = row.entry.matterId →
        linkText fields
          = chainLinkCanonical row.chain.chainVersion row.chain.scope.scopeType
            row.chain.scope.matterId row.chain.scopeSequence row.chain.auditEntryId
            (row.chain.previousChainHash.map PgHash.val) row.chain.entryHash.val)

theorem map_bpcharText_val (hash : Option PgHash)
    : (hash.map fun hash => bpcharText hash.val) = hash.map PgHash.val := by
  cases hash with
  | none => rfl
  | some hash => simp [hash.bpcharText_eq]

/--
The entry that is written for a row has the texts of the row.
-/
theorem recipesAgree_chainEntry {row : ChainRow} (hwritten : AsWritten row.entry)
    (hpayload : row.payloadText = row.entry.payload.text.val)
    : RecipesAgree R row (chainEntry row) where
  entryTrigger := by
    unfold ChainRow.canonical
    rw [hwritten.canonical_eq, hpayload, payloadOrEmpty_text]
  entryOffline := entryText_chainEntry row
  entryEncodable := by
    rw [entryText_chainEntry]
    apply utf8Encodable_canonical
    rw [hpayload]
    exact row.entry.payload.text.utf8Encodable
  linkTrigger := by
    rw [map_bpcharText_val, PgHash.bpcharText_eq, auditChainLinkCanonical_eq]
  linkOffline := by
    refine ⟨_, linkFields_chainEntry row _, ?_, ?_, ?_⟩
    . rw [map_bpcharText_val, PgHash.bpcharText_eq, auditChainLinkCanonical_eq,
        linkText_offlineLinkFields]
    . exact utf8Encodable_offlineLink row row.chain.entryHash.utf8Encodable
    . intro hid hmatter
      rw [linkText_offlineLinkFields, hid, hmatter]

/--
After the round trip through the file, the three recipes hash the same texts for every row.
-/
theorem recipesAgree_of_loads (F : JsonText.FloatText R) (matterId : Uuid) (exportedAt : Timestamp)
    (rows : List ChainRow) (hwritten : ∀ row ∈ rows, AsWritten row.entry)
    (hpayload : ∀ row ∈ rows, row.payloadText = row.entry.payload.text.val)
    : ∃ data,
        JsonText.loads F.parse (JsonText.dumps R (.dict (chainDoc matterId exportedAt rows)))
            = some (.dict data)
          ∧ List.Forall₂ (RecipesAgree R) rows (chainEntries data) := by
  refine ⟨_, JsonText.loads_dumps F (distinctKeys_chainDoc matterId exportedAt rows), ?_⟩
  unfold chainEntries
  rw [getD_chainDoc_entries, listedRows_list, List.forall₂_map_right_iff, List.forall₂_same]
  intro row hrow
  exact recipesAgree_chainEntry (hwritten row hrow) (hpayload row hrow)

/--
The first chain row of a matter.
-/
def firstRow (H : Sha256) (chainVersion : Int) (matterId entryId : Uuid) : ChainRow where
  chain := {
    id := 1,
    auditEntryId := entryId,
    scope := .matter matterId,
    scopeSequence := 1,
    previousChainHash := none,
    entryHash := auditChainEntryHash H (signedEntry entryId (some matterId)),
    chainHash := auditChainLinkHash H chainVersion (py "matter") (some matterId) 1 entryId none
      (auditChainEntryHash H (signedEntry entryId (some matterId))).val,
    chainVersion := chainVersion
  }
  entry := signedEntry entryId (some matterId)
  payloadText := py "\x7b\x7d"

/--
The chain row of a matter that comes after one.
-/
def nextRow (H : Sha256) (row : ChainRow) (matterId entryId : Uuid) : ChainRow where
  chain := {
    id := row.chain.id + 1,
    auditEntryId := entryId,
    scope := .matter matterId,
    scopeSequence := row.chain.scopeSequence + 1,
    previousChainHash := some row.chain.chainHash,
    entryHash := auditChainEntryHash H (signedEntry entryId (some matterId)),
    chainHash := auditChainLinkHash H row.chain.chainVersion (py "matter") (some matterId)
      (row.chain.scopeSequence + 1) entryId (some row.chain.chainHash.val)
      (auditChainEntryHash H (signedEntry entryId (some matterId))).val,
    chainVersion := row.chain.chainVersion
  }
  entry := signedEntry entryId (some matterId)
  payloadText := py "\x7b\x7d"

/--
The two chain rows of a matter.
-/
def twoChainRows (H : Sha256) : List ChainRow :=
  let first := firstRow H 1 (Uuid.ofNat 5) (Uuid.ofNat 7)
  [first, nextRow H first (Uuid.ofNat 5) (Uuid.ofNat 8)]

theorem recipesAgree_of_loads_twoChainRows
    : ∃ data,
        JsonText.loads JsonText.FloatText.quoted.parse (JsonText.dumps .quoted (.dict (chainDoc (Uuid.ofNat 5)
            (signedEntry (Uuid.ofNat 7) none).timestamp (twoChainRows .plain))))
            = some (.dict data)
          ∧ List.Forall₂ (RecipesAgree .quoted) (twoChainRows .plain) (chainEntries data) := by
  apply recipesAgree_of_loads JsonText.FloatText.quoted
  . simpa [twoChainRows, firstRow, nextRow] using ⟨asWritten_signedEntry _ _, asWritten_signedEntry _ _⟩
  . simp [twoChainRows, firstRow, nextRow, signedEntry]

end Exports
