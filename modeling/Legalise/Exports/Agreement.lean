import Legalise.Audit.Honest
import Legalise.Exports.Recipes

/-!
This module contains the agreement of the two verifiers on one snapshot of the tables: the online one
that reads the tables, and the offline one that reads the exported files.
-/

namespace Exports

open AuditChain ExportChainVerifier

variable {R : PyRepr} {H : Sha256} {tables : AuditTables} {m : Uuid}

theorem mem_chainRows_iff (row : ChainRow)
    : row ∈ chainRows m tables
        ↔
      row.chain ∈ tables.scopeRows (.matter m)
        ∧ tables.findEntry row.chain.auditEntryId = some row.entry
        ∧ row.payloadText = row.entry.payload.text.val := by
  have ⟨chain, entry, payloadText⟩ := row
  simp only [chainRows, List.mem_filterMap, Option.map_eq_some_iff, ChainRow.mk.injEq]
  constructor
  . rintro ⟨_, hchain, _, hentry, rfl, rfl, rfl⟩
    exact ⟨hchain, hentry, rfl⟩
  . intro ⟨hchain, hentry, htext⟩
    exact ⟨chain, hchain, entry, hentry, rfl, rfl, htext.symm⟩

theorem utf8Encodable_chainRows : ∀ row ∈ chainRows m tables, Utf8Encodable row.payloadText := by
  intro row hrow
  rw [((mem_chainRows_iff row).mp hrow).right.right]
  exact row.entry.payload.text.utf8Encodable

theorem mem_auditRows_iff (entry : AuditEntry)
    : entry ∈ auditRows m tables ↔ entry ∈ tables.entries ∧ entry.matterId = some m := by
  simp [auditRows]

/--
Every chain row of a matter joins an audit entry.
-/
def Joins (tables : AuditTables) (m : Uuid) : Prop :=
  ∀ row ∈ tables.scopeRows (.matter m), ∃ entry, tables.findEntry row.auditEntryId = some entry

/--
All chain rows of a matter have the version that the application supports.
-/
def Versions (tables : AuditTables) (m : Uuid) : Prop :=
  ∀ row ∈ tables.scopeRows (.matter m), row.chainVersion = auditChainVersion

/--
The inner join drops nothing if everything joins.
-/
theorem map_chain_chainRows (hjoins : Joins tables m)
    : (chainRows m tables).map ChainRow.chain = tables.scopeRows (.matter m) := by
  unfold chainRows
  rw [List.map_filterMap]
  calc
    _ = (tables.scopeRows (.matter m)).filterMap some := by
      apply List.filterMap_congr
      intro row hrow
      have ⟨entry, hentry⟩ := hjoins row hrow
      rw [hentry]
      rfl
    _ = _ := List.filterMap_some

/--
Both verifiers recompute the same hashes for a row whose entry is of the same scope.
-/
theorem fits_iff (hdistinct : (tables.entries.map AuditEntry.id).Nodup) {row : ChainRow}
    (hrow : row ∈ chainRows m tables)
    : Fits H row.chain row.entry ↔ row.entry.matterId = some m ∧ FitsOffline H row := by
  have ⟨hchain, hentry, htext⟩ := (mem_chainRows_iff row).mp hrow
  have hscope : row.chain.scope = .matter m := ((tables.mem_scopeRows_iff _ _).mp hchain).right
  have hid : row.entry.id = row.chain.auditEntryId :=
    ((AuditTables.findEntry_eq_some_iff hdistinct _ _).mp hentry).right
  have hcanonical : row.canonical
      = AuditEntryCanonical.fromRow row.entry row.entry.payload.text.val := by
    unfold ChainRow.canonical
    rw [htext, payloadOrEmpty_text]
  constructor
  . intro h
    have hmatter : row.entry.matterId = some m := by
      rw [← AuditEntry.scope_eq_matter_iff, ← h.scope, hscope]
    have hentryHash : row.chain.entryHash.val = row.canonical.entryHash H := by
      rw [hcanonical]
      exact h.entryHash
    refine ⟨hmatter, hentryHash, ?_⟩
    rw [h.chainHash, expectedChainHash, hentryHash, hid, hmatter, hscope]
    rfl
  . intro ⟨hmatter, h⟩
    refine ⟨?_, ?_, ?_⟩
    . rw [hscope, eq_comm, AuditEntry.scope_eq_matter_iff, hmatter]
    . rw [← hcanonical]
      exact h.entryHash
    . rw [h.chainHash, expectedChainHash, h.entryHash, hid, hmatter, hscope]
      rfl

theorem rowVerifies_iff (hdistinct : (tables.entries.map AuditEntry.id).Nodup) {row : ChainRow}
    (hrow : row ∈ chainRows m tables) (previous : Option ChainRow)
    : RowVerifies H (previous.map ChainRow.chain)
        (row.chain, tables.findEntry row.chain.auditEntryId)
        ↔
      (row.chain.chainVersion = auditChainVersion ∧ row.entry.matterId = some m)
        ∧ RowVerifiesOffline H previous row := by
  have hentry := ((mem_chainRows_iff row).mp hrow).right.left
  constructor
  . intro h
    have ⟨entry, hsome, hfits⟩ := h.fits
    simp only [hentry, Option.some.injEq] at hsome
    rw [← hsome] at hfits
    have ⟨hmatter, hoffline⟩ := (fits_iff hdistinct hrow).mp hfits
    exact ⟨⟨h.version, hmatter⟩, h.follows, hoffline⟩
  . intro ⟨⟨hversion, hmatter⟩, h⟩
    exact ⟨hversion, h.follows, row.entry, hentry, (fits_iff hdistinct hrow).mpr ⟨hmatter, h.fits⟩⟩

/--
What the online checks of a scope say about the exported rows.
-/
theorem verifiedScope_iff (hdistinct : (tables.entries.map AuditEntry.id).Nodup)
    (hjoins : Joins tables m)
    : VerifiedScope H tables (.matter m)
        ↔
      (∀ row ∈ chainRows m tables,
        row.chain.chainVersion = auditChainVersion ∧ row.entry.matterId = some m)
        ∧ Chained (RowVerifiesOffline H) (fun _ row => some row) none (chainRows m tables) := by
  unfold VerifiedScope
  rw [← map_chain_chainRows hjoins, Chained.map_iff, ← Chained.and_iff,
    ← Chained.congr fun row hrow previous => rowVerifies_iff hdistinct hrow previous]
  exact (@Chained.map_state_iff _ _ _ _ _ (Option.map ChainRow.chain) (fun _ row => some row)
    (by intro previous row; rfl) none _).symm

theorem joins_of_verifiedScope (h : VerifiedScope H tables (.matter m)) : Joins tables m := by
  intro row hrow
  have ⟨_, hverifies⟩ := Chained.exists_of_mem h hrow
  have ⟨entry, hentry, _⟩ := hverifies.fits
  exact ⟨entry, hentry⟩

/--
The ids that the two files list are the same exactly if the online counts are, as long as every chain
row joins an entry of the matter.
-/
theorem sameIds_iff_counts (hconstraints : tables.Constraints) (hjoins : Joins tables m)
    (hmatter : ∀ row ∈ chainRows m tables, row.entry.matterId = some m)
    : (∀ id, (∃ a ∈ auditRows m tables, a.id = id) ↔ ∃ row ∈ chainRows m tables, row.entry.id = id)
        ↔
      auditCount (some m) tables = chainCount (some m) tables := by
  have hmap := map_chain_chainRows hjoins
  have hid : ∀ row ∈ chainRows m tables, row.entry.id = row.chain.auditEntryId := by
    intro row hrow
    have hentry := ((mem_chainRows_iff row).mp hrow).right.left
    exact ((AuditTables.findEntry_eq_some_iff hconstraints.entries_id _ _).mp hentry).right
  have hauditCount
      : auditCount (some m) tables = ((auditRows m tables).map AuditEntry.id).length := by
    simp [auditCount, auditRows, selected, AuditEntry.scope_eq_matter_iff]
  have hchainCount : chainCount (some m) tables
      = ((chainRows m tables).map fun row => row.entry.id).length := by
    have := congrArg List.length hmap
    simp only [AuditTables.scopeRows, List.length_map, List.length_mergeSort] at this
    simp [chainCount, selected, this]
  have hdistinctAudit : ((auditRows m tables).map AuditEntry.id).Nodup := by
    have hperm := (List.mergeSort_perm (tables.entries.filter fun entry => entry.matterId = some m)
      fun a b => a.timestamp.rank ≤ b.timestamp.rank).map AuditEntry.id
    exact hperm.nodup_iff.mpr (hconstraints.entries_id.sublist (List.filter_sublist.map _))
  have hdistinctChain : ((chainRows m tables).map fun row => row.entry.id).Nodup := by
    have : ((chainRows m tables).map fun row => row.entry.id)
        = (tables.scopeRows (.matter m)).map AuditChainEntry.auditEntryId := by
      rw [← hmap, List.map_map]
      exact List.map_congr_left hid
    rw [this]
    have hperm := (List.mergeSort_perm (tables.chain.filter fun row => row.scope = .matter m)
      fun a b => a.scopeSequence ≤ b.scopeSequence).map AuditChainEntry.auditEntryId
    exact hperm.nodup_iff.mpr (hconstraints.chain_auditEntryId.sublist (List.filter_sublist.map _))
  have hsub : ((chainRows m tables).map fun row => row.entry.id)
      ⊆ (auditRows m tables).map AuditEntry.id := by
    intro id hid
    obtain ⟨row, hrow, heq⟩ := List.mem_map.mp hid
    have hentry := ((mem_chainRows_iff row).mp hrow).right.left
    have hmem := ((AuditTables.findEntry_eq_some_iff hconstraints.entries_id _ _).mp hentry).left
    exact List.mem_map.mpr ⟨row.entry, (mem_auditRows_iff _).mpr ⟨hmem, hmatter row hrow⟩, heq⟩
  rw [hauditCount, hchainCount, eq_comm (a := List.length _),
    length_eq_iff_subset hdistinctChain hdistinctAudit hsub]
  constructor
  . intro h id hid
    rw [List.mem_map] at hid ⊢
    exact (h id).mp hid
  . intro h id
    rw [← List.mem_map, ← List.mem_map (f := fun row : ChainRow => row.entry.id)]
    exact ⟨@h id, @hsub id⟩

theorem ok_iff (hconstraints : tables.Constraints)
    : ((verifyAuditChain H (some m)).runOn tables).ok = true
        ↔
      auditCount (some m) tables = chainCount (some m) tables
        ∧ VerifiedScope H tables (.matter m) := by
  have hstable := @stable_of_mem _ hconstraints.entries_id (fun _ => tables)
    (fun _ => ⟨hconstraints.entries_id, fun _ hentry => hentry⟩) (some m)
  unfold Stmts.runOn
  rw [AuditChain.ok_iff, issues_eq_nil_iff _ _ hconstraints.chain_scopeSequence hstable]
  simp [selected]

/--
The pack that is built from one snapshot.
-/
def packOf (F : JsonText.FloatText R) (m : Uuid) (exportedAt : Timestamp) (tables : AuditTables)
    : Pack :=
  ((buildAuditFiles R m exportedAt).runOn tables).pack F.parse

theorem verify_packOf_eq_nil_iff (F : JsonText.FloatText R) (exportedAt : Timestamp)
    : verify R H (packOf F m exportedAt tables) = .ok []
        ↔
      chainRows m tables = []
        ∨ Chained (RowVerifiesOffline H) (fun _ row => some row) none (chainRows m tables)
          ∧ ∀ id, (∃ a ∈ auditRows m tables, a.id = id)
            ↔ ∃ row ∈ chainRows m tables, row.entry.id = id :=
  verify_pack_eq_nil_iff F m exportedAt _ _ utf8Encodable_chainRows

/--
As far as a pack holds any chain rows of the matter, or there is nothing to hold, the online verifier
accepts exactly what the offline one does and that has the supported version and no chain row without
its audit entry.
-/
theorem online_iff_offline (F : JsonText.FloatText R) (exportedAt : Timestamp)
    (hconstraints : tables.Constraints) (hexported : chainRows m tables ≠ [] ∨ auditRows m tables = [])
    : ((verifyAuditChain H (some m)).runOn tables).ok = true
        ↔
      verify R H (packOf F m exportedAt tables) = .ok [] ∧ Versions tables m ∧ Joins tables m := by
  rw [ok_iff hconstraints, verify_packOf_eq_nil_iff]
  constructor
  . intro ⟨hcounts, hverified⟩
    have hjoins := joins_of_verifiedScope hverified
    have ⟨hrows, hchained⟩ := (verifiedScope_iff hconstraints.entries_id hjoins).mp hverified
    have hmatter := fun row hrow => (hrows row hrow).right
    refine ⟨.inr ⟨hchained, (sameIds_iff_counts hconstraints hjoins hmatter).mpr hcounts⟩, ?_, hjoins⟩
    unfold Versions
    rw [← map_chain_chainRows hjoins, List.forall_mem_map]
    exact fun row hrow => (hrows row hrow).left
  . intro ⟨hoffline, hversions, hjoins⟩
    have hversion : ∀ row ∈ chainRows m tables, row.chain.chainVersion = auditChainVersion := by
      unfold Versions at hversions
      rwa [← map_chain_chainRows hjoins, List.forall_mem_map] at hversions
    have hsealed
        : Chained (RowVerifiesOffline H) (fun _ row => some row) none (chainRows m tables)
          ∧ ∀ id, (∃ a ∈ auditRows m tables, a.id = id)
            ↔ ∃ row ∈ chainRows m tables, row.entry.id = id := by
      cases hoffline with
      | inl hnil =>
        have hnone : auditRows m tables = [] := by simpa [hnil] using hexported
        simp [hnil, hnone]
      | inr hsealed => exact hsealed
    have hmatter : ∀ row ∈ chainRows m tables, row.entry.matterId = some m := by
      intro row hrow
      have ⟨a, ha, hid⟩ := (hsealed.right row.entry.id).mpr ⟨row, hrow, rfl⟩
      have ⟨ha, hmatter⟩ := (mem_auditRows_iff a).mp ha
      have hentry := ((mem_chainRows_iff row).mp hrow).right.left
      have hmem := ((AuditTables.findEntry_eq_some_iff hconstraints.entries_id _ _).mp hentry).left
      rwa [List.inj_on_of_nodup_map hconstraints.entries_id ha hmem hid] at hmatter
    refine ⟨(sameIds_iff_counts hconstraints hjoins hmatter).mp hsealed.right, ?_⟩
    apply (verifiedScope_iff hconstraints.entries_id hjoins).mpr
    exact ⟨fun row hrow => ⟨hversion row hrow, hmatter row hrow⟩, hsealed.left⟩

/--
Tables that hold one audit entry, with a chain row of some version.
-/
def oneRowTables (H : Sha256) (chainVersion : Int) : AuditTables where
  entries := [(firstRow H chainVersion (Uuid.ofNat 5) (Uuid.ofNat 7)).entry]
  chain := [(firstRow H chainVersion (Uuid.ofNat 5) (Uuid.ofNat 7)).chain]

theorem constraints_oneRowTables (chainVersion : Int) : (oneRowTables H chainVersion).Constraints := by
  constructor <;> simp [oneRowTables]

theorem chainRows_oneRowTables (chainVersion : Int)
    : chainRows (Uuid.ofNat 5) (oneRowTables H chainVersion)
        = [firstRow H chainVersion (Uuid.ofNat 5) (Uuid.ofNat 7)] := by
  simp [chainRows, oneRowTables, AuditTables.scopeRows, AuditTables.findEntry, firstRow, signedEntry]

/--
Tables that hold the two rows of a matter.
-/
def twoRowTables (H : Sha256) : AuditTables where
  entries := (twoChainRows H).reverse.map ChainRow.entry
  chain := (twoChainRows H).map ChainRow.chain

theorem constraints_twoRowTables : (twoRowTables H).Constraints := by
  constructor <;> simp [twoRowTables, twoChainRows, firstRow, nextRow, signedEntry]

theorem chainRows_twoRowTables : chainRows (Uuid.ofNat 5) (twoRowTables H) = twoChainRows H := by
  have hrows : (twoRowTables H).scopeRows (.matter (Uuid.ofNat 5)) = (twoChainRows H).map ChainRow.chain := by
    unfold AuditTables.scopeRows
    have hscope : (twoRowTables H).chain.filter (fun row => row.scope = .matter (Uuid.ofNat 5))
        = (twoRowTables H).chain := by
      rw [List.filter_eq_self]
      simp [twoRowTables, twoChainRows, firstRow, nextRow]
    rw [hscope]
    exact List.mergeSort_of_pairwise (by simp [twoRowTables, twoChainRows, firstRow, nextRow])
  unfold chainRows
  rw [hrows]
  simp [twoRowTables, twoChainRows, AuditTables.findEntry, firstRow, nextRow, signedEntry]

theorem verify_twoRowTables (F : JsonText.FloatText R) (exportedAt : Timestamp)
    : verify R H (packOf F (Uuid.ofNat 5) exportedAt (twoRowTables H)) = .ok [] := by
  have haudit : auditRows (Uuid.ofNat 5) (twoRowTables H)
      = (twoChainRows H).reverse.map ChainRow.entry := by
    unfold auditRows
    have hfilter : (twoRowTables H).entries.filter (fun entry => entry.matterId = some (Uuid.ofNat 5))
        = (twoRowTables H).entries := by
      rw [List.filter_eq_self]
      simp [twoRowTables, twoChainRows, firstRow, nextRow, signedEntry]
    rw [hfilter]
    exact List.mergeSort_of_pairwise (by
      simp [twoRowTables, twoChainRows, firstRow, nextRow, signedEntry])
  have hwritten (n : Nat) := asWritten_signedEntry (Uuid.ofNat n) (some (Uuid.ofNat 5))
  rw [verify_packOf_eq_nil_iff, chainRows_twoRowTables, haudit]
  refine .inr ⟨?_, by simp [twoChainRows, firstRow, nextRow, signedEntry, or_comm]⟩
  unfold twoChainRows
  rw [Chained.cons_iff, Chained.cons_iff]
  refine ⟨⟨⟨rfl, rfl⟩, ?_, ?_⟩, ⟨⟨rfl, rfl⟩, ?_, ?_⟩, .nil _⟩
  . simp only [firstRow, auditChainEntryHash, Sha256.pgHash, (hwritten 7).canonical_eq]
    rfl
  . simp only [firstRow, auditChainLinkHash, auditChainEntryHash, Sha256.pgHash,
      (hwritten 7).canonical_eq, auditChainLinkCanonical_eq]
    rfl
  . simp only [nextRow, auditChainEntryHash, Sha256.pgHash, (hwritten 8).canonical_eq]
    rfl
  . simp only [nextRow, auditChainLinkHash, auditChainEntryHash, Sha256.pgHash,
      (hwritten 8).canonical_eq, auditChainLinkCanonical_eq]
    rfl

/--
Both verifiers accept the two rows.
-/
theorem online_iff_offline_twoRowTables
    : ((verifyAuditChain .plain (some (Uuid.ofNat 5))).runOn (twoRowTables .plain)).ok = true := by
  have hexported : chainRows (Uuid.ofNat 5) (twoRowTables .plain) ≠ []
      ∨ auditRows (Uuid.ofNat 5) (twoRowTables .plain) = [] := by
    rw [chainRows_twoRowTables]
    simp [twoChainRows]
  have hjoins : Joins (twoRowTables .plain) (Uuid.ofNat 5) := by
    intro row hrow
    simp [AuditTables.mem_scopeRows_iff, twoRowTables, twoChainRows] at hrow
    obtain ⟨rfl | rfl, -⟩ := hrow
    all_goals simp [AuditTables.findEntry, twoRowTables, twoChainRows, firstRow, nextRow, signedEntry]
  have hversions : Versions (twoRowTables .plain) (Uuid.ofNat 5) := by
    intro row hrow
    simp [AuditTables.mem_scopeRows_iff, twoRowTables, twoChainRows] at hrow
    obtain ⟨rfl | rfl, -⟩ := hrow
    all_goals rfl
  apply (online_iff_offline JsonText.FloatText.quoted (signedEntry (Uuid.ofNat 7) none).timestamp
    constraints_twoRowTables hexported).mpr
  exact ⟨verify_twoRowTables _ _, hversions, hjoins⟩

/--
The hashes of a chain row do not tell whether its version is supported.
-/
theorem verify_oneRowTables (F : JsonText.FloatText R) (exportedAt : Timestamp) (chainVersion : Int)
    : verify R H (packOf F (Uuid.ofNat 5) exportedAt (oneRowTables H chainVersion)) = .ok [] := by
  have haudit : auditRows (Uuid.ofNat 5) (oneRowTables H chainVersion)
      = [signedEntry (Uuid.ofNat 7) (some (Uuid.ofNat 5))] := by
    simp [auditRows, oneRowTables, firstRow, signedEntry]
  have hwritten := asWritten_signedEntry (Uuid.ofNat 7) (some (Uuid.ofNat 5))
  rw [verify_packOf_eq_nil_iff, chainRows_oneRowTables, haudit]
  refine .inr ⟨?_, by simp [firstRow, signedEntry]⟩
  rw [Chained.cons_iff]
  refine ⟨⟨⟨rfl, rfl⟩, ?_, ?_⟩, .nil _⟩
  . simp only [firstRow, auditChainEntryHash, Sha256.pgHash, hwritten.canonical_eq]
    rfl
  . simp only [firstRow, auditChainLinkHash, auditChainEntryHash, Sha256.pgHash,
      hwritten.canonical_eq, auditChainLinkCanonical_eq]
    rfl

theorem not_online_iff_offline_laterVersion
    : ¬ ∀ (R : PyRepr) (H : Sha256) (F : JsonText.FloatText R) (tables : AuditTables) (m : Uuid)
        (exportedAt : Timestamp), Function.Injective H.hexdigest → tables.Constraints →
        (verify R H (packOf F m exportedAt tables) = .ok []
          ↔ ((verifyAuditChain H (some m)).runOn tables).ok = true) := by
  intro h
  have hiff := h .quoted .plain JsonText.FloatText.quoted (oneRowTables .plain 2) (Uuid.ofNat 5)
    (signedEntry (Uuid.ofNat 7) none).timestamp Sha256.plain_injective (constraints_oneRowTables 2)
  have hok := hiff.mp (verify_oneRowTables _ _ 2)
  rw [ok_iff (constraints_oneRowTables 2)] at hok
  have hrows := (verifiedScope_iff (constraints_oneRowTables 2).entries_id
    (joins_of_verifiedScope hok.right)).mp hok.right
  have hversion := (hrows.left (firstRow .plain 2 (Uuid.ofNat 5) (Uuid.ofNat 7))
    (by rw [chainRows_oneRowTables]; simp)).left
  simp [firstRow, auditChainVersion] at hversion

end Exports
