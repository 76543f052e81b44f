import Legalise.Audit.ChainLemmas
import Legalise.ExportChainVerifier.Seal
import Legalise.ExportChainVerifier.CrossCheck
import Legalise.ExportChainVerifier.TamperEvidence
import Legalise.Exports.Basic

/-!
This module contains what the offline verifier makes of exported files: it recomputes the hashes of
the application, and it accepts exactly the rows that follow each other and fit their entries.
-/

namespace Exports

open AuditChain ExportChainVerifier

variable {R : PyRepr} {H : Sha256}

section Entries

/--
What the application hashes for an exported row.
-/
def ChainRow.canonical (row : ChainRow) : AuditEntryCanonical :=
  AuditEntryCanonical.fromRow row.entry (payloadOrEmpty (some row.payloadText))

theorem map_fst_chainEntry (row : ChainRow) : (chainEntry row).map Prod.fst = coveredFields := rfl

theorem nodup_chainEntry (row : ChainRow) : ((chainEntry row).map Prod.fst).Nodup := by
  rw [map_fst_chainEntry]
  decide

@[simp]
theorem toStr?_strOrNone (s : Option PyStr) : (strOrNone s).toStr? R = s := by
  cases s <;> rfl

theorem get_canonicalField (row : ChainRow) {item : PyStr × Option PyStr}
    (hitem : item ∈ row.canonical.canonicalFields)
    : (chainEntry row).get item.fst = strOrNone item.snd := by
  apply Dict.get_eq_of_mem (nodup_chainEntry row)
  exact List.mem_append_left _ (List.mem_map.mpr ⟨item, hitem, rfl⟩)

/--
The text that the offline verifier hashes for an exported entry is the canonical text of the
application.
-/
theorem entryText_chainEntry (row : ChainRow)
    : entryText R (chainEntry row) = row.canonical.canonical := by
  have hfields : entryHashFields = row.canonical.canonicalFields.map Prod.fst := rfl
  have hvalues : (entryHashFields.map fun name => ((chainEntry row).get name).toStr? R)
      = row.canonical.canonicalFields.map Prod.snd := by
    rw [hfields, List.map_map]
    apply List.map_congr_left
    intro item hitem
    simp [get_canonicalField row hitem]
  unfold entryText AuditEntryCanonical.canonical
  rw [hvalues, List.map_map]
  rfl

theorem get_chainEntry_id (row : ChainRow)
    : (chainEntry row).get (py "id") = .str row.entry.id.str :=
  Dict.get_eq_of_mem (nodup_chainEntry row) (List.mem_cons_self)

theorem get_chainEntry_matterId (row : ChainRow)
    : (chainEntry row).get (py "matter_id") = strOrNone (row.entry.matterId.map Uuid.str) :=
  @get_canonicalField row (py "matter_id", row.entry.matterId.map Uuid.str)
    (by simp [AuditEntryCanonical.canonicalFields, ChainRow.canonical, AuditEntryCanonical.fromRow])

/--
The columns of the chain row stand behind the canonical fields.
-/
theorem mem_chainEntry (row : ChainRow) {item : PyStr × Json}
    (hitem : item ∈ [
      (py "scope_type", Json.str row.chain.scope.scopeType),
      (py "scope_sequence", .int row.chain.scopeSequence),
      (py "chain_version", .int row.chain.chainVersion),
      (py "previous_chain_hash", strOrNone (row.chain.previousChainHash.map PgHash.val)),
      (py "entry_hash", .str row.chain.entryHash.val),
      (py "chain_hash", .str row.chain.chainHash.val)
    ]) : item ∈ chainEntry row :=
  List.mem_append_right _ hitem

theorem get_chainEntry_sequence (row : ChainRow)
    : (chainEntry row).get (py "scope_sequence") = .int row.chain.scopeSequence :=
  Dict.get_eq_of_mem (nodup_chainEntry row) (mem_chainEntry row (by simp))

theorem get_chainEntry_previous (row : ChainRow)
    : (chainEntry row).get (py "previous_chain_hash")
        = strOrNone (row.chain.previousChainHash.map PgHash.val) :=
  Dict.get_eq_of_mem (nodup_chainEntry row) (mem_chainEntry row (by simp))

theorem get_chainEntry_entryHash (row : ChainRow)
    : (chainEntry row).get (py "entry_hash") = .str row.chain.entryHash.val :=
  Dict.get_eq_of_mem (nodup_chainEntry row) (mem_chainEntry row (by simp))

theorem get_chainEntry_chainHash (row : ChainRow)
    : (chainEntry row).get (py "chain_hash") = .str row.chain.chainHash.val :=
  Dict.get_eq_of_mem (nodup_chainEntry row) (mem_chainEntry row (by simp))

/--
The fields that the offline verifier hashes for the link of an exported row. The matter and the id
are those of the audit entry.
-/
def offlineLinkFields (row : ChainRow) (entryHash : PyStr) : List (Option PyStr) :=
  [
    some (pyInt row.chain.chainVersion),
    some row.chain.scope.scopeType,
    row.entry.matterId.map Uuid.str,
    some (pyInt row.chain.scopeSequence),
    some row.entry.id.str,
    row.chain.previousChainHash.map PgHash.val,
    some entryHash
  ]

theorem linkFields_chainEntry (row : ChainRow) (entryHash : PyStr)
    : linkFields R (chainEntry row) entryHash = .ok (offlineLinkFields row entryHash) := by
  have hitem {item : PyStr × Json} (hitem : item ∈ chainEntry row)
      : (chainEntry row).getItem item.fst = .ok item.snd :=
    Dict.getItem_eq_of_mem (nodup_chainEntry row) hitem
  have hversion := hitem (@mem_chainEntry row (py "chain_version", .int row.chain.chainVersion) (by simp))
  have hscope := hitem (@mem_chainEntry row (py "scope_type", .str row.chain.scope.scopeType) (by simp))
  have hsequence := hitem (@mem_chainEntry row (py "scope_sequence", .int row.chain.scopeSequence) (by simp))
  have hid := @hitem (py "id", .str row.entry.id.str) List.mem_cons_self
  unfold linkFields
  rw [hversion, hscope, hsequence, hid, get_chainEntry_matterId, get_chainEntry_previous]
  simp [offlineLinkFields, bind, Except.bind, pure, Except.pure]

theorem linkText_offlineLinkFields (row : ChainRow) (entryHash : PyStr)
    : linkText (offlineLinkFields row entryHash)
        = chainLinkCanonical row.chain.chainVersion row.chain.scope.scopeType row.entry.matterId
          row.chain.scopeSequence row.entry.id (row.chain.previousChainHash.map PgHash.val)
          entryHash :=
  rfl

end Entries

section Sealed

theorem utf8Encodable_payloadOrEmpty {text : PyStr} (h : Utf8Encodable text)
    : Utf8Encodable (payloadOrEmpty (some text)) := by
  cases text with
  | nil => exact utf8Encodable_py _
  | cons c text => exact h

theorem utf8Encodable_map_val (text : Option PgText)
    : ∀ s ∈ text.map PgText.val, Utf8Encodable s := by
  cases text with
  | none => simp
  | some text => simpa using text.utf8Encodable

theorem utf8Encodable_map_pyInt (n : Option Int) : ∀ s ∈ n.map pyInt, Utf8Encodable s := by
  cases n <;> simp

theorem utf8Encodable_map_str (id : Option Uuid) : ∀ s ∈ id.map Uuid.str, Utf8Encodable s := by
  cases id with
  | none => simp
  | some id => simpa using id.utf8Encodable_str

theorem utf8Encodable_some {s : PyStr} (h : Utf8Encodable s) :
    ∀ t ∈ some s, Utf8Encodable t := by
  simpa using h

/--
Texts that come out of the database can always be encoded.
-/
theorem utf8Encodable_canonical (row : ChainRow) (h : Utf8Encodable row.payloadText)
    : Utf8Encodable row.canonical.canonical := by
  unfold AuditEntryCanonical.canonical
  apply utf8Encodable_join (utf8Encodable_py _)
  have hfields : ∀ item ∈ row.canonical.canonicalFields, ∀ s ∈ item.snd, Utf8Encodable s := by
    simp only [AuditEntryCanonical.canonicalFields, ChainRow.canonical, AuditEntryCanonical.fromRow,
      List.forall_mem_cons, List.not_mem_nil, IsEmpty.forall_iff, implies_true, and_true]
    refine ⟨utf8Encodable_some (Uuid.utf8Encodable_str _),
      utf8Encodable_some (Timestamp.utf8Encodable_strftime _), utf8Encodable_map_str _,
      utf8Encodable_map_str _, utf8Encodable_some row.entry.action.utf8Encodable,
      utf8Encodable_map_val _, utf8Encodable_map_val _, utf8Encodable_map_val _,
      utf8Encodable_map_val _, utf8Encodable_map_val _, utf8Encodable_map_val _,
      utf8Encodable_map_pyInt _, utf8Encodable_map_pyInt _, utf8Encodable_map_pyInt _,
      utf8Encodable_map_pyInt _, utf8Encodable_map_pyInt _, utf8Encodable_map_val _,
      utf8Encodable_map_val _, utf8Encodable_map_val _,
      utf8Encodable_some (utf8Encodable_payloadOrEmpty h)⟩
  intro part hpart
  rw [List.mem_cons, List.mem_map] at hpart
  cases hpart with
  | inl htitle => exact htitle ▸ utf8Encodable_py _
  | inr hpart =>
    have ⟨item, hitem, hfield⟩ := hpart
    exact hfield ▸ utf8Encodable_field (hfields item hitem)

theorem utf8Encodable_offlineLink (row : ChainRow) {entryHash : PyStr} (h : Utf8Encodable entryHash)
    : Utf8Encodable (linkText (offlineLinkFields row entryHash)) := by
  apply utf8Encodable_linkText
  simp only [offlineLinkFields, List.forall_mem_cons, List.not_mem_nil, IsEmpty.forall_iff,
    implies_true, and_true]
  refine ⟨utf8Encodable_some (utf8Encodable_pyInt _),
    utf8Encodable_some row.chain.scope.utf8Encodable_scopeType, utf8Encodable_map_str _,
    utf8Encodable_some (utf8Encodable_pyInt _), utf8Encodable_some row.entry.id.utf8Encodable_str,
    ?_, utf8Encodable_some h⟩
  cases row.chain.previousChainHash with
  | none => simp
  | some hash => simpa using hash.utf8Encodable

/--
The hashes of an exported row are those that the offline verifier recomputes. Neither the chain
version nor the matter and the id of the chain row itself are looked at.
-/
structure FitsOffline (H : Sha256) (row : ChainRow) : Prop where
  entryHash : row.chain.entryHash.val = row.canonical.entryHash H
  chainHash : row.chain.chainHash.val
    = chainLinkHash H row.chain.chainVersion row.chain.scope.scopeType row.entry.matterId
      row.chain.scopeSequence row.entry.id (row.chain.previousChainHash.map PgHash.val)
      (row.canonical.entryHash H)

theorem pyEq_int_iff (m n : Int) : (Json.int m).pyEq (.int n) = true ↔ m = n := by
  simp [Json.pyEq, Json.number?, PyFloat.eq, PyFloat.value?]

theorem strOrNone_pyEq_iff (s t : Option PyStr) : (strOrNone s).pyEq (strOrNone t) = true ↔ s = t := by
  cases s <;> cases t <;> simp [strOrNone, Json.pyEq, Json.number?]

/--
The entry checks on an exported row at the place after a previous row.
-/
theorem sealedEntry_chainEntry_iff (row : ChainRow) (henc : Utf8Encodable row.payloadText)
    (position : Nat) (previous : Option PyStr)
    : (∃ fields, SealedEntry R H position (strOrNone previous) (chainEntry row) fields)
        ↔
      row.chain.scopeSequence = position
        ∧ row.chain.previousChainHash.map PgHash.val = previous
        ∧ FitsOffline H row := by
  constructor
  . intro ⟨fields, h⟩
    have hsequence := h.sequence
    have hprevious := h.previous
    have hentry := h.entryHash
    have hlink := h.linkFields
    have hchain := h.chainHash
    rw [get_chainEntry_sequence, pyEq_int_iff] at hsequence
    rw [get_chainEntry_previous, strOrNone_pyEq_iff] at hprevious
    rw [get_chainEntry_entryHash, entryText_chainEntry, Json.str.injEq] at hentry
    rw [linkFields_chainEntry, Except.ok.injEq] at hlink
    rw [get_chainEntry_chainHash, ← hlink, linkText_offlineLinkFields, entryText_chainEntry,
      Json.str.injEq] at hchain
    exact ⟨hsequence, hprevious, hentry, hchain⟩
  . intro ⟨hsequence, hprevious, hfits⟩
    refine ⟨offlineLinkFields row (H.hexdigest (entryText R (chainEntry row))), ?_, ?_, ?_, ?_,
      linkFields_chainEntry row _, ?_, ?_⟩
    . rwa [get_chainEntry_sequence, pyEq_int_iff]
    . rwa [get_chainEntry_previous, strOrNone_pyEq_iff]
    . rw [entryText_chainEntry]
      exact utf8Encodable_canonical row henc
    . rw [get_chainEntry_entryHash, entryText_chainEntry, hfits.entryHash]
      rfl
    . exact utf8Encodable_offlineLink row (H.utf8Encodable_hexdigest _)
    . rw [get_chainEntry_chainHash, hfits.chainHash, linkText_offlineLinkFields,
        entryText_chainEntry]
      rfl

/--
The state of the offline loop after a previous row, if the positions so far were right.
-/
def offlineState (previous : Option ChainRow) : Nat × Json → Prop := fun before =>
  (before.fst : Int) = (previous.map fun row => row.chain.scopeSequence + 1).getD 1
    ∧ before.snd = strOrNone (previous.map fun row => row.chain.chainHash.val)

/--
An exported row comes after a previous one and has the hashes that its entry gives.
-/
structure RowVerifiesOffline (H : Sha256) (previous : Option ChainRow) (row : ChainRow) : Prop where
  follows : Follows (previous.map ChainRow.chain) row.chain
  fits : FitsOffline H row

theorem follows_iff (previous : Option ChainRow) (row : ChainRow) {position : Nat}
    (hposition : (position : Int) = (previous.map fun row => row.chain.scopeSequence + 1).getD 1)
    : (row.chain.scopeSequence = position
        ∧ row.chain.previousChainHash.map PgHash.val
          = previous.map fun row => row.chain.chainHash.val)
        ↔
      Follows (previous.map ChainRow.chain) row.chain := by
  have hinj : Function.Injective PgHash.val := by
    intro a b hab
    cases a
    cases b
    simpa using hab
  have hmap : (previous.map fun row => row.chain.chainHash.val)
      = ((previous.map ChainRow.chain).map AuditChainEntry.chainHash).map PgHash.val := by
    cases previous <;> rfl
  have hsequence : (previous.map fun row => row.chain.scopeSequence + 1).getD 1
      = ((previous.map ChainRow.chain).map fun row => row.scopeSequence + 1).getD 1 := by
    cases previous <;> rfl
  rw [hmap, (Option.map_injective hinj).eq_iff, hposition, hsequence]
  constructor
  . intro ⟨hseq, hprev⟩
    exact ⟨hseq, hprev⟩
  . intro h
    exact ⟨h.sequence, h.previousHash⟩

/--
The loop of the offline verifier over exported rows.
-/
theorem sealedFrom_chainEntry_iff (rows : List ChainRow)
    (henc : ∀ row ∈ rows, Utf8Encodable row.payloadText)
    : SealedFrom R H (1, .null) (rows.map chainEntry)
        ↔
      Chained (RowVerifiesOffline H) (fun _ row => some row) none rows := by
  unfold SealedFrom
  rw [Chained.map_iff]
  constructor
  . intro h
    apply h.simulate (fun before previous => offlineState previous before)
    . exact ⟨rfl, rfl⟩
    . rintro row hrow before previous ⟨hposition, hstated⟩ hsealed
      rw [show before.snd = _ from hstated,
        sealedEntry_chainEntry_iff row (henc row hrow)] at hsealed
      obtain ⟨hsequence, hprevious, hfits⟩ := hsealed
      refine ⟨⟨(follows_iff previous row hposition).mp ⟨hsequence, hprevious⟩, hfits⟩, ?_, ?_⟩
      . simp [advance, hsequence]
      . simp [advance, get_chainEntry_chainHash, strOrNone]
  . intro h
    apply h.simulate offlineState
    . exact ⟨rfl, rfl⟩
    . rintro row hrow previous before ⟨hposition, hstated⟩ hverifies
      obtain ⟨hsequence, hprevious⟩ := (follows_iff previous row hposition).mpr hverifies.follows
      refine ⟨?_, ?_, ?_⟩
      . rw [show before.snd = _ from hstated, sealedEntry_chainEntry_iff row (henc row hrow)]
        exact ⟨hsequence, hprevious, hverifies.fits⟩
      . simp [advance, hsequence]
      . simp [advance, get_chainEntry_chainHash, strOrNone]

end Sealed

section Files

theorem distinctKeys_strOrNone (s : Option PyStr) : (strOrNone s).DistinctKeys := by
  cases s <;> simp [strOrNone, Json.DistinctKeys]

theorem distinctKeys_intOrNone (n : Option Int) : (intOrNone n).DistinctKeys := by
  cases n <;> simp [intOrNone, Json.DistinctKeys]

theorem distinctKeys_auditList (rows : List AuditEntry) : (auditList rows).DistinctKeys := by
  unfold auditList
  rw [Json.DistinctKeys, Json.distinctKeysList_iff]
  intro v hv
  have ⟨a, _, heq⟩ := List.mem_map.mp hv
  rw [← heq, Json.DistinctKeys, Json.distinctKeysDict_iff]
  constructor
  . have : (auditItem a).map Prod.fst
        = [
          py "id", py "timestamp", py "actor_id", py "action", py "module", py "resource_type",
          py "resource_id", py "model_used", py "token_count", py "payload"
        ] := rfl
    rw [this]
    decide
  . simp [auditItem, distinctKeys_strOrNone, distinctKeys_intOrNone, a.payload.distinctKeys,
      Json.DistinctKeys]

theorem distinctKeys_chainEntry (row : ChainRow) : (Json.dict (chainEntry row)).DistinctKeys := by
  rw [Json.DistinctKeys, Json.distinctKeysDict_iff]
  refine ⟨nodup_chainEntry row, ?_⟩
  intro item hitem
  unfold chainEntry at hitem
  rw [List.mem_append, List.mem_map] at hitem
  cases hitem with
  | inl hcanonical =>
    have ⟨canonicalField, _, heq⟩ := hcanonical
    exact heq ▸ distinctKeys_strOrNone canonicalField.snd
  | inr hcolumn =>
    simp only [List.mem_cons, List.not_mem_nil, or_false] at hcolumn
    rcases hcolumn with rfl | rfl | rfl | rfl | rfl | rfl <;>
      simp [Json.DistinctKeys, distinctKeys_strOrNone]

/--
The head of a chain that ends in a row.
-/
def headOf (row : ChainRow) (count : Nat) : Dict :=
  [
    (py "chain_hash", .str row.chain.chainHash.val),
    (py "scope_sequence", .int row.chain.scopeSequence),
    (py "entry_count", .int count),
    (py "timestamp", .str row.entry.timestamp.strftime)
  ]

theorem get_chainEntry_timestamp (row : ChainRow)
    : (chainEntry row).get (py "timestamp") = .str row.entry.timestamp.strftime :=
  @get_canonicalField row (py "timestamp", some row.entry.timestamp.strftime)
    (by simp [AuditEntryCanonical.canonicalFields, ChainRow.canonical, AuditEntryCanonical.fromRow])

theorem chainHead_append_singleton (rows : List ChainRow) (row : ChainRow)
    : chainHead ((rows ++ [row]).map chainEntry) = .dict (headOf row (rows.length + 1)) := by
  simp [chainHead, headOf, get_chainEntry_chainHash, get_chainEntry_sequence,
    get_chainEntry_timestamp]

theorem distinctKeys_chainHead (rows : List ChainRow) :
    (chainHead (rows.map chainEntry)).DistinctKeys := by
  cases rows using List.reverseRecOn with
  | nil => simp [chainHead, Json.DistinctKeys]
  | append_singleton rows row =>
    rw [chainHead_append_singleton, Json.DistinctKeys, Json.distinctKeysDict_iff]
    constructor
    . have : (headOf row (rows.length + 1)).map Prod.fst
          = [py "chain_hash", py "scope_sequence", py "entry_count", py "timestamp"] := rfl
      rw [this]
      decide
    . simp [headOf, Json.DistinctKeys]

def chainDocKeys : List PyStr :=
  [
    py "format", py "scope_type", py "matter_id", py "exported_at", py "entry_count", py "head",
    py "how_to_verify", py "entries"
  ]

theorem nodup_chainDoc (matterId : Uuid) (exportedAt : Timestamp) (rows : List ChainRow)
    : ((chainDoc matterId exportedAt rows).map Prod.fst).Nodup := by
  have : (chainDoc matterId exportedAt rows).map Prod.fst = chainDocKeys := rfl
  rw [this]
  decide

theorem distinctKeys_chainDoc (matterId : Uuid) (exportedAt : Timestamp) (rows : List ChainRow)
    : (Json.dict (chainDoc matterId exportedAt rows)).DistinctKeys := by
  rw [Json.DistinctKeys, Json.distinctKeysDict_iff]
  refine ⟨nodup_chainDoc matterId exportedAt rows, ?_⟩
  simp only [chainDoc, List.forall_mem_cons, List.not_mem_nil, IsEmpty.forall_iff, implies_true,
    and_true]
  refine ⟨trivial, trivial, trivial, trivial, trivial, distinctKeys_chainHead rows, trivial, ?_⟩
  rw [Json.DistinctKeys, Json.distinctKeysList_iff]
  intro v hv
  rw [List.map_map] at hv
  have ⟨row, _, heq⟩ := List.mem_map.mp hv
  exact heq ▸ distinctKeys_chainEntry row

variable (F : JsonText.FloatText R) (matterId : Uuid) (exportedAt : Timestamp)

/--
The offline verifier reads what the export wrote.
-/
theorem pack_eq (audit : List AuditEntry) (rows : List ChainRow)
    : AuditFiles.pack F.parse
        ⟨JsonText.dumps R (auditList audit),
          JsonText.dumps R (.dict (chainDoc matterId exportedAt rows))⟩
        = ⟨py "audit_chain.json", .ok (.dict (chainDoc matterId exportedAt rows)),
          some (.ok (auditList audit))⟩ := by
  unfold AuditFiles.pack readJson
  rw [JsonText.loads_dumps F (distinctKeys_chainDoc matterId exportedAt rows),
    JsonText.loads_dumps F (distinctKeys_auditList audit)]

theorem mem_chainDoc {rows : List ChainRow} {item : PyStr × Json}
    (hitem : item ∈ chainDoc matterId exportedAt rows)
    : (chainDoc matterId exportedAt rows).get item.fst = item.snd :=
  Dict.get_eq_of_mem (nodup_chainDoc matterId exportedAt rows) hitem

theorem getD_chainDoc_entries (rows : List ChainRow)
    : (chainDoc matterId exportedAt rows).getD (py "entries") (.list [])
        = .list ((rows.map chainEntry).map .dict) := by
  unfold Dict.getD
  have hmem : (py "entries", Json.list ((rows.map chainEntry).map .dict))
      ∈ chainDoc matterId exportedAt rows := by
    simp [chainDoc]
  rw [Dict.lookup_eq_some_of_mem (nodup_chainDoc matterId exportedAt rows) hmem]
  rfl

theorem rowId_chainEntry (row : ChainRow) : rowId R (chainEntry row) = row.entry.id.str := by
  unfold rowId
  rw [get_chainEntry_id]
  rfl

theorem rowId_auditItem (a : AuditEntry) : rowId R (auditItem a) = a.id.str := by
  unfold rowId auditItem
  rw [Dict.get_cons_self]
  rfl

/--
The cross-check compares ids, and different ids have different texts.
-/
theorem ids_eq_iff (audit : List AuditEntry) (rows : List ChainRow)
    : ids R (audit.map auditItem) = ids R (rows.map chainEntry)
        ↔
      ∀ id, (∃ a ∈ audit, a.id = id) ↔ ∃ row ∈ rows, row.entry.id = id := by
  unfold ids
  simp only [List.map_map, Function.comp_def, rowId_auditItem, rowId_chainEntry, Finset.ext_iff,
    List.mem_toFinset, List.mem_map]
  constructor
  . intro h id
    constructor
    . intro ⟨a, ha, hid⟩
      have ⟨row, hrow, heq⟩ := (h id.str).mp ⟨a, ha, by rw [hid]⟩
      exact ⟨row, hrow, Uuid.str_injective heq⟩
    . intro ⟨row, hrow, hid⟩
      have ⟨a, ha, heq⟩ := (h id.str).mpr ⟨row, hrow, by rw [hid]⟩
      exact ⟨a, ha, Uuid.str_injective heq⟩
  . intro h text
    constructor
    . intro ⟨a, ha, htext⟩
      have ⟨row, hrow, hid⟩ := (h a.id).mp ⟨a, ha, rfl⟩
      exact ⟨row, hrow, by rw [hid, htext]⟩
    . intro ⟨row, hrow, htext⟩
      have ⟨a, ha, hid⟩ := (h row.entry.id).mpr ⟨row, hrow, rfl⟩
      exact ⟨a, ha, by rw [hid, htext]⟩

/--
The head that the export states fits whatever sealed entries it is stated for.
-/
theorem sealedChain_chainEntry_iff {rows : List ChainRow} {row : ChainRow}
    : SealedChain R H ((rows ++ [row]).map chainEntry) (headOf row (rows.length + 1))
        ↔
      SealedFrom R H (1, .null) ((rows ++ [row]).map chainEntry) := by
  constructor
  . intro h
    exact h.sealedEntries
  . intro h
    refine ⟨h, ?_, ?_⟩
    . rw [headOf, Dict.get_cons_self]
      simp [advance, get_chainEntry_chainHash]
    . rw [headOf, Dict.get_cons_of_ne (by decide), Dict.get_cons_of_ne (by decide),
        Dict.get_cons_self]
      simp

/--
What the offline verifier accepts of exported files: no exported chain rows at all, or rows that
follow each other, fit their entries, and are those of the exported audit rows.
-/
theorem verify_pack_eq_nil_iff (audit : List AuditEntry) (rows : List ChainRow)
    (henc : ∀ row ∈ rows, Utf8Encodable row.payloadText)
    : verify R H (AuditFiles.pack F.parse
        ⟨JsonText.dumps R (auditList audit),
          JsonText.dumps R (.dict (chainDoc matterId exportedAt rows))⟩) = .ok []
        ↔
      rows = [] ∨ Chained (RowVerifiesOffline H) (fun _ row => some row) none rows
        ∧ ∀ id, (∃ a ∈ audit, a.id = id) ↔ ∃ row ∈ rows, row.entry.id = id := by
  rw [pack_eq F matterId exportedAt audit rows, verify_with_audit_eq_nil_iff _ rfl,
    ← sealedFrom_chainEntry_iff (R := R) rows henc, ← ids_eq_iff (R := R)]
  have hformat : (chainDoc matterId exportedAt rows).get (py "format") = .str supportedFormat :=
    @mem_chainDoc matterId exportedAt _ (py "format", .str supportedFormat) List.mem_cons_self
  have hhead : (chainDoc matterId exportedAt rows).get (py "head")
      = chainHead (rows.map chainEntry) :=
    @mem_chainDoc matterId exportedAt _ (py "head", chainHead (rows.map chainEntry))
      (by simp [chainDoc])
  have hentries := getD_chainDoc_entries matterId exportedAt rows
  have hrows : Pack.chainRows ⟨py "audit_chain.json",
      .ok (.dict (chainDoc matterId exportedAt rows)), some (.ok (auditList audit))⟩
      = rows.map chainEntry := Pack.chainRows_eq rfl hentries
  rw [hrows]
  cases rows using List.reverseRecOn with
  | nil =>
    simp only [true_or, iff_true]
    exact .inl ⟨_, rfl, hformat, by rw [hentries]; rfl, by rw [hhead]; rfl⟩
  | append_singleton rows row =>
    have hne : ¬ rows ++ [row] = [] := by simp
    have hne' : (rows ++ [row]).map chainEntry ≠ [] := by simp
    simp only [hne, false_or]
    rw [chainHead_append_singleton] at hhead
    constructor
    . intro h
      cases h with
      | inl h =>
        have ⟨data, hdata, _, _, hnull⟩ := h
        simp only [Except.ok.injEq, Json.dict.injEq] at hdata
        rw [← hdata, hhead] at hnull
        contradiction
      | inr h =>
        have ⟨⟨data, head, es, hdata, _, _, hes, hhd, hsealed⟩, auditDicts, hread, hids⟩ := h
        simp only [Except.ok.injEq, Json.dict.injEq] at hdata
        rw [← hdata, hentries, Json.list.injEq] at hes
        have hes : (rows ++ [row]).map chainEntry = es := Json.map_dict_injective hes
        have haudit : audit.map auditItem = auditDicts := by
          apply Json.map_dict_injective
          simp only [auditList, Except.ok.injEq, Json.list.injEq] at hread
          rw [List.map_map]
          exact hread
        rw [← hes] at hsealed
        exact ⟨hsealed.sealedEntries, by rw [haudit, hids]⟩
    . intro ⟨hsealed, hids⟩
      refine .inr ⟨⟨_, _, _, rfl, hformat, hne', hentries, hhead, ?_⟩, audit.map auditItem, ?_, hids⟩
      . exact sealedChain_chainEntry_iff.mpr hsealed
      . simp [auditList]

end Files

end Exports
