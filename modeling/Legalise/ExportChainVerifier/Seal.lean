import Legalise.ExportChainVerifier.Lemmas

/-!
This module contains the converse of the checks: rows of any contents can be sealed into a chain
file that the verifier accepts. The chain itself is not anchored anywhere outside of the file.
-/

namespace ExportChainVerifier

variable (R : PyRepr) (H : Sha256)

/--
The row as an entry that continues a chain, with the hashes that its own fields give.
-/
def sealEntry (before : Nat × Json) (row : Dict) : Dict :=
  let numbered : Dict :=
    (py "scope_sequence", .int before.fst) :: (py "previous_chain_hash", before.snd) :: row
  let entryHash := H.hexdigest (entryText R row)
  let chainHash :=
    match linkFields R numbered entryHash with
    | .ok fields => H.hexdigest (linkText fields)
    | .error _ => entryHash
  (py "entry_hash", .str entryHash) :: (py "chain_hash", .str chainHash) :: numbered

def sealEntries : Nat × Json → List Dict → List Dict
  | _, [] => []
  | before, row :: rows =>
    let entry := sealEntry R H before row
    entry :: sealEntries (advance before entry) rows

/--
The head of the sealed rows.
-/
def sealHead (rows : List Dict) : Dict :=
  let entries := sealEntries R H (1, .null) rows
  [
    (py "chain_hash", (entries.foldl advance (1, .null)).snd),
    (py "entry_count", .int entries.length)
  ]

/--
The chain file of the sealed rows.
-/
def sealFile (rows : List Dict) : Dict :=
  [
    (py "format", .str supportedFormat),
    (py "entries", .list ((sealEntries R H (1, .null) rows).map .dict)),
    (py "head", .dict (sealHead R H rows))
  ]

/--
A row with the items that the link text requires, all of which can be rendered and hashed.
-/
structure Sealable (R : PyRepr) (row : Dict) : Prop where
  required : ∀ key ∈ [py "chain_version", py "scope_type", py "id"], (List.lookup key row).isSome
  encodable : ∀ item ∈ row, Utf8Encodable (item.snd.toStr R)

variable {R H} {before : Nat × Json} {row : Dict}

theorem get_sealEntry_of_notMem {key : PyStr}
    (hkey : key ∉ [py "entry_hash", py "chain_hash", py "scope_sequence", py "previous_chain_hash"])
    : (sealEntry R H before row).get key = row.get key := by
  simp only [List.mem_cons, List.not_mem_nil, or_false, not_or] at hkey
  have ⟨hentry, hchain, hsequence, hprevious⟩ := hkey
  unfold sealEntry
  rw [Dict.get_cons_of_ne hentry, Dict.get_cons_of_ne hchain, Dict.get_cons_of_ne hsequence,
    Dict.get_cons_of_ne hprevious]

theorem get_sealEntry_sequence :
    (sealEntry R H before row).get (py "scope_sequence") = .int before.fst := by
  unfold sealEntry
  rw [Dict.get_cons_of_ne (by decide), Dict.get_cons_of_ne (by decide), Dict.get_cons_self]

theorem get_sealEntry_previous :
    (sealEntry R H before row).get (py "previous_chain_hash") = before.snd := by
  unfold sealEntry
  rw [Dict.get_cons_of_ne (by decide), Dict.get_cons_of_ne (by decide),
    Dict.get_cons_of_ne (by decide), Dict.get_cons_self]

theorem entryText_sealEntry : entryText R (sealEntry R H before row) = entryText R row := by
  unfold entryText
  have : ∀ name ∈ entryHashFields,
      name ∉ [py "entry_hash", py "chain_hash", py "scope_sequence", py "previous_chain_hash"] := by
    decide
  have : entryHashFields.map (fun name => ((sealEntry R H before row).get name).toStr? R)
      = entryHashFields.map (fun name => (row.get name).toStr? R) := by
    apply List.map_congr_left
    intro name hname
    rw [get_sealEntry_of_notMem (this name hname)]
  rw [this]

theorem Sealable.encodable_get (h : Sealable R row) (key : PyStr) :
    Utf8Encodable ((row.get key).toStr R) := by
  cases row.get_mem_or_null key with
  | inl hnull =>
    rw [hnull]
    exact utf8Encodable_py "None"
  | inr hmem =>
    have ⟨item, hitem, hget⟩ := hmem
    rw [hget]
    exact h.encodable item hitem

theorem Sealable.getItem_eq_ok (h : Sealable R row) {key : PyStr}
    (hkey : key ∈ [py "chain_version", py "scope_type", py "id"])
    : row.getItem key = .ok (row.get key) := by
  have ⟨value, hvalue⟩ := Option.isSome_iff_exists.mp (h.required key hkey)
  simp [Dict.getItem, Dict.get, Dict.getD, hvalue]

theorem utf8Encodable_field {value : Option PyStr} (h : ∀ s ∈ value, Utf8Encodable s) :
    Utf8Encodable (field value) := by
  cases value with
  | none => exact utf8Encodable_py "-1:"
  | some s => simpa [field] using h s rfl

theorem utf8Encodable_linkText {fields : List (Option PyStr)}
    (h : ∀ value ∈ fields, ∀ s ∈ value, Utf8Encodable s) : Utf8Encodable (linkText fields) := by
  apply utf8Encodable_join (utf8Encodable_py _)
  intro part hpart
  rw [List.mem_cons, List.mem_map] at hpart
  cases hpart with
  | inl htitle => exact htitle ▸ utf8Encodable_py _
  | inr hpart =>
    have ⟨value, hvalue, hfield⟩ := hpart
    exact hfield ▸ utf8Encodable_field (h value hvalue)

theorem toStr?_encodable {v : Json} (h : Utf8Encodable (v.toStr R)) :
    ∀ s ∈ v.toStr? R, Utf8Encodable s := by
  intro s hs
  unfold Json.toStr? at hs
  split at hs
  . contradiction
  . simp only [Option.mem_def, Option.some.injEq] at hs
    exact hs ▸ h

theorem Sealable.entryText_encodable (h : Sealable R row) : Utf8Encodable (entryText R row) := by
  apply utf8Encodable_join (utf8Encodable_py _)
  intro part hpart
  rw [List.mem_cons, List.mem_map] at hpart
  cases hpart with
  | inl htitle => exact htitle ▸ utf8Encodable_py _
  | inr hpart =>
    have ⟨value, hvalue, hfield⟩ := hpart
    have ⟨name, _, hname⟩ := List.mem_map.mp hvalue
    rw [← hfield, ← hname]
    exact utf8Encodable_field (toStr?_encodable (h.encodable_get name))

/--
The link fields of a sealed entry.
-/
def sealFields (R : PyRepr) (H : Sha256) (before : Nat × Json) (row : Dict)
    : List (Option PyStr) :=
  [
    some ((row.get (py "chain_version")).toStr R),
    some ((row.get (py "scope_type")).toStr R),
    (row.get (py "matter_id")).toStr? R,
    some (pyInt before.fst),
    some ((row.get (py "id")).toStr R),
    before.snd.toStr? R,
    some (H.hexdigest (entryText R row))
  ]

theorem linkFields_cons_of_ne {key : PyStr} {value : Json} {d : Dict} {computedEntryHash : PyStr}
    (hkey : key ∉ [py "chain_version", py "scope_type", py "matter_id", py "scope_sequence",
      py "id", py "previous_chain_hash"])
    : linkFields R ((key, value) :: d) computedEntryHash = linkFields R d computedEntryHash := by
  simp only [List.mem_cons, List.not_mem_nil, or_false, not_or] at hkey
  have ⟨hversion, hscope, hmatter, hsequence, hid, hprevious⟩ := hkey
  unfold linkFields
  rw [Dict.getItem_cons_of_ne (Ne.symm hversion), Dict.getItem_cons_of_ne (Ne.symm hscope),
    Dict.get_cons_of_ne (Ne.symm hmatter), Dict.getItem_cons_of_ne (Ne.symm hsequence),
    Dict.getItem_cons_of_ne (Ne.symm hid), Dict.get_cons_of_ne (Ne.symm hprevious)]

theorem Sealable.linkFields_numbered (h : Sealable R row)
    : linkFields R
        ((py "scope_sequence", .int before.fst) :: (py "previous_chain_hash", before.snd) :: row)
        (H.hexdigest (entryText R row)) = .ok (sealFields R H before row) := by
  unfold linkFields
  have hnotMem : ∀ key ∈ [py "chain_version", py "scope_type", py "id", py "matter_id"],
      key ≠ py "scope_sequence" ∧ key ≠ py "previous_chain_hash" := by
    decide
  have hitem : ∀ key ∈ [py "chain_version", py "scope_type", py "id"],
      Dict.getItem
        ((py "scope_sequence", .int before.fst) :: (py "previous_chain_hash", before.snd) :: row)
        key = .ok (row.get key) := by
    intro key hkey
    have ⟨hsequence, hprevious⟩ := hnotMem key (List.mem_append_left [py "matter_id"] hkey)
    rw [Dict.getItem_cons_of_ne hsequence, Dict.getItem_cons_of_ne hprevious, h.getItem_eq_ok hkey]
  rw [hitem (py "chain_version") (by decide), hitem (py "scope_type") (by decide),
    hitem (py "id") (by decide), Dict.getItem_cons_self,
    Dict.get_cons_of_ne (by decide), Dict.get_cons_of_ne (by decide),
    Dict.get_cons_of_ne (by decide), Dict.get_cons_self]
  simp [sealFields, bind, Except.bind, pure, Except.pure]

theorem Sealable.get_sealEntry_chainHash (h : Sealable R row)
    : (sealEntry R H before row).get (py "chain_hash")
        = .str (H.hexdigest (linkText (sealFields R H before row))) := by
  unfold sealEntry
  simp only [h.linkFields_numbered]
  rw [Dict.get_cons_of_ne (by decide), Dict.get_cons_self]

/--
Sealing gives an entry that passes all checks of the verifier.
-/
theorem Sealable.sealedEntry (h : Sealable R row) (hbefore : Utf8Encodable (before.snd.toStr R))
    (hrefl : before.snd.pyEq before.snd = true)
    : SealedEntry R H before.fst before.snd (sealEntry R H before row)
        (sealFields R H before row) where
  sequence := by
    rw [get_sealEntry_sequence]
    exact Json.pyEq_int_self _
  previous := by
    rw [get_sealEntry_previous]
    exact hrefl
  entryText_encodable := by
    rw [entryText_sealEntry]
    exact h.entryText_encodable
  entryHash := by
    rw [entryText_sealEntry]
    exact Dict.get_cons_self _ _ _
  linkFields := by
    rw [entryText_sealEntry]
    unfold sealEntry
    rw [linkFields_cons_of_ne (by decide), linkFields_cons_of_ne (by decide), h.linkFields_numbered]
  linkText_encodable := by
    apply utf8Encodable_linkText
    unfold sealFields
    simp only [List.forall_mem_cons, Option.mem_def, Option.some.injEq, forall_eq',
      List.not_mem_nil, IsEmpty.forall_iff, implies_true, and_true]
    refine ⟨h.encodable_get _, h.encodable_get _, ?_, utf8Encodable_pyInt _, h.encodable_get _, ?_,
      H.utf8Encodable_hexdigest _⟩
    . exact toStr?_encodable (h.encodable_get _)
    . exact toStr?_encodable hbefore
  chainHash := h.get_sealEntry_chainHash

theorem sealedFrom_sealEntries {rows : List Dict} (h : ∀ row ∈ rows, Sealable R row)
    (hbefore : Utf8Encodable (before.snd.toStr R)) (hrefl : before.snd.pyEq before.snd = true)
    : SealedFrom R H before (sealEntries R H before rows) := by
  induction rows generalizing before with
  | nil => trivial
  | cons row rows ih =>
    unfold sealEntries
    have hrow := h row (by simp)
    refine ⟨⟨_, hrow.sealedEntry hbefore hrefl⟩, ?_⟩
    have hnext : (advance before (sealEntry R H before row)).snd
        = .str (H.hexdigest (linkText (sealFields R H before row))) := hrow.get_sealEntry_chainHash
    apply ih
    . intro other hother
      exact h other (by simp [hother])
    . rw [hnext]
      exact H.utf8Encodable_hexdigest _
    . rw [hnext, Json.pyEq_str_iff]

theorem length_sealEntries (rows : List Dict) : (sealEntries R H before rows).length = rows.length := by
  induction rows generalizing before with
  | nil => rfl
  | cons row rows ih => simp [sealEntries, ih]

theorem map_rowId_sealEntries (rows : List Dict)
    : (sealEntries R H before rows).map (rowId R) = rows.map (rowId R) := by
  induction rows generalizing before with
  | nil => rfl
  | cons row rows ih =>
    have : rowId R (sealEntry R H before row) = rowId R row := by
      unfold rowId
      rw [get_sealEntry_of_notMem (by decide)]
    simp [sealEntries, ih, this]

theorem SealedFrom.last_self {es : List Dict} (h : SealedFrom R H (1, .null) es)
    : (es.foldl advance (1, .null)).snd.pyEq (es.foldl advance (1, .null)).snd = true := by
  cases es using List.reverseRecOn with
  | nil => rfl
  | append_singleton es e =>
    have ⟨_, fields, he⟩ := (Chained.append_singleton_iff _ _ _).mp h
    simp [advance, he.chainHash]

theorem get_sealFile_format (rows : List Dict)
    : (sealFile R H rows).get (py "format") = .str supportedFormat := by
  exact Dict.get_cons_self _ _ _

theorem get_sealFile_entries (rows : List Dict)
    : (sealFile R H rows).getD (py "entries") (.list [])
        = .list ((sealEntries R H (1, .null) rows).map .dict) := by
  unfold sealFile Dict.getD
  rw [Dict.lookup_cons_of_ne (by decide), Dict.lookup_cons_self]
  rfl

theorem chainEntries_sealFile (rows : List Dict)
    : chainEntries (sealFile R H rows) = sealEntries R H (1, .null) rows := by
  unfold chainEntries
  rw [get_sealFile_entries, listedRows_list]

theorem get_sealFile_head (rows : List Dict)
    : (sealFile R H rows).get (py "head") = .dict (sealHead R H rows) := by
  unfold sealFile
  rw [Dict.get_cons_of_ne (by decide), Dict.get_cons_of_ne (by decide), Dict.get_cons_self]

theorem sealedChain_sealEntries {rows : List Dict} (h : ∀ row ∈ rows, Sealable R row)
    : SealedChain R H (sealEntries R H (1, .null) rows) (sealHead R H rows) := by
  have hsealed : SealedFrom R H (1, .null) (sealEntries R H (1, .null) rows) := by
    apply sealedFrom_sealEntries h
    . exact utf8Encodable_py "None"
    . rfl
  refine ⟨hsealed, ?_, ?_⟩
  . unfold sealHead
    rw [Dict.get_cons_self]
    exact hsealed.last_self
  . unfold sealHead
    rw [Dict.get_cons_of_ne (by decide), Dict.get_cons_self]
    exact Json.pyEq_int_self _

/--
The entry, link and head checks accept the chain file of any rows.
-/
theorem verifyChain_sealFile {rows : List Dict} (h : ∀ row ∈ rows, Sealable R row)
    : verifyChain R H ((sealFile R H rows).getD (py "entries") (.list []))
        ((sealFile R H rows).get (py "head")) = .ok [] := by
  rw [verifyChain_eq_nil_iff, get_sealFile_entries, get_sealFile_head]
  exact ⟨_, _, rfl, rfl, sealedChain_sealEntries h⟩

/--
The verifier accepts the chain file of any rows next to an `audit.json` that lists the same ids.
-/
theorem verify_sealFile {rows auditRows : List Dict} (hne : rows ≠ [])
    (h : ∀ row ∈ rows, Sealable R row)
    (hids : (auditRows.map (rowId R)).toFinset = (rows.map (rowId R)).toFinset) (name : PyStr)
    : verify R H {
        chainName := name,
        auditChain := .ok (.dict (sealFile R H rows)),
        audit := some (.ok (.list (auditRows.map .dict)))
      } = .ok [] := by
  rw [verify_eq_nil_iff]
  refine ⟨_, rfl, get_sealFile_format rows, .inr ⟨sealEntries R H (1, .null) rows, _, ?_,
    get_sealFile_entries rows, get_sealFile_head rows, sealedChain_sealEntries h, ?_⟩⟩
  . intro hnil
    have := congrArg List.length hnil
    rw [length_sealEntries] at this
    exact hne (List.length_eq_zero_iff.mp this)
  . rw [crossCheck_eq_nil_iff]
    intro file hfile
    simp only [Option.some.injEq] at hfile
    refine ⟨_, auditRows, hfile.symm, rfl, ?_⟩
    rw [map_rowId_sealEntries, hids]

end ExportChainVerifier
