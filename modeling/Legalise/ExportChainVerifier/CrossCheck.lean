import Legalise.ExportChainVerifier.Seal

/-!
This module contains what the cross-check against `audit.json` establishes about an accepted pack:
the two files list the same ids, unless the chain file states nothing at all, and nothing beyond
that.
-/

namespace ExportChainVerifier

variable (R : PyRepr) (H : Sha256)

def Pack.chainRows (pack : Pack) : List Dict :=
  match pack.auditChain with
  | .ok (.dict data) => chainEntries data
  | _ => []

def Pack.auditRows (pack : Pack) : List Dict :=
  match pack.audit with
  | some (.ok v) => listedRows v
  | _ => []

def ids (rows : List Dict) : Finset PyStr :=
  (rows.map (rowId R)).toFinset

/--
The chain file has the supported format, but neither entries nor a head.
-/
def Pack.StatesNothing (pack : Pack) : Prop :=
  ∃ data : Dict,
    pack.auditChain = .ok (.dict data)
      ∧ data.get (py "format") = .str supportedFormat
      ∧ (data.getD (py "entries") (.list [])).truthy = false
      ∧ data.get (py "head") = .null

/--
The chain file lists entries, and they and its head are sealed.
-/
def Pack.Sealed (pack : Pack) : Prop :=
  ∃ (data head : Dict) (es : List Dict),
    pack.auditChain = .ok (.dict data)
      ∧ data.get (py "format") = .str supportedFormat
      ∧ es ≠ []
      ∧ data.getD (py "entries") (.list []) = .list (es.map .dict)
      ∧ data.get (py "head") = .dict head
      ∧ SealedChain R H es head

variable {R H}

theorem Pack.StatesNothing.chainRows_eq_nil {pack : Pack} (h : pack.StatesNothing) :
    pack.chainRows = [] := by
  have ⟨data, hdata, _, hentries, _⟩ := h
  unfold Pack.chainRows
  rw [hdata]
  show listedRows _ = []
  cases hv : data.getD (py "entries") (.list []) with
  | list vs =>
    rw [hv] at hentries
    have : vs = [] := by simpa [Json.truthy] using hentries
    rw [this]
    rfl
  | _ => rfl

theorem Pack.chainRows_eq {pack : Pack} {data : Dict} {es : List Dict}
    (hdata : pack.auditChain = .ok (.dict data))
    (hes : data.getD (py "entries") (.list []) = .list (es.map .dict)) : pack.chainRows = es := by
  unfold Pack.chainRows
  rw [hdata]
  show listedRows _ = es
  rw [hes, listedRows_list]

theorem ids_eq_empty_iff (rows : List Dict) : ids R rows = ∅ ↔ rows = [] := by
  simp [ids]

/--
What `verify` accepts when there is an `audit.json`.
-/
theorem verify_with_audit_eq_nil_iff (pack : Pack) {audit : Except PyStr Json}
    (haudit : pack.audit = some audit)
    : verify R H pack = .ok []
        ↔
      pack.StatesNothing
        ∨ pack.Sealed R H ∧ ∃ rows : List Dict,
            audit = .ok (.list (rows.map .dict)) ∧ ids R rows = ids R pack.chainRows := by
  rw [verify_eq_nil_iff]
  constructor
  . intro ⟨data, hdata, hformat, h⟩
    cases h with
    | inl h => exact .inl ⟨data, hdata, hformat, h⟩
    | inr h =>
      have ⟨es, head, hne, hes, hhead, hsealed, hcross⟩ := h
      refine .inr ⟨⟨data, head, es, hdata, hformat, hne, hes, hhead, hsealed⟩, ?_⟩
      rw [Pack.chainRows_eq hdata hes]
      have ⟨auditRows, rows, hread, hiter, hids⟩ := (crossCheck_eq_nil_iff _ _).mp hcross audit haudit
      refine ⟨rows, ?_, hids⟩
      have hrows : rows ≠ [] := by
        intro hnil
        apply hne
        rw [← ids_eq_empty_iff (R := R), ids, ← hids, hnil]
        rfl
      rw [hread, (iter_eq_map_dict_iff_of_ne_nil auditRows hrows).mp hiter]
  . intro h
    cases h with
    | inl h =>
      have ⟨data, hdata, hformat, h⟩ := h
      exact ⟨data, hdata, hformat, .inl h⟩
    | inr h =>
      have ⟨⟨data, head, es, hdata, hformat, hne, hes, hhead, hsealed⟩, rows, hread, hids⟩ := h
      refine ⟨data, hdata, hformat, .inr ⟨es, head, hne, hes, hhead, hsealed, ?_⟩⟩
      rw [Pack.chainRows_eq hdata hes] at hids
      rw [crossCheck_eq_nil_iff]
      intro file hfile
      rw [haudit, Option.some.injEq] at hfile
      exact ⟨_, rows, hfile ▸ hread, rfl, hids⟩

theorem Pack.auditRows_eq {pack : Pack} {rows : List Dict}
    (h : pack.audit = some (.ok (.list (rows.map .dict)))) : pack.auditRows = rows := by
  unfold Pack.auditRows
  rw [h]
  exact listedRows_list rows

section SameIds

/--
An accepted pack lists the same ids in both files exactly if it is not the case that the chain file
states nothing while `audit.json` lists rows: the early return skips the cross-check.
-/
theorem sameIds_iff (name : PyStr) (auditChain audit : Except PyStr Json)
    : (verify R H ⟨name, auditChain, some audit⟩ = .ok [] →
        ids R (Pack.auditRows ⟨name, auditChain, some audit⟩)
          = ids R (Pack.chainRows ⟨name, auditChain, some audit⟩))
        ↔
      ¬ (Pack.StatesNothing ⟨name, auditChain, some audit⟩
          ∧ Pack.auditRows ⟨name, auditChain, some audit⟩ ≠ []) := by
  generalize hpack : Pack.mk name auditChain (some audit) = pack
  have haudit : pack.audit = some audit := by rw [← hpack]
  rw [verify_with_audit_eq_nil_iff pack haudit]
  constructor
  . intro h ⟨hnothing, hrows⟩
    have hids := h (.inl hnothing)
    rw [hnothing.chainRows_eq_nil] at hids
    apply hrows
    simpa [ids] using hids
  . intro h haccepted
    cases haccepted with
    | inl hnothing =>
      have hrows : pack.auditRows = [] := by
        by_contra hrows
        exact h ⟨hnothing, hrows⟩
      rw [hrows, hnothing.chainRows_eq_nil]
    | inr hsealed =>
      have ⟨_, rows, hread, hids⟩ := hsealed
      rw [Pack.auditRows_eq (hread ▸ haudit), hids]

/--
A pack whose chain file had all entries and the head removed, next to an `audit.json` with a row.
-/
def emptiedPack : Pack where
  chainName := py "audit_chain.json"
  auditChain := .ok (.dict [
    (py "format", .str supportedFormat),
    (py "head", .null),
    (py "entries", .list [])
  ])
  audit := some (.ok (.list [.dict [(py "id", .str (py "a"))]]))

theorem not_sameIds_emptiedPack
    : ¬ ∀ (R : PyRepr) (H : Sha256) (pack : Pack), pack.audit.isSome = true →
        verify R H pack = .ok [] → ids R pack.auditRows = ids R pack.chainRows := by
  intro h
  have hids := h .quoted .plain emptiedPack rfl rfl
  contradiction

end SameIds

section ContentAgreement

/--
The fields that both files carry as a text or a number.
-/
def sharedFields : List PyStr :=
  [
    py "actor_id",
    py "action",
    py "module",
    py "resource_type",
    py "resource_id",
    py "model_used",
    py "token_count"
  ]

variable {I : Type} (instant : Json → I) (loads : Json → Json)

/--
A row of `audit.json` says what the chain entry says. The timestamps are compared as instants, and
the payload with what `payload_text` stands for.
-/
structure Agrees (R : PyRepr) (row entry : Dict) : Prop where
  timestamp : instant (row.get (py "timestamp")) = instant (entry.get (py "timestamp"))
  shared : ∀ name ∈ sharedFields, (row.get name).toStr? R = (entry.get name).toStr? R
  payload : row.get (py "payload") = loads (entry.get (py "payload_text"))

/--
The rows that have the id of an entry.
-/
def rowsOf (R : PyRepr) (rows : List Dict) (entry : Dict) : List Dict :=
  rows.filter fun row => rowId R row = rowId R entry

/--
Every entry has exactly one row, and that row agrees with it.
-/
def ContentAgreement (R : PyRepr) (rows entries : List Dict) : Prop :=
  ∀ entry ∈ entries, ∃ row, rowsOf R rows entry = [row] ∧ Agrees instant loads R row entry

/--
The row of some entry is listed twice, or one of its fields is not what the entry says.
-/
def Altered (R : PyRepr) (rows entries : List Dict) : Prop :=
  ∃ entry ∈ entries,
    1 < (rowsOf R rows entry).length ∨ ∃ row ∈ rowsOf R rows entry, ¬ Agrees instant loads R row entry

variable {instant loads}

theorem rowsOf_ne_nil {rows entries : List Dict} (hids : ids R rows = ids R entries) {entry : Dict}
    (hentry : entry ∈ entries) : rowsOf R rows entry ≠ [] := by
  have : rowId R entry ∈ ids R rows := by
    rw [hids]
    simpa [ids] using ⟨entry, hentry, rfl⟩
  simp only [ids, List.mem_toFinset, List.mem_map] at this
  have ⟨row, hrow, heq⟩ := this
  intro hnil
  have hmem : row ∈ rowsOf R rows entry := by simp [rowsOf, hrow, heq]
  simp [hnil] at hmem

theorem contentAgreement_iff_not_altered {rows entries : List Dict}
    (hids : ids R rows = ids R entries)
    : ContentAgreement instant loads R rows entries ↔ ¬ Altered instant loads R rows entries := by
  constructor
  . intro hagree ⟨entry, hentry, h⟩
    have ⟨row, hrow, hrowAgrees⟩ := hagree entry hentry
    rw [hrow] at h
    cases h with
    | inl h => simp at h
    | inr h =>
      have ⟨row', hmem, hdisagrees⟩ := h
      rw [List.mem_singleton] at hmem
      exact hdisagrees (hmem ▸ hrowAgrees)
  . intro h entry hentry
    cases hrows : rowsOf R rows entry with
    | nil => exact absurd hrows (rowsOf_ne_nil hids hentry)
    | cons row rest =>
      have hrest : rest = [] := by
        by_contra hne
        apply h
        refine ⟨entry, hentry, .inl ?_⟩
        have := List.length_pos_iff.mpr hne
        rw [hrows, List.length_cons]
        omega
      refine ⟨row, by rw [hrest], ?_⟩
      by_contra hdisagrees
      exact h ⟨entry, hentry, .inr ⟨row, by simp [hrows], hdisagrees⟩⟩

theorem contentAgreement_iff_of_audit (pack : Pack) {audit : Except PyStr Json}
    (haudit : pack.audit = some audit)
    : (verify R H pack = .ok [] → ContentAgreement instant loads R pack.auditRows pack.chainRows)
        ↔
      ¬ (pack.Sealed R H ∧ ∃ rows : List Dict,
          audit = .ok (.list (rows.map .dict))
            ∧ ids R rows = ids R pack.chainRows
            ∧ Altered instant loads R rows pack.chainRows) := by
  rw [verify_with_audit_eq_nil_iff pack haudit]
  constructor
  . intro h ⟨hsealed, rows, hread, hids, haltered⟩
    have hagree := h (.inr ⟨hsealed, rows, hread, hids⟩)
    rw [Pack.auditRows_eq (hread ▸ haudit), contentAgreement_iff_not_altered hids] at hagree
    exact hagree haltered
  . intro h haccepted
    cases haccepted with
    | inl hnothing =>
      rw [hnothing.chainRows_eq_nil]
      intro entry hentry
      contradiction
    | inr hsealed =>
      have ⟨hsealed, rows, hread, hids⟩ := hsealed
      rw [Pack.auditRows_eq (hread ▸ haudit), contentAgreement_iff_not_altered hids]
      intro haltered
      exact h ⟨hsealed, rows, hread, hids, haltered⟩

/--
Listing every entry twice keeps the ids.
-/
theorem altered_append_self {entries : List Dict} (hne : entries ≠ [])
    : ids R (entries ++ entries) = ids R entries
        ∧ Altered instant loads R (entries ++ entries) entries := by
  constructor
  . simp [ids]
  . have ⟨entry, hentry⟩ := List.exists_mem_of_ne_nil entries hne
    refine ⟨entry, hentry, .inl ?_⟩
    have hrows := List.length_pos_iff.mpr (rowsOf_ne_nil (R := R) rfl hentry)
    unfold rowsOf at hrows ⊢
    rw [List.filter_append, List.length_append]
    omega

/--
Only ids are compared. So an accepted pack agrees in content exactly if nothing was altered behind
the same ids, and the chain files that let no alteration pass are exactly those that are rejected on
their own account.
-/
theorem contentAgreement_iff (name : PyStr) (auditChain : Except PyStr Json)
    : (∀ audit : Except PyStr Json,
        (verify R H ⟨name, auditChain, some audit⟩ = .ok [] →
          ContentAgreement instant loads R (Pack.auditRows ⟨name, auditChain, some audit⟩)
            (Pack.chainRows ⟨name, auditChain, some audit⟩))
          ↔
        ¬ (Pack.Sealed R H ⟨name, auditChain, some audit⟩ ∧ ∃ rows : List Dict,
            audit = .ok (.list (rows.map .dict))
              ∧ ids R rows = ids R (Pack.chainRows ⟨name, auditChain, some audit⟩)
              ∧ Altered instant loads R rows (Pack.chainRows ⟨name, auditChain, some audit⟩)))
        ∧
      ((∀ audit : Except PyStr Json, verify R H ⟨name, auditChain, some audit⟩ = .ok [] →
          ContentAgreement instant loads R (Pack.auditRows ⟨name, auditChain, some audit⟩)
            (Pack.chainRows ⟨name, auditChain, some audit⟩))
          ↔
        ¬ Pack.Sealed R H ⟨name, auditChain, none⟩) := by
  constructor
  . intro audit
    exact contentAgreement_iff_of_audit ⟨name, auditChain, some audit⟩ rfl
  . constructor
    . intro h hsealed
      have hsealed' := hsealed
      have ⟨data, head, es, hdata, _, hne, hes, _⟩ := hsealed'
      have hagree := h (.ok (.list ((es ++ es).map .dict)))
      rw [contentAgreement_iff_of_audit _ rfl] at hagree
      have hrows : Pack.chainRows ⟨name, auditChain, some (.ok (.list ((es ++ es).map .dict)))⟩ = es :=
        Pack.chainRows_eq hdata hes
      have ⟨hids, haltered⟩ := @altered_append_self R _ instant loads _ hne
      exact hagree ⟨hsealed, es ++ es, rfl, by rwa [hrows], by rwa [hrows]⟩
    . intro hsealed audit
      rw [contentAgreement_iff_of_audit ⟨name, auditChain, some audit⟩ rfl]
      intro h
      exact hsealed h.left

/--
A row that a sealed chain file records as signed.
-/
def signedRow : Dict :=
  [
    (py "id", .str (py "a")),
    (py "scope_type", .str (py "matter")),
    (py "chain_version", .int 1),
    (py "action", .str (py "output.signed")),
    (py "payload_text", .str (py "\x7b\x7d"))
  ]

/--
The same row in an `audit.json` where it was edited to say that the output was rejected.
-/
def editedRow : Dict :=
  [
    (py "id", .str (py "a")),
    (py "action", .str (py "output.rejected")),
    (py "payload", .dict [])
  ]

def editedPack : Pack where
  chainName := py "audit_chain.json"
  auditChain := .ok (.dict (sealFile .quoted .plain [signedRow]))
  audit := some (.ok (.list ([editedRow].map .dict)))

theorem sealable_signedRow : Sealable .quoted signedRow where
  required := by
    simp only [List.forall_mem_cons]
    exact ⟨rfl, rfl, rfl, by simp⟩
  encodable := by
    unfold signedRow
    simp only [List.forall_mem_cons]
    refine ⟨?_, ?_, ?_, ?_, ?_, by simp⟩ <;> simp

theorem not_contentAgreement_editedPack
    : ¬ ∀ (R : PyRepr) (H : Sha256) (instant loads : Json → Json) (pack : Pack),
        pack.audit.isSome = true → pack.chainRows ≠ [] → verify R H pack = .ok [] →
        ContentAgreement instant loads R pack.auditRows pack.chainRows := by
  intro h
  have hchain : editedPack.chainRows = sealEntries .quoted .plain (1, .null) [signedRow] := by
    exact chainEntries_sealFile _
  have hrows : editedPack.auditRows = [editedRow] := Pack.auditRows_eq rfl
  have haccepted : verify .quoted .plain editedPack = .ok [] := by
    apply verify_sealFile
    . simp
    . simpa using sealable_signedRow
    . rfl
  have hagree := h .quoted .plain id (fun _ => .dict []) editedPack rfl (by rw [hchain]; simp [sealEntries])
    haccepted
  rw [hchain, hrows] at hagree
  obtain ⟨row, hrow, hagrees⟩ := hagree (sealEntry .quoted .plain (1, .null) signedRow) (by simp [sealEntries])
  have : row = editedRow := by
    have hmem : row ∈ rowsOf .quoted [editedRow] (sealEntry .quoted .plain (1, .null) signedRow) := by
      simp [hrow]
    exact List.mem_singleton.mp (List.mem_of_mem_filter hmem)
  have haction := hagrees.shared (py "action") (by decide)
  rw [this, get_sealEntry_of_notMem (by decide)] at haction
  have hsame : some (py "output.rejected") = some (py "output.signed") := haction
  exact absurd hsame (by decide)

end ContentAgreement

end ExportChainVerifier
