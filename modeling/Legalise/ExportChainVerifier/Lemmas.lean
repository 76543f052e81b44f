import Legalise.Lib.Chain
import Legalise.Lib.Except
import Legalise.ExportChainVerifier.Basic

/-!
This module contains the theory of the offline verifier's recipe and of the loop that checks it: the
hashed texts are injective in their fields, and a chain is accepted exactly if it is sealed.
-/

namespace ExportChainVerifier

theorem field_eq_lengthPrefixed :
    field = lengthPrefixed pyNat (py "-1") (CodePoint.ofChar ':') := by
  funext value
  cases value with
  | none => rfl
  | some value =>
    have : py ":" = [CodePoint.ofChar ':'] := rfl
    simp [field, lengthPrefixed, this]

theorem field_selfDelimiting : SelfDelimiting field := by
  rw [field_eq_lengthPrefixed]
  apply lengthPrefixed_selfDelimiting
  . exact pyNat_injective
  . intro n
    exact ofChar_notMem_pyNat rfl n
  . decide
  . intro n hn
    have : CodePoint.ofChar '-' ∈ pyNat n := by
      rw [hn]
      decide
    exact ofChar_notMem_pyNat rfl n this

theorem linkText_inj {xs ys : List (Option PyStr)} (hlen : xs.length = ys.length)
    (heq : linkText xs = linkText ys) : xs = ys :=
  field_selfDelimiting.intercalate_inj (py "\n") linkPrefix hlen heq

variable {R : PyRepr} {H : Sha256}

theorem get_eq_of_entryText_eq {e₁ e₂ : Dict} (heq : entryText R e₁ = entryText R e₂)
    : ∀ name ∈ entryHashFields, (e₁.get name).toStr? R = (e₂.get name).toStr? R := by
  have := field_selfDelimiting.intercalate_inj (py "\n") entryPrefix (by simp) heq
  simpa using this

@[simp]
theorem unlessOk_eq_nil_iff (ok : Bool) (problem : PyStr) : unlessOk ok problem = [] ↔ ok = true := by
  simp [unlessOk]

theorem hash_eq_ok_iff (text digest : PyStr)
    : hash H text = .ok digest ↔ Utf8Encodable text ∧ digest = H.hexdigest text := by
  unfold hash
  split <;> simp_all [eq_comm]

/--
The entry continues a chain at `position` after an entry that states `previousHash`, and states the
hashes that its own fields give.
-/
structure SealedEntry (R : PyRepr) (H : Sha256) (position : Nat) (previousHash : Json)
    (entry : Dict) (fields : List (Option PyStr)) : Prop where
  sequence : (entry.get (py "scope_sequence")).pyEq (.int position) = true
  previous : (entry.get (py "previous_chain_hash")).pyEq previousHash = true
  entryText_encodable : Utf8Encodable (entryText R entry)
  entryHash : entry.get (py "entry_hash") = .str (H.hexdigest (entryText R entry))
  linkFields : linkFields R entry (H.hexdigest (entryText R entry)) = .ok fields
  linkText_encodable : Utf8Encodable (linkText fields)
  chainHash : entry.get (py "chain_hash") = .str (H.hexdigest (linkText fields))

theorem verifyEntry_eq_nil_iff (position : Nat) (previousHash : Json) (entry : Dict)
    : verifyEntry R H position previousHash entry = .ok []
        ↔
      ∃ fields, SealedEntry R H position previousHash entry fields := by
  unfold verifyEntry entryHash chainLinkHash
  simp only [Except.bind_eq_ok_iff, Except.pure_eq_ok_iff, hash_eq_ok_iff, List.append_eq_nil_iff,
    unlessOk_eq_nil_iff, Json.pyEq_str_iff]
  constructor
  . rintro ⟨_, ⟨hentry, rfl⟩, _, ⟨fields, hlink, hencodable, rfl⟩, hchecks⟩
    obtain ⟨⟨⟨hsequence, hprevious⟩, hentryHash⟩, hchainHash⟩ := hchecks
    exact ⟨fields, hsequence, hprevious, hentry, hentryHash, hlink, hencodable, hchainHash⟩
  . rintro ⟨fields, h⟩
    refine ⟨_, ⟨h.entryText_encodable, rfl⟩, H.hexdigest (linkText fields), ?_, ?_⟩
    . exact ⟨fields, h.linkFields, h.linkText_encodable, rfl⟩
    . exact ⟨⟨⟨h.sequence, h.previous⟩, h.entryHash⟩, h.chainHash⟩

/--
The position of the next entry and the chain hash that the entries so far end in.
-/
def advance (before : Nat × Json) (entry : Dict) : Nat × Json :=
  (before.fst + 1, entry.get (py "chain_hash"))

/--
All entries of a list are sealed, counted from a position and a previous hash.
-/
def SealedFrom (R : PyRepr) (H : Sha256) (before : Nat × Json) (entries : List Dict) : Prop :=
  Chained (fun before entry => ∃ fields, SealedEntry R H before.fst before.snd entry fields)
    advance before entries

theorem asDict_eq_ok_iff (v : Json) (d : Dict) : v.asDict = .ok d ↔ v = .dict d := by
  cases v <;> simp [Json.asDict]

theorem verifyEntries_eq_nil_iff (position : Nat) (previousHash : Json) (entries : List Json)
    (last : Json)
    : verifyEntries R H position previousHash entries = .ok ([], last)
        ↔
      ∃ es : List Dict,
        entries = es.map .dict ∧ SealedFrom R H (position, previousHash) es
          ∧ last = (es.foldl advance (position, previousHash)).snd := by
  induction entries generalizing position previousHash with
  | nil =>
    constructor
    . intro h
      have : previousHash = last := by simpa [verifyEntries] using h
      exact ⟨[], rfl, trivial, this.symm⟩
    . rintro ⟨es, hes, _, hlast⟩
      have : es = [] := by simpa using hes.symm
      simp [this, hlast, verifyEntries]
  | cons entry entries ih =>
    unfold verifyEntries
    simp only [Except.bind_eq_ok_iff, Except.pure_eq_ok_iff, asDict_eq_ok_iff, Prod.exists,
      Prod.mk.injEq, List.append_eq_nil_iff]
    constructor
    . rintro ⟨e, hentry, problems, hproblems, rest, lastHash, hrest, ⟨hnil, hnil'⟩, hlast⟩
      subst hnil hnil' hlast
      obtain ⟨es, hes, hsealed, hlast⟩ := (ih _ _).mp hrest
      have hhead := (verifyEntry_eq_nil_iff _ _ _).mp hproblems
      exact ⟨e :: es, by simp [hentry, hes], ⟨hhead, hsealed⟩, hlast⟩
    . rintro ⟨es, hes, hsealed, hlast⟩
      cases es with
      | nil => contradiction
      | cons e es =>
        rw [List.map_cons, List.cons.injEq] at hes
        have hhead := (verifyEntry_eq_nil_iff _ _ _).mpr hsealed.left
        have hrest := (ih _ _).mpr ⟨es, hes.right, hsealed.right, hlast⟩
        exact ⟨e, hes.left, [], hhead, [], last, hrest, ⟨rfl, rfl⟩, rfl⟩

/--
The entries are sealed from position 1 on, and the head states where they end.
-/
structure SealedChain (R : PyRepr) (H : Sha256) (entries : List Dict) (head : Dict) : Prop where
  sealedEntries : SealedFrom R H (1, .null) entries
  headHash : (head.get (py "chain_hash")).pyEq (entries.foldl advance (1, .null)).snd = true
  headCount : (head.get (py "entry_count")).pyEq (.int entries.length) = true

theorem verifyChain_eq_nil_iff (entries head : Json)
    : verifyChain R H entries head = .ok []
        ↔
      ∃ (es : List Dict) (hd : Dict),
        entries.iter = .ok (es.map .dict) ∧ head = .dict hd ∧ SealedChain R H es hd := by
  unfold verifyChain verifyHead
  simp only [Except.bind_eq_ok_iff, Except.pure_eq_ok_iff, asDict_eq_ok_iff, Prod.exists,
    List.append_eq_nil_iff, unlessOk_eq_nil_iff]
  constructor
  . rintro ⟨vs, hiter, problems, last, hloop, hd, hhead, hnil, hhash, hcount⟩
    subst hnil
    obtain ⟨es, hes, hsealed, hlast⟩ := (verifyEntries_eq_nil_iff _ _ _ _).mp hloop
    subst hes hlast
    exact ⟨es, hd, hiter, hhead, hsealed, hhash, by simpa using hcount⟩
  . rintro ⟨es, hd, hiter, hhead, h⟩
    have hloop := (verifyEntries_eq_nil_iff _ _ _ _).mpr ⟨es, rfl, h.sealedEntries, rfl⟩
    exact ⟨_, hiter, [], _, hloop, hd, hhead, rfl, h.headHash, by simpa using h.headCount⟩

/--
Only a list of dictionaries gets through the loop: iterating anything else visits strings.
-/
theorem iter_eq_map_dict_iff (v : Json) (htruthy : v.truthy = true) (es : List Dict)
    : v.iter = .ok (es.map .dict) ↔ v = .list (es.map .dict) := by
  cases v with
  | list xs => simp [Json.iter]
  | dict items =>
    cases items with
    | nil => simp [Json.truthy] at htruthy
    | cons item items => cases es <;> simp [Json.iter]
  | str s =>
    cases s with
    | nil => simp [Json.truthy] at htruthy
    | cons c s => cases es <;> simp [Json.iter]
  | null => simp [Json.iter]
  | bool b => simp [Json.iter]
  | int n => simp [Json.iter]
  | float x => simp [Json.iter]

/--
The rows of a list of dictionaries.
-/
def listedRows : Json → List Dict
  | .list vs => vs.filterMap fun v => v.asDict.toOption
  | _ => []

@[simp]
theorem listedRows_list (rows : List Dict) : listedRows (.list (rows.map .dict)) = rows := by
  simp [listedRows, List.filterMap_map, Json.asDict, Except.toOption]

theorem iter_eq_map_dict_iff_of_ne_nil (v : Json) {rows : List Dict} (hne : rows ≠ [])
    : v.iter = .ok (rows.map .dict) ↔ v = .list (rows.map .dict) := by
  constructor
  . intro h
    have htruthy : v.truthy = true := by
      cases v with
      | list vs =>
        have : vs = rows.map .dict := by simpa [Json.iter] using h
        simp [Json.truthy, this, hne]
      | dict items => cases items <;> simp_all [Json.iter, Json.truthy]
      | str s => cases s <;> simp_all [Json.iter, Json.truthy]
      | _ => simp [Json.iter] at h
    exact (iter_eq_map_dict_iff v htruthy rows).mp h
  . intro h
    rw [h]
    rfl

/--
The entries of a chain file.
-/
def chainEntries (data : Dict) : List Dict :=
  listedRows (data.getD (py "entries") (.list []))

/--
The id of a row in the form that the cross-check compares.
-/
def rowId (R : PyRepr) (row : Dict) : PyStr :=
  (row.get (py "id")).toStr R

theorem idSet_eq_ok_iff (rows : List Json) (ids : Finset PyStr)
    : idSet R rows = .ok ids
        ↔
      ∃ ds : List Dict, rows = ds.map .dict ∧ ids = (ds.map (rowId R)).toFinset := by
  unfold idSet
  simp only [Except.bind_eq_ok_iff, Except.pure_eq_ok_iff, Except.mapM_eq_ok_iff, asDict_eq_ok_iff]
  constructor
  . rintro ⟨ys, hrows, hids⟩
    subst hids
    induction hrows with
    | nil => exact ⟨[], rfl, rfl⟩
    | cons hrow _ ih =>
      obtain ⟨d, hd, hy⟩ := hrow
      obtain ⟨ds, hds, hys⟩ := ih
      exact ⟨d :: ds, by simp [hd, hds], by simp [hys, ← hy, rowId]⟩
  . rintro ⟨ds, hds, hids⟩
    subst hds hids
    refine ⟨ds.map (rowId R), ?_, rfl⟩
    rw [List.forall₂_map_left_iff, List.forall₂_map_right_iff, List.forall₂_same]
    intro d _
    exact ⟨d, rfl, rfl⟩

@[simp]
theorem idProblem_eq_nil_iff (ids : Finset PyStr) (problem : PyStr)
    : idProblem ids problem = [] ↔ ids = ∅ := by
  unfold idProblem
  rw [unlessOk_eq_nil_iff, List.isEmpty_iff, ← List.length_eq_zero_iff, Finset.length_sort,
    Finset.card_eq_zero]

theorem crossCheck_eq_nil_iff (entries : List Dict) (audit : Option (Except PyStr Json))
    : crossCheck R (entries.map .dict) audit = .ok []
        ↔
      ∀ file, audit = some file →
        ∃ (auditRows : Json) (rows : List Dict),
          file = .ok auditRows ∧ auditRows.iter = .ok (rows.map .dict)
            ∧ (rows.map (rowId R)).toFinset = (entries.map (rowId R)).toFinset := by
  match audit with
  | none => simp [crossCheck]
  | some (.error exc) => simp [crossCheck]
  | some (.ok auditRows) =>
    unfold crossCheck
    simp only [Except.bind_eq_ok_iff, Except.pure_eq_ok_iff, idSet_eq_ok_iff,
      List.append_eq_nil_iff, idProblem_eq_nil_iff, Finset.sdiff_eq_empty_iff_subset,
      Option.some.injEq, forall_eq', Except.ok.injEq]
    constructor
    . rintro ⟨_, ⟨es, hes, rfl⟩, _, hiter, _, ⟨rows, hrows, rfl⟩, hsub, hsub'⟩
      have hes : entries = es := Json.map_dict_injective hes
      subst hes hrows
      exact ⟨auditRows, rows, rfl, hiter, Finset.Subset.antisymm hsub hsub'⟩
    . rintro ⟨_, rows, rfl, hiter, hids⟩
      exact ⟨_, ⟨entries, rfl, rfl⟩, _, hiter, _, ⟨rows, rfl, rfl⟩, hids.subset, hids.superset⟩

/--
What `verify` accepts. Either the file lists no entries and states no head, and then nothing else is
looked at, or it lists a sealed chain and an `audit.json` in the same directory has the same ids.
-/
theorem verify_eq_nil_iff (pack : Pack)
    : verify R H pack = .ok []
        ↔
      ∃ data : Dict,
        pack.auditChain = .ok (.dict data)
          ∧ data.get (py "format") = .str supportedFormat
          ∧ (((data.getD (py "entries") (.list [])).truthy = false
                ∧ data.get (py "head") = .null)
            ∨ ∃ (es : List Dict) (hd : Dict),
                es ≠ []
                  ∧ data.getD (py "entries") (.list []) = .list (es.map .dict)
                  ∧ data.get (py "head") = .dict hd
                  ∧ SealedChain R H es hd
                  ∧ crossCheck R (es.map .dict) pack.audit = .ok []) := by
  unfold verify
  cases hchain : pack.auditChain with
  | error exc => simp
  | ok json =>
    simp only [Except.bind_eq_ok_iff, asDict_eq_ok_iff, Except.ok.injEq]
    refine exists_congr fun data => and_congr_right fun _ => ?_
    split
    . next hformat =>
      have : data.get (py "format") ≠ .str supportedFormat := by
        intro heq
        rw [(Json.pyEq_str_iff _ _).mpr heq] at hformat
        contradiction
      simp [this]
    . next hformat =>
      have hformat : data.get (py "format") = .str supportedFormat := by simpa using hformat
      split
      . next hentries =>
        have hentries : (data.getD (py "entries") (.list [])).truthy = false := by
          simpa using hentries
        rw [Except.pure_eq_ok_iff, unlessOk_eq_nil_iff, Json.isNone_iff]
        constructor
        . intro hhead
          exact ⟨hformat, .inl ⟨hentries, hhead⟩⟩
        . rintro ⟨_, h⟩
          cases h with
          | inl h => exact h.right
          | inr h =>
            obtain ⟨es, _, hne, hes, _⟩ := h
            rw [hes] at hentries
            simp [Json.truthy, hne] at hentries
      . next hentries =>
        have hentries : (data.getD (py "entries") (.list [])).truthy = true := by
          simpa using hentries
        split
        . next hhead =>
          rw [Json.isNone_iff] at hhead
          simp [hentries, hhead]
        . simp only [Except.bind_eq_ok_iff, Except.pure_eq_ok_iff, List.append_eq_nil_iff]
          constructor
          . rintro ⟨_, hloop, vs, hvs, _, hcross, hnil, hnil'⟩
            subst hnil hnil'
            obtain ⟨es, hd, hiter, hhd, hsealed⟩ := (verifyChain_eq_nil_iff _ _).mp hloop
            have hes := (iter_eq_map_dict_iff _ hentries es).mp hiter
            have : vs = es.map .dict := by simpa [hes, Json.iter] using hvs.symm
            subst this
            refine ⟨hformat, .inr ⟨es, hd, ?_, hes, hhd, hsealed, hcross⟩⟩
            intro hnil
            simp [hes, hnil, Json.truthy] at hentries
          . rintro ⟨_, h⟩
            cases h with
            | inl h => simp [hentries] at h
            | inr h =>
              obtain ⟨es, hd, _, hes, hhd, hsealed, hcross⟩ := h
              have hiter := (iter_eq_map_dict_iff _ hentries es).mpr hes
              have hloop := (verifyChain_eq_nil_iff _ _).mpr ⟨es, hd, hiter, hhd, hsealed⟩
              exact ⟨[], hloop, _, hiter, [], hcross, rfl, rfl⟩

end ExportChainVerifier
