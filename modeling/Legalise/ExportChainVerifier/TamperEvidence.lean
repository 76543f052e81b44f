import Legalise.ExportChainVerifier.Seal

/-!
This module contains what an accepted chain file commits to: its stated head hash fixes the number
of its entries and the rendering of all their fields.
-/

namespace ExportChainVerifier

/--
The fields of an entry that the chain covers.
-/
def coveredFields : List PyStr :=
  entryHashFields ++ [
    py "scope_type",
    py "scope_sequence",
    py "chain_version",
    py "previous_chain_hash",
    py "entry_hash",
    py "chain_hash"
  ]

/--
Two entries render every covered field the same way.
-/
def SameRendering (render : PyStr → Json → Option PyStr) (e₁ e₂ : Dict) : Prop :=
  ∀ name ∈ coveredFields, render name (e₁.get name) = render name (e₂.get name)

/--
The rendering that keeps `None` apart from every string.
-/
def nullDistinct (R : PyRepr) (_name : PyStr) (v : Json) : Option PyStr :=
  v.toStr? R

/--
The rendering that is hashed: the scope type and the chain version go through `str` even when they
are `None`, and then read like the string `None`.
-/
def hashedRendering (R : PyRepr) (name : PyStr) (v : Json) : Option PyStr :=
  if name = py "scope_type" ∨ name = py "chain_version" then some (v.toStr R) else v.toStr? R

/--
The chain hash of the head of a chain file.
-/
def statedHead (data : Dict) : Json :=
  match data.get (py "head") with
  | .dict head => Dict.get head (py "chain_hash")
  | _ => .null

variable {R : PyRepr} {H : Sha256}

def statedHash (R : PyRepr) (entry : Dict) : PyStr :=
  (entry.get (py "chain_hash")).toStr R

def statedPrevious (R : PyRepr) (entry : Dict) : Option PyStr :=
  (entry.get (py "previous_chain_hash")).toStr? R

theorem linkFields_eq_ok {entry : Dict} {computedEntryHash : PyStr}
    {fields : List (Option PyStr)} (h : linkFields R entry computedEntryHash = .ok fields)
    : fields = [
        some ((entry.get (py "chain_version")).toStr R),
        some ((entry.get (py "scope_type")).toStr R),
        (entry.get (py "matter_id")).toStr? R,
        some ((entry.get (py "scope_sequence")).toStr R),
        some ((entry.get (py "id")).toStr R),
        (entry.get (py "previous_chain_hash")).toStr? R,
        some computedEntryHash
      ] := by
  unfold linkFields at h
  simp only [Except.bind_eq_ok_iff, Except.pure_eq_ok_iff] at h
  obtain ⟨_, hversion, _, hscope, _, hsequence, _, hid, hfields⟩ := h
  rw [← hfields, Dict.get_eq_of_getItem hversion, Dict.get_eq_of_getItem hscope,
    Dict.get_eq_of_getItem hsequence, Dict.get_eq_of_getItem hid]

namespace SealedEntry

variable {position₁ position₂ : Nat} {previous₁ previous₂ : Json} {e₁ e₂ : Dict}
  {fields₁ fields₂ : List (Option PyStr)}

theorem statedHash_eq (h : SealedEntry R H position₁ previous₁ e₁ fields₁) :
    statedHash R e₁ = H.hexdigest (linkText fields₁) := by
  simp [statedHash, h.chainHash]

/--
The chain hash that an entry states determines everything the chain covers. The link text gives the
link fields and the entry hash, and the entry hash gives the entry text.
-/
theorem sameRendering_of_statedHash_eq (hinj : Function.Injective H.hexdigest)
    (h₁ : SealedEntry R H position₁ previous₁ e₁ fields₁)
    (h₂ : SealedEntry R H position₂ previous₂ e₂ fields₂)
    (heq : statedHash R e₁ = statedHash R e₂) : SameRendering (hashedRendering R) e₁ e₂ := by
  rw [h₁.statedHash_eq, h₂.statedHash_eq] at heq
  have hlink := hinj heq
  have hfields₁ := linkFields_eq_ok h₁.linkFields
  have hfields₂ := linkFields_eq_ok h₂.linkFields
  have hfields : fields₁ = fields₂ := by
    apply linkText_inj ?_ hlink
    simp [hfields₁, hfields₂]
  rw [hfields₁, hfields₂] at hfields
  simp only [List.cons.injEq, Option.some.injEq, and_true] at hfields
  have ⟨hversion, hscope, _, hsequence, _, hprevious, hdigest⟩ := hfields
  have hentry := get_eq_of_entryText_eq (hinj hdigest)
  have hsequence : (e₁.get (py "scope_sequence")).toStr? R
      = (e₂.get (py "scope_sequence")).toStr? R := by
    rw [Json.toStr?_eq_some (Json.ne_null_of_pyEq_int h₁.sequence),
      Json.toStr?_eq_some (Json.ne_null_of_pyEq_int h₂.sequence), hsequence]
  intro name hname
  unfold coveredFields at hname
  rw [List.mem_append] at hname
  cases hname with
  | inl hname =>
    have : ∀ name ∈ entryHashFields, ¬ (name = py "scope_type" ∨ name = py "chain_version") := by
      decide
    simp only [hashedRendering, this name hname, if_false]
    exact hentry name hname
  | inr hname =>
    simp only [List.mem_cons, List.not_mem_nil, or_false] at hname
    unfold hashedRendering
    rcases hname with rfl | rfl | rfl | rfl | rfl | rfl
    . rw [if_pos (by decide), if_pos (by decide), hscope]
    . rw [if_neg (by decide), if_neg (by decide), hsequence]
    . rw [if_pos (by decide), if_pos (by decide), hversion]
    . rw [if_neg (by decide), if_neg (by decide), hprevious]
    . rw [if_neg (by decide), if_neg (by decide), h₁.entryHash, h₂.entryHash, hdigest]
    . rw [if_neg (by decide), if_neg (by decide), h₁.chainHash, h₂.chainHash, heq]

end SealedEntry

/--
Sealed entries are a hash chain in the hashes they state.
-/
theorem SealedFrom.hashLinked {es : List Dict} (h : SealedFrom R H (1, .null) es) :
    HashLinked (statedHash R) (statedPrevious R) es := by
  unfold HashLinked
  apply Chained.simulate (fun before stated => before.snd.toStr? R = stated
    ∧ (before.snd = .null ∨ ∃ s, before.snd = .str s)) h
  . exact ⟨rfl, .inl rfl⟩
  . intro e _ before stated ⟨hstated, hshape⟩ ⟨fields, he⟩
    constructor
    . have hprevious := he.previous
      rw [← hstated]
      cases hshape with
      | inl hnull =>
        rw [hnull, Json.pyEq_null_iff] at hprevious
        simp [statedPrevious, hprevious, hnull]
      | inr hstr =>
        have ⟨s, hs⟩ := hstr
        rw [hs, Json.pyEq_str_iff] at hprevious
        simp [statedPrevious, hprevious, hs]
    . simp [advance, statedHash, he.chainHash]

theorem SealedFrom.exists_lastHash {es : List Dict} (h : SealedFrom R H (1, .null) es)
    (hne : es ≠ [])
    : ∃ s, (es.foldl advance (1, .null)).snd = .str s ∧ es.getLast?.map (statedHash R) = some s := by
  cases es using List.reverseRecOn with
  | nil => contradiction
  | append_singleton es e =>
    have ⟨_, fields, he⟩ := (Chained.append_singleton_iff _ _ _).mp h
    refine ⟨H.hexdigest (linkText fields), ?_, ?_⟩
    . simp [advance, he.chainHash]
    . simp [statedHash, he.chainHash]

/--
A file whose entries are not empty and pass all checks states its sealed entries, and the head is
the hash of the last one.
-/
theorem exists_sealed_of_verifyChain {data : Dict}
    (hne : (data.getD (py "entries") (.list [])).truthy = true)
    (h : verifyChain R H (data.getD (py "entries") (.list [])) (data.get (py "head")) = .ok [])
    : ∃ s, SealedFrom R H (1, .null) (chainEntries data)
        ∧ (chainEntries data).getLast?.map (statedHash R) = some s
        ∧ statedHead data = .str s := by
  obtain ⟨es, head, hiter, hhead, hsealed⟩ := (verifyChain_eq_nil_iff _ _).mp h
  have hlist := (iter_eq_map_dict_iff _ hne es).mp hiter
  have hes : chainEntries data = es := by
    unfold chainEntries
    rw [hlist, listedRows_list]
  have hnil : es ≠ [] := by
    intro hnil
    simp [hlist, hnil, Json.truthy] at hne
  obtain ⟨s, hlast, hs⟩ := hsealed.sealedEntries.exists_lastHash hnil
  have hheadHash := hsealed.headHash
  rw [hlast, Json.pyEq_str_iff] at hheadHash
  refine ⟨s, hes ▸ hsealed.sealedEntries, hes ▸ hs, ?_⟩
  simp [statedHead, hhead, hheadHash]

/--
Two files whose entries pass all checks and whose heads state the same hash have the same number of
entries, and all covered fields of the entries at every position are rendered the same way.
-/
theorem sameRendering_of_statedHead_eq (hinj : Function.Injective H.hexdigest) (D₁ D₂ : Dict)
    (hne₁ : (D₁.getD (py "entries") (.list [])).truthy = true)
    (hne₂ : (D₂.getD (py "entries") (.list [])).truthy = true)
    (h₁ : verifyChain R H (D₁.getD (py "entries") (.list [])) (D₁.get (py "head")) = .ok [])
    (h₂ : verifyChain R H (D₂.getD (py "entries") (.list [])) (D₂.get (py "head")) = .ok [])
    (hhead : statedHead D₁ = statedHead D₂)
    : List.Forall₂ (SameRendering (hashedRendering R)) (chainEntries D₁) (chainEntries D₂) := by
  have ⟨s₁, hsealed₁, hlast₁, hhead₁⟩ := exists_sealed_of_verifyChain hne₁ h₁
  have ⟨s₂, hsealed₂, hlast₂, hhead₂⟩ := exists_sealed_of_verifyChain hne₂ h₂
  have hs : s₁ = s₂ := by
    rw [hhead₁, hhead₂] at hhead
    injection hhead
  let view := fun e : Dict => coveredFields.map fun name => hashedRendering R name (e.get name)
  have hviews : (chainEntries D₁).map view = (chainEntries D₂).map view := by
    apply HashLinked.commit hsealed₁.hashLinked hsealed₂.hashLinked
    . intro e₁ hmem₁ e₂ hmem₂ heq
      have ⟨_, _, he₁⟩ := Chained.exists_of_mem hsealed₁ hmem₁
      have ⟨_, _, he₂⟩ := Chained.exists_of_mem hsealed₂ hmem₂
      have hsame := he₁.sameRendering_of_statedHash_eq hinj he₂ heq
      exact ⟨List.map_congr_left hsame, hsame (py "previous_chain_hash") (by decide)⟩
    . rw [hlast₁, hlast₂, hs]
  rw [← List.forall₂_eq_eq_eq, List.forall₂_map_left_iff, List.forall₂_map_right_iff] at hviews
  apply hviews.imp
  intro e₁ e₂ hview
  exact List.map_inj_left.mp hview

section NullVersion

/--
A row whose chain version is the given value.
-/
def versionRow (chainVersion : Json) : Dict :=
  [
    (py "chain_version", chainVersion),
    (py "id", .str (py "a")),
    (py "scope_type", .str (py "matter"))
  ]

theorem entryText_versionRow (v w : Json) :
    entryText R (versionRow v) = entryText R (versionRow w) := by
  unfold entryText versionRow
  have hne : ∀ name ∈ entryHashFields, name ≠ py "chain_version" := by
    decide
  have : ∀ items : Dict, entryHashFields.map (fun name =>
        (Dict.get ((py "chain_version", v) :: items) name).toStr? R)
      = entryHashFields.map (fun name =>
        (Dict.get ((py "chain_version", w) :: items) name).toStr? R) := by
    intro items
    apply List.map_congr_left
    intro name hname
    rw [Dict.get_cons_of_ne (hne name hname), Dict.get_cons_of_ne (hne name hname)]
  rw [this]

theorem sealable_versionRow {v : Json} (hv : Utf8Encodable (v.toStr R)) :
    Sealable R (versionRow v) where
  required := by
    unfold versionRow
    simp only [List.forall_mem_cons]
    refine ⟨rfl, rfl, rfl, by simp⟩
  encodable := by
    unfold versionRow
    simp only [List.forall_mem_cons]
    exact ⟨hv, utf8Encodable_py _, utf8Encodable_py _, by simp⟩

theorem statedHead_sealFile_versionRow {v : Json} (hv : Utf8Encodable (v.toStr R))
    : statedHead (sealFile R H [versionRow v])
        = .str (H.hexdigest (linkText (sealFields R H (1, .null) (versionRow v)))) := by
  unfold statedHead
  rw [get_sealFile_head]
  have := @Sealable.get_sealEntry_chainHash R H (1, .null) _ (sealable_versionRow hv)
  unfold sealHead
  simp only [Dict.get_cons_self]
  exact this

theorem verifyChain_versionRow {v : Json} (hv : Utf8Encodable (v.toStr R))
    : verifyChain R H ((sealFile R H [versionRow v]).getD (py "entries") (.list []))
        ((sealFile R H [versionRow v]).get (py "head")) = .ok [] := by
  apply verifyChain_sealFile
  simpa using sealable_versionRow hv

theorem truthy_versionRow (v : Json)
    : ((sealFile R H [versionRow v]).getD (py "entries") (.list [])).truthy = true := by
  rw [get_sealFile_entries]
  rfl

theorem utf8Encodable_toStr_null : Utf8Encodable (Json.null.toStr R) :=
  utf8Encodable_py "None"

theorem utf8Encodable_toStr_none : Utf8Encodable ((Json.str (py "None")).toStr R) :=
  utf8Encodable_py "None"

/--
A missing version and the version `None` are hashed alike, so the head does not tell them apart.
-/
theorem statedHead_versionRow_null_eq_none
    : statedHead (sealFile .quoted H [versionRow .null])
        = statedHead (sealFile .quoted H [versionRow (.str (py "None"))]) := by
  have hversion : Json.null.toStr PyRepr.quoted = (Json.str (py "None")).toStr PyRepr.quoted := rfl
  rw [statedHead_sealFile_versionRow utf8Encodable_toStr_null,
    statedHead_sealFile_versionRow utf8Encodable_toStr_none]
  unfold sealFields
  rw [entryText_versionRow .null (.str (py "None"))]
  unfold versionRow
  rw [Dict.get_cons_self, Dict.get_cons_self, hversion]
  rfl

/--
The stated head does not determine the rendering that keeps `None` apart from every string.
-/
theorem not_nullDistinct_of_statedHead_eq
    : ¬ ∀ (R : PyRepr) (H : Sha256), Function.Injective H.hexdigest → ∀ D₁ D₂ : Dict,
        (D₁.getD (py "entries") (.list [])).truthy = true →
        (D₂.getD (py "entries") (.list [])).truthy = true →
        verifyChain R H (D₁.getD (py "entries") (.list [])) (D₁.get (py "head")) = .ok [] →
        verifyChain R H (D₂.getD (py "entries") (.list [])) (D₂.get (py "head")) = .ok [] →
        statedHead D₁ = statedHead D₂ →
        List.Forall₂ (SameRendering (nullDistinct R)) (chainEntries D₁) (chainEntries D₂) := by
  intro h
  have hsame := h .quoted .plain Sha256.plain_injective
    (sealFile .quoted .plain [versionRow .null])
    (sealFile .quoted .plain [versionRow (.str (py "None"))])
    (truthy_versionRow _) (truthy_versionRow _)
    (verifyChain_versionRow utf8Encodable_toStr_null)
    (verifyChain_versionRow utf8Encodable_toStr_none)
    statedHead_versionRow_null_eq_none
  rw [chainEntries_sealFile, chainEntries_sealFile] at hsame
  cases hsame with
  | cons hentry _ =>
    have hversion := hentry (py "chain_version") (by decide)
    unfold nullDistinct at hversion
    rw [get_sealEntry_of_notMem (by decide), get_sealEntry_of_notMem (by decide)] at hversion
    unfold versionRow at hversion
    rw [Dict.get_cons_self, Dict.get_cons_self] at hversion
    contradiction

theorem sameRendering_of_statedHead_eq_versionRow
    : List.Forall₂ (SameRendering (hashedRendering .quoted))
        (chainEntries (sealFile .quoted .plain [versionRow .null]))
        (chainEntries (sealFile .quoted .plain [versionRow (.str (py "None"))])) :=
  sameRendering_of_statedHead_eq Sha256.plain_injective _ _
    (truthy_versionRow _) (truthy_versionRow _)
    (verifyChain_versionRow utf8Encodable_toStr_null)
    (verifyChain_versionRow utf8Encodable_toStr_none)
    statedHead_versionRow_null_eq_none

end NullVersion

end ExportChainVerifier
