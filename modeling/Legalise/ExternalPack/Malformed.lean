import Legalise.ExternalPack.Normalise

/-!
This module contains what is raised for an export that does not have the expected shape.
-/

namespace ExternalPack

variable (sha256Hex : Bytes → PyStr)

/--
The export gives a pack with one document for each object in its list, in order, or it is refused with one of the errors
of the ingest.
-/
def RefusedOrPacked (adapterName : PyStr) (exported : Json) (files : List (PyStr × Bytes)) : Prop :=
  match normaliseExport sha256Hex adapterName exported files with
  | .ok pack =>
    ∃ fields docsRaw, exported = .dict fields ∧ Dict.get fields (py "documents") = .list docsRaw
      ∧ List.Forall₂ (fun raw doc => documentOf sha256Hex files fields raw = .ok doc) (dicts docsRaw) pack.documents
  | .error e => e = .unknownAdapter ∨ e = .malformedExport

/--
The lists nested in a document of a manifest are lists, and any two version numbers of a document can be compared.
-/
def WellTyped (adapterName : PyStr) (exported : Json) : Prop :=
  adapterName = mike → ∀ fields docsRaw, exported = .dict fields → Dict.get fields (py "documents") = .list docsRaw →
    ∀ raw ∈ dicts docsRaw, Nested fields raw ∧ Json.Comparable ((versionRows fields raw).map sortKey)

/--
A malformed export is refused, exactly if its nested fields have types that can be iterated over and sorted.
-/
theorem refusedOrPacked_iff (adapterName : PyStr) (exported : Json) (files : List (PyStr × Bytes))
    : RefusedOrPacked sha256Hex adapterName exported files ↔ WellTyped adapterName exported := by
  unfold RefusedOrPacked WellTyped normaliseExport
  by_cases hadapter : adapterName = mike
  . rw [if_pos hadapter]
    simp only [hadapter, true_implies]
    constructor
    . intro h fields docsRaw hexported hdocs raw hraw
      subst hexported
      have hpacked : ∃ pack, normalise sha256Hex (.dict fields) files = .ok pack := by
        cases hresult : normalise sha256Hex (.dict fields) files with
        | ok pack => exact ⟨pack, rfl⟩
        | error e =>
          rw [hresult, normalise_of_list hdocs hresult] at h
          simp at h
      rw [← @documentOf_isOk_iff sha256Hex files]
      exact (normalise_isOk_iff hdocs).mp hpacked raw hraw
    . intro h
      cases hresult : normalise sha256Hex exported files with
      | ok pack => exact normalise_eq_ok hresult
      | error e =>
        rcases normalise_eq_error hresult with herror | ⟨_, fields, docsRaw, hexported, hdocs⟩
        . exact .inr herror
        . subst hexported
          have ⟨pack, hpack⟩ := (@normalise_isOk_iff sha256Hex files fields docsRaw hdocs).mpr fun raw hraw =>
            (documentOf_isOk_iff fields raw).mpr (h fields docsRaw rfl hdocs raw hraw)
          rw [hpack] at hresult
          cases hresult
  . rw [if_neg hadapter]
    simp [hadapter]

/--
An export in which two version numbers of a document are a number and a text.
-/
def mixedExport : Json :=
  .dict [
    (py "manifest_version", .int 1),
    (py "documents", .list [
      .dict [
        (py "id", .str (py "d1")),
        (py "versions", .list [.dict [(py "version_number", .int 1)], .dict [(py "version_number", .str (py "2"))]])
      ]
    ])
  ]

theorem not_refusedOrPacked
    : ¬ ∀ (sha256Hex : Bytes → PyStr) (adapterName : PyStr) (exported : Json) (files : List (PyStr × Bytes)),
      RefusedOrPacked sha256Hex adapterName exported files := by
  intro h
  have hraised : normaliseExport (fun _ => []) mike mixedExport [] = .error .typeError := rfl
  have hrefused := h (fun _ => []) mike mixedExport []
  unfold RefusedOrPacked at hrefused
  rw [hraised] at hrefused
  simp at hrefused

end ExternalPack
