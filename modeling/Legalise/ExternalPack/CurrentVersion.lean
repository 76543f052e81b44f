import Legalise.ExternalPack.Normalise
import Legalise.Lib.Related
import Legalise.Lib.Sweep

/-!
This module contains the choice of the current version of an imported document, and what is taken from that version.
-/

namespace ExternalPack

open Sweep

section Numbers

def NormalisedVersion.number (v : NormalisedVersion) : Option Int :=
  v.versionNumber.map VersionNumber.value

def rowNumber (row : Dict) : Option Int :=
  match row.get (py "version_number") with
  | .int n => some n
  | _ => none

/--
The version numbers of the rows are integers, or they are missing.
-/
def Numbered (rows : List Dict) : Prop :=
  ∀ row ∈ rows, row.get (py "version_number") = .null ∨ ∃ n, row.get (py "version_number") = .int n

/--
The rows by version number, where a missing one counts as 0.
-/
def inOrder (rows : List Dict) : List Dict :=
  sortBy (fun row => (rowNumber row).getD 0) rows

theorem number_normaliseVersion {rows : List Dict} (h : Numbered rows) {row : Dict} (hrow : row ∈ rows)
    : (normaliseVersion row).number = rowNumber row := by
  unfold normaliseVersion NormalisedVersion.number rowNumber i
  rcases h row hrow with hnull | ⟨n, hint⟩
  . simp [hnull]
  . simp [hint, VersionNumber.value]

theorem sortKey_eq {rows : List Dict} (h : Numbered rows) {row : Dict} (hrow : row ∈ rows)
    : sortKey row = .int ((rowNumber row).getD 0) := by
  unfold sortKey rowNumber
  rcases h row hrow with hnull | ⟨n, hint⟩
  . simp [hnull, Json.truthy]
  . by_cases hn : n = 0
    . simp [hint, Json.truthy, hn]
    . simp [hint, Json.truthy, hn]

/--
With such version numbers the rows can be sorted.
-/
theorem sorted_eq {rows : List Dict} (h : Numbered rows) : Json.sorted sortKey rows = some (inOrder rows) := by
  have hcomparable : Json.Comparable (rows.map sortKey) := by
    unfold Json.Comparable
    rw [List.pairwise_map]
    refine List.Pairwise.imp_mem.mpr (List.pairwise_of_forall fun a b ha hb => ?_)
    rw [sortKey_eq h ha, sortKey_eq h hb, Json.lt?_int, Json.lt?_int]
    exact ⟨rfl, rfl⟩
  unfold Json.sorted inOrder sortBy
  rw [if_pos hcomparable]
  refine congrArg some (Json.insertionSort_congr fun x hx y hy => ?_)
  rw [sortKey_eq h hx, sortKey_eq h hy, Json.lt?_int]
  simp

end Numbers

section Choice

/--
The version has a number, and none has a greater one, or no version has a number.
-/
def Greatest (versions : List NormalisedVersion) (v : NormalisedVersion) : Prop :=
  ∀ w ∈ versions, ∀ n, w.number = some n → ∃ m, v.number = some m ∧ n ≤ m

/--
The version with the wanted id, if there is one, and otherwise one with the greatest number.
-/
def IsCurrent (wanted : Option PyStr) (versions : List NormalisedVersion) : Option NormalisedVersion → Prop
  | none => versions = []
  | some v => v ∈ versions
      ∧ (wanted ≠ none ∧ v.externalId = wanted
        ∨ (∀ w ∈ versions, wanted ≠ none → w.externalId ≠ wanted) ∧ Greatest versions v)

/--
The current version of the document is the one that the source says, and its name, its source hash and its bytes are
those of that version.
-/
structure FromCurrent (sha256Hex : Bytes → PyStr) (files : List (PyStr × Bytes)) (raw : Dict)
    (versions : List NormalisedVersion) (doc : NormalisedDocument) : Prop where
  isCurrent : IsCurrent (s raw (py "current_version_id")) versions doc.currentVersion
  filename : ∀ v name, doc.currentVersion = some v → v.filename = some name → doc.filename = name
  sourceSha256 : doc.sourceSha256 = doc.currentVersion.bind NormalisedVersion.contentSha256
  ingestSha256 : doc.ingestSha256 = (matchBytes files doc.filename doc.currentVersion).map sha256Hex
  sizeBytes : doc.sizeBytes = (matchBytes files doc.filename doc.currentVersion).map List.length

/--
What the choice comes down to. Without a wanted id, the first version without an id is taken, and has to have the
greatest number. Otherwise the last version is taken, and has to have a number if any has one.
-/
structure Decided (wanted : Option PyStr) (rows : List Dict) : Prop where
  lookup : wanted = none → ∀ row, (inOrder rows).find? (fun row => s row (py "id") = none) = some row →
    ∀ other ∈ rows, ∀ n, rowNumber other = some n → ∃ m, rowNumber row = some m ∧ n ≤ m
  last : (wanted = none → ∀ row ∈ rows, s row (py "id") ≠ none) → ∀ row, (inOrder rows).getLast? = some row →
    rowNumber row = none → ∀ other ∈ rows, rowNumber other = none

/--
The wanted id is a string that is not empty and names a version.
-/
def Named (wanted : Option PyStr) (rows : List Dict) : Prop :=
  wanted ≠ none ∧ ∃ row ∈ rows, s row (py "id") = wanted

variable {rows : List Dict}

theorem mem_inOrder {row : Dict} : row ∈ inOrder rows ↔ row ∈ rows :=
  mem_sortBy

theorem greatest_iff (h : Numbered rows) {row : Dict} (hrow : row ∈ rows)
    : Greatest (rows.map normaliseVersion) (normaliseVersion row)
        ↔
      ∀ other ∈ rows, ∀ n, rowNumber other = some n → ∃ m, rowNumber row = some m ∧ n ≤ m := by
  unfold Greatest
  rw [List.forall_mem_map, number_normaliseVersion h hrow]
  exact forall₂_congr fun other hother => by rw [number_normaliseVersion h hother]

/--
The last version has the greatest number, unless it has none.
-/
theorem last_greatest_iff {row : Dict} (hlast : (inOrder rows).getLast? = some row)
    : (∀ other ∈ rows, ∀ n, rowNumber other = some n → ∃ m, rowNumber row = some m ∧ n ≤ m)
        ↔
      (rowNumber row = none → ∀ other ∈ rows, rowNumber other = none) := by
  have hsorted : (inOrder rows).Pairwise fun a b => (rowNumber a).getD 0 ≤ (rowNumber b).getD 0 := pairwise_sortBy rows
  have hle : ∀ other ∈ rows, (rowNumber other).getD 0 ≤ (rowNumber row).getD 0 := by
    intro other hother
    have ⟨before, hsplit⟩ := List.getLast?_eq_some_iff.mp hlast
    have hmem : other ∈ before ++ [row] := hsplit ▸ mem_inOrder.mpr hother
    rw [hsplit, List.pairwise_append] at hsorted
    rcases List.mem_append.mp hmem with hbefore | hself
    . exact hsorted.right.right other hbefore row (List.mem_singleton_self _)
    . rw [List.mem_singleton.mp hself]
  constructor
  . intro h hnone other hother
    cases hnumber : rowNumber other with
    | none => rfl
    | some n =>
      have ⟨m, hm, _⟩ := h other hother n hnumber
      rw [hnone] at hm
      cases hm
  . intro h other hother n hnumber
    cases hrow : rowNumber row with
    | none =>
      rw [h hrow other hother] at hnumber
      cases hnumber
    | some m =>
      have := hle other hother
      rw [hnumber, hrow] at this
      exact ⟨m, rfl, this⟩

/--
The current version among sorted versions is that of the row that is found, or of the last one.
-/
theorem currentVersion_map (wanted : Option PyStr) (order : List Dict)
    : currentVersion wanted (order.map normaliseVersion)
        = ((order.find? fun row => s row (py "id") = wanted).or order.getLast?).map normaliseVersion := by
  unfold currentVersion
  rw [List.find?_map, List.getLast?_map, Option.map_or]
  rfl

theorem isCurrent_iff (h : Numbered rows) (wanted : Option PyStr)
    : IsCurrent wanted (rows.map normaliseVersion) (currentVersion wanted ((inOrder rows).map normaliseVersion))
        ↔
      Named wanted rows ∨ Decided wanted rows := by
  rw [currentVersion_map]
  cases hfind : (inOrder rows).find? fun row => s row (py "id") = wanted with
  | some row =>
    have hid : s row (py "id") = wanted := by simpa using List.find?_some hfind
    have hrow := mem_inOrder.mp (List.mem_of_find?_eq_some hfind)
    have hmem : normaliseVersion row ∈ rows.map normaliseVersion := List.mem_map_of_mem hrow
    simp only [Option.some_or, Option.map_some]
    cases wanted with
    | some id =>
      have hleft : IsCurrent (some id) (rows.map normaliseVersion) (some (normaliseVersion row)) :=
        ⟨hmem, .inl ⟨by simp, hid⟩⟩
      exact iff_of_true hleft (.inl ⟨by simp, row, hrow, hid⟩)
    | none =>
      unfold IsCurrent
      dsimp only
      rw [greatest_iff h hrow]
      constructor
      . rintro ⟨_, ⟨hne, _⟩ | ⟨_, hgreatest⟩⟩
        . exact (hne rfl).elim
        . refine .inr ⟨fun _ found hfound => ?_, fun hids => (hids rfl row hrow hid).elim⟩
          rw [hfind, Option.some.injEq] at hfound
          rw [← hfound]
          exact hgreatest
      . rintro (⟨hne, _⟩ | hdecided)
        . exact (hne rfl).elim
        . exact ⟨hmem, .inr ⟨fun _ _ hne => (hne rfl).elim, hdecided.lookup rfl row hfind⟩⟩
  | none =>
    have habsent : ∀ row ∈ rows, s row (py "id") ≠ wanted := by
      intro row hrow
      simpa using List.find?_eq_none.mp hfind row (mem_inOrder.mpr hrow)
    have hnamed : ¬ Named wanted rows := fun ⟨_, row, hrow, hid⟩ => habsent row hrow hid
    have hlookup : wanted = none → ∀ row, (inOrder rows).find? (fun row => s row (py "id") = none) ≠ some row := by
      intro hwanted row hfound
      rw [hwanted] at hfind
      rw [hfind] at hfound
      cases hfound
    simp only [Option.none_or, hnamed, false_or]
    cases hlast : (inOrder rows).getLast? with
    | none =>
      have hnil : rows = [] := by
        rw [List.getLast?_eq_none_iff] at hlast
        exact List.eq_nil_iff_forall_not_mem.mpr fun row hrow => by simpa [hlast] using mem_inOrder.mpr hrow
      have hleft : IsCurrent wanted (rows.map normaliseVersion) none := by
        rw [hnil]
        rfl
      refine iff_of_true hleft ⟨fun hwanted row hfound => (hlookup hwanted row hfound).elim, fun _ row hrow => ?_⟩
      rw [hlast] at hrow
      cases hrow
    | some row =>
      have hrow : row ∈ rows := mem_inOrder.mp (List.mem_of_getLast? hlast)
      have hothers : ∀ w ∈ rows.map normaliseVersion, wanted ≠ none → w.externalId ≠ wanted := by
        rw [List.forall_mem_map]
        exact fun other hother _ => habsent other hother
      simp only [Option.map_some]
      unfold IsCurrent
      dsimp only
      rw [greatest_iff h hrow, last_greatest_iff hlast]
      constructor
      . rintro ⟨_, ⟨_, hid⟩ | ⟨_, hgreatest⟩⟩
        . exact (habsent row hrow hid).elim
        . refine ⟨fun hwanted found hfound => (hlookup hwanted found hfound).elim, fun _ found hfound => ?_⟩
          rw [hlast, Option.some.injEq] at hfound
          rw [← hfound]
          exact hgreatest
      . intro hdecided
        refine ⟨List.mem_map_of_mem hrow, .inr ⟨hothers, hdecided.last (fun hwanted other hother => ?_) row hlast⟩⟩
        rw [← hwanted]
        exact habsent other hother

end Choice

section Packs

variable {sha256Hex : Bytes → PyStr} {files : List (PyStr × Bytes)}

theorem fromCurrent_document_iff {fields raw : Dict} {doc : NormalisedDocument}
    (h : documentOf sha256Hex files fields raw = .ok doc) (hnumbers : Numbered (versionRows fields raw))
    : FromCurrent sha256Hex files raw ((versionRows fields raw).map normaliseVersion) doc
        ↔
      Named (s raw (py "current_version_id")) (versionRows fields raw)
        ∨ Decided (s raw (py "current_version_id")) (versionRows fields raw) := by
  have ⟨rows, hrows, hdoc⟩ := documentOf_eq_ok h
  rw [sorted_eq hnumbers, Option.some.injEq] at hrows
  rw [← isCurrent_iff hnumbers, hrows]
  constructor
  . intro hcurrent
    have := hcurrent.isCurrent
    rwa [hdoc] at this
  . intro hcurrent
    rw [hdoc]
    refine ⟨hcurrent, ?_, rfl, rfl, rfl⟩
    intro v name hv hname
    show documentFilename raw _ = name
    unfold documentFilename
    rw [show currentVersion (s raw (py "current_version_id")) (rows.map normaliseVersion) = some v from hv]
    simp [hname]

/--
The documents of a pack have the current version that the source says, exactly if the id of the source names a version
or the numbers decide.
-/
theorem fromCurrent_iff {fields : Dict} {pack : NormalisedPack}
    (h : normalise sha256Hex (.dict fields) files = .ok pack)
    (hnumbers : ∀ raw ∈ documentsOf fields, Numbered (versionRows fields raw))
    : List.Forall₂
          (fun raw doc => FromCurrent sha256Hex files raw ((versionRows fields raw).map normaliseVersion) doc)
          (documentsOf fields) pack.documents
        ↔
      ∀ raw ∈ documentsOf fields,
        Named (s raw (py "current_version_id")) (versionRows fields raw)
          ∨ Decided (s raw (py "current_version_id")) (versionRows fields raw) := by
  have hdocuments := documents_of_normalise h
  exact Related.forall₂_iff_forall hdocuments fun raw hraw doc hdoc => fromCurrent_document_iff hdoc (hnumbers raw hraw)

/--
A manifest whose document names its first version, by a hash that no bytes confirm.
-/
def namedExport : Dict :=
  [
    (py "manifest_version", .int 1),
    (py "documents", .list [
      .dict [
        (py "id", .str (py "d1")),
        (py "current_version_id", .str (py "v1")),
        (py "versions", .list [
          .dict [(py "id", .str (py "v2")), (py "version_number", .int 2)],
          .dict [(py "id", .str (py "v1")), (py "version_number", .int 1)]
        ])
      ]
    ])
  ]

theorem numbered_of_all {rows : List Dict} (h : rows.all (fun row =>
    match row.get (py "version_number") with
    | .null => true
    | .int _ => true
    | _ => false) = true) : Numbered rows := by
  intro row hrow
  have := List.all_eq_true.mp h row hrow
  split at this
  . next hnull => exact .inl hnull
  . next n hint => exact .inr ⟨n, hint⟩
  . cases this

theorem fromCurrent_named
    : ∃ pack, normalise (fun _ => []) (.dict namedExport) [] = .ok pack
      ∧ List.Forall₂
        (fun raw doc => FromCurrent (fun _ => []) [] raw ((versionRows namedExport raw).map normaliseVersion) doc)
        (documentsOf namedExport) pack.documents := by
  have hnumbers : ∀ raw ∈ documentsOf namedExport, Numbered (versionRows namedExport raw) := by
    intro raw hraw
    cases List.mem_singleton.mp hraw
    exact numbered_of_all (by decide)
  refine ⟨_, rfl, (fromCurrent_iff rfl hnumbers).mpr ?_⟩
  intro raw hraw
  cases List.mem_singleton.mp hraw
  exact .inl ⟨by decide, _, List.mem_cons_of_mem _ List.mem_cons_self, by decide⟩

/--
A manifest whose first version has no id, and whose document names no version.
-/
def idlessExport : Dict :=
  [
    (py "manifest_version", .int 1),
    (py "documents", .list [
      .dict [
        (py "id", .str (py "d1")),
        (py "versions", .list [
          .dict [(py "version_number", .int 1)],
          .dict [(py "id", .str (py "v2")), (py "version_number", .int 2)]
        ])
      ]
    ])
  ]

theorem not_fromCurrent
    : ¬ ∀ (sha256Hex : Bytes → PyStr) (files : List (PyStr × Bytes)) (fields : Dict) (pack : NormalisedPack),
      normalise sha256Hex (.dict fields) files = .ok pack →
        (∀ raw ∈ documentsOf fields, Numbered (versionRows fields raw)) →
          List.Forall₂
            (fun raw doc => FromCurrent sha256Hex files raw ((versionRows fields raw).map normaliseVersion) doc)
            (documentsOf fields) pack.documents := by
  intro h
  have hnumbers : ∀ raw ∈ documentsOf idlessExport, Numbered (versionRows idlessExport raw) := by
    intro raw hraw
    cases List.mem_singleton.mp hraw
    exact numbered_of_all (by decide)
  have hcurrent := (List.forall₂_cons.mp (h (fun _ => []) [] idlessExport _ rfl hnumbers)).left.isCurrent
  have ⟨_, hchoice⟩ := hcurrent
  rcases hchoice with ⟨hwanted, _⟩ | ⟨_, hgreatest⟩
  . exact hwanted rfl
  . -- The version without an id has the number 1, and the other one has the number 2.
    have ⟨m, hm, hle⟩ := hgreatest _ (List.mem_cons_of_mem _ List.mem_cons_self) 2 rfl
    cases hm
    exact absurd hle (by decide)

end Packs

end ExternalPack
