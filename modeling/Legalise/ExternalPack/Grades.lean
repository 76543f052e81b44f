import Legalise.ExternalPack.Normalise
import Legalise.Lib.Related

/-!
This module contains the grades of the hashes of an imported pack, and which entry of the ZIP a document is given.
-/

namespace ExternalPack

section Honest

variable (sha256Hex : Bytes → PyStr) (files : List (PyStr × Bytes))

/--
The hashes of a pack are graded by what was checked, and no bytes are those of two documents.
-/
structure Honest (pack : NormalisedPack) : Prop where
  verified : ∀ doc ∈ pack.documents,
    doc.hashOrigin = some .verifiedAtSource
        ↔
      ∃ source data, doc.sourceSha256 = some source
        ∧ matchBytes files doc.filename doc.currentVersion = some data ∧ sha256Hex data = source
  unhashed : ∀ doc ∈ pack.documents, doc.sha256 = none ↔ doc.hashOrigin = none
  partition : pack.counts.verifiedAtSource + pack.counts.attestedAtIngest + pack.counts.claimedBySource
      + pack.counts.unhashed = pack.counts.documents
  mismatch : ∀ doc ∈ pack.documents, doc.hashMismatch = true → doc.hashOrigin = some .attestedAtIngest
  received : ∀ doc ∈ pack.documents,
    doc.ingestSha256 = (matchBytes files doc.filename doc.currentVersion).map sha256Hex
      ∧ doc.sizeBytes = (matchBytes files doc.filename doc.currentVersion).map List.length
  attributed : (pack.documents.filterMap fun doc => matchedEntry files doc.filename doc.currentVersion).Nodup

/--
The version that a document of the export is read from, and its file name.
-/
def currentOf (fields raw : Dict) : Option NormalisedVersion :=
  currentVersion (s raw (py "current_version_id"))
    (((Json.sorted sortKey (versionRows fields raw)).getD []).map normaliseVersion)

def filenameOf (fields raw : Dict) : PyStr :=
  documentFilename raw (currentOf fields raw)

/--
An entry of the ZIP goes by the first name of a document, or by its file name if the ZIP has no entry of the first name.
-/
def GoesBy (fields raw : Dict) (entry : PyStr) : Prop :=
  (List.lookup entry files).isSome = true
    ∧ ((candidates (filenameOf fields raw) (currentOf fields raw)).head? = some entry
      ∨ entry = filenameOf fields raw
        ∧ ∀ first ∈ (candidates (filenameOf fields raw) (currentOf fields raw)).head?,
          (List.lookup first files).isSome = false)

/--
No entry goes by names of two documents.
-/
def NamesApart (fields : Dict) : Prop :=
  (documentsOf fields).Pairwise fun raw other => ∀ entry, GoesBy files fields raw entry → ¬ GoesBy files fields other entry

end Honest

section Grades

variable {sha256Hex : Bytes → PyStr} {files : List (PyStr × Bytes)}

theorem candidates_eq (filename : PyStr) (current : Option NormalisedVersion)
    : candidates filename current = [filename]
        ∨ ∃ edited, candidates filename current = [edited, filename] := by
  unfold candidates
  split
  . exact .inl rfl
  . split
    . exact .inl rfl
    . split
      . exact .inr ⟨_, rfl⟩
      . exact .inl rfl

theorem matchedEntry_eq_some_iff (fields raw : Dict) (entry : PyStr)
    : matchedEntry files (filenameOf fields raw) (currentOf fields raw) = some entry ↔ GoesBy files fields raw entry := by
  unfold matchedEntry GoesBy
  rcases candidates_eq (filenameOf fields raw) (currentOf fields raw) with heq | ⟨edited, heq⟩
  . rw [heq]
    by_cases hentry : (List.lookup (filenameOf fields raw) files).isSome = true
    . simp only [List.find?_cons, hentry, List.head?_cons, Option.some.injEq]
      constructor
      . rintro rfl
        exact ⟨hentry, .inl rfl⟩
      . rintro ⟨_, rfl | ⟨rfl, _⟩⟩ <;> rfl
    . simp only [List.find?_cons, hentry, List.find?_nil, List.head?_cons, Option.some.injEq]
      constructor
      . intro h
        cases h
      . rintro ⟨hsome, rfl | ⟨rfl, _⟩⟩ <;> exact (hentry hsome).elim
  . rw [heq]
    by_cases hedited : (List.lookup edited files).isSome = true
    . simp only [List.find?_cons, hedited, List.head?_cons, Option.some.injEq, Option.mem_def, forall_eq']
      constructor
      . rintro rfl
        exact ⟨hedited, .inl rfl⟩
      . rintro ⟨_, rfl | ⟨_, hnone⟩⟩
        . rfl
        . cases hnone
    . by_cases hentry : (List.lookup (filenameOf fields raw) files).isSome = true
      . simp only [List.find?_cons, hedited, hentry, List.head?_cons, Option.some.injEq, Option.mem_def, forall_eq']
        constructor
        . rintro rfl
          exact ⟨hentry, .inr ⟨rfl, trivial⟩⟩
        . rintro ⟨hsome, rfl | ⟨rfl, _⟩⟩
          . exact (hedited hsome).elim
          . rfl
      . simp only [List.find?_cons, hedited, hentry, List.find?_nil, List.head?_cons, Option.some.injEq]
        constructor
        . intro h
          cases h
        . rintro ⟨hsome, rfl | ⟨rfl, _⟩⟩
          . exact (hedited hsome).elim
          . exact (hentry hsome).elim

theorem grade_verified_iff (source ingest : Option PyStr)
    : (grade source ingest).snd.fst = some .verifiedAtSource ↔ ∃ hash, source = some hash ∧ ingest = some hash := by
  unfold grade
  cases source with
  | none => cases ingest <;> simp
  | some source =>
    cases ingest with
    | none => simp
    | some ingest =>
      dsimp only
      split <;> simp_all [eq_comm]

theorem grade_unhashed_iff (source ingest : Option PyStr)
    : (grade source ingest).fst = none ↔ (grade source ingest).snd.fst = none := by
  unfold grade
  cases source <;> cases ingest <;> dsimp only <;> try split
  all_goals simp

theorem grade_mismatch {source ingest : Option PyStr} (h : (grade source ingest).snd.snd = true)
    : (grade source ingest).snd.fst = some .attestedAtIngest := by
  revert h
  unfold grade
  cases source <;> cases ingest <;> dsimp only <;> try split
  all_goals simp

/--
A document has one of the three origins, or it is unhashed.
-/
theorem partition_of_unhashed {documents : List NormalisedDocument}
    (h : ∀ doc ∈ documents, doc.sha256 = none ↔ doc.hashOrigin = none)
    : documents.countP (fun d => d.hashOrigin = some .verifiedAtSource)
        + documents.countP (fun d => d.hashOrigin = some .attestedAtIngest)
        + documents.countP (fun d => d.hashOrigin = some .claimedBySource)
        + documents.countP (fun d => d.sha256 = none) = documents.length := by
  induction documents with
  | nil => rfl
  | cons doc documents ih =>
    have ih := ih fun d hd => h d (List.mem_cons_of_mem _ hd)
    have hdoc := h doc List.mem_cons_self
    simp only [List.countP_cons, List.length_cons, hdoc, ← ih]
    cases doc.hashOrigin with
    | none =>
      simp
      omega
    | some origin =>
      cases origin <;> simp <;> omega

/--
What a document of the pack is, in terms of the export.
-/
structure ReadFrom (sha256Hex : Bytes → PyStr) (files : List (PyStr × Bytes)) (fields raw : Dict)
    (doc : NormalisedDocument) : Prop where
  currentVersion : doc.currentVersion = currentOf fields raw
  filename : doc.filename = filenameOf fields raw
  ingestSha256 : doc.ingestSha256 = (matchBytes files doc.filename doc.currentVersion).map sha256Hex
  sizeBytes : doc.sizeBytes = (matchBytes files doc.filename doc.currentVersion).map List.length
  graded : (doc.sha256, doc.hashOrigin, doc.hashMismatch) = grade doc.sourceSha256 doc.ingestSha256

theorem readFrom_of_documentOf {fields raw : Dict} {doc : NormalisedDocument}
    (h : documentOf sha256Hex files fields raw = .ok doc) : ReadFrom sha256Hex files fields raw doc := by
  have ⟨rows, hrows, hdoc⟩ := documentOf_eq_ok h
  have hcurrent : currentOf fields raw
      = currentVersion (s raw (py "current_version_id")) (rows.map normaliseVersion) := by
    unfold currentOf
    rw [hrows, Option.getD_some]
  have hfilename : filenameOf fields raw
      = documentFilename raw (currentVersion (s raw (py "current_version_id")) (rows.map normaliseVersion)) := by
    unfold filenameOf
    rw [hcurrent]
  rw [hdoc]
  exact ⟨hcurrent.symm, hfilename.symm, rfl, rfl, rfl⟩

/--
All about the hash of one document is as it was checked.
-/
theorem ReadFrom.verified_iff {fields raw : Dict} {doc : NormalisedDocument} (h : ReadFrom sha256Hex files fields raw doc)
    : doc.hashOrigin = some .verifiedAtSource
        ↔
      ∃ source data, doc.sourceSha256 = some source
        ∧ matchBytes files doc.filename doc.currentVersion = some data ∧ sha256Hex data = source := by
  have horigin : doc.hashOrigin = (grade doc.sourceSha256 doc.ingestSha256).snd.fst := by
    rw [← h.graded]
  rw [horigin, grade_verified_iff, h.ingestSha256]
  constructor
  . rintro ⟨hash, hsource, hingest⟩
    have ⟨data, hdata, heq⟩ := Option.map_eq_some_iff.mp hingest
    exact ⟨hash, data, hsource, hdata, heq⟩
  . rintro ⟨source, data, hsource, hdata, heq⟩
    exact ⟨source, hsource, by rw [hdata, Option.map_some, heq]⟩

/--
The hashes of a pack are honest exactly if no entry of the ZIP goes by names of two documents.
-/
theorem honest_iff {fields : Dict} {pack : NormalisedPack} (h : normalise sha256Hex (.dict fields) files = .ok pack)
    : Honest sha256Hex files pack ↔ NamesApart files fields := by
  have hread : List.Forall₂ (ReadFrom sha256Hex files fields) (documentsOf fields) pack.documents :=
    (documents_of_normalise h).imp fun raw doc hdoc => readFrom_of_documentOf hdoc
  have hdocs : ∀ doc ∈ pack.documents, ∃ raw, ReadFrom sha256Hex files fields raw doc := by
    intro doc hdoc
    have ⟨raw, _, hraw⟩ := Related.exists_left hread hdoc
    exact ⟨raw, hraw⟩
  have hentries : (documentsOf fields).map (fun raw => matchedEntry files (filenameOf fields raw) (currentOf fields raw))
      = pack.documents.map fun doc => matchedEntry files doc.filename doc.currentVersion :=
    Related.map_eq_map hread fun raw doc hraw => by rw [hraw.filename, hraw.currentVersion]
  have hapart : (pack.documents.filterMap fun doc => matchedEntry files doc.filename doc.currentVersion).Nodup
      ↔ NamesApart files fields := by
    have hdistinct (entries : List (Option PyStr)) : (entries.filterMap id).Nodup
        ↔ entries.Pairwise fun a b => ∀ entry, a = some entry → b ≠ some entry := by
      unfold List.Nodup
      rw [List.pairwise_filterMap]
      refine List.Pairwise.iff fun a b => ?_
      constructor
      . intro hab entry ha hb
        exact hab entry ha entry hb rfl
      . rintro hab entry ha other hb rfl
        exact hab entry ha hb
    have heq : (pack.documents.filterMap fun doc => matchedEntry files doc.filename doc.currentVersion)
        = ((documentsOf fields).map fun raw =>
            matchedEntry files (filenameOf fields raw) (currentOf fields raw)).filterMap id := by
      rw [hentries, List.filterMap_map]
      rfl
    rw [heq, hdistinct, List.pairwise_map]
    simp only [ne_eq, matchedEntry_eq_some_iff]
    rfl
  constructor
  . exact fun hhonest => hapart.mp hhonest.attributed
  . intro hnames
    have hunhashed : ∀ doc ∈ pack.documents, doc.sha256 = none ↔ doc.hashOrigin = none := by
      intro doc hdoc
      have ⟨raw, hraw⟩ := hdocs doc hdoc
      have hgrade := grade_unhashed_iff doc.sourceSha256 doc.ingestSha256
      rwa [← hraw.graded] at hgrade
    refine ⟨?_, hunhashed, partition_of_unhashed hunhashed, ?_, ?_, hapart.mpr hnames⟩
    . intro doc hdoc
      have ⟨raw, hraw⟩ := hdocs doc hdoc
      exact hraw.verified_iff
    . intro doc hdoc hmismatch
      have ⟨raw, hraw⟩ := hdocs doc hdoc
      have hgrade := @grade_mismatch doc.sourceSha256 doc.ingestSha256
      rw [← hraw.graded] at hgrade
      exact hgrade hmismatch
    . intro doc hdoc
      have ⟨raw, hraw⟩ := hdocs doc hdoc
      exact ⟨hraw.ingestSha256, hraw.sizeBytes⟩

/--
A manifest with a note, whose digest is the one of its bytes, and an edited lease, whose digest is not.
-/
def noteAndLease : Dict :=
  [
    (py "manifest_version", .int 1),
    (py "documents", .list [
      .dict [
        (py "id", .str (py "d1")), (py "name", .str (py "note.txt")),
        (py "versions", .list [
          .dict [(py "id", .str (py "v1")), (py "version_number", .int 1), (py "content_sha256", .str (py "1"))]
        ])
      ],
      .dict [
        (py "id", .str (py "d2")), (py "name", .str (py "lease.txt")),
        (py "versions", .list [
          .dict [
            (py "id", .str (py "v2")), (py "version_number", .int 2), (py "source", .str (py "assistant_edit")),
            (py "content_sha256", .str (py "7"))
          ]
        ])
      ]
    ])
  ]

def noteAndLeaseFiles : List (PyStr × Bytes) :=
  [(py "note.txt", [0x41]), (py "lease.txt", []), (py "lease [Edited V2].txt", [0x41, 0x42])]

/--
A digest that tells the entries apart.
-/
def lengthHex (data : Bytes) : PyStr :=
  pyNat data.length

theorem honest_noteAndLease
    : ∃ pack, normalise lengthHex (.dict noteAndLease) noteAndLeaseFiles = .ok pack
      ∧ Honest lengthHex noteAndLeaseFiles pack
      ∧ pack.documents.map NormalisedDocument.hashOrigin = [some .verifiedAtSource, some .attestedAtIngest]
      ∧ pack.documents.map NormalisedDocument.hashMismatch = [false, true] := by
  have happart : NamesApart noteAndLeaseFiles noteAndLease := by
    refine List.pairwise_pair.mpr fun entry h h' => ?_
    rw [← matchedEntry_eq_some_iff] at h h'
    exact absurd (h.trans h'.symm) (by decide +kernel)
  exact ⟨_, rfl, (@honest_iff lengthHex noteAndLeaseFiles noteAndLease _ rfl).mpr happart, by decide +kernel,
    by decide +kernel⟩

/--
An account export with two documents of one name.
-/
def namesakes : Dict :=
  [
    (py "documents", .list [
      .dict [(py "id", .str (py "d1")), (py "name", .str (py "note.txt"))],
      .dict [(py "id", .str (py "d2")), (py "name", .str (py "note.txt"))]
    ])
  ]

theorem not_honest
    : ¬ ∀ (sha256Hex : Bytes → PyStr) (files : List (PyStr × Bytes)) (fields : Dict) (pack : NormalisedPack),
      normalise sha256Hex (.dict fields) files = .ok pack → Honest sha256Hex files pack := by
  intro h
  have hhonest := h (fun _ => []) [(py "note.txt", [])] namesakes _ rfl
  have hattributed := hhonest.attributed
  -- Both documents have the bytes of the only entry.
  revert hattributed
  decide

end Grades

end ExternalPack
