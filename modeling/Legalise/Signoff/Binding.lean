import Legalise.Signoff.Export
import Legalise.Lib.Runs
import Legalise.Lib.Except

/-!
This module contains the runs of sign-offs and replaced bytes: an export labels an artifact by its latest
sign-off and tells whether the payload is still the one that was signed.
-/

namespace Signoff

open JsonText (FloatText)

section Hash

variable {E : Env}

/--
A payload that can be hashed: without NaN, infinities and lone surrogates.
-/
structure Proper (payload : Json) : Prop where
  finite : payload.Finite
  encodable : payload.Encodable

theorem sortKeys_canonicalPayload (artifactId : Uuid) (kind : PyStr) (payload : Json)
    : (canonicalPayload artifactId kind payload).sortKeys = canonicalPayload artifactId kind payload.sortKeys := by
  have h₁ : py "artifact_id" < py "kind" := by decide
  have h₂ : py "kind" < py "payload" := by decide
  unfold canonicalPayload
  rw [Json.sortKeys, Json.sortKeysDict_eq_map]
  refine congrArg Json.dict (Sweep.sortBy_eq (List.Perm.refl _) ?_)
  simp [h₁, h₂, h₁.trans h₂]

theorem Proper.canonicalPayload {payload : Json} (h : Proper payload) (artifactId : Uuid) (kind : PgText)
    : Proper (canonicalPayload artifactId kind.val payload) where
  finite := ⟨trivial, trivial, h.finite, trivial⟩
  encodable := ⟨utf8Encodable_py _, artifactId.utf8Encodable_str, utf8Encodable_py _, kind.utf8Encodable,
    utf8Encodable_py _, h.encodable, trivial⟩

/--
Payloads that can be hashed are.
-/
theorem canonicalPayloadHash_eq (F : FloatText E.R) (artifact : MatterArtifact) {payload : Json}
    (h : Proper payload)
    : canonicalPayloadHash E artifact payload
        = .ok (E.sha256.hexdigest (JsonText.dumpsCanonicalRaw E.R
            (canonicalPayload artifact.id artifact.kind.val payload))) := by
  have hproper := h.canonicalPayload artifact.id artifact.kind
  unfold canonicalPayloadHash
  dsimp only
  rw [if_pos]
  exact JsonText.utf8Encodable_dumpsRaw F hproper.finite.sortKeys hproper.encodable.sortKeys

/--
A hash is that of one artifact, one kind and one payload.
-/
theorem canonicalPayloadHash_eq_iff (F : FloatText E.R) (hsha : Function.Injective E.sha256.hexdigest)
    {a b : MatterArtifact} {v w : Json} (hv : Proper v) (hw : Proper w) (hkeysv : v.DistinctKeys)
    (hkeysw : w.DistinctKeys)
    : canonicalPayloadHash E a v = canonicalPayloadHash E b w
        ↔
      a.id = b.id ∧ a.kind = b.kind ∧ v.sameText E.R w = true := by
  have hpv := hv.canonicalPayload a.id a.kind
  have hpw := hw.canonicalPayload b.id b.kind
  rw [canonicalPayloadHash_eq F a hv, canonicalPayloadHash_eq F b hw, Except.ok.injEq, hsha.eq_iff,
    JsonText.dumpsCanonicalRaw_eq_iff F hpv.finite hpw.finite hpv.encodable hpw.encodable,
    sortKeys_canonicalPayload, sortKeys_canonicalPayload, JsonText.sameText_iff F hkeysv hkeysw hv.finite hw.finite]
  have hkind : a.kind.val = b.kind.val ↔ a.kind = b.kind := by
    cases a.kind
    cases b.kind
    simp
  unfold canonicalPayload
  simp [Uuid.str_injective.eq_iff, hkind]

end Hash

section Runs

variable (E : Env) (artifacts : List MatterArtifact)

/--
What happens to a matter: the stored bytes of a path are replaced or lost, an artifact's sign surface is
opened, or a decision is asked for.
-/
inductive Op where
  | put (path : PyStr) (data : Option Bytes)
  | reviewOpen (matterId artifactId userId : Uuid) (now : Int)
  | signoff (request : CreateSignoff)

/--
The tables and the storage, with the payload that was read for every sign-off.
-/
structure Trace where
  state : State
  payloads : Uuid → Option Json

def Trace.start (objects : Objects) : Trace where
  state := { objects }
  payloads _ := none

/--
The bytes of a path replaced.
-/
def State.put (s : State) (path : PyStr) (data : Option Bytes) : State :=
  { s with objects := fun other => if other = path then data else s.objects other }

def State.reviewOpen (s : State) (matterId artifactId userId : Uuid) (now : Int) : State :=
  match artifacts.find? fun a => a.id = artifactId && a.matterId = matterId with
  | some artifact => { s with auditEntries := recordReviewOpened s.auditEntries artifact userId now }
  | none => s

/--
The commit of a decision.
-/
def Trace.commit (t : Trace) (created : CreatedSignoff) : Trace where
  state :=
    {
      t.state with
      signoffs := t.state.signoffs ++ [created.row],
      auditEntries := t.state.auditEntries ++ [created.entry]
    }
  payloads id := if id = created.row.id then some created.payload else t.payloads id

/--
A request that raises an error leaves everything as it was.
-/
def exec (t : Trace) : Op → Trace
  | .put path data => { t with state := t.state.put path data }
  | .reviewOpen matterId artifactId userId now =>
    { t with state := t.state.reviewOpen artifacts matterId artifactId userId now }
  | .signoff request =>
    match createSignoffEndpoint E artifacts t.state request with
    | .ok created => t.commit created
    | .error _ => t

/--
Bytes that hold a payload that can be hashed.
-/
def ProperBytes (data : Bytes) : Prop :=
  ∃ payload, E.json.loads data = some payload ∧ Proper payload

def ProperObjects (objects : Objects) : Prop :=
  ∀ path data, objects path = some data → ProperBytes E data

def Op.Proper : Op → Prop
  | .put _ data => ∀ bytes ∈ data, ProperBytes E bytes
  | _ => True

/--
A sign-off pins the payload that was read for it.
-/
structure Pins (t : Trace) (row : MatterSignoff) (artifact : MatterArtifact) (payload : Json) : Prop where
  mem : artifact ∈ artifacts
  artifactId : row.artifactId = artifact.id
  matterId : row.matterId = artifact.matterId
  signed : t.payloads row.id = some payload
  proper : Signoff.Proper payload
  distinctKeys : payload.DistinctKeys
  hash : canonicalPayloadHash E artifact payload = .ok row.artifactHash

structure Inv (t : Trace) : Prop where
  ids : (t.state.signoffs.map MatterSignoff.id).Nodup
  objects : ProperObjects E t.state.objects
  pins : ∀ row ∈ t.state.signoffs, ∃ artifact payload, Pins E artifacts t row artifact payload

variable {E artifacts}

theorem inv_start {objects : Objects} (h : ProperObjects E objects) : Inv E artifacts (.start objects) where
  ids := List.nodup_nil
  objects := h
  pins := by simp [Trace.start]

/--
What a decision that succeeds has found and writes.
-/
theorem of_createSignoff {s : State} {artifact : MatterArtifact} {request : CreateSignoff}
    {created : CreatedSignoff} (h : createSignoff E s artifact request = .ok created)
    : created.row.id = request.id ∧ created.row.artifactId = artifact.id
      ∧ created.row.matterId = request.matterId ∧ (∀ row ∈ s.signoffs, row.id ≠ request.id)
      ∧ loadPayload E s.objects artifact = .ok created.payload
      ∧ canonicalPayloadHash E artifact created.payload = .ok created.row.artifactHash := by
  unfold createSignoff at h
  cases hdecision : Decision.ofStr? request.decision with
  | none => simp [hdecision, throw, throwThe, MonadExceptOf.throw] at h
  | some decision =>
    simp only [hdecision] at h
    split at h
    . cases h
    split at h
    . cases h
    simp only [Except.bind_eq_ok_iff] at h
    obtain ⟨payload, hpayload, hash, hhash, h⟩ := h
    split at h
    . cases h
    . next hfresh =>
      cases h
      refine ⟨rfl, rfl, rfl, ?_, hpayload, hhash⟩
      simpa using hfresh

theorem of_createSignoffEndpoint {s : State} {request : CreateSignoff} {created : CreatedSignoff}
    (h : createSignoffEndpoint E artifacts s request = .ok created)
    : ∃ artifact ∈ artifacts, artifact.matterId = request.matterId
        ∧ createSignoff E s artifact request = .ok created := by
  unfold createSignoffEndpoint at h
  cases hfind : artifacts.find? fun a => a.id = request.artifactId && a.matterId = request.matterId with
  | none => simp [hfind, throw, throwThe, MonadExceptOf.throw] at h
  | some artifact =>
    have hmem := List.mem_of_find?_eq_some hfind
    have hfound := List.find?_some hfind
    simp only [Bool.and_eq_true, decide_eq_true_eq] at hfound
    simp only [hfind] at h
    exact ⟨artifact, hmem, hfound.right, h⟩

theorem loadPayload_eq_ok_iff {objects : Objects} {artifact : MatterArtifact} {payload : Json}
    : loadPayload E objects artifact = .ok payload
        ↔
      isLegacyPath artifact.storagePath = false
        ∧ ∃ data, objects artifact.storagePath = some data ∧ E.json.loads data = some payload := by
  unfold loadPayload loadArtifactBytes
  cases isLegacyPath artifact.storagePath with
  | true => simp
  | false =>
    cases objects artifact.storagePath with
    | none => simp
    | some data =>
      cases hloads : E.json.loads data <;> simp [hloads, throw, throwThe, MonadExceptOf.throw]

theorem ProperObjects.proper_of_loadPayload {objects : Objects} (h : ProperObjects E objects)
    {artifact : MatterArtifact} {payload : Json} (hload : loadPayload E objects artifact = .ok payload)
    : Proper payload ∧ payload.DistinctKeys := by
  have ⟨_, data, hdata, hloads⟩ := loadPayload_eq_ok_iff.mp hload
  have ⟨other, hother, hproper⟩ := h _ _ hdata
  rw [hloads, Option.some.injEq] at hother
  exact ⟨hother ▸ hproper, E.json.distinctKeys _ _ hloads⟩

/--
A decision is pinned to the payload that it was made on, and changes nothing about the earlier ones.
-/
theorem Inv.commit {t : Trace} (h : Inv E artifacts t) {request : CreateSignoff} {created : CreatedSignoff}
    (hcreated : createSignoffEndpoint E artifacts t.state request = .ok created)
    : Inv E artifacts (t.commit created) := by
  have ⟨artifact, hartifact, hmatter, hcreate⟩ := of_createSignoffEndpoint hcreated
  have ⟨hid, hartifactId, hmatterId, hfresh, hload, hhash⟩ := of_createSignoff hcreate
  have ⟨hproper, hkeys⟩ := h.objects.proper_of_loadPayload hload
  refine ⟨?_, h.objects, ?_⟩
  . unfold Trace.commit
    dsimp only
    rw [List.map_append, List.nodup_append]
    refine ⟨h.ids, List.nodup_singleton _, ?_⟩
    intro id hmem other hother
    have ⟨row, hrow, heq⟩ := List.mem_map.mp hmem
    rw [List.mem_singleton.mp hother, ← heq, hid]
    exact hfresh row hrow
  . intro row hrow
    cases List.mem_append.mp hrow with
    | inl hrow =>
      have ⟨artifact, payload, hpins⟩ := h.pins row hrow
      refine ⟨artifact, payload, { hpins with signed := ?_ }⟩
      unfold Trace.commit
      dsimp only
      rw [if_neg (hid ▸ hfresh row hrow)]
      exact hpins.signed
    | inr hrow =>
      rw [List.mem_singleton.mp hrow]
      refine ⟨artifact, created.payload, hartifact, hartifactId, hmatterId.trans hmatter.symm, ?_, hproper,
        hkeys, hhash⟩
      unfold Trace.commit
      dsimp only
      rw [if_pos rfl]

theorem Inv.exec {t : Trace} (h : Inv E artifacts t) {op : Op} (hop : op.Proper E)
    : Inv E artifacts (exec E artifacts t op) := by
  cases op with
  | put path data =>
    refine ⟨h.ids, ?_, fun row hrow => ?_⟩
    . intro other bytes hbytes
      unfold Signoff.exec State.put at hbytes
      dsimp only at hbytes
      split at hbytes
      . exact hop bytes hbytes
      . exact h.objects other bytes hbytes
    . have ⟨artifact, payload, hpins⟩ := h.pins row hrow
      exact ⟨artifact, payload, { hpins with }⟩
  | reviewOpen matterId artifactId userId now =>
    have hsame : (t.state.reviewOpen artifacts matterId artifactId userId now).signoffs = t.state.signoffs
        ∧ (t.state.reviewOpen artifacts matterId artifactId userId now).objects = t.state.objects := by
      unfold State.reviewOpen
      split <;> exact ⟨rfl, rfl⟩
    unfold Signoff.exec
    refine ⟨hsame.left ▸ h.ids, hsame.right ▸ h.objects, fun row hrow => ?_⟩
    have ⟨artifact, payload, hpins⟩ := h.pins row (hsame.left ▸ hrow)
    exact ⟨artifact, payload, { hpins with }⟩
  | signoff request =>
    simp only [Signoff.exec]
    cases hcreated : createSignoffEndpoint E artifacts t.state request with
    | ok created => exact h.commit hcreated
    | error e => exact h

theorem inv_run {objects : Objects} (hobjects : ProperObjects E objects) {ops : List Op}
    (hops : ∀ op ∈ ops, op.Proper E) : Inv E artifacts (ops.foldl (exec E artifacts) (.start objects)) := by
  refine @Runs.foldl_invariant Trace Op (exec E artifacts) (Inv E artifacts) (fun _ op => op.Proper E)
    (fun _ _ hop h => h.exec hop) _ (inv_start hobjects) ops ?_
  intro earlier op hbegin
  exact hops op (hbegin.subset (by simp))

variable (E) in
/--
An artifact is labelled by a sign-off: it is the latest one and the only current one, and the entry tells
whether the payload is still the one that was read for it.
-/
structure LabelledBy (t : Trace) (artifact : MatterArtifact) (row : MatterSignoff) (entry : ArtifactEntry)
    : Prop where
  mem : row ∈ t.state.signoffs
  artifactId : row.artifactId = artifact.id
  greatest : ∀ other ∈ t.state.signoffs, other.artifactId = artifact.id → other.key ≤ row.key
  isCurrent : ∀ other ∈ t.state.signoffs, other.artifactId = artifact.id →
    (isCurrent t.state artifact.matterId other = true ↔ other = row)
  label : { entry with signoffHashMatches := none } = metadataEntry artifact (some row)
  hashMatches : ∀ data, loadArtifactBytes t.state.objects artifact.storagePath = .ok data →
    ∃ payload signed, E.json.loads data = some payload ∧ t.payloads row.id = some signed
      ∧ entry.signoffHashMatches = some (payload.sameText E.R signed)

theorem Inv.mem_listSignoffs {t : Trace} (h : Inv E artifacts t)
    (hids : (artifacts.map MatterArtifact.id).Nodup) {artifact : MatterArtifact} (hartifact : artifact ∈ artifacts)
    {row : MatterSignoff} (hid : row.artifactId = artifact.id)
    : row ∈ listSignoffs t.state.signoffs artifact.matterId ↔ row ∈ t.state.signoffs := by
  rw [Signoff.mem_listSignoffs]
  refine and_iff_left_of_imp fun hrow => ?_
  have ⟨other, payload, hpins⟩ := h.pins row hrow
  have : other = artifact := List.inj_on_of_nodup_map hids hpins.mem hartifact (hpins.artifactId.symm.trans hid)
  rw [hpins.matterId, this]

theorem loadArtifactBytes_cases (objects : Objects) (storagePath : PyStr)
    : (∃ data, loadArtifactBytes objects storagePath = .ok data)
        ∨ ∃ message, loadArtifactBytes objects storagePath = .error (.artifactBytesUnavailable message) := by
  unfold loadArtifactBytes
  split
  . exact .inr ⟨_, rfl⟩
  . split
    . exact .inl ⟨_, rfl⟩
    . exact .inr ⟨_, rfl⟩

/--
The entry of an artifact with a sign-off compares its payload with the one that was signed.
-/
theorem Inv.exists_exportArtifact {t : Trace} (h : Inv E artifacts t) (F : FloatText E.R)
    (hsha : Function.Injective E.sha256.hexdigest) {artifact : MatterArtifact} {row : MatterSignoff}
    {signed : Json} (hpins : Pins E artifacts t row artifact signed)
    : ∃ entry unavailable, exportArtifact E t.state.objects artifact (some row) = .ok (entry, unavailable)
        ∧ { entry with signoffHashMatches := none } = metadataEntry artifact (some row)
        ∧ ∀ data, loadArtifactBytes t.state.objects artifact.storagePath = .ok data →
          ∃ payload, E.json.loads data = some payload
            ∧ entry.signoffHashMatches = some (payload.sameText E.R signed) := by
  unfold exportArtifact
  cases loadArtifactBytes_cases t.state.objects artifact.storagePath with
  | inr hunavailable =>
    have ⟨message, hbytes⟩ := hunavailable
    rw [hbytes]
    refine ⟨_, _, rfl, rfl, ?_⟩
    intro data hdata
    cases hdata
  | inl havailable =>
    have ⟨data, hbytes⟩ := havailable
    have hobject : t.state.objects artifact.storagePath = some data := by
      unfold loadArtifactBytes at hbytes
      split at hbytes
      . cases hbytes
      . split at hbytes
        . next hobject =>
          cases hbytes
          exact hobject
        . cases hbytes
    have ⟨payload, hloads, hproper⟩ := h.objects _ _ hobject
    have hkeys := E.json.distinctKeys _ _ hloads
    have hcompute : computeSignoffHash E t.state.objects artifact = canonicalPayloadHash E artifact payload := by
      unfold computeSignoffHash loadPayload
      simp [hbytes, hloads, bind, Except.bind, pure, Except.pure]
    have hiff := canonicalPayloadHash_eq_iff F hsha (a := artifact) (b := artifact) hproper hpins.proper hkeys
      hpins.distinctKeys
    have hhash := canonicalPayloadHash_eq F artifact hproper
    rw [hpins.hash, hhash, Except.ok.injEq] at hiff
    rw [hbytes]
    dsimp only
    rw [hcompute, hhash]
    refine ⟨_, _, rfl, rfl, ?_⟩
    intro other hother
    cases hother
    refine ⟨payload, hloads, congrArg some ?_⟩
    rw [Bool.eq_iff_iff, decide_eq_true_eq, hiff]
    simp

/--
The entry of an artifact with a sign-off, as the export computes it.
-/
theorem Inv.exists_labelledBy {t : Trace} (h : Inv E artifacts t) (F : FloatText E.R)
    (hsha : Function.Injective E.sha256.hexdigest) (hids : (artifacts.map MatterArtifact.id).Nodup)
    {artifact : MatterArtifact} (hartifact : artifact ∈ artifacts)
    (hsigned : ∃ row ∈ t.state.signoffs, row.artifactId = artifact.id)
    : ∃ entry unavailable row,
        exportArtifact E t.state.objects artifact
            (currentByArtifact (listSignoffs t.state.signoffs artifact.matterId) artifact.id)
          = .ok (entry, unavailable)
        ∧ LabelledBy E t artifact row entry := by
  have ⟨first, hfirst, hfirstId⟩ := hsigned
  have hlisted := (h.mem_listSignoffs hids hartifact hfirstId).mpr hfirst
  have ⟨row, hcurrent⟩ := exists_currentByArtifact h.ids hlisted hfirstId
  have ⟨hrow, hid, hgreatest⟩ := (currentByArtifact_eq_some_iff h.ids).mp hcurrent
  have hmem := (h.mem_listSignoffs hids hartifact hid).mp hrow
  have ⟨other, signed, hpins⟩ := h.pins row hmem
  have hother : other = artifact :=
    List.inj_on_of_nodup_map hids hpins.mem hartifact (hpins.artifactId.symm.trans hid)
  subst hother
  have ⟨entry, unavailable, hexport, hlabel, hmatches⟩ := h.exists_exportArtifact F hsha hpins
  have hall (later : MatterSignoff) (hlater : later ∈ t.state.signoffs) (heq : later.artifactId = other.id)
      : later ∈ listSignoffs t.state.signoffs other.matterId :=
    (h.mem_listSignoffs hids hartifact heq).mpr hlater
  rw [hcurrent]
  refine ⟨entry, unavailable, row, hexport, hmem, hid, ?_, ?_, hlabel, ?_⟩
  . exact fun later hlater heq => hgreatest later (hall later hlater heq) heq
  . intro later hlater heq
    unfold isCurrent
    rw [List.contains_iff_mem, mem_currentSignoffIds_listSignoffs h.ids (hall later hlater heq)]
    constructor
    . intro hlatest
      have hle := hlatest row hrow (hid.trans heq.symm)
      have hkey := le_antisymm (hgreatest later (hall later hlater heq) heq) hle
      exact List.inj_on_of_nodup_map h.ids hlater hmem (id_eq_of_key_eq hkey)
    . rintro rfl
      exact fun earlier hearlier heq' => hgreatest earlier hearlier (heq'.trans hid)
  . intro data hdata
    have ⟨payload, hloads, hverdict⟩ := hmatches data hdata
    exact ⟨payload, signed, hloads, hpins.signed, hverdict⟩

theorem exportArtifact_unsigned (objects : Objects) (artifact : MatterArtifact)
    : ∃ unavailable, exportArtifact E objects artifact none = .ok (metadataEntry artifact none, unavailable) := by
  unfold exportArtifact
  cases loadArtifactBytes_cases objects artifact.storagePath with
  | inl havailable =>
    have ⟨data, hbytes⟩ := havailable
    rw [hbytes]
    exact ⟨_, rfl⟩
  | inr hunavailable =>
    have ⟨message, hbytes⟩ := hunavailable
    rw [hbytes]
    exact ⟨_, rfl⟩

/--
What an export after a run says about an artifact.
-/
structure Labels (E : Env) (t : Trace) (artifact : MatterArtifact) (entry : ArtifactEntry) : Prop where
  signed : (∃ row ∈ t.state.signoffs, row.artifactId = artifact.id) →
    ∃ row, LabelledBy E t artifact row entry
  unsigned : (∀ row ∈ t.state.signoffs, row.artifactId ≠ artifact.id) → entry = metadataEntry artifact none

theorem Inv.exists_labels {t : Trace} (h : Inv E artifacts t) (F : FloatText E.R)
    (hsha : Function.Injective E.sha256.hexdigest) (hids : (artifacts.map MatterArtifact.id).Nodup)
    {artifact : MatterArtifact} (hartifact : artifact ∈ artifacts)
    : ∃ result : ArtifactEntry × Option Uuid,
        exportArtifact E t.state.objects artifact
            (currentByArtifact (listSignoffs t.state.signoffs artifact.matterId) artifact.id)
          = .ok result
        ∧ Labels E t artifact result.fst := by
  by_cases hsigned : ∃ row ∈ t.state.signoffs, row.artifactId = artifact.id
  . have ⟨entry, unavailable, row, hexport, hlabelled⟩ := h.exists_labelledBy F hsha hids hartifact hsigned
    refine ⟨(entry, unavailable), hexport, fun _ => ⟨row, hlabelled⟩, ?_⟩
    intro hunsigned
    have ⟨row, hrow, hid⟩ := hsigned
    exact absurd hid (hunsigned row hrow)
  . have hnone : currentByArtifact (listSignoffs t.state.signoffs artifact.matterId) artifact.id = none := by
      rw [Option.eq_none_iff_forall_ne_some]
      intro row hrow
      have ⟨hmem, hid, _⟩ := (currentByArtifact_eq_some_iff h.ids).mp hrow
      exact hsigned ⟨row, (Signoff.mem_listSignoffs.mp hmem).left, hid⟩
    have ⟨unavailable, hexport⟩ := @exportArtifact_unsigned E t.state.objects artifact
    refine ⟨_, by rw [hnone, hexport], ?_, fun _ => rfl⟩
    exact fun hsome => absurd hsome hsigned

/--
Whatever is signed and replaced in whatever order, an export labels every artifact by its latest sign-off,
which is the only current one, and tells whether the payload is still the one that was signed. A hash is
that of one artifact and one kind.
-/
theorem bindsWhatWasSigned (F : FloatText E.R) (hsha : Function.Injective E.sha256.hexdigest)
    (hids : (artifacts.map MatterArtifact.id).Nodup) {objects : Objects} (hobjects : ProperObjects E objects)
    {ops : List Op} (hops : ∀ op ∈ ops, op.Proper E) (matterId : Uuid)
    : (∃ entryOf : MatterArtifact → ArtifactEntry, ∃ unavailable,
        matterExport E artifacts (ops.foldl (exec E artifacts) (.start objects)).state matterId
            = .ok ((artifacts.filter fun artifact => artifact.matterId = matterId).map entryOf, unavailable)
          ∧ ∀ artifact ∈ artifacts, artifact.matterId = matterId →
            Labels E (ops.foldl (exec E artifacts) (.start objects)) artifact (entryOf artifact))
        ∧ ∀ (a b : MatterArtifact) (v w : Json) (hash : PyStr), Proper v → Proper w → v.DistinctKeys →
          w.DistinctKeys → canonicalPayloadHash E a v = .ok hash → canonicalPayloadHash E b w = .ok hash →
          a.id = b.id ∧ a.kind = b.kind := by
  constructor
  . have h := @inv_run E artifacts objects hobjects ops hops
    generalize ops.foldl (exec E artifacts) (.start objects) = t at h ⊢
    have ⟨resultOf, hresultOf⟩ : ∃ resultOf : MatterArtifact → ArtifactEntry × Option Uuid,
        ∀ artifact ∈ artifacts,
          exportArtifact E t.state.objects artifact
              (currentByArtifact (listSignoffs t.state.signoffs artifact.matterId) artifact.id)
            = .ok (resultOf artifact)
          ∧ Labels E t artifact (resultOf artifact).fst := by
      refine ⟨fun artifact =>
        (exportArtifact E t.state.objects artifact
            (currentByArtifact (listSignoffs t.state.signoffs artifact.matterId) artifact.id)).toOption.getD
          (metadataEntry artifact none, none), ?_⟩
      intro artifact hartifact
      have ⟨result, hexport, hlabels⟩ := h.exists_labels F hsha hids hartifact
      simp only [hexport]
      exact ⟨rfl, hlabels⟩
    refine ⟨fun artifact => (resultOf artifact).fst, _, exportArtifacts_eq_ok ?_, ?_⟩
    . intro artifact hartifact
      rw [List.mem_filter, decide_eq_true_eq] at hartifact
      rw [← hartifact.right]
      exact (hresultOf artifact hartifact.left).left
    . exact fun artifact hartifact _ => (hresultOf artifact hartifact).right
  . intro a b v w hash hv hw hkeysv hkeysw ha hb
    have ⟨hid, hkind, _⟩ := (canonicalPayloadHash_eq_iff F hsha hv hw hkeysv hkeysw).mp (ha.trans hb.symm)
    exact ⟨hid, hkind⟩

/--
An artifact that is signed, replaced and rejected.
-/
theorem bindsWhatWasSigned_replacedTwice
    : let E : Env := ⟨.quoted, .plain, .utf8 FloatText.quoted.parse, false⟩
      let artifact : MatterArtifact :=
        ⟨Uuid.ofNat 1, Uuid.ofNat 9, ⟨py "m", by decide⟩, ⟨py "c", by decide⟩, Uuid.ofNat 5,
          ⟨py "memo", by decide⟩, py "users/1", none⟩
      let objects : Objects := fun path => if path = py "users/1" then some [0x5b, 0x31, 0x5d] else none
      let ops : List Op :=
        [
          .signoff ⟨Uuid.ofNat 9, Uuid.ofNat 1, Uuid.ofNat 7, py "signed", none, Uuid.ofNat 20, 1⟩,
          .put (py "users/1") (some [0x5b, 0x32, 0x5d]),
          .signoff ⟨Uuid.ofNat 9, Uuid.ofNat 1, Uuid.ofNat 7, py "rejected", some (py "no"), Uuid.ofNat 21, 2⟩,
          .put (py "users/1") (some [0x5b, 0x31, 0x5d])
        ]
      ∃ entryOf : MatterArtifact → ArtifactEntry, ∃ unavailable,
        matterExport E [artifact] (ops.foldl (exec E [artifact]) (.start objects)).state (Uuid.ofNat 9)
            = .ok (([artifact].filter fun artifact => artifact.matterId = Uuid.ofNat 9).map entryOf, unavailable)
          ∧ Labels E (ops.foldl (exec E [artifact]) (.start objects)) artifact (entryOf artifact) := by
  intro E artifact objects ops
  have hproper (data : Bytes) (n : Int) (hloads : E.json.loads data = some (.list [.int n])) : ProperBytes E data :=
    ⟨_, hloads, ⟨⟨trivial, trivial⟩, ⟨trivial, trivial⟩⟩⟩
  have h₁ : ProperBytes E [0x5b, 0x31, 0x5d] := hproper _ 1 rfl
  have h₂ : ProperBytes E [0x5b, 0x32, 0x5d] := hproper _ 2 rfl
  have ⟨⟨entryOf, unavailable, hexport, hlabels⟩, _⟩ :=
    @bindsWhatWasSigned E [artifact] FloatText.quoted Sha256.plain_injective (by decide) objects
      (fun path data hdata => by
        unfold objects at hdata
        split at hdata
        . cases hdata
          exact h₁
        . cases hdata)
      ops (by
        simp only [ops, List.forall_mem_cons]
        refine ⟨trivial, ?_, trivial, ?_, by simp⟩
        . intro data hdata
          cases hdata
          exact h₂
        . intro data hdata
          cases hdata
          exact h₁)
      (Uuid.ofNat 9)
  exact ⟨entryOf, unavailable, hexport, hlabels artifact (by simp) rfl⟩

end Runs

end Signoff
