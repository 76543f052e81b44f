import Legalise.ExternalPack.Paused
import Legalise.Lib.Runs

/-!
This module contains the matter of an ingested external pack, the requests of its owner to it, and the requests under
which it stays read-only.
-/

namespace ExternalPack

open Invocations (Declaration PromptModule InvocationContext Env)
open LockingSession (Session)
open Matters (Accepts Database Matter documentKeys exists_mem_handle documentKeys_handle handle plainEnv
  privilegePaused privilegeValues statusArchived statusOpen)
open ModelGateway (PrivilegePosture ProviderOutcome World)
open Requests (Cmd Request RequestSession Row SentCall)

section Ingest

/--
A normalised pack, with the ids that are drawn for it: of its matter, for its slug, and of its artifacts.
-/
structure Pack where
  adapter : PyStr
  source : PyStr
  title : Option PyStr
  projectName : Option PyStr
  counts : Json
  hashManifest : Json
  today : PyStr
  matterId : Uuid
  tokens : List PyStr
  documentArtifactIds : List Uuid
  manifestArtifactId : Uuid

/--
The committed tables, the artifacts of the matter, and the prompts that are handed to providers for it.
-/
structure State where
  db : Database
  artifacts : List Uuid
  sent : List SentCall

/--
`_unique_external_slug`
-/
def uniqueExternalSlug (db : Database) (userId : Uuid) (source : PyStr) (tokens : List PyStr) : Option PyStr :=
  ((tokens.take 8).map fun token => py "external-" ++ source ++ py "-" ++ token).find? fun candidate =>
    (db.matter? userId candidate).isNone

def defaultTitle (pack : Pack) : PyStr :=
  match pack.projectName.filter (· ≠ []) with
  | some name => py "External pack — " ++ pack.source ++ py ": " ++ name
  | none => py "External pack — " ++ pack.source ++ py " (" ++ pack.today ++ py ")"

def packMatter (pack : Pack) (userId : Uuid) (slug : PyStr) : Matter where
  id := pack.matterId
  slug := slug
  title := (pack.title.filter (· ≠ [])).getD (defaultTitle pack)
  createdById := userId
  status := statusOpen
  privilegePosture := privilegePaused
  defaultModelId := py "stub-echo"
  closedAt := none

/--
`INSERT`, unless a constraint is violated.
-/
def insertMatter? (db : Database) (m : Matter) : Option Database :=
  if h : m.id ∉ db.matters.map Matter.id ∧ m.key ∉ db.matters.map Matter.key then
    some {
      db with
      matters := db.matters ++ [m]
      ids := by
        rw [List.map_append]
        exact db.ids.append (List.nodup_singleton _) (by simpa using h.left)
      keys := by
        rw [List.map_append]
        exact db.keys.append (List.nodup_singleton _) (by simpa using h.right)
    }
  else none

def ingestedLog (pack : Pack) (m : Matter) : AuditLog where
  action := py "external.pack.ingested"
  actorId := some m.createdById
  matterId := some m.id
  module := some (py "external.pack")
  resourceType := some (py "matter_artifact")
  resourceId := some pack.manifestArtifactId.str
  payload := [
    (py "adapter", .str pack.adapter), (py "source", .str pack.source), (py "counts", pack.counts),
    (py "hash_manifest", pack.hashManifest), (py "matter_slug", .str m.slug)
  ]

/--
`ingest_external_pack`, with the commit of its caller.
-/
def ingestExternalPack (db : Database) (userId : Uuid) (pack : Pack) : Option (Matter × State) := do
  let slug ← uniqueExternalSlug db userId pack.source pack.tokens
  let m := packMatter pack userId slug
  let db ← insertMatter? db m
  return (m, {
    db := { db with audit := db.audit ++ [ingestedLog pack m] }
    artifacts := pack.documentArtifactIds ++ [pack.manifestArtifactId]
    sent := []
  })

end Ingest

section Run

/--
An invocation of a capability, with what it finds.
-/
structure Invocation where
  W : World
  env : Env
  module : PromptModule
  declaration : Declaration
  context : InvocationContext
  args : Dict
  outcome : ProviderOutcome

/--
The requests of the owner to the matter.
-/
inductive Event where
  | request (r : Matters.Request)
  | invoke (i : Invocation)
  | invokeNative (i : Invocation) (work : Invocations.Matter → Request Dict)
  | turn (turn : Assistant.Turn) (store : Assistant.Store)

/--
`PrivilegePosture(value)`
-/
def postureOf (value : PyStr) : Option PrivilegePosture :=
  [PrivilegePosture.aCleared, .bMixed, .cPaused].find? fun posture => posture.value = value

/--
What a request that has loaded the matter finds of it.
-/
def loaded (m : Matter) : Invocations.Matter :=
  ⟨m.id, m.privilegePosture, m.defaultModelId⟩

def worldOf (W : World) (m : Matter) : World :=
  { W with postures := Function.update W.postures m.id (postureOf m.privilegePosture) }

def artifactIds (rows : List Row) : List Uuid :=
  rows.filterMap fun
    | .artifact id => some id
    | _ => none

def auditLogs (rows : List Row) : List AuditLog :=
  rows.filterMap fun
    | .audit entry => some entry.toAuditLog
    | _ => none

/--
The state after a request whose session has got these commands.
-/
def State.after (s : State) (commands : List Cmd) : State :=
  let session := ((Session.fresh : RequestSession).run Row.scope commands).close Row.scope
  {
    db := { s.db with audit := s.db.audit ++ auditLogs session.committed }
    artifacts := s.artifacts ++ artifactIds session.committed
    sent := s.sent ++ session.sent
  }

/--
A request whose route loads the matter of the owner, unless it is archived.
-/
def State.onMatter (s : State) (userId : Uuid) (slug : PyStr) (commands : Matter → List Cmd) : State :=
  match s.db.matter? userId slug with
  | none => s
  | some m => if m.status = statusArchived then s else s.after (commands m)

def Invocation.commands (i : Invocation) (m : Matter) : List Cmd :=
  (Invocations.invokeCapability (worldOf i.W m) i.env i.module i.declaration (loaded m) i.context i.args i.outcome).trace

def Invocation.nativeCommands (i : Invocation) (work : Invocations.Matter → Request Dict) (m : Matter) : List Cmd :=
  (invokeNative i.module i.declaration (loaded m) work).trace

def turnCommands (turn : Assistant.Turn) (store : Assistant.Store) (m : Matter) : List Cmd :=
  (Assistant.runAssistantTurn { turn with W := worldOf turn.W m, matter := loaded m } store).trace

def exec (E : Matters.Env) (userId : Uuid) (slug : PyStr) (s : State) : Event → State
  | .request r => { s with db := (handle E s.db userId slug r).fst }
  | .invoke i => s.onMatter userId slug i.commands
  | .invokeNative i work => s.onMatter userId slug (i.nativeCommands work)
  | .turn turn store => s.onMatter userId slug (turnCommands turn store)

/--
What is promised of the matter of a pack.
-/
structure ReadOnly (m : Matter) (start s : State) : Prop where
  sent : s.sent = []
  documents : ((documentKeys s.db).filter fun key => key.snd = m.id)
    = (documentKeys start.db).filter fun key => key.snd = m.id
  artifacts : s.artifacts = start.artifacts

/--
The request does not set a posture other than that of the pack, it is no upload that is accepted, and an entry class
that it runs checks the posture first.
-/
def LeavesPaused (E : Matters.Env) (userId : Uuid) (slug : PyStr) (s : State) : Event → Prop
  | .request (.setPrivilegePosture posture) => posture ∈ privilegeValues → posture = privilegePaused
  | .request (.uploadDocument u) => ¬ Accepts E s.db userId slug u
  | .invokeNative i work => ChecksPostureFirst i.env i.module i.declaration i.context work
  | _ => True

end Run

section Invariant

variable {E : Matters.Env} {userId : Uuid} {slug : PyStr} {m : Matter} {start s : State}

/--
The row of the matter is there and paused.
-/
def Paused (m : Matter) (userId : Uuid) (slug : PyStr) (db : Database) : Prop :=
  ∃ row ∈ db.matters, row.id = m.id ∧ row.key = (userId, slug) ∧ row.privilegePosture = privilegePaused

theorem Paused.of_matter? {db : Database} (h : Paused m userId slug db) {found : Matter}
    (hfound : db.matter? userId slug = some found) : found.id = m.id ∧ found.privilegePosture = privilegePaused := by
  have ⟨row, hrow, hid, hkey, hposture⟩ := h
  have hfoundKey := List.find?_some hfound
  rw [decide_eq_true_eq] at hfoundKey
  have heq := List.inj_on_of_nodup_map db.keys (List.mem_of_find?_eq_some hfound) hrow (hfoundKey.trans hkey.symm)
  rw [heq]
  exact ⟨hid, hposture⟩

theorem postures_worldOf {W : World} {found : Matter} (hposture : found.privilegePosture = privilegePaused)
    : (worldOf W found).postures (loaded found).id = some .cPaused := by
  have hpaused : postureOf privilegePaused = some .cPaused := by
    decide
  unfold worldOf loaded
  dsimp only
  rw [Function.update_self, hposture, hpaused]

theorem artifactIds_eq_nil {rows : List Row} (h : ∀ row ∈ rows, NoArtifact row) : artifactIds rows = [] := by
  refine List.filterMap_eq_nil_iff.mpr fun row hrow => ?_
  have hno := h row hrow
  cases row with
  | artifact id => exact hno.elim
  | _ => rfl

/--
A request that is confined leaves the artifacts and the prompts as they are.
-/
theorem after_of_confined {commands : List Cmd} (h : ∀ command ∈ commands, Session.Confined NoArtifact command)
    : (s.after commands).artifacts = s.artifacts ∧ (s.after commands).sent = s.sent := by
  have hholds : (((Session.fresh : RequestSession).run Row.scope commands).close Row.scope).Holds NoArtifact :=
    ((Session.holds_fresh NoArtifact).run h).exec trivial
  unfold State.after
  dsimp only
  rw [artifactIds_eq_nil hholds.committed, hholds.sent, List.append_nil, List.append_nil]
  exact ⟨rfl, rfl⟩

theorem ReadOnly.onMatter (h : ReadOnly m start s) (hpaused : Paused m userId slug s.db)
    {commands : Matter → List Cmd}
    (hconfined : ∀ found, found.privilegePosture = privilegePaused
      → ∀ command ∈ commands found, Session.Confined NoArtifact command)
    : ReadOnly m start (s.onMatter userId slug commands)
        ∧ Paused m userId slug (s.onMatter userId slug commands).db := by
  unfold State.onMatter
  split
  . exact ⟨h, hpaused⟩
  . next found hfound =>
    split
    . exact ⟨h, hpaused⟩
    . have ⟨hartifacts, hsent⟩ := @after_of_confined s _ (hconfined found (hpaused.of_matter? hfound).right)
      exact ⟨⟨hsent.trans h.sent, h.documents, hartifacts.trans h.artifacts⟩, hpaused⟩

theorem readOnly_exec (h : ReadOnly m start s) (hpaused : Paused m userId slug s.db) {event : Event}
    (hleaves : LeavesPaused E userId slug s event)
    : ReadOnly m start (exec E userId slug s event) ∧ Paused m userId slug (exec E userId slug s event).db := by
  cases event with
  | request r =>
    have hkeys : documentKeys (handle E s.db userId slug r).fst = documentKeys s.db := by
      refine documentKeys_handle fun u heq => ?_
      rw [heq] at hleaves
      exact hleaves
    have ⟨row, hrow, hid, hkey, hposture⟩ := hpaused
    have ⟨after, hafter, hafterId, hafterKey, hafterPosture⟩ := @exists_mem_handle E s.db userId slug r row hrow
      fun posture heq hvalue found hfound => by
        rw [heq] at hleaves
        exact (hpaused.of_matter? hfound).right.trans (hleaves hvalue).symm
    refine ⟨⟨h.sent, ?_, h.artifacts⟩, after, hafter, hafterId.trans hid, hafterKey.trans hkey,
      hafterPosture.trans hposture⟩
    unfold exec
    dsimp only
    rw [hkeys]
    exact h.documents
  | invoke i => exact h.onMatter hpaused fun found hposture => confines_invokeCapability (postures_worldOf hposture)
  | invokeNative i work => exact h.onMatter hpaused fun found hposture => confines_invokeNative hposture hleaves
  | turn turn store =>
    exact h.onMatter hpaused fun found hposture =>
      @confines_runAssistantTurn { turn with W := worldOf turn.W found, matter := loaded found } store
        (postures_worldOf hposture) hposture

theorem paused_of_ingest {db : Database} {pack : Pack} (h : ingestExternalPack db userId pack = some (m, s))
    : s.sent = [] ∧ Paused m userId m.slug s.db := by
  unfold ingestExternalPack at h
  simp only [Option.bind_eq_bind, Option.bind_eq_some_iff, Option.pure_def, Option.some.injEq, Prod.mk.injEq] at h
  obtain ⟨slug, _, inserted, hinsert, hm, hs⟩ := h
  unfold insertMatter? at hinsert
  split at hinsert
  . cases hinsert
    rw [← hs, ← hm]
    exact ⟨rfl, packMatter pack userId slug, by simp, rfl, rfl, rfl⟩
  . cases hinsert

end Invariant

/--
An ingested pack stays read-only in every run of requests of its owner that leave its posture paused and upload
nothing to it.
-/
theorem readOnly_of_leavesPaused (E : Matters.Env) (db : Database) (userId : Uuid) (pack : Pack) (m : Matter)
    (start : State) (hingest : ingestExternalPack db userId pack = some (m, start)) (events : List Event)
    (hleaves : ∀ earlier event, earlier ++ [event] <+: events
      → LeavesPaused E userId m.slug (earlier.foldl (exec E userId m.slug) start) event)
    (earlier : List Event) (hbegin : earlier <+: events)
    : ReadOnly m start (earlier.foldl (exec E userId m.slug) start) := by
  have ⟨hsent, hpaused⟩ := paused_of_ingest hingest
  have hinv := @Runs.foldl_invariant State Event (exec E userId m.slug)
    (fun s => ReadOnly m start s ∧ Paused m userId m.slug s.db) (LeavesPaused E userId m.slug)
    (fun s event hevent h => readOnly_exec h.left h.right hevent) start ⟨⟨hsent, rfl, rfl⟩, hpaused⟩ earlier
    fun before event h => hleaves before event (h.trans hbegin)
  exact hinv.left

section Worked

def emptyDatabase : Database where
  matters := []
  ids := List.nodup_nil
  keys := List.nodup_nil
  documents := []
  versions := []
  jobs := []
  grants := .empty
  audit := []

def mikePack : Pack where
  adapter := py "mike"
  source := py "mike"
  title := none
  projectName := some (py "Acme")
  counts := .dict []
  hashManifest := .list []
  today := py "2026-02-28"
  matterId := Uuid.ofNat 1
  tokens := [py "0a1b2c3d"]
  documentArtifactIds := [Uuid.ofNat 2]
  manifestArtifactId := Uuid.ofNat 3

def owner : Uuid := Uuid.ofNat 4

def mikeMatter : Matter :=
  packMatter mikePack owner (py "external-mike-0a1b2c3d")

def mikeState : State where
  db := {
    emptyDatabase with
    matters := [mikeMatter]
    ids := List.nodup_singleton _
    keys := List.nodup_singleton _
    audit := [ingestedLog mikePack mikeMatter]
  }
  artifacts := [Uuid.ofNat 2, Uuid.ofNat 3]
  sent := []

theorem ingest_mike : ingestExternalPack emptyDatabase owner mikePack = some (mikeMatter, mikeState) := rfl

/--
An invocation that a matter which is not paused lets through to the stub.
-/
def memoInvocation : Invocation where
  W := Invocations.openWorld
  env := Invocations.openEnv
  module := Invocations.memoModule
  declaration := { Invocations.supervisedDeclaration with adviceTierMax := none }
  context := Invocations.solicitorContext
  args := []
  outcome := .returned (py "memo") 1 1 none none

/--
An entry class that checks the posture and then writes an artifact.
-/
def memoClass (matter : Invocations.Matter) : Request Dict := do
  checkPosture memoInvocation.env memoInvocation.module memoInvocation.declaration matter memoInvocation.context
  Requests.add (.artifact (Uuid.ofNat 9))
  return []

theorem readOnly_of_leavesPaused_mike
    : ReadOnly mikeMatter mikeState
        ([.request .reindexDocuments, .invoke memoInvocation, .invokeNative memoInvocation memoClass].foldl
          (exec plainEnv owner mikeMatter.slug) mikeState) := by
  refine readOnly_of_leavesPaused plainEnv emptyDatabase owner mikePack mikeMatter mikeState ingest_mike
    [.request .reindexDocuments, .invoke memoInvocation, .invokeNative memoInvocation memoClass]
    (fun earlier event hbegin => ?_) _ (List.prefix_refl _)
  have hmem : event ∈ [Event.request .reindexDocuments, .invoke memoInvocation,
      .invokeNative memoInvocation memoClass] :=
    hbegin.subset (List.mem_append_right _ (List.mem_singleton_self _))
  simp only [List.mem_cons, List.not_mem_nil, or_false] at hmem
  rcases hmem with rfl | rfl | rfl
  . exact trivial
  . exact trivial
  . exact fun matter => ⟨_, rfl⟩

def noteUpload : Matters.Upload where
  filename := some (py "note.txt")
  contentType := some (py "text/plain")
  contents := [0x68, 0x69]
  tag := none
  fromDisclosure := false
  disclosureProceedingsRef := none
  documentId := Uuid.ofNat 5
  jobId := Uuid.ofNat 6
  storageError := none
  queueError := none
  now := Invocations.openEnv.decidedAt

/--
The owner uploads a document to the pack, which no route refuses.
-/
theorem uploadToPack_not_readOnly
    : ¬ ReadOnly mikeMatter mikeState ([.request (.uploadDocument noteUpload)].foldl
        (exec plainEnv owner mikeMatter.slug) mikeState) := by
  intro h
  have hlength := congrArg List.length h.documents
  revert hlength
  decide +kernel

/--
The owner lifts the posture of the pack, and an invocation hands its prompt to a provider and writes an artifact.
-/
theorem liftedPack_not_readOnly
    : ¬ ReadOnly mikeMatter mikeState ([.request (.setPrivilegePosture Matters.privilegeCleared), .invoke memoInvocation].foldl
        (exec plainEnv owner mikeMatter.slug) mikeState) := by
  intro h
  have hlength := congrArg List.length h.sent
  revert hlength
  decide +kernel

end Worked

end ExternalPack
