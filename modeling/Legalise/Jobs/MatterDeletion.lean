import Legalise.Jobs.Ceiling
import Legalise.Storage.FailClosed

/-!
This module contains the deletion of a matter while exports of it are requested and run.
-/

namespace Jobs.MatterDeletion

open Storage (matterPrefix)

/--
Where a request for an export is: it has not looked for the matter, has seen it open, or has ended.
-/
inductive Request where
  | idle
  | sawOpen
  | done
  deriving DecidableEq

/--
Where the transaction of the deletion is.
-/
inductive Tombstone where
  | idle
  | checked
  | listed (keys : List PyStr)
  | purged
  | committed
  | aborted
  deriving DecidableEq

/--
What is committed about the matter, the keys under its prefix, and the parties.
-/
structure State where
  archived : Bool
  keys : List PyStr
  jobs : List Job
  requests : Nat → Request
  tombstone : Tombstone

/--
What may happen next. Each step is a statement or a commit that others see; a job is run once.
-/
inductive Event where
  /-- A request selects the matter, which has to be open. -/
  | see (request : Nat)
  /-- It commits the job that `create_job` returns. -/
  | create (request : Nat) (id : Uuid)
  /-- It ends without a job: the user has too many. -/
  | refuse (request : Nat)
  /-- The push to the queue fails. -/
  | pushFailed (id : Uuid)
  /--
  `run_job` commits the status `running`, of a job that is queued. It does not look at the status, so that a job whose
  push failed for the client alone runs as well: such pushes are left out.
  -/
  | begin (id : Uuid)
  /-- The pipeline puts the export into the store. -/
  | write (id : Uuid)
  /-- `run_job` commits the last status. -/
  | finish (id : Uuid) (status : Status)
  /-- The deletion counts the active jobs. -/
  | check
  /-- `delete_prefix` lists the keys. -/
  | list
  /-- `delete_prefix` has deleted the listed keys. -/
  | delete
  /-- The status `archived` is committed. -/
  | archive
  /-- The deletion raises or rolls back. -/
  | abort

section Exec

variable (matterId ownerId : Uuid)

/--
`users/{user_id}/matters/{matter_id}/exports/{job_id}.zip`
-/
def exportKey (jobId : Uuid) : PyStr :=
  matterPrefix ownerId matterId ++ py "exports/" ++ jobId.str ++ py ".zip"

/--
The count of `tombstone_matter`.
-/
def activeCount (jobs : List Job) : Nat :=
  jobs.countP fun job => job.matterId = matterId && job.status.active && job.kind ∉ backgroundJobKinds

/--
Take the jobs with an id from one status to another.
-/
def advance (id : Uuid) (before after : Status) (jobs : List Job) : List Job :=
  jobs.map fun job => if job.id = id && job.status = before then { job with status := after } else job

def State.setRequest (s : State) (request : Nat) (phase : Request) : State :=
  { s with requests := Function.update s.requests request phase }

def exec (s : State) : Event → State
  | .see request =>
    if s.requests request = .idle then s.setRequest request (if s.archived then .done else .sawOpen) else s
  | .create request id =>
    if s.requests request = .sawOpen then
      let inputPayload : Dict := [(py "matter_id", .str matterId.str)]
      {
        s.setRequest request .done with
        jobs := s.jobs ++ [(createJob id matterId ownerId (py "export") inputPayload).1]
      }
    else s
  | .refuse request => if s.requests request = .sawOpen then s.setRequest request .done else s
  | .pushFailed id => { s with jobs := advance id .queued .failed s.jobs }
  | .begin id => { s with jobs := advance id .queued .running s.jobs }
  | .write id =>
    if s.jobs.any fun job => job.id = id && job.status = .running then
      { s with keys := s.keys.insert (exportKey matterId ownerId id) }
    else s
  | .finish id status =>
    if status.finished then { s with jobs := advance id .running status s.jobs } else s
  | .check =>
    if s.tombstone = .idle then
      { s with tombstone := if 0 < activeCount matterId s.jobs then .aborted else .checked }
    else s
  | .list =>
    match s.tombstone with
    | .checked => { s with tombstone := .listed s.keys }
    | _ => s
  | .delete =>
    match s.tombstone with
    | .listed keys => { s with keys := s.keys.filter (· ∉ keys), tombstone := .purged }
    | _ => s
  | .archive =>
    match s.tombstone with
    | .purged => { s with archived := true, tombstone := .committed }
    | _ => s
  | .abort =>
    match s.tombstone with
    | .committed => s
    | _ => { s with tombstone := .aborted }

/--
The first states: the matter is open, and any keys may be there.
-/
def State.opened (keys : List PyStr) : State where
  archived := false
  keys := keys
  jobs := []
  requests _ := .idle
  tombstone := .idle

/--
No matter is archived with an export, and no status `running` is committed for a job of an archived matter.
-/
structure NoWorkSlipsPast (s : State) (events : List Event) : Prop where
  exports : ∀ earlier, earlier <+: events → (earlier.foldl (exec matterId ownerId) s).archived = true
    → ∀ id, exportKey matterId ownerId id ∉ (earlier.foldl (exec matterId ownerId) s).keys
  running : ∀ earlier id, earlier ++ [.begin id] <+: events
    → (earlier.foldl (exec matterId ownerId) s).archived = true
    → ∀ job ∈ (earlier.foldl (exec matterId ownerId) s).jobs, ¬ (job.id = id ∧ job.status = .queued)

/--
The deletion has listed the keys and has not ended without a commit.
-/
def Tombstone.pastListing : Tombstone → Bool
  | .listed _ | .purged | .committed => true
  | _ => false

/--
The purge lists the keys while no job is active, and no job is committed after that.
-/
def KeepsOut (s : State) : Event → Prop
  | .list => ∀ job ∈ s.jobs, job.status.active = false
  | .create _ _ => s.tombstone.pastListing = false
  | _ => True

instance (s : State) (event : Event) : Decidable (KeepsOut s event) :=
  match event with
  | .list => inferInstanceAs (Decidable (∀ job ∈ s.jobs, job.status.active = false))
  | .create _ _ => inferInstanceAs (Decidable (s.tombstone.pastListing = false))
  | .see _ | .refuse _ | .pushFailed _ | .begin _ | .write _ | .finish _ _ | .check | .delete | .archive
  | .abort => isTrue trivial

/--
All steps of a run keep new work out.
-/
def AllKeepOut (s : State) : List Event → Prop
  | [] => True
  | event :: events => KeepsOut s event ∧ AllKeepOut (exec matterId ownerId s event) events

instance decidableAllKeepOut (s : State) : (events : List Event) → Decidable (AllKeepOut matterId ownerId s events)
  | [] => isTrue trivial
  | event :: events =>
    @instDecidableAnd _ _ inferInstance (decidableAllKeepOut (exec matterId ownerId s event) events)

end Exec

section Invariant

variable {matterId ownerId : Uuid} {s : State} {event : Event}

/--
Once the keys are listed, no job is active, so that no key is added.
-/
structure Inv (s : State) : Prop where
  quiet : s.tombstone.pastListing = true → ∀ job ∈ s.jobs, job.status.active = false
  listed : ∀ keys, s.tombstone = .listed keys → s.keys ⊆ keys
  purged : s.tombstone = .purged ∨ s.tombstone = .committed → s.keys = []
  archived : s.archived = true → s.tombstone = .committed

theorem inv_opened (keys : List PyStr) : Inv (.opened keys) where
  quiet := fun h => by cases h
  listed := fun _ h => by cases h
  purged := fun h => by rcases h with h | h <;> cases h
  archived := fun h => by cases h

theorem active_of_mem_advance {id : Uuid} {before after : Status} {jobs : List Job}
    (hbefore : before.active = true) (h : ∀ job ∈ jobs, job.status.active = false)
    : ∀ job ∈ advance id before after jobs, job.status.active = false := by
  intro job hjob
  obtain ⟨old, hold, rfl⟩ := List.mem_map.mp hjob
  split
  . next heq =>
    simp only [Bool.and_eq_true, decide_eq_true_eq] at heq
    exact absurd (heq.right ▸ hbefore) (by simp [h old hold])
  . exact h old hold

/--
The jobs change their statuses, and nothing else happens.
-/
theorem Inv.advance (h : Inv s) (id : Uuid) {before : Status} (after : Status) (hbefore : before.active = true)
    : Inv { s with jobs := advance id before after s.jobs } where
  quiet := fun hpast => active_of_mem_advance hbefore (h.quiet hpast)
  listed := h.listed
  purged := h.purged
  archived := h.archived

theorem Inv.setRequest (h : Inv s) (request : Nat) (phase : Request) : Inv (s.setRequest request phase) :=
  ⟨h.quiet, h.listed, h.purged, h.archived⟩

/--
The deletion has not listed the keys, and does not do so now.
-/
theorem inv_of_not_pastListing {t : State} (h : t.tombstone.pastListing = false) (harchived : t.archived = false)
    : Inv t where
  quiet := fun hpast => by rw [h] at hpast; cases hpast
  listed := fun keys hkeys => by rw [hkeys] at h; cases h
  purged := fun hpurged => by rcases hpurged with hpurged | hpurged <;> rw [hpurged] at h <;> cases h
  archived := fun htrue => by rw [harchived] at htrue; cases htrue

theorem Inv.not_archived (h : Inv s) (hne : s.tombstone ≠ .committed) : s.archived = false := by
  by_contra harchived
  exact hne (h.archived (by simpa using harchived))

theorem Inv.exec (h : Inv s) (hkeeps : KeepsOut s event) : Inv (exec matterId ownerId s event) := by
  cases event with
  | see request =>
    unfold MatterDeletion.exec
    dsimp only
    split
    . exact h.setRequest request _
    . exact h
  | create request id =>
    unfold MatterDeletion.exec
    dsimp only
    split
    . refine inv_of_not_pastListing hkeeps (h.not_archived fun hcommitted => ?_)
      unfold KeepsOut at hkeeps
      rw [hcommitted] at hkeeps
      cases hkeeps
    . exact h
  | refuse request =>
    unfold MatterDeletion.exec
    dsimp only
    split
    . exact h.setRequest request _
    . exact h
  | pushFailed id => exact h.advance id .failed rfl
  | begin id => exact h.advance id .running rfl
  | write id =>
    unfold MatterDeletion.exec
    dsimp only
    split
    . next hrunning =>
      simp only [List.any_eq_true, Bool.and_eq_true, decide_eq_true_eq] at hrunning
      obtain ⟨job, hjob, _, hstatus⟩ := hrunning
      have hpast : s.tombstone.pastListing = false := by
        by_contra hpast
        have hquiet := h.quiet (by simpa using hpast) job hjob
        rw [hstatus] at hquiet
        cases hquiet
      refine inv_of_not_pastListing hpast (h.not_archived fun hcommitted => ?_)
      rw [hcommitted] at hpast
      cases hpast
    . exact h
  | finish id status =>
    unfold MatterDeletion.exec
    dsimp only
    split
    . exact h.advance id status rfl
    . exact h
  | check =>
    unfold MatterDeletion.exec
    dsimp only
    split
    . next hidle =>
      refine inv_of_not_pastListing ?_ (h.not_archived (by simp [hidle]))
      dsimp only
      split <;> rfl
    . exact h
  | list =>
    unfold MatterDeletion.exec
    dsimp only
    split
    . next hchecked =>
      refine ⟨fun _ => hkeeps, fun keys hkeys => ?_, fun hpurged => ?_, fun harchived => ?_⟩
      . rw [← Tombstone.listed.inj hkeys]
        exact List.Subset.refl _
      . rcases hpurged with hpurged | hpurged <;> cases hpurged
      . exact absurd (h.archived harchived) (by simp [hchecked])
    . exact h
  | delete =>
    unfold MatterDeletion.exec
    dsimp only
    split
    . next keys hlisted =>
      refine ⟨fun _ => h.quiet (by rw [hlisted]; rfl), fun _ hkeys => (by cases hkeys), fun _ => ?_, ?_⟩
      . rw [List.filter_eq_nil_iff]
        intro key hkey
        simpa using h.listed keys hlisted hkey
      . intro harchived
        exact absurd (h.archived harchived) (by simp [hlisted])
    . exact h
  | archive =>
    unfold MatterDeletion.exec
    dsimp only
    split
    . next hpurged =>
      refine ⟨fun _ => h.quiet (by rw [hpurged]; rfl), fun _ hkeys => (by cases hkeys), fun _ => ?_, fun _ => rfl⟩
      exact h.purged (.inl hpurged)
    . exact h
  | abort =>
    unfold MatterDeletion.exec
    dsimp only
    split
    . exact h
    . next hne => exact inv_of_not_pastListing rfl (h.not_archived hne)

end Invariant

section Run

variable {matterId ownerId : Uuid}

theorem keepsOut_of_allKeepOut {s : State} {events : List Event} (h : AllKeepOut matterId ownerId s events)
    {earlier : List Event} {event : Event} (hbegin : earlier ++ [event] <+: events)
    : KeepsOut (earlier.foldl (exec matterId ownerId) s) event := by
  induction earlier generalizing s events with
  | nil =>
    obtain ⟨rest, rfl⟩ := hbegin
    exact h.left
  | cons first earlier ih =>
    obtain ⟨rest, rfl⟩ := hbegin
    exact ih h.right ⟨rest, rfl⟩

/--
If the purge lists the keys while no job is active and no job is committed after that, then nothing slips
past the deletion.
-/
theorem noWorkSlipsPast (matterId ownerId : Uuid) (keys : List PyStr) (events : List Event)
    (h : AllKeepOut matterId ownerId (.opened keys) events)
    : NoWorkSlipsPast matterId ownerId (.opened keys) events := by
  have hinv (earlier : List Event) (hearlier : earlier <+: events)
      : Inv (earlier.foldl (exec matterId ownerId) (.opened keys)) := by
    refine @Runs.foldl_invariant State Event (exec matterId ownerId) Inv KeepsOut
      (fun _ _ hkeeps hinv => hinv.exec hkeeps) (.opened keys) (inv_opened keys) earlier ?_
    exact fun before event hbefore => keepsOut_of_allKeepOut h (hbefore.trans hearlier)
  constructor
  . intro earlier hearlier harchived id
    rw [(hinv earlier hearlier).purged (.inr ((hinv earlier hearlier).archived harchived))]
    exact List.not_mem_nil
  . intro earlier id hbegin harchived job hjob hqueued
    have hbefore := hinv earlier ((List.prefix_append _ _).trans hbegin)
    have hquiet := hbefore.quiet (by rw [hbefore.archived harchived]; rfl) job hjob
    rw [hqueued.right] at hquiet
    cases hquiet

/--
An export that is requested, run and finished before the deletion.
-/
theorem noWorkSlipsPast_exportThenDelete
    : NoWorkSlipsPast (Uuid.ofNat 1) (Uuid.ofNat 2) (.opened [])
      [
        .see 0, .create 0 (Uuid.ofNat 3), .begin (Uuid.ofNat 3), .write (Uuid.ofNat 3),
        .finish (Uuid.ofNat 3) .succeeded, .check, .list, .delete, .archive
      ] :=
  noWorkSlipsPast _ _ _ _ (by decide +kernel)

/--
A request that commits its job after the check and whose export is written after the purge.
-/
def exportDuringDeletion : List Event := [
  .see 0, .check, .list, .delete, .create 0 (Uuid.ofNat 3), .begin (Uuid.ofNat 3), .write (Uuid.ofNat 3),
  .finish (Uuid.ofNat 3) .succeeded, .archive
]

theorem not_noWorkSlipsPast
    : ¬ ∀ events : List Event, NoWorkSlipsPast (Uuid.ofNat 1) (Uuid.ofNat 2) (.opened []) events := by
  intro h
  refine (h exportDuringDeletion).exports exportDuringDeletion (List.prefix_refl _) ?_ (Uuid.ofNat 3) ?_
  . decide +kernel
  . decide +kernel

end Run

end Jobs.MatterDeletion
