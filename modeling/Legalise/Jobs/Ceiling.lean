import Legalise.Jobs.RunJob
import Legalise.Lib.Runs

/-!
This module contains the limit of active jobs of a user under concurrent requests, and when it holds.
-/

namespace Jobs

def backgroundJobKinds : List PyStr := [py "index"]

def Job.interactive (job : Job) : Bool :=
  job.kind ∉ backgroundJobKinds

structure ActiveJobLimitReached where
  userId : Uuid
  count : Nat
  limit : Int
  deriving DecidableEq

/--
`get_active_job_count` of the rows that the session sees.
-/
def getActiveJobCount (rows : List Job) (userId : Uuid) (excludeKinds : List PyStr) : Nat :=
  rows.countP fun job => job.createdById = userId && job.status.active && job.kind ∉ excludeKinds

/--
`create_job` with the limit of `get_limits()`.
-/
def createJobWithin (cap : Int) (rows : List Job) (id matterId createdById : Uuid) (kind : PyStr)
    (inputPayload : Dict) : Except ActiveJobLimitReached (Job × AuditLog) :=
  if kind ∉ backgroundJobKinds then
    let active := getActiveJobCount rows createdById backgroundJobKinds
    if active ≥ cap then .error { userId := createdById, count := active, limit := cap }
    else .ok (createJob id matterId createdById kind inputPayload)
  else .ok (createJob id matterId createdById kind inputPayload)

namespace Ceiling

/--
The committed jobs and audit rows, and those that each request has not committed yet.
-/
structure State where
  rows : List Job
  audit : List AuditLog
  pending : Nat → List (Job × AuditLog)

/--
What the requests and the workers may do. A call of `create_job` takes effect for others with the commit.
-/
inductive Event where
  | create (request : Nat) (id matterId : Uuid) (kind : PyStr) (inputPayload : Dict)
  | commit (request : Nat)
  | rollback (request : Nat)
  | start (id : Uuid)
  | finish (id : Uuid) (status : Status)

/--
The rows that the session of a request sees: the committed ones, and its own ones, which the session flushes
before it counts.
-/
def State.visible (s : State) (request : Nat) : List Job :=
  s.rows ++ (s.pending request).map Prod.fst

/--
The request has inserted a job.
-/
def State.add (s : State) (request : Nat) (created : Job × AuditLog) : State :=
  { s with pending := Function.update s.pending request (s.pending request ++ [created]) }

def startJob (id : Uuid) (job : Job) : Job :=
  if job.id = id && job.status = .queued then { job with status := .running } else job

def finishJob (id : Uuid) (status : Status) (job : Job) : Job :=
  if job.id = id && status.finished then { job with status := status } else job

section Exec

variable (cap : Int) (owner : Nat → Uuid)

/--
The call of `create_job` of an event.
-/
def State.call? (s : State) : Event → Option (Except ActiveJobLimitReached (Job × AuditLog))
  | .create request id matterId kind inputPayload =>
    some (createJobWithin cap (s.visible request) id matterId (owner request) kind inputPayload)
  | _ => none

def State.exec (s : State) : Event → State
  | .create request id matterId kind inputPayload =>
    match createJobWithin cap (s.visible request) id matterId (owner request) kind inputPayload with
    | .ok created => s.add request created
    | .error _ => s
  | .commit request =>
    {
      rows := s.rows ++ (s.pending request).map Prod.fst
      audit := s.audit ++ (s.pending request).map Prod.snd
      pending := Function.update s.pending request []
    }
  | .rollback request => { s with pending := Function.update s.pending request [] }
  | .start id => { s with rows := s.rows.map (startJob id) }
  | .finish id status => { s with rows := s.rows.map (finishJob id status) }

/--
A state, and for each request what it counted when it was let through last, and how many jobs of its user
have been committed and finished since.
-/
structure Trace where
  state : State
  counted : Nat → Nat
  committed : Nat → Nat
  finished : Nat → Nat

def activeOf (rows : List Job) (userId : Uuid) : Nat :=
  getActiveJobCount rows userId backgroundJobKinds

def Trace.initial (rows : List Job) : Trace where
  state := { rows := rows, audit := [], pending := fun _ => [] }
  counted _ := 0
  committed _ := 0
  finished _ := 0

def Trace.exec (trace : Trace) (event : Event) : Trace :=
  let before := trace.state
  let after := before.exec cap owner event
  match event with
  | .create request _ _ kind _ =>
    if kind ∉ backgroundJobKinds ∧ (activeOf (before.visible request) (owner request) : Int) < cap then
      {
        state := after
        counted := Function.update trace.counted request (activeOf (before.visible request) (owner request))
        committed := Function.update trace.committed request 0
        finished := Function.update trace.finished request 0
      }
    else { trace with state := after }
  | .commit request =>
    {
      trace with
      state := after
      committed := fun other =>
        trace.committed other + activeOf ((before.pending request).map Prod.fst) (owner other)
    }
  | .finish _ _ =>
    {
      trace with
      state := after
      finished := fun other =>
        trace.finished other + (activeOf before.rows (owner other) - activeOf after.rows (owner other))
    }
  | _ => { trace with state := after }

end Exec

section Count

variable {userId : Uuid}

theorem activeOf_append (rows rows' : List Job) (userId : Uuid)
    : activeOf (rows ++ rows') userId = activeOf rows userId + activeOf rows' userId :=
  List.countP_append

theorem activeOf_filter_interactive (rows : List Job) (userId : Uuid)
    : activeOf (rows.filter Job.interactive) userId = activeOf rows userId := by
  unfold activeOf getActiveJobCount Job.interactive
  rw [List.countP_filter]
  refine List.countP_congr fun job _ => ?_
  simp only [Bool.and_eq_true, and_iff_left_iff_imp]
  exact fun h => h.right

theorem activeOf_map_startJob (id : Uuid) (rows : List Job) (userId : Uuid)
    : activeOf (rows.map (startJob id)) userId = activeOf rows userId := by
  unfold activeOf getActiveJobCount
  rw [List.countP_map]
  refine List.countP_congr fun job _ => ?_
  simp only [Function.comp_apply, startJob]
  split
  . next h =>
    simp only [Bool.and_eq_true, decide_eq_true_eq] at h
    simp [h.right, Status.active]
  . exact Iff.rfl

theorem activeOf_map_finishJob_le (id : Uuid) (status : Status) (rows : List Job) (userId : Uuid)
    : activeOf (rows.map (finishJob id status)) userId ≤ activeOf rows userId := by
  unfold activeOf getActiveJobCount
  rw [List.countP_map]
  refine List.countP_mono_left fun job _ => ?_
  simp only [Function.comp_apply, finishJob]
  split
  . next h =>
    simp only [Bool.and_eq_true, decide_eq_true_eq] at h
    simp [Status.finished_eq_not_active] at h
    simp [h.right]
  . exact fun h => h

theorem activeOf_eq_zero {rows : List Job}
    (h : ∀ job ∈ rows, job.createdById = userId → job.interactive = false) : activeOf rows userId = 0 := by
  unfold activeOf getActiveJobCount
  rw [List.countP_eq_zero]
  intro job hjob hcounted
  simp only [Bool.and_eq_true, decide_eq_true_eq] at hcounted
  simpa [Job.interactive, hcounted.right] using h job hjob hcounted.left.left

/--
A request that is let through adds one to what it counted, or nothing if the job is a background job.
-/
theorem activeOf_createJob (id matterId userId : Uuid) (kind : PyStr) (inputPayload : Dict)
    : activeOf [(createJob id matterId userId kind inputPayload).1] userId
      = if kind ∈ backgroundJobKinds then 0 else 1 := by
  by_cases h : kind ∈ backgroundJobKinds <;>
    simp [activeOf, getActiveJobCount, createJob, Status.active, h]

end Count

section Limit

variable {cap : Int} {owner : Nat → Uuid} {userId : Uuid} {trace : Trace} {event : Event}

def Within (cap : Int) (userId : Uuid) (s : State) : Prop :=
  (activeOf s.rows userId : Int) ≤ cap

/--
A request of the user that commits an interactive job was let through with a count that leaves a slot, less
those that other requests have taken in the meantime and plus those that have become free.
-/
def SlotLeft (cap : Int) (owner : Nat → Uuid) (userId : Uuid) (trace : Trace) : Event → Prop
  | .commit request =>
    owner request = userId → (∃ created ∈ trace.state.pending request, created.1.interactive = true)
      → (trace.counted request + trace.committed request : Int) < cap + trace.finished request
  | _ => True

/--
The jobs of a request belong to its user and are queued, and what has happened since it counted accounts for
the number of active jobs.
-/
structure Inv (owner : Nat → Uuid) (trace : Trace) : Prop where
  owned : ∀ request, ∀ created ∈ trace.state.pending request,
    created.1.createdById = owner request ∧ created.1.status = .queued
  balance : ∀ request, (∃ created ∈ trace.state.pending request, created.1.interactive = true) →
    activeOf (trace.state.visible request) (owner request) + trace.finished request
      = trace.counted request + 1 + trace.committed request

theorem inv_initial (owner : Nat → Uuid) (rows : List Job) : Inv owner (.initial rows) where
  owned := fun _ _ h => absurd h List.not_mem_nil
  balance := fun _ ⟨_, h, _⟩ => absurd h List.not_mem_nil

@[simp]
theorem Trace.state_exec (cap : Int) (owner : Nat → Uuid) (trace : Trace) (event : Event)
    : (trace.exec cap owner event).state = trace.state.exec cap owner event := by
  unfold Trace.exec
  cases event with
  | create =>
    dsimp only
    split <;> rfl
  | _ => rfl

theorem createJobWithin_ok_iff {rows : List Job} {id matterId : Uuid} {kind : PyStr} {inputPayload : Dict}
    {created : Job × AuditLog}
    : createJobWithin cap rows id matterId userId kind inputPayload = .ok created
        ↔ (kind ∈ backgroundJobKinds ∨ (activeOf rows userId : Int) < cap)
          ∧ createJob id matterId userId kind inputPayload = created := by
  unfold createJobWithin activeOf
  by_cases hkind : kind ∈ backgroundJobKinds
  . simp [hkind]
  . by_cases hcap : (getActiveJobCount rows userId backgroundJobKinds : Int) < cap
    . simp [hkind, hcap, not_le.mpr hcap]
    . simp [hkind, hcap, not_lt.mp hcap]

theorem visible_add (s : State) (request other : Nat) (created : Job × AuditLog)
    : (s.add request created).visible other
      = if other = request then s.visible other ++ [created.1] else s.visible other := by
  unfold State.add State.visible
  by_cases heq : other = request
  . simp [heq]
  . simp [heq]

theorem Inv.create (h : Inv owner trace) (request : Nat) (id matterId : Uuid) (kind : PyStr)
    (inputPayload : Dict) : Inv owner (trace.exec cap owner (.create request id matterId kind inputPayload)) := by
  cases hresult : createJobWithin cap (trace.state.visible request) id matterId (owner request) kind
      inputPayload with
  | error e =>
    have hrefused : ¬ (kind ∉ backgroundJobKinds ∧ (activeOf (trace.state.visible request) (owner request) : Int) < cap) := by
      rintro ⟨_, hcap⟩
      rw [createJobWithin_ok_iff.mpr ⟨.inr hcap, rfl⟩] at hresult
      cases hresult
    have hexec : trace.exec cap owner (.create request id matterId kind inputPayload) = trace := by
      simp only [Trace.exec, if_neg hrefused, State.exec, hresult]
    rw [hexec]
    exact h
  | ok created =>
    have ⟨hlet, hcreated⟩ := createJobWithin_ok_iff.mp hresult
    have hstate : trace.state.exec cap owner (.create request id matterId kind inputPayload)
        = trace.state.add request created := by
      simp only [State.exec, hresult]
    have hvisible : activeOf (trace.state.visible request ++ [created.1]) (owner request)
        = activeOf (trace.state.visible request) (owner request) + if kind ∈ backgroundJobKinds then 0 else 1 := by
      rw [activeOf_append, ← hcreated, activeOf_createJob]
    constructor
    . rw [Trace.state_exec, hstate]
      intro other new hnew
      by_cases heq : other = request
      . simp only [State.add, heq, Function.update_self, List.mem_append, List.mem_singleton] at hnew ⊢
        rcases hnew with hnew | rfl
        . exact h.owned request new hnew
        . rw [← hcreated]
          exact ⟨rfl, rfl⟩
      . simp only [State.add, Function.update_of_ne heq] at hnew
        exact h.owned other new hnew
    . rw [Trace.state_exec, hstate]
      intro other hinteractive
      by_cases heq : other = request
      . subst heq
        rw [visible_add, if_pos rfl, hvisible]
        by_cases hkind : kind ∈ backgroundJobKinds
        . simp only [State.add, Function.update_self, List.mem_append, List.mem_singleton] at hinteractive
          obtain ⟨new, hnew | rfl, hnewKind⟩ := hinteractive
          . simpa [Trace.exec, hkind] using h.balance other ⟨new, hnew, hnewKind⟩
          . simp [← hcreated, Job.interactive, createJob, hkind] at hnewKind
        . simp [Trace.exec, hkind, hlet.resolve_left hkind]
      . simp only [State.add, Function.update_of_ne heq] at hinteractive
        have hbalance := h.balance other hinteractive
        rw [visible_add, if_neg heq]
        unfold Trace.exec
        dsimp only
        split <;> simpa [heq] using hbalance

theorem Inv.exec (h : Inv owner trace) (event : Event) : Inv owner (trace.exec cap owner event) := by
  cases event with
  | create request id matterId kind inputPayload => exact h.create request id matterId kind inputPayload
  | commit request =>
    constructor
    . intro other created hcreated
      simp only [Trace.state_exec, State.exec] at hcreated
      by_cases heq : other = request
      . simp [heq] at hcreated
      . rw [Function.update_of_ne heq] at hcreated
        exact h.owned other created hcreated
    . intro other hinteractive
      simp only [Trace.state_exec, State.exec] at hinteractive
      by_cases heq : other = request
      . simp [heq] at hinteractive
      . rw [Function.update_of_ne heq] at hinteractive
        have hbalance := h.balance other hinteractive
        simp only [State.visible, activeOf_append] at hbalance
        simp only [Trace.exec, State.exec, State.visible, Function.update_of_ne heq, activeOf_append]
        omega
  | rollback request =>
    constructor
    . intro other created hcreated
      simp only [Trace.state_exec, State.exec] at hcreated
      by_cases heq : other = request
      . simp [heq] at hcreated
      . rw [Function.update_of_ne heq] at hcreated
        exact h.owned other created hcreated
    . intro other hinteractive
      simp only [Trace.state_exec, State.exec] at hinteractive
      by_cases heq : other = request
      . simp [heq] at hinteractive
      . rw [Function.update_of_ne heq] at hinteractive
        have hbalance := h.balance other hinteractive
        simpa [Trace.exec, State.exec, State.visible, Function.update_of_ne heq] using hbalance
  | start id =>
    constructor
    . exact h.owned
    . intro other hinteractive
      have hbalance := h.balance other hinteractive
      simp only [State.visible, activeOf_append] at hbalance
      simp only [Trace.exec, State.exec, State.visible, activeOf_append, activeOf_map_startJob]
      exact hbalance
  | finish id status =>
    constructor
    . exact h.owned
    . intro other hinteractive
      have hbalance := h.balance other hinteractive
      have hle := activeOf_map_finishJob_le id status trace.state.rows (owner other)
      simp only [State.visible, activeOf_append] at hbalance
      simp only [Trace.exec, State.exec, State.visible, activeOf_append]
      omega

/--
One step: the limit stays kept exactly if a commit has a slot left.
-/
theorem within_exec_iff (h : Inv owner trace) (hwithin : Within cap userId trace.state)
    : Within cap userId (trace.exec cap owner event).state ↔ SlotLeft cap owner userId trace event := by
  rw [Trace.state_exec]
  unfold Within at hwithin ⊢
  cases event with
  | create request id matterId kind inputPayload =>
    refine iff_of_true ?_ trivial
    unfold State.exec
    dsimp only
    split <;> exact hwithin
  | commit request =>
    simp only [State.exec, SlotLeft]
    by_cases hinteractive : owner request = userId
        ∧ ∃ created ∈ trace.state.pending request, created.1.interactive = true
    . have hbalance := h.balance request hinteractive.right
      rw [hinteractive.left] at hbalance
      have hvisible : trace.state.rows ++ (trace.state.pending request).map Prod.fst
          = trace.state.visible request := rfl
      rw [hvisible]
      constructor
      . intro hle _ _
        omega
      . intro hslot
        have := hslot hinteractive.left hinteractive.right
        omega
    . have hzero : activeOf ((trace.state.pending request).map Prod.fst) userId = 0 := by
        refine activeOf_eq_zero fun job hjob hcreatedBy => ?_
        obtain ⟨created, hcreated, rfl⟩ := List.mem_map.mp hjob
        by_contra hkind
        refine hinteractive ⟨?_, created, hcreated, by simpa using hkind⟩
        exact (h.owned request created hcreated).left.symm.trans hcreatedBy
      rw [activeOf_append, hzero]
      exact iff_of_true hwithin fun howner hexists => absurd ⟨howner, hexists⟩ hinteractive
  | rollback request => exact iff_of_true hwithin trivial
  | start id =>
    refine iff_of_true ?_ trivial
    simpa only [State.exec, activeOf_map_startJob] using hwithin
  | finish id status =>
    refine iff_of_true ?_ trivial
    have hle := activeOf_map_finishJob_le id status trace.state.rows userId
    simp only [State.exec]
    omega

end Limit

section Background

variable (cap : Int) (owner : Nat → Uuid)

def Event.background : Event → Bool
  | .create _ _ _ kind _ => kind ∈ backgroundJobKinds
  | _ => false

/--
Whether an event is a call of `create_job` with an interactive kind that is refused, or one that is not.
-/
def State.refusal (s : State) (event : Event) : List (Option ActiveJobLimitReached) :=
  if event.background then []
  else
    match s.call? cap owner event with
    | none => []
    | some (.ok _) => [none]
    | some (.error e) => [some e]

def refusals (s : State) : List Event → List (Option ActiveJobLimitReached)
  | [] => []
  | event :: events => s.refusal cap owner event ++ refusals (s.exec cap owner event) events

/--
The interactive jobs are the same.
-/
structure SameInteractive (s t : State) : Prop where
  rows : s.rows.filter Job.interactive = t.rows.filter Job.interactive
  pending : ∀ request, ((s.pending request).map Prod.fst).filter Job.interactive
    = ((t.pending request).map Prod.fst).filter Job.interactive

variable {cap owner} {s t : State}

theorem SameInteractive.activeOf_visible (h : SameInteractive s t) (request : Nat) (userId : Uuid)
    : activeOf (s.visible request) userId = activeOf (t.visible request) userId := by
  rw [← activeOf_filter_interactive, ← activeOf_filter_interactive (t.visible request)]
  unfold State.visible
  rw [List.filter_append, List.filter_append, h.rows, h.pending]

theorem createJobWithin_congr {rows rows' : List Job} {userId : Uuid}
    (h : activeOf rows userId = activeOf rows' userId) (id matterId : Uuid) (kind : PyStr) (inputPayload : Dict)
    : createJobWithin cap rows id matterId userId kind inputPayload
      = createJobWithin cap rows' id matterId userId kind inputPayload := by
  unfold activeOf at h
  unfold createJobWithin
  rw [h]

theorem filter_interactive_map {f : Job → Job} (hf : ∀ job, (f job).kind = job.kind) (rows : List Job)
    : (rows.map f).filter Job.interactive = (rows.filter Job.interactive).map f := by
  rw [List.filter_map]
  congr 1
  refine List.filter_congr fun job _ => ?_
  simp [Job.interactive, hf]

theorem SameInteractive.map {f : Job → Job} (h : SameInteractive s t) (hf : ∀ job, (f job).kind = job.kind)
    : SameInteractive { s with rows := s.rows.map f } { t with rows := t.rows.map f } where
  rows := by
    dsimp only
    rw [filter_interactive_map hf, filter_interactive_map hf, h.rows]
  pending := h.pending

theorem SameInteractive.setPending (h : SameInteractive s t) (request : Nat) {created created' : List (Job × AuditLog)}
    (hsame : (created.map Prod.fst).filter Job.interactive = (created'.map Prod.fst).filter Job.interactive)
    : SameInteractive { s with pending := Function.update s.pending request created }
      { t with pending := Function.update t.pending request created' } where
  rows := h.rows
  pending other := by
    dsimp only
    by_cases heq : other = request
    . rw [heq, Function.update_self, Function.update_self, hsame]
    . rw [Function.update_of_ne heq, Function.update_of_ne heq, h.pending]

theorem SameInteractive.exec (h : SameInteractive s t) (event : Event)
    : SameInteractive (s.exec cap owner event) (t.exec cap owner event) := by
  cases event with
  | create request id matterId kind inputPayload =>
    unfold State.exec
    dsimp only
    rw [createJobWithin_congr (h.activeOf_visible request (owner request))]
    cases createJobWithin cap (t.visible request) id matterId (owner request) kind inputPayload with
    | error e => exact h
    | ok created =>
      refine h.setPending request ?_
      rw [List.map_append, List.map_append, List.filter_append, List.filter_append, h.pending]
  | commit request =>
    refine ⟨?_, (h.setPending request rfl).pending⟩
    dsimp only [State.exec]
    rw [List.filter_append, List.filter_append, h.rows, h.pending]
  | rollback request => exact h.setPending request rfl
  | start id =>
    refine h.map fun job => ?_
    unfold startJob
    split <;> rfl
  | finish id status =>
    refine h.map fun job => ?_
    unfold finishJob
    split <;> rfl

theorem SameInteractive.exec_background (h : SameInteractive s t) {event : Event} (hevent : event.background = true)
    : SameInteractive (s.exec cap owner event) t := by
  cases event with
  | create request id matterId kind inputPayload =>
    unfold State.exec
    dsimp only
    split
    . next created hcreated =>
      have hkind : created.1.interactive = false := by
        rw [← (createJobWithin_ok_iff.mp hcreated).right]
        have hevent : kind ∈ backgroundJobKinds := of_decide_eq_true hevent
        simp [Job.interactive, createJob, hevent]
      refine ⟨h.rows, fun other => ?_⟩
      dsimp only [State.add]
      by_cases heq : other = request
      . rw [heq, Function.update_self, List.map_append, List.filter_append, h.pending]
        simp [hkind]
      . rw [Function.update_of_ne heq, h.pending]
    . exact h
  | _ => cases hevent

theorem SameInteractive.refusal (h : SameInteractive s t) (event : Event)
    : s.refusal cap owner event = t.refusal cap owner event := by
  unfold State.refusal
  cases event with
  | create request id matterId kind inputPayload =>
    simp only [State.call?]
    rw [createJobWithin_congr (h.activeOf_visible request (owner request))]
  | _ => rfl

/--
The calls with background kinds do not change which interactive ones are refused.
-/
theorem refusals_filter (h : SameInteractive s t) (events : List Event)
    : refusals cap owner s events = refusals cap owner t (events.filter fun event => !event.background) := by
  induction events generalizing s t with
  | nil => rfl
  | cons event events ih =>
    rw [refusals]
    by_cases hbackground : event.background = true
    . rw [List.filter_cons_of_neg (by simp [hbackground]), ← ih (h.exec_background hbackground),
        State.refusal, if_pos hbackground, List.nil_append]
    . rw [List.filter_cons_of_pos (by simp [hbackground]), refusals, ih (h.exec event), h.refusal event]

theorem call?_of_background (s : State) {request : Nat} {kind : PyStr} (h : kind ∈ backgroundJobKinds)
    (id matterId : Uuid) (inputPayload : Dict)
    : s.call? cap owner (.create request id matterId kind inputPayload)
      = some (.ok (createJob id matterId (owner request) kind inputPayload)) := by
  simp only [State.call?, Option.some.injEq]
  exact createJobWithin_ok_iff.mpr ⟨.inl h, rfl⟩

end Background

section Run

variable (cap : Int) (owner : Nat → Uuid) (rows : List Job) (userId : Uuid)

/--
In all states of a run the user has no more active jobs than the limit, and background jobs are neither
refused nor change what is refused.
-/
structure Holds (events : List Event) : Prop where
  within : ∀ earlier, earlier <+: events →
    Within cap userId (earlier.foldl (Trace.exec cap owner) (.initial rows)).state
  background : ∀ (s : State) request id matterId inputPayload, ∀ kind ∈ backgroundJobKinds,
    s.call? cap owner (.create request id matterId kind inputPayload)
      = some (.ok (createJob id matterId (owner request) kind inputPayload))
  unaffected : refusals cap owner (Trace.initial rows).state events
    = refusals cap owner (Trace.initial rows).state (events.filter fun event => !event.background)

/--
The limit holds exactly if it does at the start and every commit of an interactive job has a slot left.
-/
theorem holds_iff_slotLeft (events : List Event)
    : Holds cap owner rows userId events
        ↔ Within cap userId (Trace.initial rows).state
          ∧ ∀ earlier event, earlier ++ [event] <+: events →
            SlotLeft cap owner userId (earlier.foldl (Trace.exec cap owner) (.initial rows)) event := by
  have hrun (hwithin : Within cap userId (Trace.initial rows).state) :=
    @Runs.holds_iff_good Trace Event (Trace.exec cap owner) (Inv owner)
      (fun trace => Within cap userId trace.state) (SlotLeft cap owner userId) (fun _ event h => h.exec event)
      (fun _ _ h hwithin => within_exec_iff h hwithin) (.initial rows) (inv_initial owner rows) hwithin events
  constructor
  . intro h
    have hwithin := h.within [] (List.nil_prefix)
    exact ⟨hwithin, (hrun hwithin).mp h.within⟩
  . rintro ⟨hwithin, hslot⟩
    refine ⟨(hrun hwithin).mpr hslot, ?_, refusals_filter ⟨rfl, fun _ => rfl⟩ events⟩
    exact fun s request id matterId inputPayload kind hkind => call?_of_background s hkind id matterId inputPayload

/--
Four requests that all count before the first of them commits.
-/
def fourExports : List Event :=
  (List.range 4).map (fun request => .create request (Uuid.ofNat (3 + request)) (Uuid.ofNat 1) (py "export") [])
    ++ (List.range 4).map .commit

theorem not_holds : ¬ ∀ events : List Event, Holds 3 (fun _ => (Uuid.ofNat 2)) [] (Uuid.ofNat 2) events := by
  intro h
  have hwithin := (h fourExports).within fourExports (List.prefix_refl _)
  have hfour : activeOf (fourExports.foldl (Trace.exec 3 (fun _ => (Uuid.ofNat 2))) (.initial [])).state.rows
      (Uuid.ofNat 2) = 4 := by
    decide +kernel
  unfold Within at hwithin
  rw [hfour] at hwithin
  exact absurd hwithin (by decide)

end Run

end Ceiling

end Jobs
