import Legalise.Audit.Log
import Legalise.Lib.Transition

/-!
This module contains the row of a job and everything that writes it: the request that creates and
enqueues it, and the deliveries of its id to workers. A delivery runs in two sessions, and other
deliveries and the request may commit between any two of its commits.
-/

namespace Jobs

inductive Status where
  | queued
  | running
  | succeeded
  | failed
  | cancelled
  deriving DecidableEq

namespace Status

def value : Status → PyStr
  | .queued => py "queued"
  | .running => py "running"
  | .succeeded => py "succeeded"
  | .failed => py "failed"
  | .cancelled => py "cancelled"

/--
`JOB_ACTIVE_STATUSES`
-/
def active (status : Status) : Bool :=
  status = .queued || status = .running

/--
The statuses at the end of the lifecycle that the model of the table names.
-/
def finished (status : Status) : Bool :=
  status = .succeeded || status = .failed || status = .cancelled

/--
`action_suffix`
-/
def actionSuffix : Status → PyStr
  | .running => py "started"
  | .succeeded => py "completed"
  | .failed => py "failed"
  | .cancelled => py "cancelled"
  | .queued => py "queued"

theorem finished_eq_not_active (status : Status) : status.finished = !status.active := by
  cases status <;> rfl

end Status

structure Job where
  id : Uuid
  matterId : Uuid
  createdById : Uuid
  kind : PyStr
  status : Status := .queued
  stage : Option PyStr := none
  progress : Option Int := none
  inputPayload : Dict
  resultPayload : Option (List (PyStr × PyStr)) := none
  errorCode : Option PyStr := none
  errorMessage : Option PyStr := none
  startedAt : Option Timestamp := none
  finishedAt : Option Timestamp := none

/--
`_module_name`
-/
def moduleName (kind : PyStr) : PyStr := kind

def Job.log (job : Job) (suffix : PyStr) (payload : Dict) : AuditLog where
  action := py "module." ++ moduleName job.kind ++ py ".job." ++ suffix
  actorId := some job.createdById
  matterId := some job.matterId
  module := some (moduleName job.kind)
  resourceType := some (py "job")
  resourceId := some job.id.str
  payload := payload

/--
`create_job` of a user below the limit of active jobs.
-/
def createJob (id matterId createdById : Uuid) (kind : PyStr) (inputPayload : Dict)
    : Job × AuditLog :=
  let job : Job := {
    id := id, matterId := matterId, createdById := createdById, kind := kind,
    inputPayload := inputPayload
  }
  (job, job.log (py "queued") [(py "kind", .str kind), (py "job_id", .str id.str)])

/--
What a call of `update_status` sets besides the status.
-/
structure Details where
  stage : Option PyStr := none
  progress : Option Int := none
  resultPayload : Option (List (PyStr × PyStr)) := none
  errorCode : Option PyStr := none
  errorMessage : Option PyStr := none

/--
An item of a payload that is left out when its value is `None` or empty.
-/
def itemOf (key : PyStr) : Option PyStr → Dict
  | some value => if value.isEmpty then [] else [(key, .str value)]
  | none => []

/--
`update_status`: the job in memory and the audit row that is written with it.
-/
def updateStatus (now : Timestamp) (job : Job) (status : Status) (details : Details)
    : Job × AuditLog :=
  let job := {
    job with
    status := status
    startedAt := if status = .running then some now else job.startedAt
    finishedAt := if status.finished then some now else job.finishedAt
    stage := details.stage <|> job.stage
    progress := details.progress <|> job.progress
    resultPayload := details.resultPayload <|> job.resultPayload
    errorCode := details.errorCode <|> job.errorCode
    errorMessage := details.errorMessage <|> job.errorMessage
  }
  (
    job,
    job.log status.actionSuffix (
      [(py "job_id", .str job.id.str), (py "status", .str status.value)]
        ++ itemOf (py "error_code") details.errorCode
        ++ itemOf (py "error_message") details.errorMessage
    )
  )

/--
`update_stage`
-/
def updateStage (job : Job) (stage : PyStr) (progress : Option Int) : Job :=
  { job with stage := some stage, progress := progress <|> job.progress }

/--
The value that a column has after a commit. The session writes it only if it has changed since the
session loaded it.
-/
def written {α : Type} [DecidableEq α] (loaded current stored : α) : α :=
  if current = loaded then stored else current

/--
The row after a session has committed a job.
-/
def Job.commit (row loaded current : Job) : Job := {
  row with
  status := written loaded.status current.status row.status
  stage := written loaded.stage current.stage row.stage
  progress := written loaded.progress current.progress row.progress
  resultPayload := written loaded.resultPayload current.resultPayload row.resultPayload
  errorCode := written loaded.errorCode current.errorCode row.errorCode
  errorMessage := written loaded.errorMessage current.errorMessage row.errorMessage
  startedAt := written loaded.startedAt current.startedAt row.startedAt
  finishedAt := written loaded.finishedAt current.finishedAt row.finishedAt
}

/--
The length of the column `error_message`. A commit of a longer text fails.
-/
def maxErrorMessage : Nat := 2048

/--
The stage that the pipeline of a job's kind commits first, or the text of the exception that
`_dispatch` raises before that.
-/
def dispatchStage (job : Job) : Except PyStr (PyStr × Int) :=
  if job.kind = py "export" then .ok (py "building_zip", 10)
  else if job.kind = py "index" then
    if (Dict.get job.inputPayload (py "document_id")).truthy then .ok (py "embedding", 50)
    else .error (py "index job is missing input_payload['document_id']")
  else .error (py "unknown job kind: " ++ job.kind)

/--
Where a delivery of the job's id is, with the job as its session has loaded it.
-/
inductive Phase where
  | idle
  | selected (loaded : Job)
  | started
  | dispatching (loaded : Job)
  | piping (loaded : Job)

/--
A delivery has made its first commit and not its last one.
-/
def Phase.inProgress : Phase → Bool
  | .idle => false
  | .selected _ => false
  | .started => true
  | .dispatching _ => true
  | .piping _ => true

/--
Where the request that creates the job is.
-/
inductive Api where
  | enqueueing (loaded : Job)
  | done

/--
The committed rows of one job, what its pipelines have committed, and the parties that may write.
-/
structure State (E : Type) where
  row : Job
  audit : List AuditLog
  effects : List E
  deliveries : Nat → Phase
  api : Api

/--
What may happen next. A delivery that ends may be followed by another one under the same number.
-/
inductive Event (E : Type) where
  /-- A worker gets the id and selects the row, which may not be visible yet. -/
  | deliver (d : Nat) (visible : Bool)
  /-- The first session looks for the matter and commits. -/
  | begin (d : Nat) (now : Timestamp) (matterFound : Bool)
  /-- The second session selects the job and the matter. -/
  | reselect (d : Nat) (visible : Bool)
  /-- `_dispatch` gets to the first commit of a pipeline, or finds that there is none to run. -/
  | dispatch (d : Nat) (now : Timestamp)
  /-- `_dispatch` raises, after the pipeline has changed what the terminal commit will write. -/
  | fail (d : Nat) (now : Timestamp) (exc : PyStr) (effect : Option E)
  /-- The pipeline returns. -/
  | succeed (d : Nat) (now : Timestamp) (resultPayload : List (PyStr × PyStr)) (effect : E)
  /-- The worker stops or runs into the timeout, or its commit fails. -/
  | crash (d : Nat)
  /-- The push to the queue succeeds, or the process of the request stops. -/
  | pushed
  /-- The push raises an exception of the named type. -/
  | pushFailed (now : Timestamp) (exc : PyStr)

section Steps

variable {E : Type}

/--
The first states: the request has committed the row.
-/
def State.created (id matterId createdById : Uuid) (kind : PyStr) (inputPayload : Dict) : State E :=
  let (job, entry) := createJob id matterId createdById kind inputPayload
  {
    row := job
    audit := [entry]
    effects := []
    deliveries := fun _ => .idle
    api := .enqueueing job
  }

def State.setPhase (s : State E) (d : Nat) (phase : Phase) : State E :=
  { s with deliveries := Function.update s.deliveries d phase }

/--
A session sets the status of the job that it has loaded and commits. The text of the error has to fit
into its column.
-/
def State.commitStatus (s : State E) (now : Timestamp) (loaded : Job) (status : Status)
    (details : Details) (effects : List E) : Option (State E) :=
  if (details.errorMessage.getD []).length ≤ maxErrorMessage then
    let (job, entry) := updateStatus now loaded status details
    some {
      s with
      row := s.row.commit loaded job
      audit := s.audit ++ [entry]
      effects := s.effects ++ effects
    }
  else none

/--
The end of a delivery whose pipeline has raised. A commit that fails ends it too.
-/
def State.failDelivery (s : State E) (d : Nat) (now : Timestamp) (loaded : Job) (exc : PyStr)
    (effects : List E) : State E :=
  (s.setPhase d .idle |>.commitStatus now loaded .failed
    { errorCode := some (py "pipeline_error"), errorMessage := some exc } effects).getD
      (s.setPhase d .idle)

/--
What happens at an event, unless the parties are not there yet.
-/
def step (s : State E) : Event E → Option (State E)
  | .deliver d visible =>
    match s.deliveries d with
    | .idle => some (if visible then s.setPhase d (.selected s.row) else s)
    | _ => none
  | .begin d now matterFound =>
    match s.deliveries d with
    | .selected loaded =>
      if matterFound then s.setPhase d .started |>.commitStatus now loaded .running {} []
      else
        s.setPhase d .idle |>.commitStatus now loaded .failed
          {
            errorCode := some (py "matter_not_found")
            errorMessage := some (py "matter " ++ loaded.matterId.str ++ py " not found")
          } []
    | _ => none
  | .reselect d visible =>
    match s.deliveries d with
    | .started => some (s.setPhase d (if visible then .dispatching s.row else .idle))
    | _ => none
  | .dispatch d now =>
    match s.deliveries d with
    | .dispatching loaded =>
      match dispatchStage loaded with
      | .ok (stage, progress) =>
        let job := updateStage loaded stage (some progress)
        some { s.setPhase d (.piping job) with row := s.row.commit loaded job }
      | .error exc => some (s.failDelivery d now loaded exc [])
    | _ => none
  | .fail d now exc effect =>
    match s.deliveries d with
    | .dispatching loaded | .piping loaded =>
      some (s.failDelivery d now loaded exc effect.toList)
    | _ => none
  | .succeed d now resultPayload effect =>
    match s.deliveries d with
    | .piping loaded =>
      s.setPhase d .idle |>.commitStatus now loaded .succeeded
        {
          stage := some (py "complete"), progress := some 100,
          resultPayload := some resultPayload
        } [effect]
    | _ => none
  | .crash d => some (s.setPhase d .idle)
  | .pushed =>
    match s.api with
    | .enqueueing _ => some { s with api := .done }
    | .done => none
  | .pushFailed now exc =>
    match s.api with
    | .enqueueing loaded =>
      { s with api := .done }.commitStatus now loaded .failed
        {
          errorCode := some (py "enqueue_failed")
          errorMessage := some (py "Failed to enqueue " ++ loaded.kind ++ py " job: " ++ exc)
        } []
    | .done => none

/--
The states that some sequence of events leads to.
-/
def run (s : State E) : List (Event E) → Option (State E)
  | [] => some s
  | e :: events => (step s e).bind fun t => run t events

/--
The rows that say how the job ended.
-/
def State.closingRows (s : State E) : List AuditLog :=
  s.audit.filter fun entry =>
    entry.action = (s.row.log (py "completed") []).action
      || entry.action = (s.row.log (py "failed") []).action

end Steps

end Jobs
