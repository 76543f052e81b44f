import Legalise.Capabilities.Grants

/-!
This module contains the sweep that purges matters past their retention date: the query that selects them, and
the loop that purges one after the other in one session.
-/

namespace RetentionSweep

open Capabilities (GrantTable Deletion GrantError tombstoneMatter)

/--
A day, as its ordinal.
-/
abbrev Date := Nat

def statusArchived : PyStr := py "archived"

structure Matter where
  id : Uuid
  slug : PyStr
  title : PyStr
  retentionUntil : Option Date
  status : PyStr
  deriving DecidableEq

/--
What is committed. The matters are keyed by their ids.
-/
structure Database where
  matters : List Matter
  ids : (matters.map Matter.id).Nodup
  grants : GrantTable
  audit : List AuditLog

/--
A matter after its tombstone is committed.
-/
def Matter.archive (m : Matter) : Matter :=
  { m with status := statusArchived }

namespace Database

/--
The update of one row of `matters`.
-/
def archive (db : Database) (id : Uuid) : List Matter :=
  db.matters.map fun m => if m.id = id then m.archive else m

theorem ids_archive (db : Database) (id : Uuid) : (db.archive id).map Matter.id = db.matters.map Matter.id := by
  unfold archive
  rw [List.map_map]
  apply List.map_congr_left
  intro m _
  show (if m.id = id then m.archive else m).id = m.id
  split <;> rfl

end Database

section Select

variable (today : Date)

/--
The filter of the selection.
-/
def Matter.isExpired (m : Matter) : Bool :=
  m.retentionUntil.any (· < today) && m.status ≠ statusArchived

/--
The order of the selection. The database may put matters with the same date in any order.
-/
def Matter.retentionLE (m other : Matter) : Prop :=
  m.retentionUntil.getD 0 ≤ other.retentionUntil.getD 0

/--
A result of `_select_expired`.
-/
def SelectsExpired (limit : Option Nat) (db : Database) (selected : List Matter) : Prop :=
  ∃ ordered : List Matter, ordered.Perm (db.matters.filter (Matter.isExpired today))
    ∧ ordered.Pairwise Matter.retentionLE ∧ selected = ordered.take (limit.getD ordered.length)

end Select

section Purge

/--
What happens to the purge of one matter: what the queries about its jobs return, whether its objects can be
deleted, and whether a statement or the commit fails.
-/
structure Attempt where
  activeCount : Nat := 0
  exportCount : Nat := 0
  storageDeleted : Bool := true
  statementFails : Bool := false
  commitFails : Bool := false
  failure : PyStr := []

def Attempt.Purges (a : Attempt) : Prop :=
  a.activeCount = 0 ∧ a.storageDeleted = true ∧ a.statementFails = false ∧ a.commitFails = false

instance (a : Attempt) : Decidable a.Purges :=
  inferInstanceAs (Decidable (_ ∧ _))

inductive PurgeError where
  | matterHasActiveJobs (activeCount : Nat)
  | exception (failure : PyStr)

variable (isoformat : Date → PyStr)

/--
The call of `tombstone_matter` for a matter.
-/
def deletion (a : Attempt) (m : Matter) : Deletion where
  matterId := m.id
  slug := m.slug
  title := m.title
  actorId := none
  action := py "matter.retention.purged"
  payload := [(py "retention_until", (m.retentionUntil.map fun day => Json.str (isoformat day)).getD .null),
    (py "purged_by", .str (py "retention_sweep"))]
  activeCount := a.activeCount
  exportCount := a.exportCount
  storageDeleted := a.storageDeleted

/--
The body of the `try` of one iteration: the tombstone and its commit.
-/
def purge (db : Database) (a : Attempt) (m : Matter) : Except PurgeError Database :=
  if a.statementFails then .error (.exception a.failure)
  else
    match tombstoneMatter db.grants (deletion isoformat a m) with
    | .error (.matterHasActiveJobs activeCount) => .error (.matterHasActiveJobs activeCount)
    | .error _ => .error (.exception a.failure)
    | .ok (grants, audit) =>
      if a.commitFails then .error (.exception a.failure)
      else
        .ok {
          matters := db.archive m.id
          ids := by rw [db.ids_archive]; exact db.ids
          grants := grants
          audit := db.audit ++ audit
        }

end Purge

section Loop

/--
The loop between two iterations. `expired` says whether the session has expired the instances that it has
loaded, which a rollback does.
-/
structure Loop where
  db : Database
  expired : Bool := false
  attempted : List Uuid := []
  purged : Nat := 0
  failed : Nat := 0
  stdout : List PyStr := []
  stderr : List PyStr := []

variable (isoformat : Date → PyStr)

/--
One iteration whose matter could be read.
-/
def Loop.attempt (a : Attempt) (m : Matter) (s : Loop) : Loop :=
  let s := { s with attempted := s.attempted ++ [m.id] }
  match purge isoformat s.db a m with
  | .ok db =>
    { s with db := db, purged := s.purged + 1, stdout := s.stdout ++ [py "  purged " ++ m.slug] }
  | .error (.matterHasActiveJobs activeCount) =>
    {
      s with
      expired := true
      failed := s.failed + 1
      stderr := s.stderr ++ [py "  SKIPPED " ++ m.slug ++ py ": matter has " ++ pyNat activeCount
        ++ py " active job(s) — purge later once jobs finish"]
    }
  | .error (.exception failure) =>
    {
      s with
      expired := true
      failed := s.failed + 1
      stderr := s.stderr ++ [py "  FAILED " ++ m.slug ++ py ": " ++ failure]
    }

/--
The loop over the selected matters, and whether it gets to its end. `matter.slug` is read outside the `try`, and
reading an expired instance raises.
-/
def purgeAll (attempts : Matter → Attempt) : List Matter → Loop → Loop × Bool
  | [], s => (s, true)
  | m :: rest, s =>
    if s.expired then (s, false)
    else purgeAll attempts rest (s.attempt isoformat (attempts m) m)

end Loop

section Sweep

variable (isoformat : Date → PyStr) (today : Date)

def exitOk : Nat := 0

def exitPartial : Nat := 2

/--
What a sweep leaves. There is no exit code when it raises.
-/
structure Swept where
  loop : Loop
  exitCode : Option Nat

def header (mode : PyStr) (limit : Option Nat) (selected : List Matter) : PyStr :=
  let capNote := match limit with
    | some limit =>
      if selected.length = limit then py " (capped at --limit " ++ pyNat limit ++ py "; re-run for more)" else []
    | none => []
  py "retention sweep (" ++ isoformat today ++ py ") [" ++ mode ++ py "]: " ++ pyNat selected.length
    ++ py " matter(s) past retention" ++ capNote ++ py ":"

def listed (m : Matter) : PyStr :=
  let retentionUntil := m.retentionUntil.getD 0
  py "  - " ++ m.slug ++ py " (id=" ++ m.id.str ++ py ") retention_until=" ++ isoformat retentionUntil
    ++ py " overdue=" ++ pyNat (today - retentionUntil) ++ py "d status=" ++ m.status

def summary (purged failed : Nat) : PyStr :=
  py "\nretention sweep done: purged=" ++ pyNat purged ++ py " failed=" ++ pyNat failed

/--
`_sweep`, given what it selects.
-/
def sweep (attempts : Matter → Attempt) (apply : Bool) (limit : Option Nat) (selected : List Matter)
    (db : Database) : Swept :=
  if selected.isEmpty then
    ⟨{
      db := db
      stdout := [py "retention sweep (" ++ isoformat today
        ++ py "): 0 matters past retention. Nothing to do."]
    }, some exitOk⟩
  else
    let mode := if apply then py "APPLY" else py "DRY-RUN"
    let printed := header isoformat today mode limit selected :: selected.map (listed isoformat today)
    if !apply then
      ⟨{
        db := db
        stdout := printed ++ [py "\nDRY-RUN: nothing changed. Re-run with --apply to purge."]
      }, some exitOk⟩
    else
      match purgeAll isoformat attempts selected { db := db, stdout := printed } with
      | (s, false) => ⟨s, none⟩
      | (s, true) =>
        ⟨{ s with stdout := s.stdout ++ [summary s.purged s.failed] },
          some (if s.failed = 0 then exitOk else exitPartial)⟩

end Sweep

end RetentionSweep
