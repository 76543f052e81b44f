import Legalise.Audit.Canonical
import Legalise.Lib.Transition

/-!
This module contains the trigger `audit_chain_append_for_entry` of the migration
`0030_audit_hash_chain.py`, run by concurrent transactions under `READ COMMITTED`.
-/

namespace AuditChain

/--
The arguments of `pg_advisory_xact_lock`. Nothing is known about `hashtext`.
-/
def lockKey (hashtext : PyStr → Int) (scope : Scope) : Int × Int :=
  (hashtext scope.scopeType, hashtext ((scope.matterId.map Uuid.out).getD (py "system")))

/--
The `chain_hash` and the `scope_sequence` of the last row of a scope among the visible ones.
-/
def selectPrevious (visible : List AuditChainEntry) (scope : Scope) : Option (PgHash × Int) :=
  let rows := (visible.filter fun row => row.scope = scope).mergeSort fun a b =>
    b.scopeSequence ≤ a.scopeSequence
  rows.head?.map fun row => (row.chainHash, row.scopeSequence)

/--
The row that the trigger inserts for an audit entry.
-/
def appendedRow (H : Sha256) (id : Nat) (new : AuditEntry) (previous : Option (PgHash × Int))
    : AuditChainEntry :=
  let scope := new.scope
  let previousHash := previous.map Prod.fst
  let sequence := (previous.map Prod.snd).getD 0 + 1
  let entryHash := auditChainEntryHash H new
  let chainHash := auditChainLinkHash H 1 scope.scopeType scope.matterId sequence new.id
    (previousHash.map fun hash => bpcharText hash.val) (bpcharText entryHash.val)
  {
    id := id,
    auditEntryId := new.id,
    scope := scope,
    scopeSequence := sequence,
    previousChainHash := previousHash,
    entryHash := entryHash,
    chainHash := chainHash,
    chainVersion := 1
  }

/--
How far the trigger of a row has come: its statements see different snapshots.
-/
inductive Phase where
  | ready
  | locked
  | selected (previous : Option (PgHash × Int))

/--
A transaction. The rows of an `INSERT` wait in the queue until their triggers run one after the
other.
-/
structure Session where
  entries : List AuditEntry := []
  chain : List AuditChainEntry := []
  queue : List AuditEntry := []
  phase : Phase := .ready
  locks : List (Int × Int) := []

/--
All rows that a transaction has inserted into `audit_entries`.
-/
def Session.inserted (session : Session) : List AuditEntry :=
  session.entries ++ session.queue

structure Db where
  committed : AuditTables
  nextChainId : Nat
  sessions : Nat → Session

namespace Db

def empty : Db where
  committed := ⟨[], []⟩
  nextChainId := 1
  sessions := fun _ => {}

def setSession (db : Db) (t : Nat) (session : Session) : Db :=
  { db with sessions := Function.update db.sessions t session }

/--
No row that is committed or inserted by a running transaction has this id.
-/
def Unused (db : Db) (id : Uuid) : Prop :=
  (∀ entry ∈ db.committed.entries, entry.id ≠ id)
    ∧ ∀ t, ∀ entry ∈ (db.sessions t).inserted, entry.id ≠ id

end Db

variable (H : Sha256) (hashtext : PyStr → Int)

/--
What a transaction can do next. Ids and values of the inserted rows are up to the writers, locks are
kept until the end of the transaction, and the sequence of chain ids is not rolled back.
-/
inductive TxStep (t : Nat) (db : Db) : Db → Prop where
  | insert (rows : List AuditEntry) (hphase : (db.sessions t).phase = .ready)
    (hqueue : (db.sessions t).queue = []) (hwritten : ∀ row ∈ rows, AsWritten row)
    (hunused : ∀ row ∈ rows, db.Unused row.id) (hdistinct : (rows.map AuditEntry.id).Nodup)
    : TxStep t db (db.setSession t { db.sessions t with queue := rows })
  | lock (new : AuditEntry) (queue : List AuditEntry) (hphase : (db.sessions t).phase = .ready)
    (hqueue : (db.sessions t).queue = new :: queue)
    (hfree : ∀ u, u ≠ t → lockKey hashtext new.scope ∉ (db.sessions u).locks)
    : TxStep t db (db.setSession t {
        db.sessions t with
        phase := .locked,
        locks := lockKey hashtext new.scope :: (db.sessions t).locks
      })
  | select (new : AuditEntry) (queue : List AuditEntry) (hphase : (db.sessions t).phase = .locked)
    (hqueue : (db.sessions t).queue = new :: queue)
    : TxStep t db (db.setSession t {
        db.sessions t with
        phase :=
          .selected (selectPrevious (db.committed.chain ++ (db.sessions t).chain) new.scope)
      })
  | append (new : AuditEntry) (queue : List AuditEntry) (previous : Option (PgHash × Int))
    (hphase : (db.sessions t).phase = .selected previous)
    (hqueue : (db.sessions t).queue = new :: queue)
    : TxStep t db {
        db.setSession t {
          db.sessions t with
          entries := (db.sessions t).entries ++ [new],
          chain := (db.sessions t).chain ++ [appendedRow H db.nextChainId new previous],
          queue := queue,
          phase := .ready
        } with
        nextChainId := db.nextChainId + 1
      }
  | commit (hqueue : (db.sessions t).queue = [])
    : TxStep t db {
        db.setSession t {} with
        committed := {
          entries := db.committed.entries ++ (db.sessions t).entries,
          chain := db.committed.chain ++ (db.sessions t).chain
        }
      }
  | rollback : TxStep t db (db.setSession t {})

def Step (db db' : Db) : Prop :=
  ∃ t, TxStep H hashtext t db db'

/--
The states that trigger-driven appends lead to.
-/
def Reachable (db : Db) : Prop :=
  Transition.Reachable (fun db => db = .empty) (Step H hashtext) db

end AuditChain
