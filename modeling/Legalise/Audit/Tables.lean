import Legalise.Postgres.Value

/-!
This module contains the tables `audit_entries` and `audit_chain`.
-/

structure AuditEntry where
  id : Uuid
  timestamp : Timestamp
  actorId : Option Uuid
  matterId : Option Uuid
  action : PgText
  module : Option PgText
  resourceType : Option PgText
  resourceId : Option PgText
  modelUsed : Option PgText
  promptHash : Option PgText
  responseHash : Option PgText
  tokenCount : Option Int
  latencyMs : Option Int
  tokensIn : Option Int
  tokensOut : Option Int
  costMicros : Option Int
  currency : Option PgText
  provider : Option PgText
  modelId : Option PgText
  payload : Jsonb

/--
The scope of a chain. The check constraints `ck_audit_chain_scope_type` and
`ck_audit_chain_scope_matter_consistency` leave no other combination of `scope_type` and
`matter_id`.
-/
inductive Scope where
  | matter (id : Uuid)
  | system
  deriving DecidableEq

namespace Scope

def scopeType : Scope → PyStr
  | .matter _ => py "matter"
  | .system => py "system"

def matterId : Scope → Option Uuid
  | .matter id => some id
  | .system => none

theorem utf8Encodable_scopeType (scope : Scope) : Utf8Encodable scope.scopeType := by
  cases scope <;> exact utf8Encodable_py _

end Scope

structure AuditChainEntry where
  id : Nat
  auditEntryId : Uuid
  scope : Scope
  scopeSequence : Int
  previousChainHash : Option PgHash
  entryHash : PgHash
  chainHash : PgHash
  chainVersion : Int
  deriving DecidableEq

/--
The scope that the chain row of an audit entry belongs to.
-/
def AuditEntry.scope (entry : AuditEntry) : Scope :=
  match entry.matterId with
  | none => .system
  | some id => .matter id

@[simp]
theorem AuditEntry.matterId_scope (entry : AuditEntry) : entry.scope.matterId = entry.matterId := by
  unfold AuditEntry.scope
  cases entry.matterId <;> rfl

theorem AuditEntry.scope_eq_matter_iff (entry : AuditEntry) (m : Uuid)
    : entry.scope = .matter m ↔ entry.matterId = some m := by
  unfold AuditEntry.scope
  cases entry.matterId <;> simp

/--
The rows of both tables that a statement sees.
-/
structure AuditTables where
  entries : List AuditEntry
  chain : List AuditChainEntry

namespace AuditTables

/--
The chain rows of a scope in the order of their sequence.
-/
def scopeRows (tables : AuditTables) (scope : Scope) : List AuditChainEntry :=
  (tables.chain.filter fun row => row.scope = scope).mergeSort fun a b =>
    a.scopeSequence ≤ b.scopeSequence

/--
The primary keys and the unique indexes. What is left of the other constraints is in the types of the
columns.
-/
structure Constraints (tables : AuditTables) : Prop where
  entries_id : (tables.entries.map AuditEntry.id).Nodup
  chain_id : (tables.chain.map AuditChainEntry.id).Nodup
  chain_auditEntryId : (tables.chain.map AuditChainEntry.auditEntryId).Nodup
  chain_scopeSequence : (tables.chain.map fun row => (row.scope, row.scopeSequence)).Nodup

/--
The audit entry with an id.
-/
def findEntry (tables : AuditTables) (id : Uuid) : Option AuditEntry :=
  tables.entries.find? fun entry => entry.id = id

theorem findEntry_eq_some_iff {tables : AuditTables} (h : (tables.entries.map AuditEntry.id).Nodup)
    (id : Uuid) (entry : AuditEntry)
    : tables.findEntry id = some entry ↔ entry ∈ tables.entries ∧ entry.id = id := by
  unfold findEntry
  constructor
  . intro hfind
    have hid := List.find?_some hfind
    exact ⟨List.mem_of_find?_eq_some hfind, by simpa using hid⟩
  . intro ⟨hmem, hid⟩
    cases hfind : tables.entries.find? fun entry => entry.id = id with
    | none =>
      rw [List.find?_eq_none] at hfind
      exact absurd hid (by simpa using hfind entry hmem)
    | some other =>
      have hother := List.find?_some hfind
      have hsame := List.inj_on_of_nodup_map h (List.mem_of_find?_eq_some hfind) hmem
        (by simpa [hid] using hother)
      rw [hsame]

theorem mem_scopeRows_iff (tables : AuditTables) (scope : Scope) (row : AuditChainEntry)
    : row ∈ tables.scopeRows scope ↔ row ∈ tables.chain ∧ row.scope = scope := by
  simp [scopeRows]

theorem pairwise_scopeRows (tables : AuditTables) (scope : Scope)
    : (tables.scopeRows scope).Pairwise fun a b => a.scopeSequence ≤ b.scopeSequence := by
  have := @List.pairwise_mergeSort _ (fun a b : AuditChainEntry =>
      decide (a.scopeSequence ≤ b.scopeSequence))
    (by simp only [decide_eq_true_eq]; omega) (by simp only [Bool.or_eq_true, decide_eq_true_eq]; omega)
    (tables.chain.filter fun row => row.scope = scope)
  simpa [scopeRows] using this

/--
The rows of a scope are determined by their order: any list of them that is sorted by the sequence
is `scopeRows`.
-/
theorem eq_scopeRows {tables : AuditTables}
    (h : (tables.chain.map fun row => (row.scope, row.scopeSequence)).Nodup) {scope : Scope}
    {rows : List AuditChainEntry}
    (hperm : List.Perm rows (tables.chain.filter fun row => row.scope = scope))
    (hsorted : rows.Pairwise fun a b => a.scopeSequence ≤ b.scopeSequence)
    : rows = tables.scopeRows scope := by
  apply List.Perm.eq_of_pairwise ?_ hsorted (tables.pairwise_scopeRows scope)
  . exact hperm.trans (List.mergeSort_perm _ _).symm
  . intro a b ha hb hab hba
    have ha := List.mem_filter.mp (hperm.mem_iff.mp ha)
    have hb := (tables.mem_scopeRows_iff scope b).mp hb
    apply List.inj_on_of_nodup_map h ha.left hb.left
    have hscope : a.scope = scope := by simpa using ha.right
    rw [hscope, hb.right, Int.le_antisymm hab hba]

end AuditTables
