import Legalise.Audit.Canonical
import Legalise.Lib.Chain
import Legalise.Lib.Statements

/-!
This module contains `verify_audit_chain`, the second half of `app/core/audit_chain.py`, as a program
of read statements.
-/

namespace AuditChain

structure AuditChainIssue where
  code : PyStr
  message : PyStr
  auditEntryId : Option Uuid := none
  chainId : Option Nat := none

structure AuditChainVerification where
  ok : Bool
  auditEntryCount : Nat
  chainEntryCount : Nat
  scopesVerified : Nat
  issues : List AuditChainIssue

/--
`payload_text or "{}"`
-/
def payloadOrEmpty : Option PyStr → PyStr
  | some (c :: text) => c :: text
  | _ => py "\x7b\x7d"

/--
The `WHERE matter_id = ..` of the statements, which is missing when all scopes are verified.
-/
def selected (matterId : Option Uuid) (scope : Scope) : Bool :=
  match matterId with
  | none => true
  | some id => scope = .matter id

/--
`ORDER BY scope_type, matter_id, scope_sequence`: the scope type of the system sorts last.
-/
def scopeRank : Scope → Nat
  | .matter id => id.int
  | .system => 2 ^ 128

def chainOrder (a b : AuditChainEntry) : Bool :=
  scopeRank a.scope < scopeRank b.scope
    || scopeRank a.scope = scopeRank b.scope && a.scopeSequence ≤ b.scopeSequence

abbrev JoinedRow := AuditChainEntry × Option AuditEntry

/--
The chain rows of the selected scopes in order, outer joined to their audit entries.
-/
def joinedRows (matterId : Option Uuid) (tables : AuditTables) : List JoinedRow :=
  ((tables.chain.filter fun row => selected matterId row.scope).mergeSort chainOrder).map fun row =>
    (row, tables.findEntry row.auditEntryId)

def auditCount (matterId : Option Uuid) (tables : AuditTables) : Nat :=
  (tables.entries.filter fun entry => selected matterId entry.scope).length

def chainCount (matterId : Option Uuid) (tables : AuditTables) : Nat :=
  (tables.chain.filter fun row => selected matterId row.scope).length

def entryPayloadText (entryId : Uuid) : Stmts AuditTables PyStr := do
  let payloadText ← Stmts.select fun tables =>
    (tables.findEntry entryId).map fun entry => entry.payload.text.val
  return payloadOrEmpty payloadText

/--
`str` of a hash or `None`.
-/
def hashStr : Option PgHash → PyStr
  | none => py "None"
  | some hash => hash.val

/--
`str` of the tuple of a scope type and a matter id.
-/
def scopeStr (scope : Scope) : PyStr :=
  match scope.matterId with
  | some id => py "('" ++ scope.scopeType ++ py "', UUID('" ++ id.str ++ py "'))"
  | none => py "('" ++ scope.scopeType ++ py "', None)"

/--
An issue about a chain row that is reported unless a check holds.
-/
def issueUnless (ok : Bool) (code message : PyStr) (chain : AuditChainEntry) : List AuditChainIssue :=
  if ok then [] else [⟨code, message, some chain.auditEntryId, some chain.id⟩]

variable (H : Sha256)

/--
The checks of a chain row that need no audit entry.
-/
def linkIssues (previous : Option AuditChainEntry) (chain : AuditChainEntry) : List AuditChainIssue :=
  let expectedSequence := match previous with
    | none => 1
    | some previous => previous.scopeSequence + 1
  let expectedPrevious := previous.map AuditChainEntry.chainHash
  issueUnless (chain.chainVersion = auditChainVersion) (py "unsupported_chain_version")
    (py "expected " ++ pyInt auditChainVersion ++ py "; got " ++ pyInt chain.chainVersion) chain ++
  issueUnless (chain.scopeSequence = expectedSequence) (py "sequence_gap")
    (py "expected sequence " ++ pyInt expectedSequence ++ py "; got " ++ pyInt chain.scopeSequence)
    chain ++
  issueUnless (chain.previousChainHash = expectedPrevious) (py "previous_hash_mismatch")
    (py "expected " ++ hashStr expectedPrevious ++ py "; got " ++ hashStr chain.previousChainHash)
    chain

/--
The chain hash that the columns of a chain row give.
-/
def expectedChainHash (chain : AuditChainEntry) : PyStr :=
  chainLinkHash H chain.chainVersion chain.scope.scopeType chain.scope.matterId chain.scopeSequence
    chain.auditEntryId (chain.previousChainHash.map PgHash.val) chain.entryHash.val

/--
The checks of a chain row against its audit entry.
-/
def entryIssues (chain : AuditChainEntry) (entry : AuditEntry) (payloadText : PyStr)
    : List AuditChainIssue :=
  let expectedEntryHash := (AuditEntryCanonical.fromRow entry payloadText).entryHash H
  issueUnless (chain.scope = entry.scope) (py "scope_mismatch")
    (py "expected " ++ scopeStr entry.scope ++ py "; got " ++ scopeStr chain.scope) chain ++
  issueUnless (chain.entryHash.val = expectedEntryHash) (py "entry_hash_mismatch")
    (py "expected " ++ expectedEntryHash ++ py "; got " ++ chain.entryHash.val) chain ++
  issueUnless (chain.chainHash.val = expectedChainHash H chain) (py "chain_hash_mismatch")
    (py "expected " ++ expectedChainHash H chain ++ py "; got " ++ chain.chainHash.val) chain

/--
The body of the loop of `verify_audit_chain`.
-/
def verifyRow (previous : Option AuditChainEntry) (row : JoinedRow)
    : Stmts AuditTables (List AuditChainIssue) :=
  match row with
  | (chain, none) =>
    return linkIssues previous chain ++
      issueUnless false (py "missing_audit_entry") (py "chain row points at a missing audit entry")
        chain
  | (chain, some entry) => do
    let payloadText ← entryPayloadText entry.id
    return linkIssues previous chain ++ entryIssues H chain entry payloadText

/--
The loop of `verify_audit_chain`, with the last row seen of every scope.
-/
def verifyRows : (Scope → Option AuditChainEntry) → List JoinedRow
    → Stmts AuditTables (List AuditChainIssue)
  | _, [] => return []
  | previousByScope, row :: rows => do
    let issues ← verifyRow H (previousByScope row.fst.scope) row
    let rest ← verifyRows (Function.update previousByScope row.fst.scope (some row.fst)) rows
    return issues ++ rest

def countIssues (auditCount chainCount : Nat) : List AuditChainIssue :=
  if auditCount = chainCount then []
  else [{
      code := py "count_mismatch",
      message := py "audit_entries=" ++ pyNat auditCount ++ py "; audit_chain=" ++ pyNat chainCount
    }]

/--
Verify every chain row, or one matter scope when `matterId` is set.
-/
def verifyAuditChain (matterId : Option Uuid) : Stmts AuditTables AuditChainVerification := do
  let auditCount ← Stmts.select (auditCount matterId)
  let chainCount ← Stmts.select (chainCount matterId)
  let rows ← Stmts.select (joinedRows matterId)
  let rowIssues ← verifyRows H (fun _ => none) rows
  let issues := countIssues auditCount chainCount ++ rowIssues
  return {
    ok := issues.isEmpty,
    auditEntryCount := auditCount,
    chainEntryCount := chainCount,
    scopesVerified := (rows.map fun row => row.fst.scope).dedup.length,
    issues := issues
  }

end AuditChain
