import Legalise.Audit.Chain
import Legalise.ExportChainVerifier.Basic
import Legalise.Python.JsonRoundTrip

/-!
This module contains the part of `build_matter_export` in `app/core/exports.py` that writes
`audit.json` and `audit_chain.json`.
-/

namespace Exports

open AuditChain

def strOrNone : Option PyStr → Json
  | none => .null
  | some s => .str s

def intOrNone : Option Int → Json
  | none => .null
  | some n => .int n

/--
The rows of the first statement. Rows of equal timestamps may come in any order, and are left in the
one they are stored in.
-/
def auditRows (matterId : Uuid) (tables : AuditTables) : List AuditEntry :=
  (tables.entries.filter fun entry => entry.matterId = some matterId).mergeSort fun a b =>
    a.timestamp.rank ≤ b.timestamp.rank

def auditItem (a : AuditEntry) : Dict :=
  [
    (py "id", .str a.id.str),
    (py "timestamp", .str a.timestamp.isoformat),
    (py "actor_id", strOrNone (a.actorId.map Uuid.str)),
    (py "action", .str a.action.val),
    (py "module", strOrNone (a.module.map PgText.val)),
    (py "resource_type", strOrNone (a.resourceType.map PgText.val)),
    (py "resource_id", strOrNone (a.resourceId.map PgText.val)),
    (py "model_used", strOrNone (a.modelUsed.map PgText.val)),
    (py "token_count", intOrNone a.tokenCount),
    (py "payload", a.payload.value)
  ]

def auditList (rows : List AuditEntry) : Json :=
  .list (rows.map fun a => .dict (auditItem a))

/--
A chain row with the audit entry it is joined to and the text of its payload.
-/
structure ChainRow where
  chain : AuditChainEntry
  entry : AuditEntry
  payloadText : PyStr

/--
The rows of the second statement, an inner join.
-/
def chainRows (matterId : Uuid) (tables : AuditTables) : List ChainRow :=
  (tables.scopeRows (.matter matterId)).filterMap fun chain =>
    (tables.findEntry chain.auditEntryId).map fun entry => ⟨chain, entry, entry.payload.text.val⟩

def chainEntry (row : ChainRow) : Dict :=
  let canonical := AuditEntryCanonical.fromRow row.entry (payloadOrEmpty (some row.payloadText))
  canonical.canonicalFields.map (fun item => (item.fst, strOrNone item.snd)) ++ [
    (py "scope_type", .str row.chain.scope.scopeType),
    (py "scope_sequence", .int row.chain.scopeSequence),
    (py "chain_version", .int row.chain.chainVersion),
    (py "previous_chain_hash", strOrNone (row.chain.previousChainHash.map PgHash.val)),
    (py "entry_hash", .str row.chain.entryHash.val),
    (py "chain_hash", .str row.chain.chainHash.val)
  ]

def chainHead (chainEntries : List Dict) : Json :=
  match chainEntries.getLast? with
  | none => .null
  | some last =>
    .dict [
      (py "chain_hash", last.get (py "chain_hash")),
      (py "scope_sequence", last.get (py "scope_sequence")),
      (py "entry_count", .int chainEntries.length),
      (py "timestamp", last.get (py "timestamp"))
    ]

def howToVerify : PyStr :=
  py "Run `python verify_chain.py` from the unpacked export. It needs only a standard Python 3 install."

def chainDoc (matterId : Uuid) (exportedAt : Timestamp) (rows : List ChainRow) : Dict :=
  let chainEntries := rows.map chainEntry
  [
    (py "format", .str (py "legalise-audit-chain-export-v1")),
    (py "scope_type", .str (py "matter")),
    (py "matter_id", .str matterId.str),
    (py "exported_at", .str exportedAt.isoformat),
    (py "entry_count", .int chainEntries.length),
    (py "head", chainHead chainEntries),
    (py "how_to_verify", .str howToVerify),
    (py "entries", .list (chainEntries.map .dict))
  ]

/--
The texts of the two files.
-/
structure AuditFiles where
  audit : PyStr
  auditChain : PyStr

/--
The two statements of `build_matter_export` about the audit trail and the files it makes of them.
-/
def buildAuditFiles (R : PyRepr) (matterId : Uuid) (exportedAt : Timestamp)
    : Stmts AuditTables AuditFiles := do
  let auditRows ← Stmts.select (auditRows matterId)
  let chainRows ← Stmts.select (chainRows matterId)
  return {
    audit := JsonText.dumps R (auditList auditRows),
    auditChain := JsonText.dumps R (.dict (chainDoc matterId exportedAt chainRows))
  }

/--
What `json.loads` makes of the text of a file. The files are UTF-8 on both sides and their texts hold
no carriage return, so that reading gives the text that was written.
-/
def readJson (parseFloat : PyStr → Option PyFloat) (text : PyStr) : Except PyStr Json :=
  match JsonText.loads parseFloat text with
  | some v => .ok v
  | none => .error (py "JSONDecodeError")

/--
The unpacked export as the offline verifier sees it.
-/
def AuditFiles.pack (parseFloat : PyStr → Option PyFloat) (files : AuditFiles)
    : ExportChainVerifier.Pack where
  chainName := py "audit_chain.json"
  auditChain := readJson parseFloat files.auditChain
  audit := some (readJson parseFloat files.audit)

end Exports
