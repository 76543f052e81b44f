import Legalise.Python.Hashlib
import Legalise.Python.Json

/-!
This module contains the offline verifier that travels in every export,
`app/core/export_chain_verifier.py`.
-/

namespace ExportChainVerifier

def entryPrefix : PyStr := py "audit-chain-entry-v1"
def linkPrefix : PyStr := py "audit-chain-link-v1"
def supportedFormat : PyStr := py "legalise-audit-chain-export-v1"

/--
The canonical order the entry hash is computed over.
-/
def entryHashFields : List PyStr :=
  [
    py "id",
    py "timestamp",
    py "actor_id",
    py "matter_id",
    py "action",
    py "module",
    py "resource_type",
    py "resource_id",
    py "model_used",
    py "prompt_hash",
    py "response_hash",
    py "token_count",
    py "latency_ms",
    py "tokens_in",
    py "tokens_out",
    py "cost_micros",
    py "currency",
    py "provider",
    py "model_id",
    py "payload_text"
  ]

def field : Option PyStr → PyStr
  | none => py "-1:"
  | some value => pyNat value.length ++ py ":" ++ value

def hash (H : Sha256) (text : PyStr) : Except PyErr PyStr :=
  if Utf8Encodable text then .ok (H.hexdigest text) else .error .unicodeEncodeError

variable (R : PyRepr) (H : Sha256)

/--
The text that `entry_hash` hashes.
-/
def entryText (entry : Dict) : PyStr :=
  join (py "\n")
    (entryPrefix :: (entryHashFields.map fun name => (entry.get name).toStr? R).map field)

def entryHash (entry : Dict) : Except PyErr PyStr :=
  hash H (entryText R entry)

/--
The fields of the text that `chain_link_hash` hashes. The version, the scope type, the sequence and
the id are required and rendered with `str` even when they are `None`.
-/
def linkFields (entry : Dict) (computedEntryHash : PyStr) : Except PyErr (List (Option PyStr)) := do
  let matterId := entry.get (py "matter_id")
  let previous := entry.get (py "previous_chain_hash")
  let chainVersion ← entry.getItem (py "chain_version")
  let scopeType ← entry.getItem (py "scope_type")
  let scopeSequence ← entry.getItem (py "scope_sequence")
  let id ← entry.getItem (py "id")
  return [
    some (chainVersion.toStr R),
    some (scopeType.toStr R),
    matterId.toStr? R,
    some (scopeSequence.toStr R),
    some (id.toStr R),
    previous.toStr? R,
    some computedEntryHash
  ]

def linkText (fields : List (Option PyStr)) : PyStr :=
  join (py "\n") (linkPrefix :: fields.map field)

def chainLinkHash (entry : Dict) (computedEntryHash : PyStr) : Except PyErr PyStr := do
  let fields ← linkFields R entry computedEntryHash
  hash H (linkText fields)

/--
A problem that is reported unless a check holds.
-/
def unlessOk (ok : Bool) (problem : PyStr) : List PyStr :=
  if ok then [] else [problem]

/--
The checks of `verify` on the entry at `position`, whose predecessor states `previousHash`.
-/
def verifyEntry (position : Nat) (previousHash : Json) (entry : Dict)
    : Except PyErr (List PyStr) := do
  let label :=
    py "entry " ++ pyNat position ++ py " (audit id " ++ (entry.get (py "id")).toStr R ++ py ")"
  let sequence := entry.get (py "scope_sequence")
  let computedEntry ← entryHash R H entry
  let computedChain ← chainLinkHash R H entry computedEntry
  let problems :=
    unlessOk (sequence.pyEq (.int position))
      (label ++ py ": expected sequence " ++ pyNat position ++ py ", file says "
        ++ sequence.toStr R) ++
    unlessOk ((entry.get (py "previous_chain_hash")).pyEq previousHash)
      (label ++ py ": previous-hash link does not match the prior entry") ++
    unlessOk ((entry.get (py "entry_hash")).pyEq (.str computedEntry))
      (label ++ py ": entry hash does not match its contents (a field or the payload was altered)")
      ++
    unlessOk ((entry.get (py "chain_hash")).pyEq (.str computedChain))
      (label ++ py ": chain hash does not match")
  return problems

/--
The loop of `verify` over the entries, with the problems found and the last stated chain hash.
-/
def verifyEntries : Nat → Json → List Json → Except PyErr (List PyStr × Json)
  | _, previousHash, [] => return ([], previousHash)
  | position, previousHash, entry :: entries => do
    let entry ← entry.asDict
    let problems ← verifyEntry R H position previousHash entry
    let (rest, lastHash) ← verifyEntries (position + 1) (entry.get (py "chain_hash")) entries
    return (problems ++ rest, lastHash)

/--
The checks of `verify` on the stated head, after a loop over `count` entries.
-/
def verifyHead (head : Dict) (count : Nat) (previousHash : Json) : List PyStr :=
  let chainHash := head.get (py "chain_hash")
  let entryCount := head.get (py "entry_count")
  unlessOk (chainHash.pyEq previousHash)
    (py "the chain does not terminate at the stated head hash (head says " ++ chainHash.toStr R
      ++ py ", chain ends at " ++ previousHash.toStr R ++ py ")") ++
  unlessOk (entryCount.pyEq (.int count))
    (py "head states " ++ entryCount.toStr R ++ py " entries, file contains " ++ pyNat count)

/--
The entry, link and head checks of `verify`.
-/
def verifyChain (entries head : Json) : Except PyErr (List PyStr) := do
  let entries ← entries.iter
  let (problems, previousHash) ← verifyEntries R H 1 .null entries
  let head ← head.asDict
  return problems ++ verifyHead R head entries.length previousHash

/--
`{str(e.get("id")) for e in rows}`
-/
def idSet (rows : List Json) : Except PyErr (Finset PyStr) := do
  let ids ← rows.mapM fun row => do
    let row ← row.asDict
    return (row.get (py "id")).toStr R
  return ids.toFinset

/--
One line about the ids of a set, which names the first five of them.
-/
def idProblem (ids : Finset PyStr) (problem : PyStr) : List PyStr :=
  let sorted := ids.sort (· ≤ ·)
  unlessOk sorted.isEmpty
    (pyNat sorted.length ++ problem ++ join (py ", ") (sorted.take 5))

/--
The cross-check of `verify` against the `audit.json` of the same directory, if there is one.
-/
def crossCheck (entries : List Json) (audit : Option (Except PyStr Json))
    : Except PyErr (List PyStr) :=
  match audit with
  | none => return []
  | some (.error exc) => return [py "could not read audit.json for cross-check: " ++ exc]
  | some (.ok auditRows) => do
    let chainIds ← idSet R entries
    let auditRows ← auditRows.iter
    let auditIds ← idSet R auditRows
    let missing := py " audit.json entr(y/ies) missing from the chain: "
    let extra := py " chain entr(y/ies) missing from audit.json: "
    return idProblem (auditIds \ chainIds) missing ++ idProblem (chainIds \ auditIds) extra

/--
The files that `verify` reads: what `json.loads` makes of each, or the text of the exception.
-/
structure Pack where
  chainName : PyStr
  auditChain : Except PyStr Json
  audit : Option (Except PyStr Json)

/--
Return a list of problems. An empty list means the chain verified.
-/
def verify (pack : Pack) : Except PyErr (List PyStr) :=
  match pack.auditChain with
  | .error exc => return [py "could not read " ++ pack.chainName ++ py ": " ++ exc]
  | .ok data => do
    let data ← data.asDict
    let format := data.get (py "format")
    let entries := data.getD (py "entries") (.list [])
    let head := data.get (py "head")
    if !format.pyEq (.str supportedFormat) then
      return [py "unsupported format marker: " ++ format.repr R]
    else if !entries.truthy then
      return unlessOk head.isNone (py "file states a head hash but contains no entries")
    else if head.isNone then
      return [py "file contains entries but states no head hash"]
    else
      let problems ← verifyChain R H entries head
      let entries ← entries.iter
      let crossProblems ← crossCheck R entries pack.audit
      return problems ++ crossProblems

/--
The exit code of the script.
-/
def main (pack : Pack) : Except PyErr Nat := do
  let problems ← verify R H pack
  return if problems.isEmpty then 0 else 1

end ExportChainVerifier
