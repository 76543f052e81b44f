import Legalise.Audit.Tables
import Legalise.Python.Hashlib

/-!
This module contains the SQL functions of the migration `0030_audit_hash_chain.py` that hash audit
entries and links.
-/

def auditChainField : Option PyStr → PyStr
  | none => py "-1:"
  | some value => pyNat value.length ++ py ":" ++ value

def auditChainEntryCanonical (entry : AuditEntry) : PyStr :=
  concatWs (py "\n") <|
    some (py "audit-chain-entry-v1") :: [
      auditChainField (some entry.id.out),
      auditChainField (some entry.timestamp.toChar),
      auditChainField (entry.actorId.map Uuid.out),
      auditChainField (entry.matterId.map Uuid.out),
      auditChainField (some entry.action.val),
      auditChainField (entry.module.map PgText.val),
      auditChainField (entry.resourceType.map PgText.val),
      auditChainField (entry.resourceId.map PgText.val),
      auditChainField (entry.modelUsed.map PgText.val),
      auditChainField (entry.promptHash.map PgText.val),
      auditChainField (entry.responseHash.map PgText.val),
      auditChainField (entry.tokenCount.map pyInt),
      auditChainField (entry.latencyMs.map pyInt),
      auditChainField (entry.tokensIn.map pyInt),
      auditChainField (entry.tokensOut.map pyInt),
      auditChainField (entry.costMicros.map pyInt),
      auditChainField (entry.currency.map fun currency => bpcharText currency.val),
      auditChainField (entry.provider.map PgText.val),
      auditChainField (entry.modelId.map PgText.val),
      auditChainField (some entry.payload.text.val)
    ].map some

def auditChainLinkCanonical (chainVersion : Int) (scopeType : PyStr) (matterId : Option Uuid)
    (scopeSequence : Int) (auditEntryId : Uuid) (previousChainHash : Option PyStr)
    (entryHash : PyStr) : PyStr :=
  concatWs (py "\n") <|
    some (py "audit-chain-link-v1") :: [
      auditChainField (some (pyInt chainVersion)),
      auditChainField (some scopeType),
      auditChainField (matterId.map Uuid.out),
      auditChainField (some (pyInt scopeSequence)),
      auditChainField (some auditEntryId.out),
      auditChainField previousChainHash,
      auditChainField (some entryHash)
    ].map some

/--
`encode(digest(text, 'sha256'), 'hex')::char(64)`
-/
def Sha256.pgHash (H : Sha256) (text : PyStr) : PgHash where
  val := H.hexdigest text
  isHexDigit := H.isHexDigit_of_mem_hexdigest text

variable (H : Sha256)

def auditChainEntryHash (entry : AuditEntry) : PgHash :=
  H.pgHash (auditChainEntryCanonical entry)

def auditChainLinkHash (chainVersion : Int) (scopeType : PyStr) (matterId : Option Uuid)
    (scopeSequence : Int) (auditEntryId : Uuid) (previousChainHash : Option PyStr)
    (entryHash : PyStr) : PgHash :=
  H.pgHash (auditChainLinkCanonical chainVersion scopeType matterId scopeSequence auditEntryId
    previousChainHash entryHash)
