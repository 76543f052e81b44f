import Legalise.Audit.HashChain

/-!
This module contains the Python side of the hash recipe, the first half of `app/core/audit_chain.py`.
-/

namespace AuditChain

def auditChainVersion : Int := 1

def entryPrefix : PyStr := py "audit-chain-entry-v1"
def linkPrefix : PyStr := py "audit-chain-link-v1"

def field : Option PyStr → PyStr
  | none => py "-1:"
  | some value => pyNat value.length ++ py ":" ++ value

/--
An audit entry with the text of its payload.
-/
structure AuditEntryCanonical where
  id : Uuid
  timestamp : Timestamp
  actorId : Option Uuid
  matterId : Option Uuid
  action : PyStr
  module : Option PyStr
  resourceType : Option PyStr
  resourceId : Option PyStr
  modelUsed : Option PyStr
  promptHash : Option PyStr
  responseHash : Option PyStr
  tokenCount : Option Int
  latencyMs : Option Int
  tokensIn : Option Int
  tokensOut : Option Int
  costMicros : Option Int
  currency : Option PyStr
  provider : Option PyStr
  modelId : Option PyStr
  payloadText : PyStr

namespace AuditEntryCanonical

def fromRow (row : AuditEntry) (payloadText : PyStr) : AuditEntryCanonical where
  id := row.id
  timestamp := row.timestamp
  actorId := row.actorId
  matterId := row.matterId
  action := row.action.val
  module := row.module.map PgText.val
  resourceType := row.resourceType.map PgText.val
  resourceId := row.resourceId.map PgText.val
  modelUsed := row.modelUsed.map PgText.val
  promptHash := row.promptHash.map PgText.val
  responseHash := row.responseHash.map PgText.val
  tokenCount := row.tokenCount
  latencyMs := row.latencyMs
  tokensIn := row.tokensIn
  tokensOut := row.tokensOut
  costMicros := row.costMicros
  currency := row.currency.map PgText.val
  provider := row.provider.map PgText.val
  modelId := row.modelId.map PgText.val
  payloadText := payloadText

/--
Field values as canonical strings, in hash order.
-/
def canonicalFields (self : AuditEntryCanonical) : List (PyStr × Option PyStr) :=
  [
    (py "id", some self.id.str),
    (py "timestamp", some self.timestamp.strftime),
    (py "actor_id", self.actorId.map Uuid.str),
    (py "matter_id", self.matterId.map Uuid.str),
    (py "action", some self.action),
    (py "module", self.module),
    (py "resource_type", self.resourceType),
    (py "resource_id", self.resourceId),
    (py "model_used", self.modelUsed),
    (py "prompt_hash", self.promptHash),
    (py "response_hash", self.responseHash),
    (py "token_count", self.tokenCount.map pyInt),
    (py "latency_ms", self.latencyMs.map pyInt),
    (py "tokens_in", self.tokensIn.map pyInt),
    (py "tokens_out", self.tokensOut.map pyInt),
    (py "cost_micros", self.costMicros.map pyInt),
    (py "currency", self.currency),
    (py "provider", self.provider),
    (py "model_id", self.modelId),
    (py "payload_text", some self.payloadText)
  ]

def canonical (self : AuditEntryCanonical) : PyStr :=
  join (py "\n") (entryPrefix :: self.canonicalFields.map fun item => field item.snd)

def entryHash (H : Sha256) (self : AuditEntryCanonical) : PyStr :=
  H.hexdigest self.canonical

end AuditEntryCanonical

def chainLinkCanonical (chainVersion : Int) (scopeType : PyStr) (matterId : Option Uuid)
    (scopeSequence : Int) (auditEntryId : Uuid) (previousChainHash : Option PyStr)
    (entryHash : PyStr) : PyStr :=
  join (py "\n") [
    linkPrefix,
    field (some (pyInt chainVersion)),
    field (some scopeType),
    field (matterId.map Uuid.str),
    field (some (pyInt scopeSequence)),
    field (some auditEntryId.str),
    field previousChainHash,
    field (some entryHash)
  ]

def chainLinkHash (H : Sha256) (chainVersion : Int) (scopeType : PyStr) (matterId : Option Uuid)
    (scopeSequence : Int) (auditEntryId : Uuid) (previousChainHash : Option PyStr)
    (entryHash : PyStr) : PyStr :=
  H.hexdigest (chainLinkCanonical chainVersion scopeType matterId scopeSequence auditEntryId
    previousChainHash entryHash)

/--
The letters of currency codes.
-/
def IsAsciiLetter (c : CodePoint) : Prop :=
  (0x41 ≤ c.val ∧ c.val ≤ 0x5a) ∨ (0x61 ≤ c.val ∧ c.val ≤ 0x7a)
  deriving Decidable

/--
What the writers guarantee about an entry beyond its column types: the timestamp, which is the time
of the insert, has a year of four digits, and the currency is missing or a three-letter code.
-/
structure AsWritten (entry : AuditEntry) : Prop where
  year : 1000 ≤ entry.timestamp.year
  currency : ∀ code ∈ entry.currency, code.val.length = 3 ∧ ∀ c ∈ code.val, IsAsciiLetter c

theorem AsWritten.bpcharText_currency {entry : AuditEntry} (h : AsWritten entry)
    : (entry.currency.map fun code => bpcharText code.val) = entry.currency.map PgText.val := by
  cases hcode : entry.currency with
  | none => rfl
  | some code =>
    have hblank : ¬ IsAsciiLetter (CodePoint.ofChar ' ') := by
      unfold IsAsciiLetter
      decide
    have : bpcharText code.val = code.val := by
      apply bpcharText_eq_self
      intro c hc heq
      exact hblank (heq ▸ (h.currency code hcode).right c hc)
    simp [this]

/--
The entry of a signed output.
-/
def signedEntry (id : Uuid) (matterId : Option Uuid) : AuditEntry where
  id := id
  timestamp := (Timestamp.ofFields? 2026 2 28 9 30 0 5).get rfl
  actorId := none
  matterId := matterId
  action := ⟨py "output.signed", utf8Encodable_py _⟩
  module := some ⟨py "sign\noff:1", utf8Encodable_py _⟩
  resourceType := none
  resourceId := none
  modelUsed := none
  promptHash := none
  responseHash := none
  tokenCount := some 120
  latencyMs := none
  tokensIn := none
  tokensOut := none
  costMicros := some 0
  currency := some ⟨py "GBP", utf8Encodable_py _⟩
  provider := none
  modelId := none
  payload := {
    text := ⟨py "\x7b\x7d", utf8Encodable_py _⟩,
    text_ne_nil := by decide,
    value := .dict [],
    distinctKeys := by simp [Json.DistinctKeys, Json.distinctKeysDict_iff]
  }

theorem asWritten_signedEntry (id : Uuid) (matterId : Option Uuid) :
    AsWritten (signedEntry id matterId) where
  year := by
    show 1000 ≤ 2026
    decide
  currency := by
    have hletters : (py "GBP").all (fun c => decide (IsAsciiLetter c)) = true := by
      decide
    simp only [List.all_eq_true, decide_eq_true_eq] at hletters
    simp only [signedEntry, Option.mem_def, Option.some.injEq, forall_eq']
    exact ⟨rfl, hletters⟩

theorem auditChainField_eq_field : auditChainField = field := by
  funext value
  cases value <;> rfl

theorem map_out_eq_map_str (id : Option Uuid) : id.map Uuid.out = id.map Uuid.str := by
  cases id <;> simp [Uuid.str_eq_out]

/--
The trigger and the application render an entry the same way.
-/
theorem AsWritten.canonical_eq {entry : AuditEntry} (h : AsWritten entry)
    : auditChainEntryCanonical entry
        = (AuditEntryCanonical.fromRow entry entry.payload.text.val).canonical := by
  unfold auditChainEntryCanonical AuditEntryCanonical.canonical
    AuditEntryCanonical.canonicalFields AuditEntryCanonical.fromRow
  rw [← List.map_cons, concatWs_map_some]
  simp only [auditChainField_eq_field, map_out_eq_map_str, ← Uuid.str_eq_out,
    Timestamp.strftime_eq_toChar h.year, h.bpcharText_currency, List.map_cons, List.map_nil]
  rfl

/--
The trigger and the application render a link the same way.
-/
theorem auditChainLinkCanonical_eq (chainVersion : Int) (scopeType : PyStr) (matterId : Option Uuid)
    (scopeSequence : Int) (auditEntryId : Uuid) (previousChainHash : Option PyStr)
    (entryHash : PyStr)
    : auditChainLinkCanonical chainVersion scopeType matterId scopeSequence auditEntryId
        previousChainHash entryHash
        = chainLinkCanonical chainVersion scopeType matterId scopeSequence auditEntryId
        previousChainHash entryHash := by
  unfold auditChainLinkCanonical chainLinkCanonical
  rw [← List.map_cons, concatWs_map_some]
  simp only [auditChainField_eq_field, map_out_eq_map_str, ← Uuid.str_eq_out]
  rfl

end AuditChain
