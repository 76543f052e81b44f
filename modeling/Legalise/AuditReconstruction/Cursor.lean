import Legalise.Python.JsonAscii
import Legalise.Python.Base64
import Legalise.Python.Text

/-!
This module contains the entries of the reconstructed timeline and the opaque cursors that name the
last entry of a page.
-/

namespace AuditReconstruction

/--
The sources of the timeline, which are the keys of `SOURCE_ORDER`.
-/
inductive Source where
  | audit
  | stateMachine
  | adviceBoundary
  deriving DecidableEq

namespace Source

def name : Source → PyStr
  | .audit => py "audit"
  | .stateMachine => py "state_machine"
  | .adviceBoundary => py "advice_boundary"

/--
`SOURCE_ORDER[source]`
-/
def order : Source → Nat
  | .audit => 0
  | .stateMachine => 1
  | .adviceBoundary => 2

/--
`VALID_SOURCES`
-/
def valid : List Source :=
  [.audit, .stateMachine, .adviceBoundary]

def ofName? (s : PyStr) : Option Source :=
  valid.find? fun source => source.name = s

theorem ofName?_name (source : Source) : ofName? source.name = some source := by
  cases source <;> decide

theorem utf8Encodable_name (source : Source) : Utf8Encodable source.name := by
  cases source <;> exact utf8Encodable_py _

theorem order_injective : Function.Injective order := by
  intro a b hab
  cases a <;> cases b <;> simp_all [order]

end Source

structure TimelineEntry where
  source : Source
  occurredAt : Timestamp
  action : PyStr
  actor : Dict
  matterId : Option PyStr
  moduleId : Json
  capabilityId : Json
  payload : Dict
  refs : Dict
  sourceRowId : PyStr

/--
The `ValueError`s, told apart by what they complain about.
-/
inductive ValueError where
  | limitOutOfRange (limit : Int)
  | unknownSources (names : List PyStr)
  | notBase64
  | notJson
  | notObject
  | missingKey (key : PyErr)
  | notStrings
  | notIso8601 (occurredAt : Json)
  | notUuid (sourceRowId : PyStr)
  | unknownCursorSource (source : PyStr)

/--
What a cursor decodes to.
-/
structure Decoded where
  source : PyStr
  occurredAt : Timestamp
  sourceRowId : PyStr

def cursorItems (entry : TimelineEntry) : List (PyStr × PyStr) :=
  [
    (py "source", entry.source.name),
    (py "occurred_at", entry.occurredAt.isoformat),
    (py "source_row_id", entry.sourceRowId)
  ]

/--
The text is ASCII, so it can always be encoded.
-/
def encodeCursor (entry : TimelineEntry) : PyStr :=
  let raw := Utf8.encode (JsonText.dumpsCompact (cursorItems entry))
  (raw.map (Base64.encode Base64.urlsafe)).getD []

/--
`cursor.encode("ascii")` raises a `ValueError` of its own, which is reported as one about base64.
-/
def cursorBytes (cursor : PyStr) : Except ValueError Bytes :=
  if cursor.all fun c => c.val < 0x80 then
    match Base64.urlsafeDecode cursor with
    | some raw => .ok raw
    | none => .error .notBase64
  else .error .notBase64

def cursorField (payload : Dict) (key : PyStr) : Except ValueError Json :=
  match payload.getItem key with
  | .ok value => .ok value
  | .error e => .error (.missingKey e)

variable (parseFloat : PyStr → Option PyFloat)

def cursorPayload (raw : Bytes) : Except ValueError Dict :=
  match JsonText.loadsBytes parseFloat raw with
  | none => .error .notJson
  | some (.dict payload) => .ok payload
  | some _ => .error .notObject

def cursorStrings (source sourceRowId : Json) : Except ValueError (PyStr × PyStr) :=
  match source, sourceRowId with
  | .str source, .str sourceRowId => .ok (source, sourceRowId)
  | _, _ => .error .notStrings

def cursorTimestamp (occurredAtIso : Json) : Except ValueError Timestamp :=
  match occurredAtIso with
  | .str s =>
    match Timestamp.fromisoformat s with
    | some occurredAt => .ok occurredAt
    | none => .error (.notIso8601 occurredAtIso)
  | _ => .error (.notIso8601 occurredAtIso)

def decodeCursor (cursor : PyStr) : Except ValueError Decoded := do
  let raw ← cursorBytes cursor
  let payload ← cursorPayload parseFloat raw
  let source ← cursorField payload (py "source")
  let occurredAtIso ← cursorField payload (py "occurred_at")
  let sourceRowId ← cursorField payload (py "source_row_id")
  let (source, sourceRowId) ← cursorStrings source sourceRowId
  let occurredAt ← cursorTimestamp occurredAtIso
  match Uuid.ofText? sourceRowId with
  | some _ => .ok ⟨source, occurredAt, sourceRowId⟩
  | none => .error (.notUuid sourceRowId)

theorem val_lt_of_mem_encode {data : Bytes} {c : CodePoint}
    (hc : c ∈ Base64.encode Base64.urlsafe data) : c.val < 0x80 := by
  have hall : Base64.urlsafe.all fun c => c.val < 0x80 := by
    decide
  simp only [List.all_eq_true, decide_eq_true_eq] at hall
  cases Base64.mem_of_mem_encode hc with
  | inl hpadding =>
    rw [hpadding]
    decide
  | inr hmem => exact hall c hmem

theorem cursorBytes_encode (data : Bytes)
    : cursorBytes (Base64.encode Base64.urlsafe data) = .ok data := by
  have hascii : (Base64.encode Base64.urlsafe data).all (fun c => c.val < 0x80) = true := by
    simp only [List.all_eq_true, decide_eq_true_eq]
    intro c hc
    exact val_lt_of_mem_encode hc
  unfold cursorBytes
  rw [if_pos hascii, Base64.urlsafeDecode_encode]

theorem encodableItems_cursorItems {entry : TimelineEntry} {id : Uuid}
    (hid : entry.sourceRowId = id.str) : JsonText.EncodableItems (cursorItems entry) := by
  intro item hitem
  simp only [cursorItems, List.mem_cons, List.not_mem_nil, or_false] at hitem
  rcases hitem with rfl | rfl | rfl
  . exact ⟨utf8Encodable_py _, entry.source.utf8Encodable_name⟩
  . exact ⟨utf8Encodable_py _, entry.occurredAt.utf8Encodable_isoformat⟩
  . refine ⟨utf8Encodable_py _, ?_⟩
    rw [hid]
    exact id.utf8Encodable_str

theorem nodup_keys_cursorItems (entry : TimelineEntry) : ((cursorItems entry).map Prod.fst).Nodup := by
  have : [py "source", py "occurred_at", py "source_row_id"].Nodup := by
    decide
  exact this

theorem getItem_strItems_cursorItems (entry : TimelineEntry)
    : (JsonText.strItems (cursorItems entry)).getItem (py "source") = .ok (.str entry.source.name)
      ∧ (JsonText.strItems (cursorItems entry)).getItem (py "occurred_at")
        = .ok (.str entry.occurredAt.isoformat)
      ∧ (JsonText.strItems (cursorItems entry)).getItem (py "source_row_id")
        = .ok (.str entry.sourceRowId) := by
  simp only [JsonText.strItems, cursorItems, List.map_cons, List.map_nil]
  refine ⟨?_, ?_, ?_⟩
  . rw [Dict.getItem_cons_self]
  . rw [Dict.getItem_cons_of_ne (by decide), Dict.getItem_cons_self]
  . rw [Dict.getItem_cons_of_ne (by decide), Dict.getItem_cons_of_ne (by decide),
      Dict.getItem_cons_self]

theorem encodeCursor_eq (entry : TimelineEntry)
    : ∃ data, Utf8.encode (JsonText.dumpsCompact (cursorItems entry)) = some data
        ∧ encodeCursor entry = Base64.encode Base64.urlsafe data := by
  have hencodable := JsonText.utf8Encodable_dumpsCompact (cursorItems entry)
  unfold encodeCursor
  generalize JsonText.dumpsCompact (cursorItems entry) = text at hencodable ⊢
  have hencode : Utf8.encode text = some (text.flatMap Utf8.encodePoint) :=
    Utf8.encode_eq_some_iff.mpr ⟨hencodable, rfl⟩
  refine ⟨_, hencode, ?_⟩
  simp only [hencode, Option.map_some, Option.getD_some]

theorem cursorPayload_eq {entry : TimelineEntry} {id : Uuid} (hid : entry.sourceRowId = id.str)
    {data : Bytes} (hdata : Utf8.encode (JsonText.dumpsCompact (cursorItems entry)) = some data)
    : cursorPayload parseFloat data = .ok (JsonText.strItems (cursorItems entry)) := by
  unfold cursorPayload
  rw [JsonText.loadsBytes_dumpsCompact parseFloat (encodableItems_cursorItems hid)
    (nodup_keys_cursorItems entry) hdata]

/--
The cursor of an entry whose row id is a UUID names the source, the time and the row.
-/
theorem decodeCursor_encodeCursor {entry : TimelineEntry} {id : Uuid} (hid : entry.sourceRowId = id.str)
    : decodeCursor parseFloat (encodeCursor entry)
        = .ok ⟨entry.source.name, entry.occurredAt, entry.sourceRowId⟩ := by
  have ⟨data, hdata, hcursor⟩ := encodeCursor_eq entry
  have hpayload := cursorPayload_eq parseFloat hid hdata
  have ⟨hsource, hoccurredAt, hrowId⟩ := getItem_strItems_cursorItems entry
  have hparse : Uuid.ofText? entry.sourceRowId = some id := by
    rw [hid]
    exact Uuid.ofText?_str id
  generalize JsonText.strItems (cursorItems entry) = payload at hpayload hsource hoccurredAt hrowId
  rw [hcursor]
  simp only [decodeCursor, cursorBytes_encode, hpayload, cursorField, hsource, hoccurredAt, hrowId,
    cursorStrings, cursorTimestamp, Timestamp.fromisoformat_isoformat, hparse, bind, Except.bind]

end AuditReconstruction
