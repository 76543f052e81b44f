import Legalise.AuditReconstruction.Pagination
import Legalise.Lib.Except
import Legalise.Python.DateTime
import Legalise.Python.JsonFault

/-!
This module contains the reconstruction with every cursor that a caller may give, and all that it raises.
-/

namespace AuditReconstruction

open Keyset AuditChain

/--
What a caller may get to see, where the subclasses of `ValueError` are not told apart.
-/
inductive Raised where
  | valueError
  | recursionError
  | typeError
  /-- The database driver refuses a parameter of a statement. -/
  | dbapiError
  deriving DecidableEq

/--
`cursor_key`, with the row id as text and as a UUID.
-/
structure Boundary where
  occurredAt : DateTime
  source : Source
  rowId : PyStr
  id : Uuid

/--
`(occurred_at, SOURCE_ORDER[source], source_row_id)`, the time being that of a common clock.
-/
abbrev InstantKey := Int ×ₗ Nat ×ₗ PyStr

def Boundary.key (b : Boundary) : InstantKey :=
  toLex (b.occurredAt.fields.micros - b.occurredAt.offset.getD 0, toLex (b.source.order, b.rowId))

def instantKey (entry : TimelineEntry) : InstantKey :=
  toLex (entry.occurredAt.micros, toLex (entry.source.order, entry.sourceRowId))

section Decode

variable (limits : JsonText.Limits) (parseFloat : PyStr → PyFloat)

def loadPayload (raw : Bytes) : Except Raised Dict :=
  match JsonText.loadsData limits parseFloat raw with
  | .ok (.dict payload) => .ok payload
  | .error .recursionError => .error .recursionError
  | _ => .error .valueError

/--
The checks of `decode_cursor` and the one of the source, each of which raises a `ValueError`.
-/
def readBoundary (payload : Dict) : Option Boundary :=
  match List.lookup (py "source") payload, List.lookup (py "occurred_at") payload,
      List.lookup (py "source_row_id") payload with
  | some (.str source), some (.str occurredAt), some (.str rowId) => do
    let occurredAt ← DateTime.fromisoformat occurredAt
    let id ← Uuid.ofText? rowId
    let source ← Source.ofName? source
    return ⟨occurredAt, source, rowId, id⟩
  | _, _, _ => none

def decodeBoundary (cursor : PyStr) : Except Raised Boundary :=
  match cursorBytes cursor with
  | .error _ => .error .valueError
  | .ok raw => do
    let payload ← loadPayload limits parseFloat raw
    match readBoundary payload with
    | none => .error .valueError
    | some boundary => .ok boundary

end Decode

section Reconstruct

/--
A source asks the database, unless the filters rule out all of its rows.
-/
def sends (filters : Filters) : Source → Bool
  | .audit => true
  | .stateMachine =>
    filters.matterId.isSome && filters.invocationId.isNone
      && (statusFilter stateMachineActionPrefix filters.action).isSome
  | .adviceBoundary =>
    filters.matterId.isSome && (statusFilter adviceBoundaryActionPrefix filters.action).isSome

variable (otherText : Json → PyStr) (encode : DateTime → Option Timestamp)

/--
The cursor of the statements of all sources. The driver takes a time as the instant that it stands for.
-/
def Boundary.cursorKey (b : Boundary) (ts : Timestamp) : CursorKey :=
  ⟨ts, b.source.order, b.id.str⟩

/--
The entries that a source returns.
-/
def pull (db : TimelineTables) (filters : Filters) (b : Boundary) (limit : Nat) (source : Source)
    : Except Raised (List TimelineEntry) :=
  if sends filters source then
    match encode b.occurredAt with
    | none => .error .dbapiError
    | some ts => .ok (query otherText db filters (some (b.cursorKey ts)) limit source)
  else .ok []

/--
`_entry_sort_key(e) > cursor_key`. The times of the rows have an offset, and cannot be compared with a naive one.
-/
def comesAfter (b : Boundary) (entry : TimelineEntry) : Except Raised Bool :=
  match b.occurredAt.offset with
  | none => .error .typeError
  | some _ => .ok (decide (b.key < instantKey entry))

def keepAfter (b : Boundary) : List TimelineEntry → Except Raised (List TimelineEntry)
  | [] => .ok []
  | entry :: entries => do
    let after ← comesAfter b entry
    let kept ← keepAfter b entries
    return if after then entry :: kept else kept

variable (limits : JsonText.Limits) (parseFloat : PyStr → PyFloat)

/--
`reconstruct` with a cursor.
-/
def reconstructFrom (db : TimelineTables) (filters : Filters) (sources : Option (List PyStr)) (cursor : PyStr)
    (limit : Int) : Except Raised ReconstructionPage :=
  if limit ≤ 0 ∨ maxLimit < limit then .error .valueError
  else
    match checkSources sources with
    | .error _ => .error .valueError
    | .ok sources => do
      let b ← decodeBoundary limits parseFloat cursor
      let pulls ← sources.mapM (pull otherText encode db filters b (limit.toNat + 1))
      let pulls ← keepAfter b (sortByKey entrySortKey pulls.flatten)
      return pageOf limit.toNat pulls

/--
The call raises a `ValueError` or returns a page of entries that are strictly after the cursor.
-/
def Handled (db : TimelineTables) (filters : Filters) (sources : Option (List PyStr)) (cursor : PyStr) (limit : Int)
    : Prop :=
  match reconstructFrom otherText encode limits parseFloat db filters sources cursor limit with
  | .error e => e = .valueError
  | .ok page => ∀ b, decodeBoundary limits parseFloat cursor = .ok b → ∀ entry ∈ page.entries, b.key < instantKey entry

/--
The cursor holds no JSON that is nested too deeply. If its source, time and row can be read, the driver takes the time,
and if that is naive, no row comes after it.
-/
def Harmless (db : TimelineTables) (filters : Filters) (sources : Option (List PyStr)) (cursor : PyStr) (limit : Int)
    : Prop :=
  0 < limit → limit ≤ maxLimit → ∀ valid, checkSources sources = .ok valid →
    (∀ raw, cursorBytes cursor = .ok raw → JsonText.loadsData limits parseFloat raw ≠ .error .recursionError)
      ∧ ∀ b, decodeBoundary limits parseFloat cursor = .ok b → ∀ source ∈ valid, sends filters source = true →
        ∃ ts, encode b.occurredAt = some ts
          ∧ (b.occurredAt.offset = none →
            ∀ entry ∈ matchingRows otherText db filters source, isAfter (some (b.cursorKey ts)) entry = false)

end Reconstruct

section Cursors

variable {limits : JsonText.Limits} {parseFloat : PyStr → PyFloat}

theorem loadPayload_eq_error {raw : Bytes} {e : Raised} (h : loadPayload limits parseFloat raw = .error e)
    : e = .valueError ∨ e = .recursionError := by
  unfold loadPayload at h
  split at h <;> cases h <;> simp

theorem loadPayload_eq_recursionError_iff (raw : Bytes)
    : loadPayload limits parseFloat raw = .error .recursionError
        ↔
      JsonText.loadsData limits parseFloat raw = .error .recursionError := by
  unfold loadPayload
  split
  . next h => simp [h]
  . next h => simp [h]
  . next hok herror =>
    constructor
    . intro h
      cases h
    . intro h
      exact (herror h).elim

theorem decodeBoundary_eq_error {cursor : PyStr} {e : Raised} (h : decodeBoundary limits parseFloat cursor = .error e)
    : e = .valueError ∨ e = .recursionError := by
  unfold decodeBoundary at h
  split at h
  . cases h
    exact .inl rfl
  . rw [Except.bind_eq_error_iff] at h
    rcases h with h | ⟨payload, _, h⟩
    . exact loadPayload_eq_error h
    . split at h <;> cases h
      exact .inl rfl

theorem decodeBoundary_eq_recursionError_iff (cursor : PyStr)
    : decodeBoundary limits parseFloat cursor = .error .recursionError
        ↔
      ∃ raw, cursorBytes cursor = .ok raw ∧ JsonText.loadsData limits parseFloat raw = .error .recursionError := by
  unfold decodeBoundary
  split
  . next h => simp [h]
  . next raw h =>
    rw [Except.bind_eq_error_iff, loadPayload_eq_recursionError_iff]
    constructor
    . rintro (h' | ⟨payload, _, h'⟩)
      . exact ⟨raw, h, h'⟩
      . split at h' <;> cases h'
    . rintro ⟨raw', hraw, h'⟩
      rw [h, Except.ok.injEq] at hraw
      rw [hraw]
      exact .inl h'

end Cursors

section Pulls

variable {otherText : Json → PyStr} {encode : DateTime → Option Timestamp} {db : TimelineTables} {filters : Filters}
  {b : Boundary} {limit : Nat}

/--
A source that asks no question has no rows.
-/
theorem query_of_not_sends {source : Source} (h : sends filters source = false) (key : Option CursorKey)
    : query otherText db filters key limit source = [] := by
  cases source with
  | audit => simp [sends] at h
  | stateMachine =>
    unfold query queryStateMachineRows
    dsimp only
    split
    . next hmatter hinvocation hstatus => simp [sends, hmatter, hinvocation, hstatus] at h
    . rfl
  | adviceBoundary =>
    unfold query queryAdviceBoundaryRows
    dsimp only
    split
    . next hmatter hstatus => simp [sends, hmatter, hstatus] at h
    . rfl

theorem pull_of_some {ts : Timestamp} (h : encode b.occurredAt = some ts) (source : Source)
    : pull otherText encode db filters b limit source
        = .ok (query otherText db filters (some (b.cursorKey ts)) limit source) := by
  unfold pull
  cases hsends : sends filters source with
  | true => simp [h]
  | false => simp [query_of_not_sends hsends]

theorem mapM_pull_of_some {ts : Timestamp} (h : encode b.occurredAt = some ts) (sources : List Source)
    : sources.mapM (pull otherText encode db filters b limit)
        = .ok (sources.map (query otherText db filters (some (b.cursorKey ts)) limit)) := by
  rw [Except.mapM_eq_ok_iff, List.forall₂_map_right_iff]
  exact List.forall₂_same.mpr fun source _ => pull_of_some h source

theorem mapM_pull_of_none (h : encode b.occurredAt = none) (sources : List Source)
    : sources.mapM (pull otherText encode db filters b limit)
        = if ∃ source ∈ sources, sends filters source = true then .error .dbapiError
          else .ok (sources.map fun _ => []) := by
  have hpull (source : Source) : pull otherText encode db filters b limit source
      = if sends filters source then .error .dbapiError else .ok [] := by
    unfold pull
    rw [h]
  induction sources with
  | nil => simp [pure, Except.pure]
  | cons source sources ih =>
    rw [List.mapM_cons, hpull, ih]
    by_cases hsends : sends filters source = true
    . simp [hsends, bind, Except.bind]
    . by_cases hlater : ∃ source ∈ sources, sends filters source = true
      . simp [hsends, hlater, bind, Except.bind]
      . simp [hsends, hlater, bind, Except.bind, pure, Except.pure]

/--
If a source has rows after the cursor, some of them are pulled.
-/
theorem query_eq_nil_iff (ts : Timestamp) (source : Source)
    : query otherText db filters (some (b.cursorKey ts)) (limit + 1) source = []
        ↔
      ∀ entry ∈ matchingRows otherText db filters source, isAfter (some (b.cursorKey ts)) entry = false := by
  have hrow : IsRowCursor (some (b.cursorKey ts)) := by
    intro k hk
    cases hk
    exact ⟨b.id, rfl⟩
  rw [query_eq hrow, List.take_eq_nil_iff]
  simp only [Nat.add_eq_zero_iff, one_ne_zero, and_false, false_or]
  rw [List.eq_nil_iff_forall_not_mem]
  simp only [mem_sortByKey, List.mem_filter, not_and, Bool.not_eq_true]

theorem keepAfter_of_naive (h : b.occurredAt.offset = none) (entries : List TimelineEntry)
    : keepAfter b entries = if entries = [] then .ok [] else .error .typeError := by
  cases entries with
  | nil => rfl
  | cons entry entries =>
    unfold keepAfter comesAfter
    rw [h, if_neg (by simp)]
    rfl

theorem keepAfter_of_aware {offset : Int} (h : b.occurredAt.offset = some offset) (entries : List TimelineEntry)
    : keepAfter b entries = .ok (entries.filter fun entry => b.key < instantKey entry) := by
  induction entries with
  | nil => rfl
  | cons entry entries ih =>
    unfold keepAfter comesAfter
    rw [h, ih, List.filter_cons]
    rfl

theorem mem_of_mem_pageOf {entries : List TimelineEntry} {entry : TimelineEntry}
    (h : entry ∈ (pageOf limit entries).entries) : entry ∈ entries := by
  unfold pageOf at h
  split at h
  . exact List.mem_of_mem_take h
  . exact h

end Pulls

section Handled

variable (otherText : Json → PyStr) (encode : DateTime → Option Timestamp) (limits : JsonText.Limits)
  (parseFloat : PyStr → PyFloat) (db : TimelineTables) (filters : Filters)

/--
After a cursor that can be read, the page holds what comes after it, provided that the driver takes its time and that no
row has to be compared with a naive one.
-/
theorem handled_of_decoded {sources : Option (List PyStr)} {valid : List Source} (hvalid : checkSources sources = .ok valid)
    {limit : Int} (hlimit : ¬ (limit ≤ 0 ∨ maxLimit < limit)) {cursor : PyStr} {b : Boundary}
    (hb : decodeBoundary limits parseFloat cursor = .ok b)
    : Handled otherText encode limits parseFloat db filters sources cursor limit
        ↔
      ∀ source ∈ valid, sends filters source = true →
        ∃ ts, encode b.occurredAt = some ts
          ∧ (b.occurredAt.offset = none →
            ∀ entry ∈ matchingRows otherText db filters source, isAfter (some (b.cursorKey ts)) entry = false) := by
  unfold Handled reconstructFrom
  simp only [if_neg hlimit, hvalid, hb, bind, Except.bind]
  cases hencode : encode b.occurredAt with
  | none =>
    rw [mapM_pull_of_none hencode]
    by_cases hsends : ∃ source ∈ valid, sends filters source = true
    . rw [if_pos hsends]
      constructor
      . intro h
        cases h
      . intro h
        have ⟨source, hsource, hsent⟩ := hsends
        have ⟨_, hsome, _⟩ := h source hsource hsent
        cases hsome
    . rw [if_neg hsends]
      have hempty : sortByKey entrySortKey (valid.map fun _ => ([] : List TimelineEntry)).flatten = [] := by
        simp [sortByKey]
      simp only [hempty]
      constructor
      . intro _ source hsource hsent
        exact (hsends ⟨source, hsource, hsent⟩).elim
      . intro _ b' _ entry hentry
        have := mem_of_mem_pageOf hentry
        cases this
  | some ts =>
    rw [mapM_pull_of_some hencode]
    dsimp only
    cases hoffset : b.occurredAt.offset with
    | none =>
      rw [keepAfter_of_naive hoffset]
      have hrows : sortByKey entrySortKey
            (valid.map (query otherText db filters (some (b.cursorKey ts)) (limit.toNat + 1))).flatten = []
            ↔
          ∀ source ∈ valid, query otherText db filters (some (b.cursorKey ts)) (limit.toNat + 1) source = [] := by
        rw [List.eq_nil_iff_forall_not_mem]
        simp only [mem_sortByKey, ← List.eq_nil_iff_forall_not_mem, List.flatten_eq_nil_iff, List.forall_mem_map]
      have hcondition : (∀ source ∈ valid, sends filters source = true →
            ∃ ts', some ts = some ts'
              ∧ (none = (none : Option Int) →
                ∀ entry ∈ matchingRows otherText db filters source, isAfter (some (b.cursorKey ts')) entry = false))
            ↔
          ∀ source ∈ valid, query otherText db filters (some (b.cursorKey ts)) (limit.toNat + 1) source = [] := by
        refine forall₂_congr fun source _ => ?_
        cases hsends : sends filters source with
        | true => simp [query_eq_nil_iff]
        | false => simp [query_of_not_sends hsends]
      rw [hcondition, ← hrows]
      by_cases hnil : sortByKey entrySortKey
          (valid.map (query otherText db filters (some (b.cursorKey ts)) (limit.toNat + 1))).flatten = []
      . rw [if_pos hnil]
        simp only [hnil, iff_true]
        intro b' _ entry hentry
        have := mem_of_mem_pageOf hentry
        cases this
      . rw [if_neg hnil]
        simp only [hnil, iff_false]
        intro h
        cases h
    | some offset =>
      rw [keepAfter_of_aware hoffset]
      constructor
      . intro _ source _ _
        exact ⟨ts, rfl, fun h => by cases h⟩
      . intro _ b' hb' entry hentry
        cases hb'
        simpa using (List.mem_filter.mp (mem_of_mem_pageOf hentry)).right

/--
A cursor is handled exactly if it nests no JSON too deeply, names a time that the driver takes, and compares no row with
a naive time.
-/
theorem handled_iff (sources : Option (List PyStr)) (cursor : PyStr) (limit : Int)
    : Handled otherText encode limits parseFloat db filters sources cursor limit
        ↔
      Harmless otherText encode limits parseFloat db filters sources cursor limit := by
  unfold Harmless
  by_cases hlimit : limit ≤ 0 ∨ maxLimit < limit
  . have hraised : Handled otherText encode limits parseFloat db filters sources cursor limit := by
      unfold Handled reconstructFrom
      simp only [if_pos hlimit]
    simp only [hraised, true_iff]
    intro hpos hmax
    omega
  . have hpos : 0 < limit := by omega
    have hmax : limit ≤ maxLimit := by omega
    cases hvalid : checkSources sources with
    | error e =>
      have hraised : Handled otherText encode limits parseFloat db filters sources cursor limit := by
        unfold Handled reconstructFrom
        simp only [if_neg hlimit, hvalid]
      simp only [hraised, true_iff]
      intro _ _ valid h
      cases h
    | ok valid =>
      have hdeep := @decodeBoundary_eq_recursionError_iff limits parseFloat cursor
      simp only [hpos, hmax, true_implies, Except.ok.injEq, forall_eq']
      cases hb : decodeBoundary limits parseFloat cursor with
      | error e =>
        have hraised : Handled otherText encode limits parseFloat db filters sources cursor limit ↔ e = .valueError := by
          unfold Handled reconstructFrom
          simp only [if_neg hlimit, hvalid, hb, bind, Except.bind]
        rw [hraised]
        rw [hb, Except.error.injEq] at hdeep
        have hkinds := decodeBoundary_eq_error hb
        constructor
        . rintro rfl
          refine ⟨fun raw hraw h => ?_, fun b h => by cases h⟩
          cases hdeep.mpr ⟨raw, hraw, h⟩
        . rintro ⟨hshallow, _⟩
          refine hkinds.resolve_right fun heq => ?_
          have ⟨raw, hraw, h⟩ := hdeep.mp heq
          exact hshallow raw hraw h
      | ok b =>
        rw [handled_of_decoded otherText encode limits parseFloat db filters hvalid hlimit hb]
        simp only [Except.ok.injEq, forall_eq']
        refine (and_iff_right ?_).symm
        intro raw hraw h
        rw [hb] at hdeep
        cases hdeep.mpr ⟨raw, hraw, h⟩

end Handled

section Naive

/--
A driver that takes a naive time as one of UTC.
-/
def utcDriver (d : DateTime) : Option Timestamp :=
  some d.fields

def newYear : Timestamp :=
  .newYear

/--
The limits of a Python interpreter.
-/
def cpython : JsonText.Limits where
  depth := 10000
  digits := 4300

def noFloat (_ : PyStr) : PyFloat := .nan

/--
`{"source":"audit","occurred_at":"2026-01-01T00:00:00","source_row_id":"00000000-0000-0000-0000-000000000000"}`
-/
def naiveCursor : PyStr :=
  py ("eyJzb3VyY2UiOiJhdWRpdCIsIm9jY3VycmVkX2F0IjoiMjAyNi0wMS0wMVQwMDowMDowMCIs"
    ++ "InNvdXJjZV9yb3dfaWQiOiIwMDAwMDAwMC0wMDAwLTAwMDAtMDAwMC0wMDAwMDAwMDAwMDAifQ==")

theorem not_handled
    : ¬ ∀ (otherText : Json → PyStr) (encode : DateTime → Option Timestamp) (limits : JsonText.Limits)
        (parseFloat : PyStr → PyFloat) (db : TimelineTables) (filters : Filters) (sources : Option (List PyStr))
        (cursor : PyStr) (limit : Int),
      Handled otherText encode limits parseFloat db filters sources cursor limit := by
  intro h
  have hvalid : checkSources none = .ok Source.valid := rfl
  have hlimit : ¬ ((10 : Int) ≤ 0 ∨ (maxLimit : Int) < 10) := by
    decide
  have hcursor : (decodeBoundary cpython noFloat naiveCursor).toOption.map
      (fun b => (b.occurredAt, b.source, b.rowId, b.id.int))
        = some (⟨newYear, none⟩, .audit, py "00000000-0000-0000-0000-000000000000", 0) := by
    decide +kernel
  have ⟨b, hb, hfields⟩ := Option.map_eq_some_iff.mp hcursor
  rw [Except.toOption_eq_some_iff] at hb
  simp only [Prod.mk.injEq] at hfields
  have hiff := handled_of_decoded (fun _ => []) utcDriver cpython noFloat tiedTables
    { matterId := some (Uuid.ofNat 5) } hvalid hlimit hb
  generalize naiveCursor = cursor at hiff
  have hraised := hiff.mp (h _ _ _ _ _ _ _ _ _)
  have ⟨ts, hts, hrows⟩ := hraised .audit (by decide) rfl
  rw [hfields.left, utcDriver, Option.some.injEq] at hts
  have hentry : auditToEntry (signedEntry (Uuid.ofNat 7) (some (Uuid.ofNat 5))) ∈
      matchingRows (fun _ => []) tiedTables { matterId := some (Uuid.ofNat 5) } .audit := by
    unfold matchingRows
    refine List.mem_filter.mpr ⟨List.mem_map_of_mem (List.mem_filter.mpr ⟨List.mem_cons_self, ?_⟩), rfl⟩
    decide
  have hafter := hrows (by rw [hfields.left]) _ hentry
  -- The row is of February, and the cursor is of January.
  unfold isAfter Boundary.cursorKey CursorKey.key at hafter
  rw [← hts, hfields.right.left] at hafter
  simp only [Option.all_some, decide_eq_false_iff_not] at hafter
  refine hafter (Prod.Lex.toLex_lt_toLex.mpr (.inl ?_))
  show newYear.rank < (signedEntry (Uuid.ofNat 7) (some (Uuid.ofNat 5))).timestamp.rank
  decide

end Naive

end AuditReconstruction
