import Legalise.AuditReconstruction.Basic
import Legalise.Lib.Distinct

/-!
This module contains the rows that a source has for a request, and what a query and a page hold of
them.
-/

namespace AuditReconstruction

open Keyset

variable {otherText : Json → PyStr} {parseFloat : PyStr → Option PyFloat} {db : TimelineTables}
  {filters : Filters}

/--
The filters that are the same for every source.
-/
def Filters.admits (filters : Filters) (entry : TimelineEntry) : Bool :=
  filters.window entry.occurredAt && filters.action.all fun action => entry.action = action

/--
The rows of a source that match the filters of a request, as entries of the timeline.
-/
def matchingRows (otherText : Json → PyStr) (db : TimelineTables) (filters : Filters)
    : Source → List TimelineEntry
  | .audit =>
    ((db.auditEntries.filter fun r =>
      r.matterId = filters.matterId
        && filters.invocationId.all fun invocationId =>
          astext otherText ((payloadDict r.payload.value).get (py "invocation_id"))
            = some invocationId).map auditToEntry).filter filters.admits
  | .stateMachine =>
    match filters.matterId, filters.invocationId with
    | some matterId, none =>
      ((db.joinedTransitions.filter fun row =>
        row.snd.fst.ownerScope = py "matter" && row.snd.fst.ownerId = matterId.str).map fun row =>
          smtToEntry row.fst row.snd.snd.definitionKey matterId).filter filters.admits
    | _, _ => []
  | .adviceBoundary =>
    match filters.matterId with
    | some matterId =>
      ((db.decisions.filter fun r =>
        astext otherText (r.gateState.get (py "matter_id")) = some matterId.str
          && filters.invocationId.all fun invocationId => r.outputId = invocationId).map fun r =>
            abdToEntry r matterId).filter filters.admits
    | none => []

/--
The row id of the cursor is that of a row, which it is in every cursor that a page names.
-/
def IsRowCursor (cursorKey : Option CursorKey) : Prop :=
  ∀ k ∈ cursorKey, ∃ id : Uuid, k.rowId = id.str

/--
The predicate in the database is the one in memory.
-/
theorem cursorPredicate_eq {cursorKey : Option CursorKey} (hcursor : IsRowCursor cursorKey)
    {entry : TimelineEntry} {self : Source} {ts : Timestamp} {id : Uuid} (hsource : entry.source = self)
    (hts : entry.occurredAt = ts) (hid : entry.sourceRowId = id.str)
    : cursorPredicate cursorKey self ts id = isAfter cursorKey entry := by
  cases cursorKey with
  | none => rfl
  | some k =>
    have ⟨row, hrow⟩ := hcursor k rfl
    unfold cursorPredicate isAfter
    rw [Option.all_some, Bool.eq_iff_iff, decide_eq_true_iff, CursorKey.key, entrySortKey,
      Prod.Lex.toLex_lt_toLex, Prod.Lex.toLex_lt_toLex, hsource, hts, hid, hrow]
    simp only [hrow, Uuid.ofText?_str, Option.any_some]
    split
    . rw [decide_eq_true_iff]
      omega
    . split
      . rw [decide_eq_true_iff]
        omega
      . have heq : k.order = self.order := by omega
        simp only [Bool.or_eq_true, Bool.and_eq_true, decide_eq_true_eq, heq, lt_irrefl, false_or,
          true_and]
        rw [eq_comm (a := ts.rank)]

/--
A query sorts and limits its rows as the entries that they are made into are sorted and limited.
-/
theorem map_select {α : Type} {ts : α → Timestamp} {id : α → Uuid} {toEntry : α → TimelineEntry}
    (self : Source) {cursorKey : Option CursorKey} {base wheres : α → Bool}
    (hcursor : IsRowCursor cursorKey) (hsource : ∀ row, (toEntry row).source = self)
    (hts : ∀ row, (toEntry row).occurredAt = ts row)
    (hid : ∀ row, (toEntry row).sourceRowId = (id row).str)
    (hwheres : ∀ row, wheres row
      = (base row && filters.admits (toEntry row) && cursorPredicate cursorKey self (ts row) (id row)))
    (limit : Nat) (rows : List α)
    : (select ts id wheres limit rows).map toEntry
        = (sortByKey entrySortKey ((((rows.filter base).map toEntry).filter filters.admits).filter
            (isAfter cursorKey))).take limit := by
  have hfilter : (rows.filter wheres).map toEntry
      = (((rows.filter base).map toEntry).filter filters.admits).filter (isAfter cursorKey) := by
    rw [List.filter_map, List.filter_map, List.filter_filter, List.filter_filter]
    congr 1
    apply List.filter_congr
    intro row _
    rw [hwheres row, cursorPredicate_eq hcursor (hsource row) (hts row) (hid row)]
    simp only [Function.comp_apply]
    rw [Bool.and_comm, Bool.and_comm (base row), Bool.and_assoc]
  unfold select
  have hsort : ∀ a b, toLex ((ts a).rank, (id a).str) ≤ toLex ((ts b).rank, (id b).str)
      ↔ entrySortKey (toEntry a) ≤ entrySortKey (toEntry b) := by
    intro a b
    simp only [entrySortKey, Prod.Lex.toLex_le_toLex, hsource, hts, hid, lt_irrefl, false_or, true_and]
  rw [List.map_take, map_sortByKey entrySortKey hsort, hfilter]

/--
The action filter asks for the rows with the status after its prefix.
-/
theorem statusFilter_eq_some {actionPrefix : PyStr} {action status : Option PyStr}
    (h : statusFilter actionPrefix action = some status) (s : PyStr)
    : (status.all fun status => decide (s = status))
        = action.all fun action => decide (actionPrefix ++ s = action) := by
  unfold statusFilter at h
  cases action with
  | none =>
    rw [Option.some.injEq] at h
    rw [← h]
    rfl
  | some action =>
    simp only [Option.ite_none_right_eq_some, Option.some.injEq, List.isPrefixOf_iff_prefix] at h
    have ⟨hstart, hstatus⟩ := h
    have ⟨rest, hrest⟩ := hstart
    rw [← hstatus, ← hrest]
    simp

theorem statusFilter_eq_none {actionPrefix : PyStr} {action : Option PyStr}
    (h : statusFilter actionPrefix action = none) (s : PyStr)
    : (action.all fun action => decide (actionPrefix ++ s = action)) = false := by
  unfold statusFilter at h
  cases action with
  | none => contradiction
  | some action =>
    simp only [reduceCtorEq, ite_eq_right_iff, imp_false] at h
    rw [Option.all_some, decide_eq_false_iff_not]
    rintro rfl
    exact h (List.isPrefixOf_iff_prefix.mpr (List.prefix_append _ _))

/--
If the action filter does not have the prefix of a source, no entry of the source matches it.
-/
theorem filter_admits_eq_nil {α : Type} {toEntry : α → TimelineEntry} {status : α → PyStr}
    {actionPrefix : PyStr} (h : statusFilter actionPrefix filters.action = none)
    (haction : ∀ row, (toEntry row).action = actionPrefix ++ status row) (rows : List α)
    : (rows.map toEntry).filter filters.admits = [] := by
  rw [List.filter_eq_nil_iff]
  intro entry hentry
  have ⟨row, _, hrow⟩ := List.mem_map.mp hentry
  rw [← hrow, Filters.admits, haction, statusFilter_eq_none h]
  simp

theorem take_sortByKey_nil (cursorKey : Option CursorKey) (limit : Nat)
    : (sortByKey entrySortKey (([] : List TimelineEntry).filter (isAfter cursorKey))).take limit = [] := by
  simp [sortByKey]

section Queries

variable {cursorKey : Option CursorKey}

/--
The conditions of a query are those of the rows, those of the entries and the cursor, in some order.
-/
theorem queryAuditRows_eq (hcursor : IsRowCursor cursorKey) (limit : Nat)
    : queryAuditRows otherText db filters cursorKey limit
        = (sortByKey entrySortKey
            ((matchingRows otherText db filters .audit).filter (isAfter cursorKey))).take limit := by
  refine map_select .audit hcursor ?_ ?_ ?_ ?_ limit db.auditEntries
  . exact fun _ => rfl
  . exact fun _ => rfl
  . exact fun _ => rfl
  . intro r
    simp only [Filters.admits, auditToEntry]
    ac_rfl

theorem queryStateMachineRows_eq (hcursor : IsRowCursor cursorKey) (limit : Nat)
    : queryStateMachineRows db filters cursorKey limit
        = (sortByKey entrySortKey
            ((matchingRows otherText db filters .stateMachine).filter (isAfter cursorKey))).take limit := by
  unfold queryStateMachineRows matchingRows
  cases hmatter : filters.matterId with
  | none => exact (take_sortByKey_nil cursorKey limit).symm
  | some matterId =>
    cases hinvocation : filters.invocationId with
    | some invocationId => exact (take_sortByKey_nil cursorKey limit).symm
    | none =>
      cases hstatus : statusFilter stateMachineActionPrefix filters.action with
      | none =>
        dsimp only
        rw [filter_admits_eq_nil hstatus (fun row => rfl), take_sortByKey_nil]
      | some status =>
        refine map_select .stateMachine hcursor ?_ ?_ ?_ ?_ limit db.joinedTransitions
        . exact fun _ => rfl
        . exact fun _ => rfl
        . exact fun _ => rfl
        . intro row
          simp only [Filters.admits, smtToEntry, statusFilter_eq_some hstatus]
          ac_rfl

theorem queryAdviceBoundaryRows_eq (hcursor : IsRowCursor cursorKey) (limit : Nat)
    : queryAdviceBoundaryRows otherText db filters cursorKey limit
        = (sortByKey entrySortKey
            ((matchingRows otherText db filters .adviceBoundary).filter (isAfter cursorKey))).take
              limit := by
  unfold queryAdviceBoundaryRows matchingRows
  cases hmatter : filters.matterId with
  | none => exact (take_sortByKey_nil cursorKey limit).symm
  | some matterId =>
    cases hstatus : statusFilter adviceBoundaryActionPrefix filters.action with
    | none =>
      dsimp only
      rw [filter_admits_eq_nil hstatus (fun row => rfl), take_sortByKey_nil]
    | some status =>
      refine map_select .adviceBoundary hcursor ?_ ?_ ?_ ?_ limit db.decisions
      . exact fun _ => rfl
      . exact fun _ => rfl
      . exact fun _ => rfl
      . intro row
        simp only [Filters.admits, abdToEntry, statusFilter_eq_some hstatus]
        ac_rfl

/--
A query is what the source has after the cursor, sorted and limited.
-/
theorem query_eq (hcursor : IsRowCursor cursorKey) (limit : Nat) (source : Source)
    : query otherText db filters cursorKey limit source
        = (sortByKey entrySortKey
            ((matchingRows otherText db filters source).filter (isAfter cursorKey))).take limit := by
  cases source with
  | audit => exact queryAuditRows_eq hcursor limit
  | stateMachine => exact queryStateMachineRows_eq hcursor limit
  | adviceBoundary => exact queryAdviceBoundaryRows_eq hcursor limit

end Queries

section Keys

theorem sourceRowId_matchingRows {source : Source} {entry : TimelineEntry}
    (h : entry ∈ matchingRows otherText db filters source)
    : entry.source = source ∧ ∃ id : Uuid, entry.sourceRowId = id.str := by
  cases source with
  | audit =>
    have h := List.mem_of_mem_filter h
    have ⟨r, _, hr⟩ := List.mem_map.mp h
    exact hr ▸ ⟨rfl, r.id, rfl⟩
  | stateMachine =>
    unfold matchingRows at h
    dsimp only at h
    split at h
    . have ⟨row, _, hrow⟩ := List.mem_map.mp (List.mem_of_mem_filter h)
      exact hrow ▸ ⟨rfl, row.fst.id, rfl⟩
    . contradiction
  | adviceBoundary =>
    unfold matchingRows at h
    dsimp only at h
    split at h
    . have ⟨r, _, hr⟩ := List.mem_map.mp (List.mem_of_mem_filter h)
      exact hr ▸ ⟨rfl, r.id, rfl⟩
    . contradiction

/--
An instance has one definition and a transition has one instance, so the join repeats no transition.
-/
theorem nodup_id_joinedTransitions (db : TimelineTables)
    : (db.joinedTransitions.map fun row => row.fst.id).Nodup := by
  refine List.Nodup.sublist (map_flatMap_sublist (fun t => ?_) db.transitions) db.transitions_id
  cases filter_key_eq db.instances_id t.instanceId with
  | inl hnil => simp [hnil]
  | inr hone =>
    have ⟨i, hi⟩ := hone
    rw [hi, List.flatMap_singleton]
    cases filter_key_eq db.definitions_id i.definitionId with
    | inl hnil => simp [hnil]
    | inr hone =>
      have ⟨d, hd⟩ := hone
      simp [hd]

/--
The row ids of entries that are made from some rows of a table.
-/
theorem nodup_sourceRowId {α : Type} {toEntry : α → TimelineEntry} {id : α → Uuid} {rows : List α}
    (hrows : (rows.map id).Nodup) (hid : ∀ row, (toEntry row).sourceRowId = (id row).str)
    (base : α → Bool) (p : TimelineEntry → Bool)
    : ((((rows.filter base).map toEntry).filter p).map TimelineEntry.sourceRowId).Nodup := by
  have hsub : List.Sublist ((((rows.filter base).map toEntry).filter p).map TimelineEntry.sourceRowId)
      ((rows.map toEntry).map TimelineEntry.sourceRowId) := by
    apply List.Sublist.map
    exact List.filter_sublist.trans (List.filter_sublist.map toEntry)
  refine List.Nodup.sublist hsub ?_
  have hstr : (rows.map toEntry).map TimelineEntry.sourceRowId = (rows.map id).map Uuid.str := by
    rw [List.map_map, List.map_map]
    exact List.map_congr_left fun row _ => hid row
  rw [hstr]
  exact hrows.map Uuid.str_injective

theorem nodup_sourceRowId_matchingRows (source : Source)
    : ((matchingRows otherText db filters source).map TimelineEntry.sourceRowId).Nodup := by
  cases source with
  | audit =>
    unfold matchingRows
    dsimp only
    refine nodup_sourceRowId db.auditEntries_id ?_ _ _
    exact fun _ => rfl
  | stateMachine =>
    unfold matchingRows
    dsimp only
    split
    . refine nodup_sourceRowId (nodup_id_joinedTransitions db) ?_ _ _
      exact fun _ => rfl
    . exact .nil
  | adviceBoundary =>
    unfold matchingRows
    dsimp only
    split
    . refine nodup_sourceRowId db.decisions_id ?_ _ _
      exact fun _ => rfl
    . exact .nil

/--
No two rows have the same key, whatever sources they are from.
-/
theorem nodup_entrySortKey {sources : List Source} (hsources : sources.Nodup)
    : ((sources.flatMap (matchingRows otherText db filters)).map entrySortKey).Nodup := by
  rw [List.map_flatMap, List.nodup_flatMap]
  constructor
  . intro source _
    apply List.Nodup.of_map (fun key : Key => (ofLex (ofLex key).snd).snd)
    rw [List.map_map]
    exact nodup_sourceRowId_matchingRows source
  . refine hsources.imp ?_
    intro a b hab key hkey hkey'
    have ⟨entry, hentry, heq⟩ := List.mem_map.mp hkey
    have ⟨entry', hentry', heq'⟩ := List.mem_map.mp hkey'
    have horder : entry.source.order = entry'.source.order :=
      congrArg (fun key : Key => (ofLex (ofLex key).snd).fst) (heq.trans heq'.symm)
    apply hab
    rw [← (sourceRowId_matchingRows hentry).left, ← (sourceRowId_matchingRows hentry').left]
    exact Source.order_injective horder

end Keys

section Pages

variable {limit : Nat} {sources : List Source}

/--
All rows of the sources that match the filters, in the order of the timeline.
-/
def timeline (otherText : Json → PyStr) (db : TimelineTables) (filters : Filters)
    (sources : List Source) : List TimelineEntry :=
  sortByKey entrySortKey (sources.flatMap (matchingRows otherText db filters))

theorem pairwise_timeline (hsources : sources.Nodup)
    : (timeline otherText db filters sources).Pairwise fun a b => entrySortKey a < entrySortKey b :=
  pairwise_lt_sortByKey (nodup_entrySortKey hsources)

theorem checkSources_name (sources : List Source)
    : checkSources (some (sources.map Source.name)) = .ok sources := by
  have hunknown : ((sources.map Source.name).filter fun s => (Source.ofName? s).isNone) = [] := by
    rw [List.filter_map, List.map_eq_nil_iff, List.filter_eq_nil_iff]
    intro source _
    simp [Source.ofName?_name]
  have hknown : (sources.map Source.name).filterMap Source.ofName? = sources := by
    rw [List.filterMap_map]
    have : Source.ofName? ∘ Source.name = some := funext Source.ofName?_name
    rw [this, List.filterMap_some]
  unfold checkSources
  simp only [hunknown, hknown, if_true]

/--
What is pulled from the sources begins like what they have after the cursor.
-/
theorem take_pulls_eq {cursorKey : Option CursorKey} (hcursor : IsRowCursor cursorKey)
    (hsources : sources.Nodup)
    : ((sortByKey entrySortKey (sources.flatMap
          (query otherText db filters cursorKey (limit + 1)))).filter (isAfter cursorKey)).take (limit + 1)
        = ((timeline otherText db filters sources).filter (isAfter cursorKey)).take (limit + 1) := by
  have hkeys : ((sources.flatMap (matchingRows otherText db filters)).map entrySortKey).Nodup :=
    nodup_entrySortKey hsources
  have hquery : query otherText db filters cursorKey (limit + 1)
      = fun source => (sortByKey entrySortKey
          ((matchingRows otherText db filters source).filter (isAfter cursorKey))).take (limit + 1) :=
    funext fun source => query_eq hcursor (limit + 1) source
  have hafter : (sortByKey entrySortKey (sources.flatMap
        (query otherText db filters cursorKey (limit + 1)))).filter (isAfter cursorKey)
      = sortByKey entrySortKey (sources.flatMap
        (query otherText db filters cursorKey (limit + 1))) := by
    rw [List.filter_eq_self]
    intro entry hentry
    have ⟨source, _, hentry⟩ := List.mem_flatMap.mp (mem_sortByKey.mp hentry)
    rw [hquery] at hentry
    exact (List.mem_filter.mp (mem_sortByKey.mp (List.mem_of_mem_take hentry))).right
  have hflat : (sources.flatMap fun source =>
        (matchingRows otherText db filters source).filter (isAfter cursorKey))
      = (sources.flatMap (matchingRows otherText db filters)).filter (isAfter cursorKey) :=
    List.filter_flatMap.symm
  have hpart : ((sources.flatMap fun source =>
      (matchingRows otherText db filters source).filter (isAfter cursorKey)).map entrySortKey).Nodup := by
    rw [hflat]
    exact List.Nodup.sublist (List.filter_sublist.map entrySortKey) hkeys
  rw [hafter, hquery, take_sortByKey_flatMap sources _ hpart, hflat, sortByKey_filter hkeys]
  rfl

theorem isPage_pageOf {pulls rest : List TimelineEntry}
    (h : pulls.take (limit + 1) = rest.take (limit + 1))
    : IsPage ReconstructionPage.nextCursor ReconstructionPage.entries encodeCursor limit rest
        (pageOf limit pulls) := by
  have hlength := length_lt_iff_of_take_eq h
  have htake : pulls.take limit = rest.take limit := by
    have := congrArg (List.take limit) h
    rwa [List.take_take, List.take_take, Nat.min_eq_left (by omega)] at this
  unfold pageOf
  by_cases hmore : limit < pulls.length
  . rw [if_pos hmore, htake]
    exact ⟨rfl, by rw [if_pos (hlength.mp hmore)]⟩
  . have hall : pulls.take limit = pulls := List.take_of_length_le (by omega)
    rw [if_neg hmore]
    exact ⟨hall.symm.trans htake, by rw [if_neg (by omega)]⟩

/--
A page is cut off the part of the timeline that is after its cursor.
-/
theorem reconstruct_eq {cursor : Option PyStr} {cursorKey : Option CursorKey}
    (hcursorKey : checkCursor parseFloat cursor = .ok cursorKey) (hcursor : IsRowCursor cursorKey)
    (hlimit : 0 < limit) (hmax : limit ≤ maxLimit) (hsources : sources.Nodup)
    : ∃ page, reconstruct otherText parseFloat db filters (some (sources.map Source.name)) cursor limit
          = .ok page
        ∧ IsPage ReconstructionPage.nextCursor ReconstructionPage.entries encodeCursor limit
          ((timeline otherText db filters sources).filter (isAfter cursorKey)) page := by
  refine ⟨_, ?_, isPage_pageOf (take_pulls_eq hcursor hsources)⟩
  unfold reconstruct
  rw [if_neg (by omega), checkSources_name, hcursorKey]
  rfl

theorem checkCursor_eq {cursor : PyStr} {decoded : Decoded} {source : Source}
    (hdecoded : decodeCursor parseFloat cursor = .ok decoded)
    (hsource : Source.ofName? decoded.source = some source)
    : checkCursor parseFloat (some cursor)
        = .ok (some ⟨decoded.occurredAt, source.order, decoded.sourceRowId⟩) := by
  simp only [checkCursor, hdecoded, cursorKey, hsource, bind, Except.bind]
  rfl

theorem checkCursor_encodeCursor {entry : TimelineEntry} {id : Uuid} (hid : entry.sourceRowId = id.str)
    : checkCursor parseFloat (some (encodeCursor entry))
        = .ok (some ⟨entry.occurredAt, entry.source.order, entry.sourceRowId⟩) :=
  checkCursor_eq (decodeCursor_encodeCursor parseFloat hid) (Source.ofName?_name entry.source)

theorem isAfter_entry (entry : TimelineEntry)
    : isAfter (some ⟨entry.occurredAt, entry.source.order, entry.sourceRowId⟩)
        = fun other => decide (entrySortKey entry < entrySortKey other) := by
  funext other
  unfold isAfter
  rw [Option.all_some]
  rfl

/--
The pages of a walk, put together, are the timeline.
-/
theorem exists_walk_timeline (hlimit : 0 < limit) (hmax : limit ≤ maxLimit) (hsources : sources.Nodup)
    : ∃ pages,
        Walk (fun cursor =>
            reconstruct otherText parseFloat db filters (some (sources.map Source.name)) cursor limit)
          ReconstructionPage.nextCursor none pages
        ∧ pages.flatMap ReconstructionPage.entries = timeline otherText db filters sources
        ∧ ∀ page ∈ pages.dropLast, page.entries.length = limit := by
  apply exists_walk hlimit (pairwise_timeline hsources)
  . have hfirst : checkCursor parseFloat none = .ok none := rfl
    have hall : (timeline otherText db filters sources).filter (isAfter none)
        = timeline otherText db filters sources := by
      simp [isAfter]
    rw [← hall]
    exact reconstruct_eq hfirst (fun k hk => by contradiction) hlimit hmax hsources
  . intro entry hentry
    have ⟨source, _, hentry⟩ := List.mem_flatMap.mp (mem_sortByKey.mp hentry)
    have ⟨_, id, hid⟩ := sourceRowId_matchingRows hentry
    have hcursor : IsRowCursor (some ⟨entry.occurredAt, entry.source.order, entry.sourceRowId⟩) := by
      intro k hk
      rw [Option.mem_some_iff] at hk
      exact ⟨id, by rw [← hk, hid]⟩
    rw [← isAfter_entry]
    exact reconstruct_eq (checkCursor_encodeCursor hid) hcursor hlimit hmax hsources

end Pages

end AuditReconstruction
