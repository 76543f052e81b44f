import Legalise.MatterContext.Lineages

/-!
This module contains when each lineage of items has one current value.
-/

namespace MatterContext

section Current

variable {rows : List MatterContextItem} {lineage : Uuid → Uuid} {start : Uuid}

/--
One item of the lineage has not been superseded, the one that was written last.
-/
def HasCurrent (rows : List MatterContextItem) (lineage : Uuid → Uuid) (start : Uuid) : Prop :=
  ∃ current, (ofLineage rows lineage start).filter (fun item => item.supersededById.isNone) = [current]
    ∧ (ofLineage rows lineage start).getLast? = some current

theorem mem_ofLineage_iff {item : MatterContextItem}
    : item ∈ ofLineage rows lineage start ↔ item ∈ rows ∧ lineage item.id = start := by
  simp [ofLineage]

/--
What an unlimited read without filters returns of one lineage.
-/
theorem filter_lineage_of_readItems {env : Env} {scan : List MatterContextItem} {request : ReadItems}
    {items : List MatterContextItem} (hscan : scan.Perm rows) (hlimit : rows.length ≤ request.limit)
    (hitems : readItems env scan request = .ok items)
    : items.Perm (rows.filter request.selects) := by
  unfold readItems at hitems
  have ⟨_, _, hitems⟩ := (Except.bind_eq_ok_iff _ _ _).mp hitems
  rw [Except.pure_eq_ok_iff] at hitems
  have hlength : ((scan.filter request.selects).mergeSort fun a b => b.createdAt ≤ a.createdAt).length
      ≤ request.limit := by
    rw [List.length_mergeSort]
    exact (List.length_filter_le _ _).trans (hscan.length_eq.trans_le hlimit)
  rw [← hitems, List.take_of_length_le hlength]
  exact (List.mergeSort_perm _ _).trans (hscan.filter _)

theorem oneCurrentValue_iff {trace : Trace} (h : Inv trace)
    : OneCurrentValue trace.state.table.rows trace.lineage
        ↔ ∀ item ∈ trace.state.table.rows,
          HasCurrent trace.state.table.rows trace.lineage (trace.lineage item.id) := by
  constructor
  . exact fun hone => hone.current
  . intro hcurrent
    refine ⟨ends_of_pointsForward h.forward, h.targets, hcurrent, ?_⟩
    intro env scan request items hscan hversion hsource hsuperseded hlimit hitems
    have hperm := filter_lineage_of_readItems hscan hlimit hitems
    have hselects (item : MatterContextItem) : request.selects item
        = (item.matterId = request.matterId ∧ item.nameSpace = request.nameSpace
          ∧ item.supersededById.isNone) := by
      simp [ReadItems.selects, hversion, hsource, hsuperseded, and_assoc]
    constructor
    . intro item hitem
      have ⟨hmem, hselected⟩ := List.mem_filter.mp (hperm.subset hitem)
      rw [hselects] at hselected
      exact ⟨hmem, hselected.left, hselected.right.left⟩
    . intro item hitem hmatterId hnameSpace
      have ⟨current, hnull, hlast⟩ := hcurrent item hitem
      rw [hlast]
      refine List.perm_singleton.mp ((hperm.filter _).trans (.of_eq ?_))
      rw [← hnull, ofLineage, List.filter_filter, List.filter_filter]
      refine List.filter_congr fun other hother => ?_
      rw [Bool.eq_iff_iff]
      simp only [Bool.and_eq_true, hselects, decide_eq_true_eq]
      constructor
      . exact fun hother => ⟨hother.right.right.right, hother.left⟩
      . rintro ⟨hpointer, hlineage⟩
        -- The items of a lineage are in the matter and the namespace of its start.
        have ⟨start, hstart, hid, _, hmatter, hspace⟩ := h.starts item hitem
        have ⟨start', hstart', hid', _, hmatter', hspace'⟩ := h.starts other hother
        have heq := eq_of_id_eq hstart hstart' (hid.symm.trans (hlineage.symm.trans hid'))
        rw [heq] at hmatter hspace
        exact ⟨hlineage, (hmatter'.symm.trans hmatter).trans hmatterId,
          (hspace'.symm.trans hspace).trans hnameSpace, hpointer⟩

end Current

section Step

variable {trace : Trace} {event : Event} {old : Option MatterContextItem} {new : MatterContextItem}

theorem ofLineage_append (rows : List MatterContextItem) (lineage : Uuid → Uuid) (start : Uuid)
    (hfresh : new.id ∉ rows.map MatterContextItem.id) (old : Option MatterContextItem) (l : Uuid)
    : ofLineage (rows.map (pointFrom old new) ++ [new]) (Function.update lineage new.id start) l
      = (ofLineage rows lineage l).map (pointFrom old new) ++ if start = l then [new] else [] := by
  have hold : (rows.filter ((fun item => decide (Function.update lineage new.id start item.id = l))
      ∘ pointFrom old new)) = rows.filter fun item => lineage item.id = l := by
    refine List.filter_congr fun item hitem => ?_
    have hne : item.id ≠ new.id := fun heq => hfresh (heq ▸ List.mem_map_of_mem hitem)
    simp [Function.update_of_ne hne]
  unfold ofLineage
  rw [List.filter_append, List.filter_map, hold]
  congr 1
  by_cases h : start = l <;> simp [h]

theorem filter_pointFrom (rows : List MatterContextItem)
    : (rows.map (pointFrom old new)).filter (fun item => item.supersededById.isNone)
      = (rows.filter fun item => item.supersededById.isNone).filter
        fun item => old.map MatterContextItem.id ≠ some item.id := by
  induction rows with
  | nil => rfl
  | cons item rows ih =>
    rw [List.map_cons, List.filter_cons, ih]
    by_cases hid : old.map MatterContextItem.id = some item.id
    . by_cases hpointer : item.supersededById.isNone = true <;>
        simp [supersededById_pointFrom, hid, hpointer]
    . rw [pointFrom_of_ne new hid, List.filter_cons]
      split
      . exact (List.filter_cons_of_pos (by simpa using hid)).symm
      . rfl

/--
A lineage that an added item does not continue stays as it is.
-/
theorem map_pointFrom_ofLineage {rows : List MatterContextItem} {lineage : Uuid → Uuid} {l : Uuid}
    (h : ∀ item, old = some item → lineage item.id ≠ l)
    : (ofLineage rows lineage l).map (pointFrom old new) = ofLineage rows lineage l := by
  refine (List.map_congr_left fun item hitem => ?_).trans (List.map_id _)
  refine pointFrom_of_ne new fun hid => ?_
  have ⟨named, hnamed, heq⟩ := Option.map_eq_some_iff.mp hid
  exact h named hnamed (heq ▸ (mem_ofLineage_iff.mp hitem).right)

theorem hasCurrent_append_of_ne {rows : List MatterContextItem} {lineage : Uuid → Uuid} {start l : Uuid}
    (hfresh : new.id ∉ rows.map MatterContextItem.id) (hne : start ≠ l)
    (hold : ∀ item, old = some item → lineage item.id = start)
    : HasCurrent (rows.map (pointFrom old new) ++ [new]) (Function.update lineage new.id start) l
        ↔ HasCurrent rows lineage l := by
  have hsame : (ofLineage rows lineage l).map (pointFrom old new) = ofLineage rows lineage l :=
    map_pointFrom_ofLineage fun item hitem heq => hne ((hold item hitem).symm.trans heq)
  unfold HasCurrent
  rw [ofLineage_append rows lineage start hfresh, if_neg hne, List.append_nil, hsame]

/--
The lineage that an added item continues has one current item if its current item was the superseded one.
-/
theorem hasCurrent_append_iff {rows : List MatterContextItem} {lineage : Uuid → Uuid} {start : Uuid}
    (hfresh : new.id ∉ rows.map MatterContextItem.id) (hpointer : new.supersededById = none)
    : HasCurrent (rows.map (pointFrom old new) ++ [new]) (Function.update lineage new.id start) start
        ↔ ∀ item ∈ ofLineage rows lineage start, item.supersededById = none
          → old.map MatterContextItem.id = some item.id := by
  unfold HasCurrent
  rw [ofLineage_append rows lineage start hfresh, if_pos rfl, List.filter_append, filter_pointFrom]
  have hnew : [new].filter (fun item => item.supersededById.isNone) = [new] := by simp [hpointer]
  rw [hnew, List.getLast?_append, List.getLast?_singleton, Option.some_or]
  constructor
  . rintro ⟨current, hcurrent, hlast⟩ item hitem hnone
    rw [← Option.some.inj hlast] at hcurrent
    have hempty := List.append_left_eq_self.mp hcurrent
    rw [List.filter_eq_nil_iff] at hempty
    simpa using hempty item (List.mem_filter.mpr ⟨hitem, by simp [hnone]⟩)
  . intro hold
    refine ⟨new, ?_, rfl⟩
    rw [List.append_left_eq_self, List.filter_eq_nil_iff]
    intro item hitem
    have ⟨hitem, hnone⟩ := List.mem_filter.mp hitem
    simpa using hold item hitem (Option.isNone_iff_eq_none.mp hnone)

/--
A supersession that succeeds finds an item that has not been superseded.
-/
def SupersedesCurrent (trace : Trace) (event : Event) : Prop :=
  ∀ old new, trace.state.added? event = some (some old, new)
    → ∀ item ∈ trace.state.table.rows, item.id = old.id → item.supersededById = none

theorem oneCurrentValue_exec_iff_of_added (h : Inv trace)
    (hone : OneCurrentValue trace.state.table.rows trace.lineage)
    (hadded : trace.state.added? event = some (old, new))
    : OneCurrentValue (trace.exec event).state.table.rows (trace.exec event).lineage
        ↔ ∀ item ∈ ofLineage trace.state.table.rows trace.lineage (startOf trace old new),
          item.supersededById = none → old.map MatterContextItem.id = some item.id := by
  have hadds := adds_of_added? h.loads hadded
  have hrows : (trace.exec event).state.table.rows
      = trace.state.table.rows.map (pointFrom old new) ++ [new] := hadds.rows
  have hstart (item : MatterContextItem) (hitem : old = some item)
      : trace.lineage item.id = startOf trace old new := by
    rw [hitem]
    rfl
  rw [oneCurrentValue_iff (h.exec event), hrows, lineage_exec hadded,
    ← hasCurrent_append_iff hadds.fresh hadds.pointer]
  constructor
  . intro hall
    simpa using hall new (List.mem_append_right _ List.mem_cons_self)
  . intro hstarted item hitem
    by_cases heq : startOf trace old new = Function.update trace.lineage new.id (startOf trace old new) item.id
    . rw [← heq]
      exact hstarted
    . rw [hasCurrent_append_of_ne hadds.fresh heq hstart]
      have hne : item.id ≠ new.id := fun hid => heq (by rw [hid, Function.update_self])
      rcases List.mem_append.mp hitem with hitem | hitem
      . obtain ⟨row, hrow, rfl⟩ := List.mem_map.mp hitem
        rw [Function.update_of_ne hne, id_pointFrom]
        exact hone.current row hrow
      . exact absurd (congrArg MatterContextItem.id (List.mem_singleton.mp hitem)) hne

/--
One step: each lineage keeps one current value exactly if a supersession finds the current one.
-/
theorem oneCurrentValue_exec_iff (h : Inv trace)
    (hone : OneCurrentValue trace.state.table.rows trace.lineage)
    : OneCurrentValue (trace.exec event).state.table.rows (trace.exec event).lineage
        ↔ SupersedesCurrent trace event := by
  cases hadded : trace.state.added? event with
  | none =>
    have htable : (trace.exec event).state.table = trace.state.table := (unchanged_of_added? hadded).left
    have hlineage : (trace.exec event).lineage = trace.lineage := by simp [Trace.exec, hadded]
    rw [htable, hlineage]
    exact iff_of_true hone (fun old new hsome => by rw [hadded] at hsome; cases hsome)
  | some added =>
    obtain ⟨old, new⟩ := added
    have hadds := adds_of_added? h.loads hadded
    rw [oneCurrentValue_exec_iff_of_added h hone hadded]
    unfold SupersedesCurrent
    rw [hadded]
    cases old with
    | none =>
      refine iff_of_true (fun item hitem _ => ?_) (fun old' new' hsome => by simp at hsome)
      obtain ⟨hmem, hlineage⟩ := mem_ofLineage_iff.mp hitem
      obtain ⟨start, hstart, hid, _⟩ := h.starts item hmem
      have heq : start.id = new.id := hid.symm.trans hlineage
      exact absurd (heq ▸ List.mem_map_of_mem hstart) hadds.fresh
    | some old =>
      obtain ⟨⟨call, hcall⟩, _⟩ := hadds.named old rfl
      obtain ⟨row, hrow, hrowId, _⟩ := h.loads call old hcall
      obtain ⟨current, hnull, _⟩ := hone.current row hrow
      rw [hrowId] at hnull
      have hunique (item : MatterContextItem) (hitem : item ∈ trace.state.table.rows)
          (hlineage : trace.lineage item.id = trace.lineage old.id) (hpointer : item.supersededById = none)
          : item = current := by
        refine List.mem_singleton.mp (hnull ▸ List.mem_filter.mpr ⟨?_, by simp [hpointer]⟩)
        exact mem_ofLineage_iff.mpr ⟨hitem, hlineage⟩
      obtain ⟨hmem, hpointer⟩ := List.mem_filter.mp (hnull ▸ List.mem_singleton_self current)
      have hpointer := Option.isNone_iff_eq_none.mp hpointer
      constructor
      . intro hold named new' hsome item hitem hid
        simp only [Option.some.injEq, Prod.mk.injEq] at hsome
        have hcurrentId := Option.some.inj (hold current hmem hpointer)
        rw [← hsome.left] at hid
        rw [eq_of_id_eq hitem (mem_ofLineage_iff.mp hmem).left (hid.trans hcurrentId)]
        exact hpointer
      . intro hgood item hitem hnone
        obtain ⟨hitem, hlineage⟩ := mem_ofLineage_iff.mp hitem
        have hrowNone := hgood old new rfl row hrow hrowId
        rw [hunique item hitem hlineage hnone, ← hunique row hrow (congrArg _ hrowId) hrowNone, hrowId]
        rfl

end Step

section Run

/--
In all states of a run each lineage has one current value exactly if no supersession that succeeds finds
its item superseded already.
-/
theorem oneCurrentValue_iff_supersedesCurrent (events : List Event)
    : (∀ earlier, earlier <+: events →
          OneCurrentValue (earlier.foldl Trace.exec .initial).state.table.rows
            (earlier.foldl Trace.exec .initial).lineage)
        ↔ ∀ earlier event, earlier ++ [event] <+: events →
          SupersedesCurrent (earlier.foldl Trace.exec .initial) event := by
  refine @Runs.holds_iff_good Trace Event Trace.exec Inv
    (fun trace => OneCurrentValue trace.state.table.rows trace.lineage) SupersedesCurrent
    (fun _ event h => h.exec event) (fun _ _ h hone => oneCurrentValue_exec_iff h hone) .initial inv_initial ?_
    events
  exact (oneCurrentValue_iff inv_initial).mpr fun item hitem => absurd hitem List.not_mem_nil

/--
A user with the capability to write facts, and their schema.
-/
def Env.plain : Env where
  grants := {
    rows := [{
      id := Uuid.ofNat 1
      userId := Uuid.ofNat 2
      plugin := py "core"
      skill := py "matter_context"
      capability := capabilityWrite (py "facts")
      scopeType := Capabilities.scopeTypeWorkspace
      scopeId := none
    }]
    ids := List.nodup_singleton _
    keys := List.nodup_singleton _
    fits := by decide +kernel
  }
  schemas := [{
    id := Uuid.ofNat 3, nameSpace := py "facts", version := py "1.0.0", jsonSchema := [], registeredAt := 0
  }]
  schemaErrors _ _ := []

/--
One item that is superseded twice.
-/
def supersededTwice : List Event := [
  .write .plain {
    matterId := Uuid.ofNat 4, nameSpace := py "facts", payload := [], userId := Uuid.ofNat 2
    newId := Uuid.ofNat 5, now := 1
  },
  .load 0 (Uuid.ofNat 4) (Uuid.ofNat 5),
  .supersede 0 .plain { newPayload := [], userId := Uuid.ofNat 2, newId := Uuid.ofNat 6, now := 2 },
  .load 1 (Uuid.ofNat 4) (Uuid.ofNat 5),
  .supersede 1 .plain { newPayload := [], userId := Uuid.ofNat 2, newId := Uuid.ofNat 7, now := 3 }
]

theorem not_oneCurrentValue
    : ¬ ∀ events : List Event, OneCurrentValue (events.foldl Trace.exec .initial).state.table.rows
        (events.foldl Trace.exec .initial).lineage := by
  intro h
  have hnulls : (supersededTwice.foldl Trace.exec .initial).state.table.rows.all (fun item =>
      ((ofLineage (supersededTwice.foldl Trace.exec .initial).state.table.rows
        (supersededTwice.foldl Trace.exec .initial).lineage
        ((supersededTwice.foldl Trace.exec .initial).lineage item.id)).filter
          (fun item => item.supersededById.isNone)).length = 2) := by
    decide +kernel
  have hlength : 0 < (supersededTwice.foldl Trace.exec .initial).state.table.rows.length := by
    decide +kernel
  obtain ⟨item, hitem⟩ := List.exists_mem_of_length_pos hlength
  have ⟨current, hcurrent, _⟩ := (h supersededTwice).current item hitem
  have htwo := List.all_eq_true.mp hnulls item hitem
  rw [hcurrent] at htwo
  simp at htwo

end Run

end MatterContext
