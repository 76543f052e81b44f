import Legalise.MatterContext.Store
import Legalise.Lib.Runs

/-!
This module contains interleaved writes and supersessions, the lineages that they continue, and when each
lineage has one current item.
-/

namespace MatterContext

/--
The committed items, the audit rows, and what the supersessions in progress have loaded.
-/
structure State where
  table : ItemTable
  audit : List AuditLog
  loaded : Nat → Option MatterContextItem

/--
The transactions of the calls. That of a supersession loads the old item first, and its writes become
visible with its commit.
-/
inductive Event where
  | write (env : Env) (request : WriteItem)
  | load (call : Nat) (matterId itemId : Uuid)
  | supersede (call : Nat) (env : Env) (request : SupersedeItem)

/--
The audit rows that are committed with an error.
-/
def StoreError.audit : StoreError → List AuditLog
  | .phase1Blocked _ audit => audit
  | _ => []

namespace State

variable (s : State)

def commit (result : Except StoreError (ItemTable × MatterContextItem × List AuditLog)) : State :=
  match result with
  | .ok (t, _, audit) => { s with table := t, audit := s.audit ++ audit }
  | .error e => { s with audit := s.audit ++ e.audit }

def exec : Event → State
  | .write env request => s.commit (writeItem env request s.table)
  | .load call matterId itemId =>
    { s with loaded := Function.update s.loaded call (loadItem s.table matterId itemId).toOption }
  | .supersede call env request =>
    match s.loaded call with
    | none => s
    | some old => s.commit (supersedeItem env s.table old request)

/--
The item that an event adds, with the one that it supersedes.
-/
def added? : Event → Option (Option MatterContextItem × MatterContextItem)
  | .write env request => (writeItem env request s.table).toOption.map fun (_, new, _) => (none, new)
  | .load _ _ _ => none
  | .supersede call env request => do
    let old ← s.loaded call
    let (_, new, _) ← (supersedeItem env s.table old request).toOption
    return (some old, new)

end State

/--
The state, and the lineage of each item, named by the item that started it.
-/
structure Trace where
  state : State
  lineage : Uuid → Uuid

namespace Trace

def initial : Trace where
  state := { table := .empty, audit := [], loaded := fun _ => none }
  lineage := id

def exec (trace : Trace) (event : Event) : Trace where
  state := trace.state.exec event
  lineage :=
    match trace.state.added? event with
    | none => trace.lineage
    | some (none, new) => Function.update trace.lineage new.id new.id
    | some (some old, new) => Function.update trace.lineage new.id (trace.lineage old.id)

end Trace

section Lineages

variable (rows : List MatterContextItem) (lineage : Uuid → Uuid)

def ofLineage (start : Uuid) : List MatterContextItem :=
  rows.filter fun item => lineage item.id = start

/--
`superseded_by_id` leads from one item to the other.
-/
def Supersedes (item next : MatterContextItem) : Prop :=
  next ∈ rows ∧ item.supersededById = some next.id

/--
The pointers form disjoint chains, one for each lineage, each of them ends at the item that was written last,
and these are the items that a read without filters returns.
-/
structure OneCurrentValue : Prop where
  ends : ∀ item ∈ rows, ∃ last, Relation.ReflTransGen (Supersedes rows) item last ∧ last.supersededById = none
  targets : ∀ item ∈ rows, ∀ other ∈ rows, item.supersededById ≠ none
    → item.supersededById = other.supersededById → item = other
  current : ∀ item ∈ rows, ∃ current,
    (ofLineage rows lineage (lineage item.id)).filter (fun item => item.supersededById.isNone) = [current]
      ∧ (ofLineage rows lineage (lineage item.id)).getLast? = some current
  reads : ∀ env scan (request : ReadItems) items, scan.Perm rows → request.schemaVersion = none
    → request.sourceType = none → request.includeSuperseded = false → rows.length ≤ request.limit
    → readItems env scan request = .ok items
    → (∀ item ∈ items, item ∈ rows ∧ item.matterId = request.matterId ∧ item.nameSpace = request.nameSpace)
      ∧ ∀ item ∈ rows, item.matterId = request.matterId → item.nameSpace = request.nameSpace
        → items.filter (fun read => lineage read.id = lineage item.id)
          = (ofLineage rows lineage (lineage item.id)).getLast?.toList

end Lineages

section Added

/--
What an added item does to the rows that are there.
-/
def pointFrom (old : Option MatterContextItem) (new item : MatterContextItem) : MatterContextItem :=
  match old with
  | none => item
  | some old => point old.id new.id item

@[simp]
theorem id_pointFrom (old : Option MatterContextItem) (new item : MatterContextItem)
    : (pointFrom old new item).id = item.id := by
  cases old with
  | none => rfl
  | some old => exact id_point _ _ _

@[simp]
theorem matterId_pointFrom (old : Option MatterContextItem) (new item : MatterContextItem)
    : (pointFrom old new item).matterId = item.matterId := by
  cases old with
  | none => rfl
  | some old => exact matterId_point _ _ _

@[simp]
theorem nameSpace_pointFrom (old : Option MatterContextItem) (new item : MatterContextItem)
    : (pointFrom old new item).nameSpace = item.nameSpace := by
  cases old with
  | none => rfl
  | some old => exact nameSpace_point _ _ _

theorem supersededById_pointFrom (old : Option MatterContextItem) (new item : MatterContextItem)
    : (pointFrom old new item).supersededById
      = if old.map MatterContextItem.id = some item.id then some new.id else item.supersededById := by
  cases old with
  | none => simp [pointFrom]
  | some old =>
    simp only [pointFrom, point, Option.map_some, Option.some.injEq, eq_comm (a := item.id)]
    split <;> rfl

/--
What an event that adds an item does: the new row, with no pointer, comes after all others, and belongs to
the same matter and namespace as the item that it supersedes.
-/
structure Adds (s : State) (event : Event) (old : Option MatterContextItem) (new : MatterContextItem) : Prop where
  rows : (s.exec event).table.rows = s.table.rows.map (pointFrom old new) ++ [new]
  loaded : (s.exec event).loaded = s.loaded
  fresh : new.id ∉ s.table.rows.map MatterContextItem.id
  pointer : new.supersededById = none
  named : ∀ item, old = some item → (∃ call, s.loaded call = some item) ∧ new.matterId = item.matterId
    ∧ new.nameSpace = item.nameSpace

variable {s : State} {event : Event}

/--
The loaded items are rows, apart from the pointer.
-/
def LoadsRows (s : State) : Prop :=
  ∀ call old, s.loaded call = some old → ∃ item ∈ s.table.rows, item.id = old.id
    ∧ item.matterId = old.matterId ∧ item.nameSpace = old.nameSpace

theorem unchanged_of_added? (h : s.added? event = none)
    : (s.exec event).table = s.table
      ∧ ∀ call old, (s.exec event).loaded call = some old → s.loaded call = some old ∨ old ∈ s.table.rows := by
  cases event with
  | write env request =>
    cases hresult : writeItem env request s.table with
    | error e =>
      simp only [State.exec, State.commit, hresult, true_and]
      exact fun _ _ => .inl
    | ok result => simp [State.added?, hresult, Except.toOption] at h
  | load call matterId itemId =>
    refine ⟨rfl, fun call' old hold => ?_⟩
    dsimp only [State.exec] at hold
    by_cases heq : call' = call
    . rw [heq, Function.update_self] at hold
      cases hload : loadItem s.table matterId itemId with
      | error e => simp [hload, Except.toOption] at hold
      | ok item =>
        simp only [hload, Except.toOption, Option.some.injEq] at hold
        exact .inr (hold ▸ mem_of_loadItem hload)
    . rw [Function.update_of_ne heq] at hold
      exact .inl hold
  | supersede call env request =>
    cases hloaded : s.loaded call with
    | none =>
      simp only [State.exec, hloaded, true_and]
      exact fun _ _ => .inl
    | some old =>
      cases hresult : supersedeItem env s.table old request with
      | error e =>
        simp only [State.exec, State.commit, hloaded, hresult, true_and]
        exact fun _ _ => .inl
      | ok result => simp [State.added?, hloaded, hresult, Except.toOption] at h

theorem adds_of_added? {old : Option MatterContextItem} {new : MatterContextItem} (hloads : LoadsRows s)
    (h : s.added? event = some (old, new)) : Adds s event old new := by
  cases event with
  | write env request =>
    cases hresult : writeItem env request s.table with
    | error e => simp [State.added?, hresult, Except.toOption] at h
    | ok result =>
      obtain ⟨t, item, audit⟩ := result
      simp only [State.added?, hresult, Except.toOption, Option.map_some, Option.some.injEq,
        Prod.mk.injEq] at h
      obtain ⟨rfl, rfl⟩ := h
      have hwritten := written_of_writeItem hresult
      refine ⟨?_, ?_, hwritten.fresh, hwritten.pointer, by simp⟩
      . simp only [State.exec, State.commit, hresult, hwritten.rows]
        exact congrArg (· ++ [item]) (List.map_id _).symm
      . simp [State.exec, State.commit, hresult]
  | load call matterId itemId => cases h
  | supersede call env request =>
    cases hloaded : s.loaded call with
    | none => simp [State.added?, hloaded] at h
    | some loaded =>
      cases hresult : supersedeItem env s.table loaded request with
      | error e => simp [State.added?, hloaded, hresult, Except.toOption] at h
      | ok result =>
        obtain ⟨t, item, audit⟩ := result
        simp only [State.added?, hloaded, hresult, Except.toOption, Option.bind_eq_bind, Option.bind_some,
          Option.pure_def, Option.some.injEq, Prod.mk.injEq] at h
        obtain ⟨rfl, rfl⟩ := h
        obtain ⟨inserted, hwritten, ht⟩ := written_of_supersedeItem hresult
        obtain ⟨row, hrow, hid, _⟩ := hloads call loaded hloaded
        have hne : item.id ≠ loaded.id := by
          intro heq
          exact hwritten.fresh (heq ▸ hid ▸ List.mem_map_of_mem hrow)
        refine ⟨?_, ?_, hwritten.fresh, hwritten.pointer, ?_⟩
        . simp [State.exec, State.commit, hloaded, hresult, ht, ItemTable.point, hwritten.rows, pointFrom,
            point, hne]
        . simp [State.exec, State.commit, hloaded, hresult]
        . intro named hnamed
          rw [← Option.some.inj hnamed]
          exact ⟨⟨call, hloaded⟩, hwritten.matterId, hwritten.nameSpace⟩

end Added

section Invariant

/--
Each pointer leads to an item that comes later.
-/
def PointsForward : List MatterContextItem → Prop
  | [] => True
  | item :: rest =>
    (∀ id, item.supersededById = some id → id ∈ rest.map MatterContextItem.id) ∧ PointsForward rest

structure Inv (trace : Trace) : Prop where
  loads : LoadsRows trace.state
  starts : ∀ item ∈ trace.state.table.rows, ∃ start ∈ trace.state.table.rows,
    trace.lineage item.id = start.id ∧ trace.lineage start.id = start.id
      ∧ start.matterId = item.matterId ∧ start.nameSpace = item.nameSpace
  forward : PointsForward trace.state.table.rows
  targets : ∀ item ∈ trace.state.table.rows, ∀ other ∈ trace.state.table.rows, item.supersededById ≠ none
    → item.supersededById = other.supersededById → item = other

theorem inv_initial : Inv Trace.initial where
  loads := fun call old h => by cases h
  starts := fun item h => absurd h List.not_mem_nil
  forward := trivial
  targets := fun item h => absurd h List.not_mem_nil

theorem eq_of_id_eq {t : ItemTable} {item other : MatterContextItem} (hitem : item ∈ t.rows)
    (hother : other ∈ t.rows) (h : item.id = other.id) : item = other :=
  List.inj_on_of_nodup_map t.ids hitem hother h

theorem pointFrom_of_ne {old : Option MatterContextItem} {item : MatterContextItem} (new : MatterContextItem)
    (h : old.map MatterContextItem.id ≠ some item.id) : pointFrom old new item = item := by
  cases old with
  | none => rfl
  | some old => exact if_neg (fun heq => h (congrArg some heq.symm))

theorem target_mem_of_pointsForward {rows : List MatterContextItem} (h : PointsForward rows)
    {item : MatterContextItem} (hitem : item ∈ rows) {id : Uuid} (hid : item.supersededById = some id)
    : id ∈ rows.map MatterContextItem.id := by
  induction rows with
  | nil => cases hitem
  | cons first rest ih =>
    rw [List.map_cons, List.mem_cons]
    cases List.mem_cons.mp hitem with
    | inl heq => exact .inr (h.left id (heq ▸ hid))
    | inr hrest => exact .inr (ih h.right hrest)

theorem PointsForward.append {rows : List MatterContextItem} (h : PointsForward rows)
    (old : Option MatterContextItem) {new : MatterContextItem} (hnew : new.supersededById = none)
    : PointsForward (rows.map (pointFrom old new) ++ [new]) := by
  induction rows with
  | nil => simp [PointsForward, hnew]
  | cons item rest ih =>
    refine ⟨fun id hid => ?_, ih h.right⟩
    rw [supersededById_pointFrom] at hid
    simp only [List.append_eq, List.map_append, List.map_map, List.map_cons, List.map_nil, List.mem_append,
      List.mem_singleton, Function.comp_def, id_pointFrom]
    split at hid
    . exact .inr (Option.some.inj hid).symm
    . exact .inl (h.left id hid)

theorem ends_of_pointsForward {rows : List MatterContextItem} (h : PointsForward rows)
    : ∀ item ∈ rows, ∃ last, Relation.ReflTransGen (Supersedes rows) item last
      ∧ last.supersededById = none := by
  induction rows with
  | nil => exact fun item hitem => absurd hitem List.not_mem_nil
  | cons first rest ih =>
    have hmono (item last : MatterContextItem) (hreaches : Relation.ReflTransGen (Supersedes rest) item last)
        : Relation.ReflTransGen (Supersedes (first :: rest)) item last :=
      Relation.ReflTransGen.mono (fun _ _ hstep => ⟨List.mem_cons_of_mem _ hstep.left, hstep.right⟩) _ _ hreaches
    intro item hitem
    cases List.mem_cons.mp hitem with
    | inr hrest =>
      have ⟨last, hreaches, hlast⟩ := ih h.right item hrest
      exact ⟨last, hmono _ _ hreaches, hlast⟩
    | inl heq =>
      subst heq
      cases hpointer : item.supersededById with
      | none => exact ⟨item, .refl, hpointer⟩
      | some id =>
        have ⟨next, hnext, hid⟩ := List.mem_map.mp (h.left id hpointer)
        have ⟨last, hreaches, hlast⟩ := ih h.right next hnext
        refine ⟨last, .head ⟨List.mem_cons_of_mem _ hnext, ?_⟩ (hmono _ _ hreaches), hlast⟩
        rw [hpointer, hid]

variable {trace : Trace} {event : Event} {old : Option MatterContextItem} {new : MatterContextItem}

/--
The lineage of an added item.
-/
def startOf (trace : Trace) (old : Option MatterContextItem) (new : MatterContextItem) : Uuid :=
  match old with
  | none => new.id
  | some old => trace.lineage old.id

theorem lineage_exec (h : trace.state.added? event = some (old, new))
    : (trace.exec event).lineage = Function.update trace.lineage new.id (startOf trace old new) := by
  unfold Trace.exec startOf
  rw [h]
  cases old <;> rfl

theorem Adds.targets (h : Inv trace) (hadds : Adds trace.state event old new)
    : ∀ item ∈ trace.state.table.rows.map (pointFrom old new) ++ [new],
        ∀ other ∈ trace.state.table.rows.map (pointFrom old new) ++ [new], item.supersededById ≠ none
          → item.supersededById = other.supersededById → item = other := by
  -- Only the superseded row points to the new one.
  have hfresh (row : MatterContextItem) (hrow : row ∈ trace.state.table.rows)
      : row.supersededById ≠ some new.id :=
    fun hpointer => hadds.fresh (target_mem_of_pointsForward h.forward hrow hpointer)
  have hrow (item : MatterContextItem) (hitem : item ∈ trace.state.table.rows.map (pointFrom old new) ++ [new])
      (hpointer : item.supersededById ≠ none) : ∃ row ∈ trace.state.table.rows, pointFrom old new row = item := by
    rcases List.mem_append.mp hitem with hitem | hitem
    . exact List.mem_map.mp hitem
    . rw [List.mem_singleton.mp hitem] at hpointer
      exact absurd hadds.pointer hpointer
  intro item hitem other hother hne heq
  obtain ⟨row, hrow₁, rfl⟩ := hrow item hitem hne
  obtain ⟨row', hrow₂, rfl⟩ := hrow other hother (heq ▸ hne)
  rw [supersededById_pointFrom, supersededById_pointFrom] at heq
  rw [supersededById_pointFrom] at hne
  by_cases hid : old.map MatterContextItem.id = some row.id
  . by_cases hid' : old.map MatterContextItem.id = some row'.id
    . rw [eq_of_id_eq hrow₁ hrow₂ (Option.some.inj (hid.symm.trans hid'))]
    . rw [if_pos hid, if_neg hid'] at heq
      exact absurd heq.symm (hfresh row' hrow₂)
  . by_cases hid' : old.map MatterContextItem.id = some row'.id
    . rw [if_neg hid, if_pos hid'] at heq
      exact absurd heq (hfresh row hrow₁)
    . rw [if_neg hid, if_neg hid'] at heq
      rw [if_neg hid] at hne
      rw [h.targets row hrow₁ row' hrow₂ hne heq]

theorem Inv.exec (h : Inv trace) (event : Event) : Inv (trace.exec event) := by
  cases hadded : trace.state.added? event with
  | none =>
    have ⟨htable, hloaded⟩ := unchanged_of_added? hadded
    have hlineage : (trace.exec event).lineage = trace.lineage := by simp [Trace.exec, hadded]
    have htable : (trace.exec event).state.table = trace.state.table := htable
    refine ⟨fun call old hold => ?_, ?_, ?_, ?_⟩
    . rw [htable]
      rcases hloaded call old hold with hold | hold
      . exact h.loads call old hold
      . exact ⟨old, hold, rfl, rfl, rfl⟩
    . rw [htable, hlineage]; exact h.starts
    . rw [htable]; exact h.forward
    . rw [htable]; exact h.targets
  | some added =>
    obtain ⟨old, new⟩ := added
    have hadds := adds_of_added? h.loads hadded
    have hrows : (trace.exec event).state.table.rows
        = trace.state.table.rows.map (pointFrom old new) ++ [new] := hadds.rows
    have hmem (item : MatterContextItem) (hitem : item ∈ trace.state.table.rows)
        : pointFrom old new item ∈ trace.state.table.rows.map (pointFrom old new) ++ [new] :=
      List.mem_append_left _ (List.mem_map_of_mem hitem)
    have hne (item : MatterContextItem) (hitem : item ∈ trace.state.table.rows) : item.id ≠ new.id :=
      fun heq => hadds.fresh (heq ▸ List.mem_map_of_mem hitem)
    refine ⟨fun call loaded hloaded => ?_, ?_, ?_, ?_⟩
    . rw [hrows]
      have ⟨item, hitem, hid, hmatterId, hnameSpace⟩ := h.loads call loaded (hadds.loaded ▸ hloaded)
      exact ⟨_, hmem item hitem, by simp [hid], by simp [hmatterId], by simp [hnameSpace]⟩
    . rw [hrows, lineage_exec hadded]
      intro item hitem
      rcases List.mem_append.mp hitem with hitem | hitem
      . obtain ⟨row, hrow, rfl⟩ := List.mem_map.mp hitem
        have ⟨start, hstart, hlineage, hself, hmatterId, hnameSpace⟩ := h.starts row hrow
        refine ⟨_, hmem start hstart, ?_⟩
        simp [Function.update_of_ne (hne row hrow), Function.update_of_ne (hne start hstart), hlineage,
          hself, hmatterId, hnameSpace]
      . rw [List.mem_singleton.mp hitem]
        cases old with
        | none => exact ⟨new, List.mem_append_right _ List.mem_cons_self, by simp [startOf]⟩
        | some old =>
          have ⟨⟨call, hcall⟩, hmatter, hspace⟩ := hadds.named old rfl
          have ⟨row, hrow, hid, hmatterId, hnameSpace⟩ := h.loads call old hcall
          have ⟨start, hstart, hlineage, hself, hmatterId', hnameSpace'⟩ := h.starts row hrow
          refine ⟨_, hmem start hstart, ?_⟩
          simp [Function.update_of_ne (hne start hstart), startOf, ← hid, hlineage, hself, hmatterId',
            hnameSpace', hmatterId, hnameSpace, hmatter, hspace]
    . rw [hrows]; exact h.forward.append old hadds.pointer
    . rw [hrows]; exact Adds.targets h hadds

end Invariant

end MatterContext
