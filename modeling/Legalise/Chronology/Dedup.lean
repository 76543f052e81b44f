import Legalise.Chronology.Basic
import Legalise.Lib.Runs

/-!
This module contains that builds of a chronology do not duplicate events, over any sequence of builds and decisions.
-/

namespace Chronology

open PyStr

variable {reader : Reader}

section Propose

theorem propose_cons_seen {seenKeys : List (Date × PyStr)} {row : Row} (h : row.key reader ∈ seenKeys) (rows : List Row)
    : propose reader seenKeys (row :: rows)
        = ((propose reader seenKeys rows).fst, (propose reader seenKeys rows).snd + 1) := by
  rw [propose, if_pos h]

theorem propose_cons_new {seenKeys : List (Date × PyStr)} {row : Row} (h : row.key reader ∉ seenKeys) (rows : List Row)
    : propose reader seenKeys (row :: rows)
        = (row :: (propose reader (row.key reader :: seenKeys) rows).fst,
            (propose reader (row.key reader :: seenKeys) rows).snd) := by
  rw [propose, if_neg h]

/--
The rows that are new have keys of their own.
-/
theorem propose_fresh (seenKeys : List (Date × PyStr)) (rows : List Row)
    : ((propose reader seenKeys rows).fst.map (Row.key reader)).Nodup
        ∧ ∀ k ∈ (propose reader seenKeys rows).fst.map (Row.key reader), k ∉ seenKeys := by
  induction rows generalizing seenKeys with
  | nil => exact ⟨List.nodup_nil, by simp [propose]⟩
  | cons row rows ih =>
    by_cases hseen : row.key reader ∈ seenKeys
    . rw [propose_cons_seen hseen]
      exact ih seenKeys
    . have ⟨hnodup, hfresh⟩ := ih (row.key reader :: seenKeys)
      rw [propose_cons_new hseen, List.map_cons, List.nodup_cons]
      refine ⟨⟨fun hmem => hfresh _ hmem List.mem_cons_self, hnodup⟩, ?_⟩
      rw [List.forall_mem_cons]
      exact ⟨hseen, fun k hk hmem => hfresh k hk (List.mem_cons_of_mem _ hmem)⟩

theorem length_propose (seenKeys : List (Date × PyStr)) (rows : List Row)
    : (propose reader seenKeys rows).fst.length + (propose reader seenKeys rows).snd = rows.length := by
  induction rows generalizing seenKeys with
  | nil => rfl
  | cons row rows ih =>
    by_cases hseen : row.key reader ∈ seenKeys
    . rw [propose_cons_seen hseen, List.length_cons, ← ih seenKeys]
      rfl
    . rw [propose_cons_new hseen, List.length_cons, List.length_cons, ← ih (row.key reader :: seenKeys)]
      omega

/--
Every row is known afterwards.
-/
theorem mem_of_propose {seenKeys : List (Date × PyStr)} {rows : List Row} {row : Row} (h : row ∈ rows)
    : row.key reader ∈ seenKeys ∨ row.key reader ∈ (propose reader seenKeys rows).fst.map (Row.key reader) := by
  induction rows generalizing seenKeys with
  | nil => cases h
  | cons first rows ih =>
    by_cases hseen : first.key reader ∈ seenKeys
    . rw [propose_cons_seen hseen]
      rcases List.mem_cons.mp h with rfl | hrest
      . exact .inl hseen
      . exact ih hrest
    . rw [propose_cons_new hseen, List.map_cons, List.mem_cons]
      rcases List.mem_cons.mp h with rfl | hrest
      . exact .inr (.inl rfl)
      . rcases ih hrest with hmem | hmem
        . exact (List.mem_cons.mp hmem).elim (fun heq => .inr (.inl heq)) .inl
        . exact .inr (.inr hmem)

theorem propose_eq_nil {seenKeys : List (Date × PyStr)} {rows : List Row} (h : ∀ row ∈ rows, row.key reader ∈ seenKeys)
    : (propose reader seenKeys rows).fst = [] := by
  induction rows with
  | nil => rfl
  | cons row rows ih =>
    rw [List.forall_mem_cons] at h
    rw [propose_cons_seen h.left]
    exact ih h.right

end Propose

section Build

/--
The rows of a reply that is read.
-/
def readReply (reader : Reader) (call : Call) (documents : List Document) : Option (List ProposedEventRaw) :=
  if loadDocumentsWithBodies documents = [] then none
  else
    match call.gateway (buildPrompt (loadDocumentsWithBodies documents)) with
    | .error _ => none
    | .ok text => (reader.parseModelJson text).toOption

/--
The valid rows of the reply to a build.
-/
def validRows (reader : Reader) (call : Call) (documents : List Document) : List Row :=
  coerceEvents reader ((loadDocumentsWithBodies documents).map fun item => item.fst.id)
    ((readReply reader call documents).getD [])

theorem keys_newEvents (call : Call) (rows : List Row)
    : (newEvents call rows).map (Event.key reader) = rows.map (Row.key reader) := by
  unfold newEvents
  rw [List.map_map]
  have hkeys : (Event.key reader ∘ fun item : Row × Nat => item.fst.event (call.newId item.snd))
      = Row.key reader ∘ Prod.fst := rfl
  rw [hkeys, ← List.map_map, List.zipIdx_map_fst]

theorem length_newEvents (call : Call) (rows : List Row) : (newEvents call rows).length = rows.length := by
  unfold newEvents
  rw [List.length_map, List.length_zipIdx]

/--
All that a build that returns has done.
-/
theorem buildChronology_eq_ok {call : Call} {matter matter' : Matter} {result : BuildResult}
    (h : buildChronology reader call matter = .ok (result, matter'))
    : result.events = newEvents call
          (propose reader (matter.events.map (Event.key reader)) (validRows reader call matter.documents)).fst
        ∧ result.duplicatesSkipped
          = (propose reader (matter.events.map (Event.key reader)) (validRows reader call matter.documents)).snd
        ∧ matter'.events = matter.events ++ result.events ∧ matter'.documents = matter.documents := by
  unfold buildChronology at h
  unfold validRows readReply
  dsimp only at h ⊢
  by_cases hdocuments : loadDocumentsWithBodies matter.documents = []
  . rw [if_pos hdocuments] at h ⊢
    cases h
    simp [coerceEvents, propose, newEvents]
  . rw [if_neg hdocuments] at h ⊢
    cases hgateway : call.gateway (buildPrompt (loadDocumentsWithBodies matter.documents)) with
    | error error =>
      rw [hgateway] at h
      dsimp only at h ⊢
      split at h
      . cases h
        simp [coerceEvents, propose, newEvents]
      . cases h
    | ok text =>
      rw [hgateway] at h
      dsimp only at h ⊢
      cases hparse : reader.parseModelJson text with
      | error error =>
        rw [hparse] at h
        dsimp only at h ⊢
        split at h
        . cases h
          simp [coerceEvents, propose, newEvents, Except.toOption]
        . cases h
      | ok envelope =>
        rw [hparse] at h
        dsimp only at h ⊢
        split at h
        . cases h
          exact ⟨rfl, rfl, rfl, rfl⟩
        . cases h

theorem coerceEvent_key (knownDocs knownDocs' : List Uuid) (raw : ProposedEventRaw)
    : (coerceEvent reader knownDocs raw).map (Row.key reader)
        = (coerceEvent reader knownDocs' raw).map (Row.key reader) := by
  unfold coerceEvent
  cases raw.eventDate.filter (· ≠ []) with
  | none => rfl
  | some eventDate =>
    cases raw.description.filter (· ≠ []) with
    | none => rfl
    | some description =>
      simp only [Option.bind_eq_bind, Option.bind_some]
      split
      . rfl
      . cases reader.fromisoformat (strip eventDate) <;> rfl

/--
The keys of the valid rows do not depend on the documents.
-/
theorem keys_coerceEvents (knownDocs knownDocs' : List Uuid) (events : List ProposedEventRaw)
    : (coerceEvents reader knownDocs events).map (Row.key reader)
        = (coerceEvents reader knownDocs' events).map (Row.key reader) := by
  unfold coerceEvents
  rw [List.map_filterMap, List.map_filterMap]
  refine List.filterMap_congr fun raw _ => ?_
  exact coerceEvent_key knownDocs knownDocs' raw

end Build

section Runs

/--
A later state has the events of an earlier one, perhaps with another status, and events with new keys.
-/
structure Extends (reader : Reader) (old new : Matter) (kept built : List Event) : Prop where
  events : new.events = kept ++ built
  keys : kept.map (Event.key reader) = old.events.map (Event.key reader)
  ids : kept.map Event.id = old.events.map Event.id
  nodup : (built.map (Event.key reader)).Nodup
  fresh : ∀ k ∈ built.map (Event.key reader), k ∉ old.events.map (Event.key reader)

theorem Extends.refl (matter : Matter) : Extends reader matter matter matter.events [] where
  events := (List.append_nil _).symm
  keys := rfl
  ids := rfl
  nodup := List.nodup_nil
  fresh := fun _ hk => (List.not_mem_nil hk).elim

theorem Extends.trans {a b c : Matter} {kept built kept' built' : List Event} (h : Extends reader a b kept built)
    (h' : Extends reader b c kept' built')
    : ∃ kept built, Extends reader a c kept built := by
  have hkeys := h'.keys
  have hids := h'.ids
  rw [h.events, List.map_append] at hkeys hids
  have hlength : kept'.length = kept.length + built.length := by
    have := congrArg List.length hkeys
    simpa using this
  have hsplit : kept' = kept'.take kept.length ++ kept'.drop kept.length := (List.take_append_drop _ _).symm
  rw [hsplit, List.map_append] at hkeys hids
  have htake : (kept'.take kept.length).length = kept.length := by
    rw [List.length_take]
    omega
  have ⟨hkeptKeys, hbuiltKeys⟩ := List.append_inj hkeys (by rw [List.length_map, List.length_map, htake])
  have ⟨hkeptIds, _⟩ := List.append_inj hids (by rw [List.length_map, List.length_map, htake])
  refine ⟨kept'.take kept.length, kept'.drop kept.length ++ built', ?_, ?_, ?_, ?_, ?_⟩
  . rw [← List.append_assoc, ← hsplit, h'.events]
  . rw [hkeptKeys, h.keys]
  . rw [hkeptIds, h.ids]
  . rw [List.map_append, hbuiltKeys, List.nodup_append]
    refine ⟨h.nodup, h'.nodup, ?_⟩
    rintro k hk _ hk' rfl
    refine h'.fresh k hk' ?_
    rw [h.events, List.map_append]
    exact List.mem_append_right _ hk
  . intro k hk
    rw [List.map_append, hbuiltKeys, List.mem_append] at hk
    rcases hk with hk | hk
    . exact h.fresh k hk
    . intro hmem
      refine h'.fresh k hk ?_
      rw [h.events, List.map_append, h.keys]
      exact List.mem_append_left _ hmem

/--
A build adds events with new keys.
-/
theorem buildChronology_extends {call : Call} {matter matter' : Matter} {result : BuildResult}
    (h : buildChronology reader call matter = .ok (result, matter'))
    : Extends reader matter matter' matter.events result.events := by
  have ⟨hevents, _, hmatter, _⟩ := buildChronology_eq_ok h
  have hfresh := @propose_fresh reader (matter.events.map (Event.key reader)) (validRows reader call matter.documents)
  rw [← keys_newEvents call, ← hevents] at hfresh
  exact ⟨hmatter, rfl, rfl, hfresh.left, hfresh.right⟩

theorem setEventStatus_extends (eventId : Uuid) (status : EventStatus) (matter : Matter)
    : Extends reader matter (setEventStatus eventId status matter) (setEventStatus eventId status matter).events [] where
  events := (List.append_nil _).symm
  keys := by
    unfold setEventStatus
    rw [List.map_map]
    refine List.map_congr_left fun event _ => ?_
    dsimp only [Function.comp]
    split <;> rfl
  ids := by
    unfold setEventStatus
    rw [List.map_map]
    refine List.map_congr_left fun event _ => ?_
    dsimp only [Function.comp]
    split <;> rfl
  nodup := List.nodup_nil
  fresh := fun _ hk => (List.not_mem_nil hk).elim

theorem exec_of_ok {call : Call} {matter after : Matter} {result : BuildResult}
    (h : buildChronology reader call matter = .ok (result, after)) : exec reader matter (.build call) = after := by
  unfold exec
  dsimp only
  rw [h]

theorem exec_of_error {call : Call} {matter : Matter} {error : Fault}
    (h : buildChronology reader call matter = .error error) : exec reader matter (.build call) = matter := by
  unfold exec
  dsimp only
  rw [h]

theorem exec_extends (matter : Matter) (step : Step) : ∃ kept built, Extends reader matter (exec reader matter step) kept built := by
  cases step with
  | build call =>
    cases hbuild : buildChronology reader call matter with
    | ok outcome =>
      rw [exec_of_ok hbuild]
      exact ⟨_, _, buildChronology_extends hbuild⟩
    | error error =>
      rw [exec_of_error hbuild]
      exact ⟨_, _, .refl matter⟩
  | decide eventId status => exact ⟨_, _, setEventStatus_extends eventId status matter⟩
  | deleteDocument documentId => exact ⟨matter.events, [], (List.append_nil _).symm, rfl, rfl, List.nodup_nil, by simp⟩
  | read => exact ⟨_, _, .refl matter⟩

theorem run_extends (matter : Matter) (steps : List Step)
    : ∃ kept built, Extends reader matter (run reader matter steps) kept built := by
  refine @Runs.foldl_invariant Matter Step (exec reader) (fun m => ∃ kept built, Extends reader matter m kept built)
    (fun _ _ => True) ?_ matter ⟨_, _, .refl matter⟩ steps fun _ _ _ => trivial
  rintro m step _ ⟨kept, built, h⟩
  have ⟨kept', built', hstep⟩ := @exec_extends reader m step
  exact h.trans hstep

theorem run_append (matter : Matter) (steps steps' : List Step)
    : run reader matter (steps ++ steps') = run reader (run reader matter steps) steps' :=
  List.foldl_append

/--
Keys stay.
-/
theorem keys_subset_run (matter : Matter) (steps : List Step)
    : matter.events.map (Event.key reader) ⊆ (run reader matter steps).events.map (Event.key reader) := by
  have ⟨kept, built, h⟩ := @run_extends reader matter steps
  rw [h.events, List.map_append, h.keys]
  exact List.subset_append_left _ _

/--
A reply was read by an earlier build of the run, which has returned.
-/
def Processed (reader : Reader) (matter : Matter) (steps : List Step) (reply : List ProposedEventRaw) : Prop :=
  ∃ earlier call later outcome, steps = earlier ++ .build call :: later
    ∧ buildChronology reader call (run reader matter earlier) = .ok outcome
    ∧ readReply reader call (run reader matter earlier).documents = some reply

/--
The keys of a reply that was read are known from then on.
-/
theorem Processed.known {matter : Matter} {steps : List Step} {reply : List ProposedEventRaw}
    (h : Processed reader matter steps reply) (knownDocs : List Uuid)
    : ∀ row ∈ coerceEvents reader knownDocs reply,
      row.key reader ∈ (run reader matter steps).events.map (Event.key reader) := by
  obtain ⟨earlier, call, later, ⟨result, after⟩, rfl, hbuild, hreply⟩ := h
  intro row hrow
  have ⟨hevents, _, hafter, _⟩ := buildChronology_eq_ok hbuild
  have hkey : row.key reader ∈ (validRows reader call (run reader matter earlier).documents).map (Row.key reader) := by
    unfold validRows
    rw [hreply, Option.getD_some, keys_coerceEvents _ knownDocs]
    exact List.mem_map_of_mem hrow
  have ⟨same, hsame, heq⟩ := List.mem_map.mp hkey
  have hknown := @mem_of_propose reader ((run reader matter earlier).events.map (Event.key reader)) _ _ hsame
  rw [← keys_newEvents call, ← hevents, ← List.mem_append, ← List.map_append, ← hafter, heq] at hknown
  have hrun : run reader matter (earlier ++ .build call :: later) = run reader after later := by
    rw [run_append]
    show run reader (exec reader (run reader matter earlier) (.build call)) later = _
    rw [exec_of_ok hbuild]
  rw [hrun]
  exact keys_subset_run after later hknown

/--
Over any sequence of builds and decisions, the events that builds have created have keys of their own, which no earlier
event has. A build counts every valid row once, and creates nothing from a reply that was read before.
-/
theorem builds_do_not_duplicate (reader : Reader) (matter : Matter) (steps : List Step)
    : (∃ kept built, Extends reader matter (run reader matter steps) kept built)
        ∧ ∀ earlier call later result after, steps = earlier ++ .build call :: later →
          buildChronology reader call (run reader matter earlier) = .ok (result, after) →
            (∀ event ∈ result.events, event.key reader ∉ (run reader matter earlier).events.map (Event.key reader))
              ∧ result.events.length + result.duplicatesSkipped
                = (validRows reader call (run reader matter earlier).documents).length
              ∧ ∀ reply, readReply reader call (run reader matter earlier).documents = some reply →
                Processed reader matter earlier reply → result.events = [] := by
  refine ⟨run_extends matter steps, ?_⟩
  intro earlier call later result after _ hbuild
  have ⟨hevents, hskipped, _, _⟩ := buildChronology_eq_ok hbuild
  refine ⟨?_, ?_, ?_⟩
  . intro event hevent
    exact (buildChronology_extends hbuild).fresh _ (List.mem_map_of_mem hevent)
  . rw [hevents, hskipped, length_newEvents, length_propose]
  . intro reply hreply hprocessed
    have hrows : validRows reader call (run reader matter earlier).documents
        = coerceEvents reader ((loadDocumentsWithBodies (run reader matter earlier).documents).map fun item => item.fst.id)
          reply := by
      unfold validRows
      rw [hreply, Option.getD_some]
    rw [hevents, hrows, propose_eq_nil (hprocessed.known _)]
    rfl

end Runs

end Chronology
