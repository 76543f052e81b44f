import Legalise.Chronology.Dedup
import Legalise.Lib.Except

/-!
This module contains the gate of CPR 31.22: what a reader who has not confirmed the undertaking is shown of the events
that were built from disclosure documents.
-/

namespace Chronology

open PyStr

section Responses

variable (reader : Reader)

/--
The events that a response shows to a reader who has not confirmed the undertaking.
-/
def response (matter : Matter) : Step → List ChronologyEventRead
  | .build call =>
    match buildChronology reader call matter with
    | .ok (result, after) => readEvents none after.documents result.events
    | .error _ => []
  | .decide eventId status =>
    readEvents none matter.documents ((setEventStatus eventId status matter).events.filter fun event => event.id = eventId)
  | .deleteDocument _ => []
  | .read => getChronology none matter

/--
The prompt of a build includes a disclosure document.
-/
def DisclosurePrompt (documents : List Document) : Prop :=
  ∃ item ∈ loadDocumentsWithBodies documents, item.fst.fromDisclosure = true

/--
A build of the run has created an event from a prompt with a disclosure document, while the matter had these documents.
-/
def BuiltFromDisclosure (matter : Matter) (steps : List Step) (event : Event) (documents : List Document) : Prop :=
  ∃ earlier call later result after, steps = earlier ++ .build call :: later
    ∧ buildChronology reader call (run reader matter earlier) = .ok (result, after)
    ∧ event ∈ result.events ∧ DisclosurePrompt documents ∧ documents = (run reader matter earlier).documents

/--
What is shown unredacted of an event from such a prompt has sources, none of which was a disclosure document.
-/
def Covered (matter : Matter) (steps : List Step) : Prop :=
  ∀ earlier step, earlier ++ [step] <+: steps →
    ∀ read ∈ response reader (run reader matter earlier) step, read.redacted = false →
      ∀ event documents, BuiltFromDisclosure reader matter (earlier ++ [step]) event documents → event.id = read.id →
        event.sourceDocIds ≠ [] ∧ ∀ doc ∈ documents, doc.id ∈ event.sourceDocIds → doc.fromDisclosure = false

/--
A build from a prompt with a disclosure document proposes rows with known sources only. A disclosure document that is
the source of an event is not deleted.
-/
def Traceable (matter : Matter) : Step → Prop
  | .build call =>
    let rows := (propose reader (matter.events.map (Event.key reader)) (validRows reader call matter.documents)).fst
    DisclosurePrompt matter.documents → Flushes matter.events (newEvents call rows) → ∀ row ∈ rows, row.sourceDocId ≠ none
  | .deleteDocument documentId =>
    ∀ doc ∈ matter.documents, doc.id = documentId → doc.fromDisclosure = true →
      ∀ event ∈ matter.events, documentId ∉ event.sourceDocIds
  | _ => True

end Responses

section Gate

theorem docsById_eq {documents : List Document} (hids : (documents.map Document.id).Nodup) {doc : Document}
    (h : doc ∈ documents) : docsById documents doc.id = some doc := by
  unfold docsById
  rw [List.find?_eq_some_iff_append]
  have ⟨before, after, hsplit⟩ := List.append_of_mem h
  refine ⟨by simp, before, after, hsplit, ?_⟩
  intro other hother
  rw [hsplit, List.map_append, List.map_cons, List.nodup_append] at hids
  have hne := hids.right.right other.id (List.mem_map_of_mem hother) doc.id List.mem_cons_self
  simpa using hne

theorem eventIsTainted_of_source {documents : List Document} (hids : (documents.map Document.id).Nodup) {doc : Document}
    (h : doc ∈ documents) (hdisclosure : doc.fromDisclosure = true) {event : Event} (hsource : doc.id ∈ event.sourceDocIds)
    : eventIsTainted documents event = true := by
  unfold eventIsTainted
  rw [List.any_eq_true]
  exact ⟨doc.id, hsource, by rw [docsById_eq hids h]; exact hdisclosure⟩

theorem eventToRead_id (documents : List Document) (redact : Bool) (event : Event)
    : (eventToRead documents redact event).id = event.id := by
  unfold eventToRead
  dsimp only
  split <;> rfl

/--
Without a confirmation, an event with a disclosure document among its sources is redacted.
-/
theorem redacted_of_source {documents : List Document} (hids : (documents.map Document.id).Nodup) {doc : Document}
    (h : doc ∈ documents) (hdisclosure : doc.fromDisclosure = true) {events : List Event}
    (heventIds : (events.map Event.id).Nodup) {event : Event} (hevent : event ∈ events)
    (hsource : doc.id ∈ event.sourceDocIds) {read : ChronologyEventRead}
    (hread : read ∈ readEvents none documents events) (hid : event.id = read.id) : read.redacted = true := by
  unfold readEvents at hread
  have ⟨other, hother, heq⟩ := List.mem_map.mp hread
  have hsame : other = event := by
    refine List.inj_on_of_nodup_map heventIds hother hevent ?_
    rw [hid, ← heq, eventToRead_id]
  have htainted := eventIsTainted_of_source hids h hdisclosure hsource
  have hcount : 0 < events.countP (eventIsTainted documents) := List.countP_pos_iff.mpr ⟨event, hevent, htainted⟩
  have hfromDisclosure : (event.sourceDocIds.filterMap (docsById documents)).any Document.fromDisclosure = true := by
    rw [List.any_eq_true]
    exact ⟨doc, List.mem_filterMap.mpr ⟨doc.id, hsource, docsById_eq hids h⟩, hdisclosure⟩
  rw [← heq, hsame]
  unfold eventToRead gateState
  simp [hcount, hfromDisclosure]

end Gate

section Runs

variable {reader : Reader}

/--
The event is still there, perhaps with another status, and so is the document.
-/
structure Stands (event : Event) (doc : Document) (matter : Matter) : Prop where
  event : ∃ e ∈ matter.events, e.id = event.id ∧ e.sourceDocIds = event.sourceDocIds
  doc : doc ∈ matter.documents

theorem documents_exec_build (matter : Matter) (call : Call) : (exec reader matter (.build call)).documents = matter.documents := by
  cases hbuild : buildChronology reader call matter with
  | ok outcome =>
    rw [exec_of_ok hbuild]
    exact (buildChronology_eq_ok hbuild).right.right.right
  | error error => rw [exec_of_error hbuild]

theorem stands_exec {event : Event} {doc : Document} (hsource : doc.id ∈ event.sourceDocIds)
    (hdisclosure : doc.fromDisclosure = true) {matter : Matter} {step : Step} (hstep : Traceable reader matter step)
    (h : Stands event doc matter) : Stands event doc (exec reader matter step) := by
  have ⟨e, he, hid, hsources⟩ := h.event
  cases step with
  | build call =>
    refine ⟨⟨e, ?_, hid, hsources⟩, ?_⟩
    . cases hbuild : buildChronology reader call matter with
      | ok outcome =>
        rw [exec_of_ok hbuild, (buildChronology_eq_ok hbuild).right.right.left]
        exact List.mem_append_left _ he
      | error error =>
        rw [exec_of_error hbuild]
        exact he
    . rw [documents_exec_build]
      exact h.doc
  | decide eventId status =>
    refine ⟨⟨_, List.mem_map_of_mem he, ?_, ?_⟩, h.doc⟩
    . split <;> exact hid
    . split <;> exact hsources
  | deleteDocument documentId =>
    refine ⟨⟨e, he, hid, hsources⟩, List.mem_filter.mpr ⟨h.doc, ?_⟩⟩
    rw [decide_eq_true_eq]
    intro hsame
    refine hstep doc h.doc hsame hdisclosure e he ?_
    rw [hsources, ← hsame]
    exact hsource
  | read => exact h

/--
An event of a build has the sources of its row, which are known documents.
-/
theorem sources_of_built {call : Call} {matter after : Matter} {result : BuildResult}
    (h : buildChronology reader call matter = .ok (result, after)) (hstep : Traceable reader matter (.build call))
    (hprompt : DisclosurePrompt matter.documents) {event : Event} (hevent : event ∈ result.events)
    : event.sourceDocIds ≠ [] := by
  obtain ⟨hevents, _, hafter, _⟩ := buildChronology_eq_ok h
  have hflushes : Flushes matter.events result.events := by
    unfold buildChronology at h
    dsimp only at h
    split at h
    . cases h
      exact ⟨by simp, by simpa using matter.eventIds⟩
    . split at h
      . split at h
        . cases h
          exact ⟨by simp, by simpa using matter.eventIds⟩
        . cases h
      . split at h
        . split at h
          . cases h
            exact ⟨by simp, by simpa using matter.eventIds⟩
          . cases h
        . split at h
          . next hflushes =>
            cases h
            exact hflushes
          . cases h
  rw [hevents] at hevent hflushes
  unfold newEvents at hevent
  obtain ⟨item, hitem, heq⟩ := List.mem_map.mp hevent
  have hrow : item.fst ∈ (propose reader (matter.events.map (Event.key reader))
      (validRows reader call matter.documents)).fst := by
    have := List.mem_map_of_mem (f := Prod.fst) hitem
    rwa [List.zipIdx_map_fst] at this
  have hsource := hstep hprompt hflushes item.fst hrow
  rw [← heq]
  unfold Row.event
  cases hsome : item.fst.sourceDocId with
  | none => exact (hsource hsome).elim
  | some id => simp

theorem exists_of_mem_readEvents {confirmedAt : Option Timestamp} {documents : List Document} {events : List Event}
    {read : ChronologyEventRead} (h : read ∈ readEvents confirmedAt documents events)
    : ∃ event ∈ events, event.id = read.id := by
  unfold readEvents at h
  have ⟨event, hevent, heq⟩ := List.mem_map.mp h
  exact ⟨event, hevent, by rw [← heq, eventToRead_id]⟩

/--
An event that stands with its disclosure document is redacted in every response.
-/
theorem Stands.redacted {event : Event} {doc : Document} {matter : Matter} (h : Stands event doc matter)
    (hsource : doc.id ∈ event.sourceDocIds) (hdisclosure : doc.fromDisclosure = true) {step : Step}
    {read : ChronologyEventRead} (hread : read ∈ response reader matter step) (hid : event.id = read.id)
    : read.redacted = true := by
  have ⟨e, he, heid, hsources⟩ := h.event
  rw [← hsources] at hsource
  rw [← heid] at hid
  cases step with
  | build call =>
    unfold response at hread
    cases hbuild : buildChronology reader call matter with
    | ok outcome =>
      simp only [hbuild] at hread
      have ⟨other, hother, hotherId⟩ := exists_of_mem_readEvents hread
      -- The ids of new events are new.
      have hids := outcome.snd.eventIds
      rw [(buildChronology_eq_ok hbuild).right.right.left, List.map_append, List.nodup_append] at hids
      exact (hids.right.right e.id (List.mem_map_of_mem he) other.id (List.mem_map_of_mem hother)
        (hid.trans hotherId.symm)).elim
    | error error =>
      simp only [hbuild] at hread
      cases hread
  | decide eventId status =>
    unfold response at hread
    dsimp only at hread
    have ⟨other, hother, hotherId⟩ := exists_of_mem_readEvents hread
    have heventId : e.id = eventId := by
      rw [hid, ← hotherId]
      exact of_decide_eq_true (List.mem_filter.mp hother).right
    have hids := (setEventStatus eventId status matter).eventIds.sublist
      ((List.filter_sublist (p := fun event : Event => decide (event.id = eventId))).map Event.id)
    have hupdated : { e with status := status } ∈
        (setEventStatus eventId status matter).events.filter fun event => event.id = eventId := by
      rw [List.mem_filter]
      refine ⟨List.mem_map.mpr ⟨e, he, ?_⟩, ?_⟩
      . rw [if_pos heventId]
      . exact decide_eq_true heventId
    exact redacted_of_source matter.documentIds h.doc hdisclosure hids hupdated hsource hread hid
  | deleteDocument documentId =>
    unfold response at hread
    cases hread
  | read =>
    unfold response getChronology at hread
    have hperm : (Sweep.sortBy (fun event : Event => event.eventDate.rank) matter.events).Perm matter.events :=
      Sweep.perm_sortBy _
    exact redacted_of_source matter.documentIds h.doc hdisclosure ((hperm.map Event.id).nodup_iff.mpr matter.eventIds)
      (hperm.mem_iff.mpr he) hsource hread hid

/--
If every build proposes rows with known sources and no source from disclosure is deleted, the gate covers all that was
built from disclosure documents.
-/
theorem covered_of_traceable (reader : Reader) (matter : Matter) (steps : List Step)
    (h : ∀ earlier step, earlier ++ [step] <+: steps → Traceable reader (run reader matter earlier) step)
    : Covered reader matter steps := by
  intro earlier step hbegin read hread hshown event documents hbuilt hid
  obtain ⟨before, call, later, result, after, hsplit, hbuild, hevent, hprompt, rfl⟩ := hbuilt
  have hbeginBuild : before ++ [.build call] <+: steps := by
    refine List.IsPrefix.trans ?_ hbegin
    rw [hsplit]
    exact ⟨later, by simp⟩
  refine ⟨sources_of_built hbuild (h before _ hbeginBuild) hprompt hevent, ?_⟩
  intro doc hdoc hsource
  by_contra hdisclosure
  rw [Bool.not_eq_false] at hdisclosure
  have hstart : Stands event doc (run reader matter (before ++ [.build call])) := by
    rw [run_append]
    show Stands event doc (exec reader (run reader matter before) (.build call))
    rw [exec_of_ok hbuild]
    have ⟨_, _, hevents, hdocuments⟩ := buildChronology_eq_ok hbuild
    exact ⟨⟨event, by rw [hevents]; exact List.mem_append_right _ hevent, rfl, rfl⟩, by rw [hdocuments]; exact hdoc⟩
  have hredacted : read.redacted = true := by
    rcases List.eq_nil_or_concat later with rfl | ⟨middle, last, rfl⟩
    . have ⟨hearlier, hstep⟩ := List.append_inj' hsplit rfl
      cases List.cons.inj hstep with
      | intro hstep _ =>
        subst hearlier hstep
        unfold response at hread
        simp only [hbuild] at hread
        have ⟨_, _, hevents, hdocuments⟩ := buildChronology_eq_ok hbuild
        have hids := after.eventIds
        rw [hevents, List.map_append] at hids
        exact redacted_of_source after.documentIds (hdocuments ▸ hdoc) hdisclosure (List.nodup_append.mp hids).right.left
          hevent hsource hread hid
    . rw [List.concat_eq_append, ← List.cons_append, ← List.append_assoc] at hsplit
      have ⟨hearlier, hstep⟩ := List.append_inj' hsplit rfl
      have hstands : Stands event doc (run reader matter earlier) := by
        have hfold (part : List Step) : part.foldl (exec reader) (run reader matter (before ++ [.build call]))
            = run reader matter (before ++ .build call :: part) := by
          rw [show before ++ .build call :: part = (before ++ [.build call]) ++ part by simp]
          exact (run_append _ _ _).symm
        rw [hearlier, ← hfold]
        refine @Runs.foldl_invariant Matter Step (exec reader) (Stands event doc) (Traceable reader)
          (fun m step hstep hm => stands_exec hsource hdisclosure hstep hm) _ hstart middle ?_
        intro part step' hpart
        rw [hfold]
        refine h _ step' (List.IsPrefix.trans ?_ hbegin)
        rw [hearlier]
        obtain ⟨rest, hrest⟩ := hpart
        exact ⟨rest ++ [step], by rw [← hrest]; simp⟩
      exact hstands.redacted hsource hdisclosure hread hid
  rw [hredacted] at hshown
  cases hshown

/--
An event without a source is shown in the response of its build.
-/
theorem shown_of_sourceless {matter after : Matter} {call : Call} {result : BuildResult}
    (h : buildChronology reader call matter = .ok (result, after)) {event : Event} (hevent : event ∈ result.events)
    (hnone : event.sourceDocIds = [])
    : ∃ read ∈ response reader matter (.build call), read.redacted = false ∧ event.id = read.id := by
  unfold response
  simp only [h]
  unfold readEvents
  refine ⟨_, List.mem_map_of_mem hevent, ?_, (eventToRead_id _ _ _).symm⟩
  simp [eventToRead, hnone]

/--
A letter that was disclosed.
-/
def disclosedLetter : Document where
  id := Uuid.ofNat 1
  filename := py "letter.pdf"
  uploadedAt := .newYear
  fromDisclosure := true
  disclosureProceedingsRef := none
  extractedText := some (py "Paid on 1 February 2026.")

def disclosedMatter : Matter where
  documents := [disclosedLetter]
  events := []
  documentIds := by decide
  eventIds := by decide

/--
A model that names no source.
-/
def sourceless : Reader where
  parseModelJson _ := .ok [⟨some (py "2026-02-01"), some (py "Paid"), none⟩]
  fromisoformat _ := some ⟨2026, 2, 1⟩
  lower := id

def firstCall : Call where
  gateway _ := .ok []
  newId n := Uuid.ofNat n

/--
A model that names the letter.
-/
def sourced : Reader where
  parseModelJson _ := .ok [⟨some (py "2026-02-01"), some (py "Paid"), some disclosedLetter.id.str⟩]
  fromisoformat _ := some ⟨2026, 2, 1⟩
  lower := id

/--
An event with the letter as its source is withheld.
-/
theorem covered_sourced : Covered sourced disclosedMatter [.build firstCall, .read] := by
  refine covered_of_traceable sourced disclosedMatter [.build firstCall, .read] ?_
  have hrows : ∀ row ∈ (propose sourced (disclosedMatter.events.map (Event.key sourced))
      (validRows sourced firstCall disclosedMatter.documents)).fst, row.sourceDocId ≠ none := by
    decide +kernel
  intro earlier step h
  cases earlier with
  | nil =>
    have ⟨hstep, _⟩ := List.cons_prefix_cons.mp h
    subst hstep
    exact fun _ _ => hrows
  | cons first earlier =>
    have ⟨_, h⟩ := List.cons_prefix_cons.mp h
    cases earlier with
    | nil =>
      have ⟨hstep, _⟩ := List.cons_prefix_cons.mp h
      subst hstep
      trivial
    | cons second earlier =>
      have := (List.cons_prefix_cons.mp h).right.length_le
      simp at this

/--
An event without a source is shown to everyone.
-/
theorem timeline_not_covered : ¬ ∀ (reader : Reader) (matter : Matter) (steps : List Step), Covered reader matter steps := by
  intro h
  have hok : (buildChronology sourceless firstCall disclosedMatter).isOk = true := by
    decide +kernel
  have ⟨⟨result, after⟩, hbuild⟩ := (Except.isOk_iff _).mp hok
  have ⟨hevents, _, hmatter, _⟩ := buildChronology_eq_ok hbuild
  have hrows : newEvents firstCall (propose sourceless (disclosedMatter.events.map (Event.key sourceless))
      (validRows sourceless firstCall disclosedMatter.documents)).fst
      = [⟨Uuid.ofNat 0, ⟨2026, 2, 1⟩, py "Paid", 3, [], false, .proposed⟩] := by
    decide +kernel
  rw [hrows] at hevents
  have hprompt : DisclosurePrompt disclosedMatter.documents := by
    have hany : ((loadDocumentsWithBodies disclosedMatter.documents).any fun item => item.fst.fromDisclosure) = true := by
      decide +kernel
    exact List.any_eq_true.mp hany
  have hmem : (⟨Uuid.ofNat 0, ⟨2026, 2, 1⟩, py "Paid", 3, [], false, .proposed⟩ : Event) ∈ result.events := by
    rw [hevents]
    exact List.mem_singleton_self _
  have ⟨read, hread, hshown, hid⟩ := shown_of_sourceless hbuild hmem rfl
  have hcovered := h sourceless disclosedMatter [.build firstCall] [] (.build firstCall) (List.prefix_refl _) read hread
    hshown _ _ ⟨[], firstCall, [], result, after, rfl, hbuild, hmem, hprompt, rfl⟩ hid
  exact hcovered.left rfl

end Runs

end Chronology
