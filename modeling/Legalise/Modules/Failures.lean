import Legalise.Modules.Trace

/-!
This module contains what is left of a ceremony when requests on it fail: whether its state in memory and
what the database has committed of it agree.
-/

namespace Modules

open Signing TrustCeremony

/--
The audit row of an entry of the history.
-/
def transitionRow (ceremony : Ceremony) (entry : HistoryEntry) : AuditLog :=
  (emitStateTransition { ceremony with state := entry.state } entry.action entry.payload).2

/--
What the database has committed about the transitions of a ceremony.
-/
def committedTransitions (audit : List AuditLog) (id : Uuid) : List AuditLog :=
  audit.filter fun row =>
    row.resourceType = some (py "install_ceremony") && row.resourceId = some id.str

/--
The row of a ceremony that reports `enabled`.
-/
def HasRow (t : InstalledTable) (ceremony : Ceremony) : Prop :=
  ∃ row ∈ t.rows, row.key = (ceremony.module.manifest.id, ceremony.module.manifest.version)
    ∧ row.manifestSnapshot = ceremony.module ∧ row.enabled

/--
The committed transitions of a ceremony are those that it has made in memory, and if it reports `enabled`,
then its install is committed.
-/
structure Agrees (s : State) (id : Uuid) : Prop where
  unknown : find? s.ceremonies id = none → committedTransitions s.audit id = []
  transitions : ∀ ceremony, find? s.ceremonies id = some ceremony
    → committedTransitions s.audit id = ceremony.history.map (transitionRow ceremony)
  installed : ∀ ceremony, find? s.ceremonies id = some ceremony → ceremony.state = .enabled
    → HasRow s.installed ceremony

/--
A request on a ceremony. The id of a ceremony that is started has not been drawn before.
-/
def On (id : Uuid) (s : State) : Request → Prop
  | .startInstall _ _ _ ceremonyId _ => ceremonyId = id ∧ find? s.ceremonies id = none
  | .advanceInstall _ ceremonyId _ _ _ _ => ceremonyId = id
  | .getInstall ceremonyId => ceremonyId = id
  | .updateModule .. => False
  | .revokeModule .. => False

/--
After an advance that fails in the database, the ceremony is where it was.
-/
def CanRetry (host : Host) (s : State) (id : Uuid) : Request → Prop
  | .advanceInstall user ceremonyId action rowId now fault =>
    (exec host s (.advanceInstall user ceremonyId action rowId now fault)).2 = .databaseError
      → find? (exec host s (.advanceInstall user ceremonyId action rowId now fault)).1.ceremonies id
        = find? s.ceremonies id
  | _ => True

/--
The database does not fail once the ceremony has changed in memory: not on the commit of a start that has
registered it, and neither on the commit of a transition nor on the flush of the row if the transition
enables the ceremony.
-/
def Unbroken (host : Host) (s : State) : Request → Prop
  | .startInstall user document signature ceremonyId fault =>
    user.isSuperuser → ∀ module, admissible host s document = .ok module
      → (register host s user module signature ceremonyId).isOk → fault ≠ some .commit
  | .advanceInstall user ceremonyId action rowId now fault =>
    user.isSuperuser → ∀ ceremony, find? s.ceremonies ceremonyId = some ceremony
      → ceremony.state.final = false → ∀ after audit, advanceCeremony ceremony action = .ok (after, audit)
        → fault ≠ some .commit
          ∧ (after.state = .enabled
            → fault ≠ some .flush ∧ (persistInstall user s.installed after rowId now).isSome)
  | _ => True

section Ceremony

theorem emitStateTransition_eq (ceremony : Ceremony) (action : PyStr) (payload : Option Dict)
    : emitStateTransition ceremony action payload
        = ({ ceremony with history := ceremony.history ++ [⟨ceremony.state, action, payload⟩] },
          transitionRow ceremony ⟨ceremony.state, action, payload⟩) :=
  rfl

/--
A transition adds one entry to the history, and the row of this entry to the session.
-/
structure Advanced (before after : Ceremony) (audit : List AuditLog) : Prop where
  id : after.id = before.id
  module : after.module = before.module
  persisted : after.persisted = before.persisted
  entry : ∃ entry, after.history = before.history ++ [entry] ∧ audit = [transitionRow before entry]
  row : transitionRow after = transitionRow before

theorem advanceCeremony_cases {before after : Ceremony} {action : Action} {audit : List AuditLog}
    (h : advanceCeremony before action = .ok (after, audit))
    : before.state.final ∧ after = before ∧ audit = []
      ∨ before.state.final = false ∧ Advanced before after audit := by
  unfold advanceCeremony at h
  split at h
  . next hfinal =>
    simp only [Except.ok.injEq, Prod.mk.injEq] at h
    exact .inl ⟨hfinal, h.left.symm, h.right.symm⟩
  . next hfinal =>
    refine .inr ⟨Bool.eq_false_of_not_eq_true hfinal, ?_⟩
    split at h
    . simp only [emitStateTransition_eq, Except.ok.injEq, Prod.mk.injEq] at h
      obtain ⟨rfl, rfl⟩ := h
      exact ⟨rfl, rfl, rfl, ⟨_, rfl, rfl⟩, rfl⟩
    . simp only [Except.bind_eq_ok_iff, Except.pure_eq_ok_iff, emitStateTransition_eq, Prod.mk.injEq] at h
      obtain ⟨next, _, rfl, rfl⟩ := h
      exact ⟨rfl, rfl, rfl, ⟨_, rfl, rfl⟩, rfl⟩

theorem startCeremony_cases {host : Host} {id : Uuid} {module : ModuleDocument} {actorUserId : Uuid}
    {signature : Option PyStr} {ceremony : Ceremony} {row : AuditLog}
    (h : startCeremony host.verify (isVerifiedPublisher host.registry) id module actorUserId signature
      = .ok (ceremony, row))
    : ceremony.id = id ∧ ceremony.state = .discovered ∧ ceremony.persisted = false
      ∧ ∃ entry, ceremony.history = [entry] ∧ row = transitionRow ceremony entry := by
  unfold startCeremony at h
  simp only [Except.bind_eq_ok_iff, Except.pure_eq_ok_iff, emitStateTransition_eq, Prod.mk.injEq] at h
  obtain ⟨result, _, rfl, rfl⟩ := h
  exact ⟨rfl, rfl, rfl, _, rfl, rfl⟩

theorem id_of_find? {ceremonies : List Ceremony} {id : Uuid} {ceremony : Ceremony}
    (h : find? ceremonies id = some ceremony) : ceremony.id = id := by
  simpa using List.find?_some h

theorem find?_put (ceremonies : List Ceremony) (ceremony : Ceremony)
    : find? (put ceremonies ceremony) ceremony.id = some ceremony := by
  unfold put find?
  split
  . next h =>
    induction ceremonies with
    | nil => simp at h
    | cons c ceremonies ih =>
      by_cases hid : c.id = ceremony.id
      . simp [hid]
      . rw [List.map_cons, List.mem_cons] at h
        rw [List.map_cons, if_neg hid, List.find?_cons_of_neg (by simpa using hid)]
        exact ih (h.resolve_left (fun heq => hid heq.symm))
  . next h =>
    have hnone : (ceremonies.find? fun c => c.id = ceremony.id) = none := by
      rw [List.find?_eq_none]
      intro c hc
      simp only [decide_eq_true_eq]
      exact fun heq => h (List.mem_map.mpr ⟨c, hc, heq⟩)
    simp [List.find?_append, hnone]

end Ceremony

section Committed

variable {id : Uuid}

theorem committedTransitions_append (audit audit' : List AuditLog)
    : committedTransitions (audit ++ audit') id = committedTransitions audit id ++ committedTransitions audit' id :=
  List.filter_append ..

theorem committedTransitions_transitionRow {ceremony : Ceremony} (h : ceremony.id = id) (entry : HistoryEntry)
    : committedTransitions [transitionRow ceremony entry] id = [transitionRow ceremony entry] := by
  simp [committedTransitions, transitionRow, emitStateTransition, h]

theorem committedTransitions_ceremonyRejected (user : User) (action : Action) (message : PyStr)
    : committedTransitions [ceremonyRejected user id action message] id = [] := by
  simp [committedTransitions, ceremonyRejected]

end Committed

section Commit

variable {s : State} {user : User} {ceremony : Ceremony} {rowId : Uuid} {now : Nat}
  {fault : Option Fault}

/--
Neither the flush of the row, if there is one, nor the commit fails.
-/
def Commits (s : State) (user : User) (ceremony : Ceremony) (rowId : Uuid) (now : Nat)
    (fault : Option Fault) : Prop :=
  fault ≠ some .commit ∧ (ceremony.state = .enabled → ceremony.persisted = false
    → fault ≠ some .flush ∧ (persistInstall user s.installed ceremony rowId now).isSome)

theorem hasRow_of_persistInstall {t t' : InstalledTable}
    (h : persistInstall user t ceremony rowId now = some t') : HasRow t' ceremony := by
  unfold persistInstall at h
  split at h
  . next existing hexisting =>
    have ⟨hmem, hkey⟩ := Trace.key_of_sameVersion? hexisting
    refine ⟨refreshRow user ceremony existing, ?_, hkey, rfl, rfl⟩
    rw [InstalledTable.rows_of_write? h]
    exact List.mem_map.mpr ⟨existing, hmem, if_pos rfl⟩
  . refine ⟨newRow user ceremony rowId now, ?_, rfl, rfl, rfl⟩
    rw [InstalledTable.rows_of_write? h]
    exact List.mem_append_right _ (List.mem_singleton.mpr rfl)

/--
What commits leaves the transitions in the audit and the install in its table.
-/
theorem commitAdvance_of_commits (audit : List AuditLog) (h : Commits s user ceremony rowId now fault)
    : ∃ shown installed admittedAt,
        commitAdvance s user ceremony audit rowId now fault
          = ({ s with
              ceremonies := put s.ceremonies shown, installed := installed, audit := s.audit ++ audit },
            .ceremony shown admittedAt)
        ∧ (ceremony.state = .enabled ∧ ceremony.persisted = false
            ∧ shown = { ceremony with persisted := true } ∧ HasRow installed ceremony
          ∨ ¬ (ceremony.state = .enabled ∧ ceremony.persisted = false)
            ∧ shown = ceremony ∧ installed = s.installed) := by
  unfold commitAdvance
  split
  . next henabled =>
    have ⟨hflush, hpersist⟩ := h.right henabled.left henabled.right
    have ⟨installed, hinstalled⟩ := Option.isSome_iff_exists.mp hpersist
    rw [if_neg hflush, hinstalled]
    simp only [if_neg h.left]
    exact ⟨_, _, _, rfl, .inl ⟨henabled.left, henabled.right, rfl, hasRow_of_persistInstall hinstalled⟩⟩
  . next henabled =>
    rw [if_neg h.left]
    exact ⟨_, _, _, rfl, .inr ⟨henabled, rfl, rfl⟩⟩

/--
What does not commit has changed the ceremony in memory all the same.
-/
theorem commitAdvance_of_not_commits (audit : List AuditLog) (h : ¬ Commits s user ceremony rowId now fault)
    : ∃ shown,
        commitAdvance s user ceremony audit rowId now fault
          = ({ s with ceremonies := put s.ceremonies shown }, .databaseError)
        ∧ (shown = ceremony
          ∨ ceremony.state = .enabled ∧ ceremony.persisted = false
            ∧ shown = { ceremony with persisted := true }) := by
  unfold commitAdvance
  split
  . next henabled =>
    split
    . exact ⟨_, rfl, .inl rfl⟩
    . next hflush =>
      split
      . exact ⟨_, rfl, .inl rfl⟩
      . next installed hinstalled =>
        have hcommit : fault = some .commit := by
          by_contra hcommit
          exact h ⟨hcommit, fun _ _ => ⟨hflush, by simp [hinstalled]⟩⟩
        simp only [if_pos hcommit]
        exact ⟨_, rfl, .inr ⟨henabled.left, henabled.right, rfl⟩⟩
  . next henabled =>
    have hcommit : fault = some .commit := by
      by_contra hcommit
      exact h ⟨hcommit, fun hstate hpersisted => absurd ⟨hstate, hpersisted⟩ henabled⟩
    simp only [if_pos hcommit]
    exact ⟨_, rfl, .inl rfl⟩

end Commit

section Step

variable {host : Host} {s : State} {id : Uuid}

/--
No more transitions are committed than the ceremony has made, and one less if it is enabled without having
been persisted.
-/
structure Tracks (s : State) (id : Uuid) : Prop where
  unknown : find? s.ceremonies id = none → committedTransitions s.audit id = []
  le : ∀ ceremony, find? s.ceremonies id = some ceremony
    → (committedTransitions s.audit id).length ≤ ceremony.history.length
  lt : ∀ ceremony, find? s.ceremonies id = some ceremony → ceremony.state = .enabled
    → ceremony.persisted = false → (committedTransitions s.audit id).length < ceremony.history.length
  persisted : ∀ ceremony, find? s.ceremonies id = some ceremony → ceremony.persisted = true
    → ceremony.state = .enabled

theorem Tracks.congr {t : State} (h : Tracks s id) (hfind : find? t.ceremonies id = find? s.ceremonies id)
    (haudit : committedTransitions t.audit id = committedTransitions s.audit id) : Tracks t id := by
  constructor
  . rw [hfind, haudit]; exact h.unknown
  . rw [hfind, haudit]; exact h.le
  . rw [hfind, haudit]; exact h.lt
  . rw [hfind]; exact h.persisted

theorem Agrees.congr {t : State} (hfind : find? t.ceremonies id = find? s.ceremonies id)
    (haudit : committedTransitions t.audit id = committedTransitions s.audit id)
    (hinstalled : t.installed = s.installed) (h : Agrees s id) : Agrees t id := by
  constructor
  . rw [hfind, haudit]; exact h.unknown
  . rw [hfind, haudit]; exact h.transitions
  . rw [hfind, hinstalled]; exact h.installed

/--
A ceremony that agrees with the database has been persisted if it is enabled.
-/
theorem persisted_of_agrees (hinv : Tracks s id) (h : Agrees s id) {ceremony : Ceremony}
    (hfind : find? s.ceremonies id = some ceremony) (henabled : ceremony.state = .enabled)
    : ceremony.persisted = true := by
  by_contra hpersisted
  have hlt := hinv.lt ceremony hfind henabled (Bool.eq_false_of_not_eq_true hpersisted)
  rw [h.transitions ceremony hfind, List.length_map] at hlt
  exact lt_irrefl _ hlt

theorem persisted_of_not_final (hinv : Tracks s id) {ceremony : Ceremony}
    (hfind : find? s.ceremonies id = some ceremony) (hfinal : ceremony.state.final = false)
    : ceremony.persisted = false := by
  by_contra hpersisted
  have henabled := hinv.persisted ceremony hfind (Bool.eq_true_of_not_eq_false hpersisted)
  simp [henabled, CeremonyState.final] at hfinal

/--
An advance either leaves the ceremony and its rows alone or gets as far as committing what it did.
-/
theorem exec_advanceInstall_cases (host : Host) (s : State) (user : User) (id : Uuid) (action : Action)
    (rowId : Uuid) (now : Nat) (fault : Option Fault)
    : (∃ audit, (exec host s (.advanceInstall user id action rowId now fault)).1 = { s with audit := audit }
          ∧ committedTransitions audit id = committedTransitions s.audit id)
        ∧ (user.isSuperuser → ∀ ceremony, find? s.ceremonies id = some ceremony
          → ∀ after audit, advanceCeremony ceremony action ≠ .ok (after, audit))
      ∨ ∃ ceremony after audit, user.isSuperuser ∧ find? s.ceremonies id = some ceremony
        ∧ advanceCeremony ceremony action = .ok (after, audit)
        ∧ exec host s (.advanceInstall user id action rowId now fault)
          = commitAdvance s user after audit rowId now fault := by
  simp only [exec, advanceInstall]
  split
  . next hsuperuser =>
    have hsuperuser : user.isSuperuser = false := by simpa using hsuperuser
    exact .inl ⟨⟨s.audit, rfl, rfl⟩, by simp [hsuperuser]⟩
  . next hsuperuser =>
    have hsuperuser : user.isSuperuser = true := by simpa using hsuperuser
    split
    . next hfind => exact .inl ⟨⟨s.audit, rfl, rfl⟩, by simp [hfind]⟩
    . next ceremony hfind =>
      split
      . next message hadvance =>
        refine .inl ⟨?_, by simp [hfind, hadvance]⟩
        split
        . exact ⟨s.audit, rfl, rfl⟩
        . refine ⟨_, rfl, ?_⟩
          rw [committedTransitions_append, committedTransitions_ceremonyRejected, List.append_nil]
      . next after audit hadvance => exact .inr ⟨ceremony, after, audit, hsuperuser, hfind, hadvance, rfl⟩

/--
A start either does nothing or registers a ceremony with one transition, which it commits if the commit
does not fail.
-/
theorem exec_startInstall_cases (host : Host) (s : State) (user : User) (document : Dict)
    (signature : Option PyStr) (id : Uuid) (fault : Option Fault)
    : (exec host s (.startInstall user document signature id fault)).1 = s
        ∧ Unbroken host s (.startInstall user document signature id fault)
      ∨ ∃ ceremony entry, ceremony.id = id ∧ ceremony.state = .discovered ∧ ceremony.persisted = false
        ∧ ceremony.history = [entry]
        ∧ (Unbroken host s (.startInstall user document signature id fault) ↔ fault ≠ some .commit)
        ∧ (exec host s (.startInstall user document signature id fault)).1
          = if fault = some .commit then { s with ceremonies := put s.ceremonies ceremony }
            else { s with
              ceremonies := put s.ceremonies ceremony
              audit := s.audit ++ [transitionRow ceremony entry] } := by
  simp only [exec, startInstall, Unbroken]
  split
  . next hsuperuser =>
    have hsuperuser : user.isSuperuser = false := by simpa using hsuperuser
    exact .inl ⟨rfl, by simp [hsuperuser]⟩
  . next hsuperuser =>
    have hsuperuser : user.isSuperuser = true := by simpa using hsuperuser
    split
    . next hadmissible => exact .inl ⟨rfl, by simp [hadmissible]⟩
    . next module hadmissible =>
      split
      . next hregister => exact .inl ⟨rfl, by simp [hadmissible, hregister, Except.isOk, Except.toBool]⟩
      . next t ceremony row hregister =>
        have hstarted := hregister
        unfold register at hstarted
        obtain ⟨started, hstart, heq⟩ := (Except.bind_eq_ok_iff _ _ _).mp hstarted
        simp only [Except.pure_eq_ok_iff, Prod.mk.injEq] at heq
        obtain ⟨rfl, rfl, rfl⟩ := heq
        obtain ⟨hid, hstate, hpersisted, entry, hhistory, hrow⟩ := startCeremony_cases hstart
        refine .inr ⟨started.1, entry, hid, hstate, hpersisted, hhistory, ?_, ?_⟩
        . simp [hsuperuser, hadmissible, hregister, Except.isOk, Except.toBool]
        . rw [← hrow]
          split <;> rfl

theorem tracks_of_put (s : State) (ceremony : Ceremony) {t : State} (hid : ceremony.id = id)
    (hceremonies : t.ceremonies = put s.ceremonies ceremony)
    (hle : (committedTransitions t.audit id).length ≤ ceremony.history.length)
    (hlt : ceremony.state = .enabled → ceremony.persisted = false
      → (committedTransitions t.audit id).length < ceremony.history.length)
    (hpersisted : ceremony.persisted = true → ceremony.state = .enabled) : Tracks t id := by
  have hfind : find? t.ceremonies id = some ceremony := by
    rw [hceremonies, ← hid]
    exact find?_put _ _
  constructor
  . simp [hfind]
  . rw [hfind]; rintro _ ⟨⟩; exact hle
  . rw [hfind]; rintro _ ⟨⟩; exact hlt
  . rw [hfind]; rintro _ ⟨⟩; exact hpersisted

theorem agrees_of_put_iff (s : State) (ceremony : Ceremony) {t : State} (hid : ceremony.id = id)
    (hceremonies : t.ceremonies = put s.ceremonies ceremony)
    : Agrees t id
        ↔ committedTransitions t.audit id = ceremony.history.map (transitionRow ceremony)
          ∧ (ceremony.state = .enabled → HasRow t.installed ceremony) := by
  have hfind : find? t.ceremonies id = some ceremony := by
    rw [hceremonies, ← hid]
    exact find?_put _ _
  constructor
  . intro h
    exact ⟨h.transitions ceremony hfind, h.installed ceremony hfind⟩
  . rintro ⟨htransitions, hinstalled⟩
    constructor
    . simp [hfind]
    . rw [hfind]; rintro _ ⟨⟩; exact htransitions
    . rw [hfind]; rintro _ ⟨⟩; exact hinstalled

/--
What an advance that gets as far as committing leaves behind is tracked.
-/
theorem tracks_commitAdvance {user : User} {after : Ceremony} {audit : List AuditLog} {rowId : Uuid}
    {now : Nat} {fault : Option Fault} (hid : after.id = id)
    (hle : (committedTransitions s.audit id).length + (committedTransitions audit id).length
      ≤ after.history.length)
    (hlt : after.state = .enabled → after.persisted = false
      → (committedTransitions s.audit id).length < after.history.length)
    (hpersisted : after.persisted = true → after.state = .enabled)
    : Tracks (commitAdvance s user after audit rowId now fault).1 id := by
  by_cases hcommits : Commits s user after rowId now fault
  . have ⟨shown, installed, admittedAt, hcommit, hshown⟩ := commitAdvance_of_commits audit hcommits
    rw [hcommit]
    rcases hshown with ⟨henabled, _, rfl, _⟩ | ⟨hdone, rfl, _⟩
    . refine tracks_of_put s { after with persisted := true } hid rfl ?_ ?_ ?_
      . rwa [committedTransitions_append, List.length_append]
      . intro _ h
        simp at h
      . exact fun _ => henabled
    . refine tracks_of_put s shown hid rfl ?_ ?_ hpersisted
      . rwa [committedTransitions_append, List.length_append]
      . exact fun henabled hpersisted => absurd ⟨henabled, hpersisted⟩ hdone
  . have ⟨shown, hcommit, hshown⟩ := commitAdvance_of_not_commits audit hcommits
    have hle' : (committedTransitions s.audit id).length ≤ after.history.length := by omega
    rw [hcommit]
    rcases hshown with rfl | ⟨henabled, _, rfl⟩
    . exact tracks_of_put s _ hid rfl hle' hlt hpersisted
    . refine tracks_of_put s { after with persisted := true } hid rfl hle' ?_ ?_
      . intro _ h
        simp at h
      . exact fun _ => henabled

theorem tracks_exec {request : Request} (hon : On id s request) (h : Tracks s id)
    : Tracks (exec host s request).1 id := by
  cases request with
  | startInstall user document signature ceremonyId fault =>
    obtain ⟨rfl, hfresh⟩ := hon
    have hnone := h.unknown hfresh
    rcases exec_startInstall_cases host s user document signature ceremonyId fault with
      ⟨heq, _⟩ | ⟨ceremony, entry, hid, hstate, hpersisted, hhistory, _, heq⟩
    . rwa [heq]
    . rw [heq]
      split
      . exact tracks_of_put s _ hid rfl (by simp [hnone]) (by simp [hstate]) (by simp [hpersisted])
      . refine tracks_of_put s _ hid rfl ?_ (by simp [hstate]) (by simp [hpersisted])
        simp [committedTransitions_append, committedTransitions_transitionRow hid, hnone, hhistory]
  | advanceInstall user ceremonyId action rowId now fault =>
    obtain rfl : ceremonyId = id := hon
    rcases exec_advanceInstall_cases host s user ceremonyId action rowId now fault with
      ⟨⟨audit, heq, haudit⟩, _⟩ | ⟨before, after, audit, _, hfind, hadvance, heq⟩
    . rw [heq]
      exact h.congr rfl haudit
    . rw [heq]
      have hid := id_of_find? hfind
      rcases advanceCeremony_cases hadvance with ⟨_, rfl, rfl⟩ | ⟨hfinal, hadvanced⟩
      . exact tracks_commitAdvance hid (h.le after hfind) (h.lt after hfind) (h.persisted after hfind)
      . have ⟨entry, hhistory, haudit⟩ := hadvanced.entry
        have hle := h.le before hfind
        refine tracks_commitAdvance (hadvanced.id.trans hid) ?_ ?_ ?_
        . rw [haudit, committedTransitions_transitionRow hid, hhistory, List.length_append]
          exact Nat.add_le_add_right hle 1
        . intro _ _
          rw [hhistory, List.length_append]
          exact Nat.lt_succ_of_le hle
        . rw [hadvanced.persisted, persisted_of_not_final h hfind hfinal]
          simp
  | getInstall ceremonyId =>
    simp only [exec, getInstall]
    split <;> exact h
  | updateModule => exact hon.elim
  | revokeModule => exact hon.elim

/--
An advance of a ceremony that has nowhere to go changes nothing, whether it fails or not.
-/
theorem commitAdvance_final (user : User) (rowId : Uuid) (now : Nat) (fault : Option Fault)
    (hinv : Tracks s id) (h : Agrees s id) {ceremony : Ceremony}
    (hfind : find? s.ceremonies id = some ceremony)
    : let after := (commitAdvance s user ceremony [] rowId now fault).1
      find? after.ceremonies id = find? s.ceremonies id
        ∧ committedTransitions after.audit id = committedTransitions s.audit id
        ∧ after.installed = s.installed := by
  have hid := id_of_find? hfind
  have hput : find? (put s.ceremonies ceremony) id = find? s.ceremonies id := by
    rw [hfind, ← hid]
    exact find?_put _ _
  have hdone : ¬ (ceremony.state = .enabled ∧ ceremony.persisted = false) := by
    rintro ⟨henabled, hpersisted⟩
    rw [persisted_of_agrees hinv h hfind henabled] at hpersisted
    contradiction
  intro after
  by_cases hcommits : Commits s user ceremony rowId now fault
  . have ⟨shown, installed, admittedAt, hcommit, hshown⟩ := commitAdvance_of_commits [] hcommits
    rcases hshown with ⟨henabled, hpersisted, _⟩ | ⟨_, rfl, rfl⟩
    . exact absurd ⟨henabled, hpersisted⟩ hdone
    . simp only [after, hcommit, List.append_nil]
      exact ⟨hput, trivial, trivial⟩
  . have ⟨shown, hcommit, hshown⟩ := commitAdvance_of_not_commits [] hcommits
    rcases hshown with rfl | ⟨henabled, hpersisted, _⟩
    . simp only [after, hcommit]
      exact ⟨hput, trivial, trivial⟩
    . exact absurd ⟨henabled, hpersisted⟩ hdone

/--
A transition agrees with the database exactly if it commits.
-/
theorem agrees_transition_iff {user : User} {before after : Ceremony} {audit : List AuditLog} {rowId : Uuid}
    {now : Nat} {fault : Option Fault} (hinv : Tracks s id) (h : Agrees s id)
    (hfind : find? s.ceremonies id = some before) (hfinal : before.state.final = false)
    (hadvanced : Advanced before after audit)
    : Agrees (commitAdvance s user after audit rowId now fault).1 id
        ↔ Commits s user after rowId now fault := by
  have hid := id_of_find? hfind
  have hafterId : after.id = id := hadvanced.id.trans hid
  have ⟨entry, hhistory, haudit⟩ := hadvanced.entry
  have htransitions := h.transitions before hfind
  have hpersisted : after.persisted = false :=
    hadvanced.persisted.trans (persisted_of_not_final hinv hfind hfinal)
  have hrow (persisted : Bool)
      : transitionRow { after with persisted := persisted } = transitionRow before := hadvanced.row
  constructor
  . intro hagrees
    by_contra hcommits
    have ⟨shown, hcommit, hshown⟩ := commitAdvance_of_not_commits audit hcommits
    have hshownId : shown.id = id := by
      rcases hshown with rfl | ⟨_, _, rfl⟩ <;> exact hafterId
    have hshownHistory : shown.history = before.history ++ [entry] := by
      rcases hshown with rfl | ⟨_, _, rfl⟩ <;> exact hhistory
    rw [hcommit, agrees_of_put_iff s shown hshownId rfl, htransitions, hshownHistory] at hagrees
    simpa using congrArg List.length hagrees.left
  . intro hcommits
    have ⟨shown, installed, admittedAt, hcommit, hshown⟩ := commitAdvance_of_commits audit hcommits
    have hcommitted : committedTransitions (s.audit ++ audit) id = after.history.map (transitionRow before) := by
      rw [committedTransitions_append, htransitions, haudit, committedTransitions_transitionRow hid, hhistory,
        List.map_append, List.map_singleton]
    rw [hcommit]
    rcases hshown with ⟨_, _, rfl, hinstalled⟩ | ⟨hdone, rfl, _⟩
    . rw [agrees_of_put_iff s { after with persisted := true } hafterId rfl, hrow true]
      exact ⟨hcommitted, fun _ => hinstalled⟩
    . rw [agrees_of_put_iff s shown hafterId rfl, hadvanced.row]
      exact ⟨hcommitted, fun henabled => absurd ⟨henabled, hpersisted⟩ hdone⟩

theorem agrees_exec_iff {request : Request} (hon : On id s request) (hinv : Tracks s id) (h : Agrees s id)
    : Agrees (exec host s request).1 id ↔ Unbroken host s request := by
  cases request with
  | startInstall user document signature ceremonyId fault =>
    obtain ⟨rfl, hfresh⟩ := hon
    have hnone := h.unknown hfresh
    rcases exec_startInstall_cases host s user document signature ceremonyId fault with
      ⟨heq, hunbroken⟩ | ⟨ceremony, entry, hid, hstate, _, hhistory, hunbroken, heq⟩
    . rw [heq]
      exact iff_of_true h hunbroken
    . rw [heq, hunbroken]
      split
      . next hcommit =>
        rw [agrees_of_put_iff s ceremony hid rfl]
        simp [hcommit, hnone, hhistory]
      . next hcommit =>
        rw [agrees_of_put_iff s ceremony hid rfl]
        simp [hcommit, hnone, hhistory, hstate, committedTransitions_append,
          committedTransitions_transitionRow hid]
  | advanceInstall user ceremonyId action rowId now fault =>
    obtain rfl : ceremonyId = id := hon
    rcases exec_advanceInstall_cases host s user ceremonyId action rowId now fault with
      ⟨⟨audit, heq, haudit⟩, hidle⟩ | ⟨before, after, audit, hsuperuser, hfind, hadvance, heq⟩
    . rw [heq]
      refine iff_of_true (Agrees.congr (s := s) rfl haudit rfl h) ?_
      intro hsuperuser ceremony hfind _ after audit hadvance
      exact absurd hadvance (hidle hsuperuser ceremony hfind after audit)
    . rw [heq]
      rcases advanceCeremony_cases hadvance with ⟨hfinal, rfl, rfl⟩ | ⟨hfinal, hadvanced⟩
      . have ⟨hceremonies, haudit, hinstalled⟩ := commitAdvance_final user rowId now fault hinv h hfind
        refine iff_of_true (Agrees.congr hceremonies haudit hinstalled h) ?_
        intro _ ceremony hfind' hfinal'
        rw [Option.some.inj (hfind'.symm.trans hfind), hfinal] at hfinal'
        contradiction
      . rw [agrees_transition_iff hinv h hfind hfinal hadvanced]
        have hpersisted : after.persisted = false :=
          hadvanced.persisted.trans (persisted_of_not_final hinv hfind hfinal)
        constructor
        . intro hcommits _ ceremony hfind' _ after' audit' hadvance'
          rw [Option.some.inj (hfind'.symm.trans hfind), hadvance] at hadvance'
          simp only [Except.ok.injEq, Prod.mk.injEq] at hadvance'
          rw [← hadvance'.left]
          exact ⟨hcommits.left, fun henabled => hcommits.right henabled hpersisted⟩
        . intro hunbroken
          have ⟨hcommit, hpersist⟩ := hunbroken hsuperuser before hfind hfinal after audit hadvance
          exact ⟨hcommit, fun henabled _ => hpersist henabled⟩
  | getInstall ceremonyId =>
    simp only [exec, getInstall, Unbroken, iff_true]
    split <;> exact h
  | updateModule => exact hon.elim
  | revokeModule => exact hon.elim

theorem canRetry_of_unbroken {request : Request} (hon : On id s request) (hinv : Tracks s id)
    (h : Agrees s id) (hunbroken : Unbroken host s request) : CanRetry host s id request := by
  cases request with
  | advanceInstall user ceremonyId action rowId now fault =>
    obtain rfl : ceremonyId = id := hon
    intro hfailed
    rcases exec_advanceInstall_cases host s user ceremonyId action rowId now fault with
      ⟨⟨audit, heq, _⟩, _⟩ | ⟨before, after, audit, hsuperuser, hfind, hadvance, heq⟩
    . rw [heq]
    . rcases advanceCeremony_cases hadvance with ⟨hfinal, rfl, rfl⟩ | ⟨hfinal, hadvanced⟩
      . rw [heq]
        exact (commitAdvance_final user rowId now fault hinv h hfind).left
      . have ⟨hcommit, hpersist⟩ := hunbroken hsuperuser before hfind hfinal after audit hadvance
        have hcommits : Commits s user after rowId now fault := ⟨hcommit, fun henabled _ => hpersist henabled⟩
        have ⟨shown, installed, admittedAt, hran, _⟩ := commitAdvance_of_commits audit hcommits
        rw [heq, hran] at hfailed
        contradiction
  | _ => trivial

end Step

section Run

/--
A ceremony agrees with the database after every request on it, and can go on after every failed advance,
if and only if no request fails in the database after it has changed the ceremony.
-/
theorem survivesFailures_iff (host : Host) {s : State} {id : Uuid} (hunknown : find? s.ceremonies id = none)
    (hrows : committedTransitions s.audit id = []) {requests : List Request}
    (hon : ∀ earlier request, earlier ++ [request] <+: requests
      → On id (earlier.foldl (fun s request => (exec host s request).1) s) request)
    : ((∀ earlier, earlier <+: requests
            → Agrees (earlier.foldl (fun s request => (exec host s request).1) s) id)
          ∧ ∀ earlier request, earlier ++ [request] <+: requests
            → CanRetry host (earlier.foldl (fun s request => (exec host s request).1) s) id request)
        ↔ ∀ earlier request, earlier ++ [request] <+: requests
          → Unbroken host (earlier.foldl (fun s request => (exec host s request).1) s) request := by
  have hstart : Tracks s id := by
    constructor
    . exact fun _ => hrows
    all_goals simp [hunknown]
  have hagrees : Agrees s id := by
    constructor
    . exact fun _ => hrows
    all_goals simp [hunknown]
  have hholds := @Runs.holds_iff_good_of_allowed State Request (fun s request => (exec host s request).1)
    (Tracks · id) (Agrees · id) (Unbroken host) (On id) (fun s request => tracks_exec)
    (fun s request => agrees_exec_iff) s hstart hagrees requests hon
  constructor
  . exact fun h => hholds.mp h.left
  . intro hunbroken
    refine ⟨hholds.mpr hunbroken, fun earlier request hbegin => ?_⟩
    have hearlier := (List.prefix_append _ _).trans hbegin
    have hinv := @Runs.foldl_invariant State Request (fun s request => (exec host s request).1)
      (Tracks · id) (On id) (fun s request => tracks_exec) s hstart earlier
      (fun before request hbefore => hon before request (hbefore.trans hearlier))
    exact canRetry_of_unbroken (hon earlier request hbegin) hinv (hholds.mpr hunbroken earlier hearlier)
      (hunbroken earlier request hbegin)

/--
The requests of an install, an advance of the finished ceremony whose commit fails, and its retry.
-/
def failedAfterwards : List Request :=
  install (plainDocument (py "1.0.0") (py "Cite.")) 1
    ++ [.advanceInstall admin (Uuid.ofNat 1) .trust (Uuid.ofNat 1) 2 (some .commit),
      .advanceInstall admin (Uuid.ofNat 1) .trust (Uuid.ofNat 1) 3 none]

theorem survivesFailures_iff_failedAfterwards
    : ((∀ earlier, earlier <+: failedAfterwards
            → Agrees (earlier.foldl (fun s request => (exec .plain s request).1)
              (Trace.initial .empty []).state) (Uuid.ofNat 1))
          ∧ ∀ earlier request, earlier ++ [request] <+: failedAfterwards
            → CanRetry .plain (earlier.foldl (fun s request => (exec .plain s request).1)
              (Trace.initial .empty []).state) (Uuid.ofNat 1) request)
        ∧ (exec .plain ((install (plainDocument (py "1.0.0") (py "Cite.")) 1).foldl
            (fun s request => (exec .plain s request).1) (Trace.initial .empty []).state)
            (.advanceInstall admin (Uuid.ofNat 1) .trust (Uuid.ofNat 1) 2 (some .commit))).2 = .databaseError := by
  have hon : Runs.Steps (fun s request => (exec .plain s request).1) (On (Uuid.ofNat 1))
      (Trace.initial .empty []).state failedAfterwards :=
    ⟨⟨rfl, rfl⟩, rfl, rfl, rfl, rfl, rfl, rfl, rfl, rfl, rfl, trivial⟩
  -- Until the module is installed a transition can insert its row, and a ceremony that has ended has none.
  have hopen {s : State} (rowId : Uuid) (now : Nat) (hempty : s.installed.rows = [])
      : Unbroken .plain s (.advanceInstall admin (Uuid.ofNat 1) .trust rowId now none) := by
    intro _ ceremony _ _ after audit _
    refine ⟨by simp, fun _ => ⟨by simp, ?_⟩⟩
    have hnone : sameVersion? s.installed after = none := by
      rw [sameVersion?, hempty]
      rfl
    rw [persistInstall, hnone, hempty]
    rfl
  have hended {s : State} (rowId : Uuid) (now : Nat) (fault : Option Fault)
      (hfinal : (find? s.ceremonies (Uuid.ofNat 1)).all (·.state.final) = true)
      : Unbroken .plain s (.advanceInstall admin (Uuid.ofNat 1) .trust rowId now fault) := by
    intro _ ceremony hfind hnot
    rw [hfind, Option.all_some, hnot] at hfinal
    cases hfinal
  have hunbroken : Runs.Steps (fun s request => (exec .plain s request).1) (Unbroken .plain)
      (Trace.initial .empty []).state failedAfterwards := by
    refine ⟨fun _ _ _ _ => by simp, hopen _ _ rfl, hopen _ _ rfl, hopen _ _ rfl, hopen _ _ rfl, hopen _ _ rfl,
      hopen _ _ rfl, hopen _ _ rfl, hended _ _ _ rfl, hended _ _ _ rfl, trivial⟩
  exact ⟨(survivesFailures_iff .plain rfl rfl fun _ _ hbegin => hon.of_prefix hbegin).mpr
    fun _ _ hbegin => hunbroken.of_prefix hbegin, rfl⟩

/--
The requests of an install whose last commit fails, and the retry.
-/
def failLastCommit : List Request :=
  (install (plainDocument (py "1.0.0") (py "Cite.")) 1).dropLast
    ++ [.advanceInstall admin (Uuid.ofNat 1) .grant (Uuid.ofNat 1) 1 (some .commit),
      .advanceInstall admin (Uuid.ofNat 1) .grant (Uuid.ofNat 1) 2 none]

/--
The ceremony is enabled for good, and its module is not installed.
-/
theorem not_survivesFailures
    : ¬ Agrees (failLastCommit.foldl (fun s request => (exec .plain s request).1)
          (Trace.initial .empty []).state) (Uuid.ofNat 1) := by
  intro h
  have hstate : (find? (failLastCommit.foldl (fun s request => (exec .plain s request).1)
      (Trace.initial .empty []).state).ceremonies (Uuid.ofNat 1)).map Ceremony.state = some .enabled := by
    decide +kernel
  have hrows : (failLastCommit.foldl (fun s request => (exec .plain s request).1)
      (Trace.initial .empty []).state).installed.rows.length = 0 := by
    decide +kernel
  have ⟨ceremony, hfind, henabled⟩ := Option.map_eq_some_iff.mp hstate
  have ⟨row, hrow, _⟩ := h.installed ceremony hfind henabled
  rw [List.length_eq_zero_iff.mp hrows] at hrow
  exact absurd hrow List.not_mem_nil

end Run

end Modules
