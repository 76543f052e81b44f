import Legalise.Lib.Except
import Legalise.Lib.Runs
import Legalise.Modules.Basic

/-!
This module contains what a request writes to the table of installed modules, and where the ceremonies of
a state come from.
-/

namespace Modules

open Signing TrustCeremony GrantsLifecycle

section Table

variable {t : InstalledTable}

theorem InstalledTable.rows_of_write? {rows : List InstalledModule} (h : InstalledTable.write? rows = some t)
    : t.rows = rows := by
  unfold InstalledTable.write? at h
  split at h
  . simp only [Option.some.injEq] at h
    rw [← h]
  . simp at h

/--
Columns that are not part of a constraint can be set.
-/
theorem InstalledTable.isSome_write? (t : InstalledTable) {f : InstalledModule → InstalledModule}
    (hid : ∀ row, (f row).id = row.id) (hkey : ∀ row, (f row).key = row.key)
    : (InstalledTable.write? (t.rows.map f)).isSome := by
  have hids : (t.rows.map f).map InstalledModule.id = t.rows.map InstalledModule.id := by
    simp [Function.comp_def, hid]
  have hkeys : (t.rows.map f).map InstalledModule.key = t.rows.map InstalledModule.key := by
    simp [Function.comp_def, hkey]
  unfold InstalledTable.write?
  rw [dif_pos ⟨hids ▸ t.ids, hkeys ▸ t.keys⟩]
  rfl

end Table

/--
An install, with the ceremony as the request returns it.
-/
structure Admission where
  ceremony : Ceremony
  admittedAt : Nat

/--
The module that an admission, an update in place or a revoke was about, as the response tells it.
-/
def Outcome.change? : Outcome → Option (PyStr × Option Admission)
  | .ceremony c (some now) => some (c.moduleId, some ⟨c, now⟩)
  | .updated moduleId _ _ none => some (moduleId, none)
  | .revoked moduleId => some (moduleId, none)
  | _ => none

/--
What a request does to the table of installed modules.
-/
inductive Write where
  | nothing
  | disable (moduleId : PyStr)
  | insert (row : InstalledModule) (ceremony : Ceremony) (now : Nat)
  | refresh (existing : InstalledModule) (user : User) (ceremony : Ceremony) (now : Nat)
  | replace (existing : InstalledModule) (module : ModuleDocument)

namespace Write

variable (host : Host)

def apply (rows : List InstalledModule) : Write → List InstalledModule
  | .nothing => rows
  | .disable moduleId =>
    rows.map fun row => if row.moduleId = moduleId then { row with enabled := false } else row
  | .insert row _ _ => rows ++ [row]
  | .refresh existing user ceremony _ =>
    rows.map fun row => if row.id = existing.id then refreshRow user ceremony row else row
  | .replace existing module =>
    rows.map fun row =>
      if row.id = existing.id then updateRow (isVerifiedPublisher host.registry) module row else row

def change? : Write → Option (PyStr × Option Admission)
  | .nothing => none
  | .disable moduleId => some (moduleId, none)
  | .insert _ ceremony now => some (ceremony.moduleId, some ⟨{ ceremony with persisted := true }, now⟩)
  | .refresh _ _ ceremony now => some (ceremony.moduleId, some ⟨{ ceremony with persisted := true }, now⟩)
  | .replace existing _ => some (existing.moduleId, none)

end Write

section Plan

variable (host : Host) (s : State)

def planPersist (user : User) (ceremony : Ceremony) (rowId : Uuid) (now : Nat) : Write :=
  match sameVersion? s.installed ceremony with
  | some existing => .refresh existing user ceremony now
  | none =>
    if rowId ∈ s.installed.rows.map InstalledModule.id then .nothing
    else .insert (newRow user ceremony rowId now) ceremony now

/--
An advance writes if it is the one that enables its ceremony, and nothing fails.
-/
def planAdvance (user : User) (ceremonyId : Uuid) (action : Action) (rowId : Uuid) (now : Nat)
    (fault : Option Fault) : Write :=
  if user.isSuperuser ∧ fault = none then
    match find? s.ceremonies ceremonyId with
    | none => .nothing
    | some ceremony =>
      match advanceCeremony ceremony action with
      | .error _ => .nothing
      | .ok (ceremony, _) =>
        if ceremony.state = .enabled ∧ ceremony.persisted = false then
          planPersist s user ceremony rowId now
        else .nothing
  else .nothing

/--
An update writes if its manifest is admissible for the module and asks for nothing that the comparison
finds.
-/
def planUpdate (user : User) (moduleId : PyStr) (newManifest : Dict) (pick : Nat) (fault : Option Fault)
    : Write :=
  if user.isSuperuser ∧ fault ≠ some .commit ∧ (Dict.get newManifest (py "id")).pyEq (.str moduleId) then
    match s.installed.first? moduleId pick, admissible host s newManifest with
    | some existing, .ok module =>
      if requiresReprompt (detectExpansion existing.permissionsSnapshot module.manifest.asSnapshot) = false
          ∧ (s.installed.set? existing.id
            (updateRow (isVerifiedPublisher host.registry) module)).isSome then
        .replace existing module
      else .nothing
    | _, _ => .nothing
  else .nothing

def planRevoke (user : User) (moduleId : PyStr) (fault : Option Fault) : Write :=
  if user.isSuperuser ∧ fault ≠ some .commit ∧ ∃ row ∈ s.installed.rows, row.moduleId = moduleId then
    .disable moduleId
  else .nothing

/--
What a request will write, from the state that it finds.
-/
def plan : Request → Write
  | .startInstall .. => .nothing
  | .advanceInstall user ceremonyId action rowId now fault =>
    planAdvance s user ceremonyId action rowId now fault
  | .getInstall _ => .nothing
  | .updateModule user moduleId newManifest _ _ pick fault =>
    planUpdate host s user moduleId newManifest pick fault
  | .revokeModule user moduleId fault => planRevoke s user moduleId fault

end Plan

section Spec

variable {host : Host} {s : State}

theorem set?_refreshRow (host : Host) (s : State) (user : User) (ceremony : Ceremony) (existing : InstalledModule) (now : Nat)
    : ∃ t, s.installed.set? existing.id (refreshRow user ceremony) = some t
      ∧ t.rows = (Write.refresh existing user ceremony now).apply host s.installed.rows := by
  have hsome := s.installed.isSome_write?
    (f := fun row => if row.id = existing.id then refreshRow user ceremony row else row)
    (fun row => by split <;> rfl) (fun row => by split <;> rfl)
  have ⟨t, ht⟩ := Option.isSome_iff_exists.mp hsome
  exact ⟨t, ht, InstalledTable.rows_of_write? ht⟩

theorem write?_newRow {ceremony : Ceremony} (h : sameVersion? s.installed ceremony = none)
    {user : User} {rowId : Uuid} {now : Nat}
    : InstalledTable.write? (s.installed.rows ++ [newRow user ceremony rowId now]) = none
        ↔ rowId ∈ s.installed.rows.map InstalledModule.id := by
  have hkey : (newRow user ceremony rowId now).key ∉ s.installed.rows.map InstalledModule.key := by
    intro hmem
    have ⟨row, hrow, heq⟩ := List.mem_map.mp hmem
    have hno := List.find?_eq_none.mp h row hrow
    exact hno (decide_eq_true heq)
  unfold InstalledTable.write?
  have hkeys : ((s.installed.rows ++ [newRow user ceremony rowId now]).map InstalledModule.key).Nodup := by
    rw [List.map_append, List.map_singleton, List.nodup_append_comm]
    exact List.nodup_cons.mpr ⟨hkey, s.installed.keys⟩
  have hids : ((s.installed.rows ++ [newRow user ceremony rowId now]).map InstalledModule.id).Nodup
      ↔ rowId ∉ s.installed.rows.map InstalledModule.id := by
    rw [List.map_append, List.map_singleton, List.nodup_append_comm]
    exact List.nodup_cons.trans (and_iff_left s.installed.ids)
  simp only [hkeys, hids, and_true]
  split
  . next h => simp [h]
  . next h => simpa using h

theorem persistInstall_eq_none (host : Host) {user : User} {ceremony : Ceremony} {rowId : Uuid} {now : Nat}
    (h : persistInstall user s.installed ceremony rowId now = none)
    : planPersist s user ceremony rowId now = .nothing := by
  unfold persistInstall at h
  unfold planPersist
  cases hfind : sameVersion? s.installed ceremony with
  | some existing =>
    have ⟨t, ht, _⟩ := set?_refreshRow host s user ceremony existing now
    simp [hfind, ht] at h
  | none =>
    simp only [hfind, write?_newRow hfind] at h
    exact if_pos h

theorem persistInstall_eq_some (host : Host) {user : User} {ceremony : Ceremony} {rowId : Uuid} {now : Nat}
    {t : InstalledTable} (h : persistInstall user s.installed ceremony rowId now = some t)
    : t.rows = (planPersist s user ceremony rowId now).apply host s.installed.rows
      ∧ (planPersist s user ceremony rowId now).change?
        = some (ceremony.moduleId, some ⟨{ ceremony with persisted := true }, now⟩) := by
  unfold persistInstall at h
  unfold planPersist
  cases hfind : sameVersion? s.installed ceremony with
  | some existing =>
    simp only [hfind] at h
    have ⟨t', ht', hrows⟩ := set?_refreshRow host s user ceremony existing now
    have heq : t' = t := Option.some.inj (ht'.symm.trans h)
    rw [← heq]
    exact ⟨hrows, rfl⟩
  | none =>
    simp only [hfind] at h
    have hid : rowId ∉ s.installed.rows.map InstalledModule.id := by
      rw [← write?_newRow hfind, h]
      simp
    simp only [if_neg hid, InstalledTable.rows_of_write? h]
    exact ⟨rfl, rfl⟩

/--
A plan says what happens to the rows, and what the response reports.
-/
def Follows (host : Host) (s : State) (plan : Write) (ran : State × Outcome) : Prop :=
  ran.1.installed.rows = plan.apply host s.installed.rows ∧ ran.2.change? = plan.change?

theorem follows_nothing {ran : State × Outcome} (hrows : ran.1.installed = s.installed)
    (hchange : ran.2.change? = none) : Follows host s .nothing ran :=
  ⟨congrArg InstalledTable.rows hrows, hchange⟩

theorem follows_commitAdvance (host : Host) {user : User} {ceremony : Ceremony} {audit : List AuditLog} {rowId : Uuid}
    {now : Nat} {fault : Option Fault} {ran : State × Outcome}
    (h : commitAdvance s user ceremony audit rowId now fault = ran)
    : Follows host s
        (if fault = none ∧ ceremony.state = .enabled ∧ ceremony.persisted = false then
          planPersist s user ceremony rowId now
        else .nothing)
        ran := by
  unfold commitAdvance at h
  split at h
  . next henabled =>
    simp only [henabled, and_true]
    split at h
    . next hflush => rw [hflush, ← h]; exact follows_nothing rfl rfl
    . next hflush =>
      split at h
      . next hpersist =>
        rw [persistInstall_eq_none host hpersist, ite_self, ← h]
        exact follows_nothing rfl rfl
      . next t hpersist =>
        have ⟨hrows, hchange⟩ := persistInstall_eq_some host hpersist
        split at h
        . next hcommit => rw [hcommit, ← h]; exact follows_nothing rfl rfl
        . next hcommit =>
          have hfault : fault = none := by
            cases fault with
            | none => rfl
            | some fault => cases fault <;> simp at hflush hcommit
          rw [if_pos hfault, ← h]
          exact ⟨hrows, hchange.symm⟩
  . next henabled =>
    rw [if_neg (fun hplan => henabled hplan.right)]
    split at h <;> rw [← h] <;> exact follows_nothing rfl rfl

theorem follows_advanceInstall {user : User} {ceremonyId : Uuid} {action : Action} {rowId : Uuid} {now : Nat}
    {fault : Option Fault} {ran : State × Outcome}
    (h : advanceInstall s user ceremonyId action rowId now fault = ran)
    : Follows host s (planAdvance s user ceremonyId action rowId now fault) ran := by
  unfold advanceInstall at h
  unfold planAdvance
  cases hsuperuser : user.isSuperuser with
  | false =>
    simp only [hsuperuser, Bool.not_false, if_true] at h
    rw [← h]
    exact follows_nothing rfl rfl
  | true =>
    simp only [hsuperuser, Bool.not_true, Bool.false_eq_true, if_false] at h
    simp only [true_and]
    cases hfind : find? s.ceremonies ceremonyId with
    | none =>
      simp only [hfind] at h
      rw [ite_self, ← h]
      exact follows_nothing rfl rfl
    | some ceremony =>
      simp only [hfind] at h
      cases hadvance : advanceCeremony ceremony action with
      | error message =>
        simp only [hadvance] at h
        simp only [hadvance, ite_self]
        split at h <;> rw [← h] <;> exact follows_nothing rfl rfl
      | ok advanced =>
        simp only [hadvance] at h
        have hfollows := follows_commitAdvance host h
        simp only [hadvance]
        by_cases hfault : fault = none
        . simpa only [hfault, true_and, if_true] using hfollows
        . simpa only [hfault, false_and, if_false] using hfollows

theorem installed_of_register {user : User} {module : ModuleDocument} {signature : Option PyStr}
    {ceremonyId : Uuid} {t : State} {ceremony : Ceremony} {row : AuditLog}
    (h : register host s user module signature ceremonyId = .ok (t, ceremony, row))
    : t.installed = s.installed := by
  unfold register at h
  have ⟨started, _, h⟩ := (Except.bind_eq_ok_iff _ _ _).mp h
  simp only [Except.pure_eq_ok_iff, Prod.mk.injEq] at h
  rw [← h.left]

theorem follows_startInstall {user : User} {document : Dict} {signature : Option PyStr} {ceremonyId : Uuid}
    {fault : Option Fault} {ran : State × Outcome}
    (h : startInstall host s user document signature ceremonyId fault = ran)
    : Follows host s .nothing ran := by
  unfold startInstall at h
  split at h
  . rw [← h]; exact follows_nothing rfl rfl
  . split at h
    . rw [← h]; exact follows_nothing rfl rfl
    . split at h
      . rw [← h]; exact follows_nothing rfl rfl
      . next hregister =>
        have hinstalled := installed_of_register hregister
        split at h <;> rw [← h] <;> exact follows_nothing hinstalled rfl

theorem moduleId_of_first? {t : InstalledTable} {moduleId : PyStr} {pick : Nat} {row : InstalledModule}
    (h : t.first? moduleId pick = some row) : row ∈ t.newest moduleId ∧ row.moduleId = moduleId := by
  have hmem := List.mem_of_getElem? h
  have hfilter := (List.mem_filter.mp hmem).right
  simp only [Bool.and_eq_true, decide_eq_true_eq] at hfilter
  exact ⟨hmem, hfilter.left⟩

theorem follows_updateModule {user : User} {moduleId : PyStr} {newManifest : Dict}
    {signature : Option PyStr} {ceremonyId : Uuid} {pick : Nat} {fault : Option Fault}
    {ran : State × Outcome}
    (h : updateModule host s user moduleId newManifest signature ceremonyId pick fault = ran)
    : Follows host s (planUpdate host s user moduleId newManifest pick fault) ran := by
  unfold updateModule at h
  unfold planUpdate
  cases hsuperuser : user.isSuperuser with
  | false =>
    simp only [hsuperuser, Bool.not_false, if_true] at h
    rw [← h]
    exact follows_nothing rfl rfl
  | true =>
    simp only [hsuperuser, Bool.not_true, Bool.false_eq_true, if_false] at h
    simp only [true_and]
    split at h
    . next hfirst =>
      simp only [hfirst, ite_self]
      rw [← h]
      exact follows_nothing rfl rfl
    . next existing hfirst =>
      split at h
      . next hid =>
        simp only [hid, Bool.false_eq_true, and_false, if_false]
        rw [← h]
        exact follows_nothing rfl rfl
      . next hid =>
        have hid := Bool.eq_true_of_not_eq_false hid
        split at h
        . next hadmissible =>
          simp only [hfirst, hadmissible, ite_self]
          rw [← h]
          exact follows_nothing rfl rfl
        . next module hadmissible =>
          simp only [hid, hfirst, hadmissible, and_true]
          split at h
          . next hreprompt =>
            simp only [hreprompt, Bool.true_eq_false, false_and, if_false, ite_self]
            split at h
            . rw [← h]; exact follows_nothing rfl rfl
            . next hregister =>
              have hinstalled := installed_of_register hregister
              split at h <;> rw [← h] <;> exact follows_nothing hinstalled rfl
          . next hreprompt =>
            simp only [Bool.eq_false_of_not_eq_true hreprompt, true_and]
            split at h
            . next hset =>
              simp only [hset, Option.isSome_none, Bool.false_eq_true, if_false, ite_self]
              rw [← h]
              exact follows_nothing rfl rfl
            . next installed hset =>
              simp only [hset, Option.isSome_some, if_true]
              split at h
              . next hcommit =>
                rw [hcommit, ← h]
                exact follows_nothing rfl rfl
              . next hcommit =>
                rw [if_pos hcommit, ← h]
                refine ⟨InstalledTable.rows_of_write? hset, ?_⟩
                simp only [Outcome.change?, Write.change?, (moduleId_of_first? hfirst).right]

theorem follows_revokeModule {user : User} {moduleId : PyStr} {fault : Option Fault} {ran : State × Outcome}
    (h : revokeModule host s user moduleId fault = ran)
    : Follows host s (planRevoke s user moduleId fault) ran := by
  unfold revokeModule Capabilities.revokeModule at h
  unfold planRevoke
  cases hsuperuser : user.isSuperuser with
  | false =>
    simp only [hsuperuser, Bool.not_false, if_true] at h
    rw [← h]
    exact follows_nothing rfl rfl
  | true =>
    simp only [hsuperuser, Bool.not_true, Bool.false_eq_true, if_false, List.length_eq_zero_iff,
      List.filter_eq_nil_iff, decide_eq_true_eq] at h
    simp only [true_and]
    by_cases hrows : ∃ row ∈ s.installed.rows, row.moduleId = moduleId
    . have hsome := s.installed.isSome_write?
        (f := fun row => if row.moduleId = moduleId then { row with enabled := false } else row)
        (fun row => by split <;> rfl) (fun row => by split <;> rfl)
      have ⟨t, ht⟩ := Option.isSome_iff_exists.mp hsome
      have ⟨row, hrow, heq⟩ := hrows
      rw [if_neg (fun hno => hno row hrow heq)] at h
      simp only [ht] at h
      simp only [hrows, and_true]
      split at h
      . next hcommit =>
        rw [hcommit, ← h]
        exact follows_nothing rfl rfl
      . next hcommit =>
        rw [if_pos hcommit, ← h]
        exact ⟨InstalledTable.rows_of_write? ht, rfl⟩
    . rw [if_pos (fun row hrow heq => hrows ⟨row, hrow, heq⟩)] at h
      simp only [hrows, and_false, if_false]
      rw [← h]
      exact follows_nothing rfl rfl

/--
A request does to the installed modules what is planned for it.
-/
theorem follows_plan (host : Host) (s : State) (request : Request)
    : Follows host s (plan host s request) (exec host s request) := by
  cases request with
  | startInstall => exact follows_startInstall rfl
  | advanceInstall => exact follows_advanceInstall rfl
  | getInstall ceremonyId =>
    simp only [plan, exec, getInstall]
    split <;> exact follows_nothing rfl rfl
  | updateModule => exact follows_updateModule rfl
  | revokeModule => exact follows_revokeModule rfl

end Spec

end Modules
