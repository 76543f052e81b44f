import Legalise.Modules.Writes

/-!
This module contains the invariant of the ceremonies in memory: what their cards, signature statuses and
histories say about the documents they are for.
-/

namespace Modules

open Signing TrustCeremony

section Path

/--
The states that lead to `enabled`.
-/
def path (fastPath : Bool) : List CeremonyState :=
  if fastPath then [.discovered, .publisherChecked, .permissionsReviewed, .granted, .enabled]
  else
    [
      .discovered, .inspected, .signatureChecked, .publisherChecked, .permissionsReviewed, .gatesReviewed,
      .granted, .enabled
    ]

def pathTo (fastPath : Bool) (state : CeremonyState) : List CeremonyState :=
  ((path fastPath).takeWhile fun earlier => earlier ≠ state) ++ [state]

theorem pathTo_enabled (fastPath : Bool) : pathTo fastPath .enabled = path fastPath := by
  cases fastPath <;> rfl

/--
A transition goes on to the next state of the path.
-/
theorem pathTo_nextState {ceremony : Ceremony} {action : Action} {next : CeremonyState}
    (hmem : ceremony.state ∈ path ceremony.fastPath) (hfinal : ceremony.state.final = false)
    (h : nextState ceremony action = .ok next)
    : next ∈ path ceremony.fastPath
      ∧ pathTo ceremony.fastPath next = pathTo ceremony.fastPath ceremony.state ++ [next] := by
  unfold nextState at h
  cases hfast : ceremony.fastPath <;> cases hstate : ceremony.state <;> cases action
    <;> simp [hfast, hstate, path, CeremonyState.final, CeremonyState.terminalFailures] at h hmem hfinal
    <;> rw [← h] <;> decide

end Path

/--
A ceremony shows the card of its module and the status of its signature, and has walked its path up to
the state it is in.
-/
structure Sound (host : Host) (ceremony : Ceremony) : Prop where
  card : ceremony.permissionCard
    = buildPermissionCard (isVerifiedPublisher host.registry) ceremony.module.manifest
  signature : ∃ signature result, host.verify ceremony.module.document signature = .ok result
    ∧ result.status = ceremony.signatureStatus
  fastPath : ceremony.fastPath
    = (ceremony.signatureStatus = .verified && ceremony.permissionCard.publisherVerified)
  walked : ceremony.state = .rejectedByUser
    ∨ ceremony.state ∈ path ceremony.fastPath
      ∧ ceremony.history.map HistoryEntry.state = pathTo ceremony.fastPath ceremony.state

namespace Sound

variable {host : Host}

theorem startCeremony {id : Uuid} {module : ModuleDocument} {actorUserId : Uuid} {signature : Option PyStr}
    {ceremony : Ceremony} {row : AuditLog}
    (h : TrustCeremony.startCeremony host.verify (isVerifiedPublisher host.registry) id module actorUserId
      signature = .ok (ceremony, row))
    : Sound host ceremony := by
  unfold TrustCeremony.startCeremony at h
  simp only [Except.bind_eq_ok_iff, Except.pure_eq_ok_iff, emitStateTransition, Prod.mk.injEq] at h
  obtain ⟨result, hverify, rfl, _⟩ := h
  constructor
  . rfl
  . exact ⟨signature, result, hverify, rfl⟩
  . rfl
  . right
    simp only [List.nil_append, List.map_cons, List.map_nil]
    cases decide (result.status = .verified)
      && (buildPermissionCard (isVerifiedPublisher host.registry) module.manifest).publisherVerified <;> decide

theorem advanceCeremony {before after : Ceremony} {action : Action} {audit : List AuditLog}
    (hbefore : Sound host before) (h : TrustCeremony.advanceCeremony before action = .ok (after, audit))
    : Sound host after := by
  unfold TrustCeremony.advanceCeremony at h
  split at h
  . simp only [Except.ok.injEq, Prod.mk.injEq] at h
    exact h.left ▸ hbefore
  . next hfinal =>
    split at h
    . simp only [emitStateTransition, Except.ok.injEq, Prod.mk.injEq] at h
      rw [← h.left]
      exact ⟨hbefore.card, hbefore.signature, hbefore.fastPath, .inl rfl⟩
    . simp only [Except.bind_eq_ok_iff, Except.pure_eq_ok_iff, emitStateTransition, Prod.mk.injEq] at h
      obtain ⟨next, hnext, rfl, _⟩ := h
      constructor
      . exact hbefore.card
      . exact hbefore.signature
      . exact hbefore.fastPath
      . have hfinal := Bool.eq_false_of_not_eq_true hfinal
        rcases hbefore.walked with hrejected | ⟨hmem, hhistory⟩
        . simp [hrejected, CeremonyState.final, CeremonyState.terminalFailures] at hfinal
        . obtain ⟨hnextMem, hpath⟩ := pathTo_nextState hmem hfinal hnext
          right
          simp only [List.map_append, List.map_cons, List.map_nil, hhistory]
          exact ⟨hnextMem, hpath.symm⟩

theorem persisted {ceremony : Ceremony} (h : Sound host ceremony)
    : Sound host { ceremony with persisted := true } :=
  ⟨h.card, h.signature, h.fastPath, h.walked⟩

/--
An enabled ceremony has gone through all of its states.
-/
theorem history_of_enabled {ceremony : Ceremony} (h : Sound host ceremony)
    (henabled : ceremony.state = .enabled)
    : ceremony.history.map HistoryEntry.state = path ceremony.fastPath := by
  rcases h.walked with hrejected | ⟨_, hhistory⟩
  . simp [henabled] at hrejected
  . rw [hhistory, henabled, pathTo_enabled]

end Sound

section Memory

variable {host : Host} {s : State}

theorem mem_of_mem_put {ceremonies : List Ceremony} {ceremony c : Ceremony} (h : c ∈ put ceremonies ceremony)
    : c = ceremony ∨ c ∈ ceremonies := by
  unfold put at h
  split at h
  . have ⟨d, hd, heq⟩ := List.mem_map.mp h
    split at heq
    . exact .inl heq.symm
    . exact .inr (heq ▸ hd)
  . rcases List.mem_append.mp h with h | h
    . exact .inr h
    . exact .inl (List.mem_singleton.mp h)

theorem mem_of_find? {ceremonies : List Ceremony} {id : Uuid} {ceremony : Ceremony}
    (h : find? ceremonies id = some ceremony) : ceremony ∈ ceremonies :=
  List.mem_of_find?_eq_some h

/--
All ceremonies in memory are sound.
-/
def AllSound (host : Host) (s : State) : Prop :=
  ∀ ceremony ∈ s.ceremonies, Sound host ceremony

theorem AllSound.put {ceremonies : List Ceremony} (h : ∀ c ∈ ceremonies, Sound host c) {ceremony : Ceremony}
    (hsound : Sound host ceremony) : ∀ c ∈ put ceremonies ceremony, Sound host c := by
  intro c hc
  rcases mem_of_mem_put hc with rfl | hmem
  . exact hsound
  . exact h c hmem

theorem AllSound.register (h : AllSound host s) {user : User} {module : ModuleDocument}
    {signature : Option PyStr} {ceremonyId : Uuid} {t : State} {ceremony : Ceremony} {row : AuditLog}
    (hregister : Modules.register host s user module signature ceremonyId = .ok (t, ceremony, row))
    : AllSound host t := by
  unfold Modules.register at hregister
  have ⟨started, hstart, heq⟩ := (Except.bind_eq_ok_iff _ _ _).mp hregister
  simp only [Except.pure_eq_ok_iff, Prod.mk.injEq] at heq
  rw [← heq.left]
  exact AllSound.put h (Sound.startCeremony hstart)

theorem AllSound.commitAdvance (h : AllSound host s) {user : User} {ceremony : Ceremony}
    (hsound : Sound host ceremony) {audit : List AuditLog} {rowId : Uuid} {now : Nat} {fault : Option Fault}
    {ran : State × Outcome} (hran : Modules.commitAdvance s user ceremony audit rowId now fault = ran)
    : AllSound host ran.1 := by
  have hput := AllSound.put h hsound
  have hpersisted := AllSound.put h hsound.persisted
  unfold Modules.commitAdvance at hran
  split at hran
  . split at hran
    . exact hran ▸ hput
    . split at hran
      . exact hran ▸ hput
      . split at hran <;> exact hran ▸ hpersisted
  . split at hran <;> exact hran ▸ hput

/--
A request keeps the ceremonies in memory sound, whether it fails or not.
-/
theorem AllSound.exec (h : AllSound host s) (request : Request)
    : AllSound host (Modules.exec host s request).1 := by
  cases request with
  | startInstall user document signature ceremonyId fault =>
    simp only [Modules.exec, startInstall]
    split
    . exact h
    . split
      . exact h
      . split
        . exact h
        . next hregister =>
          have hsound := h.register hregister
          split <;> exact hsound
  | advanceInstall user ceremonyId action rowId now fault =>
    simp only [Modules.exec, advanceInstall]
    split
    . exact h
    . split
      . exact h
      . next before hfind =>
        split
        . split <;> exact h
        . next hadvance =>
          exact h.commitAdvance ((h before (mem_of_find? hfind)).advanceCeremony hadvance) rfl
  | getInstall ceremonyId =>
    simp only [Modules.exec, getInstall]
    split <;> exact h
  | updateModule user moduleId newManifest signature ceremonyId pick fault =>
    simp only [Modules.exec, updateModule]
    split
    . exact h
    . split
      . exact h
      . split
        . exact h
        . split
          . exact h
          . split
            . split
              . exact h
              . next hregister =>
                have hsound := h.register hregister
                split <;> exact hsound
            . split
              . exact h
              . split <;> exact h
  | revokeModule user moduleId fault =>
    simp only [Modules.exec, revokeModule]
    split
    . exact h
    . exact h
    . split
      . exact h
      . split <;> exact h

end Memory

section Planned

variable {host : Host} {s : State}

/--
The writes that are planned for requests.
-/
inductive Planned (host : Host) (s : State) : Write → Prop where
  | nothing : Planned host s .nothing
  | disable (moduleId : PyStr) : Planned host s (.disable moduleId)
  | insert (user : User) (ceremony : Ceremony) (rowId : Uuid) (now : Nat)
    (hsound : Sound host ceremony) (henabled : ceremony.state = .enabled)
    (hnew : sameVersion? s.installed ceremony = none) :
    Planned host s (.insert (newRow user ceremony rowId now) ceremony now)
  | refresh (existing : InstalledModule) (user : User) (ceremony : Ceremony) (now : Nat)
    (hsound : Sound host ceremony) (henabled : ceremony.state = .enabled)
    (hexisting : sameVersion? s.installed ceremony = some existing) :
    Planned host s (.refresh existing user ceremony now)
  | replace (existing : InstalledModule) (module : ModuleDocument)
    (hexisting : existing ∈ s.installed.newest existing.moduleId)
    (hid : module.manifest.id = existing.moduleId) : Planned host s (.replace existing module)

theorem planned_planAdvance (h : AllSound host s) (user : User) (ceremonyId : Uuid) (action : Action)
    (rowId : Uuid) (now : Nat) (fault : Option Fault)
    : Planned host s (planAdvance s user ceremonyId action rowId now fault) := by
  unfold planAdvance
  split
  . split
    . exact .nothing
    . next before hfind =>
      split
      . exact .nothing
      . next ceremony _ hadvance =>
        have hsound := (h before (mem_of_find? hfind)).advanceCeremony hadvance
        split
        . next henabled =>
          unfold planPersist
          split
          . next existing hexisting => exact .refresh _ _ _ _ hsound henabled.left hexisting
          . next hnew =>
            split
            . exact .nothing
            . exact .insert _ _ _ _ hsound henabled.left hnew
        . exact .nothing
  . exact .nothing

theorem validate_of_admissible {document : Dict} {module : ModuleDocument}
    (h : admissible host s document = .ok module) : host.validate document = some module := by
  unfold admissible at h
  split at h
  . simp at h
  . next hvalidate =>
    split at h
    . simp at h
    . split at h
      . simp at h
      . rw [hvalidate, Except.ok.inj h]

theorem document_of_validate {document : Dict} {module : ModuleDocument}
    (h : host.validate document = some module) : module.document = document := by
  unfold Host.validate at h
  split at h
  . split at h
    . rw [← Option.some.inj h]
    . simp at h
  . simp at h

theorem get_id (module : ModuleDocument)
    : Dict.get module.document (py "id") = .str module.manifest.id := by
  have hread := module.readManifest_eq
  unfold readManifest at hread
  have ⟨id, hid, hread⟩ := Option.bind_eq_some_iff.mp hread
  have hmanifest : module.manifest.id = id := by
    iterate 8 obtain ⟨_, _, hread⟩ := Option.bind_eq_some_iff.mp hread
    split at hread
    . rw [← Option.some.inj hread]
    . simp at hread
  unfold member at hid
  have ⟨v, hv, htext⟩ := Option.bind_eq_some_iff.mp hid
  rw [Dict.get, Dict.getD, hv, hmanifest]
  cases v with
  | str name => simpa [text?] using htext
  | _ => simp [text?] at htext

theorem id_of_admissible {document : Dict} {module : ModuleDocument} {moduleId : PyStr}
    (h : admissible host s document = .ok module)
    (hid : (Dict.get document (py "id")).pyEq (.str moduleId)) : module.manifest.id = moduleId := by
  rw [← document_of_validate (validate_of_admissible h), get_id, Json.pyEq_str_iff] at hid
  exact Json.str.inj hid

theorem planned_planUpdate (user : User) (moduleId : PyStr) (newManifest : Dict) (pick : Nat)
    (fault : Option Fault) : Planned host s (planUpdate host s user moduleId newManifest pick fault) := by
  unfold planUpdate
  split
  . next hguards =>
    split
    . next existing module hfirst hadmissible =>
      have ⟨hmem, hmoduleId⟩ := moduleId_of_first? hfirst
      split
      . exact .replace _ _ (hmoduleId ▸ hmem)
          ((id_of_admissible hadmissible hguards.right.right).trans hmoduleId.symm)
      . exact .nothing
    . exact .nothing
  . exact .nothing

theorem planned_plan (h : AllSound host s) (request : Request)
    : Planned host s (plan host s request) := by
  cases request with
  | startInstall => exact .nothing
  | advanceInstall => exact planned_planAdvance h ..
  | getInstall => exact .nothing
  | updateModule => exact planned_planUpdate ..
  | revokeModule user moduleId fault =>
    simp only [plan, planRevoke]
    split
    . exact .disable moduleId
    . exact .nothing

end Planned

end Modules
