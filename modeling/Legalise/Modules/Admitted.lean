import Legalise.Modules.Trace

/-!
This module contains when only admitted manifests run: what a row that invocations dispatch owes to the
ceremonies.
-/

namespace Modules

open Signing TrustCeremony

/--
The columns of a row that only the first admission of its version sets are those of an admission.
-/
structure SameOrigin (admission : Admission) (row : InstalledModule) : Prop where
  publisher : row.publisher = admission.ceremony.module.manifest.publisher
  signedBy : row.signedBy = admission.ceremony.module.manifest.signedBy
  verifiedAt : row.verifiedAt = if admission.ceremony.fastPath then some admission.admittedAt else none

/--
A row runs the manifest of an admission, with everything that the admission established for it.
-/
structure Carries (admission : Admission) (row : InstalledModule) : Prop where
  module : row.manifestSnapshot = admission.ceremony.module
  signatureStatus : row.signatureStatus = admission.ceremony.signatureStatus
  origin : SameOrigin admission row

/--
A ceremony has gone through all states of its path up to `enabled`, and its signature status is what the
verification of its document returned.
-/
structure Completed (host : Host) (ceremony : Ceremony) : Prop where
  history : ceremony.history.map HistoryEntry.state = path ceremony.fastPath
  enabled : ceremony.state = .enabled
  signature : ∃ signature result, host.verify ceremony.module.document signature = .ok result
    ∧ result.status = ceremony.signatureStatus

/--
Whatever an invocation dispatches has been carried through a completed ceremony.
-/
def OnlyAdmittedRun (host : Host) (trace : Trace) : Prop :=
  ∀ moduleId capabilityId pick row,
    dispatched trace.state.installed moduleId capabilityId pick = some row
      → ∃ admission ∈ trace.admissions, Completed host admission.ceremony ∧ Carries admission row

/--
A re-admission gives a row that is dispatched the manifest of a ceremony whose publisher, signer and moment
of verification the row has already, and an update in place gives an enabled one a manifest that has been
admitted with all that the row says.
-/
def KeepsProvenance (trace : Trace) : Write → Prop
  | .refresh existing _ ceremony now =>
    existing ∈ trace.state.installed.newest existing.moduleId → Invokable ceremony.module.manifest
      → ∃ admission ∈ trace.admissions ++ [⟨{ ceremony with persisted := true }, now⟩],
        admission.ceremony.module = ceremony.module
          ∧ admission.ceremony.signatureStatus = ceremony.signatureStatus ∧ SameOrigin admission existing
  | .replace existing module =>
    existing.enabled → Invokable module.manifest
      → ∃ admission ∈ trace.admissions, admission.ceremony.module = module
        ∧ admission.ceremony.signatureStatus = existing.signatureStatus ∧ SameOrigin admission existing
  | _ => True

section Step

variable {host : Host} {trace : Trace}

theorem completed_of_sound {ceremony : Ceremony} (h : Sound host ceremony)
    (henabled : ceremony.state = .enabled) : Completed host ceremony where
  history := h.history_of_enabled henabled
  enabled := henabled
  signature := h.signature

/--
What is dispatched are the newest rows, as far as they are enabled and have something to invoke.
-/
theorem onlyAdmittedRun_iff (hinv : trace.Inv host)
    : OnlyAdmittedRun host trace
        ↔ ∀ moduleId, ∀ row ∈ trace.state.installed.newest moduleId, row.enabled
          → Invokable row.manifestSnapshot.manifest → ∃ admission ∈ trace.admissions, Carries admission row := by
  unfold OnlyAdmittedRun
  constructor
  . intro h moduleId row hrow henabled hinvokable
    have ⟨capabilityId, pick, hdispatched⟩ := exists_dispatched_iff.mpr ⟨hrow, henabled, hinvokable⟩
    have ⟨admission, hadmission, _, hcarries⟩ := h moduleId capabilityId pick row hdispatched
    exact ⟨admission, hadmission, hcarries⟩
  . intro h moduleId capabilityId pick row hdispatched
    have ⟨hrow, henabled, hinvokable⟩ := exists_dispatched_iff.mp ⟨capabilityId, pick, hdispatched⟩
    have ⟨admission, hadmission, hcarries⟩ := h moduleId row hrow henabled hinvokable
    exact ⟨admission, hadmission,
      completed_of_sound (hinv.sound admission hadmission) (hinv.completed admission hadmission), hcarries⟩

theorem onlyAdmittedRun_exec_iff (hinv : trace.Inv host) (h : OnlyAdmittedRun host trace)
    (request : Request)
    : OnlyAdmittedRun host (trace.exec host request)
        ↔ KeepsProvenance trace (plan host trace.state request) := by
  rw [onlyAdmittedRun_iff (hinv.exec request)]
  rw [onlyAdmittedRun_iff hinv] at h
  have hplanned := hinv.planned request
  have hrows := Trace.rows_exec host trace request
  have hadmissions := Trace.admissions_exec host trace request
  revert hplanned hrows hadmissions
  generalize plan host trace.state request = write
  generalize trace.exec host request = after
  intro hplanned hrows hadmissions
  cases hplanned with
  | nothing =>
    simp only [KeepsProvenance, iff_true]
    have heq : after.state.installed = trace.state.installed := InstalledTable.ext_rows hrows
    simp only [Write.change?, Option.bind_none, Option.toList_none, List.append_nil] at hadmissions
    rw [heq, hadmissions]
    exact h
  | disable moduleId =>
    simp only [KeepsProvenance, iff_true]
    intro changed row hrow henabled hinvokable
    simp only [Write.change?, Option.bind_some, Option.toList_none, List.append_nil] at hadmissions
    obtain ⟨before, hbefore, heq⟩ := (mem_newest_map_iff hrows (fun row => by split <;> rfl)
      (fun row => by split <;> rfl)).mp hrow
    split at heq
    . rw [← heq] at henabled
      simp at henabled
    . rw [← heq] at henabled hinvokable ⊢
      rw [hadmissions]
      exact h changed before hbefore henabled hinvokable
  | insert user ceremony rowId now hsound henabled hnew =>
    simp only [KeepsProvenance, iff_true]
    intro changed row hrow henabled hinvokable
    simp only [Write.change?, Option.bind_some, Option.toList_some] at hadmissions
    rw [hadmissions]
    obtain ⟨hmem, hid, hnewest⟩ := mem_newest_iff.mp hrow
    rw [hrows] at hmem
    rcases List.mem_append.mp hmem with hbefore | hlast
    . have hrow : row ∈ trace.state.installed.newest changed :=
        mem_newest_iff.mpr ⟨hbefore, hid, fun other hother =>
          hnewest other (by rw [hrows]; exact List.mem_append_left _ hother)⟩
      obtain ⟨admission, hadmission, hcarries⟩ := h changed row hrow henabled hinvokable
      exact ⟨admission, List.mem_append_left _ hadmission, hcarries⟩
    . rw [List.mem_singleton.mp hlast]
      exact ⟨_, List.mem_append_right _ (List.mem_singleton.mpr rfl), rfl, rfl, ⟨rfl, rfl, rfl⟩⟩
  | refresh existing user ceremony now hsound henabled hexisting =>
    have hexistingMem := (Trace.key_of_sameVersion? hexisting).left
    simp only [Write.change?, Option.bind_some, Option.toList_some] at hadmissions
    have hnewest (moduleId : PyStr) (row : InstalledModule)
        : row ∈ after.state.installed.newest moduleId
            ↔ ∃ before ∈ trace.state.installed.newest moduleId, _ = row :=
      mem_newest_map_iff hrows (fun row => by split <;> rfl) (fun row => by split <;> rfl)
    simp only [KeepsProvenance, hnewest, hadmissions]
    constructor
    . intro hall hmem hinvokable
      obtain ⟨admission, hadmission, hcarries⟩ :=
        hall existing.moduleId (refreshRow user ceremony existing) ⟨existing, hmem, if_pos rfl⟩ rfl hinvokable
      have horigin : SameOrigin admission existing :=
        ⟨hcarries.origin.publisher, hcarries.origin.signedBy, hcarries.origin.verifiedAt⟩
      exact ⟨admission, hadmission, hcarries.module.symm, hcarries.signatureStatus.symm, horigin⟩
    . rintro hkeeps changed row ⟨before, hbefore, heq⟩ henabled hinvokable
      split at heq
      . next hid =>
        have hmem := mem_newest_iff.mp hbefore
        rw [eq_of_id_eq hmem.left hexistingMem hid] at hbefore heq hmem
        rw [← hmem.right.left] at hbefore
        rw [← heq] at hinvokable ⊢
        obtain ⟨admission, hadmission, hmodule, hstatus, horigin⟩ := hkeeps hbefore hinvokable
        exact ⟨admission, hadmission, hmodule.symm, hstatus.symm,
          ⟨horigin.publisher, horigin.signedBy, horigin.verifiedAt⟩⟩
      . rw [← heq] at henabled hinvokable ⊢
        obtain ⟨admission, hadmission, hcarries⟩ := h changed before hbefore henabled hinvokable
        exact ⟨admission, List.mem_append_left _ hadmission, hcarries⟩
  | replace existing module hexisting hid =>
    have hexistingMem := (mem_newest_iff.mp hexisting).left
    simp only [Write.change?, Option.bind_some, Option.toList_none, List.append_nil] at hadmissions
    have hnewest (moduleId : PyStr) (row : InstalledModule)
        : row ∈ after.state.installed.newest moduleId
            ↔ ∃ before ∈ trace.state.installed.newest moduleId, _ = row :=
      mem_newest_map_iff hrows (fun row => by split <;> rfl) (fun row => by split <;> rfl)
    simp only [KeepsProvenance, hnewest, hadmissions]
    constructor
    . intro hall henabled hinvokable
      obtain ⟨admission, hadmission, hcarries⟩ :=
        hall existing.moduleId _ ⟨existing, hexisting, if_pos rfl⟩ henabled hinvokable
      have horigin : SameOrigin admission existing :=
        ⟨hcarries.origin.publisher, hcarries.origin.signedBy, hcarries.origin.verifiedAt⟩
      exact ⟨admission, hadmission, hcarries.module.symm, hcarries.signatureStatus.symm, horigin⟩
    . rintro hkeeps changed row ⟨before, hbefore, heq⟩ henabled hinvokable
      split at heq
      . next hid =>
        rw [eq_of_id_eq (mem_newest_iff.mp hbefore).left hexistingMem hid] at heq
        rw [← heq] at henabled hinvokable ⊢
        obtain ⟨admission, hadmission, hmodule, hstatus, horigin⟩ := hkeeps henabled hinvokable
        exact ⟨admission, hadmission, hmodule.symm, hstatus.symm,
          ⟨horigin.publisher, horigin.signedBy, horigin.verifiedAt⟩⟩
      . rw [← heq] at henabled hinvokable ⊢
        exact h changed before hbefore henabled hinvokable

end Step

theorem onlyAdmitted_iff (host : Host) (grants : Capabilities.GrantTable) (audit : List AuditLog)
    (requests : List Request)
    : (∀ earlier, earlier <+: requests
            → OnlyAdmittedRun host (earlier.foldl (Trace.exec host) (.initial grants audit)))
        ↔ ∀ earlier request, earlier ++ [request] <+: requests
            → let trace := earlier.foldl (Trace.exec host) (.initial grants audit)
              KeepsProvenance trace (plan host trace.state request) := by
  refine @Runs.holds_iff_good Trace Request (Trace.exec host) (Trace.Inv host) (OnlyAdmittedRun host)
    (fun trace request => KeepsProvenance trace (plan host trace.state request)) ?_ ?_ _ ?_ ?_ requests
  . exact fun trace request h => h.exec request
  . exact fun trace request hinv h => onlyAdmittedRun_exec_iff hinv h request
  . exact Trace.inv_initial grants audit
  . intro moduleId capabilityId pick row hdispatched
    have ⟨hnewest, _⟩ := exists_dispatched_iff.mp ⟨capabilityId, pick, hdispatched⟩
    exact absurd (mem_newest_iff.mp hnewest).left List.not_mem_nil

/--
The requests that admit a module and then update it in place to another prompt.
-/
def changePrompt : List Request :=
  install (plainDocument (py "1.0.0") (py "Cite the sources.")) 1
    ++ [.updateModule admin (py "example.module") (plainDocument (py "1.0.1") (py "Cite no sources.")) none
      (Uuid.ofNat 2) 0 none]

/--
The prompt of the update runs without a ceremony.
-/
theorem prompt_not_admitted
    : ¬ OnlyAdmittedRun .plain (changePrompt.foldl (Trace.exec .plain) (.initial .empty [])) := by
  intro h
  have hadmitted : (changePrompt.foldl (Trace.exec .plain) (.initial .empty [])).admissions.map
      (fun admission => admission.ceremony.module.manifest.version) = [py "1.0.0"] := by
    decide +kernel
  have hruns : (dispatched (changePrompt.foldl (Trace.exec .plain) (.initial .empty [])).state.installed
      (py "example.module") (py "draft") 0).map (fun row => row.manifestSnapshot.manifest.version)
      = some (py "1.0.1") := by
    decide +kernel
  have ⟨row, hrow, hversion⟩ := Option.map_eq_some_iff.mp hruns
  have ⟨admission, hadmission, _, hcarries⟩ := h _ _ _ row hrow
  have hmem := List.mem_map_of_mem (f := fun admission => admission.ceremony.module.manifest.version) hadmission
  rw [hadmitted, List.mem_singleton, ← hcarries.module, hversion] at hmem
  revert hmem
  decide

end Modules
