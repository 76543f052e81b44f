import Legalise.Modules.Trace

/-!
This module contains when the manifest that was admitted last is the one that runs.
-/

namespace Modules

open Signing TrustCeremony

/--
The invocations resolve a module to an enabled row with a manifest, and the updates compare with the
permissions of this manifest.
-/
def Resolves (host : Host) (t : InstalledTable) (moduleId : PyStr) (module : ModuleDocument) : Prop :=
  ∀ pick, ∃ row, t.first? moduleId pick = some row ∧ row.enabled ∧ row.manifestSnapshot = module
    ∧ row.permissionsSnapshot
      = (buildPermissionCard (isVerifiedPublisher host.registry) module.manifest).snapshot

/--
The row that an admission writes is newer than all other rows of its module.
-/
def AdmitsNewest (t : InstalledTable) : Write → Prop
  | .insert row _ _ => ∀ other ∈ t.rows, other.moduleId = row.moduleId → other.installedAt < row.installedAt
  | .refresh existing _ _ _ =>
    ∀ other ∈ t.rows, other.moduleId = existing.moduleId → other.id ≠ existing.id
      → other.installedAt < existing.installedAt
  | _ => True

theorem admitsNewest_of_change? (t : InstalledTable) {write : Write} {change : Option (PyStr × Option Admission)}
    (h : write.change? = change) (hno : change.bind Prod.snd = none) : AdmitsNewest t write := by
  cases write with
  | insert => simp [← h, Write.change?] at hno
  | refresh => simp [← h, Write.change?] at hno
  | _ => exact trivial

section Resolves

variable {host : Host} {t t' : InstalledTable} {moduleId : PyStr} {module : ModuleDocument}

theorem resolves_iff
    : Resolves host t moduleId module
        ↔ (∃ row ∈ t.rows, row.moduleId = moduleId)
          ∧ ∀ row ∈ t.newest moduleId, row.enabled ∧ row.manifestSnapshot = module
            ∧ row.permissionsSnapshot
              = (buildPermissionCard (isVerifiedPublisher host.registry) module.manifest).snapshot := by
  constructor
  . intro h
    constructor
    . have ⟨row, hfirst, _⟩ := h 0
      have ⟨hmem, hid⟩ := moduleId_of_first? hfirst
      exact ⟨row, (mem_newest_iff.mp hmem).left, hid⟩
    . intro row hrow
      have ⟨pick, hpick⟩ := exists_first?_iff.mpr hrow
      have ⟨row', hfirst, hrest⟩ := h pick
      rwa [Option.some.inj (hpick.symm.trans hfirst)]
  . rintro ⟨⟨row, hrow, rfl⟩, hall⟩ pick
    have ⟨newest, hnewest, _⟩ := exists_mem_newest hrow
    have ⟨found, hfound, hfirst⟩ := exists_of_newest_ne_nil (List.ne_nil_of_mem hnewest) pick
    exact ⟨found, hfirst, hall found hfound⟩

theorem resolves_congr
    (h : ∀ row : InstalledModule, row.moduleId = moduleId → (row ∈ t.rows ↔ row ∈ t'.rows))
    : Resolves host t moduleId module ↔ Resolves host t' moduleId module := by
  rw [resolves_iff, resolves_iff]
  constructor
  . rintro ⟨⟨row, hrow, hid⟩, hall⟩
    exact ⟨⟨row, (h row hid).mp hrow, hid⟩, fun row hrow => hall row ((mem_newest_congr h).mpr hrow)⟩
  . rintro ⟨⟨row, hrow, hid⟩, hall⟩
    exact ⟨⟨row, (h row hid).mpr hrow, hid⟩, fun row hrow => hall row ((mem_newest_congr h).mp hrow)⟩

/--
A row with the manifest is what the module resolves to exactly if it is the only newest row.
-/
theorem resolves_iff_newest (host : Host) {row : InstalledModule} (hkeyed : Trace.Keyed t.rows) (hrow : row ∈ t.rows)
    (henabled : row.enabled) (hmodule : row.manifestSnapshot = module)
    (hcard : row.permissionsSnapshot
      = (buildPermissionCard (isVerifiedPublisher host.registry) module.manifest).snapshot)
    : Resolves host t row.moduleId module
        ↔ ∀ other ∈ t.rows, other.moduleId = row.moduleId → other ≠ row
          → other.installedAt < row.installedAt := by
  rw [resolves_iff]
  constructor
  . rintro ⟨_, hall⟩ other hother hid hne
    -- A newest row has the manifest, and with it the key of the row.
    have hunique (newest : InstalledModule) (hnewest : newest ∈ t.newest row.moduleId) : newest = row := by
      have hmem := (mem_newest_iff.mp hnewest).left
      refine eq_of_key_eq hmem hrow ?_
      rw [hkeyed newest hmem, hkeyed row hrow, (hall newest hnewest).right.left, hmodule]
    have ⟨newest, hnewest, hle⟩ := exists_mem_newest hother
    rw [hid] at hnewest
    have heq := hunique newest hnewest
    refine lt_of_le_of_ne (heq ▸ hle) (fun hsame => hne (hunique other ?_))
    rw [mem_newest_iff]
    refine ⟨hother, hid, fun third hthird hthirdId => ?_⟩
    rw [hsame, ← heq]
    exact (mem_newest_iff.mp hnewest).right.right third hthird hthirdId
  . intro hall
    refine ⟨⟨row, hrow, rfl⟩, fun newest hnewest => ?_⟩
    have ⟨hmem, hid, hle⟩ := mem_newest_iff.mp hnewest
    have heq : newest = row := by
      by_contra hne
      exact absurd (hle row hrow rfl) (not_le.mpr (hall newest hmem hid hne))
    rw [heq]
    exact ⟨henabled, hmodule, hcard⟩

end Resolves

section Step

variable {host : Host} {s : State} {t' : InstalledTable} {write : Write}

theorem mem_map_ite_iff {rows : List InstalledModule} {c : InstalledModule → Prop} [DecidablePred c]
    {f : InstalledModule → InstalledModule} {moduleId : PyStr} (hc : ∀ row ∈ rows, c row → row.moduleId ≠ moduleId)
    (hf : ∀ row, (f row).moduleId = row.moduleId) {row : InstalledModule} (hid : row.moduleId = moduleId)
    : row ∈ rows.map (fun row => if c row then f row else row) ↔ row ∈ rows := by
  rw [List.mem_map]
  constructor
  . rintro ⟨before, hbefore, heq⟩
    split at heq
    . next h => exact absurd ((hf before).symm.trans (heq ▸ hid)) (hc before hbefore h)
    . exact heq ▸ hbefore
  . intro hrow
    exact ⟨row, hrow, if_neg (fun h => hc row hrow h hid)⟩

/--
A write leaves the rows of all other modules alone.
-/
theorem mem_apply_iff (hplanned : Planned host s write) {moduleId : PyStr}
    (hchange : write.change?.map Prod.fst ≠ some moduleId) {row : InstalledModule} (hid : row.moduleId = moduleId)
    : row ∈ write.apply host s.installed.rows ↔ row ∈ s.installed.rows := by
  cases hplanned with
  | nothing => exact Iff.rfl
  | disable changed =>
    simp only [Write.change?, Option.map_some, ne_eq, Option.some.injEq] at hchange
    exact mem_map_ite_iff (f := fun row => { row with enabled := false })
      (c := fun row => row.moduleId = changed) (fun row _ h hne => hchange (h.symm.trans hne)) (fun _ => rfl) hid
  | insert user ceremony rowId now hsound henabled hnew =>
    simp only [Write.change?, Option.map_some, ne_eq, Option.some.injEq] at hchange
    simp only [Write.apply, List.mem_append, List.mem_singleton, or_iff_left_iff_imp]
    intro heq
    rw [heq] at hid
    exact absurd hid hchange
  | refresh existing user ceremony now hsound henabled hexisting =>
    obtain ⟨hmem, hkey⟩ := Trace.key_of_sameVersion? hexisting
    simp only [Write.change?, Option.map_some, ne_eq, Option.some.injEq] at hchange
    refine mem_map_ite_iff (f := refreshRow user ceremony) (c := fun row => row.id = existing.id)
      (fun row hrow h hne => hchange ?_) (fun _ => rfl) hid
    rw [eq_of_id_eq hrow hmem h] at hne
    exact (congrArg Prod.fst hkey).symm.trans hne
  | replace existing module hexisting hexistingId =>
    have hmem := (mem_newest_iff.mp hexisting).left
    simp only [Write.change?, Option.map_some, ne_eq, Option.some.injEq] at hchange
    refine mem_map_ite_iff (f := updateRow (isVerifiedPublisher host.registry) module)
      (c := fun row => row.id = existing.id) (fun row hrow h hne => hchange ?_) (fun _ => rfl) hid
    rwa [eq_of_id_eq hrow hmem h] at hne

/--
After an admission the module resolves to its manifest exactly if its row is newer than all others.
-/
theorem resolves_admitted_iff (hkeyed : Trace.Keyed s.installed.rows) (hplanned : Planned host s write)
    (hrows : t'.rows = write.apply host s.installed.rows) {moduleId : PyStr} {admission : Admission}
    (hchange : write.change? = some (moduleId, some admission))
    : Resolves host t' moduleId admission.ceremony.module ↔ AdmitsNewest s.installed write := by
  have hkeyed' : Trace.Keyed t'.rows := by
    rw [hrows]
    exact Trace.keyed_apply hkeyed hplanned
  cases hplanned with
  | nothing => simp [Write.change?] at hchange
  | disable changed => simp [Write.change?] at hchange
  | insert user ceremony rowId now hsound henabled hnew =>
    simp only [Write.change?, Option.some.injEq, Prod.mk.injEq] at hchange
    obtain ⟨rfl, rfl⟩ := hchange
    have hmem : newRow user ceremony rowId now ∈ t'.rows := by simp [hrows, Write.apply]
    have hresolves := resolves_iff_newest host hkeyed' hmem rfl rfl
      (congrArg PermissionCard.snapshot hsound.card)
    refine hresolves.trans ?_
    constructor
    . intro h other hother hid
      refine h other (by simp [hrows, Write.apply, hother]) hid (fun heq => ?_)
      have hno := List.find?_eq_none.mp hnew other hother
      rw [heq] at hno
      exact hno (decide_eq_true rfl)
    . intro h other hother hid hne
      simp only [hrows, Write.apply, List.mem_append, List.mem_singleton, hne, or_false] at hother
      exact h other hother hid
  | refresh existing user ceremony now hsound henabled hexisting =>
    obtain ⟨hexistingMem, hkey⟩ := Trace.key_of_sameVersion? hexisting
    simp only [Write.change?, Option.some.injEq, Prod.mk.injEq] at hchange
    obtain ⟨rfl, rfl⟩ := hchange
    have hmem : refreshRow user ceremony existing ∈ t'.rows := by
      rw [hrows]
      exact List.mem_map.mpr ⟨existing, hexistingMem, if_pos rfl⟩
    have hresolves := resolves_iff_newest host hkeyed' hmem rfl rfl
      (congrArg PermissionCard.snapshot hsound.card)
    have hmoduleId : ceremony.moduleId = existing.moduleId := (congrArg Prod.fst hkey).symm
    have hother (other : InstalledModule) : other ∈ t'.rows ∧ other ≠ refreshRow user ceremony existing
        ↔ other ∈ s.installed.rows ∧ other.id ≠ existing.id := by
      simp only [hrows, Write.apply, List.mem_map]
      constructor
      . rintro ⟨⟨before, hbefore, heq⟩, hne⟩
        split at heq
        . next h =>
          rw [eq_of_id_eq hbefore hexistingMem h] at heq
          exact absurd heq.symm hne
        . next h => exact heq ▸ ⟨hbefore, h⟩
      . rintro ⟨hmem, hne⟩
        exact ⟨⟨other, hmem, if_neg hne⟩, fun heq => hne (heq ▸ rfl)⟩
    simp only [hmoduleId]
    refine hresolves.trans ?_
    constructor
    . intro h other hmem hid hne
      obtain ⟨hmem', hne'⟩ := (hother other).mpr ⟨hmem, hne⟩
      exact h other hmem' hid hne'
    . intro h other hmem hid hne
      obtain ⟨hmem', hne'⟩ := (hother other).mp ⟨hmem, hne⟩
      exact h other hmem' hid hne'
  | replace existing module hexisting hid => simp [Write.change?] at hchange

end Step

section Run

variable (host : Host)

/--
What has been admitted last, with no update in place and no revoke since, is what the module resolves to.
-/
def LastAdmissionRuns (trace : Trace) : Prop :=
  ∀ moduleId admission, trace.last moduleId = some admission
    → Resolves host trace.state.installed moduleId admission.ceremony.module

variable {host} {trace : Trace}

/--
The modules that a request is not about resolve to what they did before.
-/
theorem resolves_of_unchanged (hinv : trace.Inv host) {request : Request} {moduleId : PyStr}
    {module : ModuleDocument}
    (hchange : (plan host trace.state request).change?.map Prod.fst ≠ some moduleId)
    (h : Resolves host trace.state.installed moduleId module)
    : Resolves host (trace.exec host request).state.installed moduleId module := by
  refine (resolves_congr (fun row hid => ?_)).mp h
  rw [Trace.rows_exec]
  exact (mem_apply_iff (hinv.planned request) hchange hid).symm

theorem lastAdmissionRuns_exec_iff (hinv : trace.Inv host) (h : LastAdmissionRuns host trace)
    (request : Request)
    : LastAdmissionRuns host (trace.exec host request)
        ↔ AdmitsNewest trace.state.installed (plan host trace.state request) := by
  have hplanned := hinv.planned request
  have hrows := Trace.rows_exec host trace request
  unfold LastAdmissionRuns
  rw [Trace.last_exec]
  cases hchange : (plan host trace.state request).change? with
  | none =>
    simp only [admitsNewest_of_change? trace.state.installed hchange (by simp), iff_true]
    intro moduleId admission hlast
    exact resolves_of_unchanged hinv (by simp [hchange]) (h moduleId admission hlast)
  | some change =>
    obtain ⟨changed, admission?⟩ := change
    -- The other modules keep what they resolve to.
    have hothers (moduleId : PyStr) (hne : moduleId ≠ changed) (admission : Admission)
        (hlast : trace.last moduleId = some admission)
        : Resolves host (trace.exec host request).state.installed moduleId admission.ceremony.module :=
      resolves_of_unchanged hinv (by simpa [hchange] using Ne.symm hne) (h moduleId admission hlast)
    have hall : (∀ moduleId admission, Function.update trace.last changed admission? moduleId = some admission
          → Resolves host (trace.exec host request).state.installed moduleId admission.ceremony.module)
        ↔ ∀ admission, admission? = some admission
          → Resolves host (trace.exec host request).state.installed changed admission.ceremony.module := by
      constructor
      . intro hall admission hsome
        exact hall changed admission (by rw [Function.update_self, hsome])
      . intro hchanged moduleId admission hlast
        by_cases heq : moduleId = changed
        . subst heq
          rw [Function.update_self] at hlast
          exact hchanged admission hlast
        . rw [Function.update_of_ne heq] at hlast
          exact hothers moduleId heq admission hlast
    rw [hall]
    cases admission? with
    | none => simp [admitsNewest_of_change? trace.state.installed hchange (by simp)]
    | some admission =>
      rw [← resolves_admitted_iff hinv.keyed hplanned hrows hchange]
      simp

theorem lastAdmission_iff (host : Host) (grants : Capabilities.GrantTable) (audit : List AuditLog)
    (requests : List Request)
    : (∀ earlier, earlier <+: requests
            → LastAdmissionRuns host (earlier.foldl (Trace.exec host) (.initial grants audit)))
        ↔ ∀ earlier request, earlier ++ [request] <+: requests
            → let trace := earlier.foldl (Trace.exec host) (.initial grants audit)
              AdmitsNewest trace.state.installed (plan host trace.state request) := by
  refine @Runs.holds_iff_good Trace Request (Trace.exec host) (Trace.Inv host) (LastAdmissionRuns host)
    (fun trace request => AdmitsNewest trace.state.installed (plan host trace.state request)) ?_ ?_ _ ?_ ?_
    requests
  . exact fun trace request h => h.exec request
  . exact fun trace request hinv h => lastAdmissionRuns_exec_iff hinv h request
  . exact Trace.inv_initial grants audit
  . intro moduleId admission h
    simp [Trace.initial] at h

/--
The requests that admit two versions and then the first one again.
-/
def readmitFirst : List Request :=
  install (plainDocument (py "1.0.0") (py "Cite.")) 1 ++ install (plainDocument (py "2.0.0") (py "Cite.")) 2
    ++ install (plainDocument (py "1.0.0") (py "Cite.")) 3

/--
The version that has been admitted again is not the one that runs, because its row is the older one.
-/
theorem last_admission_not_run
    : ¬ LastAdmissionRuns .plain (readmitFirst.foldl (Trace.exec .plain) (.initial .empty [])) := by
  intro h
  have hlast : ((readmitFirst.foldl (Trace.exec .plain) (.initial .empty [])).last (py "example.module")).map
      (fun admission => admission.ceremony.module.manifest.version) = some (py "1.0.0") := by
    decide +kernel
  have hruns : ((readmitFirst.foldl (Trace.exec .plain) (.initial .empty [])).state.installed.first?
      (py "example.module") 0).map (fun row => row.manifestSnapshot.manifest.version)
      = some (py "2.0.0") := by
    decide +kernel
  have ⟨admission, hadmission, hversion⟩ := Option.map_eq_some_iff.mp hlast
  have ⟨row, hrow, _, hmodule, _⟩ := h (py "example.module") admission hadmission 0
  rw [hrow, Option.map_some, hmodule, hversion] at hruns
  revert hruns
  decide

end Run

end Modules
