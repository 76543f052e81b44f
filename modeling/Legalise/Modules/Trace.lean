import Legalise.Modules.Dispatch

/-!
This module contains runs of requests together with the admissions that they report, and the invariant of
such runs.
-/

namespace Modules

open Signing TrustCeremony

/--
The state, all admissions so far, and for each module the last one if the module has been neither updated
in place nor revoked since.
-/
structure Trace where
  state : State
  admissions : List Admission
  last : PyStr → Option Admission

namespace Trace

def initial (grants : Capabilities.GrantTable) (audit : List AuditLog) : Trace where
  state := { ceremonies := [], installed := .empty, grants := grants, audit := audit }
  admissions := []
  last _ := none

def exec (host : Host) (trace : Trace) (request : Request) : Trace :=
  let (state, outcome) := Modules.exec host trace.state request
  match outcome.change? with
  | none => { trace with state := state }
  | some (moduleId, admission) =>
    {
      state := state
      admissions := trace.admissions ++ admission.toList
      last := Function.update trace.last moduleId admission
    }

/--
A row is the one of the version that its manifest says.
-/
def Keyed (rows : List InstalledModule) : Prop :=
  ∀ row ∈ rows, row.key = (row.manifestSnapshot.manifest.id, row.manifestSnapshot.manifest.version)

structure Inv (host : Host) (trace : Trace) : Prop where
  ceremonies : AllSound host trace.state
  keyed : Keyed trace.state.installed.rows
  sound : ∀ admission ∈ trace.admissions, Sound host admission.ceremony
  completed : ∀ admission ∈ trace.admissions, admission.ceremony.state = .enabled

variable {host : Host} {trace : Trace}

theorem inv_initial (grants : Capabilities.GrantTable) (audit : List AuditLog)
    : Inv host (initial grants audit) where
  ceremonies := fun _ h => absurd h List.not_mem_nil
  keyed := fun _ h => absurd h List.not_mem_nil
  sound := fun _ h => absurd h List.not_mem_nil
  completed := fun _ h => absurd h List.not_mem_nil

theorem Inv.planned (h : Inv host trace) (request : Request)
    : Planned host trace.state (plan host trace.state request) :=
  planned_plan h.ceremonies request

theorem state_exec (host : Host) (trace : Trace) (request : Request)
    : (trace.exec host request).state = (Modules.exec host trace.state request).1 := by
  unfold exec
  dsimp only
  split <;> rfl

theorem rows_exec (host : Host) (trace : Trace) (request : Request)
    : (trace.exec host request).state.installed.rows
      = (plan host trace.state request).apply host trace.state.installed.rows := by
  rw [state_exec]
  exact (follows_plan host trace.state request).left

theorem admissions_exec (host : Host) (trace : Trace) (request : Request)
    : (trace.exec host request).admissions
      = trace.admissions ++ ((plan host trace.state request).change?.bind Prod.snd).toList := by
  unfold exec
  dsimp only
  rw [(follows_plan host trace.state request).right]
  split
  . next h => simp [h]
  . next h => simp [h]

theorem last_exec (host : Host) (trace : Trace) (request : Request)
    : (trace.exec host request).last
      = match (plan host trace.state request).change? with
        | none => trace.last
        | some (moduleId, admission) => Function.update trace.last moduleId admission := by
  unfold exec
  dsimp only
  rw [(follows_plan host trace.state request).right]
  split <;> rfl

theorem key_of_sameVersion? {t : InstalledTable} {ceremony : Ceremony} {existing : InstalledModule}
    (h : sameVersion? t ceremony = some existing)
    : existing ∈ t.rows
      ∧ existing.key = (ceremony.module.manifest.id, ceremony.module.manifest.version) :=
  ⟨List.mem_of_find?_eq_some h, by simpa using List.find?_some h⟩

/--
A write of a request keeps the rows keyed.
-/
theorem keyed_apply {s : State} {write : Write} (h : Keyed s.installed.rows)
    (hplanned : Planned host s write) : Keyed (write.apply host s.installed.rows) := by
  cases hplanned with
  | nothing => exact h
  | disable moduleId =>
    intro row hrow
    have ⟨before, hbefore, heq⟩ := List.mem_map.mp hrow
    split at heq
    . rw [← heq]; exact h before hbefore
    . rw [← heq]; exact h before hbefore
  | insert user ceremony rowId now hsound henabled hnew =>
    intro row hrow
    rcases List.mem_append.mp hrow with hrow | hrow
    . exact h row hrow
    . rw [List.mem_singleton.mp hrow]
      rfl
  | refresh existing user ceremony now hsound henabled hexisting =>
    have ⟨hmem, hkey⟩ := key_of_sameVersion? hexisting
    intro row hrow
    have ⟨before, hbefore, heq⟩ := List.mem_map.mp hrow
    split at heq
    . next hid =>
      rw [← heq, eq_of_id_eq hbefore hmem hid]
      exact hkey
    . rw [← heq]; exact h before hbefore
  | replace existing module hexisting hid =>
    intro row hrow
    have ⟨before, hbefore, heq⟩ := List.mem_map.mp hrow
    split at heq
    . next hrowId =>
      have hmem := (mem_newest_iff.mp hexisting).left
      rw [← heq, eq_of_id_eq hbefore hmem hrowId]
      exact Prod.ext hid.symm rfl
    . rw [← heq]; exact h before hbefore

theorem admission_of_planned {s : State} {write : Write} (hplanned : Planned host s write) {moduleId : PyStr} {admission : Admission} (h : write.change? = some (moduleId, some admission))
    : Sound host admission.ceremony ∧ admission.ceremony.state = .enabled := by
  cases hplanned with
  | nothing => simp [Write.change?] at h
  | disable moduleId => simp [Write.change?] at h
  | insert user ceremony rowId now hsound henabled hnew =>
    simp only [Write.change?, Option.some.injEq, Prod.mk.injEq] at h
    rw [← h.right]
    exact ⟨hsound.persisted, henabled⟩
  | refresh existing user ceremony now hsound henabled hexisting =>
    simp only [Write.change?, Option.some.injEq, Prod.mk.injEq] at h
    rw [← h.right]
    exact ⟨hsound.persisted, henabled⟩
  | replace existing module hexisting hid => simp [Write.change?] at h

theorem Inv.exec (h : Inv host trace) (request : Request) : Inv host (trace.exec host request) := by
  have hadmission (admission : Admission) (hmem : admission ∈ (trace.exec host request).admissions)
      : admission ∈ trace.admissions
        ∨ Sound host admission.ceremony ∧ admission.ceremony.state = .enabled := by
    rw [admissions_exec, List.mem_append] at hmem
    rcases hmem with hmem | hmem
    . exact .inl hmem
    . right
      have ⟨⟨moduleId, _⟩, hchange, hsnd⟩ := Option.bind_eq_some_iff.mp (Option.mem_toList.mp hmem)
      exact admission_of_planned (h.planned request) (hchange.trans (by rw [← hsnd]))
  constructor
  . rw [AllSound, state_exec]
    exact h.ceremonies.exec request
  . rw [rows_exec]
    exact keyed_apply h.keyed (h.planned request)
  . intro admission hmem
    rcases hadmission admission hmem with hbefore | hnew
    . exact h.sound admission hbefore
    . exact hnew.left
  . intro admission hmem
    rcases hadmission admission hmem with hbefore | hnew
    . exact h.completed admission hbefore
    . exact hnew.right

end Trace

section Plain

/--
A host without publishers, for concrete runs.
-/
def Host.plain : Host where
  ed25519 := .plain
  sha256 := id
  repr := .quoted
  registry := verifiedPublishers
  accepts _ := true
  entrypointResolves _ := true
  dependenciesResolve _ _ := true

/--
A module of one skill, whose prompt is in the manifest.
-/
def plainDocument (version instructions : PyStr) : Dict :=
  [
    (py "schema_version", .str (py "2.0.0")), (py "id", .str (py "example.module")),
    (py "name", .str (py "Example")), (py "version", .str version), (py "publisher", .str (py "example")),
    (py "visibility", .str (py "community")), (py "runtime", .str (py "prompt")),
    (py "entrypoint", .dict [(py "prompt_source", .str (py "manifest")), (py "instructions", .str instructions)]),
    (py "capabilities", .list [
      .dict [
        (py "id", .str (py "draft")), (py "kind", .str (py "skill")), (py "scope", .str (py "matter")),
        (py "reads", .list []), (py "writes", .list []), (py "model_access", .str (py "none")),
        (py "external_network", .bool false), (py "data_movement", .dict []), (py "gates", .list []),
        (py "ui", .dict [(py "slot", .str (py "matter"))]), (py "streaming_mode", .str (py "sync")),
        (py "advice_tier_max", .str AdviceTier.draftAdvice.text), (py "audit_events", .list [])
      ]
    ])
  ]

def admin : User where
  id := Uuid.ofNat 1
  isSuperuser := true

/--
A whole ceremony of the full path.
-/
def install (document : Dict) (n : Nat) : List Request :=
  .startInstall admin document none (Uuid.ofNat n) none
    :: List.replicate 7 (.advanceInstall admin (Uuid.ofNat n) .trust (Uuid.ofNat n) n none)

end Plain

end Modules
