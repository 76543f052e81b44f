import Legalise.Modules.Ceremonies

/-!
This module contains which rows the requests and the invocations pick: the newest ones of a module.
-/

namespace Modules

open Signing TrustCeremony

variable {t t' : InstalledTable} {moduleId : PyStr} {row : InstalledModule}

theorem InstalledTable.ext_rows (h : t.rows = t'.rows) : t = t' := by
  cases t
  cases t'
  simp only at h
  subst h
  rfl

theorem eq_of_id_eq {row' : InstalledModule} (hrow : row ∈ t.rows) (hrow' : row' ∈ t.rows)
    (h : row.id = row'.id) : row = row' :=
  List.inj_on_of_nodup_map t.ids hrow hrow' h

theorem eq_of_key_eq {row' : InstalledModule} (hrow : row ∈ t.rows) (hrow' : row' ∈ t.rows)
    (h : row.key = row'.key) : row = row' :=
  List.inj_on_of_nodup_map t.keys hrow hrow' h

theorem mem_newest_iff
    : row ∈ t.newest moduleId
        ↔ row ∈ t.rows ∧ row.moduleId = moduleId
          ∧ ∀ other ∈ t.rows, other.moduleId = moduleId → other.installedAt ≤ row.installedAt := by
  unfold InstalledTable.newest
  simp only [List.mem_filter, Bool.and_eq_true, decide_eq_true_eq, List.all_eq_true, Bool.or_eq_true]
  constructor
  . rintro ⟨hmem, hid, hall⟩
    exact ⟨hmem, hid, fun other hother heq => (hall other hother).resolve_left (fun hne => hne heq)⟩
  . rintro ⟨hmem, hid, hall⟩
    refine ⟨hmem, hid, fun other hother => ?_⟩
    by_cases heq : other.moduleId = moduleId
    . exact .inr (hall other hother heq)
    . exact .inl heq

theorem exists_first?_iff : (∃ pick, t.first? moduleId pick = some row) ↔ row ∈ t.newest moduleId := by
  constructor
  . rintro ⟨pick, h⟩
    exact (moduleId_of_first? h).left
  . intro h
    have ⟨i, hi, heq⟩ := List.mem_iff_getElem.mp h
    refine ⟨i, ?_⟩
    unfold InstalledTable.first?
    rw [Nat.mod_eq_of_lt hi, List.getElem?_eq_getElem hi, heq]

theorem exists_of_newest_ne_nil (h : t.newest moduleId ≠ []) (pick : Nat)
    : ∃ row ∈ t.newest moduleId, t.first? moduleId pick = some row := by
  have hlt : pick % (t.newest moduleId).length < (t.newest moduleId).length :=
    Nat.mod_lt _ (List.length_pos_iff.mpr h)
  exact ⟨_, List.getElem_mem hlt, List.getElem?_eq_getElem hlt⟩

/--
An invocation can dispatch one of the capabilities.
-/
def Invokable (manifest : Manifest) : Prop :=
  ∃ capabilityId declaration, manifest.capabilities.find? (fun cap => cap.id = capabilityId) = some declaration
    ∧ declaration.scope = .matter ∧ declaration.kind ∈ invokableKinds

theorem exists_dispatched_iff
    : (∃ capabilityId pick, dispatched t moduleId capabilityId pick = some row)
        ↔ row ∈ t.newest moduleId ∧ row.enabled ∧ Invokable row.manifestSnapshot.manifest := by
  simp only [← exists_first?_iff, dispatched, Option.bind_eq_bind, Option.bind_eq_some_iff]
  constructor
  . rintro ⟨capabilityId, pick, installed, hfirst, h⟩
    split at h
    . next henabled =>
      obtain ⟨declaration, hfind, h⟩ := Option.bind_eq_some_iff.mp h
      split at h
      . next hdeclaration =>
        have heq : installed = row := Option.some.inj h
        rw [← heq]
        exact ⟨⟨pick, hfirst⟩, henabled, capabilityId, declaration, hfind, hdeclaration⟩
      . simp at h
    . simp at h
  . rintro ⟨⟨pick, hfirst⟩, henabled, capabilityId, declaration, hfind, hdeclaration⟩
    refine ⟨capabilityId, pick, row, hfirst, ?_⟩
    rw [if_pos henabled, hfind]
    exact if_pos hdeclaration

/--
The newest rows of a module are a matter of its rows alone.
-/
theorem mem_newest_congr
    (h : ∀ row : InstalledModule, row.moduleId = moduleId → (row ∈ t.rows ↔ row ∈ t'.rows))
    : row ∈ t.newest moduleId ↔ row ∈ t'.newest moduleId := by
  rw [mem_newest_iff, mem_newest_iff]
  constructor
  . rintro ⟨hmem, hid, hnewest⟩
    exact ⟨(h row hid).mp hmem, hid, fun other hother heq => hnewest other ((h other heq).mpr hother) heq⟩
  . rintro ⟨hmem, hid, hnewest⟩
    exact ⟨(h row hid).mpr hmem, hid, fun other hother heq => hnewest other ((h other heq).mp hother) heq⟩

/--
Setting other columns does not make another row the newest one.
-/
theorem mem_newest_map_iff {f : InstalledModule → InstalledModule} (hrows : t'.rows = t.rows.map f)
    (hid : ∀ row, (f row).moduleId = row.moduleId) (hinstalled : ∀ row, (f row).installedAt = row.installedAt)
    : row ∈ t'.newest moduleId ↔ ∃ before ∈ t.newest moduleId, f before = row := by
  simp only [mem_newest_iff, hrows, List.mem_map]
  constructor
  . rintro ⟨⟨before, hbefore, rfl⟩, heq, hnewest⟩
    refine ⟨before, ⟨hbefore, (hid before).symm.trans heq, fun other hother hotherId => ?_⟩, rfl⟩
    have hle := hnewest (f other) ⟨other, hother, rfl⟩ ((hid other).trans hotherId)
    rwa [hinstalled, hinstalled] at hle
  . rintro ⟨before, ⟨hbefore, heq, hnewest⟩, rfl⟩
    refine ⟨⟨before, hbefore, rfl⟩, (hid before).trans heq, ?_⟩
    rintro _ ⟨other, hother, rfl⟩ hotherId
    rw [hinstalled, hinstalled]
    exact hnewest other hother ((hid other).symm.trans hotherId)

theorem exists_mem_newest (hrow : row ∈ t.rows)
    : ∃ newest ∈ t.newest row.moduleId, row.installedAt ≤ newest.installedAt := by
  let rows := t.rows.filter fun other => other.moduleId = row.moduleId
  have hmem : row ∈ rows := List.mem_filter.mpr ⟨hrow, by simp⟩
  have ⟨newest, hargmax⟩ : ∃ newest, newest ∈ rows.argmax InstalledModule.installedAt :=
    Option.ne_none_iff_exists'.mp (fun hnone => List.ne_nil_of_mem hmem (List.argmax_eq_none.mp hnone))
  have ⟨hnewest, hid⟩ := List.mem_filter.mp (List.argmax_mem hargmax)
  refine ⟨newest, mem_newest_iff.mpr ⟨hnewest, by simpa using hid, ?_⟩, List.le_of_mem_argmax hmem hargmax⟩
  intro other hother heq
  exact List.le_of_mem_argmax (List.mem_filter.mpr ⟨hother, by simpa using heq⟩) hargmax

end Modules
