import Legalise.GrantsLifecycle.Escalation

/-!
This module contains that the diff of permissions reads the same out of a manifest and out of the
permissions that are stored for it.
-/

namespace GrantsLifecycle

open TrustCeremony

/--
The helpers of the diff read the same out of two snapshots.
-/
structure ReadsAlike (s t : Snapshot) : Prop where
  reads : ∀ x, x ∈ flattenReads s ↔ x ∈ flattenReads t
  writes : ∀ x, x ∈ flattenWrites s ↔ x ∈ flattenWrites t
  tier : highestTier s = highestTier t
  modelAccess : maxModelAccess s = maxModelAccess t
  network : anyExternalNetwork s = anyExternalNetwork t
  destinations : ∀ x, x ∈ allDestinations s ↔ x ∈ allDestinations t
  gates : ∀ x, x ∈ allGates s ↔ x ∈ allGates t

theorem ReadsAlike.refl (s : Snapshot) : ReadsAlike s s :=
  ⟨fun _ => Iff.rfl, fun _ => Iff.rfl, rfl, rfl, rfl, fun _ => Iff.rfl, fun _ => Iff.rfl⟩

section Congruence

theorem sortedSet_congr {xs ys : List PyStr} (h : ∀ x, x ∈ xs ↔ x ∈ ys) : sortedSet xs = sortedSet ys := by
  unfold sortedSet
  rw [Sweep.sortBy_eq_iff_perm]
  . exact (List.perm_ext_iff_of_nodup (List.nodup_dedup xs) (List.nodup_dedup ys)).mpr (by simpa using h)
  . rw [List.map_id]
    exact List.nodup_dedup xs

theorem added_congr {xs xs' ys ys' : List PyStr} (hx : ∀ x, x ∈ xs ↔ x ∈ xs') (hy : ∀ y, y ∈ ys ↔ y ∈ ys')
    : added xs ys = added xs' ys' := by
  unfold added
  apply sortedSet_congr
  intro x
  rw [List.mem_filter, List.mem_filter, hx, decide_eq_true_eq, decide_eq_true_eq, hy]

/--
The report only depends on what the helpers read.
-/
theorem detectExpansion_congr {s s' t t' : Snapshot} (hold : ReadsAlike s s') (hnew : ReadsAlike t t')
    : detectExpansion s t = detectExpansion s' t' := by
  unfold detectExpansion
  rw [added_congr hnew.reads hold.reads, added_congr hnew.writes hold.writes,
    added_congr hnew.destinations hold.destinations, added_congr hnew.gates hold.gates,
    added_congr hold.gates hnew.gates, hold.tier, hnew.tier, hold.modelAccess, hnew.modelAccess,
    hold.network, hnew.network]

theorem detectExpansion_self (s : Snapshot) : detectExpansion s s = {} := by
  have hadded (xs : List PyStr) : added xs xs = [] := (added_eq_nil_iff xs xs).mpr (List.Subset.refl xs)
  simp [detectExpansion, hadded]

end Congruence

section Stored

variable (isVerifiedPublisher : PyStr → Bool) (manifest : Manifest)

theorem tierRank_injective : Function.Injective tierRank := by
  intro a b
  cases a <;> cases b <;> decide +kernel

/--
The tier on the card is one of a capability or the lowest one, so it does not raise the highest tier.
-/
theorem highestTier_snapshot
    : highestTier (buildPermissionCard isVerifiedPublisher manifest).snapshot
        = highestTier manifest.asSnapshot := by
  apply tierRank_injective
  apply le_antisymm
  . unfold highestTier
    dsimp only
    rw [rank_argmax_le_iff tierRank_factualExtraction_le
      (by simp [Manifest.asSnapshot, manifest.capabilities_ne_nil])]
    intro tier htier
    simp only [PermissionCard.snapshot, buildPermissionCard, Option.toList_some, List.singleton_append,
      List.map_map, List.mem_cons, List.mem_map, Function.comp_apply] at htier
    simp only [Manifest.asSnapshot, Option.toList_none, List.nil_append, List.map_map, List.mem_map,
      Function.comp_apply, exists_exists_and_eq_and]
    rcases htier with rfl | ⟨cap, hcap, rfl⟩
    . exact exists_tierRank_highestTier_le manifest
    . exact ⟨cap, hcap, le_refl _⟩
  . rw [tierRank_highestTier_le_iff]
    exact fun cap hcap => ⟨cap, hcap, le_refl _⟩

theorem readsAlike_snapshot
    : ReadsAlike (buildPermissionCard isVerifiedPublisher manifest).snapshot manifest.asSnapshot where
  reads x := by
    simp [flattenReads, PermissionCard.snapshot, buildPermissionCard, Manifest.asSnapshot]
  writes x := by
    simp [flattenWrites, PermissionCard.snapshot, buildPermissionCard, Manifest.asSnapshot]
  tier := highestTier_snapshot isVerifiedPublisher manifest
  modelAccess := by
    simp only [maxModelAccess, PermissionCard.snapshot, buildPermissionCard, Manifest.asSnapshot, List.map_map]
    rfl
  network := by
    simp only [anyExternalNetwork, PermissionCard.snapshot, buildPermissionCard, Manifest.asSnapshot, List.any_map]
    rfl
  destinations x := by
    simp [allDestinations, PermissionCard.snapshot, buildPermissionCard, Manifest.asSnapshot,
      aggregateDataMovement, TrustCeremony.allDestinations]
  gates x := by
    simp [allGates, PermissionCard.snapshot, buildPermissionCard, Manifest.asSnapshot, aggregateGates]

end Stored

/--
The diff does not tell the stored permissions of a manifest from the manifest, on either side.
-/
theorem detectExpansion_snapshot (isVerifiedPublisher : PyStr → Bool) (old new : Manifest)
    : let stored := fun manifest => (buildPermissionCard isVerifiedPublisher manifest).snapshot
      detectExpansion (stored old) new.asSnapshot = detectExpansion old.asSnapshot new.asSnapshot
        ∧ detectExpansion old.asSnapshot (stored new) = detectExpansion old.asSnapshot new.asSnapshot
        ∧ detectExpansion (stored old) (stored new) = detectExpansion old.asSnapshot new.asSnapshot
        ∧ detectExpansion (stored old) old.asSnapshot = {} := by
  have hstored (manifest : Manifest) := readsAlike_snapshot isVerifiedPublisher manifest
  refine ⟨?_, ?_, ?_, ?_⟩
  . exact detectExpansion_congr (hstored old) (.refl _)
  . exact detectExpansion_congr (.refl _) (hstored new)
  . exact detectExpansion_congr (hstored old) (hstored new)
  . rw [detectExpansion_congr (hstored old) (.refl _), detectExpansion_self]

end GrantsLifecycle
