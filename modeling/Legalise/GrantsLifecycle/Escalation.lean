import Legalise.GrantsLifecycle.Expansion

/-!
This module contains what the diff of permissions lets through: an update goes without a ceremony as
long as the module as a whole does not ask for more, whatever its capabilities ask for.
-/

namespace GrantsLifecycle

open TrustCeremony

/--
How far a scope reaches.
-/
def scopeRank : CapabilityScope → Nat
  | .matter => 0
  | .workspace => 1
  | .global => 2

/--
A capability asks for no more than the one on the card.
-/
structure Within (new : Capability) (old : CardCapability) : Prop where
  id : old.id = new.id
  reads : new.reads ⊆ old.reads
  writes : new.writes ⊆ old.writes
  scope : scopeRank new.scope ≤ scopeRank old.scope
  tier : tierRank new.adviceTierMax ≤ tierRank old.adviceTierMax
  modelAccess : modelAccessOrder new.modelAccess ≤ modelAccessOrder old.modelAccess

/--
A manifest asks for no more than the card, capability by capability, and moves no more data.
-/
structure Contained (new : Manifest) (old : PermissionCard) : Prop where
  capabilities : ∀ cap ∈ new.capabilities, ∃ card ∈ old.capabilities, Within cap card
  body : (aggregateDataMovement new).sendsDocumentBody = true
    → old.dataMovementSummary.sendsDocumentBody = true
  binary : (aggregateDataMovement new).sendsDocumentBinary = true
    → old.dataMovementSummary.sendsDocumentBinary = true
  metadata : (aggregateDataMovement new).sendsMatterMetadata = true
    → old.dataMovementSummary.sendsMatterMetadata = true
  network : ∀ cap ∈ new.capabilities, cap.externalNetwork = true
    → ∃ card ∈ old.capabilities, card.externalNetwork = true
  destinations : (aggregateDataMovement new).externalDestinations
    ⊆ old.dataMovementSummary.externalDestinations

/--
The module as a whole asks for no more: whatever a capability asks for, some capability had.
-/
structure FitsEnvelope (old new : Manifest) : Prop where
  reads : ∀ cap ∈ new.capabilities, ∀ x ∈ cap.reads, ∃ cap' ∈ old.capabilities, x ∈ cap'.reads
  writes : ∀ cap ∈ new.capabilities, ∀ x ∈ cap.writes, ∃ cap' ∈ old.capabilities, x ∈ cap'.writes
  tier : ∀ cap ∈ new.capabilities, ∃ cap' ∈ old.capabilities,
    tierRank cap.adviceTierMax ≤ tierRank cap'.adviceTierMax
  modelAccess : ∀ cap ∈ new.capabilities, ∃ cap' ∈ old.capabilities,
    modelAccessOrder cap.modelAccess ≤ modelAccessOrder cap'.modelAccess
  network : ∀ cap ∈ new.capabilities, cap.externalNetwork = true
    → ∃ cap' ∈ old.capabilities, cap'.externalNetwork = true
  destinations : TrustCeremony.allDestinations new ⊆ TrustCeremony.allDestinations old
  gates : ∀ cap ∈ new.capabilities, ∀ x ∈ cap.gates, ∃ cap' ∈ old.capabilities, x ∈ cap'.gates

section Envelope

variable (old new : Manifest) (isVerifiedPublisher : PyStr → Bool)

/--
The highest tier of the card is the one of a capability.
-/
theorem highestTier_mem (caps : List Capability) (highest : AdviceTier)
    : let result := caps.foldl (fun highest cap =>
        if tierOrder.idxOf highest < tierOrder.idxOf cap.adviceTierMax then cap.adviceTierMax else highest)
        highest
      result = highest ∨ ∃ cap ∈ caps, result = cap.adviceTierMax := by
  induction caps generalizing highest with
  | nil => exact .inl rfl
  | cons cap caps ih =>
    rw [List.foldl_cons]
    rcases ih (if tierOrder.idxOf highest < tierOrder.idxOf cap.adviceTierMax then cap.adviceTierMax
      else highest) with heq | ⟨other, hother, heq⟩
    . dsimp only
      rw [heq]
      split
      . exact .inr ⟨cap, by simp, rfl⟩
      . exact .inl rfl
    . exact .inr ⟨other, List.mem_cons_of_mem _ hother, heq⟩

/--
The tier of the card is no higher than the one of some capability.
-/
theorem exists_tierRank_highestTier_le
    : ∃ cap ∈ old.capabilities,
        tierRank (TrustCeremony.highestTier old) ≤ tierRank cap.adviceTierMax := by
  have ⟨cap, caps, hcaps⟩ := List.exists_cons_of_ne_nil old.capabilities_ne_nil
  rcases highestTier_mem old.capabilities .factualExtraction with heq | ⟨cap', hcap', heq⟩
  . refine ⟨cap, by simp [hcaps], ?_⟩
    unfold TrustCeremony.highestTier
    rw [heq]
    exact tierRank_factualExtraction_le _
  . refine ⟨cap', hcap', ?_⟩
    unfold TrustCeremony.highestTier
    rw [heq]

theorem tierRank_highestTier_le_iff
    : tierRank (highestTier new.asSnapshot)
          ≤ tierRank (highestTier (buildPermissionCard isVerifiedPublisher old).snapshot)
        ↔ ∀ cap ∈ new.capabilities, ∃ cap' ∈ old.capabilities,
          tierRank cap.adviceTierMax ≤ tierRank cap'.adviceTierMax := by
  unfold highestTier
  dsimp only
  rw [rank_argmax_le_iff tierRank_factualExtraction_le
    (by simp [PermissionCard.snapshot, buildPermissionCard])]
  simp only [Manifest.asSnapshot, PermissionCard.snapshot, buildPermissionCard, Capability.onCard,
    Option.toList_none, Option.toList_some, List.nil_append, List.singleton_append, List.map_map,
    List.mem_cons, List.mem_map, Function.comp_apply, forall_exists_index, and_imp,
    forall_apply_eq_imp_iff₂]
  refine forall₂_congr fun cap _ => ?_
  constructor
  . rintro ⟨tier, rfl | ⟨cap', hcap', rfl⟩, hle⟩
    . obtain ⟨cap', hcap', hcard⟩ := exists_tierRank_highestTier_le old
      exact ⟨cap', hcap', hle.trans hcard⟩
    . exact ⟨cap', hcap', hle⟩
  . rintro ⟨cap', hcap', hle⟩
    exact ⟨_, .inr ⟨cap', hcap', rfl⟩, hle⟩

theorem modelAccessOrder_maxModelAccess_le_iff
    : modelAccessOrder (maxModelAccess new.asSnapshot)
          ≤ modelAccessOrder (maxModelAccess (buildPermissionCard isVerifiedPublisher old).snapshot)
        ↔ ∀ cap ∈ new.capabilities, ∃ cap' ∈ old.capabilities,
          modelAccessOrder cap.modelAccess ≤ modelAccessOrder cap'.modelAccess := by
  unfold maxModelAccess
  rw [rank_argmax_le_iff modelAccessOrder_none_le
    (by simp [PermissionCard.snapshot, buildPermissionCard, old.capabilities_ne_nil])]
  simp only [Manifest.asSnapshot, PermissionCard.snapshot, buildPermissionCard, Capability.onCard,
    List.map_map, List.mem_map, Function.comp_apply, forall_exists_index, and_imp,
    forall_apply_eq_imp_iff₂, exists_exists_and_eq_and]

theorem flatMap_subset_iff {α β : Type} {f : α → List β} {xs ys : List α}
    : xs.flatMap f ⊆ ys.flatMap f ↔ ∀ x ∈ xs, ∀ b ∈ f x, ∃ y ∈ ys, b ∈ f y := by
  constructor
  . intro h x hx b hb
    exact List.mem_flatMap.mp (h (List.mem_flatMap.mpr ⟨x, hx, hb⟩))
  . intro h b hb
    have ⟨x, hx, hb⟩ := List.mem_flatMap.mp hb
    exact List.mem_flatMap.mpr (h x hx b hb)

theorem flattenReads_subset_iff
    : flattenReads new.asSnapshot ⊆ flattenReads (buildPermissionCard isVerifiedPublisher old).snapshot
        ↔ ∀ cap ∈ new.capabilities, ∀ x ∈ cap.reads, ∃ cap' ∈ old.capabilities, x ∈ cap'.reads := by
  rw [← flatMap_subset_iff]
  simp only [flattenReads, Manifest.asSnapshot, PermissionCard.snapshot, buildPermissionCard,
    List.flatMap_map]
  rfl

theorem flattenWrites_subset_iff
    : flattenWrites new.asSnapshot ⊆ flattenWrites (buildPermissionCard isVerifiedPublisher old).snapshot
        ↔ ∀ cap ∈ new.capabilities, ∀ x ∈ cap.writes, ∃ cap' ∈ old.capabilities, x ∈ cap'.writes := by
  rw [← flatMap_subset_iff]
  simp only [flattenWrites, Manifest.asSnapshot, PermissionCard.snapshot, buildPermissionCard,
    List.flatMap_map]
  rfl

theorem externalNetwork_eq_false_iff
    : (anyExternalNetwork new.asSnapshot
          && !anyExternalNetwork (buildPermissionCard isVerifiedPublisher old).snapshot) = false
        ↔ ∀ cap ∈ new.capabilities, cap.externalNetwork = true
            → ∃ cap' ∈ old.capabilities, cap'.externalNetwork = true := by
  have hnew : anyExternalNetwork new.asSnapshot = new.capabilities.any Capability.externalNetwork := by
    simp only [anyExternalNetwork, Manifest.asSnapshot, List.any_map]
    rfl
  have hold : anyExternalNetwork (buildPermissionCard isVerifiedPublisher old).snapshot
      = old.capabilities.any Capability.externalNetwork := by
    simp only [anyExternalNetwork, PermissionCard.snapshot, buildPermissionCard, List.any_map]
    rfl
  rw [hnew, hold, ← List.any_eq_true]
  cases old.capabilities.any Capability.externalNetwork with
  | true => simp
  | false => simp

theorem allDestinations_subset_iff
    : allDestinations new.asSnapshot
          ⊆ allDestinations (buildPermissionCard isVerifiedPublisher old).snapshot
        ↔ TrustCeremony.allDestinations new ⊆ TrustCeremony.allDestinations old := by
  have hnew : allDestinations new.asSnapshot = TrustCeremony.allDestinations new := by
    simp only [allDestinations, Manifest.asSnapshot, List.flatMap_map]
    rfl
  have hold (x : PyStr) : x ∈ allDestinations (buildPermissionCard isVerifiedPublisher old).snapshot
      ↔ x ∈ TrustCeremony.allDestinations old := by
    simp [allDestinations, PermissionCard.snapshot, buildPermissionCard, aggregateDataMovement]
  rw [hnew]
  exact forall₂_congr fun x _ => hold x

theorem allGates_subset_iff
    : allGates new.asSnapshot ⊆ allGates (buildPermissionCard isVerifiedPublisher old).snapshot
        ↔ ∀ cap ∈ new.capabilities, ∀ x ∈ cap.gates, ∃ cap' ∈ old.capabilities, x ∈ cap'.gates := by
  have hnew : allGates new.asSnapshot = new.capabilities.flatMap Capability.gates := by
    simp only [allGates, Manifest.asSnapshot, List.flatMap_map]
    rfl
  have hold (x : PyStr) : x ∈ allGates (buildPermissionCard isVerifiedPublisher old).snapshot
      ↔ x ∈ old.capabilities.flatMap Capability.gates := by
    simp [allGates, PermissionCard.snapshot, buildPermissionCard, aggregateGates]
  rw [hnew, ← flatMap_subset_iff]
  exact forall₂_congr fun x _ => hold x

/--
No ceremony is asked for if and only if the module as a whole asks for no more.
-/
theorem requiresReprompt_eq_false_iff
    : requiresReprompt
          (detectExpansion (buildPermissionCard isVerifiedPublisher old).snapshot new.asSnapshot) = false
        ↔ FitsEnvelope old new := by
  have hraised {α : Type} (p : Prop) [Decidable p] (a : α)
      : (if p then some a else none).isSome = false ↔ ¬ p := by
    split <;> simp_all
  simp only [requiresReprompt, ExpansionReport.anyExpansion, detectExpansion, Bool.or_eq_false_iff,
    Bool.not_eq_false', List.isEmpty_iff, added_eq_nil_iff, hraised, not_lt, tierRank_highestTier_le_iff,
    modelAccessOrder_maxModelAccess_le_iff, flattenReads_subset_iff, flattenWrites_subset_iff,
    externalNetwork_eq_false_iff, allDestinations_subset_iff, allGates_subset_iff]
  constructor
  . rintro ⟨⟨⟨⟨⟨⟨hreads, hwrites⟩, htier⟩, hnetwork⟩, hdestinations⟩, hgates⟩, hmodel⟩
    exact ⟨hreads, hwrites, htier, hmodel, hnetwork, hdestinations, hgates⟩
  . intro h
    exact ⟨⟨⟨⟨⟨⟨h.reads, h.writes⟩, h.tier⟩, h.network⟩, h.destinations⟩, h.gates⟩, h.modelAccess⟩

end Envelope

section Escalation

/--
A capability asks for something that the other one did not: a read or a write, a wider scope, a higher
tier or more of the model.
-/
def AsksForMore (cap cap' : Capability) : Prop :=
  (∃ x ∈ cap.reads, x ∉ cap'.reads) ∨ (∃ x ∈ cap.writes, x ∉ cap'.writes)
    ∨ scopeRank cap'.scope < scopeRank cap.scope
    ∨ tierRank cap'.adviceTierMax < tierRank cap.adviceTierMax
    ∨ modelAccessOrder cap'.modelAccess < modelAccessOrder cap.modelAccess

/--
A capability is new, or asks for more than it did.
-/
def Outgrows (old : Manifest) (cap : Capability) : Prop :=
  ∀ cap' ∈ old.capabilities, cap'.id = cap.id → AsksForMore cap cap'

/--
A flag of `data_movement` is set that no capability of the old manifest had set.
-/
def TurnsOn (old new : Manifest) (flag : DataMovement → Option Bool) : Prop :=
  anyFlag new flag = true ∧ anyFlag old flag = false

/--
The update asks for no more as a whole, but one of its capabilities does, or it moves more of the data of
a matter.
-/
def HiddenEscalation (old new : Manifest) : Prop :=
  FitsEnvelope old new
    ∧ ((∃ cap ∈ new.capabilities, Outgrows old cap) ∨ TurnsOn old new DataMovement.sendsDocumentBody
      ∨ TurnsOn old new DataMovement.sendsDocumentBinary
      ∨ TurnsOn old new DataMovement.sendsMatterMetadata)

variable {old new : Manifest} (isVerifiedPublisher : PyStr → Bool)

theorem not_turnsOn_iff (flag : DataMovement → Option Bool)
    : ¬ TurnsOn old new flag ↔ (anyFlag new flag = true → anyFlag old flag = true) := by
  unfold TurnsOn
  cases anyFlag old flag <;> simp

theorem within_onCard_iff (cap cap' : Capability)
    : Within cap cap'.onCard ↔ cap'.id = cap.id ∧ ¬ AsksForMore cap cap' := by
  simp only [AsksForMore, not_or, not_exists, not_and, not_not, not_lt]
  constructor
  . intro h
    exact ⟨h.id, fun x hx => h.reads hx, fun x hx => h.writes hx, h.scope, h.tier, h.modelAccess⟩
  . rintro ⟨hid, hreads, hwrites, hscope, htier, hmodel⟩
    exact ⟨hid, fun x hx => hreads x hx, fun x hx => hwrites x hx, hscope, htier, hmodel⟩

/--
What fits as a whole is contained in the card unless it escalates in one of the ways that are not
compared.
-/
theorem contained_iff_of_fitsEnvelope (h : FitsEnvelope old new)
    : Contained new (buildPermissionCard isVerifiedPublisher old) ↔ ¬ HiddenEscalation old new := by
  have hcapabilities : (∀ cap ∈ new.capabilities,
        ∃ card ∈ (buildPermissionCard isVerifiedPublisher old).capabilities, Within cap card)
      ↔ ¬ ∃ cap ∈ new.capabilities, Outgrows old cap := by
    simp [buildPermissionCard, Outgrows, within_onCard_iff]
  constructor
  . rintro hcontained ⟨_, hgrows⟩
    rcases hgrows with hgrows | hgrows | hgrows | hgrows
    . exact hcapabilities.mp hcontained.capabilities hgrows
    . exact (not_turnsOn_iff _).mpr hcontained.body hgrows
    . exact (not_turnsOn_iff _).mpr hcontained.binary hgrows
    . exact (not_turnsOn_iff _).mpr hcontained.metadata hgrows
  . intro hhidden
    have hno : ¬ ((∃ cap ∈ new.capabilities, Outgrows old cap)
        ∨ TurnsOn old new DataMovement.sendsDocumentBody
        ∨ TurnsOn old new DataMovement.sendsDocumentBinary
        ∨ TurnsOn old new DataMovement.sendsMatterMetadata) := fun hgrows => hhidden ⟨h, hgrows⟩
    simp only [not_or] at hno
    obtain ⟨hcap, hbody, hbinary, hmetadata⟩ := hno
    constructor
    . exact hcapabilities.mpr hcap
    . exact (not_turnsOn_iff _).mp hbody
    . exact (not_turnsOn_iff _).mp hbinary
    . exact (not_turnsOn_iff _).mp hmetadata
    . intro cap hcap hnetwork
      obtain ⟨cap', hcap', heq⟩ := h.network cap hcap hnetwork
      exact ⟨cap'.onCard, List.mem_map_of_mem hcap', heq⟩
    . intro x hx
      exact mem_sortedSet.mpr (h.destinations (mem_sortedSet.mp hx))

theorem noSilentEscalation_iff (old new : Manifest)
    : (requiresReprompt
            (detectExpansion (buildPermissionCard isVerifiedPublisher old).snapshot new.asSnapshot) = false
          → Contained new (buildPermissionCard isVerifiedPublisher old))
        ↔ ¬ HiddenEscalation old new := by
  rw [requiresReprompt_eq_false_iff]
  constructor
  . intro h hhidden
    exact (contained_iff_of_fitsEnvelope isVerifiedPublisher hhidden.left).mp (h hhidden.left) hhidden
  . intro h hfits
    exact (contained_iff_of_fitsEnvelope isVerifiedPublisher hfits).mpr h

/--
A capability that asks for nothing.
-/
def plainCapability : Capability where
  id := py "draft"
  kind := .skill
  scope := .matter
  reads := []
  writes := []
  modelAccess := .none
  externalNetwork := false
  dataMovement := {}
  gates := []
  uiSlot := py "matter"
  adviceTierMax := .factualExtraction
  auditEvents := []

/--
The update of a module whose second capability gets the write that only the first one had, sends
documents and reaches the workspace.
-/
theorem silent_escalation
    : let manifest (second : Capability) : Manifest := {
        id := py "example.module"
        name := py "Example"
        version := py "1.0.0"
        publisher := py "example"
        visibility := .community
        capabilities := [{ plainCapability with writes := [py "matter.documents"] }, second]
        capabilities_ne_nil := List.cons_ne_nil _ _
      }
      let old := manifest { plainCapability with id := py "send" }
      let new := manifest { plainCapability with
        id := py "send"
        scope := .workspace
        writes := [py "matter.documents"]
        dataMovement := { sendsDocumentBody := some true }
      }
      let card := buildPermissionCard (fun _ => false) old
      ¬ (requiresReprompt (detectExpansion card.snapshot new.asSnapshot) = false → Contained new card) := by
  intro manifest old new card h
  have hcontained := h (by decide +kernel)
  have hbody := hcontained.body (by decide +kernel)
  revert hbody
  decide +kernel

end Escalation

end GrantsLifecycle
