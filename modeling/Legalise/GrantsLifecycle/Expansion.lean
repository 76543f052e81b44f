import Legalise.TrustCeremony.PermissionCard

/-!
This module contains the diff of two permission snapshots that decides whether the update of a module
needs a new trust ceremony.
-/

namespace GrantsLifecycle

open AdviceBoundary TrustCeremony

/--
`_MODEL_ACCESS_ORDER`
-/
def modelAccessOrder : ModelAccess → Nat
  | .none => 0
  | .optional => 1
  | .delegated => 2
  | .required => 3

/--
`tier_rank`
-/
def tierRank (tier : AdviceTier) : Nat :=
  (tierRanks.lookup tier.text).getD 0

structure ExpansionReport where
  readsAdded : List PyStr := []
  writesAdded : List PyStr := []
  tierRaised : Option (AdviceTier × AdviceTier) := none
  externalNetworkAdded : Bool := false
  newDestinations : List PyStr := []
  newGatesAdded : List PyStr := []
  newGatesRemoved : List PyStr := []
  modelAccessRaised : Option (ModelAccess × ModelAccess) := none

/--
Gates that are only removed are no expansion.
-/
def ExpansionReport.anyExpansion (report : ExpansionReport) : Bool :=
  !report.readsAdded.isEmpty || !report.writesAdded.isEmpty || report.tierRaised.isSome
    || report.externalNetworkAdded || !report.newDestinations.isEmpty || !report.newGatesAdded.isEmpty
    || report.modelAccessRaised.isSome

section Helpers

variable (snapshot : Snapshot)

def flattenReads : List PyStr :=
  snapshot.capabilities.flatMap fun cap => cap.capability.reads

def flattenWrites : List PyStr :=
  snapshot.capabilities.flatMap fun cap => cap.capability.writes

/--
`_highest_tier`: the first one of the highest rank.
-/
def highestTier : AdviceTier :=
  let candidates := snapshot.adviceTierMax.toList
    ++ snapshot.capabilities.map fun cap => cap.capability.adviceTierMax
  (candidates.argmax tierRank).getD .factualExtraction

/--
`_max_model_access`
-/
def maxModelAccess : ModelAccess :=
  ((snapshot.capabilities.map fun cap => cap.capability.modelAccess).argmax modelAccessOrder).getD .none

/--
`_any_external_network`
-/
def anyExternalNetwork : Bool :=
  snapshot.capabilities.any fun cap => cap.capability.externalNetwork

/--
`_all_destinations`: those of the summary and those of the capabilities.
-/
def allDestinations : List PyStr :=
  (snapshot.dataMovement.elim [] DataMovementSummary.externalDestinations)
    ++ snapshot.capabilities.flatMap fun cap =>
      (cap.dataMovement.bind DataMovement.externalDestinations).getD []

/--
`_all_gates`
-/
def allGates : List PyStr :=
  snapshot.gates.getD [] ++ snapshot.capabilities.flatMap fun cap => cap.gates.getD []

end Helpers

/--
`sorted(xs - ys)`
-/
def added (xs ys : List PyStr) : List PyStr :=
  sortedSet (xs.filter fun x => x ∉ ys)

def detectExpansion (oldSnapshot newSnapshot : Snapshot) : ExpansionReport :=
  let oldTier := highestTier oldSnapshot
  let newTier := highestTier newSnapshot
  let oldModelAccess := maxModelAccess oldSnapshot
  let newModelAccess := maxModelAccess newSnapshot
  {
    readsAdded := added (flattenReads newSnapshot) (flattenReads oldSnapshot)
    writesAdded := added (flattenWrites newSnapshot) (flattenWrites oldSnapshot)
    tierRaised := if tierRank oldTier < tierRank newTier then some (oldTier, newTier) else none
    externalNetworkAdded := anyExternalNetwork newSnapshot && !anyExternalNetwork oldSnapshot
    newDestinations := added (allDestinations newSnapshot) (allDestinations oldSnapshot)
    newGatesAdded := added (allGates newSnapshot) (allGates oldSnapshot)
    newGatesRemoved := added (allGates oldSnapshot) (allGates newSnapshot)
    modelAccessRaised :=
      if modelAccessOrder oldModelAccess < modelAccessOrder newModelAccess then
        some (oldModelAccess, newModelAccess)
      else none
  }

def requiresReprompt (report : ExpansionReport) : Bool :=
  report.anyExpansion

section Lemmas

theorem added_eq_nil_iff (xs ys : List PyStr) : added xs ys = [] ↔ xs ⊆ ys := by
  unfold added
  rw [List.eq_nil_iff_forall_not_mem]
  simp only [mem_sortedSet, List.mem_filter, decide_eq_true_eq, not_and, not_not]
  rfl

/--
The largest rank of a list is below the one of another list if every rank is below some rank of it.
-/
theorem rank_argmax_le_iff {α : Type} {rank : α → Nat} {xs ys : List α} {default : α}
    (hdefault : ∀ y, rank default ≤ rank y) (hys : ys ≠ [])
    : rank ((xs.argmax rank).getD default) ≤ rank ((ys.argmax rank).getD default)
        ↔ ∀ x ∈ xs, ∃ y ∈ ys, rank x ≤ rank y := by
  obtain ⟨top, htop⟩ : ∃ top, ys.argmax rank = some top := by
    rw [← Option.ne_none_iff_exists', ne_eq, List.argmax_eq_none]
    exact hys
  rw [htop, Option.getD_some]
  cases hmax : xs.argmax rank with
  | none =>
    rw [List.argmax_eq_none] at hmax
    simp [hmax, hdefault]
  | some m =>
    rw [Option.getD_some]
    constructor
    . intro h x hx
      exact ⟨top, List.argmax_mem htop, (List.le_of_mem_argmax hx hmax).trans h⟩
    . intro h
      have ⟨y, hy, hle⟩ := h m (List.argmax_mem hmax)
      exact hle.trans (List.le_of_mem_argmax hy htop)

theorem modelAccessOrder_none_le (access : ModelAccess)
    : modelAccessOrder .none ≤ modelAccessOrder access :=
  Nat.zero_le _

theorem tierRank_factualExtraction_le (tier : AdviceTier) : tierRank .factualExtraction ≤ tierRank tier := by
  cases tier <;> decide +kernel

end Lemmas

end GrantsLifecycle
