import Legalise.AuditReconstruction.Lemmas
import Legalise.Audit.Canonical

/-!
This module contains the exactness of the pagination: the pages of a walk hold every matching row once
and in order, and all but the last one are full.
-/

namespace AuditReconstruction

open Keyset AuditChain

/--
There is one walk, it ends, and its pages are the matching rows in the order of the timeline, in
portions of `limit` rows.
-/
theorem pagination_exact (otherText : Json → PyStr) (parseFloat : PyStr → Option PyFloat)
    (db : TimelineTables) (filters : Filters) {sources : List Source} (hsources : sources.Nodup)
    {limit : Nat} (hlimit : 0 < limit) (hmax : limit ≤ maxLimit)
    : ∃ pages,
        (∀ walked,
          Walk (fun cursor =>
              reconstruct otherText parseFloat db filters (some (sources.map Source.name)) cursor limit)
            ReconstructionPage.nextCursor none walked
            ↔
          walked = pages)
        ∧ List.Perm (pages.flatMap ReconstructionPage.entries)
          (sources.flatMap (matchingRows otherText db filters))
        ∧ (pages.flatMap ReconstructionPage.entries).Pairwise
          (fun a b => entrySortKey a < entrySortKey b)
        ∧ ∀ page ∈ pages.dropLast, page.entries.length = limit := by
  obtain ⟨pages, hwalk, hentries, hfull⟩ :=
    @exists_walk_timeline otherText parseFloat db filters limit sources hlimit hmax hsources
  refine ⟨pages, ?_, ?_, ?_, hfull⟩
  . intro walked
    constructor
    . exact fun hwalked => hwalked.unique hwalk
    . rintro rfl
      exact hwalk
  . rw [hentries]
    exact List.mergeSort_perm _ _
  . rw [hentries]
    exact pairwise_timeline hsources

/--
A matter with two audit rows and a decision of the same instant.
-/
def tiedTables : TimelineTables where
  auditEntries := [
    signedEntry (Uuid.ofNat 7) (some (Uuid.ofNat 5)), signedEntry (Uuid.ofNat 8) (some (Uuid.ofNat 5))
  ]
  definitions := []
  instances := []
  transitions := []
  decisions := [{
    id := Uuid.ofNat 7
    outputId := py "output"
    fromTier := none
    toTier := py "draft_advice"
    actorUserId := none
    actorRole := none
    moduleId := none
    capabilityId := none
    declaredTierMax := none
    gateState := [(py "matter_id", .str (Uuid.str (Uuid.ofNat 5)))]
    status := py "completed"
    decidedAt := (signedEntry (Uuid.ofNat 7) none).timestamp
  }]
  auditEntries_id := by decide
  definitions_id := Uuid.nodup_nil
  instances_id := Uuid.nodup_nil
  transitions_id := Uuid.nodup_nil
  decisions_id := List.nodup_singleton _
  payload_isDict := by
    intro entry hentry
    simp only [List.mem_cons, List.not_mem_nil, or_false] at hentry
    rcases hentry with rfl | rfl <;> exact ⟨[], rfl⟩

theorem pagination_exact_tiedTables
    : ∃ pages,
        (∀ walked,
          Walk (fun cursor =>
              reconstruct (fun _ => []) (fun _ => none) tiedTables { matterId := some (Uuid.ofNat 5) }
                (some (Source.valid.map Source.name)) cursor (1 : Nat))
            ReconstructionPage.nextCursor none walked
            ↔
          walked = pages)
        ∧ List.Perm (pages.flatMap ReconstructionPage.entries)
          (Source.valid.flatMap
            (matchingRows (fun _ => []) tiedTables { matterId := some (Uuid.ofNat 5) }))
        ∧ (pages.flatMap ReconstructionPage.entries).Pairwise
          (fun a b => entrySortKey a < entrySortKey b)
        ∧ ∀ page ∈ pages.dropLast, page.entries.length = 1 :=
  pagination_exact (fun _ => []) (fun _ => none) tiedTables { matterId := some (Uuid.ofNat 5) }
    (by decide) (by decide) (by decide)

end AuditReconstruction
