import Legalise.Audit.TriggerLemmas
import Legalise.Lib.Distinct

/-!
This module contains what holds of the committed tables after any run of trigger-driven appends, and
that `verify_audit_chain` accepts them.
-/

namespace AuditChain

variable {H : Sha256} {hashtext : PyStr → Int}

/--
Tables that only the trigger has written to.
-/
structure Honest (H : Sha256) (tables : AuditTables) : Prop where
  appended : List.Forall₂ (Appended H) tables.entries tables.chain
  distinct : (tables.entries.map AuditEntry.id).Nodup
  chained : ∀ scope, Chained Follows (fun _ row => some row) none
    (tables.chain.filter fun row => row.scope = scope)

theorem Reachable.honest {db : Db} (h : Reachable H hashtext db) : Honest H db.committed := by
  have hinv := Reachable.inv h
  refine ⟨hinv.committed, ?_, hinv.log.committed_chained 0⟩
  have := hinv.distinct 0
  rw [List.map_append] at this
  exact this.of_append_left

namespace Honest

variable {tables later : AuditTables}

theorem auditEntryIds (h : Honest H tables)
    : tables.chain.map AuditChainEntry.auditEntryId = tables.entries.map AuditEntry.id := by
  apply List.ext_getElem
  . simp [h.appended.length_eq]
  . intro i hi hj
    simp only [List.getElem_map]
    rw [List.length_map] at hi hj
    exact (h.appended.get hj hi).auditEntryId

theorem scopeSequence (h : Honest H tables)
    : (tables.chain.map fun row => (row.scope, row.scopeSequence)).Nodup := by
  apply nodup_map_prod
  intro scope
  exact nodup_scopeSequence_of_chained (h.chained scope)

theorem scopeRows_eq (h : Honest H tables) (scope : Scope)
    : tables.scopeRows scope = tables.chain.filter fun row => row.scope = scope := by
  symm
  apply AuditTables.eq_scopeRows h.scopeSequence (List.Perm.refl _)
  apply (pairwise_lt_of_chained (h.chained scope)).imp
  intro a b hab
  exact hab.le

/--
Every chain row finds the audit entry that it was appended for.
-/
theorem exists_entry (h : Honest H tables) {row : AuditChainEntry} (hrow : row ∈ tables.chain)
    : ∃ entry ∈ tables.entries, Appended H entry row := by
  have ⟨i, hi, hget⟩ := List.getElem_of_mem hrow
  have hlength := h.appended.length_eq
  have hentry := h.appended.get (i := i) (by omega) hi
  exact ⟨tables.entries[i], List.getElem_mem _, by simpa [hget] using hentry⟩

theorem exists_row (h : Honest H tables) {entry : AuditEntry} (hentry : entry ∈ tables.entries)
    : ∃ row ∈ tables.chain, Appended H entry row := by
  have ⟨i, hi, hget⟩ := List.getElem_of_mem hentry
  have hlength := h.appended.length_eq
  have hrow := h.appended.get (i := i) hi (by omega)
  exact ⟨tables.chain[i], List.getElem_mem _, by simpa [hget] using hrow⟩

theorem findEntry_eq (h : Honest H tables) {entry : AuditEntry} (hentry : entry ∈ tables.entries)
    : tables.findEntry entry.id = some entry :=
  (AuditTables.findEntry_eq_some_iff h.distinct entry.id entry).mpr ⟨hentry, rfl⟩

theorem verifiedScope (h : Honest H tables) (scope : Scope) : VerifiedScope H tables scope := by
  unfold VerifiedScope
  rw [h.scopeRows_eq]
  apply (h.chained scope).imp
  intro row hrow previous hfollows
  have ⟨entry, hentry, happended⟩ := h.exists_entry (List.mem_filter.mp hrow).left
  refine ⟨happended.version, hfollows, entry, ?_, happended.fits⟩
  rw [happended.auditEntryId]
  exact h.findEntry_eq hentry

theorem auditCount_eq_chainCount (h : Honest H tables) (matterId : Option Uuid)
    : auditCount matterId tables = chainCount matterId tables := by
  unfold auditCount chainCount
  have hscopes : tables.entries.map AuditEntry.scope = tables.chain.map AuditChainEntry.scope := by
    apply List.ext_getElem
    . simp [h.appended.length_eq]
    . intro i hi hj
      simp only [List.getElem_map]
      rw [List.length_map] at hi hj
      exact (h.appended.get hi hj).fits.scope.symm
  have := congrArg (fun scopes => (scopes.filter (selected matterId)).length) hscopes
  simpa [List.filter_map, Function.comp_def] using this

end Honest

end AuditChain
