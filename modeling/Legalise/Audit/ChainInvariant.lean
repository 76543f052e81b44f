import Legalise.Audit.Honest

/-!
This module contains the invariant of the audit chain over whole runs of concurrent transactions.
-/

namespace AuditChain

variable {H : Sha256} {hashtext : PyStr → Int}

/--
Every scope is one chain numbered from 1 on, every audit entry has its chain row, and the chain
verifies.
-/
structure ChainInvariant (H : Sha256) (tables : AuditTables) : Prop where
  sequences : ∀ scope,
    (tables.scopeRows scope).map AuditChainEntry.scopeSequence
      = (List.range (tables.scopeRows scope).length).map fun i : Nat => (i : Int) + 1
  linked : ∀ scope,
    HashLinked AuditChainEntry.chainHash AuditChainEntry.previousChainHash (tables.scopeRows scope)
  oneRow : ∀ entry ∈ tables.entries, ∃ row,
    (tables.chain.filter fun row => row.auditEntryId = entry.id) = [row] ∧ row.scope = entry.scope
  verified : ∀ matterId,
    ((verifyAuditChain H matterId).runOn tables).ok = true
      ∧ ((verifyAuditChain H matterId).runOn tables).issues = []

namespace Honest

variable {tables : AuditTables}

theorem linked (h : Honest H tables) (scope : Scope)
    : HashLinked AuditChainEntry.chainHash AuditChainEntry.previousChainHash
        (tables.scopeRows scope) := by
  rw [h.scopeRows_eq]
  apply (h.chained scope).simulate
    (fun last previousHash => previousHash = last.map AuditChainEntry.chainHash) rfl
  intro row _ last previousHash hlast hfollows
  exact ⟨by rw [hfollows.previousHash, hlast], rfl⟩

theorem oneRow (h : Honest H tables) {entry : AuditEntry} (hentry : entry ∈ tables.entries)
    : ∃ row, (tables.chain.filter fun row => row.auditEntryId = entry.id) = [row]
        ∧ row.scope = entry.scope := by
  have ⟨row, hrow, happended⟩ := h.exists_row hentry
  refine ⟨row, ?_, happended.fits.scope⟩
  have hids : (tables.chain.map AuditChainEntry.auditEntryId).Nodup := by
    rw [h.auditEntryIds]
    exact h.distinct
  apply List.perm_singleton.mp
  apply (List.perm_ext_iff_of_nodup (hids.of_map.filter _) (List.nodup_singleton row)).mpr
  intro other
  simp only [List.mem_filter, decide_eq_true_eq, List.mem_singleton]
  constructor
  . intro ⟨hother, hid⟩
    exact List.inj_on_of_nodup_map hids hother hrow (by rw [hid, happended.auditEntryId])
  . rintro rfl
    exact ⟨hrow, happended.auditEntryId⟩

/--
On honest tables only the counts can go wrong, as they come from different statements.
-/
theorem issues_eq_nil_iff {views : Nat → AuditTables} (h : Honest H (views 2))
    (hviews : ∀ i, Honest H (views (i + 3))
      ∧ ∀ entry ∈ (views 2).entries, entry ∈ (views (i + 3)).entries)
    (matterId : Option Uuid)
    : ((verifyAuditChain H matterId).exec views).fst.issues = []
        ↔
      auditCount matterId (views 0) = chainCount matterId (views 1) := by
  rw [AuditChain.issues_eq_nil_iff matterId views h.scopeSequence
    (stable_of_mem h.distinct (fun i => ⟨(hviews i).left.distinct, (hviews i).right⟩) matterId)]
  constructor
  . intro hissues
    exact hissues.left
  . intro hcount
    exact ⟨hcount, fun scope _ => h.verifiedScope scope⟩

theorem verified (h : Honest H tables) (matterId : Option Uuid)
    : ((verifyAuditChain H matterId).runOn tables).issues = [] := by
  apply (@issues_eq_nil_iff H (fun _ => tables) h (by simp [h]) matterId).mpr
  exact h.auditCount_eq_chainCount matterId

end Honest

/--
Whatever transactions append, in whatever order their statements run and however they end, and
whatever scopes share a lock: the committed tables satisfy the invariant.
-/
theorem chainInvariant_of_reachable {db : Db} (h : Reachable H hashtext db)
    : ChainInvariant H db.committed := by
  have hhonest := Reachable.honest h
  refine ⟨?_, hhonest.linked, fun entry hentry => hhonest.oneRow hentry, ?_⟩
  . intro scope
    apply scopeSequence_of_chained
    rw [hhonest.scopeRows_eq]
    exact hhonest.chained scope
  . intro matterId
    have hissues := hhonest.verified matterId
    exact ⟨(ok_iff matterId fun _ => db.committed).mpr hissues, hissues⟩

/--
Two signed outputs of a matter, and one without a matter in between.
-/
theorem chainInvariant_of_reachable_signedEntries
    : ChainInvariant .plain
        ((((Db.empty.appendOne .plain (signedEntry (Uuid.ofNat 7) (some (Uuid.ofNat 5)))).appendOne
          .plain (signedEntry (Uuid.ofNat 8) none)).appendOne .plain
            (signedEntry (Uuid.ofNat 9) (some (Uuid.ofNat 5)))).committed) := by
  apply @chainInvariant_of_reachable _ (fun text => text.length)
  refine Reachable.appendOne ?_ ?_ (asWritten_signedEntry _ _) ?_
  . refine Reachable.appendOne ?_ ?_ (asWritten_signedEntry _ _) ?_
    . exact Reachable.appendOne reachable_empty (fun _ => rfl) (asWritten_signedEntry _ _)
        (by simp [Db.empty])
    . simp [Db.appendOne, Db.empty]
    . simp [Db.appendOne, Db.empty, signedEntry]
  . simp [Db.appendOne, Db.empty]
  . simp [Db.appendOne, Db.empty, signedEntry]

end AuditChain
