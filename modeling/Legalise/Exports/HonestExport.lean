import Legalise.Audit.NoFalseAlarm
import Legalise.Exports.Agreement

/-!
This module contains exports that are built while transactions append: when the offline verifier
accepts what was exported from tables that only the trigger has written to.
-/

namespace Exports

open AuditChain ExportChainVerifier

variable {R : PyRepr} {H : Sha256} {hashtext : PyStr → Int} {m : Uuid}

theorem joins_of_honest {tables : AuditTables} (h : Honest H tables) : Joins tables m :=
  joins_of_verifiedScope (h.verifiedScope (.matter m))

/--
The exported chain rows of honest tables are in order, and have the ids of the audit entries of the
matter.
-/
theorem chained_of_honest {tables : AuditTables} (h : Honest H tables)
    : Chained (RowVerifiesOffline H) (fun _ row => some row) none (chainRows m tables) :=
  ((verifiedScope_iff h.distinct (joins_of_honest h)).mp (h.verifiedScope (.matter m))).right

theorem ids_chainRows_of_honest {tables : AuditTables} (h : Honest H tables) (id : Uuid)
    : (∃ row ∈ chainRows m tables, row.entry.id = id) ↔ ∃ a ∈ auditRows m tables, a.id = id := by
  constructor
  . intro ⟨row, hrow, hid⟩
    have hmatter := ((verifiedScope_iff h.distinct (joins_of_honest h)).mp
      (h.verifiedScope (.matter m))).left row hrow
    have hentry := ((mem_chainRows_iff row).mp hrow).right.left
    have hmem := ((AuditTables.findEntry_eq_some_iff h.distinct _ _).mp hentry).left
    exact ⟨row.entry, (mem_auditRows_iff _).mpr ⟨hmem, hmatter.right⟩, hid⟩
  . intro ⟨a, ha, hid⟩
    have ⟨ha, hmatter⟩ := (mem_auditRows_iff a).mp ha
    have ⟨chain, hchain, happended⟩ := h.exists_row ha
    refine ⟨⟨chain, a, a.payload.text.val⟩, ?_, hid⟩
    rw [mem_chainRows_iff, AuditTables.mem_scopeRows_iff, happended.fits.scope,
      AuditEntry.scope_eq_matter_iff, happended.auditEntryId]
    exact ⟨⟨hchain, hmatter⟩, h.findEntry_eq ha, rfl⟩

/--
On honest tables only the ids can differ, as they come from different statements.
-/
theorem verify_exported_iff_sameIds (F : JsonText.FloatText R) (exportedAt : Timestamp)
    (σ : Schedule H hashtext)
    : verify R H (AuditFiles.pack F.parse ((buildAuditFiles R m exportedAt).exec σ.views).fst) = .ok []
        ↔
      ∀ id, (∃ a ∈ auditRows m (σ.views 1), a.id = id) → ∃ a ∈ auditRows m (σ.views 0), a.id = id := by
  have hfiles : ((buildAuditFiles R m exportedAt).exec σ.views).fst
      = ⟨JsonText.dumps R (auditList (auditRows m (σ.views 0))),
        JsonText.dumps R (.dict (chainDoc m exportedAt (chainRows m (σ.views 1))))⟩ := by
    simp [buildAuditFiles]
  have hhonest := σ.honest 1
  rw [hfiles, verify_pack_eq_nil_iff F m exportedAt _ _ utf8Encodable_chainRows]
  simp only [chained_of_honest hhonest, true_and, ids_chainRows_of_honest hhonest]
  constructor
  . intro h id hid
    cases h with
    | inl hnil =>
      rw [← ids_chainRows_of_honest hhonest, hnil] at hid
      simp at hid
    | inr hsame => exact (hsame id).mpr hid
  . intro h
    refine .inr fun id => ⟨?_, h id⟩
    intro ⟨a, ha, hid⟩
    have ⟨ha, hmatter⟩ := (mem_auditRows_iff a).mp ha
    exact ⟨a, (mem_auditRows_iff a).mpr ⟨σ.mem_entries_of_le (by omega) ha, hmatter⟩, hid⟩

/--
The first statement reads the audit entries and the second one the chain rows. The export verifies
exactly if no entry of the matter was committed between the two.
-/
theorem verify_exported_iff (F : JsonText.FloatText R) (exportedAt : Timestamp)
    (σ : Schedule H hashtext)
    : verify R H (AuditFiles.pack F.parse ((buildAuditFiles R m exportedAt).exec σ.views).fst) = .ok []
        ↔
      ∀ entry ∈ (σ.views 1).entries, entry.matterId = some m → entry ∈ (σ.views 0).entries := by
  rw [verify_exported_iff_sameIds]
  constructor
  . intro h entry hentry hmatter
    have ⟨a, ha, hid⟩ := h entry.id ⟨entry, (mem_auditRows_iff entry).mpr ⟨hentry, hmatter⟩, rfl⟩
    have ha := ((mem_auditRows_iff a).mp ha).left
    rwa [← List.inj_on_of_nodup_map (σ.honest 1).distinct (σ.mem_entries_of_le (by omega) ha) hentry
      hid]
  . intro h id ⟨a, ha, hid⟩
    have ⟨ha, hmatter⟩ := (mem_auditRows_iff a).mp ha
    exact ⟨a, (mem_auditRows_iff a).mpr ⟨h a ha hmatter, hmatter⟩, hid⟩

/--
The history has one signed output, and a second one is committed between the two statements.
-/
def appendDuringExport (H : Sha256) (hashtext : PyStr → Int) : Schedule H hashtext where
  state i :=
    let first := Db.empty.appendOne H (signedEntry (Uuid.ofNat 7) (some (Uuid.ofNat 5)))
    if i = 0 then first else first.appendOne H (signedEntry (Uuid.ofNat 8) (some (Uuid.ofNat 5)))
  reachable_zero :=
    Reachable.appendOne reachable_empty (fun _ => rfl) (asWritten_signedEntry _ _) (by simp [Db.empty])
  steps i := by
    cases i with
    | zero =>
      exact Db.steps_appendOne (fun _ => rfl) (asWritten_signedEntry _ _)
        (by simp [Db.appendOne, Db.empty, signedEntry])
    | succ i => exact .refl

theorem rejected_appendDuringExport
    : ¬ ∀ (R : PyRepr) (H : Sha256) (hashtext : PyStr → Int) (F : JsonText.FloatText R)
        (exportedAt : Timestamp) (m : Uuid) (σ : Schedule H hashtext),
        verify R H (AuditFiles.pack F.parse ((buildAuditFiles R m exportedAt).exec σ.views).fst)
          = .ok [] := by
  intro h
  let σ := appendDuringExport .plain fun text => text.length
  let new := signedEntry (Uuid.ofNat 8) (some (Uuid.ofNat 5))
  have hverified := h .quoted .plain _ JsonText.FloatText.quoted new.timestamp (Uuid.ofNat 5) σ
  rw [verify_exported_iff_sameIds] at hverified
  have hnew : new ∈ auditRows (Uuid.ofNat 5) (σ.views 1) := by
    rw [mem_auditRows_iff]
    simp [σ, appendDuringExport, Schedule.views, Db.appendOne, new, signedEntry]
  obtain ⟨a, ha, hid⟩ := hverified new.id ⟨new, hnew, rfl⟩
  have ha := ((mem_auditRows_iff a).mp ha).left
  have : a = signedEntry (Uuid.ofNat 7) (some (Uuid.ofNat 5)) := by
    simpa [σ, appendDuringExport, Schedule.views, Db.appendOne, Db.empty] using ha
  simp [this, new, signedEntry] at hid

end Exports
