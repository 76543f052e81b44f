import Legalise.Audit.ChainInvariant

/-!
This module contains `verify_audit_chain` run while other transactions append: when it raises an
alarm about tables that only the trigger has written to.
-/

namespace AuditChain

variable {H : Sha256} {hashtext : PyStr → Int}

/--
The moments at which the statements of a reader see the database, while transactions append.
-/
abbrev Schedule (H : Sha256) (hashtext : PyStr → Int) :=
  Transition.Schedule (fun db => db = .empty) (Step H hashtext)

namespace Schedule

/--
What the statements of a reader see under `READ COMMITTED`.
-/
def views (σ : Schedule H hashtext) (i : Nat) : AuditTables :=
  (σ.state i).committed

theorem honest (σ : Schedule H hashtext) (i : Nat) : Honest H (σ.views i) :=
  Reachable.honest (σ.reachable i)

theorem mem_entries_of_step {db db' : Db} (h : Step H hashtext db db') {entry : AuditEntry}
    (hentry : entry ∈ db.committed.entries) : entry ∈ db'.committed.entries := by
  have ⟨t, hstep⟩ := h
  obtain ⟨hsame, _⟩ | ⟨_, hsame, _⟩ | ⟨hcommit, _⟩ | ⟨hsame, _⟩ := hstep.entries_cases
  . rwa [hsame]
  . rwa [hsame]
  . rw [hcommit]
    exact List.mem_append_left _ hentry
  . rwa [hsame]

/--
Committed audit entries stay.
-/
theorem mem_entries_of_le (σ : Schedule H hashtext) {i j : Nat} (hij : i ≤ j) {entry : AuditEntry}
    (hentry : entry ∈ (σ.views i).entries) : entry ∈ (σ.views j).entries := by
  have := σ.monotone (f := fun db => {entry | entry ∈ db.committed.entries})
    (by
      intro db db' _ hstep entry hentry
      exact mem_entries_of_step hstep hentry) hij
  exact this hentry

/--
Only the counts can go wrong, as they come from different statements.
-/
theorem issues_eq_nil_iff (σ : Schedule H hashtext) (matterId : Option Uuid)
    : ((verifyAuditChain H matterId).exec σ.views).fst.issues = []
        ↔
      auditCount matterId (σ.views 0) = chainCount matterId (σ.views 1) := by
  apply (σ.honest 2).issues_eq_nil_iff
  intro i
  exact ⟨σ.honest (i + 3), fun entry hentry => σ.mem_entries_of_le (by omega) hentry⟩

end Schedule

/--
The first statement counts the audit entries and the second one the chain rows. No alarm is raised
exactly if nothing of the verified scopes was committed between the two, and what is committed
between any other statements makes no difference.
-/
theorem noAlarm_iff (σ : Schedule H hashtext) (matterId : Option Uuid)
    : (((verifyAuditChain H matterId).exec σ.views).fst.ok = true
        ∧ ((verifyAuditChain H matterId).exec σ.views).fst.issues = [])
        ↔
      ∀ entry ∈ (σ.views 1).entries, selected matterId entry.scope = true →
        entry ∈ (σ.views 0).entries := by
  rw [ok_iff, and_self, σ.issues_eq_nil_iff, ← (σ.honest 1).auditCount_eq_chainCount]
  unfold auditCount
  rw [length_eq_iff_subset]
  . constructor
    . intro hsub entry hentry hselected
      have := hsub (List.mem_filter.mpr ⟨hentry, hselected⟩)
      exact (List.mem_filter.mp this).left
    . intro h entry hentry
      have ⟨hentry, hselected⟩ := List.mem_filter.mp hentry
      exact List.mem_filter.mpr ⟨h entry hentry hselected, hselected⟩
  . exact (σ.honest 0).distinct.of_map.filter _
  . exact (σ.honest 1).distinct.of_map.filter _
  . intro entry hentry
    have ⟨hentry, hselected⟩ := List.mem_filter.mp hentry
    exact List.mem_filter.mpr ⟨σ.mem_entries_of_le (by omega) hentry, hselected⟩

/--
One entry is committed right after the first statement.
-/
def appendBetween (H : Sha256) (hashtext : PyStr → Int) (new : AuditEntry) (h : AsWritten new)
    : Schedule H hashtext where
  state i := if i = 0 then .empty else Db.empty.appendOne H new
  reachable_zero := reachable_empty
  steps i := by
    cases i with
    | zero =>
      exact Db.steps_appendOne (fun _ => rfl) h (by simp [Db.empty])
    | succ i => exact .refl

theorem alarm_appendBetween
    : ¬ ∀ (H : Sha256) (hashtext : PyStr → Int) (σ : Schedule H hashtext) (matterId : Option Uuid),
        ((verifyAuditChain H matterId).exec σ.views).fst.ok = true
          ∧ ((verifyAuditChain H matterId).exec σ.views).fst.issues = [] := by
  intro h
  have hok := (h .plain (fun text => text.length)
    (appendBetween _ _ (signedEntry (Uuid.ofNat 7) (some (Uuid.ofNat 5))) (asWritten_signedEntry _ _))
    (some (Uuid.ofNat 5))).right
  rw [Schedule.issues_eq_nil_iff] at hok
  simp [appendBetween, Schedule.views, Db.empty, Db.appendOne, auditCount, chainCount, signedEntry,
    appendedRow, AuditEntry.scope, selected] at hok

end AuditChain
