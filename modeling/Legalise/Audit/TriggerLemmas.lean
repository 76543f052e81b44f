import Legalise.Audit.ChainLemmas
import Legalise.Audit.Trigger
import Legalise.Lib.LockedLog

/-!
This module contains the invariant of trigger-driven appends. Committed rows form one chain per
scope, because the transactions are a `LockedLog` whose locks are the advisory locks, and every chain
row stands next to the audit entry that it was appended for.
-/

namespace AuditChain

variable {H : Sha256} {hashtext : PyStr → Int}

section Append

/--
The rows of a scope that follow each other are numbered from 1 on.
-/
theorem scopeSequence_of_chained {rows : List AuditChainEntry}
    (h : Chained Follows (fun _ row => some row) none rows)
    : rows.map AuditChainEntry.scopeSequence
        = (List.range rows.length).map fun i : Nat => (i : Int) + 1 := by
  induction rows using List.reverseRecOn with
  | nil => rfl
  | append_singleton rows row ih =>
    rw [Chained.append_last_iff] at h
    have ih := ih h.left
    have hlast : row.scopeSequence = rows.length + 1 := by
      rw [h.right.sequence]
      cases hlast : rows.getLast? with
      | none => simp [List.getLast?_eq_none_iff.mp hlast]
      | some last =>
        have hlast : last.scopeSequence = rows.length := by
          have hmap := congrArg List.getLast? ih
          rw [List.getLast?_map, hlast, List.getLast?_map, List.getLast?_range] at hmap
          split at hmap
          . simp at hmap
          . next hne =>
            simp only [Option.map_some, Option.some.injEq] at hmap
            omega
        simp [hlast]
    rw [List.map_append, ih, List.length_append, List.length_singleton, List.range_succ,
      List.map_append]
    simp [hlast]

theorem pairwise_lt_of_chained {rows : List AuditChainEntry}
    (h : Chained Follows (fun _ row => some row) none rows)
    : rows.Pairwise fun a b => a.scopeSequence < b.scopeSequence := by
  rw [← List.pairwise_map (f := AuditChainEntry.scopeSequence) (R := (· < ·)),
    scopeSequence_of_chained h, List.pairwise_map]
  apply List.pairwise_lt_range.imp
  intro a b hab
  omega

theorem nodup_scopeSequence_of_chained {rows : List AuditChainEntry}
    (h : Chained Follows (fun _ row => some row) none rows)
    : (rows.map AuditChainEntry.scopeSequence).Nodup := by
  have := (pairwise_lt_of_chained h).imp (S := fun a b => a.scopeSequence ≠ b.scopeSequence)
    (by intro a b hab; exact hab.ne)
  exact List.pairwise_map.mpr this

/--
The `SELECT` of the trigger finds the last row of the scope.
-/
theorem selectPrevious_eq {visible : List AuditChainEntry} {scope : Scope}
    (h : Chained Follows (fun _ row => some row) none (visible.filter fun row => row.scope = scope))
    : selectPrevious visible scope
        = (visible.filter fun row => row.scope = scope).getLast?.map fun row =>
          (row.chainHash, row.scopeSequence) := by
  have hlt := pairwise_lt_of_chained h
  have hsorted : (visible.filter fun row => row.scope = scope).mergeSort
      (fun a b => decide (b.scopeSequence ≤ a.scopeSequence))
        = (visible.filter fun row => row.scope = scope).reverse := by
    have hmerge := @List.pairwise_mergeSort _ (fun a b : AuditChainEntry =>
        decide (b.scopeSequence ≤ a.scopeSequence))
      (by simp only [decide_eq_true_eq]; omega)
      (by simp only [Bool.or_eq_true, decide_eq_true_eq]; omega)
      (visible.filter fun row => row.scope = scope)
    have hreverse := (List.pairwise_reverse.mpr hlt).imp (S := fun a b =>
      decide (b.scopeSequence ≤ a.scopeSequence) = true) (by intro a b hab; simpa using hab.le)
    apply List.Perm.eq_of_pairwise ?_ hmerge hreverse
    . exact (List.mergeSort_perm _ _).trans (List.reverse_perm _).symm
    . intro a b ha hb hab hba
      apply List.inj_on_of_nodup_map (nodup_scopeSequence_of_chained h) (List.mem_mergeSort.mp ha)
        (List.mem_reverse.mp hb)
      simp only [decide_eq_true_eq] at hab hba
      exact Int.le_antisymm hba hab
  simp only [selectPrevious, hsorted, List.head?_reverse]

/--
The row that was appended for an audit entry.
-/
structure Appended (H : Sha256) (entry : AuditEntry) (row : AuditChainEntry) : Prop where
  auditEntryId : row.auditEntryId = entry.id
  version : row.chainVersion = auditChainVersion
  fits : Fits H row entry

theorem appended_appendedRow {new : AuditEntry} (hwritten : AsWritten new) (id : Nat)
    (previous : Option (PgHash × Int)) : Appended H new (appendedRow H id new previous) where
  auditEntryId := rfl
  version := rfl
  fits := {
    scope := rfl
    entryHash := by
      simp only [appendedRow, auditChainEntryHash, Sha256.pgHash, hwritten.canonical_eq]
      rfl
    chainHash := by
      simp only [appendedRow, auditChainLinkHash, Sha256.pgHash, auditChainLinkCanonical_eq,
        PgHash.bpcharText_eq]
      rfl
  }

theorem follows_appendedRow (new : AuditEntry) (id : Nat) (last : Option AuditChainEntry)
    : Follows last (appendedRow H id new
        (last.map fun row => (row.chainHash, row.scopeSequence))) where
  sequence := by
    cases last <;> rfl
  previousHash := by
    cases last <;> rfl

end Append

section Log

/--
The transactions as a log of chain rows under the advisory locks.
-/
def Db.log (db : Db) : LockedLog.State Nat (Int × Int) AuditChainEntry where
  committed := db.committed.chain
  pending := fun t => (db.sessions t).chain
  holds := fun t key => key ∈ (db.sessions t).locks

@[simp]
theorem Db.log_setSession (db : Db) (t : Nat) (session : Session)
    : (db.setSession t session).log = {
        committed := db.committed.chain,
        pending := Function.update db.log.pending t session.chain,
        holds := Function.update db.log.holds t fun key => key ∈ session.locks
      } := by
  unfold Db.log Db.setSession
  congr 1
  all_goals
    funext u
    by_cases hut : u = t
    . subst hut
      simp
    . simp [Function.update_of_ne hut]

theorem Db.log_nextChainId (db : Db) (id : Nat) : { db with nextChainId := id }.log = db.log := rfl

theorem Db.log_committed (db : Db) (tables : AuditTables)
    : { db with committed := tables }.log = { db.log with committed := tables.chain } := rfl

/--
What the trigger knows between its statements: it holds the lock, and the row that it has selected is
still the last one of the scope.
-/
structure TriggerHolds (hashtext : PyStr → Int) (db : Db) (t : Nat) (new : AuditEntry) : Prop where
  locked : (db.sessions t).phase ≠ .ready → lockKey hashtext new.scope ∈ (db.sessions t).locks
  selected : ∀ previous, (db.sessions t).phase = .selected previous →
    previous = (db.log.rows AuditChainEntry.scope t new.scope).getLast?.map fun row =>
      (row.chainHash, row.scopeSequence)

variable {t : Nat} {db db' : Db}

/--
A step of a transaction is a step of the log, or it changes nothing in it.
-/
theorem TxStep.log (h : TxStep H hashtext t db db')
    (htrigger : ∀ new ∈ (db.sessions t).queue.head?, TriggerHolds hashtext db t new)
    : db'.log = db.log
        ∨ LockedLog.Step AuditChainEntry.scope (lockKey hashtext) Follows t db.log db'.log := by
  have hpending : Function.update db.log.pending t (db.sessions t).chain = db.log.pending :=
    Function.update_eq_self t db.log.pending
  have hholds : (Function.update db.log.holds t fun key => key ∈ (db.sessions t).locks)
      = db.log.holds :=
    Function.update_eq_self t db.log.holds
  cases h with
  | insert rows _ _ _ _ _ =>
    left
    rw [Db.log_setSession, hpending, hholds]
    rfl
  | lock new queue _ _ hfree =>
    right
    have := @LockedLog.Step.acquire _ _ _ _ _ AuditChainEntry.scope (lockKey hashtext) Follows _ t db.log
      (lockKey hashtext new.scope) hfree
    simp only [Db.log_setSession, hpending, List.mem_cons]
    exact this
  | select new queue _ _ =>
    left
    rw [Db.log_setSession, hpending, hholds]
    rfl
  | append new queue previous hphase hqueue =>
    right
    have htrigger := htrigger new (by rw [hqueue]; rfl)
    have hlock := htrigger.locked (by rw [hphase]; simp)
    have hfollows := follows_appendedRow (H := H) new db.nextChainId
      (db.log.rows AuditChainEntry.scope t new.scope).getLast?
    rw [← htrigger.selected previous hphase] at hfollows
    simp only [Db.log_nextChainId, Db.log_setSession, hholds]
    exact .append (appendedRow H db.nextChainId new previous) hlock hfollows
  | commit hqueue =>
    right
    simp only [Db.log_committed, Db.log_setSession, List.not_mem_nil]
    exact .commit
  | rollback =>
    right
    simp only [Db.log_setSession, List.not_mem_nil]
    exact .abort

end Log

section Invariant

/--
Every running trigger can rely on what it has read, every chain row belongs to the audit entry beside
it, and no id is inserted twice.
-/
structure Inv (H : Sha256) (hashtext : PyStr → Int) (db : Db) : Prop where
  log : LockedLog.Inv AuditChainEntry.scope (lockKey hashtext) Follows db.log
  trigger : ∀ t, ∀ new ∈ (db.sessions t).queue.head?, TriggerHolds hashtext db t new
  committed : List.Forall₂ (Appended H) db.committed.entries db.committed.chain
  pending : ∀ t, List.Forall₂ (Appended H) (db.sessions t).entries (db.sessions t).chain
  written : ∀ t, ∀ row ∈ (db.sessions t).queue, AsWritten row
  distinct : ∀ t, ((db.committed.entries ++ (db.sessions t).inserted).map AuditEntry.id).Nodup
  disjoint : ∀ t u, t ≠ u →
    ∀ a ∈ (db.sessions t).inserted, ∀ b ∈ (db.sessions u).inserted, a.id ≠ b.id

variable {t u : Nat} {db db' : Db}

theorem inv_empty : Inv H hashtext .empty where
  log := ⟨by simp [Db.log, Db.empty], by simp [Db.log, Db.empty],
    by simp [LockedLog.State.rows, Db.log, Db.empty]⟩
  trigger := by simp [Db.empty]
  committed := .nil
  pending := by simp [Db.empty]
  written := by simp [Db.empty]
  distinct := by simp [Db.empty, Session.inserted]
  disjoint := by simp [Db.empty, Session.inserted]

namespace TxStep

theorem sessions_of_ne (h : TxStep H hashtext t db db') (hne : u ≠ t)
    : db'.sessions u = db.sessions u := by
  cases h <;> simp [Db.setSession, Function.update_of_ne hne]

theorem inv_log (h : TxStep H hashtext t db db') (hinv : Inv H hashtext db)
    : LockedLog.Inv AuditChainEntry.scope (lockKey hashtext) Follows db'.log := by
  cases h.log (hinv.trigger t) with
  | inl heq => exact heq ▸ hinv.log
  | inr hstep => exact hstep.inv hinv.log

/--
The other transactions cannot change what a trigger has read.
-/
theorem rows_of_ne (h : TxStep H hashtext t db db') (hinv : Inv H hashtext db) (hne : u ≠ t)
    {scope : Scope} (hlock : lockKey hashtext scope ∈ (db.sessions u).locks)
    : db'.log.rows AuditChainEntry.scope u scope = db.log.rows AuditChainEntry.scope u scope := by
  cases h.log (hinv.trigger t) with
  | inl heq => rw [heq]
  | inr hstep => exact hstep.rows_eq hinv.log hne hlock

theorem triggerHolds_of_ne (h : TxStep H hashtext t db db') (hinv : Inv H hashtext db)
    (hne : u ≠ t) {new : AuditEntry} (hholds : TriggerHolds hashtext db u new)
    : TriggerHolds hashtext db' u new where
  locked := by
    rw [h.sessions_of_ne hne]
    exact hholds.locked
  selected previous hphase := by
    rw [h.sessions_of_ne hne] at hphase
    have hlock := hholds.locked (by rw [hphase]; simp)
    rw [h.rows_of_ne hinv hne hlock]
    exact hholds.selected previous hphase

theorem triggerHolds_self (h : TxStep H hashtext t db db') (hinv : Inv H hashtext db)
    : ∀ new ∈ (db'.sessions t).queue.head?, TriggerHolds hashtext db' t new := by
  intro new hnew
  cases h with
  | insert rows hphase _ _ _ _ => constructor <;> simp [Db.setSession, hphase]
  | lock first queue _ hqueue _ =>
    have : first = new := by simpa [Db.setSession, hqueue] using hnew
    constructor <;> simp [Db.setSession, this]
  | select first queue hphase hqueue =>
    have hfirst : first = new := by simpa [Db.setSession, hqueue] using hnew
    have hold := hinv.trigger t new (by rw [hqueue, hfirst]; rfl)
    constructor
    . intro _
      simpa [Db.setSession] using hold.locked (by rw [hphase]; simp)
    . intro previous hselected
      have hprevious : selectPrevious (db.committed.chain ++ (db.sessions t).chain) first.scope
          = previous := by
        simpa [Db.setSession] using hselected
      have hlast := @selectPrevious_eq (db.committed.chain ++ (db.sessions t).chain) new.scope
        (hinv.log.chained t new.scope)
      rw [← hprevious, hfirst, hlast]
      simp [LockedLog.State.rows, Db.log, Db.setSession]
  | append => constructor <;> simp [Db.setSession]
  | commit => simp [Db.setSession] at hnew
  | rollback => simp [Db.setSession] at hnew

theorem inv_committed (h : TxStep H hashtext t db db') (hinv : Inv H hashtext db)
    : List.Forall₂ (Appended H) db'.committed.entries db'.committed.chain := by
  cases h with
  | commit => exact List.rel_append hinv.committed (hinv.pending t)
  | _ => exact hinv.committed

theorem inv_pending (h : TxStep H hashtext t db db') (hinv : Inv H hashtext db)
    : ∀ u, List.Forall₂ (Appended H) (db'.sessions u).entries (db'.sessions u).chain := by
  intro u
  by_cases hut : u = t
  . subst hut
    have hpending := hinv.pending u
    cases h with
    | append new queue previous _ hqueue =>
      have hwritten := hinv.written u new (by rw [hqueue]; simp)
      have happended := appended_appendedRow (H := H) hwritten db.nextChainId previous
      simpa [Db.setSession] using List.rel_append hpending (.cons happended .nil)
    | commit | rollback => simp [Db.setSession]
    | insert | lock | select => simpa [Db.setSession] using hpending
  . rw [h.sessions_of_ne hut]
    exact hinv.pending u

theorem inv_written (h : TxStep H hashtext t db db') (hinv : Inv H hashtext db)
    : ∀ u, ∀ row ∈ (db'.sessions u).queue, AsWritten row := by
  intro u
  by_cases hut : u = t
  . subst hut
    have hold := hinv.written u
    cases h with
    | insert rows _ _ hwritten _ _ => simpa [Db.setSession] using hwritten
    | append new queue _ _ hqueue =>
      rw [hqueue, List.forall_mem_cons] at hold
      simpa [Db.setSession] using hold.right
    | commit | rollback => simp [Db.setSession]
    | lock | select => simpa [Db.setSession] using hold
  . rw [h.sessions_of_ne hut]
    exact hinv.written u

/--
What a step does to the audit entries: it inserts new ones, commits those of its transaction, forgets
them, or leaves all as they are.
-/
theorem entries_cases (h : TxStep H hashtext t db db')
    : (db'.committed.entries = db.committed.entries
        ∧ (db'.sessions t).inserted = (db.sessions t).inserted)
      ∨ (∃ rows, db'.committed.entries = db.committed.entries
        ∧ (db'.sessions t).inserted = (db.sessions t).inserted ++ rows
        ∧ (∀ row ∈ rows, db.Unused row.id) ∧ (rows.map AuditEntry.id).Nodup)
      ∨ (db'.committed.entries = db.committed.entries ++ (db.sessions t).inserted
        ∧ (db'.sessions t).inserted = [])
      ∨ (db'.committed.entries = db.committed.entries ∧ (db'.sessions t).inserted = []) := by
  cases h with
  | insert rows _ hqueue _ hunused hdistinct =>
    refine .inr (.inl ⟨rows, rfl, ?_, hunused, hdistinct⟩)
    simp [Db.setSession, Session.inserted, hqueue]
  | lock | select => exact .inl ⟨rfl, by simp [Db.setSession, Session.inserted]⟩
  | append new queue _ _ hqueue =>
    exact .inl ⟨rfl, by simp [Db.setSession, Session.inserted, hqueue]⟩
  | commit hqueue =>
    refine .inr (.inr (.inl ⟨?_, by simp [Db.setSession, Session.inserted]⟩))
    simp [Session.inserted, hqueue]
  | rollback =>
    exact .inr (.inr (.inr ⟨rfl, by simp [Db.setSession, Session.inserted]⟩))

theorem inv_disjoint (h : TxStep H hashtext t db db') (hinv : Inv H hashtext db)
    : ∀ u v, u ≠ v →
      ∀ a ∈ (db'.sessions u).inserted, ∀ b ∈ (db'.sessions v).inserted, a.id ≠ b.id := by
  have hself : ∀ u, u ≠ t → ∀ a ∈ (db'.sessions t).inserted, ∀ b ∈ (db.sessions u).inserted,
      a.id ≠ b.id := by
    intro u hut a ha b hb
    obtain ⟨_, hsame⟩ | ⟨rows, _, hrows, hunused, _⟩ | ⟨_, hnil⟩ | ⟨_, hnil⟩ := h.entries_cases
    . rw [hsame] at ha
      exact hinv.disjoint t u hut.symm a ha b hb
    . rw [hrows, List.mem_append] at ha
      cases ha with
      | inl ha => exact hinv.disjoint t u hut.symm a ha b hb
      | inr ha => exact ((hunused a ha).right u b hb).symm
    . simp [hnil] at ha
    . simp [hnil] at ha
  intro u v huv a ha b hb
  by_cases hut : u = t
  . subst hut
    rw [h.sessions_of_ne huv.symm] at hb
    exact hself v huv.symm a ha b hb
  . rw [h.sessions_of_ne hut] at ha
    by_cases hvt : v = t
    . subst hvt
      exact (hself u hut b hb a ha).symm
    . rw [h.sessions_of_ne hvt] at hb
      exact hinv.disjoint u v huv a ha b hb

theorem inv_distinct (h : TxStep H hashtext t db db') (hinv : Inv H hashtext db)
    : ∀ u, ((db'.committed.entries ++ (db'.sessions u).inserted).map AuditEntry.id).Nodup := by
  intro u
  by_cases hut : u = t
  . subst hut
    have hold := hinv.distinct u
    obtain ⟨hcommitted, hsame⟩ | ⟨rows, hcommitted, hrows, hunused, hdistinct⟩ | ⟨hcommitted, hnil⟩
      | ⟨hcommitted, hnil⟩ := h.entries_cases
    . rwa [hcommitted, hsame]
    . rw [hcommitted, hrows, ← List.append_assoc, List.map_append]
      apply List.Nodup.append hold hdistinct
      intro id hid hnew
      have ⟨row, hrow, heq⟩ := List.mem_map.mp hnew
      have ⟨entry, hentry, hid⟩ := List.mem_map.mp hid
      have hne := hunused row hrow
      cases List.mem_append.mp hentry with
      | inl hentry => exact hne.left entry hentry (by rw [hid, heq])
      | inr hentry => exact hne.right u entry hentry (by rw [hid, heq])
    . rwa [hcommitted, hnil, List.append_nil]
    . rw [hcommitted, hnil, List.append_nil]
      rw [List.map_append] at hold
      exact hold.of_append_left
  . rw [h.sessions_of_ne hut]
    have hold := hinv.distinct u
    obtain ⟨hcommitted, _⟩ | ⟨_, hcommitted, _⟩ | ⟨hcommitted, _⟩ | ⟨hcommitted, _⟩ := h.entries_cases
    . rwa [hcommitted]
    . rwa [hcommitted]
    . rw [hcommitted, List.map_append]
      rw [List.map_append] at hold
      apply List.Nodup.append (hinv.distinct t) hold.of_append_right
      intro id hid hpending
      rw [List.map_append, List.mem_append] at hid
      cases hid with
      | inl hid => exact List.disjoint_of_nodup_append hold hid hpending
      | inr hid =>
        have ⟨a, ha, haid⟩ := List.mem_map.mp hid
        have ⟨b, hb, hbid⟩ := List.mem_map.mp hpending
        exact hinv.disjoint u t hut b hb a ha (by rw [haid, hbid])
    . rwa [hcommitted]

theorem inv (h : TxStep H hashtext t db db') (hinv : Inv H hashtext db) : Inv H hashtext db' where
  log := h.inv_log hinv
  trigger := by
    intro u new hnew
    by_cases hut : u = t
    . subst hut
      exact h.triggerHolds_self hinv new hnew
    . rw [h.sessions_of_ne hut] at hnew
      exact h.triggerHolds_of_ne hinv hut (hinv.trigger u new hnew)
  committed := h.inv_committed hinv
  pending := h.inv_pending hinv
  written := h.inv_written hinv
  distinct := h.inv_distinct hinv
  disjoint := h.inv_disjoint hinv

end TxStep

theorem Reachable.inv (h : Reachable H hashtext db) : Inv H hashtext db := by
  apply @Transition.Reachable.invariant _ _ _ (Inv H hashtext) ?_ ?_ _ h
  . rintro _ rfl
    exact inv_empty
  . intro db db' hinv ⟨t, hstep⟩
    exact hstep.inv hinv

end Invariant

section Progress

variable {t : Nat} {db : Db}

/--
The database after one more audit entry was committed.
-/
def Db.appendOne (H : Sha256) (db : Db) (new : AuditEntry) : Db where
  committed := {
    entries := db.committed.entries ++ [new],
    chain := db.committed.chain
      ++ [appendedRow H db.nextChainId new (selectPrevious db.committed.chain new.scope)]
  }
  nextChainId := db.nextChainId + 1
  sessions := db.sessions

@[simp]
theorem Db.sessions_setSession (db : Db) (t : Nat) (session : Session)
    : (db.setSession t session).sessions t = session := by
  simp [Db.setSession]

@[simp]
theorem Db.committed_setSession (db : Db) (t : Nat) (session : Session)
    : (db.setSession t session).committed = db.committed := rfl

@[simp]
theorem Db.nextChainId_setSession (db : Db) (t : Nat) (session : Session)
    : (db.setSession t session).nextChainId = db.nextChainId := rfl

theorem Db.setSession_setSession (db : Db) (t : Nat) (first second : Session)
    : (db.setSession t first).setSession t second = db.setSession t second := by
  simp [Db.setSession]

/--
While nobody else is running, a transaction comes through with its row.
-/
theorem Db.steps_appendOne (hidle : ∀ t, db.sessions t = {}) {new : AuditEntry}
    (hwritten : AsWritten new) (hnew : ∀ entry ∈ db.committed.entries, entry.id ≠ new.id)
    : Relation.ReflTransGen (Step H hashtext) db (db.appendOne H new) := by
  have hinsert : Step H hashtext db (db.setSession 0 { queue := [new] }) := by
    have := @TxStep.insert H hashtext 0 db [new]
      (by rw [hidle]) (by rw [hidle]) (by simpa using hwritten)
      (by simpa [Db.Unused, hidle, Session.inserted] using hnew) (by simp)
    rw [hidle] at this
    exact ⟨0, this⟩
  have hlock : Step H hashtext (db.setSession 0 { queue := [new] })
      (db.setSession 0 {
        queue := [new], phase := .locked, locks := [lockKey hashtext new.scope]
      }) := by
    have := @TxStep.lock H hashtext 0
      (db.setSession 0 { queue := [new] }) new [] (by simp) (by simp)
      (by
        intro u hu
        simp [Db.setSession, Function.update_of_ne hu, hidle])
    rw [Db.setSession_setSession] at this
    exact ⟨0, by simpa using this⟩
  have hselect : Step H hashtext
      (db.setSession 0 {
        queue := [new], phase := .locked, locks := [lockKey hashtext new.scope]
      })
      (db.setSession 0 {
        queue := [new], phase := .selected (selectPrevious db.committed.chain new.scope),
        locks := [lockKey hashtext new.scope]
      }) := by
    have := @TxStep.select H hashtext 0
      (db.setSession 0 {
        queue := [new], phase := .locked, locks := [lockKey hashtext new.scope]
      }) new [] (by simp) (by simp)
    rw [Db.setSession_setSession] at this
    exact ⟨0, by simpa using this⟩
  have happend : Step H hashtext
      (db.setSession 0 {
        queue := [new], phase := .selected (selectPrevious db.committed.chain new.scope),
        locks := [lockKey hashtext new.scope]
      })
      {
        db.setSession 0 {
          entries := [new],
          chain := [appendedRow H db.nextChainId new (selectPrevious db.committed.chain new.scope)],
          locks := [lockKey hashtext new.scope]
        } with
        nextChainId := db.nextChainId + 1
      } := by
    have := @TxStep.append H hashtext 0
      (db.setSession 0 {
        queue := [new], phase := .selected (selectPrevious db.committed.chain new.scope),
        locks := [lockKey hashtext new.scope]
      }) new [] (selectPrevious db.committed.chain new.scope) (by simp) (by simp)
    rw [Db.setSession_setSession] at this
    exact ⟨0, by simpa using this⟩
  have hcommit : Step H hashtext
      {
        db.setSession 0 {
          entries := [new],
          chain := [appendedRow H db.nextChainId new (selectPrevious db.committed.chain new.scope)],
          locks := [lockKey hashtext new.scope]
        } with
        nextChainId := db.nextChainId + 1
      }
      (db.appendOne H new) := by
    have := @TxStep.commit H hashtext 0
      ({
        db.setSession 0 {
          entries := [new],
          chain := [appendedRow H db.nextChainId new (selectPrevious db.committed.chain new.scope)],
          locks := [lockKey hashtext new.scope]
        } with
        nextChainId := db.nextChainId + 1
      }) (by simp)
    have hsessions : Function.update db.sessions 0 {} = db.sessions := by
      rw [← hidle 0, Function.update_eq_self]
    refine ⟨0, ?_⟩
    simpa [Db.setSession, Db.appendOne, hsessions] using this
  exact .head hinsert (.head hlock (.head hselect (.head happend (.single hcommit))))

theorem Reachable.appendOne (h : Reachable H hashtext db) (hidle : ∀ t, db.sessions t = {})
    {new : AuditEntry} (hwritten : AsWritten new)
    (hnew : ∀ entry ∈ db.committed.entries, entry.id ≠ new.id)
    : Reachable H hashtext (db.appendOne H new) :=
  Transition.Reachable.trans h (Db.steps_appendOne hidle hwritten hnew)

theorem reachable_empty : Reachable H hashtext .empty :=
  .init rfl

end Progress

end AuditChain
