import Legalise.RetentionSweep.Basic

/-!
This module contains what a sweep commits, and when the failure of one matter leaves the others alone.
-/

namespace RetentionSweep

open Capabilities (Grant GrantTable tombstoneMatter)

variable {isoformat : Date → PyStr} {attempts : Matter → Attempt}

section Purge

/--
The audit rows of a purged matter, where `grants` are those that it still had.
-/
def tombstoneRows (isoformat : Date → PyStr) (grants : GrantTable) (a : Attempt) (m : Matter) : List AuditLog :=
  match tombstoneMatter grants (deletion isoformat a m) with
  | .ok (_, rows) => rows
  | .error _ => []

/--
What a purge that succeeds has committed.
-/
structure Purged (isoformat : Date → PyStr) (db : Database) (a : Attempt) (m : Matter) (after : Database) : Prop where
  matters : after.matters = db.archive m.id
  grants : after.grants.rows = db.grants.rows.filter fun g => !g.isAt (some m.id)
  audit : after.audit = db.audit ++ tombstoneRows isoformat db.grants a m

theorem purge_eq_ok {db : Database} {a : Attempt} {m : Matter} (h : a.Purges)
    : ∃ after, purge isoformat db a m = .ok after ∧ Purged isoformat db a m after := by
  have ⟨hactive, hstorage, hstatement, hcommit⟩ := h
  have htombstone : ∃ rows, tombstoneMatter db.grants (deletion isoformat a m)
      = .ok (db.grants.keep fun g => !g.isAt (some m.id), rows) := by
    simp [tombstoneMatter, deletion, hactive, hstorage]
  have ⟨rows, hrows⟩ := htombstone
  unfold purge
  rw [hrows, hstatement, hcommit]
  refine ⟨_, rfl, rfl, rfl, ?_⟩
  unfold tombstoneRows
  rw [hrows]

theorem purge_eq_error {db : Database} {a : Attempt} {m : Matter} (h : ¬ a.Purges)
    : ∃ e, purge isoformat db a m = .error e := by
  unfold purge
  split
  . exact ⟨_, rfl⟩
  . next hstatement =>
    cases htombstone : tombstoneMatter db.grants (deletion isoformat a m) with
    | error e => cases e <;> exact ⟨_, rfl⟩
    | ok result =>
      dsimp only
      split
      . exact ⟨_, rfl⟩
      . next hcommit =>
        refine absurd ⟨?_, ?_, by simpa using hstatement, by simpa using hcommit⟩ h
        . by_contra hactive
          simp [tombstoneMatter, deletion, Nat.pos_of_ne_zero hactive] at htombstone
        . by_contra hstorage
          simp only [tombstoneMatter, deletion, Bool.not_eq_true] at htombstone hstorage
          simp only [hstorage] at htombstone
          split at htombstone <;> simp at htombstone

/--
The purge of one matter leaves the audit rows of another as they are going to be.
-/
theorem tombstoneRows_of_filter {grants after : GrantTable} {a : Attempt} {m other : Matter} (hne : m.id ≠ other.id)
    (hafter : after.rows = grants.rows.filter fun g => !g.isAt (some other.id))
    : tombstoneRows isoformat after a m = tombstoneRows isoformat grants a m := by
  have hsame : after.rows.filter (fun g => g.isAt (some m.id)) = grants.rows.filter fun g => g.isAt (some m.id) := by
    rw [hafter, List.filter_filter]
    apply List.filter_congr
    intro g _
    unfold Grant.isAt
    by_cases hscope : g.scopeId = some m.id
    . simp [hscope, hne]
    . simp [hscope]
  unfold tombstoneRows tombstoneMatter
  dsimp only [deletion]
  rw [hsame]
  by_cases hactive : 0 < a.activeCount
  . simp [hactive]
  . by_cases hstorage : a.storageDeleted = true <;> simp [hactive, hstorage]

end Purge

section Loop

variable {m : Matter} {s : Loop}

theorem attempt_of_purges (h : (attempts m).Purges)
    : ∃ after, Purged isoformat s.db (attempts m) m after
        ∧ s.attempt isoformat (attempts m) m = {
          s with
          attempted := s.attempted ++ [m.id]
          db := after
          purged := s.purged + 1
          stdout := s.stdout ++ [py "  purged " ++ m.slug]
        } := by
  have ⟨after, hpurge, hpurged⟩ := @purge_eq_ok isoformat s.db _ m h
  refine ⟨after, hpurged, ?_⟩
  unfold Loop.attempt
  dsimp only
  rw [hpurge]

/--
A failed purge leaves what is committed, and an expired session.
-/
theorem attempt_of_not_purges (h : ¬ (attempts m).Purges)
    : ∃ stderr, s.attempt isoformat (attempts m) m = {
        s with
        attempted := s.attempted ++ [m.id]
        expired := true
        failed := s.failed + 1
        stderr := stderr
      } := by
  have ⟨e, hpurge⟩ := @purge_eq_error isoformat s.db _ m h
  unfold Loop.attempt
  dsimp only
  rw [hpurge]
  cases e <;> exact ⟨_, rfl⟩

theorem purgeAll_of_expired {selected : List Matter} (hexpired : s.expired = true)
    : purgeAll isoformat attempts selected s = (s, selected.isEmpty) := by
  cases selected with
  | nil => rfl
  | cons m rest => simp [purgeAll, hexpired]

theorem purgeAll_cons {rest : List Matter} (hexpired : s.expired = false)
    : purgeAll isoformat attempts (m :: rest) s
        = purgeAll isoformat attempts rest (s.attempt isoformat (attempts m) m) := by
  simp [purgeAll, hexpired]

/--
The loop gets to its end, if and only if no matter but the last one fails.
-/
theorem snd_purgeAll_iff {selected : List Matter} (hexpired : s.expired = false)
    : (purgeAll isoformat attempts selected s).snd = true ↔ ∀ m ∈ selected.dropLast, (attempts m).Purges := by
  induction selected generalizing s with
  | nil => simp [purgeAll]
  | cons m rest ih =>
    rw [purgeAll_cons hexpired]
    by_cases hpurges : (attempts m).Purges
    . have ⟨after, _, heq⟩ := @attempt_of_purges isoformat attempts m s hpurges
      have hrest := @ih (s.attempt isoformat (attempts m) m) (by rw [heq]; exact hexpired)
      rw [hrest]
      cases rest with
      | nil => simp
      | cons other rest => simp [hpurges]
    . have ⟨stderr, heq⟩ := @attempt_of_not_purges isoformat attempts m s hpurges
      rw [heq, purgeAll_of_expired rfl]
      cases rest with
      | nil => simp
      | cons other rest => simp [hpurges]

end Loop

section Isolated

/--
What the purges of some matters have committed: these matters are archived with their rows, and every other one
is as it was.
-/
structure Committed (isoformat : Date → PyStr) (attempts : Matter → Attempt) (db : Database) (ms : List Matter)
    (after : Database) : Prop where
  matters : after.matters = db.matters.map fun m => if m.id ∈ ms.map Matter.id then m.archive else m
  grants : after.grants.rows = db.grants.rows.filter fun g => ms.all fun m => !g.isAt (some m.id)
  audit : after.audit = db.audit ++ ms.flatMap fun m => tombstoneRows isoformat db.grants (attempts m) m

theorem committed_nil (db : Database) : Committed isoformat attempts db [] db := by
  refine ⟨?_, ?_, ?_⟩ <;> simp

theorem Purged.cons {db middle after : Database} {m : Matter} {ms : List Matter} (hm : m.id ∉ ms.map Matter.id)
    (hfirst : Purged isoformat db (attempts m) m middle) (hrest : Committed isoformat attempts middle ms after)
    : Committed isoformat attempts db (m :: ms) after := by
  refine ⟨?_, ?_, ?_⟩
  . rw [hrest.matters, hfirst.matters, Database.archive, List.map_map]
    apply List.map_congr_left
    intro row _
    by_cases hrow : row.id = m.id
    . have hid : row.archive.id = m.id := hrow
      have htwice : row.archive.archive = row.archive := rfl
      simp [hrow, hid, htwice]
    . simp [hrow]
  . rw [hrest.grants, hfirst.grants, List.filter_filter]
    apply List.filter_congr
    intro g _
    rw [List.all_cons, Bool.and_comm]
  . rw [hrest.audit, hfirst.audit, List.flatMap_cons, List.append_assoc]
    congr 2
    rw [List.flatMap_def, List.flatMap_def]
    congr 1
    apply List.map_congr_left
    intro other hother
    refine tombstoneRows_of_filter (fun heq => hm ?_) hfirst.grants
    rw [← heq]
    exact List.mem_map_of_mem hother

/--
A sweep that isolates failures: it tries every matter, commits exactly the purges that succeed, prints how many
these are, and returns.
-/
structure Isolated (isoformat : Date → PyStr) (attempts : Matter → Attempt) (db : Database)
    (selected : List Matter) (swept : Swept) : Prop where
  attempted : swept.loop.attempted = selected.map Matter.id
  committed : Committed isoformat attempts db (selected.filter fun m => (attempts m).Purges) swept.loop.db
  printed : selected ≠ [] → ∃ before, swept.loop.stdout
    = before ++ [summary (selected.countP fun m => (attempts m).Purges)
        (selected.countP fun m => ¬ (attempts m).Purges)]
  returned : swept.exitCode = some (if ∀ m ∈ selected, (attempts m).Purges then exitOk else exitPartial)

/--
The loop after it has got to its end.
-/
structure Completed (isoformat : Date → PyStr) (attempts : Matter → Attempt) (s : Loop) (selected : List Matter)
    (after : Loop) : Prop where
  attempted : after.attempted = s.attempted ++ selected.map Matter.id
  committed : Committed isoformat attempts s.db (selected.filter fun m => (attempts m).Purges) after.db
  purged : after.purged = s.purged + selected.countP fun m => (attempts m).Purges
  failed : after.failed = s.failed + selected.countP fun m => ¬ (attempts m).Purges

theorem completed_purgeAll {selected : List Matter} {s : Loop} (hexpired : s.expired = false)
    (hids : (selected.map Matter.id).Nodup) (h : ∀ m ∈ selected.dropLast, (attempts m).Purges)
    : Completed isoformat attempts s selected (purgeAll isoformat attempts selected s).fst := by
  induction selected generalizing s with
  | nil => exact ⟨by simp [purgeAll], committed_nil s.db, rfl, rfl⟩
  | cons m rest ih =>
    rw [List.map_cons, List.nodup_cons] at hids
    rw [purgeAll_cons hexpired]
    by_cases hpurges : (attempts m).Purges
    . have ⟨after, hpurged, heq⟩ := @attempt_of_purges isoformat attempts m s hpurges
      have hrest : ∀ m ∈ rest.dropLast, (attempts m).Purges := by
        intro other hother
        cases rest with
        | nil => contradiction
        | cons next rest => exact h other (by simp [hother])
      have hcompleted := @ih (s.attempt isoformat (attempts m) m) (by rw [heq]; exact hexpired) hids.right hrest
      rw [heq] at hcompleted ⊢
      refine ⟨?_, ?_, ?_, ?_⟩
      . rw [hcompleted.attempted]
        simp
      . rw [List.filter_cons_of_pos (by simpa using hpurges)]
        refine hpurged.cons (fun hmem => hids.left ?_) hcompleted.committed
        exact (List.filter_sublist.map Matter.id).subset hmem
      . rw [hcompleted.purged, List.countP_cons_of_pos (by simpa using hpurges)]
        show s.purged + 1 + _ = s.purged + (_ + 1)
        omega
      . rw [hcompleted.failed, List.countP_cons_of_neg (by simpa using hpurges)]
    . cases rest with
      | nil =>
        have ⟨stderr, heq⟩ := @attempt_of_not_purges isoformat attempts m s hpurges
        rw [heq]
        refine ⟨rfl, ?_, ?_, ?_⟩
        . rw [List.filter_cons_of_neg (by simpa using hpurges)]
          exact committed_nil s.db
        . rw [List.countP_cons_of_neg (by simpa using hpurges)]
          rfl
        . rw [List.countP_cons_of_pos (by simpa using hpurges)]
          rfl
      | cons next rest => exact absurd (h m (by simp)) hpurges

theorem sweep_eq_purgeAll {today : Date} {limit : Option Nat} {db : Database} {selected : List Matter}
    (hne : selected ≠ [])
    : ∃ printed, sweep isoformat today attempts true limit selected db
        = match purgeAll isoformat attempts selected { db := db, stdout := printed } with
          | (s, false) => ⟨s, none⟩
          | (s, true) =>
            ⟨{ s with stdout := s.stdout ++ [summary s.purged s.failed] },
              some (if s.failed = 0 then exitOk else exitPartial)⟩ := by
  unfold sweep
  dsimp only
  rw [if_neg (by simpa using hne)]
  exact ⟨_, rfl⟩

/--
A sweep of selected matters isolates failures, if and only if no matter but the last one fails.
-/
theorem sweep_isolated_iff {today : Date} {limit : Option Nat} {db : Database} {selected : List Matter}
    (h : SelectsExpired today limit db selected)
    : Isolated isoformat attempts db selected (sweep isoformat today attempts true limit selected db)
        ↔ ∀ m ∈ selected.dropLast, (attempts m).Purges := by
  have ⟨ordered, hperm, _, htake⟩ := h
  have hids : (selected.map Matter.id).Nodup := by
    have hsub : (ordered.map Matter.id).Nodup := by
      rw [(hperm.map Matter.id).nodup_iff]
      exact db.ids.sublist (List.filter_sublist.map _)
    rw [htake]
    exact hsub.sublist ((List.take_sublist _ _).map _)
  cases selected with
  | nil =>
    refine iff_of_true ⟨rfl, committed_nil db, fun hne => absurd rfl hne, rfl⟩ ?_
    simp
  | cons m rest =>
    have ⟨printed, heq⟩ := @sweep_eq_purgeAll isoformat attempts today limit db _ (List.cons_ne_nil m rest)
    have hreturns := @snd_purgeAll_iff isoformat attempts { db := db, stdout := printed } (m :: rest) rfl
    rw [heq]
    cases hloop : purgeAll isoformat attempts (m :: rest) { db := db, stdout := printed } with
    | mk s done =>
      rw [hloop] at hreturns
      rw [← hreturns]
      cases done with
      | false =>
        refine iff_of_false (fun hisolated => ?_) Bool.false_ne_true
        exact absurd hisolated.returned (by simp)
      | true =>
        refine iff_of_true ?_ rfl
        have hcompleted := @completed_purgeAll isoformat attempts (m :: rest) { db := db, stdout := printed } rfl
          hids (hreturns.mp rfl)
        rw [hloop] at hcompleted
        have hpurged := hcompleted.purged
        have hfailed := hcompleted.failed
        rw [Nat.zero_add] at hpurged hfailed
        refine ⟨by simpa using hcompleted.attempted, hcompleted.committed, fun _ => ⟨s.stdout, ?_⟩, ?_⟩
        . rw [← hpurged, ← hfailed]
        . have hzero : s.failed = 0 ↔ ∀ other ∈ m :: rest, (attempts other).Purges := by
            rw [hfailed, List.countP_eq_zero]
            simp only [decide_eq_true_eq, not_not]
          exact congrArg some (if_congr hzero rfl rfl)

end Isolated

section Examples

def lapsed (id : Fin 9) (day : Date) : Matter where
  id := ⟨id.val, by omega⟩
  slug := py "smith-v-jones"
  title := py "Smith v Jones"
  retentionUntil := some day
  status := py "open"

def twoLapsed : Database where
  matters := [lapsed 1 5, lapsed 2 7]
  ids := by decide
  grants := GrantTable.empty
  audit := []

theorem selectsExpired_twoLapsed : SelectsExpired 9 none twoLapsed [lapsed 1 5, lapsed 2 7] :=
  ⟨[lapsed 1 5, lapsed 2 7], List.Perm.refl _, by simp [Matter.retentionLE, lapsed], rfl⟩

/--
The job of the first matter is still running.
-/
def firstBusy (m : Matter) : Attempt :=
  if m.id = (lapsed 1 5).id then { activeCount := 1 } else {}

/--
After a matter with a running job, the sweep raises before it tries the next one.
-/
theorem sweep_firstBusy_not_isolated
    : SelectsExpired 9 none twoLapsed [lapsed 1 5, lapsed 2 7] ∧ (firstBusy (lapsed 2 7)).Purges
        ∧ (sweep pyNat 9 firstBusy true none [lapsed 1 5, lapsed 2 7] twoLapsed).exitCode = none
        ∧ (lapsed 2 7).id ∉ (sweep pyNat 9 firstBusy true none [lapsed 1 5, lapsed 2 7] twoLapsed).loop.attempted
        ∧ ¬ Isolated pyNat firstBusy twoLapsed [lapsed 1 5, lapsed 2 7]
          (sweep pyNat 9 firstBusy true none [lapsed 1 5, lapsed 2 7] twoLapsed) := by
  refine ⟨selectsExpired_twoLapsed, by decide, by decide +kernel, by decide +kernel, fun h => ?_⟩
  have hreturned := h.returned
  revert hreturned
  decide +kernel

theorem sweep_isolated_iff_twoLapsed
    : Isolated pyNat (fun _ => {}) twoLapsed [lapsed 1 5, lapsed 2 7]
          (sweep pyNat 9 (fun _ => {}) true none [lapsed 1 5, lapsed 2 7] twoLapsed)
        ↔ ∀ m ∈ [lapsed 1 5, lapsed 2 7].dropLast, Attempt.Purges {} :=
  sweep_isolated_iff selectsExpired_twoLapsed

end Examples

end RetentionSweep
