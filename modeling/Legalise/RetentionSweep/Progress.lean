import Legalise.Lib.Sweep
import Legalise.RetentionSweep.Isolation

/-!
This module contains sweeps with a limit that are repeated, and when they purge every matter that can be purged.
-/

namespace RetentionSweep

open Capabilities (GrantTable)

variable {isoformat : Date → PyStr} {today : Date}

section Run

variable {attempts : Matter → Attempt}

/--
A sweep purges the matters before the first one that fails.
-/
theorem committed_purgeAll {selected : List Matter} {s : Loop} (hexpired : s.expired = false)
    (hids : (selected.map Matter.id).Nodup)
    : Committed isoformat attempts s.db (selected.takeWhile fun m => (attempts m).Purges)
          (purgeAll isoformat attempts selected s).fst.db
        ∧ (purgeAll isoformat attempts selected s).fst.purged
          = s.purged + (selected.takeWhile fun m => (attempts m).Purges).length := by
  induction selected generalizing s with
  | nil => exact ⟨committed_nil s.db, rfl⟩
  | cons m rest ih =>
    rw [List.map_cons, List.nodup_cons] at hids
    rw [purgeAll_cons hexpired]
    by_cases hpurges : (attempts m).Purges
    . have ⟨after, hpurged, heq⟩ := @attempt_of_purges isoformat attempts m s hpurges
      have ⟨hcommitted, hcount⟩ := @ih (s.attempt isoformat (attempts m) m) (by rw [heq]; exact hexpired) hids.right
      rw [heq] at hcommitted hcount ⊢
      rw [List.takeWhile_cons_of_pos (by simpa using hpurges)]
      refine ⟨hpurged.cons (fun hmem => hids.left ?_) hcommitted, ?_⟩
      . exact ((List.takeWhile_sublist _).map Matter.id).subset hmem
      . rw [hcount, List.length_cons]
        show s.purged + 1 + _ = s.purged + (_ + 1)
        omega
    . have ⟨stderr, heq⟩ := @attempt_of_not_purges isoformat attempts m s hpurges
      rw [heq, purgeAll_of_expired rfl, List.takeWhile_cons_of_neg (by simpa using hpurges)]
      exact ⟨committed_nil s.db, rfl⟩

theorem committed_sweep {limit : Option Nat} {db : Database} {selected : List Matter}
    (hids : (selected.map Matter.id).Nodup)
    : Committed isoformat attempts db (selected.takeWhile fun m => (attempts m).Purges)
          (sweep isoformat today attempts true limit selected db).loop.db
        ∧ (sweep isoformat today attempts true limit selected db).loop.purged
          = (selected.takeWhile fun m => (attempts m).Purges).length := by
  cases selected with
  | nil => exact ⟨committed_nil db, rfl⟩
  | cons m rest =>
    have ⟨printed, heq⟩ := @sweep_eq_purgeAll isoformat attempts today limit db _ (List.cons_ne_nil m rest)
    have hcommitted := @committed_purgeAll isoformat attempts (m :: rest) { db := db, stdout := printed } rfl hids
    rw [heq]
    cases hloop : purgeAll isoformat attempts (m :: rest) { db := db, stdout := printed } with
    | mk s done =>
      rw [hloop, Nat.zero_add] at hcommitted
      cases done <;> exact hcommitted

def expired (today : Date) (db : Database) : List Matter :=
  db.matters.filter (Matter.isExpired today)

theorem nodup_expired (db : Database) : ((expired today db).map Matter.id).Nodup :=
  db.ids.sublist (List.filter_sublist.map _)

theorem Committed.expired {db after : Database} {ms : List Matter} (h : Committed isoformat attempts db ms after)
    : expired today after = (expired today db).filter fun m => m.id ∉ ms.map Matter.id := by
  unfold RetentionSweep.expired
  rw [h.matters, List.filter_map, List.filter_filter]
  have hmap (m : Matter) (hm : m.id ∉ ms.map Matter.id)
      : (if m.id ∈ ms.map Matter.id then m.archive else m) = m := if_neg hm
  have hfilter : db.matters.filter (Matter.isExpired today ∘ fun m => if m.id ∈ ms.map Matter.id then m.archive else m)
      = db.matters.filter fun m => decide (m.id ∉ ms.map Matter.id) && Matter.isExpired today m := by
    apply List.filter_congr
    intro m _
    rw [Function.comp_apply]
    by_cases hm : m.id ∈ ms.map Matter.id
    . have harchived : Matter.isExpired today m.archive = false := by
        simp [Matter.isExpired, Matter.archive]
      rw [if_pos hm, harchived, decide_eq_false (not_not.mpr hm), Bool.false_and]
    . rw [if_neg hm, decide_eq_true hm, Bool.true_and]
  rw [hfilter]
  conv => rhs; rw [← List.map_id (List.filter _ _)]
  apply List.map_congr_left
  intro m hm
  have hnot := (List.mem_filter.mp hm).right
  rw [Bool.and_eq_true, decide_eq_true_eq] at hnot
  exact hmap m hnot.left

end Run

section Campaign

variable (isoformat today)

/--
A run of `_sweep(apply=True, limit=limit)`.
-/
def Sweeps (attempts : Matter → Attempt) (limit : Nat) (db : Database) (swept : Swept) : Prop :=
  ∃ selected, SelectsExpired today (some limit) db selected
    ∧ swept = sweep isoformat today attempts true (some limit) selected db

/--
The database before each of a sequence of runs.
-/
def before (db : Database) (swept : Nat → Swept) : Nat → Database
  | 0 => db
  | k + 1 => (swept k).loop.db

variable (attempts : Nat → Matter → Attempt) (purgeable : Uuid → Bool)

/--
The matters past their retention date that can be purged.
-/
def remaining (db : Database) : Nat :=
  (expired today db).countP fun m => purgeable m.id

/--
Runs with a limit make progress: however they order matters with the same date, each of them purges as many as
it may, and after finitely many of them every matter that can be purged is.
-/
def Progresses (limit : Nat) (db : Database) : Prop :=
  ∀ swept : Nat → Swept, (∀ k, Sweeps isoformat today (attempts k) limit (before db swept k) (swept k))
    → (∀ k, (swept k).loop.purged = min limit (remaining today purgeable (before db swept k)))
      ∧ ∃ k, remaining today purgeable (before db swept k) = 0

/--
Every matter that can be purged has an earlier retention date than every one that cannot.
-/
def PurgeableFirst (db : Database) : Prop :=
  ∀ m ∈ expired today db, ∀ other ∈ expired today db, purgeable m.id = true → purgeable other.id = false
    → m.retentionUntil.getD 0 < other.retentionUntil.getD 0

variable {isoformat today attempts purgeable}

/--
A run purges the matters before the first one that fails, within the limit.
-/
theorem expired_sweep {attempts : Matter → Attempt} (hfixed : ∀ m, (attempts m).Purges ↔ purgeable m.id = true)
    (limit : Nat) {db : Database} {ordered : List Matter} (hperm : ordered.Perm (expired today db))
    : (sweep isoformat today attempts true (some limit) (ordered.take limit) db).loop.purged
          = ((ordered.takeWhile fun m => purgeable m.id).take limit).length
        ∧ expired today (sweep isoformat today attempts true (some limit) (ordered.take limit) db).loop.db
          = (expired today db).filter fun m =>
            m.id ∉ ((ordered.takeWhile fun m => purgeable m.id).take limit).map Matter.id := by
  have hids : ((ordered.take limit).map Matter.id).Nodup := by
    have hordered : (ordered.map Matter.id).Nodup := by
      rw [(hperm.map Matter.id).nodup_iff]
      exact nodup_expired db
    exact hordered.sublist ((List.take_sublist _ _).map _)
  have hpurges : (fun m => decide (attempts m).Purges) = fun m : Matter => purgeable m.id := by
    funext m
    rw [Bool.eq_iff_iff, decide_eq_true_eq]
    exact hfixed m
  have ⟨hcommitted, hcount⟩ := @committed_sweep isoformat today attempts (some limit) db _ hids
  have hdone : ((ordered.take limit).takeWhile fun m => (attempts m).Purges)
      = (ordered.takeWhile fun m => purgeable m.id).take limit := by
    rw [hpurges, List.take_takeWhile]
  rw [hdone] at hcommitted hcount
  exact ⟨hcount, hcommitted.expired⟩

theorem takeWhile_eq_filter {α : Type} {p : α → Bool} {l : List α} (h : l.Pairwise fun a b => p b = true → p a = true)
    : l.takeWhile p = l.filter p := by
  induction l with
  | nil => rfl
  | cons a l ih =>
    rw [List.pairwise_cons] at h
    cases ha : p a with
    | true => rw [List.takeWhile_cons_of_pos ha, List.filter_cons_of_pos ha, ih h.right]
    | false =>
      have hnone : l.filter p = [] := by
        rw [List.filter_eq_nil_iff]
        intro b hb hpb
        simp [h.left b hb hpb] at ha
      rw [List.takeWhile_cons_of_neg (by simp [ha]), List.filter_cons_of_neg (by simp [ha]), hnone]

theorem filter_notMem_take {ms : List Matter} (hids : (ms.map Matter.id).Nodup) (n : Nat)
    : ms.filter (fun m => m.id ∉ (ms.take n).map Matter.id) = ms.drop n := by
  have hsplit := List.take_append_drop n ms
  have hdisjoint : ∀ m ∈ ms.drop n, m.id ∉ (ms.take n).map Matter.id := by
    rw [← hsplit, List.map_append, List.nodup_append] at hids
    intro m hm hmem
    exact hids.right.right _ hmem _ (List.mem_map_of_mem hm) rfl
  conv => lhs; arg 2; rw [← hsplit]
  rw [List.filter_append]
  have htake : (ms.take n).filter (fun m => m.id ∉ (ms.take n).map Matter.id) = [] := by
    rw [List.filter_eq_nil_iff]
    intro m hm
    rw [decide_eq_true_eq, not_not]
    exact List.mem_map_of_mem hm
  have hdrop : (ms.drop n).filter (fun m => m.id ∉ (ms.take n).map Matter.id) = ms.drop n := by
    rw [List.filter_eq_self]
    intro m hm
    simpa using hdisjoint m hm
  rw [htake, hdrop, List.nil_append]

theorem PurgeableFirst.mono {db after : Database} (h : PurgeableFirst today purgeable db)
    (hsub : expired today after ⊆ expired today db) : PurgeableFirst today purgeable after :=
  fun m hm other hother => h m (hsub hm) other (hsub hother)

/--
While every matter that can be purged comes first, a run purges as many of them as it may.
-/
theorem PurgeableFirst.sweeps {attempts : Matter → Attempt} {limit : Nat} {db : Database} {swept : Swept}
    (h : PurgeableFirst today purgeable db) (hfixed : ∀ m, (attempts m).Purges ↔ purgeable m.id = true)
    (hsweeps : Sweeps isoformat today attempts limit db swept)
    : swept.loop.purged = min limit (remaining today purgeable db)
        ∧ remaining today purgeable swept.loop.db = remaining today purgeable db - limit
        ∧ expired today swept.loop.db ⊆ expired today db := by
  have ⟨selected, ⟨ordered, hperm, hsorted, hselected⟩, heq⟩ := hsweeps
  have ⟨hpurged, hexpired⟩ := @expired_sweep isoformat today purgeable attempts hfixed limit db ordered hperm
  rw [Option.getD_some] at hselected
  rw [← hselected, ← heq] at hpurged hexpired
  change ordered.Perm (expired today db) at hperm
  have hfirst : (ordered.takeWhile fun m => purgeable m.id) = ordered.filter fun m => purgeable m.id := by
    apply takeWhile_eq_filter
    apply hsorted.imp_of_mem
    intro m other hm hother hle hpurgeable
    by_contra hfails
    have := h other (hperm.subset hother) m (hperm.subset hm) hpurgeable (by simpa using hfails)
    exact absurd this (Nat.not_lt.mpr hle)
  have hcount : remaining today purgeable db = (ordered.filter fun m => purgeable m.id).length := by
    unfold remaining
    rw [← hperm.countP_eq, List.countP_eq_length_filter]
  have hids : ((ordered.filter fun m => purgeable m.id).map Matter.id).Nodup := by
    have hordered : (ordered.map Matter.id).Nodup := by
      rw [(hperm.map Matter.id).nodup_iff]
      exact nodup_expired db
    exact hordered.sublist (List.filter_sublist.map _)
  rw [hfirst] at hpurged hexpired
  refine ⟨?_, ?_, ?_⟩
  . rw [hpurged, List.length_take, hcount]
  . have hafter : remaining today purgeable swept.loop.db
        = ((ordered.filter fun m => purgeable m.id).filter fun m =>
          m.id ∉ ((ordered.filter fun m => purgeable m.id).take limit).map Matter.id).length := by
      unfold remaining
      rw [hexpired, ← (hperm.filter _).countP_eq, List.countP_eq_length_filter, List.filter_filter, List.filter_filter]
      congr 1
      apply List.filter_congr
      intro m _
      rw [Bool.and_comm]
    rw [hafter, filter_notMem_take hids, List.length_drop, hcount]
  . rw [hexpired]
    exact fun _ hm => List.mem_of_mem_filter hm

theorem PurgeableFirst.progresses {limit : Nat} {db : Database} (h : PurgeableFirst today purgeable db)
    (hfixed : ∀ k m, (attempts k m).Purges ↔ purgeable m.id = true) (hlimit : 0 < limit)
    : Progresses isoformat today attempts purgeable limit db := by
  intro swept hruns
  have hfirst (k : Nat) : PurgeableFirst today purgeable (before db swept k) := by
    induction k with
    | zero => exact h
    | succ k ih => exact ih.mono (ih.sweeps (hfixed k) (hruns k)).right.right
  have hrun (k : Nat) := (hfirst k).sweeps (hfixed k) (hruns k)
  have hleft (k : Nat) : remaining today purgeable (before db swept k) ≤ remaining today purgeable db - k := by
    induction k with
    | zero => exact le_refl _
    | succ k ih =>
      have := (hrun k).right.left
      show remaining today purgeable (swept k).loop.db ≤ _
      omega
  refine ⟨fun k => (hrun k).left, remaining today purgeable db, ?_⟩
  have := hleft (remaining today purgeable db)
  omega

/--
A sequence of runs in which the database puts matters that fail before others with the same date.
-/
def failingFirst (purgeable : Uuid → Bool) (m : Matter) : ℕ ×ₗ ℕ :=
  toLex (m.retentionUntil.getD 0, if purgeable m.id then 1 else 0)

variable (isoformat today attempts purgeable) in
/--
The run with this order.
-/
def run (limit : Nat) (k : Nat) (db : Database) : Swept :=
  sweep isoformat today (attempts k) true (some limit)
    ((Sweep.sortBy (failingFirst purgeable) (expired today db)).take limit) db

variable (isoformat today attempts purgeable) in
/--
The database before each of these runs.
-/
def databaseAt (limit : Nat) (db : Database) : Nat → Database
  | 0 => db
  | k + 1 => (run isoformat today attempts purgeable limit k (databaseAt limit db k)).loop.db

theorem selectsExpired_sortBy (limit : Nat) (db : Database)
    : SelectsExpired today (some limit) db
        ((Sweep.sortBy (failingFirst purgeable) (expired today db)).take limit) := by
  refine ⟨_, Sweep.perm_sortBy _, (Sweep.pairwise_sortBy _).imp ?_, rfl⟩
  intro m other hle
  rw [failingFirst, failingFirst, Prod.Lex.toLex_le_toLex] at hle
  rcases hle with hlt | ⟨heq, _⟩
  . exact le_of_lt hlt
  . exact le_of_eq heq

/--
A matter that fails keeps its place in front of one that could be purged.
-/
theorem mem_expired_run {m other : Matter} {limit k : Nat} {db : Database}
    (hfixed : ∀ m, (attempts k m).Purges ↔ purgeable m.id = true)
    (hm : m ∈ expired today db) (hother : other ∈ expired today db) (hfails : purgeable other.id = false)
    (hbefore : failingFirst purgeable other < failingFirst purgeable m)
    : m ∈ expired today (run isoformat today attempts purgeable limit k db).loop.db
        ∧ other ∈ expired today (run isoformat today attempts purgeable limit k db).loop.db := by
  have hperm : (Sweep.sortBy (failingFirst purgeable) (expired today db)).Perm (expired today db) :=
    Sweep.perm_sortBy _
  have hsorted := @Sweep.pairwise_sortBy Matter _ _ (failingFirst purgeable) (expired today db)
  have hexpired : expired today (run isoformat today attempts purgeable limit k db).loop.db = _ :=
    (expired_sweep hfixed limit hperm).right
  generalize Sweep.sortBy (failingFirst purgeable) (expired today db) = ordered at hperm hsorted hexpired
  -- A matter is only purged if all before it can be purged.
  have hkept {x : Matter} (hx : x ∈ expired today db)
      (hnot : x ∉ ordered.takeWhile fun m => purgeable m.id)
      : x ∈ expired today (run isoformat today attempts purgeable limit k db).loop.db := by
    rw [hexpired, List.mem_filter, decide_eq_true_eq]
    refine ⟨hx, fun hmem => ?_⟩
    have ⟨y, hy, hid⟩ := List.mem_map.mp hmem
    have hy := List.mem_of_mem_take hy
    have hordered := hperm.subset ((List.takeWhile_sublist _).subset hy)
    rw [List.inj_on_of_nodup_map (nodup_expired db) hordered hx hid] at hy
    exact hnot hy
  have hnotOther : other ∉ ordered.takeWhile fun m => purgeable m.id := by
    intro hmem
    have := List.mem_takeWhile_imp hmem
    simp [hfails] at this
  refine ⟨hkept hm fun hmem => ?_, hkept hother hnotOther⟩
  have hdrop : other ∈ ordered.dropWhile fun m => purgeable m.id := by
    have hmemOther := hperm.mem_iff.mpr hother
    rw [← @List.takeWhile_append_dropWhile _ (fun m => purgeable m.id) ordered, List.mem_append] at hmemOther
    exact hmemOther.resolve_left hnotOther
  rw [← @List.takeWhile_append_dropWhile _ (fun m => purgeable m.id) ordered, List.pairwise_append] at hsorted
  exact absurd hbefore (not_lt.mpr (hsorted.right.right m hmem other hdrop))

theorem not_progresses_of_failingFirst {limit : Nat} {db : Database} {m other : Matter}
    (hfixed : ∀ k m, (attempts k m).Purges ↔ purgeable m.id = true)
    (hm : m ∈ expired today db) (hother : other ∈ expired today db) (hpurgeable : purgeable m.id = true)
    (hfails : purgeable other.id = false) (hbefore : failingFirst purgeable other < failingFirst purgeable m)
    : ¬ Progresses isoformat today attempts purgeable limit db := by
  intro hprogresses
  have hat (k : Nat) : m ∈ expired today (databaseAt isoformat today attempts purgeable limit db k)
      ∧ other ∈ expired today (databaseAt isoformat today attempts purgeable limit db k) := by
    induction k with
    | zero => exact ⟨hm, hother⟩
    | succ k ih => exact mem_expired_run (hfixed k) ih.left ih.right hfails hbefore
  have hbeforeAt (k : Nat)
      : before db (fun k => run isoformat today attempts purgeable limit k
          (databaseAt isoformat today attempts purgeable limit db k)) k
        = databaseAt isoformat today attempts purgeable limit db k := by
    cases k <;> rfl
  have ⟨_, k, hnone⟩ := hprogresses
    (fun k => run isoformat today attempts purgeable limit k
      (databaseAt isoformat today attempts purgeable limit db k))
    (fun k => by rw [hbeforeAt]; exact ⟨_, selectsExpired_sortBy _ _, rfl⟩)
  rw [hbeforeAt, remaining, List.countP_eq_zero] at hnone
  exact hnone m (hat k).left hpurgeable

/--
Repeated sweeps with a limit make progress, if and only if every matter that can be purged has an earlier
retention date than every one that cannot.
-/
theorem progresses_iff {limit : Nat} (hlimit : 0 < limit) {db : Database}
    (hfixed : ∀ k m, (attempts k m).Purges ↔ purgeable m.id = true)
    : Progresses isoformat today attempts purgeable limit db ↔ PurgeableFirst today purgeable db := by
  constructor
  . intro hprogresses m hm other hother hpurgeable hfails
    by_contra hnot
    refine not_progresses_of_failingFirst hfixed hm hother hpurgeable hfails ?_ hprogresses
    rw [failingFirst, failingFirst, hpurgeable, hfails, Prod.Lex.toLex_lt_toLex]
    rcases Nat.lt_or_eq_of_le (Nat.not_lt.mp hnot) with hlt | heq
    . exact .inl hlt
    . exact .inr ⟨heq, Nat.zero_lt_one⟩
  . exact fun h => h.progresses hfixed hlimit

end Campaign

section Examples

theorem purges_firstBusy_iff (m : Matter)
    : (firstBusy m).Purges ↔ decide (m.id ≠ (lapsed 1 5).id) = true := by
  unfold firstBusy
  split
  . next heq => simp [heq, Attempt.Purges]
  . next hne => simp [hne, Attempt.Purges]

/--
Each day, the job of the first matter is still running. With a limit of one, no run ever gets to the second.
-/
theorem firstBusy_not_progresses
    : (∀ m, (firstBusy m).Purges ↔ decide (m.id ≠ (lapsed 1 5).id) = true)
        ∧ lapsed 2 7 ∈ expired 9 twoLapsed ∧ (firstBusy (lapsed 2 7)).Purges
        ∧ ¬ Progresses pyNat 9 (fun _ => firstBusy) (fun id => id ≠ (lapsed 1 5).id) 1 twoLapsed := by
  refine ⟨purges_firstBusy_iff, by decide +kernel, by decide, ?_⟩
  apply @not_progresses_of_failingFirst _ _ _ _ 1 twoLapsed (lapsed 2 7) (lapsed 1 5)
  . exact fun _ m => purges_firstBusy_iff m
  all_goals decide +kernel

theorem progresses_iff_twoLapsed
    : Progresses pyNat 9 (fun _ _ => {}) (fun _ => true) 1 twoLapsed ↔ PurgeableFirst 9 (fun _ => true) twoLapsed :=
  progresses_iff Nat.one_pos (fun _ _ => by decide)

end Examples

end RetentionSweep
