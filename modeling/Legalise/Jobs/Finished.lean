import Legalise.Jobs.RunJob

/-!
This module contains what holds of a job whose deliveries do not overlap and do not start after its
end: its status follows the lifecycle, so that a finished job stays finished.
-/

namespace Jobs

open Transition

variable {E : Type}

/--
The job as the session of a delivery has loaded it.
-/
def Phase.loaded : Phase → Option Job
  | .selected loaded | .dispatching loaded | .piping loaded => some loaded
  | .idle | .started => none

/--
The position of a status in the lifecycle.
-/
def Status.rank : Status → Nat
  | .queued => 0
  | .running => 1
  | .succeeded | .failed | .cancelled => 2

theorem Status.active_iff_rank_lt (status : Status) : status.active = true ↔ status.rank < 2 := by
  cases status <;> decide

/--
The job is not finished, and no delivery is between its first commit and its last one.
-/
def State.Free (s : State E) : Prop :=
  s.row.status.active = true ∧ ∀ d, (s.deliveries d).inProgress = false

/--
Deliveries make their first commit, and the request records a failed push, only while no delivery is in
progress and the job is not finished.
-/
def Undisturbed (s : State E) : Event E → Prop
  | .begin _ _ _ => s.Free
  | .pushFailed _ _ => s.Free
  | _ => True

def Step (s t : State E) : Prop :=
  ∃ e, step s e = some t

def UndisturbedStep (s t : State E) : Prop :=
  ∃ e, Undisturbed s e ∧ step s e = some t

def Created (s : State E) : Prop :=
  ∃ id matterId createdById kind inputPayload,
    s = State.created id matterId createdById kind inputPayload

/--
What is left of the claim about one state: a job that is not finished has left no trace of an end, and
no job ends twice.
-/
structure EndsOnce (s : State E) : Prop where
  active : s.row.status.active = true → s.closingRows = [] ∧ s.effects = []
  rows : s.closingRows.length ≤ 1
  effects : s.effects.length ≤ 1

/--
At most one delivery is in progress, and it has taken the job to `running`. No session has loaded a
status that is ahead of the committed one.
-/
structure Inv (s : State E) : Prop where
  exclusive : ∀ d d', (s.deliveries d).inProgress = true → (s.deliveries d').inProgress = true → d = d'
  running : ∀ d, (s.deliveries d).inProgress = true → s.row.status = .running
  kind : ∀ d, ∀ job ∈ (s.deliveries d).loaded, job.kind = s.row.kind
  rank : ∀ d, ∀ job ∈ (s.deliveries d).loaded, job.status.rank ≤ s.row.status.rank
  loaded : ∀ d, (s.deliveries d).inProgress = true →
    ∀ job ∈ (s.deliveries d).loaded, job.status = .running
  api : ∀ job, s.api = .enqueueing job → job.kind = s.row.kind ∧ job.status = .queued
  endsOnce : EndsOnce s

section Commit

variable {s t : State E} {now : Timestamp} {job : Job} {status : Status} {details : Details}
  {effects : List E}

@[simp]
theorem written_self {α : Type} [DecidableEq α] (loaded stored : α)
    : written loaded loaded stored = stored := by
  simp [written]

@[simp]
theorem kind_commit (row job current : Job) : (row.commit job current).kind = row.kind := rfl

@[simp]
theorem status_commit (row job current : Job)
    : (row.commit job current).status = written job.status current.status row.status := rfl

@[simp]
theorem status_updateStatus : (updateStatus now job status details).fst.status = status := rfl

@[simp]
theorem action_updateStatus
    : (updateStatus now job status details).snd.action
        = (job.log status.actionSuffix []).action := rfl

@[simp]
theorem status_updateStage (stage : PyStr) (progress : Option Int)
    : (updateStage job stage progress).status = job.status := rfl

@[simp]
theorem kind_updateStage (stage : PyStr) (progress : Option Int)
    : (updateStage job stage progress).kind = job.kind := rfl

theorem commitStatus_eq_some (h : s.commitStatus now job status details effects = some t)
    : t = {
        s with
        row := s.row.commit job (updateStatus now job status details).fst
        audit := s.audit ++ [(updateStatus now job status details).snd]
        effects := s.effects ++ effects
      } := by
  unfold State.commitStatus at h
  split at h
  . exact (Option.some.inj h).symm
  . contradiction

/--
The actions of the rows that a job's deliveries write differ in their last part only.
-/
theorem action_log_eq_iff {a b : Job} (hkind : a.kind = b.kind) (p q : PyStr)
    : (a.log p []).action = (b.log q []).action ↔ p = q := by
  simp [Job.log, moduleName, hkind]

/--
A commit that sets a status adds a closing row exactly if the status is one of an end.
-/
theorem closingRows_commitStatus (h : s.commitStatus now job status details effects = some t)
    (hkind : job.kind = s.row.kind)
    : t.closingRows.length
        = s.closingRows.length + if status = .succeeded ∨ status = .failed then 1 else 0 := by
  have hentry (suffix : PyStr)
      : ((job.log status.actionSuffix []).action = (s.row.log suffix []).action)
        ↔ status.actionSuffix = suffix := action_log_eq_iff hkind _ _
  have hsuffix : (status.actionSuffix = py "completed" ∨ status.actionSuffix = py "failed")
      ↔ status = .succeeded ∨ status = .failed := by
    cases status <;> decide
  rw [commitStatus_eq_some h]
  unfold State.closingRows
  simp only [List.filter_append, List.length_append, List.filter_cons, List.filter_nil]
  have hlog (suffix : PyStr)
      : ((s.row.commit job (updateStatus now job status details).fst).log suffix []).action
        = (s.row.log suffix []).action := rfl
  simp only [hlog, action_updateStatus, hentry, ← Bool.decide_or, hsuffix, decide_eq_true_eq]
  split <;> rfl

end Commit

section Preservation

variable {s t : State E} {d : Nat}

theorem inProgress_setPhase_iff (phase : Phase) (d' : Nat)
    : ((s.setPhase d phase).deliveries d').inProgress = true
        ↔ (d' = d ∧ phase.inProgress = true)
          ∨ (d' ≠ d ∧ (s.deliveries d').inProgress = true) := by
  unfold State.setPhase
  by_cases h : d' = d
  . subst h
    simp
  . simp [h]

theorem mem_loaded_setPhase_iff (phase : Phase) (d' : Nat) (job : Job)
    : job ∈ ((s.setPhase d phase).deliveries d').loaded
        ↔ (d' = d ∧ job ∈ phase.loaded) ∨ (d' ≠ d ∧ job ∈ (s.deliveries d').loaded) := by
  unfold State.setPhase
  by_cases h : d' = d
  . subst h
    simp
  . simp [h]

/--
A delivery may move on without a commit, as far as it was in progress before.
-/
theorem Inv.setPhase (h : Inv s) {phase : Phase}
    (hprogress : phase.inProgress = true → (s.deliveries d).inProgress = true)
    (hloaded : ∀ job ∈ phase.loaded, job = s.row) : Inv (s.setPhase d phase) where
  exclusive a b ha hb := by
    have hold (x : Nat) (hx : ((s.setPhase d phase).deliveries x).inProgress = true)
        : (s.deliveries x).inProgress = true := by
      cases (inProgress_setPhase_iff phase x).mp hx with
      | inl hx => exact hx.left ▸ hprogress hx.right
      | inr hx => exact hx.right
    exact h.exclusive a b (hold a ha) (hold b hb)
  running a ha := by
    cases (inProgress_setPhase_iff phase a).mp ha with
    | inl ha => exact h.running d (hprogress ha.right)
    | inr ha => exact h.running a ha.right
  kind a job hjob := by
    cases (mem_loaded_setPhase_iff phase a job).mp hjob with
    | inl hjob => rw [hloaded job hjob.right]; rfl
    | inr hjob => exact h.kind a job hjob.right
  rank a job hjob := by
    cases (mem_loaded_setPhase_iff phase a job).mp hjob with
    | inl hjob => rw [hloaded job hjob.right]; exact le_refl _
    | inr hjob => exact h.rank a job hjob.right
  loaded a ha job hjob := by
    cases (inProgress_setPhase_iff phase a).mp ha with
    | inl ha =>
      cases (mem_loaded_setPhase_iff phase a job).mp hjob with
      | inl hjob => exact hloaded job hjob.right ▸ h.running d (hprogress ha.right)
      | inr hjob => exact absurd ha.left hjob.left
    | inr ha =>
      cases (mem_loaded_setPhase_iff phase a job).mp hjob with
      | inl hjob => exact absurd hjob.left ha.left
      | inr hjob => exact h.loaded a ha.right job hjob.right
  api := h.api
  endsOnce := ⟨h.endsOnce.active, h.endsOnce.rows, h.endsOnce.effects⟩

/--
A commit that ends an unfinished job while nobody is in progress. The session has not loaded a finished
status, so the status is written.
-/
theorem Inv.close {now : Timestamp} {job : Job} {status : Status} {details : Details}
    {effects : List E} (h : Inv s) (hfree : s.Free) (hkind : job.kind = s.row.kind)
    (hrank : job.status.rank ≤ s.row.status.rank)
    (hstatus : status = .succeeded ∨ status = .failed) (heffects : effects.length ≤ 1)
    (hcommit : s.commitStatus now job status details effects = some t) : Inv t := by
  have hactive := (Status.active_iff_rank_lt _).mp hfree.left
  have hended : status.rank = 2 := by
    cases hstatus with
    | inl hstatus => rw [hstatus]; rfl
    | inr hstatus => rw [hstatus]; rfl
  have hne : status ≠ job.status := by
    intro heq
    rw [← heq] at hrank
    omega
  have hclosing := closingRows_commitStatus hcommit hkind
  have ht := commitStatus_eq_some hcommit
  have hrow : t.row.status = status := by
    rw [ht]
    simp [written, hne]
  have ⟨hrows, hempty⟩ := h.endsOnce.active hfree.left
  have hidle (d : Nat) : ¬ (t.deliveries d).inProgress = true := by
    rw [ht]
    simp [hfree.right d]
  constructor
  . exact fun a _ ha => absurd ha (hidle a)
  . exact fun a ha => absurd ha (hidle a)
  . intro a job hjob
    rw [ht] at hjob ⊢
    exact h.kind a job hjob
  . intro a job hjob
    rw [hrow, hended]
    rw [ht] at hjob
    exact le_trans (h.rank a job hjob) (by omega)
  . exact fun a ha => absurd ha (hidle a)
  . intro job hjob
    rw [ht] at hjob ⊢
    exact h.api job hjob
  . constructor
    . intro hagain
      rw [hrow, Status.active_iff_rank_lt] at hagain
      omega
    . rw [hclosing, hrows, if_pos hstatus]
      simp
    . rw [ht]
      simpa [hempty] using heffects

/--
The first commit of a delivery that finds its matter.
-/
theorem Inv.begin {now : Timestamp} {job : Job} (h : Inv s) (hfree : s.Free)
    (hloaded : s.deliveries d = .selected job)
    (hcommit : (s.setPhase d .started).commitStatus now job .running {} [] = some t) : Inv t := by
  have hmem : job ∈ (s.deliveries d).loaded := by rw [hloaded]; rfl
  have hactive := (Status.active_iff_rank_lt _).mp hfree.left
  have hrank := h.rank d job hmem
  have hclosing := closingRows_commitStatus hcommit (h.kind d job hmem)
  have ht := commitStatus_eq_some hcommit
  have hrow : t.row.status = .running := by
    rw [ht]
    show written job.status .running s.row.status = .running
    unfold written
    split
    . next heq =>
      rw [← heq] at hrank
      revert hactive hrank
      cases s.row.status <;> decide
    . rfl
  have hbefore : s.row.status.rank ≤ 1 := by omega
  have hdeliveries : t.deliveries = (s.setPhase d .started).deliveries := by rw [ht]
  have hprogress (a : Nat) (ha : (t.deliveries a).inProgress = true) : a = d := by
    rw [hdeliveries, inProgress_setPhase_iff] at ha
    cases ha with
    | inl ha => exact ha.left
    | inr ha => simp [hfree.right a] at ha
  have hsession (a : Nat) (other : Job) (hother : other ∈ (t.deliveries a).loaded)
      : a ≠ d ∧ other ∈ (s.deliveries a).loaded := by
    rw [hdeliveries, mem_loaded_setPhase_iff] at hother
    cases hother with
    | inl hother => simp [Phase.loaded] at hother
    | inr hother => exact hother
  have hkind : t.row.kind = s.row.kind := by rw [ht]; rfl
  constructor
  . exact fun a b ha hb => (hprogress a ha).trans (hprogress b hb).symm
  . exact fun _ _ => hrow
  . exact fun a other hother => hkind ▸ h.kind a other (hsession a other hother).right
  . intro a other hother
    rw [hrow]
    exact le_trans (h.rank a other (hsession a other hother).right) hbefore
  . exact fun a ha other hother => absurd (hprogress a ha) (hsession a other hother).left
  . intro other hother
    rw [hkind]
    rw [ht] at hother
    exact h.api other hother
  . have hempty : t.effects = [] := by
      rw [ht]
      simpa [State.setPhase] using (h.endsOnce.active hfree.left).right
    have hnone : t.closingRows = [] := by
      rw [← List.length_eq_zero_iff, hclosing]
      have : (s.setPhase d .started).closingRows = s.closingRows := rfl
      rw [this, (h.endsOnce.active hfree.left).left]
      rfl
    exact ⟨fun _ => ⟨hnone, hempty⟩, by simp [hnone], by simp [hempty]⟩

/--
A delivery in progress leaves the job free when it ends.
-/
theorem Inv.free_setPhase_idle (h : Inv s) (hprogress : (s.deliveries d).inProgress = true)
    : (s.setPhase d .idle).Free := by
  constructor
  . show s.row.status.active = true
    rw [h.running d hprogress]
    rfl
  . intro a
    rw [Bool.eq_false_iff]
    intro ha
    cases (inProgress_setPhase_iff .idle a).mp ha with
    | inl ha => simp [Phase.inProgress] at ha
    | inr ha => exact ha.left (h.exclusive a d ha.right hprogress)

theorem Inv.setPhase_idle (h : Inv s) (d : Nat) : Inv (s.setPhase d .idle) :=
  h.setPhase (by simp [Phase.inProgress]) (by simp [Phase.loaded])

/--
The last commit of a delivery in progress.
-/
theorem Inv.closeDelivery {now : Timestamp} {job : Job} {status : Status} {details : Details}
    {effects : List E} (h : Inv s) (hprogress : (s.deliveries d).inProgress = true)
    (hmem : job ∈ (s.deliveries d).loaded)
    (hstatus : status = .succeeded ∨ status = .failed) (heffects : effects.length ≤ 1)
    (hcommit : (s.setPhase d .idle).commitStatus now job status details effects = some t) : Inv t :=
  (h.setPhase_idle d).close (h.free_setPhase_idle hprogress) (h.kind d job hmem) (h.rank d job hmem)
    hstatus heffects hcommit

theorem Inv.failDelivery {now : Timestamp} {job : Job} {exc : PyStr} {effects : List E} (h : Inv s)
    (hprogress : (s.deliveries d).inProgress = true) (hmem : job ∈ (s.deliveries d).loaded)
    (heffects : effects.length ≤ 1) : Inv (s.failDelivery d now job exc effects) := by
  unfold State.failDelivery
  cases hcommit : State.commitStatus (s.setPhase d .idle) now job .failed
    { errorCode := some (py "pipeline_error"), errorMessage := some exc } effects with
  | none => exact h.setPhase_idle d
  | some t => exact h.closeDelivery hprogress hmem (.inr rfl) heffects hcommit

/--
The first commit of a pipeline changes the stage and the progress only.
-/
theorem Inv.stage {job : Job} {stage : PyStr} {progress : Option Int} (h : Inv s)
    (hloaded : s.deliveries d = .dispatching job)
    : Inv {
        s.setPhase d (.piping (updateStage job stage progress)) with
        row := s.row.commit job (updateStage job stage progress)
      } := by
  have hmem : job ∈ (s.deliveries d).loaded := by rw [hloaded]; rfl
  have hprogress : (s.deliveries d).inProgress = true := by rw [hloaded]; rfl
  have hold (a : Nat)
      (ha : ((s.setPhase d (.piping (updateStage job stage progress))).deliveries a).inProgress = true)
      : (s.deliveries a).inProgress = true := by
    cases (inProgress_setPhase_iff _ a).mp ha with
    | inl ha => exact ha.left ▸ hprogress
    | inr ha => exact ha.right
  -- What a session has loaded agrees in kind and status with what it had loaded before.
  have hsession (a : Nat) (other : Job)
      (hother : other ∈
        ((s.setPhase d (.piping (updateStage job stage progress))).deliveries a).loaded)
      : ∃ before ∈ (s.deliveries a).loaded,
          other.kind = before.kind ∧ other.status = before.status := by
    cases (mem_loaded_setPhase_iff _ a other).mp hother with
    | inl hother =>
      have heq : updateStage job stage progress = other := by
        simpa [Phase.loaded] using hother.right
      exact ⟨job, hother.left ▸ hmem, by rw [← heq]; rfl, by rw [← heq]; rfl⟩
    | inr hother => exact ⟨other, hother.right, rfl, rfl⟩
  have hstatus : (s.row.commit job (updateStage job stage progress)).status = s.row.status := by
    simp
  constructor
  . exact fun a b ha hb => h.exclusive a b (hold a ha) (hold b hb)
  . exact fun a ha => hstatus.trans (h.running a (hold a ha))
  . intro a other hother
    have ⟨before, hbefore, hkind, _⟩ := hsession a other hother
    exact hkind.trans (h.kind a before hbefore)
  . intro a other hother
    have ⟨before, hbefore, _, heq⟩ := hsession a other hother
    show other.status.rank ≤ (s.row.commit job (updateStage job stage progress)).status.rank
    rw [hstatus, heq]
    exact h.rank a before hbefore
  . intro a ha other hother
    have ⟨before, hbefore, _, heq⟩ := hsession a other hother
    rw [heq]
    exact h.loaded a (hold a ha) before hbefore
  . exact h.api
  . constructor
    . exact fun hactive => h.endsOnce.active (hstatus ▸ hactive)
    . exact h.endsOnce.rows
    . exact h.endsOnce.effects

/--
Every event that does not disturb the job keeps the invariant.
-/
theorem Inv.step (h : Inv s) {e : Event E} (he : Undisturbed s e)
    (hstep : Jobs.step s e = some t) : Inv t := by
  cases e with
  | deliver d visible =>
    simp only [Jobs.step] at hstep
    split at hstep
    . next hidle =>
      rw [Option.some.injEq] at hstep
      rw [← hstep]
      split
      . exact h.setPhase (by simp [Phase.inProgress]) (by simp [Phase.loaded])
      . exact h
    . contradiction
  | «begin» d now matterFound =>
    simp only [Jobs.step] at hstep
    split at hstep
    . next job hloaded =>
      have hmem : job ∈ (s.deliveries d).loaded := by rw [hloaded]; rfl
      split at hstep
      . exact h.begin he hloaded hstep
      . have hfree : (s.setPhase d .idle).Free := by
          refine ⟨he.left, fun a => ?_⟩
          rw [Bool.eq_false_iff, ne_eq, inProgress_setPhase_iff, he.right a]
          simp [Phase.inProgress]
        exact (h.setPhase_idle d).close hfree (h.kind d job hmem) (h.rank d job hmem) (.inr rfl)
          (by simp) hstep
    . contradiction
  | reselect d visible =>
    simp only [Jobs.step] at hstep
    split at hstep
    . next hstarted =>
      rw [Option.some.injEq] at hstep
      rw [← hstep]
      apply h.setPhase
      . intro _
        rw [hstarted]
        rfl
      . cases visible <;> simp [Phase.loaded]
    . contradiction
  | dispatch d now =>
    simp only [Jobs.step] at hstep
    split at hstep
    . next job hloaded =>
      have hmem : job ∈ (s.deliveries d).loaded := by rw [hloaded]; rfl
      split at hstep
      . rw [Option.some.injEq] at hstep
        rw [← hstep]
        exact h.stage hloaded
      . rw [Option.some.injEq] at hstep
        rw [← hstep]
        exact h.failDelivery (by rw [hloaded]; rfl) hmem (by simp)
    . contradiction
  | fail d now exc effect =>
    have heffect : effect.toList.length ≤ 1 := by cases effect <;> simp
    simp only [Jobs.step] at hstep
    split at hstep
    . next job hloaded =>
      rw [Option.some.injEq] at hstep
      rw [← hstep]
      exact h.failDelivery (by rw [hloaded]; rfl) (by rw [hloaded]; rfl) heffect
    . next job hloaded =>
      rw [Option.some.injEq] at hstep
      rw [← hstep]
      exact h.failDelivery (by rw [hloaded]; rfl) (by rw [hloaded]; rfl) heffect
    . contradiction
  | succeed d now resultPayload effect =>
    simp only [Jobs.step] at hstep
    split at hstep
    . next job hloaded =>
      exact h.closeDelivery (by rw [hloaded]; rfl) (by rw [hloaded]; rfl) (.inl rfl) (by simp) hstep
    . contradiction
  | crash d =>
    simp only [Jobs.step] at hstep
    rw [Option.some.injEq] at hstep
    exact hstep ▸ h.setPhase_idle d
  | pushed =>
    simp only [Jobs.step] at hstep
    split at hstep
    . rw [Option.some.injEq] at hstep
      rw [← hstep]
      exact ⟨h.exclusive, h.running, h.kind, h.rank, h.loaded, by simp,
        h.endsOnce.active, h.endsOnce.rows, h.endsOnce.effects⟩
    . contradiction
  | pushFailed now exc =>
    simp only [Jobs.step] at hstep
    split at hstep
    . next job hloaded =>
      have ⟨hkind, hqueued⟩ := h.api job hloaded
      have hinv : Inv { s with api := .done } :=
        ⟨h.exclusive, h.running, h.kind, h.rank, h.loaded, by simp,
          h.endsOnce.active, h.endsOnce.rows, h.endsOnce.effects⟩
      refine hinv.close he hkind ?_ (.inr rfl) (by simp) hstep
      rw [hqueued]
      exact Nat.zero_le _
    . contradiction

/--
Nothing of a finished job is written again: no delivery is in progress, and none begins.
-/
theorem Inv.eq_of_finished (h : Inv s) (hfinished : s.row.status.finished = true) {e : Event E}
    (he : Undisturbed s e) (hstep : Jobs.step s e = some t)
    : t.row = s.row ∧ t.audit = s.audit ∧ t.effects = s.effects := by
  have hnotFree : ¬ s.Free := by
    intro hfree
    rw [Status.finished_eq_not_active, hfree.left] at hfinished
    contradiction
  have hidle (d : Nat) : (s.deliveries d).inProgress = false := by
    rw [Bool.eq_false_iff]
    intro hprogress
    rw [h.running d hprogress] at hfinished
    contradiction
  cases e with
  | deliver d visible =>
    simp only [Jobs.step] at hstep
    split at hstep
    . rw [Option.some.injEq] at hstep
      rw [← hstep]
      split
      . exact ⟨rfl, rfl, rfl⟩
      . exact ⟨rfl, rfl, rfl⟩
    . contradiction
  | «begin» d now matterFound => exact absurd he hnotFree
  | reselect d visible | dispatch d now | fail d now exc effect
  | succeed d now resultPayload effect =>
    have hd := hidle d
    simp only [Jobs.step] at hstep
    split at hstep <;> simp_all [Phase.inProgress]
  | crash d =>
    simp only [Jobs.step, Option.some.injEq] at hstep
    rw [← hstep]
    exact ⟨rfl, rfl, rfl⟩
  | pushed =>
    simp only [Jobs.step] at hstep
    split at hstep
    . rw [Option.some.injEq] at hstep
      rw [← hstep]
      exact ⟨rfl, rfl, rfl⟩
    . contradiction
  | pushFailed now exc => exact absurd he hnotFree

end Preservation

theorem Inv.created {s : State E} (h : Created s) : Inv s := by
  have ⟨id, matterId, createdById, kind, inputPayload, hs⟩ := h
  rw [hs]
  constructor
  . intro _ _ ha
    simp [State.created, Phase.inProgress] at ha
  . intro _ ha
    simp [State.created, Phase.inProgress] at ha
  . simp [State.created, Phase.loaded]
  . simp [State.created, Phase.loaded]
  . simp [State.created, Phase.loaded]
  . intro job hjob
    have hjob : (createJob id matterId createdById kind inputPayload).fst = job := by
      simpa [State.created] using hjob
    rw [← hjob]
    exact ⟨rfl, rfl⟩
  . have hrows : (State.created id matterId createdById kind inputPayload : State E).closingRows
        = [] := by
      have hne (suffix : PyStr) (h : py "queued" ≠ suffix)
          : (((createJob id matterId createdById kind inputPayload).snd.action
            = ((createJob id matterId createdById kind inputPayload).fst.log suffix []).action)
              ↔ False) := by
        rw [iff_false]
        intro heq
        exact h ((action_log_eq_iff rfl _ _).mp heq)
      simp only [State.closingRows, State.created, List.filter_cons, List.filter_nil]
      simp only [hne (py "completed") (by decide), hne (py "failed") (by decide)]
      rfl
    exact ⟨fun _ => ⟨hrows, rfl⟩, by simp [hrows], by simp [State.created]⟩

theorem Inv.reachable {s : State E} (h : Reachable Created UndisturbedStep s) : Inv s :=
  h.invariant (fun _ => Inv.created) fun _ _ hinv ⟨_, he, hstep⟩ => hinv.step he hstep

/--
Once a job is finished, no row of it changes.
-/
theorem Inv.eq_of_finished_run {s t : State E} (h : Inv s)
    (hfinished : s.row.status.finished = true) (hrun : Relation.ReflTransGen UndisturbedStep s t)
    : Inv t ∧ t.row = s.row ∧ t.audit = s.audit ∧ t.effects = s.effects := by
  induction hrun with
  | refl => exact ⟨h, rfl, rfl, rfl⟩
  | tail _ hlast ih =>
    have ⟨hinv, hrow, haudit, heffects⟩ := ih
    have ⟨e, he, hstep⟩ := hlast
    have ⟨hrow', haudit', heffects'⟩ := hinv.eq_of_finished (hrow ▸ hfinished) he hstep
    exact ⟨hinv.step he hstep, hrow'.trans hrow, haudit'.trans haudit, heffects'.trans heffects⟩

/--
As long as deliveries begin, and failed pushes are recorded, only while the job is free, a finished job
stays finished, and its end is written and its effects are committed at most once.
-/
theorem finished_of_undisturbed {s : State E} (h : Reachable Created UndisturbedStep s)
    : s.closingRows.length ≤ 1
        ∧ s.effects.length ≤ 1
        ∧ (s.row.status.finished = true →
          ∀ t, Relation.ReflTransGen UndisturbedStep s t →
            t.row.status = s.row.status ∧ t.audit = s.audit ∧ t.effects = s.effects) := by
  have hinv := Inv.reachable h
  refine ⟨hinv.endsOnce.rows, hinv.endsOnce.effects, fun hfinished t hrun => ?_⟩
  have ⟨_, hrow, haudit, heffects⟩ := hinv.eq_of_finished_run hfinished hrun
  exact ⟨by rw [hrow], haudit, heffects⟩

section Runs

theorem reflTransGen_of_run {s t : State E} {events : List (Event E)}
    (h : run s events = some t) : Relation.ReflTransGen Step s t := by
  induction events generalizing s with
  | nil =>
    rw [run, Option.some.injEq] at h
    exact h ▸ .refl
  | cons e events ih =>
    rw [run, Option.bind_eq_some_iff] at h
    have ⟨u, hstep, hrest⟩ := h
    exact .head ⟨e, hstep⟩ (ih hrest)

def exampleTime : Timestamp := .newYear

/--
An export job that has just been created.
-/
def exampleCreated : State Unit :=
  .created (Uuid.ofNat 0) (Uuid.ofNat 1) (Uuid.ofNat 2) (py "export") []

/--
A delivery of the id that runs into no error.
-/
def exampleDelivery (d : Nat) : List (Event Unit) :=
  [
    .deliver d true, .begin d exampleTime true, .reselect d true, .dispatch d exampleTime,
    .succeed d exampleTime [(py "export_key", py "exports/0.zip")] ()
  ]

/--
A step that is neither a first commit nor a failed push disturbs nothing.
-/
theorem reachable_of_run {s t : State E} (hs : Reachable Created UndisturbedStep s) {events : List (Event E)}
    (hevents : ∀ e ∈ events, ∀ u : State E, Undisturbed u e) (h : run s events = some t)
    : Reachable Created UndisturbedStep t := by
  induction events generalizing s with
  | nil =>
    cases h
    exact hs
  | cons e events ih =>
    rw [List.forall_mem_cons] at hevents
    rw [run, Option.bind_eq_some_iff] at h
    obtain ⟨u, hstep, hrest⟩ := h
    exact ih (.step hs ⟨e, hevents.left s, hstep⟩) hevents.right hrest

/--
A worker runs the job to its end while a second delivery of its id waits, and then loses it.
-/
theorem finished_of_undisturbed_delivered
    : ∃ s : State Unit,
        s.row.status = .succeeded ∧ s.closingRows.length = 1 ∧ s.effects.length = 1
          ∧ (s.closingRows.length ≤ 1
            ∧ s.effects.length ≤ 1
            ∧ (s.row.status.finished = true →
              ∀ t, Relation.ReflTransGen UndisturbedStep s t →
                t.row.status = s.row.status ∧ t.audit = s.audit ∧ t.effects = s.effects)) := by
  have hcreated : Reachable Created UndisturbedStep exampleCreated := .init ⟨_, _, _, _, _, rfl⟩
  let ready : State Unit :=
    ({ exampleCreated with api := .done }.setPhase 0 (.selected exampleCreated.row)).setPhase 1
      (.selected exampleCreated.row)
  have harrived : run exampleCreated [.pushed, .deliver 0 true, .deliver 1 true] = some ready := rfl
  have hready : Reachable Created UndisturbedStep ready := reachable_of_run hcreated (by simp [Undisturbed]) harrived
  have hfree : ready.Free := by
    refine ⟨by decide, fun d => ?_⟩
    by_cases hone : d = 1
    . subst hone
      rfl
    . by_cases hzero : d = 0
      . subst hzero
        rfl
      . simp [ready, State.setPhase, Function.update_of_ne, hone, hzero, exampleCreated, State.created, Phase.inProgress]
  have hrun : ((run ready ((exampleDelivery 0).tail ++ [.crash 1])).map fun s =>
      (s.row.status, s.closingRows.length, s.effects.length)) = some (.succeeded, 1, 1) := by decide +kernel
  obtain ⟨s, hrun, hfacts⟩ := Option.map_eq_some_iff.mp hrun
  rw [Prod.mk.injEq, Prod.mk.injEq] at hfacts
  rw [exampleDelivery, List.tail_cons, List.cons_append, run, Option.bind_eq_some_iff] at hrun
  obtain ⟨started, hbegin, hrest⟩ := hrun
  have hstarted : Reachable Created UndisturbedStep started :=
    .step hready ⟨.begin 0 exampleTime true, hfree, hbegin⟩
  exact ⟨s, hfacts.left, hfacts.right.left, hfacts.right.right,
    finished_of_undisturbed (reachable_of_run hstarted (by simp [Undisturbed]) hrest)⟩

/--
A second delivery of a succeeded job takes it back to `running`, and completes it again.
-/
theorem finished_redelivered
    : ∃ s t u : State Unit,
        Reachable Created Step s ∧ s.row.status = .succeeded
          ∧ Relation.ReflTransGen Step s t ∧ t.row.status = .running
          ∧ Relation.ReflTransGen Step t u ∧ u.closingRows.length = 2 ∧ u.effects.length = 2 := by
  have hfirst : ((run exampleCreated (.pushed :: exampleDelivery 0)).map
      fun s => s.row.status) = some .succeeded := by decide +kernel
  have ⟨s, hs, hsucceeded⟩ := Option.map_eq_some_iff.mp hfirst
  have hsecond : (((run exampleCreated (.pushed :: exampleDelivery 0)).bind
      fun s => run s ((exampleDelivery 1).take 2)).map
        fun t => t.row.status) = some .running := by decide +kernel
  have ⟨t, ht, hrunning⟩ := Option.map_eq_some_iff.mp hsecond
  have hthird : ((((run exampleCreated (.pushed :: exampleDelivery 0)).bind
      fun s => run s ((exampleDelivery 1).take 2)).bind
        fun t => run t ((exampleDelivery 1).drop 2)).map
          fun u => (u.closingRows.length, u.effects.length)) = some (2, 2) := by decide +kernel
  have ⟨u, hu, hcounts⟩ := Option.map_eq_some_iff.mp hthird
  rw [ht, Option.bind_some] at hu
  rw [hs, Option.bind_some] at ht
  rw [Prod.mk.injEq] at hcounts
  exact ⟨s, t, u, Reachable.trans (.init ⟨_, _, _, _, _, rfl⟩) (reflTransGen_of_run hs), hsucceeded,
    reflTransGen_of_run ht, hrunning, reflTransGen_of_run hu, hcounts.left, hcounts.right⟩

end Runs

end Jobs
