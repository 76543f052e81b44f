import Legalise.Lib.Runs
import Legalise.Reviews.Basic

/-!
This module contains concurrent requests to open and to decide reviews of one artifact, and when every
review gets one decision.
-/

namespace Reviews

open Signoff (MatterArtifact Objects)

/--
Where a request is. `opening` and `deciding` have flushed their rows, `deciding` holds the lock of its
review.
-/
inductive Phase where
  | idle
  | checked (user : User)
  | opening (review : MatterReview)
  | loaded (review : MatterReview)
  | deciding (row : DecisionRow)
  | ended

/--
The committed rows of one artifact, the requests, the locks on reviews, and the ids that were drawn.
-/
structure State where
  reviews : List MatterReview
  audit : List ReviewAudit
  phases : Nat → Phase
  locks : Uuid → Option Nat
  drawn : List Uuid

/--
The statements of the requests. No id is drawn twice.
-/
inductive Event where
  | check (request : Nat) (user : User)
  | insert (request : Nat) (objects : Objects) (newId : Uuid) (now : Int)
  | load (request : Nat) (reviewId : Uuid)
  | decide (request : Nat) (user : User) (decision : PyStr) (note : Option PyStr) (now : Int)
  | commit (request : Nat)
  | rollback (request : Nat)

namespace State

def initial : State where
  reviews := []
  audit := []
  phases _ := .idle
  locks _ := none
  drawn := []

def setPhase (s : State) (t : Nat) (phase : Phase) : State :=
  { s with phases := Function.update s.phases t phase }

def release (s : State) (t : Nat) : State :=
  { s with locks := fun id => if s.locks id = some t then none else s.locks id }

/--
The committed terminal audit rows of a review.
-/
def decisions (s : State) (reviewId : Uuid) : List DecisionRow :=
  s.audit.filterMap fun
    | .decided row => if row.review.id = reviewId then some row else none
    | .requested _ => none

end State

section Exec

variable (digest : Bytes → PyStr) (artifact : MatterArtifact)

def exec (s : State) : Event → State
  | .check t user =>
    match s.phases t with
    | .idle =>
      match checkRequest artifact s.reviews with
      | .ok () => s.setPhase t (.checked user)
      | .error _ => s.setPhase t .ended
    | _ => s
  | .insert t objects newId now =>
    match s.phases t with
    | .checked user =>
      match newReview digest objects artifact user newId now with
      | .ok review =>
        if newId ∈ s.drawn then s else { s.setPhase t (.opening review) with drawn := newId :: s.drawn }
      | .error _ => s.setPhase t .ended
    | _ => s
  | .load t reviewId =>
    match s.phases t with
    | .idle =>
      match s.reviews.find? fun review => review.id = reviewId with
      | some review => s.setPhase t (.loaded review)
      | none => s.setPhase t .ended
    | _ => s
  | .decide t user decision note now =>
    match s.phases t with
    | .loaded review =>
      match decideReview artifact review user decision note now with
      | .ok row =>
        -- the update waits for the request that holds the lock
        if (s.locks review.id).isSome then s
        else { s.setPhase t (.deciding row) with locks := Function.update s.locks review.id (some t) }
      | .error _ => s.setPhase t .ended
    | _ => s
  | .commit t =>
    let ended := (s.setPhase t .ended).release t
    match s.phases t with
    | .opening review =>
      { ended with reviews := s.reviews ++ [review], audit := s.audit ++ [.requested review] }
    | .deciding row => { ended with reviews := s.reviews.map row.update, audit := s.audit ++ [.decided row] }
    | _ => ended
  | .rollback t => (s.setPhase t .ended).release t

end Exec

/--
A review that nobody has decided is pending, and the state, the decider and the note of a decided one are
those of its decision.
-/
def Settled (review : MatterReview) : List DecisionRow → Prop
  | [] => review.state = .pending ∧ review.decidedById = none ∧ review.note = none
  | [row] =>
    review.state = row.decision.targetState ∧ review.decidedById = some row.userId ∧ review.note = row.note
  | _ => False

instance (review : MatterReview) : (rows : List DecisionRow) → Decidable (Settled review rows)
  | [] => inferInstanceAs (Decidable (_ ∧ _ ∧ _))
  | [_] => inferInstanceAs (Decidable (_ ∧ _ ∧ _))
  | _ :: _ :: _ => inferInstanceAs (Decidable False)

/--
What is promised of a committed state.
-/
structure OneDecision (artifact : MatterArtifact) (s : State) : Prop where
  onePending : (s.reviews.filter fun review => review.state = .pending).length ≤ 1
  settled : ∀ review ∈ s.reviews, Settled review (s.decisions review.id)
  separated : ∀ review ∈ s.reviews, ∀ row ∈ s.decisions review.id,
    Separated artifact review.requestedById row

/--
What is promised of a run: no decision is committed on a review that has one, so that all others end
without a commit.
-/
structure OneDecisionRun (digest : Bytes → PyStr) (artifact : MatterArtifact) (events : List Event) : Prop where
  states : ∀ earlier, earlier <+: events
    → OneDecision artifact (earlier.foldl (exec digest artifact) .initial)
  others : ∀ earlier t, earlier ++ [.commit t] <+: events
    → ∀ row, (earlier.foldl (exec digest artifact) .initial).phases t = .deciding row
      → (earlier.foldl (exec digest artifact) .initial).decisions row.review.id = []

/--
If the event commits, then what its request has read still holds: no review is pending if it opens one, and
the review is pending if it decides it.
-/
def StillHolds (s : State) : Event → Prop
  | .commit t =>
    (∀ review, s.phases t = .opening review → ∀ other ∈ s.reviews, other.state ≠ .pending)
      ∧ ∀ row, s.phases t = .deciding row → ∀ review ∈ s.reviews, review.id = row.review.id
        → review.state = .pending
  | _ => True

section Invariant

variable {digest : Bytes → PyStr} {artifact : MatterArtifact} {s : State}

/--
A committed review has this id and this requester.
-/
def Known (s : State) (reviewId requestedById : Uuid) : Prop :=
  ∃ review ∈ s.reviews, review.id = reviewId ∧ review.requestedById = requestedById

def PhaseInv (artifact : MatterArtifact) (s : State) : Phase → Prop
  | .opening review =>
    review.id ∈ s.drawn ∧ review.id ∉ s.reviews.map MatterReview.id
      ∧ review.state = .pending ∧ review.decidedById = none ∧ review.note = none
  | .loaded review => Known s review.id review.requestedById
  | .deciding row =>
    Known s row.review.id row.review.requestedById ∧ Separated artifact row.review.requestedById row
  | _ => True

structure Inv (artifact : MatterArtifact) (s : State) : Prop where
  ids : (s.reviews.map MatterReview.id).Nodup
  drawn : ∀ review ∈ s.reviews, review.id ∈ s.drawn
  decided : ∀ row, .decided row ∈ s.audit → row.review.id ∈ s.reviews.map MatterReview.id
  phases : ∀ t, PhaseInv artifact s (s.phases t)
  apart : ∀ t u review other, s.phases t = .opening review → s.phases u = .opening other
    → review.id = other.id → t = u

theorem inv_initial (artifact : MatterArtifact) : Inv artifact .initial where
  ids := List.nodup_nil
  drawn _ h := by cases h
  decided _ h := by cases h
  phases _ := trivial
  apart _ _ _ _ h := by cases h

/--
A request goes on, and nothing is committed.
-/
theorem Inv.setPhase (h : Inv artifact s) {t : Nat} {phase : Phase} {s' : State}
    (hreviews : s'.reviews = s.reviews) (haudit : s'.audit = s.audit)
    (hphases : s'.phases = Function.update s.phases t phase) (hdrawn : s.drawn ⊆ s'.drawn)
    (hphase : PhaseInv artifact s' phase)
    (hapart : ∀ u review other, phase = .opening review → s.phases u = .opening other → review.id ≠ other.id)
    : Inv artifact s' := by
  constructor
  . rw [hreviews]
    exact h.ids
  . rw [hreviews]
    exact fun review hreview => hdrawn (h.drawn review hreview)
  . rw [hreviews, haudit]
    exact h.decided
  . intro u
    rw [hphases]
    by_cases heq : u = t
    . rw [heq, Function.update_self]
      exact hphase
    . rw [Function.update_of_ne heq]
      have hold := h.phases u
      cases hu : s.phases u with
      | opening review =>
        rw [hu] at hold
        exact ⟨hdrawn hold.left, by rw [hreviews]; exact hold.right.left, hold.right.right⟩
      | loaded review =>
        rw [hu] at hold
        simpa only [PhaseInv, Known, hreviews] using hold
      | deciding row =>
        rw [hu] at hold
        simpa only [PhaseInv, Known, hreviews] using hold
      | _ => trivial
  . intro u v review other hu hv hid
    rw [hphases] at hu hv
    by_cases hut : u = t
    . by_cases hvt : v = t
      . rw [hut, hvt]
      . rw [hut, Function.update_self] at hu
        rw [Function.update_of_ne hvt] at hv
        exact absurd hid (hapart v review other hu hv)
    . by_cases hvt : v = t
      . rw [hvt, Function.update_self] at hv
        rw [Function.update_of_ne hut] at hu
        exact absurd hid.symm (hapart u other review hv hu)
      . rw [Function.update_of_ne hut] at hu
        rw [Function.update_of_ne hvt] at hv
        exact h.apart u v review other hu hv hid

/--
A request ends without a commit.
-/
theorem Inv.ended (h : Inv artifact s) {t : Nat} {s' : State} (hreviews : s'.reviews = s.reviews)
    (haudit : s'.audit = s.audit) (hphases : s'.phases = Function.update s.phases t .ended)
    (hdrawn : s'.drawn = s.drawn) : Inv artifact s' :=
  h.setPhase hreviews haudit hphases (by rw [hdrawn]; exact List.Subset.refl _) trivial
    fun _ _ _ hopening => by cases hopening

/--
The committed row of a new review.
-/
theorem Inv.commitOpening (h : Inv artifact s) {t : Nat} {review : MatterReview} (ht : s.phases t = .opening review)
    {s' : State} (hreviews : s'.reviews = s.reviews ++ [review])
    (haudit : s'.audit = s.audit ++ [.requested review])
    (hphases : s'.phases = Function.update s.phases t .ended) (hdrawn : s'.drawn = s.drawn)
    : Inv artifact s' := by
  have hreview := h.phases t
  rw [ht] at hreview
  have hknown {reviewId requestedById : Uuid} (hold : Known s reviewId requestedById)
      : Known s' reviewId requestedById := by
    have ⟨committed, hmem, heq⟩ := hold
    exact ⟨committed, by rw [hreviews]; exact List.mem_append_left _ hmem, heq⟩
  constructor
  . rw [hreviews, List.map_append]
    exact h.ids.append (List.nodup_singleton _) (by simpa using hreview.right.left)
  . rw [hreviews, hdrawn]
    intro other hother
    rcases List.mem_append.mp hother with hother | hother
    . exact h.drawn other hother
    . rw [List.mem_singleton.mp hother]
      exact hreview.left
  . intro row hrow
    rw [haudit] at hrow
    rw [hreviews, List.map_append]
    refine List.mem_append_left _ (h.decided row ?_)
    simpa using hrow
  . intro u
    rw [hphases]
    by_cases heq : u = t
    . rw [heq, Function.update_self]
      trivial
    . rw [Function.update_of_ne heq]
      have hold := h.phases u
      cases hu : s.phases u with
      | opening other =>
        rw [hu] at hold
        refine ⟨by rw [hdrawn]; exact hold.left, ?_, hold.right.right⟩
        rw [hreviews, List.map_append, List.mem_append, not_or]
        refine ⟨hold.right.left, ?_⟩
        have hne : other.id ≠ review.id := fun hid => heq (h.apart u t other review hu ht hid)
        simpa using hne
      | loaded other =>
        rw [hu] at hold
        exact hknown hold
      | deciding row =>
        rw [hu] at hold
        exact ⟨hknown hold.left, hold.right⟩
      | _ => trivial
  . intro u v first second hu hv
    rw [hphases] at hu hv
    by_cases hut : u = t
    . rw [hut, Function.update_self] at hu
      cases hu
    . by_cases hvt : v = t
      . rw [hvt, Function.update_self] at hv
        cases hv
      . rw [Function.update_of_ne hut] at hu
        rw [Function.update_of_ne hvt] at hv
        exact h.apart u v first second hu hv

/--
The committed update of a review.
-/
theorem Inv.commitDeciding (h : Inv artifact s) {t : Nat} {row : DecisionRow} (ht : s.phases t = .deciding row)
    {s' : State} (hreviews : s'.reviews = s.reviews.map row.update)
    (haudit : s'.audit = s.audit ++ [.decided row])
    (hphases : s'.phases = Function.update s.phases t .ended) (hdrawn : s'.drawn = s.drawn)
    : Inv artifact s' := by
  have hids : s'.reviews.map MatterReview.id = s.reviews.map MatterReview.id := by
    rw [hreviews, List.map_map]
    exact List.map_congr_left fun review _ => id_update row review
  have hknown {reviewId requestedById : Uuid} (hold : Known s reviewId requestedById)
      : Known s' reviewId requestedById := by
    have ⟨committed, hmem, hid, hrequested⟩ := hold
    refine ⟨row.update committed, ?_, by simpa using hid, by simpa using hrequested⟩
    rw [hreviews]
    exact List.mem_map_of_mem hmem
  have hrow := h.phases t
  rw [ht] at hrow
  constructor
  . rw [hids]
    exact h.ids
  . intro review hreview
    have hmem : review.id ∈ s.reviews.map MatterReview.id := by
      rw [← hids]
      exact List.mem_map_of_mem hreview
    have ⟨before, hbefore, hid⟩ := List.mem_map.mp hmem
    rw [hdrawn, ← hid]
    exact h.drawn before hbefore
  . intro other hother
    rw [hids]
    rw [haudit, List.mem_append, List.mem_singleton, ReviewAudit.decided.injEq] at hother
    rcases hother with hother | hother
    . exact h.decided other hother
    . rw [hother]
      have ⟨committed, hmem, hid, _⟩ := hrow.left
      exact List.mem_map.mpr ⟨committed, hmem, hid⟩
  . intro u
    rw [hphases]
    by_cases heq : u = t
    . rw [heq, Function.update_self]
      trivial
    . rw [Function.update_of_ne heq]
      have hold := h.phases u
      cases hu : s.phases u with
      | opening other =>
        rw [hu] at hold
        exact ⟨by rw [hdrawn]; exact hold.left, by rw [hids]; exact hold.right.left, hold.right.right⟩
      | loaded other =>
        rw [hu] at hold
        exact hknown hold
      | deciding other =>
        rw [hu] at hold
        exact ⟨hknown hold.left, hold.right⟩
      | _ => trivial
  . intro u v first second hu hv
    rw [hphases] at hu hv
    by_cases hut : u = t
    . rw [hut, Function.update_self] at hu
      cases hu
    . by_cases hvt : v = t
      . rw [hvt, Function.update_self] at hv
        cases hv
      . rw [Function.update_of_ne hut] at hu
        rw [Function.update_of_ne hvt] at hv
        exact h.apart u v first second hu hv

theorem Inv.exec (h : Inv artifact s) (event : Event) : Inv artifact (exec digest artifact s event) := by
  have hquiet {t : Nat} {phase : Phase} (hphase : PhaseInv artifact s phase)
      (hopening : ∀ review, phase ≠ .opening review) : Inv artifact (s.setPhase t phase) := by
    refine @Inv.setPhase _ _ h _ _ (s.setPhase t phase) rfl rfl rfl (List.Subset.refl _) ?_
      fun _ review _ heq => absurd heq (hopening review)
    cases phase with
    | opening review => exact absurd rfl (hopening review)
    | _ => exact hphase
  cases event with
  | check t user =>
    simp only [Reviews.exec]
    cases s.phases t with
    | idle =>
      cases checkRequest artifact s.reviews with
      | ok _ => exact hquiet trivial (fun _ => by simp)
      | error _ => exact hquiet trivial (fun _ => by simp)
    | _ => exact h
  | insert t objects newId now =>
    simp only [Reviews.exec]
    cases ht : s.phases t with
    | checked user =>
      cases hnew : newReview digest objects artifact user newId now with
      | ok review =>
        by_cases hdrawn : newId ∈ s.drawn
        . simp only [hnew, if_pos hdrawn]
          exact h
        . simp only [hnew, if_neg hdrawn]
          have ⟨hid, hstate, hdecided, hnote⟩ := newReview_eq_ok hnew
          refine h.setPhase rfl rfl rfl (List.subset_cons_self _ _) ?_ ?_
          . refine ⟨by rw [hid]; exact List.mem_cons_self, ?_, hstate, hdecided, hnote⟩
            rw [hid]
            intro hmem
            have ⟨other, hother, heq⟩ := List.mem_map.mp hmem
            exact hdrawn (heq ▸ h.drawn other hother)
          . intro u first other hfirst hu heq
            cases hfirst
            have hother := h.phases u
            rw [hu] at hother
            exact hdrawn (by rw [← hid, heq]; exact hother.left)
      | error _ =>
        simp only [hnew]
        exact hquiet trivial (fun _ => by simp)
    | _ => exact h
  | load t reviewId =>
    simp only [Reviews.exec]
    cases s.phases t with
    | idle =>
      cases hfind : s.reviews.find? fun review => review.id = reviewId with
      | some review =>
        exact hquiet ⟨review, List.mem_of_find?_eq_some hfind, rfl, rfl⟩ (fun _ => by simp)
      | none => exact hquiet trivial (fun _ => by simp)
    | _ => exact h
  | decide t user decision note now =>
    simp only [Reviews.exec]
    cases ht : s.phases t with
    | loaded review =>
      have hloaded := h.phases t
      rw [ht] at hloaded
      cases hdecide : decideReview artifact review user decision note now with
      | ok row =>
        have ⟨hreview, hseparated⟩ := decideReview_eq_ok hdecide
        by_cases hlock : (s.locks review.id).isSome = true
        . simp only [hdecide, if_pos hlock]
          exact h
        . simp only [hdecide, if_neg hlock]
          refine h.setPhase rfl rfl rfl (List.Subset.refl _) ?_ (fun _ _ _ heq => by cases heq)
          rw [← hreview] at hloaded hseparated
          exact ⟨hloaded, hseparated⟩
      | error _ =>
        simp only [hdecide]
        exact hquiet trivial (fun _ => by simp)
    | _ => exact h
  | commit t =>
    simp only [Reviews.exec]
    cases ht : s.phases t with
    | opening review => exact h.commitOpening ht rfl rfl rfl rfl
    | deciding row => exact h.commitDeciding ht rfl rfl rfl rfl
    | _ => exact h.ended rfl rfl rfl rfl
  | rollback t => exact h.ended rfl rfl rfl rfl

end Invariant

section Step

variable {digest : Bytes → PyStr} {artifact : MatterArtifact} {s s' : State}

theorem OneDecision.congr (h : OneDecision artifact s) (hreviews : s'.reviews = s.reviews)
    (haudit : s'.audit = s.audit) : OneDecision artifact s' := by
  have hdecisions : s'.decisions = s.decisions := by
    unfold State.decisions
    rw [haudit]
  constructor
  . rw [hreviews]
    exact h.onePending
  . rw [hreviews, hdecisions]
    exact h.settled
  . rw [hreviews, hdecisions]
    exact h.separated

theorem decisions_requested {review : MatterReview} (haudit : s'.audit = s.audit ++ [.requested review])
    (reviewId : Uuid) : s'.decisions reviewId = s.decisions reviewId := by
  unfold State.decisions
  rw [haudit, List.filterMap_append]
  simp

theorem decisions_decided {row : DecisionRow} (haudit : s'.audit = s.audit ++ [.decided row]) (reviewId : Uuid)
    : s'.decisions reviewId
        = s.decisions reviewId ++ if row.review.id = reviewId then [row] else [] := by
  unfold State.decisions
  rw [haudit, List.filterMap_append]
  by_cases h : row.review.id = reviewId <;> simp [h]

theorem Inv.decisions_eq_nil (h : Inv artifact s) {reviewId : Uuid}
    (hid : reviewId ∉ s.reviews.map MatterReview.id) : s.decisions reviewId = [] := by
  rw [List.eq_nil_iff_forall_not_mem]
  intro row hrow
  unfold State.decisions at hrow
  have ⟨entry, hentry, heq⟩ := List.mem_filterMap.mp hrow
  cases entry with
  | requested review => cases heq
  | decided other =>
    dsimp only at heq
    split at heq
    . next hother => exact hid (hother ▸ h.decided other hentry)
    . cases heq

/--
A review is pending exactly if nobody has decided it.
-/
theorem Settled.pending_iff {review : MatterReview} {rows : List DecisionRow} (h : Settled review rows)
    : review.state = .pending ↔ rows = [] := by
  match rows with
  | [] => exact iff_of_true h.left rfl
  | [row] =>
    refine iff_of_false ?_ (by simp)
    rw [h.left]
    exact row.decision.targetState_ne_pending
  | _ :: _ :: _ => exact h.elim

theorem oneDecision_commitOpening_iff (hinv : Inv artifact s) (h : OneDecision artifact s) {t : Nat}
    {review : MatterReview} (ht : s.phases t = .opening review) (hreviews : s'.reviews = s.reviews ++ [review])
    (haudit : s'.audit = s.audit ++ [.requested review])
    : OneDecision artifact s' ↔ ∀ other ∈ s.reviews, other.state ≠ .pending := by
  have hreview := hinv.phases t
  rw [ht] at hreview
  have ⟨_, hid, hstate, hdecided, hnote⟩ := hreview
  have hnil := hinv.decisions_eq_nil hid
  have hpending : (s'.reviews.filter fun other => other.state = .pending).length
      = (s.reviews.filter fun other => other.state = .pending).length + 1 := by
    rw [hreviews, List.filter_append]
    simp [hstate]
  constructor
  . intro hafter other hother hstate
    have hlength := hafter.onePending
    rw [hpending] at hlength
    have hmem : other ∈ s.reviews.filter fun other => other.state = .pending :=
      List.mem_filter.mpr ⟨hother, by simpa using hstate⟩
    have := List.length_pos_of_mem hmem
    omega
  . intro hnone
    constructor
    . have hempty : (s.reviews.filter fun other => other.state = .pending) = [] := by
        rw [List.filter_eq_nil_iff]
        simpa using hnone
      rw [hpending, hempty]
      simp
    . intro other hother
      rw [decisions_requested haudit]
      rw [hreviews] at hother
      rcases List.mem_append.mp hother with hother | hother
      . exact h.settled other hother
      . rw [List.mem_singleton.mp hother, hnil]
        exact ⟨hstate, hdecided, hnote⟩
    . intro other hother row hrow
      rw [decisions_requested haudit] at hrow
      rw [hreviews] at hother
      rcases List.mem_append.mp hother with hother | hother
      . exact h.separated other hother row hrow
      . rw [List.mem_singleton.mp hother, hnil] at hrow
        cases hrow

theorem oneDecision_commitDeciding_iff (hinv : Inv artifact s) (h : OneDecision artifact s) {t : Nat}
    {row : DecisionRow} (ht : s.phases t = .deciding row) (hreviews : s'.reviews = s.reviews.map row.update)
    (haudit : s'.audit = s.audit ++ [.decided row])
    : OneDecision artifact s'
        ↔ ∀ review ∈ s.reviews, review.id = row.review.id → review.state = .pending := by
  have hrow := hinv.phases t
  rw [ht] at hrow
  have ⟨⟨known, hknown, hknownId, hknownBy⟩, hseparated⟩ := hrow
  constructor
  . intro hafter review hreview hid
    have hsettled := hafter.settled (row.update review) (by rw [hreviews]; exact List.mem_map_of_mem hreview)
    rw [id_update, decisions_decided haudit, if_pos hid.symm] at hsettled
    refine (h.settled review hreview).pending_iff.mpr ?_
    cases hdecisions : s.decisions review.id with
    | nil => rfl
    | cons first rest =>
      rw [hdecisions] at hsettled
      cases rest <;> exact hsettled.elim
  . intro hpending
    have hnil : s.decisions row.review.id = [] := by
      rw [← hknownId]
      exact (h.settled known hknown).pending_iff.mp (hpending known hknown hknownId)
    constructor
    . refine le_trans ?_ h.onePending
      rw [hreviews, ← List.countP_eq_length_filter, ← List.countP_eq_length_filter, List.countP_map]
      refine List.countP_mono_left fun review _ hstate => ?_
      by_cases hid : review.id = row.review.id
      . simp [DecisionRow.update, hid, row.decision.targetState_ne_pending] at hstate
      . simpa [update_of_ne hid] using hstate
    . intro review hreview
      rw [hreviews] at hreview
      have ⟨before, hbefore, heq⟩ := List.mem_map.mp hreview
      rw [← heq, id_update, decisions_decided haudit]
      by_cases hid : before.id = row.review.id
      . have hsettled := h.settled before hbefore
        rw [hid, hnil] at hsettled
        rw [if_pos hid.symm, hid, hnil, List.nil_append]
        unfold DecisionRow.update
        rw [if_pos hid]
        refine ⟨rfl, rfl, ?_⟩
        simp [hsettled.right.right]
      . rw [if_neg (Ne.symm hid), List.append_nil, update_of_ne hid]
        exact h.settled before hbefore
    . intro review hreview other hother
      rw [hreviews] at hreview
      have ⟨before, hbefore, heq⟩ := List.mem_map.mp hreview
      rw [← heq, id_update, decisions_decided haudit] at hother
      rw [← heq, requestedById_update]
      by_cases hid : before.id = row.review.id
      . have hsame : before = known :=
          List.inj_on_of_nodup_map hinv.ids hbefore hknown (hid.trans hknownId.symm)
        rw [if_pos hid.symm, hid, hnil, List.nil_append, List.mem_singleton] at hother
        rw [hother, hsame, hknownBy]
        exact hseparated
      . rw [if_neg (Ne.symm hid), List.append_nil] at hother
        exact h.separated before hbefore other hother

/--
Only a commit changes what is committed.
-/
theorem exec_of_not_commit {event : Event} (h : ∀ t, event ≠ .commit t)
    : (exec digest artifact s event).reviews = s.reviews ∧ (exec digest artifact s event).audit = s.audit := by
  cases event with
  | commit t => exact absurd rfl (h t)
  | rollback t => exact ⟨rfl, rfl⟩
  | _ =>
    simp only [exec]
    split
    . split
      all_goals first
        | exact ⟨rfl, rfl⟩
        | split <;> exact ⟨rfl, rfl⟩
    . exact ⟨rfl, rfl⟩

/--
The step lemma: a commit keeps the promise exactly if what its request has read still holds.
-/
theorem oneDecision_exec_iff (hinv : Inv artifact s) (h : OneDecision artifact s) (event : Event)
    : OneDecision artifact (exec digest artifact s event) ↔ StillHolds s event := by
  by_cases hcommit : ∃ t, event = .commit t
  . have ⟨t, hevent⟩ := hcommit
    subst hevent
    simp only [exec, StillHolds]
    cases ht : s.phases t with
    | opening review =>
      rw [oneDecision_commitOpening_iff hinv h ht rfl rfl]
      simp
    | deciding row =>
      rw [oneDecision_commitDeciding_iff hinv h ht rfl rfl]
      simp
    | _ => exact iff_of_true (h.congr rfl rfl) (by simp)
  . have ⟨hreviews, haudit⟩ := @exec_of_not_commit digest artifact s event fun t heq => hcommit ⟨t, heq⟩
    refine iff_of_true (h.congr hreviews haudit) ?_
    cases event with
    | commit t => exact absurd ⟨t, rfl⟩ hcommit
    | _ => trivial

theorem oneDecision_initial (artifact : MatterArtifact) : OneDecision artifact .initial where
  onePending := by simp [State.initial]
  settled _ h := by cases h
  separated _ h := by cases h

end Step

/--
A run keeps what is promised if and only if no request commits on what it has read before another commit.
-/
theorem oneDecisionRun_iff_stillHolds (digest : Bytes → PyStr) (artifact : MatterArtifact) (events : List Event)
    : OneDecisionRun digest artifact events
        ↔ ∀ earlier event, earlier ++ [event] <+: events
          → StillHolds (earlier.foldl (exec digest artifact) .initial) event := by
  have hiff := @Runs.holds_iff_good State Event (exec digest artifact) (Inv artifact) (OneDecision artifact)
    StillHolds (fun _ event hinv => hinv.exec event) (fun _ event hinv h => oneDecision_exec_iff hinv h event)
    .initial (inv_initial artifact) (oneDecision_initial artifact) events
  constructor
  . intro h
    exact hiff.mp h.states
  . intro hgood
    have hstates := hiff.mpr hgood
    refine ⟨hstates, ?_⟩
    intro earlier t hbegin row hrow
    have hearlier := (List.prefix_append _ _).trans hbegin
    have hinv : Inv artifact (earlier.foldl (exec digest artifact) .initial) :=
      @Runs.foldl_invariant State Event (exec digest artifact) (Inv artifact) (fun _ _ => True)
        (fun _ event _ hinv => hinv.exec event) .initial (inv_initial artifact) earlier (fun _ _ _ => trivial)
    have hphase := hinv.phases t
    rw [hrow] at hphase
    have ⟨⟨known, hknown, hid, _⟩, _⟩ := hphase
    rw [← hid]
    exact ((hstates earlier hearlier).settled known hknown).pending_iff.mp
      ((hgood earlier _ hbegin).right row hrow known hknown hid)

section TwoDeciders

def findingsPack : MatterArtifact where
  id := Uuid.ofNat 1
  matterId := Uuid.ofNat 2
  moduleId := ⟨py "contract_review", by decide⟩
  capabilityId := ⟨py "contract_review.review", by decide⟩
  invocationId := Uuid.ofNat 3
  kind := ⟨py "findings_pack", by decide⟩
  storagePath := py "users/u/matters/m/artifacts/a.json"
  createdById := none

def associate : User := ⟨Uuid.ofNat 4, false⟩

def supervisor : User := ⟨Uuid.ofNat 5, false⟩

def partner : User := ⟨Uuid.ofNat 6, false⟩

/--
Two users load the pending review. One approves it, the other rejects it, and both decisions are committed.
-/
theorem twoDeciders_not_oneDecisionRun : ¬ OneDecisionRun (fun _ => py "digest") findingsPack [
      .check 0 associate, .insert 0 (fun _ => some []) (Uuid.ofNat 7) 0, .commit 0,
      .load 1 (Uuid.ofNat 7), .load 2 (Uuid.ofNat 7),
      .decide 1 supervisor (py "approve") none 1, .commit 1,
      .decide 2 partner (py "reject") (some (py "clause 4 is missing")) 2, .commit 2
    ] := by
  intro h
  have hsettled := (h.states _ (List.prefix_refl _)).settled
  revert hsettled
  decide +kernel

end TwoDeciders

end Reviews
