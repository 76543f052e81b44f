import Legalise.Lib.Runs
import Legalise.StateMachine.Transitions

/-!
This module contains the runs of concurrent requests on one instance, and when the completed transitions
are a path of the definition.
-/

namespace StateMachine

open AuditReconstruction (StateMachineTransition)

/--
The session of a request: the state of the instance that it has loaded, and the row that it has flushed.
-/
structure Session where
  seen : Option PyStr := none
  row : Option StateMachineTransition := none
  ended : Bool := false

/--
What is committed of an instance, the sessions, and the one that has updated the row of the instance and
therefore holds its lock.
-/
structure State where
  currentState : PyStr
  history : List StateMachineTransition
  sessions : Nat → Session
  lock : Option Nat

/--
`load` is the first select of the instance in a session. Later ones return the same object as it is.
-/
inductive Event where
  | load (session : Nat)
  | request (session : Nat) (env : Env) (r : Request)
  | commit (session : Nat)
  | rollback (session : Nat)

namespace State

def setSession (s : State) (t : Nat) (session : Session) : State :=
  { s with sessions := Function.update s.sessions t session }

def release (s : State) (t : Nat) : State :=
  { s with lock := if s.lock = some t then none else s.lock }

end State

/--
`create_instance` of a definition, once it is committed.
-/
def State.created (definition : Definition) : State where
  currentState := definition.initialState
  history := []
  sessions _ := {}
  lock := none

section Exec

variable (R : PyRepr) (definition : Definition) (inst : Instance)

def exec (s : State) : Event → State
  | .load t =>
    let session := s.sessions t
    if session.ended || session.seen.isSome then s
    else s.setSession t { session with seen := some s.currentState }
  | .request t env r =>
    let session := s.sessions t
    match session.ended, session.seen, session.row with
    | false, some seen, none =>
      let row := (requestTransition R definition env { inst with currentState := seen } r).row
      if row.status = transitionStatusCompleted then
        -- the update of the instance waits for the session that holds the lock
        if s.lock.isSome then s
        else { s.setSession t { session with row := some row } with lock := some t }
      else s.setSession t { session with row := some row }
    | _, _, _ => s
  | .commit t =>
    let session := s.sessions t
    let ended := (s.setSession t { session with row := none, ended := true }).release t
    match session.row with
    | none => ended
    | some row =>
      {
        ended with
        history := s.history ++ [row]
        -- only an attribute that has changed is written
        currentState :=
          if row.status = transitionStatusCompleted ∧ row.toState ≠ row.fromState then row.toState
          else s.currentState
      }
  | .rollback t => (s.setSession t { s.sessions t with row := none, ended := true }).release t

end Exec

/--
The rows lead from one state to another along declared transitions.
-/
def Walks (definition : Definition) : PyStr → List StateMachineTransition → PyStr → Prop
  | start, [], target => target = start
  | start, row :: rows, target =>
    row.fromState = start ∧ definition.Declares row.fromState row.toState
      ∧ Walks definition row.toState rows target

instance (definition : Definition) (fromState toState : PyStr)
    : Decidable (definition.Declares fromState toState) :=
  inferInstanceAs (Decidable (∃ transition ∈ definition.transitions, _))

def Walks.decide (definition : Definition)
    : (start : PyStr) → (rows : List StateMachineTransition) → (target : PyStr)
      → Decidable (Walks definition start rows target)
  | start, [], target => inferInstanceAs (Decidable (target = start))
  | start, row :: rows, target =>
    have := Walks.decide definition row.toState rows target
    inferInstanceAs (Decidable (row.fromState = start ∧ _ ∧ _))

instance (definition : Definition) (start : PyStr) (rows : List StateMachineTransition) (target : PyStr)
    : Decidable (Walks definition start rows target) :=
  Walks.decide definition start rows target

def completed (rows : List StateMachineTransition) : List StateMachineTransition :=
  rows.filter fun row => row.status = transitionStatusCompleted

/--
The completed transitions are a path from the initial state to the current one.
-/
def FollowsPath (definition : Definition) (s : State) : Prop :=
  Walks definition definition.initialState (completed s.history) s.currentState

/--
If a step commits a row that is not completed, then it leaves the current state as it is.
-/
def LeavesState (R : PyRepr) (definition : Definition) (inst : Instance) (s : State) (event : Event) : Prop :=
  ∀ row, (exec R definition inst s event).history = s.history ++ [row]
    → row.status ≠ transitionStatusCompleted
    → (exec R definition inst s event).currentState = s.currentState

/--
What is promised of a run.
-/
structure PathRun (R : PyRepr) (definition : Definition) (inst : Instance) (events : List Event) : Prop where
  followsPath : ∀ earlier, earlier <+: events
    → FollowsPath definition (earlier.foldl (exec R definition inst) (.created definition))
  leavesState : ∀ earlier event, earlier ++ [event] <+: events
    → LeavesState R definition inst (earlier.foldl (exec R definition inst) (.created definition)) event

/--
If the event commits a completed row, then the current state is still the one that its request has loaded.
-/
def StillCurrent (s : State) : Event → Prop
  | .commit t => ∀ row, (s.sessions t).row = some row → row.status = transitionStatusCompleted
      → row.fromState = s.currentState
  | _ => True

section Path

variable {R : PyRepr} {definition : Definition} {inst : Instance} {s : State}

theorem walks_append_singleton {start target : PyStr} {rows : List StateMachineTransition}
    {row : StateMachineTransition}
    : Walks definition start (rows ++ [row]) target
        ↔ Walks definition start rows row.fromState ∧ definition.Declares row.fromState row.toState
          ∧ target = row.toState := by
  induction rows generalizing start with
  | nil => simp [Walks]
  | cons first rows ih =>
    rw [List.cons_append, Walks, ih, Walks]
    tauto

/--
A walk ends in one state.
-/
theorem Walks.unique {start target other : PyStr} {rows : List StateMachineTransition}
    (h : Walks definition start rows target) (hother : Walks definition start rows other) : target = other := by
  induction rows generalizing start with
  | nil => rw [show target = start from h, show other = start from hother]
  | cons row rows ih => exact ih h.right.right hother.right.right

theorem completed_append (rows : List StateMachineTransition) (row : StateMachineTransition)
    : completed (rows ++ [row])
        = completed rows ++ (if row.status = transitionStatusCompleted then [row] else []) := by
  unfold completed
  rw [List.filter_append]
  by_cases h : row.status = transitionStatusCompleted <;> simp [h]

/--
The rows that are flushed but not committed complete transitions of the definition only.
-/
def Inv (definition : Definition) (s : State) : Prop :=
  ∀ t row, (s.sessions t).row = some row → row.status = transitionStatusCompleted
    → definition.Declares row.fromState row.toState

theorem Inv.setSession (h : Inv definition s) {t : Nat} {session : Session}
    (hsession : ∀ row, session.row = some row → row.status = transitionStatusCompleted
      → definition.Declares row.fromState row.toState)
    : Inv definition (s.setSession t session) := by
  intro other row hrow hcompleted
  by_cases heq : other = t
  . simp only [heq, State.setSession, Function.update_self] at hrow
    exact hsession row hrow hcompleted
  . simp only [State.setSession, Function.update_of_ne heq] at hrow
    exact h other row hrow hcompleted

/--
A state with the sessions of another one.
-/
theorem Inv.of_sessions (h : Inv definition s) {s' : State} (hsessions : s'.sessions = s.sessions)
    : Inv definition s' := by
  unfold Inv at h ⊢
  rw [hsessions]
  exact h

theorem Inv.exec (h : Inv definition s) (event : Event) : Inv definition (exec R definition inst s event) := by
  cases event with
  | load t =>
    simp only [StateMachine.exec]
    split
    . exact h
    . exact h.setSession fun row hrow => h t row hrow
  | request t env r =>
    simp only [StateMachine.exec]
    split
    . next seen _ _ _ =>
      have hrow := @requestTransition_row R definition env { inst with currentState := seen } r
      have hset : Inv definition (s.setSession t {
          s.sessions t with
          row := some (requestTransition R definition env { inst with currentState := seen } r).row
        }) := by
        refine h.setSession fun row heq hcompleted => ?_
        cases heq
        rw [hrow.left.fromState, hrow.left.toState]
        exact hrow.right hcompleted
      split
      . split
        . exact h
        . exact hset.of_sessions rfl
      . exact hset
    . exact h
  | commit t =>
    have hended : Inv definition (s.setSession t { s.sessions t with row := none, ended := true }) :=
      h.setSession fun row hrow => by cases hrow
    simp only [StateMachine.exec]
    split
    . exact hended.of_sessions rfl
    . exact hended.of_sessions rfl
  | rollback t =>
    simp only [StateMachine.exec]
    refine Inv.of_sessions (s := s.setSession t { s.sessions t with row := none, ended := true }) ?_ rfl
    exact h.setSession fun row hrow => by cases hrow

theorem inv_created (definition : Definition) : Inv definition (.created definition) := by
  intro t row hrow
  cases hrow

variable (R definition inst) in
/--
What a commit of a flushed row leaves.
-/
theorem exec_commit {t : Nat} {row : StateMachineTransition} (hrow : (s.sessions t).row = some row)
    : (exec R definition inst s (.commit t)).history = s.history ++ [row]
        ∧ (exec R definition inst s (.commit t)).currentState
          = if row.status = transitionStatusCompleted ∧ row.toState ≠ row.fromState then row.toState
            else s.currentState := by
  simp only [exec, hrow, and_self]

variable (R definition inst) in
/--
An event that commits no row.
-/
theorem exec_of_not_commits {event : Event}
    (h : ∀ t row, event = .commit t → (s.sessions t).row ≠ some row)
    : (exec R definition inst s event).history = s.history
        ∧ (exec R definition inst s event).currentState = s.currentState := by
  cases event with
  | load t =>
    simp only [exec]
    split <;> exact ⟨rfl, rfl⟩
  | request t env r =>
    simp only [exec]
    split
    . split
      . split <;> exact ⟨rfl, rfl⟩
      . exact ⟨rfl, rfl⟩
    . exact ⟨rfl, rfl⟩
  | commit t =>
    have hnone := Option.eq_none_iff_forall_ne_some.mpr fun row => h t row rfl
    simp only [exec, hnone]
    exact ⟨rfl, rfl⟩
  | rollback t => exact ⟨rfl, rfl⟩

theorem leavesState (s : State) (event : Event) : LeavesState R definition inst s event := by
  intro row hhistory hstatus
  by_cases h : ∃ t row, event = .commit t ∧ (s.sessions t).row = some row
  . have ⟨t, other, hevent, hother⟩ := h
    subst hevent
    have hcommit := exec_commit R definition inst hother
    rw [hcommit.left] at hhistory
    have heq : other = row := by simpa using hhistory
    rw [hcommit.right, heq, if_neg fun hcompleted => hstatus hcompleted.left]
  . have hkeeps := exec_of_not_commits R definition inst fun t row hevent hrow => h ⟨t, row, hevent, hrow⟩
    exact hkeeps.right

/--
The step lemma: a commit keeps the path exactly if its request did not act on a state that is gone.
-/
theorem followsPath_exec_iff (hinv : Inv definition s) (h : FollowsPath definition s) (event : Event)
    : FollowsPath definition (exec R definition inst s event) ↔ StillCurrent s event := by
  by_cases hcommits : ∃ t row, event = .commit t ∧ (s.sessions t).row = some row
  . have ⟨t, row, hevent, hrow⟩ := hcommits
    subst hevent
    have hstill : StillCurrent s (.commit t)
        ↔ (row.status = transitionStatusCompleted → row.fromState = s.currentState) := by
      simp only [StillCurrent, hrow, Option.some.injEq, forall_eq']
    have ⟨hhistory, hcurrent⟩ := exec_commit R definition inst hrow
    unfold FollowsPath at h ⊢
    rw [hhistory, hcurrent, hstill, completed_append]
    by_cases hstatus : row.status = transitionStatusCompleted
    . rw [if_pos hstatus, walks_append_singleton]
      constructor
      . rintro ⟨hwalks, _⟩ _
        exact hwalks.unique h
      . intro hfrom
        have hfrom := hfrom hstatus
        refine ⟨by rw [hfrom]; exact h, hinv t row hrow hstatus, ?_⟩
        by_cases hself : row.toState = row.fromState
        . rw [if_neg (fun hne => hne.right hself), hself, hfrom]
        . rw [if_pos ⟨hstatus, hself⟩]
    . rw [if_neg hstatus, List.append_nil, if_neg fun hcompleted => hstatus hcompleted.left]
      exact iff_of_true h fun hcompleted => absurd hcompleted hstatus
  . have ⟨hhistory, hcurrent⟩ := exec_of_not_commits R definition inst fun t row hevent hrow =>
      hcommits ⟨t, row, hevent, hrow⟩
    unfold FollowsPath at h ⊢
    rw [hhistory, hcurrent]
    refine iff_of_true h ?_
    cases event with
    | commit t => exact fun row hrow => absurd ⟨t, row, rfl, hrow⟩ hcommits
    | _ => trivial

end Path

/--
A run keeps what is promised if and only if no request commits a completed transition from a state that
another one has left in the meantime.
-/
theorem pathRun_iff_stillCurrent (R : PyRepr) (definition : Definition) (inst : Instance) (events : List Event)
    : PathRun R definition inst events
        ↔ ∀ earlier event, earlier ++ [event] <+: events
          → StillCurrent (earlier.foldl (exec R definition inst) (.created definition)) event := by
  rw [← @Runs.holds_iff_good State Event (exec R definition inst) (Inv definition) (FollowsPath definition)
    StillCurrent (fun _ event hinv => hinv.exec event) (fun _ event hinv h => followsPath_exec_iff hinv h event)
    (.created definition) (inv_created definition) rfl events]
  exact ⟨fun h => h.followsPath, fun h => ⟨h, fun _ _ _ => leavesState _ _⟩⟩

section Fork

def fork : Definition where
  states := [py "draft", py "approved", py "rejected"]
  initialState := py "draft"
  terminalStates := [py "approved", py "rejected"]
  transitions := [
    { fromState := py "draft", toState := py "approved", gates := [], requiredCapabilities := [] },
    { fromState := py "draft", toState := py "rejected", gates := [], requiredCapabilities := [] }
  ]
  nodup := by decide
  initialState_mem := by decide
  toState_mem := by decide
  fromState_not_mem := by decide

def forkInstance : Instance where
  id := Uuid.ofNat 1
  definitionId := Uuid.ofNat 2
  definitionVersion := py "1.0.0"
  currentState := py "draft"

def forkEnv (row : Uuid) : Env where
  grants := .empty
  gateHandlers _ := none
  rowId := row
  now := (Timestamp.ofFields? 2026 5 25 9 0 0 0).get rfl

def requestOf (toState : PyStr) : Request where
  toState := toState
  userId := some (Uuid.ofNat 5)

/--
Two users see the draft. One approves it, the other rejects it, and both transitions are completed.
-/
theorem fork_not_pathRun : ¬ PathRun .quoted fork forkInstance [
      .load 0, .load 1,
      .request 0 (forkEnv (Uuid.ofNat 3)) (requestOf (py "approved")), .commit 0,
      .request 1 (forkEnv (Uuid.ofNat 4)) (requestOf (py "rejected")), .commit 1
    ] := by
  intro h
  have hfollows := h.followsPath _ (List.prefix_refl _)
  revert hfollows
  unfold FollowsPath
  decide +kernel

end Fork

end StateMachine
