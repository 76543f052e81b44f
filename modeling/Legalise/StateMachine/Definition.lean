import Legalise.Python.Json
import Legalise.Lib.Except

/-!
This module contains the definitions of state machines: what registration accepts, and the search for a
declared transition.
-/

namespace StateMachine

structure Transition where
  fromState : PyStr
  toState : PyStr
  gates : List PyStr
  requiredCapabilities : List PyStr
  deriving DecidableEq

/--
The exceptions that leave the validation: `InvalidDefinitionError` with its text, and the `TypeError` of a
value that has no hash.
-/
inductive DefinitionError where
  | invalid (message : PyStr)
  | typeError

/--
`type(value).__name__`
-/
def typeName : Json → PyStr
  | .null => py "NoneType"
  | .bool _ => py "bool"
  | .int _ => py "int"
  | .float _ => py "float"
  | .str _ => py "str"
  | .list _ => py "list"
  | .dict _ => py "dict"

/--
A state, found by `value not in states_set`.
-/
def stateOf (states : List PyStr) (message : PyStr) : Json → Except DefinitionError PyStr
  | .str state => if state ∈ states then .ok state else .error (.invalid message)
  | .list _ | .dict _ => .error .typeError
  | _ => .error (.invalid message)

/--
A list of strings.
-/
def stringsOf (message : PyStr) : Json → Except DefinitionError (List PyStr)
  | .list values => values.mapM fun
    | .str value => .ok value
    | _ => .error (.invalid message)
  | _ => .error (.invalid message)

section Validate

variable (R : PyRepr)

def checkAll (p : α → Bool) (message : α → PyStr) (values : List α) : Except DefinitionError Unit :=
  match values.find? fun value => !p value with
  | some value => .error (.invalid (message value))
  | none => .ok ()

def validateTransition (states terminalStates : List PyStr) (idx : Nat) (raw : Json)
    : Except DefinitionError Transition := do
  let label := py "transition #" ++ pyNat idx
  match raw with
  | .dict raw =>
    let rawFrom := Dict.get raw (py "from")
    let rawTo := Dict.get raw (py "to")
    let fromState ← stateOf states (label ++ py ".from " ++ rawFrom.repr R ++ py " not in `states`") rawFrom
    let toState ← stateOf states (label ++ py ".to " ++ rawTo.repr R ++ py " not in `states`") rawTo
    if fromState ∈ terminalStates then
      .error (.invalid (label ++ py ".from " ++ R.str fromState
        ++ py " is a terminal state; terminal states cannot be the source of a transition"))
    else
      let gates ← stringsOf (label ++ py ".gates must be a list of strings")
        (Dict.getD raw (py "gates") (.list []))
      let requiredCapabilities ← stringsOf (label ++ py ".required_capabilities must be a list of strings")
        (Dict.getD raw (py "required_capabilities") (.list []))
      return { fromState, toState, gates, requiredCapabilities }
  | other => .error (.invalid (label ++ py " must be a dict, got " ++ typeName other))

/--
`_validate_definition`
-/
def validateDefinition (states : List PyStr) (initialState : PyStr) (terminalStates : List PyStr)
    (transitions : List Json) : Except DefinitionError (List Transition) := do
  if states = [] then
    .error (.invalid (py "`states` must be a non-empty list"))
  else
    checkAll (· ≠ []) (fun _ => py "every state must be a non-empty string") states
    if ¬ states.Nodup then
      .error (.invalid (py "duplicate state names in `states`"))
    else
      checkAll (· ∈ states)
        (fun state => py "`initial_state` " ++ R.str state ++ py " must be a member of `states`") [initialState]
      checkAll (· ∈ states)
        (fun state => py "terminal state " ++ R.str state ++ py " must be a member of `states`") terminalStates
      transitions.zipIdx.mapM fun (raw, idx) => validateTransition R states terminalStates idx raw

end Validate

/--
A definition that registration accepts: its states are distinct, and its transitions lead from states that
are not terminal to states.
-/
structure Definition where
  states : List PyStr
  initialState : PyStr
  terminalStates : List PyStr
  transitions : List Transition
  nodup : states.Nodup
  initialState_mem : initialState ∈ states
  toState_mem : ∀ transition ∈ transitions, transition.toState ∈ states
  fromState_not_mem : ∀ transition ∈ transitions, transition.fromState ∉ terminalStates

theorem checkAll_eq_ok_iff {p : α → Bool} {message : α → PyStr} {values : List α} {u : Unit}
    : checkAll p message values = .ok u ↔ ∀ value ∈ values, p value = true := by
  unfold checkAll
  split
  . next value hfind =>
    refine iff_of_false (by simp) ?_
    intro hall
    have hnot := List.find?_some hfind
    rw [hall value (List.mem_of_find?_eq_some hfind)] at hnot
    contradiction
  . next hfind => simpa using hfind

theorem stateOf_mem {states : List PyStr} {message : PyStr} {value : Json} {state : PyStr}
    (h : stateOf states message value = .ok state) : state ∈ states := by
  unfold stateOf at h
  split at h
  . split at h
    . next hmem =>
      cases h
      exact hmem
    . contradiction
  all_goals contradiction

theorem validateTransition_mem {R : PyRepr} {states terminalStates : List PyStr} {idx : Nat} {raw : Json}
    {transition : Transition} (h : validateTransition R states terminalStates idx raw = .ok transition)
    : transition.toState ∈ states ∧ transition.fromState ∉ terminalStates := by
  unfold validateTransition at h
  cases raw with
  | dict raw =>
    simp only [Except.bind_eq_ok_iff] at h
    obtain ⟨fromState, _, toState, htoState, h⟩ := h
    split at h
    . contradiction
    . next hterminal =>
      simp only [Except.bind_eq_ok_iff, Except.pure_eq_ok_iff] at h
      obtain ⟨gates, _, requiredCapabilities, _, h⟩ := h
      subst h
      exact ⟨stateOf_mem htoState, hterminal⟩
  | _ => contradiction

/--
What validation accepts is a definition.
-/
theorem validateDefinition_eq_ok {R : PyRepr} {states : List PyStr} {initialState : PyStr}
    {terminalStates : List PyStr} {raw : List Json} {transitions : List Transition}
    (h : validateDefinition R states initialState terminalStates raw = .ok transitions)
    : states.Nodup ∧ initialState ∈ states
        ∧ ∀ transition ∈ transitions, transition.toState ∈ states ∧ transition.fromState ∉ terminalStates := by
  unfold validateDefinition at h
  split at h
  . contradiction
  . simp only [Except.bind_eq_ok_iff] at h
    obtain ⟨_, _, h⟩ := h
    split at h
    . contradiction
    . next hnodup =>
      simp only [Except.bind_eq_ok_iff, checkAll_eq_ok_iff] at h
      obtain ⟨_, hinitial, _, _, h⟩ := h
      refine ⟨by simpa using hnodup, by simpa using hinitial, ?_⟩
      intro transition htransition
      obtain ⟨_, _, hvalid⟩ := (Except.mem_iff_of_mapM_eq_ok h transition).mp htransition
      exact validateTransition_mem hvalid

/--
`register_definition` of a definition that is not registered yet.
-/
def registerDefinition (R : PyRepr) (states : List PyStr) (initialState : PyStr) (terminalStates : List PyStr)
    (raw : List Json) : Except DefinitionError Definition :=
  match h : validateDefinition R states initialState terminalStates raw with
  | .ok transitions =>
    have hvalid := validateDefinition_eq_ok h
    .ok {
      states := states
      initialState := initialState
      terminalStates := terminalStates
      transitions := transitions
      nodup := hvalid.left
      initialState_mem := hvalid.right.left
      toState_mem := fun transition htransition => (hvalid.right.right transition htransition).left
      fromState_not_mem := fun transition htransition => (hvalid.right.right transition htransition).right
    }
  | .error e => .error e

/--
`find_transition`
-/
def findTransition (definition : Definition) (fromState toState : PyStr) : Option Transition :=
  definition.transitions.find? fun transition =>
    transition.fromState = fromState && transition.toState = toState

/--
The definition has a transition from the one state to the other.
-/
def Definition.Declares (definition : Definition) (fromState toState : PyStr) : Prop :=
  ∃ transition ∈ definition.transitions, transition.fromState = fromState ∧ transition.toState = toState

theorem declares_of_findTransition {definition : Definition} {fromState toState : PyStr} {transition : Transition}
    (h : findTransition definition fromState toState = some transition)
    : definition.Declares fromState toState := by
  refine ⟨transition, List.mem_of_find?_eq_some h, ?_⟩
  simpa using List.find?_some h

end StateMachine
