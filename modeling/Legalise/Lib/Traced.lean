import Mathlib

/-!
This module contains computations that issue commands on the way, and return or raise at the end. What the
commands do is left to whoever runs the trace.
-/

structure Traced (κ ε α : Type) where
  trace : List κ
  result : Except ε α

namespace Traced

variable {κ ε α β : Type}

instance : Monad (Traced κ ε) where
  pure a := { trace := [], result := .ok a }
  bind x f :=
    match x.result with
    | .ok a => { trace := x.trace ++ (f a).trace, result := (f a).result }
    | .error e => { trace := x.trace, result := .error e }

def issue (command : κ) : Traced κ ε Unit where
  trace := [command]
  result := .ok ()

def raise (e : ε) : Traced κ ε α where
  trace := []
  result := .error e

/--
A computation that does not issue commands.
-/
def lift (result : Except ε α) : Traced κ ε α where
  trace := []
  result := result

/--
`try`: what is raised becomes a result.
-/
def attempt (x : Traced κ ε α) : Traced κ ε (Except ε α) where
  trace := x.trace
  result := .ok x.result

@[simp]
theorem trace_pure (a : α) : (pure a : Traced κ ε α).trace = [] := rfl

@[simp]
theorem result_pure (a : α) : (pure a : Traced κ ε α).result = .ok a := rfl

@[simp]
theorem trace_issue (command : κ) : (issue command : Traced κ ε Unit).trace = [command] := rfl

@[simp]
theorem result_issue (command : κ) : (issue command : Traced κ ε Unit).result = .ok () := rfl

@[simp]
theorem trace_raise (e : ε) : (raise e : Traced κ ε α).trace = [] := rfl

@[simp]
theorem result_raise (e : ε) : (raise e : Traced κ ε α).result = .error e := rfl

@[simp]
theorem trace_lift (result : Except ε α) : (lift result : Traced κ ε α).trace = [] := rfl

@[simp]
theorem result_lift (result : Except ε α) : (lift result : Traced κ ε α).result = result := rfl

@[simp]
theorem trace_attempt (x : Traced κ ε α) : (attempt x).trace = x.trace := rfl

@[simp]
theorem result_attempt (x : Traced κ ε α) : (attempt x).result = .ok x.result := rfl

theorem bind_of_ok {x : Traced κ ε α} {a : α} (h : x.result = .ok a) (f : α → Traced κ ε β)
    : x >>= f = { trace := x.trace ++ (f a).trace, result := (f a).result } := by
  simp only [bind, h]

theorem bind_of_error {x : Traced κ ε α} {e : ε} (h : x.result = .error e) (f : α → Traced κ ε β)
    : x >>= f = { trace := x.trace, result := .error e } := by
  simp only [bind, h]

@[simp]
theorem pure_bind (a : α) (f : α → Traced κ ε β) : pure a >>= f = f a := rfl

@[simp]
theorem issue_bind (command : κ) (f : Unit → Traced κ ε β)
    : issue command >>= f = { trace := command :: (f ()).trace, result := (f ()).result } := rfl

@[simp]
theorem raise_bind (e : ε) (f : α → Traced κ ε β) : raise e >>= f = raise e := rfl

@[simp]
theorem attempt_bind (x : Traced κ ε α) (f : Except ε α → Traced κ ε β)
    : attempt x >>= f = { trace := x.trace ++ (f x.result).trace, result := (f x.result).result } := rfl

/--
What holds of all commands of the parts holds of all commands of a sequence.
-/
theorem forall_mem_trace_bind {P : κ → Prop} {x : Traced κ ε α} {f : α → Traced κ ε β}
    (hx : ∀ command ∈ x.trace, P command)
    (hf : ∀ a, x.result = .ok a → ∀ command ∈ (f a).trace, P command)
    : ∀ command ∈ (x >>= f).trace, P command := by
  cases h : x.result with
  | ok a =>
    rw [bind_of_ok h]
    exact List.forall_mem_append.mpr ⟨hx, hf a h⟩
  | error e =>
    rw [bind_of_error h]
    exact hx

theorem result_bind_eq_ok_iff {x : Traced κ ε α} {f : α → Traced κ ε β} {b : β}
    : (x >>= f).result = .ok b ↔ ∃ a, x.result = .ok a ∧ (f a).result = .ok b := by
  cases h : x.result with
  | ok a =>
    rw [bind_of_ok h]
    simp
  | error e =>
    rw [bind_of_error h]
    simp

end Traced
