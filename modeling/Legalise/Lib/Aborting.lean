import Mathlib

/-!
This module contains transactions that fail with a failing statement: no later statement succeeds until the
transaction is rolled back.
-/

namespace Aborting

variable {ε α β : Type}

structure Session where
  failed : Bool

/--
A computation on the session of a transaction.
-/
structure Tx (ε α : Type) where
  run : Session → Except ε α × Session

namespace Tx

instance : Monad (Tx ε) where
  pure a := { run := fun s => (.ok a, s) }
  bind x f := {
    run := fun s =>
      match x.run s with
      | (.ok a, s) => (f a).run s
      | (.error e, s) => (.error e, s)
  }

def raise (e : ε) : Tx ε α where
  run s := (.error e, s)

/--
A statement, with what the database would answer. `aborted` is what it answers to every statement of a failed
transaction.
-/
def statement (aborted : ε) (answer : Except ε α) : Tx ε α where
  run s :=
    if s.failed then (.error aborted, s)
    else
      match answer with
      | .ok a => (.ok a, s)
      | .error e => (.error e, ⟨true⟩)

/--
`try`, with the value for the case that something is raised. Nothing is rolled back.
-/
def orElse (x : Tx ε α) (value : α) : Tx ε α where
  run s :=
    match x.run s with
    | (.ok a, s) => (.ok a, s)
    | (.error _, s) => (.ok value, s)

theorem run_pure (a : α) (s : Session) : (pure a : Tx ε α).run s = (.ok a, s) := by
  rfl

theorem run_bind_of_ok {x : Tx ε α} {s s' : Session} {a : α} (h : x.run s = (.ok a, s')) (f : α → Tx ε β)
    : (x >>= f).run s = (f a).run s' := by
  show (match x.run s with | (.ok a, s) => (f a).run s | (.error e, s) => (.error e, s)) = _
  rw [h]

theorem run_bind_of_error {x : Tx ε α} {s s' : Session} {e : ε} (h : x.run s = (.error e, s')) (f : α → Tx ε β)
    : (x >>= f).run s = (.error e, s') := by
  show (match x.run s with | (.ok a, s) => (f a).run s | (.error e, s) => (.error e, s)) = _
  rw [h]

theorem run_orElse_of_error {x : Tx ε α} {s s' : Session} {e : ε} (h : x.run s = (.error e, s')) (value : α)
    : (x.orElse value).run s = (.ok value, s') := by
  unfold orElse
  dsimp only
  rw [h]

theorem run_statement_ok {s : Session} (h : s.failed = false) (aborted : ε) (a : α)
    : (statement aborted (.ok a)).run s = (.ok a, s) := by
  unfold statement
  dsimp only
  rw [h]
  rfl

theorem run_statement_error {s : Session} (h : s.failed = false) (aborted e : ε)
    : (statement aborted (.error e) : Tx ε α).run s = (.error e, ⟨true⟩) := by
  unfold statement
  dsimp only
  rw [h]
  rfl

/--
A statement that the database would answer is answered exactly if the transaction has not failed.
-/
theorem run_statement_ok_iff (s : Session) (aborted : ε) (a : α)
    : ((statement aborted (.ok a)).run s).fst = .ok a ↔ s.failed = false := by
  unfold statement
  cases h : s.failed <;> simp [h]

end Tx

end Aborting
