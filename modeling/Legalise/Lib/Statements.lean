import Mathlib

/-!
This module contains programs that read a database with several statements. Every statement sees one
view of the data, and other transactions may change the data between any two of them. The same
program is run on one snapshot or against a changing database.
-/

/--
A program whose statements see views of type `V`.
-/
inductive Stmts (V α : Type) where
  | ret (a : α)
  | query (next : V → Stmts V α)

namespace Stmts

variable {V α β : Type}

def bind : Stmts V α → (α → Stmts V β) → Stmts V β
  | .ret a, f => f a
  | .query next, f => .query fun view => (next view).bind f

instance : Monad (Stmts V) where
  pure := .ret
  bind := bind

/--
One statement that returns what it selects.
-/
def select (f : V → α) : Stmts V α :=
  .query fun view => .ret (f view)

/--
Run a program whose statements see the given views one after the other. The result comes with the
number of statements.
-/
def exec : Stmts V α → (Nat → V) → α × Nat
  | .ret a, _ => (a, 0)
  | .query next, views =>
    let (a, n) := (next (views 0)).exec fun i => views (i + 1)
    (a, n + 1)

/--
Run a program while the database does not change.
-/
def runOn (view : V) (p : Stmts V α) : α :=
  (p.exec fun _ => view).fst

@[simp]
theorem exec_pure (a : α) (views : Nat → V) : (pure a : Stmts V α).exec views = (a, 0) := rfl

@[simp]
theorem exec_select (f : V → α) (views : Nat → V) : (select f).exec views = (f (views 0), 1) := rfl

@[simp]
theorem exec_bind (p : Stmts V α) (f : α → Stmts V β) (views : Nat → V)
    : (p >>= f).exec views
        = (((f (p.exec views).fst).exec fun i => views (i + (p.exec views).snd)).fst,
          ((f (p.exec views).fst).exec fun i => views (i + (p.exec views).snd)).snd
            + (p.exec views).snd) := by
  induction p generalizing views with
  | ret a => rfl
  | query next ih =>
    have := ih (views 0) fun i => views (i + 1)
    show exec (.query fun view => (next view).bind f) views = _
    have hnext : (next (views 0)).bind f = next (views 0) >>= f := rfl
    simp only [exec, hnext, this]
    simp [Nat.add_assoc]

end Stmts
