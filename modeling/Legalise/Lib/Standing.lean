import Mathlib

/-!
This module contains histories of events that give and take keys. A key stands if an event has given it
and no event since then has taken it. A machine whose steps hold exactly what their events say holds
exactly what stands.
-/

/--
A machine that does what its inputs ask for and reports an event each time.
-/
structure Ledger (S O E K : Type) where
  exec : S → O → S × E
  has : S → K → Prop
  gives : E → K → Prop
  takes : E → K → Prop

namespace Ledger

variable {S O E K : Type} (m : Ledger S O E K)

/--
Some event has given the key, and no event after it has taken the key.
-/
def Standing (history : List E) (k : K) : Prop :=
  ∃ before e after, history = before ++ e :: after ∧ m.gives e k ∧ ∀ e' ∈ after, ¬ m.takes e' k

theorem not_standing_nil (k : K) : ¬ m.Standing [] k := by
  rintro ⟨before, e, after, h, _⟩
  simp at h

theorem standing_concat (history : List E) (e : E) (k : K)
    : m.Standing (history ++ [e]) k ↔ m.gives e k ∨ (m.Standing history k ∧ ¬ m.takes e k) := by
  constructor
  . rintro ⟨before, e', after, h, hgives, hafter⟩
    rcases List.eq_nil_or_concat after with rfl | ⟨rest, last, rfl⟩
    . have ⟨_, h⟩ := List.append_inj' h rfl
      rw [List.cons.injEq] at h
      exact .inl (h.left ▸ hgives)
    . rw [List.concat_eq_append, ← List.cons_append, ← List.append_assoc] at h
      have ⟨hhistory, hlast⟩ := List.append_inj' h rfl
      rw [List.cons.injEq] at hlast
      refine .inr ⟨⟨before, e', rest, hhistory, hgives, fun x hx => hafter x (by simp [hx])⟩, ?_⟩
      exact hlast.left ▸ hafter last (by simp)
  . rintro (hgives | ⟨⟨before, e', after, rfl, hgives, hafter⟩, htakes⟩)
    . exact ⟨history, e, [], rfl, hgives, by simp⟩
    . refine ⟨before, e', after ++ [e], by simp, hgives, fun x hx => ?_⟩
      cases List.mem_append.mp hx with
      | inl hx => exact hafter x hx
      | inr hx => exact List.mem_singleton.mp hx ▸ htakes

/--
The state after some inputs.
-/
def after (s : S) : List O → S
  | [] => s
  | o :: os => after (m.exec s o).fst os

/--
The events of some inputs.
-/
def history (s : S) : List O → List E
  | [] => []
  | o :: os => (m.exec s o).snd :: history (m.exec s o).fst os

theorem after_concat (s : S) (os : List O) (o : O)
    : m.after s (os ++ [o]) = (m.exec (m.after s os) o).fst := by
  induction os generalizing s with
  | nil => rfl
  | cons p os ih => exact ih _

theorem history_concat (s : S) (os : List O) (o : O)
    : m.history s (os ++ [o]) = m.history s os ++ [(m.exec (m.after s os) o).snd] := by
  induction os generalizing s with
  | nil => rfl
  | cons p os ih =>
    rw [List.cons_append, history, ih]
    rfl

/--
A step holds what its event gives, and of what it held what its event does not take.
-/
def Exact (s : S) (o : O) : Prop :=
  ∀ k, m.has (m.exec s o).fst k
    ↔ m.gives (m.exec s o).snd k ∨ (m.has s k ∧ ¬ m.takes (m.exec s o).snd k)

/--
The machine holds exactly what stands.
-/
def Agrees (s : S) (os : List O) : Prop :=
  ∀ k, m.has (m.after s os) k ↔ m.Standing (m.history s os) k

theorem agrees_concat_iff {s : S} {os : List O} {o : O} (h : m.Agrees s os)
    : m.Agrees s (os ++ [o]) ↔ m.Exact (m.after s os) o := by
  unfold Agrees Exact
  simp only [after_concat, history_concat, standing_concat, h _]

/--
A machine that holds nothing at first holds exactly what stands after every input of a run if and only
if every step of the run is exact.
-/
theorem agrees_iff_exact {s : S} (h : ∀ k, ¬ m.has s k) (os : List O)
    : (∀ earlier, earlier <+: os → m.Agrees s earlier)
        ↔ ∀ earlier o, earlier ++ [o] <+: os → m.Exact (m.after s earlier) o := by
  constructor
  . intro hagrees earlier o hbegin
    have hbefore := hagrees earlier ((List.prefix_append _ _).trans hbegin)
    exact (m.agrees_concat_iff hbefore).mp (hagrees _ hbegin)
  . intro hexact earlier
    induction earlier using List.reverseRecOn with
    | nil =>
      intro _ k
      exact iff_of_false (h k) (m.not_standing_nil k)
    | append_singleton earlier o ih =>
      intro hbegin
      have hbefore := ih ((List.prefix_append _ _).trans hbegin)
      exact (m.agrees_concat_iff hbefore).mpr (hexact earlier o hbegin)

end Ledger
