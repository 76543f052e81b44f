import Legalise.Lib.Chain

/-!
This module contains logs that several transactions append to. Every row has a key, and a
transaction appends a row only while it holds the lock of the key, so that the rows of every key form
a chain. Several keys may share a lock.
-/

namespace LockedLog

variable {T K L R : Type} [DecidableEq K]

/--
The committed rows, and for every transaction the rows it has appended and the locks it holds.
-/
structure State (T L R : Type) where
  committed : List R
  pending : T → List R
  holds : T → L → Prop

/--
What a transaction sees of a key: the committed rows and its own.
-/
def State.rows (key : R → K) (s : State T L R) (t : T) (k : K) : List R :=
  (s.committed ++ s.pending t).filter fun r => key r = k

variable (key : R → K) (lockOf : K → L) (continues : Option R → R → Prop)

/--
A lock has one holder, rows are only appended under it, and every transaction sees chains.
-/
structure Inv (s : State T L R) : Prop where
  exclusive : ∀ t u l, s.holds t l → s.holds u l → t = u
  locked : ∀ t, ∀ r ∈ s.pending t, s.holds t (lockOf (key r))
  chained : ∀ t k, Chained continues (fun _ r => some r) none (s.rows key t k)

/--
The steps of a transaction. Locks are kept until it ends.
-/
inductive Step [DecidableEq T] (t : T) (s : State T L R) : State T L R → Prop where
  | acquire (l : L) (hfree : ∀ u, u ≠ t → ¬ s.holds u l)
    : Step t s { s with holds := Function.update s.holds t fun l' => l' = l ∨ s.holds t l' }
  | append (r : R) (hlock : s.holds t (lockOf (key r)))
    (hcontinues : continues (s.rows key t (key r)).getLast? r)
    : Step t s { s with pending := Function.update s.pending t (s.pending t ++ [r]) }
  | commit
    : Step t s {
        committed := s.committed ++ s.pending t,
        pending := Function.update s.pending t [],
        holds := Function.update s.holds t fun _ => False
      }
  | abort
    : Step t s {
        committed := s.committed,
        pending := Function.update s.pending t [],
        holds := Function.update s.holds t fun _ => False
      }

variable {key lockOf continues} {s s' : State T L R} {t u : T}

namespace State

theorem rows_eq_append (s : State T L R) (t : T) (k : K)
    : s.rows key t k
        = s.committed.filter (fun r => key r = k) ++ (s.pending t).filter (fun r => key r = k) := by
  simp [rows]

end State

namespace Inv

/--
While a transaction holds the lock of a key, the others have no rows of it.
-/
theorem filter_pending_eq_nil (h : Inv key lockOf continues s) (hne : u ≠ t) {k : K}
    (hlock : s.holds u (lockOf k)) : (s.pending t).filter (fun r => key r = k) = [] := by
  rw [List.filter_eq_nil_iff]
  intro r hr hkey
  have hkey : key r = k := by simpa using hkey
  have := h.locked t r hr
  rw [hkey] at this
  exact hne (h.exclusive u t _ hlock this)

theorem committed_chained (h : Inv key lockOf continues s) (t : T) (k : K)
    : Chained continues (fun _ r => some r) none (s.committed.filter fun r => key r = k) := by
  have := h.chained t k
  rw [State.rows_eq_append, Chained.append_iff] at this
  exact this.left

/--
What one transaction sees of a key when another one commits its rows of that key. At most one of
them has any.
-/
theorem committed_pending_chained (h : Inv key lockOf continues s) (hne : u ≠ t) (k : K)
    : Chained continues (fun _ r => some r) none
        (((s.committed ++ s.pending t) ++ s.pending u).filter fun r => key r = k) := by
  rw [List.filter_append]
  by_cases hnil : (s.pending u).filter (fun r => key r = k) = []
  . rw [hnil, List.append_nil]
    exact h.chained t k
  . have ⟨r, hr⟩ := List.exists_mem_of_ne_nil _ hnil
    have ⟨hr, hkey⟩ := List.mem_filter.mp hr
    have hkey : key r = k := by simpa using hkey
    have hlock := h.locked u r hr
    rw [hkey] at hlock
    rw [List.filter_append, h.filter_pending_eq_nil hne hlock, List.append_nil,
      ← State.rows_eq_append]
    exact h.chained u k

end Inv

namespace Step

variable [DecidableEq T]

/--
A step does not touch the rows and the locks of other transactions.
-/
theorem other (h : Step key lockOf continues t s s') (hne : u ≠ t)
    : s'.pending u = s.pending u ∧ s'.holds u = s.holds u := by
  cases h <;> simp [Function.update_of_ne hne]

/--
A transaction that holds the lock of a key sees the same rows of it whatever the others do.
-/
theorem rows_eq (h : Step key lockOf continues t s s') (hinv : Inv key lockOf continues s)
    (hne : u ≠ t) {k : K} (hlock : s.holds u (lockOf k)) : s'.rows key u k = s.rows key u k := by
  rw [State.rows_eq_append, State.rows_eq_append, (h.other hne).left]
  congr 1
  cases h with
  | acquire l hfree => rfl
  | append r hlock hcontinues => rfl
  | commit => simp [hinv.filter_pending_eq_nil hne hlock]
  | abort => rfl

/--
A transaction has every lock that it holds from before, or has got it when nobody else held it.
-/
theorem holds_self (h : Step key lockOf continues t s s') {l : L} (hl : s'.holds t l)
    : s.holds t l ∨ ∀ u, u ≠ t → ¬ s.holds u l := by
  cases h with
  | acquire l' hfree =>
    have hl : l = l' ∨ s.holds t l := by simpa using hl
    cases hl with
    | inl heq => exact .inr (heq ▸ hfree)
    | inr hl => exact .inl hl
  | append r hlock hcontinues => exact .inl hl
  | commit => simp at hl
  | abort => simp at hl

theorem exclusive (h : Step key lockOf continues t s s') (hinv : Inv key lockOf continues s)
    : ∀ u v l, s'.holds u l → s'.holds v l → u = v := by
  have hself (v : T) (l : L) (hne : v ≠ t) (ht : s'.holds t l) : ¬ s'.holds v l := by
    rw [(h.other hne).right]
    intro hv
    cases h.holds_self ht with
    | inl ht => exact hne (hinv.exclusive v t l hv ht)
    | inr hfree => exact hfree v hne hv
  intro u v l hu hv
  by_cases hut : u = t
  . by_cases hvt : v = t
    . rw [hut, hvt]
    . exact absurd hv (hself v l hvt (hut ▸ hu))
  . by_cases hvt : v = t
    . exact absurd hu (hself u l hut (hvt ▸ hv))
    . rw [(h.other hut).right] at hu
      rw [(h.other hvt).right] at hv
      exact hinv.exclusive u v l hu hv

theorem locked (h : Step key lockOf continues t s s') (hinv : Inv key lockOf continues s)
    : ∀ u, ∀ r ∈ s'.pending u, s'.holds u (lockOf (key r)) := by
  intro u
  by_cases hut : u = t
  . subst hut
    cases h with
    | acquire l hfree =>
      intro r hr
      simpa using .inr (hinv.locked u r hr)
    | append r hlock hcontinues =>
      intro r' hr'
      have hr' : r' ∈ s.pending u ∨ r' = r := by simpa using hr'
      cases hr' with
      | inl hold => exact hinv.locked u r' hold
      | inr hnew => exact hnew ▸ hlock
    | commit | abort =>
      intro r hr
      simp at hr
  . rw [(h.other hut).left, (h.other hut).right]
    exact hinv.locked u

theorem chained (h : Step key lockOf continues t s s') (hinv : Inv key lockOf continues s)
    : ∀ u k, Chained continues (fun _ r => some r) none (s'.rows key u k) := by
  intro u k
  cases h with
  | acquire l hfree => exact hinv.chained u k
  | append r hlock hcontinues =>
    by_cases hut : u = t
    . subst hut
      simp only [State.rows, Function.update_self, ← List.append_assoc]
      by_cases hkey : key r = k
      . subst hkey
        rw [List.filter_append, List.filter_cons_of_pos (by simp), List.filter_nil,
          Chained.append_last_iff]
        exact ⟨hinv.chained u (key r), hcontinues⟩
      . simpa [hkey, State.rows] using hinv.chained u k
    . simp only [State.rows, Function.update_of_ne hut]
      exact hinv.chained u k
  | commit =>
    by_cases hut : u = t
    . subst hut
      simp only [State.rows, Function.update_self, List.append_nil]
      exact hinv.chained u k
    . simp only [State.rows, Function.update_of_ne hut]
      exact hinv.committed_pending_chained hut k
  | abort =>
    by_cases hut : u = t
    . subst hut
      simp only [State.rows, Function.update_self, List.append_nil]
      exact hinv.committed_chained u k
    . simp only [State.rows, Function.update_of_ne hut]
      exact hinv.chained u k

theorem inv (h : Step key lockOf continues t s s') (hinv : Inv key lockOf continues s)
    : Inv key lockOf continues s' where
  exclusive := h.exclusive hinv
  locked := h.locked hinv
  chained := h.chained hinv

end Step

end LockedLog
