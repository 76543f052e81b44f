import Mathlib

/-!
This module contains chains: lists in which every element continues from a state that the elements
before it leave behind. Hash chains are the instance where that state is the hash of the element
before, and they commit to their whole history.
-/

variable {α σ κ : Type}

/--
Every element continues from the state that the elements before it lead to.
-/
def Chained (continues : σ → α → Prop) (next : σ → α → σ) : σ → List α → Prop
  | _, [] => True
  | s, x :: xs => continues s x ∧ Chained continues next (next s x) xs

namespace Chained

variable {continues : σ → α → Prop} {next : σ → α → σ}

@[simp]
theorem nil (s : σ) : Chained continues next s [] := trivial

@[simp]
theorem cons_iff (s : σ) (x : α) (xs : List α)
    : Chained continues next s (x :: xs) ↔ continues s x ∧ Chained continues next (next s x) xs := by
  rfl

theorem append_iff (s : σ) (xs ys : List α)
    : Chained continues next s (xs ++ ys)
        ↔
      Chained continues next s xs ∧ Chained continues next (xs.foldl next s) ys := by
  induction xs generalizing s with
  | nil => simp
  | cons x xs ih =>
    rw [List.cons_append, cons_iff, cons_iff, ih, List.foldl_cons]
    exact and_assoc.symm

theorem append_singleton_iff (s : σ) (xs : List α) (x : α)
    : Chained continues next s (xs ++ [x])
        ↔
      Chained continues next s xs ∧ continues (xs.foldl next s) x := by
  simp [append_iff]

/--
A relation between the states of two chains that every element preserves turns the one chain into
the other.
-/
theorem simulate {τ : Type} {continues' : τ → α → Prop} {next' : τ → α → τ} {s : σ} {t : τ}
    {xs : List α} (Rel : σ → τ → Prop) (h : Chained continues next s xs) (hrel : Rel s t)
    (hstep : ∀ x ∈ xs, ∀ s t, Rel s t → continues s x →
      continues' t x ∧ Rel (next s x) (next' t x))
    : Chained continues' next' t xs := by
  induction xs generalizing s t with
  | nil => trivial
  | cons x xs ih =>
    rw [cons_iff] at h ⊢
    have ⟨hx, hnext⟩ := hstep x (by simp) s t hrel h.left
    refine ⟨hx, ih h.right hnext ?_⟩
    intro y hy
    exact hstep y (by simp [hy])

theorem imp {other : σ → α → Prop} {s : σ} {xs : List α} (h : Chained continues next s xs)
    (hother : ∀ x ∈ xs, ∀ t, continues t x → other t x) : Chained other next s xs := by
  apply h.simulate Eq rfl
  intro x hx s t hst hs
  subst hst
  exact ⟨hother x hx s hs, rfl⟩

theorem congr {other : σ → α → Prop} {s : σ} {xs : List α}
    (h : ∀ x ∈ xs, ∀ t, continues t x ↔ other t x)
    : Chained continues next s xs ↔ Chained other next s xs := by
  constructor
  . intro hxs
    exact hxs.imp fun x hx t => (h x hx t).mp
  . intro hxs
    exact hxs.imp fun x hx t => (h x hx t).mpr

/--
What does not depend on the state can be checked for every element by itself.
-/
theorem and_iff {p : α → Prop} {s : σ} {xs : List α}
    : Chained (fun s x => p x ∧ continues s x) next s xs
        ↔
      (∀ x ∈ xs, p x) ∧ Chained continues next s xs := by
  induction xs generalizing s with
  | nil => simp
  | cons x xs ih =>
    rw [cons_iff, cons_iff, ih, List.forall_mem_cons]
    constructor
    . intro ⟨⟨hp, hx⟩, hps, hxs⟩
      exact ⟨⟨hp, hps⟩, hx, hxs⟩
    . intro ⟨⟨hp, hps⟩, hx, hxs⟩
      exact ⟨⟨hp, hx⟩, hps, hxs⟩

theorem map_iff {β : Type} (f : β → α) (s : σ) (xs : List β)
    : Chained continues next s (xs.map f)
        ↔
      Chained (fun s x => continues s (f x)) (fun s x => next s (f x)) s xs := by
  induction xs generalizing s with
  | nil => rfl
  | cons x xs ih => rw [List.map_cons, cons_iff, cons_iff, ih]

/--
A chain that only depends on a part of its state is a chain over that part.
-/
theorem map_state_iff {τ : Type} (g : τ → σ) {next' : τ → α → τ}
    (hnext : ∀ t x, g (next' t x) = next (g t) x) (t : τ) (xs : List α)
    : Chained (fun t x => continues (g t) x) next' t xs ↔ Chained continues next (g t) xs := by
  induction xs generalizing t with
  | nil => rfl
  | cons x xs ih => rw [cons_iff, cons_iff, ih, hnext]

theorem exists_of_mem {s : σ} {xs : List α} (h : Chained continues next s xs) {x : α}
    (hx : x ∈ xs) : ∃ t, continues t x := by
  induction xs generalizing s with
  | nil => contradiction
  | cons y ys ih =>
    rw [cons_iff] at h
    cases List.mem_cons.mp hx with
    | inl heq => exact ⟨s, heq ▸ h.left⟩
    | inr hmem => exact ih h.right hmem

end Chained

/--
A state that is overwritten by every element is the one that the last element leaves.
-/
theorem foldl_const_eq (f : α → σ) (s : σ) (xs : List α) :
    xs.foldl (fun _ x => f x) s = (xs.getLast?.map f).getD s := by
  cases xs using List.reverseRecOn with
  | nil => simp
  | append_singleton xs x => simp

/--
Append to a chain in which every element continues from the one before it.
-/
theorem Chained.append_last_iff {continues : Option α → α → Prop} (xs : List α) (x : α)
    : Chained continues (fun _ x => some x) none (xs ++ [x])
        ↔
      Chained continues (fun _ x => some x) none xs ∧ continues xs.getLast? x := by
  rw [append_singleton_iff, foldl_const_eq]
  cases xs.getLast? <;> rfl

section HashChain

variable {H View : Type} {hash : α → H} {previous : α → Option H} {view : α → View}

/--
Every element names the hash of the element before it, and the first one names none.
-/
def HashLinked (hash : α → H) (previous : α → Option H) (xs : List α) : Prop :=
  Chained (fun before x => previous x = before) (fun _ x => some (hash x)) none xs

theorem HashLinked.append_singleton_iff (xs : List α) (x : α)
    : HashLinked hash previous (xs ++ [x])
        ↔
      HashLinked hash previous xs ∧ previous x = xs.getLast?.map hash := by
  unfold HashLinked
  rw [Chained.append_singleton_iff, foldl_const_eq]
  cases h : xs.getLast? <;> simp

/--
A hash chain commits to its whole history: if the hash of an element determines its `view` and the
hash it names, then two chains that end in the same hash have the same views everywhere. In
particular they are equally long, although nothing fixes the length beforehand.
-/
theorem HashLinked.commit {xs ys : List α} (hx : HashLinked hash previous xs)
    (hy : HashLinked hash previous ys)
    (hcommit : ∀ x ∈ xs, ∀ y ∈ ys, hash x = hash y → view x = view y ∧ previous x = previous y)
    (hlast : xs.getLast?.map hash = ys.getLast?.map hash) : xs.map view = ys.map view := by
  -- The recursion walks both chains backwards, so it is on the last element of `xs`.
  induction xs using List.reverseRecOn generalizing ys with
  | nil =>
    have : ys = [] := by simpa [eq_comm] using hlast
    simp [this]
  | append_singleton xs x ih =>
    cases ys using List.reverseRecOn with
    | nil => simp at hlast
    | append_singleton ys y =>
      rw [append_singleton_iff] at hx hy
      have hxy : hash x = hash y := by simpa using hlast
      have ⟨hview, hprev⟩ := hcommit x (by simp) y (by simp) hxy
      have hrest : xs.map view = ys.map view := by
        apply ih hx.left hy.left
        . intro x' hx' y' hy'
          exact hcommit x' (by simp [hx']) y' (by simp [hy'])
        . rw [← hx.right, ← hy.right, hprev]
      simp [hrest, hview]

end HashChain

section Keyed

variable [DecidableEq κ] {ι : Type}

/--
Walk a list and keep, for every key, the last element of that key that has been seen. Each element
is checked against the one before it of its own key.
-/
def checkKeyed (key : α → κ) (check : Option α → α → List ι) : (κ → Option α) → List α → List ι
  | _, [] => []
  | last, x :: xs =>
    check (last (key x)) x ++ checkKeyed key check (Function.update last (key x) (some x)) xs

/--
The walk reports nothing exactly if the elements of every single key form a chain: elements of other
keys in between make no difference.
-/
theorem checkKeyed_eq_nil_iff (key : α → κ) (check : Option α → α → List ι) (last : κ → Option α)
    (xs : List α)
    : checkKeyed key check last xs = []
        ↔
      ∀ k, Chained (fun before x => check before x = []) (fun _ x => some x) (last k)
        (xs.filter (fun x => key x = k)) := by
  induction xs generalizing last with
  | nil => simp [checkKeyed]
  | cons x xs ih =>
    rw [checkKeyed, List.append_eq_nil_iff, ih]
    constructor
    . intro ⟨hx, hxs⟩ k
      by_cases hk : key x = k
      . subst hk
        simpa [hx] using hxs (key x)
      . have := hxs k
        rw [Function.update_of_ne (Ne.symm hk)] at this
        simpa [hk] using this
    . intro h
      have hx := h (key x)
      simp only [decide_true, List.filter_cons_of_pos, Chained.cons_iff] at hx
      refine ⟨hx.left, ?_⟩
      intro k
      by_cases hk : key x = k
      . subst hk
        simpa using hx.right
      . have := h k
        rw [Function.update_of_ne (Ne.symm hk)]
        simpa [hk] using this

end Keyed
