import Legalise.Python.Json

/-!
This module contains Python's `<` on the values that `json.loads` produces, and `sorted` by such values.
-/

/--
`x < y`
-/
def PyFloat.lt (x y : PyFloat) : Bool :=
  match x, y with
  | .nan, _ => false
  | _, .nan => false
  | .inf a, .inf b => a && !b
  | .inf a, _ => a
  | _, .inf b => !b
  | x, y =>
    match x.value?, y.value? with
    | some p, some q => p < q
    | _, _ => false

namespace Json

mutual

/--
`v < w`, where `none` stands for a `TypeError`: numbers, strings and lists are compared with their like only, and lists
by the first elements in which they differ.
-/
def lt? : Json → Json → Option Bool
  | .str s, .str t => some (s < t)
  | .list vs, .list ws => ltList? vs ws
  | v, w =>
    match v.number?, w.number? with
    | some x, some y => some (x.lt y)
    | _, _ => none

def ltList? : List Json → List Json → Option Bool
  | [], ws => some !ws.isEmpty
  | _ :: _, [] => some false
  | v :: vs, w :: ws => if v.pyEq w then ltList? vs ws else lt? v w

end

theorem lt?_int (m n : Int) : lt? (.int m) (.int n) = some (decide (m < n)) := by
  simp [lt?, number?, PyFloat.lt, PyFloat.value?]

/--
Every two of the values can be compared.
-/
def Comparable (vs : List Json) : Prop :=
  vs.Pairwise fun v w => (lt? v w).isSome = true ∧ (lt? w v).isSome = true

instance (vs : List Json) : Decidable (Comparable vs) := by
  unfold Comparable
  infer_instance

section Sorted

variable {α : Type}

/--
`sorted(xs, key=key)`, where `none` stands for a `TypeError`. Any sort has to compare the neighbours of its result, and
keys that can be compared with all between them can be compared with each other, so no two that cannot are missed.
-/
def sorted (key : α → Json) (xs : List α) : Option (List α) :=
  if Comparable (xs.map key) then some (xs.insertionSort fun x y => lt? (key y) (key x) ≠ some true) else none

theorem sorted_isSome_iff (key : α → Json) (xs : List α) : (sorted key xs).isSome = true ↔ Comparable (xs.map key) := by
  unfold sorted
  split <;> simp [*]

/--
Sorting by two relations that agree on the elements gives the same list.
-/
theorem insertionSort_congr {r s : α → α → Prop} [DecidableRel r] [DecidableRel s] {xs : List α}
    (h : ∀ x ∈ xs, ∀ y ∈ xs, r x y ↔ s x y) : xs.insertionSort r = xs.insertionSort s := by
  have hinsert (x : α) (ys : List α) (h : ∀ y ∈ ys, r x y ↔ s x y) : ys.orderedInsert r x = ys.orderedInsert s x := by
    induction ys with
    | nil => rfl
    | cons y ys ih =>
      rw [List.orderedInsert_cons, List.orderedInsert_cons, ih fun z hz => h z (List.mem_cons_of_mem _ hz)]
      exact if_congr (h y List.mem_cons_self) rfl rfl
  induction xs with
  | nil => rfl
  | cons x xs ih =>
    rw [List.insertionSort_cons, List.insertionSort_cons,
      ih fun y hy z hz => h y (List.mem_cons_of_mem _ hy) z (List.mem_cons_of_mem _ hz)]
    refine hinsert x _ fun y hy => h x List.mem_cons_self y (List.mem_cons_of_mem _ ?_)
    exact (List.mem_insertionSort s).mp hy

end Sorted

end Json
