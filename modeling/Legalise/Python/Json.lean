import Legalise.Python.Str

/-!
This module contains the values that `json.loads` produces and what the repository does with them:
lookup, truthiness, `==`, `str` and iteration.
-/

/--
Python's `float`. Finite values other than `-0.0` are the rationals they stand for.
-/
inductive PyFloat where
  | finite (value : ℚ)
  | negZero
  | inf (negative : Bool)
  | nan
  deriving DecidableEq

namespace PyFloat

def value? : PyFloat → Option ℚ
  | .finite q => some q
  | .negZero => some 0
  | .inf _ => none
  | .nan => none

/--
`x == y`
-/
def eq (x y : PyFloat) : Bool :=
  match x, y with
  | .inf a, .inf b => a == b
  | x, y =>
    match x.value?, y.value? with
    | some p, some q => p == q
    | _, _ => false

end PyFloat

/--
A value that `json.loads` produces. The items of a `dict` stand in insertion order under pairwise
distinct keys, lookup takes the first item of a key.
-/
inductive Json where
  | null
  | bool (b : Bool)
  | int (n : Int)
  | float (x : PyFloat)
  | str (s : PyStr)
  | list (xs : List Json)
  | dict (items : List (PyStr × Json))

instance : Inhabited Json where
  default := .null

abbrev Dict := List (PyStr × Json)

/--
The exceptions that leave the modelled functions.
-/
inductive PyErr where
  | attributeError (name : PyStr)
  | keyError (key : PyStr)
  | typeError
  | unicodeEncodeError
  | recursionError
  deriving DecidableEq

/--
`repr` of the two kinds of leaves whose rendering is not modelled further.
-/
structure PyRepr where
  float : PyFloat → PyStr
  str : PyStr → PyStr

/--
A rendering for concrete runs: strings without quotes and escapes are put between single quotes, and
a float is written as its numerator and denominator around a point.
-/
def PyRepr.quoted : PyRepr where
  float
    | .finite q => pyInt q.num ++ py "." ++ pyNat q.den
    | .negZero => py "-0.0"
    | .inf _ => py "inf"
    | .nan => py "nan"
  str s := py "'" ++ s ++ py "'"

namespace Dict

/--
`d.get(key, default)`
-/
def getD (d : Dict) (key : PyStr) (default : Json) : Json :=
  (List.lookup key d).getD default

/--
`d.get(key)`
-/
def get (d : Dict) (key : PyStr) : Json :=
  d.getD key .null

/--
`d[key]`
-/
def getItem (d : Dict) (key : PyStr) : Except PyErr Json :=
  match List.lookup key d with
  | some value => .ok value
  | none => .error (.keyError key)

@[simp]
theorem lookup_cons_self (key : PyStr) (value : Json) (d : Dict) :
    List.lookup key ((key, value) :: d) = some value := by
  simp

theorem lookup_cons_of_ne {key name : PyStr} (h : name ≠ key) (value : Json) (d : Dict) :
    List.lookup name ((key, value) :: d) = List.lookup name d := by
  rw [List.lookup_cons, beq_false_of_ne h]

@[simp]
theorem get_cons_self (key : PyStr) (value : Json) (d : Dict) :
    Dict.get ((key, value) :: d) key = value := by
  simp [get, getD]

theorem get_cons_of_ne {key name : PyStr} (h : name ≠ key) (value : Json) (d : Dict) :
    Dict.get ((key, value) :: d) name = d.get name := by
  unfold get getD
  rw [lookup_cons_of_ne h]

@[simp]
theorem getItem_cons_self (key : PyStr) (value : Json) (d : Dict) :
    Dict.getItem ((key, value) :: d) key = .ok value := by
  simp [getItem]

theorem getItem_cons_of_ne {key name : PyStr} (h : name ≠ key) (value : Json) (d : Dict) :
    Dict.getItem ((key, value) :: d) name = d.getItem name := by
  unfold getItem
  rw [lookup_cons_of_ne h]

theorem lookup_eq_some_of_mem {d : Dict} (h : (d.map Prod.fst).Nodup) {key : PyStr} {value : Json}
    (hmem : (key, value) ∈ d) : List.lookup key d = some value := by
  induction d with
  | nil => contradiction
  | cons item d ih =>
    have ⟨name, other⟩ := item
    rw [List.map_cons, List.nodup_cons] at h
    cases List.mem_cons.mp hmem with
    | inl heq =>
      rw [Prod.mk.injEq] at heq
      rw [heq.left, heq.right, lookup_cons_self]
    | inr hrest =>
      have hne : key ≠ name := by
        rintro rfl
        exact h.left (List.mem_map.mpr ⟨(key, value), hrest, rfl⟩)
      rw [lookup_cons_of_ne hne, ih h.right hrest]

theorem get_eq_of_mem {d : Dict} (h : (d.map Prod.fst).Nodup) {key : PyStr} {value : Json}
    (hmem : (key, value) ∈ d) : d.get key = value := by
  unfold get getD
  rw [lookup_eq_some_of_mem h hmem]
  rfl

theorem getItem_eq_of_mem {d : Dict} (h : (d.map Prod.fst).Nodup) {key : PyStr} {value : Json}
    (hmem : (key, value) ∈ d) : d.getItem key = .ok value := by
  unfold getItem
  rw [lookup_eq_some_of_mem h hmem]

/--
What `get` finds is the value of an item or `None`.
-/
theorem get_mem_or_null (d : Dict) (key : PyStr)
    : d.get key = .null ∨ ∃ item ∈ d, d.get key = item.snd := by
  induction d with
  | nil => exact .inl rfl
  | cons item d ih =>
    have ⟨name, value⟩ := item
    by_cases h : key = name
    . subst h
      exact .inr ⟨(key, value), by simp, by simp⟩
    . rw [get_cons_of_ne h]
      cases ih with
      | inl hnull => exact .inl hnull
      | inr hmem =>
        have ⟨other, hother, hget⟩ := hmem
        exact .inr ⟨other, by simp [hother], hget⟩

theorem get_eq_of_getItem {d : Dict} {key : PyStr} {value : Json} (h : d.getItem key = .ok value) :
    d.get key = value := by
  unfold getItem at h
  split at h
  . next hlookup =>
    injection h with h
    simp [get, getD, hlookup, h]
  . contradiction

end Dict

namespace Json

/--
`value is None`
-/
def isNone : Json → Bool
  | .null => true
  | _ => false

@[simp]
theorem isNone_iff (v : Json) : v.isNone = true ↔ v = .null := by
  cases v <;> simp [isNone]

/--
`bool(value)`
-/
def truthy : Json → Bool
  | .null => false
  | .bool b => b
  | .int n => n != 0
  | .float x => x.value? != some 0
  | .str s => !s.isEmpty
  | .list xs => !xs.isEmpty
  | .dict items => !items.isEmpty

/--
Accessing an attribute of a dictionary, such as `get`, on a value that may not be one.
-/
def asDict : Json → Except PyErr Dict
  | .dict items => .ok items
  | _ => .error (.attributeError (py "get"))

/--
The values that a `for` loop over a value visits.
-/
def iter : Json → Except PyErr (List Json)
  | .list xs => .ok xs
  | .dict items => .ok (items.map fun item => .str item.fst)
  | .str s => .ok (s.map fun c => .str [c])
  | _ => .error .typeError

def number? : Json → Option PyFloat
  | .bool b => some (.finite (if b then 1 else 0))
  | .int n => some (.finite n)
  | .float x => some x
  | _ => none

mutual

/--
`v == w`
-/
def pyEq : Json → Json → Bool
  | .null, .null => true
  | .str s, .str t => s == t
  | .list vs, .list ws => pyEqList vs ws
  | .dict vs, .dict ws => vs.length == ws.length && pyEqDict vs ws
  | v, w =>
    match v.number?, w.number? with
    | some x, some y => x.eq y
    | _, _ => false

def pyEqList : List Json → List Json → Bool
  | [], [] => true
  | v :: vs, w :: ws => pyEq v w && pyEqList vs ws
  | _, _ => false

/--
Every item of the first dictionary has an equal item in the second one.
-/
def pyEqDict : List (PyStr × Json) → Dict → Bool
  | [], _ => true
  | (key, v) :: vs, ws =>
    match List.lookup key ws with
    | some w => pyEq v w && pyEqDict vs ws
    | none => false

end

mutual

/--
`repr(value)`
-/
def repr (R : PyRepr) : Json → PyStr
  | .null => py "None"
  | .bool b => if b then py "True" else py "False"
  | .int n => pyInt n
  | .float x => R.float x
  | .str s => R.str s
  | .list vs => py "[" ++ join (py ", ") (reprList R vs) ++ py "]"
  | .dict items => py "\x7b" ++ join (py ", ") (reprDict R items) ++ py "\x7d"

def reprList (R : PyRepr) : List Json → List PyStr
  | [] => []
  | v :: vs => repr R v :: reprList R vs

def reprDict (R : PyRepr) : List (PyStr × Json) → List PyStr
  | [] => []
  | (key, v) :: items => (R.str key ++ py ": " ++ repr R v) :: reprDict R items

end

/--
`str(value)`
-/
def toStr (R : PyRepr) : Json → PyStr
  | .str s => s
  | v => v.repr R

/--
`None if value is None else str(value)`
-/
def toStr? (R : PyRepr) (v : Json) : Option PyStr :=
  if v.isNone then none else some (v.toStr R)

mutual

/--
The keys of every dictionary in a value are pairwise distinct.
-/
def DistinctKeys : Json → Prop
  | .list vs => DistinctKeysList vs
  | .dict items => (items.map Prod.fst).Nodup ∧ DistinctKeysDict items
  | _ => True

def DistinctKeysList : List Json → Prop
  | [] => True
  | v :: vs => DistinctKeys v ∧ DistinctKeysList vs

def DistinctKeysDict : List (PyStr × Json) → Prop
  | [] => True
  | (_, v) :: items => DistinctKeys v ∧ DistinctKeysDict items

end

theorem map_dict_injective : Function.Injective (List.map Json.dict) := by
  apply List.map_injective_iff.mpr
  intro a b hab
  simpa using hab

theorem distinctKeysList_iff (vs : List Json)
    : DistinctKeysList vs ↔ ∀ v ∈ vs, v.DistinctKeys := by
  induction vs with
  | nil => simp [DistinctKeysList]
  | cons v vs ih => simp [DistinctKeysList, ih]

theorem distinctKeysDict_iff (items : List (PyStr × Json))
    : DistinctKeysDict items ↔ ∀ item ∈ items, item.snd.DistinctKeys := by
  induction items with
  | nil => simp [DistinctKeysDict]
  | cons item items ih => simp [DistinctKeysDict, ih]

@[simp]
theorem toStr_str (R : PyRepr) (s : PyStr) : (Json.str s).toStr R = s := rfl

@[simp]
theorem toStr_int (R : PyRepr) (n : Int) : (Json.int n).toStr R = pyInt n := by
  simp [toStr, repr]

@[simp]
theorem toStr?_null (R : PyRepr) : Json.null.toStr? R = none := rfl

@[simp]
theorem toStr?_str (R : PyRepr) (s : PyStr) : (Json.str s).toStr? R = some s := rfl

@[simp]
theorem toStr?_eq_none_iff (R : PyRepr) (v : Json) : v.toStr? R = none ↔ v = .null := by
  simp [toStr?]

theorem toStr?_eq_some {v : Json} (h : v ≠ .null) (R : PyRepr) : v.toStr? R = some (v.toStr R) := by
  simp [toStr?, h]

@[simp]
theorem pyEq_null_iff (v : Json) : v.pyEq .null = true ↔ v = .null := by
  cases v <;> simp [pyEq, number?]

@[simp]
theorem pyEq_str_iff (v : Json) (s : PyStr) : v.pyEq (.str s) = true ↔ v = .str s := by
  cases v <;> simp [pyEq, number?]

@[simp]
theorem pyEq_int_self (n : Int) : (Json.int n).pyEq (.int n) = true := by
  simp [pyEq, number?, PyFloat.eq, PyFloat.value?]

theorem ne_null_of_pyEq_int {v : Json} {n : Int} (h : v.pyEq (.int n) = true) : v ≠ .null := by
  intro hnull
  simp [hnull, pyEq, number?] at h

end Json
