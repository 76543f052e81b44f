import Legalise.Python.JsonAscii
import Legalise.Python.Web
import Legalise.Lib.Sweep

/-!
This module contains `json.dumps(obj, sort_keys=True, separators=(",", ":"))`: which values are written
as the same text.
-/

namespace Json

/--
Induction on the values inside of a value.
-/
theorem nestedInduction {motive : Json → Prop} (null : motive .null) (bool : ∀ b, motive (.bool b))
    (int : ∀ n, motive (.int n)) (float : ∀ x, motive (.float x)) (str : ∀ s, motive (.str s))
    (list : ∀ vs, (∀ v ∈ vs, motive v) → motive (.list vs))
    (dict : ∀ items, (∀ item ∈ items, motive item.snd) → motive (.dict items)) : ∀ v, motive v
  | .null => null
  | .bool b => bool b
  | .int n => int n
  | .float x => float x
  | .str s => str s
  | .list vs => list vs fun v _ => nestedInduction null bool int float str list dict v
  | .dict items => dict items fun item _ => nestedInduction null bool int float str list dict item.snd
decreasing_by
  . have := List.sizeOf_lt_of_mem ‹v ∈ vs›
    simp only [Json.list.sizeOf_spec]
    omega
  . have := List.sizeOf_lt_of_mem ‹item ∈ items›
    have : sizeOf item = 1 + sizeOf item.fst + sizeOf item.snd := rfl
    simp only [Json.dict.sizeOf_spec]
    omega

section Same

mutual

/--
Equality of values with numbers compared by their type and value. The items of a dictionary may stand
in any order.
-/
def same : Json → Json → Bool
  | .null, .null => true
  | .bool b, .bool c => b == c
  | .int m, .int n => m == n
  | .float x, .float y => x.eq y
  | .str s, .str t => s == t
  | .list vs, .list ws => sameList vs ws
  | .dict vs, .dict ws => vs.length == ws.length && sameDict vs ws
  | _, _ => false

def sameList : List Json → List Json → Bool
  | [], [] => true
  | v :: vs, w :: ws => same v w && sameList vs ws
  | _, _ => false

/--
Every item of the first dictionary has the same value in the second one.
-/
def sameDict : List (PyStr × Json) → Dict → Bool
  | [], _ => true
  | (key, v) :: vs, ws =>
    match List.lookup key ws with
    | some w => same v w && sameDict vs ws
    | none => false

end

mutual

/--
Equality of values with floats compared by a relation of their own. The items of a dictionary may stand in
any order.
-/
def sameBy (floats : PyFloat → PyFloat → Bool) : Json → Json → Bool
  | .null, .null => true
  | .bool b, .bool c => b == c
  | .int m, .int n => m == n
  | .float x, .float y => floats x y
  | .str s, .str t => s == t
  | .list vs, .list ws => sameByList floats vs ws
  | .dict vs, .dict ws => vs.length == ws.length && sameByDict floats vs ws
  | _, _ => false

def sameByList (floats : PyFloat → PyFloat → Bool) : List Json → List Json → Bool
  | [], [] => true
  | v :: vs, w :: ws => sameBy floats v w && sameByList floats vs ws
  | _, _ => false

/--
Every item of the first dictionary has the same value in the second one.
-/
def sameByDict (floats : PyFloat → PyFloat → Bool) : List (PyStr × Json) → Dict → Bool
  | [], _ => true
  | (key, v) :: vs, ws =>
    match List.lookup key ws with
    | some w => sameBy floats v w && sameByDict floats vs ws
    | none => false

end

mutual

/--
Every number in a value is finite.
-/
def Finite : Json → Prop
  | .float x => x.value?.isSome
  | .list vs => FiniteList vs
  | .dict items => FiniteDict items
  | _ => True

def FiniteList : List Json → Prop
  | [] => True
  | v :: vs => Finite v ∧ FiniteList vs

def FiniteDict : List (PyStr × Json) → Prop
  | [] => True
  | (_, v) :: items => Finite v ∧ FiniteDict items

end

theorem finiteList_iff (vs : List Json) : FiniteList vs ↔ ∀ v ∈ vs, v.Finite := by
  induction vs with
  | nil => simp [FiniteList]
  | cons v vs ih => simp [FiniteList, ih]

theorem finiteDict_iff (items : List (PyStr × Json)) : FiniteDict items ↔ ∀ item ∈ items, item.snd.Finite := by
  induction items with
  | nil => simp [FiniteDict]
  | cons item items ih => simp [FiniteDict, ih]

mutual

/--
Every string of a value, those that are keys included, has a property.
-/
def AllStrs (P : PyStr → Prop) : Json → Prop
  | .str s => P s
  | .list vs => AllStrsList P vs
  | .dict items => AllStrsDict P items
  | _ => True

def AllStrsList (P : PyStr → Prop) : List Json → Prop
  | [] => True
  | v :: vs => AllStrs P v ∧ AllStrsList P vs

def AllStrsDict (P : PyStr → Prop) : List (PyStr × Json) → Prop
  | [] => True
  | (key, v) :: items => P key ∧ AllStrs P v ∧ AllStrsDict P items

end

variable {P : PyStr → Prop}

theorem allStrsList_iff (vs : List Json) : AllStrsList P vs ↔ ∀ v ∈ vs, v.AllStrs P := by
  induction vs with
  | nil => simp [AllStrsList]
  | cons v vs ih => simp [AllStrsList, ih]

theorem allStrsDict_iff (items : List (PyStr × Json))
    : AllStrsDict P items ↔ ∀ item ∈ items, P item.fst ∧ item.snd.AllStrs P := by
  induction items with
  | nil => simp [AllStrsDict]
  | cons item items ih => simp [AllStrsDict, ih, and_assoc]

theorem allStrs_of_forall (h : ∀ s, P s) (v : Json) : v.AllStrs P := by
  induction v using nestedInduction with
  | null | bool b | int n | float x => trivial
  | str s => exact h s
  | list vs ih => exact (allStrsList_iff vs).mpr ih
  | dict items ih => exact (allStrsDict_iff items).mpr fun item hitem => ⟨h item.fst, ih item hitem⟩

/--
A value with every string and every number replaced.
-/
structure Leaves where
  str : PyStr → PyStr
  float : PyFloat → PyFloat

mutual

def mapLeaves (f : Leaves) : Json → Json
  | .float x => .float (f.float x)
  | .str s => .str (f.str s)
  | .list vs => .list (mapLeavesList f vs)
  | .dict items => .dict (mapLeavesDict f items)
  | .null => .null
  | .bool b => .bool b
  | .int n => .int n

def mapLeavesList (f : Leaves) : List Json → List Json
  | [] => []
  | v :: vs => mapLeaves f v :: mapLeavesList f vs

def mapLeavesDict (f : Leaves) : List (PyStr × Json) → List (PyStr × Json)
  | [] => []
  | (key, v) :: items => (f.str key, mapLeaves f v) :: mapLeavesDict f items

end

theorem mapLeavesList_eq_map (f : Leaves) (vs : List Json) : mapLeavesList f vs = vs.map (mapLeaves f) := by
  induction vs with
  | nil => rfl
  | cons v vs ih => rw [mapLeavesList, ih, List.map_cons]

theorem mapLeavesDict_eq_map (f : Leaves) (items : List (PyStr × Json))
    : mapLeavesDict f items = items.map fun item => (f.str item.fst, mapLeaves f item.snd) := by
  induction items with
  | nil => rfl
  | cons item items ih => rw [mapLeavesDict, ih, List.map_cons]

mutual

/--
What `sort_keys=True` writes: the items of every dictionary in the order of their keys.
-/
def sortKeys : Json → Json
  | .list vs => .list (sortKeysList vs)
  | .dict items => .dict (Sweep.sortBy Prod.fst (sortKeysDict items))
  | .null => .null
  | .bool b => .bool b
  | .int n => .int n
  | .float x => .float x
  | .str s => .str s

def sortKeysList : List Json → List Json
  | [] => []
  | v :: vs => sortKeys v :: sortKeysList vs

def sortKeysDict : List (PyStr × Json) → List (PyStr × Json)
  | [] => []
  | (key, v) :: items => (key, sortKeys v) :: sortKeysDict items

end

theorem sortKeysList_eq_map (vs : List Json) : sortKeysList vs = vs.map sortKeys := by
  induction vs with
  | nil => rfl
  | cons v vs ih => rw [sortKeysList, ih, List.map_cons]

theorem sortKeysDict_eq_map (items : List (PyStr × Json))
    : sortKeysDict items = items.map fun item => (item.fst, item.snd.sortKeys) := by
  induction items with
  | nil => rfl
  | cons item items ih => rw [sortKeysDict, ih, List.map_cons]

theorem Finite.sortKeys {v : Json} (h : v.Finite) : v.sortKeys.Finite := by
  induction v using nestedInduction with
  | null | bool b | int n | str s => trivial
  | float x => exact h
  | list vs ih =>
    rw [Finite, finiteList_iff] at h
    rw [Json.sortKeys, Finite, finiteList_iff, sortKeysList_eq_map]
    intro w hw
    have ⟨v, hv, hw⟩ := List.mem_map.mp hw
    exact hw ▸ ih v hv (h v hv)
  | dict items ih =>
    rw [Finite, finiteDict_iff] at h
    rw [Json.sortKeys, Finite, finiteDict_iff, sortKeysDict_eq_map]
    intro item hitem
    have ⟨before, hbefore, hitem⟩ := List.mem_map.mp (Sweep.mem_sortBy.mp hitem)
    exact hitem ▸ ih before hbefore (h before hbefore)

theorem AllStrs.sortKeys {v : Json} (h : v.AllStrs P) : v.sortKeys.AllStrs P := by
  induction v using nestedInduction with
  | null | bool b | int n | float x => trivial
  | str s => exact h
  | list vs ih =>
    rw [AllStrs, allStrsList_iff] at h
    rw [Json.sortKeys, AllStrs, allStrsList_iff, sortKeysList_eq_map]
    intro w hw
    have ⟨v, hv, hw⟩ := List.mem_map.mp hw
    exact hw ▸ ih v hv (h v hv)
  | dict items ih =>
    rw [AllStrs, allStrsDict_iff] at h
    rw [Json.sortKeys, AllStrs, allStrsDict_iff, sortKeysDict_eq_map]
    intro item hitem
    have ⟨before, hbefore, hitem⟩ := List.mem_map.mp (Sweep.mem_sortBy.mp hitem)
    have ⟨hkey, hvalue⟩ := h before hbefore
    exact hitem ▸ ⟨hkey, ih before hbefore hvalue⟩

/--
`-0.0` is written as `0.0`.
-/
def dropZeroSign : PyFloat → PyFloat
  | .negZero => .finite 0
  | x => x

/--
A value without the signs of its zeros.
-/
def plainZeros (v : Json) : Json :=
  v.mapLeaves ⟨id, dropZeroSign⟩

theorem eq_iff_dropZeroSign {x y : PyFloat} (hx : x.value?.isSome) (hy : y.value?.isSome)
    : x.eq y = true ↔ dropZeroSign x = dropZeroSign y := by
  cases x <;> cases y <;> simp_all [PyFloat.eq, PyFloat.value?, dropZeroSign]

/--
A dictionary with distinct keys has the same values under some map as another one if and only if
their sorted items have.
-/
theorem lookups_iff_sortBy {γ : Type} {f : Json → γ} {vs ws : Dict} (hvs : (vs.map Prod.fst).Nodup)
    (hws : (ws.map Prod.fst).Nodup)
    : (vs.length = ws.length ∧ ∀ item ∈ vs, ∃ w, List.lookup item.fst ws = some w ∧ f item.snd = f w)
        ↔ Sweep.sortBy Prod.fst (vs.map fun item => (item.fst, f item.snd))
          = Sweep.sortBy Prod.fst (ws.map fun item => (item.fst, f item.snd)) := by
  have hkeys {items : Dict} (h : (items.map Prod.fst).Nodup)
      : ((items.map fun item => (item.fst, f item.snd)).map Prod.fst).Nodup := by
    rw [List.map_map]
    exact h
  have hsub : (∀ item ∈ vs, ∃ w, List.lookup item.fst ws = some w ∧ f item.snd = f w)
      ↔ (vs.map fun item => (item.fst, f item.snd)) ⊆ ws.map fun item => (item.fst, f item.snd) := by
    constructor
    . intro h pair hpair
      have ⟨item, hitem, heq⟩ := List.mem_map.mp hpair
      have ⟨w, hw, hf⟩ := h item hitem
      exact List.mem_map.mpr ⟨(item.fst, w), Web.mem_of_lookup hw, by rw [← heq, hf]⟩
    . intro h item hitem
      have ⟨other, hother, heq⟩ := List.mem_map.mp (h (List.mem_map_of_mem hitem))
      rw [Prod.mk.injEq] at heq
      exact ⟨other.snd, heq.left ▸ Dict.lookup_eq_some_of_mem hws hother, heq.right.symm⟩
  rw [hsub, Sweep.sortBy_eq_iff_perm (hkeys hvs)]
  constructor
  . intro ⟨hlength, hsub⟩
    exact (List.subperm_of_subset (hkeys hvs).of_map hsub).perm_of_length_le (by simp [hlength])
  . intro hperm
    exact ⟨by simpa using hperm.length_eq, hperm.subset⟩

theorem sameByList_iff (floats : PyFloat → PyFloat → Bool) (vs ws : List Json)
    : sameByList floats vs ws = true ↔ List.Forall₂ (fun v w => v.sameBy floats w = true) vs ws := by
  induction vs generalizing ws with
  | nil => cases ws <;> simp [sameByList]
  | cons v vs ih => cases ws <;> simp [sameByList, ih]

theorem sameByDict_iff (floats : PyFloat → PyFloat → Bool) (vs ws : Dict)
    : sameByDict floats vs ws = true
        ↔ ∀ item ∈ vs, ∃ w, List.lookup item.fst ws = some w ∧ item.snd.sameBy floats w = true := by
  induction vs with
  | nil => simp [sameByDict]
  | cons item vs ih =>
    rw [sameByDict, List.forall_mem_cons, ← ih]
    cases List.lookup item.fst ws <;> simp

/--
Comparing floats by value is one of the ways to compare them.
-/
theorem same_eq_sameBy (v w : Json) : v.same w = v.sameBy PyFloat.eq w := by
  induction v using nestedInduction generalizing w with
  | null | bool b | int n | float x | str s => cases w <;> rfl
  | list vs ih =>
    have hlist (ws : List Json) : sameList vs ws = sameByList PyFloat.eq vs ws := by
      induction vs generalizing ws with
      | nil => cases ws <;> rfl
      | cons v vs ihvs =>
        rw [List.forall_mem_cons] at ih
        cases ws with
        | nil => rfl
        | cons w ws => rw [sameList, sameByList, ih.left, ihvs ih.right]
    cases w with
    | list ws => exact hlist ws
    | _ => rfl
  | dict vs ih =>
    have hdict (ws : Dict) : sameDict vs ws = sameByDict PyFloat.eq vs ws := by
      induction vs with
      | nil => rfl
      | cons item vs ihvs =>
        rw [List.forall_mem_cons] at ih
        rw [sameDict, sameByDict]
        cases List.lookup item.fst ws with
        | none => rfl
        | some w => simp only [ih.left, ihvs ih.right]
    cases w with
    | dict ws =>
      rw [same, sameBy, hdict]
    | _ => rfl

theorem map_eq_map_iff_forall₂ {α γ : Type} {f : α → γ} {xs ys : List α}
    : xs.map f = ys.map f ↔ List.Forall₂ (fun x y => f x = f y) xs ys := by
  induction xs generalizing ys with
  | nil => cases ys <;> simp
  | cons x xs ih => cases ys <;> simp [ih]

/--
Values are the same if and only if sorting the keys leaves nothing of their difference but what the
comparison of floats passes over.
-/
theorem sameBy_iff {floats : PyFloat → PyFloat → Bool} {norm : PyFloat → PyFloat}
    (hfloats : ∀ {x y : PyFloat}, x.value?.isSome → y.value?.isSome → (floats x y = true ↔ norm x = norm y))
    {v w : Json} (hv : v.DistinctKeys) (hw : w.DistinctKeys) (hfv : v.Finite) (hfw : w.Finite)
    : v.sameBy floats w = true
        ↔
      v.sortKeys.mapLeaves ⟨id, norm⟩ = w.sortKeys.mapLeaves ⟨id, norm⟩ := by
  induction v using nestedInduction generalizing w with
  | null | bool b | int n | str s => cases w <;> simp [sameBy, sortKeys, mapLeaves]
  | float x =>
    cases w with
    | float y =>
      rw [sameBy, hfloats hfv hfw]
      simp [sortKeys, mapLeaves]
    | _ => simp [sameBy, sortKeys, mapLeaves]
  | list vs ih =>
    cases w with
    | list ws =>
      rw [DistinctKeys, distinctKeysList_iff] at hv hw
      rw [Finite, finiteList_iff] at hfv hfw
      have hall : List.Forall₂ (fun v w => v.sameBy floats w = true) vs ws
          ↔ List.Forall₂
              (fun v w => v.sortKeys.mapLeaves ⟨id, norm⟩ = w.sortKeys.mapLeaves ⟨id, norm⟩) vs ws := by
        rw [List.forall₂_iff_get, List.forall₂_iff_get]
        refine and_congr_right fun _ => forall_congr' fun i => forall₂_congr fun hi hj => ?_
        exact ih _ (List.get_mem ..) (hv _ (List.get_mem ..)) (hw _ (List.get_mem ..))
          (hfv _ (List.get_mem ..)) (hfw _ (List.get_mem ..))
      rw [sameBy, sameByList_iff, hall, ← map_eq_map_iff_forall₂]
      simp only [sortKeys, mapLeaves, sortKeysList_eq_map, mapLeavesList_eq_map, List.map_map,
        Json.list.injEq]
      rfl
    | _ => simp [sameBy, sortKeys, mapLeaves]
  | dict vs ih =>
    cases w with
    | dict ws =>
      rw [DistinctKeys, distinctKeysDict_iff] at hv hw
      rw [Finite, finiteDict_iff] at hfv hfw
      have hall : (∀ item ∈ vs, ∃ w, List.lookup item.fst ws = some w ∧ item.snd.sameBy floats w = true)
          ↔ ∀ item ∈ vs, ∃ w, List.lookup item.fst ws = some w
              ∧ item.snd.sortKeys.mapLeaves ⟨id, norm⟩ = w.sortKeys.mapLeaves ⟨id, norm⟩ := by
        refine forall₂_congr fun item hitem => exists_congr fun w => and_congr_right fun hlookup => ?_
        have hmem := Web.mem_of_lookup hlookup
        exact ih item hitem (hv.right item hitem) (hw.right _ hmem) (hfv item hitem) (hfw _ hmem)
      have hplain (items : Dict) : (Json.dict items).sortKeys.mapLeaves ⟨id, norm⟩
          = .dict (Sweep.sortBy Prod.fst (items.map fun item =>
              (item.fst, item.snd.sortKeys.mapLeaves ⟨id, norm⟩))) := by
        simp only [sortKeys, mapLeaves, sortKeysDict_eq_map, mapLeavesDict_eq_map]
        refine congrArg Json.dict ((Sweep.map_sortBy Prod.fst (by intro _; rfl) _).trans ?_)
        rw [List.map_map]
        rfl
      rw [sameBy, Bool.and_eq_true, beq_iff_eq, sameByDict_iff, hall,
        lookups_iff_sortBy hv.left hw.left (f := fun v => v.sortKeys.mapLeaves ⟨id, norm⟩), hplain, hplain,
        Json.dict.injEq]
    | _ => simp [sameBy, sortKeys, mapLeaves]

/--
Values are the same if and only if nothing but the signs of zeros is left of their difference once the
keys are sorted.
-/
theorem same_iff {v w : Json} (hv : v.DistinctKeys) (hw : w.DistinctKeys) (hfv : v.Finite)
    (hfw : w.Finite) : v.same w = true ↔ v.sortKeys.plainZeros = w.sortKeys.plainZeros := by
  rw [same_eq_sameBy]
  exact sameBy_iff eq_iff_dropZeroSign hv hw hfv hfw

/--
Two replacements, one of which keeps the numbers and the other one the strings, tell values apart.
-/
theorem mapLeaves_inj {f g : Leaves} (hf : Function.Injective f.float)
    (hg : ∀ s t, P s → P t → g.str s = g.str t → s = t) {v w : Json} (hv : v.AllStrs P) (hw : w.AllStrs P)
    (h : v.mapLeaves f = w.mapLeaves f) (h' : v.mapLeaves g = w.mapLeaves g) : v = w := by
  induction v using nestedInduction generalizing w with
  | null | bool b | int n => cases w <;> simp_all [mapLeaves]
  | float x =>
    cases w with
    | float y =>
      rw [mapLeaves, mapLeaves, Json.float.injEq] at h
      rw [hf h]
    | _ => simp [mapLeaves] at h
  | str s =>
    cases w with
    | str t =>
      rw [mapLeaves, mapLeaves, Json.str.injEq] at h'
      rw [hg s t hv hw h']
    | _ => simp [mapLeaves] at h
  | list vs ih =>
    cases w with
    | list ws =>
      rw [AllStrs, allStrsList_iff] at hv hw
      rw [mapLeaves, mapLeaves, Json.list.injEq, mapLeavesList_eq_map, mapLeavesList_eq_map,
        map_eq_map_iff_forall₂, List.forall₂_iff_get] at h h'
      congr 1
      apply List.ext_get h.left
      intro i hi hj
      exact ih _ (List.get_mem ..) (hv _ (List.get_mem ..)) (hw _ (List.get_mem ..)) (h.right i hi hj)
        (h'.right i hi hj)
    | _ => simp [mapLeaves] at h
  | dict vs ih =>
    cases w with
    | dict ws =>
      rw [AllStrs, allStrsDict_iff] at hv hw
      rw [mapLeaves, mapLeaves, Json.dict.injEq, mapLeavesDict_eq_map, mapLeavesDict_eq_map,
        map_eq_map_iff_forall₂, List.forall₂_iff_get] at h h'
      congr 1
      apply List.ext_get h.left
      intro i hi hj
      have ⟨_, hvalue⟩ := Prod.mk.inj (h.right i hi hj)
      have ⟨hkey, hvalue'⟩ := Prod.mk.inj (h'.right i hi hj)
      have ⟨hkeyv, hv⟩ := hv _ (List.get_mem vs ⟨i, hi⟩)
      have ⟨hkeyw, hw⟩ := hw _ (List.get_mem ws ⟨i, hj⟩)
      exact Prod.ext (hg _ _ hkeyv hkeyw hkey) (ih _ (List.get_mem ..) hv hw hvalue hvalue')
    | _ => simp [mapLeaves] at h

end Same

end Json

namespace JsonText

section Units

/--
The UTF-16 code units of a code point.
-/
def units (c : CodePoint) : PyStr :=
  if c.val < 0x10000 then [c]
  else
    [
      Fin.ofNat _ (0xd800 + (c.val - 0x10000) / 0x400),
      Fin.ofNat _ (0xdc00 + (c.val - 0x10000) % 0x400)
    ]

def utf16 (s : PyStr) : PyStr :=
  s.flatMap units

theorem lookup_shortEscapes {c : CodePoint} (hc : 0xd800 ≤ c.val) : shortEscapes.lookup c = none := by
  have hshort : shortEscapes.all fun item => item.fst.val < 0xd800 := by
    decide
  simp only [List.all_eq_true, decide_eq_true_eq] at hshort
  rw [List.lookup_eq_none_iff]
  intro item hitem
  have := hshort item hitem
  rw [bne_iff_ne]
  rintro rfl
  omega

theorem escapeAscii_surrogate {n : Nat} (hlow : 0xd800 ≤ n) (hhigh : n ≤ 0xdfff)
    : escapeAscii (Fin.ofNat _ n) = unicodeEscape n := by
  have hval : (Fin.ofNat 0x110000 n).val = n := Nat.mod_eq_of_lt (by omega)
  unfold escapeAscii
  rw [lookup_shortEscapes (by omega)]
  dsimp only
  rw [hval, if_neg (by omega), if_pos (by omega)]

/--
A code point is written as its code units are.
-/
theorem flatMap_units (c : CodePoint) : (units c).flatMap escapeAscii = escapeAscii c := by
  unfold units
  split
  . simp
  . next hc =>
    have hlt := c.isLt
    simp only [List.flatMap_cons, List.flatMap_nil, List.append_nil]
    rw [escapeAscii_surrogate (by omega) (by omega), escapeAscii_surrogate (by omega) (by omega)]
    unfold escapeAscii
    rw [lookup_shortEscapes (by omega)]
    dsimp only
    rw [if_neg (by omega), if_neg hc]

theorem flatMap_utf16 (s : PyStr) : (utf16 s).flatMap escapeAscii = s.flatMap escapeAscii := by
  unfold utf16
  rw [List.flatMap_assoc]
  simp only [flatMap_units]

theorem lt_of_mem_utf16 {s : PyStr} {c : CodePoint} (hc : c ∈ utf16 s) : c.val < 0x10000 := by
  have ⟨d, _, hc⟩ := List.mem_flatMap.mp hc
  have hlt := d.isLt
  have hval {n : Nat} (hn : n < 0x10000) : (Fin.ofNat 0x110000 n).val < 0x10000 := by
    rw [Fin.val_ofNat, Nat.mod_eq_of_lt (by omega)]
    exact hn
  unfold units at hc
  split at hc
  . next hd =>
    rw [List.mem_singleton] at hc
    exact hc ▸ hd
  . simp only [List.mem_cons, List.not_mem_nil, or_false] at hc
    rcases hc with rfl | rfl
    . exact hval (by omega)
    . exact hval (by omega)

/--
One code unit of a string, escaped or not. No two of them are put together.
-/
def scanUnit : PyStr → Option (CodePoint × PyStr)
  | [] => none
  | c :: s =>
    if c = backslash then
      match s with
      | [] => none
      | letter :: s =>
        if letter = smallU then (scanHex4 s).map fun unit => (Fin.ofNat _ unit.fst, unit.snd)
        else (letterEscapes.lookup letter).map fun c => (c, s)
    else some (c, s)

theorem scanUnit_escapeAscii {c : CodePoint} (hc : c.val < 0x10000) (rest : PyStr)
    : scanUnit (escapeAscii c ++ rest) = some (c, rest) := by
  unfold escapeAscii
  cases hletter : shortEscapes.lookup c with
  | some letter =>
    have hall : shortEscapes.all fun item =>
        item.snd ≠ smallU ∧ letterEscapes.lookup item.snd = some item.fst := by
      decide
    simp only [List.all_eq_true, decide_eq_true_eq] at hall
    have ⟨hu, hback⟩ := hall (c, letter) (Web.mem_of_lookup hletter)
    simp only [List.cons_append, List.nil_append, scanUnit, if_true, hu, if_false, hback, Option.map_some]
  | none =>
    have hself : Fin.ofNat 0x110000 c.val = c := by
      apply Fin.ext
      simp
    dsimp only
    split
    . have hne : c ≠ backslash := by
        rintro rfl
        contradiction
      simp only [List.cons_append, List.nil_append, scanUnit, hne, if_false]
    . simp only [unicodeEscape, List.cons_append, scanUnit, if_true, scanHex4_zfill hc, Option.map_some,
        hself]

/--
Code units are read back up to the closing quote.
-/
theorem flatMap_escapeAscii_inj {s t r r' : PyStr} (hs : ∀ c ∈ s, c.val < 0x10000)
    (ht : ∀ c ∈ t, c.val < 0x10000)
    (h : s.flatMap escapeAscii ++ quoteMark :: r = t.flatMap escapeAscii ++ quoteMark :: r')
    : s = t ∧ r = r' := by
  induction s generalizing t with
  | nil =>
    cases t with
    | nil => simpa using h
    | cons d t =>
      have ⟨e, _, hd, hne⟩ := escapeAscii_eq_cons d
      simp only [List.flatMap_nil, List.nil_append, List.flatMap_cons, hd, List.cons_append,
        List.cons.injEq] at h
      exact absurd h.left.symm hne
  | cons c s ih =>
    cases t with
    | nil =>
      have ⟨e, _, hc, hne⟩ := escapeAscii_eq_cons c
      simp only [List.flatMap_nil, List.nil_append, List.flatMap_cons, hc, List.cons_append,
        List.cons.injEq] at h
      exact absurd h.left hne
    | cons d t =>
      rw [List.flatMap_cons, List.flatMap_cons, List.append_assoc, List.append_assoc] at h
      have hread := congrArg scanUnit h
      rw [scanUnit_escapeAscii (hs c (by simp)), scanUnit_escapeAscii (ht d (by simp)), Option.some.injEq,
        Prod.mk.injEq] at hread
      have ⟨hst, hrest⟩ := ih (fun c hc => hs c (by simp [hc])) (fun c hc => ht c (by simp [hc])) hread.right
      exact ⟨by rw [hread.left, hst], hrest⟩

theorem dumpsAsciiStr_inj {s t r r' : PyStr} (h : dumpsAsciiStr s ++ r = dumpsAsciiStr t ++ r')
    : utf16 s = utf16 t ∧ r = r' := by
  rw [dumpsAsciiStr_append, dumpsAsciiStr_append, List.cons.injEq, ← flatMap_utf16 s, ← flatMap_utf16 t] at h
  exact flatMap_escapeAscii_inj (fun _ => lt_of_mem_utf16) (fun _ => lt_of_mem_utf16) h.right

theorem dumpsAsciiStr_utf16 (s : PyStr) : dumpsAsciiStr (utf16 s) = dumpsAsciiStr s := by
  unfold dumpsAsciiStr
  rw [flatMap_utf16]

end Units

section Canonical

variable (R : PyRepr)

mutual

/--
`json.dumps(obj, separators=(",", ":"))`
-/
def dumpsAscii : Json → PyStr
  | .null => py "null"
  | .bool true => py "true"
  | .bool false => py "false"
  | .int n => pyInt n
  | .float x => dumpsFloat R x
  | .str s => dumpsAsciiStr s
  | .list [] => [openBracket, closeBracket]
  | .list (v :: vs) => openBracket :: (dumpsAscii v ++ asciiItems vs)
  | .dict [] => [openBrace, closeBrace]
  | .dict ((key, v) :: items) =>
    openBrace :: (dumpsAsciiStr key ++ (colon :: (dumpsAscii v ++ asciiPairs items)))

/--
The items of a list after the first one, up to the closing bracket.
-/
def asciiItems : List Json → PyStr
  | [] => [closeBracket]
  | v :: vs => comma :: (dumpsAscii v ++ asciiItems vs)

/--
The items of a dictionary after the first one, up to the closing brace.
-/
def asciiPairs : List (PyStr × Json) → PyStr
  | [] => [closeBrace]
  | (key, v) :: items => comma :: (dumpsAsciiStr key ++ (colon :: (dumpsAscii v ++ asciiPairs items)))

end

/--
`json.dumps(obj, sort_keys=True, separators=(",", ":"))`
-/
def dumpsCanonical (v : Json) : PyStr :=
  dumpsAscii R v.sortKeys

/--
A value with every string as its UTF-16 code units.
-/
def codeUnits (v : Json) : Json :=
  v.mapLeaves ⟨utf16, id⟩

variable {R : PyRepr}

theorem asciiItems_codeUnits (vs : List Json) (h : ∀ v ∈ vs, dumpsAscii R (codeUnits v) = dumpsAscii R v)
    : asciiItems R (vs.map codeUnits) = asciiItems R vs := by
  induction vs with
  | nil => rfl
  | cons v vs ih =>
    rw [List.forall_mem_cons] at h
    rw [List.map_cons, asciiItems, asciiItems, h.left, ih h.right]

theorem asciiPairs_codeUnits (items : List (PyStr × Json))
    (h : ∀ item ∈ items, dumpsAscii R (codeUnits item.snd) = dumpsAscii R item.snd)
    : asciiPairs R (items.map fun item => (utf16 item.fst, codeUnits item.snd)) = asciiPairs R items := by
  induction items with
  | nil => rfl
  | cons item items ih =>
    rw [List.forall_mem_cons] at h
    rw [List.map_cons, asciiPairs, asciiPairs, dumpsAsciiStr_utf16, h.left, ih h.right]

/--
Nothing but the code units of the strings is written.
-/
theorem dumpsAscii_codeUnits (v : Json) : dumpsAscii R (codeUnits v) = dumpsAscii R v := by
  induction v using Json.nestedInduction with
  | null | bool b | int n | float x => rfl
  | str s =>
    rw [codeUnits, Json.mapLeaves, dumpsAscii, dumpsAscii]
    exact dumpsAsciiStr_utf16 s
  | list vs ih =>
    rw [codeUnits, Json.mapLeaves, Json.mapLeavesList_eq_map]
    cases vs with
    | nil => rfl
    | cons v vs =>
      rw [List.forall_mem_cons] at ih
      rw [List.map_cons, dumpsAscii, dumpsAscii]
      exact congrArg (openBracket :: ·) (congrArg₂ (· ++ ·) ih.left (asciiItems_codeUnits vs ih.right))
  | dict items ih =>
    rw [codeUnits, Json.mapLeaves, Json.mapLeavesDict_eq_map]
    cases items with
    | nil => rfl
    | cons item items =>
      rw [List.forall_mem_cons] at ih
      rw [List.map_cons, dumpsAscii, dumpsAscii, dumpsAsciiStr_utf16]
      exact congrArg (openBrace :: dumpsAsciiStr item.fst ++ colon :: ·)
        (congrArg₂ (· ++ ·) ih.left (asciiPairs_codeUnits items ih.right))

/--
What the first character of a text says about the value: numbers start with a digit or a minus sign,
and nothing else does.
-/
def tagOf (c : CodePoint) : Nat :=
  if isDigit c ∨ c = minusSign then 0 else c.val

def tag : Json → Nat
  | .null => 0x6e
  | .bool true => 0x74
  | .bool false => 0x66
  | .int _ | .float _ => 0
  | .str _ => quoteMark.val
  | .list _ => openBracket.val
  | .dict _ => openBrace.val

theorem IntLiteral.tagOf_head {s sign ds : PyStr} {c : CodePoint} (h : IntLiteral s sign c ds)
    : ∃ d t, s = d :: t ∧ tagOf d = 0 := by
  rw [h.eq]
  rcases h.sign_mem with hsign | hsign
  . exact ⟨c, ds, by simp [hsign], if_pos (.inl h.isDigit_head)⟩
  . exact ⟨minusSign, c :: ds, by simp [hsign], if_pos (.inr rfl)⟩

theorem dumpsFloat_eq {x : PyFloat} (hx : x.value?.isSome) : dumpsFloat R x = R.float x := by
  cases x with
  | finite q => rfl
  | negZero => rfl
  | inf negative => contradiction
  | nan => contradiction

theorem dumpsAscii_eq_cons (F : FloatText R) {v : Json} (hv : v.Finite)
    : ∃ c t, dumpsAscii R v = c :: t ∧ tagOf c = tag v := by
  cases v with
  | null => exact ⟨_, _, by rw [dumpsAscii]; rfl, by decide⟩
  | bool b => cases b <;> exact ⟨_, _, by rw [dumpsAscii]; rfl, by decide⟩
  | int n =>
    have ⟨_, _, _, h⟩ := intLiteral_pyInt n
    rw [dumpsAscii]
    exact h.tagOf_head
  | float x =>
    have ⟨_, _, _, _, _, _, heq, hint, _⟩ := F.literal x hv
    have ⟨d, t, hd, htag⟩ := hint.tagOf_head
    rw [dumpsAscii, dumpsFloat_eq hv, heq, hd]
    exact ⟨d, _, rfl, htag⟩
  | str s => exact ⟨_, _, by rw [dumpsAscii]; rfl, show tagOf quoteMark = quoteMark.val by decide⟩
  | list vs =>
    cases vs <;> exact ⟨_, _, by rw [dumpsAscii], show tagOf openBracket = openBracket.val by decide⟩
  | dict items =>
    cases items <;> exact ⟨_, _, by rw [dumpsAscii], show tagOf openBrace = openBrace.val by decide⟩

theorem tag_eq_of_append_eq (F : FloatText R) {v w : Json} (hv : v.Finite) (hw : w.Finite) {r s : PyStr}
    (h : dumpsAscii R v ++ r = dumpsAscii R w ++ s) : tag v = tag w := by
  have ⟨c, _, hc, htag⟩ := dumpsAscii_eq_cons F hv
  have ⟨d, _, hd, htag'⟩ := dumpsAscii_eq_cons F hw
  rw [hc, hd, List.cons_append, List.cons_append, List.cons.injEq] at h
  rw [← htag, ← htag', h.left]

theorem numberEnd_asciiItems (vs : List Json) (s : PyStr) : NumberEnd (asciiItems R vs ++ s) := by
  cases vs <;> rw [asciiItems] <;> exact numberEnd_cons _ (by decide)

theorem numberEnd_asciiPairs (items : List (PyStr × Json)) (s : PyStr)
    : NumberEnd (asciiPairs R items ++ s) := by
  cases items <;> rw [asciiPairs] <;> exact numberEnd_cons _ (by decide)

variable (R) in
/--
The text of a value says where it ends and what the code units of the value are.
-/
def Delimited (v : Json) : Prop :=
  ∀ (w : Json) (r s : PyStr), v.Finite → w.Finite → NumberEnd r → NumberEnd s →
    dumpsAscii R v ++ r = dumpsAscii R w ++ s → codeUnits v = codeUnits w ∧ r = s

theorem asciiItems_inj {vs ws : List Json} (ih : ∀ v ∈ vs, Delimited R v) (hvs : ∀ v ∈ vs, v.Finite)
    (hws : ∀ w ∈ ws, w.Finite) {r s : PyStr} (h : asciiItems R vs ++ r = asciiItems R ws ++ s)
    : vs.map codeUnits = ws.map codeUnits ∧ r = s := by
  induction vs generalizing ws with
  | nil =>
    cases ws with
    | nil => simpa [asciiItems] using h
    | cons w ws =>
      rw [asciiItems, asciiItems, List.cons_append, List.cons_append, List.cons.injEq] at h
      exact absurd h.left (by decide)
  | cons v vs ihvs =>
    cases ws with
    | nil =>
      rw [asciiItems, asciiItems, List.cons_append, List.cons_append, List.cons.injEq] at h
      exact absurd h.left (by decide)
    | cons w ws =>
      rw [List.forall_mem_cons] at ih hvs hws
      simp only [asciiItems, List.cons_append, List.append_assoc, List.cons.injEq, true_and] at h
      have ⟨hv, hrest⟩ := ih.left w _ _ hvs.left hws.left (numberEnd_asciiItems _ _)
        (numberEnd_asciiItems _ _) h
      have ⟨hmap, hrs⟩ := ihvs ih.right hvs.right hws.right hrest
      exact ⟨by rw [List.map_cons, List.map_cons, hv, hmap], hrs⟩

theorem asciiPairs_inj {vs ws : List (PyStr × Json)} (ih : ∀ item ∈ vs, Delimited R item.snd)
    (hvs : ∀ item ∈ vs, item.snd.Finite) (hws : ∀ item ∈ ws, item.snd.Finite) {r s : PyStr}
    (h : asciiPairs R vs ++ r = asciiPairs R ws ++ s)
    : (vs.map fun item => (utf16 item.fst, codeUnits item.snd))
        = (ws.map fun item => (utf16 item.fst, codeUnits item.snd)) ∧ r = s := by
  induction vs generalizing ws with
  | nil =>
    cases ws with
    | nil => simpa [asciiPairs] using h
    | cons w ws =>
      rw [asciiPairs, asciiPairs, List.cons_append, List.cons_append, List.cons.injEq] at h
      exact absurd h.left (by decide)
  | cons v vs ihvs =>
    cases ws with
    | nil =>
      rw [asciiPairs, asciiPairs, List.cons_append, List.cons_append, List.cons.injEq] at h
      exact absurd h.left (by decide)
    | cons w ws =>
      rw [List.forall_mem_cons] at ih hvs hws
      simp only [asciiPairs, List.cons_append, List.append_assoc, List.cons.injEq, true_and] at h
      have ⟨hkey, hvalue⟩ := dumpsAsciiStr_inj h
      simp only [List.cons.injEq, true_and] at hvalue
      have ⟨hv, hrest⟩ := ih.left w.snd _ _ hvs.left hws.left (numberEnd_asciiPairs _ _)
        (numberEnd_asciiPairs _ _) hvalue
      have ⟨hmap, hrs⟩ := ihvs ih.right hvs.right hws.right hrest
      exact ⟨by rw [List.map_cons, List.map_cons, hkey, hv, hmap], hrs⟩

theorem ne_closeBracket (F : FloatText R) {v : Json} (hv : v.Finite) (r s : PyStr)
    : dumpsAscii R v ++ r ≠ closeBracket :: s := by
  intro h
  have ⟨c, t, hc, htag⟩ := dumpsAscii_eq_cons F hv
  rw [hc, List.cons_append, List.cons.injEq] at h
  rw [h.left] at htag
  cases v with
  | bool b => cases b <;> exact absurd htag (by decide)
  | null | int | float | str | list | dict => exact absurd htag (by simp only [tag]; decide)

/--
A finite number is read back as it is.
-/
theorem number_inj (F : FloatText R) {v w : Json} (hv : v.Finite) (hw : w.Finite) (htagv : tag v = 0)
    (htagw : tag w = 0) {r s : PyStr} (hr : NumberEnd r) (hs : NumberEnd s)
    (h : dumpsAscii R v ++ r = dumpsAscii R w ++ s) : v = w ∧ r = s := by
  have hread {v : Json} (hv : v.Finite) (htag : tag v = 0) {r : PyStr} (hr : NumberEnd r)
      : scanNumber F.parse (dumpsAscii R v ++ r) = some (v, r) := by
    cases v with
    | int n =>
      rw [dumpsAscii]
      exact scanNumber_int F.parse n hr
    | float x =>
      rw [dumpsAscii, dumpsFloat_eq hv]
      exact scanNumber_float F hv hr
    | bool b => cases b <;> exact absurd htag (by decide)
    | null => exact absurd htag (by decide)
    | str s => exact absurd (show quoteMark.val = 0 from htag) (by decide)
    | list vs => exact absurd (show openBracket.val = 0 from htag) (by decide)
    | dict items => exact absurd (show openBrace.val = 0 from htag) (by decide)
  have := hread hv htagv hr
  rw [h, hread hw htagw hs, Option.some.injEq, Prod.mk.injEq] at this
  exact ⟨this.left.symm, this.right.symm⟩

/--
Texts of values are only equal if the code units of the values are.
-/
theorem delimited (F : FloatText R) (v : Json) : Delimited R v := by
  induction v using Json.nestedInduction with
  | int n =>
    intro w r s hv hw hr hs h
    have htag := tag_eq_of_append_eq F hv hw h
    have ⟨heq, hrs⟩ := number_inj F hv hw rfl htag.symm hr hs h
    exact ⟨congrArg codeUnits heq, hrs⟩
  | float x =>
    intro w r s hv hw hr hs h
    have htag := tag_eq_of_append_eq F hv hw h
    have ⟨heq, hrs⟩ := number_inj F hv hw rfl htag.symm hr hs h
    exact ⟨congrArg codeUnits heq, hrs⟩
  | null =>
    intro w r s hv hw hr hs h
    have htag := tag_eq_of_append_eq F hv hw h
    cases w with
    | null => exact ⟨rfl, List.append_cancel_left h⟩
    | bool b => cases b <;> exact absurd htag (by decide)
    | int | float | str | list | dict => exact absurd htag (by simp [tag])
  | bool b =>
    intro w r s hv hw hr hs h
    have htag := tag_eq_of_append_eq F hv hw h
    cases w with
    | bool c =>
      have hbc : b = c := by
        cases b <;> cases c <;> first | rfl | exact absurd htag (by decide)
      subst hbc
      exact ⟨rfl, List.append_cancel_left h⟩
    | null | int | float | str | list | dict => cases b <;> exact absurd htag (by simp [tag])
  | str t =>
    intro w r s hv hw hr hs h
    have htag := tag_eq_of_append_eq F hv hw h
    cases w with
    | str u =>
      rw [dumpsAscii, dumpsAscii] at h
      have ⟨hunits, hrs⟩ := dumpsAsciiStr_inj h
      exact ⟨congrArg Json.str hunits, hrs⟩
    | bool b => cases b <;> exact absurd htag (by simp [tag])
    | null | int | float | list | dict => exact absurd htag (by simp [tag])
  | list vs ih =>
    intro w r s hv hw hr hs h
    have htag := tag_eq_of_append_eq F hv hw h
    cases w with
    | list ws =>
      rw [Json.Finite, Json.finiteList_iff] at hv hw
      have hitems : vs.map codeUnits = ws.map codeUnits ∧ r = s := by
        match vs, ws with
        | [], [] => simpa [dumpsAscii] using h
        | [], w :: ws =>
          simp only [dumpsAscii, List.cons_append, List.nil_append, List.append_assoc, List.cons.injEq,
            true_and] at h
          exact absurd h.symm (ne_closeBracket F (hw w (by simp)) _ _)
        | v :: vs, [] =>
          simp only [dumpsAscii, List.cons_append, List.nil_append, List.append_assoc, List.cons.injEq,
            true_and] at h
          exact absurd h (ne_closeBracket F (hv v (by simp)) _ _)
        | v :: vs, w :: ws =>
          apply asciiItems_inj ih hv hw
          rw [dumpsAscii, dumpsAscii, List.cons_append, List.cons_append, List.cons.injEq] at h
          rw [asciiItems, asciiItems, List.cons_append, List.cons_append, h.right]
      refine ⟨?_, hitems.right⟩
      simp only [codeUnits, Json.mapLeaves, Json.mapLeavesList_eq_map]
      exact congrArg Json.list hitems.left
    | bool b => cases b <;> exact absurd htag (by simp [tag])
    | null | int | float | str | dict => exact absurd htag (by simp [tag])
  | dict vs ih =>
    intro w r s hv hw hr hs h
    have htag := tag_eq_of_append_eq F hv hw h
    cases w with
    | dict ws =>
      rw [Json.Finite, Json.finiteDict_iff] at hv hw
      have hitems : (vs.map fun item => (utf16 item.fst, codeUnits item.snd))
          = (ws.map fun item => (utf16 item.fst, codeUnits item.snd)) ∧ r = s := by
        match vs, ws with
        | [], [] => simpa [dumpsAscii] using h
        | [], w :: ws =>
          simp only [dumpsAscii, dumpsAsciiStr, List.cons_append, List.cons.injEq] at h
          exact absurd h.right.left (by decide)
        | v :: vs, [] =>
          simp only [dumpsAscii, dumpsAsciiStr, List.cons_append, List.cons.injEq] at h
          exact absurd h.right.left (by decide)
        | v :: vs, w :: ws =>
          apply asciiPairs_inj ih hv hw
          rw [dumpsAscii, dumpsAscii, List.cons_append, List.cons_append, List.cons.injEq] at h
          rw [asciiPairs, asciiPairs, List.cons_append, List.cons_append, h.right]
      refine ⟨?_, hitems.right⟩
      simp only [codeUnits, Json.mapLeaves, Json.mapLeavesDict_eq_map]
      exact congrArg Json.dict hitems.left
    | bool b => cases b <;> exact absurd htag (by simp [tag])
    | null | int | float | str | list => exact absurd htag (by simp [tag])

/--
Two values are written as the same text if and only if they have the same code units in the same order
of keys.
-/
theorem dumpsCanonical_eq_iff (F : FloatText R) {v w : Json} (hv : v.Finite) (hw : w.Finite)
    : dumpsCanonical R v = dumpsCanonical R w ↔ codeUnits v.sortKeys = codeUnits w.sortKeys := by
  constructor
  . intro h
    have hend : NumberEnd [] := by
      intro c hc
      contradiction
    exact (delimited F v.sortKeys w.sortKeys [] [] hv.sortKeys hw.sortKeys hend hend
      (congrArg (· ++ []) h)).left
  . intro h
    unfold dumpsCanonical
    rw [← dumpsAscii_codeUnits v.sortKeys, h, dumpsAscii_codeUnits]

/--
A text with nothing that `ensure_ascii` would escape.
-/
def IsAscii (s : PyStr) : Prop :=
  ∀ c ∈ s, c.val < 0x7f

instance (s : PyStr) : Decidable (IsAscii s) :=
  List.decidableBAll _ s

theorem isAscii_nil : IsAscii [] := by
  simp [IsAscii]

theorem isAscii_append (s t : PyStr) : IsAscii (s ++ t) ↔ IsAscii s ∧ IsAscii t := by
  unfold IsAscii
  exact List.forall_mem_append

theorem isAscii_cons {c : CodePoint} (hc : c.val < 0x7f) {s : PyStr} (hs : IsAscii s) : IsAscii (c :: s) := by
  unfold IsAscii
  exact List.forall_mem_cons.mpr ⟨hc, hs⟩

theorem IsAscii.utf8Encodable {s : PyStr} (h : IsAscii s) : Utf8Encodable s := by
  intro c hc
  have := h c hc
  omega

theorem isAscii_digits {ds : PyStr} (hds : ∀ d ∈ ds, isDigit d = true) : IsAscii ds := by
  intro d hd
  have := hds d hd
  simp only [isDigit, Bool.and_eq_true, decide_eq_true_eq] at this
  omega

theorem IntLiteral.isAscii {s sign ds : PyStr} {c : CodePoint} (h : IntLiteral s sign c ds) : IsAscii s := by
  rw [h.eq, isAscii_append]
  refine ⟨?_, isAscii_digits (List.forall_mem_cons.mpr ⟨h.isDigit_head, h.isDigit_tail⟩)⟩
  rcases h.sign_mem with rfl | rfl
  . exact isAscii_nil
  . exact isAscii_cons (by decide) isAscii_nil

theorem FracLiteral.isAscii {s : PyStr} (h : FracLiteral s) : IsAscii s := by
  rcases h with rfl | ⟨ds, rfl, _, hds⟩
  . exact isAscii_nil
  . exact isAscii_cons (by decide) (isAscii_digits hds)

theorem ExpLiteral.isAscii {s : PyStr} (h : ExpLiteral s) : IsAscii s := by
  rcases h with rfl | ⟨e, sign, d, ds, rfl, he, hsign, hd, hds⟩
  . exact isAscii_nil
  . apply isAscii_cons
    . rcases he with rfl | rfl <;> decide
    . rw [isAscii_append]
      refine ⟨?_, isAscii_digits (List.forall_mem_cons.mpr ⟨hd, hds⟩)⟩
      rcases hsign with rfl | rfl | rfl
      . exact isAscii_nil
      . exact isAscii_cons (by decide) isAscii_nil
      . exact isAscii_cons (by decide) isAscii_nil

theorem isAscii_float (F : FloatText R) {x : PyFloat} (hx : x.value?.isSome) : IsAscii (R.float x) := by
  have ⟨_, _, _, _, _, _, heq, hint, hfrac, hexp, _⟩ := F.literal x hx
  rw [heq, isAscii_append, isAscii_append]
  exact ⟨⟨hint.isAscii, hfrac.isAscii⟩, hexp.isAscii⟩

theorem utf8Encodable_asciiItems {vs : List Json} (h : ∀ v ∈ vs, Utf8Encodable (dumpsAscii R v))
    : Utf8Encodable (asciiItems R vs) := by
  induction vs with
  | nil => exact utf8Encodable_cons (by decide) utf8Encodable_nil
  | cons v vs ih =>
    rw [List.forall_mem_cons] at h
    exact utf8Encodable_cons (by decide) ((utf8Encodable_append _ _).mpr ⟨h.left, ih h.right⟩)

theorem utf8Encodable_asciiPairs {items : List (PyStr × Json)}
    (h : ∀ item ∈ items, Utf8Encodable (dumpsAscii R item.snd)) : Utf8Encodable (asciiPairs R items) := by
  induction items with
  | nil => exact utf8Encodable_cons (by decide) utf8Encodable_nil
  | cons item items ih =>
    rw [List.forall_mem_cons] at h
    apply utf8Encodable_cons (by decide)
    rw [utf8Encodable_append]
    refine ⟨utf8Encodable_dumpsAsciiStr _, utf8Encodable_cons (by decide) ?_⟩
    exact (utf8Encodable_append _ _).mpr ⟨h.left, ih h.right⟩

/--
Whatever the strings of a value are, its text can be encoded.
-/
theorem utf8Encodable_dumpsAscii (F : FloatText R) {v : Json} (hv : v.Finite)
    : Utf8Encodable (dumpsAscii R v) := by
  induction v using Json.nestedInduction with
  | null => exact utf8Encodable_py "null"
  | bool b => cases b <;> exact utf8Encodable_py _
  | int n => exact utf8Encodable_pyInt n
  | float x =>
    rw [dumpsAscii, dumpsFloat_eq hv]
    exact (isAscii_float F hv).utf8Encodable
  | str s => exact utf8Encodable_dumpsAsciiStr s
  | list vs ih =>
    rw [Json.Finite, Json.finiteList_iff] at hv
    cases vs with
    | nil => exact utf8Encodable_cons (by decide) (utf8Encodable_cons (by decide) utf8Encodable_nil)
    | cons v vs =>
      have hvs := utf8Encodable_asciiItems fun v hv' => ih v hv' (hv v hv')
      rw [asciiItems] at hvs
      rw [dumpsAscii]
      exact utf8Encodable_cons (by decide) (hvs.subset (List.subset_cons_self _ _))
  | dict items ih =>
    rw [Json.Finite, Json.finiteDict_iff] at hv
    cases items with
    | nil => exact utf8Encodable_cons (by decide) (utf8Encodable_cons (by decide) utf8Encodable_nil)
    | cons item items =>
      have hitems := utf8Encodable_asciiPairs fun item hitem => ih item hitem (hv item hitem)
      rw [asciiPairs] at hitems
      rw [dumpsAscii]
      exact utf8Encodable_cons (by decide) (hitems.subset (List.subset_cons_self _ _))

end Canonical

end JsonText
