import Legalise.Lib.Assign
import Legalise.Python.JsonCanonical

/-!
This module contains `json.dumps(obj, sort_keys=True, separators=(",", ":"), ensure_ascii=False)`: which
values are written as the same text, and that what `json.loads` produces has distinct keys.
-/

namespace Json

/--
No string of a value has a surrogate, so that its text can be encoded.
-/
abbrev Encodable (v : Json) : Prop :=
  v.AllStrs Utf8Encodable

/--
Equality of values with numbers compared by their type and their text. The items of a dictionary may
stand in any order.
-/
def sameText (R : PyRepr) (v w : Json) : Bool :=
  v.sameBy (fun x y => R.float x == R.float y) w

theorem mapLeaves_id (v : Json) : v.mapLeaves ⟨id, id⟩ = v := by
  induction v using nestedInduction with
  | null | bool b | int n | float x | str s => rfl
  | list vs ih =>
    rw [mapLeaves, mapLeavesList_eq_map, List.map_congr_left ih, List.map_id']
  | dict items ih =>
    have hitems : items.map (fun item => (item.fst, item.snd.mapLeaves ⟨id, id⟩)) = items.map id :=
      List.map_congr_left fun item hitem => Prod.ext rfl (ih item hitem)
    rw [mapLeaves, mapLeavesDict_eq_map]
    exact congrArg Json.dict (hitems.trans (List.map_id items))

end Json

namespace JsonText

section Raw

variable (R : PyRepr)

mutual

/--
`json.dumps(obj, separators=(",", ":"), ensure_ascii=False)`
-/
def dumpsRaw : Json → PyStr
  | .null => py "null"
  | .bool true => py "true"
  | .bool false => py "false"
  | .int n => pyInt n
  | .float x => dumpsFloat R x
  | .str s => dumpsStr s
  | .list [] => [openBracket, closeBracket]
  | .list (v :: vs) => openBracket :: (dumpsRaw v ++ rawItems vs)
  | .dict [] => [openBrace, closeBrace]
  | .dict ((key, v) :: items) =>
    openBrace :: (dumpsStr key ++ (colon :: (dumpsRaw v ++ rawPairs items)))

/--
The items of a list after the first one, up to the closing bracket.
-/
def rawItems : List Json → PyStr
  | [] => [closeBracket]
  | v :: vs => comma :: (dumpsRaw v ++ rawItems vs)

/--
The items of a dictionary after the first one, up to the closing brace.
-/
def rawPairs : List (PyStr × Json) → PyStr
  | [] => [closeBrace]
  | (key, v) :: items => comma :: (dumpsStr key ++ (colon :: (dumpsRaw v ++ rawPairs items)))

end

/--
`json.dumps(obj, sort_keys=True, separators=(",", ":"), ensure_ascii=False)`
-/
def dumpsCanonicalRaw (v : Json) : PyStr :=
  dumpsRaw R v.sortKeys

/--
What is left to escape of a character that `ensure_ascii=False` has written.
-/
def asciiPoint (c : CodePoint) : PyStr :=
  if c.val < 0x7f then [c] else escapeAscii c

variable {R : PyRepr}

theorem flatMap_asciiPoint {s : PyStr} (h : IsAscii s) : s.flatMap asciiPoint = s := by
  induction s with
  | nil => rfl
  | cons c s ih =>
    have ⟨hc, hs⟩ := List.forall_mem_cons.mp h
    rw [List.flatMap_cons, ih hs, asciiPoint, if_pos hc]
    rfl

theorem isAscii_hex {n : Nat} (hn : n < 0x20) : IsAscii (zfill 4 (digitsText 16 n)) := by
  have hdigits : ∀ d < 16, (digitPoint d).val < 0x7f := by
    decide
  rw [zfill_digitsText (by omega) (by omega) (by omega)]
  intro c hc
  have ⟨d, hd, hdigit⟩ := List.mem_map.mp hc
  exact hdigit ▸ hdigits d (lt_base_of_mem_fixedDigits (by omega) hd)

theorem flatMap_asciiPoint_escape (c : CodePoint) : (escape c).flatMap asciiPoint = escapeAscii c := by
  have hshort : shortEscapes.all fun item => item.snd.val < 0x7f := by
    decide
  simp only [List.all_eq_true, decide_eq_true_eq] at hshort
  unfold escape escapeAscii
  cases hletter : shortEscapes.lookup c with
  | some letter =>
    have hletter := hshort (c, letter) (Web.mem_of_lookup hletter)
    exact flatMap_asciiPoint (isAscii_cons (by decide) (isAscii_cons hletter isAscii_nil))
  | none =>
    dsimp only
    by_cases hcontrol : c.val < 0x20
    . rw [if_pos hcontrol, if_neg (by omega), if_pos (by omega)]
      exact flatMap_asciiPoint (isAscii_cons (by decide) (isAscii_cons (by decide) (isAscii_hex hcontrol)))
    . rw [if_neg hcontrol, List.flatMap_singleton]
      unfold asciiPoint escapeAscii
      rw [hletter]
      split
      . rw [if_pos (by omega)]
      . rfl

theorem flatMap_asciiPoint_dumpsStr (s : PyStr) : (dumpsStr s).flatMap asciiPoint = dumpsAsciiStr s := by
  unfold dumpsStr dumpsAsciiStr
  rw [List.flatMap_cons, List.flatMap_append, List.flatMap_assoc]
  simp only [flatMap_asciiPoint_escape]
  rfl

theorem flatMap_asciiPoint_cons {c : CodePoint} (hc : c.val < 0x7f) (s : PyStr)
    : (c :: s).flatMap asciiPoint = c :: s.flatMap asciiPoint := by
  rw [List.flatMap_cons, asciiPoint, if_pos hc]
  rfl

theorem flatMap_asciiPoint_rawItems {vs : List Json}
    (h : ∀ v ∈ vs, (dumpsRaw R v).flatMap asciiPoint = dumpsAscii R v)
    : (rawItems R vs).flatMap asciiPoint = asciiItems R vs := by
  induction vs with
  | nil => exact flatMap_asciiPoint (isAscii_cons (by decide) isAscii_nil)
  | cons v vs ih =>
    rw [List.forall_mem_cons] at h
    rw [rawItems, asciiItems, flatMap_asciiPoint_cons (by decide), List.flatMap_append, h.left, ih h.right]

theorem flatMap_asciiPoint_rawPairs {items : List (PyStr × Json)}
    (h : ∀ item ∈ items, (dumpsRaw R item.snd).flatMap asciiPoint = dumpsAscii R item.snd)
    : (rawPairs R items).flatMap asciiPoint = asciiPairs R items := by
  induction items with
  | nil => exact flatMap_asciiPoint (isAscii_cons (by decide) isAscii_nil)
  | cons item items ih =>
    rw [List.forall_mem_cons] at h
    rw [rawPairs, asciiPairs, flatMap_asciiPoint_cons (by decide), List.flatMap_append,
      flatMap_asciiPoint_dumpsStr, flatMap_asciiPoint_cons (by decide), List.flatMap_append, h.left,
      ih h.right]

/--
Escaping what is left gives the text with `ensure_ascii`.
-/
theorem flatMap_asciiPoint_dumpsRaw (F : FloatText R) {v : Json} (hv : v.Finite)
    : (dumpsRaw R v).flatMap asciiPoint = dumpsAscii R v := by
  induction v using Json.nestedInduction with
  | null => exact @flatMap_asciiPoint (py "null") (by decide)
  | bool b =>
    cases b with
    | false => exact @flatMap_asciiPoint (py "false") (by decide)
    | true => exact @flatMap_asciiPoint (py "true") (by decide)
  | int n =>
    have ⟨_, _, _, h⟩ := intLiteral_pyInt n
    exact flatMap_asciiPoint h.isAscii
  | float x =>
    rw [dumpsRaw, dumpsAscii, dumpsFloat_eq hv]
    exact flatMap_asciiPoint (isAscii_float F hv)
  | str s => exact flatMap_asciiPoint_dumpsStr s
  | list vs ih =>
    rw [Json.Finite, Json.finiteList_iff] at hv
    cases vs with
    | nil => exact @flatMap_asciiPoint [openBracket, closeBracket] (by decide)
    | cons v vs =>
      rw [List.forall_mem_cons] at ih hv
      rw [dumpsRaw, dumpsAscii, flatMap_asciiPoint_cons (by decide), List.flatMap_append, ih.left hv.left,
        flatMap_asciiPoint_rawItems fun v hmem => ih.right v hmem (hv.right v hmem)]
  | dict items ih =>
    rw [Json.Finite, Json.finiteDict_iff] at hv
    cases items with
    | nil => exact @flatMap_asciiPoint [openBrace, closeBrace] (by decide)
    | cons item items =>
      rw [List.forall_mem_cons] at ih hv
      rw [dumpsRaw, dumpsAscii, flatMap_asciiPoint_cons (by decide), List.flatMap_append,
        flatMap_asciiPoint_dumpsStr, flatMap_asciiPoint_cons (by decide), List.flatMap_append,
        ih.left hv.left,
        flatMap_asciiPoint_rawPairs fun item hmem => ih.right item hmem (hv.right item hmem)]

/--
Strings without surrogates have the same code units only if they are equal.
-/
theorem utf16_inj {s t : PyStr} (hs : Utf8Encodable s) (ht : Utf8Encodable t) (h : utf16 s = utf16 t) : s = t := by
  have hescaped : s.flatMap escapeAscii = t.flatMap escapeAscii := by
    rw [← flatMap_utf16 s, h, flatMap_utf16]
  have hread := scanString_dumpsAsciiStr hs []
  rw [hescaped, scanString_dumpsAsciiStr ht, Option.some.injEq, Prod.mk.injEq] at hread
  exact hread.left.symm

theorem codeUnits_inj {v w : Json} (hv : v.Encodable) (hw : w.Encodable) (h : codeUnits v = codeUnits w)
    : v = w := by
  unfold codeUnits at h
  exact Json.mapLeaves_inj Function.injective_id (fun _ _ => utf16_inj) hv hw h h

/--
Two values without surrogates are written as the same text if and only if they are equal up to the order
of keys.
-/
theorem dumpsCanonicalRaw_eq_iff (F : FloatText R) {v w : Json} (hv : v.Finite) (hw : w.Finite)
    (hev : v.Encodable) (hew : w.Encodable)
    : dumpsCanonicalRaw R v = dumpsCanonicalRaw R w ↔ v.sortKeys = w.sortKeys := by
  unfold dumpsCanonicalRaw
  constructor
  . intro h
    have hascii : dumpsCanonical R v = dumpsCanonical R w := by
      unfold dumpsCanonical
      rw [← flatMap_asciiPoint_dumpsRaw F hv.sortKeys, h, flatMap_asciiPoint_dumpsRaw F hw.sortKeys]
    exact codeUnits_inj hev.sortKeys hew.sortKeys ((dumpsCanonical_eq_iff F hv hw).mp hascii)
  . intro h
    rw [h]

theorem sameText_iff (F : FloatText R) {v w : Json} (hv : v.DistinctKeys) (hw : w.DistinctKeys)
    (hfv : v.Finite) (hfw : w.Finite) : v.sameText R w = true ↔ v.sortKeys = w.sortKeys := by
  have hfloats {x y : PyFloat} (hx : x.value?.isSome) (hy : y.value?.isSome)
      : (R.float x == R.float y) = true ↔ id x = id y := by
    rw [beq_iff_eq]
    constructor
    . intro h
      have := F.parse_repr x hx
      rw [h, F.parse_repr y hy, Option.some.injEq] at this
      exact this.symm
    . intro h
      rw [id, id] at h
      rw [h]
  unfold Json.sameText
  rw [Json.sameBy_iff hfloats hv hw hfv hfw, Json.mapLeaves_id, Json.mapLeaves_id]

theorem utf8Encodable_dumpsStr {s : PyStr} (hs : Utf8Encodable s) : Utf8Encodable (dumpsStr s) := by
  apply utf8Encodable_cons (by decide)
  rw [utf8Encodable_append]
  refine ⟨?_, utf8Encodable_cons (by decide) utf8Encodable_nil⟩
  intro d hd
  have ⟨c, hc, hd⟩ := List.mem_flatMap.mp hd
  unfold escape at hd
  cases hletter : shortEscapes.lookup c with
  | some letter =>
    have hshort : shortEscapes.all fun item => Utf8Encodable [backslash, item.snd] := by
      decide
    simp only [List.all_eq_true, decide_eq_true_eq] at hshort
    rw [hletter] at hd
    exact hshort (c, letter) (Web.mem_of_lookup hletter) d hd
  | none =>
    simp only [hletter] at hd
    split at hd
    . exact utf8Encodable_unicodeEscape c.val d hd
    . rw [List.mem_singleton] at hd
      exact hd ▸ hs c hc

theorem utf8Encodable_rawItems {vs : List Json} (h : ∀ v ∈ vs, Utf8Encodable (dumpsRaw R v))
    : Utf8Encodable (rawItems R vs) := by
  induction vs with
  | nil => exact utf8Encodable_cons (by decide) utf8Encodable_nil
  | cons v vs ih =>
    rw [List.forall_mem_cons] at h
    exact utf8Encodable_cons (by decide) ((utf8Encodable_append _ _).mpr ⟨h.left, ih h.right⟩)

theorem utf8Encodable_rawPairs {items : List (PyStr × Json)}
    (h : ∀ item ∈ items, Utf8Encodable item.fst ∧ Utf8Encodable (dumpsRaw R item.snd))
    : Utf8Encodable (rawPairs R items) := by
  induction items with
  | nil => exact utf8Encodable_cons (by decide) utf8Encodable_nil
  | cons item items ih =>
    rw [List.forall_mem_cons] at h
    apply utf8Encodable_cons (by decide)
    rw [utf8Encodable_append]
    refine ⟨utf8Encodable_dumpsStr h.left.left, utf8Encodable_cons (by decide) ?_⟩
    exact (utf8Encodable_append _ _).mpr ⟨h.left.right, ih h.right⟩

theorem utf8Encodable_dumpsRaw (F : FloatText R) {v : Json} (hv : v.Finite) (hev : v.Encodable)
    : Utf8Encodable (dumpsRaw R v) := by
  induction v using Json.nestedInduction with
  | null => exact utf8Encodable_py "null"
  | bool b => cases b <;> exact utf8Encodable_py _
  | int n => exact utf8Encodable_pyInt n
  | float x =>
    rw [dumpsRaw, dumpsFloat_eq hv]
    exact (isAscii_float F hv).utf8Encodable
  | str s => exact utf8Encodable_dumpsStr hev
  | list vs ih =>
    rw [Json.Finite, Json.finiteList_iff] at hv
    have hev := (Json.allStrsList_iff vs).mp hev
    cases vs with
    | nil => exact utf8Encodable_cons (by decide) (utf8Encodable_cons (by decide) utf8Encodable_nil)
    | cons v vs =>
      have hvs := utf8Encodable_rawItems fun v hmem => ih v hmem (hv v hmem) (hev v hmem)
      rw [rawItems] at hvs
      rw [dumpsRaw]
      exact utf8Encodable_cons (by decide) (hvs.subset (List.subset_cons_self _ _))
  | dict items ih =>
    rw [Json.Finite, Json.finiteDict_iff] at hv
    have hev := (Json.allStrsDict_iff items).mp hev
    cases items with
    | nil => exact utf8Encodable_cons (by decide) (utf8Encodable_cons (by decide) utf8Encodable_nil)
    | cons item items =>
      have hitems := utf8Encodable_rawPairs fun item hmem =>
        ⟨(hev item hmem).left, ih item hmem (hv item hmem) (hev item hmem).right⟩
      rw [rawPairs] at hitems
      rw [dumpsRaw]
      exact utf8Encodable_cons (by decide) (hitems.subset (List.subset_cons_self _ _))

end Raw

section DistinctKeys

/--
The keys of `dict(pairs)` are distinct, and its values are those of pairs.
-/
theorem dictOf_proper (pairs : List (PyStr × Json))
    : ((dictOf pairs).map Prod.fst).Nodup ∧ ∀ item ∈ dictOf pairs, item ∈ pairs := by
  unfold dictOf
  induction pairs using List.reverseRecOn with
  | nil => simp
  | append_singleton pairs pair ih =>
    rw [List.foldl_append, List.foldl_cons, List.foldl_nil]
    generalize pairs.foldl _ [] = d at ih ⊢
    have ⟨hnodup, hmem⟩ := ih
    obtain ⟨key, value⟩ := pair
    dsimp only
    split
    . refine ⟨by rwa [Assign.keys_replace], ?_⟩
      intro item hitem
      have ⟨before, hbefore, heq⟩ := List.mem_map.mp hitem
      split at heq
      . simp [← heq]
      . simp [← heq, hmem before hbefore]
    . next hlookup =>
      rw [Option.not_isSome_iff_eq_none, List.lookup_eq_none_iff] at hlookup
      refine ⟨?_, ?_⟩
      . rw [List.map_append, List.map_singleton, List.nodup_append]
        refine ⟨hnodup, List.nodup_singleton _, ?_⟩
        intro key hkey other hother
        have ⟨item, hitem, heq⟩ := List.mem_map.mp hkey
        rw [List.mem_singleton.mp hother, ← heq]
        exact (bne_iff_ne.mp (hlookup item hitem)).symm
      . intro item hitem
        rw [List.mem_append] at hitem ⊢
        exact hitem.imp_left (hmem item)

variable (parseFloat : PyStr → Option PyFloat)

theorem distinctKeys_scanNumber {s rest : PyStr} {v : Json} (h : scanNumber parseFloat s = some (v, rest))
    : v.DistinctKeys := by
  unfold scanNumber at h
  simp only [Option.bind_eq_bind, Option.bind_eq_some_iff] at h
  have ⟨_, _, h⟩ := h
  split at h
  . cases h
    trivial
  . simp only [Option.bind_eq_some_iff] at h
    have ⟨_, _, h⟩ := h
    cases h
    trivial

/--
What the scanner reads with some fuel has distinct keys.
-/
structure ScansDistinct (fuel : Nat) : Prop where
  once : ∀ s v rest, scanOnce parseFloat fuel s = some (v, rest) → v.DistinctKeys
  items : ∀ s vs rest, scanItems parseFloat fuel s = some (vs, rest) → ∀ v ∈ vs, v.DistinctKeys
  pairs : ∀ s vs rest, scanPairs parseFloat fuel s = some (vs, rest) → ∀ item ∈ vs, item.snd.DistinctKeys

variable {parseFloat}

def isConstant (v : Json) : Bool := v matches .null | .bool _ | .float _

theorem distinctKeys_of_isConstant {v : Json} (h : isConstant v) : v.DistinctKeys := by
  cases v <;> trivial

theorem ScansDistinct.onceSucc {fuel : Nat} (h : ScansDistinct parseFloat fuel) {s rest : PyStr} {v : Json}
    (hscan : scanOnce parseFloat (fuel + 1) s = some (v, rest)) : v.DistinctKeys := by
  cases s with
  | nil => cases hscan
  | cons c s =>
    rw [scanOnce] at hscan
    by_cases hquote : c = quoteMark
    . rw [if_pos hquote] at hscan
      simp only [Option.bind_eq_bind, Option.bind_eq_some_iff] at hscan
      obtain ⟨_, _, hscan⟩ := hscan
      cases hscan
      trivial
    rw [if_neg hquote] at hscan
    by_cases hbrace : c = openBrace
    . rw [if_pos hbrace] at hscan
      cases hskip : skipWs s with
      | nil => simp [hskip] at hscan
      | cons d after =>
        simp only [hskip] at hscan
        split at hscan
        . cases hscan
          exact ⟨List.nodup_nil, trivial⟩
        . simp only [Option.bind_eq_bind, Option.bind_eq_some_iff] at hscan
          obtain ⟨⟨pairs, _⟩, hpairs, hscan⟩ := hscan
          cases hscan
          obtain ⟨hnodup, hmem⟩ := dictOf_proper pairs
          exact ⟨hnodup, (Json.distinctKeysDict_iff _).mpr fun item hitem =>
            h.pairs _ _ _ hpairs item (hmem item hitem)⟩
    rw [if_neg hbrace] at hscan
    by_cases hbracket : c = openBracket
    . rw [if_pos hbracket] at hscan
      cases hskip : skipWs s with
      | nil => simp [hskip] at hscan
      | cons d after =>
        simp only [hskip] at hscan
        split at hscan
        . cases hscan
          trivial
        . simp only [Option.bind_eq_bind, Option.bind_eq_some_iff] at hscan
          obtain ⟨⟨vs, _⟩, hitems, hscan⟩ := hscan
          cases hscan
          exact (Json.distinctKeysList_iff vs).mpr (h.items _ _ _ hitems)
    rw [if_neg hbracket] at hscan
    cases hfind : constants.find? fun constant => constant.fst.isPrefixOf (c :: s) with
    | some constant =>
      have hconstants : constants.all fun constant => isConstant constant.snd := by rfl
      have hleaf := List.all_eq_true.mp hconstants constant (List.mem_of_find?_eq_some hfind)
      simp only [hfind, Option.some.injEq, Prod.mk.injEq] at hscan
      rw [← hscan.left]
      exact distinctKeys_of_isConstant hleaf
    | none =>
      simp only [hfind] at hscan
      exact distinctKeys_scanNumber parseFloat hscan

theorem ScansDistinct.itemsSucc {fuel : Nat} (h : ScansDistinct parseFloat fuel) {s rest : PyStr}
    {vs : List Json} (hscan : scanItems parseFloat (fuel + 1) s = some (vs, rest))
    : ∀ v ∈ vs, v.DistinctKeys := by
  rw [scanItems] at hscan
  simp only [Option.bind_eq_bind, Option.bind_eq_some_iff] at hscan
  obtain ⟨⟨v, after⟩, hv, hscan⟩ := hscan
  have hv := h.once _ _ _ hv
  cases hskip : skipWs after with
  | nil => simp [hskip] at hscan
  | cons c after =>
    simp only [hskip] at hscan
    split at hscan
    . cases hscan
      simpa using hv
    . split at hscan
      . simp only [Option.bind_eq_some_iff] at hscan
        obtain ⟨⟨items, _⟩, hitems, hscan⟩ := hscan
        cases hscan
        exact List.forall_mem_cons.mpr ⟨hv, h.items _ _ _ hitems⟩
      . cases hscan

theorem ScansDistinct.pairsSucc {fuel : Nat} (h : ScansDistinct parseFloat fuel) {s rest : PyStr}
    {items : List (PyStr × Json)} (hscan : scanPairs parseFloat (fuel + 1) s = some (items, rest))
    : ∀ item ∈ items, item.snd.DistinctKeys := by
  cases s with
  | nil => cases hscan
  | cons c s =>
    rw [scanPairs] at hscan
    split at hscan
    . simp only [Option.bind_eq_bind, Option.bind_eq_some_iff] at hscan
      obtain ⟨⟨key, after⟩, _, hscan⟩ := hscan
      cases hskip : skipWs after with
      | nil => simp [hskip] at hscan
      | cons d after =>
        simp only [hskip] at hscan
        split at hscan
        . simp only [Option.bind_eq_some_iff] at hscan
          obtain ⟨⟨v, after⟩, hv, hscan⟩ := hscan
          have hv := h.once _ _ _ hv
          cases hskip : skipWs after with
          | nil => simp [hskip] at hscan
          | cons e after =>
            simp only [hskip] at hscan
            split at hscan
            . cases hscan
              simpa using hv
            . split at hscan
              . simp only [Option.bind_eq_some_iff] at hscan
                obtain ⟨⟨pairs, _⟩, hpairs, hscan⟩ := hscan
                cases hscan
                exact List.forall_mem_cons.mpr ⟨hv, h.pairs _ _ _ hpairs⟩
              . cases hscan
        . cases hscan
    . cases hscan

theorem scansDistinct (fuel : Nat) : ScansDistinct parseFloat fuel := by
  induction fuel with
  | zero =>
    refine ⟨?_, ?_, ?_⟩
    . intro s v rest h
      cases h
    . intro s vs rest h
      cases h
    . intro s vs rest h
      cases h
  | succ fuel ih => exact ⟨fun _ _ _ => ih.onceSucc, fun _ _ _ => ih.itemsSucc, fun _ _ _ => ih.pairsSucc⟩

/--
Whatever `json.loads` produces has distinct keys.
-/
theorem distinctKeys_loads {s : PyStr} {v : Json} (h : loads parseFloat s = some v) : v.DistinctKeys := by
  unfold loads at h
  simp only [Option.bind_eq_bind, Option.bind_eq_some_iff] at h
  have ⟨⟨w, rest⟩, hscan, h⟩ := h
  split at h
  . cases h
    exact (scansDistinct _).once _ _ _ hscan
  . cases h

theorem distinctKeys_loadsBytes {data : Bytes} {v : Json} (h : loadsBytes parseFloat data = some v)
    : v.DistinctKeys := by
  unfold loadsBytes at h
  simp only [Option.bind_eq_bind, Option.bind_eq_some_iff] at h
  have ⟨_, _, h⟩ := h
  exact distinctKeys_loads h

end DistinctKeys

end JsonText
