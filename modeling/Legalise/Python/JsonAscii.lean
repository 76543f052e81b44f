import Legalise.Python.JsonRoundTrip
import Legalise.Python.Bytes

/-!
This module contains `json.dumps(obj, separators=(",", ":"))` of a dictionary of strings, where every
code point out of ASCII is escaped, and `json.loads` of the bytes it is encoded to.
-/

namespace JsonText

/--
The escape of a UTF-16 code unit.
-/
def unicodeEscape (n : Nat) : PyStr :=
  backslash :: smallU :: zfill 4 (digitsText 16 n)

/--
A code point with `ensure_ascii`. What does not fit into one code unit is written as two surrogates.
-/
def escapeAscii (c : CodePoint) : PyStr :=
  match shortEscapes.lookup c with
  | some letter => [backslash, letter]
  | none =>
    if 0x20 ≤ c.val ∧ c.val < 0x7f then [c]
    else if c.val < 0x10000 then unicodeEscape c.val
    else
      unicodeEscape (0xd800 + (c.val - 0x10000) / 0x400)
        ++ unicodeEscape (0xdc00 + (c.val - 0x10000) % 0x400)

def dumpsAsciiStr (s : PyStr) : PyStr :=
  quoteMark :: (s.flatMap escapeAscii ++ [quoteMark])

/--
The items after the first one, up to the closing brace.
-/
def compactPairs : List (PyStr × PyStr) → PyStr
  | [] => [closeBrace]
  | (key, v) :: items =>
    comma :: (dumpsAsciiStr key ++ (colon :: (dumpsAsciiStr v ++ compactPairs items)))

/--
`json.dumps(obj, separators=(",", ":"))`
-/
def dumpsCompact : List (PyStr × PyStr) → PyStr
  | [] => [openBrace, closeBrace]
  | (key, v) :: items =>
    openBrace :: (dumpsAsciiStr key ++ (colon :: (dumpsAsciiStr v ++ compactPairs items)))

/--
`json.loads(data)` of UTF-8 bytes.
-/
def loadsBytes (parseFloat : PyStr → Option PyFloat) (data : Bytes) : Option Json := do
  let s ← Utf8.decode data
  loads parseFloat s

theorem scanHex4_zfill {n : Nat} (hn : n < 0x10000) (rest : PyStr)
    : scanHex4 (zfill 4 (digitsText 16 n) ++ rest) = some (n, rest) := by
  have hdigits : fixedDigits 16 4 n = [n / 4096 % 16, n / 256 % 16, n / 16 % 16, n % 16] := by
    simp [fixedDigits, Nat.div_div_eq_div_mul]
  have hvalue : ofFixedDigits 16 (fixedDigits 16 4 n) = n := ofFixedDigits_fixedDigits hn
  have hlt (m : Nat) : m % 16 < 16 := Nat.mod_lt m (by omega)
  rw [hdigits] at hvalue
  rw [zfill_digitsText (by omega) (by omega) hn, hdigits]
  simp only [List.map_cons, List.map_nil, List.cons_append, List.nil_append, scanHex4,
    hexVal?_digitPoint (hlt _), Option.bind_eq_bind, Option.bind_some, hvalue]
  rfl

/--
A code unit that is no high surrogate stands for itself.
-/
theorem scanChar_unicodeEscape {n : Nat} (hn : n < 0x10000) (hhigh : ¬ (0xd800 ≤ n ∧ n ≤ 0xdbff))
    (rest : PyStr) : scanChar (unicodeEscape n ++ rest) = some (Fin.ofNat _ n, rest) := by
  simp only [unicodeEscape, List.cons_append, scanChar, if_true, scanUnicode, scanHex4_zfill hn,
    Option.bind_eq_bind, Option.bind_some]
  rw [if_neg]
  . rfl
  . intro h
    simp only [Bool.and_eq_true, decide_eq_true_eq] at h
    exact hhigh h.left

theorem surrogates_eq (n : Nat)
    : 0x10000 + (0xd800 + n / 0x400 - 0xd800) * 0x400 + (0xdc00 + n % 0x400 - 0xdc00) = 0x10000 + n := by
  rw [Nat.add_sub_cancel_left, Nat.add_sub_cancel_left, Nat.add_assoc, Nat.div_add_mod']

theorem scanChar_surrogates {n : Nat} (hn : n < 0x100000) (rest : PyStr)
    : scanChar (unicodeEscape (0xd800 + n / 0x400) ++ unicodeEscape (0xdc00 + n % 0x400) ++ rest)
        = some (Fin.ofNat _ (0x10000 + n), rest) := by
  have htake (s : PyStr) : (backslash :: smallU :: s).take 2 == [backslash, smallU] := by
    simp
  simp only [unicodeEscape, List.cons_append, List.append_assoc, scanChar, if_true, scanUnicode,
    scanHex4_zfill (n := 0xd800 + n / 0x400) (by omega), Option.bind_eq_bind, Option.bind_some, htake,
    List.drop_succ_cons, List.drop_zero, scanHex4_zfill (n := 0xdc00 + n % 0x400) (by omega)]
  rw [if_pos, if_pos]
  . rw [surrogates_eq]
    rfl
  . simp only [Bool.and_eq_true, decide_eq_true_eq]
    omega
  . simp only [Bool.and_eq_true, decide_eq_true_eq, and_true]
    omega

/--
A string of a UTF-8 database has no surrogate of its own that could be taken for half of a pair.
-/
theorem scanChar_escapeAscii {c : CodePoint} (hc : ¬ (0xd800 ≤ c.val ∧ c.val ≤ 0xdfff)) (rest : PyStr)
    : scanChar (escapeAscii c ++ rest) = some (c, rest) := by
  have hself : Fin.ofNat 0x110000 c.val = c := by
    apply Fin.ext
    simp
  unfold escapeAscii
  cases hletter : shortEscapes.lookup c with
  | some letter =>
    have := scanChar_escape c rest
    unfold escape at this
    rwa [hletter] at this
  | none =>
    dsimp only
    split
    . next hprintable =>
      have hc : c ≠ backslash := by
        rintro rfl
        contradiction
      have hlow : ¬ c.val < 0x20 := by omega
      simp only [List.cons_append, List.nil_append, scanChar, hc, hlow, if_false]
    . split
      . next hunit => rw [scanChar_unicodeEscape hunit (by omega), hself]
      . next hunit =>
        have hvalue : 0x10000 + (c.val - 0x10000) = c.val := by omega
        rw [scanChar_surrogates (by omega), hvalue, hself]

theorem escapeAscii_eq_cons (c : CodePoint) : ∃ d s, escapeAscii c = d :: s ∧ d ≠ quoteMark := by
  unfold escapeAscii
  split
  . exact ⟨_, _, rfl, by decide⟩
  . next hnone =>
    split
    . refine ⟨_, _, rfl, ?_⟩
      rintro rfl
      contradiction
    . split
      . exact ⟨backslash, _, rfl, by decide⟩
      . exact ⟨backslash, _, List.cons_append, by decide⟩

theorem length_le_length_flatMap_escapeAscii (s : PyStr)
    : s.length ≤ (s.flatMap escapeAscii).length := by
  induction s with
  | nil => simp
  | cons c s ih =>
    have ⟨d, t, hd, _⟩ := escapeAscii_eq_cons c
    simp only [List.flatMap_cons, List.length_append, List.length_cons, hd]
    omega

theorem scanString_flatMap_escapeAscii {s : PyStr} (hs : Utf8Encodable s) (rest : PyStr) {fuel : Nat}
    (hfuel : s.length < fuel)
    : scanString fuel (s.flatMap escapeAscii ++ quoteMark :: rest) = some (s, rest) := by
  induction s generalizing fuel with
  | nil =>
    cases fuel with
    | zero => exact absurd hfuel (Nat.not_lt_zero _)
    | succ fuel => simp [scanString]
  | cons c s ih =>
    cases fuel with
    | zero => exact absurd hfuel (Nat.not_lt_zero _)
    | succ fuel =>
      obtain ⟨d, t, hd, hquote⟩ := escapeAscii_eq_cons c
      have hchar := scanChar_escapeAscii (hs c (by simp)) (s.flatMap escapeAscii ++ quoteMark :: rest)
      have hrest := ih (fun c hc => hs c (by simp [hc])) (show s.length < fuel by simpa using hfuel)
      rw [hd, List.cons_append] at hchar
      rw [List.flatMap_cons, List.append_assoc, hd, List.cons_append, scanString, if_neg hquote, hchar]
      simp only [Option.bind_eq_bind, Option.bind_some, hrest]
      rfl

theorem dumpsAsciiStr_append (s rest : PyStr)
    : dumpsAsciiStr s ++ rest = quoteMark :: (s.flatMap escapeAscii ++ quoteMark :: rest) := by
  simp [dumpsAsciiStr]

theorem scanString_dumpsAsciiStr {s : PyStr} (hs : Utf8Encodable s) (rest : PyStr)
    : scanString ((s.flatMap escapeAscii ++ quoteMark :: rest).length + 1)
        (s.flatMap escapeAscii ++ quoteMark :: rest) = some (s, rest) := by
  apply scanString_flatMap_escapeAscii hs
  have := length_le_length_flatMap_escapeAscii s
  simp only [List.length_append]
  omega

theorem scanOnce_dumpsAsciiStr (parseFloat : PyStr → Option PyFloat) {s : PyStr} (hs : Utf8Encodable s)
    (fuel : Nat) (rest : PyStr)
    : scanOnce parseFloat (fuel + 1) (dumpsAsciiStr s ++ rest) = some (.str s, rest) := by
  rw [dumpsAsciiStr_append, scanOnce, if_pos rfl, scanString_dumpsAsciiStr hs]
  rfl

theorem skipWs_dumpsAsciiStr (s rest : PyStr)
    : skipWs (dumpsAsciiStr s ++ rest) = dumpsAsciiStr s ++ rest := by
  rw [dumpsAsciiStr_append, skipWs_cons (by decide)]

/--
The items of a dictionary of strings.
-/
def strItems (items : List (PyStr × PyStr)) : Dict :=
  items.map fun item => (item.fst, .str item.snd)

/--
Both sides of an item can be written as UTF-8.
-/
def EncodableItems (items : List (PyStr × PyStr)) : Prop :=
  ∀ item ∈ items, Utf8Encodable item.fst ∧ Utf8Encodable item.snd

/--
The items are read back up to the closing brace.
-/
theorem scanPairs_compactPairs (parseFloat : PyStr → Option PyFloat) {item : PyStr × PyStr}
    {items : List (PyStr × PyStr)} (h : EncodableItems (item :: items)) (rest : PyStr) {fuel : Nat}
    (hfuel : items.length + 1 < fuel)
    : scanPairs parseFloat fuel
          (dumpsAsciiStr item.fst ++ (colon :: (dumpsAsciiStr item.snd ++ (compactPairs items ++ rest))))
        = some (strItems (item :: items), rest) := by
  induction items generalizing item fuel with
  | nil =>
    obtain ⟨hkey, hv⟩ := h item (by simp)
    rcases fuel with _ | _ | fuel
    . omega
    . simp at hfuel
    . rw [dumpsAsciiStr_append, scanPairs, if_pos rfl, scanString_dumpsAsciiStr hkey]
      simp only [Option.bind_eq_bind, Option.bind_some]
      rw [skipWs_cons (by decide)]
      simp only [if_true, skipWs_dumpsAsciiStr, scanOnce_dumpsAsciiStr parseFloat hv, Option.bind_some,
        compactPairs, List.cons_append, List.nil_append]
      rw [skipWs_cons (by decide)]
      rfl
  | cons next items ih =>
    obtain ⟨hkey, hv⟩ := h item (by simp)
    have hnext : EncodableItems (next :: items) := fun item hitem => h item (by simp [hitem])
    rcases fuel with _ | _ | fuel
    . omega
    . simp at hfuel
    . have := ih hnext (show items.length + 1 < fuel + 1 by simp only [List.length_cons] at hfuel; omega)
      rw [dumpsAsciiStr_append, scanPairs, if_pos rfl, scanString_dumpsAsciiStr hkey]
      simp only [Option.bind_eq_bind, Option.bind_some]
      rw [skipWs_cons (by decide)]
      simp only [if_true, skipWs_dumpsAsciiStr, scanOnce_dumpsAsciiStr parseFloat hv, Option.bind_some,
        compactPairs, List.cons_append, List.append_assoc]
      rw [skipWs_cons (by decide)]
      simp only [skipWs_dumpsAsciiStr, this, Option.bind_some]
      rfl

theorem length_lt_dumpsCompact (items : List (PyStr × PyStr)) : items.length < (dumpsCompact items).length := by
  have hpairs (items : List (PyStr × PyStr)) : items.length < (compactPairs items).length := by
    induction items with
    | nil => simp [compactPairs]
    | cons item items ih =>
      simp only [compactPairs, List.length_cons, List.length_append]
      omega
  cases items with
  | nil => simp [dumpsCompact]
  | cons item items =>
    have := hpairs items
    simp only [dumpsCompact, List.length_cons, List.length_append]
    omega

/--
`json.loads(json.dumps(obj, separators=(",", ":")))` is `obj`.
-/
theorem loads_dumpsCompact (parseFloat : PyStr → Option PyFloat) {items : List (PyStr × PyStr)}
    (h : EncodableItems items) (hkeys : (items.map Prod.fst).Nodup)
    : loads parseFloat (dumpsCompact items) = some (.dict (strItems items)) := by
  have hlen := length_lt_dumpsCompact items
  unfold loads
  cases items with
  | nil => rfl
  | cons item items =>
    have hdict : dictOf (strItems (item :: items)) = strItems (item :: items) := by
      apply dictOf_eq_self
      rw [strItems, List.map_map]
      exact hkeys
    have hpairs := scanPairs_compactPairs parseFloat h []
      (show items.length + 1 < (dumpsCompact (item :: items)).length by simpa using hlen)
    rw [List.append_nil] at hpairs
    have hopen : dumpsCompact (item :: items)
        = openBrace :: (dumpsAsciiStr item.fst
            ++ (colon :: (dumpsAsciiStr item.snd ++ compactPairs items))) := rfl
    have hhead := skipWs_dumpsAsciiStr item.fst (colon :: (dumpsAsciiStr item.snd ++ compactPairs items))
    rw [hopen] at hpairs ⊢
    rw [skipWs_cons (by decide), scanOnce, if_neg (by decide), if_pos rfl, hhead]
    rw [dumpsAsciiStr_append] at hpairs ⊢
    simp only [show quoteMark ≠ closeBrace by decide, if_false, hpairs, Option.bind_eq_bind,
      Option.bind_some, hdict]
    rfl

theorem utf8Encodable_cons {c : CodePoint} (hc : c.val < 0xd800) {s : PyStr} (hs : Utf8Encodable s)
    : Utf8Encodable (c :: s) := by
  intro d hd
  cases List.mem_cons.mp hd with
  | inl heq =>
    rw [heq]
    omega
  | inr hd => exact hs d hd

theorem utf8Encodable_unicodeEscape (n : Nat) : Utf8Encodable (unicodeEscape n) := by
  apply utf8Encodable_cons (by decide)
  apply utf8Encodable_cons (by decide)
  exact utf8Encodable_zfill_digitsText 4 16 n

theorem utf8Encodable_escapeAscii (c : CodePoint) : Utf8Encodable (escapeAscii c) := by
  unfold escapeAscii
  cases hletter : shortEscapes.lookup c with
  | some letter =>
    have hall : shortEscapes.all fun item => item.snd.val < 0xd800 := by
      decide
    simp only [List.all_eq_true, decide_eq_true_eq] at hall
    have ⟨before, after, hmem, _⟩ := List.lookup_eq_some_iff.mp hletter
    have hletter := hall (c, letter) (by simp [hmem])
    exact utf8Encodable_cons (by decide) (utf8Encodable_cons hletter utf8Encodable_nil)
  | none =>
    dsimp only
    split
    . exact utf8Encodable_cons (by omega) utf8Encodable_nil
    . split
      . exact utf8Encodable_unicodeEscape _
      . exact (utf8Encodable_append _ _).mpr ⟨utf8Encodable_unicodeEscape _, utf8Encodable_unicodeEscape _⟩

theorem utf8Encodable_dumpsAsciiStr (s : PyStr) : Utf8Encodable (dumpsAsciiStr s) := by
  apply utf8Encodable_cons (by decide)
  rw [utf8Encodable_append]
  constructor
  . intro d hd
    have ⟨c, _, hd⟩ := List.mem_flatMap.mp hd
    exact utf8Encodable_escapeAscii c d hd
  . exact utf8Encodable_cons (by decide) utf8Encodable_nil

/--
Whatever the strings are, their text can be sent as UTF-8.
-/
theorem utf8Encodable_dumpsCompact (items : List (PyStr × PyStr)) : Utf8Encodable (dumpsCompact items) := by
  have hpairs (items : List (PyStr × PyStr)) : Utf8Encodable (compactPairs items) := by
    induction items with
    | nil => exact utf8Encodable_cons (by decide) utf8Encodable_nil
    | cons item items ih =>
      apply utf8Encodable_cons (by decide)
      rw [utf8Encodable_append]
      refine ⟨utf8Encodable_dumpsAsciiStr _, utf8Encodable_cons (by decide) ?_⟩
      rw [utf8Encodable_append]
      exact ⟨utf8Encodable_dumpsAsciiStr _, ih⟩
  cases items with
  | nil => exact utf8Encodable_cons (by decide) (utf8Encodable_cons (by decide) utf8Encodable_nil)
  | cons item items =>
    apply utf8Encodable_cons (by decide)
    rw [utf8Encodable_append]
    refine ⟨utf8Encodable_dumpsAsciiStr _, utf8Encodable_cons (by decide) ?_⟩
    rw [utf8Encodable_append]
    exact ⟨utf8Encodable_dumpsAsciiStr _, hpairs items⟩

theorem loadsBytes_dumpsCompact (parseFloat : PyStr → Option PyFloat) {items : List (PyStr × PyStr)}
    (h : EncodableItems items) (hkeys : (items.map Prod.fst).Nodup) {data : Bytes}
    (hdata : Utf8.encode (dumpsCompact items) = some data)
    : loadsBytes parseFloat data = some (.dict (strItems items)) := by
  unfold loadsBytes
  rw [Utf8.decode_encode hdata]
  exact loads_dumpsCompact parseFloat h hkeys

end JsonText
