import Legalise.Python.JsonText

/-!
This module contains the round trip of JSON texts: `json.loads` gives back what `json.dumps` wrote.
-/

namespace JsonText

section Strings

theorem hexVal?_digitPoint {d : Nat} (hd : d < 16) : hexVal? (digitPoint d) = some d := by
  have : ∀ d < 16, hexVal? (digitPoint d) = some d := by
    decide
  exact this d hd

theorem zfill_control {n : Nat} (hn : n < 0x20)
    : zfill 4 (digitsText 16 n)
        = [digitPoint 0, digitPoint 0, digitPoint (n / 16), digitPoint (n % 16)] := by
  have : ∀ n < 0x20, zfill 4 (digitsText 16 n)
      = [digitPoint 0, digitPoint 0, digitPoint (n / 16), digitPoint (n % 16)] := by
    decide
  exact this n hn

theorem scanUnicode_control {n : Nat} (hn : n < 0x20) (rest : PyStr)
    : scanUnicode (zfill 4 (digitsText 16 n) ++ rest) = some (Fin.ofNat _ n, rest) := by
  have hhex : scanHex4 (zfill 4 (digitsText 16 n) ++ rest) = some (n, rest) := by
    rw [zfill_control hn]
    have hvalue : ofFixedDigits 16 [0, 0, n / 16, n % 16] = n := by
      simp only [ofFixedDigits, List.foldl_cons, List.foldl_nil]
      omega
    simp only [List.cons_append, List.nil_append, scanHex4, hexVal?_digitPoint (d := 0) (by omega),
      hexVal?_digitPoint (d := n / 16) (by omega), hexVal?_digitPoint (d := n % 16) (by omega),
      Option.bind_eq_bind, Option.bind_some, hvalue]
    rfl
  unfold scanUnicode
  rw [hhex]
  simp only [Option.bind_eq_bind, Option.bind_some]
  rw [if_neg]
  . rfl
  . intro h
    simp only [Bool.and_eq_true, decide_eq_true_eq] at h
    omega

theorem scanChar_escape (c : CodePoint) (rest : PyStr)
    : scanChar (escape c ++ rest) = some (c, rest) := by
  unfold escape
  cases hletter : shortEscapes.lookup c with
  | some letter =>
    have hall : shortEscapes.all fun item =>
        item.snd ≠ smallU ∧ letterEscapes.lookup item.snd = some item.fst := by
      decide
    simp only [List.all_eq_true, decide_eq_true_eq] at hall
    have ⟨before, after, hmem, _⟩ := List.lookup_eq_some_iff.mp hletter
    have ⟨hu, hc⟩ := hall (c, letter) (by simp [hmem])
    simp only [List.cons_append, List.nil_append, scanChar, if_true, hu, if_false, hc]
  | none =>
    dsimp only
    split
    . next hcontrol =>
      have hc : Fin.ofNat 0x110000 c.val = c := by
        apply Fin.ext
        simp
      simp only [List.cons_append, scanChar, if_true]
      rw [scanUnicode_control hcontrol, hc]
    . next hcontrol =>
      have hc : c ≠ backslash := by
        rintro rfl
        contradiction
      simp only [List.cons_append, List.nil_append, scanChar, hc, hcontrol, if_false]

theorem escape_eq_cons (c : CodePoint) : ∃ d s, escape c = d :: s ∧ d ≠ quoteMark := by
  unfold escape
  split
  . exact ⟨_, _, rfl, by decide⟩
  . next hnone =>
    split
    . exact ⟨_, _, rfl, by decide⟩
    . refine ⟨_, _, rfl, ?_⟩
      rintro rfl
      contradiction

theorem length_le_length_flatMap_escape (s : PyStr) : s.length ≤ (s.flatMap escape).length := by
  induction s with
  | nil => simp
  | cons c s ih =>
    have ⟨d, t, hd, _⟩ := escape_eq_cons c
    simp only [List.flatMap_cons, List.length_append, List.length_cons, hd]
    omega

theorem scanString_flatMap_escape (s rest : PyStr) {fuel : Nat} (hfuel : s.length < fuel)
    : scanString fuel (s.flatMap escape ++ quoteMark :: rest) = some (s, rest) := by
  induction s generalizing fuel with
  | nil =>
    cases fuel with
    | zero => contradiction
    | succ fuel => simp [scanString]
  | cons c s ih =>
    cases fuel with
    | zero => contradiction
    | succ fuel =>
      have ⟨d, t, hd, hquote⟩ := escape_eq_cons c
      have hchar := scanChar_escape c (s.flatMap escape ++ quoteMark :: rest)
      have hrest := ih (show s.length < fuel by simpa using hfuel)
      rw [hd, List.cons_append] at hchar
      rw [List.flatMap_cons, List.append_assoc, hd, List.cons_append, scanString, if_neg hquote, hchar]
      simp only [Option.bind_eq_bind, Option.bind_some, hrest]
      rfl

theorem dumpsStr_append_eq_cons (s rest : PyStr)
    : dumpsStr s ++ rest = quoteMark :: (s.flatMap escape ++ [quoteMark] ++ rest) := rfl

/--
A written string is read back, whatever follows it.
-/
theorem scanString_dumpsStr (s rest : PyStr)
    : scanString ((s.flatMap escape ++ [quoteMark] ++ rest).length + 1)
        (s.flatMap escape ++ [quoteMark] ++ rest) = some (s, rest) := by
  rw [List.append_assoc]
  apply scanString_flatMap_escape
  have := length_le_length_flatMap_escape s
  simp only [List.length_append]
  omega

end Strings

section Numbers

/--
The text cannot go on a number that ends in front of it.
-/
def NumberEnd (s : PyStr) : Prop :=
  ∀ c ∈ s.head?, isDigit c = false ∧ c ≠ point ∧ c ≠ smallE ∧ c ≠ bigE

def NoDigitHead (s : PyStr) : Prop :=
  ∀ c ∈ s.head?, isDigit c = false

theorem NumberEnd.noDigitHead {s : PyStr} (h : NumberEnd s) : NoDigitHead s :=
  fun c hc => (h c hc).left

theorem span_digits {ds rest : PyStr} (hds : ∀ d ∈ ds, isDigit d = true) (hrest : NoDigitHead rest)
    : (ds ++ rest).takeWhile isDigit = ds ∧ (ds ++ rest).dropWhile isDigit = rest := by
  induction ds with
  | nil =>
    cases rest with
    | nil => simp
    | cons c rest =>
      have := hrest c (by simp)
      simp [this]
  | cons d ds ih =>
    have hd := hds d (by simp)
    have ⟨htake, hdrop⟩ := ih fun e he => hds e (by simp [he])
    simp [hd, htake, hdrop]

/--
`-?(?:0|[1-9]\d*)`
-/
structure IntLiteral (s : PyStr) (sign : PyStr) (c : CodePoint) (ds : PyStr) : Prop where
  eq : s = sign ++ c :: ds
  sign_mem : sign = [] ∨ sign = [minusSign]
  isDigit_head : isDigit c = true
  isDigit_tail : ∀ d ∈ ds, isDigit d = true
  leading : c = 0x30 → ds = []

/--
`(\.\d+)?`
-/
def FracLiteral (s : PyStr) : Prop :=
  s = [] ∨ ∃ ds, s = point :: ds ∧ ds ≠ [] ∧ ∀ d ∈ ds, isDigit d = true

/--
`([eE][-+]?\d+)?`
-/
def ExpLiteral (s : PyStr) : Prop :=
  s = [] ∨ ∃ e sign d ds,
    s = e :: (sign ++ d :: ds) ∧ (e = smallE ∨ e = bigE)
      ∧ (sign = [] ∨ sign = [minusSign] ∨ sign = [plusSign])
      ∧ isDigit d = true ∧ ∀ d ∈ ds, isDigit d = true

theorem not_isDigit_minusSign : isDigit minusSign = false := by decide

theorem scanSign_append {sign s : PyStr} {c : CodePoint} (hsign : sign = [] ∨ sign = [minusSign])
    (hc : isDigit c = true) : scanSign (sign ++ c :: s) = (sign, c :: s) := by
  rcases hsign with rfl | rfl
  . have : c ≠ minusSign := by
      rintro rfl
      rw [not_isDigit_minusSign] at hc
      contradiction
    simp [scanSign, this]
  . simp [scanSign]

theorem IntLiteral.scanInt_append {s sign ds rest : PyStr} {c : CodePoint}
    (h : IntLiteral s sign c ds) (hrest : NoDigitHead rest)
    : scanInt (s ++ rest) = some (s, rest) := by
  unfold scanInt
  rw [h.eq, List.append_assoc, List.cons_append, scanSign_append h.sign_mem h.isDigit_head]
  dsimp only
  split
  . next hzero =>
    rw [h.leading hzero, List.nil_append]
  . have ⟨htake, hdrop⟩ := span_digits h.isDigit_tail hrest
    rw [if_pos h.isDigit_head, htake, hdrop]

theorem FracLiteral.scanFrac_append {s rest : PyStr} (h : FracLiteral s)
    (hrest : NoDigitHead rest) (hpoint : rest.head? ≠ some point)
    : scanFrac (s ++ rest) = (s, rest) := by
  cases h with
  | inl hnil =>
    subst hnil
    cases rest with
    | nil => rfl
    | cons c rest =>
      have : c ≠ point := by
        rintro rfl
        exact hpoint rfl
      simp [scanFrac, this]
  | inr h =>
    have ⟨ds, hs, hne, hds⟩ := h
    have ⟨htake, hdrop⟩ := span_digits hds hrest
    simp [scanFrac, hs, htake, hdrop, hne]

theorem scanExpSign_append {sign s : PyStr} {d : CodePoint}
    (hsign : sign = [] ∨ sign = [minusSign] ∨ sign = [plusSign]) (hd : isDigit d = true)
    : scanExpSign (sign ++ d :: s) = (sign, d :: s) := by
  have hminus : d ≠ minusSign := by
    rintro rfl
    contradiction
  have hplus : d ≠ plusSign := by
    rintro rfl
    contradiction
  rcases hsign with rfl | rfl | rfl <;> simp [scanExpSign, hminus, hplus]

theorem ExpLiteral.scanExp_append {s rest : PyStr} (h : ExpLiteral s) (hrest : NumberEnd rest)
    : scanExp (s ++ rest) = (s, rest) := by
  cases h with
  | inl hnil =>
    subst hnil
    cases rest with
    | nil => rfl
    | cons c rest =>
      have ⟨_, _, hsmall, hbig⟩ := hrest c (by simp)
      simp [scanExp, hsmall, hbig]
  | inr h =>
    have ⟨e, sign, d, ds, hs, he, hsign, hd, hds⟩ := h
    have hdigits : ∀ x ∈ d :: ds, isDigit x = true := by
      simpa [hd] using hds
    have ⟨htake, hdrop⟩ := span_digits hdigits hrest.noDigitHead
    have hscan : scanExpSign (sign ++ d :: (ds ++ rest)) = (sign, d :: (ds ++ rest)) :=
      scanExpSign_append hsign hd
    rw [hs, List.cons_append, List.append_assoc, List.cons_append, scanExp, hscan]
    rw [List.cons_append] at htake hdrop
    rw [htake, hdrop]
    simp [he]

/--
How floats are written is the runtime's business. What is used of it is that the text of a finite
float is a literal of a JSON number with a fraction or an exponent, and that it is read back.
-/
structure FloatText (R : PyRepr) where
  parse : PyStr → Option PyFloat
  literal : ∀ x : PyFloat, x.value?.isSome → ∃ int sign c ds frac exp,
    R.float x = int ++ frac ++ exp ∧ IntLiteral int sign c ds ∧ FracLiteral frac ∧ ExpLiteral exp
      ∧ ¬ (frac = [] ∧ exp = [])
  parse_repr : ∀ x : PyFloat, x.value?.isSome → parse (R.float x) = some x

theorem ExpLiteral.head_append {s rest : PyStr} (h : ExpLiteral s) (hrest : NumberEnd rest)
    : NoDigitHead (s ++ rest) ∧ (s ++ rest).head? ≠ some point := by
  cases h with
  | inl hnil =>
    subst hnil
    refine ⟨hrest.noDigitHead, ?_⟩
    intro hpoint
    exact (hrest point hpoint).right.left rfl
  | inr h =>
    have ⟨e, sign, d, ds, hs, he, _⟩ := h
    subst hs
    have : isDigit e = false ∧ e ≠ point := by
      rcases he with rfl | rfl <;> decide
    refine ⟨?_, by simpa using this.right⟩
    intro c hc
    simp only [List.cons_append, List.head?_cons, Option.mem_def, Option.some.injEq] at hc
    exact hc ▸ this.left

theorem FracLiteral.head_append {s rest : PyStr} (h : FracLiteral s) (hrest : NoDigitHead rest)
    : NoDigitHead (s ++ rest) := by
  cases h with
  | inl hnil =>
    subst hnil
    exact hrest
  | inr h =>
    have ⟨ds, hs, _⟩ := h
    subst hs
    intro c hc
    simp only [List.cons_append, List.head?_cons, Option.mem_def, Option.some.injEq] at hc
    rw [← hc]
    decide

theorem scanNumber_float {R : PyRepr} (F : FloatText R) {x : PyFloat} (hx : x.value?.isSome)
    {rest : PyStr} (hrest : NumberEnd rest)
    : scanNumber F.parse (R.float x ++ rest) = some (.float x, rest) := by
  have ⟨int, sign, c, ds, frac, exp, heq, hint, hfrac, hexp, hne⟩ := F.literal x hx
  have ⟨hexpDigit, hexpPoint⟩ := hexp.head_append hrest
  have hparse := F.parse_repr x hx
  rw [heq] at hparse ⊢
  unfold scanNumber
  rw [List.append_assoc, List.append_assoc, hint.scanInt_append (hfrac.head_append hexpDigit)]
  simp only [Option.bind_eq_bind, Option.bind_some]
  rw [hfrac.scanFrac_append hexpDigit hexpPoint]
  simp only
  rw [hexp.scanExp_append hrest]
  simp only [if_neg hne, hparse, Option.bind_some]
  rfl

/--
The digits of a number at the width it needs, which has no leading zero but for zero itself.
-/
theorem digitsText_eq_fixedDigits (n : Nat)
    : ∃ width, digitsText 10 n = (fixedDigits 10 (width + 1) n).map digitPoint
        ∧ n < 10 ^ (width + 1) ∧ (width ≠ 0 → 10 ^ width ≤ n) := by
  have hpos : 0 < (Nat.toDigits 10 n).length := Nat.length_toDigits_pos
  have hlt : n < 10 ^ (Nat.toDigits 10 n).length :=
    (Nat.length_toDigits_le_iff (by omega) hpos).mp (Nat.le_refl _)
  have hfill := zfill_digitsText (show 1 < 10 by omega) hpos hlt
  have hself : zfill (Nat.toDigits 10 n).length (digitsText 10 n) = digitsText 10 n := by
    simp [zfill, digitsText]
  refine ⟨(Nat.toDigits 10 n).length - 1, ?_, ?_, ?_⟩
  . rw [← hself, hfill, Nat.sub_add_cancel hpos]
  . rwa [Nat.sub_add_cancel hpos]
  . intro hwidth
    by_contra hle
    have := (Nat.length_toDigits_le_iff (b := 10) (by omega) (Nat.pos_of_ne_zero hwidth)).mpr
      (by omega : n < _)
    omega

theorem isDigit_digitPoint {d : Nat} (hd : d < 10) : isDigit (digitPoint d) = true := by
  have : ∀ d < 10, isDigit (digitPoint d) = true := by
    decide
  exact this d hd

theorem intLiteral_pyNat {sign : PyStr} (hsign : sign = [] ∨ sign = [minusSign]) (n : Nat)
    : ∃ c ds, pyNat n = c :: ds ∧ IntLiteral (sign ++ pyNat n) sign c ds := by
  have ⟨width, htext, hlt, hle⟩ := digitsText_eq_fixedDigits n
  have hlead : n / 10 ^ width % 10 < 10 := Nat.mod_lt _ (by omega)
  have htext : pyNat n
      = digitPoint (n / 10 ^ width % 10) :: (fixedDigits 10 width n).map digitPoint := by
    rw [← List.map_cons, ← fixedDigits_succ_eq_cons]
    exact htext
  refine ⟨_, _, htext, ?_, hsign, isDigit_digitPoint hlead, ?_, ?_⟩
  . rw [htext]
  . intro d hd
    have ⟨e, he, hde⟩ := List.mem_map.mp hd
    rw [← hde]
    exact isDigit_digitPoint (lt_base_of_mem_fixedDigits (by omega) he)
  . intro hzero
    have hdigit : n / 10 ^ width % 10 = 0 := by
      have := congrArg digitVal hzero
      rw [digitVal_digitPoint (by omega)] at this
      exact this
    have hdiv : n / 10 ^ width < 10 := by
      apply Nat.div_lt_of_lt_mul
      rwa [Nat.pow_succ] at hlt
    rw [Nat.mod_eq_of_lt hdiv, Nat.div_eq_zero_iff] at hdigit
    have : width = 0 := by
      by_contra hwidth
      have := hle hwidth
      have : 0 < 10 ^ width := Nat.pow_pos (by omega)
      omega
    rw [this]
    rfl

theorem ofFixedDigits_pyNat (n : Nat) : ofFixedDigits 10 ((pyNat n).map digitVal) = n := by
  have ⟨width, htext, hlt, _⟩ := digitsText_eq_fixedDigits n
  have htext : pyNat n = (fixedDigits 10 (width + 1) n).map digitPoint := htext
  have hdigits : ((fixedDigits 10 (width + 1) n).map digitPoint).map digitVal
      = fixedDigits 10 (width + 1) n := map_digitVal_digitPoint (by omega) (by omega) _ _
  rw [htext, hdigits, ofFixedDigits_fixedDigits hlt]

theorem parseInt_append {sign : PyStr} (hsign : sign = [] ∨ sign = [minusSign]) (n : Nat)
    : parseInt (sign ++ pyNat n) = if sign = [] then (n : Int) else -n := by
  have ⟨c, ds, htext, hint⟩ := intLiteral_pyNat hsign n
  unfold parseInt
  rw [htext, scanSign_append hint.sign_mem hint.isDigit_head]
  simp only
  rw [← htext, ofFixedDigits_pyNat]

theorem parseInt_pyInt (n : Int) : parseInt (pyInt n) = n := by
  cases n with
  | ofNat m => exact parseInt_append (.inl rfl) m
  | negSucc m => exact parseInt_append (.inr rfl) (m + 1)

theorem intLiteral_pyInt (n : Int) : ∃ sign c ds, IntLiteral (pyInt n) sign c ds := by
  cases n with
  | ofNat m =>
    have ⟨c, ds, _, h⟩ := intLiteral_pyNat (.inl rfl) m
    exact ⟨_, c, ds, h⟩
  | negSucc m =>
    have ⟨c, ds, _, h⟩ := intLiteral_pyNat (.inr rfl) (m + 1)
    exact ⟨_, c, ds, h⟩

theorem scanNumber_int (parseFloat : PyStr → Option PyFloat) (n : Int) {rest : PyStr}
    (hrest : NumberEnd rest) : scanNumber parseFloat (pyInt n ++ rest) = some (.int n, rest) := by
  have hnil : FracLiteral [] := .inl rfl
  have hnil' : ExpLiteral [] := .inl rfl
  have hpoint : rest.head? ≠ some point := by
    intro hpoint
    exact (hrest point hpoint).right.left rfl
  have hfrac := hnil.scanFrac_append hrest.noDigitHead hpoint
  have hexp := hnil'.scanExp_append hrest
  rw [List.nil_append] at hfrac hexp
  have ⟨sign, c, ds, hint⟩ := intLiteral_pyInt n
  unfold scanNumber
  rw [hint.scanInt_append hrest.noDigitHead]
  simp only [Option.bind_eq_bind, Option.bind_some, hfrac, hexp, and_self, if_true]
  rw [parseInt_pyInt]
  rfl

/--
The floats of the rendering for concrete runs can be read back.
-/
def FloatText.quoted : FloatText PyRepr.quoted where
  parse s := do
    let (int, rest) ← scanInt s
    let den := ofFixedDigits 10 (rest.tail.map digitVal)
    if den = 0 then return .negZero else return .finite (parseInt int / den)
  literal x hx := by
    have hfrac (n : Nat) : FracLiteral (point :: pyNat n) := by
      have ⟨c, ds, htext, hint⟩ := intLiteral_pyNat (.inl rfl) n
      refine .inr ⟨_, rfl, pyNat_ne_nil n, ?_⟩
      rw [htext]
      intro d hd
      cases List.mem_cons.mp hd with
      | inl heq => exact heq ▸ hint.isDigit_head
      | inr hmem => exact hint.isDigit_tail d hmem
    cases x with
    | finite q =>
      have ⟨sign, c, ds, hint⟩ := intLiteral_pyInt q.num
      exact ⟨pyInt q.num, sign, c, ds, point :: pyNat q.den, [], by simp [PyRepr.quoted]; rfl, hint,
        hfrac q.den, .inl rfl, by simp⟩
    | negZero =>
      have ⟨c, ds, _, hint⟩ := intLiteral_pyNat (.inr rfl) 0
      exact ⟨py "-0", _, c, ds, point :: pyNat 0, [], rfl, hint, hfrac 0, .inl rfl, by simp⟩
    | inf negative => contradiction
    | nan => contradiction
  parse_repr x hx := by
    have hscan (sign : PyStr) (n : Nat) {int : PyStr} {c : CodePoint} {ds : PyStr}
        (hint : IntLiteral int sign c ds)
        : scanInt (int ++ (point :: pyNat n)) = some (int, point :: pyNat n) := by
      apply hint.scanInt_append
      intro d hd
      simp only [List.head?_cons, Option.mem_def, Option.some.injEq] at hd
      rw [← hd]
      decide
    cases x with
    | finite q =>
      have ⟨sign, c, ds, hint⟩ := intLiteral_pyInt q.num
      have hq : PyRepr.quoted.float (.finite q) = pyInt q.num ++ (point :: pyNat q.den) := by
        simp [PyRepr.quoted]
        rfl
      simp only [hq, hscan sign q.den hint, Option.bind_eq_bind, Option.bind_some, List.tail_cons,
        ofFixedDigits_pyNat, parseInt_pyInt, q.den_ne_zero, if_false, Rat.num_div_den]
      rfl
    | negZero => rfl
    | inf negative => contradiction
    | nan => contradiction

end Numbers

section Values

theorem skipWs_cons {c : CodePoint} (hc : isWs c = false) (s : PyStr) : skipWs (c :: s) = c :: s := by
  simp [skipWs, hc]

theorem skipWs_newline (level : Nat) (s : PyStr) : skipWs (newline level ++ s) = skipWs s := by
  have hblank : isWs 0x20 = true := by decide
  have hfeed : isWs 0x0a = true := by decide
  unfold skipWs newline
  rw [List.cons_append, List.dropWhile_cons_of_pos hfeed]
  induction 2 * level with
  | zero => rfl
  | succ n ih => rw [List.replicate_succ, List.cons_append, List.dropWhile_cons_of_pos hblank, ih]

/--
A constant is the first one of the list that a text can start with.
-/
theorem find?_constants {word : PyStr} {v : Json} (hword : (word, v) ∈ constants) (rest : PyStr)
    : constants.find? (fun constant => constant.fst.isPrefixOf (word ++ rest)) = some (word, v) := by
  simp only [constants, List.mem_cons, List.not_mem_nil, or_false, Prod.mk.injEq] at hword
  rcases hword with ⟨rfl, rfl⟩ | ⟨rfl, rfl⟩ | ⟨rfl, rfl⟩ | ⟨rfl, rfl⟩ | ⟨rfl, rfl⟩ | ⟨rfl, rfl⟩ <;> rfl

theorem head?_eq_of_isPrefixOf {word s : PyStr} (hne : word ≠ []) (h : word.isPrefixOf s = true)
    : word.head? = s.head? := by
  rw [List.isPrefixOf_iff_prefix] at h
  have ⟨t, ht⟩ := h
  cases word with
  | nil => contradiction
  | cons c word => simp [← ht]

/--
No constant starts like a number: after the sign there is a digit.
-/
theorem find?_constants_number {sign : PyStr} (hsign : sign = [] ∨ sign = [minusSign])
    {c : CodePoint} (hc : isDigit c = true) (s : PyStr)
    : constants.find? (fun constant => constant.fst.isPrefixOf (sign ++ c :: s)) = none := by
  have hwords : (constants.map Prod.fst).all fun word =>
      word.head?.all (fun d => !isDigit d) && word.tail.head?.all (fun d => !isDigit d)
        && word ≠ [] && word.tail ≠ [] := by
    decide
  rw [List.all_map, List.all_eq_true] at hwords
  rw [List.find?_eq_none]
  intro constant hmem hstart
  have hword := hwords constant hmem
  simp only [Function.comp_apply, Bool.and_eq_true, decide_eq_true_eq, Option.all_eq_true] at hword
  have ⟨⟨⟨hfirst, hsecond⟩, hne⟩, hne'⟩ := hword
  rcases hsign with rfl | rfl
  . have hno := hfirst c (head?_eq_of_isPrefixOf hne hstart)
    simp [hc] at hno
  . cases hconstant : constant.fst with
    | nil => contradiction
    | cons d word =>
      rw [hconstant] at hstart hsecond hne'
      simp only [List.cons_append, List.nil_append, List.isPrefixOf_cons_cons, Bool.and_eq_true]
        at hstart
      have hno := hsecond c (head?_eq_of_isPrefixOf hne' hstart.right)
      simp [hc] at hno

variable {R : PyRepr}

/--
The text of a value starts with something that is neither blank nor closes anything.
-/
def ValueHead (s : PyStr) : Prop :=
  ∃ c t, s = c :: t ∧ isWs c = false ∧ c ≠ closeBracket ∧ c ≠ closeBrace

theorem ValueHead.append {s : PyStr} (h : ValueHead s) (t : PyStr) : ValueHead (s ++ t) := by
  have ⟨c, r, hs, hc⟩ := h
  exact ⟨c, r ++ t, by simp [hs], hc⟩

theorem ValueHead.skipWs_eq {s : PyStr} (h : ValueHead s) : skipWs s = s := by
  have ⟨c, t, hs, hc, _⟩ := h
  rw [hs, skipWs_cons hc]

theorem IntLiteral.valueHead {s sign ds : PyStr} {c : CodePoint} (h : IntLiteral s sign c ds) :
    ValueHead s := by
  have hdigit : isWs c = false ∧ c ≠ closeBracket ∧ c ≠ closeBrace := by
    have hc := h.isDigit_head
    refine ⟨?_, ?_, ?_⟩
    . by_contra hws
      simp only [isWs, Bool.not_eq_false, Bool.or_eq_true, decide_eq_true_eq] at hws
      rcases hws with ((rfl | rfl) | rfl) | rfl <;> contradiction
    . rintro rfl
      contradiction
    . rintro rfl
      contradiction
  rw [h.eq]
  rcases h.sign_mem with hsign | hsign
  . exact ⟨c, ds, by simp [hsign], hdigit⟩
  . exact ⟨minusSign, c :: ds, by simp [hsign], by decide, by decide, by decide⟩

theorem valueHead_dumpsFloat (F : FloatText R) (x : PyFloat) : ValueHead (dumpsFloat R x) := by
  have hfinite (hx : x.value?.isSome) : ValueHead (R.float x) := by
    have ⟨_, _, _, _, _, _, heq, hint, _⟩ := F.literal x hx
    rw [heq, List.append_assoc]
    exact hint.valueHead.append _
  cases x with
  | finite q => exact hfinite rfl
  | negZero => exact hfinite rfl
  | nan => exact ⟨_, _, rfl, by decide, by decide, by decide⟩
  | inf negative =>
    cases negative <;> exact ⟨_, _, rfl, by decide, by decide, by decide⟩

theorem valueHead_dumpsAt (F : FloatText R) (level : Nat) (v : Json) :
    ValueHead (dumpsAt R level v) := by
  cases v with
  | null => exact ⟨_, _, by rw [dumpsAt]; rfl, by decide, by decide, by decide⟩
  | bool b => cases b <;> exact ⟨_, _, by rw [dumpsAt]; rfl, by decide, by decide, by decide⟩
  | int n =>
    have ⟨_, _, _, h⟩ := intLiteral_pyInt n
    rw [dumpsAt]
    exact h.valueHead
  | float x =>
    rw [dumpsAt]
    exact valueHead_dumpsFloat F x
  | str s => exact ⟨_, _, by rw [dumpsAt]; rfl, by decide, by decide, by decide⟩
  | list vs => cases vs <;> exact ⟨_, _, by rw [dumpsAt], by decide, by decide, by decide⟩
  | dict items =>
    cases items <;> exact ⟨_, _, by rw [dumpsAt], by decide, by decide, by decide⟩

theorem numberEnd_cons {c : CodePoint} (s : PyStr)
    (h : isDigit c = false ∧ c ≠ point ∧ c ≠ smallE ∧ c ≠ bigE) : NumberEnd (c :: s) := by
  intro d hd
  simp only [List.head?_cons, Option.mem_def, Option.some.injEq] at hd
  exact hd ▸ h

/--
What follows a value inside of a list or a dictionary is a comma or a new line.
-/
theorem numberEnd_dumpsItems (level level' : Nat) (vs : List Json) (s : PyStr)
    : NumberEnd (dumpsItems R level vs ++ (newline level' ++ s)) := by
  cases vs <;> rw [dumpsItems] <;> exact numberEnd_cons _ (by decide)

theorem numberEnd_dumpsPairs (level level' : Nat) (items : List (PyStr × Json)) (s : PyStr)
    : NumberEnd (dumpsPairs R level items ++ (newline level' ++ s)) := by
  cases items <;> rw [dumpsPairs] <;> exact numberEnd_cons _ (by decide)

theorem foldl_dictOf (d pairs : List (PyStr × Json)) (h : ((d ++ pairs).map Prod.fst).Nodup)
    : pairs.foldl (fun d pair =>
        if (List.lookup pair.fst d).isSome then
          d.map fun item => if item.fst = pair.fst then pair else item
        else d ++ [pair]) d = d ++ pairs := by
  induction pairs generalizing d with
  | nil => simp
  | cons pair pairs ih =>
    have hnew : List.lookup pair.fst d = none := by
      rw [List.lookup_eq_none_iff]
      intro item hitem
      rw [List.map_append, List.nodup_append] at h
      have hne := h.right.right item.fst (List.mem_map_of_mem hitem) pair.fst (by simp)
      exact bne_iff_ne.mpr (Ne.symm hne)
    rw [List.foldl_cons, hnew]
    simp only [Option.isSome_none, Bool.false_eq_true, if_false]
    rw [ih (d ++ [pair]) (by simpa using h)]
    simp

theorem dictOf_eq_self {items : List (PyStr × Json)} (h : (items.map Prod.fst).Nodup) :
    dictOf items = items :=
  foldl_dictOf [] items h

end Values

section RoundTrip

variable {R : PyRepr} (F : FloatText R)

theorem scanOnce_constant {word : PyStr} {v : Json} (hword : (word, v) ∈ constants)
    {fuel : Nat} (rest : PyStr)
    : scanOnce F.parse (fuel + 1) (word ++ rest) = some (v, rest) := by
  have hfind := find?_constants hword rest
  have hhead : (constants.map Prod.fst).all fun word =>
      word.head?.any fun c => c ≠ quoteMark && c ≠ openBrace && c ≠ openBracket := by
    decide
  rw [List.all_map, List.all_eq_true] at hhead
  have := hhead _ hword
  simp only [Function.comp_apply] at this
  cases word with
  | nil => simp at this
  | cons c word =>
    simp only [List.head?_cons, Option.any_some, Bool.and_eq_true, decide_eq_true_eq] at this
    have ⟨⟨hquote, hbrace⟩, hbracket⟩ := this
    rw [List.cons_append] at hfind ⊢
    rw [scanOnce, if_neg hquote, if_neg hbrace, if_neg hbracket, hfind]
    simp

theorem scanOnce_number {s sign t : PyStr} {c : CodePoint}
    (hs : s = sign ++ c :: t) (hsign : sign = [] ∨ sign = [minusSign]) (hc : isDigit c = true)
    (fuel : Nat) : scanOnce F.parse (fuel + 1) s = scanNumber F.parse s := by
  have hfind := find?_constants_number hsign hc t
  rw [← hs] at hfind
  have hhead : ∃ d u, s = d :: u ∧ d ≠ quoteMark ∧ d ≠ openBrace ∧ d ≠ openBracket := by
    rcases hsign with rfl | rfl
    . refine ⟨c, t, hs, ?_, ?_, ?_⟩ <;>
      . rintro rfl
        contradiction
    . exact ⟨minusSign, c :: t, hs, by decide, by decide, by decide⟩
  have ⟨d, u, hd, hquote, hbrace, hbracket⟩ := hhead
  rw [hd] at hfind ⊢
  rw [scanOnce, if_neg hquote, if_neg hbrace, if_neg hbracket, hfind]

theorem scanOnce_dumpsFloat (x : PyFloat) (fuel : Nat) {rest : PyStr} (hrest : NumberEnd rest)
    : scanOnce F.parse (fuel + 1) (dumpsFloat R x ++ rest) = some (.float x, rest) := by
  have hfinite (hx : x.value?.isSome)
      : scanOnce F.parse (fuel + 1) (R.float x ++ rest) = some (.float x, rest) := by
    have ⟨int, sign, c, ds, frac, exp, heq, hint, _⟩ := F.literal x hx
    have hs : R.float x ++ rest = sign ++ c :: (ds ++ (frac ++ (exp ++ rest))) := by
      simp [heq, hint.eq]
    rw [scanOnce_number F hs hint.sign_mem hint.isDigit_head, scanNumber_float F hx hrest]
  cases x with
  | finite q => exact hfinite rfl
  | negZero => exact hfinite rfl
  | nan => exact scanOnce_constant F (by simp [constants, dumpsFloat]) rest
  | inf negative =>
    cases negative <;> exact scanOnce_constant F (by simp [constants, dumpsFloat]) rest

theorem scanOnce_dumpsStr (s : PyStr) (fuel : Nat) (rest : PyStr)
    : scanOnce F.parse (fuel + 1) (dumpsStr s ++ rest) = some (.str s, rest) := by
  rw [dumpsStr_append_eq_cons, scanOnce, if_pos rfl, scanString_dumpsStr]
  rfl

/--
With this much fuel, a value that is not longer is read back from the front of a text, whatever
follows that cannot go on a number.
-/
def ReadsValue (fuel : Nat) : Prop :=
  ∀ (v : Json) (level : Nat) (rest : PyStr), v.DistinctKeys → (dumpsAt R level v).length < fuel →
    NumberEnd rest → scanOnce F.parse fuel (dumpsAt R level v ++ rest) = some (v, rest)

def ReadsItems (fuel : Nat) : Prop :=
  ∀ (v : Json) (vs : List Json) (level level' : Nat) (rest : PyStr),
    Json.DistinctKeysList (v :: vs) → (dumpsAt R level v ++ dumpsItems R level vs).length + 1 < fuel →
    scanItems F.parse fuel
      (dumpsAt R level v ++ (dumpsItems R level vs ++ (newline level' ++ closeBracket :: rest)))
      = some (v :: vs, rest)

def ReadsPairs (fuel : Nat) : Prop :=
  ∀ (key : PyStr) (v : Json) (items : List (PyStr × Json)) (level level' : Nat) (rest : PyStr),
    Json.DistinctKeysDict ((key, v) :: items) →
    (dumpsAt R level v ++ dumpsPairs R level items).length + 1 < fuel →
    scanPairs F.parse fuel
      (dumpsStr key ++ (py ": " ++ (dumpsAt R level v
        ++ (dumpsPairs R level items ++ (newline level' ++ closeBrace :: rest)))))
      = some ((key, v) :: items, rest)

variable {F} {fuel : Nat}

theorem readsItems_succ (hvalue : ReadsValue F fuel) (hitems : ReadsItems F fuel) :
    ReadsItems F (fuel + 1) := by
  intro v vs level level' rest hkeys hfuel
  rw [Json.DistinctKeysList] at hkeys
  rw [List.length_append] at hfuel
  rw [scanItems, hvalue v level _ hkeys.left (by omega) (numberEnd_dumpsItems level level' vs _)]
  cases vs with
  | nil =>
    rw [dumpsItems, List.nil_append]
    simp only [Option.bind_eq_bind, Option.bind_some, skipWs_newline]
    rw [skipWs_cons (by decide)]
    rfl
  | cons w vs =>
    rw [dumpsItems] at hfuel ⊢
    simp only [List.length_cons, List.length_append] at hfuel
    have hvs := hitems w vs level level' rest hkeys.right (by
      simp only [List.length_append]
      omega)
    have hhead := ((valueHead_dumpsAt F level w).append
      (dumpsItems R level vs ++ (newline level' ++ closeBracket :: rest))).skipWs_eq
    simp only [Option.bind_eq_bind, Option.bind_some, List.cons_append, List.append_assoc]
    rw [skipWs_cons (by decide)]
    simp only [skipWs_newline, hhead, hvs, Option.bind_some]
    rfl

theorem readsPairs_succ (hvalue : ReadsValue F fuel) (hpairs : ReadsPairs F fuel) :
    ReadsPairs F (fuel + 1) := by
  intro key v items level level' rest hkeys hfuel
  rw [Json.DistinctKeysDict] at hkeys
  rw [List.length_append] at hfuel
  have hv := hvalue v level _ hkeys.left (by omega)
    (numberEnd_dumpsPairs (R := R) level level' items (closeBrace :: rest))
  have hhead := ((valueHead_dumpsAt F level v).append
    (dumpsPairs R level items ++ (newline level' ++ closeBrace :: rest))).skipWs_eq
  have hcolon (u : PyStr) : skipWs (py ": " ++ u) = colon :: 0x20 :: u := rfl
  have hblank (u : PyStr) : skipWs (0x20 :: u) = skipWs u := rfl
  rw [dumpsStr_append_eq_cons, scanPairs, if_pos rfl, scanString_dumpsStr]
  simp only [Option.bind_eq_bind, Option.bind_some, hcolon, if_true, hblank, hhead, hv]
  cases items with
  | nil =>
    rw [dumpsPairs, List.nil_append, skipWs_newline, skipWs_cons (by decide)]
    rfl
  | cons item items =>
    obtain ⟨key', w⟩ := item
    rw [dumpsPairs] at hfuel ⊢
    simp only [List.length_cons, List.length_append] at hfuel
    have hvs := hpairs key' w items level level' rest hkeys.right (by
      simp only [List.length_append]
      omega)
    rw [dumpsStr_append_eq_cons] at hvs
    simp only [List.cons_append, List.append_assoc]
    rw [skipWs_cons (by decide)]
    simp only [skipWs_newline, dumpsStr_append_eq_cons]
    rw [skipWs_cons (by decide)]
    simp only [hvs, Option.bind_some]
    rfl

theorem readsValue_succ (hitems : ReadsItems F fuel) (hpairs : ReadsPairs F fuel) :
    ReadsValue F (fuel + 1) := by
  intro v level rest hkeys hfuel hrest
  match v with
  | .null =>
    rw [dumpsAt]
    exact scanOnce_constant F (by simp [constants]) rest
  | .bool b =>
    cases b <;>
    . rw [dumpsAt]
      exact scanOnce_constant F (by simp [constants]) rest
  | .int n =>
    rw [dumpsAt]
    obtain ⟨sign, c, ds, hint⟩ := intLiteral_pyInt n
    have hs : pyInt n ++ rest = sign ++ c :: (ds ++ rest) := by simp [hint.eq]
    rw [scanOnce_number F hs hint.sign_mem hint.isDigit_head, scanNumber_int F.parse n hrest]
  | .float x =>
    rw [dumpsAt]
    exact scanOnce_dumpsFloat F x fuel hrest
  | .str s =>
    rw [dumpsAt]
    exact scanOnce_dumpsStr F s fuel rest
  | .list [] =>
    rw [dumpsAt]
    rfl
  | .list (v :: vs) =>
    rw [Json.DistinctKeys] at hkeys
    rw [dumpsAt] at hfuel ⊢
    simp only [List.length_cons, List.length_append] at hfuel
    have hread := hitems v vs (level + 1) level rest hkeys (by
      simp only [List.length_append]
      omega)
    obtain ⟨c, t, hhead, hws, hclose, _⟩ := (valueHead_dumpsAt F (level + 1) v).append
      (dumpsItems R (level + 1) vs ++ (newline level ++ closeBracket :: rest))
    simp only [List.cons_append, List.append_assoc, List.nil_append]
    rw [scanOnce, if_neg (by decide), if_neg (by decide), if_pos rfl, skipWs_newline]
    rw [hhead] at hread ⊢
    rw [skipWs_cons hws]
    simp only [if_neg hclose, hread, Option.bind_eq_bind, Option.bind_some]
    rfl
  | .dict [] =>
    rw [dumpsAt]
    rfl
  | .dict ((key, v) :: items) =>
    rw [Json.DistinctKeys] at hkeys
    rw [dumpsAt] at hfuel ⊢
    simp only [List.length_cons, List.length_append] at hfuel
    have hread := hpairs key v items (level + 1) level rest hkeys.right (by
      simp only [List.length_append]
      omega)
    rw [dumpsStr_append_eq_cons] at hread
    simp only [List.cons_append, List.append_assoc, List.nil_append]
    rw [scanOnce, if_neg (by decide), if_pos rfl, skipWs_newline]
    simp only [dumpsStr_append_eq_cons]
    rw [skipWs_cons (by decide)]
    simp only [hread, Option.bind_eq_bind, Option.bind_some]
    rw [if_neg (by decide), dictOf_eq_self hkeys.left]
    rfl

theorem reads (F : FloatText R) (fuel : Nat) : ReadsValue F fuel ∧ ReadsItems F fuel ∧ ReadsPairs F fuel := by
  induction fuel with
  | zero =>
    refine ⟨?_, ?_, ?_⟩
    . intro v level rest _ hfuel
      contradiction
    . intro v vs level level' rest _ hfuel
      contradiction
    . intro key v items level level' rest _ hfuel
      contradiction
  | succ fuel ih =>
    have ⟨hvalue, hitems, hpairs⟩ := ih
    exact ⟨readsValue_succ hitems hpairs, readsItems_succ hvalue hitems,
      readsPairs_succ hvalue hpairs⟩

/--
`json.loads` reads back what `json.dumps` wrote.
-/
theorem loads_dumps (F : FloatText R) {v : Json} (hkeys : v.DistinctKeys) :
    loads F.parse (dumps R v) = some v := by
  have hread := (reads F ((dumps R v).length + 1)).left v 0 [] hkeys (by simp [dumps]) (by
    intro c hc
    contradiction)
  rw [List.append_nil] at hread
  have hhead : skipWs (dumps R v) = dumps R v := (valueHead_dumpsAt F 0 v).skipWs_eq
  unfold loads
  rw [hhead]
  unfold dumps at hread ⊢
  rw [hread]
  rfl

end RoundTrip

end JsonText
