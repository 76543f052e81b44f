import Legalise.Lib.Except
import Legalise.Python.JsonFault
import Legalise.Python.JsonUnicode

/-!
This module contains the grammar of JSON texts with their whitespace, and that a text of the grammar is decoded to its
value within the limits of the interpreter.
-/

namespace JsonText

section Grammar

variable (parseFloat : PyStr → PyFloat)

def Blank (s : PyStr) : Prop :=
  ∀ c ∈ s, isWs c = true

instance (s : PyStr) : Decidable (Blank s) :=
  List.decidableBAll _ s

def NoBraces (s : PyStr) : Prop :=
  ∀ c ∈ s, c ≠ openBrace ∧ c ≠ closeBrace

instance (s : PyStr) : Decidable (NoBraces s) :=
  List.decidableBAll _ s

/--
The inside of a string literal, with the text that it stands for.
-/
def Literal (raw text : PyStr) : Prop :=
  ∀ rest, decodeString (raw ++ quoteMark :: rest) = .ok (text, rest)

/--
What a text of the grammar is: a value, the items of a list up to its bracket, or the items of a dictionary up to its
brace.
-/
inductive Part where
  | value
  | items
  | pairs

/--
The texts of a value that have no braces in their string literals, with the depth of their containers and the greatest
number of digits of an integer. The items of a dictionary are all kept, with their keys in order.
-/
inductive Written : Part → PyStr → Json → Nat → Nat → Prop
  | str {raw text : PyStr} (hliteral : Literal raw text) (hbraces : NoBraces raw)
    : Written .value (quoteMark :: (raw ++ [quoteMark])) (.str text) 0 0
  | constant {word : PyStr} {v : Json} (hword : (word, v) ∈ constants) : Written .value word v 0 0
  | int {s sign ds : PyStr} {c : CodePoint} (hint : IntLiteral s sign c ds)
    : Written .value s (.int (parseInt s)) 0 (ds.length + 1)
  | float {int sign ds frac exp : PyStr} {c : CodePoint} (hint : IntLiteral int sign c ds) (hfrac : FracLiteral frac)
      (hexp : ExpLiteral exp) (hne : ¬ (frac = [] ∧ exp = []))
    : Written .value (int ++ frac ++ exp) (.float (parseFloat (int ++ frac ++ exp))) 0 0
  | emptyList {ws : PyStr} (hws : Blank ws) : Written .value (openBracket :: (ws ++ [closeBracket])) (.list []) 1 0
  | list {ws s : PyStr} {vs : List Json} {n m : Nat} (hws : Blank ws) (hitems : Written .items s (.list vs) n m)
    : Written .value (openBracket :: (ws ++ s)) (.list vs) (n + 1) m
  | emptyDict {ws : PyStr} (hws : Blank ws) : Written .value (openBrace :: (ws ++ [closeBrace])) (.dict []) 1 0
  | dict {ws s : PyStr} {items : List (PyStr × Json)} {n m : Nat} (hws : Blank ws)
      (hpairs : Written .pairs s (.dict items) n m)
    : Written .value (openBrace :: (ws ++ s)) (.dict (dictOf items)) (n + 1) m
  | lastItem {s ws : PyStr} {v : Json} {n m : Nat} (hvalue : Written .value s v n m) (hws : Blank ws)
    : Written .items (s ++ (ws ++ [closeBracket])) (.list [v]) n m
  | item {s ws ws' t : PyStr} {v : Json} {vs : List Json} {n m n' m' : Nat} (hvalue : Written .value s v n m)
      (hws : Blank ws) (hws' : Blank ws') (hitems : Written .items t (.list vs) n' m')
    : Written .items (s ++ (ws ++ comma :: (ws' ++ t))) (.list (v :: vs)) (max n n') (max m m')
  | lastPair {raw key ws ws' s ws'' : PyStr} {v : Json} {n m : Nat} (hliteral : Literal raw key)
      (hbraces : NoBraces raw) (hws : Blank ws) (hws' : Blank ws') (hvalue : Written .value s v n m)
      (hws'' : Blank ws'')
    : Written .pairs (quoteMark :: (raw ++ quoteMark :: (ws ++ colon :: (ws' ++ (s ++ (ws'' ++ [closeBrace]))))))
      (.dict [(key, v)]) n m
  | pair {raw key ws ws' s ws'' ws₃ t : PyStr} {v : Json} {items : List (PyStr × Json)} {n m n' m' : Nat}
      (hliteral : Literal raw key) (hbraces : NoBraces raw) (hws : Blank ws) (hws' : Blank ws')
      (hvalue : Written .value s v n m) (hws'' : Blank ws'') (hws₃ : Blank ws₃)
      (hpairs : Written .pairs t (.dict items) n' m')
    : Written .pairs
      (quoteMark :: (raw ++ quoteMark :: (ws ++ colon :: (ws' ++ (s ++ (ws'' ++ comma :: (ws₃ ++ t)))))))
      (.dict ((key, v) :: items)) (max n n') (max m m')

end Grammar

section Decoding

variable {limits : Limits} {parseFloat : PyStr → PyFloat}

theorem skipWs_append {ws : PyStr} (hws : Blank ws) (s : PyStr) : skipWs (ws ++ s) = skipWs s := by
  unfold skipWs
  exact List.dropWhile_append_of_pos hws

theorem Written.valueHead {k : Part} {s : PyStr} {v : Json} {n m : Nat} (h : Written parseFloat k s v n m)
    : ValueHead s := by
  induction h with
  | str => exact ⟨quoteMark, _, rfl, by decide⟩
  | @constant word v hword =>
    have hall : constants.all (fun item => item.fst.head?.any fun c =>
        isWs c = false ∧ c ≠ closeBracket ∧ c ≠ closeBrace) = true := by
      decide
    rw [List.all_eq_true] at hall
    have hhead := hall (word, v) hword
    cases word with
    | nil => contradiction
    | cons c rest => exact ⟨c, rest, rfl, by simpa using hhead⟩
  | int hint => exact hint.valueHead
  | float hint hfrac hexp hne => exact (hint.valueHead.append _).append _
  | emptyList => exact ⟨openBracket, _, rfl, by decide⟩
  | list => exact ⟨openBracket, _, rfl, by decide⟩
  | emptyDict => exact ⟨openBrace, _, rfl, by decide⟩
  | dict => exact ⟨openBrace, _, rfl, by decide⟩
  | lastItem _ _ ih => exact ih.append _
  | item _ _ _ _ ih _ => exact ih.append _
  | lastPair => exact ⟨quoteMark, _, rfl, by decide⟩
  | pair => exact ⟨quoteMark, _, rfl, by decide⟩

theorem numberEnd_blank {ws s : PyStr} {c : CodePoint} (hws : Blank ws)
    (hc : isDigit c = false ∧ c ≠ point ∧ c ≠ smallE ∧ c ≠ bigE) : NumberEnd (ws ++ c :: s) := by
  cases ws with
  | nil => exact numberEnd_cons s hc
  | cons d ws =>
    refine numberEnd_cons _ ?_
    have hd := hws d List.mem_cons_self
    unfold isWs at hd
    simp only [Bool.or_eq_true, decide_eq_true_eq] at hd
    rcases hd with ((rfl | rfl) | rfl) | rfl <;> decide

theorem decodeOnce_constant {word : PyStr} {v : Json} (hword : (word, v) ∈ constants) (fuel depth : Nat) (rest : PyStr)
    : decodeOnce limits parseFloat (fuel + 1) depth (word ++ rest) = .ok (v, rest) := by
  have hfind := find?_constants hword rest
  have hhead : constants.all (fun item => item.fst.head?.any fun c =>
      c ≠ quoteMark ∧ c ≠ openBrace ∧ c ≠ openBracket) = true := by
    decide
  rw [List.all_eq_true] at hhead
  have hhead := hhead (word, v) hword
  cases word with
  | nil => contradiction
  | cons c word =>
    simp only [List.head?_cons, Option.any_some, decide_eq_true_eq] at hhead
    have ⟨hquote, hbrace, hbracket⟩ := hhead
    rw [List.cons_append] at hfind ⊢
    rw [decodeOnce.eq_def]
    simp only [if_neg hquote, if_neg hbrace, if_neg hbracket, hfind]
    simp

theorem decodeOnce_number {s sign t : PyStr} {c : CodePoint} (hs : s = sign ++ c :: t)
    (hsign : sign = [] ∨ sign = [minusSign]) (hc : isDigit c = true) (fuel depth : Nat)
    : decodeOnce limits parseFloat (fuel + 1) depth s = decodeNumber limits parseFloat s := by
  have hfind := find?_constants_number hsign hc t
  rw [← hs] at hfind
  have hhead : ∃ d u, s = d :: u ∧ d ≠ quoteMark ∧ d ≠ openBrace ∧ d ≠ openBracket := by
    rcases hsign with rfl | rfl
    . refine ⟨c, t, hs, ?_, ?_, ?_⟩ <;>
      . rintro rfl
        contradiction
    . exact ⟨minusSign, c :: t, hs, by decide, by decide, by decide⟩
  have ⟨d, u, hd, hquote, hbrace, hbracket⟩ := hhead
  rw [hd] at hfind ⊢
  rw [decodeOnce.eq_def]
  simp only [if_neg hquote, if_neg hbrace, if_neg hbracket, hfind]

theorem decodeNumber_int {s sign ds rest : PyStr} {c : CodePoint} (hint : IntLiteral s sign c ds)
    (hrest : NumberEnd rest)
    : decodeNumber limits parseFloat (s ++ rest)
        = if limits.digits < ds.length + 1 then .error .valueError else .ok (.int (parseInt s), rest) := by
  have hfrac : scanFrac rest = ([], rest) := by
    have hnil : FracLiteral [] := .inl rfl
    refine hnil.scanFrac_append hrest.noDigitHead ?_
    intro hpoint
    exact (hrest point hpoint).right.left rfl
  have hexp : scanExp rest = ([], rest) := by
    have hnil : ExpLiteral [] := .inl rfl
    exact hnil.scanExp_append hrest
  have hsign : (scanSign s).snd.length = ds.length + 1 := by
    rw [hint.eq, scanSign_append hint.sign_mem hint.isDigit_head]
    rfl
  unfold decodeNumber
  rw [hint.scanInt_append hrest.noDigitHead]
  simp only [hfrac, hexp, and_self, if_true, hsign]

theorem decodeNumber_float {int sign ds frac exp rest : PyStr} {c : CodePoint} (hint : IntLiteral int sign c ds)
    (hfrac : FracLiteral frac) (hexp : ExpLiteral exp) (hne : ¬ (frac = [] ∧ exp = [])) (hrest : NumberEnd rest)
    : decodeNumber limits parseFloat (int ++ frac ++ exp ++ rest)
        = .ok (.float (parseFloat (int ++ frac ++ exp)), rest) := by
  have ⟨hexpDigit, hexpPoint⟩ := hexp.head_append hrest
  unfold decodeNumber
  rw [List.append_assoc, List.append_assoc, hint.scanInt_append (hfrac.head_append hexpDigit)]
  simp only [hfrac.scanFrac_append hexpDigit hexpPoint, hexp.scanExp_append hrest, if_neg hne]

theorem decodeOnce_str {raw text : PyStr} (hliteral : Literal raw text) (fuel depth : Nat) (rest : PyStr)
    : decodeOnce limits parseFloat (fuel + 1) depth (quoteMark :: (raw ++ quoteMark :: rest))
        = .ok (.str text, rest) := by
  rw [decodeOnce.eq_def]
  simp only [if_true, hliteral rest]
  rfl

theorem decodeOnce_int {s sign ds rest : PyStr} {c : CodePoint} (hint : IntLiteral s sign c ds) (hrest : NumberEnd rest)
    (fuel depth : Nat)
    : decodeOnce limits parseFloat (fuel + 1) depth (s ++ rest)
        = if limits.digits < ds.length + 1 then .error .valueError else .ok (.int (parseInt s), rest) := by
  have hs : s ++ rest = sign ++ c :: (ds ++ rest) := by
    simp [hint.eq]
  rw [decodeOnce_number hs hint.sign_mem hint.isDigit_head, decodeNumber_int hint hrest]

theorem decodeOnce_float {int sign ds frac exp rest : PyStr} {c : CodePoint} (hint : IntLiteral int sign c ds)
    (hfrac : FracLiteral frac) (hexp : ExpLiteral exp) (hne : ¬ (frac = [] ∧ exp = [])) (hrest : NumberEnd rest)
    (fuel depth : Nat)
    : decodeOnce limits parseFloat (fuel + 1) depth (int ++ frac ++ exp ++ rest)
        = .ok (.float (parseFloat (int ++ frac ++ exp)), rest) := by
  have hs : int ++ frac ++ exp ++ rest = sign ++ c :: (ds ++ frac ++ exp ++ rest) := by
    simp [hint.eq]
  rw [decodeOnce_number hs hint.sign_mem hint.isDigit_head, decodeNumber_float hint hfrac hexp hne hrest]

theorem skipWs_blank_cons {ws s : PyStr} {c : CodePoint} (hws : Blank ws) (hc : isWs c = false)
    : skipWs (ws ++ c :: s) = c :: s := by
  rw [skipWs_append hws, skipWs_cons hc]

theorem skipWs_blank_append {ws s : PyStr} (hws : Blank ws) (hs : ValueHead s) : skipWs (ws ++ s) = s := by
  rw [skipWs_append hws, hs.skipWs_eq]

theorem decodeOnce_openBracket_zero (fuel : Nat) (s : PyStr)
    : decodeOnce limits parseFloat (fuel + 1) 0 (openBracket :: s) = .error .recursionError := by
  rw [decodeOnce, if_neg (by decide), if_neg (by decide), if_pos rfl]

theorem decodeOnce_openBrace_zero (fuel : Nat) (s : PyStr)
    : decodeOnce limits parseFloat (fuel + 1) 0 (openBrace :: s) = .error .recursionError := by
  rw [decodeOnce, if_neg (by decide), if_pos rfl]

theorem decodeOnce_emptyList {ws : PyStr} (hws : Blank ws) (fuel depth : Nat) (rest : PyStr)
    : decodeOnce limits parseFloat (fuel + 1) (depth + 1) (openBracket :: (ws ++ closeBracket :: rest))
        = .ok (.list [], rest) := by
  rw [decodeOnce, if_neg (by decide), if_neg (by decide), if_pos rfl]
  simp only [skipWs_blank_cons hws (c := closeBracket) (by decide), if_true]

theorem decodeOnce_emptyDict {ws : PyStr} (hws : Blank ws) (fuel depth : Nat) (rest : PyStr)
    : decodeOnce limits parseFloat (fuel + 1) (depth + 1) (openBrace :: (ws ++ closeBrace :: rest))
        = .ok (.dict [], rest) := by
  rw [decodeOnce, if_neg (by decide), if_pos rfl]
  simp only [skipWs_blank_cons hws (c := closeBrace) (by decide), if_true]

theorem decodeOnce_openBracket {ws s : PyStr} (hws : Blank ws) (hs : ValueHead s) (fuel depth : Nat)
    : decodeOnce limits parseFloat (fuel + 1) (depth + 1) (openBracket :: (ws ++ s))
        = decodeItems limits parseFloat fuel depth s >>= fun r => .ok (.list r.fst, r.snd) := by
  have ⟨c, t, heq, _, hbracket, _⟩ := hs
  rw [decodeOnce, if_neg (by decide), if_neg (by decide), if_pos rfl]
  simp only [skipWs_blank_append hws hs]
  rw [heq]
  simp only [if_neg hbracket]
  rfl

theorem decodeOnce_openBrace {ws s : PyStr} (hws : Blank ws) (hs : ValueHead s) (fuel depth : Nat)
    : decodeOnce limits parseFloat (fuel + 1) (depth + 1) (openBrace :: (ws ++ s))
        = decodePairs limits parseFloat fuel depth s >>= fun r => .ok (.dict (dictOf r.fst), r.snd) := by
  have ⟨c, t, heq, _, _, hbrace⟩ := hs
  rw [decodeOnce, if_neg (by decide), if_pos rfl]
  simp only [skipWs_blank_append hws hs]
  rw [heq]
  simp only [if_neg hbrace]
  rfl

theorem ok_bind {α β : Type} (a : α) (f : α → Except Fault β) : Except.ok a >>= f = f a :=
  rfl

theorem bind_ne_ok {α β : Type} {x : Except Fault α} (h : ∀ a, x ≠ .ok a) (f : α → Except Fault β) (b : β)
    : x >>= f ≠ .ok b := by
  cases x with
  | error e => simp [bind, Except.bind]
  | ok a => exact absurd rfl (h a)

section Items

variable {fuel depth : Nat} {t : PyStr} {v : Json}

theorem decodeItems_last {ws rest : PyStr}
    (hvalue : decodeOnce limits parseFloat fuel depth t = .ok (v, ws ++ closeBracket :: rest)) (hws : Blank ws)
    : decodeItems limits parseFloat (fuel + 1) depth t = .ok ([v], rest) := by
  rw [decodeItems, hvalue]
  simp only [ok_bind, skipWs_blank_cons hws (c := closeBracket) (by decide), if_true]
  rfl

theorem decodeItems_comma {ws ws' u : PyStr}
    (hvalue : decodeOnce limits parseFloat fuel depth t = .ok (v, ws ++ comma :: (ws' ++ u))) (hws : Blank ws)
    (hws' : Blank ws') (hu : ValueHead u)
    : decodeItems limits parseFloat (fuel + 1) depth t
        = decodeItems limits parseFloat fuel depth u >>= fun r => .ok (v :: r.fst, r.snd) := by
  rw [decodeItems, hvalue]
  simp only [ok_bind, skipWs_blank_cons hws (c := comma) (by decide),
    if_neg (show ¬ comma = closeBracket by decide), if_true, skipWs_blank_append hws' hu]
  rfl

theorem decodeItems_ne_ok (hvalue : ∀ r, decodeOnce limits parseFloat fuel depth t ≠ .ok r)
    (r : List Json × PyStr) : decodeItems limits parseFloat (fuel + 1) depth t ≠ .ok r := by
  rw [decodeItems]
  exact bind_ne_ok hvalue _ _

variable {raw key ws ws' : PyStr} (hliteral : Literal raw key) (hws : Blank ws) (hws' : Blank ws') (ht : ValueHead t)
include hliteral hws hws' ht

theorem decodePairs_last {ws'' rest : PyStr}
    (hvalue : decodeOnce limits parseFloat fuel depth t = .ok (v, ws'' ++ closeBrace :: rest)) (hws'' : Blank ws'')
    : decodePairs limits parseFloat (fuel + 1) depth (quoteMark :: (raw ++ quoteMark :: (ws ++ colon :: (ws' ++ t))))
        = .ok ([(key, v)], rest) := by
  have hkey : decodeString (raw ++ quoteMark :: (ws ++ colon :: (ws' ++ t))) = .ok (key, ws ++ colon :: (ws' ++ t)) :=
    hliteral _
  simp only [decodePairs, if_true, hkey, ok_bind, skipWs_blank_cons hws (c := colon) (by decide),
    skipWs_blank_append hws' ht, hvalue, skipWs_blank_cons hws'' (c := closeBrace) (by decide)]
  rfl

theorem decodePairs_comma {ws'' ws₃ u : PyStr}
    (hvalue : decodeOnce limits parseFloat fuel depth t = .ok (v, ws'' ++ comma :: (ws₃ ++ u))) (hws'' : Blank ws'')
    (hws₃ : Blank ws₃) (hu : ValueHead u)
    : decodePairs limits parseFloat (fuel + 1) depth (quoteMark :: (raw ++ quoteMark :: (ws ++ colon :: (ws' ++ t))))
        = decodePairs limits parseFloat fuel depth u >>= fun r => .ok ((key, v) :: r.fst, r.snd) := by
  have hkey : decodeString (raw ++ quoteMark :: (ws ++ colon :: (ws' ++ t))) = .ok (key, ws ++ colon :: (ws' ++ t)) :=
    hliteral _
  simp only [decodePairs, if_true, hkey, ok_bind, skipWs_blank_cons hws (c := colon) (by decide),
    skipWs_blank_append hws' ht, hvalue, skipWs_blank_cons hws'' (c := comma) (by decide),
    if_neg (show ¬ comma = closeBrace by decide), skipWs_blank_append hws₃ hu]
  rfl

theorem decodePairs_ne_ok (hvalue : ∀ r, decodeOnce limits parseFloat fuel depth t ≠ .ok r)
    (r : List (PyStr × Json) × PyStr)
    : decodePairs limits parseFloat (fuel + 1) depth (quoteMark :: (raw ++ quoteMark :: (ws ++ colon :: (ws' ++ t))))
        ≠ .ok r := by
  have hkey : decodeString (raw ++ quoteMark :: (ws ++ colon :: (ws' ++ t))) = .ok (key, ws ++ colon :: (ws' ++ t)) :=
    hliteral _
  simp only [decodePairs, if_true, hkey, ok_bind, skipWs_blank_cons hws (c := colon) (by decide),
    skipWs_blank_append hws' ht]
  exact bind_ne_ok hvalue _ _

end Items

variable (limits parseFloat) in
/--
What it means that a part of a text is decoded: with fuel for its characters, whatever follows it that cannot go on a
number, and whatever follows a dictionary.
-/
def Decodes (depth : Nat) : Part → PyStr → Json → Prop
  | .value, s, v => ∀ fuel rest, 2 * s.length ≤ fuel → NumberEnd rest ∨ (∃ d, v = .dict d)
    → decodeOnce limits parseFloat fuel depth (s ++ rest) = .ok (v, rest)
  | .items, s, v => ∀ fuel rest, 2 * s.length + 1 ≤ fuel
    → ∃ vs, v = .list vs ∧ decodeItems limits parseFloat fuel depth (s ++ rest) = .ok (vs, rest)
  | .pairs, s, v => ∀ fuel rest, 2 * s.length + 1 ≤ fuel
    → ∃ items, v = .dict items ∧ decodePairs limits parseFloat fuel depth (s ++ rest) = .ok (items, rest)

/--
Fuel for a part of the grammar is no zero.
-/
theorem Written.succ_of_le {k : Part} {s : PyStr} {v : Json} {n m fuel : Nat} (h : Written parseFloat k s v n m)
    (hfuel : 2 * s.length ≤ fuel) : ∃ f, fuel = f + 1 := by
  have ⟨c, t, heq, _⟩ := h.valueHead
  refine ⟨fuel - 1, ?_⟩
  rw [heq, List.length_cons] at hfuel
  omega

/--
A text of the grammar is decoded to its value if its depth and its integers are within the limits.
-/
theorem Written.decodes {k : Part} {s : PyStr} {v : Json} {n m : Nat} (h : Written parseFloat k s v n m)
    (hdigits : m ≤ limits.digits) {depth : Nat} (hdepth : n ≤ depth) : Decodes limits parseFloat depth k s v := by
  -- Each part is decoded with whatever follows it, so that the decoder goes on with the next one.
  induction h generalizing depth with
  | @str raw text hliteral hbraces =>
    intro fuel rest hfuel hrest
    obtain ⟨fuel, rfl⟩ := (@Written.str parseFloat _ _ hliteral hbraces).succ_of_le hfuel
    rw [List.cons_append, List.append_assoc, List.singleton_append]
    exact decodeOnce_str hliteral fuel depth rest
  | @constant word v hword =>
    intro fuel rest hfuel hrest
    obtain ⟨fuel, rfl⟩ := (@Written.constant parseFloat word v hword).succ_of_le hfuel
    exact decodeOnce_constant hword fuel depth rest
  | @int s sign ds c hint =>
    intro fuel rest hfuel hrest
    obtain ⟨fuel, rfl⟩ := (@Written.int parseFloat _ _ _ _ hint).succ_of_le hfuel
    rw [decodeOnce_int hint (hrest.resolve_right (by simp)), if_neg (by omega)]
  | @float int sign ds frac exp c hint hfrac hexp hne =>
    intro fuel rest hfuel hrest
    obtain ⟨fuel, rfl⟩ := (@Written.float parseFloat _ _ _ _ _ _ hint hfrac hexp hne).succ_of_le hfuel
    exact decodeOnce_float hint hfrac hexp hne (hrest.resolve_right (by simp)) fuel depth
  | @emptyList ws hws =>
    intro fuel rest hfuel hrest
    obtain ⟨fuel, rfl⟩ := (@Written.emptyList parseFloat ws hws).succ_of_le hfuel
    obtain ⟨depth, rfl⟩ : ∃ d, depth = d + 1 := ⟨depth - 1, by omega⟩
    rw [List.cons_append, List.append_assoc, List.singleton_append, decodeOnce_emptyList hws]
  | @list ws s vs n m hws hitems ih =>
    intro fuel rest hfuel hrest
    obtain ⟨fuel, rfl⟩ := (Written.list hws hitems).succ_of_le hfuel
    obtain ⟨depth, rfl⟩ : ∃ d, depth = d + 1 := ⟨depth - 1, by omega⟩
    have ⟨vs', hvs, hdecode⟩ := ih hdigits (show n ≤ depth by omega) fuel rest (by simp at hfuel; omega)
    cases hvs
    rw [List.cons_append, List.append_assoc, decodeOnce_openBracket hws (hitems.valueHead.append rest), hdecode]
    rfl
  | @emptyDict ws hws =>
    intro fuel rest hfuel hrest
    obtain ⟨fuel, rfl⟩ := (@Written.emptyDict parseFloat ws hws).succ_of_le hfuel
    obtain ⟨depth, rfl⟩ : ∃ d, depth = d + 1 := ⟨depth - 1, by omega⟩
    rw [List.cons_append, List.append_assoc, List.singleton_append, decodeOnce_emptyDict hws]
  | @dict ws s items n m hws hpairs ih =>
    intro fuel rest hfuel hrest
    obtain ⟨fuel, rfl⟩ := (Written.dict hws hpairs).succ_of_le hfuel
    obtain ⟨depth, rfl⟩ : ∃ d, depth = d + 1 := ⟨depth - 1, by omega⟩
    have ⟨items', hitems, hdecode⟩ := ih hdigits (show n ≤ depth by omega) fuel rest (by simp at hfuel; omega)
    cases hitems
    rw [List.cons_append, List.append_assoc, decodeOnce_openBrace hws (hpairs.valueHead.append rest), hdecode]
    rfl
  | @lastItem s ws v n m hvalue hws ih =>
    intro fuel rest hfuel
    obtain ⟨fuel, rfl⟩ : ∃ f, fuel = f + 1 := ⟨fuel - 1, by omega⟩
    have hdecode := ih hdigits hdepth fuel (ws ++ closeBracket :: rest) (by simp at hfuel; omega)
      (.inl (numberEnd_blank hws (by decide)))
    refine ⟨[v], rfl, ?_⟩
    rw [List.append_assoc, List.append_assoc, List.singleton_append, decodeItems_last hdecode hws]
  | @item s ws ws' t v vs n m n' m' hvalue hws hws' hitems ih ih' =>
    intro fuel rest hfuel
    obtain ⟨fuel, rfl⟩ : ∃ f, fuel = f + 1 := ⟨fuel - 1, by omega⟩
    have hdecode := ih (by omega) (show n ≤ depth by omega) fuel (ws ++ comma :: (ws' ++ (t ++ rest)))
      (by simp at hfuel; omega) (.inl (numberEnd_blank hws (by decide)))
    have ⟨vs', hvs, hothers⟩ := ih' (by omega) (show n' ≤ depth by omega) fuel rest (by simp at hfuel; omega)
    cases hvs
    refine ⟨v :: vs, rfl, ?_⟩
    simp only [List.append_assoc, List.cons_append]
    rw [decodeItems_comma hdecode hws hws' (hitems.valueHead.append rest), hothers]
    rfl
  | @lastPair raw key ws ws' s ws'' v n m hliteral hbraces hws hws' hvalue hws'' ih =>
    intro fuel rest hfuel
    obtain ⟨fuel, rfl⟩ : ∃ f, fuel = f + 1 := ⟨fuel - 1, by omega⟩
    have hdecode := ih hdigits hdepth fuel (ws'' ++ closeBrace :: rest) (by simp at hfuel; omega)
      (.inl (numberEnd_blank hws'' (by decide)))
    refine ⟨[(key, v)], rfl, ?_⟩
    simp only [List.append_assoc, List.cons_append, List.nil_append]
    exact decodePairs_last hliteral hws hws' (hvalue.valueHead.append _) hdecode hws''
  | @pair raw key ws ws' s ws'' ws₃ t v items n m n' m' hliteral hbraces hws hws' hvalue hws'' hws₃ hpairs ih ih' =>
    intro fuel rest hfuel
    obtain ⟨fuel, rfl⟩ : ∃ f, fuel = f + 1 := ⟨fuel - 1, by omega⟩
    have hdecode := ih (by omega) (show n ≤ depth by omega) fuel (ws'' ++ comma :: (ws₃ ++ (t ++ rest)))
      (by simp at hfuel; omega) (.inl (numberEnd_blank hws'' (by decide)))
    have ⟨items', hitems, hothers⟩ := ih' (by omega) (show n' ≤ depth by omega) fuel rest (by simp at hfuel; omega)
    cases hitems
    refine ⟨(key, v) :: items, rfl, ?_⟩
    simp only [List.append_assoc, List.cons_append]
    rw [decodePairs_comma hliteral hws hws' (hvalue.valueHead.append _) hdecode hws'' hws₃
      (hpairs.valueHead.append rest), hothers]
    rfl

variable (limits parseFloat) in
/--
What it means that a part of a text is not decoded.
-/
def Fails (depth : Nat) : Part → PyStr → Json → Prop
  | .value, s, v => ∀ fuel rest r, 2 * s.length ≤ fuel → NumberEnd rest ∨ (∃ d, v = .dict d)
    → decodeOnce limits parseFloat fuel depth (s ++ rest) ≠ .ok r
  | .items, s, _ => ∀ fuel rest r, 2 * s.length + 1 ≤ fuel
    → decodeItems limits parseFloat fuel depth (s ++ rest) ≠ .ok r
  | .pairs, s, _ => ∀ fuel rest r, 2 * s.length + 1 ≤ fuel
    → decodePairs limits parseFloat fuel depth (s ++ rest) ≠ .ok r

/--
A text of the grammar is not decoded if its depth or its integers exceed the limits.
-/
theorem Written.fails {k : Part} {s : PyStr} {v : Json} {n m : Nat} (h : Written parseFloat k s v n m) {depth : Nat}
    (hover : depth < n ∨ limits.digits < m) : Fails limits parseFloat depth k s v := by
  induction h generalizing depth with
  | str => omega
  | constant => omega
  | @int s sign ds c hint =>
    intro fuel rest r hfuel hrest
    obtain ⟨fuel, rfl⟩ := (@Written.int parseFloat _ _ _ _ hint).succ_of_le hfuel
    rw [decodeOnce_int hint (hrest.resolve_right (by simp)), if_pos (by omega)]
    simp
  | float => omega
  | @emptyList ws hws =>
    intro fuel rest r hfuel hrest
    obtain ⟨fuel, rfl⟩ := (@Written.emptyList parseFloat ws hws).succ_of_le hfuel
    obtain rfl : depth = 0 := by omega
    rw [List.cons_append, decodeOnce_openBracket_zero]
    simp
  | @list ws s vs n m hws hitems ih =>
    intro fuel rest r hfuel hrest
    obtain ⟨fuel, rfl⟩ := (Written.list hws hitems).succ_of_le hfuel
    cases depth with
    | zero =>
      rw [List.cons_append, decodeOnce_openBracket_zero]
      simp
    | succ depth =>
      have hfails : ∀ r, decodeItems limits parseFloat fuel depth (s ++ rest) ≠ .ok r :=
        fun r => ih (show depth < n ∨ limits.digits < m by omega) fuel rest r (by simp at hfuel; omega)
      rw [List.cons_append, List.append_assoc, decodeOnce_openBracket hws (hitems.valueHead.append rest)]
      exact bind_ne_ok hfails _ _
  | @emptyDict ws hws =>
    intro fuel rest r hfuel hrest
    obtain ⟨fuel, rfl⟩ := (@Written.emptyDict parseFloat ws hws).succ_of_le hfuel
    obtain rfl : depth = 0 := by omega
    rw [List.cons_append, decodeOnce_openBrace_zero]
    simp
  | @dict ws s items n m hws hpairs ih =>
    intro fuel rest r hfuel hrest
    obtain ⟨fuel, rfl⟩ := (Written.dict hws hpairs).succ_of_le hfuel
    cases depth with
    | zero =>
      rw [List.cons_append, decodeOnce_openBrace_zero]
      simp
    | succ depth =>
      have hfails : ∀ r, decodePairs limits parseFloat fuel depth (s ++ rest) ≠ .ok r :=
        fun r => ih (show depth < n ∨ limits.digits < m by omega) fuel rest r (by simp at hfuel; omega)
      rw [List.cons_append, List.append_assoc, decodeOnce_openBrace hws (hpairs.valueHead.append rest)]
      exact bind_ne_ok hfails _ _
  | @lastItem s ws v n m hvalue hws ih =>
    intro fuel rest r hfuel
    obtain ⟨fuel, rfl⟩ : ∃ f, fuel = f + 1 := ⟨fuel - 1, by omega⟩
    rw [List.append_assoc, List.append_assoc, List.singleton_append]
    exact decodeItems_ne_ok (fun r => ih hover fuel _ r (by simp at hfuel; omega)
      (.inl (numberEnd_blank hws (by decide)))) r
  | @item s ws ws' t v vs n m n' m' hvalue hws hws' hitems ih ih' =>
    intro fuel rest r hfuel
    obtain ⟨fuel, rfl⟩ : ∃ f, fuel = f + 1 := ⟨fuel - 1, by omega⟩
    have hend : NumberEnd (ws ++ comma :: (ws' ++ (t ++ rest))) := numberEnd_blank hws (by decide)
    simp only [List.append_assoc, List.cons_append]
    -- The first value fails, or it is decoded and the others fail.
    by_cases hwithin : n ≤ depth ∧ m ≤ limits.digits
    . have hdecode := hvalue.decodes hwithin.right hwithin.left fuel (ws ++ comma :: (ws' ++ (t ++ rest)))
        (by simp at hfuel; omega) (.inl hend)
      have hfails : ∀ r, decodeItems limits parseFloat fuel depth (t ++ rest) ≠ .ok r :=
        fun r => ih' (show depth < n' ∨ limits.digits < m' by omega) fuel rest r (by simp at hfuel; omega)
      rw [decodeItems_comma hdecode hws hws' (hitems.valueHead.append rest)]
      exact bind_ne_ok hfails _ _
    . exact decodeItems_ne_ok (fun r => ih (show depth < n ∨ limits.digits < m by omega) fuel _ r
        (by simp at hfuel; omega) (.inl hend)) r
  | @lastPair raw key ws ws' s ws'' v n m hliteral hbraces hws hws' hvalue hws'' ih =>
    intro fuel rest r hfuel
    obtain ⟨fuel, rfl⟩ : ∃ f, fuel = f + 1 := ⟨fuel - 1, by omega⟩
    simp only [List.append_assoc, List.cons_append, List.nil_append]
    exact decodePairs_ne_ok hliteral hws hws' (hvalue.valueHead.append _) (fun r => ih hover fuel _ r
      (by simp at hfuel; omega) (.inl (numberEnd_blank hws'' (by decide)))) r
  | @pair raw key ws ws' s ws'' ws₃ t v items n m n' m' hliteral hbraces hws hws' hvalue hws'' hws₃ hpairs ih ih' =>
    intro fuel rest r hfuel
    obtain ⟨fuel, rfl⟩ : ∃ f, fuel = f + 1 := ⟨fuel - 1, by omega⟩
    have hend : NumberEnd (ws'' ++ comma :: (ws₃ ++ (t ++ rest))) := numberEnd_blank hws'' (by decide)
    simp only [List.append_assoc, List.cons_append]
    by_cases hwithin : n ≤ depth ∧ m ≤ limits.digits
    . have hdecode := hvalue.decodes hwithin.right hwithin.left fuel (ws'' ++ comma :: (ws₃ ++ (t ++ rest)))
        (by simp at hfuel; omega) (.inl hend)
      have hfails : ∀ r, decodePairs limits parseFloat fuel depth (t ++ rest) ≠ .ok r :=
        fun r => ih' (show depth < n' ∨ limits.digits < m' by omega) fuel rest r (by simp at hfuel; omega)
      rw [decodePairs_comma hliteral hws hws' (hvalue.valueHead.append _) hdecode hws'' hws₃
        (hpairs.valueHead.append rest)]
      exact bind_ne_ok hfails _ _
    . exact decodePairs_ne_ok hliteral hws hws' (hvalue.valueHead.append _)
        (fun r => ih (show depth < n ∨ limits.digits < m by omega) fuel _ r (by simp at hfuel; omega) (.inl hend)) r

end Decoding

section Prose

theorem noBraces_nil : NoBraces [] := by
  intro c hc
  cases hc

theorem noBraces_append {s t : PyStr} (hs : NoBraces s) (ht : NoBraces t) : NoBraces (s ++ t) := by
  intro c hc
  rcases List.mem_append.mp hc with hc | hc
  . exact hs c hc
  . exact ht c hc

theorem noBraces_cons {c : CodePoint} {s : PyStr} (hc : c ≠ openBrace ∧ c ≠ closeBrace) (hs : NoBraces s)
    : NoBraces (c :: s) :=
  List.forall_mem_cons.mpr ⟨hc, hs⟩

theorem noBraces_constant {word : PyStr} {v : Json} (h : (word, v) ∈ constants) : NoBraces word := by
  have hall : constants.all (fun item => item.fst.all fun c => c ≠ openBrace ∧ c ≠ closeBrace) = true := by
    decide
  rw [List.all_eq_true] at hall
  have hword := hall (word, v) h
  rw [List.all_eq_true] at hword
  intro c hc
  simpa using hword c hc

/--
The text is one string literal.
-/
def Quoted (t : PyStr) : Prop :=
  ∃ s text rest, t = quoteMark :: s ∧ decodeString s = .ok (text, rest) ∧ skipWs rest = []

/--
The text begins with an integer of too many digits.
-/
def LongInteger (limits : Limits) (t : PyStr) : Prop :=
  ∃ int rest, scanInt t = some (int, rest) ∧ (scanFrac rest).fst = [] ∧ (scanExp (scanFrac rest).snd).fst = []
    ∧ limits.digits < (scanSign int).snd.length

theorem mem_dropWhile {p : CodePoint → Bool} {c : CodePoint} {s : PyStr} (hc : p c = false) (h : c ∈ s)
    : c ∈ s.dropWhile p := by
  rw [← List.takeWhile_append_dropWhile (p := p) (l := s), List.mem_append] at h
  rcases h with htake | hdrop
  . rw [List.mem_takeWhile_imp htake] at hc
    cases hc
  . exact hdrop

theorem skipWs_ne_nil {s : PyStr} (h : openBrace ∈ s) : skipWs s ≠ [] :=
  List.ne_nil_of_mem (mem_dropWhile (by decide) h)

/--
The scanners of a number leave every brace.
-/
theorem mem_scanSign {s : PyStr} (h : openBrace ∈ s) : openBrace ∈ (scanSign s).snd := by
  unfold scanSign
  split
  . exact h
  . split
    . next hc => exact List.mem_of_ne_of_mem (by rw [hc]; decide) h
    . exact h

theorem mem_of_scanInt {s int rest : PyStr} (hscan : scanInt s = some (int, rest)) (h : openBrace ∈ s)
    : openBrace ∈ rest := by
  have hsign := mem_scanSign h
  unfold scanInt at hscan
  split at hscan
  . contradiction
  . next c after hafter =>
    rw [hafter] at hsign
    split at hscan
    . next hzero =>
      cases hscan
      exact List.mem_of_ne_of_mem (by rw [hzero]; decide) hsign
    . split at hscan
      . next hdigit =>
        cases hscan
        refine mem_dropWhile (by decide) (List.mem_of_ne_of_mem ?_ hsign)
        rintro rfl
        contradiction
      . contradiction

theorem mem_scanFrac {s : PyStr} (h : openBrace ∈ s) : openBrace ∈ (scanFrac s).snd := by
  unfold scanFrac
  split
  . exact h
  . split
    . next hc => exact mem_dropWhile (by decide) (List.mem_of_ne_of_mem (by rw [hc.left]; decide) h)
    . exact h

theorem mem_scanExpSign {s : PyStr} (h : openBrace ∈ s) : openBrace ∈ (scanExpSign s).snd := by
  unfold scanExpSign
  split
  . exact h
  . split
    . next hc => exact List.mem_of_ne_of_mem (by rcases hc with hc | hc <;> rw [hc] <;> decide) h
    . exact h

theorem mem_scanExp {s : PyStr} (h : openBrace ∈ s) : openBrace ∈ (scanExp s).snd := by
  unfold scanExp
  split
  . exact h
  . split
    . next hc =>
      refine mem_dropWhile (by decide) (mem_scanExpSign (List.mem_of_ne_of_mem ?_ h))
      rcases hc.left with hc | hc <;> rw [hc] <;> decide
    . exact h

theorem scanSign_eq (s : PyStr)
    : s = (scanSign s).fst ++ (scanSign s).snd ∧ ((scanSign s).fst = [] ∨ (scanSign s).fst = [minusSign]) := by
  unfold scanSign
  split
  . exact ⟨rfl, .inl rfl⟩
  . split
    . next hc => exact ⟨rfl, .inr (by rw [hc])⟩
    . exact ⟨rfl, .inl rfl⟩

theorem head_of_scanInt {s int rest : PyStr} (h : scanInt s = some (int, rest))
    : ∃ sign c t, s = sign ++ c :: t ∧ (sign = [] ∨ sign = [minusSign]) ∧ isDigit c = true := by
  have ⟨heq, hsign⟩ := scanSign_eq s
  unfold scanInt at h
  split at h
  . contradiction
  . next c after hafter =>
    rw [hafter] at heq
    refine ⟨(scanSign s).fst, c, after, heq, hsign, ?_⟩
    split at h
    . next hzero =>
      rw [hzero]
      decide
    . split at h
      . next hdigit => exact hdigit
      . contradiction

theorem decodeString_ne {s : PyStr} {fault : Fault} (h : decodeString s = .error fault) : fault = .jsonDecodeError := by
  unfold decodeString at h
  split at h
  . cases h
    rfl
  . contradiction

variable {limits : Limits} {parseFloat : PyStr → PyFloat}

/--
How `json.loads` ends on prose in which a brace comes later: it is one string, it begins with an integer of too many
digits, or it is refused.
-/
inductive ProseOutcome (limits : Limits) (parseFloat : PyStr → PyFloat) (t : PyStr) : Prop
  | quoted (hquoted : Quoted t) {text : PyStr} (hloads : loadsText limits parseFloat t = .ok (.str text))
  | tooLong (hlong : LongInteger limits t) (hloads : loadsText limits parseFloat t = .error .valueError)
  | refused (hquoted : ¬ Quoted t) (hlong : ¬ LongInteger limits t)
    (hloads : loadsText limits parseFloat t = .error .jsonDecodeError)

theorem loadsText_of_decodeOnce {t rest : PyStr} {v : Json} (hskip : skipWs t = t)
    (hdecode : decodeOnce limits parseFloat (2 * t.length + 2) limits.depth t = .ok (v, rest))
    : loadsText limits parseFloat t = if skipWs rest = [] then .ok v else .error .jsonDecodeError := by
  unfold loadsText rawDecode
  rw [hskip, hdecode]
  rfl

theorem loadsText_of_decodeOnce_error {t : PyStr} {fault : Fault} (hskip : skipWs t = t)
    (hdecode : decodeOnce limits parseFloat (2 * t.length + 2) limits.depth t = .error fault)
    : loadsText limits parseFloat t = .error fault := by
  unfold loadsText rawDecode
  rw [hskip, hdecode]
  rfl

theorem proseOutcome_number {t : PyStr} (hskip : skipWs t = t) (hbrace : openBrace ∈ t) (hquoted : ¬ Quoted t)
    (hdecode : decodeOnce limits parseFloat (2 * t.length + 2) limits.depth t = decodeNumber limits parseFloat t)
    : ProseOutcome limits parseFloat t := by
  unfold decodeNumber at hdecode
  split at hdecode
  . next hnone =>
    refine .refused hquoted ?_ (loadsText_of_decodeOnce_error hskip hdecode)
    rintro ⟨int, rest, hscan, _⟩
    rw [hnone] at hscan
    cases hscan
  . next int rest hscan =>
    have hrest := mem_scanExp (mem_scanFrac (mem_of_scanInt hscan hbrace))
    have hunique {int' rest' : PyStr} (h : scanInt t = some (int', rest')) : int' = int ∧ rest' = rest := by
      rw [hscan] at h
      cases h
      exact ⟨rfl, rfl⟩
    split at hdecode
    . next hint =>
      split at hdecode
      . next hdigits =>
        exact .tooLong ⟨int, rest, hscan, hint.left, hint.right, hdigits⟩
          (loadsText_of_decodeOnce_error hskip hdecode)
      . next hdigits =>
        refine .refused hquoted ?_ ?_
        . rintro ⟨_, _, hother, _, _, hlong⟩
          rw [(hunique hother).left] at hlong
          exact hdigits hlong
        . rw [loadsText_of_decodeOnce hskip hdecode, if_neg (skipWs_ne_nil hrest)]
    . next hfloat =>
      refine .refused hquoted ?_ ?_
      . rintro ⟨_, _, hother, hfrac, hexp, _⟩
        rw [(hunique hother).right] at hfrac hexp
        exact hfloat ⟨hfrac, hexp⟩
      . rw [loadsText_of_decodeOnce hskip hdecode, if_neg (skipWs_ne_nil hrest)]

variable (limits parseFloat) in
theorem proseOutcome {c : CodePoint} {s : PyStr} (hblank : isWs c = false) (hopen : c ≠ openBrace)
    (hbracket : c ≠ openBracket) (hbrace : openBrace ∈ c :: s) : ProseOutcome limits parseFloat (c :: s) := by
  have hskip : skipWs (c :: s) = c :: s := skipWs_cons hblank s
  by_cases hquote : c = quoteMark
  . subst hquote
    have hnumber : ¬ LongInteger limits (quoteMark :: s) := by
      rintro ⟨int, rest, hscan, _⟩
      cases hscan
    cases hstring : decodeString s with
    | error fault =>
      have hdecode : decodeOnce limits parseFloat (2 * (quoteMark :: s).length + 2) limits.depth (quoteMark :: s)
          = .error .jsonDecodeError := by
        rw [decodeOnce.eq_def]
        simp only [if_true, hstring, decodeString_ne hstring]
        rfl
      refine .refused ?_ hnumber (loadsText_of_decodeOnce_error hskip hdecode)
      rintro ⟨_, text, rest, heq, hok, _⟩
      cases heq
      rw [hstring] at hok
      cases hok
    | ok scanned =>
      have hdecode : decodeOnce limits parseFloat (2 * (quoteMark :: s).length + 2) limits.depth (quoteMark :: s)
          = .ok (.str scanned.fst, scanned.snd) := by
        rw [decodeOnce.eq_def]
        simp only [if_true, hstring]
        rfl
      have hloads := loadsText_of_decodeOnce hskip hdecode
      by_cases hend : skipWs scanned.snd = []
      . rw [if_pos hend] at hloads
        exact .quoted ⟨s, scanned.fst, scanned.snd, rfl, hstring, hend⟩ hloads
      . rw [if_neg hend] at hloads
        refine .refused ?_ hnumber hloads
        rintro ⟨_, text, rest, heq, hok, hrest⟩
        cases heq
        rw [hstring] at hok
        cases hok
        exact hend hrest
  . have hquoted : ¬ Quoted (c :: s) := by
      rintro ⟨_, _, _, heq, _⟩
      exact hquote (List.cons.inj heq).left
    cases hfind : constants.find? (fun constant => constant.fst.isPrefixOf (c :: s)) with
    | none =>
      refine proseOutcome_number hskip hbrace hquoted ?_
      rw [decodeOnce.eq_def]
      simp only [if_neg hquote, if_neg hopen, if_neg hbracket, hfind]
    | some constant =>
      have hdecode : decodeOnce limits parseFloat (2 * (c :: s).length + 2) limits.depth (c :: s)
          = .ok (constant.snd, (c :: s).drop constant.fst.length) := by
        rw [decodeOnce.eq_def]
        simp only [if_neg hquote, if_neg hopen, if_neg hbracket, hfind]
      have hprefix := List.find?_some hfind
      rw [List.isPrefixOf_iff_prefix] at hprefix
      obtain ⟨rest, heq⟩ := hprefix
      have hrest : openBrace ∈ (c :: s).drop constant.fst.length := by
        rw [← heq, List.drop_left]
        rw [← heq, List.mem_append] at hbrace
        refine hbrace.resolve_left fun hmem => ?_
        exact (noBraces_constant (List.mem_of_find?_eq_some hfind) _ hmem).left rfl
      refine .refused hquoted ?_ ?_
      . rintro ⟨int, rest, hscan, _⟩
        obtain ⟨sign, d, t, hs, hsign, hdigit⟩ := head_of_scanInt hscan
        rw [hs, find?_constants_number hsign hdigit t] at hfind
        cases hfind
      . rw [loadsText_of_decodeOnce hskip hdecode, if_neg (skipWs_ne_nil hrest)]

end Prose

end JsonText
