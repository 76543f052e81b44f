import Legalise.Lib.Except
import Legalise.Python.JsonGrammar
import Legalise.Python.Words

/-!
This module contains the helper that takes a JSON object out of the reply of a model: it strips fences, parses what is
left, and otherwise parses the first balanced object.
-/

namespace StructuredOutput

open JsonText (Blank Fault Limits LongInteger NoBraces Part Quoted Written closeBrace loadsText noBraces_append
  noBraces_cons noBraces_constant noBraces_nil openBrace skipWs)
open PyStr (find isSpace lstripOf rstripOf strip)

abbrev newline : CodePoint := 0x0a

def fence : PyStr :=
  py "```"

/--
The number of characters up to the brace that closes the open ones.
-/
def balancedLength : Nat → PyStr → Option Nat
  | _, [] => none
  | depth, c :: s =>
    if c = openBrace then (balancedLength (depth + 1) s).map (· + 1)
    else if c = closeBrace then
      -- The brace of the outermost object ends it.
      if depth ≤ 1 then some 1 else (balancedLength (depth - 1) s).map (· + 1)
    else (balancedLength depth s).map (· + 1)

/--
`_find_first_balanced_object`
-/
def findFirstBalancedObject (text : PyStr) : Option PyStr :=
  -- A closing brace before the first opening one is passed over.
  match text.dropWhile (· ≠ openBrace) with
  | [] => none
  | c :: s => (balancedLength 1 s).map fun n => c :: s.take n

def dropClosingFence (text : PyStr) : PyStr :=
  if fence.isSuffixOf text then text.take (text.length - fence.length) else text

def dropFirstLine (text : PyStr) : PyStr :=
  match find [newline] text 0 with
  | some i => text.drop (i + 1)
  | none => text

def stripFences (raw : PyStr) : PyStr :=
  let text := strip raw
  -- The first line goes with the fence, whatever else stands on it.
  if fence.isPrefixOf text then strip (dropClosingFence (dropFirstLine text)) else text

inductive StructuredOutputError (ε : Type) where
  | empty
  | noObject
  | jsonDecode
  | notObject (v : Json)
  | validation (error : ε)

/--
What leaves the helper: its own error with the reply, or another error of `json.loads`.
-/
inductive Raised (ε : Type) where
  | structuredOutput (error : StructuredOutputError ε) (rawText : PyStr)
  | json (fault : Fault)

section Parse

variable {ε M : Type} (limits : Limits) (parseFloat : PyStr → PyFloat)

def asObject (raw : PyStr) : Json → Except (Raised ε) Dict
  | .dict d => .ok d
  | v => .error (.structuredOutput (.notObject v) raw)

def parseCandidate (raw candidate : PyStr) : Except (Raised ε) Dict :=
  match loadsText limits parseFloat candidate with
  | .ok v => asObject raw v
  | .error .jsonDecodeError => .error (.structuredOutput .jsonDecode raw)
  | .error fault => .error (.json fault)

/--
The object that `parse_model_json` validates.
-/
def modelObject (raw : PyStr) : Except (Raised ε) Dict :=
  match loadsText limits parseFloat (stripFences raw) with
  -- JSON that is no object is refused, even if it has an object in it.
  | .ok v => asObject raw v
  | .error .jsonDecodeError =>
    match findFirstBalancedObject (stripFences raw) with
    | none => .error (.structuredOutput .noObject raw)
    | some candidate => parseCandidate limits parseFloat raw candidate
  | .error fault => .error (.json fault)

/--
`parse_model_json`, where `validate` is the validation of the model class.
-/
def parseModelJson (validate : Dict → Except ε M) : Option PyStr → Except (Raised ε) M
  | none => .error (.structuredOutput .empty [])
  | some raw => do
    let d ← modelObject limits parseFloat raw
    (validate d).mapError fun error => .structuredOutput (.validation error) raw

/--
The text that the object is decoded from.
-/
def objectText (raw : PyStr) : Option PyStr :=
  match loadsText limits parseFloat (stripFences raw) with
  | .ok _ => some (stripFences raw)
  | .error .jsonDecodeError => findFirstBalancedObject (stripFences raw)
  | .error _ => none

end Parse

section Balance

variable {parseFloat : PyStr → PyFloat}

/--
Reading the text changes the number of open braces.
-/
def Moves (t : PyStr) (depth depth' : Nat) : Prop :=
  ∀ rest, balancedLength depth (t ++ rest) = (balancedLength depth' rest).map (· + t.length)

theorem Moves.append {t u : PyStr} {l m n : Nat} (h : Moves t l m) (h' : Moves u m n) : Moves (t ++ u) l n := by
  intro rest
  rw [List.append_assoc, h, h', Option.map_map, List.length_append]
  congr 1
  funext k
  simp only [Function.comp_apply]
  omega

theorem moves_of_noBraces {t : PyStr} (h : NoBraces t) (depth : Nat) : Moves t depth depth := by
  induction t with
  | nil =>
    intro rest
    simp
  | cons c t ih =>
    intro rest
    have ⟨hopen, hclose⟩ := h c List.mem_cons_self
    rw [List.cons_append, balancedLength, if_neg hopen, if_neg hclose, ih (fun c hc => h c (List.mem_cons_of_mem _ hc)),
      Option.map_map]
    rfl

theorem moves_openBrace (depth : Nat) : Moves [openBrace] depth (depth + 1) := by
  intro rest
  rw [List.singleton_append, balancedLength, if_pos rfl]
  rfl

theorem moves_closeBrace (depth : Nat) : Moves [closeBrace] (depth + 2) (depth + 1) := by
  intro rest
  rw [List.singleton_append, balancedLength, if_neg (by decide), if_pos rfl, if_neg (by omega)]
  rfl

theorem noBraces_of_blank {ws : PyStr} (h : Blank ws) : NoBraces ws := by
  intro c hc
  have hblank := h c hc
  constructor <;> (rintro rfl; revert hblank; decide)

theorem noBraces_digits {ds : PyStr} (h : ∀ d ∈ ds, JsonText.isDigit d = true) : NoBraces ds := by
  intro c hc
  have hdigit := h c hc
  constructor <;> (rintro rfl; revert hdigit; decide)

theorem noBraces_int {s sign ds : PyStr} {c : CodePoint} (h : JsonText.IntLiteral s sign c ds) : NoBraces s := by
  rw [h.eq]
  refine noBraces_append ?_ (noBraces_digits (List.forall_mem_cons.mpr ⟨h.isDigit_head, h.isDigit_tail⟩))
  rcases h.sign_mem with hsign | hsign
  . rw [hsign]
    exact noBraces_nil
  . rw [hsign]
    exact noBraces_cons (by decide) noBraces_nil

theorem noBraces_frac {s : PyStr} (h : JsonText.FracLiteral s) : NoBraces s := by
  rcases h with hnil | ⟨ds, heq, _, hds⟩
  . rw [hnil]
    exact noBraces_nil
  . rw [heq]
    exact noBraces_cons (by decide) (noBraces_digits hds)

theorem noBraces_exp {s : PyStr} (h : JsonText.ExpLiteral s) : NoBraces s := by
  rcases h with hnil | ⟨e, sign, d, ds, heq, he, hsign, hd, hds⟩
  . rw [hnil]
    exact noBraces_nil
  . rw [heq]
    have hletter : e ≠ openBrace ∧ e ≠ closeBrace := by
      rcases he with rfl | rfl <;> decide
    refine noBraces_cons hletter (noBraces_append ?_ (noBraces_digits (List.forall_mem_cons.mpr ⟨hd, hds⟩)))
    rcases hsign with rfl | rfl | rfl
    . exact noBraces_nil
    . exact noBraces_cons (by decide) noBraces_nil
    . exact noBraces_cons (by decide) noBraces_nil

theorem noBraces_key {raw ws ws' : PyStr} (hbraces : NoBraces raw) (hws : Blank ws) (hws' : Blank ws')
    : NoBraces (JsonText.quoteMark :: (raw ++ JsonText.quoteMark :: (ws ++ JsonText.colon :: ws'))) :=
  noBraces_cons (by decide) (noBraces_append hbraces (noBraces_cons (by decide)
    (noBraces_append (noBraces_of_blank hws) (noBraces_cons (by decide) (noBraces_of_blank hws')))))

theorem noBraces_comma {ws ws' : PyStr} (hws : Blank ws) (hws' : Blank ws') : NoBraces (ws ++ JsonText.comma :: ws') :=
  noBraces_append (noBraces_of_blank hws) (noBraces_cons (by decide) (noBraces_of_blank hws'))

/--
The braces of a part are balanced, but for the last one of the items of a dictionary.
-/
def Balanced : Part → PyStr → Prop
  | .pairs, s => ∃ inside, s = inside ++ [closeBrace] ∧ ∀ depth, Moves inside (depth + 1) (depth + 1)
  | _, s => ∀ depth, Moves s (depth + 1) (depth + 1)

theorem moves_object {ws inside : PyStr} (hws : Blank ws) (h : ∀ depth, Moves inside (depth + 1) (depth + 1))
    (depth : Nat) : Moves (openBrace :: (ws ++ (inside ++ [closeBrace]))) (depth + 1) (depth + 1) := by
  have hall := ((moves_openBrace (depth + 1)).append (moves_of_noBraces (noBraces_of_blank hws) (depth + 2))).append
    ((h (depth + 1)).append (moves_closeBrace depth))
  simpa using hall

theorem balanced_of_written {k : Part} {s : PyStr} {v : Json} {n m : Nat} (h : Written parseFloat k s v n m)
    : Balanced k s := by
  induction h with
  | @str raw text hliteral hbraces =>
    have hquoted : NoBraces (JsonText.quoteMark :: (raw ++ [JsonText.quoteMark])) :=
      noBraces_cons (by decide) (noBraces_append hbraces (noBraces_cons (by decide) noBraces_nil))
    exact fun depth => moves_of_noBraces hquoted _
  | constant hword => exact fun depth => moves_of_noBraces (noBraces_constant hword) _
  | int hint => exact fun depth => moves_of_noBraces (noBraces_int hint) _
  | float hint hfrac hexp hne =>
    intro depth
    exact moves_of_noBraces (noBraces_append (noBraces_append (noBraces_int hint) (noBraces_frac hfrac))
      (noBraces_exp hexp)) _
  | @emptyList ws hws =>
    intro depth
    exact moves_of_noBraces (noBraces_cons (by decide) (noBraces_append (noBraces_of_blank hws)
      (noBraces_cons (by decide) noBraces_nil))) _
  | @list ws s vs n m hws hitems ih =>
    intro depth
    have hfront : NoBraces (JsonText.openBracket :: ws) := noBraces_cons (by decide) (noBraces_of_blank hws)
    exact (moves_of_noBraces hfront (depth + 1)).append (ih depth)
  | @emptyDict ws hws =>
    intro depth
    exact moves_object hws (fun depth => moves_of_noBraces noBraces_nil _) depth
  | @dict ws s items n m hws hpairs ih =>
    intro depth
    have ⟨inside, heq, hinside⟩ := ih
    rw [heq]
    exact moves_object hws hinside depth
  | @lastItem s ws v n m hvalue hws ih =>
    intro depth
    exact (ih depth).append (moves_of_noBraces (noBraces_append (noBraces_of_blank hws)
      (noBraces_cons (by decide) noBraces_nil)) _)
  | @item s ws ws' t v vs n m n' m' hvalue hws hws' hitems ih ih' =>
    intro depth
    have hall := (ih depth).append ((moves_of_noBraces (noBraces_comma hws hws') (depth + 1)).append (ih' depth))
    simpa using hall
  | @lastPair raw key ws ws' s ws'' v n m hliteral hbraces hws hws' hvalue hws'' ih =>
    refine ⟨JsonText.quoteMark :: (raw ++ JsonText.quoteMark :: (ws ++ JsonText.colon :: ws')) ++ (s ++ ws''),
      by simp, ?_⟩
    intro depth
    have hvalueBlank := (ih depth).append (moves_of_noBraces (noBraces_of_blank hws'') _)
    exact (moves_of_noBraces (noBraces_key hbraces hws hws') _).append hvalueBlank
  | @pair raw key ws ws' s ws'' ws₃ t v items n m n' m' hliteral hbraces hws hws' hvalue hws'' hws₃ hpairs ih ih' =>
    have ⟨inside, heq, hinside⟩ := ih'
    refine ⟨JsonText.quoteMark :: (raw ++ JsonText.quoteMark :: (ws ++ JsonText.colon :: ws'))
      ++ (s ++ ((ws'' ++ JsonText.comma :: ws₃) ++ inside)), by rw [heq]; simp, ?_⟩
    intro depth
    have hvalueRest :=
      (ih depth).append ((moves_of_noBraces (noBraces_comma hws'' hws₃) _).append (hinside depth))
    exact (moves_of_noBraces (noBraces_key hbraces hws hws') _).append hvalueRest

/--
The text of an object is its braces around balanced ones.
-/
theorem inside_of_written {s : PyStr} {d : Dict} {n m : Nat} (h : Written parseFloat .value s (.dict d) n m)
    : ∃ inside, s = openBrace :: (inside ++ [closeBrace]) ∧ Moves inside 1 1 := by
  cases h with
  | @constant word v hword =>
    simp [JsonText.constants] at hword
  | @emptyDict ws hws => exact ⟨ws, rfl, moves_of_noBraces (noBraces_of_blank hws) 1⟩
  | @dict ws s items n m hws hpairs =>
    obtain ⟨inside, heq, hinside⟩ := balanced_of_written hpairs
    exact ⟨ws ++ inside, by rw [heq]; simp, (moves_of_noBraces (noBraces_of_blank hws) 1).append (hinside 0)⟩

/--
The first balanced object of a text is the one before which there are no braces.
-/
theorem findFirstBalancedObject_append {s before after : PyStr} {d : Dict} {n m : Nat}
    (h : Written parseFloat .value s (.dict d) n m) (hbefore : NoBraces before)
    : findFirstBalancedObject (before ++ (s ++ after)) = some s := by
  have ⟨inside, heq, hinside⟩ := inside_of_written h
  have hdrop : (before ++ (s ++ after)).dropWhile (fun c => decide (c ≠ openBrace))
      = openBrace :: (inside ++ closeBrace :: after) := by
    rw [List.dropWhile_append_of_pos (fun c hc => by simpa using (hbefore c hc).left), heq]
    simp
  have hlength : balancedLength 1 (inside ++ closeBrace :: after) = some (inside.length + 1) := by
    rw [hinside, balancedLength, if_neg (by decide), if_pos rfl, if_pos (by omega), Option.map_some, Nat.add_comm]
  unfold findFirstBalancedObject
  rw [hdrop]
  dsimp only
  rw [hlength, Option.map_some, heq]
  have htake : (inside ++ closeBrace :: after).take (inside.length + 1) = inside ++ [closeBrace] := by
    rw [List.take_length_add_append]
    rfl
  rw [htake]

end Balance

section Strip

variable {before s inside after : PyStr}

theorem dropWhile_append_cons {p : CodePoint → Bool} {c : CodePoint} (hc : p c = false) (l t : PyStr)
    : (l ++ c :: t).dropWhile p = l.dropWhile p ++ c :: t := by
  induction l with
  | nil => rw [List.nil_append, List.dropWhile_cons_of_neg (by simp [hc]), List.dropWhile_nil, List.nil_append]
  | cons d l ih =>
    rw [List.cons_append, List.dropWhile_cons, List.dropWhile_cons]
    split
    . exact ih
    . rfl

theorem rdropWhile_append_cons {p : CodePoint → Bool} {c : CodePoint} (hc : p c = false) (l t : PyStr)
    : (l ++ c :: t).rdropWhile p = l ++ c :: t.rdropWhile p := by
  unfold List.rdropWhile
  rw [List.reverse_append, List.reverse_cons, List.append_assoc, List.singleton_append, dropWhile_append_cons hc,
    List.reverse_append, List.reverse_cons, List.reverse_reverse, List.append_assoc, List.singleton_append]

/--
Trimming the text around an object leaves the object alone.
-/
theorem strip_around (hs : s = openBrace :: (inside ++ [closeBrace]))
    : strip (before ++ (s ++ after)) = lstripOf isSpace before ++ (s ++ rstripOf isSpace after) := by
  have hopen : isSpace openBrace = false := by
    decide
  have hclose : isSpace closeBrace = false := by
    decide
  have hfront : (before ++ (s ++ after)).dropWhile isSpace = before.dropWhile isSpace ++ (s ++ after) := by
    rw [hs, List.cons_append, dropWhile_append_cons hopen]
  have hback : before.dropWhile isSpace ++ (s ++ after)
      = (before.dropWhile isSpace ++ openBrace :: inside) ++ closeBrace :: after := by
    rw [hs]
    simp
  unfold strip PyStr.stripOf rstripOf lstripOf
  rw [hfront, hback, rdropWhile_append_cons hclose, hs]
  simp

theorem mem_of_isAt {c : CodePoint} {t : PyStr} {i : Nat} (h : PyStr.isAt [c] t i = true) : t[i]? = some c := by
  rw [PyStr.isAt, Bool.and_eq_true, List.isPrefixOf_iff_prefix] at h
  obtain ⟨rest, hrest⟩ := h.right
  have hhead := congrArg List.head? hrest
  rw [List.head?_drop] at hhead
  exact hhead.symm

theorem isAt_of_getElem? {c : CodePoint} {t : PyStr} {i : Nat} (h : t[i]? = some c) : PyStr.isAt [c] t i = true := by
  have hlt : i < t.length := (List.getElem?_eq_some_iff.mp h).fst
  rw [PyStr.isAt, Bool.and_eq_true, List.isPrefixOf_iff_prefix, decide_eq_true_eq]
  refine ⟨hlt.le, t.drop (i + 1), ?_⟩
  rw [List.drop_eq_getElem_cons hlt, (List.getElem?_eq_some_iff.mp h).snd]
  rfl

/--
Dropping the first line leaves the object alone if the line ends before it, or if there is only one line.
-/
theorem dropFirstLine_append (h : newline ∈ before ++ s → newline ∈ before)
    : ∃ rest, dropFirstLine (before ++ s) = rest ++ s ∧ rest <:+ before := by
  unfold dropFirstLine
  split
  . next i hfind =>
    rw [PyStr.find_eq_some_iff] at hfind
    have ⟨_, hat, hfirst⟩ := hfind
    have hmem : newline ∈ before := h (List.mem_of_getElem? (mem_of_isAt hat))
    have ⟨j, hj, hget⟩ := List.getElem_of_mem hmem
    have hle : i ≤ j := by
      by_contra hlt
      have hnot := hfirst j (by omega) (by omega)
      rw [isAt_of_getElem? (by rw [List.getElem?_append_left hj, List.getElem?_eq_getElem hj, hget])] at hnot
      cases hnot
    refine ⟨before.drop (i + 1), ?_, List.drop_suffix _ _⟩
    rw [List.drop_append_of_le_length (by omega)]
  . exact ⟨before, rfl, List.suffix_refl _⟩

theorem suffix_of_suffix_append_cons {c : CodePoint} {l t u : PyStr} (hc : c ∉ l) (h : l <:+ t ++ c :: u)
    : l <:+ u := by
  rcases Nat.lt_or_ge u.length l.length with hlong | hshort
  . have hcons : c :: u <:+ l := List.suffix_of_suffix_length_le (List.suffix_append t _) h hlong
    exact absurd (hcons.subset List.mem_cons_self) hc
  . have hself : u <:+ t ++ c :: u := (List.suffix_cons c u).trans (List.suffix_append t _)
    exact List.suffix_of_suffix_length_le h hself hshort

/--
Dropping a closing fence leaves the object alone, since the fence has no brace.
-/
theorem dropClosingFence_append (hs : s = openBrace :: (inside ++ [closeBrace]))
    : ∃ rest, dropClosingFence (before ++ (s ++ after)) = before ++ (s ++ rest) ∧ rest <+: after := by
  unfold dropClosingFence
  split
  . next hsuffix =>
    rw [List.isSuffixOf_iff_suffix] at hsuffix
    have hafter : fence <:+ after := by
      have hclose : before ++ (s ++ after) = (before ++ openBrace :: inside) ++ closeBrace :: after := by
        rw [hs]
        simp
      rw [hclose] at hsuffix
      exact suffix_of_suffix_append_cons (by decide) hsuffix
    have ⟨rest, hrest⟩ := hafter
    refine ⟨rest, ?_, ⟨fence, hrest⟩⟩
    have hall : before ++ (s ++ after) = (before ++ (s ++ rest)) ++ fence := by
      rw [← hrest]
      simp
    rw [hall, List.length_append, Nat.add_sub_cancel, List.take_left]
  . exact ⟨after, rfl, List.prefix_refl _⟩

/--
The fence of a reply does not run on into the object on its line.
-/
def Uncut (before s after : PyStr) : Prop :=
  fence.isPrefixOf (strip (before ++ (s ++ after))) = true → newline ∈ strip (before ++ (s ++ after))
    → newline ∈ lstripOf isSpace before

theorem lstripOf_lstripOf (t : PyStr) : lstripOf isSpace (lstripOf isSpace t) = lstripOf isSpace t :=
  List.dropWhile_idempotent _ _

theorem rstripOf_rstripOf (t : PyStr) : rstripOf isSpace (rstripOf isSpace t) = rstripOf isSpace t :=
  List.rdropWhile_idempotent _ _

/--
The texts around an object, trimmed, of what is around it in a reply.
-/
structure Around (before after b a : PyStr) : Prop where
  front : b ⊆ before
  back : a ⊆ after
  lstrip : lstripOf isSpace b = b
  rstrip : rstripOf isSpace a = a

theorem stripFences_around (hs : s = openBrace :: (inside ++ [closeBrace])) (hcut : Uncut before s after)
    : ∃ b a, stripFences (before ++ (s ++ after)) = b ++ (s ++ a) ∧ Around before after b a := by
  have hlstrip (t : PyStr) : lstripOf isSpace t ⊆ t := (List.dropWhile_suffix _).subset
  have hrstrip (t : PyStr) : rstripOf isSpace t ⊆ t := (List.rdropWhile_prefix _ _).subset
  unfold Uncut at hcut
  unfold stripFences
  rw [strip_around hs] at hcut ⊢
  dsimp only
  split
  . next hfence =>
    have ⟨b, hb, hsub⟩ := dropFirstLine_append (hcut hfence)
    have ⟨a, ha, hsub'⟩ := @dropClosingFence_append b s inside (rstripOf isSpace after) hs
    rw [hb, ha, strip_around hs]
    refine ⟨_, _, rfl, ?_, ?_, lstripOf_lstripOf _, rstripOf_rstripOf _⟩
    . exact List.Subset.trans (hlstrip b) (List.Subset.trans hsub.subset (hlstrip before))
    . exact List.Subset.trans (hrstrip a) (List.Subset.trans hsub'.subset (hrstrip after))
  . exact ⟨_, _, rfl, hlstrip before, hrstrip after, lstripOf_lstripOf _, rstripOf_rstripOf _⟩

end Strip

section Cut

variable {before s inside after : PyStr}

theorem strip_sublist (t : PyStr) : List.Sublist (strip t) t :=
  (List.rdropWhile_prefix _ _).sublist.trans (List.dropWhile_suffix _).sublist

theorem dropClosingFence_sublist (t : PyStr) : List.Sublist (dropClosingFence t) t := by
  unfold dropClosingFence
  split
  . exact (List.take_prefix _ _).sublist
  . exact List.Sublist.refl _

theorem dropFirstLine_of_cut (hline : newline ∈ before ++ (openBrace :: s)) (hbefore : newline ∉ before)
    : List.Sublist (dropFirstLine (before ++ (openBrace :: s))) s := by
  unfold dropFirstLine
  split
  . next i hfind =>
    rw [PyStr.find_eq_some_iff] at hfind
    have hget := mem_of_isAt hfind.right.left
    have hlt : before.length < i := by
      by_contra hle
      rcases Nat.lt_or_ge i before.length with hshort | hlong
      . rw [List.getElem?_append_left hshort] at hget
        exact hbefore (List.mem_of_getElem? hget)
      . obtain rfl : i = before.length := by omega
        rw [List.getElem?_append_right le_rfl, Nat.sub_self, List.getElem?_cons_zero] at hget
        exact absurd hget (by decide)
    obtain ⟨k, hk⟩ : ∃ k, i + 1 = before.length + (k + 1) := ⟨i - before.length, by omega⟩
    rw [hk, List.drop_append, List.drop_eq_nil_of_le (by omega), Nat.add_sub_cancel_left, List.nil_append,
      List.drop_succ_cons]
    exact List.drop_sublist k s
  . next hfind =>
    have ⟨i, hget⟩ := List.getElem?_of_mem hline
    have hnot := PyStr.find_eq_none_iff.mp hfind i (Nat.zero_le _)
    rw [isAt_of_getElem? hget] at hnot
    cases hnot

/--
If the line of a fence runs on into the object, braces of the object are lost.
-/
theorem count_stripFences_lt (hs : s = openBrace :: (inside ++ [closeBrace])) (hafter : NoBraces after)
    (hcut : ¬ Uncut before s after) : (stripFences (before ++ (s ++ after))).count openBrace < s.count openBrace := by
  unfold Uncut at hcut
  simp only [Classical.not_imp] at hcut
  obtain ⟨hfence, hline, hbefore⟩ := hcut
  have hnone : (rstripOf isSpace after).count openBrace = 0 := by
    rw [List.count_eq_zero]
    exact fun hmem => (hafter _ ((List.rdropWhile_prefix _ _).subset hmem)).left rfl
  unfold stripFences
  dsimp only
  rw [if_pos hfence]
  rw [strip_around hs] at hline ⊢
  have hrest : List.Sublist (dropFirstLine (lstripOf isSpace before ++ (s ++ rstripOf isSpace after)))
      ((inside ++ [closeBrace]) ++ rstripOf isSpace after) := by
    rw [hs, List.cons_append] at hline ⊢
    exact dropFirstLine_of_cut hline hbefore
  have hle := (((strip_sublist _).trans (dropClosingFence_sublist _)).trans hrest).count_le openBrace
  rw [List.count_append, hnone] at hle
  have hcount : s.count openBrace = (inside ++ [closeBrace]).count openBrace + 1 := by
    rw [hs, List.count_cons_self]
  omega

end Cut

section Extraction

variable {limits : Limits} {parseFloat : PyStr → PyFloat} {before s after : PyStr} {d : Dict} {n m : Nat}

/--
The text has neither braces nor brackets.
-/
def NoBrackets (s : PyStr) : Prop :=
  NoBraces s ∧ ∀ c ∈ s, c ≠ JsonText.openBracket ∧ c ≠ JsonText.closeBracket

instance (s : PyStr) : Decidable (NoBrackets s) :=
  @instDecidableAnd _ _ _ (List.decidableBAll _ s)

variable (limits parseFloat) in
/--
What is promised of a reply with an object in it: the object is decoded from its text, and is what is validated.
-/
structure ValidatesObject (raw s : PyStr) (d : Dict) : Prop where
  text : objectText limits parseFloat raw = some s
  object : ∀ (ε M : Type) (validate : Dict → Except ε M), parseModelJson limits parseFloat validate (some raw)
    = (validate d).mapError fun error => .structuredOutput (.validation error) raw

variable (limits) in
/--
The object is within the limits, the line of a fence does not run on into it, and what is left without the fences is
neither one string literal nor begins with an integer of too many digits.
-/
structure Extractable (before s after : PyStr) (n m : Nat) : Prop where
  depth : n ≤ limits.depth
  digits : m ≤ limits.digits
  uncut : Uncut before s after
  unquoted : ¬ Quoted (stripFences (before ++ (s ++ after)))
  short : ¬ LongInteger limits (stripFences (before ++ (s ++ after)))

theorem rawDecode_object (h : Written parseFloat .value s (.dict d) n m) (hdepth : n ≤ limits.depth)
    (hdigits : m ≤ limits.digits) (rest : PyStr)
    : JsonText.rawDecode limits parseFloat (s ++ rest) = .ok (.dict d, rest) := by
  unfold JsonText.rawDecode
  refine h.decodes hdigits hdepth _ rest ?_ (.inr ⟨d, rfl⟩)
  rw [List.length_append]
  omega

theorem loadsText_object (h : Written parseFloat .value s (.dict d) n m) (hdepth : n ≤ limits.depth)
    (hdigits : m ≤ limits.digits) (rest : PyStr)
    : loadsText limits parseFloat (s ++ rest)
        = if skipWs rest = [] then .ok (.dict d) else .error .jsonDecodeError := by
  unfold loadsText
  rw [(h.valueHead.append rest).skipWs_eq, rawDecode_object h hdepth hdigits]
  rfl

/--
An object that is decoded is within the limits.
-/
theorem within_of_loadsText (h : Written parseFloat .value s (.dict d) n m) {v : Json}
    (hloads : loadsText limits parseFloat s = .ok v) : n ≤ limits.depth ∧ m ≤ limits.digits := by
  by_contra hover
  have hfails : JsonText.Fails limits parseFloat limits.depth .value s (.dict d) := h.fails (by omega)
  unfold loadsText JsonText.rawDecode at hloads
  rw [h.valueHead.skipWs_eq, Except.bind_eq_ok_iff] at hloads
  obtain ⟨r, hdecode, _⟩ := hloads
  refine hfails (2 * s.length + 2) [] r (by omega) (.inr ⟨d, rfl⟩) ?_
  rw [List.append_nil]
  exact hdecode

theorem isSpace_of_isWs {c : CodePoint} (h : JsonText.isWs c = true) : isSpace c = true := by
  unfold JsonText.isWs at h
  simp only [Bool.or_eq_true, decide_eq_true_eq] at h
  rcases h with ((rfl | rfl) | rfl) | rfl <;> decide

theorem eq_nil_of_skipWs {a : PyStr} (hstrip : rstripOf isSpace a = a) (hend : skipWs a = []) : a = [] := by
  by_contra hne
  have hlast : isSpace (a.getLast hne) = false := by
    simpa using List.rdropWhile_eq_self_iff.mp hstrip hne
  have hws : JsonText.isWs (a.getLast hne) = true := List.dropWhile_eq_nil_iff.mp hend _ (List.getLast_mem hne)
  rw [isSpace_of_isWs hws] at hlast
  cases hlast

theorem openBrace_mem {inside : PyStr} (hs : s = openBrace :: (inside ++ [closeBrace])) : openBrace ∈ s := by
  rw [hs]
  exact List.mem_cons_self

/--
Prose before the object is read in one of three ways.
-/
theorem proseOutcome_around {b a : PyStr} (hbefore : NoBrackets before) (hs : openBrace ∈ s)
    (haround : Around before after b a) (hne : b ≠ []) : JsonText.ProseOutcome limits parseFloat (b ++ (s ++ a)) := by
  cases b with
  | nil => contradiction
  | cons c b =>
    have hmem : c ∈ before := haround.front List.mem_cons_self
    have hspace : isSpace c = false := by
      have hhead := List.dropWhile_eq_self_iff.mp haround.lstrip (by simp)
      simpa using hhead
    have hblank : JsonText.isWs c = false := by
      by_contra hws
      rw [isSpace_of_isWs (by simpa using hws)] at hspace
      cases hspace
    refine JsonText.proseOutcome limits parseFloat hblank (hbefore.left c hmem).left (hbefore.right c hmem).left ?_
    exact List.mem_cons_of_mem _ (List.mem_append_right _ (List.mem_append_left _ hs))

theorem not_quoted_object {t : PyStr} : ¬ Quoted (openBrace :: t) := by
  rintro ⟨_, _, _, heq, _⟩
  exact absurd (List.cons.inj heq).left (by decide)

theorem not_longInteger_object {t : PyStr} : ¬ LongInteger limits (openBrace :: t) := by
  rintro ⟨_, _, hscan, _⟩
  cases hscan

theorem findFirstBalancedObject_sublist {t candidate : PyStr} (h : findFirstBalancedObject t = some candidate)
    : List.Sublist candidate t := by
  unfold findFirstBalancedObject at h
  split at h
  . contradiction
  . next c rest hdrop =>
    rw [Option.map_eq_some_iff] at h
    obtain ⟨k, _, rfl⟩ := h
    have hsuffix : c :: rest <:+ t := hdrop ▸ List.dropWhile_suffix _
    exact (List.Sublist.cons_cons c (List.take_sublist k rest)).trans hsuffix.sublist

theorem modelObject_of_validates {ε : Type} {raw : PyStr} (h : ValidatesObject limits parseFloat raw s d)
    : (modelObject limits parseFloat raw : Except (Raised ε) Dict) = .ok d := by
  have hparse := h.object ε Dict .ok
  unfold parseModelJson at hparse
  dsimp only at hparse
  cases hobject : (modelObject limits parseFloat raw : Except (Raised ε) Dict) with
  | ok d' =>
    rw [hobject] at hparse
    exact hparse
  | error e =>
    rw [hobject] at hparse
    cases hparse

theorem validates_of_modelObject {raw : PyStr} (htext : objectText limits parseFloat raw = some s)
    (h : ∀ ε : Type, (modelObject limits parseFloat raw : Except (Raised ε) Dict) = .ok d)
    : ValidatesObject limits parseFloat raw s d := by
  refine ⟨htext, fun ε M validate => ?_⟩
  unfold parseModelJson
  dsimp only
  rw [h ε]
  rfl

/--
What the object is decoded from is decoded.
-/
theorem loadsText_of_validates {raw : PyStr} (h : ValidatesObject limits parseFloat raw s d)
    : loadsText limits parseFloat s = .ok (.dict d)
        ∧ (stripFences raw = s ∨ loadsText limits parseFloat (stripFences raw) = .error .jsonDecodeError
          ∧ findFirstBalancedObject (stripFences raw) = some s) := by
  have htext := h.text
  have hobject := @modelObject_of_validates _ _ _ _ Unit _ h
  unfold objectText at htext
  unfold modelObject at hobject
  split at htext
  . next v hv =>
    rw [hv] at hobject
    cases htext
    refine ⟨?_, .inl rfl⟩
    cases v with
    | dict d' =>
      cases hobject
      exact hv
    | _ => cases hobject
  . next hrefused =>
    rw [hrefused, htext] at hobject
    dsimp only at hobject
    refine ⟨?_, .inr ⟨hrefused, htext⟩⟩
    unfold parseCandidate at hobject
    split at hobject
    . next v hv =>
      cases v with
      | dict d' =>
        cases hobject
        exact hv
      | _ => cases hobject
    . cases hobject
    . cases hobject
  . contradiction

theorem validates_of_find {raw : PyStr} (hloads : loadsText limits parseFloat s = .ok (.dict d))
    (hrefused : loadsText limits parseFloat (stripFences raw) = .error .jsonDecodeError)
    (hfind : findFirstBalancedObject (stripFences raw) = some s) : ValidatesObject limits parseFloat raw s d := by
  refine validates_of_modelObject ?_ fun ε => ?_
  . unfold objectText
    rw [hrefused]
    exact hfind
  . unfold modelObject
    rw [hrefused]
    dsimp only
    rw [hfind]
    unfold parseCandidate
    dsimp only
    rw [hloads]
    rfl

/--
An object that is validated keeps all its braces, and what stands before it is refused by the direct parse.
-/
theorem extractable_of_validates (hbefore : NoBrackets before) (hafter : NoBrackets after)
    (h : Written parseFloat .value s (.dict d) n m)
    (hvalid : ValidatesObject limits parseFloat (before ++ (s ++ after)) s d)
    : Extractable limits before s after n m := by
  have ⟨inside, hs, _⟩ := inside_of_written h
  have ⟨hloads, hway⟩ := loadsText_of_validates hvalid
  have ⟨hdepth, hdigits⟩ := within_of_loadsText h hloads
  have hsublist : List.Sublist s (stripFences (before ++ (s ++ after))) := by
    rcases hway with heq | ⟨_, hfind⟩
    . rw [heq]
    . exact findFirstBalancedObject_sublist hfind
  have hcut : Uncut before s after := by
    by_contra hcut
    have hlt := count_stripFences_lt hs hafter.left hcut
    have hle := hsublist.count_le openBrace
    omega
  have ⟨b, a, hstrip, haround⟩ := stripFences_around hs hcut
  rw [hstrip] at hway
  have hprose : ¬ Quoted (b ++ (s ++ a)) ∧ ¬ LongInteger limits (b ++ (s ++ a)) := by
    by_cases hb : b = []
    . rw [hb, hs, List.nil_append, List.cons_append]
      exact ⟨not_quoted_object, not_longInteger_object⟩
    . have hrefused : loadsText limits parseFloat (b ++ (s ++ a)) = .error .jsonDecodeError := by
        rcases hway with heq | ⟨hrefused, _⟩
        . have hlength := congrArg List.length heq
          rw [List.length_append, List.length_append] at hlength
          have hpos := List.length_pos_iff.mpr hb
          omega
        . exact hrefused
      rcases @proseOutcome_around limits parseFloat before s after b a hbefore (openBrace_mem hs) haround hb
        with ⟨_, hother⟩ | ⟨_, hother⟩ | ⟨hquoted, hlong, _⟩
      . rw [hrefused] at hother
        cases hother
      . rw [hrefused] at hother
        cases hother
      . exact ⟨hquoted, hlong⟩
  rw [← hstrip] at hprose
  exact ⟨hdepth, hdigits, hcut, hprose.left, hprose.right⟩

/--
The reply is decoded directly if nothing but the object is left of it; otherwise the scan finds the object.
-/
theorem validates_of_extractable (hbefore : NoBrackets before) (h : Written parseFloat .value s (.dict d) n m)
    (hext : Extractable limits before s after n m)
    : ValidatesObject limits parseFloat (before ++ (s ++ after)) s d := by
  have ⟨inside, hs, _⟩ := inside_of_written h
  have ⟨b, a, hstrip, haround⟩ := stripFences_around hs hext.uncut
  have hnone : NoBraces b := fun c hc => hbefore.left c (haround.front hc)
  have hfind := @findFirstBalancedObject_append parseFloat s b a d n m h hnone
  have hloads := loadsText_object h hext.depth hext.digits []
  rw [List.append_nil, if_pos (by rfl)] at hloads
  rw [← hstrip] at hfind
  by_cases hb : b = []
  . rw [hb, List.nil_append] at hstrip
    have hwhole := loadsText_object h hext.depth hext.digits a
    rw [← hstrip] at hwhole
    by_cases hend : skipWs a = []
    . have ha : a = [] := eq_nil_of_skipWs haround.rstrip hend
      rw [if_pos hend] at hwhole
      rw [ha, List.append_nil] at hstrip
      refine validates_of_modelObject ?_ fun ε => ?_
      . unfold objectText
        rw [hwhole, hstrip]
      . unfold modelObject
        rw [hwhole]
        rfl
    . rw [if_neg hend] at hwhole
      exact validates_of_find hloads hwhole hfind
  . have hunquoted := hext.unquoted
    have hshort := hext.short
    rw [hstrip] at hunquoted hshort
    rcases @proseOutcome_around limits parseFloat before s after b a hbefore (openBrace_mem hs) haround hb
      with ⟨hquoted, _⟩ | ⟨hlong, _⟩ | ⟨_, _, hrefused⟩
    . exact absurd hquoted hunquoted
    . exact absurd hlong hshort
    . rw [← hstrip] at hrefused
      exact validates_of_find hloads hrefused hfind

/--
The object between texts without brackets is what is validated, exactly if it can be extracted.
-/
theorem validatesObject_iff (hbefore : NoBrackets before) (hafter : NoBrackets after)
    (h : Written parseFloat .value s (.dict d) n m)
    : ValidatesObject limits parseFloat (before ++ (s ++ after)) s d ↔ Extractable limits before s after n m :=
  ⟨extractable_of_validates hbefore hafter h, validates_of_extractable hbefore h⟩

variable (limits parseFloat) in
/--
Neither the stripped reply nor the object in it exceeds the limits of the interpreter.
-/
structure WithinLimits (raw : PyStr) : Prop where
  stripped : ∀ fault, loadsText limits parseFloat (stripFences raw) = .error fault → fault = .jsonDecodeError
  candidate : loadsText limits parseFloat (stripFences raw) = .error .jsonDecodeError
    → ∀ candidate, findFirstBalancedObject (stripFences raw) = some candidate
      → ∀ fault, loadsText limits parseFloat candidate = .error fault → fault = .jsonDecodeError

theorem asObject_ne_json {ε : Type} (raw : PyStr) (v : Json) (fault : Fault)
    : (asObject raw v : Except (Raised ε) Dict) ≠ .error (.json fault) := by
  cases v <;> simp [asObject]

theorem parseCandidate_ne_json_iff {ε : Type} (raw candidate : PyStr)
    : (∀ fault, (parseCandidate limits parseFloat raw candidate : Except (Raised ε) Dict) ≠ .error (.json fault))
        ↔
      ∀ fault, loadsText limits parseFloat candidate = .error fault → fault = .jsonDecodeError := by
  unfold parseCandidate
  cases loadsText limits parseFloat candidate with
  | ok v => simp [asObject_ne_json]
  | error fault => cases fault <;> simp

theorem modelObject_ne_json_iff {ε : Type} (raw : PyStr)
    : (∀ fault, (modelObject limits parseFloat raw : Except (Raised ε) Dict) ≠ .error (.json fault))
        ↔
      WithinLimits limits parseFloat raw := by
  have hpart : WithinLimits limits parseFloat raw ↔
      (∀ fault, loadsText limits parseFloat (stripFences raw) = .error fault → fault = .jsonDecodeError)
      ∧ (loadsText limits parseFloat (stripFences raw) = .error .jsonDecodeError
        → ∀ candidate, findFirstBalancedObject (stripFences raw) = some candidate
          → ∀ fault, loadsText limits parseFloat candidate = .error fault → fault = .jsonDecodeError) :=
    ⟨fun h => ⟨h.stripped, h.candidate⟩, fun h => ⟨h.left, h.right⟩⟩
  rw [hpart]
  unfold modelObject
  cases hloads : loadsText limits parseFloat (stripFences raw) with
  | ok v => simp [asObject_ne_json]
  | error fault =>
    cases fault with
    | jsonDecodeError =>
      cases hfind : findFirstBalancedObject (stripFences raw) with
      | none => simp
      | some candidate =>
        simp only [parseCandidate_ne_json_iff]
        simp
    | valueError => simp
    | recursionError => simp

theorem parseModelJson_ne_json_iff {ε M : Type} (validate : Dict → Except ε M) (raw : PyStr)
    : (∀ fault, parseModelJson limits parseFloat validate (some raw) ≠ .error (.json fault))
        ↔
      WithinLimits limits parseFloat raw := by
  rw [← @modelObject_ne_json_iff limits parseFloat ε raw]
  refine forall_congr' fun fault => not_congr ?_
  unfold parseModelJson
  rw [Except.bind_eq_error_iff]
  refine or_iff_left ?_
  rintro ⟨d, _, hvalidate⟩
  cases hresult : validate d with
  | ok v => simp [hresult, Except.mapError] at hvalidate
  | error e => simp [hresult, Except.mapError] at hvalidate

/--
The object of a reply is what is validated, exactly if it can be extracted; and nothing but a `StructuredOutputError` is
raised, exactly if no text that is decoded exceeds the limits of the interpreter.
-/
theorem parseModelJson_iff (limits : Limits) (parseFloat : PyStr → PyFloat)
    : (∀ (before s after : PyStr) (d : Dict) (n m : Nat),
        NoBrackets before → NoBrackets after → Written parseFloat .value s (.dict d) n m
          → (ValidatesObject limits parseFloat (before ++ (s ++ after)) s d ↔ Extractable limits before s after n m))
      ∧ ∀ (ε M : Type) (validate : Dict → Except ε M) (raw : PyStr),
        (∀ fault, parseModelJson limits parseFloat validate (some raw) ≠ .error (.json fault))
          ↔ WithinLimits limits parseFloat raw :=
  ⟨fun _ _ _ _ _ _ => validatesObject_iff, fun _ _ => parseModelJson_ne_json_iff⟩

end Extraction

section Fenced

def sampleLimits : Limits where
  depth := 994
  digits := 4300

/--
An object in an object.
-/
def answer : PyStr := py "\x7b\"a\": \x7b\"b\": \"c\"\x7d\x7d"

def answerObject : Dict := [(py "a", .dict [(py "b", .str (py "c"))])]

def fenceBefore : PyStr := py "```json\n"

def fenceAfter : PyStr := py "\n```\nThat is all."

def fencedReply : PyStr := fenceBefore ++ (answer ++ fenceAfter)

theorem written_answer : Written (fun _ => .nan) .value answer (.dict answerObject) 2 0 := by
  have ha : JsonText.Literal (py "a") (py "a") := fun rest => rfl
  have hb : JsonText.Literal (py "b") (py "b") := fun rest => rfl
  have hc : JsonText.Literal (py "c") (py "c") := fun rest => rfl
  have hplain (c : CodePoint) (h : c ≠ openBrace ∧ c ≠ closeBrace) : NoBraces [c] := noBraces_cons h noBraces_nil
  have hblank : Blank [] := by
    simp [Blank]
  have hspace : Blank (py " ") := by
    decide
  have hvalue := @Written.str (fun _ => .nan) _ _ hc (hplain _ (by decide))
  have hinner := Written.dict hblank (Written.lastPair hb (hplain _ (by decide)) hblank hspace hvalue hblank)
  exact Written.dict hblank (Written.lastPair ha (hplain _ (by decide)) hblank hspace hinner hblank)

theorem noBrackets_fenceBefore : NoBrackets fenceBefore := by
  decide

theorem noBrackets_fenceAfter : NoBrackets fenceAfter := by
  decide

theorem stripFences_fencedReply : stripFences fencedReply = answer ++ fenceAfter := by
  decide +kernel

theorem extractable_fencedReply : Extractable sampleLimits fenceBefore answer fenceAfter 2 0 where
  depth := by
    decide
  digits := by
    decide
  uncut := by
    unfold Uncut
    decide +kernel
  unquoted := by
    rw [← fencedReply, stripFences_fencedReply]
    exact not_quoted_object
  short := by
    rw [← fencedReply, stripFences_fencedReply]
    exact not_longInteger_object

theorem withinLimits_fencedReply : WithinLimits sampleLimits (fun _ => .nan) fencedReply := by
  have hloads : loadsText sampleLimits (fun _ => .nan) answer = .ok (.dict answerObject) := by
    have h := loadsText_object written_answer (by decide : 2 ≤ sampleLimits.depth)
      (by decide : 0 ≤ sampleLimits.digits) []
    rw [List.append_nil] at h
    exact h
  have hfind : findFirstBalancedObject (stripFences fencedReply) = some answer := by
    rw [stripFences_fencedReply]
    exact findFirstBalancedObject_append written_answer noBraces_nil
  refine ⟨?_, ?_⟩
  . rw [stripFences_fencedReply, loadsText_object written_answer (by decide) (by decide), if_neg (by decide)]
    rintro fault ⟨⟩
    rfl
  . intro _ candidate hcandidate fault hfault
    rw [hfind] at hcandidate
    cases hcandidate
    rw [hloads] at hfault
    cases hfault

theorem parseModelJson_iff_fencedReply
    : ValidatesObject sampleLimits (fun _ => .nan) fencedReply answer answerObject
        ∧ ∀ fault, parseModelJson sampleLimits (fun _ => .nan) (Except.ok : Dict → Except Unit Dict) (some fencedReply)
          ≠ .error (.json fault) :=
  ⟨((parseModelJson_iff sampleLimits (fun _ => .nan)).left fenceBefore answer fenceAfter answerObject 2 0
      noBrackets_fenceBefore noBrackets_fenceAfter written_answer).mpr extractable_fencedReply,
    ((parseModelJson_iff sampleLimits (fun _ => .nan)).right Unit Dict .ok fencedReply).mpr withinLimits_fencedReply⟩

def tagBefore : PyStr := py "```json "

def tagAfter : PyStr := py "\n```"

/--
The line that the fence begins is dropped, and the object with it.
-/
theorem parseModelJson_sameLine
    : (NoBrackets tagBefore ∧ NoBrackets tagAfter
        ∧ Written (fun _ => .nan) .value answer (.dict answerObject) 2 0)
        ∧ ¬ ValidatesObject sampleLimits (fun _ => .nan) (tagBefore ++ (answer ++ tagAfter)) answer answerObject
        ∧ ∀ (ε M : Type) (validate : Dict → Except ε M),
          parseModelJson sampleLimits (fun _ => .nan) validate (some (tagBefore ++ (answer ++ tagAfter)))
            = .error (.structuredOutput .noObject (tagBefore ++ (answer ++ tagAfter))) := by
  have hstrip : stripFences (tagBefore ++ (answer ++ tagAfter)) = [] := by
    decide +kernel
  have hloads : loadsText sampleLimits (fun _ => .nan) [] = .error .jsonDecodeError := rfl
  refine ⟨⟨?_, ?_, written_answer⟩, ?_, ?_⟩
  . decide
  . decide
  . rintro ⟨htext, _⟩
    unfold objectText at htext
    rw [hstrip, hloads] at htext
    cases htext
  . intro ε M validate
    unfold parseModelJson modelObject
    dsimp only
    rw [hstrip, hloads]
    rfl

end Fenced

end StructuredOutput
