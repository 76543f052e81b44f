import Legalise.Python.Search

/-!
This module contains the splitting of a document's text into overlapping chunks.
-/

namespace Retrieval

open PyStr Breaks

section Code

/--
A contiguous slice of the source text.
-/
structure Chunk where
  index : Nat
  text : PyStr
  charStart : Nat
  charEnd : Nat
  deriving DecidableEq

def isTerminator (c : CodePoint) : Bool :=
  c ∈ py ".!?"

def isCloser (c : CodePoint) : Bool :=
  c ∈ py "\"')]"

/--
`_SENTENCE_END`: a terminator and perhaps a closing quote or bracket, with white space behind them.
-/
def sentenceEnd : PyStr → Option Nat
  | c :: d :: e :: _ =>
    if isTerminator c then
      if isCloser d && isSpace e then some 2
      else if isSpace d then some 1
      else none
    else none
  | [c, d] => if isTerminator c && isSpace d then some 1 else none
  | _ => none

/--
`_best_break`
-/
def bestBreak (text : PyStr) (minBreak hardEnd : Nat) : Nat :=
  if hardEnd ≤ minBreak then hardEnd
  else
    match rfind (py "\n\n") text minBreak hardEnd with
    | some i => i + 2
    | none =>
      match rfind (py "\n") text minBreak hardEnd with
      | some i => i + 1
      | none =>
        match (matchEnds sentenceEnd 0 0 (slice text minBreak hardEnd)).getLast? with
        | some stop => minBreak + stop + 1
        | none => hardEnd

/--
The end of the chunk at a position. A boundary is looked for in the back half of the window.
-/
def chunkEnd (text : PyStr) (target pos : Nat) : Nat :=
  let hardEnd := min (pos + target) text.length
  if text.length ≤ hardEnd then text.length
  else bestBreak text (pos + target / 2) hardEnd

/--
The start of the next chunk: a step back by the overlap, but always forward progress.
-/
def nextPos (overlap pos stop : Nat) : Nat :=
  if stop - overlap ≤ pos then pos + 1 else stop - overlap

theorem lt_nextPos (overlap pos stop : Nat) : pos < nextPos overlap pos stop := by
  unfold nextPos
  split <;> omega

/--
The loop `while pos < n`.
-/
def chunkLoop (text : PyStr) (target overlap index pos : Nat) : List Chunk :=
  if pos < text.length then
    let stop := chunkEnd text target pos
    let chunk : Chunk := { index := index, text := slice text pos stop, charStart := pos, charEnd := stop }
    if text.length ≤ stop then [chunk]
    else chunk :: chunkLoop text target overlap (index + 1) (nextPos overlap pos stop)
  else []
termination_by text.length - pos
decreasing_by
  have := lt_nextPos overlap pos (chunkEnd text target pos)
  omega

inductive ChunkError where
  /-- "target_chars must be positive" -/
  | valueError
  deriving DecidableEq

/--
The overlap, clamped so that there is progress.
-/
def clampOverlap (targetChars overlapChars : Int) : Nat :=
  (max 0 (min overlapChars (targetChars - 1))).toNat

/--
`chunk_text`
-/
def chunkText (text : PyStr) (targetChars overlapChars : Int) : Except ChunkError (List Chunk) :=
  if targetChars ≤ 0 then .error .valueError
  else if strip text = [] then .ok []
  else if (text.length : Int) ≤ targetChars then .ok [⟨0, text, 0, text.length⟩]
  else .ok (chunkLoop text targetChars.toNat (clampOverlap targetChars overlapChars) 0 0)

end Code

section Boundaries

variable {text : PyStr}

theorem sentenceEnd_bounds {s : PyStr} {m : Nat} (h : sentenceEnd s = some m) : 1 ≤ m ∧ m ≤ 2 := by
  unfold sentenceEnd at h
  split at h
  . split at h
    . split at h
      . injection h with h
        omega
      . split at h
        . injection h with h
          omega
        . cases h
    . cases h
  . split at h
    . injection h with h
      omega
    . cases h
  . cases h

theorem isTerminator_of_isCloser {c : CodePoint} (h : isCloser c = true) : isTerminator c = false := by
  have hclosers : (py "\"')]").all (fun c => !isTerminator c) = true := by decide
  rw [List.all_eq_true] at hclosers
  simpa using hclosers c (by simpa [isCloser] using h)

theorem isSpace_of_isCloser {c : CodePoint} (h : isCloser c = true) : isSpace c = false := by
  have hclosers : (py "\"')]").all (fun c => !isSpace c) = true := by decide
  rw [List.all_eq_true] at hclosers
  simpa using hclosers c (by simpa [isCloser] using h)

theorem sentenceEnd_cons_of_not {c : CodePoint} (h : isTerminator c = false) (s : PyStr)
    : sentenceEnd (c :: s) = none := by
  unfold sentenceEnd
  split <;> simp_all

/--
A match does not start inside of another one, since what closes a sentence does not end one.
-/
theorem sentenceEnd_nested (s : PyStr) (m : Nat) (h : sentenceEnd s = some m) (r : Nat) (hpos : 0 < r) (hr : r < m)
    : sentenceEnd (s.drop r) = none := by
  have hm := (sentenceEnd_bounds h).right
  have hone : r = 1 := by omega
  subst hone
  unfold sentenceEnd at h
  split at h
  . split at h
    . split at h
      . next c d e rest _ hclosed =>
        rw [Bool.and_eq_true] at hclosed
        exact sentenceEnd_cons_of_not (isTerminator_of_isCloser hclosed.left) _
      . split at h
        . injection h with h
          omega
        . cases h
    . cases h
  . split at h
    . injection h with h
      omega
    . cases h
  . cases h

/--
In the first part of a text are the matches that have white space behind them there.
-/
theorem sentenceEnd_take (s : PyStr) (k : Nat)
    : sentenceEnd (s.take k) = (sentenceEnd s).filter fun m => m + 1 ≤ k := by
  match s, k with
  | [], _ => simp [sentenceEnd]
  | c :: rest, 0 =>
    cases h : sentenceEnd (c :: rest) with
    | none => rfl
    | some m => simp [sentenceEnd, Option.filter_some]
  | [c], k + 1 => simp [sentenceEnd]
  | c :: d :: rest, 1 =>
    cases h : sentenceEnd (c :: d :: rest) with
    | none => rfl
    | some m =>
      have := (sentenceEnd_bounds h).left
      rw [Option.filter_some, if_neg (by simp; omega)]
      rfl
  | [c, d], k + 2 =>
    simp only [List.take_succ_cons, List.take_nil, sentenceEnd]
    split <;> simp [Option.filter_some]
  | c :: d :: e :: rest, 2 =>
    simp only [List.take_succ_cons, List.take_zero, sentenceEnd]
    cases isTerminator c with
    | false => rfl
    | true =>
      -- A closing quote is no white space, so it is not what stands behind the sentence.
      cases hclosed : isCloser d with
      | true => cases isSpace e <;> simp [isSpace_of_isCloser hclosed, Option.filter_some]
      | false => cases isSpace d <;> simp [Option.filter_some]
  | c :: d :: e :: rest, k + 3 =>
    simp only [List.take_succ_cons, sentenceEnd]
    split
    . split
      . simp [Option.filter_some]
      . split <;> simp [Option.filter_some]
    . simp

/--
A boundary at which a part stands that belongs to the chunk before it.
-/
def partBreak (part text : PyStr) : Kind := fun s =>
  if isAt part text s then some (s + part.length) else none

/--
A boundary behind a sentence and the white space after it.
-/
def sentenceBreak (text : PyStr) : Kind := fun s =>
  (sentenceEnd (text.drop s)).map fun m => s + m + 1

/--
The boundaries in order of preference.
-/
def kinds (text : PyStr) : List Kind :=
  [partBreak (py "\n\n") text, partBreak (py "\n") text, sentenceBreak text]

theorem partBreak_eq_some {part : PyStr} {s e : Nat} (h : partBreak part text s = some e) : e = s + part.length := by
  unfold partBreak at h
  split at h
  . injection h with h
    exact h.symm
  . cases h

theorem sentenceBreak_bounds {s e : Nat} (h : sentenceBreak text s = some e) : s + 2 ≤ e ∧ e ≤ s + 3 := by
  unfold sentenceBreak at h
  rw [Option.map_eq_some_iff] at h
  have ⟨m, hm, heq⟩ := h
  have := sentenceEnd_bounds hm
  omega

theorem ordered_kinds (text : PyStr) : Ordered (kinds text) := by
  have hparagraph {s e : Nat} (h : partBreak (py "\n\n") text s = some e) : e = s + 2 := partBreak_eq_some h
  have hline {s e : Nat} (h : partBreak (py "\n") text s = some e) : e = s + 1 := partBreak_eq_some h
  have hsentence {s e : Nat} (h : sentenceBreak text s = some e) := sentenceBreak_bounds h
  constructor
  . intro kind hkind s e he
    simp only [kinds, List.mem_cons, List.not_mem_nil, or_false] at hkind
    rcases hkind with rfl | rfl | rfl
    . have := hparagraph he
      omega
    . have := hline he
      omega
    . have := hsentence he
      omega
  . intro kind hkind s s' e e' hlt he he'
    simp only [kinds, List.mem_cons, List.not_mem_nil, or_false] at hkind
    rcases hkind with rfl | rfl | rfl
    . have := hparagraph he
      have := hparagraph he'
      omega
    . have := hline he
      have := hline he'
      omega
    . have := hsentence he
      have := hsentence he'
      omega
  . simp only [kinds, List.pairwise_cons, List.mem_cons, List.not_mem_nil, or_false, forall_eq_or_imp, forall_eq,
      false_implies, implies_true, List.Pairwise.nil, and_true]
    refine ⟨⟨?_, ?_⟩, ?_⟩
    . intro s s' e e' hlt he he'
      have := hparagraph he
      have := hline he'
      omega
    . intro s s' e e' hlt he he'
      have := hparagraph he
      have := hsentence he'
      omega
    . intro s s' e e' hlt he he'
      have := hline he
      have := hsentence he'
      omega

theorem lastIn_partBreak {part : PyStr} (hpart : part ≠ []) (lo hi : Nat)
    : lastIn (partBreak part text) lo hi = (rfind part text lo hi).map fun i => i + part.length := by
  have hlength := List.length_pos_iff.mpr hpart
  have hsearch : lastWhere (fun s => (partBreak part text s).any fun stop => stop ≤ hi) lo hi
      = rfind part text lo hi := by
    unfold rfind
    apply lastWhere_congr
    intro j _
    unfold partBreak
    cases isAt part text j with
    | false => simp
    | true =>
      simp only [if_true, Option.any_some, decide_eq_true_eq, and_true]
      omega
  unfold lastIn
  rw [hsearch]
  cases hfound : rfind part text lo hi with
  | none => rfl
  | some i =>
    have hat := (lastWhere_eq_some_iff.mp hfound).right.right.left
    simp [partBreak, hat]

theorem lastIn_sentenceBreak {lo hi : Nat} (hhi : hi ≤ text.length)
    : lastIn (sentenceBreak text) lo hi
        = (matchEnds sentenceEnd 0 0 (slice text lo hi)).getLast?.map fun stop => lo + stop + 1 := by
  have hlength : (slice text lo hi).length = hi - lo := by
    unfold slice
    rw [List.length_drop, List.length_take, min_eq_left hhi]
  have hwindow (r : Nat) : sentenceEnd ((slice text lo hi).drop r)
      = (sentenceEnd (text.drop (lo + r))).filter fun m => lo + r + m + 1 ≤ hi := by
    unfold slice
    rw [List.drop_drop, List.drop_take, sentenceEnd_take]
    congr 1
    funext m
    rw [decide_eq_decide]
    omega
  have hsearch : lastWhere (fun s => (sentenceBreak text s).any fun stop => stop ≤ hi) lo hi
      = (lastWhere (fun r => (sentenceEnd ((slice text lo hi).drop r)).isSome) 0 (hi - lo)).map fun r => lo + r := by
    rw [← lastWhere_shift]
    congr 2
    funext r
    rw [hwindow]
    unfold sentenceBreak
    cases sentenceEnd (text.drop (lo + r)) with
    | none => rfl
    | some m =>
      rw [Option.map_some, Option.any_some, Option.filter_some]
      split <;> simp_all
  rw [getLast?_matchEnds sentenceEnd_nested, hlength]
  unfold lastIn
  rw [hsearch]
  cases hlast : lastWhere (fun r => (sentenceEnd ((slice text lo hi).drop r)).isSome) 0 (hi - lo) with
  | none => rfl
  | some r =>
    have hin := (lastWhere_eq_some_iff.mp hlast).right.right.left
    simp only [Option.map_some, Option.bind_some]
    rw [hwindow] at hin ⊢
    unfold sentenceBreak
    cases hmatch : sentenceEnd (text.drop (lo + r)) with
    | none => simp [hmatch] at hin
    | some m =>
      rw [hmatch, Option.filter_some] at hin
      rw [Option.filter_some]
      split at hin
      . next hle =>
        rw [if_pos hle]
        simp only [Option.map_some, Option.some.injEq]
        omega
      . simp at hin

theorem bestBreak_eq {minBreak hardEnd : Nat} (hlt : minBreak < hardEnd) (hle : hardEnd ≤ text.length)
    : bestBreak text minBreak hardEnd = best (kinds text) minBreak hardEnd := by
  unfold bestBreak kinds
  rw [if_neg (not_le.mpr hlt)]
  simp only [best]
  rw [lastIn_partBreak (by decide), lastIn_partBreak (by decide), lastIn_sentenceBreak hle]
  cases rfind (py "\n\n") text minBreak hardEnd with
  | some i => rfl
  | none =>
    cases rfind (py "\n") text minBreak hardEnd with
    | some i => rfl
    | none => cases (matchEnds sentenceEnd 0 0 (slice text minBreak hardEnd)).getLast? <;> rfl

end Boundaries

end Retrieval
