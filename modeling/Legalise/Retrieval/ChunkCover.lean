import Legalise.Retrieval.Chunking

/-!
This module contains that the chunks of a text cover it without a gap.
-/

namespace Retrieval

open PyStr Breaks

section Cover

/--
The texts of the chunks one after the other, without what overlaps the chunk before.
-/
def stitch : Nat → List Chunk → PyStr
  | _, [] => []
  | upto, c :: cs => c.text.drop (upto - c.charStart) ++ stitch c.charEnd cs

/--
A chunk and the one after it: both ends go forward, there is no gap, and the overlap is bounded.
-/
structure Follows (overlap : Int) (a b : Chunk) : Prop where
  starts : a.charStart < b.charStart
  ends : a.charEnd ≤ b.charEnd
  gapless : b.charStart ≤ a.charEnd
  overlap : (a.charEnd : Int) - b.charStart ≤ overlap

/--
The chunks are numbered slices of the text that cover it from its start to its end.
-/
structure Covers (text : PyStr) (targetChars overlapChars : Int) (chunks : List Chunk) : Prop where
  numbered : chunks.map Chunk.index = List.range chunks.length
  slices : ∀ c ∈ chunks, c.text = slice text c.charStart c.charEnd
  nonempty : ∀ c ∈ chunks, c.text ≠ []
  first : chunks.head?.map Chunk.charStart = some 0
  last : chunks.getLast?.map Chunk.charEnd = some text.length
  starts : chunks.Pairwise fun a b => a.charStart < b.charStart
  ends : chunks.Pairwise fun a b => a.charEnd ≤ b.charEnd
  follows : chunks.IsChain (Follows (max 0 (min overlapChars (targetChars - 1))))
  short : ∀ c ∈ chunks, (c.text.length : Int) ≤ targetChars
  stitched : stitch 0 chunks = text

end Cover

variable {text : PyStr} {target overlap index pos : Nat}

section Step

theorem chunkEnd_bounds (htarget : 0 < target) (hpos : pos < text.length)
    : pos < chunkEnd text target pos ∧ chunkEnd text target pos ≤ pos + target
        ∧ chunkEnd text target pos ≤ text.length := by
  unfold chunkEnd
  dsimp only
  split
  . omega
  . have hlt : pos + target / 2 < min (pos + target) text.length := by omega
    rw [bestBreak_eq hlt (min_le_right _ _)]
    have hafter := lt_best (ordered_kinds text) hlt
    have hle := best_le (kinds text) (pos + target / 2) (min (pos + target) text.length)
    omega

/--
A chunk that starts later does not end earlier.
-/
theorem chunkEnd_mono {pos' : Nat} (htarget : 0 < target) (hle : pos ≤ pos') (hpos' : pos' < text.length)
    : chunkEnd text target pos ≤ chunkEnd text target pos' := by
  by_cases hlast : text.length ≤ min (pos' + target) text.length
  . have hend : chunkEnd text target pos' = text.length := by
      unfold chunkEnd
      dsimp only
      rw [if_pos hlast]
    rw [hend]
    exact (chunkEnd_bounds htarget (by omega)).right.right
  . have hearlier : ¬ text.length ≤ min (pos + target) text.length := by omega
    unfold chunkEnd
    dsimp only
    rw [if_neg hlast, if_neg hearlier, bestBreak_eq (by omega) (min_le_right _ _),
      bestBreak_eq (by omega) (min_le_right _ _)]
    exact best_mono (ordered_kinds text) (by omega) (by omega)

theorem nextPos_bounds {stop : Nat} (hlt : pos < stop)
    : nextPos overlap pos stop ≤ stop ∧ stop ≤ nextPos overlap pos stop + overlap := by
  unfold nextPos
  split <;> omega

/--
The chunk at a position.
-/
def chunkAt (text : PyStr) (target index pos : Nat) : Chunk where
  index := index
  text := slice text pos (chunkEnd text target pos)
  charStart := pos
  charEnd := chunkEnd text target pos

theorem chunkLoop_eq (hpos : pos < text.length)
    : chunkLoop text target overlap index pos
        = if text.length ≤ chunkEnd text target pos then [chunkAt text target index pos]
          else chunkAt text target index pos
            :: chunkLoop text target overlap (index + 1) (nextPos overlap pos (chunkEnd text target pos)) := by
  rw [chunkLoop, if_pos hpos]
  rfl

end Step

section Loop

/--
What the loop appends from a position on.
-/
structure LoopRun (text : PyStr) (target overlap index pos : Nat) (cs : List Chunk) : Prop where
  head : cs.head? = some (chunkAt text target index pos)
  chunks : ∀ c ∈ cs, ∃ i p, p < text.length ∧ c = chunkAt text target i p
  numbered : cs.map Chunk.index = List.range' index cs.length
  follows : cs.IsChain (Follows overlap)
  last : cs.getLast?.map Chunk.charEnd = some text.length
  stitched : ∀ upto, pos ≤ upto → upto ≤ chunkEnd text target pos → stitch upto cs = text.drop upto

theorem drop_chunkAt {upto : Nat} (hpos : pos ≤ upto) (hupto : upto ≤ chunkEnd text target pos)
    : (chunkAt text target index pos).text.drop (upto - pos) ++ text.drop (chunkEnd text target pos)
        = text.drop upto := by
  have hsplit := List.take_append_drop (chunkEnd text target pos - upto) (text.drop upto)
  rw [List.drop_drop, Nat.add_sub_cancel' hupto, List.take_drop, Nat.add_sub_cancel' hupto] at hsplit
  have hdrop : (chunkAt text target index pos).text.drop (upto - pos)
      = (text.take (chunkEnd text target pos)).drop upto := by
    unfold chunkAt slice
    rw [List.drop_drop, Nat.add_sub_cancel' hpos]
  rw [hdrop, hsplit]

theorem loopRun_last (htarget : 0 < target) (hpos : pos < text.length) (hend : text.length ≤ chunkEnd text target pos)
    : LoopRun text target overlap index pos [chunkAt text target index pos] where
  head := rfl
  chunks c hc := ⟨index, pos, hpos, List.mem_singleton.mp hc⟩
  numbered := rfl
  follows := .singleton _
  last := by
    have := (chunkEnd_bounds htarget hpos).right.right
    have hlast : chunkEnd text target pos = text.length := by omega
    simp [chunkAt, hlast]
  stitched upto hle hupto := by
    have hdrop := @drop_chunkAt text target index pos upto hle hupto
    rw [List.drop_of_length_le hend] at hdrop
    exact hdrop

theorem LoopRun.next {cs : List Chunk} (htarget : 0 < target) (hpos : pos < text.length)
    (hend : chunkEnd text target pos < text.length)
    (h : LoopRun text target overlap (index + 1) (nextPos overlap pos (chunkEnd text target pos)) cs)
    : LoopRun text target overlap index pos (chunkAt text target index pos :: cs) := by
  have ⟨hlt, _, _⟩ := chunkEnd_bounds htarget hpos
  have hforward := lt_nextPos overlap pos (chunkEnd text target pos)
  have ⟨hgapless, hoverlap⟩ := @nextPos_bounds overlap pos (chunkEnd text target pos) hlt
  have hends := @chunkEnd_mono text target pos (nextPos overlap pos (chunkEnd text target pos)) htarget
    (le_of_lt hforward) (by omega)
  constructor
  . rfl
  . intro c hc
    rcases List.mem_cons.mp hc with rfl | hc
    . exact ⟨index, pos, hpos, rfl⟩
    . exact h.chunks c hc
  . rw [List.map_cons, h.numbered, List.length_cons, List.range'_succ]
    rfl
  . rw [List.isChain_cons]
    refine ⟨?_, h.follows⟩
    intro b hb
    rw [h.head, Option.mem_some_iff] at hb
    rw [← hb]
    exact ⟨hforward, hends, hgapless, by simp only [chunkAt]; omega⟩
  . cases cs with
    | nil => cases h.head
    | cons c cs =>
      rw [List.getLast?_cons_cons]
      exact h.last
  . intro upto hle hupto
    have hrest := h.stitched (chunkEnd text target pos) hgapless hends
    show (chunkAt text target index pos).text.drop (upto - pos) ++ stitch (chunkEnd text target pos) cs = text.drop upto
    rw [hrest]
    exact drop_chunkAt hle hupto

theorem loopRun (htarget : 0 < target) (overlap : Nat) {index pos : Nat} (hpos : pos < text.length)
    : LoopRun text target overlap index pos (chunkLoop text target overlap index pos) := by
  rw [chunkLoop_eq hpos]
  split
  . next hend => exact loopRun_last htarget hpos hend
  . next hend =>
    have ⟨hlt, _, _⟩ := chunkEnd_bounds htarget hpos
    have hforward := lt_nextPos overlap pos (chunkEnd text target pos)
    have hgapless := (@nextPos_bounds overlap pos (chunkEnd text target pos) hlt).left
    have hinside : nextPos overlap pos (chunkEnd text target pos) < text.length := by omega
    exact (loopRun htarget overlap hinside).next htarget hpos (by omega)
termination_by text.length - pos

end Loop

section Chunks

theorem coerce_clampOverlap (targetChars overlapChars : Int)
    : (clampOverlap targetChars overlapChars : Int) = max 0 (min overlapChars (targetChars - 1)) :=
  Int.toNat_of_nonneg (le_max_left _ _)

/--
What the loop makes of a whole text covers it.
-/
theorem LoopRun.covers {targetChars overlapChars : Int} {cs : List Chunk} (htarget : 0 < targetChars)
    (h : LoopRun text targetChars.toNat (clampOverlap targetChars overlapChars) 0 0 cs)
    : Covers text targetChars overlapChars cs := by
  have hbounds {p : Nat} (hp : p < text.length) := @chunkEnd_bounds text targetChars.toNat p (by omega) hp
  have hlength {i p : Nat} (hp : p < text.length)
      : (chunkAt text targetChars.toNat i p).text.length = chunkEnd text targetChars.toNat p - p := by
    have := hbounds hp
    simp only [chunkAt, slice, List.length_drop, List.length_take]
    omega
  have hstarts : IsTrans Chunk fun a b => a.charStart < b.charStart := ⟨fun _ _ _ => Nat.lt_trans⟩
  have hends : IsTrans Chunk fun a b => a.charEnd ≤ b.charEnd := ⟨fun _ _ _ => Nat.le_trans⟩
  constructor
  . rw [h.numbered, List.range_eq_range']
  . intro c hc
    have ⟨i, p, _, heq⟩ := h.chunks c hc
    rw [heq]
    rfl
  . intro c hc hnil
    have ⟨i, p, hp, heq⟩ := h.chunks c hc
    have hzero := congrArg List.length hnil
    rw [heq, hlength hp, List.length_nil] at hzero
    have := hbounds hp
    omega
  . rw [h.head]
    rfl
  . exact h.last
  . exact List.isChain_iff_pairwise.mp (h.follows.imp fun _ _ hfollows => hfollows.starts)
  . exact List.isChain_iff_pairwise.mp (h.follows.imp fun _ _ hfollows => hfollows.ends)
  . rw [← coerce_clampOverlap]
    exact h.follows
  . intro c hc
    have ⟨i, p, hp, heq⟩ := h.chunks c hc
    have := hbounds hp
    rw [heq, hlength hp]
    omega
  . exact h.stitched 0 (le_refl _) (Nat.zero_le _)

theorem length_pos_of_strip (h : strip text ≠ []) : 0 < text.length := by
  rw [List.length_pos_iff]
  rintro rfl
  exact h rfl

/--
The chunks of a text that is not blank cover it, for any positive target and any overlap. The loop always ends.
-/
theorem covers_chunkText (text : PyStr) (targetChars overlapChars : Int) (htarget : 0 < targetChars)
    : ∃ chunks, chunkText text targetChars overlapChars = .ok chunks
        ∧ (strip text ≠ [] → Covers text targetChars overlapChars chunks) := by
  unfold chunkText
  rw [if_neg (not_le.mpr htarget)]
  split
  . next hblank => exact ⟨[], rfl, fun hne => absurd hblank hne⟩
  . next hblank =>
    have hpos := length_pos_of_strip hblank
    refine if hshort : (text.length : Int) ≤ targetChars then ?_ else ?_
    . -- The single chunk is what the loop would make as well.
      rw [if_pos hshort]
      refine ⟨_, rfl, fun _ => LoopRun.covers htarget ?_⟩
      have hend : chunkEnd text targetChars.toNat 0 = text.length := by
        unfold chunkEnd
        dsimp only
        rw [if_pos (by omega)]
      have hchunk : chunkAt text targetChars.toNat 0 0 = ⟨0, text, 0, text.length⟩ := by
        simp [chunkAt, hend, slice]
      rw [← hchunk]
      exact loopRun_last (by omega) hpos (le_of_eq hend.symm)
    . rw [if_neg hshort]
      exact ⟨_, rfl, fun _ => (loopRun (by omega) _ hpos).covers htarget⟩

theorem covers_chunkText_words
    : ∃ chunks, chunkText (py "One. Two.") 5 2 = .ok chunks
        ∧ (strip (py "One. Two.") ≠ [] → Covers (py "One. Two.") 5 2 chunks) :=
  covers_chunkText (py "One. Two.") 5 2 (by decide)

end Chunks

end Retrieval
