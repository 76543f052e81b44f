import Legalise.Python.Str

/-!
This module contains Python's `bytes` and its UTF-8 codec.
-/

abbrev Byte := Fin 256

instance Byte.neZero : NeZero 256 := ⟨by decide⟩

abbrev Bytes := List Byte

namespace Utf8

def byte (n : Nat) : Byte :=
  Fin.ofNat 256 n

def encodePoint (c : CodePoint) : Bytes :=
  let n := c.val
  if n < 0x80 then [byte n]
  else if n < 0x800 then [byte (0xc0 + n / 0x40), byte (0x80 + n % 0x40)]
  else if n < 0x10000 then
    [byte (0xe0 + n / 0x1000), byte (0x80 + n / 0x40 % 0x40), byte (0x80 + n % 0x40)]
  else
    [
      byte (0xf0 + n / 0x40000), byte (0x80 + n / 0x1000 % 0x40), byte (0x80 + n / 0x40 % 0x40),
      byte (0x80 + n % 0x40)
    ]

/--
`text.encode("utf-8")`, where `none` stands for a `UnicodeEncodeError`.
-/
def encode (s : PyStr) : Option Bytes :=
  if Utf8Encodable s then some (s.flatMap encodePoint) else none

/--
What a lead byte announces: the number of bytes after it, the bounds of the next one and the bits of
its own.
-/
structure Lead where
  count : Nat
  low : Nat
  high : Nat
  bits : Nat

def lead? (b : Nat) : Option Lead :=
  if b < 0x80 then some ⟨0, 0x80, 0xbf, b⟩
  else if 0xc2 ≤ b ∧ b ≤ 0xdf then some ⟨1, 0x80, 0xbf, b - 0xc0⟩
  else if b = 0xe0 then some ⟨2, 0xa0, 0xbf, 0⟩
  else if b = 0xed then some ⟨2, 0x80, 0x9f, 0xd⟩
  else if 0xe1 ≤ b ∧ b ≤ 0xef then some ⟨2, 0x80, 0xbf, b - 0xe0⟩
  else if b = 0xf0 then some ⟨3, 0x90, 0xbf, 0⟩
  else if 0xf1 ≤ b ∧ b ≤ 0xf3 then some ⟨3, 0x80, 0xbf, b - 0xf0⟩
  else if b = 0xf4 then some ⟨3, 0x80, 0x8f, 4⟩
  else none

/--
The bytes after a lead byte. If one of them does not fit, it is left for what comes next.
-/
def scanTail : Nat → Nat → Nat → Nat → Bytes → Option Nat × Bytes
  | 0, _, _, bits, s => (some bits, s)
  | _ + 1, _, _, _, [] => (none, [])
  | count + 1, low, high, bits, b :: s =>
    if low ≤ b.val ∧ b.val ≤ high then scanTail count 0x80 0xbf (bits * 0x40 + (b.val - 0x80)) s
    else (none, b :: s)

/--
The code points of a text, with `none` for every malformed sequence. The fuel bounds their number.
-/
def scan : Nat → Bytes → List (Option CodePoint)
  | 0, _ => []
  | _ + 1, [] => []
  | fuel + 1, b :: s =>
    match lead? b.val with
    | none => none :: scan fuel s
    | some lead =>
      let (bits, rest) := scanTail lead.count lead.low lead.high lead.bits s
      bits.map (Fin.ofNat 0x110000) :: scan fuel rest

/--
`data.decode("utf-8")`, where `none` stands for a `UnicodeDecodeError`.
-/
def decode (s : Bytes) : Option PyStr :=
  (scan s.length s).mapM id

/--
`data.decode("utf-8", errors="replace")`
-/
def decodeReplace (s : Bytes) : PyStr :=
  (scan s.length s).map fun c => c.getD 0xfffd

theorem byte_val {n : Nat} (hn : n < 256) : (byte n).val = n := by
  simp [byte, Nat.mod_eq_of_lt hn]

/--
The lead byte of three fits the code points that are not surrogates and need three bytes.
-/
theorem lead?_three {n : Nat} (hlow : 0x800 ≤ n) (hhigh : n < 0x10000)
    (hn : ¬ (0xd800 ≤ n ∧ n ≤ 0xdfff))
    : ∃ lead, lead? (0xe0 + n / 0x1000) = some lead ∧ lead.count = 2 ∧ lead.bits = n / 0x1000
        ∧ lead.low ≤ 0x80 + n / 0x40 % 0x40 ∧ 0x80 + n / 0x40 % 0x40 ≤ lead.high := by
  unfold lead?
  rw [if_neg (by omega), if_neg (by omega)]
  split
  next heq => exact ⟨_, rfl, rfl, by simp only; omega, by simp only; omega, by simp only; omega⟩
  next hne =>
  split
  next heq => exact ⟨_, rfl, rfl, by simp only; omega, by simp only; omega, by simp only; omega⟩
  next hne' =>
  rw [if_pos (by omega)]
  exact ⟨_, rfl, rfl, by simp only; omega, by simp only; omega, by simp only; omega⟩

theorem lead?_four {n : Nat} (hlow : 0x10000 ≤ n) (hhigh : n < 0x110000)
    : ∃ lead, lead? (0xf0 + n / 0x40000) = some lead ∧ lead.count = 3 ∧ lead.bits = n / 0x40000
        ∧ lead.low ≤ 0x80 + n / 0x1000 % 0x40 ∧ 0x80 + n / 0x1000 % 0x40 ≤ lead.high := by
  unfold lead?
  rw [if_neg (by omega), if_neg (by omega), if_neg (by omega), if_neg (by omega), if_neg (by omega)]
  split
  next heq => exact ⟨_, rfl, rfl, by simp only; omega, by simp only; omega, by simp only; omega⟩
  next hne =>
  split
  next heq => exact ⟨_, rfl, rfl, by simp only; omega, by simp only; omega, by simp only; omega⟩
  next hne' =>
  rw [if_pos (by omega)]
  exact ⟨_, rfl, rfl, by simp only; omega, by simp only; omega, by simp only; omega⟩

theorem scan_encodePoint (c : CodePoint) (hc : ¬ (0xd800 ≤ c.val ∧ c.val ≤ 0xdfff)) (fuel : Nat)
    (rest : Bytes) : scan (fuel + 1) (encodePoint c ++ rest) = some c :: scan fuel rest := by
  have hlt := c.isLt
  have hself : Fin.ofNat 0x110000 c.val = c := by simp
  have hlast := byte_val (show 0x80 + c.val % 0x40 < 256 by omega)
  have hmiddle := byte_val (show 0x80 + c.val / 0x40 % 0x40 < 256 by omega)
  unfold encodePoint
  simp only
  split
  next h1 =>
    rw [List.cons_append, List.nil_append, scan, byte_val (by omega), lead?, if_pos h1]
    simp [scanTail]
  next h1 =>
  split
  next h2 =>
    have hlead : lead? (0xc0 + c.val / 0x40) = some ⟨1, 0x80, 0xbf, c.val / 0x40⟩ := by
      rw [lead?, if_neg (by omega), if_pos (by omega)]
      simp
    have hbits : c.val / 0x40 * 0x40 + (0x80 + c.val % 0x40 - 0x80) = c.val := by omega
    simp only [List.cons_append, List.nil_append, scan,
      byte_val (show 0xc0 + c.val / 0x40 < 256 by omega), hlast, hlead, scanTail]
    rw [if_pos (by omega), hbits, Option.map_some, hself]
  next h2 =>
  split
  next h3 =>
    have ⟨lead, hlead, hcount, hown, hlow, hhigh⟩ := lead?_three (by omega) h3 hc
    have hbits : (c.val / 0x1000 * 0x40 + (0x80 + c.val / 0x40 % 0x40 - 0x80)) * 0x40
        + (0x80 + c.val % 0x40 - 0x80) = c.val := by omega
    simp only [List.cons_append, List.nil_append, scan,
      byte_val (show 0xe0 + c.val / 0x1000 < 256 by omega), hlead, hcount, hown, scanTail, hmiddle,
      hlast]
    rw [if_pos ⟨hlow, hhigh⟩, if_pos (by omega), hbits, Option.map_some, hself]
  next h3 =>
    have ⟨lead, hlead, hcount, hown, hlow, hhigh⟩ := lead?_four (by omega) hlt
    have hbits : ((c.val / 0x40000 * 0x40 + (0x80 + c.val / 0x1000 % 0x40 - 0x80)) * 0x40
        + (0x80 + c.val / 0x40 % 0x40 - 0x80)) * 0x40 + (0x80 + c.val % 0x40 - 0x80) = c.val := by
      omega
    simp only [List.cons_append, List.nil_append, scan,
      byte_val (show 0xf0 + c.val / 0x40000 < 256 by omega), hlead, hcount, hown, scanTail,
      byte_val (show 0x80 + c.val / 0x1000 % 0x40 < 256 by omega), hmiddle, hlast]
    rw [if_pos ⟨hlow, hhigh⟩, if_pos (by omega), if_pos (by omega), hbits, Option.map_some, hself]

theorem length_le_length_flatMap_encodePoint (s : PyStr)
    : s.length ≤ (s.flatMap encodePoint).length := by
  induction s with
  | nil => simp
  | cons c s ih =>
    have : 0 < (encodePoint c).length := by
      unfold encodePoint
      simp only
      split_ifs <;> simp
    rw [List.flatMap_cons, List.length_append, List.length_cons]
    omega

theorem scan_encode {s : PyStr} (h : Utf8Encodable s) {fuel : Nat} (hfuel : s.length ≤ fuel)
    : scan fuel (s.flatMap encodePoint) = s.map some := by
  induction s generalizing fuel with
  | nil => cases fuel <;> rfl
  | cons c s ih =>
    cases fuel with
    | zero => simp at hfuel
    | succ fuel =>
      rw [List.flatMap_cons, scan_encodePoint c (h c (by simp)),
        ih (fun c hc => h c (by simp [hc])) (by simpa using hfuel), List.map_cons]

theorem encode_eq_some_iff {s : PyStr} {data : Bytes}
    : encode s = some data ↔ Utf8Encodable s ∧ data = s.flatMap encodePoint := by
  unfold encode
  split <;> simp_all [eq_comm]

theorem mapM_id_map_some {α : Type} (xs : List α) : (xs.map some).mapM id = some xs := by
  induction xs with
  | nil => rfl
  | cons x xs ih => simp [List.mapM_cons, ih]

theorem decode_encode {s : PyStr} {data : Bytes} (h : encode s = some data) : decode data = some s := by
  have ⟨hs, hdata⟩ := encode_eq_some_iff.mp h
  unfold decode
  rw [hdata, scan_encode hs (length_le_length_flatMap_encodePoint s), mapM_id_map_some]

end Utf8
