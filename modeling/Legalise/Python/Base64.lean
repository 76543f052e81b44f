import Legalise.Python.Bytes

/-!
This module contains Python's `base64`: the standard and the URL-safe encoding, the decoder that
skips what it does not know and the strict one.
-/

namespace Base64

def letters : PyStr :=
  py "ABCDEFGHIJKLMNOPQRSTUVWXYZabcdefghijklmnopqrstuvwxyz0123456789"

def standard : PyStr := letters ++ py "+/"

def urlsafe : PyStr := letters ++ py "-_"

abbrev padding : CodePoint := 0x3d

/--
The character of six bits.
-/
def point (alphabet : PyStr) (n : Nat) : CodePoint :=
  alphabet.getD n padding

/--
`b64encode(data)` in an alphabet.
-/
def encode (alphabet : PyStr) : Bytes → PyStr
  | [] => []
  | [a] => [point alphabet (a.val / 4), point alphabet (a.val % 4 * 16), padding, padding]
  | [a, b] =>
    [
      point alphabet (a.val / 4), point alphabet (a.val % 4 * 16 + b.val / 16),
      point alphabet (b.val % 16 * 4), padding
    ]
  | a :: b :: c :: rest =>
    point alphabet (a.val / 4) :: point alphabet (a.val % 4 * 16 + b.val / 16)
      :: point alphabet (b.val % 16 * 4 + c.val / 64) :: point alphabet (c.val % 64)
      :: encode alphabet rest

/--
The six bits of a character. The URL-safe decoder knows the characters of both alphabets.
-/
def bits? (c : CodePoint) : Option Nat :=
  if c ∈ standard then some (standard.idxOf c)
  else if c ∈ urlsafe then some (urlsafe.idxOf c)
  else none

/--
`binascii.a2b_base64`: the place in the current group of four, the bits that are left over and the
number of padding characters in a row. Unknown characters are skipped, and `none` stands for wrong
padding.
-/
def scan : Nat → Nat → Nat → PyStr → Option Bytes
  | place, _, _, [] => if place = 0 then some [] else none
  | place, left, pads, c :: s =>
    if c = padding then
      if 2 ≤ place ∧ 4 ≤ place + (pads + 1) then some []
      else scan place left (if 2 ≤ place then pads + 1 else pads) s
    else
      match bits? c with
      | none => scan place left pads s
      | some bits =>
        match place with
        | 0 => scan 1 bits 0 s
        | 1 => (scan 2 (bits % 16) 0 s).map (Utf8.byte (left * 4 + bits / 16) :: ·)
        | 2 => (scan 3 (bits % 4) 0 s).map (Utf8.byte (left * 16 + bits / 4) :: ·)
        | _ => (scan 0 0 0 s).map (Utf8.byte (left * 64 + bits) :: ·)

/--
`binascii.a2b_base64` in strict mode, which says what is wrong with the text. The last argument but
one counts the characters in front of the rest that are no padding.
-/
def strictScan : Nat → Nat → Nat → Bool → Nat → PyStr → Except PyStr Bytes
  | place, _, _, _, count, [] =>
    if place = 0 then .ok []
    else if place = 1 then
      .error (py "Invalid base64-encoded string: number of data characters (" ++ pyNat count
        ++ py ") cannot be 1 more than a multiple of 4")
    else .error (py "Incorrect padding")
  | place, left, pads, padded, count, c :: s =>
    if c = padding then
      if 2 ≤ place ∧ 4 ≤ place + (pads + 1) then
        if s = [] then .ok [] else .error (py "Excess data after padding")
      else strictScan place left (if 2 ≤ place then pads + 1 else pads) true count s
    else if c ∉ standard then .error (py "Only base64 data is allowed")
    else if padded then .error (py "Discontinuous padding not allowed")
    else
      let bits := standard.idxOf c
      match place with
      | 0 => strictScan 1 bits 0 padded (count + 1) s
      | 1 =>
        (strictScan 2 (bits % 16) 0 padded (count + 1) s).map (Utf8.byte (left * 4 + bits / 16) :: ·)
      | 2 =>
        (strictScan 3 (bits % 4) 0 padded (count + 1) s).map (Utf8.byte (left * 16 + bits / 4) :: ·)
      | _ => (strictScan 0 0 0 padded (count + 1) s).map (Utf8.byte (left * 64 + bits) :: ·)

def strictDecode (s : PyStr) : Except PyStr Bytes :=
  if s.head? = some padding then .error (py "Leading padding not allowed")
  else strictScan 0 0 0 false 0 s

/--
`urlsafe_b64decode(text)`
-/
def urlsafeDecode (s : PyStr) : Option Bytes :=
  scan 0 0 0 s

theorem bits?_point_urlsafe {n : Nat} (hn : n < 64)
    : bits? (point urlsafe n) = some n ∧ point urlsafe n ≠ padding := by
  have : ∀ n < 64, bits? (point urlsafe n) = some n ∧ point urlsafe n ≠ padding := by
    decide +kernel
  exact this n hn

theorem scan_point {n : Nat} (hn : n < 64) (place left pads : Nat) (s : PyStr)
    : scan place left pads (point urlsafe n :: s)
        = match place with
          | 0 => scan 1 n 0 s
          | 1 => (scan 2 (n % 16) 0 s).map (Utf8.byte (left * 4 + n / 16) :: ·)
          | 2 => (scan 3 (n % 4) 0 s).map (Utf8.byte (left * 16 + n / 4) :: ·)
          | _ => (scan 0 0 0 s).map (Utf8.byte (left * 64 + n) :: ·) := by
  have ⟨hbits, hne⟩ := bits?_point_urlsafe hn
  rw [scan, if_neg hne, hbits]

theorem byte_eq {a : Byte} {n : Nat} (h : n = a.val) : Utf8.byte n = a := by
  subst h
  simp [Utf8.byte]

theorem scan_encode (data : Bytes) : scan 0 0 0 (encode urlsafe data) = some data := by
  induction data using encode.induct with
  | case1 => rfl
  | case2 a =>
    have ha := a.isLt
    have hfirst : a.val / 4 * 4 + a.val % 4 * 16 / 16 = a.val := by omega
    simp only [encode, scan_point (show a.val / 4 < 64 by omega),
      scan_point (show a.val % 4 * 16 < 64 by omega), byte_eq hfirst]
    simp [scan]
  | case3 a b =>
    have ha := a.isLt
    have hb := b.isLt
    have hfirst : a.val / 4 * 4 + (a.val % 4 * 16 + b.val / 16) / 16 = a.val := by omega
    have hsecond : (a.val % 4 * 16 + b.val / 16) % 16 * 16 + b.val % 16 * 4 / 4 = b.val := by omega
    simp only [encode, scan_point (show a.val / 4 < 64 by omega),
      scan_point (show a.val % 4 * 16 + b.val / 16 < 64 by omega),
      scan_point (show b.val % 16 * 4 < 64 by omega), byte_eq hfirst, byte_eq hsecond]
    simp [scan]
  | case4 a b c rest ih =>
    have ha := a.isLt
    have hb := b.isLt
    have hc := c.isLt
    have hfirst : a.val / 4 * 4 + (a.val % 4 * 16 + b.val / 16) / 16 = a.val := by omega
    have hsecond : (a.val % 4 * 16 + b.val / 16) % 16 * 16 + (b.val % 16 * 4 + c.val / 64) / 4
        = b.val := by omega
    have hthird : (b.val % 16 * 4 + c.val / 64) % 4 * 64 + c.val % 64 = c.val := by omega
    simp only [encode, scan_point (show a.val / 4 < 64 by omega),
      scan_point (show a.val % 4 * 16 + b.val / 16 < 64 by omega),
      scan_point (show b.val % 16 * 4 + c.val / 64 < 64 by omega),
      scan_point (show c.val % 64 < 64 by omega), byte_eq hfirst, byte_eq hsecond, byte_eq hthird, ih,
      Option.map_some]

theorem point_mem (alphabet : PyStr) (n : Nat)
    : point alphabet n = padding ∨ point alphabet n ∈ alphabet := by
  unfold point
  by_cases hn : n < alphabet.length
  . right
    rw [List.getD_eq_getElem _ _ hn]
    exact List.getElem_mem hn
  . left
    exact List.getD_eq_default _ _ (by omega)

/--
Nothing but the alphabet and the padding is written.
-/
theorem mem_of_mem_encode {alphabet : PyStr} {data : Bytes} {c : CodePoint}
    (hc : c ∈ encode alphabet data) : c = padding ∨ c ∈ alphabet := by
  induction data using encode.induct with
  | case1 => contradiction
  | case2 a =>
    simp only [encode, List.mem_cons, List.not_mem_nil, or_false] at hc
    rcases hc with rfl | rfl | rfl | rfl
    . exact point_mem _ _
    . exact point_mem _ _
    . exact .inl rfl
    . exact .inl rfl
  | case3 a b =>
    simp only [encode, List.mem_cons, List.not_mem_nil, or_false] at hc
    rcases hc with rfl | rfl | rfl | rfl
    . exact point_mem _ _
    . exact point_mem _ _
    . exact point_mem _ _
    . exact .inl rfl
  | case4 a b d rest ih =>
    simp only [encode, List.mem_cons] at hc
    rcases hc with rfl | rfl | rfl | rfl | hc
    . exact point_mem _ _
    . exact point_mem _ _
    . exact point_mem _ _
    . exact point_mem _ _
    . exact ih hc

theorem urlsafeDecode_encode (data : Bytes) : urlsafeDecode (encode urlsafe data) = some data :=
  scan_encode data

end Base64
