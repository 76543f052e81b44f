import Legalise.Python.JsonAscii

/-!
This module contains `json.loads` with all that it raises: besides the `JSONDecodeError` of a text that is no JSON, the
errors of an integer with too many digits and of containers that are nested too deeply.
-/

namespace JsonText

inductive Fault where
  | jsonDecodeError
  /-- Too many digits for `int`, or bytes that are no text. -/
  | valueError
  | recursionError
  deriving DecidableEq

/--
The limits of the interpreter: how many containers the scanner enters inside each other, and how many digits `int` reads.
-/
structure Limits where
  depth : Nat
  digits : Nat

section Scan

variable (limits : Limits) (parseFloat : PyStr → PyFloat)

def decodeNumber (s : PyStr) : Except Fault (Json × PyStr) :=
  match scanInt s with
  | none => .error .jsonDecodeError
  | some (int, rest) =>
    if (scanFrac rest).fst = [] ∧ (scanExp (scanFrac rest).snd).fst = [] then
      if limits.digits < (scanSign int).snd.length then .error .valueError
      else .ok (.int (parseInt int), (scanExp (scanFrac rest).snd).snd)
    else
      .ok (.float (parseFloat (int ++ (scanFrac rest).fst ++ (scanExp (scanFrac rest).snd).fst)),
        (scanExp (scanFrac rest).snd).snd)

def decodeString (s : PyStr) : Except Fault (PyStr × PyStr) :=
  match scanString (s.length + 1) s with
  | none => .error .jsonDecodeError
  | some (text, rest) => .ok (text, rest)

mutual

/--
A value at the front of a text, with the containers that may still be entered. The fuel bounds the calls.
-/
def decodeOnce : Nat → Nat → PyStr → Except Fault (Json × PyStr)
  | 0, _, _ => .error .jsonDecodeError
  | _ + 1, _, [] => .error .jsonDecodeError
  | fuel + 1, depth, c :: s =>
    if c = quoteMark then do
      let (text, rest) ← decodeString s
      return (.str text, rest)
    else if c = openBrace then
      match depth with
      | 0 => .error .recursionError
      | depth + 1 =>
        match skipWs s with
        | [] => .error .jsonDecodeError
        | d :: rest =>
          if d = closeBrace then .ok (.dict [], rest)
          else do
            let (pairs, rest) ← decodePairs fuel depth (d :: rest)
            return (.dict (dictOf pairs), rest)
    else if c = openBracket then
      match depth with
      | 0 => .error .recursionError
      | depth + 1 =>
        match skipWs s with
        | [] => .error .jsonDecodeError
        | d :: rest =>
          if d = closeBracket then .ok (.list [], rest)
          else do
            let (items, rest) ← decodeItems fuel depth (d :: rest)
            return (.list items, rest)
    else
      match constants.find? fun constant => constant.fst.isPrefixOf (c :: s) with
      | some constant => .ok (constant.snd, (c :: s).drop constant.fst.length)
      | none => decodeNumber limits parseFloat (c :: s)

def decodeItems : Nat → Nat → PyStr → Except Fault (List Json × PyStr)
  | 0, _, _ => .error .jsonDecodeError
  | fuel + 1, depth, s => do
    let (v, rest) ← decodeOnce fuel depth s
    match skipWs rest with
    | [] => .error .jsonDecodeError
    | c :: rest =>
      if c = closeBracket then return ([v], rest)
      else if c = comma then do
        let (vs, rest) ← decodeItems fuel depth (skipWs rest)
        return (v :: vs, rest)
      else .error .jsonDecodeError

def decodePairs : Nat → Nat → PyStr → Except Fault (List (PyStr × Json) × PyStr)
  | 0, _, _ => .error .jsonDecodeError
  | _ + 1, _, [] => .error .jsonDecodeError
  | fuel + 1, depth, c :: s =>
    if c = quoteMark then do
      let (key, rest) ← decodeString s
      match skipWs rest with
      | [] => .error .jsonDecodeError
      | d :: rest =>
        if d = colon then do
          let (v, rest) ← decodeOnce fuel depth (skipWs rest)
          match skipWs rest with
          | [] => .error .jsonDecodeError
          | e :: rest =>
            if e = closeBrace then return ([(key, v)], rest)
            else if e = comma then do
              let (items, rest) ← decodePairs fuel depth (skipWs rest)
              return ((key, v) :: items, rest)
            else .error .jsonDecodeError
        else .error .jsonDecodeError
    else .error .jsonDecodeError

end

/--
`JSONDecoder().raw_decode(text)`. A call uses up a character, except for the first value of a container.
-/
def rawDecode (s : PyStr) : Except Fault (Json × PyStr) :=
  decodeOnce limits parseFloat (2 * s.length + 2) limits.depth s

/--
`json.loads(text)`
-/
def loadsText (s : PyStr) : Except Fault Json := do
  let (v, rest) ← rawDecode limits parseFloat (skipWs s)
  if skipWs rest = [] then return v else .error .jsonDecodeError

end Scan

section Bytes

/--
UTF-8 that may encode surrogates. The fuel bounds the number of code points.
-/
def decodeUtf8 : Nat → Bytes → Option PyStr
  | _, [] => some []
  | 0, _ :: _ => none
  | fuel + 1, b :: s => do
    let lead ← if b.val = 0xed then some ⟨2, 0x80, 0xbf, 0xd⟩ else Utf8.lead? b.val
    match Utf8.scanTail lead.count lead.low lead.high lead.bits s with
    | (none, _) => none
    | (some bits, rest) => return Fin.ofNat _ bits :: (← decodeUtf8 fuel rest)

/--
Numbers of `width` bytes each, the first byte being the highest one.
-/
def bigEndian (width : Nat) : Nat → Bytes → Option (List Nat)
  | _, [] => some []
  | 0, _ :: _ => none
  | fuel + 1, s =>
    if s.length < width then none
    else (bigEndian width fuel (s.drop width)).map (ofFixedDigits 256 ((s.take width).map Fin.val) :: ·)

/--
The numbers with the lowest byte first are those of the reversed bytes.
-/
def littleEndian (width : Nat) (s : Bytes) : Option (List Nat) :=
  (bigEndian width s.length s.reverse).map List.reverse

def ofUtf32 (units : List Nat) : Option PyStr :=
  units.mapM fun n => if n < 0x110000 then some (Fin.ofNat _ n) else none

/--
Surrogates that are no pair stand for themselves.
-/
def ofUtf16 : List Nat → PyStr
  | high :: low :: units =>
    if (0xd800 ≤ high ∧ high ≤ 0xdbff) ∧ 0xdc00 ≤ low ∧ low ≤ 0xdfff then
      Fin.ofNat _ (0x10000 + (high - 0xd800) * 0x400 + (low - 0xdc00)) :: ofUtf16 units
    else Fin.ofNat _ high :: ofUtf16 (low :: units)
  | [unit] => [Fin.ofNat _ unit]
  | [] => []

def utf32Be (s : Bytes) : Option PyStr :=
  (bigEndian 4 s.length s).bind ofUtf32

def utf32Le (s : Bytes) : Option PyStr :=
  (littleEndian 4 s).bind ofUtf32

def utf16Be (s : Bytes) : Option PyStr :=
  (bigEndian 2 s.length s).map ofUtf16

def utf16Le (s : Bytes) : Option PyStr :=
  (littleEndian 2 s).map ofUtf16

/--
`data.decode(detect_encoding(data), "surrogatepass")`, where `none` stands for a `UnicodeDecodeError`.
-/
def decodeBytes (s : Bytes) : Option PyStr :=
  if [0x00, 0x00, 0xfe, 0xff].isPrefixOf s then utf32Be (s.drop 4)
  else if [0xff, 0xfe, 0x00, 0x00].isPrefixOf s then utf32Le (s.drop 4)
  else if [0xfe, 0xff].isPrefixOf s then utf16Be (s.drop 2)
  else if [0xff, 0xfe].isPrefixOf s then utf16Le (s.drop 2)
  else if [0xef, 0xbb, 0xbf].isPrefixOf s then decodeUtf8 s.length (s.drop 3)
  else
    match s with
    | a :: b :: c :: d :: _ =>
      if a = 0 then if b = 0 then utf32Be s else utf16Be s
      else if b = 0 then if c = 0 ∧ d = 0 then utf32Le s else utf16Le s
      else decodeUtf8 s.length s
    | [a, b] => if a = 0 then utf16Be s else if b = 0 then utf16Le s else decodeUtf8 s.length s
    | _ => decodeUtf8 s.length s

/--
`json.loads(data)`
-/
def loadsData (limits : Limits) (parseFloat : PyStr → PyFloat) (s : Bytes) : Except Fault Json :=
  match decodeBytes s with
  | none => .error .valueError
  | some text => loadsText limits parseFloat text

end Bytes

end JsonText
