import Legalise.Python.Json

/-!
This module contains `json.dumps(obj, indent=2, ensure_ascii=False)` and `json.loads`.
-/

namespace JsonText

abbrev quoteMark : CodePoint := 0x22
abbrev backslash : CodePoint := 0x5c
abbrev openBrace : CodePoint := 0x7b
abbrev closeBrace : CodePoint := 0x7d
abbrev openBracket : CodePoint := 0x5b
abbrev closeBracket : CodePoint := 0x5d
abbrev comma : CodePoint := 0x2c
abbrev colon : CodePoint := 0x3a
abbrev minusSign : CodePoint := 0x2d
abbrev plusSign : CodePoint := 0x2b
abbrev point : CodePoint := 0x2e
abbrev smallE : CodePoint := 0x65
abbrev bigE : CodePoint := 0x45
abbrev smallU : CodePoint := 0x75

section Dumps

/--
The escapes of one letter after the backslash, with what they stand for.
-/
def shortEscapes : List (CodePoint × CodePoint) :=
  [
    (backslash, backslash),
    (quoteMark, quoteMark),
    (0x08, 0x62),
    (0x0c, 0x66),
    (0x0a, 0x6e),
    (0x0d, 0x72),
    (0x09, 0x74)
  ]

def escape (c : CodePoint) : PyStr :=
  match shortEscapes.lookup c with
  | some letter => [backslash, letter]
  | none =>
    if c.val < 0x20 then backslash :: smallU :: zfill 4 (digitsText 16 c.val) else [c]

def dumpsStr (s : PyStr) : PyStr :=
  quoteMark :: (s.flatMap escape ++ [quoteMark])

def dumpsFloat (R : PyRepr) : PyFloat → PyStr
  | .nan => py "NaN"
  | .inf false => py "Infinity"
  | .inf true => py "-Infinity"
  | x => R.float x

def newline (level : Nat) : PyStr :=
  0x0a :: List.replicate (2 * level) 0x20

variable (R : PyRepr)

mutual

/--
The text of a value at a level of indentation.
-/
def dumpsAt : Nat → Json → PyStr
  | _, .null => py "null"
  | _, .bool true => py "true"
  | _, .bool false => py "false"
  | _, .int n => pyInt n
  | _, .float x => dumpsFloat R x
  | _, .str s => dumpsStr s
  | _, .list [] => [openBracket, closeBracket]
  | level, .list (v :: vs) =>
    openBracket :: (newline (level + 1) ++ dumpsAt (level + 1) v ++ dumpsItems (level + 1) vs
      ++ newline level ++ [closeBracket])
  | _, .dict [] => [openBrace, closeBrace]
  | level, .dict ((key, v) :: items) =>
    openBrace :: (newline (level + 1) ++ dumpsStr key ++ py ": " ++ dumpsAt (level + 1) v
      ++ dumpsPairs (level + 1) items ++ newline level ++ [closeBrace])

/--
The items of a list after the first one.
-/
def dumpsItems : Nat → List Json → PyStr
  | _, [] => []
  | level, v :: vs => comma :: (newline level ++ dumpsAt level v ++ dumpsItems level vs)

/--
The items of a dictionary after the first one.
-/
def dumpsPairs : Nat → List (PyStr × Json) → PyStr
  | _, [] => []
  | level, (key, v) :: items =>
    comma :: (newline level ++ dumpsStr key ++ py ": " ++ dumpsAt level v ++ dumpsPairs level items)

end

/--
`json.dumps(obj, indent=2, ensure_ascii=False)`
-/
def dumps (v : Json) : PyStr :=
  dumpsAt R 0 v

end Dumps

section Loads

def isDigit (c : CodePoint) : Bool :=
  0x30 ≤ c.val && c.val ≤ 0x39

def isWs (c : CodePoint) : Bool :=
  c = 0x20 || c = 0x09 || c = 0x0a || c = 0x0d

def skipWs (s : PyStr) : PyStr :=
  s.dropWhile isWs

def hexVal? (c : CodePoint) : Option Nat :=
  if isDigit c then some (c.val - 0x30)
  else if 0x61 ≤ c.val && c.val ≤ 0x66 then some (c.val - 0x61 + 10)
  else if 0x41 ≤ c.val && c.val ≤ 0x46 then some (c.val - 0x41 + 10)
  else none

/--
The four hex digits of a `\u` escape.
-/
def scanHex4 : PyStr → Option (Nat × PyStr)
  | a :: b :: c :: d :: s => do
    let a ← hexVal? a
    let b ← hexVal? b
    let c ← hexVal? c
    let d ← hexVal? d
    return (ofFixedDigits 16 [a, b, c, d], s)
  | _ => none

/--
The code point of a `\u` escape. A high surrogate is combined with the low one of a second escape.
-/
def scanUnicode (s : PyStr) : Option (CodePoint × PyStr) := do
  let (high, rest) ← scanHex4 s
  if 0xd800 ≤ high && high ≤ 0xdbff && rest.take 2 == [backslash, smallU] then
    let (low, rest') ← scanHex4 (rest.drop 2)
    if 0xdc00 ≤ low && low ≤ 0xdfff then
      return (Fin.ofNat _ (0x10000 + (high - 0xd800) * 0x400 + (low - 0xdc00)), rest')
    else
      return (Fin.ofNat _ high, rest)
  else
    return (Fin.ofNat _ high, rest)

/--
What the letter after a backslash stands for. The slash may be escaped, but never needs to be.
-/
def letterEscapes : List (CodePoint × CodePoint) :=
  (0x2f, 0x2f) :: shortEscapes.map Prod.swap

/--
One code point of a string, escaped or not.
-/
def scanChar : PyStr → Option (CodePoint × PyStr)
  | [] => none
  | c :: s =>
    if c = backslash then
      match s with
      | [] => none
      | letter :: s =>
        if letter = smallU then scanUnicode s
        else
          match letterEscapes.lookup letter with
          | some c => some (c, s)
          | none => none
    else if c.val < 0x20 then none
    else some (c, s)

/--
A string after its opening quote. The fuel bounds the number of code points.
-/
def scanString : Nat → PyStr → Option (PyStr × PyStr)
  | 0, _ => none
  | _ + 1, [] => none
  | fuel + 1, c :: s =>
    if c = quoteMark then some ([], s)
    else do
      let (c, s) ← scanChar (c :: s)
      let (cs, s) ← scanString fuel s
      return (c :: cs, s)

def scanSign : PyStr → PyStr × PyStr
  | [] => ([], [])
  | c :: s => if c = minusSign then ([c], s) else ([], c :: s)

/--
`-?(?:0|[1-9]\d*)`
-/
def scanInt (s : PyStr) : Option (PyStr × PyStr) :=
  match (scanSign s).snd with
  | [] => none
  | c :: rest =>
    if c = 0x30 then some ((scanSign s).fst ++ [c], rest)
    else if isDigit c then
      some ((scanSign s).fst ++ c :: rest.takeWhile isDigit, rest.dropWhile isDigit)
    else none

/--
`(\.\d+)?`
-/
def scanFrac (s : PyStr) : PyStr × PyStr :=
  match s with
  | [] => ([], [])
  | c :: rest =>
    if c = point ∧ rest.takeWhile isDigit ≠ [] then
      (c :: rest.takeWhile isDigit, rest.dropWhile isDigit)
    else ([], s)

/--
`([-+]?)`
-/
def scanExpSign : PyStr → PyStr × PyStr
  | [] => ([], [])
  | c :: s => if c = minusSign ∨ c = plusSign then ([c], s) else ([], c :: s)

/--
`([eE][-+]?\d+)?`
-/
def scanExp (s : PyStr) : PyStr × PyStr :=
  match s with
  | [] => ([], [])
  | c :: rest =>
    if (c = smallE ∨ c = bigE) ∧ (scanExpSign rest).snd.takeWhile isDigit ≠ [] then
      (c :: (scanExpSign rest).fst ++ (scanExpSign rest).snd.takeWhile isDigit,
        (scanExpSign rest).snd.dropWhile isDigit)
    else ([], s)

/--
`int(text)` of an integer literal.
-/
def parseInt (s : PyStr) : Int :=
  let magnitude := ofFixedDigits 10 ((scanSign s).snd.map digitVal)
  if (scanSign s).fst = [] then magnitude else -magnitude

variable (parseFloat : PyStr → Option PyFloat)

def scanNumber (s : PyStr) : Option (Json × PyStr) := do
  let (int, rest) ← scanInt s
  let (frac, rest) := scanFrac rest
  let (exp, rest) := scanExp rest
  if frac = [] ∧ exp = [] then
    return (.int (parseInt int), rest)
  else
    let x ← parseFloat (int ++ frac ++ exp)
    return (.float x, rest)

/--
The constants that a value can be, with the texts that stand for them.
-/
def constants : List (PyStr × Json) :=
  [
    (py "null", .null),
    (py "true", .bool true),
    (py "false", .bool false),
    (py "NaN", .float .nan),
    (py "Infinity", .float (.inf false)),
    (py "-Infinity", .float (.inf true))
  ]

/--
`dict(pairs)`: the last value of a key, at the place of its first one.
-/
def dictOf (pairs : List (PyStr × Json)) : Dict :=
  pairs.foldl (fun d pair =>
    if (List.lookup pair.fst d).isSome then
      d.map fun item => if item.fst = pair.fst then pair else item
    else d ++ [pair]) []

mutual

/--
A value at the front of a text. The fuel bounds the nesting and the number of items.
-/
def scanOnce : Nat → PyStr → Option (Json × PyStr)
  | 0, _ => none
  | _ + 1, [] => none
  | fuel + 1, c :: s =>
    if c = quoteMark then do
      let (text, s) ← scanString (s.length + 1) s
      return (.str text, s)
    else if c = openBrace then
      match skipWs s with
      | [] => none
      | d :: rest =>
        if d = closeBrace then some (.dict [], rest)
        else do
          let (pairs, rest) ← scanPairs fuel (d :: rest)
          return (.dict (dictOf pairs), rest)
    else if c = openBracket then
      match skipWs s with
      | [] => none
      | d :: rest =>
        if d = closeBracket then some (.list [], rest)
        else do
          let (items, rest) ← scanItems fuel (d :: rest)
          return (.list items, rest)
    else
      match constants.find? fun constant => constant.fst.isPrefixOf (c :: s) with
      | some constant => some (constant.snd, (c :: s).drop constant.fst.length)
      | none => scanNumber parseFloat (c :: s)

/--
The items of a list, from the first one to the closing bracket.
-/
def scanItems : Nat → PyStr → Option (List Json × PyStr)
  | 0, _ => none
  | fuel + 1, s => do
    let (v, rest) ← scanOnce fuel s
    match skipWs rest with
    | [] => none
    | c :: rest =>
      if c = closeBracket then return ([v], rest)
      else if c = comma then do
        let (vs, rest) ← scanItems fuel (skipWs rest)
        return (v :: vs, rest)
      else none

/--
The items of a dictionary, from the first key to the closing brace.
-/
def scanPairs : Nat → PyStr → Option (List (PyStr × Json) × PyStr)
  | 0, _ => none
  | _ + 1, [] => none
  | fuel + 1, c :: s =>
    if c = quoteMark then do
      let (key, rest) ← scanString (s.length + 1) s
      match skipWs rest with
      | [] => none
      | d :: rest =>
        if d = colon then do
          let (v, rest) ← scanOnce fuel (skipWs rest)
          match skipWs rest with
          | [] => none
          | e :: rest =>
            if e = closeBrace then return ([(key, v)], rest)
            else if e = comma then do
              let (items, rest) ← scanPairs fuel (skipWs rest)
              return ((key, v) :: items, rest)
            else none
        else none
    else none

end

/--
`json.loads(text)`, where `none` stands for a `JSONDecodeError`.
-/
def loads (s : PyStr) : Option Json := do
  let (v, rest) ← scanOnce parseFloat (s.length + 1) (skipWs s)
  if skipWs rest = [] then return v else none

end Loads

end JsonText
