import Legalise.Python.Base64
import Legalise.Python.Json
import Legalise.Python.Web

/-!
This module contains how the renderers find the assets of a document: the URLs in the editor's JSON
and the storage keys they stand for.
-/

namespace Rendering

open PyStr Web

/--
The exceptions that a renderer lets through.
-/
inductive RenderError where
  | attributeError
  | typeError
  | valueError
  | overflowError
  | storageError
  deriving DecidableEq

structure DocumentAssetContext where
  userId : Uuid
  matterId : Uuid
  documentId : Uuid
  deriving DecidableEq

/--
The answer of `get_bytes`. A missing object and a failed read are told apart from other exceptions.
-/
inductive StorageRead where
  | data (bytes : Bytes)
  | unreadable
  | raised

section Keys

/--
The character class `[A-Za-z0-9._-]`.
-/
def isSafe (c : CodePoint) : Bool :=
  c ∈ py "ABCDEFGHIJKLMNOPQRSTUVWXYZabcdefghijklmnopqrstuvwxyz0123456789._-"

/--
`_FILENAME_SAFE_RE.sub("-", text)`, where `run` says whether the last character was replaced.
-/
def subRuns : Bool → PyStr → PyStr
  | _, [] => []
  | run, c :: s =>
    if isSafe c then c :: subRuns false s
    else if run then subRuns true s
    else CodePoint.ofChar '-' :: subRuns true s

def isTrimmed (c : CodePoint) : Bool :=
  c ∈ py "-._"

def safeAssetFilename (filename fallback : PyStr) : PyStr :=
  if filename.isEmpty then fallback
  else
    let cleaned := stripOf isTrimmed (subRuns false filename)
    let cleaned := rstripOf isTrimmed (cleaned.take 100)
    if cleaned.isEmpty then fallback else cleaned

def sanitiseFilename (name : PyStr) : PyStr :=
  let cleaned := name.map fun c => if isSafe c then c else CodePoint.ofChar '_'
  if (cleaned.take 100).isEmpty then py "file" else cleaned.take 100

/--
The prefix of the storage keys of a document's assets.
-/
def assetPrefix (context : DocumentAssetContext) : PyStr :=
  py "users/" ++ context.userId.str ++ py "/matters/" ++ context.matterId.str ++ py "/documents/"
    ++ context.documentId.str ++ py "/assets/"

def documentAssetKey (context : DocumentAssetContext) (assetId : Uuid) (filename : PyStr) : PyStr :=
  assetPrefix context ++ assetId.str ++ py "/" ++ sanitiseFilename filename

end Keys

section Urls

/--
The groups of `DOCUMENT_ASSET_URL_RE`.
-/
structure AssetUrl where
  documentId : PyStr
  assetId : PyStr
  filename : PyStr

/--
The character class `[0-9a-fA-F-]`.
-/
def isIdChar (c : CodePoint) : Bool :=
  c ∈ py "0123456789abcdefABCDEF-"

/--
A literal at the front of a text.
-/
def readLiteral (literal s : PyStr) : Option PyStr :=
  if literal.isPrefixOf s then some (s.drop literal.length) else none

/--
An id at the front of a text.
-/
def readId (s : PyStr) : Option (PyStr × PyStr) :=
  if (s.take 36).length = 36 ∧ (s.take 36).all isIdChar then some (s.take 36, s.drop 36) else none

/--
`DOCUMENT_ASSET_URL_RE.match(path)`
-/
def matchAssetUrl (path : PyStr) : Option AssetUrl := do
  let rest ← readLiteral (py "/api/documents/") path
  let (documentId, rest) ← readId rest
  let rest ← readLiteral (py "/assets/") rest
  let (assetId, rest) ← readId rest
  let filename ← readLiteral (py "/") rest
  if filename.isEmpty ∨ CodePoint.ofChar '/' ∈ filename then none
  else some ⟨documentId, assetId, filename⟩

variable (netlocOk : PyStr → Bool)

/--
The key of an asset of the rendered document, or `None` for any other URL.
-/
def documentAssetKeyFromSrc (src : Option PyStr) (context : Option DocumentAssetContext)
    : Except RenderError (Option PyStr) :=
  match src, context with
  | some src, some context =>
    if src.isEmpty then .ok none
    else
      match urlparse netlocOk src with
      | none => .error .valueError
      | some parsed =>
        let path := if !parsed.scheme.isEmpty || !parsed.netloc.isEmpty then parsed.path else src
        match matchAssetUrl path with
        | none => .ok none
        | some url =>
          match Uuid.ofText? url.documentId, Uuid.ofText? url.assetId with
          | some documentId, some assetId =>
            if documentId ≠ context.documentId then .ok none
            else
              let filename := safeAssetFilename (unquote url.filename) assetId.str
              .ok (some (documentAssetKey context assetId filename))
          | _, _ => .ok none
  | _, _ => .ok none

/--
What comes after the last point of a text that has one.
-/
def suffix (filename : PyStr) : PyStr :=
  if CodePoint.ofChar '.' ∈ filename then filename.rtakeWhile (· ≠ CodePoint.ofChar '.') else []

def mimeTypes : List (PyStr × PyStr) :=
  [(py "gif", py "image/gif"), (py "jpg", py "image/jpeg"), (py "jpeg", py "image/jpeg"),
    (py "png", py "image/png"), (py "webp", py "image/webp")]

variable (lower : PyStr → PyStr)

def mimeFromFilename (filename : PyStr) : PyStr :=
  (mimeTypes.lookup (lower (suffix filename))).getD (py "application/octet-stream")

end Urls

section Values

/--
`value or default`
-/
def orElse (value default : Json) : Json :=
  if value.truthy then value else default

/--
`value.get(key)` on a value that may not be a dictionary.
-/
def getAttr (value : Json) (key : PyStr) : Except RenderError Json :=
  match value with
  | .dict items => .ok (Dict.get items key)
  | _ => .error .attributeError

/--
`(node.get(name) or {}).get(key)`
-/
def nested (node : Dict) (name key : PyStr) : Except RenderError Json :=
  getAttr (orElse (node.get name) (.dict [])) key

/--
`value if isinstance(value, str) else None`
-/
def str? : Json → Option PyStr
  | .str s => some s
  | _ => none

/--
`int(value)`
-/
def toInt : Json → Except RenderError Int
  | .bool b => .ok (if b then 1 else 0)
  | .int n => .ok n
  | .float (.finite q) => .ok (if q < 0 then ⌈q⌉ else ⌊q⌋)
  | .float .negZero => .ok 0
  | .float (.inf _) => .error .overflowError
  | .float .nan => .error .valueError
  | .str s =>
    match PyStr.toInt 10 s with
    | some n => .ok n
    | none => .error .valueError
  | _ => .error .typeError

structure RGBColor where
  red : Nat
  green : Nat
  blue : Nat
  deriving DecidableEq

/--
`int(pair, 16)` as a channel of a colour, where a number below zero is refused with a `ValueError` too.
-/
def channel? (pair : PyStr) : Option Nat :=
  match PyStr.toInt 16 pair with
  | some (.ofNat n) => some n
  | _ => none

/--
`value.strip().lstrip("#")`
-/
def cleanedColor (value : PyStr) : PyStr :=
  lstripOf (· = CodePoint.ofChar '#') (strip value)

def rgbFromStr (value : PyStr) : Option RGBColor := do
  let cleaned := cleanedColor value
  if cleaned.length ≠ 6 then none
  else
    let red ← channel? (slice cleaned 0 2)
    let green ← channel? (slice cleaned 2 4)
    let blue ← channel? (slice cleaned 4 6)
    some ⟨red, green, blue⟩

def rgbFromHex (value : Json) : Except RenderError (Option RGBColor) :=
  if value.truthy then
    match value with
    | .str s => .ok (rgbFromStr s)
    | _ => .error .attributeError
  else .ok none

end Values

end Rendering
