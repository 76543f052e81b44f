import Legalise.Python.Bytes
import Legalise.Python.Text

/-!
This module contains `html.escape` and the parts of `urllib.parse` that the repository uses.
-/

namespace Web

open PyStr

section Escape

/--
The characters that `html.escape` replaces, and their entities.
-/
def entities : List (CodePoint × PyStr) :=
  [(CodePoint.ofChar '&', py "&amp;"), (CodePoint.ofChar '<', py "&lt;"),
    (CodePoint.ofChar '>', py "&gt;"), (CodePoint.ofChar '"', py "&quot;"),
    (0x27, py "&#x27;")]

def escapePoint (c : CodePoint) : PyStr :=
  match entities.lookup c with
  | some entity => entity
  | none => [c]

/--
`html.escape(text, quote=True)`
-/
def escape (s : PyStr) : PyStr :=
  s.flatMap escapePoint

/--
The characters with a meaning in HTML.
-/
def IsMarkup (c : CodePoint) : Prop :=
  c ∈ py "<>\""

instance (c : CodePoint) : Decidable (IsMarkup c) :=
  inferInstanceAs (Decidable (c ∈ py "<>\""))

@[simp]
theorem escape_nil : escape [] = [] := rfl

@[simp]
theorem escape_append (s t : PyStr) : escape (s ++ t) = escape s ++ escape t := by
  simp [escape]

theorem mem_of_lookup {κ α : Type} [BEq κ] [LawfulBEq κ] {key : κ} {value : α}
    {items : List (κ × α)} (h : items.lookup key = some value) : (key, value) ∈ items := by
  have ⟨before, after, heq, _⟩ := List.lookup_eq_some_iff.mp h
  simp [heq]

theorem notMarkup_of_mem_escape {s : PyStr} {c : CodePoint} (hc : c ∈ escape s) : ¬ IsMarkup c := by
  have hentities : (entities.all fun item => item.snd.all fun c => ¬ IsMarkup c) = true := by
    decide
  have hmarkup : ((py "<>\"").all fun c => (entities.lookup c).isSome) = true := by
    decide
  simp only [List.all_eq_true, decide_eq_true_eq] at hentities hmarkup
  have ⟨d, _, hd⟩ := List.mem_flatMap.mp hc
  unfold escapePoint at hd
  split at hd
  . next entity hlookup => exact hentities _ (mem_of_lookup hlookup) c hd
  . next hlookup =>
    rw [List.mem_singleton] at hd
    intro h
    have := hmarkup c h
    simp [hd, hlookup] at this

theorem escape_eq_self {s : PyStr} (h : ∀ c ∈ s, c ∉ entities.map Prod.fst) : escape s = s := by
  induction s with
  | nil => rfl
  | cons c s ih =>
    have hlookup : entities.lookup c = none := by
      rw [List.lookup_eq_none_iff]
      intro item hitem
      have hne : c ≠ item.fst := by
        rintro rfl
        exact h item.fst (by simp) (List.mem_map_of_mem hitem)
      simpa using hne
    have hpoint : escapePoint c = [c] := by
      unfold escapePoint
      rw [hlookup]
    have htail : escape s = s := ih fun d hd => h d (by simp [hd])
    show escapePoint c ++ escape s = c :: s
    rw [hpoint, htail]
    rfl

end Escape

section Unquote

/--
`unquote_to_bytes` of a text of ASCII characters.
-/
def unquoteBytes : PyStr → Bytes
  | c :: a :: b :: s =>
    if c = CodePoint.ofChar '%' then
      match Uuid.hexDigit? a, Uuid.hexDigit? b with
      | some high, some low => Utf8.byte (16 * high + low) :: unquoteBytes s
      | _, _ => Utf8.byte c.val :: unquoteBytes (a :: b :: s)
    else Utf8.byte c.val :: unquoteBytes (a :: b :: s)
  | c :: s => Utf8.byte c.val :: unquoteBytes s
  | [] => []

/--
The decoded text, given the ASCII characters right before it in reverse order.
-/
def unquoteRuns : PyStr → PyStr → PyStr
  | run, [] => Utf8.decodeReplace (unquoteBytes run.reverse)
  | run, c :: s =>
    if c.val < 128 then unquoteRuns (c :: run) s
    else Utf8.decodeReplace (unquoteBytes run.reverse) ++ c :: unquoteRuns [] s

/--
`unquote(text)`
-/
def unquote (s : PyStr) : PyStr :=
  if CodePoint.ofChar '%' ∈ s then unquoteRuns [] s else s

end Unquote

section Urlparse

/--
The part of `urlparse(url)` that the repository looks at.
-/
structure ParseResult where
  scheme : PyStr
  netloc : PyStr
  path : PyStr
  deriving DecidableEq

def isAsciiLetter (c : CodePoint) : Bool :=
  c ∈ py "abcdefghijklmnopqrstuvwxyzABCDEFGHIJKLMNOPQRSTUVWXYZ"

def isSchemeChar (c : CodePoint) : Bool :=
  isAsciiLetter c || c ∈ py "0123456789+-."

def lowerAscii (c : CodePoint) : CodePoint :=
  if c ∈ py "ABCDEFGHIJKLMNOPQRSTUVWXYZ" then ⟨(c.val + 32) % 0x110000, by omega⟩ else c

/--
The schemes whose last path segment may have parameters.
-/
def usesParams : List PyStr :=
  [py "", py "ftp", py "hdl", py "prospero", py "http", py "imap", py "https", py "shttp", py "rtsp",
    py "rtspu", py "sip", py "sips", py "mms", py "sftp", py "tel"]

/--
The scheme, if a text starts with one, and the rest.
-/
def splitScheme (url : PyStr) : PyStr × PyStr :=
  let before := url.takeWhile (· ≠ CodePoint.ofChar ':')
  match before with
  | [] => ([], url)
  | c :: _ =>
    if before.length < url.length ∧ isAsciiLetter c ∧ before.all isSchemeChar then
      (before.map lowerAscii, url.drop (before.length + 1))
    else ([], url)

/--
The network location after `//`, and the rest.
-/
def splitNetloc (url : PyStr) : PyStr × PyStr :=
  if url.take 2 = py "//" then (url.drop 2).span fun c => c ∉ py "/?#"
  else ([], url)

/--
The path before the parameters of its last segment.
-/
def dropParams (path : PyStr) : PyStr :=
  let segment := path.rtakeWhile (· ≠ CodePoint.ofChar '/')
  path.take (path.length - segment.length) ++ segment.takeWhile (· ≠ CodePoint.ofChar ';')

/--
`urlparse(url)`, where `none` stands for the `ValueError` that a network location is refused with.
-/
def urlparse (netlocOk : PyStr → Bool) (url : PyStr) : Option ParseResult :=
  let url := (lstripOf (·.val ≤ 0x20) url).filter (· ∉ py "\t\r\n")
  let (scheme, rest) := splitScheme url
  let (netloc, rest) := splitNetloc rest
  if netlocOk netloc then
    let path := (rest.takeWhile (· ≠ CodePoint.ofChar '#')).takeWhile (· ≠ CodePoint.ofChar '?')
    some ⟨scheme, netloc, if scheme ∈ usesParams then dropParams path else path⟩
  else none

end Urlparse

end Web
