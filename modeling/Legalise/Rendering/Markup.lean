import Legalise.Rendering.Html

/-!
This module contains the trees of elements that the HTML renderer may write, and what it reads.
-/

namespace Rendering

open PyStr Web

/--
An HTML tree. Texts and attribute values are written escaped.
-/
inductive Node where
  | text (s : PyStr)
  | void (name : PyStr) (attrs : List (PyStr × PyStr))
  | elem (name : PyStr) (attrs : List (PyStr × PyStr)) (children : List Node)

def attrsText (attrs : List (PyStr × PyStr)) : PyStr :=
  attrs.flatMap fun attr => py " " ++ attr.fst ++ py "=\"" ++ escape attr.snd ++ py "\""

mutual

def Node.serialize : Node → PyStr
  | .text s => escape s
  | .void name attrs => py "<" ++ name ++ attrsText attrs ++ (if attrs.isEmpty then py "/>" else py " />")
  | .elem name attrs children =>
    py "<" ++ name ++ attrsText attrs ++ py ">" ++ serializeList children ++ py "</" ++ name ++ py ">"

def serializeList : List Node → PyStr
  | [] => []
  | node :: nodes => node.serialize ++ serializeList nodes

end

/--
A colour of six hexadecimal digits, which `#` and spaces around it do not change.
-/
def SixHex (color : PyStr) : Prop :=
  (cleanedColor color).length = 6 ∧ ∀ c ∈ cleanedColor color, c ∈ py "0123456789abcdefABCDEF"

instance (color : PyStr) : Decidable (SixHex color) :=
  inferInstanceAs (Decidable (_ ∧ ∀ c ∈ cleanedColor color, c ∈ py "0123456789abcdefABCDEF"))

def plainTags : List PyStr :=
  [py "p", py "h1", py "h2", py "h3", py "h4", py "ul", py "ol", py "li", py "table", py "tr", py "th",
    py "td", py "figure", py "strong", py "em", py "u", py "mark"]

def alignedTags : List PyStr :=
  [py "p", py "h1", py "h2", py "h3", py "h4"]

/--
The elements of the renderer.
-/
inductive AllowedElement : PyStr → List (PyStr × PyStr) → Prop where
  | plain {name : PyStr} (h : name ∈ plainTags) : AllowedElement name []
  | aligned {name align : PyStr} (h : name ∈ alignedTags)
      (halign : align ∈ [py "left", py "center", py "right"])
      : AllowedElement name [(py "style", py "text-align:" ++ align)]
  | taskList : AllowedElement (py "ul") [(py "class", py "task-list")]
  | taskBox : AllowedElement (py "span") [(py "class", py "task-box")]
  | placeholder : AllowedElement (py "em") [(py "class", py "image-placeholder")]
  | color {color : PyStr} (h : SixHex color)
      : AllowedElement (py "span") [(py "style", py "color:" ++ color)]

/--
A `data:` URI of base64.
-/
def dataUri (mimeType : PyStr) (bytes : Bytes) : PyStr :=
  py "data:" ++ mimeType ++ py ";base64," ++ Base64.encode Base64.standard bytes

def knownMimeTypes : List PyStr :=
  py "application/octet-stream" :: mimeTypes.map Prod.snd

/--
The elements without content.
-/
inductive AllowedVoid : PyStr → List (PyStr × PyStr) → Prop where
  | br : AllowedVoid (py "br") []
  | img {mimeType : PyStr} (h : mimeType ∈ knownMimeTypes) (bytes : Bytes) (alt : PyStr)
      : AllowedVoid (py "img") [(py "src", dataUri mimeType bytes), (py "alt", alt)]

mutual

/--
A tree of the renderer's own elements.
-/
inductive Allowed : Node → Prop where
  | text (s : PyStr) : Allowed (.text s)
  | void {name : PyStr} {attrs : List (PyStr × PyStr)} (h : AllowedVoid name attrs)
      : Allowed (.void name attrs)
  | elem {name : PyStr} {attrs : List (PyStr × PyStr)} {children : List Node}
      (h : AllowedElement name attrs) (hchildren : AllowedList children)
      : Allowed (.elem name attrs children)

inductive AllowedList : List Node → Prop where
  | nil : AllowedList []
  | cons {node : Node} {nodes : List Node} (h : Allowed node) (hnodes : AllowedList nodes)
      : AllowedList (node :: nodes)

end

theorem serializeList_append (a b : List Node)
    : serializeList (a ++ b) = serializeList a ++ serializeList b := by
  induction a with
  | nil => simp [serializeList]
  | cons node a ih => simp [serializeList, ih]

theorem AllowedList.append {a b : List Node} (ha : AllowedList a) (hb : AllowedList b)
    : AllowedList (a ++ b) := by
  induction a with
  | nil => exact hb
  | cons node a ih =>
    cases ha with
    | cons hnode hnodes => exact .cons hnode (ih hnodes)

section Keys

/--
A storage key of an asset of the document: the asset's id and one plain name below the document's
prefix.
-/
def UnderAssets (context : DocumentAssetContext) (key : PyStr) : Prop :=
  ∃ (assetId : Uuid) (name : PyStr), key = assetPrefix context ++ assetId.str ++ py "/" ++ name
    ∧ (∀ c ∈ name, isSafe c = true) ∧ name ≠ [] ∧ name ≠ py "." ∧ name ≠ py ".."

theorem isSafe_sanitiseFilename (name : PyStr) : ∀ c ∈ sanitiseFilename name, isSafe c = true := by
  have hfile : (py "file").all isSafe = true := by
    decide
  have hunderscore : isSafe (CodePoint.ofChar '_') = true := by
    decide
  intro c hc
  unfold sanitiseFilename at hc
  dsimp only at hc
  split at hc
  . exact List.all_eq_true.mp hfile c hc
  . have ⟨d, _, hd⟩ := List.mem_map.mp (List.mem_of_mem_take hc)
    split at hd
    . next hsafe => rwa [← hd]
    . rwa [← hd]

theorem head?_stripOf {p : CodePoint → Bool} {s : PyStr} {c : CodePoint}
    (h : (stripOf p s).head? = some c) : p c = false := by
  unfold stripOf rstripOf lstripOf at h
  have ⟨rest, hrest⟩ := List.rdropWhile_prefix p (s.dropWhile p)
  cases hstrip : List.rdropWhile p (s.dropWhile p) with
  | nil => simp [hstrip] at h
  | cons d tail =>
    have hd : d = c := by simpa [hstrip] using h
    rw [hstrip] at hrest
    have := List.head?_dropWhile_not p s
    rw [← hrest] at this
    simpa [hd] using this

/--
A name that was trimmed does not start with a point.
-/
theorem head?_safeAssetFilename {filename fallback : PyStr} {c : CodePoint}
    (hfallback : ∀ d, fallback.head? = some d → isTrimmed d = false)
    (h : (safeAssetFilename filename fallback).head? = some c) : isTrimmed c = false := by
  unfold safeAssetFilename at h
  split at h
  . exact hfallback c h
  . dsimp only at h
    split at h
    . exact hfallback c h
    . next hne =>
      apply head?_stripOf (s := subRuns false filename)
      have ⟨tail, htail⟩ := List.rdropWhile_prefix isTrimmed
        ((stripOf isTrimmed (subRuns false filename)).take 100)
      cases hcut : rstripOf isTrimmed ((stripOf isTrimmed (subRuns false filename)).take 100) with
      | nil => simp [hcut] at hne
      | cons d rest =>
        have hd : d = c := by simpa [hcut] using h
        unfold rstripOf at hcut
        rw [hcut] at htail
        cases hstrip : stripOf isTrimmed (subRuns false filename) with
        | nil => simp [hstrip] at htail
        | cons e more =>
          rw [hstrip] at htail
          simp only [List.cons_append, List.take_succ_cons, List.cons.injEq] at htail
          simp [← htail.left, hd]

theorem safeAssetFilename_ne_nil {filename fallback : PyStr} (h : fallback ≠ [])
    : safeAssetFilename filename fallback ≠ [] := by
  unfold safeAssetFilename
  dsimp only
  split
  . exact h
  . split
    . exact h
    . next hne => simpa using hne

theorem head?_uuid_str {u : Uuid} {c : CodePoint} (h : u.str.head? = some c) : isTrimmed c = false := by
  have hhex : ((py "0123456789abcdef").all fun c => !isTrimmed c) = true := by
    decide
  cases hdigits : fixedDigits 16 32 u.int with
  | nil =>
    have := congrArg List.length hdigits
    simp at this
  | cons d ds =>
    have hd : d < 16 := lt_base_of_mem_fixedDigits (by omega) (by rw [hdigits]; simp)
    have hc : digitPoint d = c := by
      unfold Uuid.str at h
      rw [u.hex_eq, hdigits] at h
      simpa using h
    have := List.all_eq_true.mp hhex _ (isHexDigit_digitPoint hd)
    simpa [hc] using this

theorem uuid_str_ne_nil (u : Uuid) : u.str ≠ [] := by
  have hhyphen : CodePoint.ofChar '-' ∈ u.str := by
    simp [Uuid.str, py]
  exact List.ne_nil_of_mem hhyphen

/--
A sanitised name whose first character is not a point stands for a file in its directory.
-/
theorem plainName_sanitiseFilename {name : PyStr} (hne : name ≠ [])
    (hhead : ∀ c, name.head? = some c → isTrimmed c = false)
    : sanitiseFilename name ≠ [] ∧ sanitiseFilename name ≠ py "." ∧ sanitiseFilename name ≠ py ".." := by
  have hpoint : isTrimmed (CodePoint.ofChar '.') = true := by
    decide
  have hunderscore : CodePoint.ofChar '_' ≠ CodePoint.ofChar '.' := by
    decide
  cases name with
  | nil => contradiction
  | cons c rest =>
    have hc : c ≠ CodePoint.ofChar '.' := by
      rintro rfl
      simp [hhead (CodePoint.ofChar '.') rfl] at hpoint
    have hsplit : ∃ d tail, sanitiseFilename (c :: rest) = d :: tail ∧ d ≠ CodePoint.ofChar '.' := by
      refine ⟨if isSafe c then c else CodePoint.ofChar '_', _, rfl, ?_⟩
      split
      . exact hc
      . exact hunderscore
    have ⟨d, tail, heq, hd⟩ := hsplit
    rw [heq]
    refine ⟨by simp, ?_, ?_⟩
    . intro h
      exact hd (List.cons.inj h).left
    . intro h
      exact hd (List.cons.inj h).left

/--
Whatever a URL says, the key that is read for it belongs to the rendered document.
-/
theorem underAssets_of_src {netlocOk : PyStr → Bool} {src : Option PyStr}
    {context : Option DocumentAssetContext} {key : PyStr}
    (h : documentAssetKeyFromSrc netlocOk src context = .ok (some key))
    : ∃ own, context = some own ∧ UnderAssets own key := by
  unfold documentAssetKeyFromSrc at h
  split at h
  . next own =>
    refine ⟨own, rfl, ?_⟩
    split at h
    . injection h; contradiction
    split at h
    . contradiction
    dsimp only at h
    split at h
    . injection h; contradiction
    split at h
    . next url _ _ _ _ assetId _ _ =>
      split at h
      . injection h; contradiction
      . injection h with h
        injection h with h
        have hname : ∀ c, (safeAssetFilename (unquote url.filename) assetId.str).head? = some c →
            isTrimmed c = false := by
          intro c hc
          exact head?_safeAssetFilename (fun d hd => head?_uuid_str hd) hc
        have hplain := plainName_sanitiseFilename
          (safeAssetFilename_ne_nil (uuid_str_ne_nil assetId)) hname
        exact ⟨assetId, _, h.symm, isSafe_sanitiseFilename _, hplain⟩
    . injection h; contradiction
  . injection h; contradiction

end Keys

end Rendering
