import Legalise.Audit.Log
import Legalise.Rendering.Markup

/-!
This module contains the images of the document editor, from the upload over its URL back to the storage key,
and for which filenames every reader finds the key that the upload wrote to.
-/

namespace DocumentRoutes

open PyStr Web Rendering

section Routes

structure HTTPException where
  status : Nat
  detail : Json

structure StorageFailure where
  backend : PyStr
  errorCode : PyStr

/--
The allowed image types, each with the extension of its files.
-/
def imageAssetMimes : List (PyStr × PyStr) :=
  [(py "image/gif", py "gif"), (py "image/jpeg", py "jpg"), (py "image/png", py "png"),
    (py "image/webp", py "webp")]

def maxDocumentAssetBytes : Nat :=
  5 * 1024 * 1024

structure UploadFile where
  filename : Option PyStr
  contentType : Option PyStr
  data : Bytes

structure DocumentAssetUploadRead where
  id : Uuid
  filename : PyStr
  mimeType : PyStr
  sizeBytes : Nat
  sha256 : PyStr
  url : PyStr

/--
What an upload leaves: the object that it wrote, the audit row and the answer.
-/
structure StoredAsset where
  key : PyStr
  data : Bytes
  metadata : List (PyStr × PyStr)
  audit : AuditLog
  read : DocumentAssetUploadRead

def assetFilename (filename : Option PyStr) (assetId : Uuid) (extension : PyStr) : PyStr :=
  let filename := safeAssetFilename (filename.getD []) (assetId.str ++ py "." ++ extension)
  if CodePoint.ofChar '.' ∉ filename then filename ++ py "." ++ extension else filename

def assetUrl (documentId assetId : Uuid) (filename : PyStr) : PyStr :=
  py "/api/documents/" ++ documentId.str ++ py "/assets/" ++ assetId.str ++ py "/" ++ filename

variable (sha256 : Bytes → PyStr) (put : PyStr → Option StorageFailure)

/--
`post_document_asset` of an owned document that is live, where `put` says how the write of a key fails.
-/
def postDocumentAsset (context : DocumentAssetContext) (assetId : Uuid) (file : UploadFile)
    : Except HTTPException StoredAsset :=
  let mimeType := file.contentType.getD (py "application/octet-stream")
  match imageAssetMimes.lookup mimeType with
  | none => .error ⟨415, .str (py "unsupported image type")⟩
  | some extension =>
    if file.data.isEmpty then .error ⟨400, .str (py "empty image")⟩
    else if maxDocumentAssetBytes < file.data.length then .error ⟨413, .str (py "image too large")⟩
    else
      let filename := assetFilename file.filename assetId extension
      let digest := sha256 file.data
      let key := documentAssetKey context assetId filename
      match put key with
      | some failure =>
        .error ⟨502, .dict [(py "error", .str (py "storage_write_failed")),
          (py "message", .str (py "Failed to store document image.")), (py "storage_key", .str key),
          (py "backend", .str failure.backend)]⟩
      | none =>
        .ok {
          key := key
          data := file.data
          metadata := [(py "sha256", digest), (py "document_id", context.documentId.str)]
          audit := {
            action := py "document.asset.uploaded"
            actorId := some context.userId
            matterId := some context.matterId
            module := some (py "document_editor")
            resourceType := some (py "document_asset")
            resourceId := some assetId.str
            payload := [(py "document_id", .str context.documentId.str), (py "filename", .str filename),
              (py "mime_type", .str mimeType), (py "size_bytes", .int file.data.length),
              (py "sha256", .str digest)]
          }
          read := ⟨assetId, filename, mimeType, file.data.length, digest,
            assetUrl context.documentId assetId filename⟩
        }

/--
The key that `get_document_asset` reads.
-/
def requestedKey (context : DocumentAssetContext) (assetId : Uuid) (filename : PyStr) : PyStr :=
  documentAssetKey context assetId (safeAssetFilename filename assetId.str)

variable (lower : PyStr → PyStr) (get : PyStr → Except (Option StorageFailure) Bytes)

/--
`get_document_asset` of an owned document that is live, with the media type of the answer. A missing key is an
`.error none` of `get`.
-/
def getDocumentAsset (context : DocumentAssetContext) (assetId : Uuid) (filename : PyStr)
    : Except HTTPException (Bytes × PyStr) :=
  let key := requestedKey context assetId filename
  match get key with
  | .ok data => .ok (data, mimeFromFilename lower (safeAssetFilename filename assetId.str))
  | .error none => .error ⟨404, .str (py "document asset not found")⟩
  | .error (some failure) =>
    .error ⟨502, .dict [(py "error", .str (py "storage_read_failed")),
      (py "message", .str (py "This image is no longer available.")), (py "storage_key", .str key),
      (py "backend", .str failure.backend)]⟩

end Routes

section Names

/--
A name that the sanitisers of the upload leave behind: plain characters, and none to trim at either end.
-/
structure AssetName (name : PyStr) : Prop where
  ne_nil : name ≠ []
  safe : ∀ c ∈ name, isSafe c = true
  head : ∀ c, name.head? = some c → isTrimmed c = false
  last : rstripOf isTrimmed name = name

theorem subRuns_eq_self {run : Bool} {name : PyStr} (h : ∀ c ∈ name, isSafe c = true)
    : subRuns run name = name := by
  induction name generalizing run with
  | nil => rfl
  | cons c name ih =>
    unfold subRuns
    rw [if_pos (h c (by simp)), ih fun d hd => h d (by simp [hd])]

theorem isSafe_subRuns {run : Bool} {name : PyStr} {c : CodePoint} (hc : c ∈ subRuns run name)
    : isSafe c = true := by
  have hhyphen : isSafe (CodePoint.ofChar '-') = true := by
    decide
  induction name generalizing run with
  | nil => contradiction
  | cons d name ih =>
    unfold subRuns at hc
    split at hc
    . next hd =>
      cases hc with
      | head => exact hd
      | tail _ hc => exact ih hc
    . split at hc
      . exact ih hc
      . cases hc with
        | head => exact hhyphen
        | tail _ hc => exact ih hc

theorem lstripOf_eq_self {p : CodePoint → Bool} {s : PyStr} (h : ∀ c, s.head? = some c → p c = false)
    : lstripOf p s = s := by
  unfold lstripOf
  cases s with
  | nil => rfl
  | cons c s => rw [List.dropWhile_cons, h c rfl]; rfl

theorem rstripOf_rstripOf (p : CodePoint → Bool) (s : PyStr)
    : rstripOf p (rstripOf p s) = rstripOf p s :=
  List.rdropWhile_idempotent p s

theorem length_rstripOf_le (p : CodePoint → Bool) (s : PyStr) : (rstripOf p s).length ≤ s.length :=
  (List.rdropWhile_prefix p s).length_le

theorem sanitiseFilename_eq_take {name : PyStr} (hne : name ≠ []) (h : ∀ c ∈ name, isSafe c = true)
    : sanitiseFilename name = name.take 100 := by
  have hmap : (name.map fun c => if isSafe c then c else CodePoint.ofChar '_') = name := by
    conv => rhs; rw [← List.map_id name]
    apply List.map_congr_left
    intro c hc
    rw [if_pos (h c hc)]
    rfl
  unfold sanitiseFilename
  dsimp only
  rw [hmap, if_neg]
  simpa using hne

/--
A name is cleaned by cutting it off and trimming what is then its end.
-/
theorem AssetName.safeAssetFilename_eq {name : PyStr} (h : AssetName name) (fallback : PyStr)
    : safeAssetFilename name fallback = rstripOf isTrimmed (name.take 100) := by
  have hstrip : stripOf isTrimmed (subRuns false name) = name := by
    unfold stripOf
    rw [subRuns_eq_self h.safe, lstripOf_eq_self h.head, h.last]
  have hne : rstripOf isTrimmed (name.take 100) ≠ [] := by
    intro hnil
    cases name with
    | nil => exact h.ne_nil rfl
    | cons c name =>
      have hall := List.rdropWhile_eq_nil_iff.mp hnil
      have := hall c (by simp)
      simp [h.head c rfl] at this
  unfold safeAssetFilename
  dsimp only
  rw [hstrip, if_neg, if_neg]
  . simpa using hne
  . simpa using h.ne_nil

/--
A cleaned name can be cleaned again, unless it is the fallback.
-/
theorem assetName_safeAssetFilename {filename fallback : PyStr} (h : AssetName fallback)
    : AssetName (safeAssetFilename filename fallback) := by
  refine ⟨safeAssetFilename_ne_nil h.ne_nil, fun c hc => ?_, fun c hc => head?_safeAssetFilename h.head hc, ?_⟩
  . unfold safeAssetFilename at hc
    dsimp only at hc
    split at hc
    . exact h.safe c hc
    . split at hc
      . exact h.safe c hc
      . have htake := (List.rdropWhile_prefix isTrimmed _).subset hc
        have hstrip := (List.rdropWhile_prefix isTrimmed _).subset (List.mem_of_mem_take htake)
        exact isSafe_subRuns ((List.dropWhile_suffix isTrimmed).subset hstrip)
  . unfold safeAssetFilename
    dsimp only
    split
    . exact h.last
    . split
      . exact h.last
      . exact rstripOf_rstripOf _ _

theorem length_safeAssetFilename_le {filename fallback : PyStr} (h : fallback.length ≤ 100)
    : (safeAssetFilename filename fallback).length ≤ 100 := by
  unfold safeAssetFilename
  dsimp only
  split
  . exact h
  . split
    . exact h
    . have := length_rstripOf_le isTrimmed ((stripOf isTrimmed (subRuns false filename)).take 100)
      simp only [List.length_take] at this
      omega

/--
The extension of a file: a few letters.
-/
structure Extension (extension : PyStr) : Prop where
  safe : ∀ c ∈ extension, isSafe c = true
  untrimmed : ∀ c ∈ extension, isTrimmed c = false
  ne_nil : extension ≠ []
  length_le : extension.length ≤ 4

theorem extension_of_lookup {mimeType extension : PyStr}
    (h : imageAssetMimes.lookup mimeType = some extension) : Extension extension := by
  have hall : ∀ item ∈ imageAssetMimes, (item.snd.all fun c => isSafe c && !isTrimmed c) = true
      ∧ item.snd ≠ [] ∧ item.snd.length ≤ 4 := by
    decide
  have ⟨hletters, hne, hlen⟩ := hall _ (mem_of_lookup h)
  simp only [List.all_eq_true, Bool.and_eq_true, Bool.not_eq_true'] at hletters
  exact ⟨fun c hc => (hletters c hc).left, fun c hc => (hletters c hc).right, hne, hlen⟩

theorem rstripOf_append {p : CodePoint → Bool} {s t : PyStr} (hne : t ≠ []) (ht : ∀ c ∈ t, p c = false)
    : rstripOf p (s ++ t) = s ++ t := by
  unfold rstripOf
  rw [List.rdropWhile_eq_self_iff]
  intro hl
  rw [List.getLast_append_of_ne_nil hl hne]
  simp [ht _ (List.getLast_mem hne)]

/--
A name and an extension after it.
-/
theorem AssetName.append {name extension : PyStr} (h : AssetName name) (hext : Extension extension)
    : AssetName (name ++ py "." ++ extension) := by
  have hpoint : isSafe (CodePoint.ofChar '.') = true := by
    decide
  refine ⟨by simp [h.ne_nil], fun c hc => ?_, fun c hc => ?_, rstripOf_append hext.ne_nil hext.untrimmed⟩
  . rw [List.append_assoc, List.mem_append, List.mem_append] at hc
    rcases hc with hc | hc | hc
    . exact h.safe c hc
    . rw [List.mem_singleton.mp hc]
      exact hpoint
    . exact hext.safe c hc
  . cases name with
    | nil => exact absurd rfl h.ne_nil
    | cons d name => exact h.head c hc

theorem isSafe_of_mem_hex {c : CodePoint} (hc : c ∈ py "0123456789abcdef-") : isSafe c = true := by
  have hall : ((py "0123456789abcdef-").all isSafe) = true := by
    decide
  exact List.all_eq_true.mp hall c hc

theorem isIdChar_of_mem_hex {c : CodePoint} (hc : c ∈ py "0123456789abcdef-") : isIdChar c = true := by
  have hall : ((py "0123456789abcdef-").all isIdChar) = true := by
    decide
  exact List.all_eq_true.mp hall c hc

theorem length_str (u : Uuid) : u.str.length = 36 := by
  simp [Uuid.str, u.hex_eq, py]

theorem assetName_str (u : Uuid) : AssetName u.str := by
  refine ⟨uuid_str_ne_nil u, fun c hc => isSafe_of_mem_hex (Uuid.mem_str hc),
    fun c hc => head?_uuid_str hc, ?_⟩
  have hhex : ∀ d < 16, isTrimmed (digitPoint d) = false := by
    decide
  have htail : ∀ c ∈ (zfill 32 (digitsText 16 u.int)).drop 20, isTrimmed c = false := by
    intro c hc
    have hmem := List.mem_of_mem_drop hc
    rw [u.hex_eq] at hmem
    have ⟨d, hd, heq⟩ := List.mem_map.mp hmem
    rw [← heq]
    exact hhex d (lt_base_of_mem_fixedDigits (by omega) hd)
  have hne : (zfill 32 (digitsText 16 u.int)).drop 20 ≠ [] := by
    rw [u.hex_eq]
    intro hnil
    have := congrArg List.length hnil
    simp at this
  unfold Uuid.str
  exact rstripOf_append hne htail

/--
The cleaned filename has no point, and exactly one character less than the limit. The point before the
extension is then the last character of the key.
-/
def EndsInPoint (filename : PyStr) : Prop :=
  (safeAssetFilename filename []).length = 99 ∧ CodePoint.ofChar '.' ∉ safeAssetFilename filename []

instance (filename : PyStr) : Decidable (EndsInPoint filename) :=
  inferInstanceAs (Decidable (_ ∧ _))

theorem safeAssetFilename_eq (filename fallback : PyStr)
    : safeAssetFilename filename fallback
        = if safeAssetFilename filename [] = [] then fallback else safeAssetFilename filename [] := by
  unfold safeAssetFilename
  dsimp only
  split
  . rfl
  . split
    . rfl
    . next hne => rw [if_neg]; simpa using hne

theorem endsInPoint_iff {filename fallback : PyStr} (h : CodePoint.ofChar '.' ∈ fallback)
    : EndsInPoint filename
        ↔ (safeAssetFilename filename fallback).length = 99
          ∧ CodePoint.ofChar '.' ∉ safeAssetFilename filename fallback := by
  unfold EndsInPoint
  rw [safeAssetFilename_eq filename fallback]
  split
  . next hnil => simp [hnil, h]
  . rfl

/--
What is trimmed from the stored name when it is cut off for the key.
-/
theorem rstripOf_take_iff {name extension : PyStr} (h : AssetName name) (hlen : name.length ≤ 100)
    (hext : Extension extension)
    : rstripOf isTrimmed ((name ++ py "." ++ extension).take 100) = (name ++ py "." ++ extension).take 100
        ↔ name.length ≠ 99 := by
  have hpoint : isTrimmed (CodePoint.ofChar '.') = true := by
    decide
  rcases Nat.lt_trichotomy name.length 99 with hlt | heq | hgt
  . have ⟨k, hk⟩ : ∃ k, 100 - name.length = k + 2 := ⟨98 - name.length, by omega⟩
    have htake : (name ++ py "." ++ extension).take 100 = (name ++ py ".") ++ extension.take (k + 1) := by
      rw [List.append_assoc, List.take_append, List.take_of_length_le (by omega), hk, List.append_assoc]
      rfl
    have hne : extension.take (k + 1) ≠ [] := by
      simp [hext.ne_nil]
    rw [htake]
    refine iff_of_true (rstripOf_append hne fun c hc => ?_) (by omega)
    exact hext.untrimmed c (List.mem_of_mem_take hc)
  . have htake : (name ++ py "." ++ extension).take 100 = name ++ [CodePoint.ofChar '.'] := by
      have hone : (100 : Nat) = name.length + 1 := by omega
      rw [List.append_assoc, hone, List.take_length_add_append]
      rfl
    rw [htake]
    refine iff_of_false ?_ (by omega)
    unfold rstripOf
    rw [List.rdropWhile_concat_pos _ _ _ hpoint]
    intro hself
    have hshort := length_rstripOf_le isTrimmed name
    have := congrArg List.length hself
    unfold rstripOf at hshort
    simp only [List.length_append, List.length_singleton] at this
    omega
  . have htake : (name ++ py "." ++ extension).take 100 = name := by
      rw [List.append_assoc, List.take_append_of_le_length (by omega), List.take_of_length_le (by omega)]
    rw [htake]
    exact iff_of_true h.last (by omega)

end Names

section Keys

variable {filename : Option PyStr} {assetId : Uuid} {extension : PyStr}

theorem assetName_assetFilename (hext : Extension extension)
    : AssetName (assetFilename filename assetId extension) := by
  have hname : AssetName (safeAssetFilename (filename.getD []) (assetId.str ++ py "." ++ extension)) :=
    assetName_safeAssetFilename ((assetName_str assetId).append hext)
  unfold assetFilename
  dsimp only
  split
  . exact hname.append hext
  . exact hname

/--
A reader that cleans the stored name again gets the key of the upload, if and only if the key does not end in
the point before the extension.
-/
theorem requestedKey_eq_iff (hext : Extension extension) (context : DocumentAssetContext)
    : requestedKey context assetId (assetFilename filename assetId extension)
          = documentAssetKey context assetId (assetFilename filename assetId extension)
        ↔ ¬ EndsInPoint (filename.getD []) := by
  have hstored : AssetName (assetFilename filename assetId extension) := assetName_assetFilename hext
  have hclean : AssetName (safeAssetFilename (filename.getD []) (assetId.str ++ py "." ++ extension)) :=
    assetName_safeAssetFilename ((assetName_str assetId).append hext)
  have hlen : (safeAssetFilename (filename.getD []) (assetId.str ++ py "." ++ extension)).length ≤ 100 := by
    apply length_safeAssetFilename_le
    have := hext.length_le
    simp only [List.length_append, length_str]
    show 36 + 1 + extension.length ≤ 100
    omega
  have hread : AssetName (safeAssetFilename (assetFilename filename assetId extension) assetId.str) :=
    assetName_safeAssetFilename (assetName_str assetId)
  unfold requestedKey documentAssetKey
  rw [List.append_cancel_left_eq, sanitiseFilename_eq_take hread.ne_nil hread.safe,
    sanitiseFilename_eq_take hstored.ne_nil hstored.safe, hstored.safeAssetFilename_eq,
    List.take_of_length_le ((length_rstripOf_le _ _).trans (List.length_take_le _ _))]
  rw [endsInPoint_iff (show CodePoint.ofChar '.' ∈ assetId.str ++ py "." ++ extension by simp [py])]
  unfold assetFilename
  dsimp only
  split
  . next hpoint => rw [rstripOf_take_iff hclean hlen hext]; tauto
  . next hpoint =>
    rw [List.take_of_length_le hlen]
    exact iff_of_true hclean.last (by tauto)

end Keys

section Urls

theorem readLiteral_append (literal rest : PyStr) : readLiteral literal (literal ++ rest) = some rest := by
  unfold readLiteral
  rw [if_pos (List.isPrefixOf_iff_prefix.mpr (List.prefix_append literal rest)), List.drop_left]

theorem readId_str (u : Uuid) (rest : PyStr) : readId (u.str ++ rest) = some (u.str, rest) := by
  have htake : (u.str ++ rest).take 36 = u.str := by
    rw [← length_str u, List.take_left]
  have hdrop : (u.str ++ rest).drop 36 = rest := by
    rw [← length_str u, List.drop_left]
  unfold readId
  have hid : u.str.all isIdChar = true := by
    rw [List.all_eq_true]
    exact fun c hc => isIdChar_of_mem_hex (Uuid.mem_str hc)
  rw [htake, hdrop, if_pos ⟨length_str u, hid⟩]

theorem AssetName.notMem {name : PyStr} (h : AssetName name) {c : CodePoint} (hc : isSafe c = false)
    : c ∉ name := by
  intro hmem
  simp [h.safe c hmem] at hc

theorem matchAssetUrl_assetUrl {filename : PyStr} (h : AssetName filename) (documentId assetId : Uuid)
    : matchAssetUrl (assetUrl documentId assetId filename) = some ⟨documentId.str, assetId.str, filename⟩ := by
  have hslash : CodePoint.ofChar '/' ∉ filename := h.notMem (by decide)
  unfold matchAssetUrl assetUrl
  simp only [List.append_assoc, Option.bind_eq_bind, readLiteral_append, Option.bind_some, readId_str]
  rw [if_neg]
  simp [h.ne_nil, hslash]

/--
A path is neither a scheme nor a network location.
-/
theorem urlparse_path {netlocOk : PyStr → Bool} (hnetloc : netlocOk [] = true) (rest : PyStr)
    : ∃ path, urlparse netlocOk (py "/api/documents/" ++ rest) = some ⟨[], [], path⟩ := by
  have hslash : isAsciiLetter (CodePoint.ofChar '/') = false := by
    decide
  have hkept : (py "/api/documents/").filter (· ∉ py "\t\r\n") = py "/api/documents/" := by
    decide
  have hstart : lstripOf (·.val ≤ 0x20) (py "/api/documents/" ++ rest) = py "/api/documents/" ++ rest :=
    rfl
  have hscheme (rest : PyStr)
      : splitScheme (py "/api/documents/" ++ rest) = ([], py "/api/documents/" ++ rest) := by
    have hbefore : (py "/api/documents/" ++ rest).takeWhile (· ≠ CodePoint.ofChar ':')
        = CodePoint.ofChar '/' :: (py "api/documents/" ++ rest).takeWhile (· ≠ CodePoint.ofChar ':') :=
      rfl
    unfold splitScheme
    rw [hbefore]
    dsimp only
    rw [if_neg]
    simp [hslash]
  have hlocation (rest : PyStr)
      : splitNetloc (py "/api/documents/" ++ rest) = ([], py "/api/documents/" ++ rest) := by
    have htwo : (py "/api/documents/" ++ rest).take 2 ≠ py "//" := by
      show py "/a" ≠ py "//"
      decide
    unfold splitNetloc
    rw [if_neg htwo]
  unfold urlparse
  rw [hstart, List.filter_append, hkept]
  dsimp only
  rw [hscheme, hlocation]
  dsimp only
  rw [if_pos hnetloc]
  exact ⟨_, rfl⟩

theorem documentAssetKeyFromSrc_assetUrl {netlocOk : PyStr → Bool} (hnetloc : netlocOk [] = true)
    {filename : PyStr} (h : AssetName filename) (context : DocumentAssetContext) (assetId : Uuid)
    : documentAssetKeyFromSrc netlocOk (some (assetUrl context.documentId assetId filename)) (some context)
        = .ok (some (requestedKey context assetId filename)) := by
  have hne : (assetUrl context.documentId assetId filename).isEmpty = false := by
    rfl
  have hpercent : CodePoint.ofChar '%' ∉ filename := h.notMem (by decide)
  have hmatch := matchAssetUrl_assetUrl h context.documentId assetId
  have ⟨path, hparsed⟩ := urlparse_path hnetloc
    (context.documentId.str ++ py "/assets/" ++ assetId.str ++ py "/" ++ filename)
  have hurl : py "/api/documents/" ++ (context.documentId.str ++ py "/assets/" ++ assetId.str ++ py "/" ++ filename)
      = assetUrl context.documentId assetId filename := by
    simp [assetUrl]
  rw [hurl] at hparsed
  unfold documentAssetKeyFromSrc
  dsimp only
  rw [hne, if_neg Bool.false_ne_true, hparsed]
  simp [hmatch, Uuid.ofText?_str, unquote, hpercent, requestedKey]

theorem str_inj {u v : Uuid} (h : u.str = v.str) : u = v := by
  have := congrArg Uuid.ofText? h
  rwa [Uuid.ofText?_str, Uuid.ofText?_str, Option.some.injEq] at this

/--
A URL says which asset it stands for.
-/
theorem assetUrl_inj {documentId assetId otherDocument otherAsset : Uuid} {filename other : PyStr}
    (h : assetUrl documentId assetId filename = assetUrl otherDocument otherAsset other)
    : documentId = otherDocument ∧ assetId = otherAsset ∧ filename = other := by
  unfold assetUrl at h
  simp only [List.append_assoc] at h
  have ⟨hdocument, hrest⟩ := List.append_inj (List.append_cancel_left h) (by simp [length_str])
  have ⟨hasset, hname⟩ := List.append_inj (List.append_cancel_left hrest) (by simp [length_str])
  exact ⟨str_inj hdocument, str_inj hasset, List.append_cancel_left hname⟩

end Urls

section RoundTrip

variable {sha256 : Bytes → PyStr} {put : PyStr → Option StorageFailure} {context : DocumentAssetContext}
variable {assetId : Uuid} {file : UploadFile} {stored : StoredAsset}

/--
Both readers of an asset's URL compute the key that the upload wrote to.
-/
structure RoundTrips (netlocOk : PyStr → Bool) (context : DocumentAssetContext) (stored : StoredAsset)
    : Prop where
  served : ∀ documentId assetId filename, stored.read.url = assetUrl documentId assetId filename
    → documentId = context.documentId ∧ requestedKey context assetId filename = stored.key
  rendered : documentAssetKeyFromSrc netlocOk (some stored.read.url) (some context) = .ok (some stored.key)

theorem of_postDocumentAsset (h : postDocumentAsset sha256 put context assetId file = .ok stored)
    : ∃ extension, Extension extension
        ∧ stored.key = documentAssetKey context assetId (assetFilename file.filename assetId extension)
        ∧ stored.data = file.data
        ∧ stored.read.url
          = assetUrl context.documentId assetId (assetFilename file.filename assetId extension) := by
  unfold postDocumentAsset at h
  dsimp only at h
  split at h
  . contradiction
  . next extension hlookup =>
    refine ⟨extension, extension_of_lookup hlookup, ?_⟩
    split at h
    . contradiction
    split at h
    . contradiction
    split at h
    . contradiction
    . rw [← Except.ok.inj h]
      exact ⟨rfl, rfl, rfl⟩

/--
An image whose names round trip is served as long as its object is there.
-/
theorem RoundTrips.getDocumentAsset {netlocOk : PyStr → Bool} (h : RoundTrips netlocOk context stored)
    {lower : PyStr → PyStr} {get : PyStr → Except (Option StorageFailure) Bytes}
    (hget : get stored.key = .ok stored.data) {documentId assetId : Uuid} {filename : PyStr}
    (hurl : stored.read.url = assetUrl documentId assetId filename)
    : ∃ mimeType, getDocumentAsset lower get context assetId filename = .ok (stored.data, mimeType) := by
  have hkey := (h.served documentId assetId filename hurl).right
  unfold DocumentRoutes.getDocumentAsset
  dsimp only
  rw [hkey, hget]
  exact ⟨_, rfl⟩

/--
The names of an uploaded image round trip, if and only if its cleaned filename does not have exactly 99
characters without a point.
-/
theorem roundTrips_iff {netlocOk : PyStr → Bool} (hnetloc : netlocOk [] = true)
    (h : postDocumentAsset sha256 put context assetId file = .ok stored)
    : RoundTrips netlocOk context stored ↔ ¬ EndsInPoint (file.filename.getD []) := by
  have ⟨extension, hext, hkey, _, hurl⟩ := of_postDocumentAsset h
  have hname : AssetName (assetFilename file.filename assetId extension) := assetName_assetFilename hext
  have hrendered := documentAssetKeyFromSrc_assetUrl hnetloc hname context assetId
  have hkeys : requestedKey context assetId (assetFilename file.filename assetId extension)
        = documentAssetKey context assetId (assetFilename file.filename assetId extension)
      ↔ ¬ EndsInPoint (file.filename.getD []) := requestedKey_eq_iff hext context
  rw [← hkeys]
  constructor
  . intro hround
    have hserved := (hround.served _ _ _ hurl).right
    rw [hserved, hkey]
  . intro hsame
    refine ⟨fun documentId asset filename heq => ?_, ?_⟩
    . rw [hurl] at heq
      have ⟨hdocument, hasset, hfilename⟩ := assetUrl_inj heq
      rw [← hdocument, ← hasset, ← hfilename, hkey]
      exact ⟨rfl, hsame⟩
    . rw [hurl, hrendered, hsame, hkey]

end RoundTrip

section Examples

def plainContext : DocumentAssetContext :=
  ⟨Uuid.ofNat 1, Uuid.ofNat 2, Uuid.ofNat 3⟩

def pngNamed (filename : PyStr) : UploadFile :=
  ⟨some filename, some (py "image/png"), [⟨1, by decide⟩]⟩

theorem roundTrips_iff_photo
    : ∃ stored, postDocumentAsset (fun _ => py "00") (fun _ => none) plainContext (Uuid.ofNat 4)
          (pngNamed (py "photo.png")) = .ok stored
        ∧ (RoundTrips (fun _ => true) plainContext stored
          ↔ ¬ EndsInPoint ((pngNamed (py "photo.png")).filename.getD [])) := by
  have ⟨stored, hstored⟩ : ∃ stored, postDocumentAsset (fun _ => py "00") (fun _ => none) plainContext
      (Uuid.ofNat 4) (pngNamed (py "photo.png")) = .ok stored := ⟨_, rfl⟩
  exact ⟨stored, hstored, roundTrips_iff rfl hstored⟩

/--
A filename of 99 letters. Its object is written to a key that ends in a point, which both readers trim.
-/
theorem longName_not_roundTrips
    : ∃ stored, postDocumentAsset (fun _ => py "00") (fun _ => none) plainContext (Uuid.ofNat 4)
          (pngNamed (List.replicate 99 (CodePoint.ofChar 'a'))) = .ok stored
        ∧ requestedKey plainContext stored.read.id stored.read.filename ≠ stored.key
        ∧ ¬ RoundTrips (fun _ => true) plainContext stored := by
  refine ⟨_, rfl, by decide +kernel, fun h => ?_⟩
  have hserved := (h.served _ _ _ rfl).right
  revert hserved
  decide +kernel

end Examples

end DocumentRoutes
