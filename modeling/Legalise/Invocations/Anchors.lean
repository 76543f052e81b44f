import Legalise.Invocations.PromptRuntime
import Legalise.Lib.Except
import Legalise.Python.JsonFault
import Legalise.SourceAnchors.QuoteCheck

/-!
This module contains what a prompt module makes of a reply: the answer, the anchors of the documents that were loaded,
and the claims that the reply makes about them.
-/

namespace Invocations

open JsonText (Limits openBrace closeBrace rawDecode)
open PyStr (find lstripOf isSpace strip)
open SourceAnchors (quoteFoundInSource)

inductive ReplyError where
  | json (fault : JsonText.Fault)
  | typeError
  | unicodeEncodeError
  deriving DecidableEq

structure SourceAnchor where
  id : PyStr
  sourceType : PyStr
  documentId : PyStr
  filename : PyStr
  sha256 : PyStr
  bodySha256 : PyStr
  label : PyStr
  quote : Option PyStr
  page : Option Nat
  quoteFoundInSource : Option Bool
  deriving DecidableEq

/--
A claim of the reply, mapped to anchors.
-/
structure AnchoredClaim where
  id : PyStr
  text : PyStr
  anchorIds : List PyStr
  deriving DecidableEq

section Fences

def fence : PyStr :=
  py "```"

/--
The text after `(?:json)?`, in any case. The long s is a lower case of `S` for the regular expression.
-/
def afterLanguage : PyStr → PyStr
  | j :: s :: o :: n :: rest =>
    if (j ∈ py "jJ" ∧ (s ∈ py "sS" ∨ s = 0x17f)) ∧ o ∈ py "oO" ∧ n ∈ py "nN" then rest else j :: s :: o :: n :: rest
  | rest => rest

/--
The length of the shortest text that ends with a brace before a fence.
-/
def fencedLength : PyStr → Option Nat
  | [] => none
  | c :: s =>
    if c = closeBrace ∧ fence.isPrefixOf (lstripOf isSpace s) then some 1 else (fencedLength s).map (· + 1)

/--
A match of `_JSON_FENCE_RE` at the front: its group, and the text after it.
-/
def matchFence (s : PyStr) : Option (PyStr × PyStr) :=
  if fence.isPrefixOf s then
    match lstripOf isSpace (afterLanguage (s.drop fence.length)) with
    | [] => none
    | c :: body =>
      if c = openBrace then
        (fencedLength body).map fun n => (c :: body.take n, (lstripOf isSpace (body.drop n)).drop fence.length)
      else none
  else none

/--
The groups of `_JSON_FENCE_RE.finditer(text)`. The fuel bounds the positions.
-/
def fencedObjects : Nat → PyStr → List PyStr
  | 0, _ => []
  | _ + 1, [] => []
  | fuel + 1, c :: s =>
    match matchFence (c :: s) with
    | some (group, rest) => group :: fencedObjects fuel rest
    | none => fencedObjects fuel s

end Fences

section Reply

variable (limits : Limits) (parseFloat : PyStr → PyFloat)

/--
The places of a reply where an envelope may begin.
-/
def candidates (text : PyStr) : List PyStr :=
  let stripped := strip text
  let leads := [openBrace].isPrefixOf stripped
  (if leads then [stripped] else []) ++ (fencedObjects text.length text).map strip
    ++ (match find [openBrace] text 0 with
      | some i => if leads then [] else [text.drop i]
      | none => [])

/--
A dictionary with a string `output`.
-/
def envelope? : Json → Option (Dict × PyStr)
  | .dict data =>
    match Dict.get data (py "output") with
    | .str output => some (data, output)
    | _ => none
  | _ => none

/--
The loop of `_extract_json_envelope`
-/
def firstEnvelope : List PyStr → Except JsonText.Fault (Option (Dict × PyStr))
  | [] => .ok none
  | candidate :: rest =>
    match rawDecode limits parseFloat candidate with
    | .error .jsonDecodeError => firstEnvelope rest
    | .error fault => .error fault
    | .ok (data, _) =>
      match envelope? data with
      | some envelope => .ok (some envelope)
      | none => firstEnvelope rest

def extractJsonEnvelope (text : PyStr) : Except JsonText.Fault (Option (Dict × PyStr)) :=
  firstEnvelope limits parseFloat (candidates text)

def claimsOf (data : Dict) : List Json :=
  match data.get (py "claims") with
  | .list claims => claims
  | _ => []

def parseModelOutput (text : PyStr) : Except JsonText.Fault (PyStr × List Json) := do
  match ← extractJsonEnvelope limits parseFloat text with
  | some (data, output) => return (output, claimsOf data)
  | none => return (text, [])

end Reply

section Anchors

variable (R : PyRepr) (H : Sha256) (lower : PyStr → PyStr)

def bodySha256 (bodyText : PyStr) : Except ReplyError PyStr :=
  if Utf8Encodable bodyText then .ok (H.hexdigest bodyText) else .error .unicodeEncodeError

def documentLabel (filename : PyStr) : PyStr :=
  py "Document · " ++ filename

def buildDocumentAnchor (anchorId : PyStr) (d : DocumentBlock) (quote : Option PyStr)
    : Except ReplyError SourceAnchor := do
  let digest ← bodySha256 H d.bodyText
  return {
    id := anchorId
    sourceType := py "document"
    documentId := d.documentId
    filename := d.filename
    sha256 := d.sha256
    bodySha256 := digest
    label := documentLabel d.filename
    quote := quote
    page := none
    quoteFoundInSource := quote.map fun quote => quoteFoundInSource lower quote d.bodyText
  }

def anchorId (d : DocumentBlock) : PyStr :=
  py "src_" ++ lower d.handle

def quoteAnchorId (quoteN : Nat) : PyStr :=
  py "src_q" ++ pyNat quoteN

/--
`handle_to_doc`, in which a later document replaces an earlier one with the same handle.
-/
def handleToDoc (blocks : List DocumentBlock) (handle : PyStr) : Option DocumentBlock :=
  blocks.reverse.find? (·.handle = handle)

/--
The documents of the handles that are known. A list and a dictionary have no hash.
-/
def knownDocuments (blocks : List DocumentBlock) : List Json → Except ReplyError (List DocumentBlock)
  | [] => .ok []
  | .list _ :: _ => .error .typeError
  | .dict _ :: _ => .error .typeError
  | .str handle :: rest => do
    let documents ← knownDocuments blocks rest
    return (handleToDoc blocks handle).toList ++ documents
  | _ :: rest => knownDocuments blocks rest

/--
The items of `raw.get("source_handles") or []`
-/
def sourceHandles (raw : Dict) : Except ReplyError (List Json) :=
  if (raw.get (py "source_handles")).truthy then
    match (raw.get (py "source_handles")).iter with
    | .ok items => .ok items
    | .error _ => .error .typeError
  else .ok []

/--
The loop over the claims of the reply, with the number of the claim and of the quotes so far.
-/
def anchorClaims (blocks : List DocumentBlock)
    : Nat → Nat → List Json → Except ReplyError (List SourceAnchor × List AnchoredClaim)
  | _, _, [] => .ok ([], [])
  | idx, quoteN, .dict raw :: rest =>
    let text := strip ((Dict.getD raw (py "text") (.str [])).toStr R)
    if text = [] then anchorClaims blocks (idx + 1) quoteN rest
    else do
      let handles ← sourceHandles raw
      let documents ← knownDocuments blocks handles
      let quote := Dict.get raw (py "quote")
      match (if quote.truthy then documents.head? else none) with
      | some d =>
        let anchor ← buildDocumentAnchor H lower (quoteAnchorId (quoteN + 1)) d (some (quote.toStr R))
        let (anchors, claims) ← anchorClaims blocks (idx + 1) (quoteN + 1) rest
        return (anchor :: anchors, ⟨py "claim_" ++ pyNat idx, text,
          documents.map (anchorId lower) ++ [quoteAnchorId (quoteN + 1)]⟩ :: claims)
      | none =>
        let (anchors, claims) ← anchorClaims blocks (idx + 1) quoteN rest
        return (anchors, ⟨py "claim_" ++ pyNat idx, text, documents.map (anchorId lower)⟩ :: claims)
  | idx, quoteN, _ :: rest => anchorClaims blocks (idx + 1) quoteN rest

def buildSourceAnchors (blocks : List DocumentBlock) (modelClaims : List Json)
    : Except ReplyError (List SourceAnchor × List AnchoredClaim) := do
  let anchors ← blocks.mapM fun d => buildDocumentAnchor H lower (anchorId lower d) d none
  let (quotes, claims) ← anchorClaims R H lower blocks 1 0 modelClaims
  return (anchors ++ quotes, claims)

end Anchors

/--
What an invocation makes of the reply.
-/
structure AnchoredReply where
  outputText : PyStr
  sourceAnchors : List SourceAnchor
  claims : List AnchoredClaim
  deriving DecidableEq

def readReply (limits : Limits) (parseFloat : PyStr → PyFloat) (R : PyRepr) (H : Sha256) (lower : PyStr → PyStr)
    (text : PyStr) (blocks : List DocumentBlock) : Except ReplyError AnchoredReply := do
  let (outputText, modelClaims) ← (parseModelOutput limits parseFloat text).mapError .json
  let (anchors, claims) ← buildSourceAnchors R H lower blocks modelClaims
  return ⟨outputText, anchors, claims⟩

section Condition

variable (limits : Limits) (parseFloat : PyStr → PyFloat) (R : PyRepr)

def IsHashable : Json → Prop
  | .list _ => False
  | .dict _ => False
  | _ => True

/--
The value can be read as handles: it is empty, or a `for` loop and `in` accept it.
-/
def ListsHandles (handles : Json) : Prop :=
  match handles with
  | .list items => ∀ item ∈ items, IsHashable item
  | .str _ => True
  | .dict _ => True
  | handles => handles.truthy = false

/--
A claim with a text lists its handles.
-/
def ClaimReads (claim : Json) : Prop :=
  ∀ raw : Dict, claim = .dict raw → strip ((raw.getD (py "text") (.str [])).toStr R) ≠ []
    → ListsHandles (raw.get (py "source_handles"))

/--
The loop goes on after a candidate.
-/
def Passed (candidate : PyStr) : Prop :=
  rawDecode limits parseFloat candidate = .error .jsonDecodeError
    ∨ ∃ data rest, rawDecode limits parseFloat candidate = .ok (data, rest) ∧ envelope? data = none

/--
A candidate stays within the limits of the interpreter, and the claims of its envelope can be read.
-/
structure Safe (candidate : PyStr) : Prop where
  within : ∀ fault, rawDecode limits parseFloat candidate = .error fault → fault = .jsonDecodeError
  reads : ∀ data rest d output, rawDecode limits parseFloat candidate = .ok (data, rest)
    → envelope? data = some (d, output) → ∀ claim ∈ claimsOf d, ClaimReads R claim

/--
Every candidate that the loop reaches is safe.
-/
def SafeReply (text : PyStr) : Prop :=
  ∀ before candidate after, candidates text = before ++ candidate :: after
    → (∀ earlier ∈ before, Passed limits parseFloat earlier) → Safe limits parseFloat R candidate

/--
The blocks of loaded documents: their handles are different, and their texts come from the database.
-/
structure LoadedBlocks (blocks : List DocumentBlock) : Prop where
  handles : ∃ ns : List Nat, ns.Nodup ∧ blocks.map (·.handle) = ns.map fun n => py "D" ++ pyNat n
  encodable : ∀ d ∈ blocks, Utf8Encodable d.bodyText

/--
`str.lower` on ASCII.
-/
def LowersAscii (lower : PyStr → PyStr) : Prop :=
  ∀ s : PyStr, (∀ c ∈ s, c.val < 0x80) → lower s = s.map Web.lowerAscii

/--
The anchor has the identity of a document.
-/
structure SourceAnchor.Of (H : Sha256) (anchor : SourceAnchor) (d : DocumentBlock) : Prop where
  documentId : anchor.documentId = d.documentId
  filename : anchor.filename = d.filename
  sha256 : anchor.sha256 = d.sha256
  bodySha256 : anchor.bodySha256 = H.hexdigest d.bodyText

/--
The reply is kept, and what it cites are the documents that were loaded.
-/
structure Anchored (H : Sha256) (text : PyStr) (blocks : List DocumentBlock) (reply : AnchoredReply) : Prop where
  output : reply.outputText = text
    ∨ ∃ part data rest, part <:+: text ∧ rawDecode limits parseFloat part = .ok (.dict data, rest)
      ∧ Dict.get data (py "output") = .str reply.outputText
  documents : ∃ anchors quotes, reply.sourceAnchors = anchors ++ quotes
    ∧ List.Forall₂ (fun (anchor : SourceAnchor) d => anchor.Of H d ∧ anchor.quote = none) anchors blocks
    ∧ ∀ anchor ∈ quotes, anchor.quote ≠ none
  distinct : (reply.sourceAnchors.map (·.id)).Nodup
  identity : ∀ anchor ∈ reply.sourceAnchors, ∃ d ∈ blocks, anchor.Of H d
  cites : ∀ claim ∈ reply.claims, ∀ id ∈ claim.anchorIds, id ∈ reply.sourceAnchors.map (·.id)

end Condition

section Envelope

variable {limits : Limits} {parseFloat : PyStr → PyFloat} {R : PyRepr} {text : PyStr}

/--
How the loop over the candidates ends: at a fault, at an envelope, or at the end.
-/
inductive Ends (cs : List PyStr) : Except JsonText.Fault (Option (Dict × PyStr)) → Prop
  | fault {before after : List PyStr} {c : PyStr} {fault : JsonText.Fault} (hcs : cs = before ++ c :: after)
      (hbefore : ∀ earlier ∈ before, Passed limits parseFloat earlier)
      (hdecode : rawDecode limits parseFloat c = .error fault) (hfault : fault ≠ .jsonDecodeError)
      : Ends cs (.error fault)
  | envelope {before after : List PyStr} {c rest : PyStr} {data : Json} {envelope : Dict × PyStr}
      (hcs : cs = before ++ c :: after) (hbefore : ∀ earlier ∈ before, Passed limits parseFloat earlier)
      (hdecode : rawDecode limits parseFloat c = .ok (data, rest)) (hdata : envelope? data = some envelope)
      : Ends cs (.ok (some envelope))
  | none (hcs : ∀ c ∈ cs, Passed limits parseFloat c) : Ends cs (.ok none)

theorem Ends.cons {cs : List PyStr} {c : PyStr} {result : Except JsonText.Fault (Option (Dict × PyStr))}
    (hc : Passed limits parseFloat c) (h : @Ends limits parseFloat cs result)
    : @Ends limits parseFloat (c :: cs) result := by
  cases h with
  | fault hcs hbefore hdecode hfault =>
    exact .fault (by rw [hcs, List.cons_append]) (List.forall_mem_cons.mpr ⟨hc, hbefore⟩) hdecode hfault
  | envelope hcs hbefore hdecode hdata =>
    exact .envelope (by rw [hcs, List.cons_append]) (List.forall_mem_cons.mpr ⟨hc, hbefore⟩) hdecode hdata
  | none hcs => exact .none (List.forall_mem_cons.mpr ⟨hc, hcs⟩)

theorem ends_firstEnvelope (cs : List PyStr)
    : @Ends limits parseFloat cs (firstEnvelope limits parseFloat cs) := by
  induction cs with
  | nil => exact .none (by simp)
  | cons c cs ih =>
    unfold firstEnvelope
    split
    . next hdecode => exact .cons (.inl hdecode) ih
    . next fault hfault hdecode => exact .fault (List.nil_append _).symm (by simp) hdecode hfault
    . next data rest hdecode =>
      split
      . next envelope hdata => exact .envelope (List.nil_append _).symm (by simp) hdecode hdata
      . next hdata => exact .cons (.inr ⟨data, rest, hdecode, hdata⟩) ih

/--
The envelope is a dictionary with the string as its `output`.
-/
theorem envelope?_eq_some {data : Json} {d : Dict} {output : PyStr} (h : envelope? data = some (d, output))
    : data = .dict d ∧ d.get (py "output") = .str output := by
  unfold envelope? at h
  split at h
  . next data =>
    split at h
    . next output' houtput =>
      cases h
      exact ⟨rfl, houtput⟩
    . contradiction
  . contradiction

theorem afterLanguage_suffix (s : PyStr) : afterLanguage s <:+ s := by
  unfold afterLanguage
  split
  . next j s o n rest =>
    split
    . exact ⟨[j, s, o, n], rfl⟩
    . exact List.suffix_refl _
  . exact List.suffix_refl _

theorem matchFence_eq_some {s group rest : PyStr} (h : matchFence s = some (group, rest))
    : group <:+: s ∧ rest <:+ s := by
  unfold matchFence at h
  split at h
  . split at h
    . contradiction
    . next c body hbody =>
      have hsuffix : c :: body <:+ s := by
        rw [← hbody]
        exact (List.dropWhile_suffix _).trans ((afterLanguage_suffix _).trans (List.drop_suffix _ _))
      split at h
      . rw [Option.map_eq_some_iff] at h
        obtain ⟨n, _, heq⟩ := h
        cases heq
        refine ⟨?_, ?_⟩
        . have htake : c :: body.take n = (c :: body).take (n + 1) := rfl
          rw [htake]
          exact (List.take_prefix _ _).isInfix.trans hsuffix.isInfix
        . refine (List.drop_suffix _ _).trans ((List.dropWhile_suffix _).trans ((List.drop_suffix _ _).trans ?_))
          exact (List.suffix_cons c body).trans hsuffix
      . contradiction
  . contradiction

theorem infix_of_mem_fencedObjects {fuel : Nat} {s group : PyStr} (h : group ∈ fencedObjects fuel s)
    : group <:+: s := by
  induction fuel generalizing s with
  | zero => cases h
  | succ fuel ih =>
    cases s with
    | nil => cases h
    | cons c s =>
      unfold fencedObjects at h
      split at h
      . next group' rest hmatch =>
        have ⟨hgroup, hrest⟩ := matchFence_eq_some hmatch
        rcases List.mem_cons.mp h with heq | hmem
        . rw [heq]
          exact hgroup
        . exact (ih hmem).trans hrest.isInfix
      . exact (ih h).trans (List.suffix_cons c s).isInfix

theorem infix_strip (s : PyStr) : strip s <:+: s :=
  (List.rdropWhile_prefix _ _).isInfix.trans (List.dropWhile_suffix _).isInfix

theorem infix_of_mem_candidates {c : PyStr} (h : c ∈ candidates text) : c <:+: text := by
  unfold candidates at h
  dsimp only at h
  rw [List.mem_append, List.mem_append, List.mem_map] at h
  rcases h with (hstripped | ⟨group, hgroup, heq⟩) | hbrace
  . split at hstripped
    . rw [List.mem_singleton.mp hstripped]
      exact infix_strip text
    . cases hstripped
  . rw [← heq]
    exact (infix_strip group).trans (infix_of_mem_fencedObjects hgroup)
  . split at hbrace
    . split at hbrace
      . cases hbrace
      . rw [List.mem_singleton.mp hbrace]
        exact (List.drop_suffix _ _).isInfix
    . cases hbrace

end Envelope

section Claims

variable {R : PyRepr} {H : Sha256} {lower : PyStr → PyStr} {blocks : List DocumentBlock}

theorem ok_bind {α β : Type} (a : α) (f : α → Except ReplyError β) : Except.ok a >>= f = f a :=
  rfl

theorem knownDocuments_isOk_iff (items : List Json)
    : (∃ documents, knownDocuments blocks items = .ok documents)
        ↔
      ∀ item ∈ items, IsHashable item := by
  induction items with
  | nil => simp [knownDocuments]
  | cons item items ih =>
    rw [List.forall_mem_cons, ← ih]
    cases item with
    | list items => simp [knownDocuments, IsHashable]
    | dict items => simp [knownDocuments, IsHashable]
    | str handle => simp [knownDocuments, IsHashable, -bind_pure_comp]
    | null => simp [knownDocuments, IsHashable]
    | bool b => simp [knownDocuments, IsHashable]
    | int n => simp [knownDocuments, IsHashable]
    | float x => simp [knownDocuments, IsHashable]

theorem mem_of_handleToDoc {handle : PyStr} {d : DocumentBlock} (h : handleToDoc blocks handle = some d)
    : d ∈ blocks :=
  List.mem_reverse.mp (List.mem_of_find?_eq_some h)

theorem subset_of_knownDocuments {items : List Json} {documents : List DocumentBlock}
    (h : knownDocuments blocks items = .ok documents) : documents ⊆ blocks := by
  induction items generalizing documents with
  | nil =>
    cases h
    exact List.nil_subset _
  | cons item items ih =>
    cases item with
    | list items => cases h
    | dict items => cases h
    | str handle =>
      simp only [knownDocuments, Except.bind_eq_ok_iff, Except.pure_eq_ok_iff] at h
      obtain ⟨others, hothers, heq⟩ := h
      rw [← heq, List.append_subset]
      refine ⟨fun d hd => ?_, ih hothers⟩
      exact mem_of_handleToDoc (Option.mem_toList.mp hd)
    | null => exact ih h
    | bool b => exact ih h
    | int n => exact ih h
    | float x => exact ih h

/--
The handles of a claim are read exactly if they are listed.
-/
theorem sourceHandles_isOk_iff (raw : Dict)
    : (∃ handles documents, sourceHandles raw = .ok handles ∧ knownDocuments blocks handles = .ok documents)
        ↔
      ListsHandles (raw.get (py "source_handles")) := by
  have hsplit : (∃ handles documents, sourceHandles raw = .ok handles ∧ knownDocuments blocks handles = .ok documents)
      ↔ ∃ handles, sourceHandles raw = .ok handles ∧ ∀ item ∈ handles, IsHashable item := by
    refine exists_congr fun handles => ?_
    rw [← @knownDocuments_isOk_iff blocks, exists_and_left]
  rw [hsplit]
  unfold sourceHandles
  cases raw.get (py "source_handles") with
  | null => simp [ListsHandles, Json.truthy]
  | bool b => cases b <;> simp [ListsHandles, Json.truthy, Json.iter]
  | int n => by_cases hn : n = 0 <;> simp [ListsHandles, Json.truthy, Json.iter, hn]
  | float x => by_cases hx : x.value? = some 0 <;> simp [ListsHandles, Json.truthy, Json.iter, hx]
  | str s => cases s <;> simp [ListsHandles, Json.truthy, Json.iter, IsHashable]
  | list items => cases items <;> simp [ListsHandles, Json.truthy, Json.iter]
  | dict items =>
    cases items with
    | nil => simp [ListsHandles, Json.truthy]
    | cons item items =>
      have hkeys : ∀ v ∈ (item :: items).map fun item => Json.str item.fst, IsHashable v := by
        intro v hv
        obtain ⟨_, _, heq⟩ := List.mem_map.mp hv
        rw [← heq]
        trivial
      simp only [ListsHandles, Json.truthy, Json.iter, iff_true]
      exact ⟨_, rfl, hkeys⟩

theorem buildDocumentAnchor_of_encodable {d : DocumentBlock} (h : Utf8Encodable d.bodyText) (id : PyStr)
    (quote : Option PyStr)
    : ∃ anchor, buildDocumentAnchor H lower id d quote = .ok anchor ∧ anchor.id = id ∧ anchor.quote = quote
        ∧ anchor.Of H d := by
  unfold buildDocumentAnchor bodySha256
  rw [if_pos h]
  exact ⟨_, rfl, rfl, rfl, rfl, rfl, rfl, rfl⟩

/--
What the loop over the claims makes: anchors that are numbered on, and claims that cite these and the documents.
-/
structure Made (H : Sha256) (lower : PyStr → PyStr) (blocks : List DocumentBlock) (quoteN : Nat)
    (anchors : List SourceAnchor) (claims : List AnchoredClaim) : Prop where
  ids : anchors.map (·.id) = (List.range' (quoteN + 1) anchors.length).map quoteAnchorId
  quotes : ∀ anchor ∈ anchors, anchor.quote ≠ none ∧ ∃ d ∈ blocks, anchor.Of H d
  cites : ∀ claim ∈ claims, ∀ id ∈ claim.anchorIds,
    id ∈ blocks.map (anchorId lower) ∨ id ∈ anchors.map (·.id)

theorem made_nil (quoteN : Nat) : Made H lower blocks quoteN [] [] :=
  ⟨rfl, by simp, by simp⟩

variable {quoteN : Nat} {anchors : List SourceAnchor} {claims : List AnchoredClaim}

/--
A claim without a quote.
-/
theorem Made.claim (h : Made H lower blocks quoteN anchors claims) {documents : List DocumentBlock}
    (hdocuments : documents ⊆ blocks) (id text : PyStr)
    : Made H lower blocks quoteN anchors (⟨id, text, documents.map (anchorId lower)⟩ :: claims) := by
  refine ⟨h.ids, h.quotes, List.forall_mem_cons.mpr ⟨fun id hid => .inl ?_, h.cites⟩⟩
  exact List.map_subset _ hdocuments hid

/--
A claim with a quote.
-/
theorem Made.quote (h : Made H lower blocks (quoteN + 1) anchors claims) {documents : List DocumentBlock}
    (hdocuments : documents ⊆ blocks) {anchor : SourceAnchor} (hid : anchor.id = quoteAnchorId (quoteN + 1))
    (hquote : anchor.quote ≠ none) {d : DocumentBlock} (hd : d ∈ blocks) (hof : anchor.Of H d) (id text : PyStr)
    : Made H lower blocks quoteN (anchor :: anchors)
        (⟨id, text, documents.map (anchorId lower) ++ [quoteAnchorId (quoteN + 1)]⟩ :: claims) := by
  refine ⟨?_, List.forall_mem_cons.mpr ⟨⟨hquote, d, hd, hof⟩, h.quotes⟩, List.forall_mem_cons.mpr ⟨?_, ?_⟩⟩
  . rw [List.map_cons, List.length_cons, List.range'_succ, List.map_cons, hid, h.ids]
  . intro id hmem
    rcases List.mem_append.mp hmem with hmem | hmem
    . exact .inl (List.map_subset _ hdocuments hmem)
    . rw [List.mem_singleton.mp hmem, ← hid]
      exact .inr List.mem_cons_self
  . intro claim hclaim id hmem
    exact (h.cites claim hclaim id hmem).imp_right (List.mem_cons_of_mem _)

theorem claimReads_dict_iff (raw : Dict)
    : ClaimReads R (.dict raw)
        ↔
      (strip ((raw.getD (py "text") (.str [])).toStr R) ≠ [] → ListsHandles (raw.get (py "source_handles"))) := by
  constructor
  . intro h
    exact h raw rfl
  . intro h raw' heq
    cases heq
    exact h

/--
What the loop has read and made when it returns.
-/
theorem of_anchorClaims (hencodable : ∀ d ∈ blocks, Utf8Encodable d.bodyText) {raws : List Json} {idx : Nat}
    (h : anchorClaims R H lower blocks idx quoteN raws = .ok (anchors, claims))
    : (∀ raw ∈ raws, ClaimReads R raw) ∧ Made H lower blocks quoteN anchors claims := by
  induction raws generalizing idx quoteN anchors claims with
  | nil =>
    cases h
    exact ⟨by simp, made_nil quoteN⟩
  | cons raw raws ih =>
    rw [List.forall_mem_cons]
    cases raw with
    | dict raw =>
      rw [claimReads_dict_iff]
      unfold anchorClaims at h
      dsimp only at h
      split at h
      . next hempty =>
        obtain ⟨hreads, hmade⟩ := ih h
        exact ⟨⟨fun hne => absurd hempty hne, hreads⟩, hmade⟩
      . simp only [Except.bind_eq_ok_iff] at h
        obtain ⟨handles, hhandles, documents, hdocuments, hrest⟩ := h
        have hlists := (@sourceHandles_isOk_iff blocks raw).mp ⟨handles, documents, hhandles, hdocuments⟩
        have hsubset := subset_of_knownDocuments hdocuments
        split at hrest
        . next d hd =>
          simp only [Except.bind_eq_ok_iff] at hrest
          obtain ⟨anchor, hanchor, ⟨others, rest⟩, hothers, heq⟩ := hrest
          cases heq
          have hmem : d ∈ blocks := by
            split at hd
            . exact hsubset (List.mem_of_mem_head? hd)
            . contradiction
          obtain ⟨anchor', hbuilt, hid, hquote, hof⟩ := @buildDocumentAnchor_of_encodable H lower d (hencodable d hmem)
            (quoteAnchorId (quoteN + 1)) (some ((Dict.get raw (py "quote")).toStr R))
          rw [hbuilt] at hanchor
          cases hanchor
          obtain ⟨hreads, hmade⟩ := ih hothers
          exact ⟨⟨fun _ => hlists, hreads⟩, hmade.quote hsubset hid (by rw [hquote]; simp) hmem hof _ _⟩
        . simp only [Except.bind_eq_ok_iff] at hrest
          obtain ⟨⟨others, rest⟩, hothers, heq⟩ := hrest
          cases heq
          obtain ⟨hreads, hmade⟩ := ih hothers
          exact ⟨⟨fun _ => hlists, hreads⟩, hmade.claim hsubset _ _⟩
    | null => exact (ih h).imp_left fun hreads => ⟨fun _ heq => (by contradiction), hreads⟩
    | bool b => exact (ih h).imp_left fun hreads => ⟨fun _ heq => (by contradiction), hreads⟩
    | int n => exact (ih h).imp_left fun hreads => ⟨fun _ heq => (by contradiction), hreads⟩
    | float x => exact (ih h).imp_left fun hreads => ⟨fun _ heq => (by contradiction), hreads⟩
    | str s => exact (ih h).imp_left fun hreads => ⟨fun _ heq => (by contradiction), hreads⟩
    | list vs => exact (ih h).imp_left fun hreads => ⟨fun _ heq => (by contradiction), hreads⟩

/--
The loop returns if every claim lists its handles.
-/
theorem anchorClaims_of_reads (hencodable : ∀ d ∈ blocks, Utf8Encodable d.bodyText) {raws : List Json}
    (hreads : ∀ raw ∈ raws, ClaimReads R raw) (idx quoteN : Nat)
    : ∃ anchors claims, anchorClaims R H lower blocks idx quoteN raws = .ok (anchors, claims) := by
  induction raws generalizing idx quoteN with
  | nil => exact ⟨_, _, rfl⟩
  | cons raw raws ih =>
    rw [List.forall_mem_cons] at hreads
    have ih := ih hreads.right
    cases raw with
    | dict raw =>
      have hlists := hreads.left
      rw [claimReads_dict_iff] at hlists
      unfold anchorClaims
      dsimp only
      split
      . exact ih _ _
      . next hne =>
        have ⟨handles, documents, hhandles, hdocuments⟩ := (@sourceHandles_isOk_iff blocks raw).mpr (hlists hne)
        simp only [hhandles, hdocuments, ok_bind]
        split
        . next d hd =>
          have hmem : d ∈ blocks := by
            split at hd
            . exact subset_of_knownDocuments hdocuments (List.mem_of_mem_head? hd)
            . contradiction
          have ⟨anchor, hbuilt, _⟩ := @buildDocumentAnchor_of_encodable H lower d (hencodable d hmem)
            (quoteAnchorId (quoteN + 1)) (some ((Dict.get raw (py "quote")).toStr R))
          have ⟨anchors, claims, hothers⟩ := ih (idx + 1) (quoteN + 1)
          rw [hbuilt, ok_bind, hothers]
          exact ⟨_, _, rfl⟩
        . have ⟨anchors, claims, hothers⟩ := ih (idx + 1) quoteN
          rw [hothers]
          exact ⟨_, _, rfl⟩
    | null => exact ih _ _
    | bool b => exact ih _ _
    | int n => exact ih _ _
    | float x => exact ih _ _
    | str s => exact ih _ _
    | list vs => exact ih _ _

end Claims

section Reading

variable {limits : Limits} {parseFloat : PyStr → PyFloat} {R : PyRepr} {H : Sha256} {lower : PyStr → PyStr}
  {text : PyStr} {blocks : List DocumentBlock}

theorem Passed.safe {c : PyStr} (h : Passed limits parseFloat c) : Safe limits parseFloat R c := by
  refine ⟨fun fault hfault => ?_, fun data rest d output hdecode hdata => ?_⟩
  . rcases h with h | ⟨data, rest, h, _⟩
    . rw [h] at hfault
      cases hfault
      rfl
    . rw [h] at hfault
      cases hfault
  . rcases h with h | ⟨data', rest', h, hnone⟩
    . rw [h] at hdecode
      cases hdecode
    . rw [h] at hdecode
      cases hdecode
      rw [hnone] at hdata
      cases hdata

/--
The loop is safe if it ends without a fault and the claims can be read.
-/
theorem safeReply_of_ends {result : Option (Dict × PyStr)}
    (h : @Ends limits parseFloat (candidates text) (.ok result))
    (hreads : ∀ data output, result = some (data, output) → ∀ claim ∈ claimsOf data, ClaimReads R claim)
    : SafeReply limits parseFloat R text := by
  intro before c after hcs hbefore
  cases h with
  | none hall => exact (hall c (by rw [hcs]; simp)).safe
  | @envelope before' after' c' rest data envelope hcs' hbefore' hdecode hdata =>
    have hsafe : Safe limits parseFloat R c' := by
      refine ⟨fun fault hfault => ?_, fun data' rest' d output hdecode' hdata' => ?_⟩
      . rw [hdecode] at hfault
        cases hfault
      . rw [hdecode] at hdecode'
        cases hdecode'
        rw [hdata] at hdata'
        exact hreads d output hdata'
    have hnot : ¬ Passed limits parseFloat c' := by
      rintro (herror | ⟨data', rest', hdecode', hnone⟩)
      . rw [hdecode] at herror
        cases herror
      . rw [hdecode] at hdecode'
        cases hdecode'
        rw [hdata] at hnone
        cases hnone
    rw [hcs, List.append_eq_append_iff] at hcs'
    rcases hcs' with ⟨between, heq, hrest⟩ | ⟨between, heq, hrest⟩
    . cases between with
      | nil =>
        rw [List.nil_append, List.cons.injEq] at hrest
        rw [hrest.left]
        exact hsafe
      | cons _ between =>
        rw [List.cons_append, List.cons.injEq] at hrest
        rw [hrest.left] at *
        exact (hbefore' _ (by rw [heq]; simp)).safe
    . cases between with
      | nil =>
        rw [List.nil_append, List.cons.injEq] at hrest
        rw [← hrest.left]
        exact hsafe
      | cons _ between =>
        rw [List.cons_append, List.cons.injEq] at hrest
        refine absurd (hbefore c' ?_) hnot
        rw [heq, hrest.left]
        simp

theorem lower_handle (hlower : LowersAscii lower) (n : Nat) : lower (py "D" ++ pyNat n) = py "d" ++ pyNat n := by
  have hdigit : ∀ c ∈ pyNat n, c.val < 0x80 ∧ Web.lowerAscii c = c := by
    intro c hc
    have hmem : c ∈ py "0123456789" := by
      have ⟨d, hd, heq⟩ := PyStr.mem_pyNat hc
      rw [heq]
      exact List.mem_map_of_mem (PyStr.mem_digits_of_isDigit hd)
    have hall : (py "0123456789").all (fun c => c.val < 0x80 ∧ Web.lowerAscii c = c) = true := by
      decide
    rw [List.all_eq_true] at hall
    simpa using hall c hmem
  have hd : py "D" = [0x44] := by
    decide
  have hlowerD : Web.lowerAscii 0x44 = 0x64 := by
    decide
  rw [hlower _ ?_, List.map_append, List.map_congr_left (fun c hc => (hdigit c hc).right), List.map_id', hd]
  . rw [List.map_singleton, hlowerD]
    rfl
  . intro c hc
    rcases List.mem_append.mp hc with hc | hc
    . rw [hd] at hc
      rw [List.mem_singleton.mp hc]
      decide
    . exact (hdigit c hc).left

theorem nodup_anchorIds (hlower : LowersAscii lower) (hblocks : LoadedBlocks blocks) (k : Nat)
    : (blocks.map (anchorId lower) ++ (List.range' 1 k).map quoteAnchorId).Nodup := by
  have ⟨ns, hnodup, hhandles⟩ := hblocks.handles
  have hids : blocks.map (anchorId lower) = ns.map fun n => py "src_d" ++ pyNat n := by
    have hmap : blocks.map (anchorId lower) = (blocks.map (·.handle)).map fun handle => py "src_" ++ lower handle := by
      rw [List.map_map]
      rfl
    rw [hmap, hhandles, List.map_map]
    refine List.map_congr_left fun n _ => ?_
    simp only [Function.comp_apply, lower_handle hlower]
    rfl
  rw [hids]
  have hinj (word : PyStr) : Function.Injective fun n => word ++ pyNat n :=
    fun m n heq => pyNat_injective (List.append_cancel_left heq)
  refine List.Nodup.append (hnodup.map (hinj (py "src_d"))) (List.Nodup.map (hinj (py "src_q")) List.nodup_range') ?_
  . intro id hd hq
    have ⟨m, _, hm⟩ := List.mem_map.mp hd
    have ⟨n, _, hn⟩ := List.mem_map.mp hq
    have hletters : ∀ s t : PyStr, py "src_d" ++ s ≠ py "src_q" ++ t := by
      intro s t heq
      have htake := congrArg (List.take 5) heq
      rw [List.take_left' (by decide), List.take_left' (by decide)] at htake
      exact absurd htake (by decide)
    exact hletters _ _ (hm.trans hn.symm)

theorem anchors_of_mapM (hencodable : ∀ d ∈ blocks, Utf8Encodable d.bodyText) {anchors : List SourceAnchor}
    (h : blocks.mapM (fun d => buildDocumentAnchor H lower (anchorId lower d) d none) = .ok anchors)
    : anchors.map (·.id) = blocks.map (anchorId lower)
        ∧ List.Forall₂ (fun (anchor : SourceAnchor) d => anchor.Of H d ∧ anchor.quote = none) anchors blocks := by
  rw [Except.mapM_eq_ok_iff] at h
  induction h with
  | nil => exact ⟨rfl, .nil⟩
  | @cons d anchor blocks anchors hbuilt _ ih =>
    rw [List.forall_mem_cons] at hencodable
    have ⟨anchor', hbuilt', hid, hquote, hof⟩ := @buildDocumentAnchor_of_encodable H lower d hencodable.left
      (anchorId lower d) none
    rw [hbuilt'] at hbuilt
    cases hbuilt
    have ⟨hids, hdocuments⟩ := ih hencodable.right
    exact ⟨by rw [List.map_cons, List.map_cons, hid, hids], .cons ⟨hof, hquote⟩ hdocuments⟩

theorem mapM_of_encodable (hencodable : ∀ d ∈ blocks, Utf8Encodable d.bodyText)
    : ∃ anchors, blocks.mapM (fun d => buildDocumentAnchor H lower (anchorId lower d) d none) = .ok anchors := by
  rw [Except.mapM_isOk_iff]
  intro d hd
  have ⟨anchor, hbuilt, _⟩ := @buildDocumentAnchor_of_encodable H lower d (hencodable d hd) (anchorId lower d) none
  exact ⟨anchor, hbuilt⟩

/--
What the anchors and claims of an answer are.
-/
theorem anchored_of_parts (hlower : LowersAscii lower) (hblocks : LoadedBlocks blocks) {reply : AnchoredReply}
    {modelClaims : List Json}
    (hbuild : buildSourceAnchors R H lower blocks modelClaims = .ok (reply.sourceAnchors, reply.claims))
    (houtput : reply.outputText = text
      ∨ ∃ part data rest, part <:+: text ∧ rawDecode limits parseFloat part = .ok (.dict data, rest)
        ∧ Dict.get data (py "output") = .str reply.outputText)
    : (∀ claim ∈ modelClaims, ClaimReads R claim) ∧ Anchored limits parseFloat H text blocks reply := by
  unfold buildSourceAnchors at hbuild
  simp only [Except.bind_eq_ok_iff, Except.pure_eq_ok_iff, Prod.mk.injEq] at hbuild
  obtain ⟨anchors, hanchors, ⟨quotes, claims⟩, hclaims, hall, hsame⟩ := hbuild
  dsimp only at hall hsame
  obtain ⟨hids, hdocuments⟩ := anchors_of_mapM hblocks.encodable hanchors
  obtain ⟨hreads, hmade⟩ := of_anchorClaims hblocks.encodable hclaims
  refine ⟨hreads, houtput, ⟨anchors, quotes, hall.symm, hdocuments, fun a ha => (hmade.quotes a ha).left⟩, ?_, ?_, ?_⟩
  . rw [← hall, List.map_append, hids, hmade.ids]
    exact nodup_anchorIds hlower hblocks _
  . intro anchor hanchor
    rw [← hall] at hanchor
    rcases List.mem_append.mp hanchor with hmem | hmem
    . obtain ⟨d, hd, hbuilt⟩ := (Except.mem_iff_of_mapM_eq_ok hanchors anchor).mp hmem
      obtain ⟨anchor', hbuilt', _, _, hof⟩ := @buildDocumentAnchor_of_encodable H lower d (hblocks.encodable d hd)
        (anchorId lower d) none
      rw [hbuilt'] at hbuilt
      cases hbuilt
      exact ⟨d, hd, hof⟩
    . exact (hmade.quotes anchor hmem).right
  . intro claim hclaim id hid
    rw [← hsame] at hclaim
    rw [← hall, List.map_append, List.mem_append, hids]
    exact hmade.cites claim hclaim id hid

/--
The anchors are built exactly if the claims can be read.
-/
theorem exists_anchored_iff (hlower : LowersAscii lower) (hblocks : LoadedBlocks blocks) {output : PyStr}
    (modelClaims : List Json)
    (houtput : output = text
      ∨ ∃ part data rest, part <:+: text ∧ rawDecode limits parseFloat part = .ok (.dict data, rest)
        ∧ Dict.get data (py "output") = .str output)
    : (∃ reply, (do
          let (anchors, claims) ← buildSourceAnchors R H lower blocks modelClaims
          return (⟨output, anchors, claims⟩ : AnchoredReply)) = .ok reply
        ∧ Anchored limits parseFloat H text blocks reply)
        ↔
      ∀ claim ∈ modelClaims, ClaimReads R claim := by
  constructor
  . rintro ⟨reply, hreply, _⟩
    simp only [Except.bind_eq_ok_iff, Except.pure_eq_ok_iff] at hreply
    obtain ⟨⟨anchors, claims⟩, hbuild, heq⟩ := hreply
    rw [← heq] at *
    exact (@anchored_of_parts limits parseFloat R H lower text blocks hlower hblocks ⟨output, anchors, claims⟩ _
      hbuild houtput).left
  . intro hreads
    obtain ⟨anchors, hanchors⟩ := @mapM_of_encodable H lower blocks hblocks.encodable
    obtain ⟨quotes, claims, hclaims⟩ := @anchorClaims_of_reads R H lower blocks hblocks.encodable modelClaims hreads 1 0
    have hbuild : buildSourceAnchors R H lower blocks modelClaims = .ok (anchors ++ quotes, claims) := by
      unfold buildSourceAnchors
      rw [hanchors, ok_bind, hclaims, ok_bind]
      rfl
    refine ⟨⟨output, anchors ++ quotes, claims⟩, by rw [hbuild]; rfl, ?_⟩
    exact (@anchored_of_parts limits parseFloat R H lower text blocks hlower hblocks ⟨output, anchors ++ quotes, claims⟩
      _ hbuild houtput).right

variable (limits parseFloat R H) in
/--
Reading a reply raises nothing and keeps to the loaded documents exactly if every candidate that the loop reaches stays
within the limits of the interpreter, and the claims of the envelope list their handles.
-/
theorem readReply_anchored_iff (hlower : LowersAscii lower) (hblocks : LoadedBlocks blocks) (text : PyStr)
    : (∃ reply, readReply limits parseFloat R H lower text blocks = .ok reply
        ∧ Anchored limits parseFloat H text blocks reply)
        ↔
      SafeReply limits parseFloat R text := by
  have hends := @ends_firstEnvelope limits parseFloat (candidates text)
  unfold readReply parseModelOutput extractJsonEnvelope
  generalize firstEnvelope limits parseFloat (candidates text) = result at hends
  cases result with
  | error fault =>
    constructor
    . rintro ⟨reply, hreply, _⟩
      cases hreply
    . intro hsafe
      cases hends with
      | fault hcs hbefore hdecode hfault => exact absurd ((hsafe _ _ _ hcs hbefore).within _ hdecode) hfault
  | ok result =>
    cases result with
    | none =>
      refine (exists_anchored_iff hlower hblocks [] (.inl rfl)).trans ⟨fun _ => ?_, fun _ => by simp⟩
      exact safeReply_of_ends hends fun data output heq => by cases heq
    | some envelope =>
      have ⟨data, output⟩ := envelope
      have hout : ∃ part d rest, part <:+: text ∧ rawDecode limits parseFloat part = .ok (.dict d, rest)
          ∧ Dict.get d (py "output") = .str output := by
        cases hends with
        | envelope hcs hbefore hdecode hdata =>
          have ⟨heq, houtput⟩ := envelope?_eq_some hdata
          rw [heq] at hdecode
          exact ⟨_, data, _, infix_of_mem_candidates (by rw [hcs]; simp), hdecode, houtput⟩
      refine (exists_anchored_iff hlower hblocks (claimsOf data) (.inr hout)).trans ⟨fun hreads => ?_, fun hsafe => ?_⟩
      . refine safeReply_of_ends hends fun data' output' heq => ?_
        cases heq
        exact hreads
      . cases hends with
        | envelope hcs hbefore hdecode hdata =>
          exact (hsafe _ _ _ hcs hbefore).reads _ _ _ _ hdecode hdata

end Reading

section Examples

def pythonLimits : Limits where
  depth := 1000
  digits := 4300

def lowerAscii (s : PyStr) : PyStr :=
  s.map Web.lowerAscii

def leaseBlock : DocumentBlock where
  handle := py "D1"
  documentId := py "lease"
  filename := py "lease.docx"
  sha256 := py "00"
  bodyText := py "The tenant pays rent."

theorem loadedBlocks_lease : LoadedBlocks [leaseBlock] :=
  ⟨⟨[1], by decide, by decide⟩, by decide⟩

instance (v : Json) : Decidable (IsHashable v) :=
  match v with
  | .list _ | .dict _ => isFalse id
  | .null | .bool _ | .int _ | .float _ | .str _ => isTrue trivial

instance (v : Json) : Decidable (ListsHandles v) :=
  match v with
  | .list items => inferInstanceAs (Decidable (∀ item ∈ items, IsHashable item))
  | .str _ | .dict _ => isTrue trivial
  | .null | .bool _ | .int _ | .float _ => inferInstanceAs (Decidable (_ = false))

/--
A reply with a claim that names a loaded document and an unknown one.
-/
def claimsReply : PyStr :=
  py "\x7b\"output\":\"Rent is due.\",\"claims\":[\x7b\"text\":\"Rent\","
    ++ py "\"source_handles\":[\"D1\",\"D9\"]\x7d]\x7d"

theorem readReply_anchored_claims
    : ∃ reply, readReply pythonLimits (fun _ => .nan) .quoted .plain lowerAscii claimsReply [leaseBlock] = .ok reply
        ∧ Anchored pythonLimits (fun _ => .nan) .plain claimsReply [leaseBlock] reply := by
  refine (readReply_anchored_iff pythonLimits (fun _ => .nan) .quoted .plain (fun _ _ => rfl) loadedBlocks_lease
    _).mpr ?_
  have hread : (firstEnvelope pythonLimits (fun _ => .nan) (candidates claimsReply)).isOk = true := by
    decide +kernel
  have hclaims : (firstEnvelope pythonLimits (fun _ => .nan) (candidates claimsReply)).toOption.join.all (fun envelope =>
      (claimsOf envelope.fst).all fun claim => claim.asDict.toOption.all fun raw =>
        decide (ListsHandles (raw.get (py "source_handles")))) = true := by
    decide +kernel
  have hends := @ends_firstEnvelope pythonLimits (fun _ => .nan) (candidates claimsReply)
  generalize firstEnvelope pythonLimits (fun _ => .nan) (candidates claimsReply) = result at hends hread hclaims
  cases result with
  | error fault => cases hread
  | ok result =>
    refine safeReply_of_ends hends fun data output heq claim hclaim raw hraw _ => ?_
    subst heq
    have hall := List.all_eq_true.mp hclaims claim hclaim
    rw [hraw] at hall
    exact of_decide_eq_true hall

/--
A number where the handles of a claim are expected ends the request.
-/
theorem readReply_numberedHandles
    : LoadedBlocks [leaseBlock]
        ∧ readReply pythonLimits (fun _ => .nan) .quoted .plain lowerAscii
          (py "\x7b\"output\":\"x\",\"claims\":[\x7b\"text\":\"t\",\"source_handles\":5\x7d]\x7d") [leaseBlock]
          = .error .typeError :=
  ⟨loadedBlocks_lease, by decide +kernel⟩

end Examples

end Invocations
