import Legalise.Signing.Basic

/-!
This module contains what a manifest signature binds: which manifests have the same digest, when the
verification returns, and what a verified signature says.
-/

namespace Signing

open JsonText

section Digest

theorem hexVal?_and_isWs {d : Nat} (hd : d < 16)
    : hexVal? (digitPoint d) = some d ∧ isWs (digitPoint d) = false := by
  refine ⟨hexVal?_digitPoint hd, ?_⟩
  have : ∀ d < 16, isWs (digitPoint d) = false := by
    decide
  exact this d hd

@[simp]
theorem fromHex_hex (data : Bytes) : fromHex (hex data) = .ok data := by
  induction data with
  | nil => rfl
  | cons b data ih =>
    have hb := b.isLt
    have hdigits : fixedDigits 16 2 b.val = [b.val / 16 % 16, b.val % 16] := by
      simp [fixedDigits]
    obtain ⟨hhigh, hws⟩ := hexVal?_and_isWs (d := b.val / 16 % 16) (by omega)
    obtain ⟨hlow, _⟩ := hexVal?_and_isWs (d := b.val % 16) (by omega)
    have hvalue : b.val / 16 % 16 * 16 + b.val % 16 = b.val := by omega
    unfold hex at ih ⊢
    rw [List.flatMap_cons, hdigits]
    simp only [List.map_cons, List.map_nil, List.cons_append, List.nil_append, fromHex, hws, hhigh, hlow, ih,
      hvalue]
    rw [if_neg Bool.false_ne_true]
    simp [Except.map, Utf8.byte]

theorem encodeUtf8_eq {s : PyStr} {data : Bytes} (h : Utf8.encode s = some data) : encodeUtf8 s = .ok data := by
  unfold encodeUtf8
  rw [h]
  rfl

theorem finite_unsigned {manifest : Dict} (h : (Json.dict manifest).Finite)
    : (Json.dict (unsigned manifest)).Finite := by
  rw [Json.Finite, Json.finiteDict_iff] at h ⊢
  intro item hitem
  exact h item (List.mem_filter.mp hitem).left

theorem distinctKeys_unsigned {manifest : Dict} (h : (Json.dict manifest).DistinctKeys)
    : (Json.dict (unsigned manifest)).DistinctKeys := by
  rw [Json.DistinctKeys, Json.distinctKeysDict_iff] at h ⊢
  refine ⟨h.left.sublist (List.filter_sublist.map _), ?_⟩
  intro item hitem
  exact h.right item (List.mem_filter.mp hitem).left

variable {sha256 : Bytes → Bytes} {R : PyRepr}

/--
The digest is the hash of the canonical text, whatever the manifest says.
-/
theorem manifestSigningDigest_eq (F : FloatText R) {manifest : Dict} (h : (Json.dict manifest).Finite)
    : ∃ canonical, Utf8.encode (dumpsCanonical R (.dict (unsigned manifest))) = some canonical
        ∧ manifestSigningDigest sha256 R manifest = .ok (sha256 canonical) := by
  have hencodable : Utf8Encodable (dumpsCanonical R (.dict (unsigned manifest))) := by
    unfold dumpsCanonical
    exact utf8Encodable_dumpsAscii F (finite_unsigned h).sortKeys
  have hencode := Utf8.encode_eq_some_iff.mpr ⟨hencodable, rfl⟩
  refine ⟨_, hencode, ?_⟩
  unfold manifestSigningDigest computeManifestHash
  rw [encodeUtf8_eq hencode]
  exact fromHex_hex _

/--
Digests are equal if and only if the code units of the manifests are.
-/
theorem manifestSigningDigest_eq_iff (F : FloatText R) (hsha : Function.Injective sha256) {m₁ m₂ : Dict}
    (h₁ : (Json.dict m₁).Finite) (h₂ : (Json.dict m₂).Finite)
    : manifestSigningDigest sha256 R m₁ = manifestSigningDigest sha256 R m₂
        ↔ codeUnits (Json.dict (unsigned m₁)).sortKeys = codeUnits (Json.dict (unsigned m₂)).sortKeys := by
  have ⟨c₁, hc₁, hd₁⟩ := @manifestSigningDigest_eq sha256 R F _ h₁
  have ⟨c₂, hc₂, hd₂⟩ := @manifestSigningDigest_eq sha256 R F _ h₂
  rw [hd₁, hd₂, Except.ok.injEq, hsha.eq_iff,
    ← dumpsCanonical_eq_iff F (finite_unsigned h₁) (finite_unsigned h₂)]
  constructor
  . intro h
    have hdecode := Utf8.decode_encode hc₁
    rw [h, Utf8.decode_encode hc₂, Option.some.injEq] at hdecode
    exact hdecode.symm
  . intro h
    rw [h, hc₂, Option.some.injEq] at hc₁
    exact hc₁.symm

end Digest

section Verify

variable {E : Ed25519} {sha256 : Bytes → Bytes} {R : PyRepr} {registry : Registry}

/--
The signature of a manifest is checked against a registered key.
-/
structure ChecksKey (registry : Registry) (manifest : Dict) (signature : Option PyStr)
    (publisher text publicKeyB64 : PyStr) : Prop where
  publisher_eq : manifest.get (py "publisher") = .str publisher
  publisher_ne : publisher ≠ []
  signature_eq : effectiveSignature manifest signature = .str text
  long : 16 ≤ text.length
  signedBy_eq : manifest.get (py "signed_by") = .null ∨ manifest.get (py "signed_by") = .str publisher
  registered : publisherSigningKey registry publisher = some publicKeyB64

theorem isVerifiedPublisher_of_key {publisher publicKeyB64 : PyStr}
    (h : publisherSigningKey registry publisher = some publicKeyB64)
    : isVerifiedPublisher registry publisher = true := by
  unfold publisherSigningKey at h
  unfold isVerifiedPublisher
  split at h
  . next hlookup => rw [hlookup]; rfl
  . contradiction

theorem ChecksKey.verify_eq {manifest : Dict} {signature : Option PyStr}
    {publisher text publicKeyB64 : PyStr}
    (h : ChecksKey registry manifest signature publisher text publicKeyB64)
    : verifyManifestSignature E sha256 R registry manifest signature
        = (verifyEd25519 E sha256 R manifest text publicKeyB64).map fun result =>
            ⟨if result.fst then .verified else .invalid, publisher,
              signerOr (manifest.get (py "signed_by")) publisher, result.snd⟩ := by
  have hsigned : ¬ (signature = none ∧ (manifest.get (py "signature")).truthy = false) := by
    rintro ⟨rfl, hfalsy⟩
    have hget : manifest.get (py "signature") = .str text := h.signature_eq
    have hlong := h.long
    rw [hget] at hfalsy
    cases text with
    | nil => simp at hlong
    | cons => simp [Json.truthy] at hfalsy
  have hsigner : ¬ ((manifest.get (py "signed_by")).isNone = false
      ∧ (manifest.get (py "signed_by")).pyEq (.str publisher) = false) := by
    rintro ⟨hnone, heq⟩
    cases h.signedBy_eq with
    | inl hnull => simp [hnull, Json.isNone] at hnone
    | inr hsame =>
      rw [hsame, (Json.pyEq_str_iff _ _).mpr rfl] at heq
      contradiction
  unfold verifyManifestSignature
  obtain ⟨c, cs, hcons⟩ := List.exists_cons_of_ne_nil h.publisher_ne
  rw [h.publisher_eq, hcons]
  dsimp only
  rw [← hcons, if_neg hsigned, h.signature_eq]
  dsimp only
  rw [if_neg (by have := h.long; omega), if_neg (by simp [isVerifiedPublisher_of_key h.registered]),
    if_neg hsigner, h.registered]
  dsimp only
  cases verifyEd25519 E sha256 R manifest text publicKeyB64 <;> rfl

/--
Without a registered key to check, the verification returns, and never says that the signature is
verified.
-/
theorem verify_of_not_checksKey {manifest : Dict} {signature : Option PyStr}
    (h : ¬ ∃ publisher text publicKeyB64,
      ChecksKey registry manifest signature publisher text publicKeyB64)
    : ∃ result, verifyManifestSignature E sha256 R registry manifest signature = .ok result
        ∧ result.status ≠ .verified := by
  unfold verifyManifestSignature
  split
  . next c cs hpublisher =>
    dsimp only
    split
    . exact ⟨_, rfl, by simp⟩
    . split
      . next text hsignature =>
        split
        . exact ⟨_, rfl, by simp⟩
        . next hlong =>
          split
          . exact ⟨_, rfl, by simp⟩
          . split
            . exact ⟨_, rfl, by simp⟩
            . next hsigner =>
              split
              . next publicKeyB64 hkey =>
                refine absurd ⟨c :: cs, text, publicKeyB64, hpublisher, by simp, hsignature, by omega, ?_, hkey⟩ h
                by_contra hother
                simp only [not_or] at hother
                apply hsigner
                constructor
                . rw [Bool.eq_false_iff, ne_eq, Json.isNone_iff]
                  exact hother.left
                . rw [Bool.eq_false_iff, ne_eq, Json.pyEq_str_iff]
                  exact hother.right
              . exact ⟨_, rfl, by simp⟩
      . exact ⟨_, rfl, by simp⟩
  . exact ⟨_, rfl, by simp⟩

theorem b64decode_cases (s : PyStr)
    : (isAscii s = true ∧ ((∃ data, b64decode s = .ok data) ∨ ∃ text, b64decode s = .error (.binasciiError text)))
        ∨ (isAscii s = false ∧ ∃ text, b64decode s = .error (.valueError text)) := by
  unfold b64decode
  cases isAscii s with
  | false => exact .inr ⟨rfl, _, rfl⟩
  | true =>
    refine .inl ⟨rfl, ?_⟩
    cases Base64.strictDecode s with
    | ok data => exact .inl ⟨data, rfl⟩
    | error text => exact .inr ⟨text, rfl⟩

/--
A signature is checked without an exception if and only if the key cannot be read or the signature is
ASCII.
-/
theorem verifyEd25519_isOk_iff (F : FloatText R) {manifest : Dict} (hfinite : (Json.dict manifest).Finite)
    (text publicKeyB64 : PyStr)
    : (∃ result, verifyEd25519 E sha256 R manifest text publicKeyB64 = .ok result)
        ↔ ((∃ publicKey, loadPublicKey E publicKeyB64 = .ok publicKey) → isAscii text = true) := by
  have ⟨canonical, _, hdigest⟩ := @manifestSigningDigest_eq sha256 R F _ hfinite
  unfold verifyEd25519
  cases hload : loadPublicKey E publicKeyB64 with
  | error exc => simp
  | ok publicKey =>
    dsimp only
    rcases b64decode_cases text with ⟨hascii, ⟨data, hdata⟩ | ⟨exc, hexc⟩⟩ | ⟨hascii, exc, hexc⟩
    . rw [hdata, hdigest]
      refine iff_of_true ?_ fun _ => hascii
      by_cases hverify : E.verify publicKey data (sha256 canonical) = true
      . exact ⟨_, if_pos hverify⟩
      . exact ⟨_, if_neg hverify⟩
    . rw [hexc]
      exact iff_of_true ⟨_, rfl⟩ fun _ => hascii
    . rw [hexc]
      refine iff_of_false ?_ fun h => by simp [h ⟨publicKey, rfl⟩] at hascii
      rintro ⟨_, hok⟩
      contradiction

/--
A valid signature is verified by the key over the digest of the manifest.
-/
theorem verifyEd25519_sound {manifest : Dict} {text publicKeyB64 note : PyStr}
    (h : verifyEd25519 E sha256 R manifest text publicKeyB64 = .ok (true, note))
    : ∃ publicKey signatureBytes digest, loadPublicKey E publicKeyB64 = .ok publicKey
        ∧ b64decode text = .ok signatureBytes
        ∧ manifestSigningDigest sha256 R manifest = .ok digest
        ∧ E.verify publicKey signatureBytes digest = true := by
  unfold verifyEd25519 at h
  split at h
  . simp at h
  . next publicKey hload =>
    split at h
    . simp at h
    . simp at h
    . next signatureBytes hdecode =>
      rw [Except.bind_eq_ok_iff] at h
      have ⟨digest, hdigest, hresult⟩ := h
      split at hresult
      . next hverify => exact ⟨publicKey, signatureBytes, digest, hload, hdecode, hdigest, hverify⟩
      . simp at hresult

variable (E sha256 R registry) in
/--
The publisher has a registered key, and it verifies the signature over the digest of the manifest.
-/
def VerifiedByKey (manifest : Dict) (signature : Option PyStr) : Prop :=
  ∃ publisher text publicKeyB64 publicKey signatureBytes digest,
    manifest.get (py "publisher") = .str publisher
      ∧ publisherSigningKey registry publisher = some publicKeyB64
      ∧ loadPublicKey E publicKeyB64 = .ok publicKey
      ∧ effectiveSignature manifest signature = .str text
      ∧ b64decode text = .ok signatureBytes
      ∧ manifestSigningDigest sha256 R manifest = .ok digest
      ∧ E.verify publicKey signatureBytes digest = true

theorem verifiedByKey_of_verified {manifest : Dict} {signature : Option PyStr} {result : SignatureResult}
    (h : verifyManifestSignature E sha256 R registry manifest signature = .ok result)
    (hstatus : result.status = .verified) : VerifiedByKey E sha256 R registry manifest signature := by
  by_cases hkey : ∃ publisher text publicKeyB64,
      ChecksKey registry manifest signature publisher text publicKeyB64
  . have ⟨publisher, text, publicKeyB64, hkey⟩ := hkey
    rw [hkey.verify_eq] at h
    cases hcheck : verifyEd25519 E sha256 R manifest text publicKeyB64 with
    | error exc => simp [hcheck, Except.map] at h
    | ok checked =>
      have ⟨ok, note⟩ := checked
      rw [hcheck] at h
      injection h with h
      cases ok with
      | false => simp [← h] at hstatus
      | true =>
        have ⟨publicKey, signatureBytes, digest, hload, hdecode, hdigest, hverify⟩ :=
          verifyEd25519_sound hcheck
        exact ⟨publisher, text, publicKeyB64, publicKey, signatureBytes, digest, hkey.publisher_eq,
          hkey.registered, hload, hkey.signature_eq, hdecode, hdigest, hverify⟩
  . have ⟨other, hother, hne⟩ := @verify_of_not_checksKey E sha256 R registry _ _ hkey
    rw [h, Except.ok.injEq] at hother
    exact absurd (hother ▸ hstatus) hne

variable (E registry) in
/--
A signature that is checked against a registered key is not ASCII.
-/
def NonAsciiSignature (manifest : Dict) (signature : Option PyStr) : Prop :=
  ∃ publisher text publicKeyB64, ChecksKey registry manifest signature publisher text publicKeyB64
    ∧ (∃ publicKey, loadPublicKey E publicKeyB64 = .ok publicKey) ∧ isAscii text = false

theorem verify_isOk_iff (F : FloatText R) {manifest : Dict} (hfinite : (Json.dict manifest).Finite)
    (signature : Option PyStr)
    : (∃ result, verifyManifestSignature E sha256 R registry manifest signature = .ok result)
        ↔ ¬ NonAsciiSignature E registry manifest signature := by
  by_cases hkey : ∃ publisher text publicKeyB64,
      ChecksKey registry manifest signature publisher text publicKeyB64
  . have ⟨publisher, text, publicKeyB64, hkey⟩ := hkey
    have hcheck := @verifyEd25519_isOk_iff E sha256 R F _ hfinite text publicKeyB64
    have hmap : (∃ result, verifyManifestSignature E sha256 R registry manifest signature = .ok result)
        ↔ ∃ result, verifyEd25519 E sha256 R manifest text publicKeyB64 = .ok result := by
      rw [hkey.verify_eq]
      cases verifyEd25519 E sha256 R manifest text publicKeyB64 <;> simp [Except.map]
    rw [hmap, hcheck]
    constructor
    . intro h ⟨publisher', text', publicKeyB64', hkey', hload, hascii⟩
      -- The manifest determines what is checked against which key.
      have hpublisher : publisher = publisher' := by
        have := hkey.publisher_eq.symm.trans hkey'.publisher_eq
        rwa [Json.str.injEq] at this
      have htext : text = text' := by
        have := hkey.signature_eq.symm.trans hkey'.signature_eq
        rwa [Json.str.injEq] at this
      have hregistered := hkey'.registered
      rw [← hpublisher, hkey.registered, Option.some.injEq] at hregistered
      rw [← hregistered] at hload
      rw [← htext] at hascii
      rw [h hload] at hascii
      contradiction
    . intro h hload
      by_contra hascii
      exact h ⟨publisher, text, publicKeyB64, hkey, hload, Bool.eq_false_iff.mpr hascii⟩
  . have ⟨result, hresult, _⟩ := @verify_of_not_checksKey E sha256 R registry _ _ hkey
    refine iff_of_true ⟨result, hresult⟩ ?_
    intro ⟨publisher, text, publicKeyB64, h, _⟩
    exact hkey ⟨publisher, text, publicKeyB64, h⟩

/--
No manifest reaches the cryptographic tier of the registry that is shipped.
-/
theorem shipped_registry (manifest : Dict) (signature : Option PyStr)
    : ∃ result, verifyManifestSignature E sha256 R verifiedPublishers manifest signature = .ok result
        ∧ result.status ≠ .verified := by
  apply verify_of_not_checksKey
  rintro ⟨publisher, text, publicKeyB64, h⟩
  have := h.registered
  unfold publisherSigningKey at this
  split at this
  . next info hlookup =>
    have hkeys : ∀ item ∈ verifiedPublishers, item.snd.ed25519PublicKey = none := by
      simp [verifiedPublishers]
    rw [hkeys _ (Web.mem_of_lookup hlookup)] at this
    contradiction
  . contradiction

end Verify

section Binding

variable (E : Ed25519) (sha256 : Bytes → Bytes) (R : PyRepr) (registry : Registry)

/--
The digests of two manifests agree exactly if what they sign is the same, and the verification of the
first one returns and only calls a signature verified that a registered key verifies.
-/
def BindsWhole (m₁ m₂ : Dict) (signature : Option PyStr) : Prop :=
  (manifestSigningDigest sha256 R m₁ = manifestSigningDigest sha256 R m₂
      ↔ (Json.dict (unsigned m₁)).same (.dict (unsigned m₂)) = true)
    ∧ ∃ result, verifyManifestSignature E sha256 R registry m₁ signature = .ok result
      ∧ (result.status = .verified → VerifiedByKey E sha256 R registry m₁ signature)

/--
Up to the order of keys, the values only differ in characters out of the basic plane that one of them
has as two surrogates.
-/
def SurrogatesApart (v w : Json) : Prop :=
  v.sortKeys ≠ w.sortKeys ∧ codeUnits v.sortKeys = codeUnits w.sortKeys

/--
Up to the order of keys, the values only differ in the signs of zeros.
-/
def ZeroSignsApart (v w : Json) : Prop :=
  v.sortKeys ≠ w.sortKeys ∧ v.sortKeys.plainZeros = w.sortKeys.plainZeros

variable {E sha256 R registry}

/--
What differs neither in surrogates nor in the signs of zeros alone has different digests.
-/
theorem digest_faithful_iff (F : FloatText R) (hsha : Function.Injective sha256) {m₁ m₂ : Dict}
    (h₁ : (Json.dict m₁).DistinctKeys) (h₂ : (Json.dict m₂).DistinctKeys)
    (hf₁ : (Json.dict m₁).Finite) (hf₂ : (Json.dict m₂).Finite)
    : (manifestSigningDigest sha256 R m₁ = manifestSigningDigest sha256 R m₂
          ↔ (Json.dict (unsigned m₁)).same (.dict (unsigned m₂)) = true)
        ↔ ¬ SurrogatesApart (.dict (unsigned m₁)) (.dict (unsigned m₂))
          ∧ ¬ ZeroSignsApart (.dict (unsigned m₁)) (.dict (unsigned m₂)) := by
  rw [manifestSigningDigest_eq_iff F hsha hf₁ hf₂,
    Json.same_iff (distinctKeys_unsigned h₁) (distinctKeys_unsigned h₂) (finite_unsigned hf₁)
      (finite_unsigned hf₂)]
  unfold SurrogatesApart ZeroSignsApart
  generalize (Json.dict (unsigned m₁)).sortKeys = v
  generalize (Json.dict (unsigned m₂)).sortKeys = w
  have hboth : codeUnits v = codeUnits w → v.plainZeros = w.plainZeros → v = w :=
    Json.mapLeaves_inj (fun _ _ h => h) (fun _ _ _ _ h => h) (Json.allStrs_of_forall (fun _ => trivial) v)
      (Json.allStrs_of_forall (fun _ => trivial) w)
  by_cases heq : v = w
  . subst heq
    simp
  . tauto

theorem bindsWhole_iff (F : FloatText R) (hsha : Function.Injective sha256) {m₁ m₂ : Dict}
    (h₁ : (Json.dict m₁).DistinctKeys) (h₂ : (Json.dict m₂).DistinctKeys)
    (hf₁ : (Json.dict m₁).Finite) (hf₂ : (Json.dict m₂).Finite) (signature : Option PyStr)
    : BindsWhole E sha256 R registry m₁ m₂ signature
        ↔ ¬ SurrogatesApart (.dict (unsigned m₁)) (.dict (unsigned m₂))
          ∧ ¬ ZeroSignsApart (.dict (unsigned m₁)) (.dict (unsigned m₂))
          ∧ ¬ NonAsciiSignature E registry m₁ signature := by
  rw [← and_assoc, ← digest_faithful_iff F hsha h₁ h₂ hf₁ hf₂,
    ← @verify_isOk_iff E sha256 R registry F _ hf₁ signature]
  unfold BindsWhole
  refine and_congr_right fun _ => ?_
  constructor
  . intro ⟨result, hresult, _⟩
    exact ⟨result, hresult⟩
  . intro ⟨result, hresult⟩
    exact ⟨result, hresult, verifiedByKey_of_verified hresult⟩

/--
The text of a key of 32 zeros.
-/
def zeroKey : PyStr :=
  List.replicate 43 (CodePoint.ofChar 'A') ++ [Base64.padding]

def versionManifest (version : String) : Dict :=
  [(py "publisher", .str (py "example")), (py "version", .str (py version))]

/--
Two versions of a manifest have different digests, and the check of a signature in ASCII returns.
-/
theorem bindsWhole_iff_twoVersions
    : BindsWhole .plain id .quoted [(py "example", ⟨some zeroKey⟩)] (versionManifest "1.0.0") (versionManifest "2.0.0")
          (some (List.replicate 16 (CodePoint.ofChar 'A')))
        ∧ manifestSigningDigest id .quoted (versionManifest "1.0.0")
          ≠ manifestSigningDigest id .quoted (versionManifest "2.0.0") := by
  have hkeys (version : String) : (Json.dict (versionManifest version)).DistinctKeys := by
    have hne : py "publisher" ≠ py "version" := by decide
    simp [versionManifest, Json.DistinctKeys, Json.DistinctKeysDict, hne]
  have hfinite (version : String) : (Json.dict (versionManifest version)).Finite := by
    simp [versionManifest, Json.Finite, Json.FiniteDict]
  refine ⟨(bindsWhole_iff FloatText.quoted Function.injective_id (hkeys _) (hkeys _) (hfinite _) (hfinite _) _).mpr
    ⟨fun h => ?_, fun h => ?_, ?_⟩, by decide +kernel⟩
  . exact absurd (congrArg (dumpsAscii .quoted) h.right) (by decide +kernel)
  . exact absurd (congrArg (dumpsAscii .quoted) h.right) (by decide +kernel)
  . rintro ⟨publisher, text, publicKeyB64, h, _, hascii⟩
    have htext : Json.str (List.replicate 16 (CodePoint.ofChar 'A')) = .str text := h.signature_eq
    cases htext
    exact absurd hascii (by decide)

theorem nonAsciiSignature_zeroKey
    : NonAsciiSignature .plain [(py "example", ⟨some zeroKey⟩)] [(py "publisher", .str (py "example"))]
        (some (List.replicate 16 0xe9)) := by
  have hload : (loadPublicKey .plain zeroKey).isOk = true := by
    decide +kernel
  have hchecks : ChecksKey [(py "example", ⟨some zeroKey⟩)] [(py "publisher", .str (py "example"))]
      (some (List.replicate 16 0xe9)) (py "example") (List.replicate 16 0xe9) zeroKey := by
    constructor
    . exact Dict.get_cons_self ..
    . decide
    . rfl
    . decide
    . rw [Dict.get_cons_of_ne (by decide)]
      exact .inl rfl
    . simp [publisherSigningKey]
  refine ⟨_, _, _, hchecks, ?_, by decide⟩
  cases hkey : loadPublicKey .plain zeroKey with
  | ok publicKey => exact ⟨publicKey, rfl⟩
  | error exc =>
    rw [hkey] at hload
    contradiction

/--
A signature out of ASCII raises, a zero loses its digest with its sign, and a character has the digest of
its surrogates.
-/
theorem not_bindsWhole
    : ¬ BindsWhole .plain id .quoted [(py "example", ⟨some zeroKey⟩)] [(py "publisher", .str (py "example"))]
          [(py "publisher", .str (py "example"))] (some (List.replicate 16 0xe9))
        ∧ ¬ BindsWhole .plain id .quoted verifiedPublishers [(py "x", .float (.finite 0))]
          [(py "x", .float .negZero)] none
        ∧ ¬ BindsWhole .plain id .quoted verifiedPublishers [(py "x", .str [0x1f600])]
          [(py "x", .str [0xd83d, 0xde00])] none := by
  refine ⟨?_, ?_, ?_⟩
  . rintro ⟨_, result, hresult, _⟩
    have hfinite : (Json.dict [(py "publisher", .str (py "example"))]).Finite := by
      simp [Json.Finite, Json.FiniteDict]
    exact (verify_isOk_iff FloatText.quoted hfinite _).mp ⟨result, hresult⟩ nonAsciiSignature_zeroKey
  . rintro ⟨hdigest, _⟩
    have hsame : (Json.dict (unsigned [(py "x", .float (.finite 0))])).same
        (.dict (unsigned [(py "x", .float .negZero)])) = true := by
      decide +kernel
    have hne : manifestSigningDigest id .quoted [(py "x", .float (.finite 0))]
        ≠ manifestSigningDigest id .quoted [(py "x", .float .negZero)] := by
      decide +kernel
    exact hne (hdigest.mpr hsame)
  . rintro ⟨hdigest, _⟩
    have heq : manifestSigningDigest id .quoted [(py "x", .str [0x1f600])]
        = manifestSigningDigest id .quoted [(py "x", .str [0xd83d, 0xde00])] := by
      decide +kernel
    have hsame : (Json.dict (unsigned [(py "x", .str [0x1f600])])).same
        (.dict (unsigned [(py "x", .str [0xd83d, 0xde00])])) = false := by
      decide +kernel
    rw [hdigest.mp heq] at hsame
    contradiction

end Binding

end Signing
