import Legalise.Lib.Except
import Legalise.Python.Base64
import Legalise.Python.JsonCanonical

/-!
This module contains the verification of manifest signatures and the registry of verified publishers.
-/

namespace Signing

open JsonText

inductive SignatureStatus where
  | verified
  | structureVerified
  | unsigned
  | invalid
  | unknownPublisher
  deriving DecidableEq

/--
`signed_by` is whatever stands in the manifest.
-/
structure SignatureResult where
  status : SignatureStatus
  publisher : Option PyStr
  signedBy : Json
  notes : PyStr := []

/--
The exceptions that leave the modelled functions, all of them `ValueError`s, with their texts.
-/
inductive SigningError where
  | binasciiError (text : PyStr)
  | valueError (text : PyStr)
  | unicodeEncodeError (text : PyStr)
  deriving DecidableEq

def SigningError.text : SigningError → PyStr
  | .binasciiError text => text
  | .valueError text => text
  | .unicodeEncodeError text => text

structure PublisherInfo where
  ed25519PublicKey : Option PyStr

abbrev Registry := List (PyStr × PublisherInfo)

/--
The registry as it is shipped.
-/
def verifiedPublishers : Registry :=
  [(py "legalise", ⟨none⟩), (py "example", ⟨none⟩)]

def isVerifiedPublisher (registry : Registry) (publisherId : PyStr) : Bool :=
  (registry.lookup publisherId).isSome

def publisherSigningKey (registry : Registry) (publisherId : PyStr) : Option PyStr :=
  match registry.lookup publisherId with
  | some info => info.ed25519PublicKey
  | none => none

/--
The public keys of the cryptography package. Reading one from raw bytes fails with a `ValueError`.
-/
structure Ed25519 where
  PublicKey : Type
  fromPublicBytes : Bytes → Except PyStr PublicKey
  verify : PublicKey → Bytes → Bytes → Bool

/--
Keys of 32 bytes that verify nothing, for concrete runs.
-/
def Ed25519.plain : Ed25519 where
  PublicKey := Bytes
  fromPublicBytes data :=
    if data.length = 32 then .ok data else .error (py "An Ed25519 public key is 32 bytes long")
  verify _ _ _ := false

section Digest

variable (sha256 : Bytes → Bytes) (R : PyRepr)

def signatureFields : List PyStr :=
  [py "signature", py "signed_by"]

/--
`data.hex()`
-/
def hex (data : Bytes) : PyStr :=
  data.flatMap fun b => (fixedDigits 16 2 b.val).map digitPoint

/--
`bytes.fromhex(text)`, which skips blanks between two bytes.
-/
def fromHex : PyStr → Except SigningError Bytes
  | [] => .ok []
  | c :: s =>
    if isWs c then fromHex s
    else
      match s with
      | [] => .error (.valueError (py "non-hexadecimal number found in fromhex() arg"))
      | d :: s =>
        match hexVal? c, hexVal? d with
        | some high, some low => (fromHex s).map (Utf8.byte (high * 16 + low) :: ·)
        | _, _ => .error (.valueError (py "non-hexadecimal number found in fromhex() arg"))

/--
`text.encode("utf-8")`
-/
def encodeUtf8 (s : PyStr) : Except SigningError Bytes :=
  (Utf8.encode s).elim (.error (.unicodeEncodeError (py "surrogates not allowed"))) .ok

def computeManifestHash (manifest : Dict) : Except SigningError PyStr := do
  let canonical ← encodeUtf8 (dumpsCanonical R (.dict manifest))
  return hex (sha256 canonical)

/--
The manifest without its top-level signature fields.
-/
def unsigned (manifest : Dict) : Dict :=
  manifest.filter fun item => item.fst ∉ signatureFields

def manifestSigningDigest (manifest : Dict) : Except SigningError Bytes := do
  let hash ← computeManifestHash sha256 R (unsigned manifest)
  fromHex hash

end Digest

section Verify

def isAscii (s : PyStr) : Bool :=
  s.all fun c => c.val < 0x80

/--
`base64.b64decode(text, validate=True)`
-/
def b64decode (s : PyStr) : Except SigningError Bytes :=
  if isAscii s then (Base64.strictDecode s).mapError .binasciiError
  else .error (.valueError (py "string argument should contain only ASCII characters"))

variable (E : Ed25519) (sha256 : Bytes → Bytes) (R : PyRepr)

def loadPublicKey (publicKeyB64 : PyStr) : Except SigningError E.PublicKey := do
  let publicKeyBytes ← b64decode publicKeyB64
  (E.fromPublicBytes publicKeyBytes).mapError .valueError

/--
Whether the signature is valid, with a note. Of the exceptions of the second decoding only
`binascii.Error` is caught.
-/
def verifyEd25519 (manifest : Dict) (signatureB64 publicKeyB64 : PyStr)
    : Except SigningError (Bool × PyStr) :=
  match loadPublicKey E publicKeyB64 with
  | .error exc => .ok (false, py "registered publisher key is malformed: " ++ exc.text)
  | .ok publicKey =>
    match b64decode signatureB64 with
    | .error (.binasciiError _) => .ok (false, py "signature is not valid base64")
    | .error exc => .error exc
    | .ok signatureBytes => do
      let digest ← manifestSigningDigest sha256 R manifest
      if E.verify publicKey signatureBytes digest then
        return (true, py "ed25519 signature verified against registered publisher key")
      else
        return (false, py "ed25519 signature does not match manifest content")

/--
`signature or manifest.get("signature")`
-/
def effectiveSignature (manifest : Dict) (signature : Option PyStr) : Json :=
  match signature with
  | some text => if text.isEmpty then manifest.get (py "signature") else .str text
  | none => manifest.get (py "signature")

/--
`signed_by or publisher`
-/
def signerOr (signedBy : Json) (publisher : PyStr) : Json :=
  if signedBy.truthy then signedBy else .str publisher

variable (registry : Registry)

def verifyManifestSignature (manifest : Dict) (signature : Option PyStr)
    : Except SigningError SignatureResult :=
  let signedBy := manifest.get (py "signed_by")
  match manifest.get (py "publisher") with
  | .str (c :: cs) =>
    let publisher := c :: cs
    if signature = none ∧ (manifest.get (py "signature")).truthy = false then
      .ok ⟨.unsigned, publisher, signedBy, py "no signature on manifest"⟩
    else
      match effectiveSignature manifest signature with
      | .str text =>
        if text.length < 16 then
          .ok ⟨.invalid, publisher, signedBy, py "signature payload missing or too short"⟩
        else if isVerifiedPublisher registry publisher = false then
          .ok ⟨.unknownPublisher, publisher, signedBy,
            py "publisher " ++ R.str publisher
              ++ py " not in verified registry; install requires explicit user trust"⟩
        else if signedBy.isNone = false ∧ signedBy.pyEq (.str publisher) = false then
          .ok ⟨.invalid, publisher, signedBy,
            py "signed_by " ++ signedBy.repr R ++ py " does not match publisher " ++ R.str publisher⟩
        else
          match publisherSigningKey registry publisher with
          | some publicKeyB64 => do
            let (ok, note) ← verifyEd25519 E sha256 R manifest text publicKeyB64
            return ⟨if ok then .verified else .invalid, publisher, signerOr signedBy publisher, note⟩
          | none =>
            .ok ⟨.structureVerified, publisher, signerOr signedBy publisher,
              py "structural verification only; publisher has no registered ed25519 key"⟩
      | _ => .ok ⟨.invalid, publisher, signedBy, py "signature payload missing or too short"⟩
  | _ => .ok ⟨.invalid, none, .null, py "manifest missing publisher field"⟩

end Verify

end Signing
