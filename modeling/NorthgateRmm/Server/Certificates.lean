import NorthgateRmm.Server.AgentApi

/-!
# Certificates and signing requests

X.509 parsing and chain verification are left to the `cryptography` library: a
`Certificate` or a `Csr` is what that library presents after it parsed some bytes.
The checks of `validate_endpoint_certificate` and `_validate_csr` on these values are
the program's own.
-/

namespace NorthgateRmm.Server

/-! ## Parsed values -/

inductive PublicKey where
  | ed25519
  | ellipticCurve (curve : String)
  | rsa (keySize : Nat)
  | unsupported
  deriving DecidableEq

inductive GeneralName where
  | uri (value : String)
  | other
  deriving DecidableEq

/-- The extensions the profile reads; `none` for one that is missing. -/
structure Extensions where
  basicConstraintsCa : Option Bool
  digitalSignature : Option Bool
  extendedKeyUsage : Option (List String)
  subjectAlternativeName : Option (List GeneralName)
  unknownCritical : Bool
  deriving DecidableEq

/-- `x509.Certificate`. `extensions` is `none` when reading them raises. -/
structure Certificate where
  serialNumber : Int
  issuer : String
  notValidBefore : Instant
  notValidAfter : Instant
  extensions : Option Extensions
  publicKey : PublicKey
  /-- `public_key().public_bytes(DER, SubjectPublicKeyInfo)` -/
  subjectPublicKey : List UInt8
  /-- `public_bytes(DER)` -/
  der : List UInt8
  deriving DecidableEq

/-- `x509.CertificateSigningRequest`. `extensionsLength` is `none` when reading them raises. -/
structure Csr where
  isSignatureValid : Bool
  subjectLength : Nat
  extensionsLength : Option Nat
  attributesLength : Nat
  publicKey : PublicKey
  subjectPublicKey : List UInt8
  der : List UInt8
  deriving DecidableEq

/-! ## UUID text -/

/-- `UUID(text)` on 32 hexadecimal digits with hyphens anywhere. -/
def parseUuid (text : String) : Option Uuid :=
  let digits := text.toList.filter (· != '-')
  if digits.length = 32 ∧ digits.all (fun c => Sha256.isHexDigit c.toLower) then
    some ⟨BitVec.ofNat 128 (digits.foldl
      (fun n c => n * 16 + (if c.isDigit then c.toNat - 48 else c.toLower.toNat - 87)) 0)⟩
  else none

example : parseUuid "6BA7b810-9dad-41d1-80b4-00c04fd430c8" =
    some ⟨0x6ba7b8109dad41d180b400c04fd430c8#128⟩ := by decide +kernel

/-! ## The endpoint profile -/

def endpointUriPrefix : String := "urn:northgate-rmm:endpoint:"
def clientAuth : String := "1.3.6.1.5.5.7.3.2"

def fingerprintOf (subjectPublicKey : List UInt8) : String := "sha256:" ++ sha256Hex subjectPublicKey

theorem isFingerprint_fingerprintOf (bytes : List UInt8) : isFingerprint (fingerprintOf bytes) = true := by
  have htext : (fingerprintOf bytes).toList = "sha256:".toList ++ (sha256Hex bytes).toList :=
    String.toList_append
  have hlen : "sha256:".toList.length = 7 := by decide
  rw [isFingerprint, htext, ← hlen, List.take_left, List.drop_left, String.ofList_toList,
    isSha256Hex_sha256Hex]
  rfl

/-- `_supported_public_key` of `enrollment.py`. -/
def supportedCsrKey : PublicKey → Bool
  | .ellipticCurve curve => curve == "secp256r1" || curve == "secp384r1"
  | .rsa keySize => 2048 ≤ keySize
  | _ => false

/-- `_supported_public_key` of `listener.py`, which also takes Ed25519. -/
def supportedPeerKey : PublicKey → Bool
  | .ed25519 => true
  | key => supportedCsrKey key

/-- The endpoint a certificate names in its one URI. -/
def endpointOfNames (names : List GeneralName) : Except Error Uuid :=
  match names with
  | [.uri value] =>
    if endpointUriPrefix.toList.isPrefixOf value.toList then
      let text := String.ofList (value.toList.drop endpointUriPrefix.length)
      match parseUuid text with
      | none => .error (.validation "client certificate endpoint identity is invalid")
      | some u =>
        if u.toText = text then .ok u
        else .error (.validation "client certificate endpoint identity is not canonical")
    else .error (.validation "client certificate endpoint identity is invalid")
  | _ => .error (.validation "client certificate endpoint identity is invalid")

def validateEndpointCertificate (certificate : Certificate) : Except Error VerifiedClientCertificate :=
  match certificate.extensions with
  | some ⟨some ca, some digitalSignature, some extended, some names, unknownCritical⟩ =>
    if ca || !digitalSignature then .error (.validation "client certificate purpose is invalid")
    else if extended ≠ [clientAuth] then
      .error (.validation "client certificate extended purpose is invalid")
    else match endpointOfNames names with
    | .error e => .error e
    | .ok endpointId =>
      if unknownCritical then
        .error (.validation "client certificate has an unknown critical extension")
      else if !supportedPeerKey certificate.publicKey then
        .error (.validation "client certificate public key is unsupported")
      else .ok ⟨endpointId, fingerprintOf certificate.subjectPublicKey,
        isFingerprint_fingerprintOf certificate.subjectPublicKey⟩
  | _ => .error (.validation "client certificate profile is invalid")

theorem endpointOfNames_ok {names : List GeneralName} {u : Uuid} (h : endpointOfNames names = .ok u) :
    names = [.uri (endpointUriPrefix ++ u.toText)] := by
  unfold endpointOfNames at h
  split at h
  · rename_i value
    split at h
    · rename_i hprefix
      dsimp only at h
      split at h
      · cases h
      · split at h
        · rename_i u' _ htext
          cases h
          have hsplit := List.prefix_iff_eq_append.mp (List.isPrefixOf_iff_prefix.mp hprefix)
          rw [String.length_toList] at hsplit
          have hvalue : value = endpointUriPrefix ++ u.toText := by
            rw [← String.toList_inj, String.toList_append, htext, String.toList_ofList, hsplit]
          rw [hvalue]
        · cases h
    · cases h
  · cases h

/-- A certificate that passes names its endpoint in its one URI, and its key. -/
theorem validateEndpointCertificate_ok {certificate : Certificate} {peer : VerifiedClientCertificate}
    (h : validateEndpointCertificate certificate = .ok peer) :
    peer.publicKeyFingerprint = fingerprintOf certificate.subjectPublicKey ∧
      ∃ extensions, certificate.extensions = some extensions ∧ extensions.subjectAlternativeName =
        some [.uri (endpointUriPrefix ++ peer.endpointId.toText)] := by
  unfold validateEndpointCertificate at h
  split at h
  · rename_i ca ds extended names critical hext
    split at h
    · cases h
    · split at h
      · cases h
      · split at h
        · cases h
        · rename_i u hu
          rw [endpointOfNames_ok hu] at hext
          split at h
          · cases h
          · split at h
            · cases h
            · cases h
              exact ⟨rfl, _, hext, rfl⟩
  · cases h

/-! ## Signing requests -/

def maxCsrBytes : Nat := 8192

/-- `_validate_csr`, for a library that parses a request with `loadCsr`. -/
def validateCsr (loadCsr : List UInt8 → Option Csr) (csrDer : List UInt8) :
    Except Error (List UInt8 × String) :=
  if !(1 ≤ csrDer.length && csrDer.length ≤ maxCsrBytes) then
    .error (.validation "endpoint CSR size is invalid")
  else match loadCsr csrDer with
  | none => .error (.validation "endpoint CSR is invalid")
  | some csr =>
    if !csr.isSignatureValid then
      .error (.validation "endpoint CSR proof of possession is invalid")
    else if csr.subjectLength ≠ 0 then
      .error (.validation "endpoint CSR contains unauthorized claims")
    else match csr.extensionsLength with
    | none => .error (.validation "endpoint CSR is invalid")
    | some extensionsLength =>
      if extensionsLength ≠ 0 || csr.attributesLength ≠ 0 then
        .error (.validation "endpoint CSR contains unauthorized claims")
      else if !supportedCsrKey csr.publicKey then
        .error (.validation "endpoint CSR public key is unsupported")
      else .ok (csr.der, fingerprintOf csr.subjectPublicKey)

end NorthgateRmm.Server
