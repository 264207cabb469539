import NorthgateRmm.Agent.Protocol

/-!
# Identity material

`identity/store.go`: the material of an endpoint identity, what `validateMaterial` asks
of it, and the bundle it is stored as. What `encoding/pem`, `crypto/x509` and
`crypto/tls` make of bytes is left open in `Crypto`: functions of their arguments.
-/

namespace NorthgateRmm.Agent.Identity

open Json GoJson GoString Wire
open Protocol (Time firstError)

abbrev Bytes := List UInt8

def schemaVersion : Int := 1
def maxBundleBytes : Nat := 128 * 1024
def maxClientCertificateBytes : Nat := 32 * 1024
def maxPrivateKeyBytes : Nat := 16 * 1024
def maxServerRootsBytes : Nat := 64 * 1024
def maxCertificateCount : Nat := 8

/-! ## Certificates and keys -/

inductive ExtKeyUsage where
  | any
  | serverAuth
  | clientAuth
  | other
  deriving DecidableEq

/-- The fields of an `x509.Certificate` that are read. -/
structure Certificate where
  isCA : Bool
  notBefore : Int
  notAfter : Int
  /-- the bits of `x509.KeyUsage` -/
  keyUsage : Nat
  extKeyUsage : List ExtKeyUsage
  unknownExtKeyUsage : List String
  unhandledCriticalExtensions : List String
  uris : List String
  deriving DecidableEq

def keyUsageDigitalSignature : Nat := 1
def keyUsageCertSign : Nat := 32

inductive Curve where
  | p224
  | p256
  | p384
  | p521
  deriving DecidableEq

inductive PrivateKey where
  | ed25519 (key : Bytes)
  | ecdsa (curve : Curve) (d : Nat)
  | rsa (modulus : Option Nat) (d : Nat)
  | other
  deriving DecidableEq

/-- `tls.Certificate`. -/
structure KeyPair where
  certificate : List Bytes
  privateKey : PrivateKey
  leaf : Option Certificate
  deriving DecidableEq

/-- `pem.Block`. -/
structure Block where
  type : String
  headers : List (String × String)
  bytes : Bytes
  deriving DecidableEq

structure Crypto where
  /-- `pem.Decode`: a block and the rest, or no block -/
  pemDecode : Bytes → Option (Block × Bytes)
  parseCertificate : Bytes → Option Certificate
  x509KeyPair : (certPEM keyPEM : Bytes) → Option KeyPair
  /-- `Verify` for client authentication -/
  verify : (leaf : Certificate) → (roots intermediates : List Certificate) → (now : Time) → Bool

structure Material where
  endpointID : String
  clientCertificatePEM : Bytes
  privateKeyPEM : Bytes
  serverRootsPEM : Bytes
  deriving DecidableEq

/-! ## `validateMaterial` -/

/-- `len(bytes.TrimSpace(raw)) == 0`. -/
def blank (raw : Bytes) : Bool := (runes raw).all fun r => r.any isSpace

section

variable (crypto : Crypto)

/-- The loop of `parseCertificates`, with the number of blocks it may still read. -/
def certificateBlocks : (blocks : Nat) → (rest : Bytes) → Option (List Certificate)
  | 0, rest => if blank rest then some [] else none
  | blocks + 1, rest =>
    if blank rest then some []
    else do
      let (block, remaining) ← crypto.pemDecode rest
      if block.type ≠ "CERTIFICATE" || !block.headers.isEmpty || rest.length ≤ remaining.length then none
      else do
        let certificate ← crypto.parseCertificate block.bytes
        let certificates ← certificateBlocks blocks remaining
        return certificate :: certificates

def parseCertificates (raw : Bytes) (maxBlocks : Nat) : Option (List Certificate) :=
  (certificateBlocks crypto maxBlocks raw).bind fun certificates =>
    if certificates.isEmpty then none else some certificates

def validatePrivateKeyPEM (raw : Bytes) : Bool :=
  match crypto.pemDecode raw with
  | none => false
  | some (block, rest) => block.headers.isEmpty && blank rest &&
      (block.type = "PRIVATE KEY" || block.type = "RSA PRIVATE KEY" || block.type = "EC PRIVATE KEY")

def verifyClientCertificateChain (certificates : List Certificate) (now : Time) : Bool :=
  match certificates with
  | leaf :: root :: rest =>
    let chain := root :: rest
    crypto.verify leaf (chain.getLast?.toList) chain.dropLast now
  | _ => false

def supportedPrivateKey : PrivateKey → Bool
  | .ed25519 key => key.length = 64
  | .ecdsa curve _ => curve = .p256 || curve = .p384
  | .rsa modulus _ => modulus.any (2 ^ 2047 ≤ ·)
  | .other => false

def allowsServerAuthentication (certificate : Certificate) : Bool :=
  if certificate.extKeyUsage.isEmpty then certificate.unknownExtKeyUsage.isEmpty
  else certificate.extKeyUsage.any fun usage => usage = .serverAuth || usage = .any

def matchesEndpointID (certificate : Certificate) (endpointID : String) : Bool :=
  certificate.uris = ["urn:northgate-rmm:endpoint:" ++ endpointID]

/-- The validity window of a certificate. -/
def usableAt (certificate : Certificate) (now : Time) : Bool :=
  certificate.notBefore ≤ now.ns && now.ns < certificate.notAfter

def withinLimit (raw : Bytes) (limit : Nat) : Bool := raw.length ≠ 0 && raw.length ≤ limit

/-- The checks of one trust root. -/
def validateRoot (now : Time) (root : Certificate) : Except String Unit :=
  firstError
    [(!root.isCA || root.keyUsage &&& keyUsageCertSign = 0 || !usableAt root now ||
        !root.unhandledCriticalExtensions.isEmpty,
      "server trust root is not a certificate authority"),
     (!allowsServerAuthentication root, "server trust root does not permit server authentication")]

/-- `validateMaterial`: the key pair with its leaf, and the pool of trust roots. -/
def validateMaterial (material : Material) (now : Time) : Except String (KeyPair × List Certificate) := do
  if !uuidPattern material.endpointID then throw "endpoint identity has an invalid endpoint ID"
  if now.isZero then throw "endpoint identity validation time is required"
  if !withinLimit material.clientCertificatePEM maxClientCertificateBytes ||
      !withinLimit material.privateKeyPEM maxPrivateKeyBytes ||
      !withinLimit material.serverRootsPEM maxServerRootsBytes then
    throw "endpoint identity material is outside size limits"
  let some clientCertificates := parseCertificates crypto material.clientCertificatePEM maxCertificateCount
    | throw "endpoint client certificate PEM is invalid"
  if !validatePrivateKeyPEM crypto material.privateKeyPEM then throw "endpoint private key PEM is invalid"
  let some pair := crypto.x509KeyPair material.clientCertificatePEM material.privateKeyPEM
    | throw "endpoint certificate and private key do not form a valid pair"
  let first :: _ := pair.certificate
    | throw "endpoint certificate and private key do not form a valid pair"
  if !supportedPrivateKey pair.privateKey then throw "endpoint private key algorithm or strength is unsupported"
  let some leaf := crypto.parseCertificate first
    | throw "endpoint client certificate is invalid or not currently usable"
  if leaf.isCA || !usableAt leaf now || leaf.keyUsage &&& keyUsageDigitalSignature = 0 ||
      !matchesEndpointID leaf material.endpointID then
    throw "endpoint client certificate is invalid or not currently usable"
  if !verifyClientCertificateChain crypto clientCertificates now then
    throw "endpoint client certificate chain is invalid"
  let some rootCertificates := parseCertificates crypto material.serverRootsPEM maxCertificateCount
    | throw "server trust roots PEM is invalid"
  rootCertificates.forM (validateRoot now)
  return ({ pair with leaf := some leaf }, rootCertificates)

end

/-! ## The bundle -/

/-- `wireBundle`, as it is read; the PEM members of a bundle are written from bytes. -/
structure WireBundle where
  schemaVersion : Int
  endpointID : String
  clientCertificatePEM : String
  privateKeyPEM : String
  serverRootsPEM : String
  deriving DecidableEq

def bundleFields : List (StructField WireBundle) :=
  [⟨"schema_version", storeInt fun n b => { b with schemaVersion := n }⟩,
   ⟨"endpoint_id", storeString fun s b => { b with endpointID := s }⟩,
   ⟨"client_certificate_pem", storeString fun s b => { b with clientCertificatePEM := s }⟩,
   ⟨"private_key_pem", storeString fun s b => { b with privateKeyPEM := s }⟩,
   ⟨"server_roots_pem", storeString fun s b => { b with serverRootsPEM := s }⟩]

def bundleValues (material : Material) : List Value :=
  [.num (numberOf schemaVersion), string material.endpointID, .str (literalOfBytes material.clientCertificatePEM),
   .str (literalOfBytes material.privateKeyPEM), .str (literalOfBytes material.serverRootsPEM)]

/-- The members of `wireBundle` for `material`. -/
def bundleValue (material : Material) : Value :=
  object (bundleFields.zipWith (fun f v => (f.name, v)) (bundleValues material))

/-- `json.Marshal(wireBundle{...})`. -/
def marshalBundle (material : Material) : Bytes := encodeUtf8 (String.ofList (render (bundleValue material)))

def decodeBundle (raw : Bytes) : Option WireBundle := do
  let value ← StrictJson.validate raw
  let bundle ← decodeStruct bundleFields value ⟨0, "", "", "", ""⟩
  if bundle.schemaVersion ≠ schemaVersion then none else some bundle

/-- The material of a bundle. -/
def WireBundle.material (bundle : WireBundle) : Material where
  endpointID := bundle.endpointID
  clientCertificatePEM := encodeUtf8 bundle.clientCertificatePEM
  privateKeyPEM := encodeUtf8 bundle.privateKeyPEM
  serverRootsPEM := encodeUtf8 bundle.serverRootsPEM

/-- The bundle that is read back. -/
def storedBundle (material : Material) : WireBundle :=
  ⟨schemaVersion, material.endpointID, repaired material.clientCertificatePEM, repaired material.privateKeyPEM,
    repaired material.serverRootsPEM⟩

theorem printable_bundleValue (material : Material) (limit : Nat) :
    Printable Plain (limit + 1) (bundleValue material) := by
  refine printable_object ?_
  simp only [bundleFields, bundleValues, List.zipWith_cons_cons, List.zipWith_nil_left, List.forall_mem_cons,
    List.not_mem_nil, false_implies, implies_true, and_true]
  exact ⟨.num (integral_numberOf _), printable_string _, .str (plain_literalOfBytes _), .str (plain_literalOfBytes _),
    .str (plain_literalOfBytes _)⟩

theorem checkValue_bundleValue (material : Material) : StrictJson.checkValue (bundleValue material) = true := by
  refine StrictJson.checkValue_object (by simp [bundleFields, bundleValues]) ?_
  simp only [bundleFields, bundleValues, List.zipWith_cons_cons, List.zipWith_nil_left, List.forall_mem_cons,
    List.not_mem_nil, false_implies, implies_true, and_true]
  exact ⟨rfl, rfl, rfl, rfl, rfl⟩

/-- **A written bundle is read back**, with its PEM members repaired. -/
theorem decodeBundle_marshalBundle (material : Material) :
    decodeBundle (marshalBundle material) = some (storedBundle material) := by
  have hvalid : StrictJson.validate (marshalBundle material) = some (bundleValue material) :=
    StrictJson.validate_render (printable_bundleValue material 9999) (checkValue_bundleValue material)
  have hstore : decodeStruct bundleFields (bundleValue material) ⟨0, "", "", "", ""⟩ = some (storedBundle material) := by
    have hint : parseInt64 (numberOf schemaVersion) = some schemaVersion := parseInt64_numberOf (by decide) (by decide)
    rw [bundleValue, decodeStruct_object (by simp [bundleFields])]
    simp only [bundleFields, bundleValues, storeAll, storeInt, storeString, GoJson.string, hint, Option.map_some,
      Option.bind_some, text_literalOf, text_literalOfBytes]
    rfl
  simp [decodeBundle, hvalid, hstore, storedBundle]

/-- The bytes of a literal. -/
def literalBytes (l : Literal) : Nat := (encode (renderLiteral l)).length

theorem length_marshalBundle (material : Material) : (marshalBundle material).length =
    100 + literalBytes (literalOf material.endpointID) + literalBytes (literalOfBytes material.clientCertificatePEM) +
      literalBytes (literalOfBytes material.privateKeyPEM) + literalBytes (literalOfBytes material.serverRootsPEM) := by
  rw [marshalBundle, encodeUtf8, toByteArray_eq, String.toList_ofList]
  simp only [bundleValue, bundleFields, bundleValues, object, render, renderMembers, List.zipWith_cons_cons,
    List.zipWith_nil_left, List.map_cons, List.map_nil, GoJson.string, encode_append, encode_cons, List.length_append,
    literalBytes]
  have hnames : (encode (renderLiteral (literalOf "schema_version"))).length = 16 ∧
      (encode (renderLiteral (literalOf "endpoint_id"))).length = 13 ∧
      (encode (renderLiteral (literalOf "client_certificate_pem"))).length = 24 ∧
      (encode (renderLiteral (literalOf "private_key_pem"))).length = 17 ∧
      (encode (renderLiteral (literalOf "server_roots_pem"))).length = 18 := by decide +kernel
  have hnumber : (encode (Number.render (numberOf schemaVersion))).length = 1 := by decide +kernel
  have hmarks : (String.utf8EncodeChar '\x7b').length = 1 ∧ (String.utf8EncodeChar ':').length = 1 ∧
      (String.utf8EncodeChar ',').length = 1 ∧ (String.utf8EncodeChar '\x7d').length = 1 := ⟨rfl, rfl, rfl, rfl⟩
  obtain ⟨h1, h2, h3, h4, h5⟩ := hnames
  obtain ⟨m1, m2, m3, m4⟩ := hmarks
  simp only [h1, h2, h3, h4, h5, hnumber, m1, m2, m3, m4]
  simp only [encode, List.flatMap_nil, List.length_nil]
  omega

/-- The three PEM strings are UTF-8. -/
def Material.isUtf8 (material : Material) : Bool :=
  (decodeUtf8 material.clientCertificatePEM).isSome && (decodeUtf8 material.privateKeyPEM).isSome &&
    (decodeUtf8 material.serverRootsPEM).isSome

theorem encodeUtf8_repaired {raw : Bytes} : encodeUtf8 (repaired raw) = raw ↔ (decodeUtf8 raw).isSome = true := by
  constructor
  · intro h
    rw [← h, decodeUtf8_encodeUtf8]
    rfl
  · intro h
    obtain ⟨s, hs⟩ := Option.isSome_iff_exists.mp h
    rw [bytes_of_decodeUtf8 hs, repaired_encode]
    rfl

/-- **The stored material is the given one exactly when its PEM strings are UTF-8.** -/
theorem material_storedBundle {material : Material} :
    (storedBundle material).material = material ↔ material.isUtf8 = true := by
  cases material
  simp only [storedBundle, WireBundle.material, Material.mk.injEq, true_and, encodeUtf8_repaired, Material.isUtf8,
    Bool.and_eq_true, and_assoc]

end NorthgateRmm.Agent.Identity
