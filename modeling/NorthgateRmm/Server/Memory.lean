import NorthgateRmm.Server.Ledger

/-!
# The in-memory `ControlPlane`

`control_plane.py`: the Phase 1 domain service, which keeps its state in
dictionaries and its times as the caller's `datetime`s. Dictionaries are lists of
their values in insertion order, which the key is read off. Comparisons and sums of
times are Python's: two times that carry the same `tzinfo` object are compared by
their wall clocks, and a sum moves the wall clock.
-/

namespace NorthgateRmm.Server

namespace Datetime

/-- `a < b`. -/
def lt (a b : Datetime) : Bool := a.sub b < 0

/-- The UTC offset of each `tzinfo` at a wall clock reading with `fold=0`. -/
abbrev Zones := Nat → Int → Int

/-- `t + delta`. -/
def add (zones : Zones) (t : Datetime) (delta : Int) : Datetime :=
  ⟨t.wall + delta, t.tzinfo, zones t.tzinfo (t.wall + delta)⟩

/-- `max(a, b)`: the first unless the second is greater. -/
def max (a b : Datetime) : Datetime := if a.lt b then b else a

end Datetime

namespace Memory

/-! ## State -/

structure Identity where
  identityId : Uuid
  endpointId : Uuid
  publicKeyFingerprint : String
  createdAt : Datetime
  status : EndpointLifecycle := .active
  revokedAt : Option Datetime := none
  revocationReason : Option String := none
  deriving DecidableEq, Repr

def Identity.postInit (i : Identity) : Option Error :=
  firstFailure
    [(!isFingerprint i.publicKeyFingerprint,
        .validation "fingerprint must be a lowercase SHA-256 value"),
     (i.status == .revoked && (i.revokedAt.isNone || i.revocationReason.getD "" == ""),
        .validation "revoked identity requires time and reason"),
     (i.status != .revoked && (i.revokedAt.isSome || i.revocationReason.isSome),
        .validation "only a revoked identity may have revocation facts"),
     (i.revokedAt.any (·.lt i.createdAt),
        .validation "revocation cannot predate identity creation")]

structure Endpoint where
  endpointId : Uuid
  displayName : String
  platform : Platform
  architecture : String
  identityId : Uuid
  enrolledAt : Datetime
  lastReceiptAt : Option Datetime := none
  lastHeartbeatAt : Option Datetime := none
  deriving DecidableEq, Repr

structure Observation where
  observationId : Uuid
  endpointId : Uuid
  messageId : Uuid
  observationType : ObservationType
  schemaVersion : Nat
  sourceTime : Datetime
  receivedAt : Datetime
  bootId : Uuid
  sequence : Nat
  payloadDigest : String
  deriving DecidableEq, Repr

structure ControlPlane where
  endpoints : List Endpoint := []
  identities : List Identity := []
  fingerprints : List (String × Uuid) := []
  observations : List Observation := []
  auditEvents : List AuditEvent := []
  seenMessageIds : List Uuid := []
  lastSequences : List SequenceRow := []

/-- `d[key] = value`, where `p` recognises the value held for the key. -/
def put {α : Type} (p : α → Bool) (x : α) (rows : List α) : List α :=
  if rows.any p then rows.map fun y => if p y then x else y else rows ++ [x]

namespace ControlPlane

def getIdentity (c : ControlPlane) (identityId : Uuid) : Option Identity :=
  c.identities.find? (·.identityId == identityId)

def getEndpoint (c : ControlPlane) (endpointId : Uuid) : Option Endpoint :=
  c.endpoints.find? (·.endpointId == endpointId)

/-- `_last_sequences.get((identity_id, boot_id), 0)`. -/
def lastSequence (c : ControlPlane) (identityId bootId : Uuid) : Nat :=
  ((c.lastSequences.find? fun r => r.identityId == identityId && r.bootId == bootId).map
    (·.lastSequence)).getD 0

def audit (c : ControlPlane) (event : AuditEvent) : ControlPlane :=
  { c with auditEvents := c.auditEvents ++ [event] }

end ControlPlane

/-! ## Enrollment -/

structure EnrollArgs where
  displayName : String
  platform : Platform
  architecture : String
  publicKeyFingerprint : String
  now : Datetime
  actorId : String := "phase1-simulator"
  endpointId : Uuid
  identityId : Uuid
  correlationId : Uuid

def EnrollArgs.identity (a : EnrollArgs) : Identity :=
  { identityId := a.identityId
    endpointId := a.endpointId
    publicKeyFingerprint := a.publicKeyFingerprint
    createdAt := a.now }

def EnrollArgs.endpoint (a : EnrollArgs) : Endpoint :=
  { endpointId := a.endpointId
    displayName := a.displayName
    platform := a.platform
    architecture := a.architecture
    identityId := a.identityId
    enrolledAt := a.now }

def Endpoint.postInit (e : Endpoint) : Option Error :=
  firstFailure
    [(e.displayName.isEmpty || maxDisplayNameLength < e.displayName.length,
        .validation "display_name is empty or too long"),
     (e.architecture.isEmpty || 32 < e.architecture.length,
        .validation "architecture is empty or too long")]

def enrollSyntheticEndpoint (a : EnrollArgs) (c : ControlPlane) :
    Except Error (Endpoint × Identity) × ControlPlane :=
  if c.fingerprints.any (·.1 == a.publicKeyFingerprint) then
    (.error (.validation "fingerprint is already enrolled"), c)
  else match a.identity.postInit <|> a.endpoint.postInit with
  | some e => (.error e, c)
  | none =>
    let c := { c with
      identities := put (·.identityId == a.identityId) a.identity c.identities
      endpoints := put (·.endpointId == a.endpointId) a.endpoint c.endpoints
      fingerprints := put (·.1 == a.publicKeyFingerprint) (a.publicKeyFingerprint, a.identityId)
        c.fingerprints }
    (.ok (a.endpoint, a.identity), c.audit
      { serverTime := a.now.instant
        actorType := "operator"
        actorId := a.actorId
        subject := "endpoint:" ++ a.endpointId.toText
        action := "endpoint.enroll"
        decision := .accepted
        reason := "synthetic Phase 1 enrollment"
        correlationId := a.correlationId
        metadata := [("identity_id", a.identityId.toText)] })

/-! ## Ingestion -/

structure MessageArgs where
  authenticatedIdentityId : Uuid
  envelope : MessageEnvelope
  /-- the canonical JSON of the payload, which `payload.digest()` hashes -/
  payload : List UInt8
  receivedAt : Datetime
  observationId : Uuid

/-- A message with its kind, and the platform and architecture of an inventory payload. -/
structure IngestArgs extends MessageArgs where
  observationType : ObservationType
  inventoryBinding : Option (Platform × String)

def MessageArgs.heartbeat (m : MessageArgs) : IngestArgs :=
  { m with observationType := .heartbeat, inventoryBinding := none }

def MessageArgs.inventory (m : MessageArgs) (platform : Platform) (architecture : String) : IngestArgs :=
  { m with observationType := .inventory, inventoryBinding := some (platform, architecture) }

def ingestEvent (a : IngestArgs) (endpointId : Uuid) (decision : Decision) (reason : String)
    (metadata : List (String × String)) : AuditEvent :=
  { serverTime := a.receivedAt.instant
    actorType := "endpoint_identity"
    actorId := a.authenticatedIdentityId.toText
    subject := "endpoint:" ++ endpointId.toText
    action := a.observationType.value ++ ".ingest"
    decision := decision
    reason := reason
    correlationId := a.envelope.correlationId
    metadata := metadata }

/-- `_reject`. -/
def reject {α : Type} (a : IngestArgs) (endpointId : Uuid) (e : Error) (c : ControlPlane) :
    Except Error α × ControlPlane :=
  (.error e, c.audit (ingestEvent a endpointId .rejected e.reason []))

/-- The checks of `_authorize_message` on a known identity, in their order. -/
def authorizeChecks (zones : Datetime.Zones) (a : IngestArgs) (i : Identity) (c : ControlPlane) :
    List (Bool × Error) :=
  [(i.revokedAt.isSome, .authorization "authenticated identity is revoked"),
   (a.envelope.endpointId != i.endpointId,
      .authorization "message endpoint does not match transport identity"),
   ((a.receivedAt.add zones maxClockSkew).lt a.envelope.createdAt,
      .validation "message creation time exceeds allowed clock skew"),
   (!a.receivedAt.lt a.envelope.expiresAt, .validation "message expired before receipt"),
   (c.seenMessageIds.contains a.envelope.messageId, .replay "message ID replayed"),
   (a.envelope.sequence ≤ c.lastSequence a.authenticatedIdentityId a.envelope.bootId,
      .replay "boot sequence replayed or out of order")]

/-- `_authorize_message`; a refusal carries the endpoint its event is about. -/
def authorizeMessage (zones : Datetime.Zones) (a : IngestArgs) (c : ControlPlane) :
    Except (Uuid × Error) Identity :=
  match c.getIdentity a.authenticatedIdentityId with
  | none => .error (a.envelope.endpointId, .authorization "unknown authenticated identity")
  | some i =>
    match firstFailure (authorizeChecks zones a i c) with
    | none => .ok i
    | some e =>
      .error (if e = .authorization "message endpoint does not match transport identity" then
        a.envelope.endpointId else i.endpointId, e)

def IngestArgs.observation (a : IngestArgs) (i : Identity) : Observation :=
  { observationId := a.observationId
    endpointId := i.endpointId
    messageId := a.envelope.messageId
    observationType := a.observationType
    schemaVersion := 1
    sourceTime := a.envelope.createdAt
    receivedAt := a.receivedAt
    bootId := a.envelope.bootId
    sequence := a.envelope.sequence
    payloadDigest := sha256Hex a.payload }

/-- `_accept_message`. -/
def acceptMessage (identityId : Uuid) (o : Observation) (c : ControlPlane) : ControlPlane :=
  { c with
    seenMessageIds := o.messageId :: c.seenMessageIds
    lastSequences := put (fun r => r.identityId == identityId && r.bootId == o.bootId)
      ⟨identityId, o.bootId, o.sequence⟩ c.lastSequences
    observations := c.observations ++ [o] }

/-- `max(received_at, last or received_at)`. -/
def latest (last : Option Datetime) (receivedAt : Datetime) : Option Datetime :=
  some (receivedAt.max (last.getD receivedAt))

def touched (kind : ObservationType) (receivedAt : Datetime) (e : Endpoint) : Endpoint :=
  { e with
    lastReceiptAt := latest e.lastReceiptAt receivedAt
    lastHeartbeatAt := match kind with
      | .heartbeat => latest e.lastHeartbeatAt receivedAt
      | .inventory => e.lastHeartbeatAt }

/-- `Observation.__post_init__`. -/
def Observation.postInit (o : Observation) : Option Error :=
  firstFailure [(!isSha256Hex o.payloadDigest,
    .validation "payload_digest must be a lowercase SHA-256 value")]

/-- `_audit_acceptance`. -/
def auditAcceptance (a : IngestArgs) (i : Identity) (o : Observation) (c : ControlPlane) : ControlPlane :=
  c.audit (ingestEvent a i.endpointId .accepted "message contract and authorization checks passed"
    [("message_id", o.messageId.toText), ("payload_digest", o.payloadDigest),
      ("sequence", decimal 1 o.sequence)])

def touchEndpoint (a : IngestArgs) (e : Endpoint) (c : ControlPlane) : ControlPlane :=
  { c with
    endpoints := put (·.endpointId == e.endpointId) (touched a.observationType a.receivedAt e) c.endpoints }

def ingestHeartbeat (zones : Datetime.Zones) (m : MessageArgs) (c : ControlPlane) :
    Except Error Observation × ControlPlane :=
  let a := m.heartbeat
  match authorizeMessage zones a c with
  | .error (endpointId, e) => reject a endpointId e c
  | .ok i =>
    let o := a.observation i
    match o.postInit with
    | some err => (.error err, c)
    | none =>
      let c := acceptMessage a.authenticatedIdentityId o c
      match c.getEndpoint i.endpointId with
      | none => (.error (.notFound "endpoint does not exist"), c)
      | some e => (.ok o, auditAcceptance a i o (touchEndpoint a e c))

def ingestInventory (zones : Datetime.Zones) (m : MessageArgs) (platform : Platform)
    (architecture : String) (c : ControlPlane) : Except Error Observation × ControlPlane :=
  let a := m.inventory platform architecture
  match authorizeMessage zones a c with
  | .error (endpointId, e) => reject a endpointId e c
  | .ok i =>
    match c.getEndpoint i.endpointId with
    | none => (.error (.notFound "endpoint does not exist"), c)
    | some e =>
      if platform ≠ e.platform ∨ architecture ≠ e.architecture then
        reject a i.endpointId (.validation "inventory binding does not match enrolled endpoint") c
      else
        let o := a.observation i
        match o.postInit with
        | some err => (.error err, c)
        | none =>
          let c := acceptMessage a.authenticatedIdentityId o c
          (.ok o, auditAcceptance a i o (touchEndpoint a e c))

/-! ## Revocation -/

structure RevokeArgs where
  identityId : Uuid
  reason : String
  actorId : String
  now : Datetime
  correlationId : Uuid

def revokeEvent (a : RevokeArgs) (decision : Decision) (reason : String) : AuditEvent :=
  { serverTime := a.now.instant
    actorType := "operator"
    actorId := a.actorId
    subject := "identity:" ++ a.identityId.toText
    action := "identity.revoke"
    decision := decision
    reason := reason
    correlationId := a.correlationId }

def revokeIdentity (a : RevokeArgs) (c : ControlPlane) : Except Error Identity × ControlPlane :=
  if a.reason.isEmpty || 256 < a.reason.length then
    (.error (.validation "revocation reason is empty or too long"), c)
  else match c.getIdentity a.identityId with
  | none => (.error (.notFound "identity does not exist"), c)
  | some i =>
    if i.revokedAt.isSome then
      (.ok i, c.audit (revokeEvent a .noChange "identity already revoked"))
    else
      let revoked : Identity := { i with
        status := .revoked, revokedAt := some a.now, revocationReason := some a.reason }
      match revoked.postInit with
      | some e => (.error e, c)
      | none =>
        (.ok revoked, { c with
          identities := put (·.identityId == a.identityId) revoked c.identities }.audit
            (revokeEvent a .accepted a.reason))

end Memory

end NorthgateRmm.Server
