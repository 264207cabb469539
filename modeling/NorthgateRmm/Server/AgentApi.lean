import NorthgateRmm.Server.Effect

/-!
# `AgentMessageApplication.handle`

A request is checked and decoded, its certificate is authenticated in one
transaction, and its message is ingested in a second one. `handle` is the three
parts in a row; `decodeRequest`, `authenticate` and `AuthenticatedRequest.ingest` are the
parts, so that other transactions can run between them.

`decode_message` is a parameter throughout: nothing here depends on what it accepts.
The body of a response is kept as the members of its JSON object.
-/

namespace NorthgateRmm.Server

/-! ## Requests and responses -/

/-- Identity facts of an already TLS-verified certificate. -/
structure VerifiedClientCertificate where
  endpointId : Uuid
  publicKeyFingerprint : String
  fingerprint_ok : isFingerprint publicKeyFingerprint = true
  deriving DecidableEq

structure AgentMessageRequest where
  method : String
  path : String
  contentType : Option String
  contentEncoding : Option String
  body : List UInt8
  deriving DecidableEq

inductive ResponseBody where
  /-- `{"message_id": …, "accepted": true}` -/
  | accepted (messageId : Uuid)
  /-- `{"error": code}` -/
  | error (code : String)
  deriving DecidableEq

structure AgentMessageResponse where
  status : Nat
  body : ResponseBody
  allow : Option String := none
  deriving DecidableEq

def errorResponse (status : Nat) (code : String) (allow : Option String := none) :
    AgentMessageResponse := ⟨status, .error code, allow⟩

/-! ## Messages -/

inductive MessagePayload where
  | heartbeat
  | inventory (platform : Platform) (architecture : String)
  deriving DecidableEq

/-- `HeartbeatMessage | InventoryMessage`, with the digest and the binding of the payload. -/
structure AgentMessage where
  envelope : MessageEnvelope
  payload : MessagePayload
  payloadDigest : String
  deriving DecidableEq

def AgentMessage.ingestArgs (m : AgentMessage) (args : MessageArgs) : IngestArgs :=
  match m.payload with
  | .heartbeat => args.heartbeat
  | .inventory platform architecture => args.inventory platform architecture

/-! ## Handling -/

def agentMessagePath : String := "/v1/agent/messages"
def maxEncodedMessageBytes : Nat := 65536

/-- A request past its authentication transaction. -/
structure AuthenticatedRequest where
  identityId : Uuid
  message : AgentMessage
  encodedDigest : String
  receivedAt : Instant
  deriving DecidableEq

/-- The response an exception is turned into; other exceptions leave `handle`. -/
def exceptionResponse : Error → Except Error AgentMessageResponse
  | .authorization _ => .ok (errorResponse 403 "unauthorized")
  | .replay _ => .ok (errorResponse 409 "message_conflict")
  | .validation _ => .ok (errorResponse 400 "invalid_message")
  | e => .error e

/-- What `_ingest` is called with for an authenticated request. -/
def AuthenticatedRequest.ingestArgs (r : AuthenticatedRequest) (observationId : Uuid) : IngestArgs :=
  r.message.ingestArgs
    { authenticatedIdentityId := r.identityId
      envelope := r.message.envelope
      payloadDigest := r.message.payloadDigest
      receivedAt := r.receivedAt
      encodedMessageDigest := some r.encodedDigest
      observationId := observationId }

@[simp] theorem AuthenticatedRequest.ingestArgs_identity (r : AuthenticatedRequest) (o : Uuid) :
    (r.ingestArgs o).authenticatedIdentityId = r.identityId := by
  unfold ingestArgs AgentMessage.ingestArgs; split <;> rfl

@[simp] theorem AuthenticatedRequest.ingestArgs_envelope (r : AuthenticatedRequest) (o : Uuid) :
    (r.ingestArgs o).envelope = r.message.envelope := by
  unfold ingestArgs AgentMessage.ingestArgs; split <;> rfl

@[simp] theorem AuthenticatedRequest.ingestArgs_digest (r : AuthenticatedRequest) (o : Uuid) :
    (r.ingestArgs o).encodedMessageDigest = some r.encodedDigest := by
  unfold ingestArgs AgentMessage.ingestArgs; split <;> rfl

/-- The second transaction. `seen` is the snapshot its message lookup reads. -/
def AuthenticatedRequest.ingestSeeing (seen : List ObservationRow) (r : AuthenticatedRequest)
    (observationId : Uuid) (db : Db) : Except Error AgentMessageResponse × Db :=
  let out := Server.ingestSeeing seen (r.ingestArgs observationId) db
  match out.1 with
  | .ok _ => (.ok ⟨200, .accepted r.message.envelope.messageId, none⟩, out.2)
  | .error e => (exceptionResponse e, out.2)

def AuthenticatedRequest.ingest (r : AuthenticatedRequest) (observationId : Uuid) (db : Db) :
    Except Error AgentMessageResponse × Db :=
  r.ingestSeeing db.observations observationId db

theorem AuthenticatedRequest.ingestSeeing_snd (seen : List ObservationRow) (r : AuthenticatedRequest)
    (observationId : Uuid) (db : Db) :
    (r.ingestSeeing seen observationId db).2 =
      (Server.ingestSeeing seen (r.ingestArgs observationId) db).2 := by
  unfold ingestSeeing
  dsimp only
  split <;> rfl

section Handle

variable (decode : List UInt8 → Except Error AgentMessage)

/-- The checks before any transaction. -/
def decodeRequest (request : AgentMessageRequest) : Except (Except Error AgentMessageResponse) AgentMessage :=
  if request.path ≠ agentMessagePath then .error (.ok (errorResponse 404 "not_found"))
  else if request.method ≠ "POST" then
    .error (.ok (errorResponse 405 "method_not_allowed" (some "POST")))
  else if request.contentType.map String.toLower ≠ some "application/json" then
    .error (.ok (errorResponse 415 "unsupported_media_type"))
  else if request.contentEncoding.isSome then
    .error (.ok (errorResponse 415 "content_encoding_not_allowed"))
  else if maxEncodedMessageBytes < request.body.length then
    .error (.ok (errorResponse 413 "request_too_large"))
  else match decode request.body with
    | .ok message => .ok message
    | .error e => .error (exceptionResponse e)

/-- The first transaction. -/
def authenticate (request : AgentMessageRequest) (peer : VerifiedClientCertificate)
    (receivedAt : Instant) (db : Db) :
    Except (Except Error AgentMessageResponse) AuthenticatedRequest × Db :=
  match decodeRequest decode request with
  | .error response => (.error response, db)
  | .ok message =>
    let out := authenticateEndpointCertificate
      { endpointId := peer.endpointId
        publicKeyFingerprint := peer.publicKeyFingerprint
        authenticatedAt := receivedAt
        correlationId := message.envelope.correlationId } db
    match out.1 with
    | .error e => (.error (exceptionResponse e), out.2)
    | .ok identity => (.ok ⟨identity.identityId, message, sha256Hex request.body, receivedAt⟩, out.2)

/-- `handle`, with nothing between its transactions. -/
def handle (request : AgentMessageRequest) (peer : VerifiedClientCertificate) (receivedAt : Instant)
    (observationId : Uuid) (db : Db) : Except Error AgentMessageResponse × Db :=
  match authenticate decode request peer receivedAt db with
  | (.error response, db) => (response, db)
  | (.ok r, db) => r.ingest observationId db

/-- Authentication writes nothing but its event, and hands over the current identity of the
certificate with the message and the digest of the body. -/
theorem authenticate_cases (request : AgentMessageRequest) (peer : VerifiedClientCertificate)
    (receivedAt : Instant) (db : Db) :
    let out := authenticate decode request peer receivedAt db
    AuditOnly db out.2 ∧ ∀ r, out.1 = .ok r → decodeRequest decode request = .ok r.message ∧
      r.encodedDigest = sha256Hex request.body ∧
      ∃ i e, db.certificateJoin peer.endpointId peer.publicKeyFingerprint = some (i, e) ∧
        r.identityId = i.identityId := by
  unfold authenticate
  dsimp only
  split
  · exact ⟨.refl db, fun r h => nomatch h⟩
  · rename_i message hdecoded
    obtain ⟨haudit, hok⟩ := authenticateEndpointCertificate_cases
      { endpointId := peer.endpointId
        publicKeyFingerprint := peer.publicKeyFingerprint
        authenticatedAt := receivedAt
        correlationId := message.envelope.correlationId } db
    split
    · exact ⟨haudit, fun r h => nomatch h⟩
    · rename_i identity hidentity
      refine ⟨haudit, fun r h => ?_⟩
      obtain ⟨i, e, hjoin, rfl, -⟩ := hok identity hidentity
      cases h
      exact ⟨hdecoded, rfl, i, e, hjoin, rfl⟩

end Handle

end NorthgateRmm.Server
