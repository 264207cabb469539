import NorthgateRmm.Server.Tables

/-!
# Transactions of `PostgresControlPlane`

Every public operation of `persistence.py` that writes, as a function from its
arguments and the database to what it returns or raises and the database after
it. Values the code draws itself (`uuid4()`, `secrets.token_urlsafe`) are
arguments. A body that raises is rolled back as a whole; several operations
commit an audit event first and raise afterwards, and those with an
`except UniqueViolation` handler append their event in a second transaction.
-/

namespace NorthgateRmm.Server

/-! ## Transactions -/

/-- `with self._connect()`: what the body wrote is kept unless it raised. The
inner result is what the call returns, or raises after the commit. -/
def transaction {α : Type} (db : Db) (body : Except Error (Except Error α × Db)) :
    Except Error α × Db :=
  match body with
  | .ok out => out
  | .error e => (.error e, db)

/-- A transaction under `except UniqueViolation`, whose handler records `event` in a
transaction of its own and then raises. -/
def onUniqueViolation {α : Type} (event : AuditEvent) (raised : Error) (db : Db)
    (body : Except Error (Except Error α × Db)) : Except Error α × Db :=
  match body with
  | .error (.database .uniqueViolation) =>
    transaction db do
      let db ← db.insertAudit event
      return (.error raised, db)
  | body => transaction db body

/-- `if not actor_id or len(actor_id) > 256`. -/
def validActor (actorId : String) : Bool := !actorId.isEmpty && actorId.length ≤ 256

/-! ## Enrollment grants -/

def grantNamespace : String := "ngr1_"

def asciiBytes (text : String) : List UInt8 := text.toList.map fun c => UInt8.ofNat c.toNat

def tokenSha256 (token : String) : String := sha256Hex (asciiBytes token)

/-- `ENROLLMENT_TOKEN_PATTERN.fullmatch`: `ngr1_[A-Za-z0-9_-]{43}`. -/
def tokenFormatOk (token : String) : Bool :=
  token.toList.take 5 == grantNamespace.toList && (token.toList.drop 5).length == 43 &&
    (token.toList.drop 5).all fun c => c.isAlphanum || c == '_' || c == '-'

def enrollmentRejection : String := "enrollment grant is invalid or unavailable"

structure CreateGrantArgs where
  displayName : String
  platform : Platform
  architecture : String
  now : Instant
  actorId : String
  ttl : Int := maxEnrollmentGrantTtl
  /-- `secrets.token_urlsafe(32)` -/
  secret : String
  grantId : Uuid
  correlationId : Uuid
  deriving DecidableEq

def createEnrollmentGrant (a : CreateGrantArgs) (db : Db) :
    Except Error (EnrollmentGrant × String) × Db :=
  let rawToken := grantNamespace ++ a.secret
  let grant : EnrollmentGrant :=
    { grantId := a.grantId
      tokenSha256 := tokenSha256 rawToken
      displayName := a.displayName
      platform := a.platform
      architecture := a.architecture
      createdAt := a.now
      expiresAt := a.now + a.ttl
      createdBy := a.actorId }
  match grant.postInit with
  | some e => (.error e, db)
  | none => transaction db do
    let db ← db.insertGrant grant
    let db ← db.insertAudit
      { serverTime := a.now
        actorType := "operator"
        actorId := a.actorId
        subject := "enrollment_grant:" ++ grant.grantId.toText
        action := "enrollment_grant.create"
        decision := .accepted
        reason := "short-lived single-use grant created"
        correlationId := a.correlationId
        metadata := [("architecture", grant.architecture), ("display_name", grant.displayName),
          ("expires_at", isoformat grant.expiresAt), ("platform", grant.platform.value)] }
    return (.ok (grant, rawToken), db)

structure ConsumeArgs where
  token : String
  publicKeyFingerprint : String
  now : Instant
  actorId : String := "enrollment-service"
  endpointId : Uuid
  identityId : Uuid
  correlationId : Uuid
  deriving DecidableEq

/-- What `_consume_enrollment_grant` decides under the grant's row lock. -/
inductive ConsumeDecision where
  | reject (grant : Option EnrollmentGrant) (reason : String)
  | resume (grant : EnrollmentGrant) (endpoint : Endpoint) (identity : IdentityRow)
  | fresh (grant : EnrollmentGrant)

def consumeDecision (a : ConsumeArgs) (allowExactRetry : Bool) (db : Db) : ConsumeDecision :=
  if !tokenFormatOk a.token then .reject none "token format is invalid"
  else match db.grantByToken (tokenSha256 a.token) with
  | none => .reject none "token digest is unknown"
  | some g =>
    if a.now < g.createdAt then .reject (some g) "server time predates grant creation"
    else if g.expiresAt ≤ a.now then .reject (some g) "grant is expired"
    else if !isFingerprint a.publicKeyFingerprint then
      .reject (some g) "public key fingerprint format is invalid"
    else match g.consumedAt with
    | none => .fresh g
    | some _ =>
      if allowExactRetry then
        match g.consumedIdentityId.bind db.resumable with
        | some (i, e) =>
          if i.publicKeyFingerprint = a.publicKeyFingerprint then .resume g e i
          else .reject (some g) "grant is already consumed"
        | none => .reject (some g) "grant is already consumed"
      else .reject (some g) "grant is already consumed"

def grantSubject (grant : Option EnrollmentGrant) : String :=
  match grant with
  | some g => "enrollment_grant:" ++ g.grantId.toText
  | none => "enrollment_grant:unknown"

/-- The audit event of a consumption, but for its decision, reason and metadata. -/
def consumeEvent (a : ConsumeArgs) (grant : Option EnrollmentGrant) (decision : Decision)
    (reason : String) (metadata : List (String × String)) : AuditEvent :=
  { serverTime := a.now
    actorType := "service"
    actorId := a.actorId
    subject := grantSubject grant
    action := "enrollment_grant.consume"
    decision := decision
    reason := reason
    correlationId := a.correlationId
    metadata := metadata }

/-- The identity a fresh grant is exchanged for. -/
def ConsumeArgs.identity (a : ConsumeArgs) (status : EndpointLifecycle) : IdentityRow :=
  { identityId := a.identityId
    endpointId := a.endpointId
    publicKeyFingerprint := a.publicKeyFingerprint
    createdAt := a.now
    status := status }

def ConsumeArgs.endpoint (a : ConsumeArgs) (g : EnrollmentGrant) : Endpoint :=
  { endpointId := a.endpointId
    displayName := g.displayName
    platform := g.platform
    architecture := g.architecture
    identityId := a.identityId
    enrolledAt := a.now }

/-- Exchange the unconsumed grant `g` for one endpoint and identity. -/
def exchangeGrant (a : ConsumeArgs) (status : EndpointLifecycle) (g : EnrollmentGrant) (db : Db) :
    Except Error (Except Error (Endpoint × EndpointIdentity) × Db) :=
  let identity := a.identity status
  let endpoint := a.endpoint g
  match identity.postInit <|> endpoint.postInit with
  | some e => .error e
  | none => do
    let db ← db.insertEndpoint endpoint
    let db ← db.insertIdentity identity
    let db ← db.consumeGrant g.grantId a.now identity.identityId
    let db ← db.insertAudit (consumeEvent a (some g) .accepted
      "grant exchanged for one endpoint identity"
      [("endpoint_id", endpoint.endpointId.toText), ("identity_status", status.value),
        ("identity_id", identity.identityId.toText)])
    let db ← db.insertAudit
      { consumeEvent a none .accepted "single-use enrollment grant consumed"
          [("grant_id", g.grantId.toText), ("identity_id", identity.identityId.toText)] with
        subject := "endpoint:" ++ endpoint.endpointId.toText
        action := "endpoint.enroll" }
    return (.ok (endpoint, identity.toEndpointIdentity), db)

/-- `_consume_enrollment_grant`. -/
def consumeGrantWith (a : ConsumeArgs) (status : EndpointLifecycle) (allowExactRetry : Bool) (db : Db) :
    Except Error (Endpoint × EndpointIdentity) × Db :=
  if !validActor a.actorId then (.error (.validation "actor_id is empty or too long"), db)
  else match consumeDecision a allowExactRetry db with
  | .reject grant reason => transaction db do
    let db ← db.insertAudit (consumeEvent a grant .rejected reason [])
    return (.error (.authorization enrollmentRejection), db)
  | .resume g e i => transaction db do
    let db ← db.insertAudit (consumeEvent a (some g) .noChange "exact enrollment retry resumed"
      [("endpoint_id", e.endpointId.toText), ("identity_id", i.identityId.toText)])
    return (.ok (e, i.toEndpointIdentity), db)
  | .fresh g =>
    onUniqueViolation
      (consumeEvent a (some g) .rejected "public key fingerprint is already enrolled" [])
      (.authorization enrollmentRejection)
      db (exchangeGrant a status g db)

def consumeEnrollmentGrant (a : ConsumeArgs) (db : Db) := consumeGrantWith a .active false db

def beginEndpointEnrollment (a : ConsumeArgs) (db : Db) := consumeGrantWith a .pending true db

/-! ## Issuance -/

structure IssueArgs where
  identityId : Uuid
  certificateSerial : String
  certificateIssuer : String
  certificateNotBefore : Instant
  certificateNotAfter : Instant
  now : Instant
  actorId : String := "enrollment-service"
  correlationId : Uuid
  deriving DecidableEq

/-- `re.fullmatch(r"[1-9a-f][0-9a-f]{0,63}", text)`. -/
def isCertificateSerial (text : String) : Bool :=
  match text.toList with
  | [] => false
  | c :: cs => Sha256.isHexDigit c && c != '0' && cs.length ≤ 63 && cs.all Sha256.isHexDigit

def IssueArgs.validate (a : IssueArgs) : Option Error :=
  firstFailure
    [(!isCertificateSerial a.certificateSerial, .validation "certificate serial is invalid"),
     (a.certificateIssuer.isEmpty || 256 < a.certificateIssuer.length,
        .validation "certificate issuer is invalid"),
     (!(a.certificateNotBefore ≤ a.now && a.now < a.certificateNotAfter),
        .validation "certificate is not valid at activation time"),
     (maxEndpointCertificateTtl < a.certificateNotAfter - a.certificateNotBefore,
        .validation "certificate lifetime exceeds the v1 limit"),
     (!validActor a.actorId, .validation "actor_id is empty or too long")]

/-- The stored certificate is the one offered. -/
def IssueArgs.exactRetry (a : IssueArgs) (i : IdentityRow) : Bool :=
  (i.status == .issued || i.status == .active) &&
    i.certificateSerial == some a.certificateSerial &&
    i.certificateIssuer == some a.certificateIssuer &&
    i.certificateNotBefore == some a.certificateNotBefore &&
    i.certificateNotAfter == some a.certificateNotAfter

def issueEvent (a : IssueArgs) (decision : Decision) (reason : String)
    (metadata : List (String × String)) : AuditEvent :=
  { serverTime := a.now
    actorType := "service"
    actorId := a.actorId
    subject := "identity:" ++ a.identityId.toText
    action := "identity.issue"
    decision := decision
    reason := reason
    correlationId := a.correlationId
    metadata := metadata }

def recordIssuedBody (a : IssueArgs) (db : Db) :
    Except Error (Except Error EndpointIdentity × Db) :=
  match db.identityJoin a.identityId with
  | none => .error (.notFound "identity does not exist")
  | some (i, e) =>
    if a.exactRetry i then do
      let db ← db.insertAudit (issueEvent a .noChange "exact certificate issuance retry" [])
      return (.ok i.toEndpointIdentity, db)
    else if i.status != .pending || e.identityId != i.identityId then
      .error (.authorization "identity is not pending and current")
    else do
      let db ← db.issueIdentity a.identityId a.certificateSerial a.certificateIssuer
        a.certificateNotBefore a.certificateNotAfter
      let db ← db.insertAudit (issueEvent a .accepted "external endpoint certificate recorded"
        [("certificate_issuer", a.certificateIssuer), ("certificate_serial", a.certificateSerial),
          ("endpoint_id", i.endpointId.toText)])
      return (.ok { i.toEndpointIdentity with status := .issued }, db)

def recordIssuedEndpointIdentity (a : IssueArgs) (db : Db) : Except Error EndpointIdentity × Db :=
  match a.validate with
  | some e => (.error e, db)
  | none =>
    onUniqueViolation
      (issueEvent a .rejected "certificate issuer and serial are already registered" [])
      (.validation "certificate identity metadata conflicts")
      db (recordIssuedBody a db)

/-! ## Synthetic enrollment -/

structure EnrollArgs where
  displayName : String
  platform : Platform
  architecture : String
  publicKeyFingerprint : String
  now : Instant
  actorId : String := "phase1-simulator"
  endpointId : Uuid
  identityId : Uuid
  correlationId : Uuid
  deriving DecidableEq

def EnrollArgs.identity (a : EnrollArgs) : IdentityRow :=
  { identityId := a.identityId
    endpointId := a.endpointId
    publicKeyFingerprint := a.publicKeyFingerprint
    createdAt := a.now }

def EnrollArgs.endpoint (a : EnrollArgs) : Endpoint :=
  { endpointId := a.endpointId
    displayName := a.displayName
    platform := a.platform
    architecture := a.architecture
    identityId := a.identityId
    enrolledAt := a.now }

def enrollEvent (a : EnrollArgs) (subject : String) (decision : Decision) (reason : String)
    (metadata : List (String × String)) : AuditEvent :=
  { serverTime := a.now
    actorType := "operator"
    actorId := a.actorId
    subject := subject
    action := "endpoint.enroll"
    decision := decision
    reason := reason
    correlationId := a.correlationId
    metadata := metadata }

def enrollBody (a : EnrollArgs) (db : Db) :
    Except Error (Except Error (Endpoint × EndpointIdentity) × Db) := do
  let db ← db.insertEndpoint a.endpoint
  let db ← db.insertIdentity a.identity
  let db ← db.insertAudit (enrollEvent a ("endpoint:" ++ a.endpointId.toText) .accepted
    "synthetic Phase 1 enrollment" [("identity_id", a.identityId.toText)])
  return (.ok (a.endpoint, a.identity.toEndpointIdentity), db)

def enrollSyntheticEndpoint (a : EnrollArgs) (db : Db) :
    Except Error (Endpoint × EndpointIdentity) × Db :=
  match a.identity.postInit <|> a.endpoint.postInit with
  | some e => (.error e, db)
  | none =>
    onUniqueViolation
      (enrollEvent a "endpoint:new" .rejected "fingerprint is already enrolled" [])
      (.validation "fingerprint is already enrolled")
      db (enrollBody a db)

/-! ## Certificate authentication -/

/-- `row["identity_status"] not in {"issued", "active"} or not row["is_current"]`. -/
def notCurrent (i : IdentityRow) (e : Endpoint) : Bool :=
  !(i.status == .issued || i.status == .active) || e.identityId != i.identityId

theorem notCurrent_eq_false {i : IdentityRow} {e : Endpoint} :
    notCurrent i e = false ↔ (i.status = .issued ∨ i.status = .active) ∧ e.identityId = i.identityId := by
  simp only [notCurrent, Bool.or_eq_false_iff, Bool.not_eq_false', Bool.or_eq_true, beq_iff_eq,
    bne_eq_false_iff_eq]

structure AuthenticateArgs where
  endpointId : Uuid
  publicKeyFingerprint : String
  authenticatedAt : Instant
  correlationId : Uuid
  deriving DecidableEq

def authenticateFailure (row : Option (IdentityRow × Endpoint)) : Option String :=
  match row with
  | none => some "certificate endpoint or public key is unknown"
  | some (i, e) =>
    if i.revokedAt.isSome then some "certificate identity is revoked"
    else if notCurrent i e then some "certificate identity is not current"
    else none

def authenticateEndpointCertificate (a : AuthenticateArgs) (db : Db) :
    Except Error EndpointIdentity × Db :=
  let row := db.certificateJoin a.endpointId a.publicKeyFingerprint
  let failure := authenticateFailure row
  let db' := db.appendAudit
    { serverTime := a.authenticatedAt
      actorType := "endpoint_certificate"
      actorId := a.endpointId.toText
      subject := "endpoint:" ++ a.endpointId.toText
      action := "certificate.authenticate"
      decision := if failure.isSome then .rejected else .accepted
      reason := failure.getD "verified certificate key is current"
      correlationId := a.correlationId }
  match failure, row with
  | none, some (i, _) => (.ok i.toEndpointIdentity, db')
  | _, _ => (.error (.authorization "endpoint certificate is unauthorized"), db')

/-! ## Revocation -/

structure RevokeArgs where
  identityId : Uuid
  reason : String
  actorId : String
  now : Instant
  correlationId : Uuid
  deriving DecidableEq

def revokeEvent (a : RevokeArgs) (decision : Decision) (reason : String) : AuditEvent :=
  { serverTime := a.now
    actorType := "operator"
    actorId := a.actorId
    subject := "identity:" ++ a.identityId.toText
    action := "identity.revoke"
    decision := decision
    reason := reason
    correlationId := a.correlationId }

def revokeBody (a : RevokeArgs) (db : Db) : Except Error (Except Error EndpointIdentity × Db) :=
  match db.identityById a.identityId with
  | none => .error (.notFound "identity does not exist")
  | some i =>
    if i.revokedAt.isSome then do
      let db ← db.insertAudit (revokeEvent a .noChange "identity already revoked")
      return (.ok i.toEndpointIdentity, db)
    else
      let revoked : EndpointIdentity := { i.toEndpointIdentity with
        status := .revoked, revokedAt := some a.now, revocationReason := some a.reason }
      match revoked.postInit with
      | some e => .error e
      | none => do
        let db ← db.revokeRow a.identityId a.now a.reason
        let db ← db.insertAudit (revokeEvent a .accepted a.reason)
        return (.ok revoked, db)

def revokeIdentity (a : RevokeArgs) (db : Db) : Except Error EndpointIdentity × Db :=
  if a.reason.isEmpty || 256 < a.reason.length then
    (.error (.validation "revocation reason is empty or too long"), db)
  else transaction db (revokeBody a db)

/-! ## Ingestion -/

structure IngestArgs where
  authenticatedIdentityId : Uuid
  envelope : MessageEnvelope
  observationType : ObservationType
  schemaVersion : Nat
  payloadDigest : String
  receivedAt : Instant
  inventoryBinding : Option (Platform × String)
  encodedMessageDigest : Option String
  observationId : Uuid
  deriving DecidableEq

/-- What `_ingest` decides before it writes. -/
inductive IngestDecision where
  | reject (error : Error)
  | retry (existing : ObservationRow)
  | accept (identity : IdentityRow) (sequenced : Db)

/-- The stored row is this very message: an exact retry. -/
def IngestArgs.exactRetry (a : IngestArgs) (existing : ObservationRow) : Bool :=
  a.encodedMessageDigest.isSome && existing.encodedMessageDigest == a.encodedMessageDigest &&
    existing.identityId == a.authenticatedIdentityId && existing.endpointId == a.envelope.endpointId

/-- The checks on the identity row, before the message is looked up. -/
def IngestArgs.identityChecks (a : IngestArgs) (i : IdentityRow) (e : Endpoint) :
    List (Bool × Error) :=
  [(i.revokedAt.isSome, .authorization "authenticated identity is revoked"),
   (notCurrent i e, .authorization "authenticated identity is not current"),
   (i.status == .issued && a.observationType != .heartbeat,
      .authorization "issued identity requires an activation heartbeat"),
   (a.envelope.endpointId != i.endpointId,
      .authorization "message endpoint does not match transport identity")]

/-- The checks on a message that was not seen before. -/
def IngestArgs.messageChecks (a : IngestArgs) (e : Endpoint) : List (Bool × Error) :=
  [(a.receivedAt + maxClockSkew < a.envelope.createdAt.instant,
      .validation "message creation time exceeds allowed clock skew"),
   (a.envelope.expiresAt.instant ≤ a.receivedAt, .validation "message expired before receipt"),
   (a.inventoryBinding.any fun b => b.1 != e.platform || b.2 != e.architecture,
      .validation "inventory binding does not match enrolled endpoint")]

theorem IngestArgs.identityChecks_none {a : IngestArgs} {i : IdentityRow} {e : Endpoint} :
    firstFailure (a.identityChecks i e) = none ↔
      i.revokedAt = none ∧ ((i.status = .issued ∨ i.status = .active) ∧ e.identityId = i.identityId) ∧
        (i.status = .issued → a.observationType = .heartbeat) ∧ a.envelope.endpointId = i.endpointId := by
  simp only [firstFailure_eq_none, identityChecks, List.forall_mem_cons, notCurrent_eq_false]
  simp

theorem IngestArgs.messageChecks_none {a : IngestArgs} {e : Endpoint} :
    firstFailure (a.messageChecks e) = none ↔
      a.envelope.createdAt.instant ≤ a.receivedAt + maxClockSkew ∧
        a.receivedAt < a.envelope.expiresAt.instant ∧
        ∀ b, a.inventoryBinding = some b → b.1 = e.platform ∧ b.2 = e.architecture := by
  simp only [firstFailure_eq_none, messageChecks, List.forall_mem_cons]
  simp [Option.any_eq_false]

/-- The decision under the locks on the identity and its endpoint. `seen` is the
snapshot of `observations` that the unlocked `SELECT … WHERE message_id` reads. -/
def ingestDecision (seen : List ObservationRow) (a : IngestArgs) (db : Db) : IngestDecision :=
  match db.identityJoin a.authenticatedIdentityId with
  | none => .reject (.authorization "unknown authenticated identity")
  | some (i, e) =>
    match firstFailure (a.identityChecks i e) with
    | some err => .reject err
    | none =>
      match seen.find? (·.messageId == a.envelope.messageId) with
      | some existing =>
        if a.exactRetry existing then .retry existing
        else .reject (.replay "message ID reused with conflict")
      | none =>
        match firstFailure (a.messageChecks e) with
        | some err => .reject err
        | none =>
          match db.upsertSequence a.authenticatedIdentityId a.envelope.bootId a.envelope.sequence with
          | none => .reject (.replay "boot sequence replayed or out of order")
          | some sequenced => .accept i sequenced

def IngestArgs.observation (a : IngestArgs) (i : IdentityRow) : ObservationRow :=
  { observationId := a.observationId
    endpointId := i.endpointId
    messageId := a.envelope.messageId
    observationType := a.observationType
    schemaVersion := a.schemaVersion
    sourceTime := a.envelope.createdAt.instant
    receivedAt := a.receivedAt
    bootId := a.envelope.bootId
    sequence := a.envelope.sequence
    payloadDigest := a.payloadDigest
    encodedMessageDigest := a.encodedMessageDigest
    identityId := a.authenticatedIdentityId }

def ingestEvent (a : IngestArgs) (decision : Decision) (reason : String)
    (metadata : List (String × String)) : AuditEvent :=
  { serverTime := a.receivedAt
    actorType := "endpoint_identity"
    actorId := a.authenticatedIdentityId.toText
    subject := "endpoint:" ++ a.envelope.endpointId.toText
    action := a.observationType.value ++ ".ingest"
    decision := decision
    reason := reason
    correlationId := a.envelope.correlationId
    metadata := metadata }

/-- The first heartbeat of an issued identity activates it. -/
def activateOnHeartbeat (a : IngestArgs) (i : IdentityRow) (db : Db) : Except Error Db :=
  match a.observationType with
  | .inventory => .ok db
  | .heartbeat => do
    let db ← db.activateIdentity i.identityId a.receivedAt
    if i.status = .issued then
      return db.appendAudit
        { ingestEvent a .accepted "first authenticated heartbeat accepted" [] with
          action := "identity.activate" }
    else return db

/-- The writes of an accepted message, after its sequence was recorded. -/
def acceptObservation (a : IngestArgs) (i : IdentityRow) (db : Db) :
    Except Error (Except Error Observation × Db) :=
  let observation := a.observation i
  match observation.postInit with
  | some err => .error err
  | none => do
    let db ← db.insertObservation observation
    let db := db.touchEndpoint i.endpointId a.observationType a.receivedAt
    let db ← activateOnHeartbeat a i db
    let db := db.appendAudit (ingestEvent a .accepted
      "message contract and authorization checks passed"
      [("message_id", observation.messageId.toText), ("payload_digest", observation.payloadDigest),
        ("sequence", decimal 1 observation.sequence)])
    return (.ok observation.toObservation, db)

def ingestBody (seen : List ObservationRow) (a : IngestArgs) (db : Db) :
    Except Error (Except Error Observation × Db) :=
  match ingestDecision seen a db with
  | .reject err => .ok (.error err, db.appendAudit (ingestEvent a .rejected err.reason []))
  | .retry existing => .ok (.ok existing.toObservation, db.appendAudit
      (ingestEvent a .noChange "exact accepted message retry acknowledged"
        [("message_id", a.envelope.messageId.toText)]))
  | .accept i sequenced => acceptObservation a i sequenced

/-- `_ingest`. -/
def ingestSeeing (seen : List ObservationRow) (a : IngestArgs) (db : Db) :
    Except Error Observation × Db :=
  onUniqueViolation (ingestEvent a .rejected "message ID or boot sequence replayed" [])
    (.replay "message ID or boot sequence replayed")
    db (ingestBody seen a db)

/-- `_ingest` as one serial transaction. -/
def ingest (a : IngestArgs) (db : Db) : Except Error Observation × Db :=
  ingestSeeing db.observations a db

structure MessageArgs where
  authenticatedIdentityId : Uuid
  envelope : MessageEnvelope
  /-- `message.payload.digest()` -/
  payloadDigest : String
  receivedAt : Instant
  encodedMessageDigest : Option String := none
  observationId : Uuid
  deriving DecidableEq

def MessageArgs.heartbeat (m : MessageArgs) : IngestArgs :=
  { m with observationType := .heartbeat, schemaVersion := 1, inventoryBinding := none }

/-- Inventory messages carry the schema version, platform and architecture of their payload. -/
def MessageArgs.inventory (m : MessageArgs) (platform : Platform) (architecture : String) : IngestArgs :=
  { m with
    observationType := .inventory, schemaVersion := 1, inventoryBinding := some (platform, architecture) }

def ingestHeartbeat (m : MessageArgs) (db : Db) := ingest m.heartbeat db

def ingestInventory (m : MessageArgs) (platform : Platform) (architecture : String) (db : Db) :=
  ingest (m.inventory platform architecture) db

/-! ## Operator access -/

structure OperatorAccessArgs where
  actorId : String
  subject : String
  action : String
  decision : String
  reason : String
  correlationId : Uuid
  now : Instant
  metadata : List (String × String) := []
  deriving DecidableEq

def OperatorAccessArgs.validate (a : OperatorAccessArgs) : Option Error :=
  firstFailure
    [(!validActor a.actorId, .validation "operator audit actor is invalid"),
     (a.subject.isEmpty || 256 < a.subject.length, .validation "operator audit subject is invalid"),
     (a.action.isEmpty || 128 < a.action.length, .validation "operator audit action is invalid"),
     (!(a.decision == "accepted" || a.decision == "rejected"),
        .validation "operator audit decision is invalid"),
     (a.reason.isEmpty || 512 < a.reason.length, .validation "operator audit reason is invalid"),
     (8 < a.metadata.length ||
        a.metadata.any fun p => p.1.isEmpty || 64 < p.1.length || 512 < p.2.length,
        .validation "operator audit metadata is invalid")]

def recordOperatorAccess (a : OperatorAccessArgs) (db : Db) : Except Error Unit × Db :=
  match a.validate with
  | some e => (.error e, db)
  | none => transaction db do
    let db ← db.insertAudit
      { serverTime := a.now
        actorType := "human_operator"
        actorId := a.actorId
        subject := a.subject
        action := a.action
        decision := if a.decision == "accepted" then .accepted else .rejected
        reason := a.reason
        correlationId := a.correlationId
        metadata := a.metadata }
    return (.ok (), db)

/-! ## One transaction of any kind -/

/-- A call of a public operation that writes. -/
inductive Call where
  | createEnrollmentGrant (a : CreateGrantArgs)
  | consumeEnrollmentGrant (a : ConsumeArgs)
  | beginEndpointEnrollment (a : ConsumeArgs)
  | recordIssuedEndpointIdentity (a : IssueArgs)
  | enrollSyntheticEndpoint (a : EnrollArgs)
  | authenticateEndpointCertificate (a : AuthenticateArgs)
  | revokeIdentity (a : RevokeArgs)
  | ingestHeartbeat (m : MessageArgs)
  | ingestInventory (m : MessageArgs) (platform : Platform) (architecture : String)
  | recordOperatorAccess (a : OperatorAccessArgs)
  deriving DecidableEq

/-- The database after the call, whether it returned or raised. -/
def Call.exec (call : Call) (db : Db) : Db :=
  match call with
  | .createEnrollmentGrant a => (Server.createEnrollmentGrant a db).2
  | .consumeEnrollmentGrant a => (Server.consumeEnrollmentGrant a db).2
  | .beginEndpointEnrollment a => (Server.beginEndpointEnrollment a db).2
  | .recordIssuedEndpointIdentity a => (Server.recordIssuedEndpointIdentity a db).2
  | .enrollSyntheticEndpoint a => (Server.enrollSyntheticEndpoint a db).2
  | .authenticateEndpointCertificate a => (Server.authenticateEndpointCertificate a db).2
  | .revokeIdentity a => (Server.revokeIdentity a db).2
  | .ingestHeartbeat m => (Server.ingestHeartbeat m db).2
  | .ingestInventory m platform architecture => (Server.ingestInventory m platform architecture db).2
  | .recordOperatorAccess a => (Server.recordOperatorAccess a db).2

/-- What a call returns. -/
inductive Answer where
  | grant (grant : EnrollmentGrant) (token : String)
  | enrolled (endpoint : Endpoint) (identity : EndpointIdentity)
  | identity (identity : EndpointIdentity)
  | observation (observation : Observation)
  | recorded
  deriving DecidableEq

/-- What an operation returned, as an `Answer`. -/
def answering {α : Type} (answer : α → Answer) (out : Except Error α × Db) : Except Error Answer × Db :=
  (out.1.map answer, out.2)

@[simp] theorem answering_snd {α : Type} (answer : α → Answer) (out : Except Error α × Db) :
    (answering answer out).2 = out.2 := rfl

theorem answering_error {α : Type} {answer : α → Answer} {out : Except Error α × Db} {err : Error} :
    (answering answer out).1 = .error err ↔ out.1 = .error err := by
  obtain ⟨r, db⟩ := out
  cases r <;> simp [answering, Except.map]

/-- The call with what it returns or raises. `seen` is the snapshot of `observations` an
ingestion looks its message up in. -/
def Call.perform (seen : List ObservationRow) (call : Call) (db : Db) : Except Error Answer × Db :=
  match call with
  | .createEnrollmentGrant a =>
    answering (fun r => .grant r.1 r.2) (Server.createEnrollmentGrant a db)
  | .consumeEnrollmentGrant a =>
    answering (fun r => .enrolled r.1 r.2) (Server.consumeEnrollmentGrant a db)
  | .beginEndpointEnrollment a =>
    answering (fun r => .enrolled r.1 r.2) (Server.beginEndpointEnrollment a db)
  | .recordIssuedEndpointIdentity a => answering .identity (Server.recordIssuedEndpointIdentity a db)
  | .enrollSyntheticEndpoint a =>
    answering (fun r => .enrolled r.1 r.2) (Server.enrollSyntheticEndpoint a db)
  | .authenticateEndpointCertificate a =>
    answering .identity (Server.authenticateEndpointCertificate a db)
  | .revokeIdentity a => answering .identity (Server.revokeIdentity a db)
  | .ingestHeartbeat m => answering .observation (ingestSeeing seen m.heartbeat db)
  | .ingestInventory m platform architecture =>
    answering .observation (ingestSeeing seen (m.inventory platform architecture) db)
  | .recordOperatorAccess a => answering (fun _ => .recorded) (Server.recordOperatorAccess a db)

/-- Alone, an ingestion sees the table as it is. -/
theorem Call.perform_exec (call : Call) (db : Db) :
    (call.perform db.observations db).2 = call.exec db := by
  cases call <;> simp only [perform, exec, answering, Server.ingestHeartbeat, Server.ingestInventory, ingest]

/-- What the call hands to `_ingest`. -/
def Call.message : Call → Option IngestArgs
  | .ingestHeartbeat m => some m.heartbeat
  | .ingestInventory m platform architecture => some (m.inventory platform architecture)
  | _ => none

/-- The database a sequence of calls leaves. -/
def Call.run (calls : List Call) (db : Db) : Db := calls.foldl (fun db call => call.exec db) db

end NorthgateRmm.Server
