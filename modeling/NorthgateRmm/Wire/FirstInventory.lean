import NorthgateRmm.Server.Keys
import NorthgateRmm.Wire.Exchange

/-!
# The agent's messages before and after activation

All that the agent sends is inventory, and an issued identity may send nothing but its
first heartbeat. So every message of the agent is refused while its identity is issued,
and answered with 200 once a heartbeat has made the identity active.
-/

namespace NorthgateRmm.Wire

open Server hiding InventoryPayload
open Agent.Protocol (Envelope InventoryPayload encodeInventory)

/-- `MTLSSender.Send` posts the stored bytes. -/
def agentRequest (body : List UInt8) : AgentMessageRequest :=
  { method := "POST"
    path := agentMessagePath
    contentType := some "application/json"
    contentEncoding := none
    body := body }

/-! ## What the server makes of the bytes -/

section Decoded

variable {py : Python} {envelope : Envelope} {payload : InventoryPayload} {raw : List UInt8}

/-- An encoded message as `handle` sees it. -/
structure Received (envelope : Envelope) (payload : InventoryPayload) (m : AgentMessage) : Prop where
  messageId : m.envelope.messageId.toText = envelope.messageID
  endpointId : m.envelope.endpointId.toText = envelope.endpointID
  bootId : m.envelope.bootId.toText = envelope.bootID
  sequence : (m.envelope.sequence : Int) = envelope.sequence
  createdAt : m.envelope.createdAt.instant = envelope.createdAt.ns / 1000
  expiresAt : m.envelope.expiresAt.instant = envelope.expiresAt.ns / 1000
  inventory : ∃ platform, m.payload = .inventory platform payload.architecture ∧ platform.value = payload.platform
  digest : isSha256Hex m.payloadDigest = true

theorem decodeRequest_encoded (hpy : ReadsRfc3339 py) (h : encodeInventory envelope payload = .ok raw)
    (hl : 1000 ≤ envelope.expiresAt.ns - envelope.createdAt.ns) :
    ∃ m, decodeRequest (decode py) (agentRequest raw) = .ok m ∧ Received envelope payload m := by
  obtain ⟨x, hx, hsame⟩ := read_encoded hpy h hl
  obtain ⟨q, hq, hsameq⟩ := hsame.payload
  have hlen : raw.length ≤ maxEncodedMessageBytes := (Agent.Protocol.encodeInventory_ok.mp h).2.2.2
  have hdecode : decode py raw = .ok x.agentMessage := by rw [decode, hx]; rfl
  have hagent : x.agentMessage = ⟨x.envelope, .inventory q.platform (shown q.architecture), q.digest⟩ := by
    rw [Message.agentMessage, hq]
  refine ⟨x.agentMessage, ?_, ?_⟩
  · have hpath : (agentRequest raw).path = agentMessagePath := rfl
    have hmethod : (agentRequest raw).method = "POST" := rfl
    have htype : (agentRequest raw).contentType.map String.toLower = some "application/json" := by
      refine congrArg some (String.toList_injective ?_)
      rw [String.toLower, String.toList_map]
      decide
    have hencoding : (agentRequest raw).contentEncoding.isSome = false := rfl
    have hbody : (agentRequest raw).body = raw := rfl
    simp only [decodeRequest, hpath, hmethod, htype, hencoding, hbody, ne_eq, not_true_eq_false, Bool.false_eq_true,
      if_false, Nat.not_lt.mpr hlen, hdecode]
  · rw [hagent]
    have he := hsame.envelope
    refine ⟨he.messageId, he.endpointId, he.bootId, he.sequence, ?_, ?_, ⟨q.platform, ?_, hsameq.platform⟩, ?_⟩
    · show x.envelope.createdAt.instant = _
      rw [he.createdAt, Datetime.instant_utc]
    · show x.envelope.expiresAt.instant = _
      rw [he.expiresAt, Datetime.instant_utc]
    · rw [hsameq.architecture, shown_codesOf]
    · exact isSha256Hex_sha256Hex _

end Decoded

/-! ## Ingestion -/

section Ingest

variable {db : Db} {a : IngestArgs} {i : IdentityRow} {e : Endpoint}

/-- A message that passes the checks, with an unused ID and a sequence above the floor of
its boot, is accepted. -/
theorem ingest_inventory_ok (hkeys : Keys db) (hjoin : db.identityJoin a.authenticatedIdentityId = some (i, e))
    (hidentity : firstFailure (a.identityChecks i e) = none) (hmessage : firstFailure (a.messageChecks e) = none)
    (hnew : ∀ o ∈ db.observations, o.observationId ≠ a.observationId ∧ o.messageId ≠ a.envelope.messageId)
    (hseq : ∀ last, db.lastSequence a.authenticatedIdentityId a.envelope.bootId = some last →
      last < a.envelope.sequence)
    (hk : a.observationType = .inventory) (hpost : (a.observation i).postInit = none) :
    ∃ o, (ingest a db).1 = .ok o := by
  have hfind : db.observations.find? (·.messageId == a.envelope.messageId) = none :=
    List.find?_eq_none.mpr fun o ho => by simpa using (hnew o ho).2
  obtain ⟨sequenced, hupsert⟩ : ∃ db', db.upsertSequence a.authenticatedIdentityId a.envelope.bootId
      a.envelope.sequence = some db' := by
    rw [Db.upsertSequence]
    split
    · exact ⟨_, rfl⟩
    · rename_i last hlast
      exact ⟨_, if_pos (hseq last hlast)⟩
  have hdecision : ingestDecision db.observations a db = .accept i sequenced := by
    simp only [ingestDecision, hjoin, hidentity, hfind, hmessage, hupsert]
  obtain ⟨-, rows, hsequenced, -⟩ := Db.upsertSequence_some hupsert
  have hinsert : sequenced.insertObservation (a.observation i) =
      .ok { sequenced with observations := sequenced.observations ++ [a.observation i] } := by
    rw [Db.insertObservation]
    refine if_neg ?_
    rw [hsequenced, Bool.not_eq_true, List.any_eq_false]
    intro o ho
    have hsequence : ¬ (o.identityId = a.authenticatedIdentityId ∧ o.bootId = a.envelope.bootId ∧
        o.sequence = a.envelope.sequence) := by
      rintro ⟨hid, hboot, hn⟩
      obtain ⟨last, hlast, hle⟩ := hkeys.sequence_le ho
      have := hseq last (hid ▸ hboot ▸ hlast)
      omega
    have := hnew o ho
    simp only [IngestArgs.observation, Bool.or_eq_true, Bool.and_eq_true, beq_iff_eq]
    rintro ((h | h) | ⟨⟨h1, h2⟩, h3⟩)
    · exact this.1 h
    · exact this.2 h
    · exact hsequence ⟨h1, h2, h3⟩
  rw [ingest, ingestSeeing, ingestBody, hdecision]
  simp only [acceptObservation, hpost, hinsert, activateOnHeartbeat, hk]
  exact ⟨_, rfl⟩

end Ingest

/-! ## Answers -/

section Answers

variable {py : Python} {db : Db} {i : IdentityRow} {e : Endpoint} {peer : VerifiedClientCertificate}
  {envelope : Envelope} {payload : InventoryPayload} {raw : List UInt8} {receivedAt : Instant} {observationId : Uuid}

/-- A message of the agent for its endpoint arrives with the certificate of the current
identity `i`, for the first time and before its expiry. -/
structure Arrives (db : Db) (i : IdentityRow) (e : Endpoint) (peer : VerifiedClientCertificate) (envelope : Envelope)
    (payload : InventoryPayload) (receivedAt : Instant) (observationId : Uuid) : Prop where
  certificate : db.certificateJoin peer.endpointId peer.publicKeyFingerprint = some (i, e)
  current : e.identityId = i.identityId
  unrevoked : i.revokedAt = none
  endpoint : envelope.endpointID = i.endpointId.toText
  binding : payload.platform = e.platform.value ∧ payload.architecture = e.architecture
  lifetime : 1000 ≤ envelope.expiresAt.ns - envelope.createdAt.ns
  unseen : ∀ o ∈ db.observations, o.observationId ≠ observationId ∧ o.messageId.toText ≠ envelope.messageID
  sequence : ∀ boot last, boot.toText = envelope.bootID → db.lastSequence i.identityId boot = some last →
    (last : Int) < envelope.sequence
  skew : envelope.createdAt.ns / 1000 ≤ receivedAt + maxClockSkew
  unexpired : receivedAt < envelope.expiresAt.ns / 1000

/-- The first transaction of `handle` lets the identity through. -/
theorem authenticate_arrives (hpy : ReadsRfc3339 py) (h : encodeInventory envelope payload = .ok raw)
    (ha : Arrives db i e peer envelope payload receivedAt observationId) (hs : i.status = .issued ∨ i.status = .active) :
    ∃ r db', authenticate (decode py) (agentRequest raw) peer receivedAt db = (.ok r, db') ∧ AuditOnly db db' ∧
      r.identityId = i.identityId ∧ Received envelope payload r.message ∧ r.receivedAt = receivedAt ∧
      isSha256Hex r.encodedDigest = true := by
  obtain ⟨m, hm, hreceived⟩ := decodeRequest_encoded hpy h ha.lifetime
  have hcurrent : notCurrent i e = false := notCurrent_eq_false.mpr ⟨hs, ha.current⟩
  have hfailure : authenticateFailure (some (i, e)) = none := by
    simp [authenticateFailure, ha.unrevoked, hcurrent]
  have hok : (authenticate (decode py) (agentRequest raw) peer receivedAt db).1 =
      .ok ⟨i.identityId, m, sha256Hex raw, receivedAt⟩ := by
    simp only [authenticate, hm, authenticateEndpointCertificate, ha.certificate, hfailure]
    rfl
  exact ⟨_, _, Prod.ext hok rfl, (authenticate_cases _ _ _ _ _).1, rfl, hreceived, rfl, isSha256Hex_sha256Hex _⟩

/-- The row that authenticated is the row that ingestion locks. -/
theorem Arrives.identityJoin (hkeys : Keys db)
    (ha : Arrives db i e peer envelope payload receivedAt observationId) :
    db.identityJoin i.identityId = some (i, e) := by
  have hcert := ha.certificate
  simp only [Db.certificateJoin, bind, Option.bind_eq_some_iff, pure, Option.some.injEq, Prod.mk.injEq] at hcert
  obtain ⟨i', hi, e', he, rfl, rfl⟩ := hcert
  exact Db.identityJoin_some.mpr ⟨hkeys.identityById (List.mem_of_find?_eq_some hi), he⟩

theorem observationType_ingestArgs {r : AuthenticatedRequest} {platform : Platform} {architecture : String}
    (h : r.message.payload = .inventory platform architecture) (o : Uuid) :
    (r.ingestArgs o).observationType = .inventory ∧ (r.ingestArgs o).inventoryBinding = some (platform, architecture) ∧
      (r.ingestArgs o).payloadDigest = r.message.payloadDigest ∧ (r.ingestArgs o).receivedAt = r.receivedAt ∧
      (r.ingestArgs o).observationId = o := by
  unfold AuthenticatedRequest.ingestArgs AgentMessage.ingestArgs
  rw [h]
  exact ⟨rfl, rfl, rfl, rfl, rfl⟩

/-- Once the identity is active the answer is 200. -/
theorem handle_active (hpy : ReadsRfc3339 py) (hkeys : Keys db) (h : encodeInventory envelope payload = .ok raw)
    (ha : Arrives db i e peer envelope payload receivedAt observationId) (hs : i.status = .active) :
    ∃ response, (handle (decode py) (agentRequest raw) peer receivedAt observationId db).1 = .ok response ∧
      response.status = 200 := by
  obtain ⟨r, db', hauth, haudit, hid, hreceived, hat, hdigest⟩ := authenticate_arrives hpy h ha (.inr hs)
  obtain ⟨platform, hpayload, hplatform⟩ := hreceived.inventory
  obtain ⟨hkind, hbinding, hpayloadDigest, hreceivedAt, hobservation⟩ :=
    observationType_ingestArgs hpayload observationId
  have hjoin := ha.identityJoin hkeys
  have hkeys' : Keys db' := hkeys.effect (.audit haudit : Effect none db db')
  obtain ⟨events, rfl⟩ := haudit
  have hidentity : firstFailure ((r.ingestArgs observationId).identityChecks i e) = none := by
    refine IngestArgs.identityChecks_none.mpr ⟨ha.unrevoked, ⟨.inr hs, ha.current⟩, by simp [hs], ?_⟩
    rw [AuthenticatedRequest.ingestArgs_envelope]
    exact Uuid.toText_injective (hreceived.endpointId.trans ha.endpoint)
  have hmessage : firstFailure ((r.ingestArgs observationId).messageChecks e) = none := by
    refine IngestArgs.messageChecks_none.mpr ⟨?_, ?_, ?_⟩
    · rw [AuthenticatedRequest.ingestArgs_envelope, hreceived.createdAt, hreceivedAt, hat]
      exact ha.skew
    · rw [AuthenticatedRequest.ingestArgs_envelope, hreceived.expiresAt, hreceivedAt, hat]
      exact ha.unexpired
    · intro b hb
      rw [hbinding] at hb
      cases hb
      exact ⟨Platform.value_injective (hplatform.trans ha.binding.1), ha.binding.2⟩
  have hjoin' : Db.identityJoin { db with auditEvents := db.auditEvents ++ events }
      (r.ingestArgs observationId).authenticatedIdentityId = some (i, e) := by
    rw [AuthenticatedRequest.ingestArgs_identity, hid]
    exact hjoin
  obtain ⟨o, hok⟩ := ingest_inventory_ok hkeys' hjoin' hidentity hmessage
    (fun o ho => by
      rw [hobservation, AuthenticatedRequest.ingestArgs_envelope]
      obtain ⟨h1, h2⟩ := ha.unseen o ho
      exact ⟨h1, fun he => h2 (he ▸ hreceived.messageId)⟩)
    (fun last hlast => by
      rw [AuthenticatedRequest.ingestArgs_identity, AuthenticatedRequest.ingestArgs_envelope, hid] at hlast
      rw [AuthenticatedRequest.ingestArgs_envelope]
      have := ha.sequence _ last hreceived.bootId hlast
      have hseq := hreceived.sequence
      omega)
    hkind (by
      rw [Observation.postInit, firstFailure_eq_none]
      simp [IngestArgs.observation, hpayloadDigest, hreceived.digest, hdigest])
  have hhandle : handle (decode py) (agentRequest raw) peer receivedAt observationId db =
      r.ingest observationId { db with auditEvents := db.auditEvents ++ events } := by rw [handle, hauth]
  rw [ingest] at hok
  refine ⟨⟨200, .accepted r.message.envelope.messageId, none⟩, ?_, rfl⟩
  rw [hhandle, AuthenticatedRequest.ingest]
  simp only [AuthenticatedRequest.ingestSeeing, hok]

end Answers

namespace SampleEnrollment

def text (c : Char) (n : Nat) : String := String.ofList (List.replicate n c)

/-- Microseconds of 2025-06-15T15:06:40Z. -/
def start : Instant := 1750000000000000

def grant : CreateGrantArgs :=
  { displayName := "host"
    platform := .linux
    architecture := "amd64"
    now := start - minutes 3
    actorId := "operator"
    secret := text 'a' 43
    grantId := ⟨1⟩
    correlationId := ⟨2⟩ }

/-- The endpoint of `someEnvelope`. -/
def endpointId : Uuid := ⟨0x22222222222242228222222222222222⟩

def fingerprint : String := "sha256:" ++ text 'b' 64

def consume : ConsumeArgs :=
  { token := "ngr1_" ++ text 'a' 43
    publicKeyFingerprint := fingerprint
    now := start - minutes 2
    endpointId := endpointId
    identityId := ⟨3⟩
    correlationId := ⟨4⟩ }

def issue : IssueArgs :=
  { identityId := ⟨3⟩
    certificateSerial := "1"
    certificateIssuer := "CN=issuer"
    certificateNotBefore := start - minutes 2
    certificateNotAfter := start + minutes 10
    now := start - minutes 2
    correlationId := ⟨5⟩ }

/-- A grant, its exchange and the issued certificate. -/
def issued : List Action :=
  [.call (.createEnrollmentGrant grant), .call (.beginEndpointEnrollment consume),
   .call (.recordIssuedEndpointIdentity issue)]

/-- A heartbeat that some other sender makes with the issued key. -/
theorem first_in_range : 1 ≤ 1 ∧ 1 ≤ maxSequence := by decide

def heartbeat : MessageArgs :=
  { authenticatedIdentityId := ⟨3⟩
    envelope :=
      { messageId := ⟨6⟩
        endpointId := endpointId
        bootId := ⟨7⟩
        sequence := 1
        createdAt := .utc (start - minutes 1)
        expiresAt := .utc start
        correlationId := ⟨8⟩
        sequence_range := first_in_range
        lifetime_range := by decide }
    payloadDigest := text 'c' 64
    receivedAt := start - minutes 1
    observationId := ⟨9⟩ }

def peer : VerifiedClientCertificate := ⟨endpointId, fingerprint, by decide +kernel⟩

/-- The identity row after the certificate was recorded. -/
def row : IdentityRow := issue.certify (consume.identity .pending)

def endpoint (lastSeen : Option Instant) : Endpoint :=
  { endpointId := endpointId
    displayName := "host"
    platform := .linux
    architecture := "amd64"
    identityId := ⟨3⟩
    enrolledAt := start - minutes 2
    lastReceiptAt := lastSeen
    lastHeartbeatAt := lastSeen }

def db (actions : List Action) : Db := (Service.run (decode rfc3339Python) actions {}).db

/-- The rows that the enrollment leaves. -/
theorem rows_issued : (db issued).endpoints = [endpoint none] ∧ (db issued).endpointIdentities = [row] ∧
    (db issued).messageSequences = [] ∧ (db issued).observations = [] := by
  decide +kernel

def activated (grants : List EnrollmentGrant) (events : List AuditEvent) : Db :=
  (Call.ingestHeartbeat heartbeat).exec
    { endpoints := [endpoint none], endpointIdentities := [row], enrollmentGrants := grants, auditEvents := events }

theorem db_activated : db (issued ++ [.call (.ingestHeartbeat heartbeat)]) =
    activated (db issued).enrollmentGrants (db issued).auditEvents := by
  have hstep : db (issued ++ [.call (.ingestHeartbeat heartbeat)]) =
      (Call.ingestHeartbeat heartbeat).exec (db issued) := by
    rw [db, db, Service.run, Service.run, List.foldl_append]
    simp only [List.foldl_cons, List.foldl_nil, Action.exec]
  obtain ⟨h1, h2, h3, h4⟩ := rows_issued
  rw [hstep, activated]
  generalize db issued = d at h1 h2 h3 h4
  obtain ⟨endpoints, identities, grants, sequences, observations, events⟩ := d
  dsimp only at h1 h2 h3 h4
  rw [h1, h2, h3, h4]

/-- The same after the heartbeat. -/
theorem arrives_active : Arrives (db (issued ++ [.call (.ingestHeartbeat heartbeat)]))
    (Db.activated (start - minutes 1) row) (endpoint (some (start - minutes 1))) peer someEnvelope somePayload
    (start + 10000000) ⟨10⟩ := by
  rw [db_activated]
  generalize (db issued).enrollmentGrants = grants, (db issued).auditEvents = events
  have hfloors : (activated grants events).messageSequences = [⟨⟨3⟩, ⟨7⟩, 1⟩] := by rfl
  have hlog : (activated grants events).observations = [heartbeat.heartbeat.observation row] := by rfl
  refine ⟨by rfl, by decide +kernel, by decide +kernel, by decide +kernel, by decide +kernel, by decide, ?_, ?_, by decide,
    by decide⟩
  · rw [hlog]
    decide +kernel
  · intro boot last _ hlast
    rw [Db.lastSequence, hfloors] at hlast
    obtain ⟨r, hr, rfl⟩ := Option.map_eq_some_iff.mp hlast
    rw [List.mem_singleton.mp (List.mem_of_find?_eq_some hr)]
    decide

end SampleEnrollment

open SampleEnrollment

end NorthgateRmm.Wire
