import NorthgateRmm.Server.Domain

/-!
# The tables and the statements on them

`Db` is the schema after the last migration, one list per table in insertion
order. Each definition below is one SQL statement of `persistence.py` with the
constraints PostgreSQL enforces on it: an `INSERT` or `UPDATE` that breaks a
unique key raises `uniqueViolation`, one that breaks a `CHECK` raises
`checkViolation`, and text that holds a NUL or does not fit its column raises
`dataError`. Columns no modelled statement reads or writes
(`previous_identity_id`, `event_id`) are left out.
-/

namespace NorthgateRmm.Server

/-- A row of `endpoint_identities`. Its base is `_identity_from_row`. -/
structure IdentityRow extends EndpointIdentity where
  certificateSerial : Option String := none
  certificateIssuer : Option String := none
  certificateNotBefore : Option Instant := none
  certificateNotAfter : Option Instant := none
  activatedAt : Option Instant := none
  deriving DecidableEq, Repr

/-- A row of `observations`. Its base is `_observation_from_row`. -/
structure ObservationRow extends Observation where
  identityId : Uuid
  deriving DecidableEq, Repr

structure SequenceRow where
  identityId : Uuid
  bootId : Uuid
  lastSequence : Nat
  deriving DecidableEq, Repr

structure Db where
  endpoints : List Endpoint := []
  endpointIdentities : List IdentityRow := []
  enrollmentGrants : List EnrollmentGrant := []
  messageSequences : List SequenceRow := []
  observations : List ObservationRow := []
  auditEvents : List AuditEvent := []
  deriving DecidableEq, Repr

/-- Text PostgreSQL can store: it has no NUL. -/
def storable (text : String) : Bool := !text.toList.contains '\x00'

/-- What a `varchar(n)` column keeps of a text: all of it, or its first `n`
characters when only blanks follow. -/
def varchar (n : Nat) (text : String) : Except Error String :=
  if !storable text then .error (.database .dataError)
  else if text.length ≤ n then .ok text
  else if (text.toList.drop n).all (· == ' ') then .ok (String.ofList (text.toList.take n))
  else .error (.database .dataError)

theorem varchar_of_fits {n : Nat} {text : String} (hs : storable text = true) (hn : text.length ≤ n) :
    varchar n text = .ok text := by
  rw [varchar, hs, if_neg (by simp), if_pos hn]

theorem storable_append {a b : String} (ha : storable a = true) (hb : storable b = true) :
    storable (a ++ b) = true := by
  simp only [storable, Bool.not_eq_true', List.contains_eq_mem, decide_eq_false_iff_not,
    String.toList_append, List.mem_append, not_or] at *
  exact ⟨ha, hb⟩

theorem storable_toText (u : Uuid) : storable u.toText = true := by
  simp only [storable, Bool.not_eq_true', List.contains_eq_mem, decide_eq_false_iff_not]
  intro h
  rcases Uuid.mem_toText h with h | h <;> revert h <;> decide

namespace Db

/-! ## Queries -/

def identityById (db : Db) (identityId : Uuid) : Option IdentityRow :=
  db.endpointIdentities.find? (·.identityId == identityId)

def endpointById (db : Db) (endpointId : Uuid) : Option Endpoint :=
  db.endpoints.find? (·.endpointId == endpointId)

/-- `endpoint_identities AS i JOIN endpoints AS e ON e.endpoint_id = i.endpoint_id
WHERE i.identity_id = %s`. -/
def identityJoin (db : Db) (identityId : Uuid) : Option (IdentityRow × Endpoint) := do
  let i ← db.identityById identityId
  let e ← db.endpointById i.endpointId
  return (i, e)

/-- The same join `WHERE i.endpoint_id = %s AND i.public_key_fingerprint = %s`. -/
def certificateJoin (db : Db) (endpointId : Uuid) (fingerprint : String) :
    Option (IdentityRow × Endpoint) := do
  let i ← db.endpointIdentities.find? fun i =>
    i.endpointId == endpointId && i.publicKeyFingerprint == fingerprint
  let e ← db.endpointById i.endpointId
  return (i, e)

/-- The join of the enrollment retry: the endpoint's current identity, still
pending or issued. -/
def resumable (db : Db) (identityId : Uuid) : Option (IdentityRow × Endpoint) := do
  let (i, e) ← db.identityJoin identityId
  if e.identityId == i.identityId && (i.status == .pending || i.status == .issued) then
    return (i, e)
  else none

def grantByToken (db : Db) (tokenSha256 : String) : Option EnrollmentGrant :=
  db.enrollmentGrants.find? (·.tokenSha256 == tokenSha256)

def lastSequence (db : Db) (identityId bootId : Uuid) : Option Nat :=
  (db.messageSequences.find? fun r => r.identityId == identityId && r.bootId == bootId).map
    (·.lastSequence)

variable {identityId : Uuid} {i : IdentityRow} {e : Endpoint} {db : Db}

theorem identityById_some
    (h : db.identityById identityId = some i) : i ∈ db.endpointIdentities ∧ i.identityId = identityId :=
  ⟨List.mem_of_find?_eq_some h, by simpa using List.find?_some h⟩

theorem endpointById_some {endpointId : Uuid}
    (h : db.endpointById endpointId = some e) : e ∈ db.endpoints ∧ e.endpointId = endpointId :=
  ⟨List.mem_of_find?_eq_some h, by simpa using List.find?_some h⟩

theorem identityJoin_some :
    db.identityJoin identityId = some (i, e) ↔
      db.identityById identityId = some i ∧ db.endpointById i.endpointId = some e := by
  simp only [identityJoin, bind, Option.bind_eq_some_iff, pure, Option.some.injEq, Prod.mk.injEq]
  constructor
  · rintro ⟨_, hi, _, he, rfl, rfl⟩
    exact ⟨hi, he⟩
  · rintro ⟨hi, he⟩
    exact ⟨i, hi, e, he, rfl, rfl⟩

theorem resumable_some :
    db.resumable identityId = some (i, e) ↔ db.identityJoin identityId = some (i, e) ∧
      e.identityId = i.identityId ∧ (i.status = .pending ∨ i.status = .issued) := by
  simp only [resumable, bind, Option.bind_eq_some_iff, Prod.exists]
  constructor
  · rintro ⟨i', e', hjoin, h⟩
    split at h
    · rename_i hc
      simp only [Bool.and_eq_true, beq_iff_eq, Bool.or_eq_true] at hc
      cases h
      exact ⟨hjoin, hc⟩
    · cases h
  · rintro ⟨hjoin, hcur, hs⟩
    refine ⟨i, e, hjoin, if_pos ?_⟩
    simp only [Bool.and_eq_true, beq_iff_eq, Bool.or_eq_true]
    exact ⟨hcur, hs⟩

/-! ## Statements -/

def insertEndpoint (db : Db) (e : Endpoint) : Except Error Db :=
  if !(storable e.displayName && storable e.architecture) then .error (.database .dataError)
  else if db.endpoints.any fun x => x.endpointId == e.endpointId || x.identityId == e.identityId then
    .error (.database .uniqueViolation)
  else .ok { db with endpoints := db.endpoints ++ [e] }

/-- The keys `identity_id` and `public_key_fingerprint`. -/
def insertIdentity (db : Db) (i : IdentityRow) : Except Error Db :=
  if db.endpointIdentities.any fun x =>
      x.identityId == i.identityId || x.publicKeyFingerprint == i.publicKeyFingerprint then
    .error (.database .uniqueViolation)
  else .ok { db with endpointIdentities := db.endpointIdentities ++ [i] }

def insertGrant (db : Db) (g : EnrollmentGrant) : Except Error Db :=
  if !(storable g.displayName && storable g.createdBy) then .error (.database .dataError)
  else if db.enrollmentGrants.any fun x => x.grantId == g.grantId || x.tokenSha256 == g.tokenSha256 then
    .error (.database .uniqueViolation)
  else .ok { db with enrollmentGrants := db.enrollmentGrants ++ [g] }

/-- `SET consumed_at, consumed_identity_id WHERE grant_id = %s AND consumed_at IS NULL`. -/
def consumed (grantId : Uuid) (consumedAt : Instant) (identityId : Uuid) (g : EnrollmentGrant) :
    EnrollmentGrant :=
  if g.grantId = grantId ∧ g.consumedAt = none then
    { g with consumedAt := some consumedAt, consumedIdentityId := some identityId }
  else g

/-- `UPDATE enrollment_grants SET …`, under the key `consumed_identity_id`. -/
def consumeGrant (db : Db) (grantId : Uuid) (consumedAt : Instant) (identityId : Uuid) :
    Except Error Db :=
  if db.enrollmentGrants.any (·.consumedIdentityId == some identityId) then
    .error (.database .uniqueViolation)
  else .ok { db with
    enrollmentGrants := db.enrollmentGrants.map (consumed grantId consumedAt identityId) }

def updateIdentity (db : Db) (identityId : Uuid) (f : IdentityRow → IdentityRow) : Db :=
  { db with endpointIdentities := db.endpointIdentities.map fun i =>
      if i.identityId = identityId then f i else i }

/-- `SET identity_status = 'issued', certificate_* = …`. -/
def certified (serial issuer : String) (notBefore notAfter : Instant) (i : IdentityRow) : IdentityRow :=
  { i with
    status := .issued
    certificateSerial := some serial
    certificateIssuer := some issuer
    certificateNotBefore := some notBefore
    certificateNotAfter := some notAfter }

/-- `UPDATE endpoint_identities SET …`, under the unique index on issuer and serial. -/
def issueIdentity (db : Db) (identityId : Uuid) (serial issuer : String)
    (notBefore notAfter : Instant) : Except Error Db :=
  if !(storable issuer) then .error (.database .dataError)
  else if db.endpointIdentities.any fun x => x.identityId != identityId &&
      x.certificateIssuer == some issuer && x.certificateSerial == some serial then
    .error (.database .uniqueViolation)
  else .ok (db.updateIdentity identityId (certified serial issuer notBefore notAfter))

/-- `INSERT … ON CONFLICT (identity_id, boot_id) DO UPDATE … WHERE last_sequence <
EXCLUDED.last_sequence RETURNING last_sequence`; no row returned is `none`. -/
def upsertSequence (db : Db) (identityId bootId : Uuid) (sequence : Nat) : Option Db :=
  match db.lastSequence identityId bootId with
  | none => some { db with messageSequences :=
      db.messageSequences ++ [⟨identityId, bootId, sequence⟩] }
  | some last =>
    if last < sequence then
      some { db with messageSequences := db.messageSequences.map fun r =>
        if r.identityId = identityId ∧ r.bootId = bootId then { r with lastSequence := sequence } else r }
    else none

/-- The keys `observation_id`, `message_id` and `(identity_id, boot_id, sequence)`. -/
def insertObservation (db : Db) (o : ObservationRow) : Except Error Db :=
  if db.observations.any fun x => x.observationId == o.observationId || x.messageId == o.messageId ||
      (x.identityId == o.identityId && x.bootId == o.bootId && x.sequence == o.sequence) then
    .error (.database .uniqueViolation)
  else .ok { db with observations := db.observations ++ [o] }

/-- `GREATEST(COALESCE(last, %s), %s)`. -/
def latest (last : Option Instant) (receivedAt : Instant) : Option Instant :=
  some (max (last.getD receivedAt) receivedAt)

/-- `SET last_receipt_at = …[, last_heartbeat_at = …]`. -/
def touched (kind : ObservationType) (receivedAt : Instant) (e : Endpoint) : Endpoint :=
  { e with
    lastReceiptAt := latest e.lastReceiptAt receivedAt
    lastHeartbeatAt := match kind with
      | .heartbeat => latest e.lastHeartbeatAt receivedAt
      | .inventory => e.lastHeartbeatAt }

/-- `UPDATE endpoints SET … WHERE endpoint_id = %s`. -/
def touchEndpoint (db : Db) (endpointId : Uuid) (kind : ObservationType) (receivedAt : Instant) : Db :=
  { db with endpoints := db.endpoints.map fun e =>
      if e.endpointId = endpointId then touched kind receivedAt e else e }

/-- `SET identity_status = 'active', activated_at = %s WHERE … identity_status = 'issued'`. -/
def activated (receivedAt : Instant) (i : IdentityRow) : IdentityRow :=
  if i.status = .issued then { i with status := .active, activatedAt := some receivedAt } else i

/-- `UPDATE endpoint_identities SET … WHERE identity_id = %s AND identity_status = 'issued'`,
under `CHECK (activated_at >= created_at)`. -/
def activateIdentity (db : Db) (identityId : Uuid) (receivedAt : Instant) : Except Error Db :=
  if db.endpointIdentities.any fun i =>
      i.identityId == identityId && i.status == .issued && receivedAt < i.createdAt then
    .error (.database .checkViolation)
  else .ok (db.updateIdentity identityId (activated receivedAt))

/-- `SET revoked_at = %s, revocation_reason = %s, identity_status = 'revoked'`. -/
def revoked (revokedAt : Instant) (reason : String) (i : IdentityRow) : IdentityRow :=
  { i with revokedAt := some revokedAt, revocationReason := some reason, status := .revoked }

def revokeRow (db : Db) (identityId : Uuid) (revokedAt : Instant) (reason : String) : Except Error Db :=
  if !storable reason then .error (.database .dataError)
  else .ok (db.updateIdentity identityId (revoked revokedAt reason))

/-- `_insert_audit`. -/
def insertAudit (db : Db) (event : AuditEvent) : Except Error Db := do
  let actorId ← varchar 256 event.actorId
  let subject ← varchar 256 event.subject
  let action ← varchar 128 event.action
  let reason ← varchar 512 event.reason
  if event.metadata.all fun p => storable p.1 && storable p.2 then
    return { db with auditEvents := db.auditEvents ++
      [{ event with actorId := actorId, subject := subject, action := action, reason := reason }] }
  else throw (.database .dataError)

/-- `_insert_audit` of an event whose texts are all the program's own (constants, UUIDs,
digests and numbers), which always fit their columns. -/
def appendAudit (db : Db) (event : AuditEvent) : Db :=
  { db with auditEvents := db.auditEvents ++ [event] }

/-! ## What a statement that went through says

Each lemma gives the constraints a statement was checked against and the rows it left. -/

section Inversion

variable {db db' : Db}

theorem insertEndpoint_ok {e : Endpoint} (h : db.insertEndpoint e = .ok db') :
    (∀ x ∈ db.endpoints, x.endpointId ≠ e.endpointId ∧ x.identityId ≠ e.identityId) ∧
      db' = { db with endpoints := db.endpoints ++ [e] } := by
  unfold insertEndpoint at h
  split at h
  · cases h
  · split at h
    · cases h
    · rename_i hfresh
      cases h
      simp only [List.any_eq_true, Bool.or_eq_true, beq_iff_eq, not_exists, not_and, not_or] at hfresh
      exact ⟨hfresh, rfl⟩

theorem insertIdentity_ok {i : IdentityRow} (h : db.insertIdentity i = .ok db') :
    (∀ x ∈ db.endpointIdentities, x.identityId ≠ i.identityId ∧
        x.publicKeyFingerprint ≠ i.publicKeyFingerprint) ∧
      db' = { db with endpointIdentities := db.endpointIdentities ++ [i] } := by
  unfold insertIdentity at h
  split at h
  · cases h
  · rename_i hfresh
    cases h
    simp only [List.any_eq_true, Bool.or_eq_true, beq_iff_eq, not_exists, not_and, not_or] at hfresh
    exact ⟨hfresh, rfl⟩

theorem insertGrant_ok {g : EnrollmentGrant} (h : db.insertGrant g = .ok db') :
    (∀ x ∈ db.enrollmentGrants, x.grantId ≠ g.grantId ∧ x.tokenSha256 ≠ g.tokenSha256) ∧
      db' = { db with enrollmentGrants := db.enrollmentGrants ++ [g] } := by
  unfold insertGrant at h
  split at h
  · cases h
  · split at h
    · cases h
    · rename_i hfresh
      cases h
      simp only [List.any_eq_true, Bool.or_eq_true, beq_iff_eq, not_exists, not_and, not_or] at hfresh
      exact ⟨hfresh, rfl⟩

theorem consumeGrant_ok {grantId identityId : Uuid} {consumedAt : Instant}
    (h : db.consumeGrant grantId consumedAt identityId = .ok db') :
    (∀ x ∈ db.enrollmentGrants, x.consumedIdentityId ≠ some identityId) ∧
      db' = { db with
        enrollmentGrants := db.enrollmentGrants.map (consumed grantId consumedAt identityId) } := by
  unfold consumeGrant at h
  split at h
  · cases h
  · rename_i hfresh
    cases h
    simp only [List.any_eq_true, beq_iff_eq, not_exists, not_and] at hfresh
    exact ⟨hfresh, rfl⟩

theorem issueIdentity_ok {identityId : Uuid} {serial issuer : String} {notBefore notAfter : Instant}
    (h : db.issueIdentity identityId serial issuer notBefore notAfter = .ok db') :
    (∀ x ∈ db.endpointIdentities, x.identityId ≠ identityId → x.certificateIssuer = some issuer →
        x.certificateSerial ≠ some serial) ∧
      db' = db.updateIdentity identityId (certified serial issuer notBefore notAfter) := by
  unfold issueIdentity at h
  split at h
  · cases h
  · split at h
    · cases h
    · rename_i hfresh
      cases h
      simp only [List.any_eq_true, Bool.and_eq_true, bne_iff_ne, beq_iff_eq, not_exists, not_and,
        and_imp] at hfresh
      exact ⟨hfresh, rfl⟩

theorem insertObservation_ok {o : ObservationRow} (h : db.insertObservation o = .ok db') :
    (∀ x ∈ db.observations, x.observationId ≠ o.observationId ∧ x.messageId ≠ o.messageId ∧
        ¬ (x.identityId = o.identityId ∧ x.bootId = o.bootId ∧ x.sequence = o.sequence)) ∧
      db' = { db with observations := db.observations ++ [o] } := by
  unfold insertObservation at h
  split at h
  · cases h
  · rename_i hfresh
    cases h
    simp only [List.any_eq_true, Bool.or_eq_true, Bool.and_eq_true, beq_iff_eq, not_exists,
      not_and, not_or] at hfresh
    exact ⟨fun x hx => ⟨(hfresh x hx).1.1, (hfresh x hx).1.2,
      fun hk => (hfresh x hx).2 ⟨hk.1, hk.2.1⟩ hk.2.2⟩, rfl⟩

theorem activateIdentity_ok {identityId : Uuid} {receivedAt : Instant}
    (h : db.activateIdentity identityId receivedAt = .ok db') :
    (∀ i ∈ db.endpointIdentities, i.identityId = identityId → i.status = .issued →
        i.createdAt ≤ receivedAt) ∧
      db' = db.updateIdentity identityId (activated receivedAt) := by
  unfold activateIdentity at h
  split at h
  · cases h
  · rename_i hfresh
    cases h
    simp only [List.any_eq_true, Bool.and_eq_true, beq_iff_eq, decide_eq_true_eq, not_exists,
      not_and, and_imp, Int.not_lt] at hfresh
    exact ⟨hfresh, rfl⟩

theorem revokeRow_ok {identityId : Uuid} {revokedAt : Instant} {reason : String}
    (h : db.revokeRow identityId revokedAt reason = .ok db') :
    db' = db.updateIdentity identityId (revoked revokedAt reason) := by
  unfold revokeRow at h
  split at h
  · cases h
  · cases h
    rfl

/-- The upsert keeps every other row and leaves the new value in the row of its key. -/
theorem upsertSequence_some {identityId bootId : Uuid} {sequence : Nat}
    (h : db.upsertSequence identityId bootId sequence = some db') :
    (∀ last, db.lastSequence identityId bootId = some last → last < sequence) ∧
      ∃ rows, db' = { db with messageSequences := rows } ∧
        ∀ r, r ∈ rows ↔ r = ⟨identityId, bootId, sequence⟩ ∨
          (r ∈ db.messageSequences ∧ ¬ (r.identityId = identityId ∧ r.bootId = bootId)) := by
  unfold upsertSequence at h
  split at h
  · rename_i hnone
    cases h
    refine ⟨by simp [hnone], _, rfl, fun r => ?_⟩
    simp only [lastSequence, Option.map_eq_none_iff, List.find?_eq_none, Bool.and_eq_true,
      beq_iff_eq] at hnone
    constructor
    · intro hr
      rcases List.mem_append.mp hr with hr | hr
      · exact .inr ⟨hr, hnone r hr⟩
      · exact .inl (List.mem_singleton.mp hr)
    · rintro (rfl | ⟨hr, -⟩)
      · exact List.mem_append_right _ (List.mem_singleton.mpr rfl)
      · exact List.mem_append_left _ hr
  · rename_i last hsome
    split at h
    · rename_i hlt
      cases h
      refine ⟨by simpa [hsome] using hlt, _, rfl, fun r => ?_⟩
      simp only [lastSequence, Option.map_eq_some_iff] at hsome
      obtain ⟨row, hrow, -⟩ := hsome
      have hmem := List.mem_of_find?_eq_some hrow
      have hkey := List.find?_some hrow
      simp only [Bool.and_eq_true, beq_iff_eq] at hkey
      simp only [List.mem_map]
      constructor
      · rintro ⟨x, hx, rfl⟩
        split
        · rename_i hk
          exact .inl (by rw [← hk.1, ← hk.2])
        · rename_i hk
          exact .inr ⟨hx, hk⟩
      · rintro (rfl | ⟨hr, hk⟩)
        · exact ⟨row, hmem, by rw [if_pos hkey, ← hkey.1, ← hkey.2]⟩
        · exact ⟨r, hr, if_neg hk⟩
    · cases h

theorem insertAudit_ok {event : AuditEvent} (h : db.insertAudit event = .ok db') :
    ∃ stored, db' = { db with auditEvents := db.auditEvents ++ [stored] } := by
  unfold insertAudit at h
  simp only [bind, Except.bind] at h
  repeat' split at h
  all_goals cases h
  exact ⟨_, rfl⟩

/-- An event goes in when its texts fit their columns. -/
theorem insertAudit_of_fits {event : AuditEvent}
    (hactor : storable event.actorId = true ∧ event.actorId.length ≤ 256)
    (hsubject : storable event.subject = true ∧ event.subject.length ≤ 256)
    (haction : storable event.action = true ∧ event.action.length ≤ 128)
    (hreason : storable event.reason = true ∧ event.reason.length ≤ 512)
    (hmeta : ∀ p ∈ event.metadata, storable p.1 = true ∧ storable p.2 = true) :
    db.insertAudit event = .ok (db.appendAudit event) := by
  have hall : (event.metadata.all fun p => storable p.1 && storable p.2) = true := by
    simpa only [List.all_eq_true, Bool.and_eq_true] using hmeta
  unfold insertAudit
  rw [varchar_of_fits hactor.1 hactor.2, varchar_of_fits hsubject.1 hsubject.2,
    varchar_of_fits haction.1 haction.2, varchar_of_fits hreason.1 hreason.2]
  simp only [bind, Except.bind, hall, if_true]
  rfl

end Inversion

end Db

end NorthgateRmm.Server
