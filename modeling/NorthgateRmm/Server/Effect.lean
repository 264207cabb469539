import NorthgateRmm.Server.ControlPlane

/-!
# What a call can do to the tables

One inversion lemma per operation, and `Effect`, the sum of them: a call appends
audit events and otherwise does nothing, or it is exactly one of six changes,
each with the constraints it was checked against. Every invariant of the
control plane is proved from these, never from the operations' bodies.
-/

namespace NorthgateRmm.Server

/-- Nothing but the audit log changed, and that only grew. -/
def AuditOnly (db db' : Db) : Prop :=
  ∃ events, db' = { db with auditEvents := db.auditEvents ++ events }

structure GrantCreated (g : EnrollmentGrant) (db db' : Db) : Prop where
  valid : g.postInit = none
  unconsumed : g.consumedAt = none ∧ g.consumedIdentityId = none
  fresh : ∀ x ∈ db.enrollmentGrants, x.grantId ≠ g.grantId ∧ x.tokenSha256 ≠ g.tokenSha256
  after : ∃ events, db' = { db with
    enrollmentGrants := db.enrollmentGrants ++ [g]
    auditEvents := db.auditEvents ++ events }

/-- The keys of a new endpoint and its identity are unused. -/
structure Enrollable (e : Endpoint) (i : IdentityRow) (db : Db) : Prop where
  endpoint : ∀ x ∈ db.endpoints, x.endpointId ≠ e.endpointId ∧ x.identityId ≠ e.identityId
  identity : ∀ x ∈ db.endpointIdentities, x.identityId ≠ i.identityId ∧
    x.publicKeyFingerprint ≠ i.publicKeyFingerprint

structure Enrolled (a : EnrollArgs) (db db' : Db) : Prop where
  enrollable : Enrollable a.endpoint a.identity db
  valid : a.identity.postInit = none
  after : ∃ events, db' = { db with
    endpoints := db.endpoints ++ [a.endpoint]
    endpointIdentities := db.endpointIdentities ++ [a.identity]
    auditEvents := db.auditEvents ++ events }

structure Exchanged (a : ConsumeArgs) (status : EndpointLifecycle) (g : EnrollmentGrant)
    (db db' : Db) : Prop where
  found : db.grantByToken (tokenSha256 a.token) = some g
  unconsumed : g.consumedAt = none
  window : g.createdAt ≤ a.now ∧ a.now < g.expiresAt
  enrollable : Enrollable (a.endpoint g) (a.identity status) db
  valid : (a.identity status).postInit = none
  unbound : ∀ x ∈ db.enrollmentGrants, x.consumedIdentityId ≠ some a.identityId
  after : ∃ events, db' = { db with
    endpoints := db.endpoints ++ [a.endpoint g]
    endpointIdentities := db.endpointIdentities ++ [a.identity status]
    enrollmentGrants := db.enrollmentGrants.map (Db.consumed g.grantId a.now a.identityId)
    auditEvents := db.auditEvents ++ events }

/-- The row an issuance leaves. -/
def IssueArgs.certify (a : IssueArgs) : IdentityRow → IdentityRow :=
  Db.certified a.certificateSerial a.certificateIssuer a.certificateNotBefore a.certificateNotAfter

structure Issued (a : IssueArgs) (i : IdentityRow) (e : Endpoint) (db db' : Db) : Prop where
  joined : db.identityJoin a.identityId = some (i, e)
  pending : i.status = .pending
  current : e.identityId = i.identityId
  validated : a.validate = none
  unregistered : ∀ x ∈ db.endpointIdentities, x.identityId ≠ a.identityId →
    x.certificateIssuer = some a.certificateIssuer → x.certificateSerial ≠ some a.certificateSerial
  after : ∃ events, db' = { db.updateIdentity a.identityId a.certify with
    auditEvents := db.auditEvents ++ events }

structure Revoked (a : RevokeArgs) (i : IdentityRow) (db db' : Db) : Prop where
  found : db.identityById a.identityId = some i
  unrevoked : i.revokedAt = none
  after : ∃ events, db' = { db.updateIdentity a.identityId (Db.revoked a.now a.reason) with
    auditEvents := db.auditEvents ++ events }

/-- The identity rows after a message of the given kind. -/
def IngestArgs.activate (a : IngestArgs) (identityId : Uuid) (rows : List IdentityRow) :
    List IdentityRow :=
  match a.observationType with
  | .heartbeat => rows.map fun i => if i.identityId = identityId then Db.activated a.receivedAt i else i
  | .inventory => rows

structure Accepted (a : IngestArgs) (i : IdentityRow) (e : Endpoint) (db db' : Db) : Prop where
  joined : db.identityJoin a.authenticatedIdentityId = some (i, e)
  identityOk : firstFailure (a.identityChecks i e) = none
  messageOk : firstFailure (a.messageChecks e) = none
  sequenceOk : ∀ last, db.lastSequence a.authenticatedIdentityId a.envelope.bootId = some last →
    last < a.envelope.sequence
  unseen : ∀ x ∈ db.observations, x.observationId ≠ a.observationId ∧
    x.messageId ≠ a.envelope.messageId ∧
    ¬ (x.identityId = a.authenticatedIdentityId ∧ x.bootId = a.envelope.bootId ∧
      x.sequence = a.envelope.sequence)
  after : ∃ rows events,
    (∀ r, r ∈ rows ↔ r = ⟨a.authenticatedIdentityId, a.envelope.bootId, a.envelope.sequence⟩ ∨
      (r ∈ db.messageSequences ∧
        ¬ (r.identityId = a.authenticatedIdentityId ∧ r.bootId = a.envelope.bootId))) ∧
    db' = { db with
      endpoints := (db.touchEndpoint i.endpointId a.observationType a.receivedAt).endpoints
      endpointIdentities := a.activate i.identityId db.endpointIdentities
      messageSequences := rows
      observations := db.observations ++ [a.observation i]
      auditEvents := db.auditEvents ++ events }

/-- Everything a call that carries the message `msg` can do. -/
inductive Effect (msg : Option IngestArgs) (db db' : Db) : Prop where
  | audit (h : AuditOnly db db')
  | createGrant {g : EnrollmentGrant} (h : GrantCreated g db db')
  | enroll {a : EnrollArgs} (h : Enrolled a db db')
  | exchange {a : ConsumeArgs} {status : EndpointLifecycle} {g : EnrollmentGrant}
      (hs : status = .pending ∨ status = .active) (h : Exchanged a status g db db')
  | issue {a : IssueArgs} {i : IdentityRow} {e : Endpoint} (h : Issued a i e db db')
  | revoke {a : RevokeArgs} {i : IdentityRow} (h : Revoked a i db db')
  | accept {a : IngestArgs} {i : IdentityRow} {e : Endpoint} (hm : msg = some a)
      (h : Accepted a i e db db')

/-! ## Transactions -/

section Transactions

variable {α : Type} {db : Db}

theorem AuditOnly.refl (db : Db) : AuditOnly db db := ⟨[], by simp⟩

theorem AuditOnly.append (event : AuditEvent) : AuditOnly db (db.appendAudit event) := ⟨[event], rfl⟩

theorem AuditOnly.insertAudit {db' : Db} {event : AuditEvent} (h : db.insertAudit event = .ok db') :
    AuditOnly db db' := by
  obtain ⟨stored, rfl⟩ := Db.insertAudit_ok h
  exact ⟨[stored], rfl⟩

theorem bind_ok {β : Type} {x : Except Error α} {f : α → Except Error β} {b : β}
    (h : x >>= f = .ok b) : ∃ a, x = .ok a ∧ f a = .ok b := by
  cases x with
  | error e => cases h
  | ok a => exact ⟨a, rfl, h⟩

/-- The call raised, and left nothing behind but audit events. -/
def Raised (db : Db) (out : Except Error α × Db) : Prop := (∃ e, out.1 = .error e) ∧ AuditOnly db out.2

theorem raised_self (db : Db) (e : Error) : Raised db ((.error e : Except Error α), db) :=
  ⟨⟨e, rfl⟩, .refl db⟩

/-- A transaction that writes one event and then returns or raises `r`. -/
theorem transaction_insertAudit (db : Db) (r : Except Error α) (event : AuditEvent) :
    let out := transaction db (do let db' ← db.insertAudit event; return (r, db'))
    Raised db out ∨ (out.1 = r ∧ AuditOnly db out.2) := by
  cases h : db.insertAudit event with
  | error e => exact .inl (raised_self db e)
  | ok db' => exact .inr ⟨rfl, .insertAudit h⟩

theorem transaction_insertAudit_error (db : Db) (e : Error) (event : AuditEvent) :
    Raised db (transaction (α := α) db (do let db' ← db.insertAudit event; return (.error e, db'))) :=
  (transaction_insertAudit db (.error e) event).elim id fun h => ⟨⟨e, h.1⟩, h.2⟩

theorem transaction_cases (db : Db) (body : Except Error (Except Error α × Db)) :
    Raised db (transaction db body) ∨ body = .ok (transaction db body) := by
  cases body with
  | ok out => exact .inr rfl
  | error e => exact .inl (raised_self db e)

/-- The handler of a unique violation adds nothing but its event to a rolled back body. -/
theorem onUniqueViolation_cases (event : AuditEvent) (raised : Error) (db : Db)
    (body : Except Error (Except Error α × Db)) :
    Raised db (onUniqueViolation event raised db body) ∨
      body = .ok (onUniqueViolation event raised db body) := by
  unfold onUniqueViolation
  split
  · exact .inl (transaction_insertAudit_error db raised event)
  · exact transaction_cases db _

end Transactions

/-! ## The operations -/

theorem createEnrollmentGrant_cases (a : CreateGrantArgs) (db : Db) :
    let out := createEnrollmentGrant a db
    Raised db out ∨ ∃ g token, out.1 = .ok (g, token) ∧ GrantCreated g db out.2 := by
  unfold createEnrollmentGrant
  dsimp only
  split
  · exact .inl (raised_self db _)
  · rename_i hvalid
    refine (transaction_cases db _).imp id fun h => ?_
    obtain ⟨db₁, hgrant, h⟩ := bind_ok h
    obtain ⟨db₂, haudit, h⟩ := bind_ok h
    obtain ⟨hfresh, rfl⟩ := Db.insertGrant_ok hgrant
    obtain ⟨stored, rfl⟩ := Db.insertAudit_ok haudit
    rw [← Except.ok.inj h]
    exact ⟨_, _, rfl, hvalid, ⟨rfl, rfl⟩, hfresh, [stored], rfl⟩

theorem enrollSyntheticEndpoint_cases (a : EnrollArgs) (db : Db) :
    let out := enrollSyntheticEndpoint a db
    Raised db out ∨ (out.1 = .ok (a.endpoint, a.identity.toEndpointIdentity) ∧ Enrolled a db out.2) := by
  unfold enrollSyntheticEndpoint
  dsimp only
  split
  · exact .inl (raised_self db _)
  · rename_i hvalid
    refine (onUniqueViolation_cases _ _ db _).imp id fun h => ?_
    obtain ⟨db₁, he, h⟩ := bind_ok h
    obtain ⟨db₂, hi, h⟩ := bind_ok h
    obtain ⟨db₃, haudit, h⟩ := bind_ok h
    obtain ⟨hfresh, rfl⟩ := Db.insertEndpoint_ok he
    obtain ⟨hfresh', rfl⟩ := Db.insertIdentity_ok hi
    obtain ⟨stored, rfl⟩ := Db.insertAudit_ok haudit
    rw [← Except.ok.inj h]
    refine ⟨rfl, ⟨hfresh, hfresh'⟩, ?_, [stored], rfl⟩
    cases hp : a.identity.postInit with
    | none => rfl
    | some e => simp [hp] at hvalid

variable {db : Db} {g : EnrollmentGrant} {a : ConsumeArgs} {i : IdentityRow} {retry : Bool}

theorem consumeDecision_fresh
    (h : consumeDecision a retry db = .fresh g) :
    db.grantByToken (tokenSha256 a.token) = some g ∧ g.consumedAt = none ∧
      g.createdAt ≤ a.now ∧ a.now < g.expiresAt := by
  unfold consumeDecision at h
  split at h
  · cases h
  · split at h
    · cases h
    · rename_i g' hg
      by_cases hearly : a.now < g'.createdAt
      · rw [if_pos hearly] at h
        cases h
      by_cases hlate : g'.expiresAt ≤ a.now
      · rw [if_neg hearly, if_pos hlate] at h
        cases h
      rw [if_neg hearly, if_neg hlate] at h
      split at h
      · cases h
      · split at h
        · rename_i hnone
          cases h
          exact ⟨hg, hnone, Int.not_lt.mp hearly, Int.not_le.mp hlate⟩
        · -- a consumed grant is resumed or rejected
          split at h
          · split at h
            · split at h <;> cases h
            · cases h
          · cases h

/-- A call resumes an enrollment only in the window of its consumed grant, for the bound
identity and with its fingerprint. -/
theorem consumeDecision_resume
    {e : Endpoint} (h : consumeDecision a retry db = .resume g e i) :
    retry = true ∧ db.grantByToken (tokenSha256 a.token) = some g ∧ g.consumedAt.isSome ∧
      (g.createdAt ≤ a.now ∧ a.now < g.expiresAt) ∧ i.publicKeyFingerprint = a.publicKeyFingerprint ∧
      ∃ id, g.consumedIdentityId = some id ∧ db.resumable id = some (i, e) := by
  unfold consumeDecision at h
  split at h
  · cases h
  · split at h
    · cases h
    · rename_i g' hg
      by_cases hearly : a.now < g'.createdAt
      · rw [if_pos hearly] at h
        cases h
      by_cases hlate : g'.expiresAt ≤ a.now
      · rw [if_neg hearly, if_pos hlate] at h
        cases h
      rw [if_neg hearly, if_neg hlate] at h
      split at h
      · cases h
      · split at h
        · cases h
        · rename_i t ht
          split at h
          · rename_i hretry
            split at h
            · rename_i hrow
              split at h
              · rename_i hfp
                cases h
                exact ⟨hretry, hg, by simp [ht], ⟨Int.not_lt.mp hearly, Int.not_le.mp hlate⟩, hfp,
                  Option.bind_eq_some_iff.mp hrow⟩
              · cases h
            · cases h
          · cases h

theorem exchangeGrant_ok {status : EndpointLifecycle}
    {out : Except Error (Endpoint × EndpointIdentity) × Db}
    (hd : consumeDecision a retry db = .fresh g) (h : exchangeGrant a status g db = .ok out) :
    out.1 = .ok (a.endpoint g, (a.identity status).toEndpointIdentity) ∧
      Exchanged a status g db out.2 := by
  obtain ⟨hfound, hnone, hwindow⟩ := consumeDecision_fresh hd
  unfold exchangeGrant at h
  dsimp only at h
  split at h
  · cases h
  · rename_i hvalid
    obtain ⟨db₁, he, h⟩ := bind_ok h
    obtain ⟨db₂, hi, h⟩ := bind_ok h
    obtain ⟨db₃, hc, h⟩ := bind_ok h
    obtain ⟨db₄, haudit, h⟩ := bind_ok h
    obtain ⟨db₅, haudit', h⟩ := bind_ok h
    obtain ⟨hfresh, rfl⟩ := Db.insertEndpoint_ok he
    obtain ⟨hfresh', rfl⟩ := Db.insertIdentity_ok hi
    obtain ⟨hunbound, rfl⟩ := Db.consumeGrant_ok hc
    obtain ⟨stored, rfl⟩ := Db.insertAudit_ok haudit
    obtain ⟨stored', rfl⟩ := Db.insertAudit_ok haudit'
    rw [← Except.ok.inj h]
    refine ⟨rfl, hfound, hnone, hwindow, ⟨hfresh, hfresh'⟩, ?_, hunbound, [stored, stored'], ?_⟩
    · cases hp : (a.identity status).postInit with
      | none => rfl
      | some e => simp [hp] at hvalid
    · simp [ConsumeArgs.identity]

theorem consumeGrantWith_cases (a : ConsumeArgs) (status : EndpointLifecycle) (retry : Bool) (db : Db) :
    let out := consumeGrantWith a status retry db
    Raised db out ∨
      (∃ g e i, consumeDecision a retry db = .resume g e i ∧ out.1 = .ok (e, i.toEndpointIdentity) ∧
        AuditOnly db out.2) ∨
      ∃ g, out.1 = .ok (a.endpoint g, (a.identity status).toEndpointIdentity) ∧
        Exchanged a status g db out.2 := by
  unfold consumeGrantWith
  dsimp only
  split
  · exact .inl (raised_self db _)
  · split
    · exact .inl (transaction_insertAudit_error db _ _)
    · rename_i g e i hd
      exact (transaction_insertAudit db _ _).imp id fun h => .inl ⟨g, e, i, hd, h⟩
    · rename_i g hd
      exact (onUniqueViolation_cases _ _ db _).imp id fun h => .inr ⟨g, exchangeGrant_ok hd h⟩

theorem recordIssuedBody_ok {a : IssueArgs} {out : Except Error EndpointIdentity × Db}
    (hv : a.validate = none) (h : recordIssuedBody a db = .ok out) :
    (∃ i e, db.identityJoin a.identityId = some (i, e) ∧ a.exactRetry i = true ∧ a.validate = none ∧
      out.1 = .ok i.toEndpointIdentity ∧ AuditOnly db out.2) ∨
    ∃ i e, out.1 = .ok { i.toEndpointIdentity with status := .issued } ∧ Issued a i e db out.2 := by
  unfold recordIssuedBody at h
  split at h
  · cases h
  · rename_i i e hjoin
    split at h
    · rename_i hretry
      obtain ⟨db₁, haudit, h⟩ := bind_ok h
      rw [← Except.ok.inj h]
      exact .inl ⟨i, e, hjoin, hretry, hv, rfl, .insertAudit haudit⟩
    · split at h
      · cases h
      · rename_i hpending
        obtain ⟨db₁, hissue, h⟩ := bind_ok h
        obtain ⟨db₂, haudit, h⟩ := bind_ok h
        obtain ⟨hfresh, rfl⟩ := Db.issueIdentity_ok hissue
        obtain ⟨stored, rfl⟩ := Db.insertAudit_ok haudit
        simp only [Bool.or_eq_true, bne_iff_ne, not_or, ne_eq, not_not] at hpending
        rw [← Except.ok.inj h]
        exact .inr ⟨i, e, rfl, hjoin, hpending.1, hpending.2, hv, hfresh, [stored], rfl⟩

theorem recordIssuedEndpointIdentity_cases (a : IssueArgs) (db : Db) :
    let out := recordIssuedEndpointIdentity a db
    Raised db out ∨
      (∃ i e, db.identityJoin a.identityId = some (i, e) ∧ a.exactRetry i = true ∧ a.validate = none ∧
        out.1 = .ok i.toEndpointIdentity ∧ AuditOnly db out.2) ∨
      ∃ i e, out.1 = .ok { i.toEndpointIdentity with status := .issued } ∧ Issued a i e db out.2 := by
  unfold recordIssuedEndpointIdentity
  dsimp only
  split
  · exact .inl (raised_self db _)
  · rename_i hv
    exact (onUniqueViolation_cases _ _ db _).imp id (recordIssuedBody_ok hv)

theorem authenticateFailure_eq_none {row : Option (IdentityRow × Endpoint)} :
    authenticateFailure row = none ↔ ∃ i e, row = some (i, e) ∧ i.revokedAt = none ∧
      (i.status = .issued ∨ i.status = .active) ∧ e.identityId = i.identityId := by
  unfold authenticateFailure
  split
  · simp
  · rename_i i e
    constructor
    · intro h
      split at h
      · cases h
      · rename_i hr
        split at h
        · cases h
        · rename_i hc
          exact ⟨i, e, rfl, by simpa using hr, notCurrent_eq_false.mp (Bool.not_eq_true _ ▸ hc)⟩
    · rintro ⟨_, _, heq, hr, hc⟩
      cases heq
      simp [hr, notCurrent_eq_false.mpr hc]

theorem authenticateEndpointCertificate_cases (a : AuthenticateArgs) (db : Db) :
    let out := authenticateEndpointCertificate a db
    AuditOnly db out.2 ∧ ∀ identity, out.1 = .ok identity → ∃ i e,
      db.certificateJoin a.endpointId a.publicKeyFingerprint = some (i, e) ∧
        identity = i.toEndpointIdentity ∧ i.revokedAt = none ∧
        (i.status = .issued ∨ i.status = .active) ∧ e.identityId = i.identityId := by
  unfold authenticateEndpointCertificate
  dsimp only
  split
  · rename_i i e hnone hrow
    refine ⟨.append _, fun identity h => ?_⟩
    obtain ⟨i', e', hrow', hcurrent⟩ := authenticateFailure_eq_none.mp hnone
    rw [hrow, Option.some.injEq, Prod.mk.injEq] at hrow'
    obtain ⟨rfl, rfl⟩ := hrow'
    exact ⟨i, _, hrow, (Except.ok.inj h).symm, hcurrent⟩
  · exact ⟨.append _, fun identity h => nomatch h⟩

theorem revokeIdentity_cases (a : RevokeArgs) (db : Db) :
    let out := revokeIdentity a db
    Raised db out ∨
      (∃ i, db.identityById a.identityId = some i ∧ i.revokedAt.isSome ∧
        out.1 = .ok i.toEndpointIdentity ∧ AuditOnly db out.2) ∨
      ∃ i identity, out.1 = .ok identity ∧ Revoked a i db out.2 := by
  unfold revokeIdentity
  dsimp only
  split
  · exact .inl (raised_self db _)
  · refine (transaction_cases db _).imp id fun h => ?_
    generalize transaction db (revokeBody a db) = out at h
    unfold revokeBody at h
    split at h
    · cases h
    · rename_i i hfound
      split at h
      · rename_i hrevoked
        obtain ⟨db₁, haudit, h⟩ := bind_ok h
        rw [← Except.ok.inj h]
        exact .inl ⟨i, hfound, hrevoked, rfl, .insertAudit haudit⟩
      · rename_i hrevoked
        dsimp only at h
        split at h
        · cases h
        · obtain ⟨db₁, hrow, h⟩ := bind_ok h
          obtain ⟨db₂, haudit, h⟩ := bind_ok h
          obtain rfl := Db.revokeRow_ok hrow
          obtain ⟨stored, rfl⟩ := Db.insertAudit_ok haudit
          rw [← Except.ok.inj h]
          exact .inr ⟨i, _, rfl, hfound, by simpa using hrevoked, [stored], rfl⟩

theorem activateOnHeartbeat_ok {a : IngestArgs} {db db' : Db}
    (h : activateOnHeartbeat a i db = .ok db') :
    ∃ events, db' = { db with
      endpointIdentities := a.activate i.identityId db.endpointIdentities
      auditEvents := db.auditEvents ++ events } := by
  unfold activateOnHeartbeat at h
  unfold IngestArgs.activate
  cases hk : a.observationType with
  | inventory =>
    rw [hk] at h
    cases h
    exact ⟨[], by simp⟩
  | heartbeat =>
    rw [hk] at h
    obtain ⟨db₁, hactivate, h⟩ := bind_ok h
    obtain ⟨-, rfl⟩ := Db.activateIdentity_ok hactivate
    split at h
    · cases h
      exact ⟨[_], rfl⟩
    · cases h
      exact ⟨[], by simp [Db.updateIdentity]⟩

theorem acceptObservation_ok {a : IngestArgs}
    {out : Except Error Observation × Db} (h : acceptObservation a i db = .ok out) :
    out.1 = .ok (a.observation i).toObservation ∧
      (∀ x ∈ db.observations, x.observationId ≠ a.observationId ∧
        x.messageId ≠ a.envelope.messageId ∧
        ¬ (x.identityId = a.authenticatedIdentityId ∧ x.bootId = a.envelope.bootId ∧
          x.sequence = a.envelope.sequence)) ∧
      ∃ events, out.2 = { db with
        endpoints := (db.touchEndpoint i.endpointId a.observationType a.receivedAt).endpoints
        endpointIdentities := a.activate i.identityId db.endpointIdentities
        observations := db.observations ++ [a.observation i]
        auditEvents := db.auditEvents ++ events } := by
  unfold acceptObservation at h
  dsimp only at h
  split at h
  · cases h
  · obtain ⟨db₁, hobs, h⟩ := bind_ok h
    obtain ⟨hunseen, rfl⟩ := Db.insertObservation_ok hobs
    obtain ⟨db₂, hkind, h⟩ := bind_ok h
    rw [← Except.ok.inj h]
    refine ⟨rfl, hunseen, ?_⟩
    obtain ⟨events, rfl⟩ := activateOnHeartbeat_ok hkind
    exact ⟨events ++ [_], by simp [Db.appendAudit, Db.touchEndpoint]; rfl⟩

theorem ingestSeeing_cases (seen : List ObservationRow) (a : IngestArgs) (db : Db) :
    let out := ingestSeeing seen a db
    Raised db out ∨
      (∃ existing, ingestDecision seen a db = .retry existing ∧ out.1 = .ok existing.toObservation ∧
        AuditOnly db out.2) ∨
      ∃ i e, out.1 = .ok (a.observation i).toObservation ∧ Accepted a i e db out.2 := by
  dsimp only
  unfold ingestSeeing
  refine (onUniqueViolation_cases _ _ db _).elim .inl fun h => ?_
  generalize onUniqueViolation _ _ db _ = out at h
  unfold ingestBody at h
  cases hd : ingestDecision seen a db with
  | reject err =>
    rw [hd] at h
    rw [← Except.ok.inj h]
    exact .inl ⟨⟨err, rfl⟩, .append _⟩
  | retry existing =>
    rw [hd] at h
    rw [← Except.ok.inj h]
    exact .inr (.inl ⟨existing, rfl, rfl, .append _⟩)
  | accept i sequenced =>
    rw [hd] at h
    refine .inr (.inr ?_)
    obtain ⟨hres, hunseen, events, hafter⟩ := acceptObservation_ok h
    unfold ingestDecision at hd
    split at hd
    · cases hd
    · rename_i i' e hjoin
      split at hd
      · cases hd
      · rename_i hidentity
        split at hd
        · split at hd <;> cases hd
        · split at hd
          · cases hd
          · rename_i hmessage
            split at hd
            · cases hd
            · rename_i hseq
              cases hd
              obtain ⟨hlast, rows, rfl, hrows⟩ := Db.upsertSequence_some hseq
              exact ⟨_, e, hres, hjoin, hidentity, hmessage, hlast, hunseen, rows, events, hrows,
                hafter⟩

/-! ## Calls and runs of calls -/

theorem consumeGrantWith_effect (a : ConsumeArgs) {status : EndpointLifecycle} (retry : Bool) (db : Db)
    (hs : status = .pending ∨ status = .active) :
    Effect none db (consumeGrantWith a status retry db).2 := by
  obtain ⟨-, h⟩ | ⟨_, _, _, -, -, h⟩ | ⟨_, -, h⟩ := consumeGrantWith_cases a status retry db
  · exact .audit h
  · exact .audit h
  · exact .exchange hs h

theorem ingestSeeing_effect (seen : List ObservationRow) (a : IngestArgs) (db : Db) :
    Effect (some a) db (ingestSeeing seen a db).2 := by
  obtain ⟨-, h⟩ | ⟨_, -, -, h⟩ | ⟨_, _, -, h⟩ := ingestSeeing_cases seen a db
  · exact .audit h
  · exact .audit h
  · exact .accept rfl h

theorem recordOperatorAccess_auditOnly (a : OperatorAccessArgs) (db : Db) :
    AuditOnly db (recordOperatorAccess a db).2 := by
  unfold recordOperatorAccess
  split
  · exact .refl db
  · exact (transaction_insertAudit db _ _).elim (·.2) (·.2)

/-- **A call appends audit events, or makes one of the six changes.** -/
theorem Call.exec_effect (call : Call) (db : Db) : Effect call.message db (call.exec db) := by
  cases call with
  | createEnrollmentGrant a =>
    obtain ⟨-, h⟩ | ⟨_, _, -, h⟩ := createEnrollmentGrant_cases a db
    · exact .audit h
    · exact .createGrant h
  | consumeEnrollmentGrant a => exact consumeGrantWith_effect a false db (.inr rfl)
  | beginEndpointEnrollment a => exact consumeGrantWith_effect a true db (.inl rfl)
  | recordIssuedEndpointIdentity a =>
    obtain ⟨-, h⟩ | ⟨_, _, -, -, -, -, h⟩ | ⟨_, _, -, h⟩ := recordIssuedEndpointIdentity_cases a db
    · exact .audit h
    · exact .audit h
    · exact .issue h
  | enrollSyntheticEndpoint a =>
    obtain ⟨-, h⟩ | ⟨-, h⟩ := enrollSyntheticEndpoint_cases a db
    · exact .audit h
    · exact .enroll h
  | authenticateEndpointCertificate a => exact .audit (authenticateEndpointCertificate_cases a db).1
  | revokeIdentity a =>
    obtain ⟨-, h⟩ | ⟨_, -, -, -, h⟩ | ⟨_, _, -, h⟩ := revokeIdentity_cases a db
    · exact .audit h
    · exact .audit h
    · exact .revoke h
  | ingestHeartbeat m => exact ingestSeeing_effect _ _ db
  | ingestInventory m platform architecture => exact ingestSeeing_effect _ _ db
  | recordOperatorAccess a => exact .audit (recordOperatorAccess_auditOnly a db)

/-- What is kept by every change a message of kind `C` can make holds after every run
whose messages are of kind `C`. -/
theorem Call.run_induction {P : Db → Prop} {C : IngestArgs → Prop}
    (hstep : ∀ {msg db db'}, (∀ a, msg = some a → C a) → P db → Effect msg db db' → P db')
    {calls : List Call} (hc : ∀ call ∈ calls, ∀ a, call.message = some a → C a) (h : P db) :
    P (Call.run calls db) := by
  induction calls generalizing db with
  | nil => exact h
  | cons call calls ih =>
    exact ih (fun c hm => hc c (List.mem_cons_of_mem _ hm))
      (hstep (hc call List.mem_cons_self) h (call.exec_effect db))

end NorthgateRmm.Server
