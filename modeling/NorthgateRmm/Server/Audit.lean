import NorthgateRmm.Server.Effect

/-!
# Every change is explained

A call that raises leaves the five tables as they were. A call that changes one of
them appends accepted events only, and each object whose row it wrote is named by
one of those events. The rejected and `no_change` events belong to calls that
change nothing.
-/

namespace NorthgateRmm.Server

/-! ## Objects and the events that name them -/

/-- All tables but the audit log are the same. -/
structure SameTables (db db' : Db) : Prop where
  endpoints : db'.endpoints = db.endpoints
  endpointIdentities : db'.endpointIdentities = db.endpointIdentities
  enrollmentGrants : db'.enrollmentGrants = db.enrollmentGrants
  messageSequences : db'.messageSequences = db.messageSequences
  observations : db'.observations = db.observations

inductive Object where
  | endpoint (endpointId : Uuid)
  | identity (identityId : Uuid)
  | grant (grantId : Uuid)
  | floor (identityId bootId : Uuid)
  | observation (messageId : Uuid)
  deriving DecidableEq

/-- A row of the object is in the table before or after, but not both. -/
inductive Changed (db db' : Db) : Object → Prop where
  | endpoint (e : Endpoint) (h : ¬ (e ∈ db.endpoints ↔ e ∈ db'.endpoints)) :
      Changed db db' (.endpoint e.endpointId)
  | identity (i : IdentityRow) (h : ¬ (i ∈ db.endpointIdentities ↔ i ∈ db'.endpointIdentities)) :
      Changed db db' (.identity i.identityId)
  | grant (g : EnrollmentGrant) (h : ¬ (g ∈ db.enrollmentGrants ↔ g ∈ db'.enrollmentGrants)) :
      Changed db db' (.grant g.grantId)
  | floor (r : SequenceRow) (h : ¬ (r ∈ db.messageSequences ↔ r ∈ db'.messageSequences)) :
      Changed db db' (.floor r.identityId r.bootId)
  | observation (o : ObservationRow) (h : ¬ (o ∈ db.observations ↔ o ∈ db'.observations)) :
      Changed db db' (.observation o.messageId)

/-- How an event names an object: as its subject, as its actor, or in its metadata. A
sequence floor is named by its identity and by the message that raised it, whose
observation carries the boot ID. -/
def AuditEvent.Names (db : Db) (event : AuditEvent) : Object → Prop
  | .endpoint id => event.subject = "endpoint:" ++ id.toText
  | .identity id => event.subject = "identity:" ++ id.toText ∨
      ("identity_id", id.toText) ∈ event.metadata ∨
      (event.actorType = "endpoint_identity" ∧ event.actorId = id.toText)
  | .grant id => event.subject = "enrollment_grant:" ++ id.toText
  | .floor identityId bootId =>
      (event.actorType = "endpoint_identity" ∧ event.actorId = identityId.toText) ∧
        ∃ o ∈ db.observations, o.identityId = identityId ∧ o.bootId = bootId ∧
          ("message_id", o.messageId.toText) ∈ event.metadata
  | .observation id => ("message_id", id.toText) ∈ event.metadata

/-- The events a call appended account for what it did to the tables. -/
structure Explains (db db' : Db) (events : List AuditEvent) : Prop where
  appended : db'.auditEvents = db.auditEvents ++ events
  named : ∀ object, Changed db db' object →
    ∃ event ∈ events, event.decision = .accepted ∧ event.Names db' object
  accepted : ¬ SameTables db db' →
    (∃ event, event ∈ events) ∧ ∀ event ∈ events, event.decision = .accepted

theorem AuditOnly.sameTables {db db' : Db} (h : AuditOnly db db') : SameTables db db' := by
  obtain ⟨events, rfl⟩ := h
  exact ⟨rfl, rfl, rfl, rfl, rfl⟩

theorem AuditOnly.explained {db db' : Db} (h : AuditOnly db db') : ∃ events, Explains db db' events := by
  obtain ⟨events, rfl⟩ := h
  refine ⟨events, rfl, fun object hc => ?_, fun hd => absurd ⟨rfl, rfl, rfl, rfl, rfl⟩ hd⟩
  cases hc <;> rename_i h <;> exact absurd Iff.rfl h

/-! ## Rows an edit changes -/

section Rows

variable {α : Type} {rows : List α}

/-- An insertion changes the new row only. -/
theorem eq_of_changed_append {x y : α} (h : ¬ (y ∈ rows ↔ y ∈ rows ++ [x])) : y = x := by
  simp only [List.mem_append, List.mem_singleton] at h
  by_contra hne
  exact h ⟨.inl, fun hy => hy.resolve_right hne⟩

/-- An update changes rows it selects, before or after. -/
theorem of_changed_map {f : α → α} {P : α → Prop} {y : α} (hout : ∀ x, ¬ P x → f x = x)
    (hin : ∀ x, P x → P (f x)) (h : ¬ (y ∈ rows ↔ y ∈ rows.map f)) : P y := by
  by_contra hy
  refine h ⟨fun hmem => List.mem_map.mpr ⟨y, hmem, hout y hy⟩, fun hmem => ?_⟩
  obtain ⟨x, hx, rfl⟩ := List.mem_map.mp hmem
  by_cases hp : P x
  · exact absurd (hin x hp) hy
  · rwa [hout x hp]

end Rows

variable {i : IdentityRow} {a : IngestArgs} {db : Db} {err : Error} {id : Uuid}

theorem identity_of_changed_update {f : IdentityRow → IdentityRow}
    (hf : ∀ i, (f i).identityId = i.identityId)
    (h : ¬ (i ∈ db.endpointIdentities ↔ i ∈ (db.updateIdentity id f).endpointIdentities)) :
    i.identityId = id := by
  refine of_changed_map (P := fun i : IdentityRow => i.identityId = id) (fun x hx => if_neg hx) (fun x hx => ?_) h
  rw [if_pos hx, hf, hx]

/-! ## Events as they are stored -/

theorem Db.insertAudit_stored {db db' : Db} {event : AuditEvent} (h : db.insertAudit event = .ok db') :
    ∃ stored, db' = { db with auditEvents := db.auditEvents ++ [stored] } ∧
      stored.decision = event.decision ∧ stored.metadata = event.metadata ∧
      varchar 256 event.subject = .ok stored.subject := by
  obtain ⟨actorId, -, h⟩ := bind_ok h
  obtain ⟨subject, hsubject, h⟩ := bind_ok h
  obtain ⟨action, -, h⟩ := bind_ok h
  obtain ⟨reason, -, h⟩ := bind_ok h
  split at h
  · cases h
    exact ⟨_, rfl, rfl, rfl, hsubject⟩
  · cases h

/-- The subject of an event about one object fits its column. -/
theorem varchar_subject {kind : String} (hs : storable kind = true) (hl : kind.length ≤ 32) (id : Uuid)
    {stored : String} (h : varchar 256 (kind ++ id.toText) = .ok stored) : stored = kind ++ id.toText := by
  rw [varchar_of_fits (storable_append hs (storable_toText id))
    (by rw [String.length_append, Uuid.length_toText]; omega)] at h
  exact (Except.ok.inj h).symm

/-! ## The six changes -/

theorem createEnrollmentGrant_explained (a : CreateGrantArgs) (db : Db) :
    ∃ events, Explains db (createEnrollmentGrant a db).2 events := by
  unfold createEnrollmentGrant
  dsimp only
  split
  · exact (AuditOnly.refl db).explained
  · obtain ⟨-, h⟩ | h := transaction_cases db _
    · exact h.explained
    · obtain ⟨db₁, hgrant, h⟩ := bind_ok h
      obtain ⟨db₂, haudit, h⟩ := bind_ok h
      obtain ⟨-, rfl⟩ := Db.insertGrant_ok hgrant
      obtain ⟨stored, rfl, hdecision, -, hsubject⟩ := Db.insertAudit_stored haudit
      rw [← Except.ok.inj h]
      refine ⟨[stored], rfl, fun object hc => ⟨stored, by simp, hdecision, ?_⟩,
        fun _ => ⟨⟨stored, by simp⟩, by simpa using hdecision⟩⟩
      cases hc with
      | grant g h =>
        rw [eq_of_changed_append h]
        exact varchar_subject (by decide) (by decide) _ hsubject
      | endpoint e h => exact absurd Iff.rfl h
      | identity i h => exact absurd Iff.rfl h
      | floor r h => exact absurd Iff.rfl h
      | observation o h => exact absurd Iff.rfl h

theorem enrollSyntheticEndpoint_explained (a : EnrollArgs) (db : Db) :
    ∃ events, Explains db (enrollSyntheticEndpoint a db).2 events := by
  unfold enrollSyntheticEndpoint
  split
  · exact (AuditOnly.refl db).explained
  · obtain ⟨-, h⟩ | h := onUniqueViolation_cases (enrollEvent a "endpoint:new" .rejected
      "fingerprint is already enrolled" []) (.validation "fingerprint is already enrolled") db
      (enrollBody a db)
    · exact h.explained
    · obtain ⟨db₁, he, h⟩ := bind_ok h
      obtain ⟨db₂, hi, h⟩ := bind_ok h
      obtain ⟨db₃, haudit, h⟩ := bind_ok h
      obtain ⟨-, rfl⟩ := Db.insertEndpoint_ok he
      obtain ⟨-, rfl⟩ := Db.insertIdentity_ok hi
      obtain ⟨stored, rfl, hdecision, hmeta, hsubject⟩ := Db.insertAudit_stored haudit
      rw [← Except.ok.inj h]
      refine ⟨[stored], rfl, fun object hc => ⟨stored, by simp, hdecision, ?_⟩,
        fun _ => ⟨⟨stored, by simp⟩, by simpa [enrollEvent] using hdecision⟩⟩
      cases hc with
      | endpoint e h =>
        rw [eq_of_changed_append h]
        exact varchar_subject (by decide) (by decide) _ hsubject
      | identity i h =>
        rw [eq_of_changed_append h]
        exact .inr (.inl (by rw [hmeta]; exact List.mem_singleton.mpr rfl))
      | grant g h => exact absurd Iff.rfl h
      | floor r h => exact absurd Iff.rfl h
      | observation o h => exact absurd Iff.rfl h

theorem exchangeGrant_explained {a : ConsumeArgs} {status : EndpointLifecycle} {g : EnrollmentGrant}
    {out : Except Error (Endpoint × EndpointIdentity) × Db}
    (h : exchangeGrant a status g db = .ok out) : ∃ events, Explains db out.2 events := by
  unfold exchangeGrant at h
  dsimp only at h
  split at h
  · cases h
  · obtain ⟨db₁, he, h⟩ := bind_ok h
    obtain ⟨db₂, hi, h⟩ := bind_ok h
    obtain ⟨db₃, hc, h⟩ := bind_ok h
    obtain ⟨db₄, haudit, h⟩ := bind_ok h
    obtain ⟨db₅, haudit', h⟩ := bind_ok h
    obtain ⟨-, rfl⟩ := Db.insertEndpoint_ok he
    obtain ⟨-, rfl⟩ := Db.insertIdentity_ok hi
    obtain ⟨-, rfl⟩ := Db.consumeGrant_ok hc
    obtain ⟨forGrant, rfl, hdecision, -, hsubject⟩ := Db.insertAudit_stored haudit
    obtain ⟨forEndpoint, rfl, hdecision', hmeta, hsubject'⟩ := Db.insertAudit_stored haudit'
    rw [← Except.ok.inj h]
    refine ⟨[forGrant, forEndpoint], by simp, fun object hc => ?_,
      fun _ => ⟨⟨forGrant, by simp⟩, by simp [hdecision, hdecision', consumeEvent]⟩⟩
    -- the grant has an event of its own; the endpoint and its identity share the other
    cases hc with
    | endpoint e h =>
      refine ⟨forEndpoint, by simp, hdecision', ?_⟩
      rw [eq_of_changed_append h]
      exact varchar_subject (by decide) (by decide) _ hsubject'
    | identity i h =>
      refine ⟨forEndpoint, by simp, hdecision', .inr (.inl ?_)⟩
      rw [eq_of_changed_append h, hmeta]
      exact List.mem_cons_of_mem _ (List.mem_singleton.mpr rfl)
    | grant x h =>
      refine ⟨forGrant, by simp, hdecision, ?_⟩
      have hx : x.grantId = g.grantId := by
        refine of_changed_map (P := fun x => x.grantId = g.grantId)
          (fun y hy => if_neg fun hc => hy hc.1) (fun y hy => ?_) h
        show (Db.consumed _ _ _ y).grantId = _
        unfold Db.consumed
        split <;> exact hy
      rw [hx]
      exact varchar_subject (by decide) (by decide) _ hsubject
    | floor r h => exact absurd Iff.rfl h
    | observation o h => exact absurd Iff.rfl h

theorem consumeGrantWith_explained (a : ConsumeArgs) (status : EndpointLifecycle) (retry : Bool)
    (db : Db) : ∃ events, Explains db (consumeGrantWith a status retry db).2 events := by
  unfold consumeGrantWith
  split
  · exact (AuditOnly.refl db).explained
  · split
    · exact (transaction_insertAudit_error db _ _).2.explained
    · exact ((transaction_insertAudit db _ _).elim (·.2) (·.2)).explained
    · rename_i g hd
      obtain ⟨-, h⟩ | h := onUniqueViolation_cases
        (consumeEvent a (some g) .rejected "public key fingerprint is already enrolled" [])
        (.authorization enrollmentRejection) db (exchangeGrant a status g db)
      · exact h.explained
      · exact exchangeGrant_explained h

/-- An update of one identity row under an accepted event on that identity. -/
theorem updateIdentity_explained {f : IdentityRow → IdentityRow}
    (hf : ∀ i, (f i).identityId = i.identityId) {stored : AuditEvent}
    (hdecision : stored.decision = .accepted) (hsubject : stored.subject = "identity:" ++ id.toText) :
    ∃ events, Explains db { db.updateIdentity id f with
      auditEvents := db.auditEvents ++ [stored] } events := by
  refine ⟨[stored], rfl, fun object hc => ⟨stored, by simp, hdecision, ?_⟩,
    fun _ => ⟨⟨stored, by simp⟩, by simpa using hdecision⟩⟩
  cases hc with
  | identity i h =>
    rw [identity_of_changed_update hf h]
    exact .inl hsubject
  | endpoint e h => exact absurd Iff.rfl h
  | grant g h => exact absurd Iff.rfl h
  | floor r h => exact absurd Iff.rfl h
  | observation o h => exact absurd Iff.rfl h

theorem recordIssuedEndpointIdentity_explained (a : IssueArgs) (db : Db) :
    ∃ events, Explains db (recordIssuedEndpointIdentity a db).2 events := by
  unfold recordIssuedEndpointIdentity
  split
  · exact (AuditOnly.refl db).explained
  · obtain ⟨-, h⟩ | h := onUniqueViolation_cases
      (issueEvent a .rejected "certificate issuer and serial are already registered" [])
      (.validation "certificate identity metadata conflicts") db (recordIssuedBody a db)
    · exact h.explained
    · generalize onUniqueViolation _ _ db _ = out at h
      unfold recordIssuedBody at h
      split at h
      · cases h
      · split at h
        · obtain ⟨db₁, haudit, h⟩ := bind_ok h
          rw [← Except.ok.inj h]
          exact (AuditOnly.insertAudit haudit).explained
        · split at h
          · cases h
          · obtain ⟨db₁, hissue, h⟩ := bind_ok h
            obtain ⟨db₂, haudit, h⟩ := bind_ok h
            obtain ⟨-, rfl⟩ := Db.issueIdentity_ok hissue
            obtain ⟨stored, rfl, hdecision, -, hsubject⟩ := Db.insertAudit_stored haudit
            rw [← Except.ok.inj h]
            exact updateIdentity_explained (f := a.certify) (fun _ => rfl) hdecision
              (varchar_subject (by decide) (by decide) _ hsubject)

theorem revokeIdentity_explained (a : RevokeArgs) (db : Db) :
    ∃ events, Explains db (revokeIdentity a db).2 events := by
  unfold revokeIdentity
  split
  · exact (AuditOnly.refl db).explained
  · obtain ⟨-, h⟩ | h := transaction_cases db (revokeBody a db)
    · exact h.explained
    · generalize transaction db (revokeBody a db) = out at h
      unfold revokeBody at h
      split at h
      · cases h
      · split at h
        · obtain ⟨db₁, haudit, h⟩ := bind_ok h
          rw [← Except.ok.inj h]
          exact (AuditOnly.insertAudit haudit).explained
        · dsimp only at h
          split at h
          · cases h
          · obtain ⟨db₁, hrow, h⟩ := bind_ok h
            obtain ⟨db₂, haudit, h⟩ := bind_ok h
            obtain rfl := Db.revokeRow_ok hrow
            obtain ⟨stored, rfl, hdecision, -, hsubject⟩ := Db.insertAudit_stored haudit
            rw [← Except.ok.inj h]
            exact updateIdentity_explained (f := Db.revoked a.now a.reason) (fun _ => rfl) hdecision
              (varchar_subject (by decide) (by decide) _ hsubject)

theorem activateOnHeartbeat_events {db db' : Db}
    (h : activateOnHeartbeat a i db = .ok db') :
    ∃ events, (∀ event ∈ events, event.decision = .accepted) ∧ db' = { db with
      endpointIdentities := a.activate i.identityId db.endpointIdentities
      auditEvents := db.auditEvents ++ events } := by
  unfold activateOnHeartbeat at h
  unfold IngestArgs.activate
  cases hk : a.observationType with
  | inventory =>
    rw [hk] at h
    cases h
    exact ⟨[], by simp, by simp⟩
  | heartbeat =>
    rw [hk] at h
    obtain ⟨db₁, hactivate, h⟩ := bind_ok h
    obtain ⟨-, rfl⟩ := Db.activateIdentity_ok hactivate
    split at h
    · cases h
      exact ⟨[_], by simp [ingestEvent], rfl⟩
    · cases h
      exact ⟨[], by simp, by simp [Db.updateIdentity]⟩

theorem identity_of_changed_activate {rows : List IdentityRow}
    (h : ¬ (i ∈ rows ↔ i ∈ a.activate id rows)) : i.identityId = id := by
  unfold IngestArgs.activate at h
  split at h
  · refine of_changed_map (P := fun i : IdentityRow => i.identityId = id) (fun x hx => if_neg hx) (fun x hx => ?_) h
    rw [if_pos hx]
    unfold Db.activated
    split <;> exact hx
  · exact absurd Iff.rfl h

/-- The event of an accepted message. -/
def IngestArgs.acceptEvent (a : IngestArgs) : AuditEvent :=
  ingestEvent a .accepted "message contract and authorization checks passed"
    [("message_id", a.envelope.messageId.toText), ("payload_digest", a.payloadDigest),
      ("sequence", decimal 1 a.envelope.sequence)]

theorem acceptObservation_events
    {out : Except Error Observation × Db} (h : acceptObservation a i db = .ok out) :
    ∃ events, out.2.auditEvents = db.auditEvents ++ events ∧ a.acceptEvent ∈ events ∧
      ∀ event ∈ events, event.decision = .accepted := by
  unfold acceptObservation at h
  dsimp only at h
  split at h
  · cases h
  · obtain ⟨db₁, hobs, h⟩ := bind_ok h
    obtain ⟨-, rfl⟩ := Db.insertObservation_ok hobs
    obtain ⟨db₂, hkind, h⟩ := bind_ok h
    obtain ⟨events, haccepted, rfl⟩ := activateOnHeartbeat_events hkind
    rw [← Except.ok.inj h]
    refine ⟨events ++ [a.acceptEvent], ?_, by simp, ?_⟩
    · simp only [Db.appendAudit, Db.touchEndpoint, List.append_assoc]
      rfl
    · intro event hevent
      rcases List.mem_append.mp hevent with h | h
      · exact haccepted event h
      · rw [List.mem_singleton.mp h]
        rfl

theorem ingestDecision_accept {seen : List ObservationRow}
    {sequenced : Db} (h : ingestDecision seen a db = .accept i sequenced) :
    db.upsertSequence a.authenticatedIdentityId a.envelope.bootId a.envelope.sequence =
      some sequenced := by
  unfold ingestDecision at h
  repeat' split at h
  all_goals cases h
  assumption

theorem ingestSeeing_events (seen : List ObservationRow) (a : IngestArgs) (db : Db) :
    AuditOnly db (ingestSeeing seen a db).2 ∨
      ∃ events, (ingestSeeing seen a db).2.auditEvents = db.auditEvents ++ events ∧
        a.acceptEvent ∈ events ∧ ∀ event ∈ events, event.decision = .accepted := by
  unfold ingestSeeing
  obtain ⟨-, h⟩ | h := onUniqueViolation_cases
    (ingestEvent a .rejected "message ID or boot sequence replayed" [])
    (.replay "message ID or boot sequence replayed") db (ingestBody seen a db)
  · exact .inl h
  · generalize onUniqueViolation _ _ db _ = out at h
    unfold ingestBody at h
    split at h
    · rw [← Except.ok.inj h]
      exact .inl (.append _)
    · rw [← Except.ok.inj h]
      exact .inl (.append _)
    · rename_i i sequenced hd
      obtain ⟨-, rows, rfl, -⟩ := Db.upsertSequence_some (ingestDecision_accept hd)
      obtain ⟨events, hevents, hrest⟩ := acceptObservation_events h
      exact .inr ⟨events, hevents, hrest⟩

/-- The writes of an accepted message are to objects its event names. -/
theorem Accepted.names {e : Endpoint} {db db' : Db}
    (h : Accepted a i e db db') {object : Object} (hc : Changed db db' object) :
    a.acceptEvent.Names db' object := by
  obtain ⟨hi, -⟩ := Db.identityJoin_some.mp h.joined
  have hid : i.identityId = a.authenticatedIdentityId := (Db.identityById_some hi).2
  have hendpoint : a.envelope.endpointId = i.endpointId :=
    (IngestArgs.identityChecks_none.mp h.identityOk).2.2.2
  obtain ⟨rows, events, hrows, rfl⟩ := h.after
  cases hc with
  | endpoint e h =>
    have he : e.endpointId = i.endpointId := by
      refine of_changed_map (P := fun e : Endpoint => e.endpointId = i.endpointId)
        (fun x hx => if_neg hx) (fun x hx => ?_) h
      rw [if_pos hx]
      exact hx
    rw [he, ← hendpoint]
    rfl
  | identity j h =>
    rw [identity_of_changed_activate h, hid]
    exact .inr (.inr ⟨rfl, rfl⟩)
  | grant g h => exact absurd Iff.rfl h
  | floor r h =>
    -- the row of the message's own key is the only one the upsert replaces
    have hr : r.identityId = a.authenticatedIdentityId ∧ r.bootId = a.envelope.bootId := by
      by_contra hne
      refine h ⟨fun hr => (hrows r).mpr (.inr ⟨hr, hne⟩), fun hr => ?_⟩
      rcases (hrows r).mp hr with rfl | ⟨hr, -⟩
      · exact absurd ⟨rfl, rfl⟩ hne
      · exact hr
    rw [hr.1, hr.2]
    exact ⟨⟨rfl, rfl⟩, a.observation i, by simp, rfl, rfl, List.mem_cons_self⟩
  | observation o h =>
    rw [eq_of_changed_append h]
    exact List.mem_cons_self

/-- Whatever the snapshot its message lookup reads, an ingestion explains what it writes. -/
theorem ingestSeeing_explained (seen : List ObservationRow) (a : IngestArgs) (db : Db) :
    ∃ events, Explains db (ingestSeeing seen a db).2 events := by
  obtain ⟨-, h⟩ | ⟨_, -, -, h⟩ | ⟨i, e, -, hacc⟩ := ingestSeeing_cases seen a db
  · exact h.explained
  · exact h.explained
  · obtain h | ⟨events, hevents, hmem, haccepted⟩ := ingestSeeing_events seen a db
    · exact h.explained
    · generalize (ingestSeeing seen a db).2 = db' at hacc hevents
      refine ⟨events, hevents, fun object hc => ⟨_, hmem, rfl, ?_⟩, fun _ => ⟨⟨_, hmem⟩, haccepted⟩⟩
      exact hacc.names hc

/-! ## Every call -/

theorem Call.explained (seen : List ObservationRow) (call : Call) (db : Db) :
    ∃ events, Explains db (call.perform seen db).2 events := by
  cases call <;> simp only [perform, answering_snd]
  case createEnrollmentGrant a => exact createEnrollmentGrant_explained a db
  case consumeEnrollmentGrant a => exact consumeGrantWith_explained a .active false db
  case beginEndpointEnrollment a => exact consumeGrantWith_explained a .pending true db
  case recordIssuedEndpointIdentity a => exact recordIssuedEndpointIdentity_explained a db
  case enrollSyntheticEndpoint a => exact enrollSyntheticEndpoint_explained a db
  case authenticateEndpointCertificate a =>
    exact (authenticateEndpointCertificate_cases a db).1.explained
  case revokeIdentity a => exact revokeIdentity_explained a db
  case ingestHeartbeat m => exact ingestSeeing_explained seen _ db
  case ingestInventory m platform architecture => exact ingestSeeing_explained seen _ db
  case recordOperatorAccess a => exact (recordOperatorAccess_auditOnly a db).explained

theorem ingestSeeing_raises {seen : List ObservationRow}
    (h : (ingestSeeing seen a db).1 = .error err) : SameTables db (ingestSeeing seen a db).2 := by
  obtain hr | ⟨_, -, -, ha⟩ | ⟨_, _, hok, -⟩ := ingestSeeing_cases seen a db
  · exact hr.2.sameTables
  · exact ha.sameTables
  · rw [hok] at h
    cases h

theorem consumeGrantWith_raises {a : ConsumeArgs} {status : EndpointLifecycle} {retry : Bool}
    (h : (consumeGrantWith a status retry db).1 = .error err) :
    SameTables db (consumeGrantWith a status retry db).2 := by
  obtain hr | ⟨_, _, _, -, -, ha⟩ | ⟨_, hok, -⟩ := consumeGrantWith_cases a status retry db
  · exact hr.2.sameTables
  · exact ha.sameTables
  · rw [hok] at h
    cases h

theorem Call.perform_raises (seen : List ObservationRow) (call : Call) (db : Db)
    (h : (call.perform seen db).1 = .error err) : SameTables db (call.perform seen db).2 := by
  cases call <;> simp only [perform, answering_snd, answering_error] at h ⊢
  case createEnrollmentGrant a =>
    obtain hr | ⟨_, _, hok, -⟩ := createEnrollmentGrant_cases a db
    · exact hr.2.sameTables
    · rw [hok] at h
      cases h
  case consumeEnrollmentGrant a => exact consumeGrantWith_raises h
  case beginEndpointEnrollment a => exact consumeGrantWith_raises h
  case recordIssuedEndpointIdentity a =>
    obtain hr | ⟨_, _, -, -, -, -, ha⟩ | ⟨_, _, hok, -⟩ := recordIssuedEndpointIdentity_cases a db
    · exact hr.2.sameTables
    · exact ha.sameTables
    · rw [hok] at h
      cases h
  case enrollSyntheticEndpoint a =>
    obtain hr | ⟨hok, -⟩ := enrollSyntheticEndpoint_cases a db
    · exact hr.2.sameTables
    · rw [hok] at h
      cases h
  case authenticateEndpointCertificate a =>
    exact (authenticateEndpointCertificate_cases a db).1.sameTables
  case revokeIdentity a =>
    obtain hr | ⟨_, -, -, -, ha⟩ | ⟨_, _, hok, -⟩ := revokeIdentity_cases a db
    · exact hr.2.sameTables
    · exact ha.sameTables
    · rw [hok] at h
      cases h
  case ingestHeartbeat m => exact ingestSeeing_raises h
  case ingestInventory m platform architecture => exact ingestSeeing_raises h
  case recordOperatorAccess a => exact (recordOperatorAccess_auditOnly a db).sameTables

/-- **Failures change nothing and every change is explained**: for every operation, its
arguments, the database it finds and the snapshot its message lookup reads. -/
theorem Call.explained_changes (seen : List ObservationRow) (call : Call) (db : Db) :
    (∀ err, (call.perform seen db).1 = .error err → SameTables db (call.perform seen db).2) ∧
    ∃ events, (call.perform seen db).2.auditEvents = db.auditEvents ++ events ∧
      (¬ SameTables db (call.perform seen db).2 → ∃ event ∈ events, event.decision = .accepted) ∧
      (∀ object, Changed db (call.perform seen db).2 object →
        ∃ event ∈ events, event.decision = .accepted ∧ event.Names (call.perform seen db).2 object) ∧
      ((∃ event ∈ events, event.decision = .rejected ∨ event.decision = .noChange) →
        SameTables db (call.perform seen db).2) := by
  refine ⟨fun err => call.perform_raises seen db, ?_⟩
  obtain ⟨events, happended, hnamed, haccepted⟩ := call.explained seen db
  refine ⟨events, happended, fun hd => ?_, hnamed, fun ⟨event, hmem, hdecision⟩ => ?_⟩
  · obtain ⟨⟨event, hmem⟩, hall⟩ := haccepted hd
    exact ⟨event, hmem, hall event hmem⟩
  · by_contra hd
    have := (haccepted hd).2 event hmem
    rw [this] at hdecision
    exact hdecision.elim nofun nofun

end NorthgateRmm.Server
