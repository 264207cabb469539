import NorthgateRmm.Server.Memory

/-!
# The two control planes are the same machine

A step by step comparison of the in-memory `ControlPlane` with
`PostgresControlPlane`. They check replay, expiry, binding and sequence in different
orders, but accept the same messages and leave corresponding state, as long as the
wall clock comparisons of the one are the UTC comparisons of the other: no `tzinfo`
object shows two UTC offsets among the times of the run.
-/

namespace NorthgateRmm.Server

/-! ## Times of one offset per zone -/

namespace Datetime

/-- The time has the offset `off` gives its zone. -/
def At (off : Nat → Int) (t : Datetime) : Prop := t.utcoffset = off t.tzinfo

variable {off : Nat → Int} {a b t : Datetime}

theorem At.sub_eq (ha : a.At off) (hb : b.At off) : a.sub b = a.instant - b.instant := by
  by_cases h : a.tzinfo = b.tzinfo
  · exact sub_eq_instant (by rw [show a.utcoffset = _ from ha, show b.utcoffset = _ from hb, h])
  · exact if_neg h

theorem At.lt_eq (ha : a.At off) (hb : b.At off) : a.lt b = decide (a.instant < b.instant) := by
  unfold lt
  rw [ha.sub_eq hb]
  exact decide_eq_decide.mpr ⟨Int.lt_of_sub_neg, Int.sub_neg_of_lt⟩

theorem instant_max (ha : a.At off) (hb : b.At off) :
    (a.max b).instant = Max.max b.instant a.instant ∧ (a.max b).At off := by
  unfold Datetime.max
  rw [ha.lt_eq hb]
  split
  · rename_i h
    exact ⟨(Int.max_eq_left (Int.le_of_lt (of_decide_eq_true h))).symm, hb⟩
  · rename_i h
    simp only [decide_eq_true_eq, Int.not_lt] at h
    exact ⟨(Int.max_eq_right h).symm, ha⟩

/-- A sum that keeps the offset moves the instant by as much as the wall clock. -/
theorem At.instant_add {zones : Zones} {delta : Int} (ht : t.At off) (hs : (t.add zones delta).At off) :
    (t.add zones delta).instant = t.instant + delta := by
  have h : (t.add zones delta).utcoffset = t.utcoffset := by
    rw [show t.utcoffset = _ from ht, show (t.add zones delta).utcoffset = _ from hs]
    rfl
  simp only [instant, h]
  show t.wall + delta - _ = _
  omega

end Datetime

namespace Memory

/-! ## What corresponds to what -/

def Identity.stored (i : Identity) : IdentityRow :=
  { identityId := i.identityId
    endpointId := i.endpointId
    publicKeyFingerprint := i.publicKeyFingerprint
    createdAt := i.createdAt.instant
    status := i.status
    revokedAt := i.revokedAt.map Datetime.instant
    revocationReason := i.revocationReason }

def Endpoint.stored (e : Endpoint) : Server.Endpoint :=
  { endpointId := e.endpointId
    displayName := e.displayName
    platform := e.platform
    architecture := e.architecture
    identityId := e.identityId
    enrolledAt := e.enrolledAt.instant
    lastReceiptAt := e.lastReceiptAt.map Datetime.instant
    lastHeartbeatAt := e.lastHeartbeatAt.map Datetime.instant }

def Observation.stored (o : Observation) : Server.Observation :=
  { observationId := o.observationId
    endpointId := o.endpointId
    messageId := o.messageId
    observationType := o.observationType
    schemaVersion := o.schemaVersion
    sourceTime := o.sourceTime.instant
    receivedAt := o.receivedAt.instant
    bootId := o.bootId
    sequence := o.sequence
    payloadDigest := o.payloadDigest }

/-- The endpoints, identities, accepted observations and sequence floors are the same, in
the order in which they came. -/
structure Corresponds (c : ControlPlane) (db : Db) : Prop where
  endpoints : db.endpoints = c.endpoints.map Endpoint.stored
  identities : db.endpointIdentities = c.identities.map Identity.stored
  observations : db.observations.map (·.toObservation) = c.observations.map Observation.stored
  floors : db.messageSequences = c.lastSequences

/-- Corresponding states of a run whose generated IDs so far are `used`. -/
structure Paired (off : Nat → Int) (used : List Uuid) (c : ControlPlane) (db : Db) : Prop
    extends Corresponds c db where
  fingerprints : c.fingerprints.map (·.1) = c.identities.map (·.publicKeyFingerprint)
  seen : ∀ id, id ∈ c.seenMessageIds ↔ ∃ o ∈ db.observations, o.messageId = id
  identityKeys : (c.identities.map (·.identityId)).Nodup
  endpointKeys : (c.endpoints.map (·.endpointId)).Nodup
  current : ∀ i ∈ c.identities, ∃ e ∈ c.endpoints, e.endpointId = i.endpointId ∧
    e.identityId = i.identityId
  owner : ∀ e ∈ c.endpoints, ∃ i ∈ c.identities, i.identityId = e.identityId
  status : ∀ i ∈ c.identities, i.status = .active ∨ (i.status = .revoked ∧ i.revokedAt.isSome)
  bounded : ∀ o ∈ db.observations, ∃ last, db.lastSequence o.identityId o.bootId = some last ∧
    o.sequence ≤ last
  identityTimes : ∀ i ∈ c.identities, i.createdAt.At off
  endpointTimes : ∀ e ∈ c.endpoints, (∀ t, e.lastReceiptAt = some t → t.At off) ∧
    ∀ t, e.lastHeartbeatAt = some t → t.At off
  usedEndpoints : ∀ e ∈ c.endpoints, e.endpointId ∈ used
  usedIdentities : ∀ i ∈ c.identities, i.identityId ∈ used
  usedObservations : ∀ o ∈ db.observations, o.observationId ∈ used

theorem Paired.empty (off : Nat → Int) : Paired off [] {} {} := by
  refine ⟨⟨rfl, rfl, rfl, rfl⟩, ?_, ?_, ?_, ?_, ?_, ?_, ?_, ?_, ?_, ?_, ?_, ?_, ?_⟩ <;> simp

/-! ## Dictionaries -/

section Put

variable {α κ : Type} [DecidableEq κ] {key : α → κ} {rows : List α} {x : α}

theorem put_of_fresh {p : α → Bool} (h : ∀ y ∈ rows, p y = false) : put p x rows = rows ++ [x] := by
  rw [put, if_neg]
  simp only [List.any_eq_true, not_exists, not_and]
  intro y hy
  simp [h y hy]

/-- Where keys are unique, replacing the value of a held key updates that value in place. -/
theorem put_of_held (hkeys : (rows.map key).Nodup) {y : α} (hy : y ∈ rows) (f : α → α) :
    put (fun z => key z == key y) (f y) rows = rows.map fun z => if key z = key y then f z else z := by
  rw [put, if_pos (List.any_eq_true.mpr ⟨y, hy, by simp⟩)]
  refine List.map_congr_left fun z hz => ?_
  by_cases hk : key z = key y
  · rw [if_pos (beq_iff_eq.mpr hk), if_pos hk, List.inj_on_of_nodup_map hkeys hz hy hk]
  · rw [if_neg (by simpa using hk), if_neg hk]

end Put

/-! ## Lookups in corresponding states -/

section Lookups

variable {off : Nat → Int} {used : List Uuid} {c : ControlPlane} {db : Db}

theorem Corresponds.identityById (h : Corresponds c db) (id : Uuid) :
    db.identityById id = (c.getIdentity id).map Identity.stored := by
  unfold Db.identityById ControlPlane.getIdentity
  rw [h.identities, List.find?_map]
  rfl

theorem Corresponds.endpointById (h : Corresponds c db) (id : Uuid) :
    db.endpointById id = (c.getEndpoint id).map Endpoint.stored := by
  unfold Db.endpointById ControlPlane.getEndpoint
  rw [h.endpoints, List.find?_map]
  rfl

theorem getIdentity_some {id : Uuid} {i : Identity} (h : c.getIdentity id = some i) :
    i ∈ c.identities ∧ i.identityId = id :=
  ⟨List.mem_of_find?_eq_some h, by simpa using List.find?_some h⟩

theorem getEndpoint_some {id : Uuid} {e : Endpoint} (h : c.getEndpoint id = some e) :
    e ∈ c.endpoints ∧ e.endpointId = id :=
  ⟨List.mem_of_find?_eq_some h, by simpa using List.find?_some h⟩

/-- Every identity has its endpoint, of which it is the current one. -/
theorem Paired.endpoint (h : Paired off used c db) {i : Identity} (hi : i ∈ c.identities) :
    ∃ e, c.getEndpoint i.endpointId = some e ∧ e.identityId = i.identityId := by
  obtain ⟨e, he, hkey, hid⟩ := h.current i hi
  cases hfound : c.getEndpoint i.endpointId with
  | none =>
    have := List.find?_eq_none.mp hfound e he
    simp [hkey] at this
  | some e' =>
    obtain ⟨he', hkey'⟩ := getEndpoint_some hfound
    rw [List.inj_on_of_nodup_map h.endpointKeys he' he (hkey'.trans hkey.symm)]
    exact ⟨e, rfl, hid⟩

theorem Corresponds.lastSequence (h : Corresponds c db) (identityId bootId : Uuid) :
    c.lastSequence identityId bootId = (db.lastSequence identityId bootId).getD 0 := by
  unfold ControlPlane.lastSequence Db.lastSequence
  rw [h.floors]

/-- The audit log is no part of the correspondence. -/
theorem Paired.audit (h : Paired off used c db) {db' : Db} (ha : AuditOnly db db')
    (events : List AuditEvent) : Paired off used { c with auditEvents := events } db' := by
  obtain ⟨events', rfl⟩ := ha
  exact { h with }

theorem Paired.mono (h : Paired off used c db) (ids : List Uuid) : Paired off (used ++ ids) c db :=
  { h with
    usedEndpoints := fun e he => List.mem_append_left _ (h.usedEndpoints e he)
    usedIdentities := fun i hi => List.mem_append_left _ (h.usedIdentities i hi)
    usedObservations := fun o ho => List.mem_append_left _ (h.usedObservations o ho) }

end Lookups

/-! ## Enrollment -/

def EnrollArgs.postgres (a : EnrollArgs) : Server.EnrollArgs :=
  { displayName := a.displayName
    platform := a.platform
    architecture := a.architecture
    publicKeyFingerprint := a.publicKeyFingerprint
    now := a.now.instant
    actorId := a.actorId
    endpointId := a.endpointId
    identityId := a.identityId
    correlationId := a.correlationId }

/-- The check compares instants where the times have one offset per zone. -/
theorem Identity.postInit_stored {off : Nat → Int} {i : Identity} (hc : i.createdAt.At off)
    (hr : ∀ t, i.revokedAt = some t → t.At off) : i.stored.postInit = i.postInit := by
  have hlt : i.stored.revokedAt.any (· < i.stored.createdAt) = i.revokedAt.any (·.lt i.createdAt) := by
    cases ht : i.revokedAt with
    | none => simp [stored, ht]
    | some t =>
      simp only [stored, ht, Option.map_some, Option.any_some]
      exact ((hr t ht).lt_eq hc).symm
  unfold Identity.postInit EndpointIdentity.postInit
  rw [hlt]
  cases ht : i.revokedAt <;> simp [stored, ht]

theorem Endpoint.postInit_stored (e : Endpoint) : e.stored.postInit = e.postInit := rfl

theorem EnrollArgs.identity_stored (a : EnrollArgs) : a.postgres.identity = a.identity.stored := rfl

theorem EnrollArgs.endpoint_stored (a : EnrollArgs) : a.postgres.endpoint = a.endpoint.stored := rfl

theorem EnrollArgs.postInit_postgres {off : Nat → Int} {a : EnrollArgs} (hnow : a.now.At off) :
    (a.postgres.identity.postInit <|> a.postgres.endpoint.postInit) =
      (a.identity.postInit <|> a.endpoint.postInit) := by
  rw [identity_stored, endpoint_stored, Endpoint.postInit_stored,
    Identity.postInit_stored (i := a.identity) hnow (by simp [identity])]

/-- Text that PostgreSQL can store and that fits a `varchar(n)`. -/
def fits (n : Nat) (text : String) : Bool := storable text && text.length ≤ n

def EnrollArgs.Fits (a : EnrollArgs) : Prop :=
  fits 128 a.displayName = true ∧ fits 32 a.architecture = true ∧ fits 256 a.actorId = true

theorem storable_of_fits {n : Nat} {text : String} (h : fits n text = true) :
    storable text = true ∧ text.length ≤ n := by
  simpa [fits] using h

theorem subject_fits {kind : String} (hs : storable kind = true) (hl : kind.length ≤ 32) (id : Uuid) :
    storable (kind ++ id.toText) = true ∧ (kind ++ id.toText).length ≤ 256 :=
  ⟨storable_append hs (storable_toText id), by rw [String.length_append, Uuid.length_toText]; omega⟩

section Steps

variable {off : Nat → Int} {used : List Uuid} {c : ControlPlane} {db : Db}

/-- The keys a new endpoint brings are in neither plane. -/
structure New (a : EnrollArgs) (c : ControlPlane) : Prop where
  identity : ∀ i ∈ c.identities, i.identityId ≠ a.identityId
  endpoint : ∀ e ∈ c.endpoints, e.endpointId ≠ a.endpointId ∧ e.identityId ≠ a.identityId
  fingerprint : ∀ i ∈ c.identities, i.publicKeyFingerprint ≠ a.publicKeyFingerprint

variable {zones : Datetime.Zones} {a : EnrollArgs} {i : Identity} {e : Endpoint} {db : Db}

theorem Paired.new (h : Paired off used c db)
    (hnew : a.endpointId ∉ used ∧ a.identityId ∉ used)
    (hfp : c.fingerprints.any (·.1 == a.publicKeyFingerprint) = false) : New a c := by
  have hids : ∀ i ∈ c.identities, i.identityId ≠ a.identityId :=
    fun i hi he => hnew.2 (he ▸ h.usedIdentities i hi)
  refine ⟨hids, fun e he => ?_, fun i hi he => ?_⟩
  · obtain ⟨i, hi, hkey⟩ := h.owner e he
    exact ⟨fun hx => hnew.1 (hx ▸ h.usedEndpoints e he), hkey ▸ hids i hi⟩
  · have hmem : a.publicKeyFingerprint ∈ c.fingerprints.map (·.1) := by
      rw [h.fingerprints]
      exact List.mem_map.mpr ⟨i, hi, he⟩
    obtain ⟨p, hp, hpe⟩ := List.mem_map.mp hmem
    exact List.any_eq_false.mp hfp p hp (beq_iff_eq.mpr hpe)

/-- The in-memory state after an enrollment. -/
def EnrollArgs.enrolled (a : EnrollArgs) (c : ControlPlane) (events : List AuditEvent) : ControlPlane :=
  { c with
    identities := c.identities ++ [a.identity]
    endpoints := c.endpoints ++ [a.endpoint]
    fingerprints := c.fingerprints ++ [(a.publicKeyFingerprint, a.identityId)]
    auditEvents := events }

theorem enrollSyntheticEndpoint_memory (hn : New a c)
    (hvalid : (a.identity.postInit <|> a.endpoint.postInit) = none)
    (hfp : c.fingerprints.any (·.1 == a.publicKeyFingerprint) = false) :
    ∃ events, enrollSyntheticEndpoint a c = (.ok (a.endpoint, a.identity), a.enrolled c events) := by
  unfold enrollSyntheticEndpoint
  rw [hfp, if_neg (by simp), hvalid]
  dsimp only
  rw [put_of_fresh fun e he => by simpa using (hn.endpoint e he).1,
    put_of_fresh fun i hi => by simpa using hn.identity i hi,
    put_of_fresh fun p hp => by simpa using List.any_eq_false.mp hfp p hp]
  exact ⟨_, rfl⟩

/-- The event of an enrollment, as `enrollBody` makes it. -/
def EnrollArgs.event (a : EnrollArgs) : AuditEvent :=
  enrollEvent a.postgres ("endpoint:" ++ a.postgres.endpointId.toText) .accepted
    "synthetic Phase 1 enrollment" [("identity_id", a.postgres.identityId.toText)]

theorem insertAudit_enroll (hfits : a.Fits) (x : Db) :
    x.insertAudit a.event = .ok (x.appendAudit a.event) := by
  refine Db.insertAudit_of_fits (storable_of_fits hfits.2.2) (subject_fits ?_ ?_ _) ?_ ?_ ?_
  · decide
  · decide
  · exact ⟨by show storable "endpoint.enroll" = true; decide, by show "endpoint.enroll".length ≤ 128; decide⟩
  · exact ⟨by show storable "synthetic Phase 1 enrollment" = true; decide,
      by show "synthetic Phase 1 enrollment".length ≤ 512; decide⟩
  · intro p hp
    rw [List.mem_singleton.mp hp]
    exact ⟨by show storable "identity_id" = true; decide, storable_toText _⟩

theorem enrollSyntheticEndpoint_postgres (h : Corresponds c db) (hn : New a c)
    (hfits : a.Fits) (hnow : a.now.At off)
    (hvalid : (a.identity.postInit <|> a.endpoint.postInit) = none) :
    ∃ events, Server.enrollSyntheticEndpoint a.postgres db =
      (.ok (a.postgres.endpoint, a.postgres.identity.toEndpointIdentity), { db with
        endpoints := db.endpoints ++ [a.postgres.endpoint]
        endpointIdentities := db.endpointIdentities ++ [a.postgres.identity]
        auditEvents := events }) := by
  have hendpoint : db.insertEndpoint a.postgres.endpoint =
      .ok { db with endpoints := db.endpoints ++ [a.postgres.endpoint] } := by
    unfold Db.insertEndpoint
    rw [if_neg, if_neg]
    · rw [h.endpoints]
      simp only [List.any_map, List.any_eq_true, not_exists, not_and]
      intro e he hq
      simp only [Function.comp, Endpoint.stored, Bool.or_eq_true, beq_iff_eq] at hq
      exact hq.elim (hn.endpoint e he).1 (hn.endpoint e he).2
    · simp only [Bool.not_eq_true', Bool.not_eq_false]
      exact Bool.and_eq_true_iff.mpr ⟨(storable_of_fits hfits.1).1, (storable_of_fits hfits.2.1).1⟩
  have hidentity : ∀ x : Db, x.endpointIdentities = db.endpointIdentities →
      x.insertIdentity a.postgres.identity =
        .ok { x with endpointIdentities := db.endpointIdentities ++ [a.postgres.identity] } := by
    intro x hx
    unfold Db.insertIdentity
    rw [if_neg, hx]
    rw [hx, h.identities]
    simp only [List.any_map, List.any_eq_true, not_exists, not_and]
    intro i hi hq
    simp only [Function.comp, Identity.stored, Bool.or_eq_true, beq_iff_eq] at hq
    exact hq.elim (hn.identity i hi) (hn.fingerprint i hi)
  unfold Server.enrollSyntheticEndpoint
  rw [EnrollArgs.postInit_postgres hnow, hvalid]
  dsimp only
  unfold enrollBody
  rw [hendpoint]
  simp only [bind, Except.bind]
  rw [hidentity { db with endpoints := db.endpoints ++ [a.postgres.endpoint] } rfl]
  dsimp only
  rw [← EnrollArgs.event, insertAudit_enroll hfits]
  exact ⟨_, rfl⟩

theorem Paired.enrolled (h : Paired off used c db) (hn : New a c) (hnow : a.now.At off)
    (events events' : List AuditEvent) :
    Paired off (used ++ [a.endpointId, a.identityId]) (a.enrolled c events) { db with
      endpoints := db.endpoints ++ [a.postgres.endpoint]
      endpointIdentities := db.endpointIdentities ++ [a.postgres.identity]
      auditEvents := events' } where
  endpoints := by simp [EnrollArgs.enrolled, h.endpoints]; rfl
  identities := by simp [EnrollArgs.enrolled, h.identities]; rfl
  observations := h.observations
  floors := h.floors
  fingerprints := by simp [EnrollArgs.enrolled, h.fingerprints, EnrollArgs.identity]
  seen := h.seen
  identityKeys := by
    simp only [EnrollArgs.enrolled, List.map_append, List.map_cons, List.map_nil]
    refine List.Nodup.append h.identityKeys (by simp) ?_
    simpa [List.disjoint_singleton, EnrollArgs.identity] using hn.identity
  endpointKeys := by
    simp only [EnrollArgs.enrolled, List.map_append, List.map_cons, List.map_nil]
    refine List.Nodup.append h.endpointKeys (by simp) ?_
    simpa [List.disjoint_singleton, EnrollArgs.endpoint] using fun e he => (hn.endpoint e he).1
  current i hi := by
    rcases List.mem_append.mp hi with hi | hi
    · obtain ⟨e, he, hkeys⟩ := h.current i hi
      exact ⟨e, List.mem_append_left _ he, hkeys⟩
    · rw [List.mem_singleton.mp hi]
      exact ⟨a.endpoint, List.mem_append_right _ (by simp), rfl, rfl⟩
  owner e he := by
    rcases List.mem_append.mp he with he | he
    · obtain ⟨i, hi, hkey⟩ := h.owner e he
      exact ⟨i, List.mem_append_left _ hi, hkey⟩
    · rw [List.mem_singleton.mp he]
      exact ⟨a.identity, List.mem_append_right _ (by simp), rfl⟩
  status i hi := by
    rcases List.mem_append.mp hi with hi | hi
    · exact h.status i hi
    · rw [List.mem_singleton.mp hi]
      exact .inl rfl
  bounded := h.bounded
  identityTimes i hi := by
    rcases List.mem_append.mp hi with hi | hi
    · exact h.identityTimes i hi
    · rw [List.mem_singleton.mp hi]
      exact hnow
  endpointTimes e he := by
    rcases List.mem_append.mp he with he | he
    · exact h.endpointTimes e he
    · rw [List.mem_singleton.mp he]
      simp [EnrollArgs.endpoint]
  usedEndpoints e he := by
    rcases List.mem_append.mp he with he | he
    · exact List.mem_append_left _ (h.usedEndpoints e he)
    · rw [List.mem_singleton.mp he]
      exact List.mem_append_right _ (by simp [EnrollArgs.endpoint])
  usedIdentities i hi := by
    rcases List.mem_append.mp hi with hi | hi
    · exact List.mem_append_left _ (h.usedIdentities i hi)
    · rw [List.mem_singleton.mp hi]
      exact List.mem_append_right _ (by simp [EnrollArgs.identity])
  usedObservations o ho := List.mem_append_left _ (h.usedObservations o ho)

/-- Both outcomes succeed, or both fail, and the states still correspond. -/
def Agree {α β : Type} (off : Nat → Int) (used : List Uuid) (out : Except Error α × ControlPlane)
    (out' : Except Error β × Db) : Prop :=
  out.1.isOk = out'.1.isOk ∧ Paired off used out.2 out'.2

theorem Paired.both_fail {α β : Type} (h : Paired off used c db) {e : Error} {events : List AuditEvent}
    {out' : Except Error β × Db} (hr : Raised db out') (ids : List Uuid) :
    Agree off (used ++ ids) ((.error e : Except Error α), { c with auditEvents := events }) out' := by
  obtain ⟨⟨e', he'⟩, ha⟩ := hr
  refine ⟨?_, (h.audit ha events).mono ids⟩
  rw [he']
  rfl

theorem Paired.enroll (h : Paired off used c db) (hfits : a.Fits) (hnow : a.now.At off)
    (hnew : a.endpointId ∉ used ∧ a.identityId ∉ used) :
    Agree off (used ++ [a.endpointId, a.identityId]) (enrollSyntheticEndpoint a c)
      (Server.enrollSyntheticEndpoint a.postgres db) := by
  cases hfp : c.fingerprints.any (·.1 == a.publicKeyFingerprint) with
  | true =>
    -- the database finds the fingerprint in its unique key, if the values are well formed at all
    have hmem : a.publicKeyFingerprint ∈ c.identities.map (·.publicKeyFingerprint) := by
      rw [← h.fingerprints]
      obtain ⟨p, hp, hpe⟩ := List.any_eq_true.mp hfp
      exact List.mem_map.mpr ⟨p, hp, beq_iff_eq.mp hpe⟩
    have hraised : Raised db (Server.enrollSyntheticEndpoint a.postgres db) := by
      refine (enrollSyntheticEndpoint_cases a.postgres db).resolve_right fun ⟨_, hen⟩ => ?_
      obtain ⟨i, hi, hie⟩ := List.mem_map.mp hmem
      refine (hen.enrollable.identity i.stored ?_).2 hie
      rw [h.identities]
      exact List.mem_map.mpr ⟨i, hi, rfl⟩
    rw [enrollSyntheticEndpoint, hfp, if_pos rfl]
    exact h.both_fail hraised _
  | false =>
    cases hvalid : a.identity.postInit <|> a.endpoint.postInit with
    | some e =>
      rw [enrollSyntheticEndpoint, hfp, if_neg (by simp), hvalid, Server.enrollSyntheticEndpoint,
        EnrollArgs.postInit_postgres hnow, hvalid]
      exact h.both_fail (raised_self db e) _
    | none =>
      have hn := h.new hnew hfp
      obtain ⟨events, hmemory⟩ := enrollSyntheticEndpoint_memory hn hvalid hfp
      obtain ⟨events', hpostgres⟩ :=
        enrollSyntheticEndpoint_postgres h.toCorresponds hn hfits hnow hvalid
      rw [hmemory, hpostgres]
      exact ⟨rfl, h.enrolled hn hnow events events'⟩

/-! ## Revocation -/

def RevokeArgs.postgres (a : RevokeArgs) : Server.RevokeArgs :=
  { identityId := a.identityId
    reason := a.reason
    actorId := a.actorId
    now := a.now.instant
    correlationId := a.correlationId }

@[simp] theorem RevokeArgs.postgres_identityId (a : RevokeArgs) : a.postgres.identityId = a.identityId := rfl
@[simp] theorem RevokeArgs.postgres_reason (a : RevokeArgs) : a.postgres.reason = a.reason := rfl
@[simp] theorem RevokeArgs.postgres_now (a : RevokeArgs) : a.postgres.now = a.now.instant := rfl

def RevokeArgs.Fits (a : RevokeArgs) : Prop := storable a.reason = true ∧ fits 256 a.actorId = true

def RevokeArgs.revoked (a : RevokeArgs) (i : Identity) : Identity :=
  { i with status := .revoked, revokedAt := some a.now, revocationReason := some a.reason }

theorem insertAudit_revoke {a : RevokeArgs} (hfits : a.Fits) (x : Db) (decision : Decision) {reason : String}
    (hreason : storable reason = true ∧ reason.length ≤ 512) :
    x.insertAudit (Server.revokeEvent a.postgres decision reason) =
      .ok (x.appendAudit (Server.revokeEvent a.postgres decision reason)) :=
  Db.insertAudit_of_fits (storable_of_fits hfits.2) (subject_fits (by decide) (by decide) _)
    ⟨by show storable "identity.revoke" = true; decide, by show "identity.revoke".length ≤ 128; decide⟩
    hreason nofun

theorem Paired.revoked (h : Paired off used c db) {a : RevokeArgs}
    (hi : c.getIdentity a.identityId = some i) (events events' : List AuditEvent) :
    Paired off used
      { c with
        identities := put (·.identityId == a.identityId) (a.revoked i) c.identities
        auditEvents := events }
      { db.updateIdentity a.identityId (Db.revoked a.now.instant a.reason) with
        auditEvents := events' } := by
  obtain ⟨hmem, hid⟩ := getIdentity_some hi
  have hput := put_of_held (f := a.revoked) h.identityKeys hmem
  rw [hid] at hput
  rw [hput]
  have hkept : ∀ j : Identity, (if j.identityId = a.identityId then a.revoked j else j).identityId = j.identityId ∧
      (if j.identityId = a.identityId then a.revoked j else j).endpointId = j.endpointId ∧
      (if j.identityId = a.identityId then a.revoked j else j).publicKeyFingerprint = j.publicKeyFingerprint ∧
      (if j.identityId = a.identityId then a.revoked j else j).createdAt = j.createdAt := by
    intro j
    split <;> exact ⟨rfl, rfl, rfl, rfl⟩
  exact { h with
    identities := by
      simp only [Db.updateIdentity, h.identities, List.map_map]
      refine List.map_congr_left fun j _ => ?_
      simp only [Function.comp]
      by_cases hj : j.identityId = a.identityId
      · rw [if_pos hj, if_pos (show j.stored.identityId = _ from hj)]
        rfl
      · rw [if_neg hj, if_neg (show ¬ j.stored.identityId = _ from hj)]
    fingerprints := by
      rw [h.fingerprints, List.map_map]
      exact List.map_congr_left fun j _ => (hkept j).2.2.1.symm
    identityKeys := by
      rw [List.map_map]
      exact (List.map_congr_left fun j _ => (hkept j).1) ▸ h.identityKeys
    current := by
      intro j hj
      obtain ⟨k, hk, rfl⟩ := List.mem_map.mp hj
      rw [(hkept k).1, (hkept k).2.1]
      exact h.current k hk
    owner := by
      intro e he
      obtain ⟨j, hj, hkey⟩ := h.owner e he
      exact ⟨_, List.mem_map.mpr ⟨j, hj, rfl⟩, (hkept j).1.trans hkey⟩
    status := by
      intro j hj
      obtain ⟨k, hk, rfl⟩ := List.mem_map.mp hj
      split
      · exact .inr ⟨rfl, rfl⟩
      · exact h.status k hk
    identityTimes := by
      intro j hj
      obtain ⟨k, hk, rfl⟩ := List.mem_map.mp hj
      rw [(hkept k).2.2.2]
      exact h.identityTimes k hk
    usedIdentities := by
      intro j hj
      obtain ⟨k, hk, rfl⟩ := List.mem_map.mp hj
      rw [(hkept k).1]
      exact h.usedIdentities k hk }

theorem Paired.revoke (h : Paired off used c db) {a : RevokeArgs} (hfits : a.Fits) (hnow : a.now.At off) :
    Agree off used (revokeIdentity a c) (Server.revokeIdentity a.postgres db) := by
  rw [show Server.revokeIdentity a.postgres db = if (a.reason.isEmpty || 256 < a.reason.length) = true then
    (.error (.validation "revocation reason is empty or too long"), db)
    else transaction db (revokeBody a.postgres db) from rfl]
  unfold revokeIdentity revokeBody
  simp only [RevokeArgs.postgres_identityId, RevokeArgs.postgres_reason, RevokeArgs.postgres_now,
    h.identityById]
  by_cases hreason : (a.reason.isEmpty || 256 < a.reason.length) = true
  · rw [if_pos hreason, if_pos hreason]
    exact ⟨rfl, h⟩
  rw [if_neg hreason, if_neg hreason]
  cases hi : c.getIdentity a.identityId with
  | none => exact ⟨rfl, h⟩
  | some i =>
    simp only [Option.map_some]
    rw [show i.stored.revokedAt.isSome = i.revokedAt.isSome from Option.isSome_map ..]
    by_cases hr : i.revokedAt.isSome = true
    · rw [if_pos hr, if_pos hr, insertAudit_revoke hfits db _ (by decide)]
      exact ⟨rfl, h.audit (.append _) _⟩
    · rw [if_neg hr, if_neg hr]
      have hpost : EndpointIdentity.postInit { i.stored.toEndpointIdentity with
          status := .revoked, revokedAt := some a.now.instant, revocationReason := some a.reason } =
          (a.revoked i).postInit :=
        Identity.postInit_stored (i := a.revoked i) (h.identityTimes i (getIdentity_some hi).1)
          fun t ht => Option.some.inj ht ▸ hnow
      unfold RevokeArgs.revoked at hpost
      rw [hpost]
      cases hp : Identity.postInit { i with
        status := .revoked, revokedAt := some a.now, revocationReason := some a.reason } with
      | some e => exact ⟨rfl, h⟩
      | none =>
        have hlen : a.reason.length ≤ 512 := by
          simp only [Bool.or_eq_true, decide_eq_true_eq, not_or, Nat.not_lt] at hreason
          omega
        have hrow : db.revokeRow a.identityId a.now.instant a.reason =
            .ok (db.updateIdentity a.identityId (Db.revoked a.now.instant a.reason)) := by
          rw [Db.revokeRow, hfits.1]
          rfl
        dsimp only
        rw [hrow]
        simp only [bind, Except.bind]
        rw [insertAudit_revoke hfits _ _ ⟨hfits.1, hlen⟩]
        exact ⟨rfl, h.revoked hi _ _⟩

/-! ## Ingestion -/

def MessageArgs.postgres (m : MessageArgs) : Server.MessageArgs :=
  { authenticatedIdentityId := m.authenticatedIdentityId
    envelope := m.envelope
    payloadDigest := sha256Hex m.payload
    receivedAt := m.receivedAt.instant
    observationId := m.observationId }

def IngestArgs.postgres (a : IngestArgs) : Server.IngestArgs :=
  { a.toMessageArgs.postgres with
    observationType := a.observationType
    schemaVersion := 1
    inventoryBinding := a.inventoryBinding }

/-- The times of a message and of its receipt have one offset per zone, five minutes after
the receipt included. -/
structure MessageArgs.Steady (zones : Datetime.Zones) (off : Nat → Int) (m : MessageArgs) : Prop where
  created : m.envelope.createdAt.At off
  expires : m.envelope.expiresAt.At off
  received : m.receivedAt.At off
  skewed : (m.receivedAt.add zones maxClockSkew).At off

/-- The message passes every check, whatever their order. -/
structure Admissible (zones : Datetime.Zones) (a : IngestArgs) (c : ControlPlane) (i : Identity)
    (e : Endpoint) : Prop where
  found : c.getIdentity a.authenticatedIdentityId = some i
  checked : firstFailure (authorizeChecks zones a i c) = none
  endpoint : c.getEndpoint i.endpointId = some e
  bound : ∀ b, a.inventoryBinding = some b → b.1 = e.platform ∧ b.2 = e.architecture

theorem authorizeChecks_none {a : IngestArgs}
    (hs : a.Steady zones off) : firstFailure (authorizeChecks zones a i c) = none ↔
      i.revokedAt = none ∧ a.envelope.endpointId = i.endpointId ∧
        a.envelope.createdAt.instant ≤ a.receivedAt.instant + maxClockSkew ∧
        a.receivedAt.instant < a.envelope.expiresAt.instant ∧
        a.envelope.messageId ∉ c.seenMessageIds ∧
        c.lastSequence a.authenticatedIdentityId a.envelope.bootId < a.envelope.sequence := by
  simp only [firstFailure_eq_none, authorizeChecks, List.forall_mem_cons]
  rw [hs.skewed.lt_eq hs.created, hs.received.instant_add hs.skewed, hs.received.lt_eq hs.expires]
  simp

/-- The state an accepted message leaves in memory. -/
def IngestArgs.accepted (a : IngestArgs) (i : Identity) (e : Endpoint) (c : ControlPlane)
    (events : List AuditEvent) : ControlPlane :=
  { touchEndpoint a e (acceptMessage a.authenticatedIdentityId (a.observation i) c) with
    auditEvents := events }

/-- An ingestion accepts an admissible message, and changes nothing otherwise. -/
def Decides (zones : Datetime.Zones) (a : IngestArgs) (c : ControlPlane)
    (out : Except Error Observation × ControlPlane) : Prop :=
  (∃ i e events, Admissible zones a c i e ∧ out = (.ok (a.observation i), a.accepted i e c events)) ∨
    ((¬ ∃ i e, Admissible zones a c i e) ∧
      ∃ err events, out = (.error err, { c with auditEvents := events }))

theorem observation_valid (a : IngestArgs) (i : Identity) : (a.observation i).postInit = none := by
  simp [Observation.postInit, IngestArgs.observation, firstFailure_eq_none, isSha256Hex_sha256Hex]

theorem authorizeMessage_ok {a : IngestArgs}
    (h : authorizeMessage zones a c = .ok i) :
    c.getIdentity a.authenticatedIdentityId = some i ∧
      firstFailure (authorizeChecks zones a i c) = none := by
  unfold authorizeMessage at h
  split at h
  · cases h
  · rename_i j hj
    split at h
    · rename_i hn
      cases h
      exact ⟨hj, hn⟩
    · cases h

theorem authorizeMessage_error {a : IngestArgs} {r : Uuid × Error}
    (h : authorizeMessage zones a c = .error r) : ¬ ∃ i e, Admissible zones a c i e := by
  rintro ⟨i, e, hadm⟩
  simp [authorizeMessage, hadm.found, hadm.checked] at h

theorem Paired.ingestHeartbeat_decides (h : Paired off used c db) (zones : Datetime.Zones) (m : MessageArgs) :
    Decides zones m.heartbeat c (ingestHeartbeat zones m c) := by
  unfold ingestHeartbeat
  dsimp only
  split
  · rename_i endpointId err herr
    exact .inr ⟨authorizeMessage_error herr, err, _, rfl⟩
  · rename_i i hok
    obtain ⟨hfound, hchecked⟩ := authorizeMessage_ok hok
    obtain ⟨e, he, -⟩ := h.endpoint (getIdentity_some hfound).1
    rw [observation_valid]
    dsimp only
    rw [show (acceptMessage _ _ c).getEndpoint i.endpointId = some e from he]
    exact .inl ⟨i, e, _, ⟨hfound, hchecked, he, nofun⟩, rfl⟩

theorem Paired.ingestInventory_decides (h : Paired off used c db) (zones : Datetime.Zones) (m : MessageArgs)
    (platform : Platform) (architecture : String) :
    Decides zones (m.inventory platform architecture) c
      (ingestInventory zones m platform architecture c) := by
  unfold ingestInventory
  dsimp only
  split
  · rename_i endpointId err herr
    exact .inr ⟨authorizeMessage_error herr, err, _, rfl⟩
  · rename_i i hok
    obtain ⟨hfound, hchecked⟩ := authorizeMessage_ok hok
    obtain ⟨e, he, -⟩ := h.endpoint (getIdentity_some hfound).1
    rw [he]
    dsimp only
    by_cases hb : platform ≠ e.platform ∨ architecture ≠ e.architecture
    · rw [if_pos hb]
      refine .inr ⟨?_, _, _, rfl⟩
      rintro ⟨i', e', hadm⟩
      obtain rfl : i' = i := Option.some.inj (hadm.found.symm.trans hfound)
      obtain rfl : e' = e := Option.some.inj (hadm.endpoint.symm.trans he)
      have := hadm.bound _ rfl
      exact hb.elim (· this.1) (· this.2)
    · rw [if_neg hb, observation_valid]
      simp only [not_or, ne_eq, not_not] at hb
      exact .inl ⟨i, e, _, ⟨hfound, hchecked, he, fun b hb' => Option.some.inj hb' ▸ hb⟩, rfl⟩

/-! ### The floor of a boot -/

theorem find?_put_self {α : Type} {p : α → Bool} {x : α} (hx : p x = true) (rows : List α) :
    (put p x rows).find? p = some x := by
  unfold put
  split
  · rename_i hany
    induction rows with
    | nil => simp at hany
    | cons y rows ih =>
      rw [List.map_cons]
      by_cases hy : p y = true
      · rw [if_pos hy, List.find?_cons_of_pos hx]
      · rw [if_neg hy, List.find?_cons_of_neg hy]
        refine ih ?_
        rw [List.any_cons, Bool.or_eq_true] at hany
        exact hany.resolve_left hy
  · rename_i hany
    rw [List.find?_append, List.find?_eq_none.mpr fun y hy hp => hany (List.any_eq_true.mpr ⟨y, hy, hp⟩)]
    simp [hx]

theorem find?_put_other {α : Type} {p q : α → Bool} {x : α} (hx : q x = false)
    (hpq : ∀ y, p y = true → q y = false) (rows : List α) : (put p x rows).find? q = rows.find? q := by
  unfold put
  split
  · rename_i hany
    clear hany
    induction rows with
    | nil => rfl
    | cons y rows ih =>
      rw [List.map_cons]
      by_cases hy : p y = true
      · rw [if_pos hy, List.find?_cons_of_neg (by simp [hx]), ih,
          List.find?_cons_of_neg (by simp [hpq y hy])]
      · rw [if_neg hy, List.find?_cons, List.find?_cons, ih]
  · rw [List.find?_append, List.find?_cons_of_neg (by simp [hx])]
    simp

/-- The upsert writes what the dictionary assignment writes. -/
theorem upsertSequence_eq_put {identityId bootId : Uuid} {sequence : Nat}
    (hlt : (db.lastSequence identityId bootId).getD 0 < sequence) :
    db.upsertSequence identityId bootId sequence = some { db with
      messageSequences := put (fun r => r.identityId == identityId && r.bootId == bootId)
        ⟨identityId, bootId, sequence⟩ db.messageSequences } := by
  unfold Db.upsertSequence
  cases hl : db.lastSequence identityId bootId with
  | none =>
    simp only [Db.lastSequence, Option.map_eq_none_iff, List.find?_eq_none] at hl
    rw [put_of_fresh fun r hr => by simpa using hl r hr]
  | some last =>
    rw [hl] at hlt
    dsimp only
    rw [if_pos (show last < sequence from hlt)]
    obtain ⟨r, hr, -⟩ := Option.map_eq_some_iff.mp hl
    rw [put, if_pos (List.any_eq_true.mpr ⟨r, List.mem_of_find?_eq_some hr, List.find?_some hr⟩)]
    refine congrArg some (congrArg (fun rows => { db with messageSequences := rows })
      (List.map_congr_left fun r _ => ?_))
    by_cases hk : r.identityId = identityId ∧ r.bootId = bootId
    · rw [if_pos hk, if_pos (by simp [hk])]
      rw [← hk.1, ← hk.2]
    · rw [if_neg hk, if_neg (by simpa using hk)]

/-! ### Acceptance in the database -/

/-- The effect of `_ingest` on a message that passes all its checks, for an identity that
needs no activation. -/
theorem ingest_accepts {a : Server.IngestArgs} {i : IdentityRow} {e : Server.Endpoint}
    {rows : List SequenceRow}
    (hjoin : db.identityJoin a.authenticatedIdentityId = some (i, e))
    (hidentity : firstFailure (a.identityChecks i e) = none)
    (hunseen : db.observations.find? (·.messageId == a.envelope.messageId) = none)
    (hmessage : firstFailure (a.messageChecks e) = none)
    (hup : db.upsertSequence a.authenticatedIdentityId a.envelope.bootId a.envelope.sequence =
      some { db with messageSequences := rows })
    (hvalid : (a.observation i).postInit = none)
    (hfree : db.insertObservation (a.observation i) =
      .ok { db with observations := db.observations ++ [a.observation i] })
    (hactive : ∀ x ∈ db.endpointIdentities, x.status ≠ .issued) (hi : i.status ≠ .issued) :
    ∃ events, Server.ingest a db = (.ok (a.observation i).toObservation, { db with
      endpoints := (db.touchEndpoint i.endpointId a.observationType a.receivedAt).endpoints
      messageSequences := rows
      observations := db.observations ++ [a.observation i]
      auditEvents := events }) := by
  have hinsert : ({ db with messageSequences := rows } : Db).insertObservation (a.observation i) =
      .ok { db with messageSequences := rows, observations := db.observations ++ [a.observation i] } := by
    unfold Db.insertObservation at hfree ⊢
    split at hfree
    · cases hfree
    · rename_i hany
      rw [if_neg hany]
  have hactivate : ∀ x : Db, x.endpointIdentities = db.endpointIdentities →
      ∃ events, activateOnHeartbeat a i x = .ok { x with auditEvents := events } := by
    intro x hx
    unfold activateOnHeartbeat
    split
    · exact ⟨x.auditEvents, rfl⟩
    · have hsame : x.updateIdentity i.identityId (Db.activated a.receivedAt) = x := by
        have : ∀ y ∈ x.endpointIdentities, (if y.identityId = i.identityId then
            Db.activated a.receivedAt y else y) = y := by
          intro y hy
          rw [Db.activated, if_neg (hactive y (hx ▸ hy)), ite_self]
        unfold Db.updateIdentity
        rw [List.map_congr_left this, List.map_id']
      unfold Db.activateIdentity
      rw [if_neg, hsame]
      · simp only [bind, Except.bind, if_neg hi]
        exact ⟨x.auditEvents, rfl⟩
      · simp only [List.any_eq_true, Bool.and_eq_true, beq_iff_eq, not_exists, not_and, and_imp]
        intro y hy _ hs
        exact absurd hs (hactive y (hx ▸ hy))
  unfold Server.ingest ingestSeeing ingestBody ingestDecision
  rw [hjoin]
  dsimp only
  rw [hidentity]
  dsimp only
  rw [hunseen]
  dsimp only
  rw [hmessage]
  dsimp only
  rw [hup]
  dsimp only
  unfold Server.acceptObservation
  dsimp only
  rw [hvalid, hinsert]
  simp only [bind, Except.bind]
  obtain ⟨events, hev⟩ := hactivate (Db.touchEndpoint { db with
    messageSequences := rows, observations := db.observations ++ [a.observation i] }
    i.endpointId a.observationType a.receivedAt) rfl
  rw [hev]
  exact ⟨_, rfl⟩

/-! ### Corresponding acceptance -/

/-- The later of two receipts, as the two planes compute it. -/
theorem latest_stored {last : Option Datetime} {receivedAt : Datetime} (hr : receivedAt.At off)
    (hl : ∀ t, last = some t → t.At off) :
    (latest last receivedAt).map Datetime.instant =
        Db.latest (last.map Datetime.instant) receivedAt.instant ∧
      ∀ t, latest last receivedAt = some t → t.At off := by
  have hat : (last.getD receivedAt).At off := by
    cases last with
    | none => exact hr
    | some t => exact hl t rfl
  obtain ⟨hmax, hmaxAt⟩ := Datetime.instant_max hr hat
  refine ⟨?_, fun t ht => Option.some.inj ht ▸ hmaxAt⟩
  simp only [latest, Db.latest, Option.map_some, hmax]
  cases last <;> rfl

theorem touched_stored {receivedAt : Datetime} (hr : receivedAt.At off)
    (he : (∀ t, e.lastReceiptAt = some t → t.At off) ∧ ∀ t, e.lastHeartbeatAt = some t → t.At off)
    (kind : ObservationType) :
    (touched kind receivedAt e).stored = Db.touched kind receivedAt.instant e.stored ∧
      (∀ t, (touched kind receivedAt e).lastReceiptAt = some t → t.At off) ∧
      ∀ t, (touched kind receivedAt e).lastHeartbeatAt = some t → t.At off := by
  obtain ⟨hreceipt, hreceiptAt⟩ := latest_stored hr he.1
  obtain ⟨hbeat, hbeatAt⟩ := latest_stored hr he.2
  cases kind with
  | heartbeat =>
    refine ⟨?_, hreceiptAt, hbeatAt⟩
    simp only [touched, Db.touched, Endpoint.stored, hreceipt, hbeat]
  | inventory =>
    refine ⟨?_, hreceiptAt, he.2⟩
    simp only [touched, Db.touched, Endpoint.stored, hreceipt]

theorem Paired.observation_unseen (h : Paired off used c db) {id : Uuid} :
    id ∉ c.seenMessageIds ↔ ∀ o ∈ db.observations, o.messageId ≠ id := by
  rw [h.seen id]
  exact ⟨fun hn o ho he => hn ⟨o, ho, he⟩, fun hn ⟨o, ho, he⟩ => hn o ho he⟩

/-- Of an identity that is not revoked the database says that it is active and current. -/
theorem Paired.active (h : Paired off used c db) (hi : i ∈ c.identities)
    (hr : i.revokedAt = none) (he : c.getEndpoint i.endpointId = some e) :
    i.status = .active ∧ e.identityId = i.identityId := by
  obtain ⟨e', he', hid⟩ := h.endpoint hi
  rw [he] at he'
  refine ⟨(h.status i hi).resolve_right fun hx => ?_, Option.some.inj he' ▸ hid⟩
  rw [hr] at hx
  cases hx.2

theorem Paired.accepted (h : Paired off used c db) {a : IngestArgs}
    (hr : a.receivedAt.At off) (he : c.getEndpoint i.endpointId = some e)
    (hseq : (db.lastSequence a.authenticatedIdentityId a.envelope.bootId).getD 0 < a.envelope.sequence)
    (events events' : List AuditEvent) :
    Paired off (used ++ [a.observationId]) (a.accepted i e c events) { db with
      endpoints := (db.touchEndpoint i.endpointId a.observationType a.receivedAt.instant).endpoints
      messageSequences := put
        (fun r => r.identityId == a.authenticatedIdentityId && r.bootId == a.envelope.bootId)
        ⟨a.authenticatedIdentityId, a.envelope.bootId, a.envelope.sequence⟩ db.messageSequences
      observations := db.observations ++ [a.postgres.observation i.stored]
      auditEvents := events' } := by
  obtain ⟨hmem, hkey⟩ := getEndpoint_some he
  have hput := put_of_held (f := touched a.observationType a.receivedAt) h.endpointKeys hmem
  have hkept : ∀ x : Endpoint,
      (if x.endpointId = e.endpointId then touched a.observationType a.receivedAt x else x).endpointId =
        x.endpointId ∧
      (if x.endpointId = e.endpointId then touched a.observationType a.receivedAt x else x).identityId =
        x.identityId := by
    intro x
    split <;> exact ⟨rfl, rfl⟩
  have hends : (a.accepted i e c events).endpoints = c.endpoints.map fun x =>
      if x.endpointId = e.endpointId then touched a.observationType a.receivedAt x else x := hput
  refine {
    endpoints := ?_
    identities := h.identities
    observations := ?_
    floors := by rw [h.floors]; rfl
    fingerprints := h.fingerprints
    seen := ?_
    identityKeys := h.identityKeys
    endpointKeys := ?_
    current := ?_
    owner := ?_
    status := h.status
    bounded := ?_
    identityTimes := h.identityTimes
    endpointTimes := ?_
    usedEndpoints := ?_
    usedIdentities := fun j hj => List.mem_append_left _ (h.usedIdentities j hj)
    usedObservations := ?_ }
  · rw [hends]
    simp only [Db.touchEndpoint, h.endpoints, List.map_map]
    refine List.map_congr_left fun x hx => ?_
    simp only [Function.comp]
    by_cases hk : x.endpointId = e.endpointId
    · rw [if_pos hk, if_pos (show x.stored.endpointId = _ from hk.trans hkey),
        (touched_stored hr (h.endpointTimes x hx) _).1]
    · rw [if_neg hk, if_neg (show ¬ x.stored.endpointId = _ from fun hx => hk (hx.trans hkey.symm))]
  · simp only [List.map_append, h.observations]
    show _ = (c.observations ++ [_]).map _
    rw [List.map_append]
    rfl
  · intro id
    show id ∈ _ :: c.seenMessageIds ↔ _
    rw [List.mem_cons, h.seen id]
    simp only [List.mem_append, List.mem_singleton]
    constructor
    · rintro (rfl | ⟨o, ho, hid⟩)
      · exact ⟨_, .inr rfl, rfl⟩
      · exact ⟨o, .inl ho, hid⟩
    · rintro ⟨o, ho | rfl, hid⟩
      · exact .inr ⟨o, ho, hid⟩
      · exact .inl hid.symm
  · rw [hends, List.map_map]
    exact (List.map_congr_left fun x _ => (hkept x).1) ▸ h.endpointKeys
  · intro j hj
    obtain ⟨x, hx, hkeys⟩ := h.current j hj
    rw [hends]
    exact ⟨_, List.mem_map.mpr ⟨x, hx, rfl⟩, (hkept x).1.trans hkeys.1, (hkept x).2.trans hkeys.2⟩
  · intro x hx
    rw [hends] at hx
    obtain ⟨y, hy, rfl⟩ := List.mem_map.mp hx
    rw [(hkept y).2]
    exact h.owner y hy
  · -- the floor of the message's boot rose above every earlier sequence
    intro o ho
    by_cases hk : o.identityId = a.authenticatedIdentityId ∧ o.bootId = a.envelope.bootId
    · refine ⟨a.envelope.sequence, ?_, ?_⟩
      · rw [Db.lastSequence, hk.1, hk.2, find?_put_self (by simp)]
        rfl
      · rcases List.mem_append.mp ho with ho | ho
        · obtain ⟨last, hlast, hle⟩ := h.bounded o ho
          rw [hk.1, hk.2] at hlast
          rw [hlast] at hseq
          exact Nat.le_of_lt (Nat.lt_of_le_of_lt hle hseq)
        · rw [List.mem_singleton.mp ho]
          exact Nat.le_refl _
    · have ho' : o ∈ db.observations := by
        rcases List.mem_append.mp ho with ho | ho
        · exact ho
        · rw [List.mem_singleton.mp ho] at hk
          exact absurd ⟨rfl, rfl⟩ hk
      obtain ⟨last, hlast, hle⟩ := h.bounded o ho'
      have hother : ∀ y : SequenceRow, y.identityId = a.authenticatedIdentityId ∧
          y.bootId = a.envelope.bootId → (y.identityId == o.identityId && y.bootId == o.bootId) = false := by
        rintro y ⟨hy, hb⟩
        rw [Bool.eq_false_iff, ne_eq, Bool.and_eq_true, beq_iff_eq, beq_iff_eq, hy, hb]
        exact fun hx => hk ⟨hx.1.symm, hx.2.symm⟩
      refine ⟨last, ?_, hle⟩
      rw [Db.lastSequence, find?_put_other]
      · exact hlast
      · exact hother _ ⟨rfl, rfl⟩
      · exact fun y hy => hother y (by simpa using hy)
  · intro x hx
    rw [hends] at hx
    obtain ⟨y, hy, rfl⟩ := List.mem_map.mp hx
    split
    · exact (touched_stored hr (h.endpointTimes y hy) _).2
    · exact h.endpointTimes y hy
  · intro x hx
    rw [hends] at hx
    obtain ⟨y, hy, rfl⟩ := List.mem_map.mp hx
    rw [(hkept y).1]
    exact List.mem_append_left _ (h.usedEndpoints y hy)
  · intro o ho
    rcases List.mem_append.mp ho with ho | ho
    · exact List.mem_append_left _ (h.usedObservations o ho)
    · rw [List.mem_singleton.mp ho]
      exact List.mem_append_right _ (List.mem_singleton.mpr rfl)

theorem ingestDecision_retry {seen : List ObservationRow} {a : Server.IngestArgs}
    {existing : ObservationRow} (h : ingestDecision seen a db = .retry existing) :
    a.exactRetry existing = true := by
  unfold ingestDecision at h
  repeat' split at h
  all_goals cases h
  assumption

/-- What the database accepts is admissible. -/
theorem Paired.admissible_of_accepted (h : Paired off used c db) {a : IngestArgs}
    (hs : a.Steady zones off) {i' : IdentityRow} {e' : Server.Endpoint} {db' : Db}
    (hacc : Accepted a.postgres i' e' db db') : ∃ i e, Admissible zones a c i e := by
  obtain ⟨hi', he'⟩ := Db.identityJoin_some.mp hacc.joined
  rw [h.identityById] at hi'
  rw [h.endpointById] at he'
  obtain ⟨i, hi, rfl⟩ := Option.map_eq_some_iff.mp hi'
  obtain ⟨e, he, rfl⟩ := Option.map_eq_some_iff.mp he'
  obtain ⟨hr, -, -, hend⟩ := Server.IngestArgs.identityChecks_none.mp hacc.identityOk
  obtain ⟨hcreated, hexpires, hbound⟩ := Server.IngestArgs.messageChecks_none.mp hacc.messageOk
  refine ⟨i, e, hi, (authorizeChecks_none hs).mpr ⟨?_, hend, hcreated, hexpires, ?_, ?_⟩, he, hbound⟩
  · simpa [Identity.stored] using hr
  · exact h.observation_unseen.mpr fun o ho => (hacc.unseen o ho).2.1
  · rw [h.lastSequence]
    cases hl : db.lastSequence a.authenticatedIdentityId a.envelope.bootId with
    | none => exact a.envelope.sequence_range.1
    | some last => exact hacc.sequenceOk last hl

theorem Paired.ingest (h : Paired off used c db) {a : IngestArgs}
    (hs : a.Steady zones off) (hnew : a.observationId ∉ used) {out : Except Error Observation × ControlPlane}
    (hd : Decides zones a c out) :
    Agree off (used ++ [a.observationId]) out (Server.ingest a.postgres db) := by
  rcases hd with ⟨i, e, events, hadm, rfl⟩ | ⟨hnot, err, events, rfl⟩
  · obtain ⟨hr, hend, hcreated, hexpires, hunseen, hseq⟩ := (authorizeChecks_none hs).mp hadm.checked
    obtain ⟨hmem, hid⟩ := getIdentity_some hadm.found
    obtain ⟨hactive, hcurrent⟩ := h.active hmem hr hadm.endpoint
    have hunseen' := h.observation_unseen.mp hunseen
    rw [h.lastSequence] at hseq
    have hnotIssued : ∀ x ∈ db.endpointIdentities, x.status ≠ .issued := by
      intro x hx
      rw [h.identities] at hx
      obtain ⟨j, hj, rfl⟩ := List.mem_map.mp hx
      rcases h.status j hj with hst | ⟨hst, -⟩
      all_goals
        show j.status ≠ _
        rw [hst]
        decide
    have hfree : db.insertObservation (a.postgres.observation i.stored) =
        .ok { db with observations := db.observations ++ [a.postgres.observation i.stored] } := by
      unfold Db.insertObservation
      rw [if_neg]
      simp only [List.any_eq_true, Bool.or_eq_true, Bool.and_eq_true, beq_iff_eq, not_exists, not_and]
      rintro o ho ((hx | hx) | ⟨⟨hx, hb⟩, hsq⟩)
      · have hx : o.observationId = a.observationId := hx
        exact hnew (hx ▸ h.usedObservations o ho)
      · exact hunseen' o ho hx
      · obtain ⟨last, hlast, hle⟩ := h.bounded o ho
        rw [hx, hb] at hlast
        rw [show db.lastSequence a.authenticatedIdentityId a.envelope.bootId = some last from hlast] at hseq
        have hsq : o.sequence = a.envelope.sequence := hsq
        exact absurd (hsq ▸ hle) (Nat.not_le.mpr hseq)
    obtain ⟨events', hdb⟩ := ingest_accepts (a := a.postgres) (i := i.stored) (e := e.stored)
      (Db.identityJoin_some.mpr ⟨by rw [h.identityById]; exact congrArg (Option.map _) hadm.found,
        by rw [h.endpointById]; exact congrArg (Option.map _) hadm.endpoint⟩)
      (Server.IngestArgs.identityChecks_none.mpr ⟨by simp [Identity.stored, hr],
        ⟨.inr hactive, hcurrent⟩, fun hx => absurd hx (by show i.status ≠ _; rw [hactive]; decide), hend⟩)
      (List.find?_eq_none.mpr fun o ho hx => hunseen' o ho (beq_iff_eq.mp hx))
      (Server.IngestArgs.messageChecks_none.mpr ⟨hcreated, hexpires, hadm.bound⟩)
      (upsertSequence_eq_put hseq)
      (by simp [Server.Observation.postInit, firstFailure_eq_none, Server.IngestArgs.observation,
        IngestArgs.postgres, MessageArgs.postgres, isSha256Hex_sha256Hex])
      hfree hnotIssued (by show i.status ≠ _; rw [hactive]; decide)
    rw [hdb]
    exact ⟨rfl, h.accepted hs.received hadm.endpoint hseq events events'⟩
  · refine h.both_fail ?_ _
    obtain hraised | ⟨existing, hretry, -⟩ | ⟨i', e', -, hacc⟩ :=
      ingestSeeing_cases db.observations a.postgres db
    · exact hraised
    · have := ingestDecision_retry hretry
      simp [Server.IngestArgs.exactRetry, IngestArgs.postgres, MessageArgs.postgres] at this
    · exact absurd (h.admissible_of_accepted hs hacc) hnot

end Steps

/-! ## Runs -/

inductive Call where
  | enrollSyntheticEndpoint (a : EnrollArgs)
  | ingestHeartbeat (m : MessageArgs)
  | ingestInventory (m : MessageArgs) (platform : Platform) (architecture : String)
  | revokeIdentity (a : RevokeArgs)

namespace Call

/-- Whether the call succeeds on `ControlPlane`, and the state after it. -/
def inMemory (zones : Datetime.Zones) (call : Call) (c : ControlPlane) : Bool × ControlPlane :=
  match call with
  | .enrollSyntheticEndpoint a =>
    ((Memory.enrollSyntheticEndpoint a c).1.isOk, (Memory.enrollSyntheticEndpoint a c).2)
  | .ingestHeartbeat m => ((Memory.ingestHeartbeat zones m c).1.isOk, (Memory.ingestHeartbeat zones m c).2)
  | .ingestInventory m platform architecture =>
    ((Memory.ingestInventory zones m platform architecture c).1.isOk,
      (Memory.ingestInventory zones m platform architecture c).2)
  | .revokeIdentity a => ((Memory.revokeIdentity a c).1.isOk, (Memory.revokeIdentity a c).2)

/-- The same call on `PostgresControlPlane`, with the same generated IDs. -/
def postgres : Call → Server.Call
  | .enrollSyntheticEndpoint a => .enrollSyntheticEndpoint a.postgres
  | .ingestHeartbeat m => .ingestHeartbeat m.postgres
  | .ingestInventory m platform architecture => .ingestInventory m.postgres platform architecture
  | .revokeIdentity a => .revokeIdentity a.postgres

def succeeds (call : Server.Call) (db : Db) : Bool := (call.perform db.observations db).1.isOk

/-- The caller's texts are ones PostgreSQL can store and fit their columns. -/
def Fits : Call → Prop
  | .enrollSyntheticEndpoint a => a.Fits
  | .revokeIdentity a => a.Fits
  | .ingestHeartbeat _ | .ingestInventory .. => True

/-- The times of the call have the offsets `off` gives their zones. -/
def Steady (zones : Datetime.Zones) (off : Nat → Int) : Call → Prop
  | .enrollSyntheticEndpoint a => a.now.At off
  | .revokeIdentity a => a.now.At off
  | .ingestHeartbeat m | .ingestInventory m _ _ => m.Steady zones off

/-- The IDs the call draws. -/
def generated : Call → List Uuid
  | .enrollSyntheticEndpoint a => [a.endpointId, a.identityId]
  | .ingestHeartbeat m | .ingestInventory m _ _ => [m.observationId]
  | .revokeIdentity _ => []

def runInMemory (zones : Datetime.Zones) (calls : List Call) : ControlPlane :=
  calls.foldl (fun c call => (call.inMemory zones c).2) {}

def runPostgres (calls : List Call) : Db := Server.Call.run (calls.map postgres) {}

end Call

section Runs

variable {zones : Datetime.Zones} {off : Nat → Int} {used : List Uuid} {c : ControlPlane} {db : Db}

theorem isOk_answering {α : Type} {answer : α → Answer} {out : Except Error α × Db} :
    (answering answer out).1.isOk = out.1.isOk := by
  obtain ⟨r, x⟩ := out
  cases r <;> rfl

/-- **One call on corresponding states** succeeds in both planes or in neither, and the
states correspond after it. -/
theorem Paired.step (h : Paired off used c db) (zones : Datetime.Zones) {call : Call} (hfits : call.Fits)
    (hs : call.Steady zones off) (hnew : ∀ id ∈ call.generated, id ∉ used) :
    (call.inMemory zones c).1 = Call.succeeds call.postgres db ∧
      Paired off (used ++ call.generated) (call.inMemory zones c).2 (call.postgres.exec db) := by
  cases call with
  | enrollSyntheticEndpoint a =>
    obtain ⟨hok, hp⟩ := h.enroll hfits hs ⟨hnew _ (by simp [Call.generated]), hnew _ (by simp [Call.generated])⟩
    exact ⟨hok.trans isOk_answering.symm, hp⟩
  | ingestHeartbeat m =>
    obtain ⟨hok, hp⟩ := h.ingest (a := m.heartbeat) hs (hnew _ (by simp [Call.generated]; rfl))
      (h.ingestHeartbeat_decides zones m)
    exact ⟨hok.trans isOk_answering.symm, hp⟩
  | ingestInventory m platform architecture =>
    obtain ⟨hok, hp⟩ := h.ingest (a := m.inventory platform architecture) hs
      (hnew _ (by simp [Call.generated]; rfl)) (h.ingestInventory_decides zones m platform architecture)
    exact ⟨hok.trans isOk_answering.symm, hp⟩
  | revokeIdentity a =>
    obtain ⟨hok, hp⟩ := h.revoke hfits hs
    exact ⟨hok.trans isOk_answering.symm, hp.mono []⟩

theorem Paired.run {calls : List Call} (hfits : ∀ call ∈ calls, call.Fits)
    (hs : ∀ call ∈ calls, call.Steady zones off) (hfresh : (calls.flatMap Call.generated).Nodup) :
    Paired off (calls.flatMap Call.generated) (Call.runInMemory zones calls) (Call.runPostgres calls) := by
  induction calls using List.reverseRecOn with
  | nil => exact .empty off
  | append_singleton calls call ih =>
    rw [List.flatMap_append] at hfresh ⊢
    have hprev := ih (fun x hx => hfits x (List.mem_append_left _ hx))
      (fun x hx => hs x (List.mem_append_left _ hx)) (List.nodup_append'.mp hfresh).1
    have hstep := hprev.step zones (hfits call (by simp)) (hs call (by simp)) fun id hid hused =>
      (List.nodup_append'.mp hfresh).2.2 hused (by simpa using hid)
    simpa [Call.runInMemory, Call.runPostgres, Server.Call.run] using hstep.2

end Runs

/-! ## A receipt in the repeated hour -/

instance (call : Call) : Decidable call.Fits := by
  cases call <;> unfold Call.Fits <;>
    first | infer_instance | (unfold EnrollArgs.Fits; infer_instance) | (unfold RevokeArgs.Fits; infer_instance)

def Sample.message (createdAt expiresAt receivedAt : Datetime)
    (h : 0 < expiresAt.sub createdAt ∧ expiresAt.sub createdAt ≤ maxMessageTtl) : MessageArgs :=
  { authenticatedIdentityId := Server.Sample.uuid 2
    envelope := (Server.Sample.heartbeat createdAt expiresAt h).envelope
    payload := []
    receivedAt := receivedAt
    observationId := Server.Sample.uuid 7 }

end Memory

end NorthgateRmm.Server
