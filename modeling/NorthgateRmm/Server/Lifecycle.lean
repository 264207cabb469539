import NorthgateRmm.Server.AgentApi

/-!
# Identity lifecycle

A `Service` is a database with requests in flight between the two transactions of
`handle`. Whatever its actions, one identity sees only the changes of `RowStep`: it
is issued, activated by an accepted message, or revoked. The status edges, the
evidence behind an active identity and the silence of a revoked one follow from that.
-/

namespace NorthgateRmm.Server

/-! ## Rows by identity -/

section Lookup

variable {db : Db} {id : Uuid} {i : IdentityRow}

theorem Db.find_append (rows : List IdentityRow) (r : IdentityRow) (id : Uuid) :
    (rows ++ [r]).find? (·.identityId == id) =
      (rows.find? (·.identityId == id)).or (if r.identityId = id then some r else none) := by
  rw [List.find?_append]
  by_cases h : r.identityId = id <;> simp [h]

/-- An update keyed by `identity_id` reaches exactly that row. -/
theorem Db.find_update (rows : List IdentityRow) (f : IdentityRow → IdentityRow) (key id : Uuid)
    (hf : ∀ i, (f i).identityId = i.identityId) :
    (rows.map fun i => if i.identityId = key then f i else i).find? (·.identityId == id) =
      (rows.find? (·.identityId == id)).map fun i => if i.identityId = key then f i else i := by
  rw [List.find?_map]
  congr 2
  funext i
  simp only [Function.comp_apply]
  split <;> simp [hf]

@[simp] theorem IssueArgs.certify_identityId (a : IssueArgs) (i : IdentityRow) :
    (a.certify i).identityId = i.identityId := rfl

@[simp] theorem Db.revoked_identityId (t : Instant) (r : String) (i : IdentityRow) :
    (Db.revoked t r i).identityId = i.identityId := rfl

@[simp] theorem Db.activated_identityId (t : Instant) (i : IdentityRow) :
    (Db.activated t i).identityId = i.identityId := by
  unfold Db.activated; split <;> rfl

/-- The observations of one identity, in acceptance order. -/
def Db.ownLog (db : Db) (id : Uuid) : List ObservationRow := db.observations.filter (·.identityId = id)

end Lookup

/-! ## What one identity sees -/

/-- A change to one identity: its row and its observations. -/
inductive RowStep (i : IdentityRow) (log : List ObservationRow) :
    IdentityRow → List ObservationRow → Prop where
  | same : RowStep i log i log
  | issue (a : IssueArgs) (h : i.status = .pending) : RowStep i log (a.certify i) log
  | revoke (t : Instant) (reason : String) (h : i.revokedAt = none) :
      RowStep i log (Db.revoked t reason i) log
  | heartbeat (o : ObservationRow) (hk : o.observationType = .heartbeat) (hlive : i.revokedAt = none)
      (hs : i.status = .issued ∨ i.status = .active) :
      RowStep i log (Db.activated o.receivedAt i) (log ++ [o])
  | inventory (o : ObservationRow) (hk : o.observationType = .inventory) (hlive : i.revokedAt = none)
      (hs : i.status = .active) : RowStep i log i (log ++ [o])

section RowStep

variable {msg : Option IngestArgs} {db db' : Db} {id : Uuid} {i : IdentityRow}

theorem Accepted.rowStep {a : IngestArgs} {j : IdentityRow} {e : Endpoint} (h : Accepted a j e db db')
    (hi : db.identityById id = some i) :
    ∃ i', db'.identityById id = some i' ∧ RowStep i (db.ownLog id) i' (db'.ownLog id) := by
  obtain ⟨hj, -⟩ := Db.identityJoin_some.mp h.joined
  have hjid := (Db.identityById_some hj).2
  have hiid := (Db.identityById_some hi).2
  obtain ⟨hlive, ⟨hs, -⟩, hissued, -⟩ := IngestArgs.identityChecks_none.mp h.identityOk
  obtain ⟨rows, events, -, rfl⟩ := h.after
  by_cases hid : a.authenticatedIdentityId = id
  · -- the message is this identity's
    have hij : j = i := by
      rw [hid, hi] at hj
      exact (Option.some.inj hj).symm
    subst hij
    have hlog : Db.ownLog { db with observations := db.observations ++ [a.observation j] } id =
        db.ownLog id ++ [a.observation j] := by
      simp [Db.ownLog, IngestArgs.observation, hid]
    cases hk : a.observationType with
    | heartbeat =>
      refine ⟨Db.activated a.receivedAt j, ?_, hlog ▸ .heartbeat (a.observation j) hk hlive hs⟩
      simp only [Db.identityById, IngestArgs.activate, hk]
      rw [Db.find_update _ _ _ _ (Db.activated_identityId a.receivedAt)]
      rw [Db.identityById] at hi
      simp [hi]
    | inventory =>
      refine ⟨j, ?_, hlog ▸ .inventory (a.observation j) hk hlive ?_⟩
      · simpa only [Db.identityById, IngestArgs.activate, hk] using hi
      · rcases hs with hs | hs
        · exact absurd (hissued hs) (by simp [hk])
        · exact hs
  · have hlog : Db.ownLog { db with observations := db.observations ++ [a.observation j] } id =
        db.ownLog id := by
      simp [Db.ownLog, IngestArgs.observation, hid]
    refine ⟨i, ?_, hlog ▸ .same⟩
    simp only [Db.identityById, IngestArgs.activate]
    rw [Db.identityById] at hi
    split
    · rw [Db.find_update _ _ _ _ (Db.activated_identityId a.receivedAt), hi, Option.map_some, if_neg]
      rw [hiid, hjid]
      exact fun heq => hid heq.symm
    · exact hi

/-- The columns no statement writes after the row was inserted. -/
structure SameIdentity (i i' : IdentityRow) : Prop where
  endpoint : i'.endpointId = i.endpointId
  fingerprint : i'.publicKeyFingerprint = i.publicKeyFingerprint
  createdAt : i'.createdAt = i.createdAt

theorem RowStep.immutable {i' : IdentityRow} {log log' : List ObservationRow}
    (h : RowStep i log i' log') : SameIdentity i i' := by
  cases h with
  | heartbeat o hk hlive hs =>
    unfold Db.activated
    split <;> exact ⟨rfl, rfl, rfl⟩
  | _ => exact ⟨rfl, rfl, rfl⟩

/-- **One identity sees only the changes of `RowStep`.** -/
theorem Effect.rowStep (h : Effect msg db db') (hi : db.identityById id = some i) :
    ∃ i', db'.identityById id = some i' ∧ RowStep i (db.ownLog id) i' (db'.ownLog id) := by
  have hiid := (Db.identityById_some hi).2
  cases h with
  | audit h =>
    obtain ⟨events, rfl⟩ := h
    exact ⟨i, hi, .same⟩
  | createGrant h =>
    obtain ⟨events, rfl⟩ := h.after
    exact ⟨i, hi, .same⟩
  | enroll h =>
    obtain ⟨events, rfl⟩ := h.after
    rw [Db.identityById] at hi
    exact ⟨i, by rw [Db.identityById, Db.find_append, hi, Option.some_or], .same⟩
  | exchange _ h =>
    obtain ⟨events, rfl⟩ := h.after
    rw [Db.identityById] at hi
    exact ⟨i, by rw [Db.identityById, Db.find_append, hi, Option.some_or], .same⟩
  | @issue a j e h =>
    obtain ⟨hj, -⟩ := Db.identityJoin_some.mp h.joined
    obtain ⟨events, rfl⟩ := h.after
    rw [Db.identityById] at hi
    refine ⟨if i.identityId = a.identityId then a.certify i else i, ?_, ?_⟩
    · simp only [Db.identityById, Db.updateIdentity]
      rw [Db.find_update _ _ _ _ a.certify_identityId, hi, Option.map_some]
    · split
      · rename_i hid
        rw [← hid, hiid, Db.identityById, hi, Option.some.injEq] at hj
        exact .issue a (hj ▸ h.pending)
      · exact .same
  | @revoke a j h =>
    have hj := h.found
    obtain ⟨events, rfl⟩ := h.after
    rw [Db.identityById] at hi
    refine ⟨if i.identityId = a.identityId then Db.revoked a.now a.reason i else i, ?_, ?_⟩
    · simp only [Db.identityById, Db.updateIdentity]
      rw [Db.find_update _ _ _ _ (Db.revoked_identityId a.now a.reason), hi, Option.map_some]
    · split
      · rename_i hid
        rw [← hid, hiid, Db.identityById, hi, Option.some.injEq] at hj
        exact .revoke a.now a.reason (hj ▸ h.unrevoked)
      · exact .same
  | accept _ h => exact h.rowStep hi

/-- A row as an enrollment inserts it. -/
structure NewRow (i : IdentityRow) : Prop where
  status : i.status = .pending ∨ i.status = .active
  activatedAt : i.activatedAt = none
  revokedAt : i.revokedAt = none
  valid : i.postInit = none

/-- An identity that was not there has no observations added, and starts as a new row. -/
theorem Effect.newRow (h : Effect msg db db') (hn : db.identityById id = none) :
    db'.ownLog id = db.ownLog id ∧ ∀ i', db'.identityById id = some i' → NewRow i' := by
  have hold : ∀ i', db.identityById id = some i' → NewRow i' := fun i' h => by rw [hn] at h; cases h
  rw [Db.identityById] at hn
  cases h with
  | audit h =>
    obtain ⟨events, rfl⟩ := h
    exact ⟨rfl, hold⟩
  | createGrant h =>
    obtain ⟨events, rfl⟩ := h.after
    exact ⟨rfl, hold⟩
  | enroll h =>
    obtain ⟨events, rfl⟩ := h.after
    refine ⟨rfl, fun i' hi' => ?_⟩
    rw [Db.identityById, Db.find_append, hn, Option.none_or] at hi'
    split at hi'
    · cases hi'
      exact ⟨.inr rfl, rfl, rfl, h.valid⟩
    · cases hi'
  | exchange hs h =>
    obtain ⟨events, rfl⟩ := h.after
    refine ⟨rfl, fun i' hi' => ?_⟩
    rw [Db.identityById, Db.find_append, hn, Option.none_or] at hi'
    split at hi'
    · cases hi'
      exact ⟨hs, rfl, rfl, h.valid⟩
    · cases hi'
  | @issue a j e h =>
    obtain ⟨events, rfl⟩ := h.after
    refine ⟨rfl, fun i' hi' => ?_⟩
    simp only [Db.identityById, Db.updateIdentity] at hi'
    rw [Db.find_update _ _ _ _ a.certify_identityId, hn] at hi'
    cases hi'
  | @revoke a j h =>
    obtain ⟨events, rfl⟩ := h.after
    refine ⟨rfl, fun i' hi' => ?_⟩
    simp only [Db.identityById, Db.updateIdentity] at hi'
    rw [Db.find_update _ _ _ _ (Db.revoked_identityId a.now a.reason), hn] at hi'
    cases hi'
  | @accept a j e _ h =>
    obtain ⟨hj, -⟩ := Db.identityJoin_some.mp h.joined
    obtain ⟨rows, events, -, rfl⟩ := h.after
    constructor
    · have hid : a.authenticatedIdentityId ≠ id := by
        rintro rfl
        rw [Db.identityById, hn] at hj
        cases hj
      simp [Db.ownLog, IngestArgs.observation, hid]
    · intro i' hi'
      simp only [Db.identityById, IngestArgs.activate] at hi'
      split at hi'
      · rw [Db.find_update _ _ _ _ (Db.activated_identityId a.receivedAt), hn] at hi'
        cases hi'
      · exact hold i' hi'

end RowStep

/-! ## Invariants of one identity -/

/-- Serial, issuer and validity of a certificate are recorded. -/
def IdentityRow.CertificateRecorded (i : IdentityRow) : Prop :=
  i.certificateSerial.isSome ∧ i.certificateIssuer.isSome ∧ i.certificateNotBefore.isSome ∧
    i.certificateNotAfter.isSome

structure IdentityOk (i : IdentityRow) (log : List ObservationRow) : Prop where
  not_retired : i.status ≠ .retired
  revoked_iff : i.status = .revoked ↔ i.revokedAt.isSome
  certified : i.status = .issued → i.CertificateRecorded
  silent : i.status = .pending ∨ i.status = .issued → log = []
  evidence : ∀ t, i.activatedAt = some t → i.CertificateRecorded ∧
    ∃ o ∈ log, o.observationType = .heartbeat ∧ o.receivedAt = t

section Invariants

variable {i i' : IdentityRow} {log log' : List ObservationRow}

/-- The row an issued identity's heartbeat leaves. -/
theorem activated_of_issued {t : Instant} (h : i.status = .issued) :
    Db.activated t i = { i with status := .active, activatedAt := some t } := if_pos h

theorem activated_of_active {t : Instant} (h : i.status = .active) : Db.activated t i = i :=
  if_neg (by simp [h])

theorem NewRow.ok (h : NewRow i) : IdentityOk i [] where
  not_retired := by rcases h.status with hs | hs <;> simp [hs]
  revoked_iff := by rcases h.status with hs | hs <;> simp [hs, h.revokedAt]
  certified := by rcases h.status with hs | hs <;> simp [hs]
  silent := fun _ => rfl
  evidence := by simp [h.activatedAt]

theorem IdentityOk.step (h : IdentityOk i log) (hstep : RowStep i log i' log') : IdentityOk i' log' := by
  cases hstep with
  | same => exact h
  | issue a hp =>
    have hlive : i.revokedAt.isSome = false := by
      rw [Bool.eq_false_iff, ne_eq, ← h.revoked_iff, hp]
      simp
    refine ⟨by simp [IssueArgs.certify, Db.certified], ?_, fun _ => ⟨rfl, rfl, rfl, rfl⟩,
      fun _ => h.silent (.inl hp), fun t ht => ⟨⟨rfl, rfl, rfl, rfl⟩, (h.evidence t ht).2⟩⟩
    simp [IssueArgs.certify, Db.certified, hlive]
  | revoke t reason hr =>
    exact ⟨by simp [Db.revoked], by simp [Db.revoked], by simp [Db.revoked], by simp [Db.revoked],
      h.evidence⟩
  | heartbeat o hk hlive hs =>
    have hmono : ∀ t, i.activatedAt = some t → i.CertificateRecorded ∧
        ∃ x ∈ log ++ [o], x.observationType = .heartbeat ∧ x.receivedAt = t := by
      intro t ht
      obtain ⟨hc, x, hx, hkx⟩ := h.evidence t ht
      exact ⟨hc, x, List.mem_append_left _ hx, hkx⟩
    rcases hs with hs | hs
    · -- the first heartbeat is its own evidence
      rw [activated_of_issued hs]
      refine ⟨by simp, by simp [hlive], by simp, by simp, fun t ht => ?_⟩
      obtain rfl := Option.some.inj ht
      exact ⟨h.certified hs, o, by simp, hk, rfl⟩
    · rw [activated_of_active hs]
      exact ⟨h.not_retired, h.revoked_iff, h.certified, by simp [hs], hmono⟩
  | inventory o hk hlive hs =>
    refine ⟨h.not_retired, h.revoked_iff, h.certified, by simp [hs], fun t ht => ?_⟩
    obtain ⟨hc, x, hx, hkx⟩ := h.evidence t ht
    exact ⟨hc, x, List.mem_append_left _ hx, hkx⟩

/-- Every inventory of the log has a heartbeat before it. -/
def Preceded (log : List ObservationRow) : Prop :=
  ∀ front o back, log = front ++ o :: back → o.observationType = .inventory →
    ∃ h ∈ front, h.observationType = .heartbeat

theorem Preceded.append {o : ObservationRow} (h : Preceded log)
    (ho : o.observationType = .inventory → ∃ x ∈ log, x.observationType = .heartbeat) :
    Preceded (log ++ [o]) := by
  intro front x back heq hx
  rcases List.eq_nil_or_concat back with rfl | ⟨back, y, rfl⟩
  · obtain ⟨rfl, hox⟩ := List.append_inj' heq rfl
    obtain rfl := List.singleton_inj.mp hox
    exact ho hx
  · rw [List.concat_eq_append, ← List.cons_append, ← List.append_assoc] at heq
    exact h front x back (List.append_inj' heq rfl).1 hx

/-- An identity of `begin_endpoint_enrollment`: it is active only once activated, and its
inventories follow a heartbeat. -/
structure Begun (i : IdentityRow) (log : List ObservationRow) : Prop where
  activated : i.status = .active → i.activatedAt.isSome
  preceded : Preceded log

theorem Begun.step (hok : IdentityOk i log) (h : Begun i log) (hstep : RowStep i log i' log') :
    Begun i' log' := by
  cases hstep with
  | same => exact h
  | issue a hp => exact ⟨by simp [IssueArgs.certify, Db.certified], h.preceded⟩
  | revoke t reason hr => exact ⟨by simp [Db.revoked], h.preceded⟩
  | heartbeat o hk hlive hs =>
    refine ⟨?_, h.preceded.append (by simp [hk])⟩
    rcases hs with hs | hs
    · simp [activated_of_issued hs]
    · rw [activated_of_active hs]
      exact h.activated
  | inventory o hk hlive hs =>
    refine ⟨h.activated, h.preceded.append fun _ => ?_⟩
    obtain ⟨t, ht⟩ := Option.isSome_iff_exists.mp (h.activated hs)
    obtain ⟨-, x, hx, hkx, -⟩ := hok.evidence t ht
    exact ⟨x, hx, hkx⟩

/-- A pending or issued identity has not sent anything yet. -/
theorem IdentityOk.begun (h : IdentityOk i log) (hs : i.status = .pending ∨ i.status = .issued) :
    Begun i log := by
  refine ⟨by rcases hs with hs | hs <;> simp [hs], ?_⟩
  rw [h.silent hs]
  intro front o back heq
  simp at heq

/-- The edges of the lifecycle, staying included. -/
inductive Edge : EndpointLifecycle → EndpointLifecycle → Prop where
  | stay (s : EndpointLifecycle) : Edge s s
  | issue : Edge .pending .issued
  | activate : Edge .issued .active
  | revoke {s : EndpointLifecycle} (h : s = .pending ∨ s = .issued ∨ s = .active) : Edge s .revoked

theorem RowStep.edge (h : IdentityOk i log) (hstep : RowStep i log i' log') : Edge i.status i'.status := by
  cases hstep with
  | same => exact .stay _
  | issue a hp =>
    rw [hp]
    exact .issue
  | revoke t reason hr =>
    refine .revoke ?_
    have hne : i.status ≠ .revoked := by simp [h.revoked_iff, hr]
    have hnr := h.not_retired
    cases hs : i.status <;> simp_all
  | heartbeat o hk hlive hs =>
    rcases hs with hs | hs
    · rw [activated_of_issued hs, hs]
      exact .activate
    · rw [activated_of_active hs]
      exact .stay _
  | inventory => exact .stay _

/-- A revoked identity is frozen: row and observations. -/
theorem RowStep.revoked (h : IdentityOk i log) (hr : i.status = .revoked)
    (hstep : RowStep i log i' log') : i' = i ∧ log' = log := by
  have hlive : i.revokedAt.isSome := h.revoked_iff.mp hr
  cases hstep with
  | same => exact ⟨rfl, rfl⟩
  | issue a hp => simp [hp] at hr
  | revoke t reason hn => simp [hn] at hlive
  | heartbeat o hk hn hs => simp [hn] at hlive
  | inventory o hk hn hs => simp [hn] at hlive

end Invariants

/-- The invariant of the identity table. -/
structure RowsOk (db : Db) : Prop where
  rows : ∀ id i, db.identityById id = some i → IdentityOk i (db.ownLog id)
  noRow : ∀ id, db.identityById id = none → db.ownLog id = []

theorem RowsOk.empty : RowsOk {} := ⟨by simp [Db.identityById], by simp [Db.ownLog]⟩

theorem RowsOk.effect {msg : Option IngestArgs} {db db' : Db} (h : RowsOk db)
    (heff : Effect msg db db') : RowsOk db' := by
  refine ⟨fun id i' hi' => ?_, fun id hn' => ?_⟩
  · cases hi : db.identityById id with
    | none =>
      obtain ⟨hlog, hnew⟩ := heff.newRow hi
      rw [hlog, h.noRow id hi]
      exact (hnew i' hi').ok
    | some i =>
      obtain ⟨j, hj, hstep⟩ := heff.rowStep hi
      obtain rfl : j = i' := Option.some.inj (hj.symm.trans hi')
      exact (h.rows id i hi).step hstep
  · cases hi : db.identityById id with
    | none => rw [(heff.newRow hi).1, h.noRow id hi]
    | some i =>
      obtain ⟨j, hj, -⟩ := heff.rowStep hi
      cases hj.symm.trans hn'

/-! ## Runs of the service -/

/-- The database, the requests between their two transactions, and the identities that
`begin_endpoint_enrollment` returned so far. -/
structure Service where
  db : Db := {}
  inFlight : List AuthenticatedRequest := []
  began : List Uuid := []

inductive Action where
  | call (call : Call)
  /-- `handle` up to the end of its first transaction. -/
  | authenticate (request : AgentMessageRequest) (peer : VerifiedClientCertificate)
      (receivedAt : Instant)
  /-- The second transaction of the `k`-th request in flight. -/
  | ingest (k : Nat) (observationId : Uuid)

/-- The identity a call of `begin_endpoint_enrollment` returns. -/
def Call.begun (call : Call) (db : Db) : List Uuid :=
  match call with
  | .beginEndpointEnrollment a =>
    match (Server.beginEndpointEnrollment a db).1 with
    | .ok (_, i) => [i.identityId]
    | .error _ => []
  | _ => []

section Runs

variable (decode : List UInt8 → Except Error AgentMessage)

def Action.exec (action : Action) (s : Service) : Service :=
  match action with
  | .call c => { s with db := c.exec s.db, began := s.began ++ c.begun s.db }
  | .authenticate request peer receivedAt =>
    match Server.authenticate decode request peer receivedAt s.db with
    | (.ok r, db) => { s with db := db, inFlight := s.inFlight ++ [r] }
    | (.error _, db) => { s with db := db }
  | .ingest k observationId =>
    match s.inFlight[k]? with
    | none => s
    | some r => { s with db := (r.ingest observationId s.db).2, inFlight := s.inFlight.eraseIdx k }

def Service.run (actions : List Action) (s : Service) : Service :=
  actions.foldl (fun s action => action.exec decode s) s

/-- What an action does to the database is one effect. -/
theorem Action.exec_effect (action : Action) (s : Service) :
    ∃ msg, Effect msg s.db (action.exec decode s).db := by
  cases action with
  | call c => exact ⟨_, c.exec_effect s.db⟩
  | authenticate request peer receivedAt =>
    have haudit := (authenticate_cases decode request peer receivedAt s.db).1
    simp only [Action.exec]
    split
    all_goals
      rename_i heq
      rw [heq] at haudit
      exact ⟨none, .audit haudit⟩
  | ingest k observationId =>
    simp only [Action.exec]
    split
    · exact ⟨none, .audit (.refl _)⟩
    · rename_i r hr
      have heff := ingestSeeing_effect s.db.observations (r.ingestArgs observationId) s.db
      rw [← AuthenticatedRequest.ingestSeeing_snd] at heff
      exact ⟨_, heff⟩

/-- Only a call can add to the identities begun. -/
theorem Action.exec_began (action : Action) (s : Service) :
    (∃ c, action = .call c) ∨ (action.exec decode s).began = s.began := by
  cases action with
  | call c => exact .inl ⟨c, rfl⟩
  | authenticate request peer receivedAt =>
    simp only [Action.exec]
    split <;> exact .inr rfl
  | ingest k observationId =>
    simp only [Action.exec]
    split <;> exact .inr rfl

/-- The invariant of a run. -/
structure Service.Ok (s : Service) : Prop extends RowsOk s.db where
  begun : ∀ id ∈ s.began, ∃ i, s.db.identityById id = some i ∧ Begun i (s.db.ownLog id)

variable {decode} {s : Service}

theorem Service.Ok.init : Service.Ok {} := ⟨.empty, by simp⟩

/-- A change of the database keeps the invariant, for the identities begun so far. -/
theorem Service.Ok.effect (h : s.Ok) {msg : Option IngestArgs} {db' : Db} (heff : Effect msg s.db db')
    (inFlight : List AuthenticatedRequest) : Service.Ok ⟨db', inFlight, s.began⟩ := by
  refine ⟨h.toRowsOk.effect heff, fun id hid => ?_⟩
  obtain ⟨i, hi, hb⟩ := h.begun id hid
  obtain ⟨j, hj, hstep⟩ := heff.rowStep hi
  exact ⟨j, hj, .step (h.rows id i hi) hb hstep⟩

/-- The identity a grant was exchanged for. -/
theorem Exchanged.identityById {a : ConsumeArgs} {status : EndpointLifecycle} {g : EnrollmentGrant}
    {db db' : Db} (h : Exchanged a status g db db') :
    db'.identityById a.identityId = some (a.identity status) := by
  have hnone : db.endpointIdentities.find? (·.identityId == a.identityId) = none := by
    rw [List.find?_eq_none]
    intro x hx
    have hne : x.identityId ≠ a.identityId := (h.enrollable.identity x hx).1
    simpa using hne
  obtain ⟨events, rfl⟩ := h.after
  rw [Db.identityById, Db.find_append, hnone, Option.none_or]
  exact if_pos rfl

/-- What `begin_endpoint_enrollment` returns is pending or issued afterwards. -/
theorem beginEndpointEnrollment_returns {a : ConsumeArgs} {db : Db} {e : Endpoint} {x : EndpointIdentity}
    (h : (beginEndpointEnrollment a db).1 = .ok (e, x)) :
    ∃ i, (beginEndpointEnrollment a db).2.identityById x.identityId = some i ∧
      (i.status = .pending ∨ i.status = .issued) := by
  unfold beginEndpointEnrollment at h ⊢
  obtain ⟨⟨_, herr⟩, -⟩ | ⟨g, e', i, hd, hok, hlog⟩ | ⟨g, hok, hex⟩ :=
    consumeGrantWith_cases a .pending true db
  · rw [herr] at h
    cases h
  · rw [hok] at h
    cases h
    obtain ⟨-, -, -, -, -, id, -, hres⟩ := consumeDecision_resume hd
    obtain ⟨hjoin, -, hs⟩ := Db.resumable_some.mp hres
    obtain ⟨hi, -⟩ := Db.identityJoin_some.mp hjoin
    obtain ⟨events, hdb⟩ := hlog
    rw [hdb, (Db.identityById_some hi).2]
    exact ⟨i, hi, hs⟩
  · rw [hok] at h
    cases h
    exact ⟨a.identity .pending, hex.identityById, .inl rfl⟩

theorem Service.Ok.exec (h : s.Ok) (action : Action) : (action.exec decode s).Ok := by
  obtain ⟨msg, heff⟩ := action.exec_effect decode s
  have hdb := h.effect heff []
  refine ⟨hdb.toRowsOk, fun id hid => ?_⟩
  obtain ⟨c, rfl⟩ | hbegan := action.exec_began decode s
  · rcases List.mem_append.mp hid with hid | hid
    · exact hdb.begun id hid
    · unfold Call.begun at hid
      split at hid
      · rename_i a
        split at hid
        · rename_i e x hok
          obtain rfl := List.mem_singleton.mp hid
          obtain ⟨i, hi, hs⟩ := beginEndpointEnrollment_returns hok
          exact ⟨i, hi, (hdb.rows _ i hi).begun hs⟩
        · cases hid
      · cases hid
  · exact hdb.begun id (hbegan ▸ hid)

theorem Service.Ok.run (h : s.Ok) (actions : List Action) : (Service.run decode actions s).Ok := by
  induction actions generalizing s with
  | nil => exact h
  | cons action actions ih => exact ih (h.exec action)

/-- A revoked identity keeps its row and its observations through every continuation. -/
theorem Service.Ok.frozen (h : s.Ok) {id : Uuid} {i : IdentityRow} (hi : s.db.identityById id = some i)
    (hr : i.status = .revoked) (more : List Action) :
    (Service.run decode more s).db.identityById id = some i ∧
      (Service.run decode more s).db.ownLog id = s.db.ownLog id := by
  induction more generalizing s with
  | nil => exact ⟨hi, rfl⟩
  | cons action more ih =>
    obtain ⟨msg, heff⟩ := action.exec_effect decode s
    obtain ⟨i', hi', hstep⟩ := heff.rowStep hi
    obtain ⟨rfl, hlog⟩ := hstep.revoked (h.rows id i hi) hr
    obtain ⟨hrow, hown⟩ := ih (h.exec action) hi'
    exact ⟨hrow, hown.trans hlog⟩

/-- The heartbeat before an inventory of the identity, in the order of the whole log. -/
theorem preceded_filter {log : List ObservationRow} {id : Uuid}
    (h : Preceded (log.filter (·.identityId = id))) {front back : List ObservationRow}
    {o : ObservationRow} (hlog : log = front ++ o :: back) (hid : o.identityId = id)
    (ho : o.observationType = .inventory) :
    ∃ x ∈ front, x.identityId = id ∧ x.observationType = .heartbeat := by
  have hsplit : log.filter (·.identityId = id) =
      front.filter (·.identityId = id) ++ o :: back.filter (·.identityId = id) := by
    rw [hlog, List.filter_append, List.filter_cons_of_pos (by simpa using hid)]
  obtain ⟨x, hx, hk⟩ := h _ o _ hsplit ho
  obtain ⟨hmem, hxid⟩ := List.mem_filter.mp hx
  exact ⟨x, hmem, by simpa using hxid, hk⟩

variable (decode)

/-- **Identity lifecycle safety**, for every run `actions` of the service, every next
action and every continuation. -/
theorem Service.lifecycle_safe (actions more : List Action) (action : Action) :
    let s := Service.run decode actions {}
    (∀ id i, s.db.identityById id = some i →
      ∃ i', (action.exec decode s).db.identityById id = some i' ∧ Edge i.status i'.status) ∧
    (∀ id i, s.db.identityById id = some i → i.status = .revoked →
      (Service.run decode more s).db.identityById id = some i ∧
      (Service.run decode more s).db.observations.filter (·.identityId = id) =
        s.db.observations.filter (·.identityId = id)) ∧
    ∀ id ∈ s.began, ∃ i, s.db.identityById id = some i ∧
      (i.status = .active → i.CertificateRecorded ∧ ∃ o ∈ s.db.observations,
        o.identityId = id ∧ o.observationType = .heartbeat ∧ i.activatedAt = some o.receivedAt) ∧
      ∀ front o back, s.db.observations = front ++ o :: back → o.identityId = id →
        o.observationType = .inventory →
          ∃ x ∈ front, x.identityId = id ∧ x.observationType = .heartbeat := by
  intro s
  have h : s.Ok := Service.Ok.init.run actions
  refine ⟨fun id i hi => ?_, fun id i hi hr => h.frozen hi hr more, fun id hid => ?_⟩
  · obtain ⟨msg, heff⟩ := action.exec_effect decode s
    obtain ⟨i', hi', hstep⟩ := heff.rowStep hi
    exact ⟨i', hi', hstep.edge (h.rows id i hi)⟩
  · obtain ⟨i, hi, hb⟩ := h.begun id hid
    refine ⟨i, hi, fun hactive => ?_, fun front o back => preceded_filter hb.preceded⟩
    obtain ⟨t, ht⟩ := Option.isSome_iff_exists.mp (hb.activated hactive)
    obtain ⟨hcert, o, ho, hk, hrecv⟩ := (h.rows id i hi).evidence t ht
    obtain ⟨hmem, hown⟩ := List.mem_filter.mp ho
    exact ⟨hcert, o, hmem, by simpa using hown, hk, by rw [hrecv, ht]⟩

end Runs

end NorthgateRmm.Server
