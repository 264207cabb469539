import NorthgateRmm.Lib.Isolation
import NorthgateRmm.Server.Ledger

/-!
# Endpoints are isolated from each other

Message IDs, fingerprints, grant tokens and certificate serials are namespaces all
endpoints share. A `Scope` is the keys some calls use. When no other call uses one
of them, the rows of the two sides stay apart (`Separated`), a call reads and
writes the rows of its own side only (`Sim`), and the unwinding theorem gives the
two-run statement.
-/

namespace NorthgateRmm.Server

open Isolation

/-! ## Keys and scopes -/

/-- A value that names one thing in a namespace all endpoints share. -/
inductive Key where
  | grant (grantId : Uuid)
  | token (sha256 : String)
  | endpoint (endpointId : Uuid)
  | identity (identityId : Uuid)
  | fingerprint (publicKeyFingerprint : String)
  | certificate (issuer serial : String)
  | message (messageId : Uuid)
  | observation (observationId : Uuid)
  deriving DecidableEq

/-- The keys a call uses: those it is given and those it generates. -/
def Call.keys : Call → List Key
  | .createEnrollmentGrant a =>
    [.grant a.grantId, .token (tokenSha256 (grantNamespace ++ a.secret))]
  | .consumeEnrollmentGrant a | .beginEndpointEnrollment a =>
    [.token (tokenSha256 a.token), .endpoint a.endpointId, .identity a.identityId,
      .fingerprint a.publicKeyFingerprint]
  | .recordIssuedEndpointIdentity a =>
    [.identity a.identityId, .certificate a.certificateIssuer a.certificateSerial]
  | .enrollSyntheticEndpoint a =>
    [.endpoint a.endpointId, .identity a.identityId, .fingerprint a.publicKeyFingerprint]
  | .authenticateEndpointCertificate a => [.endpoint a.endpointId]
  | .revokeIdentity a => [.identity a.identityId]
  | .ingestHeartbeat m | .ingestInventory m _ _ =>
    [.identity m.authenticatedIdentityId, .message m.envelope.messageId, .observation m.observationId]
  | .recordOperatorAccess _ => []

def Scope := Key → Bool

namespace Scope

def grants (S : Scope) (grantId : Uuid) : Bool := S (.grant grantId)
def tokens (S : Scope) (sha256 : String) : Bool := S (.token sha256)
def endpoints (S : Scope) (endpointId : Uuid) : Bool := S (.endpoint endpointId)
def identities (S : Scope) (identityId : Uuid) : Bool := S (.identity identityId)
def fingerprints (S : Scope) (fingerprint : String) : Bool := S (.fingerprint fingerprint)
def certificates (S : Scope) (issuer serial : String) : Bool := S (.certificate issuer serial)
def messages (S : Scope) (messageId : Uuid) : Bool := S (.message messageId)
def observations (S : Scope) (observationId : Uuid) : Bool := S (.observation observationId)

def compl (S : Scope) : Scope := fun key => !S key

@[simp] theorem compl_compl (S : Scope) : S.compl.compl = S := funext fun key => Bool.not_not (S key)

@[simp] theorem compl_grants (S : Scope) (id : Uuid) : S.compl.grants id = !S.grants id := rfl
@[simp] theorem compl_endpoints (S : Scope) (id : Uuid) : S.compl.endpoints id = !S.endpoints id := rfl
@[simp] theorem compl_identities (S : Scope) (id : Uuid) : S.compl.identities id = !S.identities id := rfl

end Scope

/-- The two databases hold the same rows of the scope. -/
structure SameView (S : Scope) (d d' : Db) : Prop where
  endpoints : d.endpoints.filter (S.endpoints ·.endpointId) = d'.endpoints.filter (S.endpoints ·.endpointId)
  identities : d.endpointIdentities.filter (S.identities ·.identityId) =
    d'.endpointIdentities.filter (S.identities ·.identityId)
  grants : d.enrollmentGrants.filter (S.grants ·.grantId) = d'.enrollmentGrants.filter (S.grants ·.grantId)
  sequences : d.messageSequences.filter (S.identities ·.identityId) =
    d'.messageSequences.filter (S.identities ·.identityId)
  observations : d.observations.filter (S.identities ·.identityId) =
    d'.observations.filter (S.identities ·.identityId)

theorem SameView.refl (S : Scope) (d : Db) : SameView S d d := ⟨rfl, rfl, rfl, rfl, rfl⟩

theorem SameView.symm {S : Scope} {d d' : Db} (h : SameView S d d') : SameView S d' d :=
  ⟨h.1.symm, h.2.symm, h.3.symm, h.4.symm, h.5.symm⟩

theorem SameView.trans {S : Scope} {d d' d'' : Db} (h : SameView S d d') (h' : SameView S d' d'') :
    SameView S d d'' :=
  ⟨h.1.trans h'.1, h.2.trans h'.2, h.3.trans h'.3, h.4.trans h'.4, h.5.trans h'.5⟩

/-- All keys of a row are on the same side. -/
structure Separated (S : Scope) (d : Db) : Prop where
  endpoint : ∀ e ∈ d.endpoints, S.identities e.identityId = S.endpoints e.endpointId
  identity : ∀ i ∈ d.endpointIdentities, S.endpoints i.endpointId = S.identities i.identityId ∧
    S.fingerprints i.publicKeyFingerprint = S.identities i.identityId ∧
    ∀ issuer serial, i.certificateIssuer = some issuer → i.certificateSerial = some serial →
      S.certificates issuer serial = S.identities i.identityId
  grant : ∀ g ∈ d.enrollmentGrants, S.tokens g.tokenSha256 = S.grants g.grantId ∧
    ∀ id, g.consumedIdentityId = some id → S.identities id = S.grants g.grantId
  observation : ∀ o ∈ d.observations, S.messages o.messageId = S.identities o.identityId ∧
    S.observations o.observationId = S.identities o.identityId

theorem Separated.empty (S : Scope) : Separated S {} := ⟨by simp, by simp, by simp, by simp⟩

theorem Separated.compl {S : Scope} {d : Db} (h : Separated S d) : Separated S.compl d where
  endpoint e he := congrArg not (h.endpoint e he)
  identity i hi :=
    ⟨congrArg not (h.identity i hi).1, congrArg not (h.identity i hi).2.1,
      fun issuer serial hs ht => congrArg not ((h.identity i hi).2.2 issuer serial hs ht)⟩
  grant g hg :=
    ⟨congrArg not (h.grant g hg).1, fun id hid => congrArg not ((h.grant g hg).2 id hid)⟩
  observation o ho :=
    ⟨congrArg not (h.observation o ho).1, congrArg not (h.observation o ho).2⟩

/-! ## One call on two databases

`d` and `d'` are the databases of the two runs in the middle of a call the scope owns,
and `base` is where `d` started: it still has the rows of everybody else. -/

structure Sim (S : Scope) (base d d' : Db) : Prop where
  separated : Separated S d
  separated' : Separated S d'
  same : SameView S d d'
  frame : SameView S.compl base d

/-- Both raise the same error, or both return, and what they return is related. -/
def Alike {β : Type} (R : β → β → Prop) : Except Error β → Except Error β → Prop
  | .ok b, .ok b' => R b b'
  | .error e, .error e' => e = e'
  | _, _ => False

theorem Alike.bind {β γ : Type} {R : β → β → Prop} {R' : γ → γ → Prop} {x x' : Except Error β}
    {f f' : β → Except Error γ} (h : Alike R x x') (hf : ∀ b b', R b b' → Alike R' (f b) (f' b')) :
    Alike R' (x >>= f) (x' >>= f') := by
  cases x <;> cases x'
  · exact h
  · exact h.elim
  · exact h.elim
  · exact hf _ _ h

/-- The same answer, and related databases. -/
def Agree {α : Type} (S : Scope) (base : Db) (out out' : Except Error α × Db) : Prop :=
  out.1 = out'.1 ∧ Sim S base out.2 out'.2

section Statements

variable {S : Scope} {base d d' : Db}

theorem Sim.audit (h : Sim S base d d') (events events' : List AuditEvent) :
    Sim S base { d with auditEvents := events } { d' with auditEvents := events' } where
  separated := ⟨h.separated.1, h.separated.2, h.separated.3, h.separated.4⟩
  separated' := ⟨h.separated'.1, h.separated'.2, h.separated'.3, h.separated'.4⟩
  same := ⟨h.same.1, h.same.2, h.same.3, h.same.4, h.same.5⟩
  frame := ⟨h.frame.1, h.frame.2, h.frame.3, h.frame.4, h.frame.5⟩

theorem Sim.insertAudit (h : Sim S base d d') (event : AuditEvent) :
    Alike (Sim S base) (d.insertAudit event) (d'.insertAudit event) := by
  unfold Db.insertAudit
  cases varchar 256 event.actorId with
  | error e => rfl
  | ok _ =>
  cases varchar 256 event.subject with
  | error e => rfl
  | ok _ =>
  cases varchar 128 event.action with
  | error e => rfl
  | ok _ =>
  cases varchar 512 event.reason with
  | error e => rfl
  | ok _ =>
    simp only [bind, Except.bind]
    split
    · exact h.audit _ _
    · rfl

theorem Sim.insertEndpoint (h : Sim S base d d') {e : Endpoint} (he : S.endpoints e.endpointId = true)
    (hi : S.identities e.identityId = true) :
    Alike (Sim S base) (d.insertEndpoint e) (d'.insertEndpoint e) := by
  have hkeys : ∀ d : Db, Separated S d → ∀ x ∈ d.endpoints,
      (x.endpointId == e.endpointId || x.identityId == e.identityId) = true →
        S.endpoints x.endpointId = true := by
    intro d hd x hx hq
    simp only [Bool.or_eq_true, beq_iff_eq] at hq
    rcases hq with hq | hq
    · rw [hq, he]
    · rw [← hd.endpoint x hx, hq, hi]
  unfold Db.insertEndpoint
  rw [any_eq h.same.endpoints (hkeys d h.separated) (hkeys d' h.separated')]
  split
  · rfl
  split
  · rfl
  have hadd : ∀ d : Db, Separated S d → Separated S { d with endpoints := d.endpoints ++ [e] } :=
    fun d hd => ⟨by
      intro x hx
      rcases List.mem_append.mp hx with hx | hx
      · exact hd.endpoint x hx
      · rw [List.mem_singleton.mp hx, he, hi], hd.2, hd.3, hd.4⟩
  exact {
    separated := hadd d h.separated
    separated' := hadd d' h.separated'
    same := { h.same with endpoints := filter_insert h.same.endpoints e }
    frame := { h.frame with
      endpoints := h.frame.endpoints.trans (filter_insert_foreign (by simp [he])) } }

theorem Sim.insertIdentity (h : Sim S base d d') {i : IdentityRow} (hid : S.identities i.identityId = true)
    (he : S.endpoints i.endpointId = true) (hf : S.fingerprints i.publicKeyFingerprint = true)
    (hcert : i.certificateIssuer = none) :
    Alike (Sim S base) (d.insertIdentity i) (d'.insertIdentity i) := by
  have hkeys : ∀ d : Db, Separated S d → ∀ x ∈ d.endpointIdentities,
      (x.identityId == i.identityId || x.publicKeyFingerprint == i.publicKeyFingerprint) = true →
        S.identities x.identityId = true := by
    intro d hd x hx hq
    simp only [Bool.or_eq_true, beq_iff_eq] at hq
    rcases hq with hq | hq
    · rw [hq, hid]
    · rw [← (hd.identity x hx).2.1, hq, hf]
  unfold Db.insertIdentity
  rw [any_eq h.same.identities (hkeys d h.separated) (hkeys d' h.separated')]
  split
  · rfl
  have hadd : ∀ d : Db, Separated S d →
      Separated S { d with endpointIdentities := d.endpointIdentities ++ [i] } :=
    fun d hd => ⟨hd.1, by
      intro x hx
      rcases List.mem_append.mp hx with hx | hx
      · exact hd.identity x hx
      · rw [List.mem_singleton.mp hx, hid, he, hf, hcert]
        exact ⟨rfl, rfl, nofun⟩, hd.3, hd.4⟩
  exact {
    separated := hadd d h.separated
    separated' := hadd d' h.separated'
    same := { h.same with identities := filter_insert h.same.identities i }
    frame := { h.frame with
      identities := h.frame.identities.trans (filter_insert_foreign (by simp [hid])) } }

theorem Sim.insertGrant (h : Sim S base d d') {g : EnrollmentGrant} (hg : S.grants g.grantId = true)
    (ht : S.tokens g.tokenSha256 = true) (hnone : g.consumedIdentityId = none) :
    Alike (Sim S base) (d.insertGrant g) (d'.insertGrant g) := by
  have hkeys : ∀ d : Db, Separated S d → ∀ x ∈ d.enrollmentGrants,
      (x.grantId == g.grantId || x.tokenSha256 == g.tokenSha256) = true → S.grants x.grantId = true := by
    intro d hd x hx hq
    simp only [Bool.or_eq_true, beq_iff_eq] at hq
    rcases hq with hq | hq
    · rw [hq, hg]
    · rw [← (hd.grant x hx).1, hq, ht]
  unfold Db.insertGrant
  rw [any_eq h.same.grants (hkeys d h.separated) (hkeys d' h.separated')]
  split
  · rfl
  split
  · rfl
  have hadd : ∀ d : Db, Separated S d →
      Separated S { d with enrollmentGrants := d.enrollmentGrants ++ [g] } :=
    fun d hd => ⟨hd.1, hd.2, by
      intro x hx
      rcases List.mem_append.mp hx with hx | hx
      · exact hd.grant x hx
      · rw [List.mem_singleton.mp hx, hg, ht, hnone]
        exact ⟨rfl, nofun⟩, hd.4⟩
  exact {
    separated := hadd d h.separated
    separated' := hadd d' h.separated'
    same := { h.same with grants := filter_insert h.same.grants g }
    frame := { h.frame with
      grants := h.frame.grants.trans (filter_insert_foreign (by simp [hg])) } }

theorem Sim.consumeGrant (h : Sim S base d d') {grantId identityId : Uuid} (now : Instant)
    (hg : S.grants grantId = true) (hid : S.identities identityId = true) :
    Alike (Sim S base) (d.consumeGrant grantId now identityId) (d'.consumeGrant grantId now identityId) := by
  have hkeys : ∀ d : Db, Separated S d → ∀ x ∈ d.enrollmentGrants,
      (x.consumedIdentityId == some identityId) = true → S.grants x.grantId = true := by
    intro d hd x hx hq
    rw [← (hd.grant x hx).2 identityId (by simpa using hq), hid]
  have hkey : ∀ x, (Db.consumed grantId now identityId x).grantId = x.grantId := fun x => by
    unfold Db.consumed
    split <;> rfl
  unfold Db.consumeGrant
  rw [any_eq h.same.grants (hkeys d h.separated) (hkeys d' h.separated')]
  split
  · rfl
  have hset : ∀ d : Db, Separated S d → Separated S { d with
      enrollmentGrants := d.enrollmentGrants.map (Db.consumed grantId now identityId) } :=
    fun d hd => ⟨hd.1, hd.2, by
      intro x hx
      obtain ⟨g, hmem, rfl⟩ := List.mem_map.mp hx
      rw [hkey]
      unfold Db.consumed
      split
      · rename_i hc
        refine ⟨(hd.grant g hmem).1, fun id hsome => ?_⟩
        rw [hc.1, hg, ← Option.some.inj hsome, hid]
      · exact hd.grant g hmem, hd.4⟩
  exact {
    separated := hset d h.separated
    separated' := hset d' h.separated'
    same := { h.same with grants := filter_update (fun x => by rw [hkey]) h.same.grants }
    frame := { h.frame with
      grants := h.frame.grants.trans (filter_update_foreign (fun x => by rw [hkey]) fun x hx =>
        if_neg fun hc => by simp [hc.1, hg] at hx) } }

variable {id : Uuid}

/-- An update of an owned identity row that keeps its keys, or takes an owned certificate. -/
theorem Sim.updateIdentity (h : Sim S base d d') (hid : S.identities id = true)
    {f : IdentityRow → IdentityRow}
    (hkeys : ∀ i, (f i).identityId = i.identityId ∧ (f i).endpointId = i.endpointId ∧
      (f i).publicKeyFingerprint = i.publicKeyFingerprint)
    (hcert : ∀ i issuer serial, (f i).certificateIssuer = some issuer →
      (f i).certificateSerial = some serial →
        (i.certificateIssuer = some issuer ∧ i.certificateSerial = some serial) ∨
          S.certificates issuer serial = true) :
    Sim S base (d.updateIdentity id f) (d'.updateIdentity id f) := by
  have hkey : ∀ i : IdentityRow, (if i.identityId = id then f i else i).identityId = i.identityId := by
    intro i
    split
    · exact (hkeys i).1
    · rfl
  have hset : ∀ d : Db, Separated S d → Separated S (d.updateIdentity id f) :=
    fun d hd => ⟨hd.1, by
      intro x hx
      obtain ⟨i, hmem, rfl⟩ := List.mem_map.mp hx
      rw [hkey]
      split
      · rename_i hc
        obtain ⟨-, hend, hfp⟩ := hkeys i
        rw [hend, hfp]
        refine ⟨(hd.identity i hmem).1, (hd.identity i hmem).2.1, fun issuer serial hi hs => ?_⟩
        rcases hcert i issuer serial hi hs with ⟨hi, hs⟩ | hc'
        · exact (hd.identity i hmem).2.2 issuer serial hi hs
        · rw [hc', hc, hid]
      · exact hd.identity i hmem, hd.3, hd.4⟩
  exact {
    separated := hset d h.separated
    separated' := hset d' h.separated'
    same := { h.same with identities := filter_update (fun x => by rw [hkey]) h.same.identities }
    frame := { h.frame with
      identities := h.frame.identities.trans (filter_update_foreign (fun x => by rw [hkey]) fun x hx =>
        if_neg fun hc => by simp [hc, hid] at hx) } }

theorem Sim.issueIdentity (h : Sim S base d d') {serial issuer : String}
    (notBefore notAfter : Instant) (hid : S.identities id = true)
    (hcert : S.certificates issuer serial = true) :
    Alike (Sim S base) (d.issueIdentity id serial issuer notBefore notAfter)
      (d'.issueIdentity id serial issuer notBefore notAfter) := by
  have hkeys : ∀ d : Db, Separated S d → ∀ x ∈ d.endpointIdentities, (x.identityId != id &&
      x.certificateIssuer == some issuer && x.certificateSerial == some serial) = true →
        S.identities x.identityId = true := by
    intro d hd x hx hq
    simp only [Bool.and_eq_true, beq_iff_eq] at hq
    rw [← (hd.identity x hx).2.2 issuer serial hq.1.2 hq.2, hcert]
  unfold Db.issueIdentity
  rw [any_eq h.same.identities (hkeys d h.separated) (hkeys d' h.separated')]
  split
  · rfl
  split
  · rfl
  refine h.updateIdentity hid (fun i => ⟨rfl, rfl, rfl⟩) fun i issuer' serial' hi hs => .inr ?_
  cases hi
  cases hs
  exact hcert

theorem Sim.revokeRow (h : Sim S base d d') (now : Instant) (reason : String)
    (hid : S.identities id = true) :
    Alike (Sim S base) (d.revokeRow id now reason) (d'.revokeRow id now reason) := by
  unfold Db.revokeRow
  split
  · rfl
  · exact h.updateIdentity hid (fun i => ⟨rfl, rfl, rfl⟩) fun i issuer serial hi hs => .inl ⟨hi, hs⟩

theorem Sim.activateIdentity (h : Sim S base d d') (receivedAt : Instant)
    (hid : S.identities id = true) :
    Alike (Sim S base) (d.activateIdentity id receivedAt) (d'.activateIdentity id receivedAt) := by
  have hkeys : ∀ d : Db, ∀ x ∈ d.endpointIdentities, (x.identityId == id && x.status == .issued &&
      receivedAt < x.createdAt) = true → S.identities x.identityId = true := by
    intro d x _ hq
    simp only [Bool.and_eq_true, beq_iff_eq] at hq
    rw [hq.1.1, hid]
  unfold Db.activateIdentity
  rw [any_eq h.same.identities (hkeys d) (hkeys d')]
  split
  · rfl
  · refine h.updateIdentity hid (fun i => ?_) fun i issuer serial hi hs => .inl ?_
    · unfold Db.activated
      split <;> exact ⟨rfl, rfl, rfl⟩
    · unfold Db.activated at hi hs
      split at hi <;> simp_all

theorem Sim.touchEndpoint (h : Sim S base d d') {endpointId : Uuid} (kind : ObservationType)
    (receivedAt : Instant) (he : S.endpoints endpointId = true) :
    Sim S base (d.touchEndpoint endpointId kind receivedAt) (d'.touchEndpoint endpointId kind receivedAt) := by
  have hkey : ∀ e : Endpoint, (if e.endpointId = endpointId then Db.touched kind receivedAt e else e).endpointId =
      e.endpointId := by
    intro e
    split <;> rfl
  have hset : ∀ d : Db, Separated S d → Separated S (d.touchEndpoint endpointId kind receivedAt) :=
    fun d hd => ⟨by
      intro x hx
      obtain ⟨e, hmem, rfl⟩ := List.mem_map.mp hx
      rw [hkey, ← hd.endpoint e hmem]
      split <;> rfl, hd.2, hd.3, hd.4⟩
  exact {
    separated := hset d h.separated
    separated' := hset d' h.separated'
    same := { h.same with endpoints := filter_update (fun x => by rw [hkey]) h.same.endpoints }
    frame := { h.frame with
      endpoints := h.frame.endpoints.trans (filter_update_foreign (fun x => by rw [hkey]) fun x hx =>
        if_neg fun hc => by simp [hc, he] at hx) } }

theorem Sim.insertObservation (h : Sim S base d d') {o : ObservationRow}
    (hid : S.identities o.identityId = true) (hm : S.messages o.messageId = true)
    (ho : S.observations o.observationId = true) :
    Alike (Sim S base) (d.insertObservation o) (d'.insertObservation o) := by
  have hkeys : ∀ d : Db, Separated S d → ∀ x ∈ d.observations,
      (x.observationId == o.observationId || x.messageId == o.messageId ||
        (x.identityId == o.identityId && x.bootId == o.bootId && x.sequence == o.sequence)) = true →
        S.identities x.identityId = true := by
    intro d hd x hx hq
    simp only [Bool.or_eq_true, Bool.and_eq_true, beq_iff_eq] at hq
    rcases hq with (hq | hq) | hq
    · rw [← (hd.observation x hx).2, hq, ho]
    · rw [← (hd.observation x hx).1, hq, hm]
    · rw [hq.1.1, hid]
  unfold Db.insertObservation
  rw [any_eq h.same.observations (hkeys d h.separated) (hkeys d' h.separated')]
  split
  · rfl
  have hadd : ∀ d : Db, Separated S d → Separated S { d with observations := d.observations ++ [o] } :=
    fun d hd => ⟨hd.1, hd.2, hd.3, by
      intro x hx
      rcases List.mem_append.mp hx with hx | hx
      · exact hd.observation x hx
      · rw [List.mem_singleton.mp hx, hid, hm, ho]
        exact ⟨rfl, rfl⟩⟩
  exact {
    separated := hadd d h.separated
    separated' := hadd d' h.separated'
    same := { h.same with observations := filter_insert h.same.observations o }
    frame := { h.frame with
      observations := h.frame.observations.trans
        (filter_insert_foreign (by simp [hid])) } }

/-! ## Lookups -/

theorem Sim.identityById (h : Sim S base d d') (hid : S.identities id = true) :
    d.identityById id = d'.identityById id := by
  have hq : ∀ x : IdentityRow, (x.identityId == id) = true → S.identities x.identityId = true :=
    fun x hx => by rw [beq_iff_eq.mp hx, hid]
  exact find?_eq h.same.identities (fun x _ => hq x) fun x _ => hq x

theorem Sim.endpointById (h : Sim S base d d') (hid : S.endpoints id = true) :
    d.endpointById id = d'.endpointById id := by
  have hq : ∀ x : Endpoint, (x.endpointId == id) = true → S.endpoints x.endpointId = true :=
    fun x hx => by rw [beq_iff_eq.mp hx, hid]
  exact find?_eq h.same.endpoints (fun x _ => hq x) fun x _ => hq x

/-- The identity row found has an owned endpoint. -/
theorem Sim.endpoint_owned (h : Sim S base d d') (hid : S.identities id = true)
    {i : IdentityRow} (hi : d.identityById id = some i) : S.endpoints i.endpointId = true := by
  obtain ⟨hmem, hkey⟩ := Db.identityById_some hi
  rw [(h.separated.identity i hmem).1, hkey, hid]

theorem Sim.identityJoin (h : Sim S base d d') (hid : S.identities id = true) :
    d.identityJoin id = d'.identityJoin id := by
  unfold Db.identityJoin
  rw [← h.identityById hid]
  cases hi : d.identityById id with
  | none => rfl
  | some i =>
    simp only [bind, Option.bind_some]
    rw [h.endpointById (h.endpoint_owned hid hi)]

theorem Sim.resumable (h : Sim S base d d') (hid : S.identities id = true) :
    d.resumable id = d'.resumable id := by
  unfold Db.resumable
  rw [h.identityJoin hid]

theorem Sim.certificateJoin (h : Sim S base d d') {endpointId : Uuid} (fingerprint : String)
    (he : S.endpoints endpointId = true) :
    d.certificateJoin endpointId fingerprint = d'.certificateJoin endpointId fingerprint := by
  have hkeys : ∀ d : Db, Separated S d → ∀ x ∈ d.endpointIdentities,
      (x.endpointId == endpointId && x.publicKeyFingerprint == fingerprint) = true →
        S.identities x.identityId = true := by
    intro d hd x hx hq
    simp only [Bool.and_eq_true, beq_iff_eq] at hq
    rw [← (hd.identity x hx).1, hq.1, he]
  unfold Db.certificateJoin
  rw [← find?_eq h.same.identities (hkeys d h.separated) (hkeys d' h.separated')]
  cases hi : d.endpointIdentities.find? fun i =>
      i.endpointId == endpointId && i.publicKeyFingerprint == fingerprint with
  | none => rfl
  | some i =>
    have hkey := List.find?_some hi
    simp only [Bool.and_eq_true, beq_iff_eq] at hkey
    simp only [bind, Option.bind_some]
    rw [h.endpointById (by rw [hkey.1, he])]

theorem Sim.grantByToken (h : Sim S base d d') {token : String} (ht : S.tokens token = true) :
    d.grantByToken token = d'.grantByToken token := by
  have hkeys : ∀ d : Db, Separated S d → ∀ x ∈ d.enrollmentGrants, (x.tokenSha256 == token) = true →
      S.grants x.grantId = true := by
    intro d hd x hx hq
    rw [← (hd.grant x hx).1, beq_iff_eq.mp hq, ht]
  exact find?_eq h.same.grants (hkeys d h.separated) (hkeys d' h.separated')

theorem Sim.seen (h : Sim S base d d') {messageId : Uuid} (hm : S.messages messageId = true) :
    d.observations.find? (·.messageId == messageId) = d'.observations.find? (·.messageId == messageId) := by
  have hkeys : ∀ d : Db, Separated S d → ∀ x ∈ d.observations, (x.messageId == messageId) = true →
      S.identities x.identityId = true := by
    intro d hd x hx hq
    rw [← (hd.observation x hx).1, beq_iff_eq.mp hq, hm]
  exact find?_eq h.same.observations (hkeys d h.separated) (hkeys d' h.separated')

/-- Both upserts are refused, or both go through. -/
theorem Sim.upsertSequence (h : Sim S base d d') (bootId : Uuid) (sequence : Nat)
    (hid : S.identities id = true) :
    (d.upsertSequence id bootId sequence = none ∧ d'.upsertSequence id bootId sequence = none) ∨
      ∃ x x', d.upsertSequence id bootId sequence = some x ∧
        d'.upsertSequence id bootId sequence = some x' ∧ Sim S base x x' := by
  have hq : ∀ x : SequenceRow, (x.identityId == id && x.bootId == bootId) = true →
      S.identities x.identityId = true := by
    intro x hx
    simp only [Bool.and_eq_true, beq_iff_eq] at hx
    rw [hx.1, hid]
  have hlast : d.lastSequence id bootId = d'.lastSequence id bootId := by
    unfold Db.lastSequence
    rw [find?_eq h.same.sequences (fun x _ => hq x) fun x _ => hq x]
  have hset : ∀ rows rows' : List SequenceRow,
      rows.filter (S.identities ·.identityId) = rows'.filter (S.identities ·.identityId) →
      base.messageSequences.filter (S.compl.identities ·.identityId) =
        rows.filter (S.compl.identities ·.identityId) →
      Sim S base { d with messageSequences := rows } { d' with messageSequences := rows' } :=
    fun rows rows' hsame hframe => {
      separated := ⟨h.separated.1, h.separated.2, h.separated.3, h.separated.4⟩
      separated' := ⟨h.separated'.1, h.separated'.2, h.separated'.3, h.separated'.4⟩
      same := { h.same with sequences := hsame }
      frame := { h.frame with sequences := hframe } }
  unfold Db.upsertSequence
  rw [← hlast]
  cases d.lastSequence id bootId with
  | none =>
    exact .inr ⟨_, _, rfl, rfl, hset _ _ (filter_insert h.same.sequences _)
      (h.frame.sequences.trans (filter_insert_foreign (by simp [hid])))⟩
  | some last =>
    dsimp only
    split
    · have hkey : ∀ r : SequenceRow, (if r.identityId = id ∧ r.bootId = bootId then
          { r with lastSequence := sequence } else r).identityId = r.identityId := by
        intro r
        split <;> rfl
      exact .inr ⟨_, _, rfl, rfl, hset _ _ (filter_update (fun x => by rw [hkey]) h.same.sequences)
        (h.frame.sequences.trans (filter_update_foreign (fun x => by rw [hkey]) fun x hx =>
          if_neg fun hc => by simp [hc.1, hid] at hx))⟩
    · exact .inl ⟨rfl, rfl⟩

end Statements

/-! ## Operations -/

section Operations

variable {S : Scope} {base d d' : Db} {α : Type}

theorem Sim.raise (h : Sim S base d d') (e : Error) :
    Agree S base ((.error e : Except Error α), d) ((.error e : Except Error α), d') := ⟨rfl, h⟩

theorem Sim.transaction (h : Sim S base d d') {body body' : Except Error (Except Error α × Db)}
    (hb : Alike (Agree S base) body body') :
    Agree S base (Server.transaction d body) (Server.transaction d' body') := by
  cases body <;> cases body'
  · rw [show _ = _ from hb]
    exact h.raise _
  · exact hb.elim
  · exact hb.elim
  · exact hb

/-- An audit event and then a fixed answer. -/
theorem Sim.auditThen (h : Sim S base d d') (event : AuditEvent) (r : Except Error α) :
    Alike (Agree S base) (do let x ← d.insertAudit event; return (r, x))
      (do let x ← d'.insertAudit event; return (r, x)) :=
  (h.insertAudit event).bind fun _ _ hx => ⟨rfl, hx⟩

theorem Sim.onUniqueViolation (h : Sim S base d d') (event : AuditEvent) (raised : Error)
    {body body' : Except Error (Except Error α × Db)} (hb : Alike (Agree S base) body body') :
    Agree S base (Server.onUniqueViolation event raised d body)
      (Server.onUniqueViolation event raised d' body') := by
  cases body <;> cases body'
  · rw [show _ = _ from hb]
    unfold Server.onUniqueViolation
    split
    · exact h.transaction (h.auditThen event (.error raised))
    · exact h.raise _
  · exact hb.elim
  · exact hb.elim
  · exact hb

theorem Sim.createEnrollmentGrant (h : Sim S base d d') (a : CreateGrantArgs)
    (hg : S.grants a.grantId = true) (ht : S.tokens (tokenSha256 (grantNamespace ++ a.secret)) = true) :
    Agree S base (Server.createEnrollmentGrant a d) (Server.createEnrollmentGrant a d') := by
  unfold Server.createEnrollmentGrant
  dsimp only
  split
  · exact h.raise _
  · exact h.transaction ((h.insertGrant hg ht rfl).bind fun x x' hx => hx.auditThen _ _)

theorem Sim.consumeDecision (h : Sim S base d d') {a : ConsumeArgs} (retry : Bool)
    (ht : S.tokens (tokenSha256 a.token) = true) :
    Server.consumeDecision a retry d = Server.consumeDecision a retry d' := by
  unfold Server.consumeDecision
  rw [← h.grantByToken ht]
  cases hg : d.grantByToken (tokenSha256 a.token) with
  | none => rfl
  | some g =>
    have hmem := List.mem_of_find?_eq_some hg
    have hkey : g.tokenSha256 = tokenSha256 a.token := by simpa using List.find?_some hg
    have hbind : g.consumedIdentityId.bind d.resumable = g.consumedIdentityId.bind d'.resumable := by
      cases hid : g.consumedIdentityId with
      | none => rfl
      | some id =>
        -- a grant is bound to an identity of its own side
        have hside := (h.separated.grant g hmem).2 id hid
        rw [← (h.separated.grant g hmem).1, hkey, ht] at hside
        exact h.resumable hside
    dsimp only
    rw [hbind]

theorem Sim.exchangeGrant (h : Sim S base d d') {a : ConsumeArgs} (status : EndpointLifecycle)
    {g : EnrollmentGrant} (hg : S.grants g.grantId = true) (he : S.endpoints a.endpointId = true)
    (hid : S.identities a.identityId = true) (hf : S.fingerprints a.publicKeyFingerprint = true) :
    Alike (Agree S base) (Server.exchangeGrant a status g d) (Server.exchangeGrant a status g d') := by
  unfold Server.exchangeGrant
  dsimp only
  split
  · rfl
  · refine (h.insertEndpoint he hid).bind fun x x' hx => ?_
    refine (hx.insertIdentity hid he hf rfl).bind fun y y' hy => ?_
    refine (hy.consumeGrant a.now hg hid).bind fun z z' hz => ?_
    exact (hz.insertAudit _).bind fun w w' hw => hw.auditThen _ _

theorem Sim.consumeGrantWith (h : Sim S base d d') {a : ConsumeArgs} (status : EndpointLifecycle)
    (retry : Bool) (ht : S.tokens (tokenSha256 a.token) = true) (he : S.endpoints a.endpointId = true)
    (hid : S.identities a.identityId = true) (hf : S.fingerprints a.publicKeyFingerprint = true) :
    Agree S base (Server.consumeGrantWith a status retry d) (Server.consumeGrantWith a status retry d') := by
  unfold Server.consumeGrantWith
  rw [← h.consumeDecision retry ht]
  split
  · exact h.raise _
  · cases hd : Server.consumeDecision a retry d with
    | reject grant reason => exact h.transaction (h.auditThen _ _)
    | resume g e i => exact h.transaction (h.auditThen _ _)
    | fresh g =>
      obtain ⟨hfound, -⟩ := consumeDecision_fresh hd
      have hkey : g.tokenSha256 = tokenSha256 a.token := by simpa using List.find?_some hfound
      have hg : S.grants g.grantId = true := by
        rw [← (h.separated.grant g (List.mem_of_find?_eq_some hfound)).1, hkey, ht]
      exact h.onUniqueViolation _ _ (h.exchangeGrant status hg he hid hf)

theorem Sim.recordIssuedEndpointIdentity (h : Sim S base d d') (a : IssueArgs)
    (hid : S.identities a.identityId = true)
    (hcert : S.certificates a.certificateIssuer a.certificateSerial = true) :
    Agree S base (Server.recordIssuedEndpointIdentity a d) (Server.recordIssuedEndpointIdentity a d') := by
  unfold Server.recordIssuedEndpointIdentity
  split
  · exact h.raise _
  · refine h.onUniqueViolation _ _ ?_
    unfold recordIssuedBody
    rw [← h.identityJoin hid]
    split
    · rfl
    · split
      · exact h.auditThen _ _
      · split
        · rfl
        · exact (h.issueIdentity _ _ hid hcert).bind fun x x' hx => hx.auditThen _ _

theorem Sim.enrollSyntheticEndpoint (h : Sim S base d d') (a : EnrollArgs)
    (he : S.endpoints a.endpointId = true) (hid : S.identities a.identityId = true)
    (hf : S.fingerprints a.publicKeyFingerprint = true) :
    Agree S base (Server.enrollSyntheticEndpoint a d) (Server.enrollSyntheticEndpoint a d') := by
  unfold Server.enrollSyntheticEndpoint
  split
  · exact h.raise _
  · refine h.onUniqueViolation _ _ ?_
    refine (h.insertEndpoint he hid).bind fun x x' hx => ?_
    exact (hx.insertIdentity hid he hf rfl).bind fun y y' hy => hy.auditThen _ _

theorem Sim.authenticateEndpointCertificate (h : Sim S base d d') (a : AuthenticateArgs)
    (he : S.endpoints a.endpointId = true) :
    Agree S base (Server.authenticateEndpointCertificate a d)
      (Server.authenticateEndpointCertificate a d') := by
  unfold Server.authenticateEndpointCertificate
  dsimp only
  rw [← h.certificateJoin a.publicKeyFingerprint he]
  split <;> exact ⟨rfl, h.audit _ _⟩

theorem Sim.revokeIdentity (h : Sim S base d d') (a : RevokeArgs)
    (hid : S.identities a.identityId = true) :
    Agree S base (Server.revokeIdentity a d) (Server.revokeIdentity a d') := by
  unfold Server.revokeIdentity
  split
  · exact h.raise _
  · refine h.transaction ?_
    unfold revokeBody
    rw [← h.identityById hid]
    split
    · rfl
    · split
      · exact h.auditThen _ _
      · dsimp only
        split
        · rfl
        · exact (h.revokeRow _ _ hid).bind fun x x' hx => hx.auditThen _ _

theorem Sim.activateOnHeartbeat (h : Sim S base d d') (a : IngestArgs) {i : IdentityRow}
    (hid : S.identities i.identityId = true) :
    Alike (Sim S base) (Server.activateOnHeartbeat a i d) (Server.activateOnHeartbeat a i d') := by
  unfold Server.activateOnHeartbeat
  split
  · exact h
  · refine (h.activateIdentity a.receivedAt hid).bind fun x x' hx => ?_
    split
    · exact hx.audit _ _
    · exact hx

theorem Sim.acceptObservation (h : Sim S base d d') {a : IngestArgs} {i : IdentityRow}
    (ha : S.identities a.authenticatedIdentityId = true) (hid : S.identities i.identityId = true)
    (he : S.endpoints i.endpointId = true) (hm : S.messages a.envelope.messageId = true)
    (ho : S.observations a.observationId = true) :
    Alike (Agree S base) (Server.acceptObservation a i d) (Server.acceptObservation a i d') := by
  unfold Server.acceptObservation
  dsimp only
  split
  · rfl
  · refine (h.insertObservation ha hm ho).bind fun x x' hx => ?_
    exact ((hx.touchEndpoint a.observationType a.receivedAt he).activateOnHeartbeat a hid).bind
      fun y y' hy => ⟨rfl, hy.audit _ _⟩

theorem Sim.ingest (h : Sim S base d d') {a : IngestArgs}
    (ha : S.identities a.authenticatedIdentityId = true) (hm : S.messages a.envelope.messageId = true)
    (ho : S.observations a.observationId = true) :
    Agree S base (ingestSeeing d.observations a d) (ingestSeeing d'.observations a d') := by
  refine h.onUniqueViolation _ _ ?_
  unfold ingestBody ingestDecision
  rw [← h.identityJoin ha, ← h.seen hm]
  cases hjoin : d.identityJoin a.authenticatedIdentityId with
  | none => exact ⟨rfl, h.audit _ _⟩
  | some row =>
  obtain ⟨i, e⟩ := row
  dsimp only
  cases firstFailure (a.identityChecks i e) with
  | some err => exact ⟨rfl, h.audit _ _⟩
  | none =>
  cases d.observations.find? (·.messageId == a.envelope.messageId) with
  | some existing =>
    dsimp only
    by_cases hx : a.exactRetry existing = true
    · rw [if_pos hx]
      exact ⟨rfl, h.audit _ _⟩
    · rw [if_neg hx]
      exact ⟨rfl, h.audit _ _⟩
  | none =>
  cases firstFailure (a.messageChecks e) with
  | some err => exact ⟨rfl, h.audit _ _⟩
  | none =>
    obtain ⟨hn, hn'⟩ | ⟨x, x', hs, hs', hx⟩ := h.upsertSequence a.envelope.bootId a.envelope.sequence ha
    · rw [hn, hn']
      exact ⟨rfl, h.audit _ _⟩
    · rw [hs, hs']
      have hi := (Db.identityJoin_some.mp hjoin).1
      refine hx.acceptObservation ha ?_ (h.endpoint_owned ha hi) hm ho
      rw [(Db.identityById_some hi).2, ha]

end Operations

/-! ## Calls -/

theorem Agree.answering {S : Scope} {base : Db} {α : Type} {answer : α → Answer}
    {out out' : Except Error α × Db} (h : Agree S base out out') :
    Agree S base (Server.answering answer out) (Server.answering answer out') :=
  ⟨by simp only [Server.answering, h.1], h.2⟩

theorem Sim.recordOperatorAccess {S : Scope} {base d d' : Db} (h : Sim S base d d')
    (a : OperatorAccessArgs) :
    Agree S base (Server.recordOperatorAccess a d) (Server.recordOperatorAccess a d') := by
  unfold Server.recordOperatorAccess
  split
  · exact h.raise _
  · exact h.transaction (h.auditThen _ _)

/-- A call whose keys the scope owns, on two databases with the same owned rows. -/
theorem Call.perform_agree {S : Scope} {base d d' : Db} {call : Call} (h : Sim S base d d')
    (hk : ∀ key ∈ call.keys, S key = true) :
    Agree S base (call.perform d.observations d) (call.perform d'.observations d') := by
  unfold Call.perform
  cases call <;> simp only [keys, List.forall_mem_cons] at hk <;> apply Agree.answering
  case createEnrollmentGrant a => exact h.createEnrollmentGrant a hk.1 hk.2.1
  case consumeEnrollmentGrant a => exact h.consumeGrantWith .active false hk.1 hk.2.1 hk.2.2.1 hk.2.2.2.1
  case beginEndpointEnrollment a => exact h.consumeGrantWith .pending true hk.1 hk.2.1 hk.2.2.1 hk.2.2.2.1
  case recordIssuedEndpointIdentity a => exact h.recordIssuedEndpointIdentity a hk.1 hk.2.1
  case enrollSyntheticEndpoint a => exact h.enrollSyntheticEndpoint a hk.1 hk.2.1 hk.2.2.1
  case authenticateEndpointCertificate a => exact h.authenticateEndpointCertificate a hk.1
  case revokeIdentity a => exact h.revokeIdentity a hk.1
  case ingestHeartbeat m => exact h.ingest (a := m.heartbeat) hk.1 hk.2.1 hk.2.2.1
  case ingestInventory m platform architecture =>
    exact h.ingest (a := m.inventory platform architecture) hk.1 hk.2.1 hk.2.2.1
  case recordOperatorAccess a => exact h.recordOperatorAccess a

/-- A call of the other side leaves the scope's rows as they are. -/
theorem Call.perform_foreign {S : Scope} {d : Db} {call : Call} (hd : Separated S d)
    (hk : ∀ key ∈ call.keys, S key = false) :
    Separated S (call.perform d.observations d).2 ∧ SameView S d (call.perform d.observations d).2 := by
  -- to the complement the call is one of its own
  have hsim : Sim S.compl d d d := ⟨hd.compl, hd.compl, .refl _ d, .refl _ d⟩
  obtain ⟨-, hafter⟩ := Call.perform_agree hsim fun key hkey => congrArg not (hk key hkey)
  exact ⟨by simpa using hafter.separated.compl, by simpa using hafter.frame⟩

def Call.step (db : Db) (call : Call) : Except Error Answer × Db := call.perform db.observations db

theorem Call.unwinding (S : Scope) (mine : Call → Bool) :
    Unwinding Call.step mine (fun call => ∀ key ∈ call.keys, S key = mine call) (Separated S)
      (SameView S) where
  symm := SameView.symm
  trans := SameView.trans
  inv {d call} hk hd := by
    cases ho : mine call with
    | true =>
      have hsim : Sim S d d d := ⟨hd, hd, .refl _ d, .refl _ d⟩
      exact (Call.perform_agree hsim fun key hkey => (hk key hkey).trans ho).2.separated
    | false => exact (Call.perform_foreign hd fun key hkey => (hk key hkey).trans ho).1
  foreign hk hd ho := (Call.perform_foreign hd fun key hkey => (hk key hkey).trans ho).2
  owned_step {d d' call} hk hd hd' hsame ho := by
    have hsim : Sim S d d d' := ⟨hd, hd', hsame, .refl _ d⟩
    obtain ⟨hout, hafter⟩ := Call.perform_agree hsim fun key hkey => (hk key hkey).trans ho
    exact ⟨hout, hafter.same⟩

theorem Call.run_step (calls : List Call) (db : Db) : Isolation.run Call.step db calls = Call.run calls db := by
  induction calls generalizing db with
  | nil => rfl
  | cons call calls ih =>
    show Isolation.run _ (call.perform db.observations db).2 calls = _
    rw [call.perform_exec db, ih]
    rfl

/-- What the selected calls return or raise, in a run from the empty database. -/
def Call.answers (mine : Call → Bool) (calls : List Call) : List (Except Error Answer) :=
  Isolation.outputs Call.step mine {} calls

/-- The rows of one identity: its own, its endpoint's, its floors and its observations. -/
def Db.rowsOf (db : Db) (identityId : Uuid) :
    Option IdentityRow × Option (IdentityRow × Endpoint) × List SequenceRow × List ObservationRow :=
  (db.identityById identityId, db.identityJoin identityId,
    db.messageSequences.filter (·.identityId == identityId),
    db.observations.filter (·.identityId == identityId))

theorem SameView.rowsOf {S : Scope} {d d' : Db} (hd : Separated S d) (hd' : Separated S d')
    (h : SameView S d d') {identityId : Uuid} (hid : S.identities identityId = true) :
    d.rowsOf identityId = d'.rowsOf identityId := by
  have hsim : Sim S d d d' := ⟨hd, hd', h, .refl _ d⟩
  have hsub : ∀ {α : Type} (key : α → Uuid) (rows : List α),
      rows.filter (key · == identityId) = (rows.filter (S.identities <| key ·)).filter (key · == identityId) := by
    intro α key rows
    rw [List.filter_filter]
    refine List.filter_congr fun x _ => ?_
    cases hx : key x == identityId with
    | false => rfl
    | true => simp [beq_iff_eq.mp hx, hid]
  unfold Db.rowsOf
  rw [hsim.identityById hid, hsim.identityJoin hid, hsub SequenceRow.identityId, h.sequences,
    hsub ObservationRow.identityId, h.observations, ← hsub, ← hsub]

/-- The keys the selected calls use. -/
def Scope.of (mine : Call → Bool) (calls : List Call) : Scope :=
  fun key => calls.any fun call => mine call && call.keys.contains key

theorem Scope.of_eq_true {mine : Call → Bool} {calls : List Call} {key : Key} :
    Scope.of mine calls key = true ↔ ∃ call ∈ calls, mine call = true ∧ key ∈ call.keys := by
  simp [Scope.of]

/-- **Endpoints are isolated**: take two runs that make the same calls on some endpoints, in
the same order, among other calls that use none of their keys. The calls on those endpoints
are answered alike, and the rows of their identities are the same after both runs. -/
theorem Call.run_isolated (mine : Call → Bool) {calls calls' : List Call}
    (hsame : calls.filter mine = calls'.filter mine)
    (hdisjoint : ∀ call ∈ calls, mine call = true → ∀ other ∈ calls ++ calls', mine other = false →
      ∀ key ∈ call.keys, key ∉ other.keys) :
    Call.answers mine calls = Call.answers mine calls' ∧
      ∀ identityId, (∃ call ∈ calls, mine call = true ∧ .identity identityId ∈ call.keys) →
        (Call.run calls {}).rowsOf identityId = (Call.run calls' {}).rowsOf identityId := by
  have hside : ∀ call ∈ calls ++ calls', ∀ key ∈ call.keys, Scope.of mine calls key = mine call := by
    intro call hcall key hkey
    cases ho : mine call with
    | true =>
      have hmem : call ∈ calls.filter mine := by
        rcases List.mem_append.mp hcall with hc | hc
        · exact List.mem_filter.mpr ⟨hc, ho⟩
        · rw [hsame]
          exact List.mem_filter.mpr ⟨hc, ho⟩
      exact Scope.of_eq_true.mpr ⟨call, (List.mem_filter.mp hmem).1, ho, hkey⟩
    | false =>
      rw [Bool.eq_false_iff]
      intro hin
      obtain ⟨c, hc, hmine, hck⟩ := Scope.of_eq_true.mp hin
      exact hdisjoint c hc hmine call hcall ho key hck hkey
  have h := fun call hc => hside call (List.mem_append_left _ hc)
  have h' := fun call hc => hside call (List.mem_append_right _ hc)
  have hu := Call.unwinding (Scope.of mine calls) mine
  obtain ⟨hout, hview⟩ := hu.isolated h h' hsame (.empty _) (.refl _ {})
  refine ⟨hout, fun identityId hid => ?_⟩
  rw [← Call.run_step calls, ← Call.run_step calls']
  exact hview.rowsOf (hu.run_inv h (.empty _)) (hu.run_inv h' (.empty _)) (Scope.of_eq_true.mpr hid)

/-- A neighbour that enrolls first and is revoked between the calls of `utcRun`. -/
def Sample.besideNeighbour : List Call :=
  let neighbour : EnrollArgs := { Sample.enroll with
    publicKeyFingerprint := "sha256:" ++ String.ofList (List.replicate 64 'c')
    endpointId := Sample.uuid 11
    identityId := Sample.uuid 12 }
  .enrollSyntheticEndpoint neighbour :: Sample.utcRun.take 1 ++
    [.revokeIdentity ⟨neighbour.identityId, "lost", "operator", Sample.clock 6 0, Sample.uuid 13⟩] ++
    Sample.utcRun.drop 1

theorem Call.run_isolated_neighbour :
    let mine : Call → Bool := (· ∈ Sample.utcRun)
    (Call.answers mine Sample.utcRun).length = 2 ∧
      Call.answers mine Sample.utcRun = Call.answers mine Sample.besideNeighbour ∧
      (Call.run Sample.utcRun {}).rowsOf (Sample.uuid 2) =
        (Call.run Sample.besideNeighbour {}).rowsOf (Sample.uuid 2) := by
  intro mine
  obtain ⟨hout, hrows⟩ := @Call.run_isolated mine Sample.utcRun Sample.besideNeighbour
    (by decide +kernel) (by decide +kernel)
  exact ⟨by decide +kernel, hout, hrows _ (by decide +kernel)⟩

end NorthgateRmm.Server
