import NorthgateRmm.Server.Lifecycle
import NorthgateRmm.Server.Certificates

/-!
# `EnrollmentService.enroll`

An enrollment is two transactions around a call to the external issuer: the grant is
exchanged for a pending identity, the issuer answers with anything it likes, the
answer is validated, and the certificate is recorded. `Enrollments` is a database with
any number of calls waiting for their issuer, between any other transactions.
-/

namespace NorthgateRmm.Server

/-! ## One call -/

/-- What the `cryptography` library computes: opaque to the program. `verifyChain` is
the client verifier over the issuer's trust roots at a time. -/
structure X509Library where
  loadCsr : List UInt8 → Option Csr
  loadCertificate : List UInt8 → Option Certificate
  verifyChain : Instant → Certificate → List Certificate → Bool

structure IssuedEndpointCredential where
  leafCertificateDer : List UInt8
  intermediateCertificatesDer : List (List UInt8) := []

structure EnrollmentResult where
  endpointId : Uuid
  identityId : Uuid
  leafCertificateDer : List UInt8
  intermediateCertificatesDer : List (List UInt8)

def maxCertificateBytes : Nat := 16384
def maxIntermediateCertificates : Nat := 4

def certificateSizeOk (der : List UInt8) : Bool := 1 ≤ der.length && der.length ≤ maxCertificateBytes

/-- `format(n, "x")`. -/
def formatHex (n : Int) : String :=
  let digits := if n = 0 then ['0'] else (Nat.digits 16 n.natAbs).reverse.map Sha256.hexDigit
  String.ofList (if n < 0 then '-' :: digits else digits)

/-- The text of a positive serial number determines it. -/
theorem formatHex_injective {m n : Int} (hm : 0 < m) (hn : 0 < n) (h : formatHex m = formatHex n) :
    m = n := by
  have htext : ∀ k : Int, 0 < k →
      (formatHex k).toList = (Nat.digits 16 k.natAbs).reverse.map Sha256.hexDigit := by
    intro k hk
    rw [formatHex, if_neg (show ¬ k = 0 by omega), if_neg (show ¬ k < 0 by omega),
      String.toList_ofList]
  have hdigits : (Nat.digits 16 m.natAbs).reverse = (Nat.digits 16 n.natAbs).reverse := by
    have hmap := (htext m hm).symm.trans ((congrArg String.toList h).trans (htext n hn))
    have hlt : ∀ k : Nat, ∀ d ∈ (Nat.digits 16 k).reverse, d < 16 := fun k d hd =>
      Nat.digits_lt_base (by decide) (List.mem_reverse.mp hd)
    exact Sha256.map_hexDigit_inj (hlt _) (hlt _) hmap
  have habs := Nat.digits_inj_iff.mp (List.reverse_injective hdigits)
  omega

/-- A serial the control plane accepts is the text of a positive number. -/
theorem pos_of_isCertificateSerial {n : Int} (h : isCertificateSerial (formatHex n) = true) : 0 < n := by
  rcases Int.lt_trichotomy n 0 with hneg | rfl | hpos
  · rw [isCertificateSerial, formatHex, if_neg (show ¬ n = 0 by omega), if_pos hneg,
      String.toList_ofList] at h
    simp [Sha256.isHexDigit] at h
  · revert h
    decide
  · exact hpos

section Enroll

variable (lib : X509Library)

/-- `_validate_issued_credential`. -/
def validateIssuedCredential (issued : IssuedEndpointCredential) (endpointId : Uuid)
    (publicKeyFingerprint : String) (now : Instant) : Except Error (Certificate × List Certificate) :=
  if !certificateSizeOk issued.leafCertificateDer then
    .error (.validation "issued endpoint certificate size is invalid")
  else if maxIntermediateCertificates < issued.intermediateCertificatesDer.length then
    .error (.validation "issued endpoint chain is too long")
  else match lib.loadCertificate issued.leafCertificateDer,
      (issued.intermediateCertificatesDer.filter certificateSizeOk).mapM lib.loadCertificate with
  | some leaf, some intermediates =>
    if intermediates.length ≠ issued.intermediateCertificatesDer.length then
      .error (.validation "issued endpoint certificate size is invalid")
    else if !lib.verifyChain now leaf intermediates then
      .error (.validation "issued endpoint certificate chain is invalid")
    else match validateEndpointCertificate leaf with
    | .error e => .error e
    | .ok peer =>
      if peer.endpointId ≠ endpointId || peer.publicKeyFingerprint ≠ publicKeyFingerprint then
        .error (.validation "issued endpoint certificate binding is invalid")
      else if !(leaf.notValidBefore ≤ now && now < leaf.notValidAfter) then
        .error (.validation "issued endpoint certificate is not currently valid")
      else .ok (leaf, intermediates)
  | _, _ => .error (.validation "issued endpoint certificate is invalid")

/-- A call that waits for its issuer. -/
structure PendingIssuance where
  endpoint : Endpoint
  identity : EndpointIdentity
  fingerprint : String
  csrDer : List UInt8

structure EnrollRequest where
  token : String
  csrDer : List UInt8
  now : Instant
  endpointId : Uuid
  identityId : Uuid
  correlationId : Uuid

/-- `PsycopgError` leaves the service as `ServiceUnavailableError`. -/
def storeUnavailable : Error := .serviceUnavailable "enrollment store is unavailable"

/-- `enroll` up to the issuer's call. -/
def enrollBegin (r : EnrollRequest) (db : Db) : Except Error PendingIssuance × Db :=
  match validateCsr lib.loadCsr r.csrDer with
  | .error e => (.error e, db)
  | .ok (canonicalCsr, fingerprint) =>
    let out := beginEndpointEnrollment
      { token := r.token
        publicKeyFingerprint := fingerprint
        now := r.now
        endpointId := r.endpointId
        identityId := r.identityId
        correlationId := r.correlationId } db
    match out.1 with
    | .error (.database _) => (.error storeUnavailable, out.2)
    | .error e => (.error e, out.2)
    | .ok (endpoint, identity) => (.ok ⟨endpoint, identity, fingerprint, canonicalCsr⟩, out.2)

/-- What `record_issued_endpoint_identity` is called with for a leaf. -/
def PendingIssuance.issueArgs (p : PendingIssuance) (leaf : Certificate) (now : Instant)
    (correlationId : Uuid) : IssueArgs :=
  { identityId := p.identity.identityId
    certificateSerial := formatHex leaf.serialNumber
    certificateIssuer := leaf.issuer
    certificateNotBefore := leaf.notValidBefore
    certificateNotAfter := leaf.notValidAfter
    now := now
    correlationId := correlationId }

/-- `enroll` from the issuer's answer on; `now` is the verification time. -/
def enrollFinish (p : PendingIssuance) (issued : IssuedEndpointCredential) (now : Instant)
    (correlationId : Uuid) (db : Db) : Except Error EnrollmentResult × Db :=
  match validateIssuedCredential lib issued p.endpoint.endpointId p.fingerprint now with
  | .error (.validation _) =>
    (.error (.serviceUnavailable "issuer returned an invalid endpoint credential"), db)
  | .error e => (.error e, db)
  | .ok (leaf, intermediates) =>
    let out := recordIssuedEndpointIdentity (p.issueArgs leaf now correlationId) db
    match out.1 with
    | .error (.database _) | .error (.validation _) => (.error storeUnavailable, out.2)
    | .error e => (.error e, out.2)
    | .ok _ =>
      (.ok
        { endpointId := p.endpoint.endpointId
          identityId := p.identity.identityId
          leafCertificateDer := leaf.der
          intermediateCertificatesDer := intermediates.map (·.der) }, out.2)

/-! ## Interleaved calls -/

/-- A call that returned: what it had begun, what its issuer had answered and its result. -/
structure ReturnedEnrollment where
  pending : PendingIssuance
  issued : IssuedEndpointCredential
  result : EnrollmentResult

structure Enrollments where
  db : Db := {}
  waiting : List PendingIssuance := []
  returned : List ReturnedEnrollment := []

inductive EnrollAction where
  /-- Any other transaction. -/
  | call (call : Call)
  | start (request : EnrollRequest)
  /-- The issuer answers the `k`-th waiting call. -/
  | answer (k : Nat) (issued : IssuedEndpointCredential) (now : Instant) (correlationId : Uuid)
  /-- The issuer's call raises, or the process of the `k`-th waiting call is gone. -/
  | lost (k : Nat)

def EnrollAction.exec (action : EnrollAction) (s : Enrollments) : Enrollments :=
  match action with
  | .call c => { s with db := c.exec s.db }
  | .start request =>
    match enrollBegin lib request s.db with
    | (.ok p, db) => { s with db := db, waiting := s.waiting ++ [p] }
    | (.error _, db) => { s with db := db }
  | .answer k issued now correlationId =>
    match s.waiting[k]? with
    | none => s
    | some p =>
      match enrollFinish lib p issued now correlationId s.db with
      | (.ok result, db) =>
        ⟨db, s.waiting.eraseIdx k, s.returned ++ [⟨p, issued, result⟩]⟩
      | (.error _, db) => { s with db := db, waiting := s.waiting.eraseIdx k }
  | .lost k => { s with waiting := s.waiting.eraseIdx k }

def Enrollments.run (actions : List EnrollAction) (s : Enrollments) : Enrollments :=
  actions.foldl (fun s action => action.exec lib s) s

/-! ## What the two halves do -/

variable {lib} {db : Db}

variable {issued : IssuedEndpointCredential} {p : PendingIssuance} {now : Instant} {leaf : Certificate}
  {i : IdentityRow} {s : Enrollments} {c : Uuid} {db' : Db}

/-- A leaf that passes validation is bound to the endpoint and the key it was asked for. -/
theorem validateIssuedCredential_ok {endpointId : Uuid}
    {fingerprint : String} {intermediates : List Certificate}
    (h : validateIssuedCredential lib issued endpointId fingerprint now = .ok (leaf, intermediates)) :
    lib.loadCertificate issued.leafCertificateDer = some leaf ∧
      fingerprintOf leaf.subjectPublicKey = fingerprint ∧
      ∃ extensions, leaf.extensions = some extensions ∧
        extensions.subjectAlternativeName = some [.uri (endpointUriPrefix ++ endpointId.toText)] := by
  unfold validateIssuedCredential at h
  split at h
  · cases h
  · split at h
    · cases h
    · split at h
      · rename_i leaf' intermediates' hleaf _
        split at h
        · cases h
        · split at h
          · cases h
          · split at h
            · cases h
            · rename_i peer hpeer
              split at h
              · cases h
              · rename_i hbinding
                split at h
                · cases h
                · cases h
                  simp only [Bool.or_eq_true, decide_eq_true_eq, ne_eq, not_or, not_not] at hbinding
                  obtain ⟨hfp, hnames⟩ := validateEndpointCertificate_ok hpeer
                  rw [hbinding.1] at hnames
                  exact ⟨hleaf, hfp.symm.trans hbinding.2, hnames⟩
      · cases h

/-- The certificate columns of a row are those of a leaf. -/
structure StoredCertificate (i : IdentityRow) (leaf : Certificate) : Prop where
  serial : i.certificateSerial = some (formatHex leaf.serialNumber)
  issuer : i.certificateIssuer = some leaf.issuer
  notBefore : i.certificateNotBefore = some leaf.notValidBefore
  notAfter : i.certificateNotAfter = some leaf.notValidAfter

theorem exactRetry_iff
    : (p.issueArgs leaf now c).exactRetry i = true ↔
      (i.status = .issued ∨ i.status = .active) ∧ StoredCertificate i leaf := by
  simp only [IssueArgs.exactRetry, PendingIssuance.issueArgs, Bool.and_eq_true, Bool.or_eq_true,
    beq_iff_eq]
  constructor
  · rintro ⟨⟨⟨⟨hs, h1⟩, h2⟩, h3⟩, h4⟩
    exact ⟨hs, h1, h2, h3, h4⟩
  · rintro ⟨hs, h1, h2, h3, h4⟩
    exact ⟨⟨⟨⟨hs, h1⟩, h2⟩, h3⟩, h4⟩

/-- A call that returns found its certificate stored, or stored it. -/
theorem enrollFinish_cases (lib : X509Library) (p : PendingIssuance) (issued : IssuedEndpointCredential)
    (now : Instant) (correlationId : Uuid) (db : Db) :
    let out := enrollFinish lib p issued now correlationId db
    Raised db out ∨ ∃ leaf intermediates,
      validateIssuedCredential lib issued p.endpoint.endpointId p.fingerprint now =
        .ok (leaf, intermediates) ∧
      out.1 = .ok ⟨p.endpoint.endpointId, p.identity.identityId, leaf.der, intermediates.map (·.der)⟩ ∧
      0 < leaf.serialNumber ∧
      ((∃ i e, db.identityJoin p.identity.identityId = some (i, e) ∧
          (i.status = .issued ∨ i.status = .active) ∧ StoredCertificate i leaf ∧ AuditOnly db out.2) ∨
        ∃ i e, Issued (p.issueArgs leaf now correlationId) i e db out.2) := by
  unfold enrollFinish
  dsimp only
  split
  · exact .inl (raised_self db _)
  · exact .inl (raised_self db _)
  · rename_i leaf intermediates hvalid
    have hpos : (p.issueArgs leaf now correlationId).validate = none → 0 < leaf.serialNumber := by
      intro hv
      have hserial := firstFailure_eq_none.mp hv _ List.mem_cons_self
      exact pos_of_isCertificateSerial (by simpa [PendingIssuance.issueArgs] using hserial)
    obtain ⟨⟨e, herr⟩, hlog⟩ | ⟨i, e, hjoin, hretry, hv, hok, hlog⟩ | ⟨i, e, hok, hissued⟩ :=
      recordIssuedEndpointIdentity_cases (p.issueArgs leaf now correlationId) db
    · refine .inl ?_
      rw [herr]
      split
      · exact ⟨⟨_, rfl⟩, hlog⟩
      · exact ⟨⟨_, rfl⟩, hlog⟩
      · exact ⟨⟨_, rfl⟩, hlog⟩
      · rename_i heq
        cases heq
    · obtain ⟨hs, hstored⟩ := exactRetry_iff.mp hretry
      rw [hok]
      exact .inr ⟨leaf, intermediates, hvalid, rfl, hpos hv, .inl ⟨i, e, hjoin, hs, hstored, hlog⟩⟩
    · rw [hok]
      exact .inr ⟨leaf, intermediates, hvalid, rfl, hpos hissued.validated, .inr ⟨i, e, hissued⟩⟩

/-- The row a waiting call began with. -/
structure Belongs (p : PendingIssuance) (i : IdentityRow) : Prop where
  endpoint : i.endpointId = p.identity.endpointId ∧ p.endpoint.endpointId = p.identity.endpointId
  fingerprint : i.publicKeyFingerprint = p.identity.publicKeyFingerprint ∧
    p.fingerprint = p.identity.publicKeyFingerprint

theorem Belongs.step {i i' : IdentityRow} (h : Belongs p i)
    (hsame : SameIdentity i i') : Belongs p i' :=
  ⟨⟨hsame.endpoint.trans h.endpoint.1, h.endpoint.2⟩,
    ⟨hsame.fingerprint.trans h.fingerprint.1, h.fingerprint.2⟩⟩

theorem beginEndpointEnrollment_belongs {a : ConsumeArgs} {e : Endpoint} {x : EndpointIdentity}
    {csrDer : List UInt8} (h : (beginEndpointEnrollment a db).1 = .ok (e, x)) :
    ∃ i, (beginEndpointEnrollment a db).2.identityById x.identityId = some i ∧
      Belongs ⟨e, x, a.publicKeyFingerprint, csrDer⟩ i := by
  unfold beginEndpointEnrollment at h ⊢
  obtain ⟨⟨_, herr⟩, -⟩ | ⟨g, e', i, hd, hok, hlog⟩ | ⟨g, hok, hex⟩ :=
    consumeGrantWith_cases a .pending true db
  · rw [herr] at h
    cases h
  · rw [hok] at h
    cases h
    obtain ⟨-, -, -, -, hfp, id, -, hres⟩ := consumeDecision_resume hd
    obtain ⟨hi, he⟩ := Db.identityJoin_some.mp (Db.resumable_some.mp hres).1
    obtain ⟨events, hdb⟩ := hlog
    rw [hdb, (Db.identityById_some hi).2]
    exact ⟨i, hi, ⟨rfl, (Db.endpointById_some he).2⟩, ⟨rfl, hfp.symm⟩⟩
  · rw [hok] at h
    cases h
    exact ⟨_, hex.identityById, ⟨rfl, rfl⟩, ⟨rfl, rfl⟩⟩

theorem enrollBegin_cases (lib : X509Library) (r : EnrollRequest) (db : Db) :
    let out := enrollBegin lib r db
    Effect none db out.2 ∧ ∀ p, out.1 = .ok p →
      ∃ i, out.2.identityById p.identity.identityId = some i ∧ Belongs p i := by
  unfold enrollBegin
  dsimp only
  split
  · exact ⟨.audit (.refl db), fun p h => nomatch h⟩
  · rename_i canonicalCsr fingerprint _
    have heff := consumeGrantWith_effect
      { token := r.token, publicKeyFingerprint := fingerprint, now := r.now, endpointId := r.endpointId,
        identityId := r.identityId, correlationId := r.correlationId } true db (.inl rfl)
    split
    · exact ⟨heff, fun p h => nomatch h⟩
    · exact ⟨heff, fun p h => nomatch h⟩
    · rename_i endpoint identity hok
      refine ⟨heff, fun p h => ?_⟩
      cases h
      exact beginEndpointEnrollment_belongs hok

/-! ## The invariant -/

/-- A returned leaf is bound to its identity, whose row holds its certificate. -/
structure ReturnedOk (lib : X509Library) (db : Db) (r : ReturnedEnrollment) (leaf : Certificate)
    (i : IdentityRow) : Prop where
  loaded : lib.loadCertificate r.issued.leafCertificateDer = some leaf
  result : r.result.leafCertificateDer = leaf.der ∧ r.result.identityId = r.pending.identity.identityId ∧
    r.result.endpointId = r.pending.identity.endpointId
  uri : ∃ extensions, leaf.extensions = some extensions ∧ extensions.subjectAlternativeName =
    some [.uri (endpointUriPrefix ++ i.endpointId.toText)]
  key : fingerprintOf leaf.subjectPublicKey = i.publicKeyFingerprint
  serial_pos : 0 < leaf.serialNumber
  row : db.identityById r.pending.identity.identityId = some i
  belongs : Belongs r.pending i
  stored : StoredCertificate i leaf
  not_pending : i.status ≠ .pending

structure Enrollments.Ok (lib : X509Library) (s : Enrollments) : Prop extends RowsOk s.db where
  waiting : ∀ p ∈ s.waiting, ∃ i, s.db.identityById p.identity.identityId = some i ∧ Belongs p i
  returned : ∀ r ∈ s.returned, ∃ leaf i, ReturnedOk lib s.db r leaf i

theorem StoredCertificate.step {i i' : IdentityRow} {log log' : List ObservationRow}
    (h : StoredCertificate i leaf) (hp : i.status ≠ .pending) (hstep : RowStep i log i' log') :
    StoredCertificate i' leaf ∧ i'.status ≠ .pending := by
  cases hstep with
  | same => exact ⟨h, hp⟩
  | issue a hpending => exact absurd hpending hp
  | revoke t reason hr => exact ⟨⟨h.serial, h.issuer, h.notBefore, h.notAfter⟩, by simp [Db.revoked]⟩
  | heartbeat o hk hlive hs =>
    unfold Db.activated
    split
    · exact ⟨⟨h.serial, h.issuer, h.notBefore, h.notAfter⟩, by simp⟩
    · exact ⟨h, hp⟩
  | inventory => exact ⟨h, hp⟩

/-- No change of the database touches what was returned or begun. -/
theorem Enrollments.Ok.effect (h : s.Ok lib) {msg : Option IngestArgs}
    (heff : Effect msg s.db db') : Enrollments.Ok lib { s with db := db' } := by
  refine ⟨h.toRowsOk.effect heff, fun p hp => ?_, fun r hr => ?_⟩
  · obtain ⟨i, hi, hb⟩ := h.waiting p hp
    obtain ⟨i', hi', hstep⟩ := heff.rowStep hi
    exact ⟨i', hi', hb.step hstep.immutable⟩
  · obtain ⟨leaf, i, hok⟩ := h.returned r hr
    obtain ⟨i', hi', hstep⟩ := heff.rowStep hok.row
    obtain ⟨hstored, hnp⟩ := hok.stored.step hok.not_pending hstep
    have hsame := hstep.immutable
    exact ⟨leaf, i', hok.loaded, hok.result, hsame.endpoint ▸ hok.uri, hok.key.trans hsame.fingerprint.symm,
      hok.serial_pos, hi', hok.belongs.step hsame, hstored, hnp⟩

/-- The row an issuance leaves. -/
theorem Issued.identityById {a : IssueArgs} {e : Endpoint}
    (h : Issued a i e db db') : db'.identityById a.identityId = some (a.certify i) := by
  obtain ⟨hi, -⟩ := Db.identityJoin_some.mp h.joined
  have hid := (Db.identityById_some hi).2
  obtain ⟨events, rfl⟩ := h.after
  rw [Db.identityById] at hi
  simp only [Db.identityById, Db.updateIdentity]
  rw [Db.find_update _ _ _ _ a.certify_identityId, hi, Option.map_some, if_pos hid]

theorem AuditOnly.identityById (h : AuditOnly db db') (id : Uuid) :
    db'.identityById id = db.identityById id := by
  obtain ⟨events, rfl⟩ := h
  rfl

/-- A call that returns leaves its certificate in the row it began with. -/
theorem enrollFinish_returns
    {result : EnrollmentResult}
    (hp : ∃ i, db.identityById p.identity.identityId = some i ∧ Belongs p i)
    (h : (enrollFinish lib p issued now c db).1 = .ok result) :
    ∃ leaf i, ReturnedOk lib (enrollFinish lib p issued now c db).2 ⟨p, issued, result⟩ leaf i := by
  obtain ⟨i₀, hi₀, hb⟩ := hp
  obtain ⟨⟨_, herr⟩, -⟩ | ⟨leaf, intermediates, hvalid, hok, hpos, hrow⟩ :=
    enrollFinish_cases lib p issued now c db
  · rw [herr] at h
    cases h
  · rw [hok] at h
    cases h
    obtain ⟨hload, hkey, huri⟩ := validateIssuedCredential_ok hvalid
    rw [hb.endpoint.2] at huri
    rw [hb.fingerprint.2] at hkey
    have hresult : leaf.der = leaf.der ∧ p.identity.identityId = p.identity.identityId ∧
        p.endpoint.endpointId = p.identity.endpointId := ⟨rfl, rfl, hb.endpoint.2⟩
    rcases hrow with ⟨i, e, hjoin, hs, hstored, hlog⟩ | ⟨i, e, hissued⟩
    · obtain ⟨hi, -⟩ := Db.identityJoin_some.mp hjoin
      obtain rfl : i = i₀ := Option.some.inj (hi.symm.trans hi₀)
      refine ⟨leaf, i, hload, hresult, hb.endpoint.1 ▸ huri, hkey.trans hb.fingerprint.1.symm, hpos,
        (hlog.identityById _).trans hi, hb, hstored, ?_⟩
      rcases hs with hs | hs <;> simp [hs]
    · obtain ⟨hi, -⟩ := Db.identityJoin_some.mp hissued.joined
      obtain rfl : i = i₀ := Option.some.inj (hi.symm.trans hi₀)
      exact ⟨leaf, (p.issueArgs leaf now c).certify i, hload, hresult, hb.endpoint.1 ▸ huri,
        hkey.trans hb.fingerprint.1.symm, hpos, hissued.identityById, hb.step ⟨rfl, rfl, rfl⟩, ⟨rfl, rfl, rfl, rfl⟩,
        by simp [IssueArgs.certify, Db.certified]⟩

theorem enrollFinish_effect (lib : X509Library) (p : PendingIssuance) (issued : IssuedEndpointCredential)
    (now : Instant) (c : Uuid) (db : Db) : Effect none db (enrollFinish lib p issued now c db).2 := by
  obtain ⟨-, h⟩ | ⟨_, _, -, -, -, ⟨_, _, -, -, -, h⟩ | ⟨_, _, h⟩⟩ :=
    enrollFinish_cases lib p issued now c db
  · exact .audit h
  · exact .audit h
  · exact .issue h

theorem Enrollments.Ok.exec (h : s.Ok lib) (action : EnrollAction) :
    (action.exec lib s).Ok lib := by
  have herase : ∀ k, ∀ p ∈ s.waiting.eraseIdx k, p ∈ s.waiting := fun k p hp =>
    List.mem_of_mem_eraseIdx hp
  cases action with
  | call c => exact h.effect (c.exec_effect s.db)
  | lost k => exact ⟨h.toRowsOk, fun p hp => h.waiting p (herase k p hp), h.returned⟩
  | start request =>
    obtain ⟨heff, hbegun⟩ := enrollBegin_cases lib request s.db
    have hdb := h.effect heff
    simp only [EnrollAction.exec]
    split
    · rename_i p db heq
      rw [heq] at hdb hbegun
      refine ⟨hdb.toRowsOk, fun q hq => ?_, hdb.returned⟩
      rcases List.mem_append.mp hq with hq | hq
      · exact hdb.waiting q hq
      · obtain rfl := List.mem_singleton.mp hq
        exact hbegun q rfl
    · rename_i heq
      rw [heq] at hdb
      exact hdb
  | answer k issued now c =>
    simp only [EnrollAction.exec]
    split
    · exact h
    · rename_i p hp
      have hmem := List.mem_of_getElem? hp
      have hdb := h.effect (enrollFinish_effect lib p issued now c s.db)
      split
      · rename_i result db heq
        have hret : ∃ leaf i, ReturnedOk lib (enrollFinish lib p issued now c s.db).2
            ⟨p, issued, result⟩ leaf i := enrollFinish_returns (h.waiting p hmem) (by rw [heq])
        rw [heq] at hdb hret
        refine ⟨hdb.toRowsOk, fun q hq => hdb.waiting q (herase k q hq), fun r hr => ?_⟩
        rcases List.mem_append.mp hr with hr | hr
        · exact hdb.returned r hr
        · obtain rfl := List.mem_singleton.mp hr
          exact hret
      · rename_i heq
        rw [heq] at hdb
        exact ⟨hdb.toRowsOk, fun q hq => hdb.waiting q (herase k q hq), hdb.returned⟩

theorem Enrollments.Ok.run (h : s.Ok lib) (actions : List EnrollAction) :
    (Enrollments.run lib actions s).Ok lib := by
  induction actions generalizing s with
  | nil => exact h
  | cons action actions ih => exact ih (h.exec action)

theorem Enrollments.Ok.init : Enrollments.Ok lib {} := ⟨.empty, by simp, by simp⟩

/-- Beginning an enrollment inserts rows and changes none. -/
theorem enrollBegin_keeps {r : EnrollRequest} {id : Uuid}
    (hi : db.identityById id = some i) : (enrollBegin lib r db).2.identityById id = some i := by
  unfold enrollBegin
  split
  · exact hi
  · rename_i canonicalCsr fingerprint _
    have hkeep : ∀ a, (beginEndpointEnrollment a db).2.identityById id = some i := by
      intro a
      obtain ⟨-, h⟩ | ⟨_, _, _, -, -, h⟩ | ⟨_, -, h⟩ := consumeGrantWith_cases a .pending true db
      · exact (h.identityById id).trans hi
      · exact (h.identityById id).trans hi
      · obtain ⟨events, hdb⟩ := h.after
        rw [Db.identityById] at hi
        rw [beginEndpointEnrollment, hdb, Db.identityById, Db.find_append, hi, Option.some_or]
    dsimp only
    split <;> exact hkeep _

/-- The answer to a call cannot be used: it fails validation, or the identity is revoked,
or it already has another certificate. -/
def Unusable (lib : X509Library) (p : PendingIssuance) (issued : IssuedEndpointCredential) (now : Instant)
    (db : Db) : Prop :=
  (∀ credential, validateIssuedCredential lib issued p.endpoint.endpointId p.fingerprint now ≠
    .ok credential) ∨
  ∃ i, db.identityById p.identity.identityId = some i ∧
    (i.status = .revoked ∨ ((i.status = .issued ∨ i.status = .active) ∧
      ∀ leaf, lib.loadCertificate issued.leafCertificateDer = some leaf → ¬ StoredCertificate i leaf))

theorem enrollFinish_unusable
    (h : Unusable lib p issued now db) : Raised db (enrollFinish lib p issued now c db) := by
  obtain hraised | ⟨leaf, intermediates, hvalid, -, -, hrow⟩ := enrollFinish_cases lib p issued now c db
  · exact hraised
  · exfalso
    rcases h with h | ⟨i, hi, h⟩
    · exact h _ hvalid
    · obtain ⟨hload, -⟩ := validateIssuedCredential_ok hvalid
      rcases hrow with ⟨j, e, hjoin, hs, hstored, -⟩ | ⟨j, e, hissued⟩
      · obtain ⟨hj, -⟩ := Db.identityJoin_some.mp hjoin
        obtain rfl : j = i := Option.some.inj (hj.symm.trans hi)
        rcases h with h | ⟨-, h⟩
        · simp [h] at hs
        · exact h leaf hload hstored
      · obtain ⟨hj, -⟩ := Db.identityJoin_some.mp hissued.joined
        obtain rfl : j = i := Option.some.inj (hj.symm.trans hi)
        have hp := hissued.pending
        rcases h with h | ⟨h | h, -⟩ <;> simp [h] at hp

/-- **One credential per identity under any issuer**, in every state of every interleaving. -/
theorem Enrollments.one_credential (lib : X509Library) (actions : List EnrollAction) :
    let s := Enrollments.run lib actions {}
    (∀ r ∈ s.returned, ∃ leaf i, lib.loadCertificate r.issued.leafCertificateDer = some leaf ∧
      r.result.leafCertificateDer = leaf.der ∧
      r.result.identityId = r.pending.identity.identityId ∧
      (∃ extensions, leaf.extensions = some extensions ∧ extensions.subjectAlternativeName =
        some [.uri (endpointUriPrefix ++ r.pending.identity.endpointId.toText)]) ∧
      fingerprintOf leaf.subjectPublicKey = r.pending.identity.publicKeyFingerprint ∧
      s.db.identityById r.pending.identity.identityId = some i ∧ StoredCertificate i leaf) ∧
    (∀ r ∈ s.returned, ∀ r' ∈ s.returned, r.result.identityId = r'.result.identityId →
      ∀ leaf leaf', lib.loadCertificate r.issued.leafCertificateDer = some leaf →
        lib.loadCertificate r'.issued.leafCertificateDer = some leaf' →
        leaf.serialNumber = leaf'.serialNumber ∧ leaf.issuer = leaf'.issuer ∧
          leaf.notValidBefore = leaf'.notValidBefore ∧ leaf.notValidAfter = leaf'.notValidAfter) ∧
    (∀ p ∈ s.waiting, ∀ issued now c, Unusable lib p issued now s.db →
      (∃ e, (enrollFinish lib p issued now c s.db).1 = .error e) ∧
      (enrollFinish lib p issued now c s.db).2.identityById p.identity.identityId =
        s.db.identityById p.identity.identityId) ∧
    ∀ request id i, s.db.identityById id = some i →
      (enrollBegin lib request s.db).2.identityById id = some i := by
  intro s
  have h : s.Ok lib := Enrollments.Ok.init.run actions
  refine ⟨fun r hr => ?_, fun r hr r' hr' hid leaf leaf' hl hl' => ?_, fun p hp issued now c hu => ?_,
    fun request id i hi => enrollBegin_keeps hi⟩
  · obtain ⟨leaf, i, hok⟩ := h.returned r hr
    have hb := hok.belongs
    exact ⟨leaf, i, hok.loaded, hok.result.1, hok.result.2.1, hb.endpoint.1 ▸ hok.uri,
      hok.key.trans hb.fingerprint.1, hok.row, hok.stored⟩
  · obtain ⟨x, i, hok⟩ := h.returned r hr
    obtain ⟨x', i', hok'⟩ := h.returned r' hr'
    obtain rfl : x = leaf := Option.some.inj (hok.loaded.symm.trans hl)
    obtain rfl : x' = leaf' := Option.some.inj (hok'.loaded.symm.trans hl')
    have hsame : r.pending.identity.identityId = r'.pending.identity.identityId :=
      hok.result.2.1.symm.trans (hid.trans hok'.result.2.1)
    have hrow := hok.row
    rw [hsame, hok'.row, Option.some.injEq] at hrow
    subst hrow
    have hserial := Option.some.inj (hok.stored.serial.symm.trans hok'.stored.serial)
    exact ⟨formatHex_injective hok.serial_pos hok'.serial_pos hserial,
      Option.some.inj (hok.stored.issuer.symm.trans hok'.stored.issuer),
      Option.some.inj (hok.stored.notBefore.symm.trans hok'.stored.notBefore),
      Option.some.inj (hok.stored.notAfter.symm.trans hok'.stored.notAfter)⟩
  · obtain ⟨herr, hlog⟩ := enrollFinish_unusable (c := c) hu
    exact ⟨herr, hlog.identityById _⟩

end Enroll

end NorthgateRmm.Server
