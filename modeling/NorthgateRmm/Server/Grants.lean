import NorthgateRmm.Server.Lifecycle

/-!
# Single-use enrollment grants

A grant is consumed once: it is bound to the one identity that was created when it was
consumed, within its lifetime, and no later call changes it. A call on a consumed grant
either resumes that enrollment or raises the generic error, and writes nothing but audit
events either way.
-/

namespace NorthgateRmm.Server

/-! ## The invariant -/

/-- A consumed grant names the identity that was created at its consumption. -/
structure GrantOk (db : Db) (g : EnrollmentGrant) : Prop where
  complete : g.consumedAt = none ↔ g.consumedIdentityId = none
  bound : ∀ t, g.consumedAt = some t → (g.createdAt ≤ t ∧ t < g.expiresAt) ∧
    ∃ id i, g.consumedIdentityId = some id ∧ db.identityById id = some i ∧ i.createdAt = t

structure Grants (db : Db) : Prop where
  each : ∀ g ∈ db.enrollmentGrants, GrantOk db g
  ids : (db.enrollmentGrants.map (·.grantId)).Nodup
  distinct : ∀ g ∈ db.enrollmentGrants, ∀ g' ∈ db.enrollmentGrants, ∀ id,
    g.consumedIdentityId = some id → g'.consumedIdentityId = some id → g = g'
  fingerprints : ∀ id i, db.identityById id = some i → isFingerprint i.publicKeyFingerprint = true

theorem Grants.empty : Grants {} where
  each := by simp
  ids := by simp
  distinct := by simp
  fingerprints := by simp [Db.identityById]

section Steps

variable {msg : Option IngestArgs} {db db' : Db} {g : EnrollmentGrant}

/-- Rows keep what a grant says about them. -/
theorem GrantOk.effect (h : GrantOk db g) (heff : Effect msg db db') : GrantOk db' g := by
  refine ⟨h.complete, fun t ht => ?_⟩
  obtain ⟨hwindow, id, i, hid, hi, hcreated⟩ := h.bound t ht
  obtain ⟨i', hi', hstep⟩ := heff.rowStep hi
  exact ⟨hwindow, id, i', hid, hi', hstep.immutable.createdAt.trans hcreated⟩

theorem isFingerprint_of_postInit {i : EndpointIdentity} (h : i.postInit = none) :
    isFingerprint i.publicKeyFingerprint = true := by
  have := firstFailure_eq_none.mp h _ List.mem_cons_self
  simpa using this

theorem Grants.fingerprints_step (h : Grants db) (heff : Effect msg db db') (id : Uuid)
    (i' : IdentityRow) (hi' : db'.identityById id = some i') :
    isFingerprint i'.publicKeyFingerprint = true := by
  cases hi : db.identityById id with
  | none => exact isFingerprint_of_postInit ((heff.newRow hi).2 i' hi').valid
  | some i =>
    obtain ⟨j, hj, hstep⟩ := heff.rowStep hi
    obtain rfl : j = i' := Option.some.inj (hj.symm.trans hi')
    exact hstep.immutable.fingerprint ▸ h.fingerprints id i hi

theorem Grants.of_same (h : Grants db) (heff : Effect msg db db')
    (hg : db'.enrollmentGrants = db.enrollmentGrants) : Grants db' := by
  refine ⟨?_, hg ▸ h.ids, hg ▸ h.distinct, h.fingerprints_step heff⟩
  rw [hg]
  exact fun g hmem => (h.each g hmem).effect heff

theorem Grants.create (h : Grants db) (hc : GrantCreated g db db') : Grants db' := by
  have heff : Effect none db db' := .createGrant hc
  have hfp := h.fingerprints_step heff
  have hkeep := fun x hx => (h.each x hx).effect heff
  obtain ⟨events, rfl⟩ := hc.after
  obtain ⟨hopen, hunbound⟩ := hc.unconsumed
  refine ⟨fun x hx => ?_, ?_, fun x hx y hy id hxid hyid => ?_, hfp⟩
  · rcases List.mem_append.mp hx with hx | hx
    · exact hkeep x hx
    · obtain rfl := List.mem_singleton.mp hx
      exact ⟨by simp [hopen, hunbound], by simp [hopen]⟩
  · rw [List.map_append, List.nodup_append]
    refine ⟨h.ids, by simp, ?_⟩
    simp only [List.mem_map, List.map_cons, List.map_nil, List.mem_singleton, forall_eq]
    rintro _ ⟨x, hx, rfl⟩
    exact (hc.fresh x hx).1
  · rcases List.mem_append.mp hx with hx | hx
    · rcases List.mem_append.mp hy with hy | hy
      · exact h.distinct x hx y hy id hxid hyid
      · obtain rfl := List.mem_singleton.mp hy
        simp [hunbound] at hyid
    · obtain rfl := List.mem_singleton.mp hx
      simp [hunbound] at hxid

/-- Consuming leaves every grant but the open one with the given ID alone. -/
theorem consumed_of_ne {grantId identityId : Uuid} {t : Instant}
    (h : g.grantId ≠ grantId ∨ g.consumedAt ≠ none) : Db.consumed grantId t identityId g = g :=
  if_neg fun hk => h.elim (· hk.1) (· hk.2)

theorem consumed_grantId (grantId identityId : Uuid) (t : Instant) (g : EnrollmentGrant) :
    (Db.consumed grantId t identityId g).grantId = g.grantId := by
  unfold Db.consumed; split <;> rfl

/-- The open grant that is exchanged is the only one with its ID. -/
theorem Grants.eq_of_open (h : Grants db) {a : ConsumeArgs} {status : EndpointLifecycle}
    (hex : Exchanged a status g db db') {x : EnrollmentGrant} (hx : x ∈ db.enrollmentGrants)
    (hid : x.grantId = g.grantId) : x = g :=
  List.inj_on_of_nodup_map h.ids hx (List.mem_of_find?_eq_some hex.found) hid

theorem Grants.exchange (h : Grants db) {a : ConsumeArgs} {status : EndpointLifecycle}
    (hs : status = .pending ∨ status = .active) (hex : Exchanged a status g db db') : Grants db' := by
  have heff : Effect none db db' := .exchange hs hex
  have hfp := h.fingerprints_step heff
  have hkeep := fun x hx => (h.each x hx).effect heff
  have hrow := hex.identityById
  have hdb : db'.enrollmentGrants = db.enrollmentGrants.map (Db.consumed g.grantId a.now a.identityId) := by
    obtain ⟨events, rfl⟩ := hex.after
    rfl
  refine ⟨fun x hx => ?_, ?_, ?_, hfp⟩
  · rw [hdb] at hx
    obtain ⟨y, hy, rfl⟩ := List.mem_map.mp hx
    by_cases hk : y.grantId = g.grantId ∧ y.consumedAt = none
    · obtain rfl := h.eq_of_open hex hy hk.1
      rw [Db.consumed, if_pos ⟨rfl, hk.2⟩]
      refine ⟨by simp, fun t ht => ?_⟩
      obtain rfl := Option.some.inj ht
      exact ⟨hex.window, a.identityId, _, rfl, hrow, rfl⟩
    · rw [Db.consumed, if_neg hk]
      exact hkeep y hy
  · rw [hdb, List.map_map]
    have : (·.grantId) ∘ Db.consumed g.grantId a.now a.identityId = (·.grantId) :=
      funext fun x => consumed_grantId _ _ _ x
    rw [this]
    exact h.ids
  · rw [hdb]
    intro x' hx' y' hy' id hxid hyid
    obtain ⟨x, hx, rfl⟩ := List.mem_map.mp hx'
    obtain ⟨y, hy, rfl⟩ := List.mem_map.mp hy'
    by_cases hkx : x.grantId = g.grantId ∧ x.consumedAt = none <;>
      by_cases hky : y.grantId = g.grantId ∧ y.consumedAt = none
    · rw [h.eq_of_open hex hx hkx.1, h.eq_of_open hex hy hky.1]
    -- the new binding is to an identity no grant was bound to
    · rw [Db.consumed, if_pos hkx] at hxid
      rw [Db.consumed, if_neg hky] at hyid
      obtain rfl := Option.some.inj hxid
      exact absurd hyid (hex.unbound y hy)
    · rw [Db.consumed, if_neg hkx] at hxid
      rw [Db.consumed, if_pos hky] at hyid
      obtain rfl := Option.some.inj hyid
      exact absurd hxid (hex.unbound x hx)
    · rw [Db.consumed, if_neg hkx] at hxid
      rw [Db.consumed, if_neg hky] at hyid
      rw [h.distinct x hx y hy id hxid hyid]

theorem Grants.step (h : Grants db) (heff : Effect msg db db') : Grants db' := by
  cases heff with
  | createGrant hc => exact h.create hc
  | exchange hs hex => exact h.exchange hs hex
  | audit ha =>
    obtain ⟨events, rfl⟩ := ha
    exact h.of_same (.audit ⟨events, rfl⟩ : Effect none _ _) rfl
  | enroll he =>
    exact h.of_same (.enroll he : Effect none _ _) (by obtain ⟨_, rfl⟩ := he.after; rfl)
  | issue hi =>
    exact h.of_same (.issue hi : Effect none _ _) (by obtain ⟨_, rfl⟩ := hi.after; rfl)
  | revoke hr =>
    exact h.of_same (.revoke hr : Effect none _ _) (by obtain ⟨_, rfl⟩ := hr.after; rfl)
  | accept hm hacc =>
    exact h.of_same (.accept hm hacc) (by obtain ⟨_, _, _, rfl⟩ := hacc.after; rfl)

/-- A consumed grant stays as it is. -/
theorem Effect.keeps_consumed (heff : Effect msg db db') (hg : g ∈ db.enrollmentGrants)
    (hc : g.consumedAt ≠ none) : g ∈ db'.enrollmentGrants := by
  cases heff with
  | createGrant h =>
    obtain ⟨_, rfl⟩ := h.after
    exact List.mem_append_left _ hg
  | exchange _ h =>
    obtain ⟨_, rfl⟩ := h.after
    exact List.mem_map.mpr ⟨g, hg, consumed_of_ne (.inr hc)⟩
  | audit h =>
    obtain ⟨_, rfl⟩ := h
    exact hg
  | enroll h =>
    obtain ⟨_, rfl⟩ := h.after
    exact hg
  | issue h =>
    obtain ⟨_, rfl⟩ := h.after
    exact hg
  | revoke h =>
    obtain ⟨_, rfl⟩ := h.after
    exact hg
  | accept _ h =>
    obtain ⟨_, _, _, rfl⟩ := h.after
    exact hg

end Steps

/-! ## A call on a consumed grant -/

/-- The caller's label passes its check and can be stored. -/
def ConsumeArgs.ActorOk (a : ConsumeArgs) : Prop :=
  validActor a.actorId = true ∧ storable a.actorId = true

/-- The call is a retry of the enrollment that consumed `g`, with the token in its format,
before the expiry of `g`, by the key of the bound identity, which is still pending or
issued and current for its endpoint. -/
structure Resumes (a : ConsumeArgs) (g : EnrollmentGrant) (db : Db) (e : Endpoint) (i : IdentityRow) :
    Prop where
  format : tokenFormatOk a.token = true
  window : g.createdAt ≤ a.now ∧ a.now < g.expiresAt
  fingerprint : i.publicKeyFingerprint = a.publicKeyFingerprint
  bound : ∃ id, g.consumedIdentityId = some id ∧ db.identityJoin id = some (i, e)
  current : e.identityId = i.identityId
  status : i.status = .pending ∨ i.status = .issued

section Consumed

variable {a : ConsumeArgs} {retry : Bool} {db : Db} {g : EnrollmentGrant} {e : Endpoint} {i : IdentityRow}

theorem storable_grantSubject (grant : Option EnrollmentGrant) :
    storable (grantSubject grant) = true ∧ (grantSubject grant).length ≤ 256 := by
  cases grant with
  | none => exact ⟨by decide, by decide⟩
  | some g =>
    refine ⟨storable_append (by decide) (storable_toText _), ?_⟩
    rw [grantSubject, String.length_append, Uuid.length_toText]
    decide

theorem insertAudit_consumeEvent (ha : a.ActorOk) {grant : Option EnrollmentGrant} {decision : Decision}
    {reason : String} {metadata : List (String × String)}
    (hreason : storable reason = true ∧ reason.length ≤ 512)
    (hmeta : ∀ p ∈ metadata, storable p.1 = true ∧ storable p.2 = true) :
    db.insertAudit (consumeEvent a grant decision reason metadata) =
      .ok (db.appendAudit (consumeEvent a grant decision reason metadata)) := by
  have hlen : a.actorId.length ≤ 256 := by
    have := ha.1
    simp only [validActor, Bool.and_eq_true, decide_eq_true_eq] at this
    exact this.2
  have haction : storable "enrollment_grant.consume" = true ∧
      "enrollment_grant.consume".length ≤ 128 := ⟨by decide, by decide⟩
  exact Db.insertAudit_of_fits ⟨ha.2, hlen⟩ (storable_grantSubject grant) haction hreason hmeta

/-- The decision on a grant that was consumed: resume, or reject with a text of the program. -/
theorem consumeDecision_consumed (retry : Bool)
    (hg : db.grantByToken (tokenSha256 a.token) = some g) (hc : g.consumedAt ≠ none) :
    (∃ e i, consumeDecision a retry db = .resume g e i) ∨
      ∃ grant reason, consumeDecision a retry db = .reject grant reason ∧
        storable reason = true ∧ reason.length ≤ 512 := by
  unfold consumeDecision
  split
  · exact .inr ⟨_, _, rfl, by decide, by decide⟩
  · rw [hg]
    dsimp only
    split
    · exact .inr ⟨_, _, rfl, by decide, by decide⟩
    · split
      · exact .inr ⟨_, _, rfl, by decide, by decide⟩
      · split
        · exact .inr ⟨_, _, rfl, by decide, by decide⟩
        · split
          · contradiction
          · split
            · split
              · split
                · exact .inl ⟨_, _, rfl⟩
                · exact .inr ⟨_, _, rfl, by decide, by decide⟩
              · exact .inr ⟨_, _, rfl, by decide, by decide⟩
            · exact .inr ⟨_, _, rfl, by decide, by decide⟩

theorem consumeDecision_format (h : consumeDecision a retry db = .resume g e i) :
    tokenFormatOk a.token = true := by
  unfold consumeDecision at h
  split at h
  · cases h
  · rename_i hf
    simpa using hf

theorem resumes_of_resume (h : consumeDecision a retry db = .resume g e i) : Resumes a g db e i := by
  obtain ⟨-, -, -, hwindow, hfp, id, hid, hres⟩ := consumeDecision_resume h
  obtain ⟨hjoin, hcur, hs⟩ := Db.resumable_some.mp hres
  exact ⟨consumeDecision_format h, hwindow, hfp, ⟨id, hid, hjoin⟩, hcur, hs⟩

theorem Resumes.decision (h : Resumes a g db e i) (hdb : Grants db)
    (hg : db.grantByToken (tokenSha256 a.token) = some g) (hc : g.consumedAt ≠ none) :
    consumeDecision a true db = .resume g e i := by
  obtain ⟨id, hid, hjoin⟩ := h.bound
  have hfp : isFingerprint a.publicKeyFingerprint = true := by
    have hi := (Db.identityJoin_some.mp hjoin).1
    exact h.fingerprint ▸ hdb.fingerprints id i hi
  have hres : g.consumedIdentityId.bind db.resumable = some (i, e) := by
    rw [hid, Option.bind_some]
    exact Db.resumable_some.mpr ⟨hjoin, h.current, h.status⟩
  obtain ⟨t, ht⟩ := Option.ne_none_iff_exists'.mp hc
  unfold consumeDecision
  simp only [h.format, hg, hfp, ht, hres, h.fingerprint, Bool.not_true, Bool.false_eq_true, if_false,
    if_true, Int.not_lt.mpr h.window.1, Int.not_le.mpr h.window.2]

/-- What a call on a consumed grant returns or raises. -/
theorem consumeGrantWith_consumed (retry : Bool) (ha : a.ActorOk)
    (hg : db.grantByToken (tokenSha256 a.token) = some g) (hc : g.consumedAt ≠ none)
    (status : EndpointLifecycle) :
    AuditOnly db (consumeGrantWith a status retry db).2 ∧
      ((∃ e i, consumeDecision a retry db = .resume g e i ∧
          (consumeGrantWith a status retry db).1 = .ok (e, i.toEndpointIdentity)) ∨
        (∀ e i, consumeDecision a retry db ≠ .resume g e i) ∧
          (consumeGrantWith a status retry db).1 = .error (.authorization enrollmentRejection)) := by
  have hactor : ¬ (!validActor a.actorId) = true := by simp [ha.1]
  unfold consumeGrantWith
  rw [if_neg hactor]
  obtain ⟨e, i, hd⟩ | ⟨grant, reason, hd, hreason⟩ := consumeDecision_consumed retry hg hc
  · have hmeta : ∀ p ∈ [("endpoint_id", e.endpointId.toText), ("identity_id", i.identityId.toText)],
        storable p.1 = true ∧ storable p.2 = true := by
      simp only [List.forall_mem_cons, List.not_mem_nil, false_imp_iff, implies_true, and_true]
      exact ⟨⟨by decide, storable_toText _⟩, by decide, storable_toText _⟩
    have hreason : storable "exact enrollment retry resumed" = true ∧
        "exact enrollment retry resumed".length ≤ 512 := ⟨by decide, by decide⟩
    rw [hd]
    simp only [insertAudit_consumeEvent ha hreason hmeta, bind, Except.bind, pure, Except.pure,
      transaction]
    exact ⟨.append _, .inl ⟨e, i, rfl, rfl⟩⟩
  · have hnil : ∀ p ∈ ([] : List (String × String)), storable p.1 = true ∧ storable p.2 = true := by
      simp
    rw [hd]
    simp only [insertAudit_consumeEvent ha hreason hnil, bind, Except.bind, pure, Except.pure,
      transaction]
    exact ⟨.append _, .inr ⟨fun e i h => (nomatch h), trivial⟩⟩

end Consumed

/-- An enrollment under a key that is already enrolled consumes nothing. -/
theorem consumeGrantWith_collision {a : ConsumeArgs} {db : Db} (status : EndpointLifecycle) (retry : Bool)
    (hcollide : ∃ x ∈ db.endpointIdentities, x.publicKeyFingerprint = a.publicKeyFingerprint) :
    AuditOnly db (consumeGrantWith a status retry db).2 := by
  obtain ⟨-, h⟩ | ⟨_, _, _, -, -, h⟩ | ⟨g, -, hex⟩ := consumeGrantWith_cases a status retry db
  · exact h
  · exact h
  · obtain ⟨x, hx, hfp⟩ := hcollide
    exact absurd hfp (hex.enrollable.identity x hx).2

/-! ## Runs -/

theorem Call.run_grants (calls : List Call) {db : Db} (h : Grants db) : Grants (Call.run calls db) :=
  Call.run_induction (P := Grants) (C := fun _ => True) (fun _ => Grants.step) (fun _ _ _ _ => trivial) h

theorem Call.run_keeps_consumed (calls : List Call) {db : Db} {g : EnrollmentGrant}
    (hg : g ∈ db.enrollmentGrants) (hc : g.consumedAt ≠ none) :
    g ∈ (Call.run calls db).enrollmentGrants :=
  Call.run_induction (P := fun db => g ∈ db.enrollmentGrants) (C := fun _ => True)
    (fun _ h heff => heff.keeps_consumed h hc) (fun _ _ _ _ => trivial) hg

/-- **Single-use grants with exact resume**, for every run `calls`, every continuation
`more` and every next call. -/
theorem grants_single_use (calls more : List Call) :
    let db := Call.run calls {}
    (∀ g ∈ db.enrollmentGrants, g.consumedAt ≠ none →
      g ∈ (Call.run more db).enrollmentGrants ∧
        ∀ g' ∈ (Call.run more db).enrollmentGrants, g'.grantId = g.grantId → g' = g) ∧
    (∀ g ∈ db.enrollmentGrants, ∀ g' ∈ db.enrollmentGrants, ∀ id,
      g.consumedIdentityId = some id → g'.consumedIdentityId = some id → g = g') ∧
    (∀ g ∈ db.enrollmentGrants, ∀ t, g.consumedAt = some t → (g.createdAt ≤ t ∧ t < g.expiresAt) ∧
      ∃ id i, g.consumedIdentityId = some id ∧ db.identityById id = some i ∧ i.createdAt = t) ∧
    (∀ a g, a.ActorOk → db.grantByToken (tokenSha256 a.token) = some g → g.consumedAt ≠ none →
      AuditOnly db (consumeEnrollmentGrant a db).2 ∧
      (consumeEnrollmentGrant a db).1 = .error (.authorization enrollmentRejection) ∧
      AuditOnly db (beginEndpointEnrollment a db).2 ∧
      ((∃ e i, Resumes a g db e i ∧
          (beginEndpointEnrollment a db).1 = .ok (e, i.toEndpointIdentity)) ∨
        (¬ ∃ e i, Resumes a g db e i) ∧
          (beginEndpointEnrollment a db).1 = .error (.authorization enrollmentRejection))) ∧
    ∀ a g, db.grantByToken (tokenSha256 a.token) = some g → g.consumedAt = none →
      (∃ x ∈ db.endpointIdentities, x.publicKeyFingerprint = a.publicKeyFingerprint) →
      g ∈ (consumeEnrollmentGrant a db).2.enrollmentGrants ∧
        g ∈ (beginEndpointEnrollment a db).2.enrollmentGrants := by
  intro db
  have h : Grants db := Call.run_grants calls .empty
  refine ⟨fun g hg hc => ?_, h.distinct, fun g hg => (h.each g hg).bound, fun a g ha hg hc => ?_,
    fun a g hg _ hcollide => ?_⟩
  · have hkept := Call.run_keeps_consumed more hg hc
    exact ⟨hkept, fun g' hg' hid => List.inj_on_of_nodup_map (Call.run_grants more h).ids hg' hkept hid⟩
  · obtain ⟨hlog, hout⟩ := consumeGrantWith_consumed false ha hg hc .active
    obtain ⟨hlog', hout'⟩ := consumeGrantWith_consumed true ha hg hc .pending
    refine ⟨hlog, ?_, hlog', ?_⟩
    · rcases hout with ⟨e, i, hd, -⟩ | ⟨-, herr⟩
      · exact absurd (consumeDecision_resume hd).1 (by decide)
      · exact herr
    · rcases hout' with ⟨e, i, hd, hok⟩ | ⟨hno, herr⟩
      · exact .inl ⟨e, i, resumes_of_resume hd, hok⟩
      · exact .inr ⟨fun ⟨e, i, hr⟩ => hno e i (hr.decision h hg hc), herr⟩
  · have hmem : g ∈ db.enrollmentGrants := List.mem_of_find?_eq_some hg
    obtain ⟨_, hdb⟩ := consumeGrantWith_collision .active false hcollide
    obtain ⟨_, hdb'⟩ := consumeGrantWith_collision .pending true hcollide
    exact ⟨by rw [consumeEnrollmentGrant, hdb]; exact hmem,
      by rw [beginEndpointEnrollment, hdb']; exact hmem⟩

end NorthgateRmm.Server
