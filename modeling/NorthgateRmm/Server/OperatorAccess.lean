import NorthgateRmm.Server.OperatorApi

/-!
# Operator reads are authorized and audited

What a run of `handle` looks like from its log, in every world: data leaves only
behind the checks and the audit events that stand for it, and a denial is decided
before any endpoint data is read.
-/

namespace NorthgateRmm.Server.Operator

variable {isprintable : String → Bool}

/-! ## What a release of data needs -/

/-- The principal is the policy's operator, with its role and a second factor, in a
session that is current and not too old. -/
structure Authorized (policy : OperatorAuthorizationPolicy isprintable) (p : OperatorPrincipal isprintable)
    (now : Instant) : Prop where
  issuer : p.issuer = policy.issuer
  tenant : p.tenant = policy.tenant
  subject : p.subject = policy.subject
  clientId : p.clientId = policy.clientId
  role : policy.requiredRole ∈ p.roles
  mfa : p.mfa = true
  begun : p.authenticatedAt ≤ now
  current : now < p.expiresAt
  age : now - p.authenticatedAt ≤ policy.maximumSessionAge

theorem authorizationDenial_eq_none {policy : OperatorAuthorizationPolicy isprintable}
    {p : OperatorPrincipal isprintable} {now : Instant} :
    authorizationDenial policy p now = none ↔ Authorized policy p now := by
  constructor
  · intro h
    unfold authorizationDenial at h
    split at h <;> [cases h; skip]
    split at h <;> [cases h; skip]
    split at h <;> [cases h; skip]
    split at h <;> [cases h; skip]
    rename_i hscope hassurance hcurrent hage
    simp only [not_or, ne_eq, not_not, Bool.not_eq_false] at hscope hassurance hcurrent
    exact ⟨hscope.1, hscope.2.1, hscope.2.2.1, hscope.2.2.2, hassurance.1, hassurance.2,
      Int.not_lt.mp hcurrent.1, hcurrent.2, Int.not_lt.mp hage⟩
  · intro h
    simp [authorizationDenial, h.issuer, h.tenant, h.subject, h.clientId, h.role, h.mfa, h.current,
      Int.not_lt.mpr h.begun, Int.not_lt.mpr h.age]

/-- What a route shows. -/
inductive Resource where
  | collection
  | endpoint (endpointId : Uuid)

def Resource.subject : Resource → String
  | .collection => "endpoint:collection"
  | .endpoint endpointId => "endpoint:" ++ endpointId.toText

def Resource.action : Resource → String
  | .collection => "endpoint.list.read"
  | .endpoint _ => "endpoint.detail.read"

/-- The resource the path of a request names. -/
def OperatorRequest.Names (request : OperatorRequest) : Resource → Prop
  | .collection => request.path = some "/endpoints"
  | .endpoint endpointId => ∃ path, request.path = some path ∧ endpointIdFromPath path = some endpointId

/-- Calls that read data of a resource and of nothing else. -/
def Entry.Of : Entry isprintable → Resource → Prop
  | .listed _, .collection => True
  | .readStatus _, .collection => True
  | .readEndpoint id, .endpoint endpointId => id = endpointId
  | .readIdentity _, .endpoint _ => True
  | .readStatus id, .endpoint endpointId => id = endpointId
  | _, _ => False

/-- The event that stands before the data of a resource leaves. -/
def readAccepted (p : OperatorPrincipal isprintable) (resource : Resource) (correlationId : Uuid)
    (now : Instant) : OperatorAccessArgs :=
  auditArgs p resource.subject resource.action "accepted" "authenticated viewer read" correlationId now

def authenticationAccepted (p : OperatorPrincipal isprintable) (correlationId : Uuid) (now : Instant) :
    OperatorAccessArgs :=
  auditArgs p "operator:endpoint-views" "operator.authenticate" "accepted" "external session verified"
    correlationId now

/-- The calls of a request whose data left: verification, the accepted authentication
event, the reads of the resource, the accepted read event. -/
structure Released (policy : OperatorAuthorizationPolicy isprintable) (request : OperatorRequest)
    (now : Instant) (correlationId : Uuid) (log : List (Entry isprintable)) : Prop where
  calls : ∃ credential p resource reads,
    request.authorization = some credential ∧ Authorized policy p now ∧ request.Names resource ∧
    (∀ e ∈ reads, e.Of resource) ∧
    log = [.verified credential now (.ok (some p)),
        .recorded (authenticationAccepted p correlationId now) (.ok ())] ++ reads ++
      [.recorded (readAccepted p resource correlationId now) (.ok ())]

/-- Some audit event was not recorded: the store raised. -/
def AuditRaised (log : List (Entry isprintable)) : Prop := ∃ a x, Entry.recorded a (.error x) ∈ log

@[simp]
theorem auditRaised_append {log tail : List (Entry isprintable)} :
    AuditRaised (log ++ tail) ↔ AuditRaised log ∨ AuditRaised tail := by
  simp only [AuditRaised, List.mem_append, exists_or]

@[simp]
theorem not_auditRaised_ok {a : OperatorAccessArgs} {u : Unit} :
    ¬ AuditRaised [(Entry.recorded a (.ok u) : Entry isprintable)] := by
  simp [AuditRaised]

theorem Entry.Of.not_raised {resource : Resource} {reads : List (Entry isprintable)}
    (h : ∀ e ∈ reads, e.Of resource) : ¬ AuditRaised reads := by
  rintro ⟨a, x, hmem⟩
  have := h _ hmem
  cases resource <;> exact this

/-! ## Reading and rendering -/

section Steps

variable {σ : Type} {W : World isprintable σ}

/-- Every answer is possible, and nothing is asked of the states between calls. -/
abbrev World.wp (W : World isprintable σ) {α : Type} (p : Prog (Ask isprintable) Exc α)
    (Q : Except Exc α → σ × List (Entry isprintable) → Prop) (s : σ × List (Entry isprintable)) : Prop :=
  p.wp W.machine (fun _ _ _ => True) (fun _ => True) Q s

/-- A call adds its entry to the log; its exception is the program's. -/
theorem wp_ask {β : Type} {o : Ask isprintable (Except Exc β)}
    {Q : Except Exc β → σ × List (Entry isprintable) → Prop} {s : σ × List (Entry isprintable)} :
    W.wp (ask o) Q s ↔ Q (W.machine.exec () o s).1 (W.machine.exec () o s).2 := by
  simp only [World.wp, ask, Prog.wp_bind, Prog.wp_call, Prog.wp_orFail, true_and, id_eq, true_implies]
  constructor
  · intro h
    cases hr : (W.machine.exec () o s).1 with
    | ok b => exact (h ()).1 b hr
    | error x => exact (h ()).2 x hr
  · intro h c
    exact ⟨fun b hb => hb ▸ h, fun x hx => hx ▸ h⟩

/-- Only data of the resource was read. -/
def Reads (resource : Resource) {α : Type} (log : List (Entry isprintable)) (_ : Except Exc α)
    (s : σ × List (Entry isprintable)) : Prop :=
  ∃ reads, (∀ e ∈ reads, e.Of resource) ∧ s.2 = log ++ reads

theorem Reads.of_ask {resource : Resource} {β γ : Type} {o : Ask isprintable (Except Exc β)}
    {k : β → Prog (Ask isprintable) Exc γ} {e : Entry isprintable} {s : σ × List (Entry isprintable)}
    (ho : (W.machine.exec () o s).2.2 = s.2 ++ [e]) (he : e.Of resource)
    (hk : ∀ b s', W.wp (k b) (Reads resource s'.2) s') : W.wp (ask o >>= k) (Reads resource s.2) s := by
  refine Prog.wp_bind.mpr (wp_ask.mpr ?_)
  have hfirst : ∀ e' ∈ [e], e'.Of resource := by simpa using he
  cases (W.machine.exec () o s).1 with
  | error x => exact ⟨[e], hfirst, ho⟩
  | ok b =>
    refine Prog.wp_mono (hk b _) fun r s' ⟨reads, hreads, hlog⟩ => ⟨e :: reads, ?_, ?_⟩
    · exact List.forall_mem_cons.mpr ⟨he, hreads⟩
    · rw [hlog, ho, List.append_assoc, List.singleton_append]

theorem Reads.pure {resource : Resource} {α : Type} {a : α} {s : σ × List (Entry isprintable)} :
    W.wp (Pure.pure a : Prog (Ask isprintable) Exc α) (Reads resource s.2) s :=
  ⟨[], nofun, (List.append_nil _).symm⟩

/-- Reading first, then computing with what was read. -/
theorem Reads.bind_pure {resource : Resource} {α β : Type} {p : Prog (Ask isprintable) Exc α} {f : α → β}
    {s : σ × List (Entry isprintable)} (h : W.wp p (Reads resource s.2) s) :
    W.wp (p >>= fun a => Pure.pure (f a)) (Reads resource s.2) s := by
  refine Prog.wp_bind.mpr (Prog.wp_mono h fun r s' hr => ?_)
  cases r <;> exact hr

theorem renderRows_reads {now : Instant} {endpoints : List Endpoint} {s : σ × List (Entry isprintable)} :
    W.wp (renderRows now endpoints) (Reads .collection s.2) s := by
  induction endpoints generalizing s with
  | nil => exact Reads.pure
  | cons e rest ih => exact Reads.of_ask rfl trivial fun status s' => Reads.bind_pure ih

theorem renderEndpointPage_reads {endpoints : List Endpoint} {nextAfter : Option Uuid} {now : Instant}
    {s : σ × List (Entry isprintable)} :
    W.wp (renderEndpointPage endpoints nextAfter now) (Reads .collection s.2) s :=
  Reads.bind_pure renderRows_reads

theorem renderEndpointDetail_reads {endpointId : Uuid} {now : Instant} {s : σ × List (Entry isprintable)} :
    W.wp (renderEndpointDetail endpointId now) (Reads (.endpoint endpointId) s.2) s :=
  Reads.of_ask rfl rfl fun _ _ => Reads.of_ask rfl trivial fun _ _ => Reads.of_ask rfl rfl fun _ _ => Reads.pure

/-! ## The routes -/

/-- How a route ends: an audit event that was not recorded ends it with an exception,
and a page leaves only behind the reads and the read event of its resource. -/
structure Ends (p : OperatorPrincipal isprintable) (request : OperatorRequest) (correlationId : Uuid)
    (now : Instant) (r : Except Exc OperatorResponse) (tail : List (Entry isprintable)) : Prop where
  raised : AuditRaised tail → ∃ x, r = .error x
  released : ∀ resp, r = .ok resp → resp.status = 404 ∨ ∃ resource reads, resp.status = 200 ∧
    request.Names resource ∧ (∀ e ∈ reads, e.Of resource) ∧
    tail = reads ++ [.recorded (readAccepted p resource correlationId now) (.ok ())]

variable {p : OperatorPrincipal isprintable} {request : OperatorRequest} {correlationId : Uuid} {now : Instant}

/-- `Ends` as a postcondition, for what is added to a log. -/
def EndsFrom (p : OperatorPrincipal isprintable) (request : OperatorRequest) (correlationId : Uuid)
    (now : Instant) (log : List (Entry isprintable)) (r : Except Exc OperatorResponse)
    (s : σ × List (Entry isprintable)) : Prop :=
  ∃ tail, s.2 = log ++ tail ∧ Ends p request correlationId now r tail

/-- A response that is audited after some reads: an error page, or the page of a
resource behind its read event. -/
theorem audited_ends {resource : Resource} {a : OperatorAccessArgs} {resp : OperatorResponse}
    {reads log : List (Entry isprintable)} (hreads : ∀ e ∈ reads, e.Of resource)
    (hresp : resp.status = 404 ∨
      (resp.status = 200 ∧ request.Names resource ∧ a = readAccepted p resource correlationId now))
    {s : σ × List (Entry isprintable)} (hs : s.2 = log ++ reads) :
    W.wp (do ask (.recordOperatorAccess a); return resp) (EndsFrom p request correlationId now log) s := by
  refine Prog.wp_bind.mpr (wp_ask.mpr ?_)
  have hlog : (W.machine.exec () (.recordOperatorAccess a) s).2.2 =
      log ++ (reads ++ [.recorded a (W.machine.exec () (.recordOperatorAccess a) s).1]) := by
    rw [← List.append_assoc, ← hs]; rfl
  cases h : (W.machine.exec () (.recordOperatorAccess a) s).1 with
  | error x => exact ⟨_, hlog, fun _ => ⟨x, rfl⟩, nofun⟩
  | ok u =>
    rw [h] at hlog
    refine ⟨_, hlog, fun hraised => ?_, ?_⟩
    · exact absurd ((auditRaised_append.mp hraised).resolve_right not_auditRaised_ok)
        (Entry.Of.not_raised hreads)
    · rintro _ ⟨⟩
      obtain hr | ⟨hr, hnames, rfl⟩ := hresp
      · exact .inl hr
      · exact .inr ⟨resource, reads, hr, hnames, hreads, rfl⟩

/-- An exception while reading. -/
theorem read_fails {resource : Resource} {x : Exc} {reads log : List (Entry isprintable)}
    (hreads : ∀ e ∈ reads, e.Of resource) {s : σ × List (Entry isprintable)} (hs : s.2 = log ++ reads) :
    EndsFrom p request correlationId now log (.error x) s :=
  ⟨reads, hs, fun h => absurd h (Entry.Of.not_raised hreads), nofun⟩

theorem notFound_ends {reason : String} {s : σ × List (Entry isprintable)} :
    W.wp (notFound p reason correlationId now) (EndsFrom p request correlationId now s.2) s :=
  @audited_ends _ _ W _ _ _ _ .collection _ _ [] _ (by simp) (.inl rfl) _ (List.append_nil _).symm

theorem serveList_ends {after : Option Uuid} (hpath : request.path = some "/endpoints")
    {s : σ × List (Entry isprintable)} :
    W.wp (serveList p after correlationId now) (EndsFrom p request correlationId now s.2) s := by
  have hpage : ∀ (page : List Endpoint) (s' : σ × List (Entry isprintable)), s'.2 = s.2 ++ [.listed after] →
      ∀ nextAfter, W.wp (do
        let body ← renderEndpointPage (page.take operatorEndpointPageSize) nextAfter now
        ask (.recordOperatorAccess (readAccepted p .collection correlationId now))
        return html body) (EndsFrom p request correlationId now s.2) s' := by
    intro page s' hs' nextAfter
    refine Prog.wp_bind.mpr (Prog.wp_mono renderEndpointPage_reads fun r s'' ⟨reads, hreads, hlog⟩ => ?_)
    have hall : ∀ e ∈ Entry.listed after :: reads, e.Of .collection :=
      List.forall_mem_cons.mpr ⟨trivial, hreads⟩
    have hlog' : s''.2 = s.2 ++ (.listed after :: reads) := by
      rw [hlog, hs', List.append_assoc, List.singleton_append]
    cases r with
    | error x => exact read_fails hall hlog'
    | ok body => exact audited_ends hall (.inr ⟨rfl, hpath, rfl⟩) hlog'
  refine Prog.wp_bind.mpr (wp_ask.mpr ?_)
  cases h : (W.machine.exec () (.listEndpointPage after (operatorEndpointPageSize + 1)) s).1 with
  | error x => exact @read_fails _ _ _ _ _ _ .collection _ [.listed after] _ (by simp [Entry.Of]) _ rfl
  | ok page => exact hpage page _ rfl _

theorem serveDetail_ends {endpointId : Uuid} (hpath : request.Names (.endpoint endpointId))
    {s : σ × List (Entry isprintable)} :
    W.wp (serveDetail p endpointId correlationId now) (EndsFrom p request correlationId now s.2) s := by
  refine Prog.wp_bind.mpr (Prog.wp_attempt.mpr (Prog.wp_mono renderEndpointDetail_reads ?_))
  rintro r s' ⟨reads, hreads, hlog⟩
  match r with
  | .ok body => exact audited_ends hreads (.inr ⟨rfl, hpath, rfl⟩) hlog
  | .error (.error (.notFound m)) => exact audited_ends hreads (.inl rfl) hlog
  | .error (.error (.validation m)) | .error (.error (.authorization m)) | .error (.error (.replay m))
  | .error (.error (.serviceUnavailable m)) | .error (.error (.database m)) | .error (.other m)
  | .error (.base m) => exact read_fails hreads hlog

/-- The routes of an authorized principal. -/
theorem serve_ends (W : World isprintable σ) (p : OperatorPrincipal isprintable) (request : OperatorRequest)
    (correlationId : Uuid) (now : Instant) (s : σ × List (Entry isprintable)) :
    W.wp (serve p request correlationId now) (EndsFrom p request correlationId now s.2) s := by
  unfold serve
  split
  case h_1 => exact notFound_ends
  case h_2 path queryString hroute =>
    have hpath : request.path = some path := by
      unfold routeOk at hroute
      split at hroute <;> [skip; cases hroute]
      split at hroute <;> cases hroute
      assumption
    split
    case isTrue h =>
      subst h
      split
      · exact notFound_ends
      · exact serveList_ends hpath
    case isFalse =>
      split
      · exact notFound_ends
      · rename_i endpointId hid
        refine serveDetail_ends ⟨path, hpath, ?_⟩
        split at hid <;> [exact hid; cases hid]

/-! ## Authentication -/

/-- The reason and the world at the moment authentication is rejected: no credential of
an admissible size, or a verifier that raised an `Exception` or returned no principal. -/
def World.rejection (W : World isprintable σ) (authorization : Option String) (now : Instant) (s : σ) :
    Option (String × σ) :=
  match authorization.filter credentialOk with
  | none => some ("operator credential missing or oversized", s)
  | some credential => match W.verify credential now s with
    | (.ok (some _), _) => none
    | (.error (.base _), _) => none
    | (_, s') => some ("external session verification failed", s')

/-- The calls before authentication is decided. -/
def World.verification (W : World isprintable σ) (authorization : Option String) (now : Instant) (s : σ) :
    List (Entry isprintable) :=
  match authorization.filter credentialOk with
  | none => []
  | some credential => [.verified credential now (W.verify credential now s).1]

theorem World.verification_not_raised {authorization : Option String} {s : σ} :
    ¬ AuditRaised (W.verification authorization now s) := by
  rintro ⟨a, x, hmem⟩
  unfold World.verification at hmem
  split at hmem <;> simp at hmem

theorem finish_ask {β γ : Type} {o : Ask isprintable (Except Exc β)} {k : β → Prog (Ask isprintable) Exc γ}
    {s : σ × List (Entry isprintable)} :
    (ask o >>= k).finish W.machine () s = match (W.machine.exec () o s).1 with
      | .ok b => (k b).finish W.machine () (W.machine.exec () o s).2
      | .error x => (.error x, (W.machine.exec () o s).2) := by
  rw [Prog.finish_bind, ask, Prog.finish_bind]
  simp only [Prog.call, Prog.finish]
  cases (W.machine.exec () o s).1 <;> rfl

/-- What a program does that records an event and then goes on. -/
theorem finish_record {γ : Type} {a : OperatorAccessArgs} {k : Unit → Prog (Ask isprintable) Exc γ} {s : σ}
    {log : List (Entry isprintable)} :
    (ask (.recordOperatorAccess a) >>= k).finish W.machine () (s, log) =
      match W.recordOperatorAccess a s with
      | (.ok u, s') => (k u).finish W.machine () (s', log ++ [.recorded a (.ok u)])
      | (.error x, s') => (.error x, s', log ++ [.recorded a (.error x)]) := by
  rw [finish_ask]
  simp only [World.machine]
  obtain ⟨r, s'⟩ := W.recordOperatorAccess a s
  cases r <;> rfl

theorem finish_verify {γ : Type} {credential : String}
    {k : Except Exc (Option (OperatorPrincipal isprintable)) → Prog (Ask isprintable) Exc γ} {s : σ}
    {log : List (Entry isprintable)} :
    (Prog.call (.verify credential now) >>= k).finish W.machine () (s, log) =
      (k (W.verify credential now s).1).finish W.machine () ((W.verify credential now s).2,
        log ++ [.verified credential now (W.verify credential now s).1]) := rfl

/-- A rejected authentication is recorded; then it fails with the store's exception, or
with an `AuthorizationError` of its own. -/
theorem authenticate_rejected {authorization : Option String} {s s' : σ} {reason : String}
    (h : W.rejection authorization now s = some (reason, s')) :
    (authenticate authorization now correlationId).finish W.machine () (s, []) =
      match W.recordOperatorAccess (rejectedAuthentication reason correlationId now) s' with
      | (.ok u, s'') => (.error authenticationFailed, s'', W.verification authorization now s ++
          [.recorded (rejectedAuthentication reason correlationId now) (.ok u)])
      | (.error x, s'') => (.error x, s'', W.verification authorization now s ++
          [.recorded (rejectedAuthentication reason correlationId now) (.error x)]) := by
  unfold World.rejection at h
  unfold authenticate World.verification
  cases hc : authorization.filter credentialOk with
  | none =>
    simp only [hc, Option.some.injEq, Prod.mk.injEq] at h
    obtain ⟨rfl, rfl⟩ := h
    exact finish_record
  | some credential =>
    simp only [hc] at h
    simp only [finish_verify]
    generalize W.verify credential now s = out at h ⊢
    obtain ⟨r, s₁⟩ := out
    match r with
    | .ok (some p) => cases h
    | .error (.base n) => cases h
    | .ok none =>
      cases h
      exact finish_record
    | .error (.error e) =>
      cases h
      exact finish_record
    | .error (.other n) =>
      cases h
      exact finish_record

/-- Without a rejection the verifier returned a principal, or raised what is no `Exception`. -/
theorem authenticate_verified {authorization : Option String} {s : σ}
    (h : W.rejection authorization now s = none) :
    (∃ credential p s', authorization = some credential ∧
      W.verification authorization now s = [.verified credential now (.ok (some p))] ∧
      (authenticate authorization now correlationId).finish W.machine () (s, []) =
        (.ok p, s', W.verification authorization now s)) ∨
    ∃ s' n, (authenticate authorization now correlationId).finish W.machine () (s, []) =
      (.error (.base n), s', W.verification authorization now s) := by
  unfold World.rejection at h
  unfold authenticate World.verification
  cases hc : authorization.filter credentialOk with
  | none => simp [hc] at h
  | some credential =>
    have hauth : authorization = some credential := (Option.filter_eq_some_iff.mp hc).1
    simp only [hc] at h
    simp only [finish_verify]
    generalize W.verify credential now s = out at h ⊢
    obtain ⟨r, s₁⟩ := out
    match r with
    | .ok (some p) => exact .inl ⟨credential, p, s₁, hauth, rfl, rfl⟩
    | .error (.base n) => exact .inr ⟨s₁, n, rfl⟩
    | .ok none => cases h
    | .error (.error e) => cases h
    | .error (.other n) => cases h

/-! ## The whole request -/

/-- What follows an authentication. -/
def proceed (policy : OperatorAuthorizationPolicy isprintable) (request : OperatorRequest) (now : Instant)
    (correlationId : Uuid) (p : OperatorPrincipal isprintable) : Prog (Ask isprintable) Exc OperatorResponse := do
  ask (.recordOperatorAccess (authenticationAccepted p correlationId now))
  match authorizationDenial policy p now with
  | some denial =>
    ask (.recordOperatorAccess (auditArgs p "operator:endpoint-views" "operator.authorize"
      "rejected" denial correlationId now))
    return errorPage 403 "forbidden"
  | none => serve p request correlationId now

variable {policy : OperatorAuthorizationPolicy isprintable}

theorem handle_eq {s : σ} :
    W.handle policy request now correlationId s =
      match (authenticate request.authorization now correlationId).finish W.machine () (s, []) with
      | (.ok p, s') => (proceed policy request now correlationId p).finish W.machine () s'
      | (.error (.error (.authorization _)), s') => (.ok (errorPage 401 "unauthorized"), s')
      | (.error x, s') => (.error x, s') := by
  rw [World.handle, handle, Prog.finish_bind, Prog.finish_attempt]
  obtain ⟨r, s'⟩ := (authenticate request.authorization now correlationId).finish W.machine () (s, [])
  match r with
  | .ok p => rfl
  | .error (.error (.authorization m)) => rfl
  | .error (.error (.validation m)) | .error (.error (.notFound m)) | .error (.error (.replay m))
  | .error (.error (.serviceUnavailable m)) | .error (.error (.database m)) | .error (.other m)
  | .error (.base m) => rfl

/-- An authenticated request: one whose principal is denied ends with 403, and data
leaves only for an authorized principal. -/
theorem proceed_ends (W : World isprintable σ) (policy : OperatorAuthorizationPolicy isprintable)
    (request : OperatorRequest) (now : Instant) (correlationId : Uuid) (p : OperatorPrincipal isprintable)
    (s : σ) (log : List (Entry isprintable)) :
    ∃ r s' tail, (proceed policy request now correlationId p).finish W.machine () (s, log) = (r, s', log ++ tail) ∧
      (AuditRaised tail → ∃ x, r = .error x) ∧
      ∀ resp, r = .ok resp → resp.status = 404 ∨
        (resp.status = 403 ∧ ∃ denial, authorizationDenial policy p now = some denial) ∨
        (resp.status = 200 ∧ Authorized policy p now ∧ ∃ resource reads, request.Names resource ∧
          (∀ e ∈ reads, e.Of resource) ∧
          tail = [.recorded (authenticationAccepted p correlationId now) (.ok ())] ++ reads ++
            [.recorded (readAccepted p resource correlationId now) (.ok ())]) := by
  rw [proceed, finish_record]
  generalize W.recordOperatorAccess (authenticationAccepted p correlationId now) s = out
  obtain ⟨_ | u, s₁⟩ := out
  case error x => exact ⟨_, _, _, rfl, fun _ => ⟨x, rfl⟩, nofun⟩
  cases hd : authorizationDenial policy p now with
  | some denial =>
    dsimp only
    rw [finish_record]
    generalize W.recordOperatorAccess _ s₁ = out
    obtain ⟨_ | u', s₂⟩ := out
    case error x =>
      exact ⟨_, _, _, Prod.ext rfl (Prod.ext rfl (List.append_assoc _ _ _)), fun _ => ⟨x, rfl⟩, nofun⟩
    refine ⟨_, s₂, _, Prod.ext rfl (Prod.ext rfl (List.append_assoc _ _ _)), ?_, ?_⟩
    · rintro ⟨a, x, hmem⟩
      simp at hmem
    · rintro _ ⟨⟩
      exact .inr (.inl ⟨rfl, denial, rfl⟩)
  | none =>
    obtain ⟨tail, hlog, hends⟩ := Prog.finish_of_wp (serve_ends W p request correlationId now
      (s₁, log ++ [.recorded (authenticationAccepted p correlationId now) (.ok u)])) (c := ())
      fun _ _ => trivial
    refine ⟨_, _, _, Prod.ext rfl (Prod.ext rfl (hlog.trans (List.append_assoc _ _ _))), ?_, ?_⟩
    · intro hraised
      exact hends.raised ((auditRaised_append.mp hraised).resolve_left not_auditRaised_ok)
    · intro resp hresp
      obtain h404 | ⟨resource, reads, h200, hnames, hreads, rfl⟩ := hends.released resp hresp
      · exact .inl h404
      · exact .inr (.inr ⟨h200, authorizationDenial_eq_none.mp hd, resource, reads, hnames, hreads, rfl⟩)

end Steps

/-! ## Two worlds -/

section Agreement

variable {σ σ' : Type} {W : World isprintable σ} {W' : World isprintable σ'} {R : σ → σ' → Prop}

/-- The worlds differ in endpoint data only: related by `R`, they verify and record alike.
What they answer to reads, and what reads do to them, is free. -/
structure World.Agree (W : World isprintable σ) (W' : World isprintable σ') (R : σ → σ' → Prop) : Prop where
  verify : ∀ credential now s s', R s s' →
    (W.verify credential now s).1 = (W'.verify credential now s').1 ∧
      R (W.verify credential now s).2 (W'.verify credential now s').2
  record : ∀ a s s', R s s' →
    (W.recordOperatorAccess a s).1 = (W'.recordOperatorAccess a s').1 ∧
      R (W.recordOperatorAccess a s).2 (W'.recordOperatorAccess a s').2

/-- Runs in two worlds with the same result and the same log. -/
def SameRun (R : σ → σ' → Prop) {α : Type} (out : Except Exc α × σ × List (Entry isprintable))
    (out' : Except Exc α × σ' × List (Entry isprintable)) : Prop :=
  out.1 = out'.1 ∧ R out.2.1 out'.2.1 ∧ out.2.2 = out'.2.2

variable {p : OperatorPrincipal isprintable} {request : OperatorRequest} {correlationId : Uuid} {now : Instant}
  {policy : OperatorAuthorizationPolicy isprintable} {s : σ} {s' : σ'} {log : List (Entry isprintable)}

theorem record_same {α : Type} {a : OperatorAccessArgs} {k : Unit → Prog (Ask isprintable) Exc α}
    (hW : W.Agree W' R) (hR : R s s')
    (hk : ∀ (u : Unit) (s : σ) (s' : σ') log, R s s' →
      SameRun R ((k u).finish W.machine () (s, log)) ((k u).finish W'.machine () (s', log))) :
    SameRun R ((ask (.recordOperatorAccess a) >>= k).finish W.machine () (s, log))
      ((ask (.recordOperatorAccess a) >>= k).finish W'.machine () (s', log)) := by
  rw [finish_record, finish_record]
  obtain ⟨hr, hs⟩ := hW.record a s s' hR
  generalize W.recordOperatorAccess a s = out at hr hs ⊢
  generalize W'.recordOperatorAccess a s' = out' at hr hs ⊢
  obtain ⟨r, t⟩ := out
  obtain ⟨r', t'⟩ := out'
  cases hr
  cases r with
  | ok u => exact hk u t t' _ hs
  | error x => exact ⟨rfl, hs, rfl⟩

theorem authenticate_same (hW : W.Agree W' R) (hR : R s s') {authorization : Option String} :
    SameRun R ((authenticate authorization now correlationId).finish W.machine () (s, log))
      ((authenticate authorization now correlationId).finish W'.machine () (s', log)) := by
  have hfail : ∀ (u : Unit) (s : σ) (s' : σ') (log : List (Entry isprintable)), R s s' →
      SameRun R ((Prog.fail authenticationFailed : Prog (Ask isprintable) Exc
        (OperatorPrincipal isprintable)).finish W.machine () (s, log))
        ((Prog.fail authenticationFailed).finish W'.machine () (s', log)) :=
    fun _ _ _ _ h => ⟨rfl, h, rfl⟩
  unfold authenticate
  split
  · exact record_same hW hR hfail
  · rename_i credential _
    rw [finish_verify, finish_verify]
    obtain ⟨hr, hs⟩ := hW.verify credential now s s' hR
    generalize W.verify credential now s = out at hr hs ⊢
    generalize W'.verify credential now s' = out' at hr hs ⊢
    obtain ⟨r, t⟩ := out
    obtain ⟨r', t'⟩ := out'
    cases hr
    dsimp only
    split
    · exact ⟨rfl, hs, rfl⟩
    · exact ⟨rfl, hs, rfl⟩
    · exact record_same hW hs hfail

theorem proceed_denied_same (hW : W.Agree W' R) (hR : R s s') {denial : String}
    (hd : authorizationDenial policy p now = some denial) :
    SameRun R ((proceed policy request now correlationId p).finish W.machine () (s, log))
      ((proceed policy request now correlationId p).finish W'.machine () (s', log)) := by
  unfold proceed
  refine record_same hW hR fun u s s' log h => ?_
  simp only [hd]
  exact record_same hW h fun _ _ _ _ h => ⟨rfl, h, rfl⟩

/-- A denied request reads no endpoint data: its response and its audit events are the
same in a world that differs in endpoint data only. -/
theorem handle_denied_same (hW : W.Agree W' R) (hR : R s s') {resp : OperatorResponse}
    (hresp : (W.handle policy request now correlationId s).1 = .ok resp)
    (hstatus : resp.status = 401 ∨ resp.status = 403) :
    SameRun R (W.handle policy request now correlationId s) (W'.handle policy request now correlationId s') := by
  have hauth : SameRun R ((authenticate request.authorization now correlationId).finish W.machine () (s, []))
      ((authenticate request.authorization now correlationId).finish W'.machine () (s', [])) :=
    authenticate_same hW hR
  rw [handle_eq] at hresp ⊢
  rw [handle_eq]
  generalize (authenticate request.authorization now correlationId).finish W.machine () (s, []) = out
    at hauth hresp ⊢
  generalize (authenticate request.authorization now correlationId).finish W'.machine () (s', []) = out'
    at hauth ⊢
  obtain ⟨r, t, log⟩ := out
  obtain ⟨r', t', log'⟩ := out'
  obtain ⟨⟨⟩, ht, ⟨⟩⟩ := hauth
  cases r with
  | ok p =>
    cases hd : authorizationDenial policy p now with
    | some denial => exact proceed_denied_same hW ht hd
    | none =>
      obtain ⟨r, s₁, tail, hrun, -, hends⟩ := proceed_ends W policy request now correlationId p t log
      simp only [hrun] at hresp
      obtain h | ⟨h, denial, hd'⟩ | ⟨h, -⟩ := hends resp hresp
      · omega
      · rw [hd] at hd'
        cases hd'
      · omega
  | error x =>
    match x with
    | .error (.authorization m) => exact ⟨rfl, ht, rfl⟩
    | .error (.validation m) | .error (.notFound m) | .error (.replay m) | .error (.serviceUnavailable m)
    | .error (.database m) | .other m | .base m => exact ⟨rfl, ht, rfl⟩

end Agreement

/-! ## Every request -/

section Handle

variable {σ : Type} {W : World isprintable σ} {policy : OperatorAuthorizationPolicy isprintable}
  {request : OperatorRequest} {now : Instant} {correlationId : Uuid} {s : σ}

/-- The store answers the event of a rejected authentication with an `AuthorizationError`,
which `handle` takes for the one that `_authenticate` raises after recording. -/
def World.MistakenRejection (W : World isprintable σ) (request : OperatorRequest) (now : Instant)
    (correlationId : Uuid) (s : σ) : Prop :=
  ∃ reason s' m, W.rejection request.authorization now s = some (reason, s') ∧
    (W.recordOperatorAccess (rejectedAuthentication reason correlationId now) s').1 =
      .error (.error (.authorization m))

/-- A request whose authentication is rejected reads nothing and answers 401, unless the
store raised something else than an `AuthorizationError`. -/
theorem handle_rejected {reason : String} {s' : σ}
    (h : W.rejection request.authorization now s = some (reason, s')) :
    W.handle policy request now correlationId s =
      (match (W.recordOperatorAccess (rejectedAuthentication reason correlationId now) s').1 with
        | .ok _ => .ok (errorPage 401 "unauthorized")
        | .error (.error (.authorization _)) => .ok (errorPage 401 "unauthorized")
        | .error x => .error x,
      (W.recordOperatorAccess (rejectedAuthentication reason correlationId now) s').2,
      W.verification request.authorization now s ++
        [.recorded (rejectedAuthentication reason correlationId now)
          (W.recordOperatorAccess (rejectedAuthentication reason correlationId now) s').1]) := by
  rw [handle_eq, authenticate_rejected h]
  generalize W.recordOperatorAccess (rejectedAuthentication reason correlationId now) s' = out
  obtain ⟨r, t⟩ := out
  match r with
  | .ok u => rfl
  | .error (.error (.authorization m)) => rfl
  | .error (.error (.validation m)) | .error (.error (.notFound m)) | .error (.error (.replay m))
  | .error (.error (.serviceUnavailable m)) | .error (.error (.database m)) | .error (.other m)
  | .error (.base m) => rfl

/-- A request whose authentication is not rejected: the verifier returned a principal, or
raised what `except Exception` lets pass. -/
theorem handle_verified (h : W.rejection request.authorization now s = none) :
    (∃ credential p s', request.authorization = some credential ∧
      W.handle policy request now correlationId s =
        (proceed policy request now correlationId p).finish W.machine ()
          (s', [.verified credential now (.ok (some p))])) ∨
    ∃ n s', W.handle policy request now correlationId s =
      (.error (.base n), s', W.verification request.authorization now s) := by
  rw [handle_eq]
  obtain ⟨credential, p, s', hcred, hver, hauth⟩ | ⟨s', n, hauth⟩ := authenticate_verified h
  · exact .inl ⟨credential, p, s', hcred, by rw [hauth, hver]⟩
  · exact .inr ⟨n, s', by rw [hauth]⟩

/-- Data left: status 200. -/
theorem handle_released {resp : OperatorResponse}
    (hresp : (W.handle policy request now correlationId s).1 = .ok resp) (hstatus : resp.status = 200) :
    Released policy request now correlationId (W.handle policy request now correlationId s).2.2 := by
  cases hrej : W.rejection request.authorization now s with
  | some rejected =>
    rw [handle_rejected hrej] at hresp
    dsimp only at hresp
    split at hresp
    · cases hresp
      cases hstatus
    · cases hresp
      cases hstatus
    · cases hresp
  | none =>
    obtain ⟨credential, p, s', hcred, hrun⟩ | ⟨n, s', hrun⟩ := handle_verified hrej
    · rw [hrun] at hresp ⊢
      obtain ⟨r, s₁, tail, hproceed, -, hends⟩ := proceed_ends W policy request now correlationId p s'
        [.verified credential now (.ok (some p))]
      rw [hproceed] at hresp ⊢
      obtain h | ⟨h, -⟩ | ⟨-, hp, resource, reads, hnames, hreads, rfl⟩ := hends resp hresp
      · omega
      · omega
      · exact ⟨credential, p, resource, reads, hcred, hp, hnames, hreads, rfl⟩
    · rw [hrun] at hresp
      cases hresp

/-- An audit event that could not be recorded leaves no response, but for the one case. -/
theorem handle_raised_iff :
    (AuditRaised (W.handle policy request now correlationId s).2.2 →
        ∀ resp, (W.handle policy request now correlationId s).1 ≠ .ok resp) ↔
      ¬ W.MistakenRejection request now correlationId s := by
  cases hrej : W.rejection request.authorization now s with
  | some rejected =>
    obtain ⟨reason, s'⟩ := rejected
    have hmistaken : W.MistakenRejection request now correlationId s ↔
        ∃ m, (W.recordOperatorAccess (rejectedAuthentication reason correlationId now) s').1 =
          .error (.error (.authorization m)) := by
      constructor
      · rintro ⟨reason', s'', m, hrej', hm⟩
        rw [hrej] at hrej'
        cases hrej'
        exact ⟨m, hm⟩
      · rintro ⟨m, hm⟩
        exact ⟨reason, s', m, hrej, hm⟩
    rw [hmistaken, handle_rejected hrej]
    generalize W.recordOperatorAccess (rejectedAuthentication reason correlationId now) s' = out
    obtain ⟨r, t⟩ := out
    have hraised : ∀ x, AuditRaised (W.verification request.authorization now s ++
        [.recorded (rejectedAuthentication reason correlationId now) (.error x)]) :=
      fun x => auditRaised_append.mpr (.inr ⟨_, x, List.mem_singleton.mpr rfl⟩)
    match r with
    | .ok u => simp [World.verification_not_raised]
    | .error (.error (.authorization m)) =>
      exact iff_of_false (fun h => h (hraised _) _ rfl) (fun h => h ⟨m, rfl⟩)
    | .error (.error (.validation m)) | .error (.error (.notFound m)) | .error (.error (.replay m))
    | .error (.error (.serviceUnavailable m)) | .error (.error (.database m)) | .error (.other m)
    | .error (.base m) => simp
  | none =>
    refine iff_of_true (fun hraised resp hresp => ?_) (by simp [World.MistakenRejection, hrej])
    obtain ⟨credential, p, s', hcred, hrun⟩ | ⟨n, s', hrun⟩ := handle_verified hrej
    · rw [hrun] at hresp hraised
      obtain ⟨r, s₁, tail, hproceed, hends, -⟩ := proceed_ends W policy request now correlationId p s'
        [.verified credential now (.ok (some p))]
      rw [hproceed] at hresp hraised
      rcases auditRaised_append.mp hraised with ⟨a, x, hmem⟩ | htail
      · simp at hmem
      · obtain ⟨x, hx⟩ := hends htail
        rw [hx] at hresp
        cases hresp
    · rw [hrun] at hresp
      cases hresp

/-- **Operator reads.** Data leaves only behind a verification of this call, the checks of
the policy and the two accepted events of one correlation id; a denial does not depend on
endpoint data; and an event that was not recorded leaves no response exactly when the
store does not answer the event of a rejected authentication with an `AuthorizationError`. -/
theorem handle_authorized_audited (W : World isprintable σ) (policy : OperatorAuthorizationPolicy isprintable)
    (request : OperatorRequest) (now : Instant) (correlationId : Uuid) (s : σ) :
    (∀ resp, (W.handle policy request now correlationId s).1 = .ok resp → resp.status = 200 →
      Released policy request now correlationId (W.handle policy request now correlationId s).2.2) ∧
    (∀ (σ' : Type) (W' : World isprintable σ') (R : σ → σ' → Prop) (s' : σ'), W.Agree W' R → R s s' →
      ∀ resp, (W.handle policy request now correlationId s).1 = .ok resp →
        resp.status = 401 ∨ resp.status = 403 →
        (W'.handle policy request now correlationId s').1 = .ok resp ∧
          (W'.handle policy request now correlationId s').2.2 =
            (W.handle policy request now correlationId s).2.2) ∧
    ((AuditRaised (W.handle policy request now correlationId s).2.2 →
        ∀ resp, (W.handle policy request now correlationId s).1 ≠ .ok resp) ↔
      ¬ W.MistakenRejection request now correlationId s) := by
  refine ⟨fun resp => handle_released, fun σ' W' R s' hW hR resp hresp hstatus => ?_, handle_raised_iff⟩
  obtain ⟨hresult, -, hlog⟩ := handle_denied_same hW hR hresp hstatus
  exact ⟨hresult ▸ hresp, hlog.symm⟩

end Handle

/-! ## A store whose audit is not authorized -/

namespace Sample

/-- A store that refuses every audit event with an `AuthorizationError`. -/
def refusingWorld : World (fun _ => true) Unit where
  verify := fun _ _ s => (.ok none, s)
  recordOperatorAccess := fun _ s => (.error (.error (.authorization "audit writer is not authorized")), s)
  listEndpointPage := fun _ _ s => (.ok [], s)
  getEndpoint := fun _ s => (.error (.error (.notFound "endpoint does not exist")), s)
  getIdentity := fun _ s => (.error (.error (.notFound "identity does not exist")), s)
  endpointStatus := fun _ _ s => (.error (.error (.notFound "endpoint does not exist")), s)

def viewerPolicy : OperatorAuthorizationPolicy (fun _ => true) where
  issuer := "issuer"
  tenant := "tenant"
  subject := "operator"
  clientId := "console"
  texts_valid := by decide
  subject_valid := by decide
  role_valid := by decide
  age_valid := by decide

def anonymousRequest : OperatorRequest where
  method := some "GET"
  path := some "/endpoints"
  authorization := none

end Sample

/-- The event of the missing credential is not recorded, and 401 is answered all the same. -/
theorem refusedAudit_answers :
    AuditRaised (Sample.refusingWorld.handle Sample.viewerPolicy Sample.anonymousRequest 0 ⟨0⟩ ()).2.2 ∧
      (Sample.refusingWorld.handle Sample.viewerPolicy Sample.anonymousRequest 0 ⟨0⟩ ()).1 =
        .ok (errorPage 401 "unauthorized") :=
  ⟨⟨_, _, List.mem_singleton.mpr rfl⟩, rfl⟩

end NorthgateRmm.Server.Operator
