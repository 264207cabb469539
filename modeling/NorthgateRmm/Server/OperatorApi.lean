import NorthgateRmm.Server.Certificates
import NorthgateRmm.Server.Views

/-!
# `OperatorApplication.handle`

A request is authenticated by the external verifier, its principal is compared with
the pinned policy, and endpoint data is read, rendered and audited before it is
returned. The store and the verifier are an arbitrary `World`: each call may answer
anything, raise anything and depend on all that happened before.
-/

namespace NorthgateRmm.Server.Operator

variable {isprintable : String → Bool}

/-! ## Requests, responses and policy -/

def maxAuthorizationHeaderBytes : Nat := 4096
def maxOperatorPathLength : Nat := 256
def operatorEndpointPageSize : Nat := 100

/-- `none` is a value that is no `str` (for the credential, also one without UTF-8 form). -/
structure OperatorRequest where
  method : Option String
  path : Option String
  authorization : Option String
  queryString : Option String := some ""
  deriving DecidableEq

structure OperatorResponse where
  status : Nat
  headers : List (String × String)
  /-- the text whose UTF-8 encoding is sent -/
  body : String
  deriving DecidableEq

structure OperatorAuthorizationPolicy (isprintable : String → Bool) where
  issuer : String
  tenant : String
  subject : String
  clientId : String
  requiredRole : String := "viewer"
  maximumSessionAge : Int := minutes (12 * 60)
  texts_valid : ∀ value ∈ [issuer, tenant, clientId],
    validText isprintable maxOperatorValueLength value = true
  subject_valid : validText isprintable maxOperatorAuditIdentifierLength subject = true
  role_valid : validText isprintable maxOperatorRoleLength requiredRole = true
  age_valid : minutes 5 ≤ maximumSessionAge ∧ maximumSessionAge ≤ minutes (24 * 60)

/-- `_headers`. -/
def headersOf (contentType : String) : List (String × String) :=
  [("content-type", contentType),
   ("cache-control", "no-store"),
   ("content-security-policy",
     "default-src 'none'; frame-ancestors 'none'; base-uri 'none'; form-action 'none'"),
   ("referrer-policy", "no-referrer"),
   ("x-content-type-options", "nosniff")]

/-- `_html`. -/
def html (body : String) : OperatorResponse := ⟨200, headersOf "text/html; charset=utf-8", body⟩

/-- `_error`. -/
def errorPage (status : Nat) (code : String) : OperatorResponse :=
  ⟨status, headersOf "application/json" ++ (if status = 401 then [("www-authenticate", "Bearer")] else []),
    "\x7b\"error\":\"" ++ code ++ "\"\x7d"⟩

/-! ## Routes -/

/-- `UUID(value)` whose `str` is the value again. -/
def canonicalUuid (value : String) : Option Uuid :=
  (parseUuid value).bind fun u => if u.toText = value then some u else none

def dropText (lead text : String) : Option String :=
  if lead.toList.isPrefixOf text.toList then some (String.ofList (text.toList.drop lead.length)) else none

/-- `_endpoint_id_from_path`. -/
def endpointIdFromPath (path : String) : Option Uuid := (dropText "/endpoints/" path).bind canonicalUuid

/-- `_endpoint_page_after`. -/
def endpointPageAfter (queryString : String) : Except Error (Option Uuid) :=
  if queryString.isEmpty then .ok none
  else match (dropText "after=" queryString).bind canonicalUuid with
  | some u => .ok (some u)
  | none => .error (.validation "operator page cursor is invalid")

/-! ## Audit events -/

def rejectedAuthentication (reason : String) (correlationId : Uuid) (now : Instant) : OperatorAccessArgs :=
  { actorId := "unauthenticated"
    subject := "operator:endpoint-views"
    action := "operator.authenticate"
    decision := "rejected"
    reason := reason
    correlationId := correlationId
    now := now }

/-- `_audit`. -/
def auditArgs (p : OperatorPrincipal isprintable) (subject action decision reason : String)
    (correlationId : Uuid) (now : Instant) : OperatorAccessArgs :=
  { actorId := p.subject
    subject := subject
    action := action
    decision := decision
    reason := reason
    correlationId := correlationId
    now := now
    metadata := [("client_id", p.clientId), ("issuer", p.issuer), ("session_id", p.sessionId),
      ("tenant", p.tenant)] }

/-! ## Authentication and authorization -/

def credentialOk (authorization : String) : Bool :=
  (1 ≤ authorization.length && authorization.length ≤ maxAuthorizationHeaderBytes) &&
    (1 ≤ authorization.utf8ByteSize && authorization.utf8ByteSize ≤ maxAuthorizationHeaderBytes)

def authenticationFailed : Exc := .error (.authorization "operator authentication failed")

/-- `_authenticate`. -/
def authenticate (authorization : Option String) (now : Instant) (correlationId : Uuid) :
    Prog (Ask isprintable) Exc (OperatorPrincipal isprintable) :=
  match authorization.filter credentialOk with
  | none => do
    ask (.recordOperatorAccess
      (rejectedAuthentication "operator credential missing or oversized" correlationId now))
    Prog.fail authenticationFailed
  | some credential => do
    match ← Prog.call (.verify credential now) with
    | .ok (some principal) => pure principal
    | .error (.base name) => Prog.fail (.base name)
    | _ =>
      ask (.recordOperatorAccess
        (rejectedAuthentication "external session verification failed" correlationId now))
      Prog.fail authenticationFailed

/-- `_authorization_denial`. -/
def authorizationDenial (policy : OperatorAuthorizationPolicy isprintable)
    (p : OperatorPrincipal isprintable) (now : Instant) : Option String :=
  if p.issuer ≠ policy.issuer ∨ p.tenant ≠ policy.tenant ∨ p.subject ≠ policy.subject ∨
      p.clientId ≠ policy.clientId then
    some "operator identity scope did not match policy"
  else if policy.requiredRole ∉ p.roles ∨ p.mfa = false then
    some "operator assurance or role was insufficient"
  else if now < p.authenticatedAt ∨ ¬ now < p.expiresAt then some "operator session was not current"
  else if policy.maximumSessionAge < now - p.authenticatedAt then
    some "operator session exceeded maximum age"
  else none

/-! ## Handling -/

/-- `GET` on a printable path of 1 to 256 characters. -/
def routeOk (isprintable : String → Bool) (request : OperatorRequest) : Option (String × String) :=
  match request.method, request.path, request.queryString with
  | some method, some path, some queryString =>
    if method = "GET" ∧ 1 ≤ path.length ∧ path.length ≤ maxOperatorPathLength ∧ isprintable path = true then
      some (path, queryString)
    else none
  | _, _, _ => none

/-- The list route, past its cursor. -/
def serveList (p : OperatorPrincipal isprintable) (after : Option Uuid) (correlationId : Uuid)
    (now : Instant) : Prog (Ask isprintable) Exc OperatorResponse := do
  let page ← ask (.listEndpointPage after (operatorEndpointPageSize + 1))
  let hasMore := operatorEndpointPageSize < page.length
  let endpoints := page.take operatorEndpointPageSize
  let nextAfter := if hasMore then endpoints.getLast?.map (·.endpointId) else none
  let body ← renderEndpointPage endpoints nextAfter now
  ask (.recordOperatorAccess (auditArgs p "endpoint:collection" "endpoint.list.read" "accepted"
    "authenticated viewer read" correlationId now))
  return html body

/-- The detail route. -/
def serveDetail (p : OperatorPrincipal isprintable) (endpointId : Uuid) (correlationId : Uuid)
    (now : Instant) : Prog (Ask isprintable) Exc OperatorResponse := do
  match ← (renderEndpointDetail endpointId now).attempt with
  | .error (.error (.notFound _)) =>
    ask (.recordOperatorAccess (auditArgs p ("endpoint:" ++ endpointId.toText) "endpoint.detail.read"
      "rejected" "endpoint was not found" correlationId now))
    return errorPage 404 "not_found"
  | .error x => Prog.fail x
  | .ok body =>
    ask (.recordOperatorAccess (auditArgs p ("endpoint:" ++ endpointId.toText) "endpoint.detail.read"
      "accepted" "authenticated viewer read" correlationId now))
    return html body

/-- A request that names no route. -/
def notFound (p : OperatorPrincipal isprintable) (reason : String) (correlationId : Uuid) (now : Instant) :
    Prog (Ask isprintable) Exc OperatorResponse := do
  ask (.recordOperatorAccess (auditArgs p "operator:endpoint-views" "operator.request" "rejected" reason
    correlationId now))
  return errorPage 404 "not_found"

/-- The routes, for an authorized principal. -/
def serve (p : OperatorPrincipal isprintable) (request : OperatorRequest) (correlationId : Uuid)
    (now : Instant) : Prog (Ask isprintable) Exc OperatorResponse :=
  match routeOk isprintable request with
  | none => notFound p "operator route contract rejected" correlationId now
  | some (path, queryString) =>
    if path = "/endpoints" then
      match endpointPageAfter queryString with
      | .error _ => notFound p "operator route contract rejected" correlationId now
      | .ok after => serveList p after correlationId now
    else match if queryString.isEmpty then endpointIdFromPath path else none with
    | none => notFound p "operator route not found" correlationId now
    | some endpointId => serveDetail p endpointId correlationId now

def handle (policy : OperatorAuthorizationPolicy isprintable) (request : OperatorRequest) (now : Instant)
    (correlationId : Uuid) : Prog (Ask isprintable) Exc OperatorResponse := do
  match ← (authenticate request.authorization now correlationId).attempt with
  | .error (.error (.authorization _)) => return errorPage 401 "unauthorized"
  | .error x => Prog.fail x
  | .ok principal =>
    ask (.recordOperatorAccess (auditArgs principal "operator:endpoint-views" "operator.authenticate"
      "accepted" "external session verified" correlationId now))
    match authorizationDenial policy principal now with
    | some denial =>
      ask (.recordOperatorAccess (auditArgs principal "operator:endpoint-views" "operator.authorize"
        "rejected" denial correlationId now))
      return errorPage 403 "forbidden"
    | none => serve principal request correlationId now

/-! ## Worlds -/

/-- A store and a verifier with a common state. -/
structure World (isprintable : String → Bool) (σ : Type) where
  verify : String → Instant → σ → Except Exc (Option (OperatorPrincipal isprintable)) × σ
  recordOperatorAccess : OperatorAccessArgs → σ → Except Exc Unit × σ
  listEndpointPage : Option Uuid → Nat → σ → Except Exc (List Endpoint) × σ
  getEndpoint : Uuid → σ → Except Exc Endpoint × σ
  getIdentity : Uuid → σ → Except Exc EndpointIdentity × σ
  endpointStatus : Uuid → Instant → σ → Except Exc EndpointStatus × σ

/-- A call that was made, with its answer where the argument needs it. -/
inductive Entry (isprintable : String → Bool) where
  | verified (authorization : String) (now : Instant)
      (answer : Except Exc (Option (OperatorPrincipal isprintable)))
  | recorded (a : OperatorAccessArgs) (answer : Except Exc Unit)
  | listed (after : Option Uuid)
  | readEndpoint (endpointId : Uuid)
  | readIdentity (identityId : Uuid)
  | readStatus (endpointId : Uuid)

/-- The world with a log of the calls it answered. -/
def World.machine {σ : Type} (W : World isprintable σ) :
    Machine (Ask isprintable) (σ × List (Entry isprintable)) Unit where
  exec := fun _ o s => match o with
    | .verify authorization now =>
      let out := W.verify authorization now s.1
      (out.1, out.2, s.2 ++ [.verified authorization now out.1])
    | .recordOperatorAccess a =>
      let out := W.recordOperatorAccess a s.1
      (out.1, out.2, s.2 ++ [.recorded a out.1])
    | .listEndpointPage after limit =>
      let out := W.listEndpointPage after limit s.1
      (out.1, out.2, s.2 ++ [.listed after])
    | .getEndpoint id =>
      let out := W.getEndpoint id s.1
      (out.1, out.2, s.2 ++ [.readEndpoint id])
    | .getIdentity id =>
      let out := W.getIdentity id s.1
      (out.1, out.2, s.2 ++ [.readIdentity id])
    | .endpointStatus id now =>
      let out := W.endpointStatus id now s.1
      (out.1, out.2, s.2 ++ [.readStatus id])

/-- What `handle` returns or raises in a world, with the world and the log after it. -/
def World.handle {σ : Type} (W : World isprintable σ) (policy : OperatorAuthorizationPolicy isprintable)
    (request : OperatorRequest) (now : Instant) (correlationId : Uuid) (s : σ) :
    Except Exc OperatorResponse × σ × List (Entry isprintable) :=
  (Operator.handle policy request now correlationId).finish W.machine () (s, [])

end NorthgateRmm.Server.Operator
