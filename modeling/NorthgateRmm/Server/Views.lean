import NorthgateRmm.Lib.Prog
import NorthgateRmm.Server.ControlPlane

/-!
# Endpoint read models

`views.py`: the HTML of the endpoint table and of one endpoint, as programs that ask
the control plane for what they show. The calls of the operator application on its
store and its session verifier are the operations of these programs; what they
answer, and what they raise, is up to the environment.
-/

namespace NorthgateRmm.Server.Operator

/-! ## What dependencies can raise -/

/-- An exception: one of the program's own errors, another `Exception`, or a
`BaseException` that `except Exception` lets pass. -/
inductive Exc where
  | error (e : Error)
  | other (name : String)
  | base (name : String)
  deriving DecidableEq

inductive EndpointHealth where
  | online | stale | offline
  deriving DecidableEq

def EndpointHealth.value : EndpointHealth → String
  | .online => "online"
  | .stale => "stale"
  | .offline => "offline"

structure EndpointStatus where
  endpointId : Uuid
  lifecycle : EndpointLifecycle
  health : EndpointHealth
  lastHeartbeatAt : Option Instant
  deriving DecidableEq

/-! ## Operators -/

def maxOperatorValueLength : Nat := 512
def maxOperatorAuditIdentifierLength : Nat := 256
def maxOperatorRoleLength : Nat := 64

/-- The check each text of a principal or a policy passes; `str.isprintable` is Python's. -/
def validText (isprintable : String → Bool) (maximumLength : Nat) (value : String) : Bool :=
  !value.isEmpty && value.length ≤ maximumLength && isprintable value

/-- Identity facts returned by the external session verifier, normalized to UTC. -/
structure OperatorPrincipal (isprintable : String → Bool) where
  issuer : String
  tenant : String
  subject : String
  sessionId : String
  clientId : String
  roles : List String
  authenticatedAt : Instant
  expiresAt : Instant
  mfa : Bool
  texts_valid : ∀ value ∈ [issuer, tenant, sessionId, clientId],
    validText isprintable maxOperatorValueLength value = true
  subject_valid : validText isprintable maxOperatorAuditIdentifierLength subject = true
  roles_valid : 1 ≤ roles.length ∧ roles.length ≤ 8 ∧ roles.Nodup ∧
    ∀ role ∈ roles, validText isprintable maxOperatorRoleLength role = true
  lifetime_valid : authenticatedAt < expiresAt

/-- The calls of the operator application. A verifier that returns anything but an
`OperatorPrincipal` answers `none`. -/
inductive Ask (isprintable : String → Bool) : Type → Type 1
  | verify (authorization : String) (now : Instant) :
      Ask isprintable (Except Exc (Option (OperatorPrincipal isprintable)))
  | recordOperatorAccess (a : OperatorAccessArgs) : Ask isprintable (Except Exc Unit)
  | listEndpointPage (after : Option Uuid) (limit : Nat) : Ask isprintable (Except Exc (List Endpoint))
  | getEndpoint (endpointId : Uuid) : Ask isprintable (Except Exc Endpoint)
  | getIdentity (identityId : Uuid) : Ask isprintable (Except Exc EndpointIdentity)
  | endpointStatus (endpointId : Uuid) (now : Instant) : Ask isprintable (Except Exc EndpointStatus)

variable {isprintable : String → Bool}

/-- A call whose exception is not caught. -/
def ask {β : Type} (o : Ask isprintable (Except Exc β)) : Prog (Ask isprintable) Exc β := do
  let r ← Prog.call o
  Prog.orFail r id

/-! ## Rendering -/

/-- `html.escape`. -/
def escape (text : String) : String :=
  String.ofList (text.toList.flatMap fun c => match c with
    | '&' => "&amp;".toList
    | '<' => "&lt;".toList
    | '>' => "&gt;".toList
    | '\x22' => "&quot;".toList
    | '\x27' => "&#x27;".toList
    | c => [c])

/-- `_time`. -/
def timeText : Option Instant → String
  | none => "Never"
  | some t => isoformat t

def endpointRow (e : Endpoint) (status : EndpointStatus) : String :=
  "<tr><td><a href=\"/endpoints/" ++ e.endpointId.toText ++ "\">" ++ escape e.displayName ++ "</a></td>" ++
    "<td>" ++ escape e.platform.value ++ "</td><td>" ++ escape e.architecture ++ "</td>" ++
    "<td>" ++ escape status.lifecycle.value ++ "</td><td>" ++ escape status.health.value ++ "</td>" ++
    "<td>" ++ timeText status.lastHeartbeatAt ++ "</td></tr>"

/-- The loop over the page: one status per endpoint. -/
def renderRows (now : Instant) : List Endpoint → Prog (Ask isprintable) Exc String
  | [] => pure ""
  | e :: rest => do
    let status ← ask (.endpointStatus e.endpointId now)
    let rows ← renderRows now rest
    return endpointRow e status ++ rows

def renderEndpointPage (endpoints : List Endpoint) (nextAfter : Option Uuid) (now : Instant) :
    Prog (Ask isprintable) Exc String := do
  let rows ← renderRows now endpoints
  let body := if rows.isEmpty then "<tr><td colspan=\"6\">No endpoints</td></tr>" else rows
  let nextLink := match nextAfter with
    | some id => "<nav><a href=\"/endpoints?after=" ++ id.toText ++ "\">Next page</a></nav>"
    | none => ""
  return "<!doctype html><html lang=\"en\"><head><meta charset=\"utf-8\">" ++
    "<title>NorthGate RMM endpoints</title></head><body><main><h1>Endpoints</h1><table><thead><tr>" ++
    "<th>Name</th><th>Platform</th><th>Architecture</th>" ++
    "<th>Lifecycle</th><th>Health</th><th>Last heartbeat</th></tr></thead><tbody>" ++ body ++
    "</tbody></table>" ++ nextLink ++ "</main></body></html>"

def renderEndpointDetail (endpointId : Uuid) (now : Instant) : Prog (Ask isprintable) Exc String := do
  let endpoint ← ask (.getEndpoint endpointId)
  let identity ← ask (.getIdentity endpoint.identityId)
  let status ← ask (.endpointStatus endpointId now)
  let values :=
    [("Endpoint ID", endpoint.endpointId.toText),
     ("Display name", endpoint.displayName),
     ("Platform", endpoint.platform.value),
     ("Architecture", endpoint.architecture),
     ("Identity ID", identity.identityId.toText),
     ("Fingerprint", identity.publicKeyFingerprint),
     ("Lifecycle", status.lifecycle.value),
     ("Health", status.health.value),
     ("Enrolled", timeText (some endpoint.enrolledAt)),
     ("Last receipt", timeText endpoint.lastReceiptAt),
     ("Last heartbeat", timeText endpoint.lastHeartbeatAt),
     ("Revoked", timeText identity.revokedAt),
     ("Revocation reason", identity.revocationReason.getD "")]
  let items := String.join (values.map fun p => "<dt>" ++ escape p.1 ++ "</dt><dd>" ++ escape p.2 ++ "</dd>")
  return "<!doctype html><html lang=\"en\"><head><meta charset=\"utf-8\"><title>" ++
    escape endpoint.displayName ++ " — NorthGate RMM</title></head><body><main>" ++
    "<a href=\"/endpoints\">Endpoints</a><h1>" ++ escape endpoint.displayName ++ "</h1><dl>" ++ items ++
    "</dl></main></body></html>"

end NorthgateRmm.Server.Operator
