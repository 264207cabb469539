import NorthgateRmm.Uuid

/-!
# Domain values of the control plane

The frozen dataclasses of `domain.py` with their `__post_init__` checks, and the
errors of `errors.py`. Times that reach the database are instants: microseconds
since the epoch in UTC, which is what a `timestamptz` column holds. Only the
envelope of a message keeps its `datetime`s as the caller built them, because
its lifetime check subtracts them before any conversion to UTC.
-/

namespace NorthgateRmm.Server

abbrev Instant := Int

def minutes (n : Int) : Int := n * 60000000

def maxMessageTtl : Int := minutes 5
def maxClockSkew : Int := minutes 5
def maxEnrollmentGrantTtl : Int := minutes 15
def maxEndpointCertificateTtl : Int := minutes (24 * 60)
def maxSequence : Nat := 2 ^ 63 - 1
def maxDisplayNameLength : Nat := 128

/-! ## Errors -/

/-- The classes of `psycopg.Error` the schema can raise. -/
inductive DbError where
  | uniqueViolation
  | checkViolation
  | dataError
  deriving DecidableEq, Repr

inductive Error where
  | validation (reason : String)
  | authorization (reason : String)
  | serviceUnavailable (reason : String)
  | replay (reason : String)
  | notFound (reason : String)
  | database (error : DbError)
  deriving DecidableEq, Repr

/-- `str(error)` of the errors the program raises itself. -/
def Error.reason : Error → String
  | .validation r | .authorization r | .serviceUnavailable r | .replay r | .notFound r => r
  | .database _ => ""

/-- The error of the first check that fires, in the order they are made. -/
def firstFailure (checks : List (Bool × Error)) : Option Error :=
  (checks.find? (·.1)).map (·.2)

theorem firstFailure_eq_none {checks : List (Bool × Error)} :
    firstFailure checks = none ↔ ∀ c ∈ checks, c.1 = false := by
  simp [firstFailure]

/-! ## Aware datetimes -/

/-- An aware `datetime`: its wall clock reading, its `tzinfo` object and that
object's UTC offset at the reading, in microseconds. -/
structure Datetime where
  wall : Int
  tzinfo : Nat
  utcoffset : Int
  deriving DecidableEq, Repr

namespace Datetime

/-- `astimezone(UTC)`. -/
def instant (t : Datetime) : Instant := t.wall - t.utcoffset

/-- `a - b`. Python ignores the zone when both operands carry the same `tzinfo`. -/
def sub (a b : Datetime) : Int :=
  if a.tzinfo = b.tzinfo then a.wall - b.wall else a.instant - b.instant

/-- The reading of the fixed zone UTC. -/
def utc (t : Instant) : Datetime := ⟨t, 0, 0⟩

@[simp] theorem instant_utc (t : Instant) : (utc t).instant = t := by simp [utc, instant]

/-- Where the offsets agree the subtraction is the elapsed time. -/
theorem sub_eq_instant {a b : Datetime} (h : a.utcoffset = b.utcoffset) :
    a.sub b = a.instant - b.instant := by
  unfold sub instant; split <;> omega

end Datetime

/-! ## ISO 8601 text -/

def decimal (width n : Nat) : String :=
  let ds := Nat.toDigits 10 n
  String.ofList (List.replicate (width - ds.length) '0' ++ ds)

/-- The proleptic Gregorian date of a day number (0 is 1970-01-01). -/
def civilDate (days : Int) : Int × Nat × Nat :=
  let z := days + 719468
  let era := z / 146097
  let doe := (z % 146097).toNat
  let yoe := (doe - doe / 1460 + doe / 36524 - doe / 146096) / 365
  let doy := doe - (365 * yoe + yoe / 4 - yoe / 100)
  let mp := (5 * doy + 2) / 153
  let d := doy - (153 * mp + 2) / 5 + 1
  let m := if mp < 10 then mp + 3 else mp - 9
  (yoe + era * 400 + (if m ≤ 2 then 1 else 0), m, d)

/-- `isoformat()` of an instant in UTC. -/
def isoformat (t : Instant) : String :=
  let (y, m, d) := civilDate (t / 86400000000)
  let us := (t % 86400000000).toNat
  let s := us / 1000000
  let fraction := if us % 1000000 = 0 then "" else "." ++ decimal 6 (us % 1000000)
  decimal 4 y.toNat ++ "-" ++ decimal 2 m ++ "-" ++ decimal 2 d ++ "T" ++ decimal 2 (s / 3600) ++
    ":" ++ decimal 2 (s / 60 % 60) ++ ":" ++ decimal 2 (s % 60) ++ fraction ++ "+00:00"

/-! ## Enumerations -/

inductive Platform where
  | linux | windows
  deriving DecidableEq, Repr

def Platform.value : Platform → String
  | .linux => "linux"
  | .windows => "windows"

theorem Platform.value_injective {p q : Platform} (h : p.value = q.value) : p = q := by
  cases p <;> cases q <;> revert h <;> decide

inductive EndpointLifecycle where
  | pending | issued | active | retired | revoked
  deriving DecidableEq, Repr

def EndpointLifecycle.value : EndpointLifecycle → String
  | .pending => "pending"
  | .issued => "issued"
  | .active => "active"
  | .retired => "retired"
  | .revoked => "revoked"

inductive ObservationType where
  | heartbeat | inventory
  deriving DecidableEq, Repr

def ObservationType.value : ObservationType → String
  | .heartbeat => "heartbeat"
  | .inventory => "inventory"

/-! ## Dataclasses -/

/-- `re.fullmatch(r"sha256:[0-9a-f]{64}", text)`. -/
def isFingerprint (text : String) : Bool :=
  text.toList.take 7 == "sha256:".toList && isSha256Hex (String.ofList (text.toList.drop 7))

structure EndpointIdentity where
  identityId : Uuid
  endpointId : Uuid
  publicKeyFingerprint : String
  createdAt : Instant
  status : EndpointLifecycle := .active
  revokedAt : Option Instant := none
  revocationReason : Option String := none
  deriving DecidableEq, Repr

def EndpointIdentity.postInit (i : EndpointIdentity) : Option Error :=
  firstFailure
    [(!isFingerprint i.publicKeyFingerprint,
        .validation "fingerprint must be a lowercase SHA-256 value"),
     (i.status == .revoked && (i.revokedAt.isNone || i.revocationReason.getD "" == ""),
        .validation "revoked identity requires time and reason"),
     (i.status != .revoked && (i.revokedAt.isSome || i.revocationReason.isSome),
        .validation "only a revoked identity may have revocation facts"),
     (i.revokedAt.any (· < i.createdAt),
        .validation "revocation cannot predate identity creation")]

structure EnrollmentGrant where
  grantId : Uuid
  tokenSha256 : String
  displayName : String
  platform : Platform
  architecture : String
  createdAt : Instant
  expiresAt : Instant
  createdBy : String
  consumedAt : Option Instant := none
  consumedIdentityId : Option Uuid := none
  deriving DecidableEq, Repr

def EnrollmentGrant.postInit (g : EnrollmentGrant) : Option Error :=
  firstFailure
    [(!isSha256Hex g.tokenSha256, .validation "token_sha256 must be a lowercase SHA-256 value"),
     (g.displayName.isEmpty || maxDisplayNameLength < g.displayName.length,
        .validation "display_name is empty or too long"),
     (g.platform != .linux, .validation "v1 enrollment grants support Linux only"),
     (g.architecture != "amd64", .validation "v1 enrollment grants support amd64 only"),
     (g.createdBy.isEmpty || 256 < g.createdBy.length,
        .validation "created_by is empty or too long"),
     (g.expiresAt - g.createdAt ≤ 0 || maxEnrollmentGrantTtl < g.expiresAt - g.createdAt,
        .validation "enrollment grant lifetime is invalid"),
     (g.consumedAt.isNone != g.consumedIdentityId.isNone,
        .validation "enrollment grant consumption state is incomplete"),
     (g.consumedAt.any fun t => !(g.createdAt ≤ t && t < g.expiresAt),
        .validation "enrollment grant consumption time is invalid")]

structure Endpoint where
  endpointId : Uuid
  displayName : String
  platform : Platform
  architecture : String
  identityId : Uuid
  enrolledAt : Instant
  lastReceiptAt : Option Instant := none
  lastHeartbeatAt : Option Instant := none
  deriving DecidableEq, Repr

def Endpoint.postInit (e : Endpoint) : Option Error :=
  firstFailure
    [(e.displayName.isEmpty || maxDisplayNameLength < e.displayName.length,
        .validation "display_name is empty or too long"),
     (e.architecture.isEmpty || 32 < e.architecture.length,
        .validation "architecture is empty or too long")]

/-- A message envelope that passed its `__post_init__`. The lifetime is the
difference of the two `datetime`s as Python computes it. -/
structure MessageEnvelope where
  messageId : Uuid
  endpointId : Uuid
  bootId : Uuid
  sequence : Nat
  createdAt : Datetime
  expiresAt : Datetime
  correlationId : Uuid
  sequence_range : 1 ≤ sequence ∧ sequence ≤ maxSequence
  lifetime_range : 0 < expiresAt.sub createdAt ∧ expiresAt.sub createdAt ≤ maxMessageTtl
  deriving DecidableEq

structure Observation where
  observationId : Uuid
  endpointId : Uuid
  messageId : Uuid
  observationType : ObservationType
  schemaVersion : Nat
  sourceTime : Instant
  receivedAt : Instant
  bootId : Uuid
  sequence : Nat
  payloadDigest : String
  encodedMessageDigest : Option String := none
  deriving DecidableEq, Repr

def Observation.postInit (o : Observation) : Option Error :=
  firstFailure
    [(!isSha256Hex o.payloadDigest,
        .validation "payload_digest must be a lowercase SHA-256 value"),
     (o.encodedMessageDigest.any (!isSha256Hex ·),
        .validation "encoded_message_digest must be a lowercase SHA-256 value")]

inductive Decision where
  | accepted | rejected | noChange
  deriving DecidableEq, Repr

structure AuditEvent where
  serverTime : Instant
  actorType : String
  actorId : String
  subject : String
  action : String
  decision : Decision
  reason : String
  correlationId : Uuid
  metadata : List (String × String) := []
  deriving DecidableEq, Repr

end NorthgateRmm.Server
