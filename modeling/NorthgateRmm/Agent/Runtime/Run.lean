import NorthgateRmm.Agent.Protocol
import NorthgateRmm.Agent.Transport.Retry

/-!
# `runtime.Runtime`

The agent process: `Run` with its cycles, `deliver`, `quarantine` and the audit of the
rollover records, as a program over the calls that the runtime makes to its queue,
snapshotter, sender, logger, clock and context.
-/

namespace NorthgateRmm.Agent

open Spool (ContextError)

/-! ## Events -/

namespace Eventlog

inductive Level
  | info
  | warn
  | error
  deriving DecidableEq, Repr

inductive Code
  | agentLifecycle
  | collection
  | delivery
  | localState
  deriving DecidableEq, Repr

inductive Component
  | agent
  | collector
  | spool
  | transport
  deriving DecidableEq, Repr

inductive Outcome
  | started
  | stopped
  | succeeded
  | part
  | failed
  | rejected
  | uncertain
  deriving DecidableEq, Repr

inductive FailureClass
  | none
  | invalidInput
  | unavailable
  | limitExceeded
  | integrity
  | trust
  | stateUncertain
  | internal
  deriving DecidableEq, Repr

/-- `messageId` is `none` where the source leaves the text empty; the runtime never sets a
correlation ID. -/
structure Event where
  level : Level
  code : Code
  component : Component
  outcome : Outcome
  failureClass : FailureClass
  messageId : Option Uuid := .none
  deriving DecidableEq, Repr

end Eventlog

open Eventlog

namespace Runtime

/-- The part of `SnapshotResult` that the runtime reads. -/
structure SnapshotResult where
  messageId : Option Uuid := none
  complete : Bool := false
  deriving DecidableEq, Repr

/-- The values among the options; the dependencies are the calls. Durations are in
nanoseconds. -/
structure Options where
  endpointId : String
  collectionInterval : Int
  requestTimeout : Int
  retryPolicy : Transport.RetryPolicy
  deriving DecidableEq, Repr

/-- What `New` checks of these values. -/
def Options.valid (options : Options) : Bool :=
  !(options.endpointId.isEmpty || options.collectionInterval ≤ 0 || options.requestTimeout ≤ 0 ||
    options.collectionInterval ≤ options.requestTimeout || !options.retryPolicy.validate.isOk)

/-- The calls of the runtime. Those of the queue are made with the context of `Run`, those
of a delivery with the context that `WithTimeout` derives from it. -/
inductive Call : Type → Type 1
  | emit (event : Event) : Call Bool
  /-- `ctx.Err()` -/
  | err : Call (Option ContextError)
  | listIds : Call (Except Error (List Uuid))
  | listRolloverIds : Call (Except Error (List Uuid))
  | read (id : Uuid) : Call (Except Error (List UInt8))
  | acknowledge (id : Uuid) : Call (Except Error Unit)
  | acknowledgeRollover (id : Uuid) : Call (Except Error Unit)
  /-- the evicted IDs, and the error -/
  | quarantine (id : Uuid) : Call (List Uuid × Except Error Unit)
  /-- a result comes with an error too -/
  | snapshot (endpointId : String) : Call (SnapshotResult × Except Error Unit)
  | now : Call Protocol.Time
  | send (id : Uuid) (payload : List UInt8) : Call (Except Error Unit)
  /-- `deliveryContext.Err()` -/
  | deliveryErr : Call (Option ContextError)
  /-- eight bytes of `rand.Reader` -/
  | random : Call (Except Error UInt64)
  /-- `waitForDelay` -/
  | sleep (delay : Int) : Call (Except Error Unit)
  /-- the `select` between the timer (`true`) and `ctx.Done()` -/
  | wait (interval : Int) : Call Bool

abbrev Act (α : Type) : Type 1 := Prog Call Error α

/-! ## Classification -/

def levelFor : Outcome → Level
  | .rejected | .uncertain | .part => .warn
  | .failed => .error
  | _ => .info

/-- The outcome, the failure class and whether the error is terminal for the record. -/
def classifyDelivery (e : Error) : Outcome × FailureClass × Bool :=
  match e.asDelivery with
  | none => (.failed, .internal, false)
  | some d =>
    if d.code = "tls_trust_failed" then (.rejected, .trust, false)
    else if d.code ∈ ["invalid_message_id", "invalid_payload_size", "request_build_failed"] then
      (.rejected, .invalidInput, false)
    else if d.code = "acknowledgement_rejected" then (.rejected, .unavailable, true)
    else if d.code ∈ ["acknowledgement_mismatch", "invalid_acknowledgement", "invalid_response_type",
        "invalid_response_size"] then (.rejected, .trust, false)
    else (.failed, .unavailable, false)

/-- The outcome, the failure class and whether the error is fatal to the process. -/
def classifyLocalState (e : Error) : Outcome × FailureClass × Bool :=
  match e.asSpool with
  | some (.acknowledgeUncertain _) | some (.commitUncertain _) | some (.quarantineUncertain _) =>
    (.uncertain, .stateUncertain, true)
  | some .quotaExceeded => (.rejected, .limitExceeded, false)
  | some .corrupt => (.failed, .integrity, true)
  | _ => if e.isContext .deadlineExceeded then (.failed, .unavailable, false) else (.failed, .internal, true)

def collectionFailure (complete : Bool) : FailureClass := if complete then .none else .unavailable

/-! ## Delivery -/

def emit (event : Event) : Act Unit := do
  let logged ← Prog.call (.emit event)
  Prog.require logged .loggingFailed

def lifecycle (level : Level) (outcome : Outcome) (failure : FailureClass) : Event :=
  ⟨level, .agentLifecycle, .agent, outcome, failure, none⟩

def spoolEvent (level : Level) (outcome : Outcome) (failure : FailureClass) (id : Option Uuid) : Event :=
  ⟨level, .localState, .spool, outcome, failure, id⟩

def deliveryEvent (level : Level) (outcome : Outcome) (failure : FailureClass) (id : Uuid) : Event :=
  ⟨level, .delivery, .transport, outcome, failure, some id⟩

def stop : Act Unit := emit (lifecycle .info .stopped .none)

def auditRollover (id : Uuid) : Act Unit := do
  emit (spoolEvent .warn .rejected .limitExceeded (some id))
  Prog.orFail (← Prog.call (.acknowledgeRollover id)) fun e => e

def auditPendingRollovers : Act Unit := do
  let ids ← Prog.orFail (← Prog.call .listRolloverIds) fun e => e
  Prog.forEach auditRollover ids

/-- The evicted records are audited whether or not the record itself could be moved. -/
def quarantine (id : Uuid) : Act Unit := do
  let (evictedIds, err) ← Prog.call (.quarantine id)
  Prog.forEach auditRollover evictedIds
  Prog.orFail err fun e => e

/-- What `deliver` goes on with after one record. -/
inductive Verdict
  | next
  | blocked
  deriving DecidableEq, Repr

variable (options : Options)

def retry (id : Uuid) (payload : List UInt8) : Act (Except Error Unit) :=
  Transport.retryWith {
    err := Prog.call .deliveryErr
    operation := Prog.call (.send id payload)
    random := Prog.call .random
    wait := fun delay => Prog.call (.sleep delay) } options.retryPolicy

/-- The delivery of a record that is neither foreign nor expired. -/
def transmit (id : Uuid) (payload : List UInt8) : Act Verdict := do
  match ← retry options id payload with
  | .error e =>
    match ← Prog.call .err with
    | some c => .fail (.context c)
    | none =>
      let (outcome, failure, terminal) := classifyDelivery e
      if terminal then
        quarantine id
        emit (deliveryEvent (levelFor outcome) outcome failure id)
        pure .next
      else
        emit (deliveryEvent (levelFor outcome) outcome failure id)
        pure .blocked
  | .ok () =>
    match ← Prog.call (.acknowledge id) with
    | .error e =>
      let (outcome, failure, _) := classifyLocalState e
      emit (spoolEvent (levelFor outcome) outcome failure (some id))
      .fail .runtimeFailed
    | .ok () =>
      emit (deliveryEvent .info .succeeded .none id)
      pure .next

/-- A record that is not sent. -/
def reject (id : Uuid) (failure : FailureClass) : Act Verdict := do
  quarantine id
  emit (spoolEvent .warn .rejected failure (some id))
  pure .next

/-- The body of the loop of `deliver`. -/
def deliverOne (id : Uuid) : Act Verdict := do
  let payload ← Prog.orFail (← Prog.call (.read id)) fun e => e
  match Protocol.decodeInventory payload with
  | .error _ => .fail .runtimeFailed
  | .ok message =>
    if message.envelope.messageID ≠ id.toText then .fail .runtimeFailed
    else if message.envelope.endpointID ≠ options.endpointId then reject id .trust
    else
      let now ← Prog.call .now
      -- `!now.Before(ExpiresAt)`
      if message.envelope.expiresAt.ns ≤ now.ns then reject id .invalidInput
      else transmit options id payload

/-- The loop of `deliver`; the result says whether delivery is blocked. -/
def deliverAll : List Uuid → Act Bool
  | [] => pure false
  | id :: ids => do
    match ← deliverOne options id with
    | .blocked => pure true
    | .next => deliverAll ids

def deliver : Act Bool := do
  let ids ← Prog.orFail (← Prog.call .listIds) fun e => e
  deliverAll options ids

/-! ## Cycles -/

def cycle : Act Unit := do
  let blocked ← deliver options
  let (result, err) ← Prog.call (.snapshot options.endpointId)
  match err with
  | .error e =>
    let (outcome, failure, fatal) := classifyLocalState e
    emit (spoolEvent (levelFor outcome) outcome failure result.messageId)
    Prog.require (!fatal) .runtimeFailed
  | .ok () =>
    emit ⟨if result.complete then .info else .warn, .collection, .collector,
      if result.complete then .succeeded else .part, collectionFailure result.complete, result.messageId⟩
    if blocked then pure ()
    else
      let _ ← deliver options
      pure ()

/-- How a run of `Run` ends: it returned nil, or the given number of cycles is over. -/
inductive Ending
  | stopped
  | running
  deriving DecidableEq, Repr

/-- `Run`'s test whether the error of a cycle is a normal stop. -/
def isStop (e : Error) : Act Bool :=
  if e.isContext .canceled then pure true
  else if e.isContext .deadlineExceeded then do return (← Prog.call .err).isSome
  else pure false

/-- The loop of `Run`, for this many cycles. -/
def loop : Nat → Act Ending
  | 0 => do
    match ← Prog.call .err with
    | some _ => do stop; pure .stopped
    | none => pure .running
  | cycles + 1 => do
    match ← Prog.call .err with
    | some _ => do stop; pure .stopped
    | none =>
      match ← (cycle options).attempt with
      | .error e =>
        if ← isStop e then do stop; pure .stopped
        else
          let _ ← Prog.call (.emit (lifecycle .error .failed .internal))
          .fail .runtimeFailed
      | .ok () =>
        if ← Prog.call (.wait options.collectionInterval) then loop cycles
        else do stop; pure .stopped

/-- `Run`, followed for the given number of cycles. -/
def run (cycles : Nat) : Act Ending := do
  emit (lifecycle .info .started .none)
  auditPendingRollovers
  loop options cycles

end Runtime

end NorthgateRmm.Agent
