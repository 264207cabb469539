import NorthgateRmm.Agent.Sequence.Store
import NorthgateRmm.Lib.Env

/-!
# Errors of the agent and `transport.Retry`

Error values as far as the agent tells them apart with `errors.Is` and `errors.As`, and
the bounded retry loop. As in `retryWith` the operation, the source of randomness and the
wait are parameters; here they are programs, and so is the check of the context.
-/

namespace NorthgateRmm.Agent

open Spool (ContextError)

/-! ## Errors -/

/-- `transport.DeliveryError`; the cause is what `Unwrap` returns. -/
structure DeliveryError where
  code : String
  retryable : Bool := false
  status : Nat := 0
  cause : Option ContextError := none
  deriving DecidableEq, Repr

inductive Error
  | context (e : ContextError)
  | spool (e : Spool.Error)
  | sequence (e : Sequence.Error)
  | delivery (e : DeliveryError)
  | runtimeFailed
  | loggingFailed
  /-- an error that wraps none of the above -/
  | failed (message : String)
  | wrapped (message : String) (cause : Error)
  deriving DecidableEq, Repr

/-- The error that is joined with a clean-up failure. -/
def Spool.Error.root : Spool.Error → Spool.Error
  | .uncleaned cause => cause.root
  | e => e

def Sequence.Error.root : Sequence.Error → Sequence.Error
  | .uncleaned cause => cause.root
  | e => e

namespace Error

/-- `errors.Is(err, context.Canceled)` and `errors.Is(err, context.DeadlineExceeded)`. -/
def isContext (c : ContextError) : Error → Bool
  | context e => e = c
  | spool e => e.root = .context c
  | sequence e => e.root = .context c
  | delivery e => e.cause = some c
  | wrapped _ cause => cause.isContext c
  | _ => false

/-- `errors.As` with a `*DeliveryError`. -/
def asDelivery : Error → Option DeliveryError
  | delivery e => some e
  | wrapped _ cause => cause.asDelivery
  | _ => none

/-- `errors.Is` and `errors.As` with the errors of the spool. -/
def asSpool : Error → Option Spool.Error
  | spool e => some e.root
  | wrapped _ cause => cause.asSpool
  | _ => none

def isRetryable (e : Error) : Bool := e.asDelivery.any (·.retryable)

end Error

/-! ## The policy -/

namespace Transport

def maxRetryAttempts : Int := 8
/-- 100 milliseconds. -/
def minRetryDelay : Int := 100000000
/-- Five minutes. -/
def maxRetryDelay : Int := 300000000000

/-- Durations are in nanoseconds. -/
structure RetryPolicy where
  maxAttempts : Int
  initialDelay : Int
  maximumDelay : Int
  deriving DecidableEq, Repr

def RetryPolicy.validate (policy : RetryPolicy) : Except Error Unit :=
  if policy.maxAttempts < 1 ∨ maxRetryAttempts < policy.maxAttempts then
    .error (.failed "retry attempts are outside the supported range")
  else if policy.initialDelay < minRetryDelay ∨ maxRetryDelay < policy.maximumDelay ∨
      policy.maximumDelay < policy.initialDelay then
    .error (.failed "retry delay is outside the supported range")
  else .ok ()

/-! ## The loop -/

/-- `jitter` on the eight bytes that were read, as a big-endian number. -/
def jitter (random : UInt64) (delay : Int) : Int :=
  let half := delay / 2
  let span := delay - half
  half + random.toNat % (span + 1)

def nextDelay (policy : RetryPolicy) (delay : Int) : Int :=
  if policy.maximumDelay / 2 < delay then policy.maximumDelay
  else if policy.maximumDelay < delay * 2 then policy.maximumDelay else delay * 2

variable {Op : Type → Type 1} {ε : Type}

/-- What the loop uses: `ctx.Err`, the operation, eight random bytes and the wait. -/
structure RetryCalls (Op : Type → Type 1) (ε : Type) where
  err : Prog Op ε (Option ContextError)
  operation : Prog Op ε (Except Error Unit)
  random : Prog Op ε (Except Error UInt64)
  wait : Int → Prog Op ε (Except Error Unit)

/-- The rounds of the loop that are left. -/
def retryLoop (calls : RetryCalls Op ε) (policy : RetryPolicy) : Nat → Int → Prog Op ε (Except Error Unit)
  | 0, _ => pure (.ok ())
  | left + 1, delay => do
    match ← calls.err with
    | some e => pure (.error (.context e))
    | none =>
      match ← calls.operation with
      | .ok () => pure (.ok ())
      | .error e =>
        if !e.isRetryable || left == 0 then pure (.error e)
        else match ← calls.random with
          | .error e => pure (.error (.wrapped "generate retry delay" e))
          | .ok random =>
            match ← calls.wait (jitter random delay) with
            | .error e => pure (.error e)
            | .ok () => retryLoop calls policy left (nextDelay policy delay)

def retryWith (calls : RetryCalls Op ε) (policy : RetryPolicy) : Prog Op ε (Except Error Unit) :=
  match policy.validate with
  | .error e => pure (.error e)
  | .ok () => retryLoop calls policy policy.maxAttempts.toNat policy.initialDelay

/-! ## What a retry does -/

universe u

variable {σ : Type u} {E : Env Op σ} {C : σ → Prop}

/-- The calls keep `I`; the operation leaves `R`, and errors of the other calls meet `W`. -/
structure RetryCalls.Keeps (calls : RetryCalls Op ε) (E : Env Op σ) (C I : σ → Prop)
    (R : Except Error Unit → σ → Prop) (W : Error → Prop) : Prop where
  err : ∀ s, I s → calls.err.Holds E C (fun r s' => ∃ x, r = .ok x ∧ I s') s
  operation : ∀ s, I s → calls.operation.Holds E C (fun r s' => ∃ x, r = .ok x ∧ I s' ∧ R x s') s
  random : ∀ s, I s → calls.random.Holds E C (fun r s' => ∃ x, r = .ok x ∧ I s') s
  wait : ∀ s delay, I s → (calls.wait delay).Holds E C (fun r s' => ∃ x, r = .ok x ∧ I s' ∧ ∀ e, x = .error e → W e) s
  context : ∀ c, W (.context c)
  entropy : ∀ e, W (.wrapped "generate retry delay" e)

variable {calls : RetryCalls Op ε} {I : σ → Prop} {R : Except Error Unit → σ → Prop} {W : Error → Prop}

/-- A retry that succeeds ended with the operation that succeeded; one that failed ended with
the operation's error or with an error of its own. -/
def Ended (I : σ → Prop) (R : Except Error Unit → σ → Prop) (W : Error → Prop)
    (r : Except ε (Except Error Unit)) (s : σ) : Prop :=
  ∃ x, r = .ok x ∧ I s ∧ (x = .ok () → R (.ok ()) s) ∧ ∀ e, x = .error e → R (.error e) s ∨ W e

theorem retryLoop_round (h : calls.Keeps E C I R W) {policy : RetryPolicy} {left : Nat}
    (hrest : left ≠ 0 → ∀ delay s, I s → (retryLoop calls policy left delay).Holds E C (Ended I R W) s)
    (delay : Int) (s : σ) (hs : I s) : (retryLoop calls policy (left + 1) delay).Holds E C (Ended I R W) s := by
  refine .bind ((h.err s hs).mono fun r s₁ hr => ?_)
  obtain ⟨x, rfl, hs₁⟩ := hr
  cases x with
  | some c => exact ⟨_, rfl, hs₁, nofun, fun e he => by cases he; exact .inr (h.context c)⟩
  | none =>
    refine .bind ((h.operation s₁ hs₁).mono fun r s₂ hr => ?_)
    obtain ⟨x, rfl, hs₂, hx⟩ := hr
    cases x with
    | ok _ => exact ⟨_, rfl, hs₂, fun _ => hx, nofun⟩
    | error e =>
      dsimp only
      split
      · exact ⟨_, rfl, hs₂, nofun, fun e' he => by cases he; exact .inl hx⟩
      · rename_i hgo
        refine .bind ((h.random s₂ hs₂).mono fun r s₃ hr => ?_)
        obtain ⟨x, rfl, hs₃⟩ := hr
        cases x with
        | error e => exact ⟨_, rfl, hs₃, nofun, fun e he => by cases he; exact .inr (h.entropy _)⟩
        | ok random =>
          refine .bind ((h.wait s₃ _ hs₃).mono fun r s₄ hr => ?_)
          obtain ⟨x, rfl, hs₄, hw⟩ := hr
          cases x with
          | error e => exact ⟨_, rfl, hs₄, nofun, fun e' he => by cases he; exact .inr (hw _ rfl)⟩
          | ok _ => exact hrest (by rintro rfl; simp at hgo) _ s₄ hs₄

theorem retryWith_holds (h : calls.Keeps E C I R W) (policy : RetryPolicy)
    (hW : ∀ e, policy.validate = .error e → W e) {s : σ} (hs : I s) :
    (retryWith calls policy).Holds E C (Ended I R W) s := by
  have hloop : ∀ left delay s, I s → (retryLoop calls policy (left + 1) delay).Holds E C (Ended I R W) s := by
    intro left
    induction left with
    | zero => exact retryLoop_round h (fun h0 => absurd rfl h0)
    | succ left ih => exact retryLoop_round h fun _ => ih
  rw [retryWith]
  cases hv : policy.validate with
  | error e => exact ⟨_, rfl, hs, nofun, fun e' he => by cases he; exact .inr (hW _ hv)⟩
  | ok _ =>
    obtain ⟨left, hleft⟩ : ∃ left, policy.maxAttempts.toNat = left + 1 := by
      rw [RetryPolicy.validate] at hv
      split at hv
      · exact nomatch hv
      · exact ⟨policy.maxAttempts.toNat - 1, by omega⟩
    dsimp only
    rw [hleft]
    exact hloop left _ s hs

end Transport

end NorthgateRmm.Agent
