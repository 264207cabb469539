import NorthgateRmm.Agent.Transport.Retry

/-!
# The waits of `transport.Retry`

The retry loop in the machine arithmetic of the source: durations are `int64`, the random
number and the width of the jitter are `uint64`, and a value that leaves its type stops the
program. The operation, the random bytes, the wait and the context answer as they like; the
log of a run keeps every call with its answer.
-/

namespace NorthgateRmm.Agent.Transport

open Spool (ContextError)

/-! ## Machine integers -/

inductive Overflow
  | int64
  | uint64
  deriving DecidableEq, Repr

def int64 (n : Int) : Except Overflow Int := if -2 ^ 63 ≤ n ∧ n < 2 ^ 63 then .ok n else .error .int64

def uint64 (n : Int) : Except Overflow Int := if 0 ≤ n ∧ n < 2 ^ 64 then .ok n else .error .uint64

theorem int64_ok {n : Int} (h : -2 ^ 63 ≤ n ∧ n < 2 ^ 63) : int64 n = .ok n := if_pos h

theorem uint64_ok {n : Int} (h : 0 ≤ n ∧ n < 2 ^ 64) : uint64 n = .ok n := if_pos h

/-- `jitter`; Go's division rounds towards zero. -/
def checkedJitter (random : UInt64) (delay : Int) : Except Overflow Int := do
  let half ← int64 (delay.tdiv 2)
  let span ← uint64 (← int64 (delay - half))
  let width ← uint64 (span + 1)
  let extra ← int64 ((random.toNat : Int).tmod width)
  int64 (half + extra)

def checkedNextDelay (policy : RetryPolicy) (delay : Int) : Except Overflow Int := do
  if (← int64 (policy.maximumDelay.tdiv 2)) < delay then return policy.maximumDelay
  let doubled ← int64 (delay * 2)
  return if policy.maximumDelay < doubled then policy.maximumDelay else doubled

/-! ## Calls and the loop -/

inductive RetryOp : Type → Type 1
  | err : RetryOp (Option ContextError)
  | operation : RetryOp (Except Error Unit)
  | random : RetryOp (Except Error UInt64)
  | wait (delay : Int) : RetryOp (Except Error Unit)

def retryCalls (ε : Type) : RetryCalls RetryOp ε where
  err := .call .err
  operation := .call .operation
  random := .call .random
  wait delay := .call (.wait delay)

/-- `retryLoop` with checked arithmetic. -/
def checkedLoop (policy : RetryPolicy) : Nat → Int → Prog RetryOp Overflow (Except Error Unit)
  | 0, _ => pure (.ok ())
  | left + 1, delay => do
    match ← Prog.call .err with
    | some e => pure (.error (.context e))
    | none =>
      match ← Prog.call .operation with
      | .ok () => pure (.ok ())
      | .error e =>
        if !e.isRetryable || left == 0 then pure (.error e)
        else match ← Prog.call .random with
          | .error e => pure (.error (.wrapped "generate retry delay" e))
          | .ok random =>
            let jittered ← Prog.orFail (checkedJitter random delay) id
            match ← Prog.call (.wait jittered) with
            | .error e => pure (.error e)
            | .ok () =>
              let delay ← Prog.orFail (checkedNextDelay policy delay) id
              checkedLoop policy left delay

def checkedRetry (policy : RetryPolicy) : Prog RetryOp Overflow (Except Error Unit) :=
  match policy.validate with
  | .error e => pure (.error e)
  | .ok () => checkedLoop policy policy.maxAttempts.toNat policy.initialDelay

/-- A call with its answer. -/
inductive RetryEvent
  | err (answer : Option ContextError)
  | operation (answer : Except Error Unit)
  | random (answer : Except Error UInt64)
  | wait (delay : Int) (answer : Except Error Unit)

def RetryOp.answered : {β : Type} → RetryOp β → β → RetryEvent
  | _, .err, r => .err r
  | _, .operation, r => .operation r
  | _, .random, r => .random r
  | _, .wait delay, r => .wait delay r

/-- Every answer is possible, and the log keeps it. -/
def anyAnswers : Env RetryOp (List RetryEvent) where
  step log o b log' := log' = log ++ [o.answered b]
  cut _ _ _ := False

/-- What the calls of the operation returned. -/
def operations (log : List RetryEvent) : List (Except Error Unit) :=
  log.filterMap fun
    | .operation r => some r
    | _ => none

/-- The durations that were waited for. -/
def waits (log : List RetryEvent) : List Int :=
  log.filterMap fun
    | .wait delay _ => some delay
    | _ => none

/-- The longest wait number `k`, counted from zero. -/
def delayCap (policy : RetryPolicy) (k : Nat) : Int := min (policy.initialDelay * 2 ^ k) policy.maximumDelay

/-! ## Delays -/

theorem validate_ok {policy : RetryPolicy} (h : policy.validate = .ok ()) :
    (1 ≤ policy.maxAttempts ∧ policy.maxAttempts ≤ maxRetryAttempts) ∧ minRetryDelay ≤ policy.initialDelay ∧
      policy.initialDelay ≤ policy.maximumDelay ∧ policy.maximumDelay ≤ maxRetryDelay := by
  rw [RetryPolicy.validate] at h
  split at h
  · cases h
  · split at h
    · cases h
    · omega

variable {policy : RetryPolicy}

theorem nextDelay_eq_min (delay : Int) : nextDelay policy delay = min (delay * 2) policy.maximumDelay := by
  rw [nextDelay]
  split
  · omega
  · split <;> omega

theorem delayCap_zero (h : policy.initialDelay ≤ policy.maximumDelay) : delayCap policy 0 = policy.initialDelay := by
  rw [delayCap, pow_zero, mul_one, min_eq_left h]

theorem delayCap_bounds (hinitial : 0 < policy.initialDelay) (hmaximum : policy.initialDelay ≤ policy.maximumDelay)
    (k : Nat) : 0 < delayCap policy k ∧ delayCap policy k ≤ policy.maximumDelay := by
  have hpos : 0 < policy.initialDelay * 2 ^ k := Int.mul_pos hinitial (Int.pow_pos (by decide))
  rw [delayCap]
  omega

theorem nextDelay_delayCap (hinitial : 0 < policy.initialDelay) (hmaximum : policy.initialDelay ≤ policy.maximumDelay)
    (k : Nat) : nextDelay policy (delayCap policy k) = delayCap policy (k + 1) := by
  have hpos := (delayCap_bounds hinitial hmaximum k).1
  rw [nextDelay_eq_min, delayCap, delayCap, pow_succ, ← mul_assoc]
  omega

theorem jitter_bounds (random : UInt64) {delay : Int} (h : 0 ≤ delay) :
    delay / 2 ≤ jitter random delay ∧ jitter random delay ≤ delay := by
  have hlow := Int.emod_nonneg (random.toNat : Int) (b := delay - delay / 2 + 1) (by omega)
  have hhigh := Int.emod_lt_of_pos (random.toNat : Int) (b := delay - delay / 2 + 1) (by omega)
  rw [jitter]
  omega

/-- No value of the computation leaves its type. -/
theorem checkedJitter_eq (random : UInt64) {delay : Int} (h : 0 ≤ delay) (hmax : delay ≤ maxRetryDelay) :
    checkedJitter random delay = .ok (jitter random delay) := by
  have hcap : delay ≤ 300000000000 := hmax
  have hlow := Int.emod_nonneg (random.toNat : Int) (b := delay - delay / 2 + 1) (by omega)
  have hhigh := Int.emod_lt_of_pos (random.toNat : Int) (b := delay - delay / 2 + 1) (by omega)
  have hhalf : delay.tdiv 2 = delay / 2 := Int.tdiv_eq_ediv_of_nonneg h
  have hmod : (random.toNat : Int).tmod (delay - delay / 2 + 1) = (random.toNat : Int) % (delay - delay / 2 + 1) :=
    Int.tmod_eq_emod_of_nonneg (Int.natCast_nonneg _)
  simp only [checkedJitter, hhalf, bind, Except.bind]
  rw [int64_ok (by omega)]
  dsimp only
  rw [int64_ok (by omega)]
  dsimp only
  rw [uint64_ok (by omega)]
  dsimp only
  rw [uint64_ok (by omega)]
  dsimp only
  rw [hmod, int64_ok (by omega)]
  dsimp only
  rw [int64_ok (by omega), jitter]

theorem checkedNextDelay_eq {delay : Int} (h : 0 ≤ delay) (hmax : delay ≤ policy.maximumDelay)
    (hpolicy : policy.maximumDelay ≤ maxRetryDelay) : checkedNextDelay policy delay = .ok (nextDelay policy delay) := by
  have hcap : policy.maximumDelay ≤ 300000000000 := hpolicy
  have hhalf : policy.maximumDelay.tdiv 2 = policy.maximumDelay / 2 := Int.tdiv_eq_ediv_of_nonneg (by omega)
  simp only [checkedNextDelay, hhalf, bind, Except.bind]
  rw [int64_ok (by omega), nextDelay]
  dsimp only
  split
  · rfl
  · rw [int64_ok (by omega)]
    rfl

/-- The checked loop takes the same steps. -/
theorem checkedLoop_eq (hpolicy : policy.maximumDelay ≤ maxRetryDelay) (left : Nat) {delay : Int} (h : 0 < delay)
    (hmax : delay ≤ policy.maximumDelay) :
    checkedLoop policy left delay = retryLoop (retryCalls Overflow) policy left delay := by
  induction left generalizing delay with
  | zero => rfl
  | succ left ih =>
    have hnext : 0 < nextDelay policy delay ∧ nextDelay policy delay ≤ policy.maximumDelay := by
      rw [nextDelay_eq_min]
      omega
    rw [checkedLoop, retryLoop]
    simp only [checkedJitter_eq _ h.le (hmax.trans hpolicy), checkedNextDelay_eq h.le hmax hpolicy, Prog.orFail,
      retryCalls]
    congr 1
    funext context
    cases context with
    | some e => rfl
    | none =>
      dsimp only
      congr 1
      funext result
      cases result with
      | ok _ => rfl
      | error e =>
        dsimp only
        split
        · rfl
        · congr 1
          funext random
          cases random with
          | error e => rfl
          | ok random =>
            show Prog.op (RetryOp.wait _) _ = Prog.op (RetryOp.wait _) _
            congr 1
            funext waited
            cases waited with
            | error e => rfl
            | ok _ => exact ih hnext.1 hnext.2

theorem checkedRetry_eq (hvalid : policy.validate = .ok ()) :
    checkedRetry policy = retryWith (retryCalls Overflow) policy := by
  obtain ⟨-, hinitial, hmaximum, hpolicy⟩ := validate_ok hvalid
  rw [checkedRetry, retryWith, hvalid]
  exact checkedLoop_eq hpolicy _ (lt_of_lt_of_le (by decide) hinitial) hmaximum

/-! ## Runs -/

/-- The call that made a retry fail: the operation, the context, the wait or the random bytes. -/
def FailedAt (last : Option RetryEvent) (e : Error) : Prop :=
  last = some (.operation (.error e)) ∨
    (∃ c, last = some (.err (some c)) ∧ e = .context c) ∨
    (∃ delay, last = some (.wait delay (.error e))) ∨
    ∃ f, last = some (.random (.error f)) ∧ e = .wrapped "generate retry delay" f

def InCap (policy : RetryPolicy) (k : Nat) (delay : Int) : Prop :=
  delayCap policy k / 2 ≤ delay ∧ delay ≤ delayCap policy k

def Retried (r : Except Error Unit) : Prop := ∃ e, r = .error e ∧ e.isRetryable = true

/-- What the log of a whole retry shows, with its result. -/
structure Backoff (policy : RetryPolicy) (log : List RetryEvent) (result : Except Error Unit) : Prop where
  attempts : (operations log).length ≤ policy.maxAttempts
  again : ∀ r ∈ (operations log).dropLast, Retried r
  waits : ∀ k delay, (waits log)[k]? = some delay → InCap policy k delay
  ok_iff : result = .ok () ↔ (operations log).getLast? = some (.ok ())
  error : ∀ e, result = .error e → FailedAt log.getLast? e

/-- The log between two rounds: `k` rounds failed with errors worth retrying. -/
structure Rounds (policy : RetryPolicy) (k : Nat) (log : List RetryEvent) : Prop where
  attempts : (operations log).length = k
  again : ∀ r ∈ operations log, Retried r
  waited : (Transport.waits log).length = k
  waits : ∀ i delay, (Transport.waits log)[i]? = some delay → InCap policy i delay

variable {k : Nat} {log rest : List RetryEvent}

theorem operations_append : operations (log ++ rest) = operations log ++ operations rest := List.filterMap_append

theorem waits_append : waits (log ++ rest) = waits log ++ waits rest := List.filterMap_append

theorem Rounds.start (policy : RetryPolicy) : Rounds policy 0 [] := ⟨rfl, nofun, rfl, nofun⟩

/-- The waits after one more round, which may have ended before its wait. -/
theorem Rounds.waits_append (h : Rounds policy k log)
    (hrest : Transport.waits rest = [] ∨ ∃ delay, Transport.waits rest = [delay] ∧ InCap policy k delay) (i : Nat)
    (delay : Int) (hi : (Transport.waits (log ++ rest))[i]? = some delay) : InCap policy i delay := by
  rw [Transport.waits_append] at hi
  obtain hnone | ⟨last, hlast, hcap⟩ := hrest
  · rw [hnone, List.append_nil] at hi
    exact h.waits i delay hi
  · rw [hlast, List.getElem?_append, h.waited] at hi
    split at hi
    · exact h.waits i delay hi
    · obtain ⟨hik, rfl⟩ := List.getElem?_eq_some_iff.1 hi
      have : i = k := by simp at hik; omega
      subst this
      simpa using hcap

theorem Rounds.failed (h : Rounds policy k log) (hk : k + 1 ≤ policy.maxAttempts) {e : Error}
    (hoperations : operations rest = [] ∨ ∃ f, operations rest = [.error f])
    (hwaits : Transport.waits rest = [] ∨ ∃ delay, Transport.waits rest = [delay] ∧ InCap policy k delay)
    (hlast : ∃ last, rest.getLast? = some last ∧ FailedAt (some last) e) : Backoff policy (log ++ rest) (.error e) := by
  have hend : (operations (log ++ rest)).getLast? ≠ some (.ok ()) ∧
      (operations (log ++ rest)).length ≤ policy.maxAttempts ∧
      ∀ r ∈ (operations (log ++ rest)).dropLast, Retried r := by
    have hattempts := h.attempts
    rw [operations_append]
    obtain hnone | ⟨f, hf⟩ := hoperations
    · rw [hnone, List.append_nil]
      refine ⟨fun hok => ?_, by omega, fun r hr => h.again r (List.dropLast_subset _ hr)⟩
      obtain ⟨f, hf, -⟩ := h.again _ (List.mem_of_getLast? hok)
      exact nomatch hf
    · rw [hf, List.dropLast_concat, List.getLast?_concat, List.length_append, List.length_singleton]
      exact ⟨nofun, by omega, h.again⟩
  obtain ⟨last, hlast, hfailed⟩ := hlast
  refine ⟨hend.2.1, hend.2.2, h.waits_append hwaits, iff_of_false nofun hend.1, fun e' he' => ?_⟩
  cases he'
  rw [List.getLast?_append, hlast]
  exact hfailed

theorem Rounds.succeeded (h : Rounds policy k log) (hk : k + 1 ≤ policy.maxAttempts) :
    Backoff policy (log ++ [.err none, .operation (.ok ())]) (.ok ()) := by
  have hattempts := h.attempts
  have hoperations : operations (log ++ [.err none, .operation (.ok ())]) = operations log ++ [.ok ()] :=
    operations_append
  refine ⟨?_, ?_, h.waits_append (.inl rfl), ?_, nofun⟩
  · rw [hoperations, List.length_append, List.length_singleton]
    omega
  · rw [hoperations, List.dropLast_concat]
    exact h.again
  · rw [hoperations, List.getLast?_concat]
    exact iff_of_true rfl rfl

theorem Rounds.next (h : Rounds policy k log) {e : Error} (he : e.isRetryable = true) (random : UInt64) {delay : Int}
    (hdelay : InCap policy k delay) : Rounds policy (k + 1)
      (log ++ [.err none, .operation (.error e), .random (.ok random), .wait delay (.ok ())]) where
  attempts := by
    rw [operations_append, List.length_append, h.attempts]
    rfl
  again := by
    rw [operations_append]
    intro r hr
    obtain hr | hr := List.mem_append.1 hr
    · exact h.again r hr
    · exact ⟨e, List.mem_singleton.1 hr, he⟩
  waited := by
    rw [Transport.waits_append, List.length_append, h.waited]
    rfl
  waits := h.waits_append (.inr ⟨delay, rfl, hdelay⟩)

/-- The loop from a round on, with the delay that round starts from. -/
theorem retryLoop_backoff (hvalid : policy.validate = .ok ()) (left : Nat) (h : Rounds policy k log)
    (hleft : (k : Int) + left = policy.maxAttempts) (hpos : 0 < left) :
    (retryLoop (retryCalls Overflow) policy left (delayCap policy k)).Holds anyAnswers (fun _ => False)
      (fun r log' => ∃ result, r = .ok result ∧ Backoff policy log' result) log := by
  obtain ⟨-, hinitial, hmaximum, -⟩ := validate_ok hvalid
  have hinitial : 0 < policy.initialDelay := lt_of_lt_of_le (by decide) hinitial
  have hcap := delayCap_bounds hinitial hmaximum k
  induction left generalizing k log with
  | zero => exact absurd hpos (Nat.lt_irrefl 0)
  | succ left ih =>
    have hk : (k : Int) + 1 ≤ policy.maxAttempts := by omega
    refine ⟨nofun, ?_⟩
    rintro context _ rfl
    cases context with
    | some c => exact ⟨_, rfl, h.failed hk (.inl rfl) (.inl rfl) ⟨_, rfl, .inr (.inl ⟨c, rfl, rfl⟩)⟩⟩
    | none =>
      refine ⟨nofun, ?_⟩
      rintro result _ rfl
      rw [List.append_assoc]
      cases result with
      | ok _ => exact ⟨_, rfl, h.succeeded hk⟩
      | error e =>
        dsimp only [Prog.bind]
        split
        · exact ⟨_, rfl, h.failed hk (.inr ⟨e, rfl⟩) (.inl rfl) ⟨_, rfl, .inl rfl⟩⟩
        · rename_i hgo
          simp only [Bool.or_eq_true, Bool.not_eq_true', beq_iff_eq, not_or, Bool.not_eq_false] at hgo
          refine ⟨nofun, ?_⟩
          rintro random _ rfl
          rw [List.append_assoc]
          cases random with
          | error f =>
            exact ⟨_, rfl, h.failed hk (.inr ⟨e, rfl⟩) (.inl rfl) ⟨_, rfl, .inr (.inr (.inr ⟨f, rfl, rfl⟩))⟩⟩
          | ok random =>
            have hjitter : InCap policy k (jitter random (delayCap policy k)) := jitter_bounds random hcap.1.le
            refine ⟨nofun, ?_⟩
            rintro waited _ rfl
            rw [List.append_assoc]
            cases waited with
            | error f =>
              exact ⟨_, rfl, h.failed hk (.inr ⟨e, rfl⟩) (.inr ⟨_, rfl, hjitter⟩)
                ⟨_, rfl, .inr (.inr (.inl ⟨_, rfl⟩))⟩⟩
            | ok _ =>
              have hnext := h.next hgo.1 random hjitter
              have hloop := ih hnext (by push_cast at hleft ⊢; omega) (by omega) (delayCap_bounds hinitial hmaximum _)
              rw [← nextDelay_delayCap hinitial hmaximum k] at hloop
              exact hloop

/-- **Retry is bounded, capped exponential backoff.** For a valid policy no value leaves its
machine type, so the loop in machine arithmetic is the loop over the integers, and the log of
every run, whatever the calls answered, is that of a backoff. -/
theorem retry_is_capped_backoff (policy : RetryPolicy) (hvalid : policy.validate = .ok ()) :
    checkedRetry policy = retryWith (retryCalls Overflow) policy ∧
      ∀ r log, (checkedRetry policy).Runs anyAnswers [] (some r) log →
        ∃ result, r = .ok result ∧ Backoff policy log result := by
  refine ⟨checkedRetry_eq hvalid, fun r log hrun => ?_⟩
  obtain ⟨hattempts, -, hmaximum, -⟩ := validate_ok hvalid
  have hloop := retryLoop_backoff hvalid policy.maxAttempts.toNat (Rounds.start policy) (by omega) (by omega)
  rw [delayCap_zero hmaximum] at hloop
  rw [checkedRetry_eq hvalid, retryWith, hvalid] at hrun
  exact (hrun.of_holds hloop).1 r rfl

/-- The policy of the agent's tests. -/
def fourAttempts : RetryPolicy := ⟨4, 100000000, 1000000000⟩

theorem fourAttempts_is_capped_backoff : fourAttempts.validate = .ok () ∧
    ∀ r log, (checkedRetry fourAttempts).Runs anyAnswers [] (some r) log →
      ∃ result, r = .ok result ∧ Backoff fourAttempts log result :=
  ⟨by decide, (retry_is_capped_backoff fourAttempts (by decide)).2⟩

end NorthgateRmm.Agent.Transport
