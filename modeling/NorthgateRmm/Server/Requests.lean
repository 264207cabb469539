import NorthgateRmm.Server.Admission
import NorthgateRmm.Server.RateLimit

/-!
# Request handlers of the listeners

`_AgentTLSAdapter.handle` and the `_handle_connection` of the enrollment and of the
operator listener as coroutines. A handler takes an admission slot, reads the request,
hands the work to a thread and waits for it behind `asyncio.shield`; when it is
interrupted before the work is done, the slot goes over to a done-callback of the task.
Every `await` can end in any exception. What the handlers do not decide (the peer, the
rate limiter's answer, the headers, the size of a response) is left open.
-/

namespace NorthgateRmm.Server.Requests

open Listener

inductive Op (K : Type) : Type → Type 1
  | begin : Op K Unit
  | versionSupported : Op K Bool
  | hostMatches : Op K Bool
  | peer : Op K (Except Exn (Option K))
  | allow (key : K) : Op K Bool
  | headersValid : Op K Bool
  | active (key : K) : Op K Nat
  | locked : Op K Bool
  | take (request : Nat) (key : K) (count : Nat) : Op K Unit
  | read : Op K (Except Exn Unit)
  | createTask (request : Nat) : Op K Unit
  | shield (request : Nat) : Op K (Except Exn Unit)
  | done (request : Nat) : Op K Bool
  | addDoneCallback (request : Nat) (key : K) : Op K Unit
  | responseFits : Op K Bool
  | writeResponse : Op K (Except Exn Unit)
  | writeError (inTimeout : Bool) (status : Nat) (code : String) : Op K (Except Exn Unit)
  | release (request : Nat) (key : K) : Op K (Except Exn Unit)

/-- The operations with an `await`; the others happen in one stretch with what stands around
them. -/
def Op.awaits {K β : Type} : Op K β → Bool
  | .begin | .read | .shield _ | .writeResponse | .writeError _ _ _ => true
  | _ => false

/-- The variables that the `except` and `finally` clauses read: the key while the request is
admitted, and whether `operation_task` is set. -/
structure Locals (K : Type) where
  admitted : Option K
  operationTask : Bool

/-- The code inside a `try`: an exception comes with the variables at that point. -/
abbrev Try (K α : Type) := Prog (Op K) (Exn × Locals K) α

abbrev Act (K α : Type) := Prog (Op K) Exn α

section Handlers

variable {K : Type}

def raising {α : Type} (l : Locals K) (answer : Except Exn α) : Try K α := .orFail answer fun e => (e, l)

/-- The `finally` clause. -/
def finish (request : Nat) (l : Locals K) : Act K Unit :=
  match l.admitted with
  | none => .ret ()
  | some key => do
    let answer ← .call (.release request key)
    .orFail answer id

/-! ## The agent listener -/

inductive Reply
  | error (status : Nat) (code : String)
  | application

def maxConcurrentRequestsPerIdentity : Nat := 4

/-- The `try` block of `_AgentTLSAdapter.handle`, inside its timeout. -/
def agentRequest (request : Nat) : Try K (Reply × Locals K) := do
  let start : Locals K := ⟨none, false⟩
  match ← .call .peer with
  | .error .validation | .ok none => .ret (.error 403 "unauthorized", start)
  | .error e => .fail (e, start)
  | .ok (some key) =>
    let allowed ← .call (.allow key)
    if !allowed then .ret (.error 429 "rate_limited", start)
    else
      let valid ← .call .headersValid
      if !valid then .ret (.error 400 "invalid_headers", start)
      else
        let active ← .call (.active key)
        let locked ← .call .locked
        if locked || maxConcurrentRequestsPerIdentity ≤ active then .ret (.error 503 "listener_busy", start)
        else
          .call (.take request key (active + 1))
          let body ← .call .read
          raising ⟨some key, false⟩ body
          .call (.createTask request)
          let result ← .call (.shield request)
          raising ⟨some key, true⟩ result
          .ret (.application, ⟨some key, true⟩)

end Handlers

/-! ## What the operations do -/

section Steps

variable {K : Type} [DecidableEq K]

def step (s : Listener K) : {β : Type} → Op K β → β → Listener K → Prop
  | _, .active key, n, s' => n = s.slots.active.count key ∧ s' = s
  | _, .locked, b, s' => b = s.slots.locked ∧ s' = s
  | _, .take i key n, _, s' => s' = s.take i key n
  | _, .createTask i, _, s' => s' = s.update i fun r => { r with worker := .running }
  -- the shield lets the task's outcome through, and a cancellation of the handler at any time
  | _, .shield i, r, s' => (r = .error .cancelled ∨ r = .error .deadline ∨ (s.requests i).worker = .done) ∧ s' = s
  | _, .done i, b, s' => b = decide ((s.requests i).worker = .done) ∧ s' = s
  | _, .addDoneCallback i key, _, s' => s' = s.update i fun r => { r with callback := some key }
  | _, .release i key, r, s' => (r, s') = s.release i key
  | _, .writeError inTimeout _ _, r, s' => (r = .error .deadline → inTimeout = true) ∧ s' = s
  | _, _, _, s' => s' = s

/-- The task of a request ends, or its done-callback is run. -/
def ambient (s s' : Listener K) : Prop :=
  (∃ i, (s.requests i).worker = .running ∧ s' = s.update i fun r => { r with worker := .done }) ∨
    ∃ i key, (s.requests i).worker = .done ∧ (s.requests i).callback = some key ∧ s' = (s.release i key).2

def tasks (K : Type) [DecidableEq K] : Tasks (Op K) (Listener K) where
  step s o b s' := step s o b s'
  pauses o := o.awaits
  ambient := ambient

/-- A listener before the first request, and any number of requests to come. -/
def start {α : Type} (maximum : Nat) (handler : Nat → Act K α) : Tasks.Pool (Op K) Exn α Nat (Listener K) where
  state := .new maximum
  task := handler

end Steps

/-! ## The invariant -/

section Invariant

variable {K : Type} {maximum limit i : Nat} {key : K} {s s' : Listener K}

/-- No task of the request is at work. -/
def Idle (i : Nat) (s : Listener K) : Prop := (s.requests i).worker ≠ .running

/-- The handler has not got as far as taking a slot. -/
def Fresh (i : Nat) (s : Listener K) : Prop :=
  s.owners.get? i = none ∧ (s.requests i).callback = none ∧ (s.requests i).taken = 0 ∧ (s.requests i).worker = .none

/-- The handler owns a slot, and has not passed it on. -/
def Owns (i : Nat) (key : K) (s : Listener K) : Prop :=
  s.owners.get? i = some key ∧ (s.requests i).callback = none

/-- The handler has nothing to release: nobody has, or a callback will do it. -/
def Settled (i : Nat) (s : Listener K) : Prop :=
  s.owners.get? i = none ∨ (s.requests i).callback ≠ none

/-- What a handler can count on. -/
structure Rely (i : Nat) (s s' : Listener K) : Prop where
  fresh : Fresh i s → Fresh i s'
  owns : ∀ key, Owns i key s → Owns i key s'
  settled : Settled i s → Settled i s'
  idle : Idle i s → Idle i s'

def Guar (i : Nat) (s s' : Listener K) : Prop := ∀ j, j ≠ i → Rely j s s'

theorem Rely.refl (i : Nat) (s : Listener K) : Rely i s s := ⟨id, fun _ => id, id, id⟩

theorem Rely.trans {s₁ s₂ s₃ : Listener K} (h₁ : Rely i s₁ s₂) (h₂ : Rely i s₂ s₃) : Rely i s₁ s₃ :=
  ⟨h₂.fresh ∘ h₁.fresh, fun k => h₂.owns k ∘ h₁.owns k, h₂.settled ∘ h₁.settled, h₂.idle ∘ h₁.idle⟩

theorem guar_refl (s : Listener K) : Guar i s s := fun j _ => .refl j s

theorem guar_of_concerns (h : Concerns i s s') : Guar i s s' := by
  intro j hj
  obtain ⟨hrequest, howner⟩ := h j hj
  refine ⟨?_, fun key => ?_, ?_, ?_⟩ <;> simp only [Fresh, Owns, Settled, Idle, howner, hrequest] <;> exact id

variable [DecidableEq K]

/-! ## Step lemmas -/

end Invariant

/-! ## The handlers keep the invariant -/

section Safety

variable {K : Type} [DecidableEq K] {maximum limit i : Nat} {key : K} {s : Listener K} {l : Locals K} {ε α β : Type}

/-- The locals of a handler tell whether it has a slot to release; before there is a task
none is at work. -/
def Knows (i : Nat) (l : Locals K) (s : Listener K) : Prop :=
  match l.admitted with
  | none => Settled i s
  | some key => Owns i key s ∧ (l.operationTask = false → Idle i s)

/-- The same when no task is at work that the handler would have to leave its slot to. -/
def Ready (i : Nat) (l : Locals K) (s : Listener K) : Prop :=
  match l.admitted with
  | none => Settled i s
  | some key => Owns i key s ∧ Idle i s

/-- How code inside a `try` may end: only a cancellation can leave a task at work. -/
def Left (i : Nat) (ends : α → Listener K → Prop) : Except (Exn × Locals K) α → Listener K → Prop
  | .ok a, s => ends a s
  | .error (e, l), s => Knows i l s ∧ (e = .cancelled ∨ e = .timeout ∨ Ready i l s)

omit [DecidableEq K] in
theorem Ready.rely {s' : Listener K} (h : Ready i l s) (hs : Rely i s s') : Ready i l s' := by
  unfold Ready at *
  split at h
  · exact hs.settled h
  · exact ⟨hs.owns _ h.1, hs.idle h.2⟩

omit [DecidableEq K] in
omit [DecidableEq K] in
theorem Fresh.ready (h : Fresh i s) : Ready i (⟨none, false⟩ : Locals K) s := .inl h.1

abbrev Safe (maximum limit i : Nat) (Q : Except ε α → Listener K → Prop) (p : Prog (Op K) ε α) (s : Listener K) : Prop :=
  (tasks K).Safe (Inv maximum limit) (Rely i) (Guar i) Q p s

variable {Q : Except ε α → Listener K → Prop}

variable {f : β → Prog (Op K) ε α} {o : Op K β}

/-- An `await` that leaves the listener as it is. -/
theorem safe_await (ho : o.awaits = true)
    (hsame : ∀ s b s', step s o b s' → s' = s)
    (h : ∀ s₁, Rely i s s₁ → ∀ b, step s₁ o b s₁ → Safe maximum limit i Q (f b) s₁) :
    Safe maximum limit i Q (.call o >>= f) s :=
  .await guar_refl ho hsame h

/-- A statement that leaves the listener as it is. -/
theorem safe_look (ho : o.awaits = false)
    (hsame : ∀ s b s', step s o b s' → s' = s) (h : ∀ b, step s o b s → Safe maximum limit i Q (f b) s) :
    Safe maximum limit i Q (.call o >>= f) s :=
  .look guar_refl ho hsame h

/-- A statement that changes the listener. -/
theorem safe_do (ho : o.awaits = false)
    (h : Inv maximum limit s → ∀ b s', step s o b s' →
      Inv maximum limit s' ∧ Guar i s s' ∧ Safe maximum limit i Q (f b) s') :
    Safe maximum limit i Q (.call o >>= f) s :=
  .bind (.next ho h)

theorem finish_safe (h : Ready i l s) :
    Safe maximum limit i (fun r s' => r = .ok () ∧ Settled i s') (finish i l) s := by
  obtain ⟨admitted, operationTask⟩ := l
  cases admitted with
  | none => exact ⟨rfl, h⟩
  | some key =>
    obtain ⟨howns, hidle⟩ : Owns i key s ∧ Idle i s := h
    refine safe_do rfl fun hinv answer s' hstep => ?_
    obtain ⟨hok, hinv', hconcerns, hnone, -⟩ := hinv.release howns.1 hidle
    have hstep : (answer, s') = s.release i key := hstep
    rw [← hstep] at hok hinv' hconcerns hnone
    cases hok
    exact ⟨hinv', guar_of_concerns hconcerns, rfl, .inl hnone⟩

theorem finish_then {p : Act K α} {Q : Except Exn α → Listener K → Prop} (h : Ready i l s)
    (hp : ∀ s', Settled i s' → Safe maximum limit i Q p s') :
    Safe maximum limit i Q (finish i l >>= fun _ => p) s := by
  refine .bind ((finish_safe h).mono fun r s' hr => ?_)
  obtain ⟨rfl, hs⟩ := hr
  exact hp s' hs

end Safety

/-! ## Interleavings -/

end NorthgateRmm.Server.Requests
