import NorthgateRmm.Server.Admission

/-!
# TLS handshake slots

`_handle_transport` of the enrollment and of the operator listener: a connection takes a
handshake slot, goes through the handshake and the request, closes its writer and gives
the slot back. The slot is given back after the `await` of `_close_writer`, inside the
`finally` clause, so an exception that comes out of that `await` skips it.
-/

namespace NorthgateRmm.Server.Handshakes

open Listener

inductive Op : Type → Type 1
  | begin : Op Unit
  | peer : Op (Except Exn (Option String))
  | active (source : String) : Op Nat
  | locked : Op Bool
  | take (task : Nat) (source : String) (count : Nat) : Op Unit
  | tlsContext : Op Bool
  | startTls : Op (Except Exn Unit)
  | handleConnection : Op (Except Exn Unit)
  | waitClosed : Op (Except Exn Unit)
  | abort : Op Unit
  | release (task : Nat) (source : String) : Op (Except Exn Unit)

def Op.awaits {β : Type} : Op β → Bool
  | .begin | .startTls | .handleConnection | .waitClosed => true
  | _ => false

/-- The code inside the `try`: an exception comes with the source, while it is admitted. -/
abbrev Try (α : Type) := Prog Op (Exn × Option String) α

/-- The `try` block. -/
def transport (limit task : Nat) : Try (Option String) := do
  match ← .call .peer with
  | .error e => .fail (e, none)
  | .ok none => .ret none
  | .ok (some source) =>
    let active ← .call (.active source)
    let locked ← .call .locked
    if locked || limit ≤ active then .ret none
    else
      .call (.take task source (active + 1))
      let context ← .call .tlsContext
      if !context then .ret (some source)
      else
        let started ← .call .startTls
        .orFail started fun e => (e, some source)
        let handled ← .call .handleConnection
        .orFail handled fun e => (e, some source)
        .ret (some source)

/-- `_close_writer`: the four exceptions it swallows are the kinds of `OSError`. -/
def closeWriter : Prog Op Exn Unit := do
  match ← .call .waitClosed with
  | .ok _ => .ret ()
  | .error e => if e.leaveTimeout.isOSError then .call .abort else .fail e.leaveTimeout

/-- `_release_handshake`. -/
def releaseHandshake (task : Nat) : Option String → Prog Op Exn Unit
  | none => .ret ()
  | some source => do
    let answer ← .call (.release task source)
    .orFail answer id

def handleTransport (limit task : Nat) : Prog Op Exn Unit := do
  .call .begin
  match ← (transport limit task).attempt with
  | .ok admitted =>
    closeWriter
    releaseHandshake task admitted
  | .error (e, admitted) =>
    closeWriter
    releaseHandshake task admitted
    if e.isOSError || e == .value then .ret () else .fail e

def maxTlsHandshakesPerSource : Nat := 2
def maxOperatorTlsHandshakesPerSource : Nat := 2
def maxConcurrentTlsHandshakes : Nat := 16
def maxConcurrentOperatorTlsHandshakes : Nat := 16

/-- `EnrollmentTLSListener._handle_transport`. -/
def enrollmentHandleTransport : Nat → Prog Op Exn Unit := handleTransport maxTlsHandshakesPerSource

/-- `OperatorTLSListener._handle_transport`. -/
def operatorHandleTransport : Nat → Prog Op Exn Unit := handleTransport maxOperatorTlsHandshakesPerSource

/-! ## What the operations do -/

/-- `closing` says in what the `await` of `wait_closed` may end. -/
def step (closing : Except Exn Unit → Prop) (s : Listener String) : {β : Type} → Op β → β → Listener String → Prop
  | _, .active source, n, s' => n = s.slots.active.count source ∧ s' = s
  | _, .locked, b, s' => b = s.slots.locked ∧ s' = s
  | _, .take i source n, _, s' => s' = s.take i source n
  | _, .release i source, r, s' => (r, s') = s.release i source
  | _, .waitClosed, r, s' => closing r ∧ s' = s
  | _, _, _, s' => s' = s

def tasks (closing : Except Exn Unit → Prop) : Tasks Op (Listener String) where
  step s o b s' := step closing s o b s'
  pauses o := o.awaits
  ambient _ _ := False

def start (maximum : Nat) (handler : Nat → Prog Op Exn Unit) : Tasks.Pool Op Exn Unit Nat (Listener String) where
  state := .new maximum
  task := handler

/-- Every slot in use belongs to a task that has not ended, and those that have ended gave
theirs back once. -/
structure Returned (maximum : Nat) (pool : Tasks.Pool Op Exn Unit Nat (Listener String)) : Prop where
  sum : pool.state.slots.free + pool.state.slots.active.total = maximum
  owned : ∀ source, pool.state.slots.active.count source =
    pool.state.owners.sumOf fun owner => if owner = source then 1 else 0
  unended : ∀ i source, pool.state.owners.get? i = some source → ¬ Tasks.Ended (pool.task i)
  once : ∀ i, Tasks.Ended (pool.task i) →
    (pool.state.requests i).released = (pool.state.requests i).taken ∧ (pool.state.requests i).taken ≤ 1

/-! ## Slots are given back when the writer can be closed -/

section Safety

variable {maximum limit i : Nat} {closing : Except Exn Unit → Prop} {s s' : Listener String}

/-- What a task can count on. -/
def Rely (i : Nat) (s s' : Listener String) : Prop :=
  s'.requests i = s.requests i ∧ s'.owners.get? i = s.owners.get? i

abbrev Safe (closing : Except Exn Unit → Prop) (maximum limit i : Nat) {ε α : Type}
    (Q : Except ε α → Listener String → Prop) (p : Prog Op ε α) (s : Listener String) : Prop :=
  (tasks closing).Safe (Inv maximum limit) (Rely i) (Concerns i) Q p s

/-- What a task knows when its `try` block is over: the slot it owns. -/
def Knows (i : Nat) (admitted : Option String) (s : Listener String) : Prop :=
  s.owners.get? i = admitted ∧ (s.requests i).worker = .none

theorem Knows.rely {admitted : Option String} (h : Knows i admitted s) (hs : Rely i s s') : Knows i admitted s' :=
  ⟨hs.2.trans h.1, by rw [hs.1]; exact h.2⟩

theorem concerns_refl (s : Listener String) : Concerns i s s := fun _ _ => ⟨rfl, rfl⟩

variable {ε α β : Type} {Q : Except ε α → Listener String → Prop}

theorem safe_await {o : Op β} {f : β → Prog Op ε α} (ho : o.awaits = true)
    (hsame : ∀ s b s', step closing s o b s' → s' = s)
    (h : ∀ s₁, Rely i s s₁ → ∀ b, step closing s₁ o b s₁ → Safe closing maximum limit i Q (f b) s₁) :
    Safe closing maximum limit i Q (.call o >>= f) s :=
  .await concerns_refl ho hsame h

theorem safe_look {o : Op β} {f : β → Prog Op ε α} (ho : o.awaits = false)
    (hsame : ∀ s b s', step closing s o b s' → s' = s)
    (h : ∀ b, step closing s o b s → Safe closing maximum limit i Q (f b) s) :
    Safe closing maximum limit i Q (.call o >>= f) s :=
  .look concerns_refl ho hsame h

/-- How the `try` block ends. -/
def Left (i : Nat) : Except (Exn × Option String) (Option String) → Listener String → Prop
  | .ok admitted, s => Knows i admitted s
  | .error (_, admitted), s => Knows i admitted s

theorem transport_safe (h : Knows i none s) (hcallback : (s.requests i).callback = none)
    (htaken : (s.requests i).taken = 0) : Safe closing maximum limit i (Left i) (transport limit i) s := by
  refine safe_look rfl (fun _ _ _ h => h) fun peer _ => ?_
  match peer with
  | .error e => exact h
  | .ok none => exact h
  | .ok (some source) =>
    refine safe_look rfl (fun _ _ _ h => h.2) fun active hactive => ?_
    refine safe_look rfl (fun _ _ _ h => h.2) fun locked hlocked => ?_
    obtain ⟨rfl, -⟩ := hactive
    obtain ⟨rfl, -⟩ := hlocked
    split
    · exact h
    rename_i hfree
    rw [Bool.or_eq_true, not_or, decide_eq_true_eq, Nat.not_le, Bool.not_eq_true] at hfree
    refine .bind (.next rfl fun hinv _ s' hstep => ?_)
    obtain ⟨hinv', hconcerns, hget, hi⟩ := hinv.take h.1 hcallback htaken hfree.1 hfree.2
    cases hstep
    have hknows : Knows i (some source) _ := ⟨hget, by rw [hi]; exact h.2⟩
    refine ⟨hinv', hconcerns, safe_look rfl (fun _ _ _ h => h) fun context _ => ?_⟩
    cases context with
    | false => exact hknows
    | true =>
      refine safe_await rfl (fun _ _ _ h => h) fun s₁ hs₁ started _ => ?_
      have hknows := hknows.rely hs₁
      cases started with
      | error e => exact hknows
      | ok _ =>
        refine safe_await rfl (fun _ _ _ h => h) fun s₂ hs₂ handled _ => ?_
        cases handled <;> exact hknows.rely hs₂

/-- The exceptions that `_close_writer` swallows. -/
def Swallowed (r : Except Exn Unit) : Prop := ∀ e, r = .error e → e.leaveTimeout.isOSError = true

theorem closeWriter_then {p : Prog Op Exn Unit} {Q : Except Exn Unit → Listener String → Prop}
    {admitted : Option String} (hclosing : ∀ r, closing r → Swallowed r) (h : Knows i admitted s)
    (hp : ∀ s', Knows i admitted s' → Safe closing maximum limit i Q p s') :
    Safe closing maximum limit i Q (closeWriter >>= fun _ => p) s := by
  refine .bind (safe_await rfl (fun _ _ _ h => h.2) fun s₁ hs₁ closed hstep => ?_)
  have h := h.rely hs₁
  cases closed with
  | ok _ => exact hp _ h
  | error e =>
    dsimp only
    rw [if_pos (hclosing _ hstep.1 e rfl)]
    refine .next rfl fun hinv _ s' hstep => ?_
    cases hstep
    exact ⟨hinv, concerns_refl _, hp _ h⟩

theorem releaseHandshake_safe {admitted : Option String} (h : Knows i admitted s) :
    Safe closing maximum limit i (fun r s' => r = .ok () ∧ s'.owners.get? i = none) (releaseHandshake i admitted) s := by
  cases admitted with
  | none => exact ⟨rfl, h.1⟩
  | some source =>
    refine .bind (.next rfl fun hinv answer s' hstep => ?_)
    obtain ⟨hok, hinv', hconcerns, hnone, -⟩ := hinv.release h.1 (by simp [h.2])
    have hstep : (answer, s') = s.release i source := hstep
    rw [← hstep] at hok hinv' hconcerns hnone
    cases hok
    exact ⟨hinv', hconcerns, rfl, hnone⟩

theorem handleTransport_safe (hclosing : ∀ r, closing r → Swallowed r) (h : Knows i none s)
    (hcallback : (s.requests i).callback = none) (htaken : (s.requests i).taken = 0) :
    Safe closing maximum limit i (fun _ s' => s'.owners.get? i = none) (handleTransport limit i) s := by
  refine safe_await rfl (fun _ _ _ h => h) fun s₁ hs₁ _ _ => ?_
  have hsame := hs₁.1
  refine .bind (.attempt ((transport_safe (h.rely hs₁) (by rw [hsame]; exact hcallback)
    (by rw [hsame]; exact htaken)).mono fun outcome s' hleft => ?_))
  match outcome, hleft with
  | .ok admitted, hknows =>
    exact closeWriter_then hclosing hknows fun s' hknows => (releaseHandshake_safe hknows).mono fun _ _ h => h.2
  | .error (e, admitted), hknows =>
    refine closeWriter_then hclosing hknows fun s' hknows => ?_
    refine .bind ((releaseHandshake_safe hknows).mono fun r s' hr => ?_)
    obtain ⟨rfl, hnone⟩ := hr
    dsimp only
    split <;> exact hnone

end Safety

theorem returned_of_swallowed {maximum limit : Nat} {closing : Except Exn Unit → Prop}
    (hclosing : ∀ r, closing r → Swallowed r) {pool : Tasks.Pool Op Exn Unit Nat (Listener String)}
    (h : (tasks closing).Reachable (start maximum (handleTransport limit)) pool) : Returned maximum pool := by
  obtain ⟨hinv, htasks⟩ := h.safe (Inv maximum limit) Rely Concerns (fun i _ s => s.owners.get? i = none)
    (fun _ _ => ⟨rfl, rfl⟩) (fun _ _ _ _ h₁ h₂ => ⟨h₂.1.trans h₁.1, h₂.2.trans h₁.2⟩)
    (fun i j s s' hij hg => hg i hij) (fun _ _ hno => hno.elim) (fun _ _ _ _ hs hnone => hs.2.trans hnone) .new
    fun i => ⟨rfl, handleTransport_safe hclosing ⟨rfl, rfl⟩ rfl rfl⟩
  have hended : ∀ i, Tasks.Ended (pool.task i) → pool.state.owners.get? i = none := fun i hend =>
    let ⟨_, hnone⟩ := (htasks i).2.of_ended hend
    hnone
  refine ⟨hinv.sound.sum, hinv.sound.owned, fun i source howner hend => ?_, fun i hend => ?_⟩
  · simp [hended i hend] at howner
  · exact ⟨hinv.released_of_none (hended i hend), (hinv.accounted i).once⟩

/-- A connection goes through its handshake and its request, and the `await` that closes its
writer ends in `e`. -/
theorem interrupted_close (closing : Except Exn Unit → Prop) {e : Exn} (hclosing : closing (.error e))
    (he : e.leaveTimeout.isOSError = false) :
    ∃ pool, (tasks closing).Reachable (start 16 (handleTransport 2)) pool ∧
      Tasks.Ended (pool.task 0) ∧ pool.state.owners.get? 0 = some "192.0.2.1" ∧
      (∀ i, i ≠ 0 → pool.task i = handleTransport 2 i) ∧ pool.state.slots.free = 15 := by
  have begun : (tasks closing).Reachable (start 16 (handleTransport 2)) (start 16 (handleTransport 2)) := .start
  have named := (begun.begin 0 rfl () _ rfl).next rfl (.ok (some "192.0.2.1")) _ rfl
  have counted := (named.next rfl 0 _ ⟨rfl, rfl⟩).next rfl false _ ⟨rfl, rfl⟩
  have admitted := ((counted.next rfl () _ rfl).next rfl true _ rfl).rest rfl
  have started := admitted.turn 0 rfl (.ok ()) _ rfl rfl
  have handled := started.turn 0 rfl (.ok ()) _ rfl rfl
  have closed := handled.begin 0 rfl (.error e) _ ⟨hclosing, rfl⟩
  -- what `_close_writer` does not swallow leaves the `finally` clause at once
  cases e <;> first
    | exact absurd he (by decide)
    | exact ⟨_, closed.rest trivial, trivial, rfl, fun i hi => by simp [hi, start], rfl⟩

/-- **Handshake slots are always returned** exactly when the `await` that closes the writer
ends in nothing but what `_close_writer` swallows. -/
theorem handshakes_returned_iff (closing : Except Exn Unit → Prop) :
    ((∀ pool, (tasks closing).Reachable (start maxConcurrentTlsHandshakes enrollmentHandleTransport) pool →
        Returned 16 pool) ∧
      ∀ pool, (tasks closing).Reachable (start maxConcurrentOperatorTlsHandshakes operatorHandleTransport) pool →
        Returned 16 pool) ↔
    ∀ r, closing r → Swallowed r := by
  constructor
  · rintro ⟨hreturned, -⟩ r hr e rfl
    by_contra he
    obtain ⟨pool, hpool, hended, howner, -⟩ := interrupted_close closing hr (Bool.eq_false_iff.mpr he)
    exact (hreturned pool hpool).unended 0 _ howner hended
  · exact fun hclosing => ⟨fun _ => returned_of_swallowed hclosing, fun _ => returned_of_swallowed hclosing⟩

/-- A connection whose task is cancelled while its writer is being closed keeps its slot: one
is missing although no other connection has come yet. -/
theorem handshake_lost : ∃ pool, (tasks fun _ => True).Reachable
    (start maxConcurrentTlsHandshakes enrollmentHandleTransport) pool ∧ Tasks.Ended (pool.task 0) ∧
      (∀ i, i ≠ 0 → pool.task i = enrollmentHandleTransport i) ∧ pool.state.slots.free = 15 ∧ ¬ Returned 16 pool := by
  obtain ⟨pool, hpool, hended, howner, hothers, hfree⟩ := interrupted_close (fun _ => True) (e := .cancelled) trivial rfl
  exact ⟨pool, hpool, hended, hothers, hfree, fun h => h.unended 0 _ howner hended⟩

end NorthgateRmm.Server.Handshakes
