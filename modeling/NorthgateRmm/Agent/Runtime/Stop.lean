import NorthgateRmm.Agent.Runtime.Run

/-!
# Cancellation

`Run` in an environment that may cancel its context at any point. Once it is cancelled
every call that fails does so with the error of the context; nothing else is assumed of
the answers. Such a run is to end as a normal stop. It does so exactly if the
cancellation does not surface in one of the calls whose error `Run` takes for a failure.
-/

namespace NorthgateRmm.Agent.Runtime

open Spool (ContextError)
open Eventlog

variable {α β : Type}

/-! ## Answers -/

/-- The error an answer carries. -/
def Call.error? : {β : Type} → Call β → β → Option Error
  | _, .listIds, .error e => some e
  | _, .listRolloverIds, .error e => some e
  | _, .read _, .error e => some e
  | _, .acknowledge _, .error e => some e
  | _, .acknowledgeRollover _, .error e => some e
  | _, .quarantine _, (_, .error e) => some e
  | _, .snapshot _, (_, .error e) => some e
  | _, .send _ _, .error e => some e
  | _, .random, .error e => some e
  | _, .sleep _, .error e => some e
  | _, _, _ => none

/-- The answers whose error does not reach `Run`'s test for a normal stop: those of the
audit of pending rollovers, which comes before the first `ListIDs`, of `Acknowledge`, and
an error of the snapshot that is classified as fatal. -/
def Call.surfaces (listed : Bool) : {β : Type} → Call β → β → Bool
  | _, .listRolloverIds, .error _ => true
  | _, .acknowledgeRollover _, .error _ => !listed
  | _, .acknowledge _, .error _ => true
  | _, .snapshot _, (_, .error e) => (classifyLocalState e).2.2
  | _, _, _ => false

/-- The answers that end a run which was not cancelled. -/
def Call.ends : {β : Type} → Call β → β → Bool
  | _, .listIds, .error _ => true
  | _, .listRolloverIds, .error _ => true
  | _, .read _, .error _ => true
  | _, .acknowledge _, .error _ => true
  | _, .acknowledgeRollover _, .error _ => true
  | _, .quarantine _, (_, .error _) => true
  | _, .snapshot _, (_, .error e) => (classifyLocalState e).2.2
  | _, _, _ => false

/-- A record that was read is the message of its ID. -/
def Call.Decodes : {β : Type} → Call β → β → Prop
  | _, .read id, .ok payload => ∃ m, Protocol.decodeInventory payload = .ok m ∧ m.envelope.messageID = id.toText
  | _, _, _ => True

/-- Logging succeeds, `ctx.Err()` tells whether the context is cancelled, and
`ctx.Done()` is ready only if it is. -/
def Call.Answers (done : Option ContextError) : {β : Type} → Call β → β → Prop
  | _, .emit _, logged => logged = true
  | _, .err, r => r = done
  | _, .wait _, fired => fired = false → done ≠ none
  | _, _, _ => True

def Call.emitted : {β : Type} → Call β → List Event
  | _, .emit event => [event]
  | _, _ => []

def Call.isListIds : {β : Type} → Call β → Bool
  | _, .listIds => true
  | _, _ => false

/-! ## Environments -/

/-- The context's error once it is cancelled, and what happened so far. -/
structure Watch where
  done : Option ContextError
  /-- `ListIDs` was called -/
  listed : Bool
  events : List Event
  /-- the cancellation surfaced where `Run` does not expect it -/
  surfaced : Bool

def Watch.start (done : Option ContextError) : Watch := ⟨done, false, [], false⟩

/-- One call while the context may be cancelled. -/
structure Lawful (w : Watch) (o : Call β) (b : β) (w' : Watch) : Prop where
  sticky : ∀ c, w.done = some c → w'.done = some c
  own : ∀ c e, w'.done = some c → o.error? b = some e → e.isContext c = true
  answers : o.Answers w'.done b
  listed : w'.listed = (w.listed || o.isListIds)
  events : w'.events = w.events ++ o.emitted
  surfaced : w'.surfaced = (w.surfaced || (w'.done.isSome && o.surfaces w.listed b))

/-- Every run with logging that succeeds in which errors after the cancellation are the
context's own. -/
def lawful : Env Call Watch := ⟨Lawful, fun w _ w' => w' = w⟩

/-- Besides, no call ends the run before it is cancelled, and the queue holds messages. -/
structure Steady (w : Watch) (o : Call β) (b : β) (w' : Watch) : Prop extends Lawful w o b w' where
  unbroken : w'.done = none → o.ends b = false
  decodes : o.Decodes b

def steady : Env Call Watch := ⟨Steady, fun w _ w' => w' = w⟩

def Event.IsStop (e : Event) : Prop := e.code = .agentLifecycle ∧ e.outcome = .stopped

/-- Exactly one event says that the agent stopped, and it is the last one. -/
def StopsLast (events : List Event) : Prop :=
  ∃ before last, events = before ++ [last] ∧ Event.IsStop last ∧ ∀ e ∈ before, ¬ Event.IsStop e

/-! ## One call -/

variable {w w' : Watch} {o : Call β} {b : β}

def Quiet (w : Watch) : Prop := ∀ e ∈ w.events, ¬ Event.IsStop e

/-- Nothing surfaced, and no stop was reported yet. -/
structure Calm (w : Watch) : Prop where
  surfaced : w.surfaced = false
  quiet : Quiet w

/-- From the first `ListIDs` on. -/
structure Active (w : Watch) : Prop extends Calm w where
  listed : w.listed = true

theorem Steady.quiet (h : Steady w o b w') (hw : Quiet w) (he : o.emitted = []) : Quiet w' := by
  rw [Quiet, h.events, he, List.append_nil]
  exact hw

theorem Steady.calm (h : Steady w o b w') (hw : Calm w) (hs : o.surfaces w.listed b = false)
    (he : o.emitted = []) : Calm w' := by
  refine ⟨?_, h.quiet hw.quiet he⟩
  rw [h.surfaced, hw.surfaced, hs, Bool.and_false, Bool.or_false]

theorem Steady.active (h : Steady w o b w') (hw : Active w) (hs : o.surfaces w.listed b = false)
    (he : o.emitted = []) : Active w' :=
  ⟨h.calm hw.toCalm hs he, by rw [h.listed, hw.listed, Bool.true_or]⟩

variable {event : Event} {e : Error}

theorem Steady.logged_quiet (h : Steady w (.emit event) true w') (hw : Quiet w)
    (he : ¬ Event.IsStop event) : Quiet w' := by
  intro e hmem
  rw [h.events] at hmem
  rcases List.mem_append.mp hmem with hmem | hmem
  · exact hw e hmem
  · rw [List.mem_singleton.mp hmem]
    exact he

theorem Steady.logged (h : Steady w (.emit event) true w') (hw : Calm w)
    (he : ¬ Event.IsStop event) : Calm w' :=
  ⟨by rw [h.surfaced, hw.surfaced]; exact Bool.and_false _, h.logged_quiet hw.quiet he⟩

/-- A call that ends a run fails with the error of the context. -/
theorem Steady.own_error (h : Steady w o b w') (hends : o.ends b = true) (he : o.error? b = some e) :
    ∃ c, w'.done = some c ∧ e.isContext c = true := by
  cases hdone : w'.done with
  | none => rw [h.unbroken hdone] at hends; exact nomatch hends
  | some c => exact ⟨c, rfl, h.own c e hdone he⟩

theorem Steady.surfaces (h : Steady w o b w') (hends : o.ends b = true) (he : o.error? b = some e)
    (hs : o.surfaces w.listed b = true) : w'.surfaced = true := by
  obtain ⟨c, hdone, -⟩ := h.own_error hends he
  rw [h.surfaced, hdone, hs, Option.isSome_some, Bool.and_true, Bool.or_true]

/-! ## What a cycle does -/

abbrev Anywhere : Watch → Prop := fun _ => True

theorem anywhere : ∀ w' : Watch, steady.cut w o w' → Anywhere w' := fun _ _ => trivial

/-- How a part of a cycle ends: in an active state, with the context's error, or with a
failure because the cancellation surfaced. -/
def Ends (r : Except Error α) (w : Watch) : Prop :=
  match r with
  | .ok _ => Active w
  | .error e => Quiet w ∧
    (w.surfaced = true ∧ e = .runtimeFailed ∨
      w.surfaced = false ∧ ∃ c, w.done = some c ∧ e.isContext c = true)

theorem Active.error {w : Watch} {c : ContextError} (h : Active w) (hdone : w.done = some c)
    (he : e.isContext c = true) : Ends (.error e : Except Error α) w :=
  ⟨h.quiet, .inr ⟨h.surfaced, c, hdone, he⟩⟩

theorem emit_holds {Q : Except Error Unit → Watch → Prop}
    (h : ∀ w', Steady w (.emit event) true w' → Q (.ok ()) w') :
    (emit event).Holds steady Anywhere Q w := by
  refine .bind (.call anywhere fun b w' hb => ?_)
  obtain rfl : b = true := hb.answers
  exact h w' hb

theorem emit_ends (hw : Active w) (he : ¬ Event.IsStop event) :
    (emit event).Holds steady Anywhere Ends w :=
  emit_holds fun _ h => ⟨h.logged hw.toCalm he, by rw [h.listed, hw.listed, Bool.true_or]⟩

/-- A part that ends well followed by another one. -/
theorem ends_bind {p : Act α} {f : α → Act β} (hp : p.Holds steady Anywhere Ends w)
    (hf : ∀ a w', Active w' → (f a).Holds steady Anywhere Ends w') : (p >>= f).Holds steady Anywhere Ends w := by
  refine .bind (hp.mono fun r w' hr => ?_)
  cases r with
  | ok a => exact hf a w' hr
  | error e => exact hr

theorem ends_pure {a : α} (hw : Active w) : (pure a : Act α).Holds steady Anywhere Ends w := hw

theorem forEach_ends {γ : Type} {f : γ → Act Unit} (hf : ∀ x w, Active w → (f x).Holds steady Anywhere Ends w)
    {xs : List γ} (hw : Active w) : (Prog.forEach f xs).Holds steady Anywhere Ends w := by
  refine .forEach (fun _ => Active) hw (fun x rest w hw => (hf x w hw).mono fun r w' hr => ?_)
    fun w hw => hw
  cases r with
  | ok _ => exact hr
  | error e => exact hr

theorem orFail_ends {r : Except Error α} (hok : Active w)
    (herr : ∀ e, r = .error e → ∃ c, w.done = some c ∧ e.isContext c = true) :
    (Prog.orFail r (fun e => e) : Act α).Holds steady Anywhere Ends w := by
  cases r with
  | ok a => exact hok
  | error e =>
    obtain ⟨c, hdone, he⟩ := herr e rfl
    exact hok.error hdone he

theorem not_isStop_spoolEvent {level : Level} {outcome : Outcome} {failure : FailureClass} {id : Option Uuid} :
    ¬ Event.IsStop (spoolEvent level outcome failure id) := fun h => nomatch h.1

theorem not_isStop_deliveryEvent {level : Level} {outcome : Outcome} {failure : FailureClass} {id : Uuid} :
    ¬ Event.IsStop (deliveryEvent level outcome failure id) := fun h => nomatch h.1

theorem auditRollover_ends (id : Uuid) (hw : Active w) : (auditRollover id).Holds steady Anywhere Ends w := by
  refine ends_bind (emit_ends hw not_isStop_spoolEvent) fun _ w₁ h₁ => ?_
  refine .bind (.call anywhere fun r w₂ h => ?_)
  refine orFail_ends (h.active h₁ ?_ rfl) fun e he => h.own_error ?_ ?_
  · rw [h₁.listed]
    cases r <;> rfl
  · rw [he]; rfl
  · rw [he]; rfl

theorem quarantine_ends (id : Uuid) (hw : Active w) : (quarantine id).Holds steady Anywhere Ends w := by
  refine .bind (.call anywhere fun r w₁ h => ?_)
  obtain ⟨evictedIds, err⟩ := r
  have h₁ : Active w₁ := h.active hw rfl rfl
  -- an error of the move is that of the context, which stays cancelled during the audits
  have herr : ∀ e, err = .error e → ∃ c, w₁.done = some c ∧ e.isContext c = true := by
    rintro e rfl
    exact h.own_error rfl rfl
  have hloop := (forEach_ends (fun id _ => auditRollover_ends id) h₁ : (Prog.forEach auditRollover evictedIds).Holds _ _ _ _).stable
    (I := fun w => ∀ c, w₁.done = some c → w.done = some c)
    (fun hstep hI c hc => Lawful.sticky (Steady.toLawful hstep) c (hI c hc)) fun c hc => hc
  refine .bind (hloop.mono fun r w₂ hr => ?_)
  cases r with
  | error e => exact hr.1
  | ok _ =>
    refine orFail_ends hr.1 fun e he => ?_
    obtain ⟨c, hc, hce⟩ := herr e he
    exact ⟨c, hr.2 c hc, hce⟩

theorem retry_holds (options : Options) (id : Uuid) (payload : List UInt8) (hw : Active w) :
    (retry options id payload).Holds steady Anywhere (fun r w' => ∃ x, r = .ok x ∧ Active w') w := by
  have hkeeps : Transport.RetryCalls.Keeps (ε := Error) ⟨Prog.call .deliveryErr, Prog.call (.send id payload),
      Prog.call .random, fun delay => Prog.call (.sleep delay)⟩ steady Anywhere Active (fun _ _ => True)
      (fun _ => True) := {
    err := fun _ hw => .call anywhere fun _ _ h => ⟨_, rfl, h.active hw rfl rfl⟩
    operation := fun _ hw => .call anywhere fun _ _ h => ⟨_, rfl, h.active hw rfl rfl, trivial⟩
    random := fun _ hw => .call anywhere fun _ _ h => ⟨_, rfl, h.active hw rfl rfl⟩
    wait := fun _ _ hw => .call anywhere fun _ _ h => ⟨_, rfl, h.active hw rfl rfl, fun _ _ => trivial⟩
    context := fun _ => trivial
    entropy := fun _ => trivial }
  refine (Transport.retryWith_holds hkeeps options.retryPolicy (fun _ _ => trivial) hw).mono ?_
  rintro r w' ⟨x, hx, hw', -⟩
  exact ⟨x, hx, hw'⟩

variable {options : Options}

theorem transmit_ends (id : Uuid) (payload : List UInt8) (hw : Active w) :
    (transmit options id payload).Holds steady Anywhere Ends w := by
  refine .bind ((retry_holds options id payload hw).mono fun r w₁ hr => ?_)
  obtain ⟨x, rfl, h₁⟩ := hr
  cases x with
  | error e =>
    refine .bind (.call anywhere fun done w₂ h => ?_)
    have h₂ : Active w₂ := h.active h₁ rfl rfl
    obtain rfl : done = w₂.done := h.answers
    cases hdone : w₂.done with
    | some c => exact h₂.error hdone (by simp [Error.isContext])
    | none =>
      dsimp only
      split
      · refine ends_bind (quarantine_ends id h₂) fun _ w₃ h₃ => ?_
        exact ends_bind (emit_ends h₃ not_isStop_deliveryEvent) fun _ _ => ends_pure
      · exact ends_bind (emit_ends h₂ not_isStop_deliveryEvent) fun _ _ => ends_pure
  | ok _ =>
    refine .bind (.call anywhere fun r w₂ h => ?_)
    cases r with
    | ok _ => exact ends_bind (emit_ends (h.active h₁ rfl rfl) not_isStop_deliveryEvent) fun _ _ => ends_pure
    | error e =>
      -- the error of `Acknowledge` is reported as a local failure
      have hsurfaced : w₂.surfaced = true := h.surfaces rfl rfl rfl
      refine .bind (emit_holds fun w₃ h₃ => ?_)
      refine ⟨?_, .inl ⟨?_, rfl⟩⟩
      · exact h₃.logged_quiet (h.quiet h₁.quiet rfl) not_isStop_spoolEvent
      · rw [h₃.surfaced, hsurfaced, Bool.true_or]

theorem reject_ends (id : Uuid) (failure : FailureClass) (hw : Active w) :
    (reject id failure).Holds steady Anywhere Ends w := by
  refine ends_bind (quarantine_ends id hw) fun _ w₁ h₁ => ?_
  exact ends_bind (emit_ends h₁ not_isStop_spoolEvent) fun _ _ => ends_pure

theorem deliverOne_ends (id : Uuid) (hw : Active w) : (deliverOne options id).Holds steady Anywhere Ends w := by
  refine .bind (.call anywhere fun r w₁ h => ?_)
  have h₁ : Active w₁ := h.active hw (by cases r <;> rfl) rfl
  cases r with
  | error e =>
    obtain ⟨c, hdone, he⟩ := h.own_error rfl rfl
    exact h₁.error hdone he
  | ok payload =>
    obtain ⟨m, hm, hid⟩ := h.decodes
    refine .bind ?_
    dsimp only [Prog.orFail, Prog.Holds]
    rw [hm]
    dsimp only
    rw [if_neg (fun hne => hne hid)]
    split
    · exact reject_ends id _ h₁
    · refine .bind (.call anywhere fun now w₂ h => ?_)
      have h₂ : Active w₂ := h.active h₁ rfl rfl
      dsimp only
      split
      · exact reject_ends id _ h₂
      · exact transmit_ends id payload h₂

theorem deliverAll_ends (ids : List Uuid) (hw : Active w) : (deliverAll options ids).Holds steady Anywhere Ends w := by
  induction ids generalizing w with
  | nil => exact ends_pure hw
  | cons id ids ih =>
    refine ends_bind (deliverOne_ends id hw) fun verdict w₁ h₁ => ?_
    cases verdict with
    | blocked => exact ends_pure h₁
    | next => exact ih h₁

theorem deliver_ends (hw : Calm w) : (deliver options).Holds steady Anywhere Ends w := by
  refine .bind (.call anywhere fun r w₁ h => ?_)
  have h₁ : Active w₁ := ⟨h.calm hw rfl rfl, by rw [h.listed]; exact Bool.or_true _⟩
  cases r with
  | error e =>
    obtain ⟨c, hdone, he⟩ := h.own_error rfl rfl
    exact h₁.error hdone he
  | ok ids => exact .bind (deliverAll_ends ids h₁)

theorem cycle_ends (hw : Calm w) : (cycle options).Holds steady Anywhere Ends w := by
  refine ends_bind (deliver_ends hw) fun blocked w₁ h₁ => ?_
  refine .bind (.call anywhere fun r w₂ h => ?_)
  obtain ⟨result, err⟩ := r
  cases err with
  | ok _ =>
    refine ends_bind (emit_ends (h.active h₁ rfl rfl) fun he => nomatch he.1) fun _ w₃ h₃ => ?_
    cases blocked with
    | true => exact ends_pure h₃
    | false => exact ends_bind (deliver_ends h₃.toCalm) fun _ _ => ends_pure
  | error e =>
    obtain ⟨⟨outcome, failure, fatal⟩, hclass⟩ : ∃ x, classifyLocalState e = x := ⟨_, rfl⟩
    have hfatal : (classifyLocalState e).2.2 = fatal := by rw [hclass]
    dsimp only
    rw [hclass]
    cases fatal with
    | false =>
      exact ends_bind (emit_ends (h.active h₁ hfatal rfl) not_isStop_spoolEvent) fun _ w₃ h₃ => ends_pure h₃
    | true =>
      have hsurfaced : w₂.surfaced = true := h.surfaces hfatal rfl hfatal
      refine .bind (emit_holds fun w₃ h₃ => ?_)
      refine ⟨h₃.logged_quiet (h.quiet h₁.quiet rfl) not_isStop_spoolEvent, .inl ⟨?_, rfl⟩⟩
      rw [h₃.surfaced, hsurfaced, Bool.true_or]

/-! ## Whole runs -/

/-- How `Run` ends once its context was cancelled. -/
def Returns (r : Except Error Ending) (w : Watch) : Prop :=
  w.done ≠ none → ((r = .ok .stopped ∧ StopsLast w.events) ↔ w.surfaced = false)

theorem stop_returns (hw : Calm w) :
    (do stop; pure .stopped : Act Ending).Holds steady Anywhere Returns w := by
  refine .bind (emit_holds fun w' h _ => ⟨fun _ => ?_, fun _ => ⟨rfl, ?_⟩⟩)
  · rw [h.surfaced, hw.surfaced]
    exact Bool.and_false _
  · exact ⟨w.events, _, h.events, ⟨rfl, rfl⟩, hw.quiet⟩

theorem failed_returns (hsurfaced : w.surfaced = true) : Returns (.error e) w := by
  refine fun _ => ⟨nofun, fun h => ?_⟩
  rw [hsurfaced] at h
  exact nomatch h

theorem isStop_holds {c : ContextError} (hw : Calm w) (hdone : w.done = some c) (he : e.isContext c = true) :
    (isStop e).Holds steady Anywhere (fun r w' => r = .ok true ∧ Calm w') w := by
  rw [isStop]
  split
  · exact ⟨rfl, hw⟩
  · rename_i hcanceled
    have hdeadline : c = .deadlineExceeded := by
      cases c with
      | canceled => exact absurd he hcanceled
      | deadlineExceeded => rfl
    rw [if_pos (hdeadline ▸ he)]
    refine .bind (.call anywhere fun done w' h => ?_)
    obtain rfl : done = w'.done := h.answers
    refine ⟨?_, h.calm hw rfl rfl⟩
    rw [h.sticky c hdone]
    rfl

theorem loop_returns (cycles : Nat) (hw : Calm w) : (loop options cycles).Holds steady Anywhere Returns w := by
  induction cycles generalizing w with
  | zero =>
    refine .bind (.call anywhere fun done w₁ h => ?_)
    obtain rfl : done = w₁.done := h.answers
    dsimp only
    cases hdone : w₁.done with
    | some c => exact stop_returns (h.calm hw rfl rfl)
    | none => exact fun hne => absurd hdone hne
  | succ cycles ih =>
    refine .bind (.call anywhere fun done w₁ h => ?_)
    have h₁ : Calm w₁ := h.calm hw rfl rfl
    cases done with
    | some c => exact stop_returns h₁
    | none =>
      refine .bind (.attempt ((cycle_ends h₁).mono fun r w₂ hr => ?_))
      cases r with
      | ok _ =>
        refine .bind (.call anywhere fun fired w₃ h₃ => ?_)
        have hcalm : Calm w₃ := h₃.calm hr.toCalm rfl rfl
        cases fired with
        | true => exact ih hcalm
        | false => exact stop_returns hcalm
      | error e =>
        obtain ⟨hquiet, ⟨hsurfaced, rfl⟩ | ⟨hsurfaced, c, hdone, he⟩⟩ := hr
        · have hno : isStop .runtimeFailed = pure false := rfl
          dsimp only
          rw [hno]
          refine .bind (.bind (.call anywhere fun b w₃ h₃ => failed_returns ?_))
          rw [h₃.surfaced, hsurfaced, Bool.true_or]
        · refine .bind ((isStop_holds ⟨hsurfaced, hquiet⟩ hdone he).mono fun r w₃ hr => ?_)
          obtain ⟨rfl, hcalm⟩ := hr
          exact stop_returns hcalm

theorem auditPendingRollovers_holds (hw : Calm w) (hl : w.listed = false) :
    auditPendingRollovers.Holds steady Anywhere (fun r w' => match r with
      | .ok _ => Calm w'
      | .error _ => w'.surfaced = true) w := by
  refine .bind (.call anywhere fun r w₁ h => ?_)
  cases r with
  | error e => exact h.surfaces rfl rfl rfl
  | ok ids =>
    refine .bind (.forEach (fun _ w => Calm w ∧ w.listed = false) ⟨h.calm hw rfl rfl, ?_⟩ ?_ fun w hw => hw.1)
    · rw [h.listed, hl]
      rfl
    · rintro id rest w ⟨hw, hl⟩
      refine .bind (emit_holds fun w₁ h₁ => ?_)
      have hcalm : Calm w₁ := h₁.logged hw not_isStop_spoolEvent
      have hlisted : w₁.listed = false := by rw [h₁.listed, hl]; rfl
      refine .bind (.call anywhere fun r w₂ h₂ => ?_)
      cases r with
      | ok _ => exact ⟨h₂.calm hcalm rfl rfl, by rw [h₂.listed, hlisted]; rfl⟩
      | error e =>
        refine h₂.surfaces rfl rfl ?_
        rw [hlisted]
        rfl

theorem run_returns (cycles : Nat) (done : Option ContextError) :
    (run options cycles).Holds steady Anywhere Returns (.start done) := by
  refine .bind (emit_holds fun w₁ h₁ => ?_)
  have hstart : Calm (.start done) := ⟨rfl, List.forall_mem_nil _⟩
  have hcalm : Calm w₁ := h₁.logged hstart fun he => nomatch he.2
  refine .bind ((auditPendingRollovers_holds hcalm (by rw [h₁.listed]; rfl)).mono fun r w₂ hr => ?_)
  cases r with
  | ok _ => exact loop_returns cycles hr
  | error e => exact failed_returns hr

/-- **Cancellation is a normal stop** exactly if it does not surface in the audit of
pending rollovers, in `Acknowledge` or as a fatal error of the snapshot. -/
theorem run_stops_iff {cycles : Nat} {done : Option ContextError} {r : Except Error Ending}
    (h : (run options cycles).Runs steady (.start done) (some r) w) (hdone : w.done ≠ none) :
    (r = .ok .stopped ∧ StopsLast w.events) ↔ w.surfaced = false :=
  (h.of_holds (run_returns cycles done)).1 r rfl hdone

/-- Options that `New` accepts. -/
def someOptions : Options :=
  ⟨"123e4567-e89b-42d3-a456-426614174000", 60000000000, 10000000000, ⟨3, 1000000000, 5000000000⟩⟩

/-- The state after a call. -/
def Watch.after (w : Watch) (o : Call β) (b : β) (done : Option ContextError) : Watch :=
  ⟨done, w.listed || o.isListIds, w.events ++ o.emitted, w.surfaced || (done.isSome && o.surfaces w.listed b)⟩

theorem Watch.lawful_after {done : Option ContextError} (hsticky : ∀ c, w.done = some c → done = some c)
    (hown : ∀ c e, done = some c → o.error? b = some e → e.isContext c = true) (hanswers : o.Answers done b) :
    Lawful w o b (w.after o b done) := ⟨hsticky, hown, hanswers, rfl, rfl, rfl⟩

/-- A call that succeeds before the context is cancelled. -/
theorem Watch.lawful_before (hdone : w.done = none) (herr : o.error? b = none) (hanswers : o.Answers none b) :
    Lawful w o b (w.after o b none) :=
  lawful_after (by rw [hdone]; exact nofun) (by rw [herr]; exact nofun) hanswers

theorem Watch.steady_before (hdone : w.done = none) (herr : o.error? b = none) (hanswers : o.Answers none b)
    (hends : o.ends b = false) (hdecodes : o.Decodes b) : Steady w o b (w.after o b none) where
  toLawful := lawful_before hdone herr hanswers
  unbroken _ := hends
  decodes := hdecodes

/-- The last call before a stop is reported, during which the context is cancelled. -/
theorem Watch.steady_cancelled (hdone : w.done = none) (herr : o.error? b = none)
    (hanswers : o.Answers (some .canceled) b) (hdecodes : o.Decodes b) :
    Steady w o b (w.after o b (some .canceled)) where
  toLawful := lawful_after (by rw [hdone]; exact nofun) (by rw [herr]; exact nofun) hanswers
  unbroken := nofun
  decodes := hdecodes

/-- The events of a cycle over an empty queue. -/
def quietCycle : List Event :=
  [lifecycle .info .started .none, ⟨.info, .collection, .collector, .succeeded, .none, none⟩]

/-- A run over an empty queue whose context is cancelled while `Run` waits for the second
cycle. -/
theorem run_stops_iff_waiting :
    ∃ w, (run someOptions 1).Runs steady (.start none) (some (.ok .stopped)) w ∧ w.done = some .canceled ∧
      StopsLast w.events := by
  have hrun : (run someOptions 1).Runs steady (.start none) (some (.ok .stopped))
      ⟨some .canceled, true, quietCycle ++ [lifecycle .info .stopped .none], false⟩ := by
    refine .act true _ (Watch.steady_before rfl rfl rfl rfl trivial) ?_
    refine .act (.ok []) _ (Watch.steady_before rfl rfl trivial rfl trivial) ?_
    refine .act none _ (Watch.steady_before rfl rfl rfl rfl trivial) ?_
    refine .act (.ok []) _ (Watch.steady_before rfl rfl trivial rfl trivial) ?_
    refine .act (⟨none, true⟩, .ok ()) _ (Watch.steady_before rfl rfl trivial rfl trivial) ?_
    refine .act true _ (Watch.steady_before rfl rfl rfl rfl trivial) ?_
    refine .act (.ok []) _ (Watch.steady_before rfl rfl trivial rfl trivial) ?_
    refine .act false _ (Watch.steady_cancelled rfl rfl (fun _ => nofun) trivial) ?_
    refine .act true ⟨some .canceled, true, quietCycle ++ [lifecycle .info .stopped .none], false⟩ ?_ (.ret _ _)
    exact ⟨⟨fun _ h => h, nofun, rfl, rfl, rfl, rfl⟩, nofun, trivial⟩
  exact ⟨_, hrun, rfl, ((run_stops_iff hrun nofun).mpr rfl).2⟩

/-- The error of the queue for a cancelled context. -/
def queueCanceled : Error := .spool (.context .canceled)

/-- A context that is cancelled before `Run`, or while the snapshot is taken: `Run` returns
an error and reports no stop. -/
theorem cancelled_run_fails : someOptions.valid = true ∧
    (∃ w, (run someOptions 1).Runs lawful (.start (some .canceled)) (some (.error queueCanceled)) w ∧
      ¬ StopsLast w.events) ∧
    ∃ w, (run someOptions 1).Runs lawful (.start none) (some (.error .runtimeFailed)) w ∧
      w.done = some .canceled ∧ ¬ StopsLast w.events := by
  have hnone : ∀ {events : List Event}, (∀ e ∈ events, e.outcome ≠ .stopped) → ¬ StopsLast events := by
    rintro events h ⟨before, last, rfl, hlast, -⟩
    exact h last (List.mem_append_right _ (List.mem_singleton.mpr rfl)) hlast.2
  refine ⟨by decide, ⟨⟨some .canceled, false, [lifecycle .info .started .none], true⟩, ?_, hnone (by decide)⟩,
    ⟨some .canceled, true, [lifecycle .info .started .none, spoolEvent .error .failed .internal none,
      lifecycle .error .failed .internal], true⟩, ?_, rfl, hnone (by decide)⟩
  · refine .act true _ (Watch.lawful_after (fun _ h => h) nofun rfl) ?_
    refine .act (.error queueCanceled) _ (Watch.lawful_after (fun _ h => h) ?_ trivial) (.fail _ _)
    rintro c e hc he
    cases hc
    cases he
    rfl
  · refine .act true _ (Watch.lawful_before rfl rfl rfl) ?_
    refine .act (.ok []) _ (Watch.lawful_before rfl rfl trivial) ?_
    refine .act none _ (Watch.lawful_before rfl rfl rfl) ?_
    refine .act (.ok []) _ (Watch.lawful_before rfl rfl trivial) ?_
    refine .act ({}, .error queueCanceled) (Watch.after _ _ _ (some .canceled)) (Watch.lawful_after nofun ?_ trivial) ?_
    · rintro c e hc he
      cases hc
      cases he
      rfl
    · refine .act true _ (Watch.lawful_after (fun _ h => h) nofun rfl) ?_
      refine .act true _ (Watch.lawful_after (fun _ h => h) nofun rfl) (.fail _ _)

end NorthgateRmm.Agent.Runtime
