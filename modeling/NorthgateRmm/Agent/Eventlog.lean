import NorthgateRmm.Agent.Protocol
import NorthgateRmm.Lib.CrashFrame
import NorthgateRmm.Lib.Tasks

/-!
# The event log

`eventlog.go`: `Logger.Emit` with the schema it checks, the record it writes and the loop of
`writeAll`, as a program that any number of callers run at the same time. The mutex, the
`failed` flag, the clock and the writer are its operations. A `Write` may take any part of
what it is given from the front, and may fail; the count it reports is what it took, or one
that `writeAll` refuses.
-/

namespace NorthgateRmm.Agent.Eventlog

open Json GoJson GoString Wire
open Protocol (Time intValue)

/-! ## Events and records -/

def schemaVersion : Int := 1
def maxRecordBytes : Nat := 1024

/-- An event as a caller can build it: `Level`, `Code` and the like are strings. -/
structure AnyEvent where
  level : String
  code : String
  component : String
  outcome : String
  failureClass : String
  correlationID : String
  messageID : String
  deriving DecidableEq

def validLevelOutcome (level outcome : String) : Bool :=
  if outcome ∈ ["started", "stopped", "succeeded"] then level = "info"
  else if outcome ∈ ["partial", "rejected", "uncertain"] then level = "warn"
  else outcome = "failed" && level = "error"

def validCodeComponentOutcome (event : AnyEvent) : Bool :=
  if event.code = "agent_lifecycle" then
    event.component = "agent" && event.outcome ∈ ["started", "stopped", "failed"]
  else if event.code = "inventory_collection" then
    event.component = "collector" && event.outcome ∈ ["succeeded", "partial", "failed"]
  else if event.code = "inventory_delivery" then
    event.component = "transport" && event.outcome ∈ ["succeeded", "failed", "rejected", "uncertain"]
  else
    event.code = "local_state" && event.component ∈ ["identity", "sequence", "spool"] &&
      event.outcome ∈ ["succeeded", "failed", "rejected", "uncertain"]

def validOptionalUUID (value : String) : Bool := value.isEmpty || uuidPattern value

def validEvent (event : AnyEvent) : Bool :=
  event.level ∈ ["info", "warn", "error"] &&
    event.code ∈ ["agent_lifecycle", "inventory_collection", "inventory_delivery", "local_state"] &&
    event.component ∈ ["agent", "collector", "identity", "sequence", "spool", "transport"] &&
    event.outcome ∈ ["started", "stopped", "succeeded", "partial", "failed", "rejected", "uncertain"] &&
    event.failureClass ∈ ["none", "invalid_input", "unavailable", "limit_exceeded", "permission_denied",
      "integrity_failed", "trust_failed", "state_uncertain", "internal"] &&
    decide (event.outcome ∈ ["started", "stopped", "succeeded"] ↔ event.failureClass = "none") &&
    decide (event.outcome = "uncertain" ↔ event.failureClass = "state_uncertain") &&
    validLevelOutcome event.level event.outcome && validCodeComponentOutcome event &&
    validOptionalUUID event.correlationID && validOptionalUUID event.messageID

/-- A field with the tag `omitempty`. -/
def omitEmpty (name value : String) : List (String × Value) := if value.isEmpty then [] else [(name, string value)]

/-- `json.Marshal` of the record. -/
def recordValue (timestamp : Time) (event : AnyEvent) : Value :=
  object ([("schema_version", intValue schemaVersion),
    ("timestamp", Protocol.timeValue timestamp),
    ("level", string event.level),
    ("code", string event.code),
    ("component", string event.component),
    ("outcome", string event.outcome),
    ("failure_class", string event.failureClass)] ++
    omitEmpty "correlation_id" event.correlationID ++ omitEmpty "message_id" event.messageID)

def encodedRecord (timestamp : Time) (event : AnyEvent) : List UInt8 :=
  encodeUtf8 (String.ofList (render (recordValue timestamp event)))

/-- The line that is written, unless the clock is outside the supported years or the record
is too long. -/
def recordLine (now : Time) (event : AnyEvent) : Option (List UInt8) :=
  let timestamp : Time := { now with offset := 0 }
  if timestamp.year < 1 ∨ 9999 < timestamp.year then none
  else if maxRecordBytes < (encodedRecord timestamp event).length + 1 then none
  else some (encodedRecord timestamp event ++ [10])

/-! ## `Emit` -/

inductive EmitError
  | invalidEvent
  | writeEvent
  deriving DecidableEq, Repr

variable {ι : Type}

/-- The operations of an `Emit`, which is named where it matters whose they are. -/
inductive LogOp (ι : Type) : Type → Type 1
  | lock (emit : ι) : LogOp ι Unit
  /-- `logger.failed` -/
  | failed : LogOp ι Bool
  | now : LogOp ι Time
  /-- the count, and whether there was an error -/
  | write (emit : ι) (value : List UInt8) : LogOp ι (Int × Bool)
  /-- `logger.failed = true` -/
  | setFailed : LogOp ι Unit
  /-- the deferred `Unlock`, with which `Emit` returns -/
  | unlock (emit : ι) (result : Except EmitError Unit) : LogOp ι Unit

/-- Whether all was written. -/
def writeAll (i : ι) (value : List UInt8) : Prog (LogOp ι) Empty Bool :=
  if value.isEmpty then .ret true
  else .op (.write i value) fun answer =>
    if answer.2 then .ret false
    else if _h : answer.1 ≤ 0 ∨ (value.length : Int) < answer.1 then .ret false
    else writeAll i (value.drop answer.1.toNat)
termination_by value.length
decreasing_by
  rw [List.length_drop]
  omega

/-- The end of `Emit`, with the line to write. -/
def writeRecord (i : ι) : Option (List UInt8) → Prog (LogOp ι) Empty (Except EmitError Unit)
  | none => return .error .invalidEvent
  | some encoded => do
    let written ← writeAll i encoded
    if written then return .ok ()
    else
      Prog.call .setFailed
      return .error .writeEvent

def emitLocked (i : ι) (event : AnyEvent) : Prog (LogOp ι) Empty (Except EmitError Unit) := do
  let failed ← Prog.call .failed
  if failed then return .error .writeEvent
  else
    let now ← Prog.call .now
    writeRecord i (recordLine now event)

def emit (i : ι) (event : AnyEvent) : Prog (LogOp ι) Empty (Except EmitError Unit) :=
  if validEvent event then do
    Prog.call (.lock i)
    let result ← emitLocked i event
    Prog.call (.unlock i result)
    return result
  else return .error .invalidEvent

/-! ## The logger and its callers -/

/-- What happened: a `Write` that took bytes, or the return of an `Emit` that had the lock. -/
inductive Moment (ι : Type)
  | wrote (emit : ι) (taken : List UInt8)
  | returned (emit : ι) (result : Except EmitError Unit)

def Moment.emit : Moment ι → ι
  | wrote i _ => i
  | returned i _ => i

structure Log (ι : Type) where
  holder : Option ι
  failed : Bool
  trace : List (Moment ι)

namespace Log

/-- A new logger on a writer. -/
def new : Log ι := ⟨none, false, []⟩

def wrote (s : Log ι) (i : ι) (taken : List UInt8) : Log ι := { s with trace := s.trace ++ [.wrote i taken] }

def unlocked (s : Log ι) (i : ι) (result : Except EmitError Unit) : Log ι :=
  { s with holder := none, trace := s.trace ++ [.returned i result] }

/-- The bytes that reached the writer. -/
def output (s : Log ι) : List UInt8 := s.trace.flatMap fun
  | .wrote _ taken => taken
  | .returned _ _ => []

/-- The calls that had the lock and returned, in that order. -/
def returned (s : Log ι) : List (ι × Except EmitError Unit) := s.trace.filterMap fun
  | .wrote _ _ => none
  | .returned i result => some (i, result)

/-- The calls that returned nil. -/
def succeeded (s : Log ι) : List ι := s.trace.filterMap fun
  | .returned i (.ok _) => some i
  | _ => none

end Log

/-- A record of the event of this `Emit`. -/
def IsRecord (events : ι → AnyEvent) (line : List UInt8) (i : ι) : Prop := ∃ now, recordLine now (events i) = some line

namespace Log

variable {s : Log ι}

theorem output_wrote (i : ι) (taken : List UInt8) : (s.wrote i taken).output = s.output ++ taken := by
  simp [output, wrote]

theorem output_unlocked (i : ι) (result : Except EmitError Unit) : (s.unlocked i result).output = s.output := by
  simp [output, unlocked]

theorem returned_wrote (i : ι) (taken : List UInt8) : (s.wrote i taken).returned = s.returned := by
  simp [returned, wrote]

theorem returned_unlocked (i : ι) (result : Except EmitError Unit) :
    (s.unlocked i result).returned = s.returned ++ [(i, result)] := by
  simp [returned, unlocked]

theorem succeeded_wrote (i : ι) (taken : List UInt8) : (s.wrote i taken).succeeded = s.succeeded := by
  simp [succeeded, wrote]

theorem succeeded_unlocked (i : ι) (result : Except EmitError Unit) :
    (s.unlocked i result).succeeded = s.succeeded ++ match result with
      | .ok _ => [i]
      | .error _ => [] := by
  cases result <;> simp [succeeded, unlocked]

theorem mem_returned {i : ι} {result : Except EmitError Unit} :
    (i, result) ∈ s.returned ↔ .returned i result ∈ s.trace := by
  rw [returned, List.mem_filterMap]
  constructor
  · rintro ⟨m, hm, he⟩
    cases m with
    | wrote j taken => exact nomatch he
    | returned j r =>
      cases he
      exact hm
  · exact fun h => ⟨_, h, rfl⟩

end Log

/-- Bytes after the whole records: part of the record of a call that failed to write it, or
that has the lock. -/
def Torn (events : ι → AnyEvent) (s : Log ι) (rest : List UInt8) : Prop :=
  rest = [] ∨ ∃ i line, IsRecord events line i ∧ rest <+: line ∧
    ((i, .error .writeEvent) ∈ s.returned ∨ s.holder = some i)

/-- A write after this return, or a return of this call after that one, does not occur. -/
def Apart (a b : Moment ι) : Prop :=
  match a, b with
  | .returned _ result, .wrote _ _ => result ≠ .error .writeEvent
  | .returned i _, .returned j _ => i ≠ j
  | .wrote _ _, _ => True

structure Inv (events : ι → AnyEvent) (s : Log ι) : Prop where
  whole : ∃ lines rest, List.Forall₂ (IsRecord events) lines s.succeeded ∧ s.output = lines.flatten ++ rest ∧
    Torn events s rest ∧ (s.holder = none → s.failed = false → rest = [])
  latched : ∀ i, (i, .error .writeEvent) ∈ s.returned → s.failed = true
  apart : s.trace.Pairwise Apart

/-- What the other calls do: nothing while this one has the lock, and nothing in its name. -/
structure Rely (i : ι) (s s' : Log ι) : Prop where
  held : s.holder = some i → s' = s
  own : ∀ m : Moment ι, m.emit = i → (m ∈ s'.trace ↔ m ∈ s.trace)

theorem Rely.refl (i : ι) (s : Log ι) : Rely i s s := ⟨fun _ => rfl, fun _ _ => Iff.rfl⟩

theorem Rely.trans {i : ι} {s₁ s₂ s₃ : Log ι} (h : Rely i s₁ s₂) (h' : Rely i s₂ s₃) : Rely i s₁ s₃ where
  held hs := (h'.held (h.held hs ▸ hs)).trans (h.held hs)
  own m hm := (h'.own m hm).trans (h.own m hm)

def Guar (i : ι) (s s' : Log ι) : Prop := ∀ j, j ≠ i → Rely j s s'

variable {events : ι → AnyEvent} {i : ι} {s : Log ι} {line done : List UInt8}

/-- Whole records of the calls that returned nil, and then `rest`. -/
def Whole (events : ι → AnyEvent) (s : Log ι) (rest : List UInt8) : Prop :=
  ∃ lines, List.Forall₂ (IsRecord events) lines s.succeeded ∧ s.output = lines.flatten ++ rest

/-- A call that has the lock and whose record was written as far as `done`. -/
structure Writing (events : ι → AnyEvent) (i : ι) (line done : List UInt8) (s : Log ι) : Prop where
  holder : s.holder = some i
  failed : s.failed = false
  unreturned : ∀ r, .returned i r ∉ s.trace
  record : IsRecord events line i
  whole : Whole events s done
  part : done <+: line

/-- What a call leaves with each result, before it gives the lock back. -/
def Leaving (events : ι → AnyEvent) (i : ι) (s : Log ι) : Except EmitError Unit → Prop
  | .ok _ => ∃ line, IsRecord events line i ∧ Whole events s line
  | .error .writeEvent => s.failed = true
  | .error .invalidEvent => Whole events s [] ∧ ∀ taken, .wrote i taken ∉ s.trace

/-- What holds after a call returned. -/
def Returned (events : ι → AnyEvent) (i : ι) (r : Except Empty (Except EmitError Unit)) (s : Log ι) : Prop :=
  ∃ result, r = .ok result ∧ (validEvent (events i) = true → .returned i result ∈ s.trace) ∧
    (result = .error .invalidEvent → ∀ taken, .wrote i taken ∉ s.trace)

theorem Writing.wrote (h : Writing events i line done s) (hinv : Inv events s) {taken : List UInt8}
    (htaken : done ++ taken <+: line) :
    Inv events (s.wrote i taken) ∧ Writing events i line (done ++ taken) (s.wrote i taken) := by
  obtain ⟨lines, hlines, houtput⟩ := h.whole
  have hwhole : Whole events (s.wrote i taken) (done ++ taken) :=
    ⟨lines, by rwa [Log.succeeded_wrote], by rw [Log.output_wrote, houtput, List.append_assoc]⟩
  refine ⟨⟨?_, ?_, ?_⟩, h.holder, h.failed, ?_, h.record, hwhole, htaken⟩
  · obtain ⟨lines, hlines, houtput⟩ := hwhole
    exact ⟨lines, _, hlines, houtput, .inr ⟨i, line, h.record, htaken, .inr h.holder⟩,
      fun hnone => nomatch hnone.symm.trans h.holder⟩
  · rw [Log.returned_wrote]
    exact hinv.latched
  · refine List.pairwise_append.2 ⟨hinv.apart, List.pairwise_singleton _ _, fun a ha b hb => ?_⟩
    cases List.mem_singleton.1 hb
    cases a with
    | wrote j taken => trivial
    | returned j r =>
      rintro rfl
      exact nomatch (hinv.latched j (Log.mem_returned.2 ha)).symm.trans h.failed
  · intro r hr
    rcases List.mem_append.1 hr with hr | hr
    · exact h.unreturned r hr
    · exact nomatch List.mem_singleton.1 hr

/-- Where the bytes end when the call that has the lock gives it back. -/
theorem Leaving.whole {result : Except EmitError Unit} (h : Leaving events i s result) (hinv : Inv events s)
    (hholder : s.holder = some i) :
    ∃ lines rest, List.Forall₂ (IsRecord events) lines (s.unlocked i result).succeeded ∧
      s.output = lines.flatten ++ rest ∧ Torn events (s.unlocked i result) rest ∧ (s.failed = false → rest = []) := by
  rw [Log.succeeded_unlocked]
  cases result with
  | ok _ =>
    obtain ⟨line, hline, lines, hlines, houtput⟩ := h
    refine ⟨lines ++ [line], [], List.rel_append hlines (.cons hline .nil), ?_, .inl rfl, fun _ => rfl⟩
    rw [houtput, List.flatten_concat, List.append_nil]
  | error e =>
    rw [List.append_nil]
    cases e with
    | invalidEvent =>
      obtain ⟨⟨lines, hlines, houtput⟩, -⟩ := h
      exact ⟨lines, [], hlines, houtput, .inl rfl, fun _ => rfl⟩
    | writeEvent =>
      have hfailed : s.failed = true := h
      obtain ⟨lines, rest, hlines, houtput, htorn, -⟩ := hinv.whole
      refine ⟨lines, rest, hlines, houtput, htorn.imp_right ?_, fun hf => nomatch hf.symm.trans hfailed⟩
      rintro ⟨j, line, hline, hrest, hj⟩
      refine ⟨j, line, hline, hrest, .inl ?_⟩
      rw [Log.returned_unlocked, List.mem_append]
      refine hj.imp id fun hj => ?_
      cases hj.symm.trans hholder
      exact List.mem_singleton_self _

theorem Leaving.unlocked {result : Except EmitError Unit} (h : Leaving events i s result) (hinv : Inv events s)
    (hholder : s.holder = some i) (hnew : ∀ r, .returned i r ∉ s.trace) : Inv events (s.unlocked i result) := by
  refine ⟨?_, fun j hj => ?_, ?_⟩
  · obtain ⟨lines, rest, hlines, houtput, htorn, hrest⟩ := h.whole hinv hholder
    exact ⟨lines, rest, hlines, by rwa [Log.output_unlocked], htorn, fun _ => hrest⟩
  · rw [Log.returned_unlocked, List.mem_append] at hj
    rcases hj with hj | hj
    · exact hinv.latched j hj
    · cases List.mem_singleton.1 hj
      exact h
  · refine List.pairwise_append.2 ⟨hinv.apart, List.pairwise_singleton _ _, fun a ha b hb => ?_⟩
    cases List.mem_singleton.1 hb
    cases a with
    | wrote j taken => trivial
    | returned j r =>
      rintro rfl
      exact hnew r ha

section Runs

variable [DecidableEq ι]

end Runs

/-! ### A failed write -/

/-- The agent's start, as `Run` reports it. -/
def started : AnyEvent := ⟨"info", "agent_lifecycle", "agent", "started", "none", "", ""⟩

end NorthgateRmm.Agent.Eventlog
