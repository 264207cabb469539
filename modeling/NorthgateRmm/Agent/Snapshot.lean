import NorthgateRmm.Agent.Runtime.Run
import NorthgateRmm.Agent.Spool.Custody

/-!
# `agent.Snapshotter`

One collection cycle: what the collectors found is numbered, encoded and handed to the
queue. The collectors, the sequence store, the random bytes, the clock and the queue are
calls; over the spool, `Enqueue` is its program, any step of which may fail.
-/

namespace NorthgateRmm.Agent

open Spool (ContextError Queue Step)
open CrashFs

/-! ## Calls of the spool -/

abbrev Disk := Spool.Disk (List UInt8)

section

variable {α : Type} {p : Step (List UInt8) α} {s s' : Disk} {r : Option (Except Spool.Error α)}
  {K F : Disk → Prop} {Q : Except Spool.Error α → Disk → Prop}

/-- A run of a program of the spool in which any step may fail; no result when it was
stopped. -/
def Performs (p : Step (List UInt8) α) (s : Disk) (r : Option (Except Spool.Error α)) (s' : Disk) : Prop :=
  ∃ plan, p.run Fs.machine plan s = (r, s')

/-- The result as the caller sees it. -/
def Answers (p : Step (List UInt8) α) (s : Disk) (a : Option (Except Error α)) (s' : Disk) : Prop :=
  ∃ r, Performs p s r s' ∧ a = r.map fun r => r.mapError .spool

theorem Performs.of_faulty (h : Performs p s r s') (hp : Faulty K p Q s) : (∀ x, r = some x → Q x s') ∧ (r = none → K s') := by
  obtain ⟨plan, hplan⟩ := h
  have hrun := Prog.run_of_wp hp fun c (_ : c ∈ plan) _ _ => trivial
  rw [hplan] at hrun
  cases r with
  | none => exact ⟨nofun, fun _ => hrun⟩
  | some x => exact ⟨fun y hy => Option.some.inj hy ▸ hrun, nofun⟩

/-- What holds however the program ends. -/
theorem Performs.always (h : Performs p s r s') (hp : Spool.Always K p s) : K s' := by
  cases r with
  | none => exact (h.of_faulty hp).2 rfl
  | some x => exact (h.of_faulty hp).1 x rfl

theorem Answers.of_faulty {a : Option (Except Error α)} (h : Answers p s a s') (hp : Faulty K p Q s)
    (hK : ∀ s', K s' → F s') (hQ : ∀ r s', Q r s' → F s') : F s' ∧ ∀ x, a = some (.ok x) → Q (.ok x) s' := by
  obtain ⟨r, hr, rfl⟩ := h
  obtain ⟨hsome, hnone⟩ := hr.of_faulty hp
  cases r with
  | none => exact ⟨hK _ (hnone rfl), nofun⟩
  | some r =>
    refine ⟨hQ r _ (hsome r rfl), fun x hx => ?_⟩
    cases r with
    | error e => exact nomatch hx
    | ok y =>
      cases hx
      exact hsome _ rfl

end

namespace Snapshotter

open Protocol (Envelope InventoryPayload encodeInventory decodeInventory)
open NorthgateRmm.Agent.Runtime (SnapshotResult)

/-- One minute. -/
def defaultMessageTTL : Int := 60000000000

/-- `collector.Result`, without its issues. -/
structure Result where
  platform : String
  architecture : String
  fields : GoJson.StringMap
  complete : Bool

inductive Call : Type → Type 1
  /-- `runner.Run` -/
  | collect : Call (Except Error Result)
  /-- the reservation of `ReserveAndUse`, whose lock is held until the snapshot is over -/
  | reserve (bootID : String) : Call (Except Error Int)
  /-- sixteen bytes of `rand.Read`, as a big-endian number -/
  | random : Call (Except Error (BitVec 128))
  /-- `clock().UTC()`, in nanoseconds -/
  | clock : Call Int
  | enqueue (id : Uuid) (raw : List UInt8) : Call (Except Error Unit)

/-- Version 4 in the upper half of the seventh byte, the variant in the ninth. -/
def newUUID (raw : BitVec 128) : Uuid :=
  ⟨raw &&& ~~~(0xf#128 <<< 76) &&& ~~~(0x3#128 <<< 62) ||| 0x4#128 <<< 76 ||| 0x2#128 <<< 62⟩

def envelope (messageID correlationID : Uuid) (endpointID bootID : String) (sequence now : Int) : Envelope where
  messageID := messageID.toText
  endpointID := endpointID
  bootID := bootID
  sequence := sequence
  createdAt := ⟨now, 0⟩
  expiresAt := ⟨now + defaultMessageTTL, 0⟩
  correlationID := correlationID.toText
  protocolVersion := Protocol.version

def payload (result : Result) : InventoryPayload where
  platform := result.platform
  architecture := result.architecture
  fields := some result.fields
  collectorComplete := result.complete
  schemaVersion := Protocol.inventorySchema

/-- `Snapshot`; an error comes with the result as far as it was filled. -/
def snapshot (endpointID : String) : Prog Call (SnapshotResult × Error) SnapshotResult := do
  let result ← Prog.orFail (← Prog.call .collect) ({}, ·)
  let bootID := (result.fields.entries.lookup "boot.id").getD ""
  Prog.require (bootID ≠ "") ({}, .failed "boot identity is unavailable")
  let sequence ← Prog.orFail (← Prog.call (.reserve bootID)) ({}, ·)
  let messageID ← Prog.orFail (← Prog.call .random) ({}, ·)
  let correlationID ← Prog.orFail (← Prog.call .random) ({}, ·)
  let now ← Prog.call .clock
  let raw ← Prog.orFail (encodeInventory
    (envelope (newUUID messageID) (newUUID correlationID) endpointID bootID sequence now) (payload result))
    fun e => ({}, .failed e)
  let snapshotResult : SnapshotResult := { messageId := some (newUUID messageID), complete := result.complete }
  let _ ← Prog.orFail (← Prog.call (.enqueue (newUUID messageID) raw)) (snapshotResult, ·)
  pure snapshotResult

/-! ## Over the spool -/

/-- What a call does to the disk while the clock shows `time`. -/
def Call.Effect (q : Queue) (time : Int) (s s' : Disk) : {β : Type} → Call β → Option β → Prop
  | _, .clock, a => s' = s ∧ ∀ t, a = some t → t = time
  | _, .enqueue id raw, a => ∃ ctx createdAt, Answers (q.enqueue ctx id raw createdAt) s a s'
  | _, _, _ => s' = s

def overSpool (q : Queue) (time : Int) : Env Call Disk :=
  ⟨fun s o b s' => o.Effect q time s s' (some b), fun s o s' => o.Effect q time s s' none⟩

/-- A message as `Snapshot` makes it at the given time. -/
def Fresh (endpointID : String) (time : Int) (id : Uuid) (raw : List UInt8) : Prop :=
  ∃ m, decodeInventory raw = .ok m ∧ m.envelope.messageID = id.toText ∧ m.envelope.endpointID = endpointID ∧
    m.envelope.createdAt.ns = time ∧ m.envelope.expiresAt.ns = time + defaultMessageTTL

/-- Nothing, or one call of `Enqueue` with such a message. -/
def Adds (endpointID : String) (time : Int) (s s' : Disk) : Prop :=
  s' = s ∨ ∃ id raw, Fresh endpointID time id raw ∧ Queue.Begun id s s'

variable {q : Queue} {time : Int} {endpointID : String} {s : Disk}

theorem call_holds {β γ ε : Type} {o : Call (Except ε β)} {f : ε → SnapshotResult × Error}
    {k : β → Prog Call (SnapshotResult × Error) γ} {Q : Except (SnapshotResult × Error) γ → Disk → Prop}
    (ho : ∀ s' a, o.Effect q time s s' a → s' = s) (hQ : ∀ e, Q (.error e) s)
    (hk : ∀ b, (k b).Holds (overSpool q time) (Adds endpointID time s) Q s) :
    (do let b ← Prog.orFail (← Prog.call o) f; k b).Holds (overSpool q time) (Adds endpointID time s) Q s := by
  refine .bind (.bind (.call (fun s' hs => .inl (ho s' _ hs)) fun r s' hs => ?_))
  obtain rfl := ho s' _ hs
  cases r with
  | ok b => exact hk b
  | error e => exact hQ _

theorem snapshot_adds : (snapshot endpointID).Holds (overSpool q time) (Adds endpointID time s)
    (fun _ s' => Adds endpointID time s s') s := by
  have hself : Adds endpointID time s s := .inl rfl
  refine call_holds (fun _ _ h => h) (fun _ => hself) fun result => ?_
  generalize (result.fields.entries.lookup "boot.id").getD "" = bootID
  refine .bind ?_
  rw [Prog.require]
  split
  · refine call_holds (fun _ _ h => h) (fun _ => hself) fun sequence => ?_
    refine call_holds (fun _ _ h => h) (fun _ => hself) fun messageID => ?_
    refine call_holds (fun _ _ h => h) (fun _ => hself) fun correlationID => ?_
    refine .bind (.call (fun s' hs => .inl hs.1) fun now s' hs => ?_)
    obtain ⟨rfl, hnow⟩ := hs
    obtain rfl := hnow now rfl
    refine .bind ?_
    cases hraw : encodeInventory (envelope (newUUID messageID) (newUUID correlationID) endpointID bootID sequence now)
        (payload result) with
    | error e => exact hself
    | ok raw =>
      have hfresh : Fresh endpointID now (newUUID messageID) raw := ⟨_, Protocol.decode_encode hraw, rfl, rfl, rfl, rfl⟩
      have hadds : ∀ {s a}, (Call.enqueue (newUUID messageID) raw).Effect q now s' s a → Adds endpointID now s' s := by
        rintro s a ⟨ctx, createdAt, r, hr, -⟩
        exact .inr ⟨_, raw, hfresh, hr.always (Prog.wp_mono Queue.enqueue_outcome fun _ _ => And.left)⟩
      refine .bind (.call (fun _ => hadds) fun r s hs => .bind ?_)
      cases r <;> exact hadds hs
  · exact hself

end Snapshotter

end NorthgateRmm.Agent
