import NorthgateRmm.Agent.Spool.Process

/-!
# Spools that are refused

`Enqueue` looks for its ID in the active directory only, while `Open` compares
the IDs of neighbouring directories, and evictions go to the rollover directory
whatever it already holds, while its readers take at most 128 entries. Without
crashes and faults, these are the only ways into a state that the spool refuses:
as long as `Enqueue` is not given the ID of a rejected record, and `Quarantine`
neither that of a rollover record nor a record whose evictions overflow the
rollover directory, every state is accepted.
-/

namespace NorthgateRmm.Agent.Spool

open CrashFs

variable {P : Type} [Payload P]

namespace Process

variable (maxBytes : Nat)

/-- `ListIDs`, `ListRolloverIDs`, and `Close` followed by `Open`, all succeed. -/
structure Serves (p : Process P) : Prop where
  listIds : ∃ q ids, p.queue = some q ∧ ((q.listIds none).finish Fs.machine none p.disk).1 = .ok ids
  listRolloverIds : ∃ q ids, p.queue = some q ∧ ((q.listRolloverIds none).finish Fs.machine none p.disk).1 = .ok ids
  reopens : ∃ q, ((Queue.openQueue maxBytes false).finish Fs.machine none (p.step maxBytes .close).disk).1 = .ok q

/-- The state after these calls. -/
def calls (p : Process P) (cs : List (Call P)) : Process P := cs.foldl (fun p c => p.step maxBytes (.call c)) p

/-- An empty spool, freshly opened. -/
def opened : Process P := start.step maxBytes .openSpool

/-- `Enqueue` is given an ID that is not rejected, `Quarantine` one that is not in
rollover and whose evictions fit there. -/
def Admits (p : Process P) : Call P → Prop
  | .enqueue _ id _ _ => p.disk.image .rejected (.record id) = none
  | .quarantine _ id => p.disk.image .rollover (.record id) = none ∧ ∀ q, p.queue = some q → Room q id p.disk
  | _ => True

/-- Every call meets the condition in the state in which it is made. -/
def AdmitsAll : Process P → List (Call P) → Prop
  | _, [] => True
  | p, c :: rest => p.Admits c ∧ AdmitsAll (p.step maxBytes (.call c)) rest

variable {maxBytes} {p : Process P} {kept : List (Record P)}

theorem serves_of_inv (hmax : maxRecordBytes ≤ maxBytes) (hq : p.queue = some { maxBytes })
    (h : Inv False maxBytes kept p.disk) : p.Serves maxBytes := by
  have hscan := scannable_of_sound (q := { maxBytes }) h.sound h.separate
  obtain ⟨-, -, hvn, -⟩ := nodup_liveOrders.mp hscan.orders
  have hroll : Queue.rolloverUsage p.disk = .ok _ :=
    rolloverUsage_ok_iff.mpr ⟨hscan.rolloverCount, hscan.rollover, hvn, rfl⟩
  have hlist : Sure (fun _ => True) (Queue.listIds { maxBytes } none) (fun r _ => ∃ ids, r = .ok ids) p.disk := by
    refine Prog.wp_bind.mpr (Prog.wp_bind.mpr (Prog.wp_require.mpr ⟨fun _ => ?_, nofun⟩))
    refine Prog.wp_bind.mpr (sure_read trivial ?_)
    rw [inventory_of_scannable hscan]
    exact ⟨_, rfl⟩
  have hlistRollover : Sure (fun _ => True) (Queue.listRolloverIds { maxBytes } none)
      (fun r _ => ∃ ids, r = .ok ids) p.disk := by
    refine Prog.wp_bind.mpr (Prog.wp_bind.mpr (Prog.wp_require.mpr ⟨fun _ => ?_, nofun⟩))
    refine Prog.wp_bind.mpr (sure_read trivial ?_)
    rw [hroll]
    exact ⟨_, rfl⟩
  obtain ⟨ids, hids⟩ := finish_of_sure hlist
  obtain ⟨rolled, hrolled⟩ := finish_of_sure hlistRollover
  exact ⟨⟨_, ids, hq, hids⟩, ⟨_, rolled, hq, hrolled⟩,
    ⟨_, (finish_of_sure (openQueue_sure h.recoverable hmax)).1⟩⟩

/-- Between the calls. -/
def Intact (maxBytes : Nat) (p : Process P) : Prop :=
  p.queue = some { maxBytes } ∧ ∃ kept, Backs kept p.accepted ∧ Inv False maxBytes kept p.disk

theorem Intact.step (hmax : maxRecordBytes ≤ maxBytes) (h : p.Intact maxBytes) {c : Call P} (hc : p.Admits c) :
    (p.step maxBytes (.call c)).Intact maxBytes := by
  obtain ⟨hq, kept, hb, hinv⟩ := h
  have hfine : c.Fine False { maxBytes } p.disk := by
    cases c with
    | enqueue ctx id payload now => exact ⟨hc, False.elim⟩
    | quarantine ctx id => exact ⟨hc.1, hc.2 _ hq⟩
    | acknowledge ctx id => exact trivial
    | acknowledgeRollover ctx id => exact trivial
  obtain ⟨kept', hb', hinv'⟩ := finish_of_sure (Call.sure (q := { maxBytes }) hinv hmax hfine hb)
  simp only [Process.step, hq]
  exact ⟨rfl, kept', hb', hinv'⟩

theorem intact_opened (hmax : maxRecordBytes ≤ maxBytes) : (opened maxBytes : Process P).Intact maxBytes := by
  obtain ⟨hr, hinv⟩ := finish_of_sure (openQueue_sure (recoverable_start (P := P) False maxBytes) hmax)
  have hopened : (opened maxBytes : Process P) =
      ⟨((Queue.openQueue maxBytes false).finish Fs.machine none (start : Process P).disk).2, some { maxBytes }, []⟩ := by
    have hout : (Queue.openQueue maxBytes (start : Process P).queue.isSome).finish Fs.machine none (start : Process P).disk =
        (.ok { maxBytes }, _) := Prod.ext hr rfl
    rw [opened, step, hout]
    rfl
  rw [hopened]
  exact ⟨rfl, [], (fun _ h => by cases h), hinv⟩

theorem Intact.calls (hmax : maxRecordBytes ≤ maxBytes) {cs : List (Call P)} (h : p.Intact maxBytes)
    (hcs : AdmitsAll maxBytes p cs) (n : Nat) : (p.calls maxBytes (cs.take n)).Intact maxBytes := by
  induction cs generalizing p n with
  | nil => simpa [Process.calls] using h
  | cons c rest ih =>
    cases n with
    | zero => exact h
    | succ n => exact ih (h.step hmax hcs.1) hcs.2 n

/-- **No refusal.** From an empty spool, after every call of a history whose calls
all meet the condition, the spool serves its readers and can be reopened. -/
theorem serves_after_calls (hmax : maxRecordBytes ≤ maxBytes) (cs : List (Call P))
    (h : AdmitsAll maxBytes (opened maxBytes) cs) (n : Nat) :
    ((opened maxBytes).calls maxBytes (cs.take n)).Serves maxBytes := by
  obtain ⟨hq, kept, -, hinv⟩ := (intact_opened hmax).calls hmax h n
  exact serves_of_inv hmax hq hinv

/-- A record is enqueued and rejected, then one is enqueued under `second`. -/
def twoIds (second : Uuid) : List (Call (List UInt8)) :=
  let first : Uuid := ⟨0x000000000000400080000000000000aa⟩
  let now := UtcTime.sample
  [.enqueue none first [7] now, .quarantine none first, .enqueue none second [8] now]

theorem serves_after_twoIds :
    ((opened maxRecordBytes).calls maxRecordBytes (twoIds ⟨0x000000000000400080000000000000bb⟩)).Serves
      maxRecordBytes := by
  refine serves_after_calls (Nat.le_refl _) (twoIds ⟨0x000000000000400080000000000000bb⟩) ?_ 3
  refine ⟨rfl, ⟨rfl, fun q hq => ?_⟩, ?_, trivial⟩
  · obtain ⟨hq₁, kept, -, hinv⟩ := (intact_opened (P := List UInt8) (Nat.le_refl maxRecordBytes)).step
      (Nat.le_refl _) (c := .enqueue none ⟨0x000000000000400080000000000000aa⟩ [7]
        ⟨2026, 1, 1, 0, 0, 0, 0, by decide, by decide⟩) rfl
    cases hq₁.symm.trans hq
    exact room_of_empty hinv (fun _ => rfl) _
  · show Fs.image _ Place.rejected (Name.record ⟨0x000000000000400080000000000000bb⟩) = none
    decide +kernel

/-- The ID of a rejected record is used again: both payloads are accepted, and
`Open` takes the two files for an integrity error. -/
theorem reused_id_not_serves :
    let p := (opened maxRecordBytes).calls maxRecordBytes (twoIds ⟨0x000000000000400080000000000000aa⟩)
    p.accepted.map (·.payload) = [[8], [7]] ∧
    ((Queue.openQueue maxRecordBytes false).finish Fs.machine none (p.step maxRecordBytes .close).disk).1 =
      .error .corrupt ∧ ¬ p.Serves maxRecordBytes := by
  have hopen : ((Queue.openQueue maxRecordBytes false).finish Fs.machine none
      (((opened maxRecordBytes).calls maxRecordBytes (twoIds ⟨0x000000000000400080000000000000aa⟩)).step
        maxRecordBytes .close).disk).1 = .error .corrupt := by decide +kernel
  refine ⟨by decide +kernel, hopen, fun h => ?_⟩
  obtain ⟨q, hq⟩ := h.reopens
  rw [hopen] at hq
  exact nomatch hq

end Process

end NorthgateRmm.Agent.Spool
