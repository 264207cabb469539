import NorthgateRmm.Server.Effect

/-!
# Ingestion state is the fold of the accepted log

`observations` is the log of accepted messages. The sequence floors, the freshness
columns of the endpoints and the time window of every row are functions of it:
`FoldOfLog` says so, and `Ledger` carries it with the fact that every row belongs
to an enrolled endpoint through every call.

The lower end of the time window rests on the lifetime check of `MessageEnvelope`,
which subtracts two `datetime`s as they come. When both carry one `tzinfo` whose
offset changes between them, the difference of their wall clocks is not the time
that passes, and a message can be accepted more than five minutes after it was made.
-/

namespace NorthgateRmm.Server

/-! ## Folds of the log -/

/-- The sequences accepted from an identity in one boot, in acceptance order. -/
def acceptedSequences (log : List ObservationRow) (identityId bootId : Uuid) : List Nat :=
  (log.filter fun o => o.identityId = identityId ∧ o.bootId = bootId).map (·.sequence)

/-- The receipt times of an endpoint's observations. -/
def receipts (log : List ObservationRow) (endpointId : Uuid) : List Instant :=
  (log.filter fun o => o.endpointId = endpointId).map (·.receivedAt)

/-- The receipt times of an endpoint's heartbeats. -/
def heartbeatReceipts (log : List ObservationRow) (endpointId : Uuid) : List Instant :=
  (log.filter fun o => o.endpointId = endpointId ∧ o.observationType = .heartbeat).map (·.receivedAt)

structure FoldOfLog (db : Db) : Prop where
  messageIds : (db.observations.map (·.messageId)).Nodup
  sequences : ∀ i b, (acceptedSequences db.observations i b).Pairwise (· < ·)
  floors : ∀ i b n, ⟨i, b, n⟩ ∈ db.messageSequences ↔
    (acceptedSequences db.observations i b).getLast? = some n
  lastReceipt : ∀ e ∈ db.endpoints, e.lastReceiptAt = (receipts db.observations e.endpointId).max?
  lastHeartbeat : ∀ e ∈ db.endpoints,
    e.lastHeartbeatAt = (heartbeatReceipts db.observations e.endpointId).max?
  window : ∀ o ∈ db.observations,
    o.receivedAt - minutes 5 < o.sourceTime ∧ o.sourceTime ≤ o.receivedAt + minutes 5

section Append

variable {log : List ObservationRow} {o : ObservationRow}

theorem acceptedSequences_append_same (log : List ObservationRow) (o : ObservationRow) :
    acceptedSequences (log ++ [o]) o.identityId o.bootId =
      acceptedSequences log o.identityId o.bootId ++ [o.sequence] := by
  simp [acceptedSequences]

theorem acceptedSequences_append_other {i b : Uuid} (h : ¬ (o.identityId = i ∧ o.bootId = b)) :
    acceptedSequences (log ++ [o]) i b = acceptedSequences log i b := by
  simp [acceptedSequences, h]

theorem receipts_append_same :
    receipts (log ++ [o]) o.endpointId = receipts log o.endpointId ++ [o.receivedAt] := by
  simp [receipts]

theorem receipts_append_other {e : Uuid} (h : o.endpointId ≠ e) :
    receipts (log ++ [o]) e = receipts log e := by
  simp [receipts, h]

theorem heartbeatReceipts_append_same (hk : o.observationType = .heartbeat) :
    heartbeatReceipts (log ++ [o]) o.endpointId =
      heartbeatReceipts log o.endpointId ++ [o.receivedAt] := by
  simp [heartbeatReceipts, hk]

theorem heartbeatReceipts_append_other {e : Uuid}
    (h : ¬ (o.endpointId = e ∧ o.observationType = .heartbeat)) :
    heartbeatReceipts (log ++ [o]) e = heartbeatReceipts log e := by
  simp [heartbeatReceipts, h]

/-- `GREATEST(COALESCE(last, %s), %s)` keeps the column at the maximum of the log. -/
theorem latest_max? {times : List Instant} {receivedAt : Instant} :
    Db.latest times.max? receivedAt = (times ++ [receivedAt]).max? := by
  cases times with
  | nil => simp [Db.latest]
  | cons t ts =>
    rw [List.cons_append, List.max?_cons', List.max?_cons', List.foldl_append]
    rfl

end Append

/-! ## The invariant -/

/-- The fold, and every accepted message belongs to an enrolled endpoint. -/
structure Ledger (db : Db) : Prop extends FoldOfLog db where
  enrolled : ∀ o ∈ db.observations, ∃ e ∈ db.endpoints, e.endpointId = o.endpointId

theorem Ledger.empty : Ledger {} where
  messageIds := by simp
  sequences := by simp [acceptedSequences]
  floors := by simp [acceptedSequences]
  lastReceipt := by simp
  lastHeartbeat := by simp
  window := by simp
  enrolled := by simp

/-- A floor that was stored is the last accepted sequence. -/
theorem FoldOfLog.lastSequence_eq {db : Db} (h : FoldOfLog db) (i b : Uuid) :
    db.lastSequence i b = (acceptedSequences db.observations i b).getLast? := by
  cases hr : db.messageSequences.find? fun r => r.identityId == i && r.bootId == b with
  | some r =>
    have hmem := List.mem_of_find?_eq_some hr
    have hkey := List.find?_some hr
    simp only [Bool.and_eq_true, beq_iff_eq] at hkey
    obtain ⟨rfl, rfl⟩ := hkey
    rw [(h.floors _ _ _).mp hmem, Db.lastSequence, hr]
    rfl
  | none =>
    rw [Db.lastSequence, hr]
    cases hl : (acceptedSequences db.observations i b).getLast? with
    | none => rfl
    | some n =>
      have := List.find?_eq_none.mp hr _ ((h.floors i b n).mpr hl)
      simp at this

section Steps

variable {db db' : Db}

/-- Changes that leave the log, the floors and the endpoints alone. -/
theorem Ledger.of_same (h : Ledger db) (ho : db'.observations = db.observations)
    (hs : db'.messageSequences = db.messageSequences) (he : db'.endpoints = db.endpoints) :
    Ledger db' where
  messageIds := ho ▸ h.messageIds
  sequences := ho ▸ h.sequences
  floors := by rw [ho, hs]; exact h.floors
  lastReceipt := by rw [ho, he]; exact h.lastReceipt
  lastHeartbeat := by rw [ho, he]; exact h.lastHeartbeat
  window := ho ▸ h.window
  enrolled := by rw [ho, he]; exact h.enrolled

/-- A new endpoint has no observations, and no receipt times. -/
theorem Ledger.enroll (h : Ledger db) {e : Endpoint} (ho : db'.observations = db.observations)
    (hs : db'.messageSequences = db.messageSequences) (he : db'.endpoints = db.endpoints ++ [e])
    (hfresh : ∀ x ∈ db.endpoints, x.endpointId ≠ e.endpointId)
    (hnone : e.lastReceiptAt = none ∧ e.lastHeartbeatAt = none) : Ledger db' := by
  have hno : ∀ o ∈ db.observations, o.endpointId ≠ e.endpointId := by
    intro o hmem heq
    obtain ⟨x, hx, hxo⟩ := h.enrolled o hmem
    exact hfresh x hx (hxo.trans heq)
  refine ⟨⟨ho ▸ h.messageIds, ho ▸ h.sequences, by rw [ho, hs]; exact h.floors, ?_, ?_, ho ▸ h.window⟩,
    ?_⟩
  · rw [ho, he]
    intro x hx
    rcases List.mem_append.mp hx with hx | hx
    · exact h.lastReceipt x hx
    · obtain rfl := List.mem_singleton.mp hx
      rw [hnone.1, receipts, List.filter_eq_nil_iff.mpr (by simpa using hno)]
      rfl
  · rw [ho, he]
    intro x hx
    rcases List.mem_append.mp hx with hx | hx
    · exact h.lastHeartbeat x hx
    · obtain rfl := List.mem_singleton.mp hx
      rw [hnone.2, heartbeatReceipts, List.filter_eq_nil_iff.mpr (by simpa using fun o ho he => absurd he (hno o ho))]
      rfl
  · rw [ho, he]
    intro o hmem
    obtain ⟨x, hx, hxo⟩ := h.enrolled o hmem
    exact ⟨x, List.mem_append_left _ hx, hxo⟩

variable {a : IngestArgs} {i : IdentityRow} {e : Endpoint}

/-- An accepted sequence is above everything accepted before it in its boot. -/
theorem Ledger.sequence_gt (h : Ledger db) (hacc : Accepted a i e db db') {n : Nat}
    (hn : n ∈ acceptedSequences db.observations a.authenticatedIdentityId a.envelope.bootId) :
    n < a.envelope.sequence := by
  cases hl : (acceptedSequences db.observations a.authenticatedIdentityId a.envelope.bootId).getLast? with
  | none => simp [List.getLast?_eq_none_iff.mp hl] at hn
  | some last =>
    have hlast : last < a.envelope.sequence := hacc.sequenceOk last (by rw [h.lastSequence_eq, hl])
    have hsorted := h.sequences a.authenticatedIdentityId a.envelope.bootId
    obtain ⟨front, hfront⟩ := List.getLast?_eq_some_iff.mp hl
    rw [hfront] at hn hsorted
    rcases List.mem_append.mp hn with hn | hn
    · exact Nat.lt_trans ((List.pairwise_append.mp hsorted).2.2 n hn last (by simp)) hlast
    · exact List.mem_singleton.mp hn ▸ hlast

/-- An accepted message was made at most five minutes ahead of its receipt, and less than
five minutes before it when its lifetime is bounded in UTC. -/
theorem Accepted.window (hacc : Accepted a i e db db')
    (httl : a.envelope.expiresAt.instant - a.envelope.createdAt.instant ≤ maxMessageTtl) :
    a.receivedAt - minutes 5 < a.envelope.createdAt.instant ∧
      a.envelope.createdAt.instant ≤ a.receivedAt + minutes 5 := by
  obtain ⟨hskew, hlive, -⟩ := IngestArgs.messageChecks_none.mp hacc.messageOk
  simp only [maxMessageTtl, maxClockSkew] at httl hskew
  refine ⟨?_, hskew⟩
  grind

theorem Ledger.floors_accept (h : Ledger db) (hacc : Accepted a i e db db') (i' b : Uuid) (n : Nat) :
    ⟨i', b, n⟩ ∈ db'.messageSequences ↔
      (acceptedSequences db'.observations i' b).getLast? = some n := by
  obtain ⟨rows, events, hrows, rfl⟩ := hacc.after
  rw [hrows]
  by_cases hk : a.authenticatedIdentityId = i' ∧ a.envelope.bootId = b
  · obtain ⟨rfl, rfl⟩ := hk
    have happ := acceptedSequences_append_same db.observations (a.observation i)
    rw [show (a.observation i).identityId = a.authenticatedIdentityId from rfl,
      show (a.observation i).bootId = a.envelope.bootId from rfl] at happ
    rw [happ, List.getLast?_concat]
    simp [IngestArgs.observation, eq_comm]
  · rw [acceptedSequences_append_other hk, ← h.floors]
    constructor
    · rintro (heq | ⟨hmem, -⟩)
      · cases heq
        exact absurd ⟨rfl, rfl⟩ hk
      · exact hmem
    · exact fun hmem => .inr ⟨hmem, fun hk' => hk ⟨hk'.1.symm, hk'.2.symm⟩⟩

/-- The freshness columns of a touched endpoint follow the log. -/
theorem touched_fold {log : List ObservationRow} {x : Endpoint} {o : ObservationRow}
    (hr : x.lastReceiptAt = (receipts log x.endpointId).max?)
    (hh : x.lastHeartbeatAt = (heartbeatReceipts log x.endpointId).max?)
    (ho : o.endpointId = x.endpointId) :
    let y := Db.touched o.observationType o.receivedAt x
    y.lastReceiptAt = (receipts (log ++ [o]) y.endpointId).max? ∧
      y.lastHeartbeatAt = (heartbeatReceipts (log ++ [o]) y.endpointId).max? := by
  simp only [Db.touched]
  rw [← ho] at hr hh ⊢
  refine ⟨by rw [hr, latest_max?, receipts_append_same], ?_⟩
  cases hk : o.observationType with
  | heartbeat => rw [heartbeatReceipts_append_same hk, ← latest_max?, ← hh]
  | inventory => rw [heartbeatReceipts_append_other (by simp [hk]), ← hh]

theorem Ledger.fresh_accept (h : Ledger db) (hacc : Accepted a i e db db') {y : Endpoint}
    (hy : y ∈ db'.endpoints) :
    y.lastReceiptAt = (receipts db'.observations y.endpointId).max? ∧
      y.lastHeartbeatAt = (heartbeatReceipts db'.observations y.endpointId).max? := by
  obtain ⟨rows, events, -, rfl⟩ := hacc.after
  simp only [Db.touchEndpoint, List.mem_map] at hy
  obtain ⟨x, hx, rfl⟩ := hy
  split
  · rename_i hid
    exact touched_fold (o := a.observation i) (h.lastReceipt x hx) (h.lastHeartbeat x hx) hid.symm
  · rename_i hid
    have hne : (a.observation i).endpointId ≠ x.endpointId := fun heq => hid heq.symm
    rw [receipts_append_other hne, heartbeatReceipts_append_other fun hk => hne hk.1]
    exact ⟨h.lastReceipt x hx, h.lastHeartbeat x hx⟩

theorem Ledger.accept (h : Ledger db) (hacc : Accepted a i e db db')
    (httl : a.envelope.expiresAt.instant - a.envelope.createdAt.instant ≤ maxMessageTtl) :
    Ledger db' := by
  have hfloors := h.floors_accept hacc
  have hfresh := fun y hy => h.fresh_accept hacc (y := y) hy
  have hgt := fun n hn => h.sequence_gt hacc (n := n) hn
  obtain ⟨-, hjoin⟩ := Db.identityJoin_some.mp hacc.joined
  obtain ⟨rows, events, -, rfl⟩ := hacc.after
  refine ⟨⟨?_, ?_, hfloors, fun y hy => (hfresh y hy).1, fun y hy => (hfresh y hy).2, ?_⟩, ?_⟩
  · rw [List.map_append, List.nodup_append]
    refine ⟨h.messageIds, by simp, ?_⟩
    simp only [List.mem_map, List.map_cons, List.map_nil, List.mem_singleton, forall_eq]
    rintro _ ⟨x, hx, rfl⟩
    exact (hacc.unseen x hx).2.1
  · intro i' b
    by_cases hk : a.authenticatedIdentityId = i' ∧ a.envelope.bootId = b
    · obtain ⟨rfl, rfl⟩ := hk
      have happ := acceptedSequences_append_same db.observations (a.observation i)
      refine happ ▸ List.pairwise_append.mpr ⟨h.sequences _ _, by simp, fun n hn m hm => ?_⟩
      exact List.mem_singleton.mp hm ▸ hgt n hn
    · rw [acceptedSequences_append_other hk]
      exact h.sequences i' b
  · intro o ho
    rcases List.mem_append.mp ho with ho | ho
    · exact h.window o ho
    · exact List.mem_singleton.mp ho ▸ hacc.window httl
  · have hkeep : ∀ x ∈ db.endpoints, ∃ y ∈ (db.touchEndpoint i.endpointId a.observationType
        a.receivedAt).endpoints, y.endpointId = x.endpointId := by
      intro x hx
      refine ⟨_, List.mem_map_of_mem hx, ?_⟩
      split <;> rfl
    intro o ho
    rcases List.mem_append.mp ho with ho | ho
    · obtain ⟨x, hx, hxo⟩ := h.enrolled o ho
      obtain ⟨y, hy, hyx⟩ := hkeep x hx
      exact ⟨y, hy, hyx.trans hxo⟩
    · obtain ⟨hmem, hid⟩ := Db.endpointById_some hjoin
      obtain ⟨y, hy, hyx⟩ := hkeep e hmem
      obtain rfl := List.mem_singleton.mp ho
      exact ⟨y, hy, hyx.trans hid⟩

end Steps

/-- The lifetime of a message, as time that passes and not as Python subtracts it, is at
most five minutes. -/
def IngestArgs.LifetimeInUtc (a : IngestArgs) : Prop :=
  a.envelope.expiresAt.instant - a.envelope.createdAt.instant ≤ maxMessageTtl

instance (a : IngestArgs) : Decidable a.LifetimeInUtc := inferInstanceAs (Decidable (_ ≤ _))

theorem Ledger.step {msg : Option IngestArgs} {db db' : Db} (hm : ∀ a, msg = some a → a.LifetimeInUtc)
    (h : Ledger db) (heff : Effect msg db db') : Ledger db' := by
  cases heff with
  | audit ha =>
    obtain ⟨events, rfl⟩ := ha
    exact h.of_same rfl rfl rfl
  | createGrant hg =>
    obtain ⟨events, rfl⟩ := hg.after
    exact h.of_same rfl rfl rfl
  | enroll he =>
    obtain ⟨events, rfl⟩ := he.after
    exact h.enroll rfl rfl rfl (fun x hx => (he.enrollable.endpoint x hx).1) ⟨rfl, rfl⟩
  | exchange _ he =>
    obtain ⟨events, rfl⟩ := he.after
    exact h.enroll rfl rfl rfl (fun x hx => (he.enrollable.endpoint x hx).1) ⟨rfl, rfl⟩
  | issue hi =>
    obtain ⟨events, rfl⟩ := hi.after
    exact h.of_same rfl rfl rfl
  | revoke hr =>
    obtain ⟨events, rfl⟩ := hr.after
    exact h.of_same rfl rfl rfl
  | accept ha hacc => exact h.accept hacc (hm _ ha)

/-- **Ingestion state is the fold of the accepted log** after every sequence of calls
whose messages live at most five minutes in UTC. -/
theorem Call.run_foldOfLog (calls : List Call)
    (hlife : ∀ call ∈ calls, ∀ a, call.message = some a → a.LifetimeInUtc) :
    FoldOfLog (Call.run calls {}) :=
  (Call.run_induction (P := Ledger) Ledger.step hlife .empty).toFoldOfLog

/-! ## A lifetime across the end of daylight saving time -/

/-- Microseconds of a time of day on 2026-11-01 in UTC. -/
def Sample.clock (hour minute : Int) : Instant := (1793491200 + hour * 3600 + minute * 60) * 1000000

def Sample.uuid (n : Nat) : Uuid := ⟨BitVec.ofNat 128 n⟩

def Sample.enroll : EnrollArgs :=
  { displayName := "host"
    platform := .linux
    architecture := "amd64"
    publicKeyFingerprint := "sha256:" ++ String.ofList (List.replicate 64 'a')
    now := Sample.clock 5 0
    endpointId := Sample.uuid 1
    identityId := Sample.uuid 2
    correlationId := Sample.uuid 3 }

def Sample.heartbeat (createdAt expiresAt : Datetime)
    (h : 0 < expiresAt.sub createdAt ∧ expiresAt.sub createdAt ≤ maxMessageTtl) : MessageArgs :=
  { authenticatedIdentityId := Sample.uuid 2
    envelope :=
      { messageId := Sample.uuid 4
        endpointId := Sample.uuid 1
        bootId := Sample.uuid 5
        sequence := 1
        createdAt := createdAt
        expiresAt := expiresAt
        correlationId := Sample.uuid 6
        sequence_range := by decide
        lifetime_range := h }
    payloadDigest := String.ofList (List.replicate 64 'b')
    receivedAt := Sample.clock 6 30
    observationId := Sample.uuid 7 }

def Sample.utcRun : List Call :=
  [.enrollSyntheticEndpoint Sample.enroll,
   .ingestHeartbeat (Sample.heartbeat (.utc (Sample.clock 6 29)) (.utc (Sample.clock 6 34)) (by decide))]

/-- New York, 01:58 before the clocks go back (UTC-4) to 01:59 after (UTC-5): a minute
apart on the wall, 61 minutes apart in time. -/
def Sample.foldRun : List Call :=
  [.enrollSyntheticEndpoint Sample.enroll,
   .ingestHeartbeat (Sample.heartbeat ⟨Sample.clock 1 58, 1, -minutes 240⟩
     ⟨Sample.clock 1 59, 1, -minutes 300⟩ (by decide))]

theorem Call.run_foldOfLog_utcRun :
    (Call.run Sample.utcRun {}).observations.length = 1 ∧ FoldOfLog (Call.run Sample.utcRun {}) :=
  ⟨by decide +kernel, Call.run_foldOfLog Sample.utcRun (by decide +kernel)⟩

/-- The message made at 05:58 UTC is accepted at 06:30 UTC. -/
theorem Call.run_foldRun_not_foldOfLog : ¬ FoldOfLog (Call.run Sample.foldRun {}) := by
  intro h
  have hstale : ∃ o ∈ (Call.run Sample.foldRun {}).observations,
      ¬ o.receivedAt - minutes 5 < o.sourceTime := by
    decide +kernel
  obtain ⟨o, ho, hlate⟩ := hstale
  exact hlate (h.window o ho).1

end NorthgateRmm.Server
