import NorthgateRmm.Agent.Snapshot
import NorthgateRmm.Lib.History

/-!
# The agent over its spool

`Run` with the real queue and the real snapshotter, session after session: every call of the
queue is the program of the spool, any step of which may fail, and the process may be killed
inside any call and started again. The rest of the world is open: what the sender, the
logger, the clock and the context answer, and what happens elsewhere meanwhile.

Every call is recorded. `due` says what has to have happened before a record is sent,
acknowledged, quarantined or dropped after its roll-over.
-/

namespace NorthgateRmm.Agent.Runtime

open Spool (ContextError Queue Held Keeps Lists Before)
open Eventlog
open CrashFs

variable {ν : Type}

/-! ## The environment -/

structure World (ν : Type) where
  disk : Disk
  /-- the clock when the last call took effect -/
  time : Int
  outside : ν

/-- The answer to `Quarantine`: without a result there are no evicted IDs. -/
def quarantineAnswer : Except Spool.Error Queue.QuarantineResult → List Uuid × Except Error Unit
  | .ok result => (result.evictedIds, result.outcome.mapError .spool)
  | .error e => ([], .error (.spool e))

def snapshotAnswer : Except (SnapshotResult × Error) SnapshotResult → SnapshotResult × Except Error Unit
  | .ok result => (result, .ok ())
  | .error (result, e) => (result, .error e)

/-- What a call does to the disk, and what it answers, while the clock shows `time`. -/
def Call.Effect (q : Queue) (time : Int) (s s' : Disk) : {β : Type} → Call β → Option β → Prop
  | _, .listIds, a => ∃ ctx, Agent.Answers (q.listIds ctx) s a s'
  | _, .listRolloverIds, a => ∃ ctx, Agent.Answers (q.listRolloverIds ctx) s a s'
  | _, .read id, a => ∃ ctx, Agent.Answers (q.readPayload ctx id) s a s'
  | _, .acknowledge id, a => ∃ ctx, Agent.Answers (q.acknowledge ctx id) s a s'
  | _, .acknowledgeRollover id, a => ∃ ctx, Agent.Answers (q.acknowledgeRollover ctx id) s a s'
  | _, .quarantine id, a => ∃ ctx r, Performs (q.quarantine ctx id) s r s' ∧ a = r.map quarantineAnswer
  | _, .snapshot endpointId, a => ∃ r, (Snapshotter.snapshot endpointId).Runs (Snapshotter.overSpool q time) s r s' ∧
      a = r.map snapshotAnswer
  | _, .now, a => s' = s ∧ ∀ t, a = some t → t.ns = time
  | _, _, _ => s' = s

/-- What is known of the rest of the world. -/
structure Around (ν : Type) where
  initial : ν → Prop
  /-- while the agent is not running -/
  idle : World ν → World ν → Prop
  step : {β : Type} → World ν → Call β → Option β → World ν → Prop

structure Takes {β : Type} (q : Queue) (around : Around ν) (w : World ν) (o : Call β) (a : Option β) (w' : World ν) : Prop where
  effect : o.Effect q w'.time w.disk w'.disk a
  around : around.step w o a w'

def agent (q : Queue) (around : Around ν) : Env Call (World ν) :=
  ⟨fun w o b w' => Takes q around w o (some b) w', fun w o w' => Takes q around w o none w'⟩

/-- A session: its queue, the world around it, and its options. -/
structure Session (ν : Type) where
  queue : Queue
  around : Around ν
  options : Options

abbrev Session.agent (e : Session ν) : Env Call (World ν) := Runtime.agent e.queue e.around

abbrev Past (ν : Type) := Recorded Call (World ν)

/-! ## What is due -/

/-- The active record of an ID has this payload. -/
def Stored (s : Disk) (id : Uuid) (payload : List UInt8) : Prop :=
  ∃ item, Queue.readItem .root id s = .ok item ∧ item.payload = payload

/-- The calls of `Retry`. -/
def Call.ofRetry : {β : Type} → Call β → Bool
  | _, .deliveryErr => true
  | _, .send _ _ => true
  | _, .random => true
  | _, .sleep _ => true
  | _, _ => false

/-- The last look at the clock, before this delivery, was earlier than `expiry`. -/
def Unexpired (past : List (Moment Call (World ν))) (expiry : Int) : Prop :=
  ∃ near rest t w w', past = near ++ ⟨.now, some t, w, w'⟩ :: rest ∧
    t.ns < expiry ∧ ∀ m ∈ near, m.call.ofRetry = true

/-- The oldest active record, with its stored bytes, for this endpoint and not expired. -/
structure Sendable (options : Options) (w : Past ν) (id : Uuid) (payload : List UInt8) : Prop where
  stored : Stored w.now.disk id payload
  first : ∀ x, w.now.disk.image .root (.record x) ≠ none → x = id ∨ Before w.now.disk id x
  message : ∃ m, Protocol.decodeInventory payload = .ok m ∧ m.envelope.messageID = id.toText ∧
    m.envelope.endpointID = options.endpointId ∧ Unexpired w.past m.envelope.expiresAt.ns

/-- The last call sent this payload, and the sender returned nil. -/
def JustSent (w : Past ν) (id : Uuid) (payload : List UInt8) : Prop :=
  ∃ v v', w.past.head? = some ⟨.send id payload, some (.ok ()), v, v'⟩

/-- The last call logged an event that names the record. -/
def JustLogged (w : Past ν) (id : Uuid) : Prop :=
  ∃ event v v', w.past.head? = some ⟨.emit event, some true, v, v'⟩ ∧ event.messageId = some id

def due (options : Options) : Rule Call (World ν)
  | w, _, .send id payload => Sendable options w id payload
  | w, _, .acknowledge id => ∃ payload, JustSent w id payload ∧ Stored w.now.disk id payload
  | w, _, .acknowledgeRollover id => JustLogged w id
  | w, _, .quarantine _ => ∀ x, w.now.disk.image .rollover (.record x) = none
  | _, _, _ => True

/-- The call lets go of a record. -/
def Call.releases : {β : Type} → Call β → Uuid → Prop
  | _, .acknowledge id, x => x = id
  | _, .acknowledgeRollover id, x => x = id
  | _, _, _ => False

/-- Every call was due, and a record that was held is held still unless a later call let go
of it. -/
structure Sound (options : Options) (w : Past ν) : Prop where
  housed : Queue.Housed w.now.disk
  obeys : Obeys (due options) w.past
  kept : ∀ later m earlier, w.past = later ++ m :: earlier → ∀ x, Held m.after.disk x →
    Held w.now.disk x ∨ ∃ n ∈ later, n.call.releases x

abbrev Session.Sound (e : Session ν) (w : Past ν) : Prop := Runtime.Sound e.options w

/-! ## What a call does -/

section Effect

variable {β : Type} {q : Queue} {time : Int} {s s' : Disk} {o : Call β} {a : Option β} {id x : Uuid}

theorem effect_listIds {a} (h : Call.listIds.Effect q time s s' a) : s' = s ∧ ∀ ids, a = some (.ok ids) → Lists s ids := by
  obtain ⟨ctx, h⟩ := h
  obtain ⟨hsame, hok⟩ := h.of_faulty Queue.listIds_faulty (fun _ h => h) fun _ _ => And.left
  refine ⟨hsame, fun ids ha => ?_⟩
  obtain ⟨inv, hinv, rfl⟩ := (hok ids ha).2 ids rfl
  have hscan := Spool.scannable_of_inventory hinv
  rw [Spool.inventory_of_scannable hscan] at hinv
  cases hinv
  exact Spool.lists_of_scannable hscan

theorem effect_listRolloverIds {a} (h : Call.listRolloverIds.Effect q time s s' a) :
    s' = s ∧ ∀ ids, a = some (.ok ids) → ∀ x, s.image .rollover (.record x) ≠ none → x ∈ ids := by
  obtain ⟨ctx, h⟩ := h
  obtain ⟨hsame, hok⟩ := h.of_faulty Queue.listRolloverIds_faulty (fun _ h => h) fun _ _ => And.left
  refine ⟨hsame, fun ids ha x hx => ?_⟩
  obtain ⟨records, husage, rfl⟩ := (hok ids ha).2 ids rfl
  obtain ⟨-, hread, -, rfl⟩ := Spool.rolloverUsage_ok_iff.mp husage
  obtain ⟨m, hm, rfl⟩ := Spool.mem_ids_metas hread hx
  exact List.mem_map_of_mem ((Spool.perm_sortByOrder _).mem_iff.mpr hm)

theorem effect_read {a} (h : (Call.read id).Effect q time s s' a) :
    s' = s ∧ ∀ payload, a = some (.ok payload) → Stored s id payload := by
  obtain ⟨ctx, h⟩ := h
  obtain ⟨hsame, hok⟩ := h.of_faulty Queue.readPayload_faulty (fun _ h => h) fun _ _ => And.left
  refine ⟨hsame, fun payload ha => ?_⟩
  obtain ⟨item, hitem, rfl⟩ := (hok payload ha).2 payload rfl
  exact ⟨item, hitem, rfl⟩

theorem effect_acknowledge {a} (h : (Call.acknowledge id).Effect q time s s' a) :
    Frame false (Spool.recordIn .root id) Spool.nowhere s s' ∧ (a = some (.ok ()) → s'.image .root (.record id) = none) := by
  obtain ⟨ctx, h⟩ := h
  obtain ⟨hframe, hok⟩ := h.of_faulty Queue.acknowledge_faulty (fun _ => And.right) fun _ _ => And.right
  exact ⟨hframe, fun ha => (hok () ha).1 rfl⟩

theorem effect_acknowledgeRollover {a} (h : (Call.acknowledgeRollover id).Effect q time s s' a) :
    Frame false (Spool.recordIn .rollover id) Spool.nowhere s s' ∧
      (a = some (.ok ()) → s'.image .rollover (.record id) = none) := by
  obtain ⟨ctx, h⟩ := h
  obtain ⟨hframe, hok⟩ := h.of_faulty Queue.acknowledgeRollover_faulty (fun _ => And.right) fun _ _ => And.right
  exact ⟨hframe, fun ha => (hok () ha).1 rfl⟩

/-- A `Quarantine` that returned: it failed early, or what is new in the rollover directory
is among the evicted IDs, and the record has left if its move succeeded. -/
theorem effect_quarantine {a} (h : (Call.quarantine id).Effect q time s s' a) :
    Frame false (Queue.quarantineRemoves id) (Queue.quarantineAdds id fun _ => True) s s' ∧ Keeps s s' ∧
    ∀ evictedIds err, a = some (evictedIds, err) → (evictedIds = [] ∧ ∃ e, err = .error e) ∨
      (∀ x, s.image .rollover (.record x) = none → s'.image .rollover (.record x) ≠ none → x ∈ evictedIds) ∧
      (err = .ok () → s'.image .root (.record id) = none) := by
  obtain ⟨ctx, r, hr, rfl⟩ := h
  have hkeeps : Keeps s s' := hr.always Queue.quarantine_keeps
  cases r with
  | none => exact ⟨((hr.of_faulty Queue.quarantine_faulty).2 rfl).2, hkeeps, nofun⟩
  | some r =>
    obtain ⟨hq, hframe⟩ := (hr.of_faulty Queue.quarantine_faulty).1 r rfl
    refine ⟨hframe, hkeeps, fun evictedIds err ha => ?_⟩
    cases r with
    | error e =>
      cases ha
      exact .inl ⟨rfl, _, rfl⟩
    | ok result =>
      cases ha
      refine .inr ⟨fun x hx hx' => ?_, fun hok => ?_⟩
      · by_contra hmem
        exact hx' (hq.rollover result rfl x hx hmem)
      · refine hq.moved result rfl ?_
        cases ho : result.outcome with
        | ok _ => rfl
        | error e => rw [ho] at hok; exact nomatch hok

theorem effect_snapshot {endpointId : String} {a} (h : (Call.snapshot endpointId).Effect q time s s' a) :
    Snapshotter.Adds endpointId time s s' := by
  obtain ⟨r, hr, -⟩ := h
  have := hr.of_holds Snapshotter.snapshot_adds
  cases r with
  | none => exact this.2 rfl
  | some x => exact this.1 x rfl

/-- The calls that leave the disk alone. -/
def Call.quiet : {β : Type} → Call β → Bool
  | _, .acknowledge _ => false
  | _, .acknowledgeRollover _ => false
  | _, .quarantine _ => false
  | _, .snapshot _ => false
  | _, _ => true

theorem effect_quiet (h : o.Effect q time s s' a) (ho : o.quiet = true) : s' = s := by
  cases o with
  | listIds => exact (effect_listIds h).1
  | listRolloverIds => exact (effect_listRolloverIds h).1
  | read id => exact (effect_read h).1
  | now => exact h.1
  | emit _ | err | send _ _ | deliveryErr | random | sleep _ | wait _ => exact h
  | acknowledge _ | acknowledgeRollover _ | quarantine _ | snapshot _ => exact nomatch ho

/-- Only entries of records can go. -/
theorem Housed.frame {w rem add} (h : Queue.Housed s) (hf : Frame w rem add s s')
    (hrem : ∀ d n, rem d n → ∃ x, n = .record x) : Queue.Housed s' := by
  have hstays : ∀ {d n}, s.Durable d n → (∀ x, n ≠ .record x) → s'.Durable d n := fun hd hn =>
    hf.durable _ _ hd fun hr => (hrem _ _ hr).elim hn
  exact ⟨hstays h.spool nofun, hstays h.rejected nofun, hstays h.rollover nofun⟩

/-- No call lets go of a record but the acknowledgements of theirs, and none touches the
directories themselves. -/
theorem effect_keeps (h : o.Effect q time s s' a) (hs : Queue.Housed s) :
    Queue.Housed s' ∧ ∀ x, Held s x → Held s' x ∨ o.releases x := by
  have hone : ∀ {d id}, Frame false (Spool.recordIn d id) Spool.nowhere s s' →
      Queue.Housed s' ∧ ∀ x, Held s x → Held s' x ∨ x = id := by
    intro d id hframe
    refine ⟨Housed.frame hs hframe fun d n hr => ⟨id, hr.2⟩, fun x hx => ?_⟩
    by_cases hne : x = id
    · exact .inr hne
    · exact .inl (hx.frame hframe fun d hr => hne (Spool.Name.record.inj hr.2))
  cases o with
  | acknowledge id => exact hone (effect_acknowledge h).1
  | acknowledgeRollover id => exact hone (effect_acknowledgeRollover h).1
  | quarantine id =>
    obtain ⟨hframe, hkeeps, -⟩ := effect_quarantine h
    refine ⟨Housed.frame hs hframe ?_, fun x hx => .inl (hkeeps x hx)⟩
    rintro d n (⟨-, rfl⟩ | ⟨-, x, rfl⟩)
    · exact ⟨id, rfl⟩
    · exact ⟨x, rfl⟩
  | snapshot endpointId =>
    obtain rfl | ⟨id, raw, -, hbegun⟩ := effect_snapshot h
    · exact ⟨hs, fun x => .inl⟩
    · exact ⟨hbegun.housed hs, fun x hx => .inl (hbegun.keeps x hx)⟩
  | listIds | listRolloverIds | read _ | now | emit _ | err | send _ _ | deliveryErr | random | sleep _ | wait _ =>
    obtain rfl := effect_quiet h rfl
    exact ⟨hs, fun x => .inl⟩

end Effect

/-! ## One call -/

section Calls

variable {α β : Type} {e : Session ν} {w w' : Past ν} {o : Call β} {a : Option β} {id : Uuid}

theorem takes_of {q : Queue} {around : Around ν} (h : (agent q around).Records w o a w') : Takes q around w.now o a w'.now := by
  have := h.step
  cases a <;> exact this

theorem effect_of (h : e.agent.Records w o a w') : o.Effect e.queue w'.now.time w.now.disk w'.now.disk a := (takes_of h).effect

theorem Sound.step (hw : e.Sound w) (h : e.agent.Records w o a w') (hdue : due e.options w β o) : e.Sound w' := by
  obtain ⟨hhoused, hkeeps⟩ := effect_keeps (effect_of h) hw.housed
  refine ⟨hhoused, ?_, fun later m earlier hm x hx => ?_⟩
  · rw [h.past]
    exact ⟨hdue, hw.obeys⟩
  rw [h.past] at hm
  cases later with
  | nil =>
    cases hm
    exact .inl hx
  | cons n later =>
    obtain ⟨rfl, htail⟩ := List.cons.inj hm
    rcases hw.kept later m earlier htail x hx with hheld | ⟨n, hn, hrel⟩
    · exact (hkeeps x hheld).imp_right fun hrel => ⟨_, List.mem_cons_self, hrel⟩
    · exact .inr ⟨n, List.mem_cons_of_mem _ hn, hrel⟩

/-- Every run of the part is accounted for, and ends with `Q` if it returns. -/
abbrev Part (e : Session ν) (p : Act α) (Q : α → Past ν → Prop) (w : Past ν) : Prop :=
  p.Holds e.agent.recorded (e.Sound) (fun r w' => e.Sound w' ∧ ∀ a, r = .ok a → Q a w') w

variable {Q : α → Past ν → Prop} {R : β → Past ν → Prop}

theorem part_pure {x : α} (hw : e.Sound w) (h : Q x w) : Part e (pure x) Q w :=
  ⟨hw, fun _ hx => Except.ok.inj hx ▸ h⟩

theorem part_fail {error : Error} (hw : e.Sound w) : Part e (.fail error : Act α) Q w := ⟨hw, nofun⟩

theorem part_bind {p : Act α} {f : α → Act β} (hp : Part e p Q w) (hf : ∀ x w', e.Sound w' → Q x w' → Part e (f x) R w') :
    Part e (p >>= f) R w := by
  refine .bind (hp.mono fun r w' hr => ?_)
  cases r with
  | ok x => exact hf x w' hr.1 (hr.2 x rfl)
  | error e => exact ⟨hr.1, nofun⟩

/-- A call that is due, and what is done with its answer. -/
theorem part_call {o : Call α} {f : α → Act β} (hw : e.Sound w) (hdue : due e.options w α o)
    (h : ∀ b w', e.Sound w' → e.agent.Records w o (some b) w' → Part e (f b) R w') : Part e (Prog.call o >>= f) R w :=
  .bind (.call (fun _ hs => hw.step hs hdue) fun b w' hs => h b w' (hw.step hs hdue) hs)

theorem part_quiet {o : Call α} {f : α → Act β} (hw : e.Sound w) (hdue : due e.options w α o) (hquiet : o.quiet = true)
    (h : ∀ b w', e.Sound w' → w'.now.disk = w.now.disk → Part e (f b) R w') : Part e (Prog.call o >>= f) R w :=
  part_call hw hdue fun b w' hw' hs => h b w' hw' (effect_quiet (effect_of hs) hquiet)

theorem part_orFail {r : Except Error α} {f : α → Act β} (hw : e.Sound w) (h : ∀ x, r = .ok x → Part e (f x) R w) :
    Part e (Prog.orFail r (fun e => e) >>= f) R w := by
  cases r with
  | ok x => exact h x rfl
  | error e => exact part_fail hw

/-- An event that is logged changes nothing but the record of the calls. -/
theorem part_emit {event : Event} {f : Unit → Act β} (hw : e.Sound w)
    (h : ∀ w', e.Sound w' → e.agent.Records w (.emit event) (some true) w' → w'.now.disk = w.now.disk → Part e (f ()) R w') :
    Part e (emit event >>= f) R w := by
  refine part_call hw trivial fun b w₁ h₁ hs => ?_
  cases b with
  | true => exact h w₁ h₁ hs (effect_of hs)
  | false => exact part_fail h₁

/-! ## Rollover records -/

/-- The rollover directory has no records but these. -/
def RolledOver (ids : List Uuid) (s : Disk) : Prop := ∀ x, s.image .rollover (.record x) ≠ none → x ∈ ids

/-- The audit of one record removes it, and leaves the active records alone. -/
theorem auditRollover_part {ids : List Uuid} (hw : e.Sound w) (hids : RolledOver (id :: ids) w.now.disk) :
    Part e (auditRollover id) (fun _ w' => RolledOver ids w'.now.disk ∧ ∀ l, Lists w.now.disk l → Lists w'.now.disk l) w := by
  refine part_emit hw fun w₁ h₁ hs hdisk => ?_
  have hlogged : JustLogged w₁ id := ⟨_, _, _, congrArg List.head? hs.past, rfl⟩
  refine part_call h₁ hlogged fun r w₂ h₂ hs => ?_
  obtain ⟨hframe, hgone⟩ := effect_acknowledgeRollover (effect_of hs)
  rw [hdisk] at hframe
  cases r with
  | error e => exact part_fail h₂
  | ok _ =>
    refine part_pure h₂ ⟨fun x hx => ?_, fun l hl => hl.same ?_⟩
    · refine (List.mem_cons.mp (hids x fun hnone => hx ?_)).resolve_left ?_
      · exact hframe.unadded _ _ hnone fun h => h
      · rintro rfl
        exact hx (hgone rfl)
    · exact Spool.leaves_of_frame hframe (fun x _ hrem => nomatch hrem.1) (fun _ hadd => hadd) fun _ h => h.elim

/-- There are no rollover records. -/
def Clear (w : Past ν) : Prop := RolledOver [] w.now.disk

theorem Clear.congr (h : Clear w) (hdisk : w'.now.disk = w.now.disk) : Clear w' := by
  rwa [Clear, hdisk]

theorem audits_part {ids : List Uuid} (hw : e.Sound w) (hids : RolledOver ids w.now.disk) :
    Part e (Prog.forEach auditRollover ids) (fun _ w' => Clear w' ∧ ∀ l, Lists w.now.disk l → Lists w'.now.disk l) w := by
  induction ids generalizing w with
  | nil => exact part_pure hw ⟨hids, fun _ => id⟩
  | cons id ids ih =>
    refine part_bind (auditRollover_part hw hids) fun _ w₁ h₁ h => (ih h₁ h.1).mono fun r w₂ h₂ => ⟨h₂.1, fun x hx => ?_⟩
    exact ⟨(h₂.2 x hx).1, fun l hl => (h₂.2 x hx).2 l (h.2 l hl)⟩

theorem auditPendingRollovers_part (hw : e.Sound w) : Part e auditPendingRollovers (fun _ => Clear) w := by
  refine part_call hw trivial fun r w₁ h₁ hs => part_orFail h₁ fun ids hr => ?_
  obtain ⟨hdisk, hids⟩ := effect_listRolloverIds (effect_of hs)
  exact (audits_part h₁ (hdisk ▸ hids ids (congrArg some hr))).mono fun r w₂ h => ⟨h.1, fun x hx => (h.2 x hx).1⟩

/-! ## Deliveries -/

/-- Before the record at the head of the list: these are the active records, and there are
no rollover records. -/
structure Ready (w : Past ν) (l : List Uuid) : Prop where
  lists : Lists w.now.disk l
  clear : Clear w

theorem Ready.congr {l : List Uuid} (h : Ready w l) (hdisk : w'.now.disk = w.now.disk) : Ready w' l :=
  ⟨hdisk ▸ h.lists, h.clear.congr hdisk⟩

theorem Clear.none (h : Clear w) (x : Uuid) : w.now.disk.image .rollover (.record x) = none := by
  by_contra hx
  exact nomatch h x hx

/-- The head of a list of active records has left. -/
theorem lists_tail {s s' : Disk} {l rem add} (h : Lists s (id :: l))
    (hframe : Frame false rem add s s') (hrem : ∀ x, rem .root (.record x) → x = id) (hadd : ∀ x, ¬ add .root (.record x))
    (hgone : s'.image .root (.record id) = none) : Lists s' l := by
  have hleaves : Spool.Leaves (· = id) s s' :=
    Spool.leaves_of_frame hframe (fun x hx hr => hx (hrem x hr)) hadd (by rintro x rfl; exact hgone)
  have hne := List.nodup_cons.mp h.nodup
  have := h.leaves hleaves
  rwa [List.filter_cons_of_neg (by simp), List.filter_eq_self.mpr] at this
  intro x hx
  exact decide_eq_true fun hxid => hne.1 (hxid ▸ hx)

theorem quarantine_part {l : List Uuid} (hw : e.Sound w) (h : Ready w (id :: l)) :
    Part e (quarantine id) (fun _ w' => Ready w' l) w := by
  refine part_call hw h.clear.none fun r w₁ h₁ hs => ?_
  obtain ⟨hframe, -, hq⟩ := effect_quarantine (effect_of hs)
  obtain ⟨evictedIds, err⟩ := r
  rcases hq evictedIds err rfl with ⟨rfl, e, rfl⟩ | ⟨hrolled, hmoved⟩
  · exact part_fail h₁
  have hlists : err = .ok () → Lists w₁.now.disk l := by
    refine fun hok => lists_tail h.lists hframe (fun x hrem => ?_) (fun x hadd => ?_) (hmoved hok)
    · rcases hrem with ⟨-, hx⟩ | ⟨hd, -⟩
      · exact Spool.Name.record.inj hx
      · exact nomatch hd
    · rcases hadd with ⟨hd, -⟩ | ⟨hd, -⟩ <;> exact nomatch hd
  have hrolled : RolledOver evictedIds w₁.now.disk := fun x => hrolled x (h.clear.none x)
  refine part_bind (audits_part h₁ hrolled) fun _ w₂ h₂ h => ?_
  cases err with
  | error e => exact part_fail h₂
  | ok _ => exact part_pure h₂ ⟨h.2 l (hlists rfl), h.1⟩

/-- What is known after a record: on `next` it has left the list. -/
def Treated (l : List Uuid) (v : Verdict) (w : Past ν) : Prop :=
  Clear w ∧ (v = .next → Lists w.now.disk l)

theorem emit_treated {event : Event} {l : List Uuid} {v : Verdict} (hw : e.Sound w) (h : Treated l v w) :
    Part e (do emit event; pure v) (Treated l) w := by
  refine part_emit hw fun w₁ h₁ _ hdisk => part_pure h₁ ?_
  rw [Treated, Clear, hdisk]
  exact h

section Retry

variable {payload : List UInt8} {l : List Uuid}

/-- While a record is being delivered. -/
structure Sending (options : Options) (id : Uuid) (payload : List UInt8) (l : List Uuid) (w : Past ν) : Prop where
  sound : Sound options w
  ready : Ready w (id :: l)
  sendable : Sendable options w id payload

theorem Sending.call {o : Call α} (h : Sending e.options id payload l w) (ho : o.ofRetry = true) (hquiet : o.quiet = true)
    (hdue : due e.options w α o) : (Prog.call o : Act α).Holds e.agent.recorded (e.Sound)
      (fun r w' => ∃ x, r = .ok x ∧ Sending e.options id payload l w' ∧ e.agent.Records w o (some x) w') w := by
  refine .call (fun _ hs => h.sound.step hs hdue) fun b w' hs => ⟨b, rfl, ?_, hs⟩
  have hdisk : w'.now.disk = w.now.disk := effect_quiet (effect_of hs) hquiet
  obtain ⟨m, hm, hid, hendpoint, near, rest, t, v, v', hpast, ht, hnear⟩ := h.sendable.message
  refine ⟨h.sound.step hs hdue, h.ready.congr hdisk, hdisk ▸ h.sendable.stored, hdisk ▸ h.sendable.first,
    m, hm, hid, hendpoint, ⟨o, some b, w.now, w'.now⟩ :: near, rest, t, v, v', ?_, ht, List.forall_mem_cons.mpr ⟨ho, hnear⟩⟩
  rw [hs.past, hpast]
  rfl

theorem retry_sends (h : Sending e.options id payload l w) : (retry e.options id payload).Holds e.agent.recorded (e.Sound)
      (fun r w' => ∃ x, r = .ok x ∧ Sending e.options id payload l w' ∧ (x = .ok () → JustSent w' id payload)) w := by
  have hkeeps : Transport.RetryCalls.Keeps (ε := Error) ⟨Prog.call .deliveryErr, Prog.call (.send id payload),
      Prog.call .random, fun delay => Prog.call (.sleep delay)⟩ e.agent.recorded (e.Sound)
      (Sending e.options id payload l) (fun x w => x = .ok () → JustSent w id payload) (fun _ => True) := {
    err := fun _ h => (h.call (o := .deliveryErr) rfl rfl trivial).mono fun _ _ ⟨x, hx, h', _⟩ => ⟨x, hx, h'⟩
    operation := fun _ h => (h.call (o := .send id payload) rfl rfl h.sendable).mono fun _ _ ⟨x, hx, h', hs⟩ => ⟨x, hx, h', by
      rintro rfl
      exact ⟨_, _, congrArg List.head? hs.past⟩⟩
    random := fun _ h => (h.call (o := .random) rfl rfl trivial).mono fun _ _ ⟨x, hx, h', _⟩ => ⟨x, hx, h'⟩
    wait := fun _ delay h => (h.call (o := .sleep delay) rfl rfl trivial).mono fun _ _ ⟨x, hx, h', _⟩ => ⟨x, hx, h', fun _ _ => trivial⟩
    context := fun _ => trivial
    entropy := fun _ => trivial }
  refine (Transport.retryWith_holds hkeeps e.options.retryPolicy (fun _ _ => trivial) h).mono ?_
  rintro r w' ⟨x, hx, h', hok, -⟩
  exact ⟨x, hx, h', fun hx => hok hx rfl⟩

theorem transmit_part (h : Sending e.options id payload l w) : Part e (transmit e.options id payload) (Treated l) w := by
  refine .bind ((retry_sends h).mono fun r w₁ hr => ?_)
  obtain ⟨x, rfl, h₁, hsent⟩ := hr
  cases x with
  | error e =>
    refine part_quiet h₁.sound trivial rfl fun done w₂ h₂ hdisk => ?_
    have hready := h₁.ready.congr hdisk
    cases done with
    | some c => exact part_fail h₂
    | none =>
      dsimp only
      split
      · exact part_bind (quarantine_part h₂ hready) fun _ w₃ h₃ hready => emit_treated h₃ ⟨hready.clear, fun _ => hready.lists⟩
      · exact emit_treated h₂ ⟨hready.clear, nofun⟩
  | ok _ =>
    refine part_call h₁.sound ⟨payload, hsent rfl, h₁.sendable.stored⟩ fun r w₂ h₂ hs => ?_
    obtain ⟨hframe, hgone⟩ := effect_acknowledge (effect_of hs)
    cases r with
    | error e => exact part_emit h₂ fun w₃ h₃ _ _ => part_fail h₃
    | ok _ =>
      refine emit_treated h₂ ⟨fun x hx => h₁.ready.clear x fun hnone => hx (hframe.unadded _ _ hnone fun hadd => hadd),
        fun _ => ?_⟩
      exact lists_tail h₁.ready.lists hframe (fun x hrem => Spool.Name.record.inj hrem.2) (fun _ hadd => hadd) (hgone rfl)

theorem reject_part {failure : FailureClass} (hw : e.Sound w) (h : Ready w (id :: l)) :
    Part e (reject id failure) (Treated l) w :=
  part_bind (quarantine_part hw h) fun _ _ h₁ hready => emit_treated h₁ ⟨hready.clear, fun _ => hready.lists⟩

theorem deliverOne_part (hw : e.Sound w) (h : Ready w (id :: l)) : Part e (deliverOne e.options id) (Treated l) w := by
  refine part_call hw trivial fun r w₁ h₁ hs => part_orFail h₁ fun payload hp => ?_
  obtain ⟨hdisk, hstored⟩ := effect_read (effect_of hs)
  have hready := h.congr hdisk
  cases hm : Protocol.decodeInventory payload with
  | error e => exact part_fail h₁
  | ok message =>
    dsimp only
    split
    · exact part_fail h₁
    rename_i hid
    split
    · exact reject_part h₁ hready
    rename_i hendpoint
    refine part_call h₁ trivial fun t w₂ h₂ hs₂ => ?_
    have hdisk₂ : w₂.now.disk = w₁.now.disk := effect_quiet (effect_of hs₂) rfl
    have hready := hready.congr hdisk₂
    split
    · exact reject_part h₂ hready
    rename_i hnow
    refine transmit_part ⟨h₂, hready, ?_, fun x hx => ?_, message, hm, not_not.mp hid, not_not.mp hendpoint, [], _, t, _, _,
      hs₂.past, Int.not_le.mp hnow, List.forall_mem_nil _⟩
    · rw [hdisk₂, hdisk]
      exact hstored payload (congrArg some hp)
    · exact (List.mem_cons.mp ((hready.lists.mem x).mpr hx)).imp_right fun hmem =>
        (List.pairwise_cons.mp hready.lists.sorted).1 x hmem

theorem deliverAll_part (hw : e.Sound w) (h : Ready w l) : Part e (deliverAll e.options l) (fun _ => Clear) w := by
  induction l generalizing w with
  | nil => exact part_pure hw h.clear
  | cons id l ih =>
    refine part_bind (deliverOne_part hw h) fun v w₁ h₁ htreated => ?_
    cases v with
    | blocked => exact part_pure h₁ htreated.1
    | next => exact ih h₁ ⟨htreated.2 rfl, htreated.1⟩

theorem deliver_part (hw : e.Sound w) (h : Clear w) : Part e (deliver e.options) (fun _ => Clear) w := by
  refine part_call hw trivial fun r w₁ h₁ hs => part_orFail h₁ fun ids hr => ?_
  obtain ⟨hdisk, hlists⟩ := effect_listIds (effect_of hs)
  exact deliverAll_part h₁ ⟨hdisk ▸ hlists ids (congrArg some hr), h.congr hdisk⟩

end Retry

/-! ## Whole runs -/

theorem cycle_part (hw : e.Sound w) (h : Clear w) : Part e (cycle e.options) (fun _ => Clear) w := by
  refine part_bind (deliver_part hw h) fun blocked w₁ h₁ hclear => ?_
  refine part_call h₁ trivial fun r w₂ h₂ hs => ?_
  have hclear : Clear w₂ := by
    obtain hsame | ⟨id, raw, -, hsame | ⟨-, haside⟩⟩ := effect_snapshot (effect_of hs)
    · exact hclear.congr hsame
    · exact hclear.congr hsame
    · exact fun x hx => hclear x (haside.image .rollover (.record x) (fun hn => nomatch hn.1) ▸ hx)
  obtain ⟨result, err⟩ := r
  cases err with
  | error e =>
    obtain ⟨⟨outcome, failure, fatal⟩, hclass⟩ : ∃ x, classifyLocalState e = x := ⟨_, rfl⟩
    dsimp only
    rw [hclass]
    refine part_emit h₂ fun w₃ h₃ _ hdisk => ?_
    cases fatal with
    | true => exact part_fail h₃
    | false => exact part_pure h₃ (hclear.congr hdisk)
  | ok _ =>
    refine part_emit h₂ fun w₃ h₃ _ hdisk => ?_
    have hclear := hclear.congr hdisk
    cases blocked with
    | true => exact part_pure h₃ hclear
    | false => exact part_bind (deliver_part h₃ hclear) fun _ _ h₄ hclear => part_pure h₄ hclear

theorem stop_part (hw : e.Sound w) : Part e (do stop; pure .stopped : Act Ending) (fun _ _ => True) w :=
  part_emit hw fun _ h₁ _ _ => part_pure h₁ trivial

theorem loop_part (cycles : Nat) (hw : e.Sound w) (h : Clear w) : Part e (loop e.options cycles) (fun _ _ => True) w := by
  induction cycles generalizing w with
  | zero =>
    refine part_quiet hw trivial rfl fun done w₁ h₁ _ => ?_
    cases done with
    | some c => exact stop_part h₁
    | none => exact part_pure h₁ trivial
  | succ cycles ih =>
    refine part_quiet hw trivial rfl fun done w₁ h₁ hdisk => ?_
    cases done with
    | some c => exact stop_part h₁
    | none =>
      refine .bind (.attempt ((cycle_part h₁ (h.congr hdisk)).mono fun r w₂ hr => ?_))
      cases r with
      | error error =>
        have hstop : Part e (isStop error) (fun _ _ => True) w₂ := by
          rw [isStop]
          split
          · exact part_pure hr.1 trivial
          · split
            · exact part_quiet hr.1 trivial rfl fun _ _ h₃ _ => part_pure h₃ trivial
            · exact part_pure hr.1 trivial
        refine part_bind hstop fun stops w₃ h₃ _ => ?_
        cases stops with
        | true => exact stop_part h₃
        | false => exact part_quiet h₃ trivial rfl fun _ _ h₄ _ => part_fail h₄
      | ok _ =>
        refine part_quiet hr.1 trivial rfl fun fired w₃ h₃ hdisk => ?_
        cases fired with
        | true => exact ih h₃ ((hr.2 () rfl).congr hdisk)
        | false => exact stop_part h₃

theorem run_part (cycles : Nat) (hw : e.Sound w) : Part e (run e.options cycles) (fun _ _ => True) w := by
  refine part_emit hw fun w₁ h₁ _ _ => ?_
  exact part_bind (auditPendingRollovers_part h₁) fun _ w₂ h₂ hclear => loop_part cycles h₂ hclear

end Calls

/-! ## Sessions -/

/-- The histories of an agent: it is started over the spool, runs until it returns or is
killed, and is started again. -/
inductive History (options : Options) (around : Around ν) : Past ν → Prop
  | first (w : World ν) (housed : Queue.Housed w.disk) (initial : around.initial w.outside) : History options around ⟨w, []⟩
  | opened {w : Past ν} {maxBytes : Nat} {held : Bool} {r : Option (Except Spool.Error Queue)} {now : World ν}
      (h : History options around w) (hdisk : Performs (Queue.openQueue maxBytes held) w.now.disk r now.disk)
      (hidle : around.idle w.now now) : History options around ⟨now, w.past⟩
  | ran {w w' : Past ν} (q : Queue) (cycles : Nat) {r} (h : History options around w)
      (hrun : (run options cycles).Runs (agent q around).recorded w r w') : History options around w'

variable {options : Options} {around : Around ν} {w : Past ν}

theorem History.sound (h : History options around w) : Sound options w := by
  induction h with
  | first w housed => exact ⟨housed, trivial, fun later _ _ h => by simp at h⟩
  | opened h hdisk _ ih =>
    obtain ⟨hopening, hkeeps⟩ := hdisk.always (Queue.openQueue_keeps ih.housed)
    refine ⟨ih.housed.opening hopening, ih.obeys, fun later m earlier hm x hx => ?_⟩
    exact (ih.kept later m earlier hm x hx).imp_left (hkeeps x)
  | @ran _ _ q cycles r _ hrun ih =>
    obtain ⟨hdone, hcut⟩ := hrun.of_holds (run_part (e := ⟨q, around, options⟩) cycles ih)
    cases r with
    | none => exact hcut rfl
    | some x => exact (hdone x rfl).1

end NorthgateRmm.Agent.Runtime
