import NorthgateRmm.Agent.Spool.Recovery

/-!
# Processes that use the spool

A process opens the spool, makes calls, closes it, and can die at any step of a
call or between calls; what was not synced may then be lost. `accepted` is what
the callers know: the payloads whose `Enqueue` returned nil, until `Acknowledge`
or `AcknowledgeRollover` is called for their ID.
-/

namespace NorthgateRmm.Agent.Spool

open CrashFs

variable {P : Type} [Payload P]

/-! ## Calls -/

inductive Call (P : Type)
  | enqueue (ctx : Option ContextError) (id : Uuid) (payload : P) (now : UtcTime)
  | acknowledge (ctx : Option ContextError) (id : Uuid)
  | quarantine (ctx : Option ContextError) (id : Uuid)
  | acknowledgeRollover (ctx : Option ContextError) (id : Uuid)

def Call.prog (q : Queue) : Call P → Step P Unit
  | enqueue ctx id payload now => q.enqueue ctx id payload now
  | acknowledge ctx id => q.acknowledge ctx id
  | quarantine ctx id => do
    let result ← q.quarantine ctx id
    Prog.orFail result.outcome fun e => e
  | acknowledgeRollover ctx id => q.acknowledgeRollover ctx id

/-- An accepted payload, and its record file as it was when `Enqueue` returned. -/
structure Accepted (P : Type) [Payload P] where
  id : Uuid
  payload : P
  file : Content P

/-- What is still expected of the spool once a call was made. -/
def Call.expected : Call P → List (Accepted P) → List (Accepted P)
  | acknowledge _ id, accepted | acknowledgeRollover _ id, accepted => accepted.filter fun a => a.id ≠ id
  | _, accepted => accepted

/-- What is expected once it returned. -/
def Call.returned (accepted : List (Accepted P)) : Call P → Except Error Unit → Disk P → List (Accepted P)
  | enqueue _ id payload _, .ok (), s => ⟨id, payload, activeContent id s⟩ :: accepted
  | c, _, _ => c.expected accepted

/-- The staging file of the call may be found. -/
def Call.InStaging : Call P → Disk P → Prop
  | enqueue _ id _ _, s => Staging id s
  | _, _ => False

structure Process (P : Type) [Payload P] where
  disk : Disk P
  queue : Option Queue
  accepted : List (Accepted P)

inductive Event (P : Type) [Payload P]
  | openSpool
  | close
  | call (c : Call P)
  /-- the process dies -/
  | crash (loss : Fs.Loss Place (Content P))
  /-- the process dies after this many steps of `Open` -/
  | crashInOpen (steps : Nat) (loss : Fs.Loss Place (Content P))
  /-- the process dies after this many steps of a call -/
  | crashInCall (c : Call P) (steps : Nat) (loss : Fs.Loss Place (Content P))

namespace Process

variable (maxBytes : Nat)

/-- Before the first `Open`. -/
def start : Process P where
  disk := { dirs := fun _ => Dir.empty, files := fun _ => .blank, dirty := [], next := 0 }
  queue := none
  accepted := []

/-- How far a program comes in this many steps. -/
def stopped {α : Type} (prog : Step P α) (steps : Nat) (s : Disk P) : Option (Except Error α) × Disk P :=
  prog.run Fs.machine (List.replicate steps none) s

def step (p : Process P) : Event P → Process P
  | .openSpool =>
    match (Queue.openQueue maxBytes p.queue.isSome).finish Fs.machine none p.disk with
    | (.ok q, s) => { p with disk := s, queue := some q }
    | (.error _, s) => { p with disk := s }
  | .close => { p with queue := none }
  | .call c =>
    match p.queue with
    | none => p
    | some q => match (c.prog q).finish Fs.machine none p.disk with
      | (r, s) => { p with disk := s, accepted := c.returned p.accepted r s }
  | .crash loss => { p with disk := p.disk.crash loss, queue := none }
  | .crashInOpen steps loss =>
    { p with
      disk := (stopped (Queue.openQueue maxBytes p.queue.isSome) steps p.disk).2.crash loss
      queue := none }
  | .crashInCall c steps loss =>
    match p.queue with
    | none => { p with disk := p.disk.crash loss }
    | some q => match stopped (c.prog q) steps p.disk with
      | (none, s) => ⟨s.crash loss, none, c.expected p.accepted⟩
      | (some r, s) => ⟨s.crash loss, none, c.returned p.accepted r s⟩

/-- The conditions of use: the ID of a live record is not used again, and the
rollover directory is empty when `Quarantine` is called. -/
def Usable (p : Process P) : Call P → Prop
  | .enqueue _ id _ _ => ∀ d, d ≠ .parent → p.disk.image d (.record id) = none
  | .quarantine _ _ => ∀ id, p.disk.image .rollover (.record id) = none
  | _ => True

/-- Which events may happen: calls under the conditions of use, and crashes
anywhere but while the staging file of an `Enqueue` may be found. -/
def Allowed (p : Process P) : Event P → Prop
  | .call c => p.Usable c
  | .crashInCall c steps _ =>
    p.Usable c ∧ ∀ q, p.queue = some q → ¬ c.InStaging (stopped (c.prog q) steps p.disk).2
  | _ => True

inductive Reachable : Process P → Prop
  | start : Reachable start
  | step {p : Process P} {e : Event P} : Reachable p → p.Allowed e → Reachable (p.step maxBytes e)

end Process

/-! ## One call -/

section Calls

variable {strict : Prop} {kept : List (Record P)} {s : Disk P} {q : Queue}

/-- The records behind the accepted payloads. -/
def Backs (kept : List (Record P)) (accepted : List (Accepted P)) : Prop :=
  ∀ a ∈ accepted, ∃ r ∈ kept, r.id = a.id ∧ r.payload = a.payload ∧ a.file = .record r

theorem Backs.filter {accepted : List (Accepted P)} (h : Backs kept accepted) (id : Uuid) :
    Backs (without id kept) (accepted.filter fun a => a.id ≠ id) := by
  intro a ha
  obtain ⟨ha, hid⟩ := List.mem_filter.mp ha
  obtain ⟨r, hr, hrid, hpayload, hfile⟩ := h a ha
  refine ⟨r, List.mem_filter.mpr ⟨hr, ?_⟩, hrid, hpayload, hfile⟩
  rw [hrid]
  exact hid

/-- What a call needs of the disk to keep the invariant. -/
def Call.Fine (strict : Prop) (q : Queue) (s : Disk P) : Call P → Prop
  | enqueue _ id _ _ => s.image .rejected (.record id) = none ∧ (strict → s.image .rollover (.record id) = none)
  | quarantine _ id => s.image .rollover (.record id) = none ∧ Room q id s
  | _ => True

/-- A call keeps the invariant, and outside of the staging window it can be
stopped anywhere. -/
theorem Call.sure (h : Inv strict q.maxBytes kept s) (hmax : maxRecordBytes ≤ q.maxBytes) {c : Call P}
    (hfine : c.Fine strict q s) {accepted : List (Accepted P)} (hb : Backs kept accepted) :
    Sure (fun s' => c.InStaging s' ∨
        ∃ kept', Backs kept' (c.expected accepted) ∧ Safe strict q.maxBytes kept' s')
      (c.prog q)
      (fun r s' => ∃ kept', Backs kept' (c.returned accepted r s') ∧ Inv strict q.maxBytes kept' s') s := by
  cases c with
  | enqueue ctx id payload now =>
    refine Prog.wp_mono (Prog.wp_stop (enqueue_sure h ctx payload now hfine.1 hfine.2) fun s' hs' => ?_)
      fun r s' hr => ?_
    · rcases hs' with rfl | hs'
      · exact Or.inr ⟨kept, hb, h.safe⟩
      · exact Or.inl hs'
    · cases r with
      | error e =>
        subst hr
        exact ⟨kept, hb, h⟩
      | ok _ =>
        obtain ⟨item, hid, hpayload, hfile, hinv⟩ := hr
        refine ⟨item :: kept, fun a ha => ?_, hinv⟩
        rcases List.mem_cons.mp ha with rfl | ha
        · exact ⟨item, List.mem_cons_self, hid, hpayload, hfile⟩
        · obtain ⟨r, hr, hrest⟩ := hb a ha
          exact ⟨r, List.mem_cons_of_mem _ hr, hrest⟩
  | acknowledge ctx id =>
    refine Prog.wp_mono (Prog.wp_stop (acknowledge_sure h ctx id) fun s' hs' => ?_) fun r s' hr => ?_
    · exact Or.inr ⟨_, hb.filter id, hs'⟩
    · exact ⟨_, hb.filter id, hr⟩
  | acknowledgeRollover ctx id =>
    refine Prog.wp_mono (Prog.wp_stop (acknowledgeRollover_sure h ctx id) fun s' hs' => ?_) fun r s' hr => ?_
    · exact Or.inr ⟨_, hb.filter id, hs'⟩
    · exact ⟨_, hb.filter id, hr⟩
  | quarantine ctx id =>
    refine Prog.wp_bind.mpr (Prog.wp_mono (Prog.wp_stop (quarantine_sure h hmax ctx hfine.1 hfine.2)
      fun s' hs' => Or.inr ⟨kept, hb, hs'⟩) fun r s' hr => ?_)
    cases r with
    | error e => exact ⟨kept, hb, hr.1⟩
    | ok result => exact Prog.wp_orFail.mpr ⟨fun _ _ => ⟨kept, hb, hr.1⟩, fun _ _ => ⟨kept, hb, hr.1⟩⟩

/-- Evictions fit an empty rollover directory. -/
theorem room_of_empty (h : Inv strict q.maxBytes kept s) (hempty : ∀ id, s.image .rollover (.record id) = none)
    (id : Uuid) : Room q id s := by
  have hnil : entriesOf s .rollover = [] := by
    refine List.eq_nil_iff_forall_not_mem.mpr fun e he => ?_
    have he := mem_entriesOf.mp he
    rcases h.sound.consistent.entry .rollover e.1 e.2 (by decide) he with ⟨r, hr⟩ | ⟨hd, -⟩
    · rw [show e.1 = .record r.id from hr.name, hempty] at he
      cases he
    · cases hd
  intro size chosen hsize hsel
  by_cases hin : size ≤ q.maxBytes
  · obtain ⟨chosen', rest, hperm, hsel', -, -⟩ := toRollover_ok h hin
    rw [hsel] at hsel'
    cases hsel'
    have hlen := hperm.length_eq
    have hscan := scannable_of_sound h.sound h.separate
    have hcount := hscan.rejectedCount
    have hmetas : (metas s .rejected).length = (entriesOf s .rejected).length := by
      rw [metas, List.length_map]
    rw [List.length_append] at hlen
    rw [hnil, List.length_nil]
    omega
  · rw [Queue.toRollover] at hsel
    split at hsel
    · cases hsel
    · rw [if_pos (by omega)] at hsel
      cases hsel

end Calls

/-! ## Runs -/

namespace Process

variable {maxBytes : Nat} {p : Process P}

/-- Between the events of a process. -/
def Good (maxBytes : Nat) (p : Process P) : Prop :=
  ∃ kept, Backs kept p.accepted ∧ match p.queue with
    | some q => q = { maxBytes } ∧ Inv True maxBytes kept p.disk
    | none => Recoverable True maxBytes kept p.disk

theorem recoverable_start (strict : Prop) (maxBytes : Nat) :
    Recoverable strict maxBytes [] (start : Process P).disk := by
  have himage : (start : Process P).disk.image = fun _ _ => none := rfl
  exact {
    settled := fun T hT => funext fun d => (Dir.mayBe_of_nil rfl).mp (hT d)
    clean := rfl
    sound := by
      rw [himage]
      exact {
        consistent := ⟨nofun, nofun, nofun, nofun, nofun, nofun⟩
        fits := ⟨⟨[], Nat.zero_le _, Nat.zero_le _, nofun⟩, ⟨[], Nat.zero_le _, Nat.zero_le _, nofun⟩,
          ⟨[], Nat.zero_le _, nofun⟩⟩
        laid := Or.inr fun _ _ _ => rfl
        covers := nofun
        bounded := nofun } }

/-- The result of a run of this many steps, when every full run meets `Q` and
every stopped run `C`. -/
theorem stopped_of_sure {α : Type} {C : Disk P → Prop} {Q : Except Error α → Disk P → Prop} {prog : Step P α}
    {s : Disk P} (h : Sure C prog Q s) (steps : Nat) :
    match stopped prog steps s with
    | (some r, s') => Q r s'
    | (none, s') => C s' := by
  have hplan : ∀ c ∈ List.replicate steps (none : Option (Content P)), c = none :=
    fun _ hc => List.eq_of_mem_replicate hc
  have hrun := Prog.run_of_wp h fun c hc _ _ => hplan c hc
  rw [stopped]
  generalize prog.run Fs.machine (List.replicate steps none) s = out at hrun
  obtain ⟨_ | r, s'⟩ := out
  · exact hrun
  · exact hrun

theorem Good.recoverable (h : p.Good maxBytes) : ∃ kept, Backs kept p.accepted ∧ Recoverable True maxBytes kept p.disk := by
  obtain ⟨kept, hb, hq⟩ := h
  cases hqueue : p.queue with
  | none => exact ⟨kept, hb, by rw [hqueue] at hq; exact hq⟩
  | some q => exact ⟨kept, hb, by rw [hqueue] at hq; exact hq.2.recoverable⟩

/-- `Open` in a good state. -/
theorem Good.openQueue (h : p.Good maxBytes) (hmax : maxRecordBytes ≤ maxBytes) :
    ∃ kept, Backs kept p.accepted ∧ Sure (Safe True maxBytes kept) (Queue.openQueue maxBytes p.queue.isSome)
      (fun r s => (r = .ok { maxBytes } ∨ p.queue = some { maxBytes } ∧ ∃ e, r = .error e) ∧
        Inv True maxBytes kept s) p.disk := by
  obtain ⟨kept, hb, hq⟩ := h
  refine ⟨kept, hb, ?_⟩
  cases hqueue : p.queue with
  | none =>
    rw [hqueue] at hq
    exact Prog.wp_mono (openQueue_sure hq hmax) fun r s hr => ⟨Or.inl hr.1, hr.2⟩
  | some q =>
    rw [hqueue] at hq
    obtain ⟨rfl, hinv⟩ := hq
    exact Prog.wp_mono (openQueue_held hinv maxBytes) fun r s hr => ⟨Or.inr ⟨rfl, hr.1⟩, hr.2⟩

theorem Usable.fine {kept : List (Record P)} (hinv : Inv True maxBytes kept p.disk)
    {c : Call P} (h : p.Usable c) : c.Fine True { maxBytes } p.disk := by
  cases c with
  | enqueue ctx id payload now => exact ⟨h .rejected nofun, fun _ => h .rollover nofun⟩
  | quarantine ctx id => exact ⟨h id, room_of_empty hinv h id⟩
  | acknowledge ctx id => exact trivial
  | acknowledgeRollover ctx id => exact trivial

theorem Good.step (h : p.Good maxBytes) (hmax : maxRecordBytes ≤ maxBytes) {e : Event P} (he : p.Allowed e) :
    (p.step maxBytes e).Good maxBytes := by
  cases e with
  | openSpool =>
    obtain ⟨kept, hb, hsure⟩ := h.openQueue hmax
    obtain ⟨hr, hinv⟩ := finish_of_sure hsure
    simp only [Process.step]
    generalize (Queue.openQueue maxBytes p.queue.isSome).finish Fs.machine none p.disk = out at hr hinv
    obtain ⟨r, s⟩ := out
    rcases hr with rfl | ⟨hq, e, rfl⟩
    · exact ⟨kept, hb, rfl, hinv⟩
    · refine ⟨kept, hb, ?_⟩
      dsimp only
      rw [hq]
      exact ⟨rfl, hinv⟩
  | close => exact h.recoverable
  | crash loss =>
    obtain ⟨kept, hb, hrec⟩ := h.recoverable
    exact ⟨kept, hb, hrec.safe.crash loss⟩
  | crashInOpen steps loss =>
    obtain ⟨kept, hb, hsure⟩ := h.openQueue hmax
    have hstop := stopped_of_sure hsure steps
    refine ⟨kept, hb, ?_⟩
    show Recoverable True maxBytes kept ((stopped (Queue.openQueue maxBytes p.queue.isSome) steps p.disk).2.crash loss)
    generalize stopped (Queue.openQueue maxBytes p.queue.isSome) steps p.disk = out at hstop
    obtain ⟨_ | r, s⟩ := out
    · exact hstop.crash loss
    · exact hstop.2.safe.crash loss
  | call c =>
    cases hqueue : p.queue with
    | none => simpa only [Process.step, hqueue] using h
    | some q =>
      obtain ⟨kept, hb, hq⟩ := h
      rw [hqueue] at hq
      obtain ⟨rfl, hinv⟩ := hq
      have hsure := Call.sure (q := { maxBytes }) hinv hmax (Usable.fine hinv he) hb
      obtain ⟨kept', hb', hinv'⟩ := finish_of_sure hsure
      simp only [Process.step, hqueue]
      exact ⟨kept', hb', by simp only; exact ⟨trivial, hinv'⟩⟩
  | crashInCall c steps loss =>
    cases hqueue : p.queue with
    | none =>
      obtain ⟨kept, hb, hrec⟩ := h.recoverable
      simp only [Process.step, hqueue]
      exact ⟨kept, hb, hrec.safe.crash loss⟩
    | some q =>
      obtain ⟨kept, hb, hq⟩ := h
      rw [hqueue] at hq
      obtain ⟨rfl, hinv⟩ := hq
      have hsure := Call.sure (q := { maxBytes }) hinv hmax (Usable.fine hinv he.1) hb
      have hstop := stopped_of_sure hsure steps
      have hwindow := he.2 _ hqueue
      simp only [Process.step, hqueue]
      generalize stopped (c.prog { maxBytes }) steps p.disk = out at hstop hwindow
      obtain ⟨_ | r, s⟩ := out
      · obtain ⟨kept', hb', hsafe⟩ := hstop.resolve_left hwindow
        exact ⟨kept', hb', hsafe.crash loss⟩
      · obtain ⟨kept', hb', hinv'⟩ := hstop
        exact ⟨kept', hb', hinv'.safe.crash loss⟩

theorem Reachable.good (hmax : maxRecordBytes ≤ maxBytes) (h : Reachable maxBytes p) : p.Good maxBytes := by
  induction h with
  | start => exact ⟨[], nofun, recoverable_start True maxBytes⟩
  | step _ he ih => exact ih.step hmax he

/-- Each accepted payload is in exactly one directory, in the file that `Enqueue`
published. -/
def Stored (accepted : List (Accepted P)) (s : Disk P) : Prop :=
  ∀ a ∈ accepted, ∃ d i r, d ≠ .parent ∧ s.image d (.record a.id) = some i ∧
    s.files i = a.file ∧ a.file = .record r ∧ r.id = a.id ∧ r.payload = a.payload ∧
    ∀ d', d' ≠ .parent → s.image d' (.record a.id) ≠ none → d' = d

theorem one_directory {kept : List (Record P)} {s : Disk P} (h : Inv True maxBytes kept s) {id : Uuid} {d d' : Place}
    (hd : d ≠ .parent) (hd' : d' ≠ .parent) (hi : s.image d (.record id) ≠ none)
    (hi' : s.image d' (.record id) ≠ none) : d = d' := by
  have hroot := h.separate.root id
  have hrej := h.separate.rejected id
  have hapart : s.image .root (.record id) = none ∨ s.image .rollover (.record id) = none := by
    by_contra hboth
    rw [not_or] at hboth
    obtain ⟨i, hi⟩ := Option.ne_none_iff_exists'.mp hboth.1
    obtain ⟨j, hj⟩ := Option.ne_none_iff_exists'.mp hboth.2
    exact (h.sound.consistent.apart id i j hi hj).1 trivial
  cases d <;> cases d' <;> grind

/-- **No record is lost or duplicated.** Whatever the process did and wherever it
died, the next `Open` that gets the lock succeeds; every accepted payload is then
in exactly one directory, unchanged, and no ID is in two directories. -/
theorem open_restores (hmax : maxRecordBytes ≤ maxBytes) (h : Reachable maxBytes p) :
    ∃ q s, (Queue.openQueue maxBytes false).finish Fs.machine none p.disk = (.ok q, s) ∧
      Stored p.accepted s ∧
      ∀ id d d', d ≠ .parent → d' ≠ .parent → s.image d (.record id) ≠ none →
        s.image d' (.record id) ≠ none → d = d' := by
  obtain ⟨kept, hb, hrec⟩ := (h.good hmax).recoverable
  obtain ⟨hr, hinv⟩ := finish_of_sure (openQueue_sure hrec hmax)
  generalize (Queue.openQueue maxBytes false).finish Fs.machine none p.disk = out at hr hinv
  obtain ⟨r, s⟩ := out
  cases hr
  refine ⟨_, s, rfl, fun a ha => ?_, fun id d d' hd hd' hi hi' => one_directory hinv hd hd' hi hi'⟩
  obtain ⟨r, hr, hid, hpayload, hfile⟩ := hb a ha
  obtain ⟨d, i, hd, hi, hcontent⟩ := hinv.sound.covers r hr
  rw [hid] at hi
  refine ⟨d, i, r, hd, hi, by rw [hfile, hcontent], hfile, hid, hpayload, fun d' hd' hi' => ?_⟩
  exact one_directory hinv hd' hd hi' (by rw [hi]; exact Option.some_ne_none i)

/-- One payload is accepted and then quarantined; the process dies before the
last sync and the removal from the active directory is lost. -/
def interruptedQuarantine : Process (List UInt8) :=
  let id : Uuid := ⟨0x000000000000400080000000000000aa⟩
  ((start.step maxRecordBytes .openSpool).step maxRecordBytes
      (.call (.enqueue none id [7] UtcTime.sample))).step maxRecordBytes
    (.crashInCall (.quarantine none id) 7 ⟨fun _ => [false], fun _ => .blank⟩)

theorem reachable_interruptedQuarantine : Reachable maxRecordBytes interruptedQuarantine := by
  have hopen : Reachable maxRecordBytes ((start : Process (List UInt8)).step maxRecordBytes .openSpool) :=
    .step .start (e := .openSpool) trivial
  rw [interruptedQuarantine]
  apply Reachable.step
  · apply Reachable.step hopen
    intro d hd
    cases d with
    | parent => exact absurd rfl hd
    | root | rejected | rollover => rfl
  · exact ⟨fun _ => rfl, fun _ _ h => by cases h⟩

theorem open_restores_interruptedQuarantine :
    interruptedQuarantine.accepted.map (·.payload) = [[7]] ∧
    (∃ id, interruptedQuarantine.disk.image .root (.record id) ≠ none ∧
      interruptedQuarantine.disk.image .rejected (.record id) ≠ none) ∧
    ∃ q s, (Queue.openQueue maxRecordBytes false).finish Fs.machine none interruptedQuarantine.disk = (.ok q, s) ∧
      Stored interruptedQuarantine.accepted s ∧
      ∀ id d d', d ≠ .parent → d' ≠ .parent → s.image d (.record id) ≠ none →
        s.image d' (.record id) ≠ none → d = d' :=
  ⟨by decide +kernel, ⟨⟨0x000000000000400080000000000000aa⟩, by decide +kernel⟩,
    open_restores (Nat.le_refl _) reachable_interruptedQuarantine⟩

end Process

end NorthgateRmm.Agent.Spool
