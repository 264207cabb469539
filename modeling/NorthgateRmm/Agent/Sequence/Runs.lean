import NorthgateRmm.Agent.Sequence.Durable

/-!
# Runs of the sequence store

A store is opened, used by any number of callers and closed; any file step may
fail and the process may die between any two steps. The mutex admits one call at
a time, and the callback of `ReserveAndUse` runs under it. The log records what
the callers have seen, newest entry first.
-/

namespace NorthgateRmm.Agent.Sequence

open CrashFs
open Spool (ContextError)

inductive Entry
  /-- a call got the mutex -/
  | call (boot : Uuid)
  /-- the value went to the callback of a call that had found this state -/
  | used (boot : Uuid) (value : Nat) (found : Option State)
  /-- the value was reported by `ReserveUncertainError` -/
  | uncertain (boot : Uuid) (value : Nat) (found : Option State)
  | crash
  deriving DecidableEq

/-- What the holder of the mutex is doing. `before` is the disk it found. -/
inductive Phase : Type 1
  | opening (prog : Step Unit)
  | reserving (boot : Uuid) (before : Disk) (prog : Step Nat)
  | inUse (boot : Uuid) (value : Nat)

structure System : Type 1 where
  disk : Disk
  isOpen : Bool
  holder : Option Phase
  log : List Entry

inductive Event
  | startOpen
  | startReserve (ctx : Option ContextError) (boot : Uuid)
  /-- the next step of the holder; `some` makes it fail -/
  | tick (choice : Option Content)
  /-- the callback returns, with or without an error -/
  | useEnds
  | close
  | crash (loss : Fs.Loss Place Content)

namespace System

def start : System where
  disk := { dirs := fun _ => Dir.empty, files := fun _ => .blank, dirty := [], next := 0 }
  isOpen := false
  holder := none
  log := []

/-- The end of a reservation. -/
def reserved (s : System) (boot : Uuid) (before : Disk) : Except Error Nat → System
  | .ok value => { s with holder := some (.inUse boot value), log := .used boot value (shownState before) :: s.log }
  | .error (.uncertain b value) => { s with holder := none, log := .uncertain b value (shownState before) :: s.log }
  | .error _ => { s with holder := none }

def tick (s : System) (c : Option Content) : System :=
  match s.holder with
  | some (.opening (.op o k)) =>
    { s with disk := (Fs.exec c o s.disk).2, holder := some (.opening (k (Fs.exec c o s.disk).1)) }
  | some (.opening (.ret _)) => { s with holder := none, isOpen := true }
  | some (.opening (.fail _)) => { s with holder := none }
  | some (.reserving boot before (.op o k)) =>
    { s with
      disk := (Fs.exec c o s.disk).2
      holder := some (.reserving boot before (k (Fs.exec c o s.disk).1)) }
  | some (.reserving boot before (.ret value)) => s.reserved boot before (.ok value)
  | some (.reserving boot before (.fail e)) => s.reserved boot before (.error e)
  | _ => s

def step (s : System) : Event → System
  | .startOpen => match s.holder with
    | none => { s with holder := some (.opening (openStore s.isOpen)) }
    | some _ => s
  | .startReserve ctx boot => match s.holder with
    | none => { s with
      holder := some (.reserving boot s.disk (reserveLocked (!s.isOpen) ctx boot))
      log := .call boot :: s.log }
    | some _ => s
  | .tick c => s.tick c
  | .useEnds => match s.holder with
    | some (.inUse _ _) => { s with holder := none }
    | _ => s
  | .close => match s.holder with
    | none => { s with isOpen := false }
    | some _ => s
  | .crash loss => ⟨s.disk.crash loss, false, none, .crash :: s.log⟩

/-- The step that the holder takes next may fail in this way. -/
def Allowed (s : System) : Event → Prop
  | .tick c => match s.holder with
    | some (.opening (.op o _)) => Reliable _ c o
    | some (.reserving _ _ (.op o _)) => Reliable _ c o
    | _ => True
  | _ => True

inductive Reachable : System → Prop
  | start : Reachable start
  | step {s : System} {e : Event} : Reachable s → s.Allowed e → Reachable (s.step e)

end System

/-! ## What the log implies -/

/-- The last value handed out since the last call for another boot. -/
def handed (boot : Uuid) : List Entry → Nat
  | [] => 0
  | .call b :: l => if b = boot then handed boot l else 0
  | .used b v _ :: l => if b = boot then v else handed boot l
  | .uncertain _ _ _ :: l => handed boot l
  | .crash :: l => handed boot l

/-- The last value handed out or reported as uncertain; a crash may undo the
latter. -/
def seen (boot : Uuid) : List Entry → Nat
  | [] => 0
  | .call b :: l => if b = boot then seen boot l else 0
  | .used b v _ :: l => if b = boot then v else seen boot l
  | .uncertain b v _ :: l => if b = boot then v else seen boot l
  | .crash :: l => handed boot l

def levels (l : List Entry) : Levels := ⟨(handed · l), (seen · l)⟩

/-- Every number is new in its stretch, and follows the state that was found. -/
def LogOk : List Entry → Prop
  | [] => True
  | .used b v found :: l => seen b l < v ∧ v ≤ maxSequence ∧ v = nextSequence b found ∧ LogOk l
  | .uncertain b v found :: l => seen b l < v ∧ v = nextSequence b found ∧ LogOk l
  | .call _ :: l => LogOk l
  | .crash :: l => LogOk l

section Log

variable {l : List Entry} {boot : Uuid} {v : Nat} {found : Option State}

theorem levels_used : levels (.used boot v found :: l) = (levels l).raised boot v := by
  rw [levels, Levels.raised, Levels.mk.injEq]
  constructor <;> funext b <;> rw [Function.update_apply] <;> simp only [handed, seen, levels, eq_comm]

theorem levels_uncertain : levels (.uncertain boot v found :: l) = (levels l).shown boot v := by
  rw [levels, Levels.shown, Levels.mk.injEq]
  refine ⟨rfl, funext fun b => ?_⟩
  rw [Function.update_apply]
  simp only [seen, levels, eq_comm]

theorem handed_le_seen (h : LogOk l) (boot : Uuid) : handed boot l ≤ seen boot l := by
  induction l with
  | nil => exact Nat.le_refl 0
  | cons e l ih =>
    cases e with
    | call b =>
      have := ih h
      rw [handed, seen]
      split <;> omega
    | used b v found =>
      have := ih h.2.2.2
      rw [handed, seen]
      split <;> omega
    | uncertain b v found =>
      have := ih h.2.2
      have hv := h.1
      rw [handed, seen]
      split
      next hb =>
        rw [← hb] at this ⊢
        omega
      next => exact this
    | crash => exact Nat.le_refl _

/-- Values of one stretch stay below the latest one. -/
theorem le_handed {l₂ : List Entry} {w : Nat} (h : LogOk (l₂ ++ .used boot w found :: l))
    (hboot : ∀ b, .call b ∈ l₂ → b = boot) : w ≤ handed boot (l₂ ++ .used boot w found :: l) := by
  induction l₂ with
  | nil => rw [List.nil_append, handed, if_pos rfl]
  | cons e l₂ ih =>
    rw [List.cons_append] at h ⊢
    have hboot' : ∀ b, .call b ∈ l₂ → b = boot := fun b hb => hboot b (List.mem_cons_of_mem _ hb)
    cases e with
    | call b =>
      rw [handed, if_pos (hboot b List.mem_cons_self)]
      exact ih h hboot'
    | used b v f =>
      have hrest := ih h.2.2.2 hboot'
      have hseen := handed_le_seen h.2.2.2 boot
      have hv := h.1
      rw [handed]
      split
      next hb =>
        rw [hb] at hv
        omega
      next => exact hrest
    | uncertain b v f => exact ih h.2.2 hboot'
    | crash => exact ih h hboot'

/-- Without a crash an uncertain value stays below the later ones as well. -/
theorem le_seen {l₂ : List Entry} {w : Nat} (h : LogOk (l₂ ++ .uncertain boot w found :: l))
    (hboot : ∀ b, .call b ∈ l₂ → b = boot) (hcrash : .crash ∉ l₂) :
    w ≤ seen boot (l₂ ++ .uncertain boot w found :: l) := by
  induction l₂ with
  | nil => rw [List.nil_append, seen, if_pos rfl]
  | cons e l₂ ih =>
    rw [List.cons_append] at h ⊢
    have hboot' : ∀ b, .call b ∈ l₂ → b = boot := fun b hb => hboot b (List.mem_cons_of_mem _ hb)
    have hcrash' : .crash ∉ l₂ := fun hc => hcrash (List.mem_cons_of_mem _ hc)
    cases e with
    | call b =>
      rw [seen, if_pos (hboot b List.mem_cons_self)]
      exact ih h hboot' hcrash'
    | used b v f =>
      have hrest := ih h.2.2.2 hboot' hcrash'
      have hv := h.1
      rw [seen]
      split
      next hb =>
        rw [hb] at hv
        omega
      next => exact hrest
    | uncertain b v f =>
      have hrest := ih h.2.2 hboot' hcrash'
      have hv := h.1
      rw [seen]
      split
      next hb =>
        rw [hb] at hv
        omega
      next => exact hrest
    | crash => exact absurd List.mem_cons_self hcrash

theorem LogOk.tail {l₁ l₂ : List Entry} (h : LogOk (l₁ ++ l₂)) : LogOk l₂ := by
  induction l₁ with
  | nil => exact h
  | cons e l₁ ih =>
    cases e with
    | used b v f => exact ih h.2.2.2
    | uncertain b v f => exact ih h.2.2
    | call b => exact ih h
    | crash => exact ih h

end Log

/-! ## Invariant -/

namespace System

/-- Between the calls. -/
def Idle (s : System) : Prop :=
  Sane (levels s.log) s.disk ∧ Steady s.disk ∧ (s.isOpen = true → s.disk.image .parent .store ≠ none)

/-- What `Open` leaves in the system. -/
def AfterOpen (s : System) : Except Error Unit → Disk → Prop
  | .ok (), d => Live (levels s.log) d
  | .error _, d => Sane (levels s.log) d ∧ Steady d ∧ (s.isOpen = true → d.image .parent .store ≠ none)

/-- The holder's program ends well from here on. -/
def Running (s : System) : Prop :=
  match s.holder with
  | none => s.Idle
  | some (.opening prog) => prog.wp Fs.machine Reliable (Sane (levels s.log)) s.AfterOpen s.disk
  | some (.reserving boot before prog) =>
    (∃ l, s.log = .call boot :: l) ∧
      (s.isOpen = true ∧ prog.wp Fs.machine Reliable (Sane (levels s.log)) (Reserved (levels s.log) boot before) s.disk ∨
        prog = .fail .closed ∧ s.disk = before ∧ s.Idle)
  | some (.inUse _ _) => s.Idle

structure Good (s : System) : Prop where
  log : LogOk s.log
  running : s.Running

variable {s : System}

theorem sane_of_raised {L : Levels} {d : Disk} {boot : Uuid} {v : Nat} (h : Live (L.raised boot v) d)
    (hd : L.durable boot ≤ v) (hv : L.visible boot ≤ v) : Sane L d := by
  refine h.sane.mono (fun b => ?_) (fun b => ?_)
  · show L.durable b ≤ Function.update L.durable boot v b
    rw [Function.update_apply]
    split
    next hb => exact hb ▸ hd
    next => exact Nat.le_refl _
  · show L.visible b ≤ Function.update L.visible boot v b
    rw [Function.update_apply]
    split
    next hb => exact hb ▸ hv
    next => exact Nat.le_refl _

/-- The levels hold at every point of a reservation, its end included. -/
theorem Reserved.sane {l : List Entry} (hl : LogOk l) {boot : Uuid} {before d : Disk} {r : Except Error Nat}
    (h : Reserved (levels l) boot before r d) : Sane (levels l) d := by
  have hle := handed_le_seen hl boot
  match r, h with
  | .ok w, ⟨_, _, hlt, hlive⟩ => exact sane_of_raised hlive (Nat.le_trans hle (Nat.le_of_lt hlt)) (Nat.le_of_lt hlt)
  | .error (.uncertain _ w), ⟨_, _, hlt, hlive⟩ => exact hlive.sane.of_shown (Nat.le_of_lt hlt)
  | .error .closed, h | .error .corrupt, h | .error .locked, h | .error (.context _), h | .error (.failed _), h
  | .error (.uncleaned _), h => exact h.2.sane

theorem Good.sane (h : s.Good) : Sane (levels s.log) s.disk := by
  have hrun := h.running
  unfold Running at hrun
  split at hrun
  next => exact hrun.1
  next prog _ =>
    cases prog with
    | ret a => exact Live.sane hrun
    | fail e => exact hrun.1
    | op o k => exact hrun.1
  next boot before prog _ =>
    rcases hrun.2 with ⟨-, hwp⟩ | ⟨-, -, hidle⟩
    · cases prog with
      | ret v => exact Reserved.sane h.log hwp
      | fail e => exact Reserved.sane h.log hwp
      | op o k => exact hwp.1
    · exact hidle.1
  next => exact hrun.1

theorem good_start : start.Good := by
  have himage : start.disk.image = fun _ _ => none := rfl
  have hsettled : start.disk.Settled := fun T hT => funext fun d => (Dir.mayBe_of_nil rfl).mp (hT d)
  refine ⟨trivial, ⟨?_, ?_, ?_, ?_⟩, ?_, nofun⟩
  · intro T hT d n i hi
    rw [hsettled T hT, himage] at hi
    exact nomatch hi
  · intro T hT i hi
    rw [hsettled T hT, himage] at hi
    exact nomatch hi
  · exact fun _ _ _ => Or.inl rfl
  · exact fun _ => Or.inl rfl
  · intro T hT
    rw [hsettled T hT]

/-- A call of another boot ends the stretch. -/
theorem levels_call (l : List Entry) (boot : Uuid) :
    (∀ b, b ≠ boot → (levels (.call boot :: l)).durable b = 0 ∧ (levels (.call boot :: l)).visible b = 0) ∧
      (∀ b, (levels (.call boot :: l)).durable b ≤ (levels l).durable b) ∧
      ∀ b, (levels (.call boot :: l)).visible b ≤ (levels l).visible b := by
  refine ⟨fun b hb => ?_, fun b => ?_, fun b => ?_⟩
  · simp only [levels, handed, seen, if_neg hb.symm, and_self]
  · simp only [levels, handed]
    split <;> omega
  · simp only [levels, seen]
    split <;> omega

/-- The end of a reservation on an open store. -/
theorem Good.reserved (h : s.Good) {boot : Uuid} {before : Disk} {r : Except Error Nat}
    (hr : Reserved (levels s.log) boot before r s.disk) : (s.reserved boot before r).Good := by
  match r, hr with
  | .ok v, ⟨hv, hmax, hlt, hlive⟩ =>
    refine ⟨⟨hlt, hmax, hv, h.log⟩, ?_⟩
    show Idle _
    refine ⟨?_, hlive.steady, fun _ => hlive.store⟩
    show Sane (levels (.used boot v (shownState before) :: s.log)) s.disk
    rw [levels_used]
    exact hlive.sane
  | .error (.uncertain _ v), ⟨rfl, hv, hlt, hlive⟩ =>
    refine ⟨⟨hlt, hv, h.log⟩, ?_⟩
    show Idle _
    refine ⟨?_, hlive.steady, fun _ => hlive.store⟩
    show Sane (levels (.uncertain _ v (shownState before) :: s.log)) s.disk
    rw [levels_uncertain]
    exact hlive.sane
  | .error .closed, hr | .error .corrupt, hr | .error .locked, hr | .error (.context _), hr
  | .error (.failed _), hr | .error (.uncleaned _), hr =>
    exact ⟨h.log, hr.2.sane, hr.2.steady, fun _ => hr.2.store⟩

theorem Good.tick (h : s.Good) {c : Option Content} (he : s.Allowed (.tick c)) : (s.tick c).Good := by
  obtain ⟨disk, isOpen, holder, log⟩ := s
  have hrun := h.running
  cases holder with
  | none => exact h
  | some phase =>
    cases phase with
    | opening prog =>
      cases prog with
      | op o k => exact ⟨h.log, hrun.2 c he⟩
      | ret a => exact ⟨h.log, hrun.sane, hrun.steady, fun _ => hrun.store⟩
      | fail e => exact ⟨h.log, hrun⟩
    | reserving boot before prog =>
      obtain ⟨hlog, ⟨hopen, hwp⟩ | ⟨rfl, -, hidle⟩⟩ := hrun
      · cases prog with
        | op o k => exact ⟨h.log, hlog, Or.inl ⟨hopen, hwp.2 c he⟩⟩
        | ret v => exact h.reserved hwp
        | fail e => exact h.reserved hwp
      · exact ⟨h.log, hidle⟩
    | inUse boot value => exact h

/-- One event keeps the invariant. -/
theorem Good.step (h : s.Good) {e : Event} (he : s.Allowed e) : (s.step e).Good := by
  cases e with
  | tick c => exact h.tick he
  | crash loss =>
    obtain ⟨hsane, hsteady⟩ := h.sane.crash loss
    exact ⟨h.log, hsane, hsteady, nofun⟩
  | startOpen =>
    obtain ⟨disk, isOpen, holder, log⟩ := s
    cases holder with
    | some phase => exact h
    | none =>
      obtain ⟨hsane, hsteady, hstore⟩ := h.running
      refine ⟨h.log, Prog.wp_mono (openStore_wp hsane hsteady isOpen) fun r d hr => ?_⟩
      cases r with
      | ok _ => exact hr
      | error e => exact ⟨hr.1, hr.2.1, fun hopen => hr.2.2 (hstore hopen)⟩
  | startReserve ctx boot =>
    obtain ⟨disk, isOpen, holder, log⟩ := s
    cases holder with
    | some phase => exact h
    | none =>
      obtain ⟨hsane, hsteady, hstore⟩ := h.running
      obtain ⟨hother, hd, hv⟩ := levels_call log boot
      have hsane' := hsane.mono hd hv
      refine ⟨h.log, ⟨log, rfl⟩, ?_⟩
      cases isOpen with
      | false => exact Or.inr ⟨rfl, rfl, hsane', hsteady, nofun⟩
      | true =>
        exact Or.inl ⟨rfl, reserveLocked_wp ⟨hsane', hsteady, hstore rfl⟩ hother
          (handed_le_seen (l := .call boot :: log) h.log boot) _ ctx⟩
  | useEnds =>
    obtain ⟨disk, isOpen, holder, log⟩ := s
    match holder with
    | none | some (.opening _) | some (.reserving _ _ _) => exact h
    | some (.inUse _ _) => exact ⟨h.log, h.running⟩
  | close =>
    obtain ⟨disk, isOpen, holder, log⟩ := s
    cases holder with
    | some phase => exact h
    | none =>
      obtain ⟨hsane, hsteady, -⟩ := h.running
      exact ⟨h.log, hsane, hsteady, nofun⟩

theorem Reachable.good (h : Reachable s) : s.Good := by
  induction h with
  | start => exact good_start
  | step _ he ih => exact ih.step he

/-! ## The contract of the store -/

/-- What the callers of the store can rely on. -/
structure NeverReused (s : System) : Prop where
  /-- while no call for another boot intervenes, each value is greater than the ones before it -/
  increasing : ∀ l₁ l₂ l₃ boot v w found found', s.log = l₁ ++ .used boot v found :: (l₂ ++ .used boot w found' :: l₃) →
    (∀ b, .call b ∈ l₂ → b = boot) → w < v
  /-- a call takes 1 when it finds no state or that of another boot, and the next number otherwise -/
  range : ∀ boot v found, .used boot v found ∈ s.log → 1 ≤ v ∧ v ≤ maxSequence ∧ v = nextSequence boot found
  /-- only a crash can bring back a value that was reported as uncertain -/
  uncertain : ∀ l₁ l₂ l₃ boot v w found found',
    s.log = l₁ ++ .used boot v found :: (l₂ ++ .uncertain boot w found' :: l₃) →
    (∀ b, .call b ∈ l₂ → b = boot) → .crash ∉ l₂ → w < v
  /-- a call that reports exhaustion has changed nothing -/
  exhausted : ∀ boot before, s.holder = some (.reserving boot before (.fail exhausted)) → s.disk = before

/-- **Sequence numbers are not reused.** -/
theorem Reachable.neverReused (h : Reachable s) : s.NeverReused := by
  have hgood := h.good
  refine ⟨fun l₁ l₂ l₃ boot v w found found' hlog hboot => ?_, fun boot v found hmem => ?_,
    fun l₁ l₂ l₃ boot v w found found' hlog hboot hcrash => ?_, fun boot before hholder => ?_⟩
  · have hok : LogOk (.used boot v found :: (l₂ ++ .used boot w found' :: l₃)) := (hlog ▸ hgood.log).tail
    have hle := le_handed hok.2.2.2 hboot
    have hseen := handed_le_seen hok.2.2.2 boot
    have hlt := hok.1
    omega
  · obtain ⟨l₁, l₂, hlog⟩ := List.append_of_mem hmem
    have hok : LogOk (.used boot v found :: l₂) := (hlog ▸ hgood.log).tail
    exact ⟨Nat.lt_of_le_of_lt (Nat.zero_le _) hok.1, hok.2.1, hok.2.2.1⟩
  · have hok : LogOk (.used boot v found :: (l₂ ++ .uncertain boot w found' :: l₃)) := (hlog ▸ hgood.log).tail
    exact Nat.lt_of_le_of_lt (le_seen hok.2.2.2 hboot hcrash) hok.1
  · have hrun := hgood.running
    unfold Running at hrun
    rw [hholder] at hrun
    rcases hrun.2 with ⟨-, hwp⟩ | ⟨-, hbefore, -⟩
    · exact hwp.1 rfl
    · exact hbefore

def run (s : System) (events : List Event) : System := events.foldl System.step s

/-- An event that makes no step fail. -/
def Event.faultless : Event → Bool
  | .tick (some _) => false
  | _ => true

theorem reliable_none {β : Type} (o : CrashFs.Op Place Name Content β) : Reliable β none o := by
  unfold Reliable
  split <;> trivial

theorem Reachable.run (h : Reachable s) {events : List Event} (hev : events.all Event.faultless = true) :
    Reachable (s.run events) := by
  induction events generalizing s with
  | nil => exact h
  | cons e rest ih =>
    rw [List.all_cons, Bool.and_eq_true] at hev
    refine ih (h.step ?_) hev.2
    cases e with
    | tick c =>
      cases c with
      | some torn => exact nomatch hev.1
      | none =>
        unfold Allowed
        dsimp only
        split
        · exact reliable_none _
        · exact reliable_none _
        · trivial
    | startOpen | startReserve _ _ | useEnds | close | crash _ => exact trivial

/-- The store is created and opened, and two numbers are reserved. -/
def twoReservations (boot : Uuid) : System :=
  start.run (.startOpen :: List.replicate 11 (.tick none) ++ .startReserve none boot :: List.replicate 9 (.tick none) ++
    .useEnds :: .startReserve none boot :: List.replicate 9 (.tick none))

theorem neverReused_twoReservations :
    let boot : Uuid := ⟨0x000000000000400080000000000000aa⟩
    (twoReservations boot).log.length = 4 ∧ (twoReservations boot).NeverReused :=
  ⟨by decide +kernel, Reachable.neverReused (Reachable.start.run (by decide))⟩

/-- The directory sync of the first reservation fails, so that its number is
reported as uncertain; a crash undoes the rename, and the next reservation hands
the number out. -/
theorem uncertain_value_used_after_crash :
    let boot : Uuid := ⟨0x000000000000400080000000000000aa⟩
    (start.run (.startOpen :: List.replicate 11 (.tick none) ++
      .startReserve none boot :: List.replicate 7 (.tick none) ++ .tick (some .blank) :: .tick none ::
      .crash ⟨fun _ => [], fun _ => .blank⟩ :: .startOpen :: List.replicate 7 (.tick none) ++
      .startReserve none boot :: List.replicate 9 (.tick none))).log =
    [.used boot 1 none, .call boot, .crash, .uncertain boot 1 none, .call boot] := by
  decide +kernel

end System

end NorthgateRmm.Agent.Sequence
