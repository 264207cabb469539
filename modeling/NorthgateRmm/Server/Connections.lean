import NorthgateRmm.Lib.Tasks
import NorthgateRmm.Lib.Dict

/-!
# Database connections and shutdown

`PostgresControlPlane._connect` and `begin_shutdown` as threads. Each block under
`_connection_lock` is one step, and so are `connect()`, the transaction body and
`close()`. The table of active connections is keyed by `id(connection)`, the address of
an object, which another connection can get once the first one is gone.
-/

namespace NorthgateRmm.Server.Connections

/-- A connection: the entry of `_connect` that opened it, and its `id`. -/
structure Connection where
  entry : Nat
  id : Nat
  deriving DecidableEq

/-- What a transaction body was given, and what the calls of `begin_shutdown` had read from
the table by then. -/
structure Yield where
  connection : Connection
  snapshots : List (List Connection)

structure Plane where
  shuttingDown : Bool
  activeConnections : Dict Nat Connection
  /-- which connections are open, by entry -/
  isOpen : Nat → Bool
  /-- the connection that the frame of an entry holds -/
  held : Nat → Option Connection
  /-- the entry has registered its connection and not run its last locked block -/
  registered : Nat → Bool
  snapshots : List (List Connection)
  yielded : List Yield

inductive Failure
  | validation (message : String)
  | raised

def shuttingDownError : Failure := .validation "database control plane is shutting down"

inductive Op : Type → Type 1
  | shuttingDown : Op Bool
  | connect (entry : Nat) : Op (Except Failure Connection)
  /-- the second locked block; `false` when the plane is shutting down -/
  | register (connection : Connection) : Op Bool
  | yield (connection : Connection) : Op Unit
  | body (connection : Connection) : Op (Except Failure Unit)
  | unregister (connection : Connection) : Op Unit
  | close (connection : Connection) : Op Unit
  /-- the locked block of `begin_shutdown` -/
  | shutdown : Op (List Connection)
  | cancelSafe (connection : Connection) : Op (Except Failure Unit)
  | interrupt (connection : Connection) : Op (Except Failure Unit)

/-! ## The two functions -/

/-- One entry of `_connect`, the body of its `with` statement and its exit. -/
def connect (entry : Nat) : Prog Op Failure Unit := do
  let down ← .call .shuttingDown
  .require (!down) shuttingDownError
  let answer ← .call (.connect entry)
  let connection ← .orFail answer id
  let registered ← .call (.register connection)
  let result ← Prog.attempt (ε := Failure) do
    .require registered shuttingDownError
    .call (.yield connection)
    -- the body, and `__exit__` of the connection, which commits or rolls back
    let ended ← .call (.body connection)
    .orFail ended id
  .ifNot (!registered) (.call (.unregister connection))
  .call (.close connection)
  .orFail result id

/-- `begin_shutdown`. -/
def beginShutdown : Prog Op Failure Unit := do
  let connections ← .call .shutdown
  .forEach (fun connection => do
    let _ ← .call (.cancelSafe connection)
    let _ ← .call (.interrupt connection)
    .ret ()) connections

/-! ## What the steps do -/

/-- The address of a new object is not that of one that a frame holds. -/
def Plane.unused (s : Plane) (id : Nat) : Prop := ∀ i c, s.held i = some c → c.id ≠ id

def Plane.opened (s : Plane) (c : Connection) : Plane :=
  { s with held := Function.update s.held c.entry (some c), isOpen := Function.update s.isOpen c.entry true }

/-- Nothing but a new connection is open that was not open before. -/
def Plane.closing (s : Plane) (entry : Nat) (stillOpen : Bool) : Plane :=
  { s with isOpen := Function.update s.isOpen entry (s.isOpen entry && stillOpen) }

def step (s : Plane) : {β : Type} → Op β → β → Plane → Prop
  | _, .shuttingDown, b, s' => b = s.shuttingDown ∧ s' = s
  | _, .connect entry, r, s' => (∃ e, r = .error e ∧ s' = s) ∨
      ∃ id, s.unused id ∧ r = .ok ⟨entry, id⟩ ∧ s' = s.opened ⟨entry, id⟩
  | _, .register c, b, s' => b = !s.shuttingDown ∧ s' = if s.shuttingDown then s else
      { s with activeConnections := s.activeConnections.set c.id c, registered := Function.update s.registered c.entry true }
  | _, .yield c, _, s' => s' = { s with yielded := s.yielded ++ [⟨c, s.snapshots⟩] }
  | _, .body c, _, s' => ∃ stillOpen, s' = s.closing c.entry stillOpen
  | _, .unregister c, _, s' => s' =
      { s with activeConnections := s.activeConnections.erase c.id, registered := Function.update s.registered c.entry false }
  | _, .close c, _, s' => s' = { s.closing c.entry false with held := Function.update s.held c.entry none }
  | _, .shutdown, connections, s' => connections = s.activeConnections.values ∧
      s' = { s with shuttingDown := true, snapshots := s.snapshots ++ [connections] }
  | _, .cancelSafe _, _, s' => s' = s
  | _, .interrupt c, _, s' => ∃ stillOpen, s' = s.closing c.entry stillOpen

def tasks : Tasks Op Plane where
  step s o b s' := step s o b s'
  pauses _ := true
  ambient _ _ := False

inductive Thread
  | entry
  | shutdown

def start (threads : Nat → Thread) : Tasks.Pool Op Failure Unit Nat Plane where
  state := ⟨false, .empty, fun _ => false, fun _ => none, fun _ => false, [], []⟩
  task i := match threads i with
    | .entry => connect i
    | .shutdown => beginShutdown

/-! ## The invariant -/

structure Inv (s : Plane) : Prop where
  own : ∀ i c, s.held i = some c → c.entry = i
  distinct : ∀ i j c d, s.held i = some c → s.held j = some d → c.id = d.id → i = j
  table : ∀ id c, (id, c) ∈ s.activeConnections.entries ↔ id = c.id ∧ s.registered c.entry = true ∧ s.held c.entry = some c
  closed : ∀ i, s.held i = none → s.isOpen i = false
  shut : s.snapshots ≠ [] → s.shuttingDown = true
  doomed : ∀ snapshot ∈ s.snapshots, ∀ i c, s.registered i = true → s.held i = some c → c ∈ snapshot
  yields : ∀ y ∈ s.yielded, ∀ snapshot ∈ y.snapshots, y.connection ∈ snapshot

/-- What the steps of other threads leave to an entry. -/
def Rely (i : Nat) (s s' : Plane) : Prop := s'.held i = s.held i ∧ s'.registered i = s.registered i

def Guar (i : Nat) (s s' : Plane) : Prop := ∀ j, j ≠ i → Rely j s s'

abbrev Safe (i : Nat) (p : Prog Op Failure Unit) (s : Plane) : Prop :=
  tasks.Safe Inv (Rely i) (Guar i) (fun _ s' => s'.held i = none) p s

variable {s s' : Plane} {i : Nat} {c : Connection}

theorem guar_refl (s : Plane) : Guar i s s := fun _ _ => ⟨rfl, rfl⟩

theorem Inv.opened (h : Inv s) {id : Nat} (hid : s.unused id) (hr : s.registered i = false) :
    Inv (s.opened ⟨i, id⟩) where
  own j c hj := by
    simp only [Plane.opened, Function.update_apply] at hj
    split at hj
    · cases hj
      exact Eq.symm ‹_›
    · exact h.own j c hj
  distinct j k c d hj hk heq := by
    simp only [Plane.opened, Function.update_apply] at hj hk
    split at hj <;> split at hk
    · rw [‹j = i›, ‹k = i›]
    · cases hj
      exact absurd heq.symm (hid k d hk)
    · cases hk
      exact absurd heq (hid j c hj)
    · exact h.distinct j k c d hj hk heq
  table key c := by
    simp only [Plane.opened, Function.update_apply]
    rw [h.table]
    split
    · rename_i hci
      rw [hci, hr]
      simp
    · rfl
  closed j hj := by
    simp only [Plane.opened, Function.update_apply] at hj ⊢
    split at hj
    · cases hj
    · rw [if_neg ‹_›]
      exact h.closed j hj
  shut := h.shut
  doomed snapshot hs j c hreg hj := by
    simp only [Plane.opened, Function.update_apply] at hj
    split at hj
    · rename_i hji
      exact absurd (hji ▸ hreg : s.registered i = true) (by simp [hr])
    · exact h.doomed snapshot hs j c hreg hj
  yields := h.yields

theorem Inv.register (h : Inv s) (hc : s.held i = some c) (hdown : s.shuttingDown = false) :
    Inv { s with activeConnections := s.activeConnections.set c.id c,
                 registered := Function.update s.registered c.entry true } where
  own := h.own
  distinct := h.distinct
  table key d := by
    have hci := h.own i c hc
    simp only [Dict.mem_set, Function.update_apply]
    split
    · rename_i hkey
      constructor
      · rintro rfl
        exact ⟨hkey, by simp, by rw [hci, hc]⟩
      · rintro ⟨hid, -, hd⟩
        have := h.distinct _ _ _ _ hd hc (hid.symm.trans hkey)
        rw [this, hc] at hd
        exact (Option.some.inj hd).symm
    · rename_i hkey
      rw [h.table]
      constructor
      · rintro ⟨hid, hreg, hd⟩
        exact ⟨hid, by simp [hreg], hd⟩
      · rintro ⟨hid, hreg, hd⟩
        refine ⟨hid, ?_, hd⟩
        split at hreg
        · rename_i heq
          rw [heq, hci, hc] at hd
          exact absurd (hid.trans (congrArg Connection.id (Option.some.inj hd)).symm) hkey
        · exact hreg
  closed := h.closed
  shut := h.shut
  doomed snapshot hs := by
    have := h.shut (List.ne_nil_of_mem hs)
    rw [hdown] at this
    cases this
  yields := h.yields

theorem Inv.closing (h : Inv s) (entry : Nat) (stillOpen : Bool) : Inv (s.closing entry stillOpen) where
  own := h.own
  distinct := h.distinct
  table := h.table
  closed j hj := by
    simp only [Plane.closing, Function.update_apply]
    split
    · rename_i hje
      rw [← hje, h.closed j hj, Bool.false_and]
    · exact h.closed j hj
  shut := h.shut
  doomed := h.doomed
  yields := h.yields

theorem Inv.unregister (h : Inv s) (hc : s.held i = some c) :
    Inv { s with activeConnections := s.activeConnections.erase c.id,
                 registered := Function.update s.registered c.entry false } where
  own := h.own
  distinct := h.distinct
  table key d := by
    have hci := h.own i c hc
    simp only [Dict.mem_erase, Function.update_apply]
    rw [h.table]
    constructor
    · rintro ⟨hkey, hid, hreg, hd⟩
      refine ⟨hid, ?_, hd⟩
      rw [if_neg]
      · exact hreg
      · intro heq
        rw [heq, hci, hc] at hd
        exact hkey (hid.trans (congrArg Connection.id (Option.some.inj hd)).symm)
    · rintro ⟨hid, hreg, hd⟩
      split at hreg
      · cases hreg
      · rename_i hne
        refine ⟨fun hkey => hne ?_, hid, hreg, hd⟩
        rw [h.distinct _ _ _ _ hd hc (hid.symm.trans hkey), hci]
  closed := h.closed
  shut := h.shut
  doomed snapshot hs j d hreg hd := by
    simp only [Function.update_apply] at hreg
    split at hreg
    · cases hreg
    · exact h.doomed snapshot hs j d hreg hd
  yields := h.yields

theorem Inv.close (h : Inv s) (hc : s.held i = some c) (hr : s.registered i = false) :
    Inv { s.closing c.entry false with held := Function.update s.held c.entry none } where
  own j d hd := by
    simp only [Function.update_apply] at hd
    split at hd
    · cases hd
    · exact h.own j d hd
  distinct j k d e hd he heq := by
    simp only [Function.update_apply] at hd he
    split at hd
    · cases hd
    split at he
    · cases he
    exact h.distinct j k d e hd he heq
  table key d := by
    simp only [Plane.closing, Function.update_apply]
    rw [h.table]
    split
    · rename_i heq
      rw [heq, h.own i c hc, hr]
      simp
    · rfl
  closed j hj := by
    simp only [Plane.closing, Function.update_apply] at hj ⊢
    split
    · exact Bool.and_false _
    · rename_i hne
      rw [if_neg hne] at hj
      exact h.closed j hj
  shut := h.shut
  doomed snapshot hs j d hreg hd := by
    simp only [Function.update_apply] at hd
    split at hd
    · cases hd
    · exact h.doomed snapshot hs j d hreg hd
  yields := h.yields

theorem Inv.shutdown (h : Inv s) :
    Inv { s with shuttingDown := true, snapshots := s.snapshots ++ [s.activeConnections.values] } where
  own := h.own
  distinct := h.distinct
  table := h.table
  closed := h.closed
  shut _ := rfl
  doomed snapshot hs j d hreg hd := by
    obtain hs | hs := List.mem_append.mp hs
    · exact h.doomed snapshot hs j d hreg hd
    · rw [List.mem_singleton.mp hs]
      have hj := h.own j d hd
      exact List.mem_map.mpr ⟨(d.id, d), (h.table _ _).mpr ⟨rfl, by rw [hj]; exact hreg, by rw [hj]; exact hd⟩, rfl⟩
  yields := h.yields

theorem Inv.yield (h : Inv s) (hc : s.held i = some c) (hr : s.registered i = true) :
    Inv { s with yielded := s.yielded ++ [⟨c, s.snapshots⟩] } where
  own := h.own
  distinct := h.distinct
  table := h.table
  closed := h.closed
  shut := h.shut
  doomed := h.doomed
  yields y hy snapshot hs := by
    obtain hy | hy := List.mem_append.mp hy
    · exact h.yields y hy snapshot hs
    · rw [List.mem_singleton.mp hy] at hs ⊢
      exact h.doomed snapshot hs i c hr hc

/-! ## The threads -/

end NorthgateRmm.Server.Connections
