import NorthgateRmm.Lib.Tasks
import NorthgateRmm.Lib.Dict

/-!
# Admission slots of the listeners

A listener bounds what it works on with a semaphore and a dictionary that counts the
slots in use by key (an identity or a source address). `Slots` is the pair, `Sound` says
that it accounts for exactly the slots that somebody owns. `Listener` adds what is known
of each request, and `Inv` that every slot was taken for one request, is released once,
and not while the request's task is at work. `Exn` are the exceptions that can come out
of an `await` in a handler.
-/

namespace NorthgateRmm.Server

/-- Exceptions, as far as the handlers of the listeners tell them apart. -/
inductive Exn
  /-- the task was cancelled -/
  | cancelled
  /-- the cancellation by which `asyncio.timeout` interrupts its block -/
  | deadline
  | timeout
  | connection
  | os
  | ssl
  | value
  | validation
  | entityTooLarge
  | request (status : Nat) (code : String)
  | assertion
  /-- another `Exception` -/
  | other
  /-- another `BaseException` -/
  | fatal
  deriving DecidableEq

namespace Exn

/-- `OSError` and its subclasses. -/
def isOSError : Exn → Bool
  | timeout | connection | os | ssl => true
  | _ => false

/-- What `asyncio.timeout` makes of an exception that leaves its block. -/
def leaveTimeout : Exn → Exn
  | deadline => timeout
  | e => e

end Exn

/-! ## Slots -/

/-- `asyncio.Semaphore` and the counts by key. -/
structure Slots (K : Type) where
  free : Nat
  active : Dict K Nat

namespace Slots

variable {K : Type} [DecidableEq K]

def new (maximum : Nat) : Slots K := ⟨maximum, .empty⟩

def locked (slots : Slots K) : Bool := slots.free == 0

/-- `await semaphore.acquire()` of a semaphore that is not locked, which does not suspend,
and the new count of the key. -/
def take (slots : Slots K) (key : K) (count : Nat) : Slots K := ⟨slots.free - 1, slots.active.set key count⟩

/-- `_release_request_slot`, `_release` and `_release_handshake`; nothing when the accounting
is inconsistent. -/
def release (slots : Slots K) (key : K) : Option (Slots K) :=
  match slots.active.get? key with
  | none => none
  | some active =>
    if active < 1 then none
    else if active = 1 then some ⟨slots.free + 1, slots.active.erase key⟩
    else some ⟨slots.free + 1, slots.active.set key (active - 1)⟩

/-- The slots account for `owners`: who holds a slot, and for which key. -/
structure Sound (maximum limit : Nat) (slots : Slots K) (owners : Dict Nat K) : Prop where
  sum : slots.free + slots.active.total = maximum
  range : ∀ key n, slots.active.get? key = some n → 0 < n ∧ n ≤ limit
  owned : ∀ key, slots.active.count key = owners.sumOf fun k => if k = key then 1 else 0

variable {maximum limit i : Nat} {slots : Slots K} {owners : Dict Nat K} {key : K}

theorem Sound.new : Sound maximum limit (.new maximum : Slots K) .empty where
  sum := rfl
  range _ _ := nofun
  owned _ := rfl

theorem Sound.take (h : Sound maximum limit slots owners) (hfree : slots.locked = false)
    (hlimit : slots.active.count key < limit) (hi : owners.get? i = none) :
    Sound maximum limit (slots.take key (slots.active.count key + 1)) (owners.set i key) where
  sum := by
    have hpos : slots.free ≠ 0 := by simpa [locked] using hfree
    have hset := slots.active.total_set key (slots.active.count key + 1)
    have hsum := h.sum
    simp only [Slots.take]
    omega
  range k n hn := by
    simp only [Slots.take, Dict.get?_set] at hn
    split at hn
    · cases hn
      omega
    · exact h.range k n hn
  owned k := by
    have hset := owners.sumOf_set (fun j => if j = k then 1 else 0) i key
    have howned := h.owned k
    simp only [hi, Option.map_none, Option.getD_none] at hset
    simp only [Slots.take, Dict.count_set]
    split
    · subst k
      rw [if_pos rfl] at hset
      omega
    · rw [if_neg (Ne.symm ‹_›)] at hset
      omega

theorem Sound.release (h : Sound maximum limit slots owners) (hi : owners.get? i = some key) :
    ∃ slots', slots.release key = some slots' ∧ Sound maximum limit slots' (owners.erase i) := by
  have herase : ∀ k, (owners.erase i).sumOf (fun j => if j = k then 1 else 0) + (if key = k then 1 else 0) =
      slots.active.count k := fun k => by
    rw [h.owned k]
    simpa [hi] using owners.sumOf_erase (fun j => if j = k then 1 else 0) i
  have hkey := herase key
  rw [if_pos rfl] at hkey
  have hsum := h.sum
  obtain ⟨n, hn⟩ : ∃ n, slots.active.get? key = some n := by
    cases hget : slots.active.get? key with
    | some n => exact ⟨n, rfl⟩
    | none =>
      rw [Dict.count, hget, Option.getD_none] at hkey
      omega
  have hcount : slots.active.count key = n := by rw [Dict.count, hn, Option.getD_some]
  have hrange := h.range key n hn
  unfold Slots.release
  rw [hn]
  dsimp only
  rw [if_neg (by omega)]
  split
  · have htotal := slots.active.total_erase key
    refine ⟨_, rfl, by dsimp only; omega, fun k m hm => ?_, fun k => ?_⟩
    · rw [Dict.get?_erase] at hm
      split at hm
      · cases hm
      · exact h.range k m hm
    · have hk := herase k
      rw [Dict.count_erase]
      split
      · subst k
        omega
      · rw [if_neg (Ne.symm ‹_›)] at hk
        omega
  · have htotal := slots.active.total_set key (n - 1)
    refine ⟨_, rfl, by dsimp only; omega, fun k m hm => ?_, fun k => ?_⟩
    · rw [Dict.get?_set] at hm
      split at hm
      · cases hm
        omega
      · exact h.range k m hm
    · have hk := herase k
      rw [Dict.count_set]
      split
      · subst k
        omega
      · rw [if_neg (Ne.symm ‹_›)] at hk
        omega

end Slots

/-! ## Who owns a slot -/

/-- The task that runs the application in a thread. -/
inductive Worker
  | none
  | running
  | done
  deriving DecidableEq

/-- What belongs to one request: its task, the key a done-callback of the task still has to
release, and how often a slot was taken and released for it. -/
structure Request (K : Type) where
  worker : Worker
  callback : Option K
  taken : Nat
  released : Nat

structure Listener (K : Type) where
  slots : Slots K
  /-- the requests that own a slot -/
  owners : Dict Nat K
  requests : Nat → Request K
  /-- the accounting was found inconsistent -/
  raised : Bool

namespace Listener

variable {K : Type} {maximum limit i : Nat} {key : K} {s s' : Listener K}

def update (s : Listener K) (i : Nat) (f : Request K → Request K) : Listener K :=
  { s with requests := Function.update s.requests i (f (s.requests i)) }

/-- Only request `i` is concerned. -/
def Concerns (i : Nat) (s s' : Listener K) : Prop :=
  ∀ j, j ≠ i → s'.requests j = s.requests j ∧ s'.owners.get? j = s.owners.get? j

/-- The accounts of one request that owns a slot for `owner` or none. -/
structure Accounted (r : Request K) (owner : Option K) : Prop where
  callback : ∀ key, r.callback = some key → owner = some key
  taken : r.taken = r.released + if owner.isSome then 1 else 0
  once : r.taken ≤ 1
  waits : 0 < r.released → r.worker ≠ .running

theorem update_self (s : Listener K) (f : Request K → Request K) : (s.update i f).requests i = f (s.requests i) := by
  simp [update]

variable [DecidableEq K]

def new (maximum : Nat) : Listener K := ⟨.new maximum, .empty, fun _ => ⟨.none, none, 0, 0⟩, false⟩

/-- A slot is taken for request `i`. -/
def take (s : Listener K) (i : Nat) (key : K) (count : Nat) : Listener K :=
  { s.update i fun r => { r with taken := r.taken + 1 } with
    slots := s.slots.take key count, owners := s.owners.set i key }

/-- A release for request `i`, by its handler or by its callback. -/
def release (s : Listener K) (i : Nat) (key : K) : Except Exn Unit × Listener K :=
  match s.slots.release key with
  | some slots => (.ok (), { s.update i fun r => { r with callback := none, released := r.released + 1 } with
      slots := slots, owners := s.owners.erase i })
  | none => (.error .assertion, { s with raised := true })

structure Inv (maximum limit : Nat) (s : Listener K) : Prop where
  sound : s.slots.Sound maximum limit s.owners
  consistent : s.raised = false
  accounted : ∀ i, Accounted (s.requests i) (s.owners.get? i)

theorem Inv.new : Inv maximum limit (.new maximum : Listener K) where
  sound := .new
  consistent := rfl
  accounted _ := ⟨nofun, rfl, Nat.zero_le _, fun h => absurd h (Nat.lt_irrefl 0)⟩

theorem Inv.of_concerns (h : Inv maximum limit s) (hconcerns : Concerns i s s')
    (hsound : s'.slots.Sound maximum limit s'.owners) (hraised : s'.raised = s.raised)
    (hi : Accounted (s'.requests i) (s'.owners.get? i)) : Inv maximum limit s' := by
  refine ⟨hsound, hraised.trans h.consistent, fun j => ?_⟩
  by_cases hj : j = i
  · exact hj ▸ hi
  · rw [(hconcerns j hj).1, (hconcerns j hj).2]
    exact h.accounted j

/-- While a request owns its slot, nothing was released for it. -/
theorem Inv.released_of_owner (h : Inv maximum limit s) (howner : s.owners.get? i = some key) :
    (s.requests i).taken = 1 ∧ (s.requests i).released = 0 := by
  have hi := h.accounted i
  have htaken := hi.taken
  have honce := hi.once
  rw [howner] at htaken
  simp only [Option.isSome_some, if_true] at htaken
  omega

theorem Inv.released_of_none (h : Inv maximum limit s) (howner : s.owners.get? i = none) :
    (s.requests i).released = (s.requests i).taken := by
  have htaken := (h.accounted i).taken
  rw [howner] at htaken
  simpa using htaken.symm

theorem Inv.take (h : Inv maximum limit s) (howner : s.owners.get? i = none) (hcallback : (s.requests i).callback = none)
    (htaken : (s.requests i).taken = 0) (hfree : s.slots.locked = false) (hlimit : s.slots.active.count key < limit) :
    Inv maximum limit (s.take i key (s.slots.active.count key + 1)) ∧
      Concerns i s (s.take i key (s.slots.active.count key + 1)) ∧
      (s.take i key (s.slots.active.count key + 1)).owners.get? i = some key ∧
      (s.take i key (s.slots.active.count key + 1)).requests i = { s.requests i with taken := 1 } := by
  have hconcerns : Concerns i s (s.take i key (s.slots.active.count key + 1)) :=
    fun j hj => ⟨by simp [Listener.take, update, hj], by simp [Listener.take, Dict.get?_set, hj]⟩
  have hget : (s.owners.set i key).get? i = some key := by simp [Dict.get?_set]
  have hreleased := h.released_of_none howner
  have hi : (s.take i key (s.slots.active.count key + 1)).requests i = { s.requests i with taken := 1 } := by
    simp [Listener.take, update, htaken]
  refine ⟨h.of_concerns hconcerns (h.sound.take hfree hlimit howner) rfl ?_, hconcerns, hget, hi⟩
  rw [hi, show (s.take i key (s.slots.active.count key + 1)).owners.get? i = some key from hget]
  exact ⟨by simp [hcallback], by simp [hreleased, htaken], Nat.le_refl 1, by simp [hreleased, htaken]⟩

/-- A release finds the accounting consistent. -/
theorem Inv.release (h : Inv maximum limit s) (howner : s.owners.get? i = some key)
    (hidle : (s.requests i).worker ≠ .running) :
    (s.release i key).1 = .ok () ∧ Inv maximum limit (s.release i key).2 ∧ Concerns i s (s.release i key).2 ∧
      (s.release i key).2.owners.get? i = none ∧
      (s.release i key).2.requests i = { s.requests i with callback := none, released := 1 } := by
  obtain ⟨slots, hrelease, hsound⟩ := h.sound.release howner
  have hi := h.accounted i
  obtain ⟨htaken, hzero⟩ := h.released_of_owner howner
  unfold Listener.release
  rw [hrelease]
  have hget : (s.owners.erase i).get? i = none := by simp [Dict.get?_erase]
  have hconcerns : Concerns i s { s.update i fun r => { r with callback := none, released := r.released + 1 } with
      slots := slots, owners := s.owners.erase i } :=
    fun j hj => ⟨by simp [update, hj], by simp [Dict.get?_erase, hj]⟩
  refine ⟨rfl, h.of_concerns hconcerns hsound rfl ?_, hconcerns, hget, ?_⟩
  · simp only [update_self, hget]
    exact ⟨(fun _ h => by cases h), by simp [htaken, hzero], hi.once, fun _ => hidle⟩
  · simp [update_self, hzero]

end Listener

end NorthgateRmm.Server
