import NorthgateRmm.Agent.Spool.Queue

/-!
# The sequence store

`sequence.Store` reserves message sequence numbers for the current boot. The
state file is replaced by a rename of a synced staging file, and a number is
handed out only after the directory was synced. The operations are programs of
file-system steps; a store runs one of them at a time, under its mutex.
-/

namespace NorthgateRmm.Agent.Sequence

open CrashFs Sha256
open Spool (ContextError)

def schemaVersion : Nat := 1
def maxStateBytes : Nat := 512

/-- `math.MaxInt64`. -/
def maxSequence : Nat := 2 ^ 63 - 1

/-! ## The state file -/

/-- A state that `decodeState` accepts. -/
structure State where
  boot : Uuid
  last : Nat
  canonical : boot.matchesPattern = true
  last_pos : 1 ≤ last
  last_le : last ≤ maxSequence
  deriving DecidableEq

/-- `stateDigest`. -/
def stateDigest (boot : Uuid) (sequence : Nat) : String :=
  sha256Hex ("northgate-rmm-sequence-v1\x00".toUTF8.toList ++ boot.toText.toUTF8.toList ++ beBytes 8 sequence)

namespace State

/-- The JSON text that `json.Marshal` writes. -/
def json (st : State) : List Char :=
  "\x7b\"schema_version\":".toList ++ Nat.toDigits 10 schemaVersion ++
    ",\"boot_id\":\"".toList ++ st.boot.toText.toList ++
    "\",\"last_sequence\":".toList ++ Nat.toDigits 10 st.last ++
    ",\"sha256\":\"".toList ++ (stateDigest st.boot st.last).toList ++ "\"\x7d".toList

/-- The number of bytes of the text. -/
def size (st : State) : Nat := 162 + (Nat.toDigits 10 st.last).length

theorem length_json (st : State) : st.json.length = st.size := by
  have hd : (stateDigest st.boot st.last).toList.length = 64 := by rw [stateDigest, length_sha256Hex]
  have hid : st.boot.toText.toList.length = 36 := by rw [String.length_toList, Uuid.length_toText]
  have hv : (Nat.toDigits 10 schemaVersion).length = 1 := rfl
  have hsize : st.size = 162 + (Nat.toDigits 10 st.last).length := rfl
  have hkeys : "\x7b\"schema_version\":".length = 18 ∧ ",\"boot_id\":\"".length = 12 ∧
      "\",\"last_sequence\":".length = 18 ∧ ",\"sha256\":\"".length = 11 ∧ "\"\x7d".length = 2 := by
    decide
  unfold json
  simp only [List.length_append, hd, hid, hv, String.length_toList]
  omega

/-- The text always fits: `Reserve` never fails to encode. -/
theorem size_le (st : State) : 1 ≤ st.size ∧ st.size ≤ maxStateBytes := by
  have hl : (Nat.toDigits 10 st.last).length ≤ 19 :=
    Nat.toDigits_length 10 st.last 19 (by decide) (Nat.lt_of_le_of_lt st.last_le (by decide))
  rw [size, maxStateBytes]
  omega

end State

/-- What a file holds, as far as `decodeState` can tell. -/
inductive Content
  | blank
  | state (st : State)
  | other (size : Nat)
  deriving DecidableEq

/-- `info.Size()`. -/
def Content.size : Content → Nat
  | blank => 0
  | state st => st.size
  | other n => n

/-! ## The directory -/

inductive Place
  | parent
  | root
  deriving DecidableEq, Repr

/-- The names: the store's directory in its parent; `.lock`, `state.json` and
`state.tmp` in the store. -/
inductive Name
  | store
  | lock
  | state
  | temporary
  deriving DecidableEq, Repr

inductive Error
  | closed
  | corrupt
  | locked
  | context (e : ContextError)
  /-- `ReserveUncertainError` -/
  | uncertain (boot : Uuid) (sequence : Nat)
  | failed (message : String)
  /-- `cause` joined with the error of removing the staging file -/
  | uncleaned (cause : Error)
  deriving DecidableEq, Repr

def exhausted : Error := .failed "sequence space is exhausted for the current boot"

abbrev Disk := Fs Place Name Content

abbrev Step (α : Type) : Type 1 := Prog (CrashFs.Op Place Name Content) Error α

/-- What `readLocked` lets pass in the directory. -/
def entryOk (s : Disk) : Name × Nat → Bool
  | (.lock, i) => (s.files i).size == 0
  | (.state, _) => true
  | _ => false

def readLocked (s : Disk) : Except Error (Option State) :=
  let entries := (s.dirs .root).visible.entries.map fun e => (e.1, e.2)
  if 2 < entries.length then .error .corrupt
  else if !entries.all (entryOk s) then .error .corrupt
  else match s.image .root .state with
    | none => .ok none
    | some i =>
      if (s.files i).size < 1 ∨ maxStateBytes < (s.files i).size then .error .corrupt
      else match s.files i with
        | .state st => .ok (some st)
        | _ => .error .corrupt

/-! ## Reserve -/

/-- The number after the state that was found. -/
def nextSequence (boot : Uuid) : Option State → Nat
  | some st => if st.boot = boot then st.last + 1 else 1
  | none => 1

/-- The staging file is written, synced, closed and renamed. -/
def stage (file : Nat) (st : State) : Step Unit := do
  step (.write file (.state st)) (.failed "write sequence staging file")
  step (.fsync file) (.failed "sync sequence staging file")
  step .touch (.failed "protect sequence staging file")
  step .touch (.failed "close sequence staging file")
  step (.rename .root .temporary .state) (.failed "publish sequence state")

/-- The deferred removal of the staging file after a failure with `cause`. -/
def cleanUp (cause : Error) : Step Nat := do
  let removed ← Prog.call (.remove .root .temporary)
  if gone removed then
    match ← Prog.call (.syncDir .root) with
    | .ok () => .fail cause
    | .error _ => .fail (.uncleaned cause)
  else .fail (.uncleaned cause)

def publish (st : State) : Step Nat := do
  match ← Prog.call (.create .root .temporary .blank) with
  | .error .exist => .fail .corrupt
  | .error _ => .fail (.failed "create sequence staging file")
  | .ok file =>
    match ← (stage file st).attempt with
    | .error cause => cleanUp cause
    | .ok () =>
      step (.syncDir .root) (.uncertain st.boot st.last)
      pure st.last

/-- `reserveLocked`. The space is exhausted exactly when the next number is past
`maxSequence`. -/
def reserveLocked (closed : Bool) (ctx : Option ContextError) (boot : Uuid) : Step Nat := do
  Prog.require (!closed) .closed
  match ctx with
  | some e => .fail (.context e)
  | none =>
    if hb : boot.matchesPattern = true then
      let current ← read readLocked (.failed "list sequence directory")
      if hn : 1 ≤ nextSequence boot current ∧ nextSequence boot current ≤ maxSequence then
        let state : State := ⟨boot, nextSequence boot current, hb, hn.1, hn.2⟩
        Prog.require (state.size ≤ maxStateBytes) (.failed "encode sequence state")
        publish state
      else .fail exhausted
    else .fail (.failed "boot ID must be a canonical lowercase UUID")

theorem nextSequence_pos (boot : Uuid) (current : Option State) : 1 ≤ nextSequence boot current := by
  cases current with
  | none => exact Nat.le_refl 1
  | some st =>
    rw [nextSequence]
    split
    · exact Nat.le_add_left 1 st.last
    · exact Nat.le_refl 1

/-! ## Open -/

def present (d : Place) (n : Name) (s : Disk) : Bool := (s.image d n).isSome

def lockSize (s : Disk) : Nat := ((s.image .root .lock).map fun i => (s.files i).size).getD 0

/-- `held`: another open store has the lock. -/
def acquireDirectoryLock (held : Bool) : Step Unit := do
  let found ← step (.look (present .root .lock)) (.failed "open lock")
  Prog.ifNot found do
    let _ ← step (.create .root .lock .blank) (.failed "open lock")
  let size ← step (.look lockSize) .corrupt
  Prog.require (size == 0) .corrupt
  step .touch (.failed "lock")
  Prog.require (!held) .locked

/-- `sequence.Open`, from the inspection of the directory on. The parent is synced
only by the call that creates the directory. -/
def openStore (held : Bool) : Step Unit := do
  let found ← step (.look (present .parent .store)) (.failed "inspect sequence directory")
  Prog.ifNot found do
    step (.mkdir .parent .store .root) (.failed "create sequence directory")
    step (.syncDir .parent) (.failed "sync sequence parent")
    step .touch (.failed "protect sequence directory")
  acquireDirectoryLock held
  step (.syncDir .root) (.failed "sync sequence directory")
  let _ ← read readLocked (.failed "list sequence directory")
  pure ()

end NorthgateRmm.Agent.Sequence
