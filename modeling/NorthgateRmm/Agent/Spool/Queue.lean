import NorthgateRmm.Agent.Spool.Record
import NorthgateRmm.Lib.CrashProg

/-!
# The spool queue

The operations of `spool.Queue` as programs of file-system steps. Every
operation runs under the queue's mutex, so one program runs at a time. Steps
that only read are taken together as one `look`, whose failure is reported as
the operation reports a failed read; everything that changes a directory or a
file is a step of its own, in the order of the source.
-/

namespace NorthgateRmm.Agent.Spool

open CrashFs

/-- The directories: the spool directory, its parent and its two subdirectories. -/
inductive Place
  | parent
  | root
  | rejected
  | rollover
  deriving DecidableEq, Repr

/-- The names: the spool directory in its parent; the lock file, the
subdirectories, `<id>.json` and `<id>.tmp` in the spool. -/
inductive Name
  | spool
  | lock
  | rejected
  | rollover
  | record (id : Uuid)
  | staging (id : Uuid)
  deriving DecidableEq, Repr

inductive ContextError
  | canceled
  | deadlineExceeded
  deriving DecidableEq, Repr

inductive Error
  | closed
  | corrupt
  | duplicate
  | locked
  | quotaExceeded
  | context (e : ContextError)
  | commitUncertain (id : Uuid)
  | acknowledgeUncertain (id : Uuid)
  | quarantineUncertain (id : Uuid)
  | failed (message : String)
  /-- `cause` joined with the error of removing the staging file -/
  | uncleaned (cause : Error)
  /-- the run-time panic of reading past the end of a slice -/
  | indexOutOfRange
  deriving DecidableEq, Repr

variable {P : Type} [Payload P]

abbrev Disk (P : Type) [Payload P] := Fs Place Name (Content P)

abbrev Step (P : Type) [Payload P] (α : Type) : Type 1 :=
  Prog (CrashFs.Op Place Name (Content P)) Error α

structure Metadata where
  id : Uuid
  order : Nat
  size : Nat
  deriving DecidableEq, Repr

structure Queue where
  maxBytes : Nat
  closed : Bool := false
  deriving DecidableEq, Repr

/-! ## Reading the directories -/

def entriesOf (s : Disk P) (d : Place) : List (Name × Nat) :=
  (s.dirs d).visible.entries.map fun e => (e.1, e.2)

/-- The common loop of `rejectedUsageLocked` and `rolloverUsageLocked`; only the
former has a byte quota. -/
def scanRecords (files : Nat → Content P) (quota : Option Nat) :
    List (Name × Nat) → Nat → List Metadata → Except Error (Nat × List Metadata)
  | [], total, records => .ok (total, records)
  | (.record id, i) :: rest, total, records =>
    if !id.matchesPattern then .error .corrupt
    else if (files i).size < 1 ∨ maxRecordBytes < (files i).size then .error .corrupt
    else match readRecordItem id (files i) with
      | none => .error .corrupt
      | some item =>
        if item.order ∈ records.map (·.order) then .error .corrupt
        else if quota.any fun maxBytes => maxBytes < total + (files i).size then .error .quotaExceeded
        else scanRecords files quota rest (total + (files i).size)
          (records ++ [⟨id, item.order, (files i).size⟩])
  | _ :: _, _, _ => .error .corrupt

/-- The loop of `inventoryLocked` over the active records; `taken` are the
orders of the other two directories. -/
def scanActive (files : Nat → Content P) (maxBytes : Nat) (taken : List Nat) :
    List (Name × Nat) → Nat → List Metadata → Except Error (Nat × List Metadata)
  | [], total, records => .ok (total, records)
  | (.record id, i) :: rest, total, records =>
    if !id.matchesPattern then .error .corrupt
    else if (files i).size < 1 ∨ maxRecordBytes < (files i).size then .error .corrupt
    else if maxBytes < total + (files i).size then .error .quotaExceeded
    else match readRecordItem id (files i) with
      | none => .error .corrupt
      | some item =>
        if item.order ∈ taken then .error .corrupt
        else scanActive files maxBytes taken rest (total + (files i).size)
          (records ++ [⟨id, item.order, (files i).size⟩])
  | _ :: _, _, _ => .error .corrupt

def maxOrder (records : List Metadata) : Nat := records.foldl (fun m r => max m r.order) 0

/-- `sort.Slice` by order. -/
def sortByOrder (records : List Metadata) : List Metadata :=
  records.insertionSort fun a b => a.order ≤ b.order

/-- The names that `inventoryLocked` does not skip. -/
def Name.isData : Name → Bool
  | lock | rejected | rollover => false
  | _ => true

namespace Queue

variable (q : Queue)

def rejectedUsage (s : Disk P) : Except Error (Nat × List Metadata) :=
  if maxRejectedEntries < (entriesOf s .rejected).length then .error .quotaExceeded
  else scanRecords s.files (some q.maxBytes) (entriesOf s .rejected) 0 []

def rolloverUsage (s : Disk P) : Except Error (List Metadata) :=
  if maxRejectedEntries < (entriesOf s .rollover).length then .error .quotaExceeded
  else match scanRecords s.files none (entriesOf s .rollover) 0 [] with
    | .ok (_, records) => .ok records
    | .error e => .error e

/-- What `inventoryLocked` returns; the records are in ascending order. -/
structure Inventory where
  total : Nat
  records : List Metadata
  lastOrder : Nat
  entryCount : Nat

def inventory (s : Disk P) : Except Error Inventory :=
  if maxEntries + 3 < (entriesOf s .root).length then .error .quotaExceeded
  else match q.rejectedUsage s with
    | .error e => .error e
    | .ok (_, rejected) => match rolloverUsage s with
      | .error e => .error e
      | .ok rollover =>
        let dataEntries := (entriesOf s .root).filter (·.1.isData)
        if rejected.any fun r => r.order ∈ rollover.map (·.order) then .error .corrupt
        else if maxEntries < dataEntries.length then .error .quotaExceeded
        else match scanActive s.files q.maxBytes ((rejected ++ rollover).map (·.order)) dataEntries 0 [] with
          | .error e => .error e
          | .ok (total, found) =>
            let records := sortByOrder found
            if ¬ (records.map (·.order)).IsChain (· ≠ ·) then .error .corrupt
            else .ok {
              total, records
              lastOrder := max (max (maxOrder rejected) (maxOrder rollover))
                ((records.getLast?.map (·.order)).getD 0)
              entryCount := dataEntries.length }

/-- `readRecordItem` on the file of a directory. -/
def readItem (d : Place) (id : Uuid) (s : Disk P) : Except Error (Record P) :=
  match s.image d (.record id) with
  | none => .error (.failed "open spool item")
  | some i => match readRecordItem id (s.files i) with
    | none => .error .corrupt
    | some r => .ok r

def ready (ctx : Option ContextError) : Step P Unit := do
  Prog.require (!q.closed) .closed
  match ctx with
  | none => pure ()
  | some e => .fail (.context e)

def present (d : Place) (n : Name) (s : Disk P) : Bool := (s.image d n).isSome

/-! ## Enqueue -/

/-- The staging file is written, synced, closed and linked to its final name. -/
def stage (file : Nat) (item : Record P) : Step P Unit := do
  step (.write file (.record item)) (.failed "write spool item")
  step (.fsync file) (.failed "sync spool item")
  step .touch (.failed "close spool item")
  match ← Prog.call (.link .root (.staging item.id) .root (.record item.id)) with
  | .ok () => pure ()
  | .error _ =>
    match ← Prog.call (.look (present .root (.record item.id))) with
    | .ok true => .fail .duplicate
    | _ => .fail (.failed "publish spool item")

/-- The deferred removal of the staging file after a failure with `cause`. -/
def cleanUp (id : Uuid) (cause : Error) : Step P Unit := do
  match ← Prog.call (.remove .root (.staging id)) with
  | .error _ => .fail (.uncleaned cause)
  | .ok () =>
    match ← Prog.call (.syncDir .root) with
    | .error _ => .fail (.uncleaned cause)
    | .ok () => .fail cause

def rollbackPublished (id : Uuid) (temporary : Bool) (cause : Error) : Step P Unit := do
  let removeFinal ← Prog.call (.remove .root (.record id))
  let removeTemporary ← if temporary then Prog.call (.remove .root (.staging id)) else pure (.ok ())
  let sync ← Prog.call (.syncDir .root)
  if gone removeFinal && gone removeTemporary && sync.isOk then .fail cause
  else .fail (.commitUncertain id)

/-- The published record loses its staging name and becomes durable. -/
def commit (id : Uuid) : Step P Unit := do
  match ← Prog.call (.remove .root (.staging id)) with
  | .error _ => rollbackPublished id true (.failed "remove temporary spool item")
  | .ok () =>
    match ← Prog.call (.syncDir .root) with
    | .error _ => rollbackPublished id false (.failed "sync spool directory")
    | .ok () => pure ()

def publish (item : Record P) : Step P Unit := do
  let file ← step (.create .root (.staging item.id) .blank) (.failed "create temporary spool item")
  match ← (stage file item).attempt with
  | .error cause => cleanUp item.id cause
  | .ok () => commit item.id

def enqueue (ctx : Option ContextError) (id : Uuid) (payload : P) (now : UtcTime) : Step P Unit := do
  q.ready ctx
  Prog.require id.matchesPattern (.failed "spool ID must be a canonical lowercase UUID")
  if hp : 0 < (Payload.bytes payload).length ∧ (Payload.bytes payload).length ≤ maxPayloadBytes then
    let found ← step (.look (present .root (.record id))) (.failed "inspect spool item")
    Prog.require (!found) .duplicate
    let inv ← read q.inventory (.failed "list spool")
    Prog.require (inv.entryCount < maxEntries) .quotaExceeded
    if ho : inv.lastOrder + 1 < 2 ^ 64 then
      let item : Record P :=
        ⟨id, inv.lastOrder + 1, now, payload, Nat.succ_pos _, ho, hp.1, hp.2⟩
      Prog.require (inv.total + item.size ≤ q.maxBytes) .quotaExceeded
      publish item
    else .fail (.failed "spool order is exhausted")
  else .fail (.failed "spool payload is empty or exceeds size limit")

/-! ## Reading and acknowledging -/

/-- `Queue.Read`. -/
def readPayload (ctx : Option ContextError) (id : Uuid) : Step P P := do
  q.ready ctx
  Prog.require id.matchesPattern (.failed "spool ID must be a canonical lowercase UUID")
  let item ← read (readItem .root id) (.failed "read spool item")
  pure item.payload

def listIds (ctx : Option ContextError) : Step P (List Uuid) := do
  q.ready ctx
  let inv ← read q.inventory (.failed "list spool")
  pure (inv.records.map (·.id))

def listRolloverIds (ctx : Option ContextError) : Step P (List Uuid) := do
  q.ready ctx
  let records ← read rolloverUsage .corrupt
  pure ((sortByOrder records).map (·.id))

def acknowledge (ctx : Option ContextError) (id : Uuid) : Step P Unit := do
  q.ready ctx
  Prog.require id.matchesPattern (.failed "spool ID must be a canonical lowercase UUID")
  step (.remove .root (.record id)) (.failed "remove spool item")
  step (.syncDir .root) (.acknowledgeUncertain id)

def acknowledgeRollover (ctx : Option ContextError) (id : Uuid) : Step P Unit := do
  q.ready ctx
  Prog.require id.matchesPattern (.failed "rollover ID must be a canonical lowercase UUID")
  let _ ← read (readItem .rollover id) (.failed "read spool item")
  step (.remove .rollover (.record id)) (.failed "remove audited rollover record")
  step (.syncDir .rollover) (.acknowledgeUncertain id)

/-! ## Quarantine -/

/-- The loop that selects the oldest rejected records until the incoming one
fits. -/
def selectOldest (inRollover : Uuid → Bool) (maxBytes incoming : Nat) :
    Nat → List Metadata → Except Error (List Metadata)
  | total, [] =>
    if maxRejectedEntries ≤ 0 ∨ maxBytes < total + incoming then .error .indexOutOfRange else .ok []
  | total, oldest :: rest =>
    if maxRejectedEntries ≤ (oldest :: rest).length ∨ maxBytes < total + incoming then
      if inRollover oldest.id then .error .corrupt
      else match selectOldest inRollover maxBytes incoming (total - oldest.size) rest with
        | .error e => .error e
        | .ok more => .ok (oldest :: more)
    else .ok []

def toRollover (incoming : Nat) (s : Disk P) : Except Error (List Metadata) :=
  match q.rejectedUsage s with
  | .error e => .error e
  | .ok (total, records) =>
    if q.maxBytes < incoming then .error .quotaExceeded
    else selectOldest (fun id => present .rollover (.record id) s) q.maxBytes incoming total
      (sortByOrder records)

/-- The hard-link move of the selected records, and their IDs; `last` is the ID
reported when a directory cannot be synced. -/
def evict (selected : List Metadata) (last : Uuid) : Step P (List Uuid) := do
  Prog.forEach (fun m => step (.link .rejected (.record m.id) .rollover (.record m.id))
    (.quarantineUncertain m.id)) selected
  step (.syncDir .rollover) (.quarantineUncertain last)
  Prog.forEach (fun m => step (.remove .rejected (.record m.id)) (.quarantineUncertain m.id)) selected
  step (.syncDir .rejected) (.quarantineUncertain last)
  pure (selected.map (·.id))

def makeRejectedRoom (incoming : Nat) : Step P (List Uuid) := do
  match ← read (q.toRollover incoming) .corrupt with
  | [] => pure []
  | oldest :: more => evict (oldest :: more) ((oldest :: more).getLast (List.cons_ne_nil _ _)).id

def moveToRejected (id : Uuid) : Step P Unit := do
  step (.link .root (.record id) .rejected (.record id)) (.failed "quarantine spool item")
  step (.syncDir .rejected) (.quarantineUncertain id)
  step (.remove .root (.record id)) (.quarantineUncertain id)
  step (.syncDir .root) (.quarantineUncertain id)

/-- The `Lstat` of the record to be moved. -/
def recordSize (id : Uuid) (s : Disk P) : Except Error Nat :=
  match s.image .root (.record id) with
  | none => .error .corrupt
  | some i =>
    if (s.files i).size < 1 ∨ maxRecordBytes < (s.files i).size then .error .corrupt
    else .ok (s.files i).size

/-- What `Quarantine` returns besides an early error: the evicted IDs, and the
error of the move itself. A failure before the move returns no IDs. -/
structure QuarantineResult where
  evictedIds : List Uuid
  outcome : Except Error Unit

def quarantine (ctx : Option ContextError) (id : Uuid) : Step P QuarantineResult := do
  q.ready ctx
  Prog.require id.matchesPattern (.failed "spool ID must be a canonical lowercase UUID")
  let _ ← read (readItem .root id) (.failed "read spool item")
  let there ← step (.look (present .rejected (.record id))) (.failed "inspect rejected spool item")
  Prog.require (!there) .duplicate
  let size ← read (recordSize id) .corrupt
  let evictedIds ← q.makeRejectedRoom size
  let outcome ← (moveToRejected id).attempt
  pure ⟨evictedIds, outcome⟩

/-! ## Open -/

/-- The records that are linked in both directories; two different files under
one ID are an integrity error. -/
def interrupted (source destination : Place) (s : Disk P) : List Metadata → Except Error (List Uuid)
  | [] => .ok []
  | item :: rest =>
    match s.image source (.record item.id) with
    | none => interrupted source destination s rest
    | some i =>
      if s.image destination (.record item.id) = some i then
        match interrupted source destination s rest with
        | .error e => .error e
        | .ok ids => .ok (item.id :: ids)
      else .error .corrupt

/-- The common body of the two recovery functions. `blame` is the ID reported
when the destination cannot be synced. -/
def recoverLinks (source destination : Place) (usage : Disk P → Except Error (List Metadata))
    (blame : List Metadata → Uuid → Uuid) : Step P Unit := do
  let (records, removeSource) ← read (fun s =>
    match usage s with
    | .error e => .error e
    | .ok records => match interrupted source destination s records with
      | .error e => .error e
      | .ok ids => .ok (records, ids)) .corrupt
  match removeSource with
  | [] => pure ()
  | first :: more =>
    let last := (first :: more).getLast (List.cons_ne_nil _ _)
    step (.syncDir destination) (.quarantineUncertain (blame records first))
    Prog.forEach (fun id => step (.remove source (.record id)) (.quarantineUncertain id)) (first :: more)
    step (.syncDir source) (.quarantineUncertain last)

def recoverRolloverLinks : Step P Unit :=
  recoverLinks .rejected .rollover rolloverUsage fun records first => (records.head?.map (·.id)).getD first

def recoverQuarantineLinks : Step P Unit :=
  recoverLinks .root .rejected (fun s => (q.rejectedUsage s).map (·.2)) fun _ first => first

/-- The common body of `openRejected` and `openRollover`. -/
def openSubdirectory (name : Name) (place : Place) (label : String) : Step P Unit := do
  let found ← step (.look (present .root name)) (.failed ("inspect " ++ label ++ " spool directory"))
  Prog.ifNot found do
    step (.mkdir .root name place) (.failed ("create " ++ label ++ " spool directory"))
    step (.syncDir .root) (.failed ("sync spool after " ++ label ++ " directory creation"))
  step .touch (.failed ("protect " ++ label ++ " spool directory"))

def openRejected : Step P Unit := openSubdirectory .rejected .rejected "rejected"

def openRollover : Step P Unit := openSubdirectory .rollover .rollover "rollover"

def lockSize (s : Disk P) : Nat := ((s.image .root .lock).map fun i => (s.files i).size).getD 0

/-- `held`: another open queue has the lock. -/
def acquireDirectoryLock (held : Bool) : Step P Unit := do
  let found ← step (.look (present .root .lock)) (.failed "open lock")
  Prog.ifNot found do
    let _ ← step (.create .root .lock .blank) (.failed "open lock")
  let size ← step (.look lockSize) .corrupt
  Prog.require (size == 0) .corrupt
  step .touch (.failed "protect lock")
  Prog.require (!held) .locked

/-- `spool.Open`, from the check of the quota on. -/
def openQueue (maxBytes : Nat) (held : Bool) : Step P Queue := do
  Prog.require (maxRecordBytes ≤ maxBytes) (.failed "spool quota is too small")
  let found ← step (.look (present .parent .spool)) (.failed "inspect spool directory")
  Prog.ifNot found do
    step (.mkdir .parent .spool .root) (.failed "create spool directory")
  step .touch (.failed "protect spool directory")
  step (.syncDir .parent) (.failed "sync spool parent")
  acquireDirectoryLock held
  openRejected
  openRollover
  step (.syncDir .root) (.failed "sync spool directory")
  let queue : Queue := { maxBytes }
  recoverRolloverLinks
  queue.recoverQuarantineLinks
  let _ ← read queue.inventory (.failed "list spool")
  pure queue

end Queue

end NorthgateRmm.Agent.Spool
