import NorthgateRmm.Lib.GoPath
import NorthgateRmm.Agent.Identity.Material
import NorthgateRmm.Lib.Dict
import NorthgateRmm.Lib.Prog

/-!
# The identity store

`Install` and `Load` of `identity/store.go` as programs of file-system calls, on the
directory of the store and its parent. Each call is one step and may fail, whatever the
state; it then changes nothing, apart from a write, which may have written a part.
`directorySync` changes nothing that is modelled here and is one call.
-/

namespace NorthgateRmm.Agent.Identity

open Prog (call require orFail)
open Protocol (Time)

def bundleName : String := "identity.json"
def temporaryName : String := "identity.tmp"

/-! ## File-system calls -/

inductive Kind where
  | regular
  | directory
  | symlink
  | other
  deriving DecidableEq

/-- What `errors.Is` tells about a failed call. -/
inductive Errno where
  | exist
  | notExist
  | other
  deriving DecidableEq

/-- `fs.FileInfo`, with the identity that `os.SameFile` compares. -/
structure Info where
  ino : Nat
  kind : Kind
  perm : Nat
  uid : Nat
  nlink : Nat
  size : Nat
  deriving DecidableEq

/-- File-system calls; `ι` are the runs of `Install`, of which a new file remembers its own. -/
inductive Call (ι : Type) : Type → Type
  | lstatParent : Call ι Info
  | openParent : Call ι Unit
  | statParent : Call ι Info
  | lstatBase : Call ι Info
  | mkdirBase (uid perm : Nat) : Call ι Unit
  | openRoot : Call ι Unit
  | statRoot : Call ι Info
  | chmodRoot (perm : Nat) : Call ι Unit
  | readDir (n : Nat) : Call ι (List String)
  /-- `OpenFile` with `O_CREATE|O_EXCL` -/
  | create (who : ι) (uid : Nat) (name : String) (perm : Nat) : Call ι Nat
  | write (file : Nat) (raw : Bytes) : Call ι Nat
  | sync (file : Nat) : Call ι Unit
  | chmod (file : Nat) (perm : Nat) : Call ι Unit
  | close (file : Nat) : Call ι Unit
  | link (old new : String) : Call ι Unit
  | remove (name : String) : Call ι Unit
  | stat (name : String) : Call ι Info
  | lstat (name : String) : Call ι Info
  | open (name : String) : Call ι Nat
  | fstat (file : Nat) : Call ι Info
  | read (file limit : Nat) : Call ι Bytes
  | syncParent : Call ι Unit
  | syncRoot : Call ι Unit

inductive Op (ι : Type) : Type → Type 1
  | run {α : Type} (call : Call ι α) : Op ι (Except Errno α)

/-! ## The disk -/

/-- A directory, or what stands in its place. -/
structure Node where
  ino : Nat
  kind : Kind
  perm : Nat
  uid : Nat

def Node.info (node : Node) : Info := ⟨node.ino, node.kind, node.perm, node.uid, 1, 0⟩

structure File (ι : Type) where
  kind : Kind
  perm : Nat
  uid : Nat
  nlink : Nat
  content : Bytes
  /-- the run that made it; nothing reads this -/
  creator : Option ι

def File.info {ι : Type} (file : File ι) (ino : Nat) : Info :=
  ⟨ino, file.kind, file.perm, file.uid, file.nlink, file.content.length⟩

/-- The parent, the directory of the store, its entries and the files. -/
structure Disk (ι : Type) where
  parent : Option Node
  base : Option Node
  entries : Dict String Nat
  files : Nat → Option (File ι)

/-- What is left open about a call: whether it fails, how much a write writes, what the
umask leaves, and which number a new file gets. -/
structure Choice where
  fails : Bool
  short : Option Nat
  mask : Nat
  fresh : Nat

/-- Every call does what it is asked for. -/
def calm : Choice := ⟨false, none, 0o777, 0⟩

namespace Disk

variable {ι : Type}

def found {α : Type} (value : Option α) : Except Errno α :=
  match value with
  | some a => .ok a
  | none => .error .notExist

/-- The file that a name stands for. -/
def named (s : Disk ι) (name : String) : Option (Nat × File ι) :=
  (s.entries.get? name).bind fun ino => (s.files ino).map fun file => (ino, file)

def setFile (s : Disk ι) (ino : Nat) (change : File ι → File ι) : Disk ι :=
  { s with files := Function.update s.files ino ((s.files ino).map change) }

def newFile (s : Disk ι) (name : String) (ino : Nat) (file : File ι) : Disk ι :=
  { s with entries := s.entries.set name ino, files := Function.update s.files ino (some file) }

/-- What a call answers and does when it does not fail. -/
def perform (c : Choice) : {α : Type} → Call ι α → Disk ι → Except Errno α × Disk ι
  | _, .lstatParent, s => (found (s.parent.map Node.info), s)
  | _, .openParent, s => (found (s.parent.map fun _ => ()), s)
  | _, .statParent, s => (found (s.parent.map Node.info), s)
  | _, .lstatBase, s => (found (s.base.map Node.info), s)
  | _, .mkdirBase uid perm, s =>
    if s.base.isSome then (.error .exist, s)
    else (.ok (), { s with base := some ⟨c.fresh, .directory, perm &&& c.mask, uid⟩ })
  | _, .openRoot, s => (found (s.base.map fun _ => ()), s)
  | _, .statRoot, s => (found (s.base.map Node.info), s)
  | _, .chmodRoot perm, s => (found (s.base.map fun _ => ()), { s with base := s.base.map fun node => { node with perm } })
  | _, .readDir n, s => (.ok ((s.entries.entries.take n).map Prod.fst), s)
  | _, .create who uid name perm, s =>
    if (s.entries.get? name).isSome then (.error .exist, s)
    -- a number that is in use: there is none to be had
    else if (s.files c.fresh).isSome || s.entries.values.contains c.fresh then (.error .other, s)
    else (.ok c.fresh, s.newFile name c.fresh ⟨.regular, perm &&& c.mask, uid, 1, [], some who⟩)
  | _, .write file raw, s =>
    let written := c.short.getD raw.length
    (.ok (raw.take written).length, s.setFile file fun f => { f with content := f.content ++ raw.take written })
  | _, .sync _, s => (.ok (), s)
  | _, .chmod file perm, s => (.ok (), s.setFile file fun f => { f with perm })
  | _, .close _, s => (.ok (), s)
  | _, .link old new, s =>
    match s.entries.get? old with
    | none => (.error .notExist, s)
    | some ino =>
      if (s.entries.get? new).isSome then (.error .exist, s)
      else (.ok (), { s.setFile ino fun f => { f with nlink := f.nlink + 1 } with entries := s.entries.set new ino })
  | _, .remove name, s =>
    match s.entries.get? name with
    | none => (.error .notExist, s)
    | some ino =>
      (.ok (), { s.setFile ino fun f => { f with nlink := f.nlink - 1 } with entries := s.entries.erase name })
  | _, .stat name, s => (found ((s.named name).map fun f => f.2.info f.1), s)
  | _, .lstat name, s => (found ((s.named name).map fun f => f.2.info f.1), s)
  | _, .open name, s => (found ((s.named name).map Prod.fst), s)
  | _, .fstat file, s => (found ((s.files file).map fun f => f.info file), s)
  | _, .read file limit, s => (found ((s.files file).map fun f => f.content.take limit), s)
  | _, .syncParent, s => (.ok (), s)
  | _, .syncRoot, s => (.ok (), s)

/-- A call that fails; a write may have written a part. -/
def refuse (c : Choice) : {α : Type} → Call ι α → Disk ι → Disk ι
  | _, .write file raw, s => s.setFile file fun f => { f with content := f.content ++ raw.take (c.short.getD 0) }
  | _, _, s => s

def exec : {β : Type} → Choice → Op ι β → Disk ι → β × Disk ι
  | _, c, .run call, s => if c.fails then (.error .other, refuse c call s) else perform c call s

def machine : Machine (Op ι) (Disk ι) Choice := ⟨exec⟩

end Disk

/-! ## Opening the directory -/

inductive Error where
  | message (text : String)
  | wrapped (text : String) (cause : Errno)
  /-- `ErrExists` -/
  | alreadyExists
  /-- `ErrCorrupt` -/
  | corrupt
  /-- `errors.Join` of an error and a failure to clean up the staging file -/
  | joined (error cleanup : Error)
  /-- `InstallUncertainError` -/
  | uncertain (cause : Error) (failures : List Errno)
  deriving DecidableEq

abbrev Program (ι α : Type) := Prog (Op ι) Error α

section

variable {ι α : Type}

/-- A call whose failure the caller looks at. -/
def attempt (c : Call ι α) : Program ι (Except Errno α) := call (.run c)

/-- A call whose failure ends the program. -/
def ask (c : Call ι α) (e : Errno → Error) : Program ι α := do orFail (← attempt c) e

/-- The directory is a clean absolute path and not the root. -/
def validDirectory (directory : String) : Bool := GoPath.cleanNonRoot '/' '.' directory.toList

def privateDirectory (uid : Nat) (info : Info) : Bool := info.perm &&& 0o077 = 0 && info.uid = uid

def privateFile (uid : Nat) (info : Info) : Bool := info.perm &&& 0o077 = 0 && info.uid = uid && info.nlink = 1

/-- `parent.Lstat(base)`, with the directory made when there is none. -/
def inspectBase (uid : Nat) (create : Bool) : Program ι (Except Errno Info) := do
  match ← attempt .lstatBase with
  | .ok info => pure (.ok info)
  | .error e =>
    if e = .notExist ∧ create then do
      ask (.mkdirBase uid 0o700) (.wrapped "create endpoint identity directory")
      ask .syncParent (.wrapped "sync endpoint identity parent")
      attempt .lstatBase
    else if e = .notExist then .fail .corrupt
    else .fail (.wrapped "inspect endpoint identity directory" e)

/-- The last lines of `openStore`: the mode of the opened directory. -/
def protectRoot (uid : Nat) (create : Bool) (opened : Info) : Program ι Unit := do
  let notPrivate : Error := .message "endpoint identity directory permissions are not private"
  if create then do
    ask (.chmodRoot 0o700) (.wrapped "protect endpoint identity directory")
    let opened ← ask .statRoot fun _ => notPrivate
    require (privateDirectory uid opened) notPrivate
  else require (privateDirectory uid opened) notPrivate

def openStore (uid : Nat) (directory : String) (create : Bool) : Program ι Unit := do
  require (validDirectory directory) (.message "endpoint identity directory must be a non-root absolute clean path")
  let notReal : Error := .message "endpoint identity parent must be an existing real directory"
  let parentInfo ← ask .lstatParent fun _ => notReal
  require (parentInfo.kind = .directory) notReal
  ask .openParent (.wrapped "open endpoint identity parent")
  let parentChanged : Error := .message "endpoint identity parent changed while opening"
  let openedParentInfo ← ask .statParent fun _ => parentChanged
  require (parentInfo.ino = openedParentInfo.ino) parentChanged
  let noDirectory : Error := .message "endpoint identity path must be a real directory"
  let info ← orFail (← inspectBase uid create) fun _ => noDirectory
  require (info.kind = .directory) noDirectory
  ask .openRoot (.wrapped "open endpoint identity directory")
  let changed : Error := .message "endpoint identity directory changed while opening"
  let openedInfo ← ask .statRoot fun _ => changed
  require (info.ino = openedInfo.ino) changed
  protectRoot uid create openedInfo

def readEntries : Program ι (List String) := do
  let entries ← ask (.readDir 2) (.wrapped "list endpoint identity directory")
  require (entries.length ≤ 1) .corrupt
  pure entries

/-! ## `Load` -/

structure Loaded where
  endpointID : String
  certificate : KeyPair
  serverRoots : List Certificate
  deriving DecidableEq

/-- The bytes of the bundle. -/
def readBundle (uid : Nat) : Program ι Bytes := do
  let info ← ask (.lstat bundleName) fun _ => .corrupt
  require (info.kind = .regular && privateFile uid info && 1 ≤ info.size && info.size ≤ maxBundleBytes) .corrupt
  let file ← ask (.open bundleName) (.wrapped "open endpoint identity bundle")
  let openedInfo ← ask (.fstat file) fun _ => .corrupt
  require (info.ino = openedInfo.ino) .corrupt
  let raw ← ask (.read file (maxBundleBytes + 1)) (.wrapped "read endpoint identity bundle")
  require (raw.length ≤ maxBundleBytes) .corrupt
  pure raw

/-- What the bytes of a bundle are loaded as. -/
def loadBundle (crypto : Crypto) (now : Time) (raw : Bytes) : Except Error Loaded :=
  match decodeBundle raw with
  | none => .error .corrupt
  | some bundle =>
    match validateMaterial crypto bundle.material now with
    | .error _ => .error .corrupt
    | .ok (certificate, roots) => .ok ⟨bundle.endpointID, certificate, roots⟩

def load (crypto : Crypto) (uid : Nat) (directory : String) (now : Time) : Program ι Loaded := do
  openStore uid directory false
  match ← readEntries.attempt with
  | .ok [name] => do
    require (name = bundleName) .corrupt
    let raw ← readBundle uid
    orFail (loadBundle crypto now raw) id
  | _ => .fail .corrupt

/-! ## `Install` -/

/-- A step on the staging file, which is closed when it fails. -/
def onStaging (file : Nat) (c : Call ι Unit) (text : String) : Program ι Unit := do
  match ← attempt c with
  | .ok () => pure ()
  | .error e => do
    let _ ← attempt (.close file)
    .fail (.wrapped text e)

/-- From the first write up to the link. -/
def stage (raw : Bytes) (file : Nat) : Program ι Unit := do
  let writeFailed (e : Errno) : Program ι Unit := do
    let _ ← attempt (.close file)
    .fail (.wrapped "write endpoint identity staging file" e)
  match ← attempt (.write file raw) with
  | .error e => writeFailed e
  | .ok written =>
    -- `io.ErrShortWrite`
    if written ≠ raw.length then writeFailed .other
    else do
      onStaging file (.sync file) "sync endpoint identity staging file"
      onStaging file (.chmod file 0o600) "protect endpoint identity staging file"
      ask (.close file) (.wrapped "close endpoint identity staging file")
      match ← attempt (.link temporaryName bundleName) with
      | .ok () => pure ()
      | .error e =>
        match ← attempt (.stat bundleName) with
        | .ok _ => .fail .alreadyExists
        | .error _ => .fail (.wrapped "publish endpoint identity bundle" e)

/-- The deferred function, on the way out with `error`. -/
def cleanStaging (error : Error) : Program ι Unit := do
  let text := "clean endpoint identity staging file"
  match ← attempt (.remove temporaryName) with
  | .ok () | .error .notExist =>
    match ← attempt .syncRoot with
    | .ok () => .fail error
    | .error e => .fail (.joined error (.wrapped text e))
  | .error e => .fail (.joined error (.wrapped text e))

/-- The failure of a removal, which is none when there was nothing to remove. -/
def removal : Except Errno Unit → Option Errno
  | .ok () | .error .notExist => none
  | .error e => some e

def failure : Except Errno Unit → Option Errno
  | .ok () => none
  | .error e => some e

def rollbackPublished (removeTemporary : Bool) (cause : Error) : Program ι Unit := do
  let removeErr ← attempt (.remove bundleName)
  let removeTemporaryErr ← if removeTemporary then attempt (.remove temporaryName) else pure (.ok ())
  let rootSyncErr ← attempt .syncRoot
  let parentSyncErr ← attempt .syncParent
  match [removal removeErr, removal removeTemporaryErr, failure rootSyncErr, failure parentSyncErr].filterMap id with
  | [] => .fail cause
  | failures => .fail (.uncertain cause failures)

/-- After the link. -/
def settle : Program ι Unit := do
  match ← attempt (.remove temporaryName) with
  | .error e => rollbackPublished true (.wrapped "remove endpoint identity staging file" e)
  | .ok () =>
    match ← attempt .syncRoot with
    | .error e => rollbackPublished false (.wrapped "sync endpoint identity directory" e)
    | .ok () =>
      match ← attempt .syncParent with
      | .error e => rollbackPublished false (.wrapped "sync endpoint identity parent directory" e)
      | .ok () => pure ()

/-- From the creation of the staging file on. -/
def publish (who : ι) (uid : Nat) (raw : Bytes) : Program ι Unit := do
  match ← attempt (.create who uid temporaryName 0o600) with
  | .error .exist => .fail .alreadyExists
  | .error e => .fail (.wrapped "create endpoint identity staging file" e)
  | .ok file =>
    match ← (stage raw file).attempt with
    | .error e => cleanStaging e
    | .ok () => settle

/-- An entry that is there already. -/
def occupied (crypto : Crypto) (uid : Nat) (directory : String) (now : Time) (entries : List String) :
    Program ι Unit := do
  if entries = [bundleName] then
    match ← (load crypto uid directory now).attempt with
    | .ok _ => .fail .alreadyExists
    | .error _ => .fail .corrupt
  else .fail .corrupt

/-- `Install` from the marshalled bundle on. -/
def installBundle (crypto : Crypto) (who : ι) (uid : Nat) (directory : String) (now : Time) (raw : Bytes) :
    Program ι Unit := do
  require (raw.length ≤ maxBundleBytes) (.message "endpoint identity bundle exceeds the supported size")
  openStore uid directory true
  let entries ← readEntries
  if entries ≠ [] then occupied crypto uid directory now entries else publish who uid raw

def install (crypto : Crypto) (who : ι) (uid : Nat) (directory : String) (material : Material) (now : Time) :
    Program ι Unit := do
  let _ ← orFail (validateMaterial crypto material now) .message
  installBundle crypto who uid directory now (marshalBundle material)

end

end NorthgateRmm.Agent.Identity
