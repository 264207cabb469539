import NorthgateRmm.Agent.Destination
import NorthgateRmm.Agent.Identity.Store
import NorthgateRmm.Agent.Runtime.Run

/-!
# The configuration

`config.Decode` and `Config.Validate`, and what the program does with an accepted
configuration: the arguments that `run` passes on and the checks they meet there. The state
directory is text, since `Decode` reads it from JSON. How `time.ParseDuration` reads a
duration is left open; durations are in nanoseconds.
-/

namespace NorthgateRmm.Agent

open Json GoJson GoString GoUrl Destination
open Protocol (firstError firstError_ok intValue storeString_string storeInt_intValue)

namespace Config

def maxEncodedBytes : Nat := 16 * 1024
def minCollectionInterval : Int := 60000000000
def maxCollectionInterval : Int := 86400000000000
def minRequestTimeout : Int := 1000000000
def maxRequestTimeout : Int := 60000000000
def minSpoolBytes : Int := 1048576
def maxSpoolBytesLimit : Int := 67108864

end Config

structure Config where
  endpointID : String
  controlPlaneURL : Bytes
  stateDirectory : String
  collectionInterval : Int
  requestTimeout : Int
  maxSpoolBytes : Int
  deriving DecidableEq

structure WireConfig where
  endpointID : String
  controlPlaneURL : String
  stateDirectory : String
  collectionInterval : String
  requestTimeout : String
  maxSpoolBytes : Int
  deriving DecidableEq

namespace Config

/-- The lines of `Validate` after those about the URL. -/
def validateResources (cfg : Config) : Except String Unit :=
  firstError
    [(cfg.stateDirectory = "/" || !GoPath.isAbs '/' cfg.stateDirectory.toList ||
        GoPath.clean '/' '.' cfg.stateDirectory.toList ≠ cfg.stateDirectory.toList,
      "state_directory must be an absolute clean Linux path"),
     (cfg.stateDirectory.toList.any Protocol.isControl, "state_directory contains a control character"),
     (cfg.collectionInterval < minCollectionInterval || maxCollectionInterval < cfg.collectionInterval,
      "collection_interval is outside the supported range"),
     (cfg.requestTimeout < minRequestTimeout || maxRequestTimeout < cfg.requestTimeout,
      "request_timeout is outside the supported range"),
     (cfg.collectionInterval ≤ cfg.requestTimeout, "request_timeout must be shorter than collection_interval"),
     (cfg.maxSpoolBytes < minSpoolBytes || maxSpoolBytesLimit < cfg.maxSpoolBytes,
      "max_spool_bytes is outside the supported range")]

variable (library : Library) (parseDuration : String → Option Int)

def validate (cfg : Config) : Except String Unit :=
  if !Wire.uuidPattern cfg.endpointID then .error "endpoint_id must be a canonical lowercase UUID"
  else match validateControlPlaneURL library cfg.controlPlaneURL with
    | .error e => .error e
    | .ok _ => cfg.validateResources

def wireFields : List (StructField WireConfig) :=
  [⟨"endpoint_id", storeString fun s c => { c with endpointID := s }⟩,
   ⟨"control_plane_url", storeString fun s c => { c with controlPlaneURL := s }⟩,
   ⟨"state_directory", storeString fun s c => { c with stateDirectory := s }⟩,
   ⟨"collection_interval", storeString fun s c => { c with collectionInterval := s }⟩,
   ⟨"request_timeout", storeString fun s c => { c with requestTimeout := s }⟩,
   ⟨"max_spool_bytes", storeInt fun n c => { c with maxSpoolBytes := n }⟩]

/-- What `Decode` makes of the decoded object. -/
def ofWire (wire : WireConfig) : Except String Config :=
  match parseDuration wire.collectionInterval, parseDuration wire.requestTimeout with
  | none, _ => .error "collection_interval is invalid"
  | some _, none => .error "request_timeout is invalid"
  | some collectionInterval, some requestTimeout =>
    let cfg : Config := {
      endpointID := wire.endpointID
      controlPlaneURL := encode wire.controlPlaneURL.toList
      stateDirectory := wire.stateDirectory
      collectionInterval, requestTimeout
      maxSpoolBytes := wire.maxSpoolBytes }
    match cfg.validate library with
    | .error e => .error e
    | .ok _ => .ok cfg

/-- `Decode`, on the bytes that its reader returns. An error that wraps another one is kept as
the text before it. -/
def decode (bytes : Bytes) : Except String Config :=
  let raw := bytes.take (maxEncodedBytes + 1)
  if raw = [] then .error "configuration is empty"
  else if maxEncodedBytes < raw.length then .error "configuration exceeds size limit"
  else match StrictJson.validate raw with
    | none => .error "validate configuration JSON"
    | some v => match decodeStruct wireFields v ⟨"", "", "", "", "", 0⟩ with
      | none => .error "decode configuration"
      | some wire => ofWire library parseDuration wire

end Config

/-! ## What `run` passes on -/

/-- `filepath.Join` of the state directory and a name. -/
def Config.directory (cfg : Config) (name : String) : String :=
  String.ofList (GoPath.join '/' '.' cfg.stateDirectory.toList name.toList)

namespace Transport

def minRequestTimeout : Int := 1000000000
def maxRequestTimeout : Int := 60000000000

end Transport

/-- The options of the runtime. -/
def Config.options (cfg : Config) : Runtime.Options where
  endpointId := cfg.endpointID
  collectionInterval := cfg.collectionInterval
  requestTimeout := cfg.requestTimeout
  retryPolicy := ⟨3, 1000000000, 5000000000⟩

namespace Config

variable {library : Library} {parseDuration : String → Option Int} {cfg : Config}

/-- The resources of an accepted configuration. -/
structure ValidResources (cfg : Config) : Prop where
  directory : GoPath.Proper '/' '.' cfg.stateDirectory.toList
  graphic : cfg.stateDirectory.toList.any Protocol.isControl = false
  interval : 60000000000 ≤ cfg.collectionInterval ∧ cfg.collectionInterval ≤ 86400000000000
  timeout : 1000000000 ≤ cfg.requestTimeout ∧ cfg.requestTimeout ≤ 60000000000
  shorter : cfg.requestTimeout < cfg.collectionInterval
  quota : 1048576 ≤ cfg.maxSpoolBytes ∧ cfg.maxSpoolBytes ≤ 67108864

theorem validateResources_ok : cfg.validateResources = .ok () ↔ ValidResources cfg := by
  simp only [validateResources, firstError_ok, List.forall_mem_cons, List.not_mem_nil, false_implies, implies_true,
    and_true, Bool.or_eq_false_iff, decide_eq_false_iff_not, Bool.not_eq_false', not_not, not_lt, not_le, ne_eq]
  simp only [minCollectionInterval, maxCollectionInterval, minRequestTimeout, maxRequestTimeout, minSpoolBytes,
    maxSpoolBytesLimit]
  constructor
  · rintro ⟨⟨⟨hroot, habs⟩, hclean⟩, hcontrol, hinterval, htimeout, hshorter, hquota⟩
    refine ⟨GoPath.proper_of_clean habs hclean fun h => hroot ?_, hcontrol, hinterval, htimeout, hshorter, hquota⟩
    exact String.toList_injective h
  · intro h
    obtain ⟨-, habs, hclean, hroot⟩ := h.directory.clean_eq
    exact ⟨⟨⟨fun heq => hroot (congrArg String.toList heq), habs⟩, hclean⟩, h.graphic, h.interval, h.timeout, h.shorter,
      h.quota⟩

theorem validate_ok : cfg.validate library = .ok () ↔
    Wire.uuidPattern cfg.endpointID = true ∧ validateControlPlaneURL library cfg.controlPlaneURL = .ok () ∧
      ValidResources cfg := by
  rw [validate, ← validateResources_ok]
  cases Wire.uuidPattern cfg.endpointID <;> cases validateControlPlaneURL library cfg.controlPlaneURL <;> simp

end Config

end NorthgateRmm.Agent
