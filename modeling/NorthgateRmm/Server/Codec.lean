import NorthgateRmm.Lib.Json
import NorthgateRmm.Wire.Text
import NorthgateRmm.Wire.Time

/-!
# `decode_message`

The strict decoder of the agent API. `json.loads` is the grammar of `Lib.Json`; its
hooks (`_unique_object`, `_bounded_json_integer`) are a pass over the value of a text
that parses. `datetime.fromisoformat` and the `repr` of a list are Python's and are
taken from a `Python`; what is known of them is stated where it is used. A Python `str`
keeps an unpaired surrogate: the texts of a payload are code points. Identifiers, times,
types and platforms are read as text, in which such a surrogate is U+FFFD; it occurs in
none that is accepted.
-/

namespace NorthgateRmm.Server

open Json

/-! ## Python -/

/-- `datetime.fromisoformat`: a `ValueError`, a naive or an aware `datetime`. -/
inductive Timestamp where
  | invalid
  | naive
  | aware (t : Datetime)
  deriving DecidableEq

structure Python where
  fromisoformat : String → Timestamp
  reprList : List String → String

/-! ## Messages -/

def protocolVersion : Int := 1
def maxAgentVersionLength : Nat := 64
def maxCapabilities : Nat := 32
def maxInventoryFields : Nat := 128
def maxInventoryKeyLength : Nat := 64
def maxInventoryValueLength : Nat := 512

/-- A `str` of Python: its code points, an unpaired surrogate being one. -/
abbrev Str := List Nat

/-- `<=` of two `str`: by code points. -/
def strLe : Str → Str → Bool
  | [], _ => true
  | _ :: _, [] => false
  | a :: s, b :: t => a < b || (a == b && strLe s t)

theorem strLe_total (s t : Str) : strLe s t = true ∨ strLe t s = true := by
  fun_induction strLe s t with
  | case1 => exact .inl rfl
  | case2 => exact .inr rfl
  | case3 a s b t ih =>
    simp only [strLe, Bool.or_eq_true, Bool.and_eq_true, decide_eq_true_eq, beq_iff_eq]
    grind

theorem strLe_trans {s t u : Str} (h : strLe s t = true) (h' : strLe t u = true) : strLe s u = true := by
  induction s generalizing t u with
  | nil => rfl
  | cons a s ih =>
    cases t with
    | nil => exact nomatch h
    | cons b t =>
      cases u with
      | nil => exact nomatch h'
      | cons c u =>
        simp only [strLe, Bool.or_eq_true, Bool.and_eq_true, decide_eq_true_eq, beq_iff_eq] at h h' ⊢
        rcases h with h | ⟨rfl, h⟩
        · exact .inl (by omega)
        · exact h'.imp_right fun h' => ⟨h'.1, ih h h'.2⟩

theorem strLe_antisymm {s t : Str} (h : strLe s t = true) (h' : strLe t s = true) : s = t := by
  induction s generalizing t with
  | nil =>
    cases t with
    | nil => rfl
    | cons b t => exact nomatch h'
  | cons a s ih =>
    cases t with
    | nil => exact nomatch h
    | cons b t =>
      simp only [strLe, Bool.or_eq_true, Bool.and_eq_true, decide_eq_true_eq, beq_iff_eq] at h h'
      obtain rfl : a = b := by omega
      rw [ih (h.resolve_left (Nat.lt_irrefl a)).2 (h'.resolve_left (Nat.lt_irrefl a)).2]

/-- `sorted(…)`, of pairs with different keys. -/
def sortedPairs (pairs : List (Str × Str)) : List (Str × Str) := pairs.insertionSort fun a b => strLe a.1 b.1

theorem pairwise_sortedPairs (pairs : List (Str × Str)) : (sortedPairs pairs).Pairwise fun a b => strLe a.1 b.1 = true := by
  have : Std.Total fun a b : Str × Str => strLe a.1 b.1 = true := ⟨fun a b => strLe_total a.1 b.1⟩
  have : IsTrans (Str × Str) fun a b => strLe a.1 b.1 = true := ⟨fun _ _ _ h h' => strLe_trans h h'⟩
  exact List.pairwise_insertionSort _ _

theorem perm_sortedPairs (pairs : List (Str × Str)) : (sortedPairs pairs).Perm pairs := List.perm_insertionSort _ _

/-- Pairs with different keys are sorted in one way. -/
theorem sortedPairs_eq {l pairs : List (Str × Str)} (h : l.Perm pairs) (hnodup : (l.map (·.1)).Nodup)
    (hsorted : l.Pairwise fun a b => strLe a.1 b.1 = true) : sortedPairs pairs = l := by
  have hperm : l.Perm (sortedPairs pairs) := h.trans (perm_sortedPairs pairs).symm
  refine (hperm.eq_of_pairwise (fun a b ha hb hab hba => ?_) hsorted (pairwise_sortedPairs pairs)).symm
  exact List.inj_on_of_nodup_map hnodup ha (hperm.mem_iff.2 hb) (strLe_antisymm hab hba)

structure HeartbeatPayload where
  agentVersion : Str
  capabilities : List Str
  deriving DecidableEq

def HeartbeatPayload.postInit (p : HeartbeatPayload) : Option Error :=
  firstFailure
    [(p.agentVersion.isEmpty || maxAgentVersionLength < p.agentVersion.length,
        .validation "agent_version is empty or too long"),
     (maxCapabilities < p.capabilities.length, .validation "too many capabilities"),
     (p.capabilities.any fun item => item.isEmpty || 64 < item.length,
        .validation "capability is empty or too long")]

structure InventoryPayload where
  platform : Platform
  architecture : Str
  fields : List (Str × Str)
  collectorComplete : Bool
  schemaVersion : Int
  deriving DecidableEq

def InventoryPayload.postInit (p : InventoryPayload) : Option Error :=
  firstFailure
    [(p.schemaVersion ≠ 1, .validation "unsupported inventory schema version"),
     (p.architecture.isEmpty || 32 < p.architecture.length, .validation "architecture is empty or too long"),
     (maxInventoryFields < p.fields.length, .validation "too many inventory fields"),
     (!(p.fields.map (·.1)).Nodup, .validation "inventory field names must be unique"),
     (p.fields.any fun e => e.1.isEmpty || maxInventoryKeyLength < e.1.length ||
        maxInventoryValueLength < e.2.length,
        .validation "inventory field is empty or too long")]

inductive Payload where
  | heartbeat (p : HeartbeatPayload)
  | inventory (p : InventoryPayload)
  deriving DecidableEq

/-- `HeartbeatMessage | InventoryMessage`. -/
structure Message where
  envelope : MessageEnvelope
  protocolVersion : Int
  payload : Payload
  deriving DecidableEq

/-! ## Digests -/

/-- A character as `json.dumps` writes it with `ensure_ascii`. -/
def asciiPieces (c : Char) : List Piece :=
  if c = '\x22' ∨ c = '\\' then [.short c]
  else if c = '\n' then [.short 'n']
  else if c = '\r' then [.short 'r']
  else if c = '\t' then [.short 't']
  else if c = '\x0c' then [.short 'f']
  else if c = '\x08' then [.short 'b']
  else if 32 ≤ c.toNat ∧ c.toNat ≤ 126 then [.char c]
  else if c.toNat < 0x10000 then [.unit c.toNat]
  else [.unit (0xd800 + (c.toNat - 0x10000) / 0x400), .unit (0xdc00 + (c.toNat - 0x10000) % 0x400)]

/-- A code point as `json.dumps` writes it; an unpaired surrogate is its escape. -/
def asciiCode (v : Nat) : List Piece := if v.isValidChar then asciiPieces (Char.ofNat v) else [.unit v]

def asciiStr (s : Str) : Value := .str (s.flatMap asciiCode)

def asciiString (s : String) : Value := .str (s.toList.flatMap asciiPieces)

def asciiObject (l : List (String × Value)) : Value := .obj (l.map fun e => (e.1.toList.flatMap asciiPieces, e.2))

/-- What `canonical_digest` hashes, of a value whose keys are in order. -/
def canonicalText (v : Value) : List UInt8 := Wire.encodeUtf8 (String.ofList (render v))

def canonicalDigest (v : Value) : String := sha256Hex (canonicalText v)

/-- The dictionary of `HeartbeatPayload.digest`. -/
def HeartbeatPayload.value (p : HeartbeatPayload) : Value :=
  asciiObject [("agent_version", asciiStr p.agentVersion), ("capabilities", .arr (p.capabilities.map asciiStr))]

/-- The dictionary of `InventoryPayload.digest`, with the keys of the fields in order. -/
def InventoryPayload.value (p : InventoryPayload) : Value :=
  asciiObject [("architecture", asciiStr p.architecture),
    ("collector_complete", .bool p.collectorComplete),
    ("fields", .obj ((sortedPairs p.fields).map fun e => (e.1.flatMap asciiCode, asciiStr e.2))),
    ("platform", asciiString p.platform.value),
    ("schema_version", .num ⟨p.schemaVersion < 0, Nat.toDigits 10 p.schemaVersion.natAbs, []⟩)]

def HeartbeatPayload.digest (p : HeartbeatPayload) : String := canonicalDigest p.value

def InventoryPayload.digest (p : InventoryPayload) : String := canonicalDigest p.value

def Payload.value : Payload → Value
  | .heartbeat p => p.value
  | .inventory p => p.value

/-- `payload.digest()`. -/
def Payload.digest : Payload → String
  | .heartbeat p => p.digest
  | .inventory p => p.digest

/-- Code points as text, with U+FFFD for a surrogate. -/
def shown (s : Str) : String := String.ofList (s.map toChar)

def codesOf (s : String) : Str := s.toList.map Char.toNat

theorem shown_codesOf (s : String) : shown (codesOf s) = s := by
  rw [shown, codesOf, List.map_map]
  exact (congrArg String.ofList ((List.map_congr_left fun c _ => toChar_toNat c).trans (List.map_id _))).trans
    String.ofList_toList

/-- A decoded message as the agent API uses it. -/
def Message.agentMessage (m : Message) : AgentMessage :=
  match m.payload with
  | .heartbeat p => ⟨m.envelope, .heartbeat, p.digest⟩
  | .inventory p => ⟨m.envelope, .inventory p.platform (shown p.architecture), p.digest⟩

/-! ## Hooks of `json.loads` -/

/-- `_unique_object`: the first name that was there before. -/
def repeatedName : List (List Nat) → List Literal → Option Literal
  | _, [] => none
  | seen, l :: rest => if codes l ∈ seen then some l else repeatedName (codes l :: seen) rest

/-- `_bounded_json_integer`. -/
def integerError (n : Number) : Option Error :=
  let m : Nat := Nat.ofDigitChars 10 n.digits 0
  let v : Int := if n.negative then -m else m
  if n.rest.isEmpty ∧ (19 < n.digits.length ∨ v < -2 ^ 63 ∨ (maxSequence : Int) < v) then
    some (.validation "JSON integer exceeds the supported range")
  else none

mutual

/-- The error of the first hook that raises. -/
def hookError : Value → Option Error
  | .num n => integerError n
  | .arr items => itemsError items
  | .obj members => (membersError members).or ((repeatedName [] (members.map (·.1))).map fun l =>
      .validation ("duplicate JSON field: " ++ text l))
  | _ => none

def itemsError : List Value → Option Error
  | [] => none
  | v :: rest => (hookError v).or (itemsError rest)

def membersError : List (Literal × Value) → Option Error
  | [] => none
  | (_, v) :: rest => (hookError v).or (membersError rest)

end

/-! ## Typed access -/

/-- `_object`. -/
def asObject (fieldName : String) : Value → Except Error (List (Literal × Value))
  | .obj members => .ok members
  | _ => .error (.validation (fieldName ++ " must be an object"))

/-- `_string`. -/
def asString (fieldName : String) : Value → Except Error String
  | .str l => .ok (text l)
  | _ => .error (.validation (fieldName ++ " must be a string"))

/-- `_string`, of a text that is kept. -/
def asStr (fieldName : String) : Value → Except Error Str
  | .str l => .ok (codes l)
  | _ => .error (.validation (fieldName ++ " must be a string"))

/-- `_integer`. -/
def asInteger (fieldName : String) : Value → Except Error Int
  | .num n =>
    if n.rest.isEmpty then
      .ok (if n.negative then -(Nat.ofDigitChars 10 n.digits 0 : Int) else Nat.ofDigitChars 10 n.digits 0)
    else .error (.validation (fieldName ++ " must be an integer"))
  | _ => .error (.validation (fieldName ++ " must be an integer"))

/-- `_uuid`. -/
def asUuid (fieldName : String) (v : Value) : Except Error Uuid :=
  match asString fieldName v with
  | .error e => .error e
  | .ok s => match parseUuid s with
    | some u => .ok u
    | none => .error (.validation (fieldName ++ " must be a UUID"))

/-- `_timestamp`; a naive `datetime` is `none`. -/
def asTimestamp (py : Python) (fieldName : String) (v : Value) : Except Error (Option Datetime) :=
  match asString fieldName v with
  | .error e => .error e
  | .ok s => match py.fromisoformat (String.ofList (Wire.replaceZ s.toList)) with
    | .aware t => .ok (some t)
    | .naive => .ok none
    | .invalid => .error (.validation (fieldName ++ " must be an ISO 8601 timestamp"))

/-- `_platform`. -/
def asPlatform (v : Value) : Except Error Platform :=
  match asString "platform" v with
  | .error e => .error e
  | .ok s =>
    if s = "linux" then .ok .linux
    else if s = "windows" then .ok .windows
    else .error (.validation "platform is unsupported")

/-- `_exact_keys`. -/
def exactKeys (py : Python) (members : List (Literal × Value)) (expected : List String) (fieldName : String) :
    Except Error Unit :=
  let names := members.map fun m => codes m.1
  let missing := expected.filter fun s => codesOf s ∉ names
  let unknown := (members.map (·.1)).filter fun l => !expected.any fun s => codesOf s = codes l
  if missing.isEmpty ∧ unknown.isEmpty then .ok ()
  else .error (.validation (fieldName ++ " fields do not match schema; missing=" ++
    py.reprList (missing.insertionSort (· ≤ ·)) ++ ", unknown=" ++
    py.reprList ((unknown.map text).insertionSort (· ≤ ·))))

/-- `value[name]`, of an object whose keys were checked. -/
def valueOf (members : List (Literal × Value)) (name : String) : Value :=
  ((members.find? fun m => codes m.1 = codesOf name).map (·.2)).getD .null

/-! ## Decoding -/

def envelopeKeys : List String :=
  ["message_id", "endpoint_id", "boot_id", "sequence", "created_at", "expires_at", "correlation_id",
   "protocol_version"]

def inventoryKeys : List String :=
  ["platform", "architecture", "fields", "collector_complete", "schema_version"]

/-- `MessageEnvelope(…)`. -/
def makeEnvelope (messageId endpointId bootId : Uuid) (sequence : Int) (createdAt expiresAt : Option Datetime)
    (correlationId : Uuid) (version : Int) : Except Error MessageEnvelope :=
  match createdAt, expiresAt with
  | none, _ => .error (.validation "created_at must include a timezone")
  | some _, none => .error (.validation "expires_at must include a timezone")
  | some createdAt, some expiresAt =>
    if version ≠ protocolVersion then .error (.validation "unsupported protocol version")
    else if hs : 1 ≤ sequence.toNat ∧ sequence.toNat ≤ maxSequence then
      if hl : 0 < expiresAt.sub createdAt ∧ expiresAt.sub createdAt ≤ maxMessageTtl then
        .ok ⟨messageId, endpointId, bootId, sequence.toNat, createdAt, expiresAt, correlationId, hs, hl⟩
      else .error (.validation "message lifetime is invalid")
    else .error (.validation "sequence is outside the supported range")

/-- `_decode_envelope`. -/
def decodeEnvelope (py : Python) (members : List (Literal × Value)) : Except Error (MessageEnvelope × Int) := do
  exactKeys py members envelopeKeys "envelope"
  let messageId ← asUuid "message_id" (valueOf members "message_id")
  let endpointId ← asUuid "endpoint_id" (valueOf members "endpoint_id")
  let bootId ← asUuid "boot_id" (valueOf members "boot_id")
  let sequence ← asInteger "sequence" (valueOf members "sequence")
  let createdAt ← asTimestamp py "created_at" (valueOf members "created_at")
  let expiresAt ← asTimestamp py "expires_at" (valueOf members "expires_at")
  let correlationId ← asUuid "correlation_id" (valueOf members "correlation_id")
  let version ← asInteger "protocol_version" (valueOf members "protocol_version")
  let envelope ← makeEnvelope messageId endpointId bootId sequence createdAt expiresAt correlationId version
  return (envelope, version)

def checked {α : Type} (a : α) : Option Error → Except Error α
  | none => .ok a
  | some e => .error e

def decodeHeartbeat (py : Python) (members : List (Literal × Value)) : Except Error HeartbeatPayload := do
  exactKeys py members ["agent_version", "capabilities"] "heartbeat payload"
  match valueOf members "capabilities" with
  | .arr items =>
    let capabilities ← items.mapM (asStr "capability")
    let agentVersion ← asStr "agent_version" (valueOf members "agent_version")
    let p : HeartbeatPayload := ⟨agentVersion, capabilities⟩
    checked p p.postInit
  | _ => .error (.validation "capabilities must be an array")

/-- The pairs of the fields object, in text order. -/
def fieldPairs : List (Literal × Value) → Except Error (List (Str × Str))
  | [] => .ok []
  | (name, v) :: rest => do
    let item ← asStr "inventory value" v
    let pairs ← fieldPairs rest
    return (codes name, item) :: pairs

def asBool (v : Value) : Except Error Bool :=
  match v with
  | .bool b => .ok b
  | _ => .error (.validation "collector_complete must be a boolean")

def decodeInventory (py : Python) (members : List (Literal × Value)) : Except Error InventoryPayload := do
  exactKeys py members inventoryKeys "inventory payload"
  let fieldsObject ← asObject "fields" (valueOf members "fields")
  let pairs ← fieldPairs fieldsObject
  let collectorComplete ← asBool (valueOf members "collector_complete")
  let platform ← asPlatform (valueOf members "platform")
  let architecture ← asStr "architecture" (valueOf members "architecture")
  let schemaVersion ← asInteger "schema_version" (valueOf members "schema_version")
  let p : InventoryPayload :=
    ⟨platform, architecture, sortedPairs pairs, collectorComplete, schemaVersion⟩
  checked p p.postInit

/-- What `decode_message` makes of the value of the body. -/
def decodeValue (py : Python) (v : Value) : Except Error Message := do
  let root ← asObject "message" v
  exactKeys py root ["type", "envelope", "payload"] "message"
  let messageType ← asString "type" (valueOf root "type")
  let envelopeMembers ← asObject "envelope" (valueOf root "envelope")
  let (envelope, version) ← decodeEnvelope py envelopeMembers
  let payload ← asObject "payload" (valueOf root "payload")
  if messageType = "heartbeat" then do
    let p ← decodeHeartbeat py payload
    return ⟨envelope, version, .heartbeat p⟩
  else if messageType = "inventory" then do
    let p ← decodeInventory py payload
    return ⟨envelope, version, .inventory p⟩
  else .error (.validation "unsupported message type")

/-- `json.loads` of the body, with its hooks. -/
def loads (raw : List UInt8) : Except Error Value :=
  match (Wire.decodeUtf8 raw).bind fun s => parse 10000 s.toList with
  | none => .error (.validation "message body is not valid bounded JSON")
  | some v => checked v (hookError v)

def decodeMessage (py : Python) (raw : List UInt8) : Except Error Message :=
  if raw.isEmpty then .error (.validation "message body is empty")
  else if maxEncodedMessageBytes < raw.length then
    .error (.validation "message body exceeds the encoded size limit")
  else match loads raw with
    | .error e => .error e
    | .ok v => decodeValue py v

/-- The decoder that `handle` is given. -/
def decode (py : Python) (raw : List UInt8) : Except Error AgentMessage :=
  (decodeMessage py raw).map Message.agentMessage

/-! ## What a decoded message was read from -/

variable {py : Python}

/-- The members of an envelope object and the envelope they make. -/
structure EnvelopeRead (py : Python) (members : List (Literal × Value)) (e : MessageEnvelope) (version : Int) :
    Prop where
  keys : exactKeys py members envelopeKeys "envelope" = .ok ()
  messageId : asUuid "message_id" (valueOf members "message_id") = .ok e.messageId
  endpointId : asUuid "endpoint_id" (valueOf members "endpoint_id") = .ok e.endpointId
  bootId : asUuid "boot_id" (valueOf members "boot_id") = .ok e.bootId
  sequence : ∃ n : Int, asInteger "sequence" (valueOf members "sequence") = .ok n ∧ n.toNat = e.sequence
  createdAt : asTimestamp py "created_at" (valueOf members "created_at") = .ok (some e.createdAt)
  expiresAt : asTimestamp py "expires_at" (valueOf members "expires_at") = .ok (some e.expiresAt)
  correlationId : asUuid "correlation_id" (valueOf members "correlation_id") = .ok e.correlationId
  versionRead : asInteger "protocol_version" (valueOf members "protocol_version") = .ok version
  supported : version = protocolVersion

theorem makeEnvelope_ok {messageId endpointId bootId correlationId : Uuid} {sequence version : Int}
    {createdAt expiresAt : Option Datetime} {e : MessageEnvelope} :
    makeEnvelope messageId endpointId bootId sequence createdAt expiresAt correlationId version = .ok e ↔
      version = protocolVersion ∧ messageId = e.messageId ∧ endpointId = e.endpointId ∧ bootId = e.bootId ∧
        sequence.toNat = e.sequence ∧ createdAt = some e.createdAt ∧ expiresAt = some e.expiresAt ∧
        correlationId = e.correlationId := by
  constructor
  · intro h
    unfold makeEnvelope at h
    split at h
    · cases h
    · cases h
    · split_ifs at h with hv hs hl
      cases h
      exact ⟨not_not.mp hv, rfl, rfl, rfl, rfl, rfl, rfl, rfl⟩
  · rintro ⟨rfl, rfl, rfl, rfl, hseq, rfl, rfl, rfl⟩
    obtain ⟨messageId, endpointId, bootId, n, createdAt, expiresAt, correlationId, hs, hl⟩ := e
    dsimp only at hseq
    subst hseq
    simp only [makeEnvelope]
    rw [if_neg (not_not.mpr rfl), dif_pos hs, dif_pos hl]

variable {members : List (Literal × Value)} {v : Value}

theorem decodeEnvelope_ok {e : MessageEnvelope} {version : Int} :
    decodeEnvelope py members = .ok (e, version) ↔ EnvelopeRead py members e version := by
  constructor
  · intro h
    obtain ⟨⟨⟩, hkeys, h⟩ := bind_ok h
    obtain ⟨messageId, h1, h⟩ := bind_ok h
    obtain ⟨endpointId, h2, h⟩ := bind_ok h
    obtain ⟨bootId, h3, h⟩ := bind_ok h
    obtain ⟨sequence, h4, h⟩ := bind_ok h
    obtain ⟨createdAt, h5, h⟩ := bind_ok h
    obtain ⟨expiresAt, h6, h⟩ := bind_ok h
    obtain ⟨correlationId, h7, h⟩ := bind_ok h
    obtain ⟨v, h8, h⟩ := bind_ok h
    obtain ⟨envelope, h9, h⟩ := bind_ok h
    cases h
    obtain ⟨hv, rfl, rfl, rfl, hseq, rfl, rfl, rfl⟩ := makeEnvelope_ok.mp h9
    exact ⟨hkeys, h1, h2, h3, ⟨sequence, h4, hseq⟩, h5, h6, h7, h8, hv⟩
  · rintro ⟨hkeys, h1, h2, h3, ⟨sequence, h4, hseq⟩, h5, h6, h7, h8, hv⟩
    have h9 := makeEnvelope_ok.mpr ⟨hv, rfl, rfl, rfl, hseq, rfl, rfl, rfl⟩
    rw [decodeEnvelope, hkeys, h1, h2, h3, h4, h5, h6, h7, h8]
    show makeEnvelope _ _ _ _ _ _ _ _ >>= _ = _
    rw [h9]
    rfl

/-- The members of an inventory object and the payload they make. -/
structure InventoryRead (py : Python) (members : List (Literal × Value)) (p : InventoryPayload) : Prop where
  keys : exactKeys py members inventoryKeys "inventory payload" = .ok ()
  fields : ∃ fields pairs, valueOf members "fields" = .obj fields ∧ fieldPairs fields = .ok pairs ∧
    sortedPairs pairs = p.fields
  collectorComplete : valueOf members "collector_complete" = .bool p.collectorComplete
  platform : asPlatform (valueOf members "platform") = .ok p.platform
  architecture : asStr "architecture" (valueOf members "architecture") = .ok p.architecture
  schemaVersion : asInteger "schema_version" (valueOf members "schema_version") = .ok p.schemaVersion
  postInit : p.postInit = none

theorem asObject_ok {name : String} :
    asObject name v = .ok members ↔ v = .obj members := by
  cases v <;> simp [asObject]

theorem asBool_ok {b : Bool} : asBool v = .ok b ↔ v = .bool b := by
  cases v <;> simp [asBool]

theorem checked_ok {α : Type} {a b : α} {e : Option Error} : checked a e = .ok b ↔ e = none ∧ a = b := by
  cases e <;> simp [checked]

theorem decodeInventory_ok {p : InventoryPayload} :
    decodeInventory py members = .ok p ↔ InventoryRead py members p := by
  constructor
  · intro h
    obtain ⟨⟨⟩, hkeys, h⟩ := bind_ok h
    obtain ⟨fields, h1, h⟩ := bind_ok h
    obtain ⟨pairs, h2, h⟩ := bind_ok h
    obtain ⟨complete, h3, h⟩ := bind_ok h
    obtain ⟨platform, h4, h⟩ := bind_ok h
    obtain ⟨architecture, h5, h⟩ := bind_ok h
    obtain ⟨schemaVersion, h6, h⟩ := bind_ok h
    obtain ⟨hinit, rfl⟩ := checked_ok.mp h
    exact ⟨hkeys, ⟨fields, pairs, asObject_ok.mp h1, h2, rfl⟩, asBool_ok.mp h3, h4, h5, h6, hinit⟩
  · rintro ⟨hkeys, ⟨fields, pairs, h1, h2, hsort⟩, h3, h4, h5, h6, hinit⟩
    rw [decodeInventory, hkeys, h4, h5, h6, asObject_ok.mpr h1, asBool_ok.mpr h3]
    show fieldPairs fields >>= _ = _
    rw [h2]
    show checked _ _ = _
    rw [hsort]
    exact checked_ok.mpr ⟨hinit, rfl⟩

/-- A body whose type is `inventory`. -/
theorem decodeValue_inventory {root : List (Literal × Value)} (hroot : v = .obj root)
    (htype : asString "type" (valueOf root "type") = .ok "inventory") {m : Message} :
    decodeValue py v = .ok m ↔ exactKeys py root ["type", "envelope", "payload"] "message" = .ok () ∧
      ∃ envelope payload p, valueOf root "envelope" = .obj envelope ∧ valueOf root "payload" = .obj payload ∧
        EnvelopeRead py envelope m.envelope m.protocolVersion ∧ InventoryRead py payload p ∧
        m.payload = .inventory p := by
  subst hroot
  constructor
  · intro h
    obtain ⟨root', h0, h⟩ := bind_ok h
    cases h0
    obtain ⟨⟨⟩, hkeys, h⟩ := bind_ok h
    obtain ⟨type, h1, h⟩ := bind_ok h
    rw [htype] at h1
    cases h1
    obtain ⟨envelope, h2, h⟩ := bind_ok h
    obtain ⟨⟨e, version⟩, h3, h⟩ := bind_ok h
    obtain ⟨payload, h4, h⟩ := bind_ok h
    rw [if_neg (by decide), if_pos rfl] at h
    obtain ⟨p, h5, h⟩ := bind_ok h
    cases h
    exact ⟨hkeys, envelope, payload, p, asObject_ok.mp h2, asObject_ok.mp h4, decodeEnvelope_ok.mp h3,
      decodeInventory_ok.mp h5, rfl⟩
  · rintro ⟨hkeys, envelope, payload, p, he, hp, hread, hinv, hpayload⟩
    obtain ⟨e, version, q⟩ := m
    dsimp only at hpayload
    subst hpayload
    rw [decodeValue]
    show exactKeys py root ["type", "envelope", "payload"] "message" >>= _ = _
    rw [hkeys]
    show asString "type" (valueOf root "type") >>= _ = _
    rw [htype]
    show asObject "envelope" (valueOf root "envelope") >>= _ = _
    rw [asObject_ok.mpr he]
    show decodeEnvelope py envelope >>= _ = _
    rw [decodeEnvelope_ok.mpr hread]
    show asObject "payload" (valueOf root "payload") >>= _ = _
    rw [asObject_ok.mpr hp]
    show (decodeInventory py payload >>= fun p => pure (⟨e, version, .inventory p⟩ : Message)) = _
    rw [decodeInventory_ok.mpr hinv]
    rfl

theorem decodeMessage_ok {raw : List UInt8} {m : Message} :
    decodeMessage py raw = .ok m ↔ raw ≠ [] ∧ raw.length ≤ maxEncodedMessageBytes ∧
      ∃ s v, Wire.decodeUtf8 raw = some s ∧ parse 10000 s.toList = some v ∧ hookError v = none ∧
        decodeValue py v = .ok m := by
  unfold decodeMessage
  split_ifs with h1 h2
  · simp [List.isEmpty_iff.mp h1]
  · simp only [false_iff, not_and]
    intro _ hle
    omega
  · have hne : raw ≠ [] := fun h => h1 (by rw [h]; rfl)
    simp only [ne_eq, hne, not_false_eq_true, Nat.not_lt.mp h2, true_and]
    unfold loads
    cases hs : Wire.decodeUtf8 raw with
    | none => simp
    | some s =>
      cases hv : parse 10000 s.toList with
      | none => simp [hv]
      | some v =>
        cases hh : hookError v with
        | some e => simp [hv, hh, checked]
        | none => simp [hv, hh, checked]

end NorthgateRmm.Server
