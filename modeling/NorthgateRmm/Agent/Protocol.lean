import NorthgateRmm.Agent.StrictJson
import NorthgateRmm.Wire.Time

/-!
# The inventory message

`protocol/inventory.go`: the envelope and the payload of an inventory message, their
validation, `EncodeInventory` and `DecodeInventory`. Go strings are kept as `String`,
so that a string which is no UTF-8 (and which `validText` and `uuidPattern` refuse) has no
value here; lengths are counted in bytes as in the source.
-/

namespace NorthgateRmm.Agent.Protocol

open Json GoJson Wire

def version : Int := 1
def inventorySchema : Int := 1
def maxSequence : Int := 2 ^ 63 - 1
/-- Five minutes, in nanoseconds. -/
def maxMessageTTL : Int := 300000000000
def maxFields : Nat := 128
def maxFieldKeyBytes : Nat := 64
def maxFieldValueBytes : Nat := 512
def maxEncodedMessage : Nat := 65536

/-! ## Times -/

/-- A `time.Time`: its instant in nanoseconds since 1970-01-01T00:00:00Z and the offset
of its zone in seconds. -/
structure Time where
  ns : Int
  offset : Int
  deriving DecidableEq, Repr

namespace Time

/-- January 1, year 1, 00:00:00 UTC. -/
def zero : Time := ⟨-62135596800000000000, 0⟩

def isZero (t : Time) : Bool := t.ns = zero.ns

def year (t : Time) : Int := (stampOf (t.ns + t.offset * 1000000000)).date.year

def sub (t u : Time) : Int := t.ns - u.ns

end Time

/-! ## Messages -/

structure Envelope where
  messageID : String
  endpointID : String
  bootID : String
  sequence : Int
  createdAt : Time
  expiresAt : Time
  correlationID : String
  protocolVersion : Int
  deriving DecidableEq

structure InventoryPayload where
  platform : String
  architecture : String
  /-- `none` is the nil map -/
  fields : Option StringMap
  collectorComplete : Bool
  schemaVersion : Int
  deriving DecidableEq

structure InventoryMessage where
  messageType : String
  envelope : Envelope
  payload : InventoryPayload
  deriving DecidableEq

/-! ## Validation -/

/-- `unicode.IsControl`. -/
def isControl (c : Char) : Bool := c.toNat < 32 || (127 ≤ c.toNat && c.toNat < 160)

def validText (value : String) : Bool := value.toList.all fun c => !isControl c

/-- The first check that fails. -/
def firstError (checks : List (Bool × String)) : Except String Unit :=
  match checks.find? (·.1) with
  | some check => .error check.2
  | none => .ok ()

def validateEnvelope (envelope : Envelope) : Except String Unit :=
  firstError
    [(!uuidPattern envelope.messageID || !uuidPattern envelope.endpointID || !uuidPattern envelope.bootID ||
        !uuidPattern envelope.correlationID,
      "envelope identifiers must be canonical lowercase UUIDs"),
     (envelope.protocolVersion ≠ version, "unsupported protocol version"),
     (envelope.sequence < 1 || maxSequence < envelope.sequence, "sequence is outside the supported range"),
     (envelope.createdAt.isZero || envelope.expiresAt.isZero, "message timestamps are required"),
     (envelope.createdAt.year < 1 || 9999 < envelope.createdAt.year || envelope.expiresAt.year < 1 ||
        9999 < envelope.expiresAt.year,
      "message timestamp year is outside the shared range"),
     (envelope.createdAt.offset ≠ 0 || envelope.expiresAt.offset ≠ 0, "message timestamps must use UTC"),
     (envelope.expiresAt.sub envelope.createdAt ≤ 0 || maxMessageTTL < envelope.expiresAt.sub envelope.createdAt,
      "message lifetime is invalid")]

def validField (entry : String × String) : Bool :=
  !entry.1.isEmpty && entry.1.utf8ByteSize ≤ maxFieldKeyBytes && entry.2.utf8ByteSize ≤ maxFieldValueBytes &&
    validText entry.1 && validText entry.2

def validatePayload (payload : InventoryPayload) : Except String Unit :=
  firstError
    [(payload.platform ≠ "linux", "inventory platform is unsupported"),
     (payload.architecture.isEmpty || 32 < payload.architecture.utf8ByteSize || !validText payload.architecture,
      "inventory architecture is invalid"),
     (payload.schemaVersion ≠ inventorySchema, "unsupported inventory schema version"),
     (payload.fields.isNone, "inventory fields must be an object"),
     (payload.fields.any fun m => maxFields < m.entries.length, "too many inventory fields"),
     (payload.fields.any fun m => !m.entries.all validField, "inventory field is empty or too long")]

theorem firstError_ok {checks : List (Bool × String)} :
    firstError checks = .ok () ↔ ∀ c ∈ checks, c.1 = false := by
  unfold firstError
  cases h : checks.find? (·.1) with
  | none => simpa using h
  | some check =>
    refine iff_of_false (by simp) fun hall => ?_
    have hmem := List.mem_of_find?_eq_some h
    have htrue := List.find?_some h
    rw [hall check hmem] at htrue
    cases htrue

/-- An envelope that `validateEnvelope` accepts. -/
structure ValidEnvelope (e : Envelope) : Prop where
  messageID : uuidPattern e.messageID = true
  endpointID : uuidPattern e.endpointID = true
  bootID : uuidPattern e.bootID = true
  correlationID : uuidPattern e.correlationID = true
  protocolVersion : e.protocolVersion = 1
  sequence : 1 ≤ e.sequence ∧ e.sequence < 2 ^ 63
  created_nonzero : e.createdAt ≠ .zero
  expires_nonzero : e.expiresAt ≠ .zero
  created_year : 1 ≤ e.createdAt.year ∧ e.createdAt.year ≤ 9999
  expires_year : 1 ≤ e.expiresAt.year ∧ e.expiresAt.year ≤ 9999
  created_utc : e.createdAt.offset = 0
  expires_utc : e.expiresAt.offset = 0
  lifetime : 0 < e.expiresAt.ns - e.createdAt.ns ∧ e.expiresAt.ns - e.createdAt.ns ≤ 300000000000

variable {p : InventoryPayload} {e : Envelope} {raw : List UInt8} {σ : Type}

theorem validateEnvelope_ok : validateEnvelope e = .ok () ↔ ValidEnvelope e := by
  have hzero : ∀ t : Time, t.offset = 0 → (t.isZero = false ↔ t ≠ .zero) := by
    rintro ⟨ns, offset⟩ ho
    have ho : offset = 0 := ho
    subst ho
    rw [Time.isZero, decide_eq_false_iff_not]
    simp [Time.zero]
  simp only [validateEnvelope, firstError_ok, List.forall_mem_cons, List.not_mem_nil, false_implies, implies_true,
    and_true, Bool.or_eq_false_iff, Bool.not_eq_false', decide_eq_false_iff_not]
  simp only [Time.sub, version, maxSequence, maxMessageTTL, ne_eq, not_not]
  constructor
  · rintro ⟨⟨⟨⟨hm, he⟩, hb⟩, hc⟩, hver, ⟨hlo, hhi⟩, ⟨hcz, hez⟩, ⟨⟨⟨hc1, hc2⟩, he1⟩, he2⟩, ⟨hco, heo⟩, hl1, hl2⟩
    exact ⟨hm, he, hb, hc, hver, ⟨by omega, by omega⟩, (hzero _ hco).mp hcz, (hzero _ heo).mp hez,
      ⟨by omega, by omega⟩, ⟨by omega, by omega⟩, hco, heo, ⟨by omega, by omega⟩⟩
  · intro h
    have hseq := h.sequence
    have hcy := h.created_year
    have hey := h.expires_year
    have hl := h.lifetime
    exact ⟨⟨⟨⟨h.messageID, h.endpointID⟩, h.bootID⟩, h.correlationID⟩, h.protocolVersion, ⟨by omega, by omega⟩,
      ⟨(hzero _ h.created_utc).mpr h.created_nonzero, (hzero _ h.expires_utc).mpr h.expires_nonzero⟩,
      ⟨⟨⟨by omega, by omega⟩, by omega⟩, by omega⟩, ⟨h.created_utc, h.expires_utc⟩, ⟨by omega, by omega⟩⟩

/-- A payload that `validatePayload` accepts. -/
structure ValidPayload (p : InventoryPayload) : Prop where
  platform : p.platform = "linux"
  architecture : p.architecture.isEmpty = false ∧ p.architecture.utf8ByteSize ≤ 32 ∧
    validText p.architecture = true
  schemaVersion : p.schemaVersion = 1
  fields : ∃ m, p.fields = some m ∧ m.entries.length ≤ 128 ∧ m.entries.all validField = true

theorem validatePayload_ok : validatePayload p = .ok () ↔ ValidPayload p := by
  simp only [validatePayload, firstError_ok, List.forall_mem_cons, List.not_mem_nil, false_implies, implies_true,
    and_true, Bool.or_eq_false_iff, Bool.not_eq_false', decide_eq_false_iff_not]
  simp only [inventorySchema, ne_eq, not_not]
  constructor
  · rintro ⟨hp, ⟨⟨ha1, ha2⟩, ha3⟩, hv, hf, hn, hall⟩
    refine ⟨hp, ⟨ha1, by omega, ha3⟩, hv, ?_⟩
    cases hm : p.fields with
    | none => rw [hm] at hf; cases hf
    | some m =>
      rw [hm] at hn hall
      have hn : m.entries.length ≤ maxFields := by simpa using hn
      exact ⟨m, rfl, hn, by simpa using hall⟩
  · rintro ⟨hp, ⟨ha1, ha2, ha3⟩, hv, m, hm, hn, hall⟩
    have hn : m.entries.length ≤ maxFields := hn
    rw [hm]
    exact ⟨hp, ⟨⟨ha1, by omega⟩, ha3⟩, hv, rfl, by simpa using hn, by simpa using hall⟩

/-! ## Encoding -/

/-- A time in UTC. -/
def timeValue (t : Time) : Value := string (String.ofList (stampText (stampOf t.ns)))

def intValue (n : Int) : Value := .num (numberOf n)

def fieldsValue : Option StringMap → Value
  | none => .null
  | some m => object (m.entries.map fun e => (e.1, string e.2))

def envelopeValue (e : Envelope) : Value :=
  object [("message_id", string e.messageID),
    ("endpoint_id", string e.endpointID),
    ("boot_id", string e.bootID),
    ("sequence", intValue e.sequence),
    ("created_at", timeValue e.createdAt),
    ("expires_at", timeValue e.expiresAt),
    ("correlation_id", string e.correlationID),
    ("protocol_version", intValue e.protocolVersion)]

def payloadValue (p : InventoryPayload) : Value :=
  object [("platform", string p.platform),
    ("architecture", string p.architecture),
    ("fields", fieldsValue p.fields),
    ("collector_complete", .bool p.collectorComplete),
    ("schema_version", intValue p.schemaVersion)]

/-- `json.Marshal(message)`. -/
def messageValue (m : InventoryMessage) : Value :=
  object [("type", string m.messageType),
    ("envelope", envelopeValue m.envelope),
    ("payload", payloadValue m.payload)]

/-- The bytes of a message. -/
def encoded (envelope : Envelope) (payload : InventoryPayload) : List UInt8 :=
  encodeUtf8 (String.ofList (render (messageValue ⟨"inventory", envelope, payload⟩)))

def encodeInventory (envelope : Envelope) (payload : InventoryPayload) : Except String (List UInt8) :=
  match validateEnvelope envelope, validatePayload payload with
  | .error err, _ => .error err
  | .ok _, .error err => .error err
  | .ok _, .ok _ =>
    if maxEncodedMessage < (encoded envelope payload).length then
      .error "encoded inventory exceeds message size limit"
    else .ok (encoded envelope payload)

/-! ## Decoding -/

/-- `time.Time.UnmarshalJSON`: it reads what stands between the quotes as it is written. -/
def storeTime {σ : Type} (set : Time → σ → σ) : Value → σ → Option σ
  | .null, s => some s
  | .str l, s => (readStamp (l.flatMap Piece.render)).map fun t => set ⟨t.ns, t.offset⟩ s
  | _, _ => none

def envelopeFields : List (StructField Envelope) :=
  [⟨"message_id", storeString fun s e => { e with messageID := s }⟩,
   ⟨"endpoint_id", storeString fun s e => { e with endpointID := s }⟩,
   ⟨"boot_id", storeString fun s e => { e with bootID := s }⟩,
   ⟨"sequence", storeInt fun n e => { e with sequence := n }⟩,
   ⟨"created_at", storeTime fun t e => { e with createdAt := t }⟩,
   ⟨"expires_at", storeTime fun t e => { e with expiresAt := t }⟩,
   ⟨"correlation_id", storeString fun s e => { e with correlationID := s }⟩,
   ⟨"protocol_version", storeInt fun n e => { e with protocolVersion := n }⟩]

def payloadFields : List (StructField InventoryPayload) :=
  [⟨"platform", storeString fun s p => { p with platform := s }⟩,
   ⟨"architecture", storeString fun s p => { p with architecture := s }⟩,
   ⟨"fields", storeMap (·.fields) fun m p => { p with fields := m }⟩,
   ⟨"collector_complete", storeBool fun b p => { p with collectorComplete := b }⟩,
   ⟨"schema_version", storeInt fun n p => { p with schemaVersion := n }⟩]

def messageFields : List (StructField InventoryMessage) :=
  [⟨"type", storeString fun s m => { m with messageType := s }⟩,
   ⟨"envelope", fun v m => (decodeStruct envelopeFields v m.envelope).map fun e => { m with envelope := e }⟩,
   ⟨"payload", fun v m => (decodeStruct payloadFields v m.payload).map fun p => { m with payload := p }⟩]

/-- The zero value that `Decode` fills. -/
def emptyMessage : InventoryMessage :=
  ⟨"", ⟨"", "", "", 0, .zero, .zero, "", 0⟩, ⟨"", "", none, false, 0⟩⟩

def decodeInventory (raw : List UInt8) : Except String InventoryMessage :=
  if raw.length = 0 ∨ maxEncodedMessage < raw.length then .error "inventory message is outside the size limit"
  else match StrictJson.validate raw with
  | none => .error "inventory message JSON is invalid"
  | some v => match decodeStruct messageFields v emptyMessage with
    | none => .error "inventory message schema is invalid"
    | some message =>
      if message.messageType ≠ "inventory" then .error "inventory message type is invalid"
      else match validateEnvelope message.envelope, validatePayload message.payload with
      | .error err, _ => .error err
      | .ok _, .error err => .error err
      | .ok _, .ok _ => .ok message

/-! ## Encoded messages -/

theorem printable_fieldsValue (m : Option StringMap) (limit : Nat) :
    Printable Plain (limit + 1) (fieldsValue m) := by
  cases m with
  | none => exact .null
  | some m =>
    refine printable_object fun e he => ?_
    obtain ⟨e, -, rfl⟩ := List.mem_map.mp he
    exact printable_string e.2

theorem printable_messageValue (m : InventoryMessage) (limit : Nat) :
    Printable Plain (limit + 3) (messageValue m) := by
  have hint : ∀ (n : Int) (limit : Nat), Printable Plain limit (intValue n) := fun n _ => .num (integral_numberOf n)
  have henvelope : Printable Plain (limit + 2) (envelopeValue m.envelope) := by
    refine printable_object ?_
    simp only [List.forall_mem_cons, List.not_mem_nil, false_implies, implies_true, and_true]
    exact ⟨printable_string _, printable_string _, printable_string _, hint _ _, printable_string _,
      printable_string _, printable_string _, hint _ _⟩
  have hpayload : Printable Plain (limit + 2) (payloadValue m.payload) := by
    refine printable_object ?_
    simp only [List.forall_mem_cons, List.not_mem_nil, false_implies, implies_true, and_true]
    exact ⟨printable_string _, printable_string _, printable_fieldsValue _ _, .bool _, hint _ _⟩
  refine printable_object ?_
  simp only [List.forall_mem_cons, List.not_mem_nil, false_implies, implies_true, and_true]
  exact ⟨printable_string _, henvelope, hpayload⟩

theorem checkValue_fieldsValue (m : Option StringMap) : StrictJson.checkValue (fieldsValue m) = true := by
  cases m with
  | none => rfl
  | some m =>
    refine StrictJson.checkValue_object ?_ fun e he => ?_
    · rw [List.map_map]
      exact List.pairwise_map.mpr (m.sorted.imp fun h => ne_of_lt h)
    · obtain ⟨e, -, rfl⟩ := List.mem_map.mp he
      rfl

theorem checkValue_messageValue (m : InventoryMessage) : StrictJson.checkValue (messageValue m) = true := by
  have henvelope : StrictJson.checkValue (envelopeValue m.envelope) = true := by
    refine StrictJson.checkValue_object (by simp) ?_
    simp only [List.forall_mem_cons, List.not_mem_nil, false_implies, implies_true, and_true]
    exact ⟨rfl, rfl, rfl, rfl, rfl, rfl, rfl, rfl⟩
  have hpayload : StrictJson.checkValue (payloadValue m.payload) = true := by
    refine StrictJson.checkValue_object (by simp) ?_
    simp only [List.forall_mem_cons, List.not_mem_nil, false_implies, implies_true, and_true]
    exact ⟨rfl, rfl, checkValue_fieldsValue _, rfl, rfl⟩
  refine StrictJson.checkValue_object (by simp) ?_
  simp only [List.forall_mem_cons, List.not_mem_nil, false_implies, implies_true, and_true]
  exact ⟨rfl, henvelope, hpayload⟩

theorem storeString_string {set : String → σ → σ} {s : String} {x : σ} :
    storeString set (string s) x = some (set s x) := by
  rw [string, storeString, text_literalOf]

theorem storeInt_intValue {set : Int → σ → σ} {n : Int} {x : σ} (hlo : -2 ^ 63 ≤ n) (hhi : n < 2 ^ 63) :
    storeInt set (intValue n) x = some (set n x) := by
  rw [intValue, storeInt, parseInt64_numberOf hlo hhi]
  rfl

theorem piece_stampChar {c : Char} (h : stampChar c = true) : piece c = .char c := by
  have hdigit : ∀ n, 48 ≤ n ∧ n ≤ 57 → piece (Char.ofNat n) = .char (Char.ofNat n) := by
    intro n hn
    obtain ⟨h1, h2⟩ := hn
    interval_cases n <;> rfl
  rw [stampChar, Bool.or_eq_true, decide_eq_true_eq] at h
  rcases h with h | h
  · rw [Wire.isDigit, Bool.and_eq_true, decide_eq_true_eq, decide_eq_true_eq] at h
    have := hdigit c.toNat h
    rwa [Char.ofNat_toNat] at this
  · simp only [List.mem_cons, List.not_mem_nil, or_false] at h
    rcases h with rfl | rfl | rfl | rfl | rfl | rfl <;> rfl

/-- A date-time is written without escapes. -/
theorem render_literalOf_stamp {s : List Char} {t : Stamp} (h : readStamp s = some t) :
    (literalOf (String.ofList s)).flatMap Piece.render = s := by
  have hchars := List.all_eq_true.mp (readStamp_chars h)
  rw [literalOf, String.toList_ofList, List.map_congr_left fun c hc => piece_stampChar (hchars c hc),
    List.flatMap_map]
  exact (List.flatMap_singleton' s)

/-- A time in UTC of the shared years is read back to the nanosecond. -/
theorem storeTime_timeValue {set : Time → σ → σ} {t : Time} {x : σ} (hu : t.offset = 0)
    (hy : 1 ≤ t.year ∧ t.year ≤ 9999) : storeTime set (timeValue t) x = some (set t x) := by
  obtain ⟨ns, offset⟩ := t
  have hu : offset = 0 := hu
  subst hu
  have hyear : 0 ≤ (stampOf ns).date.year ∧ (stampOf ns).date.year ≤ 9999 := by
    simp only [Time.year, Int.zero_mul, Int.add_zero] at hy
    omega
  have hread := readStamp_text (valid_stampOf ns) hyear (nanosecond_stampOf_lt ns) rfl
  rw [timeValue, string, storeTime, render_literalOf_stamp hread, hread, Option.map_some, ns_stampOf]
  rfl

theorem decode_envelopeValue (h : ValidEnvelope e) (e₀ : Envelope) :
    decodeStruct envelopeFields (envelopeValue e) e₀ = some e := by
  have hn : (envelopeFields.map (·.name)).Nodup := by simp [envelopeFields]
  have hvalue : envelopeValue e = object (envelopeFields.zipWith (fun f v => (f.name, v))
      [string e.messageID, string e.endpointID, string e.bootID, intValue e.sequence, timeValue e.createdAt,
        timeValue e.expiresAt, string e.correlationID, intValue e.protocolVersion]) := rfl
  have hseq := h.sequence
  have hver := h.protocolVersion
  rw [hvalue, decodeStruct_object hn]
  simp only [envelopeFields, storeAll, storeString_string, Option.bind_some,
    storeInt_intValue (n := e.sequence) (by omega) hseq.2,
    storeInt_intValue (n := e.protocolVersion) (by omega) (by omega),
    storeTime_timeValue h.created_utc h.created_year, storeTime_timeValue h.expires_utc h.expires_year]

theorem decode_payloadValue (h : ValidPayload p) (p₀ : InventoryPayload)
    (h₀ : p₀.fields = none) : decodeStruct payloadFields (payloadValue p) p₀ = some p := by
  have hn : (payloadFields.map (·.name)).Nodup := by simp [payloadFields]
  have hvalue : payloadValue p = object (payloadFields.zipWith (fun f v => (f.name, v))
      [string p.platform, string p.architecture, fieldsValue p.fields, .bool p.collectorComplete,
        intValue p.schemaVersion]) := rfl
  have hver := h.schemaVersion
  obtain ⟨m, hm, -⟩ := h.fields
  have hfields : ∀ x : InventoryPayload, x.fields = none →
      storeMap (·.fields) (fun m p => { p with fields := m }) (fieldsValue p.fields) x =
        some { x with fields := p.fields } := by
    intro x hx
    have hentries := decodeEntries_sorted (l := m.entries) (m := .empty) m.sorted
    rw [hm, fieldsValue, object, storeMap, hx]
    rw [List.map_map]
    exact congrArg (Option.map _) hentries
  rw [hvalue, decodeStruct_object hn]
  simp only [payloadFields, storeAll, storeString_string, Option.bind_some]
  rw [hfields ⟨p.platform, p.architecture, p₀.fields, p₀.collectorComplete, p₀.schemaVersion⟩ h₀]
  simp only [Option.bind_some, storeBool, storeInt_intValue (n := p.schemaVersion) (by omega) (by omega)]

theorem decode_messageValue {m : InventoryMessage} (he : ValidEnvelope m.envelope) (hp : ValidPayload m.payload) :
    decodeStruct messageFields (messageValue m) emptyMessage = some m := by
  have hn : (messageFields.map (·.name)).Nodup := by simp [messageFields]
  have hvalue : messageValue m = object (messageFields.zipWith (fun f v => (f.name, v))
      [string m.messageType, envelopeValue m.envelope, payloadValue m.payload]) := rfl
  rw [hvalue, decodeStruct_object hn]
  simp only [messageFields, storeAll, storeString_string, Option.bind_some, decode_envelopeValue he,
    decode_payloadValue hp emptyMessage.payload rfl, Option.map_some]

/-! ## Round trip -/

/-- What an accepted call of `EncodeInventory` returns. -/
theorem encodeInventory_ok :
    encodeInventory e p = .ok raw ↔
      ValidEnvelope e ∧ ValidPayload p ∧ raw = encoded e p ∧ raw.length ≤ maxEncodedMessage := by
  rw [← validateEnvelope_ok, ← validatePayload_ok, encodeInventory]
  generalize encoded e p = out
  split
  · rename_i hv
    simp [hv]
  · rename_i hv hp
    simp [hp]
  · rename_i hv hp
    split
    · refine iff_of_false nofun ?_
      rintro ⟨-, -, rfl, hlen⟩
      omega
    · constructor
      · rintro ⟨⟩
        exact ⟨hv, hp, rfl, by omega⟩
      · rintro ⟨-, -, rfl, -⟩
        rfl

/-- What a text decodes to. -/
theorem decodeInventory_ok {m : InventoryMessage} :
    decodeInventory raw = .ok m ↔ raw ≠ [] ∧ raw.length ≤ maxEncodedMessage ∧
      (∃ v, StrictJson.validate raw = some v ∧ decodeStruct messageFields v emptyMessage = some m) ∧
      m.messageType = "inventory" ∧ ValidEnvelope m.envelope ∧ ValidPayload m.payload := by
  rw [← validateEnvelope_ok, ← validatePayload_ok, decodeInventory]
  by_cases hsize : raw.length = 0 ∨ maxEncodedMessage < raw.length
  · rw [if_pos hsize]
    refine iff_of_false nofun ?_
    rintro ⟨hne, hlen, -⟩
    rcases hsize with h | h
    · exact hne (List.length_eq_zero_iff.mp h)
    · omega
  rw [if_neg hsize]
  rw [not_or] at hsize
  have hne : raw ≠ [] := fun h => hsize.1 (by rw [h]; rfl)
  have hlen : raw.length ≤ maxEncodedMessage := Nat.not_lt.mp hsize.2
  cases hv : StrictJson.validate raw with
  | none => simp
  | some v =>
    cases hd : decodeStruct messageFields v emptyMessage with
    | none => simp [hd]
    | some m' =>
      simp only [Option.some.injEq, exists_eq_left', hd]
      by_cases ht : m'.messageType = "inventory"
      · rw [if_neg (not_not.mpr ht)]
        split
        · rename_i he
          refine iff_of_false nofun ?_
          rintro ⟨-, -, rfl, -, he', -⟩
          rw [he] at he'
          cases he'
        · rename_i hp
          refine iff_of_false nofun ?_
          rintro ⟨-, -, rfl, -, -, hp'⟩
          rw [hp] at hp'
          cases hp'
        · rename_i he hp
          constructor
          · rintro ⟨⟩
            exact ⟨hne, hlen, rfl, ht, he, hp⟩
          · rintro ⟨-, -, rfl, -⟩
            rfl
      · rw [if_pos ht]
        refine iff_of_false nofun ?_
        rintro ⟨-, -, rfl, ht', -⟩
        exact ht ht'

theorem encoded_ne_nil (e : Envelope) (p : InventoryPayload) : encoded e p ≠ [] := by
  intro h
  have hsize : (encoded e p).length = 0 := by rw [h]; rfl
  rw [encoded, length_encodeUtf8, messageValue, object, render] at hsize
  simp at hsize

/-- `DecodeInventory` returns what `EncodeInventory` was given. -/
theorem decode_encode
    (h : encodeInventory e p = .ok raw) : decodeInventory raw = .ok ⟨"inventory", e, p⟩ := by
  obtain ⟨he, hp, rfl, hlen⟩ := encodeInventory_ok.mp h
  have hvalid := StrictJson.validate_render (printable_messageValue ⟨"inventory", e, p⟩ 9997)
    (checkValue_messageValue ⟨"inventory", e, p⟩)
  exact decodeInventory_ok.mpr ⟨encoded_ne_nil e p, hlen, ⟨_, hvalid, decode_messageValue he hp⟩, rfl, he, hp⟩

end NorthgateRmm.Agent.Protocol
