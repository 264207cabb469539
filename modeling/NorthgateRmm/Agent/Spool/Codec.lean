import NorthgateRmm.Agent.Protocol

/-!
# The bytes of a spool record

The other modules of the spool take a file to hold a record, nothing, or bytes that do
not decode. This one is about the bytes: the JSON text that `Enqueue` writes, what
`decodeRecord` and `readRecordItem` make of an arbitrary byte string, and the text that
`recordDigest` hashes.
-/

namespace NorthgateRmm.Agent.Spool.Codec

open Json GoJson Wire Sha256
open Protocol (Time storeTime timeValue intValue)
open String (utf8Len)

/-! ## Base64 -/

/-- The number of a digit of the standard alphabet. -/
def base64Value (c : Char) : Option Nat :=
  if 'A' ≤ c ∧ c ≤ 'Z' then some (c.toNat - 65)
  else if 'a' ≤ c ∧ c ≤ 'z' then some (c.toNat - 71)
  else if '0' ≤ c ∧ c ≤ '9' then some (c.toNat + 4)
  else if c = '+' then some 62
  else if c = '/' then some 63
  else none

/-- One byte out of two digits; the low four bits of the second are not looked at. -/
def oneByte (a b : Char) : Option (List UInt8) := do
  let a ← base64Value a
  let b ← base64Value b
  some [UInt8.ofNat (a * 4 + b / 16)]

def twoBytes (a b c : Char) : Option (List UInt8) := do
  let a ← base64Value a
  let b ← base64Value b
  let c ← base64Value c
  some [UInt8.ofNat (a * 4 + b / 16), UInt8.ofNat (b % 16 * 16 + c / 4)]

def threeBytes (a b c d : Char) : Option (List UInt8) := do
  let a ← base64Value a
  let b ← base64Value b
  let c ← base64Value c
  let d ← base64Value d
  some [UInt8.ofNat (a * 4 + b / 16), UInt8.ofNat (b % 16 * 16 + c / 4), UInt8.ofNat (c % 4 * 64 + d)]

/-- Groups of four digits, of which the last may be padded. -/
def decodeQuanta : List Char → Option (List UInt8)
  | [] => some []
  | a :: b :: c :: d :: rest =>
    if d = '=' then
      if rest ≠ [] then none else if c = '=' then oneByte a b else twoBytes a b c
    else (threeBytes a b c d).bind fun bytes => (decodeQuanta rest).map (bytes ++ ·)
  | _ => none

/-- `base64.StdEncoding.Decode`, which skips line ends. -/
def base64Decode (s : List Char) : Option (List UInt8) := decodeQuanta (s.filter fun c => c ≠ '\r' ∧ c ≠ '\n')

theorem base64Value_base64Digit : ∀ n < 64, base64Value (base64Digit n) = some n := by decide +kernel

theorem base64Digit_ne : ∀ n < 64, base64Digit n ≠ '=' ∧ base64Digit n ≠ '\r' ∧ base64Digit n ≠ '\n' := by
  decide +kernel

theorem bare_base64Digit : ∀ n < 64, 39 ≤ (base64Digit n).toNat ∧ (base64Digit n).toNat ≤ 122 ∧
    base64Digit n ∉ ['<', '>', '\\'] := by decide +kernel

theorem ofNat_toNat_of {n : Nat} {b : UInt8} (h : n = b.toNat) : UInt8.ofNat n = b := by
  rw [h, UInt8.ofNat_toNat]

/-- What is written for bytes is read back as them. -/
theorem decodeQuanta_base64 (bs : List UInt8) : decodeQuanta (base64 bs) = some bs := by
  fun_induction base64 bs with
  | case1 => rfl
  | case2 a =>
    have ha := a.toNat_lt
    rw [decodeQuanta, if_pos rfl, if_neg (not_not.2 rfl), if_pos rfl, oneByte,
      base64Value_base64Digit _ (by omega), base64Value_base64Digit _ (by omega)]
    exact congrArg (fun x => some [x]) (ofNat_toNat_of (by omega))
  | case3 a b =>
    have ha := a.toNat_lt
    have hb := b.toNat_lt
    rw [decodeQuanta, if_pos rfl, if_neg (not_not.2 rfl), if_neg (base64Digit_ne _ (by omega)).1, twoBytes,
      base64Value_base64Digit _ (by omega), base64Value_base64Digit _ (by omega), base64Value_base64Digit _ (by omega)]
    exact congrArg₂ (fun x y => some [x, y]) (ofNat_toNat_of (by omega)) (ofNat_toNat_of (by omega))
  | case4 a b c rest ih =>
    have ha := a.toNat_lt
    have hb := b.toNat_lt
    have hc := c.toNat_lt
    rw [decodeQuanta, if_neg (base64Digit_ne _ (by omega)).1, ih, threeBytes, base64Value_base64Digit _ (by omega),
      base64Value_base64Digit _ (by omega), base64Value_base64Digit _ (by omega), base64Value_base64Digit _ (by omega)]
    have h1 : UInt8.ofNat (a.toNat / 4 * 4 + (a.toNat % 4 * 16 + b.toNat / 16) / 16) = a := ofNat_toNat_of (by omega)
    have h2 : UInt8.ofNat ((a.toNat % 4 * 16 + b.toNat / 16) % 16 * 16 + (b.toNat % 16 * 4 + c.toNat / 64) / 4) = b :=
      ofNat_toNat_of (by omega)
    have h3 : UInt8.ofNat ((b.toNat % 16 * 4 + c.toNat / 64) % 4 * 64 + c.toNat % 64) = c := ofNat_toNat_of (by omega)
    show some ([UInt8.ofNat _, UInt8.ofNat _, UInt8.ofNat _] ++ rest) = _
    rw [h1, h2, h3]
    rfl

/-- What is written is made of digits and padding. -/
theorem base64_chars (bs : List UInt8) : ∀ c ∈ base64 bs, c = '=' ∨ ∃ n < 64, c = base64Digit n := by
  fun_induction base64 bs with
  | case1 => exact List.forall_mem_nil _
  | case2 a =>
    have ha := a.toNat_lt
    simp only [List.forall_mem_cons, List.not_mem_nil, false_implies, implies_true, and_true]
    exact ⟨.inr ⟨_, by omega, rfl⟩, .inr ⟨_, by omega, rfl⟩, .inl trivial, .inl trivial⟩
  | case3 a b =>
    have ha := a.toNat_lt
    have hb := b.toNat_lt
    simp only [List.forall_mem_cons, List.not_mem_nil, false_implies, implies_true, and_true]
    exact ⟨.inr ⟨_, by omega, rfl⟩, .inr ⟨_, by omega, rfl⟩, .inr ⟨_, by omega, rfl⟩, .inl trivial⟩
  | case4 a b c rest ih =>
    have ha := a.toNat_lt
    have hb := b.toNat_lt
    have hc := c.toNat_lt
    simp only [List.forall_mem_cons]
    exact ⟨.inr ⟨_, by omega, rfl⟩, .inr ⟨_, by omega, rfl⟩, .inr ⟨_, by omega, rfl⟩, .inr ⟨_, by omega, rfl⟩, ih⟩

theorem base64Decode_base64 (bs : List UInt8) : base64Decode (base64 bs) = some bs := by
  have hkeep : (base64 bs).filter (fun c => c ≠ '\r' ∧ c ≠ '\n') = base64 bs := by
    refine List.filter_eq_self.2 fun c hc => decide_eq_true ?_
    rcases base64_chars bs c hc with rfl | ⟨n, hn, rfl⟩
    · decide
    · exact (base64Digit_ne n hn).2
  rw [base64Decode, hkeep, decodeQuanta_base64]

theorem bare_base64 (bs : List UInt8) : ∀ c ∈ base64 bs, Bare c := by
  intro c hc
  rcases base64_chars bs c hc with rfl | ⟨n, hn, rfl⟩
  · exact bare_of_range (by decide) (by decide)
  · obtain ⟨hlo, hhi, hne⟩ := bare_base64Digit n hn
    exact bare_of_range ⟨hlo, hhi⟩ hne

/-! ## The record -/

/-- `record`, as the decoder fills it. -/
structure Item where
  schemaVersion : Int
  id : String
  order : Nat
  createdAt : Time
  payload : List UInt8
  sha256 : String
  deriving DecidableEq

/-- What `recordDigest` hashes: a fixed tag, the ID, the order in eight big-endian bytes
and the payload, without separators. -/
def frame (id : String) (order : Nat) (payload : List UInt8) : List UInt8 :=
  encodeUtf8 "northgate-rmm-spool-v2\x00" ++ encodeUtf8 id ++ beBytes 8 order ++ payload

def recordDigest (id : String) (order : Nat) (payload : List UInt8) : String := sha256Hex (frame id order payload)

/-- `json.Marshal(item)`. -/
def itemValue (item : Item) : Value :=
  object [("schema_version", intValue item.schemaVersion),
    ("id", string item.id),
    ("order", intValue item.order),
    ("created_at", timeValue item.createdAt),
    ("payload", string (String.ofList (base64 item.payload))),
    ("sha256", string item.sha256)]

/-- The item that `Enqueue` writes. -/
def enqueued (id : String) (order : Nat) (createdAt : Time) (payload : List UInt8) : Item :=
  ⟨schemaVersion, id, order, createdAt, payload, recordDigest id order payload⟩

/-- The bytes that `Enqueue` writes. -/
def written (id : String) (order : Nat) (createdAt : Time) (payload : List UInt8) : List UInt8 :=
  encodeUtf8 (String.ofList (render (itemValue (enqueued id order createdAt payload))))

/-! ## Decoding -/

/-- An element of a JSON array as a `uint8`. -/
def byteOf : Value → Option UInt8
  | .null => some 0
  | .num n => (parseUint64 n).bind fun v => if v < 256 then some (UInt8.ofNat v) else none
  | _ => none

/-- A `[]byte` is stored from base64 text or from an array of numbers. -/
def storeBytes {σ : Type} (set : List UInt8 → σ → σ) : Value → σ → Option σ
  | .null, s => some (set [] s)
  | .str l, s => (base64Decode (text l).toList).map fun bytes => set bytes s
  | .arr items, s => (items.mapM byteOf).map fun bytes => set bytes s
  | _, _ => none

def itemFields : List (StructField Item) :=
  [⟨"schema_version", storeInt fun n r => { r with schemaVersion := n }⟩,
   ⟨"id", storeString fun s r => { r with id := s }⟩,
   ⟨"order", storeUint64 fun n r => { r with order := n }⟩,
   ⟨"created_at", storeTime fun t r => { r with createdAt := t }⟩,
   ⟨"payload", storeBytes fun b r => { r with payload := b }⟩,
   ⟨"sha256", storeString fun s r => { r with sha256 := s }⟩]

/-- The zero value that `Decode` fills. -/
def emptyItem : Item := ⟨0, "", 0, .zero, [], ""⟩

def decodeRecord (raw : List UInt8) : Option Item :=
  (StrictJson.validate raw).bind fun v => (decodeStruct itemFields v emptyItem).bind fun item =>
    if item.schemaVersion ≠ schemaVersion ∨ item.order = 0 ∨ item.createdAt.isZero then none else some item

/-- `readRecordItem` on the bytes of `<id>.json`; every failure is `ErrCorrupt`. -/
def readRecordItem (id : String) (raw : List UInt8) : Option Item :=
  if maxRecordBytes < raw.length then none
  else (decodeRecord raw).bind fun item =>
    if item.id ≠ id ∨ item.payload.length = 0 ∨ maxPayloadBytes < item.payload.length then none
    else if item.sha256 ≠ recordDigest item.id item.order item.payload then none
    else some item

/-- What is accepted under an ID. -/
theorem readRecordItem_some {id : String} {raw : List UInt8} {item : Item} :
    readRecordItem id raw = some item ↔ raw.length ≤ maxRecordBytes ∧ decodeRecord raw = some item ∧ item.id = id ∧
      0 < item.payload.length ∧ item.payload.length ≤ maxPayloadBytes ∧
      item.sha256 = recordDigest item.id item.order item.payload := by
  rw [readRecordItem]
  by_cases hlen : maxRecordBytes < raw.length
  · rw [if_pos hlen]
    exact iff_of_false nofun fun h => absurd h.1 (by omega)
  rw [if_neg hlen, Option.bind_eq_some_iff]
  constructor
  · rintro ⟨item', hdecode, h⟩
    split_ifs at h with hfields hdigest
    obtain rfl := Option.some.inj h
    rw [not_or, not_or, not_not] at hfields
    exact ⟨by omega, hdecode, hfields.1, by omega, by omega, not_not.1 hdigest⟩
  · rintro ⟨-, hdecode, hid, hpos, hle, hdigest⟩
    refine ⟨item, hdecode, ?_⟩
    rw [if_neg, if_neg (not_not.2 hdigest)]
    rintro (h | h | h)
    · exact h hid
    · omega
    · omega

/-! ## Reading back what was written -/

theorem storeBytes_base64 {σ : Type} {set : List UInt8 → σ → σ} {bs : List UInt8} {x : σ} :
    storeBytes set (string (String.ofList (base64 bs))) x = some (set bs x) := by
  rw [string, storeBytes, text_literalOf, String.toList_ofList, base64Decode_base64]
  rfl

theorem storeUint64_intValue {σ : Type} {set : Nat → σ → σ} {n : Nat} {x : σ} (h : n < 2 ^ 64) :
    storeUint64 set (intValue n) x = some (set n x) := by
  rw [intValue, storeUint64, parseUint64_numberOf h]
  rfl

theorem validate_itemValue (item : Item) :
    StrictJson.validate (encodeUtf8 (String.ofList (render (itemValue item)))) = some (itemValue item) := by
  have hint : ∀ (n : Int) (limit : Nat), Printable Plain limit (intValue n) := fun n _ => .num (integral_numberOf n)
  have hprintable : Printable Plain maxNestingDepth (itemValue item) := by
    refine printable_object ?_
    simp only [List.forall_mem_cons, List.not_mem_nil, false_implies, implies_true, and_true]
    exact ⟨hint _ _, printable_string _, hint _ _, printable_string _, printable_string _, printable_string _⟩
  have hnames : StrictJson.checkValue (itemValue item) = true := by
    refine StrictJson.checkValue_object (by simp) ?_
    simp only [List.forall_mem_cons, List.not_mem_nil, false_implies, implies_true, and_true]
    exact ⟨rfl, rfl, rfl, rfl, rfl, rfl⟩
  exact StrictJson.validate_render hprintable hnames

section Written

variable {id : String} {order : Nat} {createdAt : Time} {payload : List UInt8}

theorem decodeStruct_itemValue (item : Item) (hversion : item.schemaVersion = schemaVersion) (horder : item.order < 2 ^ 64)
    (hutc : item.createdAt.offset = 0) (hyear : 1 ≤ item.createdAt.year ∧ item.createdAt.year ≤ 9999) :
    decodeStruct itemFields (itemValue item) emptyItem = some item := by
  have hn : (itemFields.map (·.name)).Nodup := by simp [itemFields]
  have hvalue : itemValue item = object (itemFields.zipWith (fun f v => (f.name, v))
      [intValue item.schemaVersion, string item.id, intValue item.order, timeValue item.createdAt,
        string (String.ofList (base64 item.payload)), string item.sha256]) := rfl
  have hsmall : -2 ^ 63 ≤ item.schemaVersion ∧ item.schemaVersion < 2 ^ 63 := by rw [hversion]; decide
  rw [hvalue, decodeStruct_object hn]
  simp only [itemFields, storeAll, Protocol.storeString_string, Option.bind_some, storeBytes_base64,
    Protocol.storeInt_intValue (n := item.schemaVersion) hsmall.1 hsmall.2, storeUint64_intValue horder,
    Protocol.storeTime_timeValue hutc hyear]

theorem decodeRecord_written (hpos : 1 ≤ order) (horder : order < 2 ^ 64) (hutc : createdAt.offset = 0)
    (hyear : 1 ≤ createdAt.year ∧ createdAt.year ≤ 9999) (hzero : createdAt.isZero = false) :
    decodeRecord (written id order createdAt payload) = some (enqueued id order createdAt payload) := by
  rw [decodeRecord, written, validate_itemValue, Option.bind_some,
    decodeStruct_itemValue (enqueued id order createdAt payload) rfl horder hutc hyear, Option.bind_some, if_neg]
  rintro (h | h | h)
  · exact h rfl
  · exact absurd h (by show order ≠ 0; omega)
  · exact absurd h (by show ¬ createdAt.isZero = true; rw [hzero]; exact Bool.false_ne_true)

theorem bare_hexDigit {c : Char} (h : isHexDigit c = true) : Bare c := by
  obtain ⟨n, hn, rfl⟩ := eq_hexDigit h
  have hrange : ∀ n < 16, 39 ≤ (Sha256.hexDigit n).toNat ∧ (Sha256.hexDigit n).toNat ≤ 122 ∧
      Sha256.hexDigit n ∉ ['<', '>', '\\'] := by
    decide
  exact bare_of_range ⟨(hrange n hn).1, (hrange n hn).2.1⟩ (hrange n hn).2.2

theorem bare_toText {u : Uuid} : ∀ c ∈ u.toText.toList, Bare c := by
  intro c hc
  rcases Uuid.mem_toText hc with hc | rfl
  · exact bare_hexDigit hc
  · exact bare_of_range (by decide) (by decide)

theorem utf8Len_id (h : uuidPattern id = true) : utf8Len (render (string id)) = 38 := by
  obtain ⟨u, -, rfl⟩ := parseUuid_of_pattern h
  rw [utf8Len_string_bare bare_toText, String.length_toList, Uuid.length_toText]

theorem utf8Len_sha256Hex (msg : List UInt8) : utf8Len (render (string (sha256Hex msg))) = 66 := by
  have hbare : ∀ c ∈ (sha256Hex msg).toList, Bare c := by
    rw [sha256Hex, String.toList_ofList]
    exact fun c hc => bare_hexDigit (List.all_eq_true.1 (all_hexEncode _) c hc)
  rw [utf8Len_string_bare hbare, length_sha256Hex]

theorem utf8Len_timeValue (hyear : 1 ≤ createdAt.year ∧ createdAt.year ≤ 9999) (hutc : createdAt.offset = 0) :
    utf8Len (render (timeValue createdAt)) ≤ 32 := by
  have hyear : 0 ≤ (stampOf createdAt.ns).date.year ∧ (stampOf createdAt.ns).date.year ≤ 9999 := by
    rw [Time.year, hutc, Int.zero_mul, Int.add_zero] at hyear
    omega
  have hread := readStamp_text (valid_stampOf createdAt.ns) hyear (nanosecond_stampOf_lt createdAt.ns) rfl
  have hchars := List.all_eq_true.mp (readStamp_chars hread)
  have hbare : ∀ c ∈ stampText (stampOf createdAt.ns), Bare c := by
    intro c hc
    have h := hchars c hc
    rw [stampChar, Bool.or_eq_true, decide_eq_true_eq] at h
    rcases h with h | h
    · rw [Wire.isDigit, Bool.and_eq_true, decide_eq_true_eq, decide_eq_true_eq] at h
      exact bare_hexDigit (by rw [isHexDigit, decide_eq_true h.1, decide_eq_true h.2]; rfl)
    · simp only [List.mem_cons, List.not_mem_nil, or_false] at h
      rcases h with rfl | rfl | rfl | rfl | rfl | rfl <;> exact bare_of_range (by decide) (by decide)
  have hfraction := length_fraction_le (stampOf createdAt.ns).nanosecond
  have hlength : (stampText (stampOf createdAt.ns)).length ≤ 30 := by
    simp only [stampText, List.length_append, List.length_cons, List.length_nil, length_fixedDigits]
    omega
  rw [timeValue, utf8Len_string_bare (by rwa [String.toList_ofList]), String.toList_ofList]
  omega

/-- What `Enqueue` writes fits in a record file. -/
theorem length_written_le (hid : uuidPattern id = true) (horder : order < 2 ^ 64) (hutc : createdAt.offset = 0)
    (hyear : 1 ≤ createdAt.year ∧ createdAt.year ≤ 9999) (hpayload : payload.length ≤ maxPayloadBytes) :
    (written id order createdAt payload).length ≤ maxRecordBytes := by
  have hnames : utf8Len (render (string "schema_version")) = 16 ∧ utf8Len (render (string "id")) = 4 ∧
      utf8Len (render (string "order")) = 7 ∧ utf8Len (render (string "created_at")) = 12 ∧
      utf8Len (render (string "payload")) = 9 ∧ utf8Len (render (string "sha256")) = 8 := by decide +kernel
  have hversion : utf8Len (render (intValue schemaVersion)) = 1 := by decide +kernel
  have hnumber : utf8Len (render (intValue order)) ≤ 20 :=
    utf8Len_numberOf (by decide) (Nat.lt_trans horder (by decide))
  have htime := utf8Len_timeValue hyear hutc
  have hdata : utf8Len (render (string (String.ofList (base64 payload)))) = 4 * ((payload.length + 2) / 3) + 2 := by
    rw [utf8Len_string_bare (by rw [String.toList_ofList]; exact bare_base64 payload), String.toList_ofList,
      length_base64]
  have hobject := utf8Len_object_le [("schema_version", intValue schemaVersion), ("id", string id),
    ("order", intValue order), ("created_at", timeValue createdAt),
    ("payload", string (String.ofList (base64 payload))), ("sha256", string (recordDigest id order payload))]
  simp only [List.map_cons, List.map_nil, List.sum_cons, List.sum_nil, hnames, hversion, utf8Len_id hid, hdata,
    recordDigest, utf8Len_sha256Hex] at hobject
  rw [maxPayloadBytes] at hpayload
  rw [written, length_encodeUtf8, String.utf8ByteSize_ofList, maxRecordBytes]
  refine le_trans hobject ?_
  omega

/-- The framing tells the records apart: the tag, the ID and the order have a fixed length. -/
theorem frame_injective {id' : String} {order' : Nat} {payload' : List UInt8} (hid : uuidPattern id = true)
    (hid' : uuidPattern id' = true) (horder : order < 2 ^ 64) (horder' : order' < 2 ^ 64)
    (h : frame id order payload = frame id' order' payload') : id = id' ∧ order = order' ∧ payload = payload' := by
  have hlength : ∀ s : String, uuidPattern s = true → (encodeUtf8 s).length = 36 := by
    intro s hs
    obtain ⟨u, -, rfl⟩ := parseUuid_of_pattern hs
    have hsize : u.toText.utf8ByteSize = utf8Len u.toText.toList := by
      rw [← String.utf8ByteSize_ofList, String.ofList_toList]
    rw [length_encodeUtf8, hsize, utf8Len_bare bare_toText, String.length_toList, Uuid.length_toText]
  rw [frame, frame, List.append_assoc, List.append_assoc, List.append_assoc, List.append_assoc] at h
  obtain ⟨htext, hrest⟩ := List.append_inj (List.append_cancel_left h) ((hlength id hid).trans (hlength id' hid').symm)
  obtain ⟨hbytes, hpayload⟩ := List.append_inj hrest ((length_beBytes 8 order).trans (length_beBytes 8 order').symm)
  have hsame : id = id' := Option.some.inj (by rw [← decodeUtf8_encodeUtf8 id, htext, decodeUtf8_encodeUtf8])
  exact ⟨hsame, beBytes_inj (by omega) (by omega) hbytes, hpayload⟩

end Written

/-- The digests of the two models of a record agree. -/
theorem recordDigest_toText (id : Uuid) (order : Nat) (payload : List UInt8) :
    recordDigest id.toText order payload = Spool.recordDigest id order payload := by
  rw [recordDigest, Spool.recordDigest, frame, toList_toUTF8, toList_toUTF8]

/-- **Record codec.** What `Enqueue` writes for a canonical ID, an order, a time and a payload fits
in a record file and is read back as that payload and order; whatever is accepted under an ID
carries the digest of the ID, order and payload that are returned; and what is hashed determines
them. -/
theorem record_round_trip :
    (∀ (id : String) (order : Nat) (createdAt : Time) (payload : List UInt8), uuidPattern id = true →
      1 ≤ order → order ≤ 2 ^ 64 - 1 → createdAt.offset = 0 → 1 ≤ createdAt.year → createdAt.year ≤ 9999 →
      createdAt ≠ .zero → 1 ≤ payload.length → payload.length ≤ 65536 →
      (written id order createdAt payload).length ≤ 100000 ∧
      ∃ item, readRecordItem id (written id order createdAt payload) = some item ∧ item.payload = payload ∧
        item.order = order) ∧
    (∀ (id : String) (raw : List UInt8) (item : Item), readRecordItem id raw = some item →
      item.id = id ∧ item.sha256 = sha256Hex (frame item.id item.order item.payload)) ∧
    ∀ (id id' : String) (order order' : Nat) (payload payload' : List UInt8), uuidPattern id = true →
      uuidPattern id' = true → order < 2 ^ 64 → order' < 2 ^ 64 → frame id order payload = frame id' order' payload' →
      id = id' ∧ order = order' ∧ payload = payload' := by
  refine ⟨?_, ?_, ?_⟩
  · intro id order createdAt payload hid hpos horder hutc hfirst hlast hzero hsome hsize
    have hnonzero : createdAt.isZero = false := by
      obtain ⟨ns, offset⟩ := createdAt
      have hutc : offset = 0 := hutc
      subst hutc
      rw [Time.isZero, decide_eq_false_iff_not]
      exact fun h => hzero (congrArg (Time.mk · 0) h)
    have horder : order < 2 ^ 64 := by omega
    have hlength := length_written_le hid horder hutc ⟨hfirst, hlast⟩ hsize
    refine ⟨hlength, _, readRecordItem_some.2 ⟨hlength,
      decodeRecord_written hpos horder hutc ⟨hfirst, hlast⟩ hnonzero, rfl, hsome, hsize, rfl⟩, rfl, rfl⟩
  · intro id raw item h
    obtain ⟨-, -, hid, -, -, hdigest⟩ := readRecordItem_some.1 h
    exact ⟨hid, hdigest⟩
  · intro id id' order order' payload payload' hid hid' horder horder' h
    exact frame_injective hid hid' horder horder' h

theorem sample_record_round_trip :
    ∃ item, readRecordItem "00000000-0000-4000-8000-000000000001"
      (written "00000000-0000-4000-8000-000000000001" 7 ⟨0, 0⟩ [104, 105]) = some item ∧
      item.payload = [104, 105] ∧ item.order = 7 :=
  (record_round_trip.1 _ 7 ⟨0, 0⟩ [104, 105] (by decide +kernel) (by decide) (by decide) rfl (by decide +kernel)
    (by decide +kernel) (by decide) (by decide) (by decide)).2

end NorthgateRmm.Agent.Spool.Codec
