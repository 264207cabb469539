import NorthgateRmm.Agent.StrictJson
import NorthgateRmm.Agent.Transport.Retry

/-!
# `MTLSSender.Send`

One message is posted over a new connection, and `Send` returns nil only on an
acknowledgement in the body of the response. The connection is an argument: what came of
the request, and of a response its status, its media type and its body.
-/

namespace NorthgateRmm.Agent.Transport

open Json GoJson
open Spool (ContextError)

def maxResponseBytes : Nat := 4 * 1024
def maxRequestBytes : Nat := 65536

/-! ## The connection -/

/-- An error of `client.Do`, as far as `classifyNetworkError` tells them apart. -/
inductive NetworkError
  | redirect
  | deadlineExceeded
  | handshake (transient : Bool)
  /-- a certificate, an alert or a record that TLS refused -/
  | trust
  | other
  deriving DecidableEq, Repr

/-- What `mime.ParseMediaType` returns. -/
structure MediaType where
  mediaType : String
  parameters : List (String × String)
  deriving DecidableEq, Repr

structure Response where
  status : Nat
  /-- `none` when the header does not parse -/
  contentType : Option MediaType
  body : List UInt8
  /-- reading fails where the body ends -/
  broken : Bool := false
  deriving DecidableEq, Repr

inductive Attempt
  | unbuilt
  | failed (e : NetworkError)
  | answered (response : Response)
  deriving DecidableEq, Repr

def retryableStatus (status : Nat) : Bool := status ∈ [408, 429, 500, 502, 503, 504]

def classifyNetworkError (ctxErr : Option ContextError) (e : NetworkError) : DeliveryError :=
  match ctxErr with
  | some cause => { code := "request_stopped", cause := some cause }
  | none => match e with
    | .redirect => { code := "request_stopped" }
    | .deadlineExceeded => { code := "request_timeout", retryable := true }
    | .handshake true => { code := "network_failed", retryable := true }
    | .handshake false => { code := "tls_trust_failed" }
    | .trust => { code := "tls_trust_failed" }
    | .other => { code := "network_failed", retryable := true }

/-- The media types of an acknowledgement. -/
def MediaType.acceptable (t : MediaType) : Bool :=
  t.mediaType = "application/json" && t.parameters.length ≤ 1 &&
    (t.parameters.lookup "charset").all fun charset => foldName charset = foldName "utf-8"

/-- `io.ReadAll(io.LimitReader(body, limit))`: an error past the limit is not seen. -/
def Response.read (r : Response) (limit : Nat) : Option (List UInt8) :=
  if r.body.length < limit ∧ r.broken then none else some (r.body.take limit)

/-! ## The acknowledgement -/

structure Acknowledgement where
  messageID : String
  accepted : Option Bool
  deriving DecidableEq, Repr

def acknowledgementFields : List (StructField Acknowledgement) :=
  [⟨"message_id", storeString fun s a => { a with messageID := s }⟩,
   ⟨"accepted", storeBoolPointer fun b a => { a with accepted := b }⟩]

def invalidAcknowledgement : DeliveryError := { code := "invalid_acknowledgement" }

/-- What `Send` makes of the bytes of the body. -/
def acknowledge (messageID : String) (raw : List UInt8) : Except DeliveryError Unit :=
  if raw.length = 0 ∨ maxResponseBytes < raw.length then .error { code := "invalid_response_size" }
  else match StrictJson.validate raw with
    | none => .error invalidAcknowledgement
    | some v => match decodeStruct acknowledgementFields v ⟨"", none⟩ with
      | none => .error invalidAcknowledgement
      | some ack =>
        if ack.messageID ≠ messageID then .error { code := "acknowledgement_mismatch" }
        else match ack.accepted with
          | none => .error invalidAcknowledgement
          | some false => .error { code := "acknowledgement_rejected" }
          | some true => .ok ()

/-- `Send`, on what came of its request; `ctxErr` is what `ctx.Err` returns when it is asked. -/
def send (ctxErr : Option ContextError) (messageID : String) (payload : List UInt8) (attempt : Attempt) :
    Except DeliveryError Unit :=
  if !Wire.uuidPattern messageID then .error { code := "invalid_message_id" }
  else if payload.length = 0 ∨ maxRequestBytes < payload.length then .error { code := "invalid_payload_size" }
  else match attempt with
    | .unbuilt => .error { code := "request_build_failed" }
    | .failed e => .error (classifyNetworkError ctxErr e)
    | .answered response =>
      if response.status ≠ 200 then
        .error { code := "http_status", retryable := retryableStatus response.status, status := response.status }
      else if !response.contentType.any MediaType.acceptable then .error { code := "invalid_response_type" }
      else match response.read (maxResponseBytes + 1) with
        | none => match ctxErr with
          | some cause => .error { code := "request_stopped", cause := some cause }
          | none => .error { code := "response_read_failed", retryable := true }
        | some raw => acknowledge messageID raw

/-! ## What is taken for an acknowledgement -/

/-- The values of the members whose names fold to the name of a field. -/
def spoken (field : String) (members : List (Literal × Value)) : List Value :=
  (members.filter fun m => foldName (text m.1) = foldName field).map (·.2)

def textOf : Value → Option String
  | .str l => some (text l)
  | _ => none

/-- An object that acknowledges a message when letter case is left aside: the last text under
`message_id` is the ID, and the last value under `accepted` is true. -/
structure Acknowledges (messageID : String) (members : List (Literal × Value)) : Prop where
  names : ∀ m ∈ members, foldName (text m.1) = foldName "message_id" ∨ foldName (text m.1) = foldName "accepted"
  texts : ∀ v ∈ spoken "message_id" members, v = .null ∨ ∃ l, v = .str l
  answers : ∀ v ∈ spoken "accepted" members, v = .null ∨ ∃ b, v = .bool b
  messageID : ((spoken "message_id" members).filterMap textOf).getLast? = some messageID
  accepted : (spoken "accepted" members).getLast? = some (.bool true)

/-- Exactly the two members, in either order. -/
def Exactly (messageID : String) (members : List (Literal × Value)) : Prop :=
  ∃ name l answer, text name = "message_id" ∧ text l = messageID ∧ text answer = "accepted" ∧
    (members = [(name, .str l), (answer, .bool true)] ∨ members = [(answer, .bool true), (name, .str l)])

/-- A body that is an exact acknowledgement. -/
def ExactAcknowledgement (messageID : String) (raw : List UInt8) : Prop :=
  raw.length ≤ maxResponseBytes ∧ ∃ s members, Wire.decodeUtf8 raw = some s ∧
    parse maxNestingDepth s.toList = some (.obj members) ∧ Exactly messageID members

/-- A body that acknowledges with a name in another spelling. -/
def Respelled (messageID : String) (raw : List UInt8) : Prop :=
  raw.length ≤ maxResponseBytes ∧ ∃ members, StrictJson.validate raw = some (.obj members) ∧
    (∃ m ∈ members, text m.1 ≠ "message_id" ∧ text m.1 ≠ "accepted") ∧ Acknowledges messageID members

theorem fold_ne : foldName "message_id" ≠ foldName "accepted" := by decide +kernel

/-- The field of the message ID. -/
abbrev idField : StructField Acknowledgement := ⟨"message_id", storeString fun s a => { a with messageID := s }⟩

abbrev acceptedField : StructField Acknowledgement := ⟨"accepted", storeBoolPointer fun b a => { a with accepted := b }⟩

variable {members : List (Literal × Value)} {messageID : String} {raw : List UInt8} {name : String}

theorem lookup_id (h : foldName name = foldName "message_id") :
    lookup acknowledgementFields name = some idField := by
  have hne : ("accepted" : String) ≠ name := fun he => fold_ne (h.symm.trans (congrArg foldName he.symm))
  by_cases hname : ("message_id" : String) = name
  · simp [lookup, acknowledgementFields, hname]
  · simp [lookup, acknowledgementFields, hname, hne, h]

theorem lookup_accepted (h : foldName name = foldName "accepted") :
    lookup acknowledgementFields name = some acceptedField := by
  have hne : ("message_id" : String) ≠ name := fun he => fold_ne ((congrArg foldName he).trans h)
  by_cases hname : ("accepted" : String) = name
  · simp [lookup, acknowledgementFields, hname, hne]
  · simp [lookup, acknowledgementFields, hname, hne, h, fold_ne]

theorem lookup_unknown (h : foldName name ≠ foldName "message_id")
    (h' : foldName name ≠ foldName "accepted") : lookup acknowledgementFields name = none := by
  have hne : ("message_id" : String) ≠ name := fun he => h (congrArg foldName he.symm)
  have hne' : ("accepted" : String) ≠ name := fun he => h' (congrArg foldName he.symm)
  simp [lookup, acknowledgementFields, hne, hne', Ne.symm h, Ne.symm h']

def boolOf : Value → Option Bool
  | .bool b => some b
  | _ => none

/-- Each member is stored over those before it. -/
theorem decodeMembers_acknowledgement {s ack : Acknowledgement} :
    decodeMembers acknowledgementFields members s = some ack ↔
      (∀ m ∈ members, foldName (text m.1) = foldName "message_id" ∨ foldName (text m.1) = foldName "accepted") ∧
      (∀ v ∈ spoken "message_id" members, v = .null ∨ ∃ l, v = .str l) ∧
      (∀ v ∈ spoken "accepted" members, v = .null ∨ ∃ b, v = .bool b) ∧
      ack.messageID = ((spoken "message_id" members).filterMap textOf).getLast?.getD s.messageID ∧
      ack.accepted = ((spoken "accepted" members).map boolOf).getLast?.getD s.accepted := by
  induction members generalizing s with
  | nil =>
    obtain ⟨messageID, accepted⟩ := ack
    obtain ⟨messageID', accepted'⟩ := s
    simp [decodeMembers, spoken, eq_comm]
  | cons m members ih =>
    obtain ⟨name, v⟩ := m
    rw [decodeMembers]
    by_cases hid : foldName (text name) = foldName "message_id"
    · have hnot : foldName (text name) ≠ foldName "accepted" := fun h => fold_ne (hid.symm.trans h)
      have hspoken : spoken "message_id" ((name, v) :: members) = v :: spoken "message_id" members := by
        simp [spoken, hid]
      have hother : spoken "accepted" ((name, v) :: members) = spoken "accepted" members := by simp [spoken, hnot]
      rw [lookup_id hid, Option.bind_some, hspoken, hother]
      cases v <;> simp [storeString, ih, hid, textOf, List.getLast?_cons]
    · by_cases haccepted : foldName (text name) = foldName "accepted"
      · have hspoken : spoken "accepted" ((name, v) :: members) = v :: spoken "accepted" members := by
          simp [spoken, haccepted]
        have hother : spoken "message_id" ((name, v) :: members) = spoken "message_id" members := by simp [spoken, hid]
        rw [lookup_accepted haccepted, Option.bind_some, hspoken, hother]
        cases v <;> simp [storeBoolPointer, ih, haccepted, boolOf, List.getLast?_cons]
      · rw [lookup_unknown hid haccepted]
        simp [hid, haccepted]

/-- An object is stored as an acknowledgement of the ID when it acknowledges it. -/
theorem decodeMembers_iff (hid : messageID ≠ "") :
    decodeMembers acknowledgementFields members ⟨"", none⟩ = some ⟨messageID, some true⟩ ↔
      Acknowledges messageID members := by
  have hlast : ∀ o : Option String, messageID = o.getD "" ↔ o = some messageID := by
    rintro (_ | s)
    · simpa using hid
    · simp [eq_comm]
  have htrue : ∀ l : List Value, some true = (l.map boolOf).getLast?.getD none ↔ l.getLast? = some (.bool true) := fun l => by
    rw [List.getLast?_map]
    rcases l.getLast? with _ | v
    · simp
    · cases v <;> simp [boolOf, eq_comm]
  rw [decodeMembers_acknowledgement, hlast, htrue]
  exact ⟨fun ⟨h1, h2, h3, h4, h5⟩ => ⟨h1, h2, h3, h4, h5⟩, fun ⟨h1, h2, h3, h4, h5⟩ => ⟨h1, h2, h3, h4, h5⟩⟩

/-! ## Exactness -/

theorem acknowledges_of_exactly (h : Exactly messageID members) :
    Acknowledges messageID members := by
  obtain ⟨name, l, answer, hname, rfl, hanswer, rfl | rfl⟩ := h <;>
  · have hne := fold_ne
    refine ⟨?_, ?_, ?_, ?_, ?_⟩ <;> simp [spoken, hname, hanswer, hne, hne.symm, textOf]

theorem mem_of_spoken {field : String} {v : Value} (h : v ∈ spoken field members) :
    ∃ m ∈ members, foldName (text m.1) = foldName field := by
  obtain ⟨m, hm, -⟩ := List.mem_map.1 h
  obtain ⟨hm, hfold⟩ := List.mem_filter.1 hm
  exact ⟨m, hm, of_decide_eq_true hfold⟩

/-- With its names as they are in the struct, an object that acknowledges does so exactly. -/
theorem exactly_of_acknowledges
    (h : Acknowledges messageID members) (hnodup : (members.map fun m => text m.1).Nodup)
    (hnames : ∀ m ∈ members, text m.1 = "message_id" ∨ text m.1 = "accepted") : Exactly messageID members := by
  have hne := fold_ne
  have hid : "message_id" ∈ members.map fun m => text m.1 := by
    obtain ⟨v, hv, -⟩ := List.mem_filterMap.1 (List.mem_of_getLast? h.messageID)
    obtain ⟨m, hm, hfold⟩ := mem_of_spoken hv
    rcases hnames m hm with hname | hname
    · exact List.mem_map.2 ⟨m, hm, hname⟩
    · exact absurd (hfold.symm.trans (congrArg foldName hname)) hne
  have haccepted : "accepted" ∈ members.map fun m => text m.1 := by
    obtain ⟨m, hm, hfold⟩ := mem_of_spoken (List.mem_of_getLast? h.accepted)
    rcases hnames m hm with hname | hname
    · exact absurd ((congrArg foldName hname).symm.trans hfold) hne
    · exact List.mem_map.2 ⟨m, hm, hname⟩
  have hperm : (members.map fun m => text m.1).Perm ["message_id", "accepted"] := by
    refine (List.perm_ext_iff_of_nodup hnodup (by decide)).2 fun name => ⟨fun hmem => ?_, fun hmem => ?_⟩
    · obtain ⟨m, hm, rfl⟩ := List.mem_map.1 hmem
      simpa using hnames m hm
    · rcases List.mem_pair.1 hmem with rfl | rfl <;> assumption
  obtain ⟨⟨n₁, v₁⟩, ⟨n₂, v₂⟩, rfl⟩ : ∃ m₁ m₂, members = [m₁, m₂] :=
    List.length_eq_two.1 (by simpa using hperm.length_eq)
  have hfields : ∀ v w, spoken "message_id" [(n₁, v₁), (n₂, v₂)] = [v] →
      spoken "accepted" [(n₁, v₁), (n₂, v₂)] = [w] → (∃ l, v = .str l ∧ text l = messageID) ∧ w = .bool true := by
    intro v w hv hw
    have hid := h.messageID
    have haccepted := h.accepted
    rw [hv] at hid
    rw [hw] at haccepted
    refine ⟨?_, Option.some.inj haccepted⟩
    cases v <;> simp [textOf] at hid
    exact ⟨_, rfl, hid⟩
  simp only [List.map_cons, List.map_nil, List.nodup_cons, List.mem_singleton] at hnodup
  rw [List.forall_mem_cons, List.forall_mem_singleton] at hnames
  obtain ⟨hone | hone, htwo | htwo⟩ := hnames
  · exact absurd (hone.trans htwo.symm) hnodup.1
  · obtain ⟨⟨l, rfl, hl⟩, rfl⟩ := hfields v₁ v₂ (by simp [spoken, hone, htwo, hne.symm])
      (by simp [spoken, hone, htwo, hne])
    exact ⟨n₁, l, n₂, hone, hl, htwo, .inl rfl⟩
  · obtain ⟨⟨l, rfl, hl⟩, rfl⟩ := hfields v₂ v₁ (by simp [spoken, hone, htwo, hne.symm])
      (by simp [spoken, hone, htwo, hne])
    exact ⟨n₂, l, n₁, htwo, hl, hone, .inr rfl⟩
  · exact absurd (hone.trans htwo.symm) hnodup.1

/-- The characters of an ID are below the surrogates. -/
theorem ascii_of_pattern (h : Wire.uuidPattern messageID = true) :
    ∀ c ∈ messageID.toList, c.toNat < 0xfffd := by
  obtain ⟨u, -, rfl⟩ := Wire.parseUuid_of_pattern h
  intro c hc
  rcases Uuid.mem_toText hc with hc | rfl
  · simp only [Sha256.isHexDigit, Bool.or_eq_true, Bool.and_eq_true, decide_eq_true_eq] at hc
    rcases hc with hc | hc
    · exact Nat.lt_of_le_of_lt (Char.le_def.1 hc.2) (by decide)
    · exact Nat.lt_of_le_of_lt (Char.le_def.1 hc.2) (by decide)
  · decide

/-- An exact acknowledgement passes the validator. -/
theorem validate_of_exactly {s messageID : String}
    (hid : Wire.uuidPattern messageID = true) (hs : Wire.decodeUtf8 raw = some s)
    (hparse : parse maxNestingDepth s.toList = some (.obj members)) (h : Exactly messageID members) :
    StrictJson.validate raw = some (.obj members) := by
  obtain ⟨name, l, answer, hname, hl, hanswer, hmembers⟩ := h
  have hscan : StrictJson.validateSurrogateEscapes raw = true := by
    have hname' := StrictJson.surrogatesPaired_of_plain (plain_of_text hname (List.forall_iff_forall_mem.mp (by decide +kernel)))
    have hanswer' := StrictJson.surrogatesPaired_of_plain (plain_of_text hanswer (List.forall_iff_forall_mem.mp (by decide +kernel)))
    have hl' := StrictJson.surrogatesPaired_of_plain (plain_of_text hl (ascii_of_pattern hid))
    rw [StrictJson.validateSurrogateEscapes_of_parse hs hparse]
    rcases hmembers with rfl | rfl <;>
      simp [StrictJson.allPaired, literals, memberLiterals, hname', hanswer', hl']
  have hcheck : StrictJson.checkValue (.obj members) = true := by
    rcases hmembers with rfl | rfl <;>
      simp [StrictJson.checkValue, StrictJson.checkMembers, hname, hanswer]
  rw [StrictJson.validate, hs, Option.bind_some, if_pos hscan, hparse, Option.bind_some, if_pos hcheck]

theorem acknowledge_ok_iff (hid : messageID ≠ "") :
    acknowledge messageID raw = .ok () ↔ raw.length ≤ maxResponseBytes ∧ ∃ members,
      StrictJson.validate raw = some (.obj members) ∧ Acknowledges messageID members := by
  have hempty : StrictJson.validate [] = none := by decide +kernel
  constructor
  · intro h
    unfold acknowledge at h
    split at h
    · exact nomatch h
    rename_i hsize
    split at h
    · exact nomatch h
    rename_i v hv
    split at h
    · exact nomatch h
    rename_i ack hack
    split at h
    · exact nomatch h
    rename_i hmatch
    split at h
    · exact nomatch h
    · exact nomatch h
    rename_i haccepted
    obtain ⟨messageID', accepted⟩ := ack
    obtain rfl : messageID' = messageID := not_not.1 hmatch
    obtain rfl : accepted = some true := haccepted
    refine ⟨by omega, ?_⟩
    cases v with
    | null => exact absurd (congrArg (·.map Acknowledgement.messageID) hack) (by simpa [decodeStruct] using hid.symm)
    | obj members => exact ⟨members, hv, (decodeMembers_iff hid).1 hack⟩
    | _ => exact nomatch hack
  · rintro ⟨hlength, members, hv, hack⟩
    have hne : raw.length ≠ 0 := by
      intro hzero
      rw [List.length_eq_zero_iff.1 hzero, hempty] at hv
      exact nomatch hv
    have hdecode : decodeStruct acknowledgementFields (.obj members) ⟨"", none⟩ = some ⟨messageID, some true⟩ :=
      (decodeMembers_iff hid).2 hack
    rw [acknowledge, if_neg (by omega), hv]
    simp only [hdecode, ne_eq, not_true_eq_false, if_false]

/-- **Which bodies are taken.** `Send` takes the exact acknowledgements and those in which a
name is spelled in another way. -/
theorem acknowledge_iff (hid : Wire.uuidPattern messageID = true) :
    acknowledge messageID raw = .ok () ↔ ExactAcknowledgement messageID raw ∨ Respelled messageID raw := by
  have hne : messageID ≠ "" := by rintro rfl; exact nomatch hid
  rw [acknowledge_ok_iff hne]
  constructor
  · rintro ⟨hlength, members, hv, hack⟩
    by_cases hnames : ∀ m ∈ members, text m.1 = "message_id" ∨ text m.1 = "accepted"
    · obtain ⟨s, hs, -, hparse, hcheck⟩ := StrictJson.validate_some hv
      rw [StrictJson.checkValue, Bool.and_eq_true, decide_eq_true_eq] at hcheck
      exact .inl ⟨hlength, s, members, hs, hparse, exactly_of_acknowledges hack hcheck.1 hnames⟩
    · simp only [not_forall, not_or] at hnames
      obtain ⟨m, hm, hname⟩ := hnames
      exact .inr ⟨hlength, members, hv, ⟨m, hm, hname⟩, hack⟩
  · rintro (⟨hlength, s, members, hs, hparse, h⟩ | ⟨hlength, members, hv, -, hack⟩)
    · exact ⟨hlength, members, validate_of_exactly hid hs hparse h, acknowledges_of_exactly h⟩
    · exact ⟨hlength, members, hv, hack⟩

/-- No body is both. -/
theorem not_exact_of_respelled (h : Respelled messageID raw) :
    ¬ ExactAcknowledgement messageID raw := by
  rintro ⟨-, s, members', hs, hparse, name, l, answer, hname, -, hanswer, hmembers⟩
  obtain ⟨-, members, hv, ⟨m, hm, hid, haccepted⟩, -⟩ := h
  obtain ⟨s', hs', -, hparse', -⟩ := StrictJson.validate_some hv
  obtain rfl := Option.some.inj (hs.symm.trans hs')
  obtain rfl := Value.obj.inj (Option.some.inj (hparse.symm.trans hparse'))
  rcases hmembers with rfl | rfl <;> simp only [List.mem_cons, List.not_mem_nil, or_false] at hm
  · rcases hm with rfl | rfl
    · exact hid hname
    · exact haccepted hanswer
  · rcases hm with rfl | rfl
    · exact haccepted hanswer
    · exact hid hname

/-- What `Send` returns on a response that has arrived with status 200 and an acceptable type. -/
theorem send_ok_iff {ctxErr : Option ContextError} {payload : List UInt8} {response : Response}
    (hid : Wire.uuidPattern messageID = true) (hpayload : 1 ≤ payload.length ∧ payload.length ≤ maxRequestBytes)
    (hstatus : response.status = 200) (htype : response.contentType.any MediaType.acceptable = true)
    (hbody : response.broken = false) :
    send ctxErr messageID payload (.answered response) = .ok () ↔
      ExactAcknowledgement messageID response.body ∨ Respelled messageID response.body := by
  have hread : response.read (maxResponseBytes + 1) = some (response.body.take (maxResponseBytes + 1)) := by
    rw [Response.read, hbody, if_neg (by simp)]
  have hsend : send ctxErr messageID payload (.answered response) =
      acknowledge messageID (response.body.take (maxResponseBytes + 1)) := by
    unfold send
    rw [hid, if_neg (by simp), if_neg (by omega)]
    dsimp only
    rw [htype, hstatus, hread]
    rfl
  rw [hsend]
  by_cases hlength : response.body.length ≤ maxResponseBytes
  · rw [List.take_of_length_le (Nat.le_succ_of_le hlength), acknowledge_iff hid]
  · have hlong : maxResponseBytes < (response.body.take (maxResponseBytes + 1)).length := by
      rw [List.length_take]
      omega
    refine iff_of_false ?_ fun h => hlength (h.elim And.left And.left)
    rw [acknowledge, if_pos (.inr hlong)]
    exact nofun

end NorthgateRmm.Agent.Transport
