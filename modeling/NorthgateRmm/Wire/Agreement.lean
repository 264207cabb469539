import NorthgateRmm.Wire.Members

/-!
# Agent and server on the same bytes

What `DecodeInventory` makes of a body and what `decode_message` makes of it. The
agent's decoder folds member names, takes a missing or `null` member for the zero value
and keeps nanoseconds; the server wants the exact keys and keeps microseconds. On a body
where none of this shows (`Clean`) the server accepts what the agent accepts and reads
the same message.
-/

namespace NorthgateRmm.Wire

open Json GoJson
open Server (codesOf valueOf exactKeys hookError asUuid asInteger asTimestamp asPlatform asString asStr Python Datetime
  EnvelopeRead InventoryRead MessageEnvelope)
open Agent.Protocol (Envelope InventoryPayload InventoryMessage envelopeFields payloadFields messageFields
  emptyMessage storeTime ValidEnvelope ValidPayload validField)

variable {py : Python} {members : List (Literal × Value)}

/-! ## Fields own their part of the struct -/

section Keeps

variable {σ β : Type} {π : σ → β} {v : Value} {s s' : σ}

theorem storeString_keeps {set : String → σ → σ} (h : storeString set v s = some s')
    (hset : ∀ v x, π (set v x) = π x) : π s' = π s := by
  cases v <;> cases h
  · rfl
  · exact hset _ _

theorem storeBool_keeps {set : Bool → σ → σ} (h : storeBool set v s = some s')
    (hset : ∀ v x, π (set v x) = π x) : π s' = π s := by
  cases v <;> cases h
  · rfl
  · exact hset _ _

theorem storeInt_keeps {set : Int → σ → σ} (h : storeInt set v s = some s')
    (hset : ∀ v x, π (set v x) = π x) : π s' = π s := by
  cases v with
  | null => cases h; rfl
  | num n =>
    obtain ⟨i, -, rfl⟩ := Option.map_eq_some_iff.mp h
    exact hset _ _
  | _ => cases h

theorem storeTime_keeps {set : Agent.Protocol.Time → σ → σ} (h : storeTime set v s = some s')
    (hset : ∀ v x, π (set v x) = π x) : π s' = π s := by
  cases v with
  | null => cases h; rfl
  | str l =>
    obtain ⟨t, -, rfl⟩ := Option.map_eq_some_iff.mp h
    exact hset _ _
  | _ => cases h

theorem storeMap_keeps {get : σ → Option StringMap} {set : Option StringMap → σ → σ}
    (h : storeMap get set v s = some s') (hset : ∀ v x, π (set v x) = π x) : π s' = π s := by
  cases v with
  | null => cases h; exact hset _ _
  | obj l =>
    obtain ⟨m, -, rfl⟩ := Option.map_eq_some_iff.mp h
    exact hset _ _
  | _ => cases h

end Keeps

/-- Each field of the envelope is changed by its own member only. -/
theorem envelope_owns :
    Owns envelopeFields ⟨"message_id", storeString fun s e => { e with messageID := s }⟩ (·.messageID) ∧
    Owns envelopeFields ⟨"endpoint_id", storeString fun s e => { e with endpointID := s }⟩ (·.endpointID) ∧
    Owns envelopeFields ⟨"boot_id", storeString fun s e => { e with bootID := s }⟩ (·.bootID) ∧
    Owns envelopeFields ⟨"sequence", storeInt fun n e => { e with sequence := n }⟩ (·.sequence) ∧
    Owns envelopeFields ⟨"created_at", storeTime fun t e => { e with createdAt := t }⟩ (·.createdAt) ∧
    Owns envelopeFields ⟨"expires_at", storeTime fun t e => { e with expiresAt := t }⟩ (·.expiresAt) ∧
    Owns envelopeFields ⟨"correlation_id", storeString fun s e => { e with correlationID := s }⟩ (·.correlationID) ∧
    Owns envelopeFields ⟨"protocol_version", storeInt fun n e => { e with protocolVersion := n }⟩
      (·.protocolVersion) := by
  refine ⟨?_, ?_, ?_, ?_, ?_, ?_, ?_, ?_⟩ <;>
  · intro g hg hne v s s' h
    simp only [envelopeFields, List.mem_cons, List.not_mem_nil, or_false] at hg
    rcases hg with rfl | rfl | rfl | rfl | rfl | rfl | rfl | rfl <;> dsimp only at h hne <;>
      first
      | exact absurd rfl hne
      | exact storeString_keeps h fun _ _ => rfl
      | exact storeInt_keeps h fun _ _ => rfl
      | exact storeTime_keeps h fun _ _ => rfl

theorem payload_owns :
    Owns payloadFields ⟨"platform", storeString fun s p => { p with platform := s }⟩ (·.platform) ∧
    Owns payloadFields ⟨"architecture", storeString fun s p => { p with architecture := s }⟩ (·.architecture) ∧
    Owns payloadFields ⟨"fields", storeMap (·.fields) fun m p => { p with fields := m }⟩ (·.fields) ∧
    Owns payloadFields ⟨"collector_complete", storeBool fun b p => { p with collectorComplete := b }⟩
      (·.collectorComplete) ∧
    Owns payloadFields ⟨"schema_version", storeInt fun n p => { p with schemaVersion := n }⟩ (·.schemaVersion) := by
  refine ⟨?_, ?_, ?_, ?_, ?_⟩ <;>
  · intro g hg hne v s s' h
    simp only [payloadFields, List.mem_cons, List.not_mem_nil, or_false] at hg
    rcases hg with rfl | rfl | rfl | rfl | rfl <;> dsimp only at h hne <;>
      first
      | exact absurd rfl hne
      | exact storeString_keeps h fun _ _ => rfl
      | exact storeInt_keeps h fun _ _ => rfl
      | exact storeBool_keeps h fun _ _ => rfl
      | exact storeMap_keeps h fun _ _ => rfl

theorem message_owns :
    Owns messageFields ⟨"type", storeString fun s m => { m with messageType := s }⟩ (·.messageType) ∧
    Owns messageFields ⟨"envelope", fun v m => (decodeStruct envelopeFields v m.envelope).map
      fun e => { m with envelope := e }⟩ (·.envelope) ∧
    Owns messageFields ⟨"payload", fun v m => (decodeStruct payloadFields v m.payload).map
      fun p => { m with payload := p }⟩ (·.payload) := by
  refine ⟨?_, ?_, ?_⟩ <;>
  · intro g hg hne v s s' h
    simp only [messageFields, List.mem_cons, List.not_mem_nil, or_false] at hg
    rcases hg with rfl | rfl | rfl <;> dsimp only at h hne <;>
      first
      | exact absurd rfl hne
      | exact storeString_keeps h fun _ _ => rfl
      | (obtain ⟨x, -, rfl⟩ := Option.map_eq_some_iff.mp h; rfl)

/-! ## The envelope -/

theorem uuid_agrees {l : Literal} (h : uuidPattern (text l) = true) (fieldName : String) :
    ∃ u, asUuid fieldName (.str l) = .ok u ∧ u.toText = text l := by
  obtain ⟨u, hparse, htext⟩ := parseUuid_of_pattern h
  refine ⟨u, ?_, htext⟩
  rw [asUuid, asString]
  dsimp only
  rw [hparse]

/-- A text of a UUID is not empty. -/
theorem ne_empty_of_pattern {s : String} (h : uuidPattern s = true) : s ≠ "" := by
  rintro rfl
  cases h

/-- What the server reads under the names of an envelope that the agent accepted. -/
structure EnvelopeAgrees (py : Python) (members : List (Literal × Value)) (e : Envelope) : Prop where
  keys : (names members).Perm Server.envelopeKeys
  hooks : hookError (.obj members) = none
  messageId : ∃ u, asUuid "message_id" (valueOf members "message_id") = .ok u ∧ u.toText = e.messageID
  endpointId : ∃ u, asUuid "endpoint_id" (valueOf members "endpoint_id") = .ok u ∧ u.toText = e.endpointID
  bootId : ∃ u, asUuid "boot_id" (valueOf members "boot_id") = .ok u ∧ u.toText = e.bootID
  sequence : asInteger "sequence" (valueOf members "sequence") = .ok e.sequence
  created : ∃ l t, valueOf members "created_at" = .str l ∧ readStamp (l.flatMap Piece.render) = some t ∧
    t.ns = e.createdAt.ns
  expires : ∃ l t, valueOf members "expires_at" = .str l ∧ readStamp (l.flatMap Piece.render) = some t ∧
    t.ns = e.expiresAt.ns
  createdAt : asTimestamp py "created_at" (valueOf members "created_at") =
    .ok (some (Datetime.utc (e.createdAt.ns / 1000)))
  expiresAt : asTimestamp py "expires_at" (valueOf members "expires_at") =
    .ok (some (Datetime.utc (e.expiresAt.ns / 1000)))
  correlationId : ∃ u, asUuid "correlation_id" (valueOf members "correlation_id") = .ok u ∧
    u.toText = e.correlationID
  version : asInteger "protocol_version" (valueOf members "protocol_version") = .ok e.protocolVersion

/-- A stored time in UTC of the shared years was read from a stamp of those years. -/
theorem stamp_year {s : List Char} {t : Stamp} {x : Agent.Protocol.Time} (h : readStamp s = some t)
    (hx : x = ⟨t.ns, t.offset⟩) (hu : x.offset = 0) (hy : 1 ≤ x.year) : t.offset = 0 ∧ 1 ≤ t.date.year := by
  subst hx
  have ho : t.offset = 0 := hu
  obtain ⟨hvalid, hns⟩ := readStamp_valid h
  have hyear : Agent.Protocol.Time.year ⟨t.ns, t.offset⟩ = t.date.year := by
    rw [Agent.Protocol.Time.year]
    dsimp only
    rw [ho, Int.zero_mul, Int.add_zero, stampOf_ns hvalid hns ho]
  exact ⟨ho, hyear ▸ hy⟩

variable {p : InventoryPayload} {name : String} {e : Envelope}

theorem numbers_valueOf (hc : ∀ m ∈ members, Numbers Number.Canonical m.2) {n : Number}
    (h : valueOf members name = .num n) : n.Canonical := by
  obtain ⟨m, hm, -, hv⟩ := mem_of_valueOf (show valueOf members name ≠ .null by rw [h]; exact nofun)
  have := hc m hm
  rw [hv, h] at this
  cases this
  assumption

theorem envelope_agrees (hpy : ReadsRfc3339 py)
    (d : Decoded envelopeFields members emptyMessage.envelope e) (hv : ValidEnvelope e)
    (hc : ∀ m ∈ members, Numbers Number.Canonical m.2) : EnvelopeAgrees py members e := by
  obtain ⟨own1, own2, own3, own4, own5, own6, own7, own8⟩ := envelope_owns
  have hseq := hv.sequence
  have hver := hv.protocolVersion
  obtain ⟨n1, l1, v1, t1⟩ := d.string (by simp [envelopeFields]) own1 (fun _ _ => rfl)
    (ne_empty_of_pattern hv.messageID)
  obtain ⟨n2, l2, v2, t2⟩ := d.string (by simp [envelopeFields]) own2 (fun _ _ => rfl)
    (ne_empty_of_pattern hv.endpointID)
  obtain ⟨n3, l3, v3, t3⟩ := d.string (by simp [envelopeFields]) own3 (fun _ _ => rfl)
    (ne_empty_of_pattern hv.bootID)
  obtain ⟨n4, i4, v4, p4⟩ := d.int (by simp [envelopeFields]) own4 (fun _ _ => rfl)
    (show e.sequence ≠ 0 by omega)
  obtain ⟨n5, l5, c, v5, r5, e5⟩ := d.time (by simp [envelopeFields]) own5 (fun _ _ => rfl) hv.created_nonzero
  obtain ⟨n6, l6, x, v6, r6, e6⟩ := d.time (by simp [envelopeFields]) own6 (fun _ _ => rfl) hv.expires_nonzero
  obtain ⟨n7, l7, v7, t7⟩ := d.string (by simp [envelopeFields]) own7 (fun _ _ => rfl)
    (ne_empty_of_pattern hv.correlationID)
  obtain ⟨n8, i8, v8, p8⟩ := d.int (by simp [envelopeFields]) own8 (fun _ _ => rfl)
    (show e.protocolVersion ≠ 0 by omega)
  obtain ⟨hook4, read4⟩ := integer_agrees (numbers_valueOf hc v4) p4
  obtain ⟨hook8, read8⟩ := integer_agrees (numbers_valueOf hc v8) p8
  obtain ⟨hco, hcy⟩ := stamp_year r5 e5 hv.created_utc hv.created_year.1
  obtain ⟨hxo, hxy⟩ := stamp_year r6 e6 hv.expires_utc hv.expires_year.1
  have hcns : c.ns = e.createdAt.ns := by rw [e5]
  have hxns : x.ns = e.expiresAt.ns := by rw [e6]
  have hall : ∀ P : String → Prop, P "message_id" → P "endpoint_id" → P "boot_id" → P "sequence" → P "created_at" →
      P "expires_at" → P "correlation_id" → P "protocol_version" → ∀ f ∈ envelopeFields, P f.name := by
    intro P h1 h2 h3 h4 h5 h6 h7 h8
    simp only [envelopeFields, List.forall_mem_cons, List.not_mem_nil, false_implies, implies_true, and_true]
    exact ⟨h1, h2, h3, h4, h5, h6, h7, h8⟩
  have hooks : ∀ f ∈ envelopeFields, hookError (valueOf members f.name) = none := by
    apply hall fun name => hookError (valueOf members name) = none
    · rw [v1]; rfl
    · rw [v2]; rfl
    · rw [v3]; rfl
    · rw [v4]; exact hook4
    · rw [v5]; rfl
    · rw [v6]; rfl
    · rw [v7]; rfl
    · rw [v8]; exact hook8
  refine ⟨d.perm (hall _ n1 n2 n3 n4 n5 n6 n7 n8), d.hooks hooks, ?_, ?_, ?_, ?_, ⟨l5, c, v5, r5, hcns⟩,
    ⟨l6, x, v6, r6, hxns⟩, ?_, ?_, ?_, ?_⟩
  · rw [v1, ← t1]; exact uuid_agrees (t1 ▸ hv.messageID) _
  · rw [v2, ← t2]; exact uuid_agrees (t2 ▸ hv.endpointID) _
  · rw [v3, ← t3]; exact uuid_agrees (t3 ▸ hv.bootID) _
  · rw [v4]; exact read4 _
  · rw [v5, ← hcns]; exact timestamp_agrees hpy r5 hco hcy _
  · rw [v6, ← hxns]; exact timestamp_agrees hpy r6 hxo hxy _
  · rw [v7, ← t7]; exact uuid_agrees (t7 ▸ hv.correlationID) _
  · rw [v8]; exact read8 _

/-! ## The payload -/

/-- The literals of the value under a name are literals of the object. -/
theorem literals_valueOf {v : Value} (h : valueOf members name = v) (hne : v ≠ .null) :
    ∀ l ∈ literals v, l ∈ literals (.obj members) := by
  obtain ⟨m, hm, -, hv⟩ := mem_of_valueOf (show valueOf members name ≠ .null by rw [h]; exact hne)
  intro l hl
  rw [literals, memberLiterals_eq]
  exact List.mem_flatMap.2 ⟨m, hm, List.mem_cons_of_mem _ (by rwa [hv, h])⟩

/-- What the server reads under the names of a payload that the agent accepted. -/
structure PayloadAgrees (members : List (Literal × Value)) (p : InventoryPayload) : Prop where
  keys : ∀ name ∈ Server.inventoryKeys, name ≠ "collector_complete" → name ∈ names members
  platform : asPlatform (valueOf members "platform") = .ok .linux
  architecture : asStr "architecture" (valueOf members "architecture") = .ok (codesOf p.architecture)
  fields : ∃ l m, valueOf members "fields" = .obj l ∧ p.fields = some m ∧ decodeEntries l .empty = some m
  schemaVersion : asInteger "schema_version" (valueOf members "schema_version") = .ok p.schemaVersion
  scalars : ∀ name ∈ ["platform", "architecture", "schema_version"], hookError (valueOf members name) = none

theorem payload_agrees (d : Decoded payloadFields members emptyMessage.payload p)
    (hv : ValidPayload p) (hc : ∀ m ∈ members, Numbers Number.Canonical m.2)
    (hcodes : ∀ l ∈ literals (.obj members), codes l = codesOf (text l)) : PayloadAgrees members p := by
  obtain ⟨own1, own2, own3, -, own5⟩ := payload_owns
  have hplatform := hv.platform
  have harch := hv.architecture.1
  have hver := hv.schemaVersion
  obtain ⟨m, hm, -⟩ := hv.fields
  obtain ⟨n1, l1, v1, t1⟩ := d.string (by simp [payloadFields]) own1 (fun _ _ => rfl)
    (show p.platform ≠ "" by rw [hplatform]; decide)
  obtain ⟨n2, l2, v2, t2⟩ := d.string (by simp [payloadFields]) own2 (fun _ _ => rfl)
    (show p.architecture ≠ "" by intro h; rw [h] at harch; cases harch)
  obtain ⟨n3, t, t', ht, hstore, hp⟩ := d.changed (by simp [payloadFields]) own3
    (show p.fields ≠ none by rw [hm]; exact Option.some_ne_none m)
  obtain ⟨n5, i5, v5, p5⟩ := d.int (by simp [payloadFields]) own5 (fun _ _ => rfl)
    (show p.schemaVersion ≠ 0 by omega)
  obtain ⟨hook5, read5⟩ := integer_agrees (numbers_valueOf hc v5) p5
  refine ⟨?_, ?_, ?_, ?_, ?_, ?_⟩
  · simp only [Server.inventoryKeys, List.forall_mem_cons, List.not_mem_nil, false_implies, implies_true, and_true]
    exact ⟨fun _ => n1, fun _ => n2, fun _ => n3, fun h => absurd rfl h, fun _ => n5⟩
  · rw [v1, asPlatform, asString]
    dsimp only
    rw [t1, hplatform]
    rfl
  · have hl2 : l2 ∈ literals (.obj members) := literals_valueOf v2 (fun h => by cases h) l2 List.mem_cons_self
    rw [v2, asStr, hcodes l2 hl2, t2]
  · dsimp only at hstore hp
    cases hval : valueOf members "fields" with
    | null =>
      rw [hval] at hstore
      cases hstore
      rw [hm] at hp
      cases hp
    | obj l =>
      have hnil : t.fields = none := ht
      rw [hval, storeMap, hnil] at hstore
      obtain ⟨m', hdec, rfl⟩ := Option.map_eq_some_iff.mp hstore
      exact ⟨l, m', rfl, hp, hdec⟩
    | _ => rw [hval] at hstore; cases hstore
  · rw [v5]; exact read5 _
  · simp only [List.forall_mem_cons, List.not_mem_nil, false_implies, implies_true, and_true]
    exact ⟨by rw [v1]; rfl, by rw [v2]; rfl, by rw [v5]; exact hook5⟩

/-! ## Messages -/

/-- The server's envelope is the agent's, with times to the microsecond. -/
structure SameEnvelope (e : Envelope) (x : MessageEnvelope) : Prop where
  messageId : x.messageId.toText = e.messageID
  endpointId : x.endpointId.toText = e.endpointID
  bootId : x.bootId.toText = e.bootID
  sequence : (x.sequence : Int) = e.sequence
  createdAt : x.createdAt = Datetime.utc (e.createdAt.ns / 1000)
  expiresAt : x.expiresAt = Datetime.utc (e.expiresAt.ns / 1000)
  correlationId : x.correlationId.toText = e.correlationID

/-- The server's payload is the agent's, its texts in code points. -/
structure SamePayload (p : InventoryPayload) (q : Server.InventoryPayload) : Prop where
  platform : q.platform.value = p.platform
  architecture : q.architecture = codesOf p.architecture
  fields : p.fields.map (·.entries.map coded) = some q.fields
  collectorComplete : q.collectorComplete = p.collectorComplete
  schemaVersion : q.schemaVersion = p.schemaVersion

structure SameMessage (m : InventoryMessage) (x : Server.Message) : Prop where
  envelope : SameEnvelope m.envelope x.envelope
  protocolVersion : x.protocolVersion = m.envelope.protocolVersion
  payload : ∃ q, x.payload = .inventory q ∧ SamePayload m.payload q

/-- The server makes the envelope when the two times fall into different microseconds. -/
theorem EnvelopeAgrees.read (a : EnvelopeAgrees py members e) (hv : ValidEnvelope e)
    (hlt : e.createdAt.ns / 1000 < e.expiresAt.ns / 1000) :
    ∃ x, EnvelopeRead py members x e.protocolVersion ∧ SameEnvelope e x := by
  obtain ⟨u1, r1, t1⟩ := a.messageId
  obtain ⟨u2, r2, t2⟩ := a.endpointId
  obtain ⟨u3, r3, t3⟩ := a.bootId
  obtain ⟨u4, r4, t4⟩ := a.correlationId
  have hseq := hv.sequence
  have hl := hv.lifetime
  have hmax : Server.maxSequence = 2 ^ 63 - 1 := rfl
  have hs : 1 ≤ e.sequence.toNat ∧ e.sequence.toNat ≤ Server.maxSequence := by omega
  have hsub : (Datetime.utc (e.expiresAt.ns / 1000)).sub (Datetime.utc (e.createdAt.ns / 1000)) =
      e.expiresAt.ns / 1000 - e.createdAt.ns / 1000 := if_pos rfl
  have httl : Server.maxMessageTtl = 300000000 := rfl
  let x : MessageEnvelope := ⟨u1, u2, u3, e.sequence.toNat, .utc (e.createdAt.ns / 1000), .utc (e.expiresAt.ns / 1000),
    u4, hs, by rw [hsub, httl]; omega⟩
  refine ⟨x, ⟨?_, r1, r2, r3, ⟨_, a.sequence, rfl⟩, a.createdAt, a.expiresAt, r4, a.version, hv.protocolVersion⟩,
    ⟨t1, t2, t3, Int.toNat_of_nonneg (by omega), rfl, rfl, t4⟩⟩
  exact exactKeys_of_perm (by decide) a.keys

/-- The server refuses an envelope whose two times fall into one microsecond. -/
theorem EnvelopeAgrees.lifetime (a : EnvelopeAgrees py members e) {x : MessageEnvelope} {version : Int}
    (h : EnvelopeRead py members x version) : e.createdAt.ns / 1000 < e.expiresAt.ns / 1000 := by
  have hc := a.createdAt.symm.trans h.createdAt
  have he := a.expiresAt.symm.trans h.expiresAt
  simp only [Except.ok.injEq, Option.some.injEq] at hc he
  have hl := x.lifetime_range.1
  rw [← hc, ← he] at hl
  have hsub : (Datetime.utc (e.expiresAt.ns / 1000)).sub (Datetime.utc (e.createdAt.ns / 1000)) =
      e.expiresAt.ns / 1000 - e.createdAt.ns / 1000 := if_pos rfl
  rw [hsub] at hl
  omega

theorem length_le_utf8ByteSize (s : String) : s.length ≤ s.utf8ByteSize := by
  have h : ∀ cs : List Char, cs.length ≤ String.utf8Len cs := by
    intro cs
    induction cs with
    | nil => exact Nat.zero_le _
    | cons c cs ih =>
      have := c.utf8Size_pos
      rw [String.utf8Len_cons, List.length_cons]
      omega
  have := h s.toList
  rwa [← String.utf8ByteSize_ofList, String.ofList_toList, String.length_toList] at this

/-- The lengths that the agent checks in bytes are within the server's in characters. -/
theorem postInit_of_valid (hv : ValidPayload p) {m : StringMap} (hm : p.fields = some m) {b : Bool} :
    (⟨.linux, codesOf p.architecture, m.entries.map coded, b, p.schemaVersion⟩ : Server.InventoryPayload).postInit =
      none := by
  obtain ⟨m', hm', hcount, hall⟩ := hv.fields
  obtain rfl : m' = m := Option.some.inj (hm'.symm.trans hm)
  have harch := hv.architecture
  have hlen := length_le_utf8ByteSize p.architecture
  have hnodup := nodup_coded m'
  have hlength : ∀ s : String, (codesOf s).length = s.length := fun s => by
    rw [codesOf, List.length_map, String.length_toList]
  have hempty : ∀ s : String, s.isEmpty = false → (codesOf s).isEmpty = false := fun s hs => by
    rw [Bool.eq_false_iff, Ne, List.isEmpty_iff, codesOf, List.map_eq_nil_iff, String.toList_eq_nil_iff]
    rintro rfl
    cases hs
  rw [Server.InventoryPayload.postInit, Server.firstFailure_eq_none]
  simp only [List.forall_mem_cons, List.not_mem_nil, false_implies, implies_true, and_true]
  refine ⟨by simpa using hv.schemaVersion, ?_, ?_, by simpa using hnodup, ?_⟩
  · rw [hempty _ harch.1, hlength, Bool.false_or]
    exact decide_eq_false (by omega)
  · rw [List.length_map]
    exact decide_eq_false (Nat.not_lt.mpr hcount)
  · rw [List.any_eq_false]
    intro e he
    obtain ⟨x, hx, rfl⟩ := List.mem_map.1 he
    have hfield := List.all_eq_true.mp hall x hx
    simp only [validField, Bool.and_eq_true, decide_eq_true_eq, Bool.not_eq_true'] at hfield
    obtain ⟨⟨⟨⟨hne, hk⟩, hval⟩, -⟩, -⟩ := hfield
    have h1 := length_le_utf8ByteSize x.1
    have h2 := length_le_utf8ByteSize x.2
    have h3 : Agent.Protocol.maxFieldKeyBytes = Server.maxInventoryKeyLength := rfl
    have h4 : Agent.Protocol.maxFieldValueBytes = Server.maxInventoryValueLength := rfl
    simp only [coded, hempty _ hne, hlength, Bool.false_or, Bool.or_eq_true, decide_eq_true_eq]
    omega

/-- The server makes the payload when `collector_complete` is a boolean and no field is `null`. -/
theorem PayloadAgrees.read (a : PayloadAgrees members p)
    (d : Decoded payloadFields members emptyMessage.payload p) (hv : ValidPayload p) {b : Bool}
    (hb : valueOf members "collector_complete" = .bool b)
    (hnull : ∀ l, valueOf members "fields" = .obj l → ∀ x ∈ l, x.2 ≠ .null)
    (hunique : ∀ l, valueOf members "fields" = .obj l → (names l).Nodup)
    (hcodes : ∀ l ∈ literals (.obj members), codes l = codesOf (text l)) :
    (names members).Perm Server.inventoryKeys ∧ hookError (.obj members) = none ∧
      ∃ q, InventoryRead py members q ∧ SamePayload p q := by
  obtain ⟨c, hmem, hname, hval⟩ := mem_of_valueOf (by rw [hb]; exact fun h => by cases h)
  obtain ⟨l, m, hl, hm, hdec⟩ := a.fields
  obtain ⟨-, -, -, own4, -⟩ := payload_owns
  have hcomplete : p.collectorComplete = b := by
    obtain ⟨t, t', -, hstore, hp⟩ := decodeMembers_present d.fieldNames (by simp [payloadFields]) own4 d.exact d.nodup
      hmem hname d.decoded
    dsimp only at hstore hp
    rw [hval, hb] at hstore
    cases hstore
    exact hp
  obtain ⟨hhooks, pairs, hpairs, hperm⟩ :=
    fieldPairs_decodeEntries (hunique l hl) (fun y hy => hcodes y (literals_valueOf hl (fun h => by cases h) y hy))
      (fun _ h => absurd h List.not_mem_nil) (hnull l hl) hdec
  have hsort : Server.sortedPairs pairs = m.entries.map coded := sortedPairs_eq_entries hperm
  have hkeys : (names members).Perm Server.inventoryKeys := by
    refine d.perm fun f hf => ?_
    by_cases hcc : f.name = "collector_complete"
    · rw [hcc]
      exact List.mem_map.mpr ⟨c, hmem, hname⟩
    · exact a.keys f.name (List.mem_map_of_mem hf) hcc
  have hobj : hookError (.obj members) = none := by
    refine d.hooks ?_
    have hscalars := a.scalars
    simp only [payloadFields, List.forall_mem_cons, List.not_mem_nil, false_implies, implies_true, and_true] at hscalars ⊢
    refine ⟨hscalars.1, hscalars.2.1, ?_, ?_, hscalars.2.2⟩
    · rw [hl]; exact hookError_obj (hunique l hl) hhooks
    · rw [hb]; rfl
  refine ⟨hkeys, hobj, ⟨.linux, codesOf p.architecture, m.entries.map coded, b, p.schemaVersion⟩, ⟨exactKeys_of_perm (by decide) hkeys,
    ⟨l, pairs, hl, hpairs, hsort⟩, hb, a.platform, a.architecture, a.schemaVersion, ?_⟩,
    ⟨hv.platform.symm, rfl, by rw [hm]; rfl, hcomplete.symm, rfl⟩⟩
  exact postInit_of_valid hv hm

/-! ## Bodies that the agent accepts -/

def messageKeys : List String := ["type", "envelope", "payload"]

/-- What `DecodeInventory` checked of a value. -/
structure Accepted (v : Value) (m : InventoryMessage) : Prop where
  unique : Agent.StrictJson.checkValue v = true
  literal : ∀ l ∈ literals v, codes l = codesOf (text l)
  numbers : Numbers Number.Canonical v
  decoded : decodeStruct messageFields v emptyMessage = some m
  messageType : m.messageType = "inventory"
  envelope : ValidEnvelope m.envelope
  payload : ValidPayload m.payload

theorem accepted_of_decodeInventory {raw : List UInt8} {m : InventoryMessage}
    (h : Agent.Protocol.decodeInventory raw = .ok m) : raw ≠ [] ∧ raw.length ≤ 65536 ∧
      ∃ s v, decodeUtf8 raw = some s ∧ parse 10000 s.toList = some v ∧ Accepted v m := by
  obtain ⟨hne, hlen, ⟨v, hvalid, hdec⟩, htype, he, hp⟩ := Agent.Protocol.decodeInventory_ok.mp h
  refine ⟨hne, hlen, ?_⟩
  obtain ⟨s, hs, -, hv, hcheck⟩ := Agent.StrictJson.validate_some hvalid
  exact ⟨s, v, hs, hv, hcheck, Agent.StrictJson.codes_of_validate hvalid, numbers_parse hv, hdec, htype, he, hp⟩

theorem checkMembers_forall (h : Agent.StrictJson.checkMembers members = true) :
    ∀ m ∈ members, Agent.StrictJson.checkValue m.2 = true := by
  induction members with
  | nil => exact nofun
  | cons m members ih =>
    obtain ⟨l, v⟩ := m
    rw [Agent.StrictJson.checkMembers, Bool.and_eq_true] at h
    exact List.forall_mem_cons.mpr ⟨h.1, ih h.2⟩

/-- Names are unique in an object and in every object that a name leads to. -/
theorem checkValue_obj (h : Agent.StrictJson.checkValue (.obj members) = true) :
    (names members).Nodup ∧ ∀ name l, valueOf members name = .obj l → Agent.StrictJson.checkValue (.obj l) = true := by
  rw [Agent.StrictJson.checkValue, Bool.and_eq_true, decide_eq_true_eq] at h
  refine ⟨h.1, fun name l hl => ?_⟩
  obtain ⟨m, hm, -, hv⟩ := mem_of_valueOf (show valueOf members name ≠ .null by rw [hl]; exact fun h => by cases h)
  have := checkMembers_forall h.2 m hm
  rwa [hv, hl] at this

theorem numbers_obj (h : Numbers Number.Canonical (.obj members)) : ∀ m ∈ members, Numbers Number.Canonical m.2 := by
  cases h
  assumption

theorem numbers_valueOf_obj (h : Numbers Number.Canonical (.obj members)) {l : List (Literal × Value)}
    (hl : valueOf members name = .obj l) : Numbers Number.Canonical (.obj l) := by
  obtain ⟨m, hm, -, hv⟩ := mem_of_valueOf (show valueOf members name ≠ .null by rw [hl]; exact nofun)
  have := numbers_obj h m hm
  rwa [hv, hl] at this

/-- A struct that is not the zero value was stored from an object. -/
theorem obj_of_decodeStruct {σ : Type} {fields : List (StructField σ)} {v : Value} {s s' : σ}
    (h : decodeStruct fields v s = some s') (hne : s' ≠ s) :
    ∃ l, v = .obj l ∧ decodeMembers fields l s = some s' := by
  cases v with
  | null => cases h; exact absurd rfl hne
  | obj l => exact ⟨l, rfl, h⟩
  | _ => cases h

section Root

variable {root : List (Literal × Value)} {m : InventoryMessage}

theorem Accepted.decodedRoot (a : Accepted (.obj root) m) (hx : Exact messageFields root) :
    Decoded messageFields root emptyMessage m :=
  ⟨by simp [messageFields], by decide, hx, (checkValue_obj a.unique).1, a.decoded⟩

theorem Accepted.type (a : Accepted (.obj root) m) (hx : Exact messageFields root) :
    "type" ∈ names root ∧ ∃ l, valueOf root "type" = .str l ∧ text l = "inventory" := by
  have h := (a.decodedRoot hx).string (by simp [messageFields]) message_owns.1 (fun _ _ => rfl)
    (show m.messageType ≠ "" by rw [a.messageType]; decide)
  rwa [a.messageType] at h

theorem Accepted.envelopeObject (a : Accepted (.obj root) m) (hx : Exact messageFields root) :
    "envelope" ∈ names root ∧ ∃ l, valueOf root "envelope" = .obj l ∧
      decodeMembers envelopeFields l emptyMessage.envelope = some m.envelope := by
  have hne : m.envelope ≠ emptyMessage.envelope := fun h => by
    have := a.envelope.protocolVersion
    rw [h] at this
    cases this
  obtain ⟨hname, t, t', ht, hstore, hm⟩ := (a.decodedRoot hx).changed (by simp [messageFields]) message_owns.2.1 hne
  obtain ⟨e, hdec, rfl⟩ := Option.map_eq_some_iff.mp hstore
  dsimp only at ht hm
  rw [ht] at hdec
  exact ⟨hname, hm ▸ obj_of_decodeStruct hdec (hm ▸ hne)⟩

theorem Accepted.payloadObject (a : Accepted (.obj root) m) (hx : Exact messageFields root) :
    "payload" ∈ names root ∧ ∃ l, valueOf root "payload" = .obj l ∧
      decodeMembers payloadFields l emptyMessage.payload = some m.payload := by
  have hne : m.payload ≠ emptyMessage.payload := fun h => by
    have := a.payload.schemaVersion
    rw [h] at this
    cases this
  obtain ⟨hname, t, t', ht, hstore, hm⟩ := (a.decodedRoot hx).changed (by simp [messageFields]) message_owns.2.2 hne
  obtain ⟨p, hdec, rfl⟩ := Option.map_eq_some_iff.mp hstore
  dsimp only at ht hm
  rw [ht] at hdec
  exact ⟨hname, hm ▸ obj_of_decodeStruct hdec (hm ▸ hne)⟩

end Root

/-! ## Clean bodies -/

/-- The instant under a name, as it is written. -/
def stampAt : Value → Option Stamp
  | .str l => readStamp (l.flatMap Piece.render)
  | _ => none

/-- The objects of a body that has no member the two decoders take differently. -/
structure CleanMembers (root envelope payload : List (Literal × Value)) : Prop where
  rootNames : ∀ n ∈ names root, n ∈ messageKeys
  envelopeNames : ∀ n ∈ names envelope, n ∈ Server.envelopeKeys
  payloadNames : ∀ n ∈ names payload, n ∈ Server.inventoryKeys
  collectorComplete : ∃ b, valueOf payload "collector_complete" = .bool b
  fieldValues : ∀ l, valueOf payload "fields" = .obj l → ∀ x ∈ l, x.2 ≠ .null
  microseconds : ∀ c e, stampAt (valueOf envelope "created_at") = some c →
    stampAt (valueOf envelope "expires_at") = some e → c.ns / 1000 < e.ns / 1000

/-- Every member name is spelled as in the schema, `collector_complete` is a boolean, no
inventory field is `null`, and the two times fall into different microseconds. -/
def Clean (v : Value) : Prop := ∃ root envelope payload, v = .obj root ∧ valueOf root "envelope" = .obj envelope ∧
  valueOf root "payload" = .obj payload ∧ CleanMembers root envelope payload

/-- Every schema object has exactly the schema's names, each once. -/
def SchemaNames (v : Value) : Prop := ∃ root envelope payload, v = .obj root ∧
  valueOf root "envelope" = .obj envelope ∧ valueOf root "payload" = .obj payload ∧
  (names root).Perm messageKeys ∧ (names envelope).Perm Server.envelopeKeys ∧
  (names payload).Perm Server.inventoryKeys

theorem exact_of_names {σ : Type} {fields : List (StructField σ)}
    (h : ∀ n ∈ names members, n ∈ fields.map (·.name)) : Exact fields members :=
  fun m hm => h _ (List.mem_map.mpr ⟨m, hm, rfl⟩)

section Objects

variable {root envelope payload : List (Literal × Value)} {m : InventoryMessage}

theorem Accepted.decodedEnvelope (a : Accepted (.obj root) m) (hroot : ∀ n ∈ names root, n ∈ messageKeys)
    (he : valueOf root "envelope" = .obj envelope) (hx : ∀ n ∈ names envelope, n ∈ Server.envelopeKeys) :
    Decoded envelopeFields envelope emptyMessage.envelope m.envelope := by
  obtain ⟨-, l, hl, hdec⟩ := a.envelopeObject (exact_of_names hroot)
  obtain rfl : l = envelope := by rw [he] at hl; cases hl; rfl
  have hunique := (checkValue_obj a.unique).2 _ _ he
  exact ⟨by simp [envelopeFields], by decide, exact_of_names hx, (checkValue_obj hunique).1, hdec⟩

theorem Accepted.decodedPayload (a : Accepted (.obj root) m) (hroot : ∀ n ∈ names root, n ∈ messageKeys)
    (hp : valueOf root "payload" = .obj payload) (hx : ∀ n ∈ names payload, n ∈ Server.inventoryKeys) :
    Decoded payloadFields payload emptyMessage.payload m.payload := by
  obtain ⟨-, l, hl, hdec⟩ := a.payloadObject (exact_of_names hroot)
  obtain rfl : l = payload := by rw [hp] at hl; cases hl; rfl
  have hunique := (checkValue_obj a.unique).2 _ _ hp
  exact ⟨by simp [payloadFields], by decide, exact_of_names hx, (checkValue_obj hunique).1, hdec⟩

theorem Accepted.envelopeAgrees (hpy : ReadsRfc3339 py) (a : Accepted (.obj root) m)
    (hroot : ∀ n ∈ names root, n ∈ messageKeys) (he : valueOf root "envelope" = .obj envelope)
    (hx : ∀ n ∈ names envelope, n ∈ Server.envelopeKeys) : EnvelopeAgrees py envelope m.envelope :=
  envelope_agrees hpy (a.decodedEnvelope hroot he hx) a.envelope (numbers_obj (numbers_valueOf_obj a.numbers he))

end Objects

/-- **The server reads what the agent reads.** A clean body that the agent accepts has
the schema's names, and the server accepts it as the same message. -/
theorem read_of_clean (hpy : ReadsRfc3339 py) {raw : List UInt8} {m : InventoryMessage} {s : String} {v : Value}
    (h : Agent.Protocol.decodeInventory raw = .ok m) (hs : decodeUtf8 raw = some s)
    (hv : parse 10000 s.toList = some v) (hclean : Clean v) :
    SchemaNames v ∧ ∃ x, Server.decodeMessage py raw = .ok x ∧ SameMessage m x := by
  obtain ⟨hne, hlen, s', v', hs', hv', a⟩ := accepted_of_decodeInventory h
  obtain rfl : s' = s := Option.some.inj (hs'.symm.trans hs)
  obtain rfl : v' = v := Option.some.inj (hv'.symm.trans hv)
  obtain ⟨root, envelope, payload, rfl, he, hp, hc⟩ := hclean
  have hx : Exact messageFields root := exact_of_names hc.rootNames
  have droot := a.decodedRoot hx
  have dpayload := a.decodedPayload hc.rootNames hp hc.payloadNames
  have hagree := a.envelopeAgrees hpy hc.rootNames he hc.envelopeNames
  obtain ⟨ntype, l, htype, hinventory⟩ := a.type hx
  obtain ⟨nenvelope, -⟩ := a.envelopeObject hx
  obtain ⟨npayload, -⟩ := a.payloadObject hx
  have hlt : m.envelope.createdAt.ns / 1000 < m.envelope.expiresAt.ns / 1000 := by
    obtain ⟨lc, c, hc1, hc2, hc3⟩ := hagree.created
    obtain ⟨le, e, he1, he2, he3⟩ := hagree.expires
    rw [← hc3, ← he3]
    exact hc.microseconds c e (by rw [hc1]; exact hc2) (by rw [he1]; exact he2)
  obtain ⟨x, hread, hsame⟩ := hagree.read a.envelope hlt
  obtain ⟨b, hb⟩ := hc.collectorComplete
  have hunique := checkValue_obj ((checkValue_obj a.unique).2 _ _ hp)
  have hcodes : ∀ l ∈ literals (.obj payload), codes l = codesOf (text l) :=
    fun l hl => a.literal l (literals_valueOf hp nofun l hl)
  obtain ⟨pkeys, phooks, q, qread, qsame⟩ := (payload_agrees dpayload a.payload
    (numbers_obj (numbers_valueOf_obj a.numbers hp)) hcodes).read dpayload a.payload hb hc.fieldValues
      (fun l hl => (checkValue_obj (hunique.2 _ _ hl)).1) hcodes
  have rkeys : (names root).Perm messageKeys := by
    refine droot.perm ?_
    simp only [messageFields, List.forall_mem_cons, List.not_mem_nil, false_implies, implies_true, and_true]
    exact ⟨ntype, nenvelope, npayload⟩
  have rhooks : hookError (.obj root) = none := by
    refine droot.hooks ?_
    simp only [messageFields, List.forall_mem_cons, List.not_mem_nil, false_implies, implies_true, and_true]
    exact ⟨by rw [htype]; rfl, by rw [he]; exact hagree.hooks, by rw [hp]; exact phooks⟩
  refine ⟨⟨root, envelope, payload, rfl, he, hp, rkeys, hagree.keys, pkeys⟩,
    ⟨x, m.envelope.protocolVersion, .inventory q⟩, ?_, hsame, rfl, q, rfl, qsame⟩
  have hstring : asString "type" (valueOf root "type") = .ok "inventory" := by rw [htype, asString, hinventory]
  exact Server.decodeMessage_ok.mpr ⟨hne, hlen, s', _, hs, hv, rhooks, (Server.decodeValue_inventory rfl hstring).mpr
    ⟨exactKeys_of_perm (by decide) rkeys, envelope, payload, q, he, hp, hread, qread, rfl⟩⟩

end NorthgateRmm.Wire
