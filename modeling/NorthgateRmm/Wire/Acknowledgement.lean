import NorthgateRmm.Agent.Transport.Mtls
import NorthgateRmm.Wire.FirstInventory

/-!
# Acknowledgements between server and agent

The body of a 200 response as `_json_response` writes it, and what `Send` takes for an
acknowledgement. The server writes nothing but exact acknowledgements; the agent takes those,
and because its decoder folds member names, some that are not exact.
-/

namespace NorthgateRmm.Wire

open Json GoJson
open Server (asciiPieces asciiString asciiObject ResponseBody AgentMessageResponse)
open Agent.Protocol (Envelope InventoryPayload encodeInventory)
open Agent.Transport

/-- The body that `_json_response` encodes. -/
def responseValue : ResponseBody → Value
  | .accepted messageId => asciiObject [("message_id", asciiString messageId.toText), ("accepted", .bool true)]
  | .error code => asciiObject [("error", asciiString code)]

def responseBytes (body : ResponseBody) : List UInt8 := encodeUtf8 (String.ofList (render (responseValue body)))

/-! ## What the server writes -/

/-- Digits and hyphens are written as they are. -/
theorem asciiPieces_toText (u : Uuid) : u.toText.toList.flatMap asciiPieces = literalOf u.toText := by
  have hpiece : ∀ c ∈ u.toText.toList, asciiPieces c = [piece c] := by
    intro c hc
    rcases Uuid.mem_toText hc with hc | rfl
    · obtain ⟨n, hn, rfl⟩ := eq_hexDigit hc
      have hdigits : ∀ n < 16, asciiPieces (Sha256.hexDigit n) = [piece (Sha256.hexDigit n)] := by decide
      exact hdigits n hn
    · rfl
  rw [literalOf, List.map_eq_flatMap]
  exact List.flatMap_congr hpiece

theorem responseValue_accepted (u : Uuid) :
    responseValue (.accepted u) = object [("message_id", string u.toText), ("accepted", .bool true)] := by
  have hnames : "message_id".toList.flatMap asciiPieces = literalOf "message_id" ∧
      "accepted".toList.flatMap asciiPieces = literalOf "accepted" := by decide +kernel
  simp only [responseValue, asciiObject, asciiString, object, string, List.map_cons, List.map_nil, hnames.1, hnames.2,
    asciiPieces_toText]

theorem utf8Len_le (cs : List Char) : String.utf8Len cs ≤ 4 * cs.length := by
  induction cs with
  | nil => exact Nat.zero_le _
  | cons c cs ih =>
    have := c.utf8Size_le_four
    rw [String.utf8Len_cons, List.length_cons]
    omega

theorem length_literalOf (u : Uuid) : ((literalOf u.toText).flatMap Piece.render).length = 36 := by
  have hpiece : ∀ c ∈ u.toText.toList, (piece c).render = [c] := by
    intro c hc
    rcases Uuid.mem_toText hc with hc | rfl
    · obtain ⟨n, hn, rfl⟩ := eq_hexDigit hc
      have hdigits : ∀ n < 16, (piece (Sha256.hexDigit n)).render = [Sha256.hexDigit n] := by decide
      exact hdigits n hn
    · rfl
  rw [literalOf, List.flatMap_map, List.flatMap_congr hpiece, List.flatMap_singleton', String.length_toList,
    Uuid.length_toText]

/-- The body of an accepted message acknowledges it exactly. -/
theorem exact_accepted (u : Uuid) : ExactAcknowledgement u.toText (responseBytes (.accepted u)) := by
  have hprintable : Printable Plain maxNestingDepth (responseValue (.accepted u)) := by
    rw [responseValue_accepted]
    exact printable_object (List.forall_mem_cons.2 ⟨printable_string _, List.forall_mem_singleton.2 (.bool true)⟩)
  have hlength : (render (responseValue (.accepted u))).length ≤ 1024 := by
    have hnames : ((literalOf "message_id").flatMap Piece.render).length = 10 ∧
        ((literalOf "accepted").flatMap Piece.render).length = 8 := by decide +kernel
    rw [responseValue_accepted]
    simp only [object, string, List.map_cons, List.map_nil, render, renderMembers, renderLiteral, List.cons_append,
      List.length_cons, List.length_append, hnames.1, hnames.2, length_literalOf]
    decide
  have hparse : parse maxNestingDepth (String.ofList (render (responseValue (.accepted u)))).toList =
      some (.obj [(literalOf "message_id", string u.toText), (literalOf "accepted", .bool true)]) := by
    rw [String.toList_ofList, parse_render hprintable, responseValue_accepted]
    rfl
  refine ⟨?_, _, _, decodeUtf8_encodeUtf8 _, hparse, ?_⟩
  · have hbytes := utf8Len_le (render (responseValue (.accepted u)))
    rw [responseBytes, length_encodeUtf8, String.utf8ByteSize_ofList]
    have hmax : maxResponseBytes = 4096 := rfl
    omega
  · exact ⟨_, _, _, text_literalOf _, text_literalOf _, text_literalOf _, .inl rfl⟩

section Handle

open Server

variable {decode : List UInt8 → Except Error AgentMessage} {request : AgentMessageRequest} {peer : VerifiedClientCertificate}
  {receivedAt : Instant} {observationId : Uuid} {db db' : Db} {response : AgentMessageResponse}

theorem exceptionResponse_status {e : Error} (h : exceptionResponse e = .ok response) : response.status ≠ 200 := by
  unfold exceptionResponse at h
  split at h
  · cases h; decide
  · cases h; decide
  · cases h; decide
  · exact nomatch h

theorem decodeRequest_status (h : decodeRequest decode request = .error (.ok response)) : response.status ≠ 200 := by
  unfold decodeRequest at h
  split_ifs at h
  · cases h; decide
  · cases h; decide
  · cases h; decide
  · cases h; decide
  · cases h; decide
  · split at h
    · exact nomatch h
    · exact exceptionResponse_status (Except.error.inj h)

theorem decode_of_decodeRequest {m : AgentMessage} (h : decodeRequest decode request = .ok m) :
    decode request.body = .ok m := by
  unfold decodeRequest at h
  split_ifs at h
  split at h
  · cases h
    assumption
  · exact nomatch h

/-- A response with status 200 names the message that was decoded. -/
theorem handle_accepted (h : handle decode request peer receivedAt observationId db = (.ok response, db'))
    (hstatus : response.status = 200) :
    ∃ m, decode request.body = .ok m ∧ response.body = .accepted m.envelope.messageId := by
  unfold handle at h
  have hcases := (authenticate_cases decode request peer receivedAt db).2
  cases hauth : authenticate decode request peer receivedAt db with
  | mk out db₁ =>
    rw [hauth] at h hcases
    cases out with
    | error early =>
      obtain rfl : early = .ok response := congrArg Prod.fst h
      unfold authenticate at hauth
      dsimp only at hauth
      split at hauth
      · rename_i hdecode
        obtain rfl := Except.error.inj (congrArg Prod.fst hauth)
        exact absurd hstatus (decodeRequest_status hdecode)
      · split at hauth
        · exact absurd hstatus (exceptionResponse_status (Except.error.inj (congrArg Prod.fst hauth)))
        · exact nomatch congrArg Prod.fst hauth
    | ok r =>
      obtain ⟨hdecode, -, -⟩ := hcases r rfl
      refine ⟨r.message, decode_of_decodeRequest hdecode, ?_⟩
      have hingest : (r.ingest observationId db₁).1 = .ok response := congrArg Prod.fst h
      unfold AuthenticatedRequest.ingest AuthenticatedRequest.ingestSeeing at hingest
      dsimp only at hingest
      split at hingest
      · cases hingest
        rfl
      · exact absurd hstatus (exceptionResponse_status hingest)

end Handle

/-- The server reads the message ID that was encoded. -/
theorem decoded_messageId {py : Server.Python} {envelope : Envelope} {payload : InventoryPayload} {raw : List UInt8}
    {m : Server.AgentMessage} (h : encodeInventory envelope payload = .ok raw) (hm : Server.decode py raw = .ok m) :
    m.envelope.messageId.toText = envelope.messageID := by
  obtain ⟨he, -, rfl, -⟩ := Agent.Protocol.encodeInventory_ok.mp h
  obtain ⟨x, hx, rfl⟩ : ∃ x, Server.decodeMessage py (Agent.Protocol.encoded envelope payload) = .ok x ∧
      x.agentMessage = m := by
    unfold Server.decode at hm
    cases hx : Server.decodeMessage py (Agent.Protocol.encoded envelope payload) with
    | error e => rw [hx] at hm; exact nomatch hm
    | ok x => rw [hx] at hm; exact ⟨x, rfl, Except.ok.inj hm⟩
  have henvelope : x.agentMessage.envelope = x.envelope := by
    unfold Server.Message.agentMessage
    split <;> rfl
  obtain ⟨-, -, s, v, hs, hv, -, hvalue⟩ := Server.decodeMessage_ok.1 hx
  obtain ⟨hs', hv'⟩ := parse_encoded (Agent.Protocol.printable_messageValue ⟨"inventory", envelope, payload⟩ 9997)
  obtain rfl := Option.some.inj (hs.symm.trans hs')
  obtain rfl := Option.some.inj (hv.symm.trans hv')
  have hroot := fun name v => @valueOf_object [("type", string "inventory"),
    ("envelope", Agent.Protocol.envelopeValue envelope), ("payload", Agent.Protocol.payloadValue payload)] name v
  have htype := hroot "type" (string "inventory") (by decide) (by simp) (by simp)
  obtain ⟨-, members, _, _, hmembers, -, hread, -⟩ := (Server.decodeValue_inventory rfl
    (by rw [htype, string, Server.asString, text_literalOf])).1 hvalue
  rw [hroot "envelope" (Agent.Protocol.envelopeValue envelope) (by decide) (by simp) (by simp),
    Agent.Protocol.envelopeValue, object, Value.obj.injEq] at hmembers
  have hid := hread.messageId
  rw [← hmembers, valueOf_object (v := string envelope.messageID) (by decide) (by simp) (by simp)] at hid
  obtain ⟨u, hu, htext⟩ := uuid_agrees (l := literalOf envelope.messageID)
    (by rw [text_literalOf]; exact he.messageID) "message_id"
  rw [henvelope, ← Except.ok.inj (hu.symm.trans hid), htext, text_literalOf]

/-- **An acknowledgement is exact unless a name is spelled in another way.** On a response
that has arrived with status 200 and an acceptable type, `Send` returns nil exactly for the
exact acknowledgements, unless the body acknowledges under names that only fold to those of
the struct; and what the server answers with status 200 to an encoded message acknowledges
that message exactly. -/
theorem acknowledged_exactly_unless_respelled (ctxErr : Option Agent.Spool.ContextError) (py : Server.Python) :
    (∀ (messageID : String) (payload : List UInt8) (response : Response),
      uuidPattern messageID = true → 1 ≤ payload.length ∧ payload.length ≤ maxRequestBytes →
      response.status = 200 → response.contentType.any MediaType.acceptable = true → response.broken = false →
      ((send ctxErr messageID payload (.answered response) = .ok () ↔ ExactAcknowledgement messageID response.body) ↔
        ¬ Respelled messageID response.body)) ∧
    ∀ (envelope : Envelope) (payload : InventoryPayload) (request : Server.AgentMessageRequest)
      (peer : Server.VerifiedClientCertificate) (receivedAt : Server.Instant) (observationId : Uuid) (db db' : Server.Db)
      (response : AgentMessageResponse), encodeInventory envelope payload = .ok request.body →
      Server.handle (Server.decode py) request peer receivedAt observationId db = (.ok response, db') →
      response.status = 200 → ExactAcknowledgement envelope.messageID (responseBytes response.body) := by
  refine ⟨fun messageID payload response hid hpayload hstatus htype hbody => ?_, ?_⟩
  · rw [send_ok_iff hid hpayload hstatus htype hbody]
    constructor
    · rintro h hrespelled
      exact not_exact_of_respelled hrespelled (h.1 (.inr hrespelled))
    · exact fun h => ⟨fun hor => hor.resolve_right h, .inl⟩
  · intro envelope payload request peer receivedAt observationId db db' response hencode hhandle hstatus
    obtain ⟨m, hm, hbody⟩ := handle_accepted hhandle hstatus
    rw [hbody, ← decoded_messageId hencode hm]
    exact exact_accepted _

/-! ### Two bodies -/

def sampleId : String := "11111111-1111-4111-8111-111111111111"

/-- A response whose body names the message under the given name. -/
def answerUnder (name : String) : Response :=
  { status := 200
    contentType := some ⟨"application/json", []⟩
    body := encodeUtf8 (String.ofList (render (object [(name, string sampleId), ("accepted", .bool true)]))) }

theorem validate_answerUnder {name : String} (h : name ≠ "accepted") :
    Agent.StrictJson.validate (answerUnder name).body =
      some (.obj [(literalOf name, string sampleId), (literalOf "accepted", .bool true)]) := by
  have hprintable : Printable Plain maxNestingDepth (object [(name, string sampleId), ("accepted", .bool true)]) :=
    printable_object (List.forall_mem_cons.2 ⟨printable_string _, List.forall_mem_singleton.2 (.bool true)⟩)
  have hcheck : Agent.StrictJson.checkValue (object [(name, string sampleId), ("accepted", .bool true)]) = true :=
    Agent.StrictJson.checkValue_object (by simpa using h)
      (List.forall_mem_cons.2 ⟨rfl, List.forall_mem_singleton.2 rfl⟩)
  simp only [answerUnder]
  rw [Agent.StrictJson.validate_render hprintable hcheck]
  rfl

/-- A body whose message ID stands under `MESSAGE_ID`. -/
theorem respelled_upper : Respelled sampleId (answerUnder "MESSAGE_ID").body := by
  have hfold : foldName "MESSAGE_ID" = foldName "message_id" := by decide +kernel
  have hlength : (answerUnder "MESSAGE_ID").body.length ≤ maxResponseBytes := by
    rw [answerUnder, length_encodeUtf8, String.utf8ByteSize_ofList]
    decide +kernel
  have hvalid := validate_answerUnder (show "MESSAGE_ID" ≠ "accepted" by decide)
  refine ⟨hlength, _, hvalid, ⟨_, List.mem_cons_self, ?_⟩, ?_⟩
  · rw [text_literalOf]
    decide
  · have hne := fold_ne
    constructor <;> simp [spoken, text_literalOf, hfold, hne, hne.symm, textOf, string]

/-- The agent takes it, though `message_id` does not occur in it. -/
theorem respelled_acknowledgement_is_taken :
    send none sampleId [0] (.answered (answerUnder "MESSAGE_ID")) = .ok () ∧
      ¬ ExactAcknowledgement sampleId (answerUnder "MESSAGE_ID").body :=
  ⟨(send_ok_iff (by decide +kernel) (by decide) rfl (by decide +kernel) rfl).2 (.inr respelled_upper),
    not_exact_of_respelled respelled_upper⟩

open SampleEnrollment in
theorem acknowledged_exactly_unless_respelled_sample :
    ¬ (send none sampleId [0] (.answered (answerUnder "MESSAGE_ID")) = .ok () ↔
        ExactAcknowledgement sampleId (answerUnder "MESSAGE_ID").body) ∧
      ∃ response : AgentMessageResponse, response.status = 200 ∧
        ExactAcknowledgement someEnvelope.messageID (responseBytes response.body) := by
  constructor
  · intro h
    exact ((acknowledged_exactly_unless_respelled none rfc3339Python).1 sampleId [0] (answerUnder "MESSAGE_ID") (by decide +kernel)
      (by decide) rfl (by decide +kernel) rfl).1 h respelled_upper
  · obtain ⟨response, hresponse, hstatus⟩ := handle_active rfc3339Python_reads
      (Server.Service.run_keys _ _ .empty) encode_some arrives_active rfl
    generalize hout : Server.handle _ (agentRequest (Agent.Protocol.encoded someEnvelope somePayload)) _ _ _ _ = out
      at hresponse
    obtain ⟨result, db'⟩ := out
    obtain rfl : result = .ok response := hresponse
    have hbody : ∀ raw, (agentRequest raw).body = raw := fun _ => rfl
    have hencode := encode_some
    rw [← hbody (Agent.Protocol.encoded someEnvelope somePayload)] at hencode
    exact ⟨response, hstatus, (acknowledged_exactly_unless_respelled none _).2 someEnvelope somePayload _ _ _ _ _ _ response
      hencode hout hstatus⟩

end NorthgateRmm.Wire
