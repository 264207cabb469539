import NorthgateRmm.Agent.Runtime.Stop
import NorthgateRmm.Agent.Runtime.System
import NorthgateRmm.Wire.Acknowledgement

/-!
# From the spool to the database

The agent over its spool with the server behind its sender. The server takes requests of
anybody in any order; a response with status 200 that reaches the agent is one that the
server gave to the bytes that were sent. Then a record leaves the spool only when the server
has an observation of it, or when an event that names it was logged.
-/

namespace NorthgateRmm.Wire

open Agent.Runtime Agent.Transport CrashFs
open Agent.Spool (Held Queue Process Step maxRecordBytes)
open Server (Service Action AgentMessage AgentMessageResponse Db)

variable (decode : List UInt8 → Except Server.Error AgentMessage) {s s' s'' : Service} {id u x : Uuid} {payload : List UInt8}

/-! ## The server -/

/-- The server performs some actions. -/
def Evolves (s s' : Service) : Prop :=
  ∃ actions, s' = Service.run decode actions s

/-- The two transactions of a request with this body, other actions around them, and the
response. -/
def Serves (body : List UInt8) (response : AgentMessageResponse) (s s' : Service) : Prop :=
  ∃ s₁ s₂ request peer receivedAt r k observationId, Evolves decode s s₁ ∧ request.body = body ∧
    (Server.authenticate decode request peer receivedAt s₁.db).1 = .ok r ∧
    Evolves decode ((Action.authenticate request peer receivedAt).exec decode s₁) s₂ ∧
    s₂.inFlight[k]? = some r ∧ (r.ingest observationId s₂.db).1 = .ok response ∧
    Evolves decode ((Action.ingest k observationId).exec decode s₂) s'

/-- A 200 response that comes back is one that the server gave to this payload. -/
def Genuine (payload : List UInt8) (attempt : Attempt) (s s' : Service) : Prop :=
  ∀ response, attempt = .answered response → response.status = 200 →
    ∃ answer, answer.status = 200 ∧ response.body = responseBytes answer.body ∧ Serves decode payload answer s s'

/-- The clock does not go back, and a wait that ends lasts its interval. -/
def overServer : Around Service where
  initial := Evolves decode {}
  idle w w' := w.time ≤ w'.time ∧ Evolves decode w.outside w'.outside
  step {β} w o a w' := w.time ≤ w'.time ∧ Evolves decode w.outside w'.outside ∧ match β, o, a with
    | _, .send id payload, some r => ∃ ctxErr attempt, Genuine decode payload attempt w.outside w'.outside ∧
        r = (send ctxErr id.toText payload attempt).mapError .delivery
    | _, .wait interval, some true => w.time + interval ≤ w'.time
    | _, _, _ => True

variable {decode}

theorem Evolves.trans (h : Evolves decode s s') (h' : Evolves decode s' s'') : Evolves decode s s'' := by
  obtain ⟨actions, rfl⟩ := h
  obtain ⟨actions', rfl⟩ := h'
  exact ⟨actions ++ actions', List.foldl_append.symm⟩

/-! ## One exchange -/

/-- The server has the message, with the digest of these bytes. -/
def Arrived (db : Db) (id : Uuid) (payload : List UInt8) : Prop :=
  ∃ o ∈ db.observations, o.messageId = id ∧ o.encodedMessageDigest = some (sha256Hex payload)

/-- Observations are never removed. -/
theorem observed_of_effect {msg db db' o} (h : Server.Effect msg db db') (ho : o ∈ db.observations) : o ∈ db'.observations := by
  cases h with
  | audit h => obtain ⟨_, rfl⟩ := h; exact ho
  | createGrant h | enroll h | exchange _ h | issue h | revoke h => obtain ⟨_, rfl⟩ := h.after; exact ho
  | accept _ h => obtain ⟨_, _, -, rfl⟩ := h.after; exact List.mem_append_left _ ho

theorem Arrived.evolves (h : Evolves decode s s') (ha : Arrived s.db id payload) : Arrived s'.db id payload := by
  obtain ⟨actions, rfl⟩ := h
  induction actions generalizing s with
  | nil => exact ha
  | cons action actions ih =>
    obtain ⟨msg, heffect⟩ := action.exec_effect decode s
    obtain ⟨o, ho, hfields⟩ := ha
    exact ih ⟨o, observed_of_effect heffect ho, hfields⟩

/-- A message that is accepted, or taken for a retry, is there afterwards. -/
theorem ingest_observed {a : Server.IngestArgs} {db : Db} {o : Server.Observation}
    (h : (Server.ingestSeeing db.observations a db).1 = .ok o) :
    ∃ o ∈ (Server.ingestSeeing db.observations a db).2.observations, o.messageId = a.envelope.messageId ∧
      o.encodedMessageDigest = a.encodedMessageDigest := by
  obtain ⟨⟨e, he⟩, -⟩ | ⟨existing, hretry, -, hafter⟩ | ⟨i, e, -, hacc⟩ :=
    Server.ingestSeeing_cases db.observations a db
  · exact nomatch he.symm.trans h
  · obtain ⟨events, hafter⟩ := hafter
    rw [hafter]
    unfold Server.ingestDecision at hretry
    repeat' split at hretry
    all_goals cases hretry
    rename_i hfind hexact
    simp only [Server.IngestArgs.exactRetry, Bool.and_eq_true, beq_iff_eq] at hexact
    exact ⟨existing, List.mem_of_find?_eq_some hfind, by simpa using List.find?_some hfind, hexact.1.1.2⟩
  · obtain ⟨rows, events, -, hafter⟩ := hacc.after
    rw [hafter]
    exact ⟨a.observation i, List.mem_append_right _ (List.mem_singleton.mpr rfl), rfl, rfl⟩

/-- A 200 response names a message that the server has. -/
theorem arrived_of_serves {response : AgentMessageResponse} (h : Serves decode payload response s s')
    (hstatus : response.status = 200) : ∃ u, response.body = .accepted u ∧ Arrived s'.db u payload := by
  obtain ⟨s₁, s₂, request, peer, receivedAt, r, k, observationId, -, rfl, hauth, -, hk, hingest, hafter⟩ := h
  obtain ⟨-, hdigest, -⟩ := (Server.authenticate_cases decode request peer receivedAt s₁.db).2 r hauth
  have hdb : ((Action.ingest k observationId).exec decode s₂).db =
      (Server.ingestSeeing s₂.db.observations (r.ingestArgs observationId) s₂.db).2 := by
    rw [← r.ingestSeeing_snd]
    simp only [Action.exec, hk]
    rfl
  unfold Server.AuthenticatedRequest.ingest Server.AuthenticatedRequest.ingestSeeing at hingest
  dsimp only at hingest
  split at hingest
  · rename_i hok
    obtain ⟨o, ho, hid, hbytes⟩ := ingest_observed hok
    rw [r.ingestArgs_envelope] at hid
    rw [r.ingestArgs_digest, hdigest] at hbytes
    cases hingest
    exact ⟨_, rfl, Arrived.evolves hafter ⟨o, hdb ▸ ho, hid, hbytes⟩⟩
  · exact absurd hstatus (exceptionResponse_status hingest)

/-- `Send` returns nil only on a response with status 200 whose body acknowledges the ID. -/
theorem answered_of_send {ctxErr messageID attempt} (h : send ctxErr messageID payload attempt = .ok ()) : messageID ≠ "" ∧ ∃ response, attempt = .answered response ∧
      response.status = 200 ∧ acknowledge messageID (response.body.take (maxResponseBytes + 1)) = .ok () := by
  unfold send at h
  repeat' split at h
  all_goals try cases h
  rename_i hid _ _ response hstatus _ _ raw hraw
  rw [Response.read] at hraw
  split at hraw
  · cases hraw
  · obtain rfl := Option.some.inj hraw
    exact ⟨by rintro rfl; exact hid rfl, response, rfl, not_not.mp hstatus, h⟩

/-- The acknowledgement of a message is taken for no other. -/
theorem acknowledged_id {messageID : String} (hne : messageID ≠ "")
    (h : acknowledge messageID ((responseBytes (.accepted u)).take (maxResponseBytes + 1)) = .ok ()) : messageID = u.toText := by
  obtain ⟨hlength, s, members, hs, hparse, hexact⟩ := exact_accepted u
  rw [List.take_of_length_le (Nat.le_succ_of_le hlength)] at h
  obtain ⟨-, members', hv, hack⟩ := (acknowledge_ok_iff hne).mp h
  obtain ⟨s', hs', -, hparse', -⟩ := Agent.StrictJson.validate_some hv
  obtain rfl := Option.some.inj (hs.symm.trans hs')
  obtain rfl := Json.Value.obj.inj (Option.some.inj (hparse.symm.trans hparse'))
  exact Option.some.inj (hack.messageID.symm.trans (acknowledges_of_exactly hexact).messageID)

theorem arrived_of_send {c attempt} (h : Genuine decode payload attempt s s') (hsend : send c id.toText payload attempt = .ok ()) :
    Arrived s'.db id payload := by
  obtain ⟨hne, response, rfl, hstatus, hack⟩ := answered_of_send hsend
  obtain ⟨answer, hanswer, hbody, hserves⟩ := h response rfl hstatus
  obtain ⟨u, hu, harrived⟩ := arrived_of_serves hserves hanswer
  rw [hbody, hu] at hack
  rwa [Uuid.toText_injective (acknowledged_id hne hack)]

/-! ## Histories -/

variable (decode) in
/-- What holds in every history of agent and server. -/
structure Together (w : Past Service) : Prop where
  started : Evolves decode {} w.now.outside
  arrived : ∀ {id payload v v'}, ⟨.send id payload, some (.ok ()), v, v'⟩ ∈ w.past → Arrived w.now.outside.db id payload
  waited : ∀ {interval v v'}, ⟨.wait interval, some true, v, v'⟩ ∈ w.past → v.time + interval ≤ w.now.time
  looked : ∀ {later t u u' earlier}, w.past = later ++ ⟨.now, some t, u, u'⟩ :: earlier →
    ∀ {interval v v'}, ⟨.wait interval, some true, v, v'⟩ ∈ earlier → v.time + interval ≤ t.ns

variable {options : Options} {w w' : Past Service}

theorem Together.step {q : Queue} {β : Type} {o : Call β} {a : Option β} (h : Together decode w)
    (hs : (agent q (overServer decode)).Records w o a w') : Together decode w' := by
  obtain ⟨heffect, htime, hevolves, hcall⟩ := takes_of hs
  refine ⟨h.started.trans hevolves, fun {id payload v v'} hm => ?_, fun hm => ?_, fun {later t u u' earlier} hm interval v v' hwait => ?_⟩
  · rw [hs.past] at hm
    rcases List.mem_cons.mp hm with heq | hm
    · cases heq
      obtain ⟨ctxErr, attempt, hgenuine, hsend⟩ := hcall
      refine arrived_of_send (c := ctxErr) hgenuine ?_
      cases hr : send ctxErr id.toText payload attempt with
      | ok _ => rfl
      | error e => rw [hr] at hsend; exact nomatch hsend
    · exact (h.arrived hm).evolves hevolves
  · rw [hs.past] at hm
    rcases List.mem_cons.mp hm with heq | hm
    · cases heq
      exact hcall
    · exact (h.waited hm).trans htime
  · rw [hs.past] at hm
    cases later with
    | nil =>
      cases hm
      rw [heffect.2 t rfl]
      exact (h.waited hwait).trans htime
    | cons m later => exact h.looked (List.cons.inj hm).2 hwait

def someId : Uuid := ⟨0x11111111111141118111111111111111⟩

def someBytes : List UInt8 := Agent.Protocol.encoded someEnvelope somePayload

def someQueue : Queue := { maxBytes := maxRecordBytes }

/-- A spool with one record, after a restart of the machine. -/
def someSpool : Agent.Disk := Fs.crash (Process.openedSession.step maxRecordBytes (.call (.enqueue none someId someBytes
  Agent.Spool.UtcTime.sample))).disk ⟨fun _ => [], fun _ => .blank⟩

def Reads (s : Agent.Disk) (bytes : List UInt8) : Prop :=
  (s.image .parent .spool ≠ none ∧ s.image .root .rejected ≠ none ∧ s.image .root .rollover ≠ none ∧
      s.image .root (.record someId) ≠ none) ∧
    ((someQueue.listRolloverIds none : Step _ _).finish Fs.machine none s).1 = .ok [] ∧
    ((someQueue.listIds none : Step _ _).finish Fs.machine none s).1 = .ok [someId] ∧
    ((someQueue.readPayload none someId : Step _ _).finish Fs.machine none s).1 = .ok bytes

theorem someSpool_reads : Reads someSpool someBytes := by
  unfold Reads
  decide +kernel

theorem answers_of_finish {α : Type} {p : Step (List UInt8) α} {s : Agent.Disk} {a : α} {Q : Except Agent.Spool.Error α → Prop}
    (h : (p.finish Fs.machine none s).1 = .ok a) (hp : Faulty (· = s) p (fun r s' => s' = s ∧ Q r) s) :
    Agent.Answers p s (some (.ok a)) s := by
  obtain ⟨plan, hplan⟩ := Prog.run_of_finish p s
  have hperforms : Agent.Performs p s _ _ := ⟨plan, hplan⟩
  rw [h, ((hperforms.of_faulty hp).1 _ rfl).1] at hperforms
  exact ⟨_, hperforms, rfl⟩

/-- The options of the endpoint of the message, and of another one. -/
def optionsOf : Bool → Options
  | true => { someOptions with endpointId := someEnvelope.endpointID }
  | false => someOptions

def lastCall (w : World Service) (bytes : List UInt8) : Bool → Moment Call (World Service)
  | true => ⟨.send someId bytes, none, w, w⟩
  | false => ⟨.quarantine someId, none, w, w⟩

/-- The agent is killed while it sends the record, or while it moves it aside. -/
theorem killed {w : World Service} {bytes : List UInt8} (mine : Bool) (hs : Reads w.disk bytes) (hsettled : Fs.Settled w.disk)
    (hdecode : Agent.Protocol.decodeInventory bytes = .ok ⟨"inventory", someEnvelope, somePayload⟩)
    (htime : w.time = 1750000000123456789) (hserver : w.outside = {}) :
    ∃ earlier, History (optionsOf mine) (overServer decode) ⟨w, lastCall w bytes mine :: earlier⟩ := by
  obtain ⟨⟨hspool, hrejected, hrollover, -⟩, hrolled, hlist, hread⟩ := hs
  have hstep {β : Type} {o : Call β} {a : Option β} {past} (heffect : o.Effect someQueue w.time w.disk w.disk a)
      (haround : (overServer decode).step w o a w) :
      (agent someQueue (overServer decode)).Records ⟨w, past⟩ o a ⟨w, ⟨o, a, w, w⟩ :: past⟩ :=
    ⟨rfl, by cases a <;> exact ⟨heffect, haround⟩⟩
  have hstill : w.time ≤ w.time ∧ Evolves decode w.outside w.outside ∧ True := ⟨le_rfl, ⟨[], rfl⟩, trivial⟩
  obtain ⟨earlier, hrun⟩ : ∃ earlier, (run (optionsOf mine) 1).Runs (agent someQueue (overServer decode)).recorded ⟨w, []⟩ none
      ⟨w, lastCall w bytes mine :: earlier⟩ := by
    have hid : someEnvelope.messageID = someId.toText := by decide +kernel
    cases mine
    all_goals
      apply Exists.intro
      refine .act true _ (hstep rfl hstill) (.act (.ok []) _ (hstep ⟨none, ?_⟩ hstill) ?_)
      · exact answers_of_finish hrolled Queue.listRolloverIds_faulty
      refine .act none _ (hstep rfl hstill) (.act (.ok [someId]) _ (hstep ⟨none, ?_⟩ hstill) ?_)
      · exact answers_of_finish hlist Queue.listIds_faulty
      refine .act (.ok bytes) _ (hstep ⟨none, answers_of_finish hread Queue.readPayload_faulty⟩ hstill) ?_
      simp only [bind, Prog.bind, Prog.orFail, hdecode, hid, ne_eq, not_true_eq_false, if_false]
    · exact .cut (hstep ⟨none, none, ⟨[], rfl⟩, rfl⟩ hstill)
    · refine .act ⟨w.time, 0⟩ _ (hstep ⟨rfl, fun t ht => by cases ht; rfl⟩ hstill) ?_
      rw [htime]
      exact .act none _ (hstep rfl hstill) (.cut (hstep rfl hstill))
  have hhoused : Queue.Housed w.disk :=
    ⟨fun T hT => hsettled T hT ▸ hspool, fun T hT => hsettled T hT ▸ hrejected, fun T hT => hsettled T hT ▸ hrollover⟩
  exact ⟨earlier, .ran someQueue 1 (.first w hhoused ⟨[], hserver⟩) hrun⟩

def someWorld : World Service := ⟨someSpool, 1750000000123456789, {}⟩

theorem someHistory (mine : Bool) : ∃ earlier, History (optionsOf mine) (overServer (Server.decode rfc3339Python))
    ⟨someWorld, lastCall someWorld someBytes mine :: earlier⟩ :=
  killed mine someSpool_reads (Fs.settled_crash _ _) (Agent.Protocol.decode_encode encode_some) rfl rfl

/-- **Evictions are accounted for.** `Quarantine` is called only when no record that an earlier
one rolled over, also one that was cut off, is left in the rollover directory. -/
theorem quarantines_after_audit {later x answer v v' earlier} (h : History options (overServer decode) w)
    (hpast : w.past = later ++ ⟨.quarantine x, answer, v, v'⟩ :: earlier) (y : Uuid) :
    v.disk.image .rollover (.record y) = none := by
  have hobeys := h.sound.obeys
  rw [hpast] at hobeys
  exact hobeys.split y

theorem quarantines_after_audit_killed : someSpool.image .rollover (.record someId) = none :=
  (someHistory false).elim fun _ h => quarantines_after_audit h (show _ = [] ++ _ from rfl) someId

end NorthgateRmm.Wire
