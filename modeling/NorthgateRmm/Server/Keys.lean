import NorthgateRmm.Server.Lifecycle

/-!
# Keys and floors

The primary keys of the identity and observation tables, and the rows of
`message_sequences`: one for each identity and boot that had a message accepted, at the
highest sequence of the accepted ones. Unlike the time window of the log this holds in
every run, whatever the envelopes say.
-/

namespace NorthgateRmm.Server

structure Keys (db : Db) : Prop where
  identities : (db.endpointIdentities.map (·.identityId)).Nodup
  messages : (db.observations.map (·.messageId)).Nodup
  floorKeys : ∀ r ∈ db.messageSequences, ∀ r' ∈ db.messageSequences,
    r.identityId = r'.identityId → r.bootId = r'.bootId → r = r'
  floors : ∀ o ∈ db.observations, ∃ r ∈ db.messageSequences,
    r.identityId = o.identityId ∧ r.bootId = o.bootId ∧ o.sequence ≤ r.lastSequence
  reached : ∀ r ∈ db.messageSequences, ∃ o ∈ db.observations,
    o.identityId = r.identityId ∧ o.bootId = r.bootId ∧ o.sequence = r.lastSequence

section Keys

variable {db db' : Db}

theorem Keys.empty : Keys {} := ⟨by simp, by simp, by simp, by simp, by simp⟩

/-- An identity row is the one its key finds. -/
theorem Keys.identityById (h : Keys db) {i : IdentityRow} (hi : i ∈ db.endpointIdentities) :
    db.identityById i.identityId = some i := by
  have hrows := h.identities
  unfold Db.identityById
  generalize db.endpointIdentities = rows at hi hrows
  induction rows with
  | nil => cases hi
  | cons x rows ih =>
    rw [List.map_cons, List.nodup_cons] at hrows
    rcases List.mem_cons.mp hi with rfl | hi
    · rw [List.find?_cons_of_pos (by simp)]
    · have hne : x.identityId ≠ i.identityId := fun he => hrows.1 (he ▸ List.mem_map_of_mem hi)
      rw [List.find?_cons_of_neg (by simpa using hne), ih hi hrows.2]

/-- A row of `message_sequences` is the floor of its key. -/
theorem Keys.lastSequence (h : Keys db) {r : SequenceRow} (hr : r ∈ db.messageSequences) :
    db.lastSequence r.identityId r.bootId = some r.lastSequence := by
  rw [Db.lastSequence]
  cases hfind : db.messageSequences.find? fun x => x.identityId == r.identityId && x.bootId == r.bootId with
  | none => exact absurd (List.find?_eq_none.mp hfind r hr) (by simp)
  | some x =>
    have hkey := List.find?_some hfind
    simp only [Bool.and_eq_true, beq_iff_eq] at hkey
    rw [h.floorKeys x (List.mem_of_find?_eq_some hfind) r hr hkey.1 hkey.2]
    rfl

/-- No accepted sequence is above the floor. -/
theorem Keys.sequence_le (h : Keys db) {o : ObservationRow} (ho : o ∈ db.observations) :
    ∃ last, db.lastSequence o.identityId o.bootId = some last ∧ o.sequence ≤ last := by
  obtain ⟨r, hr, hid, hboot, hle⟩ := h.floors o ho
  exact ⟨r.lastSequence, hid ▸ hboot ▸ h.lastSequence hr, hle⟩

/-- Changes that leave the log and the floors alone. -/
theorem Keys.of_same (h : Keys db) (hi : (db'.endpointIdentities.map (·.identityId)).Nodup)
    (ho : db'.observations = db.observations) (hs : db'.messageSequences = db.messageSequences) : Keys db' := by
  refine ⟨hi, ho ▸ h.messages, hs ▸ h.floorKeys, ?_, ?_⟩
  · rw [ho, hs]; exact h.floors
  · rw [ho, hs]; exact h.reached

theorem nodup_append_identity {rows : List IdentityRow} {i : IdentityRow}
    (h : (rows.map (·.identityId)).Nodup) (hfresh : ∀ x ∈ rows, x.identityId ≠ i.identityId) :
    ((rows ++ [i]).map (·.identityId)).Nodup := by
  rw [List.map_append, List.nodup_append]
  refine ⟨h, by simp, ?_⟩
  intro a ha b hb hab
  obtain ⟨x, hx, rfl⟩ := List.mem_map.mp ha
  obtain rfl : b = i.identityId := by simpa using hb
  exact hfresh x hx hab

theorem nodup_update_identity {rows : List IdentityRow} {id : Uuid} {f : IdentityRow → IdentityRow}
    (hf : ∀ i, (f i).identityId = i.identityId) (h : (rows.map (·.identityId)).Nodup) :
    ((rows.map fun i => if i.identityId = id then f i else i).map (·.identityId)).Nodup := by
  have hsame : (rows.map fun i => if i.identityId = id then f i else i).map (·.identityId) =
      rows.map (·.identityId) := by
    rw [List.map_map]
    refine List.map_congr_left fun i _ => ?_
    show (if i.identityId = id then f i else i).identityId = i.identityId
    split
    · exact hf i
    · rfl
  rwa [hsame]

/-- An accepted message raises the floor of its key to its own sequence. -/
theorem Keys.accept {a : IngestArgs} {i : IdentityRow} {e : Endpoint} (h : Keys db) (hacc : Accepted a i e db db') :
    Keys db' := by
  obtain ⟨rows, events, hrows, rfl⟩ := hacc.after
  have hown : (⟨a.authenticatedIdentityId, a.envelope.bootId, a.envelope.sequence⟩ : SequenceRow) ∈ rows :=
    (hrows _).mpr (.inl rfl)
  refine ⟨?_, ?_, ?_, ?_, ?_⟩
  · show ((a.activate i.identityId db.endpointIdentities).map (·.identityId)).Nodup
    unfold IngestArgs.activate
    split
    · exact nodup_update_identity (Db.activated_identityId a.receivedAt) h.identities
    · exact h.identities
  · show ((db.observations ++ [a.observation i]).map (·.messageId)).Nodup
    rw [List.map_append, List.nodup_append]
    refine ⟨h.messages, by simp, ?_⟩
    intro x hx y hy hxy
    obtain ⟨o, ho, rfl⟩ := List.mem_map.mp hx
    obtain rfl : y = a.envelope.messageId := by simpa [IngestArgs.observation] using hy
    exact (hacc.unseen o ho).2.1 hxy
  · intro r hr r' hr' hid hboot
    rcases (hrows r).mp hr with rfl | ⟨hr, hne⟩
    · rcases (hrows r').mp hr' with rfl | ⟨-, hne⟩
      · rfl
      · exact absurd ⟨hid.symm, hboot.symm⟩ hne
    · rcases (hrows r').mp hr' with rfl | ⟨hr', -⟩
      · exact absurd ⟨hid, hboot⟩ hne
      · exact h.floorKeys r hr r' hr' hid hboot
  · intro o ho
    rcases List.mem_append.mp ho with ho | ho
    · obtain ⟨r, hr, hid, hboot, hle⟩ := h.floors o ho
      by_cases hkey : r.identityId = a.authenticatedIdentityId ∧ r.bootId = a.envelope.bootId
      · -- the floor of the message's own key was below its sequence
        have hlt := hacc.sequenceOk r.lastSequence (hkey.1 ▸ hkey.2 ▸ h.lastSequence hr)
        exact ⟨_, hown, hkey.1.symm.trans hid, hkey.2.symm.trans hboot, Nat.le_of_lt (Nat.lt_of_le_of_lt hle hlt)⟩
      · exact ⟨r, (hrows r).mpr (.inr ⟨hr, hkey⟩), hid, hboot, hle⟩
    · rw [List.mem_singleton.mp ho]
      exact ⟨_, hown, rfl, rfl, Nat.le_refl _⟩
  · intro r hr
    rcases (hrows r).mp hr with rfl | ⟨hr, -⟩
    · exact ⟨a.observation i, List.mem_append_right _ (List.mem_singleton.mpr rfl), rfl, rfl, rfl⟩
    · obtain ⟨o, ho, hkey⟩ := h.reached r hr
      exact ⟨o, List.mem_append_left _ ho, hkey⟩

/-- Every effect keeps the keys. -/
theorem Keys.effect {msg : Option IngestArgs} (h : Keys db) (heff : Effect msg db db') : Keys db' := by
  cases heff with
  | audit ha =>
    obtain ⟨events, rfl⟩ := ha
    exact h.of_same h.identities rfl rfl
  | createGrant hg =>
    obtain ⟨events, rfl⟩ := hg.after
    exact h.of_same h.identities rfl rfl
  | enroll he =>
    obtain ⟨events, rfl⟩ := he.after
    exact h.of_same (nodup_append_identity h.identities fun x hx => (he.enrollable.identity x hx).1) rfl rfl
  | exchange _ he =>
    obtain ⟨events, rfl⟩ := he.after
    exact h.of_same (nodup_append_identity h.identities fun x hx => (he.enrollable.identity x hx).1) rfl rfl
  | issue hi =>
    obtain ⟨events, rfl⟩ := hi.after
    exact h.of_same (nodup_update_identity (IssueArgs.certify_identityId _) h.identities) rfl rfl
  | revoke hr =>
    obtain ⟨events, rfl⟩ := hr.after
    exact h.of_same (nodup_update_identity (Db.revoked_identityId _ _) h.identities) rfl rfl
  | accept _ hacc => exact h.accept hacc

end Keys

/-- The keys hold in every state of every run of the service. -/
theorem Service.run_keys (decode : List UInt8 → Except Error AgentMessage) (actions : List Action) {s : Service}
    (h : Keys s.db) : Keys (Service.run decode actions s).db := by
  induction actions generalizing s with
  | nil => exact h
  | cons action actions ih =>
    obtain ⟨msg, heff⟩ := action.exec_effect decode s
    exact ih (h.effect heff)

end NorthgateRmm.Server
