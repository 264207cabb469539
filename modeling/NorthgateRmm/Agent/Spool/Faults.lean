import NorthgateRmm.Agent.Spool.Usage
import NorthgateRmm.Lib.CrashFrame

/-!
# The queue under faults

What each operation of the queue can do to the directories when any of its steps may
fail and when it may be stopped after any of them: which entries it can remove and add,
and what is known when it succeeds.
-/

namespace NorthgateRmm.Agent.Spool

open CrashFs

variable {P : Type} [Payload P] {α : Type}

/-- A set of entries. -/
abbrev Entries := Place → Name → Prop

def nowhere : Entries := fun _ _ => False

/-- The record of an ID in a directory. -/
def recordIn (d : Place) (id : Uuid) : Entries := fun d' n => d' = d ∧ n = .record id

/-- Everything but records. -/
def Queue.notRecords : Entries := fun _ n => ∀ x, n ≠ .record x

/-- What a stopped operation is known to have done: nothing in particular. -/
abbrev Stopped : Disk P → Prop := fun _ => True

/-! ## Custody -/

section Custody

variable {β : Type} {s s₀ s' : Disk P} {x : Uuid} {Q : Except Error α → Disk P → Prop} {e : Error}

/-- However the program ends. -/
abbrev Always (J : Disk P → Prop) (p : Step P α) (s : Disk P) : Prop := Faulty J p (fun _ => J) s

theorem always_bind {J : Disk P → Prop} {p : Step P α} {f : α → Step P β} (hp : Always J p s)
    (hf : ∀ a s₁, J s₁ → Always J (f a) s₁) : Always J (p >>= f) s :=
  Prog.wp_bind.mpr (Prog.wp_mono hp fun r s' hr => by
    cases r with
    | ok a => exact hf a s' hr
    | error e => exact hr)

/-- One of the directories has a record of this ID. -/
def Held (s : Disk P) (id : Uuid) : Prop := ∃ d, s.image d (.record id) ≠ none

def Keeps (s s' : Disk P) : Prop := ∀ x, Held s x → Held s' x

theorem Held.frame {w : Bool} {rem add : Entries} (h : Held s x) (hf : Frame w rem add s s')
    (hrem : ∀ d, ¬ rem d (.record x)) : Held s' x := by
  obtain ⟨d, hd⟩ := h
  obtain ⟨i, hi⟩ := Option.ne_none_iff_exists'.mp hd
  exact ⟨d, by rw [hf.kept d _ i hi (hrem d)]; exact Option.some_ne_none i⟩

/-- A step may take a record out of a directory if another one has it. -/
theorem keeps_step {o : CrashFs.Op Place Name (Content P) (Except Fault α)} (h : Keeps s₀ s)
    (hr : ∀ d x, o.removes d (.record x) → ∃ d', s.image d' (.record x) ≠ none ∧ ¬ o.removes d' (.record x))
    (hok : ∀ c a, (Fs.exec c o s).1 = .ok a → Keeps s₀ (Fs.exec c o s).2 → Q (.ok a) (Fs.exec c o s).2)
    (herr : ∀ s', Keeps s₀ s' → Q (.error e) s') : Faulty (Keeps s₀) (step o e) Q s := by
  refine wp_step.mpr ⟨h, fun c _ => ?_⟩
  have hkeeps : Keeps s₀ (Fs.exec c o s).2 := by
    intro x hx
    obtain ⟨d, hd⟩ := h x hx
    by_cases hrem : o.removes d (.record x)
    · obtain ⟨d', hd', hrem'⟩ := hr d x hrem
      exact ⟨d', Fs.image_kept_ne hd' hrem'⟩
    · exact ⟨d, Fs.image_kept_ne hd hrem⟩
  cases hexec : (Fs.exec c o s).1 with
  | ok a => exact hok c a hexec hkeeps
  | error f => exact herr _ hkeeps

/-- Steps that take nothing away. -/
theorem keeps_only {p : Step P α} (h : Keeps s₀ s) (hp : p.Only (Touches true nowhere Queue.notRecords)) :
    Always (Keeps s₀) p s := by
  have hkeeps : ∀ s', Frame true nowhere Queue.notRecords s s' → Keeps s₀ s' := fun s' hf x hx => (h x hx).frame hf fun _ => id
  exact Prog.wp_stop (Prog.wp_mono ((Frame.refl _ _ _ s).only hp) fun _ => hkeeps) hkeeps

theorem keeps_sync {d : Place} (h : Keeps s₀ s) : Always (Keeps s₀) (step (.syncDir d) e : Step P Unit) s :=
  keeps_only h (only_step touches_syncDir)

/-- The records that are taken out of one directory are in another. -/
theorem keeps_removals {γ : Type} {source destination : Place} {xs : List γ} {f : γ → Uuid} {error : γ → Error}
    (hne : destination ≠ source) (h : Keeps s₀ s) (hxs : ∀ x ∈ xs, s.image destination (.record (f x)) ≠ none) :
    Always (Keeps s₀) (Prog.forEach (fun x => step (.remove source (.record (f x))) (error x)) xs : Step P Unit) s := by
  refine Prog.wp_forEach (fun _ s' => (∀ x ∈ xs, s'.image destination (.record (f x)) ≠ none) ∧ Keeps s₀ s') ⟨hxs, h⟩
    (fun done y rest hsplit s hs => ?_) fun _ hs => hs.2
  have hy : y ∈ xs := hsplit ▸ List.mem_append_right _ List.mem_cons_self
  refine keeps_step hs.2 ?_ (fun c _ _ hk => ⟨fun x hx => ?_, hk⟩) fun _ hk => hk
  · rintro d x ⟨rfl, hx⟩
    cases hx
    exact ⟨destination, hs.1 y hy, fun hrem => hne hrem.1⟩
  · exact Fs.image_kept_ne (hs.1 x hx) fun hrem => hne hrem.1

end Custody

namespace Queue

variable {q : Queue} {s : Disk P} {ctx : Option ContextError} {id : Uuid} {w : Bool} {rem add : Entries}

theorem only_ready : (q.ready ctx : Step P Unit).Only (Touches w rem add) := by
  refine Prog.only_bind Prog.only_require fun _ => ?_
  cases ctx <;> trivial

/-! ## Reading -/

theorem ready_faulty {Q : Except Error Unit → Disk P → Prop} {K : Disk P → Prop} (hok : Q (.ok ()) s)
    (herr : ∀ e, Q (.error e) s) : Faulty K (q.ready ctx) Q s := by
  refine Prog.wp_bind.mpr (Prog.wp_require.mpr ⟨fun _ => ?_, fun _ => herr _⟩)
  cases ctx with
  | none => exact hok
  | some e => exact herr _

/-- What is read from the disk, and what is made of it. -/
theorem returns_faulty {β : Type} {f : Disk P → Except Error α} {e : Error} {g : α → β} :
    Faulty (fun s' => s' = s) (do let x ← read f e; pure (g x) : Step P β)
      (fun r s' => s' = s ∧ ∀ y, r = .ok y → ∃ x, f s = .ok x ∧ y = g x) s := by
  refine Prog.wp_bind.mpr (wp_read rfl ?_ ⟨rfl, nofun⟩)
  cases hf : f s with
  | error e => exact ⟨rfl, nofun⟩
  | ok x => exact ⟨rfl, fun y hy => by cases hy; exact ⟨x, rfl, rfl⟩⟩

theorem listIds_faulty : Faulty (fun s' => s' = s) (q.listIds ctx : Step P (List Uuid))
    (fun r s' => s' = s ∧ ∀ ids, r = .ok ids → ∃ inv, q.inventory s = .ok inv ∧ ids = inv.records.map (·.id)) s :=
  Prog.wp_bind.mpr (ready_faulty returns_faulty fun _ => ⟨rfl, nofun⟩)

theorem listRolloverIds_faulty : Faulty (fun s' => s' = s) (q.listRolloverIds ctx : Step P (List Uuid))
    (fun r s' => s' = s ∧ ∀ ids, r = .ok ids → ∃ records, rolloverUsage s = .ok records ∧
      ids = (sortByOrder records).map (·.id)) s :=
  Prog.wp_bind.mpr (ready_faulty returns_faulty fun _ => ⟨rfl, nofun⟩)

theorem readPayload_faulty : Faulty (fun s' => s' = s) (q.readPayload ctx id : Step P P)
    (fun r s' => s' = s ∧ ∀ payload, r = .ok payload → ∃ item, readItem .root id s = .ok item ∧
      payload = item.payload) s := by
  refine Prog.wp_bind.mpr (ready_faulty ?_ fun e => ⟨rfl, nofun⟩)
  exact Prog.wp_bind.mpr (Prog.wp_require.mpr ⟨fun _ => returns_faulty, fun _ => ⟨rfl, nofun⟩⟩)

/-! ## Acknowledging -/

/-- The last two steps of both acknowledgements. -/
theorem remove_faulty {d : Place} {e e' : Error} :
    Faulty Stopped (do step (.remove d (.record id)) e; step (.syncDir d) e' : Step P Unit)
      (fun r s' => r = .ok () → s'.image d (.record id) = none) s := by
  refine Prog.wp_bind.mpr (wp_step.mpr ⟨trivial, fun c _ => ?_⟩)
  cases c with
  | some x => exact nofun
  | none =>
    cases hi : s.image d (.record id) with
    | none =>
      rw [Fs.exec, hi]
      exact nofun
    | some i =>
      rw [Fs.exec_remove hi]
      refine wp_step.mpr ⟨trivial, fun c _ => ?_⟩
      cases c with
      | some x => exact nofun
      | none =>
        intro _
        show (Fs.synced _ d).image d (Name.record id) = none
        rw [Fs.image_synced, Fs.image_edit, Function.update_self, Change.on_set, Function.update_self]

theorem acknowledge_faulty : Faulty (fun s' => Stopped s' ∧ Frame false (recordIn .root id) nowhere s s')
    (q.acknowledge ctx id : Step P Unit)
    (fun r s' => (r = .ok () → s'.image .root (.record id) = none) ∧ Frame false (recordIn .root id) nowhere s s') s := by
  refine frame_of_only ?_ ?_
  · refine Prog.only_bind only_ready fun _ => Prog.only_bind Prog.only_require fun _ => ?_
    exact Prog.only_bind (only_step (touches_remove ⟨rfl, rfl⟩)) fun _ => only_step touches_syncDir
  · refine Prog.wp_bind.mpr (ready_faulty ?_ fun e => nofun)
    exact Prog.wp_bind.mpr (Prog.wp_require.mpr ⟨fun _ => remove_faulty, fun _ => nofun⟩)

theorem acknowledgeRollover_faulty : Faulty (fun s' => Stopped s' ∧ Frame false (recordIn .rollover id) nowhere s s')
    (q.acknowledgeRollover ctx id : Step P Unit)
    (fun r s' => (r = .ok () → s'.image .rollover (.record id) = none) ∧
      Frame false (recordIn .rollover id) nowhere s s') s := by
  refine frame_of_only ?_ ?_
  · refine Prog.only_bind only_ready fun _ => Prog.only_bind Prog.only_require fun _ => ?_
    refine Prog.only_bind only_read fun _ => ?_
    exact Prog.only_bind (only_step (touches_remove ⟨rfl, rfl⟩)) fun _ => only_step touches_syncDir
  · refine Prog.wp_bind.mpr (ready_faulty ?_ fun e => nofun)
    refine Prog.wp_bind.mpr (Prog.wp_require.mpr ⟨fun _ => ?_, fun _ => nofun⟩)
    refine Prog.wp_bind.mpr (wp_read trivial ?_ nofun)
    cases readItem .rollover id s with
    | error e => exact nofun
    | ok item => exact remove_faulty

/-! ## Quarantine -/

/-- The steps of `Quarantine`. -/
inductive QuarantineStep (id : Uuid) (chosen : Uuid → Prop) : (β : Type) → CrashFs.Op Place Name (Content P) β → Prop
  | look {β : Type} (f : Disk P → β) : QuarantineStep id chosen _ (.look f)
  | sync (d : Place) : QuarantineStep id chosen _ (.syncDir d)
  | evict (x : Uuid) (h : chosen x) : QuarantineStep id chosen _ (.link .rejected (.record x) .rollover (.record x))
  | evicted (x : Uuid) : QuarantineStep id chosen _ (.remove .rejected (.record x))
  | move : QuarantineStep id chosen _ (.link .root (.record id) .rejected (.record id))
  | moved : QuarantineStep id chosen _ (.remove .root (.record id))

/-- The records that `Quarantine` can take away: its own and those it evicts. -/
def quarantineRemoves (id : Uuid) : Entries :=
  fun d n => d = .root ∧ n = .record id ∨ d = .rejected ∧ ∃ x, n = .record x

def quarantineAdds (id : Uuid) (chosen : Uuid → Prop) : Entries :=
  fun d n => d = .rejected ∧ n = .record id ∨ d = .rollover ∧ ∃ x, chosen x ∧ n = .record x

variable {chosen : Uuid → Prop} {source destination : Place} {held : Bool} {s₁ : Disk P}

theorem QuarantineStep.touches (β : Type) (o : CrashFs.Op Place Name (Content P) β)
    (h : QuarantineStep id chosen β o) : Touches false (quarantineRemoves id) (quarantineAdds id chosen) β o := by
  cases h with
  | look f => exact touches_look
  | sync d => exact touches_syncDir
  | evict x hx => exact touches_link (.inr ⟨rfl, x, hx, rfl⟩)
  | evicted x => exact touches_remove (.inr ⟨rfl, x, rfl⟩)
  | move => exact touches_link (.inl ⟨rfl, rfl⟩)
  | moved => exact touches_remove (.inl ⟨rfl, rfl⟩)

theorem only_evict {chosen : List Metadata} {last : Uuid} :
    (evict chosen last : Step P (List Uuid)).Only (QuarantineStep id fun x => ∃ m ∈ chosen, m.id = x) := by
  refine Prog.only_bind (Prog.only_forEach fun m hm => only_step (.evict _ ⟨m, hm, rfl⟩)) fun _ => ?_
  refine Prog.only_bind (only_step (.sync _)) fun _ => ?_
  refine Prog.only_bind (Prog.only_forEach fun m _ => only_step (.evicted _)) fun _ => ?_
  exact Prog.only_bind (only_step (.sync _)) fun _ => Prog.only_pure

theorem only_moveToRejected :
    (moveToRejected id : Step P Unit).Only (QuarantineStep id chosen) := by
  refine Prog.only_bind (only_step .move) fun _ => Prog.only_bind (only_step (.sync _)) fun _ => ?_
  exact Prog.only_bind (only_step .moved) fun _ => only_step (.sync _)

/-- Any selection. -/
theorem QuarantineStep.any (β : Type) (o : CrashFs.Op Place Name (Content P) β)
    (h : QuarantineStep id chosen β o) : QuarantineStep id (fun _ => True) β o := by
  cases h with
  | look f => exact .look f
  | sync d => exact .sync d
  | evict x _ => exact .evict x trivial
  | evicted x => exact .evicted x
  | move => exact .move
  | moved => exact .moved

theorem only_quarantine : (q.quarantine ctx id : Step P QuarantineResult).Only (QuarantineStep id fun _ => True) := by
  have hread : ∀ {β : Type} {f : Disk P → Except Error β} {e : Error},
      (read f e).Only (QuarantineStep id fun _ => True) := fun {_ f _} =>
    Prog.only_bind (only_step (.look f)) fun _ => Prog.only_orFail
  refine Prog.only_bind ?_ fun _ => Prog.only_bind Prog.only_require fun _ => ?_
  · refine Prog.only_bind Prog.only_require fun _ => ?_
    cases ctx <;> trivial
  · refine Prog.only_bind hread fun _ => Prog.only_bind (only_step (.look _)) fun _ => ?_
    refine Prog.only_bind Prog.only_require fun _ => Prog.only_bind hread fun _ => Prog.only_bind ?_ fun _ => ?_
    · refine Prog.only_bind hread fun chosen => ?_
      cases chosen with
      | nil => exact Prog.only_pure
      | cons m chosen => exact only_evict.mono QuarantineStep.any
    · exact Prog.only_bind (Prog.only_attempt only_moveToRejected) fun _ => Prog.only_pure

/-- Only the evicted records are new in the rollover directory. -/
theorem makeRejectedRoom_faulty {incoming : Nat} : Faulty Stopped (q.makeRejectedRoom incoming : Step P (List Uuid))
    (fun r s' => ∀ ids, r = .ok ids → ∀ x, s.image .rollover (.record x) = none → x ∉ ids →
      s'.image .rollover (.record x) = none) s := by
  refine Prog.wp_bind.mpr (wp_read trivial ?_ nofun)
  cases q.toRollover incoming s with
  | error e => exact nofun
  | ok chosen =>
    cases chosen with
    | nil => exact fun ids hids x hx _ => hx
    | cons m more =>
      have hids : Faulty Stopped (evict (m :: more) ((m :: more).getLast (List.cons_ne_nil _ _)).id : Step P (List Uuid))
          (fun r _ => ∀ ids, r = .ok ids → ids = (m :: more).map (·.id)) s := by
        refine Prog.wp_after (fun _ _ => nofun) fun _ _ => Prog.wp_after (fun _ _ => nofun) fun _ _ => ?_
        refine Prog.wp_after (fun _ _ => nofun) fun _ _ => Prog.wp_after (fun _ _ => nofun) fun _ _ => ?_
        exact fun ids hids => (Except.ok.inj hids).symm
      have honly : (evict (m :: more) ((m :: more).getLast (List.cons_ne_nil _ _)).id : Step P (List Uuid)).Only
          (QuarantineStep m.id fun x => ∃ m' ∈ m :: more, m'.id = x) := only_evict
      refine Prog.wp_stop (Prog.wp_mono (frame_of_only (honly.mono QuarantineStep.touches) hids) ?_)
        fun _ _ => trivial
      rintro r s' ⟨hr, hframe⟩ ids rfl x hx hmem
      refine hframe.unadded _ _ hx ?_
      rintro (⟨hd, -⟩ | ⟨-, y, ⟨m', hm', rfl⟩, hy⟩)
      · exact nomatch hd
      · cases hy
        rw [hr ids rfl] at hmem
        exact hmem (List.mem_map.mpr ⟨m', hm', rfl⟩)

theorem moveToRejected_faulty : Faulty Stopped (moveToRejected id : Step P Unit)
    (fun r s' => (r = .ok () → s'.image .root (.record id) = none) ∧
      ∀ x, s.image .rollover (.record x) = none → s'.image .rollover (.record x) = none) s := by
  have hroot : Faulty Stopped (moveToRejected id : Step P Unit)
      (fun r s' => r = .ok () → s'.image .root (.record id) = none) s := by
    refine Prog.wp_after (fun _ _ => nofun) fun _ _ => Prog.wp_after (fun _ _ => nofun) fun _ _ => ?_
    exact remove_faulty
  have honly : (moveToRejected id : Step P Unit).Only (QuarantineStep id fun _ => False) := only_moveToRejected
  refine Prog.wp_stop (Prog.wp_mono (frame_of_only (honly.mono QuarantineStep.touches) hroot) ?_) fun _ _ => trivial
  rintro r s' ⟨hr, hframe⟩
  refine ⟨hr, fun x hx => hframe.unadded _ _ hx ?_⟩
  rintro (⟨hd, -⟩ | ⟨-, y, hy, -⟩)
  · exact nomatch hd
  · exact hy

/-- What is known when `Quarantine` returns. -/
structure Quarantined (id : Uuid) (s : Disk P) (r : Except Error QuarantineResult) (s' : Disk P) : Prop where
  rollover : ∀ result, r = .ok result → ∀ x, s.image .rollover (.record x) = none → x ∉ result.evictedIds →
    s'.image .rollover (.record x) = none
  moved : ∀ result, r = .ok result → result.outcome = .ok () → s'.image .root (.record id) = none

theorem Quarantined.error {e : Error} {s' : Disk P} : Quarantined id s (.error e) s' := ⟨nofun, nofun⟩

theorem quarantine_faulty :
    Faulty (fun s' => Stopped s' ∧ Frame false (quarantineRemoves id) (quarantineAdds id fun _ => True) s s')
      (q.quarantine ctx id : Step P QuarantineResult)
      (fun r s' => Quarantined id s r s' ∧
        Frame false (quarantineRemoves id) (quarantineAdds id fun _ => True) s s') s := by
  refine frame_of_only (only_quarantine.mono QuarantineStep.touches) ?_
  refine Prog.wp_bind.mpr (ready_faulty ?_ fun e => .error)
  refine Prog.wp_bind.mpr (Prog.wp_require.mpr ⟨fun _ => ?_, fun _ => .error⟩)
  refine Prog.wp_bind.mpr (wp_read trivial ?_ .error)
  cases readItem .root id s with
  | error e => exact .error
  | ok item =>
    refine Prog.wp_bind.mpr (wp_step_ok rfl trivial ?_ fun _ => ⟨_, _, rfl, .error⟩)
    refine Prog.wp_bind.mpr (Prog.wp_require.mpr ⟨fun _ => ?_, fun _ => .error⟩)
    refine Prog.wp_bind.mpr (wp_read trivial ?_ .error)
    cases recordSize id s with
    | error e => exact .error
    | ok size =>
      refine Prog.wp_bind.mpr (Prog.wp_mono makeRejectedRoom_faulty fun r s₁ h₁ => ?_)
      cases r with
      | error e => exact .error
      | ok evictedIds =>
        refine Prog.wp_bind.mpr (Prog.wp_attempt.mpr (Prog.wp_mono moveToRejected_faulty fun outcome s₂ h₂ => ?_))
        refine ⟨?_, ?_⟩
        · rintro result hresult x hx hmem
          cases hresult
          exact h₂.2 x (h₁ evictedIds rfl x hx hmem)
        · rintro result hresult houtcome
          cases hresult
          exact h₂.1 houtcome

/-! ## Enqueue -/

/-- The names of the record that is enqueued. -/
def enqueueNames (id : Uuid) : Entries := fun d n => d = .root ∧ (n = .record id ∨ n = .staging id)

/-! ## Open -/

/-- The records that `Open` may take away: rejected ones, and active ones that were linked
in the rejected directory too. -/
def openRemoves (s : Disk P) : Entries :=
  fun d n => d = .rejected ∧ (∃ x, n = .record x) ∨
    d = .root ∧ ∃ x, n = .record x ∧ s.image .rejected (.record x) ≠ none

/-- The names of the directories are there to stay. -/
structure Housed (s : Disk P) : Prop where
  spool : s.Durable .parent .spool
  rejected : s.Durable .root .rejected
  rollover : s.Durable .root .rollover

abbrev Opening (s s' : Disk P) : Prop := Frame true (openRemoves s) notRecords s s'

theorem Housed.opening {s' : Disk P} (h : Housed s) (hf : Opening s s') : Housed s' where
  spool := hf.durable _ _ h.spool (by rintro (⟨hd, -⟩ | ⟨hd, -⟩) <;> exact nomatch hd)
  rejected := hf.durable _ _ h.rejected (by rintro (⟨hd, -⟩ | ⟨-, x, hx, -⟩) <;> contradiction)
  rollover := hf.durable _ _ h.rollover (by rintro (⟨hd, -⟩ | ⟨-, x, hx, -⟩) <;> contradiction)

theorem present_of_durable {d : Place} {n : Name} (h : s.Durable d n) : present d n s = true :=
  Option.isSome_iff_ne_none.mpr (h _ s.mayBe_image)

theorem only_acquireDirectoryLock :
    (acquireDirectoryLock held : Step P Unit).Only (Touches true rem notRecords) := by
  refine Prog.only_bind (only_step touches_look) fun _ => ?_
  refine Prog.only_bind (Prog.only_ifNot (Prog.only_bind (only_step (touches_create nofun)) fun _ => Prog.only_pure)) fun _ => ?_
  refine Prog.only_bind (only_step touches_look) fun _ => Prog.only_bind Prog.only_require fun _ => ?_
  exact Prog.only_bind (only_step touches_touch) fun _ => Prog.only_require

theorem mem_interrupted {records : List Metadata} {ids : List Uuid} {x : Uuid}
    (h : interrupted source destination s records = .ok ids) (hx : x ∈ ids) :
    s.image source (.record x) ≠ none ∧ s.image destination (.record x) ≠ none := by
  induction records generalizing ids with
  | nil =>
    cases h
    exact nomatch hx
  | cons m records ih =>
    rw [interrupted] at h
    split at h
    · exact ih h hx
    · rename_i i hi
      split at h
      · rename_i hsame
        split at h
        · exact nomatch h
        · rename_i ids' hids
          cases h
          rcases List.mem_cons.mp hx with rfl | hx
          · exact ⟨by rw [hi]; exact nofun, by rw [hsame]; exact nofun⟩
          · exact ih hids hx
      · exact nomatch h

/-- The records that are taken out of the source are in the destination too. -/
theorem recoverLinks_keeps {usage : Disk P → Except Error (List Metadata)} {blame : List Metadata → Uuid → Uuid}
    (hne : destination ≠ source) (h : Opening s s₁ ∧ Keeps s s₁)
    (hrem : ∀ x, s₁.image destination (.record x) ≠ none → openRemoves s source (.record x)) :
    Always (fun s' => Opening s s' ∧ Keeps s s') (recoverLinks source destination usage blame) s₁ := by
  refine Prog.wp_bind.mpr (wp_read h ?_ h)
  cases usage s₁ with
  | error e => exact h
  | ok records =>
    dsimp only
    cases hids : interrupted source destination s₁ records with
    | error e => exact h
    | ok ids =>
      cases ids with
      | nil => exact h
      | cons first more =>
        refine Prog.wp_and (h.1.only ?_) ?_ fun _ _ _ _ => trivial
        · refine Prog.only_bind (only_step touches_syncDir) fun _ => Prog.only_bind (Prog.only_forEach fun x hx => ?_) fun _ => ?_
          · exact only_step (touches_remove (hrem x (mem_interrupted hids hx).2))
          · exact only_step touches_syncDir
        · refine Prog.wp_bind.mpr (keeps_step h.2 (fun _ _ hr => hr.elim) (fun c _ _ h₁ => ?_) fun _ hk => hk)
          refine always_bind (keeps_removals hne h₁ fun x hx => ?_) fun _ _ => keeps_sync
          exact Fs.image_kept_ne (mem_interrupted hids hx).2 fun hr => hr

/-- `Open` of a spool that was opened before: it holds what it held, and its directories
stay. -/
theorem openQueue_keeps {maxBytes : Nat} {held : Bool} (h : Housed s) :
    Always (fun s' => Opening s s' ∧ Keeps s s') (openQueue maxBytes held) s := by
  let J (s' : Disk P) : Prop := Opening s s' ∧ Keeps s s'
  have hself : J s := ⟨.refl _ _ _ s, fun _ h => h⟩
  have honly : ∀ {α : Type} {p : Step P α} {s₁}, J s₁ → p.Only (Touches true nowhere notRecords) →
      Always J p s₁ := by
    intro α p s₁ h₁ hp
    have hp' := hp.mono fun _ _ ho => (⟨ho.writes, fun d n hr => (ho.removes d n hr).elim, ho.adds⟩ :
      Touches true (openRemoves s) notRecords _ _)
    exact Prog.wp_and (h₁.1.only hp') (keeps_only h₁.2 hp) fun _ _ _ _ => trivial
  have hsub : ∀ {name : Name} {place : Place} {label : String} {s₁}, J s₁ → s₁.Durable .root name →
      Always J (openSubdirectory name place label) s₁ := by
    intro name place label s₁ h₁ hname
    refine Prog.wp_bind.mpr (wp_step_ok rfl h₁ ?_ fun _ => ⟨_, _, rfl, h₁⟩)
    rw [present_of_durable hname]
    exact honly h₁ (only_step touches_touch)
  refine Prog.wp_bind.mpr (Prog.wp_require.mpr ⟨fun _ => ?_, fun _ => hself⟩)
  refine Prog.wp_bind.mpr (wp_step_ok rfl hself ?_ fun _ => ⟨_, _, rfl, hself⟩)
  rw [present_of_durable h.spool]
  refine always_bind (show Faulty J (Prog.ret () : Step P Unit) _ s from hself) fun _ s₁ h₁ => ?_
  refine always_bind (honly h₁ (only_step touches_touch)) fun _ s₂ h₂ => ?_
  refine always_bind (honly h₂ (only_step touches_syncDir)) fun _ s₃ h₃ => ?_
  refine always_bind (honly h₃ only_acquireDirectoryLock) fun _ s₄ h₄ => ?_
  refine always_bind (hsub h₄ (h.opening h₄.1).rejected) fun _ s₅ h₅ => ?_
  refine always_bind (hsub h₅ (h.opening h₅.1).rollover) fun _ s₆ h₆ => ?_
  refine always_bind (honly h₆ (only_step touches_syncDir)) fun _ s₇ h₇ => ?_
  refine always_bind (recoverLinks_keeps nofun h₇ fun x _ => .inl ⟨rfl, x, rfl⟩) fun _ s₈ h₈ => ?_
  refine always_bind (recoverLinks_keeps nofun h₈ fun x hx => .inr ⟨rfl, x, rfl, fun hnone => hx ?_⟩) fun _ s₉ h₉ => ?_
  · exact h₈.1.unadded _ _ hnone fun hadd => hadd x rfl
  · exact honly h₉ (Prog.only_bind only_read fun _ => Prog.only_pure)

theorem openQueue_opening {maxBytes : Nat} (h : Housed s) :
    Faulty (Opening s) (openQueue maxBytes held) (fun _ s' => Opening s s') s :=
  Prog.wp_stop (Prog.wp_mono (openQueue_keeps h) fun _ _ => And.left) fun _ => And.left

/-- Everything goes. -/
def anything : Entries := fun _ _ => True

theorem only_openSubdirectory {name : Name} {place : Place} {label : String} (hname : ∀ x, name ≠ .record x)
    (hrem : ∀ n, rem place n) : (openSubdirectory name place label : Step P Unit).Only (Touches true rem notRecords) := by
  refine Prog.only_bind (only_step touches_look) fun _ => Prog.only_bind (Prog.only_ifNot ?_) fun _ => ?_
  · exact Prog.only_bind (only_step (touches_mkdir hrem hname)) fun _ => only_step touches_syncDir
  · exact only_step touches_touch

theorem only_recoverLinks {usage : Disk P → Except Error (List Metadata)}
    {blame : List Metadata → Uuid → Uuid} (hrem : ∀ x, rem source (.record x)) :
    (recoverLinks source destination usage blame : Step P Unit).Only (Touches true rem notRecords) := by
  refine Prog.only_bind only_read fun found => ?_
  obtain ⟨records, ids⟩ := found
  cases ids with
  | nil => exact Prog.only_pure
  | cons first more =>
    refine Prog.only_bind (only_step touches_syncDir) fun _ => Prog.only_bind (Prog.only_forEach fun x _ => ?_) fun _ => ?_
    · exact only_step (touches_remove (hrem x))
    · exact only_step touches_syncDir

/-- `Open` adds no record. -/
theorem only_openQueue {maxBytes : Nat} :
    (openQueue maxBytes held : Step P Queue).Only (Touches true anything notRecords) := by
  refine Prog.only_bind Prog.only_require fun _ => Prog.only_bind (only_step touches_look) fun _ => ?_
  refine Prog.only_bind (Prog.only_ifNot (only_step (touches_mkdir (fun _ => trivial) nofun))) fun _ => ?_
  refine Prog.only_bind (only_step touches_touch) fun _ => Prog.only_bind (only_step touches_syncDir) fun _ => ?_
  refine Prog.only_bind only_acquireDirectoryLock fun _ => ?_
  refine Prog.only_bind (only_openSubdirectory nofun fun _ => trivial) fun _ => ?_
  refine Prog.only_bind (only_openSubdirectory nofun fun _ => trivial) fun _ => ?_
  refine Prog.only_bind (only_step touches_syncDir) fun _ => Prog.only_bind (only_recoverLinks fun _ => trivial) fun _ => ?_
  refine Prog.only_bind (only_recoverLinks fun _ => trivial) fun _ => ?_
  exact Prog.only_bind only_read fun _ => Prog.only_pure

end Queue

end NorthgateRmm.Agent.Spool
