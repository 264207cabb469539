import NorthgateRmm.Agent.Spool.Faults

/-!
# Enqueue is all or nothing

Any step of `Enqueue`, of its deferred cleanup and of its rollback may fail. A failed
write leaves the staging file with arbitrary content; a failed sync leaves every change
that it was to make durable pending, so that a crash may still keep or lose each of them.
-/

namespace NorthgateRmm.Agent.Spool

open CrashFs

variable {P : Type} [Payload P] {s s₁ : Disk P} {id : Uuid}

namespace Queue

/-- Only the two names and the new file of the enqueued record can differ. -/
abbrev Aside (id : Uuid) (s s' : Disk P) : Prop := Apart (enqueueNames id) s.next s s'

/-- A crash leaves the spool directory as it shows. -/
def RootSettled (s : Disk P) : Prop := ∀ T, s.MayBe T → T .root = s.image .root

/-- Both names are free, and stay so. -/
structure Cleared (id : Uuid) (s : Disk P) : Prop where
  staging : s.image .root (.staging id) = none
  record : s.image .root (.record id) = none
  settled : RootSettled s

/-- The record is published under its final name only, and stays so. -/
structure Committed (item : Record P) (file : Nat) (s : Disk P) : Prop where
  staging : s.image .root (.staging item.id) = none
  record : s.image .root (.record item.id) = some file
  content : s.files file = .record item
  flushed : file ∉ s.dirty
  settled : RootSettled s

/-! ## Removing and syncing -/

theorem staging_name : enqueueNames id .root (.staging id) := ⟨rfl, .inr rfl⟩

theorem record_name : enqueueNames id .root (.record id) := ⟨rfl, .inl rfl⟩

section Calls

variable {β : Type} {Q : Except Error β → Disk P → Prop} {k : Except Fault Unit → Step P β}

/-- A removal: one that succeeded, or found nothing, leaves nothing under the name. -/
theorem remove_call {n : Name} (h : Aside id s s₁) (hn : enqueueNames id .root n)
    (hk : ∀ r s₂, Aside id s s₂ → (gone r = true → s₂.image .root n = none) →
      (∀ m, m ≠ n → s₂.image .root m = s₁.image .root m) → s₂.files = s₁.files → s₂.dirty = s₁.dirty →
      Faulty (Aside id s) (k r) Q s₂) :
    Faulty (Aside id s) (Prog.call (.remove .root n) >>= k) Q s₁ := by
  refine Prog.wp_bind.mpr (Prog.wp_call.mpr ⟨h, fun c _ => ?_⟩)
  have hexec : ∀ m, m ≠ n → (Fs.exec c (.remove .root n) s₁).2.image .root m = s₁.image .root m := by
    intro m hne
    rcases Fs.image_exec c (.remove .root n) s₁ .root m with h | ⟨⟨-, hm⟩, -⟩ | ⟨hadd, -⟩
    · exact h
    · exact absurd hm hne
    · exact hadd.elim
  refine hk _ _ (h.exec (touches_remove hn) (by exact fun _ hi => hi.elim) c) (fun hgone => ?_) hexec ?_ ?_
  · cases c with
    | some x => exact nomatch hgone
    | none =>
      cases hi : s₁.image .root n with
      | none =>
        show (Fs.exec none (.remove .root n) s₁).2.image .root n = none
        rw [Fs.exec, hi]
        exact hi
      | some i =>
        show (Fs.exec none (.remove .root n) s₁).2.image .root n = none
        rw [Fs.exec_remove hi, Fs.image_edit, Function.update_self, Change.on_set, Function.update_self]
  · exact Fs.files_exec fun hw => hw
  · show (Fs.exec c (.remove .root n) s₁).2.dirty = s₁.dirty
    cases c with
    | some x => rfl
    | none =>
      rw [Fs.exec]
      split <;> rfl

/-- A sync of the spool directory: when it succeeds, a crash leaves what is shown. -/
theorem sync_call (h : Aside id s s₁)
    (hk : ∀ r s₂, Aside id s s₂ → s₂.image = s₁.image → s₂.files = s₁.files → s₂.dirty = s₁.dirty →
      (r = .ok () → RootSettled s₂) → Faulty (Aside id s) (k r) Q s₂) :
    Faulty (Aside id s) (Prog.call (.syncDir .root) >>= k) Q s₁ := by
  refine Prog.wp_bind.mpr (Prog.wp_call.mpr ⟨h, fun c _ => ?_⟩)
  have h₂ := h.exec (o := .syncDir .root) touches_syncDir (by exact fun _ hi => hi.elim) c
  cases c with
  | some x => exact hk _ _ h₂ rfl rfl rfl nofun
  | none =>
    refine hk _ _ h₂ (Fs.image_synced s₁ .root) rfl rfl fun _ T hT => ?_
    rw [show T .root = s₁.image .root from (Fs.MayBe.of_synced hT).2]
    exact (congrFun (Fs.image_synced s₁ .root) .root).symm

end Calls

/-! ## Cleanup and rollback -/

/-- What a failed `Enqueue` says about the spool: that the outcome is not known, or that
nothing is left of the record. -/
def Undone (id : Uuid) (e : Error) (s : Disk P) : Prop :=
  (∃ x, e = .commitUncertain x) ∨ (∃ cause, e = .uncleaned cause) ∨ Cleared id s

variable {item : Record P} {cause : Error} {s' : Disk P}

theorem cleanUp_faulty (h : Aside id s s₁) (hrecord : s₁.image .root (.record id) = none) :
    Faulty (Aside id s) (cleanUp id cause : Step P Unit)
      (fun r s' => Aside id s s' ∧ ∃ e, r = .error e ∧ Undone id e s') s₁ := by
  refine remove_call h staging_name fun removed s₂ h₂ hself hother _ _ => ?_
  cases removed with
  | error f => exact ⟨h₂, _, rfl, .inr (.inl ⟨cause, rfl⟩)⟩
  | ok _ =>
    refine sync_call h₂ fun synced s₃ h₃ himage _ _ hsettled => ?_
    cases synced with
    | error f => exact ⟨h₃, _, rfl, .inr (.inl ⟨cause, rfl⟩)⟩
    | ok _ =>
      refine ⟨h₃, cause, rfl, .inr (.inr ⟨?_, ?_, hsettled rfl⟩)⟩
      · rw [himage, hself rfl]
      · rw [himage, hother (.record id) nofun, hrecord]

/-- The last steps of the rollback. -/
theorem rollbackSync_faulty {removedFinal removedTemporary : Except Fault Unit} (h : Aside id s s₁)
    (hrecord : gone removedFinal = true → s₁.image .root (.record id) = none)
    (hstaging : gone removedTemporary = true → s₁.image .root (.staging id) = none) :
    Faulty (Aside id s) (do
        let sync ← Prog.call (.syncDir .root)
        if gone removedFinal && gone removedTemporary && sync.isOk then .fail cause
        else .fail (.commitUncertain id) : Step P Unit)
      (fun r s' => Aside id s s' ∧ ∃ e, r = .error e ∧ Undone id e s') s₁ := by
  refine sync_call h fun synced s₂ h₂ himage _ _ hsettled => ?_
  split
  · rename_i hdone
    simp only [Bool.and_eq_true] at hdone
    obtain ⟨⟨hfinal, htemporary⟩, hsync⟩ := hdone
    cases synced with
    | error f => exact nomatch hsync
    | ok _ =>
      refine ⟨h₂, cause, rfl, .inr (.inr ⟨?_, ?_, hsettled rfl⟩)⟩
      · rw [himage, hstaging htemporary]
      · rw [himage, hrecord hfinal]
  · exact ⟨h₂, _, rfl, .inl ⟨id, rfl⟩⟩

theorem rollbackPublished_faulty {temporary : Bool} (h : Aside id s s₁)
    (hstaging : temporary = false → s₁.image .root (.staging id) = none) :
    Faulty (Aside id s) (rollbackPublished id temporary cause : Step P Unit)
      (fun r s' => Aside id s s' ∧ ∃ e, r = .error e ∧ Undone id e s') s₁ := by
  refine remove_call h record_name fun removedFinal s₂ h₂ hself hother _ _ => ?_
  cases temporary with
  | false =>
    refine rollbackSync_faulty h₂ hself fun _ => ?_
    rw [hother (.staging id) nofun, hstaging rfl]
  | true =>
    refine remove_call h₂ staging_name fun removedTemporary s₃ h₃ hself' hother' _ _ => ?_
    refine rollbackSync_faulty h₃ (fun hgone => ?_) hself'
    rw [hother' (.record id) nofun, hself hgone]

/-! ## Staging and committing -/

/-- What is known of the file while it is staged. -/
structure Staged (item : Record P) (s s' : Disk P) : Prop where
  aside : Aside item.id s s'
  staging : s'.image .root (.staging item.id) = some s.next
  record : s'.image .root (.record item.id) = none

/-- The file is written and durable. -/
def Written (item : Record P) (file : Nat) (s : Disk P) : Prop := s.files file = .record item ∧ file ∉ s.dirty

/-- The link that publishes the file. -/
theorem link_call {β : Type} {Q : Except Error β → Disk P → Prop} {k : Except Fault Unit → Step P β}
    (h : Staged item s s₁)
    (hk : ∀ r s₂, Aside item.id s s₂ → s₂.files = s₁.files → s₂.dirty = s₁.dirty →
      ((r = .ok () → s₂.image .root (.record item.id) = some s.next) ∧
        ∀ f, r = .error f → s₂.image .root (.record item.id) = none) → Faulty (Aside item.id s) (k r) Q s₂) :
    Faulty (Aside item.id s) (Prog.call (.link .root (.staging item.id) .root (.record item.id)) >>= k) Q s₁ := by
  refine Prog.wp_bind.mpr (Prog.wp_call.mpr ⟨h.aside, fun c _ => ?_⟩)
  cases c with
  | some x => exact hk _ _ h.aside rfl rfl ⟨nofun, fun _ _ => h.record⟩
  | none =>
    have hlink := Fs.exec_link h.staging h.record
    have h₂ := h.aside.exec (o := .link .root (.staging item.id) .root (.record item.id)) (touches_link record_name)
      (by exact fun _ hi => hi.elim) none
    rw [hlink] at h₂
    have hgoal := hk (.ok ()) _ h₂ rfl rfl ⟨fun _ => by
      rw [Fs.image_edit, Function.update_self, Change.on_set, Function.update_self], nofun⟩
    show Prog.wp _ _ _ (k (Fs.exec none (.link .root (.staging item.id) .root (.record item.id)) s₁).1) Q
      (Fs.exec none (.link .root (.staging item.id) .root (.record item.id)) s₁).2
    rw [hlink]
    exact hgoal

theorem stage_faulty (h : Staged item s s₁) :
    Faulty (Aside item.id s) (stage s.next item)
      (fun r s' => Aside item.id s s' ∧ match r with
        | .ok () => s'.image .root (.record item.id) = some s.next ∧ Written item s.next s'
        | .error _ => s'.image .root (.record item.id) = none) s₁ := by
  have hwrite : ∀ c, Staged item s (Fs.exec c (.write s.next (.record item)) s₁).2 := fun c =>
    ⟨h.aside.exec (o := .write s.next (.record item)) touches_write (by exact fun _ hi => hi) c,
      by cases c <;> exact h.staging, by cases c <;> exact h.record⟩
  refine Prog.wp_bind.mpr (wp_step.mpr ⟨h.aside, fun c _ => ?_⟩)
  cases c with
  | some x => exact ⟨(hwrite (some x)).aside, (hwrite (some x)).record⟩
  | none =>
    have h₂ := hwrite none
    refine Prog.wp_bind.mpr (wp_step.mpr ⟨h₂.aside, fun c _ => ?_⟩)
    cases c with
    | some x => exact ⟨h₂.aside, h₂.record⟩
    | none =>
      have h₃ : Staged item s ((s₁.written s.next (.record item)).flushed s.next) :=
        ⟨h₂.aside.exec (o := .fsync s.next) touches_fsync (fun i hi => hi) none, h₂.staging, h₂.record⟩
      have hwritten : Written item s.next ((s₁.written s.next (.record item)).flushed s.next) :=
        ⟨Function.update_self .., fun hmem => of_decide_eq_true (List.mem_filter.1 hmem).2 rfl⟩
      refine Prog.wp_bind.mpr (wp_step.mpr ⟨h₃.aside, fun c _ => ?_⟩)
      cases c with
      | some x => exact ⟨h₃.aside, h₃.record⟩
      | none =>
        refine link_call h₃ fun linked s₄ h₄ hfiles hdirty hrecord => ?_
        cases linked with
        | ok _ =>
          refine ⟨h₄, hrecord.1 rfl, ?_, ?_⟩
          · exact (congrFun hfiles s.next).trans hwritten.1
          · rw [hdirty]
            exact hwritten.2
        | error f =>
          -- what is found under the final name only decides which error is returned
          refine Prog.wp_bind.mpr (Prog.wp_call.mpr ⟨h₄, fun c _ => ?_⟩)
          have hnone := hrecord.2 f rfl
          dsimp only
          split
          · exact ⟨by cases c <;> exact h₄, by cases c <;> exact hnone⟩
          · exact ⟨by cases c <;> exact h₄, by cases c <;> exact hnone⟩

theorem commit_faulty (h : Aside item.id s s₁)
    (hrecord : s₁.image .root (.record item.id) = some s.next) (hwritten : Written item s.next s₁) :
    Faulty (Aside item.id s) (commit item.id : Step P Unit)
      (fun r s' => Aside item.id s s' ∧ match r with
        | .ok () => Committed item s.next s'
        | .error e => Undone item.id e s') s₁ := by
  have hrollback : ∀ {temporary : Bool} {cause : Error} {s₂ : Disk P}, Aside item.id s s₂ →
      (temporary = false → s₂.image .root (.staging item.id) = none) →
      Faulty (Aside item.id s) (rollbackPublished item.id temporary cause : Step P Unit)
        (fun r s' => Aside item.id s s' ∧ match r with
          | .ok () => Committed item s.next s'
          | .error e => Undone item.id e s') s₂ := by
    intro temporary cause s₂ h₂ hstaging
    refine Prog.wp_mono (rollbackPublished_faulty h₂ hstaging) ?_
    rintro r s' ⟨h', e, rfl, hundone⟩
    exact ⟨h', hundone⟩
  refine remove_call h staging_name fun removed s₂ h₂ hself hother hfiles hdirty => ?_
  cases removed with
  | error f => exact hrollback h₂ nofun
  | ok _ =>
    refine sync_call h₂ fun synced s₃ h₃ himage hfiles' hdirty' hsettled => ?_
    cases synced with
    | error f => exact hrollback h₃ fun _ => by rw [himage, hself rfl]
    | ok _ =>
      refine ⟨h₃, ?_, ?_, ?_, ?_, hsettled rfl⟩
      · rw [himage, hself rfl]
      · rw [himage, hother (.record item.id) nofun, hrecord]
      · rw [hfiles', hfiles, hwritten.1]
      · rw [hdirty', hdirty]
        exact hwritten.2

theorem publish_faulty (hfree : s.image .root (.record item.id) = none) :
    Faulty (Aside item.id s) (publish item)
      (fun r s' => Aside item.id s s' ∧ match r with
        | .ok () => Committed item s.next s'
        | .error e => s' = s ∨ s.image .root (.staging item.id) = none ∧ Undone item.id e s') s := by
  have hsame : Aside item.id s s := .refl _ _ s
  refine Prog.wp_bind.mpr (wp_step.mpr ⟨hsame, fun c _ => ?_⟩)
  cases c with
  | some x => exact ⟨hsame, .inl rfl⟩
  | none =>
    cases hstaging : s.image .root (.staging item.id) with
    | some i =>
      rw [Fs.exec, hstaging]
      exact ⟨hsame, .inl rfl⟩
    | none =>
      have hcreated := hsame.exec (o := .create .root (.staging item.id) .blank) (touches_create staging_name)
        (by exact fun _ hi => hi) none
      have hexec := Fs.exec_create (.blank : Content P) hstaging
      rw [hexec] at hcreated ⊢
      have hstaged : Staged item s (s.created .root (.staging item.id) .blank) := by
        refine ⟨hcreated, ?_, ?_⟩
        · show (s.edit .root [(.staging item.id, some s.next)]).image .root (.staging item.id) = _
          rw [Fs.image_edit, Function.update_self, Change.on_set, Function.update_self]
        · show (s.edit .root [(.staging item.id, some s.next)]).image .root (.record item.id) = _
          rw [Fs.image_edit, Function.update_self, Change.on_set,
            Function.update_of_ne (show Name.record item.id ≠ .staging item.id from fun h => by cases h), hfree]
      refine Prog.wp_bind.mpr (Prog.wp_attempt.mpr (Prog.wp_mono (stage_faulty hstaged) ?_))
      rintro r s₂ ⟨h₂, hr⟩
      cases r with
      | error cause =>
        refine Prog.wp_mono (cleanUp_faulty h₂ hr) ?_
        rintro r s' ⟨h', e, rfl, hundone⟩
        exact ⟨h', .inr ⟨rfl, hundone⟩⟩
      | ok _ =>
        refine Prog.wp_mono (commit_faulty h₂ hr.1 hr.2) ?_
        rintro r s' ⟨h', hpost⟩
        cases r with
        | ok _ => exact ⟨h', hpost⟩
        | error e => exact ⟨h', .inr ⟨rfl, hpost⟩⟩

/-! ## Enqueue -/

/-- Nothing was done, or only to the free names of the record. -/
def Begun (id : Uuid) (s s' : Disk P) : Prop := s' = s ∨ s.image .root (.record id) = none ∧ Aside id s s'

/-- What `Enqueue` has done when it returns. -/
def Outcome (id : Uuid) (payload : P) (s : Disk P) : Except Error Unit → Disk P → Prop
  | .ok (), s' => ∃ item : Record P, item.id = id ∧ item.payload = payload ∧ (∀ x, s.image .root (.staging x) = none) ∧
      Committed item s.next s'
  | .error e, s' => s' = s ∨ s.image .root (.staging id) = none ∧ Undone id e s'

theorem no_staging {q : Queue} {inv : Queue.Inventory} (h : q.inventory s = .ok inv) (x : Uuid) :
    s.image .root (.staging x) = none := by
  cases hi : s.image .root (.staging x) with
  | none => rfl
  | some i =>
    obtain ⟨r, hr⟩ := (scannable_of_inventory h).active _ (mem_dataOf.2 ⟨hi, rfl⟩)
    exact nomatch hr.name

theorem enqueue_outcome {q : Queue} {ctx : Option ContextError} {payload : P} {now : UtcTime} :
    Faulty (Begun id s) (q.enqueue ctx id payload now)
      (fun r s' => Begun id s s' ∧ Outcome id payload s r s') s := by
  have hsame : Begun id s s := .inl rfl
  have hfail : ∀ e, Begun id s s ∧ Outcome id payload s (.error e) s := fun e => ⟨hsame, .inl rfl⟩
  refine Prog.wp_bind.mpr (ready_faulty ?_ hfail)
  refine Prog.wp_bind.mpr (Prog.wp_require.mpr ⟨fun _ => ?_, fun _ => hfail _⟩)
  dsimp only
  split
  · refine Prog.wp_bind.mpr (wp_step_ok rfl hsame ?_ fun _ => ⟨_, _, rfl, hfail _⟩)
    refine Prog.wp_bind.mpr (Prog.wp_require.mpr ⟨fun hfree => ?_, fun _ => hfail _⟩)
    have hnone : s.image .root (.record id) = none := by simpa [present] using hfree
    refine Prog.wp_bind.mpr (wp_read hsame ?_ (hfail _))
    cases hinv : q.inventory s with
    | error e => exact hfail e
    | ok inv =>
      refine Prog.wp_bind.mpr (Prog.wp_require.mpr ⟨fun _ => ?_, fun _ => hfail _⟩)
      dsimp only
      split
      · refine Prog.wp_bind.mpr (Prog.wp_require.mpr ⟨fun _ => ?_, fun _ => hfail _⟩)
        refine Prog.wp_stop (Prog.wp_mono (publish_faulty hnone) ?_) fun s' hs' => .inr ⟨hnone, hs'⟩
        rintro r s' ⟨haside, hr⟩
        cases r with
        | ok _ => exact ⟨.inr ⟨hnone, haside⟩, _, rfl, rfl, no_staging hinv, hr⟩
        | error e => exact ⟨.inr ⟨hnone, haside⟩, hr⟩
      · exact hfail _
  · exact hfail _

/-- Every record that is there stays as it is, and stays durable if it was. -/
structure Kept (s s' : Disk P) : Prop where
  shown : ∀ d x c, s.shows d (.record x) = some c → s'.shows d (.record x) = some c
  durable : ∀ d x c, (∀ l, (s.crash l).shows d (.record x) = some c) → ∀ l, (s'.crash l).shows d (.record x) = some c

theorem Begun.kept (hs : Unused s) (h : Begun id s s') : Kept s s' := by
  rcases h with rfl | ⟨hnone, haside⟩
  · exact ⟨fun _ _ _ h => h, fun _ _ _ h => h⟩
  refine ⟨fun d x c hc => ?_, fun d x c hc l => ?_⟩
  · rw [haside.shows hs, hc]
    rintro ⟨rfl, hx | hx⟩
    · cases hx
      rw [Fs.shows, hnone] at hc
      cases hc
    · cases hx
  · obtain ⟨l₀, hl₀⟩ := haside.crash hs l
    rw [hl₀, hc l₀]
    rintro ⟨rfl, hx | hx⟩
    · cases hx
      obtain ⟨l', -, himage⟩ := Fs.exists_crash s.mayBe_image l.torn
      have := hc l'
      rw [Fs.shows, himage, hnone] at this
      cases this
    · cases hx

/-- A failed `Enqueue` with a certain outcome. -/
theorem Cleared.shows (hs : Unused s) (h : Cleared id s') (haside : Aside id s s')
    (hstaging : s.image .root (.staging id) = none) (hrecord : s.image .root (.record id) = none) :
    s'.shows = s.shows ∧ ∀ l, ∃ l₀, (s'.crash l).shows = (s.crash l₀).shows := by
  have himage : s'.image = s.image := by
    funext d n
    by_cases hn : enqueueNames id d n
    · obtain ⟨rfl, rfl | rfl⟩ := hn
      · rw [h.record, hrecord]
      · rw [h.staging, hstaging]
    · exact haside.image d n hn
  refine ⟨funext fun d => funext fun n => haside.shows_of_image hs (by rw [himage]), fun l => ?_⟩
  · -- the spool directory is settled, the others are as they were
    have hmayBe : s.MayBe (s'.crash l).image := by
      obtain ⟨T₀, h₀, hT⟩ := haside.mayBe _ (s'.mayBe_crash l)
      intro d
      by_cases hd : d = .root
      · subst hd
        rw [h.settled _ (s'.mayBe_crash l), himage]
        exact s.mayBe_image .root
      · have hsame : (s'.crash l).image d = T₀ d := funext fun n => hT d n fun hn => hd hn.1
        rw [hsame]
        exact h₀ d
    obtain ⟨l₀, htorn, hl₀⟩ := Fs.exists_crash hmayBe l.torn
    exact ⟨l₀, funext fun d => funext fun n => haside.crash_of_image hs htorn (by rw [hl₀])⟩

theorem Committed.shows (hs : Unused s) (h : Committed item s.next s')
    (haside : Aside item.id s s') (hstaging : ∀ x, s.image .root (.staging x) = none) :
    (∀ x, s'.shows .root (.staging x) = none) ∧
      s'.shows = Function.update s.shows .root
        (Function.update (s.shows .root) (.record item.id) (some (.record item))) ∧
      ∀ l, (s'.crash l).image .root = s'.image .root ∧
        (s'.crash l).shows .root (.record item.id) = some (.record item) := by
  have hshown : s'.shows .root (.record item.id) = some (.record item) := by
    rw [Fs.shows, h.record, Option.map_some, h.content]
  have hfree : ∀ x, s'.shows .root (.staging x) = none := by
    intro x
    by_cases hx : x = item.id
    · rw [hx, Fs.shows, h.staging]
      rfl
    · rw [haside.shows hs, Fs.shows, hstaging]
      · rfl
      · rintro ⟨-, hn | hn⟩
        · cases hn
        · exact hx (Name.staging.inj hn)
  refine ⟨hfree, ?_, fun l => ?_⟩
  · funext d n
    by_cases hd : d = .root
    · subst hd
      rw [Function.update_self]
      by_cases hn : n = .record item.id
      · rw [hn, Function.update_self, hshown]
      · rw [Function.update_of_ne hn]
        by_cases hname : n = .staging item.id
        · rw [hname, hfree, Fs.shows, hstaging]
          rfl
        · exact haside.shows hs fun h => h.2.elim hn hname
    · rw [Function.update_of_ne hd]
      exact haside.shows hs fun h => hd h.1
  · have hroot := h.settled _ (s'.mayBe_crash l)
    refine ⟨hroot, ?_⟩
    rw [Fs.shows, hroot, h.record]
    show some (if s.next ∈ s'.dirty then l.torn s.next else s'.files s.next) = _
    rw [if_neg h.flushed, h.content]

/-- **Enqueue is all or nothing.** Whatever steps fail and wherever it is stopped: when it
returns nil, the spool has gained one record with the payload, durably, and no staging file;
when it returns an error that does not say otherwise, every entry and its content are as
before, now and after a crash; and no record that was there is ever changed or removed. -/
theorem enqueue_all_or_nothing (q : Queue) (ctx : Option ContextError) (id : Uuid) (payload : P) (now : UtcTime)
    (plan : List (Option (Content P))) (s s' : Disk P) (r : Option (Except Error Unit)) (hs : Unused s)
    (hrun : (q.enqueue ctx id payload now).run Fs.machine plan s = (r, s')) :
    (r = some (.ok ()) → ∃ item : Record P, item.id = id ∧ item.payload = payload ∧
      s.shows .root (.record id) = none ∧ (∀ x, s'.shows .root (.staging x) = none) ∧
      s'.shows = Function.update s.shows .root (Function.update (s.shows .root) (.record id) (some (.record item))) ∧
      ∀ l, (s'.crash l).image .root = s'.image .root ∧
        (s'.crash l).shows .root (.record id) = some (.record item)) ∧
    (∀ e, r = some (.error e) → (∀ x, e ≠ .commitUncertain x) → (∀ cause, e ≠ .uncleaned cause) →
      s'.shows = s.shows ∧ (∀ l, ∃ l₀, (s'.crash l).shows = (s.crash l₀).shows) ∧
      (s.Settled → s.dirty = [] → ∀ l, (s'.crash l).shows = s.shows)) ∧
    Kept s s' := by
  have hwp : Faulty (Begun id s) (q.enqueue ctx id payload now)
      (fun r s' => Begun id s s' ∧ Outcome id payload s r s') s := enqueue_outcome
  have hplan : ∀ c ∈ plan, ∀ (β : Type) (_ : CrashFs.Op Place Name (Content P) β), True := fun _ _ _ _ => trivial
  have hpost := Prog.run_of_wp hwp hplan
  rw [hrun] at hpost
  cases r with
  | none => exact ⟨nofun, nofun, hpost.kept hs⟩
  | some r =>
    obtain ⟨hbegun, houtcome⟩ := hpost
    refine ⟨?_, ?_, hbegun.kept hs⟩
    · intro hok
      obtain rfl := Option.some.inj hok
      obtain ⟨item, rfl, hpayload, hstaging, hcommitted⟩ := houtcome
      rcases hbegun with rfl | ⟨hnone, haside⟩
      · exact absurd hcommitted.record (hs _ s'.mayBe_image .root _)
      · exact ⟨item, rfl, hpayload, by rw [Fs.shows, hnone]; rfl, hcommitted.shows hs haside hstaging⟩
    · intro e he huncertain huncleaned
      obtain rfl := Option.some.inj he
      have hsame : s'.shows = s.shows ∧ ∀ l, ∃ l₀, (s'.crash l).shows = (s.crash l₀).shows := by
        rcases hbegun with rfl | ⟨hnone, haside⟩
        · exact ⟨rfl, fun l => ⟨l, rfl⟩⟩
        · rcases houtcome with rfl | ⟨hstaging, ⟨x, hx⟩ | ⟨cause, hcause⟩ | hcleared⟩
          · exact ⟨rfl, fun l => ⟨l, rfl⟩⟩
          · exact absurd hx (huncertain x)
          · exact absurd hcause (huncleaned cause)
          · exact hcleared.shows hs haside hstaging hnone
      refine ⟨hsame.1, hsame.2, fun hsettled hclean l => ?_⟩
      obtain ⟨l₀, hl₀⟩ := hsame.2 l
      rw [hl₀, Fs.shows_crash hsettled hclean]

def emptySpool : Disk (List UInt8) := ⟨fun _ => .empty, fun _ => .blank, [], 0⟩

def sampleId : Uuid := ⟨0x000000000000400080000000000000aa⟩

def sampleTime : UtcTime := .sample

/-- One payload is enqueued in an empty spool, and no step fails. -/
def sampleRun : Option (Except Error Unit) × Disk (List UInt8) :=
  (Queue.enqueue { maxBytes := 100000 } none sampleId [7] sampleTime).run Fs.machine (List.replicate 10 none) emptySpool

theorem enqueue_all_or_nothing_sample :
    sampleRun.1 = some (.ok ()) ∧
      ∃ item, item.payload = [7] ∧ sampleRun.2.shows .root (.record sampleId) = some (.record item) := by
  have hunused : Unused emptySpool := by
    intro T hT d n
    rw [show T d = _ from (Dir.mayBe_of_nil rfl).mp (hT d)]
    exact nofun
  have hok : sampleRun.1 = some (.ok ()) := rfl
  obtain ⟨hgained, -, -⟩ := enqueue_all_or_nothing { maxBytes := 100000 } none sampleId [7] sampleTime
    (List.replicate 10 none) emptySpool sampleRun.2 sampleRun.1 hunused rfl
  obtain ⟨item, -, hpayload, -, -, hshows, -⟩ := hgained hok
  refine ⟨hok, item, hpayload, ?_⟩
  rw [hshows, Function.update_self, Function.update_self]

end Queue

end NorthgateRmm.Agent.Spool
