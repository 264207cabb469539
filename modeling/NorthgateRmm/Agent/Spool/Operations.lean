import NorthgateRmm.Agent.Spool.Invariant

/-!
# What each operation keeps

Fault-free runs of the operations, stopped at any step. `Inv` holds between the
operations; `Safe` holds in every state in which an operation can be stopped,
and says that every image a crash can leave there is sound. The moves of
`Quarantine` go through one directory at a time: the links of one phase are
synced before the next phase begins, so in each phase only the images between
its begin and its end have to be considered.
-/

namespace NorthgateRmm.Agent.Spool

open CrashFs Queue

variable {P : Type} [Payload P] {α : Type}

theorem sure_ready {q : Queue} {ctx : Option ContextError} {C : Disk P → Prop}
    {Q : Except Error Unit → Disk P → Prop} {s : Disk P}
    (hok : Q (.ok ()) s) (herr : ∀ e, Q (.error e) s) : Sure C (q.ready ctx) Q s := by
  refine Prog.wp_bind.mpr (Prog.wp_require.mpr ⟨fun _ => ?_, fun _ => herr _⟩)
  cases ctx with
  | none => exact hok
  | some e => exact herr _

/-! ## Invariants -/

variable (strict : Prop) (maxBytes : Nat) (kept : List (Record P)) in
/-- What holds of the disk while no operation is running on an open queue. -/
structure Inv (s : Disk P) : Prop where
  settled : s.Settled
  clean : s.dirty = []
  sound : Sound strict maxBytes s.files s.next kept s.image
  separate : Separate s.image
  ready : Ready s.image
  lock : s.image .root .lock ≠ none

/-- Every image that a crash can leave is sound. -/
def Safe (strict : Prop) (maxBytes : Nat) (kept : List (Record P)) (s : Disk P) : Prop :=
  s.dirty = [] ∧ ∀ T, s.MayBe T → Sound strict maxBytes s.files s.next kept T

/-- What a crash leaves. -/
structure Recoverable (strict : Prop) (maxBytes : Nat) (kept : List (Record P)) (s : Disk P) : Prop where
  settled : s.Settled
  clean : s.dirty = []
  sound : Sound strict maxBytes s.files s.next kept s.image

section Invariants

variable {strict : Prop} {maxBytes : Nat} {kept kept' : List (Record P)} {s s₀ : Disk P}

theorem Inv.recoverable (h : Inv strict maxBytes kept s) : Recoverable strict maxBytes kept s :=
  ⟨h.settled, h.clean, h.sound⟩

theorem Inv.mono (h : Inv strict maxBytes kept s) (hk : kept' ⊆ kept) : Inv strict maxBytes kept' s :=
  { h with sound := h.sound.mono hk }

theorem Recoverable.safe (h : Recoverable strict maxBytes kept s) : Safe strict maxBytes kept s :=
  ⟨h.clean, fun T hT => h.settled T hT ▸ h.sound⟩

theorem Inv.safe (h : Inv strict maxBytes kept s) : Safe strict maxBytes kept s := h.recoverable.safe

theorem Safe.crash (h : Safe strict maxBytes kept s) (l : Fs.Loss Place (Content P)) :
    Recoverable strict maxBytes kept (s.crash l) := by
  have hf : (s.crash l).files = s.files := by
    funext i
    show (if i ∈ s.dirty then l.torn i else s.files i) = s.files i
    rw [h.1, if_neg List.not_mem_nil]
  exact ⟨s.settled_crash l, rfl, by rw [hf]; exact h.2 _ (s.mayBe_crash l)⟩

variable {l : List (Name × Option Nat)} {d : Place}

/-- In a phase of edits to one directory only the images between its begin and
its end have to be sound. -/
theorem safe_of_editing (h : Fs.Editing s₀ d l s) (hd : s₀.dirty = [])
    (hsound : ∀ T : Image, (∀ d', d' ≠ d → T d' = s₀.image d') →
      (∀ n, T d n = s₀.image d n ∨ ∃ v, (n, v) ∈ l ∧ T d n = v) →
      Sound strict maxBytes s₀.files s₀.next kept T) : Safe strict maxBytes kept s := by
  refine ⟨h.dirty.trans hd, fun T hT => ?_⟩
  rw [h.files, h.next]
  exact hsound T (h.mayBe T hT).1 (h.mayBe T hT).2

theorem Safe.sound (h : Safe strict maxBytes kept s) : Sound strict maxBytes s.files s.next kept s.image :=
  h.2 _ s.mayBe_image

/-- Edits to the records of a directory leave the fixed names alone. -/
theorem image_of_editing (h : Fs.Editing s₀ d l s)
    (hl : ∀ e ∈ l, ∃ id, e.1 = .record id) (d' : Place) {n : Name} (hn : ∀ id, n ≠ .record id) :
    s.image d' n = s₀.image d' n := by
  rw [h.image]
  by_cases hd : d' = d
  · subst hd
    rw [Function.update_self, Change.on_of_notMem]
    intro v hv
    obtain ⟨id, hid⟩ := hl _ hv
    exact hn id hid
  · rw [Function.update_of_ne hd]

/-- A synced phase is the begin of the next one. -/
theorem recoverable_of_editing (h : Fs.Editing s₀ d l s)
    (hsafe : Safe strict maxBytes kept s) : Recoverable strict maxBytes kept (s.synced d) :=
  ⟨h.settled, hsafe.1, by rw [Fs.image_synced]; exact hsafe.sound⟩

/-- The invariant holds again when the phase is synced. -/
theorem inv_of_editing (hready : Ready s₀.image)
    (hlock : s₀.image .root .lock ≠ none) (h : Fs.Editing s₀ d l s) (hl : ∀ e ∈ l, ∃ id, e.1 = .record id) (hsafe : Safe strict maxBytes kept' s)
    (hsep : Separate s.image) : Inv strict maxBytes kept' (s.synced d) where
  settled := h.settled
  clean := hsafe.1
  sound := by rw [Fs.image_synced]; exact hsafe.sound
  separate := by rw [Fs.image_synced]; exact hsep
  ready := by
    rw [Fs.image_synced, Ready, image_of_editing h hl .parent (n := .spool) (fun _ h => by cases h),
      image_of_editing h hl .root (n := .rejected) (fun _ h => by cases h), image_of_editing h hl .root (n := .rollover) (fun _ h => by cases h)]
    exact hready
  lock := by
    rw [Fs.image_synced, image_of_editing h hl .root (n := .lock) (fun _ h => by cases h)]
    exact hlock

end Invariants

/-! ## Loops over the records of a directory -/

section Loops

variable {γ : Type} {C : Disk P → Prop} {Q : Except Error Unit → Disk P → Prop} {s₀ : Disk P}
variable {key : γ → Uuid} {err : γ → Error} {xs : List γ}

/-- The edits that set the records of the items as `f` says. -/
def edits (key : γ → Uuid) (f : Name → Option Nat) (xs : List γ) : List (Name × Option Nat) :=
  (xs.map fun x => Name.record (key x)).map fun n => (n, f n)

theorem on_edits (key : γ → Uuid) (f : Name → Option Nat) (xs : List γ) (t : Name → Option Nat) (n : Name) :
    Change.on (edits key f xs) t n = if n ∈ xs.map (fun x => Name.record (key x)) then f n else t n :=
  Change.on_map _ _ _ _

theorem edits_concat (key : γ → Uuid) (f : Name → Option Nat) (xs : List γ) (x : γ) :
    edits key f (xs ++ [x]) = edits key f xs ++ [(.record (key x), f (.record (key x)))] := by
  simp [edits]

theorem record_of_mem_edits {f : Name → Option Nat} {e : Name × Option Nat} (h : e ∈ edits key f xs) :
    ∃ x ∈ xs, e = (.record (key x), f (.record (key x))) := by
  obtain ⟨n, hn, rfl⟩ := List.mem_map.mp h
  obtain ⟨x, hx, rfl⟩ := List.mem_map.mp hn
  exact ⟨x, hx, rfl⟩

theorem notMem_names_of_nodup {done rest : List γ} {x : γ} (hnd : ((done ++ x :: rest).map key).Nodup) :
    Name.record (key x) ∉ done.map fun y => Name.record (key y) := by
  intro hmem
  obtain ⟨y, hy, hk⟩ := List.mem_map.mp hmem
  rw [List.map_append, List.map_cons] at hnd
  have hdis := List.disjoint_of_nodup_append hnd
  exact hdis (List.mem_map_of_mem hy) (by rw [Name.record.inj hk]; exact List.mem_cons_self)

variable (key) in
theorem removeAll_sure (hs : s₀.Settled) {d : Place} (hnd : (xs.map key).Nodup)
    (hpres : ∀ x ∈ xs, s₀.image d (.record (key x)) ≠ none)
    (hC : ∀ done s, done ⊆ xs → Fs.Editing s₀ d (edits key (fun _ => none) done) s → C s)
    (hQ : ∀ s, Fs.Editing s₀ d (edits key (fun _ => none) xs) s → Q (.ok ()) s) :
    Sure C (Prog.forEach (fun x => step (.remove d (.record (key x))) (err x)) xs) Q s₀ := by
  refine Prog.wp_forEach (fun done s => Fs.Editing s₀ d (edits key (fun _ => none) done) s)
    (Fs.Editing.start hs d) (fun done x rest hxs s hedit => ?_) hQ
  have hx : x ∈ xs := hxs ▸ List.mem_append_right _ List.mem_cons_self
  have hnow : s.image d (.record (key x)) = s₀.image d (.record (key x)) := by
    rw [hedit.image, Function.update_self, on_edits,
      if_neg (notMem_names_of_nodup (hxs ▸ hnd))]
  obtain ⟨i, hi⟩ := Option.ne_none_iff_exists'.mp (hnow ▸ hpres x hx)
  have hsub : done ⊆ xs := hxs ▸ List.subset_append_left _ _
  refine sure_step_ok (Fs.exec_remove hi) (hC done s hsub hedit) ?_
  show Fs.Editing s₀ d (edits key (fun _ => none) (done ++ [x])) _
  rw [edits_concat]
  exact hedit.edit _ _

variable (key) in
theorem linkAll_sure (hs : s₀.Settled) {d d' : Place} (hd : d ≠ d') (hnd : (xs.map key).Nodup)
    (hpres : ∀ x ∈ xs, s₀.image d (.record (key x)) ≠ none)
    (hfree : ∀ x ∈ xs, s₀.image d' (.record (key x)) = none)
    (hC : ∀ done s, done ⊆ xs → Fs.Editing s₀ d' (edits key (s₀.image d) done) s → C s)
    (hQ : ∀ s, Fs.Editing s₀ d' (edits key (s₀.image d) xs) s → Q (.ok ()) s) :
    Sure C (Prog.forEach (fun x => step (.link d (.record (key x)) d' (.record (key x))) (err x)) xs) Q s₀ := by
  refine Prog.wp_forEach (fun done s => Fs.Editing s₀ d' (edits key (s₀.image d) done) s)
    (Fs.Editing.start hs d') (fun done x rest hxs s hedit => ?_) hQ
  have hx : x ∈ xs := hxs ▸ List.mem_append_right _ List.mem_cons_self
  have hsrc : s.image d = s₀.image d := by rw [hedit.image, Function.update_of_ne hd]
  have hdst : s.image d' (.record (key x)) = none := by
    rw [hedit.image, Function.update_self, on_edits,
      if_neg (notMem_names_of_nodup (hxs ▸ hnd)), hfree x hx]
  obtain ⟨i, hi⟩ := Option.ne_none_iff_exists'.mp (hpres x hx)
  have hsub : done ⊆ xs := hxs ▸ List.subset_append_left _ _
  refine sure_step_ok (Fs.exec_link (by rw [hsrc, hi]) hdst) (hC done s hsub hedit) ?_
  show Fs.Editing s₀ d' (edits key (s₀.image d) (done ++ [x])) _
  rw [edits_concat, hi]
  exact hedit.edit _ _

end Loops

/-! ## Acknowledge -/

/-- The records of which something is known after an acknowledgement of `id`. -/
def without (id : Uuid) (kept : List (Record P)) : List (Record P) := kept.filter fun r => r.id ≠ id

theorem without_subset (id : Uuid) (kept : List (Record P)) : without id kept ⊆ kept :=
  List.filter_sublist.subset

theorem id_of_mem_without (id : Uuid) (kept : List (Record P)) : ∀ r ∈ without id kept, r.id ≠ id := by
  simp [without]

section Acknowledge

variable {strict : Prop} {maxBytes : Nat} {kept : List (Record P)} {s : Disk P} {q : Queue}

/-- Removing one record of the active or the rollover directory. -/
theorem remove_sure (h : Inv strict maxBytes kept s) {d : Place} (hd : d = .root ∨ d = .rollover) (id : Uuid)
    (e e' : Error) :
    Sure (Safe strict maxBytes (without id kept))
      (do step (.remove d (.record id)) e; step (.syncDir d) e')
      (fun _ s' => Inv strict maxBytes (without id kept) s') s := by
  have hsub := without_subset id kept
  cases hi : s.image d (.record id) with
  | none =>
    have hmiss : Fs.exec none (.remove d (.record id)) s = (.error .notExist, s) := by rw [Fs.exec, hi]
    exact Prog.wp_bind.mpr (sure_step_error hmiss (h.mono hsub).safe (h.mono hsub))
  | some i =>
    have hedit : Fs.Editing s d [(.record id, none)] (s.edit d [(.record id, none)]) :=
      (Fs.Editing.start h.settled d).edit _ _
    have hsound : ∀ T : Image, (∀ d', d' ≠ d → T d' = s.image d') →
        (∀ n, T d n = s.image d n ∨ ∃ v, (n, v) ∈ [(Name.record id, none)] ∧ T d n = v) →
        Sound strict maxBytes s.files s.next (without id kept) T := by
      intro T hsame hdir
      refine h.sound.acknowledged h.separate hd hsame (fun n => (hdir n).imp_right ?_) (id_of_mem_without id kept) hsub
      rintro ⟨v, hv, hT⟩
      cases List.mem_singleton.mp hv
      exact ⟨rfl, hT⟩
    refine Prog.wp_bind.mpr (sure_step_ok (Fs.exec_remove hi) (h.mono hsub).safe ?_)
    have hsafe := safe_of_editing hedit h.clean hsound
    refine sure_step_ok rfl hsafe (inv_of_editing h.ready h.lock hedit ?_ hsafe (h.separate.less fun d' n => ?_))
    · intro e he
      exact ⟨id, by rw [List.mem_singleton.mp he]⟩
    · by_cases hd' : d' = d
      · subst hd'
        rcases (hedit.mayBe _ (Fs.mayBe_image _)).2 n with heq | ⟨v, hv, hT⟩
        · exact Or.inl heq
        · cases List.mem_singleton.mp hv
          exact Or.inr ⟨by rcases hd with rfl | rfl <;> decide, ⟨id, rfl⟩, hT⟩
      · exact Or.inl (by rw [(hedit.mayBe _ (Fs.mayBe_image _)).1 d' hd'])

theorem acknowledge_sure (h : Inv strict maxBytes kept s) (ctx : Option ContextError) (id : Uuid) :
    Sure (Safe strict maxBytes (without id kept)) (q.acknowledge ctx id)
      (fun _ s' => Inv strict maxBytes (without id kept) s') s := by
  have h' := h.mono (without_subset id kept)
  refine Prog.wp_bind.mpr (sure_ready ?_ fun _ => h')
  refine Prog.wp_bind.mpr (Prog.wp_require.mpr ⟨fun _ => ?_, fun _ => h'⟩)
  exact remove_sure h (Or.inl rfl) id _ _

theorem acknowledgeRollover_sure (h : Inv strict maxBytes kept s) (ctx : Option ContextError) (id : Uuid) :
    Sure (Safe strict maxBytes (without id kept)) (q.acknowledgeRollover ctx id)
      (fun _ s' => Inv strict maxBytes (without id kept) s') s := by
  have h' := h.mono (without_subset id kept)
  refine Prog.wp_bind.mpr (sure_ready ?_ fun _ => h')
  refine Prog.wp_bind.mpr (Prog.wp_require.mpr ⟨fun _ => ?_, fun _ => h'⟩)
  refine Prog.wp_bind.mpr (sure_read h'.safe ?_)
  cases readItem .rollover id s with
  | error e => exact h'
  | ok r => exact remove_sure h (Or.inr rfl) id _ _

end Acknowledge

/-! ## Enqueue -/

section Enqueue

variable {strict : Prop} {maxBytes : Nat} {kept : List (Record P)} {s : Disk P} {q : Queue}

/-- The disk after the file of `item` was written, synced, published and lost
its staging name. -/
def published (s : Disk P) (item : Record P) : Disk P :=
  (((((s.created .root (.staging item.id) .blank).written s.next (.record item)).flushed s.next).edit .root
    [(.record item.id, some s.next)]).edit .root [(.staging item.id, none)]).synced .root

theorem image_created (s : Disk P) (n : Name) (c : Content P) (m : Name) :
    (s.created .root n c).image .root m = if m = n then some s.next else s.image .root m := by
  show (s.edit .root [(n, some s.next)]).image .root m = _
  rw [Fs.image_edit, Function.update_self, Change.on_set, Function.update_apply]

/-- The staging file of `id` may be found after a crash. -/
def Staging (id : Uuid) (s : Disk P) : Prop := ∃ T, s.MayBe T ∧ T .root (.staging id) ≠ none

/-- Publishing goes through; it is stopped before its first step or while the
staging file may be found. -/
theorem publish_sure (item : Record P) (hstaging : s.image .root (.staging item.id) = none)
    (hfree : s.image .root (.record item.id) = none) {Q : Except Error Unit → Disk P → Prop}
    (hQ : Q (.ok ()) (published s item)) :
    Sure (fun s' => s' = s ∨ Staging item.id s') (publish item) Q s := by
  have hcreated : Staging item.id (s.created .root (.staging item.id) .blank) := by
    refine ⟨_, Fs.mayBe_image _, ?_⟩
    rw [image_created, if_pos rfl]
    exact Option.some_ne_none _
  have hedited : ∀ {s' : Disk P} {c : Change Name}, Staging item.id s' → Staging item.id (s'.edit .root c) := by
    rintro s' c ⟨T, hT, hsome⟩
    exact ⟨T, hT.edit .root c, hsome⟩
  refine Prog.wp_bind.mpr (sure_step_ok (Fs.exec_create _ hstaging) (Or.inl rfl) ?_)
  refine Prog.wp_bind.mpr (Prog.wp_attempt.mpr ?_)
  refine Prog.wp_bind.mpr (sure_step_ok rfl (Or.inr hcreated) ?_)
  refine Prog.wp_bind.mpr (sure_step_ok rfl (Or.inr hcreated) ?_)
  refine Prog.wp_bind.mpr (sure_step_ok rfl (Or.inr hcreated) ?_)
  have hstaged : (((s.created .root (.staging item.id) .blank).written s.next (.record item)).flushed s.next).image
      .root (.staging item.id) = some s.next := by
    show (s.created .root (.staging item.id) .blank).image .root _ = _
    rw [image_created, if_pos rfl]
  have hfinal : (((s.created .root (.staging item.id) .blank).written s.next (.record item)).flushed s.next).image
      .root (.record item.id) = none := by
    show (s.created .root (.staging item.id) .blank).image .root _ = _
    rw [image_created, if_neg nofun, hfree]
  refine Prog.wp_bind.mpr (sure_call (Fs.exec_link hstaged hfinal) (Or.inr hcreated) ?_)
  refine Prog.wp_bind.mpr (sure_call (Fs.exec_remove (i := s.next) ?_) (Or.inr (hedited hcreated)) ?_)
  · rw [Fs.image_edit, Function.update_self, Change.on_set,
      Function.update_of_ne (show Name.staging item.id ≠ .record item.id from nofun), hstaged]
  · exact Prog.wp_bind.mpr (sure_call rfl (Or.inr (hedited (hedited hcreated))) hQ)

/-- Publishing edits the active directory only. -/
theorem editing_published (h : s.Settled) (item : Record P) :
    Fs.Editing { s with
      files := Function.update (Function.update s.files s.next .blank) s.next (.record item)
      dirty := (s.next :: s.dirty).filter (· ≠ s.next)
      next := s.next + 1 } .root
      [(.staging item.id, some s.next), (.record item.id, some s.next), (.staging item.id, none)]
      ((((((s.created .root (.staging item.id) .blank).written s.next (.record item)).flushed s.next).edit .root
        [(.record item.id, some s.next)]).edit .root [(.staging item.id, none)])) := by
  have hbase : Fs.Settled { s with
      files := Function.update (Function.update s.files s.next .blank) s.next (.record item)
      dirty := (s.next :: s.dirty).filter (· ≠ s.next)
      next := s.next + 1 } := h
  exact (((Fs.Editing.start hbase .root).edit _ _).edit _ _).edit _ _

theorem image_published (h : s.Settled) {item : Record P} (hstaging : s.image .root (.staging item.id) = none) :
    (published s item).image = Function.update s.image .root
      (Function.update (s.image .root) (.record item.id) (some s.next)) := by
  rw [published, Fs.image_synced, (editing_published h item).image]
  show Function.update s.image .root (Change.on _ (s.image .root)) = _
  congr 1
  funext n
  by_cases hn : n = .staging item.id
  · subst hn
    simp [Change.on, hstaging]
  · by_cases hr : n = .record item.id
    · subst hr
      simp [Change.on]
    · simp [Change.on, hn, hr]

/-- What the active directory holds under an ID. -/
def activeContent (id : Uuid) (s : Disk P) : Content P :=
  match s.image .root (.record id) with
  | none => .blank
  | some i => s.files i

theorem activeContent_published (h : s.Settled) {item : Record P}
    (hstaging : s.image .root (.staging item.id) = none) :
    activeContent item.id (published s item) = .record item := by
  rw [activeContent, image_published h hstaging, Function.update_self, Function.update_self]
  exact Function.update_self ..

theorem staging_none (h : Consistent strict s.files s.image) (id : Uuid) : s.image .root (.staging id) = none := by
  cases hi : s.image .root (.staging id) with
  | none => rfl
  | some i =>
    rcases h.entry .root _ i nofun hi with ⟨r, hr⟩ | ⟨-, hn⟩
    · exact nomatch hr.name
    · exact nomatch hn

/-- Publishing a record whose ID and order are new and for which there is room. -/
theorem inv_published (h : Inv strict q.maxBytes kept s) {item : Record P}
    (hc : item.id.matchesPattern = true) (hroot : s.image .root (.record item.id) = none)
    (hrej : s.image .rejected (.record item.id) = none)
    (hroll : strict → s.image .rollover (.record item.id) = none)
    (horder : (inventoryOf s).lastOrder < item.order) (hcount : (dataOf s).length < maxEntries)
    (hsize : totalSize s.files (dataOf s) + item.size ≤ q.maxBytes) :
    Inv strict q.maxBytes (item :: kept) (published s item) := by
  have hstaging := staging_none h.sound.consistent item.id
  have himage := image_published h.settled hstaging
  have hfiles : ∀ i < s.next, (published s item).files i = s.files i := by
    intro i hi
    show Function.update (Function.update s.files s.next .blank) s.next (.record item) i = s.files i
    rw [Function.update_of_ne (Nat.ne_of_lt hi), Function.update_of_ne (Nat.ne_of_lt hi)]
  have hself : (published s item).files s.next = .record item := Function.update_self ..
  have hbound := h.sound.bounded
  have hother : ∀ d n, n ≠ .record item.id → (published s item).image d n = s.image d n := by
    intro d n hn
    rw [himage]
    by_cases hd : d = .root
    · subst hd
      rw [Function.update_self, Function.update_of_ne hn]
    · rw [Function.update_of_ne hd]
  refine ⟨(editing_published h.settled item).settled, ?_, ?_, ⟨fun id => ?_, fun id => ?_⟩, ?_, ?_⟩
  · have hdirty : (published s item).dirty = (s.next :: s.dirty).filter (· ≠ s.next) := rfl
    simp [hdirty, h.clean]
  · refine Sound.insert (h.sound.congr_files hfiles (Nat.le_succ s.next)) h.ready hself (Nat.lt_succ_self _)
      (fun d n hn => Nat.lt_irrefl _ (hbound d n _ hn)) hc hrej hroll (fun d id j r' hd hj hr' => ?_)
      ⟨dataOf s, hcount, ?_, fun id j hj => mem_dataOf.mpr ⟨hj, rfl⟩⟩ hroot himage
    · rw [hfiles j (hbound d _ j hj)] at hr'
      have := le_lastOrder (mem_liveOrders hd hj hr')
      omega
    · rw [totalSize_congr fun e he => hfiles e.2 (hbound .root e.1 e.2 (mem_dataOf.mp he).1)]
      exact hsize
  · by_cases hid : id = item.id
    · subst hid
      exact Or.inr (by rw [himage]; exact hrej)
    · have hn : Name.record id ≠ .record item.id := fun h => hid (Name.record.inj h)
      rw [hother _ _ hn, hother _ _ hn]
      exact h.separate.root id
  · rw [himage]
    exact h.separate.rejected id
  · rw [Ready, hother .parent .spool (fun h => by cases h), hother .root .rejected (fun h => by cases h), hother .root .rollover (fun h => by cases h)]
    exact h.ready
  · rw [hother .root .lock (fun h => by cases h)]
    exact h.lock

/-- The record that `Enqueue` makes of a payload. -/
structure Numbered (id : Uuid) (payload : P) (now : UtcTime) (s : Disk P) (item : Record P) : Prop where
  id : item.id = id
  payload : item.payload = payload
  createdAt : item.createdAt = now
  order : item.order = (inventoryOf s).lastOrder + 1

/-- What `Enqueue` does: it publishes the record, which then fits, or it leaves the disk as
it is. It reports the quota only for a record that does not fit. -/
def Enqueues (q : Queue) (id : Uuid) (payload : P) (now : UtcTime) (s : Disk P) : Except Error Unit → Disk P → Prop
  | .ok (), s' => ∃ item : Record P, Numbered id payload now s item ∧ id.matchesPattern = true ∧
      s.image .root (.record id) = none ∧ (dataOf s).length < maxEntries ∧
      totalSize s.files (dataOf s) + item.size ≤ q.maxBytes ∧ s' = published s item
  | .error e, s' => s' = s ∧ (e = .quotaExceeded → maxEntries ≤ (dataOf s).length ∨
      ∃ item : Record P, Numbered id payload now s item ∧ q.maxBytes < totalSize s.files (dataOf s) + item.size)

theorem enqueue_effect (h : Inv strict q.maxBytes kept s) (ctx : Option ContextError) {id : Uuid} (payload : P)
    (now : UtcTime) :
    Sure (fun s' => s' = s ∨ Staging id s') (q.enqueue ctx id payload now) (Enqueues q id payload now s) s := by
  refine Prog.wp_bind.mpr (Prog.wp_bind.mpr (Prog.wp_require.mpr ⟨fun _ => ?_, fun _ => ⟨rfl, fun h => by cases h⟩⟩))
  refine Prog.wp_mono (Q := fun r s' => s' = s ∧ ∀ e, r = .error e → e ≠ .quotaExceeded) ?_ ?_
  · cases ctx with
    | none => exact ⟨rfl, fun _ h => by cases h⟩
    | some e => exact ⟨rfl, fun e' he => by cases he; exact fun h => by cases h⟩
  rintro r s' ⟨rfl, hready⟩
  cases r with
  | error e => exact ⟨rfl, fun he => absurd he (hready e rfl)⟩
  | ok _ =>
    refine Prog.wp_bind.mpr (Prog.wp_require.mpr ⟨fun hc => ?_, fun _ => ⟨rfl, fun h => by cases h⟩⟩)
    dsimp only
    split
    next hp =>
      refine Prog.wp_bind.mpr (sure_step_ok rfl (Or.inl rfl) ?_)
      refine Prog.wp_bind.mpr (Prog.wp_require.mpr ⟨fun hfound => ?_, fun _ => ⟨rfl, fun h => by cases h⟩⟩)
      refine Prog.wp_bind.mpr (sure_read (Or.inl rfl) ?_)
      rw [inventory_of_scannable (scannable_of_sound h.sound h.separate)]
      refine Prog.wp_bind.mpr (Prog.wp_require.mpr ⟨fun hcount => ?_, fun hcount => ⟨rfl, fun _ => Or.inl ?_⟩⟩)
      · dsimp only
        split
        next ho =>
          refine Prog.wp_bind.mpr (Prog.wp_require.mpr ⟨fun hsize => ?_, fun hsize => ⟨rfl, fun _ => Or.inr ?_⟩⟩)
          · have hroot : s'.image .root (.record id) = none := by simpa [present] using hfound
            refine publish_sure ⟨id, _, now, payload, Nat.succ_pos _, ho, hp.1, hp.2⟩
              (staging_none h.sound.consistent id) hroot ?_
            exact ⟨_, ⟨rfl, rfl, rfl, rfl⟩, hc, hroot, of_decide_eq_true hcount, of_decide_eq_true hsize, rfl⟩
          · exact ⟨_, ⟨rfl, rfl, rfl, rfl⟩, Nat.not_le.mp (of_decide_eq_false hsize)⟩
        next => exact ⟨rfl, fun h => by cases h⟩
      · exact Nat.not_lt.mp (of_decide_eq_false hcount)
    next => exact ⟨rfl, fun h => by cases h⟩

theorem inv_of_enqueues (h : Inv strict q.maxBytes kept s) {id : Uuid} {payload : P} {now : UtcTime} {s' : Disk P}
    (he : Enqueues q id payload now s (.ok ()) s') (hrej : s.image .rejected (.record id) = none)
    (hroll : strict → s.image .rollover (.record id) = none) :
    ∃ item : Record P, item.id = id ∧ item.payload = payload ∧ activeContent id s' = .record item ∧
      Inv strict q.maxBytes (item :: kept) s' := by
  obtain ⟨item, hitem, hc, hroot, hcount, hsize, rfl⟩ := he
  obtain rfl := hitem.id
  refine ⟨item, rfl, hitem.payload, activeContent_published h.settled (staging_none h.sound.consistent item.id), ?_⟩
  exact inv_published h hc hroot hrej hroll (by rw [hitem.order]; exact Nat.lt_succ_self _) hcount hsize

theorem enqueue_sure (h : Inv strict q.maxBytes kept s) (ctx : Option ContextError) {id : Uuid} (payload : P)
    (now : UtcTime) (hrej : s.image .rejected (.record id) = none)
    (hroll : strict → s.image .rollover (.record id) = none) :
    Sure (fun s' => s' = s ∨ Staging id s') (q.enqueue ctx id payload now) (fun r s' => match r with
      | .ok () => ∃ item : Record P, item.id = id ∧ item.payload = payload ∧
        activeContent id s' = .record item ∧ Inv strict q.maxBytes (item :: kept) s'
      | .error _ => s' = s) s := by
  refine Prog.wp_mono (enqueue_effect h ctx payload now) fun r s' hr => ?_
  cases r with
  | ok _ => exact inv_of_enqueues h hr hrej hroll
  | error e => exact hr.1

end Enqueue

/-! ## Quarantine -/

section Quarantine

variable {strict : Prop} {maxBytes : Nat} {kept : List (Record P)} {s : Disk P} {q : Queue}

/-- The last two phases: the record is linked in rejected, then removed from the
active directory. -/
theorem moveToRejected_sure (h : Inv strict maxBytes kept s) {id : Uuid} {i : Nat}
    (hi : s.image .root (.record id) = some i) (hnroll : s.image .rollover (.record id) = none)
    (hcount : (entriesOf s .rejected).length < maxRejectedEntries)
    (hsize : totalSize s.files (entriesOf s .rejected) + (s.files i).size ≤ maxBytes) :
    Sure (Safe strict maxBytes kept) (moveToRejected id)
      (fun r s' => r = .ok () ∧ Inv strict maxBytes kept s') s := by
  have hnrej : s.image .rejected (.record id) = none :=
    (h.separate.root id).resolve_left (by rw [hi]; exact Option.some_ne_none i)
  -- linking it in rejected
  have hedit := (Fs.Editing.start h.settled .rejected).edit (.record id) (some i)
  rw [List.nil_append] at hedit
  have hsafe : Safe strict maxBytes kept (s.edit .rejected [(.record id, some i)]) := by
    refine safe_of_editing hedit h.clean fun T hsame hdir => ?_
    have hdir' : ∀ n, T .rejected n = s.image .rejected n ∨ (n = .record id ∧ T .rejected n = some i) := by
      refine fun n => (hdir n).imp_right ?_
      rintro ⟨v, hv, hT⟩
      cases List.mem_singleton.mp hv
      exact ⟨rfl, hT⟩
    refine h.sound.linkRejected hi hnrej hnroll hsame hdir'
      ⟨(.record id, i) :: entriesOf s .rejected, hcount, ?_, fun id' j hj => ?_⟩
    · rw [totalSize_cons]
      show (s.files i).size + _ ≤ _
      omega
    · rcases hdir' (.record id') with heq | ⟨hn, heq⟩
      · exact List.mem_cons_of_mem _ (mem_entriesOf.mpr (by rw [← heq, hj]))
      · rw [heq] at hj
        rw [hn, Option.some.inj hj]
        exact List.mem_cons_self
  refine Prog.wp_bind.mpr (sure_step_ok (Fs.exec_link hi hnrej) h.safe ?_)
  refine Prog.wp_bind.mpr (sure_step_ok rfl hsafe ?_)
  -- removing it from the active directory
  have hrec := recoverable_of_editing hedit hsafe
  generalize hs' : (s.edit .rejected [(.record id, some i)]).synced .rejected = s' at hrec
  have himage : s'.image = Function.update s.image .rejected
      (Function.update (s.image .rejected) (.record id) (some i)) := by
    rw [← hs', Fs.image_synced, hedit.image, Change.on_set]
  have hi' : s'.image .root (.record id) = some i := by rw [himage]; exact hi
  have hrej' : s'.image .rejected (.record id) = some i := by
    rw [himage, Function.update_self, Function.update_self]
  have hedit' := (Fs.Editing.start hrec.settled .root).edit (.record id) none
  rw [List.nil_append] at hedit'
  have hsafe' : Safe strict maxBytes kept (s'.edit .root [(.record id, none)]) := by
    refine safe_of_editing hedit' hrec.clean fun T hsame hdir => ?_
    refine hrec.sound.unlinkRoot hsame fun n => (hdir n).imp_right ?_
    rintro ⟨v, hv, hT⟩
    cases List.mem_singleton.mp hv
    exact ⟨id, rfl, by rw [hrej']; exact Option.some_ne_none i, hT⟩
  refine Prog.wp_bind.mpr (sure_step_ok (Fs.exec_remove hi') hrec.safe ?_)
  refine sure_step_ok rfl hsafe' ⟨rfl, inv_of_editing ?_ ?_ hedit' ?_ hsafe' ?_⟩
  · rw [himage]
    exact h.ready
  · rw [himage]
    exact h.lock
  · intro e he
    exact ⟨id, by rw [List.mem_singleton.mp he]⟩
  · rw [hedit'.image, Change.on_set, himage]
    refine ⟨fun id' => ?_, fun id' => ?_⟩
    · by_cases hid : id' = id
      · subst hid
        exact Or.inl (by rw [Function.update_self, Function.update_self])
      · simpa [hid] using h.separate.root id'
    · by_cases hid : id' = id
      · subst hid
        exact Or.inr (by simpa using hnroll)
      · simpa [hid] using h.separate.rejected id'

/-- The image after an eviction of `names`. -/
def evicted (S : Image) (names : List Name) : Image
  | .rejected, n => if n ∈ names then none else S .rejected n
  | .rollover, n => if n ∈ names then S .rejected n else S .rollover n
  | d, n => S d n

theorem separate_evicted {S : Image} (h : Separate S) (names : List Name) : Separate (evicted S names) := by
  refine ⟨fun id => ?_, fun id => ?_⟩
  · refine (h.root id).imp_right fun hnone => ?_
    simp only [evicted, hnone, ite_self]
  · by_cases hn : Name.record id ∈ names
    · exact Or.inl (by simp only [evicted, if_pos hn])
    · simpa only [evicted, if_neg hn] using h.rejected id

/-- The first two phases: the selected records are linked in rollover, then
removed from rejected. -/
theorem evict_sure (h : Inv strict maxBytes kept s) {selected : List Metadata} {last : Uuid}
    (hrej : ∀ m ∈ selected, s.image .rejected (.record m.id) ≠ none)
    (hnd : (selected.map (·.id)).Nodup)
    (hcount : (entriesOf s .rollover).length + selected.length ≤ maxRejectedEntries) :
    Sure (Safe strict maxBytes kept) (evict selected last)
      (fun r s' => (∃ ids, r = .ok ids) ∧ Inv strict maxBytes kept s' ∧ s'.files = s.files ∧
        s'.image = evicted s.image (selected.map fun m => .record m.id)) s := by
  have hfree : ∀ m ∈ selected, s.image .rollover (.record m.id) = none :=
    fun m hm => (h.separate.rejected m.id).resolve_left (hrej m hm)
  -- linking them in rollover
  have hsafe : ∀ done s', done ⊆ selected →
      Fs.Editing s .rollover (edits (·.id) (s.image .rejected) done) s' → Safe strict maxBytes kept s' := by
    intro done s' hsub hedit
    refine safe_of_editing hedit h.clean fun T hsame hdir => ?_
    have hdir' : ∀ n, T .rollover n = s.image .rollover n ∨ ∃ m ∈ selected, n = .record m.id ∧
        T .rollover n = s.image .rejected n := by
      refine fun n => (hdir n).imp_right ?_
      rintro ⟨v, hv, hT⟩
      obtain ⟨m, hm, he⟩ := record_of_mem_edits hv
      cases he
      exact ⟨m, hsub hm, rfl, hT⟩
    refine h.sound.linkRollover h.separate hsame (fun n => (hdir' n).imp_right ?_)
      ⟨entriesOf s .rollover ++ selected.map fun m =>
        (.record m.id, (s.image .rejected (.record m.id)).getD 0), ?_, fun id i hi => ?_⟩
    · rintro ⟨m, hm, rfl, hT⟩
      exact ⟨m.id, rfl, hrej m hm, hT⟩
    · rw [List.length_append, List.length_map]
      exact hcount
    · rcases hdir' (.record id) with heq | ⟨m, hm, hn, hT⟩
      · exact List.mem_append_left _ (mem_entriesOf.mpr (by rw [← heq, hi]))
      · cases hn
        refine List.mem_append_right _ (List.mem_map.mpr ⟨m, hm, ?_⟩)
        rw [← hT, hi, Option.getD_some]
  refine Prog.wp_bind.mpr (linkAll_sure Metadata.id h.settled nofun hnd hrej hfree hsafe fun s₁ hedit => ?_)
  have hsafe₁ := hsafe selected s₁ (List.Subset.refl _) hedit
  refine Prog.wp_bind.mpr (sure_step_ok rfl hsafe₁ ?_)
  have hrec := recoverable_of_editing hedit hsafe₁
  have himage : (s₁.synced .rollover).image = Function.update s.image .rollover (fun n =>
      if n ∈ selected.map (fun m => Name.record m.id) then s.image .rejected n else s.image .rollover n) := by
    rw [Fs.image_synced, hedit.image]
    congr 1
    funext n
    rw [on_edits]
  have hfiles : (s₁.synced .rollover).files = s.files := hedit.files
  generalize s₁.synced .rollover = s' at hrec himage hfiles
  -- removing them from rejected
  have hrej' : ∀ m ∈ selected, s'.image .rejected (.record m.id) ≠ none := by
    intro m hm
    rw [himage]
    exact hrej m hm
  have hroll' : ∀ m ∈ selected, s'.image .rollover (.record m.id) ≠ none := by
    intro m hm
    rw [himage, Function.update_self, if_pos (List.mem_map.mpr ⟨m, hm, rfl⟩)]
    exact hrej m hm
  have hsafe' : ∀ done s'', done ⊆ selected →
      Fs.Editing s' .rejected (edits (·.id) (fun _ => none) done) s'' → Safe strict maxBytes kept s'' := by
    intro done s'' hsub hedit'
    refine safe_of_editing hedit' hrec.clean fun T hsame hdir => ?_
    refine hrec.sound.unlinkRejected hsame fun n => (hdir n).imp_right ?_
    rintro ⟨v, hv, hT⟩
    obtain ⟨m, hm, he⟩ := record_of_mem_edits hv
    cases he
    exact ⟨m.id, rfl, hroll' m (hsub hm), hT⟩
  refine Prog.wp_bind.mpr (removeAll_sure Metadata.id hrec.settled hnd hrej' hsafe' fun s₂ hedit' => ?_)
  have hsafe₂ := hsafe' selected s₂ (List.Subset.refl _) hedit'
  have himage₂ : s₂.image = evicted s.image (selected.map fun m => .record m.id) := by
    rw [hedit'.image, himage]
    funext d n
    cases d with
    | rejected => rw [Function.update_self, on_edits]; rfl
    | parent | root | rollover => rfl
  refine Prog.wp_bind.mpr (sure_step_ok rfl hsafe₂ ⟨⟨_, rfl⟩, inv_of_editing ?_ ?_ hedit' ?_ hsafe₂ ?_, ?_, ?_⟩)
  · rw [himage]
    exact h.ready
  · rw [himage]
    exact h.lock
  · intro e he
    obtain ⟨m, -, rfl⟩ := record_of_mem_edits he
    exact ⟨m.id, rfl⟩
  · rw [himage₂]
    exact separate_evicted h.separate _
  · show s₂.files = s.files
    rw [hedit'.files, hfiles]
  · rw [Fs.image_synced, himage₂]

/-- What `makeRejectedRoomLocked` selects: rejected records without which the
incoming one fits. -/
theorem toRollover_ok (h : Inv strict q.maxBytes kept s) {incoming : Nat} (hin : incoming ≤ q.maxBytes) :
    ∃ chosen rest, (chosen ++ rest).Perm (metas s .rejected) ∧ q.toRollover incoming s = .ok chosen ∧
      rest.length < maxRejectedEntries ∧ (rest.map (·.size)).sum + incoming ≤ q.maxBytes := by
  have hscan := scannable_of_sound h.sound h.separate
  obtain ⟨-, hrn, -⟩ := nodup_liveOrders.mp hscan.orders
  have husage : q.rejectedUsage s = .ok _ :=
    rejectedUsage_ok_iff.mpr ⟨hscan.rejectedCount, hscan.rejected, hrn, hscan.rejectedBytes, rfl⟩
  have hperm := perm_sortByOrder (metas s .rejected)
  have htotal : totalSize s.files (entriesOf s .rejected) = ((sortByOrder (metas s .rejected)).map (·.size)).sum := by
    rw [totalSize_eq_describe hscan.rejected, (hperm.map _).sum_eq, metas]
  have hfree : ∀ m ∈ sortByOrder (metas s .rejected), present .rollover (.record m.id) s = false := by
    intro m hm
    obtain ⟨i, r, hi, -, -⟩ := image_of_mem_metas hscan.rejected (hperm.mem_iff.mp hm)
    rw [present, (h.separate.rejected m.id).resolve_left (by rw [hi]; exact Option.some_ne_none i)]
    rfl
  obtain ⟨chosen, rest, happ, hsel, hlen, hsum⟩ :=
    selectOldest_ok (fun id => present .rollover (.record id) s) hin hfree htotal
  refine ⟨chosen, rest, happ ▸ hperm, ?_, hlen, hsum⟩
  rw [toRollover, husage]
  dsimp only
  rw [if_neg (Nat.not_lt.mpr hin), hsel]

/-- What remains in rejected after the eviction. -/
theorem rejected_after_eviction (h : Readable s.files (entriesOf s .rejected)) {chosen rest : List Metadata}
    (hperm : (chosen ++ rest).Perm (metas s .rejected)) {s' : Disk P} (hfiles : s'.files = s.files)
    (himage : s'.image = evicted s.image (chosen.map fun m => .record m.id)) :
    (entriesOf s' .rejected).length ≤ rest.length ∧
      totalSize s'.files (entriesOf s' .rejected) ≤ (rest.map (·.size)).sum := by
  have hold : ∀ e ∈ entriesOf s' .rejected,
      e ∈ entriesOf s .rejected ∧ e.1 ∉ chosen.map fun m => Name.record m.id := by
    rintro ⟨n, i⟩ he
    have hi := mem_entriesOf.mp he
    rw [himage, evicted] at hi
    by_cases hn : n ∈ chosen.map fun m => Name.record m.id
    · rw [if_pos hn] at hi
      exact nomatch hi
    · rw [if_neg hn] at hi
      exact ⟨mem_entriesOf.mpr hi, hn⟩
  have hread : Readable s'.files (entriesOf s' .rejected) := by
    intro e he
    rw [hfiles]
    exact h e (hold e he).1
  have hsub : metas s' .rejected ⊆ rest := by
    intro m hm
    obtain ⟨e, he, rfl⟩ := List.mem_map.mp hm
    obtain ⟨hmem, hn⟩ := hold e he
    obtain ⟨r, hr⟩ := h e hmem
    have hd : describe s.files e ∈ chosen ++ rest := hperm.mem_iff.mpr (List.mem_map_of_mem hmem)
    rw [hfiles]
    refine (List.mem_append.mp hd).resolve_left fun hc => hn ?_
    exact List.mem_map.mpr ⟨_, hc, by rw [hr.describe_eq, hr.name]⟩
  have hnd : (metas s' .rejected).Nodup := (nodup_ids_metas hread).of_map _
  obtain ⟨h1, h2⟩ := within_of_subset (·.size) hnd hsub
  rw [metas, List.length_map] at h1
  rw [metas, ← totalSize_eq_describe hread] at h2
  exact ⟨h1, h2⟩

/-- The evictions that a quarantine of `id` would make leave rollover within its
limit. -/
def Room (q : Queue) (id : Uuid) (s : Disk P) : Prop :=
  ∀ size chosen, recordSize id s = .ok size → q.toRollover size s = .ok chosen →
    (entriesOf s .rollover).length + chosen.length ≤ maxRejectedEntries

theorem makeRejectedRoom_sure (h : Inv strict q.maxBytes kept s) {incoming : Nat} (hin : incoming ≤ q.maxBytes)
    (hroom : ∀ chosen, q.toRollover incoming s = .ok chosen →
      (entriesOf s .rollover).length + chosen.length ≤ maxRejectedEntries) :
    Sure (Safe strict q.maxBytes kept) (q.makeRejectedRoom incoming)
      (fun r s' => (∃ ids, r = .ok ids) ∧ Inv strict q.maxBytes kept s' ∧ s'.files = s.files ∧
        (∃ names, s'.image = evicted s.image names) ∧
        (entriesOf s' .rejected).length < maxRejectedEntries ∧
        totalSize s'.files (entriesOf s' .rejected) + incoming ≤ q.maxBytes) s := by
  obtain ⟨chosen, rest, hperm, hsel, hlen, hsum⟩ := toRollover_ok h hin
  have hcount := hroom chosen hsel
  have hread : Readable s.files (entriesOf s .rejected) := (scannable_of_sound h.sound h.separate).rejected
  refine Prog.wp_bind.mpr (sure_read h.safe ?_)
  rw [hsel]
  -- the state after the eviction has room
  have hafter : ∀ s' : Disk P, s'.files = s.files → s'.image = evicted s.image (chosen.map fun m => .record m.id) →
      (entriesOf s' .rejected).length < maxRejectedEntries ∧
        totalSize s'.files (entriesOf s' .rejected) + incoming ≤ q.maxBytes := by
    intro s' hfiles himage
    obtain ⟨h1, h2⟩ := rejected_after_eviction hread hperm hfiles himage
    omega
  cases chosen with
  | nil =>
    have himage : s.image = evicted s.image [] := by
      funext d n
      cases d <;> simp [evicted]
    exact ⟨⟨_, rfl⟩, h, rfl, ⟨[], himage⟩, hafter s rfl himage⟩
  | cons oldest more =>
    have hmem : ∀ m ∈ oldest :: more, m ∈ metas s .rejected :=
      fun m hm => hperm.mem_iff.mp (List.mem_append_left _ hm)
    have hnd : ((oldest :: more).map (·.id)).Nodup := by
      have := (hperm.map (·.id)).nodup_iff.mpr (nodup_ids_metas hread)
      rw [List.map_append] at this
      exact this.of_append_left
    refine Prog.wp_mono (evict_sure h (fun m hm => ?_) hnd hcount) ?_
    · obtain ⟨i, r, hi, -, -⟩ := image_of_mem_metas hread (hmem m hm)
      rw [hi]
      exact Option.some_ne_none i
    · rintro r s' ⟨hr, hinv, hfiles, himage⟩
      exact ⟨hr, hinv, hfiles, ⟨_, himage⟩, hafter s' hfiles himage⟩

theorem quarantine_sure (h : Inv strict q.maxBytes kept s) (hmax : maxRecordBytes ≤ q.maxBytes)
    (ctx : Option ContextError) {id : Uuid} (hnroll : s.image .rollover (.record id) = none)
    (hroom : Room q id s) :
    Sure (Safe strict q.maxBytes kept) (q.quarantine ctx id) (fun r s' => Inv strict q.maxBytes kept s' ∧ match r with
      | .ok result => result.outcome = .ok ()
      | .error _ => s' = s) s := by
  refine Prog.wp_bind.mpr (sure_ready ?_ fun _ => ⟨h, rfl⟩)
  refine Prog.wp_bind.mpr (Prog.wp_require.mpr ⟨fun _ => ?_, fun _ => ⟨h, rfl⟩⟩)
  refine Prog.wp_bind.mpr (sure_read h.safe ?_)
  cases hitem : readItem .root id s with
  | error e => exact ⟨h, rfl⟩
  | ok r =>
    refine Prog.wp_bind.mpr (sure_step_ok rfl h.safe ?_)
    refine Prog.wp_bind.mpr (Prog.wp_require.mpr ⟨fun _ => ?_, fun _ => ⟨h, rfl⟩⟩)
    refine Prog.wp_bind.mpr (sure_read h.safe ?_)
    cases hsize : recordSize id s with
    | error e => exact ⟨h, rfl⟩
    | ok size =>
      obtain ⟨i, hi, hsz, hle⟩ : ∃ i, s.image .root (.record id) = some i ∧ (s.files i).size = size ∧
          size ≤ maxRecordBytes := by
        unfold recordSize at hsize
        cases hi : s.image .root (.record id) with
        | none => simp only [hi] at hsize; cases hsize
        | some i =>
          simp only [hi] at hsize
          split at hsize
          · cases hsize
          · cases hsize
            exact ⟨i, rfl, rfl, by omega⟩
      refine Prog.wp_bind.mpr (Prog.wp_mono
        (makeRejectedRoom_sure h (Nat.le_trans hle hmax) fun chosen => hroom size chosen hsize) ?_)
      rintro r' s' ⟨⟨ids, rfl⟩, hinv, hfiles, ⟨names, himage⟩, hcount, hbytes⟩
      have hnrej : s.image .rejected (.record id) = none :=
        (h.separate.root id).resolve_left (by rw [hi]; exact Option.some_ne_none i)
      refine Prog.wp_bind.mpr (Prog.wp_attempt.mpr (Prog.wp_mono
        (moveToRejected_sure hinv (i := i) ?_ ?_ hcount ?_) ?_))
      · rw [himage]
        exact hi
      · rw [himage, evicted, hnrej, hnroll, ite_self]
      · rw [hfiles] at hbytes ⊢
        omega
      · rintro r'' s'' ⟨rfl, hinv'⟩
        exact ⟨hinv', rfl⟩

end Quarantine

end NorthgateRmm.Agent.Spool
