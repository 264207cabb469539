import NorthgateRmm.Agent.Spool.Operations

/-!
# Open recovers

From every image a crash can leave, `Open` creates what is missing, completes
the interrupted moves and accepts the result. It can itself be stopped at any
step.
-/

namespace NorthgateRmm.Agent.Spool

open CrashFs Queue

variable {P : Type} [Payload P]
variable {strict : Prop} {maxBytes : Nat} {kept : List (Record P)} {s : Disk P} {q : Queue}

/-! ## Completing interrupted moves -/

theorem interrupted_ok {source destination : Place} {records : List Metadata}
    (hsame : ∀ m ∈ records, ∀ i, s.image source (.record m.id) = some i →
      s.image destination (.record m.id) = some i) :
    interrupted source destination s records =
      .ok ((records.filter fun m => present source (.record m.id) s).map (·.id)) := by
  induction records with
  | nil => rfl
  | cons m ms ih =>
    have ih := ih fun m' hm' => hsame m' (List.mem_cons_of_mem _ hm')
    rw [interrupted]
    cases hi : s.image source (.record m.id) with
    | none =>
      rw [List.filter_cons_of_neg (by simp [present, hi])]
      exact ih
    | some i =>
      rw [List.filter_cons_of_pos (by simp [present, hi])]
      dsimp only
      rw [if_pos (hsame m List.mem_cons_self i hi), ih]
      rfl

/-- A recovery function removes every record from its source that is linked in
its destination. -/
theorem recoverLinks_sure (h : Recoverable strict maxBytes kept s) (source destination : Place)
    (hne : source ≠ destination)
    {usage : Disk P → Except Error (List Metadata)} {blame : List Metadata → Uuid → Uuid}
    (husage : usage s = .ok (metas s destination)) (hread : Readable s.files (entriesOf s destination))
    (hsame : ∀ id i j, s.image source (.record id) = some i → s.image destination (.record id) = some j → i = j)
    (hunlink : ∀ T : Image, (∀ d, d ≠ source → T d = s.image d) →
      (∀ n, T source n = s.image source n ∨
        ∃ id, n = .record id ∧ s.image destination n ≠ none ∧ T source n = none) →
      Sound strict maxBytes s.files s.next kept T) :
    Sure (Safe strict maxBytes kept) (recoverLinks source destination usage blame)
      (fun r s' => r = .ok () ∧ Recoverable strict maxBytes kept s' ∧
        (∀ d, d ≠ source → s'.image d = s.image d) ∧
        (∀ n, s'.image source n = s.image source n ∨ (∃ id, n = .record id) ∧ s'.image source n = none) ∧
        ∀ id, s'.image source (.record id) = none ∨ s'.image destination (.record id) = none) s := by
  have hsame' : ∀ m ∈ metas s destination, ∀ i, s.image source (.record m.id) = some i →
      s.image destination (.record m.id) = some i := by
    intro m hm i hi
    obtain ⟨j, -, hj, -, -⟩ := image_of_mem_metas hread hm
    rw [hj, hsame _ i j hi hj]
  have hids := interrupted_ok hsame'
  have hmem : ∀ id, id ∈ ((metas s destination).filter fun m => present source (.record m.id) s).map (·.id) ↔
      s.image source (.record id) ≠ none ∧ s.image destination (.record id) ≠ none := by
    intro id
    simp only [List.mem_map, List.mem_filter, present, Option.isSome_iff_ne_none]
    constructor
    · rintro ⟨m, ⟨hm, hsrc⟩, rfl⟩
      obtain ⟨j, -, hj, -, -⟩ := image_of_mem_metas hread hm
      exact ⟨hsrc, by rw [hj]; exact Option.some_ne_none j⟩
    · rintro ⟨hsrc, hdst⟩
      obtain ⟨m, hm, rfl⟩ := mem_ids_metas hread hdst
      exact ⟨m, ⟨hm, hsrc⟩, rfl⟩
  have hnd : (((metas s destination).filter fun m => present source (.record m.id) s).map (·.id)).Nodup :=
    (nodup_ids_metas hread).sublist (List.filter_sublist.map _)
  refine Prog.wp_bind.mpr (sure_read h.safe ?_)
  simp only [husage, hids]
  generalize ((metas s destination).filter fun m => present source (.record m.id) s).map (·.id) = ids at hmem hnd
  cases ids with
  | nil =>
    refine ⟨rfl, h, fun _ _ => rfl, fun _ => Or.inl rfl, fun id => ?_⟩
    by_contra hboth
    rw [not_or] at hboth
    exact absurd ((hmem id).mpr hboth) List.not_mem_nil
  | cons first more =>
    have hrec : Recoverable strict maxBytes kept (s.synced destination) :=
      ⟨h.settled.synced destination, h.clean, by rw [Fs.image_synced]; exact h.sound⟩
    have himage : (s.synced destination).image = s.image := Fs.image_synced s destination
    refine Prog.wp_bind.mpr (sure_step_ok rfl h.safe ?_)
    have hfiles : (s.synced destination).files = s.files := rfl
    have hnext : (s.synced destination).next = s.next := rfl
    generalize s.synced destination = s₁ at hrec himage hfiles hnext
    have hsafe : ∀ done s', done ⊆ first :: more →
        Fs.Editing s₁ source (edits id (fun _ => none) done) s' → Safe strict maxBytes kept s' := by
      intro done s' hsub hedit
      refine safe_of_editing hedit hrec.clean fun T hsm hdir => ?_
      rw [hfiles, hnext]
      rw [himage] at hsm hdir
      refine hunlink T hsm fun n => (hdir n).imp_right ?_
      rintro ⟨v, hv, hT⟩
      obtain ⟨id, hid, he⟩ := record_of_mem_edits hv
      cases he
      exact ⟨id, rfl, ((hmem id).mp (hsub hid)).2, hT⟩
    refine Prog.wp_bind.mpr (removeAll_sure id hrec.settled (by rwa [List.map_id]) (fun id hid => ?_)
      hsafe fun s₂ hedit => ?_)
    · rw [himage]
      exact ((hmem id).mp hid).1
    · have hsafe₂ := hsafe _ s₂ (List.Subset.refl _) hedit
      have hother : ∀ d, d ≠ source → s₂.image d = s.image d := by
        intro d hd
        rw [hedit.image, Function.update_of_ne hd, himage]
      have hsrc : ∀ n, s₂.image source n =
          if n ∈ (first :: more).map Name.record then none else s.image source n := by
        intro n
        rw [hedit.image, Function.update_self, on_edits, himage]
        rfl
      refine sure_step_ok rfl hsafe₂ ⟨rfl, recoverable_of_editing hedit hsafe₂, ?_, fun n => ?_, fun id => ?_⟩
      · rw [Fs.image_synced]
        exact hother
      · rw [Fs.image_synced, hsrc n]
        split
        next hn =>
          obtain ⟨id, -, rfl⟩ := List.mem_map.mp hn
          exact Or.inr ⟨⟨id, rfl⟩, rfl⟩
        next => exact Or.inl rfl
      · rw [Fs.image_synced, hsrc, hother destination hne.symm]
        by_cases hid : id ∈ first :: more
        · exact Or.inl (if_pos (List.mem_map_of_mem hid))
        · rw [if_neg]
          · by_contra hboth
            rw [not_or] at hboth
            exact hid ((hmem id).mpr hboth)
          · rintro hm
            obtain ⟨id', hid', he⟩ := List.mem_map.mp hm
            exact hid (Name.record.inj he ▸ hid')

/-- An interrupted eviction is completed. -/
theorem recoverRolloverLinks_sure (h : Recoverable strict maxBytes kept s) :
    Sure (Safe strict maxBytes kept) recoverRolloverLinks
      (fun r s' => r = .ok () ∧ Recoverable strict maxBytes kept s' ∧
        (∀ d, d ≠ .rejected → s'.image d = s.image d) ∧
        ∀ id, s'.image .rejected (.record id) = none ∨ s'.image .rollover (.record id) = none) s := by
  have hread := readable_of_consistent h.sound.consistent (d := .rollover) nofun nofun
  have husage : rolloverUsage s = .ok (metas s .rollover) :=
    rolloverUsage_ok_iff.mpr ⟨rolloverCount (q := { maxBytes }) h.sound, hread,
      nodup_orders_metas h.sound.consistent nofun nofun, rfl⟩
  refine Prog.wp_mono (recoverLinks_sure h .rejected .rollover nofun husage hread h.sound.consistent.evicting
    fun T hsame hdir => h.sound.unlinkRejected hsame hdir) ?_
  rintro r s' ⟨hr, hrec, hother, -, hsep⟩
  exact ⟨hr, hrec, hother, hsep⟩

/-- An interrupted quarantine is completed. -/
theorem recoverQuarantineLinks_sure (h : Recoverable strict q.maxBytes kept s)
    (hsep : ∀ id, s.image .rejected (.record id) = none ∨ s.image .rollover (.record id) = none)
    (hready : Ready s.image) (hlock : s.image .root .lock ≠ none) :
    Sure (Safe strict q.maxBytes kept) q.recoverQuarantineLinks
      (fun r s' => r = .ok () ∧ Inv strict q.maxBytes kept s') s := by
  have hread := readable_of_consistent h.sound.consistent (d := .rejected) (by decide) (by decide)
  obtain ⟨hcount, hbytes⟩ := rejectedFits h.sound hsep
  have husage : q.rejectedUsage s = .ok _ := rejectedUsage_ok_iff.mpr
    ⟨hcount, hread, nodup_orders_metas h.sound.consistent (by decide) (by decide), hbytes, rfl⟩
  refine Prog.wp_mono (recoverLinks_sure h .root .rejected (by decide) (by rw [husage]; rfl) hread h.sound.consistent.moving
    fun T hsame hdir => h.sound.unlinkRoot hsame hdir) ?_
  rintro r s' ⟨hr, hrec, hother, hroot, hsep'⟩
  have hfixed : ∀ n, (∀ id, n ≠ .record id) → s'.image .root n = s.image .root n := by
    intro n hn
    rcases hroot n with heq | ⟨⟨id, hid⟩, -⟩
    · exact heq
    · exact absurd hid (hn id)
  refine ⟨hr, hrec.settled, hrec.clean, hrec.sound, ⟨hsep', fun id => ?_⟩, ?_, ?_⟩
  · rw [hother .rejected (by decide), hother .rollover (by decide)]
    exact hsep id
  · rw [Ready, hother .parent (by decide), hfixed .rejected (fun _ h => by cases h), hfixed .rollover (fun _ h => by cases h)]
    exact hready
  · rw [hfixed .lock (fun _ h => by cases h)]
    exact hlock

/-! ## Creating what is missing -/

section Create

variable {files : Nat → Content P} {next : Nat} {S T : Image}

/-- An image with the records of another and proper fixed names. -/
theorem Sound.of_records (h : Sound strict maxBytes files next kept S)
    (hrec : ∀ d id, d ≠ .parent → T d (.record id) = S d (.record id))
    (hentry : ∀ d n i, d ≠ .parent → (∀ id, n ≠ .record id) → T d n = some i → d = .root ∧ n.isData = false)
    (hlock : ∀ i, T .root .lock = some i → files i = .blank) (hready : Ready S → Ready T)
    (hbound : ∀ d n i, T d n = some i → i < next) : Sound strict maxBytes files next kept T where
  consistent := {
    entry d n i hp hi := by
      by_cases hn : ∃ id, n = .record id
      · obtain ⟨id, rfl⟩ := hn
        rw [hrec d id hp] at hi
        exact h.consistent.entry d _ i hp hi
      · exact Or.inr (hentry d n i hp (not_exists.mp hn) hi)
    lock := hlock
    evicting id i j hi hj := h.consistent.evicting id i j (hrec .rejected id nofun ▸ hi) (hrec .rollover id nofun ▸ hj)
    moving id i j hi hj := h.consistent.moving id i j (hrec .root id nofun ▸ hi) (hrec .rejected id nofun ▸ hj)
    apart id i j hi hj := h.consistent.apart id i j (hrec .root id nofun ▸ hi) (hrec .rollover id nofun ▸ hj)
    orders d d' id id' i i' r r' hp hp' hi hi' hr hr' ho :=
      h.consistent.orders d d' id id' i i' r r' hp hp' (hrec d id hp ▸ hi) (hrec d' id' hp' ▸ hi') hr hr' ho }
  fits := {
    active := by
      obtain ⟨A, h1, h2, h3⟩ := h.fits.active
      exact ⟨A, h1, h2, fun id i hi hn => h3 id i (hrec .root id nofun ▸ hi) (hrec .rejected id nofun ▸ hn)⟩
    rejected := by
      obtain ⟨R, h1, h2, h3⟩ := h.fits.rejected
      exact ⟨R, h1, h2, fun id i hi hn => h3 id i (hrec .rejected id nofun ▸ hi) (hrec .rollover id nofun ▸ hn)⟩
    rollover := by
      obtain ⟨V, h1, h2⟩ := h.fits.rollover
      exact ⟨V, h1, fun id i hi => h2 id i (hrec .rollover id nofun ▸ hi)⟩ }
  laid := h.laid.imp hready fun hno d id hd => by rw [hrec d id hd, hno d id hd]
  covers r hr := by
    obtain ⟨d, i, hd, hi, hfile⟩ := h.covers r hr
    exact ⟨d, i, hd, by rw [hrec d r.id hd, hi], hfile⟩
  bounded := hbound

/-- A new entry that is no record: the spool directory in its parent, or a fixed
name of the spool directory. -/
theorem Sound.withName (h : Sound strict maxBytes files next kept S) {d : Place} {n : Name} {i : Nat}
    (hd : d = .parent ∨ d = .root ∧ n.isData = false ∧ (n = .lock → files i = .blank)) (hi : i < next)
    (hT : T = Function.update S d (Function.update (S d) n (some i))) :
    Sound strict maxBytes files next kept T := by
  have hcases : ∀ d' m j, T d' m = some j → (d' = d ∧ m = n ∧ j = i) ∨ S d' m = some j := by
    intro d' m j hj
    rw [hT] at hj
    by_cases hd' : d' = d
    · subst hd'
      rw [Function.update_self] at hj
      by_cases hm : m = n
      · subst hm
        rw [Function.update_self] at hj
        exact Or.inl ⟨rfl, rfl, (Option.some.inj hj).symm⟩
      · rw [Function.update_of_ne hm] at hj
        exact Or.inr hj
    · rw [Function.update_of_ne hd'] at hj
      exact Or.inr hj
  have hsome : ∀ d' m, S d' m ≠ none → T d' m ≠ none := by
    intro d' m hS
    rw [hT]
    by_cases hd' : d' = d
    · subst hd'
      rw [Function.update_self]
      by_cases hm : m = n
      · subst hm
        rw [Function.update_self]
        exact Option.some_ne_none i
      · rwa [Function.update_of_ne hm]
    · rwa [Function.update_of_ne hd']
  refine h.of_records (fun d' id hp => ?_) (fun d' m j hp hm hj => ?_) (fun j hj => ?_)
    (fun hr => ⟨hsome _ _ hr.1, hsome _ _ hr.2.1, hsome _ _ hr.2.2⟩) (fun d' m j hj => ?_)
  · rw [hT]
    by_cases hd' : d' = d
    · subst hd'
      rcases hd with rfl | ⟨rfl, hn, -⟩
      · exact absurd rfl hp
      · rw [Function.update_self, Function.update_of_ne]
        rintro rfl
        exact nomatch hn
    · rw [Function.update_of_ne hd']
  · rcases hcases d' m j hj with ⟨rfl, rfl, -⟩ | hj
    · rcases hd with rfl | ⟨rfl, hn, -⟩
      · exact absurd rfl hp
      · exact ⟨rfl, hn⟩
    · rcases h.consistent.entry d' m j hp hj with ⟨r, hr⟩ | hfixed
      · exact absurd hr.name (hm r.id)
      · exact hfixed
  · rcases hcases _ _ j hj with ⟨hdr, hn, rfl⟩ | hj
    · rcases hd with rfl | ⟨-, -, hblank⟩
      · exact nomatch hdr
      · exact hblank hn.symm
    · exact h.consistent.lock j hj
  · rcases hcases d' m j hj with ⟨-, -, rfl⟩ | hj
    · exact hi
    · exact h.bounded d' m j hj

/-- A subdirectory without records is empty. -/
theorem Sound.empty (h : Sound strict maxBytes files next kept T) (hno : NoRecords T) {d : Place}
    (hp : d ≠ .parent) (hd : d ≠ .root) : T d = fun _ => none := by
  funext n
  cases hi : T d n with
  | none => rfl
  | some i =>
    rcases h.consistent.entry d n i hp hi with ⟨r, hr⟩ | ⟨hroot, -⟩
    · rw [show n = .record r.id from hr.name, hno d r.id hp] at hi
      exact nomatch hi
    · exact absurd hroot hd

theorem Sound.noRecords (h : Sound strict maxBytes files next kept T) (hr : ¬ Ready T) : NoRecords T :=
  h.laid.resolve_left hr

end Create

/-- The spool directory is new and empty. -/
theorem safe_made_spool (h : Recoverable strict maxBytes kept s) (hspool : s.image .parent .spool = none) :
    Safe strict maxBytes kept (s.madeDir .parent .spool .root) := by
  have hno : NoRecords s.image := h.sound.noRecords fun hr => hr.1 hspool
  refine ⟨h.clean, fun T hT => ?_⟩
  obtain ⟨hroot, hother, hparent⟩ := h.settled.of_madeDir (by decide) hT
  replace hother : ∀ d, d ≠ .root → d ≠ .parent → T d = s.image d := fun d hd hp => hother d hp hd
  have hbefore := h.sound.congr_files (fun _ _ => rfl) (Nat.le_succ s.next)
  have hempty : ∀ n i, T .root n ≠ some i := by
    intro n i
    rw [hroot]
    exact nofun
  refine hbefore.of_records (fun d id hp => ?_) (fun d n i hp hn hi => ?_) (fun i hi => absurd hi (hempty _ i))
    (fun hr => absurd hspool hr.1) (fun d n i hi => ?_)
  · by_cases hd : d = .root
    · rw [hd, hroot, hno .root id nofun]
    · rw [hother d hd hp]
  · by_cases hd : d = .root
    · subst hd
      exact absurd hi (hempty n i)
    · rw [hother d hd hp] at hi
      rcases h.sound.consistent.entry d n i hp hi with ⟨r, hr⟩ | ⟨hroot, -⟩
      · exact absurd hr.name (hn r.id)
      · exact absurd hroot hd
  · by_cases hd : d = .root
    · subst hd
      exact absurd hi (hempty n i)
    · by_cases hp : d = .parent
      · subst hp
        rcases hparent with heq | heq
        · rw [heq] at hi
          exact hbefore.bounded .parent n i hi
        · rw [heq] at hi
          by_cases hn : n = .spool
          · rw [hn, Function.update_self] at hi
            exact Option.some.inj hi ▸ Nat.lt_succ_self s.next
          · rw [Function.update_of_ne hn] at hi
            exact hbefore.bounded .parent n i hi
      · rw [hother d hd hp] at hi
        exact hbefore.bounded d n i hi

variable (strict maxBytes kept) in
/-- While the spool directory is completed, only its fixed names are pending. -/
structure Completing (s : Disk P) : Prop where
  clean : s.dirty = []
  sound : ∀ T, s.MayBe T → Sound strict maxBytes s.files s.next kept T
  still : ∀ T, s.MayBe T → ∀ d, d ≠ .root → T d = s.image d
  spool : s.image .parent .spool ≠ none

theorem Completing.safe (h : Completing strict maxBytes kept s) : Safe strict maxBytes kept s := ⟨h.clean, h.sound⟩

theorem Recoverable.completing (h : Recoverable strict maxBytes kept s) (hspool : s.image .parent .spool ≠ none) :
    Completing strict maxBytes kept s where
  clean := h.clean
  sound := h.safe.2
  still T hT d _ := by rw [h.settled T hT]
  spool := hspool

theorem Completing.recoverable (h : Completing strict maxBytes kept s) :
    Recoverable strict maxBytes kept (s.synced .root) where
  settled T hT := by
    obtain ⟨hT, hroot⟩ := hT.of_synced
    rw [Fs.image_synced]
    funext d
    by_cases hd : d = .root
    · rw [hd, hroot]
    · exact h.still T hT d hd
  clean := h.clean
  sound := by rw [Fs.image_synced]; exact h.sound _ s.mayBe_image

/-- A fixed name is added. -/
theorem Completing.named (h : Completing strict maxBytes kept s) {s' : Disk P} {n : Name} (hn : n.isData = false)
    (hfiles : ∀ i < s.next, s'.files i = s.files i) (hblank : n = .lock → s'.files s.next = .blank)
    (hdirty : s'.dirty = s.dirty) (hnext : s'.next = s.next + 1)
    (himage : s'.image = (s.edit .root [(n, some s.next)]).image)
    (hmay : ∀ T, s'.MayBe T → (s.edit .root [(n, some s.next)]).MayBe T) :
    Completing strict maxBytes kept s' := by
  rw [Fs.image_edit] at himage
  refine ⟨hdirty.trans h.clean, fun T hT => ?_, fun T hT d hd => ?_, ?_⟩
  · rcases (hmay T hT).of_edit with hT | ⟨T₀, hT₀, rfl⟩
    · exact (h.sound T hT).congr_files hfiles (by omega)
    · exact ((h.sound T₀ hT₀).congr_files hfiles (by omega)).withName (Or.inr ⟨rfl, hn, hblank⟩) (by omega) rfl
  · rw [himage, Function.update_of_ne hd]
    rcases (hmay T hT).of_edit with hT | ⟨T₀, hT₀, rfl⟩
    · exact h.still T hT d hd
    · rw [Function.update_of_ne hd]
      exact h.still T₀ hT₀ d hd
  · rw [himage, Function.update_of_ne (by decide)]
    exact h.spool

/-! ## Open -/

theorem acquireDirectoryLock_sure (h : Completing strict maxBytes kept s) :
    Sure (Safe strict maxBytes kept) (acquireDirectoryLock false)
      (fun r s' => r = .ok () ∧ Completing strict maxBytes kept s' ∧ s'.image .root .lock ≠ none) s := by
  have hcreated : Sure (Safe strict maxBytes kept)
      (Prog.ifNot (present .root .lock s) do
        let _ ← step (.create .root .lock .blank) (Error.failed "open lock"))
      (fun r s' => r = .ok () ∧ Completing strict maxBytes kept s' ∧ s'.image .root .lock ≠ none) s := by
    refine Prog.wp_ifNot.mpr ⟨fun hfound => ⟨rfl, h, ?_⟩, fun hfound => ?_⟩
    · exact Option.isSome_iff_ne_none.mp hfound
    · have hnone : s.image .root .lock = none := Option.not_isSome_iff_eq_none.mp (Bool.eq_false_iff.mp hfound)
      refine Prog.wp_bind.mpr (sure_step_ok (Fs.exec_create _ hnone) h.safe ⟨rfl, ?_, ?_⟩)
      · refine h.named (n := .lock) rfl (fun i hi => ?_) (fun _ => ?_) rfl rfl rfl fun _ hT => hT
        · exact Function.update_of_ne (by omega) _ _
        · exact Function.update_self ..
      · show (s.edit .root [(.lock, some s.next)]).image .root .lock ≠ none
        rw [Fs.image_edit, Function.update_self, Change.on_set, Function.update_self]
        exact Option.some_ne_none _
  refine Prog.wp_bind.mpr (sure_step_ok rfl h.safe ?_)
  refine Prog.wp_bind.mpr (Prog.wp_mono hcreated ?_)
  rintro r s' ⟨rfl, hs', hlock⟩
  have hsize : (lockSize s' == 0) = true := by
    obtain ⟨i, hi⟩ := Option.ne_none_iff_exists'.mp hlock
    rw [lockSize, hi, Option.map_some, (hs'.sound _ s'.mayBe_image).consistent.lock i hi]
    rfl
  refine Prog.wp_bind.mpr (sure_step_ok rfl hs'.safe ?_)
  refine Prog.wp_bind.mpr (Prog.wp_require.mpr ⟨fun _ => ?_, fun hne => ?_⟩)
  · exact Prog.wp_bind.mpr (sure_step_ok rfl hs'.safe ⟨rfl, hs', hlock⟩)
  · rw [hsize] at hne
    exact nomatch hne

/-- A subdirectory can only be missing while there are no records. -/
theorem openSubdirectory_sure (h : Completing strict maxBytes kept s) {name : Name} {place : Place} (label : String)
    (hplace : name = .rejected ∧ place = .rejected ∨ name = .rollover ∧ place = .rollover) :
    Sure (Safe strict maxBytes kept) (openSubdirectory name place label)
      (fun r s' => r = .ok () ∧ Completing strict maxBytes kept s' ∧ s'.image .root name ≠ none ∧
        ∀ n, s.image .root n ≠ none → s'.image .root n ≠ none) s := by
  have hp : place ≠ .parent ∧ .root ≠ place := by grind
  have hn : name.isData = false ∧ name ≠ .lock := by grind [Name.isData]
  refine Prog.wp_bind.mpr (sure_step_ok rfl h.safe ?_)
  by_cases hfound : s.image .root name = none
  · -- no records anywhere, so the new directory is as empty as the old one
    have hno : NoRecords s.image := (h.sound _ s.mayBe_image).noRecords (by
      rintro ⟨-, hj, hv⟩
      rcases hplace with ⟨rfl, -⟩ | ⟨rfl, -⟩
      · exact hj hfound
      · exact hv hfound)
    have hempty := (h.sound _ s.mayBe_image).empty hno hp.1 hp.2.symm
    have himage : (s.madeDir .root name place).image = (s.edit .root [(name, some s.next)]).image := by
      rw [Fs.image_madeDir s name hp.2, Fs.image_edit, Change.on_set, ← hempty]
      funext d
      by_cases hd : d = place
      · rw [hd, Function.update_self, Function.update_of_ne hp.2.symm]
      · rw [Function.update_of_ne hd]
    have hs₁ : Completing strict maxBytes kept (s.madeDir .root name place) := by
      refine h.named (n := name) hn.1 (fun _ _ => rfl) (fun hl => absurd hl hn.2) rfl rfl himage fun T hT => ?_
      obtain ⟨hplace, hT⟩ := Fs.MayBe.of_madeDir hp.2 hT
      rwa [hempty, ← hplace, Function.update_eq_self] at hT
    have hnamed : ∀ n, (n = name ∨ s.image .root n ≠ none) →
        ((s.madeDir .root name place).synced .root).image .root n ≠ none := by
      intro n hn
      rw [Fs.image_synced, himage, Fs.image_edit, Function.update_self, Change.on_set]
      by_cases hname : n = name
      · rw [hname, Function.update_self]
        exact Option.some_ne_none _
      · rw [Function.update_of_ne hname]
        exact hn.resolve_left hname
    have hs₂ : Completing strict maxBytes kept ((s.madeDir .root name place).synced .root) :=
      hs₁.recoverable.completing (by rw [Fs.image_synced]; exact hs₁.spool)
    refine Prog.wp_bind.mpr (Prog.wp_ifNot.mpr ⟨fun hb => ?_, fun _ => ?_⟩)
    · exact absurd hfound (Option.isSome_iff_ne_none.mp hb)
    · refine Prog.wp_bind.mpr (sure_step_ok (Fs.exec_mkdir _ hfound) h.safe ?_)
      refine sure_step_ok rfl hs₁.safe ?_
      exact sure_step_ok rfl hs₂.safe ⟨rfl, hs₂, hnamed name (Or.inl rfl), fun n hn => hnamed n (Or.inr hn)⟩
  · refine Prog.wp_bind.mpr (Prog.wp_ifNot.mpr ⟨fun _ => ?_, fun hb => ?_⟩)
    · exact sure_step_ok rfl h.safe ⟨rfl, h, hfound, fun _ hn => hn⟩
    · exact absurd (Option.not_isSome_iff_eq_none.mp (Bool.eq_false_iff.mp hb)) hfound

/-- The spool directory is there and durable in its parent. -/
theorem makeSpool_sure (h : Recoverable strict maxBytes kept s) {e : Error} :
    Sure (Safe strict maxBytes kept)
      (Prog.ifNot (present .parent .spool s) (step (.mkdir .parent .spool .root) e))
      (fun r s' => r = .ok () ∧ Safe strict maxBytes kept s' ∧ Recoverable strict maxBytes kept (s'.synced .parent) ∧
        s'.image .parent .spool ≠ none) s := by
  refine Prog.wp_ifNot.mpr ⟨fun hfound => ⟨rfl, h.safe, ?_, Option.isSome_iff_ne_none.mp hfound⟩, fun hfound => ?_⟩
  · exact ⟨h.settled.synced .parent, h.clean, by rw [Fs.image_synced]; exact h.sound⟩
  · have hnone : s.image .parent .spool = none := Option.not_isSome_iff_eq_none.mp (Bool.eq_false_iff.mp hfound)
    have hsafe := safe_made_spool h hnone
    refine sure_step_ok (Fs.exec_mkdir _ hnone) h.safe ⟨rfl, hsafe, ⟨fun T hT => ?_, h.clean, ?_⟩, ?_⟩
    · obtain ⟨hT, hparent⟩ := hT.of_synced
      obtain ⟨hroot, hother, -⟩ := h.settled.of_madeDir (by decide) hT
      rw [Fs.image_synced]
      funext d
      by_cases hp : d = .parent
      · rw [hp, hparent]
      · rw [Fs.image_madeDir s .spool (by decide)]
        by_cases hd : d = .root
        · rw [hd, hroot, Function.update_self]
        · rw [Function.update_of_ne hd, Function.update_of_ne hp, hother d hp hd]
    · rw [Fs.image_synced]
      exact hsafe.sound
    · rw [Fs.image_madeDir s .spool (by decide), Function.update_of_ne (by decide), Function.update_self,
        Function.update_self]
      exact Option.some_ne_none _

/-- `Open` succeeds on everything a crash can leave, and wherever it is stopped
it can be run again. -/
theorem openQueue_sure (h : Recoverable strict maxBytes kept s) (hmax : maxRecordBytes ≤ maxBytes) :
    Sure (Safe strict maxBytes kept) (openQueue maxBytes false)
      (fun r s' => r = .ok { maxBytes } ∧ Inv strict maxBytes kept s') s := by
  refine Prog.wp_bind.mpr (Prog.wp_require.mpr ⟨fun _ => ?_, fun hlt => ?_⟩)
  · refine Prog.wp_bind.mpr (sure_step_ok rfl h.safe ?_)
    refine Prog.wp_bind.mpr (Prog.wp_mono (makeSpool_sure h) ?_)
    rintro r s₁ ⟨rfl, hsafe₁, hrec₁, hspool₁⟩
    refine Prog.wp_bind.mpr (sure_step_ok rfl hsafe₁ ?_)
    refine Prog.wp_bind.mpr (sure_step_ok rfl hsafe₁ ?_)
    have hc₁ := hrec₁.completing (by rw [Fs.image_synced]; exact hspool₁)
    refine Prog.wp_bind.mpr (Prog.wp_mono (acquireDirectoryLock_sure hc₁) ?_)
    rintro r s₂ ⟨rfl, hc₂, hlock₂⟩
    refine Prog.wp_bind.mpr (Prog.wp_mono (openSubdirectory_sure hc₂ _ (Or.inl ⟨rfl, rfl⟩)) ?_)
    rintro r s₃ ⟨rfl, hc₃, hrej₃, hkeep₃⟩
    refine Prog.wp_bind.mpr (Prog.wp_mono (openSubdirectory_sure hc₃ _ (Or.inr ⟨rfl, rfl⟩)) ?_)
    rintro r s₄ ⟨rfl, hc₄, hroll₄, hkeep₄⟩
    have hready : Ready (s₄.synced .root).image := by
      rw [Fs.image_synced]
      exact ⟨hc₄.spool, hkeep₄ _ hrej₃, hroll₄⟩
    have hlock : (s₄.synced .root).image .root .lock ≠ none := by
      rw [Fs.image_synced]
      exact hkeep₄ _ (hkeep₃ _ hlock₂)
    refine Prog.wp_bind.mpr (sure_step_ok rfl hc₄.safe ?_)
    refine Prog.wp_bind.mpr (Prog.wp_mono (recoverRolloverLinks_sure hc₄.recoverable) ?_)
    rintro r s₅ ⟨rfl, hrec₅, hother₅, hsep₅⟩
    refine Prog.wp_bind.mpr (Prog.wp_mono (recoverQuarantineLinks_sure (q := { maxBytes }) hrec₅ hsep₅ ?_ ?_) ?_)
    · rw [Ready, hother₅ .parent (by decide), hother₅ .root (by decide)]
      exact hready
    · rw [hother₅ .root (by decide)]
      exact hlock
    · rintro r s₆ ⟨rfl, hinv⟩
      refine Prog.wp_bind.mpr (sure_read hinv.safe ?_)
      rw [inventory_of_scannable (scannable_of_sound hinv.sound hinv.separate)]
      exact ⟨rfl, hinv⟩
  · exact absurd hmax (of_decide_eq_false hlt)

/-- A second `Open` is refused and changes nothing. -/
theorem openQueue_held (h : Inv strict maxBytes kept s) (limit : Nat) :
    Sure (Safe strict maxBytes kept) (openQueue limit true)
      (fun r s' => (∃ e, r = .error e) ∧ Inv strict maxBytes kept s') s := by
  have hs : Inv strict maxBytes kept (s.synced .parent) :=
    { h with
      settled := h.settled.synced .parent
      sound := by rw [Fs.image_synced]; exact h.sound
      separate := by rw [Fs.image_synced]; exact h.separate
      ready := by rw [Fs.image_synced]; exact h.ready
      lock := by rw [Fs.image_synced]; exact h.lock }
  refine Prog.wp_bind.mpr (Prog.wp_require.mpr ⟨fun _ => ?_, fun _ => ⟨⟨_, rfl⟩, h⟩⟩)
  refine Prog.wp_bind.mpr (sure_step_ok rfl h.safe ?_)
  refine Prog.wp_bind.mpr (Prog.wp_ifNot.mpr ⟨fun _ => ?_, fun hfound => ?_⟩)
  · refine Prog.wp_bind.mpr (sure_step_ok rfl h.safe ?_)
    refine Prog.wp_bind.mpr (sure_step_ok rfl h.safe ?_)
    generalize s.synced .parent = s' at hs
    refine Prog.wp_bind.mpr (Prog.wp_bind.mpr (sure_step_ok rfl hs.safe ?_))
    refine Prog.wp_bind.mpr (Prog.wp_ifNot.mpr ⟨fun _ => ?_, fun hfound => ?_⟩)
    · refine Prog.wp_bind.mpr (sure_step_ok rfl hs.safe ?_)
      refine Prog.wp_bind.mpr (Prog.wp_require.mpr ⟨fun _ => ?_, fun _ => ⟨⟨_, rfl⟩, hs⟩⟩)
      exact Prog.wp_bind.mpr (sure_step_ok rfl hs.safe ⟨⟨_, rfl⟩, hs⟩)
    · exact absurd (Option.not_isSome_iff_eq_none.mp (Bool.eq_false_iff.mp hfound)) hs.lock
  · exact absurd (Option.not_isSome_iff_eq_none.mp (Bool.eq_false_iff.mp hfound)) h.ready.1

end NorthgateRmm.Agent.Spool
