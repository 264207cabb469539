import NorthgateRmm.Agent.Sequence.Store

/-!
# What the sequence store keeps

`Reached` says that an image shows a state of a boot with at least a given
number. `Levels` are two such numbers for every boot: `durable`, reached in every
image a crash can leave, and `visible`, reached in what the directory shows. Every
file step of the store keeps the levels, a reservation that returns raises both,
and one whose last sync fails raises only the visible one.
-/

namespace NorthgateRmm.Agent.Sequence

open CrashFs
open Spool (ContextError)

abbrev Image := Place → Name → Option Nat

/-- The image shows a state of the boot with at least this number. -/
def Reached (files : Nat → Content) (T : Image) (boot : Uuid) (v : Nat) : Prop :=
  v = 0 ∨ T .parent .store ≠ none ∧
    ∃ i st, T .root .state = some i ∧ files i = .state st ∧ st.boot = boot ∧ v ≤ st.last

structure Levels where
  durable : Uuid → Nat
  visible : Uuid → Nat

variable {s s' s₀ : Disk} {T : Image} {L : Levels} {boot : Uuid} {v : Nat}

/-- What holds of the disk whatever the steps do. -/
structure Sane (L : Levels) (s : Disk) : Prop where
  bounded : ∀ T, s.MayBe T → ∀ d n i, T d n = some i → i < s.next
  states : ∀ T, s.MayBe T → ∀ i, T .root .state = some i → i ∉ s.dirty ∧ ∃ st, s.files i = .state st
  durable : ∀ b T, s.MayBe T → Reached s.files T b (L.durable b)
  visible : ∀ b, Reached s.files s.image b (L.visible b)

/-- Nothing is pending in the parent directory. -/
def Steady (s : Disk) : Prop := ∀ T, s.MayBe T → T .parent = s.image .parent

/-- A step from `s` to `s'` that touches no state file. -/
structure Quiet (s s' : Disk) : Prop where
  image : s'.image .parent = s.image .parent ∧ s'.image .root .state = s.image .root .state
  mayBe : ∀ T', s'.MayBe T' → (∀ d n i, T' d n = some i → i < s'.next) ∧
    ∃ T, s.MayBe T ∧ T' .parent = T .parent ∧ T' .root .state = T .root .state
  files : ∀ T, s.MayBe T → ∀ i, T .root .state = some i → s'.files i = s.files i ∧ (i ∈ s'.dirty → i ∈ s.dirty)

theorem Reached.congr {files files' : Nat → Content} {T T' : Image} (h : Reached files T boot v)
    (hp : T' .parent = T .parent) (hs : T' .root .state = T .root .state)
    (hf : ∀ i, T .root .state = some i → files' i = files i) : Reached files' T' boot v := by
  rcases h with h | ⟨hstore, i, st, hi, hst, hb, hv⟩
  · exact Or.inl h
  · exact Or.inr ⟨by rw [hp]; exact hstore, i, st, by rw [hs, hi], by rw [hf i hi, hst], hb, hv⟩

theorem Reached.mono {files : Nat → Content} (h : Reached files T boot v) {w : Nat} (hw : w ≤ v) :
    Reached files T boot w := by
  rcases h with rfl | ⟨hstore, i, st, hi, hst, hb, hv⟩
  · exact Or.inl (Nat.le_zero.mp hw)
  · exact Or.inr ⟨hstore, i, st, hi, hst, hb, Nat.le_trans hw hv⟩

theorem Sane.mono (h : Sane L s) {L' : Levels} (hd : ∀ b, L'.durable b ≤ L.durable b)
    (hv : ∀ b, L'.visible b ≤ L.visible b) : Sane L' s :=
  { h with
    durable := fun b T hT => (h.durable b T hT).mono (hd b)
    visible := fun b => (h.visible b).mono (hv b) }

theorem Sane.quiet (h : Sane L s) (hq : Quiet s s') : Sane L s' where
  bounded T' hT' := (hq.mayBe T' hT').1
  states T' hT' i hi := by
    obtain ⟨-, T, hT, -, hstate⟩ := hq.mayBe T' hT'
    rw [hstate] at hi
    obtain ⟨hf, hd⟩ := hq.files T hT i hi
    obtain ⟨hclean, hst⟩ := h.states T hT i hi
    exact ⟨fun hi' => hclean (hd hi'), by rw [hf]; exact hst⟩
  durable b T' hT' := by
    obtain ⟨-, T, hT, hparent, hstate⟩ := hq.mayBe T' hT'
    exact (h.durable b T hT).congr hparent hstate fun i hi => (hq.files T hT i hi).1
  visible b := (h.visible b).congr hq.image.1 hq.image.2 fun i hi => (hq.files _ s.mayBe_image i hi).1

theorem Steady.quiet (h : Steady s) (hq : Quiet s s') : Steady s' := by
  intro T' hT'
  obtain ⟨-, T, hT, hparent, -⟩ := hq.mayBe T' hT'
  rw [hparent, h T hT, hq.image.1]

/-! ## Steps that touch no state file -/

theorem quiet_edit (h : Sane L s) {n : Name} {v : Option Nat} (hn : n ≠ .state) (hv : ∀ i, v = some i → i < s.next) :
    Quiet s (s.edit .root [(n, v)]) where
  image := by
    rw [Fs.image_edit, Function.update_of_ne (by decide), Function.update_self, Change.on_set,
      Function.update_of_ne hn.symm]
    exact ⟨rfl, rfl⟩
  mayBe T' hT' := by
    rcases hT'.of_edit with hT | ⟨T, hT, rfl⟩
    · exact ⟨h.bounded T' hT, T', hT, rfl, rfl⟩
    · refine ⟨fun d m i hi => ?_, T, hT, ?_, ?_⟩
      · by_cases hd : d = .root
        · subst hd
          rw [Function.update_self, Change.on_set] at hi
          by_cases hm : m = n
          · rw [hm, Function.update_self] at hi
            exact hv i hi
          · rw [Function.update_of_ne hm] at hi
            exact h.bounded T hT .root m i hi
        · rw [Function.update_of_ne hd] at hi
          exact h.bounded T hT d m i hi
      · rw [Function.update_of_ne (by decide)]
      · rw [Function.update_self, Change.on_set, Function.update_of_ne hn.symm]
  files _ _ _ _ := ⟨rfl, id⟩

theorem quiet_created (h : Sane L s) {n : Name} (hn : n ≠ .state) (c : Content) :
    Quiet s (s.created .root n c) where
  image := by
    show (s.edit .root [(n, some s.next)]).image .parent = _ ∧ (s.edit .root [(n, some s.next)]).image .root .state = _
    rw [Fs.image_edit, Function.update_of_ne (by decide), Function.update_self, Change.on_set,
      Function.update_of_ne hn.symm]
    exact ⟨rfl, rfl⟩
  mayBe T' hT' := by
    rcases (show (s.edit .root [(n, some s.next)]).MayBe T' from hT').of_edit with hT | ⟨T, hT, rfl⟩
    · exact ⟨fun d m i hi => Nat.lt_succ_of_lt (h.bounded T' hT d m i hi), T', hT, rfl, rfl⟩
    · refine ⟨fun d m i hi => ?_, T, hT, ?_, ?_⟩
      · by_cases hd : d = .root
        · subst hd
          rw [Function.update_self, Change.on_set] at hi
          by_cases hm : m = n
          · rw [hm, Function.update_self] at hi
            exact Option.some.inj hi ▸ Nat.lt_succ_self s.next
          · rw [Function.update_of_ne hm] at hi
            exact Nat.lt_succ_of_lt (h.bounded T hT .root m i hi)
        · rw [Function.update_of_ne hd] at hi
          exact Nat.lt_succ_of_lt (h.bounded T hT d m i hi)
      · rw [Function.update_of_ne (by decide)]
      · rw [Function.update_self, Change.on_set, Function.update_of_ne hn.symm]
  files T hT i hi := by
    refine ⟨?_, id⟩
    show Function.update s.files s.next c i = s.files i
    rw [Function.update_of_ne (Nat.ne_of_lt (h.bounded T hT _ _ i hi))]

theorem quiet_synced (h : Sane L s) (d : Place) : Quiet s (s.synced d) where
  image := by
    rw [Fs.image_synced]
    exact ⟨rfl, rfl⟩
  mayBe T' hT' := ⟨h.bounded T' hT'.of_synced.1, T', hT'.of_synced.1, rfl, rfl⟩
  files _ _ _ _ := ⟨rfl, id⟩

theorem quiet_written (h : Sane L s) {i : Nat} (hi : ∀ T, s.MayBe T → T .root .state ≠ some i) (c : Content) :
    Quiet s (s.written i c) where
  image := ⟨rfl, rfl⟩
  mayBe T' hT' := ⟨h.bounded T' hT', T', hT', rfl, rfl⟩
  files T hT j hj := by
    have hne : j ≠ i := fun hji => hi T hT (hji ▸ hj)
    refine ⟨Function.update_of_ne hne _ _, fun hd => ?_⟩
    exact (List.mem_cons.mp hd).resolve_left hne

theorem quiet_flushed (h : Sane L s) (i : Nat) : Quiet s (s.flushed i) where
  image := ⟨rfl, rfl⟩
  mayBe T' hT' := ⟨h.bounded T' hT', T', hT', rfl, rfl⟩
  files _ _ _ _ := ⟨rfl, fun hd => (List.mem_filter.mp hd).1⟩

/-! ## Raising the levels -/

/-- An open store: its directory is there for good. -/
structure Live (L : Levels) (s : Disk) : Prop where
  sane : Sane L s
  steady : Steady s
  store : s.image .parent .store ≠ none

theorem Live.quiet (h : Live L s) (hq : Quiet s s') : Live L s' :=
  ⟨h.sane.quiet hq, h.steady.quiet hq, by rw [hq.image.1]; exact h.store⟩

/-- The levels once a number is visible. -/
def Levels.shown (L : Levels) (boot : Uuid) (v : Nat) : Levels :=
  { L with visible := Function.update L.visible boot v }

/-- The levels once a number is durable. -/
def Levels.raised (L : Levels) (boot : Uuid) (v : Nat) : Levels where
  durable := Function.update L.durable boot v
  visible := Function.update L.visible boot v

theorem Levels.visible_shown_self (L : Levels) (boot : Uuid) (v : Nat) : (L.shown boot v).visible boot = v :=
  Function.update_self ..

theorem Levels.visible_shown_ne (L : Levels) {boot b : Uuid} (hb : b ≠ boot) (v : Nat) :
    (L.shown boot v).visible b = L.visible b :=
  Function.update_of_ne hb ..

/-- The levels of all other boots are zero, and those of this one below `v`. -/
def Levels.Below (L : Levels) (boot : Uuid) (v : Nat) : Prop :=
  (∀ b, b ≠ boot → L.durable b = 0 ∧ L.visible b = 0) ∧ L.durable boot ≤ v ∧ L.visible boot ≤ v

theorem Levels.Below.synced (h : L.Below boot v) : { L.shown boot v with durable := (L.shown boot v).visible } =
    L.raised boot v := by
  rw [Levels.raised, Levels.mk.injEq]
  refine ⟨funext fun b => ?_, rfl⟩
  by_cases hb : b = boot
  · rw [hb, L.visible_shown_self, Function.update_self]
  · rw [L.visible_shown_ne hb, Function.update_of_ne hb, (h.1 b hb).1, (h.1 b hb).2]

theorem Sane.of_shown (h : Sane (L.shown boot v) s) (hv : L.visible boot ≤ v) : Sane L s := by
  refine { h with visible := fun b => ?_ }
  have hshown := h.visible b
  by_cases hb : b = boot
  · rw [hb, L.visible_shown_self] at hshown
    rw [hb]
    exact hshown.mono hv
  · rwa [L.visible_shown_ne hb] at hshown

/-- A complete staging file becomes the state file: before the next sync a crash
leaves the old state or the new one. -/
theorem Live.renamed (h : Live L s) {file : Nat} {st : State} (hfile : s.files file = .state st)
    (hclean : file ∉ s.dirty) (hbound : file < s.next) (hL : L.Below st.boot st.last) :
    Live (L.shown st.boot st.last) (s.edit .root [(.temporary, none), (.state, some file)]) := by
  have hstate : ∀ t : Name → Option Nat,
      Change.on [(.temporary, none), (.state, some file)] t .state = some file := fun t => rfl
  have himage : (s.edit .root [(.temporary, none), (.state, some file)]).image .root .state = some file := by
    rw [Fs.image_edit, Function.update_self, hstate]
  have hparent : (s.edit .root [(.temporary, none), (.state, some file)]).image .parent = s.image .parent := by
    rw [Fs.image_edit, Function.update_of_ne (by decide)]
  have hnew : ∀ b T, T .root .state = some file → T .parent .store ≠ none →
      Reached s.files T b (L.durable b) := by
    intro b T hT hstore
    by_cases hb : b = st.boot
    · exact Or.inr ⟨hstore, file, st, hT, hfile, hb.symm, hb ▸ hL.2.1⟩
    · exact Or.inl (hL.1 b hb).1
  refine ⟨⟨fun T hT d n i hi => ?_, fun T hT i hi => ?_, fun b T hT => ?_, fun b => ?_⟩, fun T hT => ?_, ?_⟩
  · rcases hT.of_edit with hT | ⟨T₀, hT₀, rfl⟩
    · exact h.sane.bounded T hT d n i hi
    · by_cases hd : d = .root
      · subst hd
        rw [Function.update_self] at hi
        cases n with
        | state => exact Option.some.inj hi ▸ hbound
        | temporary => exact nomatch hi
        | store | lock => exact h.sane.bounded T₀ hT₀ .root _ i hi
      · rw [Function.update_of_ne hd] at hi
        exact h.sane.bounded T₀ hT₀ d n i hi
  · rcases hT.of_edit with hT | ⟨T₀, hT₀, rfl⟩
    · exact h.sane.states T hT i hi
    · rw [Function.update_self, hstate] at hi
      cases hi
      exact ⟨hclean, st, hfile⟩
  · rcases hT.of_edit with hT | ⟨T₀, hT₀, rfl⟩
    · exact h.sane.durable b T hT
    · refine hnew b _ (by rw [Function.update_self, hstate]) ?_
      rw [Function.update_of_ne (by decide), h.steady T₀ hT₀]
      exact h.store
  · by_cases hb : b = st.boot
    · rw [hb, L.visible_shown_self]
      exact Or.inr ⟨by rw [hparent]; exact h.store, file, st, himage, hfile, rfl, Nat.le_refl _⟩
    · rw [L.visible_shown_ne hb]
      exact Or.inl (hL.1 b hb).2
  · rw [hparent]
    rcases hT.of_edit with hT | ⟨T₀, hT₀, rfl⟩
    · exact h.steady T hT
    · rw [Function.update_of_ne (by decide)]
      exact h.steady T₀ hT₀
  · rw [hparent]
    exact h.store

/-- What is visible becomes durable. -/
theorem Live.synced (h : Live L s) : Live { L with durable := L.visible } (s.synced .root) := by
  have hq := h.quiet (quiet_synced h.sane .root)
  refine ⟨{ hq.sane with durable := fun b T hT => ?_ }, hq.steady, hq.store⟩
  obtain ⟨hT, hroot⟩ := hT.of_synced
  exact (h.sane.visible b).congr (h.steady T hT) (by rw [hroot]) fun _ _ => rfl

/-! ## Reserve -/

/-- Every step may fail except the sync of the parent directory. -/
def Reliable : Prog.Policy (CrashFs.Op Place Name Content) (Option Content)
  | _, c, .syncDir .parent => c = none
  | _, _, _ => True

/-- An error after which no number was published. -/
def Error.harmless (e : Error) : Prop := e ≠ exhausted ∧ ∀ b v, e ≠ .uncertain b v

/-- Removing the staging file leaves the levels. -/
theorem cleanUp_wp (h : Live L s) (cause : Error) (hcause : cause.harmless) :
    (cleanUp cause).wp Fs.machine Reliable (Sane L)
      (fun r s' => Live L s' ∧ ∃ e, r = .error e ∧ e.harmless) s := by
  have hremoved : Live L (s.edit .root [(.temporary, none)]) := h.quiet (quiet_edit h.sane (by decide) (fun _ h => by cases h))
  have hun : (Error.uncleaned cause).harmless := ⟨(fun h => by cases h), fun _ _ h => by cases h⟩
  have hsync : ∀ {k : Except Fault Unit → Step Nat}, k (.ok ()) = .fail cause →
      (∀ e, k (.error e) = .fail (.uncleaned cause)) → ∀ s', Live L s' →
        (Prog.call (.syncDir .root) >>= k).wp Fs.machine Reliable (Sane L)
          (fun r s' => Live L s' ∧ ∃ e, r = .error e ∧ e.harmless) s' := by
    intro k hok herror s' hs'
    refine Prog.wp_bind.mpr (Prog.wp_call.mpr ⟨hs'.sane, fun c _ => ?_⟩)
    cases c with
    | none =>
      show Prog.wp _ _ _ (k (.ok ())) _ _
      rw [hok]
      exact ⟨hs'.quiet (quiet_synced hs'.sane .root), cause, rfl, hcause⟩
    | some torn =>
      show Prog.wp _ _ _ (k (.error _)) _ _
      rw [herror]
      exact ⟨hs', _, rfl, hun⟩
  refine Prog.wp_bind.mpr (Prog.wp_call.mpr ⟨h.sane, fun c _ => ?_⟩)
  cases c with
  | none =>
    cases hi : s.image .root .temporary with
    | none =>
      show Prog.wp _ _ _ (if gone (Fs.exec none (.remove .root .temporary) s).1 then _ else _) _
        (Fs.exec none (.remove .root .temporary) s).2
      rw [Fs.exec, hi]
      refine hsync ?_ (fun _ => ?_) s h <;> rfl
    | some i =>
      show Prog.wp _ _ _ (if gone (Fs.exec none (.remove .root .temporary) s).1 then _ else _) _
        (Fs.exec none (.remove .root .temporary) s).2
      rw [Fs.exec_remove hi]
      refine hsync ?_ (fun _ => ?_) _ hremoved <;> rfl
  | some torn => exact ⟨h, _, rfl, hun⟩

/-- Staging either publishes the state or leaves the levels. -/
theorem stage_wp (h : Live L s) {file : Nat} {st : State} (hL : L.Below st.boot st.last)
    (htmp : s.image .root .temporary = some file) (hbound : file < s.next)
    (hnot : ∀ T, s.MayBe T → T .root .state ≠ some file) :
    (stage file st).wp Fs.machine Reliable (Sane L) (fun r s' => match r with
      | .ok () => Live (L.shown st.boot st.last) s'
      | .error e => Live L s' ∧ e.harmless) s := by
  have hfailed : ∀ msg, (Error.failed msg) ≠ exhausted → (Error.failed msg).harmless := fun _ hne => ⟨hne, nofun⟩
  have hwrite : ∀ c, Live L (s.written file c) := fun c => h.quiet (quiet_written h.sane hnot c)
  refine Prog.wp_bind.mpr (wp_step_ok rfl h.sane ?_ fun torn => ⟨_, _, rfl, hwrite torn, hfailed _ (by decide)⟩)
  have hw := hwrite (.state st)
  refine Prog.wp_bind.mpr (wp_step_ok rfl hw.sane ?_ fun _ => ⟨_, _, rfl, hw, hfailed _ (by decide)⟩)
  -- the file is complete and synced
  have hf : Live L ((s.written file (.state st)).flushed file) := hw.quiet (quiet_flushed hw.sane file)
  have hfile : ((s.written file (.state st)).flushed file).files file = .state st := Function.update_self ..
  have hclean : file ∉ ((s.written file (.state st)).flushed file).dirty := by
    show file ∉ List.filter _ _
    simp
  have himage : ((s.written file (.state st)).flushed file).image .root .temporary = some file := htmp
  have hnext : file < ((s.written file (.state st)).flushed file).next := hbound
  generalize (s.written file (.state st)).flushed file = s₁ at hf hfile hclean himage hnext
  refine Prog.wp_bind.mpr (wp_step_ok rfl hf.sane ?_ fun _ => ⟨_, _, rfl, hf, hfailed _ (by decide)⟩)
  refine Prog.wp_bind.mpr (wp_step_ok rfl hf.sane ?_ fun _ => ⟨_, _, rfl, hf, hfailed _ (by decide)⟩)
  exact wp_step_ok (Fs.exec_rename .state himage) hf.sane (hf.renamed hfile hclean hnext hL)
    fun _ => ⟨_, _, rfl, hf, hfailed _ (by decide)⟩

/-- What a reservation of a number leaves. -/
def Published (L : Levels) (boot : Uuid) (v : Nat) : Except Error Nat → Disk → Prop
  | .ok w, s => w = v ∧ Live (L.raised boot v) s
  | .error (.uncertain b w), s => b = boot ∧ w = v ∧ Live (L.shown boot v) s
  | .error e, s => e ≠ exhausted ∧ Live L s

theorem published_of_harmless {e : Error} (he : e.harmless) (h : Live L s) : Published L boot v (.error e) s := by
  cases e with
  | uncertain b w => exact absurd rfl (he.2 b w)
  | closed | corrupt | locked | context _ | failed _ | uncleaned _ => exact ⟨he.1, h⟩

theorem publish_wp (h : Live L s) (st : State) (hL : L.Below st.boot st.last) :
    (publish st).wp Fs.machine Reliable (Sane L) (Published L st.boot st.last) s := by
  refine Prog.wp_bind.mpr (Prog.wp_call.mpr ⟨h.sane, fun c _ => ?_⟩)
  have hcorrupt : Published L st.boot st.last (.error .corrupt) s := published_of_harmless ⟨(fun h => by cases h), fun _ _ h => by cases h⟩ h
  cases c with
  | some torn => exact published_of_harmless (e := .failed "create sequence staging file") ⟨by decide, fun _ _ h => by cases h⟩ h
  | none =>
    cases hi : s.image .root .temporary with
    | some i =>
      have hexec : Fs.exec none (.create .root .temporary .blank) s = (.error .exist, s) := by rw [Fs.exec, hi]
      rw [show Fs.machine.exec none (.create .root .temporary .blank) s = _ from hexec]
      exact hcorrupt
    | none =>
      have hexec := Fs.exec_create (.blank : Content) hi
      rw [show Fs.machine.exec none (.create .root .temporary .blank) s = _ from hexec]
      have hc : Live L (s.created .root .temporary .blank) := h.quiet (quiet_created h.sane (n := .temporary) (by decide) .blank)
      have htmp : (s.created .root .temporary .blank).image .root .temporary = some s.next := by
        show (s.edit .root [(.temporary, some s.next)]).image .root .temporary = _
        rw [Fs.image_edit, Function.update_self, Change.on_set, Function.update_self]
      have hnot : ∀ T, (s.created .root .temporary .blank).MayBe T → T .root .state ≠ some s.next := by
        intro T hT heq
        obtain ⟨-, T₀, hT₀, -, hstate⟩ := (quiet_created h.sane (n := .temporary) (by decide) .blank).mayBe T hT
        rw [hstate] at heq
        exact Nat.lt_irrefl _ (h.sane.bounded T₀ hT₀ _ _ _ heq)
      refine Prog.wp_bind.mpr (Prog.wp_attempt.mpr (Prog.wp_mono
        (stage_wp hc hL htmp (Nat.lt_succ_self s.next) hnot) fun r s' hr => ?_))
      cases r with
      | error cause =>
        refine Prog.wp_mono (cleanUp_wp hr.1 cause hr.2) ?_
        rintro r s'' ⟨hlive, e, rfl, he⟩
        exact published_of_harmless he hlive
      | ok _ =>
        exact Prog.wp_bind.mpr (wp_step_ok rfl (hr.sane.of_shown hL.2.2) ⟨rfl, hL.synced ▸ hr.synced⟩
          fun _ => ⟨_, _, rfl, rfl, rfl, hr⟩)

/-- The state that the directory shows. -/
def shownState (s : Disk) : Option State :=
  match s.image .root .state with
  | none => none
  | some i => match s.files i with
    | .state st => some st
    | _ => none

/-- `readLocked` answers the state that is shown, or refuses the directory. -/
theorem readLocked_cases (s : Disk) : readLocked s = .error .corrupt ∨ readLocked s = .ok (shownState s) := by
  rw [readLocked, shownState]
  split
  · exact Or.inl rfl
  · split
    · exact Or.inl rfl
    · cases s.image .root .state with
      | none => exact Or.inr rfl
      | some i =>
        dsimp only
        split
        · exact Or.inl rfl
        · cases s.files i with
          | state st => exact Or.inr rfl
          | blank | other _ => exact Or.inl rfl

/-- The next number is above what is visible. -/
theorem Sane.lt_nextSequence (h : Sane L s) (boot : Uuid) : L.visible boot < nextSequence boot (shownState s) := by
  rcases h.visible boot with hv | ⟨-, i, st, hi, hst, hb, hv⟩
  · rw [hv]
    exact nextSequence_pos boot _
  · have hshown : shownState s = some st := by
      rw [shownState, hi]
      dsimp only
      rw [hst]
    rw [hshown, nextSequence, if_pos hb]
    exact Nat.lt_succ_of_le hv

/-- What a call of `reserveLocked` on the disk `s₀` leaves. -/
def Reserved (L : Levels) (boot : Uuid) (s₀ : Disk) : Except Error Nat → Disk → Prop
  | .ok w, s => w = nextSequence boot (shownState s₀) ∧ w ≤ maxSequence ∧ L.visible boot < w ∧ Live (L.raised boot w) s
  | .error (.uncertain b w), s =>
    b = boot ∧ w = nextSequence boot (shownState s₀) ∧ L.visible boot < w ∧ Live (L.shown boot w) s
  | .error e, s => (e = exhausted → s = s₀) ∧ Live L s

theorem Published.reserved {r : Except Error Nat} (hle : v ≤ maxSequence)
    (hv : v = nextSequence boot (shownState s₀)) (hlt : L.visible boot < v) (h : Published L boot v r s) :
    Reserved L boot s₀ r s := by
  match r, h with
  | .ok _, ⟨rfl, hlive⟩ => exact ⟨hv, hle, hlt, hlive⟩
  | .error (.uncertain _ _), ⟨rfl, rfl, hlive⟩ => exact ⟨rfl, hv, hlt, hlive⟩
  | .error .closed, h | .error .corrupt, h | .error .locked, h | .error (.context _), h | .error (.failed _), h
  | .error (.uncleaned _), h => exact ⟨fun he => absurd he h.1, h.2⟩

/-- **Reserve.** A number that is returned is durable; an uncertain one is visible;
every other error leaves the levels. -/
theorem reserveLocked_wp (h : Live L s) (hother : ∀ b, b ≠ boot → L.durable b = 0 ∧ L.visible b = 0)
    (hle : L.durable boot ≤ L.visible boot) (closed : Bool) (ctx : Option ContextError) :
    (reserveLocked closed ctx boot).wp Fs.machine Reliable (Sane L) (Reserved L boot s) s := by
  have hplain : ∀ {e : Error}, (∀ b v, e ≠ .uncertain b v) → Reserved L boot s (.error e) s := by
    intro e he
    cases e with
    | uncertain b v => exact absurd rfl (he b v)
    | closed | corrupt | locked | context _ | failed _ | uncleaned _ => exact ⟨fun _ => rfl, h⟩
  refine Prog.wp_bind.mpr (Prog.wp_require.mpr ⟨fun _ => ?_, fun _ => hplain nofun⟩)
  cases ctx with
  | some e => exact hplain (e := .context e) nofun
  | none =>
    dsimp only
    split
    next hb =>
      refine Prog.wp_bind.mpr (wp_read h.sane ?_ (hplain nofun))
      rcases readLocked_cases s with hcur | hcur <;> rw [hcur]
      · exact hplain nofun
      · dsimp only
        split
        next hn =>
          have hlt := h.sane.lt_nextSequence boot
          refine Prog.wp_bind.mpr (Prog.wp_require.mpr ⟨fun _ => ?_, fun _ => hplain nofun⟩)
          refine Prog.wp_mono (publish_wp h ⟨boot, nextSequence boot (shownState s), hb, hn.1, hn.2⟩
            ⟨hother, Nat.le_trans hle (Nat.le_of_lt hlt), Nat.le_of_lt hlt⟩) fun r s' hr => ?_
          exact Published.reserved hn.2 rfl hlt hr
        next => exact hplain (e := exhausted) nofun
    next => exact hplain (e := .failed _) nofun

/-! ## Open -/

/-- Making the directory: there was no state, so all levels are zero. -/
theorem Sane.madeStore (h : Sane L s) (hnone : s.image .parent .store = none) :
    Sane L (s.madeDir .parent .store .root) := by
  have hzero : ∀ b, L.durable b = 0 ∧ L.visible b = 0 := by
    intro b
    constructor
    · exact (h.durable b _ s.mayBe_image).resolve_right fun hr => hr.1 hnone
    · exact (h.visible b).resolve_right fun hr => hr.1 hnone
  have hroot : ∀ T, (s.madeDir .parent .store .root).MayBe T → T .root = fun _ => none :=
    fun T hT => (hT.of_madeDir (by decide)).1
  refine ⟨fun T hT d n i hi => ?_, fun T hT i hi => ?_, fun b T hT => Or.inl (hzero b).1, fun b => Or.inl (hzero b).2⟩
  · cases d with
    | root =>
      rw [hroot T hT] at hi
      exact nomatch hi
    | parent =>
      obtain ⟨-, hT⟩ := hT.of_madeDir (by decide)
      show i < s.next + 1
      rcases hT.of_edit with hT | ⟨T₀, hT₀, hTd⟩
      · have hb := h.bounded _ hT .parent n i (by rw [Function.update_of_ne (by decide)]; exact hi)
        omega
      · have hparent := congrFun hTd .parent
        rw [Function.update_of_ne (by decide), Function.update_self, Change.on_set] at hparent
        rw [hparent] at hi
        by_cases hn : n = .store
        · rw [hn, Function.update_self] at hi
          exact Option.some.inj hi ▸ Nat.lt_succ_self s.next
        · rw [Function.update_of_ne hn] at hi
          have hb := h.bounded _ hT₀ .parent n i hi
          omega
  · rw [hroot T hT] at hi
    exact nomatch hi

/-- What `Open` on the disk `s₀` leaves; only an `Open` that returns a store
promises its directory. -/
def Opened (L : Levels) (s₀ : Disk) : Except Error Unit → Disk → Prop
  | .ok (), s => Live L s
  | .error _, s => Sane L s ∧ Steady s ∧ (s₀.image .parent .store ≠ none → s.image .parent .store ≠ none)

theorem Live.opened (h : Live L s) (e : Error) : Opened L s₀ (.error e) s := ⟨h.sane, h.steady, fun _ => h.store⟩

theorem acquireDirectoryLock_wp (h : Live L s) (held : Bool) :
    (acquireDirectoryLock held).wp Fs.machine Reliable (Sane L) (fun _ s' => Live L s') s := by
  have hcreate : (Prog.ifNot (present .root .lock s) do
      let _ ← CrashFs.step (.create .root .lock .blank) (Error.failed "open lock")).wp Fs.machine Reliable (Sane L)
      (fun _ s' => Live L s') s := by
    refine Prog.wp_ifNot.mpr ⟨fun _ => h, fun hfound => ?_⟩
    have hnone : s.image .root .lock = none := Option.not_isSome_iff_eq_none.mp (Bool.eq_false_iff.mp hfound)
    exact Prog.wp_bind.mpr (wp_step_ok (Fs.exec_create _ hnone) h.sane
      (h.quiet (quiet_created h.sane (n := .lock) nofun .blank)) fun _ => ⟨_, _, rfl, h⟩)
  refine Prog.wp_bind.mpr (wp_step_ok rfl h.sane ?_ fun _ => ⟨_, _, rfl, h⟩)
  refine Prog.wp_bind.mpr (Prog.wp_mono hcreate fun r s' hs' => ?_)
  cases r with
  | error e => exact hs'
  | ok _ =>
    refine Prog.wp_bind.mpr (wp_step_ok rfl hs'.sane ?_ fun _ => ⟨_, _, rfl, hs'⟩)
    refine Prog.wp_bind.mpr (Prog.wp_require.mpr ⟨fun _ => ?_, fun _ => hs'⟩)
    refine Prog.wp_bind.mpr (wp_step_ok rfl hs'.sane ?_ fun _ => ⟨_, _, rfl, hs'⟩)
    exact Prog.wp_require.mpr ⟨fun _ => hs', fun _ => hs'⟩

/-- **Open** leaves the levels. -/
theorem openStore_wp (h : Sane L s) (hsteady : Steady s) (held : Bool) :
    (openStore held).wp Fs.machine Reliable (Sane L) (Opened L s) s := by
  have hmake : (Prog.ifNot (present .parent .store s) do
      CrashFs.step (.mkdir .parent .store .root) (Error.failed "create sequence directory")
      CrashFs.step (.syncDir .parent) (Error.failed "sync sequence parent")
      CrashFs.step .touch (Error.failed "protect sequence directory")).wp Fs.machine Reliable (Sane L) (Opened L s) s := by
    refine Prog.wp_ifNot.mpr ⟨fun hfound => ⟨h, hsteady, Option.isSome_iff_ne_none.mp hfound⟩, fun hfound => ?_⟩
    have hnone : s.image .parent .store = none := Option.not_isSome_iff_eq_none.mp (Bool.eq_false_iff.mp hfound)
    refine Prog.wp_bind.mpr (wp_step_ok (Fs.exec_mkdir _ hnone) h ?_ fun _ => ⟨_, _, rfl, h, hsteady, id⟩)
    have hmade := h.madeStore hnone
    have hlive : Live L ((s.madeDir .parent .store .root).synced .parent) := by
      refine ⟨hmade.quiet (quiet_synced hmade .parent), fun T hT => ?_, ?_⟩
      · rw [Fs.image_synced]
        exact hT.of_synced.2
      · rw [Fs.image_synced, Fs.image_madeDir s .store (by decide), Function.update_of_ne (by decide),
          Function.update_self, Function.update_self]
        exact Option.some_ne_none _
    -- this is the one step that must not fail
    refine Prog.wp_bind.mpr (wp_step.mpr ⟨hmade, ?_⟩)
    rintro c rfl
    exact wp_step_ok rfl hlive.sane hlive fun _ => ⟨_, _, rfl, hlive.opened _⟩
  refine Prog.wp_bind.mpr (wp_step_ok rfl h ?_ fun _ => ⟨_, _, rfl, h, hsteady, id⟩)
  refine Prog.wp_bind.mpr (Prog.wp_mono hmake fun r s₁ hs₁ => ?_)
  cases r with
  | error e => exact hs₁
  | ok _ =>
    refine Prog.wp_bind.mpr (Prog.wp_mono (acquireDirectoryLock_wp hs₁ held) fun r s₂ hs₂ => ?_)
    cases r with
    | error e => exact hs₂.opened e
    | ok _ =>
      refine Prog.wp_bind.mpr (wp_step_ok rfl hs₂.sane ?_ fun _ => ⟨_, _, rfl, hs₂.opened _⟩)
      have hs₃ := hs₂.quiet (quiet_synced hs₂.sane .root)
      refine Prog.wp_bind.mpr (wp_read hs₃.sane ?_ (hs₃.opened _))
      cases readLocked (s₂.synced .root) with
      | error e => exact hs₃.opened e
      | ok current => exact hs₃

/-! ## Crashes -/

/-- A crash lowers what is visible to what is durable. -/
theorem Sane.crash (h : Sane L s) (l : Fs.Loss Place Content) :
    Sane { L with visible := L.durable } (s.crash l) ∧ Steady (s.crash l) := by
  have hT := s.mayBe_crash l
  have hsettled := s.settled_crash l
  have hfiles : ∀ i, (s.crash l).image .root .state = some i → (s.crash l).files i = s.files i := by
    intro i hi
    exact if_neg (h.states _ hT i hi).1
  have hreached : ∀ b, Reached (s.crash l).files (s.crash l).image b (L.durable b) :=
    fun b => (h.durable b _ hT).congr rfl rfl hfiles
  refine ⟨⟨fun T hT' => ?_, fun T hT' i hi => ?_, fun b T hT' => ?_, hreached⟩, fun T hT' => ?_⟩
  · rw [hsettled T hT']
    exact h.bounded _ hT
  · rw [hsettled T hT'] at hi
    exact ⟨List.not_mem_nil, by rw [hfiles i hi]; exact (h.states _ hT i hi).2⟩
  · rw [hsettled T hT']
    exact hreached b
  · rw [hsettled T hT']

end NorthgateRmm.Agent.Sequence
