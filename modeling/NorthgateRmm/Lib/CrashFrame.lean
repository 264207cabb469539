import NorthgateRmm.Lib.CrashProg

/-!
# What a program leaves alone

`Prog.Only ok p`: every operation that `p` can come to is one of `ok`. What those
operations keep, whatever the environment chooses, every run of `p` keeps, also one
that is stopped in the middle. For file-system operations `removes` and `adds` name
the entries an operation can take away and put in.
-/

namespace Prog

variable {Op : Type → Type 1} {ε ε' α β γ σ χ : Type} {ok : (β : Type) → Op β → Prop}

def Only (ok : (β : Type) → Op β → Prop) : Prog Op ε α → Prop
  | ret _ => True
  | fail _ => True
  | op o k => ok _ o ∧ ∀ b, (k b).Only ok

@[simp]
theorem only_ret {a : α} : (ret a : Prog Op ε α).Only ok := trivial

@[simp]
theorem only_pure {a : α} : (pure a : Prog Op ε α).Only ok := trivial

@[simp]
theorem only_fail {e : ε} : (fail e : Prog Op ε α).Only ok := trivial

theorem only_call {o : Op α} (h : ok _ o) : (call o : Prog Op ε α).Only ok := ⟨h, fun _ => trivial⟩

variable {p : Prog Op ε α} {s : σ}

theorem only_bind {f : α → Prog Op ε β} (hp : p.Only ok) (hf : ∀ a, (f a).Only ok) :
    (p >>= f).Only ok := by
  show (p.bind f).Only ok
  induction p with
  | ret a => exact hf a
  | fail e => trivial
  | op o k ih => exact ⟨hp.1, fun b => ih b (hp.2 b)⟩

theorem only_attempt (hp : p.Only ok) : (p.attempt : Prog Op ε' (Except ε α)).Only ok := by
  induction p with
  | ret a => trivial
  | fail e => trivial
  | op o k ih => exact ⟨hp.1, fun b => ih b (hp.2 b)⟩

@[simp]
theorem only_require {b : Bool} {e : ε} : (require b e : Prog Op ε Unit).Only ok := by
  cases b <;> trivial

@[simp]
theorem only_orFail {r : Except ε' α} {e : ε' → ε} : (orFail r e : Prog Op ε α).Only ok := by
  cases r <;> trivial

theorem only_ifNot {b : Bool} {p : Prog Op ε Unit} (hp : p.Only ok) : (ifNot b p).Only ok := by
  cases b
  · exact hp
  · trivial

theorem only_forEach {f : γ → Prog Op ε Unit} {xs : List γ} (h : ∀ x ∈ xs, (f x).Only ok) : (forEach f xs).Only ok := by
  induction xs with
  | nil => trivial
  | cons x xs ih =>
    exact only_bind (h x List.mem_cons_self) fun _ => ih fun y hy => h y (List.mem_cons_of_mem _ hy)

theorem Only.mono {ok' : (β : Type) → Op β → Prop} (h : p.Only ok) (hok : ∀ β o, ok β o → ok' β o) :
    p.Only ok' := by
  induction p with
  | ret a => trivial
  | fail e => trivial
  | op o k ih => exact ⟨hok _ o h.1, fun b => ih b (h.2 b)⟩

variable {M : Machine Op σ χ} {allow : Policy Op χ} {I : σ → Prop}

/-- What the operations keep holds besides what is known of the program. -/
theorem Only.wp_and (h : p.Only ok) (hI : ∀ β (o : Op β) c s, ok β o → I s → I (M.exec c o s).2)
    {C : σ → Prop} {Q : Except ε α → σ → Prop} (hs : I s) (hQ : p.wp M allow C Q s) :
    p.wp M allow (fun s => C s ∧ I s) (fun r s' => Q r s' ∧ I s') s := by
  induction p generalizing s with
  | ret a => exact ⟨hQ, hs⟩
  | fail e => exact ⟨hQ, hs⟩
  | op o k ih => exact ⟨⟨hQ.1, hs⟩, fun c hc => ih _ (h.2 _) (hI _ o c s h.1 hs) (hQ.2 c hc)⟩

theorem wp_true : p.wp M allow (fun _ => True) (fun _ _ => True) s := by
  induction p generalizing s with
  | ret a => trivial
  | fail e => trivial
  | op o k ih => exact ⟨trivial, fun c _ => ih _⟩

/-- Where only success matters, a first part may be passed over. -/
theorem wp_after {f : α → Prog Op ε β} {Q : Except ε β → σ → Prop}
    (herr : ∀ e s, Q (.error e) s) (h : ∀ a s, (f a).wp M allow (fun _ => True) Q s) :
    (p >>= f).wp M allow (fun _ => True) Q s :=
  wp_bind.mpr (wp_mono wp_true fun r s' _ => by
    cases r with
    | ok a => exact h a s'
    | error e => exact herr e s')

end Prog

namespace CrashFs

variable {D N C β ε α : Type}

/-- The entries an operation can take away. -/
def Op.removes : Op D N C β → D → N → Prop
  | .remove d n, d', n' => d' = d ∧ n' = n
  | .rename d n n', d', m => d' = d ∧ (m = n ∨ m = n')
  | .mkdir _ _ sub, d', _ => d' = sub
  | _, _, _ => False

/-- The entries an operation can put in. -/
def Op.adds : Op D N C β → D → N → Prop
  | .create d n _, d', n' => d' = d ∧ n' = n
  | .link _ _ d n, d', n' => d' = d ∧ n' = n
  | .rename d _ n, d', n' => d' = d ∧ n' = n
  | .mkdir d n _, d', n' => d' = d ∧ n' = n
  | _, _, _ => False

/-- The operation changes the content of a file. -/
def Op.writes : Op D N C β → Prop
  | .create .. => True
  | .write .. => True
  | _ => False

namespace Fs

variable [DecidableEq D] [DecidableEq N] {s : Fs D N C} {d : D} {n : N} {o : Op D N C β} {c : Option C}

/-- A set entry is one that the operation takes away or puts in; it puts in nothing under
a name that is there unless it takes that away. -/
def Sets (s : Fs D N C) (o : Op D N C β) (d : D) (n : N) (v : Option Nat) : Prop :=
  (o.removes d n ∧ v = none) ∨ (o.adds d n ∧ (s.image d n = none ∨ o.removes d n))

/-- What an operation does to the directories. -/
inductive Redirs (s : Fs D N C) (o : Op D N C β) (s' : Fs D N C) : Prop
  | same (h : s'.dirs = s.dirs)
  | synced (d : D) (h : s'.dirs = (s.synced d).dirs)
  | edit (d : D) (l : Change N) (h : s'.dirs = (s.edit d l).dirs) (hl : ∀ n v, (n, v) ∈ l → Sets s o d n v)
  | madeDir (d : D) (n : N) (sub : D) (h : s'.dirs = (s.madeDir d n sub).dirs) (hn : Sets s o d n (some s.next))
      (hsub : ∀ m, o.removes sub m)

theorem redirs_exec (c : Option C) (o : Op D N C β) (s : Fs D N C) : Redirs s o (exec c o s).2 := by
  cases o with
  | look f => cases c <;> exact .same rfl
  | touch => cases c <;> exact .same rfl
  | write i x => cases c <;> exact .same rfl
  | fsync i => cases c <;> exact .same rfl
  | syncDir d =>
    cases c with
    | none => exact .synced d rfl
    | some x => exact .same rfl
  | create d n blank =>
    cases c with
    | some x => exact .same rfl
    | none =>
      rw [exec]
      split
      · exact .same rfl
      · rename_i hfree
        refine .edit d [(n, some s.next)] rfl fun m v hm => ?_
        cases List.mem_singleton.mp hm
        exact .inr ⟨⟨rfl, rfl⟩, .inl hfree⟩
  | link d₁ n₁ d₂ n₂ =>
    cases c with
    | some x => exact .same rfl
    | none =>
      rw [exec]
      split
      · exact .same rfl
      · exact .same rfl
      · rename_i i _ hfree
        refine .edit d₂ [(n₂, some i)] rfl fun m v hm => ?_
        cases List.mem_singleton.mp hm
        exact .inr ⟨⟨rfl, rfl⟩, .inl hfree⟩
  | rename d n₁ n₂ =>
    cases c with
    | some x => exact .same rfl
    | none =>
      rw [exec]
      split
      · exact .same rfl
      · rename_i i _
        refine .edit d [(n₁, none), (n₂, some i)] rfl fun m v hm => ?_
        rcases List.mem_cons.mp hm with hm | hm
        · cases hm
          exact .inl ⟨⟨rfl, .inl rfl⟩, rfl⟩
        · cases List.mem_singleton.mp hm
          exact .inr ⟨⟨rfl, rfl⟩, .inr ⟨rfl, .inr rfl⟩⟩
  | remove d n =>
    cases c with
    | some x => exact .same rfl
    | none =>
      rw [exec]
      split
      · exact .same rfl
      · refine .edit d [(n, none)] rfl fun m v hm => ?_
        cases List.mem_singleton.mp hm
        exact .inl ⟨⟨rfl, rfl⟩, rfl⟩
  | mkdir d n sub =>
    cases c with
    | some x => exact .same rfl
    | none =>
      rw [exec]
      split
      · exact .same rfl
      · rename_i hfree
        exact .madeDir d n sub rfl (.inr ⟨⟨rfl, rfl⟩, .inl hfree⟩) fun _ => rfl

/-- A name after a change is as it was or as it was set. -/
theorem on_eq_or (l : Change N) (t : N → Option Nat) (n : N) : l.on t n = t n ∨ ∃ v, (n, v) ∈ l ∧ l.on t n = v := by
  induction l generalizing t with
  | nil => exact .inl rfl
  | cons e l ih =>
    rw [Change.on, List.foldl_cons, ← Change.on]
    rcases ih (Function.update t e.1 e.2) with h | ⟨v, hv, h⟩
    · rw [h]
      by_cases hn : n = e.1
      · subst hn
        exact .inr ⟨e.2, List.mem_cons_self, Function.update_self ..⟩
      · exact .inl (Function.update_of_ne hn ..)
    · exact .inr ⟨v, List.mem_cons_of_mem _ hv, h⟩

theorem image_edit_cases (s : Fs D N C) (d : D) (l : Change N) (d' : D) (n : N) :
    (s.edit d l).image d' n = s.image d' n ∨ d' = d ∧ ∃ v, (n, v) ∈ l ∧ (s.edit d l).image d' n = v := by
  rw [image_edit]
  by_cases hd : d' = d
  · subst hd
    rw [Function.update_self]
    exact (on_eq_or l (s.image d') n).imp_right fun h => ⟨rfl, h⟩
  · exact .inl (by rw [Function.update_of_ne hd])

theorem mayBe_edit_cases {T : D → N → Option Nat} {l : Change N} (h : (s.edit d l).MayBe T) :
    ∃ T₀, s.MayBe T₀ ∧ ∀ d' n, T d' n = T₀ d' n ∨ d' = d ∧ ∃ v, (n, v) ∈ l ∧ T d' n = v := by
  rcases h.of_edit with h | ⟨T₀, h₀, rfl⟩
  · exact ⟨T, h, fun _ _ => .inl rfl⟩
  · refine ⟨T₀, h₀, fun d' n => ?_⟩
    by_cases hd : d' = d
    · subst hd
      rw [Function.update_self]
      exact (on_eq_or l (T₀ d') n).imp_right fun h => ⟨rfl, h⟩
    · exact .inl (by rw [Function.update_of_ne hd])

omit [DecidableEq D] in
theorem image_congr {s' : Fs D N C} (h : s'.dirs = s.dirs) : s'.image = s.image := by
  funext d
  rw [image, image, h]

omit [DecidableEq D] in
theorem mayBe_congr {s' : Fs D N C} (h : s'.dirs = s.dirs) {T : D → N → Option Nat} : s'.MayBe T ↔ s.MayBe T := by
  rw [MayBe, MayBe, h]

/-- What an operation makes of an entry that is shown. -/
theorem image_exec (c : Option C) (o : Op D N C β) (s : Fs D N C) (d : D) (n : N) :
    (exec c o s).2.image d n = s.image d n ∨ Sets s o d n ((exec c o s).2.image d n) := by
  cases redirs_exec c o s with
  | same h => exact .inl (by rw [image_congr h])
  | synced d₀ h => exact .inl (by rw [image_congr h, image_synced])
  | edit d₀ l h hl =>
    rw [image_congr h]
    rcases image_edit_cases s d₀ l d n with hd | ⟨rfl, v, hv, hd⟩
    · exact .inl hd
    · rw [hd]
      exact .inr (hl n v hv)
  | madeDir d₀ n₀ sub h hn hsub =>
    rw [image_congr h]
    by_cases hd : d = sub
    · refine .inr (.inl ⟨hd ▸ hsub n, ?_⟩)
      rw [hd, image, dirs_madeDir, Function.update_self]
      rfl
    · have himage : (s.madeDir d₀ n₀ sub).image d = (s.edit d₀ [(n₀, some s.next)]).image d := by
        rw [image, image, dirs_madeDir, Function.update_of_ne hd]
      rw [himage]
      rcases image_edit_cases s d₀ [(n₀, some s.next)] d n with hd | ⟨rfl, v, hv, hd⟩
      · exact .inl hd
      · cases List.mem_singleton.mp hv
        rw [hd]
        exact .inr hn

/-- What an operation makes of an entry that a crash can leave. -/
theorem mayBe_exec {T : D → N → Option Nat} (h : (exec c o s).2.MayBe T) :
    ∃ T₀, s.MayBe T₀ ∧ ∀ d n, T d n = T₀ d n ∨ Sets s o d n (T d n) := by
  cases redirs_exec c o s with
  | same hd => exact ⟨T, (mayBe_congr hd).mp h, fun _ _ => .inl rfl⟩
  | synced d₀ hd => exact ⟨T, ((mayBe_congr hd).mp h).of_synced.1, fun _ _ => .inl rfl⟩
  | edit d₀ l hd hl =>
    obtain ⟨T₀, h₀, hT⟩ := mayBe_edit_cases ((mayBe_congr hd).mp h)
    refine ⟨T₀, h₀, fun d n => (hT d n).imp_right ?_⟩
    rintro ⟨rfl, v, hv, hv'⟩
    rw [hv']
    exact hl n v hv
  | madeDir d₀ n₀ sub hd hn hsub =>
    have h := (mayBe_congr hd).mp h
    have hempty : T sub = fun _ => none := by
      have := h sub
      rw [dirs_madeDir, Function.update_self] at this
      exact (Dir.mayBe_of_nil rfl).mp this
    -- outside of the new directory it is an edit
    have hedit : (s.edit d₀ [(n₀, some s.next)]).MayBe
        (Function.update T sub ((s.edit d₀ [(n₀, some s.next)]).image sub)) := by
      intro d
      by_cases hs : d = sub
      · rw [hs, Function.update_self]
        exact mayBe_image _ sub
      · have := h d
        rw [dirs_madeDir, Function.update_of_ne hs] at this
        rwa [Function.update_of_ne hs]
    obtain ⟨T₀, h₀, hT⟩ := mayBe_edit_cases hedit
    refine ⟨T₀, h₀, fun d n => ?_⟩
    by_cases hs : d = sub
    · exact .inr (.inl ⟨hs ▸ hsub n, by rw [hs, hempty]⟩)
    · have := hT d n
      rw [Function.update_of_ne hs] at this
      refine this.imp_right ?_
      rintro ⟨rfl, v, hv, hv'⟩
      cases List.mem_singleton.mp hv
      rw [hv']
      exact hn

/-! ## Entries that stay -/

theorem image_kept {i : Nat} (h : s.image d n = some i) (hr : ¬ o.removes d n) :
    (exec c o s).2.image d n = some i := by
  rcases image_exec c o s d n with hs | ⟨hrem, -⟩ | ⟨-, hfree | hrem⟩
  · rw [hs, h]
  · exact absurd hrem hr
  · rw [h] at hfree
    exact nomatch hfree
  · exact absurd hrem hr

theorem image_unadded (h : s.image d n = none) (ha : ¬ o.adds d n) : (exec c o s).2.image d n = none := by
  rcases image_exec c o s d n with hs | ⟨-, hnone⟩ | ⟨hadd, -⟩
  · rw [hs, h]
  · exact hnone
  · exact absurd hadd ha

theorem image_kept_ne (h : s.image d n ≠ none) (hr : ¬ o.removes d n) : (exec c o s).2.image d n ≠ none := by
  obtain ⟨i, hi⟩ := Option.ne_none_iff_exists'.mp h
  rw [image_kept hi hr]
  exact Option.some_ne_none i

theorem image_linked {d' : D} {n' : N} {u : Unit} (h : (exec c (.link d' n' d n) s).1 = .ok u) :
    (exec c (.link d' n' d n) s).2.image d n ≠ none := by
  cases c with
  | some torn => cases h
  | none =>
    rw [exec] at h ⊢
    cases hi : s.image d' n' with
    | none =>
      rw [hi] at h
      cases h
    | some i =>
      cases hn : s.image d n with
      | some k =>
        rw [hi, hn] at h
        cases h
      | none =>
        dsimp only
        rw [image_edit, Function.update_self, Change.on_set, Function.update_self]
        exact Option.some_ne_none i

theorem image_removed {u : Unit} (h : (exec c (.remove d n) s).1 = .ok u) :
    (exec c (.remove d n) s).2.image d n = none := by
  cases c with
  | some torn => cases h
  | none =>
    rw [exec] at h ⊢
    cases hi : s.image d n with
    | none =>
      rw [hi] at h
      cases h
    | some i =>
      dsimp only
      rw [image_edit, Function.update_self, Change.on_set, Function.update_self]

/-- The entry is there in every image that a crash can leave. -/
def Durable (s : Fs D N C) (d : D) (n : N) : Prop := ∀ T, s.MayBe T → T d n ≠ none

/-- The entry is there in no image that a crash can leave. -/
def Absent (s : Fs D N C) (d : D) (n : N) : Prop := ∀ T, s.MayBe T → T d n = none

theorem Durable.exec (h : s.Durable d n) (hr : ¬ o.removes d n) : (Fs.exec c o s).2.Durable d n := by
  intro T hT
  obtain ⟨T₀, h₀, hcases⟩ := mayBe_exec hT
  rcases hcases d n with hs | ⟨hrem, -⟩ | ⟨-, hfree | hrem⟩
  · rw [hs]
    exact h T₀ h₀
  · exact absurd hrem hr
  · exact absurd hfree (h s.image s.mayBe_image)
  · exact absurd hrem hr

theorem Absent.exec (h : s.Absent d n) (ha : ¬ o.adds d n) : (Fs.exec c o s).2.Absent d n := by
  intro T hT
  obtain ⟨T₀, h₀, hcases⟩ := mayBe_exec hT
  rcases hcases d n with hs | ⟨-, hnone⟩ | ⟨hadd, -⟩
  · rw [hs, h T₀ h₀]
  · exact hnone
  · exact absurd hadd ha

theorem files_exec (hw : ¬ o.writes) : (Fs.exec c o s).2.files = s.files := by
  cases o with
  | look f => cases c <;> rfl
  | touch => cases c <;> rfl
  | fsync i => cases c <;> rfl
  | syncDir d => cases c <;> rfl
  | write i x => exact absurd trivial hw
  | create d n blank => exact absurd trivial hw
  | link d₁ n₁ d₂ n₂ | rename d n₁ n₂ | remove d n | mkdir d n sub =>
    cases c with
    | some x => rfl
    | none =>
      rw [exec]
      split <;> rfl

end Fs

/-! ## Frames -/

/-- The operation takes away only entries of `rem`, puts in only entries of `add`, and
writes no file unless `w`. -/
structure Touches (w : Bool) (rem add : D → N → Prop) (β : Type) (o : Op D N C β) : Prop where
  writes : o.writes → w = true
  removes : ∀ d n, o.removes d n → rem d n
  adds : ∀ d n, o.adds d n → add d n

section Only

variable {ok : (β : Type) → Op D N C β → Prop} {w : Bool} {rem add : D → N → Prop}

theorem only_step {o : Op D N C (Except Fault α)} {e : ε} (h : ok _ o) : (step o e).Only ok :=
  Prog.only_bind (Prog.only_call h) fun _ => Prog.only_orFail

theorem touches_look {f : Fs D N C → α} : Touches w rem add _ (.look f) :=
  ⟨False.elim, fun _ _ => False.elim, fun _ _ => False.elim⟩

theorem touches_touch : Touches w rem add _ (.touch : Op D N C _) :=
  ⟨False.elim, fun _ _ => False.elim, fun _ _ => False.elim⟩

theorem touches_syncDir {d : D} : Touches w rem add _ (.syncDir d : Op D N C _) :=
  ⟨False.elim, fun _ _ => False.elim, fun _ _ => False.elim⟩

theorem touches_remove {d : D} {n : N} (h : rem d n) : Touches w rem add _ (.remove d n : Op D N C _) :=
  ⟨False.elim, fun _ _ hr => by obtain ⟨rfl, rfl⟩ := hr; exact h, fun _ _ => False.elim⟩

theorem touches_link {d d' : D} {n n' : N} (h : add d' n') : Touches w rem add _ (.link d n d' n' : Op D N C _) :=
  ⟨False.elim, fun _ _ => False.elim, fun _ _ ha => by obtain ⟨rfl, rfl⟩ := ha; exact h⟩

theorem touches_mkdir {d sub : D} {n : N} (hrem : ∀ m, rem sub m) (hadd : add d n) :
    Touches w rem add _ (.mkdir d n sub : Op D N C _) :=
  ⟨False.elim, fun _ m hr => by obtain rfl := hr; exact hrem m, fun _ _ ha => by obtain ⟨rfl, rfl⟩ := ha; exact hadd⟩

theorem touches_write {i : Nat} {x : C} : Touches true rem add _ (.write i x : Op D N C _) :=
  ⟨fun _ => rfl, fun _ _ => False.elim, fun _ _ => False.elim⟩

theorem touches_fsync {i : Nat} : Touches w rem add _ (.fsync i : Op D N C _) :=
  ⟨False.elim, fun _ _ => False.elim, fun _ _ => False.elim⟩

theorem touches_create {d : D} {n : N} {x : C} (h : add d n) : Touches true rem add _ (.create d n x) :=
  ⟨fun _ => rfl, fun _ _ => False.elim, fun _ _ ha => by obtain ⟨rfl, rfl⟩ := ha; exact h⟩

theorem only_read {f : Fs D N C → Except ε α} {e : ε} : (read f e).Only (Touches w rem add) :=
  Prog.only_bind (only_step touches_look) fun _ => Prog.only_orFail

end Only

section Frame

variable [DecidableEq D] [DecidableEq N]

/-- What is as it was. -/
structure Frame (w : Bool) (rem add : D → N → Prop) (s s' : Fs D N C) : Prop where
  files : w = false → s'.files = s.files
  kept : ∀ d n i, s.image d n = some i → ¬ rem d n → s'.image d n = some i
  unadded : ∀ d n, s.image d n = none → ¬ add d n → s'.image d n = none
  durable : ∀ d n, s.Durable d n → ¬ rem d n → s'.Durable d n
  absent : ∀ d n, s.Absent d n → ¬ add d n → s'.Absent d n

variable {w : Bool} {rem add : D → N → Prop} {s s' : Fs D N C}

omit [DecidableEq D] in
theorem Frame.refl (w : Bool) (rem add : D → N → Prop) (s : Fs D N C) : Frame w rem add s s :=
  ⟨fun _ => rfl, fun _ _ _ h _ => h, fun _ _ h _ => h, fun _ _ h _ => h, fun _ _ h _ => h⟩

theorem Frame.exec {o : Op D N C β} (h : Frame w rem add s s') (ho : Touches w rem add β o) (c : Option C) :
    Frame w rem add s (Fs.exec c o s').2 where
  files hw := by
    rw [Fs.files_exec fun hwrites => by rw [ho.writes hwrites] at hw; exact nomatch hw]
    exact h.files hw
  kept d n i hi hr := Fs.image_kept (h.kept d n i hi hr) fun hrem => hr (ho.removes d n hrem)
  unadded d n hn ha := Fs.image_unadded (h.unadded d n hn ha) fun hadd => ha (ho.adds d n hadd)
  durable d n hd hr := (h.durable d n hd hr).exec fun hrem => hr (ho.removes d n hrem)
  absent d n hd ha := (h.absent d n hd ha).exec fun hadd => ha (ho.adds d n hadd)

/-- Any step may fail. -/
abbrev Faulty (K : Fs D N C → Prop) (p : Prog (Op D N C) ε α) (Q : Except ε α → Fs D N C → Prop)
    (s : Fs D N C) : Prop :=
  p.wp Fs.machine (fun _ _ _ => True) K Q s

/-- A program that touches only certain entries leaves the others as they are. -/
theorem frame_of_only {p : Prog (Op D N C) ε α} (h : p.Only (Touches w rem add)) {K : Fs D N C → Prop}
    {Q : Except ε α → Fs D N C → Prop} (hQ : Faulty K p Q s) :
    Faulty (fun s' => K s' ∧ Frame w rem add s s') p (fun r s' => Q r s' ∧ Frame w rem add s s') s :=
  h.wp_and (fun _ _ c _ ho hs => Frame.exec hs ho c) (.refl w rem add s) hQ

/-- Such a program continues a frame. -/
theorem Frame.only {p : Prog (Op D N C) ε α} {s₁ : Fs D N C} (h : Frame w rem add s s₁)
    (hp : p.Only (Touches w rem add)) : Faulty (Frame w rem add s) p (fun _ s' => Frame w rem add s s') s₁ := by
  have hall : Faulty (fun s' => True ∧ Frame w rem add s s') p (fun _ s' => True ∧ Frame w rem add s s') s₁ :=
    hp.wp_and (fun _ _ c _ ho hs => Frame.exec hs ho c) h Prog.wp_true
  exact Prog.wp_stop (Prog.wp_mono hall fun _ _ hr => hr.2) fun _ hs => hs.2

end Frame

/-! ## Contents -/

section Contents

variable [DecidableEq D] [DecidableEq N]

namespace Fs

/-- What an entry shows: nothing, or the content of its file. -/
def shows (s : Fs D N C) (d : D) (n : N) : Option C := (s.image d n).map s.files

omit [DecidableEq D] in
/-- Every image that a crash can leave is left by some crash. -/
theorem exists_crash {s : Fs D N C} {T : D → N → Option Nat} (h : s.MayBe T) (torn : Nat → C) :
    ∃ l : Loss D C, l.torn = torn ∧ (s.crash l).image = T := by
  have hkeep : ∀ {kept pending : List (Change N)}, kept.Sublist pending →
      ∃ keep : List Bool, (((pending.zip keep).filter (·.2)).map (·.1)) = kept := by
    intro kept pending hsub
    induction hsub with
    | slnil => exact ⟨[], rfl⟩
    | cons c _ ih =>
      obtain ⟨keep, hk⟩ := ih
      exact ⟨false :: keep, hk⟩
    | cons_cons c _ ih =>
      obtain ⟨keep, hk⟩ := ih
      exact ⟨true :: keep, congrArg (c :: ·) hk⟩
  have hdir : ∀ d, ∃ keep : List Bool, ((s.dirs d).crash keep).visible.at = T d := by
    intro d
    obtain ⟨kept, hsub, ht⟩ := h d
    obtain ⟨keep, hk⟩ := hkeep hsub
    refine ⟨keep, ?_⟩
    rw [ht, ← hk]
    exact Dir.at_foldl (s.dirs d).durable _
  choose keep hkeep using hdir
  exact ⟨⟨keep, torn⟩, rfl, funext hkeep⟩

omit [DecidableEq D] in
/-- Where nothing is pending or dirty, a crash changes nothing. -/
theorem shows_crash {s : Fs D N C} (hs : s.Settled) (hd : s.dirty = []) (l : Loss D C) : (s.crash l).shows = s.shows := by
  funext d n
  have himage : (s.crash l).image = s.image := hs _ (s.mayBe_crash l)
  have hfiles : (s.crash l).files = s.files := by
    funext i
    show (if i ∈ s.dirty then l.torn i else s.files i) = s.files i
    rw [hd, if_neg List.not_mem_nil]
  rw [shows, shows, himage, hfiles]

/-- The file that an operation creates, writes or syncs. -/
def concerns (s : Fs D N C) : Op D N C β → Nat → Prop
  | .create .., i => i = s.next
  | .write j _, i => i = j
  | .fsync j, i => i = j
  | _, _ => False

theorem content_exec {s : Fs D N C} {o : Op D N C β} {c : Option C} {i : Nat} (h : ¬ s.concerns o i) :
    (exec c o s).2.files i = s.files i ∧ (i ∈ (exec c o s).2.dirty ↔ i ∈ s.dirty) := by
  cases o with
  | look f | touch | syncDir d => cases c <;> exact ⟨rfl, Iff.rfl⟩
  | write j x =>
    have hne : i ≠ j := h
    cases c with
    | none | some t => exact ⟨Function.update_of_ne hne .., List.mem_cons.trans (or_iff_right hne)⟩
  | fsync j =>
    have hne : i ≠ j := h
    cases c with
    | none => exact ⟨rfl, List.mem_filter.trans (and_iff_left (decide_eq_true hne))⟩
    | some t => exact ⟨rfl, Iff.rfl⟩
  | create d n blank =>
    have hne : i ≠ s.next := h
    cases c with
    | some t => exact ⟨rfl, Iff.rfl⟩
    | none =>
      rw [exec]
      split
      · exact ⟨rfl, Iff.rfl⟩
      · exact ⟨Function.update_of_ne hne .., Iff.rfl⟩
  | link d₁ n₁ d₂ n₂ | rename d n₁ n₂ | remove d n | mkdir d n sub =>
    cases c with
    | some t => exact ⟨rfl, Iff.rfl⟩
    | none =>
      rw [exec]
      split <;> exact ⟨rfl, Iff.rfl⟩

end Fs

variable {names : D → N → Prop} {fresh : Nat} {s s' : Fs D N C}

/-- Away from `names` and from the file `fresh` everything is as it was. -/
structure Apart (names : D → N → Prop) (fresh : Nat) (s s' : Fs D N C) : Prop where
  image : ∀ d n, ¬ names d n → s'.image d n = s.image d n
  mayBe : ∀ T, s'.MayBe T → ∃ T₀, s.MayBe T₀ ∧ ∀ d n, ¬ names d n → T d n = T₀ d n
  content : ∀ i, i ≠ fresh → s'.files i = s.files i ∧ (i ∈ s'.dirty ↔ i ∈ s.dirty)

omit [DecidableEq D] in
theorem Apart.refl (names : D → N → Prop) (fresh : Nat) (s : Fs D N C) : Apart names fresh s s :=
  ⟨fun _ _ _ => rfl, fun T hT => ⟨T, hT, fun _ _ _ => rfl⟩, fun _ _ => ⟨rfl, Iff.rfl⟩⟩

theorem Apart.exec {o : Op D N C β} (h : Apart names fresh s s') (ho : Touches true names names β o)
    (hfile : ∀ i, s'.concerns o i → i = fresh) (c : Option C) : Apart names fresh s (Fs.exec c o s').2 where
  image d n hn := by
    rcases Fs.image_exec c o s' d n with hs | ⟨hrem, -⟩ | ⟨hadd, -⟩
    · rw [hs]
      exact h.image d n hn
    · exact absurd (ho.removes d n hrem) hn
    · exact absurd (ho.adds d n hadd) hn
  mayBe T hT := by
    obtain ⟨T₁, h₁, hT₁⟩ := Fs.mayBe_exec hT
    obtain ⟨T₀, h₀, hT₀⟩ := h.mayBe T₁ h₁
    refine ⟨T₀, h₀, fun d n hn => ?_⟩
    rw [← hT₀ d n hn]
    rcases hT₁ d n with hs | ⟨hrem, -⟩ | ⟨hadd, -⟩
    · exact hs
    · exact absurd (ho.removes d n hrem) hn
    · exact absurd (ho.adds d n hadd) hn
  content i hi := by
    obtain ⟨hfiles, hdirty⟩ := Fs.content_exec (c := c) fun hc => hi (hfile i hc)
    exact ⟨hfiles.trans (h.content i hi).1, hdirty.trans (h.content i hi).2⟩

/-- No entry, shown or left by a crash, has the file that is created next. -/
def Unused (s : Fs D N C) : Prop := ∀ T, s.MayBe T → ∀ d n, T d n ≠ some s.next

omit [DecidableEq D] in
/-- The same entry shows the same content. -/
theorem Apart.shows_of_image (h : Apart names s.next s s') (hs : Unused s) {d : D} {n : N}
    (himage : s'.image d n = s.image d n) : s'.shows d n = s.shows d n := by
  rw [Fs.shows, Fs.shows, himage]
  cases hi : s.image d n with
  | none => rfl
  | some i => exact congrArg some (h.content i fun heq => hs _ s.mayBe_image d n (heq ▸ hi)).1

omit [DecidableEq D] in
theorem Apart.shows (h : Apart names s.next s s') (hs : Unused s) {d : D} {n : N} (hn : ¬ names d n) :
    s'.shows d n = s.shows d n := h.shows_of_image hs (h.image d n hn)

omit [DecidableEq D] in
/-- The same entry shows the same content after a crash. -/
theorem Apart.crash_of_image (h : Apart names s.next s s') (hs : Unused s) {l l₀ : Fs.Loss D C} {d : D} {n : N}
    (htorn : l₀.torn = l.torn) (himage : (s'.crash l).image d n = (s.crash l₀).image d n) :
    (s'.crash l).shows d n = (s.crash l₀).shows d n := by
  rw [Fs.shows, Fs.shows, himage]
  cases hi : (s.crash l₀).image d n with
  | none => rfl
  | some i =>
    have hne : i ≠ s.next := fun heq => hs _ (s.mayBe_crash l₀) d n (heq ▸ hi)
    show some (if i ∈ s'.dirty then l.torn i else s'.files i) = some (if i ∈ s.dirty then l₀.torn i else s.files i)
    rw [htorn, (h.content i hne).1]
    exact congrArg some (if_congr (h.content i hne).2 rfl rfl)

omit [DecidableEq D] in
/-- A crash leaves away from the names what it could have left before. -/
theorem Apart.crash (h : Apart names s.next s s') (hs : Unused s) (l : Fs.Loss D C) :
    ∃ l₀, ∀ d n, ¬ names d n → (s'.crash l).shows d n = (s.crash l₀).shows d n := by
  obtain ⟨T₀, h₀, hT⟩ := h.mayBe _ (s'.mayBe_crash l)
  obtain ⟨l₀, htorn, himage⟩ := Fs.exists_crash h₀ l.torn
  refine ⟨l₀, fun d n hn => h.crash_of_image hs htorn ?_⟩
  rw [himage, hT d n hn]

end Contents

end CrashFs
