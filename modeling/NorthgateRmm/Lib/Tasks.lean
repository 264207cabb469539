import NorthgateRmm.Lib.Prog

/-!
# Tasks that share a state

Any number of programs run on one state and take turns. An operation at which a task
can be left waiting is a pause: the task stands before it until it is its turn, then the
operation happens, and the task goes on to its next pause without anybody else in
between. With every operation a pause these are threads whose operations are atomic;
with only some of them pauses these are coroutines. Between the turns the surroundings
may change the state as well.

`Safe` is the condition under which a task, together with others that change the state
only as `rely` allows, keeps an invariant of the state and itself changes the state only
as `guar` says. Tasks whose guarantees are what the others rely on keep the invariant
in every interleaving.
-/

/-- What operations do, which of them are pauses, and what happens between the turns. -/
structure Tasks (Op : Type → Type 1) (σ : Type) where
  step : {β : Type} → σ → Op β → β → σ → Prop
  pauses : {β : Type} → Op β → Bool
  ambient : σ → σ → Prop

namespace Tasks

variable {Op : Type → Type 1} {ε α β ι σ : Type} {T : Tasks Op σ}

/-- The program has ended. -/
def Ended : Prog Op ε α → Prop
  | .op _ _ => False
  | _ => True

/-- The program stands at a pause or has ended. -/
def Resting (T : Tasks Op σ) : Prog Op ε α → Prop
  | .op o _ => T.pauses o = true
  | _ => True

/-- The operations up to the next pause. -/
inductive Advance (T : Tasks Op σ) : Prog Op ε α → σ → Prog Op ε α → σ → Prop
  | stop {p : Prog Op ε α} {s : σ} : T.Resting p → Advance T p s p s
  | step {β : Type} {o : Op β} {k : β → Prog Op ε α} {b : β} {s s' s'' : σ} {p : Prog Op ε α} :
      T.pauses o = false → T.step s o b s' → Advance T (k b) s' p s'' → Advance T (.op o k) s p s''

structure Pool (Op : Type → Type 1) (ε α ι σ : Type) where
  state : σ
  task : ι → Prog Op ε α

/-- One turn of a task, or a change of the surroundings. -/
inductive Step [DecidableEq ι] (T : Tasks Op σ) : Pool Op ε α ι σ → Pool Op ε α ι σ → Prop
  | turn {pool : Pool Op ε α ι σ} {i : ι} {β : Type} {o : Op β} {k : β → Prog Op ε α} {b : β} {s s' : σ}
      {p : Prog Op ε α} : pool.task i = .op o k → T.step pool.state o b s → T.Advance (k b) s p s' →
      Step T pool ⟨s', Function.update pool.task i p⟩
  | ambient {pool : Pool Op ε α ι σ} {s : σ} : T.ambient pool.state s → Step T pool { pool with state := s }

inductive Reachable [DecidableEq ι] (T : Tasks Op σ) (start : Pool Op ε α ι σ) : Pool Op ε α ι σ → Prop
  | start : Reachable T start start
  | step {pool pool' : Pool Op ε α ι σ} : Reachable T start pool → T.Step pool pool' → Reachable T start pool'

variable {start pool : Pool Op ε α ι σ} {k : β → Prog Op ε α} {p : Prog Op ε α} {o : Op β} {i : ι}

/-- A task that has ended takes no more turns. -/
theorem Reachable.task_eq [DecidableEq ι] (h : T.Reachable start pool)
    (hi : Ended (start.task i)) : pool.task i = start.task i := by
  induction h with
  | start => rfl
  | step _ hstep ih =>
    cases hstep with
    | ambient _ => exact ih
    | @turn j _ o k b s s' p hj _ _ =>
      have hne : i ≠ j := by
        rintro rfl
        rw [← ih, hj] at hi
        exact hi
      exact (Function.update_of_ne hne _ _).trans ih

theorem Reachable.turn [DecidableEq ι] (h : T.Reachable start pool) (i : ι)
    (hi : pool.task i = .op o k) (b : β) (s : σ) (hs : T.step pool.state o b s)
    (hrest : T.Resting (k b)) : T.Reachable start ⟨s, Function.update pool.task i (k b)⟩ :=
  .step h (.turn hi hs (.stop hrest))

/-- Task `i` is in the middle of a turn: wherever it rests next can be reached. -/
def Midway [DecidableEq ι] (T : Tasks Op σ) (start : Pool Op ε α ι σ) (task : ι → Prog Op ε α) (i : ι)
    (p : Prog Op ε α) (s : σ) : Prop :=
  ∀ p' s', T.Advance p s p' s' → T.Reachable start ⟨s', Function.update task i p'⟩

theorem Reachable.begin [DecidableEq ι] (h : T.Reachable start pool) (i : ι)
    (hi : pool.task i = .op o k) (b : β) (s : σ) (hs : T.step pool.state o b s) :
    T.Midway start pool.task i (k b) s :=
  fun _ _ hadv => .step h (.turn hi hs hadv)

theorem Midway.next [DecidableEq ι] {start : Pool Op ε α ι σ} {task : ι → Prog Op ε α}
    {s : σ} (h : T.Midway start task i (.op o k) s) (ho : T.pauses o = false) (b : β) (s' : σ)
    (hs : T.step s o b s') : T.Midway start task i (k b) s' :=
  fun _ _ hadv => h _ _ (.step ho hs hadv)

theorem Midway.rest [DecidableEq ι] {start : Pool Op ε α ι σ} {task : ι → Prog Op ε α} {s : σ}
    (h : T.Midway start task i p s) (hp : T.Resting p) : T.Reachable start ⟨s, Function.update task i p⟩ :=
  h _ _ (.stop hp)

/-! ## Safe programs -/

/-- From `s` on, the program keeps `inv`, changes the state only as `guar` says, and ends
with `Q`, if the others keep `inv` too and change the state only as `rely` says. -/
def Safe (T : Tasks Op σ) (inv : σ → Prop) (rely guar : σ → σ → Prop) (Q : Except ε α → σ → Prop) :
    Prog Op ε α → σ → Prop
  | .ret a, s => Q (.ok a) s
  | .fail e, s => Q (.error e) s
  | .op o k, s => ∀ s₁, (if T.pauses o then rely s s₁ else s₁ = s) → inv s₁ → ∀ b s', T.step s₁ o b s' →
      inv s' ∧ guar s₁ s' ∧ T.Safe inv rely guar Q (k b) s'

variable {inv : σ → Prop} {rely guar : σ → σ → Prop} {Q : Except ε α → σ → Prop} {s s' : σ}

/-- A pause: the others may have acted before the operation. -/
theorem Safe.pause (ho : T.pauses o = true)
    (h : ∀ s₁, rely s s₁ → inv s₁ → ∀ b s', T.step s₁ o b s' → inv s' ∧ guar s₁ s' ∧ T.Safe inv rely guar Q (k b) s') :
    T.Safe inv rely guar Q (.op o k) s := by
  intro s₁ hs₁
  rw [if_pos ho] at hs₁
  exact h s₁ hs₁

/-- An operation that follows at once. -/
theorem Safe.next (ho : T.pauses o = false)
    (h : inv s → ∀ b s', T.step s o b s' → inv s' ∧ guar s s' ∧ T.Safe inv rely guar Q (k b) s') :
    T.Safe inv rely guar Q (.op o k) s := by
  intro s₁ hs₁
  rw [if_neg (by simp [ho])] at hs₁
  exact hs₁ ▸ h

theorem Safe.bind {γ : Type} {p : Prog Op ε γ} {f : γ → Prog Op ε α}
    (h : T.Safe inv rely guar (fun r s' => match r with
      | .ok a => T.Safe inv rely guar Q (f a) s'
      | .error e => Q (.error e) s') p s) : T.Safe inv rely guar Q (p >>= f) s := by
  show T.Safe inv rely guar Q (p.bind f) s
  induction p generalizing s with
  | ret a => exact h
  | fail e => exact h
  | op o k ih =>
    intro s₁ hs₁ hinv b s' hstep
    obtain ⟨hinv', hguar, hk⟩ := h s₁ hs₁ hinv b s' hstep
    exact ⟨hinv', hguar, ih b hk⟩

/-- A pause after which the state is as the others left it. -/
theorem Safe.await (hrefl : ∀ s, guar s s) {f : β → Prog Op ε α} (ho : T.pauses o = true)
    (hsame : ∀ s b s', T.step s o b s' → s' = s)
    (h : ∀ s₁, rely s s₁ → ∀ b, T.step s₁ o b s₁ → T.Safe inv rely guar Q (f b) s₁) :
    T.Safe inv rely guar Q (.call o >>= f) s := by
  refine .bind (.pause ho fun s₁ hs₁ hinv b s' hstep => ?_)
  cases hsame s₁ b s' hstep
  exact ⟨hinv, hrefl _, h s₁ hs₁ b hstep⟩

/-- An operation that follows at once and leaves the state as it is. -/
theorem Safe.look (hrefl : ∀ s, guar s s) {f : β → Prog Op ε α} (ho : T.pauses o = false)
    (hsame : ∀ s b s', T.step s o b s' → s' = s) (h : ∀ b, T.step s o b s → T.Safe inv rely guar Q (f b) s) :
    T.Safe inv rely guar Q (.call o >>= f) s := by
  refine .bind (.next ho fun hinv b s' hstep => ?_)
  cases hsame s b s' hstep
  exact ⟨hinv, hrefl _, h b hstep⟩

theorem Safe.attempt {ε' : Type} {Q : Except ε' (Except ε α) → σ → Prop}
    (h : T.Safe inv rely guar (fun r s' => Q (.ok r) s') p s) :
    T.Safe inv rely guar Q (p.attempt : Prog Op ε' (Except ε α)) s := by
  induction p generalizing s with
  | ret a => exact h
  | fail e => exact h
  | op o k ih =>
    intro s₁ hs₁ hinv b s' hstep
    obtain ⟨hinv', hguar, hk⟩ := h s₁ hs₁ hinv b s' hstep
    exact ⟨hinv', hguar, ih b hk⟩

theorem Safe.mono {Q' : Except ε α → σ → Prop} (h : T.Safe inv rely guar Q p s)
    (hQ : ∀ r s', Q r s' → Q' r s') : T.Safe inv rely guar Q' p s := by
  induction p generalizing s with
  | ret a => exact hQ _ _ h
  | fail e => exact hQ _ _ h
  | op o k ih =>
    intro s₁ hs₁ hinv b s' hstep
    obtain ⟨hinv', hguar, hk⟩ := h s₁ hs₁ hinv b s' hstep
    exact ⟨hinv', hguar, ih b hk⟩

theorem Safe.of_ended (h : T.Safe inv rely guar Q p s) (hp : Ended p) : ∃ r, Q r s := by
  cases p with
  | ret a => exact ⟨_, h⟩
  | fail e => exact ⟨_, h⟩
  | op o k => exact hp.elim

/-- A resting task does not mind what the others do. -/
theorem Safe.stable (htrans : ∀ s₁ s₂ s₃, rely s₁ s₂ → rely s₂ s₃ → rely s₁ s₃)
    (hQ : ∀ r s s', rely s s' → Q r s → Q r s') (hp : T.Resting p)
    (h : T.Safe inv rely guar Q p s) (hs : rely s s') : T.Safe inv rely guar Q p s' := by
  cases p with
  | ret a => exact hQ _ _ _ hs h
  | fail e => exact hQ _ _ _ hs h
  | op o k =>
    have hp : T.pauses o = true := hp
    refine .pause hp fun s₁ hs₁ => h s₁ ?_
    rw [if_pos hp]
    exact htrans _ _ _ hs hs₁

/-- What a safe program does up to its next pause. -/
theorem Advance.of_safe {P : σ → σ → Prop} (hrefl : ∀ s, P s s)
    (htrans : ∀ s₁ s₂ s₃, guar s₁ s₂ → P s₂ s₃ → P s₁ s₃) {p p' : Prog Op ε α} (hadv : T.Advance p s p' s')
    (h : T.Safe inv rely guar Q p s) (hinv : inv s) :
    inv s' ∧ P s s' ∧ T.Resting p' ∧ T.Safe inv rely guar Q p' s' := by
  induction hadv with
  | stop hrest => exact ⟨hinv, hrefl _, hrest, h⟩
  | step ho hstep _ ih =>
    obtain ⟨hinv', hguar, hk⟩ := h _ (by rw [if_neg (by simp [ho])]) hinv _ _ hstep
    obtain ⟨hinv'', hP, hrest, hsafe⟩ := ih hk hinv'
    exact ⟨hinv'', htrans _ _ _ hguar hP, hrest, hsafe⟩

/-! ## Interleavings -/

/-- **Soundness.** Tasks that are safe among each other are so in every interleaving. -/
theorem Reachable.safe [DecidableEq ι] (h : T.Reachable start pool) (inv : σ → Prop)
    (rely guar : ι → σ → σ → Prop) (Q : ι → Except ε α → σ → Prop)
    (hrefl : ∀ i s, rely i s s) (htrans : ∀ i s₁ s₂ s₃, rely i s₁ s₂ → rely i s₂ s₃ → rely i s₁ s₃)
    (hguar : ∀ i j s s', i ≠ j → guar j s s' → rely i s s')
    (hambient : ∀ s s', T.ambient s s' → inv s → inv s' ∧ ∀ i, rely i s s')
    (hQ : ∀ i r s s', rely i s s' → Q i r s → Q i r s') (hinv : inv start.state)
    (hstart : ∀ i, T.Resting (start.task i) ∧ T.Safe inv (rely i) (guar i) (Q i) (start.task i) start.state) :
    inv pool.state ∧
      ∀ i, T.Resting (pool.task i) ∧ T.Safe inv (rely i) (guar i) (Q i) (pool.task i) pool.state := by
  induction h with
  | start => exact ⟨hinv, hstart⟩
  | step _ hstep ih =>
    obtain ⟨hinv, htasks⟩ := ih
    cases hstep with
    | ambient hs =>
      obtain ⟨hinv', hrely⟩ := hambient _ _ hs hinv
      exact ⟨hinv', fun i => ⟨(htasks i).1, (htasks i).2.stable (htrans i) (hQ i) (htasks i).1 (hrely i)⟩⟩
    | @turn i _ o k b s s' p hi hstep hadv =>
      have hsafe := (htasks i).2
      have hrest := (htasks i).1
      rw [hi] at hsafe hrest
      have hrest : T.pauses o = true := hrest
      obtain ⟨hinv₁, hguar₁, hk⟩ := hsafe _ (by rw [if_pos hrest]; exact hrefl i _) hinv b s hstep
      obtain ⟨hinv', hothers, hrest', hsafe'⟩ := hadv.of_safe (P := fun s s' => ∀ j, j ≠ i → rely j s s')
        (fun s j _ => hrefl j s) (fun _ _ _ hg hP j hj => htrans j _ _ _ (hguar j i _ _ hj hg) (hP j hj)) hk hinv₁
      refine ⟨hinv', fun j => ?_⟩
      by_cases hj : j = i
      · subst hj
        simpa using ⟨hrest', hsafe'⟩
      · simp only [Function.update_of_ne hj]
        exact ⟨(htasks j).1, (htasks j).2.stable (htrans j) (hQ j) (htasks j).1
          (htrans j _ _ _ (hguar j i _ _ hj hguar₁) (hothers j hj))⟩

end Tasks
