import Mathlib

/-!
# Programs of interruptible steps

A program is a sequence of atomic operations on a state. Each operation answers
with a value that decides how the program goes on, and the program ends with a
result or with an error. A machine says what an operation does under a choice
made by the environment (whether a file operation fails, for instance), so a
run is determined by the list of choices; a run whose choices are used up stops
between two operations, as a process does that is killed there.

`wp` is the condition under which every run from a state ends well: every
state in which the program can be stopped meets `C`, and every result is
reached in a state that meets `Q`.
-/

/-- Operations of type `Op`, errors of type `ε`, results of type `α`. -/
inductive Prog (Op : Type → Type 1) (ε α : Type) : Type 1
  | ret (a : α)
  | fail (e : ε)
  | op {β : Type} (o : Op β) (k : β → Prog Op ε α)

/-- What an operation answers and does, under a choice of type `χ`. -/
structure Machine (Op : Type → Type 1) (σ χ : Type) where
  exec : {β : Type} → χ → Op β → σ → β × σ

namespace Prog

variable {Op : Type → Type 1} {ε ε' α β γ σ χ : Type}

def bind : Prog Op ε α → (α → Prog Op ε β) → Prog Op ε β
  | ret a, f => f a
  | fail e, _ => fail e
  | op o k, f => op o fun b => (k b).bind f

instance : Monad (Prog Op ε) where
  pure := ret
  bind := bind

/-- One operation. -/
def call (o : Op β) : Prog Op ε β := op o ret

/-- Goes on only when the condition holds. -/
def require (b : Bool) (e : ε) : Prog Op ε Unit := if b then ret () else fail e

/-- Runs the program only when the condition does not hold. -/
def ifNot (b : Bool) (p : Prog Op ε Unit) : Prog Op ε Unit := if b then ret () else p

/-- The value of an answer, or the error it stands for. -/
def orFail (r : Except ε' α) (e : ε' → ε) : Prog Op ε α :=
  match r with
  | .ok a => ret a
  | .error f => fail (e f)

/-- The result of a program as a value: the caller decides what an error means. -/
def attempt : Prog Op ε α → Prog Op ε' (Except ε α)
  | ret a => ret (.ok a)
  | fail e => ret (.error e)
  | op o k => op o fun b => (k b).attempt

/-- A loop that ends at the first error. -/
def forEach (f : γ → Prog Op ε Unit) : List γ → Prog Op ε Unit
  | [] => ret ()
  | x :: xs => do f x; forEach f xs

/-! ## Runs -/

section Run

variable (M : Machine Op σ χ)

/-- The run under a list of choices; no result when the choices are used up. -/
def run : Prog Op ε α → List χ → σ → Option (Except ε α) × σ
  | ret a, _, s => (some (.ok a), s)
  | fail e, _, s => (some (.error e), s)
  | op _ _, [], s => (none, s)
  | op o k, c :: plan, s => (k (M.exec c o s).1).run plan (M.exec c o s).2

/-- The run to the end in which the environment always makes the same choice. -/
def finish (c : χ) : Prog Op ε α → σ → Except ε α × σ
  | ret a, s => (.ok a, s)
  | fail e, s => (.error e, s)
  | op o k, s => (k (M.exec c o s).1).finish c (M.exec c o s).2

theorem finish_bind {M : Machine Op σ χ} {c : χ} {p : Prog Op ε α} {f : α → Prog Op ε β} {s : σ} :
    (p >>= f).finish M c s = match p.finish M c s with
      | (.ok a, s') => (f a).finish M c s'
      | (.error e, s') => (.error e, s') := by
  show (p.bind f).finish M c s = _
  induction p generalizing s with
  | ret a => rfl
  | fail e => rfl
  | op o k ih => simp only [bind, finish, ih]

/-- The run to the end as a run under a list of choices. -/
theorem run_of_finish {M : Machine Op σ χ} {c : χ} (p : Prog Op ε α) (s : σ) :
    ∃ plan, p.run M plan s = (some (p.finish M c s).1, (p.finish M c s).2) := by
  induction p generalizing s with
  | ret a => exact ⟨[], rfl⟩
  | fail e => exact ⟨[], rfl⟩
  | op o k ih =>
    obtain ⟨plan, hplan⟩ := ih (M.exec c o s).1 (M.exec c o s).2
    exact ⟨c :: plan, hplan⟩

theorem finish_attempt {M : Machine Op σ χ} {c : χ} {p : Prog Op ε α} {s : σ} :
    (p.attempt : Prog Op ε' (Except ε α)).finish M c s = (.ok (p.finish M c s).1, (p.finish M c s).2) := by
  induction p generalizing s with
  | ret a => rfl
  | fail e => rfl
  | op o k ih => simp only [attempt, finish, ih]

end Run

/-! ## Weakest preconditions -/

section Wp

/-- Which choices the environment may make for which operation. -/
abbrev Policy (Op : Type → Type 1) (χ : Type) := (β : Type) → χ → Op β → Prop

variable (M : Machine Op σ χ) (allow : Policy Op χ) (C : σ → Prop)

def wp : Prog Op ε α → (Except ε α → σ → Prop) → σ → Prop
  | ret a, Q, s => Q (.ok a) s
  | fail e, Q, s => Q (.error e) s
  | op o k, Q, s => C s ∧ ∀ c, allow _ c o → (k (M.exec c o s).1).wp Q (M.exec c o s).2

variable {M allow C}
variable {Q Q' : Except ε α → σ → Prop} {s : σ}

@[simp]
theorem wp_ret {a : α} : (ret a : Prog Op ε α).wp M allow C Q s ↔ Q (.ok a) s := Iff.rfl

@[simp]
theorem wp_fail {e : ε} : (fail e : Prog Op ε α).wp M allow C Q s ↔ Q (.error e) s := Iff.rfl

theorem wp_call {o : Op α} : (call o : Prog Op ε α).wp M allow C Q s ↔
    C s ∧ ∀ c, allow _ c o → Q (.ok (M.exec c o s).1) (M.exec c o s).2 := Iff.rfl

@[simp]
theorem wp_require {b : Bool} {e : ε} {Q : Except ε Unit → σ → Prop} :
    (require b e : Prog Op ε Unit).wp M allow C Q s ↔
      (b = true → Q (.ok ()) s) ∧ (b = false → Q (.error e) s) := by
  cases b <;> simp [require]

@[simp]
theorem wp_ifNot {b : Bool} {p : Prog Op ε Unit} {Q : Except ε Unit → σ → Prop} :
    (ifNot b p).wp M allow C Q s ↔ (b = true → Q (.ok ()) s) ∧ (b = false → p.wp M allow C Q s) := by
  cases b <;> simp [ifNot]

@[simp]
theorem wp_orFail {r : Except ε' α} {e : ε' → ε} :
    (orFail r e : Prog Op ε α).wp M allow C Q s ↔
      (∀ a, r = .ok a → Q (.ok a) s) ∧ ∀ f, r = .error f → Q (.error (e f)) s := by
  cases r <;> simp [orFail]

variable {p : Prog Op ε α}

@[simp]
theorem wp_bind {f : α → Prog Op ε β} {Q : Except ε β → σ → Prop} :
    (p >>= f).wp M allow C Q s ↔ p.wp M allow C (fun r s' => match r with
      | .ok a => (f a).wp M allow C Q s'
      | .error e => Q (.error e) s') s := by
  show (p.bind f).wp M allow C Q s ↔ _
  induction p generalizing s with
  | ret a => rfl
  | fail e => rfl
  | op o k ih => simp only [bind, wp, ih]

@[simp]
theorem wp_attempt {Q : Except ε' (Except ε α) → σ → Prop} :
    (p.attempt : Prog Op ε' (Except ε α)).wp M allow C Q s ↔
      p.wp M allow C (fun r s' => Q (.ok r) s') s := by
  induction p generalizing s with
  | ret a => rfl
  | fail e => rfl
  | op o k ih => simp only [attempt, wp, ih]

theorem wp_mono (h : p.wp M allow C Q s) (hQ : ∀ r s', Q r s' → Q' r s') :
    p.wp M allow C Q' s := by
  induction p generalizing s with
  | ret a => exact hQ _ _ h
  | fail e => exact hQ _ _ h
  | op o k ih => exact ⟨h.1, fun c hc => ih _ (h.2 c hc)⟩

theorem wp_stop {C' : σ → Prop} (h : p.wp M allow C Q s) (hC : ∀ s, C s → C' s) :
    p.wp M allow C' Q s := by
  induction p generalizing s with
  | ret a => exact h
  | fail e => exact h
  | op o k ih => exact ⟨hC s h.1, fun c hc => ih _ (h.2 c hc)⟩

/-- What is known of a program in two ways holds together. -/
theorem wp_and {allow' : Policy Op χ} {C' : σ → Prop} (h : p.wp M allow C Q s)
    (h' : p.wp M allow' C' Q' s) (hallow : ∀ β c o, allow β c o → allow' β c o) :
    p.wp M allow (fun s => C s ∧ C' s) (fun r s => Q r s ∧ Q' r s) s := by
  induction p generalizing s with
  | ret a => exact ⟨h, h'⟩
  | fail e => exact ⟨h, h'⟩
  | op o k ih => exact ⟨⟨h.1, h'.1⟩, fun c hc => ih _ (h.2 c hc) (h'.2 c (hallow _ c o hc))⟩

/-- A loop keeps an invariant that may speak of the items already treated, when
each round keeps it; an error of a round ends the loop. -/
theorem wp_forEach {f : γ → Prog Op ε Unit} {Q : Except ε Unit → σ → Prop}
    (I : List γ → σ → Prop) {xs : List γ} (hI : I [] s)
    (hround : ∀ done x rest, xs = done ++ x :: rest → ∀ s, I done s →
      (f x).wp M allow C (fun r s' => match r with
        | .ok _ => I (done ++ [x]) s'
        | .error e => Q (.error e) s') s)
    (hQ : ∀ s, I xs s → Q (.ok ()) s) : (forEach f xs).wp M allow C Q s := by
  suffices h : ∀ rest done s, xs = done ++ rest → I done s → (forEach f rest).wp M allow C Q s from
    h xs [] s rfl hI
  intro rest
  induction rest with
  | nil =>
    rintro done s hxs hs
    rw [List.append_nil] at hxs
    exact hQ s (hxs ▸ hs)
  | cons x rest ih =>
    intro done s hxs hs
    refine wp_bind.mpr (wp_mono (hround done x rest hxs s hs) fun r s' hr => ?_)
    cases r with
    | ok _ => exact ih (done ++ [x]) s' (by rw [hxs, List.append_assoc, List.singleton_append]) hr
    | error e => exact hr

/-- **Soundness.** A run either ends with a result in a state that meets `Q`, or
was stopped in a state that meets `C`. -/
theorem run_of_wp (h : p.wp M allow C Q s) {plan : List χ}
    (hplan : ∀ c ∈ plan, ∀ (β : Type) (o : Op β), allow β c o) :
    match p.run M plan s with
    | (some r, s') => Q r s'
    | (none, s') => C s' := by
  induction p generalizing s plan with
  | ret a => exact h
  | fail e => exact h
  | op o k ih =>
    cases plan with
    | nil => exact h.1
    | cons c plan =>
      exact ih _ (h.2 c (hplan c List.mem_cons_self _ o)) fun c' hc' => hplan c' (List.mem_cons_of_mem _ hc')

theorem finish_of_wp (h : p.wp M allow C Q s) {c : χ}
    (hc : ∀ (β : Type) (o : Op β), allow β c o) : Q (p.finish M c s).1 (p.finish M c s).2 := by
  induction p generalizing s with
  | ret a => exact h
  | fail e => exact h
  | op o k ih => exact ih _ (h.2 c (hc _ o))

end Wp

end Prog
