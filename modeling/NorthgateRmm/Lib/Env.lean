import NorthgateRmm.Lib.Prog

/-!
# Programs in an environment

An environment says which answers an operation may get and how the state of the
surroundings changes meanwhile; it may leave the answer open, and it may do much
more than the operation asked for. It also says in which states an operation can be
cut off. `Prog.Runs` is a run of a program in an environment, ended or stopped in the
middle. `Prog.Holds` is the condition under which every such run is good.
-/

universe u

structure Env (Op : Type → Type 1) (σ : Type u) where
  /-- which answers an operation may get in a state, and the state afterwards -/
  step : {β : Type} → σ → Op β → β → σ → Prop
  /-- the states in which the operation never answers -/
  cut : {β : Type} → σ → Op β → σ → Prop

namespace Prog

variable {Op : Type → Type 1} {ε ε' α β γ : Type} {σ : Type u}

/-- A run from a state to a state; no result when it was stopped. -/
inductive Runs (E : Env Op σ) : Prog Op ε α → σ → Option (Except ε α) → σ → Prop
  | ret (a : α) (s : σ) : Runs E (ret a) s (some (.ok a)) s
  | fail (e : ε) (s : σ) : Runs E (fail e) s (some (.error e)) s
  | cut {β : Type} {o : Op β} {k : β → Prog Op ε α} {s s' : σ} : E.cut s o s' → Runs E (op o k) s none s'
  | op {β : Type} {o : Op β} {k : β → Prog Op ε α} {b : β} {s s' s'' : σ} {r : Option (Except ε α)} :
      E.step s o b s' → Runs E (k b) s' r s'' → Runs E (op o k) s r s''

/-- One step of a run, with the answer and the state after it. -/
theorem Runs.act {E : Env Op σ} {o : Op β} {k : β → Prog Op ε α} {s s'' : σ} {r : Option (Except ε α)} (b : β) (s' : σ)
    (hs : E.step s o b s') (h : Runs E (k b) s' r s'') : Runs E (.op o k) s r s'' := .op hs h

variable {p : Prog Op ε α}

theorem Runs.bind {E : Env Op σ} {f : α → Prog Op ε β} {a : α} {s s' s'' : σ}
    {r : Option (Except ε β)} (hp : Runs E p s (some (.ok a)) s') (hf : Runs E (f a) s' r s'') :
    Runs E (p >>= f) s r s'' := by
  show Runs E (p.bind f) s r s''
  generalize hr : some (Except.ok a) = result at hp
  induction hp with
  | ret b s =>
    obtain rfl := Except.ok.inj (Option.some.inj hr)
    exact hf
  | fail e s => exact nomatch hr
  | cut hs => exact nomatch hr
  | op hs _ ih => exact .op hs (ih hf hr)

/-- Every state in which the program can be stopped meets `C`, and every result is
reached in a state that meets `Q`. -/
def Holds (E : Env Op σ) (C : σ → Prop) : Prog Op ε α → (Except ε α → σ → Prop) → σ → Prop
  | ret a, Q, s => Q (.ok a) s
  | fail e, Q, s => Q (.error e) s
  | op o k, Q, s => (∀ s', E.cut s o s' → C s') ∧ ∀ b s', E.step s o b s' → (k b).Holds E C Q s'

variable {E : Env Op σ} {C C' : σ → Prop} {Q Q' : Except ε α → σ → Prop} {s s' : σ}

theorem Holds.call {o : Op α} (hC : ∀ s', E.cut s o s' → C s') (h : ∀ b s', E.step s o b s' → Q (.ok b) s') :
    (call o : Prog Op ε α).Holds E C Q s := ⟨hC, h⟩

theorem Holds.mono (h : p.Holds E C Q s) (hQ : ∀ r s', Q r s' → Q' r s') :
    p.Holds E C Q' s := by
  induction p generalizing s with
  | ret a => exact hQ _ _ h
  | fail e => exact hQ _ _ h
  | op o k ih => exact ⟨h.1, fun b s' hs => ih b (h.2 b s' hs)⟩

theorem Holds.bind {f : α → Prog Op ε β} {Q : Except ε β → σ → Prop}
    (h : p.Holds E C (fun r s' => match r with
      | .ok a => (f a).Holds E C Q s'
      | .error e => Q (.error e) s') s) : (p >>= f).Holds E C Q s := by
  show (p.bind f).Holds E C Q s
  induction p generalizing s with
  | ret a => exact h
  | fail e => exact h
  | op o k ih => exact ⟨h.1, fun b s' hs => ih b (h.2 b s' hs)⟩

theorem Holds.attempt {Q : Except ε' (Except ε α) → σ → Prop}
    (h : p.Holds E C (fun r s' => Q (.ok r) s') s) :
    (p.attempt : Prog Op ε' (Except ε α)).Holds E C Q s := by
  induction p generalizing s with
  | ret a => exact h
  | fail e => exact h
  | op o k ih => exact ⟨h.1, fun b s' hs => ih b (h.2 b s' hs)⟩

theorem Holds.top (p : Prog Op ε α) (hC : ∀ {β : Type} {o : Op β} {s s' : σ}, E.cut s o s' → C s') :
    p.Holds E C (fun _ _ => True) s := by
  induction p generalizing s with
  | ret a => trivial
  | fail e => trivial
  | op o k ih => exact ⟨fun _ => hC, fun b _ _ => ih b⟩

/-- What no operation can undo still holds at the end. -/
theorem Holds.stable {I : σ → Prop} (hI : ∀ {β : Type} {o : Op β} {b : β} {s s' : σ}, E.step s o b s' → I s → I s')
    (h : p.Holds E C Q s) (hs : I s) : p.Holds E C (fun r s' => Q r s' ∧ I s') s := by
  induction p generalizing s with
  | ret a => exact ⟨h, hs⟩
  | fail e => exact ⟨h, hs⟩
  | op o k ih => exact ⟨h.1, fun b s' hstep => ih b (h.2 b s' hstep) (hI hstep hs)⟩

/-- A loop keeps an invariant that may speak of the items still to come. -/
theorem Holds.forEach {f : γ → Prog Op ε Unit} {Q : Except ε Unit → σ → Prop} (I : List γ → σ → Prop)
    {xs : List γ} (hI : I xs s)
    (hround : ∀ x rest s, I (x :: rest) s → (f x).Holds E C (fun r s' => match r with
      | .ok _ => I rest s'
      | .error e => Q (.error e) s') s)
    (hQ : ∀ s, I [] s → Q (.ok ()) s) : (forEach f xs).Holds E C Q s := by
  induction xs generalizing s with
  | nil => exact hQ s hI
  | cons x xs ih =>
    refine Holds.bind ((hround x xs s hI).mono fun r s' hr => ?_)
    cases r with
    | ok _ => exact ih hr
    | error e => exact hr

/-- **Soundness.** -/
theorem Runs.of_holds {r : Option (Except ε α)} (hr : Runs E p s r s')
    (h : p.Holds E C Q s) : (∀ x, r = some x → Q x s') ∧ (r = none → C s') := by
  induction hr with
  | ret a s => exact ⟨fun x hx => by cases hx; exact h, nofun⟩
  | fail e s => exact ⟨fun x hx => by cases hx; exact h, nofun⟩
  | cut hs => exact ⟨nofun, fun _ => h.1 _ hs⟩
  | op hs _ ih => exact ih (h.2 _ _ hs)

end Prog
