import NorthgateRmm.Lib.CrashFs

/-!
# Programs on a file system

Programs whose steps are file-system operations, and rules for their weakest
preconditions: `Sure` for runs in which every step goes through, `wp_step` and
`wp_read` for runs in which a step may fail.
-/

namespace CrashFs

variable {D N C ε α : Type}

/-- One step, and the error its failure is reported as. -/
def step (o : Op D N C (Except Fault α)) (e : ε) : Prog (Op D N C) ε α := do
  let r ← Prog.call o
  Prog.orFail r fun _ => e

/-- A read that may itself report an error. -/
def read (f : Fs D N C → Except ε α) (e : ε) : Prog (Op D N C) ε α := do
  let r ← step (.look f) e
  Prog.orFail r id

/-- A removal that succeeded or found nothing to remove. -/
def gone (r : Except Fault Unit) : Bool :=
  match r with
  | .ok () | .error .notExist => true
  | .error _ => false

variable [DecidableEq D] [DecidableEq N]
variable {allow : Prog.Policy (Op D N C) (Option C)} {K : Fs D N C → Prop}
variable {Q : Except ε α → Fs D N C → Prop} {s s' : Fs D N C} {e : ε}

variable {o : Op D N C (Except Fault α)} {a : α}

theorem wp_step :
    (step o e).wp Fs.machine allow K Q s ↔ K s ∧ ∀ c, allow _ c o →
      match (Fs.exec c o s).1 with
      | .ok a => Q (.ok a) (Fs.exec c o s).2
      | .error _ => Q (.error e) (Fs.exec c o s).2 := by
  refine Prog.wp_bind.trans (Iff.and Iff.rfl (forall_congr' fun c => imp_congr_right fun _ => ?_))
  show Prog.wp _ _ _ (Prog.orFail (Fs.exec c o s).1 _) Q (Fs.exec c o s).2 ↔ _
  cases (Fs.exec c o s).1 <;> exact Iff.rfl

/-- A step that goes through unless the environment makes it fail. -/
theorem wp_step_ok (h : Fs.exec none o s = (.ok a, s')) (hK : K s)
    (hQ : Q (.ok a) s')
    (hfail : ∀ torn, ∃ f s', Fs.exec (some torn) o s = (.error f, s') ∧ Q (.error e) s') :
    (step o e).wp Fs.machine allow K Q s := by
  refine wp_step.mpr ⟨hK, fun c _ => ?_⟩
  cases c with
  | none => rwa [h]
  | some torn =>
    obtain ⟨f, s'', hexec, hQ'⟩ := hfail torn
    rwa [hexec]

/-- A read that fails reports `e`; otherwise it answers what `f` finds. -/
theorem wp_read {f : Fs D N C → Except ε α} (hK : K s) (hQ : Q (f s) s) (he : Q (.error e) s) :
    (read f e).wp Fs.machine allow K Q s := by
  refine Prog.wp_bind.mpr (wp_step.mpr ⟨hK, fun c _ => ?_⟩)
  cases c with
  | none =>
    show Prog.wp _ _ _ (Prog.orFail (f s) id) Q s
    cases hf : f s with
    | ok a => rwa [hf] at hQ
    | error e' => rwa [hf] at hQ
  | some torn => exact he

/-! ## Runs without faults -/

/-- Every step of the run goes through; `K` holds wherever it can be stopped. -/
abbrev Sure (K : Fs D N C → Prop) (p : Prog (Op D N C) ε α) (Q : Except ε α → Fs D N C → Prop)
    (s : Fs D N C) : Prop :=
  p.wp Fs.machine (fun _ c _ => c = none) K Q s

theorem sure_call {o : Op D N C α} (h : Fs.exec none o s = (a, s')) (hK : K s)
    (hQ : Q (.ok a) s') : Sure K (Prog.call o) Q s := by
  refine Prog.wp_call.mpr ⟨hK, ?_⟩
  rintro _ rfl
  change Q (.ok (Fs.exec none o s).1) (Fs.exec none o s).2
  rwa [h]

theorem sure_step_ok
    (h : Fs.exec none o s = (.ok a, s')) (hK : K s) (hQ : Q (.ok a) s') : Sure K (step o e) Q s := by
  refine wp_step.mpr ⟨hK, ?_⟩
  rintro _ rfl
  rwa [h]

theorem sure_step_error {f : Fault}
    (h : Fs.exec none o s = (.error f, s')) (hK : K s) (hQ : Q (.error e) s') : Sure K (step o e) Q s := by
  refine wp_step.mpr ⟨hK, ?_⟩
  rintro _ rfl
  rwa [h]

theorem sure_read {f : Fs D N C → Except ε α} (hK : K s) (hQ : Q (f s) s) : Sure K (read f e) Q s := by
  refine Prog.wp_bind.mpr (sure_step_ok rfl hK ?_)
  change Prog.wp _ _ _ (Prog.orFail (f s) id) Q s
  cases hf : f s with
  | ok a => rwa [hf] at hQ
  | error e' => rwa [hf] at hQ

theorem finish_of_sure {p : Prog (Op D N C) ε α} (h : Sure K p Q s) :
    Q (p.finish Fs.machine none s).1 (p.finish Fs.machine none s).2 :=
  Prog.finish_of_wp h fun _ _ => rfl

end CrashFs
