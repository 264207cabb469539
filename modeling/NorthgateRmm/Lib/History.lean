import NorthgateRmm.Lib.Env

/-!
# Recorded runs

`Env.recorded` is an environment that also keeps the calls made so far, the last one first.
A rule says what has to have happened before a call; `Obeys` says that every recorded call
was made when the rule allowed it. A call that is cut off is recorded without an answer.
-/

universe u

/-- One call, with its answer and the states around it. -/
structure Moment (Op : Type → Type 1) (σ : Type u) where
  {β : Type}
  call : Op β
  /-- none when the call was cut off -/
  answer : Option β
  before : σ
  after : σ

structure Recorded (Op : Type → Type 1) (σ : Type u) where
  now : σ
  past : List (Moment Op σ)

/-- What has to be the case before a call. -/
abbrev Rule (Op : Type → Type 1) (σ : Type u) := Recorded Op σ → (β : Type) → Op β → Prop

variable {Op : Type → Type 1} {ε α β : Type} {σ : Type u}

def Obeys (rule : Rule Op σ) : List (Moment Op σ) → Prop
  | [] => True
  | m :: past => rule ⟨m.before, past⟩ m.β m.call ∧ Obeys rule past

theorem Obeys.split {rule : Rule Op σ} {later earlier : List (Moment Op σ)} {m : Moment Op σ}
    (h : Obeys rule (later ++ m :: earlier)) : rule ⟨m.before, earlier⟩ m.β m.call := by
  induction later with
  | nil => exact h.1
  | cons _ later ih => exact ih h.2

namespace Env

variable (E : Env Op σ)

/-- One step of the environment and its record. -/
structure Records (w : Recorded Op σ) (o : Op β) (answer : Option β) (w' : Recorded Op σ) : Prop where
  past : w'.past = ⟨o, answer, w.now, w'.now⟩ :: w.past
  step : match answer with
    | some b => E.step w.now o b w'.now
    | none => E.cut w.now o w'.now

def recorded : Env Op (Recorded Op σ) := ⟨fun w o b w' => E.Records w o (some b) w', fun w o w' => E.Records w o none w'⟩

end Env

namespace Prog

variable {E : Env Op σ} {I : Recorded Op σ → Prop} {w : Recorded Op σ}

/-- A run keeps what every call keeps, wherever it is cut off. -/
theorem Runs.keeps {p : Prog Op ε α} {w' : Recorded Op σ} {r : Option (Except ε α)} (h : p.Runs E.recorded w r w')
    (hI : ∀ {β : Type} {o : Op β} {answer : Option β} {w w' : Recorded Op σ}, E.Records w o answer w' → I w → I w')
    (hw : I w) : I w' := by
  induction h with
  | ret _ _ => exact hw
  | fail _ _ => exact hw
  | cut hs => exact hI hs hw
  | op hs _ ih => exact ih (hI hs hw)

end Prog
