import Mathlib

/-!
# Isolation of the owned part of a state

A deterministic machine whose actions are owned or foreign. When foreign actions
leave the observer's part of the state as it is, and owned actions answer and act
alike on states with the same part, the answers to the owned actions are those of
the run without the foreign ones. The second half is about reading a table through
the part of it that an observer owns.
-/

namespace Isolation

section Runs

variable {State Action Output : Type}

/-- The answers to the owned actions of a run. -/
def outputs (step : State → Action → Output × State) (owned : Action → Bool) (s : State) :
    List Action → List Output
  | [] => []
  | a :: rest =>
    let out := step s a
    if owned a then out.1 :: outputs step owned out.2 rest else outputs step owned out.2 rest

def run (step : State → Action → Output × State) (s : State) (actions : List Action) : State :=
  actions.foldl (fun s a => (step s a).2) s

/-- What isolation rests on. `Inv` is kept by every allowed action, `Same` is what the
observer's part of two states has in common. -/
structure Unwinding (step : State → Action → Output × State) (owned : Action → Bool)
    (Allowed : Action → Prop) (Inv : State → Prop) (Same : State → State → Prop) : Prop where
  symm : ∀ {s s'}, Same s s' → Same s' s
  trans : ∀ {s s' s''}, Same s s' → Same s' s'' → Same s s''
  inv : ∀ {s a}, Allowed a → Inv s → Inv (step s a).2
  foreign : ∀ {s a}, Allowed a → Inv s → owned a = false → Same s (step s a).2
  owned_step : ∀ {s s' a}, Allowed a → Inv s → Inv s' → Same s s' → owned a = true →
    (step s a).1 = (step s' a).1 ∧ Same (step s a).2 (step s' a).2

variable {step : State → Action → Output × State} {owned : Action → Bool} {Allowed : Action → Prop}
  {Inv : State → Prop} {Same : State → State → Prop}

theorem Unwinding.run_inv (h : Unwinding step owned Allowed Inv Same) {actions : List Action}
    (hallowed : ∀ a ∈ actions, Allowed a) {s : State} (hs : Inv s) : Inv (run step s actions) := by
  induction actions generalizing s with
  | nil => exact hs
  | cons a rest ih =>
    exact ih (fun b hb => hallowed b (List.mem_cons_of_mem _ hb))
      (h.inv (hallowed a List.mem_cons_self) hs)

/-- A run answers its owned actions as the run of those actions alone does. -/
theorem Unwinding.purge (h : Unwinding step owned Allowed Inv Same) {actions : List Action}
    (hallowed : ∀ a ∈ actions, Allowed a) {s s' : State} (hs : Inv s) (hs' : Inv s') (hsame : Same s s') :
    outputs step owned s actions = outputs step owned s' (actions.filter owned) ∧
      Same (run step s actions) (run step s' (actions.filter owned)) := by
  induction actions generalizing s s' with
  | nil => exact ⟨rfl, hsame⟩
  | cons a rest ih =>
    have ha := hallowed a List.mem_cons_self
    have hrest : ∀ b ∈ rest, Allowed b := fun b hb => hallowed b (List.mem_cons_of_mem _ hb)
    cases ho : owned a with
    | true =>
      obtain ⟨hout, hnext⟩ := h.owned_step ha hs hs' hsame ho
      obtain ⟨houts, hrun⟩ := ih hrest (h.inv ha hs) (h.inv ha hs') hnext
      simp only [List.filter_cons, ho, if_true, outputs]
      exact ⟨by rw [hout, houts], hrun⟩
    | false =>
      obtain ⟨houts, hrun⟩ := ih hrest (h.inv ha hs) hs' (h.trans (h.symm (h.foreign ha hs ho)) hsame)
      simp only [List.filter_cons, ho, outputs]
      exact ⟨houts, hrun⟩

/-- Two runs with the same owned actions answer them alike and end alike. -/
theorem Unwinding.isolated (h : Unwinding step owned Allowed Inv Same) {actions actions' : List Action}
    (ha : ∀ a ∈ actions, Allowed a) (ha' : ∀ a ∈ actions', Allowed a)
    (hfilter : actions.filter owned = actions'.filter owned) {s : State} (hs : Inv s) (hrefl : Same s s) :
    outputs step owned s actions = outputs step owned s actions' ∧
      Same (run step s actions) (run step s actions') := by
  obtain ⟨houts, hrun⟩ := h.purge ha hs hs hrefl
  obtain ⟨houts', hrun'⟩ := h.purge ha' hs hs hrefl
  rw [hfilter] at houts hrun
  exact ⟨houts.trans houts'.symm, h.trans hrun (h.symm hrun')⟩

end Runs

/-! ## Tables read through the owned rows -/

section Tables

variable {α : Type} {rows rows' : List α} {p q : α → Bool}

theorem find?_filter (h : ∀ x ∈ rows, q x = true → p x = true) : (rows.filter p).find? q = rows.find? q := by
  rw [List.find?_filter]
  induction rows with
  | nil => rfl
  | cons x rows ih =>
    have hx := h x List.mem_cons_self
    simp only [List.find?_cons, ih fun y hy => h y (List.mem_cons_of_mem _ hy)]
    grind

/-- A lookup that only owned rows can answer. -/
theorem find?_eq (hsame : rows.filter p = rows'.filter p) (h : ∀ x ∈ rows, q x = true → p x = true)
    (h' : ∀ x ∈ rows', q x = true → p x = true) : rows.find? q = rows'.find? q := by
  rw [← find?_filter h, hsame, find?_filter h']

/-- A check that only owned rows can fail. -/
theorem any_eq (hsame : rows.filter p = rows'.filter p) (h : ∀ x ∈ rows, q x = true → p x = true)
    (h' : ∀ x ∈ rows', q x = true → p x = true) : rows.any q = rows'.any q := by
  have key : ∀ rows : List α, (∀ x ∈ rows, q x = true → p x = true) → rows.any q = (rows.filter p).any q := by
    intro rows h
    rw [List.any_filter, Bool.eq_iff_iff]
    simp only [List.any_eq_true, Bool.and_eq_true]
    exact ⟨fun ⟨x, hx, hq⟩ => ⟨x, hx, h x hx hq, hq⟩, fun ⟨x, hx, _, hq⟩ => ⟨x, hx, hq⟩⟩
  rw [key rows h, hsame, ← key rows' h']

theorem filter_insert (hsame : rows.filter p = rows'.filter p) (x : α) :
    (rows ++ [x]).filter p = (rows' ++ [x]).filter p := by
  rw [List.filter_append, List.filter_append, hsame]

/-- An update that moves no row in or out of the owned part. -/
theorem filter_map_of_key {f : α → α} (hp : ∀ x, p (f x) = p x) (rows : List α) :
    (rows.map f).filter p = (rows.filter p).map f := by
  rw [List.filter_map]
  exact congrArg _ (List.filter_congr fun x _ => hp x)

theorem filter_update {f : α → α} (hp : ∀ x, p (f x) = p x) (hsame : rows.filter p = rows'.filter p) :
    (rows.map f).filter p = (rows'.map f).filter p := by
  rw [filter_map_of_key hp, filter_map_of_key hp, hsame]

/-- An insertion of a row the observer does not own. -/
theorem filter_insert_foreign {x : α} (hx : p x = false) : rows.filter p = (rows ++ [x]).filter p := by
  rw [List.filter_append, List.filter_cons_of_neg (by simp [hx]), List.filter_nil, List.append_nil]

/-- An update of rows the observer does not own. -/
theorem filter_update_foreign {f : α → α} (hp : ∀ x, p (f x) = p x) (hf : ∀ x, p x = true → f x = x) :
    rows.filter p = (rows.map f).filter p := by
  rw [filter_map_of_key hp]
  exact ((List.map_congr_left fun x hx => hf x (List.mem_filter.mp hx).2).trans (List.map_id _)).symm

end Tables

end Isolation
