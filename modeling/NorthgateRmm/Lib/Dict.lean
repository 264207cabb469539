import Mathlib

/-!
# Dictionaries in insertion order

A dictionary is the list of its items, each key once. Assigning to a key that is there
keeps its place; a new key goes to the end.
-/

structure Dict (K V : Type) where
  entries : List (K × V)
  nodup : (entries.map Prod.fst).Nodup

namespace Dict

variable {K V : Type} [DecidableEq K]

def empty : Dict K V := ⟨[], List.nodup_nil⟩

def size (d : Dict K V) : Nat := d.entries.length

def values (d : Dict K V) : List V := d.entries.map Prod.snd

def get? (d : Dict K V) (k : K) : Option V := (d.entries.find? (·.1 = k)).map Prod.snd

def others (d : Dict K V) (k : K) : List (K × V) := d.entries.filter (·.1 ≠ k)

/-- `del d[k]`, or `d.pop(k, None)`. -/
def erase (d : Dict K V) (k : K) : Dict K V := ⟨d.others k, d.nodup.sublist (List.filter_sublist.map _)⟩

variable {d : Dict K V} {k j : K} {v : V}

theorem get?_eq_some {k : K} : d.get? k = some v ↔ (k, v) ∈ d.entries := by
  obtain ⟨entries, nodup⟩ := d
  induction entries with
  | nil => simp [get?]
  | cons e rest ih =>
    rw [List.map_cons, List.nodup_cons] at nodup
    have hrest := ih nodup.2
    by_cases he : e.1 = k
    · subst he
      have : ∀ w, (e.1, w) ∉ rest := fun w hw => nodup.1 (List.mem_map.mpr ⟨_, hw, rfl⟩)
      simp [get?, Prod.ext_iff, this, eq_comm]
    · simpa [get?, he, Prod.ext_iff, Ne.symm he] using hrest

theorem get?_eq_none {k : K} : d.get? k = none ↔ ∀ e ∈ d.entries, e.1 ≠ k := by
  simp [get?]

theorem others_of_none {k : K} (h : d.get? k = none) : d.others k = d.entries :=
  List.filter_eq_self.mpr fun e he => by simpa using get?_eq_none.mp h e he

def replace (k : K) (v : V) (e : K × V) : K × V := if e.1 = k then (k, v) else e

theorem fst_replace (k : K) (v : V) : (fun e : K × V => (replace k v e).1) = Prod.fst := by
  funext e
  unfold replace
  split
  · rename_i h
    exact h.symm
  · rfl

theorem nodup_set (d : Dict K V) (k : K) (v : V) :
    ((if d.get? k = none then d.entries ++ [(k, v)] else d.entries.map (replace k v)).map Prod.fst).Nodup := by
  split
  · rename_i h
    rw [List.map_append, List.nodup_append]
    refine ⟨d.nodup, List.pairwise_singleton _ _, ?_⟩
    rintro a ha b hb rfl
    obtain ⟨e, he, rfl⟩ := List.mem_map.mp ha
    exact get?_eq_none.mp h e he (by simpa using hb)
  · rw [List.map_map]
    exact (congrArg List.Nodup (congrArg (List.map · d.entries) (fst_replace k v))).mpr d.nodup

/-- `d[k] = v`. -/
def set (d : Dict K V) (k : K) (v : V) : Dict K V :=
  ⟨if d.get? k = none then d.entries ++ [(k, v)] else d.entries.map (replace k v), d.nodup_set k v⟩

theorem entries_set_of_none {k : K} (h : d.get? k = none) :
    (d.set k v).entries = d.entries ++ [(k, v)] := if_pos h

theorem mem_set {v w : V} :
    (j, w) ∈ (d.set k v).entries ↔ if j = k then w = v else (j, w) ∈ d.entries := by
  unfold set
  dsimp only
  split
  · rename_i h
    have hno : (k, w) ∉ d.entries := fun hmem => get?_eq_none.mp h _ hmem rfl
    by_cases hj : j = k
    · subst hj
      simp [hno]
    · simp [hj]
  · rename_i h
    obtain ⟨u, hu⟩ := Option.ne_none_iff_exists'.mp h
    have hu := get?_eq_some.mp hu
    by_cases hj : j = k
    · subst hj
      rw [if_pos rfl, List.mem_map]
      constructor
      · rintro ⟨e, -, he⟩
        unfold replace at he
        split at he
        · exact (congrArg Prod.snd he).symm
        · rename_i hne
          exact absurd (congrArg Prod.fst he) hne
      · rintro rfl
        exact ⟨_, hu, by simp [replace]⟩
    · rw [if_neg hj, List.mem_map]
      constructor
      · rintro ⟨e, he, heq⟩
        unfold replace at heq
        split at heq
        · exact absurd (congrArg Prod.fst heq).symm hj
        · exact heq ▸ he
      · exact fun hmem => ⟨_, hmem, by simp [replace, hj]⟩

theorem others_set {k : K} : (d.set k v).others k = d.others k := by
  unfold others set
  dsimp only
  split
  · simp
  · induction d.entries with
    | nil => rfl
    | cons e rest ih => by_cases he : e.1 = k <;> simpa [replace, he] using ih

theorem mem_erase {w : V} :
    (j, w) ∈ (d.erase k).entries ↔ j ≠ k ∧ (j, w) ∈ d.entries := by
  simp [erase, others, and_comm]

theorem get?_set : (d.set k v).get? j = if j = k then some v else d.get? j := by
  ext w
  rw [get?_eq_some, mem_set]
  split
  · simp [eq_comm]
  · rw [get?_eq_some]

theorem get?_erase : (d.erase k).get? j = if j = k then none else d.get? j := by
  ext w
  rw [get?_eq_some, mem_erase]
  split
  · simp [*]
  · simp [*, get?_eq_some]

/-! ## Sums over the values -/

/-- The sum of `f` over the values. -/
def sumOf (f : V → Nat) (d : Dict K V) : Nat := (d.values.map f).sum

theorem sumOf_erase (f : V → Nat) (d : Dict K V) (k : K) :
    (d.erase k).sumOf f + ((d.get? k).map f).getD 0 = d.sumOf f := by
  obtain ⟨entries, nodup⟩ := d
  induction entries with
  | nil => rfl
  | cons e rest ih =>
    have hnodup := List.nodup_cons.mp nodup
    have hrest := ih hnodup.2
    by_cases he : e.1 = k
    · have hnone : get? ⟨rest, hnodup.2⟩ k = none := get?_eq_none.mpr fun a ha hak =>
        hnodup.1 (List.mem_map.mpr ⟨a, ha, hak.trans he.symm⟩)
      have hsame : rest.filter (fun x => !decide (x.1 = k)) = rest := by
        simpa [others] using others_of_none hnone
      simp [sumOf, values, erase, others, get?, he, hsame, Nat.add_comm]
    · simp only [sumOf, values, erase, others, get?] at hrest ⊢
      simp only [List.filter_cons, he, ne_eq, not_false_eq_true, decide_true, ↓reduceIte, List.map_cons, List.sum_cons,
        List.find?_cons, decide_false] at hrest ⊢
      omega

theorem sumOf_set (f : V → Nat) (d : Dict K V) (k : K) (v : V) :
    (d.set k v).sumOf f + ((d.get? k).map f).getD 0 = d.sumOf f + f v := by
  have hset := sumOf_erase f (d.set k v) k
  have hold := sumOf_erase f d k
  have hget : ((d.set k v).get? k) = some v := by simp [get?_set]
  have hothers : ((d.set k v).erase k).sumOf f = (d.erase k).sumOf f := by
    simp only [erase, others_set]
  rw [hget] at hset
  simp only [Option.map_some, Option.getD_some] at hset
  omega

/-! ## Dictionaries of counts -/

/-- `d.get(k, 0)`. -/
def count (d : Dict K Nat) (k : K) : Nat := (d.get? k).getD 0

/-- The sum of the counts. -/
def total (d : Dict K Nat) : Nat := d.sumOf id

theorem count_set {d : Dict K Nat} {n : Nat} : (d.set k n).count j = if j = k then n else d.count j := by
  unfold count
  rw [get?_set]
  split <;> rfl

theorem count_erase {d : Dict K Nat} : (d.erase k).count j = if j = k then 0 else d.count j := by
  unfold count
  rw [get?_erase]
  split <;> rfl

theorem total_erase (d : Dict K Nat) (k : K) : (d.erase k).total + d.count k = d.total := by
  simpa [total, count] using sumOf_erase id d k

theorem total_set (d : Dict K Nat) (k : K) (n : Nat) : (d.set k n).total + d.count k = d.total + n := by
  simpa [total, count] using sumOf_set id d k n

end Dict
