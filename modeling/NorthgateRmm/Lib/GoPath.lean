import Mathlib

/-!
# Slash-separated paths

`path.Clean` and `filepath.Join` of a system with one root and one separator, over any
alphabet with a slash and a dot. A rooted path is clean if its elements are names, so a name
can be joined to it without anything else changing.
-/

namespace GoPath

variable {α : Type} [DecidableEq α] (slash dot : α)

def isAbs (path : List α) : Bool := path.head? = some slash

/-- An element that is a name: not empty, `.` or `..`. -/
def Named (element : List α) : Prop := element ≠ [] ∧ element ≠ [dot] ∧ element ≠ [dot, dot]

instance (element : List α) : Decidable (Named dot element) := inferInstanceAs (Decidable (_ ∧ _ ∧ _))

/-- One element of the path, on the elements kept so far. -/
def cleanStep (rooted : Bool) (kept : List (List α)) (element : List α) : List (List α) :=
  if element = [] ∨ element = [dot] then kept
  else if element = [dot, dot] then
    if kept = [] then if rooted then [] else [[dot, dot]]
    else if kept.getLast? = some [dot, dot] then kept ++ [[dot, dot]]
    else kept.dropLast
  else kept ++ [element]

/-- The elements that are left of a path. -/
def kept (path : List α) : List (List α) :=
  (path.splitOn slash).foldl (cleanStep dot (isAbs slash path)) []

/-- `path.Clean`. -/
def clean (path : List α) : List α :=
  if isAbs slash path then slash :: [slash].intercalate (kept slash dot path)
  else if kept slash dot path = [] then [dot]
  else [slash].intercalate (kept slash dot path)

/-- `filepath.Join` of two paths that are not empty. -/
def join (path name : List α) : List α := clean slash dot (path ++ slash :: name)

/-- The path is clean and absolute, and not the root. -/
def cleanNonRoot (path : List α) : Bool :=
  !(path = [] || !isAbs slash path || clean slash dot path ≠ path || clean slash dot path = [slash])

variable {slash dot} {path name : List α} {elements : List (List α)}

theorem not_mem_of_mem_splitOn {element : List α} (h : element ∈ path.splitOn slash) : slash ∉ element := by
  induction hlen : path.length using Nat.strongRecOn generalizing path with
  | ind n ih =>
    by_cases hslash : slash ∈ path
    · -- what stands before the first slash, and the elements of what stands after it
      obtain ⟨front, rest, rfl, hfront⟩ := List.eq_append_cons_of_mem hslash
      rw [List.length_append, List.length_cons] at hlen
      rw [List.splitOn_append_cons_self, List.splitOn_eq_singleton hfront, List.singleton_append, List.mem_cons] at h
      rcases h with rfl | h
      · exact hfront
      · exact ih rest.length (by omega) h rfl
    · rw [List.splitOn_eq_singleton hslash, List.mem_singleton] at h
      rwa [h]

theorem cleanStep_named {rooted : Bool} {element : List α} (h : Named dot element) (kept : List (List α)) :
    cleanStep dot rooted kept element = kept ++ [element] := by
  rw [cleanStep, if_neg (not_or.mpr ⟨h.1, h.2.1⟩), if_neg h.2.2]

/-- Names are kept. -/
theorem foldl_named {rooted : Bool} (h : ∀ e ∈ elements, Named dot e) (kept : List (List α)) :
    elements.foldl (cleanStep dot rooted) kept = kept ++ elements := by
  induction elements generalizing kept with
  | nil => rw [List.foldl_nil, List.append_nil]
  | cons e elements ih =>
    rw [List.foldl_cons, cleanStep_named (h e List.mem_cons_self),
      ih fun e' he' => h e' (List.mem_cons_of_mem _ he'), List.append_assoc, List.singleton_append]

/-- Only names are kept of a rooted path. -/
theorem cleanStep_kept {S : List α → Prop} {kept : List (List α)} {element : List α} (hS : S element)
    (h : ∀ e ∈ kept, Named dot e ∧ S e) : ∀ e ∈ cleanStep dot true kept element, Named dot e ∧ S e := by
  rw [cleanStep]
  split_ifs with h1 h2 h3 hroot h4
  · exact h
  · exact fun e he => absurd he List.not_mem_nil
  · exact absurd rfl hroot
  · exact absurd rfl (h _ (List.mem_of_getLast? h4)).1.2.2
  · exact fun e he => h e (List.dropLast_subset _ he)
  · intro e he
    rcases List.mem_append.mp he with he | he
    · exact h e he
    · rw [List.mem_singleton.mp he]
      exact ⟨⟨fun h => h1 (.inl h), fun h => h1 (.inr h), h2⟩, hS⟩

theorem kept_named (habs : isAbs slash path = true) :
    ∀ e ∈ kept slash dot path, Named dot e ∧ slash ∉ e := by
  rw [kept, habs]
  refine List.foldlRecOn (motive := fun kept => ∀ e ∈ kept, Named dot e ∧ slash ∉ e) _ _
    (fun e he => absurd he List.not_mem_nil) fun kept hkept element helement => ?_
  exact cleanStep_kept (not_mem_of_mem_splitOn helement) hkept

/-- A path of names under the root. -/
def Proper (slash dot : α) (path : List α) : Prop :=
  ∃ elements, elements ≠ [] ∧ path.splitOn slash = [] :: elements ∧ ∀ e ∈ elements, Named dot e

theorem Proper.path_eq {elements : List (List α)} (hne : elements ≠ []) (h : path.splitOn slash = [] :: elements) :
    path = slash :: [slash].intercalate elements := by
  have hpath : [slash].intercalate (path.splitOn slash) = path := List.intercalate_splitOn slash
  rw [← hpath, h, List.intercalate_cons_of_ne_nil hne]
  rfl

theorem Proper.clean_eq (h : Proper slash dot path) :
    path ≠ [] ∧ isAbs slash path = true ∧ clean slash dot path = path ∧ path ≠ [slash] := by
  obtain ⟨elements, hne, hsplit, hnamed⟩ := h
  have hpath := Proper.path_eq hne hsplit
  have habs : isAbs slash path = true := by
    rw [hpath]
    exact decide_eq_true rfl
  refine ⟨by rw [hpath]; exact List.cons_ne_nil _ _, habs, ?_, ?_⟩
  · have hkept : kept slash dot path = elements := by
      rw [kept, hsplit, List.foldl_cons, cleanStep, if_pos (.inl rfl), foldl_named hnamed, List.nil_append]
    rw [clean, if_pos habs, hkept, ← hpath]
  · rintro rfl
    have hroot : [slash].splitOn slash = [[], []] := List.splitOn_append_cons_self [] []
    rw [hroot] at hsplit
    cases hsplit
    exact (hnamed [] List.mem_cons_self).1 rfl

theorem proper_of_clean (habs : isAbs slash path = true) (hclean : clean slash dot path = path)
    (hroot : path ≠ [slash]) : Proper slash dot path := by
  have hnamed : ∀ e ∈ kept slash dot path, Named dot e ∧ slash ∉ e := kept_named habs
  rw [clean, if_pos habs] at hclean
  have hne : kept slash dot path ≠ [] := fun hnil => by
    rw [hnil] at hclean
    exact hroot hclean.symm
  refine ⟨kept slash dot path, hne, ?_, fun e he => (hnamed e he).1⟩
  have hpath : path = [slash].intercalate ([] :: kept slash dot path) := by
    rw [List.intercalate_cons_of_ne_nil hne]
    exact hclean.symm
  conv => lhs; rw [hpath]
  refine List.splitOn_intercalate slash (fun l hl => ?_) (List.cons_ne_nil _ _)
  rcases List.mem_cons.mp hl with rfl | hl
  · exact List.not_mem_nil
  · exact (hnamed l hl).2

/-- A name joined to a proper path. -/
theorem Proper.join (h : Proper slash dot path) (hname : Named dot name) (hslash : slash ∉ name) :
    join slash dot path name = path ++ slash :: name ∧ Proper slash dot (path ++ slash :: name) := by
  obtain ⟨elements, hne, hsplit, hnamed⟩ := h
  have hproper : Proper slash dot (path ++ slash :: name) := by
    refine ⟨elements ++ [name], by simp, ?_, fun e he => ?_⟩
    · rw [List.splitOn_append_cons_self, hsplit, List.splitOn_eq_singleton hslash]
      rfl
    · rcases List.mem_append.mp he with he | he
      · exact hnamed e he
      · rwa [List.mem_singleton.mp he]
  exact ⟨hproper.clean_eq.2.2.1, hproper⟩

end GoPath
