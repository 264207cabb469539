import Mathlib

/-!
# Paging by key

A table is read page by page: the rows whose key lies beyond the cursor, in the order of
their keys, cut off at a limit. One row more than is shown tells whether another page
follows, and the cursor of that page is the key of the last row shown. The table may gain
rows between two pages.
-/

namespace Paging

variable {α κ : Type*} [LinearOrder κ] (key : α → κ)

def sorted (rows : List α) : List α := rows.mergeSort fun a b => key a ≤ key b

/-- Whether a key lies beyond the cursor; the first page has none. -/
def beyond (after : Option κ) (k : κ) : Bool :=
  match after with
  | none => true
  | some c => c < k

/-- What a page is taken from. -/
def rest (rows : List α) (after : Option κ) : List α := sorted key (rows.filter fun a => beyond after (key a))

def page (rows : List α) (after : Option κ) (limit : Nat) : List α := (rest key rows after).take limit

/-- The cursor of the page after one of `n` rows, from the `n + 1` that were read. -/
def next (n : Nat) (fetched : List α) : Option κ :=
  if n < fetched.length then (fetched.take n).getLast?.map key else none

variable {key} {rows : List α} {after : Option κ}

/-! ## Order -/

theorem sorted_perm (rows : List α) : (sorted key rows).Perm rows := List.mergeSort_perm ..

theorem pairwise_sorted (rows : List α) : (sorted key rows).Pairwise fun a b => key a ≤ key b := by
  have htrans : ∀ a b c, decide (key a ≤ key b) = true → decide (key b ≤ key c) = true → decide (key a ≤ key c) = true :=
    fun a b c hab hbc => decide_eq_true (le_trans (of_decide_eq_true hab) (of_decide_eq_true hbc))
  have htotal : ∀ a b, (decide (key a ≤ key b) || decide (key b ≤ key a)) = true := fun a b => by
    simpa only [Bool.or_eq_true, decide_eq_true_eq] using le_total (key a) (key b)
  exact (List.pairwise_mergeSort htrans htotal rows).imp of_decide_eq_true

/-- Rows with keys of their own are strictly ordered. -/
theorem strict_sorted (hkeys : (rows.map key).Nodup) : (sorted key rows).Pairwise fun a b => key a < key b := by
  have hnodup : ((sorted key rows).map key).Nodup := ((sorted_perm rows).map key).nodup_iff.2 hkeys
  exact (pairwise_sorted rows).imp₂ (fun a b hle hne => lt_of_le_of_ne hle hne) (List.pairwise_map.1 hnodup)

theorem mem_rest {a : α} : a ∈ rest key rows after ↔ a ∈ rows ∧ beyond after (key a) = true := by
  rw [rest, (sorted_perm _).mem_iff, List.mem_filter]

theorem strict_rest (hkeys : (rows.map key).Nodup) : (rest key rows after).Pairwise fun a b => key a < key b :=
  strict_sorted (hkeys.sublist (List.filter_sublist.map key))

/-- Only one list holds these rows in this order. -/
theorem eq_sorted {l : List α} (hperm : l.Perm rows) (hl : l.Pairwise fun a b => key a < key b) : l = sorted key rows := by
  have hkeys : (rows.map key).Nodup := by
    rw [← (hperm.map key).nodup_iff]
    exact List.pairwise_map.2 (hl.imp ne_of_lt)
  exact (hperm.trans (sorted_perm rows).symm).eq_of_pairwise (fun a b _ _ hab hba => absurd hab (lt_asymm hba)) hl
    (strict_sorted hkeys)

theorem beyond_trans {c : κ} {k : κ} (hc : beyond after c = true) (hk : beyond (some c) k = true) :
    beyond after k = true := by
  cases after with
  | none => rfl
  | some b => exact decide_eq_true (lt_trans (of_decide_eq_true hc) (of_decide_eq_true hk))

/-- What is left beyond a later cursor. -/
theorem rest_later {c : κ} (hkeys : (rows.map key).Nodup) (hc : beyond after c = true) :
    rest key rows (some c) = (rest key rows after).filter fun a => beyond (some c) (key a) := by
  refine (eq_sorted ?_ ((strict_rest hkeys).sublist List.filter_sublist)).symm
  refine ((sorted_perm _).filter _).trans (.of_eq ?_)
  rw [List.filter_filter]
  refine List.filter_congr fun a _ => ?_
  rw [Bool.and_eq_left_iff_imp]
  exact beyond_trans hc

/-! ## One page -/

/-- The look-ahead tells whether something is left. -/
theorem next_page (rows : List α) (after : Option κ) (n : Nat) :
    next key n (page key rows after (n + 1)) =
      if n < (rest key rows after).length then ((rest key rows after).take n).getLast?.map key else none := by
  rw [next, page, List.take_take, Nat.min_eq_left (Nat.le_succ n), List.length_take]
  refine if_congr ?_ rfl rfl
  omega

theorem rest_of_next_none {n : Nat} (hn : 0 < n) (h : next key n (page key rows after (n + 1)) = none) :
    page key rows after n = rest key rows after := by
  rw [next_page] at h
  split at h
  · rename_i hlt
    rw [Option.map_eq_none_iff, List.getLast?_eq_none_iff, List.take_eq_nil_iff] at h
    rcases h with h | h
    · omega
    · rw [h] at hlt
      exact absurd hlt (Nat.not_lt_zero n)
  · exact List.take_of_length_le (by omega)

/-- The next page starts where this one ends. -/
theorem rest_of_next_some {n : Nat} {c : κ} (hkeys : (rows.map key).Nodup)
    (h : next key n (page key rows after (n + 1)) = some c) :
    beyond after c = true ∧ page key rows after n ++ rest key rows (some c) = rest key rows after ∧
      ∀ a ∈ page key rows after n, key a ≤ c := by
  rw [next_page] at h
  split at h
  · obtain ⟨a, ha, rfl⟩ := Option.map_eq_some_iff.1 h
    have hstrict : (rest key rows after).Pairwise fun a b => key a < key b := strict_rest hkeys
    obtain ⟨before, hbefore⟩ := List.getLast?_eq_some_iff.1 ha
    have hmem : a ∈ rest key rows after := List.mem_of_mem_take (hbefore ▸ List.mem_append_right _ List.mem_cons_self)
    have hsplit := List.take_append_drop n (rest key rows after)
    rw [← hsplit, List.pairwise_append] at hstrict
    obtain ⟨hshown, hleft, hcross⟩ := hstrict
    have hlast : ∀ b ∈ page key rows after n, key b ≤ key a := by
      intro b hb
      rw [page, hbefore] at hb
      rw [hbefore, List.pairwise_append] at hshown
      rcases List.mem_append.1 hb with hb | hb
      · exact (hshown.2.2 b hb a List.mem_cons_self).le
      · rw [List.mem_singleton.1 hb]
    have hafter := (mem_rest.1 hmem).2
    refine ⟨hafter, ?_, hlast⟩
    have hshowed : (page key rows after n).filter (fun b => beyond (some (key a)) (key b)) = [] :=
      List.filter_eq_nil_iff.2 fun b hb => by simpa [beyond] using hlast b hb
    have hdropped : ((rest key rows after).drop n).filter (fun b => beyond (some (key a)) (key b)) =
        (rest key rows after).drop n :=
      List.filter_eq_self.2 fun b hb =>
        decide_eq_true (hcross a (hbefore ▸ List.mem_append_right _ List.mem_cons_self) b hb)
    rw [page] at hshowed
    rw [rest_later hkeys hafter, page]
    conv_lhs => rw [← hsplit, List.filter_append, hsplit, hshowed, hdropped, List.nil_append]
    exact hsplit
  · exact nomatch h

/-! ## Walks -/

/-- The pages that are read by following the cursors to the end, each from the table as it
is then. -/
inductive Walk (key : α → κ) (n : Nat) : Option κ → List (List α) → List (List α) → Prop
  | last {rows : List α} {after : Option κ} : next key n (page key rows after (n + 1)) = none →
      Walk key n after [rows] [page key rows after n]
  | more {rows : List α} {after : Option κ} {c : κ} {tables pages : List (List α)} :
      next key n (page key rows after (n + 1)) = some c → Walk key n (some c) tables pages →
      Walk key n after (rows :: tables) (page key rows after n :: pages)

variable {n : Nat} {tables pages : List (List α)}

theorem Walk.length_le (h : Walk key n after tables pages) : ∀ shown ∈ pages, shown.length ≤ n := by
  induction h with
  | last _ => exact List.forall_mem_singleton.2 (List.length_take_le _ _)
  | more _ _ ih => exact List.forall_mem_cons.2 ⟨List.length_take_le _ _, ih⟩

/-- A table that does not change is read once, in order. -/
theorem Walk.still (hn : 0 < n) (hkeys : (rows.map key).Nodup) (h : Walk key n after tables pages)
    (hrows : ∀ table ∈ tables, table = rows) : pages.flatten = rest key rows after := by
  induction h with
  | last hnext =>
    obtain rfl := hrows _ List.mem_cons_self
    rw [List.flatten_singleton, rest_of_next_none hn hnext]
  | more hnext _ ih =>
    obtain ⟨rfl, hrest⟩ := List.forall_mem_cons.1 hrows
    rw [List.flatten_cons, ih hrest, (rest_of_next_some hkeys hnext).2.1]

/-- The keys that are read go up, whatever is added meanwhile. -/
theorem Walk.strict (hn : 0 < n) (h : Walk key n after tables pages)
    (hkeys : ∀ table ∈ tables, (table.map key).Nodup) :
    pages.flatten.Pairwise (fun a b => key a < key b) ∧ ∀ a ∈ pages.flatten, beyond after (key a) = true := by
  induction h with
  | last hnext =>
    rw [List.flatten_singleton, rest_of_next_none hn hnext]
    exact ⟨strict_rest (hkeys _ List.mem_cons_self), fun a ha => (mem_rest.1 ha).2⟩
  | @more rows after c tables pages hnext _ ih =>
    obtain ⟨hrows, hkeys⟩ := List.forall_mem_cons.1 hkeys
    obtain ⟨hc, hsplit, hle⟩ := rest_of_next_some hrows hnext
    obtain ⟨hstrict, hbeyond⟩ := ih hkeys
    have hshown : (page key rows after n).Sublist (rest key rows after) := List.take_sublist _ _
    rw [List.flatten_cons]
    refine ⟨List.pairwise_append.2 ⟨(strict_rest hrows).sublist hshown, hstrict, fun a ha b hb => ?_⟩,
      List.forall_mem_append.2 ⟨fun a ha => (mem_rest.1 (hshown.mem ha)).2,
        fun a ha => beyond_trans hc (hbeyond a ha)⟩⟩
    exact lt_of_le_of_lt (hle a ha) (of_decide_eq_true (hbeyond b hb))

/-- What is there all the time is read. -/
theorem Walk.complete (hn : 0 < n) (h : Walk key n after tables pages)
    (hkeys : ∀ table ∈ tables, (table.map key).Nodup) {k : κ} (hk : beyond after k = true)
    (hmem : ∀ table ∈ tables, k ∈ table.map key) : k ∈ pages.flatten.map key := by
  induction h with
  | @last rows after hnext =>
    rw [List.flatten_singleton, rest_of_next_none hn hnext]
    obtain ⟨a, ha, rfl⟩ := List.mem_map.1 (hmem _ List.mem_cons_self)
    exact List.mem_map_of_mem (mem_rest.2 ⟨ha, hk⟩)
  | @more rows after c tables pages hnext _ ih =>
    obtain ⟨hrows, hkeys⟩ := List.forall_mem_cons.1 hkeys
    obtain ⟨hhere, hmem⟩ := List.forall_mem_cons.1 hmem
    obtain ⟨-, hsplit, -⟩ := rest_of_next_some hrows hnext
    obtain ⟨a, ha, rfl⟩ := List.mem_map.1 hhere
    rw [List.flatten_cons, List.map_append, List.mem_append]
    have hleft : a ∈ rest key rows after := mem_rest.2 ⟨ha, hk⟩
    rw [← hsplit, List.mem_append] at hleft
    rcases hleft with hshown | hlater
    · exact .inl (List.mem_map_of_mem hshown)
    · exact .inr (ih hkeys (mem_rest.1 hlater).2 hmem)

end Paging
