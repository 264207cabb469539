import NorthgateRmm.Lib.Dict

/-!
# Sliding windows over a table with eviction

A limiter keeps the times of the requests it accepted, once for all keys and once for
each key, and forgets what fell out of the window. The times of the keys stand in a
table of bounded size ordered by last use, from which the least recently used key is
dropped when a new one comes. `Tracks` says that what the limiter keeps is what the
whole log of accepted requests says about the window; the only step that can break it
is an eviction of times that still count.
-/

/-! ## Dictionaries in order of last use -/

namespace Dict

variable {K V : Type} [DecidableEq K]

theorem nodup_put (d : Dict K V) (k : K) (v : V) : ((d.others k ++ [(k, v)]).map Prod.fst).Nodup := by
  rw [List.map_append, List.nodup_append]
  refine ⟨d.nodup.sublist (List.filter_sublist.map _), List.pairwise_singleton _ _, ?_⟩
  rintro a ha b hb rfl
  obtain ⟨e, he, rfl⟩ := List.mem_map.mp ha
  have : e.1 ≠ k := by simpa using (List.mem_filter.mp he).2
  exact this (by simpa using hb)

/-- The value of `k` is `v`, and `k` is the key used last. -/
def put (d : Dict K V) (k : K) (v : V) : Dict K V := ⟨d.others k ++ [(k, v)], d.nodup_put k v⟩

/-- Without the key that was not used for the longest time. -/
def dropOldest (d : Dict K V) : Dict K V :=
  ⟨d.entries.tail, d.nodup.sublist ((List.tail_sublist _).map _)⟩

/-- Use `k`: a new key gets the value `fresh`, and takes the place of the oldest one when
the table has `capacity` keys. -/
def touch (capacity : Nat) (fresh : V) (d : Dict K V) (k : K) : Dict K V × V :=
  match d.get? k with
  | none => ((if capacity ≤ d.size then d.dropOldest else d).put k fresh, fresh)
  | some v => (d.put k v, v)

/-- The entry that using `k` throws out. -/
def evicted (capacity : Nat) (d : Dict K V) (k : K) : Option (K × V) :=
  if d.get? k = none ∧ capacity ≤ d.size then d.entries.head? else none

theorem get?_put (d : Dict K V) (k j : K) (v : V) :
    (d.put k v).get? j = if j = k then some v else d.get? j := by
  ext w
  rw [get?_eq_some]
  by_cases hj : j = k
  · simp [put, others, hj, eq_comm]
  · simp [put, others, hj, get?_eq_some]

theorem get?_dropOldest {d : Dict K V} {e : K × V} {rest : List (K × V)}
    (h : d.entries = e :: rest) (j : K) :
    d.dropOldest.get? j = if j = e.1 then none else d.get? j := by
  have hnodup := d.nodup
  rw [h, List.map_cons, List.nodup_cons] at hnodup
  ext w
  rw [get?_eq_some]
  by_cases hj : j = e.1
  · have : (e.1, w) ∉ rest := fun hw => hnodup.1 (List.mem_map.mpr ⟨_, hw, rfl⟩)
    simp [dropOldest, h, hj, this]
  · simp [dropOldest, h, hj, get?_eq_some, Prod.ext_iff]

theorem put_put (d : Dict K V) (k : K) (v w : V) : (d.put k v).put k w = d.put k w := by
  simp [put, others]

theorem size_put_le {d : Dict K V} {k : K} {v : V} : (d.put k v).size ≤ d.size + 1 := by
  simpa [size, put, others] using List.length_filter_le _ _

theorem size_put_of_some {d : Dict K V} {k : K} {v w : V} (h : d.get? k = some w) :
    (d.put k v).size ≤ d.size := by
  have hmem := get?_eq_some.mp h
  have hlt : (d.others k).length < d.entries.length :=
    List.length_filter_lt_length_iff_exists.mpr ⟨(k, w), hmem, by simp⟩
  simpa [size, put] using Nat.succ_le_of_lt hlt

variable {capacity : Nat} {fresh : V} {d : Dict K V} {k : K}

theorem touch_of_none (h : d.get? k = none) :
    d.touch capacity fresh k = ((if capacity ≤ d.size then d.dropOldest else d).put k fresh, fresh) := by
  simp [touch, h]

/-- What using a key does. -/
theorem touch_cases :
    d.evicted capacity k = none ∧
      d.touch capacity fresh k = (d.put k ((d.get? k).getD fresh), (d.get? k).getD fresh) ∨
    ∃ e rest, d.entries = e :: rest ∧ d.evicted capacity k = some e ∧ d.get? k = none ∧
      d.touch capacity fresh k = (d.dropOldest.put k fresh, fresh) := by
  unfold evicted touch
  cases hk : d.get? k with
  | some v => simp
  | none =>
    by_cases hfull : capacity ≤ d.size
    · cases hd : d.entries with
      | nil =>
        have : d.dropOldest = d := by cases d; simp_all [dropOldest]
        exact .inl ⟨by simp, by simp [hfull, this]⟩
      | cons e rest => exact .inr ⟨e, rest, rfl, by simp [hfull], rfl, by simp [hfull]⟩
    · exact .inl ⟨by simp [hfull], by simp [hfull]⟩

theorem size_touch (hpos : 0 < capacity) (h : d.size ≤ capacity) {v : V} :
    ((d.touch capacity fresh k).1.put k v).size ≤ capacity := by
  unfold touch
  cases hk : d.get? k with
  | some w =>
    simp only [put_put]
    exact (size_put_of_some hk).trans h
  | none =>
    simp only [put_put]
    refine size_put_le.trans ?_
    split
    · simp only [size, dropOldest, List.length_tail] at h ⊢
      omega
    · omega

end Dict

/-! ## Windows of a log -/

section Window

variable {K T : Type} [LinearOrder T]

/-- A deque of times without those that are not after `cutoff`, taken from the left. -/
def expire (cutoff : T) (times : List T) : List T := times.dropWhile (· ≤ cutoff)

theorem expire_eq_filter {cutoff : T} {times : List T} (h : times.Pairwise (· ≤ ·)) :
    expire cutoff times = times.filter (cutoff < ·) := by
  induction times with
  | nil => rfl
  | cons t rest ih =>
    rw [List.pairwise_cons] at h
    by_cases ht : t ≤ cutoff
    · simpa [expire, ht, not_lt.mpr ht] using ih h.2
    · have hall : ∀ u ∈ rest, cutoff < u := fun u hu => (not_le.mp ht).trans_le (h.1 u hu)
      simpa [expire, ht, not_le.mp ht] using (List.filter_eq_self.mpr (by simpa using hall)).symm

theorem filter_expire {cutoff : T} {times : List T} :
    (expire cutoff times).filter (cutoff < ·) = times.filter (cutoff < ·) := by
  induction times with
  | nil => rfl
  | cons t rest ih =>
    by_cases ht : t ≤ cutoff
    · simpa [expire, ht, not_lt.mpr ht] using ih
    · simp [expire, ht]

variable [AddCommGroup T]

/-- The accepted requests in the window `(t - w, t]`. -/
def inWindow (w t : T) (log : List (K × T)) : List (K × T) :=
  log.filter fun e => t - w < e.2 ∧ e.2 ≤ t

variable {w now t : T} {log : List (K × T)} {n : Nat}

theorem inWindow_append (log' : List (K × T)) :
    inWindow w t (log ++ log') = inWindow w t log ++ inWindow w t log' :=
  List.filter_append ..

theorem inWindow_of_past (hpast : ∀ e ∈ log, e.2 ≤ now) :
    inWindow w now log = log.filter fun e => now - w < e.2 :=
  List.filter_congr fun e he => by simp [hpast e he]

/-- Two windows reach back twice as far. -/
theorem length_two_windows_le (hpast : ∀ e ∈ log, e.2 ≤ now) (h : ∀ t, (inWindow w t log).length ≤ n) :
    (log.filter fun e => now - w - w < e.2).length ≤ n + n := by
  have hnew : ((log.filter fun e => now - w - w < e.2).filter fun e => now - w < e.2).length ≤ n := by
    refine le_trans (List.Sublist.length_le ?_) (h now)
    rw [inWindow_of_past hpast]
    exact List.filter_sublist.filter _
  have hold : ((log.filter fun e => now - w - w < e.2).filter fun e => !decide (now - w < e.2)).length ≤ n := by
    refine le_trans (le_of_eq (congrArg _ ?_)) (h (now - w))
    rw [List.filter_filter]
    exact List.filter_congr fun e _ => by
      rw [Bool.and_comm, ← decide_not, ← Bool.decide_and]
      simp
  rw [List.length_eq_length_filter_add (fun e => decide (now - w < e.2))]
  omega

variable [IsOrderedAddMonoid T]

/-- A bound that every accepted request met when it came is one for every window. -/
theorem inWindow_snoc_le (hpast : ∀ e ∈ log, e.2 ≤ now) (h : ∀ t, (inWindow w t log).length ≤ n)
    (hnow : (inWindow w now log).length < n) (k : K) (t : T) :
    (inWindow w t (log ++ [(k, now)])).length ≤ n := by
  rw [inWindow_append, List.length_append]
  by_cases hin : t - w < now ∧ now ≤ t
  · have hsub : (inWindow w t log).length ≤ (inWindow w now log).length := by
      rw [inWindow_of_past hpast]
      refine (List.monotone_filter_right log fun e he => ?_).length_le
      have he : t - w < e.2 ∧ e.2 ≤ t := by simpa using he
      simpa using (sub_le_sub_right hin.2 w).trans_lt he.1
    have : (inWindow w t [(k, now)]).length = 1 := by simp [inWindow, hin]
    omega
  · have : inWindow w t [(k, now)] = [] := by simpa [inWindow] using hin
    rw [this]
    exact h t

end Window

/-! ## What a limiter knows of its log -/

section Tracks

variable {K T : Type} [DecidableEq K]

/-- The accepted requests of one key. -/
def ofKey (k : K) (log : List (K × T)) : List (K × T) := log.filter (·.1 = k)

/-- The times stored for a key. -/
def Dict.times (d : Dict K (List T)) (k : K) : List T := (d.get? k).getD []

theorem Dict.times_put {d : Dict K (List T)} {k j : K} {l : List T} :
    (d.put k l).times j = if j = k then l else d.times j := by
  unfold Dict.times
  rw [Dict.get?_put]
  split <;> rfl

theorem Dict.times_of_mem {d : Dict K (List T)} {e : K × List T} (h : e ∈ d.entries) : d.times e.1 = e.2 := by
  rw [Dict.times, Dict.get?_eq_some.mpr h]
  rfl

theorem ofKey_snoc {log : List (K × T)} {k j : K} {now : T} :
    ofKey k (log ++ [(j, now)]) = ofKey k log ++ if j = k then [(j, now)] else [] := by
  by_cases h : j = k <;> simp [ofKey, h]

variable [LinearOrder T] [AddCommGroup T]

/-- What a window over the whole log answers. -/
def windowAllows (w : T) (perKey overall : Nat) (log : List (K × T)) (k : K) (now : T) : Bool :=
  (inWindow w now log).length < overall ∧ (inWindow w now (ofKey k log)).length < perKey

/-- At time `now` the times kept for all keys and those in the table are what the log says
about the window. -/
structure Tracks (w now : T) (recent : List T) (d : Dict K (List T)) (log : List (K × T)) : Prop where
  sorted : (log.map Prod.snd).Pairwise (· ≤ ·)
  past : ∀ e ∈ log, e.2 ≤ now
  recent : recent = (log.map Prod.snd).filter (now - w < ·)
  ordered : ∀ k, (d.times k).Pairwise (· ≤ ·)
  known : ∀ k, ∀ t ∈ d.times k, (k, t) ∈ log
  kept : ∀ k, (d.times k).filter (now - w < ·) = ((ofKey k log).map Prod.snd).filter (now - w < ·)

variable {w now next : T} {recent : List T} {d : Dict K (List T)} {log : List (K × T)} {k : K}

theorem Tracks.empty : Tracks w now [] (Dict.empty : Dict K (List T)) [] where
  sorted := List.Pairwise.nil
  past := List.forall_mem_nil _
  recent := rfl
  ordered _ := List.Pairwise.nil
  known _ := List.forall_mem_nil _
  kept _ := rfl

theorem Tracks.recent_length (h : Tracks w now recent d log) :
    recent.length = (inWindow w now log).length := by
  rw [h.recent, inWindow_of_past h.past, List.filter_map, List.length_map]
  rfl

theorem Tracks.times_length (h : Tracks w now recent d log) :
    (expire (now - w) (d.times k)).length = (inWindow w now (ofKey k log)).length := by
  have hpast : ∀ e ∈ ofKey k log, e.2 ≤ now := fun e he => h.past e (List.mem_filter.mp he).1
  rw [expire_eq_filter (h.ordered k), h.kept k, inWindow_of_past hpast, List.filter_map, List.length_map]
  rfl

theorem Tracks.stored (h : Tracks w now recent d log) {e : K × T} (he : e ∈ log) (hin : now - w < e.2) :
    e.2 ∈ d.times e.1 := by
  have hmem : e.2 ∈ ((ofKey e.1 log).map Prod.snd).filter (now - w < ·) :=
    List.mem_filter.mpr ⟨List.mem_map.mpr ⟨e, List.mem_filter.mpr ⟨he, by simp⟩, rfl⟩, by simpa using hin⟩
  rw [← h.kept] at hmem
  exact (List.mem_filter.mp hmem).1

/-- An entry goes whose times do not count any more. -/
theorem Tracks.dropOldest (h : Tracks w now recent d log) {e : K × List T} {rest : List (K × List T)}
    (hd : d.entries = e :: rest) (hold : ∀ t ∈ e.2, t ≤ now - w) : Tracks w now recent d.dropOldest log := by
  have htimes : ∀ j, d.dropOldest.times j = if j = e.1 then [] else d.times j := fun j => by
    unfold Dict.times
    rw [Dict.get?_dropOldest hd]
    split <;> rfl
  have he : d.times e.1 = e.2 := Dict.times_of_mem (hd ▸ List.mem_cons_self)
  refine ⟨h.sorted, h.past, h.recent, fun j => ?_, fun j => ?_, fun j => ?_⟩ <;> rw [htimes j] <;> split
  · exact List.Pairwise.nil
  · exact h.ordered j
  · exact List.forall_mem_nil _
  · exact h.known j
  · subst j
    rw [← h.kept, he, List.filter_nil, eq_comm, List.filter_eq_nil_iff]
    simpa using hold
  · exact h.kept j

/-- The times of a key are stored again, without those that do not count. -/
theorem Tracks.put (h : Tracks w now recent d log) :
    Tracks w now recent (d.put k (expire (now - w) (d.times k))) log := by
  have hsub := List.dropWhile_sublist (l := d.times k) (· ≤ now - w)
  refine ⟨h.sorted, h.past, h.recent, fun j => ?_, fun j => ?_, fun j => ?_⟩ <;> rw [Dict.times_put] <;> split
  · exact (h.ordered k).sublist hsub
  · exact h.ordered j
  · subst j
    exact fun t ht => h.known k t (hsub.subset ht)
  · exact h.known j
  · subst j
    rw [filter_expire, h.kept]
  · exact h.kept j

/-- A key is used, and what that throws out does not count any more. -/
theorem Tracks.touch (h : Tracks w now recent d log) (capacity : Nat) (k : K)
    (hold : ∀ e, d.evicted capacity k = some e → ∀ t ∈ e.2, t ≤ now - w) :
    ∃ d₁ : Dict K (List T), Tracks w now recent d₁ log ∧ d₁.entries.Sublist d.entries ∧
      d.touch capacity [] k = (d₁.put k (d₁.times k), d₁.times k) := by
  obtain ⟨-, ht⟩ | ⟨e, rest, hd, he, hk, ht⟩ := @Dict.touch_cases K (List T) _ capacity [] d k
  · exact ⟨d, h, List.Sublist.refl _, ht⟩
  · have hnone : d.dropOldest.times k = [] := by
      unfold Dict.times
      rw [Dict.get?_dropOldest hd, hk]
      split <;> rfl
    exact ⟨d.dropOldest, h.dropOldest hd (hold e he), List.tail_sublist _, by rw [hnone]; exact ht⟩

variable [IsOrderedAddMonoid T]

theorem filter_later {times : List T} (hle : now ≤ next) :
    (times.filter (now - w < ·)).filter (next - w < ·) = times.filter (next - w < ·) := by
  rw [List.filter_filter]
  refine List.filter_congr fun t _ => ?_
  have : next - w < t → now - w < t := (sub_le_sub_right hle w).trans_lt
  simp only [Bool.and_eq_left_iff_imp, decide_eq_true_eq]
  exact this

/-- Time passes, and the oldest times fall out of the window. -/
theorem Tracks.later (h : Tracks w now recent d log) (hle : now ≤ next) :
    Tracks w next (expire (next - w) recent) d log where
  sorted := h.sorted
  past e he := (h.past e he).trans hle
  recent := by
    rw [expire_eq_filter (by rw [h.recent]; exact h.sorted.sublist List.filter_sublist), h.recent, filter_later hle]
  ordered := h.ordered
  known := h.known
  kept k := by
    rw [← filter_later hle, h.kept k, filter_later hle]

/-- A request is accepted. -/
theorem Tracks.accept (hw : 0 < w) (h : Tracks w now recent d log) :
    Tracks w now (recent ++ [now]) (d.put k (expire (now - w) (d.times k) ++ [now])) (log ++ [(k, now)]) := by
  have hin : now - w < now := sub_lt_self now hw
  have hput := (h.put (k := k))
  have hlast : ∀ t ∈ (d.put k (expire (now - w) (d.times k))).times k, t ≤ now :=
    fun t ht => h.past _ (hput.known k t ht)
  have hk : (d.put k (expire (now - w) (d.times k))).times k = expire (now - w) (d.times k) := by simp [Dict.times_put]
  have hstored := hput.kept k
  rw [hk] at hlast hstored
  refine ⟨?_, ?_, ?_, fun j => ?_, fun j => ?_, fun j => ?_⟩
  · simpa [List.pairwise_append, h.sorted] using fun t a ha => h.past (a, t) ha
  · simpa [or_imp, forall_and] using h.past
  · simp [h.recent, hin]
  all_goals
    rw [Dict.times_put]
    split
  · rw [List.pairwise_append]
    have := hput.ordered k
    rw [hk] at this
    exact ⟨this, List.pairwise_singleton _ _, by simpa using hlast⟩
  · exact h.ordered j
  · subst j
    have := hput.known k
    rw [hk] at this
    simpa [or_imp, forall_and] using fun t ht => .inl (this t ht)
  · exact fun t ht => List.mem_append_left _ (h.known j t ht)
  · subst j
    simp [ofKey_snoc, hstored, hin]
  · rename_i hj
    rw [ofKey_snoc, if_neg (Ne.symm hj), List.append_nil]
    exact h.kept j

/-! ## What is thrown out -/

/-- Whoever stands behind a stored time `t` in the table was accepted after `t - w`. -/
def UsedSince (w : T) (d : Dict K (List T)) (log : List (K × T)) : Prop :=
  d.entries.Pairwise fun a b => ∀ t ∈ a.2, ∃ e ∈ log, e.1 = b.1 ∧ t - w < e.2

theorem UsedSince.put (h : UsedSince w d log) (htracks : Tracks w now recent d log) {d₁ : Dict K (List T)}
    (hsub : d₁.entries.Sublist d.entries) {times : List T} {log' : List (K × T)} (hlog : ∀ e ∈ log, e ∈ log')
    (hk : ∃ e ∈ log', e.1 = k ∧ now - w < e.2) : UsedSince w (d₁.put k times) log' := by
  have hmono : d₁.entries.Pairwise fun a b => ∀ t ∈ a.2, ∃ e ∈ log', e.1 = b.1 ∧ t - w < e.2 :=
    (h.sublist hsub).imp fun hab t ht => by
      obtain ⟨e, he, hkey, hlt⟩ := hab t ht
      exact ⟨e, hlog e he, hkey, hlt⟩
  refine List.pairwise_append.mpr ⟨hmono.sublist List.filter_sublist, List.pairwise_singleton _ _, ?_⟩
  intro a ha b hb t ht
  have hmem : a ∈ d.entries := hsub.subset (List.mem_filter.mp ha).1
  have hle : t ≤ now := htracks.past _ (htracks.known a.1 t (by rwa [Dict.times_of_mem hmem]))
  obtain ⟨e, he, hkey, hlt⟩ := hk
  exact ⟨e, he, by simpa [List.mem_singleton.mp hb] using hkey, (sub_le_sub_right hle w).trans_lt hlt⟩

/-- With room for the keys of two full windows, nothing that counts is thrown out. -/
theorem UsedSince.evicted (h : UsedSince w d log) (hpast : ∀ e ∈ log, e.2 ≤ now) {n capacity : Nat}
    (hbound : ∀ t, (inWindow w t log).length ≤ n) (hroom : n + n + 1 < capacity) {e : K × List T}
    (he : d.evicted capacity k = some e) : ∀ t ∈ e.2, t ≤ now - w := by
  intro t ht
  by_contra hcounts
  rw [not_le] at hcounts
  have hfull : d.get? k = none ∧ capacity ≤ d.size := by
    by_contra hno
    simp [Dict.evicted, hno] at he
  obtain ⟨rest, hd⟩ : ∃ rest, d.entries = e :: rest := by
    rw [Dict.evicted, if_pos hfull] at he
    exact List.head?_eq_some_iff.mp he
  have hnodup := d.nodup
  rw [UsedSince, hd, List.pairwise_cons] at h
  rw [hd, List.map_cons, List.nodup_cons] at hnodup
  -- every other key of the table has a request of its own in the last two windows
  have hsub : rest.map Prod.fst ⊆ (log.filter fun a => now - w - w < a.2).map Prod.fst := by
    intro key hkey
    obtain ⟨b, hb, rfl⟩ := List.mem_map.mp hkey
    obtain ⟨a, ha, hab, hlt⟩ := h.1 b hb t ht
    exact List.mem_map.mpr ⟨a, List.mem_filter.mpr ⟨ha, by simpa using (sub_lt_sub_right hcounts w).trans hlt⟩, hab⟩
  have hle := (hnodup.2.subperm hsub).length_le
  have htwo := length_two_windows_le hpast hbound
  have hsize : d.size = rest.length + 1 := by simp [Dict.size, hd]
  simp only [List.length_map] at hle
  omega

end Tracks

/-! ## Runs -/

section Served

variable {S K T : Type}

/-- A limiter and the requests it accepted. -/
structure Served (S K T : Type) where
  limiter : S
  log : List (K × T)

/-- One call. -/
def Served.call (allow : S → K → T → Bool × S) (s : Served S K T) (request : K × T) : Served S K T :=
  let (allowed, limiter) := allow s.limiter request.1 request.2
  ⟨limiter, if allowed then s.log ++ [request] else s.log⟩

/-- A sequence of calls. -/
def Served.calls (allow : S → K → T → Bool × S) (s : Served S K T) (requests : List (K × T)) : Served S K T :=
  requests.foldl (Served.call allow) s

theorem Served.calls_append {allow : S → K → T → Bool × S} {s : Served S K T} {before later : List (K × T)} :
    s.calls allow (before ++ later) = (s.calls allow before).calls allow later :=
  List.foldl_append

end Served
