import NorthgateRmm.Lib.RateWindow
import NorthgateRmm.Uuid

/-!
# Rate limiters of the listeners

`_SourceRateLimiter` of the enrollment listener, `_OperatorSourceRateLimiter` of the
operator listener and `_AgentRateLimiter` of the agent listener, with times as exact
numbers. The first two are one function with different bounds, and look at the global
ceiling before they touch the table of sources. The third touches the table first.
-/

namespace NorthgateRmm.Server

/-- `loop.time()`. -/
abbrev Seconds := ℚ

/-- The two deques: the times of all accepted requests and those of each tracked key. -/
structure RateLimiter (K : Type) where
  overall : List Seconds
  tracked : Dict K (List Seconds)

def RateLimiter.new {K : Type} : RateLimiter K := ⟨[], .empty⟩

section

variable {K : Type} [DecidableEq K]

/-- `allow` of the enrollment and the operator listener. -/
def allowSource (window : Seconds) (maxPerSource maxGlobal maxTracked : Nat) (limiter : RateLimiter K)
    (source : K) (now : Seconds) : Bool × RateLimiter K :=
  let threshold := now - window
  let recent := expire threshold limiter.overall
  if maxGlobal ≤ recent.length then (false, { limiter with overall := recent })
  else
    -- the source is the last entry now, so storing its deque again leaves the order as it is
    let (sources, events) := limiter.tracked.touch maxTracked [] source
    let events := expire threshold events
    if maxPerSource ≤ events.length then (false, ⟨recent, sources.put source events⟩)
    else (true, ⟨recent ++ [now], sources.put source (events ++ [now])⟩)

/-- A limiter answers as a window over everything it ever accepted, keeps what still
counts of it, and stores no more than `maxTracked` sources. -/
def IsSlidingWindow (allow : RateLimiter K → K → Seconds → Bool × RateLimiter K) (window : Seconds)
    (maxPerSource maxGlobal maxTracked : Nat) : Prop :=
  ∀ (requests : List (K × Seconds)) (source : K) (now : Seconds),
    (requests ++ [(source, now)]).Pairwise (·.2 ≤ ·.2) →
    let served := Served.calls allow ⟨.new, []⟩ requests
    (allow served.limiter source now).1 = windowAllows window maxPerSource maxGlobal served.log source now ∧
      (∀ e ∈ served.log, now - window < e.2 → e.2 ∈ served.limiter.tracked.times e.1) ∧
      served.limiter.tracked.size ≤ maxTracked

/-- What holds between the calls of a source limiter. -/
structure SourceInvariant (window : Seconds) (maxGlobal maxTracked : Nat) (now : Seconds)
    (served : Served (RateLimiter K) K Seconds) : Prop where
  tracks : Tracks window now served.limiter.overall served.limiter.tracked served.log
  used : UsedSince window served.limiter.tracked served.log
  bound : ∀ t, (inWindow window t served.log).length ≤ maxGlobal
  size : served.limiter.tracked.size ≤ maxTracked

variable {window now next : Seconds} {maxPerSource maxGlobal maxTracked : Nat} {source : K}
  {served : Served (RateLimiter K) K Seconds}

theorem SourceInvariant.new : SourceInvariant window maxGlobal maxTracked now
    (⟨.new, []⟩ : Served (RateLimiter K) K Seconds) where
  tracks := .empty
  used := List.Pairwise.nil
  bound _ := Nat.zero_le _
  size := Nat.zero_le _

theorem SourceInvariant.call (hwindow : 0 < window) (hsource : 0 < maxPerSource)
    (hroom : maxGlobal + maxGlobal + 1 < maxTracked)
    (h : SourceInvariant window maxGlobal maxTracked now served) (hle : now ≤ next) :
    (allowSource window maxPerSource maxGlobal maxTracked served.limiter source next).1 =
        windowAllows window maxPerSource maxGlobal served.log source next ∧
      SourceInvariant window maxGlobal maxTracked next
        (served.call (allowSource window maxPerSource maxGlobal maxTracked) (source, next)) := by
  have hlater := h.tracks.later hle
  have hglobal := hlater.recent_length
  unfold Served.call allowSource windowAllows
  dsimp only
  by_cases hfull : maxGlobal ≤ (expire (next - window) served.limiter.overall).length
  · rw [if_pos hfull]
    exact ⟨by simp [← hglobal, hfull], hlater, h.used, h.bound, h.size⟩
  rw [if_neg hfull]
  obtain ⟨d, hd, hsub, htouch⟩ := hlater.touch maxTracked source fun e he =>
    h.used.evicted hlater.past h.bound hroom he
  have hsize := fun v => @Dict.size_touch _ _ _ maxTracked [] served.limiter.tracked source (by omega) h.size v
  have hevents := hd.times_length (k := source)
  rw [htouch] at hsize ⊢
  simp only [Dict.put_put] at hsize ⊢
  by_cases hmany : maxPerSource ≤ (expire (next - window) (d.times source)).length
  · rw [if_pos hmany]
    refine ⟨by simp [← hevents, hmany], hd.put, h.used.put hlater hsub (fun _ he => he) ?_, h.bound, hsize _⟩
    obtain ⟨e, he⟩ := List.exists_mem_of_length_pos (hsource.trans_le (hevents ▸ hmany))
    simp only [inWindow, ofKey, List.mem_filter, decide_eq_true_eq] at he
    exact ⟨e, he.1.1, he.1.2, he.2.1⟩
  · rw [if_neg hmany]
    refine ⟨by simp [← hevents, ← hglobal, hmany, hfull, not_le.mp], hd.accept hwindow, ?_, ?_, hsize _⟩
    · exact h.used.put hlater hsub (fun _ he => List.mem_append_left _ he)
        ⟨_, List.mem_append_right _ List.mem_cons_self, rfl, sub_lt_self next hwindow⟩
    · exact inWindow_snoc_le hlater.past h.bound (by rw [← hglobal]; exact not_le.mp hfull) source

theorem SourceInvariant.calls (hwindow : 0 < window) (hsource : 0 < maxPerSource)
    (hroom : maxGlobal + maxGlobal + 1 < maxTracked) {requests : List (K × Seconds)}
    (h : SourceInvariant window maxGlobal maxTracked now served)
    (hsorted : requests.Pairwise (·.2 ≤ ·.2)) (hle : ∀ r ∈ requests, now ≤ r.2) :
    ∃ last, SourceInvariant window maxGlobal maxTracked last
        (served.calls (allowSource window maxPerSource maxGlobal maxTracked) requests) ∧
      ∀ t, now ≤ t → (∀ r ∈ requests, r.2 ≤ t) → last ≤ t := by
  induction requests generalizing now served with
  | nil => exact ⟨now, h, fun t ht _ => ht⟩
  | cons request rest ih =>
    rw [List.pairwise_cons] at hsorted
    have hstep : SourceInvariant window maxGlobal maxTracked request.2
        (served.call (allowSource window maxPerSource maxGlobal maxTracked) request) :=
      (h.call hwindow hsource hroom (hle request List.mem_cons_self)).2
    obtain ⟨last, hlast, hle'⟩ := ih hstep hsorted.2 hsorted.1
    exact ⟨last, hlast, fun t _ ht => hle' t (ht request List.mem_cons_self) fun r hr => ht r (List.mem_cons_of_mem _ hr)⟩

theorem allowSource_isSlidingWindow (hwindow : 0 < window) (hsource : 0 < maxPerSource)
    (hroom : maxGlobal + maxGlobal + 1 < maxTracked) :
    IsSlidingWindow (allowSource (K := K) window maxPerSource maxGlobal maxTracked) window maxPerSource
      maxGlobal maxTracked := by
  intro requests source now hsorted
  rw [List.pairwise_append] at hsorted
  obtain ⟨hsorted, -, hnow⟩ := hsorted
  have hnow : ∀ r ∈ requests, r.2 ≤ now := fun r hr => hnow r hr _ List.mem_cons_self
  -- the time of the first request is a time from which the invariant runs
  obtain ⟨first, hfirst, hle⟩ : ∃ first, (∀ r ∈ requests, first ≤ r.2) ∧ first ≤ now := by
    cases requests with
    | nil => exact ⟨now, List.forall_mem_nil _, le_rfl⟩
    | cons request rest =>
      rw [List.pairwise_cons] at hsorted
      exact ⟨request.2, List.forall_mem_cons.mpr ⟨le_rfl, hsorted.1⟩, hnow _ List.mem_cons_self⟩
  obtain ⟨last, hinv, hlast⟩ := SourceInvariant.new.calls hwindow hsource hroom hsorted hfirst
  have hlast := hlast now hle hnow
  refine ⟨(hinv.call hwindow hsource hroom hlast).1, fun e he hin => ?_, hinv.size⟩
  exact hinv.tracks.stored he ((sub_le_sub_right hlast window).trans_lt hin)

end

/-! ## The enrollment and the operator listener -/

namespace EnrollmentListener

def rateLimitWindowSeconds : Seconds := 60
def maxRequestsPerSourceWindow : Nat := 8
def maxGlobalRequestsPerWindow : Nat := 64
def maxTrackedSources : Nat := 4096

/-- `_SourceRateLimiter.allow`. -/
def SourceRateLimiter.allow : RateLimiter String → String → Seconds → Bool × RateLimiter String :=
  allowSource rateLimitWindowSeconds maxRequestsPerSourceWindow maxGlobalRequestsPerWindow maxTrackedSources

end EnrollmentListener

namespace OperatorListener

def operatorRateLimitWindowSeconds : Seconds := 60
def maxOperatorRequestsPerSourceWindow : Nat := 30
def maxGlobalOperatorRequestsPerWindow : Nat := 120
def maxTrackedOperatorSources : Nat := 4096

/-- `_OperatorSourceRateLimiter.allow`. -/
def OperatorSourceRateLimiter.allow : RateLimiter String → String → Seconds → Bool × RateLimiter String :=
  allowSource operatorRateLimitWindowSeconds maxOperatorRequestsPerSourceWindow
    maxGlobalOperatorRequestsPerWindow maxTrackedOperatorSources

end OperatorListener

/-- The limiters of the enrollment and the operator listener are unbounded sliding windows:
what the table of 4,096 sources throws out does not count any more, since fewer sources
can be used in a window and the one before it. -/
theorem source_limiters_are_sliding_windows :
    IsSlidingWindow EnrollmentListener.SourceRateLimiter.allow 60 8 64 4096 ∧
      IsSlidingWindow OperatorListener.OperatorSourceRateLimiter.allow 60 30 120 4096 :=
  ⟨allowSource_isSlidingWindow (by decide) (by decide) (by decide),
    allowSource_isSlidingWindow (by decide) (by decide) (by decide)⟩

/-! ## The agent listener -/

namespace AgentListener

def rateLimitWindowSeconds : Seconds := 10
def maxRequestsPerIdentityWindow : Nat := 32
def maxGlobalRequestsPerWindow : Nat := 160
def maxTrackedIdentities : Nat := 4096

/-- `_IdentityQuotaKey`: the endpoint and the fingerprint of its certificate. -/
abbrev IdentityQuotaKey := Uuid × String

/-- `_discard_before`. -/
def discardBefore (values : List Seconds) (cutoff : Seconds) : List Seconds := expire cutoff values

/-- `_AgentRateLimiter.allow`. Unlike the source limiters it uses the identity's entry, and
throws another one out for it, also when the global ceiling is reached. -/
def AgentRateLimiter.allow (limiter : RateLimiter IdentityQuotaKey) (identityKey : IdentityQuotaKey)
    (now : Seconds) : Bool × RateLimiter IdentityQuotaKey :=
  let cutoff := now - rateLimitWindowSeconds
  let recent := discardBefore limiter.overall cutoff
  let (identities, identity) := limiter.tracked.touch maxTrackedIdentities [] identityKey
  let identity := discardBefore identity cutoff
  if maxGlobalRequestsPerWindow ≤ recent.length ∨ maxRequestsPerIdentityWindow ≤ identity.length then
    (false, ⟨recent, identities.put identityKey identity⟩)
  else (true, ⟨recent ++ [now], identities.put identityKey (identity ++ [now])⟩)

/-- The call throws no identity out that has a time in the window. -/
def AgentRateLimiter.spares (limiter : RateLimiter IdentityQuotaKey) (identityKey : IdentityQuotaKey)
    (now : Seconds) : Bool :=
  ((limiter.tracked.evicted maxTrackedIdentities identityKey).all
    fun e => discardBefore e.2 (now - rateLimitWindowSeconds) = [])

/-- Every call of a sequence spares what still counts. -/
def AgentRateLimiter.sparesAll (served : Served (RateLimiter IdentityQuotaKey) IdentityQuotaKey Seconds) :
    List (IdentityQuotaKey × Seconds) → Bool
  | [] => true
  | request :: rest =>
    spares served.limiter request.1 request.2 && sparesAll (served.call allow request) rest

/-- What holds between the calls of the agent limiter. -/
structure AgentInvariant (now : Seconds) (served : Served (RateLimiter IdentityQuotaKey) IdentityQuotaKey Seconds) :
    Prop where
  tracks : Tracks rateLimitWindowSeconds now served.limiter.overall served.limiter.tracked served.log
  bound : ∀ identity t, (inWindow rateLimitWindowSeconds t (ofKey identity served.log)).length ≤
    maxRequestsPerIdentityWindow

theorem AgentInvariant.new (now : Seconds) : AgentInvariant now ⟨.new, []⟩ where
  tracks := .empty
  bound _ _ := Nat.zero_le _

variable {now next : Seconds} {served : Served (RateLimiter IdentityQuotaKey) IdentityQuotaKey Seconds}

theorem AgentInvariant.call {request : IdentityQuotaKey × Seconds} (h : AgentInvariant now served)
    (hle : now ≤ request.2) (hspares : AgentRateLimiter.spares served.limiter request.1 request.2) :
    AgentInvariant request.2 (served.call AgentRateLimiter.allow request) := by
  have hlater := h.tracks.later hle
  obtain ⟨d, hd, -, htouch⟩ := hlater.touch maxTrackedIdentities request.1 fun e he => by
    rw [AgentRateLimiter.spares, he] at hspares
    simpa [discardBefore, expire, List.dropWhile_eq_nil_iff] using hspares
  have hevents := hd.times_length (k := request.1)
  unfold Served.call AgentRateLimiter.allow discardBefore
  dsimp only
  rw [htouch]
  simp only [Dict.put_put]
  split
  · exact ⟨hd.put, h.bound⟩
  · rename_i hdenied
    rw [not_or, not_le, not_le] at hdenied
    refine ⟨hd.accept (by decide), fun identity t => ?_⟩
    show (inWindow _ t (ofKey identity (served.log ++ [(request.1, request.2)]))).length ≤ _
    rw [ofKey_snoc]
    split
    · rename_i hkey
      subst identity
      exact inWindow_snoc_le (fun e he => hlater.past e (List.mem_filter.mp he).1) (h.bound _)
        (hevents.symm.trans_lt hdenied.2) _ t
    · rw [List.append_nil]
      exact h.bound identity t

theorem AgentInvariant.calls {requests : List (IdentityQuotaKey × Seconds)} (h : AgentInvariant now served)
    (hsorted : requests.Pairwise (·.2 ≤ ·.2)) (hle : ∀ r ∈ requests, now ≤ r.2)
    (hspares : AgentRateLimiter.sparesAll served requests) :
    ∃ last, AgentInvariant last (served.calls AgentRateLimiter.allow requests) := by
  induction requests generalizing now served with
  | nil => exact ⟨now, h⟩
  | cons request rest ih =>
    rw [List.pairwise_cons] at hsorted
    rw [AgentRateLimiter.sparesAll, Bool.and_eq_true] at hspares
    exact ih (h.call (hle request List.mem_cons_self) hspares.1) hsorted.2 hsorted.1 hspares.2

/-- No identity has more than 32 requests accepted in any ten seconds, as long as no call
throws out an identity with accepted requests that still count. -/
theorem agent_ceiling_when_spared {requests : List (IdentityQuotaKey × Seconds)}
    (hsorted : requests.Pairwise (·.2 ≤ ·.2))
    (hspares : AgentRateLimiter.sparesAll ⟨.new, []⟩ requests) (identity : IdentityQuotaKey) (t : Seconds) :
    (inWindow 10 t (ofKey identity (Served.calls AgentRateLimiter.allow ⟨.new, []⟩ requests).log)).length ≤ 32 := by
  obtain ⟨first, hfirst⟩ : ∃ first, ∀ r ∈ requests, first ≤ r.2 := by
    cases requests with
    | nil => exact ⟨t, List.forall_mem_nil _⟩
    | cons request rest =>
      exact ⟨request.2, List.forall_mem_cons.mpr ⟨le_rfl, (List.pairwise_cons.mp hsorted).1⟩⟩
  obtain ⟨last, hlast⟩ := (AgentInvariant.new first).calls hsorted hfirst hspares
  exact hlast.bound identity t

/-- Forty requests of one identity at once: 32 are accepted. -/
theorem agent_ceiling_when_spared_burst :
    (inWindow 10 0 (ofKey (⟨0⟩, "") (Served.calls AgentRateLimiter.allow ⟨.new, []⟩
      (List.replicate 40 ((⟨0⟩, ""), 0))).log)).length ≤ 32 :=
  agent_ceiling_when_spared (List.pairwise_replicate.mpr (.inr le_rfl)) (by decide +kernel) _ _

/-- While the global ceiling is reached, a call of a new identity changes nothing but the
table. -/
theorem turned_away {key : IdentityQuotaKey} (hfull : maxGlobalRequestsPerWindow ≤ served.limiter.overall.length)
    (hrecent : discardBefore served.limiter.overall (now - rateLimitWindowSeconds) = served.limiter.overall)
    (hfresh : served.limiter.tracked.get? key = none) :
    served.call AgentRateLimiter.allow (key, now) = ⟨⟨served.limiter.overall,
      (if maxTrackedIdentities ≤ served.limiter.tracked.size then served.limiter.tracked.dropOldest
        else served.limiter.tracked).put key []⟩, served.log⟩ := by
  unfold Served.call AgentRateLimiter.allow
  dsimp only
  rw [Dict.touch_of_none hfresh, hrecent, if_pos (.inl hfull)]
  simp only [Dict.put_put]
  rfl

/-- Such calls leave the new identities at the end of the table. -/
theorem flood (served : Served (RateLimiter IdentityQuotaKey) IdentityQuotaKey Seconds)
    (keys : List IdentityQuotaKey) (now : Seconds) (hsize : served.limiter.tracked.size ≤ maxTrackedIdentities)
    (hfull : maxGlobalRequestsPerWindow ≤ served.limiter.overall.length)
    (hrecent : discardBefore served.limiter.overall (now - rateLimitWindowSeconds) = served.limiter.overall)
    (hnodup : keys.Nodup) (hfresh : ∀ k ∈ keys, served.limiter.tracked.get? k = none) :
    ∃ d : Dict IdentityQuotaKey (List Seconds),
      served.calls AgentRateLimiter.allow (keys.map (·, now)) = ⟨⟨served.limiter.overall, d⟩, served.log⟩ ∧
      d.entries.map Prod.fst <:+ served.limiter.tracked.entries.map Prod.fst ++ keys ∧
      d.size = min maxTrackedIdentities (served.limiter.tracked.size + keys.length) := by
  induction keys generalizing served with
  | nil => exact ⟨_, rfl, by simp, by simpa using hsize⟩
  | cons key rest ih =>
    rw [List.nodup_cons] at hnodup
    have hkey := hfresh key List.mem_cons_self
    have hcall := turned_away hfull hrecent hkey
    set room := if maxTrackedIdentities ≤ served.limiter.tracked.size then served.limiter.tracked.dropOldest
        else served.limiter.tracked with hroom
    have hsub : room.entries <:+ served.limiter.tracked.entries := by
      rw [hroom]
      split
      · exact List.tail_suffix _
      · exact List.suffix_refl _
    have hlen : room.size + 1 = min maxTrackedIdentities (served.limiter.tracked.size + 1) := by
      rw [hroom]
      split
      · rename_i h
        simp only [Dict.size, Dict.dropOldest, List.length_tail, maxTrackedIdentities] at h hsize ⊢
        omega
      · omega
    have hentries : (room.put key []).entries = room.entries ++ [(key, [])] := by
      have : room.get? key = none :=
        Dict.get?_eq_none.mpr fun e he => Dict.get?_eq_none.mp hkey e (hsub.subset he)
      simp [Dict.put, Dict.others_of_none this]
    have hputs : (room.put key []).size = room.size + 1 := by simp [Dict.size, hentries]
    obtain ⟨d, hd, hsuffix, hdsize⟩ := ih ⟨⟨served.limiter.overall, room.put key []⟩, served.log⟩
      (by simp only; omega) hfull hrecent hnodup.2 fun k hk => by
        rw [Dict.get?_put, if_neg (ne_of_mem_of_not_mem hk hnodup.1)]
        exact Dict.get?_eq_none.mpr fun e he =>
          Dict.get?_eq_none.mp (hfresh k (List.mem_cons_of_mem _ hk)) e (hsub.subset he)
    refine ⟨d, ?_, ?_, ?_⟩
    · rw [List.map_cons, Served.calls, List.foldl_cons, hcall]
      exact hd
    · refine hsuffix.trans ?_
      simp only [hentries, List.map_append, List.append_assoc]
      obtain ⟨front, hfront⟩ := hsub
      exact ⟨front.map Prod.fst, by simp [← hfront]⟩
    · simp only [hputs, List.length_cons] at hdsize ⊢
      omega

def someIdentity (n : Nat) : IdentityQuotaKey := (⟨BitVec.ofNat 128 n⟩, "")

/-- Four identities use 128 requests at time 0 and a fifth one its 32 at time 5. -/
def busyRequests : List (IdentityQuotaKey × Seconds) :=
  (List.range 4).flatMap (fun n => List.replicate 32 (someIdentity n, 0)) ++ List.replicate 32 (someIdentity 4, 5)

def busyServed : Served (RateLimiter IdentityQuotaKey) IdentityQuotaKey Seconds :=
  .calls AgentRateLimiter.allow ⟨.new, []⟩ busyRequests

theorem busy_log : (inWindow 10 10 (ofKey (someIdentity 4) busyServed.log)).length = 32 := by
  decide +kernel

theorem busy_overall : busyServed.limiter.overall = List.replicate 128 0 ++ List.replicate 32 5 := by
  decide +kernel

theorem busy_tracked :
    busyServed.limiter.tracked.entries.map Prod.fst = (List.range 5).map someIdentity := by
  decide +kernel

theorem someIdentity_inj {m n : Nat} (hm : m < 2 ^ 128) (hn : n < 2 ^ 128) (h : someIdentity m = someIdentity n) :
    m = n := by
  have hmod : m % 2 ^ 128 = n % 2 ^ 128 := congrArg (fun k : IdentityQuotaKey => k.1.bits.toNat) h
  rwa [Nat.mod_eq_of_lt hm, Nat.mod_eq_of_lt hn] at hmod

/-- As many further identities as the table has places. -/
def floodKeys : List IdentityQuotaKey := (List.range maxTrackedIdentities).map fun n => someIdentity (n + 5)

theorem mem_floodKeys {n : Nat} (hn : n < 5) : someIdentity n ∉ floodKeys := by
  intro hmem
  obtain ⟨m, hm, heq⟩ := List.mem_map.mp hmem
  have hm : m < 4096 := List.mem_range.mp hm
  have := someIdentity_inj (by omega) (by omega) heq
  omega

theorem nodup_floodKeys : floodKeys.Nodup := by
  refine List.Nodup.map_on (fun a ha b hb heq => ?_) List.nodup_range
  have ha : a < 4096 := List.mem_range.mp ha
  have hb : b < 4096 := List.mem_range.mp hb
  have := someIdentity_inj (by omega) (by omega) heq
  omega

/-- After the flood the fifth identity is forgotten, and everything else is as before. -/
theorem flooded : ∃ d : Dict IdentityQuotaKey (List Seconds),
    busyServed.calls AgentRateLimiter.allow (floodKeys.map (·, 6)) =
      ⟨⟨busyServed.limiter.overall, d⟩, busyServed.log⟩ ∧ d.get? (someIdentity 4) = none := by
  have hsize : busyServed.limiter.tracked.size = 5 := by
    simpa [Dict.size] using congrArg List.length busy_tracked
  obtain ⟨d, hd, hsuffix, hdsize⟩ := flood busyServed floodKeys 6
    (by rw [hsize]; decide) (by rw [busy_overall]; decide +kernel) (by rw [busy_overall]; decide +kernel) nodup_floodKeys
    fun k hk => Dict.get?_eq_none.mpr fun e he hek => by
      have hmem : e.1 ∈ (List.range 5).map someIdentity := busy_tracked ▸ List.mem_map.mpr ⟨e, he, rfl⟩
      obtain ⟨n, hn, hne⟩ := List.mem_map.mp hmem
      exact mem_floodKeys (List.mem_range.mp hn) (by rw [hne, hek]; exact hk)
  have hlen : floodKeys.length = maxTrackedIdentities := by simp [floodKeys]
  have hkeys : d.entries.map Prod.fst = floodKeys := by
    refine (List.suffix_of_suffix_length_le hsuffix (List.suffix_append _ _) ?_).eq_of_length ?_ <;>
      · simp only [Dict.size, hlen] at hdsize
        simp only [List.length_map, hlen]
        omega
  refine ⟨d, hd, Dict.get?_eq_none.mpr fun e he hek => mem_floodKeys (n := 4) (by omega) ?_⟩
  rw [← hkeys, ← hek]
  exact List.mem_map.mpr ⟨e, he, rfl⟩

/-- An identity gets 33 requests accepted within ten seconds: 32 at time 5, and, once 4,096
identities that were all turned away have pushed it out of the table, another at time 10. -/
theorem agent_ceiling_fails :
    let requests := busyRequests ++ floodKeys.map (·, 6) ++ [(someIdentity 4, 10)]
    requests.Pairwise (·.2 ≤ ·.2) ∧
      (inWindow 10 10 (ofKey (someIdentity 4)
        (Served.calls AgentRateLimiter.allow ⟨.new, []⟩ requests).log)).length = 33 := by
  intro requests
  constructor
  · have hbusy : busyRequests.Pairwise (·.2 ≤ ·.2) := by decide +kernel
    have hlate : ∀ r ∈ busyRequests, r.2 ≤ 5 := by decide +kernel
    refine List.pairwise_append.mpr ⟨List.pairwise_append.mpr ⟨hbusy, ?_, ?_⟩, List.pairwise_singleton _ _, ?_⟩
    · exact List.pairwise_map.mpr (List.pairwise_of_forall fun _ _ => le_rfl)
    · intro a ha b hb
      obtain ⟨k, -, rfl⟩ := List.mem_map.mp hb
      exact (hlate a ha).trans (show (5 : Seconds) ≤ 6 by decide +kernel)
    · intro a ha b hb
      rw [List.mem_singleton.mp hb]
      obtain ha | ha := List.mem_append.mp ha
      · exact (hlate a ha).trans (show (5 : Seconds) ≤ 10 by decide +kernel)
      · obtain ⟨k, -, rfl⟩ := List.mem_map.mp ha
        exact (show (6 : Seconds) ≤ 10 by decide +kernel)
  · obtain ⟨d, hd, hnone⟩ := flooded
    have hrun : (Served.calls AgentRateLimiter.allow ⟨.new, []⟩ requests).log =
        busyServed.log ++ [(someIdentity 4, 10)] := by
      have hrecent : discardBefore busyServed.limiter.overall (10 - rateLimitWindowSeconds) = List.replicate 32 5 := by
        rw [busy_overall]
        decide +kernel
      have hbusy : Served.calls AgentRateLimiter.allow ⟨.new, []⟩ busyRequests = busyServed := rfl
      rw [Served.calls_append, Served.calls_append, hbusy, hd, Served.calls, List.foldl_cons, List.foldl_nil]
      unfold Served.call AgentRateLimiter.allow
      dsimp only
      rw [Dict.touch_of_none hnone, hrecent]
      rfl
    rw [hrun, ofKey_snoc, inWindow_append, List.length_append, busy_log]
    decide +kernel

end AgentListener

end NorthgateRmm.Server
