import NorthgateRmm.Agent.Spool.Usage

/-!
# Sound spool images

An image is what the four directories map their names to: what they show, or
what a crash can leave. `Sound` describes the images from which `Open` recovers:
every name is a record or one of the fixed names, a record linked in two
neighbouring directories is one file in both (an interrupted move), different
files have different orders, and the quotas hold for the records that are not
being moved away. `Sound` depends on the image only through its lookups, so it
can be shown for every image a crash can leave.

Under `strict` no ID is used in the active and the rollover directory at once.
-/

namespace NorthgateRmm.Agent.Spool

open CrashFs

variable {P : Type} [Payload P]

abbrev Image := Place → Name → Option Nat

/-! ## Images -/

/-- What recovery relies on, whatever the quotas. -/
structure Consistent (strict : Prop) (files : Nat → Content P) (T : Image) : Prop where
  entry : ∀ d n i, d ≠ .parent → T d n = some i →
    (∃ r, IsEntry files (n, i) r) ∨ (d = .root ∧ n.isData = false)
  lock : ∀ i, T .root .lock = some i → files i = .blank
  evicting : ∀ id i j, T .rejected (.record id) = some i → T .rollover (.record id) = some j → i = j
  moving : ∀ id i j, T .root (.record id) = some i → T .rejected (.record id) = some j → i = j
  apart : ∀ id i j, T .root (.record id) = some i → T .rollover (.record id) = some j → ¬ strict ∧ i ≠ j
  orders : ∀ d d' id id' i i' r r', d ≠ .parent → d' ≠ .parent → T d (.record id) = some i →
    T d' (.record id') = some i' → files i = .record r → files i' = .record r' → r.order = r'.order → i = i'

/-- The records that stay where they are fit the quotas of their directories. -/
structure Fits (maxBytes : Nat) (files : Nat → Content P) (T : Image) : Prop where
  active : ∃ A : List (Name × Nat), A.length ≤ maxEntries ∧ totalSize files A ≤ maxBytes ∧
    ∀ id i, T .root (.record id) = some i → T .rejected (.record id) = none → (.record id, i) ∈ A
  rejected : ∃ R : List (Name × Nat), R.length ≤ maxRejectedEntries ∧ totalSize files R ≤ maxBytes ∧
    ∀ id i, T .rejected (.record id) = some i → T .rollover (.record id) = none → (.record id, i) ∈ R
  rollover : ∃ V : List (Name × Nat), V.length ≤ maxRejectedEntries ∧
    ∀ id i, T .rollover (.record id) = some i → (.record id, i) ∈ V

/-- The directories exist. -/
def Ready (T : Image) : Prop := T .parent .spool ≠ none ∧ T .root .rejected ≠ none ∧ T .root .rollover ≠ none

def NoRecords (T : Image) : Prop := ∀ d id, d ≠ .parent → T d (.record id) = none

/-- Each of the records is still there. -/
def Covers (files : Nat → Content P) (kept : List (Record P)) (T : Image) : Prop :=
  ∀ r ∈ kept, ∃ d i, d ≠ .parent ∧ T d (.record r.id) = some i ∧ files i = .record r

variable (strict : Prop) (maxBytes : Nat) (files : Nat → Content P) (next : Nat) (kept : List (Record P)) in
/-- An image from which `Open` recovers. -/
structure Sound (T : Image) : Prop where
  consistent : Consistent strict files T
  fits : Fits maxBytes files T
  laid : Ready T ∨ NoRecords T
  covers : Covers files kept T
  bounded : ∀ d n i, T d n = some i → i < next

/-- No record is being moved. -/
structure Separate (T : Image) : Prop where
  root : ∀ id, T .root (.record id) = none ∨ T .rejected (.record id) = none
  rejected : ∀ id, T .rejected (.record id) = none ∨ T .rollover (.record id) = none

section Images

variable {strict : Prop} {maxBytes : Nat} {files files' : Nat → Content P} {next : Nat}
variable {kept kept' : List (Record P)} {S T : Image}

theorem Covers.mono (h : Covers files kept T) (hk : kept' ⊆ kept) : Covers files kept' T :=
  fun r hr => h r (hk hr)

theorem Sound.mono (h : Sound strict maxBytes files next kept T) (hk : kept' ⊆ kept) :
    Sound strict maxBytes files next kept' T :=
  { h with covers := h.covers.mono hk }

variable {i : Nat} {d : Place} {id : Uuid}

/-- A record entry of a sound image is the file of a record with its ID. -/
theorem Consistent.record (h : Consistent strict files T)
    (hd : d ≠ .parent) (hi : T d (.record id) = some i) :
    ∃ r, files i = .record r ∧ r.id = id ∧ id.matchesPattern = true := by
  rcases h.entry d _ i hd hi with ⟨r, hr⟩ | ⟨-, hn⟩
  · have hid : id = r.id := Name.record.inj hr.name
    exact ⟨r, hr.content, hid.symm, hid ▸ hr.canonical⟩
  · exact nomatch hn

/-! ## Images made of the records of another -/

/-- Every record of `T` is one of `S`, possibly linked in another directory. -/
structure Drawn (S T : Image) : Prop where
  source : ∀ d id i, d ≠ .parent → T d (.record id) = some i → ∃ d', d' ≠ .parent ∧ S d' (.record id) = some i
  others : ∀ d n, d = .parent ∨ (∀ id, n ≠ .record id) → T d n = S d n

theorem Consistent.drawn (h : Consistent strict files S) (hd : Drawn S T)
    (evicting : ∀ id i j, T .rejected (.record id) = some i → T .rollover (.record id) = some j → i = j)
    (moving : ∀ id i j, T .root (.record id) = some i → T .rejected (.record id) = some j → i = j)
    (apart : ∀ id i j, T .root (.record id) = some i → T .rollover (.record id) = some j →
      ¬ strict ∧ i ≠ j) : Consistent strict files T where
  entry d n i hp hi := by
    by_cases hn : ∃ id, n = .record id
    · obtain ⟨id, rfl⟩ := hn
      obtain ⟨d', hp', hi'⟩ := hd.source d id i hp hi
      obtain ⟨r, hf, hid, hc⟩ := h.record hp' hi'
      exact Or.inl ⟨r, by rw [hid], by rw [hid]; exact hc, hf⟩
    · rw [hd.others d n (Or.inr (not_exists.mp hn))] at hi
      exact h.entry d n i hp hi
  lock i hi := by
    rw [hd.others .root .lock (Or.inr nofun)] at hi
    exact h.lock i hi
  evicting := evicting
  moving := moving
  apart := apart
  orders d d' id id' i i' r r' hp hp' hi hi' hf hf' ho := by
    obtain ⟨e, he, hi⟩ := hd.source d id i hp hi
    obtain ⟨e', he', hi'⟩ := hd.source d' id' i' hp' hi'
    exact h.orders e e' id id' i i' r r' he he' hi hi' hf hf' ho

/-- A sound image stays sound when its records are linked elsewhere, as far as
the moves, the quotas and the records to be kept allow it. -/
theorem Sound.drawn (h : Sound strict maxBytes files next kept S) (hd : Drawn S T)
    (hc : Consistent strict files T) (hf : Fits maxBytes files T) (hk : Covers files kept' T) :
    Sound strict maxBytes files next kept' T where
  consistent := hc
  fits := hf
  covers := hk
  laid := by
    refine h.laid.imp (fun hready => ?_) (fun hnone d id hp => ?_)
    · rwa [Ready, hd.others .parent .spool (Or.inl rfl), hd.others .root .rejected (Or.inr nofun),
        hd.others .root .rollover (Or.inr nofun)]
    · cases hi : T d (.record id) with
      | none => rfl
      | some i =>
        obtain ⟨d', hp', hi'⟩ := hd.source d id i hp hi
        rw [hnone d' id hp'] at hi'
        exact nomatch hi'
  bounded d n i hi := by
    by_cases hn : d = .parent ∨ ∀ id, n ≠ .record id
    · rw [hd.others d n hn] at hi
      exact h.bounded d n i hi
    · rw [not_or, not_forall] at hn
      obtain ⟨hp, id, hn⟩ := hn
      rw [not_not] at hn
      subst hn
      obtain ⟨d', -, hi'⟩ := hd.source d id i hp hi
      exact h.bounded d' _ i hi'

theorem Covers.drawn (h : Covers files kept S)
    (target : ∀ d id i, d ≠ .parent → S d (.record id) = some i → ∃ d', d' ≠ .parent ∧ T d' (.record id) = some i) :
    Covers files kept T := by
  intro r hr
  obtain ⟨d, i, hd, hi, hf⟩ := h r hr
  obtain ⟨d', hd', hi'⟩ := target d r.id i hd hi
  exact ⟨d', i, hd', hi', hf⟩

/-! ## Removing links -/

/-- `T` is `S` without some of its records. -/
def Less (S T : Image) : Prop :=
  ∀ d n, T d n = S d n ∨ (d ≠ .parent ∧ (∃ id, n = .record id) ∧ T d n = none)

theorem Less.eq_of_some (h : Less S T) {n : Name} (hi : T d n = some i) : S d n = some i := by
  rcases h d n with heq | ⟨-, -, hnone⟩
  · rw [← heq, hi]
  · rw [hnone] at hi
    exact nomatch hi

theorem Less.drawn (h : Less S T) : Drawn S T where
  source d id i hp hi := ⟨d, hp, h.eq_of_some hi⟩
  others d n hn := by
    rcases h d n with heq | ⟨hp, ⟨id, rfl⟩, -⟩
    · exact heq
    · rcases hn with rfl | hn
      · exact absurd rfl hp
      · exact absurd rfl (hn id)

theorem Separate.less (h : Separate S) (hl : Less S T) : Separate T := by
  have hnone : ∀ d id, S d (.record id) = none → T d (.record id) = none := by
    intro d id hS
    rcases hl d (.record id) with heq | ⟨-, -, hT⟩
    · rw [heq, hS]
    · exact hT
  exact ⟨fun id => (h.root id).imp (hnone _ id) (hnone _ id),
    fun id => (h.rejected id).imp (hnone _ id) (hnone _ id)⟩

theorem Consistent.less (h : Consistent strict files S) (hl : Less S T) : Consistent strict files T :=
  h.drawn hl.drawn
    (fun id i j hi hj => h.evicting id i j (hl.eq_of_some hi) (hl.eq_of_some hj))
    (fun id i j hi hj => h.moving id i j (hl.eq_of_some hi) (hl.eq_of_some hj))
    (fun id i j hi hj => h.apart id i j (hl.eq_of_some hi) (hl.eq_of_some hj))

/-- The quotas still hold when no record is left behind by the copy that was
being moved. -/
theorem Fits.less (h : Fits maxBytes files S) (hl : Less S T)
    (hroot : ∀ id, T .rejected (.record id) = none → S .rejected (.record id) = none ∨ T .root (.record id) = none)
    (hrej : ∀ id, T .rollover (.record id) = none → S .rollover (.record id) = none ∨
      T .rejected (.record id) = none) : Fits maxBytes files T where
  active := by
    obtain ⟨A, hlen, hsize, hA⟩ := h.active
    refine ⟨A, hlen, hsize, fun id i hi hnone => ?_⟩
    rcases hroot id hnone with hS | hT
    · exact hA id i (hl.eq_of_some hi) hS
    · rw [hT] at hi
      exact nomatch hi
  rejected := by
    obtain ⟨R, hlen, hsize, hR⟩ := h.rejected
    refine ⟨R, hlen, hsize, fun id i hi hnone => ?_⟩
    rcases hrej id hnone with hS | hT
    · exact hR id i (hl.eq_of_some hi) hS
    · rw [hT] at hi
      exact nomatch hi
  rollover := by
    obtain ⟨V, hlen, hV⟩ := h.rollover
    exact ⟨V, hlen, fun id i hi => hV id i (hl.eq_of_some hi)⟩

/-- Removing rejected records that are linked in rollover. -/
theorem Sound.unlinkRejected (h : Sound strict maxBytes files next kept S)
    (hsame : ∀ d, d ≠ .rejected → T d = S d)
    (hrej : ∀ n, T .rejected n = S .rejected n ∨
      ∃ id, n = .record id ∧ S .rollover n ≠ none ∧ T .rejected n = none) :
    Sound strict maxBytes files next kept T := by
  have hl : Less S T := by
    intro d n
    by_cases hd : d = .rejected
    · subst hd
      exact (hrej n).imp_right fun ⟨id, hn, _, hT⟩ => ⟨nofun, ⟨id, hn⟩, hT⟩
    · exact Or.inl (by rw [hsame d hd])
  refine h.drawn hl.drawn (h.consistent.less hl) (h.fits.less hl (fun id hT => ?_) (fun id hT => ?_))
    (h.covers.drawn fun d id i hp hi => ?_)
  · rw [hsame .root nofun]
    cases hr : S .root (.record id) with
    | none => exact Or.inr rfl
    | some i =>
      refine Or.inl ?_
      rcases hrej (.record id) with heq | ⟨_, _, hv, _⟩
      · rw [← heq, hT]
      · obtain ⟨k, hk⟩ := Option.ne_none_iff_exists'.mp hv
        cases hj : S .rejected (.record id) with
        | none => rfl
        | some j =>
          have hij := h.consistent.moving id i j hr hj
          have hjk := h.consistent.evicting id j k hj hk
          exact absurd (hij.trans hjk) (h.consistent.apart id i k hr hk).2
  · rw [hsame .rollover nofun] at hT
    exact Or.inl hT
  · by_cases hd : d = .rejected
    · subst hd
      rcases hrej (.record id) with heq | ⟨_, _, hv, _⟩
      · exact ⟨.rejected, nofun, by rw [heq, hi]⟩
      · obtain ⟨k, hk⟩ := Option.ne_none_iff_exists'.mp hv
        refine ⟨.rollover, nofun, ?_⟩
        rw [hsame .rollover nofun, hk, h.consistent.evicting id i k hi hk]
    · exact ⟨d, hp, by rw [hsame d hd, hi]⟩

/-- Removing active records that are linked in rejected. -/
theorem Sound.unlinkRoot (h : Sound strict maxBytes files next kept S)
    (hsame : ∀ d, d ≠ .root → T d = S d)
    (hroot : ∀ n, T .root n = S .root n ∨
      ∃ id, n = .record id ∧ S .rejected n ≠ none ∧ T .root n = none) :
    Sound strict maxBytes files next kept T := by
  have hl : Less S T := by
    intro d n
    by_cases hd : d = .root
    · subst hd
      exact (hroot n).imp_right fun ⟨id, hn, _, hT⟩ => ⟨nofun, ⟨id, hn⟩, hT⟩
    · exact Or.inl (by rw [hsame d hd])
  refine h.drawn hl.drawn (h.consistent.less hl) (h.fits.less hl (fun id hT => ?_) (fun id hT => ?_))
    (h.covers.drawn fun d id i hp hi => ?_)
  · rw [hsame .rejected nofun] at hT
    exact Or.inl hT
  · rw [hsame .rollover nofun] at hT
    exact Or.inl hT
  · by_cases hd : d = .root
    · subst hd
      rcases hroot (.record id) with heq | ⟨_, _, hv, _⟩
      · exact ⟨.root, nofun, by rw [heq, hi]⟩
      · obtain ⟨k, hk⟩ := Option.ne_none_iff_exists'.mp hv
        refine ⟨.rejected, nofun, ?_⟩
        rw [hsame .rejected nofun, hk, h.consistent.moving id i k hi hk]
    · exact ⟨d, hp, by rw [hsame d hd, hi]⟩

/-- Removing an acknowledged record. -/
theorem Sound.acknowledged (h : Sound strict maxBytes files next kept S) (hs : Separate S)
    (hd : d = .root ∨ d = .rollover) (hsame : ∀ d', d' ≠ d → T d' = S d')
    (hdir : ∀ n, T d n = S d n ∨ (n = .record id ∧ T d n = none))
    (hkept : ∀ r ∈ kept', r.id ≠ id) (hsub : kept' ⊆ kept) :
    Sound strict maxBytes files next kept' T := by
  have hl : Less S T := by
    intro d' n
    by_cases hd' : d' = d
    · subst hd'
      exact (hdir n).imp_right fun ⟨hn, hT⟩ => ⟨by rcases hd with rfl | rfl <;> nofun, ⟨id, hn⟩, hT⟩
    · exact Or.inl (by rw [hsame d' hd'])
  have hrej : T .rejected = S .rejected := hsame .rejected (by rcases hd with rfl | rfl <;> nofun)
  refine h.drawn hl.drawn (h.consistent.less hl) (h.fits.less hl (fun id' hT => ?_) (fun id' hT => ?_)) ?_
  · rw [hrej] at hT
    exact Or.inl hT
  · rw [hrej]
    exact (hs.rejected id').symm
  · intro r hr
    obtain ⟨d', i, hp', hi, hf⟩ := h.covers r (hsub hr)
    refine ⟨d', i, hp', ?_, hf⟩
    by_cases hd' : d' = d
    · subst hd'
      rcases hdir (.record r.id) with heq | ⟨hn, -⟩
      · rw [heq, hi]
      · exact absurd (Name.record.inj hn) (hkept r hr)
    · rw [hsame d' hd', hi]

/-! ## Adding links -/

/-- Linking rejected records in rollover. -/
theorem Sound.linkRollover (h : Sound strict maxBytes files next kept S) (hs : Separate S)
    (hsame : ∀ d, d ≠ .rollover → T d = S d)
    (hroll : ∀ n, T .rollover n = S .rollover n ∨
      ∃ id, n = .record id ∧ S .rejected n ≠ none ∧ T .rollover n = S .rejected n)
    (hV : ∃ V : List (Name × Nat), V.length ≤ maxRejectedEntries ∧
      ∀ id i, T .rollover (.record id) = some i → (.record id, i) ∈ V) :
    Sound strict maxBytes files next kept T := by
  have hroot : T .root = S .root := hsame .root nofun
  have hrej : T .rejected = S .rejected := hsame .rejected nofun
  have hd : Drawn S T := by
    refine ⟨fun d id i hp hi => ?_, fun d n hn => ?_⟩
    · by_cases hd : d = .rollover
      · subst hd
        rcases hroll (.record id) with heq | ⟨_, _, _, heq⟩
        · exact ⟨.rollover, nofun, by rw [← heq, hi]⟩
        · exact ⟨.rejected, nofun, by rw [← heq, hi]⟩
      · exact ⟨d, hp, by rw [← hsame d hd, hi]⟩
    · by_cases hd : d = .rollover
      · subst hd
        rcases hroll n with heq | ⟨id, rfl, -⟩
        · exact heq
        · rcases hn with hn | hn
          · exact nomatch hn
          · exact absurd rfl (hn id)
      · rw [hsame d hd]
  have hc : Consistent strict files T := by
    refine h.consistent.drawn hd (fun id i j hi hj => ?_) (fun id i j hi hj => ?_) (fun id i j hi hj => ?_)
    · rw [hrej] at hi
      rcases hroll (.record id) with heq | ⟨_, _, _, heq⟩
      · exact h.consistent.evicting id i j hi (by rw [← heq, hj])
      · rw [heq, hi] at hj
        exact Option.some.inj hj
    · rw [hroot] at hi
      rw [hrej] at hj
      exact h.consistent.moving id i j hi hj
    · rw [hroot] at hi
      rcases hroll (.record id) with heq | ⟨_, _, hne, _⟩
      · exact h.consistent.apart id i j hi (by rw [← heq, hj])
      · rcases hs.root id with hnone | hnone
        · rw [hnone] at hi
          exact nomatch hi
        · exact absurd hnone hne
  refine h.drawn hd hc ⟨?_, ?_, hV⟩ (h.covers.drawn fun d id i hp hi => ?_)
  · rw [hroot, hrej]
    exact h.fits.active
  · obtain ⟨R, hlen, hsize, hR⟩ := h.fits.rejected
    refine ⟨R, hlen, hsize, fun id i hi _ => ?_⟩
    rw [hrej] at hi
    rcases hs.rejected id with hnone | hnone
    · rw [hnone] at hi
      exact nomatch hi
    · exact hR id i hi hnone
  · by_cases hdr : d = .rollover
    · subst hdr
      rcases hroll (.record id) with heq | ⟨_, _, hne, _⟩
      · exact ⟨.rollover, nofun, by rw [heq, hi]⟩
      · rcases hs.rejected id with hnone | hnone
        · exact absurd hnone hne
        · rw [hnone] at hi
          exact nomatch hi
    · exact ⟨d, hp, by rw [hsame d hdr, hi]⟩

/-- Linking an active record in rejected. -/
theorem Sound.linkRejected (h : Sound strict maxBytes files next kept S)
    (hi : S .root (.record id) = some i) (hnrej : S .rejected (.record id) = none)
    (hnroll : S .rollover (.record id) = none) (hsame : ∀ d, d ≠ .rejected → T d = S d)
    (hdir : ∀ n, T .rejected n = S .rejected n ∨ (n = .record id ∧ T .rejected n = some i))
    (hR : ∃ R : List (Name × Nat), R.length ≤ maxRejectedEntries ∧ totalSize files R ≤ maxBytes ∧
      ∀ id j, T .rejected (.record id) = some j → (.record id, j) ∈ R) :
    Sound strict maxBytes files next kept T := by
  have hroot : T .root = S .root := hsame .root nofun
  have hroll : T .rollover = S .rollover := hsame .rollover nofun
  have hd : Drawn S T := by
    refine ⟨fun d id' j hp hj => ?_, fun d n hn => ?_⟩
    · by_cases hd : d = .rejected
      · subst hd
        rcases hdir (.record id') with heq | ⟨hn, heq⟩
        · exact ⟨.rejected, nofun, by rw [← heq, hj]⟩
        · cases hn
          rw [heq] at hj
          exact ⟨.root, nofun, by rw [hi, hj]⟩
      · exact ⟨d, hp, by rw [← hsame d hd, hj]⟩
    · by_cases hd : d = .rejected
      · subst hd
        rcases hdir n with heq | ⟨rfl, -⟩
        · exact heq
        · rcases hn with hn | hn
          · exact nomatch hn
          · exact absurd rfl (hn id)
      · rw [hsame d hd]
  have hc : Consistent strict files T := by
    refine h.consistent.drawn hd (fun id' j k hj hk => ?_) (fun id' j k hj hk => ?_) (fun id' j k hj hk => ?_)
    · rw [hroll] at hk
      rcases hdir (.record id') with heq | ⟨hn, -⟩
      · exact h.consistent.evicting id' j k (by rw [← heq, hj]) hk
      · cases hn
        rw [hnroll] at hk
        exact nomatch hk
    · rw [hroot] at hj
      rcases hdir (.record id') with heq | ⟨hn, heq⟩
      · exact h.consistent.moving id' j k hj (by rw [← heq, hk])
      · cases hn
        rw [heq] at hk
        rw [hi] at hj
        exact Option.some.inj (hj.symm.trans hk)
    · rw [hroot] at hj
      rw [hroll] at hk
      exact h.consistent.apart id' j k hj hk
  refine h.drawn hd hc ⟨?_, ?_, ?_⟩ (h.covers.drawn fun d id' j hp hj => ?_)
  · obtain ⟨A, hlen, hsize, hA⟩ := h.fits.active
    refine ⟨A, hlen, hsize, fun id' j hj hnone => ?_⟩
    rw [hroot] at hj
    rcases hdir (.record id') with heq | ⟨-, heq⟩
    · exact hA id' j hj (by rw [← heq, hnone])
    · rw [hnone] at heq
      exact nomatch heq
  · obtain ⟨R, hlen, hsize, hR⟩ := hR
    exact ⟨R, hlen, hsize, fun id' j hj _ => hR id' j hj⟩
  · rw [hroll]
    exact h.fits.rollover
  · by_cases hdr : d = .rejected
    · subst hdr
      rcases hdir (.record id') with heq | ⟨hn, -⟩
      · exact ⟨.rejected, nofun, by rw [heq, hj]⟩
      · cases hn
        rw [hnrej] at hj
        exact nomatch hj
    · exact ⟨d, hp, by rw [hsame d hdr, hj]⟩

/-! ## New files -/

theorem totalSize_congr {es : List (Name × Nat)} (h : ∀ e ∈ es, files' e.2 = files e.2) :
    totalSize files' es = totalSize files es := by
  rw [totalSize, totalSize, List.map_congr_left fun e he => by rw [h e he]]

theorem totalSize_filter_le (files : Nat → Content P) (es : List (Name × Nat)) (f : Name × Nat → Bool) :
    totalSize files (es.filter f) ≤ totalSize files es :=
  (List.filter_sublist.map _).sum_le_sum fun _ _ => Nat.zero_le _

/-- A bound on the number and the size of the entries survives the creation of
files, when they are existing files. -/
theorem within_congr {next maxCount limit : Nat} (hf : ∀ i < next, files' i = files i) {p : Uuid → Nat → Prop}
    (hp : ∀ id i, p id i → i < next)
    (h : ∃ A : List (Name × Nat), A.length ≤ maxCount ∧ totalSize files A ≤ limit ∧
      ∀ id i, p id i → (.record id, i) ∈ A) :
    ∃ A : List (Name × Nat), A.length ≤ maxCount ∧ totalSize files' A ≤ limit ∧
      ∀ id i, p id i → (.record id, i) ∈ A := by
  obtain ⟨A, hlen, hsize, hA⟩ := h
  refine ⟨A.filter fun e => e.2 < next, ?_, ?_, fun id i hi => ?_⟩
  · exact Nat.le_trans (List.length_filter_le _ _) hlen
  · rw [totalSize_congr fun e he => hf e.2 (by simpa using (List.mem_filter.mp he).2)]
    exact Nat.le_trans (totalSize_filter_le _ _ _) hsize
  · exact List.mem_filter.mpr ⟨hA id i hi, by simpa using hp id i hi⟩

theorem IsEntry.congr {e : Name × Nat} {r : Record P} (h : IsEntry files e r) (hf : files' e.2 = files e.2) :
    IsEntry files' e r :=
  ⟨h.name, h.canonical, by rw [hf, h.content]⟩

theorem Sound.congr_files (h : Sound strict maxBytes files next kept T)
    (hf : ∀ i < next, files' i = files i) {next' : Nat} (hn : next ≤ next') :
    Sound strict maxBytes files' next' kept T where
  consistent := {
    entry d n i hp hi := (h.consistent.entry d n i hp hi).imp_left fun ⟨r, hr⟩ =>
      ⟨r, hr.congr (hf i (h.bounded d n i hi))⟩
    lock i hi := by rw [hf i (h.bounded _ _ i hi)]; exact h.consistent.lock i hi
    evicting := h.consistent.evicting
    moving := h.consistent.moving
    apart := h.consistent.apart
    orders d d' id id' i i' r r' hp hp' hi hi' hr hr' ho := by
      rw [hf i (h.bounded _ _ i hi)] at hr
      rw [hf i' (h.bounded _ _ i' hi')] at hr'
      exact h.consistent.orders d d' id id' i i' r r' hp hp' hi hi' hr hr' ho }
  fits := {
    active := by
      obtain ⟨A, hlen, hsize, hA⟩ := within_congr hf
        (p := fun id i => T .root (.record id) = some i ∧ T .rejected (.record id) = none)
        (fun id i hi => h.bounded _ _ i hi.1)
        (by obtain ⟨A, h1, h2, h3⟩ := h.fits.active; exact ⟨A, h1, h2, fun id i hi => h3 id i hi.1 hi.2⟩)
      exact ⟨A, hlen, hsize, fun id i h1 h2 => hA id i ⟨h1, h2⟩⟩
    rejected := by
      obtain ⟨A, hlen, hsize, hA⟩ := within_congr hf
        (p := fun id i => T .rejected (.record id) = some i ∧ T .rollover (.record id) = none)
        (fun id i hi => h.bounded _ _ i hi.1)
        (by obtain ⟨A, h1, h2, h3⟩ := h.fits.rejected; exact ⟨A, h1, h2, fun id i hi => h3 id i hi.1 hi.2⟩)
      exact ⟨A, hlen, hsize, fun id i h1 h2 => hA id i ⟨h1, h2⟩⟩
    rollover := h.fits.rollover }
  laid := h.laid
  covers r hr := by
    obtain ⟨d, i, hd, hi, hfile⟩ := h.covers r hr
    exact ⟨d, i, hd, hi, by rw [hf i (h.bounded _ _ i hi), hfile]⟩
  bounded d n i hi := Nat.lt_of_lt_of_le (h.bounded d n i hi) hn

/-- Adding the file of a new record to the active directory. -/
theorem Sound.insert (h : Sound strict maxBytes files next kept S) (hready : Ready S) {r : Record P}
    (hfile : files i = .record r) (hi : i < next) (hfresh : ∀ d n, S d n ≠ some i)
    (hc : r.id.matchesPattern = true) (hrej : S .rejected (.record r.id) = none)
    (hroll : strict → S .rollover (.record r.id) = none)
    (horder : ∀ d id j r', d ≠ .parent → S d (.record id) = some j → files j = .record r' → r'.order < r.order)
    (hA : ∃ A : List (Name × Nat), A.length < maxEntries ∧ totalSize files A + r.size ≤ maxBytes ∧
      ∀ id j, S .root (.record id) = some j → (.record id, j) ∈ A)
    (hnroot : S .root (.record r.id) = none)
    (hT : T = Function.update S .root (Function.update (S .root) (.record r.id) (some i))) :
    Sound strict maxBytes files next (r :: kept) T := by
  have hother : ∀ d, d ≠ .root → T d = S d := fun d hd => by rw [hT, Function.update_of_ne hd]
  have hself : T .root (.record r.id) = some i := by rw [hT, Function.update_self, Function.update_self]
  have hname : ∀ n, n ≠ .record r.id → T .root n = S .root n := fun n hn => by
    rw [hT, Function.update_self, Function.update_of_ne hn]
  -- an entry of the new image is the new one or an entry of the old image
  have hcases : ∀ d n j, T d n = some j → (d = .root ∧ n = .record r.id ∧ j = i) ∨ S d n = some j := by
    intro d n j hj
    by_cases hd : d = .root
    · subst hd
      by_cases hn : n = .record r.id
      · subst hn
        rw [hself] at hj
        exact Or.inl ⟨rfl, rfl, (Option.some.inj hj).symm⟩
      · exact Or.inr (by rw [← hname n hn, hj])
    · exact Or.inr (by rw [← hother d hd, hj])
  have hrejT : T .rejected = S .rejected := hother .rejected nofun
  have hrollT : T .rollover = S .rollover := hother .rollover nofun
  refine ⟨⟨?_, ?_, ?_, ?_, ?_, ?_⟩, ⟨?_, ?_, ?_⟩, ?_, ?_, ?_⟩
  · intro d n j hp hj
    rcases hcases d n j hj with ⟨-, rfl, rfl⟩ | hj
    · exact Or.inl ⟨r, rfl, hc, hfile⟩
    · exact h.consistent.entry d n j hp hj
  · intro j hj
    rw [hname .lock nofun] at hj
    exact h.consistent.lock j hj
  · rw [hrejT, hrollT]
    exact h.consistent.evicting
  · intro id j k hj hk
    rw [hrejT] at hk
    rcases hcases _ _ j hj with ⟨-, hn, -⟩ | hj
    · cases hn
      rw [hrej] at hk
      exact nomatch hk
    · exact h.consistent.moving id j k hj hk
  · intro id j k hj hk
    rw [hrollT] at hk
    rcases hcases _ _ j hj with ⟨-, hn, rfl⟩ | hj
    · cases hn
      refine ⟨fun hst => ?_, fun hjk => hfresh _ _ (hjk ▸ hk)⟩
      rw [hroll hst] at hk
      exact nomatch hk
    · exact h.consistent.apart id j k hj hk
  · intro d d' id id' j j' r₁ r₂ hp hp' hj hj' h1 h2 ho
    rcases hcases d _ j hj with ⟨-, -, rfl⟩ | hj <;> rcases hcases d' _ j' hj' with ⟨-, -, rfl⟩ | hj'
    · rfl
    · have := horder d' id' j' r₂ hp' hj' h2
      rw [hfile] at h1
      cases h1
      omega
    · have := horder d id j r₁ hp hj h1
      rw [hfile] at h2
      cases h2
      omega
    · exact h.consistent.orders d d' id id' j j' r₁ r₂ hp hp' hj hj' h1 h2 ho
  · obtain ⟨A, hlen, hsize, hA⟩ := hA
    refine ⟨(.record r.id, i) :: A, hlen, ?_, fun id j hj _ => ?_⟩
    · rw [totalSize_cons, show (files i).size = r.size by rw [hfile]; rfl]
      omega
    · rcases hcases _ _ j hj with ⟨-, hn, rfl⟩ | hj
      · rw [hn]
        exact List.mem_cons_self
      · exact List.mem_cons_of_mem _ (hA id j hj)
  · rw [hrejT, hrollT]
    exact h.fits.rejected
  · rw [hrollT]
    exact h.fits.rollover
  · refine Or.inl ?_
    rwa [Ready, hother .parent nofun, hname .rejected nofun, hname .rollover nofun]
  · intro r' hr'
    rcases List.mem_cons.mp hr' with rfl | hr'
    · exact ⟨.root, i, nofun, hself, hfile⟩
    · obtain ⟨d, j, hd, hj, hf⟩ := h.covers r' hr'
      refine ⟨d, j, hd, ?_, hf⟩
      by_cases hdr : d = .root
      · subst hdr
        rw [hname _ (fun hn => ?_), hj]
        rw [hn, hnroot] at hj
        exact nomatch hj
      · rw [hother d hdr, hj]
  · intro d n j hj
    rcases hcases d n j hj with ⟨-, -, rfl⟩ | hj
    · exact hi
    · exact h.bounded d n j hj

/-! ## Scanning -/

/-- Distinct items from a list are at most as many, and as large, as the list. -/
theorem within_of_subset {α : Type} (size : α → Nat) {l l' : List α} (hnd : l.Nodup) (hsub : l ⊆ l') :
    l.length ≤ l'.length ∧ (l.map size).sum ≤ (l'.map size).sum := by
  have hsp := List.subperm_of_subset hnd hsub
  refine ⟨hsp.length_le, ?_⟩
  obtain ⟨k, hperm, hk⟩ := hsp
  rw [← (hperm.map _).sum_eq]
  exact (hk.map _).sum_le_sum fun _ _ => Nat.zero_le _

end Images

section Scan

variable {strict : Prop} {q : Queue} {next : Nat} {kept : List (Record P)} {s : Disk P}

theorem Consistent.isEntry {T : Image} {files : Nat → Content P} (h : Consistent strict files T) {d : Place}
    {n : Name} {i : Nat} (hp : d ≠ .parent) (hi : T d n = some i) (hn : n.isData = true) :
    ∃ r, IsEntry files (n, i) r := by
  rcases h.entry d n i hp hi with hr | ⟨-, hn'⟩
  · exact hr
  · rw [hn] at hn'
    exact nomatch hn'

theorem readable_of_consistent (h : Consistent strict s.files s.image) {d : Place} (hp : d ≠ .parent)
    (hd : d ≠ .root) : Readable s.files (entriesOf s d) := by
  rintro ⟨n, i⟩ he
  rcases h.entry d n i hp (mem_entriesOf.mp he) with hr | ⟨hroot, -⟩
  · exact hr
  · exact absurd hroot hd

theorem readable_dataOf (h : Consistent strict s.files s.image) : Readable s.files (dataOf s) := by
  rintro ⟨n, i⟩ he
  obtain ⟨hi, hn⟩ := mem_dataOf.mp he
  exact h.isEntry (d := .root) nofun hi hn

/-- The fixed names take at most three entries. -/
theorem length_entriesOf_root (s : Disk P) :
    (entriesOf s .root).length ≤ (dataOf s).length + 3 := by
  have hsplit : (entriesOf s .root).length =
      (dataOf s).length + ((entriesOf s .root).filter fun e => !e.1.isData).length := by
    rw [dataOf, ← List.countP_eq_length_filter, ← List.countP_eq_length_filter]
    simpa only [Bool.not_eq_true, Bool.decide_eq_false] using
      List.length_eq_countP_add_countP (fun e : Name × Nat => e.1.isData)
  have hnames : ((entriesOf s .root).filter fun e => !e.1.isData).map (·.1) ⊆ [.lock, .rejected, .rollover] := by
    intro n hn
    obtain ⟨e, he, rfl⟩ := List.mem_map.mp hn
    have := (List.mem_filter.mp he).2
    cases hname : e.1 <;> simp_all [Name.isData]
  have hnd : (((entriesOf s .root).filter fun e => !e.1.isData).map (·.1)).Nodup :=
    (nodup_entriesOf s .root).sublist (List.filter_sublist.map _)
  have hlen := (List.subperm_of_subset hnd hnames).length_le
  rw [List.length_map] at hlen
  simp only [List.length_cons, List.length_nil] at hlen
  omega

theorem nodup_of_names {es : List (Name × Nat)} (h : (es.map (·.1)).Nodup) : es.Nodup := h.of_map _

/-- The orders within one directory are distinct, interrupted moves or not. -/
theorem nodup_orders_metas (h : Consistent strict s.files s.image) {d : Place} (hp : d ≠ .parent) (hd : d ≠ .root) :
    ((metas s d).map (·.order)).Nodup := by
  have hread := readable_of_consistent h hp hd
  rw [metas, List.map_map]
  refine List.Nodup.map_on (fun e he e' he' ho => ?_) (nodup_of_names (nodup_entriesOf s d))
  obtain ⟨r, hr⟩ := hread e he
  obtain ⟨r', hr'⟩ := hread e' he'
  rw [Function.comp_apply, Function.comp_apply, hr.describe_eq, hr'.describe_eq] at ho
  have hi := mem_entriesOf.mp (show (e.1, e.2) ∈ entriesOf s d from he)
  have hi' := mem_entriesOf.mp (show (e'.1, e'.2) ∈ entriesOf s d from he')
  rw [hr.name] at hi
  rw [hr'.name] at hi'
  have hii := h.orders d d _ _ _ _ r r' hp hp hi hi' hr.content hr'.content ho
  have hrr : r = r' := by
    have := hr.content
    rw [hii, hr'.content] at this
    exact (Content.record.inj this).symm
  exact Prod.ext (by rw [hr.name, hr'.name, hrr]) hii

/-- In a sound image without interrupted moves the orders of the live records
are distinct. -/
theorem nodup_liveOrders_of_consistent (h : Consistent strict s.files s.image) (hs : Separate s.image) :
    (liveOrders s).Nodup := by
  have hlist : liveOrders s = (dataOf s ++ (entriesOf s .rejected ++ entriesOf s .rollover)).map
      fun e => (describe s.files e).order := by
    simp only [liveOrders, metas, List.map_append, List.map_map]
    rfl
  -- every entry of the list is a record entry of one of the directories
  have hmem : ∀ e ∈ dataOf s ++ (entriesOf s .rejected ++ entriesOf s .rollover),
      ∃ d r, d ≠ .parent ∧ s.image d e.1 = some e.2 ∧ IsEntry s.files e r := by
    rintro ⟨n, i⟩ he
    simp only [List.mem_append] at he
    rcases he with he | he | he
    · obtain ⟨r, hr⟩ := readable_dataOf h _ he
      exact ⟨.root, r, by decide, (mem_dataOf.mp he).1, hr⟩
    · obtain ⟨r, hr⟩ := readable_of_consistent h (d := .rejected) (by decide) (by decide) _ he
      exact ⟨.rejected, r, by decide, mem_entriesOf.mp he, hr⟩
    · obtain ⟨r, hr⟩ := readable_of_consistent h (d := .rollover) (by decide) (by decide) _ he
      exact ⟨.rollover, r, by decide, mem_entriesOf.mp he, hr⟩
  rw [hlist]
  refine List.Nodup.map_on (fun e he e' he' ho => ?_) ?_
  · obtain ⟨d, r, hd, hi, hr⟩ := hmem e he
    obtain ⟨d', r', hd', hi', hr'⟩ := hmem e' he'
    rw [hr.describe_eq, hr'.describe_eq] at ho
    rw [hr.name] at hi
    rw [hr'.name] at hi'
    have hii := h.orders d d' _ _ _ _ r r' hd hd' hi hi' hr.content hr'.content ho
    have hrr : r = r' := by
      have := hr.content
      rw [hii, hr'.content] at this
      exact (Content.record.inj this).symm
    exact Prod.ext (by rw [hr.name, hr'.name, hrr]) hii
  · have hrejected : ∀ e ∈ entriesOf s .rejected, ∃ r, IsEntry s.files e r :=
      readable_of_consistent h (by decide) (by decide)
    refine List.Nodup.append (nodup_of_names (nodup_dataOf s))
      (List.Nodup.append (nodup_of_names (nodup_entriesOf s _)) (nodup_of_names (nodup_entriesOf s _)) ?_) ?_
    · rintro ⟨n, i⟩ he he'
      obtain ⟨r, hr⟩ := hrejected _ he
      have h1 := mem_entriesOf.mp he
      have h2 := mem_entriesOf.mp he'
      rw [show n = .record r.id from hr.name] at h1 h2
      rcases hs.rejected r.id with h0 | h0
      · rw [h0] at h1; cases h1
      · rw [h0] at h2; cases h2
    · rintro ⟨n, i⟩ he he'
      obtain ⟨r, hr⟩ := readable_dataOf h _ he
      have h1 := (mem_dataOf.mp he).1
      rw [show n = .record r.id from hr.name] at h1
      rcases List.mem_append.mp he' with he' | he'
      · have h2 := mem_entriesOf.mp he'
        rw [show n = .record r.id from hr.name] at h2
        rcases hs.root r.id with h0 | h0
        · rw [h0] at h1; cases h1
        · rw [h0] at h2; cases h2
      · have h2 := mem_entriesOf.mp he'
        rw [show n = .record r.id from hr.name] at h2
        exact (h.apart _ _ _ h1 h2).2 rfl

theorem rolloverCount (h : Sound strict q.maxBytes s.files next kept s.image) :
    (entriesOf s .rollover).length ≤ maxRejectedEntries := by
  obtain ⟨V, hlen, hV⟩ := h.fits.rollover
  refine Nat.le_trans (within_of_subset (fun e => (s.files e.2).size) (nodup_of_names (nodup_entriesOf s _)) ?_).1 hlen
  rintro ⟨n, i⟩ he
  obtain ⟨r, hr⟩ := readable_of_consistent h.consistent (d := .rollover) nofun nofun _ he
  have hn : n = .record r.id := hr.name
  subst hn
  exact hV _ _ (mem_entriesOf.mp he)

theorem rejectedFits (h : Sound strict q.maxBytes s.files next kept s.image)
    (hs : ∀ id, s.image .rejected (.record id) = none ∨ s.image .rollover (.record id) = none) :
    (entriesOf s .rejected).length ≤ maxRejectedEntries ∧
      totalSize s.files (entriesOf s .rejected) ≤ q.maxBytes := by
  obtain ⟨R, hlen, hsize, hR⟩ := h.fits.rejected
  have hsub : entriesOf s .rejected ⊆ R := by
    rintro ⟨n, i⟩ he
    obtain ⟨r, hr⟩ := readable_of_consistent h.consistent (d := .rejected) nofun nofun _ he
    have hn : n = .record r.id := hr.name
    subst hn
    have hi := mem_entriesOf.mp he
    refine hR _ _ hi ((hs r.id).resolve_left ?_)
    rw [hi]
    exact Option.some_ne_none i
  obtain ⟨h1, h2⟩ := within_of_subset (fun e => (s.files e.2).size) (nodup_of_names (nodup_entriesOf s _)) hsub
  exact ⟨Nat.le_trans h1 hlen, Nat.le_trans h2 hsize⟩

theorem activeFits (h : Sound strict q.maxBytes s.files next kept s.image)
    (hs : ∀ id, s.image .root (.record id) = none ∨ s.image .rejected (.record id) = none) :
    (dataOf s).length ≤ maxEntries ∧ totalSize s.files (dataOf s) ≤ q.maxBytes := by
  obtain ⟨A, hlen, hsize, hA⟩ := h.fits.active
  have hsub : dataOf s ⊆ A := by
    rintro ⟨n, i⟩ he
    obtain ⟨r, hr⟩ := readable_dataOf h.consistent _ he
    have hn : n = .record r.id := hr.name
    subst hn
    have hi := (mem_dataOf.mp he).1
    refine hA _ _ hi ((hs r.id).resolve_left ?_)
    rw [hi]
    exact Option.some_ne_none i
  obtain ⟨h1, h2⟩ := within_of_subset (fun e => (s.files e.2).size) (nodup_of_names (nodup_dataOf s)) hsub
  exact ⟨Nat.le_trans h1 hlen, Nat.le_trans h2 hsize⟩

/-- **A sound image without interrupted moves passes every check.** -/
theorem scannable_of_sound (h : Sound strict q.maxBytes s.files next kept s.image) (hs : Separate s.image) :
    Scannable q s := by
  obtain ⟨hac, hab⟩ := activeFits h hs.root
  obtain ⟨hrc, hrb⟩ := rejectedFits h hs.rejected
  exact {
    rootCount := Nat.le_trans (length_entriesOf_root s) (Nat.add_le_add_right hac 3)
    activeCount := hac
    rejectedCount := hrc
    rolloverCount := rolloverCount h
    active := readable_dataOf h.consistent
    rejected := readable_of_consistent h.consistent nofun nofun
    rollover := readable_of_consistent h.consistent nofun nofun
    activeBytes := hab
    rejectedBytes := hrb
    orders := nodup_liveOrders_of_consistent h.consistent hs }

end Scan

end NorthgateRmm.Agent.Spool
