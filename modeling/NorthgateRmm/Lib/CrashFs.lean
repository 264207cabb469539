import NorthgateRmm.Lib.Prog

/-!
# A file system that can lose what was not synced

A directory maps names to inodes. A change to it (a link, an unlink, a rename)
is visible at once and durable after the next successful sync of the directory;
at a crash each change made since then is independently kept or lost. File
content that was written and not synced may come back as anything.

`image` is what the directories show now and `MayBe` says which images a crash
can leave. The lemmas say how one operation changes both: an edit adds the
images with the edit to the ones without it, and a sync leaves only those that
agree with what the directory shows.
-/

namespace CrashFs

variable {D N C β : Type}

/-! ## Directories -/

/-- The entries of a directory: names and inode numbers. -/
abbrev Listing (N : Type) := AList fun _ : N => Nat

/-- An atomic change: the names it sets, and the inode or nothing each is set to. -/
abbrev Change (N : Type) := List (N × Option Nat)

section Dir

variable [DecidableEq N]

def Listing.at (l : Listing N) (n : N) : Option Nat := l.lookup n

/-- A change of the map from names to inodes. -/
def Change.on (c : Change N) (t : N → Option Nat) : N → Option Nat :=
  c.foldl (fun t e => Function.update t e.1 e.2) t

def Change.apply (l : Listing N) (c : Change N) : Listing N :=
  c.foldl (fun l e => match e.2 with
    | some i => l.insert e.1 i
    | none => l.erase e.1) l

theorem Change.at_apply (c : Change N) (l : Listing N) : (c.apply l).at = c.on l.at := by
  induction c generalizing l with
  | nil => rfl
  | cons e c ih =>
    obtain ⟨n, v⟩ := e
    rw [Change.apply, List.foldl_cons, ← Change.apply, ih, Change.on, Change.on, List.foldl_cons]
    congr 1
    funext m
    by_cases hm : m = n
    · subst hm; cases v <;> simp [Listing.at]
    · cases v <;> simp [Listing.at, hm]

@[simp]
theorem Change.on_set (n : N) (v : Option Nat) (t : N → Option Nat) :
    Change.on [(n, v)] t = Function.update t n v := rfl

theorem Change.on_append (c c' : Change N) (t : N → Option Nat) : Change.on (c ++ c') t = c'.on (c.on t) :=
  List.foldl_append

theorem Change.on_of_notMem {c : Change N} {n : N} (h : ∀ v, (n, v) ∉ c) (t : N → Option Nat) :
    c.on t n = t n := by
  induction c generalizing t with
  | nil => rfl
  | cons e c ih =>
    have hne : n ≠ e.1 := fun hn => h e.2 (by rw [hn]; exact List.mem_cons_self)
    rw [Change.on, List.foldl_cons, ← Change.on, ih fun v hv => h v (List.mem_cons_of_mem _ hv),
      Function.update_of_ne hne]

theorem Change.on_map (ns : List N) (f : N → Option Nat) (t : N → Option Nat) (m : N) :
    Change.on (ns.map fun n => (n, f n)) t m = if m ∈ ns then f m else t m := by
  induction ns generalizing t with
  | nil => rfl
  | cons n ns ih =>
    rw [List.map_cons, Change.on, List.foldl_cons, ← Change.on, ih]
    by_cases hm : m ∈ ns
    · rw [if_pos hm, if_pos (List.mem_cons_of_mem _ hm)]
    · rw [if_neg hm]
      by_cases hn : m = n
      · subst hn
        rw [Function.update_self, if_pos List.mem_cons_self]
      · rw [Function.update_of_ne hn, if_neg (by simp [hn, hm])]

/-- What the disk holds for sure, and the changes made since the last sync. -/
structure Dir (N : Type) where
  durable : Listing N
  pending : List (Change N)

namespace Dir

def empty : Dir N := ⟨∅, []⟩

def visible (d : Dir N) : Listing N := d.pending.foldl Change.apply d.durable

def change (d : Dir N) (c : Change N) : Dir N := { d with pending := d.pending ++ [c] }

def sync (d : Dir N) : Dir N := ⟨d.visible, []⟩

/-- A crash keeps the pending changes whose mark is `true`. -/
def crash (d : Dir N) (keep : List Bool) : Dir N :=
  ⟨(((d.pending.zip keep).filter (·.2)).map (·.1)).foldl Change.apply d.durable, []⟩

/-- The entries a crash can leave. -/
def MayBe (d : Dir N) (t : N → Option Nat) : Prop :=
  ∃ kept : List (Change N), kept.Sublist d.pending ∧ t = kept.foldl (fun t c => c.on t) d.durable.at

theorem at_foldl (l : Listing N) (cs : List (Change N)) :
    (cs.foldl Change.apply l).at = cs.foldl (fun t c => c.on t) l.at := by
  induction cs generalizing l with
  | nil => rfl
  | cons c cs ih => rw [List.foldl_cons, List.foldl_cons, ih, Change.at_apply]

theorem mayBe_visible (d : Dir N) : d.MayBe d.visible.at :=
  ⟨d.pending, List.Sublist.refl _, at_foldl _ _⟩

@[simp]
theorem visible_change (d : Dir N) (c : Change N) :
    (d.change c).visible.at = c.on d.visible.at := by
  simp only [visible, change, List.foldl_append, List.foldl_cons, List.foldl_nil, Change.at_apply]

theorem MayBe.of_change {d : Dir N} {c : Change N} {t : N → Option Nat}
    (h : (d.change c).MayBe t) : d.MayBe t ∨ ∃ t₀, d.MayBe t₀ ∧ t = c.on t₀ := by
  obtain ⟨kept, hk, rfl⟩ := h
  obtain ⟨l₁, l₂, rfl, h₁, h₂⟩ := List.sublist_append_iff.mp hk
  rcases List.sublist_singleton.mp h₂ with rfl | rfl
  · rw [List.append_nil]
    exact Or.inl ⟨l₁, h₁, rfl⟩
  · refine Or.inr ⟨_, ⟨l₁, h₁, rfl⟩, ?_⟩
    simp only [change, List.foldl_append, List.foldl_cons, List.foldl_nil]

theorem mayBe_of_nil {d : Dir N} (h : d.pending = []) {t : N → Option Nat} :
    d.MayBe t ↔ t = d.visible.at := by
  constructor
  · rintro ⟨kept, hk, rfl⟩
    rw [h, List.sublist_nil] at hk
    rw [hk, visible, h, List.foldl_nil, List.foldl_nil]
  · rintro rfl
    exact d.mayBe_visible

theorem visible_sync (d : Dir N) : d.sync.visible = d.visible := rfl

theorem mayBe_crash (d : Dir N) (keep : List Bool) : d.MayBe (d.crash keep).visible.at := by
  have hzip : ((d.pending.zip keep).map (·.1)).Sublist d.pending := by
    generalize d.pending = cs
    induction cs generalizing keep with
    | nil => exact List.nil_sublist _
    | cons c cs ih =>
      cases keep with
      | nil => exact List.nil_sublist _
      | cons b keep => exact (ih keep).cons_cons c
  exact ⟨_, (List.filter_sublist.map _).trans hzip, at_foldl d.durable _⟩

end Dir

end Dir

/-! ## File systems -/

/-- Directories of type `D`, names of type `N`, file contents of type `C`. -/
structure Fs (D N C : Type) where
  dirs : D → Dir N
  files : Nat → C
  /-- the inodes written since their last sync -/
  dirty : List Nat
  /-- the next unused inode -/
  next : Nat

/-- Why a step failed. -/
inductive Fault
  | exist
  | notExist
  | other
  deriving DecidableEq, Repr

/-- The file-system steps. `look` stands for steps that only read, `touch` for
those that change neither entries nor content (`chmod`, `close`). -/
inductive Op (D N C : Type) : Type → Type 1
  | look {β : Type} (f : Fs D N C → β) : Op D N C (Except Fault β)
  | touch : Op D N C (Except Fault Unit)
  | create (d : D) (n : N) (blank : C) : Op D N C (Except Fault Nat)
  | write (i : Nat) (c : C) : Op D N C (Except Fault Unit)
  | fsync (i : Nat) : Op D N C (Except Fault Unit)
  | link (d : D) (n : N) (d' : D) (n' : N) : Op D N C (Except Fault Unit)
  | rename (d : D) (n n' : N) : Op D N C (Except Fault Unit)
  | remove (d : D) (n : N) : Op D N C (Except Fault Unit)
  | syncDir (d : D) : Op D N C (Except Fault Unit)
  /-- `mkdir parent name dir`: the new directory is known as `dir`. -/
  | mkdir (d : D) (n : N) (sub : D) : Op D N C (Except Fault Unit)

namespace Fs

section Image

variable [DecidableEq N]

/-- What the directories show. -/
def image (s : Fs D N C) (d : D) : N → Option Nat := (s.dirs d).visible.at

/-- The images a crash can leave. -/
def MayBe (s : Fs D N C) (T : D → N → Option Nat) : Prop := ∀ d, (s.dirs d).MayBe (T d)

/-- Nothing is pending: a crash leaves what is shown. -/
def Settled (s : Fs D N C) : Prop := ∀ T, s.MayBe T → T = s.image

theorem mayBe_image (s : Fs D N C) : s.MayBe s.image := fun d => (s.dirs d).mayBe_visible

/-- What a crash keeps of each directory's pending changes, and what it makes of
content that was not synced. -/
structure Loss (D C : Type) where
  keep : D → List Bool
  torn : Nat → C

def crash (s : Fs D N C) (l : Loss D C) : Fs D N C where
  dirs d := (s.dirs d).crash (l.keep d)
  files i := if i ∈ s.dirty then l.torn i else s.files i
  dirty := []
  next := s.next

theorem mayBe_crash (s : Fs D N C) (l : Loss D C) : s.MayBe (s.crash l).image :=
  fun d => (s.dirs d).mayBe_crash (l.keep d)

theorem settled_crash (s : Fs D N C) (l : Loss D C) : (s.crash l).Settled := by
  intro T hT
  funext d
  exact (Dir.mayBe_of_nil rfl).mp (hT d)

end Image

/-! ## Steps -/

section Steps

variable [DecidableEq D]

def edit (s : Fs D N C) (d : D) (c : Change N) : Fs D N C :=
  { s with dirs := Function.update s.dirs d ((s.dirs d).change c) }

def written (s : Fs D N C) (i : Nat) (c : C) : Fs D N C :=
  { s with files := Function.update s.files i c, dirty := i :: s.dirty }

def flushed (s : Fs D N C) (i : Nat) : Fs D N C := { s with dirty := s.dirty.filter (· ≠ i) }

def created (s : Fs D N C) (d : D) (n : N) (blank : C) : Fs D N C :=
  { (s.edit d [(n, some s.next)]) with files := Function.update s.files s.next blank, next := s.next + 1 }

def madeDir (s : Fs D N C) (d : D) (n : N) (sub : D) : Fs D N C :=
  { s with
    dirs := Function.update (Function.update s.dirs d ((s.dirs d).change [(n, some s.next)])) sub Dir.empty
    next := s.next + 1 }

theorem dirs_edit (s : Fs D N C) (d : D) (c : Change N) :
    (s.edit d c).dirs = Function.update s.dirs d ((s.dirs d).change c) := rfl

theorem dirs_madeDir (s : Fs D N C) (d : D) (n : N) (sub : D) :
    (s.madeDir d n sub).dirs = Function.update (s.edit d [(n, some s.next)]).dirs sub Dir.empty := rfl

variable [DecidableEq N]

def synced (s : Fs D N C) (d : D) : Fs D N C :=
  { s with dirs := Function.update s.dirs d (s.dirs d).sync }

theorem dirs_synced (s : Fs D N C) (d : D) :
    (s.synced d).dirs = Function.update s.dirs d (s.dirs d).sync := rfl

/-- What a step answers and does. Under `none` it goes through; under `some torn`
it fails, without an effect except that a failed write leaves `torn`. -/
def exec : {β : Type} → Option C → Op D N C β → Fs D N C → β × Fs D N C
  | _, none, .look f, s => (.ok (f s), s)
  | _, none, .touch, s => (.ok (), s)
  | _, none, .create d n blank, s =>
    match s.image d n with
    | some _ => (.error .exist, s)
    | none => (.ok s.next, s.created d n blank)
  | _, none, .write i c, s => (.ok (), s.written i c)
  | _, none, .fsync i, s => (.ok (), s.flushed i)
  | _, none, .link d n d' n', s =>
    match s.image d n, s.image d' n' with
    | none, _ => (.error .notExist, s)
    | some _, some _ => (.error .exist, s)
    | some i, none => (.ok (), s.edit d' [(n', some i)])
  | _, none, .rename d n n', s =>
    match s.image d n with
    | none => (.error .notExist, s)
    | some i => (.ok (), s.edit d [(n, none), (n', some i)])
  | _, none, .remove d n, s =>
    match s.image d n with
    | none => (.error .notExist, s)
    | some _ => (.ok (), s.edit d [(n, none)])
  | _, none, .syncDir d, s => (.ok (), s.synced d)
  | _, none, .mkdir d n sub, s =>
    match s.image d n with
    | some _ => (.error .exist, s)
    | none => (.ok (), s.madeDir d n sub)
  | _, some _, .look _, s => (.error .other, s)
  | _, some _, .touch, s => (.error .other, s)
  | _, some _, .create .., s => (.error .other, s)
  | _, some torn, .write i _, s => (.error .other, s.written i torn)
  | _, some _, .fsync _, s => (.error .other, s)
  | _, some _, .link .., s => (.error .other, s)
  | _, some _, .rename .., s => (.error .other, s)
  | _, some _, .remove .., s => (.error .other, s)
  | _, some _, .syncDir _, s => (.error .other, s)
  | _, some _, .mkdir .., s => (.error .other, s)

/-- The file system as a machine; the choices are those of `exec`. -/
def machine : Machine (Op D N C) (Fs D N C) (Option C) := ⟨exec⟩

/-! ## Images after a step -/

variable {s : Fs D N C} {T : D → N → Option Nat}

theorem image_edit (s : Fs D N C) (d : D) (c : Change N) :
    (s.edit d c).image = Function.update s.image d (c.on (s.image d)) := by
  funext d'
  by_cases hd : d' = d
  · subst hd; simp [image, edit]
  · simp [image, edit, hd]

theorem image_synced (s : Fs D N C) (d : D) : (s.synced d).image = s.image := by
  funext d'
  by_cases hd : d' = d
  · subst hd; simp [image, synced, Dir.visible_sync]
  · simp [image, synced, hd]

variable {d : D} {n : N} {sub : D} {i : Nat}

theorem image_madeDir (s : Fs D N C) (n : N) (h : d ≠ sub) :
    (s.madeDir d n sub).image =
      Function.update (Function.update s.image d (Function.update (s.image d) n (some s.next)))
        sub fun _ => none := by
  funext d'
  by_cases hs : d' = sub
  · subst hs
    simp [image, madeDir, Dir.empty, Dir.visible]
    rfl
  · by_cases hd : d' = d
    · subst hd; simp [image, madeDir, hs]
    · simp [image, madeDir, hs, hd]

/-- An image after an edit is an image before it, with or without the edit. -/
theorem MayBe.of_edit {c : Change N} (h : (s.edit d c).MayBe T) :
    s.MayBe T ∨ ∃ T₀, s.MayBe T₀ ∧ T = Function.update T₀ d (c.on (T₀ d)) := by
  have hother : ∀ d', d' ≠ d → (s.dirs d').MayBe (T d') := by
    intro d' hd
    have := h d'
    rwa [dirs_edit, Function.update_of_ne hd] at this
  have hd := h d
  rw [dirs_edit, Function.update_self] at hd
  rcases hd.of_change with hd | ⟨t₀, ht₀, htd⟩
  · refine Or.inl fun d' => ?_
    by_cases hd' : d' = d
    · exact hd' ▸ hd
    · exact hother d' hd'
  · refine Or.inr ⟨Function.update T d t₀, fun d' => ?_, ?_⟩
    · by_cases hd' : d' = d
      · subst hd'; rwa [Function.update_self]
      · rw [Function.update_of_ne hd']; exact hother d' hd'
    · rw [Function.update_self, Function.update_idem, ← htd, Function.update_eq_self]

/-- A change that is pending may be lost. -/
theorem MayBe.edit (h : s.MayBe T) (d : D) (c : Change N) : (s.edit d c).MayBe T := by
  intro d'
  rw [dirs_edit]
  by_cases hd : d' = d
  · subst hd
    rw [Function.update_self]
    obtain ⟨kept, hk, ht⟩ := h d'
    exact ⟨kept, hk.trans (List.sublist_append_left _ _), ht⟩
  · rw [Function.update_of_ne hd]
    exact h d'

/-- A sync settles its directory and leaves the images of the others. -/
theorem MayBe.of_synced (h : (s.synced d).MayBe T) : s.MayBe T ∧ T d = s.image d := by
  have hd : T d = s.image d := by
    have := h d
    rw [dirs_synced, Function.update_self] at this
    exact (Dir.mayBe_of_nil (d := (s.dirs d).sync) rfl).mp this
  refine ⟨fun d' => ?_, hd⟩
  by_cases hd' : d' = d
  · subst hd'
    rw [hd]
    exact s.mayBe_image d'
  · have := h d'
    rwa [dirs_synced, Function.update_of_ne hd'] at this

theorem MayBe.of_madeDir (hne : d ≠ sub) (h : (s.madeDir d n sub).MayBe T) :
    T sub = (fun _ => none) ∧ ((s.edit d [(n, some s.next)]).MayBe (Function.update T sub (s.image sub))) := by
  have hsub : T sub = fun _ => none := by
    have := h sub
    rw [dirs_madeDir, Function.update_self] at this
    exact (Dir.mayBe_of_nil rfl).mp this
  refine ⟨hsub, fun d' => ?_⟩
  by_cases hs : d' = sub
  · subst hs
    rw [Function.update_self, dirs_edit, Function.update_of_ne hne.symm]
    exact s.mayBe_image d'
  · have := h d'
    rw [dirs_madeDir, Function.update_of_ne hs] at this
    rwa [Function.update_of_ne hs]

theorem Settled.of_madeDir (hs : s.Settled) (hne : d ≠ sub)
    (h : (s.madeDir d n sub).MayBe T) :
    T sub = (fun _ => none) ∧ (∀ d', d' ≠ d → d' ≠ sub → T d' = s.image d') ∧
      (T d = s.image d ∨ T d = Function.update (s.image d) n (some s.next)) := by
  obtain ⟨hsub, hT⟩ := h.of_madeDir hne
  refine ⟨hsub, ?_⟩
  have hagree : ∀ d', d' ≠ sub → T d' = Function.update T sub (s.image sub) d' :=
    fun d' hd => (Function.update_of_ne hd _ _).symm
  rcases hT.of_edit with hT | ⟨T₀, hT₀, hTd⟩
  · rw [hs _ hT] at hagree
    exact ⟨fun d' _ hd => hagree d' hd, Or.inl (hagree d hne)⟩
  · rw [hTd, hs T₀ hT₀] at hagree
    refine ⟨fun d' hd hd' => ?_, Or.inr ?_⟩
    · rw [hagree d' hd', Function.update_of_ne hd]
    · rw [hagree d hne, Function.update_self, Change.on_set]

/-! ## Steps that go through -/

theorem exec_link {d d' : D} {n n' : N} (h : s.image d n = some i) (h' : s.image d' n' = none) :
    exec none (.link d n d' n') s = (.ok (), s.edit d' [(n', some i)]) := by
  rw [exec, h, h']

theorem exec_remove (h : s.image d n = some i) :
    exec none (.remove d n) s = (.ok (), s.edit d [(n, none)]) := by
  rw [exec, h]

theorem exec_rename (n' : N) (h : s.image d n = some i) :
    exec none (.rename d n n') s = (.ok (), s.edit d [(n, none), (n', some i)]) := by
  rw [exec, h]

theorem exec_create (blank : C) (h : s.image d n = none) :
    exec none (.create d n blank) s = (.ok s.next, s.created d n blank) := by
  rw [exec, h]

theorem exec_mkdir (sub : D) (h : s.image d n = none) :
    exec none (.mkdir d n sub) s = (.ok (), s.madeDir d n sub) := by
  rw [exec, h]

/-! ## Editing one directory -/

/-- `s` is the settled `s₀` with the edits `l` made to the directory `d`: until
they are synced, a crash leaves each name as it was or as it was last set. -/
structure Editing (s₀ : Fs D N C) (d : D) (l : List (N × Option Nat)) (s : Fs D N C) : Prop where
  files : s.files = s₀.files
  dirty : s.dirty = s₀.dirty
  next : s.next = s₀.next
  image : s.image = Function.update s₀.image d (Change.on l (s₀.image d))
  mayBe : ∀ T, s.MayBe T → (∀ d', d' ≠ d → T d' = s₀.image d') ∧
    ∀ n, T d n = s₀.image d n ∨ ∃ v, (n, v) ∈ l ∧ T d n = v

variable {s₀ : Fs D N C} {d : D} {l : List (N × Option Nat)}

theorem Editing.start (h : s₀.Settled) (d : D) : Editing s₀ d [] s₀ where
  files := rfl
  dirty := rfl
  next := rfl
  image := (Function.update_eq_self d s₀.image).symm
  mayBe T hT := by
    rw [h T hT]
    exact ⟨fun _ _ => rfl, fun _ => Or.inl rfl⟩

theorem Editing.edit (h : Editing s₀ d l s) (n : N) (v : Option Nat) :
    Editing s₀ d (l ++ [(n, v)]) (s.edit d [(n, v)]) where
  files := h.files
  dirty := h.dirty
  next := h.next
  image := by
    rw [image_edit, h.image, Function.update_self, Function.update_idem, Change.on_append]
  mayBe T hT := by
    rcases hT.of_edit with hT | ⟨T₀, hT₀, rfl⟩
    · obtain ⟨h1, h2⟩ := h.mayBe T hT
      refine ⟨h1, fun m => (h2 m).imp_right ?_⟩
      rintro ⟨w, hw, hTw⟩
      exact ⟨w, List.mem_append_left _ hw, hTw⟩
    · obtain ⟨h1, h2⟩ := h.mayBe T₀ hT₀
      refine ⟨fun d' hd => by rw [Function.update_of_ne hd]; exact h1 d' hd, fun m => ?_⟩
      rw [Function.update_self, Change.on_set]
      by_cases hm : m = n
      · subst hm
        exact Or.inr ⟨v, List.mem_append_right _ List.mem_cons_self, Function.update_self ..⟩
      · rw [Function.update_of_ne hm]
        refine (h2 m).imp_right ?_
        rintro ⟨w, hw, hTw⟩
        exact ⟨w, List.mem_append_left _ hw, hTw⟩

theorem Editing.settled (h : Editing s₀ d l s) : (s.synced d).Settled := by
  intro T hT
  obtain ⟨hT, hd⟩ := hT.of_synced
  rw [image_synced]
  funext d'
  by_cases hd' : d' = d
  · rw [hd', hd]
  · rw [(h.mayBe T hT).1 d' hd', h.image, Function.update_of_ne hd']

theorem Settled.synced (h : s.Settled) (d : D) : (s.synced d).Settled := (Editing.start h d).settled

end Steps

end Fs

end CrashFs
