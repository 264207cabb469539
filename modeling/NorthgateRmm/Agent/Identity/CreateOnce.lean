import NorthgateRmm.Agent.Identity.Loads
import NorthgateRmm.Lib.CrashFrame
import NorthgateRmm.Lib.Tasks

/-!
# Installations side by side

Any number of `Install` calls on one directory, interleaved at their file-system calls.
Rollback and cleanup remove by name; what makes that safe is that a call only removes
names that stand for the file it made itself, which nobody else touches.
-/

namespace NorthgateRmm.Agent.Identity

variable {ι α β : Type}

/-- Every call is a pause. -/
def tasks (ι : Type) : Tasks (Op ι) (Disk ι) where
  step s o b s' := ∃ c, Disk.exec c o s = (b, s')
  pauses _ := true
  ambient _ _ := False

/-- The directory holds a file that run `i` made, under this name. -/
def Owned (s : Disk ι) (i : ι) (name : String) (ino : Nat) : Prop :=
  s.entries.get? name = some ino ∧ ∃ f, s.files ino = some f ∧ f.creator = some i

/-- What the others leave of the files of run `i`: everything. -/
structure Unaffected (i : ι) (s s' : Disk ι) : Prop where
  files : ∀ ino f, f.creator = some i → (s'.files ino = some f ↔ s.files ino = some f)
  owned : ∀ name ino, Owned s' i name ino ↔ Owned s i name ino

/-- What run `i` does. -/
def Own (i : ι) (s s' : Disk ι) : Prop := ∀ j, j ≠ i → Unaffected j s s'

/-- The directory holds no file of run `i`. -/
def Absent (s : Disk ι) (i : ι) : Prop := ∀ name ino, ¬ Owned s i name ino

/-- The directory holds one file of run `i`, under these names. -/
structure Held (s : Disk ι) (i : ι) (names : List String) (ino : Nat) (f : File ι) : Prop where
  owned : ∀ name ino', Owned s i name ino' ↔ name ∈ names ∧ ino' = ino
  file : s.files ino = some f
  creator : f.creator = some i

variable {i : ι} {s s' s₁ s₂ s₃ : Disk ι} {names : List String} {ino : Nat} {f : File ι}

theorem Unaffected.refl (i : ι) (s : Disk ι) : Unaffected i s s := ⟨fun _ _ _ => Iff.rfl, fun _ _ => Iff.rfl⟩

theorem Unaffected.trans (h : Unaffected i s₁ s₂) (h' : Unaffected i s₂ s₃) : Unaffected i s₁ s₃ :=
  ⟨fun ino f hf => (h'.files ino f hf).trans (h.files ino f hf),
    fun name ino => (h'.owned name ino).trans (h.owned name ino)⟩

theorem Own.refl (i : ι) (s : Disk ι) : Own i s s := fun j _ => .refl j s

theorem Absent.unaffected (h : Absent s i) (hs : Unaffected i s s') : Absent s' i :=
  fun name ino howned => h name ino ((hs.owned name ino).mp howned)

theorem Held.unaffected (h : Held s i names ino f) (hs : Unaffected i s s') : Held s' i names ino f :=
  ⟨fun name ino' => (hs.owned name ino').trans (h.owned name ino'), (hs.files ino f h.creator).mpr h.file, h.creator⟩

variable {raw : Bytes} {name : String} {ch : Choice} {P : Disk ι → Prop}

theorem Held.get_iff (h : Held s i names ino f) : s.entries.get? name = some ino ↔ name ∈ names :=
  ⟨fun hget => ((h.owned name ino).mp ⟨hget, f, h.file, h.creator⟩).1, fun hn => ((h.owned name ino).mpr ⟨hn, rfl⟩).1⟩

theorem Held.get (h : Held s i names ino f) (hn : name ∈ names) : s.entries.get? name = some ino :=
  h.get_iff.mpr hn

theorem Held.absent (h : Held s i [] ino f) : Absent s i := fun name ino' howned =>
  absurd ((h.owned name ino').mp howned).1 List.not_mem_nil

/-- Only the directory nodes differ. -/
theorem Unaffected.of_eq (j : ι) (he : s'.entries = s.entries) (hf : s'.files = s.files) : Unaffected j s s' := by
  refine ⟨fun ino f _ => by rw [hf], fun name ino => ?_⟩
  rw [Owned, Owned, he, hf]

/-- Only the file `ino` and its names differ. -/
structure Touches (ino : Nat) (s s' : Disk ι) : Prop where
  files : ∀ k, k ≠ ino → s'.files k = s.files k
  entries : ∀ name k, k ≠ ino → (s'.entries.get? name = some k ↔ s.entries.get? name = some k)

theorem Touches.owned (h : Touches ino s s') {j : ι} {k : Nat} (hk : k ≠ ino) :
    Owned s' j name k ↔ Owned s j name k := by
  rw [Owned, Owned, h.entries name k hk, h.files k hk]

/-- A file that was of nobody else and is of nobody else now. -/
theorem Touches.own (h : Touches ino s s') (hbefore : ∀ f, s.files ino = some f → f.creator = some i)
    (hafter : ∀ f, s'.files ino = some f → f.creator = some i) : Own i s s' := by
  intro j hj
  have hnot : ∀ {t : Disk ι}, (∀ f, t.files ino = some f → f.creator = some i) →
      ∀ f : File ι, f.creator = some j → t.files ino ≠ some f := by
    intro t ht f hf hfile
    exact hj (Option.some.inj (hf.symm.trans (ht f hfile)))
  constructor
  · intro k f hf
    by_cases hk : k = ino
    · subst hk
      exact iff_of_false (hnot hafter f hf) (hnot hbefore f hf)
    · rw [h.files k hk]
  · intro name k
    by_cases hk : k = ino
    · subst hk
      exact iff_of_false (fun ⟨_, f, hfile, hf⟩ => hnot hafter f hf hfile)
        fun ⟨_, f, hfile, hf⟩ => hnot hbefore f hf hfile
    · exact h.owned hk

theorem Touches.held (h : Touches ino s s') (honly : ∀ name k, Owned s i name k → k = ino)
    (hnames : ∀ name, s'.entries.get? name = some ino ↔ name ∈ names) (hfile : s'.files ino = some f)
    (hcreator : f.creator = some i) : Held s' i names ino f := by
  refine ⟨fun name k => ⟨fun howned => ?_, ?_⟩, hfile, hcreator⟩
  · have hk : k = ino := by
      by_contra hk
      exact hk (honly name k ((h.owned hk).mp howned))
    subst hk
    exact ⟨(hnames name).mp howned.1, rfl⟩
  · rintro ⟨hname, rfl⟩
    exact ⟨(hnames name).mpr hname, f, hfile, hcreator⟩

/-! ## What the calls do -/

/-- A call that leaves entries and files alone. -/
def Call.quiet : Call ι α → Bool
  | .create _ _ _ _ | .write _ _ | .chmod _ _ | .link _ _ | .remove _ => false
  | _ => true

theorem exec_cases {c : Call ι α} {r : Except Errno α} (h : Disk.exec ch (.run c) s = (r, s')) :
    (r = .error .other ∧ s' = Disk.refuse ch c s) ∨ Disk.perform ch c s = (r, s') := by
  simp only [Disk.exec] at h
  split at h
  · cases h
    exact .inl ⟨rfl, rfl⟩
  · exact .inr h

theorem quiet_exec {c : Call ι α} (hc : c.quiet = true) {r : Except Errno α}
    (h : Disk.exec ch (.run c) s = (r, s')) : s'.entries = s.entries ∧ s'.files = s.files := by
  rcases exec_cases h with ⟨-, rfl⟩ | h
  · cases c <;> first | exact ⟨rfl, rfl⟩ | cases hc
  · cases c with
    | mkdirBase uid perm =>
      simp only [Disk.perform] at h
      split at h <;> cases h <;> exact ⟨rfl, rfl⟩
    | create | write | chmod | link | remove => cases hc
    | _ => cases h; exact ⟨rfl, rfl⟩

/-- A new file stands under its one name. -/
theorem create_exec (h : Absent s i) {uid perm : Nat} {r : Except Errno Nat}
    (hexec : Disk.exec ch (.run (.create i uid name perm)) s = (r, s')) :
    (∃ e, r = .error e ∧ s' = s) ∨
      ∃ ino f, r = .ok ino ∧ f.content = [] ∧ Held s' i [name] ino f ∧ Own i s s' := by
  rcases exec_cases hexec with ⟨rfl, rfl⟩ | hperform
  · exact .inl ⟨_, rfl, rfl⟩
  · simp only [Disk.perform] at hperform
    split at hperform
    · cases hperform
      exact .inl ⟨_, rfl, rfl⟩
    · next hname =>
      split at hperform
      · cases hperform
        exact .inl ⟨_, rfl, rfl⟩
      · next huse =>
        cases hperform
        obtain ⟨hnew, hentry⟩ : s.files ch.fresh = none ∧ ∀ n, s.entries.get? n ≠ some ch.fresh := by
          simp only [Bool.or_eq_true, not_or, Bool.not_eq_true, Option.isSome_eq_false_iff, Option.isNone_iff_eq_none,
            List.contains_eq_mem, decide_eq_false_iff_not] at huse
          exact ⟨huse.1, fun n hn => huse.2 (List.mem_map.mpr ⟨_, Dict.get?_eq_some.mp hn, rfl⟩)⟩
        have hname : s.entries.get? name = none := by simpa using hname
        generalize hfile : (⟨.regular, perm &&& ch.mask, uid, 1, [], some i⟩ : File ι) = file
        have htouch : Touches ch.fresh s (s.newFile name ch.fresh file) := by
          refine ⟨fun k hk => by simp [Disk.newFile, hk], fun n k hk => ?_⟩
          by_cases hn : n = name
          · simp [Disk.newFile, Dict.get?_set, hn, hname, Ne.symm hk]
          · simp [Disk.newFile, Dict.get?_set, hn]
        have hset : (s.newFile name ch.fresh file).files ch.fresh = some file := by simp [Disk.newFile]
        refine .inr ⟨ch.fresh, file, rfl, by rw [← hfile], htouch.held (fun n k hk => absurd hk (h n k)) (fun n => ?_) hset
          (by rw [← hfile]), htouch.own (fun g hg => ?_) fun g hg => ?_⟩
        · by_cases hn : n = name
          · simp [Disk.newFile, Dict.get?_set, hn]
          · simpa [Disk.newFile, Dict.get?_set, hn] using hentry n
        · rw [hnew] at hg
          cases hg
        · obtain rfl := Option.some.inj (hset.symm.trans hg)
          rw [← hfile]

/-- The own file keeps its maker, and the names that other files have stay. -/
theorem Held.rename (h : Held s i names ino f) {change : File ι → File ι} (hchange : (change f).creator = f.creator)
    {entries : Dict String Nat} {names' : List String}
    (hothers : ∀ n k, k ≠ ino → (entries.get? n = some k ↔ s.entries.get? n = some k))
    (hnames : ∀ n, entries.get? n = some ino ↔ n ∈ names') :
    Held { s.setFile ino change with entries } i names' ino (change f) ∧
      Own i s { s.setFile ino change with entries } := by
  have hfile : (s.setFile ino change).files ino = some (change f) := by simp [Disk.setFile, h.file]
  have htouch : Touches ino s { s.setFile ino change with entries } :=
    ⟨fun k hk => by simp [Disk.setFile, hk], hothers⟩
  have hcreator : (change f).creator = some i := hchange.trans h.creator
  refine ⟨htouch.held (fun name k hk => ((h.owned name k).mp hk).2) hnames hfile hcreator,
    htouch.own (fun g hg => ?_) fun g hg => ?_⟩
  · obtain rfl := Option.some.inj (h.file.symm.trans hg)
    exact h.creator
  · obtain rfl := Option.some.inj (hfile.symm.trans hg)
    exact hcreator

theorem Held.setFile (h : Held s i names ino f) {change : File ι → File ι} (hchange : (change f).creator = f.creator) :
    Held (s.setFile ino change) i names ino (change f) ∧ Own i s (s.setFile ino change) :=
  h.rename hchange (fun _ _ _ => Iff.rfl) fun _ => h.get_iff

/-- A second name of the own file. -/
theorem link_exec (h : Held s i names ino f) {old new : String} (hold : old ∈ names)
    {r : Except Errno Unit} (hexec : Disk.exec ch (.run (.link old new)) s = (r, s')) :
    (∃ e, r = .error e ∧ s' = s) ∨
      r = .ok () ∧ Held s' i (new :: names) ino { f with nlink := f.nlink + 1 } ∧ Own i s s' := by
  rcases exec_cases hexec with ⟨rfl, rfl⟩ | hperform
  · exact .inl ⟨_, rfl, rfl⟩
  · simp only [Disk.perform, h.get hold] at hperform
    split at hperform
    · cases hperform
      exact .inl ⟨_, rfl, rfl⟩
    · next hnew =>
      cases hperform
      have hnew : s.entries.get? new = none := by simpa using hnew
      refine .inr ⟨rfl, h.rename rfl (fun n k hk => ?_) fun n => ?_⟩
      · by_cases hn : n = new
        · simp [Dict.get?_set, hn, hnew, Ne.symm hk]
        · simp [Dict.get?_set, hn]
      · by_cases hn : n = new
        · simp [Dict.get?_set, hn]
        · simp [Dict.get?_set, hn, h.get_iff]

/-- A name of the own file is removed, or it stays. -/
theorem remove_exec (h : Held s i names ino f) (hname : name ∈ names)
    {r : Except Errno Unit} (hexec : Disk.exec ch (.run (.remove name)) s = (r, s')) :
    (r = .error .other ∧ s' = s) ∨
      r = .ok () ∧ Held s' i (names.filter (· ≠ name)) ino { f with nlink := f.nlink - 1 } ∧ Own i s s' := by
  rcases exec_cases hexec with ⟨rfl, rfl⟩ | hperform
  · exact .inl ⟨rfl, rfl⟩
  · simp only [Disk.perform, h.get hname] at hperform
    cases hperform
    refine .inr ⟨rfl, h.rename rfl (fun n k hk => ?_) fun n => ?_⟩
    · by_cases hn : n = name
      · simp [Dict.get?_erase, hn, h.get hname, Ne.symm hk]
      · simp [Dict.get?_erase, hn]
    · by_cases hn : n = name
      · simp [Dict.get?_erase, hn]
      · simp [Dict.get?_erase, hn, h.get_iff]

/-! ## Safe programs -/

/-- Run `i`, among others that leave its files alone. -/
abbrev SafeRun (i : ι) (Q : Except Error α → Disk ι → Prop) (p : Program ι α) (s : Disk ι) : Prop :=
  (tasks ι).Safe (fun _ => True) (Unaffected i) (Own i) Q p s

variable {Q : Except Error β → Disk ι → Prop}

theorem safe_attempt {c : Call ι α} {k : Except Errno α → Program ι β}
    (h : ∀ s₁, Unaffected i s s₁ → ∀ ch r s', Disk.exec ch (.run c) s₁ = (r, s') → Own i s₁ s' ∧ SafeRun i Q (k r) s') :
    SafeRun i Q (attempt c >>= k) s :=
  .bind (.pause rfl fun s₁ hs₁ _ r s' ⟨ch, hexec⟩ => ⟨trivial, h s₁ hs₁ ch r s' hexec⟩)

/-- A call that leaves entries and files alone keeps what the others leave alone. -/
theorem safe_quiet (hP : ∀ s s', P s → Unaffected i s s' → P s') {c : Call ι α}
    (hc : c.quiet = true) {k : Except Errno α → Program ι β} (hs : P s) (h : ∀ s', P s' → ∀ r, SafeRun i Q (k r) s') :
    SafeRun i Q (attempt c >>= k) s := by
  refine safe_attempt fun s₁ hs₁ ch r s' hexec => ?_
  obtain ⟨he, hf⟩ := quiet_exec hc hexec
  exact ⟨fun j _ => .of_eq j he hf, h s' (hP s₁ s' (hP s s₁ hs hs₁) (.of_eq i he hf)) r⟩

theorem safe_ask (hP : ∀ s s', P s → Unaffected i s s' → P s') {c : Call ι α} {e : Errno → Error}
    (hc : c.quiet = true) {k : α → Program ι β} (hs : P s) (herror : ∀ s' f, P s' → Q (.error (e f)) s')
    (hok : ∀ s' a, P s' → SafeRun i Q (k a) s') : SafeRun i Q (ask c e >>= k) s := by
  refine .bind (safe_quiet hP hc hs fun s' hs' r => ?_)
  cases r with
  | ok a => exact hok s' a hs'
  | error f => exact herror s' f hs'

/-- A program of such calls. -/
def Quiet (β : Type) : Op ι β → Prop
  | .run c => c.quiet = true

theorem safe_of_quiet (hP : ∀ s s', P s → Unaffected i s s' → P s') {p : Program ι α}
    (hp : p.Only Quiet) (hs : P s) : SafeRun i (fun _ s' => P s') p s := by
  induction p generalizing s with
  | ret a => exact hs
  | fail e => exact hs
  | op o k ih =>
    refine .pause rfl fun s₁ hs₁ _ b s' hstep => ?_
    cases o with
    | run c =>
      obtain ⟨ch, hexec⟩ := hstep
      obtain ⟨he, hf⟩ := quiet_exec hp.1 hexec
      exact ⟨trivial, fun j _ => .of_eq j he hf, ih b (hp.2 b) (hP s₁ s' (hP s s₁ hs hs₁) (.of_eq i he hf))⟩

theorem only_attempt {c : Call ι α} (hc : c.quiet = true) : (attempt c).Only Quiet := Prog.only_call hc

theorem only_ask {c : Call ι α} {e : Errno → Error} (hc : c.quiet = true) : (ask c e).Only Quiet :=
  Prog.only_bind (only_attempt hc) fun _ => Prog.only_orFail

theorem only_openStore (uid : Nat) (directory : String) (create : Bool) :
    (openStore uid directory create : Program ι Unit).Only Quiet := by
  have hinspect : (inspectBase uid create : Program ι (Except Errno Info)).Only Quiet := by
    refine Prog.only_bind (only_attempt rfl) fun r => ?_
    cases r with
    | ok info => exact Prog.only_pure
    | error e =>
      dsimp only
      split
      · exact Prog.only_bind (only_ask rfl) fun _ => Prog.only_bind (only_ask rfl) fun _ => only_attempt rfl
      · split <;> exact Prog.only_fail
  have hprotect : ∀ opened, (protectRoot uid create opened : Program ι Unit).Only Quiet := by
    intro opened
    unfold protectRoot
    split
    · exact Prog.only_bind (only_ask rfl) fun _ => Prog.only_bind (only_ask rfl) fun _ => Prog.only_require
    · exact Prog.only_require
  refine Prog.only_bind Prog.only_require fun _ => ?_
  refine Prog.only_bind (only_ask rfl) fun _ => Prog.only_bind Prog.only_require fun _ => ?_
  refine Prog.only_bind (only_ask rfl) fun _ => Prog.only_bind (only_ask rfl) fun _ => ?_
  refine Prog.only_bind Prog.only_require fun _ => Prog.only_bind hinspect fun _ => ?_
  refine Prog.only_bind Prog.only_orFail fun _ => Prog.only_bind Prog.only_require fun _ => ?_
  refine Prog.only_bind (only_ask rfl) fun _ => Prog.only_bind (only_ask rfl) fun _ => ?_
  exact Prog.only_bind Prog.only_require fun _ => hprotect _

theorem only_readEntries : (readEntries : Program ι (List String)).Only Quiet :=
  Prog.only_bind (only_ask rfl) fun _ => Prog.only_bind Prog.only_require fun _ => Prog.only_pure

theorem only_load (crypto : Crypto) (uid : Nat) (directory : String) (now : Protocol.Time) :
    (load crypto uid directory now : Program ι Loaded).Only Quiet := by
  have hread : (readBundle uid : Program ι Bytes).Only Quiet := by
    refine Prog.only_bind (only_ask rfl) fun _ => Prog.only_bind Prog.only_require fun _ => ?_
    refine Prog.only_bind (only_ask rfl) fun _ => Prog.only_bind (only_ask rfl) fun _ => ?_
    refine Prog.only_bind Prog.only_require fun _ => Prog.only_bind (only_ask rfl) fun _ => ?_
    exact Prog.only_bind Prog.only_require fun _ => Prog.only_pure
  refine Prog.only_bind (only_openStore _ _ _) fun _ => Prog.only_bind (Prog.only_attempt only_readEntries) fun r => ?_
  split
  · exact Prog.only_bind Prog.only_require fun _ => Prog.only_bind hread fun _ => Prog.only_orFail
  · exact Prog.only_fail

/-! ## `Install` -/

/-- The errors after which something may be left behind. -/
def Error.excused : Error → Bool
  | .joined _ _ | .uncertain _ _ => true
  | _ => false

/-- How run `i` ends: with its bundle in place, or with nothing left of it. -/
def Ends (i : ι) (raw : Bytes) : Except Error Unit → Disk ι → Prop
  | .ok _, s => ∃ ino f, Held s i [bundleName] ino f ∧ f.content = raw
  | .error e, s => e.excused = false → Absent s i

theorem Ends.unaffected {r : Except Error Unit} (h : Ends i raw r s) (hs : Unaffected i s s') :
    Ends i raw r s' := by
  cases r with
  | ok _ =>
    obtain ⟨ino, f, hheld, hcontent⟩ := h
    exact ⟨ino, f, hheld.unaffected hs, hcontent⟩
  | error e => exact fun he => (h he).unaffected hs

theorem absent_stable (s s' : Disk ι) (h : Absent s i) (hs : Unaffected i s s') : Absent s' i := h.unaffected hs

theorem held_stable (s s' : Disk ι) (h : Held s i names ino f) (hs : Unaffected i s s') : Held s' i names ino f :=
  h.unaffected hs

/-- The removal of a name of the own file. -/
theorem safe_remove (h : Held s i names ino f) (hname : name ∈ names) {k : Except Errno Unit → Program ι β}
    (herror : ∀ s', Held s' i names ino f → SafeRun i Q (k (.error .other)) s')
    (hok : ∀ s' f', Held s' i (names.filter (· ≠ name)) ino f' → f'.content = f.content → SafeRun i Q (k (.ok ())) s') :
    SafeRun i Q (attempt (.remove name) >>= k) s := by
  refine safe_attempt fun s₁ hs₁ ch r s' hexec => ?_
  have hheld := h.unaffected hs₁
  obtain ⟨rfl, rfl⟩ | ⟨rfl, hheld', hown⟩ := remove_exec hheld hname hexec
  · exact ⟨.refl _ _, herror _ hheld⟩
  · exact ⟨hown, hok s' _ hheld' rfl⟩

theorem safe_cleanStaging {error : Error} (h : Held s i [temporaryName] ino f) :
    SafeRun i (Ends i raw) (cleanStaging error) s := by
  refine safe_remove h (by simp) (fun s' _ => ?_) fun s' f' hgone _ => ?_
  · exact fun he => by cases he
  · have habsent : Absent s' i := Held.absent (by simpa using hgone)
    refine safe_quiet absent_stable rfl habsent fun s'' habsent' r => ?_
    cases r with
    | ok _ => exact fun _ => habsent'
    | error e => exact fun he => by cases he

/-- The end of a rollback: it is certain only when both names are gone. -/
theorem safe_rollback_end {cause : Error} (removeErr removeTemporaryErr : Except Errno Unit)
    (h : removal removeErr = none → removal removeTemporaryErr = none → Absent s i) :
    SafeRun i (Ends i raw) (do
      let rootSyncErr ← attempt .syncRoot
      let parentSyncErr ← attempt .syncParent
      match [removal removeErr, removal removeTemporaryErr, failure rootSyncErr, failure parentSyncErr].filterMap id with
      | [] => .fail cause
      | failures => .fail (.uncertain cause failures)) s := by
  have hstable : ∀ s s' : Disk ι, (removal removeErr = none → removal removeTemporaryErr = none → Absent s i) →
      Unaffected i s s' → removal removeErr = none → removal removeTemporaryErr = none → Absent s' i :=
    fun s s' h hs h₁ h₂ => (h h₁ h₂).unaffected hs
  refine safe_quiet hstable rfl h fun s₁ h₁ rootSyncErr => safe_quiet hstable rfl h₁ fun s₂ h₂ parentSyncErr => ?_
  split
  · next hnone =>
    simp only [List.filterMap_eq_nil_iff, List.forall_mem_cons, id_eq] at hnone
    exact fun _ => h₂ hnone.1 hnone.2.1
  · exact fun he => by cases he

theorem removal_other : removal (.error .other) ≠ none := by decide

theorem safe_rollbackPublished {cause : Error} (removeTemporary : Bool)
    (h : Held s i (bundleName :: if removeTemporary then [temporaryName] else []) ino f) :
    SafeRun i (Ends i raw) (rollbackPublished removeTemporary cause) s := by
  have hne : temporaryName ≠ bundleName := by decide
  cases removeTemporary with
  | false =>
    refine safe_remove h (by simp) (fun s₁ _ => ?_) fun s₁ f₁ h₁ _ => ?_
    · exact safe_rollback_end (.error .other) (.ok ()) fun he => absurd he removal_other
    · exact safe_rollback_end (.ok ()) (.ok ()) fun _ _ => Held.absent (by simpa using h₁)
  | true =>
    refine safe_remove h (by simp) (fun s₁ h₁ => ?_) fun s₁ f₁ h₁ _ => ?_
    · refine safe_remove h₁ (by simp) (fun s₂ _ => ?_) fun s₂ f₂ _ _ => ?_
      · exact safe_rollback_end (.error .other) (.error .other) fun he => absurd he removal_other
      · exact safe_rollback_end (.error .other) (.ok ()) fun he => absurd he removal_other
    · have h₁ : Held s₁ i [temporaryName] ino f₁ := by simpa [hne] using h₁
      refine safe_remove h₁ (by simp) (fun s₂ _ => ?_) fun s₂ f₂ h₂ _ => ?_
      · exact safe_rollback_end (.ok ()) (.error .other) fun _ he => absurd he removal_other
      · exact safe_rollback_end (.ok ()) (.ok ()) fun _ _ => Held.absent (by simpa using h₂)

theorem safe_settle (h : Held s i [bundleName, temporaryName] ino f) (hraw : f.content = raw) :
    SafeRun i (Ends i raw) settle s := by
  have hne : bundleName ≠ temporaryName := by decide
  refine safe_remove h (by simp) (fun s₁ h₁ => safe_rollbackPublished true h₁) fun s₁ f₁ h₁ hcontent => ?_
  have h₁ : Held s₁ i [bundleName] ino f₁ := by simpa [hne] using h₁
  refine safe_quiet held_stable rfl h₁ fun s₂ h₂ r => ?_
  cases r with
  | error e => exact safe_rollbackPublished false h₂
  | ok _ =>
    refine safe_quiet held_stable rfl h₂ fun s₃ h₃ r => ?_
    cases r with
    | error e => exact safe_rollbackPublished false h₃
    | ok _ => exact ⟨ino, f₁, h₃, hcontent.trans hraw⟩

/-- What is known when the staging file was linked, and when something failed before. -/
def Staged (i : ι) (raw : Bytes) (ino : Nat) : Except Error Unit → Disk ι → Prop
  | .ok _, s => ∃ f, Held s i [bundleName, temporaryName] ino f ∧ f.content = raw
  | .error _, s => ∃ f, Held s i [temporaryName] ino f

/-- The staging file holds the bundle. -/
def Written (i : ι) (raw : Bytes) (ino : Nat) (s : Disk ι) : Prop := ∃ f, Held s i [temporaryName] ino f ∧ f.content = raw

theorem Written.unaffected (s s' : Disk ι) (h : Written i raw ino s) (hs : Unaffected i s s') :
    Written i raw ino s' := by
  obtain ⟨f, hheld, hcontent⟩ := h
  exact ⟨f, hheld.unaffected hs, hcontent⟩

/-- A failure before the link. -/
theorem safe_giveUp {file : Nat} {error : Error} (h : Held s i [temporaryName] ino f)
    (hQ : ∀ s', Held s' i [temporaryName] ino f → Q (.error error) s') :
    SafeRun i Q (do let _ ← attempt (.close file); .fail error) s :=
  safe_quiet held_stable rfl h fun s' h' _ => hQ s' h'

theorem safe_onStaging {file : Nat} {c : Call ι Unit} {text : String} {k : Unit → Program ι Unit}
    (hc : ∀ s₁ ch r s', Written i raw ino s₁ → Disk.exec ch (.run c) s₁ = (r, s') → Own i s₁ s' ∧ Written i raw ino s')
    (h : Written i raw ino s) (hk : ∀ s', Written i raw ino s' → SafeRun i (Staged i raw ino) (k ()) s') :
    SafeRun i (Staged i raw ino) (onStaging file c text >>= k) s := by
  refine .bind (safe_attempt fun s₁ hs₁ ch r s' hexec => ?_)
  obtain ⟨hown, hwritten⟩ := hc s₁ ch r s' (h.unaffected s s₁ hs₁) hexec
  refine ⟨hown, ?_⟩
  cases r with
  | ok _ => exact hk s' hwritten
  | error e =>
    obtain ⟨f, hheld, -⟩ := hwritten
    exact safe_giveUp hheld fun s'' h => ⟨f, h⟩

theorem write_exec (h : Held s i names ino f) {r : Except Errno Nat}
    (hexec : Disk.exec ch (.run (.write ino raw)) s = (r, s')) :
    Own i s s' ∧ ∃ f', Held s' i names ino f' ∧ (r = .ok raw.length → f'.content = f.content ++ raw) := by
  rcases exec_cases hexec with ⟨rfl, rfl⟩ | hperform
  · exact ⟨(h.setFile rfl).2, _, (h.setFile rfl).1, nofun⟩
  · cases hperform
    refine ⟨(h.setFile rfl).2, _, (h.setFile rfl).1, fun hlength => ?_⟩
    have hall : raw.take (ch.short.getD raw.length) = raw :=
      List.IsPrefix.eq_of_length (List.take_prefix _ _) (Except.ok.inj hlength)
    exact congrArg (f.content ++ ·) hall

theorem chmod_exec {perm : Nat} (s₁ : Disk ι) (ch : Choice) (r : Except Errno Unit) (s' : Disk ι)
    (h : Written i raw ino s₁) (hexec : Disk.exec ch (.run (.chmod ino perm)) s₁ = (r, s')) :
    Own i s₁ s' ∧ Written i raw ino s' := by
  rcases exec_cases hexec with ⟨rfl, rfl⟩ | hperform
  · exact ⟨.refl _ _, h⟩
  · cases hperform
    obtain ⟨f, hheld, hcontent⟩ := h
    exact ⟨(hheld.setFile rfl).2, _, (hheld.setFile rfl).1, hcontent⟩

theorem safe_stage (h : Held s i [temporaryName] ino f) (hempty : f.content = []) :
    SafeRun i (Staged i raw ino) (stage raw ino) s := by
  refine safe_attempt fun s₁ hs₁ ch r s' hexec => ?_
  obtain ⟨hown, f', hheld, hcontent⟩ := write_exec (h.unaffected hs₁) hexec
  refine ⟨hown, ?_⟩
  cases r with
  | error e => exact safe_giveUp hheld fun s'' h => ⟨f', h⟩
  | ok written =>
    dsimp only
    split
    · exact safe_giveUp hheld fun s'' h => ⟨f', h⟩
    · next hlength =>
      have hwritten : Written i raw ino s' :=
        ⟨f', hheld, by rw [hcontent (by rw [not_not.mp hlength]), hempty, List.nil_append]⟩
      refine safe_onStaging (fun s₁ ch r s' h hexec => ?_) hwritten fun s₂ h₂ => ?_
      · obtain ⟨he, hf⟩ := quiet_exec rfl hexec
        exact ⟨fun j _ => .of_eq j he hf, h.unaffected _ _ (.of_eq i he hf)⟩
      refine safe_onStaging chmod_exec h₂ fun s₃ h₃ => ?_
      refine safe_ask Written.unaffected rfl h₃ (fun s₄ _ ⟨f, h₄, _⟩ => ⟨f, h₄⟩) fun s₄ _ ⟨g, h₄, hg⟩ => ?_
      refine safe_attempt fun s₅ hs₅ ch r s₆ hexec => ?_
      have h₅ := h₄.unaffected hs₅
      obtain ⟨e, rfl, rfl⟩ | ⟨rfl, h₆, hown⟩ := link_exec h₅ (by simp) hexec
      · refine ⟨.refl _ _, safe_quiet held_stable rfl h₅ fun s₇ h₇ r => ?_⟩
        cases r <;> exact ⟨g, h₇⟩
      · exact ⟨hown, _, h₆, hg⟩

theorem safe_publish {uid : Nat} (h : Absent s i) : SafeRun i (Ends i raw) (publish i uid raw) s := by
  refine safe_attempt fun s₁ hs₁ ch r s' hexec => ?_
  obtain ⟨e, rfl, rfl⟩ | ⟨ino, f, rfl, hempty, hheld, hown⟩ := create_exec (h.unaffected hs₁) hexec
  · refine ⟨.refl _ _, ?_⟩
    cases e <;> exact fun _ => h.unaffected hs₁
  · refine ⟨hown, .bind (.attempt ((safe_stage hheld hempty).mono fun r s'' hr => ?_))⟩
    cases r with
    | error e =>
      obtain ⟨f', hheld'⟩ := hr
      exact safe_cleanStaging hheld'
    | ok _ =>
      obtain ⟨f', hheld', hcontent⟩ := hr
      exact safe_settle hheld' hcontent

theorem safe_occupied (crypto : Crypto) (uid : Nat) (directory : String) (now : Protocol.Time)
    (entries : List String) (h : Absent s i) :
    SafeRun i (Ends i raw) (occupied crypto uid directory now entries) s := by
  unfold occupied
  split
  · refine .bind (.attempt ((safe_of_quiet absent_stable (only_load _ _ _ _) h).mono fun r s' h' => ?_))
    cases r <;> exact fun _ => h'
  · exact fun _ => h

theorem safe_installBundle (crypto : Crypto) (uid : Nat) (directory : String) (now : Protocol.Time) (raw : Bytes)
    (h : Absent s i) : SafeRun i (Ends i raw) (installBundle crypto i uid directory now raw) s := by
  refine .bind ?_
  unfold Prog.require
  split
  · refine .bind ((safe_of_quiet absent_stable (only_openStore _ _ _) h).mono fun r s₁ h₁ => ?_)
    cases r with
    | error e => exact fun _ => h₁
    | ok _ =>
      refine .bind ((safe_of_quiet absent_stable only_readEntries h₁).mono fun r s₂ h₂ => ?_)
      cases r with
      | error e => exact fun _ => h₂
      | ok entries =>
        dsimp only
        split
        · exact safe_occupied _ _ _ _ _ h₂
        · exact safe_publish h₂
  · exact fun _ => h

/-- The arguments of one `Install` call and the user it runs as. -/
structure Request where
  crypto : Crypto
  uid : Nat
  material : Material
  now : Protocol.Time

def Request.program (r : Request) (directory : String) (i : ι) : Program ι Unit :=
  install r.crypto i r.uid directory r.material r.now

theorem safe_install (r : Request) (directory : String) (h : Absent s i) :
    SafeRun i (Ends i (marshalBundle r.material)) (r.program directory i) s := by
  unfold Request.program install
  generalize marshalBundle r.material = raw
  refine .bind ?_
  cases validateMaterial r.crypto r.material r.now with
  | error e => exact fun _ => h
  | ok _ => exact safe_installBundle _ _ _ _ _ h

/-! ## Any number of them -/

/-- A disk none of whose files were made by the runs to come. -/
def Disk.before (s : Disk ι) : Disk ι :=
  { s with files := fun ino => (s.files ino).map fun f => { f with creator := none } }

theorem absent_before (s : Disk ι) (i : ι) : Absent s.before i := by
  rintro name ino ⟨-, f, hfile, hcreator⟩
  obtain ⟨g, -, rfl⟩ := Option.map_eq_some_iff.mp hfile
  cases hcreator

abbrev Pool (ι : Type) := Tasks.Pool (Op ι) Error Unit ι (Disk ι)

/-- `Install` calls that are about to start. -/
def starting (directory : String) (requests : ι → Request) (disk : Disk ι) : Pool ι :=
  ⟨disk.before, fun i => (requests i).program directory i⟩

theorem resting (p : Program ι α) : (tasks ι).Resting p := by
  cases p with
  | op o k => rfl
  | _ => trivial

variable [DecidableEq ι] {directory : String} {requests : ι → Request} {disk : Disk ι} {pool later : Pool ι}

/-- Every run is safe in every interleaving. -/
theorem reachable_safe (h : (tasks ι).Reachable (starting directory requests disk) pool) (i : ι) :
    SafeRun i (Ends i (marshalBundle (requests i).material)) (pool.task i) pool.state := by
  refine ((h.safe (fun _ => True) Unaffected Own (fun i => Ends i (marshalBundle (requests i).material))
    Unaffected.refl (fun _ _ _ _ => .trans) (fun i j s s' hij hown => hown i hij) (fun _ _ h => h.elim)
    (fun i r s s' hs hr => hr.unaffected hs) trivial fun i => ⟨resting _, ?_⟩).2 i).2
  exact safe_install (requests i) directory (absent_before disk i)

/-- A bundle whose run returned stays as it is. -/
theorem kept_bundle (h : (tasks ι).Reachable (starting directory requests disk) pool)
    (hlater : (tasks ι).Reachable pool later) {ino : Nat} {f : File ι} (hdone : pool.task i = .ret ())
    (hheld : Held pool.state i [bundleName] ino f) : Held later.state i [bundleName] ino f := by
  have hsafe := (hlater.safe (fun _ => True) Unaffected Own (fun j _ s => j = i → Held s i [bundleName] ino f)
    Unaffected.refl (fun _ _ _ _ => .trans) (fun i j s s' hij hown => hown i hij) (fun _ _ h => h.elim)
    (fun j r s s' hs hr hj => (hr hj).unaffected (hj ▸ hs)) trivial fun j => ⟨resting _, ?_⟩).2 i
  · have hended : later.task i = .ret () := (hlater.task_eq (by rw [hdone]; trivial)).trans hdone
    rw [hended] at hsafe
    exact hsafe.2 rfl
  · by_cases hj : j = i
    · subst hj
      rw [hdone]
      exact fun _ => hheld
    · exact (reachable_safe h j).mono fun r s' _ hji => absurd hji hj

/-- **Installation is create-once.** -/
theorem installation_is_create_once (directory : String) (requests : ι → Request) (disk : Disk ι) (pool : Pool ι)
    (h : (tasks ι).Reachable (starting directory requests disk) pool) :
    (∀ i, pool.task i = .ret () → ∃ ino f, f.creator = some i ∧ f.content = marshalBundle (requests i).material ∧
      ∀ later, (tasks ι).Reachable pool later →
        later.state.entries.get? bundleName = some ino ∧ later.state.files ino = some f) ∧
    (∀ i j, pool.task i = .ret () → pool.task j = .ret () → i = j) ∧
    ∀ i e, pool.task i = .fail e → e.excused = false → ∀ name ino f, pool.state.entries.get? name = some ino →
      pool.state.files ino = some f → f.creator ≠ some i := by
  have hsafe := reachable_safe h
  have hended : ∀ i, pool.task i = .ret () →
      ∃ ino f, Held pool.state i [bundleName] ino f ∧ f.content = marshalBundle (requests i).material := by
    intro i hi
    have := hsafe i
    rwa [hi] at this
  refine ⟨fun i hi => ?_, fun i j hi hj => ?_, fun i e hi he name ino f hget hfile hcreator => ?_⟩
  · obtain ⟨ino, f, hheld, hcontent⟩ := hended i hi
    refine ⟨ino, f, hheld.creator, hcontent, fun later hlater => ?_⟩
    have hheld' := kept_bundle h hlater hi hheld
    exact ⟨hheld'.get (by simp), hheld'.file⟩
  · obtain ⟨ino, f, hheld, -⟩ := hended i hi
    obtain ⟨ino', f', hheld', -⟩ := hended j hj
    obtain rfl := Option.some.inj ((hheld.get (List.mem_singleton_self bundleName)).symm.trans
      (hheld'.get (List.mem_singleton_self bundleName)))
    obtain rfl := Option.some.inj (hheld.file.symm.trans hheld'.file)
    exact Option.some.inj (hheld.creator.symm.trans hheld'.creator)
  · have := hsafe i
    rw [hi] at this
    exact this he name ino ⟨hget, f, hfile, hcreator⟩

/-- A run of one program that nobody interrupts. -/
theorem reachable_run {start : Pool ι} {i : ι} {s' : Disk ι} {plan : List Choice} (p : Program ι Unit)
    {task : ι → Program ι Unit} {s : Disk ι} (hrun : p.run Disk.machine plan s = (some (.ok ()), s')) (hi : task i = p)
    (h : (tasks ι).Reachable start ⟨s, task⟩) : ∃ pool, (tasks ι).Reachable start pool ∧ pool.task i = .ret () := by
  induction p generalizing plan task s with
  | ret a => exact ⟨_, h, hi⟩
  | fail e => cases hrun
  | op o k ih =>
    cases plan with
    | nil => cases hrun
    | cons c plan => exact ih _ hrun (Function.update_self ..) (h.turn i hi _ _ ⟨c, rfl⟩ (resting _))

theorem reachable_installed (r : Request) (huid : r.uid = 0) {parsed : KeyPair × List Certificate}
    (hvalid : validateMaterial r.crypto r.material r.now = .ok parsed)
    (h : (marshalBundle r.material).length ≤ maxBundleBytes) :
    ∃ pool, (tasks Unit).Reachable (starting "/var/lib/rmm/identity" (fun _ => r) emptyDisk) pool ∧
      pool.task () = .ret () := by
  obtain ⟨plan, s', hrun, -⟩ := installed_there r.crypto r.now hvalid h
  refine reachable_run _ hrun ?_ .start
  show r.program "/var/lib/rmm/identity" () = _
  rw [Request.program, huid]

theorem latin_installation_is_create_once : ∃ pool : Pool Unit,
    (tasks Unit).Reachable (starting "/var/lib/rmm/identity" (fun _ => ⟨example509, 0, latinMaterial, noon⟩) emptyDisk)
      pool ∧ pool.task () = .ret () ∧ ∃ ino f, f.creator = some () ∧ f.content = marshalBundle latinMaterial ∧
        pool.state.entries.get? bundleName = some ino ∧ pool.state.files ino = some f := by
  obtain ⟨pool, hpool, hdone⟩ := reachable_installed ⟨example509, 0, latinMaterial, noon⟩ rfl validate_latinMaterial
    length_latinBundle
  obtain ⟨ino, f, hcreator, hcontent, hlater⟩ := (installation_is_create_once _ _ _ pool hpool).1 () hdone
  exact ⟨pool, hpool, hdone, ino, f, hcreator, hcontent, hlater pool .start⟩

end NorthgateRmm.Agent.Identity
