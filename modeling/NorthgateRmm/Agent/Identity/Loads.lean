import NorthgateRmm.Agent.Identity.Store

/-!
# What was installed is loaded

One `Install` that returns nil, and a `Load` after it whose calls do not fail. The
directory then holds the bundle alone, with the modes that `Load` asks for, and `Load`
answers what `validateMaterial` says about the material that is read back. The bytes of
the material come back when they are UTF-8; other bytes become U+FFFD, three bytes each,
and may take the material past the limits that it met before.
-/

namespace NorthgateRmm.Agent.Identity

open GoString

variable {ι α β : Type} {s s' : Disk ι} {uid : Nat}

/-! ## Programs that return -/

/-- However the calls go, if the program returns then `Q` holds. -/
abbrev Gives (p : Program ι α) (s : Disk ι) (Q : α → Disk ι → Prop) : Prop :=
  p.wp Disk.machine (fun _ _ _ => True) (fun _ => True) (fun r s' => ∀ a, r = .ok a → Q a s') s

variable {Q : α → Disk ι → Prop}

theorem gives_pure {a : α} (h : Q a s) : Gives (pure a) s Q := fun _ hb => Except.ok.inj hb ▸ h

theorem gives_fail {e : Error} : Gives (.fail e) s Q := nofun

theorem Gives.bind {p : Program ι β} {f : β → Program ι α} (h : Gives p s fun b s' => Gives (f b) s' Q) :
    Gives (p >>= f) s Q := by
  refine Prog.wp_bind.mpr (Prog.wp_mono h fun r s' hr => ?_)
  cases r with
  | ok b => exact hr b rfl
  | error e => exact nofun

variable {directory : String} {c : Call ι β} {e : Errno → Error} {crypto : Crypto} {k : β → Program ι α}
  {now : Protocol.Time} {ch : Choice} {who : ι} {b : β}

theorem gives_attempt {k : Except Errno β → Program ι α}
    (h : ∀ ch r s', Disk.exec ch (.run c) s = (r, s') → Gives (k r) s' Q) : Gives (attempt c >>= k) s Q :=
  Prog.wp_bind.mpr ⟨trivial, fun ch _ => h ch _ _ rfl⟩

theorem exec_ok (h : Disk.exec ch (.run c) s = (.ok b, s')) :
    Disk.perform ch c s = (.ok b, s') := by
  simp only [Disk.exec] at h
  split at h
  · cases h
  · exact h

theorem gives_ask
    (h : ∀ ch b s', Disk.perform ch c s = (.ok b, s') → Gives (k b) s' Q) : Gives (ask c e >>= k) s Q := by
  refine .bind (gives_attempt fun ch r s' hexec => ?_)
  cases r with
  | ok b => exact gives_pure (h ch b s' (exec_ok hexec))
  | error f => exact gives_fail

/-- A call that leaves the disk as it is. -/
theorem gives_read (hc : ∀ ch, (Disk.perform ch c s).2 = s)
    (h : ∀ ch b, (Disk.perform ch c s).1 = .ok b → Gives (k b) s Q) : Gives (ask c e >>= k) s Q := by
  refine gives_ask fun ch b s' hperform => ?_
  have hsame : s' = s := by rw [← hc ch, hperform]
  exact hsame ▸ h ch b (by rw [hperform])

theorem gives_require {b : Bool} {e : Error} {k : Unit → Program ι α} (h : b = true → Gives (k ()) s Q) :
    Gives (Prog.require b e >>= k) s Q := by
  refine .bind ?_
  cases b with
  | true => exact gives_pure (h rfl)
  | false => exact gives_fail

theorem gives_orFail {r : Except Errno β}
    (h : ∀ b, r = .ok b → Gives (k b) s Q) : Gives (Prog.orFail r e >>= k) s Q := by
  refine .bind ?_
  cases r with
  | ok b => exact gives_pure (h b rfl)
  | error f => exact gives_fail

theorem found_ok {o : Option β} (h : Disk.found o = .ok b) : o = some b := by
  cases o with
  | none => cases h
  | some _ => exact congrArg some (Except.ok.inj h)

/-! ## The directory -/

/-- The parent and the directory of the store are what `openStore` asks for. -/
structure Opened (uid : Nat) (s : Disk ι) : Prop where
  parent : ∃ node, s.parent = some node ∧ node.kind = .directory
  base : ∃ node, s.base = some node ∧ node.kind = .directory ∧ privateDirectory uid node.info = true

/-- The directory is there, and nothing else changed. -/
structure Inspected (s s' : Disk ι) (info : Info) : Prop where
  base : s'.base.map Node.info = some info
  parent : s'.parent = s.parent
  entries : s'.entries = s.entries
  files : s'.files = s.files

theorem lstatBase_ok {info : Info} (h : Disk.perform ch .lstatBase s = (.ok info, s')) :
    s' = s ∧ s.base.map Node.info = some info := by
  obtain ⟨hinfo, rfl⟩ := Prod.mk.injEq .. ▸ h
  exact ⟨rfl, found_ok hinfo⟩

theorem lstatBase_same {r : Except Errno Info} (h : Disk.exec ch (.run .lstatBase) s = (r, s')) :
    s' = s := by
  simp only [Disk.exec] at h
  split at h <;> cases h <;> rfl

theorem gives_inspectBase :
    Gives (inspectBase uid true) s fun r s' => ∀ info, r = .ok info → Inspected s s' info := by
  refine gives_attempt fun ch r s₁ hexec => ?_
  obtain rfl := lstatBase_same hexec
  cases r with
  | ok info =>
    obtain ⟨-, hinfo⟩ := lstatBase_ok (exec_ok hexec)
    exact gives_pure fun _ h => by cases h; exact ⟨hinfo, rfl, rfl, rfl⟩
  | error e =>
    dsimp only
    split
    · refine gives_ask fun ch _ s₂ hmkdir => gives_read (fun _ => rfl) fun _ _ _ => ?_
      refine ⟨trivial, fun ch' _ r hr info hinfo => ?_⟩
      have hexec : Disk.exec ch' (.run .lstatBase) s₂ = (.ok info, (Disk.exec ch' (.run .lstatBase) s₂).2) :=
        Prod.ext ((Except.ok.inj hr).trans hinfo) rfl
      obtain ⟨hsame, hbase⟩ := lstatBase_ok (exec_ok hexec)
      simp only [Disk.perform] at hmkdir
      split at hmkdir
      · cases hmkdir
      · cases hmkdir
        show Inspected s₁ (Disk.exec ch' (.run .lstatBase) _).2 info
        rw [hsame]
        exact ⟨hbase, rfl, rfl, rfl⟩
    · split <;> exact gives_fail

theorem gives_protectRoot {opened : Info} :
    Gives (protectRoot uid true opened) s fun _ s' => ∃ node, s' = { s with base := some node } ∧
      (∀ base, s.base = some base → node.kind = base.kind) ∧ privateDirectory uid node.info = true := by
  refine gives_ask fun _ _ s₁ hchmod => gives_read (fun _ => rfl) fun _ opened' hstat => ?_
  obtain ⟨node, hnode, rfl⟩ := Option.map_eq_some_iff.mp (found_ok hstat)
  obtain rfl := (Prod.mk.inj hchmod).2
  obtain ⟨base, hbase, rfl⟩ := Option.map_eq_some_iff.mp hnode
  unfold Prog.require
  split
  · next hprivate =>
    refine gives_pure ⟨_, by rw [hbase]; rfl, fun base' hbase' => ?_, hprivate⟩
    obtain rfl := Option.some.inj (hbase.symm.trans hbase')
    rfl
  · exact gives_fail

theorem gives_openStore :
    Gives (openStore uid directory true) s fun _ s' =>
      validDirectory directory = true ∧ Opened uid s' ∧ s'.entries = s.entries ∧ s'.files = s.files := by
  refine gives_require fun hvalid => gives_read (fun _ => rfl) fun _ parentInfo hlstat => gives_require fun hkind => ?_
  obtain ⟨parent, hparent, rfl⟩ := Option.map_eq_some_iff.mp (found_ok hlstat)
  refine gives_read (fun _ => rfl) fun _ _ _ => gives_read (fun _ => rfl) fun _ _ _ => gives_require fun _ => .bind ?_
  refine Prog.wp_mono gives_inspectBase fun r s₁ hr inspected hr' => ?_
  refine gives_orFail fun info hinfo => gives_require fun hdirectory => ?_
  obtain ⟨hmap, hparent', hentries, hfiles⟩ := hr inspected hr' info hinfo
  obtain ⟨base, hbase, rfl⟩ := Option.map_eq_some_iff.mp hmap
  refine gives_read (fun _ => rfl) fun _ _ _ => gives_read (fun _ => rfl) fun _ opened _ => gives_require fun _ => ?_
  refine Prog.wp_mono gives_protectRoot fun r s₂ hr a ha => ?_
  obtain ⟨node, rfl, hnode, hprivate⟩ := hr a ha
  refine ⟨hvalid, ⟨⟨parent, hparent'.trans hparent, of_decide_eq_true hkind⟩, node, rfl, ?_, hprivate⟩, hentries, hfiles⟩
  exact (hnode base hbase).trans (of_decide_eq_true hdirectory)

/-! ## What `Install` leaves -/

/-- A call that ends the program when it fails, whatever is done before. -/
theorem gives_step {k : Except Errno β → Program ι α}
    (hok : ∀ ch b s', Disk.perform ch c s = (.ok b, s') → Gives (k (.ok b)) s' Q)
    (herror : ∀ s' e, Gives (k (.error e)) s' Q) : Gives (attempt c >>= k) s Q := by
  refine gives_attempt fun ch r s' hexec => ?_
  cases r with
  | ok b => exact hok ch b s' (exec_ok hexec)
  | error e => exact herror s' e

theorem gives_skip {e : Error} : Gives (do let _ ← attempt c; .fail e) s Q :=
  gives_attempt fun _ _ _ _ => gives_fail

theorem gives_cleanStaging {error : Error} {Q : Unit → Disk ι → Prop} : Gives (cleanStaging error) s Q := by
  refine gives_attempt fun _ r s' _ => ?_
  split
  · exact gives_step (fun _ _ _ _ => gives_fail) fun _ _ => gives_fail
  · exact gives_step (fun _ _ _ _ => gives_fail) fun _ _ => gives_fail
  · exact gives_fail

theorem gives_rollbackPublished {removeTemporary : Bool} {cause : Error} {Q : Unit → Disk ι → Prop} :
    Gives (rollbackPublished removeTemporary cause) s Q := by
  refine gives_attempt fun _ _ _ _ => ?_
  cases removeTemporary with
  | true =>
    refine gives_attempt fun _ _ _ _ => gives_attempt fun _ _ _ _ => gives_attempt fun _ _ _ _ => ?_
    split <;> exact gives_fail
  | false =>
    refine gives_attempt fun _ _ _ _ => gives_attempt fun _ _ _ _ => ?_
    split <;> exact gives_fail

/-- The staging file, with these names and these links. -/
structure Staging (uid : Nat) (raw : Bytes) (names : List String) (perm : Nat) (ino : Nat) (s₀ s : Disk ι) : Prop where
  parent : s.parent = s₀.parent
  base : s.base = s₀.base
  entries : s.entries.entries = names.map fun name => (name, ino)
  file : ∃ creator, s.files ino = some ⟨.regular, perm, uid, names.length, raw, creator⟩

variable {raw : Bytes} {names : List String} {perm ino : Nat} {s₀ : Disk ι}

theorem Staging.get? (h : Staging uid raw names perm ino s₀ s) (name : String) :
    s.entries.get? name = if name ∈ names then some ino else none := by
  split
  · next hname => exact Dict.get?_eq_some.mpr (by rw [h.entries]; exact List.mem_map.mpr ⟨name, hname, rfl⟩)
  · next hname =>
    refine Dict.get?_eq_none.mpr fun e he hn => hname ?_
    rw [h.entries] at he
    obtain ⟨n, hmem, rfl⟩ := List.mem_map.mp he
    exact hn ▸ hmem

theorem Staging.setFile (h : Staging uid raw names perm ino s₀ s) {change : File ι → File ι} {raw' : Bytes}
    {perm' : Nat} {names' : List String} {entries : Dict String Nat}
    (hentries : entries.entries = names'.map fun name => (name, ino))
    (hchange : ∀ creator, change ⟨.regular, perm, uid, names.length, raw, creator⟩ =
      ⟨.regular, perm', uid, names'.length, raw', creator⟩) :
    Staging uid raw' names' perm' ino s₀ { s.setFile ino change with entries } := by
  obtain ⟨creator, hfile⟩ := h.file
  exact ⟨h.parent, h.base, hentries, creator, by simp [Disk.setFile, hfile, hchange]⟩

theorem gives_onStaging {file : Nat} {c : Call ι Unit} {text : String} {k : Unit → Program ι α}
    (h : ∀ ch b s', Disk.perform ch c s = (.ok b, s') → Gives (k ()) s' Q) : Gives (onStaging file c text >>= k) s Q :=
  .bind (gives_step (fun ch b s' hperform => gives_pure (h ch b s' hperform)) fun _ _ => gives_skip)

theorem gives_stage {raw : Bytes} (h : Staging uid [] [temporaryName] perm ino s₀ s) :
    Gives (stage raw ino) s fun _ s' => Staging uid raw [temporaryName, bundleName] 0o600 ino s₀ s' := by
  refine gives_step (fun ch written s₁ hwrite => ?_) fun _ _ => gives_skip
  dsimp only
  split
  · exact gives_skip
  · next hwritten =>
    have h₁ : Staging uid raw [temporaryName] perm ino s₀ s₁ := by
      obtain ⟨hlength, rfl⟩ := Prod.mk.inj hwrite
      have hall : raw.take (ch.short.getD raw.length) = raw := List.IsPrefix.eq_of_length (List.take_prefix _ _)
        ((Except.ok.inj hlength).trans (not_not.mp hwritten))
      exact h.setFile h.entries fun creator => by simp only [List.nil_append, hall]
    refine gives_onStaging fun _ _ s₂ hsync => gives_onStaging fun _ _ s₃ hchmod => ?_
    have h₃ : Staging uid raw [temporaryName] 0o600 ino s₀ s₃ := by
      obtain ⟨-, rfl⟩ := Prod.mk.inj hsync
      obtain ⟨-, rfl⟩ := Prod.mk.inj hchmod
      exact h₁.setFile h₁.entries fun creator => rfl
    refine gives_read (fun _ => rfl) fun _ _ _ => gives_step (fun _ _ s₄ hlink => gives_pure ?_) fun _ _ => ?_
    · have hnew : s₃.entries.get? bundleName = none := (h₃.get? bundleName).trans (if_neg (by decide))
      simp only [Disk.perform, (h₃.get? temporaryName).trans (if_pos (by simp)), hnew] at hlink
      obtain ⟨-, rfl⟩ := Prod.mk.inj hlink
      exact h₃.setFile (by rw [Dict.entries_set_of_none hnew, h₃.entries]; rfl) fun creator => rfl
    · exact gives_step (fun _ _ _ _ => gives_fail) fun _ _ => gives_fail

theorem gives_settle {raw : Bytes} (h : Staging uid raw [temporaryName, bundleName] 0o600 ino s₀ s) :
    Gives settle s fun _ s' => Staging uid raw [bundleName] 0o600 ino s₀ s' := by
  refine gives_step (fun _ _ s₁ hremove => ?_) fun _ _ => gives_rollbackPublished
  refine gives_step (fun _ _ s₂ hsync => ?_) fun _ _ => gives_rollbackPublished
  refine gives_step (fun _ _ s₃ hsync' => gives_pure ?_) fun _ _ => gives_rollbackPublished
  simp only [Disk.perform, (h.get? temporaryName).trans (if_pos (by simp))] at hremove
  obtain ⟨-, rfl⟩ := Prod.mk.inj hremove
  obtain ⟨-, rfl⟩ := Prod.mk.inj hsync
  obtain ⟨-, rfl⟩ := Prod.mk.inj hsync'
  refine h.setFile ?_ fun creator => rfl
  show s.entries.others temporaryName = _
  rw [Dict.others, h.entries]
  rfl

theorem gives_publish {raw : Bytes} (h : s.entries.entries = []) :
    Gives (publish who uid raw) s fun _ s' => ∃ ino, Staging uid raw [bundleName] 0o600 ino s s' := by
  have hget : s.entries.get? temporaryName = none := Dict.get?_eq_none.mpr (by simp [h])
  refine gives_step (fun ch file s₁ hcreate => ?_) fun s₁ e => ?_
  · simp only [Disk.perform, hget, Option.isSome_none, Bool.false_eq_true, if_false] at hcreate
    split at hcreate
    · cases hcreate
    · obtain ⟨hfile, rfl⟩ := Prod.mk.inj hcreate
      obtain rfl := Except.ok.inj hfile
      have h₁ : Staging uid [] [temporaryName] (0o600 &&& ch.mask) ch.fresh s
          (s.newFile temporaryName ch.fresh ⟨.regular, 0o600 &&& ch.mask, uid, 1, [], some who⟩) := by
        refine ⟨rfl, rfl, ?_, some who, by simp [Disk.newFile]⟩
        show (s.entries.set temporaryName ch.fresh).entries = _
        rw [Dict.entries_set_of_none hget, h]
        rfl
      refine Prog.wp_bind.mpr (Prog.wp_attempt.mpr (Prog.wp_mono (gives_stage h₁) fun r s₂ hr => ?_))
      cases r with
      | error e => exact gives_cleanStaging
      | ok _ => exact Prog.wp_mono (gives_settle (hr () rfl)) fun r s₃ hr a ha => ⟨_, hr a ha⟩
  · cases e <;> exact gives_fail

/-- The directory holds the bundle alone, as `Load` wants it. -/
structure Stored (uid : Nat) (directory : String) (raw : Bytes) (s : Disk ι) : Prop where
  directory : validDirectory directory = true
  opened : Opened uid s
  bounded : raw.length ≤ maxBundleBytes
  bundle : ∃ ino creator, s.entries.entries = [(bundleName, ino)] ∧
    s.files ino = some ⟨.regular, 0o600, uid, 1, raw, creator⟩

/-- An occupied directory is refused, whatever `Load` finds in it. -/
theorem gives_occupied {entries : List String}
    {Q : Unit → Disk ι → Prop} : Gives (occupied crypto uid directory now entries) s Q := by
  have hany : ∀ {γ : Type} (p : Program ι γ) (s : Disk ι),
      p.wp Disk.machine (fun _ _ _ => True) (fun _ => True) (fun _ _ => True) s := by
    intro γ p
    induction p with
    | ret a => exact fun _ => trivial
    | fail e => exact fun _ => trivial
    | op o k ih => exact fun s => ⟨trivial, fun c _ => ih _ _⟩
  unfold occupied
  split
  · refine Prog.wp_bind.mpr (Prog.wp_attempt.mpr (Prog.wp_mono (hany _ s) fun r s' _ => ?_))
    cases r <;> exact gives_fail
  · exact gives_fail

theorem gives_readEntries {k : List String → Program ι α}
    (h : (s.entries.entries = [] → Gives (k []) s Q)) (hother : ∀ names, names ≠ [] → Gives (k names) s Q) :
    Gives (readEntries >>= k) s Q := by
  refine .bind (gives_read (fun _ => rfl) fun _ names hnames => gives_require fun _ => gives_pure ?_)
  obtain rfl := Except.ok.inj hnames
  cases hentries : s.entries.entries with
  | nil => exact h hentries
  | cons e rest => exact hother _ (by simp)

theorem gives_installBundle {raw : Bytes} :
    Gives (installBundle crypto who uid directory now raw) s fun _ s' => Stored uid directory raw s' := by
  refine gives_require fun hbound => .bind (Prog.wp_mono gives_openStore fun r s₁ hr a ha => ?_)
  obtain ⟨hvalid, hopened, -, -⟩ := hr a ha
  refine gives_readEntries (fun hempty => ?_) fun names hnames => ?_
  · rw [if_neg (by simp)]
    refine Prog.wp_mono (gives_publish hempty) fun r s₂ hr a ha => ?_
    obtain ⟨ino, hparent, hbase, hentries, creator, hfile⟩ := hr a ha
    refine ⟨hvalid, ⟨?_, ?_⟩, of_decide_eq_true hbound, ino, creator, hentries, hfile⟩
    · rw [hparent]
      exact hopened.parent
    · rw [hbase]
      exact hopened.base
  · rw [if_pos hnames]
    exact gives_occupied

/-! ## What `Load` finds -/

theorem finish_then {p : Program ι β} {f : β → Program ι α} (h : p.finish Disk.machine calm s = (.ok b, s')) :
    (p >>= f).finish Disk.machine calm s = (f b).finish Disk.machine calm s' := by
  rw [Prog.finish_bind, h]

/-- A call that finds what it looks for. -/
theorem finish_ask {c : Call ι α} {a : α} (h : Disk.perform calm c s = (.ok a, s)) :
    (ask c e).finish Disk.machine calm s = (.ok a, s) :=
  finish_then (show (attempt c).finish Disk.machine calm s = (.ok (.ok a), s) from
    congrArg (fun r : Except Errno α × Disk ι => (Except.ok r.1, r.2)) h)

theorem finish_require {b : Bool} {e : Error} (h : b = true) :
    (Prog.require b e : Program ι Unit).finish Disk.machine calm s = (.ok (), s) := by
  rw [h]
  rfl

theorem finish_openStore (hvalid : validDirectory directory = true) (h : Opened uid s) :
    (openStore uid directory false).finish Disk.machine calm s = (.ok (), s) := by
  obtain ⟨parent, hparent, hkind⟩ := h.parent
  obtain ⟨base, hbase, hdirectory, hprivate⟩ := h.base
  have hlstatBase : Disk.perform calm .lstatBase s = (.ok base.info, s) := by simp [Disk.perform, hbase, Disk.found]
  have hinspect : (inspectBase uid false).finish Disk.machine calm s = (.ok (.ok base.info), s) :=
    (finish_then (congrArg (fun r : Except Errno Info × Disk ι => (Except.ok r.1, r.2)) hlstatBase)).trans rfl
  refine (finish_then (finish_require hvalid)).trans ?_
  refine (finish_then (finish_ask (a := parent.info) (by simp [Disk.perform, hparent, Disk.found]))).trans ?_
  refine (finish_then (finish_require (decide_eq_true hkind))).trans ?_
  refine (finish_then (finish_ask (a := ()) (by simp [Disk.perform, hparent, Disk.found]))).trans ?_
  refine (finish_then (finish_ask (a := parent.info) (by simp [Disk.perform, hparent, Disk.found]))).trans ?_
  refine (finish_then (finish_require (decide_eq_true rfl))).trans ?_
  refine (finish_then hinspect).trans ((finish_then rfl).trans ?_)
  refine (finish_then (finish_require (decide_eq_true hdirectory))).trans ?_
  refine (finish_then (finish_ask (a := ()) (by simp [Disk.perform, hbase, Disk.found]))).trans ?_
  refine (finish_then (finish_ask (a := base.info) (by simp [Disk.perform, hbase, Disk.found]))).trans ?_
  refine (finish_then (finish_require (decide_eq_true rfl))).trans ?_
  exact finish_require hprivate

theorem finish_load (crypto : Crypto) (now : Protocol.Time) {raw : Bytes}
    (h : Stored uid directory raw s) (hraw : raw ≠ []) :
    (load crypto uid directory now).finish Disk.machine calm s = (loadBundle crypto now raw, s) := by
  obtain ⟨ino, creator, hentries, hfile⟩ := h.bundle
  have hget : s.entries.get? bundleName = some ino := Dict.get?_eq_some.mpr (by simp [hentries])
  have hnamed : s.named bundleName = some (ino, ⟨.regular, 0o600, uid, 1, raw, creator⟩) := by
    simp [Disk.named, hget, hfile]
  have hlength : 1 ≤ raw.length := List.length_pos_of_ne_nil hraw
  have hbound := h.bounded
  have hlist : (readEntries : Program ι (List String)).finish Disk.machine calm s = (.ok [bundleName], s) := by
    refine (finish_then (finish_ask (a := [bundleName]) ?_)).trans ?_
    · simp [Disk.perform, hentries]
    · rfl
  have hread : (readBundle uid : Program ι Bytes).finish Disk.machine calm s = (.ok raw, s) := by
    refine (finish_then (finish_ask (a := ⟨ino, .regular, 0o600, uid, 1, raw.length⟩) ?_)).trans ?_
    · simp [Disk.perform, hnamed, Disk.found, File.info]
    refine (finish_then (finish_require ?_)).trans ?_
    · simp [privateFile, hlength, hbound]
    refine (finish_then (finish_ask (a := ino) ?_)).trans ?_
    · simp [Disk.perform, hnamed, Disk.found]
    refine (finish_then (finish_ask (a := ⟨ino, .regular, 0o600, uid, 1, raw.length⟩) ?_)).trans ?_
    · simp [Disk.perform, hfile, Disk.found, File.info]
    refine (finish_then (finish_require (decide_eq_true rfl))).trans ?_
    refine (finish_then (finish_ask (a := raw) ?_)).trans ?_
    · simp only [Disk.perform, hfile, Option.map_some, Disk.found]
      rw [List.take_of_length_le (by omega)]
    exact (finish_then (finish_require (decide_eq_true hbound))).trans rfl
  have hattempt : (readEntries.attempt : Program ι (Except Error (List String))).finish Disk.machine calm s =
      (.ok (.ok [bundleName]), s) := by
    rw [Prog.finish_attempt, hlist]
  refine (finish_then (finish_openStore h.directory h.opened)).trans ((finish_then hattempt).trans ?_)
  refine (finish_then (finish_require (decide_eq_true rfl))).trans ((finish_then hread).trans ?_)
  cases loadBundle crypto now raw <;> rfl

/-- The bundle is never empty. -/
theorem marshalBundle_ne_nil (material : Material) : marshalBundle material ≠ [] := by
  intro h
  have hdecode := decodeBundle_marshalBundle material
  rw [h] at hdecode
  have hempty : decodeBundle [] = none := by decide
  rw [hempty] at hdecode
  cases hdecode

/-- What `Load` answers about a stored material. -/
theorem loadBundle_marshalBundle (crypto : Crypto) (material : Material) (now : Protocol.Time) :
    loadBundle crypto now (marshalBundle material) =
      match validateMaterial crypto (storedBundle material).material now with
      | .error _ => .error .corrupt
      | .ok (certificate, roots) => .ok ⟨material.endpointID, certificate, roots⟩ := by
  rw [loadBundle, decodeBundle_marshalBundle]
  rfl

/-! ## Installed identities -/

/-- The identity loads: `Load` returns what `validateMaterial` accepted, and the bundle
on disk decodes to the bytes that were given. -/
def LoadsBack (crypto : Crypto) (uid : Nat) (directory : String) (material : Material) (now : Protocol.Time)
    (s : Disk ι) : Prop :=
  (∃ certificate roots, validateMaterial crypto material now = .ok (certificate, roots) ∧
    ((load crypto uid directory now).finish Disk.machine calm s).1 = .ok ⟨material.endpointID, certificate, roots⟩) ∧
  ∃ ino f bundle, s.entries.get? bundleName = some ino ∧ s.files ino = some f ∧ decodeBundle f.content = some bundle ∧
    bundle.material = material

theorem install_stored {material : Material}
    {plan : List Choice}
    (h : (install crypto who uid directory material now).run Disk.machine plan s = (some (.ok ()), s')) :
    Stored uid directory (marshalBundle material) s' ∧ ∃ parsed, validateMaterial crypto material now = .ok parsed := by
  have hgives : Gives (install crypto who uid directory material now) s fun _ s' =>
      Stored uid directory (marshalBundle material) s' ∧
        ∃ parsed, validateMaterial crypto material now = .ok parsed := by
    unfold install
    generalize marshalBundle material = raw
    refine .bind ?_
    cases validateMaterial crypto material now with
    | error e => exact gives_fail
    | ok parsed =>
      refine gives_pure (Prog.wp_mono gives_installBundle fun r s₁ hr a ha => ?_)
      exact ⟨hr a ha, parsed, rfl⟩
  have hrun := Prog.run_of_wp hgives fun (c : Choice) (_ : c ∈ plan) _ _ => trivial
  rw [h] at hrun
  exact hrun () rfl

/-- **An installed identity loads exactly when its PEM strings are UTF-8.** -/
theorem installed_identity_loads_iff (crypto : Crypto) (who : ι) (uid : Nat) (directory : String) (material : Material)
    (now : Protocol.Time) (plan : List Choice) (s s' : Disk ι)
    (h : (install crypto who uid directory material now).run Disk.machine plan s = (some (.ok ()), s')) :
    LoadsBack crypto uid directory material now s' ↔ material.isUtf8 = true := by
  obtain ⟨hstored, ⟨certificate, roots⟩, hvalid⟩ := install_stored h
  have hdecode := decodeBundle_marshalBundle material
  have hload := loadBundle_marshalBundle crypto material now
  have hne := marshalBundle_ne_nil material
  clear h
  generalize marshalBundle material = raw at hstored hdecode hload hne
  obtain ⟨ino, creator, hentries, hfile⟩ := hstored.bundle
  have hget : s'.entries.get? bundleName = some ino := Dict.get?_eq_some.mpr (by simp [hentries])
  constructor
  · rintro ⟨-, ino', f, bundle, hget', hfile', hdecode', hmaterial⟩
    obtain rfl := Option.some.inj (hget.symm.trans hget')
    obtain rfl := Option.some.inj (hfile.symm.trans hfile')
    obtain rfl := Option.some.inj (hdecode.symm.trans hdecode')
    exact material_storedBundle.mp hmaterial
  · intro hutf8
    have hmaterial := material_storedBundle.mpr hutf8
    refine ⟨⟨certificate, roots, hvalid, ?_⟩, ino, _, _, hget, hfile, hdecode, hmaterial⟩
    rw [finish_load crypto now hstored hne, hload, hmaterial, hvalid]

/-! ### An identity that does not load -/

/-- The directory of a fresh host. -/
def emptyDisk : Disk Unit :=
  ⟨some ⟨1, .directory, 0o755, 0⟩, some ⟨2, .directory, 0o700, 0⟩, .empty, fun _ => none⟩

theorem finish_write (raw : Bytes) (file : Nat) (s : Disk ι) :
    (attempt (.write file raw)).finish Disk.machine calm s =
      (.ok (.ok raw.length), s.setFile file fun f => { f with content := f.content ++ raw }) := by
  show (Except.ok (Except.ok (raw.take raw.length).length),
    s.setFile file fun f => { f with content := f.content ++ raw.take raw.length }) = _
  rw [List.take_length]

/-- The directory with the new staging file in it. -/
def created : Disk Unit := emptyDisk.newFile temporaryName 0 ⟨.regular, 0o600, 0, 1, [], some ()⟩

theorem finish_stage_created (raw : Bytes) : (stage raw 0).finish Disk.machine calm created =
    (.ok (), (Disk.perform calm (.link temporaryName bundleName) (Disk.perform calm (.chmod 0 0o600)
      (created.setFile 0 fun f => { f with content := f.content ++ raw })).2).2) := by
  refine (finish_then (finish_write _ _ _)).trans ?_
  dsimp only
  rw [if_neg (by simp)]
  rfl

/-- In the fresh directory every bundle that is not too long is installed. -/
theorem finish_installBundle (crypto : Crypto) (now : Protocol.Time) {raw : Bytes} (h : raw.length ≤ maxBundleBytes) :
    ((installBundle crypto () 0 "/var/lib/rmm/identity" now raw).finish Disk.machine calm emptyDisk).1 = .ok () := by
  have hopen : (openStore 0 "/var/lib/rmm/identity" true : Program Unit Unit).finish Disk.machine calm emptyDisk =
      (.ok (), emptyDisk) := by
    have hvalid : validDirectory "/var/lib/rmm/identity" = true := by decide +kernel
    exact (finish_then (finish_require hvalid)).trans rfl
  have hpublish : ((publish () 0 raw).finish Disk.machine calm emptyDisk).1 = .ok () := by
    have hcreate : (attempt (.create () 0 temporaryName 0o600) : Program Unit (Except Errno Nat)).finish Disk.machine
        calm emptyDisk = (.ok (.ok 0), created) := rfl
    have hstage : ((stage raw 0).attempt : Program Unit (Except Error Unit)).finish Disk.machine calm created = _ :=
      Prog.finish_attempt
    rw [finish_stage_created] at hstage
    rw [publish, finish_then hcreate]
    dsimp only
    rw [finish_then hstage]
    rfl
  rw [installBundle, finish_then (finish_require (decide_eq_true h)), finish_then hopen]
  exact hpublish

/-- A valid material is installed there, and `Load` then reads what it can be read back as. -/
theorem installed_there (crypto : Crypto) (now : Protocol.Time) {material : Material} {parsed : KeyPair × List Certificate}
    (hvalid : validateMaterial crypto material now = .ok parsed) (h : (marshalBundle material).length ≤ maxBundleBytes) :
    ∃ plan s', (install crypto () 0 "/var/lib/rmm/identity" material now).run Disk.machine plan emptyDisk =
        (some (.ok ()), s') ∧
      ((load crypto 0 "/var/lib/rmm/identity" now).finish Disk.machine calm s').1 =
        loadBundle crypto now (marshalBundle material) := by
  have hinstall : ((install crypto () 0 "/var/lib/rmm/identity" material now).finish Disk.machine calm emptyDisk).1 =
      .ok () := by
    have hbundle := finish_installBundle crypto now h
    unfold install
    generalize marshalBundle material = raw at hbundle ⊢
    rw [hvalid, Prog.finish_bind]
    exact hbundle
  obtain ⟨plan, hplan⟩ := Prog.run_of_finish (M := Disk.machine) (c := calm)
    (install crypto () 0 "/var/lib/rmm/identity" material now) emptyDisk
  rw [hinstall] at hplan
  refine ⟨plan, _, hplan, ?_⟩
  rw [finish_load crypto now (install_stored hplan).1 (marshalBundle_ne_nil material)]

/-- A PEM block. -/
def pemText (kind body : String) : List Char :=
  ("-----BEGIN " ++ kind ++ "-----\n" ++ body ++ "\n-----END " ++ kind ++ "-----\n").toList

/-- The blocks of the example: the leaf, its authority and the key. -/
def blocks : List (String × String × Bytes) :=
  [("CERTIFICATE", "AA==", [0]), ("CERTIFICATE", "AQ==", [1]), ("PRIVATE KEY", "Ag==", [2])]

def leafCertificate : Certificate where
  isCA := false
  notBefore := 0
  notAfter := 2000000000000000000
  keyUsage := keyUsageDigitalSignature
  extKeyUsage := [.clientAuth]
  unknownExtKeyUsage := []
  unhandledCriticalExtensions := []
  uris := ["urn:northgate-rmm:endpoint:00000000-0000-4000-8000-000000000001"]

def authorityCertificate : Certificate where
  isCA := true
  notBefore := 0
  notAfter := 2000000000000000000
  keyUsage := keyUsageCertSign
  extKeyUsage := []
  unknownExtKeyUsage := []
  unhandledCriticalExtensions := []
  uris := []

/-- PEM decoding of these blocks, which passes over the text before a block, and
certificates with these bytes. -/
def example509 : Crypto where
  pemDecode raw :=
    let rest := raw.dropWhile (· ≠ 45)
    (blocks.find? fun b => (encode (pemText b.1 b.2.1)).isPrefixOf rest).map fun b =>
      (⟨b.1, [], b.2.2⟩, rest.drop (encode (pemText b.1 b.2.1)).length)
  parseCertificate bytes := if bytes = [0] then some leafCertificate else if bytes = [1] then some authorityCertificate else none
  x509KeyPair _ _ := some ⟨[[0], [1]], .ecdsa .p256 7, none⟩
  verify _ _ _ _ := true

/-- The private key stands after a line of 5,500 bytes that are no UTF-8. -/
def latinMaterial : Material where
  endpointID := "00000000-0000-4000-8000-000000000001"
  clientCertificatePEM := encode (pemText "CERTIFICATE" "AA==" ++ pemText "CERTIFICATE" "AQ==")
  privateKeyPEM := List.replicate 5500 0xff ++ encode ('\n' :: pemText "PRIVATE KEY" "Ag==")
  serverRootsPEM := encode (pemText "CERTIFICATE" "AQ==")

def noon : Protocol.Time := ⟨1000000000000000000, 0⟩

theorem certificateBlocks_cons {blocks : Nat} {rest remaining : Bytes} {block : Block}
    {certificate : Certificate} {certificates : List Certificate} (hblank : blank rest = false)
    (hdecode : crypto.pemDecode rest = some (block, remaining)) (htype : block.type = "CERTIFICATE")
    (hheaders : block.headers = []) (hshorter : remaining.length < rest.length)
    (hparse : crypto.parseCertificate block.bytes = some certificate)
    (hrest : certificateBlocks crypto blocks remaining = some certificates) :
    certificateBlocks crypto (blocks + 1) rest = some (certificate :: certificates) := by
  simp [certificateBlocks, hblank, hdecode, htype, hheaders, Nat.not_le.mpr hshorter, hparse, hrest]

theorem dropWhile_replicate (n : Nat) (raw : Bytes) :
    (List.replicate n (0xff : UInt8) ++ raw).dropWhile (· ≠ 45) = raw.dropWhile (· ≠ 45) := by
  induction n with
  | zero => rfl
  | succ n ih => rwa [List.replicate_succ, List.cons_append, List.dropWhile_cons_of_pos (by decide)]

/-- Each byte that is no UTF-8 comes back as three. -/
theorem length_repaired (n : Nat) (text : List Char) :
    (Wire.encodeUtf8 (repaired (List.replicate n 0xff ++ encode text))).length = 3 * n + (encode text).length := by
  have hreplaced : (encode (List.replicate n '\ufffd')).length = 3 * n := by
    induction n with
    | zero => rfl
    | succ n ih =>
      have hmark : (String.utf8EncodeChar '\ufffd').length = 3 := by decide
      rw [List.replicate_succ, encode_cons, List.length_append, hmark, ih]
      omega
  have htext : (text.map some).map (·.getD '\ufffd') = text := by
    rw [List.map_map]
    exact List.map_id _
  rw [Wire.encodeUtf8, toByteArray_eq, repaired, String.toList_ofList, runes_replicate, runes_text, List.map_append,
    List.map_replicate, htext, encode_append, List.length_append, Option.getD_none, hreplaced]

theorem blank_encode (text : List Char) : blank (encode text) = text.all isSpace := by
  rw [blank, runes_text, List.all_map]
  rfl

/-- The material is valid. -/
theorem validate_latinMaterial : validateMaterial example509 latinMaterial noon =
    .ok (⟨[[0], [1]], .ecdsa .p256 7, some leafCertificate⟩, [authorityCertificate]) := by
  have hleaf : example509.pemDecode latinMaterial.clientCertificatePEM =
      some (⟨"CERTIFICATE", [], [0]⟩, encode (pemText "CERTIFICATE" "AQ==")) := by decide +kernel
  have hauthority : example509.pemDecode (encode (pemText "CERTIFICATE" "AQ==")) =
      some (⟨"CERTIFICATE", [], [1]⟩, encode []) := by decide +kernel
  have hkey : example509.pemDecode latinMaterial.privateKeyPEM = some (⟨"PRIVATE KEY", [], [2]⟩, encode []) := by
    have hblock : example509.pemDecode (encode ('\n' :: pemText "PRIVATE KEY" "Ag==")) =
        some (⟨"PRIVATE KEY", [], [2]⟩, encode []) := by decide +kernel
    rw [← hblock]
    simp only [example509, latinMaterial, dropWhile_replicate]
  have hblank : blank latinMaterial.clientCertificatePEM = false ∧ blank (encode (pemText "CERTIFICATE" "AQ==")) = false ∧
      blank (encode []) = true := by
    simp only [latinMaterial, blank_encode]
    decide +kernel
  have hlengths : latinMaterial.clientCertificatePEM.length = 118 ∧ (encode (pemText "CERTIFICATE" "AQ==")).length = 59 := by
    decide +kernel
  have hparse : example509.parseCertificate [0] = some leafCertificate ∧
      example509.parseCertificate [1] = some authorityCertificate := ⟨rfl, rfl⟩
  have hempty : certificateBlocks example509 6 (encode []) = some [] ∧ certificateBlocks example509 7 (encode []) = some [] := by
    simp [certificateBlocks, hblank]
  have hroots : parseCertificates example509 latinMaterial.serverRootsPEM maxCertificateCount =
      some [authorityCertificate] := by
    have hblocks : certificateBlocks example509 8 (encode (pemText "CERTIFICATE" "AQ==")) = some [authorityCertificate] :=
      certificateBlocks_cons hblank.2.1 hauthority rfl rfl (by rw [hlengths.2]; decide) hparse.2 hempty.2
    exact congrArg (Option.bind · _) hblocks
  have hclient : parseCertificates example509 latinMaterial.clientCertificatePEM maxCertificateCount =
      some [leafCertificate, authorityCertificate] := by
    have hblocks : certificateBlocks example509 8 latinMaterial.clientCertificatePEM =
        some [leafCertificate, authorityCertificate] :=
      certificateBlocks_cons hblank.1 hleaf rfl rfl (by simp [hlengths]) hparse.1
        (certificateBlocks_cons hblank.2.1 hauthority rfl rfl (by rw [hlengths.2]; decide) hparse.2 hempty.1)
    exact congrArg (Option.bind · _) hblocks
  have hkeyPEM : validatePrivateKeyPEM example509 latinMaterial.privateKeyPEM = true := by
    rw [validatePrivateKeyPEM, hkey]
    simp [hblank]
  have hlimits : withinLimit latinMaterial.clientCertificatePEM maxClientCertificateBytes = true ∧
      withinLimit latinMaterial.privateKeyPEM maxPrivateKeyBytes = true ∧
      withinLimit latinMaterial.serverRootsPEM maxServerRootsBytes = true := by
    have hkeyLength : latinMaterial.privateKeyPEM.length = 5560 := by
      have hrest : (encode ('\n' :: pemText "PRIVATE KEY" "Ag==")).length = 60 := by decide +kernel
      rw [latinMaterial, List.length_append, List.length_replicate, hrest]
    refine ⟨by rw [withinLimit, hlengths.1]; decide, by rw [withinLimit, hkeyLength]; decide, ?_⟩
    show withinLimit (encode (pemText "CERTIFICATE" "AQ==")) maxServerRootsBytes = true
    rw [withinLimit, hlengths.2]
    decide
  have hid : Wire.uuidPattern latinMaterial.endpointID = true := by decide +kernel
  have hpair : example509.x509KeyPair latinMaterial.clientCertificatePEM latinMaterial.privateKeyPEM =
      some ⟨[[0], [1]], .ecdsa .p256 7, none⟩ := rfl
  simp only [validateMaterial, hid, hlimits, hclient, hkeyPEM, hpair, hroots]
  rfl

/-- The bundle is within its limit. -/
theorem length_latinBundle : (marshalBundle latinMaterial).length ≤ maxBundleBytes := by
  have hpieces : ∀ n, (encode ((List.replicate n (Json.Piece.unit 0xfffd)).flatMap Json.Piece.render)).length = 6 * n := by
    intro n
    induction n with
    | zero => rfl
    | succ n ih =>
      have hunit : (encode (Json.Piece.unit 0xfffd).render).length = 6 := by decide
      rw [List.replicate_succ, List.flatMap_cons, encode_append, List.length_append, hunit, ih]
      omega
  have htext : ∀ text, literalOfBytes (encode text) = text.map GoJson.piece := by
    intro text
    rw [literalOfBytes, runes_text, List.map_map]
    rfl
  have hid : literalBytes (GoJson.literalOf latinMaterial.endpointID) = 38 := by decide +kernel
  have hclient : literalBytes (literalOfBytes latinMaterial.clientCertificatePEM) = 126 := by
    rw [latinMaterial, htext]
    decide +kernel
  have hroots : literalBytes (literalOfBytes latinMaterial.serverRootsPEM) = 64 := by
    rw [latinMaterial, htext]
    decide +kernel
  have hkey : literalBytes (literalOfBytes latinMaterial.privateKeyPEM) = 33066 := by
    have hliteral : literalOfBytes latinMaterial.privateKeyPEM =
        List.replicate 5500 (.unit 0xfffd) ++ ('\n' :: pemText "PRIVATE KEY" "Ag==").map GoJson.piece := by
      rw [latinMaterial, literalOfBytes, runes_replicate, runes_text, List.map_append, List.map_replicate, List.map_map]
      rfl
    have hrest : (encode ((('\n' :: pemText "PRIVATE KEY" "Ag==").map GoJson.piece).flatMap Json.Piece.render)).length =
        64 := by decide +kernel
    have hquote : (encode ['\x22']).length = 1 := by decide
    rw [literalBytes, hliteral, Json.renderLiteral, List.flatMap_append, ← List.singleton_append, encode_append,
      encode_append, encode_append, List.length_append, List.length_append, List.length_append, hpieces, hrest, hquote]
  rw [length_marshalBundle, hid, hclient, hkey, hroots]
  decide

/-- What is read back of the key is too long. -/
theorem validate_latinStored :
    validateMaterial example509 (storedBundle latinMaterial).material noon =
      .error "endpoint identity material is outside size limits" := by
  have hlength : (storedBundle latinMaterial).material.privateKeyPEM.length = 16560 := by
    have hrest : (encode ('\n' :: pemText "PRIVATE KEY" "Ag==")).length = 60 := by decide +kernel
    show (Wire.encodeUtf8 (repaired latinMaterial.privateKeyPEM)).length = 16560
    rw [latinMaterial, length_repaired, hrest]
  have hid : Wire.uuidPattern (storedBundle latinMaterial).material.endpointID = true := by decide +kernel
  have hlimit : withinLimit (storedBundle latinMaterial).material.privateKeyPEM maxPrivateKeyBytes = false := by
    rw [withinLimit, hlength]
    decide
  simp only [validateMaterial, hid, hlimit, Bool.not_false, Bool.or_true, Bool.true_or]
  rfl

/-- The material is installed and does not load. -/
theorem unreadable_identity : ∃ plan s',
    (install example509 () 0 "/var/lib/rmm/identity" latinMaterial noon).run Disk.machine plan emptyDisk =
      (some (.ok ()), s') ∧
    ((load example509 0 "/var/lib/rmm/identity" noon).finish Disk.machine calm s').1 = .error .corrupt := by
  obtain ⟨plan, s', hrun, hload⟩ := installed_there example509 noon validate_latinMaterial length_latinBundle
  refine ⟨plan, s', hrun, hload.trans ?_⟩
  rw [loadBundle_marshalBundle, validate_latinStored]

theorem latin_identity_loads_iff : ∃ plan s',
    (install example509 () 0 "/var/lib/rmm/identity" latinMaterial noon).run Disk.machine plan emptyDisk =
      (some (.ok ()), s') ∧
    (LoadsBack example509 0 "/var/lib/rmm/identity" latinMaterial noon s' ↔ latinMaterial.isUtf8 = true) := by
  obtain ⟨plan, s', hrun, -⟩ := installed_there example509 noon validate_latinMaterial length_latinBundle
  exact ⟨plan, s', hrun, installed_identity_loads_iff _ _ _ _ _ _ _ _ _ hrun⟩

end NorthgateRmm.Agent.Identity
