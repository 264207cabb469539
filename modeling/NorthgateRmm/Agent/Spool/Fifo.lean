import NorthgateRmm.Agent.Spool.Faults
import NorthgateRmm.Agent.Spool.Process

/-!
# The spool as a queue

A session opens and closes the spool and makes calls, and no step fails. What the callers
expect of it is a list of IDs: `Enqueue` appends one, `Acknowledge` and `Quarantine` remove
one. The orders of the records are recomputed from whatever is left in the three
directories, so they are used again; the invariant relates the list to the orders that the
active records have now.
-/

namespace NorthgateRmm.Agent.Spool

open CrashFs

variable {P : Type} [Payload P] {s s' : Disk P} {l : List Uuid}

/-! ## The active records as a list -/

/-- The active record of `a` has a smaller order than that of `b`. -/
def Before (s : Disk P) (a b : Uuid) : Prop :=
  ∀ i j r r', s.image .root (.record a) = some i → s.image .root (.record b) = some j → s.files i = .record r →
    s.files j = .record r' → r.order < r'.order

/-- The list has the IDs of the active records, in ascending order of the records. -/
structure Lists (s : Disk P) (l : List Uuid) : Prop where
  mem : ∀ id, id ∈ l ↔ s.image .root (.record id) ≠ none
  nodup : l.Nodup
  sorted : l.Pairwise (Before s)

/-- The active records of `s'` are those of `s` that are not `gone`. -/
structure Leaves (gone : Uuid → Prop) (s s' : Disk P) : Prop where
  kept : ∀ x, ¬ gone x → s'.image .root (.record x) = s.image .root (.record x)
  gone : ∀ x, gone x → s'.image .root (.record x) = none
  files : ∀ x i, s'.image .root (.record x) = some i → s'.files i = s.files i

theorem Lists.leaves {gone : Uuid → Prop} [DecidablePred gone] (h : Lists s l) (hl : Leaves gone s s') :
    Lists s' (l.filter fun x => ¬ gone x) where
  mem x := by
    rw [List.mem_filter, h.mem, decide_eq_true_eq]
    by_cases hx : gone x
    · simp [hx, hl.gone x hx]
    · simp [hx, hl.kept x hx]
  nodup := h.nodup.filter _
  sorted := by
    refine (h.sorted.filter _).imp_of_mem fun {a b} ha hb hab i j r r' hi hj hr hr' => ?_
    have ha' : ¬ gone a := of_decide_eq_true (List.mem_filter.mp ha).2
    have hb' : ¬ gone b := of_decide_eq_true (List.mem_filter.mp hb).2
    rw [hl.files a i hi] at hr
    rw [hl.files b j hj] at hr'
    rw [hl.kept a ha'] at hi
    rw [hl.kept b hb'] at hj
    exact hab i j r r' hi hj hr hr'

theorem Lists.same (h : Lists s l) (hl : Leaves (fun _ => False) s s') : Lists s' l := by
  simpa using h.leaves hl

section Inv

variable {strict : Prop} {q : Queue} {kept : List (Record P)}

/-- A new record with a greater order goes to the end. -/
theorem Lists.published (h : Lists s l) (hinv : Inv strict q.maxBytes kept s) {item : Record P}
    (hfree : s.image .root (.record item.id) = none) (horder : (inventoryOf s).lastOrder < item.order) :
    Lists (published s item) (l ++ [item.id]) := by
  have himage := image_published hinv.settled (staging_none hinv.sound.consistent item.id)
  have hbound := hinv.sound.bounded
  have hself : (Spool.published s item).image .root (.record item.id) = some s.next := by
    rw [himage, Function.update_self, Function.update_self]
  have hother : ∀ x, x ≠ item.id → (Spool.published s item).image .root (.record x) = s.image .root (.record x) := by
    intro x hx
    rw [himage, Function.update_self, Function.update_of_ne fun h => hx (Name.record.inj h)]
  have hfiles : ∀ i, i < s.next → (Spool.published s item).files i = s.files i := by
    intro i hi
    show Function.update (Function.update s.files s.next .blank) s.next (.record item) i = s.files i
    rw [Function.update_of_ne (Nat.ne_of_lt hi), Function.update_of_ne (Nat.ne_of_lt hi)]
  have hnotMem : ∀ x ∈ l, x ≠ item.id := by
    rintro x hx rfl
    exact (h.mem item.id).1 hx hfree
  refine ⟨fun x => ?_, ?_, ?_⟩
  · rw [List.mem_append, List.mem_singleton, h.mem]
    by_cases hx : x = item.id
    · simp [hx, hself]
    · simp [hx, hother x hx]
  · refine List.nodup_append.2 ⟨h.nodup, List.nodup_singleton _, fun x hx y hy => ?_⟩
    rw [List.mem_singleton.1 hy]
    exact hnotMem x hx
  · rw [List.pairwise_append]
    refine ⟨h.sorted.imp_of_mem fun {a b} ha hb hab i j r r' hi hj hr hr' => ?_, List.pairwise_singleton _ _,
      fun a ha b hb i j r r' hi hj hr hr' => ?_⟩
    · rw [hother a (hnotMem a ha)] at hi
      rw [hother b (hnotMem b hb)] at hj
      rw [hfiles i (hbound _ _ i hi)] at hr
      rw [hfiles j (hbound _ _ j hj)] at hr'
      exact hab i j r r' hi hj hr hr'
    · rw [hother a (hnotMem a ha)] at hi
      rw [hfiles i (hbound _ _ i hi)] at hr
      obtain rfl := List.mem_singleton.1 hb
      rw [hself] at hj
      obtain rfl := Option.some.inj hj
      rw [show (Spool.published s item).files s.next = .record item from Function.update_self ..] at hr'
      obtain rfl : item = r' := Content.record.inj hr'
      have := le_lastOrder (mem_liveOrders (d := .root) (by decide) hi hr)
      omega

/-- What `inventoryLocked` reports is such a list. -/
theorem lists_of_scannable (hscan : Scannable q s) : Lists s ((inventoryOf s).records.map (·.id)) := by
  have hread := hscan.active
  have hperm := perm_sortByOrder ((dataOf s).map (describe s.files))
  -- each reported record is the active record of its ID
  have hrecord : ∀ m ∈ (inventoryOf s).records, ∃ i r, s.image .root (.record m.id) = some i ∧ s.files i = .record r ∧
      r.order = m.order := by
    intro m hm
    obtain ⟨e, he, rfl⟩ := List.mem_map.1 (hperm.mem_iff.1 hm)
    obtain ⟨r, hr⟩ := hread e he
    obtain ⟨hi, -⟩ := mem_dataOf.1 he
    refine ⟨e.2, r, ?_, hr.content, ?_⟩
    · rw [hr.describe_eq, ← show e.1 = .record r.id from hr.name, hi]
    · rw [hr.describe_eq]
  have horders : ((inventoryOf s).records.map (·.order)).Nodup :=
    ((hperm.map (·.order)).nodup_iff).2 (nodup_liveOrders.1 hscan.orders).1
  refine ⟨fun x => ?_, ?_, ?_⟩
  · rw [List.mem_map]
    constructor
    · rintro ⟨m, hm, rfl⟩
      obtain ⟨i, r, hi, -, -⟩ := hrecord m hm
      rw [hi]
      exact nofun
    · intro hx
      obtain ⟨i, hi⟩ := Option.ne_none_iff_exists'.1 hx
      have he : (Name.record x, i) ∈ dataOf s := mem_dataOf.2 ⟨hi, rfl⟩
      obtain ⟨r, hr⟩ := hread _ he
      refine ⟨_, hperm.mem_iff.2 (List.mem_map_of_mem he), ?_⟩
      rw [hr.describe_eq]
      exact (Name.record.inj hr.name).symm
  · refine ((hperm.map (·.id)).nodup_iff).2 (List.Nodup.of_map Name.record ?_)
    rw [List.map_map]
    have := nodup_dataOf s
    rwa [← names_describe hread] at this
  · rw [List.pairwise_map]
    have hle := pairwise_sortByOrder ((dataOf s).map (describe s.files))
    have hne : (inventoryOf s).records.Pairwise fun a b => a.order ≠ b.order := List.pairwise_map.1 horders
    refine (hle.and hne).imp_of_mem fun {a b} ha hb hab i j r r' hi hj hr hr' => ?_
    obtain ⟨i', ra, hi', hra, hoa⟩ := hrecord a ha
    obtain ⟨j', rb, hj', hrb, hob⟩ := hrecord b hb
    rw [hi] at hi'
    rw [hj] at hj'
    obtain rfl := Option.some.inj hi'
    obtain rfl := Option.some.inj hj'
    obtain rfl := Content.record.inj (hr.symm.trans hra)
    obtain rfl := Content.record.inj (hr'.symm.trans hrb)
    have := hab.1
    have := hab.2
    omega

/-- `inventoryLocked` reports the records in the order of the list. -/
theorem Lists.inventory (h : Lists s l) (hinv : Inv strict q.maxBytes kept s) :
    (inventoryOf s).records.map (·.id) = l := by
  have hl := lists_of_scannable (scannable_of_sound (q := q) hinv.sound hinv.separate)
  refine List.Perm.eq_of_pairwise (fun a b ha hb (hab : Before s a b) (hba : Before s b a) => ?_) hl.sorted h.sorted
    ((List.perm_ext_iff_of_nodup hl.nodup h.nodup).2 fun x => (hl.mem x).trans (h.mem x).symm)
  obtain ⟨i, hi⟩ := Option.ne_none_iff_exists'.1 ((hl.mem a).1 ha)
  obtain ⟨j, hj⟩ := Option.ne_none_iff_exists'.1 ((h.mem b).1 hb)
  obtain ⟨r, hr, -⟩ := hinv.sound.consistent.record (d := .root) nofun hi
  obtain ⟨r', hr', -⟩ := hinv.sound.consistent.record (d := .root) nofun hj
  have hlt := hab i j r r' hi hj hr hr'
  have hgt := hba j i r' r hj hi hr' hr
  omega

end Inv

/-! ## What the calls do to the active records -/

section Calls

variable {q : Queue} {maxBytes : Nat} {kept : List (Record P)} {ctx : Option ContextError} {id : Uuid}

/-- A run in which no step fails, of which something is known whatever fails. -/
theorem sure_and {α : Type} {p : Step P α} {K K' : Disk P → Prop} {Q Q' : Except Error α → Disk P → Prop}
    (h : Sure K p Q s) (h' : Faulty K' p Q' s) : Sure (fun _ => True) p (fun r s' => Q r s' ∧ Q' r s') s :=
  Prog.wp_stop (Prog.wp_and h h' fun _ _ _ _ => trivial) fun _ _ => trivial

theorem leaves_of_frame {rem add : Entries} {gone : Uuid → Prop} (h : Frame false rem add s s')
    (hrem : ∀ x, ¬ gone x → ¬ rem .root (.record x)) (hadd : ∀ x, ¬ add .root (.record x))
    (hgone : ∀ x, gone x → s'.image .root (.record x) = none) : Leaves gone s s' where
  kept x hx := by
    cases hi : s.image .root (.record x) with
    | none => exact h.unadded _ _ hi (hadd x)
    | some i => exact h.kept _ _ i hi (hrem x hx)
  gone := hgone
  files x i _ := by rw [h.files rfl]

theorem acknowledge_leaves : Sure (fun _ => True) (q.acknowledge ctx id : Step P Unit) (fun r s' => match r with
    | .ok () => Leaves (· = id) s s'
    | .error _ => s' = s) s := by
  have heffect : Sure (fun _ => True) (q.acknowledge ctx id : Step P Unit)
      (fun r s' => ∀ e, r = .error e → s' = s) s := by
    refine Prog.wp_bind.mpr (sure_ready ?_ fun _ _ _ => rfl)
    refine Prog.wp_bind.mpr (Prog.wp_require.mpr ⟨fun _ => ?_, fun _ _ _ => rfl⟩)
    cases hi : s.image .root (.record id) with
    | none =>
      have hmiss : Fs.exec none (.remove .root (.record id)) s = (.error .notExist, s) := by rw [Fs.exec, hi]
      exact Prog.wp_bind.mpr (sure_step_error hmiss trivial fun _ _ => rfl)
    | some i => exact Prog.wp_bind.mpr (sure_step_ok (Fs.exec_remove hi) trivial (sure_step_ok rfl trivial (fun _ h => by cases h)))
  refine Prog.wp_mono (sure_and heffect Queue.acknowledge_faulty) ?_
  rintro r s' ⟨herr, hgone, hframe⟩
  cases r with
  | error e => exact herr e rfl
  | ok _ =>
    refine leaves_of_frame hframe (fun x hx hrem => hx (Name.record.inj hrem.2)) (fun _ hadd => hadd) ?_
    rintro x rfl
    exact hgone rfl

theorem acknowledgeRollover_leaves : Sure (fun _ => True) (q.acknowledgeRollover ctx id : Step P Unit)
    (fun _ s' => Leaves (fun _ => False) s s') s := by
  have htrue : Sure (fun _ => True) (q.acknowledgeRollover ctx id : Step P Unit) (fun _ _ => True) s := Prog.wp_true
  refine Prog.wp_mono (sure_and htrue Queue.acknowledgeRollover_faulty) ?_
  rintro r s' ⟨-, -, hframe⟩
  exact leaves_of_frame hframe (fun x _ hrem => nomatch hrem.1) (fun _ hadd => hadd) fun _ h => h.elim

theorem quarantine_leaves (h : Inv True q.maxBytes kept s) (hmax : maxRecordBytes ≤ q.maxBytes)
    (hnroll : s.image .rollover (.record id) = none) (hroom : Room q id s) :
    Sure (fun _ => True) ((Call.quarantine ctx id).prog q : Step P Unit) (fun r s' => match r with
      | .ok () => Leaves (· = id) s s'
      | .error _ => s' = s) s := by
  refine Prog.wp_bind.mpr (Prog.wp_mono (sure_and (quarantine_sure h hmax ctx hnroll hroom) Queue.quarantine_faulty) ?_)
  rintro r s' ⟨⟨-, hr⟩, hmoved, hframe⟩
  cases r with
  | error e => exact hr
  | ok result =>
    have hok : result.outcome = .ok () := hr
    show Prog.wp _ _ _ (Prog.orFail result.outcome _) _ s'
    rw [hok]
    refine leaves_of_frame hframe (fun x hx hrem => ?_) (fun x hadd => ?_) ?_
    · rcases hrem with ⟨-, hn⟩ | ⟨hd, -⟩
      · exact hx (Name.record.inj hn)
      · exact nomatch hd
    · rcases hadd with ⟨hd, -⟩ | ⟨hd, -⟩ <;> exact nomatch hd
    · rintro x rfl
      exact hmoved.moved result rfl hok

/-- The records of the listed IDs. -/
def activeRecords (s : Disk P) (l : List Uuid) : List (Record P) :=
  l.filterMap fun id => match activeContent id s with
    | .record r => some r
    | _ => none

theorem mem_activeRecords {r : Record P} {x : Uuid} {i : Nat} (hx : x ∈ l) (hi : s.image .root (.record x) = some i)
    (hr : s.files i = .record r) : r ∈ activeRecords s l := by
  refine List.mem_filterMap.2 ⟨x, hx, ?_⟩
  rw [activeContent, hi]
  dsimp only
  rw [hr]

theorem covers_activeRecords (h : Consistent True s.files s.image) : Covers s.files (activeRecords s l) s.image := by
  intro r hr
  obtain ⟨x, -, hx⟩ := List.mem_filterMap.1 hr
  rw [activeContent] at hx
  cases hi : s.image .root (.record x) with
  | none =>
    rw [hi] at hx
    cases hx
  | some i =>
    rw [hi] at hx
    obtain ⟨r', hr', hid, -⟩ := h.record (d := .root) (by decide) hi
    dsimp only at hx
    rw [hr'] at hx
    obtain rfl := Option.some.inj hx
    exact ⟨.root, i, by decide, by rw [hid, hi], hr'⟩

/-- `Open` of a spool without interrupted moves changes no active record. -/
theorem open_leaves (h : Inv True maxBytes kept s) (hl : Lists s l) (hmax : maxRecordBytes ≤ maxBytes) (held : Bool) :
    Sure (fun _ => True) (Queue.openQueue maxBytes held) (fun r s' => Leaves (fun _ => False) s s' ∧
      (∃ kept, Inv True maxBytes kept s') ∧ ∀ q, r = .ok q → q = { maxBytes }) s := by
  have hinv : Inv True maxBytes (activeRecords s l) s :=
    { h with sound := { h.sound with covers := covers_activeRecords h.sound.consistent } }
  have hhoused : Queue.Housed s :=
    ⟨fun T hT => by rw [h.settled T hT]; exact h.ready.1, fun T hT => by rw [h.settled T hT]; exact h.ready.2.1,
      fun T hT => by rw [h.settled T hT]; exact h.ready.2.2⟩
  have hsure : Sure (Safe True maxBytes (activeRecords s l)) (Queue.openQueue maxBytes held)
      (fun r s' => Inv True maxBytes (activeRecords s l) s' ∧ ∀ q, r = .ok q → q = { maxBytes }) s := by
    cases held with
    | false =>
      refine Prog.wp_mono (openQueue_sure hinv.recoverable hmax) ?_
      rintro r s' ⟨rfl, hinv'⟩
      exact ⟨hinv', fun q hq => (Except.ok.inj hq).symm⟩
    | true =>
      refine Prog.wp_mono (openQueue_held hinv maxBytes) ?_
      rintro r s' ⟨⟨e, rfl⟩, hinv'⟩
      exact ⟨hinv', nofun⟩
  refine Prog.wp_mono (sure_and hsure (Queue.openQueue_opening hhoused)) ?_
  rintro r s' ⟨⟨hinv', hq⟩, hframe⟩
  have hkept : ∀ x, s'.image .root (.record x) = s.image .root (.record x) := by
    intro x
    cases hi : s.image .root (.record x) with
    | none => exact hframe.unadded _ _ hi fun hadd => hadd x rfl
    | some i =>
      refine hframe.kept _ _ i hi ?_
      rintro (⟨hd, -⟩ | ⟨-, y, hy, hlinked⟩)
      · exact nomatch hd
      · cases hy
        exact hlinked ((h.separate.root x).resolve_left (by rw [hi]; exact nofun))
  refine ⟨⟨fun x _ => hkept x, fun _ hx => hx.elim, fun x i hi => ?_⟩, ⟨_, hinv'⟩, hq⟩
  have hi₀ := (hkept x).symm.trans hi
  obtain ⟨r, hr, hid, -⟩ := h.sound.consistent.record (d := .root) nofun hi₀
  have hmem : x ∈ l := (hl.mem x).2 (by rw [hi₀]; exact nofun)
  obtain ⟨d, j, hd, hj, hfile⟩ := hinv'.sound.covers r (mem_activeRecords hmem hi₀ hr)
  rw [hid] at hj
  have hroot : d = .root := Process.one_directory hinv' hd nofun (by rw [hj]; exact nofun) (by rw [hi]; exact nofun)
  subst hroot
  rw [hi] at hj
  rw [Option.some.inj hj, hfile, ← Option.some.inj hj, hr]

end Calls

/-! ## Sessions -/

/-- What a call that returned does to the list. -/
def Call.tracked (l : List Uuid) : Call P → Except Error Unit → List Uuid
  | .enqueue _ id _ _, .ok () => l ++ [id]
  | .acknowledge _ id, .ok () | .quarantine _ id, .ok () => l.filter fun x => ¬ x = id
  | _, _ => l

theorem Call.lists {maxBytes : Nat} {kept : List (Record P)} (h : Inv True maxBytes kept s)
    (hmax : maxRecordBytes ≤ maxBytes) {c : Call P} (hfine : c.Fine True { maxBytes } s) (hl : Lists s l) :
    Sure (fun _ => True) (c.prog { maxBytes }) (fun r s' => Lists s' (c.tracked l r)) s := by
  cases c with
  | enqueue ctx id payload now =>
    refine Prog.wp_stop (Prog.wp_mono (enqueue_effect (q := { maxBytes }) h ctx payload now) fun r s' hr => ?_)
      fun _ _ => trivial
    cases r with
    | error e => exact hr.1 ▸ hl
    | ok _ =>
      obtain ⟨item, hitem, -, hfree, -, -, rfl⟩ := hr
      obtain rfl := hitem.id
      exact hl.published (q := { maxBytes }) h hfree (by rw [hitem.order]; exact Nat.lt_succ_self _)
  | acknowledge ctx id =>
    refine Prog.wp_mono acknowledge_leaves fun r s' hr => ?_
    cases r with
    | error e => exact hr ▸ hl
    | ok _ => exact hl.leaves hr
  | quarantine ctx id =>
    refine Prog.wp_mono (quarantine_leaves (q := { maxBytes }) h hmax hfine.1 hfine.2) fun r s' hr => ?_
    cases r with
    | error e => exact hr ▸ hl
    | ok _ => exact hl.leaves hr
  | acknowledgeRollover ctx id => exact Prog.wp_mono acknowledgeRollover_leaves fun r s' hr => hl.same hr

namespace Process

variable {maxBytes : Nat} {p : Process P} {q : Queue}

/-- Calls, `Close` and `Open` from an empty spool on, without faults, and the list of IDs
that were enqueued and neither acknowledged nor quarantined. -/
inductive Session (maxBytes : Nat) : Process P → List Uuid → Prop
  | start : Session maxBytes start []
  | opens {p : Process P} {l : List Uuid} : Session maxBytes p l → Session maxBytes (p.step maxBytes .openSpool) l
  | closes {p : Process P} {l : List Uuid} : Session maxBytes p l → Session maxBytes (p.step maxBytes .close) l
  | calls {p : Process P} {l : List Uuid} {q : Queue} (c : Call P) : Session maxBytes p l → p.queue = some q →
      p.Usable c → Session maxBytes (p.step maxBytes (.call c)) (c.tracked l ((c.prog q).finish Fs.machine none p.disk).1)

/-- Between the calls. Before the first `Open` there is nothing. -/
def Orderly (maxBytes : Nat) (p : Process P) (l : List Uuid) : Prop :=
  (p.queue = none ∧ p.disk = (start : Process P).disk ∧ l = []) ∨
    maxRecordBytes ≤ maxBytes ∧ (∀ q, p.queue = some q → q = { maxBytes }) ∧ Lists p.disk l ∧
      ∃ kept, Inv True maxBytes kept p.disk

/-- The first `Open`. -/
theorem open_empty (hmax : maxRecordBytes ≤ maxBytes) :
    Sure (fun _ => True) (Queue.openQueue maxBytes false) (fun r s => r = .ok { maxBytes } ∧ Lists s [] ∧
      ∃ kept, Inv True maxBytes kept s) (start : Process P).disk := by
  have htrue : Faulty (fun _ => True) (Queue.openQueue maxBytes false) (fun _ _ => True) (start : Process P).disk :=
    Prog.wp_true
  refine Prog.wp_mono (sure_and (openQueue_sure (recoverable_start True maxBytes) hmax)
    (frame_of_only Queue.only_openQueue htrue)) ?_
  rintro r s ⟨⟨rfl, hinv⟩, -, hframe⟩
  refine ⟨rfl, ⟨fun x => ?_, List.nodup_nil, List.Pairwise.nil⟩, _, hinv⟩
  have hnone : s.image .root (.record x) = none := hframe.unadded _ _ rfl fun hadd => hadd x rfl
  simp [hnone]

theorem Orderly.open (h : p.Orderly maxBytes l) : (p.step maxBytes .openSpool).Orderly maxBytes l := by
  rcases h with ⟨hq, hdisk, rfl⟩ | ⟨hmax, hq, hl, kept, hinv⟩
  · by_cases hmax : maxRecordBytes ≤ maxBytes
    · have hfin := finish_of_sure (open_empty (P := P) hmax)
      simp only [Process.step, hq, hdisk, Option.isSome_none]
      generalize (Queue.openQueue maxBytes false).finish Fs.machine none (start : Process P).disk = out at hfin
      obtain ⟨r, s⟩ := out
      obtain ⟨rfl, hl, hinv⟩ := hfin
      exact .inr ⟨hmax, fun q hq => (Option.some.inj hq).symm, hl, hinv⟩
    · have hrefused : (Queue.openQueue maxBytes false).finish Fs.machine none (start : Process P).disk =
          (.error (.failed "spool quota is too small"), (start : Process P).disk) := by
        rw [Queue.openQueue, Prog.finish_bind, decide_eq_false hmax]
        rfl
      simp only [Process.step, hq, hdisk, Option.isSome_none, hrefused]
      exact .inl ⟨rfl, rfl, rfl⟩
  · have hfin := finish_of_sure (open_leaves hinv hl hmax p.queue.isSome)
    simp only [Process.step]
    generalize (Queue.openQueue maxBytes p.queue.isSome).finish Fs.machine none p.disk = out at hfin
    obtain ⟨r, s⟩ := out
    obtain ⟨hleaves, hinv', hr⟩ := hfin
    cases r with
    | ok q => exact .inr ⟨hmax, fun q' hq' => by cases hq'; exact hr q rfl, hl.same hleaves, hinv'⟩
    | error e => exact .inr ⟨hmax, hq, hl.same hleaves, hinv'⟩

theorem Orderly.call (h : p.Orderly maxBytes l) {c : Call P} (hqueue : p.queue = some q) (hc : p.Usable c) :
    (p.step maxBytes (.call c)).Orderly maxBytes (c.tracked l ((c.prog q).finish Fs.machine none p.disk).1) := by
  rcases h with ⟨hq, -, -⟩ | ⟨hmax, hq, hl, kept, hinv⟩
  · rw [hqueue] at hq
    exact nomatch hq
  obtain rfl := hq q hqueue
  have hfine := Usable.fine hinv hc
  have hlists := finish_of_sure (Call.lists hinv hmax hfine hl)
  have hbacks : Backs kept [] := nofun
  obtain ⟨kept', -, hinv'⟩ := finish_of_sure (Call.sure (q := { maxBytes }) hinv hmax hfine hbacks)
  simp only [Process.step, hqueue]
  exact .inr ⟨hmax, fun q hq => (Option.some.inj hq).symm, hlists, kept', hinv'⟩

theorem Session.orderly (h : Session maxBytes p l) : p.Orderly maxBytes l := by
  induction h with
  | start => exact .inl ⟨rfl, rfl, rfl⟩
  | opens _ ih => exact ih.open
  | closes _ ih =>
    rcases ih with ⟨-, hdisk, hl⟩ | ⟨hmax, -, hl, hinv⟩
    · exact .inl ⟨rfl, hdisk, hl⟩
    · exact .inr ⟨hmax, nofun, hl, hinv⟩
  | calls c _ hqueue hc ih => exact ih.call hqueue hc

/-- The quotas of the active and the rejected directory. -/
structure WithinQuota (maxBytes : Nat) (s : Disk P) : Prop where
  activeCount : (dataOf s).length ≤ 1024
  activeBytes : totalSize s.files (dataOf s) ≤ maxBytes
  rejectedCount : (entriesOf s .rejected).length ≤ 128
  rejectedBytes : totalSize s.files (entriesOf s .rejected) ≤ maxBytes

theorem Orderly.scannable (h : p.Orderly maxBytes l) : Scannable { maxBytes } p.disk := by
  rcases h with ⟨-, hdisk, -⟩ | ⟨-, -, -, kept, hinv⟩
  · rw [hdisk]
    exact ⟨Nat.zero_le _, Nat.zero_le _, Nat.zero_le _, Nat.zero_le _, nofun, nofun, nofun, Nat.zero_le _, Nat.zero_le _,
      List.nodup_nil⟩
  · exact scannable_of_sound hinv.sound hinv.separate

/-- **The spool is a bounded queue.** Throughout a session the orders of the records in the
three directories are distinct and the quotas hold. On an open queue `ListIDs` returns the
IDs that were enqueued and neither acknowledged nor quarantined, in the order in which they
were enqueued; a new record's order is greater than all others, and an exhausted order is an
error; and `Enqueue` reports the quota only when the new record would exceed it, and then
changes nothing. -/
theorem session_is_bounded_queue (h : Session maxBytes p l) :
    (liveOrders p.disk).Nodup ∧ WithinQuota maxBytes p.disk ∧
    ∀ q, p.queue = some q →
      (q.listIds none : Step P (List Uuid)).finish Fs.machine none p.disk = (.ok l, p.disk) ∧
      ∀ ctx id payload now, p.Usable (.enqueue ctx id payload now) →
        match (q.enqueue ctx id payload now).finish Fs.machine none p.disk with
        | (.ok (), s) => (∃ item : Record P, item.id = id ∧ item.payload = payload ∧ activeContent id s = .record item ∧
            ∀ o ∈ liveOrders p.disk, o < item.order) ∧ ∀ o ∈ liveOrders p.disk, o + 1 < 2 ^ 64
        | (.error e, s) => s = p.disk ∧ (e = .quotaExceeded → 1024 < (dataOf p.disk).length + 1 ∨
            ∃ item : Record P, Numbered id payload now p.disk item ∧
              maxBytes < totalSize p.disk.files (dataOf p.disk) + item.size) := by
  have horderly := h.orderly
  have hscan := horderly.scannable
  refine ⟨hscan.orders, ⟨hscan.activeCount, hscan.activeBytes, hscan.rejectedCount, hscan.rejectedBytes⟩, ?_⟩
  intro q hqueue
  rcases horderly with ⟨hq, -, -⟩ | ⟨hmax, hq, hl, kept, hinv⟩
  · rw [hqueue] at hq
    exact nomatch hq
  obtain rfl := hq q hqueue
  have hinventory := inventory_of_scannable hscan
  refine ⟨?_, fun ctx id payload now husable => ?_⟩
  · have hlist : Sure (fun _ => True) (Queue.listIds { maxBytes } none : Step P (List Uuid))
        (fun r s => r = .ok l ∧ s = p.disk) p.disk := by
      refine Prog.wp_bind.mpr (Prog.wp_bind.mpr (Prog.wp_require.mpr ⟨fun _ => ?_, nofun⟩))
      refine Prog.wp_bind.mpr (sure_read trivial ?_)
      rw [hinventory]
      exact ⟨congrArg Except.ok (hl.inventory (q := { maxBytes }) hinv), rfl⟩
    obtain ⟨hr, hs⟩ := finish_of_sure hlist
    exact Prod.ext hr hs
  · have heffect : Enqueues { maxBytes } id payload now p.disk _ _ :=
      finish_of_sure (enqueue_effect (q := { maxBytes }) hinv ctx payload now)
    generalize (Queue.enqueue { maxBytes } ctx id payload now).finish Fs.machine none p.disk = out at heffect
    obtain ⟨r, s⟩ := out
    have habove : ∀ item : Record P, Numbered id payload now p.disk item → ∀ o ∈ liveOrders p.disk, o < item.order := by
      intro item hitem o ho
      have := le_lastOrder ho
      rw [hitem.order]
      omega
    cases r with
    | ok _ =>
      obtain ⟨item, hitem, -, -, -, -, rfl⟩ := heffect
      refine ⟨⟨item, hitem.id, hitem.payload, ?_, habove item hitem⟩, fun o ho => ?_⟩
      · have := activeContent_published hinv.settled (staging_none hinv.sound.consistent item.id)
        rwa [hitem.id] at this
      · have := habove item hitem o ho
        have := item.order_lt
        omega
    | error e =>
      refine ⟨heffect.1, fun he => (heffect.2 he).imp_left fun hcount => ?_⟩
      rw [maxEntries] at hcount
      omega

def fillingCall : Call (List UInt8) :=
  .enqueue none ⟨0x000000000000400080000000000000aa⟩ [7] UtcTime.sample

def openedSession : Process (List UInt8) :=
  start.step maxRecordBytes .openSpool

/-- A spool for one record, opened, filled, closed and opened again. -/
def filledSession : Process (List UInt8) :=
  ((openedSession.step maxRecordBytes (.call fillingCall)).step maxRecordBytes .close).step maxRecordBytes .openSpool

theorem filledSession_is_bounded_queue :
    filledSession.queue = some { maxBytes := maxRecordBytes } ∧
    (Queue.listIds { maxBytes := maxRecordBytes } none : Step (List UInt8) (List Uuid)).finish Fs.machine none
      filledSession.disk = (.ok [⟨0x000000000000400080000000000000aa⟩], filledSession.disk) ∧
    WithinQuota maxRecordBytes filledSession.disk := by
  have hopen : openedSession.queue = some { maxBytes := maxRecordBytes } := by decide +kernel
  have hfree : openedSession.Usable fillingCall := by
    intro d hd
    cases d with
    | parent => exact absurd rfl hd
    | root | rejected | rollover => rfl
  have hsession : Session maxRecordBytes filledSession _ := .opens (.closes (.calls fillingCall (.opens .start) hopen hfree))
  have htracked : fillingCall.tracked [] ((fillingCall.prog { maxBytes := maxRecordBytes }).finish Fs.machine none
      openedSession.disk).1 = [⟨0x000000000000400080000000000000aa⟩] := by decide +kernel
  rw [htracked] at hsession
  have hqueue : filledSession.queue = some { maxBytes := maxRecordBytes } := by decide +kernel
  have hbounded := session_is_bounded_queue hsession
  exact ⟨hqueue, (hbounded.2.2 _ hqueue).1, hbounded.2.1⟩

end Process

end NorthgateRmm.Agent.Spool
