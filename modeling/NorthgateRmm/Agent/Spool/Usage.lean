import NorthgateRmm.Agent.Spool.Queue

/-!
# What the directory scans accept

`rejectedUsage`, `rolloverUsage` and `inventory` return exactly when the entries
of the directories are readable records with distinct orders within the quotas,
and then report every record.
-/

namespace NorthgateRmm.Agent.Spool

open CrashFs

variable {P : Type} [Payload P]

/-! ## Entries -/

theorem mem_entriesOf {s : Disk P} {d : Place} {n : Name} {i : Nat} :
    (n, i) ∈ entriesOf s d ↔ s.image d n = some i := by
  simp only [entriesOf, Fs.image, Listing.at, List.mem_map, Prod.mk.injEq]
  constructor
  · rintro ⟨⟨n', i'⟩, he, rfl, rfl⟩
    exact AList.mem_lookup_iff.mpr he
  · intro h
    exact ⟨⟨n, i⟩, AList.mem_lookup_iff.mp h, rfl, rfl⟩

theorem nodup_entriesOf (s : Disk P) (d : Place) : ((entriesOf s d).map (·.1)).Nodup := by
  have h : (entriesOf s d).map (·.1) = (s.dirs d).visible.keys := by
    simp only [entriesOf, List.map_map, AList.keys, List.keys]
    rfl
  rw [h]
  exact AList.keys_nodup _

/-- The entry is the file of the record `r`, under the record's own name. -/
structure IsEntry (files : Nat → Content P) (e : Name × Nat) (r : Record P) : Prop where
  name : e.1 = .record r.id
  canonical : r.id.matchesPattern = true
  content : files e.2 = .record r

/-- The metadata the scans report for an entry. -/
def describe (files : Nat → Content P) (e : Name × Nat) : Metadata :=
  match files e.2 with
  | .record r => ⟨r.id, r.order, r.size⟩
  | _ => ⟨⟨0⟩, 0, 0⟩

def totalSize (files : Nat → Content P) (es : List (Name × Nat)) : Nat :=
  (es.map fun e => (files e.2).size).sum

theorem IsEntry.describe_eq {files : Nat → Content P} {e : Name × Nat} {r : Record P}
    (h : IsEntry files e r) : describe files e = ⟨r.id, r.order, r.size⟩ := by
  rw [describe, h.content]

/-! ## The scans -/

section Scan

variable {files : Nat → Content P}

variable {res : Nat × List Metadata} {records : List Metadata} {es : List (Name × Nat)} {total : Nat}
  {quota : Option Nat} {taken : List Nat} {e : Name × Nat} {maxBytes : Nat} {r : Record P}

theorem scanRecords_cons (h : IsEntry files e r)
    (es : List (Name × Nat)) (total : Nat) (records : List Metadata) :
    scanRecords files quota (e :: es) total records =
      if r.order ∈ records.map (·.order) then .error .corrupt
      else if quota.any fun maxBytes => maxBytes < total + (files e.2).size then .error .quotaExceeded
      else scanRecords files quota es (total + (files e.2).size) (records ++ [describe files e]) := by
  obtain ⟨n, i⟩ := e
  obtain ⟨hn, hc, hf⟩ := h
  dsimp only at hn hf
  subst hn
  have hs : (files i).size = r.size := by rw [hf]; rfl
  have hd : describe files (.record r.id, i) = ⟨r.id, r.order, r.size⟩ := by rw [describe]; simp only [hf]
  rw [scanRecords, hc, hd, hs, hf]
  have h1 := r.size_pos
  have h2 := r.size_le
  rw [Bool.not_true, if_neg Bool.false_ne_true, if_neg (by omega), readRecordItem, if_pos rfl]

theorem isEntry_of_readable {n : Name} {i : Nat} {id : Uuid} (hn : n = .record id)
    (hc : id.matchesPattern = true) (hr : readRecordItem id (files i) = some r) :
    IsEntry files (n, i) r := by
  obtain ⟨hf, rfl⟩ := readRecordItem_some.mp hr
  exact ⟨hn, hc, hf⟩

theorem isEntry_of_scanRecords
    
    (h : scanRecords files quota (e :: es) total records = .ok res) : ∃ r, IsEntry files e r := by
  obtain ⟨n, i⟩ := e
  cases n with
  | record id =>
    rw [scanRecords] at h
    by_cases hc : id.matchesPattern = true
    · cases hr : readRecordItem id (files i) with
      | none => grind
      | some r => exact ⟨r, isEntry_of_readable rfl hc hr⟩
    · simp [hc] at h
  | spool | lock | rejected | rollover | staging => exact nomatch h

theorem totalSize_cons (files : Nat → Content P) (e : Name × Nat) (es : List (Name × Nat)) :
    totalSize files (e :: es) = (files e.2).size + totalSize files es := by
  rw [totalSize, totalSize, List.map_cons, List.sum_cons]

/-- What a scan of readable entries returns. -/
theorem scanRecords_ok_iff
    (hes : ∀ e ∈ es, ∃ r, IsEntry files e r)
    (hq : ∀ m, quota = some m → total ≤ m) (hnd : (records.map (·.order)).Nodup)
    :
    scanRecords files quota es total records = .ok res ↔
      ((records ++ es.map (describe files)).map (·.order)).Nodup ∧
      (∀ m, quota = some m → total + totalSize files es ≤ m) ∧
      res = (total + totalSize files es, records ++ es.map (describe files)) := by
  induction es generalizing total records with
  | nil =>
    simp only [scanRecords, List.map_nil, List.append_nil, totalSize, List.sum_nil, Nat.add_zero,
      Except.ok.injEq]
    exact ⟨fun h => ⟨hnd, hq, h.symm⟩, fun h => h.2.2.symm⟩
  | cons e es ih =>
    obtain ⟨r, hr⟩ := hes e List.mem_cons_self
    have hes' : ∀ e ∈ es, ∃ r, IsEntry files e r := fun e he => hes e (List.mem_cons_of_mem _ he)
    have hd := hr.describe_eq
    rw [scanRecords_cons hr, List.map_cons, List.append_cons records _ (es.map _), totalSize_cons, ← Nat.add_assoc]
    by_cases ho : r.order ∈ records.map (·.order)
    · rw [if_pos ho]
      refine ⟨nofun, fun h => ?_⟩
      have := h.1
      rw [List.map_append, List.map_append, List.append_assoc] at this
      have := List.disjoint_of_nodup_append this
      exact absurd (List.mem_append_left _ (by simp [hd])) (this ho)
    · rw [if_neg ho]
      have hnd' : ((records ++ [describe files e]).map (·.order)).Nodup := by
        rw [List.map_append, List.map_cons, List.map_nil, hd]
        exact List.nodup_append_comm.mp (List.nodup_cons.mpr ⟨ho, hnd⟩)
      cases quota with
      | none =>
        simp only [Option.any_none, Bool.false_eq_true, if_false]
        exact ih hes' nofun hnd'
      | some m =>
        simp only [Option.any_some, decide_eq_true_eq]
        by_cases hm : m < total + (files e.2).size
        · rw [if_pos hm]
          refine ⟨nofun, fun h => ?_⟩
          have := h.2.1 m rfl
          omega
        · rw [if_neg hm]
          refine ih hes' (fun m' h => ?_) hnd'
          cases h
          omega

theorem scanRecords_entries
    
    (h : scanRecords files quota es total records = .ok res) : ∀ e ∈ es, ∃ r, IsEntry files e r := by
  induction es generalizing total records with
  | nil => exact fun _ he => absurd he List.not_mem_nil
  | cons e es ih =>
    obtain ⟨r, hr⟩ := isEntry_of_scanRecords h
    rw [scanRecords_cons hr] at h
    intro e' he'
    rcases List.mem_cons.mp he' with rfl | he'
    · exact ⟨r, hr⟩
    · split at h
      · exact nomatch h
      · split at h
        · exact nomatch h
        · exact ih h e' he'

theorem scanActive_cons
    (h : IsEntry files e r) (es : List (Name × Nat)) (total : Nat) (records : List Metadata) :
    scanActive files maxBytes taken (e :: es) total records =
      if maxBytes < total + (files e.2).size then .error .quotaExceeded
      else if r.order ∈ taken then .error .corrupt
      else scanActive files maxBytes taken es (total + (files e.2).size) (records ++ [describe files e]) := by
  obtain ⟨n, i⟩ := e
  obtain ⟨hn, hc, hf⟩ := h
  dsimp only at hn hf
  subst hn
  have hs : (files i).size = r.size := by rw [hf]; rfl
  have hd : describe files (.record r.id, i) = ⟨r.id, r.order, r.size⟩ := by rw [describe]; simp only [hf]
  have h1 := r.size_pos
  have h2 := r.size_le
  rw [scanActive, hc, hd, hs, hf, Bool.not_true, if_neg Bool.false_ne_true, if_neg (by omega),
    readRecordItem, if_pos rfl]

theorem isEntry_of_scanActive
    
    (h : scanActive files maxBytes taken (e :: es) total records = .ok res) : ∃ r, IsEntry files e r := by
  obtain ⟨n, i⟩ := e
  cases n with
  | record id =>
    rw [scanActive] at h
    by_cases hc : id.matchesPattern = true
    · cases hr : readRecordItem id (files i) with
      | none => grind
      | some r => exact ⟨r, isEntry_of_readable rfl hc hr⟩
    · simp [hc] at h
  | spool | lock | rejected | rollover | staging => exact nomatch h

theorem scanActive_ok_iff
    (hes : ∀ e ∈ es, ∃ r, IsEntry files e r)
    (hq : total ≤ maxBytes) :
    scanActive files maxBytes taken es total records = .ok res ↔
      (∀ e ∈ es, (describe files e).order ∉ taken) ∧ total + totalSize files es ≤ maxBytes ∧
      res = (total + totalSize files es, records ++ es.map (describe files)) := by
  induction es generalizing total records with
  | nil =>
    simp only [scanActive, List.map_nil, List.append_nil, totalSize, List.sum_nil, Nat.add_zero,
      Except.ok.injEq]
    exact ⟨fun h => ⟨fun _ he => absurd he List.not_mem_nil, hq, h.symm⟩, fun h => h.2.2.symm⟩
  | cons e es ih =>
    obtain ⟨r, hr⟩ := hes e List.mem_cons_self
    have hes' : ∀ e ∈ es, ∃ r, IsEntry files e r := fun e he => hes e (List.mem_cons_of_mem _ he)
    have hd := hr.describe_eq
    rw [scanActive_cons hr, List.map_cons, List.append_cons records _ (es.map _), totalSize_cons, ← Nat.add_assoc,
      List.forall_mem_cons, hd]
    by_cases hm : maxBytes < total + (files e.2).size
    · rw [if_pos hm]
      refine ⟨nofun, fun h => ?_⟩
      have := h.2.1
      omega
    · rw [if_neg hm]
      by_cases ho : r.order ∈ taken
      · rw [if_pos ho]
        exact ⟨nofun, fun h => absurd ho h.1.1⟩
      · rw [if_neg ho, ih hes' (by omega)]
        exact ⟨fun h => ⟨⟨ho, h.1⟩, h.2⟩, fun h => ⟨h.1.2, h.2⟩⟩

theorem scanActive_entries
    
    (h : scanActive files maxBytes taken es total records = .ok res) :
    ∀ e ∈ es, ∃ r, IsEntry files e r := by
  induction es generalizing total records with
  | nil => exact fun _ he => absurd he List.not_mem_nil
  | cons e es ih =>
    obtain ⟨r, hr⟩ := isEntry_of_scanActive h
    rw [scanActive_cons hr] at h
    intro e' he'
    rcases List.mem_cons.mp he' with rfl | he'
    · exact ⟨r, hr⟩
    · split at h
      · exact nomatch h
      · split at h
        · exact nomatch h
        · exact ih h e' he'

end Scan

/-! ## Usage -/

section Usage

variable {q : Queue} {s : Disk P}

/-- What the scan of a directory reports. -/
def metas (s : Disk P) (d : Place) : List Metadata := (entriesOf s d).map (describe s.files)

/-- Every entry is the file of a record. -/
def Readable (files : Nat → Content P) (es : List (Name × Nat)) : Prop := ∀ e ∈ es, ∃ r, IsEntry files e r

variable {files : Nat → Content P} {es : List (Name × Nat)} {d : Place}

theorem names_describe (h : Readable files es) :
    (es.map (describe files)).map (fun m => Name.record m.id) = es.map (·.1) := by
  rw [List.map_map]
  refine List.map_congr_left fun e he => ?_
  obtain ⟨r, hr⟩ := h e he
  rw [Function.comp_apply, hr.describe_eq, hr.name]

theorem totalSize_eq_describe (h : Readable files es) :
    totalSize files es = ((es.map (describe files)).map (·.size)).sum := by
  rw [totalSize, List.map_map, List.map_congr_left]
  intro e he
  obtain ⟨r, hr⟩ := h e he
  rw [Function.comp_apply, hr.describe_eq, hr.content]
  rfl

theorem nodup_ids_metas (h : Readable s.files (entriesOf s d)) : ((metas s d).map (·.id)).Nodup := by
  have := nodup_entriesOf s d
  rw [← names_describe h, ← metas] at this
  refine List.Nodup.of_map Name.record ?_
  rwa [List.map_map]

/-- The records a scan reports are those linked in the directory. -/
theorem image_of_mem_metas (h : Readable s.files (entriesOf s d)) {m : Metadata} (hm : m ∈ metas s d) :
    ∃ i r, s.image d (.record m.id) = some i ∧ s.files i = .record r ∧ m = ⟨r.id, r.order, r.size⟩ := by
  obtain ⟨⟨n, i⟩, he, rfl⟩ := List.mem_map.mp hm
  obtain ⟨r, hr⟩ := h _ he
  refine ⟨i, r, ?_, hr.content, hr.describe_eq⟩
  have hn : n = .record r.id := hr.name
  rw [hr.describe_eq, ← mem_entriesOf, ← hn]
  exact he

theorem mem_ids_metas (h : Readable s.files (entriesOf s d)) {id : Uuid}
    (hi : s.image d (.record id) ≠ none) : ∃ m ∈ metas s d, m.id = id := by
  obtain ⟨i, hi⟩ := Option.ne_none_iff_exists'.mp hi
  have he := mem_entriesOf.mpr hi
  obtain ⟨r, hr⟩ := h _ he
  refine ⟨_, List.mem_map_of_mem he, ?_⟩
  rw [hr.describe_eq]
  exact (Name.record.inj hr.name).symm

theorem scanRecords_ok_iff_readable {quota : Option Nat}
    {res : Nat × List Metadata} : scanRecords files quota es 0 [] = .ok res ↔
      Readable files es ∧ ((es.map (describe files)).map (·.order)).Nodup ∧
      (∀ m, quota = some m → totalSize files es ≤ m) ∧ res = (totalSize files es, es.map (describe files)) := by
  constructor
  · intro h
    have hes := scanRecords_entries h
    have := (scanRecords_ok_iff hes (fun m _ => Nat.zero_le m) (by rw [List.map_nil]; exact List.nodup_nil)).mp h
    rw [Nat.zero_add, List.nil_append] at this
    exact ⟨hes, this⟩
  · rintro ⟨hes, h⟩
    refine (scanRecords_ok_iff hes (fun m _ => Nat.zero_le m) (by rw [List.map_nil]; exact List.nodup_nil)).mpr ?_
    rwa [Nat.zero_add, List.nil_append]

theorem rejectedUsage_ok_iff {res : Nat × List Metadata} : q.rejectedUsage s = .ok res ↔
    (entriesOf s .rejected).length ≤ maxRejectedEntries ∧ Readable s.files (entriesOf s .rejected) ∧
      ((metas s .rejected).map (·.order)).Nodup ∧ totalSize s.files (entriesOf s .rejected) ≤ q.maxBytes ∧
      res = (totalSize s.files (entriesOf s .rejected), metas s .rejected) := by
  rw [Queue.rejectedUsage]
  by_cases hl : maxRejectedEntries < (entriesOf s .rejected).length
  · rw [if_pos hl]
    refine ⟨nofun, fun h => ?_⟩
    have := h.1
    omega
  · rw [if_neg hl, scanRecords_ok_iff_readable]
    simp only [metas, Option.some.injEq, forall_eq']
    exact ⟨fun h => ⟨Nat.le_of_not_lt hl, h⟩, fun h => h.2⟩

theorem rolloverUsage_ok_iff {res : List Metadata} : Queue.rolloverUsage s = .ok res ↔
    (entriesOf s .rollover).length ≤ maxRejectedEntries ∧ Readable s.files (entriesOf s .rollover) ∧
      ((metas s .rollover).map (·.order)).Nodup ∧ res = metas s .rollover := by
  rw [Queue.rolloverUsage]
  by_cases hl : maxRejectedEntries < (entriesOf s .rollover).length
  · rw [if_pos hl]
    refine ⟨nofun, fun h => ?_⟩
    have := h.1
    omega
  · rw [if_neg hl]
    cases hscan : scanRecords s.files none (entriesOf s .rollover) 0 [] with
    | error e =>
      refine ⟨nofun, fun h => ?_⟩
      have hok : scanRecords s.files none (entriesOf s .rollover) 0 [] = .ok _ :=
        scanRecords_ok_iff_readable.mpr ⟨h.2.1, h.2.2.1, (fun _ hm => nomatch hm), rfl⟩
      rw [hscan] at hok
      exact nomatch hok
    | ok found =>
      obtain ⟨hr, hnd, -, rfl⟩ := scanRecords_ok_iff_readable.mp hscan
      simp only [metas, Except.ok.injEq]
      exact ⟨fun h => ⟨Nat.le_of_not_lt hl, hr, hnd, h.symm⟩, fun h => h.2.2.2.symm⟩

/-- The entries that `inventoryLocked` treats as records. -/
def dataOf (s : Disk P) : List (Name × Nat) := (entriesOf s .root).filter (·.1.isData)

theorem mem_dataOf {n : Name} {i : Nat} : (n, i) ∈ dataOf s ↔ s.image .root n = some i ∧ n.isData = true := by
  rw [dataOf, List.mem_filter, mem_entriesOf]

theorem nodup_dataOf (s : Disk P) : ((dataOf s).map (·.1)).Nodup :=
  (nodup_entriesOf s .root).sublist (List.filter_sublist.map _)

/-- The orders of the records of all three directories. -/
def liveOrders (s : Disk P) : List Nat :=
  ((dataOf s).map (describe s.files)).map (·.order) ++
    ((metas s .rejected).map (·.order) ++ (metas s .rollover).map (·.order))

variable (q s) in
/-- The directories as `inventoryLocked` wants them. -/
structure Scannable : Prop where
  rootCount : (entriesOf s .root).length ≤ maxEntries + 3
  activeCount : (dataOf s).length ≤ maxEntries
  rejectedCount : (entriesOf s .rejected).length ≤ maxRejectedEntries
  rolloverCount : (entriesOf s .rollover).length ≤ maxRejectedEntries
  active : Readable s.files (dataOf s)
  rejected : Readable s.files (entriesOf s .rejected)
  rollover : Readable s.files (entriesOf s .rollover)
  activeBytes : totalSize s.files (dataOf s) ≤ q.maxBytes
  rejectedBytes : totalSize s.files (entriesOf s .rejected) ≤ q.maxBytes
  orders : (liveOrders s).Nodup

/-- What it then returns. -/
def inventoryOf (s : Disk P) : Queue.Inventory where
  total := totalSize s.files (dataOf s)
  records := sortByOrder ((dataOf s).map (describe s.files))
  lastOrder := max (max (maxOrder (metas s .rejected)) (maxOrder (metas s .rollover)))
    (((sortByOrder ((dataOf s).map (describe s.files))).getLast?.map (·.order)).getD 0)
  entryCount := (dataOf s).length

theorem pairwise_sortByOrder (l : List Metadata) :
    (sortByOrder l).Pairwise fun a b => a.order ≤ b.order :=
  List.pairwise_insertionSort _ l

theorem perm_sortByOrder (l : List Metadata) : (sortByOrder l).Perm l := List.perm_insertionSort _ l

theorem nodup_of_sorted_isChain_ne {l : List Nat} (hle : l.Pairwise (· ≤ ·)) (hne : l.IsChain (· ≠ ·)) :
    l.Nodup := by
  induction l with
  | nil => exact List.nodup_nil
  | cons a l ih =>
    obtain ⟨ha, hl⟩ := List.pairwise_cons.mp hle
    cases l with
    | nil => exact List.nodup_singleton a
    | cons b l =>
      obtain ⟨hab, hch⟩ := List.isChain_cons_cons.mp hne
      refine List.nodup_cons.mpr ⟨fun hmem => ?_, ih hl hch⟩
      have hb := ha b List.mem_cons_self
      rcases List.mem_cons.mp hmem with rfl | hmem
      · exact hab rfl
      · have := (List.pairwise_cons.mp hl).1 a hmem
        omega

/-- Among sorted records equal orders are neighbours. -/
theorem isChain_ne_iff_nodup (l : List Metadata) :
    ((sortByOrder l).map (·.order)).IsChain (· ≠ ·) ↔ (l.map (·.order)).Nodup := by
  have hperm : ((sortByOrder l).map (·.order)).Perm (l.map (·.order)) := (perm_sortByOrder l).map _
  have hsorted : ((sortByOrder l).map (·.order)).Pairwise (· ≤ ·) :=
    List.pairwise_map.mpr (pairwise_sortByOrder l)
  rw [← hperm.nodup_iff]
  exact ⟨nodup_of_sorted_isChain_ne hsorted, List.Pairwise.isChain⟩

theorem nodup_liveOrders : (liveOrders s).Nodup ↔
    (((dataOf s).map (describe s.files)).map (·.order)).Nodup ∧
      ((metas s .rejected).map (·.order)).Nodup ∧ ((metas s .rollover).map (·.order)).Nodup ∧
      ((metas s .rejected).any fun r => r.order ∈ (metas s .rollover).map (·.order)) = false ∧
      ∀ e ∈ dataOf s, (describe s.files e).order ∉ (metas s .rejected ++ metas s .rollover).map (·.order) := by
  rw [liveOrders, ← List.map_append, List.nodup_append', List.map_append, List.nodup_append',
    List.any_eq_false, ← List.map_append]
  simp only [List.disjoint_left, List.forall_mem_map, decide_eq_true_eq]
  tauto

theorem inventory_of_scannable (h : Scannable q s) : q.inventory s = .ok (inventoryOf s) := by
  obtain ⟨hnd, hrn, hvn, hdis, hfree⟩ := nodup_liveOrders.mp h.orders
  have hrej : q.rejectedUsage s = .ok _ :=
    rejectedUsage_ok_iff.mpr ⟨h.rejectedCount, h.rejected, hrn, h.rejectedBytes, rfl⟩
  have hroll : Queue.rolloverUsage s = .ok _ :=
    rolloverUsage_ok_iff.mpr ⟨h.rolloverCount, h.rollover, hvn, rfl⟩
  have hact : scanActive s.files q.maxBytes ((metas s .rejected ++ metas s .rollover).map (·.order))
      (dataOf s) 0 [] = .ok (totalSize s.files (dataOf s), (dataOf s).map (describe s.files)) :=
    (scanActive_ok_iff h.active (Nat.zero_le _)).mpr
      ⟨hfree, by rw [Nat.zero_add]; exact h.activeBytes, by rw [Nat.zero_add, List.nil_append]⟩
  have hch := (isChain_ne_iff_nodup ((dataOf s).map (describe s.files))).mpr hnd
  rw [Queue.inventory, if_neg (Nat.not_lt.mpr h.rootCount), hrej, hroll]
  dsimp only
  rw [if_neg (by rw [hdis]; exact Bool.false_ne_true), ← dataOf, if_neg (Nat.not_lt.mpr h.activeCount), hact]
  dsimp only
  rw [if_neg (not_not.mpr hch)]
  rfl

theorem scannable_of_inventory {inv : Queue.Inventory} (h : q.inventory s = .ok inv) : Scannable q s := by
  rw [Queue.inventory] at h
  split at h
  · exact nomatch h
  rename_i hroot
  split at h
  · exact nomatch h
  rename_i total rejected hrej
  split at h
  · exact nomatch h
  rename_i rollover hroll
  dsimp only at h
  split at h
  · exact nomatch h
  rename_i hdis
  split at h
  · exact nomatch h
  rename_i hcount
  split at h
  · exact nomatch h
  rename_i bytes found hact
  split at h
  · exact nomatch h
  rename_i hch
  obtain ⟨hrc, hrr, hrn, hrb, hres⟩ := rejectedUsage_ok_iff.mp hrej
  obtain ⟨hvc, hvr, hvn, rfl⟩ := rolloverUsage_ok_iff.mp hroll
  cases hres
  have hdata := scanActive_entries hact
  obtain ⟨hfree, hbytes, hres⟩ := (scanActive_ok_iff hdata (Nat.zero_le _)).mp hact
  cases hres
  have hnd := (isChain_ne_iff_nodup _).mp (not_not.mp hch)
  exact {
    rootCount := Nat.not_lt.mp hroot
    activeCount := Nat.not_lt.mp hcount
    rejectedCount := hrc
    rolloverCount := hvc
    active := hdata
    rejected := hrr
    rollover := hvr
    activeBytes := by rwa [Nat.zero_add] at hbytes
    rejectedBytes := hrb
    orders := nodup_liveOrders.mpr ⟨hnd, hrn, hvn, Bool.eq_false_iff.mpr hdis, hfree⟩ }

theorem le_foldl_max (records : List Metadata) (a : Nat) :
    a ≤ records.foldl (fun m r => max m r.order) a ∧
      ∀ r ∈ records, r.order ≤ records.foldl (fun m r => max m r.order) a := by
  induction records generalizing a with
  | nil => exact ⟨Nat.le_refl _, fun _ h => absurd h List.not_mem_nil⟩
  | cons x xs ih =>
    obtain ⟨h1, h2⟩ := ih (max a x.order)
    rw [List.foldl_cons]
    refine ⟨by omega, fun r hr => ?_⟩
    rcases List.mem_cons.mp hr with rfl | hr
    · omega
    · exact h2 r hr

theorem le_maxOrder {records : List Metadata} {r : Metadata} (h : r ∈ records) : r.order ≤ maxOrder records :=
  (le_foldl_max records 0).2 r h

theorem le_getLast {l : List Metadata} (hl : l.Pairwise fun a b => a.order ≤ b.order) {r : Metadata}
    (h : r ∈ l) : r.order ≤ (l.getLast?.map (·.order)).getD 0 := by
  obtain ⟨front, last, rfl⟩ : ∃ front last, l = front ++ [last] :=
    ⟨l.dropLast, l.getLast (List.ne_nil_of_mem h), (List.dropLast_append_getLast _).symm⟩
  rw [List.getLast?_concat, Option.map_some, Option.getD_some]
  rcases List.mem_append.mp h with h | h
  · exact (List.pairwise_append.mp hl).2.2 r h last List.mem_cons_self
  · rw [List.mem_singleton.mp h]

theorem mem_liveOrders {id : Uuid} {i : Nat} {r : Record P} (hd : d ≠ .parent)
    (hi : s.image d (.record id) = some i) (hr : s.files i = .record r) : r.order ∈ liveOrders s := by
  have hdesc : (describe s.files (.record id, i)).order = r.order := by rw [describe, hr]
  rw [← hdesc, liveOrders, metas, metas]
  cases d with
  | parent => exact absurd rfl hd
  | root =>
    exact List.mem_append_left _ (List.mem_map_of_mem (List.mem_map_of_mem (mem_dataOf.mpr ⟨hi, rfl⟩)))
  | rejected =>
    exact List.mem_append_right _ (List.mem_append_left _
      (List.mem_map_of_mem (List.mem_map_of_mem (mem_entriesOf.mpr hi))))
  | rollover =>
    exact List.mem_append_right _ (List.mem_append_right _
      (List.mem_map_of_mem (List.mem_map_of_mem (mem_entriesOf.mpr hi))))

/-- Every live order is at most the last one, so that the next order is new. -/
theorem le_lastOrder {o : Nat} (h : o ∈ liveOrders s) : o ≤ (inventoryOf s).lastOrder := by
  simp only [inventoryOf]
  rcases List.mem_append.mp h with h | h
  · obtain ⟨m, hm, rfl⟩ := List.mem_map.mp h
    have := le_getLast (pairwise_sortByOrder _) ((perm_sortByOrder _).mem_iff.mpr hm)
    omega
  · rcases List.mem_append.mp h with h | h
    · obtain ⟨m, hm, rfl⟩ := List.mem_map.mp h
      have := le_maxOrder hm
      omega
    · obtain ⟨m, hm, rfl⟩ := List.mem_map.mp h
      have := le_maxOrder hm
      omega

end Usage

/-! ## Eviction -/

/-- The selection is a front part of the records after whose removal the
incoming one fits; the loop never runs out of records. -/
theorem selectOldest_ok (inRollover : Uuid → Bool) {maxBytes incoming : Nat} (hin : incoming ≤ maxBytes)
    {records : List Metadata} (hfree : ∀ m ∈ records, inRollover m.id = false) {total : Nat}
    (htotal : total = (records.map (·.size)).sum) :
    ∃ chosen rest, records = chosen ++ rest ∧
      Queue.selectOldest inRollover maxBytes incoming total records = .ok chosen ∧
      rest.length < maxRejectedEntries ∧ (rest.map (·.size)).sum + incoming ≤ maxBytes := by
  induction records generalizing total with
  | nil =>
    rw [List.map_nil, List.sum_nil] at htotal
    refine ⟨[], [], rfl, ?_, by decide, by simpa using hin⟩
    rw [Queue.selectOldest, if_neg]
    rw [maxRejectedEntries]
    omega
  | cons m ms ih =>
    rw [List.map_cons, List.sum_cons] at htotal
    rw [Queue.selectOldest]
    by_cases hc : maxRejectedEntries ≤ (m :: ms).length ∨ maxBytes < total + incoming
    · obtain ⟨chosen, rest, rfl, hsel, hlen, hsum⟩ :=
        ih (fun m' h => hfree m' (List.mem_cons_of_mem _ h)) (show total - m.size = _ by omega)
      refine ⟨m :: chosen, rest, rfl, ?_, hlen, hsum⟩
      rw [if_pos hc, hfree m List.mem_cons_self, if_neg Bool.false_ne_true, hsel]
    · rw [not_or, Nat.not_le, Nat.not_lt] at hc
      refine ⟨[], m :: ms, rfl, ?_, hc.1, ?_⟩
      · rw [if_neg (by omega)]
      · rw [List.map_cons, List.sum_cons]
        omega

end NorthgateRmm.Agent.Spool
