import NorthgateRmm.Agent.Spool.Fifo

/-!
# Room for a rejected record

The loop of `makeRejectedRoomLocked` with its `int64` arithmetic. The running total stays
the sum of the sizes that are left, so nothing overflows, the guard is false once no record
is left, and the loop takes the shortest front part of the records that makes room.
-/

namespace NorthgateRmm.Agent.Spool

open CrashFs

variable {P : Type} [Payload P]

namespace Queue

variable {inRollover : Uuid → Bool} {maxBytes incoming total : Nat} {records : List Metadata}

def sizeOf (records : List Metadata) : Nat := (records.map (·.size)).sum

@[simp] theorem sizeOf_nil : sizeOf [] = 0 := rfl

@[simp] theorem sizeOf_cons (m : Metadata) (ms : List Metadata) : sizeOf (m :: ms) = m.size + sizeOf ms :=
  List.sum_cons

/-- The incoming record fits beside those that are left. -/
def Fits (maxBytes incoming : Nat) (rest : List Metadata) : Prop :=
  rest.length < maxRejectedEntries ∧ sizeOf rest + incoming ≤ maxBytes

/-! ## The machine integers -/

/-- The selection loop on `int64` values. -/
def selectLoop (inRollover : Uuid → Bool) (maxBytes incoming : Int64) :
    Int64 → List Metadata → Except Error (List Metadata)
  | total, [] =>
    if maxRejectedEntries ≤ 0 ∨ maxBytes - incoming < total then .error .indexOutOfRange else .ok []
  | total, oldest :: rest =>
    if maxRejectedEntries ≤ (oldest :: rest).length ∨ maxBytes - incoming < total then
      if inRollover oldest.id then .error .corrupt
      else match selectLoop inRollover maxBytes incoming (total - .ofNat oldest.size) rest with
        | .error e => .error e
        | .ok more => .ok (oldest :: more)
    else .ok []

/-- The value of `total` after `k` rounds. -/
def runningTotal (total : Int64) (records : List Metadata) (k : Nat) : Int64 :=
  (records.take k).foldl (fun t m => t - .ofNat m.size) total

theorem toInt_ofNat {n : Nat} (h : n < 2 ^ 63) : (Int64.ofNat n).toInt = n := Int64.toInt_ofNat_of_lt h

theorem ofNat_lt_iff {a b : Nat} (ha : a < 2 ^ 63) (hb : b < 2 ^ 63) :
    Int64.ofNat a < Int64.ofNat b ↔ a < b := by
  rw [Int64.lt_iff_toInt_lt, toInt_ofNat ha, toInt_ofNat hb, Int.ofNat_lt]

/-- Taking the size of the first record from the total leaves the total of the others. -/
theorem ofNat_sizeOf_cons (m : Metadata) (ms : List Metadata) :
    Int64.ofNat (sizeOf (m :: ms)) - Int64.ofNat m.size = Int64.ofNat (sizeOf ms) := by
  rw [← Int64.ofNat_sub _ _ (by rw [sizeOf_cons]; omega), sizeOf_cons, Nat.add_sub_cancel_left]

theorem runningTotal_eq (records : List Metadata) (k : Nat) :
    runningTotal (.ofNat (sizeOf records)) records k = .ofNat (sizeOf (records.drop k)) := by
  induction k generalizing records with
  | zero => rfl
  | succ k ih =>
    cases records with
    | nil => rfl
    | cons m ms =>
      rw [runningTotal, List.take_succ_cons, List.foldl_cons, ofNat_sizeOf_cons, List.drop_succ_cons]
      exact ih ms

theorem sizeOf_drop_le (records : List Metadata) (k : Nat) : sizeOf (records.drop k) ≤ sizeOf records :=
  ((List.drop_sublist k records).map _).sum_le_sum fun _ _ => Nat.zero_le _

/-- The guard compares what the exact integers would compare. -/
theorem lt_total_iff (hmax : maxBytes < 2 ^ 63) (hin : incoming ≤ maxBytes) (htotal : total ≤ maxBytes) :
    Int64.ofNat maxBytes - Int64.ofNat incoming < Int64.ofNat total ↔ maxBytes < total + incoming := by
  rw [← Int64.ofNat_sub _ _ hin, ofNat_lt_iff (by omega) (by omega)]
  omega

theorem selectLoop_eq (hmax : maxBytes < 2 ^ 63) (hin : incoming ≤ maxBytes) (hsum : sizeOf records ≤ maxBytes) :
    selectLoop inRollover (.ofNat maxBytes) (.ofNat incoming) (.ofNat (sizeOf records)) records =
      selectOldest inRollover maxBytes incoming (sizeOf records) records := by
  induction records with
  | nil => simp only [selectLoop, selectOldest, lt_total_iff hmax hin hsum]
  | cons m ms ih =>
    have hle : sizeOf ms ≤ maxBytes := by
      rw [sizeOf_cons] at hsum
      omega
    have hsub : sizeOf (m :: ms) - m.size = sizeOf ms := by rw [sizeOf_cons, Nat.add_sub_cancel_left]
    rw [selectLoop, selectOldest, ofNat_sizeOf_cons, hsub, ih hle]
    exact if_congr (or_congr Iff.rfl (lt_total_iff hmax hin hsum)) rfl rfl

/-! ## The selection -/

/-- `k` records are the fewest whose removal makes room. -/
structure Shortest (maxBytes incoming : Nat) (records : List Metadata) (k : Nat) : Prop where
  le : k ≤ records.length
  fits : Fits maxBytes incoming (records.drop k)
  fewest : ∀ j < k, ¬ Fits maxBytes incoming (records.drop j)

theorem guard_iff {rest : List Metadata} :
    maxRejectedEntries ≤ rest.length ∨ maxBytes < sizeOf rest + incoming ↔ ¬ Fits maxBytes incoming rest := by
  rw [Fits]
  omega

theorem fits_nil (hin : incoming ≤ maxBytes) : Fits maxBytes incoming [] :=
  ⟨by decide, by rwa [sizeOf_nil, Nat.zero_add]⟩

/-- The loop ends with the shortest selection, or at a record that is in rollover already. -/
theorem selectOldest_shortest (hin : incoming ≤ maxBytes) :
    (∃ k, selectOldest inRollover maxBytes incoming (sizeOf records) records = .ok (records.take k) ∧
      Shortest maxBytes incoming records k) ∨
    (selectOldest inRollover maxBytes incoming (sizeOf records) records = .error .corrupt ∧
      ∃ m ∈ records, inRollover m.id = true) := by
  induction records with
  | nil =>
    have hfits := fits_nil hin
    refine .inl ⟨0, ?_, Nat.le_refl 0, hfits, fun j hj => absurd hj (Nat.not_lt_zero j)⟩
    rw [selectOldest, ← List.length_nil (α := Metadata), if_neg fun h => guard_iff.mp h hfits, List.take_nil]
  | cons m ms ih =>
    have hsub : sizeOf (m :: ms) - m.size = sizeOf ms := by rw [sizeOf_cons, Nat.add_sub_cancel_left]
    by_cases hfits : Fits maxBytes incoming (m :: ms)
    · refine .inl ⟨0, ?_, Nat.zero_le _, hfits, fun j hj => absurd hj (Nat.not_lt_zero j)⟩
      rw [selectOldest, if_neg fun h => guard_iff.mp h hfits, List.take_zero]
    rw [selectOldest, if_pos (guard_iff.mpr hfits), hsub]
    cases hm : inRollover m.id with
    | true => exact .inr ⟨if_pos rfl, m, List.mem_cons_self, hm⟩
    | false =>
      rw [if_neg Bool.false_ne_true]
      rcases ih with ⟨k, hk, hshort⟩ | ⟨herr, m', hm', hin'⟩
      · refine .inl ⟨k + 1, by rw [hk, List.take_succ_cons], Nat.succ_le_succ hshort.le, hshort.fits, ?_⟩
        intro j hj
        cases j with
        | zero => exact hfits
        | succ j => exact hshort.fewest j (Nat.lt_of_succ_lt_succ hj)
      · exact .inr ⟨by rw [herr], m', List.mem_cons_of_mem _ hm', hin'⟩

end Queue

/-! ## The accepted directory -/

section Directory

variable {q : Queue} {s : Disk P} {total incoming : Nat} {records : List Metadata}

theorem sizeOf_sortByOrder (records : List Metadata) : Queue.sizeOf (sortByOrder records) = Queue.sizeOf records :=
  ((perm_sortByOrder records).map _).sum_eq

theorem total_of_rejectedUsage (h : q.rejectedUsage s = .ok (total, records)) :
    total = Queue.sizeOf (sortByOrder records) ∧ total ≤ q.maxBytes := by
  obtain ⟨-, hread, -, hbytes, hres⟩ := rejectedUsage_ok_iff.mp h
  cases hres
  exact ⟨by rw [sizeOf_sortByOrder, totalSize_eq_describe hread]; rfl, hbytes⟩

/-- The orders differ, so that the sorted list is the only one in ascending order. -/
theorem ascending_of_rejectedUsage (h : q.rejectedUsage s = .ok (total, records)) :
    (sortByOrder records).Pairwise fun a b => a.order < b.order := by
  obtain ⟨-, -, hnodup, -, hres⟩ := rejectedUsage_ok_iff.mp h
  cases hres
  have hne := ((perm_sortByOrder (metas s .rejected)).map (·.order)).nodup_iff.mpr hnodup
  refine ((pairwise_sortByOrder _).and (List.pairwise_map.mp hne)).imp ?_
  intro a b hab
  exact Nat.lt_of_le_of_ne hab.1 hab.2

theorem toRollover_eq (h : q.rejectedUsage s = .ok (total, records)) (hin : incoming ≤ q.maxBytes) :
    q.toRollover incoming s = Queue.selectOldest (fun id => Queue.present .rollover (.record id) s) q.maxBytes incoming
      (Queue.sizeOf (sortByOrder records)) (sortByOrder records) := by
  rw [Queue.toRollover, h]
  dsimp only
  rw [if_neg (Nat.not_lt.mpr hin), (total_of_rejectedUsage h).1]

theorem toRollover_quota (h : q.rejectedUsage s = .ok (total, records)) (hin : ¬ incoming ≤ q.maxBytes) :
    q.toRollover incoming s = .error .quotaExceeded := by
  rw [Queue.toRollover, h]
  exact if_pos (Nat.not_le.mp hin)

end Directory

/-! ## The move -/

section Move

variable {q : Queue} {s : Disk P} {m : Metadata} {incoming : Nat}

theorem linked {selected : List Metadata} :
    Faulty Stopped (Prog.forEach (fun m => step (.link .rejected (.record m.id) .rollover (.record m.id))
      (.quarantineUncertain m.id)) selected : Step P Unit)
      (fun r s' => r = .ok () → ∀ m ∈ selected, s'.image .rollover (.record m.id) ≠ none) s := by
  refine Prog.wp_forEach (fun done s' => ∀ m ∈ done, s'.image .rollover (.record m.id) ≠ none)
    (fun _ h => nomatch h) (fun done m rest _ s hdone => ?_) fun s h _ => h
  refine wp_step.mpr ⟨trivial, fun c _ => ?_⟩
  cases hexec : (Fs.exec c (.link .rejected (.record m.id) .rollover (.record m.id)) s).1 with
  | error e => exact nofun
  | ok _ =>
    intro m' hm'
    rcases List.mem_append.mp hm' with hm' | hm'
    · exact Fs.image_kept_ne (hdone m' hm') fun h => h
    · rw [List.mem_singleton.mp hm']
      exact Fs.image_linked hexec

theorem removed {selected : List Metadata} (h : ∀ m ∈ selected, s.image .rollover (.record m.id) ≠ none) :
    Faulty Stopped (Prog.forEach (fun m => step (.remove .rejected (.record m.id)) (.quarantineUncertain m.id))
      selected : Step P Unit)
      (fun r s' => r = .ok () → ∀ m ∈ selected,
        s'.image .rollover (.record m.id) ≠ none ∧ s'.image .rejected (.record m.id) = none) s := by
  refine Prog.wp_forEach (fun done s' => (∀ m ∈ selected, s'.image .rollover (.record m.id) ≠ none) ∧
      ∀ m ∈ done, s'.image .rejected (.record m.id) = none)
    ⟨h, fun _ hm => nomatch hm⟩ (fun done m rest _ s hs => ?_) fun s hs _ m hm => ⟨hs.1 m hm, hs.2 m hm⟩
  refine wp_step.mpr ⟨trivial, fun c _ => ?_⟩
  cases hexec : (Fs.exec c (.remove .rejected (.record m.id)) s).1 with
  | error e => exact nofun
  | ok _ =>
    refine ⟨fun m' hm' => Fs.image_kept_ne (hs.1 m' hm') fun hr => absurd hr.1 (by decide), fun m' hm' => ?_⟩
    rcases List.mem_append.mp hm' with hm' | hm'
    · exact Fs.image_unadded (hs.2 m' hm') fun h => h
    · rw [List.mem_singleton.mp hm']
      exact Fs.image_removed hexec

theorem evict_faulty {selected : List Metadata} {last : Uuid} :
    Faulty Stopped (Queue.evict selected last : Step P (List Uuid))
      (fun r s' => ∀ ids, r = .ok ids → ids = selected.map (·.id) ∧ ∀ m ∈ selected,
        s'.image .rollover (.record m.id) ≠ none ∧ s'.image .rejected (.record m.id) = none) s := by
  refine Prog.wp_bind.mpr (Prog.wp_mono linked fun r s₁ h₁ => ?_)
  cases r with
  | error e => exact nofun
  | ok _ =>
    refine Prog.wp_bind.mpr (wp_step_ok rfl trivial ?_ fun _ => ⟨_, _, rfl, nofun⟩)
    have h₂ : ∀ m ∈ selected, (s₁.synced .rollover).image .rollover (.record m.id) ≠ none := by
      rw [Fs.image_synced]
      exact h₁ rfl
    refine Prog.wp_bind.mpr (Prog.wp_mono (removed h₂) fun r s₃ h₃ => ?_)
    cases r with
    | error e => exact nofun
    | ok _ =>
      refine Prog.wp_bind.mpr (wp_step_ok rfl trivial ?_ fun _ => ⟨_, _, rfl, nofun⟩)
      intro ids hids
      rw [Fs.image_synced]
      exact ⟨(Except.ok.inj hids).symm, h₃ rfl⟩

/-- On success the returned IDs are those of the selection, and their records have moved. -/
theorem makeRejectedRoom_moves : Faulty Stopped (q.makeRejectedRoom incoming : Step P (List Uuid))
    (fun r s' => ∀ ids, r = .ok ids → ∃ chosen, q.toRollover incoming s = .ok chosen ∧
      ids = chosen.map (·.id) ∧ ∀ m ∈ chosen,
        s'.image .rollover (.record m.id) ≠ none ∧ s'.image .rejected (.record m.id) = none) s := by
  refine Prog.wp_bind.mpr (wp_read trivial ?_ nofun)
  cases hchosen : q.toRollover incoming s with
  | error e => exact nofun
  | ok chosen =>
    cases chosen with
    | nil =>
      intro ids hids
      exact ⟨[], rfl, (Except.ok.inj hids).symm, fun _ h => nomatch h⟩
    | cons m more =>
      refine Prog.wp_mono evict_faulty fun r s' h ids hids => ?_
      exact ⟨m :: more, rfl, h ids hids⟩

end Move

/-- The machine's loop, its exactness, its selection and what a successful call has done, for
every directory that `rejectedUsageLocked` accepts. -/
theorem makeRejectedRoom_evicts_shortest {q : Queue} {s : Disk P} {total incoming : Nat} {records : List Metadata}
    (hmax : q.maxBytes < 2 ^ 63) (hin : incoming < 2 ^ 63)
    (husage : q.rejectedUsage s = .ok (total, records)) :
    (sortByOrder records).Perm records ∧ (sortByOrder records).Pairwise (fun a b => a.order < b.order) ∧
    q.toRollover incoming s =
      (if Int64.ofNat q.maxBytes < Int64.ofNat incoming then .error .quotaExceeded
        else Queue.selectLoop (fun id => Queue.present .rollover (.record id) s) (.ofNat q.maxBytes)
          (.ofNat incoming) (.ofNat total) (sortByOrder records)) ∧
    q.toRollover incoming s ≠ .error .indexOutOfRange ∧
    (incoming ≤ q.maxBytes →
      (Int64.ofNat q.maxBytes - Int64.ofNat incoming).toInt = q.maxBytes - incoming ∧
      (∀ k ≤ records.length, (Queue.runningTotal (.ofNat total) (sortByOrder records) k).toInt =
        Queue.sizeOf ((sortByOrder records).drop k)) ∧
      ((∀ m ∈ records, Queue.present .rollover (.record m.id) s = false) →
        ∃ chosen, q.toRollover incoming s = .ok chosen)) ∧
    (∀ chosen, q.toRollover incoming s = .ok chosen → ∃ k,
      chosen = (sortByOrder records).take k ∧
        Queue.Shortest q.maxBytes incoming (sortByOrder records) k) ∧
    Faulty Stopped (q.makeRejectedRoom incoming : Step P (List Uuid))
      (fun r s' => ∀ ids, r = .ok ids → ∃ chosen, q.toRollover incoming s = .ok chosen ∧
        ids = chosen.map (·.id) ∧ ∀ m ∈ chosen,
          s'.image .rollover (.record m.id) ≠ none ∧ s'.image .rejected (.record m.id) = none) s := by
  obtain ⟨htotal, hle⟩ := total_of_rejectedUsage husage
  have hsum : Queue.sizeOf (sortByOrder records) ≤ q.maxBytes := htotal ▸ hle
  have hperm := perm_sortByOrder records
  refine ⟨hperm, ascending_of_rejectedUsage husage, ?_, ?_, fun hfit => ⟨?_, fun k _ => ?_, fun hfree => ?_⟩,
    fun chosen hchosen => ?_, makeRejectedRoom_moves⟩
  · simp only [Queue.ofNat_lt_iff hmax hin]
    by_cases hfit : incoming ≤ q.maxBytes
    · rw [if_neg (Nat.not_lt.mpr hfit), toRollover_eq husage hfit, htotal, Queue.selectLoop_eq hmax hfit hsum]
    · rw [if_pos (Nat.not_le.mp hfit), toRollover_quota husage hfit]
  · by_cases hfit : incoming ≤ q.maxBytes
    · rw [toRollover_eq husage hfit]
      rcases Queue.selectOldest_shortest hfit with ⟨k, hk, -⟩ | ⟨herr, -⟩
      · rw [hk]
        exact nofun
      · rw [herr]
        exact nofun
    · rw [toRollover_quota husage hfit]
      exact nofun
  · rw [← Int64.ofNat_sub _ _ hfit, Queue.toInt_ofNat (by omega)]
    omega
  · rw [htotal, Queue.runningTotal_eq, Queue.toInt_ofNat]
    exact Nat.lt_of_le_of_lt (Nat.le_trans (Queue.sizeOf_drop_le _ k) hsum) hmax
  · rw [toRollover_eq husage hfit]
    rcases Queue.selectOldest_shortest hfit with ⟨k, hk, -⟩ | ⟨-, m, hm, hroll⟩
    · exact ⟨_, hk⟩
    · rw [hfree m (hperm.mem_iff.mp hm)] at hroll
      exact nomatch hroll
  · have hfit : incoming ≤ q.maxBytes := by
      by_contra hfit
      rw [toRollover_quota husage hfit] at hchosen
      exact nomatch hchosen
    rw [toRollover_eq husage hfit] at hchosen
    rcases Queue.selectOldest_shortest hfit with ⟨k, hk, hshort⟩ | ⟨herr, -⟩
    · exact ⟨k, Except.ok.inj (hchosen.symm.trans hk), hshort⟩
    · exact nomatch hchosen.symm.trans herr

/-- A spool for one record, with one rejected record in it. -/
def rejectedDisk : Disk (List UInt8) :=
  ((Process.openedSession.step maxRecordBytes (.call Process.fillingCall)).step maxRecordBytes
    (.call (.quarantine none ⟨0x000000000000400080000000000000aa⟩))).disk

theorem rejectedDisk_evicts : ∃ total records chosen,
    Queue.rejectedUsage { maxBytes := maxRecordBytes } rejectedDisk = .ok (total, records) ∧
    Queue.toRollover { maxBytes := maxRecordBytes } maxRecordBytes rejectedDisk = .ok chosen ∧
    chosen.map (·.id) = [⟨0x000000000000400080000000000000aa⟩] ∧
    ∃ k, chosen = (sortByOrder records).take k ∧
      Queue.Shortest maxRecordBytes maxRecordBytes (sortByOrder records) k := by
  have hids : (Queue.toRollover { maxBytes := maxRecordBytes } maxRecordBytes rejectedDisk).toOption.map
      (·.map (·.id)) = some [⟨0x000000000000400080000000000000aa⟩] := by decide +kernel
  cases hchosen : Queue.toRollover { maxBytes := maxRecordBytes } maxRecordBytes rejectedDisk with
  | error e =>
    rw [hchosen] at hids
    cases hids
  | ok chosen =>
    cases husage : Queue.rejectedUsage { maxBytes := maxRecordBytes } rejectedDisk with
    | error e =>
      rw [Queue.toRollover, husage] at hchosen
      cases hchosen
    | ok usage =>
      obtain ⟨total, records⟩ := usage
      have h := makeRejectedRoom_evicts_shortest (by decide) (show maxRecordBytes < 2 ^ 63 by decide) husage
      rw [hchosen] at hids
      exact ⟨total, records, chosen, rfl, rfl, Option.some.inj hids, h.2.2.2.2.2.1 chosen hchosen⟩

end NorthgateRmm.Agent.Spool
