import NorthgateRmm.Uuid

/-!
# Rotation lineage

The rows of `endpoint_identities` under the schema of migrations 0004, 0006 and 0007: the
trigger `enforce_endpoint_identity_lineage`, the primary key, the check against rows that
precede themselves and the foreign key from a row to its predecessor, whose `RESTRICT` is
checked at the end of the statement that deletes. The other columns and what the schema
asks of them are left open; they can only make it refuse more.
-/

namespace NorthgateRmm.Server.Lineage

/-- A row: the columns of the lineage, and the rest. -/
structure Row (T ρ : Type) where
  identityId : Uuid
  endpointId : Uuid
  createdAt : T
  previousIdentityId : Option Uuid
  rest : ρ

variable {T ρ : Type}

/-- The columns that a lineage is made of. -/
def Row.lineage (row : Row T ρ) : Uuid × Uuid × T × Option Uuid :=
  (row.identityId, row.endpointId, row.createdAt, row.previousIdentityId)

def byId (rows : List (Row T ρ)) (identityId : Uuid) : Option (Row T ρ) := rows.find? (·.identityId = identityId)

variable {rows : List (Row T ρ)}

theorem Row.lineage_eq {a b : Row T ρ} : a.lineage = b.lineage ↔ a.identityId = b.identityId ∧
    a.endpointId = b.endpointId ∧ a.createdAt = b.createdAt ∧ a.previousIdentityId = b.previousIdentityId := by
  simp [Row.lineage]

variable {row : Row T ρ}

theorem byId_mem {identityId : Uuid} (h : byId rows identityId = some row) :
    row ∈ rows ∧ row.identityId = identityId :=
  ⟨List.mem_of_find?_eq_some h, by simpa using List.find?_some h⟩

theorem byId_eq_none {identityId : Uuid} : byId rows identityId = none ↔ identityId ∉ rows.map Row.identityId := by
  simp [byId]

theorem eq_of_key (hkey : (rows.map Row.identityId).Nodup) {a b : Row T ρ} (ha : a ∈ rows) (hb : b ∈ rows)
    (h : a.identityId = b.identityId) : a = b :=
  List.inj_on_of_nodup_map hkey ha hb h

/-! ## Following predecessors -/

/-- `predecessor` is the row that `row` replaced. -/
def Precedes (rows : List (Row T ρ)) (predecessor row : Row T ρ) : Prop :=
  predecessor ∈ rows ∧ row.previousIdentityId = some predecessor.identityId

/-- The walk is a chain of rows of one endpoint that ends at a row without predecessor. -/
structure Ends (rows : List (Row T ρ)) (row : Row T ρ) (walk : List (Row T ρ)) : Prop where
  head : walk.head? = some row
  chain : walk.IsChain fun row predecessor => Precedes rows predecessor row
  ends : ∃ root, walk.getLast? = some root ∧ root.previousIdentityId = none
  endpoint : ∀ met ∈ walk, met ∈ rows ∧ met.endpointId = row.endpointId

theorem Ends.root (hrow : row ∈ rows) (h : row.previousIdentityId = none) : Ends rows row [row] where
  head := rfl
  chain := .singleton _
  ends := ⟨row, rfl, h⟩
  endpoint met hmet := by
    obtain rfl := List.mem_singleton.mp hmet
    exact ⟨hrow, rfl⟩

theorem Ends.cons {predecessor row : Row T ρ} {walk : List (Row T ρ)} (h : Ends rows predecessor walk) (hrow : row ∈ rows)
    (hprecedes : Precedes rows predecessor row) (hendpoint : predecessor.endpointId = row.endpointId) :
    Ends rows row (row :: walk) := by
  obtain ⟨rest, rfl⟩ : ∃ rest, walk = predecessor :: rest := List.head?_eq_some_iff.mp h.head
  refine ⟨rfl, .cons_cons hprecedes h.chain, ?_, ?_⟩
  · obtain ⟨root, hlast, hroot⟩ := h.ends
    exact ⟨root, by rwa [List.getLast?_cons_cons], hroot⟩
  · intro met hmet
    rcases List.mem_cons.mp hmet with rfl | hmet
    · exact ⟨hrow, rfl⟩
    · exact ⟨(h.endpoint met hmet).1, (h.endpoint met hmet).2.trans hendpoint⟩

/-! ## The schema -/

inductive Statement (T ρ : Type)
  | insert (row : Row T ρ)
  /-- `listed`: one of the columns of the lineage stands in the `SET` list -/
  | update (target : Uuid) (listed : Bool) (new : Row T ρ)
  | delete (targets : List Uuid)

/-- The row that an `UPDATE` makes of `old`: what is not listed stays. -/
def updated (old : Row T ρ) (listed : Bool) (new : Row T ρ) : Row T ρ :=
  if listed then new else { old with rest := new.rest }

variable [LinearOrder T]

/-- The trigger function, with the old row of an `UPDATE`. -/
def enforceEndpointIdentityLineage (rows : List (Row T ρ)) (old : Option (Row T ρ)) (new : Row T ρ) :
    Except String Unit :=
  if old.any (·.lineage ≠ new.lineage) then .error "identity rotation lineage is immutable"
  else
    match new.previousIdentityId with
    | none => .ok ()
    | some previous =>
      match byId rows previous with
      | none => .error "identity rotation predecessor must already exist"
      | some predecessor =>
        if predecessor.endpointId ≠ new.endpointId then
          .error "identity rotation predecessor belongs to another endpoint"
        else if new.createdAt ≤ predecessor.createdAt then .error "identity rotation predecessor must be older"
        else .ok ()

/-- A statement; `others` says whether it meets the remaining constraints. -/
def execute (others : Bool) (rows : List (Row T ρ)) : Statement T ρ → Except String (List (Row T ρ))
  | .insert row =>
    match enforceEndpointIdentityLineage rows none row with
    | .error e => .error e
    | .ok _ =>
      if (byId rows row.identityId).isSome then .error "endpoint_identities_pkey"
      else if row.previousIdentityId = some row.identityId then .error "endpoint_identities_rotation_check"
      else if others then .ok (rows ++ [row]) else .error "constraint"
  | .update target listed new =>
    match byId rows target with
    | none => .ok rows
    | some old =>
      let new := updated old listed new
      match if listed then enforceEndpointIdentityLineage rows (some old) new else .ok () with
      | .error e => .error e
      | .ok _ =>
        if others then .ok (rows.map fun row => if row.identityId = target then new else row)
        else .error "constraint"
  | .delete targets =>
    let gone := rows.filter (·.identityId ∈ targets)
    let left := rows.filter (·.identityId ∉ targets)
    if left.any fun row => gone.any fun predecessor =>
        row.previousIdentityId = some predecessor.identityId ∧ row.endpointId = predecessor.endpointId then
      .error "endpoint_identities_previous_identity_endpoint_fkey"
    else if others then .ok left else .error "constraint"

/-- The rows on which migration 0006 succeeds: it validates the foreign key, and looks for
rows that are not younger than their predecessors. -/
structure Migrated (rows : List (Row T ρ)) : Prop where
  key : (rows.map Row.identityId).Nodup
  foreign : ∀ row ∈ rows, ∀ previous, row.previousIdentityId = some previous →
    ∃ predecessor ∈ rows, predecessor.identityId = previous ∧ predecessor.endpointId = row.endpointId
  chronological : ∀ row ∈ rows, ∀ predecessor ∈ rows, row.previousIdentityId = some predecessor.identityId →
    ¬ row.createdAt ≤ predecessor.createdAt

/-- The states of the table. -/
inductive Reachable : List (Row T ρ) → Prop
  | migrated {rows : List (Row T ρ)} : Migrated rows → Reachable rows
  | execute (others : Bool) {rows rows' : List (Row T ρ)} (statement : Statement T ρ) :
      Reachable rows → execute others rows statement = .ok rows' → Reachable rows'

/-- Statements that leave the row with key `identityId` in the table. -/
inductive Keeping (identityId : Uuid) : List (Row T ρ) → List (Row T ρ) → Prop
  | refl (rows : List (Row T ρ)) : Keeping identityId rows rows
  | execute {others : Bool} {rows rows' rows'' : List (Row T ρ)} {statement : Statement T ρ} :
      Keeping identityId rows rows' → execute others rows' statement = .ok rows'' →
      identityId ∈ rows''.map Row.identityId → Keeping identityId rows rows''

/-! ## What a statement does -/

/-- The table holds the predecessor of `row`, if it has one; it is of the same endpoint and older. -/
def Rooted (rows : List (Row T ρ)) (row : Row T ρ) : Prop :=
  ∀ previous, row.previousIdentityId = some previous →
    ∃ predecessor ∈ rows, predecessor.identityId = previous ∧ predecessor.endpointId = row.endpointId ∧
      predecessor.createdAt < row.createdAt

structure Forest (rows : List (Row T ρ)) : Prop where
  key : (rows.map Row.identityId).Nodup
  predecessor : ∀ row ∈ rows, Rooted rows row

variable {others : Bool} {rows' : List (Row T ρ)} {statement : Statement T ρ}

/-- What the trigger lets through. -/
theorem enforce_ok {old : Option (Row T ρ)} {new : Row T ρ}
    (h : enforceEndpointIdentityLineage rows old new = .ok ()) :
    (∀ row, old = some row → row.lineage = new.lineage) ∧ Rooted rows new := by
  unfold enforceEndpointIdentityLineage at h
  split at h
  · cases h
  · next hsame =>
    refine ⟨fun row hrow => by simpa [hrow] using hsame, fun previous hprevious => ?_⟩
    rw [hprevious] at h
    dsimp only at h
    split at h
    · cases h
    · next predecessor hfound =>
      split at h
      · cases h
      · next hendpoint =>
        split at h
        · cases h
        · next holder =>
          exact ⟨predecessor, (byId_mem hfound).1, (byId_mem hfound).2, not_not.mp hendpoint, not_le.mp holder⟩

/-- What an accepted statement does to the table. -/
theorem execute_cases (hkey : (rows.map Row.identityId).Nodup) (h : execute others rows statement = .ok rows') :
    (∃ row : Row T ρ, row.identityId ∉ rows.map Row.identityId ∧ rows' = rows ++ [row] ∧ Rooted rows row) ∨
    (∃ change : Row T ρ → Row T ρ, rows' = rows.map change ∧ ∀ row ∈ rows, (change row).lineage = row.lineage) ∨
    ∃ targets : List Uuid, rows' = rows.filter (·.identityId ∉ targets) ∧
      ∀ row ∈ rows', ∀ predecessor ∈ rows, row.previousIdentityId = some predecessor.identityId →
        row.endpointId = predecessor.endpointId → predecessor ∈ rows' := by
  cases statement with
  | insert row =>
    left
    simp only [execute] at h
    split at h
    · cases h
    · next hguard =>
      split at h
      · cases h
      · next hfresh =>
        split at h
        · cases h
        · split at h
          · cases h
            exact ⟨row, byId_eq_none.mp (by simpa using hfresh), rfl, (enforce_ok hguard).2⟩
          · cases h
  | update target listed new =>
    right; left
    simp only [execute] at h
    split at h
    · cases h
      exact ⟨id, (List.map_id _).symm, fun _ _ => rfl⟩
    · next old hold =>
      split at h
      · cases h
      · next hguard =>
        split at h
        · cases h
          refine ⟨_, rfl, fun row hrow => ?_⟩
          split
          · next htarget =>
            obtain rfl := eq_of_key hkey hrow (byId_mem hold).1 (htarget.trans (byId_mem hold).2.symm)
            cases listed with
            | true => exact ((enforce_ok hguard).1 row rfl).symm
            | false => rfl
          · rfl
        · cases h
  | delete targets =>
    right; right
    simp only [execute] at h
    split at h
    · cases h
    · next hrestrict =>
      split at h
      · cases h
        refine ⟨targets, rfl, fun row hrow predecessor hpredecessor hprevious hendpoint => ?_⟩
        -- `RESTRICT`: a predecessor that went would be referenced by a row that stayed
        by_contra hgone
        refine hrestrict (List.any_eq_true.mpr ⟨row, hrow, List.any_eq_true.mpr ⟨predecessor, ?_, ?_⟩⟩)
        · simpa [hpredecessor] using hgone
        · simpa using ⟨hprevious, hendpoint⟩
      · cases h

/-! ## The invariant -/

theorem Forest.insert (h : Forest rows) (hfresh : row.identityId ∉ rows.map Row.identityId)
    (hrow : Rooted rows row) : Forest (rows ++ [row]) where
  key := by
    rw [List.map_append, List.nodup_append_comm]
    exact List.nodup_cons.mpr ⟨hfresh, h.key⟩
  predecessor other hother previous hprevious := by
    have hrooted : Rooted rows other := by
      rcases List.mem_append.mp hother with hold | hnew
      · exact h.predecessor other hold
      · obtain rfl := List.mem_singleton.mp hnew
        exact hrow
    obtain ⟨predecessor, hmem, hrest⟩ := hrooted previous hprevious
    exact ⟨predecessor, List.mem_append_left _ hmem, hrest⟩

theorem Forest.update (h : Forest rows) {change : Row T ρ → Row T ρ}
    (hchange : ∀ row ∈ rows, (change row).lineage = row.lineage) : Forest (rows.map change) where
  key := by
    have hids : (rows.map change).map Row.identityId = rows.map Row.identityId := by
      rw [List.map_map]
      exact List.map_congr_left fun row hrow => (Row.lineage_eq.mp (hchange row hrow)).1
    exact hids ▸ h.key
  predecessor row' hrow' previous hprevious := by
    obtain ⟨row, hrow, rfl⟩ := List.mem_map.mp hrow'
    obtain ⟨-, hendpoint, hcreated, hsame⟩ := Row.lineage_eq.mp (hchange row hrow)
    obtain ⟨predecessor, hmem, hid, hother, holder⟩ := h.predecessor row hrow previous (hsame ▸ hprevious)
    obtain ⟨hid', hendpoint', hcreated', -⟩ := Row.lineage_eq.mp (hchange predecessor hmem)
    exact ⟨change predecessor, List.mem_map_of_mem hmem, hid'.trans hid,
      hendpoint'.trans (hother.trans hendpoint.symm), by rwa [hcreated', hcreated]⟩

theorem Forest.delete (h : Forest rows) {keep : Row T ρ → Bool}
    (hkeep : ∀ row ∈ rows.filter keep, ∀ predecessor ∈ rows, row.previousIdentityId = some predecessor.identityId →
      row.endpointId = predecessor.endpointId → predecessor ∈ rows.filter keep) : Forest (rows.filter keep) where
  key := h.key.sublist (List.filter_sublist.map _)
  predecessor row hrow previous hprevious := by
    obtain ⟨predecessor, hmem, rfl, hendpoint, holder⟩ :=
      h.predecessor row (List.mem_of_mem_filter hrow) previous hprevious
    exact ⟨predecessor, hkeep row hrow predecessor hmem hprevious hendpoint.symm, rfl, hendpoint, holder⟩

theorem Forest.execute (hforest : Forest rows) (h : execute others rows statement = .ok rows') : Forest rows' := by
  obtain ⟨row, hfresh, rfl, hrow⟩ | ⟨change, rfl, hchange⟩ | ⟨targets, rfl, hkeep⟩ := execute_cases hforest.key h
  · exact hforest.insert hfresh hrow
  · exact hforest.update hchange
  · exact hforest.delete hkeep

/-- A statement leaves the lineage of every row that stays. -/
theorem Forest.lineage_execute (hforest : Forest rows) (h : Lineage.execute others rows statement = .ok rows')
    {row row' : Row T ρ} (hrow : row ∈ rows) (hrow' : row' ∈ rows') (hid : row'.identityId = row.identityId) :
    row'.lineage = row.lineage := by
  obtain ⟨new, hfresh, rfl, -⟩ | ⟨change, rfl, hchange⟩ | ⟨targets, rfl, -⟩ := execute_cases hforest.key h
  · rcases List.mem_append.mp hrow' with hold | hnew
    · rw [eq_of_key hforest.key hold hrow hid]
    · obtain rfl := List.mem_singleton.mp hnew
      exact absurd (hid ▸ List.mem_map_of_mem hrow) hfresh
  · obtain ⟨old, hold, rfl⟩ := List.mem_map.mp hrow'
    have hkeyed : (change old).identityId = old.identityId := (Row.lineage_eq.mp (hchange old hold)).1
    rw [hchange old hold, eq_of_key hforest.key hold hrow (hkeyed.symm.trans hid)]
  · rw [eq_of_key hforest.key (List.mem_of_mem_filter hrow') hrow hid]

/-- Along statements that keep a row, its lineage stays. -/
theorem Keeping.lineage (hrow : row ∈ rows) (h : Keeping row.identityId rows rows')
    (hforest : Forest rows) :
    Forest rows' ∧ row.identityId ∈ rows'.map Row.identityId ∧
      ∀ row' ∈ rows', row'.identityId = row.identityId → row'.lineage = row.lineage := by
  induction h with
  | refl =>
    exact ⟨hforest, List.mem_map_of_mem hrow, fun row' hrow' hid => by rw [eq_of_key hforest.key hrow' hrow hid]⟩
  | execute _ hstep hkept ih =>
    obtain ⟨hforest', hin, hsame⟩ := ih hrow hforest
    obtain ⟨middle, hmiddle, hid⟩ := List.mem_map.mp hin
    refine ⟨hforest'.execute hstep, hkept, fun row' hrow' hid' => ?_⟩
    exact (hforest'.lineage_execute hstep hmiddle hrow' (hid'.trans hid.symm)).trans (hsame middle hmiddle hid)

end NorthgateRmm.Server.Lineage
