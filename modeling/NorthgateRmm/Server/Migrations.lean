import NorthgateRmm.Lib.Dict
import NorthgateRmm.Lib.Sha256

/-!
# Schema migrations

`apply_migrations` and `verify_schema_state`. A directory is a dictionary from file names
to what `read_text` makes of the files. The database is the table `schema_migrations`, if
it is there, and everything else; `sql` says what a script does to both. A run is one
transaction: it commits everything or nothing.
-/

namespace NorthgateRmm.Server.Migrations

abbrev Directory := Dict String (Option String)

structure Database (σ : Type) where
  ledger : Option (Dict String String)
  rest : σ

/-- What a script does; nothing when PostgreSQL refuses it. -/
abbrev Sql (σ : Type) := String → Database σ → Option (Database σ)

inductive Error
  | validation (message : String) (names : List String)
  | unreadable (name : String)
  | database

/-- The pattern `[0-9][0-9][0-9][0-9]_*.sql`. -/
def isMigration (name : String) : Bool :=
  match name.toList with
  | a :: b :: c :: d :: '_' :: rest => [a, b, c, d].all Char.isDigit && ".sql".toList.isSuffixOf rest
  | _ => false

/-- The migration files, sorted by name. -/
def migrations (directory : Directory) : List (String × Option String) :=
  (directory.entries.filter fun file => isMigration file.1).mergeSort fun a b => a.1 ≤ b.1

/-- `hashlib.sha256(script.encode("utf-8")).hexdigest()`. -/
def checksum (script : String) : String := sha256Hex script.toUTF8.data.toList

/-- `INSERT INTO schema_migrations`: the version is the primary key of at most 255 characters. -/
def record {σ : Type} (name sha256 : String) (db : Database σ) : Option (Database σ) :=
  match db.ledger with
  | none => none
  | some ledger =>
    if ledger.get? name = none ∧ name.length ≤ 255 then some { db with ledger := some (ledger.set name sha256) } else none

/-- The loop over the files. -/
def applyEach {σ : Type} (sql : Sql σ) (applied : Dict String String) :
    List (String × Option String) → Database σ → Except Error (List String × Database σ)
  | [], db => .ok ([], db)
  | (name, none) :: _, _ => .error (.unreadable name)
  | (name, some script) :: files, db =>
    match applied.get? name with
    | some previous =>
      if previous ≠ checksum script then .error (.validation "applied migration checksum changed" [name])
      else applyEach sql applied files db
    | none =>
      match (sql script db).bind (record name (checksum script)) with
      | none => .error .database
      | some db =>
        match applyEach sql applied files db with
        | .ok (names, db) => .ok (name :: names, db)
        | .error e => .error e

/-- `max(applied)`. -/
def appliedHead (applied : Dict String String) : Option String :=
  match applied.entries.map Prod.fst with
  | [] => none
  | name :: names => some (names.foldl max name)

/-- Files without a record that come before the last applied one. -/
def outOfOrder (applied : Dict String String) (names : List String) : List String :=
  match appliedHead applied with
  | none => []
  | some head => names.filter fun name => applied.get? name = none ∧ name < head

/-- The body of the transaction. -/
def transaction {σ : Type} (sql : Sql σ) (directory : Directory) (db : Database σ) :
    Except Error (List String × Database σ) :=
  let files := migrations directory
  let discovered := files.map Prod.fst
  let applied := db.ledger.getD .empty
  let missing := (applied.entries.map Prod.fst).filter (· ∉ discovered)
  if files = [] then .error (.validation "no database migrations were found" [])
  else if missing ≠ [] then
    .error (.validation "applied migrations are missing from source" (missing.mergeSort fun a b => a ≤ b))
  else if outOfOrder applied discovered ≠ [] then
    .error (.validation "unapplied migrations precede the applied migration head" (outOfOrder applied discovered))
  else applyEach sql applied files { db with ledger := some applied }

/-- `apply_migrations`; `commits` says whether the connection survives up to the commit. -/
def applyMigrations {σ : Type} (sql : Sql σ) (commits : Bool) (directory : Directory) (db : Database σ) :
    Except Error (List String) × Database σ :=
  match transaction sql directory db with
  | .error e => (.error e, db)
  | .ok (names, db') => if commits then (.ok names, db') else (.error .database, db)

/-- The names and checksums of files, when all of them can be read. -/
def checksums : List (String × Option String) → Except Error (List (String × String))
  | [] => .ok []
  | (name, none) :: _ => .error (.unreadable name)
  | (name, some script) :: files =>
    match checksums files with
    | .ok sums => .ok ((name, checksum script) :: sums)
    | .error e => .error e

/-- What is recorded. -/
def Database.Recorded {σ : Type} (db : Database σ) (name sha256 : String) : Prop :=
  (name, sha256) ∈ (db.ledger.getD .empty).entries

/-! ## The files -/

section Files

variable {directory : Directory}

theorem nodup_migrations : ((migrations directory).map Prod.fst).Nodup := by
  have hperm := (List.mergeSort_perm (directory.entries.filter fun file => isMigration file.1) fun a b => a.1 ≤ b.1)
  exact (hperm.map Prod.fst).nodup_iff.mpr (directory.nodup.sublist (List.filter_sublist.map _))

theorem sorted_migrations : ((migrations directory).map Prod.fst).Pairwise (· < ·) := by
  have hsorted : (migrations directory).Pairwise fun a b => a.1 ≤ b.1 := by
    have := @List.pairwise_mergeSort _ (fun a b : String × Option String => decide (a.1 ≤ b.1))
      (fun a b c hab hbc => by simpa using le_trans (of_decide_eq_true hab) (of_decide_eq_true hbc))
      (fun a b => by simpa using le_total a.1 b.1) (directory.entries.filter fun file => isMigration file.1)
    simpa [migrations] using this
  have hle := List.pairwise_map.mpr hsorted
  exact (hle.and nodup_migrations).imp fun h => lt_of_le_of_ne h.1 h.2

theorem map_fst_checksums {files : List (String × Option String)} {sums : List (String × String)}
    (h : checksums files = .ok sums) : sums.map Prod.fst = files.map Prod.fst := by
  induction files generalizing sums with
  | nil =>
    cases h
    rfl
  | cons file files ih =>
    obtain ⟨file, text⟩ := file
    cases text with
    | none => cases h
    | some script =>
      simp only [checksums] at h
      cases hrest : checksums files with
      | error e =>
        rw [hrest] at h
        cases h
      | ok rest =>
        rw [hrest] at h
        cases h
        simp [ih hrest]

end Files

/-! ## One run -/

section Run

variable {σ : Type} {sql : Sql σ} {applied : Dict String String} {db db' : Database σ} {names : List String}

/-- Scripts leave the table `schema_migrations` alone. -/
def LeavesLedger (sql : Sql σ) : Prop := ∀ script db db', sql script db = some db' → db'.ledger = db.ledger

theorem record_ok {name sha256 : String} (h : record name sha256 db = some db') :
    ∃ ledger, db.ledger = some ledger ∧ ledger.get? name = none ∧ db' = { db with ledger := some (ledger.set name sha256) } := by
  unfold record at h
  split at h
  · cases h
  · rename_i ledger hledger
    split at h
    · rename_i hcond
      cases h
      exact ⟨ledger, hledger, hcond.1, rfl⟩
    · cases h

/-- What the loop does: the files without a record are executed in order and recorded, and
the others carry the recorded checksums. -/
theorem applyEach_ok (hsql : LeavesLedger sql) {files : List (String × Option String)} {ledger : Dict String String}
    (hledger : db.ledger = some ledger) (h : applyEach sql applied files db = .ok (names, db')) :
    ∃ sums ledger', checksums files = .ok sums ∧ db'.ledger = some ledger' ∧
      names = (files.map Prod.fst).filter (applied.get? · = none) ∧
      (∀ e ∈ sums, applied.get? e.1 = none ∨ applied.get? e.1 = some e.2) ∧
      ∀ name sum, (name, sum) ∈ ledger'.entries ↔
        (name, sum) ∈ ledger.entries ∨ (name, sum) ∈ sums ∧ applied.get? name = none := by
  induction files generalizing db ledger names with
  | nil =>
    cases h
    exact ⟨[], ledger, rfl, hledger, rfl, List.forall_mem_nil _, by simp⟩
  | cons file files ih =>
    obtain ⟨file, text⟩ := file
    cases text with
    | none => cases h
    | some script =>
      simp only [applyEach] at h
      cases happlied : applied.get? file with
      | some previous =>
        rw [happlied] at h
        dsimp only at h
        split at h
        · cases h
        · rename_i hsame
          rw [ne_eq, not_not] at hsame
          obtain ⟨sums, ledger', hsums, hledger', rfl, hagree, hmem⟩ := ih hledger h
          refine ⟨(file, checksum script) :: sums, ledger', by simp [checksums, hsums], hledger', ?_, ?_, ?_⟩
          · simp [happlied]
          · exact List.forall_mem_cons.mpr ⟨.inr (by rw [happlied, hsame]), hagree⟩
          · intro name sum
            rw [hmem, List.mem_cons]
            constructor
            · rintro (hold | ⟨hnew, hnone⟩)
              · exact .inl hold
              · exact .inr ⟨.inr hnew, hnone⟩
            · rintro (hold | ⟨heq | hnew, hnone⟩)
              · exact .inl hold
              · cases heq
                simp [happlied] at hnone
              · exact .inr ⟨hnew, hnone⟩
      | none =>
        rw [happlied] at h
        dsimp only at h
        cases hexec : (sql script db).bind (record file (checksum script)) with
        | none =>
          rw [hexec] at h
          cases h
        | some db₁ =>
          rw [hexec] at h
          dsimp only at h
          obtain ⟨db₀, hscript, hrecord⟩ := Option.bind_eq_some_iff.mp hexec
          obtain ⟨ledger₀, hledger₀, hfresh, rfl⟩ := record_ok hrecord
          rw [hsql _ _ _ hscript, hledger] at hledger₀
          cases hledger₀
          cases hrest : applyEach sql applied files { db₀ with ledger := some (ledger.set file (checksum script)) } with
          | error e =>
            rw [hrest] at h
            cases h
          | ok result =>
            rw [hrest] at h
            cases h
            obtain ⟨sums, ledger', hsums, hledger', hnames, hagree, hmem⟩ := ih rfl hrest
            refine ⟨(file, checksum script) :: sums, ledger', by simp [checksums, hsums], hledger', ?_, ?_, ?_⟩
            · simp [happlied, hnames]
            · exact List.forall_mem_cons.mpr ⟨.inl happlied, hagree⟩
            · intro name sum
              rw [hmem, Dict.mem_set, List.mem_cons]
              by_cases hname : name = file
              · subst hname
                have hno : (name, sum) ∉ ledger.entries := fun hin => Dict.get?_eq_none.mp hfresh _ hin rfl
                simp [hno, happlied]
              · simp [hname]

theorem le_foldl_max (names : List String) (first : String) :
    first ≤ names.foldl max first ∧ ∀ name ∈ names, name ≤ names.foldl max first := by
  induction names generalizing first with
  | nil => exact ⟨le_rfl, List.forall_mem_nil _⟩
  | cons name names ih =>
    obtain ⟨hfirst, hrest⟩ := ih (max first name)
    exact ⟨(le_max_left _ _).trans hfirst, List.forall_mem_cons.mpr ⟨(le_max_right _ _).trans hfirst, hrest⟩⟩

theorem le_appliedHead {name : String} (h : name ∈ applied.entries.map Prod.fst) :
    ∃ head, appliedHead applied = some head ∧ name ≤ head := by
  unfold appliedHead
  cases hnames : applied.entries.map Prod.fst with
  | nil => simp [hnames] at h
  | cons first rest =>
    rw [hnames] at h
    refine ⟨_, rfl, ?_⟩
    obtain rfl | h := List.mem_cons.mp h
    · exact (le_foldl_max rest name).1
    · exact (le_foldl_max rest first).2 name h

/-- A file without a record comes after every record, unless it is out of order. -/
theorem lt_of_not_outOfOrder {files : List String} (h : outOfOrder applied files = []) {name other : String}
    (hname : name ∈ files) (hnone : applied.get? name = none) (hother : other ∈ applied.entries.map Prod.fst) :
    other < name := by
  obtain ⟨head, hhead, hle⟩ := le_appliedHead hother
  unfold outOfOrder at h
  rw [hhead] at h
  have hnot : ¬ name < head := fun hlt => by
    have := List.filter_eq_nil_iff.mp h name hname
    simp [hnone, hlt] at this
  refine lt_of_le_of_ne (hle.trans (not_lt.mp hnot)) ?_
  rintro rfl
  obtain ⟨e, he, rfl⟩ := List.mem_map.mp hother
  exact Dict.get?_eq_none.mp hnone e he rfl

/-- A successful run. -/
theorem transaction_ok (hsql : LeavesLedger sql) {directory : Directory}
    (h : transaction sql directory db = .ok (names, db')) :
    ∃ sums, checksums (migrations directory) = .ok sums ∧ migrations directory ≠ [] ∧ db'.ledger.isSome ∧
      (∀ name sum, db'.Recorded name sum ↔ (name, sum) ∈ sums) ∧
      (∀ name sum, db.Recorded name sum → db'.Recorded name sum) ∧
      names.Pairwise (· < ·) ∧
      ∀ name ∈ names, (∃ sum, db'.Recorded name sum) ∧ ∀ other sum, db.Recorded other sum → other < name := by
  unfold transaction at h
  dsimp only at h
  split at h
  · cases h
  rename_i hfiles
  split at h
  · cases h
  rename_i hmissing
  split at h
  · cases h
  rename_i horder
  rw [ne_eq, not_not] at hmissing horder
  obtain ⟨sums, ledger', hsums, hledger', rfl, hagree, hmem⟩ := applyEach_ok hsql rfl h
  have hnames := map_fst_checksums hsums
  have hrecorded : ∀ name sum, db'.Recorded name sum ↔ (name, sum) ∈ ledger'.entries := fun name sum => by
    rw [Database.Recorded, hledger', Option.getD_some]
  refine ⟨sums, hsums, hfiles, by simp [hledger'], fun name sum => ?_, fun name sum hold => ?_, ?_, fun name hname => ?_⟩
  · rw [hrecorded, hmem]
    constructor
    · rintro (hold | ⟨hnew, -⟩)
      · -- an applied migration is still there, with the checksum it had
        have hfound : name ∈ sums.map Prod.fst := by
          rw [hnames]
          by_contra hno
          have := List.filter_eq_nil_iff.mp hmissing name (List.mem_map.mpr ⟨_, hold, rfl⟩)
          simp [hno] at this
        obtain ⟨e, he, rfl⟩ := List.mem_map.mp hfound
        have hget := Dict.get?_eq_some.mpr hold
        obtain hnone | hsome := hagree e he
        · simp [hget] at hnone
        · rw [hget] at hsome
          cases hsome
          exact he
      · exact hnew
    · intro hnew
      obtain hnone | hsome := hagree _ hnew
      · exact .inr ⟨hnew, hnone⟩
      · exact .inl (Dict.get?_eq_some.mp hsome)
  · exact (hrecorded name sum).mpr ((hmem name sum).mpr (.inl hold))
  · exact sorted_migrations.sublist List.filter_sublist
  · obtain ⟨hfile, hnone⟩ := List.mem_filter.mp hname
    have hnone := of_decide_eq_true hnone
    refine ⟨?_, fun other sum hold => lt_of_not_outOfOrder horder hfile hnone (List.mem_map.mpr ⟨_, hold, rfl⟩)⟩
    rw [← hnames] at hfile
    obtain ⟨e, he, rfl⟩ := List.mem_map.mp hfile
    exact ⟨e.2, (hrecorded _ _).mpr ((hmem _ _).mpr (.inr ⟨he, hnone⟩))⟩

end Run

/-! ## Histories -/

section History

variable {σ : Type}

/-- A database, and the scripts that successful runs executed on it. -/
structure History (σ : Type) where
  db : Database σ
  executed : List String

def History.run (sql : Sql σ) (h : History σ) (run : Bool × Directory) : History σ :=
  match applyMigrations sql run.1 run.2 h.db with
  | (.ok names, db) => ⟨db, h.executed ++ names⟩
  | (.error _, db) => ⟨db, h.executed⟩

def History.runs (sql : Sql σ) (h : History σ) (runs : List (Bool × Directory)) : History σ :=
  runs.foldl (History.run sql) h

variable {sql : Sql σ} {db db' : Database σ} {directory : Directory} {names : List String} {commits : Bool}

theorem applyMigrations_ok (h : applyMigrations sql commits directory db = (.ok names, db')) :
    transaction sql directory db = .ok (names, db') := by
  unfold applyMigrations at h
  split at h
  · cases h
  · rename_i names₀ db₀ hrun
    split at h
    · cases h
      exact hrun
    · cases h

theorem applyMigrations_error {e : Error} (h : applyMigrations sql commits directory db = (.error e, db')) : db' = db := by
  unfold applyMigrations at h
  split at h
  · cases h
    rfl
  · split at h
    · cases h
    · cases h
      rfl

/-- Everything that was executed is recorded, in increasing order. -/
structure InOrder (h : History σ) : Prop where
  recorded : ∀ name ∈ h.executed, ∃ sum, h.db.Recorded name sum
  sorted : h.executed.Pairwise (· < ·)

theorem InOrder.run (hsql : LeavesLedger sql) {h : History σ} (hi : InOrder h) (run : Bool × Directory) :
    InOrder (h.run sql run) := by
  unfold History.run
  cases hrun : applyMigrations sql run.1 run.2 h.db with
  | mk answer db' =>
    cases answer with
    | error e =>
      cases applyMigrations_error hrun
      exact hi
    | ok names =>
      obtain ⟨sums, -, -, -, -, hkept, hsorted, hnames⟩ := transaction_ok hsql (applyMigrations_ok hrun)
      refine ⟨fun name hname => ?_, List.pairwise_append.mpr ⟨hi.sorted, hsorted, fun old hold name hname => ?_⟩⟩
      · obtain hold | hnew := List.mem_append.mp hname
        · obtain ⟨sum, hsum⟩ := hi.recorded name hold
          exact ⟨sum, hkept name sum hsum⟩
        · exact (hnames name hnew).1
      · obtain ⟨sum, hsum⟩ := hi.recorded old hold
        exact (hnames name hname).2 old sum hsum

theorem InOrder.runs (hsql : LeavesLedger sql) {h : History σ} (hi : InOrder h) (runs : List (Bool × Directory)) :
    InOrder (h.runs sql runs) := by
  induction runs generalizing h with
  | nil => exact hi
  | cons run rest ih => exact ih (hi.run hsql run)

end History

end NorthgateRmm.Server.Migrations
