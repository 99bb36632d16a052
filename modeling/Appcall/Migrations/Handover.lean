/-
What the ledger has after the import of an Atlas history.

Atlas hashed the files in the order of their paths, SQLx applies them in the order of their
versions. A digest stands for one list of files, as their names tell them apart. So if a first
part of the directory is to be taken in any order at all, with each revision covering what is
in front of it, this order begins with the files as they are by path: the files that are first
by path have to be those with the smallest versions. Nothing checks that.
-/
import Appcall.Migrations.Streams

set_option autoImplicit false

namespace Appcall.Migrations

open Appcall.Events (parse_i64)

variable {d : Digests} {collate : String → String → Bool}

/-! ## What is validated -/

/-- `validate_revision` on what the row says of itself. -/
def Revision.Successful (r : Revision) : Prop :=
  r.kind = 2 ∧ r.applied = r.total ∧ 0 < r.total ∧ r.error = "" ∧ r.error_stmt = ""

variable {hashes : List LegacyHash} {m : Migration} {rows : List Revision}
  {migrations : List Migration} {ledger : List LedgerRow} {files : List SqlFile}

theorem validate_row_spec {r : Revision} (h : validate_row hashes r m = .ok ()) :
    parse_i64 r.version.toList = some m.version ∧ r.Successful
      ∧ ∃ x, hashes.find? (fun x => decide (x.version = m.version)) = some x
        ∧ x.sqlx = m.checksum ∧ r.hash = x.atlas := by
  rw [validate_row] at h
  split at h
  next => cases h
  next hversion =>
    split at h
    next => cases h
    next x hx =>
      split at h
      next => cases h
      next hsqlx =>
        rw [validate_revision] at h
        split at h
        next => cases h
        next hrow =>
          simp only [not_or, not_not, Int.not_le] at hversion hsqlx hrow
          obtain ⟨hkind, happlied, htotal, herror, hstmt, hhash⟩ := hrow
          exact ⟨hversion.1, ⟨hkind, happlied, htotal, herror, hstmt⟩, x, hx, hsqlx, hhash⟩

theorem validate_rows_spec (h : validate_rows hashes rows migrations = .ok ()) {i : ℕ}
    {r : Revision} (hr : rows[i]? = some r) (hm : migrations[i]? = some m) :
    validate_row hashes r m = .ok () := by
  induction rows generalizing migrations i with
  | nil => cases hr
  | cons r' rows ih =>
    cases migrations with
    | nil => cases hm
    | cons m' migrations =>
      rw [validate_rows] at h
      split at h
      next => cases h
      next hrow =>
        cases i with
        | zero =>
          cases hr
          cases hm
          exact hrow
        | succ i => exact ih h hr hm

/-- A history that is valid: each row stands for the migration at its place, and its hash is
that of the files up to the one of this version. -/
theorem validate_history_spec {directory : List DirEntry}
    (h : validate_history d rows migrations directory = .ok ()) :
    rows.length ≤ migrations.length ∧ ∃ files, sql_files directory = .ok files
      ∧ (files.map SqlFile.version).Nodup
      ∧ ∀ (j : ℕ) (r : Revision) (m : Migration), rows[j]? = some r → migrations[j]? = some m →
        parse_i64 r.version.toList = some m.version ∧ r.Successful
          ∧ ∃ i f, files[i]? = some f ∧ f.version = m.version ∧ m.checksum = d.sqlx f.bytes
            ∧ r.hash = d.atlas (stream_of (files.take (i + 1))) := by
  rw [validate_history] at h
  split at h
  next => cases h
  next hashes hhashes =>
    split at h
    next => cases h
    next hlength =>
      obtain ⟨files, hfiles, rfl, hnodup⟩ := directory_hashes_spec hhashes
      refine ⟨Nat.le_of_not_lt hlength, files, hfiles, hnodup, ?_⟩
      intro j r m hr hm
      obtain ⟨hparse, hsuccess, x, hx, hsqlx, hhash⟩ :=
        validate_row_spec (validate_rows_spec h hr hm)
      obtain ⟨i, f, hf, hversion, hfsqlx, hfatlas⟩ := find_hashes_of hx
      exact ⟨hparse, hsuccess, i, f, hf, hversion, hsqlx.symm.trans hfsqlx, hhash.trans hfatlas⟩

/-! ## What is imported -/

def imported_row (m : Migration) : LedgerRow := ⟨m.version, m.description, true, m.checksum⟩

theorem insert_rows_of_nodup
    (h : (ledger.map LedgerRow.version ++ migrations.map Migration.version).Nodup) :
    insert_rows ledger migrations = .ok (ledger ++ migrations.map imported_row) := by
  induction migrations generalizing ledger with
  | nil => rw [insert_rows, List.map_nil, List.append_nil]
  | cons m migrations ih =>
    have hfresh : ledger.any (fun row => decide (row.version = m.version)) = false := by
      rw [List.any_eq_false]
      intro row hrow heq
      have hdisjoint := (List.nodup_append.mp h).2.2
      exact hdisjoint _ (List.mem_map_of_mem hrow) m.version List.mem_cons_self
        (of_decide_eq_true heq)
    rw [insert_rows, insert_row, hfresh, if_neg Bool.false_ne_true]
    dsimp only
    rw [ih, List.map_cons, List.append_assoc]
    · rfl
    · rw [List.map_append, List.append_assoc]
      exact h

theorem nodup_of_insert_rows {ledger' : List LedgerRow}
    (h : insert_rows ledger migrations = .ok ledger')
    (hnodup : (ledger.map LedgerRow.version).Nodup) :
    (ledger.map LedgerRow.version ++ migrations.map Migration.version).Nodup := by
  induction migrations generalizing ledger with
  | nil => rwa [List.map_nil, List.append_nil]
  | cons m migrations ih =>
    rw [insert_rows, insert_row] at h
    by_cases hany : ledger.any (fun row => decide (row.version = m.version)) = true
    · rw [if_pos hany] at h
      cases h
    · rw [if_neg hany] at h
      have hall := ih h (by
        rw [List.map_append, List.nodup_append]
        refine ⟨hnodup, List.nodup_singleton _, ?_⟩
        rintro v hv w hw rfl
        obtain ⟨row, hrow, hversion⟩ := List.mem_map.mp hv
        apply hany
        exact List.any_eq_true.mpr ⟨row, hrow,
          decide_eq_true (hversion.trans (List.mem_singleton.mp hw))⟩)
      rwa [List.map_append, List.append_assoc] at hall

theorem recorded_imported (h : (migrations.map Migration.version).Nodup) (hm : m ∈ migrations) :
    recorded (migrations.map imported_row) m = true := by
  rw [recorded]
  induction migrations with
  | nil => exact absurd hm List.not_mem_nil
  | cons m' migrations ih =>
    rw [List.map_cons, List.nodup_cons] at h
    rw [List.map_cons, List.find?_cons]
    rcases List.mem_cons.mp hm with rfl | hm
    · rw [show decide ((imported_row m).version = m.version) = true from decide_eq_true rfl]
      simp [imported_row]
    · have hne : (imported_row m').version ≠ m.version := by
        intro heq
        apply h.1
        rw [show m'.version = m.version from heq]
        exact List.mem_map_of_mem hm
      rw [decide_eq_false hne]
      exact ih h.2 hm

/-! ## What adoption does -/

/-- A history is there and passes the checks. -/
structure Validated (d : Digests) (collate : String → String → Bool) (db : Database)
    (migrations : List Migration) (directory : List DirEntry) : Prop where
  schema : ∃ schema, db.schemas = [schema]
  rows : db.rows collate ≠ []
  history : validate_history d (db.rows collate) migrations directory = .ok ()

theorem adopt_of_validated {db : Database} {directory : List DirEntry}
    (h : Validated d collate db migrations directory) : adopt d collate db migrations directory
      = match import_validated db.ledger (migrations.take (db.rows collate).length) with
        | .error error => (.error error, db)
        | .ok ledger => (.ok (), { db with ledger }) := by
  obtain ⟨⟨schema, hschema⟩, hrows, hhistory⟩ := h
  have hfull : (db.rows collate).isEmpty = false := by
    rw [List.isEmpty_eq_false_iff]
    exact hrows
  rw [adopt, hschema]
  dsimp only
  rewrite [hfull, if_neg Bool.false_ne_true, hhistory]
  rfl

/-- What `adopt` returns, and the database that it leaves. -/
inductive Adoption (d : Digests) (collate : String → String → Bool) (db : Database)
    (migrations : List Migration) (directory : List DirEntry) :
    Except MigrationError Unit × Database → Prop
  | failed (error : MigrationError) : Adoption d collate db migrations directory (.error error, db)
  | untracked (h : refuse_untracked_schema db = .ok ()) :
      Adoption d collate db migrations directory (.ok (), db)
  | already (hledger : db.ledger ≠ []) : Adoption d collate db migrations directory (.ok (), db)
  | imported (hvalid : Validated d collate db migrations directory) (hledger : db.ledger = [])
      (hnodup : ((migrations.take (db.rows collate).length).map Migration.version).Nodup) :
      Adoption d collate db migrations directory
        (.ok (), { db with
          ledger := (migrations.take (db.rows collate).length).map imported_row })

theorem refuse_cases (db : Database) : refuse_untracked_schema db = .ok ()
    ∨ ∃ error, refuse_untracked_schema db = .error error := by
  cases refuse_untracked_schema db with
  | error error => exact .inr ⟨error, rfl⟩
  | ok => exact .inl rfl

theorem refuse_adoption (db : Database) (migrations : List Migration)
    (directory : List DirEntry) :
    Adoption d collate db migrations directory (refuse_untracked_schema db, db) := by
  rcases refuse_cases db with h | ⟨error, h⟩
  · rw [h]
    exact .untracked h
  · rw [h]
    exact .failed error

theorem adopt_adoption (db : Database) (migrations : List Migration)
    (directory : List DirEntry) : Adoption d collate db migrations directory
      (adopt d collate db migrations directory) := by
  by_cases hvalid : Validated d collate db migrations directory
  · rw [adopt_of_validated hvalid, import_validated]
    by_cases hledger : db.ledger = []
    · rw [hledger]
      rw [if_neg (by decide)]
      cases hinsert : insert_rows [] (migrations.take (db.rows collate).length) with
      | error error => exact .failed error
      | ok ledger =>
        have hnodup := nodup_of_insert_rows hinsert List.nodup_nil
        rw [List.map_nil, List.nil_append] at hnodup
        rw [insert_rows_of_nodup (by simpa using hnodup)] at hinsert
        cases hinsert
        exact .imported hvalid hledger hnodup
    · have hfull : db.ledger.isEmpty = false := by
        rw [List.isEmpty_eq_false_iff]
        exact hledger
      rw [hfull, if_pos rfl]
      split
      next heq =>
        split at heq
        next => cases heq
        next => exact .failed _
      next heq =>
        split at heq
        next =>
          cases heq
          exact .already hledger
        next => cases heq
  · rw [adopt]
    split
    next => exact refuse_adoption db migrations directory
    next schema hschema =>
      split
      next => exact refuse_adoption db migrations directory
      next hrows =>
        split
        next error herror => exact .failed error
        next hhistory =>
          have hne : db.rows collate ≠ [] := fun h => hrows (List.isEmpty_iff.mpr h)
          exact absurd ⟨⟨schema, hschema⟩, hne, hhistory⟩ hvalid
    next => exact .failed _

/-! ## The hand-over -/

/-- The new rows of the ledger are the first files of the directory, in one order of it: each
has a successful revision whose hash covers the files up to its own in this order. -/
def Proven (d : Digests) (db : Database) (directory : List DirEntry) (new : List LedgerRow) :
    Prop :=
  ∃ files order : List SqlFile, sql_files directory = .ok files ∧ order.Perm files
    ∧ (new.map LedgerRow.version).Perm ((order.take new.length).map SqlFile.version)
    ∧ ∀ (i : ℕ) (f : SqlFile), i < new.length → order[i]? = some f →
      (∃ r ∈ db.revisions, parse_i64 r.version.toList = some f.version ∧ r.Successful
        ∧ r.hash = d.atlas (stream_of (order.take (i + 1))))
      ∧ ∃ row ∈ new, row.version = f.version ∧ row.success = true
        ∧ row.checksum = d.sqlx f.bytes

/-- The hand-over: an adoption that fails leaves the database as it is, one that succeeds adds
rows that are proven; a second one changes nothing, and tables without a history are not taken
for an empty schema. What SQLx runs then is what the ledger does not have. -/
structure HandedOver (d : Digests) (collate : String → String → Bool) (sqlx : Migrate)
    (db : Database) (migrations : List Migration) (directory : List DirEntry) : Prop where
  unchanged : ∀ error, (adopt d collate db migrations directory).1 = .error error →
    (adopt d collate db migrations directory).2 = db
  imported : (adopt d collate db migrations directory).1 = .ok () → ∃ new,
    (adopt d collate db migrations directory).2 = { db with ledger := db.ledger ++ new }
      ∧ (new ≠ [] → Proven d db directory new)
  again : adopt d collate (adopt d collate db migrations directory).2 migrations directory
    = adopt d collate db migrations directory
  refused : db.ledger = [] → db.has_tables = true →
    (adopt d collate db migrations directory).1 = .ok () →
    (adopt d collate db migrations directory).2.ledger ≠ []
  once : ∀ executed db', run d collate sqlx db migrations directory = (.ok (), executed, db') →
    executed.Nodup ∧ ∀ m ∈ migrations,
      (m.version ∈ executed ↔
        m.version ∉ (adopt d collate db migrations directory).2.ledger.map LedgerRow.version)
      ∧ m.version ∈ db'.ledger.map LedgerRow.version

/-- Where a history is imported, the files that are first by path are those with the smallest
versions, as many as it has revisions. -/
def FirstByPath (d : Digests) (collate : String → String → Bool) (db : Database)
    (migrations : List Migration) (directory : List DirEntry) : Prop :=
  db.ledger = [] → Validated d collate db migrations directory →
    ∀ files, sql_files directory = .ok files →
      ((files.take db.revisions.length).map SqlFile.version).Perm
        ((by_version files).take db.revisions.length)

variable {db : Database} {directory : List DirEntry}

theorem length_rows (collate : String → String → Bool) (db : Database) :
    (db.rows collate).length = db.revisions.length := List.length_mergeSort _

theorem taken_versions (resolved : Resolved directory) (hfiles : sql_files directory = .ok files)
    (n : ℕ) : (resolved.migrations.take n).map Migration.version = (by_version files).take n := by
  rw [List.map_take, resolved.sorted files hfiles]

theorem nodup_by_version (h : (files.map SqlFile.version).Nodup) :
    (by_version files).Nodup := (List.perm_insertionSort _ _).nodup_iff.mpr h

theorem adopt_imports (resolved : Resolved directory)
    (hvalid : Validated d collate db resolved.migrations directory) (hledger : db.ledger = []) :
    adopt d collate db resolved.migrations directory = (.ok (), { db with
      ledger := (resolved.migrations.take db.revisions.length).map imported_row }) := by
  obtain ⟨-, files, hfiles, hnodup, -⟩ := validate_history_spec hvalid.history
  have hversions : ((resolved.migrations.take db.revisions.length).map
      Migration.version).Nodup := by
    rw [taken_versions resolved hfiles]
    exact (nodup_by_version hnodup).sublist (List.take_sublist _ _)
  rw [adopt_of_validated hvalid, length_rows, import_validated, hledger, if_neg (by decide),
    insert_rows_of_nodup (by simpa using hversions)]
  rfl

theorem proven_of_first (resolved : Resolved directory)
    (hvalid : Validated d collate db resolved.migrations directory)
    (hfirst : ∀ files, sql_files directory = .ok files →
      ((files.take db.revisions.length).map SqlFile.version).Perm
        ((by_version files).take db.revisions.length)) :
    Proven d db directory ((resolved.migrations.take db.revisions.length).map imported_row) := by
  obtain ⟨hlength, files, hfiles, hnodup, hrows⟩ := validate_history_spec hvalid.history
  rw [length_rows] at hlength
  have hnew : ((resolved.migrations.take db.revisions.length).map imported_row).length
      = db.revisions.length := by
    rw [List.length_map, List.length_take, Nat.min_eq_left hlength]
  have hversions : ((resolved.migrations.take db.revisions.length).map imported_row).map
      LedgerRow.version = (by_version files).take db.revisions.length := by
    rw [List.map_map, ← taken_versions resolved hfiles]
    rfl
  refine ⟨files, files, hfiles, List.Perm.refl _, ?_, ?_⟩
  · rw [hnew, hversions]
    exact (hfirst files hfiles).symm
  · intro i f hi hf
    rw [hnew] at hi
    -- the version is one of those that were imported, at some place
    have hmem : f.version ∈ (resolved.migrations.take db.revisions.length).map
        Migration.version := by
      rw [taken_versions resolved hfiles]
      apply (hfirst files hfiles).subset
      apply List.mem_map_of_mem
      refine List.mem_of_getElem? (i := i) ?_
      rw [List.getElem?_take, if_pos hi, hf]
    obtain ⟨m, hm, hversion⟩ := List.mem_map.mp hmem
    obtain ⟨j, hj⟩ := List.mem_iff_getElem?.mp hm
    rw [List.getElem?_take] at hj
    split at hj
    next hlt =>
      have hjrow : j < (db.rows collate).length := by rwa [length_rows]
      obtain ⟨hparse, hsuccess, k, g, hg, hgversion, hchecksum, hhash⟩ :=
        hrows j _ m (List.getElem?_eq_getElem hjrow) hj
      -- no other file has this version
      have hk : k = i := by
        have hlt := (List.getElem?_eq_some_iff.mp hg).1
        refine (List.getElem?_inj (by rwa [List.length_map]) hnodup).mp ?_
        rw [List.getElem?_map, List.getElem?_map, hg, hf, Option.map_some, Option.map_some,
          hgversion, hversion]
      subst hk
      rw [hf] at hg
      cases hg
      refine ⟨⟨_, ?_, hparse.trans (congrArg some hversion), hsuccess, hhash⟩,
        imported_row m, List.mem_map_of_mem hm, hversion, rfl, hchecksum⟩
      exact List.mem_mergeSort.mp (List.getElem_mem hjrow)
    next => cases hj

theorem first_of_proven (hinjective : Function.Injective d.atlas) (resolved : Resolved directory)
    (hvalid : Validated d collate db resolved.migrations directory) (hproven : Proven d db directory
      ((resolved.migrations.take db.revisions.length).map imported_row))
    (hfiles : sql_files directory = .ok files) :
    ((files.take db.revisions.length).map SqlFile.version).Perm
      ((by_version files).take db.revisions.length) := by
  obtain ⟨files', order, hfiles', hperm, hversions, hcovered⟩ := hproven
  rw [hfiles] at hfiles'
  cases hfiles'
  obtain ⟨hlength, files', hfiles', hnodup, hrows⟩ := validate_history_spec hvalid.history
  rw [hfiles] at hfiles'
  cases hfiles'
  rw [length_rows] at hlength
  have hnew : ((resolved.migrations.take db.revisions.length).map imported_row).length
      = db.revisions.length := by
    rw [List.length_map, List.length_take, Nat.min_eq_left hlength]
  rw [hnew] at hversions hcovered
  have htaken := taken_versions resolved hfiles db.revisions.length
  rw [List.map_map] at hversions
  have hversions' : ((by_version files).take db.revisions.length).Perm
      ((order.take db.revisions.length).map SqlFile.version) := by
    rw [← htaken]
    exact hversions
  have hpos : 0 < db.revisions.length := by
    rw [← length_rows collate]
    exact List.length_pos_iff.mpr hvalid.rows
  have horder : db.revisions.length ≤ order.length := by
    have hmigrations := congrArg List.length (resolved.sorted files hfiles)
    rw [List.length_map, by_version, List.length_insertionSort, List.length_map] at hmigrations
    rw [hperm.length_eq, ← hmigrations]
    exact hlength
  -- the last of the imported files, and the revision whose hash covers all of them
  have hlast : db.revisions.length - 1 < order.length := by omega
  obtain ⟨⟨r, hr, hparse, -, hhash⟩, -⟩ := hcovered (db.revisions.length - 1) _ (by omega)
    (List.getElem?_eq_getElem hlast)
  have hrow : r ∈ db.rows collate := List.mem_mergeSort.mpr hr
  obtain ⟨j, hj⟩ := List.mem_iff_getElem?.mp hrow
  have hjlt : j < resolved.migrations.length := by
    have hlt := (List.getElem?_eq_some_iff.mp hj).1
    rw [length_rows] at hlt
    omega
  obtain ⟨-, -, i, f, hf, -, -, hcover⟩ := hrows j r _ hj (List.getElem?_eq_getElem hjlt)
  have hstream := stream_inj (fun f hf => sql_files_named hfiles hf) hnodup
    (fun f hf => hperm.subset (List.mem_of_mem_take hf)) (fun f hf => List.mem_of_mem_take hf)
    (hinjective (hhash.symm.trans hcover))
  have hlengths := congrArg List.length hstream
  have hi := (List.getElem?_eq_some_iff.mp hf).1
  rw [List.length_take, List.length_take] at hlengths
  have hn : db.revisions.length - 1 + 1 = db.revisions.length := by omega
  have hin : i + 1 = db.revisions.length := by omega
  rw [hn, hin] at hstream
  rw [← hstream]
  exact hversions'.symm

theorem import_recorded (hfull : ledger ≠ []) (h : ∀ m ∈ migrations, recorded ledger m = true) :
    import_validated ledger migrations = .ok ledger := by
  rw [import_validated, if_pos (List.isEmpty_eq_false_iff.mpr hfull),
    if_pos (List.all_eq_true.mpr h)]

theorem adopt_again (hvalid : Validated d collate db migrations directory) (hfull : ledger ≠ [])
    (h : ∀ m ∈ migrations.take (db.rows collate).length, recorded ledger m = true) :
    adopt d collate { db with ledger } migrations directory = (.ok (), { db with ledger }) := by
  have hvalid' : Validated d collate { db with ledger } migrations directory :=
    ⟨hvalid.schema, hvalid.rows, hvalid.history⟩
  have himport : import_validated ({ db with ledger } : Database).ledger
      (migrations.take (({ db with ledger } : Database).rows collate).length) = .ok ledger :=
    import_recorded hfull h
  rw [adopt_of_validated hvalid', himport]

theorem run_once {sqlx : Migrate} {executed : List ℤ} {db' : Database}
    (h : run d collate sqlx db migrations directory = (.ok (), executed, db')) :
    executed.Nodup ∧ ∀ m ∈ migrations,
      (m.version ∈ executed ↔
        m.version ∉ (adopt d collate db migrations directory).2.ledger.map LedgerRow.version)
      ∧ m.version ∈ db'.ledger.map LedgerRow.version := by
  rw [run] at h
  split at h
  next => cases h
  next =>
    split at h
    next => cases h
    next db₁ hadopt =>
      split at h
      next => cases h
      next executed' ledger hrun =>
        cases h
        obtain ⟨hnodup, -, hfresh, hledger⟩ := sqlx.once _ _ _ _ _ hrun
        obtain ⟨hall, -⟩ := sqlx.all _ _ _ _ hrun
        rw [hadopt]
        refine ⟨hnodup, fun m hm => ⟨⟨fun hmem => hfresh _ hmem, fun hmem => hall m hm hmem⟩, ?_⟩⟩
        dsimp only
        rw [hledger, List.mem_append]
        by_cases hmem : m.version ∈ db₁.ledger.map LedgerRow.version
        · exact .inl hmem
        · exact .inr (hall m hm hmem)

theorem imported_ne_nil (hvalid : Validated d collate db migrations directory) :
    (migrations.take (db.rows collate).length).map imported_row ≠ [] := by
  have hlength := (validate_history_spec hvalid.history).1
  rw [← List.length_pos_iff, List.length_map, List.length_take, Nat.min_eq_left hlength]
  exact List.length_pos_iff.mpr hvalid.rows

theorem refuse_tables {db : Database} (hledger : db.ledger = []) (htables : db.has_tables = true) :
    refuse_untracked_schema db = .error .Failed := by
  rw [refuse_untracked_schema, Database.unsafe_existing, hledger, htables]
  split
  next => rfl
  next => rfl

theorem first_of_handed_over (hinjective : Function.Injective d.atlas) {sqlx : Migrate}
    (resolved : Resolved directory)
    (h : HandedOver d collate sqlx db resolved.migrations directory) :
    FirstByPath d collate db resolved.migrations directory := by
  intro hledger hvalid files hfiles
  have himports := adopt_imports resolved hvalid hledger
  obtain ⟨new, hnew, hproven⟩ := h.imported (by rw [himports])
  rw [himports] at hnew
  have hrows := congrArg Database.ledger hnew
  dsimp only at hrows
  rw [hledger, List.nil_append] at hrows
  subst hrows
  refine first_of_proven hinjective resolved hvalid (hproven ?_) hfiles
  rw [← length_rows collate]
  exact imported_ne_nil hvalid

/-- **The hand-over is as it should be exactly when the first files by path are those with the
smallest versions**, wherever a history is imported. -/
theorem handed_over_iff (d : Digests) (hinjective : Function.Injective d.atlas)
    (collate : String → String → Bool) (sqlx : Migrate) (db : Database)
    (directory : List DirEntry) (resolved : Resolved directory) :
    HandedOver d collate sqlx db resolved.migrations directory
      ↔ FirstByPath d collate db resolved.migrations directory := by
  constructor
  · exact first_of_handed_over hinjective resolved
  · intro hfirst
    have hadoption := @adopt_adoption d collate db resolved.migrations directory
    generalize hadopt : adopt d collate db resolved.migrations directory = result at hadoption
    refine ⟨?_, ?_, ?_, ?_, fun executed db' hrun => run_once hrun⟩
    · rw [hadopt]
      cases hadoption with
      | failed error => exact fun _ _ => rfl
      | untracked h => exact fun _ h => nomatch h
      | already h => exact fun _ h => nomatch h
      | imported => exact fun _ h => nomatch h
    · rw [hadopt]
      intro hok
      cases hadoption with
      | failed error => cases hok
      | untracked h => exact ⟨[], by rw [List.append_nil], fun h => absurd rfl h⟩
      | already h => exact ⟨[], by rw [List.append_nil], fun h => absurd rfl h⟩
      | imported hvalid hledger hnodup =>
        refine ⟨_, by rw [hledger, List.nil_append], fun _ => ?_⟩
        rw [length_rows]
        exact proven_of_first resolved hvalid (hfirst hledger hvalid)
    · rw [hadopt]
      cases hadoption with
      | failed error => exact hadopt
      | untracked h => exact hadopt
      | already h => exact hadopt
      | imported hvalid hledger hnodup =>
        exact adopt_again hvalid (imported_ne_nil hvalid)
          (fun m hm => recorded_imported hnodup hm)
    · rw [hadopt]
      intro hledger htables hok
      cases hadoption with
      | failed error => cases hok
      | untracked h =>
        rw [refuse_tables hledger htables] at h
        cases h
      | already h => exact absurd hledger h
      | imported hvalid _ _ => exact imported_ne_nil hvalid

namespace Sample

def shown : Digests where
  atlas := fun bytes => String.ofList (Base64.encode bytes)
  sqlx := id

theorem shown_injective : Function.Injective shown.atlas := by
  intro a b h
  have hdecoded := congrArg (fun s => Base64.decode s.toList) h
  simp only [shown, String.toList_ofList, Base64.decode_encode] at hdecoded
  injection hdecoded

/-- SQLx, when nothing goes wrong on the way. -/
def applies : Migrate where
  run := fun migrations ledger =>
    if (migrations.map Migration.version).Nodup ∧ ∀ m ∈ migrations, ∀ row ∈ ledger,
        row.version = m.version → row.checksum = m.checksum then
      let missing := migrations.filter (fun m =>
        decide (m.version ∉ ledger.map LedgerRow.version))
      (.ok (), missing.map Migration.version, ledger ++ missing.map imported_row)
    else (.error .Failed, [], ledger)
  once := by
    intro migrations ledger result executed ledger' h
    split at h
    next hok =>
      cases h
      have hsub := (List.filter_sublist (l := migrations) (p := fun m =>
        decide (m.version ∉ ledger.map LedgerRow.version))).map Migration.version
      refine ⟨hok.1.sublist hsub, hsub, ?_, ?_⟩
      · intro v hv
        obtain ⟨m, hm, rfl⟩ := List.mem_map.mp hv
        exact of_decide_eq_true (List.mem_filter.mp hm).2
      · rw [List.map_append, List.map_map]
        rfl
    next =>
      cases h
      exact ⟨List.nodup_nil, List.nil_sublist _, fun v hv => absurd hv List.not_mem_nil,
        (List.append_nil _).symm⟩
  all := by
    intro migrations ledger executed ledger' h
    split at h
    next hok =>
      cases h
      refine ⟨fun m hm hmem => List.mem_map_of_mem (List.mem_filter.mpr ⟨hm, ?_⟩), hok.2⟩
      exact decide_eq_true hmem
    next => cases h

def text (s : String) : List UInt8 := Json.bytes s.toList

/-- A schema with one table, and a history of one revision. -/
def app (version hash : String) : Database where
  current_schema := "app"
  classes := [⟨"app", "users", 'r'⟩, ⟨"app", REVISIONS, 'r'⟩]
  revisions := [⟨version, 2, 1, 1, "", "", hash⟩]
  ledger := []

def nine_and_ten : List DirEntry :=
  [⟨.utf8 "9_users.sql", true, text "A"⟩, ⟨.utf8 "10_posts.sql", true, text "B"⟩]

theorem nine_and_ten_files : sql_files nine_and_ten
    = .ok [⟨"10_posts.sql", 10, text "B"⟩, ⟨"9_users.sql", 9, text "A"⟩] := by
  rfl

def nine_and_ten_resolved : Resolved nine_and_ten where
  migrations := [⟨9, "users", text "A"⟩, ⟨10, "posts", text "B"⟩]
  sorted := by
    intro files h
    rw [nine_and_ten_files] at h
    cases h
    rfl

/-- The history has the file with version 9 alone, and its hash covers the one before it. -/
def nine_alone : Database := app "9" (shown.atlas (text "10_posts.sqlB9_users.sqlA"))

theorem nine_alone_validated : Validated shown (fun a b => decide (a ≤ b)) nine_alone
    nine_and_ten_resolved.migrations nine_and_ten := by
  have hrows : nine_alone.rows (fun a b => decide (a ≤ b)) = nine_alone.revisions :=
    List.mergeSort_singleton _
  refine ⟨⟨"app", rfl⟩, ?_, ?_⟩
  · rw [hrows]
    exact List.cons_ne_nil _ _
  · rw [hrows]
    rfl

/-- Version 9 is imported by a hash that covers version 10, which has no revision. -/
theorem nine_alone_not_handed_over : ¬HandedOver shown (fun a b => decide (a ≤ b)) applies
    nine_alone nine_and_ten_resolved.migrations nine_and_ten := by
  intro h
  have hfirst := first_of_handed_over shown_injective nine_and_ten_resolved h rfl
    nine_alone_validated _ nine_and_ten_files
  exact absurd hfirst (by decide)

def one_and_two : List DirEntry :=
  [⟨.utf8 "2_posts.sql", true, text "B"⟩, ⟨.utf8 "1_users.sql", true, text "A"⟩]

theorem one_and_two_files : sql_files one_and_two
    = .ok [⟨"1_users.sql", 1, text "A"⟩, ⟨"2_posts.sql", 2, text "B"⟩] := by
  rfl

def one_and_two_resolved : Resolved one_and_two where
  migrations := [⟨1, "users", text "A"⟩, ⟨2, "posts", text "B"⟩]
  sorted := by
    intro files h
    rw [one_and_two_files] at h
    cases h
    rfl

/-- Version 1 is imported, and version 2 is left to SQLx. -/
theorem one_of_two_handed_over : HandedOver shown (fun a b => decide (a ≤ b)) applies
    (app "1" (shown.atlas (text "1_users.sqlA"))) one_and_two_resolved.migrations
    one_and_two := by
  apply (handed_over_iff shown shown_injective _ applies _ one_and_two one_and_two_resolved).mpr
  intro _ _ files hfiles
  rw [one_and_two_files] at hfiles
  cases hfiles
  decide

end Sample

end Appcall.Migrations
