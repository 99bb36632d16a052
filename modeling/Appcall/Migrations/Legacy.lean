/-
The import of Atlas history into the ledger of SQLx:
`crates/appcall-runtime/src/migrations/legacy.rs`.

Three things are compared: the files of the directory in the order of their paths, with the
digest of everything up to each of them; the rows of the Atlas table in the order of the
query; and the migrations of SQLx in the order of their versions. Atlas hashed the files by
path and SQLx applies them by version. The digests are parameters, and so is the order that
the database gives to texts. A statement that the database refuses undoes its transaction.
-/
import Appcall.Events.Cursor
import Mathlib.Data.List.Sort

set_option autoImplicit false

namespace Appcall.Migrations

open Appcall.Events (parse_i64)
open Chars (split_once)

inductive MigrationError
  | Configuration
  | Failed
  | Timeout
  | Cancelled
  deriving DecidableEq

/-- The digests: `STANDARD.encode` of SHA-256, and SHA-384. -/
structure Digests where
  atlas : List UInt8 → String
  sqlx : List UInt8 → List UInt8

/-! ## The directory -/

/-- The name of a file: some bytes, which may be a text. -/
inductive OsString
  | utf8 (text : String)
  | other (bytes : List UInt8)

def OsString.bytes : OsString → List UInt8
  | .utf8 text => Json.bytes text.toList
  | .other bytes => bytes

/-- `path.extension()` is `sql`: what stands before the last dot is not empty. -/
def OsString.is_sql (name : OsString) : Bool :=
  (Json.bytes ".sql".toList).isSuffixOf name.bytes && decide (4 < name.bytes.length)

structure DirEntry where
  name : OsString
  is_file : Bool
  bytes : List UInt8

/-- The order of paths in one directory. -/
def DirEntry.before (a b : DirEntry) : Prop := ¬b.name.bytes < a.name.bytes

instance : DecidableRel DirEntry.before :=
  fun a b => inferInstanceAs (Decidable (¬b.name.bytes < a.name.bytes))

/-- `b"atlas:sum"` -/
def directive : List UInt8 := Json.bytes "atlas:sum".toList

structure SqlFile where
  name : String
  version : ℤ
  bytes : List UInt8

/-- What the loop of `directory_hashes` takes of one path. -/
def read_file (e : DirEntry) : Except MigrationError SqlFile :=
  if e.is_file = false then .error .Failed
  else match e.name with
    | .other _ => .error .Failed
    | .utf8 name =>
      match split_once (· == '_') name.toList with
      | none => .error .Failed
      | some (version, _) =>
        match parse_i64 version with
        | none => .error .Failed
        | some version =>
          if e.bytes.tails.any (fun part => directive.isPrefixOf part) = true then .error .Failed
          else .ok ⟨name, version, e.bytes⟩

/-- `LegacyHash`, with its version. -/
structure LegacyHash where
  version : ℤ
  atlas : String
  sqlx : List UInt8

/-- What a file adds to the cumulative digest. -/
def SqlFile.stream (f : SqlFile) : List UInt8 := Json.bytes f.name.toList ++ f.bytes

/-- The loop of `directory_hashes`: the digest so far is that of `cumulative`. -/
def hash_files (d : Digests) : List DirEntry → List UInt8 → List LegacyHash →
    Except MigrationError (List LegacyHash)
  | [], _, hashes => .ok hashes
  | e :: files, cumulative, hashes =>
    match read_file e with
    | .error error => .error error
    | .ok f =>
      if hashes.any (fun h => decide (h.version = f.version)) = true then .error .Failed
      else hash_files d files (cumulative ++ f.stream)
        (hashes ++ [⟨f.version, d.atlas (cumulative ++ f.stream), d.sqlx f.bytes⟩])

/-- The paths that end in `.sql`, sorted. -/
def sql_paths (directory : List DirEntry) : List DirEntry :=
  (directory.filter (fun e => e.name.is_sql)).insertionSort DirEntry.before

def directory_hashes (d : Digests) (directory : List DirEntry) :
    Except MigrationError (List LegacyHash) := hash_files d (sql_paths directory) [] []

/-! ## The database -/

/-- A row of `pg_class`, with the name of its schema. -/
structure Class where
  nspname : String
  relname : String
  relkind : Char

/-- A row of the Atlas table, with `COALESCE(error, '')`. -/
structure Revision where
  version : String
  kind : ℤ
  applied : ℤ
  total : ℤ
  error : String
  error_stmt : String
  hash : String

/-- A row of `_sqlx_migrations`. -/
structure LedgerRow where
  version : ℤ
  description : String
  success : Bool
  checksum : List UInt8

/-- What is read of the database; the revisions are those of the current schema. -/
structure Database where
  current_schema : String
  classes : List Class
  revisions : List Revision
  ledger : List LedgerRow

structure Migration where
  version : ℤ
  description : String
  checksum : List UInt8

/-- `atlas_schema_revisions` -/
def REVISIONS : String := "atlas_schema_revisions"

/-- The schemas of the first query of `adopt`. -/
def Database.schemas (db : Database) : List String :=
  (db.classes.filter (fun c => decide (c.relname = REVISIONS ∧ c.relkind = 'r'
    ∧ c.nspname = db.current_schema))).map Class.nspname

def Database.has_tables (db : Database) : Bool :=
  db.classes.any (fun c => decide (c.nspname = db.current_schema
    ∧ (c.relkind = 'r' ∨ c.relkind = 'p') ∧ c.relname ≠ "_sqlx_migrations"
    ∧ c.relname ≠ REVISIONS))

/-- The first query of `refuse_untracked_schema`. -/
def Database.unproven_legacy (db : Database) : Bool :=
  decide (db.current_schema = "public") && db.ledger.isEmpty
    && db.classes.any (fun c => decide (c.nspname = REVISIONS ∧ c.relname = REVISIONS
      ∧ c.relkind = 'r'))

/-- The second query of `refuse_untracked_schema`. -/
def Database.unsafe_existing (db : Database) : Bool := db.ledger.isEmpty && db.has_tables

def refuse_untracked_schema (db : Database) : Except MigrationError Unit :=
  if db.unproven_legacy = true then .error .Failed
  else if db.unsafe_existing = true then .error .Failed
  else .ok ()

/-! ## Validation -/

def validate_revision (r : Revision) (expected : String) : Except MigrationError Unit :=
  if r.kind ≠ 2 ∨ r.applied ≠ r.total ∨ r.total ≤ 0 ∨ r.error ≠ "" ∨ r.error_stmt ≠ ""
      ∨ r.hash ≠ expected then .error .Failed
  else .ok ()

/-- The checks of one row and the migration it stands for. -/
def validate_row (hashes : List LegacyHash) (r : Revision) (m : Migration) :
    Except MigrationError Unit :=
  if parse_i64 r.version.toList ≠ some m.version
    ∨ r.version.toList ≠ Decimal.write_int m.version then
    .error .Failed
  else match hashes.find? (fun h => decide (h.version = m.version)) with
    | none => .error .Failed
    | some h => if h.sqlx ≠ m.checksum then .error .Failed else validate_revision r h.atlas

/-- The loop of `adopt` over the rows and the migrations. -/
def validate_rows (hashes : List LegacyHash) : List Revision → List Migration →
    Except MigrationError Unit
  | r :: rows, m :: migrations =>
    match validate_row hashes r m with
    | .error error => .error error
    | .ok () => validate_rows hashes rows migrations
  | _, _ => .ok ()

/-! ## The import -/

/-- An insert into the ledger, whose primary key is the version. -/
def insert_row (ledger : List LedgerRow) (m : Migration) : Except MigrationError (List LedgerRow) :=
  if ledger.any (fun row => decide (row.version = m.version)) = true then .error .Failed
  else .ok (ledger ++ [⟨m.version, m.description, true, m.checksum⟩])

def insert_rows : List LedgerRow → List Migration → Except MigrationError (List LedgerRow)
  | ledger, [] => .ok ledger
  | ledger, m :: migrations =>
    match insert_row ledger m with
    | .error error => .error error
    | .ok ledger => insert_rows ledger migrations

/-- A migration is in the ledger as it would be imported. -/
def recorded (ledger : List LedgerRow) (m : Migration) : Bool :=
  (ledger.find? (fun row => decide (row.version = m.version))).any
    (fun row => row.success && decide (row.checksum = m.checksum))

/-- `import_validated`: the ledger that is committed. -/
def import_validated (ledger : List LedgerRow) (migrations : List Migration) :
    Except MigrationError (List LedgerRow) :=
  if ledger.isEmpty = false then
    if migrations.all (recorded ledger) = true then .ok ledger else .error .Failed
  else insert_rows ledger migrations

/-! ## Adoption -/

/-- The rows of the Atlas table in the order that the database gives to their versions. -/
def Database.rows (collate : String → String → Bool) (db : Database) : List Revision :=
  db.revisions.mergeSort (fun a b => collate a.version b.version)

/-- The checks of `adopt` on a history that is there, before anything is written. -/
def validate_history (d : Digests) (rows : List Revision) (migrations : List Migration)
    (directory : List DirEntry) : Except MigrationError Unit :=
  match directory_hashes d directory with
  | .error error => .error error
  | .ok hashes =>
    if migrations.length < rows.length then .error .Failed
    else validate_rows hashes rows migrations

/-- `adopt`: what it returns, and the ledger it leaves. -/
def adopt (d : Digests) (collate : String → String → Bool) (db : Database)
    (migrations : List Migration) (directory : List DirEntry) :
    Except MigrationError Unit × Database :=
  match db.schemas with
  | [] => (refuse_untracked_schema db, db)
  | [_] =>
    if (db.rows collate).isEmpty = true then (refuse_untracked_schema db, db)
    else match validate_history d (db.rows collate) migrations directory with
      | .error error => (.error error, db)
      | .ok () =>
        match import_validated db.ledger (migrations.take (db.rows collate).length) with
        | .error error => (.error error, db)
        | .ok ledger => (.ok (), { db with ledger })
  | _ => (.error .Failed, db)

/-! ## The run -/

/-- The files of the directory, in the order of their paths. -/
def sql_files (directory : List DirEntry) : Except MigrationError (List SqlFile) :=
  (sql_paths directory).mapM read_file

/-- The versions of files, from the smallest on. -/
def by_version (files : List SqlFile) : List ℤ := (files.map SqlFile.version).insertionSort (· ≤ ·)

/-- What `Migrator::new` makes of the directory: its files, sorted by their versions. -/
structure Resolved (directory : List DirEntry) where
  migrations : List Migration
  sorted : ∀ files, sql_files directory = .ok files →
    migrations.map Migration.version = by_version files

/-- What the code relies on of `migrator.run`: it applies versions that the ledger does not
have, each once, in the order of the migrations, and all of them when it succeeds; a version
whose checksum is another one is an error. -/
structure Migrate where
  run : List Migration → List LedgerRow → Except MigrationError Unit × List ℤ × List LedgerRow
  once : ∀ migrations ledger result executed ledger',
    run migrations ledger = (result, executed, ledger') →
      executed.Nodup ∧ executed.Sublist (migrations.map Migration.version)
        ∧ (∀ v ∈ executed, v ∉ ledger.map LedgerRow.version)
        ∧ ledger'.map LedgerRow.version = ledger.map LedgerRow.version ++ executed
  all : ∀ migrations ledger executed ledger', run migrations ledger = (.ok (), executed, ledger') →
    (∀ m ∈ migrations, m.version ∉ ledger.map LedgerRow.version → m.version ∈ executed)
      ∧ ∀ m ∈ migrations, ∀ row ∈ ledger, row.version = m.version → row.checksum = m.checksum

/-- `SqlxMigration::run`, from the resolved migrations on: what it returns, the versions whose
SQL was run, and the database that is left. -/
def run (d : Digests) (collate : String → String → Bool) (sqlx : Migrate) (db : Database)
    (migrations : List Migration) (directory : List DirEntry) :
    Except MigrationError Unit × List ℤ × Database :=
  if migrations.isEmpty = true then (.error .Configuration, [], db)
  else match adopt d collate db migrations directory with
    | (.error error, db) => (.error error, [], db)
    | (.ok (), db) =>
      match sqlx.run migrations db.ledger with
      | (.error _, executed, ledger) => (.error .Failed, executed, { db with ledger })
      | (.ok (), executed, ledger) => (.ok (), executed, { db with ledger })

end Appcall.Migrations
