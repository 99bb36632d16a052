/-
Runs of a sync: workers, schedulers, operators and owners of connections on one
database, each transaction a step.

`service.rs` is the worker. It claims a job, fetches a page and commits it under the
claim; `fetch` is the part of it that decides which connection and which generation a
page belongs to. A run keeps what was claimed, fetched and committed, so that later
steps can be held against it. Setup deletes a connection only while nothing has been
done with it, and a deletion takes the jobs along; the runs here delete none.
-/
import Appcall.Sync.Repository
import Appcall.Lib.Machine

set_option autoImplicit false

namespace Appcall.Sync

open Appcall.Oauth (Connection Row Marker Intent bump_connection_generation)

/-- A page a worker holds: its claim, the connection it was fetched with and the
generation of that connection when it was asked for. -/
structure Fetched where
  job : Job
  page : Page
  connection : Connection
  generation : ℕ
  deriving DecidableEq

/-- A page that was committed: the cursor it starts at, and the generation and the
account of the connection at the commit. -/
structure Commit where
  fetched : Fetched
  /-- Committed by `commit_page_for_connection`. -/
  for_connection : Bool
  cursor : String
  generation : ℕ
  account : String

/-- The state of a run. The logs have the newest entry first. -/
structure System where
  clock : ℤ
  db : Database
  claims : List Job
  fetched : List Fetched
  committed : List Commit

/-- What can happen. `age` is how long ago the transaction of a step started. -/
inductive Op where
  | tick (d : ℕ)
  | connect (c : Connection)
  | update_connection (id : String) (marker : Option Marker) (intent : Option (Intent String))
      (new : Connection)
  | enqueue (age : ℕ) (r : ScheduleRequest)
  | claim (q : ClaimRequest)
  | fetch (j : Job) (page : Page) (connection : Connection)
  | commit_page (age : ℕ) (f : Fetched) (for_connection : Bool) (cursor : String)
  | fail (age : ℕ) (j : Job) (delay : ℕ) (terminal : Bool) (error : Option Error)
  | cancel_stale (j : Job)
  | control (project_id account_id job_id : String) (action : OperatorAction)

/-! ## Connections -/

/-- `INSERT INTO connections`. -/
def Database.connect (db : Database) (clock : ℤ) (c : Connection) : Database :=
  match db.connections.insert ⟨c, 1, clock⟩ with
  | none => db
  | some connections => { db with connections := connections }

/-- The row after an update, which the trigger numbers. -/
def updated_row (clock : ℤ) (marker : Option Marker) (intent : Option (Intent String))
    (new : Connection) (r : Row) : Row :=
  let next : Connection :=
    { new with id := r.connection.id, project_id := r.connection.project_id }
  { connection := next
    connection_generation :=
      bump_connection_generation marker intent r.connection next r.connection_generation
    updated_at := clock }

/-- `UPDATE connections`. -/
def Database.update_connection (db : Database) (clock : ℤ) (id : String)
    (marker : Option Marker) (intent : Option (Intent String)) (new : Connection) :
    Database :=
  { db with
    connections := db.connections.modify id (updated_row clock marker intent new)
      (fun _ => rfl) }

/-- `connection_generation`. -/
def Database.current_generation (db : Database) (project_id id : String) :
    Except Error ℕ :=
  match (db.connections.find id).filter
      (fun c => decide (c.connection.project_id = project_id)) with
  | none => .error .NotFound
  | some c => .ok c.connection_generation

/-! ## Steps -/

/-- The end of `fetch`: the connection that credentials were resolved for is the one of
the claim, and its generation is the one of the claim right before the page is asked
for. -/
def Database.fetch (db : Database) (j : Job) (page : Page) (connection : Connection) :
    Except Error Fetched := do
  if connection.id ≠ j.connection_id ∨ connection.project_id ≠ j.project_id then
    .error .Unavailable
  else
    let generation ← db.current_generation j.project_id j.connection_id
    if generation ≠ j.connection_generation then .error .StaleGeneration
    else .ok ⟨j, page, connection, generation⟩

def Database.commit_entry (db : Database) (f : Fetched) (for_connection : Bool)
    (cursor : String) : Commit :=
  let row := db.connections.find f.job.connection_id
  { fetched := f
    for_connection := for_connection
    cursor := cursor
    generation := row.elim 0 Row.connection_generation
    account := row.elim "" (fun r => r.connection.external_account_id) }

def System.commit (env : Env) (s : System) (age : ℕ) (f : Fetched) (for_connection : Bool)
    (cursor : String) : Except Error (Unit × Database) :=
  s.db.commit_page_checked env s.clock (s.clock - age) f.job cursor f.page
    (if for_connection then some f.connection else none)

/-- One step. A transaction that fails changes nothing. -/
def step (env : Env) (s : System) : Op → System
  | .tick d => { s with clock := s.clock + d }
  | .connect c => { s with db := s.db.connect s.clock c }
  | .update_connection id marker intent new =>
    { s with db := s.db.update_connection s.clock id marker intent new }
  | .enqueue age r => { s with db := commit s.db (s.db.enqueue s.clock (s.clock - age) r) }
  | .claim q =>
    match s.db.claim_with_policy s.clock q with
    | .error _ => s
    | .ok (j, db) => { s with db := db, claims := j.toList ++ s.claims }
  | .fetch j page connection =>
    match s.db.fetch j page connection with
    | .error _ => s
    | .ok f => { s with fetched := f :: s.fetched }
  | .commit_page age f for_connection cursor =>
    match s.commit env age f for_connection cursor with
    | .error _ => s
    | .ok (_, db) =>
      { s with
        db := db
        committed := s.db.commit_entry f for_connection cursor :: s.committed }
  | .fail age j delay terminal error =>
    { s with
      db := commit s.db (s.db.fail_with_error s.clock (s.clock - age) j delay terminal error) }
  | .cancel_stale j => { s with db := commit s.db (s.db.cancel_stale s.clock j) }
  | .control project_id account_id job_id action =>
    { s with db := commit s.db (s.db.control s.clock project_id account_id job_id action) }

/-- A database before the first job: any connections, and messages of before there were
generations. -/
structure Database.Fresh (db : Database) : Prop where
  no_job : db.sync_jobs.rows = []
  no_checkpoint : db.sync_job_checkpoints.rows = []
  no_visit : db.sync_job_cursor_visits.rows = []
  legacy : ∀ m ∈ db.synced_messages.rows, m.connection_generation = none

def System.init (db : Database) (clock : ℤ) : System := ⟨clock, db, [], [], []⟩

/-! ## A small database -/

namespace Sample

/-- The digest of a short cursor is the cursor. -/
def env : Env := ⟨fun cursor => cursor, fun _ => "2026-01"⟩

def connection : Connection :=
  { id := "c"
    project_id := "p"
    connector := "slack"
    auth_type := .OAuth2
    status := .Active
    secret_ref_id := "s"
    last_test_status := .Passed
    external_account_id := "first"
    credential_owner := .Brand }

def database : Database :=
  { connections := ⟨[⟨connection, 1, 0⟩], by decide⟩
    sync_jobs := .empty
    sync_job_checkpoints := .empty
    sync_job_cursor_visits := .empty
    synced_messages := .empty
    usage_events := .empty
    usage_monthly_rollups := .empty
    sync_job_events := .empty }

theorem database_fresh : database.Fresh :=
  ⟨rfl, rfl, rfl, fun _ h => absurd h List.not_mem_nil⟩

def request (id : String) : ScheduleRequest :=
  ⟨id, "p", "c", "messages.list", id, ⟨[], 2⟩⟩

/-- A claim of so many milliseconds, with no other transaction in the way. -/
def claim (worker : String) (millis : ℕ) : ClaimRequest :=
  ⟨worker, millis * 1000000, none, fun _ _ => false, fun _ _ => false⟩

def message : Message :=
  ⟨"m", "slack", "1", "C1", "U1", "hello", "v1", "null"⟩

def page (next_cursor : String) : Page := ⟨[message], next_cursor, 2⟩

/-- What the first worker to claim a job of the given id gets. -/
def job (id worker : String) (leased_until : ℤ) (generation : ℕ) : Job :=
  { id := id
    project_id := "p"
    connection_id := "c"
    operation := "messages.list"
    input := ⟨[], 2⟩
    status := .running
    worker_id := worker
    attempts := 0
    leased_until := some leased_until
    connection_generation := generation }

end Sample

end Appcall.Sync
