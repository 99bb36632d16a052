/-
The transactions of a sync: `crates/appcall-sync/src/repository.rs`.

Each transaction is one step. `clock` is what `clock_timestamp()` reads in it, `started`
is its `now()`. A row that another transaction has locked is skipped by the queries
that say `SKIP LOCKED`; `locked` says which rows these are for each of the queries of a
loop. Identifiers are compared byte by byte.
-/
import Appcall.Sync.Tables

set_option autoImplicit false

namespace Appcall.Sync

open Appcall.Oauth (Connection Row)

/-! ## Requests and pages -/

/-- A field that `validate_input` takes. -/
def InputValue.valid (key : String) : InputValue → Bool
  | .text s => (decide (key = "channelId") || decide (key = "query") || decide (key = "filter"))
      && decide (s ≠ "") && decide (s.utf8ByteSize ≤ 256)
  | .count n => decide (key = "limit") && decide (1 ≤ n) && decide (n ≤ 100)
  | .other _ => false

def validate_input (input : Input) : Except Error Unit :=
  if decide (input.size ≤ 4096) && input.fields.all (fun f => f.2.valid f.1) then .ok ()
  else .error .InvalidInput

def Page.validate (page : Page) : Except Error Unit :=
  if 10000 < page.records.length ∨ 65536 < page.next_cursor.utf8ByteSize then
    .error .InvalidPage
  else if page.records.any (fun m => decide (m.id = "") || decide (m.provider = "")
      || decide (m.provider_message_id = "") || decide (m.channel_id = "")
      || decide (m.model_version = "")) then
    .error .InvalidPage
  else if 8 * 1024 * 1024 < page.size then .error .InvalidPage
  else .ok ()

/-- The digest and the calendar that the usage rows are named by. -/
structure Env where
  /-- The first eight bytes of the SHA-256 of a text, in hex. -/
  suffix : String → String
  /-- `to_char(t AT TIME ZONE 'UTC', 'YYYY-MM')`. -/
  month : ℤ → String

/-! ## Jobs and their connections -/

/-- `JOIN connections AS c ON c.id=j.connection_id AND c.project_id=j.project_id`. -/
def Database.connection_of (db : Database) (r : JobRow) : Option Row :=
  (db.connections.find r.connection_id).filter
    (fun c => decide (c.connection.project_id = r.project_id))

/-- `status IN ('pending','running')`. -/
def JobRow.unfinished (r : JobRow) : Bool :=
  decide (r.status = .pending) || decide (r.status = .running)

/-- `status='running' AND leased_until>clock_timestamp()`. -/
def JobRow.leased (r : JobRow) (clock : ℤ) : Bool :=
  decide (r.status = .running) && r.leased_until.any (fun t => decide (clock < t))

/-- `(a.created_at,a.id)<(b.created_at,b.id)`. -/
def JobRow.before (a b : JobRow) : Bool :=
  decide (a.created_at < b.created_at)
    || (decide (a.created_at = b.created_at) && decide (a.id < b.id))

/-- Jobs of one connection, operation and connection generation. -/
def JobRow.same_stream (a b : JobRow) : Bool :=
  decide (a.connection_id = b.connection_id) && decide (a.operation = b.operation)
    && decide (a.connection_generation = b.connection_generation)

/-- The rows with the row of a job rewritten. -/
def Database.update_job (db : Database) (id : String) (f : JobRow → JobRow)
    (hf : ∀ r, (f r).id = r.id) : Database :=
  { db with sync_jobs := db.sync_jobs.modify id f hf }

/-- The `DELETE`s of the checkpoint and the visits of a job. -/
def Database.forget (db : Database) (id : String) : Database :=
  { db with
    sync_job_checkpoints := db.sync_job_checkpoints.delete (fun c => decide (c.job_id = id))
    sync_job_cursor_visits :=
      db.sync_job_cursor_visits.delete (fun v => decide (v.job_id = id)) }

/-! ## Enqueue -/

/-- The row that `enqueue` inserts. -/
def ScheduleRequest.row (r : ScheduleRequest) (started : ℤ) (generation : ℕ) : JobRow :=
  { id := r.id
    project_id := r.project_id
    connection_id := r.connection_id
    operation := r.operation
    status := .pending
    worker_id := ""
    attempts := 0
    run_after := started
    leased_until := none
    created_at := started
    updated_at := started
    last_error := ""
    dedup_key := r.dedup_key
    input := r.input
    connection_generation := generation }

def Database.job_of_key (db : Database) (project_id dedup_key : String) : Option JobRow :=
  db.sync_jobs.rows.find? (fun j =>
    decide (j.project_id = project_id) && decide (j.dedup_key = dedup_key))

/-- `INSERT INTO sync_jobs ... SELECT ... FROM connections ... ON CONFLICT DO NOTHING`. -/
def Database.insert_job (db : Database) (started : ℤ) (r : ScheduleRequest) :
    Option (JobRow × Database) :=
  match (db.connections.find r.connection_id).filter
      (fun c => decide (c.connection.project_id = r.project_id)) with
  | none => none
  | some c =>
    if (db.job_of_key r.project_id r.dedup_key).isSome then none
    else
      let row := r.row started c.connection_generation
      (db.sync_jobs.insert row).map (fun jobs => (row, { db with sync_jobs := jobs }))

/-- The checks of `enqueue`. -/
def ScheduleRequest.validate (r : ScheduleRequest) : Except Error Unit := do
  validate_input r.input
  if [r.id, r.project_id, r.connection_id, r.operation].any
      (fun s => decide (s = "") || decide (512 < s.utf8ByteSize)) then .error .InvalidInput
  else if r.dedup_key = "" ∨ 2048 < r.dedup_key.utf8ByteSize then .error .InvalidInput
  else .ok ()

def Database.enqueue (db : Database) (clock started : ℤ) (r : ScheduleRequest) :
    Except Error (Job × Database) := do
  r.validate
  match db.insert_job started r with
  | some (row, db) => do
    let db ← db.append_event clock row.id .scheduled (scheduled_detail "new_job")
    .ok (row.job, db)
  | none =>
    match db.job_of_key r.project_id r.dedup_key with
    | none => .error .Conflict
    | some existing =>
      if existing.connection_id ≠ r.connection_id ∨ existing.operation ≠ r.operation
          ∨ existing.input ≠ r.input then .error .Conflict
      else .ok (existing.job, db)

/-! ## Claim -/

def JobRow.cancel (r : JobRow) (clock : ℤ) (last_error : String) : JobRow :=
  { r with
    status := .cancelled
    worker_id := ""
    leased_until := none
    run_after := clock
    last_error := last_error
    updated_at := clock }

/-- An unfinished job whose generation is not its connection's. -/
def Database.stale (db : Database) (j : JobRow) : Bool :=
  j.unfinished && (db.connection_of j).any
    (fun c => decide (j.connection_generation ≠ c.connection_generation))

/-- `ORDER BY created_at, id`. -/
def created_order (a b : JobRow) : Prop := ¬ b.before a = true

instance : DecidableRel created_order := fun _ _ => inferInstanceAs (Decidable (¬ _))

/-- The update of a job whose generation is over, with its checkpoint and visits. -/
def Database.cancel_job (db : Database) (clock : ℤ) (id : String) : Database :=
  (db.update_job id (fun r => r.cancel clock "connection generation changed")
    (fun _ => rfl)).forget id

def Database.cancel_stale_jobs (clock : ℤ) (locked : ℕ → JobRow → Bool) :
    ℕ → Database → Except Error Database
  | 0, db => .ok db
  | n + 1, db =>
    match (db.sync_jobs.select (fun j => db.stale j && !locked n j) created_order 1).head? with
    | none => .ok db
    | some j => do
      let db ← (db.cancel_job clock j.id).append_event clock j.id .cancelled
        { reason := some "connection_generation_changed" }
      Database.cancel_stale_jobs clock locked n db

/-- `NOT EXISTS(SELECT 1 FROM sync_jobs AS earlier ...)`, negated. -/
def Database.has_earlier (db : Database) (j : JobRow) (generation : ℕ) : Bool :=
  db.sync_jobs.rows.any (fun earlier =>
    decide (earlier.connection_id = j.connection_id)
      && decide (earlier.operation = j.operation)
      && decide (earlier.connection_generation = generation)
      && earlier.unfinished && earlier.before j)

def Database.claimable (db : Database) (clock : ℤ) (j : JobRow) : Bool :=
  (db.connection_of j).any (fun c =>
    decide (j.connection_generation = c.connection_generation)
      && ((decide (j.status = .pending) && decide (j.run_after ≤ clock))
        || (decide (j.status = .running) && j.leased_until.any (fun t => decide (t ≤ clock))))
      && !db.has_earlier j c.connection_generation)

/-- `ORDER BY run_after, created_at, id`. -/
def run_order (a b : JobRow) : Prop :=
  a.run_after < b.run_after ∨ (a.run_after = b.run_after ∧ created_order a b)

instance : DecidableRel run_order := fun _ _ => inferInstanceAs (Decidable (_ ∨ _))

def Database.candidate (db : Database) (clock : ℤ) (locked : JobRow → Bool) : Option JobRow :=
  (db.sync_jobs.select (fun j => db.claimable clock j && !locked j) run_order 1).head?

/-- The row of a job whose lease ran out once too often. -/
def JobRow.expire (r : JobRow) (clock : ℤ) (attempts : ℕ) : JobRow :=
  { r with
    status := .failed
    attempts := attempts
    worker_id := ""
    leased_until := none
    run_after := clock
    last_error := "sync lease expired"
    updated_at := clock }

def JobRow.take (r : JobRow) (clock : ℤ) (worker : String) (millis attempts : ℕ) : JobRow :=
  { r with
    status := .running
    attempts := attempts
    worker_id := worker
    leased_until := some (clock + millis * 1000)
    updated_at := clock }

structure ClaimRequest where
  worker : String
  lease : ℕ
  policy : Option Policy
  locked_stale : ℕ → JobRow → Bool
  locked : ℕ → JobRow → Bool

/-- The detail of a `claimed` event. -/
def ClaimRequest.detail (q : ClaimRequest) : Detail := { policy := q.policy }

/-- A policy that is given has to pass as the detail of an event. -/
def ClaimRequest.check_policy (q : ClaimRequest) : Except Error Unit :=
  if q.policy.isSome then event_detail .claimed q.detail else .ok ()

/-- `Duration::as_millis`. -/
def ClaimRequest.millis (q : ClaimRequest) : ℕ := q.lease / 1000000

/-- The loop of `claim_with_policy`. -/
def Database.claim_loop (clock : ℤ) (q : ClaimRequest) (max_attempts : ℕ) :
    ℕ → Database → Except Error (Option Job × Database)
  | 0, db => .ok (none, db)
  | n + 1, db =>
    match db.candidate clock (q.locked n) with
    | none => .ok (none, db)
    | some previous =>
      if previous.status = .running then
        let attempts := min (previous.attempts + 1) max_attempts
        if max_attempts ≤ attempts then do
          let db ← (db.update_job previous.id (fun r => r.expire clock attempts)
            (fun _ => rfl)).append_event clock previous.id .lease_expired {}
          let db ← db.append_event clock previous.id .failed { code := some "LEASE_EXPIRED" }
          Database.claim_loop clock q max_attempts n db
        else do
          let db ← (db.update_job previous.id
            (fun r => r.take clock q.worker q.millis attempts)
            (fun _ => rfl)).append_event clock previous.id .lease_expired {}
          let db ← db.append_event clock previous.id .claimed q.detail
          .ok (some (previous.take clock q.worker q.millis attempts).job, db)
      else do
        let db ← (db.update_job previous.id
          (fun r => r.take clock q.worker q.millis r.attempts)
          (fun _ => rfl)).append_event clock previous.id .claimed q.detail
        .ok (some (previous.take clock q.worker q.millis previous.attempts).job, db)

def Database.claim_with_policy (db : Database) (clock : ℤ) (q : ClaimRequest) :
    Except Error (Option Job × Database) := do
  if q.worker = "" ∨ 256 < q.worker.utf8ByteSize ∨ q.lease = 0
      ∨ 3600 * 1000000000 < q.lease then .error .InvalidInput
  else
    let max_attempts ← configured_max_attempts q.policy
    q.check_policy
    let db ← Database.cancel_stale_jobs clock q.locked_stale MAX_RECOVERIES_PER_CLAIM db
    Database.claim_loop clock q max_attempts MAX_RECOVERIES_PER_CLAIM db

/-! ## Work under a lease -/

/-- The row is the one the job was claimed as, and its lease holds. -/
def Job.holds (j : Job) (clock : ℤ) (r : JobRow) : Bool :=
  decide (r.project_id = j.project_id) && decide (r.connection_id = j.connection_id)
    && decide (r.operation = j.operation) && decide (r.worker_id = j.worker_id)
    && decide (r.leased_until = j.leased_until) && decide (r.input = j.input)
    && r.leased clock

/-- `lock`. The generation it compares is the one in the table. -/
def Database.lock (db : Database) (clock : ℤ) (j : Job) : Except Error Unit :=
  match db.sync_jobs.find j.id with
  | none => .error .LeaseLost
  | some r =>
    match db.connection_of r with
    | none => .error .LeaseLost
    | some c =>
      if j.holds clock r && decide (r.connection_generation = c.connection_generation) then
        .ok ()
      else if r.project_id = j.project_id
          ∧ r.connection_generation ≠ c.connection_generation then .error .StaleGeneration
      else .error .LeaseLost

/-- The checkpoint of a job as its claim may use it. -/
def Database.persisted (db : Database) (j : Job) : Except Error String :=
  match db.sync_job_checkpoints.find j.id with
  | none => .ok ""
  | some c =>
    if c.connection_generation = j.connection_generation then .ok c.cursor
    else .error .StaleGeneration

def Database.cursor (db : Database) (clock : ℤ) (j : Job) : Except Error String := do
  db.lock clock j
  db.persisted j

/-- The connection is still the one the page was fetched with. -/
def Database.same_connection (db : Database) (c : Connection) (generation : ℕ) : Bool :=
  (db.connections.find c.id).any (fun r =>
    decide (r.connection.project_id = c.project_id)
      && decide (r.connection.connector = c.connector)
      && decide (r.connection.status = .Active)
      && decide (r.connection.secret_ref_id = c.secret_ref_id)
      && decide (r.connection.external_account_id = c.external_account_id)
      && decide (r.connection.auth_type = c.auth_type)
      && decide (r.connection.credential_owner = c.credential_owner)
      && decide (r.connection_generation = generation))

/-- The row of a record that a page brings. -/
def Job.message (j : Job) (now : ℤ) (m : Message) : StoredMessage :=
  { project_id := j.project_id
    connection_id := j.connection_id
    connection_generation := some j.connection_generation
    message := m
    created_at := now
    updated_at := now }

/-- `ON CONFLICT(project_id,connection_id,id) DO UPDATE`. -/
def StoredMessage.overwrite (new old : StoredMessage) : StoredMessage :=
  { old with
    connection_generation := new.connection_generation
    message := { new.message with id := old.message.id }
    created_at :=
      if old.connection_generation ≠ new.connection_generation then new.created_at
      else old.created_at
    updated_at := new.updated_at }

def store_message (j : Job) (now : ℤ) (t : Table StoredMessage.key) (m : Message) :
    Table StoredMessage.key :=
  t.upsert (j.message now m) (j.message now m).overwrite (fun _ => rfl)

def Database.store_messages (db : Database) (j : Job) (now : ℤ) (records : List Message) :
    Database :=
  { db with synced_messages := records.foldl (store_message j now) db.synced_messages }

def usage_id (env : Env) (j : Job) (cursor : String) : String :=
  "usage_sync_" ++ j.id ++ "_" ++ env.suffix cursor

/-- The usage of some records, once for each id. -/
def Database.meter (db : Database) (env : Env) (now : ℤ) (j : Job) (cursor : String)
    (quantity : ℕ) : Database :=
  match (db.connections.find j.connection_id).filter
      (fun c => decide (c.connection.project_id = j.project_id)) with
  | none => db
  | some c =>
    let account := c.connection.external_account_id
    match db.usage_events.insert
        { id := usage_id env j cursor
          project_id := j.project_id
          connection_id := j.connection_id
          connector := c.connection.connector
          action := j.operation
          occurred_at := now
          external_account_id := account
          quantity := quantity } with
    | none => db
    | some events =>
      { db with
        usage_events := events
        usage_monthly_rollups := db.usage_monthly_rollups.upsert
          ⟨j.project_id, account, env.month now, quantity⟩
          (fun r => { r with quantity := r.quantity + quantity }) (fun _ => rfl) }

/-- The usage of a page. A page without records has none. -/
def Database.meter_page (db : Database) (env : Env) (now : ℤ) (j : Job) (cursor : String)
    (records : List Message) : Database :=
  if records = [] then db else db.meter env now j cursor records.length

def Database.checkpoint (db : Database) (j : Job) (next_cursor : String) : Database :=
  { db with
    sync_job_checkpoints := db.sync_job_checkpoints.upsert
      ⟨j.id, next_cursor, j.connection_generation⟩
      (fun c => { c with
        cursor := next_cursor
        connection_generation := j.connection_generation }) (fun _ => rfl) }

def JobRow.finish_page (r : JobRow) (now : ℤ) (next_cursor : String) : JobRow :=
  { r with
    status := if next_cursor = "" then .succeeded else .pending
    worker_id := ""
    leased_until := none
    run_after := now
    updated_at := now }

/-- The writes of a page, after its checks: the visit, the records, the usage, the
checkpoint and the job. -/
def Database.write_page (db : Database) (env : Env) (now : ℤ) (j : Job) (cursor : String)
    (page : Page) (visits : Table Visit.key) : Database :=
  let visited := { db with sync_job_cursor_visits := visits }
  let stored := visited.store_messages j now page.records
  let metered := stored.meter_page env now j cursor page.records
  (metered.checkpoint j page.next_cursor).update_job j.id
    (fun r => r.finish_page now page.next_cursor) (fun _ => rfl)

/-- `commit_page_checked`: `commit_page` without a connection,
`commit_page_for_connection` with one. -/
def Database.commit_page_checked (db : Database) (env : Env) (clock now : ℤ) (j : Job)
    (cursor : String) (page : Page) (connection : Option Connection) :
    Except Error (Unit × Database) := do
  page.validate
  if page.next_cursor ≠ "" ∧ page.next_cursor = cursor then .error .CursorCycle
  else
    db.lock clock j
    if connection.any (fun c => !db.same_connection c j.connection_generation) then
      .error .StaleGeneration
    else
      let persisted ← db.persisted j
      if persisted ≠ cursor then .error .LeaseLost
      else if page.next_cursor ≠ ""
          ∧ (db.sync_job_cursor_visits.find (j.id, page.next_cursor)).isSome then
        .error .CursorCycle
      else
        match db.sync_job_cursor_visits.insert ⟨j.id, cursor⟩ with
        | none => .error .CursorCycle
        | some visits =>
          let db ← (db.write_page env now j cursor page visits).append_event clock j.id .page
            (page_detail page)
          if page.next_cursor = "" then
            let db ← db.append_event clock j.id .succeeded {}
            .ok ((), db)
          else .ok ((), db)

def JobRow.fail (r : JobRow) (now : ℤ) (millis : ℕ) (terminal : Bool) : JobRow :=
  { r with
    status := if terminal then .failed else .pending
    attempts := if r.attempts < i32_max then r.attempts + 1 else r.attempts
    worker_id := ""
    leased_until := none
    run_after := now + millis * 1000
    last_error := "sync processing failed"
    updated_at := now }

def Database.fail_with_error (db : Database) (clock now : ℤ) (j : Job) (delay : ℕ)
    (terminal : Bool) (error : Option Error) : Except Error (Unit × Database) := do
  db.lock clock j
  let millis := min (delay / 1000000) MAX_RETRY_DELAY_MS
  let event : EventKind × Detail :=
    if terminal then (.failed, { code := some (failure_code error) })
    else (.retry, retry_detail millis (failure_code error))
  let db ← (db.update_job j.id (fun r => r.fail now millis terminal)
    (fun _ => rfl)).append_event clock j.id event.1 event.2
  .ok ((), db)

def Database.cancel_stale (db : Database) (clock : ℤ) (j : Job) :
    Except Error (Unit × Database) :=
  match db.sync_jobs.find j.id with
  | none => .error .LeaseLost
  | some r =>
    if decide (r.project_id = j.project_id) && decide (r.status = .running)
        && decide (r.worker_id = j.worker_id) && decide (j.leased_until ≠ none)
        && decide (r.leased_until = j.leased_until)
        && (db.connection_of r).any
          (fun c => decide (r.connection_generation ≠ c.connection_generation)) then do
      let db ← (db.cancel_job clock j.id).append_event clock j.id .cancelled
        { reason := some "connection_generation_changed" }
      .ok ((), db)
    else .error .LeaseLost

/-! ## Operator controls -/

/-- The job was cancelled because its generation was over. -/
def JobRow.stale_cancelled (r : JobRow) : Bool :=
  decide (r.status = .cancelled)
    && (decide (r.last_error = "connection generation changed")
      || decide (r.last_error = "connection generation unknown; restart required"))

def OperatorAction.allowed (action : OperatorAction) (r : JobRow) (clock : ℤ) : Bool :=
  match action with
  | .RunNow => decide (r.status = .pending)
      || (decide (r.status = .running) && !r.leased clock) || r.stale_cancelled
  | .ResetAttempts => decide (r.status = .pending) || decide (r.status = .failed)
      || (decide (r.status = .running) && !r.leased clock) || r.stale_cancelled
  | .Cancel => decide (r.status = .pending) || decide (r.status = .running)

def OperatorAction.apply (action : OperatorAction) (r : JobRow) (clock : ℤ) (generation : ℕ) :
    JobRow :=
  match action with
  | .RunNow => { r with
      status := .pending
      worker_id := ""
      leased_until := none
      run_after := clock
      connection_generation := generation
      last_error := if r.connection_generation ≠ generation then "" else r.last_error
      updated_at := clock }
  | .ResetAttempts => { r with
      status := .pending
      attempts := 0
      worker_id := ""
      leased_until := none
      run_after := clock
      connection_generation := generation
      last_error := ""
      updated_at := clock }
  | .Cancel => r.cancel clock "cancelled by operator"

/-- The control brings the job back to be claimed. -/
def OperatorAction.restarts : OperatorAction → Bool
  | .RunNow | .ResetAttempts => true
  | .Cancel => false

def OperatorAction.event : OperatorAction → EventKind × Detail
  | .RunNow => (.scheduled, scheduled_detail "run_now")
  | .ResetAttempts => (.scheduled, scheduled_detail "reset_attempts")
  | .Cancel => (.cancelled, { reason := some "operator_cancelled" })

/-- The connection of a job in the account of the operator. -/
def Database.controlled_connection (db : Database) (project_id account_id : String)
    (r : JobRow) : Option Row :=
  (db.connections.find r.connection_id).filter (fun c =>
    decide (c.connection.project_id = project_id)
      && (decide (account_id = "")
        || (decide (c.connection.external_account_id = account_id)
          && decide (c.connection.credential_owner ≠ .Platform))))

/-- The writes of a control. A restart under another generation begins anew. -/
def Database.apply_control (db : Database) (clock : ℤ) (action : OperatorAction) (r : JobRow)
    (generation : ℕ) : Database :=
  let updated := db.update_job r.id (fun r => action.apply r clock generation)
    (by intro r; cases action <;> rfl)
  if action.restarts && decide (r.connection_generation ≠ generation) then updated.forget r.id
  else updated

def valid_control (project_id account_id job_id : String) : Bool :=
  decide (project_id ≠ "") && decide (project_id.utf8ByteSize ≤ 512) && decide (job_id ≠ "")
    && decide (job_id.utf8ByteSize ≤ 512) && decide (account_id.utf8ByteSize ≤ 512)

/-- `control_in_transaction_inner`. -/
def Database.control (db : Database) (clock : ℤ) (project_id account_id job_id : String)
    (action : OperatorAction) : Except Error (Unit × Database) :=
  if !valid_control project_id account_id job_id then .error .InvalidInput
  else
    match (db.sync_jobs.find job_id).filter (fun r => decide (r.project_id = project_id)) with
    | none => .error .NotFound
    | some r =>
      match db.controlled_connection project_id account_id r with
      | none => .error .NotFound
      | some c =>
        if !action.allowed r clock then .error .Conflict
        else do
          let db ← (db.apply_control clock action r c.connection_generation).append_event clock
            job_id action.event.1 action.event.2
          .ok ((), db)

end Appcall.Sync
