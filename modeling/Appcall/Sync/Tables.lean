/-
The tables of a sync and the history of its jobs: the migrations of the sync jobs,
their recovery, history and generation, and `event_detail` and `append_event` of
`crates/appcall-sync/src/repository.rs`.

Times are microseconds, durations nanoseconds. A JSON text that is only stored and
compared is a string. Of the usage tables the rows of kind `synced_record` are kept.
-/
import Appcall.Lib.Chars
import Appcall.Lib.Query
import Appcall.Oauth.Connections

set_option autoImplicit false

namespace Appcall.Sync

open Chars (is_control)
open Appcall.Oauth (Connection Row)

/-! ## Rows -/

inductive Error where
  | InvalidInput
  | InvalidPage
  | UnsupportedModel
  | Unavailable
  | LeaseLost
  | StaleGeneration
  | CursorCycle
  | NotFound
  | Conflict
  | Storage
  | Runner (retry_after_seconds : Option ℕ)
  deriving DecidableEq

inductive OperatorAction where
  | RunNow
  | ResetAttempts
  | Cancel
  deriving DecidableEq

inductive JobStatus where
  | pending
  | running
  | succeeded
  | failed
  | cancelled
  deriving DecidableEq

inductive InputValue where
  | text (s : String)
  | count (n : ℕ)
  | other (json : String)
  deriving DecidableEq

/-- The input of a job: the fields of the object, and the length of its encoding. -/
structure Input where
  fields : List (String × InputValue)
  size : ℕ
  deriving DecidableEq

structure ScheduleRequest where
  id : String
  project_id : String
  connection_id : String
  operation : String
  dedup_key : String
  input : Input

/-- `Job`, what a worker holds of a row. -/
structure Job where
  id : String
  project_id : String
  connection_id : String
  operation : String
  input : Input
  status : JobStatus
  worker_id : String
  attempts : ℕ
  leased_until : Option ℤ
  connection_generation : ℕ
  deriving DecidableEq

/-- A row of `sync_jobs`. -/
structure JobRow where
  id : String
  project_id : String
  connection_id : String
  operation : String
  status : JobStatus
  worker_id : String
  attempts : ℕ
  run_after : ℤ
  leased_until : Option ℤ
  created_at : ℤ
  updated_at : ℤ
  last_error : String
  dedup_key : String
  input : Input
  connection_generation : ℕ
  deriving DecidableEq

def JobRow.job (r : JobRow) : Job :=
  { id := r.id
    project_id := r.project_id
    connection_id := r.connection_id
    operation := r.operation
    input := r.input
    status := r.status
    worker_id := r.worker_id
    attempts := r.attempts
    leased_until := r.leased_until
    connection_generation := r.connection_generation }

/-- A row of `sync_job_checkpoints`. -/
structure Checkpoint where
  job_id : String
  cursor : String
  connection_generation : ℕ

/-- A row of `sync_job_cursor_visits`. -/
structure Visit where
  job_id : String
  cursor : String

structure Message where
  id : String
  provider : String
  provider_message_id : String
  channel_id : String
  sender_id : String
  text : String
  model_version : String
  raw : String
  deriving DecidableEq

/-- `Page`, with the length of the encoding of its records. -/
structure Page where
  records : List Message
  next_cursor : String
  size : ℕ
  deriving DecidableEq

/-- A row of `synced_messages`. A row written before generations has none. -/
structure StoredMessage where
  project_id : String
  connection_id : String
  connection_generation : Option ℕ
  message : Message
  created_at : ℤ
  updated_at : ℤ

def StoredMessage.key (m : StoredMessage) : String × String × String :=
  (m.project_id, m.connection_id, m.message.id)

/-- A row of `usage_events`. -/
structure UsageEvent where
  id : String
  project_id : String
  connection_id : String
  connector : String
  action : String
  occurred_at : ℤ
  external_account_id : String
  quantity : ℕ
  deriving DecidableEq

/-- A row of `usage_monthly_rollups`. -/
structure Rollup where
  project_id : String
  external_account_id : String
  month : String
  quantity : ℕ
  deriving DecidableEq

def Rollup.key (r : Rollup) : String × String × String :=
  (r.project_id, r.external_account_id, r.month)

inductive EventKind where
  | scheduled
  | claimed
  | page
  | retry
  | lease_expired
  | succeeded
  | failed
  | cancelled
  deriving DecidableEq

/-- The policy of a claim. A field that is missing or of another type is `none`; both
are refused alike. -/
structure Policy where
  source : Option String
  maxAttempts : Option ℕ
  leaseDurationMs : Option ℕ
  retryBaseMs : Option String
  maxRetryDelayMs : Option ℕ
  unknown_key : Bool
  deriving DecidableEq

structure Detail where
  reason : Option String := none
  recordsWritten : Option ℕ := none
  hasMore : Option Bool := none
  retryDelayMs : Option ℕ := none
  code : Option String := none
  policy : Option Policy := none
  deriving DecidableEq

/-- A row of `sync_job_events`. -/
structure JobEvent where
  job_id : String
  seq : ℕ
  kind : EventKind
  recorded : ℤ
  detail : Detail

def JobEvent.key (e : JobEvent) : String × ℕ := (e.job_id, e.seq)

def Visit.key (v : Visit) : String × String := (v.job_id, v.cursor)

def connection_id (r : Row) : String := r.connection.id

structure Database where
  connections : Table connection_id
  sync_jobs : Table JobRow.id
  sync_job_checkpoints : Table Checkpoint.job_id
  sync_job_cursor_visits : Table Visit.key
  synced_messages : Table StoredMessage.key
  usage_events : Table UsageEvent.id
  usage_monthly_rollups : Table Rollup.key
  sync_job_events : Table JobEvent.key

/-! ## Events -/

def MAX_EVENT_STRING_BYTES : ℕ := 96
def MAX_PAGE_RECORDS : ℕ := 10000
def MAX_RETRY_DELAY_MS : ℕ := 86400000
def MAX_RECOVERIES_PER_CLAIM : ℕ := 32
def DEFAULT_MAX_ATTEMPTS : ℕ := 10

/-- `i32::MAX`, the largest `integer` of a table. -/
def i32_max : ℕ := 2147483647

/-- `bounded_string` of `event_detail`. -/
def bounded_string (s : String) : Bool :=
  decide (s.utf8ByteSize ≤ MAX_EVENT_STRING_BYTES) && !s.toList.any is_control

def Policy.admitted (p : Policy) : Bool :=
  !p.unknown_key
    && p.maxAttempts.any (fun n => decide (n ≠ 0) && decide (n ≤ 4294967295))
    && p.leaseDurationMs.any (fun n => decide (n ≤ 3600000))
    && p.maxRetryDelayMs.any (fun n => decide (n ≤ 86400000))
    && p.retryBaseMs.any (fun s =>
        decide (s ≠ "") && decide (s.utf8ByteSize ≤ 128) && s.toList.all Char.isDigit)
    && decide (p.source = some "service_config")

/-- `event_detail`. A detail that passes is shorter than `MAX_EVENT_DETAIL_BYTES`. -/
def event_detail (kind : EventKind) (d : Detail) : Except Error Unit :=
  if d.reason.all bounded_string
      && d.code.all (fun s => bounded_string s
        && s.toList.all (fun c => c.isUpper || c.isDigit || decide (c = '_')))
      && d.recordsWritten.all (fun n => decide (n ≤ MAX_PAGE_RECORDS))
      && d.retryDelayMs.all (fun n => decide (n ≤ MAX_RETRY_DELAY_MS))
      && d.policy.all Policy.admitted
      && match kind with
        | .scheduled => decide (d.reason = some "new_job") || decide (d.reason = some "run_now")
            || decide (d.reason = some "reset_attempts")
        | .page => d.recordsWritten.isSome && d.hasMore.isSome
        | .retry => d.retryDelayMs.isSome
        | .failed => d.code.isSome
        | .cancelled => decide (d.reason = some "operator_cancelled")
            || decide (d.reason = some "connection_generation_changed")
            || decide (d.reason = some "connection_generation_unknown")
        | .claimed => decide (d = { policy := d.policy })
        | .lease_expired | .succeeded => decide (d = {}) then
    .ok ()
  else .error .InvalidInput

/-- `COALESCE(MAX(seq),0)` of the events of a job. -/
def Database.last_seq (db : Database) (job_id : String) : ℕ :=
  ((db.sync_job_events.rows.filter (fun e => decide (e.job_id = job_id))).map
    JobEvent.seq).foldr max 0

def Database.append_event (db : Database) (clock : ℤ) (job_id : String) (kind : EventKind)
    (detail : Detail) : Except Error Database := do
  event_detail kind detail
  if (db.sync_jobs.find job_id).isNone then .error .NotFound
  else
    let seq := db.last_seq job_id + 1
    if i32_max < seq then .error .Storage
    else
      match db.sync_job_events.insert ⟨job_id, seq, kind, clock, detail⟩ with
      | none => .error .Storage
      | some events => .ok { db with sync_job_events := events }

def scheduled_detail (reason : String) : Detail := { reason := some reason }

def page_detail (page : Page) : Detail :=
  { recordsWritten := some page.records.length
    hasMore := some (decide (page.next_cursor ≠ "")) }

def retry_detail (delay_ms : ℕ) (code : String) : Detail :=
  { retryDelayMs := some (min delay_ms MAX_RETRY_DELAY_MS)
    code := some code }

def failure_code : Option Error → String
  | some .InvalidInput => "INVALID_INPUT"
  | some .InvalidPage => "INVALID_PAGE"
  | some .UnsupportedModel => "UNSUPPORTED_MODEL"
  | some .Unavailable => "UNAVAILABLE"
  | some .CursorCycle => "CURSOR_CYCLE"
  | some (.Runner _) => "RUNNER_ERROR"
  | some .NotFound => "NOT_FOUND"
  | some .Conflict => "CONFLICT"
  | some .Storage | none => "SYNC_PROCESSING_FAILED"
  | some .LeaseLost => "LEASE_LOST"
  | some .StaleGeneration => "STALE_CONNECTION_GENERATION"

def configured_max_attempts (policy : Option Policy) : Except Error ℕ :=
  match policy.bind Policy.maxAttempts with
  | none => .ok DEFAULT_MAX_ATTEMPTS
  | some n => if 0 < n ∧ n ≤ i32_max then .ok n else .error .InvalidInput

/-! ## What an event writes -/

theorem append_event_writes {db db' : Database} {clock : ℤ} {job_id : String}
    {kind : EventKind} {detail : Detail}
    (h : db.append_event clock job_id kind detail = .ok db') :
    ∃ events, db.sync_job_events.insert
        ⟨job_id, db.last_seq job_id + 1, kind, clock, detail⟩ = some events
      ∧ db' = { db with sync_job_events := events } := by
  rw [Database.append_event] at h
  obtain ⟨-, -, h⟩ := bind_eq_ok h
  split at h
  next => cases h
  next =>
    dsimp only at h
    split at h
    next => cases h
    next =>
      cases hinsert : db.sync_job_events.insert
          ⟨job_id, db.last_seq job_id + 1, kind, clock, detail⟩ with
      | none =>
        rw [hinsert] at h
        cases h
      | some events =>
        rw [hinsert] at h
        cases h
        exact ⟨events, rfl, rfl⟩

end Appcall.Sync
