/-
The durable store: `crates/appcall-engine/src/store.rs`.

`SqliteStore` is the two tables of the database and the owner epoch. A row of
`engine_runs` keeps the run twice over: the `record` blob, and the columns the
host polls (`state`, `wakeup`, `recoverable`). The two copies of the wakeup are
written together by `commit`, and apart by the two `UPDATE .. SET wakeup=0`
statements, which touch the column and leave the blob. History is split the same
way: the resolved prefix of a run lives in `engine_history`, one row an event,
and the blob carries what follows it.

A transaction is a function into `Except`: on an error nothing of it is kept,
which is the rollback of a dropped `Transaction`.

What is outside the source is a parameter. `serde_json` fixes the length of an
encoded record (`Codec`), and the database may refuse any call (`outages`, the
answers of the next calls: `none` for a call that works, else the text of the
`Storage` error). A process that dies in the middle of an operation is one whose
remaining calls are all refused.
-/
import Mathlib.Algebra.GroupWithZero.Nat
import Mathlib.Data.List.Sort
import Appcall.Engine.Types

set_option autoImplicit false

namespace Appcall.Durable

def HISTORY_CAP : ℕ := 1024

/-- The load-bearing 1 MiB literal of `encode_body`. -/
def RECORD_CAP : ℕ := 1024 * 1024

/-- Lengths of the serialized forms, which `serde_json` decides. -/
structure Codec where
  event_len : HistoryEvent → ℕ
  record_len : RunRecord → ℕ

/-- The `state` column. -/
inductive RowState where
  | running
  | suspended
  deriving DecidableEq

/-- A row of `engine_runs`; the primary key is the table's key. -/
structure Row where
  revision : ℕ
  state : RowState
  wakeup : Option ℤ
  record : RunRecord
  recoverable : Bool

/-- `store::SqliteStore`. The rows of `engine_history` of one run have
contiguous sequence numbers from zero, so they are a list under the run's id. -/
structure SqliteStore where
  engine_runs : AList (fun _ : String => Row)
  engine_history : AList (fun _ : String => List HistoryEvent)
  epoch : ℕ
  codec : Codec
  outages : List (Option String)

/-! ## Columns derived from a record -/

def state (run : RunRecord) : RowState :=
  match run.state with
  | .Running | .CancelRequested => .running
  | _ => .suspended

/-- A task the next owner of the database has to look at. -/
def TaskState.recoverable : TaskState → Bool
  | .Ready | .InFlight | .Invoking => true
  | _ => false

def requires_recovery (run : RunRecord) : Bool :=
  decide (run.state = .CancelRequested) || run.tasks.any (fun task => task.state.recoverable)

/-! ## The split history -/

/-- `store::seal_end`: the first unresolved event, or the length. -/
def seal_end (history : List HistoryEvent) : ℕ :=
  history.findIdx (fun event => event.value.isNone)

/-- The rows of `engine_history` of one run, by sequence number. -/
def SqliteStore.load_sealed (s : SqliteStore) (id : String) : List HistoryEvent :=
  (s.engine_history.lookup id).getD []

def SqliteStore.sealed_count (s : SqliteStore) (id : String) : ℕ := (s.load_sealed id).length

/-- `store::encode_body`: the blob is the run with only the unsealed suffix of
its history, and both it and the whole are capped at 1 MiB. -/
def SqliteStore.encode_body (s : SqliteStore) (run : RunRecord) (seal_at : ℕ) :
    Except Error RunRecord :=
  if run.history.length > HISTORY_CAP then .error .Limit
  else
    let sealed_bytes := ((run.history.take seal_at).map s.codec.event_len).sum
    let body := { run with history := run.history.drop seal_at }
    let bytes := s.codec.record_len body
    if bytes > RECORD_CAP then .error .Limit
    else if sealed_bytes + bytes > RECORD_CAP then .error .Limit
    else .ok body

/-- `store::append_sealed`. The two `CHECK` clauses of the table are the only
constraints an insert can violate: the sequence numbers `seq_from..seq_to` are
new, since the table holds exactly `seq_from` rows of the run. -/
def SqliteStore.append_sealed (s : SqliteStore) (id : String) (history : List HistoryEvent)
    (seq_from seq_to : ℕ) : Except Error SqliteStore :=
  let rows := (history.take seq_to).drop seq_from
  if rows.any (fun event => decide (s.codec.event_len event > RECORD_CAP))
      || decide (seq_from + rows.length > HISTORY_CAP) then
    .error (.Storage "sqlite operation failed: Some(ConstraintViolation)")
  else if rows.isEmpty then .ok s
  else .ok { s with engine_history := s.engine_history.insert id (s.load_sealed id ++ rows) }

/-- `store::persist_history`: seals the newly resolved events and returns the blob. -/
def SqliteStore.persist_history (s : SqliteStore) (run : RunRecord) :
    Except Error (SqliteStore × RunRecord) := do
  let seal_at := seal_end run.history
  let already := s.sealed_count run.id
  if seal_at < already then throw (.Invalid "history shrink")
  let s ← s.append_sealed run.id run.history already seal_at
  let body ← s.encode_body run seal_at
  return (s, body)

/-- `store::assemble`. A run without sealed events is a legacy row, whose blob
carries the whole history. -/
def assemble (body : RunRecord) (sealed_events : List HistoryEvent) : Except Error RunRecord :=
  if sealed_events.isEmpty then .ok body
  else if (sealed_events ++ body.history).length > HISTORY_CAP then .error .Limit
  else .ok { body with history := sealed_events ++ body.history }

/-! ## The statements -/

/-- `i64::try_from` on a revision. -/
def fits_i64 (n : ℕ) : Bool := decide ((n : ℤ) ≤ I64_MAX)

/-- The row `insert_run` and `commit` write for a run. -/
def row_of (run body : RunRecord) : Row :=
  { revision := run.revision, state := state run, wakeup := run.wakeup, record := body,
    recoverable := requires_recovery run }

def SqliteStore.insert_run (s : SqliteStore) (run : RunRecord) : Except Error SqliteStore := do
  if !fits_i64 run.revision then throw .Limit
  let (s, body) ← s.persist_history run
  match s.engine_runs.lookup run.id with
  | some _ => throw .Conflict
  | none => return { s with engine_runs := s.engine_runs.insert run.id (row_of run body) }

/-- `UPDATE engine_runs SET wakeup=0 WHERE id=?1 AND state='running'`. -/
def SqliteStore.wake (s : SqliteStore) (id : String) : SqliteStore :=
  match s.engine_runs.lookup id with
  | some row =>
    if row.state = .running then
      { s with engine_runs := s.engine_runs.insert id { row with wakeup := some 0 } }
    else s
  | none => s

/-- The states whose commit notifies the parent of the run. -/
def RunState.ends : RunState → Bool
  | .Completed | .Cancelled | .Failed | .Nondeterminism => true
  | _ => false

def SqliteStore.load (s : SqliteStore) (id : String) : Except Error RunRecord :=
  match s.engine_runs.lookup id with
  | none => .error .NotFound
  | some row => assemble row.record (s.load_sealed id)

/-- The children of a commit: a clash of ids is a fault of the command. -/
def SqliteStore.insert_children (s : SqliteStore) : List RunRecord → Except Error SqliteStore
  | [] => .ok s
  | child :: children =>
    match s.insert_run child with
    | .ok s => s.insert_children children
    | .error .Conflict => .error (.Invalid "child id collision")
    | .error e => .error e

/-- `SqliteStore::commit`: compare the revision, write the run, insert its new
children and notify its parent, or nothing. -/
def SqliteStore.commit (s : SqliteStore) (expected : ℕ) (run : RunRecord)
    (children : List RunRecord) : Except Error SqliteStore := do
  if ¬ (expected < U64_MAX ∧ expected + 1 = run.revision) then throw .Conflict
  if !fits_i64 run.revision then throw .Limit
  if !fits_i64 expected then throw .Limit
  let (s, body) ← s.persist_history run
  match s.engine_runs.lookup run.id with
  | none => throw .Conflict
  | some row =>
    if row.revision ≠ expected then throw .Conflict
    let s := { s with engine_runs := s.engine_runs.insert run.id (row_of run body) }
    let s ← s.insert_children children
    match run.state.ends, run.parent with
    | true, some parent => return s.wake parent
    | _, _ => return s

/-! ## Polling and ownership -/

/-- `WHERE state='running' AND wakeup<=?1`. -/
def Row.due (row : Row) (now_ms : ℤ) : Bool :=
  decide (row.state = .running) &&
    match row.wakeup with
    | some wakeup => decide (wakeup ≤ now_ms)
    | none => false

/-- `ORDER BY wakeup,id` on the pairs the query sorts. -/
def poll_le (a b : ℤ × String) : Prop := a.1 < b.1 ∨ (a.1 = b.1 ∧ a.2 ≤ b.2)

instance : DecidableRel poll_le := fun a b => by unfold poll_le; infer_instance

def SqliteStore.runnable (s : SqliteStore) (now_ms : ℤ) (limit : ℕ) :
    Except Error (List String) :=
  if limit = 0 ∨ limit > 256 then .error .Limit
  else
    let due := s.engine_runs.entries.filter (fun entry => entry.2.due now_ms)
    let keyed := due.map (fun entry => (entry.2.wakeup.getD 0, entry.1))
    .ok (((keyed.insertionSort poll_le).take limit).map Prod.snd)

/-- The ids `SqliteStore::open` visits: running, flagged recoverable, and not
already due at zero. -/
def SqliteStore.recovery_ids (s : SqliteStore) : List String :=
  (s.engine_runs.entries.filter (fun entry =>
    decide (entry.2.state = .running) && entry.2.recoverable
      && decide (entry.2.wakeup.getD (-1) ≠ 0))).map (·.1)

/-- `SqliteStore::open` on an existing database. Each open raises the owner
epoch; one that fails half way leaves its epoch behind, so `failed` counts the
attempts that did not get through before the one that did. -/
def SqliteStore.reopen (s : SqliteStore) (failed : ℕ) : SqliteStore :=
  let s := s.recovery_ids.foldl SqliteStore.wake s
  { s with epoch := s.epoch + failed + 1, outages := [] }

/-- `SqliteStore::open` on a new database. -/
def SqliteStore.create (codec : Codec) : SqliteStore :=
  { engine_runs := ∅, engine_history := ∅, epoch := 1, codec, outages := [] }

end Appcall.Durable
