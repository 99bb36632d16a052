/-
The server store: `crates/appcall-engine-postgres/src/lib.rs`.

`PostgresStore` is a second implementation of the trait `Store`, on the same
two-table layout as `SqliteStore` and with the same statements, but behind a
fence: the owner epoch of the database is a row of its own, `from_client` raises
it, and every write compares it with the epoch of the session first. Errors are
mapped by `safe`, which calls every unique violation a conflict and forgets the
rest.

The definitions below follow that crate. The last section says how far the two
stores agree: within its epoch a `PostgresStore` answers as a `SqliteStore` on
its tables would, up to the text of a `Storage` error.
-/
import Appcall.Engine.StoreView

set_option autoImplicit false

namespace Appcall.Durable

/-- `PostgresStore`, with the tables of the database it is a client of. The owner
row is the database's, `epoch` is what the session read when it took the lock. -/
structure PostgresStore where
  appcall_workflow_runs : AList (fun _ : String => Row)
  appcall_workflow_history : AList (fun _ : String => List HistoryEvent)
  appcall_workflow_owner : ℕ
  epoch : ℕ
  codec : Codec

/-- The error classes the statements of this store can end in. -/
inductive SqlState where
  | UNIQUE_VIOLATION
  | CHECK_VIOLATION
  deriving DecidableEq

def safe : SqlState → Error
  | .UNIQUE_VIOLATION => .Conflict
  | _ => .Storage "postgres operation failed"

namespace PostgresStore

/-! ## The split history -/

def load_sealed_client (p : PostgresStore) (id : String) : List HistoryEvent :=
  (p.appcall_workflow_history.lookup id).getD []

def sealed_count (p : PostgresStore) (id : String) : ℕ := (p.load_sealed_client id).length

def encode_body (p : PostgresStore) (run : RunRecord) (seal_at : ℕ) : Except Error RunRecord :=
  if run.history.length > HISTORY_CAP then .error .Limit
  else
    let sealed_bytes := ((run.history.take seal_at).map p.codec.event_len).sum
    let body := { run with history := run.history.drop seal_at }
    let bytes := p.codec.record_len body
    if sealed_bytes + bytes > RECORD_CAP ∨ bytes > RECORD_CAP then .error .Limit
    else .ok body

def append_sealed (p : PostgresStore) (id : String) (history : List HistoryEvent)
    (seq_from seq_to : ℕ) : Except Error PostgresStore :=
  let rows := (history.take seq_to).drop seq_from
  if rows.any (fun event => decide (p.codec.event_len event > RECORD_CAP))
      || decide (seq_from + rows.length > HISTORY_CAP) then
    .error (safe .CHECK_VIOLATION)
  else if rows.isEmpty then .ok p
  else .ok { p with
    appcall_workflow_history :=
      p.appcall_workflow_history.insert id (p.load_sealed_client id ++ rows) }

def persist_history (p : PostgresStore) (run : RunRecord) :
    Except Error (PostgresStore × RunRecord) := do
  let seal_at := seal_end run.history
  let already := p.sealed_count run.id
  if seal_at < already then throw (.Invalid "history shrink")
  let p ← p.append_sealed run.id run.history already seal_at
  let body ← p.encode_body run seal_at
  return (p, body)

/-! ## The statements -/

/-- The free function `insert`, inside a transaction. -/
def insert_tx (p : PostgresStore) (run : RunRecord) : Except Error PostgresStore := do
  if !fits_i64 run.revision then throw .Limit
  let (p, body) ← p.persist_history run
  match p.appcall_workflow_runs.lookup run.id with
  | some _ => throw (safe .UNIQUE_VIOLATION)
  | none =>
    return { p with
      appcall_workflow_runs := p.appcall_workflow_runs.insert run.id (row_of run body) }

def fence (p : PostgresStore) : Except Error Unit :=
  if p.appcall_workflow_owner ≠ p.epoch then .error .Conflict else .ok ()

/-- `UPDATE appcall_workflow_runs SET wakeup=0 WHERE id=$1 AND state='running'`. -/
def wake (p : PostgresStore) (id : String) : PostgresStore :=
  match p.appcall_workflow_runs.lookup id with
  | some row =>
    if row.state = .running then
      { p with
        appcall_workflow_runs :=
          p.appcall_workflow_runs.insert id { row with wakeup := some 0 } }
    else p
  | none => p

def load (p : PostgresStore) (id : String) : Except Error RunRecord :=
  match p.appcall_workflow_runs.lookup id with
  | none => .error .NotFound
  | some row => assemble row.record (p.load_sealed_client id)

def insert (p : PostgresStore) (run : RunRecord) : Except Error PostgresStore := do
  p.fence
  p.insert_tx run

def insert_children (p : PostgresStore) : List RunRecord → Except Error PostgresStore
  | [] => .ok p
  | child :: children =>
    match p.insert_tx child with
    | .ok p => p.insert_children children
    | .error .Conflict => .error (.Invalid "child id collision")
    | .error e => .error e

def commit (p : PostgresStore) (expected : ℕ) (run : RunRecord) (children : List RunRecord) :
    Except Error PostgresStore := do
  if ¬ (expected < U64_MAX ∧ expected + 1 = run.revision) then throw .Conflict
  if !fits_i64 run.revision then throw .Limit
  if !fits_i64 expected then throw .Limit
  p.fence
  let (p, body) ← p.persist_history run
  match p.appcall_workflow_runs.lookup run.id with
  | none => throw .Conflict
  | some row =>
    if row.revision ≠ expected then throw .Conflict
    let p := { p with
      appcall_workflow_runs := p.appcall_workflow_runs.insert run.id (row_of run body) }
    let p ← p.insert_children children
    match run.state.ends, run.parent with
    | true, some parent => return p.wake parent
    | _, _ => return p

/-! ## Ownership -/

/-- The ids `recover_running` visits. -/
def recovery_ids (p : PostgresStore) : List String :=
  (p.appcall_workflow_runs.entries.filter (fun entry =>
    decide (entry.2.state = .running) && entry.2.recoverable
      && decide (entry.2.wakeup ≠ some 0))).map (·.1)

def recover_running (p : PostgresStore) : PostgresStore := p.recovery_ids.foldl wake p

/-- The transaction of `from_client` on a database that has its tables: the owner
row is raised, the new session reads it, and the running runs are recovered. -/
def from_client (p : PostgresStore) : PostgresStore :=
  let p := { p with
    appcall_workflow_owner := p.appcall_workflow_owner + 1
    epoch := p.appcall_workflow_owner + 1 }
  p.recover_running

/-! ## Against the embedded store -/

/-- The tables, as the embedded store holds them. -/
def tables (p : PostgresStore) : SqliteStore :=
  { engine_runs := p.appcall_workflow_runs, engine_history := p.appcall_workflow_history,
    epoch := p.epoch, codec := p.codec, outages := [] }

/-- The client of the same session on other tables. -/
def with_tables (p : PostgresStore) (s : SqliteStore) : PostgresStore :=
  { p with
    appcall_workflow_runs := s.engine_runs
    appcall_workflow_history := s.engine_history }

/-- What `safe` makes of an error of the embedded store. -/
def worded : Error → Error
  | .Storage _ => safe .CHECK_VIOLATION
  | e => e

/-- The answer of the embedded store, as this one gives it. -/
def answer (p : PostgresStore) : Except Error SqliteStore → Except Error PostgresStore
  | .ok s => .ok (p.with_tables s)
  | .error e => .error (worded e)

variable (p : PostgresStore) (s : SqliteStore) (id : String) (run : RunRecord)

@[simp] theorem tables_with_tables :
    (p.with_tables s).tables = { s with epoch := p.epoch, codec := p.codec, outages := [] } := rfl

theorem load_eq : p.load id = p.tables.load id := rfl

theorem append_sealed_eq (h : List HistoryEvent) (a b : ℕ) :
    p.append_sealed id h a b = p.answer (p.tables.append_sealed id h a b) := by
  unfold append_sealed SqliteStore.append_sealed
  simp only
  -- the same tests on both sides: a row that is too long, and no row at all
  split
  · rename_i hbad
    rw [if_pos]
    · rfl
    · exact hbad
  · rename_i hbad
    split
    · rw [if_neg]
      · rfl
      · exact hbad
    · rw [if_neg]
      · rfl
      · exact hbad

theorem encode_body_eq (n : ℕ) : p.encode_body run n = p.tables.encode_body run n := by
  unfold encode_body SqliteStore.encode_body
  simp only
  by_cases hcap : run.history.length > HISTORY_CAP
  · rw [if_pos hcap, if_pos hcap]
  · rw [if_neg hcap, if_neg hcap]
    -- one test of either bound here, two tests in turn there
    by_cases hbody : p.codec.record_len { run with history := run.history.drop n } > RECORD_CAP
    · rw [if_pos (.inr hbody), if_pos]
      exact hbody
    · by_cases hsum : ((run.history.take n).map p.codec.event_len).sum
          + p.codec.record_len { run with history := run.history.drop n } > RECORD_CAP
      · rw [if_pos (.inl hsum), if_neg, if_pos]
        · exact hsum
        · exact hbody
      · rw [if_neg (not_or.mpr ⟨hsum, hbody⟩), if_neg, if_neg]
        · exact hsum
        · exact hbody

theorem persist_history_eq : p.persist_history run = match p.tables.persist_history run with
      | .ok (s, body) => .ok (p.with_tables s, body)
      | .error e => .error (worded e) := by
  unfold persist_history SqliteStore.persist_history
  simp only [bind, Except.bind, throw, throwThe, MonadExceptOf.throw, pure, Except.pure]
  have hcount : p.sealed_count run.id = p.tables.sealed_count run.id := rfl
  rw [hcount]
  by_cases hlt : seal_end run.history < p.tables.sealed_count run.id
  · rw [if_pos hlt, if_pos hlt]
    rfl
  · rw [if_neg hlt, if_neg hlt, append_sealed_eq]
    cases ha : p.tables.append_sealed run.id run.history (p.tables.sealed_count run.id)
        (seal_end run.history) with
    | error e => rfl
    | ok s =>
      obtain ⟨-, hep, hcodec, hout, -⟩ := append_sealed_ok ha
      have hs : (p.with_tables s).tables = s := by
        rw [tables_with_tables]
        cases s
        cases hep
        cases hcodec
        cases hout
        rfl
      simp only [answer, encode_body_eq, hs]
      cases hb : s.encode_body run (seal_end run.history) with
      | error e =>
        rw [encode_body_error hb]
        rfl
      | ok body => rfl

theorem insert_tx_eq : p.insert_tx run = p.answer (p.tables.insert_run run) := by
  unfold insert_tx SqliteStore.insert_run
  simp only [bind, Except.bind, throw, throwThe, MonadExceptOf.throw, pure, Except.pure]
  rw [persist_history_eq]
  by_cases hfit : (!fits_i64 run.revision) = true
  · rw [if_pos hfit, if_pos hfit]
    rfl
  · rw [if_neg hfit, if_neg hfit]
    cases hp : p.tables.persist_history run with
    | error e => rfl
    | ok out =>
      obtain ⟨s, body⟩ := out
      simp only
      show (match s.engine_runs.lookup run.id with
        | some _ => _
        | none => _) = _
      cases s.engine_runs.lookup run.id with
      | some row => rfl
      | none => rfl

theorem tables_of_insert {p : PostgresStore} {s s' : SqliteStore} {run : RunRecord}
    (hs : (p.with_tables s).tables = s) (hok : s.insert_run run = .ok s') :
    (p.with_tables s').tables = s' := by
  obtain ⟨s1, body, hp, -, rfl⟩ := SqliteStore.insert_run_inv hok
  obtain ⟨-, hep, hcodec, hout, -⟩ := persist_history_ok hp
  rw [tables_with_tables] at hs ⊢
  have h1 : p.epoch = s.epoch := congrArg SqliteStore.epoch hs
  have h2 : p.codec = s.codec := congrArg SqliteStore.codec hs
  have h3 : [] = s.outages := congrArg SqliteStore.outages hs
  rw [h1, h2, h3, ← hep, ← hcodec, ← hout]

theorem insert_children_eq (children : List RunRecord) (hs : (p.with_tables s).tables = s) :
    (p.with_tables s).insert_children children = p.answer (s.insert_children children) := by
  induction children generalizing s with
  | nil => rfl
  | cons child children ih =>
    unfold insert_children SqliteStore.insert_children
    rw [insert_tx_eq, hs]
    cases hi : s.insert_run child with
    | ok s1 =>
      have hs1 := tables_of_insert hs hi
      exact ih s1 hs1
    | error e => cases e <;> rfl

theorem insert_eq : p.insert run = if p.appcall_workflow_owner ≠ p.epoch then .error .Conflict
      else p.answer (p.tables.insert_run run) := by
  unfold insert fence
  simp only [bind, Except.bind]
  by_cases hf : p.appcall_workflow_owner ≠ p.epoch
  · rw [if_pos hf, if_pos hf]
  · rw [if_neg hf, if_neg hf]
    exact insert_tx_eq p run

theorem wake_eq : (p.with_tables s).wake id = p.with_tables (s.wake id) := by
  unfold wake SqliteStore.wake
  show (match s.engine_runs.lookup id with
    | some row => _
    | none => _) = _
  cases s.engine_runs.lookup id with
  | none => rfl
  | some row =>
    simp only
    split <;> rfl

/-- **Two stores, one meaning.** A commit of the server store within its epoch is
the commit of the embedded one on the same tables; outside its epoch it is
refused after the checks that need no database. -/
theorem commit_eq (expected : ℕ) (run : RunRecord) (children : List RunRecord)
    (hf : p.appcall_workflow_owner = p.epoch) :
    p.commit expected run children = p.answer (p.tables.commit expected run children) := by
  unfold commit SqliteStore.commit fence
  simp only [bind, Except.bind, throw, throwThe, MonadExceptOf.throw, pure, Except.pure]
  rw [if_neg (not_not.mpr hf), persist_history_eq]
  split
  · rfl
  split
  · rfl
  split
  · rfl
  cases hp : p.tables.persist_history run with
  | error e => rfl
  | ok out =>
    obtain ⟨s, body⟩ := out
    obtain ⟨-, hep, hcodec, hout, -⟩ := persist_history_ok hp
    simp only
    show (match s.engine_runs.lookup run.id with
      | none => _
      | some row => _) = _
    cases s.engine_runs.lookup run.id with
    | none => rfl
    | some row =>
      simp only
      split
      · rfl
      · have hs : (p.with_tables { s with
            engine_runs := s.engine_runs.insert run.id (row_of run body) }).tables
            = { s with engine_runs := s.engine_runs.insert run.id (row_of run body) } := by
          rw [tables_with_tables]
          simp only [hep, hcodec, hout, tables]
        have hc := insert_children_eq p _ children hs
        have hw : { p.with_tables s with
            appcall_workflow_runs :=
              (p.with_tables s).appcall_workflow_runs.insert run.id (row_of run body) }
            = p.with_tables { s with
              engine_runs := s.engine_runs.insert run.id (row_of run body) } := rfl
        rw [hw, hc]
        cases SqliteStore.insert_children { s with
            engine_runs := s.engine_runs.insert run.id (row_of run body) } children with
        | error e => rfl
        | ok s2 =>
          cases run.state.ends with
          | false => rfl
          | true =>
            cases run.parent with
            | none => rfl
            | some parent => exact congrArg Except.ok (wake_eq p s2 parent)

theorem commit_fenced {p : PostgresStore} (hf : p.appcall_workflow_owner ≠ p.epoch)
    (expected : ℕ) (run : RunRecord) (children : List RunRecord) :
    ∃ e, p.commit expected run children = .error e := by
  unfold commit fence
  simp only [bind, Except.bind, throw, throwThe, MonadExceptOf.throw]
  rw [if_pos hf]
  split
  · exact ⟨_, rfl⟩
  split
  · exact ⟨_, rfl⟩
  split
  · exact ⟨_, rfl⟩
  exact ⟨_, rfl⟩

end PostgresStore

end Appcall.Durable
