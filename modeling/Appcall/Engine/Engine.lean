/-
The engine: `crates/appcall-engine/src/engine.rs`, `impl Engine`.

`Engine` has the fields of the source's struct, and an operation is a program in
`EngineM`: it reads and writes the engine and may fail, and what it wrote before
it failed stays written. That is Rust's `&mut self` with `?`, and it is what the
error paths are about: a drive that saves twice and then fails has saved twice.

Each method keeps the order of the source, since the order of loads, checks and
saves decides what a refused call leaves behind. The longer methods are cut at
their natural seams (`finish_run`, `dispatch_ready`, `settle` are the three ways
out of one turn of `drive_with_resolver`), and the loops are recursions on what
they walk over.

Not modelled: the handlers of native activities. `activities` records whether an
activity has one; what the handler answers reaches the engine as a call of
`complete` or `fail_at`.
-/
import Appcall.Engine.Context
import Appcall.Engine.Record
import Appcall.Engine.Store

set_option autoImplicit false

namespace Appcall.Durable

/-- `engine::Engine<SqliteStore>`. `parked` and `dispatched` are the hash set and
the hash map of the source; `sha256_hex` is the digest of the `sha2` crate. -/
structure Engine where
  store : SqliteStore
  workflows : AList (fun _ : String × String => Workflow)
  activities : AList (fun _ : String × String => Bool)
  dispatch_limit : ℕ
  retry_policy : RetryPolicy
  dispatched : AList (fun _ : String × ℕ × ℕ => ActivityAttempt)
  parked : List String
  sha256_hex : String → String

def Engine.with_store (store : SqliteStore) (sha256_hex : String → String) : Engine :=
  { store, workflows := ∅, activities := ∅, dispatch_limit := 8,
    retry_policy := RetryPolicy.default, dispatched := ∅, parked := [], sha256_hex }

abbrev EngineM := ExceptT Error (StateM Engine)

/-- `?` on a pure result. -/
def result {α : Type} : Except Error α → EngineM α
  | .ok a => pure a
  | .error e => throw e

/-! ## Calls on the store -/

/-- The next answer of the database: a call either works or is refused before it
has any effect. -/
def store_call : EngineM Unit := do
  let e ← get
  match e.store.outages with
  | [] => pure ()
  | none :: rest => set { e with store := { e.store with outages := rest } }
  | some message :: rest =>
    set { e with store := { e.store with outages := rest } }
    throw (.Storage message)

/-- `self.store.load(id)`. -/
def load (id : String) : EngineM RunRecord := do
  store_call
  let e ← get
  result (e.store.load id)

/-- `match self.store.load(id)` where an absent run is not an error. -/
def run_exists (id : String) : EngineM Bool := do
  store_call
  let e ← get
  match e.store.load id with
  | .ok _ => pure true
  | .error .NotFound => pure false
  | .error error => throw error

def save (run : RunRecord) (children : List RunRecord) : EngineM RunRecord := do
  let old := run.revision
  let revision ← result (checked_succ old)
  let run := { run with revision }
  store_call
  let e ← get
  let store ← result (e.store.commit old run children)
  set { e with store }
  return run

def dispatch_key (a : ActivityAttempt) : String × ℕ × ℕ :=
  (a.effect_id, a.attempt, a.owner_epoch)

/-! ## Configuration -/

def set_dispatch_limit (limit : ℕ) : EngineM Unit := do
  let e ← get
  if limit = 0 ∨ limit > 256 ∨ limit < e.dispatched.entries.length then throw .Limit
  set { e with dispatch_limit := limit }

def set_retry_policy (policy : RetryPolicy) : EngineM Unit := do
  result policy.validate
  modify (fun e => { e with retry_policy := policy })

def register_workflow (name version : String) (workflow : Workflow) : EngineM Unit := do
  result (validate name)
  result (validate version)
  let e ← get
  if e.workflows.entries.length ≥ 256 ∨ (name, version) ∈ e.workflows then throw .Conflict
  set { e with workflows := e.workflows.insert (name, version) workflow }

/-- `Engine::add_activity`, and so `register_activity` and `register_activity_fn`:
`native` says whether the activity has a handler in the process. -/
def add_activity (name version : String) (native : Bool) : EngineM Unit := do
  result (validate name)
  result (validate version)
  let e ← get
  if e.activities.entries.length ≥ 256 ∨ (name, version) ∈ e.activities then throw .Conflict
  set { e with activities := e.activities.insert (name, version) native }

def start (id name version : String) (input : PayloadRef) : EngineM Unit := do
  let run ← result (new_run id name version input)
  store_call
  let e ← get
  let store ← result (e.store.insert_run run)
  set { e with store }

/-! ## Dispatch capacity -/

/-- The loop of `release_dispatch` over the parked runs. -/
def wake_parked : List String → EngineM Unit
  | [] => pure ()
  | id :: parked => do
    let run ← load id
    if run.state = .Running then
      let _ ← save { run with wakeup := some 0 } []
    modify (fun e => { e with parked := e.parked.erase id })
    wake_parked parked

def release_dispatch (attempt : ActivityAttempt) : EngineM Unit := do
  let e ← get
  if e.dispatched.lookup (dispatch_key attempt) ≠ some attempt then pure ()
  else
    wake_parked e.parked
    modify (fun e => { e with dispatched := e.dispatched.erase (dispatch_key attempt) })

/-! ## Rejection, resumption, signals -/

def suspend (r : RunRecord) (state : RunState) : EngineM DriveOutcome := do
  let _ ← save { r with state, wakeup := none } []
  return .Suspended state

def reject_run (id : String) (reason : RunFailure) : EngineM Unit := do
  let run ← load id
  result (ensure_active run)
  let _ ← save { run with
    state := failure_state reason, failure_reason := some reason, wakeup := none } []

/-- `for attempt in attempts { self.release_dispatch(&attempt)?; }`. -/
def release_all : List ActivityAttempt → EngineM Unit
  | [] => pure ()
  | attempt :: attempts => do
    release_dispatch attempt
    release_all attempts

def reject_malformed_run (id : String) : EngineM Unit := do
  reject_run id .InvalidCommand
  let run ← load id
  let e ← get
  let attempts := (e.dispatched.entries.map (·.2)).filter (fun attempt =>
    decide (attempt.run_id = id) && run.tasks.any (fun task =>
      decide (task.attempt = attempt) && decide (task.state = .InFlight)))
  release_all attempts

def reject_dispatch (attempt : ActivityAttempt) (reason : RunFailure) : EngineM Unit := do
  let run ← load attempt.run_id
  result (ensure_active run)
  let epoch := (← get).store.epoch
  let (i, task) ← result (owned_task run attempt epoch)
  if task.state ≠ .InFlight then throw .Conflict
  let task := { task with
    state := .Ready, execution := { task.execution with known_unexecuted := true } }
  let _ ← save { run with
    tasks := run.tasks.set i task, state := failure_state reason,
    failure_reason := some reason, wakeup := none } []
  release_dispatch attempt

/-- A task the new owner of the store, or a run out of retries, takes back from
its executor. -/
def ActivityTask.interrupted (task : ActivityTask) (epoch : ℕ) (retry_exhausted : Bool) : Bool :=
  task.state.held
    && (decide (task.attempt.owner_epoch ≠ epoch)
      || (retry_exhausted && !task.attempt.policy.safe))

/-- The body of the loop of `recover`. -/
def recover_task (epoch : ℕ) (retry_exhausted : Bool) (task : ActivityTask) : ActivityTask :=
  { task with
    execution := normalize_legacy_attempt task.attempt task.execution
    state :=
      if task.interrupted epoch retry_exhausted then
        if task.attempt.policy.safe then .Ready else .Uncertain
      else task.state }

/-- `r.state == Failed && r.failure_reason == Some(RetryExhausted)`. -/
def RunRecord.retry_exhausted (r : RunRecord) : Bool :=
  decide (r.state = .Failed) && decide (r.failure_reason = some .RetryExhausted)

/-- The states `recover` leaves alone, whatever their reason. -/
def RunState.settled : RunState → Bool
  | .Cancelled | .CancelRequested | .Completed | .Nondeterminism | .ContinuedAsNew => true
  | _ => false

/-- The record after the loop of `recover`. -/
def recovered (epoch : ℕ) (r : RunRecord) : RunRecord :=
  { r with
    tasks := r.tasks.map (recover_task epoch r.retry_exhausted)
    state :=
      if r.tasks.any (fun t => t.interrupted epoch r.retry_exhausted && !t.attempt.policy.safe)
      then .OutcomeUnknown else r.state }

def recover (r : RunRecord) : EngineM RunRecord := do
  if r.state.settled || (decide (r.state = .Failed) && !r.retry_exhausted) then return r
  let epoch := (← get).store.epoch
  let changed := r.tasks.any (fun t => t.interrupted epoch r.retry_exhausted)
  let r := recovered epoch r
  if changed then
    save { r with wakeup := if r.state = .Running then some 0 else none } []
  else return r

def resume (id : String) : EngineM Unit := do
  let run ← load id
  match run.state with
  | .NeedsInput | .NeedsImplementation =>
    let _ ← save { run with state := .Running, wakeup := some 0 } []
  | .Running =>
    let run ← recover run
    if run.state ≠ .Running then throw .Conflict
  | _ => throw .Conflict

def signal (id name : String) (value : PayloadRef) : EngineM Unit := do
  result (validate name)
  let r ← load id
  result (ensure_active r)
  if r.signals.length ≥ 256 then throw .Limit
  let _ ← save { r with
    signals := r.signals ++ [{ name, value, consumed := false }], wakeup := some 0 } []

/-! ## Cancellation -/

/-- The states `cancel` returns on at once. -/
def RunState.uncancellable : RunState → Bool
  | .Completed | .Cancelled | .OutcomeUnknown | .Nondeterminism | .Failed => true
  | _ => false

/-- `Engine::cancel` with the depth its recursion may reach. Runs form a forest,
so a walk that is deeper than there are runs does not exist; the error of the
bare case stands for the exhausted stack of a cyclic one. -/
def cancel_walk : ℕ → String → EngineM Unit
  | 0, _ => throw .Unavailable
  | fuel + 1, id => do
    let r ← load id
    if r.state.uncancellable then return ()
    let r ← save { r with state := .CancelRequested, wakeup := some 0 } []
    r.children.forM (cancel_walk fuel)
    match r.continued_as with
    | some successor => cancel_walk fuel successor
    | none => pure ()
    let _ ← save { r with state := .Cancelled } []

def cancel (id : String) : EngineM Unit := do
  let e ← get
  cancel_walk (e.store.engine_runs.entries.length + 1) id

/-! ## Evaluating one command -/

/-- The loop of `latest_run`, with the hops it may still make. -/
def follow : ℕ → RunRecord → EngineM RunRecord
  | hops, run =>
    match run.continued_as with
    | none => pure run
    | some next =>
      match hops with
      | 0 => throw .Limit
      | hops + 1 => do
        let run ← load next
        follow hops run

def latest_run (id : String) : EngineM RunRecord := do
  let run ← load id
  follow 1024 run

/-- `for child in &r.children { if latest_run(child)?.state != Completed { .. } }`. -/
def all_completed : List String → EngineM Bool
  | [] => pure true
  | child :: children => do
    let run ← latest_run child
    if run.state ≠ .Completed then pure false else all_completed children

/-- The task a first evaluation of an activity command creates. -/
def new_task (r : RunRecord) (epoch index : ℕ) (name version : String) (input : PayloadRef)
    (policy : EffectPolicy) : ActivityTask :=
  { attempt :=
      { run_id := r.id, effect_id := effect_id_at r.id index, attempt := 0, owner_epoch := epoch,
        name, version, input, policy, started_at_ms := 0, retry_started_at_ms := 0,
        retry_policy := none }
    state := .Ready
    execution :=
      { execution_attempts := 0, execution_dispatch_attempt := 0, known_unexecuted := false,
        execution_started_at_ms := 0 } }

/-- `r.tasks.iter().find(|t| t.attempt.effect_id == effect_id)`. -/
def RunRecord.task? (r : RunRecord) (effect_id : String) : Option ActivityTask :=
  r.tasks.find? (fun t => decide (t.attempt.effect_id = effect_id))

/-- The first loop of `evaluate` over the sources of a select. -/
def check_sources (r : RunRecord) : List WaitSource → Except Error Unit
  | [] => .ok ()
  | source :: sources => do
    match source with
    | .Signal name => validate name
    | .Child child => if child.run_id ∉ r.children then throw (.Invalid "unattached child")
    | .Activity activity =>
      if (r.task? activity.effect_id).isNone then throw (.Invalid "unknown activity handle")
    | .Timer _ => pure ()
    check_sources r sources

/-- The second loop of `evaluate` over the sources of a select: `i` is the
position of the first source of the list. -/
def select_source (now : ℤ) : RunRecord → ℕ → List WaitSource →
    EngineM (Option CommandValue × RunRecord)
  | r, _, [] => pure (none, r)
  | r, i, source :: sources =>
    match source with
    | .Timer deadline =>
      if now ≥ deadline then pure (some (.Selected ⟨i, none⟩), r)
      else
        select_source now { r with wakeup := some (min_wakeup r.wakeup deadline) } (i + 1) sources
    | .Signal name => do
      result (validate name)
      match take_signal r.signals name with
      | some (value, signals) => pure (some (.Selected ⟨i, some value⟩), { r with signals })
      | none => select_source now r (i + 1) sources
    | .Child child => do
      if child.run_id ∉ r.children then throw (.Invalid "unattached child")
      let run ← latest_run child.run_id
      match run.state with
      | .Failed | .Nondeterminism =>
        pure (none, { r with
          state := run.state, failure_reason := run.failure_reason, wakeup := none })
      | .Cancelled => pure (none, { r with state := .Cancelled })
      | .Completed => pure (some (.Selected ⟨i, run.output⟩), r)
      | _ => select_source now r (i + 1) sources
    | .Activity activity =>
      match r.task? activity.effect_id with
      | none => throw (.Invalid "unknown activity handle")
      | some task =>
        match task.state with
        | .Done p => pure (some (.Selected ⟨i, some p⟩), r)
        | _ => select_source now r (i + 1) sources

/-- The `Command::Activity` arm of `evaluate`. -/
def evaluate_activity (r : RunRecord) (index : ℕ) (name version : String) (input : PayloadRef)
    (policy : EffectPolicy) (detached_wait : Bool) :
    EngineM (Option CommandValue × RunRecord × List RunRecord) := do
  result (validate name)
  result (validate version)
  let effect_id := effect_id_at r.id index
  let epoch := (← get).store.epoch
  let r :=
    if (r.task? effect_id).isSome then r
    else { r with tasks := r.tasks ++ [new_task r epoch index name version input policy] }
  if detached_wait then return (some (.Activity ⟨effect_id⟩), r, [])
  match r.task? effect_id with
  | none => throw .Conflict
  | some task =>
    match task.state with
    | .Done p => return (some (.Payload p), r, [])
    | _ => return (none, r, [])

/-- The `Command::Child` arm of `evaluate`. -/
def evaluate_child (r : RunRecord) (index : ℕ) (name version : String) (input : PayloadRef) :
    EngineM (Option CommandValue × RunRecord × List RunRecord) := do
  let id := derived_id (← get).sha256_hex r.id 'c' index
  if ← run_exists id then throw (.Invalid "child id collision")
  let child ← result (new_run id name version input)
  let child := { child with parent := some r.id }
  return (some (.Child ⟨id⟩), { r with children := r.children ++ [id] }, [child])

/-- The tail of the `Command::ContinueAsNew` arm of `evaluate`: a new successor. -/
def continue_with_successor (r : RunRecord) (index : ℕ) (input : PayloadRef) :
    EngineM (Option CommandValue × RunRecord × List RunRecord) := do
  let id := derived_id (← get).sha256_hex r.id 'n' index
  if ← run_exists id then throw (.Invalid "child id collision")
  let successor ← result (new_run id r.workflow r.version input)
  let successor := { successor with parent := r.parent }
  return (none, { r with continued_as := some id, state := .ContinuedAsNew, wakeup := none },
    [successor])

/-- The `Command::ContinueAsNew` arm of `evaluate`. -/
def evaluate_continue (r : RunRecord) (index : ℕ) (input : PayloadRef) :
    EngineM (Option CommandValue × RunRecord × List RunRecord) := do
  if r.tasks.any (fun task => !task.state.is_done) then
    throw (.Invalid "join all activities before continue-as-new")
  if !(← all_completed r.children) then
    return (none, { r with state := .Nondeterminism, wakeup := none }, [])
  match r.continued_as with
  | some existing =>
    if ← run_exists existing then
      return (none, { r with state := .ContinuedAsNew, wakeup := none }, [])
    else continue_with_successor r index input
  | none => continue_with_successor r index input

def evaluate (r : RunRecord) (index : ℕ) (command : Command) (now : ℤ) :
    EngineM (Option CommandValue × RunRecord × List RunRecord) := do
  let r := { r with wakeup := none }
  match command with
  | .Activity name version input policy detached_wait =>
    evaluate_activity r index name version input policy detached_wait
  | .Timer deadline =>
    if now ≥ deadline then return (some .Unit, r, [])
    else return (none, { r with wakeup := some deadline }, [])
  | .Signal name =>
    result (validate name)
    match take_signal r.signals name with
    | some (value, signals) => return (some (.Payload value), { r with signals }, [])
    | none => return (none, r, [])
  | .Child name version input => evaluate_child r index name version input
  | .Select sources =>
    result (check_sources r sources)
    let (value, r) ← select_source now r 0 sources
    return (value, r, [])
  | .ContinueAsNew input => evaluate_continue r index input

end Appcall.Durable
