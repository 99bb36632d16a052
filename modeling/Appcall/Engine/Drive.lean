/-
Driving a run and settling its activities: the second half of `impl Engine` in
`crates/appcall-engine/src/engine.rs`.

`drive_with_resolver` evaluates the workflow from its entry point, up to 128
times. One turn either ends the drive or resolves the one open command and goes
round again; the record in memory and the stored one agree at the start of every
turn but the first, where the drive has already reset the state in memory
without saving it. The turn is `drive_turn`, and its tail once the open command
did not resolve is `settle`.
-/
import Appcall.Engine.Engine

set_option autoImplicit false

namespace Appcall.Durable

/-! ## Retries at the start of a drive -/

/-- The loop of `advance_retries`: the tasks, whether one became ready, and
whether one ran out of time (which ends the loop). -/
def advance_tasks (now_ms : ℤ) :
    List ActivityTask → Except Error (List ActivityTask × Bool × Bool)
  | [] => .ok ([], false, false)
  | task :: tasks =>
    match task.state with
    | .Retrying retry => do
      retry.policy.validate
      if now_ms ≥ elapsed_retry_deadline retry.retry_started_at_ms retry.policy then
        return ({ task with state := .Ready } :: tasks, false, true)
      let (tasks, changed, exhausted) ← advance_tasks now_ms tasks
      if now_ms ≥ retry.next_attempt_at_ms then
        let task := { task with
          attempt := { task.attempt with retry_policy := some retry.policy }, state := .Ready }
        return (task :: tasks, true, exhausted)
      return (task :: tasks, changed, exhausted)
    | _ => do
      let (tasks, changed, exhausted) ← advance_tasks now_ms tasks
      return (task :: tasks, changed, exhausted)

def advance_retries (r : RunRecord) (now_ms : ℤ) :
    EngineM (RunRecord × Option DriveOutcome) := do
  let (tasks, changed, exhausted) ← result (advance_tasks now_ms r.tasks)
  let r := { r with tasks }
  if exhausted then
    let r ← save (mark_retry_exhausted r) []
    return (r, some (.Suspended r.state))
  if changed then
    let r ← save { r with wakeup := some 0 } []
    return (r, none)
  match retry_wakeup r with
  | some wakeup =>
    if r.wakeup ≠ some wakeup then
      let r ← save { r with wakeup := some wakeup } []
      return (r, none)
    else return (r, none)
  | none => return (r, none)

/-! ## One turn -/

/-- What one evaluation of the workflow left: the result (`none` for a panic),
the cursor, the command it is waiting for, and the fault flag. -/
structure Evaluation where
  result : Option WorkflowResult
  cursor : ℕ
  pending : Option Command
  faulted : Bool

/-- The closure inside `catch_unwind`. -/
def eval_workflow (workflow : Workflow) (r : RunRecord) : Evaluation :=
  let (result, ctx) := (workflow r.input).run (Context.start r.history)
  { result, cursor := ctx.cursor, pending := ctx.pending, faulted := ctx.faulted }

/-- `r.history.iter().any(|e| e.value.is_none())`. -/
def RunRecord.open_command (r : RunRecord) : Bool :=
  r.history.any (fun event => event.value.isNone)

/-- The `Ok(output)` arm of a turn. -/
def finish_run (r : RunRecord) (output : PayloadRef) (cursor : ℕ) (pending : Option Command) :
    EngineM DriveOutcome := do
  if decide (cursor ≠ r.history.length) || pending.isSome || r.open_command then
    suspend r .Nondeterminism
  else if r.tasks.any (fun t => !t.state.is_done) then
    throw (.Invalid "join all activities before returning")
  else if !(← all_completed r.children) then
    suspend r .Nondeterminism
  else
    let _ ← save { r with state := .Completed, output := some output, wakeup := none } []
    return .Completed output

/-- The task as `drive_with_resolver` hands it out: the next attempt number, the
current epoch and the retry policy fixed for its lifetime. -/
def next_dispatch (task : ActivityTask) (execution : ExecutionAccounting)
    (epoch : ℕ) (now_ms : ℤ) (policy : RetryPolicy) : Except Error ActivityTask := do
  let retry_state_missing := task.attempt.retry_policy.isNone
  let number ← checked_succ task.attempt.attempt
  let attempt := { task.attempt with
    attempt := number
    owner_epoch := epoch
    retry_started_at_ms := if number = 1 then now_ms else task.attempt.retry_started_at_ms
    started_at_ms := now_ms }
  if retry_state_missing then
    return {
      attempt := { attempt with
        retry_policy := some policy
        retry_started_at_ms := if number > 1 then now_ms else attempt.retry_started_at_ms }
      execution := { execution with
        execution_started_at_ms :=
          if number > 1 ∧ execution.execution_attempts > 0 then now_ms
          else execution.execution_started_at_ms }
      state := .InFlight }
  else return { attempt, execution, state := .InFlight }

/-- The window or the budget of a task's retries is used up. -/
def out_of_retries (task : ActivityTask) (execution : ExecutionAccounting)
    (policy : RetryPolicy) (now_ms : ℤ) : Bool :=
  (decide (execution.execution_attempts > 0) && task.attempt.retry_policy.isSome
    && decide (now_ms ≥ elapsed_retry_deadline execution.execution_started_at_ms policy))
  || decide (execution.execution_attempts ≥ policy.max_attempts)

/-- The branch of a turn that found a ready task and a free slot for it. -/
def dispatch_ready (r : RunRecord) (index : ℕ) (task : ActivityTask) (now_ms : ℤ)
    (children : List RunRecord) : EngineM DriveOutcome := do
  let e ← get
  if (task.attempt.name, task.attempt.version) ∉ e.activities then
    suspend r .NeedsImplementation
  else
    let retry_policy := task.attempt.retry_policy.getD e.retry_policy
    result retry_policy.validate
    let execution := infer_prior_execution task.attempt task.execution
    let task := { task with execution }
    if out_of_retries task execution retry_policy now_ms then
      let r ← save (mark_retry_exhausted { r with tasks := r.tasks.set index task }) children
      return .Suspended r.state
    else
      let task ← result (next_dispatch task execution e.store.epoch now_ms e.retry_policy)
      let r := { r with tasks := r.tasks.set index task }
      let r :=
        if r.tasks.any (fun t => t.state.is_ready) then { r with wakeup := some 0 } else r
      let _ ← save r children
      modify (fun e => { e with
        dispatched := e.dispatched.insert (dispatch_key task.attempt) task.attempt })
      return .Activity task.attempt

/-- The end of a turn whose open command has no value yet. -/
def settle (r : RunRecord) (now_ms : ℤ) (children : List RunRecord)
    (wakeup_before_evaluate : Option ℤ) (wrote_history : Bool) : EngineM DriveOutcome := do
  if r.state = .Cancelled then
    cancel r.id
    return .Suspended .Cancelled
  else if r.state = .ContinuedAsNew then
    let r ← save r children
    match r.continued_as with
    | some successor => return .ContinuedAsNew successor
    | none => throw .Conflict
  else if r.state ≠ .Running then
    let r ← save r children
    return .Suspended r.state
  else
    let e ← get
    if r.tasks.any (fun t => t.state.is_ready)
        && decide (e.dispatched.entries.length ≥ e.dispatch_limit) then
      if e.parked.length ≥ 256 ∧ r.id ∉ e.parked then throw .Limit
      set { e with parked := e.parked.insert r.id }
      let _ ← save r children
      return .Waiting
    else
      match find_task r.tasks (fun t => t.state.is_ready) with
      | some (index, task) => dispatch_ready r index task now_ms children
      | none =>
        if wrote_history || !children.isEmpty || decide (r.wakeup ≠ wakeup_before_evaluate) then
          let _ ← save r children
          return .Waiting
        else return .Waiting

/-- The record with the command the workflow asked for, if it is a new one. -/
def opened (r : RunRecord) (pending : Option Command) : RunRecord :=
  { r with
    history := match pending with
      | some command => r.history ++ [{ command, value := none }]
      | none => r.history }

/-- The turn of a workflow that is blocked on a command: record the command if
it is new, and evaluate it. The continuation is the next turn. -/
def blocked_turn (r : RunRecord) (now_ms : ℤ) (pending : Option Command) (wrote_history : Bool)
    (next : RunRecord → Bool → EngineM DriveOutcome) : EngineM DriveOutcome := do
  if pending.isSome ∧ r.history.length ≥ 1024 then throw .Limit
  let r := opened r pending
  let wrote_history := wrote_history || pending.isSome
  let index := seal_end r.history
  match r.history[index]? with
  | none => throw .Conflict
  | some event =>
    let wakeup_before_evaluate := r.wakeup
    let (value, r, children) ← evaluate r index event.command now_ms
    let r := merge_retry_wakeup r
    match value with
    | some value =>
      let r ← save { r with
        history := r.history.set index { event with value := some value },
        wakeup := some 0 } children
      next r wrote_history
    | none => settle r now_ms children wakeup_before_evaluate wrote_history

/-- One turn of the loop of `drive_with_resolver`. -/
def drive_turn (workflow : Workflow) (r : RunRecord) (now_ms : ℤ) (wrote_history : Bool)
    (next : RunRecord → Bool → EngineM DriveOutcome) : EngineM DriveOutcome :=
  let eval := eval_workflow workflow r
  match eval.result with
  | none => do
    reject_run r.id .InvalidCommand
    return .Suspended .Failed
  | some result =>
    if eval.faulted then suspend r .Nondeterminism
    else
      match result with
      | .ok output => finish_run r output eval.cursor eval.pending
      | .error .Nondeterminism | .error .Invalid => suspend r .Nondeterminism
      | .error .Blocked =>
        if eval.pending.isNone && !r.open_command then do
          reject_malformed_run r.id
          return .Suspended .Failed
        else blocked_turn r now_ms eval.pending wrote_history next

/-- The loop of `drive_with_resolver`, with the turns it may still take. -/
def drive_loop (workflow : Workflow) (now_ms : ℤ) : ℕ → RunRecord → Bool → EngineM DriveOutcome
  | 0, r, _ => do
    let _ ← save { r with wakeup := some 0 } []
    return .Progressed
  | turns + 1, r, wrote_history =>
    drive_turn workflow r now_ms wrote_history (drive_loop workflow now_ms turns)

/-! ## Driving -/

def CommandValue.reference : Option CommandValue → Option PayloadRef
  | some (.Payload p) => some p
  | some (.Selected selection) => selection.value
  | _ => none

/-- `p.is_ephemeral() && resolver.resolve(p)?.is_none()`. -/
def unavailable (resolver : PayloadResolver) (p : PayloadRef) : Except Error Bool :=
  if p.ephemeral then do
    let bytes ← resolver p
    return bytes.isNone
  else .ok false

/-- The loop of `drive_with_resolver` over the history: is a payload that the
replay needs gone? -/
def history_unavailable (resolver : PayloadResolver) : List HistoryEvent → Except Error Bool
  | [] => .ok false
  | event :: history =>
    match CommandValue.reference event.value with
    | some p => do
      if ← unavailable resolver p then return true
      history_unavailable resolver history
    | none => history_unavailable resolver history

/-- The part of `drive_with_resolver` after its record is recovered and found
runnable. -/
def drive_active (r : RunRecord) (now_ms : ℤ) (resolver : PayloadResolver) :
    EngineM DriveOutcome := do
  let e ← get
  match e.workflows.lookup (r.workflow, r.version) with
  | none => suspend r .NeedsImplementation
  | some workflow =>
    if ← result (unavailable resolver r.input) then
      suspend r .NeedsInput
    else if ← result (history_unavailable resolver r.history) then
      suspend r .NeedsInput
    else
      let (r, outcome) ← advance_retries { r with state := .Running, failure_reason := none } now_ms
      match outcome with
      | some outcome => return outcome
      | none => drive_loop workflow now_ms 128 r false

def drive_with_resolver (id : String) (now_ms : ℤ) (resolver : PayloadResolver) :
    EngineM DriveOutcome := do
  let r ← load id
  let r ← recover r
  match r.state with
  | .CancelRequested =>
    cancel id
    return .Suspended .Cancelled
  | .Completed =>
    match r.output with
    | some output => return .Completed output
    | none => throw .Conflict
  | .ContinuedAsNew =>
    match r.continued_as with
    | some successor => return .ContinuedAsNew successor
    | none => throw .Conflict
  | .Cancelled | .OutcomeUnknown | .Nondeterminism | .Failed => return .Suspended r.state
  | .Running | .NeedsInput | .NeedsImplementation => drive_active r now_ms resolver

/-! ## Results of activities -/

/-- `result.and(released)` of `complete` and `fail_at`: the dispatch is released
whatever became of the result, and the first error is the one reported. -/
def then_release (inner : EngineM Unit) (attempt : ActivityAttempt) : EngineM Unit := fun e =>
  let (outcome, e) := inner e
  let (released, e) := release_dispatch attempt e
  match outcome with
  | .ok _ => (released, e)
  | .error error => (.error error, e)

def complete_inner (attempt : ActivityAttempt) (output : PayloadRef) : EngineM Unit := do
  let r ← load attempt.run_id
  let epoch := (← get).store.epoch
  let (i, task) ← result (owned_attempt r attempt epoch)
  let execution ← result (mark_execution task.attempt task.execution task.attempt.started_at_ms)
  let r := { r with tasks := r.tasks.set i { task with execution, state := .Done output } }
  let r :=
    if r.state = .OutcomeUnknown ∧ has_unresolved_effect r = false then
      if r.failure_reason = some .RetryExhausted then { r with state := .Failed, wakeup := none }
      else { r with state := .Running, wakeup := some 0 }
    else { r with wakeup := if r.state = .OutcomeUnknown then none else some 0 }
  let _ ← save r []

def complete (attempt : ActivityAttempt) (output : PayloadRef) : EngineM Unit :=
  then_release (complete_inner attempt output) attempt

/-- The task after a failure: an effect that is safe to repeat backs off or runs
out of attempts, any other outcome is uncertain. -/
def failed_task (task : ActivityTask) (execution : ExecutionAccounting)
    (failure : ActivityFailure) (failed_at_ms : ℤ) (default_policy : RetryPolicy) :
    Except Error ActivityTask :=
  if task.attempt.policy.safe ∧ failure = .Retryable then do
    let policy := task.attempt.retry_policy.getD default_policy
    policy.validate
    if execution.execution_attempts ≥ policy.max_attempts then
      return { task with execution, state := .Ready }
    return { task with
      execution
      state := .Retrying {
        next_attempt_at_ms :=
          saturating_add failed_at_ms (backoff_ms policy execution.execution_attempts)
        retry_started_at_ms := execution.execution_started_at_ms
        policy } }
  else .ok { task with execution, state := .Uncertain }

/-- The run after a failure: `exhausted`, `retrying` and neither are the task
states `Ready`, `Retrying` and `Uncertain` of `failed_task`. -/
def failed_run (r : RunRecord) (state : TaskState) : RunRecord :=
  match state with
  | .Ready => mark_retry_exhausted r
  | .Retrying _ => merge_retry_wakeup r
  | _ => { r with state := .OutcomeUnknown, wakeup := none }

def fail_inner (attempt : ActivityAttempt) (failure : ActivityFailure) (failed_at_ms : ℤ) :
    EngineM Unit := do
  let r ← load attempt.run_id
  let e ← get
  let (i, task) ← result (owned_attempt r attempt e.store.epoch)
  let execution ← result (mark_execution task.attempt task.execution task.attempt.started_at_ms)
  let task ← result (failed_task task execution failure failed_at_ms e.retry_policy)
  let _ ← save (failed_run { r with tasks := r.tasks.set i task } task.state) []

def fail_at (attempt : ActivityAttempt) (failure : ActivityFailure) (failed_at_ms : ℤ) :
    EngineM Unit :=
  then_release (fail_inner attempt failure failed_at_ms) attempt

/-- `native::NativeInvocation`, without its handler. -/
structure NativeInvocation where
  attempt : ActivityAttempt
  bytes : List UInt8
  deriving DecidableEq

def prepare_registered_at (attempt : ActivityAttempt) (resolver : PayloadResolver)
    (started_at_ms : ℤ) : EngineM (Option NativeInvocation) := do
  let r ← load attempt.run_id
  let e ← get
  let (i, task) ← result (owned_attempt r attempt e.store.epoch)
  if task.state ≠ .InFlight then throw .Conflict
  if e.activities.lookup (attempt.name, attempt.version) ≠ some true then throw .Unavailable
  match ← result (resolver attempt.input) with
  | none =>
    let task := { task with
      state := .Ready, execution := { task.execution with known_unexecuted := true } }
    let _ ← suspend { r with tasks := r.tasks.set i task } .NeedsInput
    release_dispatch attempt
    return none
  | some bytes =>
    if bytes.length > 1024 * 1024 then throw .Limit
    let execution ← result (start_execution task.attempt task.execution started_at_ms)
    let task := { task with execution, state := .Invoking }
    let _ ← save { r with tasks := r.tasks.set i task } []
    return some { attempt, bytes }

/-! ## Reconciliation -/

/-- `Engine::reconcile_inner`; `recorded_at_ms` is the reading of the clock. -/
def reconcile_inner (id effect_id : String) (expected_attempt expected_owner_epoch : Option ℕ)
    (observed : Option PayloadRef) (evidence_ref : String) (recorded_at_ms : ℤ) :
    EngineM ReconciliationAudit := do
  result (validate effect_id)
  result (validate evidence_ref)
  if observed.any (fun payload => payload.ephemeral) then
    throw (.Invalid "reconciliation observation must be durable")
  let r ← load id
  if r.state ≠ .OutcomeUnknown then throw .Conflict
  if r.reconciliation_audit.length ≥ 256 then throw .Limit
  let r ← recover r
  match find_task r.tasks (fun t =>
      decide (t.attempt.effect_id = effect_id) && decide (t.state = .Uncertain)) with
  | none => throw .Conflict
  | some (i, task) =>
    if expected_attempt.any (fun expected => decide (task.attempt.attempt ≠ expected))
        || expected_owner_epoch.any (fun expected => decide (task.attempt.owner_epoch ≠ expected))
    then throw .Conflict
    let resolved := match observed with
      | some payload => TaskState.Done payload
      | none => .Ready
    let r := { r with tasks := r.tasks.set i { task with state := resolved } }
    let state :=
      if has_unresolved_effect r then RunState.OutcomeUnknown
      else if r.failure_reason = some .RetryExhausted then .Failed
      else .Running
    let audit := {
      effect_id, attempt := task.attempt.attempt, owner_epoch := task.attempt.owner_epoch,
      evidence_ref, recorded_at_ms, observed := observed.isSome }
    let _ ← save { r with
      state
      wakeup := if state = .Failed then none else some 0
      reconciliation_audit := r.reconciliation_audit ++ [audit] } []
    return audit

def reconcile (id effect_id : String) (observed : Option PayloadRef) (recorded_at_ms : ℤ) :
    EngineM ReconciliationAudit :=
  reconcile_inner id effect_id none none observed "engine" recorded_at_ms

/-- `Engine::reconcile_fenced_with_evidence`; `reconcile_fenced` is the case of
the evidence reference `"engine"`. -/
def reconcile_fenced_with_evidence (id effect_id : String)
    (expected_attempt expected_owner_epoch : ℕ) (evidence_ref : String)
    (observed : Option PayloadRef) (recorded_at_ms : ℤ) : EngineM ReconciliationAudit := do
  if expected_attempt = 0 then throw (.Invalid "invalid reconciliation attempt")
  reconcile_inner id effect_id (some expected_attempt) (some expected_owner_epoch) observed
    evidence_ref recorded_at_ms

end Appcall.Durable
