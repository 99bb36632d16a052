/-
The free functions of `crates/appcall-engine/src/engine.rs`: what the engine
computes on one run record, with no store in sight.

`&mut` arguments become results. A function of the source that hands out a
mutable reference to a task (`owned_task`, `owned_attempt`, the `find` of a
reconciliation) returns the position of the task with the task, and its caller
writes the changed task back at that position.
-/
import Appcall.Engine.Types

set_option autoImplicit false

namespace Appcall.Durable

/-! ## Records -/

def new_run (id name version : String) (input : PayloadRef) : Except Error RunRecord := do
  validate id
  validate name
  validate version
  return {
    id, parent := none, workflow := name, version, input, state := .Running,
    failure_reason := none, revision := 0, history := [], tasks := [], signals := [],
    children := [], output := none, wakeup := some 0, reconciliation_audit := [],
    continued_as := none }

/-- The states `ensure_active` and `owned_attempt` call terminal. -/
def RunState.terminal : RunState → Bool
  | .Cancelled | .CancelRequested | .Completed | .Nondeterminism | .Failed
  | .ContinuedAsNew => true
  | _ => false

def ensure_active (r : RunRecord) : Except Error Unit :=
  if r.state.terminal then .error .Conflict else .ok ()

def failure_state : RunFailure → RunState
  | .InvalidCommand | .ResourceLimit | .RetryExhausted => .Failed
  | .MissingActivityImplementation => .NeedsImplementation
  | .PayloadUnavailable => .NeedsInput

/-- `format!("{parent}:{kind}:{index}")`. -/
def command_id (parent : String) (kind : Char) (index : ℕ) : String :=
  parent ++ ":" ++ String.singleton kind ++ ":" ++ toString index

/-- The `effect_id` of the activity at one position of a run's history. -/
def effect_id_at (run_id : String) (index : ℕ) : String := command_id run_id 'a' index

/-- `engine::derived_id`. An id that would not validate any more is replaced by
its digest; `sha256_hex` is the hexadecimal SHA-256 of a text. -/
def derived_id (sha256_hex : String → String) (parent : String) (kind : Char) (index : ℕ) :
    String :=
  let full_id := command_id parent kind index
  if full_id.utf8ByteSize ≤ 128 then full_id
  else if kind = 'c' then "child:" ++ sha256_hex full_id
  else "next:" ++ sha256_hex full_id

/-! ## Task states -/

/-- `matches!(state, TaskState::Ready)`. -/
def TaskState.is_ready : TaskState → Bool
  | .Ready => true
  | _ => false

/-- `matches!(state, TaskState::Done(_))`. -/
def TaskState.is_done : TaskState → Bool
  | .Done _ => true
  | _ => false

/-- `matches!(state, TaskState::InFlight | TaskState::Invoking)`: the attempt is
with an executor, or on its way there. -/
def TaskState.held : TaskState → Bool
  | .InFlight | .Invoking => true
  | _ => false

/-- A task whose effect may or may not have happened. -/
def ActivityTask.unresolved (task : ActivityTask) : Bool :=
  decide (task.state = .Uncertain) || (task.state.held && !task.attempt.policy.safe)

def has_unresolved_effect (r : RunRecord) : Bool := r.tasks.any ActivityTask.unresolved

def mark_retry_exhausted (r : RunRecord) : RunRecord :=
  { r with
    failure_reason := some .RetryExhausted
    state := if has_unresolved_effect r then .OutcomeUnknown else .Failed
    wakeup := none }

/-- The first task with a property, and where it is. -/
def find_task (tasks : List ActivityTask) (p : ActivityTask → Bool) :
    Option (ℕ × ActivityTask) :=
  (tasks.findIdx? p).bind (fun i => (tasks[i]?).map (fun task => (i, task)))

def owned_task (r : RunRecord) (attempt : ActivityAttempt) (epoch : ℕ) :
    Except Error (ℕ × ActivityTask) :=
  match find_task r.tasks (fun t => decide (t.attempt = attempt)
      && decide (t.attempt.owner_epoch = epoch) && decide (attempt.owner_epoch = epoch)
      && t.state.held) with
  | some found => .ok found
  | none => .error .Conflict

/-- `engine::owned_attempt`: a terminal run accepts no result, except one that
failed because its retries ran out. -/
def owned_attempt (r : RunRecord) (attempt : ActivityAttempt) (epoch : ℕ) :
    Except Error (ℕ × ActivityTask) := do
  let retry_exhausted := r.state = .Failed ∧ r.failure_reason = some .RetryExhausted
  let task ← owned_task r attempt epoch
  if r.state.terminal ∧ ¬ retry_exhausted then throw .Conflict
  return task

/-! ## Execution accounting -/

def normalize_legacy_attempt (attempt : ActivityAttempt) (execution : ExecutionAccounting) :
    ExecutionAccounting :=
  if execution.execution_attempts ≠ U64_MAX then execution
  else
    { execution with
      execution_attempts := attempt.attempt
      execution_dispatch_attempt := attempt.attempt
      execution_started_at_ms := attempt.retry_started_at_ms }

def infer_prior_execution (attempt : ActivityAttempt) (execution : ExecutionAccounting) :
    ExecutionAccounting :=
  let execution := normalize_legacy_attempt attempt execution
  if execution.known_unexecuted || decide (execution.execution_attempts ≠ 0)
      || decide (attempt.attempt = 0) then execution
  else
    { execution with
      execution_attempts := attempt.attempt
      execution_dispatch_attempt := attempt.attempt
      execution_started_at_ms := attempt.retry_started_at_ms }

/-- The charge `mark_execution` and `start_execution` end with: the dispatch
counts once. -/
def charge_execution (attempt : ActivityAttempt) (execution : ExecutionAccounting)
    (started_at_ms : ℤ) : Except Error ExecutionAccounting :=
  if execution.execution_dispatch_attempt = attempt.attempt then
    .ok { execution with known_unexecuted := false }
  else do
    let attempts ← checked_succ execution.execution_attempts
    return {
      execution_attempts := attempts
      execution_dispatch_attempt := attempt.attempt
      known_unexecuted := false
      execution_started_at_ms :=
        if attempts = 1 then started_at_ms else execution.execution_started_at_ms }

def mark_execution (attempt : ActivityAttempt) (execution : ExecutionAccounting)
    (started_at_ms : ℤ) : Except Error ExecutionAccounting :=
  let execution :=
    if !execution.known_unexecuted then infer_prior_execution attempt execution
    else if execution.execution_attempts = U64_MAX then
      { execution with execution_attempts := 0 }
    else execution
  charge_execution attempt execution started_at_ms

def start_execution (attempt : ActivityAttempt) (execution : ExecutionAccounting)
    (started_at_ms : ℤ) : Except Error ExecutionAccounting :=
  charge_execution attempt (normalize_legacy_attempt attempt execution) started_at_ms

/-! ## Retry times -/

def elapsed_retry_deadline (retry_started_at_ms : ℤ) (policy : RetryPolicy) : ℤ :=
  saturating_add retry_started_at_ms policy.max_elapsed_ms

/-- `engine::backoff_ms`. The shift is at most 62, so `checked_shl` succeeds. -/
def backoff_ms (policy : RetryPolicy) (attempt : ℕ) : ℤ :=
  let shift := min (attempt - 1) 62
  let multiplier : ℤ := if shift < 64 then 2 ^ shift else I64_MAX
  min (saturating_mul policy.base_delay_ms multiplier) policy.max_delay_ms

/-- When a task that is backing off has to be looked at again. -/
def ActivityTask.retry_due (task : ActivityTask) : Option ℤ :=
  match task.state with
  | .Retrying retry =>
    some (min retry.next_attempt_at_ms
      (elapsed_retry_deadline retry.retry_started_at_ms retry.policy))
  | _ => none

def retry_wakeup (r : RunRecord) : Option ℤ := (r.tasks.filterMap ActivityTask.retry_due).min?

/-- `wakeup.map_or(w, |d| d.min(w))`. -/
def min_wakeup (wakeup : Option ℤ) (w : ℤ) : ℤ :=
  match wakeup with
  | some d => min d w
  | none => w

def merge_retry_wakeup (r : RunRecord) : RunRecord :=
  match retry_wakeup r with
  | some w => { r with wakeup := some (min_wakeup r.wakeup w) }
  | none => r

/-! ## Signals -/

/-- `engine::take_signal` on the list of signals: the first unconsumed one of
the name is flagged and its value delivered. -/
def take_signal : List SignalEvent → String → Option (PayloadRef × List SignalEvent)
  | [], _ => none
  | s :: signals, name =>
    if s.name = name ∧ s.consumed = false then
      some (s.value, { s with consumed := true } :: signals)
    else
      (take_signal signals name).map (fun found => (found.1, s :: found.2))

end Appcall.Durable
