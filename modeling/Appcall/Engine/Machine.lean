/-
The engine as a transition system: what one committed transaction can do.

An operation of the engine is a sequence of transactions with computation in
between, and it may be cut short anywhere. What a host can rely on is therefore
what every single transaction keeps. This file says, once and for all, which
transactions there are: `Change` lists the records one commit may write over a
stored one, with the guard under which the code writes it, and `Trans` adds the
moves of the state that only lives in the process (the parked runs, the
dispatched attempts, the registries) and the restart.

`Machine` is the state this is about: whole records instead of split ones, and
no database that fails. That every operation of the engine is a path of this
system is proved in `Refinement.lean`; every property of the engine in this
development is then an invariant of `Trans`, proved by cases on it.
-/
import Appcall.Engine.Drive
import Appcall.Engine.StoreView

set_option autoImplicit false

namespace Appcall.Durable

structure Machine where
  runs : String → Option Entry
  epoch : ℕ
  workflows : AList (fun _ : String × String => Workflow)
  activities : AList (fun _ : String × String => Bool)
  dispatch_limit : ℕ
  retry_policy : RetryPolicy
  dispatched : AList (fun _ : String × ℕ × ℕ => ActivityAttempt)
  parked : List String
  sha256_hex : String → String

def Engine.machine (e : Engine) : Machine :=
  { runs := e.store.view, epoch := e.store.epoch, workflows := e.workflows,
    activities := e.activities, dispatch_limit := e.dispatch_limit,
    retry_policy := e.retry_policy, dispatched := e.dispatched, parked := e.parked,
    sha256_hex := e.sha256_hex }

/-- The record a commit of `run` stores: `save` raises the revision. -/
def RunRecord.saved (run : RunRecord) : RunRecord := { run with revision := run.revision + 1 }

/-- A successful `save`. -/
def Machine.commit (m : Machine) (run : RunRecord) (children : List RunRecord) : Machine :=
  { m with runs := commit_view m.runs run.saved children }

/-! ## Reading other runs -/

/-- `latest_run` after its first load, with the hops it may still make. -/
def follow_view (v : String → Option Entry) : ℕ → RunRecord → Option RunRecord
  | hops, run =>
    match run.continued_as with
    | none => some run
    | some next =>
      match hops with
      | 0 => none
      | hops + 1 =>
        match v next with
        | none => none
        | some en => follow_view v hops en.record

/-- `latest_run`: the last run of the chain of continuations that starts at `id`. -/
def latest_view (v : String → Option Entry) (id : String) : Option RunRecord :=
  (v id).bind (fun en => follow_view v 1024 en.record)

/-! ## Evaluating a command -/

/-- The second loop of `evaluate` over the sources of a select: the value it
found, and the record it left. -/
inductive Selects (v : String → Option Entry) (now : ℤ) :
    RunRecord → ℕ → List WaitSource → Option CommandValue → RunRecord → Prop where
  | nothing (r : RunRecord) (i : ℕ) : Selects v now r i [] none r
  | timer_fired {r : RunRecord} {i : ℕ} {deadline : ℤ} {sources : List WaitSource} :
      deadline ≤ now →
      Selects v now r i (.Timer deadline :: sources) (some (.Selected ⟨i, none⟩)) r
  | timer_later {r r' : RunRecord} {i : ℕ} {deadline : ℤ} {sources : List WaitSource}
      {value : Option CommandValue} :
      ¬ deadline ≤ now →
      Selects v now { r with wakeup := some (min_wakeup r.wakeup deadline) } (i + 1) sources
        value r' →
      Selects v now r i (.Timer deadline :: sources) value r'
  | signal_taken {r : RunRecord} {i : ℕ} {name : String} {sources : List WaitSource}
      {p : PayloadRef} {signals : List SignalEvent} :
      take_signal r.signals name = some (p, signals) →
      Selects v now r i (.Signal name :: sources) (some (.Selected ⟨i, some p⟩))
        { r with signals }
  | signal_later {r r' : RunRecord} {i : ℕ} {name : String} {sources : List WaitSource}
      {value : Option CommandValue} :
      take_signal r.signals name = none →
      Selects v now r (i + 1) sources value r' →
      Selects v now r i (.Signal name :: sources) value r'
  | child_failed {r run : RunRecord} {i : ℕ} {child : ChildHandle} {sources : List WaitSource} :
      latest_view v child.run_id = some run → child.run_id ∈ r.children →
      run.state = .Failed ∨ run.state = .Nondeterminism →
      Selects v now r i (.Child child :: sources) none
        { r with state := run.state, failure_reason := run.failure_reason, wakeup := none }
  | child_cancelled {r run : RunRecord} {i : ℕ} {child : ChildHandle}
      {sources : List WaitSource} :
      latest_view v child.run_id = some run → child.run_id ∈ r.children →
      run.state = .Cancelled →
      Selects v now r i (.Child child :: sources) none { r with state := .Cancelled }
  | child_completed {r run : RunRecord} {i : ℕ} {child : ChildHandle}
      {sources : List WaitSource} :
      latest_view v child.run_id = some run → child.run_id ∈ r.children →
      run.state = .Completed →
      Selects v now r i (.Child child :: sources) (some (.Selected ⟨i, run.output⟩)) r
  | child_later {r r' run : RunRecord} {i : ℕ} {child : ChildHandle} {sources : List WaitSource}
      {value : Option CommandValue} :
      latest_view v child.run_id = some run → child.run_id ∈ r.children →
      run.state.ends = false →
      Selects v now r (i + 1) sources value r' →
      Selects v now r i (.Child child :: sources) value r'
  | activity_done {r : RunRecord} {i : ℕ} {activity : ActivityHandle} {task : ActivityTask}
      {p : PayloadRef} {sources : List WaitSource} :
      r.task? activity.effect_id = some task → task.state = .Done p →
      Selects v now r i (.Activity activity :: sources) (some (.Selected ⟨i, some p⟩)) r
  | activity_later {r r' : RunRecord} {i : ℕ} {activity : ActivityHandle} {task : ActivityTask}
      {sources : List WaitSource} {value : Option CommandValue} :
      r.task? activity.effect_id = some task → task.state.is_done = false →
      Selects v now r (i + 1) sources value r' →
      Selects v now r i (.Activity activity :: sources) value r'

/-- The record after the first evaluation of an activity command. -/
def with_task (r : RunRecord) (epoch index : ℕ) (name version : String) (input : PayloadRef)
    (policy : EffectPolicy) : RunRecord :=
  if (r.task? (effect_id_at r.id index)).isSome then r
  else { r with tasks := r.tasks ++ [new_task r epoch index name version input policy] }

/-- `evaluate` when it succeeds: the value of the command if it has one, the
record it leaves in memory, and the new runs to insert with it. -/
inductive Evaluates (m : Machine) (r : RunRecord) (index : ℕ) (now : ℤ) :
    Command → Option CommandValue → RunRecord → List RunRecord → Prop where
  | spawned {name version : String} {input : PayloadRef} {policy : EffectPolicy} :
      Evaluates m r index now (.Activity name version input policy true)
        (some (.Activity ⟨effect_id_at r.id index⟩))
        (with_task { r with wakeup := none } m.epoch index name version input policy) []
  | activity_done {name version : String} {input : PayloadRef} {policy : EffectPolicy}
      {task : ActivityTask} {p : PayloadRef} :
      (with_task { r with wakeup := none } m.epoch index name version input policy).task?
        (effect_id_at r.id index) = some task → task.state = .Done p →
      Evaluates m r index now (.Activity name version input policy false) (some (.Payload p))
        (with_task { r with wakeup := none } m.epoch index name version input policy) []
  | activity_later {name version : String} {input : PayloadRef} {policy : EffectPolicy}
      {task : ActivityTask} :
      (with_task { r with wakeup := none } m.epoch index name version input policy).task?
        (effect_id_at r.id index) = some task → task.state.is_done = false →
      Evaluates m r index now (.Activity name version input policy false) none
        (with_task { r with wakeup := none } m.epoch index name version input policy) []
  | timer_fired {deadline : ℤ} :
      deadline ≤ now →
      Evaluates m r index now (.Timer deadline) (some .Unit) { r with wakeup := none } []
  | timer_later {deadline : ℤ} :
      ¬ deadline ≤ now →
      Evaluates m r index now (.Timer deadline) none { r with wakeup := some deadline } []
  | signal_taken {name : String} {p : PayloadRef} {signals : List SignalEvent} :
      take_signal r.signals name = some (p, signals) →
      Evaluates m r index now (.Signal name) (some (.Payload p))
        { r with wakeup := none, signals } []
  | signal_later {name : String} :
      take_signal r.signals name = none →
      Evaluates m r index now (.Signal name) none { r with wakeup := none } []
  | child {name version : String} {input : PayloadRef} {child : RunRecord} :
      m.runs (derived_id m.sha256_hex r.id 'c' index) = none →
      new_run (derived_id m.sha256_hex r.id 'c' index) name version input = .ok child →
      Evaluates m r index now (.Child name version input)
        (some (.Child ⟨derived_id m.sha256_hex r.id 'c' index⟩))
        { r with
          wakeup := none, children := r.children ++ [derived_id m.sha256_hex r.id 'c' index] }
        [{ child with parent := some r.id }]
  | select {sources : List WaitSource} {value : Option CommandValue} {r' : RunRecord} :
      check_sources { r with wakeup := none } sources = .ok () →
      Selects m.runs now { r with wakeup := none } 0 sources value r' →
      Evaluates m r index now (.Select sources) value r' []
  | continue_too_early {input : PayloadRef} {child : String} {run : RunRecord} :
      (∀ task ∈ r.tasks, task.state.is_done = true) →
      child ∈ r.children → latest_view m.runs child = some run → run.state ≠ .Completed →
      Evaluates m r index now (.ContinueAsNew input) none
        { r with state := .Nondeterminism, wakeup := none } []
  | continued {input : PayloadRef} {existing : String} {en : Entry} :
      (∀ task ∈ r.tasks, task.state.is_done = true) →
      (∀ child ∈ r.children, ∃ run, latest_view m.runs child = some run
        ∧ run.state = .Completed) →
      r.continued_as = some existing → m.runs existing = some en →
      Evaluates m r index now (.ContinueAsNew input) none
        { r with state := .ContinuedAsNew, wakeup := none } []
  | continues {input : PayloadRef} {successor : RunRecord} :
      (∀ task ∈ r.tasks, task.state.is_done = true) →
      (∀ child ∈ r.children, ∃ run, latest_view m.runs child = some run
        ∧ run.state = .Completed) →
      (∀ existing, r.continued_as = some existing → m.runs existing = none) →
      m.runs (derived_id m.sha256_hex r.id 'n' index) = none →
      new_run (derived_id m.sha256_hex r.id 'n' index) r.workflow r.version input
        = .ok successor →
      Evaluates m r index now (.ContinueAsNew input) none
        { r with
          continued_as := some (derived_id m.sha256_hex r.id 'n' index)
          state := .ContinuedAsNew, wakeup := none }
        [{ successor with parent := r.parent }]

/-! ## The record in memory during a drive -/

/-- The first line of `recover`'s loop, on a task it does not take back. -/
def normalize_task (task : ActivityTask) : ActivityTask :=
  { task with execution := normalize_legacy_attempt task.attempt task.execution }

/-- The record `recover` leaves in memory when it has nothing to save. -/
def RunRecord.normalized (r : RunRecord) : RunRecord :=
  { r with tasks := r.tasks.map normalize_task }

/-- The record a drive works on: the stored one, with its state reset. -/
def begun (r : RunRecord) : RunRecord :=
  { r.normalized with state := .Running, failure_reason := none }

def RunState.drivable : RunState → Bool
  | .Running | .NeedsInput | .NeedsImplementation => true
  | _ => false

/-- The workflow of a run is blocked on a command: a new one, or the open one of
its history. -/
def Blocked (m : Machine) (b : RunRecord) (pending : Option Command) : Prop :=
  ∃ workflow cursor, m.workflows.lookup (b.workflow, b.version) = some workflow
    ∧ eval_workflow workflow b
        = { result := some (.error .Blocked), cursor, pending, faulted := false }
    ∧ (pending.isSome = true ∨ b.open_command = true)

/-- A turn of a drive up to the evaluation of the open command. -/
structure Turn (m : Machine) (now : ℤ) (b : RunRecord) (pending : Option Command)
    (event : HistoryEvent) (value : Option CommandValue) (r : RunRecord)
    (children : List RunRecord) : Prop where
  blocked : Blocked m b pending
  backing_off : ∀ w, retry_wakeup b = some w → now < w
  room : pending.isSome = true → b.history.length < 1024
  open_event : (opened b pending).history[seal_end (opened b pending).history]? = some event
  evaluated : Evaluates m (opened b pending) (seal_end (opened b pending).history) now
    event.command value r children

/-- Why a turn ends in `Nondeterminism` without looking at a command: the
evaluation faulted, failed, returned early, or returned while a child runs. -/
def Faults (m : Machine) (b : RunRecord) : Prop :=
  ∃ workflow result, m.workflows.lookup (b.workflow, b.version) = some workflow
    ∧ (eval_workflow workflow b).result = some result
    ∧ ((eval_workflow workflow b).faulted = true
      ∨ result = .error .Nondeterminism ∨ result = .error .Invalid
      ∨ (∃ output, result = .ok output
          ∧ ((eval_workflow workflow b).cursor ≠ b.history.length
            ∨ (eval_workflow workflow b).pending.isSome = true ∨ b.open_command = true
            ∨ ∃ child ∈ b.children, ∃ run, latest_view m.runs child = some run
                ∧ run.state ≠ .Completed)))

/-- A drive of the stored run `r` at `now` would find nothing to do and nothing
to write: its turn waits, and the wakeup it computes is the one of the record. -/
def Idles (m : Machine) (now : ℤ) (r : RunRecord) : Prop :=
  ∃ event r1, Turn m now (begun r) none event none r1 [] ∧ r1.state = .Running
    ∧ r1.tasks.any (fun t => t.state.is_ready) = false
    ∧ (merge_retry_wakeup r1).wakeup = r.wakeup

/-! ## Labels -/

inductive Label where
  | start (id : String)
  | reject_run (id : String) (reason : RunFailure)
  | abort (id : String)
  | reject_dispatch (attempt : ActivityAttempt) (reason : RunFailure)
  | missing_payload (attempt : ActivityAttempt)
  | invoke (attempt : ActivityAttempt)
  | complete (attempt : ActivityAttempt) (output : PayloadRef)
  | fail (attempt : ActivityAttempt) (failure : ActivityFailure) (failed_at_ms : ℤ)
  | resume (id : String)
  | recover (id : String)
  | signal (id name : String) (value : PayloadRef)
  | cancel_request (id : String)
  | cancel_done (id : String)
  | reconcile (id effect_id : String) (observed : Option PayloadRef)
  | wake (id : String)
  | suspend (id : String)
  | retry_exhausted (id : String)
  | retry_ready (id : String)
  | retry_wait (id : String)
  | nondeterminism (id : String)
  | finish (id : String)
  | resolve (id : String)
  | stop (id : String)
  | hold (id : String) (now : ℤ)
  | unimplemented (id : String)
  | dispatch_exhausted (id : String)
  | dispatch (id : String) (attempt : ActivityAttempt)
  | wait (id : String) (now : ℤ)
  | progressed (id : String)
  | idle (id : String) (now : ℤ)
  | park (id : String)
  | unpark (id : String)
  | hand_out (attempt : ActivityAttempt)
  | release (attempt : ActivityAttempt)
  | register_workflow (name version : String) (workflow : Workflow)
  | configure
  | restart

/-! ## What one commit may write -/

/-- The run after a completion, whose task is already done. -/
def completed_run (r : RunRecord) : RunRecord :=
  if r.state = .OutcomeUnknown ∧ has_unresolved_effect r = false then
    if r.failure_reason = some .RetryExhausted then { r with state := .Failed, wakeup := none }
    else { r with state := .Running, wakeup := some 0 }
  else { r with wakeup := if r.state = .OutcomeUnknown then none else some 0 }

/-- The state of a task after a reconciliation. -/
def resolved_state : Option PayloadRef → TaskState
  | some payload => .Done payload
  | none => .Ready

/-- The state of a run after a reconciliation, whose task is already resolved. -/
def reconciled_state (r : RunRecord) : RunState :=
  if has_unresolved_effect r then .OutcomeUnknown
  else if r.failure_reason = some .RetryExhausted then .Failed
  else .Running

/-- A run whose last dispatched task leaves another one ready is due at once. -/
def still_ready (r : RunRecord) : RunRecord :=
  if r.tasks.any (fun t => t.state.is_ready) then { r with wakeup := some 0 } else r

/-- **The commits of the engine.** `Change m l r r' children`: with `r` stored,
the engine may write `r'` (before the revision is raised) and insert `children`. -/
inductive Change (m : Machine) : Label → RunRecord → RunRecord → List RunRecord → Prop where
  | reject_run {r : RunRecord} (reason : RunFailure) :
      r.state.terminal = false →
      Change m (.reject_run r.id reason) r
        { r with
          state := failure_state reason, failure_reason := some reason, wakeup := none } []
  | abort {r : RunRecord} :
      r.state.drivable = true →
      Change m (.abort r.id) r
        { r with
          state := .Failed, failure_reason := some .InvalidCommand, wakeup := none } []
  | reject_dispatch {r : RunRecord} {a : ActivityAttempt} (reason : RunFailure) {i : ℕ}
      {task : ActivityTask} :
      r.state.terminal = false → owned_task r a m.epoch = .ok (i, task) →
      task.state = .InFlight →
      Change m (.reject_dispatch a reason) r
        { r with
          tasks := r.tasks.set i { task with
            state := .Ready, execution := { task.execution with known_unexecuted := true } }
          state := failure_state reason, failure_reason := some reason, wakeup := none } []
  | missing_payload {r : RunRecord} {a : ActivityAttempt} {i : ℕ} {task : ActivityTask} :
      owned_attempt r a m.epoch = .ok (i, task) → task.state = .InFlight →
      Change m (.missing_payload a) r
        { r with
          tasks := r.tasks.set i { task with
            state := .Ready, execution := { task.execution with known_unexecuted := true } }
          state := .NeedsInput, wakeup := none } []
  | invoke {r : RunRecord} {a : ActivityAttempt} {i : ℕ} {task : ActivityTask}
      {execution : ExecutionAccounting} {started_at_ms : ℤ} :
      owned_attempt r a m.epoch = .ok (i, task) → task.state = .InFlight →
      start_execution task.attempt task.execution started_at_ms = .ok execution →
      Change m (.invoke a) r
        { r with tasks := r.tasks.set i { task with execution, state := .Invoking } } []
  | complete {r : RunRecord} {a : ActivityAttempt} {output : PayloadRef} {i : ℕ}
      {task : ActivityTask} {execution : ExecutionAccounting} :
      owned_attempt r a m.epoch = .ok (i, task) →
      mark_execution task.attempt task.execution task.attempt.started_at_ms = .ok execution →
      Change m (.complete a output) r
        (completed_run { r with
          tasks := r.tasks.set i { task with execution, state := .Done output } }) []
  | fail {r : RunRecord} {a : ActivityAttempt} {i : ℕ} {task task' : ActivityTask}
      {execution : ExecutionAccounting} {failure : ActivityFailure} {failed_at_ms : ℤ} :
      owned_attempt r a m.epoch = .ok (i, task) →
      mark_execution task.attempt task.execution task.attempt.started_at_ms = .ok execution →
      failed_task task execution failure failed_at_ms m.retry_policy = .ok task' →
      Change m (.fail a failure failed_at_ms) r
        (failed_run { r with tasks := r.tasks.set i task' } task'.state) []
  | resume {r : RunRecord} :
      r.state = .NeedsInput ∨ r.state = .NeedsImplementation →
      Change m (.resume r.id) r { r with state := .Running, wakeup := some 0 } []
  | recover {r : RunRecord} :
      r.state.settled = false → (r.state = .Failed → r.retry_exhausted = true) →
      r.tasks.any (fun t => t.interrupted m.epoch r.retry_exhausted) = true →
      Change m (.recover r.id) r
        { recovered m.epoch r with
          wakeup := if (recovered m.epoch r).state = .Running then some 0 else none } []
  | signal {r : RunRecord} {name : String} {value : PayloadRef} :
      r.state.terminal = false →
      Change m (.signal r.id name value) r
        { r with
          signals := r.signals ++ [{ name, value, consumed := false }], wakeup := some 0 } []
  | cancel_request {r : RunRecord} :
      r.state.uncancellable = false →
      Change m (.cancel_request r.id) r
        { r with state := .CancelRequested, wakeup := some 0 } []
  | cancel_done {r : RunRecord} :
      r.state = .CancelRequested →
      Change m (.cancel_done r.id) r { r with state := .Cancelled } []
  | reconcile {r : RunRecord} {effect_id : String} {observed : Option PayloadRef} {i : ℕ}
      {task : ActivityTask} {audit : ReconciliationAudit} :
      r.state = .OutcomeUnknown →
      find_task r.normalized.tasks (fun t =>
        decide (t.attempt.effect_id = effect_id) && decide (t.state = .Uncertain))
          = some (i, task) →
      Change m (.reconcile r.id effect_id observed) r
        (let resolved := { r.normalized with
          tasks := r.normalized.tasks.set i { task with state := resolved_state observed } }
        { resolved with
          state := reconciled_state resolved
          wakeup := if reconciled_state resolved = .Failed then none else some 0
          reconciliation_audit := r.reconciliation_audit ++ [audit] }) []
  | wake {r : RunRecord} :
      r.state = .Running → r.id ∈ m.parked → Change m (.wake r.id) r { r with wakeup := some 0 } []
  | suspend {r : RunRecord} {s : RunState} :
      r.state.drivable = true → s = .NeedsInput ∨ s = .NeedsImplementation →
      Change m (.suspend r.id) r { r.normalized with state := s, wakeup := none } []
  | retry_exhausted {r : RunRecord} {now : ℤ} {tasks : List ActivityTask} {changed : Bool} :
      r.state.drivable = true →
      advance_tasks now (begun r).tasks = .ok (tasks, changed, true) →
      Change m (.retry_exhausted r.id) r (mark_retry_exhausted { begun r with tasks }) []
  | retry_ready {r : RunRecord} {now : ℤ} {tasks : List ActivityTask} :
      r.state.drivable = true →
      advance_tasks now (begun r).tasks = .ok (tasks, true, false) →
      Change m (.retry_ready r.id) r { begun r with tasks, wakeup := some 0 } []
  | retry_wait {r : RunRecord} {now w : ℤ} {tasks : List ActivityTask} :
      r.state.drivable = true →
      advance_tasks now (begun r).tasks = .ok (tasks, false, false) →
      retry_wakeup { begun r with tasks } = some w → r.wakeup ≠ some w →
      Change m (.retry_wait r.id) r { begun r with tasks, wakeup := some w } []
  | nondeterminism {r : RunRecord} :
      r.state.drivable = true → Faults m (begun r) →
      Change m (.nondeterminism r.id) r
        { begun r with state := .Nondeterminism, wakeup := none } []
  | finish {r : RunRecord} {workflow : Workflow} {output : PayloadRef} :
      r.state.drivable = true →
      m.workflows.lookup (r.workflow, r.version) = some workflow →
      eval_workflow workflow (begun r)
        = { result := some (.ok output), cursor := r.history.length, pending := none,
            faulted := false } →
      r.open_command = false → (∀ task ∈ r.tasks, task.state.is_done = true) →
      (∀ child ∈ r.children, ∃ run, latest_view m.runs child = some run
        ∧ run.state = .Completed) →
      Change m (.finish r.id) r
        { begun r with state := .Completed, output := some output, wakeup := none } []
  | resolve {r r1 : RunRecord} {now : ℤ} {pending : Option Command} {event : HistoryEvent}
      {value : CommandValue} {children : List RunRecord} :
      r.state.drivable = true → Turn m now (begun r) pending event (some value) r1 children →
      Change m (.resolve r.id) r
        { merge_retry_wakeup r1 with
          history := r1.history.set (seal_end (opened (begun r) pending).history)
            { event with value := some value }
          wakeup := some 0 } children
  | stop {r r1 : RunRecord} {now : ℤ} {pending : Option Command} {event : HistoryEvent}
      {children : List RunRecord} :
      r.state.drivable = true → Turn m now (begun r) pending event none r1 children →
      r1.state ≠ .Running → r1.state ≠ .Cancelled →
      Change m (.stop r.id) r (merge_retry_wakeup r1) children
  | hold {r r1 : RunRecord} {now : ℤ} {pending : Option Command} {event : HistoryEvent}
      {children : List RunRecord} :
      r.state.drivable = true → Turn m now (begun r) pending event none r1 children →
      r1.state = .Running → r1.tasks.any (fun t => t.state.is_ready) = true →
      m.dispatch_limit ≤ m.dispatched.entries.length → r.id ∈ m.parked →
      Change m (.hold r.id now) r (merge_retry_wakeup r1) children
  | unimplemented {r r1 : RunRecord} {now : ℤ} {pending : Option Command}
      {event : HistoryEvent} {children : List RunRecord} :
      r.state.drivable = true → Turn m now (begun r) pending event none r1 children →
      r1.state = .Running →
      Change m (.unimplemented r.id) r
        { merge_retry_wakeup r1 with state := .NeedsImplementation, wakeup := none } []
  | dispatch_exhausted {r r1 : RunRecord} {now : ℤ} {pending : Option Command}
      {event : HistoryEvent} {children : List RunRecord} {i : ℕ} {task : ActivityTask} :
      r.state.drivable = true → Turn m now (begun r) pending event none r1 children →
      r1.state = .Running →
      find_task r1.tasks (fun t => t.state.is_ready) = some (i, task) →
      Change m (.dispatch_exhausted r.id) r
        (mark_retry_exhausted { merge_retry_wakeup r1 with
          tasks := r1.tasks.set i { task with
            execution := infer_prior_execution task.attempt task.execution } }) children
  | dispatch {r r1 : RunRecord} {now : ℤ} {pending : Option Command} {event : HistoryEvent}
      {children : List RunRecord} {i : ℕ} {task task' : ActivityTask} :
      r.state.drivable = true → Turn m now (begun r) pending event none r1 children →
      r1.state = .Running → m.dispatched.entries.length < m.dispatch_limit →
      find_task r1.tasks (fun t => t.state.is_ready) = some (i, task) →
      (task.attempt.name, task.attempt.version) ∈ m.activities →
      out_of_retries { task with execution := infer_prior_execution task.attempt task.execution }
        (infer_prior_execution task.attempt task.execution)
        (task.attempt.retry_policy.getD m.retry_policy) now = false →
      next_dispatch { task with execution := infer_prior_execution task.attempt task.execution }
        (infer_prior_execution task.attempt task.execution) m.epoch now m.retry_policy
          = .ok task' →
      Change m (.dispatch r.id task'.attempt) r
        (still_ready { merge_retry_wakeup r1 with tasks := r1.tasks.set i task' }) children
  | wait {r r1 : RunRecord} {now : ℤ} {pending : Option Command} {event : HistoryEvent}
      {children : List RunRecord} :
      r.state.drivable = true → Turn m now (begun r) pending event none r1 children →
      r1.state = .Running → r1.tasks.any (fun t => t.state.is_ready) = false →
      Change m (.wait r.id now) r (merge_retry_wakeup r1) children
  | progressed {r : RunRecord} :
      r.state.drivable = true →
      Change m (.progressed r.id) r { begun r with wakeup := some 0 } []

/-! ## The transition system -/

/-- What an open of the database does to a stored run: one that may have lost
its owner in the middle of something becomes due. -/
def reopened (en : Entry) : Entry :=
  if state en.record = .running ∧ requires_recovery en.record = true then
    { en with wakeup := some 0 }
  else en

theorem reopened_record (en : Entry) : (reopened en).record = en.record := by
  unfold reopened
  split <;> rfl

/-- An open of the database keeps the records. -/
theorem reopened_iff {o : Option Entry} {r : RunRecord} :
    (∃ c, o.map reopened = some ⟨r, c⟩) ↔ ∃ c, o = some ⟨r, c⟩ := by
  constructor
  · rintro ⟨c, h⟩
    obtain ⟨en, rfl, he⟩ := Option.map_eq_some_iff.mp h
    have hr : r = en.record := by
      rw [← reopened_record en, he]
    exact ⟨en.wakeup, hr ▸ rfl⟩
  · rintro ⟨c, rfl⟩
    refine ⟨(reopened ⟨r, c⟩).wakeup, congrArg some ?_⟩
    unfold reopened
    split <;> rfl

/-- **The moves of the engine.** -/
inductive Trans : Machine → Label → Machine → Prop where
  | change {m : Machine} {l : Label} {r r' : RunRecord} {c : Option ℤ}
      {children : List RunRecord} :
      m.runs r.id = some ⟨r, c⟩ → Change m l r r' children →
      Fresh (Function.update m.runs r.id (some ⟨r'.saved, r'.saved.wakeup⟩)) children →
      Trans m l (m.commit r' children)
  | start {m : Machine} {id name version : String} {input : PayloadRef} {run : RunRecord} :
      new_run id name version input = .ok run → m.runs id = none →
      Trans m (.start id) { m with runs := Function.update m.runs id (some ⟨run, run.wakeup⟩) }
  | idle {m : Machine} {r : RunRecord} {c : Option ℤ} {now : ℤ} :
      m.runs r.id = some ⟨r, c⟩ → r.state.drivable = true → Idles m now r →
      Trans m (.idle r.id now) m
  | park {m : Machine} {id : String} :
      (∃ en, m.runs id = some en) → m.dispatch_limit ≤ m.dispatched.entries.length →
      Trans m (.park id) { m with parked := m.parked.insert id }
  | unpark {m : Machine} {id : String} :
      (∀ en, m.runs id = some en → en.record.state = .Running →
        en.record.wakeup = some 0 ∧ en.wakeup = some 0) →
      Trans m (.unpark id) { m with parked := m.parked.erase id }
  | hand_out {m : Machine} {a : ActivityAttempt} :
      Trans m (.hand_out a) { m with dispatched := m.dispatched.insert (dispatch_key a) a }
  | release {m : Machine} {a : ActivityAttempt} :
      m.dispatched.lookup (dispatch_key a) = some a → m.parked = [] →
      Trans m (.release a) { m with dispatched := m.dispatched.erase (dispatch_key a) }
  | register_workflow {m : Machine} {name version : String} {workflow : Workflow} :
      (name, version) ∉ m.workflows →
      Trans m (.register_workflow name version workflow)
        { m with workflows := m.workflows.insert (name, version) workflow }
  | configure {m : Machine} (activities : AList (fun _ : String × String => Bool))
      (dispatch_limit : ℕ) (retry_policy : RetryPolicy) :
      dispatch_limit = m.dispatch_limit
        ∨ (0 < dispatch_limit ∧ m.dispatched.entries.length ≤ dispatch_limit) →
      retry_policy = m.retry_policy ∨ retry_policy.validate = .ok () →
      Trans m .configure { m with activities, dispatch_limit, retry_policy }
  | restart {m : Machine} (failed : ℕ) :
      Trans m .restart
        { runs := fun id => (m.runs id).map reopened
          epoch := m.epoch + failed + 1
          workflows := ∅, activities := ∅, dispatch_limit := 8
          retry_policy := RetryPolicy.default, dispatched := ∅, parked := []
          sha256_hex := m.sha256_hex }

end Appcall.Durable
