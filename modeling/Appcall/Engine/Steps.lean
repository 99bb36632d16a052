/-
Runs of the engine: every public operation as one step of a state machine.

A step is an operation with its arguments and the answers the database gives
while it runs. The host may call the operations in any order, on any runs, with
any attempts (also ones the engine never handed out) and at any times, so a run
is any list of steps. `restart` is the death of the process and a later open of
the same database; a process that dies inside an operation is that operation
with all its remaining calls refused, followed by `restart`.
-/
import Appcall.Engine.Drive

set_option autoImplicit false

namespace Appcall.Durable

/-- The operations of a host on an engine, `types::Engine`'s public methods that
can change anything. `fail` and `prepare_registered` are their `_at` forms at
the reading of the clock; `finish_registered` is `complete` or `fail`;
`execute_registered` is a `prepare_registered` and then a `finish_registered`. -/
inductive Operation where
  | register_workflow (name version : String) (workflow : Workflow)
  | register_activity (name version : String) (native : Bool)
  | set_dispatch_limit (limit : ℕ)
  | set_retry_policy (policy : RetryPolicy)
  | start (id name version : String) (input : PayloadRef)
  | drive_with_resolver (id : String) (now_ms : ℤ) (resolver : PayloadResolver)
  | prepare_registered_at (attempt : ActivityAttempt) (resolver : PayloadResolver)
      (started_at_ms : ℤ)
  | complete (attempt : ActivityAttempt) (output : PayloadRef)
  | fail_at (attempt : ActivityAttempt) (failure : ActivityFailure) (failed_at_ms : ℤ)
  | reject_dispatch (attempt : ActivityAttempt) (reason : RunFailure)
  | reject_run (id : String) (reason : RunFailure)
  | resume (id : String)
  | signal (id name : String) (value : PayloadRef)
  | cancel (id : String)
  | reconcile (id effect_id : String) (observed : Option PayloadRef) (recorded_at_ms : ℤ)
  | reconcile_fenced (id effect_id : String) (expected_attempt expected_owner_epoch : ℕ)
      (evidence_ref : String) (observed : Option PayloadRef) (recorded_at_ms : ℤ)
  | restart (failed : ℕ)

/-- What an operation answers when it does not fail. -/
inductive Reply where
  | unit
  | drive (outcome : DriveOutcome)
  | prepared (invocation : Option NativeInvocation)
  | audit (audit : ReconciliationAudit)
  deriving DecidableEq

/-- The operation as a program on the engine. -/
def perform : Operation → EngineM Reply
  | .register_workflow name version workflow => do
    register_workflow name version workflow
    return .unit
  | .register_activity name version native => do
    add_activity name version native
    return .unit
  | .set_dispatch_limit limit => do
    set_dispatch_limit limit
    return .unit
  | .set_retry_policy policy => do
    set_retry_policy policy
    return .unit
  | .start id name version input => do
    start id name version input
    return .unit
  | .drive_with_resolver id now_ms resolver => do
    return .drive (← drive_with_resolver id now_ms resolver)
  | .prepare_registered_at attempt resolver started_at_ms => do
    return .prepared (← prepare_registered_at attempt resolver started_at_ms)
  | .complete attempt output => do
    complete attempt output
    return .unit
  | .fail_at attempt failure failed_at_ms => do
    fail_at attempt failure failed_at_ms
    return .unit
  | .reject_dispatch attempt reason => do
    reject_dispatch attempt reason
    return .unit
  | .reject_run id reason => do
    reject_run id reason
    return .unit
  | .resume id => do
    resume id
    return .unit
  | .signal id name value => do
    signal id name value
    return .unit
  | .cancel id => do
    cancel id
    return .unit
  | .reconcile id effect_id observed recorded_at_ms => do
    return .audit (← reconcile id effect_id observed recorded_at_ms)
  | .reconcile_fenced id effect_id expected_attempt expected_owner_epoch evidence_ref observed
      recorded_at_ms => do
    return .audit (← reconcile_fenced_with_evidence id effect_id expected_attempt
      expected_owner_epoch evidence_ref observed recorded_at_ms)
  | .restart failed => do
    modify (fun e => Engine.with_store (e.store.reopen failed) e.sha256_hex)
    return .unit

/-- One step of a run: an operation, and the answers of the database to the
calls it makes. -/
structure Step where
  op : Operation
  outages : List (Option String) := []

/-- The engine with the answers of the database fixed for the next operation. -/
def Engine.under (e : Engine) (outages : List (Option String)) : Engine :=
  { e with store := { e.store with outages } }

/-- The result of a step and the engine it leaves. -/
def Step.exec (step : Step) (e : Engine) : Except Error Reply × Engine :=
  perform step.op (e.under step.outages)

def after (e : Engine) (steps : List Step) : Engine :=
  steps.foldl (fun e step => (step.exec e).2) e

def Engine.init (codec : Codec) (sha256_hex : String → String) : Engine :=
  Engine.with_store (SqliteStore.create codec) sha256_hex

/-- The result of the step at one position of a run. -/
def reply_at (e : Engine) (steps : List Step) (i : ℕ) : Option (Except Error Reply) :=
  (steps[i]?).map (fun step => (step.exec (after e (steps.take i))).1)

/-- The engine states a host can bring about from an empty database. -/
def Reachable (e : Engine) : Prop :=
  ∃ codec sha256_hex steps, e = after (Engine.init codec sha256_hex) steps

/-! ## A small host

The concrete runs of this development: one workflow `w`, one activity `a` with a
handler in the process, and records that always fit their row. -/

namespace Sample

def codec : Codec := ⟨fun _ => 1, fun _ => 1⟩

def payload : PayloadRef := ⟨"p", false, by decide⟩

/-- Two detached activities, joined in order. -/
def pair (policy policy' : EffectPolicy) : Workflow := fun input =>
  .spawn_activity "a" "1" input policy (.and_then fun first =>
    .spawn_activity "a" "1" input policy' (.and_then fun second =>
      .join_activity first (.and_then fun _ => .join_activity second .ret)))

def siblings : Workflow := fun input =>
  .child "leaf" "1" input (.and_then fun first =>
    .child "leaf" "1" input (.and_then fun second =>
      .join_child first (.and_then fun _ => .join_child second .ret)))

/-- The registrations, and a run of the workflow. -/
def start (workflow : Workflow) : List Step :=
  [⟨.register_workflow "w" "1" workflow, []⟩, ⟨.register_activity "a" "1" true, []⟩,
    ⟨.start "run" "w" "1" payload, []⟩]

def drive (id : String) (now_ms : ℤ) : Step := ⟨.drive_with_resolver id now_ms MissingPayloads, []⟩

/-- Two children are there, and the second one has returned. -/
def sibling_ended : List Step :=
  start siblings ++ [⟨.register_workflow "leaf" "1" (fun input => .ret (.ok input)), []⟩,
    drive "run" 0, drive (derived_id id "run" 'c' 1) 0]

/-- An operation with a database that answers. -/
def call (op : Operation) : Step := ⟨op, []⟩

/-- The engine after some steps of the host. -/
def host (steps : List Step) : Engine := after (Engine.init codec id) steps

theorem host_reachable (steps : List Step) : Reachable (host steps) := ⟨codec, id, steps, rfl⟩

/-- The attempt of an activity of `run` at its `number`-th dispatch under the
epoch `epoch`, with the default retry policy, dispatched at time zero. -/
def attempt (index number epoch : ℕ) (policy : EffectPolicy) : ActivityAttempt :=
  { run_id := "run", effect_id := effect_id_at "run" index, attempt := number,
    owner_epoch := epoch, name := "a", version := "1", input := payload, policy,
    started_at_ms := 0, retry_started_at_ms := 0, retry_policy := some RetryPolicy.default }

end Sample

end Appcall.Durable
