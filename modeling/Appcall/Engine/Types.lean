/-
The data model of the workflow engine: `crates/appcall-engine/src/types.rs`.

Every enumeration and record below has the source's variants and fields, under
the source's names, and in the source's order. Three conventions hold in every
file of the engine.

* Machine integers are unbounded: `u64` and `usize` are `ℕ`, `i64` is `ℤ`. The
  places where the source observes the width (`checked_add`, `saturating_add`,
  `i64::try_from`, the `u64::MAX` marker of a legacy record) keep it, as an
  explicit comparison with the bounds of this file.
* A value the source can only build through a validating constructor carries
  the check as a field. `PayloadRef` is the one such type: `key` is private to
  `types.rs` and both constructors and the deserializer go through `validate`.
  `RetryPolicy` is not one, since its fields are public and the engine calls
  `validate` again wherever it uses one.
* `serde` is the boundary. A stored blob is the record it decodes to, so the
  `#[serde(default)]` attributes, which only matter for rows an older version
  wrote, leave no trace here except the default accounting they select.
-/
import Mathlib.Algebra.Group.Int.Defs
import Mathlib.Data.List.AList
import Mathlib.Data.String.Basic

set_option autoImplicit false

namespace Appcall.Durable

/-! ## Errors and machine bounds -/

/-- `types::Error`. `Invalid` keeps its static message. -/
inductive Error where
  | Storage (message : String)
  | Invalid (message : String)
  | NotFound
  | Conflict
  | Nondeterminism
  | Limit
  | Unavailable
  deriving DecidableEq

/-- `u64::MAX`. -/
def U64_MAX : ℕ := 2 ^ 64 - 1

/-- `i64::MAX`, as the bound of a signed value. -/
def I64_MAX : ℤ := 2 ^ 63 - 1

/-- `i64::MIN`. -/
def I64_MIN : ℤ := -2 ^ 63

/-- `u64::checked_add(1)`, with the `Limit` error every use of it raises. -/
def checked_succ (n : ℕ) : Except Error ℕ :=
  if n < U64_MAX then .ok (n + 1) else .error .Limit

def saturating_add (a b : ℤ) : ℤ := max I64_MIN (min I64_MAX (a + b))

def saturating_mul (a b : ℤ) : ℤ := max I64_MIN (min I64_MAX (a * b))

/-! ## Opaque identifiers and payload references -/

/-- The bytes `validate` accepts: ASCII letters and digits and `_-.:/`. A
character outside ASCII is several bytes, all of them refused, so the test per
character is the source's test per byte. -/
def identifier_char (c : Char) : Bool :=
  c.isAlphanum || c == '_' || c == '-' || c == '.' || c == ':' || c == '/'

/-- `types::validate` as a decision. -/
def valid_identifier (s : String) : Bool :=
  !(s.isEmpty || decide (s.utf8ByteSize > 128) || !s.toList.all identifier_char)

def validate (s : String) : Except Error Unit :=
  if valid_identifier s then .ok () else .error (.Invalid "invalid opaque identifier")

/-- `types::PayloadRef`: an opaque host key. The private fields of the source
are only ever written by `PayloadRef::new`, which validates the key. -/
structure PayloadRef where
  key : String
  ephemeral : Bool
  valid : valid_identifier key = true
  deriving DecidableEq

/-- `PayloadRef::new`, and so `durable`, `ephemeral` and the deserializer. -/
def PayloadRef.new (key : String) (ephemeral : Bool) : Except Error PayloadRef :=
  if h : valid_identifier key then .ok ⟨key, ephemeral, h⟩
  else .error (.Invalid "invalid opaque identifier")

/-! ## Run states, failures and policies -/

inductive RunState where
  | Running
  | CancelRequested
  | Cancelled
  | Completed
  | NeedsInput
  | NeedsImplementation
  | OutcomeUnknown
  | Nondeterminism
  | Failed
  | ContinuedAsNew
  deriving DecidableEq

inductive RunFailure where
  | InvalidCommand
  | ResourceLimit
  | MissingActivityImplementation
  | PayloadUnavailable
  | RetryExhausted
  deriving DecidableEq

/-- `types::EffectPolicy`: what a host may assume when it repeats an effect. -/
inductive EffectPolicy where
  | Read
  | Idempotent
  | Reconcile
  | Unknown
  deriving DecidableEq

/-- The policies under which an interrupted effect may simply run again. -/
def EffectPolicy.safe : EffectPolicy → Bool
  | .Read | .Idempotent => true
  | .Reconcile | .Unknown => false

structure RetryPolicy where
  max_attempts : ℕ
  max_elapsed_ms : ℤ
  base_delay_ms : ℤ
  max_delay_ms : ℤ
  deriving DecidableEq

def RetryPolicy.validate (policy : RetryPolicy) : Except Error Unit :=
  if policy.max_attempts = 0 ∨ policy.max_attempts > 1024
      ∨ policy.max_elapsed_ms ≤ 0 ∨ policy.max_elapsed_ms > 86400000
      ∨ policy.base_delay_ms ≤ 0 ∨ policy.base_delay_ms > 86400000
      ∨ policy.max_delay_ms < policy.base_delay_ms ∨ policy.max_delay_ms > 86400000 then
    .error (.Invalid "invalid retry policy")
  else .ok ()

def RetryPolicy.default : RetryPolicy :=
  { max_attempts := 5, max_elapsed_ms := 60000, base_delay_ms := 1000, max_delay_ms := 30000 }

theorem RetryPolicy.default_validate : RetryPolicy.default.validate = .ok () := by
  decide

/-! ## Commands, values and history -/

structure ActivityHandle where
  effect_id : String
  deriving DecidableEq

structure ChildHandle where
  run_id : String
  deriving DecidableEq

inductive WaitSource where
  | Timer (deadline_ms : ℤ)
  | Signal (name : String)
  | Child (child : ChildHandle)
  | Activity (activity : ActivityHandle)
  deriving DecidableEq

structure Selection where
  index : ℕ
  value : Option PayloadRef
  deriving DecidableEq

inductive Command where
  | Activity (name version : String) (input : PayloadRef) (policy : EffectPolicy)
      (detached_wait : Bool)
  | Timer (deadline_ms : ℤ)
  | Signal (name : String)
  | Child (name version : String) (input : PayloadRef)
  | Select (sources : List WaitSource)
  | ContinueAsNew (input : PayloadRef)
  deriving DecidableEq

inductive CommandValue where
  | Payload (p : PayloadRef)
  | Unit
  | Activity (handle : ActivityHandle)
  | Child (handle : ChildHandle)
  | Selected (selection : Selection)
  deriving DecidableEq

structure HistoryEvent where
  command : Command
  value : Option CommandValue
  deriving DecidableEq

/-! ## Tasks, signals and the run record -/

structure ActivityAttempt where
  run_id : String
  effect_id : String
  attempt : ℕ
  owner_epoch : ℕ
  name : String
  version : String
  input : PayloadRef
  policy : EffectPolicy
  started_at_ms : ℤ
  retry_started_at_ms : ℤ
  retry_policy : Option RetryPolicy
  deriving DecidableEq

structure RetryState where
  next_attempt_at_ms : ℤ
  retry_started_at_ms : ℤ
  policy : RetryPolicy
  deriving DecidableEq

inductive TaskState where
  | Ready
  | InFlight
  | Invoking
  | Done (output : PayloadRef)
  | Uncertain
  | Retrying (retry : RetryState)
  deriving DecidableEq

/-- `types::ExecutionAccounting`. The `u64::MAX` of its `Default` marks a record
written before the accounting existed; a new task starts at zero. -/
structure ExecutionAccounting where
  execution_attempts : ℕ
  execution_dispatch_attempt : ℕ
  known_unexecuted : Bool
  execution_started_at_ms : ℤ
  deriving DecidableEq

structure ActivityTask where
  attempt : ActivityAttempt
  state : TaskState
  execution : ExecutionAccounting
  deriving DecidableEq

structure SignalEvent where
  name : String
  value : PayloadRef
  consumed : Bool
  deriving DecidableEq

structure ReconciliationAudit where
  effect_id : String
  attempt : ℕ
  owner_epoch : ℕ
  evidence_ref : String
  recorded_at_ms : ℤ
  observed : Bool
  deriving DecidableEq

/-- `types::RunRecord`, the unit every transaction writes. -/
structure RunRecord where
  id : String
  parent : Option String
  workflow : String
  version : String
  input : PayloadRef
  state : RunState
  failure_reason : Option RunFailure
  revision : ℕ
  history : List HistoryEvent
  tasks : List ActivityTask
  signals : List SignalEvent
  children : List String
  output : Option PayloadRef
  wakeup : Option ℤ
  reconciliation_audit : List ReconciliationAudit
  continued_as : Option String
  deriving DecidableEq

/-! ## What the host sees -/

inductive DriveOutcome where
  | Activity (attempt : ActivityAttempt)
  | Waiting
  | Progressed
  | Completed (output : PayloadRef)
  | Suspended (state : RunState)
  | ContinuedAsNew (successor : String)
  deriving DecidableEq

inductive ActivityFailure where
  | Retryable
  | OutcomeUnknown
  deriving DecidableEq

/-- `types::PayloadResolver`: host-owned payload storage, as the function its
`resolve` method is during one engine call. -/
abbrev PayloadResolver := PayloadRef → Except Error (Option (List UInt8))

def MissingPayloads : PayloadResolver := fun _ => .ok none

end Appcall.Durable
