/-
The runner: `runner/bun/src/server.ts`, `serve.ts`, `execution.ts` and the part of
`registry.ts` an action goes through.

A request is admitted or turned away (`serve.ts`), read and decoded (`handleRPC`),
and run under a deadline (`runExecution`); the registry checks it against the
manifest and then calls the handler of the connector, and what the handler returns
or throws becomes the response. Every function below returns its result together
with whether the handler has been called, which the runner itself does not keep.

A handler is outside this development: it is any function from an input to a value
or a promise, and it may throw anything. So is the world around it: whether the
request is admitted, how its body arrives and which deadline fires first are inputs
(`Admission`, `Body`, `Deadline`). Texts of messages are left out; codes, statuses
and ids are what the other side of the wire decides by.
-/
import Mathlib.Data.List.Infix
import Mathlib.Tactic.Cases

set_option autoImplicit false

namespace Appcall.Rpc

/-! ## Values and handlers -/

/-- JSON, as much of it as the runner looks at. -/
inductive Value where
  | null
  | bool (b : Bool)
  | number (n : ℤ)
  | string (s : String)
  | array (values : List Value)
  | object (fields : List (String × Value))

def Value.is_record : Value → Bool
  | .object _ => true
  | _ => false

/-- `value[key]`, where an absent field is `undefined`. -/
def Value.field (key : String) : Value → Option Value
  | .object fields => (fields.find? (fun f => decide (f.1 = key))).map Prod.snd
  | _ => none

/-- `{ ...value, [key]: v }`. -/
def Value.with_field (key : String) (v : Value) : Value → Value
  | .object fields => .object (fields.filter (fun f => decide (f.1 ≠ key)) ++ [(key, v)])
  | _ => .object [(key, v)]

/-- The output of a handler, with the keys marked under `OPERATION_METADATA`. -/
structure Output where
  value : Value
  marked : List String

/-- `splitOperationMetadata(output).output`: the bare output. -/
def split_operation_metadata (o : Output) : Value :=
  match o.value with
  | .object fields => .object (fields.filter (fun f => decide (f.1 ∉ o.marked)))
  | v => v

/-- What is thrown: a record, with its `code` if that is a string and its
`retryAfterSeconds` if that is a positive integer, or anything else. -/
inductive Thrown where
  | record (code : Option String) (retry_after_seconds : Option ℕ)
  | other

inductive Settled where
  | returned (output : Output)
  | threw (error : Thrown)

/-- What a call gives back at once: an end, or a promise, which may never settle. -/
inductive Running where
  | now (s : Settled)
  | promise (s : Option Settled)

abbrev Handler := Value → Running

/-- The structured errors of the runner itself: `throw { ok: false, code, message }`. -/
def failure (code : String) : Thrown := .record (some code) none

/-- `.then(f)` on a value or a promise: what a step makes of the output. -/
def Running.bind (r : Running) (f : Output → Settled) : Running :=
  let step : Settled → Settled
    | .returned o => f o
    | .threw e => .threw e
  match r with
  | .now s => .now (step s)
  | .promise s => .promise (s.map step)

/-- The end of a computation, if it has one. -/
def Running.settled : Running → Option Settled
  | .now s => some s
  | .promise s => s

/-- `Promise.resolve(primary).then(f)` for a value that was not thrown already. -/
def Running.chain (r : Running) (f : Output → Running) : Running :=
  match r with
  | .now (.threw e) => .now (.threw e)
  | .now (.returned o) => .promise (f o).settled
  | .promise none => .promise none
  | .promise (some (.threw e)) => .promise (some (.threw e))
  | .promise (some (.returned o)) => .promise (f o).settled

/-! ## Execution -/

/-- The numbers of `budget-contract.json`. -/
def max_operation_timeout_ms : ℕ := 300000
def max_operation_input_bytes : ℕ := 26214400
def max_operation_response_bytes : ℕ := 52428800

/-- How the clock and the signals treat one `runExecution`: it is over before the
function is called, or it fires before the promise settles. -/
structure Deadline where
  expired : Bool
  aborts : Bool

/-- `timeoutError()`. -/
def timeout_error : Thrown := failure "OPERATION_TIMEOUT"

/-- `runExecution`. A promise that never settles is ended by the timer. -/
def run_execution (timeout_ms : Option ℕ) (d : Deadline) (fn : Unit → Running) :
    Running × Bool :=
  match timeout_ms with
  | none => (.now (.threw (failure "UNSUPPORTED_OPERATION_BUDGET")), false)
  | some ms =>
    if ms = 0 ∨ ms > max_operation_timeout_ms then
      (.now (.threw (failure "UNSUPPORTED_OPERATION_BUDGET")), false)
    else if d.expired then (.now (.threw timeout_error), false)
    else
      match fn () with
      | .now s => (.now s, true)
      | .promise none => (.promise (some (.threw timeout_error)), true)
      | .promise (some s) =>
        (.promise (some (if d.aborts then .threw timeout_error else s)), true)

/-! ## The registry -/

/-- `OperationSpec`, from the manifest of the connector. -/
structure OperationSpec where
  kind : Option String
  timeout_ms : Option ℕ
  max_input_bytes : Option ℕ
  max_response_bytes : Option ℕ
  effect_policy : Option String
  reconcile : Option String
  reconcile_input : List (String × String)
  input_properties : List String
  input_required : List String
  input_closed : Bool
  output_properties : List String

/-- The observe handler of an operation, if its policy declares one. -/
def OperationSpec.observes (spec : OperationSpec) : Option (String × Bool) :=
  match spec.effect_policy, spec.reconcile with
  | some "Reconcile", some name => if name = "" then none else some (name, false)
  | some "Idempotent", some name => if name = "" then none else some (name, true)
  | _, _ => none

/-- `assertReconcilePairingsLoadable` on one operation of a connector. -/
def OperationSpec.loadable (specs : String → Option OperationSpec) (spec : OperationSpec) :
    Bool :=
  match spec.observes with
  | none => decide (spec.effect_policy ≠ some "Reconcile")
  | some (name, idempotent) =>
    match specs name with
    | none => false
    | some observe =>
      !observe.input_closed || observe.input_required.all (fun key =>
        (spec.reconcile_input.any (fun pair =>
            decide (pair.1 = key) && decide (pair.2 ∈ spec.input_properties)))
          || (idempotent && decide (key = "id")) || decide (key ∈ spec.input_properties))

/-- The registry: its handlers, its operation specs, and the parts of the manifests
it reads. `validates` is the compiled `inputSchema`, `json_byte_length` the length of
`JSON.stringify`. Specs that do not load are refused when the registry is built. -/
structure Registry where
  described : String → Bool
  actions : String → Option (String → Option Handler)
  healthchecks : String → Option Handler
  syncs : String → String → Option Handler
  operation_specs : String → String → Option OperationSpec
  validates : String → String → Value → Bool
  credentialed : String → Value → Bool
  json_byte_length : Value → ℕ
  loadable : ∀ connector operation spec, operation_specs connector operation = some spec →
    spec.loadable (operation_specs connector) = true

/-- `supportsOperationBudget` on a spec. -/
def supports_operation_budget (spec : OperationSpec) : Bool :=
  let within (n : Option ℕ) (bound : ℕ) : Bool :=
    match n with
    | some n => decide (0 < n ∧ n ≤ bound)
    | none => false
  within spec.timeout_ms max_operation_timeout_ms
    && within spec.max_input_bytes max_operation_input_bytes
    && within spec.max_response_bytes max_operation_response_bytes

/-- `validateInputSize`. -/
def Registry.input_too_large (reg : Registry) (input : Value) (max : Option ℕ) : Bool :=
  match max with
  | none => false
  | some max => decide (reg.json_byte_length input > max)

/-- The check of `boundedOutput`, on the bytes the server sends. -/
def Registry.output_too_large (reg : Registry) (o : Output) (max : Option ℕ) : Bool :=
  match max with
  | none => false
  | some max => decide (reg.json_byte_length (split_operation_metadata o) > max)

def Registry.bounded_output (reg : Registry) (r : Running) (max : Option ℕ) : Running :=
  r.bind (fun o =>
    if reg.output_too_large o max then .threw (failure "OUTPUT_TOO_LARGE") else .returned o)

/-- `enforceCredentialedHealthcheckEvidence`. -/
def Registry.enforce_healthcheck_evidence (reg : Registry) (connector : String) (input : Value)
    (r : Running) : Running :=
  if !reg.credentialed connector input then r
  else r.bind (fun o =>
    match o.value.field "source" with
    | some (.string "connector") => .threw (failure "CONNECTOR_UPSTREAM_ERROR")
    | _ => .returned o)

def normalize_healthcheck_output (properties : List String) (r : Running) : Running :=
  r.bind (fun o =>
    if !o.value.is_record then .returned o
    else
      let value :=
        match o.value.field "status" with
        | some _ => o.value
        | none => o.value.with_field "status" (.string "ok")
      let own := ["connector", "action", "status", "source"].filter (fun key =>
        (value.field key).isSome && decide (key ∉ properties))
      .returned { value, marked := o.marked ++ own })

def project_observe_input (input : Value) (spec : OperationSpec)
    (observe : Option OperationSpec) : Value :=
  let projected :=
    match input, observe with
    | .object fields, some observe =>
      if observe.input_closed then
        .object (fields.filter (fun f =>
          decide (f.1 ∈ observe.input_properties) || decide (f.1 ∉ spec.input_properties)))
      else input
    | _, _ => input
  if !input.is_record || !projected.is_record then projected
  else
    spec.reconcile_input.foldl (fun acc pair =>
      match input.field pair.2 with
      | some v => acc.with_field pair.1 v
      | none => acc) projected

/-- The handler of a reconcile target: an action of the connector, else a sync. -/
def Registry.observe_handler (reg : Registry) (connector name : String) : Option Handler :=
  match (reg.actions connector).bind (fun handlers => handlers name) with
  | some handler => some handler
  | none => reg.syncs connector name

/-- `precheckEffectPolicyReconcile`. -/
def Registry.precheck_reconcile (reg : Registry) (connector : String) (input : Value)
    (spec : OperationSpec) : Option String :=
  match spec.observes with
  | none => none
  | some (name, idempotent) =>
    match reg.observe_handler connector name with
    | none => some "RECONCILE_HANDLER_MISSING"
    | some _ =>
      match reg.operation_specs connector name with
      | none => none
      | some observe =>
        if !observe.input_closed then none
        else
          let projected := project_observe_input input spec (some observe)
          if observe.input_required.any (fun key =>
              !(idempotent && decide (key = "id")) && (projected.field key).isNone) then
            some "INVALID_ACTION_INPUT"
          else none

def project_idempotent_id (o : Output) : Except Thrown String :=
  let as_id : Option Value → Option String
    | some (.number n) => some (toString n)
    | some (.string s) => if s = "" then none else some s
    | _ => none
  if !o.value.is_record then .error (failure "IDEMPOTENT_ID_MISSING")
  else
    match as_id (o.value.field "id") with
    | some id => .ok id
    | none =>
      match as_id ((o.value.field "application").bind (Value.field "id")) with
      | some id => .ok id
      | none => .error (failure "IDEMPOTENT_ID_MISSING")

/-- The input of the observe handler, with the id that an idempotent policy projects
from the primary output. -/
def Registry.observe_input (reg : Registry) (connector : String) (input : Value)
    (spec : OperationSpec) (name : String) (idempotent : Bool) (primary : Output) :
    Except Thrown Value :=
  let projected := project_observe_input input spec (reg.operation_specs connector name)
  if idempotent then
    match project_idempotent_id primary with
    | .error e => .error e
    | .ok id =>
      .ok (if projected.is_record then projected.with_field "id" (.string id)
        else .object [("id", .string id)])
  else .ok projected

def Registry.run_observe (reg : Registry) (connector : String) (input : Value)
    (spec : OperationSpec) (name : String) (idempotent : Bool) (handler : Handler)
    (primary : Output) : Running :=
  match reg.observe_input connector input spec name idempotent primary with
  | .error e => .now (.threw e)
  | .ok observed =>
    reg.bounded_output (handler observed)
      (((reg.operation_specs connector name).bind (·.max_response_bytes)).or
        spec.max_response_bytes)

/-- `applyEffectPolicyReconcile`, on what the bounded handler gave. -/
def Registry.apply_reconcile (reg : Registry) (connector : String) (input : Value)
    (primary : Running) (spec : OperationSpec) : Running :=
  match spec.observes with
  | none =>
    if spec.effect_policy = some "Reconcile" then
      match primary with
      | .now (.threw e) => .now (.threw e)
      | _ => .now (.threw (failure "RECONCILE_NOT_DECLARED"))
    else primary
  | some (name, idempotent) =>
    match reg.observe_handler connector name with
    | none =>
      match primary with
      | .now (.threw e) => .now (.threw e)
      | _ => .now (.threw (failure "RECONCILE_HANDLER_MISSING"))
    | some handler =>
      primary.chain (reg.run_observe connector input spec name idempotent handler)

/-- `RegistryActionResult`, or what `executeAction` throws. -/
inductive ActionResult where
  | ok (output : Running)
  | failed (code : String) (retry_after_seconds : Option ℕ)
  | thrown (error : Thrown)

/-- The handler `executeAction` looks up. -/
def Registry.handler (reg : Registry) (connector action : String) : Option Handler :=
  if action = "healthcheck" then reg.healthchecks connector
  else (reg.actions connector).bind (fun handlers => handlers action)

/-- The checks of `executeAction` before any handler runs: the handler and the spec
it runs under, or the code of the failure. -/
def Registry.checked (reg : Registry) (connector action : String) (input : Value) :
    Except String (Handler × OperationSpec) :=
  if (reg.actions connector).isNone && (reg.healthchecks connector).isNone then
    .error "UNKNOWN_CONNECTOR"
  else
    match reg.operation_specs connector action with
    | none => .error "ACTION_NOT_DECLARED"
    | some spec =>
      match spec.kind with
      | none => .error "ACTION_NOT_DECLARED"
      | some kind =>
        if kind = "" then .error "ACTION_NOT_DECLARED"
        else if kind ≠ "action" then .error "ACTION_NOT_EXECUTABLE"
        else if !supports_operation_budget spec then .error "UNSUPPORTED_OPERATION_BUDGET"
        else if reg.input_too_large input spec.max_input_bytes then .error "INPUT_TOO_LARGE"
        else
          match reg.handler connector action with
          | none => .error "UNKNOWN_ACTION"
          | some handler =>
            if action ≠ "healthcheck" && !reg.validates connector action input then
              .error "INVALID_ACTION_INPUT"
            else
              match reg.precheck_reconcile connector input spec with
              | some code => .error code
              | none => .ok (handler, spec)

/-- The code of a structured error: a record with a string code that is not empty. -/
def Thrown.code : Thrown → Option String
  | .record (some code) _ => if code = "" then none else some code
  | _ => none

def Thrown.retry_after_seconds : Thrown → Option ℕ
  | .record _ n => n
  | .other => none

/-- What `executeAction` runs under the deadline. -/
def Registry.body (reg : Registry) (connector action : String) (input : Value)
    (handler : Handler) (spec : OperationSpec) : Running :=
  let primary := reg.bounded_output (handler input) spec.max_response_bytes
  if action = "healthcheck" then
    normalize_healthcheck_output spec.output_properties
      (reg.enforce_healthcheck_evidence connector input primary)
  else reg.apply_reconcile connector input primary spec

def Registry.execute_action (reg : Registry) (connector action : String) (input : Value)
    (d : Deadline) : ActionResult × Bool :=
  match reg.checked connector action input with
  | .error code => (.failed code none, false)
  | .ok (handler, spec) =>
    match run_execution spec.timeout_ms d
        (fun _ => reg.body connector action input handler spec) with
    | (.now (.threw error), called) =>
      if action = "healthcheck" then
        -- the registry catches what a healthcheck throws at once
        match error.code with
        | some code => (.failed code error.retry_after_seconds, called)
        | none => (.failed "CONNECTOR_UPSTREAM_ERROR" none, called)
      else (.thrown error, called)
    | (output, called) => (.ok output, called)

/-! ## The server -/

/-- The payload of a response envelope. -/
inductive Payload where
  | result (output : Value)
  | error (code : String) (retry_after_seconds : Option ℕ)

structure Response where
  status : ℕ
  id : Option String
  payload : Payload

/-- `jsonResponse`: a body over the wire limit is replaced. -/
def json_response (fits : Bool) (status : ℕ) (id : Option String) (payload : Payload) :
    Response :=
  if fits then { status, id, payload }
  else { status := 502, id, payload := .error "OUTPUT_TOO_LARGE" none }

def status_for_registry_failure (code : String) : ℕ :=
  if code = "INPUT_TOO_LARGE" then 413
  else if code = "UNSUPPORTED_OPERATION_BUDGET" ∨ code = "INVALID_ACTION_INPUT" then 400
  else 404

def status_for_execution_error_code (code : String) : ℕ :=
  match code with
  | "OPERATION_TIMEOUT" | "OUTBOUND_TIMEOUT" => 504
  | "CONNECTOR_RATE_LIMITED" => 429
  | "CONNECTOR_UNAVAILABLE" => 503
  | "CONNECTOR_UPSTREAM_ERROR" | "CONNECTOR_RESPONSE_INVALID" | "OUTPUT_TOO_LARGE"
  | "OUTBOUND_RESPONSE_TOO_LARGE" => 502
  | "OUTBOUND_UNSUPPORTED_BUDGET" | "UNSUPPORTED_OPERATION_BUDGET" => 400
  | "CONNECTOR_ACCOUNT_RESTRICTED" => 423
  | "CONNECTOR_CAPABILITY_MISSING" => 403
  | "CONNECTOR_ACTION_NOT_PERMITTED" => 422
  | _ => 400

/-- `errorResponseForExecutionFailure`: the status and the error. -/
def error_response_for_execution_failure (error : Thrown) (fallback_code : String) :
    ℕ × Payload :=
  match error.code with
  | some code =>
    (status_for_execution_error_code code, .error code error.retry_after_seconds)
  | none => (400, .error fallback_code none)

/-- The envelope of an action request, as the client writes it. -/
structure RequestEnvelope where
  id : String
  connector_key : String
  action : String
  input : Value

/-- The response to what `executeAction` gave. The promise it awaits is ended by the
timer of `runExecution` at the latest. -/
def Registry.action_response (reg : Registry) (envelope : RequestEnvelope) (fits : Bool)
    (result : ActionResult) : Response :=
  let respond (status : ℕ) (payload : Payload) : Response :=
    json_response fits status (some envelope.id) payload
  let failed (error : Thrown) : Response :=
    let (status, payload) := error_response_for_execution_failure error "INVALID_ACTION_INPUT"
    respond status payload
  match result with
  | .thrown error => failed error
  | .failed code _ => respond (status_for_registry_failure code) (.error code none)
  | .ok output =>
    match output.settled with
    | none => failed timeout_error
    | some (.threw error) => failed error
    | some (.returned o) =>
      let bare := split_operation_metadata o
      let output := if bare.is_record then bare else .object []
      match (reg.operation_specs envelope.connector_key envelope.action).bind
          (·.max_response_bytes) with
      | none => respond 502 (.error "OUTPUT_TOO_LARGE" none)
      | some max =>
        if reg.json_byte_length output > max then respond 502 (.error "OUTPUT_TOO_LARGE" none)
        else respond 200 (.result output)

def Registry.handle_connector_action_execute (reg : Registry) (envelope : RequestEnvelope)
    (d : Deadline) (fits : Bool) : Response × Bool :=
  let respond (status : ℕ) (payload : Payload) : Response :=
    json_response fits status (some envelope.id) payload
  if envelope.connector_key = "" || !reg.described envelope.connector_key then
    (respond 404 (.error "UNKNOWN_CONNECTOR" none), false)
  else if envelope.action = "" then (respond 404 (.error "ACTION_NOT_DECLARED" none), false)
  else
    let (result, called) :=
      reg.execute_action envelope.connector_key envelope.action envelope.input d
    (reg.action_response envelope fits result, called)

inductive Body where
  | aborted
  | too_large
  | malformed
  | read

/-- One passage of a request through the runner: how its body arrives, the deadline
of the request and that of the operation, and whether the response fits the wire. -/
structure Passage where
  body : Body
  request_deadline : Deadline
  operation_deadline : Deadline
  fits : Bool

/-- `handleRPC` on a request for an action. A response before the envelope is read
carries no id. -/
def Registry.handle_rpc (reg : Registry) (envelope : RequestEnvelope) (p : Passage) :
    Response × Bool :=
  match p.body with
  | .aborted => (json_response p.fits 504 none (.error "OPERATION_TIMEOUT" none), false)
  | .too_large => (json_response p.fits 413 none (.error "INPUT_TOO_LARGE" none), false)
  | .malformed => (json_response p.fits 400 none (.error "MALFORMED_REQUEST" none), false)
  | .read =>
    let timed_out :=
      error_response_for_execution_failure timeout_error "CONNECTOR_UPSTREAM_ERROR"
    if p.request_deadline.expired then
      (json_response p.fits timed_out.1 (some envelope.id) timed_out.2, false)
    else
      let (response, called) :=
        reg.handle_connector_action_execute envelope p.operation_deadline p.fits
      if p.request_deadline.aborts then
        (json_response p.fits timed_out.1 (some envelope.id) timed_out.2, called)
      else (response, called)

/-- What the entrypoint of `serve.ts` decides about a request. -/
inductive Admission where
  | unauthorized
  | busy
  | admitted

/-- `createFetchHandler`'s handler for `POST /rpc`. The id of a busy response is the
request's header, which the client sets to the id of the envelope. -/
def Registry.fetch (reg : Registry) (admission : Admission) (envelope : RequestEnvelope)
    (p : Passage) : Response × Bool :=
  match admission with
  | .unauthorized =>
    ({ status := 401, id := none, payload := .error "UNAUTHORIZED" none }, false)
  | .busy =>
    ({ status := 503, id := some envelope.id, payload := .error "RUNNER_BUSY" none }, false)
  | .admitted => reg.handle_rpc envelope p

end Appcall.Rpc
