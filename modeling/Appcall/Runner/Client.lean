/-
The client of the runner: `crates/appcall-runner-client/src/lib.rs`.

One call checks the request, sends it once and classifies what comes back. The
response is the one the runner gives (`Registry.fetch`); between the two stands a
transport that may fail, redirect, cut or garble, and a timer. What they do to one
call is its `World`. As on the other side, every result comes with whether the
handler was called.

A secret of the request is redacted from the code that is reported. The variants that
are searched are spelled by the URL library, so redaction is a parameter; the outcome
is decided by the code as the runner sent it.
-/
import Appcall.Runner.Server
import Mathlib.Algebra.Group.Nat.Defs

set_option autoImplicit false

namespace Appcall.Rpc

/-! ## Errors -/

/-- `DispatchOutcome`: what an error proves about the dispatch of the action. -/
inductive DispatchOutcome where
  | NotDispatched
  | ResponseReceived
  | Unknown
  deriving DecidableEq

inductive ErrorKind where
  | Configuration
  | InvalidRequest
  | RequestTooLarge
  | Timeout
  | Transport
  | RedirectBlocked
  | ResponseTooLarge
  | MalformedResponse
  | HttpStatus
  | Runner
  | IncompatibleProtocol
  deriving DecidableEq

/-- `Error` of the client. -/
structure ClientError where
  kind : ErrorKind
  outcome : DispatchOutcome
  code : Option String
  retry_after_seconds : Option ℕ

def ClientError.new (kind : ErrorKind) (outcome : DispatchOutcome) : ClientError :=
  { kind, outcome, code := none, retry_after_seconds := none }

def rejection_codes : List String :=
  ["CONNECTOR_RATE_LIMITED", "CONNECTOR_ACCOUNT_RESTRICTED", "CONNECTOR_ACTION_NOT_PERMITTED",
    "CONNECTION_RESTRICTED", "ACTION_NOT_PERMITTED"]

/-- The codes the client takes for admission and protocol failures of the runner. -/
def pre_dispatch_codes : List String :=
  ["ACTION_NOT_DECLARED", "ACTION_NOT_EXECUTABLE", "ACTION_HANDLER_MISSING", "UNKNOWN_ACTION",
    "UNKNOWN_CONNECTOR", "UNKNOWN_METHOD", "SYNC_NOT_DECLARED", "SYNC_NOT_EXECUTABLE",
    "SYNC_HANDLER_MISSING", "UNKNOWN_SYNC", "MALFORMED_REQUEST", "INPUT_TOO_LARGE",
    "ACTION_INPUT_TOO_LARGE", "REQUEST_TOO_LARGE", "UNSUPPORTED_OPERATION_BUDGET"]

def runner_error_outcome (status : ℕ) (code : String) : DispatchOutcome :=
  if status = 503 ∧ code = "RUNNER_BUSY" then .NotDispatched
  else if code ∈ rejection_codes then .ResponseReceived
  else if code ∈ pre_dispatch_codes then .NotDispatched
  else .Unknown

/-! ## One call -/

/-- The client: its options, and `redact` under the secrets of a request's input. -/
structure RunnerClient where
  timeout_ms : ℕ
  max_request_bytes : ℕ
  redact : Value → String → String

structure RequestContext where
  request_id : String
  deadline_unix_ms : Option ℕ

structure ActionExecuteRequest where
  connector_key : String
  action : String
  input : Value

/-- What goes wrong between the client and the runner. -/
inductive Loss where
  | failed
  | redirected
  | too_large
  | cut
  | garbled
  deriving DecidableEq

/-- How the exchange goes: the response arrives as the runner sent it, or it is lost,
whether the request had reached the runner or not. -/
inductive Delivery where
  | intact
  | lost (loss : Loss) (reached : Bool)

/-- What the world does to one call: the two readings of the clock (an error for one
before the epoch), the length of the encoded request, the delivery, what the runner
makes of the request, and whether the timer of the client fires. -/
structure World where
  clock : Option ℕ
  request_bytes : Option ℕ
  clock_sent : Option ℕ
  delivery : Delivery
  admission : Admission
  passage : Passage
  expires : Bool

def is_safe_request_id (id : String) : Bool :=
  match id.toList with
  | [] => false
  | first :: rest =>
    decide (id.utf8ByteSize ≤ 256) && first.isAlphanum
      && rest.all (fun c => c.isAlphanum || c == '.' || c == '_' || c == ':' || c == '-')

/-- The client's reading of the loss of a response. -/
def Loss.kind : Loss → ErrorKind
  | .failed => .Transport
  | .redirected => .RedirectBlocked
  | .too_large => .ResponseTooLarge
  | .cut => .Transport
  | .garbled => .MalformedResponse

/-- The decoding of a response in `exchange`. -/
def RunnerClient.decode (client : RunnerClient) (id : String) (input : Value)
    (response : Response) : Except ClientError Value :=
  let malformed := ClientError.new .MalformedResponse .Unknown
  if response.id ≠ some id then .error malformed
  else
    match response.payload with
    | .result output =>
      if 200 ≤ response.status ∧ response.status < 300 then .ok output else .error malformed
    | .error code retry_after_seconds =>
      if code = "" then .error malformed
      else if code = "RUNNER_BUSY" ∧ response.status ≠ 503 then .error malformed
      else
        .error {
          kind := .Runner
          outcome := runner_error_outcome response.status code
          code := some (client.redact input code)
          retry_after_seconds }

def ActionExecuteRequest.envelope (request : ActionExecuteRequest) (id : String) :
    RequestEnvelope :=
  { id, connector_key := request.connector_key, action := request.action,
    input := request.input }

def RunnerClient.exchange (client : RunnerClient) (reg : Registry) (id : String)
    (request : ActionExecuteRequest) (w : World) : Except ClientError Value × Bool :=
  let (response, called) := reg.fetch w.admission (request.envelope id) w.passage
  match w.delivery with
  | .intact => (client.decode id request.input response, called)
  | .lost loss reached => (.error (ClientError.new loss.kind .Unknown), reached && called)

/-- `u64::MAX`. -/
def u64_max : ℕ := 2 ^ 64 - 1

/-- `action_execute`, through `call`. The timer drops the exchange wherever it is, and
the runner may go on without it. -/
def RunnerClient.action_execute (client : RunnerClient) (reg : Registry)
    (context : RequestContext) (request : ActionExecuteRequest) (w : World) :
    Except ClientError Value × Bool :=
  let rejected (kind : ErrorKind) : Except ClientError Value × Bool :=
    (.error (ClientError.new kind .NotDispatched), false)
  if !is_safe_request_id context.request_id then rejected .InvalidRequest
  else
    match w.clock with
    | none => rejected .Configuration
    | some now =>
      let deadline := min (min (now + client.timeout_ms) u64_max)
        (context.deadline_unix_ms.getD u64_max)
      if deadline ≤ now then rejected .Timeout
      else
        match w.request_bytes with
        | none => rejected .InvalidRequest
        | some bytes =>
          if bytes > client.max_request_bytes then rejected .RequestTooLarge
          else
            match w.clock_sent with
            | none => rejected .Configuration
            | some sent =>
              if deadline - sent = 0 then rejected .Timeout
              else
                let (result, called) := client.exchange reg context.request_id request w
                if w.expires then (.error (ClientError.new .Timeout .Unknown), called)
                else (result, called)

end Appcall.Rpc
