/-
The calls of a tool: `call_tool_with_key` in `crates/appcall-mcp/src/server.rs`.

A call that carries a request id has an entry in the registry, a handler (the caller's
future) and, when its context cancels durably, a spawned task that executes it. Each of
them is modelled by what it does next. Whatever stands between two accesses to what is
shared is one step, and so is one poll of a future; a future can be dropped where it
waits, and a task before it is polled at all. What the outside answers
(`connections.list`, `executor.execute`) comes with the step. `observed` is what has
happened to the call so far, in order.
-/
import Appcall.Lib.Chars
import Appcall.Lib.Machine
import Appcall.Lib.Value
import Appcall.Mcp.InFlight

set_option autoImplicit false

namespace Appcall.Mcp

open Chars (is_control)

variable {ν ρ : Type}

/-! ## Tools -/

inductive OperationKind
  | Action | Sync | Webhook | Unknown
  deriving DecidableEq

/-- An operation of a connector: what `has_tool_schema` reads of it. -/
structure Operation (ν : Type) where
  kind : OperationKind
  description : String
  input_schema : Option (Value ν)

def is_whitespace (c : Char) : Bool :=
  (decide (9 ≤ c.toNat) && decide (c.toNat ≤ 13))
    || (decide (0x2000 ≤ c.toNat) && decide (c.toNat ≤ 0x200A))
    || [0x20, 0x85, 0xA0, 0x1680, 0x2028, 0x2029, 0x202F, 0x205F, 0x3000].contains c.toNat

def Operation.has_tool_schema (op : Operation ν) : Bool :=
  decide (op.kind = .Action) && !op.description.toList.all is_whitespace
    && op.input_schema.any Value.is_object

/-- `name.split("__")` -/
def split_name : List Char → List (List Char)
  | [] => [[]]
  | '_' :: '_' :: rest => [] :: split_name rest
  | c :: rest =>
    match split_name rest with
    | part :: parts => (c :: part) :: parts
    | [] => [[c]]

def decode_tool_name (name : String) : Option (String × String) :=
  match split_name name.toList with
  | connector :: part :: parts =>
    if (connector :: part :: parts).any List.isEmpty = true then none
    else some (String.ofList connector,
      String.ofList (List.intercalate ['.'] (part :: parts)))
  | _ => none

def SENA_MVT : String := "sena_mvt"

def ALLOWED : List (String × String) := [
  ("apollo", "people.search"), ("apollo", "people.match"), ("apollo", "people.bulk_match"),
  ("apollo", "organizations.search"), ("apollo", "organizations.enrich"),
  ("apollo", "organizations.bulk_enrich"), ("apollo", "organizations.job_postings"),
  ("apollo", "contacts.create"), ("apollo", "contacts.update"), ("apollo", "contacts.search"),
  ("apollo", "accounts.create"), ("apollo", "accounts.update"),
  ("apollo", "email_accounts.list"), ("apollo", "users.search"),
  ("brevo", "contacts.create"), ("brevo", "contacts.get"), ("brevo", "contacts.update"),
  ("brevo", "lists.create"), ("brevo", "lists.get"), ("brevo", "contacts.addToList"),
  ("brevo", "contacts.removeFromList"), ("brevo", "emailCampaigns.create"),
  ("brevo", "emailCampaigns.get"), ("brevo", "emailCampaigns.send"),
  ("brevo", "smtp.email.send"),
  ("google-workspace", "sheets.values.get"), ("google-workspace", "sheets.values.append"),
  ("google-workspace", "sheets.values.update"), ("google-workspace", "sheets.values.clear"),
  ("google-workspace", "sheets.spreadsheets.create"),
  ("google-workspace", "sheets.spreadsheets.batchUpdate"),
  ("rb2b", "visitors.parse"),
  ("unipile", "accounts.get"), ("unipile", "accounts.list"), ("unipile", "chats.get"),
  ("unipile", "chats.list"), ("unipile", "chats.start"), ("unipile", "emails.get"),
  ("unipile", "emails.list"), ("unipile", "emails.send"),
  ("unipile", "linkedin.invitation.send"), ("unipile", "linkedin.profile.get"),
  ("unipile", "linkedin.relations.list"), ("unipile", "messages.list"),
  ("unipile", "messages.send"),
  ("apify", "actor.run"), ("apify", "actor.run_sync_get_dataset_items"),
  ("apify", "actors.get"), ("apify", "actors.list"), ("apify", "datasets.get"),
  ("apify", "datasets.items"), ("apify", "runs.get"), ("apify", "runs.list"),
  ("apify", "task.run"), ("apify", "task.run_sync_get_dataset_items"),
  ("apify", "tasks.list"),
  ("cal-com", "bookings.create"), ("cal-com", "bookings.get"), ("cal-com", "bookings.list"),
  ("cal-com", "bookings.reschedule"), ("cal-com", "event_types.get"),
  ("cal-com", "event_types.list"), ("cal-com", "me.get"), ("cal-com", "schedules.list"),
  ("cal-com", "slots.available"),
  ("calendly", "bookings.create"), ("calendly", "event_types.list"),
  ("calendly", "scheduled_events.get"), ("calendly", "scheduled_events.invitees.list"),
  ("calendly", "scheduled_events.list"), ("calendly", "scheduling_links.create"),
  ("calendly", "slots.available"), ("calendly", "users.me.action"),
  ("googlemeet", "meetings.create"), ("googlemeet", "meetings.list")]

def tool_allowed (profile connector operation : String) : Bool :=
  decide (profile ≠ SENA_MVT) || ALLOWED.contains (connector, operation)

def valid_idempotency_key (key : String) : Bool :=
  !key.isEmpty && decide (key.utf8ByteSize ≤ 128)
    && key.toList.all (fun c => decide (33 ≤ c.toNat) && decide (c.toNat ≤ 126))

def valid_connection_id (id : String) : Bool :=
  !id.isEmpty && decide (id.utf8ByteSize ≤ 256)
    && !id.toList.any (fun c => is_control c || is_whitespace c)

/-! ## Connections -/

structure Connection where
  id : String
  project_id : String
  external_account_id : String
  connector : String
  status : String

inductive ConnectionSelectionError
  | Required | Ambiguous | NotFound | Disconnected
  deriving DecidableEq

def ConnectionSelectionError.code : ConnectionSelectionError → String
  | .Required => "CONNECTION_REQUIRED"
  | .Ambiguous => "CONNECTION_AMBIGUOUS"
  | .NotFound => "CONNECTION_NOT_FOUND"
  | .Disconnected => "CONNECTION_DISCONNECTED"

def ConnectionSelectionError.message : ConnectionSelectionError → String
  | .Required => "No active connection for this connector. Connect it first."
  | .Ambiguous => "Multiple active connections match this connector. Specify connectionId."
  | .NotFound => "The selected connection is not available for this scope."
  | .Disconnected => "The selected connection is disconnected."

def connection_visible_to_scope (scope : Scope) (c : Connection) : Bool :=
  !scope.account_id.isEmpty
    && (c.external_account_id.isEmpty || decide (c.external_account_id = scope.account_id))

/-- `select_connection`, on the connections that were listed. -/
def select_connection (scope : Scope) (connector : String) (requested : Option String)
    (connections : List Connection) : Except ConnectionSelectionError Connection :=
  match requested with
  | some requested =>
    match connections.find? (fun c => decide (c.id = requested)) with
    | none => .error .NotFound
    | some c =>
      if c.project_id ≠ scope.project_id ∨ c.connector ≠ connector
          ∨ connection_visible_to_scope scope c = false then .error .NotFound
      else if c.status ≠ "active" then .error .Disconnected
      else .ok c
  | none =>
    let connections := connections.filter (fun c =>
      decide (c.project_id = scope.project_id) && decide (c.connector = connector)
        && decide (c.status = "active") && connection_visible_to_scope scope c)
    let own := connections.filter (fun c => decide (c.external_account_id = scope.account_id))
    let preferred :=
      if scope.account_id = "" then connections
      else if own.isEmpty = true then
        connections.filter (fun c => c.external_account_id.isEmpty)
      else own
    match preferred with
    | [] => .error .Required
    | [c] => .ok c
    | _ => .error .Ambiguous

/-! ## Calls -/

structure ExecuteRequest (ν : Type) where
  project_id : String
  connection_id : String
  external_account_id : String
  admin_scope : Bool
  action : String
  idempotency_key : String
  input : Value ν
  caller_credential : String

/-- What a call answers; `executed` is the answer made of what the executor returned. -/
inductive Payload (ρ : Type)
  | tool_error (code message : String)
  | cancellation_error (phase : CancelPhase)
  | executed (result : ρ)
  | infrastructure_error

structure ToolCall (ν : Type) where
  scope : Scope
  context : McpRequestContext
  name : String
  input : Value ν
  idempotency_key : Option String
  connection_id : Option String
  request_id : String

/-- What the handler does next; `selecting`, `joining` and `executing` wait. Without a
task the handler polls the executor itself, and `invoked` says that it has. -/
inductive Handler (ν ρ : Type)
  | selecting
  | set_connection (connection : Connection)
  | begin_dispatch (request : ExecuteRequest ν)
  | joining
  | executing (request : ExecuteRequest ν) (invoked : Bool)
  | returned (payload : Payload ρ)
  | dropped

/-- What the spawned task does next. It makes its `ExecutionGuard` when it is polled
first, so a task in `spawned` has none. -/
inductive Task (ν ρ : Type)
  | absent
  | spawned (request : ExecuteRequest ν)
  | executing (request : ExecuteRequest ν)
  | finished (accepted : Bool) (result : ρ)
  | dropped

inductive Observed (ν ρ : Type)
  | begun
  | invoked (request : ExecuteRequest ν)
  | cancelled (phase : CancelPhase)
  | answered (payload : Payload ρ)

structure Call (ν ρ : Type) where
  id : ℕ
  key : RequestKey
  scope : Scope
  context : McpRequestContext
  connector : String
  operation : String
  connection_id : Option String
  idempotency_key : String
  input : Value ν
  entry : InFlightEntry
  handler : Handler ν ρ
  task : Task ν ρ
  aborted : Bool
  observed : List (Observed ν ρ)

/-- A step of a call, and whether its entry leaves the registry. -/
structure Turn (ν ρ : Type) where
  call : Call ν ρ
  removed : Bool

namespace Call

def stay (c : Call ν ρ) : Turn ν ρ := ⟨c, false⟩

def goes (c : Call ν ρ) (handler : Handler ν ρ) : Turn ν ρ := ⟨{ c with handler }, false⟩

/-- The handler returns, and drops its registration. -/
def answer (c : Call ν ρ) (payload : Payload ρ) : Turn ν ρ :=
  ⟨{ c with
      handler := .returned payload
      observed := c.observed ++ [.answered payload] },
    c.entry.can_cleanup_on_drop⟩

def cancellation_payload (c : Call ν ρ) : Payload ρ :=
  .cancellation_error (c.entry.cancellation_phase.getD .AfterDispatch)

/-- `connections.list` has answered, and the connection is selected. -/
def selected (c : Call ν ρ) (listed : Option (List Connection)) : Turn ν ρ :=
  match c.handler, listed with
  | .selecting, none => c.answer .infrastructure_error
  | .selecting, some connections =>
    match select_connection c.scope c.connector c.connection_id connections with
    | .error error => c.answer (.tool_error error.code error.message)
    | .ok connection => c.goes (.set_connection connection)
  | _, _ => c.stay

def request (c : Call ν ρ) (connection : Connection) : ExecuteRequest ν where
  project_id := c.scope.project_id
  connection_id := connection.id
  external_account_id := c.scope.account_id
  admin_scope := false
  action := c.operation
  idempotency_key := c.idempotency_key
  input := c.input
  caller_credential := c.scope.connector_token

/-- The handler's steps from the selected connection to the execution. -/
def advance (c : Call ν ρ) : Turn ν ρ :=
  match c.handler with
  | .set_connection connection =>
    match c.entry.set_connection connection.id with
    | (entry, true) =>
      { c with entry := entry }.goes (.begin_dispatch (c.request connection))
    | (_, false) => c.answer c.cancellation_payload
  | .begin_dispatch request =>
    match c.entry.begin_dispatch with
    | (entry, true) =>
      let begun : Call ν ρ :=
        { c with entry := entry, observed := c.observed ++ [.begun] }
      if c.context.durable_cancellation = true then
        { begun with task := .spawned request }.goes .joining
      else begun.goes (.executing request false)
    | (_, false) => c.answer c.cancellation_payload
  | _ => c.stay

/-- The handler is polled where it waits: it looks for a cancellation first. A task that
is left behind for one goes on. -/
def poll (c : Call ν ρ) : Turn ν ρ :=
  match c.handler with
  | .selecting =>
    if c.entry.is_cancelled = true then c.answer c.cancellation_payload else c.stay
  | .joining =>
    if c.entry.is_cancelled = true then c.answer c.cancellation_payload
    else match c.task with
      | .finished true result => c.answer (.executed result)
      | .finished false _ => c.answer c.cancellation_payload
      | .dropped => c.answer (.tool_error "ACTION_FAILED" "Tool execution failed.")
      | _ => c.stay
  | .executing request false =>
    if c.entry.is_cancelled = true then c.answer c.cancellation_payload
    else
      let invoked : Call ν ρ := { c with observed := c.observed ++ [.invoked request] }
      invoked.goes (.executing request true)
  | .executing _ true =>
    if c.entry.is_cancelled = true then c.answer c.cancellation_payload else c.stay
  | _ => c.stay

/-- The executor that the handler polls has returned: `complete`. -/
def executed (c : Call ν ρ) (result : ρ) : Turn ν ρ :=
  match c.handler with
  | .executing _ true =>
    match c.entry.complete with
    | (entry, true) => ⟨({ c with entry := entry }.answer (.executed result)).call, true⟩
    | (_, false) => c.answer c.cancellation_payload
  | _ => c.stay

/-- The task is polled first: it makes its guard and calls the executor. A task that was
aborted is not polled. -/
def poll_task (c : Call ν ρ) : Turn ν ρ :=
  match c.task with
  | .spawned request =>
    if c.aborted = true then c.stay
    else ⟨{ c with
        task := .executing request
        observed := c.observed ++ [.invoked request] }, false⟩
  | _ => c.stay

/-- The executor that the task polls has returned: `finish_execution`. The task ends, and
drops its registration. -/
def task_executed (c : Call ν ρ) (result : ρ) : Turn ν ρ :=
  match c.task with
  | .executing _ =>
    let (entry, accepted) := c.entry.finish_execution
    ⟨{ c with entry, task := .finished accepted result },
      decide (entry.lifecycle = .Completed) || entry.can_cleanup_on_drop⟩
  | _ => c.stay

/-- The task is dropped. A guard calls `abort_execution`; then its registration is
dropped. -/
def drop_task (c : Call ν ρ) : Turn ν ρ :=
  match c.task with
  | .spawned _ => ⟨{ c with task := .dropped }, c.entry.can_cleanup_on_drop⟩
  | .executing _ =>
    let (entry, ended) := c.entry.abort_execution
    ⟨{ c with entry, task := .dropped }, ended || entry.can_cleanup_on_drop⟩
  | _ => c.stay

/-- The caller's future is dropped where it waits, and with it the handle, which aborts
the task, and the registration. -/
def drop_handler (c : Call ν ρ) : Turn ν ρ :=
  match c.handler with
  | .selecting | .executing _ _ =>
    ⟨{ c with handler := .dropped }, c.entry.can_cleanup_on_drop⟩
  | .joining => ⟨{ c with handler := .dropped, aborted := true }, c.entry.can_cleanup_on_drop⟩
  | _ => c.stay

def cancel (c : Call ν ρ) (requested : Option String) : Turn ν ρ :=
  let (entry, phase) := c.entry.cancel requested
  ⟨{ c with entry, observed := c.observed ++ (phase.map Observed.cancelled).toList }, false⟩

end Call

inductive Move (ρ : Type)
  | selected (listed : Option (List Connection))
  | advance
  | poll
  | executed (result : ρ)
  | poll_task
  | task_executed (result : ρ)
  | drop_task
  | drop_handler

def Call.turn (c : Call ν ρ) : Move ρ → Turn ν ρ
  | .selected listed => c.selected listed
  | .advance => c.advance
  | .poll => c.poll
  | .executed result => c.executed result
  | .poll_task => c.poll_task
  | .task_executed result => c.task_executed result
  | .drop_task => c.drop_task
  | .drop_handler => c.drop_handler

/-! ## The server -/

/-- What a server is made with: the digest, and the operations of its connectors. -/
structure Config (ν : Type) where
  sha256 : List UInt8 → List UInt8
  operation : String → String → Option (Operation ν)

/-- The checks of `call_tool_with_key`, and the connector and the operation it is for. -/
def Config.check_call (config : Config ν) (q : ToolCall ν) :
    Except (Payload ρ) (String × String) :=
  if q.scope.project_id = "" then
    .error (.tool_error "UNAUTHORIZED" "Missing or invalid API key.")
  else if q.scope.account_id = "" then
    .error (.tool_error "MISSING_ACCOUNT_SCOPE"
      "An account scope is required to execute MCP tools.")
  else if q.idempotency_key.all valid_idempotency_key = false then
    .error (.tool_error "INVALID_TOOL_INPUT" "Invalid idempotency key.")
  else if q.connection_id.all valid_connection_id = false then
    .error (.tool_error "INVALID_TOOL_INPUT" "Invalid connection ID.")
  else match decode_tool_name q.name with
    | none => .error (.tool_error "UNKNOWN_TOOL" "Unknown tool.")
    | some (connector, operation) =>
      if (config.operation connector operation).any Operation.has_tool_schema = false then
        .error (.tool_error "UNKNOWN_TOOL" "Unknown tool.")
      else if tool_allowed q.scope.profile connector operation = false then
        .error (.tool_error "TOOL_NOT_ALLOWED"
          "Tool is not allowed for this capability profile.")
      else .ok (connector, operation)

/-- The key a request is registered under. -/
def Config.key (config : Config ν) (scope : Scope) (context : McpRequestContext)
    (request_id : String) : RequestKey :=
  ⟨ScopeKey.from_scope config.sha256 scope context, request_id⟩

def Config.new_call (config : Config ν) (id : ℕ) (q : ToolCall ν)
    (tool : String × String) : Call ν ρ where
  id := id
  key := config.key q.scope q.context q.request_id
  scope := q.scope
  context := q.context
  connector := tool.1
  operation := tool.2
  connection_id := q.connection_id
  idempotency_key := q.idempotency_key.getD ""
  input := q.input
  entry := InFlightEntry.new q.connection_id
  handler := .selecting
  task := .absent
  aborted := false
  observed := []

/-- The registry, and the calls that were registered. -/
structure InFlight (ν ρ : Type) where
  registry : InFlightRegistry
  calls : Table (Call.id : Call ν ρ → ℕ)

namespace InFlight

def new (capacity : ℕ) : InFlight ν ρ := ⟨InFlightRegistry.new capacity, Table.empty⟩

/-- `call_tool_with_key` as far as it goes without waiting, for a new call `id`. A call
that is not registered is answered, and leaves the state as it is. -/
def call (config : Config ν) (s : InFlight ν ρ) (id : ℕ) (q : ToolCall ν) :
    Except (Payload ρ) (InFlight ν ρ) :=
  match config.check_call q with
  | .error payload => .error payload
  | .ok tool =>
    let c : Call ν ρ := config.new_call id q tool
    match s.registry.register c.key id with
    | .error .Capacity =>
      .error (.tool_error "MCP_REQUEST_CAPACITY"
        "Too many MCP tool requests are in flight; retry shortly.")
    | .error .Duplicate =>
      .error (.tool_error "MCP_REQUEST_IN_FLIGHT"
        "An MCP tool request with this ID is already in flight.")
    | .ok registry => .ok { registry, calls := (s.calls.insert c).getD s.calls }

def take (s : InFlight ν ρ) (t : Turn ν ρ) : InFlight ν ρ where
  registry :=
    if t.removed = true then s.registry.remove_if_same t.call.key t.call.id else s.registry
  calls := s.calls.modify t.call.id
    (fun c => { t.call with id := c.id }) (fun _ => rfl)

/-- The call whose entry is registered under a key. -/
def registered (s : InFlight ν ρ) (key : RequestKey) : Option (Call ν ρ) :=
  (s.registry.entries.find key).bind (fun row => s.calls.find row.2)

def cancel (s : InFlight ν ρ) (key : RequestKey) (connection_id : Option String) :
    InFlight ν ρ :=
  match s.registered key with
  | none => s
  | some c => s.take (c.cancel connection_id)

end InFlight

/-- A request, a step of one of its threads, or a cancellation. -/
inductive Op (ν ρ : Type)
  | call (id : ℕ) (q : ToolCall ν)
  | move (id : ℕ) (m : Move ρ)
  | cancel (scope : Scope) (context : McpRequestContext) (request_id : String)
    (connection_id : Option String)

/-- One step. An id is given to one call. -/
def step (config : Config ν) (s : InFlight ν ρ) : Op ν ρ → InFlight ν ρ
  | .call id q =>
    match s.calls.find id with
    | some _ => s
    | none =>
      match s.call config id q with
      | .error _ => s
      | .ok s' => s'
  | .move id m =>
    match s.calls.find id with
    | none => s
    | some c => s.take (c.turn m)
  | .cancel scope context request_id connection_id =>
    s.cancel (config.key scope context request_id) connection_id

end Appcall.Mcp
