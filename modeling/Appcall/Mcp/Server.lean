/-
The HTTP side of the MCP server: `crates/appcall-mcp/src/server.rs`.

A body is read twice: `session_admission` decides what is asked of the session, and
`handle_with_context` what is done. One HTTP call is one step as far as it goes without
waiting, which is up to the registration of a tool call; the rest are the steps of that
call. `history` is what has happened to the sessions, the last first. The parser and the
printer of JSON and the parser of URLs are parameters.
-/
import Appcall.Mcp.Calls
import Appcall.Mcp.Session

set_option autoImplicit false

namespace Appcall.Mcp

open Chars (is_control)

variable {ν ρ : Type}

def MAX_REQUEST_BYTES : ℕ := 2 ^ 20

def MAX_MCP_REQUEST_ID_BYTES : ℕ := 256

def PROTOCOL_VERSION : String := "2025-06-18"

def MCP_PROTOCOL_VERSION_HEADER : String := "MCP-Protocol-Version"

structure Url where
  scheme : String
  has_host : Bool
  username : String
  has_password : Bool
  path : String
  has_query : Bool
  has_fragment : Bool
  origin : String

/-- What a server is made with, and the parsers it uses. -/
structure ServerConfig (ν : Type) extends Config ν where
  from_slice : List UInt8 → Option (Value ν)
  to_string : Value ν → String
  parse_url : String → Option Url
  allowed_origins : List String

/-! ## Headers -/

inductive TransportHeaderError
  | ProtocolInvalid | ProtocolUnsupported | OriginInvalid | OriginNotAllowed
  deriving DecidableEq

def TransportHeaderError.code : TransportHeaderError → String
  | .ProtocolInvalid => "MCP_PROTOCOL_VERSION_INVALID"
  | .ProtocolUnsupported => "MCP_PROTOCOL_VERSION_UNSUPPORTED"
  | .OriginInvalid => "MCP_ORIGIN_INVALID"
  | .OriginNotAllowed => "MCP_ORIGIN_NOT_ALLOWED"

def TransportHeaderError.message : TransportHeaderError → String
  | .ProtocolInvalid => "MCP-Protocol-Version must contain one valid protocol version."
  | .ProtocolUnsupported => "The requested MCP protocol version is not supported."
  | .OriginInvalid => "Origin must contain one valid browser origin."
  | .OriginNotAllowed => "The request Origin is not allowed for MCP transport."

def header_values (headers : List Header) (name : String) : List String :=
  (headers.filter (fun h => eq_ignore_ascii_case h.name name)).map Header.value

/-- The text is not its `trim`. -/
def untrimmed (s : String) : Bool :=
  s.toList.head?.any is_whitespace || s.toList.getLast?.any is_whitespace

def ServerConfig.canonical_origin (config : ServerConfig ν) (raw : String) (request : Bool) :
    Option String :=
  if raw = "" ∨ untrimmed raw = true ∨ eq_ignore_ascii_case raw "null" = true
      ∨ raw.toList.any is_control = true then none
  else match config.parse_url raw with
    | none => none
    | some url =>
      if ¬(url.scheme = "http" ∨ url.scheme = "https") ∨ url.has_host = false
          ∨ url.username ≠ "" ∨ url.has_password = true then none
      else if request = true ∧ ((url.path ≠ "" ∧ url.path ≠ "/") ∨ url.has_query = true
          ∨ url.has_fragment = true) then none
      else some url.origin

def ServerConfig.validate_headers (config : ServerConfig ν) (headers : List Header) :
    Except TransportHeaderError Unit := do
  match header_values headers MCP_PROTOCOL_VERSION_HEADER with
  | [] => pure ()
  | [value] =>
    if value = PROTOCOL_VERSION then pure ()
    else if untrimmed value = true ∨ value = "" then throw .ProtocolInvalid
    else throw .ProtocolUnsupported
  | _ => throw .ProtocolInvalid
  match header_values headers "Origin" with
  | [] => pure ()
  | [value] =>
    match config.canonical_origin value true with
    | none => throw .OriginInvalid
    | some origin =>
      if config.allowed_origins.contains origin = true then pure ()
      else throw .OriginNotAllowed
  | _ => throw .OriginInvalid

/-! ## Bodies -/

structure CallParams (ν : Type) where
  name : String
  arguments : Value ν
  idempotency_key : Option String
  connection_id : Option String

def CallParams.default : CallParams ν := ⟨"", .object [], none, none⟩

def optional_string : Option (Value ν) → Option (Option String)
  | none => some none
  | some (.string s) => some (some s)
  | some _ => none

/-- `CallParams` of its fields: a field that is there has its type. -/
def CallParams.of_fields (name arguments idempotency_key connection_id : Option (Value ν)) :
    Option (CallParams ν) := do
  let name ← optional_string name
  let idempotency_key ← optional_string idempotency_key
  let connection_id ← optional_string connection_id
  some ⟨name.getD "", arguments.getD (.object []), idempotency_key, connection_id⟩

/-- `from_value::<CallParams>`: of an object, or of an array of its fields. -/
def CallParams.from_value (v : Value ν) : Option (CallParams ν) :=
  match v with
  | .object _ => of_fields (v.get "name") (v.get "arguments") (v.get "idempotencyKey")
      (v.get "connectionId")
  | .array items =>
    if 4 < items.length then none
    else of_fields items[0]? items[1]? items[2]? items[3]?
  | _ => none

structure CancellationParams (ν : Type) where
  request_id : Value ν
  connection_id : Option String

/-- `CancellationParams` of its fields. -/
def CancellationParams.of_fields (request_id connection_id : Option (Value ν)) :
    Option (CancellationParams ν) := do
  let request_id ← request_id
  let connection_id ← optional_string connection_id
  some ⟨request_id, connection_id⟩

/-- `from_value::<CancellationParams>` -/
def CancellationParams.from_value (v : Value ν) : Option (CancellationParams ν) :=
  match v with
  | .object _ => of_fields (v.get "requestId") (v.get "connectionId")
  | .array items => if 2 < items.length then none else of_fields items[0]? items[1]?
  | _ => none

def ServerConfig.bounded_request_id (config : ServerConfig ν) (id : Value ν) : Option String :=
  match id with
  | .string _ | .number _ =>
    let serialized := config.to_string id
    if serialized.utf8ByteSize ≤ MAX_MCP_REQUEST_ID_BYTES then some serialized else none
  | _ => none

def validate_initialize_params (params : Option (Value ν)) : Except String Unit :=
  match params with
  | none | some .null => .ok ()
  | some (.object fields) =>
    match (Value.object fields).get "protocolVersion" with
    | none => .ok ()
    | some (.string version) =>
      if version = PROTOCOL_VERSION then .ok () else .error "Unsupported MCP protocol version."
    | some _ => .error "Unsupported MCP protocol version."
  | some _ => .error "Invalid initialize params."

def valid_call_params (params : Option (Value ν)) : Bool :=
  match params with
  | none | some .null => false
  | some params => (CallParams.from_value params).any (fun call => decide (call.name ≠ ""))

inductive SessionAdmission
  | Invalid | Notification | Request
  deriving DecidableEq

def ServerConfig.session_admission (config : ServerConfig ν) (raw : List UInt8) :
    SessionAdmission :=
  match config.from_slice raw with
  | some (.object fields) =>
    let object := Value.object fields
    match (object.get "jsonrpc").bind Value.as_str, (object.get "method").bind Value.as_str with
    | some jsonrpc, some method =>
      if jsonrpc ≠ "2.0" ∨ method = "" then .Invalid
      else match object.get "id" with
        | none => .Notification
        | some id =>
          if config.bounded_request_id id = none then .Invalid
          else if "notifications/".toList.isPrefixOf method.toList = true then .Notification
          else if method = "initialize"
              ∧ (validate_initialize_params (object.get "params")).toBool = false then .Invalid
          else if method = "tools/call" ∧ valid_call_params (object.get "params") = false then
            .Invalid
          else .Request
    | _, _ => .Invalid
  | _ => .Invalid

/-- What `handle_with_context` does with a body. -/
inductive Handled (ν : Type)
  | nothing
  | rpc_error (id : Option (Value ν)) (code : ℤ) (message : String)
  | initialize_session (id : Value ν)
  | ping (id : Value ν)
  | list_tools (id : Value ν)
  | cancel_request (params : Option (Value ν))
  | call_tool (id : Value ν) (request_id : String) (params : CallParams ν)

/-- The value is there, and is neither `null` nor a string. -/
def mistyped : Option (Value ν) → Bool
  | none | some .null | some (.string _) => false
  | some _ => true

/-- The dispatch of `handle_with_context` on the method of a request with an id. -/
def handle_method (object : Value ν) (method : String) (id : Value ν) (request_id : String) :
    Handled ν :=
  if method = "initialize" then
    match validate_initialize_params (object.get "params") with
    | .error message => .rpc_error (some id) (-32602) message
    | .ok () => .initialize_session id
  else if method = "ping" then .ping id
  else if method = "tools/list" then .list_tools id
  else if method = "tools/call" then
    let call := match object.get "params" with
      | none | some .null => some CallParams.default
      | some params => CallParams.from_value params
    match call with
    | none => .rpc_error (some id) (-32600) "Invalid tools/call params."
    | some call =>
      if call.name = "" then .rpc_error (some id) (-32600) "tools/call requires a tool name."
      else .call_tool id request_id call
  else .rpc_error (some id) (-32601) "Method not found."

/-- `handle_with_context`, up to what it calls. -/
def ServerConfig.handle_with_context (config : ServerConfig ν) (raw : List UInt8) : Handled ν :=
  match config.from_slice raw with
  | none => .rpc_error none (-32700) "Parse error."
  | some .null => .nothing
  | some request =>
    if mistyped (request.get "jsonrpc") = true ∨ mistyped (request.get "method") = true then
      .rpc_error none (-32700) "Parse error."
    else if request.is_object = false then .rpc_error none (-32700) "Parse error."
    else
      let id := request.get "id"
      let method := ((request.get "method").bind Value.as_str).getD ""
      if (request.get "jsonrpc").bind Value.as_str ≠ some "2.0" ∨ method = "" then
        match id with
        | none => .nothing
        | some id => .rpc_error (some id) (-32600) "Invalid request."
      else
        let request_id := id.map config.bounded_request_id
        if request_id = some none then
          .rpc_error (some .null) (-32600) "Invalid request ID."
        else if method = "notifications/cancelled" then .cancel_request (request.get "params")
        else if method = "notifications/initialized" then .nothing
        else match id, request_id with
          | some id, some (some request_id) => handle_method request method id request_id
          | _, _ => .nothing

/-- `cancel_request`, up to what it cancels. -/
def ServerConfig.cancel_request (config : ServerConfig ν) (params : Option (Value ν)) :
    Option (String × Option String) := do
  let params ← params.bind CancellationParams.from_value
  let request_id ← config.bounded_request_id params.request_id
  if params.connection_id.all valid_connection_id = true then
    some (request_id, params.connection_id)
  else none

/-! ## HTTP calls -/

/-- The functions of a server that an HTTP host calls. -/
inductive Entry
  | handle_http (namespace_id : ℕ)
  | handle_http_with_headers (namespace_id : ℕ) (headers : List Header)
  | handle_http_with_context (context : McpRequestContext)

structure HttpRequest where
  entry : Entry
  method : String
  scope : Scope
  body : List UInt8

def HttpRequest.context (sha256 : List UInt8 → List UInt8) (request : HttpRequest) :
    McpRequestContext :=
  match request.entry with
  | .handle_http namespace_id => McpRequestContext.legacy_http namespace_id
  | .handle_http_with_headers namespace_id headers =>
    McpRequestContext.from_headers sha256 namespace_id headers
  | .handle_http_with_context context => context

inductive Reply (ν : Type)
  | http_error (status : ℕ) (code message : String)
  | closed
  | handled (h : Handled ν)

def session_error : SessionError → Reply ν
  | .Invalid => .http_error 400 "MCP_SESSION_INVALID" "Invalid MCP session."
  | .Unknown | .Mismatch => .http_error 404 "MCP_SESSION_NOT_FOUND" "MCP session was not found."
  | .Capacity | .Quota | .Unavailable =>
    .http_error 503 "MCP_SESSION_UNAVAILABLE" "MCP session could not be established."

inductive SessionEvent
  | issued (session_id : String) (issuer : HttpRequest) (now : ℕ)
  | used (session_id : String) (now : ℕ)
  | closed (session_id : String)

/-- A server, and what has happened to its sessions. -/
structure Server (ν ρ : Type) where
  sessions : SessionRegistry
  in_flight : InFlight ν ρ
  history : List SessionEvent

namespace Server

def new_with_limits (sessions principal_quota ttl in_flight : ℕ) : Server ν ρ :=
  ⟨SessionRegistry.new_with_limits sessions principal_quota ttl, InFlight.new in_flight, []⟩

/-- The context under which a body is handled: a session that the caller names is
validated, and one is issued for a request that names none. -/
def admit_session (config : ServerConfig ν) (s : Server ν ρ) (request : HttpRequest) (now : ℕ)
    (draw : ℕ → Option Random) : Server ν ρ × Except SessionError McpRequestContext :=
  let context := request.context config.sha256
  let binding := SessionBinding.from_scope request.scope context
  match config.session_admission request.body, context.session_id with
  | .Invalid, _ => (s, .ok context)
  | _, some session_id =>
    match s.sessions.validate_at config.sha256 session_id binding now with
    | (sessions, .ok ()) =>
      ({ s with sessions, history := .used session_id now :: s.history }, .ok context)
    | (sessions, .error error) => ({ s with sessions }, .error error)
  | .Request, none =>
    if context.session_admission = true then
      match s.sessions.issue_at config.sha256 binding now draw with
      | (sessions, .ok session_id) =>
        ({ s with sessions, history := .issued session_id request now :: s.history },
          .ok (context.with_session_id session_id))
      | (sessions, .error error) => ({ s with sessions }, .error error)
    else (s, .ok context)
  | .Notification, none => (s, .ok context)

def close_session (config : ServerConfig ν) (s : Server ν ρ) (request : HttpRequest) (now : ℕ) :
    Server ν ρ × Reply ν :=
  let context := request.context config.sha256
  match context.session_id with
  | none => (s, session_error .Unknown)
  | some session_id =>
    let binding := SessionBinding.from_scope request.scope context
    match s.sessions.close_at config.sha256 session_id binding now with
    | (sessions, .ok ()) =>
      ({ s with sessions, history := .closed session_id :: s.history }, .closed)
    | (sessions, .error error) => ({ s with sessions }, session_error error)

/-- The step of the requests in flight that handling a body takes. -/
def handled_op (config : ServerConfig ν) (scope : Scope) (context : McpRequestContext)
    (call : ℕ) : Handled ν → Option (Op ν ρ)
  | .call_tool _ request_id params =>
    some (.call call
      { scope, context, name := params.name, input := params.arguments
        idempotency_key := params.idempotency_key, connection_id := params.connection_id
        request_id })
  | .cancel_request params =>
    (config.cancel_request params).map (fun p => .cancel scope context p.1 p.2)
  | _ => none

/-- `handle_with_context` on a server; a tool call that it makes is `call`. -/
def handle_with_context (config : ServerConfig ν) (s : Server ν ρ) (scope : Scope)
    (context : McpRequestContext) (body : List UInt8) (call : ℕ) : Server ν ρ :=
  match (handled_op config scope context call (config.handle_with_context body) :
      Option (Op ν ρ)) with
  | none => s
  | some op => { s with in_flight := step config.toConfig s.in_flight op }

def handle_http_with_context_inner (config : ServerConfig ν) (s : Server ν ρ)
    (request : HttpRequest) (now : ℕ) (draw : ℕ → Option Random) (call : ℕ) :
    Server ν ρ × Reply ν :=
  if request.scope.project_id = "" then
    (s, .http_error 401 "UNAUTHORIZED" "Missing or invalid API key.")
  else if request.method = "DELETE" then s.close_session config request now
  else if request.method ≠ "POST" then
    (s, .http_error 405 "METHOD_NOT_ALLOWED" "Use POST to send MCP requests.")
  else if MAX_REQUEST_BYTES < request.body.length then
    (s, .http_error 413 "REQUEST_TOO_LARGE"
      "Request body exceeded the configured size limit.")
  else match s.admit_session config request now draw with
    | (s, .error error) => (s, session_error error)
    | (s, .ok context) =>
      (s.handle_with_context config request.scope context request.body call,
        .handled (config.handle_with_context request.body))

def http (config : ServerConfig ν) (s : Server ν ρ) (request : HttpRequest) (now : ℕ)
    (draw : ℕ → Option Random) (call : ℕ) : Server ν ρ × Reply ν :=
  match request.entry with
  | .handle_http_with_headers _ headers =>
    if request.scope.project_id = "" then
      (s, .http_error 401 "UNAUTHORIZED" "Missing or invalid API key.")
    else match config.validate_headers headers with
      | .error error => (s, .http_error 400 error.code error.message)
      | .ok () => s.handle_http_with_context_inner config request now draw call
  | _ => s.handle_http_with_context_inner config request now draw call

end Server

/-- An HTTP call at a time, whose tool call, if any, is `call`; or a step of a call. -/
inductive ServerOp (ρ : Type)
  | http (request : HttpRequest) (now : ℕ) (draw : ℕ → Option Random) (call : ℕ)
  | move (id : ℕ) (m : Move ρ)

def serve (config : ServerConfig ν) (s : Server ν ρ) : ServerOp ρ → Server ν ρ
  | .http request now draw call => (s.http config request now draw call).1
  | .move id m => { s with in_flight := step config.toConfig s.in_flight (.move id m) }

end Appcall.Mcp
