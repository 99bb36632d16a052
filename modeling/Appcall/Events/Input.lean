/-
Webhooks as they come in: `crates/appcall-events/src/input.rs` and `types.rs`.

A parsed webhook is checked before it is stored, and an event that the worker can sync
from is turned into a job, by the same classification.
-/
import Appcall.Lib.Chars
import Appcall.Lib.Value
import Mathlib.Data.Nat.Notation
import Mathlib.Data.Int.Notation

set_option autoImplicit false

namespace Appcall.Events

open Chars (is_control)

/-! ## Types -/

inductive Error where
  | Invalid
  | TooLarge
  | Signature
  | Forbidden
  | NotFound
  | Conflict
  | ConfigurationRequired
  | Storage
  | Dispatch
  deriving DecidableEq

/-- A JSON value; nothing looks into its numbers. -/
abbrev Payload := Value String

structure WebhookClaims where
  project_id : String
  connector : String
  connection_id : String

/-- `ParsedWebhook`, with the length of the encoding of its payload. -/
structure ParsedWebhook where
  idempotency_key : String
  operation : String
  sanitized : Payload
  size : ℕ

/-- `Event`; times are microseconds since the epoch. -/
structure Event where
  id : String
  project_id : String
  connection_id : String
  external_account_id : String
  connector : String
  operation : String
  payload : Payload
  created_at : ℤ
  stream_position : ℤ

structure IngestResult where
  event_id : String
  duplicate : Bool

structure DispatchReport where
  completed : ℕ
  failed : ℕ
  dead_lettered : ℕ

structure SyncJob where
  event_id : String
  project_id : String
  connection_id : String
  operation : String
  dedup_key : String
  input : Payload

/-! ## Checks -/

def valid_id (id : String) : Bool :=
  !id.isEmpty && decide (id.utf8ByteSize ≤ 1024) && !id.toList.any is_control

inductive DispatchKind where
  | Sync
  | EventOnly
  deriving DecidableEq

def classify_dispatch (connector operation : String) : DispatchKind :=
  if operation = "messages.list" ∧ (connector = "slack" ∨ connector = "telegram"
      ∨ connector = "google-workspace" ∨ connector = "microsoft-365") then
    .Sync
  else .EventOnly

/-- The bytes of a channel that Slack may have given. -/
def valid_channel (candidate : String) : Bool :=
  decide (2 ≤ candidate.utf8ByteSize) && decide (candidate.utf8ByteSize ≤ 255)
    && match candidate.toList with
      | [] => false
      | c :: rest => decide (c ∈ ['C', 'D', 'G']) && rest.all (fun c => c.isUpper || c.isDigit)

/-- The channel in the values, which may be named more than once. -/
def find_channel (channel : Option String) : List Payload → Except Error (Option String)
  | [] => .ok channel
  | value :: rest =>
    if value.is_null then find_channel channel rest
    else match value.as_str with
    | none => .error .ConfigurationRequired
    | some candidate =>
      if candidate.isEmpty then find_channel channel rest
      else if valid_channel candidate = false ∨ channel.any (fun prior => prior ≠ candidate) then
        .error .ConfigurationRequired
      else find_channel (some candidate) rest

def sync_input (connector operation : String) (payload : Payload) : Except Error Payload :=
  if connector ≠ "slack" ∨ operation ≠ "messages.list" then .ok (.object [])
  else do
    let values := [payload.get "channel", payload.get "channelId",
      (payload.get "event").bind (·.get "channel")]
    match ← find_channel none (values.filterMap id) with
    | none => .error .ConfigurationRequired
    | some channel => .ok (.object [("channelId", .string channel)])

def validate_parsed (connector : String) (p : ParsedWebhook) : Except Error Unit :=
  if (p.idempotency_key ≠ "" ∧ valid_id p.idempotency_key = false) ∨ 256 < p.operation.utf8ByteSize
      ∨ p.sanitized.is_object = false then
    .error .Invalid
  else if 1024 * 1024 < p.size then .error .TooLarge
  else if classify_dispatch connector p.operation = .Sync then
    (sync_input connector p.operation p.sanitized).map (fun _ => ())
  else .ok ()

def event_job (e : Event) (dedup_key : String) : Except Error (Option SyncJob) :=
  if classify_dispatch e.connector e.operation = .EventOnly then .ok none
  else do
    let input ← sync_input e.connector e.operation e.payload
    .ok (some ⟨e.id, e.project_id, e.connection_id, e.operation, dedup_key, input⟩)

theorem event_job_eq_ok {e : Event} {key : String} {job : Option SyncJob}
    (h : event_job e key = .ok job) :
    (classify_dispatch e.connector e.operation = .EventOnly ∧ job = none)
    ∨ (classify_dispatch e.connector e.operation = .Sync
      ∧ ∃ j, job = some j ∧ j.event_id = e.id ∧ j.project_id = e.project_id
        ∧ j.dedup_key = key) := by
  rw [event_job] at h
  split at h
  next hkind =>
    cases h
    exact .inl ⟨hkind, rfl⟩
  next hkind =>
    have hsync : classify_dispatch e.connector e.operation = .Sync := by
      cases hkind' : classify_dispatch e.connector e.operation with
      | Sync => rfl
      | EventOnly => exact absurd hkind' hkind
    cases hinput : sync_input e.connector e.operation e.payload with
    | error err =>
      rw [hinput] at h
      cases h
    | ok input =>
      rw [hinput] at h
      cases h
      exact .inr ⟨hsync, _, rfl, rfl, rfl, rfl⟩

end Appcall.Events
