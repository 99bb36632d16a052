/-
Acceptance and dispatch of webhook events: `crates/appcall-events/src/store.rs`, on the
tables after all migrations, so that the probes for columns find every column.

`accept_checked` is one transaction under the lock of the project. `dispatch_pending`
takes one row of the outbox at a time in a transaction that holds its lock, with the
effects in a savepoint; between the taking of a row and the end of its transaction any
number of other transactions run. A deletion of a connection takes its events along; the
runs here delete none.
-/
import Appcall.Events.Input
import Appcall.Oauth.Connections
import Appcall.Lib.Query
import Appcall.Lib.Machine
import Mathlib.Data.Prod.Lex

set_option autoImplicit false

namespace Appcall.Events

open Chars (is_control)
open Appcall.Oauth (Connection Marker Intent bump_connection_generation)

/-! ## Tables -/

/-- A row of `connections`. -/
structure ConnectionRow where
  connection : Connection
  connection_revision : ℕ
  connection_generation : ℕ

def ConnectionRow.id (c : ConnectionRow) : String := c.connection.id

/-- A row of `webhook_events`. -/
structure WebhookEvent extends Event where
  connection_revision : ℕ
  connection_generation : ℕ
  provider_event_key : Option String

/-- `PRIMARY KEY (project_id, id)` -/
def WebhookEvent.key (e : WebhookEvent) : String × String := (e.project_id, e.id)

/-- `webhook_events_provider_event_generation_identity`, which has the rows with a key. -/
def WebhookEvent.provider_identity (e : WebhookEvent) :
    Option (String × String × String × ℕ × String) :=
  (e.provider_event_key.filter (fun key => decide (key ≠ ""))).map
    (fun key => (e.project_id, e.connector, e.connection_id, e.connection_generation, key))

/-- The events, with their unique indexes. -/
structure WebhookEvents where
  table : Table WebhookEvent.key
  identity : ∀ e ∈ table.rows, ∀ e' ∈ table.rows, e.provider_identity ≠ none →
    e.provider_identity = e'.provider_identity → e = e'
  position : ∀ e ∈ table.rows, ∀ e' ∈ table.rows,
    e.stream_position = e'.stream_position → e = e'

/-- `webhook_outbox_status_valid` -/
inductive OutboxStatus where
  | pending
  | dispatched
  | dead_letter
  deriving DecidableEq

/-- A row of `webhook_outbox`, with `webhook_outbox_status_consistent`. -/
structure Outbox where
  project_id : String
  event_id : String
  dispatched_at : Option ℤ
  next_attempt_at : ℤ
  attempts : ℕ
  status : OutboxStatus
  last_error_code : String
  dead_lettered_at : Option ℤ
  consistent : (status = .pending ∧ dispatched_at = none ∧ dead_lettered_at = none)
    ∨ (status = .dispatched ∧ dispatched_at ≠ none ∧ dead_lettered_at = none)
    ∨ (status = .dead_letter ∧ dispatched_at = none ∧ dead_lettered_at ≠ none)

def Outbox.key (o : Outbox) : String × String := (o.project_id, o.event_id)

/-- A row of `usage_events`. -/
structure UsageEvent where
  id : String
  project_id : String
  kind : String
  occurred_at : ℤ
  external_account_id : String
  quantity : ℤ
  metering_event_key : String

/-- `usage_events_metering_identity` -/
def UsageEvent.key (u : UsageEvent) : String × String := (u.project_id, u.metering_event_key)

/-- A row of `usage_monthly_rollups`. -/
structure Rollup where
  project_id : String
  external_account_id : String
  month : String
  kind : String
  quantity : ℤ

def Rollup.key (r : Rollup) : String × String × String × String :=
  (r.project_id, r.external_account_id, r.month, r.kind)

/-- The tables, and the jobs that the sink has scheduled. -/
structure Database where
  connections : Table ConnectionRow.id
  webhook_events : WebhookEvents
  webhook_outbox : Table Outbox.key
  usage_events : Table UsageEvent.key
  usage_monthly_rollups : Table Rollup.key
  jobs : List SyncJob

/-- `INSERT INTO webhook_events`, when the primary key is new. -/
def WebhookEvents.insert (t : WebhookEvents) (e : WebhookEvent) : Option WebhookEvents :=
  if h : ∀ e' ∈ t.table.rows, e'.stream_position ≠ e.stream_position
      ∧ (e.provider_identity = none ∨ e'.provider_identity ≠ e.provider_identity) then
    match htable : t.table.insert e with
    | none => none
    | some table => some {
        table := table
        identity := by
          rw [(Table.insert_eq_some htable).2]
          intro r hr r' hr' hsome heq
          rw [List.mem_append, List.mem_singleton] at hr hr'
          rcases hr with hr | rfl <;> rcases hr' with hr' | rfl
          · exact t.identity r hr r' hr' hsome heq
          · exact ((h r hr).2.elim (fun hnone => hsome (heq.trans hnone)) fun hne => hne heq).elim
          · exact ((h r' hr').2.elim (fun hnone => hsome hnone) fun hne => hne heq.symm).elim
          · rfl
        position := by
          rw [(Table.insert_eq_some htable).2]
          intro r hr r' hr' heq
          rw [List.mem_append, List.mem_singleton] at hr hr'
          rcases hr with hr | rfl <;> rcases hr' with hr' | rfl
          · exact t.position r hr r' hr' heq
          · exact ((h r hr).1 heq).elim
          · exact ((h r' hr').1 heq.symm).elim
          · rfl }
  else none

variable {t' : WebhookEvents}

theorem insert_events_eq_some {t : WebhookEvents} {e : WebhookEvent} (h : t.insert e = some t') :
    t.table.find e.key = none ∧ t'.table.rows = t.table.rows ++ [e] := by
  rw [WebhookEvents.insert] at h
  split at h
  next =>
    split at h
    next => cases h
    next table htable =>
      cases h
      exact Table.insert_eq_some htable
  next => cases h

theorem find_insert_events {t : WebhookEvents} {e : WebhookEvent} (h : t.insert e = some t')
    (key : String × String) : t'.table.find key = if key = e.key then some e
      else t.table.find key := by
  rw [WebhookEvents.insert] at h
  split at h
  next =>
    split at h
    next => cases h
    next table htable =>
      cases h
      exact Table.find_insert htable key
  next => cases h

/-! ## Acceptance -/

/-- `Uuid::new_v4().simple()` -/
structure Uuid where
  simple : String
  size : simple.utf8ByteSize = 32
  plain : simple.toList.any is_control = false

/-- The connection of a webhook, which is read for update; `expected` and
`expected_revision` are what the caller saw of it before. -/
def Database.accepting_connection (db : Database) (claims : WebhookClaims)
    (parsed : ParsedWebhook) (expected : Option Connection) (expected_revision : Option ℕ) :
    Except Error ConnectionRow := do
  if valid_id claims.project_id = false ∨ valid_id claims.connection_id = false
      ∨ valid_id claims.connector = false then
    .error .Invalid
  else
    validate_parsed claims.connector parsed
    match db.connections.find claims.connection_id with
    | none => .error .NotFound
    | some snapshot =>
      let c := snapshot.connection
      if c.project_id ≠ claims.project_id ∨ c.connector ≠ claims.connector
          ∨ c.status ≠ .Active then
        .error .NotFound
      else if expected_revision.any (fun r => r ≠ snapshot.connection_revision) then
        .error .Conflict
      else if expected.any (fun e => decide (e.project_id ≠ claims.project_id
          ∨ e.id ≠ claims.connection_id ∨ e.connector ≠ claims.connector ∨ e.status ≠ .Active
          ∨ e.external_account_id ≠ c.external_account_id ∨ e.secret_ref_id ≠ c.secret_ref_id
          ∨ e.auth_type ≠ c.auth_type ∨ e.credential_owner ≠ c.credential_owner)) then
        .error .Conflict
      else .ok snapshot

/-- `fresh_public_id`, over the ids that are drawn. -/
def Database.fresh_public_id (db : Database) (project_id : String) (drawn : List Uuid) :
    Except Error String :=
  match (drawn.take 8).find?
      (fun u => (db.webhook_events.table.find (project_id, "wh_" ++ u.simple)).isNone) with
  | none => .error .Storage
  | some u => .ok ("wh_" ++ u.simple)

/-- A new event and its row of the outbox. -/
def Database.insert_event (db : Database) (now position : ℤ) (drawn : List Uuid)
    (claims : WebhookClaims) (parsed : ParsedWebhook) (snapshot : ConnectionRow)
    (provider_event_key : Option String) : Except Error (IngestResult × Database) := do
  let id ← db.fresh_public_id claims.project_id drawn
  let brand := snapshot.connection.external_account_id
  let e : WebhookEvent := {
    id := id
    project_id := claims.project_id
    connection_id := claims.connection_id
    external_account_id := brand
    connector := claims.connector
    operation := parsed.operation
    payload := parsed.sanitized
    created_at := now
    stream_position := position
    connection_revision := snapshot.connection_revision
    connection_generation := snapshot.connection_generation
    provider_event_key := provider_event_key }
  match db.webhook_events.table.find e.key with
  | some prior =>
    if prior.connection_id ≠ claims.connection_id ∨ prior.connector ≠ claims.connector
        ∨ prior.external_account_id ≠ brand then
      .error .Conflict
    else .ok (⟨id, true⟩, db)
  | none =>
    match db.webhook_events.insert e,
      db.webhook_outbox.insert ⟨claims.project_id, id, none, now, 0, .pending, "", none,
        .inl ⟨rfl, rfl, rfl⟩⟩ with
    | some webhook_events, some webhook_outbox =>
      .ok (⟨id, false⟩, { db with webhook_events, webhook_outbox })
    | _, _ => .error .Storage

/-- The event that a provider key was stored with. -/
def Database.prior (db : Database) (claims : WebhookClaims) (generation : ℕ) (key : String) :
    Option WebhookEvent :=
  db.webhook_events.table.rows.find? (fun e => decide (e.project_id = claims.project_id
    ∧ e.connector = claims.connector ∧ e.connection_id = claims.connection_id
    ∧ e.connection_generation = generation ∧ e.provider_event_key = some key))

/-- `accept_checked`; `now` is the start of the transaction and `position` what the sequence
gives to the row. -/
def Database.accept_checked (db : Database) (now position : ℤ) (drawn : List Uuid)
    (claims : WebhookClaims) (parsed : ParsedWebhook) (expected : Option Connection)
    (expected_revision : Option ℕ) : Except Error (IngestResult × Database) := do
  let snapshot ← db.accepting_connection claims parsed expected expected_revision
  let key := parsed.idempotency_key
  if key = "" then db.insert_event now position drawn claims parsed snapshot none
  else match db.prior claims snapshot.connection_generation key with
  | some prior =>
    if prior.external_account_id ≠ snapshot.connection.external_account_id then .error .Conflict
    else .ok (⟨prior.id, true⟩, db)
  | none =>
    -- A row without a key may be the same event of an older schema.
    if (db.webhook_events.table.find (claims.project_id, key)).any
        (fun prior => prior.provider_event_key.isNone) then
      .error .Conflict
    else db.insert_event now position drawn claims parsed snapshot (some key)

/-! ## Dispatch -/

def dispatch_error_code : Error → String
  | .NotFound | .Conflict => "CONNECTION_UNAVAILABLE"
  | .ConfigurationRequired => "CONFIGURATION_REQUIRED"
  | .Dispatch => "DISPATCH_FAILED"
  | .Storage => "STORAGE_ERROR"
  | .Invalid | .TooLarge => "INVALID_EVENT"
  | .Signature | .Forbidden => "AUTHORIZATION_FAILED"

def Database.ensure_current_connection (db : Database) (e : Event) : Except Error Unit :=
  match db.connections.find e.connection_id with
  | none => .error .NotFound
  | some c =>
    if c.connection.project_id = e.project_id ∧ c.connection.connector = e.connector
        ∧ c.connection.status = .Active
        ∧ c.connection.external_account_id = e.external_account_id then
      .ok ()
    else .error .NotFound

/-- The usage of a webhook, which counts when its key is new; `month` is
`to_char(occurred_at AT TIME ZONE 'UTC','YYYY-MM')`. -/
def Database.meter (month : ℤ → String) (db : Database) (id : Uuid) (e : Event) : Database :=
  let u : UsageEvent := ⟨"usage_" ++ id.simple, e.project_id, "webhook_event", e.created_at,
    e.external_account_id, 1, "usage_webhook_" ++ e.id⟩
  match db.usage_events.insert u with
  | none => db
  | some usage_events =>
    let r : Rollup := ⟨u.project_id, u.external_account_id, month u.occurred_at, u.kind,
      u.quantity⟩
    { db with
      usage_events
      usage_monthly_rollups := db.usage_monthly_rollups.upsert r
        (fun old => { old with quantity := old.quantity + r.quantity }) (fun _ => rfl) }

/-- `SET dispatched_at=clock_timestamp(),status='dispatched',last_error_code=''` -/
def Outbox.complete (now : ℤ) (o : Outbox) : Outbox :=
  { o with
    dispatched_at := some now
    status := .dispatched
    last_error_code := ""
    dead_lettered_at := none
    consistent := .inr (.inl ⟨rfl, Option.some_ne_none _, rfl⟩) }

theorem complete_key (now : ℤ) (o : Outbox) : (o.complete now).key = o.key := rfl

/-- The end of the savepoint: the usage and the row of the outbox. -/
def Database.complete (month : ℤ → String) (db : Database) (now : ℤ) (id : Uuid) (e : Event) :
    Database :=
  let db := db.meter month id e
  let complete := Outbox.complete now
  { db with
    webhook_outbox := db.webhook_outbox.modify (e.project_id, e.id) complete (complete_key now) }

/-- The job of the event, if it has one; `sink` is the answer of the sink. -/
def Database.schedule (db : Database) (e : Event) (sink : Except Error Unit) :
    Except Error Database := do
  match ← event_job e ("webhook:" ++ e.id) with
  | none => .ok db
  | some job =>
    db.ensure_current_connection e
    sink
    .ok { db with jobs := db.jobs ++ [job] }

/-- `dispatch`; `stored` says whether the writes after the job go through. -/
def Database.dispatch (month : ℤ → String) (db : Database) (now : ℤ) (id : Uuid) (e : Event)
    (sink : Except Error Unit) (stored : Bool) : Except Error Database := do
  let db ← db.schedule e sink
  if stored then .ok (db.complete month now id e) else .error .Storage

/-- The update of a row whose dispatch failed; `attempts` is what was read of it, when its
`dispatched_at` was NULL. -/
def Outbox.fail (now : ℤ) (attempts : ℕ) (code : String) (o : Outbox) : Outbox :=
  let next_attempt := min (attempts + 1) 10
  if 10 ≤ next_attempt then
    { o with
      attempts := next_attempt
      dispatched_at := none
      status := .dead_letter
      last_error_code := code
      dead_lettered_at := some now
      next_attempt_at := now
      consistent := .inr (.inr ⟨rfl, rfl, Option.some_ne_none _⟩) }
  else
    { o with
      attempts := next_attempt
      dispatched_at := none
      status := .pending
      last_error_code := code
      dead_lettered_at := none
      next_attempt_at := now + min 300 (2 ^ attempts) * 1000000
      consistent := .inl ⟨rfl, rfl, rfl⟩ }

theorem fail_key (now : ℤ) (attempts : ℕ) (code : String) (o : Outbox) :
    (o.fail now attempts code).key = o.key := by
  rw [Outbox.fail]
  split <;> rfl

end Appcall.Events
