/-
Runs of the events: webhooks, the owners of connections and any number of workers on one
database.

`accept_checked` is a step. A run of `dispatch_pending` takes and settles one row after
another; the row it has taken is locked until it is settled or the run dies. A run of the
system keeps what was dispatched, with the result, so that the rows can be held against
it.
-/
import Appcall.Events.Store

set_option autoImplicit false

namespace Appcall.Events

open Appcall.Oauth (Connection Marker Intent bump_connection_generation)

/-- The row a run has taken, joined with its event. -/
structure Held where
  event : WebhookEvent
  attempts : ℕ

/-- A run of `dispatch_pending`. -/
structure DispatchRun where
  worker : ℕ
  left : ℕ
  report : DispatchReport
  held : Option Held

def DispatchRun.take (h : Held) (r : DispatchRun) : DispatchRun := { r with held := some h }

/-- A dispatch that was committed: a success, or a failure that was written down. -/
structure Dispatch where
  event : String × String
  completed : Bool
  deriving DecidableEq

structure System where
  db : Database
  runs : Table DispatchRun.worker
  dispatches : List Dispatch
  reports : List (ℕ × Except Error DispatchReport)

def Database.empty : Database where
  connections := Table.empty
  webhook_events := {
    table := Table.empty
    identity := by
      intro e he
      cases he
    position := by
      intro e he
      cases he }
  webhook_outbox := Table.empty
  usage_events := Table.empty
  usage_monthly_rollups := Table.empty
  jobs := []

def System.init : System := ⟨Database.empty, Table.empty, [], []⟩

inductive Op where
  | connect (c : Connection)
  | update_connection (id : String) (marker : Option Marker) (intent : Option (Intent String))
      (new : Connection)
  | accept (now position : ℤ) (drawn : List Uuid) (claims : WebhookClaims)
      (parsed : ParsedWebhook) (expected : Option Connection) (expected_revision : Option ℕ)
  | dispatch_pending (worker limit : ℕ)
  | take (worker : ℕ) (now : ℤ)
  | settle (worker : ℕ) (now : ℤ) (id : Uuid) (sink : Except Error Unit) (stored committed : Bool)
  | crash (worker : ℕ)

/-! ## Connections -/

/-- `INSERT INTO connections` -/
def Database.connect (db : Database) (c : Connection) : Database :=
  match db.connections.insert ⟨c, 1, 1⟩ with
  | none => db
  | some connections => { db with connections }

/-- The row after an update, which the triggers number. -/
def updated_row (marker : Option Marker) (intent : Option (Intent String)) (new : Connection)
    (r : ConnectionRow) : ConnectionRow :=
  let next : Connection :=
    { new with id := r.connection.id, project_id := r.connection.project_id }
  { connection := next
    connection_revision := r.connection_revision + 1
    connection_generation :=
      bump_connection_generation marker intent r.connection next r.connection_generation }

/-- `UPDATE connections` -/
def Database.update_connection (db : Database) (id : String) (marker : Option Marker)
    (intent : Option (Intent String)) (new : Connection) : Database :=
  let update := updated_row marker intent new
  { db with connections := db.connections.modify id update (fun _ => rfl) }

/-! ## Runs of the outbox -/

def System.locked (s : System) (key : String × String) : Bool :=
  s.runs.rows.any (fun r => r.held.any (fun h => decide (h.event.key = key)))

/-- The position of the event of a row. -/
def Database.position (db : Database) (o : Outbox) : ℤ :=
  (db.webhook_events.table.find o.key).elim 0 (·.stream_position)

/-- `ORDER BY o.next_attempt_at,e.stream_position` -/
def Database.earlier (db : Database) (o o' : Outbox) : Prop :=
  toLex (o.next_attempt_at, db.position o) ≤ toLex (o'.next_attempt_at, db.position o')

instance (db : Database) : DecidableRel db.earlier :=
  fun o o' => inferInstanceAs (Decidable (toLex (o.next_attempt_at, db.position o)
    ≤ toLex (o'.next_attempt_at, db.position o')))

/-- The first row that is due and that nobody has locked, with its event. -/
def System.next_row (s : System) (now : ℤ) : Option Held :=
  let due (o : Outbox) : Bool := decide (o.status = .pending ∧ o.dispatched_at = none
    ∧ o.next_attempt_at ≤ now) && (s.db.webhook_events.table.find o.key).isSome
    && !s.locked o.key
  (s.db.webhook_outbox.select due s.db.earlier 1).head?.bind fun o =>
    (s.db.webhook_events.table.find o.key).map (fun e => ⟨e, o.attempts⟩)

def System.finish (s : System) (worker : ℕ) (report : Except Error DispatchReport) : System :=
  { s with
    runs := s.runs.delete (fun r => decide (r.worker = worker))
    reports := s.reports ++ [(worker, report)] }

/-- The transaction of the run has committed, and it goes on. -/
def System.settled (s : System) (worker : ℕ) (db : Database) (d : Dispatch)
    (report : DispatchReport → DispatchReport) : System :=
  let next (r : DispatchRun) : DispatchRun :=
    { r with left := r.left - 1, report := report r.report, held := none }
  { s with
    db
    runs := s.runs.modify worker next (fun _ => rfl)
    dispatches := s.dispatches ++ [d] }

/-- `report.completed += 1` -/
def DispatchReport.succeed (r : DispatchReport) : DispatchReport :=
  { r with completed := r.completed + 1 }

/-- `report.failed += 1`, and `report.dead_lettered += 1` at the tenth attempt. -/
def DispatchReport.fail (attempts : ℕ) (r : DispatchReport) : DispatchReport :=
  { r with
    failed := r.failed + 1
    dead_lettered := r.dead_lettered + if 10 ≤ min (attempts + 1) 10 then 1 else 0 }

/-- The update of the outbox after a dispatch that failed. -/
def Database.fail (db : Database) (now : ℤ) (h : Held) (err : Error) : Database :=
  let fail := Outbox.fail now h.attempts (dispatch_error_code err)
  let webhook_outbox := db.webhook_outbox.modify h.event.key fail (fail_key now h.attempts _)
  { db with webhook_outbox }

/-- The end of the transaction of a run. -/
def System.settle (month : ℤ → String) (s : System) (worker : ℕ) (h : Held) (now : ℤ) (id : Uuid)
    (sink : Except Error Unit) (stored : Bool) : System :=
  match s.db.dispatch month now id h.event.toEvent sink stored with
  | .ok db => s.settled worker db ⟨h.event.key, true⟩ DispatchReport.succeed
  | .error err =>
    s.settled worker (s.db.fail now h err) ⟨h.event.key, false⟩ (DispatchReport.fail h.attempts)

/-- One step. A transaction that fails changes nothing. -/
def step (month : ℤ → String) (s : System) : Op → System
  | .connect c => { s with db := s.db.connect c }
  | .update_connection id marker intent new =>
    { s with db := s.db.update_connection id marker intent new }
  | .accept now position drawn claims parsed expected expected_revision =>
    let accepted :=
      s.db.accept_checked now position drawn claims parsed expected expected_revision
    { s with db := commit s.db accepted }
  | .dispatch_pending worker limit =>
    let limit := if limit = 0 then 100 else min limit 1000
    { s with runs := (s.runs.insert ⟨worker, limit, ⟨0, 0, 0⟩, none⟩).getD s.runs }
  | .take worker now =>
    match s.runs.find worker with
    | none => s
    | some r =>
      if r.held.isSome then s
      else if r.left = 0 then s.finish worker (.ok r.report)
      else match s.next_row now with
      | none => s.finish worker (.ok r.report)
      | some h =>
        { s with runs := s.runs.modify worker (DispatchRun.take h) (fun _ => rfl) }
  | .settle worker now id sink stored committed =>
    match (s.runs.find worker).bind DispatchRun.held with
    | none => s
    | some h =>
      if committed then s.settle month worker h now id sink stored
      else s.finish worker (.error .Storage)
  | .crash worker => { s with runs := s.runs.delete (fun r => decide (r.worker = worker)) }

end Appcall.Events
