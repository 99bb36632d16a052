/-
Reading the events: `page` of `crates/appcall-events/src/store.rs`.

The stream goes forward by position. The history goes back by time and id, and its first
page says where the stream stands: at the last position of the project and the brand,
whatever the filter. The cursor of a stream may also be a place in the history, which
bounds the first page from there.
-/
import Appcall.Events.Cursor
import Appcall.Events.System

set_option autoImplicit false

namespace Appcall.Events

/-! ## Requests -/

inductive Grant where
  | All
  | Only (values : List String)
  deriving DecidableEq

def Grant.permits (g : Grant) (value : String) : Bool :=
  match g with
  | .All => true
  | .Only values => values.contains value

/-- `Principal`, what is read of it here. -/
structure Principal where
  project_id : String
  brand_id : Option String
  allowed_brands : Grant
  scopes : Grant

structure ListRequest where
  cursor : String
  limit : ℕ
  connection_id : String
  connector : String
  operation : String

structure EventPage where
  events : List Event
  next_cursor : String
  has_more : Bool
  snapshot_cursor : String

def authorize (p : Principal) : Except Error Unit :=
  if valid_id p.project_id = false ∨ p.scopes.permits "events:read" = false then
    .error .Forbidden
  else match p.brand_id with
  | some brand =>
    if valid_id brand = true ∧ p.allowed_brands.permits brand = true then .ok ()
    else .error .Forbidden
  | none => if p.allowed_brands = .All then .ok () else .error .Forbidden

/-- The project of the principal, and its brand if it has one. -/
def Principal.owns (p : Principal) (e : WebhookEvent) : Bool :=
  decide (e.project_id = p.project_id) && p.brand_id.all (fun b => e.external_account_id = b)

/-- The filters of the request; an empty one lets everything through. -/
def ListRequest.selects (r : ListRequest) (p : Principal) (e : WebhookEvent) : Bool :=
  p.owns e && decide (r.connection_id = "" ∨ e.connection_id = r.connection_id)
    && decide (r.connector = "" ∨ e.connector = r.connector)
    && decide (r.operation = "" ∨ e.operation = r.operation)

/-- `(created_at,id)` -/
def WebhookEvent.place (e : WebhookEvent) : ℤ ×ₗ String := toLex (e.created_at, e.id)

/-- Where a cursor begins: behind a position, and a place if it is one of the history. -/
structure Start where
  position : ℤ
  at_place : Option (ℤ × String)

def start (k : Chrono) (forward : Bool) (cursor : String) : Except Error Start :=
  if cursor = "" then .ok ⟨0, none⟩
  else match decode k cursor with
  | .error e => .error e
  | .ok (.Position n) => if forward then .ok ⟨n, none⟩ else .error .Invalid
  | .ok (.Time time key) => .ok ⟨0, some (time, key)⟩

def ListRequest.size (r : ListRequest) (forward : Bool) : ℕ :=
  if r.limit = 0 then (if forward then 100 else 50) else min r.limit 100

/-! ## Pages -/

/-- `stream_position>$6 AND ($7 IS NULL OR (created_at,id)>($7,$8))` -/
def Start.before (s : Start) (e : WebhookEvent) : Bool :=
  decide (s.position < e.stream_position) && s.at_place.all (fun a => toLex a < e.place)

/-- `stream_position>$6 AND ($7 IS NULL OR (created_at,id)<($7,$8))` -/
def Start.behind (s : Start) (e : WebhookEvent) : Bool :=
  decide (s.position < e.stream_position) && s.at_place.all (fun a => e.place < toLex a)

/-- The last event of the project and the brand. -/
def Database.snapshot (db : Database) (p : Principal) : Option WebhookEvent :=
  (db.webhook_events.table.select p.owns
    (fun e e' => e'.stream_position ≤ e.stream_position) 1).head?

def Database.stream_rows (db : Database) (p : Principal) (r : ListRequest) (s : Start) :
    List WebhookEvent :=
  db.webhook_events.table.select (fun e => r.selects p e && s.before e)
    (fun e e' => e.stream_position ≤ e'.stream_position) (r.size true + 1)

def Database.history_rows (db : Database) (p : Principal) (r : ListRequest) (s : Start) :
    List WebhookEvent :=
  db.webhook_events.table.select (fun e => r.selects p e && s.behind e)
    (fun e e' => e'.place ≤ e.place) (r.size false + 1)

def Database.stream (k : Chrono) (db : Database) (p : Principal) (r : ListRequest) :
    Except Error EventPage := do
  authorize p
  let s ← start k true r.cursor
  let rows := db.stream_rows p r s
  let events := (rows.take (r.size true)).map WebhookEvent.toEvent
  .ok {
    events := events
    next_cursor := (events.getLast?.map stream_cursor).getD r.cursor
    has_more := decide (r.size true < rows.length)
    snapshot_cursor := "" }

def Database.list (k : Chrono) (db : Database) (p : Principal) (r : ListRequest) :
    Except Error EventPage := do
  authorize p
  let s ← start k false r.cursor
  match db.snapshot p with
  | none => .ok ⟨[], "", false, ""⟩
  | some last =>
    if 0 < last.stream_position ∧ valid_id last.id = true then
      let rows := db.history_rows p r s
      let events := (rows.take (r.size false)).map WebhookEvent.toEvent
      let has_more := decide (r.size false < rows.length)
      .ok {
        events := events
        next_cursor := if has_more then (events.getLast?.map (history_cursor k)).getD r.cursor
          else ""
        has_more := has_more
        snapshot_cursor := stream_cursor_at last.stream_position last.id }
    else .error .Storage

end Appcall.Events
