/-
The tables behind an action call, and the writes that several transactions share:
the migrations of the claims, the reservations, the counters and the usage, and
`write_usage` and the refunds of `crates/appcall-actions/src/postgres_store.rs` and
`claims.rs`.

The model follows one project. Every query of the crate names its project, or a
reservation by an id that is unique over all of them. The charges of a reservation are
kept in its row. What no modelled transaction reads back (the action logs, the replay
logs, the times of the last writes) is left out. Times are microseconds.
-/
import Appcall.Lib.Table

set_option autoImplicit false

namespace Appcall.Actions

/-! ## Rows -/

/-- The codes of an `ActionError`. -/
inductive Code where
  | PROJECT_DISABLED
  | IDEMPOTENCY_CONFLICT
  | IDEMPOTENCY_IN_PROGRESS
  | ACTION_CLAIM_ALREADY_COMPLETED
  | CONNECTION_NOT_FOUND
  | CONNECTION_CHANGED
  | CONNECTION_RESTRICTED
  | CONNECTOR_UNAVAILABLE
  | MISSING_SUBACCOUNT
  | USAGE_RESERVATION_INVALID
  | USAGE_LIMIT_EXCEEDED
  | SEND_CAP_EXCEEDED
  | SPEND_CAP_EXCEEDED
  | LINKEDIN_ACTION_TOO_FAST
  | LINKEDIN_NOTED_INVITE_CAP_EXCEEDED
  | LINKEDIN_WARMUP_LIMITED
  | LINKEDIN_INVITE_CAP_EXCEEDED
  | LINKEDIN_MESSAGE_CAP_EXCEEDED
  | LINKEDIN_VIEW_CAP_EXCEEDED
  deriving DecidableEq

/-- `Attempt`, of the project the model follows. -/
structure Attempt where
  request_id : String
  connection_id : String
  connector : String
  external_account_id : String
  action : String
  key : String
  input_hash : String
  lease_ms : ℤ
  deriving DecidableEq

/-- A row of `action_idempotency_claims`. A legacy row may lack its owner. -/
structure Claim where
  idempotency_key : String
  connection_id : String
  action : String
  input_hash : String
  request_id : String
  external_account_id : Option String
  connector : Option String
  leased_until : ℤ
  dispatched_at : Option ℤ

/-- A row of `action_idempotency_records`. -/
structure Record (Value : Type) where
  idempotency_key : String
  connection_id : String
  action : String
  input_hash : String
  output : Value

inductive ClaimResolution where
  | ProvenNotDispatched
  | ProviderOutcomeKnown (provider_succeeded : Bool)
  deriving DecidableEq

/-- A row of `action_claim_reconciliation_audits`. -/
structure Audit where
  idempotency_key : String
  request_id : String
  connection_id : String
  external_account_id : String
  connector : String
  action : String
  input_hash : String
  resolution : ClaimResolution
  actor_id : String
  evidence_ref : String

inductive ReservationState where
  | pending
  | dispatched
  | settled
  | released
  deriving DecidableEq

inductive ChargeKind where
  | send
  | linkedin
  deriving DecidableEq

inductive WindowKind where
  | hour
  | day
  | week
  | month
  | spacing
  deriving DecidableEq

/-- A row of `action_usage_reservation_charges`, with the checks of the table. -/
structure Charge where
  kind : ChargeKind
  action_class : String
  window_kind : WindowKind
  window_key : String
  quantity : ℤ
  spend_micros : ℤ
  refunded : Bool
  quantity_pos : 0 < quantity
  spend_nonneg : 0 ≤ spend_micros

/-- A row of `action_usage_reservations`, with its charges. -/
structure Reservation where
  id : String
  month : String
  connection_id : String
  connector : String
  action : String
  external_account_id : String
  idempotency_key : Option String
  request_id : Option String
  input_hash : Option String
  state : ReservationState
  expires_at : ℤ
  created_at : ℤ
  dispatched_at : Option ℤ
  charges : List Charge

/-- A row of `action_send_caps`. -/
structure SendCap where
  external_account_id : String
  window_key : String
  send_count : ℤ
  spend_micros : ℤ

/-- The primary key of `action_send_caps`. -/
def SendCap.window (r : SendCap) : String × String := (r.external_account_id, r.window_key)

/-- A row of `linkedin_action_counters`. -/
structure LinkedInCounter where
  external_account_id : String
  action_class : String
  window_kind : WindowKind
  window_key : String
  count : ℤ
  last_sent_at : Option ℤ

/-- The primary key of `linkedin_action_counters`. -/
def LinkedInCounter.window (r : LinkedInCounter) : String × String × WindowKind × String :=
  (r.external_account_id, r.action_class, r.window_kind, r.window_key)

/-- A row of `usage_events`, of the kind `action_call` and the quantity 1. -/
structure UsageEvent where
  metering_event_key : String
  external_account_id : String
  occurred_at : ℤ

/-- A row of `usage_monthly_rollups`, of the kind `action_call`. -/
structure Rollup where
  external_account_id : String
  month : String
  quantity : ℤ

/-- The primary key of `usage_monthly_rollups`. -/
def Rollup.window (r : Rollup) : String × String := (r.external_account_id, r.month)

/-- The two tables of counters that charges are made to. -/
structure Counters where
  send_caps : Table SendCap.window
  linkedin : Table LinkedInCounter.window

structure Database (Value : Type) where
  claims : Table Claim.idempotency_key
  records : Table (@Record.idempotency_key Value)
  audits : List Audit
  reservations : Table Reservation.id
  counters : Counters
  usage_events : Table UsageEvent.metering_event_key
  rollups : Table Rollup.window

def Database.empty {Value : Type} : Database Value :=
  { claims := .empty
    records := .empty
    audits := []
    reservations := .empty
    counters := { send_caps := .empty, linkedin := .empty }
    usage_events := .empty
    rollups := .empty }

/-- The formats of `to_char` in UTC, and of the clock of the process. -/
structure Calendar where
  month : ℤ → String
  day : ℤ → String
  hour : ℤ → String
  iso_week : ℤ → String

variable {Value : Type}

/-! ## Reservations -/

def Reservation.active (r : Reservation) : Bool :=
  decide (r.state = .pending) || decide (r.state = .dispatched)

/-- `expires_at <= now()`. -/
def Reservation.expired (r : Reservation) (now : ℤ) : Bool := decide (r.expires_at ≤ now)

/-- The charges that were not refunded. -/
def Reservation.live (r : Reservation) : List Charge := r.charges.filter (fun c => !c.refunded)

def Reservation.refund (r : Reservation) : Reservation :=
  { r with charges := r.charges.map (fun c => { c with refunded := true }) }

/-- `UPDATE action_usage_reservations ... WHERE id = $1 AND state IN (...)`. -/
def Reservation.to_state (states : List ReservationState) (state : ReservationState)
    (r : Reservation) : Reservation :=
  if r.state ∈ states then { r with state } else r

theorem Reservation.to_state_id (states : List ReservationState) (state : ReservationState)
    (r : Reservation) : (r.to_state states state).id = r.id := by
  rw [Reservation.to_state]
  split <;> rfl

/-- A write of the state of a reservation, from some of the states. -/
def Database.set_state (db : Database Value) (id : String) (states : List ReservationState)
    (state : ReservationState) : Database Value :=
  { db with
    reservations := db.reservations.modify id (Reservation.to_state states state)
      (Reservation.to_state_id states state) }

/-! ## Refunds -/

/-- One refund: the counter of the window that was charged goes down, as `clamp` lets
it. There is none when the window has no counter. -/
def Counters.refund_charge (clamp : ℤ → ℤ) (account : String) (n : Counters) (c : Charge) :
    Option Counters :=
  match c.kind with
  | .send =>
    if (n.send_caps.find (account, c.window_key)).isNone then none
    else some { n with
      send_caps := n.send_caps.modify (account, c.window_key)
        (fun r => { r with
          send_count := clamp (r.send_count - c.quantity)
          spend_micros := clamp (r.spend_micros - c.spend_micros) })
        (fun _ => rfl) }
  | .linkedin =>
    if (n.linkedin.find (account, c.action_class, c.window_kind, c.window_key)).isNone then none
    else some { n with
      linkedin := n.linkedin.modify (account, c.action_class, c.window_kind, c.window_key)
        (fun r => { r with count := clamp (r.count - c.quantity) }) (fun _ => rfl) }

/-- `GREATEST(n, 0)`. -/
def greatest (n : ℤ) : ℤ := max n 0

def Counters.refund (clamp : ℤ → ℤ) (account : String) (charges : List Charge) (n : Counters) :
    Option Counters :=
  charges.foldlM (Counters.refund_charge clamp account) n

/-- The refund of what a reservation is still charged for. Every charge is marked in the
transaction that gives it back. -/
def Database.refund_charges (db : Database Value) (r : Reservation) : Option (Database Value) :=
  (db.counters.refund greatest r.external_account_id r.live).map (fun counters =>
    { db with
      counters
      reservations := db.reservations.modify r.id Reservation.refund (fun _ => rfl) })

/-- `refund_reservation_charges` of the store. -/
def Database.refund_reservation_charges (db : Database Value) (reservation_id : String) :
    Except Code (Database Value) :=
  match db.reservations.find reservation_id with
  | none => .error .USAGE_RESERVATION_INVALID
  | some r =>
    match db.refund_charges r with
    | none => .error .USAGE_RESERVATION_INVALID
    | some db => .ok db

/-! ## Usage -/

/-- One usage event and its rollup, unless an event has the metering key already. -/
def Database.meter (db : Database Value) (key account : String) (occurred_at : ℤ)
    (month : String) : Database Value :=
  match db.usage_events.insert
      { metering_event_key := key, external_account_id := account, occurred_at } with
  | none => db
  | some usage_events =>
    { db with
      usage_events
      rollups := db.rollups.upsert { external_account_id := account, month, quantity := 1 }
        (fun r => { r with quantity := r.quantity + 1 }) (fun _ => rfl) }

def action_key (request_id : String) : String := "usage_action_" ++ request_id

def recovery_key (reservation_id : String) : String := "quota_recovery:" ++ reservation_id

/-- `write_usage`, of the store and of the reconciliation: for a reservation, in its
month and at the time it was made; without one, now. -/
def Database.write_usage (cal : Calendar) (db : Database Value) (request_id account : String)
    (reservation : Option (String × String)) (now : ℤ) : Database Value :=
  let occurred_at := (reservation.bind (fun r => db.reservations.find r.1)).elim now
    (fun r => r.created_at)
  db.meter (action_key request_id) account occurred_at
    (reservation.elim (cal.month occurred_at) Prod.snd)

end Appcall.Actions
