/-
The transactions of an action call: `crates/appcall-actions/src/postgres_store.rs`.

A call holds its idempotency key by a claim, which names the request that holds it.
While the claim is not dispatched, its lease may expire and another request of the same
identity may take it over; once it is dispatched, only a finalizer of the same request
or an operator removes it. The transactions with a reservation move the claim and the
reservation together.
-/
import Appcall.Actions.Policy

set_option autoImplicit false

namespace Appcall.Actions

variable {Value : Type}

/-! ## Claims -/

inductive Acquisition (Value : Type) where
  | Acquired
  | Cached (output : Value)

/-- The identity that a stored record and an attempt share. -/
def Attempt.completed_by (a : Attempt) (r : Record Value) : Bool :=
  decide (r.connection_id = a.connection_id) && decide (r.action = a.action)
    && decide (r.input_hash = a.input_hash)

def Attempt.matches_claim (a : Attempt) (c : Claim) : Bool :=
  decide (c.connection_id = a.connection_id) && decide (c.action = a.action)
    && decide (c.input_hash = a.input_hash)
    && decide (c.external_account_id = some a.external_account_id)
    && decide (c.connector = some a.connector)

def Attempt.matches_audit (a : Attempt) (u : Audit) : Bool :=
  decide (u.connection_id = a.connection_id) && decide (u.connector = a.connector)
    && decide (u.action = a.action) && decide (u.input_hash = a.input_hash)
    && decide (u.external_account_id = a.external_account_id)

/-- The audit says what the provider did. -/
def Audit.terminal (u : Audit) : Bool :=
  match u.resolution with
  | .ProviderOutcomeKnown _ => true
  | .ProvenNotDispatched => false

def Database.terminal_audits (db : Database Value) (key : String) : List Audit :=
  db.audits.filter (fun u => decide (u.idempotency_key = key) && u.terminal)

/-- The claim `acquire` inserts. -/
def Attempt.claim (a : Attempt) (now : ℤ) : Claim :=
  { idempotency_key := a.key
    connection_id := a.connection_id
    action := a.action
    input_hash := a.input_hash
    request_id := a.request_id
    external_account_id := some a.external_account_id
    connector := some a.connector
    leased_until := now + a.lease_ms * 1000
    dispatched_at := none }

/-- The update of `acquire` on a claim that is there. -/
def Attempt.take_over (a : Attempt) (now : ℤ) (c : Claim) : Claim :=
  { c with request_id := a.request_id, leased_until := now + a.lease_ms * 1000 }

/-- `acquire`. The second look for a record, after the claim, is for a finisher that
does not take the lock of the key; here each transaction is one step, so it finds what
the first look found. -/
def Database.acquire (db : Database Value) (a : Attempt) (disabled : Bool) (now : ℤ) :
    Except Code (Acquisition Value × Database Value) :=
  if disabled then .error .PROJECT_DISABLED
  else if a.key = "" then .ok (.Acquired, db)
  else
    match db.records.find a.key with
    | some r =>
      if a.completed_by r then .ok (.Cached r.output, db) else .error .IDEMPOTENCY_CONFLICT
    | none =>
      if db.terminal_audits a.key ≠ [] then
        .error (if (db.terminal_audits a.key).all a.matches_audit then
          .ACTION_CLAIM_ALREADY_COMPLETED else .IDEMPOTENCY_CONFLICT)
      else
        match db.claims.find a.key with
        | none =>
          .ok (.Acquired, { db with
            claims := db.claims.upsert (a.claim now) id (fun _ => rfl) })
        | some c =>
          if a.matches_claim c && decide (c.leased_until ≤ now) && c.dispatched_at.isNone then
            .ok (.Acquired, { db with
              claims := db.claims.modify a.key (a.take_over now) (fun _ => rfl) })
          else .error (if a.matches_claim c then .IDEMPOTENCY_IN_PROGRESS
            else .IDEMPOTENCY_CONFLICT)

/-- The claim of the key is held by the request. -/
def Attempt.holds (a : Attempt) (c : Claim) : Bool :=
  decide (c.idempotency_key = a.key) && decide (c.request_id = a.request_id)

/-- The dispatched claim of the request, which the finalizers ask for. -/
def Database.dispatched_claim (db : Database Value) (a : Attempt) : Bool :=
  (db.claims.find a.key).any (fun c => a.holds c && c.dispatched_at.isSome)

/-- `DELETE FROM action_idempotency_claims` for a request. -/
def Database.delete_claim (db : Database Value) (a : Attempt) : Database Value :=
  if a.key = "" then db else { db with claims := db.claims.delete a.holds }

/-- `release_pending`: the claim goes only while it is not dispatched. -/
def Database.release_pending (db : Database Value) (a : Attempt) : Database Value :=
  if a.key = "" then db
  else { db with claims := db.claims.delete (fun c => a.holds c && c.dispatched_at.isNone) }

/-- `UPDATE action_idempotency_claims SET dispatched_at`: it must find one row. -/
def Database.mark_claim (db : Database Value) (a : Attempt) (now : ℤ) :
    Except Code (Database Value) :=
  if a.key = "" then .ok db
  else if (db.claims.find a.key).any (fun c => decide (c.request_id = a.request_id)
      && decide (now < c.leased_until) && c.dispatched_at.isNone) then
    .ok { db with
      claims := db.claims.modify a.key (fun c => { c with dispatched_at := some now })
        (fun _ => rfl) }
  else .error .IDEMPOTENCY_IN_PROGRESS

structure Connection where
  id : String
  connector : String
  status : String
  auth_type : String
  external_account_id : String
  secret_ref_id : String
  deriving DecidableEq

/-- The connection is still the revision the call has prepared for. -/
def check_revision (current : Option Connection) (revision : Connection) : Except Code Unit :=
  match current with
  | none => .error .CONNECTION_NOT_FOUND
  | some current =>
    if current ≠ revision ∨ current.status ≠ "active" then .error .CONNECTION_CHANGED
    else .ok ()

def Database.mark_dispatched_checked (db : Database Value) (a : Attempt)
    (current : Option Connection) (revision : Connection) (now : ℤ) :
    Except Code (Database Value) :=
  match check_revision current revision with
  | .error e => .error e
  | .ok _ => db.mark_claim a now

/-! ## Reservations -/

/-- What a call has reserved: nothing, or a reservation in a month. A `PolicyReservation`
with an empty `quota_id` is none. -/
abbrev Quota := Option (String × String)

/-- The reservation of an id in its month. -/
def Database.reservation (db : Database Value) (id month : String) : Option Reservation :=
  (db.reservations.find id).filter (fun r => decide (r.month = month))

def Attempt.reserved (a : Attempt) (r : Reservation) : Bool :=
  decide (r.connection_id = a.connection_id) && decide (r.connector = a.connector)
    && decide (r.action = a.action)
    && decide (r.external_account_id = a.external_account_id)
    && decide (r.idempotency_key = some a.key) && decide (r.input_hash = some a.input_hash)

/-- The update of a reservation that is bound to a request. -/
def Reservation.bind (request_id : String) (r : Reservation) : Reservation :=
  { r with request_id := some request_id }

def Database.bind_reservation_identity (db : Database Value) (a : Attempt) (quota : Quota) :
    Except Code (Database Value) :=
  match quota with
  | none => .ok db
  | some (id, month) =>
    if a.key = "" then .ok db
    else
      match db.reservation id month with
      | none => .error .USAGE_RESERVATION_INVALID
      | some r =>
        if !a.reserved r || !r.active then .error .USAGE_RESERVATION_INVALID
        else
          match r.request_id with
          | some request_id =>
            if request_id ≠ a.request_id then .error .USAGE_RESERVATION_INVALID else .ok db
          | none =>
            .ok { db with
              reservations := db.reservations.modify id (Reservation.bind a.request_id)
                (fun _ => rfl) }

/-- A day, the lease of a dispatched reservation. -/
def recovery_lease : ℤ := 24 * 3600 * 1000000

def Reservation.dispatch (now : ℤ) (r : Reservation) : Reservation :=
  { r with state := .dispatched, dispatched_at := some now, expires_at := now + recovery_lease }

def Database.mark_dispatched_checked_with_reservation (db : Database Value) (a : Attempt)
    (current : Option Connection) (revision : Connection) (quota : Quota) (now : ℤ) :
    Except Code (Database Value) :=
  match quota with
  | none => db.mark_dispatched_checked a current revision now
  | some (id, month) =>
    match db.reservation id month with
    | none => .error .USAGE_RESERVATION_INVALID
    | some r =>
      if r.state = .dispatched then
        if a.key ≠ "" ∧ (db.claims.find a.key).map (·.request_id) ≠ some a.request_id then
          .error .IDEMPOTENCY_IN_PROGRESS
        else .ok db
      else if r.state ≠ .pending ∨ r.expired now = true then .error .USAGE_RESERVATION_INVALID
      else
        match check_revision current revision with
        | .error e => .error e
        | .ok _ =>
          match db.mark_claim a now with
          | .error e => .error e
          | .ok db =>
            .ok { db with
              reservations := db.reservations.modify id (Reservation.dispatch now)
                (fun _ => rfl) }

def Database.release_quota_reservation (db : Database Value) (a : Attempt) (quota : Quota)
    (allow_dispatched clear_claim refund_charges : Bool) : Except Code (Database Value) :=
  match quota with
  | none => .ok (db.release_pending a)
  | some (id, month) =>
    let state := (db.reservation id month).map (·.state)
    let can_clear_claim := decide (state = some .pending)
      || (allow_dispatched && decide (state = some .dispatched))
    let clear (db : Database Value) : Database Value :=
      if clear_claim && can_clear_claim then db.delete_claim a else db.release_pending a
    if can_clear_claim then
      match (if refund_charges then db.refund_reservation_charges id else .ok db) with
      | .error e => .error e
      | .ok db => .ok (clear (db.set_state id [.pending, .dispatched] .released))
    else .ok (clear db)

def Database.release_pending_with_reservation (db : Database Value) (a : Attempt)
    (quota : Quota) : Except Code (Database Value) :=
  db.release_quota_reservation a quota false true false

def Database.release_quota_with_reservation (db : Database Value) (a : Attempt)
    (quota : Quota) : Except Code (Database Value) :=
  db.release_quota_reservation a quota true false false

def Database.release_not_dispatched_with_reservation (db : Database Value) (a : Attempt)
    (quota : Quota) : Except Code (Database Value) :=
  match quota with
  | none => .ok (db.delete_claim a)
  | some _ => db.release_quota_reservation a quota true true true

/-! ## Finalizers -/

/-- A keyed attempt without its dispatched claim is refused. -/
def Database.check_claim (db : Database Value) (a : Attempt) : Except Code Unit :=
  if a.key ≠ "" ∧ db.dispatched_claim a = false then .error .IDEMPOTENCY_IN_PROGRESS
  else .ok ()

def Database.finish_not_dispatched_with_reservation (db : Database Value) (a : Attempt)
    (quota : Quota) : Except Code (Database Value) :=
  match quota with
  | none =>
    match db.check_claim a with
    | .error e => .error e
    | .ok _ => .ok (db.delete_claim a)
  | some (id, month) =>
    match db.reservation id month with
    | none => .error .USAGE_RESERVATION_INVALID
    | some r =>
      if r.state ≠ .dispatched then .error .USAGE_RESERVATION_INVALID
      else
        match db.check_claim a with
        | .error e => .error e
        | .ok _ =>
          match db.refund_reservation_charges id with
          | .error e => .error e
          | .ok db => .ok ((db.set_state id [.dispatched] .released).delete_claim a)

/-- `INSERT INTO action_idempotency_records ... ON CONFLICT DO NOTHING`. -/
def Database.record (db : Database Value) (a : Attempt) (output : Value) : Database Value :=
  if a.key = "" then db
  else
    { db with
      records := db.records.upsert
        { idempotency_key := a.key, connection_id := a.connection_id, action := a.action
          input_hash := a.input_hash, output }
        id (fun _ => rfl) }

def Database.finish (cal : Calendar) (db : Database Value) (a : Attempt)
    (output : Option Value) (now : ℤ) : Except Code (Database Value) :=
  match db.check_claim a with
  | .error e => .error e
  | .ok _ =>
    match output with
    | none => .ok db
    | some output =>
      .ok (((db.record a output).write_usage cal a.request_id a.external_account_id none
        now).delete_claim a)

/-- Usage for a reservation, and its settlement. -/
def Database.settle (cal : Calendar) (db : Database Value) (a : Attempt) (id month : String)
    (now : ℤ) : Database Value :=
  (db.write_usage cal a.request_id a.external_account_id (some (id, month)) now).set_state id
    [.dispatched] .settled

def Database.finish_with_reservation (cal : Calendar) (db : Database Value) (a : Attempt)
    (quota : Quota) (output : Option Value) (failed : Bool) (now : ℤ) :
    Except Code (Database Value) :=
  match quota with
  | none => db.finish cal a output now
  | some (id, month) =>
    match db.reservation id month with
    | none => .error .USAGE_RESERVATION_INVALID
    | some r =>
      if output.isSome ∧ r.state = .released then .error .USAGE_RESERVATION_INVALID
      else if a.key ≠ "" ∧ db.dispatched_claim a = false ∧ r.state = .settled
          ∧ (db.records.find a.key).any a.completed_by = true then .ok db
      else if a.key ≠ "" ∧ db.dispatched_claim a = false
          ∧ ¬(r.state = .released ∧ failed = true) then .error .IDEMPOTENCY_IN_PROGRESS
      else
        match output with
        | none => .ok db
        | some output =>
          if r.state = .dispatched then
            .ok (((db.record a output).settle cal a id month now).delete_claim a)
          else if r.state ≠ .settled then .error .USAGE_RESERVATION_INVALID
          else .ok ((db.record a output).delete_claim a)

def Database.finish_read_failure_with_reservation (cal : Calendar) (db : Database Value)
    (a : Attempt) (quota : Quota) (now : ℤ) : Except Code (Database Value) :=
  match quota with
  | none =>
    match db.check_claim a with
    | .error e => .error e
    | .ok _ => .ok (db.delete_claim a)
  | some (id, month) =>
    match db.reservation id month with
    | none => .error .USAGE_RESERVATION_INVALID
    | some r =>
      match db.check_claim a with
      | .error e => .error e
      | .ok _ =>
        if r.state = .dispatched then .ok ((db.settle cal a id month now).delete_claim a)
        else if r.state ≠ .released ∧ r.state ≠ .settled then
          .error .USAGE_RESERVATION_INVALID
        else .ok (db.delete_claim a)

/-! ## The deadline of a read -/

inductive ActionDispatchOutcome where
  | NotDispatched
  | ResponseReceived
  | Unknown
  deriving DecidableEq

/-- The reservations the first query of `finish_read_timeout` looks for. -/
def Attempt.timed_out (a : Attempt) (r : Reservation) : Bool :=
  a.reserved r && r.active
    && (decide (r.request_id = some a.request_id) || decide (r.request_id = none))

/-- The row of `ORDER BY created_at DESC LIMIT 1`. Which one of two rows of the same time
it is, is not specified; `id` is the one it is. -/
def Database.latest_timed_out (db : Database Value) (a : Attempt) (id : Option String) :
    Option Reservation :=
  ((id.bind db.reservations.find).filter a.timed_out).filter (fun r =>
    db.reservations.rows.all (fun r' => !a.timed_out r' || decide (r'.created_at ≤ r.created_at)))

/-- What the first query of `finish_read_timeout` has read, without a lock. -/
structure TimeoutRead where
  id : String
  month : String
  state : ReservationState

/-- The first query of `finish_read_timeout`. -/
def Database.read_timed_out (db : Database Value) (a : Attempt) (id : Option String) :
    Option TimeoutRead :=
  (db.latest_timed_out a id).map (fun r => { id := r.id, month := r.month, state := r.state })

/-- The rest of `finish_read_timeout`, under its locks, from what the first query read. -/
def Database.close_timed_out (cal : Calendar) (db : Database Value) (a : Attempt)
    (read : Option TimeoutRead) (outcome : ActionDispatchOutcome) (now : ℤ) :
    Except Code (Database Value) :=
  match (db.claims.find a.key).filter a.holds with
  | none => .ok db
  | some c =>
    match read with
    | none => .ok (db.delete_claim a)
    | some r =>
      if r.state = .dispatched ∧ c.dispatched_at.isSome = true ∧ outcome ≠ .NotDispatched then
        .ok ((db.settle cal a r.id r.month now).delete_claim a)
      else
        match db.refund_reservation_charges r.id with
        | .error e => .error e
        | .ok db => .ok ((db.set_state r.id [.pending, .dispatched] .released).delete_claim a)

/-- `finish_read_timeout` as one step. An attempt without a key has nothing to finish. -/
def Database.finish_read_timeout (cal : Calendar) (db : Database Value) (a : Attempt)
    (id : Option String) (outcome : ActionDispatchOutcome) (now : ℤ) :
    Except Code (Database Value) :=
  if a.key = "" then .ok db
  else db.close_timed_out cal a (db.read_timed_out a id) outcome now

end Appcall.Actions
