/-
The reconciliation of a claim by an operator: `crates/appcall-actions/src/claims.rs`.

An operator who knows what became of a dispatched call says so. That nothing was
dispatched refunds the reservation and removes the claim, so that the key may be used
again; what the provider did settles or releases the reservation and closes the key.
-/
import Appcall.Actions.Repository

set_option autoImplicit false

namespace Appcall.Actions

variable {Value : Type}

inductive ClaimErrorCode where
  | InvalidInput
  | NotFound
  | RequestMismatch
  | OwnershipUnknown
  | IdentityUnknown
  | ClaimLive
  | NotDispatched
  | AlreadyCompleted
  | ReservationIdentityUnknown
  | ReservationMismatch
  | ReservationConflict
  | ReservationStateConflict
  deriving DecidableEq

/-- `ActionClaimReconciliation`, with its scope, of the project the model follows. -/
structure ActionClaimReconciliation where
  external_account_id : String
  idempotency_key : String
  expected_request_id : String
  actor_id : String
  evidence_ref : String
  resolution : ClaimResolution

def bounded_token (value : String) (bound : ℕ) (allow_empty : Bool) : Bool :=
  (allow_empty || decide (value ≠ "")) && decide (value.utf8ByteSize ≤ bound)
    && value.toList.all (fun c => decide (0x21 ≤ c.toNat) && decide (c.toNat ≤ 0x7e))

/-- `validate`. -/
def ActionClaimReconciliation.valid (command : ActionClaimReconciliation) : Bool :=
  bounded_token command.external_account_id 128 true
    && bounded_token command.idempotency_key 128 false
    && bounded_token command.expected_request_id 128 false
    && bounded_token command.actor_id 128 false
    && bounded_token command.evidence_ref 256 false

/-- `ClaimRecord`: the claim of an owner and a connector that are known. -/
structure ClaimRecord where
  idempotency_key : String
  request_id : String
  connection_id : String
  external_account_id : String
  connector : String
  action : String
  input_hash : String
  dispatched : Bool
  leased_until : ℤ

/-- `load_claim`, of an owner that must be known. -/
def Database.load_claim (db : Database Value) (command : ActionClaimReconciliation) :
    Except ClaimErrorCode ClaimRecord :=
  match db.claims.find command.idempotency_key with
  | none => .error .NotFound
  | some c =>
    match c.external_account_id with
    | none => .error .OwnershipUnknown
    | some account =>
      if account ≠ command.external_account_id then .error .NotFound
      else if c.request_id ≠ command.expected_request_id then .error .RequestMismatch
      else
        match c.connector.filter (fun connector => decide (connector ≠ "")) with
        | none => .error .IdentityUnknown
        | some connector =>
          .ok {
            idempotency_key := c.idempotency_key
            request_id := c.request_id
            connection_id := c.connection_id
            external_account_id := account
            connector
            action := c.action
            input_hash := c.input_hash
            dispatched := c.dispatched_at.isSome
            leased_until := c.leased_until }

/-- A reservation that can be told by its request. -/
def Reservation.complete (r : Reservation) : Bool :=
  r.idempotency_key.isSome && r.request_id.isSome && r.input_hash.isSome

def ClaimRecord.reserved (c : ClaimRecord) (r : Reservation) : Bool :=
  decide (r.connection_id = c.connection_id) && decide (r.connector = c.connector)
    && decide (r.action = c.action)
    && decide (r.external_account_id = c.external_account_id)
    && decide (r.idempotency_key = some c.idempotency_key)
    && decide (r.request_id = some c.request_id) && decide (r.input_hash = some c.input_hash)

/-- One row of `load_reservation`. -/
def ClaimRecord.look (c : ClaimRecord) (exact : Option Reservation) (r : Reservation) :
    Except ClaimErrorCode (Option Reservation) :=
  if !r.complete then
    if r.active then .error .ReservationIdentityUnknown else .ok exact
  else if !c.reserved r then
    if r.active then .error .ReservationMismatch else .ok exact
  else if exact.isSome then .error .ReservationConflict
  else .ok (some r)

/-- `load_reservation`: the reservation of the claim among those of its key, the latest
first. -/
def Database.load_reservation (db : Database Value) (c : ClaimRecord) :
    Except ClaimErrorCode (Option Reservation) :=
  ((db.reservations.rows.filter (fun r =>
    decide (r.idempotency_key = some c.idempotency_key))).insertionSort
      (fun r r' => r'.created_at ≤ r.created_at)).foldlM c.look none

def Database.completed_record_exists (db : Database Value) (c : ClaimRecord) :
    Except ClaimErrorCode Bool :=
  match db.records.find c.idempotency_key with
  | none => .ok false
  | some r =>
    if r.connection_id ≠ c.connection_id ∨ r.action ≠ c.action ∨ r.input_hash ≠ c.input_hash then
      .error .ReservationMismatch
    else .ok true

/-- The checks of `reconcile_action_claim` before the resolution: the claim, and its
reservation. The two loads of the claim are one, and the lock of the months is taken with
the reservations that are then read, as the transaction is one step. -/
def Database.reconcilable (db : Database Value) (command : ActionClaimReconciliation) (now : ℤ) :
    Except ClaimErrorCode (ClaimRecord × Option Reservation) :=
  if !command.valid then .error .InvalidInput
  else
    match db.load_claim command with
    | .error e => .error e
    | .ok claim =>
      match db.completed_record_exists claim with
      | .error e => .error e
      | .ok completed =>
        if completed || decide (db.terminal_audits claim.idempotency_key ≠ []) then
          .error .AlreadyCompleted
        else if !claim.dispatched then .error .NotDispatched
        else if now < claim.leased_until then .error .ClaimLive
        else
          match db.load_reservation claim with
          | .error e => .error e
          | .ok reservation => .ok (claim, reservation)

/-- Nothing was dispatched: the reservation is refunded and released. -/
def Database.not_dispatched (db : Database Value) (reservation : Option Reservation) :
    Except ClaimErrorCode (Database Value) :=
  match reservation with
  | none => .ok db
  | some r =>
    if r.state = .settled then .error .ReservationStateConflict
    else
      match db.refund_charges r with
      | none => .error .ReservationStateConflict
      | some db => .ok (db.set_state r.id [.pending, .dispatched] .released)

/-- The provider succeeded: usage is written, and the reservation settled. -/
def Database.succeeded (cal : Calendar) (db : Database Value) (claim : ClaimRecord)
    (reservation : Option Reservation) (now : ℤ) : Except ClaimErrorCode (Database Value) :=
  match reservation with
  | none =>
    .ok (db.write_usage cal claim.request_id claim.external_account_id none now)
  | some r =>
    if r.state = .pending ∨ r.state = .released then .error .ReservationStateConflict
    else
      .ok ((db.write_usage cal claim.request_id claim.external_account_id
        (some (r.id, r.month)) now).set_state r.id [.dispatched] .settled)

/-- The provider failed: the reservation is released, its charges stay. -/
def Database.provider_failed (db : Database Value) (reservation : Option Reservation) :
    Except ClaimErrorCode (Database Value) :=
  match reservation with
  | none => .ok db
  | some r =>
    if r.state = .settled then .error .ReservationStateConflict
    else .ok (db.set_state r.id [.pending, .dispatched] .released)

def Database.resolve (cal : Calendar) (db : Database Value) (claim : ClaimRecord)
    (reservation : Option Reservation) (resolution : ClaimResolution) (now : ℤ) :
    Except ClaimErrorCode (Database Value) :=
  match resolution with
  | .ProvenNotDispatched => db.not_dispatched reservation
  | .ProviderOutcomeKnown true => db.succeeded cal claim reservation now
  | .ProviderOutcomeKnown false => db.provider_failed reservation

def ClaimRecord.audit (c : ClaimRecord) (command : ActionClaimReconciliation) : Audit :=
  { idempotency_key := c.idempotency_key
    request_id := c.request_id
    connection_id := c.connection_id
    external_account_id := c.external_account_id
    connector := c.connector
    action := c.action
    input_hash := c.input_hash
    resolution := command.resolution
    actor_id := command.actor_id
    evidence_ref := command.evidence_ref }

/-- The end of `reconcile_action_claim`: the audit, and the claim if it is given up. -/
def Database.close_claim (db : Database Value) (c : ClaimRecord)
    (command : ActionClaimReconciliation) : Database Value :=
  let db := { db with audits := db.audits ++ [c.audit command] }
  if command.resolution = .ProvenNotDispatched then
    { db with
      claims := db.claims.delete (fun claim =>
        decide (claim.idempotency_key = c.idempotency_key)
          && decide (claim.request_id = c.request_id)) }
  else db

def Database.reconcile_action_claim (cal : Calendar) (db : Database Value)
    (command : ActionClaimReconciliation) (now : ℤ) : Except ClaimErrorCode (Database Value) :=
  match db.reconcilable command now with
  | .error e => .error e
  | .ok (claim, reservation) =>
    match db.resolve cal claim reservation command.resolution now with
    | .error e => .error e
    | .ok db => .ok (db.close_claim claim command)

end Appcall.Actions
