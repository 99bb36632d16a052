/-
A connection and what is stored about it: `crates/appcall-store/src/store.rs` and
`types.rs`, the migrations of the connection generation and of the OAuth intents.

The model follows one connection: its row, its one intent row and the secrets of the
project. Every write of the row runs the trigger `appcall_bump_connection_generation`,
which decides from the old row, the new row, the marker of the transaction and the
intent whether the identity of the connection changed.

An identifier that is NULL in the table is the empty string here, as `Connection::row`
reads it; the comparisons of the trigger that are not true of a NULL ask that it is
not empty.
-/
import Mathlib.Data.Int.Order.Basic
import Mathlib.Tactic.Cases
import Mathlib.Tactic.SplitIfs

set_option autoImplicit false

namespace Appcall.Oauth

/-! ## The tables -/

inductive AuthType where
  | OAuth2
  | ApiKey
  | ExternalBearer
  deriving DecidableEq

inductive Status where
  | Authorizing
  | Active
  | Disconnected
  | Degraded
  deriving DecidableEq

inductive TestStatus where
  | Unknown
  | Passed
  | Failed
  deriving DecidableEq

inductive CredentialOwner where
  | Brand
  | Platform
  deriving DecidableEq

structure Connection where
  id : String
  project_id : String
  connector : String
  auth_type : AuthType
  status : Status
  secret_ref_id : String
  last_test_status : TestStatus
  external_account_id : String
  credential_owner : CredentialOwner
  deriving DecidableEq

inductive Operation where
  | refresh
  | authorization
  deriving DecidableEq

inductive IntentState where
  | authorizing
  | dispatched
  | unknown
  | completed
  deriving DecidableEq

/-- A row of `oauth_refresh_intents`. An empty `state_digest` is `none`. -/
structure Intent (Digest : Type) where
  attempt_id : String
  secret_ref_id : String
  operation : Operation
  state : IntentState
  state_digest : Option Digest
  pkce_secret_ref_id : Option String
  created_at : ℤ

/-- `TokenSet`. `expires_at` is absent for the zero time. -/
structure TokenSet where
  access_token : String
  refresh_token : String
  expires_at : Option ℤ

/-- An envelope: its kind, and its plain text as the three readers parse it. -/
structure Secret where
  kind : String
  tokens : Option TokenSet
  fields : Option (List (String × String))
  text : Option String

/-- The row of the connection, with the columns that are not in `Connection`. -/
structure Row where
  connection : Connection
  connection_generation : ℕ
  updated_at : ℤ
  deriving DecidableEq

structure Database (Digest : Type) where
  row : Row
  intent : Option (Intent Digest)
  secret_envelopes : List (String × Secret)

variable {Digest : Type}

/-! ## The trigger -/

/-- The transaction-local setting `appcall.oauth_refresh_generation`. -/
structure Marker where
  project_id : String
  connection_id : String
  attempt_id : String
  old_secret_ref_id : String
  new_secret_ref_id : String

/-- `refresh_in_flight` of the trigger. -/
def refresh_in_flight (marker : Option Marker) (intent : Option (Intent Digest))
    (old new : Connection) : Bool :=
  match marker with
  | none => false
  | some m =>
    decide (old.status = .Degraded) && decide (new.status = .Active)
      && decide (m.project_id = old.project_id) && decide (m.connection_id = old.id)
      && decide (old.secret_ref_id ≠ "") && decide (m.old_secret_ref_id = old.secret_ref_id)
      && decide (new.secret_ref_id ≠ "") && decide (m.new_secret_ref_id = new.secret_ref_id)
      && match intent with
        | none => false
        | some i =>
          decide (i.operation = .refresh) && decide (i.state = .dispatched)
            && decide (i.secret_ref_id = old.secret_ref_id)
            && decide (i.attempt_id = m.attempt_id)

/-- `appcall_bump_connection_generation`. -/
def bump_connection_generation (marker : Option Marker) (intent : Option (Intent Digest))
    (old new : Connection) (generation : ℕ) : ℕ :=
  let in_flight := refresh_in_flight marker intent old new
  if old.external_account_id ≠ new.external_account_id
      ∨ old.credential_owner ≠ new.credential_owner
      ∨ old.connector ≠ new.connector
      ∨ old.auth_type ≠ new.auth_type
      ∨ (old.secret_ref_id ≠ new.secret_ref_id ∧ in_flight = false)
      ∨ (old.status ≠ new.status ∧ new.status = .Active ∧ in_flight = false) then
    generation + 1
  else generation

/-! ## Writes -/

inductive StoreError where
  | Invalid
  | NotFound
  | Conflict
  | Storage
  deriving DecidableEq

structure Scope where
  project : String
  account : String

def Scope.owns (scope : Scope) (c : Connection) : Bool :=
  decide (c.project_id = scope.project)
    && (decide (scope.account = "") || decide (c.external_account_id = scope.account))

/-- `UPDATE connections SET ..., updated_at = now()`, with its trigger. -/
def Database.update (db : Database Digest) (marker : Option Marker) (now : ℤ)
    (f : Connection → Connection) : Database Digest :=
  let old := db.row.connection
  { db with
    row := {
      connection := f old
      connection_generation :=
        bump_connection_generation marker db.intent old (f old) db.row.connection_generation
      updated_at := now } }

def Database.lock_connection (db : Database Digest) (scope : Scope) (id : String) :
    Except StoreError Connection :=
  if scope.owns db.row.connection && decide (db.row.connection.id = id) then
    .ok db.row.connection
  else .error .NotFound

def Database.update_scoped (db : Database Digest) (marker : Option Marker) (now : ℤ)
    (scope : Scope) (id : String) (f : Connection → Connection) :
    Except StoreError (Database Digest) :=
  match db.lock_connection scope id with
  | .error e => .error e
  | .ok _ => .ok (db.update marker now f)

def Database.update_status (db : Database Digest) (now : ℤ) (scope : Scope) (id : String)
    (status : Status) : Except StoreError (Database Digest) :=
  db.update_scoped none now scope id (fun c => { c with status })

def Database.update_test_status (db : Database Digest) (now : ℤ) (scope : Scope) (id : String)
    (status : TestStatus) : Except StoreError (Database Digest) :=
  db.update_scoped none now scope id (fun c => { c with last_test_status := status })

def Database.secret (db : Database Digest) (id : String) : Option Secret :=
  db.secret_envelopes.lookup id

def Database.check_secret (db : Database Digest) (id : String) : Except StoreError Unit :=
  if id ≠ "" ∧ db.secret id = none then .error .NotFound else .ok ()

def Database.set_secret_ref (db : Database Digest) (now : ℤ) (scope : Scope) (id : String)
    (secret : String) : Except StoreError (Database Digest) :=
  match db.check_secret secret with
  | .error e => .error e
  | .ok _ => db.update_scoped none now scope id (fun c => { c with secret_ref_id := secret })

/-- The columns `replace_credentials` writes. -/
def Connection.replaced (secret : String) (auth : AuthType) (c : Connection) : Connection :=
  { c with
    secret_ref_id := secret
    auth_type := auth
    status := .Active
    last_test_status := .Unknown }

def Database.replace_credentials (db : Database Digest) (marker : Option Marker) (now : ℤ)
    (scope : Scope) (id : String) (secret : String) (auth : AuthType) :
    Except StoreError (Database Digest) :=
  match db.check_secret secret with
  | .error e => .error e
  | .ok _ => db.update_scoped marker now scope id (Connection.replaced secret auth)

/-- `store_secret`. The primary key refuses an id that is taken. -/
def Database.store_secret (db : Database Digest) (id : String) (secret : Secret) :
    Except StoreError (Database Digest) :=
  if id = "" ∨ secret.kind = "" then .error .Invalid
  else if (db.secret id).isSome then .error .Conflict
  else .ok { db with secret_envelopes := (id, secret) :: db.secret_envelopes }

/-- The time `expire_stale_authorizing` measures: of the pending authorization, or of
the last write of the row. -/
def Database.authorizing_since (db : Database Digest) : ℤ :=
  match db.intent with
  | some i =>
    if i.operation = .authorization ∧ i.state = .authorizing then i.created_at
    else db.row.updated_at
  | none => db.row.updated_at

def Database.expire_stale_authorizing (db : Database Digest) (now : ℤ) (project : String)
    (cutoff : ℤ) : Database Digest :=
  if db.row.connection.project_id = project ∧ db.row.connection.status = .Authorizing
      ∧ db.authorizing_since < cutoff then
    db.update none now (fun c => { c with status := .Disconnected })
  else db

end Appcall.Oauth
