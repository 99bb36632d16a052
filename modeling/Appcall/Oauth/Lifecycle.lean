/-
The life of a connection's credentials: `crates/appcall-oauth/src/lifecycle.rs` and
`authorization.rs`, `save` of `crates/appcall-setup/src/service.rs`, and
`connections`, `test_connection` and `disconnect` of `crates/appcall-api/src/services.rs`.

Each transaction is a function on the `Database`. A call is a transaction, possibly
one request to the provider, and another transaction; between any two of them other
calls may run, and a call may stop for good (a crash, a cancellation, a commit whose
answer is lost). So a `System` holds the calls that are under way, and an operation
moves one of them by one transaction or one request.

A caller that is found cancelled inside a transaction leaves it without a write, which
is a call that takes no step. URL checks, the signature of a state and the hash of it
are made by libraries; they are parameters of `Lifecycle` with what the code relies
on: a signed state opens to its claims, two states have two digests, two draws of
random bytes differ.
-/
import Appcall.Oauth.Connections
import Appcall.Lib.Machine

set_option autoImplicit false

namespace Appcall.Oauth

/-! ## Configuration -/

/-- `Error` of the OAuth crate. -/
inductive Error where
  | InvalidInput
  | InvalidToken
  | StateExpired
  | StateBinding
  | InvalidState
  | NotConfigured
  | Unsupported
  | ConnectionUnavailable
  | Persistence
  | OutcomeUnknown
  | Transport
  deriving DecidableEq

def persistence (e : StoreError) : Error :=
  if e = .NotFound then .ConnectionUnavailable else .Persistence

/-- `OAuthConfig`, as much of it as decides here. -/
structure OAuthConfig where
  supports_refresh : Bool
  pkce : Bool

/-- `AppCredentials`, as much of it as decides here. -/
structure AppCredentials where
  redirect_uri : String

structure StateClaims where
  project_id : String
  connector : String
  connection_id : String
  redirect_uri : String
  expires_at : ℤ
  pkce_ref : String
  deriving DecidableEq

/-- `Lifecycle`: the registry, the apps, the signer, and the random source. -/
structure Lifecycle (State Digest : Type) where
  spec : String → Except Error OAuthConfig
  apps : String → Option AppCredentials
  /-- The checks of `start_configuration` on the URLs of a connector. -/
  launchable : String → Bool
  sign : StateClaims → Except Error State
  /-- The signature and the encoding of a state. -/
  opened : State → Option StateClaims
  digest : State → Digest
  random : ℕ → String
  opened_sign : ∀ claims state, sign claims = .ok state → opened state = some claims
  digest_injective : Function.Injective digest
  random_injective : Function.Injective random

variable {State Digest : Type}

def Lifecycle.start_configuration (lc : Lifecycle State Digest) (connector : String) :
    Except Error (OAuthConfig × AppCredentials) :=
  match lc.spec connector with
  | .error e => .error e
  | .ok spec =>
    match lc.apps connector with
    | none => .error .NotConfigured
    | some app => if lc.launchable connector then .ok (spec, app) else .error .InvalidInput

def TokenSet.needs_refresh (t : TokenSet) (now : ℤ) : Bool :=
  match t.expires_at with
  | none => false
  | some time => decide (time ≤ now + 60)

/-- White space, as `trim` takes it away. -/
def blank (s : String) : Bool := s.toList.all Char.isWhitespace

/-- `TokenSet::decode` of an envelope. -/
def TokenSet.decode (secret : Secret) : Except Error TokenSet :=
  match secret.tokens with
  | none => .error .InvalidToken
  | some tokens => if blank tokens.access_token then .error .InvalidToken else .ok tokens

def tokens_kind (id : String) : String := "oauth_tokens_" ++ id

/-- The kind of the verifier of an authorization. -/
def pkce_kind (id : String) : String := "oauth_pkce_" ++ id

/-! ## Resolution -/

structure Pending where
  connection : Connection
  attempt : String

inductive Prepared where
  | fresh (connection : Connection) (fields : List (String × String))
  | refresh (pending : Pending)

/-- The intent row blocks a secret: it is that secret's, and in doubt. -/
def Intent.fences (i : Intent Digest) (secret_ref_id : String) : Bool :=
  decide (i.secret_ref_id = secret_ref_id)
    && (decide (i.state = .dispatched) || decide (i.state = .unknown))

/-- The current secret of the connection is fenced. -/
def Database.fenced (db : Database Digest) : Bool :=
  match db.intent with
  | none => false
  | some i => i.fences db.row.connection.secret_ref_id

/-- The refresh of the current secret is in flight or in doubt. -/
def Database.refresh_open (db : Database Digest) : Bool :=
  match db.intent with
  | none => false
  | some i => i.fences db.row.connection.secret_ref_id && decide (i.operation = .refresh)

/-- The credentials behind the current secret, or that they must be refreshed. -/
inductive Credentials where
  | fields (f : List (String × String))
  | expired (tokens : TokenSet)

/-- The reading of the secret in `prepare_refresh`. -/
def Database.credentials (db : Database Digest) (now : ℤ) : Except Error Credentials :=
  let connection := db.row.connection
  if connection.secret_ref_id = "" then .ok (.fields [])
  else
    match db.secret connection.secret_ref_id with
    | none => .error .ConnectionUnavailable
    | some secret =>
      if secret.kind ≠ tokens_kind connection.id then
        if "oauth_tokens_".toList.isPrefixOf secret.kind.toList then .error .InvalidToken
        else
          match secret.fields with
          | none => .error .InvalidToken
          | some fields => .ok (.fields fields)
      else if connection.auth_type ≠ .OAuth2 then .error .InvalidToken
      else
        match TokenSet.decode secret with
        | .error e => .error e
        | .ok tokens =>
          if tokens.needs_refresh now then .ok (.expired tokens)
          else .ok (.fields [("accessToken", tokens.access_token)])

/-- The checks between expired tokens and the dispatch of their refresh. -/
def Lifecycle.refreshable (lc : Lifecycle State Digest) (connector : String)
    (tokens : TokenSet) : Except Error Unit :=
  match lc.spec connector with
  | .error e => .error e
  | .ok spec =>
    if !spec.supports_refresh then .error .Unsupported
    else if (lc.apps connector).isNone then .error .NotConfigured
    else if blank tokens.refresh_token then .error .InvalidToken
    else .ok ()

/-- The intent `prepare_refresh` writes. Of a row that exists it keeps the reference of
the verifier. -/
def Database.refresh_intent (db : Database Digest) (attempt : String) (now : ℤ) :
    Intent Digest :=
  { attempt_id := attempt
    secret_ref_id := db.row.connection.secret_ref_id
    operation := .refresh
    state := .dispatched
    state_digest := none
    pkce_secret_ref_id := db.intent.bind (·.pkce_secret_ref_id)
    created_at := now }

/-- The dispatch of a refresh: the intent, then the status. -/
def Database.dispatch_refresh (db : Database Digest) (attempt : String) (now : ℤ) :
    Database Digest :=
  Database.update { db with intent := some (db.refresh_intent attempt now) } none now
    (fun c => { c with status := .Degraded })

/-- Who resolves: the scope, the connector and the identity the caller expects, and
whether it is a health check. -/
structure Resolution where
  scope : Scope
  expected : String
  identity : Option (String × AuthType)
  health : Bool

/-- The connection is not the one the caller has selected. -/
def Resolution.mismatches (r : Resolution) (c : Connection) : Bool :=
  match r.identity with
  | none => false
  | some (owner, auth) =>
    decide (c.external_account_id ≠ owner) || decide (c.auth_type ≠ auth)

/-- The checks of `prepare_refresh` before the secret is read. -/
def Database.resolvable (db : Database Digest) (r : Resolution) : Except Error Unit :=
  let connection := db.row.connection
  match db.lock_connection r.scope connection.id with
  | .error e => .error (persistence e)
  | .ok _ =>
    if r.mismatches connection then .error .ConnectionUnavailable
    else if connection.connector ≠ r.expected then .error .ConnectionUnavailable
    else if db.fenced then .error .OutcomeUnknown
    else if connection.status = .Disconnected
        ∨ (r.health = false ∧ connection.status ≠ .Active) then
      .error .ConnectionUnavailable
    else .ok ()

def Lifecycle.prepare_refresh (lc : Lifecycle State Digest) (db : Database Digest)
    (r : Resolution) (now : ℤ) (attempt : String) : Except Error (Prepared × Database Digest) :=
  match db.resolvable r with
  | .error e => .error e
  | .ok _ =>
    match db.credentials now with
    | .error e => .error e
    | .ok (.fields fields) => .ok (.fresh db.row.connection fields, db)
    | .ok (.expired tokens) =>
      match lc.refreshable r.expected tokens with
      | .error e => .error e
      | .ok _ =>
        .ok (.refresh { connection := db.row.connection, attempt },
          db.dispatch_refresh attempt now)

/-! ## Finishing -/

/-- The intent row is the dispatched one of this attempt and secret. -/
def Intent.awaits (i : Intent Digest) (p : Pending) : Bool :=
  decide (i.attempt_id = p.attempt) && decide (i.secret_ref_id = p.connection.secret_ref_id)
    && decide (i.state = .dispatched)

/-- The condition under which `finish_fenced` stores a result. -/
def Database.accepts (db : Database Digest) (p : Pending) : Bool :=
  (match db.intent with
    | none => false
    | some i => i.awaits p)
    && decide (db.row.connection.connector = p.connection.connector)
    && decide (db.row.connection.external_account_id = p.connection.external_account_id)
    && decide (db.row.connection.auth_type = p.connection.auth_type)
    && decide (db.row.connection.secret_ref_id = p.connection.secret_ref_id)
    && decide (db.row.connection.status = .Degraded)

/-- The envelope of refreshed tokens. Which reader it has is decided by its kind. -/
def TokenSet.envelope (tokens : TokenSet) (id : String) : Secret :=
  { kind := tokens_kind id, tokens := some tokens, fields := none, text := none }

/-- The marker `finish_fenced` sets around its write of the row. -/
def Pending.marker (p : Pending) (current : Connection) (secret : String) : Marker :=
  { project_id := current.project_id
    connection_id := current.id
    attempt_id := p.attempt
    old_secret_ref_id := current.secret_ref_id
    new_secret_ref_id := secret }

/-- `UPDATE oauth_refresh_intents SET state = 'completed', pkce_secret_ref_id = NULL`
for an attempt. -/
def Database.complete_intent (db : Database Digest) (attempt : String) : Database Digest :=
  { db with
    intent := db.intent.map (fun i =>
      if i.attempt_id = attempt then
        { i with state := .completed, pkce_secret_ref_id := none }
      else i) }

/-- `UPDATE oauth_refresh_intents SET state = 'unknown'` for a dispatched attempt. -/
def Database.doubt_intent (db : Database Digest) (attempt : String) : Database Digest :=
  { db with
    intent := db.intent.map (fun i =>
      if i.attempt_id = attempt ∧ i.state = .dispatched then { i with state := .unknown }
      else i) }

/-- The second transaction of `finish_fenced`, with tokens: what it stores. -/
def Database.store_tokens (db : Database Digest) (scope : Scope) (p : Pending)
    (tokens : TokenSet) (now : ℤ) (secret : String) : Except Error (Database Digest) :=
  match db.lock_connection scope p.connection.id with
  | .error e => .error (persistence e)
  | .ok current =>
    if !db.accepts p then .error .ConnectionUnavailable
    else
      match db.store_secret secret (tokens.envelope current.id) with
      | .error e => .error (persistence e)
      | .ok db =>
        match db.replace_credentials (some (p.marker current secret)) now scope current.id
            secret .OAuth2 with
        | .error e => .error (persistence e)
        | .ok db => .ok (db.complete_intent p.attempt)

/-- `finish_fenced`. A failed request leaves its intent in doubt. -/
def Database.finish_fenced (db : Database Digest) (scope : Scope) (p : Pending)
    (result : Except Error TokenSet) (now : ℤ) (secret : String) :
    Except Error Connection × Database Digest :=
  match result with
  | .error _ =>
    match db.lock_connection scope p.connection.id with
    | .error e => (.error (persistence e), db)
    | .ok _ => (.error .OutcomeUnknown, db.doubt_intent p.attempt)
  | .ok tokens =>
    match db.store_tokens scope p tokens now secret with
    | .error e => (.error e, db)
    | .ok db => (.ok db.row.connection, db)

/-! ## Authorization -/

/-- The intent `start_checked` writes. -/
def Database.authorization_intent (db : Database Digest) (attempt : String) (digest : Digest)
    (pkce_ref : Option String) (now : ℤ) : Intent Digest :=
  { attempt_id := attempt
    secret_ref_id := db.row.connection.secret_ref_id
    operation := .authorization
    state := .authorizing
    state_digest := some digest
    pkce_secret_ref_id := pkce_ref
    created_at := now }

def verifier_envelope (id verifier : String) : Secret :=
  { kind := pkce_kind id, tokens := none, fields := none, text := some verifier }

/-- `start_checked`, from the draws of its random identifiers. -/
def Lifecycle.start_checked (lc : Lifecycle State Digest) (db : Database Digest)
    (scope : Scope) (connector : String) (now : ℤ) (verifier pkce_ref attempt : String) :
    Except Error (State × Database Digest) :=
  match lc.start_configuration connector with
  | .error e => .error e
  | .ok (spec, app) =>
    let connection := db.row.connection
    match db.lock_connection scope connection.id with
    | .error e => .error (persistence e)
    | .ok _ =>
      if connection.connector ≠ connector then .error .ConnectionUnavailable
      else
        match lc.sign {
            project_id := connection.project_id
            connector
            connection_id := connection.id
            redirect_uri := app.redirect_uri
            expires_at := now + 600
            pkce_ref } with
        | .error e => .error e
        | .ok state =>
          match (if spec.pkce then
              db.store_secret pkce_ref (verifier_envelope connection.id verifier)
            else .ok db) with
          | .error e => .error (persistence e)
          | .ok db =>
            .ok (state, Database.update
              { db with intent := some (db.authorization_intent attempt (lc.digest state)
                  (if spec.pkce then some pkce_ref else none) now) }
              none now (fun c => { c with status := .Authorizing }))

def Lifecycle.verify (lc : Lifecycle State Digest) (state : State) (project : Option String)
    (connector redirect_uri : String) (now : ℤ) : Except Error StateClaims :=
  match lc.opened state with
  | none => .error .InvalidState
  | some claims =>
    if claims.expires_at ≤ now then .error .StateExpired
    else if (match project with
        | none => false
        | some project => decide (project ≠ "") && decide (project ≠ claims.project_id))
        || decide (connector ≠ claims.connector)
        || decide (redirect_uri ≠ claims.redirect_uri) then
      .error .StateBinding
    else .ok claims

/-- The pending authorization of a state: the checks of `callback_checked` on the rows,
and the attempt that is to be dispatched. -/
def Lifecycle.authorization (lc : Lifecycle State Digest) (db : Database Digest)
    (spec : OAuthConfig) (connector : String) (claims : StateClaims) (state : State)
    [DecidableEq Digest] : Except Error String :=
  let connection := db.row.connection
  if connection.connector ≠ connector ∨ connection.status ≠ .Authorizing then
    .error .ConnectionUnavailable
  else
    match db.intent with
    | none => .error .ConnectionUnavailable
    | some i =>
      if i.state ≠ .authorizing ∨ i.operation ≠ .authorization
          ∨ i.state_digest ≠ some (lc.digest state)
          ∨ i.secret_ref_id ≠ connection.secret_ref_id then
        .error .StateBinding
      else if !spec.pkce then .ok i.attempt_id
      else if i.pkce_secret_ref_id.any (fun reference => decide (reference ≠ claims.pkce_ref))
      then .error .InvalidState
      else
        match db.secret claims.pkce_ref with
        | none => .error .ConnectionUnavailable
        | some secret =>
          if secret.kind ≠ pkce_kind connection.id ∨ secret.text = none then
            .error .InvalidState
          else .ok i.attempt_id

def Database.dispatch_authorization (db : Database Digest) (attempt : String) (now : ℤ) :
    Database Digest :=
  Database.update
    { db with
      intent := db.intent.map (fun i =>
        if i.attempt_id = attempt then { i with state := .dispatched } else i) }
    none now (fun c => { c with status := .Degraded })

/-- `callback_checked` up to the request to the provider. -/
def Lifecycle.callback_checked (lc : Lifecycle State Digest) [DecidableEq Digest]
    (db : Database Digest) (connector : String) (project : Option String) (code : String)
    (state : State) (now : ℤ) : Except Error (Scope × Pending × Database Digest) :=
  if code = "" ∨ code.utf8ByteSize > 4096 then .error .InvalidInput
  else
    match lc.spec connector with
    | .error e => .error e
    | .ok spec =>
      match lc.apps connector with
      | none => .error .NotConfigured
      | some app =>
        match lc.verify state project connector app.redirect_uri now with
        | .error e => .error e
        | .ok claims =>
          if claims.project_id = "" then .error .Persistence
          else
            let scope : Scope := { project := claims.project_id, account := "" }
            match db.lock_connection scope claims.connection_id with
            | .error e => .error (persistence e)
            | .ok _ =>
              match lc.authorization db spec connector claims state with
              | .error e => .error e
              | .ok attempt =>
                .ok (scope, { connection := db.row.connection, attempt },
                  db.dispatch_authorization attempt now)

/-! ## Replacement and disconnection -/

/-- A `save` of setup on this connection: what the first transaction read, the auth
type and the fields, and whether it reuses the connection of its owner. -/
structure Save where
  scope : Scope
  connector : String
  reuse : Bool
  expected : Connection
  auth : AuthType
  credential_owner : CredentialOwner
  fields : List (String × String)

def bundle_envelope (fields : List (String × String)) : Secret :=
  { kind := "connector_setup_bundle", tokens := none, fields := some fields, text := none }

/-- The last transaction of `save`. The first one has refused a connection that is
authorizing. -/
def Database.save (db : Database Digest) (s : Save) (now : ℤ) (secret : String) :
    Except StoreError (Database Digest) :=
  if s.expected.connector ≠ s.connector then .error .NotFound
  else if s.expected.status = .Authorizing then .error .Conflict
  else
    match db.lock_connection s.scope s.expected.id with
    | .error e => .error e
    | .ok current =>
      if current.connector ≠ s.connector then .error .NotFound
      else if s.reuse = true ∧ (current.status = .Authorizing ∨ current.auth_type ≠ s.auth
          ∨ current.credential_owner ≠ s.credential_owner) then .error .Conflict
      else if current ≠ s.expected then .error .Conflict
      else if s.fields = [] then
        db.replace_credentials none now s.scope current.id "" s.auth
      else
        match db.store_secret secret (bundle_envelope s.fields) with
        | .error e => .error e
        | .ok db => db.replace_credentials none now s.scope current.id secret s.auth

/-! ## Diagnostics -/

/-- The health check of the runner: an error, or its status and its source. -/
inductive Health where
  | failed
  | reported (ok : Bool) (from_provider : Bool)

/-- A `test_connection` that has its credentials, or has failed to get them: the scope
of its caller, the connection it saw first, and the revision it checks against. -/
structure Check where
  scope : Scope
  seen : Connection
  revision : Connection
  resolved : Bool

/-- The identity `test_connection` keeps from the first read to the credentials. -/
def Connection.same_identity (a b : Connection) : Bool :=
  decide (a.id = b.id) && decide (a.project_id = b.project_id)
    && decide (a.external_account_id = b.external_account_id)
    && decide (a.connector = b.connector) && decide (a.auth_type = b.auth_type)

/-- `test_connection` with its credentials: it goes on, unless the connection changed. -/
def Check.resolved_as (scope : Scope) (seen revision : Connection) : Option Check :=
  if revision.same_identity seen && decide (revision.status ≠ .Disconnected) then
    some { scope, seen, revision, resolved := true }
  else none

/-- What the health check says about the connection: the test status to record. -/
def Health.test_status : Health → Option TestStatus
  | .failed => none
  | .reported true true => some .Passed
  | .reported true false => some .Unknown
  | .reported false _ => some .Failed

def Health.degraded : Health → Bool
  | .failed => true
  | .reported ok _ => !ok

/-- The result of a test: one that found no credentials has failed. -/
def Check.outcome (c : Check) (health : Health) : Health :=
  if c.resolved then health else .failed

/-- The last transaction of `test_connection`. -/
def Database.record_test (db : Database Digest) (c : Check) (health : Health) (now : ℤ) :
    Except StoreError (Database Digest) :=
  match db.lock_connection c.scope c.seen.id with
  | .error e => .error e
  | .ok current =>
    if current.secret_ref_id ≠ c.revision.secret_ref_id
        ∨ current.connector ≠ c.revision.connector
        ∨ current.auth_type ≠ c.revision.auth_type
        ∨ current.external_account_id ≠ c.revision.external_account_id
        ∨ current.status ≠ c.revision.status then .error .Conflict
    else
      let result := c.outcome health
      let checked : Except StoreError (Database Digest) :=
        match result.test_status with
        | some status => db.update_test_status now c.scope c.seen.id status
        | none => .ok db
      match checked with
      | .error e => .error e
      | .ok db =>
        if result.degraded then db.update_status now c.scope c.seen.id .Degraded
        else .ok db

/-! ## The system -/

/-- Where a request to the provider comes from. -/
inductive Origin (State : Type) where
  | resolve
  | test (scope : Scope) (seen : Connection)
  | callback (state : State)

/-- A call between its two transactions: what it is pending on, and the answer of the
provider once it has asked. `writes` is how often credentials had been written when it
was dispatched, which no code reads. -/
structure Flight (State : Type) where
  scope : Scope
  pending : Pending
  origin : Origin State
  result : Option (Except Error TokenSet)
  writes : ℕ

/-- One connection with the calls under way. The lists of the requests made, of the
states returned and of the secrets whose refresh an authorization has overwritten while
it was in flight or in doubt, and the count of the writes of credentials, are kept for
the statements; no code reads them. -/
structure System (State Digest : Type) where
  db : Database Digest
  now : ℤ
  drawn : ℕ
  flights : List (Flight State)
  tests : List (Scope × Connection)
  checks : List Check
  refreshed : List String
  exchanged : List State
  issued : List State
  reopened : List String
  writes : ℕ

def System.at_rest (db : Database Digest) (now : ℤ) : System State Digest :=
  { db, now, drawn := 0, flights := [], tests := [], checks := [], refreshed := [],
    exchanged := [], issued := [], reopened := [], writes := 0 }

inductive Op (State : Type) where
  | wait (seconds : ℕ)
  | resolve (r : Resolution)
  | start (scope : Scope) (connector : String)
  | callback (connector : String) (project : Option String) (code : String) (state : State)
  /-- The request of a flight, answered, or not made because its caller is gone. -/
  | request (flight : ℕ) (answer : Option (Except Error TokenSet))
  | finish (flight : ℕ)
  | save (s : Save)
  | disconnect (scope : Scope)
  | list (project : String)
  | test (scope : Scope)
  | test_resolve (test : ℕ)
  | check (check : ℕ) (health : Health)

inductive Answer (State : Type) where
  | none
  | failed (e : Error)
  | credentials (c : Connection)
  | authorization (state : State)
  deriving DecidableEq

def Lifecycle.random_id (lc : Lifecycle State Digest) (pre : String) (n : ℕ) : String :=
  pre ++ lc.random n

/-- A resolution after its first transaction: answered, or in flight. -/
inductive Resolved (State Digest : Type) where
  | answered (result : Except Error Connection)
  | in_flight (s : System State Digest)

/-- `resolve_checked_fenced` up to the request to the provider. -/
def Lifecycle.resolve (lc : Lifecycle State Digest) (s : System State Digest)
    (r : Resolution) (origin : Origin State) : Resolved State Digest :=
  match lc.prepare_refresh s.db r s.now (lc.random_id "refresh_" s.drawn) with
  | .error e => .answered (.error e)
  | .ok (.fresh connection _, _) => .answered (.ok connection)
  | .ok (.refresh pending, db) =>
    .in_flight { s with
      db := db
      drawn := s.drawn + 1
      flights := s.flights ++
        [{ scope := r.scope, pending, origin, result := none, writes := s.writes }] }

/-- The resolution of a `test_connection`, through `resolve_health_tracked`. -/
def Connection.health_resolution (seen : Connection) : Resolution :=
  { scope := { project := seen.project_id, account := seen.external_account_id }
    expected := seen.connector
    identity := some (seen.external_account_id, seen.auth_type)
    health := true }

/-- The request of a flight: to refresh its secret, or to exchange the code of its
authorization. -/
def System.request (s : System State Digest) (i : ℕ) (answer : Option (Except Error TokenSet)) :
    System State Digest :=
  match s.flights[i]? with
  | none => s
  | some f =>
    if f.result.isSome then s
    else
      let s := { s with
        flights := s.flights.set i { f with
          result := some (answer.getD (.error .OutcomeUnknown)) } }
      if answer.isNone then s
      else
        match f.origin with
        | .callback state => { s with exchanged := state :: s.exchanged }
        | _ => { s with refreshed := f.pending.connection.secret_ref_id :: s.refreshed }

/-- A `test_connection` after its resolution. -/
def System.tested (s : System State Digest) (scope : Scope) (seen : Connection)
    (result : Except Error Connection) : System State Digest :=
  match result with
  | .error _ =>
    { s with checks := s.checks ++ [{ scope, seen, revision := seen, resolved := false }] }
  | .ok revision => { s with checks := s.checks ++ (Check.resolved_as scope seen revision).toList }

/-- The answer of a call to its caller. -/
def Origin.answer (origin : Origin State) (result : Except Error Connection) : Answer State :=
  match origin, result with
  | .test _ _, _ => .none
  | _, .error e => .failed e
  | _, .ok c => .credentials c

/-- The system after the last transaction of a flight. -/
def System.landed (s : System State Digest) (i : ℕ)
    (landing : Except Error Connection × Database Digest) : System State Digest :=
  { s with
    db := landing.2
    drawn := s.drawn + 1
    flights := s.flights.eraseIdx i
    writes := match landing.1 with
      | .ok _ => s.writes + 1
      | .error _ => s.writes }

/-- `finish_fenced` of a flight that has its answer. -/
def Lifecycle.finish (lc : Lifecycle State Digest) (s : System State Digest) (i : ℕ) :
    System State Digest × Answer State :=
  match s.flights[i]? with
  | none => (s, .none)
  | some f =>
    match f.result with
    | none => (s, .none)
    | some result =>
      let landing := s.db.finish_fenced f.scope f.pending result s.now
        (lc.random_id "sec_" s.drawn)
      match f.origin with
      | .test scope seen => ((s.landed i landing).tested scope seen landing.1, .none)
      | origin => (s.landed i landing, origin.answer landing.1)

def Lifecycle.act (lc : Lifecycle State Digest) [DecidableEq Digest]
    (s : System State Digest) : Op State → System State Digest × Answer State
  | .wait seconds => ({ s with now := s.now + seconds }, .none)
  | .resolve r =>
    match lc.resolve s r .resolve with
    | .answered result => (s, Origin.answer (.resolve : Origin State) result)
    | .in_flight s => (s, .none)
  | .start scope connector =>
    match lc.start_checked s.db scope connector s.now (lc.random_id "" s.drawn)
        (lc.random_id "sec_" (s.drawn + 1)) (lc.random_id "auth_" (s.drawn + 2)) with
    | .error e => (s, .failed e)
    | .ok (state, db) =>
      ({ s with
        db := db
        drawn := s.drawn + 3
        issued := state :: s.issued
        reopened := if s.db.refresh_open then s.db.row.connection.secret_ref_id :: s.reopened
          else s.reopened },
        .authorization state)
  | .callback connector project code state =>
    match lc.callback_checked s.db connector project code state s.now with
    | .error e => (s, .failed e)
    | .ok (scope, pending, db) =>
      ({ s with
        db := db
        flights := s.flights ++
          [{ scope, pending, origin := .callback state, result := none, writes := s.writes }] },
        .none)
  | .request i answer => (s.request i answer, .none)
  | .finish i => lc.finish s i
  | .save save =>
    match s.db.save save s.now (lc.random_id "sec_" s.drawn) with
    | .error _ => (s, .failed .Persistence)
    | .ok db => ({ s with db := db, drawn := s.drawn + 1, writes := s.writes + 1 }, .none)
  | .disconnect scope =>
    match s.db.update_status s.now scope s.db.row.connection.id .Disconnected with
    | .error e => (s, .failed (persistence e))
    | .ok db => ({ s with db := db }, .none)
  | .list project =>
    -- abandoned authorizations are cleaned up half an hour back
    ({ s with db := s.db.expire_stale_authorizing s.now project (s.now - 1800) }, .none)
  | .test scope =>
    let c := s.db.row.connection
    if c.project_id ≠ scope.project
        ∨ (scope.account ≠ "" ∧ c.external_account_id ≠ scope.account)
        ∨ c.status = .Disconnected then (s, .failed .ConnectionUnavailable)
    else ({ s with tests := s.tests ++ [(scope, c)] }, .none)
  | .test_resolve i =>
    match s.tests[i]? with
    | none => (s, .none)
    | some (scope, seen) =>
      let s := { s with tests := s.tests.eraseIdx i }
      if seen.auth_type = .ExternalBearer then (s.tested scope seen (.ok seen), .none)
      else
        match lc.resolve s seen.health_resolution (.test scope seen) with
        | .answered result => (s.tested scope seen result, .none)
        | .in_flight s => (s, .none)
  | .check i health =>
    match s.checks[i]? with
    | none => (s, .none)
    | some c =>
      let s := { s with checks := s.checks.eraseIdx i }
      match s.db.record_test c health s.now with
      | .error _ => (s, .failed .Persistence)
      | .ok db => ({ s with db := db }, .none)

def Lifecycle.step (lc : Lifecycle State Digest) [DecidableEq Digest]
    (s : System State Digest) (op : Op State) : System State Digest := (lc.act s op).1

end Appcall.Oauth
