/-
What one step of the system can do.

`Move` lists the ways in which a step changes the system, with everything the step has
checked; `act_move` says that there are no others. Every invariant of the system is
proved by cases on it, and none of those proofs opens a transaction again.
-/
import Appcall.Oauth.Lifecycle

set_option autoImplicit false

namespace Appcall.Oauth

variable {State Digest : Type}

/-! ## The transactions, inverted -/

variable {db : Database Digest} {scope : Scope} {id : String} {db' : Database Digest}
  {marker : Option Marker} {now : ℤ} {secret : String} {lc : Lifecycle State Digest}
  {r : Resolution} {attempt : String} {p : Pending} {connector : String} {state : State}
  (s : System State Digest) {s' : System State Digest}

theorem lock_connection_ok {c : Connection} (h : db.lock_connection scope id = .ok c) :
    c = db.row.connection ∧ id = db.row.connection.id := by
  rw [Database.lock_connection] at h
  split at h
  next hb =>
    cases h
    rw [Bool.and_eq_true, decide_eq_true_eq] at hb
    exact ⟨rfl, hb.2.symm⟩
  next => cases h

theorem update_scoped_ok {f : Connection → Connection}
    (h : db.update_scoped marker now scope id f = .ok db') : db' = db.update marker now f := by
  rw [Database.update_scoped] at h
  split at h
  · cases h
  · cases h
    rfl

theorem store_secret_ok {secret : Secret} (h : db.store_secret id secret = .ok db') :
    id ≠ "" ∧ db.secret id = none ∧
      db' = { db with secret_envelopes := (id, secret) :: db.secret_envelopes } := by
  rw [Database.store_secret] at h
  split at h
  · cases h
  next hempty =>
  split at h
  · cases h
  next htaken =>
  cases h
  refine ⟨fun h => hempty (.inl h), ?_, rfl⟩
  simpa using htaken

theorem replace_credentials_ok {auth : AuthType}
    (h : db.replace_credentials marker now scope id secret auth = .ok db') :
    db' = db.update marker now (Connection.replaced secret auth) := by
  rw [Database.replace_credentials] at h
  split at h
  · cases h
  · exact update_scoped_ok h

theorem prepare_refresh_refresh (h : lc.prepare_refresh db r now attempt = .ok (.refresh p, db')) :
    p = { connection := db.row.connection, attempt } ∧
      db' = db.dispatch_refresh attempt now ∧
      db.resolvable r = .ok () ∧ ∃ tokens, db.credentials now = .ok (.expired tokens) ∧
        lc.refreshable r.expected tokens = .ok () := by
  rw [Lifecycle.prepare_refresh] at h
  split at h
  · cases h
  next hresolvable =>
  split at h
  · cases h
  · cases h
  next tokens hexpired =>
  split at h
  · cases h
  next hallowed =>
  cases h
  exact ⟨rfl, rfl, hresolvable, tokens, hexpired, hallowed⟩

theorem prepare_refresh_fresh {c : Connection} {fields : List (String × String)}
    (h : lc.prepare_refresh db r now attempt = .ok (.fresh c fields, db')) :
    c = db.row.connection ∧ db' = db ∧ db.resolvable r = .ok () := by
  rw [Lifecycle.prepare_refresh] at h
  split at h
  · cases h
  next hresolvable =>
  split at h
  · cases h
  · cases h
    exact ⟨rfl, rfl, hresolvable⟩
  · split at h <;> cases h

theorem resolvable_ok (h : db.resolvable r = .ok ()) :
    db.fenced = false ∧ db.row.connection.status ≠ .Disconnected ∧
      (r.health = false → db.row.connection.status = .Active) := by
  simp only [Database.resolvable] at h
  split at h
  · cases h
  split at h
  · cases h
  split at h
  · cases h
  split at h
  · cases h
  next hfenced =>
  split at h
  · cases h
  next hstatus =>
  refine ⟨by simpa using hfenced, fun h => hstatus (.inl h), fun hhealth => ?_⟩
  by_contra hactive
  exact hstatus (.inr ⟨hhealth, hactive⟩)

theorem credentials_expired {tokens : TokenSet} (h : db.credentials now = .ok (.expired tokens)) :
    db.row.connection.secret_ref_id ≠ "" ∧
      (db.secret db.row.connection.secret_ref_id).isSome ∧
      db.row.connection.auth_type = .OAuth2 := by
  simp only [Database.credentials] at h
  split at h
  · cases h
  next hempty =>
  split at h
  · cases h
  next secret hsecret =>
  split at h
  · split at h
    · cases h
    · split at h <;> cases h
  split at h
  · cases h
  next hauth =>
  exact ⟨hempty, by rw [hsecret]; rfl, by simpa using hauth⟩

theorem store_tokens_ok {tokens : TokenSet}
    (h : db.store_tokens scope p tokens now secret = .ok db') :
    db.accepts p = true ∧ secret ≠ "" ∧ db.secret secret = none ∧
      p.connection.id = db.row.connection.id ∧
      db' = Database.complete_intent (Database.update
        { db with secret_envelopes :=
            (secret, tokens.envelope db.row.connection.id) :: db.secret_envelopes }
        (some (p.marker db.row.connection secret)) now (Connection.replaced secret .OAuth2))
        p.attempt := by
  rw [Database.store_tokens] at h
  split at h
  · cases h
  next current hlock =>
  obtain ⟨rfl, hid⟩ := lock_connection_ok hlock
  split at h
  · cases h
  next haccepts =>
  split at h
  · cases h
  next db1 hstore =>
  obtain ⟨hne, hnew, rfl⟩ := store_secret_ok hstore
  split at h
  · cases h
  next db2 hreplace =>
  cases h
  rw [replace_credentials_ok hreplace]
  exact ⟨by simpa using haccepts, hne, hnew, hid, rfl⟩

theorem start_checked_ok {verifier pkce_ref : String}
    (h : lc.start_checked db scope connector now verifier pkce_ref attempt = .ok (state, db')) :
    ∃ spec app, lc.spec connector = .ok spec ∧ lc.apps connector = some app ∧
      db.row.connection.connector = connector ∧
      lc.sign {
        project_id := db.row.connection.project_id
        connector
        connection_id := db.row.connection.id
        redirect_uri := app.redirect_uri
        expires_at := now + 600
        pkce_ref } = .ok state ∧
      ∃ secrets, (secrets = db.secret_envelopes ∧ spec.pkce = false ∨
          spec.pkce = true ∧ pkce_ref ≠ "" ∧ db.secret pkce_ref = none ∧
          secrets = (pkce_ref, verifier_envelope db.row.connection.id verifier)
            :: db.secret_envelopes) ∧
        db' = Database.update
          { db with
            secret_envelopes := secrets
            intent := some (db.authorization_intent attempt (lc.digest state)
              (if spec.pkce then some pkce_ref else none) now) }
          none now (fun c => { c with status := .Authorizing }) := by
  rw [Lifecycle.start_checked] at h
  split at h
  · cases h
  next spec app hconfig =>
  obtain ⟨hspec, happ⟩ : lc.spec connector = .ok spec ∧ lc.apps connector = some app := by
    rw [Lifecycle.start_configuration] at hconfig
    split at hconfig
    · cases hconfig
    next spec' hspec =>
    split at hconfig
    · cases hconfig
    next app' happ =>
    split at hconfig
    · cases hconfig
      exact ⟨hspec, happ⟩
    · cases hconfig
  simp only at h
  split at h
  · cases h
  split at h
  · cases h
  next hconnector =>
  split at h
  · cases h
  next state' hsign =>
  split at h
  · cases h
  next db1 hstore =>
  cases h
  refine ⟨spec, app, hspec, happ, by simpa using hconnector, hsign, ?_⟩
  by_cases hpkce : spec.pkce = true
  · rw [if_pos hpkce] at hstore
    obtain ⟨hne, hnew, rfl⟩ := store_secret_ok hstore
    exact ⟨_, .inr ⟨hpkce, hne, hnew, rfl⟩, rfl⟩
  · rw [if_neg hpkce] at hstore
    cases hstore
    exact ⟨_, .inl ⟨rfl, by simpa using hpkce⟩, rfl⟩

theorem authorization_ok [DecidableEq Digest] {spec : OAuthConfig} {claims : StateClaims}
    (h : lc.authorization db spec connector claims state = .ok attempt) :
    db.row.connection.status = .Authorizing ∧
      ∃ i, db.intent = some i ∧ i.state = .authorizing ∧ i.operation = .authorization ∧
        i.state_digest = some (lc.digest state) ∧
        i.secret_ref_id = db.row.connection.secret_ref_id ∧ i.attempt_id = attempt := by
  simp only [Lifecycle.authorization] at h
  split at h
  · cases h
  next hstatus =>
  split at h
  · cases h
  next i hintent =>
  split at h
  · cases h
  next hbinding =>
  have hattempt : i.attempt_id = attempt := by
    split at h
    · cases h
      rfl
    split at h
    · cases h
    split at h
    · cases h
    split at h
    · cases h
    · cases h
      rfl
  refine ⟨?_, i, hintent, ?_, ?_, ?_, ?_, hattempt⟩
  · by_contra hne
    exact hstatus (.inr hne)
  · by_contra hne
    exact hbinding (.inl hne)
  · by_contra hne
    exact hbinding (.inr (.inl hne))
  · by_contra hne
    exact hbinding (.inr (.inr (.inl hne)))
  · by_contra hne
    exact hbinding (.inr (.inr (.inr hne)))

theorem callback_checked_ok [DecidableEq Digest] {project : Option String} {code : String}
    (h : lc.callback_checked db connector project code state now = .ok (scope, p, db')) :
    ∃ i, db.intent = some i ∧ i.state = .authorizing ∧
      i.state_digest = some (lc.digest state) ∧
      i.secret_ref_id = db.row.connection.secret_ref_id ∧
      p = { connection := db.row.connection, attempt := i.attempt_id } ∧
      db' = db.dispatch_authorization i.attempt_id now := by
  rw [Lifecycle.callback_checked] at h
  split at h
  · cases h
  split at h
  · cases h
  split at h
  · cases h
  split at h
  · cases h
  split at h
  · cases h
  simp only at h
  split at h
  · cases h
  split at h
  · cases h
  next attempt hauth =>
  cases h
  obtain ⟨-, i, hintent, hstate, -, hdigest, hsecret, rfl⟩ := authorization_ok hauth
  exact ⟨i, hintent, hstate, hdigest, hsecret, rfl, rfl⟩

theorem save_ok {s : Save} (h : db.save s now secret = .ok db') :
    db.row.connection.status ≠ .Authorizing ∧
      (db' = db.update none now (Connection.replaced "" s.auth) ∨
        secret ≠ "" ∧ db.secret secret = none ∧
        db' = Database.update
          { db with secret_envelopes := (secret, bundle_envelope s.fields)
              :: db.secret_envelopes }
          none now (Connection.replaced secret s.auth)) := by
  rw [Database.save] at h
  split at h
  · cases h
  split at h
  · cases h
  next hauthorizing =>
  split at h
  · cases h
  next current hlock =>
  obtain ⟨rfl, -⟩ := lock_connection_ok hlock
  split at h
  · cases h
  split at h
  · cases h
  split at h
  · cases h
  next hsame =>
  have hexpected : db.row.connection = s.expected := by simpa using hsame
  refine ⟨by rw [hexpected]; exact hauthorizing, ?_⟩
  split at h
  · exact .inl (replace_credentials_ok h)
  · split at h
    · cases h
    next db1 hstore =>
      obtain ⟨hne, hnew, rfl⟩ := store_secret_ok hstore
      exact .inr ⟨hne, hnew, replace_credentials_ok h⟩

/-- The database with nothing but the status and the test status of the row written. -/
def Database.touched (db : Database Digest) (status : Status) (test : TestStatus)
    (at_time : ℤ) : Database Digest :=
  { db with
    row := { db.row with
      connection := { db.row.connection with status, last_test_status := test }
      updated_at := at_time } }

theorem update_touched (db : Database Digest) (now : ℤ) (status : Status) (test : TestStatus)
    (h : status = db.row.connection.status ∨ status ≠ .Active) :
    db.update none now (fun c => { c with status, last_test_status := test })
      = db.touched status test now := by
  have hquiet : ¬(db.row.connection.status ≠ status ∧ status = .Active) := by
    rintro ⟨hne, hactive⟩
    rcases h with rfl | hne'
    · exact hne rfl
    · exact hne' hactive
  simp only [Database.update, Database.touched, bump_connection_generation,
    refresh_in_flight, ne_eq, not_true_eq_false, false_or, and_true]
  rw [if_neg hquiet]

theorem update_status_touched (db : Database Digest) (now : ℤ) (status : Status)
    (h : status = db.row.connection.status ∨ status ≠ .Active) :
    db.update none now (fun c => { c with status })
      = db.touched status db.row.connection.last_test_status now :=
  update_touched db now status db.row.connection.last_test_status h

theorem update_test_touched (db : Database Digest) (now : ℤ) (test : TestStatus) :
    db.update none now (fun c => { c with last_test_status := test })
      = db.touched db.row.connection.status test now :=
  update_touched db now db.row.connection.status test (.inl rfl)

theorem record_test_ok {c : Check} {health : Health} (h : db.record_test c health now = .ok db') :
    ∃ test at_time, db' = db.touched
      (if (c.outcome health).degraded then .Degraded else db.row.connection.status)
      test at_time := by
  rw [Database.record_test] at h
  split at h
  · cases h
  next current hlock =>
  split at h
  · cases h
  simp only at h
  split at h
  · cases h
  next db1 hchecked =>
  -- the first write leaves the status as it is
  obtain ⟨test, at_time, rfl⟩ : ∃ test at_time,
      db1 = db.touched db.row.connection.status test at_time := by
    split at hchecked
    · rw [update_scoped_ok hchecked, update_test_touched]
      exact ⟨_, _, rfl⟩
    · cases hchecked
      exact ⟨db.row.connection.last_test_status, db.row.updated_at, rfl⟩
  split at h
  next hdegraded =>
    rw [if_pos hdegraded, update_scoped_ok h, update_status_touched _ _ _ (.inr (by decide))]
    exact ⟨test, _, rfl⟩
  next hdegraded =>
    rw [if_neg hdegraded]
    cases h
    exact ⟨test, at_time, rfl⟩

/-! ## Moves -/

/-- The database after credentials were written: the secrets, then the row. -/
def Database.with_credentials (db : Database Digest) (marker : Option Marker)
    (secret : String) (auth : AuthType) (secrets : List (String × Secret)) (now : ℤ) :
    Database Digest :=
  Database.update { db with secret_envelopes := secrets } marker now
    (Connection.replaced secret auth)

/-- The ways in which a step changes the system. The calls that are only remembered
(`tests`, `checks`) and what is written beside the point (the generation, the times, the
test status) are not said. -/
inductive Lifecycle.Move (lc : Lifecycle State Digest) (s : System State Digest) :
    Op State → System State Digest → Prop where
  /-- Nothing is written. -/
  | idle {op : Op State} (tests : List (Scope × Connection)) (checks : List Check)
      (seconds : ℕ) (drawn : ℕ) :
      lc.Move s op { s with tests, checks, now := s.now + seconds, drawn := s.drawn + drawn }
  /-- The status is written, by a disconnection, a cleanup or a test. -/
  | touch {op : Op State} (checks : List Check) (status : Status) (test : TestStatus)
      (at_time : ℤ)
      (written : (∃ i health, op = .check i health) ∧ status = s.db.row.connection.status ∨
        (∃ scope, op = .disconnect scope) ∧ status = .Disconnected ∨
        (∃ project, op = .list project) ∧ s.db.row.connection.status = .Authorizing ∧
          s.db.authorizing_since < s.now - 1800 ∧ status = .Disconnected ∨
        ∃ i health c, op = .check i health ∧ s.checks[i]? = some c ∧
          (∃ db, s.db.record_test c health s.now = .ok db) ∧
          (c.outcome health).degraded = true ∧ status = .Degraded) :
      lc.Move s op { s with db := s.db.touched status test at_time, checks }
  /-- A refresh is dispatched, for tokens that are expired and not fenced. -/
  | refresh {op : Op State} (tests : List (Scope × Connection)) (r : Resolution)
      (origin : Origin State)
      (from_op : op = .resolve r ∧ origin = .resolve ∨
        ∃ i scope seen, op = .test_resolve i ∧ s.tests[i]? = some (scope, seen) ∧
          r = seen.health_resolution ∧ origin = .test scope seen)
      (resolvable : s.db.resolvable r = .ok ())
      (tokens : TokenSet) (expired : s.db.credentials s.now = .ok (.expired tokens))
      (allowed : lc.refreshable r.expected tokens = .ok ()) :
      lc.Move s op { s with
        tests
        drawn := s.drawn + 1
        db := { s.db.touched .Degraded s.db.row.connection.last_test_status s.now with
          intent := some (s.db.refresh_intent (lc.random_id "refresh_" s.drawn) s.now) }
        flights := s.flights ++ [{
          scope := r.scope
          pending := {
            connection := s.db.row.connection
            attempt := lc.random_id "refresh_" s.drawn }
          origin, result := none, writes := s.writes }] }
  /-- An authorization is started; the intent is overwritten. -/
  | start {op : Op State} (connector : String) (spec : OAuthConfig) (app : AppCredentials)
      (state : State) (secrets : List (String × Secret))
      (from_op : ∃ scope, op = .start scope connector)
      (hspec : lc.spec connector = .ok spec) (happ : lc.apps connector = some app)
      (hconnector : s.db.row.connection.connector = connector)
      (signed : lc.sign {
        project_id := s.db.row.connection.project_id
        connector
        connection_id := s.db.row.connection.id
        redirect_uri := app.redirect_uri
        expires_at := s.now + 600
        pkce_ref := lc.random_id "sec_" (s.drawn + 1) } = .ok state)
      (stored : secrets = s.db.secret_envelopes ∧ spec.pkce = false ∨
        spec.pkce = true ∧ lc.random_id "sec_" (s.drawn + 1) ≠ "" ∧
        s.db.secret (lc.random_id "sec_" (s.drawn + 1)) = none ∧
        secrets = (lc.random_id "sec_" (s.drawn + 1),
            verifier_envelope s.db.row.connection.id (lc.random_id "" s.drawn))
          :: s.db.secret_envelopes) :
      lc.Move s op { s with
        drawn := s.drawn + 3
        db := { s.db.touched .Authorizing s.db.row.connection.last_test_status s.now with
          secret_envelopes := secrets
          intent := some (s.db.authorization_intent (lc.random_id "auth_" (s.drawn + 2))
            (lc.digest state)
            (if spec.pkce then some (lc.random_id "sec_" (s.drawn + 1)) else none) s.now) }
        issued := state :: s.issued
        reopened := if s.db.refresh_open then s.db.row.connection.secret_ref_id :: s.reopened
          else s.reopened }
  /-- The exchange of a pending authorization is dispatched. -/
  | authorize {op : Op State} (state : State) (scope : Scope) (i : Intent Digest)
      (from_op : ∃ connector project code, op = .callback connector project code state)
      (intent : s.db.intent = some i) (authorizing : i.state = .authorizing)
      (digest : i.state_digest = some (lc.digest state))
      (secret : i.secret_ref_id = s.db.row.connection.secret_ref_id) :
      lc.Move s op { s with
        db := { s.db.touched .Degraded s.db.row.connection.last_test_status s.now with
          intent := some { i with state := .dispatched } }
        flights := s.flights ++ [{
          scope
          pending := { connection := s.db.row.connection, attempt := i.attempt_id }
          origin := .callback state, result := none, writes := s.writes }] }
  /-- A flight asks the provider, or finds that its caller is gone. -/
  | request {op : Op State} (i : ℕ) (f : Flight State)
      (answer : Option (Except Error TokenSet)) (from_op : op = .request i answer)
      (flight : s.flights[i]? = some f) (waiting : f.result = none) :
      lc.Move s op (s.request i answer)
  /-- A flight ends without a result that is stored; its own intent may be in doubt. -/
  | fail {op : Op State} (checks : List Check) (i : ℕ) (f : Flight State)
      (from_op : op = .finish i) (flight : s.flights[i]? = some f)
      (answered : f.result.isSome) (db : Database Digest)
      (doubt : db = s.db ∨ db = s.db.doubt_intent f.pending.attempt) :
      lc.Move s op { s with
        db, checks, drawn := s.drawn + 1, flights := s.flights.eraseIdx i }
  /-- The result of a flight is stored. -/
  | stored {op : Op State} (checks : List Check) (i : ℕ) (f : Flight State)
      (tokens : TokenSet) (from_op : op = .finish i)
      (flight : s.flights[i]? = some f) (result : f.result = some (.ok tokens))
      (accepts : s.db.accepts f.pending = true)
      (named : lc.random_id "sec_" s.drawn ≠ "")
      (new : s.db.secret (lc.random_id "sec_" s.drawn) = none) :
      lc.Move s op { s with
        db := (s.db.with_credentials
          (some (f.pending.marker s.db.row.connection (lc.random_id "sec_" s.drawn)))
          (lc.random_id "sec_" s.drawn) .OAuth2
          ((lc.random_id "sec_" s.drawn, tokens.envelope s.db.row.connection.id)
            :: s.db.secret_envelopes) s.now).complete_intent f.pending.attempt
        checks, drawn := s.drawn + 1, flights := s.flights.eraseIdx i, writes := s.writes + 1 }
  /-- Credentials are replaced, by none or by new ones. -/
  | replaced {op : Op State} (save : Save) (secret : String)
      (secrets : List (String × Secret)) (from_op : op = .save save)
      (calm : s.db.row.connection.status ≠ .Authorizing)
      (written : secret = "" ∧ secrets = s.db.secret_envelopes ∨
        secret ≠ "" ∧ s.db.secret secret = none ∧
        secrets = (secret, bundle_envelope save.fields) :: s.db.secret_envelopes) :
      lc.Move s op { s with
        db := s.db.with_credentials none secret save.auth secrets s.now
        drawn := s.drawn + 1, writes := s.writes + 1 }

theorem Lifecycle.Move.still (lc : Lifecycle State Digest) (s : System State Digest)
    (op : Op State) (tests : List (Scope × Connection)) (checks : List Check) :
    lc.Move s op { s with tests, checks } := by
  have h : lc.Move s op { s with
      tests, checks, now := s.now + (0 : ℕ), drawn := s.drawn + 0 } := .idle tests checks 0 0
  simpa using h

theorem tested_eq (scope : Scope) (seen : Connection) (result : Except Error Connection) :
    ∃ checks, s.tested scope seen result = { s with checks } := by
  cases result with
  | error e => exact ⟨_, rfl⟩
  | ok c => exact ⟨_, rfl⟩

theorem resolve_in_flight {s : System State Digest} {origin : Origin State}
    (h : lc.resolve s r origin = .in_flight s') : s.db.resolvable r = .ok () ∧
      ∃ tokens, s.db.credentials s.now = .ok (.expired tokens) ∧
      lc.refreshable r.expected tokens = .ok () ∧
      s' = { s with
        drawn := s.drawn + 1
        db := { s.db.touched .Degraded s.db.row.connection.last_test_status s.now with
          intent := some (s.db.refresh_intent (lc.random_id "refresh_" s.drawn) s.now) }
        flights := s.flights ++ [{
          scope := r.scope
          pending := {
            connection := s.db.row.connection
            attempt := lc.random_id "refresh_" s.drawn }
          origin, result := none, writes := s.writes }] } := by
  rw [Lifecycle.resolve] at h
  split at h
  · cases h
  · cases h
  next pending db hprepare =>
  cases h
  obtain ⟨rfl, rfl, hresolvable, tokens, hexpired, hallowed⟩ := prepare_refresh_refresh hprepare
  rw [Database.dispatch_refresh, update_status_touched _ _ _ (.inr (by decide))]
  exact ⟨hresolvable, tokens, hexpired, hallowed, rfl⟩

theorem dispatch_authorization_eq {i : Intent Digest} (h : db.intent = some i) (now : ℤ) :
    db.dispatch_authorization i.attempt_id now
      = { db.touched .Degraded db.row.connection.last_test_status now with
        intent := some { i with state := .dispatched } } := by
  rw [Database.dispatch_authorization, update_status_touched _ _ _ (.inr (by decide)), h]
  simp [Database.touched]

theorem finish_fenced_cases (db : Database Digest) (scope : Scope) (p : Pending)
    (result : Except Error TokenSet) (now : ℤ) (secret : String) :
    (∃ e, (db.finish_fenced scope p result now secret).1 = .error e ∧
      ((db.finish_fenced scope p result now secret).2 = db ∨
        (db.finish_fenced scope p result now secret).2 = db.doubt_intent p.attempt)) ∨
    ∃ tokens, result = .ok tokens ∧ db.accepts p = true ∧ secret ≠ "" ∧
      db.secret secret = none ∧
      (db.finish_fenced scope p result now secret).2
        = (db.with_credentials (some (p.marker db.row.connection secret)) secret .OAuth2
            ((secret, tokens.envelope db.row.connection.id) :: db.secret_envelopes)
            now).complete_intent p.attempt ∧
      (db.finish_fenced scope p result now secret).1
        = .ok (db.finish_fenced scope p result now secret).2.row.connection := by
  cases result with
  | error e =>
    left
    simp only [Database.finish_fenced]
    split
    · exact ⟨_, rfl, .inl rfl⟩
    · exact ⟨_, rfl, .inr rfl⟩
  | ok tokens =>
    simp only [Database.finish_fenced]
    cases hstore : db.store_tokens scope p tokens now secret with
    | error e => exact .inl ⟨e, rfl, .inl rfl⟩
    | ok db' =>
      obtain ⟨haccepts, hne, hnew, -, rfl⟩ := store_tokens_ok hstore
      exact .inr ⟨tokens, rfl, haccepts, hne, hnew, rfl, rfl⟩

theorem landed_move {s : System State Digest} {i : ℕ} {f : Flight State}
    {result : Except Error TokenSet} (hflight : s.flights[i]? = some f)
    (hresult : f.result = some result) (checks : List Check) :
    lc.Move s (.finish i) { s.landed i (s.db.finish_fenced f.scope f.pending result s.now
      (lc.random_id "sec_" s.drawn)) with checks } := by
  rcases finish_fenced_cases s.db f.scope f.pending result s.now (lc.random_id "sec_" s.drawn)
    with ⟨e, herror, hdb⟩ | ⟨tokens, rfl, haccepts, hne, hnew, hdb, hok⟩
  · rw [System.landed, herror]
    exact .fail checks i f rfl hflight (by rw [hresult]; rfl) _ hdb
  · rw [System.landed, hok]
    simp only
    rw [hdb]
    exact .stored checks i f tokens rfl hflight hresult haccepts hne hnew

theorem System.request_eq {i : ℕ} {f : Flight State} (hflight : s.flights[i]? = some f)
    (hwaiting : f.result = none) (answer : Option (Except Error TokenSet)) :
    ∃ result refreshed exchanged, s.request i answer = { s with
      flights := s.flights.set i { f with result }, refreshed, exchanged } := by
  simp only [System.request, hflight, hwaiting, Option.isSome_none, Bool.false_eq_true,
    if_false]
  split
  · exact ⟨_, _, _, rfl⟩
  split <;> exact ⟨_, _, _, rfl⟩

/-- **Every step is one of the moves.** -/
theorem act_move (lc : Lifecycle State Digest) [DecidableEq Digest]
    (s : System State Digest) (op : Op State) : lc.Move s op (lc.step s op) := by
  cases op with
  | wait seconds => exact .idle s.tests s.checks seconds 0
  | resolve r =>
    simp only [Lifecycle.step, Lifecycle.act]
    cases hresolve : lc.resolve s r .resolve with
    | answered result => exact .still lc s _ s.tests s.checks
    | in_flight s' =>
      obtain ⟨hresolvable, tokens, hexpired, hallowed, rfl⟩ :=
        resolve_in_flight hresolve
      exact .refresh s.tests r .resolve (.inl ⟨rfl, rfl⟩) hresolvable tokens hexpired
        hallowed
  | start scope connector =>
    simp only [Lifecycle.step, Lifecycle.act]
    split
    · exact .still lc s _ s.tests s.checks
    next state db hstart =>
      obtain ⟨spec, app, hspec, happ, hconnector, hsign, secrets, hstored, rfl⟩ :=
        start_checked_ok hstart
      rw [update_status_touched _ _ _ (.inr (by decide))]
      exact .start connector spec app state secrets ⟨scope, rfl⟩ hspec happ hconnector hsign
        hstored
  | callback connector project code state =>
    simp only [Lifecycle.step, Lifecycle.act]
    split
    · exact .still lc s _ s.tests s.checks
    next scope pending db hcallback =>
      obtain ⟨i, hintent, hstate, hdigest, hsecret, rfl, rfl⟩ := callback_checked_ok hcallback
      rw [dispatch_authorization_eq hintent s.now]
      exact .authorize state scope i ⟨connector, project, code, rfl⟩ hintent hstate
        hdigest hsecret
  | request i answer =>
    simp only [Lifecycle.step, Lifecycle.act]
    cases hflight : s.flights[i]? with
    | none =>
      have hsame : s.request i answer = s := by simp [System.request, hflight]
      rw [hsame]
      exact .still lc s _ s.tests s.checks
    | some f =>
      cases hresult : f.result with
      | none => exact .request i f answer rfl hflight hresult
      | some result =>
        have hsame : s.request i answer = s := by simp [System.request, hflight, hresult]
        rw [hsame]
        exact .still lc s _ s.tests s.checks
  | finish i =>
    simp only [Lifecycle.step, Lifecycle.act, Lifecycle.finish]
    split
    · exact .still lc s _ s.tests s.checks
    next f hflight =>
    split
    · exact .still lc s _ s.tests s.checks
    next result hresult =>
    split
    next scope seen horigin =>
      obtain ⟨checks, htested⟩ := tested_eq (s.landed i (s.db.finish_fenced f.scope f.pending
        result s.now (lc.random_id "sec_" s.drawn))) scope seen
        (s.db.finish_fenced f.scope f.pending result s.now (lc.random_id "sec_" s.drawn)).1
      rw [htested]
      exact landed_move hflight hresult checks
    next => exact landed_move hflight hresult s.checks
  | save save =>
    simp only [Lifecycle.step, Lifecycle.act]
    split
    · exact .still lc s _ s.tests s.checks
    next db hsave =>
      obtain ⟨hcalm, rfl | ⟨hne, hnew, rfl⟩⟩ := save_ok hsave
      · exact .replaced save "" s.db.secret_envelopes rfl hcalm (.inl ⟨rfl, rfl⟩)
      · exact .replaced save _ _ rfl hcalm (.inr ⟨hne, hnew, rfl⟩)
  | disconnect scope =>
    simp only [Lifecycle.step, Lifecycle.act]
    split
    · exact .still lc s _ s.tests s.checks
    next db hupdate =>
      rw [update_scoped_ok hupdate, update_status_touched _ _ _ (.inr (by decide))]
      exact .touch s.checks .Disconnected _ _ (.inr (.inl ⟨⟨scope, rfl⟩, rfl⟩))
  | list project =>
    simp only [Lifecycle.step, Lifecycle.act, Database.expire_stale_authorizing]
    split
    next hstale =>
      rw [update_status_touched _ _ _ (.inr (by decide))]
      exact .touch s.checks .Disconnected _ _
        (.inr (.inr (.inl ⟨⟨project, rfl⟩, hstale.2.1, hstale.2.2, rfl⟩)))
    next => exact .still lc s _ s.tests s.checks
  | test scope =>
    simp only [Lifecycle.step, Lifecycle.act]
    split
    · exact .still lc s _ s.tests s.checks
    · exact .still lc s _ _ s.checks
  | test_resolve i =>
    simp only [Lifecycle.step, Lifecycle.act]
    split
    · exact .still lc s _ s.tests s.checks
    next scope seen htest =>
    split
    · obtain ⟨checks, htested⟩ := tested_eq { s with tests := s.tests.eraseIdx i } scope seen
        (.ok seen)
      rw [htested]
      exact .still lc s _ _ checks
    split
    next result hresolve =>
      obtain ⟨checks, htested⟩ := tested_eq { s with tests := s.tests.eraseIdx i } scope seen
        result
      rw [htested]
      exact .still lc s _ _ checks
    next s' hresolve =>
      obtain ⟨hresolvable, tokens, hexpired, hallowed, rfl⟩ :=
        resolve_in_flight hresolve
      exact .refresh (s.tests.eraseIdx i) seen.health_resolution (.test scope seen)
        (.inr ⟨i, scope, seen, rfl, htest, rfl, rfl⟩) hresolvable tokens hexpired hallowed
  | check i health =>
    simp only [Lifecycle.step, Lifecycle.act]
    split
    · exact .still lc s _ s.tests s.checks
    next c hcheck =>
    split
    · exact .still lc s _ s.tests _
    next db hrecord =>
      obtain ⟨test, at_time, rfl⟩ := record_test_ok hrecord
      have hrecorded : ∃ db, s.db.record_test c health s.now = .ok db := ⟨_, hrecord⟩
      by_cases hdegraded : (c.outcome health).degraded = true
      · rw [if_pos hdegraded]
        exact .touch (s.checks.eraseIdx i) .Degraded test at_time
          (.inr (.inr (.inr ⟨i, health, c, rfl, hcheck, hrecorded, hdegraded, rfl⟩)))
      · rw [if_neg hdegraded]
        exact .touch (s.checks.eraseIdx i) _ test at_time
          (.inl ⟨⟨i, health, rfl⟩, rfl⟩)

theorem Lifecycle.Move.project_eq {s : System State Digest} {op : Op State} (h : lc.Move s op s') :
    s'.db.row.connection.project_id = s.db.row.connection.project_id := by
  cases h with
  | request i f answer from_op flight waiting =>
    obtain ⟨result, refreshed, exchanged, hrequest⟩ := s.request_eq flight waiting answer
    rw [hrequest]
  | fail checks i f from_op flight answered db doubt =>
    rcases doubt with rfl | rfl <;> rfl
  | _ => rfl

end Appcall.Oauth
